import Workflow.CommandLine.Arguments

namespace Workflow.CommandLine

/-- The workflow to run. -/
inductive Target where
  | id (id : String)
  | key (key : String)
  deriving DecidableEq, Repr

/-- What to run, and how. -/
structure RunRequest where
  file : String
  target : Target
  input? : Option String := none
  state? : Option String := none
  workers? : Option Nat := none
  logging : Bool := true
  deriving DecidableEq, Repr

/-- A command: run a workflow, validate a document, list the block types, write an example, or print
a manual. -/
inductive Command where
  | run (request : RunRequest)
  /-- Validates one workflow of a document, or every one. -/
  | validate (file : String) (root? : Option String)
  /-- Lists the block types, in words or as an object of their descriptions. -/
  | blocks (asObject : Bool)
  /-- Writes the example document. -/
  | writeExample (file : String)
  | help (manual : Manual)
  deriving DecidableEq, Repr

namespace Command

/-- The manual of the command `run`. -/
def runManual : Manual where
  words := ["pull", "run"]
  about := "Execute a workflow from a component tree file"
  options := [
    { name := "file", letter? := some 'f', kind? := some .path, required := true,
      about := "Path to the workflow JSON file" },
    { name := "workflow", letter? := some 'w', about := "Id of the workflow component to run" },
    { name := "key", letter? := some 'k', about := "Key of the workflow component to run" },
    { name := "input", letter? := some 'i', about := "Execution environment as a JSON object" },
    { name := "state", letter? := some 's', about := "Initial application state as a JSON object" },
    { name := "workers", kind? := some .natural,
      about := "Maximum concurrent for-each iterations" },
    { name := "no-log", kind? := none, about := "Do not emit an execution log entry" },
    { name := "verbose", letter? := some 'v', kind? := none, about := "Show verbose output" },
    .help]

/-- The manual of the command `validate`. -/
def validateManual : Manual where
  words := ["pull", "validate"]
  about := "Validate a workflow file"
  plain? := some ("<FILE>", "Path to the workflow JSON file")
  options := [
    { name := "workflow", letter? := some 'w',
      about := "Id of the workflow component to check (default: every workflow)" },
    .help]

/-- The manual of the command `blocks`. -/
def blocksManual : Manual where
  words := ["pull", "blocks"]
  about := "List available block types"
  options := [
    { name := "json", kind? := none, about := "Print the editor templates as JSON" }, .help]

/-- The file that the example is written to if no other is named. -/
def exampleFile : String := "workflow.json"

/-- The manual of the command `init`. -/
def initManual : Manual where
  words := ["pull", "init"]
  about := "Create a new example workflow"
  options := [
    { name := "output", letter? := some 'o', kind? := some .path, about := "Output file path",
      default? := some exampleFile },
    .help]

/-- The manual of the command `help`, which knows no options. -/
def helpManual : Manual where
  words := ["pull", "help"]
  about := "Print this message or the help of the given subcommand(s)"
  plain? := some ("[COMMAND]...", "Print help for the subcommand(s)")
  options := []

/-- The manuals of the commands by their names. -/
def manuals : Bindings Manual :=
  [("run", runManual), ("validate", validateManual), ("blocks", blocksManual),
    ("init", initManual), ("help", helpManual)]

/-- The manual of the program. -/
def programManual : Manual where
  words := ["pull"]
  about := "Pull-based workflow runner"
  commands := manuals.map fun entry => (entry.1, entry.2.about)

/-- The workflow that is meant: the one of the given id, else the one of the given key, else the one
of the key `main`. Id and key exclude each other. -/
def target (id? key? : Option String) : Except UsageError Target :=
  match id?, key? with
  | some _, some _ => .error (.exclusive "workflow" "key")
  | some id, none => .ok (.id id)
  | none, some key => .ok (.key key)
  | none, none => .ok (.key "main")

/-- The command `run` with the given arguments. -/
def ofRun (given : Given) : Except UsageError Command := do
  let some file := given.value? "file" | .error (.missingArgument "--file")
  let target ← target (given.value? "workflow") (given.value? "key")
  return .run
    { file, target, input? := given.value? "input", state? := given.value? "state",
      workers? := (given.value? "workers").bind Text.natural?, logging := !given.isSet "no-log" }

/-- The command `validate` with the given arguments. -/
def ofValidate (given : Given) : Except UsageError Command :=
  match given.plain with
  | [] => .error (.missingArgument "FILE")
  | file :: _ => .ok (.validate file (given.value? "workflow"))

/-- The command `help` with the given arguments: at most one, which names a command. -/
def ofHelp : (topics : List String) → Except UsageError Command
  | [] => .ok (.help programManual)
  | [topic] =>
    match manuals.find? topic with
    | some manual => .ok (.help manual)
    | none => .error (.unknownCommand topic)
  | _ :: topic :: _ => .error (.unknownCommand topic)

/-- Reads arguments by a manual, and makes a command of them unless they ask for help. -/
def read (manual : Manual) (make : Given → Except UsageError Command)
    (arguments : List String) : Except UsageError Command := do
  let given ← Given.ofArguments manual arguments
  if given.asksHelp then .ok (.help manual) else make given

/-- Reads a command line. -/
def ofArguments : List String → Except UsageError Command
  | [] => .error .missingCommand
  | name :: arguments =>
    if name = "run" then read runManual ofRun arguments
    else if name = "validate" then read validateManual ofValidate arguments
    else if name = "blocks" then
      read blocksManual (fun given => .ok (.blocks (given.isSet "json"))) arguments
    else if name = "init" then
      read initManual
        (fun given => .ok (.writeExample ((given.value? "output").getD exampleFile))) arguments
    else if name = "help" then ofHelp arguments
    else if Shape.of name = .plain then .error (.unknownCommand name)
    else read programManual (fun _ => .error .missingCommand) (name :: arguments)

end Command

end Workflow.CommandLine
