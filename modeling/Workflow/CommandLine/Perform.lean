import Workflow.CommandLine.Command
import Workflow.CommandLine.ErrorReport
import Workflow.CommandLine.Example
import Workflow.CommandLine.Files
import Workflow.Json.Printer
import Workflow.Json.Reader.Value
import Workflow.Run.Runner
import Workflow.Validation.Check

namespace Workflow.CommandLine

/-- What a run is marked with from outside: its id, and the time that each component took. -/
structure Marks where
  runId : String
  time : String

/-- What a command leaves behind: its exit code and the texts of its two outputs. -/
structure Outcome where
  code : Nat
  out : String
  err : String
  deriving DecidableEq, Repr

/-- A computation that prints lines and may end with an error. What it has printed stays printed
then. -/
abbrev Console (m : Type → Type) := ExceptT ErrorReport (StateT (List String) m)

section

variable {m : Type → Type} [Monad m]

/-- Prints a line, or several if the text has line breaks. -/
def print (line : String) : Console m Unit := modify (· ++ [line])

/-- Ends with an error. -/
def fail {α : Type} (report : ErrorReport) : Console m α := throw report

/-- The outcome of a computation. -/
def Console.outcome (console : Console m Unit) : m Outcome := do
  let (ending, lines) ← (console.run).run []
  let out := String.join (lines.map (· ++ "\n"))
  match ending with
  | .ok () => return ⟨0, out, ""⟩
  | .error report => return ⟨1, out, report.text⟩

/-- What a log entry says in its first line, behind the title. -/
def Severity.marker : Severity → String
  | .info => "ok"
  | .error => "FAILED"

/-- The line about one component of a run. -/
def itemLine (marks : Marks) (item : SummaryItem) : String :=
  "  " ++ padded 20 item.component ++ " " ++ padded 10 (item.outcome?.getD "-") ++ " " ++
    marks.time ++ "  " ++ item.result.compact

/-- The lines of a log entry. -/
def entryLines (marks : Marks) (entry : Entry) : List String :=
  ["", entry.title ++ " [" ++ Severity.marker entry.severity ++ "] run " ++ marks.runId] ++
    entry.summary.map (itemLine marks)

/-- Reads an object that an option gives. A missing option gives the empty object. -/
def readObject (label : String) : Option String → Console m (Bindings Json)
  | none => return []
  | some text =>
    match Json.parse text with
    | .ok (.object fields) => return fields
    | .ok _ => fail ⟨label ++ " must be a JSON object", []⟩
    | .error error => fail ⟨error.message, []⟩

/-- Reads the tree in a file. -/
def loadTree [Files m] (file : String) : Console m Tree := do
  match ← (Files.read file : m (Except FileError String)) with
  | .error error => fail ⟨"reading " ++ file, [error.message]⟩
  | .ok text =>
    match Tree.parse text with
    | .ok tree => return tree
    | .error error => fail (.ofGraphError error)

/-- The result of a run, or the error to report. -/
def settle : Ending FlowError Report → Console m Report
  | .ok report => return report
  | .error error => fail (.ofFlowError error)
  | .crashed report => fail (.ofFlowError (.join report))
  | .tooDeep => fail ⟨"Nested runs are nested too deeply", []⟩

/-- Runs a workflow, and prints its log entry, its return value and the state that it leaves. -/
def performRun [Files m] (marks : Marks) (request : RunRequest) : Console m Unit := do
  print ("Loading workflow from: " ++ request.file)
  let tree ← loadTree request.file
  let env : Environment := ⟨← readObject "Input" request.input?⟩
  let state ← readObject "State" request.state?
  let config : Config := { logging := request.logging }
  let runner : Runner :=
    { registry := Registry.standard, tree
      config := (request.workers?.map config.withWorkers).getD config }
  let run := match request.target with
    | .id id => runner.runWorkflow id env
    | .key key => runner.runKey key env
  let (ending, session) := run { world := { state } }
  (session.sink.entries.flatMap (entryLines marks)).forM print
  let report ← settle ending
  print ""
  match report.returned? with
  | some value => print ("Return value: " ++ value.pretty)
  | none => print "No return value"
  print ("State: " ++ (Json.object session.world.state).pretty)

/-- The workflows to validate: the one asked for, or all of the tree. -/
def rootsOf (tree : Tree) : Option String → List String
  | some root => [root]
  | none => (tree.nodes.filter (·.type == Node.workflowType)).map Node.id

/-- Validates one workflow. -/
def performCheck (tree : Tree) (root : String) : Console m Unit := do
  match validateWorkflow tree Registry.standard root with
  | .error error => fail (.ofGraphError error)
  | .ok found =>
    let key := ((tree.get? root).bind Node.key?).getD ""
    print ("Workflow " ++ root ++ " (key \"" ++ key ++ "\") is valid:")
    print ("   Nodes: " ++ toString found.nodes)
    print ("   Edges: " ++ toString found.edges)
    print ("   Order: " ++ String.intercalate " -> " found.order)

/-- Validates workflows until one is found to be invalid. -/
def performValidate [Files m] (file : String) (root? : Option String) : Console m Unit := do
  print ("Validating workflow: " ++ file)
  let tree ← loadTree file
  match rootsOf tree root? with
  | [] => fail ⟨"no workflow components found", []⟩
  | roots => roots.forM (performCheck tree)

/-- The lines about one block type. -/
def typeLines (name : String) (description : Description) : List String :=
  ["  - " ++ name ++ " (" ++ description.name ++ ", " ++ description.category ++ ")",
    "    " ++ description.description,
    "    outs: " ++ String.intercalate ", " description.labels]

/-- Lists the block types of a registry. -/
def performBlocks (registry : Registry) (asObject : Bool) : Console m Unit :=
  if asObject then
    print (Json.object (registry.types.map fun type => (type.1, type.2.description.toJson))).pretty
  else do
    print "Available block types:"
    print ""
    (registry.types.flatMap fun type => typeLines type.1 type.2.description).forM print

/-- Writes the example. -/
def performExample [Files m] (file : String) : Console m Unit := do
  match ← (Files.write file exampleTree.toJson.pretty : m (Except FileError Unit)) with
  | .error error => fail ⟨error.message, []⟩
  | .ok () =>
    print ("Created example workflow: " ++ file)
    print ""
    print "Run it with:"
    print ("  pull run --file " ++ file ++ " --key main")

/-- Carries out a command. -/
def Command.perform [Files m] (marks : Marks) : Command → Console m Unit
  | .run request => performRun marks request
  | .validate file root? => performValidate file root?
  | .blocks asObject => performBlocks Registry.standard asObject
  | .writeExample file => performExample file
  | .help manual => manual.lines.forM print

/-- Carries out a command line. Wrong arguments have an exit code of their own. -/
def perform [Files m] (marks : Marks) (arguments : List String) : m Outcome :=
  match Command.ofArguments arguments with
  | .error error => return ⟨2, "", error.message ++ "\n"⟩
  | .ok command => (command.perform marks).outcome

end

end Workflow.CommandLine
