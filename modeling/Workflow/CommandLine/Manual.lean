namespace Workflow.CommandLine

/-- What a value has to be. A path may not be empty. -/
inductive ValueKind where
  | text
  | path
  | natural
  deriving DecidableEq, Repr

/-- An option that a command knows. -/
structure Known where
  name : String
  letter? : Option Char := none
  /-- What the value has to be. A switch has no value. -/
  kind? : Option ValueKind := some .text
  required : Bool := false
  about : String
  default? : Option String := none
  deriving DecidableEq, Repr

/-- The switch that asks for the manual. -/
def Known.help : Known :=
  { name := "help", letter? := some 'h', kind? := none, about := "Print help" }

/-- What a command is for and which arguments it takes. Arguments are read by a manual, and its text
is what the command prints for help. -/
structure Manual where
  /-- The words that call the command. -/
  words : List String
  about : String
  /-- The commands that it has, and what they do. -/
  commands : List (String × String) := []
  /-- The argument that is no option, and what it says. -/
  plain? : Option (String × String) := none
  options : List Known := [.help]
  deriving DecidableEq, Repr

/-- A text with blanks behind it up to the given width. -/
def padded (width : Nat) (text : String) : String :=
  String.ofList (text.toList.rightpad width ' ')

/-- The lines of a section: its rows in two columns, below a title. A section without rows is left
out. -/
def sectionLines (title : String) (rows : List (String × String)) : List String :=
  let width := (rows.map (·.1.length)).foldl max 0
  if rows.isEmpty then []
  else ["", title ++ ":"] ++ rows.map fun row => "  " ++ padded width row.1 ++ "  " ++ row.2

namespace Known

/-- An option by its long name, with a word for its value. -/
def usage (option : Known) : String :=
  "--" ++ option.name ++
    if option.kind?.isSome then " <" ++ option.name.map Char.toUpper ++ ">" else ""

/-- The row of an option. -/
def row (option : Known) : String × String :=
  let letter := match option.letter? with
    | some c => String.ofList ['-', c, ',', ' ']
    | none => "    "
  let default := match option.default? with
    | some value => " [default: " ++ value ++ "]"
    | none => ""
  (letter ++ option.usage, option.about ++ default)

end Known

namespace Manual

/-- The line that says how a command is called: required options are named. -/
def usage (manual : Manual) : String :=
  let required := manual.options.filter Known.required
  let others := manual.options.filter fun option => !option.required && option ≠ .help
  let words := manual.words ++ (if others.isEmpty then [] else ["[OPTIONS]"]) ++
    required.map Known.usage ++ manual.plain?.toList.map Prod.fst ++
    if manual.commands.isEmpty then [] else ["<COMMAND>"]
  "Usage: " ++ String.intercalate " " words

/-- The lines of a manual. -/
def lines (manual : Manual) : List String :=
  [manual.about, "", manual.usage] ++ sectionLines "Commands" manual.commands ++
    sectionLines "Arguments" manual.plain?.toList ++
    sectionLines "Options" (manual.options.map Known.row)

end Manual

end Workflow.CommandLine
