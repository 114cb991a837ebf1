import Workflow.Error
import Workflow.Text.Pieces

namespace Workflow

mutual

/-- The messages of what caused a block error, the nearest cause first. -/
def BlockError.causes : BlockError → List String
  | .missingField _ => []
  | .validation _ => []
  | .evaluation .. => []
  | .state _ => []
  | .executionFailed _ => []
  | .branch error => error.message :: error.causes
  termination_by structural error => error

/-- The messages of what caused a flow error, the nearest cause first. -/
def FlowError.causes : FlowError → List String
  | .graph error => [error.message]
  | .block _ error => error.message :: error.causes
  | .join _ => []
  termination_by structural error => error

end

namespace CommandLine

/-- An error as it is reported: its message and the messages of its causes, the nearest first. -/
structure ErrorReport where
  message : String
  causes : List String := []
  deriving DecidableEq, Repr

namespace ErrorReport

/-- The report of a graph error. -/
def ofGraphError (error : GraphError) : ErrorReport := ⟨error.message, []⟩

/-- The report of a flow error. -/
def ofFlowError (error : FlowError) : ErrorReport := ⟨error.message, error.causes⟩

/-- A text of which the first line follows `first` and the others follow `later`. -/
def indented (first later text : String) : String :=
  let lines := (Text.pieces '\n' text.toList).map String.ofList
  first ++ String.intercalate ("\n" ++ later) lines

/-- The number of a cause, set flush right in five columns. -/
def number (n : Nat) : String := String.ofList ((toString n).toList.leftpad 5 ' ') ++ ": "

/-- A cause alone is indented. Several causes are numbered from zero on. -/
def causeLines : List String → List String
  | [cause] => [indented "    " "    " cause]
  | causes => causes.mapIdx fun n cause => indented (number n) "       " cause

/-- The text of a report. -/
def text (report : ErrorReport) : String :=
  let causes := match report.causes with
    | [] => []
    | causes => ["", "Caused by:"] ++ causeLines causes
  String.intercalate "\n" (("Error: " ++ report.message) :: causes) ++ "\n"

end ErrorReport

end CommandLine

end Workflow
