import Workflow.Run.Scope

namespace Workflow

/-- Whether a run succeeded. -/
inductive Severity where
  | info
  | error
  deriving DecidableEq, Repr

def Severity.name : Severity → String
  | .info => "info"
  | .error => "error"

/-- What a run says about one component. -/
structure SummaryItem where
  component : String
  outcome? : Option String
  result : Json
  returned? : Option Json
  environment : Json

/-- What a run says about itself. A top-level run writes one entry when it ends. -/
structure Entry where
  title : String
  severity : Severity
  message : String
  summary : List SummaryItem
  returned? : Option Json

/-- What a record says about its component. -/
def Record.summary (record : Record) : SummaryItem :=
  { component := record.id, outcome? := record.outcome?, result := record.result,
    returned? := record.returned?, environment := record.env.toJson }

/-- The summary of a run, in execution order. -/
def Scope.summary (scope : Scope) : List SummaryItem := scope.records.map Record.summary

def Entry.ofSuccess (scope : Scope) (returned? : Option Json) : Entry :=
  { title := "Workflow execution", severity := .info, message := "Execution finished.",
    summary := scope.summary, returned? }

def Entry.ofFailure (scope : Scope) : Entry :=
  { title := "Failed workflow execution", severity := .error, message := "Execution finished.",
    summary := scope.summary, returned? := none }

/-- Where the entries of runs go: nowhere, or into a list. -/
inductive Sink where
  | discard
  | keep (entries : List Entry)

namespace Sink

def append (sink : Sink) (entry : Entry) : Sink :=
  match sink with
  | .discard => .discard
  | .keep entries => .keep (entries ++ [entry])

def entries : Sink → List Entry
  | .discard => []
  | .keep entries => entries

def count (sink : Sink) (severity : Severity) : Nat :=
  (sink.entries.filter (·.severity == severity)).length

end Sink

end Workflow
