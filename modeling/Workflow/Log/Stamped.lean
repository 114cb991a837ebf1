import Workflow.Json.Reader.Schema
import Workflow.Log.Entry
import Workflow.Log.RunId
import Workflow.Text.Timestamp

namespace Workflow

open Json (Reader Schema)

/-- What a stored entry says about one component. -/
structure TimedItem extends SummaryItem where
  seconds : Float

/-- A log entry as it is stored: with the id of the run, the time of the entry, and the time that
each component took. -/
structure StampedEntry where
  runId : RunId
  title : String
  severity : Severity
  message : String
  summary : List TimedItem
  returned? : Option Json
  time : Text.Timestamp

/-- What an entry says apart from ids and times. -/
def StampedEntry.entry (stamped : StampedEntry) : Entry :=
  { title := stamped.title, severity := stamped.severity, message := stamped.message,
    summary := stamped.summary.map TimedItem.toSummaryItem, returned? := stamped.returned? }

def TimedItem.toJson (item : TimedItem) : Json :=
  .object [("componentId", .text item.component),
    ("outcome", (item.outcome?.map Json.text).getD .null), ("result", item.result),
    ("returnValue", item.returned?.getD .null), ("executionEnvironment", item.environment),
    ("executionTimeInSeconds", .float item.seconds)]

def StampedEntry.toJson (stamped : StampedEntry) : Json :=
  .object [("runId", .text stamped.runId.write), ("title", .text stamped.title),
    ("severity", .text stamped.severity.name), ("message", .text stamped.message),
    ("summary", .list (stamped.summary.map TimedItem.toJson)),
    ("returnValue", stamped.returned?.getD .null), ("timestamp", .text stamped.time.write)]

/-- Reads a text that a further reader has to accept. -/
def Json.Reader.checked {α : Type} (wanted : String) (read : String → Except String α) :
    Reader α := fun s =>
  match Json.Reader.textAs wanted s with
  | .error fault => .error fault
  | .ok (text, rest) =>
    match read text with
    | .ok value => .ok (value, rest)
    | .error message => .error (Json.Reader.faultBefore (.rejected message) rest)

/-- Reads the name of a severity behind the opening quote. -/
def Severity.named : Reader Severity := fun s =>
  match Json.Reader.text s with
  | .error fault => .error fault
  | .ok (name, rest) =>
    if name = "info" then .ok (.info, rest)
    else if name = "error" then .ok (.error, rest)
    else .error (Json.Reader.faultBefore (.unknownVariant name "`info` or `error`") rest)

/-- Reads a severity: its name, or an object whose only member has that name and holds `null`. -/
def Severity.reader (depth : Nat) : Reader Severity := fun s =>
  match Json.Reader.skipSpace s with
  | [] => .error (Json.Reader.faultAt .endInValue [])
  | '"' :: rest => Severity.named rest
  | '{' :: rest =>
    match depth with
    | 0 => .error (Json.Reader.faultAt .nestedTooDeep ('{' :: rest))
    | _ + 1 => do
      match ← Json.Reader.nextKey true rest with
      | none => .error (Json.Reader.faultAt .expectedValue (Json.Reader.skipSpace rest))
      | some start =>
        let (severity, rest) ← Severity.named start
        let rest ← Json.Reader.colon rest
        let rest ← Json.Reader.nothing rest
        match Json.Reader.skipSpace rest with
        | [] => .error (Json.Reader.faultBefore .endInObject [])
        | '}' :: rest => .ok (severity, rest)
        | rest => .error (Json.Reader.faultBefore .expectedValue rest)
  | rest => .error (Json.Reader.faultAt .expectedValue rest)

/-- What is said about a component, of which some fields are read. -/
structure TimedItem.Draft where
  component : Option String := none
  outcome : Option (Option String) := none
  result : Option Json := none
  returned : Option (Option Json) := none
  environment : Option Json := none
  seconds : Option Float := none

/-- How the items of a summary are read. The outcome and the return value may be missing. -/
def TimedItem.schema : Schema TimedItem.Draft TimedItem where
  title := "struct ExecutionSummaryItem"
  fields := [
    { name := "componentId"
      present := fun draft => draft.component.isSome
      read := fun _ draft s =>
        (Json.Reader.plainText s).map fun r => ({ draft with component := some r.1 }, r.2)
      mayEnd := false },
    { name := "outcome"
      present := fun draft => draft.outcome.isSome
      read := fun _ draft s =>
        (Json.Reader.optional Json.Reader.plainText s).map fun r =>
          ({ draft with outcome := some r.1 }, r.2)
      mayEnd := false },
    { name := "result"
      present := fun draft => draft.result.isSome
      read := fun depth draft s =>
        (Json.Reader.value depth s).map fun r => ({ draft with result := some r.1 }, r.2)
      mayEnd := false },
    { name := "returnValue"
      present := fun draft => draft.returned.isSome
      read := fun depth draft s =>
        (Json.Reader.optional (Json.Reader.value depth) s).map fun r =>
          ({ draft with returned := some r.1 }, r.2)
      mayEnd := false },
    { name := "executionEnvironment"
      present := fun draft => draft.environment.isSome
      read := fun depth draft s =>
        (Json.Reader.value depth s).map fun r => ({ draft with environment := some r.1 }, r.2)
      mayEnd := false },
    { name := "executionTimeInSeconds"
      present := fun draft => draft.seconds.isSome
      read := fun _ draft s =>
        (Json.Reader.float s).map fun r => ({ draft with seconds := some r.1 }, r.2)
      mayEnd := false }]
  empty := {}
  finish := fun draft =>
    match draft.component, draft.result, draft.environment, draft.seconds with
    | none, _, _, _ => .error "componentId"
    | _, none, _, _ => .error "result"
    | _, _, none, _ => .error "executionEnvironment"
    | _, _, _, none => .error "executionTimeInSeconds"
    | some component, some result, some environment, some seconds =>
      .ok { component, outcome? := draft.outcome.getD none, result,
            returned? := draft.returned.getD none, environment, seconds }

/-- An entry of which some fields are read. -/
structure StampedEntry.Draft where
  runId : Option RunId := none
  title : Option String := none
  severity : Option Severity := none
  message : Option String := none
  summary : Option (List TimedItem) := none
  returned : Option (Option Json) := none
  time : Option Text.Timestamp := none

/-- How entries are read. The return value may be missing. -/
def StampedEntry.schema : Schema StampedEntry.Draft StampedEntry where
  title := "struct ExecutionLogEntry"
  fields := [
    { name := "runId"
      present := fun draft => draft.runId.isSome
      read := fun _ draft s =>
        (Json.Reader.checked "a formatted UUID string"
          (fun text => (RunId.read text).mapError fun fault =>
            "UUID parsing failed: " ++ fault.message) s).map
          fun r => ({ draft with runId := some r.1 }, r.2)
      mayEnd := false },
    { name := "title"
      present := fun draft => draft.title.isSome
      read := fun _ draft s =>
        (Json.Reader.plainText s).map fun r => ({ draft with title := some r.1 }, r.2)
      mayEnd := false },
    { name := "severity"
      present := fun draft => draft.severity.isSome
      read := fun depth draft s =>
        (Severity.reader depth s).map fun r => ({ draft with severity := some r.1 }, r.2)
      mayEnd := false },
    { name := "message"
      present := fun draft => draft.message.isSome
      read := fun _ draft s =>
        (Json.Reader.plainText s).map fun r => ({ draft with message := some r.1 }, r.2)
      mayEnd := false },
    { name := "summary"
      present := fun draft => draft.summary.isSome
      read := fun depth draft s =>
        (Json.Reader.sequence TimedItem.schema.read depth s).map fun r =>
          ({ draft with summary := some r.1 }, r.2)
      mayEnd := false },
    { name := "returnValue"
      present := fun draft => draft.returned.isSome
      read := fun depth draft s =>
        (Json.Reader.optional (Json.Reader.value depth) s).map fun r =>
          ({ draft with returned := some r.1 }, r.2)
      mayEnd := false },
    { name := "timestamp"
      present := fun draft => draft.time.isSome
      read := fun _ draft s =>
        (Json.Reader.checked "an RFC 3339 formatted date and time string"
          (fun text => (Text.Timestamp.read text).mapError Text.Timestamp.Fault.message) s).map
          fun r => ({ draft with time := some r.1 }, r.2)
      mayEnd := false }]
  empty := {}
  finish := fun draft =>
    match draft.runId, draft.title, draft.severity, draft.message, draft.summary, draft.time with
    | none, _, _, _, _, _ => .error "runId"
    | _, none, _, _, _, _ => .error "title"
    | _, _, none, _, _, _ => .error "severity"
    | _, _, _, none, _, _ => .error "message"
    | _, _, _, _, none, _ => .error "summary"
    | _, _, _, _, _, none => .error "timestamp"
    | some runId, some title, some severity, some message, some summary, some time =>
      .ok { runId, title, severity, message, summary,
            returned? := draft.returned.getD none, time }

def StampedEntry.parse (text : String) : Except Json.Error StampedEntry :=
  StampedEntry.schema.parse text

end Workflow
