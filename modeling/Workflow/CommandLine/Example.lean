import Workflow.Block.Standard
import Workflow.Component.Document

namespace Workflow.CommandLine

/-- The components of the example. -/
def exampleNodes : List Node :=
  let workflow := "wf"
  [{ id := workflow, type := Node.workflowType, content := [("key", .text "main")] },
    { id := "countries", type := ForEach.type, parent? := some workflow,
      content := [("items", .text "[\"France\", \"Poland\"]")],
      outs := [⟨ForEach.loopLabel, "greet"⟩, ⟨"success", "done"⟩, ⟨"error", "report"⟩] },
    { id := "greet", type := ReturnValue.type, parent? := some workflow,
      content := [("value", .text "Hello, @\x7bitem\x7d!")] },
    { id := "done", type := ReturnValue.type, parent? := some workflow,
      content := [("value", .text "@\x7bresult\x7d")] },
    { id := "report", type := LogMessage.type, parent? := some workflow,
      content := [("type", .text "error"),
        ("message", .text "Loop failed: @\x7bresult\x7d")] }]

/-- An example to start from: a workflow that greets the items of a list. -/
def exampleTree : Tree := exampleNodes.foldl Tree.add Tree.empty

end Workflow.CommandLine
