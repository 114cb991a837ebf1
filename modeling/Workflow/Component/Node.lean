import Workflow.Json.Value

namespace Workflow

/-- An edge to the component `target`, taken on the outcome `label`. -/
structure Out where
  label : String
  target : String
  deriving DecidableEq, Repr, Inhabited

/-- A component of a workflow: one step, bound to a block type, or the container of the steps of a
workflow. It names the components that follow it, each behind the outcome that leads there. -/
structure Node where
  id : String
  type : String
  /-- The component that contains this one. -/
  parent? : Option String := none
  /-- The field values as they were authored. -/
  content : Bindings Json := []
  outs : List Out := []
  deriving Inhabited

namespace Node

/-- Whether an edge of the component is taken on the outcome. -/
def handles (node : Node) (label : String) : Bool := node.outs.any (·.label == label)

def targets (node : Node) (label : String) : List String :=
  (node.outs.filter (·.label == label)).map Out.target

/-- The type of the components that contain a workflow. -/
def workflowType : String := "workflows_workflow"

/-- The key under which a workflow can be found. -/
def key? (node : Node) : Option String := (Bindings.find? node.content "key").bind Json.asText?

end Node

end Workflow
