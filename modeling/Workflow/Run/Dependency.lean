import Workflow.Component.Node

namespace Workflow

/-- The components among `nodes` with an edge to `target`, each with the label of the edge, in the
order of the components and of the edges. A component that no component contains is a root and
depends on nothing. -/
def dependencies (target : Node) (nodes : List Node) : List (Node × String) :=
  if target.parent?.isNone then []
  else
    nodes.flatMap fun producer =>
      (producer.outs.filter (·.target == target.id)).map fun out => (producer, out.label)

/-- The components without an edge to one of them. -/
def terminals (nodes : List Node) : List Node :=
  nodes.filter fun node => !node.outs.any fun out => nodes.any (·.id == out.target)

end Workflow
