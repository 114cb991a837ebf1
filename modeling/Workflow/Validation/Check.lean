import Workflow.Block.Registry
import Workflow.Validation.Order

namespace Workflow

/-- What validation found out about components that passed. -/
structure Validated where
  nodes : Nat
  edges : Nat
  /-- The ids in an order in which the components could run. -/
  order : List String
  deriving DecidableEq, Repr

namespace Validation

/-- The first component whose block type is not registered. -/
def unknownType? (registry : Registry) (nodes : List Node) : Option Node :=
  nodes.find? fun node => !registry.contains node.type

/-- The position of the last component with the given id. -/
def lastPosition? (nodes : List Node) (id : String) : Option Nat :=
  (nodes.zipIdx.filter fun placed => placed.1.id == id).getLast?.map Prod.snd

/-- Whether the target of an edge is among the components or in the tree. -/
def lands (tree : Tree) (nodes : List Node) (out : Out) : Bool :=
  nodes.any (·.id == out.target) || (tree.get? out.target).isSome

/-- The first edge that leads nowhere, as its source and its target. -/
def dangling? (tree : Tree) (nodes : List Node) : Option (String × String) :=
  nodes.findSome? fun node =>
    (node.outs.find? fun out => !lands tree nodes out).map fun out => (node.id, out.target)

/-- The edges among the components, by position. Edges that leave them are left out. -/
def innerEdges (nodes : List Node) : List (Nat × Nat) :=
  nodes.flatMap fun node =>
    node.outs.filterMap fun out => do
      let source ← lastPosition? nodes node.id
      let target ← lastPosition? nodes out.target
      return (source, target)

def graph (nodes : List Node) : Digraph := ⟨nodes.length, innerEdges nodes⟩

def idAt (nodes : List Node) (i : Nat) : String := (nodes[i]?.map Node.id).getD ""

end Validation

open Validation in
/-- Checks components before they run: every block type is registered, every edge leads to a
component, and the edges among them have no cycle. An unknown type is reported before an edge that
leads nowhere, and that before a cycle. -/
def validate (tree : Tree) (registry : Registry) (nodes : List Node) :
    Except GraphError Validated :=
  match unknownType? registry nodes with
  | some node => .error (.unknownBlockType node.id node.type)
  | none =>
    match dangling? tree nodes with
    | some (source, target) => .error (.danglingEdge source target)
    | none =>
      let graph := graph nodes
      match graph.order with
      | .error v => .error (.cyclicDependency (idAt nodes v))
      | .ok order => .ok ⟨nodes.length, graph.edges.length, order.map (idAt nodes)⟩

/-- Checks the components below `root`. -/
def validateWorkflow (tree : Tree) (registry : Registry) (root : String) :
    Except GraphError Validated :=
  match tree.get? root with
  | none => .error (.componentNotFound root)
  | some _ => validate tree registry (tree.descendants root)

end Workflow
