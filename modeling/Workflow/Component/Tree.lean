import Workflow.Component.Node
import Workflow.Error

namespace Workflow

/-- Components in the order in which they were added, no two with the same id. Each may name the
component that contains it. -/
structure Tree where
  nodes : List Node
  distinct : (nodes.map Node.id).Nodup

namespace Tree

def empty : Tree := ⟨[], List.nodup_nil⟩

instance : Inhabited Tree := ⟨empty⟩

def ids (tree : Tree) : List String := tree.nodes.map Node.id

def get? (tree : Tree) (id : String) : Option Node := tree.nodes.find? (·.id == id)

/-- Puts `node` in the place of the component with its id. -/
def replace (nodes : List Node) (node : Node) : List Node :=
  nodes.map fun old => if old.id = node.id then node else old

/-- A component takes the place of one with its own id. -/
theorem map_id_replace (nodes : List Node) (node : Node) :
    (replace nodes node).map Node.id = nodes.map Node.id := by
  rw [replace, List.map_map]
  apply List.map_congr_left
  intro old _
  by_cases h : old.id = node.id <;> simp [h]

/-- Adds a component at the end, or in the place of the one that has its id. -/
def add (tree : Tree) (node : Node) : Tree :=
  if h : node.id ∈ tree.ids then ⟨replace tree.nodes node, by
    rw [map_id_replace]
    exact tree.distinct⟩
  else ⟨tree.nodes ++ [node], by
    rw [List.map_append, List.nodup_append]
    refine ⟨tree.distinct, by simp, ?_⟩
    intro id hid other hother heq
    rw [List.map_singleton, List.mem_singleton] at hother
    exact h (hother ▸ heq ▸ hid)⟩

/-- The components below `parent` that are not listed yet, appended to `listed`: each is followed by
those below it. The root itself is never listed. `depth` bounds how far the search goes down. -/
def collect (tree : Tree) (root : String) : (depth : Nat) → String → List Node → List Node
  | 0, _, listed => listed
  | depth + 1, parent, listed =>
    tree.nodes.foldl
      (fun listed node =>
        if node.parent? = some parent ∧ node.id ≠ root ∧ node.id ∉ listed.map Node.id then
          collect tree root depth node.id (listed ++ [node])
        else listed)
      listed

/-- The components below `root`, each followed by those below it. Each level that the search goes
down has listed one more component, so it ends within the number of components. -/
def descendants (tree : Tree) (root : String) : List Node :=
  tree.collect root (tree.nodes.length + 1) root []

/-- The first workflow container whose key is `key`. -/
def findWorkflow? (tree : Tree) (key : String) : Option Node :=
  tree.nodes.find? fun node => node.type == Node.workflowType && node.key? == some key

/-- Whether the chain of containers from `parent?` on meets an id that is in `seen` or comes twice.
`more` bounds its length. -/
def revisits (tree : Tree) : (more : Nat) → (seen : List String) → (parent? : Option String) → Bool
  | _, _, none => false
  | 0, _, some _ => true
  | more + 1, seen, some id =>
    if id ∈ seen then true
    else revisits tree more (id :: seen) ((tree.get? id).bind Node.parent?)

/-- Whether following the containers of a component never ends. A chain that is longer than the
tree has to come back. -/
def loops (tree : Tree) (node : Node) : Bool :=
  tree.revisits (tree.nodes.length + 1) [node.id] node.parent?

/-- Adds components that must have new ids. -/
def addNew (tree : Tree) : List Node → Except GraphError Tree
  | [] => .ok tree
  | node :: rest =>
    if node.id ∈ tree.ids then .error (.invalidDocument (.duplicateId node.id))
    else addNew (tree.add node) rest

/-- The tree of the given components. Ids must differ, and no chain of containers may loop. -/
def ofNodes (nodes : List Node) : Except GraphError Tree := do
  let tree ← empty.addNew nodes
  match tree.nodes.find? tree.loops with
  | some node => .error (.invalidDocument (.ownAncestor node.id))
  | none => .ok tree

end Tree

end Workflow
