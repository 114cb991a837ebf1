import Workflow.Block.Basic
import Workflow.Block.Description

namespace Workflow

/-- A block type: how the block of a component is made, and its description. -/
structure BlockType where
  create : Node → Except BlockError Block
  description : Description := {}

/-- The block types that components can be bound to, in increasing order of their names. -/
structure Registry where
  types : Bindings BlockType := []

namespace Registry

def empty : Registry := {}

/-- Registers a block type. A later registration replaces an earlier one. -/
def register (registry : Registry) (name : String) (type : BlockType) : Registry :=
  ⟨registry.types.insertSorted name type⟩

def find? (registry : Registry) (name : String) : Option BlockType := registry.types.find? name

def contains (registry : Registry) (name : String) : Bool := (registry.find? name).isSome

/-- The names of the block types, in increasing order. -/
def names (registry : Registry) : List String := registry.types.keys

def size (registry : Registry) : Nat := registry.types.length

/-- Makes the block of a component. -/
def create (registry : Registry) (node : Node) : Except FlowError Block :=
  match registry.find? node.type with
  | none => .error (.graph (.unknownBlockType node.id node.type))
  | some type =>
    match type.create node with
    | .ok block => .ok block
    | .error e => .error (.block node.id e)

end Registry

end Workflow
