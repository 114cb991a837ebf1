import Workflow.Environment

namespace Workflow

/-- What a component produced when it ran. -/
structure Record where
  id : String
  outcome? : Option String
  result : Json
  returned? : Option Json
  /-- The environment in which the component ran. -/
  env : Environment
  deriving Inhabited

/-- Whether the component ended with the outcome `label`. -/
def Record.matches (record : Record) (label : String) : Bool := record.outcome? == some label

/-- What the components of a run produced so far: their records in execution order, with the
position of each component's record, the components that are being resolved, and those whose block
was started. Every run, nested ones included, has a scope of its own. -/
structure Scope where
  records : List Record := []
  index : Bindings Nat := []
  resolving : List String := []
  started : List String := []
  deriving Inhabited

namespace Scope

def empty : Scope := {}

def get? (scope : Scope) (id : String) : Option Record :=
  (scope.index.find? id).bind fun i => scope.records[i]?

def contains (scope : Scope) (id : String) : Bool := scope.index.contains id

/-- Stores a record at the end, or in the place of the one of the same component. -/
def insert (scope : Scope) (record : Record) : Scope :=
  match scope.index.find? record.id with
  | some i => { scope with records := scope.records.set i record }
  | none =>
    { scope with
      records := scope.records ++ [record]
      index := scope.index.insert record.id scope.records.length }

/-- Notes that a component is being resolved. -/
def enter (scope : Scope) (id : String) : Scope :=
  { scope with resolving := id :: scope.resolving }

/-- Notes that a component is no longer being resolved. -/
def leave (scope : Scope) (id : String) : Scope :=
  { scope with resolving := scope.resolving.erase id }

/-- Notes that the block of a component was started. -/
def start (scope : Scope) (id : String) : Scope :=
  { scope with started := scope.started ++ [id] }

def size (scope : Scope) : Nat := scope.records.length

/-- The results by component, in execution order. No two records are of the same component. -/
def results (scope : Scope) : Bindings Json :=
  scope.records.map fun record => (record.id, record.result)

end Scope

end Workflow
