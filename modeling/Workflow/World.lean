import Workflow.State

namespace Workflow

/-- Something that happened while blocks ran. -/
inductive Event where
  | started (id type : String)
  /-- The block of a component stored a value at a path. -/
  | wrote (id : String) (path : List String) (value : Json)

/-- What all runs share: the application state, with a journal of the blocks that were started and
of the writes they made, oldest first. -/
structure World where
  state : State := []
  journal : List Event := []
  deriving Inhabited

namespace World

def note (world : World) (event : Event) : World :=
  { world with journal := world.journal ++ [event] }

/-- Stores a value at a path and notes that. -/
def write (world : World) (id : String) (path : List String) (value : Json) : World :=
  { world with state := world.state.write path value }.note (.wrote id path value)

/-- The ids of the started components of the given type, in order. -/
def startedOf (world : World) (type : String) : List String :=
  world.journal.filterMap fun
    | .started id found => if found = type then some id else none
    | .wrote .. => none

end World

end Workflow
