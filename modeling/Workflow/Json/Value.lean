import Workflow.Bindings

namespace Workflow

/-- A JSON value. Objects keep the order in which their members were first written. Whole numbers
and floating-point numbers are different values, also when they stand for the same number. -/
inductive Json where
  | null
  | bool (b : Bool)
  | int (n : Int)
  | float (x : Float)
  | text (s : String)
  | list (items : List Json)
  | object (fields : List (String × Json))
  deriving Inhabited

namespace Json

/-- The member `key` of an object. -/
def field? : Json → String → Option Json
  | .object fields, key => Bindings.find? fields key
  | _, _ => none

def asText? : Json → Option String
  | .text s => some s
  | _ => none

def asObject? : Json → Option (Bindings Json)
  | .object fields => some fields
  | _ => none

mutual

/-- Whether two values are the same when the order of object members is ignored. -/
def same : Json → Json → Bool
  | .null, .null => true
  | .bool a, .bool b => a == b
  | .int a, .int b => a == b
  | .float a, .float b => a == b
  | .text a, .text b => a == b
  | .list a, .list b => sameItems a b
  | .object a, .object b => a.length == b.length && sameFields a b
  | _, _ => false
  termination_by structural value => value

/-- Whether two lists have the same values at the same positions. -/
def sameItems : List Json → List Json → Bool
  | [], [] => true
  | a :: as, b :: bs => same a b && sameItems as bs
  | _, _ => false
  termination_by structural items => items

/-- Whether each of the members is the same in `other`. -/
def sameFields : List (String × Json) → Bindings Json → Bool
  | [], _ => true
  | (key, value) :: rest, other =>
    (match Bindings.find? other key with
      | some found => same value found
      | none => false) && sameFields rest other
  termination_by structural fields => fields

end

mutual

/-- How deeply lists and objects nest in a value. -/
def depth : Json → Nat
  | .list items => depthItems items + 1
  | .object fields => depthFields fields + 1
  | _ => 0
  termination_by structural value => value

/-- The greatest depth among the values. -/
def depthItems : List Json → Nat
  | [] => 0
  | item :: rest => max (depth item) (depthItems rest)
  termination_by structural items => items

/-- The greatest depth among the members' values. -/
def depthFields : List (String × Json) → Nat
  | [] => 0
  | (_, value) :: rest => max (depth value) (depthFields rest)
  termination_by structural fields => fields

end

end Json

end Workflow
