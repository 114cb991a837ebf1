import Workflow.Json.Reader.Schema

namespace Workflow

/-- The variables visible to a component, in the order they were first bound. -/
structure Environment where
  vars : Bindings Json := []
  deriving Inhabited

namespace Environment

def empty : Environment := {}

def get? (env : Environment) (name : String) : Option Json := env.vars.find? name

def contains (env : Environment) (name : String) : Bool := env.vars.contains name

def size (env : Environment) : Nat := env.vars.length

/-- A new environment with the given bindings made on top of this one, from left to right. Bindings
made for one component are not seen by another. -/
def extend (env : Environment) (bindings : List (String × Json)) : Environment :=
  ⟨env.vars.insertAll bindings⟩

def bind (env : Environment) (name : String) (value : Json) : Environment :=
  env.extend [(name, value)]

def ofList (bindings : List (String × Json)) : Environment := empty.extend bindings

def toJson (env : Environment) : Json := .object env.vars

/-- Reads an environment from the text of an object. -/
def parse (text : String) : Except Json.Error Environment :=
  (Json.Reader.readAll (Json.Reader.mapping Json.depthLimit) text).map Environment.mk

/-- Whether two environments bind the same names to the same values. -/
def same (a b : Environment) : Bool := Json.same a.toJson b.toJson

end Environment

end Workflow
