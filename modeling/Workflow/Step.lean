namespace Workflow

/-- How a step ends. Besides a result and an error it may crash, with what is reported of the crash, or
give up because it nests deeper than it was allowed to. -/
inductive Ending (ε α : Type) where
  | ok (value : α)
  | error (error : ε)
  | crashed (report : String)
  | tooDeep

/-- A computation over a state of type `σ`. It keeps the changes it has made however it ends. -/
def Step (σ ε α : Type) := σ → Ending ε α × σ

namespace Step

variable {σ τ ε φ α β : Type}

/-- Ends with a result and changes nothing. -/
def ok (value : α) : Step σ ε α := fun s => (.ok value, s)

/-- Ends with an error and changes nothing. -/
def error (e : ε) : Step σ ε α := fun s => (.error e, s)

def crash (report : String) : Step σ ε α := fun s => (.crashed report, s)

def giveUp : Step σ ε α := fun s => (.tooDeep, s)

/-- Runs a step and, if it ends with a result, the step that follows from it. -/
def bind (step : Step σ ε α) (next : α → Step σ ε β) : Step σ ε β := fun s =>
  match step s with
  | (.ok value, s) => next value s
  | (.error e, s) => (.error e, s)
  | (.crashed report, s) => (.crashed report, s)
  | (.tooDeep, s) => (.tooDeep, s)

instance : Monad (Step σ ε) where
  pure := ok
  bind := bind

def get : Step σ ε σ := fun s => (.ok s, s)

def modify (change : σ → σ) : Step σ ε Unit := fun s => (.ok (), change s)

/-- A result or an error that needs no state. -/
def ofExcept (result : Except ε α) : Step σ ε α := fun s =>
  match result with
  | .ok value => (.ok value, s)
  | .error e => (.error e, s)

/-- Changes the error that a step ends with. -/
def mapError (f : ε → φ) (step : Step σ ε α) : Step σ φ α := fun s =>
  match step s with
  | (.ok value, s) => (.ok value, s)
  | (.error e, s) => (.error (f e), s)
  | (.crashed report, s) => (.crashed report, s)
  | (.tooDeep, s) => (.tooDeep, s)

/-- Turns a crash into an error that tells what is reported of it. -/
def catchCrash (caught : String → ε) (step : Step σ ε α) : Step σ ε α := fun s =>
  match step s with
  | (.crashed report, s) => (.error (caught report), s)
  | (ending, s) => (ending, s)

/-- Runs a step on a part of a state. -/
def within (part : τ → σ) (update : τ → σ → τ) (step : Step σ ε α) : Step τ ε α := fun t =>
  let (ending, s) := step (part t)
  (ending, update t s)

end Step

end Workflow
