import Workflow.CommandLine.Perform

open Workflow.CommandLine

/-- A file error of the system, which may count its numbers downwards from zero. -/
def Workflow.CommandLine.FileError.ofSystem (error : IO.Error) : FileError :=
  let isCode (code n : UInt32) : Bool := code = n ∨ code = -n
  match error with
  | .noFileOrDirectory .. => .missing
  | .inappropriateType _ code _ => if isCode code 20 then .notDirectory else .directory
  | .invalidArgument _ code _ => if isCode code 36 then .nameTooLong else .other (toString error)
  | _ => .other (toString error)

/-- The files of the system. -/
instance : Files IO where
  read path := do
    try return .ok (← IO.FS.readFile path)
    catch error => return .error (.ofSystem error)
  write path text := do
    try
      IO.FS.writeFile path text
      return .ok ()
    catch error => return .error (.ofSystem error)

/-- A fresh run id, in the form of a random UUID. -/
def freshRunId : IO String := do
  let digit (low high : Nat) : IO Char := return Nat.digitChar (← IO.rand low high)
  let digits (count : Nat) : IO (List Char) := (List.range count).mapM fun _ => digit 0 15
  let groups := [← digits 8, ← digits 4, '4' :: (← digits 3), (← digit 8 11) :: (← digits 3),
    ← digits 12]
  return String.intercalate "-" (groups.map String.ofList)

/-- Carries out the command that the arguments ask for. Times are not measured, so every component
is said to take none. -/
def main (arguments : List String) : IO UInt32 := do
  let outcome ← perform { runId := ← freshRunId, time := "0.000s" } arguments
  IO.print outcome.out
  IO.eprint outcome.err
  return outcome.code.toUInt32
