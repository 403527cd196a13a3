import Skiff.Value.Error

/-!
# Routines

The handle of a task: its cancel token and, once it is done, its result.
-/

namespace Skiff

structure Routine where
  token : Nat
  /-- The value that the task returned, or the message of the error that stopped it. -/
  result : Option (Except String Value) := none
  deriving Inhabited

namespace Routine

def isDone (routine : Routine) : Bool := routine.result.isSome

/-- A short text about a routine. -/
def describe (routine : Routine) : String := s!"Routine(done={routine.isDone})"

/-- The result as a value; failures are error values. -/
def value (routine : Routine) : Value :=
  match routine.result with
  | some (.ok value) => value
  | some (.error message) => .error (.string message)
  | none => .undefined

end Routine

end Skiff
