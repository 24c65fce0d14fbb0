/-
# Common.Status -- how a call ends

A call returns a value, or a `Status` that is not OK; a load or store outside a buffer
is neither.
-/
import Mathlib.Tactic.Common

namespace VecFetch

set_option autoImplicit false

/-- `StatusCode`, without OK. -/
inductive StatusCode where
  | invalidArgument
  | notFound
  | alreadyExists
  | ioError
  | corruption
  | notSupported
  | outOfMemory
  | internal
  | cancelled
  | timeout
  deriving DecidableEq

/-- Why a call gives no value: the status it returns, or an access outside a buffer. -/
inductive Failure where
  | status (code : StatusCode) (message : String)
  | outOfBounds
  deriving DecidableEq

abbrev Result (α : Type) := Except Failure α

/-- Access to memory, checked. -/
def Result.inBounds {α : Type} : Option α → Result α
  | some x => .ok x
  | none => .error .outOfBounds

theorem Result.inBounds_ok {α : Type} {o : Option α} {x : α} :
    Result.inBounds o = .ok x ↔ o = some x := by
  cases o with
  | none => exact ⟨fun ok => (by cases ok), fun ok => (by cases ok)⟩
  | some y => exact ⟨fun ok => congrArg some (Except.ok.inj ok), fun ok => congrArg _ ok⟩

def Status.invalidArgument {α : Type} (message : String) : Result α :=
  .error (.status .invalidArgument message)

def Status.ioError {α : Type} (message : String) : Result α :=
  .error (.status .ioError message)

def Status.corruption {α : Type} (message : String) : Result α :=
  .error (.status .corruption message)

end VecFetch
