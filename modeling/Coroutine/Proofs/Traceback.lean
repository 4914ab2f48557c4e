import Coroutine.Exception.Ledger
import Mathlib.Tactic.Common

/-! Tracebacks. Making, meeting and naming exceptions changes none, and the exceptions that there are
stay. -/

namespace Coroutine

namespace Ledger

theorem traceback_create (l : Ledger) (f : Failure) : (l.create f).2.traceback = l.traceback := by
  funext id
  simp only [traceback, create, Array.getD_eq_getD_getElem?, Array.getElem?_push]
  split
  · next h => simp [h]
  · rfl

theorem traceback_meet (l : Ledger) (e : Exception) : (l.meet e).2.traceback = l.traceback := by
  simp only [meet]
  split <;> rfl

theorem traceback_createMet (l : Ledger) (f : Failure) :
    (l.createMet f).2.traceback = l.traceback := by
  simp only [createMet, traceback_meet, traceback_create]

mutual

/-- A new exception has escaped from nowhere, so making it changes no traceback. -/
theorem traceback_make (l : Ledger) (s : ExceptionSpec) : (l.make s).2.traceback = l.traceback := by
  cases s with
  | named name =>
    simp only [make]
    split
    · exact traceback_meet ..
    · exact traceback_createMet ..
  | fresh f =>
    simp only [make, traceback_createMet]
    exact traceback_makeFailure l f

theorem traceback_makeFailure (l : Ledger) (s : FailureSpec) :
    (l.makeFailure s).2.traceback = l.traceback := by
  cases s with
  | value | exit => rfl
  | exception e => exact traceback_make l e
  | operation e => exact traceback_makeError l e

theorem traceback_makeError (l : Ledger) (s : OpErrorSpec) :
    (l.makeError s).2.traceback = l.traceback := by
  cases s with
  | raised e => exact traceback_make l e
  | _ => rfl

end

theorem size_create (l : Ledger) (f : Failure) :
    (l.create f).2.tracebacks.size = l.tracebacks.size + 1 := by
  simp [create]

theorem size_meet (l : Ledger) (e : Exception) :
    (l.meet e).2.tracebacks.size = l.tracebacks.size := by
  simp only [meet]
  split <;> rfl

theorem size_createMet (l : Ledger) (f : Failure) :
    (l.createMet f).2.tracebacks.size = l.tracebacks.size + 1 := by
  simp only [createMet, size_meet, size_create]

mutual

theorem size_le_make (l : Ledger) (s : ExceptionSpec) :
    l.tracebacks.size ≤ (l.make s).2.tracebacks.size := by
  cases s with
  | named name =>
    simp only [make]
    split
    · exact Nat.le_of_eq (size_meet ..).symm
    · rw [size_createMet]
      exact Nat.le_succ _
  | fresh f =>
    simp only [make, size_createMet]
    exact Nat.le_succ_of_le (size_le_makeFailure l f)

theorem size_le_makeFailure (l : Ledger) (s : FailureSpec) :
    l.tracebacks.size ≤ (l.makeFailure s).2.tracebacks.size := by
  cases s with
  | value | exit => exact Nat.le_refl _
  | exception e => exact size_le_make l e
  | operation e => exact size_le_makeError l e

theorem size_le_makeError (l : Ledger) (s : OpErrorSpec) :
    l.tracebacks.size ≤ (l.makeError s).2.tracebacks.size := by
  cases s with
  | raised e => exact size_le_make l e
  | _ => exact Nat.le_refl _

end

/-- An exception that escapes gets one more name, and no other exception does. -/
theorem traceback_escape (l : Ledger) (e : Exception) (name : String) (id : ExceptionId) :
    (l.escape e name).traceback id = l.traceback id ++
      if e.id = id ∧ id < l.tracebacks.size then [name] else [] := by
  simp only [traceback, escape, Array.getD_eq_getD_getElem?, Array.getElem?_modify]
  by_cases hid : id < l.tracebacks.size
  · by_cases he : e.id = id <;> simp [hid, he]
  · simp [hid]

end Ledger

end Coroutine
