import Coroutine.Machine.Return

/-! The moves of the machine, and its runs. A machine that is at rest stays as it is, so a run with
more fuel than it needs ends in the same state. -/

namespace Coroutine

variable {C : Type}

namespace Machine

def perform (w : World C) (fs : List (Frame C)) : Task C → Machine C
  | .resume g sent => resume w fs g sent
  | .start g => start w fs g
  | .throw g e => throwInto w fs g e
  | .close g => close w fs g
  | .drive g => drive w fs g
  | .wake g k => wake w fs g k
  | .suspended g => suspended w fs g
  | .terminated g => terminated w fs g
  | .abandon g => abandon w fs g
  | .finalize g => finalize w fs g
  | .releaseEntry g => releaseEntry w fs g
  | .releasePayload g => releasePayload w fs g
  | .dropHandle g => dropHandle w fs g
  | .release guards => release w fs guards
  | .releaseScope s => releaseScope w fs s
  | .discard announced fiber => discard w fs announced fiber
  | .step s => makeStep w fs s

def next (P : Program C) (m : Machine C) : Machine C :=
  match m.control with
  | .code c => grant m.world m.frames (P.next c)
  | .task t => perform m.world m.frames t
  | .answer a => deliver m.world a m.frames
  | .unwind u => leave m.world u m.frames
  | .aborted | .stuck => m

/-- Whether the machine has nothing left to do. -/
def atRest (m : Machine C) : Bool :=
  match m.control, m.frames with
  | .answer _, [] | .unwind _, [] => true
  | .aborted, _ | .stuck, _ => true
  | _, _ => false

/-- Runs the machine until it is at rest, for at most `fuel` moves. -/
def run (P : Program C) : Nat → Machine C → Machine C
  | 0, m => m
  | fuel + 1, m => if m.atRest then m else run P fuel (m.next P)

section

attribute [local simp] atRest next deliver leave answer

theorem next_eq_self_of_atRest (P : Program C) {m : Machine C} (h : m.atRest = true) :
    m.next P = m := by
  obtain ⟨w, control, fs⟩ := m
  cases control <;> cases fs <;> simp_all

end

theorem run_of_atRest (P : Program C) {m : Machine C} (h : m.atRest = true) (fuel : Nat) :
    run P fuel m = m := by
  cases fuel with
  | zero => rfl
  | succ fuel => simp [run, h]

/-- A run can be interrupted and taken up again. -/
theorem run_add (P : Program C) (a b : Nat) (m : Machine C) :
    run P (a + b) m = run P b (run P a m) := by
  induction a generalizing m with
  | zero => simp [run]
  | succ a ih =>
    by_cases h : m.atRest = true
    · rw [run_of_atRest P h, run_of_atRest P h, run_of_atRest P h]
    · rw [Nat.add_right_comm]
      simp [run, h, ih]

/-- More fuel than a run needs changes nothing. -/
theorem run_eq_of_le (P : Program C) {a b : Nat} {m : Machine C} (hle : a ≤ b)
    (h : (run P a m).atRest = true) : run P b m = run P a m := by
  obtain ⟨d, rfl⟩ := Nat.exists_eq_add_of_le hle
  rw [run_add, run_of_atRest P h]

end Machine

end Coroutine
