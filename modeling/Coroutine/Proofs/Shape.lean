import Coroutine.Proofs.Chain

/-! What a generator looks like. Between operations it is idle: control is outside, the slots are
empty, and what it owns goes with its status. While an operation is going on it passes through
phases, each with a shape of its own. -/

namespace Coroutine

variable {C : Type}

namespace Generator

/-- The producer is suspended at a yield point. -/
def Parked (x : Generator C) : Prop :=
  ∃ size k scopes captures, x.fiber = some ⟨size, .suspended k scopes captures⟩

/-- The fiber is over. -/
def Dead (x : Generator C) : Prop := ∃ size, x.fiber = some ⟨size, .over⟩

/-- The fiber is there, and its entry procedure has not run. -/
def Fresh (x : Generator C) : Prop := ∃ size entry, x.fiber = some ⟨size, .fresh entry⟩

/-- Control is inside the fiber. -/
def Entered (x : Generator C) : Prop := ∃ size, x.fiber = some ⟨size, .active⟩

/-- Nothing is being handed over. -/
structure SlotsEmpty (x : Generator C) : Prop where
  value : x.value = none
  error : x.error = none
  outcome : x.outcome = none

/-- At most a value or an exception is handed in. -/
structure HandedIn (x : Generator C) : Prop where
  either : x.value = none ∨ x.error = none
  outcome : x.outcome = none

/-- The start is over and the end is not reached. -/
structure Started (x : Generator C) : Prop where
  status : x.status = .running
  entry : x.entry = none
  payload : x.payload.isSome
  cleanup : x.cleanup.isSome

/-- The end is reached and the fiber is gone. The payload goes with the cleanup, unless it stays in
use for good. -/
structure Ended (x : Generator C) : Prop where
  status : x.status = .finished
  fiber : x.fiber = none
  released : x.cleanup = none → x.payload = none ∨ x.payloadHeld = true

/-- No operation is going on. -/
structure Idle (x : Generator C) : Prop where
  running : x.running = false
  slots : x.SlotsEmpty
  unused : x.status = .unused →
    x.fiber = none ∧ x.payloadHeld = false ∧ x.payload.isSome ∧ x.cleanup.isSome
  started : x.status = .running →
    x.Started ∧ (x.Parked ∧ x.payloadHeld = true ∨ x.Dead ∧ x.payloadHeld = false)
  finished : x.status = .finished →
    x.Ended ∧ x.entry = none ∧ (x.cleanup.isSome → x.payloadHeld = false)

/-- Control is inside the producer. -/
structure Inside (x : Generator C) : Prop where
  started : x.Started
  running : x.running = true
  payloadHeld : x.payloadHeld = true
  entered : x.Entered

/-- The stack of the producer is unwound by force. -/
structure Unwound (x : Generator C) : Prop where
  ended : x.Ended
  running : x.running = true
  slots : x.SlotsEmpty
  entry : x.entry = none
  payload : x.payload.isSome
  cleanup : x.cleanup.isSome
  payloadHeld : x.payloadHeld = true

theorem SlotsEmpty.handedIn {x : Generator C} (h : x.SlotsEmpty) : x.HandedIn :=
  ⟨.inl h.value, h.outcome⟩

theorem not_parked_of_fiber {x : Generator C} (h : x.fiber = none) : ¬ x.Parked := by
  rintro ⟨_, _, _, _, hx⟩
  simp [h] at hx

theorem Entered.not_parked {x : Generator C} (h : x.Entered) : ¬ x.Parked := by
  rintro ⟨_, _, _, _, hx⟩
  obtain ⟨_, h⟩ := h
  simp [h] at hx

theorem Dead.not_parked {x : Generator C} (h : x.Dead) : ¬ x.Parked := by
  rintro ⟨_, _, _, _, hx⟩
  obtain ⟨_, h⟩ := h
  simp [h] at hx

end Generator

/-- What an operation in progress is about to do with a generator. -/
inductive Phase
  /-- It gets its fiber. -/
  | starting
  /-- Control is to be switched into its producer. -/
  | driven
  /-- Its producer is to take what was handed in. -/
  | waking
  /-- Its producer has switched out. -/
  | switchedOut
  /-- Its producer is over. -/
  | terminated
  /-- Its fiber is to be released, -/
  | finalizing
  /-- then an entry procedure that never ran, -/
  | emptying
  /-- then the payload. -/
  | handing
  deriving DecidableEq

/-- What a generator looks like in a phase. -/
def Phase.Shape : Phase → Generator C → Prop
  | starting, x => x.Idle ∧ x.status = .unused
  | driven, x => x.Started ∧ x.running = false ∧ x.HandedIn ∧
      (x.Fresh ∧ x.payloadHeld = false ∧ x.SlotsEmpty ∨ x.Parked ∧ x.payloadHeld = true ∨
        x.Dead ∧ x.payloadHeld = false)
  | waking, x => x.Inside ∧ x.HandedIn
  | switchedOut, x => x.Started ∧ x.running = false ∧ x.Parked ∧ x.payloadHeld = true ∧
      x.value.isSome ∧ x.error = none ∧ x.outcome = none
  | terminated, x => x.Started ∧ x.running = false ∧ x.Dead ∧ x.payloadHeld = false ∧
      (x.outcome.isSome ∧ x.value = none ∧ x.error = none ∨ x.HandedIn)
  | finalizing, x => x.status = .finished ∧ x.running = false ∧
      (x.Ended ∧ x.SlotsEmpty ∧ (x.cleanup.isSome → x.payloadHeld = false) ∨
        x.entry = none ∧ x.payload.isSome ∧ x.cleanup.isSome ∧
          (x.Dead ∧ x.payloadHeld = false ∧ x.HandedIn ∨
            x.Parked ∧ x.payloadHeld = true ∧ x.SlotsEmpty))
  | emptying, x => x.Ended ∧ x.running = false ∧
      (x.entry.isSome → x.SlotsEmpty ∧ (x.cleanup.isSome → x.payloadHeld = false))
  | handing, x => x.Ended ∧ x.running = false ∧ x.entry = none

theorem Generator.Idle.not_parked {x : Generator C} (h : x.Idle) (hs : x.status ≠ .running) :
    ¬ x.Parked := by
  cases hstatus : x.status with
  | unused => exact not_parked_of_fiber (h.unused hstatus).1
  | running => exact absurd hstatus hs
  | finished => exact not_parked_of_fiber (h.finished hstatus).1.fiber

/-- An idle generator is ready to be finalized once it counts as finished. -/
theorem Generator.Idle.finalizing {x : Generator C} (h : x.Idle) :
    Phase.finalizing.Shape { x with status := .finished } := by
  refine ⟨rfl, h.running, ?_⟩
  cases hs : x.status with
  | unused =>
    obtain ⟨hfiber, hheld, -, hcleanup⟩ := h.unused hs
    refine .inl ⟨⟨rfl, hfiber, ?_⟩, { h.slots with }, fun _ => hheld⟩
    intro hnone
    exact absurd hnone (Option.isSome_iff_ne_none.mp hcleanup)
  | running =>
    obtain ⟨hstarted, hfiber⟩ := h.started hs
    refine .inr ⟨hstarted.entry, hstarted.payload, hstarted.cleanup, ?_⟩
    rcases hfiber with ⟨hparked, hheld⟩ | ⟨hdead, hheld⟩
    · exact .inr ⟨hparked, hheld, { h.slots with }⟩
    · exact .inl ⟨hdead, hheld, { h.slots.handedIn with }⟩
  | finished =>
    obtain ⟨hended, -, hfree⟩ := h.finished hs
    exact .inl ⟨⟨rfl, hended.fiber, hended.released⟩, { h.slots with }, hfree⟩

/-- The generator that a task is part of an operation on. -/
def Task.operates? : Task C → Option GeneratorId
  | resume g _ | start g | throw g _ | close g | drive g | wake g _ | suspended g | terminated g
  | abandon g | finalize g | releaseEntry g | releasePayload g => some g
  | _ => none

/-- The phase that a task begins, and the generator that is in it. -/
def Task.phase? : Task C → Option (GeneratorId × Phase)
  | start g => some (g, .starting)
  | drive g => some (g, .driven)
  | wake g _ => some (g, .waking)
  | suspended g => some (g, .switchedOut)
  | terminated g => some (g, .terminated)
  | finalize g => some (g, .finalizing)
  | releaseEntry g => some (g, .emptying)
  | releasePayload g => some (g, .handing)
  | _ => none

/-- The phase that `g` is in. -/
def Control.phase? (c : Control C) (g : GeneratorId) : Option Phase :=
  match c with
  | task t => t.phase?.bind fun (h, phase) => if h = g then some phase else none
  | _ => none

theorem Control.task_of_phase? {c : Control C} {g : GeneratorId} {phase : Phase}
    (h : c.phase? g = some phase) : ∃ t, c = .task t ∧ t.phase? = some (g, phase) := by
  cases c with
  | task t =>
    obtain ⟨⟨k, phase'⟩, ht, hk⟩ := Option.bind_eq_some_iff.mp h
    dsimp only at hk
    split at hk
    · next heq =>
      subst heq
      cases hk
      exact ⟨t, rfl, ht⟩
    · cases hk
  | _ => cases h

/-- What `g` looks like when it is in no phase, from what the frames say about it. A generator that
has ended keeps its cleanup only while its entry procedure is being released. -/
structure Rest (ms : List Mark) (g : GeneratorId) (x : Generator C) : Prop where
  inside : .inside g ∈ ms → x.Inside ∧ x.SlotsEmpty
  unwound : .unwound g ∈ ms → x.Unwound
  idle : .inside g ∉ ms → .unwound g ∉ ms →
    x.Idle ∧ (x.status = .finished → x.cleanup.isSome → .emptied g ∈ ms)

/-- What `g` looks like, from what the control is about to do and what the frames say about it. -/
def At (c : Control C) (ms : List Mark) (g : GeneratorId) (x : Generator C) : Prop :=
  match c.phase? g with
  | none => Rest ms g x
  | some .waking => .inside g ∈ ms ∧ Phase.waking.Shape x
  | some phase => .inside g ∉ ms ∧ .unwound g ∉ ms ∧ phase.Shape x

/-- The two lists of marks say the same about where control is and what is released of `g`. -/
def SameMarks (g : GeneratorId) (ms ms' : List Mark) : Prop :=
  (.inside g ∈ ms ↔ .inside g ∈ ms') ∧ (.unwound g ∈ ms ↔ .unwound g ∈ ms') ∧
    (.emptied g ∈ ms ↔ .emptied g ∈ ms')

/-- A mark that does not say where control is or what is released of `g`. -/
def Mark.Other (g : GeneratorId) (μ : Mark) : Prop :=
  μ ≠ .inside g ∧ μ ≠ .unwound g ∧ μ ≠ .emptied g

theorem SameMarks.of_other {g k : GeneratorId} {ms ms' : List Mark} (hk : k ≠ g)
    (h : ∀ μ, μ.Other g → (μ ∈ ms ↔ μ ∈ ms')) : SameMarks k ms ms' := by
  refine ⟨h _ ?_, h _ ?_, h _ ?_⟩
  all_goals simp [Mark.Other, hk]

theorem SameMarks.refl (g : GeneratorId) (ms : List Mark) : SameMarks g ms ms :=
  ⟨.rfl, .rfl, .rfl⟩

/-- What `g` looks like when a task begins a phase, other than waking. -/
theorem At.of_phase {t : Task C} {g : GeneratorId} {phase : Phase} {ms : List Mark}
    {x : Generator C} (ht : t.phase? = some (g, phase)) (hphase : phase ≠ .waking)
    (hin : .inside g ∉ ms) (hun : .unwound g ∉ ms) (hx : phase.Shape x) : At (.task t) ms g x := by
  have hg : (Control.task t).phase? g = some phase := by simp [Control.phase?, ht]
  cases phase
  case waking => exact absurd rfl hphase
  all_goals simpa only [At, hg] using ⟨hin, hun, hx⟩

/-- The converse. -/
theorem At.phase {t : Task C} {g : GeneratorId} {phase : Phase} {ms : List Mark}
    {x : Generator C} (h : At (.task t) ms g x) (ht : t.phase? = some (g, phase))
    (hphase : phase ≠ .waking) : .inside g ∉ ms ∧ .unwound g ∉ ms ∧ phase.Shape x := by
  have hg : (Control.task t).phase? g = some phase := by simp [Control.phase?, ht]
  cases phase
  case waking => exact absurd rfl hphase
  all_goals simpa only [At, hg] using h

section

attribute [local simp] At Control.phase? Task.phase? Phase.Shape

theorem At.waking_iff {g : GeneratorId} {k : Except Exception (Option Value) → C} {ms : List Mark}
    {x : Generator C} :
    At (.task (.wake g k)) ms g x ↔ .inside g ∈ ms ∧ x.Inside ∧ x.HandedIn := by
  simp

end

section Rest

variable {ms ms' : List Mark} {g : GeneratorId} {x x' : Generator C}

theorem Rest.of_sameMarks (h : Rest ms g x) (hms : SameMarks g ms ms') : Rest ms' g x where
  inside hin := h.inside (hms.1.mpr hin)
  unwound hun := h.unwound (hms.2.1.mpr hun)
  idle hin hun := by
    obtain ⟨hidle, hpending⟩ := h.idle (mt hms.1.mp hin) (mt hms.2.1.mp hun)
    exact ⟨hidle, fun hs hc => hms.2.2.mp (hpending hs hc)⟩

/-- Control is inside a generator exactly while it counts as running. -/
theorem Rest.running_iff (h : Rest ms g x) :
    x.running = true ↔ .inside g ∈ ms ∨ .unwound g ∈ ms := by
  constructor
  · intro hrun
    by_contra hout
    obtain ⟨hin, hun⟩ := not_or.mp hout
    simp [(h.idle hin hun).1.running] at hrun
  · rintro (hin | hun)
    · exact (h.inside hin).1.running
    · exact (h.unwound hun).running

theorem Rest.slotsEmpty (h : Rest ms g x) : x.SlotsEmpty := by
  by_cases hin : .inside g ∈ ms
  · exact (h.inside hin).2
  by_cases hun : .unwound g ∈ ms
  · exact (h.unwound hun).slots
  · exact (h.idle hin hun).1.slots

/-- A generator that is not running is idle. -/
theorem Rest.idle_of_not_running (h : Rest ms g x) (hrun : x.running = false) :
    .inside g ∉ ms ∧ .unwound g ∉ ms ∧ x.Idle := by
  have hout : ¬ (.inside g ∈ ms ∨ .unwound g ∈ ms) := by
    rw [← h.running_iff, hrun]
    simp
  obtain ⟨hin, hun⟩ := not_or.mp hout
  exact ⟨hin, hun, (h.idle hin hun).1⟩

/-- No producer is suspended that is running or has ended. -/
theorem Rest.not_parked (h : Rest ms g x) (hx : x.running = true ∨ x.status = .finished) :
    ¬ x.Parked := by
  by_cases hin : .inside g ∈ ms
  · exact (h.inside hin).1.entered.not_parked
  by_cases hun : .unwound g ∈ ms
  · exact Generator.not_parked_of_fiber (h.unwound hun).ended.fiber
  · obtain ⟨hidle, -⟩ := h.idle hin hun
    rcases hx with hx | hx
    · simp [hidle.running] at hx
    · exact Generator.not_parked_of_fiber (hidle.finished hx).1.fiber

/-- A suspended producer can go on, but for an operation in progress. -/
theorem Rest.idle_of_parked (h : Rest ms g x) (hparked : x.Parked) :
    x.Idle ∧ x.status = .running := by
  have hrun : x.running = false := by
    rw [Bool.eq_false_iff]
    intro hrun
    exact h.not_parked (.inl hrun) hparked
  obtain ⟨-, -, hidle⟩ := h.idle_of_not_running hrun
  refine ⟨hidle, ?_⟩
  by_contra hs
  exact hidle.not_parked hs hparked

end Rest

end Coroutine
