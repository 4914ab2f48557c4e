import Coroutine.Proofs.Invariant

/-! The hand-off between a producer and its caller. Main statement: in no reachable state does a
slot hold what it should not, and no rule of the machine's own is ever broken. -/

namespace Coroutine

variable {C : Type} {δ : GeneratorId → Prop}

namespace Control

/-- Whether the machine is about to use what is handed over between the producer of `g` and its
caller, or about to throw it away. -/
def HandsOver (g : GeneratorId) : Control C → Prop
  | task (.drive h) | task (.wake h _) | task (.suspended h) | task (.terminated h)
  | task (.finalize h) | task (.releaseEntry h) | task (.releasePayload h) => h = g
  | _ => False

end Control

namespace Machine

/-- The rules of the hand-off, and that the machine never finds one of its rules broken. -/
structure HandOff (P : Program C) (m : Machine C) : Prop where
  /-- Control is switched into a producer with a value, with an exception or with neither. -/
  switchIn : ∀ g, (m.control = .task (.drive g) ∨ ∃ k, m.control = .task (.wake g k)) →
    ((m.world.generator g).value = none ∨ (m.world.generator g).error = none) ∧
      (m.world.generator g).outcome = none
  /-- A producer switches out with a value, -/
  switchOut : ∀ g, m.control = .task (.suspended g) →
    (m.world.generator g).value.isSome ∧ (m.world.generator g).error = none ∧
      (m.world.generator g).outcome = none
  /-- and an entry procedure ends with an outcome. -/
  entryOver : ∀ g r fs, m.control = .answer (.outcome r) → m.frames = .driving g :: fs →
    ∃ w, m.next P = ⟨w, .task (.terminated g), fs⟩ ∧ (w.generator g).outcome = some r ∧
      (w.generator g).value = none ∧ (w.generator g).error = none
  /-- Nothing is left over between operations. -/
  idle : ∀ g, ¬ m.control.HandsOver g →
    (m.world.generator g).value = none ∧ (m.world.generator g).error = none ∧
      (m.world.generator g).outcome = none
  /-- Every event of a producer is one that its status allows. -/
  yielded : ∀ g, m.control = .task (.suspended g) →
    transition (m.world.generator g).status .yielded = (.running, .deliver)
  terminated : ∀ g, m.control = .task (.terminated g) →
    transition (m.world.generator g).status .terminated = (.finished, .finalize)
  /-- Only finished generators are finalized. -/
  finalized : ∀ g, m.control = .task (.finalize g) → (m.world.generator g).status = .finished
  noFault : ∀ f, m.control ≠ .unwind (.panic (.fault f))
  notStuck : m.control ≠ .stuck

theorem slotsEmpty_of_not_handsOver {m : Machine C} {g : GeneratorId} (h : Sound δ m)
    (hg : ¬ m.control.HandsOver g) : (m.world.generator g).SlotsEmpty := by
  obtain ⟨w, control, fs⟩ := m
  have hat := h.shape g
  cases hphase : control.phase? g with
  | none => exact (h.rest hphase).slotsEmpty
  | some phase =>
    obtain ⟨t, rfl, ht⟩ := Control.task_of_phase? hphase
    cases t with
    | start k =>
      cases ht
      obtain ⟨-, -, hidle, -⟩ := hat.phase rfl (by decide)
      exact hidle.slots
    | drive k | wake k _ | suspended k | terminated k | finalize k | releaseEntry k
    | releasePayload k =>
      cases ht
      exact absurd rfl hg
    | _ => cases ht

theorem handOff_of_sound (P : Program C) {m : Machine C} (h : Sound δ m) : HandOff P m := by
  obtain ⟨w, control, fs⟩ := m
  constructor
  case switchIn =>
    intro g hc
    have hat := h.shape g
    rcases hc with hc | ⟨k, hc⟩
    · obtain rfl : control = _ := hc
      obtain ⟨-, -, -, -, hhanded, -⟩ := hat.phase rfl (by decide)
      exact ⟨hhanded.either, hhanded.outcome⟩
    · obtain rfl : control = _ := hc
      obtain ⟨-, -, hhanded⟩ := At.waking_iff.mp hat
      exact ⟨hhanded.either, hhanded.outcome⟩
  case switchOut =>
    intro g hc
    obtain rfl : control = _ := hc
    obtain ⟨-, -, -, -, -, -, hvalue, herror, houtcome⟩ := (h.shape g).phase rfl (by decide)
    exact ⟨hvalue, herror, houtcome⟩
  case entryOver =>
    intro g r fs' hc hfs
    obtain rfl : control = _ := hc
    obtain rfl : fs = _ := hfs
    have hrest : Rest (marks (.driving g :: fs')) g (w.generator g) := h.rest rfl
    obtain ⟨hinside, hslots⟩ := hrest.inside (by simp)
    have hlt : g < w.generators.size := w.lt_size_of_started hinside.started
    obtain ⟨w', heq, hb⟩ := endProducer_eq (r := r) fs' hlt hslots.outcome
    refine ⟨w', heq, ?_⟩
    rw [hb.self]
    exact ⟨rfl, hslots.value, hslots.error⟩
  case idle =>
    intro g hg
    have hempty := slotsEmpty_of_not_handsOver h hg
    exact ⟨hempty.value, hempty.error, hempty.outcome⟩
  case yielded | terminated =>
    intro g hc
    obtain rfl : control = _ := hc
    obtain ⟨-, -, hstarted, -⟩ := (h.shape g).phase rfl (by decide)
    rw [hstarted.status]
    rfl
  case finalized =>
    intro g hc
    obtain rfl : control = _ := hc
    obtain ⟨-, -, hs, -⟩ := (h.shape g).phase rfl (by decide)
    exact hs
  case noFault =>
    intro f hc
    obtain rfl : control = _ := hc
    obtain ⟨κ, -, horderly, -⟩ := h.order
    exact horderly f rfl
  case notStuck =>
    intro hc
    obtain rfl : control = _ := hc
    obtain ⟨κ, -, hstuck⟩ := h.order
    exact hstuck

/-- In every reachable state the hand-off is in order. -/
theorem handOff_of_reachable {P : Program C} {m : Machine C} (h : Reachable P m) : HandOff P m :=
  handOff_of_sound P h.sound

/-- The code of a producer that yields for ever. -/
def endless : Program Unit := ⟨fun _ => .yield .null fun _ => ()⟩

/-- The value that is sent to a suspended producer is on its way when control is switched in. -/
theorem handOff_of_sent_value : ∃ m : Machine Unit, HandOff endless m ∧
    m.control = .task (.drive 0) ∧ (m.world.generator 0).value = some .null ∧
      (m.world.generator 0).error = none ∧ (m.world.generator 0).outcome = none := by
  have hcreate : Reachable endless
      ⟨{ stackMemory := minStackSize },
        .task (.step (.create "g" ⟨"g", minStackSize, none, [], [], none, ()⟩)), []⟩ := .start _ _
  have hresume := (hcreate.leads (leads_run endless 2 _)).again (.resume "g" none)
    ⟨rfl, .inl ⟨_, rfl⟩⟩
  have hsend := (hresume.leads (leads_run endless 20 _)).again (.resume "g" (some .null))
    ⟨rfl, .inl ⟨_, rfl⟩⟩
  have hdrive := hsend.leads (leads_run endless 2 _)
  exact ⟨_, handOff_of_reachable hdrive, rfl, rfl, rfl, rfl⟩

end Machine

end Coroutine
