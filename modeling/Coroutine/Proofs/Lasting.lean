import Coroutine.Proofs.Booking
import Coroutine.Proofs.Traceback

/-! What lasts: the memory, the events that have happened, the exceptions and their tracebacks, and
that a generator without handles gets none. Main statement: every move keeps all of this, once an
exception that escapes with it has got its generator's name. -/

namespace Coroutine

variable {C : Type}

/-- What lasts from one world to another. -/
structure World.Keeps (w w' : World C) : Prop where
  memory : w'.stackMemory = w.stackMemory
  history : w.history <:+ w'.history
  exceptions : w.ledger.tracebacks.size ≤ w'.ledger.tracebacks.size
  tracebacks : w'.ledger.traceback = w.ledger.traceback
  known : w.generators.size ≤ w'.generators.size
  unheld : ∀ g, g < w.generators.size → (w.generator g).handles = 0 → (w'.generator g).handles = 0

namespace World

variable {w w' w'' : World C} {g : GeneratorId}

theorem Keeps.trans (h : w.Keeps w') (h' : w'.Keeps w'') : w.Keeps w'' where
  memory := h'.memory.trans h.memory
  history := h.history.trans h'.history
  exceptions := Nat.le_trans h.exceptions h'.exceptions
  tracebacks := h'.tracebacks.trans h.tracebacks
  known := Nat.le_trans h.known h'.known
  unheld g hg h0 := h'.unheld g (Nat.lt_of_lt_of_le hg h.known) (h.unheld g hg h0)

/-- Names and guards play no part in what lasts. -/
theorem Keeps.of_eq (hg : w'.generators = w.generators) (hh : w'.history = w.history)
    (hl : w'.ledger = w.ledger) (hm : w'.stackMemory = w.stackMemory) : w.Keeps w' where
  memory := hm
  history := hh ▸ List.suffix_refl _
  exceptions := hl ▸ Nat.le_refl _
  tracebacks := by rw [hl]
  known := hg ▸ Nat.le_refl _
  unheld g _ h0 := by
    have heq : w'.generator g = w.generator g := by simp [generator, hg]
    rw [heq]
    exact h0

theorem Keeps.refl (w : World C) : w.Keeps w := .of_eq rfl rfl rfl rfl

theorem Keeps.note (h : w.Keeps w') (e : Event) : w.Keeps (w'.note e) :=
  { h with history := h.history.trans (List.suffix_cons e _) }

theorem Keeps.modify (h : w.Keeps w') {φ : Generator C → Generator C}
    (hφ : ∀ x, x.handles = 0 → (φ x).handles = 0) : w.Keeps (w'.modify g φ) where
  memory := h.memory
  history := h.history
  exceptions := h.exceptions
  tracebacks := h.tracebacks
  known := by
    rw [size_modify]
    exact h.known
  unheld k hk h0 := by
    rcases w'.generator_modify_cases g k φ with heq | heq
    · rw [heq]
      exact hφ _ (h.unheld k hk h0)
    · rw [heq]
      exact h.unheld k hk h0

theorem Keeps.ledger {l : Ledger} (h : w.Keeps w') (ht : l.traceback = w'.ledger.traceback)
    (hs : w'.ledger.tracebacks.size ≤ l.tracebacks.size) : w.Keeps { w' with ledger := l } where
  memory := h.memory
  history := h.history
  exceptions := Nat.le_trans h.exceptions hs
  tracebacks := ht.trans h.tracebacks
  known := h.known
  unheld := h.unheld

/-- Only a generator that has a handle gets another one. -/
theorem Keeps.retain (h : w.Keeps w') (hg : (w.generator g).handles ≠ 0) :
    w.Keeps (w'.retain g) where
  memory := h.memory
  history := h.history
  exceptions := h.exceptions
  tracebacks := h.tracebacks
  known := by
    rw [World.retain, size_modify]
    exact h.known
  unheld k hk h0 := by
    have hne : k ≠ g := by
      rintro rfl
      exact hg h0
    rw [World.retain, generator_modify_of_ne hne]
    exact h.unheld k hk h0

theorem keeps_addGenerator (d : Definition C) : w.Keeps (w.addGenerator d).2 where
  memory := by simp [addGenerator, holdGuards_snd]
  history := by simp [addGenerator, holdGuards_snd]
  exceptions := by simp [addGenerator, holdGuards_snd]
  tracebacks := by simp [addGenerator, holdGuards_snd]
  known := by
    rw [size_addGenerator]
    exact Nat.le_succ _
  unheld k hk h0 := by
    rw [generator_addGenerator_of_ne d (Nat.ne_of_lt hk)]
    exact h0

end World

namespace Machine

open World (Keeps)

variable {w : World C} {fs : List (Frame C)} {g : GeneratorId}

/-- Every name of a handle names a generator that has one. -/
def Named (w : World C) : Prop :=
  ∀ name g, w.handles.find? name = some g → (w.generator g).handles ≠ 0

variable {P : Program C} {δ : GeneratorId → Prop} {m : Machine C}

/-- Every edit keeps what lasts. -/
theorem Edited.keeps (h : Edited P m w) (hm : Named m.world) : m.credited.Keeps w := by
  induction h with
  | start => exact .refl _
  | note _ _ ih => exact ih.note _
  | alter _ _ hhandles _ ih | pay _ _ hhandles ih =>
    exact ih.modify fun x h0 => (hhandles x).trans h0
  | @retain w g _ hheld ih =>
    refine ih.retain ?_
    obtain ⟨l, hl⟩ := m.credited_eq
    rw [hl]
    intro h0
    obtain ⟨name, hname⟩ := hheld h0
    exact hm name g hname h0
  | drop _ _ ih => exact ih.modify fun x h0 => by simp [h0]
  | add _ _ ih => exact ih.trans (World.keeps_addGenerator ..)
  | guards _ ih | handles _ ih | fibers _ ih | iterators _ _ ih =>
    exact ih.trans (.of_eq rfl rfl rfl rfl)
  | ledger _ ht hs ih => exact ih.ledger ht hs

theorem named_of_sound (h : Sound δ m) : Named m.world := by
  obtain ⟨w, control, fs⟩ := m
  intro name g hfind
  exact Nat.ne_of_gt (h.pos_of_handle hfind)

/-- Every move keeps what lasts. -/
theorem keeps_next (P : Program C) (h : Sound δ m) : m.credited.Keeps (m.next P).world :=
  (edited_next P m).keeps (named_of_sound h)

theorem memory_next (P : Program C) (h : Sound δ m) :
    (m.next P).world.stackMemory = m.world.stackMemory := by
  obtain ⟨l, hl⟩ := m.credited_eq
  rw [(keeps_next P h).memory, hl]

theorem memory_of_leads {m' : Machine C} (h : Reachable P m) (hm : Leads P m m') :
    m'.world.stackMemory = m.world.stackMemory := by
  induction hm with
  | refl => rfl
  | move _ ih => exact (ih h.move).trans (memory_next P h.sound)

theorem unheld_next (P : Program C) (h : Sound δ m) (hg : g < m.world.generators.size)
    (h0 : (m.world.generator g).handles = 0) : ((m.next P).world.generator g).handles = 0 := by
  obtain ⟨l, hl⟩ := m.credited_eq
  have hkeeps := keeps_next P h
  rw [hl] at hkeeps
  exact hkeeps.unheld g hg h0

theorem unheld_of_leads {m' : Machine C} (h : Reachable P m) (hm : Leads P m m')
    (hg : g < m.world.generators.size) (h0 : (m.world.generator g).handles = 0) :
    (m'.world.generator g).handles = 0 := by
  induction hm with
  | refl => exact h0
  | @move m _ _ ih =>
    exact ih h.move (Nat.lt_of_lt_of_le hg (size_le_next m)) (unheld_next P h.sound hg h0)

theorem history_next (P : Program C) (h : Sound δ m) :
    m.world.history <:+ (m.next P).world.history := by
  obtain ⟨l, hl⟩ := m.credited_eq
  have hkeeps := keeps_next P h
  rw [hl] at hkeeps
  exact hkeeps.history

theorem history_of_leads {m' : Machine C} (h : Reachable P m) (hm : Leads P m m') :
    m.world.history <:+ m'.world.history := by
  induction hm with
  | refl => exact List.suffix_refl _
  | move _ ih => exact (history_next P h.sound).trans (ih h.move)

end Machine

end Coroutine
