import Coroutine.Proofs.Custody

/-! The ends of generators that are in progress. Main statement: a generator is being ended at most
once at a time, unless an exception is thrown into it while its entry procedure is being released. -/

namespace Coroutine

variable {C : Type}

namespace Machine

variable {fs : List (Frame C)} {g : GeneratorId}
  {P : Program C} {δ : GeneratorId → Prop} {m : Machine C} {ms : List (Machine C)}

/-- What a move does to the ends in progress. -/
inductive Progresses (P : Program C) (m : Machine C) : Prop
  | kept : (m.next P).endings = m.endings → Progresses P m
  | ended (g : GeneratorId) : m.endings = g :: (m.next P).endings → Progresses P m
  /-- A generator has not ended, and is to be ended. -/
  | begun (g : GeneratorId) : (m.world.generator g).status ≠ .finished →
      (m.next P).control = .task (.finalize g) → (m.next P).endings = g :: m.endings →
      Progresses P m
  /-- An exception is thrown into a generator that control is not inside of. -/
  | thrown (g : GeneratorId) (e : Exception) : m.control = .task (.throw g e) →
      (m.world.generator g).running = false → (m.next P).control = .task (.finalize g) →
      (m.next P).endings = g :: m.endings → Progresses P m

theorem Effect.progresses {y : Option GeneratorId} (h : Effect P m y fs (m.next P))
    (hbase : Base P m y fs) (hm : Sound δ m) : Progresses P m := by
  have hends := hbase.endings
  cases h.ends with
  | made hmade =>
    cases y with
    | none => exact .kept (hmade.trans hends.symm)
    | some g => exact .ended g (by rw [hends, hmade]; rfl)
  | kept hkept => exact .kept (hkept.trans hends.symm)
  | @begun g hbegins hfinal hbegun =>
    rw [← hends] at hbegun
    cases hbegins with
    | thrown hcontrol hrun => exact .thrown g _ hcontrol hrun hfinal hbegun
    | terminated hcontrol =>
      obtain ⟨w, control, frames⟩ := m
      obtain rfl : control = _ := hcontrol
      have hat : At _ (Coroutine.marks frames) g (w.generator g) := hm.shape g
      obtain ⟨-, -, hstarted, -⟩ := hat.phase rfl (by decide)
      refine .begun g ?_ hfinal hbegun
      rw [hstarted.status]
      nofun
    | unended hs => exact .begun g hs hfinal hbegun

/-- Every move takes up, makes or begins at most one end. -/
theorem progresses (P : Program C) (h : Sound δ m) : Progresses P m := by
  obtain ⟨y, fs, hbase, heffect⟩ := effect_next P m
  exact heffect.progresses hbase h

/-- In one of these states an exception is thrown into `g` while its entry procedure is being
released. -/
def Provoked (ms : List (Machine C)) (g : GeneratorId) : Prop :=
  ∃ m ∈ ms, ∃ e, m.control = .task (.throw g e) ∧ .emptied g ∈ Coroutine.marks m.frames

theorem mem_marks_of_mem_endings (h : g ∈ Coroutine.endings fs) :
    .unwound g ∈ Coroutine.marks fs ∨ .emptied g ∈ Coroutine.marks fs := by
  obtain ⟨f, hf, hends⟩ := List.mem_filterMap.mp h
  cases f with
  | destroying k =>
    cases hends
    exact .inl (List.mem_filterMap.mpr ⟨_, hf, rfl⟩)
  | emptying k =>
    cases hends
    exact .inr (List.mem_filterMap.mpr ⟨_, hf, rfl⟩)
  | _ => cases hends

/-- Generators that are being ended count as finished, and each is being ended once. -/
structure Once (m : Machine C) (ms : List (Machine C)) : Prop where
  finished : ∀ g ∈ m.endings, g < m.world.generators.size ∧
    (m.world.generator g).status = .finished
  once : ∀ g, ¬ Provoked ms g → m.endings.count g ≤ 1

theorem finished_of_finalize (h : Sound δ m) (hcontrol : m.control = .task (.finalize g)) :
    (m.world.generator g).status = .finished := by
  obtain ⟨w, control, fs⟩ := m
  obtain rfl : control = _ := hcontrol
  have hat : At _ (Coroutine.marks fs) g (w.generator g) := h.shape g
  exact (hat.phase rfl (by decide)).2.2.1

theorem Once.next (h : Once m ms) (hm : Reachable P m) : Once (m.next P) (m :: ms) := by
  have hsound := hm.sound
  have hfinished (k : GeneratorId) (hk : k ∈ m.endings) :
      k < (m.next P).world.generators.size ∧
        ((m.next P).world.generator k).status = .finished := by
    obtain ⟨hlt, hs⟩ := h.finished k hk
    exact ⟨Nat.lt_of_lt_of_le hlt (size_le_next m), (change_next hsound hlt).status hs⟩
  have hbegun {g : GeneratorId} (hlt : g < m.world.generators.size)
      (hfinal : (m.next P).control = .task (.finalize g))
      (hends : (m.next P).endings = g :: m.endings) (k : GeneratorId)
      (hk : k ∈ (m.next P).endings) : k < (m.next P).world.generators.size ∧
        ((m.next P).world.generator k).status = .finished := by
    rw [hends] at hk
    rcases List.mem_cons.mp hk with rfl | hk
    · exact ⟨Nat.lt_of_lt_of_le hlt (size_le_next m), finished_of_finalize hm.move.sound hfinal⟩
    · exact hfinished k hk
  have hprovoked (k : GeneratorId) (hk : ¬ Provoked (m :: ms) k) : m.endings.count k ≤ 1 :=
    h.once k fun ⟨m₀, hm₀, hthrown⟩ => hk ⟨m₀, .tail _ hm₀, hthrown⟩
  have honce {g : GeneratorId} (hends : (m.next P).endings = g :: m.endings)
      (hfirst : ¬ Provoked (m :: ms) g → g ∉ m.endings) (k : GeneratorId)
      (hk : ¬ Provoked (m :: ms) k) : (m.next P).endings.count k ≤ 1 := by
    rw [hends, List.count_cons]
    by_cases heq : g = k
    · subst heq
      rw [List.count_eq_zero_of_not_mem (hfirst hk)]
      simp
    · simpa [heq] using hprovoked k hk
  cases progresses P hsound with
  | kept hends =>
    rw [← hends] at hfinished hprovoked
    exact ⟨hfinished, hprovoked⟩
  | ended g hends =>
    refine ⟨fun k hk => hfinished k (hends ▸ .tail _ hk), fun k hk => ?_⟩
    have hcount := hprovoked k hk
    rw [hends, List.count_cons] at hcount
    exact Nat.le_trans (Nat.le_add_right _ _) hcount
  | begun g hs hfinal hends =>
    refine ⟨hbegun (m.world.lt_size_of_status hs) hfinal hends, honce hends fun _ hg => ?_⟩
    exact hs (h.finished g hg).2
  | thrown g e hcontrol hrun hfinal hends =>
    obtain ⟨w, control, fs⟩ := m
    obtain rfl : control = _ := hcontrol
    obtain ⟨κ, hκ, rfl⟩ := hsound.order
    refine ⟨hbegun (hsound.lt_size_of_operand hκ rfl) hfinal hends, honce hends fun hcalm hg => ?_⟩
    rcases mem_marks_of_mem_endings hg with hunwound | hemptied
    · have hrest : Rest (Coroutine.marks fs) g (w.generator g) := hsound.rest rfl
      cases hrun.symm.trans (hrest.unwound hunwound).running
    · exact hcalm ⟨_, .head _, e, rfl, hemptied⟩

theorem once_of_run (h : Run P (m :: ms)) : Once m ms := by
  refine Run.invariant ?_ ?_ ?_ h
  · exact fun _ _ => ⟨nofun, fun _ _ => Nat.zero_le _⟩
  · exact fun m ms hrun ih => ih.next hrun.reachable
  · exact fun m ms s _ _ _ => ⟨nofun, fun _ _ => Nat.zero_le _⟩

end Machine

end Coroutine
