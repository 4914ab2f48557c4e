import Coroutine.Proofs.Outcome

/-! Generators whose producers have panicked. Their status still says that they are running, but
their fibers are over. Main statement: the next operation on such a generator runs no producer,
finalizes the generator once, and answers that it is exhausted, or that it is closed. -/

namespace Coroutine

variable {C : Type}

/-- What an operation on a generator called `name` comes back with whose producer has panicked. -/
def Task.recovery (name : String) : Task C → Answer
  | close _ => .closed (.ok ())
  | _ => .progress (.error (.exhausted name))

namespace Machine

variable {P : Program C} {δ : GeneratorId → Prop} {g : GeneratorId} {w w' : World C}
  {fs : List (Frame C)} {m m' : Machine C} {b : Answer}

/-- The next move takes the cleanup of `g`. -/
structure Finalizes (g : GeneratorId) (m : Machine C) : Prop where
  control : m.control = .task (.releasePayload g)
  cleanup : (m.world.generator g).cleanup.isSome

theorem status_of_later (h : Reachable P m) (hm : Later P m m') (hg : g < m.world.generators.size)
    (hs : (m.world.generator g).status = .finished) :
    g < m'.world.generators.size ∧ (m'.world.generator g).status = .finished := by
  induction hm with
  | refl => exact ⟨hg, hs⟩
  | @move m' hm ih =>
    exact ⟨Nat.lt_of_lt_of_le ih.1 (size_le_next m'),
      (change_next (h.later hm).sound ih.1).status ih.2⟩
  | again _ _ _ ih => exact ih

/-- The cleanup of a generator is taken once. -/
theorem Finalizes.next (h : Finalizes g m) :
    ((m.next P).world.generator g).cleanup = none := by
  obtain ⟨w, control, fs⟩ := m
  obtain rfl : control = _ := h.control
  show ((releasePayload w fs g).world.generator g).cleanup = none
  have hreleases := releases_releasePayload w fs g
  generalize releasePayload w fs g = m' at hreleases
  cases hreleases with
  | nothing hcleanup hb =>
    exact absurd h.cleanup (by simp [hcleanup])
  | lost _ _ hb | discarded _ _ _ hb => exact congrArg Generator.cleanup hb.self
  | paid _ _ _ hb =>
    rw [world_clean]
    exact congrArg Generator.cleanup hb.self

/-- From `m` on the producer of `g` does not run, and the cleanup is taken once: in `m₁`. -/
structure Ends (P : Program C) (g : GeneratorId) (m m₁ : Machine C) : Prop where
  silent : ∀ m', Later P m m' → .inside g ∉ Coroutine.marks m'.frames
  finalizes : Finalizes g m₁
  once : ∀ m', Later P m m' → Finalizes g m' → m' = m₁

theorem Ends.of_finalizes (hm : Reachable P m) (h : Finalizes g m) : Ends P g m m where
  silent m' hlater := by
    obtain ⟨w, control, fs⟩ := m
    obtain rfl : control = _ := h.control
    have hat : At _ (Coroutine.marks fs) g (w.generator g) := hm.sound.shape g
    obtain ⟨-, -, hended, -⟩ := hat.phase rfl (by decide)
    have hlt : g < w.generators.size := w.lt_size_of_ne Generator.cleanup
      (Option.isSome_iff_ne_none.mp h.cleanup)
    exact not_inside_of_finished (hm.later hlater).sound
      (status_of_later hm hlater hlt hended.status).2
  finalizes := h
  once m' hlater h' := by
    obtain ⟨w, control, fs⟩ := m
    obtain rfl : control = _ := h.control
    rcases hlater.of_task with rfl | hlater
    · rfl
    have hlt : g < w.generators.size := w.lt_size_of_ne Generator.cleanup
      (Option.isSome_iff_ne_none.mp h.cleanup)
    have hsize := size_le_next (P := P) ⟨w, .task (.releasePayload g), fs⟩
    have hgone := cleanup_of_later hm.move hlater (Nat.lt_of_lt_of_le hlt hsize) h.next
    exact absurd h'.cleanup (by simp [hgone.2])

/-- A move that is not the release of the payload comes before. -/
theorem Ends.of_task {t : Task C} {m₁ : Machine C} (h : Ends P g m m₁)
    (hin : .inside g ∉ Coroutine.marks fs) (ht : t ≠ .releasePayload g)
    (hnext : perform w fs t = m) : Ends P g ⟨w, .task t, fs⟩ m₁ where
  silent m' hlater := by
    subst hnext
    rcases hlater.of_task with rfl | hlater
    · exact hin
    · exact h.silent m' hlater
  finalizes := h.finalizes
  once m' hlater h' := by
    subst hnext
    rcases hlater.of_task with rfl | hlater
    · exact absurd (by simpa using h'.control) ht
    · exact h.once m' hlater h'

/-- What a task does that is part of an operation on a generator whose producer has panicked. -/
structure Recovers (P : Program C) (g : GeneratorId) (w : World C) (t : Task C)
    (fs : List (Frame C)) : Prop where
  /-- No code of the producer runs any more. The generator is finalized, and not again: the cleanup
  and the payload are given away as they are. -/
  ends : ∃ m₁, Within P fs ⟨w, .task t, fs⟩ m₁ ∧ Ends P g ⟨w, .task t, fs⟩ m₁ ∧
    (m₁.world.generator g).account = (w.generator g).account ∧
    (m₁.world.generator g).payloadHeld = false
  /-- The operation comes back with no other answer, -/
  answers : ∀ w' b, Within P fs ⟨w, .task t, fs⟩ ⟨w', .answer b, fs⟩ →
    b = t.recovery (w.generator g).name
  /-- and it comes back if the cleanup does. -/
  returns : Settles P g ⟨w, .task t, fs⟩ →
    ∃ w', Within P fs ⟨w, .task t, fs⟩ ⟨w', .answer (t.recovery (w.generator g).name), fs⟩

/-- Control is not switched into a fiber that is over: its generator is finalized. -/
theorem recovers_of_drive {F : Fates} {κ : Awaited} (hm : Reachable P ⟨w, .task (.drive g), fs⟩)
    (hκ : Awaits F κ fs) (hop : κ.operand? = some g) (hdead : (w.generator g).Dead) :
    Recovers P g w (.drive g) fs := by
  have hat : At _ (Coroutine.marks fs) g (w.generator g) := hm.sound.shape g
  obtain ⟨hin, -, hstarted, -, hhanded, hfiber⟩ := hat.phase rfl (by decide)
  have hlt : g < w.generators.size := w.lt_size_of_started hstarted
  have hheld : (w.generator g).payloadHeld = false := by
    rcases hfiber with ⟨-, hheld, -⟩ | ⟨hparked, -⟩ | ⟨-, hheld⟩
    · exact hheld
    · exact absurd hparked hdead.not_parked
    · exact hheld
  obtain ⟨size, hf⟩ := hdead
  obtain ⟨w₁, hdrive, hb₁⟩ := drive_over fs hf
  obtain ⟨w₂, hterminated, hb₂⟩ := terminated_running (w := w₁) (g := g) fs
    (by rw [hb₁.self]; exact hstarted.status) (hb₁.size ▸ hlt)
  have hresult : resultOf (w₁.generator g) = .error (.exhausted (w.generator g).name) := by
    rw [hb₁.self, resultOf_of_none hhanded.outcome]
  rw [hresult] at hterminated
  have hdead : (w₂.generator g).Dead := ⟨size, by rw [hb₂.self, hb₁.self, hf]⟩
  have hto : Within P fs ⟨w, .task (.drive g), fs⟩ ⟨w₂, .task (.finalize g),
      .keeping (.progress (.error (.exhausted (w.generator g).name))) :: fs⟩ :=
    .of_task (List.suffix_refl fs) hdrive (.of_task (List.suffix_refl fs) hterminated (.refl _))
  have hm₂ := hm.leads hto.leads
  constructor
  case ends =>
    have hkeeping : fs <:+ .keeping (.progress (.error (.exhausted (w.generator g).name))) :: fs :=
      List.suffix_cons _ fs
    have hin' : .inside g ∉ Coroutine.marks
        (.keeping (.progress (.error (.exhausted (w.generator g).name))) :: fs) := by
      simpa using hin
    generalize .keeping (.progress (.error (.exhausted (w.generator g).name))) :: fs = fs'
      at hterminated hto hm₂ hkeeping hin'
    obtain ⟨w₃, hfinalize, hb₃⟩ := finalize_over fs' hdead (w₂.lt_size_of_dead hdead)
    have hself : w₃.generator g = { w.generator g with
        status := .finished, outcome := none, fiber := none } := by
      rw [hb₃.self, hb₂.self, hb₁.self]
    have hentry := releaseEntry_none (w := w₃) (g := g) fs' (by rw [hself]; exact hstarted.entry)
    have hreleasing : Within P fs ⟨w, .task (.drive g), fs⟩ ⟨w₃, .task (.releasePayload g), fs'⟩ :=
      hto.trans (.of_task hkeeping hfinalize (.of_task hkeeping hentry (.refl _)))
    refine ⟨⟨w₃, .task (.releasePayload g), fs'⟩, hreleasing, ?_, ?_, ?_⟩
    · have hlast : Ends P g ⟨w₃, .task (.releasePayload g), fs'⟩ _ :=
        .of_finalizes (hm.leads hreleasing.leads) ⟨rfl, by rw [hself]; exact hstarted.cleanup⟩
      have hentry : Ends P g ⟨w₃, .task (.releaseEntry g), fs'⟩ _ :=
        hlast.of_task hin' (by simp) hentry
      have hfinalize : Ends P g ⟨w₂, .task (.finalize g), fs'⟩ _ :=
        hentry.of_task hin' (by simp) hfinalize
      have hterminated : Ends P g ⟨w₁, .task (.terminated g), fs⟩ _ :=
        hfinalize.of_task hin (by simp) hterminated
      exact hterminated.of_task hin (by simp) hdrive
    · show (w₃.generator g).account = _
      rw [hself]
      rfl
    · show (w₃.generator g).payloadHeld = _
      rw [hself]
      exact hheld
  case answers =>
    intro w' b hback
    have hback : Within P fs (drive w fs g) ⟨w', .answer b, fs⟩ := hback.of_ne nofun
    rw [hdrive] at hback
    have hback : Within P fs (terminated w₁ fs g) ⟨w', .answer b, fs⟩ := hback.of_ne nofun
    rw [hterminated] at hback
    exact eq_of_keeping hm₂ hback (List.suffix_refl _)
  case returns =>
    intro hsettles
    obtain ⟨w₃, hback, -⟩ := within_finalize hm₂ hκ hop (.inr hdead) (hsettles.leads hto.leads)
    exact ⟨w₃, hto.trans hback⟩

/-- An operation that goes on with a switch recovers as the switch does. -/
theorem Recovers.of_task {t : Task C} (h : Recovers P g w' (.drive g) fs)
    (ht : t.asks? = some g) (hin : .inside g ∉ Coroutine.marks fs)
    (hnext : perform w fs t = ⟨w', .task (.drive g), fs⟩)
    (haccount : (w'.generator g).account = (w.generator g).account)
    (hrecovery : t.recovery (w.generator g).name =
      .progress (.error (.exhausted (w'.generator g).name))) : Recovers P g w t fs := by
  have hbegun : Within P fs ⟨w, .task t, fs⟩ ⟨w', .task (.drive g), fs⟩ :=
    .of_task (List.suffix_refl fs) hnext (.refl _)
  have hne : t ≠ .releasePayload g := by
    rintro rfl
    cases ht
  constructor
  · obtain ⟨m₁, hto, hends, haccount', hheld⟩ := h.ends
    exact ⟨m₁, hbegun.trans hto, hends.of_task hin hne hnext, haccount'.trans haccount, hheld⟩
  · intro w₁ b hback
    have hback : Within P fs (perform w fs t) ⟨w₁, .answer b, fs⟩ := hback.of_ne nofun
    rw [hnext] at hback
    rw [hrecovery]
    exact h.answers w₁ b hback
  · intro hsettles
    obtain ⟨w₁, hback⟩ := h.returns (hsettles.leads hbegun.leads)
    rw [hrecovery]
    exact ⟨w₁, hbegun.trans hback⟩

/-- A close goes on with a switch, and it has succeeded when the generator is exhausted. -/
theorem Recovers.of_closing (h : Recovers P g w' (.drive g) (.closing g :: fs))
    (hm : Reachable P ⟨w', .task (.drive g), .closing g :: fs⟩)
    (hin : .inside g ∉ Coroutine.marks fs)
    (hnext : close w fs g = ⟨w', .task (.drive g), .closing g :: fs⟩)
    (haccount : (w'.generator g).account = (w.generator g).account) :
    Recovers P g w (.close g) fs := by
  have hbegun : Within P fs ⟨w, .task (.close g), fs⟩ ⟨w', .task (.drive g), .closing g :: fs⟩ :=
    .of_task (List.suffix_refl fs) hnext (.refl _)
  constructor
  · obtain ⟨m₁, hto, hends, haccount', hheld⟩ := h.ends
    exact ⟨m₁, hbegun.trans hto.under, hends.of_task hin (by simp) hnext,
      haccount'.trans haccount, hheld⟩
  · intro w₁ b hback
    have hback : Within P fs (close w fs g) ⟨w₁, .answer b, fs⟩ := hback.of_ne nofun
    rw [hnext] at hback
    obtain ⟨w₂, c, hbefore, hafter⟩ := Within.answers hm id (fun _ h => by cases h)
      (fun w u => by cases u <;> exact ⟨_, rfl⟩) hback (List.suffix_refl _)
    obtain rfl := h.answers w₂ c hbefore
    have hafter : Within P fs ⟨w₂, .answer (.closed (.ok ())), fs⟩ _ := hafter.of_ne nofun
    exact hafter.eq_of_answer
  · intro hsettles
    obtain ⟨w₁, hback⟩ := h.returns (hsettles.leads hbegun.leads)
    refine ⟨w₁, hbegun.trans (hback.under.trans (.move (List.suffix_cons _ fs) ?_ (.refl _)))⟩
    exact fun _ _ => List.cons_ne_self _ _

/-- The next operation on a generator whose producer has panicked recovers from the panic. -/
theorem recovers_of_asks {t : Task C} (hm : Reachable P ⟨w, .task t, fs⟩) (ht : t.asks? = some g)
    (hrun : (w.generator g).running = false) (hs : (w.generator g).status = .running)
    (hdead : (w.generator g).Dead) : Recovers P g w t fs := by
  have hsound := hm.sound
  have hphase : (Control.task t).phase? g = none := by cases t <;> first | rfl | cases ht
  have hrest : Rest (Coroutine.marks fs) g (w.generator g) := hsound.rest hphase
  obtain ⟨hin, -, hidle⟩ := hrest.idle_of_not_running hrun
  have hlt : g < w.generators.size := w.lt_size_of_dead hdead
  obtain ⟨κ, hκ, hfits⟩ := hsound.order
  cases t with
  | resume k sent =>
    cases ht
    obtain rfl : κ = .progress g := hfits
    obtain ⟨w₁, hresume, hb₁⟩ := resume_running fs hrun hs hidle.slots.value hlt sent
    have hnext : next P ⟨w, .task (.resume g sent), fs⟩ = ⟨w₁, .task (.drive g), fs⟩ := hresume
    have hm₁ : Reachable P ⟨w₁, .task (.drive g), fs⟩ := hnext ▸ hm.move
    have hdrive := recovers_of_drive hm₁ hκ rfl (by rw [hb₁.self]; exact hdead)
    exact hdrive.of_task rfl hin hresume (by rw [hb₁.self]; rfl) (by rw [hb₁.self]; rfl)
  | throw k e =>
    cases ht
    obtain rfl : κ = .progress g := hfits
    obtain ⟨w₁, hthrow, hb₁⟩ := throwInto_running fs hrun hs hidle.slots.error hlt e
    have hnext : next P ⟨w, .task (.throw g e), fs⟩ = ⟨w₁, .task (.drive g), fs⟩ := hthrow
    have hm₁ : Reachable P ⟨w₁, .task (.drive g), fs⟩ := hnext ▸ hm.move
    have hdrive := recovers_of_drive hm₁ hκ rfl (by rw [hb₁.self]; exact hdead)
    exact hdrive.of_task rfl hin hthrow (by rw [hb₁.self]; rfl) (by rw [hb₁.self]; rfl)
  | close k =>
    cases ht
    obtain rfl : κ = .closed g := hfits
    obtain ⟨w₁, hclose, hb₁⟩ := close_running fs hrun hs hidle.slots.error hlt
    have hnext : next P ⟨w, .task (.close g), fs⟩ = ⟨w₁, .task (.drive g), .closing g :: fs⟩ :=
      hclose
    have hm₁ : Reachable P ⟨w₁, .task (.drive g), .closing g :: fs⟩ := hnext ▸ hm.move
    obtain ⟨κ, hclosing, -⟩ := hm₁.sound.order
    have hop : κ.operand? = some g := by cases hclosing; rfl
    have hdrive := recovers_of_drive hm₁ hclosing hop (by rw [hb₁.self]; exact hdead)
    exact hdrive.of_closing hm₁ hin hclose (by rw [hb₁.self]; rfl)
  | _ => cases ht

end Machine

end Coroutine
