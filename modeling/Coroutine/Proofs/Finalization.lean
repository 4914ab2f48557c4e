import Coroutine.Proofs.OneWay
import Coroutine.Proofs.Unshaken

/-! The course of a finalization. Main statements: a finalization that is over, be it with an answer or
with a panic, has come to the release of the payload, and from then on the generator owns nothing; the
panic is the one at the end of the cleanup. -/

namespace Coroutine.Machine

variable {C : Type} {P : Program C} {δ : GeneratorId → Prop} {g : GeneratorId} {w w' : World C}
  {fs : List (Frame C)} {f : Frame C} {m m' m₁ : Machine C} {a b : Answer}

/-- Of two states that come before the operation is back, one comes before the other. -/
theorem Within.compare (h : Within P fs m m₁) (h' : Within P fs m m') :
    Within P fs m₁ m' ∨ Within P fs m' m₁ := by
  induction h with
  | refl => exact .inl h'
  | move hfs hne hrest ih =>
    cases h' with
    | refl => exact .inr (.move hfs hne hrest)
    | move _ _ hrest' => exact ih hrest'

/-- What comes before the operation is back is on the way to its answer. -/
theorem Within.before_answer (h : Within P fs m m₁) (h' : Within P fs m ⟨w', .answer b, fs⟩) :
    Within P fs m₁ ⟨w', .answer b, fs⟩ := by
  rcases h.compare h' with h | h
  · exact h
  · rw [h.eq_answer]
    exact .refl _

theorem Over.frames (h : Over m m') : m'.frames = m.frames := by
  cases h <;> rfl

theorem Over.ne_task {t : Task C} (h : Over m m') : ⟨w, .task t, fs⟩ ≠ m' := by
  cases h <;> nofun

/-- What is over depends on the frames only. -/
theorem Over.of_frames (h : Over m m') (hframes : m₁.frames = m.frames) : Over m₁ m' := by
  cases h with
  | answered w a => exact hframes ▸ .answered w a
  | unwound w u => exact hframes ▸ .unwound w u

/-- A task that is over has made its first move. -/
theorem Within.of_task_over {t : Task C} {w₁ : World C} {fs' : List (Frame C)} {c : Control C}
    (h : Within P fs ⟨w, .task t, fs⟩ m') (hover : Over ⟨w, .task t, fs⟩ m')
    (hnext : perform w fs t = ⟨w₁, c, fs'⟩) : Within P fs ⟨w₁, c, fs'⟩ m' := by
  have hrest : Within P fs (perform w fs t) m' := h.of_ne hover.ne_task
  rwa [hnext] at hrest

/-- What was begun on top of a frame that goes has been over on top of it before. -/
theorem over_of_leaves {fs' : List (Frame C)} (hm : Reachable P m) (hf : ¬ f.IsPart)
    (hout : ∀ F : Fates, ¬ Awaits F .outcome (f :: fs)) (hframes : m.frames = f :: fs)
    (h : Within P fs' m m') (hm' : ¬ f :: fs <:+ m'.frames) :
    ∃ m₁, Within P (f :: fs) m m₁ ∧ Over m m₁ ∧ Within P fs' (m₁.next P) m' := by
  obtain ⟨m₁, hbefore, hafter, hback⟩ := h.leaves hf (hframes ▸ List.suffix_refl _) hm'
  have hover : Over m m₁ := by
    cases hback with
    | answers w a => exact hframes ▸ .answered w a
    | unwinds w u => exact hframes ▸ .unwound w u
    | yields w scopes captures _ => exact absurd rfl (not_yields (hm.leads hbefore.leads) hout)
  refine ⟨m₁, hbefore, hover, hafter.of_ne ?_⟩
  rintro rfl
  exact hm' (hover.frames.trans hframes ▸ List.suffix_refl _)

/-- What is over on top of `fs` has been over on top of the frame above before. -/
theorem exists_over (hm : Reachable P m) (hf : ¬ f.IsPart)
    (hout : ∀ F : Fates, ¬ Awaits F .outcome (f :: fs)) (hframes : m.frames = f :: fs)
    (h : Within P fs m m') (hm' : m'.frames = fs) :
    ∃ m₁, Within P (f :: fs) m m₁ ∧ Over m m₁ ∧ Within P fs (m₁.next P) m' :=
  over_of_leaves hm hf hout hframes h (hm' ▸ not_suffix_self)

/-- A release of the entry procedure that is over has come to the release of the payload. -/
theorem payload_of_entry (hm : Reachable P ⟨w, .task (.releaseEntry g), fs⟩)
    (h : Within P fs ⟨w, .task (.releaseEntry g), fs⟩ m')
    (hover : Over ⟨w, .task (.releaseEntry g), fs⟩ m') :
    ∃ w₁, Within P fs ⟨w, .task (.releaseEntry g), fs⟩ ⟨w₁, .task (.releasePayload g), fs⟩ ∧
      Within P fs ⟨w₁, .task (.releasePayload g), fs⟩ m' := by
  cases hentry : (w.generator g).entry with
  | none =>
    have hrelease := releaseEntry_none fs hentry
    exact ⟨w, .of_task (List.suffix_refl fs) hrelease (.refl _), h.of_task_over hover hrelease⟩
  | some entry =>
    have hlt : g < w.generators.size :=
      w.lt_size_of_ne Generator.entry (by rw [hentry]; nofun)
    obtain ⟨w₁, hrelease, -⟩ := releaseEntry_some fs hentry hlt
    have hto : Within P fs ⟨w, .task (.releaseEntry g), fs⟩
        ⟨w₁, .task (.release entry.captures), .emptying g :: fs⟩ :=
      .of_task (List.suffix_refl fs) hrelease (.refl _)
    have hm₁ := hm.leads hto.leads
    obtain ⟨m₁, hbefore, hafter, hback⟩ :=
      Within.back id (h.of_task_over hover hrelease) (List.suffix_refl _) hover.frames
    cases hback with
    | answers w₂ b =>
      have hnext : Within P fs ⟨w₂, .answer b, .emptying g :: fs⟩
          ⟨w₂, .task (.releasePayload g), fs⟩ := .next_of_cons (List.suffix_refl _)
      refine ⟨w₂, hto.trans (hbefore.under.trans hnext), hafter.of_ne fun heq => ?_⟩
      exact List.cons_ne_self _ _ ((congrArg Machine.frames heq).trans hover.frames)
    | unwinds w₂ u => exact absurd hbefore (contained_of_release hm₁ w₂ u)
    | yields w₂ scopes captures _ =>
      exact absurd rfl (not_yields (hm₁.leads hbefore.leads) fun _ h => by cases h)

/-- A stack that is unwound by force is left at its bottom, and with no panic. -/
theorem Back.cancelled (hm : Reachable P m) (h : Back P (.destroying g) fs m) :
    ∃ w, m = ⟨w, .unwind .cancel, .destroying g :: fs⟩ := by
  obtain ⟨κ, hκ, hfits⟩ := hm.sound.order
  cases h with
  | answers w a =>
    cases hκ with
    | destroying => cases a <;> exact hfits.1.elim
  | unwinds w u =>
    cases u with
    | cancel => exact ⟨w, rfl⟩
    | panic p =>
      cases hκ with
      | destroying => exact absurd rfl hfits.2.1.2
  | yields w scopes captures _ => exact absurd rfl (not_yields hm fun _ h => by cases h)

/-- A finalization that is over has come to the release of the payload. If the producer was suspended
and no frames are unwound, its stack has been unwound by force before. -/
theorem payload_of_finalize (hm : Reachable P ⟨w, .task (.finalize g), fs⟩)
    (h : Within P fs ⟨w, .task (.finalize g), fs⟩ m')
    (hover : Over ⟨w, .task (.finalize g), fs⟩ m') :
    ∃ w₁, Within P fs ⟨w, .task (.finalize g), fs⟩ ⟨w₁, .task (.releasePayload g), fs⟩ ∧
      Within P fs ⟨w₁, .task (.releasePayload g), fs⟩ m' := by
  have hentry {w₁ : World C} (hfinalize : finalize w fs g = task w₁ fs (.releaseEntry g)) :
      ∃ w₁, Within P fs ⟨w, .task (.finalize g), fs⟩ ⟨w₁, .task (.releasePayload g), fs⟩ ∧
        Within P fs ⟨w₁, .task (.releasePayload g), fs⟩ m' := by
    have hto : Within P fs ⟨w, .task (.finalize g), fs⟩ ⟨w₁, .task (.releaseEntry g), fs⟩ :=
      .of_task (List.suffix_refl fs) hfinalize (.refl _)
    obtain ⟨w₂, hpayload, hrest⟩ := payload_of_entry (hm.leads hto.leads)
      (h.of_task_over hover hfinalize) (hover.of_frames rfl)
    exact ⟨w₂, hto.trans hpayload, hrest⟩
  have hat : At _ (Coroutine.marks fs) g (w.generator g) := hm.sound.shape g
  obtain ⟨-, -, -, -, hfiber⟩ := hat.phase rfl (by decide)
  rcases hfiber with ⟨hended, -⟩ | ⟨-, -, -, ⟨hdead, -⟩ | ⟨hparked, -⟩⟩
  · exact hentry (finalize_of_none fs hended.fiber)
  · obtain ⟨w₁, hfinalize, -⟩ := finalize_over fs hdead (w.lt_size_of_dead hdead)
    exact hentry hfinalize
  · by_cases hpanicking : panicking fs = true
    · obtain ⟨w₁, hfinalize, -⟩ :=
        finalize_panicking hparked hpanicking (w.lt_size_of_parked hparked)
      exact hentry hfinalize
    · obtain ⟨w₁, size, k, scopes, captures, -, hfinalize, -⟩ :=
        finalize_suspended hparked hpanicking (w.lt_size_of_parked hparked)
      have hto : Within P fs ⟨w, .task (.finalize g), fs⟩
          ⟨w₁, .unwind .cancel, stackFiber scopes captures (.destroying g :: fs)⟩ :=
        .of_task (List.suffix_refl fs) hfinalize (.refl _)
      obtain ⟨m₁, hbefore, hafter, hback⟩ := Within.back id (h.of_task_over hover hfinalize)
        (suffix_stackFiber ..) hover.frames
      obtain ⟨w₂, rfl⟩ := hback.cancelled ((hm.leads hto.leads).leads hbefore.leads)
      have hleft : Within P fs ⟨w₂, .unwind .cancel, .destroying g :: fs⟩
          ⟨leaveProducer w₂ g, .task (.releaseEntry g), fs⟩ := .next_of_cons (List.suffix_refl _)
      have hreached := hto.trans (hbefore.under.trans hleft)
      have hrest : Within P fs ⟨leaveProducer w₂ g, .task (.releaseEntry g), fs⟩ m' :=
        hafter.of_ne fun heq =>
          List.cons_ne_self _ _ ((congrArg Machine.frames heq).trans hover.frames)
      obtain ⟨w₃, hpayload, hrest⟩ :=
        payload_of_entry (hm.leads hreached.leads) hrest (hover.of_frames rfl)
      exact ⟨w₃, hreached.trans hpayload, hrest⟩

/-- When the payload has been released the generator owns nothing. -/
theorem spent_of_payload (h : Sound δ ⟨w, .task (.releasePayload g), fs⟩) :
    ((releasePayload w fs g).world.generator g).Spent := by
  have hat : At _ (Coroutine.marks fs) g (w.generator g) := h.shape g
  obtain ⟨-, -, hended, hrunning, hentry⟩ := hat.phase rfl (by decide)
  obtain ⟨payload, hx⟩ : ∃ payload, (releasePayload w fs g).world.generator g =
      { (w.generator g).emptySlots with cleanup := none, payload } := by
    have hreleases := releases_releasePayload w fs g
    generalize releasePayload w fs g = m' at hreleases
    cases hreleases with
    | nothing hnone hb => exact ⟨_, hb.self.trans (by rw [Generator.emptySlots, hnone])⟩
    | lost _ _ hb | discarded _ _ _ hb => exact ⟨_, hb.self⟩
    | paid _ _ _ hb =>
      rw [world_clean]
      exact ⟨_, hb.self⟩
  rw [hx]
  exact ⟨hended.status, hrunning, hended.fiber, hentry, rfl⟩

/-- A finalization that is over leaves a generator that owns nothing. -/
theorem spent_of_finalize (hm : Reachable P ⟨w, .task (.finalize g), fs⟩)
    (hlt : g < w.generators.size) (h : Within P fs ⟨w, .task (.finalize g), fs⟩ m')
    (hover : Over ⟨w, .task (.finalize g), fs⟩ m') :
    g < m'.world.generators.size ∧ (m'.world.generator g).Spent := by
  obtain ⟨w₁, hto, hrest⟩ := payload_of_finalize hm h hover
  have hm₁ := hm.leads hto.leads
  have hlt₁ := (stage_le_of_later hm (.of_leads hto.leads) hlt).1
  have hmoved : Leads P (releasePayload w₁ fs g) m' :=
    (hrest.of_ne hover.ne_task).leads
  have hlt₂ := (stage_le_of_later hm₁ (.of_leads (.single _)) hlt₁).1
  refine ⟨(stage_le_of_later hm (.of_leads h.leads) hlt).1, ?_⟩
  exact (spent_of_later hm₁.move (.of_leads hmoved) hlt₂ (spent_of_payload hm₁.sound)).1

/-- How a finalization of `x` is over, on top of `fs` and with the answer `a`, if it has one: else it is
left with the panic at the end of the cleanup. -/
inductive Finalized (x : Generator C) (a : Answer) (fs : List (Frame C)) : Machine C → Prop
  | answered (w : World C) : Finalized x a fs ⟨w, .answer a, fs⟩
  | panicked (w : World C) {steps : List (Step C)} {message : String} :
      x.cleanup = some (.callback steps (some message)) →
      Finalized x a fs ⟨w, .unwind (.panic (.text message)), fs⟩

theorem finalized_of_over (hm : Reachable P ⟨w, .task (.finalize g), fs⟩)
    (hlt : g < w.generators.size) (h : Within P fs ⟨w, .task (.finalize g), fs⟩ m')
    (hover : Over ⟨w, .task (.finalize g), fs⟩ m') : ∃ a, Finalized (w.generator g) a fs m' := by
  obtain ⟨w₁, hto, hrest⟩ := payload_of_finalize hm h hover
  cases hover with
  | answered w' a => exact ⟨a, .answered w'⟩
  | unwound w' u =>
    obtain ⟨steps, message, hcleanup, rfl⟩ := panic_of_releasePayload (hm.leads hto.leads) hrest
    obtain ⟨-, hsame | hnone⟩ := stays_of_later hm (.of_leads hto.leads) hlt
    · exact ⟨.unit, .panicked w' (hsame.symm.trans hcleanup)⟩
    · cases hnone.symm.trans hcleanup

/-- When the answer is given that has been kept for a finalization, the payload has been released and
the generator owns nothing. -/
theorem finalized_of_keeping (hm : Reachable P ⟨w, .task (.finalize g), .keeping a :: fs⟩)
    (hlt : g < w.generators.size)
    (h : Within P fs ⟨w, .task (.finalize g), .keeping a :: fs⟩ m') (hm' : m'.frames = fs) :
    Finalized (w.generator g) a fs m' ∧ (m'.world.generator g).Spent ∧
      ∃ w₁, Within P fs ⟨w, .task (.finalize g), .keeping a :: fs⟩
        ⟨w₁, .task (.releasePayload g), .keeping a :: fs⟩ := by
  obtain ⟨m₁, hbefore, hover, hafter⟩ := exists_over hm id (fun _ h => by cases h) rfl h hm'
  have hm₁ := hm.leads hbefore.leads
  obtain ⟨hlt₁, hspent⟩ := spent_of_finalize hm hlt hbefore hover
  have hspent' := (spent_of_later hm₁ (.of_leads (.move hafter.leads)) hlt₁ hspent).1
  obtain ⟨w₂, hpayload, -⟩ := payload_of_finalize hm hbefore hover
  refine ⟨?_, hspent', w₂, hpayload.under⟩
  obtain ⟨b, hfinalized⟩ := finalized_of_over hm hlt hbefore hover
  cases hfinalized with
  | answered w₁ =>
    have hafter : Within P fs ⟨w₁, .answer a, fs⟩ m' := hafter
    rw [hafter.eq_answer]
    exact .answered w₁
  | panicked w₁ hcleanup =>
    have hafter : Within P fs ⟨w₁, .unwind _, fs⟩ m' := hafter
    rw [hafter.eq_of_unwind hm']
    exact .panicked w₁ hcleanup

end Coroutine.Machine
