import Coroutine.Proofs.Guards

/-! Operations that no panic leaves. Main statement: while frames are unwound, a close or the drop of
a handle comes back with a panic only if one comes from the producer or from the end of the cleanup
callback. -/

namespace Coroutine

variable {C : Type}

/-- The cleanup callback raises no panic at its end. -/
def Generator.Mild (x : Generator C) : Prop :=
  ∀ steps message, x.cleanup ≠ some (.callback steps (some message))

namespace Machine

variable {P : Program C} {δ : GeneratorId → Prop} {g : GeneratorId} {w w' : World C}
  {fs : List (Frame C)} {f : Frame C} {m m' : Machine C} {a : Answer}

/-- A cleanup is never exchanged. -/
theorem mild_of_leads (h : Reachable P m) (hm : Leads P m m') (hg : g < m.world.generators.size)
    (hmild : (m.world.generator g).Mild) : (m'.world.generator g).Mild := by
  induction hm with
  | refl => exact hmild
  | @move m m' _ ih =>
    refine ih h.move (Nat.lt_of_lt_of_le hg (size_le_next m)) fun steps message hc => ?_
    rcases (booking_next (P := P) h.sound hg).stays with hsame | hnone
    · exact hmild steps message (hsame.symm.trans hc)
    · cases hnone.symm.trans hc

/-- No panic of what is begun in `m` on top of `fs` gets to `fs`. -/
def Contained (P : Program C) (fs : List (Frame C)) (m : Machine C) : Prop :=
  ∀ w u, ¬ Within P fs m ⟨w, .unwind u, fs⟩

theorem contained_of_answer : Contained P fs ⟨w, .answer a, fs⟩ := by
  intro w' u h
  cases h with
  | move _ hback _ => exact hback a rfl rfl

theorem Contained.of_next (h : Contained P fs (m.next P))
    (hm : ∀ u, m.control = .unwind u → m.frames ≠ fs) : Contained P fs m := by
  intro w u hwithin
  refine h w u (hwithin.of_ne ?_)
  rintro rfl
  exact hm u rfl rfl

/-- A panic that gets to `fs` comes through the frame on top of it. -/
theorem Contained.of_back (hf : ¬ f.IsPart) (hfs : f :: fs <:+ m.frames)
    (h : ∀ m₁, Within P (f :: fs) m m₁ → Back P f fs m₁ → Contained P fs m₁) :
    Contained P fs m := by
  intro w u hwithin
  obtain ⟨m₁, hbefore, hafter, hback⟩ := hwithin.back hf hfs rfl
  exact h m₁ hbefore hback w u hafter

/-- An answer that is kept does not get lost if no panic gets to it. -/
theorem Contained.of_keeping (hm : Reachable P m) (h : Contained P (.keeping a :: fs) m)
    (hfs : .keeping a :: fs <:+ m.frames) : Contained P fs m := by
  refine .of_back id hfs fun m₁ hbefore hback => ?_
  cases hback with
  | answers w₁ b => exact contained_of_answer.of_next nofun
  | unwinds w₁ u => exact absurd hbefore (h w₁ u)
  | yields w₁ scopes captures _ =>
    exact absurd rfl (not_yields (hm.leads hbefore.leads) (fun _ h => by cases h))

/-! ### Releases -/

/-- Panics of release logic end in it. -/
theorem contained_of_release {guards : List (HeldGuard C)}
    (hm : Reachable P ⟨w, .task (.release guards), fs⟩) :
    Contained P fs ⟨w, .task (.release guards), fs⟩ := by
  induction guards generalizing w with
  | nil => exact contained_of_answer.of_next nofun
  | cons first rest ih =>
    intro w' u h
    have hstep : Within P fs (releaseStep (w.note (.released first.serial first.guard.name)) fs
        first.guard.name first.guard.onDrop rest) ⟨w', .unwind u, fs⟩ := h.of_ne nofun
    have hmove : Reachable P (releaseStep (w.note (.released first.serial first.guard.name)) fs
        first.guard.name first.guard.onDrop rest) := hm.move
    obtain ⟨w₁, hto, hfrom⟩ := within_releaseStep hmove hstep rfl
    exact ih (hmove.leads hto.leads) w' u hfrom

/-- So do those of the steps of a cleanup. -/
theorem clean_of_back {todo : List (Step C)} {last : Option String} (h : Sound δ m)
    (hback : Back P (.cleaning todo last) fs m) :
    m.frames = .cleaning todo last :: fs ∧
      ∃ (w : World C) (e : Event), m.next P = clean (w.note e) fs todo last := by
  obtain ⟨κ, hκ, hfits⟩ := h.order
  cases hback with
  | answers w a =>
    cases hκ with
    | cleaning =>
      cases a with
      | reply r => exact ⟨rfl, w, .onCleanup r, rfl⟩
      | _ => exact hfits.1.elim
  | unwinds w u =>
    cases hκ with
    | cleaning =>
      cases u with
      | panic p => exact ⟨rfl, w, .onCleanup (.panicked p.message), rfl⟩
      | cancel => cases hfits
  | yields w scopes captures _ =>
    obtain rfl : κ = .code := hfits
    cases Awaits.stackFiber_iff.mp hκ

/-- A cleanup is left only with the panic at its end. -/
theorem panic_of_clean {todo : List (Step C)} {last : Option String} {u : Unwinding}
    (hm : Reachable P (clean w fs todo last))
    (h : Within P fs (clean w fs todo last) ⟨w', .unwind u, fs⟩) :
    ∃ message, last = some message ∧ u = .panic (.text message) := by
  induction todo generalizing w with
  | nil =>
    cases last with
    | none => exact absurd h (contained_of_answer w' u)
    | some message =>
      cases h.eq_of_unwind rfl
      exact ⟨message, rfl, rfl⟩
  | cons s todo ih =>
    obtain ⟨m₁, hbefore, hafter, hback⟩ := h.back (f := .cleaning todo last) id (List.suffix_refl _) rfl
    have hm₁ := hm.leads hbefore.leads
    obtain ⟨hframes, w₁, e, hnext⟩ := clean_of_back hm₁.sound hback
    have hrest : Within P fs (m₁.next P) ⟨w', .unwind u, fs⟩ :=
      hafter.of_ne fun heq => List.cons_ne_self _ _ (hframes.symm.trans (congrArg frames heq))
    rw [hnext] at hrest
    exact ih (hnext ▸ hm₁.move) hrest

theorem panic_of_releasePayload {u : Unwinding} (hm : Reachable P ⟨w, .task (.releasePayload g), fs⟩)
    (h : Within P fs ⟨w, .task (.releasePayload g), fs⟩ ⟨w', .unwind u, fs⟩) :
    ∃ steps message, (w.generator g).cleanup = some (.callback steps (some message)) ∧
      u = .panic (.text message) := by
  have hrest : Within P fs (releasePayload w fs g) ⟨w', .unwind u, fs⟩ := h.of_ne nofun
  have hmove : Reachable P (releasePayload w fs g) := hm.move
  have hreleases := releases_releasePayload w fs g
  generalize releasePayload w fs g = m' at hreleases hmove hrest
  cases hreleases with
  | nothing | lost | discarded => exact absurd hrest (contained_of_answer w' u)
  | @paid _ steps last payload hcleanup =>
    obtain ⟨message, rfl, hpanic⟩ := panic_of_clean hmove hrest
    exact ⟨steps, message, hcleanup, hpanic⟩

theorem contained_of_releasePayload (hm : Reachable P ⟨w, .task (.releasePayload g), fs⟩)
    (hmild : (w.generator g).Mild) : Contained P fs ⟨w, .task (.releasePayload g), fs⟩ := by
  intro w' u h
  obtain ⟨steps, message, hcleanup, -⟩ := panic_of_releasePayload hm h
  exact hmild steps message hcleanup

theorem contained_of_releaseEntry (hm : Reachable P ⟨w, .task (.releaseEntry g), fs⟩)
    (hmild : (w.generator g).Mild) : Contained P fs ⟨w, .task (.releaseEntry g), fs⟩ := by
  refine .of_next ?_ nofun
  have hmove : Reachable P (releaseEntry w fs g) := hm.move
  show Contained P fs (releaseEntry w fs g)
  cases hentry : (w.generator g).entry with
  | none =>
    rw [releaseEntry_none fs hentry] at hmove ⊢
    exact contained_of_releasePayload hmove hmild
  | some entry =>
    have hlt : g < w.generators.size :=
      w.lt_size_of_ne Generator.entry (by rw [hentry]; nofun)
    obtain ⟨w₁, hrelease, hb⟩ := releaseEntry_some fs hentry hlt
    rw [hrelease] at hmove ⊢
    refine .of_back (f := .emptying g) id (List.suffix_refl _) fun m₁ hbefore hback => ?_
    have hm₁ := hmove.leads hbefore.leads
    cases hback with
    | answers w₂ b =>
      refine .of_next ?_ nofun
      refine contained_of_releasePayload hm₁.move ?_
      have hmild₁ : (w₁.generator g).Mild := by
        rw [hb.self]
        exact hmild
      exact mild_of_leads hmove hbefore.leads (hb.size ▸ hlt) hmild₁
    | unwinds w₂ u => exact absurd hbefore (contained_of_release hmove w₂ u)
    | yields w₂ scopes captures _ => exact absurd rfl (not_yields hm₁ (fun _ h => by cases h))

/-- A generator is finalized without a panic, unless its stack has to be unwound by force. -/
theorem contained_of_finalize (hm : Reachable P ⟨w, .task (.finalize g), fs⟩)
    (hmild : (w.generator g).Mild)
    (hparked : (w.generator g).Parked → panicking fs = true) :
    Contained P fs ⟨w, .task (.finalize g), fs⟩ := by
  have hat : At _ (Coroutine.marks fs) g (w.generator g) := hm.sound.shape g
  obtain ⟨-, -, -, -, hfiber⟩ := hat.phase rfl (by decide)
  have hmove : Reachable P (finalize w fs g) := hm.move
  refine .of_next ?_ nofun
  show Contained P fs (finalize w fs g)
  obtain ⟨w₁, hfinalize, hcleanup⟩ : ∃ w₁, finalize w fs g = task w₁ fs (.releaseEntry g) ∧
      (w₁.generator g).cleanup = (w.generator g).cleanup := by
    rcases hfiber with ⟨hended, -⟩ | ⟨-, -, -, ⟨hdead, -⟩ | ⟨hsuspended, -⟩⟩
    · exact ⟨w, finalize_of_none fs hended.fiber, rfl⟩
    · obtain ⟨w₁, hfinalize, hb⟩ := finalize_over fs hdead (w.lt_size_of_dead hdead)
      exact ⟨w₁, hfinalize, by rw [hb.self]⟩
    · obtain ⟨w₁, hfinalize, hb⟩ :=
        finalize_panicking hsuspended (hparked hsuspended) (w.lt_size_of_parked hsuspended)
      exact ⟨w₁, hfinalize, by rw [hb.self]⟩
  rw [hfinalize] at hmove ⊢
  refine contained_of_releaseEntry hmove fun steps message hc => ?_
  exact hmild steps message (hcleanup.symm.trans hc)

theorem contained_of_abandon (hm : Reachable P ⟨w, .task (.abandon g), fs⟩)
    (hmild : (w.generator g).Mild) (hpanicking : panicking fs = true) :
    Contained P fs ⟨w, .task (.abandon g), fs⟩ := by
  refine .of_next ?_ nofun
  have hmove : Reachable P (abandon w fs g) := hm.move
  show Contained P fs (abandon w fs g)
  by_cases hs : (w.generator g).status = .finished
  · rw [abandon_of_finished fs hs]
    exact contained_of_answer
  · obtain ⟨w₁, habandon, hb⟩ := abandon_of_not_finished fs hs (w.lt_size_of_status hs)
    rw [habandon] at hmove ⊢
    refine contained_of_finalize hmove (fun steps message hc => ?_) fun _ => hpanicking
    rw [hb.self] at hc
    exact hmild steps message hc

/-! ### Switches -/

theorem contained_of_terminated (hm : Reachable P ⟨w, .task (.terminated g), fs⟩)
    (hmild : (w.generator g).Mild) : Contained P fs ⟨w, .task (.terminated g), fs⟩ := by
  have hat : At _ (Coroutine.marks fs) g (w.generator g) := hm.sound.shape g
  obtain ⟨-, -, hstarted, -, hdead, -⟩ := hat.phase rfl (by decide)
  obtain ⟨w₁, hterminated, hb⟩ :=
    terminated_running fs hstarted.status (w.lt_size_of_started hstarted)
  have hmove : Reachable P (terminated w fs g) := hm.move
  refine .of_next ?_ nofun
  show Contained P fs (terminated w fs g)
  rw [hterminated] at hmove ⊢
  refine .of_keeping hmove (contained_of_finalize hmove (fun steps message hc => ?_) fun hparked => ?_)
    (List.suffix_refl _)
  · rw [hb.self] at hc
    exact hmild steps message hc
  · rw [hb.self] at hparked
    exact absurd hparked hdead.not_parked

/-- A producer that is left without a panic hands none on. -/
theorem contained_of_driving (hm : Reachable P m) (hfs : .driving g :: fs <:+ m.frames)
    (hg : g < m.world.generators.size) (hmild : (m.world.generator g).Mild)
    (hcalm : Contained P (.driving g :: fs) m) : Contained P fs m := by
  refine .of_back id hfs fun m₁ hbefore hback => ?_
  have hm₁ := hm.leads hbefore.leads
  have hmild₁ := mild_of_leads hm hbefore.leads hg hmild
  have hlt := Nat.lt_of_lt_of_le hg (size_le_of_leads hbefore.leads)
  cases hback with
  | answers w₁ b =>
    obtain ⟨κ, hκ, hfits⟩ := hm₁.sound.order
    cases hκ with
    | driving =>
      cases b with
      | outcome r =>
        obtain ⟨w₂, -, hend, -⟩ := next_of_end (P := P) hm₁.sound
        have hm₂ := hm₁.move
        have hmild₂ := mild_of_leads hm₁ (.single _) hlt hmild₁
        refine .of_next ?_ nofun
        rw [hend] at hm₂ hmild₂ ⊢
        exact contained_of_terminated hm₂ hmild₂
      | _ => exact hfits.1.elim
  | unwinds w₁ u => exact absurd hbefore (hcalm w₁ u)
  | yields w₁ scopes captures hP =>
    obtain ⟨w₂, w₃, hyield, hsuspended, -⟩ := next_of_yield hm₁.sound hP
    refine .of_next ?_ nofun
    rw [hyield]
    refine .of_next ?_ nofun
    rw [hsuspended]
    exact contained_of_answer

theorem contained_of_drive (hm : Reachable P ⟨w, .task (.drive g), fs⟩)
    (hmild : (w.generator g).Mild)
    (hcalm : Contained P (.driving g :: fs) (drive w fs g)) :
    Contained P fs ⟨w, .task (.drive g), fs⟩ := by
  have hat : At _ (Coroutine.marks fs) g (w.generator g) := hm.sound.shape g
  obtain ⟨-, -, hstarted, -, hhanded, hfiber⟩ := hat.phase rfl (by decide)
  have hlt : g < w.generators.size := w.lt_size_of_started hstarted
  have hmove : Reachable P (drive w fs g) := hm.move
  have hmild₁ : ((drive w fs g).world.generator g).Mild :=
    mild_of_leads hm (.single (P := P) ⟨w, .task (.drive g), fs⟩) hlt hmild
  have hlt₁ : g < (drive w fs g).world.generators.size :=
    Nat.lt_of_lt_of_le hlt (size_le_next (P := P) ⟨w, .task (.drive g), fs⟩)
  refine .of_next ?_ nofun
  show Contained P fs (drive w fs g)
  rcases hfiber with ⟨⟨size, entry, hf⟩, -⟩ | ⟨⟨size, k, scopes, captures, hf⟩, -⟩ |
    ⟨⟨size, hf⟩, -⟩
  · obtain ⟨w₁, hdrive, -⟩ := drive_fresh fs hf hstarted.payload hlt
    rw [hdrive] at hmove hmild₁ hlt₁ hcalm ⊢
    exact contained_of_driving hmove (suffix_stackFiber ..) hlt₁ hmild₁ hcalm
  · obtain ⟨w₁, hdrive, -⟩ := drive_suspended fs hf hlt
    rw [hdrive] at hmove hmild₁ hlt₁ hcalm ⊢
    exact contained_of_driving hmove (suffix_stackFiber ..) hlt₁ hmild₁ hcalm
  · obtain ⟨w₁, hdrive, -⟩ := drive_over fs hf
    rw [hdrive] at hmove hmild₁ ⊢
    exact contained_of_terminated hmove hmild₁

/-! ### Closes and drops -/

/-- No panic comes from the producer of `g` when it is closed in the course of what is begun in `m` on
top of `fs`, nor from the end of its cleanup. -/
structure Steady (P : Program C) (g : GeneratorId) (fs : List (Frame C)) (m : Machine C) : Prop where
  producer : ∀ w u below, ¬ Within P fs m ⟨w, .unwind u, .driving g :: .closing g :: below⟩
  mild : (m.world.generator g).Mild

theorem Steady.within {fs' : List (Frame C)} (h : Steady P g fs m) (hm : Reachable P m)
    (hg : g < m.world.generators.size) (hwithin : Within P fs m m') (hfs : fs <:+ fs') :
    Steady P g fs' m' where
  producer w u below hto := h.producer w u below (hwithin.trans (hto.of_suffix hfs))
  mild := mild_of_leads hm hwithin.leads hg h.mild

/-- A producer that yields in answer to a close is given up without a panic. -/
theorem contained_of_violating (hm : Reachable P ⟨w, .task (.abandon g), .violating g :: fs⟩)
    (hmild : (w.generator g).Mild) (hpanicking : panicking fs = true) :
    Contained P fs ⟨w, .task (.abandon g), .violating g :: fs⟩ := by
  refine .of_back (f := .violating g) id (List.suffix_refl _) fun m₁ hbefore hback => ?_
  cases hback with
  | answers w₁ b =>
    refine .of_next ?_ nofun
    show Contained P fs (if panicking fs then closed w₁ fs (.ok ()) else _)
    rw [if_pos hpanicking]
    exact contained_of_answer
  | unwinds w₁ u => exact absurd hbefore (contained_of_abandon hm hmild hpanicking w₁ u)
  | yields w₁ scopes captures _ =>
    exact absurd rfl (not_yields (hm.leads hbefore.leads) (fun _ h => by cases h))

theorem contained_of_closing (hm : Reachable P ⟨w, .task (.drive g), .closing g :: fs⟩)
    (hg : g < w.generators.size) (hpanicking : panicking fs = true)
    (hsteady : Steady P g fs ⟨w, .task (.drive g), .closing g :: fs⟩) :
    Contained P fs ⟨w, .task (.drive g), .closing g :: fs⟩ := by
  have hclosing : fs <:+ .closing g :: fs := List.suffix_cons _ fs
  refine .of_back (f := .closing g) id (List.suffix_refl _) fun m₁ hbefore hback => ?_
  have hm₁ := hm.leads hbefore.leads
  cases hback with
  | answers w₁ b =>
    have hmild := mild_of_leads hm₁ (.single _)
      (Nat.lt_of_lt_of_le hg (size_le_of_leads hbefore.leads))
      (mild_of_leads hm hbefore.leads hg hsteady.mild)
    have hmove := hm₁.move
    obtain ⟨κ, hκ, hfits, -⟩ := hm₁.sound.order
    cases hκ with
    | closing =>
      cases b with
      | progress r =>
        refine .of_next ?_ nofun
        rcases r with e | _ | _
        · cases e <;> exact contained_of_answer
        · exact contained_of_violating hmove hmild hpanicking
        · exact contained_of_answer
      | _ => exact hfits.elim
  | unwinds w₁ u =>
    refine absurd hbefore (contained_of_drive hm hsteady.mild (fun w₂ u' hto => ?_) w₁ u)
    have hto := hto.of_suffix (hclosing.trans (List.suffix_cons (.driving g) _))
    exact hsteady.producer w₂ u' fs (.of_task hclosing rfl hto)
  | yields w₁ scopes captures _ => exact absurd rfl (not_yields hm₁ (fun _ h => by cases h))

/-- While frames are unwound, a close raises no panic that is not its producer's or its cleanup's. -/
theorem contained_of_close (hm : Reachable P ⟨w, .task (.close g), fs⟩)
    (hpanicking : panicking fs = true) (hsteady : Steady P g fs ⟨w, .task (.close g), fs⟩) :
    Contained P fs ⟨w, .task (.close g), fs⟩ := by
  have hsound := hm.sound
  obtain ⟨κ, hκ, rfl⟩ := hsound.order
  have hlt : g < w.generators.size := hsound.lt_size_of_operand hκ rfl
  have hrest : Rest (Coroutine.marks fs) g (w.generator g) := hsound.rest rfl
  have hmove : Reachable P (close w fs g) := hm.move
  have hbegun : Within P fs ⟨w, .task (.close g), fs⟩ (close w fs g) :=
    .of_task (List.suffix_refl fs) rfl (.refl _)
  refine .of_next ?_ nofun
  show Contained P fs (close w fs g)
  cases hrun : (w.generator g).running with
  | true =>
    rw [close_of_running fs hrun]
    exact contained_of_answer
  | false =>
  obtain ⟨-, -, hidle⟩ := hrest.idle_of_not_running hrun
  cases hs : (w.generator g).status with
  | unused =>
    obtain ⟨w₁, hclose, hb⟩ := close_unused fs hrun hs hlt
    rw [hclose] at hmove ⊢
    refine .of_keeping hmove (contained_of_finalize hmove (fun steps message hc => ?_)
      fun hparked => ?_) (List.suffix_refl _)
    · rw [hb.self] at hc
      exact hsteady.mild steps message hc
    · rw [hb.self] at hparked
      exact absurd hparked (Generator.not_parked_of_fiber (hidle.unused hs).1)
  | running =>
    obtain ⟨w₁, hclose, hb⟩ := close_running fs hrun hs hidle.slots.error hlt
    rw [hclose] at hmove hbegun ⊢
    exact contained_of_closing hmove (hb.size ▸ hlt) hpanicking
      (hsteady.within hm hlt hbegun (List.suffix_refl _))
  | finished =>
    obtain ⟨w₁, hclose, -⟩ := close_finished fs hrun hs
    rw [hclose]
    exact contained_of_answer

/-- Nor does the drop of a handle. -/
theorem contained_of_dropHandle (hm : Reachable P ⟨w, .task (.dropHandle g), fs⟩)
    (hpanicking : panicking fs = true)
    (hsteady : Steady P g fs ⟨w, .task (.dropHandle g), fs⟩) :
    Contained P fs ⟨w, .task (.dropHandle g), fs⟩ := by
  have hmove : Reachable P (dropHandle w fs g) := hm.move
  have hbegun : Within P fs ⟨w, .task (.dropHandle g), fs⟩ (dropHandle w fs g) :=
    .of_task (List.suffix_refl fs) rfl (.refl _)
  refine .of_next ?_ nofun
  show Contained P fs (dropHandle w fs g)
  by_cases hlast : (w.generator g).handles - 1 = 0 ∧ (w.generator g).status ≠ .finished
  · have hlt := w.lt_size_of_status hlast.2
    rw [dropHandle_last fs hlast.1 hlast.2 hlt] at hmove hbegun ⊢
    have hdropping : fs <:+ .dropping g :: fs := List.suffix_cons _ fs
    have hclosing := hsteady.within hm hlt hbegun hdropping
    refine .of_back (f := .dropping g) id (List.suffix_refl _) fun m₁ hbefore hback => ?_
    have hm₁ := hmove.leads hbefore.leads
    cases hback with
    | answers w₁ b =>
      have hlt₁ := Nat.lt_of_lt_of_le hlt (size_le_of_leads (hbegun.leads.trans hbefore.leads))
      have hmild₁ := mild_of_leads hm (hbegun.leads.trans hbefore.leads) hlt hsteady.mild
      have hmild₂ := mild_of_leads hm₁ (.single _) hlt₁ hmild₁
      have hm₂ := hm₁.move
      obtain ⟨κ, hκ, hfits, -⟩ := hm₁.sound.order
      cases hκ with
      | dropping =>
        cases b with
        | closed r =>
          refine .of_next ?_ nofun
          exact contained_of_abandon hm₂ hmild₂ hpanicking
        | _ => exact hfits.elim
    | unwinds w₁ u => exact absurd hbefore (contained_of_close hmove hpanicking hclosing w₁ u)
    | yields w₁ scopes captures _ => exact absurd rfl (not_yields hm₁ (fun _ h => by cases h))
  · have hshared : dropHandle w fs g =
        answer (w.modify g fun x => { x with handles := x.handles - 1 }) fs .unit := by
      simp only [dropHandle]
      rw [if_neg]
      intro hboth
      refine hlast ?_
      rw [Bool.and_eq_true, decide_eq_true_eq, Bool.not_eq_true', Bool.eq_false_iff, Ne,
        Status.isFinished_iff] at hboth
      have hlt : g < (w.modify g fun x => { x with handles := x.handles - 1 }).generators.size :=
        World.lt_size_of_status hboth.2
      rw [World.size_modify] at hlt
      rw [World.generator_modify_self hlt] at hboth
      exact hboth
    rw [hshared]
    exact contained_of_answer

end Machine

end Coroutine
