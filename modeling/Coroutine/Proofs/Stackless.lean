import Coroutine.Proofs.Dropping

/-! Generators that no stack can be allocated for. Main statements: their producers never run, however
often they are resumed; and when an exception is thrown into one that has not ended, when it is closed or
when its last handle is dropped, it is finalized as any other one is. -/

namespace Coroutine

variable {C : Type}

/-- No stack can be allocated for the generator, which is configured with a size that stacks cannot
have. -/
def Generator.Stackless (x : Generator C) : Prop :=
  x.stackSize < minStackSize ∨ maxStackSize < x.stackSize

theorem Generator.stackless_iff {x : Generator C} :
    x.Stackless ↔ stackSizeInRange x.stackSize = false := by
  simp only [Stackless, stackSizeInRange, Bool.and_eq_false_iff, decide_eq_false_iff_not, Nat.not_le]

namespace Machine

variable {P : Program C} {δ : GeneratorId → Prop} {g : GeneratorId} {w : World C}
  {fs : List (Frame C)} {t : Task C} {a : Answer} {m m' : Machine C} {ms : List (Machine C)}
  {x : Generator C} {entry : Closure C} {held : HeldGuard C}

/-! ### Producers that never run -/

theorem dormant_vacant : Dormant (.vacant : Generator C) := ⟨nofun, rfl, rfl, rfl⟩

theorem dormant_ofDefinition (d : Definition C) (captures : List (HeldGuard C)) :
    Dormant (.ofDefinition d captures) := ⟨nofun, rfl, rfl, rfl⟩

/-- No move starts such a generator. -/
theorem Change.dormant_of_stackless (h : Change P g m ((m.next P).world.generator g))
    (hstackless : (m.world.generator g).Stackless) (hdormant : Dormant (m.world.generator g)) :
    Dormant ((m.next P).world.generator g) := by
  rcases h.dormant hdormant with hdormant | ⟨entry, hcontrol, hs, -, hrunning, -⟩
  · exact hdormant
  · obtain ⟨w, control, fs⟩ := m
    obtain rfl : control = _ := hcontrol
    have hfails : next P ⟨w, .task (.start g), fs⟩ = _ :=
      start_failed fs (.inl (Generator.stackless_iff.mp hstackless))
    rw [hfails] at hrunning
    cases hs.symm.trans hrunning

/-- It is dormant for good. -/
theorem dormant_of_stackless (h : Reachable P m) (hstackless : (m.world.generator g).Stackless) :
    Dormant (m.world.generator g) := by
  induction h with
  | start => exact dormant_vacant
  | @move m hm ih =>
    by_cases hg : g < m.world.generators.size
    · have hchange : Change P g m ((m.next P).world.generator g) := change_next hm.sound hg
      have hbefore : (m.world.generator g).Stackless := by
        rw [Generator.Stackless, ← hchange.fixed.2]
        exact hstackless
      exact hchange.dormant_of_stackless hbefore (ih hbefore)
    by_cases hg' : g < (m.next P).world.generators.size
    · obtain ⟨d, -, -, hnew⟩ := exists_made (Nat.le_of_not_lt hg) hg'
      rw [hnew]
      exact dormant_ofDefinition ..
    · rw [World.generator_of_le (Nat.le_of_not_lt hg')]
      exact dormant_vacant
  | again _ _ _ ih => exact ih hstackless

theorem stackless_of_later (h : Reachable P m) (hm : Later P m m')
    (hg : g < m.world.generators.size) (hstackless : (m.world.generator g).Stackless) :
    (m'.world.generator g).Stackless := by
  rw [Generator.Stackless, (fixed_of_later h hm hg).2.2]
  exact hstackless

/-- It has been dormant all along. -/
theorem dormant_of_run (h : Run P (m :: ms)) (hstackless : (m.world.generator g).Stackless) :
    ∀ k ∈ m :: ms, Dormant (k.world.generator g) := by
  intro k hk
  rcases List.mem_cons.mp hk with rfl | hk
  · exact dormant_of_stackless h.reachable hstackless
  obtain ⟨hreachable, hlater, -⟩ := h.of_mem hk
  by_cases hg : g < k.world.generators.size
  · refine dormant_of_stackless hreachable ?_
    rw [Generator.Stackless, ← (fixed_of_later hreachable hlater hg).2.2]
    exact hstackless
  · rw [World.generator_of_le (Nat.le_of_not_lt hg)]
    exact dormant_vacant

/-- Control is not inside of a generator that is dormant, -/
theorem Dormant.not_mem_chain (hdormant : Dormant (m.world.generator g)) (h : Sound δ m) :
    g ∉ chain m.frames := by
  intro hin
  cases hdormant.running.symm.trans ((h.running_iff_mem_chain g).mpr hin)

/-- so nothing is added to its payload. -/
theorem Dormant.contributes (hdormant : Dormant (m.world.generator g)) (h : Sound δ m)
    (hg : g < m.world.generators.size) : m.contributes P g = [] := by
  unfold Machine.contributes
  split
  · exact if_neg (Nat.ne_of_gt hg)
  · next k v _ happend =>
    refine if_neg ?_
    rintro rfl
    obtain ⟨c, hproducer, -⟩ := next_of_appends happend
    exact hdormant.not_mem_chain h (Tops.of_producer hproducer).mem_chain
  · rfl

/-- Its payload stays what it is while the run goes on. -/
theorem exists_run_of_stackless (h : Run P (m :: ms)) (hlater : Later P m m')
    (hg : g < m.world.generators.size) (hstackless : (m.world.generator g).Stackless) :
    ∃ ks, Run P (m' :: ks) ∧ m :: ms <:+ m' :: ks ∧ payloadOf P g ks = payloadOf P g ms := by
  have hadds {k : Machine C} (hk : Later P m k) : k.contributes P g = [] := by
    have hreachable := h.reachable.later hk
    exact (dormant_of_stackless hreachable
      (stackless_of_later h.reachable hk hg hstackless)).contributes hreachable.sound
        (fixed_of_later h.reachable hk hg).1
  induction hlater with
  | refl => exact ⟨ms, h, List.suffix_refl _, rfl⟩
  | move hlater ih =>
    obtain ⟨ks, hrun, hsuffix, hpayload⟩ := ih
    refine ⟨_, hrun.move, hsuffix.trans (List.suffix_cons _ _), ?_⟩
    rw [payloadOf, hadds hlater, List.append_nil, hpayload]
  | again s hlater hcompleted ih =>
    obtain ⟨ks, hrun, hsuffix, hpayload⟩ := ih
    refine ⟨_, hrun.again s hcompleted, hsuffix.trans (List.suffix_cons _ _), ?_⟩
    rw [payloadOf, hadds hlater, List.append_nil, hpayload]

/-! ### Cleanups -/

/-- A cleanup that is gone has been taken. -/
theorem Change.finalizes (h : Change P g m x) (hsome : (m.world.generator g).cleanup.isSome)
    (hnone : x.cleanup = none) : Finalizes g m := by
  have hkept (hsame : x.cleanup = (m.world.generator g).cleanup) : Finalizes g m := by
    simp [← hsame, hnone] at hsome
  cases h with
  | released hcontrol => exact ⟨hcontrol, hsome⟩
  | kept _ hx | starved _ _ _ _ hx | started _ _ _ _ hx | entered _ _ _ hx | parted _ _ _ _ _ hx
  | left _ _ _ _ _ hx | finished _ _ hx | dissolved _ _ _ hx | unstacked _ _ _ hx
  | unwound _ _ _ hx | emptied _ _ hx => exact hkept hx.cleanup

theorem exists_finalizes (h : Reachable P m) (hm : Leads P m m') (hg : g < m.world.generators.size)
    (hsome : (m.world.generator g).cleanup.isSome) (hnone : (m'.world.generator g).cleanup = none) :
    ∃ m₁, Leads P m m₁ ∧ Leads P (m₁.next P) m' ∧ Finalizes g m₁ := by
  induction hm with
  | refl =>
    rw [hnone] at hsome
    cases hsome
  | @move m m' hm ih =>
    cases hnext : ((m.next P).world.generator g).cleanup with
    | none => exact ⟨m, .refl m, hm, (change_next h.sound hg).finalizes hsome hnext⟩
    | some cleanup =>
      obtain ⟨m₁, hto, hon, hfinalizes⟩ :=
        ih h.move (Nat.lt_of_lt_of_le hg (size_le_next m)) (Option.isSome_of_eq_some hnext) hnone
      exact ⟨m₁, .move hto, hon, hfinalizes⟩

/-- The cleanup of `g` is called between the two states, once and for all and with its payload. -/
structure CleansUp (P : Program C) (g : GeneratorId) (m : Machine C) (ms : List (Machine C))
    (m' : Machine C) : Prop where
  once : ∃ m₁, Leads P m m₁ ∧ Leads P (m₁.next P) m' ∧ Calls g m₁ ∧
    ∀ m₂, Later P m m₂ → Finalizes g m₂ → m₂ = m₁
  called : (m.world.generator g).plain = false → ∀ m₂, Later P m' m₂ →
    m₂.world.cleanups g = [payloadOf P g ms]

/-- A stackless generator that has lost its cleanup has been cleaned up. -/
theorem cleansUp_of_stackless (h : Run P (m :: ms)) (hm : Leads P m m')
    (hg : g < m.world.generators.size) (hstackless : (m.world.generator g).Stackless)
    (hsome : (m.world.generator g).cleanup.isSome) (hnone : (m'.world.generator g).cleanup = none) :
    CleansUp P g m ms m' := by
  obtain ⟨m₁, hto, hon, hfinalizes⟩ := exists_finalizes h.reachable hm hg hsome hnone
  have hlater : Later P m m₁ := .of_leads hto
  obtain ⟨ks, hrun, -, hpayload⟩ := exists_run_of_stackless h hlater hg hstackless
  have hdormant := dormant_of_stackless hrun.reachable
    (stackless_of_later h.reachable hlater hg hstackless)
  have hcalls : Calls g m₁ := ⟨hfinalizes, hdormant.payloadHeld⟩
  refine ⟨⟨m₁, hto, hon, hcalls, fun m₂ => hfinalizes.unique h.reachable hto⟩, ?_⟩
  intro hplain m₂ hm₂
  have hplain₁ := (plain_of_later h.reachable hlater hg).2.trans hplain
  rw [cleanups_of_calls hrun hcalls hplain₁ ((Later.of_leads hon).trans hm₂), hpayload]

/-! ### Entry procedures that never ran -/

/-- What an entry procedure captured that never ran is released once when its generator is
finalized. -/
theorem releases_of_finalize (h : Run P (⟨w, .task (.finalize g), fs⟩ :: ms))
    (hfiber : (w.generator g).fiber = none) (hentry : (w.generator g).entry = some entry)
    (hto : Within P fs ⟨w, .task (.finalize g), fs⟩ m')
    (hover : Over ⟨w, .task (.finalize g), fs⟩ m') (hheld : held ∈ entry.captures)
    {m₂ : Machine C} (hm₂ : Later P m' m₂) : m₂.world.releases held.serial = 1 := by
  have hlt : g < w.generators.size := w.lt_size_of_ne Generator.entry (by rw [hentry]; nofun)
  have hfinalize : next P ⟨w, .task (.finalize g), fs⟩ = ⟨w, .task (.releaseEntry g), fs⟩ :=
    finalize_of_none fs hfiber
  obtain ⟨w₁, hrelease, -⟩ := releaseEntry_some fs hentry hlt
  have hbegun : Run P (⟨w, .task (.releaseEntry g), fs⟩ :: _) := hfinalize ▸ h.move
  have hnext : next P ⟨w, .task (.releaseEntry g), fs⟩ =
    ⟨w₁, .task (.release entry.captures), .emptying g :: fs⟩ := hrelease
  have hreleasing : Reachable P ⟨w₁, .task (.release entry.captures), .emptying g :: fs⟩ :=
    hnext ▸ hbegun.reachable.move
  have hto : Within P fs ⟨w₁, .task (.release entry.captures), .emptying g :: fs⟩ m' :=
    (hto.of_task_over hover hfinalize).of_task_over (hover.of_frames rfl) hrelease
  -- when the release is over, each of them has been released
  obtain ⟨m₁, hbefore, hover₁, hafter⟩ :=
    exists_over hreleasing id (fun _ h => by cases h) rfl hto hover.frames
  obtain ⟨ks, hrun, hmem⟩ := hbegun.after (hnext ▸ Later.of_leads hbefore.leads)
  have hdisposed := (discharged_of_run (g := g) hrun).dropped _ hmem entry hentry
    (congrArg Machine.control hnext) (hover₁.frames.trans (congrArg Machine.frames hnext).symm)
    (fun t ht => by cases hover₁ <;> cases ht) held hheld
  have hlater : Later P m₁ m₂ := (Later.of_leads (.move hafter.leads)).trans hm₂
  obtain ⟨ks₂, hrun₂, -⟩ := hrun.later hlater
  exact Nat.le_antisymm ((discharged_of_run (g := g) hrun₂).once _)
    (Nat.le_trans (releases_of_disposed hrun hdisposed) (releases_of_later hrun.reachable hlater _))

/-! ### Finalizations -/

/-- The task finalizes `g`, which looks like `x` and has not been started, and then comes back with the
answer. -/
inductive Dismisses (g : GeneratorId) (x : Generator C) : Task C → Answer → Prop
  | throw (e : Exception) : Dismisses g x (.throw g e) (.progress (.error (.raised e)))
  | close : Dismisses g x (.close g) (.closed (.ok ()))
  | drop : x.handles = 1 → Dismisses g x (.dropHandle g) .unit

/-- What was begun in `m` on top of `fs` has finalized `g`, and is over in `m'`: with this answer, or
with the panic at the end of the cleanup. -/
structure Dismissed (P : Program C) (g : GeneratorId) (a : Answer) (fs : List (Frame C))
    (m : Machine C) (ms : List (Machine C)) (m' : Machine C) : Prop where
  finalized : Finalized (m.world.generator g) a fs m'
  spent : (m'.world.generator g).Spent
  /-- What its entry procedure captured has been released once, -/
  released : ∀ entry, (m.world.generator g).entry = some entry → ∀ held ∈ entry.captures,
    ∀ m₂, Later P m' m₂ → m₂.world.releases held.serial = 1
  /-- and its cleanup has been called once. -/
  cleansUp : CleansUp P g m ms m'

theorem Dismisses.idle {b : Answer} (h : Dismisses g x t b) (hm : Reachable P ⟨w, .task t, fs⟩)
    (hstackless : (w.generator g).Stackless) : (w.generator g).Idle := by
  have hrest : Rest (Coroutine.marks fs) g (w.generator g) := hm.sound.rest (by cases h <;> rfl)
  exact (hrest.idle_of_not_running (dormant_of_stackless hm hstackless).running).2.2

/-- What is asked for finishes the generator, and the answer is kept while it is finalized. -/
theorem Dismisses.next (h : Dismisses g x t a) (ht : t.asks? = some g) (fs : List (Frame C))
    (hrun : (w.generator g).running = false) (hs : (w.generator g).status = .unused) :
    ∃ w₁, next P ⟨w, .task t, fs⟩ = ⟨w₁, .task (.finalize g), .keeping a :: fs⟩ ∧
      w.Becomes g { w.generator g with status := .finished } w₁ := by
  have hnot : (w.generator g).status ≠ .running := by rw [hs]; nofun
  have hlt : g < w.generators.size := w.lt_size_of_status (by rw [hs]; nofun)
  cases h with
  | throw e => exact throwInto_not_running fs hrun hnot hlt e
  | close => exact close_unused fs hrun hs hlt
  | drop => cases ht

theorem dismissed_of_asks (hrun : Run P (⟨w, .task t, fs⟩ :: ms))
    (hstackless : (w.generator g).Stackless) (hs : (w.generator g).status = .unused)
    (h : Dismisses g (w.generator g) t a) (ht : t.asks? = some g)
    (hto : Within P fs ⟨w, .task t, fs⟩ m') (hover : Over ⟨w, .task t, fs⟩ m') :
    Dismissed P g a fs ⟨w, .task t, fs⟩ ms m' := by
  have hm := hrun.reachable
  have hidle := h.idle hm hstackless
  obtain ⟨hfiber, -, -, hcleanup⟩ := hidle.unused hs
  have hlt : g < w.generators.size := w.lt_size_of_status (by rw [hs]; nofun)
  obtain ⟨w₁, hnext, hb⟩ := h.next (P := P) ht fs hidle.running hs
  have hrun₁ := hrun.move
  have hto₁ := hto.of_task_over hover hnext
  rw [hnext] at hrun₁
  have hm₁ := hrun₁.reachable
  obtain ⟨hfinalized, hspent, -⟩ :=
    finalized_of_keeping hm₁ (hb.size ▸ hlt) hto₁ hover.frames
  refine ⟨?_, hspent, ?_, cleansUp_of_stackless hrun hto.leads hlt hstackless hcleanup hspent.cleanup⟩
  · rw [hb.self] at hfinalized
    cases hfinalized with
    | answered w₂ => exact .answered w₂
    | panicked w₂ hpanics => exact .panicked w₂ hpanics
  · intro entry hentry held hheld m₂ hm₂
    obtain ⟨m₃, hbefore, hover₃, hafter⟩ :=
      exists_over hm₁ id (fun _ h => by cases h) rfl hto₁ hover.frames
    exact releases_of_finalize hrun₁ (by rw [hb.self]; exact hfiber)
      (by rw [hb.self]; exact hentry) hbefore hover₃ hheld
      ((Later.of_leads (.move hafter.leads)).trans hm₂)

/-- With its last handle such a generator is closed. -/
theorem dismissed_of_last (hrun : Run P (⟨w, .task (.dropHandle g), fs⟩ :: ms))
    (hstackless : (w.generator g).Stackless) (hs : (w.generator g).status = .unused)
    (hlast : (w.generator g).handles = 1) (hto : Within P fs ⟨w, .task (.dropHandle g), fs⟩ m')
    (hover : Over ⟨w, .task (.dropHandle g), fs⟩ m') :
    Dismissed P g .unit fs ⟨w, .task (.dropHandle g), fs⟩ ms m' := by
  have hm := hrun.reachable
  have hidle := (Dismisses.drop (g := g) hlast).idle hm hstackless
  have hopen : (w.generator g).status ≠ .finished := by rw [hs]; nofun
  have hlt : g < w.generators.size := w.lt_size_of_status hopen
  obtain ⟨w₁, hclose, hb⟩ := next_of_last (P := P) fs hlast hopen
  have hrun₁ := hrun.move
  rw [hclose] at hrun₁
  obtain ⟨m₂, hbefore, hover₂, hafter⟩ := exists_over hrun₁.reachable id (fun _ h => by cases h) rfl
    (hto.of_task_over hover hclose) hover.frames
  have hclosed := dismissed_of_asks hrun₁ (by rw [hb.self]; exact hstackless)
    (by rw [hb.self]; exact hs) .close rfl hbefore hover₂
  have hm₂ := hrun₁.reachable.leads hbefore.leads
  have hlater₂ : Later P m₂ m' := .of_leads (.move hafter.leads)
  have hlt₂ := (fixed_of_later hrun₁.reachable (.of_leads hbefore.leads) (hb.size ▸ hlt)).1
  have hspent := (spent_of_later hm₂ hlater₂ hlt₂ hclosed.spent).1
  refine ⟨?_, hspent, ?_, cleansUp_of_stackless hrun hto.leads hlt hstackless
    (hidle.unused hs).2.2.2 hspent.cleanup⟩
  · have hfinalized := hclosed.finalized
    have hfinished := hclosed.spent
    rw [hb.self] at hfinalized
    cases hfinalized with
    | answered w₂ =>
      have hafter : Within P fs ⟨w₂, .task (.abandon g), fs⟩ m' := hafter
      have hback := hafter.of_task_over (hover.of_frames rfl)
        (abandon_of_finished fs hfinished.status)
      rw [hback.eq_answer]
      exact .answered w₂
    | panicked w₂ hpanics =>
      have hafter : Within P fs ⟨w₂, .task (.abandon g), .unwinding _ :: fs⟩ m' := hafter
      obtain ⟨⟨w₃, rfl⟩, -⟩ :=
        unwind_of_abandon hm₂.move hlt₂ (fun _ => hfinished) hafter (hover.of_frames rfl)
      exact .panicked w₃ hpanics
  · intro entry hentry held hheld m₃ hm₃
    exact hclosed.released entry (by rw [hb.self]; exact hentry) held hheld m₃ (hlater₂.trans hm₃)

/-- What dismisses a generator that was never started finalizes it. -/
theorem dismissed_of_dismisses (hrun : Run P (⟨w, .task t, fs⟩ :: ms))
    (hstackless : (w.generator g).Stackless) (hs : (w.generator g).status = .unused)
    (h : Dismisses g (w.generator g) t a) (hto : Within P fs ⟨w, .task t, fs⟩ m')
    (hover : Over ⟨w, .task t, fs⟩ m') : Dismissed P g a fs ⟨w, .task t, fs⟩ ms m' := by
  cases h with
  | throw e => exact dismissed_of_asks hrun hstackless hs (.throw e) rfl hto hover
  | close => exact dismissed_of_asks hrun hstackless hs .close rfl hto hover
  | drop hlast => exact dismissed_of_last hrun hstackless hs hlast hto hover

/-- It comes back if what is released meanwhile does. -/
theorem exists_dismissed (hm : Reachable P ⟨w, .task t, fs⟩)
    (hstackless : (w.generator g).Stackless) (hs : (w.generator g).status = .unused)
    (h : Dismisses g (w.generator g) t a) (hsettles : Settles P g ⟨w, .task t, fs⟩) :
    ∃ w', Within P fs ⟨w, .task t, fs⟩ ⟨w', .answer a, fs⟩ := by
  have hasks {w : World C} {fs : List (Frame C)} {t : Task C} {a : Answer}
      (hm : Reachable P ⟨w, .task t, fs⟩) (hstackless : (w.generator g).Stackless)
      (hs : (w.generator g).status = .unused) (h : Dismisses g (w.generator g) t a)
      (ht : t.asks? = some g) (hsettles : Settles P g ⟨w, .task t, fs⟩) :
      ∃ w', Within P fs ⟨w, .task t, fs⟩ ⟨w', .answer a, fs⟩ := by
    have hidle := h.idle hm hstackless
    obtain ⟨w₁, hnext, hb⟩ := h.next (P := P) ht fs hidle.running hs
    have hto : Within P fs ⟨w, .task t, fs⟩ ⟨w₁, .task (.finalize g), .keeping a :: fs⟩ :=
      .of_task (List.suffix_refl fs) hnext (.refl _)
    obtain ⟨w₂, hreleased⟩ := within_released
      (.inl (by rw [hb.self]; exact (hidle.unused hs).1)) (hsettles.leads hto.leads)
    exact ⟨w₂, hto.trans (hreleased.under.trans
      (.move (List.suffix_cons _ fs) (fun _ _ => List.cons_ne_self _ _) (.refl _)))⟩
  cases h with
  | throw e => exact hasks hm hstackless hs (.throw e) rfl hsettles
  | close => exact hasks hm hstackless hs .close rfl hsettles
  | drop hlast =>
    obtain ⟨w₁, hclose, hb⟩ := next_of_last (P := P) fs hlast (by rw [hs]; nofun)
    have hto : Within P fs ⟨w, .task (.dropHandle g), fs⟩
        ⟨w₁, .task (.close g), .dropping g :: fs⟩ :=
      .of_task (List.suffix_refl fs) hclose (.refl _)
    have hm₁ := hm.leads hto.leads
    have hstackless₁ : (w₁.generator g).Stackless := by rw [hb.self]; exact hstackless
    have hs₁ : (w₁.generator g).status = .unused := by rw [hb.self]; exact hs
    obtain ⟨w₂, hback⟩ := hasks hm₁ hstackless₁ hs₁ .close rfl (hsettles.leads hto.leads)
    obtain ⟨ms, hrun⟩ := reachable_iff_run.mp hm₁
    have hspent := (dismissed_of_asks hrun hstackless₁ hs₁ .close rfl hback (.answered ..)).spent
    exact ⟨w₂, hto.trans (hback.under.trans (within_warned fs (.ok ()) hspent.status))⟩

end Machine

end Coroutine
