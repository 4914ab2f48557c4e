import Coroutine.Proofs.Finality
import Coroutine.Proofs.Precedence

/-! What becomes of the guards of a generator. Main statement: over every run each guard that its
entry procedure captured or that its producer put on its stack is released exactly once, in order,
when its scope ends or the entry procedure does, but for those on a suspended stack that is given up
while frames are unwound; and no guard is released that anything could still use. -/

namespace Coroutine

variable {C : Type}

/-- The entry procedure of a generator that has ended is being released. -/
theorem Awaits.ended_of_emptied {F : Fates} {κ : Awaited} {fs : List (Frame C)} {g : GeneratorId}
    (h : Awaits F κ fs) (hmark : .emptied g ∈ marks fs) : F.ended g := by
  induction h with
  | emptying _ hended _ ih =>
    rcases List.mem_cons.mp hmark with heq | hmark
    · cases heq
      exact hended
    · exact ih hmark
  | nothing => cases hmark
  | _ => simp_all

namespace Machine

variable {P : Program C} {δ : GeneratorId → Prop} {g : GeneratorId} {captured : Prop}
  {held : HeldGuard C} {m m' m₀ : Machine C} {ms : List (Machine C)} {x : Generator C}

/-! ### Guards that have been released -/

theorem history_of_later (h : Reachable P m) (hm : Later P m m') :
    m.world.history <:+ m'.world.history := by
  induction hm with
  | refl => exact List.suffix_refl _
  | move hk ih => exact ih.trans (history_next P (h.later hk).sound)
  | again s _ _ ih => exact ih

theorem releases_of_later (h : Reachable P m) (hm : Later P m m') (s : Nat) :
    m.world.releases s ≤ m'.world.releases s :=
  (history_of_later h hm).sublist.countP_le

/-- A guard whose release is over has been released. -/
theorem releases_of_disposed (h : Run P (m :: ms)) (hdisposed : Disposed P held (m :: ms)) :
    0 < m.world.releases held.serial := by
  obtain ⟨m₀, hm₀, m₁, hm₁, rest, hcontrol, hback, -, hwithin⟩ := hdisposed
  have hmem {k : Machine C} (hk : k ∈ m :: ms) : Reachable P k ∧ Later P k m := by
    rcases List.mem_cons.mp hk with rfl | hk
    · exact ⟨h.reachable, .refl⟩
    · exact ⟨(h.of_mem hk).1, (h.of_mem hk).2.1⟩
  refine Nat.lt_of_lt_of_le ?_ (releases_of_later (hmem hm₁).1 (hmem hm₁).2 _)
  cases hwithin with
  | refl => simp [hcontrol] at hback
  | move _ _ hwithin =>
    have hlater := history_of_leads (hmem hm₀).1.move hwithin.leads
    refine Nat.lt_of_lt_of_le ?_ hlater.sublist.countP_le
    obtain ⟨w, control, fs⟩ := m₀
    obtain rfl : control = _ := hcontrol
    have hnext : (next P ⟨w, .task (.release (held :: rest)), fs⟩).world =
        w.note (.released held.serial held.guard.name) := world_releaseStep ..
    rw [hnext]
    simp [World.note, Event.releases]

/-- When control is back where a release was begun, the guards have been released. -/
theorem disposed_of_release {guards : List (HeldGuard C)} (h : Run P (m :: ms)) (hm₀ : m₀ ∈ ms)
    (hopen : ¬ m₀.Completed) (hcontrol : (m₀.next P).control = .task (.release guards))
    (hframes : m.frames = (m₀.next P).frames) (hback : ∀ t, m.control ≠ .task t)
    (hheld : held ∈ guards) : Disposed P held (m :: ms) := by
  have hreleasing : Releasing P held (m₀.next P).frames m ms := by
    refine Run.invariant (I := fun m ms => m₀ ∈ ms → Releasing P held (m₀.next P).frames m ms)
      ?_ ?_ ?_ h hm₀
    · intro _ _ hm₀
      cases hm₀
    · intro m ms hrun ih hm₀
      rcases List.mem_cons.mp hm₀ with rfl | hm₀
      · exact .release guards hcontrol rfl hheld
      · exact releasing_next hrun.reachable.sound (ih hm₀)
    · intro m ms s hrun hm ih hm₀
      rcases List.mem_cons.mp hm₀ with rfl | hm₀
      · exact absurd hm hopen
      · cases ih hm₀ with
        | release _ hrelease => exact absurd hrelease hm.control_ne
        | waiting _ _ _ hfs | releasing _ _ _ _ _ _ _ _ hfs => exact absurd hfs hm.not_suffix
        | disposed hdisposed => exact .disposed (hdisposed.cons _)
  have hnone {f : Frame C} : ¬ f :: (m₀.next P).frames <:+ m.frames := by
    rw [hframes]
    exact fun hfs => absurd hfs.length_le (Nat.not_succ_le_self _)
  cases hreleasing with
  | release _ hrelease => exact absurd hrelease (hback _)
  | waiting _ _ _ hfs | releasing _ _ _ _ _ _ _ _ hfs => exact absurd hfs hnone
  | disposed hdisposed => exact hdisposed

/-! ### Generators that have not been started -/

/-- The entry procedure has not begun. -/
structure Dormant (x : Generator C) : Prop where
  status : x.status ≠ .running
  fiber : x.fiber = none
  running : x.running = false
  payloadHeld : x.payloadHeld = false

theorem dormant_of_like {y : Generator C} (hy : y.Like x) (h : Dormant x) : Dormant y :=
  ⟨hy.status ▸ h.status, hy.fiber.trans h.fiber, hy.running.trans h.running,
    hy.payloadHeld.trans h.payloadHeld⟩

theorem Change.entry (h : Change P g m x) (hnone : (m.world.generator g).entry = none) :
    x.entry = none := by
  cases h with
  | kept _ hx | entered _ _ _ hx | parted _ _ _ _ _ hx | left _ _ _ _ _ hx | finished _ _ hx
  | dissolved _ _ _ hx | unstacked _ _ _ hx | unwound _ _ _ hx | released _ _ hx =>
    exact hx.entry.trans hnone
  | starved _ _ _ _ hx | started _ _ _ _ hx | emptied _ _ hx => exact hx.entry

theorem entry_of_leads (h : Reachable P m) (hm : Leads P m m')
    (hg : g < m.world.generators.size) (hnone : (m.world.generator g).entry = none) :
    (m'.world.generator g).entry = none := by
  induction hm with
  | refl => exact hnone
  | @move m m' _ ih =>
    exact ih h.move (Nat.lt_of_lt_of_le hg (size_le_next m)) ((change_next h.sound hg).entry hnone)

/-- A start that fails for want of memory leaves no entry procedure behind. -/
theorem entry_of_starves (h : Reachable P m₀) (hstarves : Starves g m₀)
    (hwithin : Within P m₀.frames m₀ m) (hopen : ∀ a, m.control ≠ .answer a) :
    m = m₀ ∨ (m.world.generator g).entry = none := by
  obtain ⟨w, control, fs⟩ := m₀
  obtain ⟨hcontrol, hmemory⟩ := hstarves
  obtain rfl : control = _ := hcontrol
  have hnext : next P ⟨w, .task (.start g), fs⟩ = start w fs g := rfl
  cases hwithin with
  | refl => exact .inl rfl
  | move _ _ hwithin =>
    rw [hnext] at hwithin
    by_cases hfails : stackSizeInRange (w.generator g).stackSize = false ∨
        (w.generator g).entry = none
    · rw [start_failed fs hfails] at hwithin
      rw [hwithin.eq_answer] at hopen
      exact absurd rfl (hopen _)
    · obtain ⟨hrange, hentry⟩ := not_or.mp hfails
      obtain ⟨entry, hentry⟩ := Option.ne_none_iff_exists'.mp hentry
      have hlt := w.lt_size_of_ne Generator.entry (g := g) (by rw [hentry]; nofun)
      obtain ⟨w', hstart, hb⟩ :=
        start_outOfMemory fs hentry (Bool.eq_true_of_not_eq_false hrange) hmemory hlt
      refine .inr (entry_of_leads h.move hwithin.leads ?_ ?_)
      · exact Nat.lt_of_lt_of_le hlt (size_le_next ⟨w, .task (.start g), fs⟩)
      · rw [hnext, hstart]
        exact congrArg Generator.entry hb.self

/-- So `g` does not begin. -/
theorem Starves.status_next (h : Starves g m) :
    ((m.next P).world.generator g).status = (m.world.generator g).status := by
  obtain ⟨w, control, fs⟩ := m
  obtain ⟨hcontrol, hmemory⟩ := h
  obtain rfl : control = _ := hcontrol
  show ((start w fs g).world.generator g).status = (w.generator g).status
  by_cases hfails : stackSizeInRange (w.generator g).stackSize = false ∨
      (w.generator g).entry = none
  · rw [start_failed fs hfails]
    rfl
  · obtain ⟨hrange, hentry⟩ := not_or.mp hfails
    obtain ⟨entry, hentry⟩ := Option.ne_none_iff_exists'.mp hentry
    have hlt := w.lt_size_of_ne Generator.entry (g := g) (by rw [hentry]; nofun)
    obtain ⟨w', hstart, hb⟩ :=
      start_outOfMemory fs hentry (Bool.eq_true_of_not_eq_false hrange) hmemory hlt
    rw [hstart]
    exact hb.like.status

/-! ### What becomes of guards -/

/-- The guard has come into the hands of `g` with the next move: its entry procedure captured it, or
its producer puts it on its stack. -/
def Acquires (P : Program C) (g : GeneratorId) (held : HeldGuard C) (m : Machine C) : Prop :=
  Captures P g held m ∨ Holds P g held m

/-- What has become of a guard of `g` after these states. Before `g` has begun, it may be that its
entry procedure is being released. -/
inductive Tracked (P : Program C) (g : GeneratorId) (held : HeldGuard C) (m : Machine C)
    (ms : List (Machine C)) : Prop
  | begun : Custody P g False held m ms → ¬ Lost (m.world.generator g) → Tracked P g held m ms
  | dormant : Custody P g True held m ms → Dormant (m.world.generator g) → Tracked P g held m ms
  | disposed : Disposed P held (m :: ms) → Tracked P g held m ms
  | givenUp (m₀ : Machine C) : m₀ ∈ ms → GivesUp g held m₀ → Tracked P g held m ms

theorem Dormant.not_lost (h : Dormant x) : ¬ Lost x :=
  fun hlost => by cases h.payloadHeld.symm.trans hlost.payloadHeld

/-- A stack is lost only where it is given up. -/
theorem Change.lost (h : Change P g m x) (hx : Lost x) : Lost (m.world.generator g) ∨
    m.control = .task (.finalize g) ∧ (m.world.generator g).Parked ∧ panicking m.frames = true := by
  have hlike {y : Generator C} (hy : x.Like y) : Lost y :=
    ⟨hy.status ▸ hx.status, hy.fiber ▸ hx.fiber, hy.running ▸ hx.running,
      hy.payloadHeld ▸ hx.payloadHeld⟩
  cases h with
  | kept _ hy => exact .inl (hlike hy)
  | starved _ hs _ _ hy => cases hs.symm.trans (hlike hy).status
  | started _ _ _ _ hy => cases (hlike hy).status
  | entered _ _ _ hy => cases (hlike hy).running
  | parted _ _ _ _ _ hy | left _ _ _ _ _ hy => cases (hlike hy).fiber
  | finished _ hheld hy => cases (hheld (hlike hy).fiber).symm.trans (hlike hy).payloadHeld
  | dissolved hcontrol hs hgiven hy =>
    rcases hgiven with hheld | ⟨hparked, hpanicking⟩
    · cases hheld.symm.trans (hlike hy).payloadHeld
    · exact .inr ⟨hcontrol, hparked, hpanicking⟩
  | unstacked _ _ _ hy => cases (hlike hy).running
  | unwound _ _ _ hy => cases (hlike hy).payloadHeld
  | emptied _ _ hy | released _ _ hy =>
    have hy := hlike hy
    exact .inl ⟨hy.status, hy.fiber, hy.running, hy.payloadHeld⟩

/-- Control is not inside of `g` while it is finalized, so a guard is with its stack, or its release
is over. -/
theorem Custody.of_finalize (h : Sound δ m) (hheld : Custody P g False held m ms)
    (hcontrol : m.control = .task (.finalize g)) (hparked : (m.world.generator g).Parked)
    (hpanicking : panicking m.frames = true) : GivesUp g held m ∨ Disposed P held (m :: ms) := by
  have hrun : (m.world.generator g).running = false := by
    obtain ⟨w, control, fs⟩ := m
    obtain rfl : control = _ := hcontrol
    have hat : At _ (Coroutine.marks fs) g (w.generator g) := h.shape g
    exact (hat.phase rfl (by decide)).2.2.2.1
  have hfree : ¬ Covers P g False m ms m.frames := by
    rintro (hin | ⟨⟨⟩, -⟩ | ⟨_, ⟨⟩, -⟩)
    cases hrun.symm.trans ((h.running_iff_mem_chain g).mpr hin)
  rcases hheld.of_not_covers hfree with ⟨⟨⟩, -⟩ | hfiber | hdisposed | hlost
  · exact .inl ⟨hcontrol, hpanicking, hfiber⟩
  · exact .inr hdisposed
  · exact absurd hparked (Generator.not_parked_of_fiber hlost.fiber)

/-- A generator stays dormant until it is started. -/
theorem Change.dormant (h : Change P g m x) (hdormant : Dormant (m.world.generator g)) :
    Dormant x ∨ ∃ entry, m.control = .task (.start g) ∧
      (m.world.generator g).status = .unused ∧ (m.world.generator g).entry = some entry ∧
      x.status = .running ∧ x.fiber = some ⟨(m.world.generator g).stackSize, .fresh entry⟩ := by
  cases h with
  | kept _ hx => exact .inl (dormant_of_like hx hdormant)
  | starved _ _ _ _ hx | emptied _ _ hx | released _ _ hx =>
    exact .inl (dormant_of_like hx ⟨hdormant.status, hdormant.fiber, hdormant.running,
      hdormant.payloadHeld⟩)
  | started entry hcontrol hs hentry hx =>
    exact .inr ⟨entry, hcontrol, hs, hentry, hx.status, hx.fiber⟩
  | entered _ _ hs => exact absurd hs hdormant.status
  | parted _ _ _ _ hinside | left _ _ _ hinside =>
    exact absurd hinside.started.status hdormant.status
  | finished _ _ hx =>
    exact .inl (dormant_of_like hx ⟨nofun, hdormant.fiber, hdormant.running, hdormant.payloadHeld⟩)
  | dissolved _ _ _ hx =>
    exact .inl (dormant_of_like hx ⟨hdormant.status, rfl, hdormant.running, hdormant.payloadHeld⟩)
  | unstacked _ _ hparked => exact absurd hparked (Generator.not_parked_of_fiber hdormant.fiber)
  | unwound _ _ hunwound => cases hdormant.running.symm.trans hunwound.running

/-- While its entry procedure has not begun, only its release can be going on. -/
theorem Dormant.not_covers {fs : List (Frame C)} (hdormant : Dormant (m.world.generator g))
    (h : Sound δ m) (hemptied : .emptied g ∉ Coroutine.marks m.frames)
    (hfed : ¬ ∃ m₀ ∈ ms, Starves g m₀ ∧ m₀.frames <:+ m.frames ∧ Within P m₀.frames m₀ m)
    (hfs : fs <:+ m.frames) : ¬ Covers P g captured m ms fs := by
  rintro (hin | ⟨-, hmark⟩ | ⟨m₀, -, hm₀, hstarves, hbelow, hwithin⟩)
  · have hrun := (h.running_iff_mem_chain g).mpr (chain_subset_of_suffix hfs hin)
    cases hdormant.running.symm.trans hrun
  · exact hemptied (marks_subset_of_suffix hfs hmark)
  · exact hfed ⟨m₀, hm₀, hstarves, hbelow.trans hfs, hwithin⟩

/-- The guards of a dormant generator that is started go with its fiber. -/
theorem custody_of_started {entry : Closure C} (hrun : Run P (m :: ms))
    (hheld : Custody P g True held m ms) (hdormant : Dormant (m.world.generator g))
    (hcontrol : m.control = .task (.start g)) (hs : (m.world.generator g).status = .unused)
    (hentry : (m.world.generator g).entry = some entry) {size : Nat}
    (hrunning : ((m.next P).world.generator g).status = .running)
    (hfiber : ((m.next P).world.generator g).fiber = some ⟨size, .fresh entry⟩) :
    Custody P g False held (m.next P) (m :: ms) := by
  have hm := hrun.reachable
  have hemptied : .emptied g ∉ Coroutine.marks m.frames := by
    intro hmark
    obtain ⟨κ, hκ, -⟩ := hm.sound.order
    rcases (hκ.ended_of_emptied hmark).2 with hfinished | habandon
    · cases hs.symm.trans hfinished
    · cases hcontrol.symm.trans habandon
  have hfed : ¬ ∃ m₀ ∈ ms, Starves g m₀ ∧ m₀.frames <:+ m.frames ∧ Within P m₀.frames m₀ m := by
    rintro ⟨m₀, hm₀, hstarves, -, hwithin⟩
    have hopen (a : Answer) : m.control ≠ .answer a := by simp [hcontrol]
    rcases entry_of_starves (hrun.of_mem hm₀).1 hstarves hwithin hopen with rfl | hnone
    · rw [hstarves.status_next] at hrunning
      cases hs.symm.trans hrunning
    · cases hnone.symm.trans hentry
  rcases hheld.of_not_covers (hdormant.not_covers hm.sound hemptied hfed (List.suffix_refl _)) with
    ⟨-, entry', hentry', hheld⟩ | ⟨fiber, f, hsome, -⟩ | hdisposed | hlost
  · cases hentry.symm.trans hentry'
    exact .fiber _ (.closure entry.captures) hfiber (.head _) hheld
  · cases hdormant.fiber.symm.trans hsome
  · exact .disposed (hdisposed.cons _)
  · exact absurd hlost hdormant.not_lost

theorem tracked_next (hrun : Run P (m :: ms)) (hg : g < m.world.generators.size)
    (h : Tracked P g held m ms) : Tracked P g held (m.next P) (m :: ms) := by
  have hsound := hrun.reachable.sound
  have hchange := change_next (P := P) hsound hg
  cases h with
  | begun hheld hlost =>
    by_cases hlost' : Lost ((m.next P).world.generator g)
    · rcases hchange.lost hlost' with hbefore | ⟨hcontrol, hparked, hpanicking⟩
      · exact absurd hbefore hlost
      · rcases hheld.of_finalize hsound hcontrol hparked hpanicking with hgivesUp | hdisposed
        · exact .givenUp m (.head _) hgivesUp
        · exact .disposed (hdisposed.cons _)
    · exact .begun (custody_next hsound hheld) hlost'
  | dormant hheld hdormant =>
    rcases hchange.dormant hdormant with hdormant | ⟨entry, hcontrol, hs, hentry, hrunning, hfiber⟩
    · exact .dormant (custody_next hsound hheld) hdormant
    · refine .begun (custody_of_started hrun hheld hdormant hcontrol hs hentry hrunning hfiber) ?_
      exact fun hlost => by cases hrunning.symm.trans hlost.status
  | disposed hdisposed => exact .disposed (hdisposed.cons _)
  | givenUp m₀ hm₀ hgivesUp => exact .givenUp m₀ (.tail _ hm₀) hgivesUp

theorem tracked_again (hm : m.Completed) (s : Step C) (h : Tracked P g held m ms) :
    Tracked P g held ⟨m.world, .task (.step s), []⟩ (m :: ms) := by
  cases h with
  | begun hheld hlost => exact .begun (custody_again hm s hheld) hlost
  | dormant hheld hdormant => exact .dormant (custody_again hm s hheld) hdormant
  | disposed hdisposed => exact .disposed (hdisposed.cons _)
  | givenUp m₀ hm₀ hgivesUp => exact .givenUp m₀ (.tail _ hm₀) hgivesUp

theorem tracked_of_acquires (hrun : Run P (m :: ms)) (h : Acquires P g held m) :
    g < (m.next P).world.generators.size ∧ Tracked P g held (m.next P) (m :: ms) := by
  rcases h with hcaptures | hholds
  · obtain ⟨d, hmake, hg, -⟩ := id hcaptures
    refine ⟨by simp [size_next_of_makes hmake, hg], .dormant (custody_of_captures hcaptures) ?_⟩
    rw [generator_next_of_makes hmake, ← hg, World.generator_addGenerator_self]
    exact ⟨nofun, rfl, rfl, rfl⟩
  · have hsound := hrun.reachable.sound
    obtain ⟨c, c', guard, hcontrol, -, hproducer, -⟩ := id hholds
    have hrunning : (m.world.generator g).running = true := by
      obtain ⟨scopes, captures, rest, hfs⟩ := producer?_eq_some_iff.mp hproducer
      rw [hsound.running_iff_mem_chain, hfs]
      simp
    have hg := m.world.lt_size_of_running hrunning
    refine ⟨Nat.lt_of_lt_of_le hg (size_le_next m), .begun (custody_of_holds hholds) fun hlost => ?_⟩
    rcases (change_next (P := P) hsound hg).lost hlost with hbefore | ⟨hfinalize, -⟩
    · cases hrunning.symm.trans hbefore.running
    · cases hcontrol.symm.trans hfinalize

theorem Acquires.not_completed (h : Acquires P g held m) : ¬ m.Completed :=
  h.elim Captures.not_completed Holds.not_completed

theorem tracked_of_run (h : Run P (m :: ms)) (hcame : ∃ m₀ ∈ ms, Acquires P g held m₀) :
    g < m.world.generators.size ∧ Tracked P g held m ms := by
  refine Run.invariant (I := fun m ms => (∃ m₀ ∈ ms, Acquires P g held m₀) →
    g < m.world.generators.size ∧ Tracked P g held m ms) ?_ ?_ ?_ h hcame
  · rintro _ _ ⟨_, hm₀, _⟩
    cases hm₀
  · rintro m ms hrun ih ⟨m₀, hm₀, hacquires⟩
    rcases List.mem_cons.mp hm₀ with rfl | hm₀
    · exact tracked_of_acquires hrun hacquires
    · obtain ⟨hg, htracked⟩ := ih ⟨m₀, hm₀, hacquires⟩
      exact ⟨Nat.lt_of_lt_of_le hg (size_le_next m), tracked_next hrun hg htracked⟩
  · rintro m ms s hrun hm ih ⟨m₀, hm₀, hacquires⟩
    rcases List.mem_cons.mp hm₀ with rfl | hm₀
    · exact absurd hm hacquires.not_completed
    · obtain ⟨hg, htracked⟩ := ih ⟨m₀, hm₀, hacquires⟩
      exact ⟨hg, tracked_again hm s htracked⟩

/-- Nothing that `g` owns is in use once nothing is left to be done about it. -/
theorem Gone.not_covers (hgone : Gone g m) (hrun : Run P (m :: ms)) :
    ¬ Covers P g captured m ms m.frames := by
  have hsound := hrun.reachable.sound
  rintro (hin | ⟨-, hmark⟩ | ⟨m₀, -, hm₀, hstarves, hbelow, -⟩)
  · rcases mem_chain_iff.mp hin with hmark | hmark
    · exact hgone.not_mem rfl hmark
    · exact hgone.not_mem rfl hmark
  · exact hgone.not_mem rfl hmark
  · -- the start was made for somebody who holds a handle
    obtain ⟨κ, hκ, hfits⟩ := (hrun.of_mem hm₀).1.sound.order
    rw [hstarves.control] at hfits
    obtain rfl : κ = .progress g := hfits
    rcases hκ.held_of_operand rfl with hheld | hdropped
    · have howned := hsound.owned g
      obtain ⟨above, habove⟩ := hbelow
      rw [hgone.unheld, held, ← habove] at howned
      simp only [heldFrames, List.map_append, List.sum_append] at howned hheld
      omega
    · exact hgone.not_mem rfl (marks_subset_of_suffix hbelow hdropped)

theorem discharged_of_gone (hrun : Run P (m :: ms)) (hgone : Gone g m)
    (hcame : ∃ m₀ ∈ ms, Acquires P g held m₀) :
    Disposed P held (m :: ms) ∨ ∃ m₀ ∈ ms, GivesUp g held m₀ := by
  have hsound := hrun.reachable.sound
  obtain ⟨hidle, -⟩ := (hsound.rest hgone.phase).idle (hgone.not_mem rfl) (hgone.not_mem rfl)
  obtain ⟨hended, hentry, -⟩ := hidle.finished (hgone.status hsound)
  have hdisposed {captured : Prop} (hheld : Custody P g captured held m ms)
      (hlost : ¬ Lost (m.world.generator g)) : Disposed P held (m :: ms) := by
    rcases hheld.of_not_covers (hgone.not_covers hrun) with
      ⟨-, entry, hsome, -⟩ | ⟨fiber, f, hsome, -⟩ | hdisposed | hlost'
    · cases hentry.symm.trans hsome
    · cases hended.fiber.symm.trans hsome
    · exact hdisposed
    · exact absurd hlost' hlost
  cases (tracked_of_run hrun hcame).2 with
  | begun hheld hlost => exact .inl (hdisposed hheld hlost)
  | dormant hheld hdormant => exact .inl (hdisposed hheld hdormant.not_lost)
  | disposed hdisposed => exact .inl hdisposed
  | givenUp m₀ hm₀ hgivesUp => exact .inr ⟨m₀, hm₀, hgivesUp⟩

theorem mem_or_suffix_of_append {f top : Frame C} {fs part below : List (Frame C)}
    (h : f :: fs <:+ part ++ top :: below) :
    f ∈ part ∨ f = top ∧ fs = below ∨ f :: fs <:+ below := by
  induction part with
  | nil =>
    rcases List.suffix_cons_iff.mp h with heq | h
    · cases heq
      exact .inr (.inl ⟨rfl, rfl⟩)
    · exact .inr (.inr h)
  | cons first part ih =>
    rcases List.suffix_cons_iff.mp h with heq | h
    · cases heq
      exact .inl (.head _)
    · exact (ih h).imp_left (List.mem_cons_of_mem _)

/-- While control is inside of the stack of `g` and no operation is going on, a guard is on the
stack, or its release is over. -/
theorem Custody.of_inside (h : Sound δ m) {part below : List (Frame C)} {top : Frame C}
    (hframes : m.frames = part ++ top :: below) (hpart : ∀ f ∈ part, f.IsPart)
    (htop : top.entered? = some g) (hcontrol : ∀ t, m.control ≠ .task t)
    (hheld : Custody P g False held m ms) : held ∈ guardsOn part ∨ Disposed P held (m :: ms) := by
  have hin : g ∈ chain m.frames := by
    rw [hframes, chain, List.filterMap_append, List.mem_append, List.filterMap_cons_some htop]
    exact .inr (.head _)
  have hout : g ∉ chain below := by
    obtain ⟨κ, hκ, -⟩ := h.order
    have hnodup := hκ.chain_nodup
    rw [hframes, chain, List.filterMap_append, List.filterMap_cons_some htop] at hnodup
    exact (List.nodup_cons.mp (List.nodup_append.mp hnodup).2.1).1
  have hrest : Rest (Coroutine.marks m.frames) g (m.world.generator g) := by
    refine h.rest ?_
    cases hphase : m.control.phase? g with
    | none => rfl
    | some phase =>
      obtain ⟨t, ht, -⟩ := Control.task_of_phase? hphase
      exact absurd ht (hcontrol t)
  -- what is below the stack of `g` is not in use for `g`
  have hrelease {name : String} {todo : List (Step C)} {rest : List (HeldGuard C)}
      {fs : List (Frame C)} (hfs : .onRelease name todo rest :: fs <:+ m.frames) :
      ¬ Covers P g False m ms fs := by
    rintro (hmem | ⟨⟨⟩, -⟩ | ⟨_, ⟨⟩, -⟩)
    rw [hframes] at hfs
    rcases mem_or_suffix_of_append hfs with hf | ⟨rfl, rfl⟩ | hfs
    · exact hpart _ hf
    · cases htop
    · exact hout (chain_subset_of_suffix ((List.suffix_cons _ fs).trans hfs) hmem)
  cases hheld with
  | entry _ hcaptured => exact hcaptured.elim
  | fiber fiber f hfiber hf hheld =>
    rcases mem_chain_iff.mp hin with hmark | hmark
    · obtain ⟨size, hentered⟩ := (hrest.inside hmark).1.entered
      cases hentered.symm.trans hfiber
      cases hf
    · cases (hrest.unwound hmark).ended.fiber.symm.trans hfiber
  | stack f fs hfs hheld honStack =>
    rw [hframes] at hfs
    rcases mem_or_suffix_of_append hfs with hf | ⟨rfl, rfl⟩ | hfs
    · exact .inl (List.mem_flatMap.mpr ⟨f, hf, hheld⟩)
    · exact absurd honStack.mem_chain hout
    · refine absurd (chain_subset_of_suffix ((List.suffix_cons f fs).trans hfs) ?_) hout
      exact honStack.mem_chain
  | scope hscope | release _ hscope => exact absurd hscope (hcontrol _)
  | waiting name todo rest fs hfs _ hcovers => exact absurd hcovers (hrelease hfs)
  | releasing m₀ name todo rest _ _ _ hfs hcovers => exact absurd hcovers (hrelease hfs)
  | disposed hdisposed => exact .inr hdisposed
  | lost _ _ hrun => cases hrun.symm.trans ((h.running_iff_mem_chain g).mpr hin)

theorem lost_of_later (h : Reachable P m) (hm : Later P m m')
    (hlost : Lost (m.world.generator g)) : Lost (m'.world.generator g) := by
  induction hm with
  | refl => exact hlost
  | move hk ih => exact lost_next (h.later hk).sound ih
  | again s _ _ ih => exact ih

/-- A generator whose stack was given up is lost for good. -/
theorem lost_of_givesUp (hrun : Run P (m :: ms)) (hm₀ : m₀ ∈ ms) (hgivesUp : GivesUp g held m₀) :
    Lost (m.world.generator g) := by
  obtain ⟨hreach, -, hlater⟩ := hrun.of_mem hm₀
  have hnone := copies_of_givesUp (P := P) hreach hgivesUp
  have hnot : ¬ Has held (m₀.next P) := by
    intro hhas
    have := copies_of_has hhas
    omega
  have hlost : Lost ((m₀.next P).world.generator g) := by
    obtain ⟨-, -, fiber, f, hfiber, hf, hheld⟩ := hgivesUp
    cases fiberNext_of_fiber (P := P) hreach.sound hfiber (List.ne_nil_of_mem hf) with
    | stays hstays => exact absurd (.fiber g fiber f hstays hf hheld) hnot
    | stacked scopes captures rest hframes hnext honStack =>
      rw [hframes] at hf
      obtain ⟨below, hbelow, -⟩ := exists_onStack hf honStack
      exact absurd (.stack f (hnext ▸ hbelow.subset (.head _)) hheld) hnot
    | givenUp _ _ hlost => exact hlost
  exact lost_of_later hreach.move (hlater hgivesUp.not_completed) hlost

theorem discharged_of_inside (hrun : Run P (m :: ms)) {part below : List (Frame C)} {top : Frame C}
    (hframes : m.frames = part ++ top :: below) (hpart : ∀ f ∈ part, f.IsPart)
    (htop : top.entered? = some g) (hcontrol : ∀ t, m.control ≠ .task t)
    (hcame : ∃ m₀ ∈ ms, Acquires P g held m₀) :
    held ∈ guardsOn part ∨ Disposed P held (m :: ms) := by
  have hsound := hrun.reachable.sound
  have hrunning : (m.world.generator g).running = true := by
    rw [hsound.running_iff_mem_chain, hframes, chain, List.filterMap_append, List.mem_append,
      List.filterMap_cons_some htop]
    exact .inr (.head _)
  cases (tracked_of_run hrun hcame).2 with
  | begun hheld _ => exact hheld.of_inside hsound hframes hpart htop hcontrol
  | dormant _ hdormant => cases hdormant.running.symm.trans hrunning
  | disposed hdisposed => exact .inr hdisposed
  | givenUp m₀ hm₀ hgivesUp =>
    cases (lost_of_givesUp hrun hm₀ hgivesUp).running.symm.trans hrunning

/-- How the guards are released that `g` comes to own. The run has come to `m`, and made the moves
from `ms` before. -/
structure Discharged (P : Program C) (g : GeneratorId) (m : Machine C) (ms : List (Machine C)) :
    Prop where
  /-- No guard is released twice. -/
  once : ∀ s, m.world.releases s ≤ 1
  /-- A guard that has been released is not with a generator any more, nor on a stack. -/
  useless : ∀ held, 0 < m.world.releases held.serial → ¬ Has held m
  /-- When the last handle has been dropped, a guard has been released exactly once, and its release
  logic is over, unless its stack was given up. -/
  gone : Gone g m → ∀ held, (∃ m₀ ∈ ms, Acquires P g held m₀) →
    m.world.releases held.serial = 1 ∧ Disposed P held (m :: ms) ∨ ∃ m₀ ∈ ms, GivesUp g held m₀
  /-- A guard that was given up with its stack is never released. -/
  givenUp : ∀ held, (∃ m₀ ∈ ms, GivesUp g held m₀) → m.world.releases held.serial = 0
  /-- While the code of the producer runs, the guards are released whose scopes are over. -/
  scope : ∀ c, m.control = .code c → producer? m.frames = some g →
    ∃ scopes captures rest, m.frames = stackFiber scopes captures (.driving g :: rest) ∧
      ∀ held, (∃ m₀ ∈ ms, Acquires P g held m₀) →
        held ∈ guardsOn (scopes.map .scope ++ [.closure captures]) ∨ Disposed P held (m :: ms)
  /-- When control leaves the stack, because the entry procedure is over or by force, all of them
  are. -/
  left : ∀ f rest, m.frames = f :: rest → f.entered? = some g → (∀ t, m.control ≠ .task t) →
    ∀ held, (∃ m₀ ∈ ms, Acquires P g held m₀) → Disposed P held (m :: ms)
  /-- When an entry procedure that never ran is released, because `g` has ended or because there is no
  memory, and control is back, all that it captured has been released. -/
  dropped : ∀ m₀ ∈ ms, ∀ entry, (m₀.world.generator g).entry = some entry →
    (m₀.next P).control = .task (.release entry.captures) → m.frames = (m₀.next P).frames →
    (∀ t, m.control ≠ .task t) → ∀ held ∈ entry.captures, Disposed P held (m :: ms)
  /-- A guard is released after those that were ever in front of it. -/
  order : ∀ x y rest, m.control = .task (.release (y :: rest)) →
    (∃ m₀ ∈ ms, Precedes g x y m₀) → Disposed P x (m :: ms)

/-- Over every run guards are released exactly once, and in order. -/
theorem discharged_of_run (h : Run P (m :: ms)) : Discharged P g m ms := by
  have hm := h.reachable
  have hle (s : Nat) : m.world.releases s ≤ 1 := by
    have := copies_le_one hm s
    simp only [copies, World.copies] at this
    omega
  constructor
  case once => exact hle
  case useless => exact fun held hpos => not_has hm (Nat.lt_of_lt_of_le hpos (Nat.le_add_right _ _))
  case gone =>
    intro hgone held hcame
    rcases discharged_of_gone h hgone hcame with hdisposed | hgivesUp
    · exact .inl ⟨Nat.le_antisymm (hle _) (releases_of_disposed h hdisposed), hdisposed⟩
    · exact .inr hgivesUp
  case givenUp =>
    rintro held ⟨m₀, hm₀, hgivesUp⟩
    have := copies_of_run h hm₀ hgivesUp
    simp only [copies, World.copies] at this
    omega
  case scope =>
    intro c hcontrol hproducer
    obtain ⟨scopes, captures, rest, hframes⟩ := producer?_eq_some_iff.mp hproducer
    refine ⟨scopes, captures, rest, hframes, fun held hcame => ?_⟩
    have hparts : m.frames = (scopes.map .scope ++ [.closure captures]) ++ .driving g :: rest := by
      simpa [stackFiber] using hframes
    exact discharged_of_inside h hparts (fun f hf => isPart_of_mem hf) rfl (by simp [hcontrol]) hcame
  case left =>
    intro f rest hframes hf hcontrol held hcame
    have hparts : m.frames = [] ++ f :: rest := hframes
    rcases discharged_of_inside h hparts (List.forall_mem_nil _) hf hcontrol hcame with ⟨⟨⟩⟩ | hdisposed
    exact hdisposed
  case dropped =>
    intro m₀ hm₀ entry _ hcontrol hframes hback held hheld
    refine disposed_of_release h hm₀ (fun hcompleted => ?_) hcontrol hframes hback hheld
    rw [hcompleted.next_eq] at hcontrol
    exact hcompleted.control_ne hcontrol
  case order => exact fun x y rest hcontrol hbefore => disposed_of_precedes h hbefore hcontrol

/-- When the handle of a producer that has returned is dropped, the guard on its stack and the one
that it captured have been released once. -/
theorem discharged_of_guarding : ∃ (m : Machine Bool) (ms : List (Machine Bool)),
    Run guarding (m :: ms) ∧ Discharged guarding 0 m ms ∧ Gone 0 m ∧
      (∃ m₀ ∈ ms, Captures guarding 0 ⟨0, ⟨"captured", []⟩⟩ m₀) ∧
      (∃ m₀ ∈ ms, Holds guarding 0 ⟨1, ⟨"held", []⟩⟩ m₀) ∧
      m.world.releases 0 = 1 ∧ m.world.releases 1 = 1 := by
  have hresume := run_soon guarding ⟨"captured", []⟩ true (.resume "g" none) 25
  have hdrop := (hresume.again (.drop "g") ⟨rfl, .inl ⟨_, rfl⟩⟩).trail 3
  refine ⟨_, _, hdrop, discharged_of_run hdrop, ⟨by decide, rfl, nofun, rfl, nofun⟩, ?_, ?_, rfl, rfl⟩
  · exact ⟨_, List.mem_of_getElem? (i := 30) rfl, _, rfl, rfl, .head _⟩
  · exact ⟨_, List.mem_of_getElem? (i := 24) rfl, _, _, _, rfl, rfl, rfl, rfl⟩

end Machine

end Coroutine
