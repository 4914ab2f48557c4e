import Coroutine.Proofs.Booking

/-! What a move can do to a generator, apart from its payload, its handles and its slots. Main
statement: the twelve kinds of changes, each with the state of the machine that it is made in. -/

namespace Coroutine

variable {C : Type}

/-- The generator but for its payload, its handles and its slots. -/
def Generator.core (x : Generator C) : Generator C :=
  { x with payload := none, handles := 0, value := none, error := none, outcome := none }

namespace Generator

/-- The two differ in their payloads, their handles and their slots only. -/
def Like (x y : Generator C) : Prop := x.core = y.core

variable {x y : Generator C}

theorem Like.status (h : x.Like y) : x.status = y.status := by
  have h : x.core.status = y.core.status := congrArg _ h
  exact h

theorem Like.running (h : x.Like y) : x.running = y.running := by
  have h : x.core.running = y.core.running := congrArg _ h
  exact h

theorem Like.payloadHeld (h : x.Like y) : x.payloadHeld = y.payloadHeld := by
  have h : x.core.payloadHeld = y.core.payloadHeld := congrArg _ h
  exact h

theorem Like.entry (h : x.Like y) : x.entry = y.entry := by
  have h : x.core.entry = y.core.entry := congrArg _ h
  exact h

theorem Like.name (h : x.Like y) : x.name = y.name := by
  have h : x.core.name = y.core.name := congrArg _ h
  exact h

theorem Like.stackSize (h : x.Like y) : x.stackSize = y.stackSize := by
  have h : x.core.stackSize = y.core.stackSize := congrArg _ h
  exact h

theorem Like.fiber (h : x.Like y) : x.fiber = y.fiber := by
  have h : x.core.fiber = y.core.fiber := congrArg _ h
  exact h

theorem like_of_bare (h : x.bare = y.bare) : x.Like y := by
  have hcore (z : Generator C) : z.core = z.bare.core := rfl
  rw [Like, hcore x, h, ← hcore y]

end Generator

theorem World.Becomes.like {w w' : World C} {g : GeneratorId} {x : Generator C}
    (h : w.Becomes g x w') : (w'.generator g).Like x :=
  congrArg Generator.core h.self

namespace Machine

variable {P : Program C} {δ : GeneratorId → Prop} {g : GeneratorId}

/-- What becomes of `g` with the next move from `m`. -/
inductive Change (P : Program C) (g : GeneratorId) (m : Machine C) (x : Generator C) : Prop
  | kept : m.control ≠ .task (.terminated g) → x.Like (m.world.generator g) →
      Change P g m x
  /-- There is no memory for its stack, and its entry procedure is lost. -/
  | starved : m.control = .task (.start g) → (m.world.generator g).status = .unused →
      stackSizeInRange (m.world.generator g).stackSize = true →
      m.world.stackMemory < (m.world.generator g).stackSize →
      x.Like { m.world.generator g with entry := none } → Change P g m x
  | started (entry : Closure C) : m.control = .task (.start g) →
      (m.world.generator g).status = .unused → (m.world.generator g).entry = some entry →
      x.Like { m.world.generator g with
        entry := none
        fiber := some ⟨(m.world.generator g).stackSize, .fresh entry⟩
        status := .running } → Change P g m x
  /-- Control is switched into its producer. -/
  | entered (size : Nat) : m.control = .task (.drive g) →
      (m.world.generator g).status = .running →
      x.Like { m.world.generator g with
        running := true, payloadHeld := true, fiber := some ⟨size, .active⟩ } → Change P g m x
  /-- Its producer yields. -/
  | parted (size : Nat) (k : Except Exception (Option Value) → C) (scopes : List (Scope C))
      (captures : List (HeldGuard C)) : (m.world.generator g).Inside →
      x.Like { m.world.generator g with
        running := false, fiber := some ⟨size, .suspended k scopes captures⟩ } → Change P g m x
  /-- Its producer comes to its end. -/
  | left (size : Nat) (fs : List (Frame C)) : m.frames = .driving g :: fs →
      (m.world.generator g).Inside →
      ((m.next P).control = .task (.terminated g) ∨ ∃ p, m.control = .unwind (.panic p)) →
      x.Like { m.world.generator g with
        running := false, payloadHeld := false, fiber := some ⟨size, .over⟩ } → Change P g m x
  /-- It counts as finished from now on. -/
  | finished : (m.world.generator g).status ≠ .finished →
      ((m.world.generator g).fiber = none → (m.world.generator g).payloadHeld = false) →
      x.Like { m.world.generator g with status := .finished } → Change P g m x
  /-- Its stack is empty, or is given up. -/
  | dissolved : m.control = .task (.finalize g) → (m.world.generator g).status = .finished →
      ((m.world.generator g).payloadHeld = false ∨
        (m.world.generator g).Parked ∧ panicking m.frames = true) →
      x.Like { m.world.generator g with fiber := none } → Change P g m x
  /-- Its stack is to be unwound by force, -/
  | unstacked : m.control = .task (.finalize g) → (m.world.generator g).status = .finished →
      (m.world.generator g).Parked →
      x.Like { m.world.generator g with fiber := none, running := true } → Change P g m x
  /-- and it has been. -/
  | unwound (fs : List (Frame C)) : m.frames = .destroying g :: fs →
      (m.world.generator g).Unwound →
      x.Like { m.world.generator g with running := false, payloadHeld := false } →
      Change P g m x
  | emptied : m.control = .task (.releaseEntry g) → (m.world.generator g).status = .finished →
      x.Like { m.world.generator g with entry := none } → Change P g m x
  | released : m.control = .task (.releasePayload g) → (m.world.generator g).Ended →
      x.Like { m.world.generator g with cleanup := none } → Change P g m x

variable {w : World C} {fs : List (Frame C)}

theorem change_resume {sent : Option Value} (h : Sound δ ⟨w, .task (.resume g sent), fs⟩)
    (hlt : g < w.generators.size) :
    Change P g ⟨w, .task (.resume g sent), fs⟩ ((resume w fs g sent).world.generator g) := by
  have hrest : Rest (marks fs) g (w.generator g) := h.rest rfl
  cases hrun : (w.generator g).running with
  | true =>
    rw [resume_of_running fs hrun sent]
    exact .kept nofun rfl
  | false =>
  obtain ⟨-, -, hidle⟩ := hrest.idle_of_not_running hrun
  refine .kept nofun ?_
  cases hs : (w.generator g).status with
  | unused =>
    cases sent with
    | none =>
      obtain ⟨w', hresume, hb, -⟩ := resume_unused fs hrun hs
      rw [hresume]
      exact hb.like
    | some v =>
      rw [resume_sent fs hrun hs v]
      rfl
  | running =>
    obtain ⟨w', hresume, hb⟩ := resume_running fs hrun hs hidle.slots.value hlt sent
    rw [hresume]
    exact hb.like
  | finished =>
    obtain ⟨w', hresume, hb⟩ := resume_finished fs hrun hs sent
    rw [hresume]
    exact hb.like

theorem change_start (h : Sound δ ⟨w, .task (.start g), fs⟩) (hlt : g < w.generators.size) :
    Change P g ⟨w, .task (.start g), fs⟩ ((start w fs g).world.generator g) := by
  have hat : At _ (marks fs) g (w.generator g) := h.shape g
  obtain ⟨-, -, -, hs⟩ := hat.phase rfl (by decide)
  cases hentry : (w.generator g).entry with
  | none =>
    rw [start_failed fs (.inr hentry)]
    exact .kept nofun rfl
  | some entry =>
  cases hrange : stackSizeInRange (w.generator g).stackSize with
  | false =>
    rw [start_failed fs (.inl hrange)]
    exact .kept nofun rfl
  | true =>
  by_cases hmemory : w.stackMemory < (w.generator g).stackSize
  · obtain ⟨w', hstart, hb⟩ := start_outOfMemory fs hentry hrange hmemory hlt
    rw [hstart]
    exact .starved rfl hs hrange hmemory hb.like
  · obtain ⟨w', hstart, hb⟩ := start_unused fs hentry hrange (Nat.le_of_not_lt hmemory) hlt
    rw [hstart]
    exact .started entry rfl hs hentry hb.like

/-- A generator that is idle, or whose producer is over, can count as finished. -/
theorem payloadHeld_of_idle {x : Generator C} (h : x.Idle) (hs : x.status ≠ .finished)
    (hf : x.fiber = none) : x.payloadHeld = false := by
  cases hstatus : x.status with
  | unused => exact (h.unused hstatus).2.1
  | running =>
    obtain ⟨-, ⟨hparked, -⟩ | ⟨-, hheld⟩⟩ := h.started hstatus
    · exact absurd hparked (Generator.not_parked_of_fiber hf)
    · exact hheld
  | finished => exact absurd hstatus hs

theorem change_throwInto {e : Exception} (h : Sound δ ⟨w, .task (.throw g e), fs⟩)
    (hlt : g < w.generators.size) :
    Change P g ⟨w, .task (.throw g e), fs⟩ ((throwInto w fs g e).world.generator g) := by
  have hrest : Rest (marks fs) g (w.generator g) := h.rest rfl
  cases hrun : (w.generator g).running with
  | true =>
    rw [throwInto_of_running fs hrun e]
    exact .kept nofun rfl
  | false =>
  obtain ⟨-, -, hidle⟩ := hrest.idle_of_not_running hrun
  by_cases hs : (w.generator g).status = .running
  · obtain ⟨w', hthrow, hb⟩ := throwInto_running fs hrun hs hidle.slots.error hlt e
    rw [hthrow]
    exact .kept nofun hb.like
  obtain ⟨w', hthrow, hb⟩ := throwInto_not_running fs hrun hs hlt e
  rw [hthrow]
  have hself := hb.like
  by_cases hfinished : (w.generator g).status = .finished
  · rw [← hfinished] at hself
    exact .kept nofun hself
  · exact .finished hfinished (payloadHeld_of_idle hidle hfinished) hself

theorem change_close (h : Sound δ ⟨w, .task (.close g), fs⟩) (hlt : g < w.generators.size) :
    Change P g ⟨w, .task (.close g), fs⟩ ((close w fs g).world.generator g) := by
  have hrest : Rest (marks fs) g (w.generator g) := h.rest rfl
  cases hrun : (w.generator g).running with
  | true =>
    rw [close_of_running fs hrun]
    exact .kept nofun rfl
  | false =>
  obtain ⟨-, -, hidle⟩ := hrest.idle_of_not_running hrun
  cases hs : (w.generator g).status with
  | unused =>
    obtain ⟨w', hclose, hb⟩ := close_unused fs hrun hs hlt
    have hopen : (w.generator g).status ≠ .finished := by simp [hs]
    rw [hclose]
    exact .finished hopen (payloadHeld_of_idle hidle hopen) hb.like
  | running =>
    obtain ⟨w', hclose, hb⟩ := close_running fs hrun hs hidle.slots.error hlt
    rw [hclose]
    exact .kept nofun hb.like
  | finished =>
    obtain ⟨w', hclose, hb⟩ := close_finished fs hrun hs
    rw [hclose]
    exact .kept nofun hb.like

theorem change_drive (h : Sound δ ⟨w, .task (.drive g), fs⟩) (hlt : g < w.generators.size) :
    Change P g ⟨w, .task (.drive g), fs⟩ ((drive w fs g).world.generator g) := by
  have hat : At _ (marks fs) g (w.generator g) := h.shape g
  obtain ⟨-, -, hstarted, -, -, hfiber⟩ := hat.phase rfl (by decide)
  rcases hfiber with ⟨⟨size, entry, hf⟩, -⟩ | ⟨⟨size, k, scopes, captures, hf⟩, hheld⟩ | ⟨hdead, -⟩
  · obtain ⟨w', hdrive, hb⟩ := drive_fresh fs hf hstarted.payload hlt
    rw [hdrive]
    exact .entered size rfl hstarted.status hb.like
  · obtain ⟨w', hdrive, hb⟩ := drive_suspended fs hf hlt
    rw [hdrive]
    refine .entered size rfl hstarted.status (hb.like.trans ?_)
    simp [Generator.core, hheld]
  · obtain ⟨size, hf⟩ := hdead
    obtain ⟨w', hdrive, hb⟩ := drive_over fs hf
    rw [hdrive]
    exact .kept nofun hb.like

theorem change_wake {k : Except Exception (Option Value) → C}
    (hlt : g < w.generators.size) :
    Change P g ⟨w, .task (.wake g k), fs⟩ ((wake w fs g k).world.generator g) := by
  refine .kept nofun ?_
  cases herror : (w.generator g).error with
  | none =>
    obtain ⟨w', hwake, hb⟩ := wake_value fs k herror hlt
    rw [hwake]
    exact hb.like
  | some e =>
    obtain ⟨w', hwake, hb⟩ := wake_error fs k herror hlt
    rw [hwake]
    exact hb.like

theorem change_suspended (h : Sound δ ⟨w, .task (.suspended g), fs⟩)
    (hlt : g < w.generators.size) :
    Change P g ⟨w, .task (.suspended g), fs⟩ ((suspended w fs g).world.generator g) := by
  have hat : At _ (marks fs) g (w.generator g) := h.shape g
  obtain ⟨-, -, hstarted, -, -, -, hvalue, -⟩ := hat.phase rfl (by decide)
  obtain ⟨v, hvalue⟩ := Option.isSome_iff_exists.mp hvalue
  obtain ⟨w', hsuspended, hb⟩ := suspended_running fs hstarted.status hvalue hlt
  rw [hsuspended]
  exact .kept nofun hb.like

theorem change_terminated (h : Sound δ ⟨w, .task (.terminated g), fs⟩)
    (hlt : g < w.generators.size) :
    Change P g ⟨w, .task (.terminated g), fs⟩ ((terminated w fs g).world.generator g) := by
  have hat : At _ (marks fs) g (w.generator g) := h.shape g
  obtain ⟨-, -, hstarted, -, -, hheld, -⟩ := hat.phase rfl (by decide)
  obtain ⟨w', hterminated, hb⟩ := terminated_running fs hstarted.status hlt
  rw [hterminated]
  exact .finished (by simp [hstarted.status]) (fun _ => hheld) hb.like

theorem change_abandon (h : Sound δ ⟨w, .task (.abandon g), fs⟩) (hlt : g < w.generators.size) :
    Change P g ⟨w, .task (.abandon g), fs⟩ ((abandon w fs g).world.generator g) := by
  obtain ⟨κ, -, -, hout, -⟩ := h.order
  have hrest : Rest (marks fs) g (w.generator g) := h.rest rfl
  by_cases hs : (w.generator g).status = .finished
  · rw [abandon_of_finished fs hs]
    exact .kept nofun rfl
  · have hrun : (w.generator g).running = false := by
      rw [Bool.eq_false_iff]
      exact mt (h.running_iff_mem_chain g).mp hout
    obtain ⟨-, -, hidle⟩ := hrest.idle_of_not_running hrun
    obtain ⟨w', habandon, hb⟩ := abandon_of_not_finished fs hs hlt
    rw [habandon]
    exact .finished hs (payloadHeld_of_idle hidle hs) hb.like

theorem change_finalize (h : Sound δ ⟨w, .task (.finalize g), fs⟩)
    (hlt : g < w.generators.size) :
    Change P g ⟨w, .task (.finalize g), fs⟩ ((finalize w fs g).world.generator g) := by
  have hat : At _ (marks fs) g (w.generator g) := h.shape g
  obtain ⟨-, -, hs, -, hfinal⟩ := hat.phase rfl (by decide)
  rcases hfinal with ⟨hended, -⟩ | ⟨-, -, -, ⟨hdead, hheld, -⟩ | ⟨hparked, -⟩⟩
  · rw [finalize_of_none fs hended.fiber]
    exact .kept nofun rfl
  · obtain ⟨w', hfinalize, hb⟩ := finalize_over fs hdead hlt
    rw [hfinalize]
    exact .dissolved rfl hs (.inl hheld) hb.like
  · by_cases hpanicking : panicking fs
    · obtain ⟨w', hfinalize, hb⟩ := finalize_panicking hparked hpanicking hlt
      rw [hfinalize]
      exact .dissolved rfl hs (.inr ⟨hparked, hpanicking⟩) hb.like
    · obtain ⟨w', size, k, scopes, captures, -, hfinalize, hb⟩ :=
        finalize_suspended hparked hpanicking hlt
      rw [hfinalize]
      exact .unstacked rfl hs hparked hb.like

theorem change_releaseEntry (h : Sound δ ⟨w, .task (.releaseEntry g), fs⟩)
    (hlt : g < w.generators.size) :
    Change P g ⟨w, .task (.releaseEntry g), fs⟩ ((releaseEntry w fs g).world.generator g) := by
  have hat : At _ (marks fs) g (w.generator g) := h.shape g
  obtain ⟨-, -, hended, -⟩ := hat.phase rfl (by decide)
  cases hentry : (w.generator g).entry with
  | none =>
    rw [releaseEntry_none fs hentry]
    exact .kept nofun rfl
  | some entry =>
    obtain ⟨w', hrelease, hb⟩ := releaseEntry_some fs hentry hlt
    rw [hrelease]
    exact .emptied rfl hended.status hb.like

theorem change_releasePayload (h : Sound δ ⟨w, .task (.releasePayload g), fs⟩) :
    Change P g ⟨w, .task (.releasePayload g), fs⟩
      ((releasePayload w fs g).world.generator g) := by
  have hat : At _ (marks fs) g (w.generator g) := h.shape g
  obtain ⟨-, -, hended, -⟩ := hat.phase rfl (by decide)
  have hreleases := releases_releasePayload w fs g
  generalize releasePayload w fs g = m' at hreleases
  refine .released rfl hended ?_
  cases hreleases with
  | nothing hcleanup hb =>
    refine hb.like.trans ?_
    simp [Generator.core, Generator.emptySlots, ← hcleanup]
  | lost _ _ hb | discarded _ _ _ hb => exact hb.like
  | paid _ _ _ hb =>
    rw [world_clean]
    exact hb.like

/-- The changes that operations on `g` make. -/
theorem change_perform {t : Task C} (h : Sound δ ⟨w, .task t, fs⟩) (hlt : g < w.generators.size)
    (ht : t.operates? = some g) : Change P g ⟨w, .task t, fs⟩ ((perform w fs t).world.generator g) := by
  cases t with
  | resume k sent => cases ht; exact change_resume h hlt
  | start k => cases ht; exact change_start h hlt
  | throw k e => cases ht; exact change_throwInto h hlt
  | close k => cases ht; exact change_close h hlt
  | drive k => cases ht; exact change_drive h hlt
  | wake k c => cases ht; exact change_wake hlt
  | suspended k => cases ht; exact change_suspended h hlt
  | terminated k => cases ht; exact change_terminated h hlt
  | abandon k => cases ht; exact change_abandon h hlt
  | finalize k => cases ht; exact change_finalize h hlt
  | releaseEntry k => cases ht; exact change_releaseEntry h hlt
  | releasePayload k => cases ht; exact change_releasePayload h
  | _ => cases ht

/-- The changes that are made when control leaves the stack of `g`. -/
theorem change_leave {m : Machine C} (h : Sound δ m) (hleaves : m.leaves? P = some g) :
    Change P g m ((m.next P).world.generator g) := by
  obtain ⟨w, control, fs⟩ := m
  obtain ⟨κ, hκ, hfits⟩ := h.order
  cases control with
  | code c =>
    cases hP : P.next c with
    | yield v k =>
      have hproducer : producer? fs = some g := by simpa [leaves?, hP] using hleaves
      obtain ⟨scopes, captures, rest, hfs⟩ := producer?_eq_some_iff.mp hproducer
      obtain rfl : fs = _ := hfs
      have hrest : Rest (marks (stackFiber scopes captures (.driving g :: rest))) g
        (w.generator g) := h.rest rfl
      obtain ⟨hinside, hslots⟩ := hrest.inside (by simp)
      obtain ⟨w', size, hyield, hb⟩ := yield_driving rest scopes captures v k hinside.entered
        hslots (w.lt_size_of_started hinside.started)
      have hnext : next P ⟨w, .code c, stackFiber scopes captures (.driving g :: rest)⟩ =
          task w' rest (.suspended g) := by
        simpa [next, hP, grant] using hyield
      rw [hnext]
      exact .parted size k scopes captures hinside hb.like
    | _ => simp [leaves?, hP] at hleaves
  | answer a =>
    obtain _ | ⟨f, rest⟩ := fs
    · cases hleaves
    have htop : f.entered? = some g := hleaves
    cases f with
    | driving k =>
      obtain rfl : k = g := by simpa using htop
      have hrest : Rest (marks (.driving k :: rest)) k (w.generator k) := h.rest rfl
      obtain ⟨hinside, hslots⟩ := hrest.inside (by simp)
      obtain ⟨size, hf⟩ := hinside.entered
      -- the only answer that a switch into a producer waits for is its outcome
      cases hκ with
      | driving =>
        cases a with
        | outcome r =>
          obtain ⟨w', hend, hb⟩ := endProducer_eq (r := r) rest
            (w.lt_size_of_started hinside.started) hslots.outcome
          have hnext : next P ⟨w, .answer (.outcome r), .driving k :: rest⟩ =
            task w' rest (.terminated k) := hend
          refine .left size rest rfl hinside (.inl (by rw [hnext]; rfl)) ?_
          rw [hnext]
          refine hb.like.trans ?_
          simp [Generator.core, hf]
        | _ => exact hfits.1.elim
    | destroying k =>
      cases hκ with
      | destroying => cases a <;> exact hfits.1.elim
    | _ => cases htop
  | unwind u =>
    obtain _ | ⟨f, rest⟩ := fs
    · cases hleaves
    have htop : f.entered? = some g := hleaves
    cases f with
    | driving k =>
      obtain rfl : k = g := by simpa using htop
      have hrest : Rest (marks (.driving k :: rest)) k (w.generator k) := h.rest rfl
      obtain ⟨hinside, -⟩ := hrest.inside (by simp)
      obtain ⟨size, hf⟩ := hinside.entered
      cases hκ with
      | driving =>
        cases u with
        | panic p =>
          refine .left size rest rfl hinside (.inr ⟨p, rfl⟩) ?_
          show ((leaveProducer w k).generator k).core = _
          rw [leaveProducer, World.generator_modify_self (w.lt_size_of_started hinside.started)]
          simp [Generator.core, hf]
        | cancel => cases hfits
    | destroying k =>
      obtain rfl : k = g := by simpa using htop
      have hrest : Rest (marks (.destroying k :: rest)) k (w.generator k) := h.rest rfl
      have hunwound := hrest.unwound (by simp)
      have hlt : k < w.generators.size := w.lt_size_of_running hunwound.running
      cases hκ with
      | destroying =>
        cases u with
        | panic p => exact absurd rfl hfits.2.1.2
        | cancel =>
          refine .unwound rest rfl hunwound ?_
          show ((leaveProducer w k).generator k).core = _
          rw [leaveProducer, World.generator_modify_self hlt]
          simp [Generator.core, hunwound.ended.fiber]
    | _ => cases htop
  | _ => cases hleaves

/-- Every move makes one of the changes. -/
theorem change_next {m : Machine C} (h : Sound δ m) (hg : g < m.world.generators.size) :
    Change P g m ((m.next P).world.generator g) := by
  by_cases hleaves : m.leaves? P = some g
  · exact change_leave h hleaves
  by_cases hop : ∃ t, m.control = .task t ∧ t.operates? = some g
  · obtain ⟨w, control, fs⟩ := m
    obtain ⟨t, hcontrol, ht⟩ := hop
    obtain rfl : control = _ := hcontrol
    exact change_perform h hg ht
  · refine .kept (fun hc => hop ⟨_, hc, rfl⟩) (Generator.like_of_bare ?_)
    exact bare_next_of_stays hg hleaves fun t ht hk => hop ⟨t, ht, hk⟩

theorem le_maxStackSize {n : Nat} (h : stackSizeInRange n = true) : n ≤ maxStackSize := by
  simp only [stackSizeInRange, Bool.and_eq_true, decide_eq_true_eq] at h
  exact h.2

/-- No change gives a generator another name, or another size of its stack. -/
theorem Change.fixed {m : Machine C} {x : Generator C} (h : Change P g m x) :
    x.name = (m.world.generator g).name ∧ x.stackSize = (m.world.generator g).stackSize := by
  cases h with
  | kept _ hx | starved _ _ _ _ hx | started _ _ _ _ hx | entered _ _ _ hx | parted _ _ _ _ _ hx
  | left _ _ _ _ _ hx | finished _ _ hx | dissolved _ _ _ hx | unstacked _ _ _ hx
  | unwound _ _ _ hx | emptied _ _ hx | released _ _ hx => exact ⟨hx.name, hx.stackSize⟩

theorem fixed_of_later {m m' : Machine C} (h : Reachable P m) (hm : Later P m m')
    (hg : g < m.world.generators.size) :
    g < m'.world.generators.size ∧
      (m'.world.generator g).name = (m.world.generator g).name ∧
      (m'.world.generator g).stackSize = (m.world.generator g).stackSize := by
  induction hm with
  | refl => exact ⟨hg, rfl, rfl⟩
  | @move m' hm ih =>
    obtain ⟨hlt, hname, hsize⟩ := ih
    obtain ⟨hname', hsize'⟩ := (change_next (P := P) (h.later hm).sound hlt).fixed
    exact ⟨Nat.lt_of_lt_of_le hlt (size_le_next m'), hname'.trans hname, hsize'.trans hsize⟩
  | again _ _ _ ih => exact ih

/-- A generator that has ended stays so. -/
theorem Change.status {m : Machine C} {x : Generator C} (h : Change P g m x)
    (hs : (m.world.generator g).status = .finished) : x.status = .finished := by
  cases h with
  | kept _ hx | dissolved _ _ _ hx | unstacked _ _ _ hx | unwound _ _ _ hx | emptied _ _ hx
  | released _ _ hx => exact hx.status.trans hs
  | starved _ hunused => cases hunused.symm.trans hs
  | started _ _ hunused => cases hunused.symm.trans hs
  | entered _ _ hrunning => cases hrunning.symm.trans hs
  | parted _ _ _ _ hinside | left _ _ _ hinside => cases hinside.started.status.symm.trans hs
  | finished hopen => exact absurd hs hopen

theorem status_of_leads {m m' : Machine C} (h : Reachable P m) (hm : Leads P m m')
    (hg : g < m.world.generators.size) (hs : (m.world.generator g).status = .finished) :
    (m'.world.generator g).status = .finished := by
  induction hm with
  | refl => exact hs
  | @move m _ _ ih =>
    exact ih h.move (Nat.lt_of_lt_of_le hg (size_le_next m)) ((change_next h.sound hg).status hs)

/-- Control is not inside the producer of a generator that has ended. -/
theorem not_inside_of_finished {m : Machine C} (h : Sound δ m)
    (hs : (m.world.generator g).status = .finished) : .inside g ∉ Coroutine.marks m.frames := by
  intro hin
  have hat := h.shape g
  cases hphase : m.control.phase? g with
  | none => cases ((h.rest hphase).inside hin).1.started.status.symm.trans hs
  | some phase =>
    simp only [At, hphase] at hat
    cases phase with
    | waking => cases hat.2.1.started.status.symm.trans hs
    | _ => exact hat.1 hin

end Machine

end Coroutine
