import Coroutine.Proofs.Representation

/-! The way of a generator through its lifecycle. Main statement: over every run a generator only
moves forward, gets a fiber and begins its entry procedure at most once, and once it has ended and
nothing is left to be done about it, whatever is done with it does nothing. -/

namespace Coroutine

variable {C : Type}

/-- How far a generator has got: it has no fiber, its fiber has not run, its fiber has run, or it
has ended. -/
def Generator.stage (x : Generator C) : Nat :=
  match x.status, x.fiber with
  | .unused, _ => 0
  | .running, some ⟨_, .fresh _⟩ => 1
  | .running, _ => 2
  | .finished, _ => 3

namespace Generator

variable {x y : Generator C}

theorem stage_of_unused (h : x.status = .unused) : x.stage = 0 := by simp [stage, h]

theorem stage_of_finished (h : x.status = .finished) : x.stage = 3 := by simp [stage, h]

theorem stage_of_fresh (h : x.status = .running) (hf : x.Fresh) : x.stage = 1 := by
  obtain ⟨size, entry, hf⟩ := hf
  simp [stage, h, hf]

theorem stage_le_two (h : x.status ≠ .finished) : x.stage ≤ 2 := by
  unfold stage
  split <;> simp_all

theorem stage_le_three (x : Generator C) : x.stage ≤ 3 := by
  by_cases h : x.status = .finished
  · exact Nat.le_of_eq (stage_of_finished h)
  · exact Nat.le_succ_of_le (stage_le_two h)

theorem stage_of_not_fresh (h : x.status = .running) (hf : ¬ x.Fresh) : x.stage = 2 := by
  have hno (size : Nat) (entry : Closure C) : x.fiber ≠ some ⟨size, .fresh entry⟩ :=
    fun heq => hf ⟨size, entry, heq⟩
  unfold stage
  split <;> simp_all

/-- A stage that is not earlier has a status that is not earlier. -/
theorem rank_le_of_stage (h : x.stage ≤ y.stage) : x.status.rank ≤ y.status.rank := by
  cases hx : x.status with
  | unused => exact Nat.zero_le _
  | running =>
    cases hy : y.status with
    | unused =>
      rw [stage_of_unused hy] at h
      have hpos : 0 < x.stage := by
        by_cases hf : x.Fresh
        · simp [stage_of_fresh hx hf]
        · simp [stage_of_not_fresh hx hf]
      omega
    | running => exact Nat.le_refl _
    | finished => exact Nat.le_succ _
  | finished =>
    cases hy : y.status with
    | finished => exact Nat.le_refl _
    | unused | running =>
      have := stage_le_two (x := y) (by simp [hy])
      rw [stage_of_finished hx] at h
      omega

theorem Like.cleanup (h : x.Like y) : x.cleanup = y.cleanup := by
  have h : x.core.cleanup = y.core.cleanup := congrArg _ h
  exact h

theorem Like.stage (h : x.Like y) : x.stage = y.stage := by
  simp only [Generator.stage, h.status, h.fiber]

/-- The generator has ended and owns nothing but its handles. -/
structure Spent (x : Generator C) : Prop where
  status : x.status = .finished
  running : x.running = false
  fiber : x.fiber = none
  entry : x.entry = none
  cleanup : x.cleanup = none

theorem Spent.of_like (h : x.Spent) (hx : y.Like x) : y.Spent :=
  ⟨hx.status.trans h.status, hx.running.trans h.running, hx.fiber.trans h.fiber,
    hx.entry.trans h.entry, hx.cleanup.trans h.cleanup⟩

end Generator

namespace World

variable {w : World C} {g : GeneratorId}

/-- The world with one handle of `g` less. -/
def without (w : World C) (g : GeneratorId) : World C :=
  w.modify g fun x => { x with handles := x.handles - 1 }

/-- An operation on a generator that has ended only makes a record. -/
theorem apply_of_finished (op : Operation) {a : Action}
    (hs : (w.generator g).status = .finished) (ht : transition .finished op = (.finished, a))
    (hlegal : a ≠ .illegal) : ∃ r, w.apply g op = .ok (w.log r, a) := by
  have hself : w.modify g (fun x => { x with status := .finished }) = w :=
    modify_eq_self (by rw [← hs])
  refine ⟨.transition g (w.generator g).name .finished op .finished a, ?_⟩
  simp only [apply, hs, ht, hlegal, if_false, hself]
  split <;> rfl

end World

namespace Machine

variable {P : Program C} {δ : GeneratorId → Prop} {m m' : Machine C} {ms : List (Machine C)}
  {g : GeneratorId} {x : Generator C}

/-! ### Stages -/

theorem Change.stage (h : Change P g m x) : (m.world.generator g).stage ≤ x.stage := by
  have hended (hs : x.status = .finished) : (m.world.generator g).stage ≤ x.stage := by
    rw [Generator.stage_of_finished hs]
    exact Generator.stage_le_three _
  cases h with
  | kept _ hx => rw [hx.stage]
  | starved _ hs _ _ hx => simp [Generator.stage_of_unused hs]
  | started _ _ hs _ hx => simp [Generator.stage_of_unused hs]
  | entered size _ hs hx =>
    have hstage : x.stage = 2 := by
      rw [hx.stage]
      simp [Generator.stage, hs]
    rw [hstage]
    exact Generator.stage_le_two (by simp [hs])
  | parted size k scopes captures hinside hx =>
    have hs := hinside.started.status
    have hstage : x.stage = 2 := by
      rw [hx.stage]
      simp [Generator.stage, hs]
    rw [hstage]
    exact Generator.stage_le_two (by simp [hs])
  | left size fs _ hinside _ hx =>
    have hs := hinside.started.status
    have hstage : x.stage = 2 := by
      rw [hx.stage]
      simp [Generator.stage, hs]
    rw [hstage]
    exact Generator.stage_le_two (by simp [hs])
  | finished _ _ hx => exact hended hx.status
  | dissolved _ hs _ hx | unstacked _ hs _ hx | emptied _ hs hx => exact hended (hx.status.trans hs)
  | unwound _ _ hunwound hx => exact hended (hx.status.trans hunwound.ended.status)
  | released _ hended' hx => exact hended (hx.status.trans hended'.status)

theorem stage_le_next (h : Sound δ m) (hg : g < m.world.generators.size) :
    (m.world.generator g).stage ≤ ((m.next P).world.generator g).stage :=
  (change_next h hg).stage

/-- A generator is never at an earlier stage than before. -/
theorem stage_le_of_later (h : Reachable P m) (hm : Later P m m')
    (hg : g < m.world.generators.size) :
    g < m'.world.generators.size ∧
      (m.world.generator g).stage ≤ (m'.world.generator g).stage := by
  induction hm with
  | refl => exact ⟨hg, Nat.le_refl _⟩
  | @move k hk ih =>
    exact ⟨Nat.lt_of_lt_of_le ih.1 (size_le_next k),
      Nat.le_trans ih.2 (stage_le_next (h.later hk).sound ih.1)⟩
  | again s _ _ ih => exact ih

/-- The next move gives `g` a fiber that has not run. -/
def Allocates (P : Program C) (g : GeneratorId) (m : Machine C) : Prop :=
  ((m.next P).world.generator g).Fresh ∧
    ((m.next P).world.generator g).fiber ≠ (m.world.generator g).fiber

/-- The next move switches into a fiber of `g` that has not run, and so begins its entry
procedure. -/
def Begins (g : GeneratorId) (m : Machine C) : Prop :=
  m.control = .task (.drive g) ∧ (m.world.generator g).Fresh

/-- No two of these states are of this kind. -/
def AtMostOnce (E : Machine C → Prop) (ms : List (Machine C)) : Prop :=
  ms.Pairwise fun a b => ¬ (E a ∧ E b)

/-- The move passes the stage `n` of `g`. -/
def Crosses (P : Program C) (g : GeneratorId) (n : Nat) (m : Machine C) : Prop :=
  (m.world.generator g).stage < n ∧ n ≤ ((m.next P).world.generator g).stage

theorem lt_size_of_stage {w : World C} (h : (w.generator g).stage < 3) :
    g < w.generators.size := by
  apply World.lt_size_of_status
  intro hs
  rw [Generator.stage_of_finished hs] at h
  exact absurd h (Nat.lt_irrefl 3)

theorem Change.allocates (h : Change P g m ((m.next P).world.generator g))
    (hm : Allocates P g m) : Crosses P g 1 m := by
  obtain ⟨⟨size, entry, hf⟩, hne⟩ := hm
  cases h with
  | kept _ hx => exact absurd hx.fiber hne
  | starved _ _ _ _ hx | finished _ _ hx => exact absurd hx.fiber hne
  | unwound _ _ _ hx | emptied _ _ hx | released _ _ hx => exact absurd hx.fiber hne
  | started _ _ hs _ hx =>
    refine ⟨by simp [Generator.stage_of_unused hs], ?_⟩
    rw [Generator.stage_of_fresh hx.status ⟨size, entry, hf⟩]
  | entered _ _ _ hx | parted _ _ _ _ _ hx | left _ _ _ _ _ hx | dissolved _ _ _ hx
  | unstacked _ _ _ hx => cases hf.symm.trans hx.fiber

theorem crosses_of_allocates (h : Sound δ m) (hm : Allocates P g m) : Crosses P g 1 m := by
  by_cases hg : g < m.world.generators.size
  · exact (change_next h hg).allocates hm
  obtain ⟨size, entry, hf⟩ := hm.1
  have hlt : g < (m.next P).world.generators.size :=
    World.lt_size_of_ne Generator.fiber (by rw [hf]; nofun)
  -- a generator that has just been made has no fiber
  obtain ⟨d, -, -, hnew⟩ := exists_made (Nat.le_of_not_lt hg) hlt
  rw [hnew] at hf
  cases hf

theorem crosses_of_begins (h : Sound δ m) (hm : Begins g m) : Crosses P g 2 m := by
  obtain ⟨w, control, fs⟩ := m
  obtain ⟨hcontrol, hfresh⟩ := hm
  obtain rfl : control = _ := hcontrol
  have hat : At _ (Coroutine.marks fs) g (w.generator g) := h.shape g
  obtain ⟨-, -, hstarted, -⟩ := hat.phase rfl (by decide)
  have hs : (w.generator g).status = .running := hstarted.status
  have hstage : (w.generator g).stage = 1 := Generator.stage_of_fresh hs hfresh
  obtain ⟨size, entry, hf⟩ := hfresh
  obtain ⟨w', hdrive, hb⟩ := drive_fresh fs hf hstarted.payload (w.lt_size_of_started hstarted)
  refine ⟨Nat.lt_of_le_of_lt (Nat.le_of_eq hstage) (Nat.lt_succ_self 1), ?_⟩
  show 2 ≤ ((drive w fs g).world.generator g).stage
  rw [hdrive]
  show 2 ≤ (w'.generator g).stage
  rw [hb.self]
  simp [Generator.stage, hs]

/-- What crosses into a stage happens at most once. -/
theorem atMostOnce_of_crosses {E : Machine C → Prop} {n : Nat} (hn : n ≤ 3)
    (hE : ∀ m, Reachable P m → E m → Crosses P g n m) (h : Run P (m :: ms)) :
    AtMostOnce E (m :: ms) := by
  -- once there was such a state, the stage is reached
  let I (m : Machine C) (ms : List (Machine C)) : Prop :=
    ((∃ k ∈ ms, E k) → g < m.world.generators.size ∧ n ≤ (m.world.generator g).stage) ∧
      AtMostOnce E ms
  have honce {m : Machine C} {ms : List (Machine C)} (hrun : Run P (m :: ms)) (hI : I m ms) :
      AtMostOnce E (m :: ms) := by
    refine List.pairwise_cons.mpr ⟨fun k hk ⟨hm, hEk⟩ => ?_, hI.2⟩
    have hless := (hE m hrun.reachable hm).1
    exact absurd (hI.1 ⟨k, hk, hEk⟩).2 (Nat.not_le_of_lt hless)
  refine honce h (Run.invariant (I := I) ?_ ?_ ?_ h)
  · exact fun _ _ => ⟨by simp, .nil⟩
  · intro m ms hrun hI
    refine ⟨fun ⟨k, hk, hEk⟩ => ?_, honce hrun hI⟩
    rcases List.mem_cons.mp hk with rfl | hk
    · obtain ⟨hless, hle⟩ := hE k hrun.reachable hEk
      have hg := lt_size_of_stage (Nat.lt_of_lt_of_le hless hn)
      exact ⟨Nat.lt_of_lt_of_le hg (size_le_next k), hle⟩
    · obtain ⟨hg, hle⟩ := hI.1 ⟨k, hk, hEk⟩
      exact ⟨Nat.lt_of_lt_of_le hg (size_le_next m),
        Nat.le_trans hle (stage_le_next hrun.reachable.sound hg)⟩
  · intro m ms s hrun hm hI
    refine ⟨fun ⟨k, hk, hEk⟩ => ?_, honce hrun hI⟩
    rcases List.mem_cons.mp hk with rfl | hk
    · -- nothing is crossed where a step is over
      obtain ⟨hless, hle⟩ := hE k hrun.reachable hEk
      rw [hm.next_eq] at hle
      exact absurd hle (Nat.not_le_of_lt hless)
    · exact hI.1 ⟨k, hk, hEk⟩

/-! ### Generators that are spent -/

theorem Change.spent (h : Change P g m x) (hg : (m.world.generator g).Spent) : x.Spent := by
  have hs := hg.status
  cases h with
  | kept _ hx => exact hg.of_like hx
  | starved _ hunused => cases hunused.symm.trans hs
  | started _ _ hunused => cases hunused.symm.trans hs
  | entered _ _ hrunning => cases hrunning.symm.trans hs
  | parted _ _ _ _ hinside | left _ _ _ hinside => cases hinside.started.status.symm.trans hs
  | finished hopen => exact absurd hs hopen
  | dissolved _ _ _ hx =>
    exact ⟨hx.status.trans hs, hx.running.trans hg.running, hx.fiber, hx.entry.trans hg.entry,
      hx.cleanup.trans hg.cleanup⟩
  | unstacked _ _ hparked => exact absurd hparked (Generator.not_parked_of_fiber hg.fiber)
  | unwound _ _ hunwound => cases hunwound.running.symm.trans hg.running
  | emptied _ _ hx =>
    exact ⟨hx.status.trans hs, hx.running.trans hg.running, hx.fiber.trans hg.fiber, hx.entry,
      hx.cleanup.trans hg.cleanup⟩
  | released _ _ hx =>
    exact ⟨hx.status.trans hs, hx.running.trans hg.running, hx.fiber.trans hg.fiber,
      hx.entry.trans hg.entry, hx.cleanup⟩

/-- A generator that has ended is spent when nothing is left to be done about it. -/
theorem spent_of_quiet (h : Sound δ m) (hg : Quiet g m)
    (hs : (m.world.generator g).status = .finished) : (m.world.generator g).Spent := by
  obtain ⟨hidle, hpending⟩ := (h.rest hg.phase).idle hg.inside hg.unwound
  obtain ⟨hended, hentry, -⟩ := hidle.finished hs
  refine ⟨hs, hidle.running, hended.fiber, hentry, ?_⟩
  by_contra hc
  exact hg.emptied (hpending hs (Option.isSome_iff_ne_none.mpr hc))

theorem spent_of_later (h : Reachable P m) (hm : Later P m m')
    (hg : g < m.world.generators.size) (hspent : (m.world.generator g).Spent) :
    (m'.world.generator g).Spent ∧ m'.world.cleanups g = m.world.cleanups g := by
  induction hm with
  | refl => exact ⟨hspent, rfl⟩
  | @move k hk ih =>
    have hsound := (h.later hk).sound
    have hlt := (stage_le_of_later h hk hg).1
    exact ⟨(change_next hsound hlt).spent ih.1,
      (cleanups_next hsound hlt ih.1.cleanup).trans ih.2⟩
  | again s _ _ ih => exact ih

/-- The generator has ended, and whatever is done with it runs nothing: the world stays as it is but
for a record of the operation, or for a handle that is dropped. -/
structure Inert (P : Program C) (g : GeneratorId) (m : Machine C) : Prop where
  spent : (m.world.generator g).Spent
  inside : .inside g ∉ Coroutine.marks m.frames
  unwound : .unwound g ∉ Coroutine.marks m.frames
  resume : ∀ sent, m.control = .task (.resume g sent) → ∃ r,
    m.next P = progress (m.world.log r) m.frames (.error (.exhausted (m.world.generator g).name))
  throw : ∀ e, m.control = .task (.throw g e) → ∃ r,
    Leads P m (progress (m.world.log r) m.frames (.error (.raised e)))
  close : m.control = .task (.close g) → ∃ r,
    m.next P = closed (m.world.log r) m.frames (.ok ())
  drop : m.control = .task (.dropHandle g) →
    m.next P = answer (m.world.without g) m.frames .unit
  /-- A named iterator. -/
  pullNamed : ∀ it n, m.control = .task (.step (.pull it (n + 1))) →
    m.world.iterators.find? it = some (some g) → ∃ r,
    Leads P m (reply { (m.world.log r).without g with
        iterators := (m.world.iterators.erase it).insert it none } m.frames
      (.items (List.replicate (n + 1) .ended)))
  /-- An iterator on the stack of code. -/
  pull : ∀ c k fs, m.control = .code c → P.next c = .pull k →
    m.frames = .scope (.iterator (some g)) :: fs → ∃ r,
    Leads P m ⟨(m.world.log r).without g, .code (k .ended), .scope (.iterator none) :: fs⟩

section Spent

variable {w : World C} {fs : List (Frame C)}

theorem resume_of_spent (fs : List (Frame C)) (hg : (w.generator g).Spent) (sent : Option Value) :
    ∃ r, Machine.resume w fs g sent =
      progress (w.log r) fs (.error (.exhausted (w.generator g).name)) := by
  obtain ⟨r, happly⟩ := World.apply_of_finished .resume hg.status rfl (by decide)
  refine ⟨r, ?_⟩
  simp [Machine.resume, hg.running, hg.status, happly]

theorem close_of_finished (fs : List (Frame C)) (hs : (w.generator g).status = .finished)
    (hrun : (w.generator g).running = false) :
    ∃ r, Machine.close w fs g = closed (w.log r) fs (.ok ()) := by
  obtain ⟨r, happly⟩ := World.apply_of_finished .close hs rfl (by decide)
  refine ⟨r, ?_⟩
  simp [Machine.close, hrun, happly]

theorem dropHandle_of_spent (fs : List (Frame C)) (hg : (w.generator g).Spent)
    (hlt : g < w.generators.size) : dropHandle w fs g = answer (w.without g) fs .unit :=
  dropHandle_shared fs (fun _ => hg.status) hlt

/-- The exception comes back after a finalization that finds nothing to release. -/
theorem throw_of_spent (hg : (w.generator g).Spent) (hslots : (w.generator g).SlotsEmpty)
    (e : Exception) :
    ∃ r, Leads P ⟨w, .task (.throw g e), fs⟩ (progress (w.log r) fs (.error (.raised e))) := by
  obtain ⟨r, happly⟩ := World.apply_of_finished .throw hg.status rfl (by decide)
  let kept : List (Frame C) := .keeping (.progress (.error (.raised e))) :: fs
  have hempty : (w.log r).modify g .emptySlots = w.log r :=
    World.modify_eq_self (by
      simp only [Generator.emptySlots, World.generator_log]
      rw [← hslots.value, ← hslots.error, ← hslots.outcome])
  have hthrow : throwInto w fs g e = task (w.log r) kept (.finalize g) := by
    simp [throwInto, hg.running, happly, kept]
  have hpayload : releasePayload (w.log r) kept g = answer (w.log r) kept .unit := by
    simp [releasePayload, hempty, hg.cleanup]
  refine ⟨r, .step hthrow ?_⟩
  refine .step (finalize_of_none kept hg.fiber) ?_
  refine .step (releaseEntry_none kept hg.entry) ?_
  exact .step hpayload (.single _)

theorem pull_of_spent {c : C} {k : Item OpError → C} (hP : P.next c = .pull k)
    (hg : (w.generator g).Spent) (hlt : g < w.generators.size) :
    ∃ r, Leads P ⟨w, .code c, .scope (.iterator (some g)) :: fs⟩
      ⟨(w.log r).without g, .code (k .ended), .scope (.iterator none) :: fs⟩ := by
  obtain ⟨r, hresume⟩ :=
    resume_of_spent (.pulling g k :: .scope (.iterator (some g)) :: fs) hg none
  refine ⟨r, ?_⟩
  refine .step (b := ⟨w, .task (.resume g none), .pulling g k :: .scope (.iterator (some g)) :: fs⟩)
    (by simp [next, hP, grant, task]) ?_
  refine .step hresume ?_
  refine .step (b := ⟨w.log r, .task (.dropHandle g),
    .resuming (k .ended) :: .scope (.iterator none) :: fs⟩) rfl ?_
  exact .step (dropHandle_of_spent (w := w.log r) _ hg hlt) (.single _)

theorem pullNamed_of_spent {it : String} {n : Nat}
    (hfind : w.iterators.find? it = some (some g)) (hg : (w.generator g).Spent)
    (hlt : g < w.generators.size) :
    ∃ r, Leads P ⟨w, .task (.step (.pull it (n + 1))), fs⟩
      (reply { (w.log r).without g with iterators := (w.iterators.erase it).insert it none } fs
        (.items (List.replicate (n + 1) .ended))) := by
  let erased : World C := { w with iterators := w.iterators.erase it }
  obtain ⟨r, hresume⟩ := resume_of_spent (w := erased) (.pullingNamed it g n [] :: fs) hg none
  refine ⟨r, ?_⟩
  refine .step (b := ⟨erased, .task (.resume g none), .pullingNamed it g n [] :: fs⟩)
    (by simp [next, perform, makeStep, hfind, pullNamed, task, erased]) ?_
  refine .step hresume ?_
  refine .step (b := ⟨erased.log r, .task (.dropHandle g), .endingNamed it n [] .ended :: fs⟩)
    rfl ?_
  refine .step (dropHandle_of_spent (w := erased.log r) _ hg hlt) ?_
  refine .step (b := pullNamed ((erased.log r).without g) fs it none n [.ended]) rfl ?_
  have hgone : ((erased.log r).without g).iterators.find? it = none := by
    simp [erased, World.log, World.note, World.without, World.modify]
  have hpull : pullNamed ((erased.log r).without g) fs it none n [.ended] =
      nameIterator ((erased.log r).without g) fs it none
        (.reply (.items (List.replicate (n + 1) .ended))) := by
    cases n <;> rfl
  rw [hpull, nameIterator, hgone]
  exact .refl _

end Spent

theorem inert_of_spent (h : Sound δ m) (hg : g < m.world.generators.size)
    (hspent : (m.world.generator g).Spent) : Inert P g m := by
  have hout := mt (h.running_iff_mem_chain g).mpr (by simp [hspent.running])
  rw [mem_chain_iff, not_or] at hout
  obtain ⟨w, control, fs⟩ := m
  refine ⟨hspent, hout.1, hout.2, ?_, ?_, ?_, ?_, ?_, ?_⟩
  · rintro sent ⟨⟩
    exact resume_of_spent fs hspent sent
  · rintro e ⟨⟩
    exact throw_of_spent hspent (h.rest rfl).slotsEmpty e
  · rintro ⟨⟩
    exact close_of_finished fs hspent.status hspent.running
  · rintro ⟨⟩
    exact dropHandle_of_spent fs hspent hg
  · rintro it n ⟨⟩ hfind
    exact pullNamed_of_spent hfind hspent hg
  · rintro c k fs' ⟨⟩ hP ⟨⟩
    exact pull_of_spent hP hspent hg

/-- The way of `g` through its lifecycle, over a run that has come to `m` and made the moves from
`ms` before. -/
structure OneWay (P : Program C) (g : GeneratorId) (m : Machine C) (ms : List (Machine C)) :
    Prop where
  /-- Whatever happens later, the status is not an earlier one. -/
  forward : ∀ m', Later P m m' →
    (m.world.generator g).status.rank ≤ (m'.world.generator g).status.rank
  allocated : AtMostOnce (Allocates P g) (m :: ms)
  begun : AtMostOnce (Begins g) (m :: ms)
  /-- Once the generator has ended and nothing is left to be done about it, nothing is ever done
  again. -/
  absorbed : (m.world.generator g).status = .finished → Quiet g m → ∀ m', Later P m m' →
    Inert P g m' ∧ m'.world.cleanups g = m.world.cleanups g

/-- Over every run every generator only goes forward, and stays where it has ended. -/
theorem oneWay_of_run (h : Run P (m :: ms)) (hg : g < m.world.generators.size) :
    OneWay P g m ms where
  forward _ hm := Generator.rank_le_of_stage (stage_le_of_later h.reachable hm hg).2
  allocated :=
    atMostOnce_of_crosses (by decide) (fun _ hm => crosses_of_allocates hm.sound) h
  begun := atMostOnce_of_crosses (by decide) (fun _ hm => crosses_of_begins hm.sound) h
  absorbed hs hquiet m' hm := by
    have hspent := spent_of_quiet h.reachable.sound hquiet hs
    obtain ⟨hspent', hcleanups⟩ := spent_of_later h.reachable hm hg hspent
    have hlt := (stage_le_of_later h.reachable hm hg).1
    exact ⟨inert_of_spent (h.reachable.later hm).sound hlt hspent', hcleanups⟩

/-- An exception that is thrown into a producer that has returned comes back to the caller. -/
theorem oneWay_of_appending : ∃ (m : Machine Bool) (ms : List (Machine Bool)),
    OneWay appending 0 m ms ∧ 0 < m.world.generators.size ∧
      (∃ k ∈ ms, Allocates appending 0 k) ∧ (∃ k ∈ ms, Begins 0 k) ∧
      (m.world.generator 0).status = .finished ∧ Quiet 0 m ∧
      ∃ m' e, Later appending m m' ∧ m'.control = .task (.throw 0 e) ∧
        Inert appending 0 m' := by
  have hcreate : Run appending
      [⟨{ stackMemory := minStackSize },
        .task (.step (.create "g" ⟨"g", minStackSize, some [], [], [], none, true⟩)), []⟩] :=
    .start _ _
  have hresume := (hcreate.trail 2).again (.resume "g" none) ⟨rfl, .inl ⟨_, rfl⟩⟩
  have honeWay := oneWay_of_run (hresume.trail 20) (g := 0) (by decide)
  refine ⟨_, _, honeWay, by decide, ⟨_, List.mem_of_getElem? (i := 17) rfl, ⟨_, _, rfl⟩, nofun⟩,
    ⟨_, List.mem_of_getElem? (i := 16) rfl, rfl, _, _, rfl⟩, rfl, ⟨rfl, nofun, nofun, nofun⟩, ?_⟩
  refine ⟨_, _, .move (.again (.throw "g" (.fresh .exit)) .refl ⟨rfl, .inl ⟨_, rfl⟩⟩), rfl, ?_⟩
  exact (honeWay.absorbed rfl ⟨rfl, nofun, nofun, nofun⟩ _
    (.move (.again _ .refl ⟨rfl, .inl ⟨_, rfl⟩⟩))).1

end Machine

end Coroutine
