import Coroutine.Proofs.Invariant
import Coroutine.Proofs.Records

/-! What moves record. Main statement: every move records one of ten things of a generator, and does to
its status and its cleanup what the record says. -/

namespace Coroutine

variable {C : Type}

namespace Generator

/-- From `x` to `y` a generator keeps its status and its cleanup, and is not suspended anew. -/
structure Stable (x y : Generator C) : Prop where
  status : y.status = x.status
  cleanup : y.cleanup = x.cleanup
  parked : y.Parked → x.Parked

variable {x y : Generator C}

theorem Stable.refl (x : Generator C) : x.Stable x := ⟨rfl, rfl, id⟩

theorem Stable.trans {z : Generator C} (h : x.Stable y) (h' : y.Stable z) : x.Stable z :=
  ⟨h'.status.trans h.status, h'.cleanup.trans h.cleanup, fun hparked => h.parked (h'.parked hparked)⟩

theorem stable_of_bare (h : y.bare = x.bare) : x.Stable y := by
  have hstatus : y.bare.status = x.bare.status := congrArg _ h
  have hcleanup : y.bare.cleanup = x.bare.cleanup := congrArg _ h
  have hfiber : y.bare.fiber = x.bare.fiber := congrArg _ h
  have hfiber : y.fiber = x.fiber := hfiber
  refine ⟨hstatus, hcleanup, ?_⟩
  simp only [Parked, hfiber]
  exact id

theorem not_parked_of_state {f : Fiber C} (hy : y.fiber = some f)
    (hf : ∀ k scopes captures, f.state ≠ .suspended k scopes captures) : ¬ y.Parked := by
  rintro ⟨size, k, scopes, captures, hparked⟩
  cases hy.symm.trans hparked
  exact hf k scopes captures rfl

end Generator

namespace World

variable {w w' : World C} {g : GeneratorId}

theorem Becomes.stable {x : Generator C} (h : w.Becomes g x w') : x.Stable (w'.generator g) := by
  rw [h.self]
  exact .refl x

theorem stable_modify {φ : Generator C → Generator C} (hφ : ∀ x : Generator C, x.Stable (φ x))
    (k : GeneratorId) : (w.generator g).Stable ((w.modify k φ).generator g) := by
  rcases w.generator_modify_cases k g φ with hself | hsame
  · rw [hself]
    exact hφ _
  · rw [hsame]
    exact .refl _

/-- The record of an operation on `g`: the status that it has, and what the table says. -/
def recordOf (w : World C) (g : GeneratorId) (op : Operation) : Record :=
  .transition g (w.generator g).name (w.generator g).status op
    (transition (w.generator g).status op).1 (transition (w.generator g).status op).2

theorem records_eq_of_apply {op : Operation} {a : Action} (h : w.apply g op = .ok (w', a)) :
    w'.records g = w.recordOf g op :: w.records g := by
  obtain ⟨hrecords, ha, -⟩ := records_apply h
  rw [hrecords, recordOf, ha]

theorem illegal_of_apply {op : Operation} {f : Fault} (h : w.apply g op = .error f) :
    (transition (w.generator g).status op).2 = .illegal := by
  simp only [apply] at h
  split at h
  · assumption
  · cases h

/-- There is a stack for `g`, and an entry procedure to run on it. -/
def HasStack (w : World C) (g : GeneratorId) : Prop :=
  stackSizeInRange (w.generator g).stackSize = true ∧ (w.generator g).entry.isSome ∧
    (w.generator g).stackSize ≤ w.stackMemory

instance (w : World C) (g : GeneratorId) : Decidable (w.HasStack g) :=
  inferInstanceAs (Decidable (_ ∧ _ ∧ _))

end World

/-- The table allows every request of a caller. -/
theorem not_illegal_of_request {op : Operation} (hop : op.isRequest = true) (s : Status) :
    (transition s op).2 ≠ .illegal := by
  cases op <;> cases s <;> first | decide | cases hop

namespace Machine

/-- What a move from `m` to `m'` records of `g`, and what becomes of `g` meanwhile. -/
inductive Reports (g : GeneratorId) (m m' : Machine C) : Prop
  | remarks (rs : List Record) : (∀ r ∈ rs, r.isRemark = true) →
      m'.world.records g = rs ++ m.world.records g →
      m.control ≠ .task (.drive g) → m'.control.switches? ≠ some g →
      (m.world.generator g).Stable (m'.world.generator g) → Reports g m m'
  /-- A caller asks for an operation, which is no start. -/
  | asked (op : Operation) (n : Status) (a : Action) (rs : List Record) : op.isRequest = true →
      transition (m.world.generator g).status op = (n, a) → a ≠ .start →
      (∀ r ∈ rs, r.isRemark = true) →
      m'.world.records g = rs ++ m.world.recordOf g op :: m.world.records g →
      (m'.control = .task (.drive g) ∨ n = .finished ∧ m'.control.switches? ≠ some g) →
      Generator.Stable { m.world.generator g with status := n } (m'.world.generator g) →
      Reports g m m'
  /-- A caller asks for a start. -/
  | launched : (m.world.generator g).status = .unused →
      m'.world.records g = m.world.recordOf g .resume :: m.world.records g →
      m'.control = .task (.start g) →
      (m.world.generator g).Stable (m'.world.generator g) → Reports g m m'
  /-- The stack has been allocated. -/
  | started : m.control = .task (.start g) →
      m'.world.records g = .starts g (m.world.generator g).name (m.world.generator g).stackSize ::
        m.world.records g →
      m'.control = .task (.drive g) →
      Generator.Stable { m.world.generator g with status := .running } (m'.world.generator g) →
      Reports g m m'
  | entered : m.control = .task (.drive g) →
      m'.world.records g = .switchesIn g (m.world.generator g).name :: m.world.records g →
      (m'.control.switches? = some g →
        (m.world.generator g).Parked ∧ ∃ k, m'.control = .task (.wake g k)) →
      (m.world.generator g).Stable (m'.world.generator g) → Reports g m m'
  | woken (k : Except Exception (Option Value) → C) (rs : List Record) :
      m.control = .task (.wake g k) → (∀ r ∈ rs, r.isRemark = true) →
      m'.world.records g =
        rs ++ .switchedBack g (m.world.generator g).name :: m.world.records g →
      m'.control.switches? ≠ some g →
      (m.world.generator g).Stable (m'.world.generator g) → Reports g m m'
  | parted : m.control ≠ .task (.drive g) →
      m'.world.records g = .switchesOut g (m.world.generator g).name :: m.world.records g →
      m'.control = .task (.suspended g) →
      (m'.world.generator g).status = (m.world.generator g).status →
      (m'.world.generator g).cleanup = (m.world.generator g).cleanup → Reports g m m'
  | yielded : m.control = .task (.suspended g) → (m.world.generator g).status = .running →
      m'.world.records g = m.world.recordOf g .yielded :: m.world.records g →
      m'.control.switches? ≠ some g →
      (m.world.generator g).Stable (m'.world.generator g) → Reports g m m'
  | ended : m.control ≠ .task (.drive g) → (m.world.generator g).status = .running →
      m'.world.records g = m.world.recordOf g .terminated :: m.world.records g →
      m'.control.switches? ≠ some g →
      Generator.Stable { m.world.generator g with status := .finished } (m'.world.generator g) →
      Reports g m m'
  /-- The cleanup is taken. -/
  | finalized (rs : List Record) : m.control ≠ .task (.drive g) →
      (m.world.generator g).status = .finished → (m.world.generator g).cleanup.isSome →
      (∀ r ∈ rs, r.isRemark = true) →
      m'.world.records g = rs ++ .finalizes g (m.world.generator g).name :: m.world.records g →
      m'.control.switches? ≠ some g →
      Generator.Stable { m.world.generator g with cleanup := none } (m'.world.generator g) →
      Reports g m m'

variable {P : Program C} {δ : GeneratorId → Prop} {w : World C} {fs : List (Frame C)}
  {g : GeneratorId}

theorem Reports.nothing {m m' : Machine C} (hrecords : m'.world.records g = m.world.records g)
    (hdrive : m.control ≠ .task (.drive g)) (hcalm : m'.control.switches? ≠ some g)
    (hstable : (m.world.generator g).Stable (m'.world.generator g)) : Reports g m m' :=
  .remarks [] (List.forall_mem_nil _) hrecords hdrive hcalm hstable

theorem Reports.of_reticent {m m' : Machine C} (h : Reticent g m.world m')
    (hdrive : m.control ≠ .task (.drive g))
    (hstable : (m.world.generator g).Stable (m'.world.generator g)) : Reports g m m' := by
  obtain ⟨rs, hremarks, hrecords⟩ := h.records
  exact .remarks rs hremarks hrecords hdrive h.calm hstable

/-! ### Requests of callers -/

theorem records_resume (fs : List (Frame C)) (hrun : (w.generator g).running = false)
    (sent : Option Value) (hsent : sent = none ∨ (w.generator g).status ≠ .unused) :
    (resume w fs g sent).world.records g = w.recordOf g .resume :: w.records g := by
  have hlate : ¬ (sent.isSome && decide ((w.generator g).status = .unused)) = true := by
    rcases hsent with rfl | hs
    · simp
    · simp [hs]
  simp only [resume, hrun, Bool.false_eq_true, if_false, if_neg hlate]
  split
  · next happly =>
    exact absurd (World.illegal_of_apply happly) (not_illegal_of_request rfl _)
  · next happly => exact World.records_eq_of_apply happly
  · next happly =>
    split
    · exact World.records_eq_of_apply happly
    split
    · exact World.records_eq_of_apply happly
    · exact (World.records_eq_of_apply happly :)
  · next happly => exact World.records_eq_of_apply happly
  · next happly => exact World.records_eq_of_apply happly

theorem records_throwInto (fs : List (Frame C)) (hrun : (w.generator g).running = false)
    (e : Exception) : ∃ rs, (∀ r ∈ rs, r.isRemark = true) ∧
      (throwInto w fs g e).world.records g = rs ++ w.recordOf g .throw :: w.records g := by
  simp only [throwInto, hrun, Bool.false_eq_true, if_false]
  split
  · next happly =>
    exact absurd (World.illegal_of_apply happly) (not_illegal_of_request rfl _)
  · next happly => exact ⟨[], List.forall_mem_nil _, World.records_eq_of_apply happly⟩
  · next w' happly =>
    have hinjects : (w'.log (.injects g (w.generator g).name e.kind)).records g =
        .injects g (w.generator g).name e.kind :: w.recordOf g .throw :: w.records g := by
      rw [World.records_log rfl, World.records_eq_of_apply happly]
    refine ⟨[.injects g (w.generator g).name e.kind], by simp [Record.isRemark], ?_⟩
    split <;> exact hinjects
  · next happly => exact ⟨[], List.forall_mem_nil _, World.records_eq_of_apply happly⟩

theorem records_close (fs : List (Frame C)) (hrun : (w.generator g).running = false) :
    ∃ rs, (∀ r ∈ rs, r.isRemark = true) ∧
      (close w fs g).world.records g = rs ++ w.recordOf g .close :: w.records g := by
  simp only [close, hrun, Bool.false_eq_true, if_false]
  split
  · next happly =>
    exact absurd (World.illegal_of_apply happly) (not_illegal_of_request rfl _)
  · next happly => exact ⟨[], List.forall_mem_nil _, World.records_eq_of_apply happly⟩
  · next happly => exact ⟨[], List.forall_mem_nil _, World.records_eq_of_apply happly⟩
  · next w' happly =>
    have hcloses : (w'.log (.closes g (w.generator g).name)).records g =
        .closes g (w.generator g).name :: w.recordOf g .close :: w.records g := by
      rw [World.records_log rfl, World.records_eq_of_apply happly]
    refine ⟨[.closes g (w.generator g).name], by simp [Record.isRemark], ?_⟩
    split <;> exact hcloses
  · next happly => exact ⟨[], List.forall_mem_nil _, World.records_eq_of_apply happly⟩

theorem reports_resume {sent : Option Value} (h : Sound δ ⟨w, .task (.resume g sent), fs⟩)
    (hlt : g < w.generators.size) :
    Reports g ⟨w, .task (.resume g sent), fs⟩ (resume w fs g sent) := by
  have hrest : Rest (marks fs) g (w.generator g) := h.rest rfl
  cases hrun : (w.generator g).running with
  | true =>
    rw [resume_of_running fs hrun sent]
    exact .nothing rfl (by simp) (Control.switches?_ne rfl g) (.refl _)
  | false =>
  obtain ⟨-, -, hidle⟩ := hrest.idle_of_not_running hrun
  cases hs : (w.generator g).status with
  | unused =>
    cases sent with
    | none =>
      have hrecords := records_resume fs hrun none (.inl rfl)
      obtain ⟨w', hresume, hb, -⟩ := resume_unused fs hrun hs
      rw [hresume] at hrecords ⊢
      exact .launched hs hrecords rfl hb.stable
    | some v =>
      rw [resume_sent fs hrun hs v]
      exact .nothing rfl (by simp) (Control.switches?_ne rfl g) (.refl _)
  | running =>
    have hrecords := records_resume fs hrun sent (.inr (by simp [hs]))
    obtain ⟨w', hresume, hb⟩ := resume_running fs hrun hs hidle.slots.value hlt sent
    rw [hresume] at hrecords ⊢
    exact .asked .resume .running .switchIn [] rfl (by rw [hs]; rfl) (by decide)
      (List.forall_mem_nil _) hrecords (.inl rfl)
      ⟨hb.stable.status.trans hs, hb.stable.cleanup, hb.stable.parked⟩
  | finished =>
    have hrecords := records_resume fs hrun sent (.inr (by simp [hs]))
    obtain ⟨w', hresume, hb⟩ := resume_finished fs hrun hs sent
    rw [hresume] at hrecords ⊢
    exact .asked .resume .finished .exhausted [] rfl (by rw [hs]; rfl) (by decide)
      (List.forall_mem_nil _) hrecords (.inr ⟨rfl, Control.switches?_ne rfl g⟩)
      ⟨hb.stable.status.trans hs, hb.stable.cleanup, hb.stable.parked⟩

theorem reports_throwInto {e : Exception} (h : Sound δ ⟨w, .task (.throw g e), fs⟩)
    (hlt : g < w.generators.size) :
    Reports g ⟨w, .task (.throw g e), fs⟩ (throwInto w fs g e) := by
  have hrest : Rest (marks fs) g (w.generator g) := h.rest rfl
  cases hrun : (w.generator g).running with
  | true =>
    rw [throwInto_of_running fs hrun e]
    exact .nothing rfl (by simp) (Control.switches?_ne rfl g) (.refl _)
  | false =>
  obtain ⟨-, -, hidle⟩ := hrest.idle_of_not_running hrun
  obtain ⟨rs, hremarks, hrecords⟩ := records_throwInto fs hrun e
  by_cases hs : (w.generator g).status = .running
  · obtain ⟨w', hthrow, hb⟩ := throwInto_running fs hrun hs hidle.slots.error hlt e
    rw [hthrow] at hrecords ⊢
    exact .asked .throw .running .switchIn rs rfl (by rw [hs]; rfl) (by decide) hremarks hrecords
      (.inl rfl) ⟨hb.stable.status.trans hs, hb.stable.cleanup, hb.stable.parked⟩
  · obtain ⟨w', hthrow, hb⟩ := throwInto_not_running fs hrun hs hlt e
    have ht : transition (w.generator g).status .throw = (.finished, .raise) := by
      cases hstatus : (w.generator g).status with
      | running => exact absurd hstatus hs
      | unused | finished => rfl
    rw [hthrow] at hrecords ⊢
    exact .asked .throw .finished .raise rs rfl ht (by decide) hremarks hrecords
      (.inr ⟨rfl, Control.switches?_ne rfl g⟩) hb.stable

theorem reports_close (h : Sound δ ⟨w, .task (.close g), fs⟩) (hlt : g < w.generators.size) :
    Reports g ⟨w, .task (.close g), fs⟩ (close w fs g) := by
  have hrest : Rest (marks fs) g (w.generator g) := h.rest rfl
  cases hrun : (w.generator g).running with
  | true =>
    rw [close_of_running fs hrun]
    exact .nothing rfl (by simp) (Control.switches?_ne rfl g) (.refl _)
  | false =>
  obtain ⟨-, -, hidle⟩ := hrest.idle_of_not_running hrun
  obtain ⟨rs, hremarks, hrecords⟩ := records_close fs hrun
  cases hs : (w.generator g).status with
  | unused =>
    obtain ⟨w', hclose, hb⟩ := close_unused fs hrun hs hlt
    rw [hclose] at hrecords ⊢
    exact .asked .close .finished .finalize rs rfl (by rw [hs]; rfl) (by decide) hremarks hrecords
      (.inr ⟨rfl, Control.switches?_ne rfl g⟩) hb.stable
  | running =>
    obtain ⟨w', hclose, hb⟩ := close_running fs hrun hs hidle.slots.error hlt
    rw [hclose] at hrecords ⊢
    exact .asked .close .running .switchIn rs rfl (by rw [hs]; rfl) (by decide) hremarks hrecords
      (.inl rfl) ⟨hb.stable.status.trans hs, hb.stable.cleanup, hb.stable.parked⟩
  | finished =>
    obtain ⟨w', hclose, hb⟩ := close_finished fs hrun hs
    rw [hclose] at hrecords ⊢
    exact .asked .close .finished .nothing rs rfl (by rw [hs]; rfl) (by decide) hremarks hrecords
      (.inr ⟨rfl, Control.switches?_ne rfl g⟩)
      ⟨hb.stable.status.trans hs, hb.stable.cleanup, hb.stable.parked⟩

/-- Abandoning a generator is recorded as its close, or as the end of its producer. -/
theorem records_abandon (fs : List (Frame C)) {op : Operation}
    (hop : (w.generator g).status = .unused ∧ op = .close ∨
      (w.generator g).status = .running ∧ op = .terminated) :
    (abandon w fs g).world.records g = w.recordOf g op :: w.records g := by
  have hlegal : (transition (w.generator g).status op).2 ≠ .illegal := by
    rcases hop with ⟨hs, rfl⟩ | ⟨hs, rfl⟩ <;> rw [hs] <;> decide
  rcases hop with ⟨hs, rfl⟩ | ⟨hs, rfl⟩
  all_goals
    simp only [abandon, hs]
    split
    · next happly => exact absurd (World.illegal_of_apply happly) hlegal
    · next happly => exact World.records_eq_of_apply happly

theorem reports_abandon (hlt : g < w.generators.size) :
    Reports g ⟨w, .task (.abandon g), fs⟩ (abandon w fs g) := by
  cases hs : (w.generator g).status with
  | unused =>
    have hrecords := records_abandon fs (.inl ⟨hs, rfl⟩)
    obtain ⟨w', habandon, hb⟩ := abandon_of_not_finished fs (by simp [hs]) hlt
    rw [habandon] at hrecords ⊢
    exact .asked .close .finished .finalize [] rfl (by rw [hs]; rfl) (by decide)
      (List.forall_mem_nil _) hrecords (.inr ⟨rfl, Control.switches?_ne rfl g⟩) hb.stable
  | running =>
    have hrecords := records_abandon fs (.inr ⟨hs, rfl⟩)
    obtain ⟨w', habandon, hb⟩ := abandon_of_not_finished fs (by simp [hs]) hlt
    rw [habandon] at hrecords ⊢
    exact .ended (by simp) hs hrecords (Control.switches?_ne rfl g) hb.stable
  | finished =>
    rw [abandon_of_finished fs hs]
    exact .nothing rfl (by simp) (Control.switches?_ne rfl g) (.refl _)

/-! ### Starts and switches -/

/-- A start is recorded if the stack is allocated, -/
theorem records_start (fs : List (Frame C)) (h : w.HasStack g) :
    (start w fs g).world.records g =
      .starts g (w.generator g).name (w.generator g).stackSize :: w.records g := by
  obtain ⟨hrange, hentry, hmemory⟩ := h
  simp only [start]
  split
  · next hno => simp [hrange] at hno
  split
  · next hno => simp [hno] at hentry
  split
  · next hno => exact absurd hno (Nat.not_lt_of_le hmemory)
  · exact World.records_log rfl

/-- and only then. -/
theorem records_start_of_not (fs : List (Frame C)) (h : ¬ w.HasStack g) :
    (start w fs g).world.records g = w.records g := by
  simp only [start]
  split
  · rfl
  next hrange =>
  split
  · rfl
  next entry hentry =>
  split
  · rfl
  next hmemory =>
  refine absurd ⟨by simpa using hrange, by simp [hentry], Nat.le_of_not_lt hmemory⟩ h

theorem reports_start (hlt : g < w.generators.size) :
    Reports g ⟨w, .task (.start g), fs⟩ (start w fs g) := by
  by_cases hstack : w.HasStack g
  · have hrecords := records_start fs hstack
    obtain ⟨hrange, hentry, hmemory⟩ := hstack
    obtain ⟨entry, hentry⟩ := Option.isSome_iff_exists.mp hentry
    obtain ⟨w', hstart, hb⟩ := start_unused fs hentry hrange hmemory hlt
    rw [hstart] at hrecords ⊢
    exact .started rfl hrecords rfl ⟨hb.stable.status, hb.stable.cleanup, fun hparked =>
      absurd (hb.stable.parked hparked) (Generator.not_parked_of_state rfl (by simp))⟩
  have hrecords := records_start_of_not fs hstack
  cases hentry : (w.generator g).entry with
  | none =>
    rw [start_failed fs (.inr hentry)]
    exact .nothing rfl (by simp) (Control.switches?_ne rfl g) (.refl _)
  | some entry =>
  cases hrange : stackSizeInRange (w.generator g).stackSize with
  | false =>
    rw [start_failed fs (.inl hrange)]
    exact .nothing rfl (by simp) (Control.switches?_ne rfl g) (.refl _)
  | true =>
    have hmemory : w.stackMemory < (w.generator g).stackSize :=
      Nat.lt_of_not_le fun hle => hstack ⟨hrange, by simp [hentry], hle⟩
    obtain ⟨w', hstart, hb⟩ := start_outOfMemory fs hentry hrange hmemory hlt
    rw [hstart] at hrecords ⊢
    exact .nothing hrecords (by simp) (Control.switches?_ne rfl g)
      ⟨hb.stable.status, hb.stable.cleanup, hb.stable.parked⟩

theorem records_drive (fs : List (Frame C)) {fiber : Fiber C}
    (hf : (w.generator g).fiber = some fiber) (hactive : fiber.state ≠ .active) :
    (drive w fs g).world.records g =
      .switchesIn g (w.generator g).name :: w.records g := by
  simp only [drive, hf]
  split
  · next hno => exact absurd hno hactive
  · exact World.records_log rfl
  · split <;> exact World.records_log rfl
  · exact World.records_log rfl

theorem reports_drive (h : Sound δ ⟨w, .task (.drive g), fs⟩) (hlt : g < w.generators.size) :
    Reports g ⟨w, .task (.drive g), fs⟩ (drive w fs g) := by
  have hat : At _ (marks fs) g (w.generator g) := h.shape g
  obtain ⟨-, -, hstarted, -, -, hfiber⟩ := hat.phase rfl (by decide)
  rcases hfiber with ⟨⟨size, entry, hf⟩, -⟩ | ⟨⟨size, k, scopes, captures, hf⟩, -⟩ | ⟨⟨size, hf⟩, -⟩
  · have hrecords := records_drive fs hf (by simp)
    obtain ⟨w', hdrive, hb⟩ := drive_fresh fs hf hstarted.payload hlt
    rw [hdrive] at hrecords ⊢
    exact .entered rfl hrecords (fun hk => absurd hk (Control.switches?_ne rfl g))
      ⟨hb.stable.status, hb.stable.cleanup, fun hparked =>
        absurd (hb.stable.parked hparked) (Generator.not_parked_of_state rfl (by simp))⟩
  · have hrecords := records_drive fs hf (by simp)
    obtain ⟨w', hdrive, hb⟩ := drive_suspended fs hf hlt
    rw [hdrive] at hrecords ⊢
    exact .entered rfl hrecords (fun _ => ⟨⟨size, k, scopes, captures, hf⟩, k, rfl⟩)
      ⟨hb.stable.status, hb.stable.cleanup, fun hparked =>
        absurd (hb.stable.parked hparked) (Generator.not_parked_of_state rfl (by simp))⟩
  · have hrecords := records_drive fs hf (by simp)
    obtain ⟨w', hdrive, hb⟩ := drive_over fs hf
    rw [hdrive] at hrecords ⊢
    exact .entered rfl hrecords (fun hk => absurd hk (Control.switches?_ne rfl g)) hb.stable

theorem reports_wake (k : Except Exception (Option Value) → C) (hlt : g < w.generators.size) :
    Reports g ⟨w, .task (.wake g k), fs⟩ (wake w fs g k) := by
  have hback : (w.log (.switchedBack g (w.generator g).name)).records g =
      .switchedBack g (w.generator g).name :: w.records g := World.records_log rfl
  cases herror : (w.generator g).error with
  | none =>
    have hrecords : (wake w fs g k).world.records g =
        .switchedBack g (w.generator g).name :: w.records g := by
      simp only [wake, herror]
      exact hback
    obtain ⟨w', hwake, hb⟩ := wake_value fs k herror hlt
    rw [hwake] at hrecords ⊢
    exact .woken k [] rfl (List.forall_mem_nil _) hrecords (Control.switches?_ne rfl g)
      ⟨hb.stable.status, hb.stable.cleanup, hb.stable.parked⟩
  | some e =>
    have hrecords : (wake w fs g k).world.records g =
        .raisesInjected g (w.generator g).name e.kind ::
          .switchedBack g (w.generator g).name :: w.records g := by
      simp only [wake, herror]
      exact (World.records_log rfl).trans (congrArg _ hback)
    obtain ⟨w', hwake, hb⟩ := wake_error fs k herror hlt
    rw [hwake] at hrecords ⊢
    exact .woken k [_] rfl (by simp [Record.isRemark]) hrecords (Control.switches?_ne rfl g)
      ⟨hb.stable.status, hb.stable.cleanup, hb.stable.parked⟩

theorem reports_suspended (h : Sound δ ⟨w, .task (.suspended g), fs⟩)
    (hlt : g < w.generators.size) :
    Reports g ⟨w, .task (.suspended g), fs⟩ (suspended w fs g) := by
  have hat : At _ (marks fs) g (w.generator g) := h.shape g
  obtain ⟨-, -, hstarted, -, -, -, hvalue, -⟩ := hat.phase rfl (by decide)
  obtain ⟨v, hvalue⟩ := Option.isSome_iff_exists.mp hvalue
  have hrecords : (suspended w fs g).world.records g =
      w.recordOf g .yielded :: w.records g := by
    simp only [suspended]
    split
    · next happly =>
      have hillegal := World.illegal_of_apply happly
      rw [hstarted.status] at hillegal
      cases hillegal
    · next happly => split <;> exact (World.records_eq_of_apply happly :)
  obtain ⟨w', hsuspended, hb⟩ := suspended_running fs hstarted.status hvalue hlt
  rw [hsuspended] at hrecords ⊢
  exact .yielded rfl hstarted.status hrecords (Control.switches?_ne rfl g)
    ⟨hb.stable.status, hb.stable.cleanup, hb.stable.parked⟩

/-! ### The end of a generator -/

theorem reports_terminated (h : Sound δ ⟨w, .task (.terminated g), fs⟩)
    (hlt : g < w.generators.size) :
    Reports g ⟨w, .task (.terminated g), fs⟩ (terminated w fs g) := by
  have hat : At _ (marks fs) g (w.generator g) := h.shape g
  obtain ⟨-, -, hstarted, -⟩ := hat.phase rfl (by decide)
  have hrecords : (terminated w fs g).world.records g =
      w.recordOf g .terminated :: w.records g := by
    simp only [terminated]
    split
    · next happly =>
      have hillegal := World.illegal_of_apply happly
      rw [hstarted.status] at hillegal
      cases hillegal
    · next happly => exact (World.records_eq_of_apply happly :)
  obtain ⟨w', hterminated, hb⟩ := terminated_running fs hstarted.status hlt
  rw [hterminated] at hrecords ⊢
  exact .ended (by simp) hstarted.status hrecords (Control.switches?_ne rfl g)
    ⟨hb.stable.status, hb.stable.cleanup, hb.stable.parked⟩

theorem reports_finalize (h : Sound δ ⟨w, .task (.finalize g), fs⟩)
    (hlt : g < w.generators.size) :
    Reports g ⟨w, .task (.finalize g), fs⟩ (finalize w fs g) := by
  have hat : At _ (marks fs) g (w.generator g) := h.shape g
  obtain ⟨-, -, -, -, hfinal⟩ := hat.phase rfl (by decide)
  refine .of_reticent (reticent_perform (t := .finalize g) nofun) (by simp) ?_
  rcases hfinal with ⟨hended, -⟩ | ⟨-, -, -, ⟨hdead, -⟩ | ⟨hparked, -⟩⟩
  · rw [finalize_of_none fs hended.fiber]
    exact .refl _
  · obtain ⟨w', hfinalize, hb⟩ := finalize_over fs hdead hlt
    rw [hfinalize]
    exact ⟨hb.stable.status, hb.stable.cleanup, fun hparked =>
      absurd (hb.stable.parked hparked) (Generator.not_parked_of_fiber rfl)⟩
  · by_cases hpanicking : panicking fs
    · obtain ⟨w', hfinalize, hb⟩ := finalize_panicking hparked hpanicking hlt
      rw [hfinalize]
      exact ⟨hb.stable.status, hb.stable.cleanup, fun _ => hparked⟩
    · obtain ⟨w', size, k, scopes, captures, -, hfinalize, hb⟩ :=
        finalize_suspended hparked hpanicking hlt
      rw [hfinalize]
      exact ⟨hb.stable.status, hb.stable.cleanup, fun _ => hparked⟩

theorem reports_releaseEntry (hlt : g < w.generators.size) :
    Reports g ⟨w, .task (.releaseEntry g), fs⟩ (releaseEntry w fs g) := by
  refine .of_reticent (reticent_perform (t := .releaseEntry g) nofun) (by simp) ?_
  cases hentry : (w.generator g).entry with
  | none =>
    rw [releaseEntry_none fs hentry]
    exact .refl _
  | some entry =>
    obtain ⟨w', hrelease, hb⟩ := releaseEntry_some fs hentry hlt
    rw [hrelease]
    exact ⟨hb.stable.status, hb.stable.cleanup, hb.stable.parked⟩

theorem records_of_history {w' : World C} (es : List Event) (h : w'.history = es ++ w.history) :
    w'.records g = es.filterMap (Event.record? g) ++ w.records g := by
  rw [World.records, h, List.filterMap_append]
  rfl

theorem reports_releasePayload (h : Sound δ ⟨w, .task (.releasePayload g), fs⟩) :
    Reports g ⟨w, .task (.releasePayload g), fs⟩ (releasePayload w fs g) := by
  have hat : At _ (marks fs) g (w.generator g) := h.shape g
  obtain ⟨-, -, hended, -⟩ := hat.phase rfl (by decide)
  have hreleases := releases_releasePayload w fs g
  generalize releasePayload w fs g = m' at hreleases
  cases hreleases with
  | @nothing w' hcleanup hb hhistory =>
    have hrecords : w'.records g = w.records g := by rw [World.records, hhistory]; rfl
    exact .nothing hrecords (by simp) (Control.switches?_ne rfl g)
      ⟨hb.stable.status, hb.stable.cleanup, hb.stable.parked⟩
  | @lost w' cleanup hcleanup hheld hb hhistory =>
    have hrecords : w'.records g = [.leaksPayload g (w.generator g).name] ++
        .finalizes g (w.generator g).name :: w.records g := by
      rw [records_of_history [_, _] hhistory]
      simp [Event.record?, Record.generator?]
    exact .finalized _ (by simp) hended.status (by simp [hcleanup])
      (by simp [Record.isRemark]) hrecords (Control.switches?_ne rfl g)
      ⟨hb.stable.status, hb.stable.cleanup, hb.stable.parked⟩
  | @discarded w' cleanup hcleanup _ _ hb hhistory =>
    have hrecords : w'.records g = .finalizes g (w.generator g).name :: w.records g := by
      rw [records_of_history [_] hhistory]
      simp [Event.record?, Record.generator?]
    exact .finalized [] (by simp) hended.status (by simp [hcleanup])
      (List.forall_mem_nil _) hrecords (Control.switches?_ne rfl g)
      ⟨hb.stable.status, hb.stable.cleanup, hb.stable.parked⟩
  | @paid w' steps last payload hcleanup _ hpayload hb hhistory =>
    have hworld : (clean w' fs steps last).world = w' := world_clean steps last
    have hrecords : w'.records g = .finalizes g (w.generator g).name :: w.records g := by
      rw [records_of_history [_, _] hhistory]
      simp [List.filterMap_cons, Event.record?, Record.generator?]
    refine .finalized [] (by simp) hended.status (by simp [hcleanup]) (List.forall_mem_nil _) ?_
      (Control.switches?_ne (control_clean steps last) g) ?_
    · rw [hworld]
      exact hrecords
    · rw [hworld]
      exact ⟨hb.stable.status, hb.stable.cleanup, hb.stable.parked⟩

theorem reports_perform {t : Task C} (h : Sound δ ⟨w, .task t, fs⟩) (hlt : g < w.generators.size)
    (ht : t.operates? = some g) : Reports g ⟨w, .task t, fs⟩ (perform w fs t) := by
  cases t with
  | resume k sent => cases ht; exact reports_resume h hlt
  | start k => cases ht; exact reports_start hlt
  | throw k e => cases ht; exact reports_throwInto h hlt
  | close k => cases ht; exact reports_close h hlt
  | drive k => cases ht; exact reports_drive h hlt
  | wake k c => cases ht; exact reports_wake c hlt
  | suspended k => cases ht; exact reports_suspended h hlt
  | terminated k => cases ht; exact reports_terminated h hlt
  | abandon k => cases ht; exact reports_abandon hlt
  | finalize k => cases ht; exact reports_finalize h hlt
  | releaseEntry k => cases ht; exact reports_releaseEntry hlt
  | releasePayload k => cases ht; exact reports_releasePayload h
  | _ => cases ht

/-! ### Leaving a stack -/

theorem reports_yield {scopes : List (Scope C)} {captures : List (HeldGuard C)} {c : C}
    (h : Sound δ ⟨w, .code c, stackFiber scopes captures (.driving g :: fs)⟩) (v : Value)
    (k : Except Exception (Option Value) → C) :
    Reports g ⟨w, .code c, stackFiber scopes captures (.driving g :: fs)⟩
      (yield w (stackFiber scopes captures (.driving g :: fs)) v k) := by
  have hrest : Rest (marks (stackFiber scopes captures (.driving g :: fs))) g (w.generator g) :=
    h.rest rfl
  obtain ⟨hinside, hslots⟩ := hrest.inside (by simp)
  have hrecords : (yield w (stackFiber scopes captures (.driving g :: fs)) v k).world.records g =
      .switchesOut g (w.generator g).name :: w.records g := by
    simp only [yield, splitFiber_eq_some_iff.mpr rfl, hslots.error, hslots.value,
      Option.isSome_none, Bool.false_eq_true, if_false]
    exact World.records_log rfl
  obtain ⟨w', size, hyield, hb⟩ := yield_driving fs scopes captures v k hinside.entered hslots
    (w.lt_size_of_started hinside.started)
  rw [hyield] at hrecords ⊢
  exact .parted (by simp) hrecords rfl hb.stable.status hb.stable.cleanup

theorem stable_leaveProducer (k : GeneratorId) :
    (w.generator g).Stable ((leaveProducer w k).generator g) := by
  refine World.stable_modify ?_ k
  refine fun x => ⟨rfl, rfl, ?_⟩
  rintro ⟨size, c, scopes, captures, hf⟩
  cases hfiber : x.fiber with
  | none => simp [hfiber] at hf
  | some f => simp [hfiber] at hf

theorem stable_endProducer (k : GeneratorId) (r : Except Exception Value) :
    (w.generator g).Stable ((endProducer w fs k r).world.generator g) := by
  have hleft : (w.generator g).Stable ((leaveProducer w k).generator g) := stable_leaveProducer k
  have hset (w' : World C) : (w'.generator g).Stable
      ((w'.modify k fun x => { x with outcome := some r }).generator g) := by
    refine World.stable_modify ?_ k
    exact fun _ => ⟨rfl, rfl, id⟩
  simp only [endProducer]
  split
  · cases r <;> exact hleft
  · cases r <;> exact hleft.trans (hset _)

/-- Control that comes back from a stack, but not by a yield, leaves alone what the records are
about. -/
theorem stable_next_of_leaves {m : Machine C} (hleaves : m.leaves? P = some g)
    (hcode : ∀ c, m.control ≠ .code c) :
    (m.world.generator g).Stable ((m.next P).world.generator g) := by
  obtain ⟨w, control, fs⟩ := m
  cases control with
  | code c => exact absurd rfl (hcode c)
  | answer a =>
    obtain _ | ⟨f, rest⟩ := fs
    · cases hleaves
    have htop : f.entered? = some g := hleaves
    cases f with
    | driving k =>
      cases a with
      | outcome r => exact stable_endProducer k r
      | _ => exact .refl _
    | destroying k =>
      refine World.stable_modify (φ := fun x => { x with running := false }) ?_ k
      exact fun _ => ⟨rfl, rfl, id⟩
    | _ => cases htop
  | unwind u =>
    obtain _ | ⟨f, rest⟩ := fs
    · cases hleaves
    have htop : f.entered? = some g := hleaves
    cases f with
    | driving k => exact stable_leaveProducer k
    | destroying k => cases u <;> exact stable_leaveProducer k
    | _ => cases htop
  | _ => cases hleaves

/-- Every move records one of these things. -/
theorem reports_next {m : Machine C} (h : Sound δ m) (hg : g < m.world.generators.size) :
    Reports g m (m.next P) := by
  by_cases hop : ∃ t, m.control = .task t ∧ t.operates? = some g
  · obtain ⟨w, control, fs⟩ := m
    obtain ⟨t, hcontrol, ht⟩ := hop
    obtain rfl : control = _ := hcontrol
    exact reports_perform h hg ht
  have hop : ∀ t, m.control = .task t → t.operates? ≠ some g := fun t ht hk => hop ⟨t, ht, hk⟩
  by_cases hyield : ∃ c v k, m.control = .code c ∧ P.next c = .yield v k ∧ producer? m.frames = some g
  · obtain ⟨w, control, fs⟩ := m
    obtain ⟨c, v, k, hcontrol, hP, hproducer⟩ := hyield
    obtain rfl : control = _ := hcontrol
    obtain ⟨scopes, captures, rest, hfs⟩ := producer?_eq_some_iff.mp hproducer
    obtain rfl : fs = _ := hfs
    have hnext : next P ⟨w, .code c, stackFiber scopes captures (.driving g :: rest)⟩ =
        yield w (stackFiber scopes captures (.driving g :: rest)) v k := by
      simp only [next, hP, grant]
    rw [hnext]
    exact reports_yield h v k
  have hreticent : Reticent g m.world (m.next P) := reticent_next hop fun c v k hc hP hk =>
    hyield ⟨c, v, k, hc, hP, hk⟩
  refine .of_reticent hreticent (fun hc => hop _ hc rfl) ?_
  by_cases hleaves : m.leaves? P = some g
  · refine stable_next_of_leaves hleaves fun c hc => ?_
    obtain ⟨w, control, fs⟩ := m
    obtain rfl : control = _ := hc
    cases hP : P.next c with
    | yield v k => exact hyield ⟨c, v, k, rfl, hP, by simpa [leaves?, hP] using hleaves⟩
    | _ => simp [leaves?, hP] at hleaves
  · exact Generator.stable_of_bare (bare_next_of_stays hg hleaves hop)

end Machine

end Coroutine
