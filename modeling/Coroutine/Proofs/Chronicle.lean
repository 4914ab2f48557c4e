import Coroutine.Proofs.Cleanup
import Coroutine.Proofs.Reporting

/-! The log is a chronicle of lifecycles. Main statement: in every reachable state, each record of a
generator follows from the records of it before, and the end of a generator is recorded once. -/

namespace Coroutine

variable {C : Type}

namespace Record

/-- Whether the record is of an operation that a caller asked for. -/
def isRequest : Record → Bool
  | transition _ _ _ op _ _ => op.isRequest
  | _ => false

def isEntry : Record → Bool
  | switchesIn .. => true
  | _ => false

def isExit : Record → Bool
  | switchesOut .. => true
  | _ => false

def isFinal : Record → Bool
  | finalizes .. => true
  | _ => false

/-- The status that the records of a generator lead to, the latest first: the one after the last
transition, but a start only counts once the stack has been allocated. -/
def standing : List Record → Status
  | [] => .unused
  | transition _ _ _ _ after action :: _ => if action = .start then .unused else after
  | starts .. :: _ => .running
  | _ :: rs => standing rs

/-- Since the last request of a caller there were `n` switches into the generator. -/
def Entered (n : Nat) (rs : List Record) : Prop :=
  ∃ since request before, rs = since ++ request :: before ∧ request.isRequest = true ∧
    (∀ r ∈ since, r.isRequest = false) ∧ since.countP isEntry = n

/-- The last record asks for a start. -/
def Launched (rs : List Record) : Prop :=
  ∃ g name after rest, rs = transition g name .unused .resume after .start :: rest

/-- What a record of a generator takes of the records of it before, the latest first. -/
def Follows : Record → List Record → Prop
  | transition _ _ before op after action, rs =>
    before = standing rs ∧ Coroutine.transition before op = (after, action) ∧ action ≠ .illegal ∧
      (op = .yielded → ∃ r rest, rs = r :: rest ∧ r.isExit = true) ∧
      (op.isRequest = false → Entered 1 rs)
  | starts .., rs => Launched rs
  | switchedBack .., rs => ∃ between entry before, rs = between ++ entry :: before ∧
      entry.isEntry = true ∧ ∃ r ∈ before, r.isExit = true
  | finalizes .., rs => standing rs = .finished
  | _, _ => True

/-- Every record follows from the ones before. -/
def Faithful : List Record → Prop
  | [] => True
  | r :: rs => r.Follows rs ∧ Faithful rs

variable {r : Record} {rs new : List Record} {n : Nat}

theorem follows_of_isRemark (hr : r.isRemark = true) (rs : List Record) : r.Follows rs := by
  cases r <;> first | exact trivial | cases hr

theorem standing_of_isRemark (hr : r.isRemark = true) (rs : List Record) :
    standing (r :: rs) = standing rs := by
  cases r <;> first | rfl | cases hr

theorem standing_append (hnew : ∀ r ∈ new, r.isRemark = true) (rs : List Record) :
    standing (new ++ rs) = standing rs := by
  induction new with
  | nil => rfl
  | cons r new ih =>
    obtain ⟨hr, hnew⟩ := List.forall_mem_cons.mp hnew
    exact (standing_of_isRemark hr _).trans (ih hnew)

theorem Faithful.append (hnew : ∀ r ∈ new, r.isRemark = true) (h : Faithful rs) :
    Faithful (new ++ rs) := by
  induction new with
  | nil => exact h
  | cons r new ih =>
    obtain ⟨hr, hnew⟩ := List.forall_mem_cons.mp hnew
    exact ⟨follows_of_isRemark hr _, ih hnew⟩

theorem countP_isFinal_append (hnew : ∀ r ∈ new, r.isRemark = true) (rs : List Record) :
    (new ++ rs).countP isFinal = rs.countP isFinal := by
  have hzero : new.countP isFinal = 0 := by
    refine List.countP_eq_zero.mpr fun r hr => ?_
    have hremark := hnew r hr
    cases r <;> first | exact Bool.false_ne_true | cases hremark
  rw [List.countP_append, hzero, Nat.zero_add]

theorem Entered.cons (h : Entered n rs) (hrequest : r.isRequest = false)
    (hentry : r.isEntry = false) : Entered n (r :: rs) := by
  obtain ⟨since, request, before, rfl, hasked, hsince, hcount⟩ := h
  refine ⟨r :: since, request, before, rfl, hasked, List.forall_mem_cons.mpr ⟨hrequest, hsince⟩, ?_⟩
  rw [List.countP_cons_of_neg (by simp [hentry]), hcount]

theorem Entered.entry (h : Entered n rs) (g : GeneratorId) (name : String) :
    Entered (n + 1) (switchesIn g name :: rs) := by
  obtain ⟨since, request, before, rfl, hasked, hsince, hcount⟩ := h
  refine ⟨switchesIn g name :: since, request, before, rfl, hasked,
    List.forall_mem_cons.mpr ⟨rfl, hsince⟩, ?_⟩
  rw [List.countP_cons_of_pos rfl, hcount]

theorem entered_request (hr : r.isRequest = true) (rs : List Record) : Entered 0 (r :: rs) :=
  ⟨[], r, rs, rfl, hr, List.forall_mem_nil _, rfl⟩

theorem Entered.append (hnew : ∀ r ∈ new, r.isRemark = true) (h : Entered n rs) :
    Entered n (new ++ rs) := by
  induction new with
  | nil => exact h
  | cons r new ih =>
    obtain ⟨hr, hnew⟩ := List.forall_mem_cons.mp hnew
    refine (ih hnew).cons ?_ ?_ <;> cases r <;> first | rfl | cases hr

theorem standing_transition (g : GeneratorId) (name : String) (before : Status) (op : Operation)
    (after : Status) {action : Action} (hstart : action ≠ .start) (rs : List Record) :
    standing (transition g name before op after action :: rs) = after := by
  rw [standing, if_neg hstart]

theorem Faithful.follows {later earlier : List Record} (h : Faithful (later ++ r :: earlier)) :
    r.Follows earlier ∧ Faithful earlier := by
  induction later with
  | nil => exact h
  | cons _ _ ih => exact ih h.2

theorem Launched.standing (h : Launched rs) : standing rs = .unused := by
  obtain ⟨g, name, after, rest, rfl⟩ := h
  rfl

theorem Launched.entered (h : Launched rs) : Entered 0 rs := by
  obtain ⟨g, name, after, rest, rfl⟩ := h
  exact entered_request rfl rest

/-- No record leads away from the end. -/
theorem Faithful.standing_of_finished {later : List Record} (h : Faithful (later ++ rs))
    (hs : standing rs = .finished) : standing (later ++ rs) = .finished := by
  induction later with
  | nil => exact hs
  | cons r later ih =>
    have hbefore : standing (later ++ rs) = .finished := ih h.2
    have hfollows : r.Follows (later ++ rs) := h.1
    cases r with
    | transition g name before op after action =>
      obtain ⟨rfl, htable, hlegal, -⟩ := hfollows
      rw [hbefore] at htable
      cases op <;> cases htable <;> rfl
    | starts => cases hfollows.standing.symm.trans hbefore
    | _ => exact hbefore

/-- A transition after the end starts at the end, and leads nowhere else. -/
theorem Faithful.after_eq_of_final {later earlier : List Record} {g : GeneratorId} {name : String}
    {before : Status} {op : Operation} {after : Status} {action : Action}
    (h : Faithful (later ++ transition g name before op after action :: earlier))
    (hfinal : ∃ r ∈ earlier, r.isFinal = true) : after = .finished := by
  obtain ⟨⟨rfl, htable, hlegal, -⟩, hearlier⟩ := h.follows
  obtain ⟨r, hr, hfinal⟩ := hfinal
  obtain ⟨between, before, rfl⟩ := List.append_of_mem hr
  have hstanding : standing (r :: before) = .finished := by
    cases r with
    | finalizes => exact hearlier.follows.1
    | _ => cases hfinal
  have hend : standing (between ++ r :: before) = .finished :=
    hearlier.standing_of_finished hstanding
  rw [hend] at htable
  cases op <;> cases htable <;> rfl

end Record

/-- What the records of `g` say of the switch that the control is making. -/
def Control.Recorded (g : GeneratorId) (rs : List Record) : Control C → Prop
  | task (.start h) => h = g → Record.Launched rs
  | task (.drive h) => h = g → Record.Entered 0 rs
  | task (.wake h _) => h = g → ∃ entry before, rs = entry :: before ∧ entry.isEntry = true ∧
      ∃ r ∈ before, r.isExit = true
  | task (.suspended h) => h = g → ∃ r before, rs = r :: before ∧ r.isExit = true
  | _ => True

theorem Control.recorded_of_calm {c : Control C} {g : GeneratorId} (hcalm : c.switches? ≠ some g)
    (rs : List Record) : c.Recorded g rs := by
  cases c with
  | task t =>
    cases t with
    | start | drive | wake | suspended => exact fun hg => absurd (congrArg some hg) hcalm
    | _ => exact trivial
  | _ => exact trivial

namespace Machine

variable {P : Program C} {δ : GeneratorId → Prop} {w : World C} {g : GeneratorId}
  {m m' : Machine C}

/-- How the records of `g` go with its state, and with the operation that is going on. -/
structure Lawful (g : GeneratorId) (m : Machine C) : Prop where
  faithful : Record.Faithful (m.world.records g)
  standing : Record.standing (m.world.records g) = (m.world.generator g).status
  /-- A producer that counts as running has been switched into. -/
  entered : (m.world.generator g).status = .running → m.control ≠ .task (.drive g) →
    Record.Entered 1 (m.world.records g)
  switching : m.control.Recorded g (m.world.records g)
  parked : (m.world.generator g).Parked → ∃ r ∈ m.world.records g, r.isExit = true
  cleanup : (m.world.records g).countP Record.isFinal +
    (m.world.generator g).cleanup.isSome.toNat = 1

/-- A request is recorded as the table has it. -/
theorem Lawful.follows_request (h : Lawful g m) {op : Operation} (hop : op.isRequest = true) :
    (m.world.recordOf g op).Follows (m.world.records g) := by
  refine ⟨h.standing.symm, rfl, not_illegal_of_request hop _, ?_, ?_⟩
  · rintro rfl
    cases hop
  · intro hno
    cases hno.symm.trans hop

/-- So is an event of the producer. -/
theorem Lawful.follows_event (h : Lawful g m) (hs : (m.world.generator g).status = .running)
    (hdrive : m.control ≠ .task (.drive g)) {op : Operation}
    (hyield : op = .yielded →
      ∃ r before, m.world.records g = r :: before ∧ r.isExit = true) :
    (m.world.recordOf g op).Follows (m.world.records g) := by
  refine ⟨h.standing.symm, rfl, ?_, hyield, fun _ => h.entered hs hdrive⟩
  rw [hs]
  cases op <;> decide

theorem recordOf_eq {op : Operation} {s n : Status} {a : Action}
    (hs : (w.generator g).status = s) (htable : transition s op = (n, a)) :
    w.recordOf g op = .transition g (w.generator g).name s op n a := by
  rw [World.recordOf, hs, htable]

theorem Lawful.remarks (h : Lawful g m) (rs : List Record) (hremarks : ∀ r ∈ rs, r.isRemark = true)
    (hrecords : m'.world.records g = rs ++ m.world.records g)
    (hdrive : m.control ≠ .task (.drive g)) (hcalm : m'.control.switches? ≠ some g)
    (hstable : (m.world.generator g).Stable (m'.world.generator g)) : Lawful g m' where
  faithful := by
    rw [hrecords]
    exact h.faithful.append hremarks
  standing := by
    rw [hrecords, Record.standing_append hremarks, hstable.status]
    exact h.standing
  entered hs _ := by
    rw [hrecords]
    exact (h.entered (hstable.status.symm.trans hs) hdrive).append hremarks
  switching := Control.recorded_of_calm hcalm _
  parked hparked := by
    obtain ⟨r, hr, hexit⟩ := h.parked (hstable.parked hparked)
    rw [hrecords]
    exact ⟨r, List.mem_append_right rs hr, hexit⟩
  cleanup := by
    rw [hrecords, Record.countP_isFinal_append hremarks, hstable.cleanup]
    exact h.cleanup

/-- A record is made, and then perhaps remarks. -/
theorem Lawful.record (h : Lawful g m) {r : Record} (rs : List Record)
    (hremarks : ∀ r ∈ rs, r.isRemark = true)
    (hrecords : m'.world.records g = rs ++ r :: m.world.records g)
    (hfollows : r.Follows (m.world.records g))
    (hstanding : Record.standing (r :: m.world.records g) = (m'.world.generator g).status)
    (hentered : (m'.world.generator g).status = .running → m'.control ≠ .task (.drive g) →
      Record.Entered 1 (r :: m.world.records g))
    (hswitching : m'.control.Recorded g (rs ++ r :: m.world.records g))
    (hparked : (m'.world.generator g).Parked →
      (m.world.generator g).Parked ∨ r.isExit = true)
    (hcleanup : (r :: m.world.records g).countP Record.isFinal +
      (m'.world.generator g).cleanup.isSome.toNat = 1) : Lawful g m' where
  faithful := by
    rw [hrecords]
    exact .append hremarks ⟨hfollows, h.faithful⟩
  standing := by
    rw [hrecords, Record.standing_append hremarks]
    exact hstanding
  entered hs hdrive := by
    rw [hrecords]
    exact (hentered hs hdrive).append hremarks
  switching := by
    rw [hrecords]
    exact hswitching
  parked hsuspended := by
    rw [hrecords]
    rcases hparked hsuspended with hbefore | hexit
    · obtain ⟨r', hr', hexit⟩ := h.parked hbefore
      exact ⟨r', List.mem_append_right rs (.tail r hr'), hexit⟩
    · exact ⟨r, List.mem_append_right rs (.head _), hexit⟩
  cleanup := by
    rw [hrecords, Record.countP_isFinal_append hremarks]
    exact hcleanup

/-- A record is made of a move that changes nothing but the status. -/
theorem Lawful.record_status (h : Lawful g m) {r : Record} {n : Status} (rs : List Record)
    (hremarks : ∀ r ∈ rs, r.isRemark = true)
    (hrecords : m'.world.records g = rs ++ r :: m.world.records g)
    (hstable : Generator.Stable { m.world.generator g with status := n } (m'.world.generator g))
    (hfinal : r.isFinal = false) (hfollows : r.Follows (m.world.records g))
    (hstanding : Record.standing (r :: m.world.records g) = n)
    (hentered : n = .running → m'.control ≠ .task (.drive g) →
      Record.Entered 1 (r :: m.world.records g))
    (hswitching : m'.control.Recorded g (rs ++ r :: m.world.records g)) : Lawful g m' := by
  have hnever : ¬ r.isFinal = true := by simp [hfinal]
  refine h.record rs hremarks hrecords hfollows (hstanding.trans hstable.status.symm)
    (fun hs => hentered (hstable.status.symm.trans hs)) hswitching
    (fun hparked => .inl (hstable.parked hparked)) ?_
  rw [List.countP_cons_of_neg hnever, hstable.cleanup]
  exact h.cleanup

/-- What is recorded of a move goes with what went before. -/
theorem Lawful.reports (h : Lawful g m) (ht : Reports g m m') : Lawful g m' := by
  have hswitching := h.switching
  cases ht with
  | remarks rs hremarks hrecords hdrive hcalm hstable =>
    exact h.remarks rs hremarks hrecords hdrive hcalm hstable
  | asked op n a rs hop htable hstart hremarks hrecords hcontrol hstable =>
    have hrequest : (m.world.recordOf g op).isRequest = true := hop
    refine h.record_status rs hremarks hrecords hstable rfl (h.follows_request hop) ?_
      (fun hs hdrive => ?_) ?_
    · rw [recordOf_eq rfl htable]
      exact Record.standing_transition _ _ _ _ _ hstart _
    · obtain ⟨rfl, -⟩ := hcontrol.resolve_left hdrive
      cases hs
    · rcases hcontrol with hdrive | ⟨-, hcalm⟩
      · rw [hdrive]
        exact fun _ => .append hremarks (Record.entered_request hrequest _)
      · exact Control.recorded_of_calm hcalm _
  | launched hs hrecords hcontrol hstable =>
    refine h.record_status (n := (m.world.generator g).status) [] (List.forall_mem_nil _) hrecords
      hstable rfl (h.follows_request rfl) ?_ (fun hrunning => ?_) ?_
    · rw [recordOf_eq hs rfl, hs]
      rfl
    · cases hs.symm.trans hrunning
    · rw [hcontrol, recordOf_eq hs rfl]
      exact fun _ => ⟨_, _, _, _, rfl⟩
  | started hcontrol hrecords hdrive hstable =>
    rw [hcontrol] at hswitching
    have hlaunched : Record.Launched (m.world.records g) := hswitching rfl
    refine h.record_status [] (List.forall_mem_nil _) hrecords hstable rfl hlaunched rfl
      (fun _ hno => absurd hdrive hno) ?_
    rw [hdrive]
    exact fun _ => hlaunched.entered.cons rfl rfl
  | entered hdrive hrecords hwake hstable =>
    rw [hdrive] at hswitching
    have hentered : Record.Entered 0 (m.world.records g) := hswitching rfl
    refine h.record_status (n := (m.world.generator g).status) [] (List.forall_mem_nil _) hrecords
      hstable rfl trivial h.standing (fun _ _ => hentered.entry g _) ?_
    by_cases hswitches : m'.control.switches? = some g
    · obtain ⟨hparked, k, hcontrol⟩ := hwake hswitches
      rw [hcontrol]
      exact fun _ => ⟨_, _, rfl, rfl, h.parked hparked⟩
    · exact Control.recorded_of_calm hswitches _
  | woken k rs hcontrol hremarks hrecords hcalm hstable =>
    rw [hcontrol] at hswitching
    obtain ⟨entry, before, hbefore, hentry, hexit⟩ := hswitching rfl
    have hdrive : m.control ≠ .task (.drive g) := by
      simp [hcontrol]
    exact h.record_status (n := (m.world.generator g).status) rs hremarks hrecords hstable rfl
      ⟨[], entry, before, hbefore, hentry, hexit⟩ h.standing
      (fun hs _ => (h.entered hs hdrive).cons rfl rfl) (Control.recorded_of_calm hcalm _)
  | parted hdrive hrecords hcontrol hstatus hsame =>
    refine h.record [] (List.forall_mem_nil _) hrecords trivial ?_ (fun hs _ => ?_) ?_
      (fun _ => .inr rfl) ?_
    · rw [hstatus]
      exact h.standing
    · exact (h.entered (hstatus.symm.trans hs) hdrive).cons rfl rfl
    · rw [hcontrol]
      exact fun _ => ⟨_, _, rfl, rfl⟩
    · rw [hsame]
      exact h.cleanup
  | yielded hcontrol hs hrecords hcalm hstable =>
    have hdrive : m.control ≠ .task (.drive g) := by
      simp [hcontrol]
    have hparted := hswitching
    rw [hcontrol] at hparted
    refine h.record_status (n := (m.world.generator g).status) [] (List.forall_mem_nil _) hrecords
      hstable rfl (h.follows_event hs hdrive fun _ => hparted rfl) ?_
      (fun _ _ => (h.entered hs hdrive).cons rfl rfl) (Control.recorded_of_calm hcalm _)
    rw [recordOf_eq hs rfl, hs]
    rfl
  | ended hdrive hs hrecords hcalm hstable =>
    refine h.record_status [] (List.forall_mem_nil _) hrecords hstable rfl
      (h.follows_event hs hdrive (by simp)) ?_ (fun hrunning => ?_) (Control.recorded_of_calm hcalm _)
    · rw [recordOf_eq hs rfl]
      rfl
    · cases hrunning
  | finalized rs hdrive hs hopen hremarks hrecords hcalm hstable =>
    have hstanding : Record.standing (m.world.records g) = .finished := h.standing.trans hs
    refine h.record rs hremarks hrecords hstanding ?_ (fun hrunning _ => ?_)
      (Control.recorded_of_calm hcalm _) (fun hparked => .inl (hstable.parked hparked)) ?_
    · rw [hstable.status, hs]
      exact hstanding
    · cases (hstable.status.trans hs).symm.trans hrunning
    · rw [List.countP_cons_of_pos rfl, hstable.cleanup]
      simpa [hopen] using h.cleanup

/-- An operation on a generator that does not exist is none. -/
theorem reticent_perform_of_absent {fs : List (Frame C)} {t : Task C}
    (h : Sound δ ⟨w, .task t, fs⟩) (hg : w.generators.size ≤ g) (ht : t.operates? = some g) :
    Reticent g w (perform w fs t) := by
  have hvacant : w.generator g = .vacant := World.generator_of_le hg
  obtain ⟨κ, hκ, hfits⟩ := h.order
  have hknown (hoperand : κ.operand? = some g) : False :=
    Nat.not_lt_of_le hg (h.lt_size_of_operand hκ hoperand)
  cases t with
  | resume k | start k | throw k | close k =>
    cases ht
    obtain rfl := hfits
    exact (hknown rfl).elim
  | drive k | suspended k | terminated k =>
    cases ht
    rcases hfits with rfl | rfl <;> exact (hknown rfl).elim
  | wake k c =>
    cases ht
    obtain ⟨-, hproducer⟩ := hfits
    have hrunning := (h.running_iff_mem_chain g).mpr (Tops.of_producer hproducer).mem_chain
    rw [hvacant] at hrunning
    cases hrunning
  | abandon k =>
    cases ht
    have hanswer : perform w fs (.abandon g) = answer w fs .unit :=
      abandon_of_finished fs (by rw [hvacant]; rfl)
    rw [hanswer]
    exact .idle rfl rfl
  | finalize | releaseEntry => exact reticent_perform nofun
  | releasePayload k =>
    cases ht
    have hreleases : Releases w fs g (perform w fs (.releasePayload g)) :=
      releases_releasePayload w fs g
    generalize perform w fs (.releasePayload g) = m' at hreleases
    cases hreleases with
    | @nothing w' _ _ hhistory =>
      have hrecords : w'.records g = w.records g := congrArg (List.filterMap _) hhistory
      exact .idle hrecords rfl
    | lost hopen | discarded hopen | paid hopen =>
      rw [hvacant] at hopen
      cases hopen
  | _ => cases ht

/-- Nothing but remarks is recorded of a generator that does not exist yet. -/
theorem reticent_next_of_absent (h : Sound δ m) (hg : m.world.generators.size ≤ g) :
    Reticent g m.world (m.next P) := by
  by_cases hop : ∃ t, m.control = .task t ∧ t.operates? = some g
  · obtain ⟨w, control, fs⟩ := m
    obtain ⟨t, hcontrol, ht⟩ := hop
    obtain rfl : control = _ := hcontrol
    exact reticent_perform_of_absent h hg ht
  · refine reticent_next (fun t hc ht => hop ⟨t, hc, ht⟩) fun c v k _ _ hproducer => ?_
    have hrunning := (h.running_iff_mem_chain g).mpr (Tops.of_producer hproducer).mem_chain
    exact Nat.not_lt_of_le hg (World.lt_size_of_running hrunning)

/-- The records of `g` are lawful, and until it exists they are remarks. -/
structure Logged (g : GeneratorId) (m : Machine C) : Prop where
  absent : m.world.generators.size ≤ g → ∀ r ∈ m.world.records g, r.isRemark = true
  lawful : g < m.world.generators.size → Lawful g m

theorem lawful_of_remarks {d : Definition C} {captures : List (HeldGuard C)}
    (hremarks : ∀ r ∈ m.world.records g, r.isRemark = true)
    (hcalm : m.control.switches? ≠ some g)
    (hnew : m.world.generator g = .ofDefinition d captures) : Lawful g m where
  faithful := by
    have hall : Record.Faithful (m.world.records g ++ []) := .append hremarks trivial
    rwa [List.append_nil] at hall
  standing := by
    have hall := Record.standing_append hremarks []
    rw [List.append_nil] at hall
    rw [hall, hnew]
    rfl
  entered hs := by
    rw [hnew] at hs
    cases hs
  switching := Control.recorded_of_calm hcalm _
  parked hparked := by
    rw [hnew] at hparked
    exact absurd hparked (Generator.not_parked_of_fiber rfl)
  cleanup := by
    have hall := Record.countP_isFinal_append hremarks []
    rw [List.append_nil] at hall
    rw [hall, hnew]
    rfl

theorem Logged.next (h : Logged g m) (hsound : Sound δ m) : Logged g (m.next P) := by
  by_cases hg : g < m.world.generators.size
  · exact ⟨fun hle => absurd hle (Nat.not_le_of_lt (Nat.lt_of_lt_of_le hg (size_le_next m))),
      fun _ => (h.lawful hg).reports (reports_next hsound hg)⟩
  have hreticent : Reticent g m.world (m.next P) := reticent_next_of_absent hsound (Nat.le_of_not_lt hg)
  have hremarks : ∀ r ∈ (m.next P).world.records g, r.isRemark = true := by
    obtain ⟨rs, hremarks, hrecords⟩ := hreticent.records
    rw [hrecords]
    exact List.forall_mem_append.mpr ⟨hremarks, h.absent (Nat.le_of_not_lt hg)⟩
  refine ⟨fun _ => hremarks, fun hlt => ?_⟩
  obtain ⟨d, -, -, hnew⟩ := exists_made (Nat.le_of_not_lt hg) hlt
  exact lawful_of_remarks hremarks hreticent.calm hnew

theorem logged_of_reachable (h : Reachable P m) : Logged g m := by
  induction h with
  | start stackMemory s => exact ⟨fun _ => List.forall_mem_nil _, fun hg => absurd hg (Nat.not_lt_zero g)⟩
  | move h ih => exact ih.next h.sound
  | @again m s h hm ih =>
    refine ⟨ih.absent, fun hg => ?_⟩
    have hlawful : Lawful g m := ih.lawful hg
    have hdrive : m.control ≠ .task (.drive g) := hm.control_ne
    exact hlawful.remarks [] (List.forall_mem_nil _) rfl hdrive (Control.switches?_ne rfl g) (.refl _)

/-- What the log says of `g`, and what it will say next if `g` is to be started. -/
structure Chronicled (P : Program C) (g : GeneratorId) (m : Machine C) : Prop where
  /-- A log of all levels shows every record. -/
  shown : ∀ r ∈ m.world.records g, r.shownAt .trace = true
  /-- Each record follows from the records before it. -/
  follows : ∀ later r earlier, m.world.records g = later ++ r :: earlier → r.Follows earlier
  /-- A start that was asked for is recorded exactly if there is a stack for it. -/
  started : m.control = .task (.start g) →
    if m.world.HasStack g then (m.next P).world.records g = .starts g (m.world.generator g).name
        (m.world.generator g).stackSize :: m.world.records g
    else (m.next P).world.records g = m.world.records g
  /-- The end is recorded at most once, -/
  atMostOnce : (m.world.records g).countP Record.isFinal ≤ 1
  /-- it has been when the last handle has been dropped, -/
  gone : m.Gone g → (m.world.records g).countP Record.isFinal = 1
  /-- and no transition after it leads anywhere else. -/
  final : ∀ later earlier h name before op after action,
    m.world.records g = later ++ .transition h name before op after action :: earlier →
      (∃ r ∈ earlier, r.isFinal = true) → after = .finished

theorem Logged.faithful (h : Logged g m) : Record.Faithful (m.world.records g) := by
  by_cases hg : g < m.world.generators.size
  · exact (h.lawful hg).faithful
  · have hall : Record.Faithful (m.world.records g ++ []) :=
      .append (h.absent (Nat.le_of_not_lt hg)) trivial
    rwa [List.append_nil] at hall

theorem Logged.countP_isFinal_le (h : Logged g m) :
    (m.world.records g).countP Record.isFinal ≤ 1 := by
  by_cases hg : g < m.world.generators.size
  · rw [← (h.lawful hg).cleanup]
    exact Nat.le_add_right _ _
  · have hall := Record.countP_isFinal_append (h.absent (Nat.le_of_not_lt hg)) []
    rw [List.append_nil] at hall
    rw [hall]
    exact Nat.zero_le 1

/-- In every reachable state the log is a chronicle of the lifecycle of each generator. -/
theorem chronicled_of_reachable (h : Reachable P m) (g : GeneratorId) : Chronicled P g m := by
  have hlogged : Logged g m := logged_of_reachable h
  refine ⟨fun r _ => ?_, fun later r earlier hrecords => ?_, fun hstart => ?_,
    hlogged.countP_isFinal_le, fun hgone => ?_,
    fun later earlier _ name before op after action hrecords hfinal => ?_⟩
  · exact decide_eq_true (Nat.zero_le r.level.rank)
  · have hfaithful := hlogged.faithful
    rw [hrecords] at hfaithful
    exact hfaithful.follows.1
  · obtain ⟨w, control, fs⟩ := m
    obtain rfl : control = _ := hstart
    split
    · next hstack => exact records_start fs hstack
    · next hstack => exact records_start_of_not fs hstack
  · have hcleanup := (hlogged.lawful hgone.known).cleanup
    rw [hgone.cleanup h.sound] at hcleanup
    exact hcleanup
  · have hfaithful := hlogged.faithful
    rw [hrecords] at hfaithful
    exact hfaithful.after_eq_of_final hfinal

/-- The code of a producer that yields once and then returns. -/
def brief : Program Bool := ⟨fun c => if c then .yield .null fun _ => false else .finish (.ok .null)⟩

/-- The log of a generator that is resumed once and then dropped, the latest record first. -/
theorem chronicled_of_brief : ∃ m : Machine Bool, Chronicled brief 0 m ∧ m.Gone 0 ∧
    m.world.records 0 =
      [.finalizes 0 "g",
        .transition 0 "g" .running .terminated .finished .finalize,
        .raisesInjected 0 "g" "GeneratorExit",
        .switchedBack 0 "g",
        .switchesIn 0 "g",
        .closes 0 "g",
        .transition 0 "g" .running .close .running .switchIn,
        .transition 0 "g" .running .yielded .running .deliver,
        .switchesOut 0 "g",
        .switchesIn 0 "g",
        .starts 0 "g" minStackSize,
        .transition 0 "g" .unused .resume .running .start] := by
  have hcreate : Reachable brief
      ⟨{ stackMemory := minStackSize },
        .task (.step (.create "g" ⟨"g", minStackSize, some [], [], [], none, true⟩)), []⟩ :=
    .start _ _
  have hresume := (hcreate.leads (leads_run brief 2 _)).again (.resume "g" none)
    ⟨rfl, .inl ⟨_, rfl⟩⟩
  have hdrop := (hresume.leads (leads_run brief 20 _)).again (.drop "g") ⟨rfl, .inl ⟨_, rfl⟩⟩
  exact ⟨_, chronicled_of_reachable (hdrop.leads (leads_run brief 30 _)) 0,
    ⟨by decide, rfl, nofun, rfl, nofun⟩, rfl⟩

end Machine

end Coroutine
