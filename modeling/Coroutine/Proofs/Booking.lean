import Coroutine.Proofs.Books
import Coroutine.Proofs.Invariant

/-! What a move does to one generator. Main statements: its account is kept, something is appended to
the payload, or the payload is released; and nothing but its account and its handles changes when no
operation is being done on it. -/

namespace Coroutine.Machine

variable {C : Type} {P : Program C} {δ : GeneratorId → Prop} {m : Machine C} {g : GeneratorId}

/-- What the next move adds to the payload of `g`: the context that the generator is made with, or
what its producer appends. -/
def contributes (P : Program C) (g : GeneratorId) (m : Machine C) : List Value :=
  match m.makes? P, m.appends? P with
  | some d, _ => if m.world.generators.size = g then d.context.getD [] else []
  | none, some (h, v) => if h = g then [v] else []
  | none, none => []

/-- The payload of `g` as the moves from these states made it, the latest state first. -/
def payloadOf (P : Program C) (g : GeneratorId) : List (Machine C) → List Value
  | [] => []
  | m :: ms => payloadOf P g ms ++ m.contributes P g

/-- What a move does to the account of `g`, and to what is known of its payload. -/
inductive Booking (P : Program C) (g : GeneratorId) (m : Machine C) (w : World C) : Prop
  | kept : (w.generator g).account = (m.world.generator g).account →
      w.settled g = m.world.settled g →
      ((m.world.generator g).plain = false → m.contributes P g = []) → Booking P g m w
  | appended (v : Value) : (m.world.generator g).cleanup.isSome → m.contributes P g = [v] →
      (w.generator g).account = { (m.world.generator g).account with
        payload := (m.world.generator g).payload.map (· ++ [v]) } →
      w.settled g = m.world.settled g → Booking P g m w
  | lost : (m.world.generator g).cleanup.isSome → (m.world.generator g).payloadHeld = true →
      m.control = .task (.releasePayload g) → m.contributes P g = [] →
      (w.generator g).account = { (m.world.generator g).account with cleanup := none } →
      w.settled g = .logged (.leaksPayload g (m.world.generator g).name) :: m.world.settled g →
      Booking P g m w
  | discarded {cleanup : Cleanup C} : (m.world.generator g).cleanup = some cleanup →
      ((m.world.generator g).payload.isSome → ∀ steps last, cleanup ≠ .callback steps last) →
      m.contributes P g = [] → (w.generator g).account = ⟨(m.world.generator g).plain, none, none⟩ →
      w.settled g = m.world.settled g → Booking P g m w
  | paid (payload : List Value) : (m.world.generator g).payload = some payload →
      (m.world.generator g).cleanup.isSome → (m.world.generator g).payloadHeld = false →
      m.control = .task (.releasePayload g) → m.contributes P g = [] →
      (w.generator g).account = ⟨(m.world.generator g).plain, none, none⟩ →
      w.settled g = .cleanup g (m.world.generator g).name payload :: m.world.settled g →
      Booking P g m w

variable {w : World C} {fs : List (Frame C)}

theorem contributes_of_none (hmake : m.makes? P = none) (happend : m.appends? P = none) :
    m.contributes P g = [] := by
  simp [contributes, hmake, happend]

theorem appends_of_contributes {v : Value} (hg : g < m.world.generators.size)
    (hadds : m.contributes P g = [v]) : ∃ v', m.appends? P = some (g, v') := by
  unfold contributes at hadds
  split at hadds
  · rw [if_neg (Nat.ne_of_gt hg)] at hadds
    cases hadds
  · next k v' _ happend =>
    split at hadds
    · next hk => exact ⟨v', hk ▸ happend⟩
    · cases hadds
  · cases hadds

/-- The producer of an open generator appends to its payload. -/
theorem cleanup_of_appends (h : Sound δ m) {v : Value} (happend : m.appends? P = some (g, v)) :
    (m.world.generator g).cleanup.isSome := by
  obtain ⟨c, hproducer, hcontrol, -⟩ := next_of_appends happend
  obtain ⟨scopes, captures, rest, hfs⟩ := producer?_eq_some_iff.mp hproducer
  have hrest : Rest (Coroutine.marks m.frames) g (m.world.generator g) :=
    h.rest (by rw [hcontrol]; rfl)
  obtain ⟨hinside, -⟩ := hrest.inside (by simp [hfs])
  exact hinside.started.cleanup

theorem booking_of_appends (h : Sound δ m) (hg : g < m.world.generators.size) {k : GeneratorId}
    {v : Value} (happend : m.appends? P = some (k, v)) : Booking P g m (m.next P).world := by
  obtain ⟨c, -, -, hworld⟩ := next_of_appends happend
  have hmake := makes?_of_appends happend
  rw [hworld]
  by_cases hk : k = g
  · subst hk
    cases hplain : (m.world.generator k).plain with
    | true =>
      refine .kept ?_ rfl fun hfalse => by simp [hplain] at hfalse
      rw [World.generator_modify_self hg, if_pos hplain]
    | false =>
      refine .appended v (cleanup_of_appends h happend)
        (by simp [contributes, hmake, happend]) ?_ rfl
      rw [World.generator_modify_self hg, if_neg (by simp [hplain])]
      rfl
  · refine .kept ?_ rfl fun _ => by simp [contributes, hmake, happend, hk]
    rw [World.generator_modify_of_ne (Ne.symm hk)]

theorem booking_of_makes (hg : g < m.world.generators.size) {d : Definition C}
    (hmake : m.makes? P = some d) : Booking P g m (m.next P).world := by
  refine .kept ?_ (settled_next_of_makes hmake g) fun _ => by
    simp [contributes, hmake, Nat.ne_of_gt hg]
  rw [generator_next_of_makes hmake, World.generator_addGenerator_of_ne d (Nat.ne_of_lt hg)]

/-- The release of a payload does nothing to other generators. -/
theorem Releases.other {k : GeneratorId} (h : Releases w fs k m) (hk : k ≠ g) :
    m.world.generator g = w.generator g ∧ m.world.settled g = w.settled g := by
  cases h with
  | nothing _ hb hhistory =>
    exact ⟨hb.other g (Ne.symm hk), by simp [answer, World.settled, hhistory]⟩
  | lost _ _ hb hhistory =>
    exact ⟨hb.other g (Ne.symm hk), by simp [answer, World.settled, hhistory, Event.settles, hk]⟩
  | discarded _ _ _ hb hhistory =>
    exact ⟨hb.other g (Ne.symm hk), by simp [answer, World.settled, hhistory, Event.settles]⟩
  | paid _ _ _ hb hhistory =>
    rw [world_clean]
    exact ⟨hb.other g (Ne.symm hk), by simp [World.settled, hhistory, Event.settles, hk]⟩

theorem booking_of_release {k : GeneratorId} (hcontrol : m.control = .task (.releasePayload k)) :
    Booking P g m (m.next P).world := by
  obtain ⟨w, control, fs⟩ := m
  obtain rfl : control = _ := hcontrol
  have hnone : contributes P g (⟨w, .task (.releasePayload k), fs⟩ : Machine C) = [] := rfl
  show Booking P g _ (releasePayload w fs k).world
  have hreleases := releases_releasePayload w fs k
  generalize releasePayload w fs k = m' at hreleases
  by_cases hk : k = g
  · subst hk
    cases hreleases with
    | @nothing w' hcleanup hb hhistory =>
      refine .kept ?_ (by simp [answer, World.settled, hhistory]) fun _ => hnone
      show (w'.generator k).account = _
      rw [hb.self]
      rfl
    | @lost w' cleanup hcleanup hheld hb hhistory =>
      refine .lost (by simp [hcleanup]) hheld rfl hnone ?_ ?_
      · show (w'.generator k).account = _
        rw [hb.self]
        rfl
      · simp [answer, World.settled, hhistory, Event.settles]
    | @discarded w' cleanup hcleanup _ hno hb hhistory =>
      refine .discarded hcleanup hno hnone ?_ ?_
      · show (w'.generator k).account = _
        rw [hb.self]
        rfl
      · simp [answer, World.settled, hhistory, Event.settles]
    | @paid w' steps last payload hcleanup hheld hpayload hb hhistory =>
      have hworld : (clean w' fs steps last).world = w' := world_clean steps last
      refine .paid payload hpayload (by simp [hcleanup]) hheld rfl hnone ?_ ?_
      · rw [hworld, hb.self]
        rfl
      · simp [hworld, World.settled, hhistory, Event.settles]
  · obtain ⟨hgenerator, hsettled⟩ := hreleases.other hk
    exact .kept (by rw [hgenerator]) hsettled fun _ => hnone

theorem booking_next (h : Sound δ m) (hg : g < m.world.generators.size) :
    Booking P g m (m.next P).world := by
  cases entry P m with
  | makes hmake => exact booking_of_makes hg hmake
  | appends _ happend => exact booking_of_appends h hg happend
  | releases _ _ hcontrol => exact booking_of_release hcontrol
  | nothing hmake happend hbooks =>
    have hbooks := hbooks _ (.empty P m)
    exact .kept (World.account_of_books hbooks g) (World.settled_of_books hbooks g)
      fun _ => contributes_of_none hmake happend

theorem Booking.plain {w : World C} (h : Booking P g m w) :
    (w.generator g).plain = (m.world.generator g).plain := by
  cases h with
  | kept h | appended _ _ _ h | lost _ _ _ _ h | discarded _ _ _ h | paid _ _ _ _ _ _ h =>
    exact congrArg Account.plain h

/-- A cleanup stays until it is gone. -/
theorem Booking.stays {w : World C} (h : Booking P g m w) :
    (w.generator g).cleanup = (m.world.generator g).cleanup ∨ (w.generator g).cleanup = none := by
  cases h with
  | kept h | appended _ _ _ h => exact .inl (congrArg Account.cleanup h)
  | lost _ _ _ _ h | discarded _ _ _ h | paid _ _ _ _ _ _ h =>
    exact .inr (congrArg Account.cleanup h)

theorem Booking.cleanup {w : World C} (h : Booking P g m w)
    (hnone : (m.world.generator g).cleanup = none) : (w.generator g).cleanup = none :=
  h.stays.elim (fun hsame => hsame.trans hnone) id

/-! ### Generators that do not exist yet -/

theorem size_next_of_makes {d : Definition C} (hmake : m.makes? P = some d) :
    (m.next P).world.generators.size = m.world.generators.size + 1 := by
  rw [(world_next_of_makes hmake).1, World.size_addGenerator]

theorem size_releasePayload (w : World C) (fs : List (Frame C)) (g : GeneratorId) :
    (releasePayload w fs g).world.generators.size = w.generators.size := by
  have hreleases := releases_releasePayload w fs g
  generalize releasePayload w fs g = m at hreleases
  cases hreleases with
  | nothing _ hb | lost _ _ hb | discarded _ _ _ hb => exact hb.size
  | paid _ _ _ hb =>
    rw [world_clean]
    exact hb.size

theorem size_next_of_none (hmake : m.makes? P = none) :
    (m.next P).world.generators.size = m.world.generators.size := by
  cases entry P m with
  | makes hsome => simp [hmake] at hsome
  | appends _ happend =>
    obtain ⟨c, -, -, hworld⟩ := next_of_appends happend
    rw [hworld, World.size_modify]
  | @releases k _ _ hcontrol =>
    obtain ⟨w, control, fs⟩ := m
    obtain rfl : control = _ := hcontrol
    exact size_releasePayload w fs k
  | nothing _ _ hbooks => exact World.size_of_books (hbooks _ (.empty P m))

theorem size_le_next (m : Machine C) :
    m.world.generators.size ≤ (m.next P).world.generators.size := by
  cases hmake : m.makes? P with
  | some d =>
    rw [size_next_of_makes hmake]
    exact Nat.le_succ _
  | none => exact Nat.le_of_eq (size_next_of_none hmake).symm

/-- Nothing happens to the payload of a generator that does not exist yet. -/
theorem absent_next (h : Sound δ m) (hg : (m.next P).world.generators.size ≤ g) :
    m.contributes P g = [] ∧ (m.next P).world.settled g = m.world.settled g := by
  have hvacant : m.world.generator g = .vacant :=
    World.generator_of_le (Nat.le_trans (size_le_next m) hg)
  cases entry P m with
  | makes hmake =>
    rw [size_next_of_makes hmake] at hg
    exact ⟨by simp [contributes, hmake, Nat.ne_of_lt hg], settled_next_of_makes hmake g⟩
  | @appends k v hmake happend =>
    obtain ⟨c, -, -, hworld⟩ := next_of_appends happend
    have hk : k ≠ g := by
      rintro rfl
      have hcleanup := cleanup_of_appends h happend
      simp [hvacant, Generator.vacant] at hcleanup
    refine ⟨by simp [contributes, hmake, happend, hk], ?_⟩
    rw [hworld]
    rfl
  | releases hmake happend hcontrol =>
    refine ⟨contributes_of_none hmake happend, ?_⟩
    have hbooking : Booking P g m (m.next P).world := booking_of_release hcontrol
    cases hbooking with
    | kept _ hsettled | discarded _ _ _ _ hsettled => exact hsettled
    | appended _ hc | lost hc | paid _ _ hc => simp [hvacant, Generator.vacant] at hc
  | nothing hmake happend hbooks =>
    exact ⟨contributes_of_none hmake happend,
      World.settled_of_books (hbooks _ (.empty P m)) g⟩

/-- A generator that does not exist yet is made where it comes to be. -/
theorem exists_made (hg : m.world.generators.size ≤ g)
    (hg' : g < (m.next P).world.generators.size) :
    ∃ d, m.makes? P = some d ∧ m.world.generators.size = g ∧
      (m.next P).world.generator g = .ofDefinition d (m.world.holdGuards d.captures).1 := by
  cases hmake : m.makes? P with
  | none =>
    rw [size_next_of_none hmake] at hg'
    exact absurd hg' (Nat.not_lt_of_le hg)
  | some d =>
    rw [size_next_of_makes hmake] at hg'
    obtain rfl : g = m.world.generators.size := Nat.le_antisymm (Nat.lt_succ_iff.mp hg') hg
    refine ⟨d, rfl, rfl, ?_⟩
    rw [generator_next_of_makes hmake, World.generator_addGenerator_self]

/-- The account of a generator that is just made is pending. -/
theorem created_next (hg : m.world.generators.size ≤ g)
    (hg' : g < (m.next P).world.generators.size) :
    ∃ d, ((m.next P).world.generator g).account = openAccount d ∧
      (m.next P).world.settled g = m.world.settled g ∧ m.contributes P g = d.context.getD [] := by
  obtain ⟨d, hmake, rfl, hnew⟩ := exists_made hg hg'
  exact ⟨d, congrArg Generator.account hnew, settled_next_of_makes hmake _,
    by simp [contributes, hmake]⟩

/-! ### Generators that are left alone -/

/-- The switch into the stack of `g` is the innermost one: it is on top, or right below the running
code. -/
inductive Tops (g : GeneratorId) : List (Frame C) → Prop
  | entered {f : Frame C} (fs : List (Frame C)) : f.entered? = some g → Tops g (f :: fs)
  | running (scopes : List (Scope C)) (captures : List (HeldGuard C)) (fs : List (Frame C)) :
      Tops g (stackFiber scopes captures (.driving g :: fs))

theorem Tops.mem_chain (h : Tops g fs) : g ∈ chain fs := by
  cases h with
  | entered fs hf => simp [-Frame.entered?, hf]
  | running scopes captures fs => simp

theorem Tops.of_producer (h : producer? fs = some g) : Tops g fs := by
  obtain ⟨scopes, captures, rest, rfl⟩ := producer?_eq_some_iff.mp h
  exact .running scopes captures rest

theorem tops_of_leaves (hg : m.leaves? P = some g) : Tops g m.frames := by
  have htop {fs : List (Frame C)} (htop : fs.head?.bind Frame.entered? = some g) : Tops g fs := by
    cases fs with
    | nil => cases htop
    | cons f fs => exact .entered fs htop
  obtain ⟨w, control, fs⟩ := m
  cases control with
  | code c =>
    cases hP : P.next c with
    | yield v k => exact .of_producer (by simpa [leaves?, hP] using hg)
    | _ => simp [leaves?, hP] at hg
  | answer | unwind => exact htop hg
  | _ => cases hg

theorem tops_of_appends {v : Value} (happend : m.appends? P = some (g, v)) : Tops g m.frames := by
  obtain ⟨c, hproducer, -, -⟩ := next_of_appends happend
  exact .of_producer hproducer

/-- A move that is no part of an operation on a generator changes at most its payload and its
handles, unless control leaves its stack. -/
theorem bare_next_of_stays (hg : g < m.world.generators.size) (hstays : m.leaves? P ≠ some g)
    (hop : ∀ t, m.control = .task t → t.operates? ≠ some g) :
    ((m.next P).world.generator g).bare = (m.world.generator g).bare := by
  cases entry P m with
  | @makes d hmake =>
    rw [generator_next_of_makes hmake, World.generator_addGenerator_of_ne d (Nat.ne_of_lt hg)]
  | @appends k v _ happend =>
    obtain ⟨c, -, -, hworld⟩ := next_of_appends happend
    rw [hworld]
    rcases World.generator_modify_cases m.world k g _ with hself | hother
    · rw [hself]
      split <;> rfl
    · rw [hother]
  | @releases k _ _ hcontrol =>
    have hk : k ≠ g := by
      rintro rfl
      exact hop _ hcontrol rfl
    obtain ⟨w, control, fs⟩ := m
    obtain rfl : control = _ := hcontrol
    show ((releasePayload w fs k).world.generator g).bare = (w.generator g).bare
    rw [((releases_releasePayload w fs k).other hk).1]
  | nothing _ _ hbooks =>
    refine World.bare_of_books (hbooks (· = g) ⟨?_, ?_⟩) rfl
    · rintro k hk rfl
      exact hstays hk
    · rintro t k ht hk rfl
      exact hop t ht hk

/-- The same of a generator whose stack control is outside of. -/
theorem bare_next (h : Sound δ m) (hg : g < m.world.generators.size)
    (hrun : (m.world.generator g).running = false)
    (hop : ∀ t, m.control = .task t → t.operates? ≠ some g) :
    ((m.next P).world.generator g).bare = (m.world.generator g).bare := by
  refine bare_next_of_stays hg (fun hleaves => ?_) hop
  simp [(h.running_iff_mem_chain g).mpr (tops_of_leaves hleaves).mem_chain] at hrun

/-- A move that is no part of an operation on a generator changes at most its handles, unless its
producer appends to its payload or control leaves its stack. -/
theorem body_next_of_stays (h : Sound δ m) (hg : g < m.world.generators.size)
    (hstays : m.leaves? P ≠ some g) (happend : ∀ v, m.appends? P ≠ some (g, v))
    (hop : ∀ t, m.control = .task t → t.operates? ≠ some g) :
    ((m.next P).world.generator g).body = (m.world.generator g).body := by
  have hbare : ((m.next P).world.generator g).bare = (m.world.generator g).bare :=
    bare_next_of_stays hg hstays hop
  have hcleanup : ((m.next P).world.generator g).cleanup = (m.world.generator g).cleanup := by
    have h : ((m.next P).world.generator g).bare.cleanup = (m.world.generator g).bare.cleanup := by
      rw [hbare]
    exact h
  have hpayload : ((m.next P).world.generator g).payload = (m.world.generator g).payload := by
    cases booking_next (P := P) h hg with
    | kept haccount => exact congrArg Account.payload haccount
    | appended v _ hadds =>
      obtain ⟨v', hadds⟩ := appends_of_contributes hg hadds
      exact absurd hadds (happend v')
    | lost hopen _ _ _ haccount | paid _ _ hopen _ _ _ haccount =>
      -- the cleanup would be gone
      rw [← hcleanup, show ((m.next P).world.generator g).cleanup = none from
        congrArg Account.cleanup haccount] at hopen
      cases hopen
    | discarded hopen _ _ haccount =>
      rw [← hcleanup, show ((m.next P).world.generator g).cleanup = none from
        congrArg Account.cleanup haccount] at hopen
      cases hopen
  have hbody (x : Generator C) : x.body = { x.bare with payload := x.payload } := rfl
  rw [hbody, hbare, hpayload, ← hbody]

/-- The same of a generator that control is not right on the stack of. -/
theorem body_next_of_not_tops (h : Sound δ m) (hg : g < m.world.generators.size)
    (htops : ¬ Tops g m.frames) (hop : ∀ t, m.control = .task t → t.operates? ≠ some g) :
    ((m.next P).world.generator g).body = (m.world.generator g).body :=
  body_next_of_stays h hg (fun hleaves => htops (tops_of_leaves hleaves))
    (fun _ happend => htops (tops_of_appends happend)) hop

/-- The same of a generator whose stack control is outside of. -/
theorem body_next (h : Sound δ m) (hg : g < m.world.generators.size)
    (hrun : (m.world.generator g).running = false)
    (hop : ∀ t, m.control = .task t → t.operates? ≠ some g) :
    ((m.next P).world.generator g).body = (m.world.generator g).body := by
  refine body_next_of_not_tops h hg (fun htops => ?_) hop
  simp [(h.running_iff_mem_chain g).mpr htops.mem_chain] at hrun

theorem stays_of_later {m' : Machine C} (h : Reachable P m) (hm : Later P m m')
    (hg : g < m.world.generators.size) :
    g < m'.world.generators.size ∧
      ((m'.world.generator g).cleanup = (m.world.generator g).cleanup ∨
        (m'.world.generator g).cleanup = none) := by
  induction hm with
  | refl => exact ⟨hg, .inl rfl⟩
  | @move m' hm ih =>
    obtain ⟨hlt, hbefore⟩ := ih
    have hbooking : Booking P g m' (m'.next P).world := booking_next (h.later hm).sound hlt
    refine ⟨Nat.lt_of_lt_of_le hlt (size_le_next m'), ?_⟩
    rcases hbefore with hsame | hnone
    · exact hbooking.stays.imp_left fun hkept => hkept.trans hsame
    · exact .inr (hbooking.cleanup hnone)
  | again _ _ _ ih => exact ih

/-- A cleanup that is gone does not come back. -/
theorem cleanup_of_later {m' : Machine C} (h : Reachable P m) (hm : Later P m m')
    (hg : g < m.world.generators.size) (hc : (m.world.generator g).cleanup = none) :
    g < m'.world.generators.size ∧ (m'.world.generator g).cleanup = none := by
  obtain ⟨hlt, hstays⟩ := stays_of_later h hm hg
  exact ⟨hlt, hstays.elim (fun hsame => hsame.trans hc) id⟩

end Coroutine.Machine
