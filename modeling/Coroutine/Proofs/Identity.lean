import Coroutine.Proofs.Cleanup
import Coroutine.Proofs.Lasting
import Coroutine.Proofs.Outcome

/-! The identity of exceptions, and their tracebacks. Main statement: over every run an operation
raises the very exception that its producer ended with, or that was thrown, and the traceback of an
exception lists the generators whose entry procedures ended with it, in order. -/

namespace Coroutine.Machine

variable {C : Type} {P : Program C} {δ : GeneratorId → Prop} {m m' m'' : Machine C}
  {ms : List (Machine C)} {e : Exception} {id : ExceptionId}

/-- What the next move adds to the traceback of the exception `id`: the name of the generator whose
entry procedure ends with it. An exception that was never made has no traceback. -/
def names (id : ExceptionId) (m : Machine C) : List String :=
  match m.control, m.frames with
  | .answer (.outcome (.error e)), .driving g :: _ =>
    if e.id = id ∧ id < m.world.ledger.tracebacks.size then [(m.world.generator g).name] else []
  | _, _ => []

/-- The generators whose entry procedures ended with the exception `id` in the moves from these
states, the latest state first. -/
def namesOf (id : ExceptionId) : List (Machine C) → List String
  | [] => []
  | m :: ms => namesOf id ms ++ m.names id

theorem traceback_credited (m : Machine C) (id : ExceptionId) :
    m.credited.ledger.traceback id = m.world.ledger.traceback id ++ m.names id := by
  have hnone (l : List String) : l = l ++ [] := (List.append_nil l).symm
  obtain ⟨w, control, fs⟩ := m
  rcases control with _ | _ | a | _ | _ | _
  case answer =>
    rcases a with _ | r | _ | _ | _
    case outcome =>
      rcases r with e | v
      · rcases fs with _ | ⟨f, fs⟩
        · exact hnone _
        · cases f
          case driving => exact Ledger.traceback_escape ..
          all_goals exact hnone _
      · rcases fs with _ | ⟨f, fs⟩
        · exact hnone _
        · cases f <;> exact hnone _
    all_goals exact hnone _
  all_goals exact hnone _

theorem traceback_next (P : Program C) (h : Sound δ m) (id : ExceptionId) :
    (m.next P).world.ledger.traceback id = m.world.ledger.traceback id ++ m.names id := by
  rw [(keeps_next P h).tracebacks, traceback_credited]

theorem traceback_of_run (h : Run P (m :: ms)) (id : ExceptionId) :
    m.world.ledger.traceback id = namesOf id ms := by
  refine Run.invariant (I := fun m ms => m.world.ledger.traceback id = namesOf id ms) ?_ ?_ ?_ h
  · intro _ _
    rfl
  · intro m ms hrun ih
    rw [traceback_next P hrun.reachable.sound, ih]
    rfl
  · intro m ms s _ hm ih
    have hnone : m.names id = [] := by
      unfold names
      rw [hm.1]
      split
      · next h => cases h
      · rfl
    rw [namesOf, hnone, List.append_nil]
    exact ih

/-- Moves lead from one state to another, and the exception `id` gets these names meanwhile. -/
inductive Escapes (P : Program C) (id : ExceptionId) : List String → Machine C → Machine C → Prop
  | refl (m : Machine C) : Escapes P id [] m m
  | move {ns : List String} {m m' : Machine C} : Escapes P id ns (m.next P) m' →
      Escapes P id (m.names id ++ ns) m m'

theorem Escapes.leads {ns : List String} (h : Escapes P id ns m m') : Leads P m m' := by
  induction h with
  | refl m => exact .refl m
  | move _ ih => exact .move ih

theorem Escapes.trans {ns ns' : List String} (h : Escapes P id ns m m')
    (h' : Escapes P id ns' m' m'') : Escapes P id (ns ++ ns') m m'' := by
  induction h with
  | refl => exact h'
  | move _ ih =>
    rw [List.append_assoc]
    exact .move (ih h')

theorem Escapes.traceback {ns : List String} (h : Escapes P id ns m m') (hm : Reachable P m) :
    m'.world.ledger.traceback id = m.world.ledger.traceback id ++ ns := by
  induction h with
  | refl => simp
  | move _ ih => rw [ih hm.move, traceback_next P hm.sound, List.append_assoc]

theorem escapes_of_within {fs : List (Frame C)} (h : Within P fs m m')
    (hsilent : ∀ m₁, Within P fs m m₁ → m₁.names id = []) : Escapes P id [] m m' := by
  induction h with
  | refl m => exact .refl m
  | @move m m' hfs hback _ ih =>
    have hrest := ih fun m₁ h => hsilent m₁ (.move hfs hback h)
    have hmove := Escapes.move hrest
    rwa [hsilent m (.refl m)] at hmove

theorem exceptions_le_next (P : Program C) (h : Sound δ m) :
    m.world.ledger.tracebacks.size ≤ (m.next P).world.ledger.tracebacks.size := by
  refine Nat.le_trans ?_ (keeps_next P h).exceptions
  unfold credited
  split
  · next r _ _ _ _ =>
    cases r with
    | ok => exact Nat.le_refl _
    | error => simp [credit, Ledger.escape]
  · exact Nat.le_refl _

theorem exceptions_le_of_leads (hm : Reachable P m) (h : Leads P m m') :
    m.world.ledger.tracebacks.size ≤ m'.world.ledger.tracebacks.size := by
  induction h with
  | refl => exact Nat.le_refl _
  | move _ ih => exact Nat.le_trans (exceptions_le_next P hm.sound) (ih hm.move)

/-! ### Exceptions that are raised again -/

/-- A producer that an exception goes through: its generator, the generator's name, and the frames of
the caller that the exception comes out to. -/
structure Level (C : Type) where
  generator : GeneratorId
  name : String
  caller : List (Frame C)

/-- The state in which the operation of a level has raised `e`. -/
def Level.raises (l : Level C) (e : Exception) (w : World C) : Machine C :=
  ⟨w, .answer (.progress (.error (.raised e))), l.caller⟩

/-- In `m` the entry procedure of a level has ended with `e`. What its generator owns is released
without a panic, and nothing else ends with `e` meanwhile. -/
structure EndsWith (P : Program C) (e : Exception) (l : Level C) (m : Machine C) : Prop where
  control : m.control = .answer (.outcome (.error e))
  frames : m.frames = .driving l.generator :: l.caller
  name : (m.world.generator l.generator).name = l.name
  settles : Settles P l.generator m
  silent : ∀ m', Within P l.caller (m.next P) m' → m'.names e.id = []

/-- The entry procedure of a level has ended with `e`, and whenever `e` comes out to the producer of
the next level, that producer ends with `e` as well. -/
def Reraises (P : Program C) (e : Exception) : Level C → List (Level C) → Machine C → Prop
  | l, [], m => EndsWith P e l m
  | l, outer :: levels, m => EndsWith P e l m ∧ ∀ w, Within P l.caller m (l.raises e w) →
    ∃ m', Within P (.driving outer.generator :: outer.caller) (l.raises e w) m' ∧
      Escapes P e.id [] (l.raises e w) m' ∧ Reraises P e outer levels m'

/-- The level that the caller is outside of. -/
def outermost : Level C → List (Level C) → Level C
  | l, [] => l
  | _, outer :: levels => outermost outer levels

theorem EndsWith.escapes {l : Level C} (h : EndsWith P e l m) (hm : Reachable P m)
    (he : e.id < m.world.ledger.tracebacks.size) :
    ∃ w, Within P l.caller m (l.raises e w) ∧ Escapes P e.id [l.name] m (l.raises e w) := by
  obtain ⟨w, control, frames⟩ := m
  obtain ⟨hcontrol, hframes, hname, hsettles, hsilent⟩ := h
  obtain rfl : control = _ := hcontrol
  obtain rfl : frames = _ := hframes
  obtain ⟨w', hback, -⟩ := within_of_reacts hm (.ends) hsettles
  refine ⟨w', hback, ?_⟩
  have hescapes := Escapes.move (escapes_of_within (hback.of_ne nofun) hsilent)
  have hnames : names e.id (⟨w, .answer (.outcome (.error e)), .driving l.generator :: l.caller⟩ :
      Machine C) = [l.name] := by
    simp only [names, true_and, if_pos he]
    rw [← hname]
  rwa [hnames] at hescapes

/-- An exception that is raised again through nested producers comes out as the same exception, with
their names. -/
theorem escapes_of_reraises {l : Level C} {levels : List (Level C)}
    (h : Reraises P e l levels m) (hm : Reachable P m)
    (he : e.id < m.world.ledger.tracebacks.size) :
    ∃ w, Escapes P e.id ((l :: levels).map Level.name) m ((outermost l levels).raises e w) := by
  induction levels generalizing l m with
  | nil =>
    obtain ⟨w, -, hescapes⟩ := EndsWith.escapes h hm he
    exact ⟨w, hescapes⟩
  | cons outer levels ih =>
    obtain ⟨hends, hnext⟩ := h
    obtain ⟨w, hback, hescapes⟩ := hends.escapes hm he
    obtain ⟨m', -, hsilent, hrest⟩ := hnext w hback
    have hto := hescapes.trans hsilent
    obtain ⟨w', houter⟩ := ih hrest (hm.leads hto.leads)
      (Nat.lt_of_lt_of_le he (exceptions_le_of_leads hm hto.leads))
    exact ⟨w', hto.trans houter⟩

/-- What a run keeps of the exceptions in it. -/
structure Identity (P : Program C) (m : Machine C) (ms : List (Machine C)) : Prop where
  /-- An operation that is begun now raises no other exception than the one that its producer ends
  with, or the one that is thrown. -/
  raised : ∀ t g w b e, m.control = .task t → t.asks? = some g →
    Within P m.frames m ⟨w, .answer b, m.frames⟩ → b.raised? = some e →
    Origin P g e m.frames m ⟨w, .answer b, m.frames⟩
  /-- An iterator hands out the exception that its operation raised, and then drops its handle. -/
  iterated : ∀ e g k fs, m.control = .answer (.progress (.error (.raised e))) →
    m.frames = .pulling g k :: .scope (.iterator (some g)) :: fs →
    m.next P = ⟨m.world, .task (.dropHandle g),
      .resuming (k (.failed (.raised e))) :: .scope (.iterator none) :: fs⟩
  iteratedNamed : ∀ e it g left items fs, m.control = .answer (.progress (.error (.raised e))) →
    m.frames = .pullingNamed it g left items :: fs →
    m.next P = ⟨m.world, .task (.dropHandle g),
      .endingNamed it left items (.failed (.raised e)) :: fs⟩
  /-- The traceback of an exception lists the generators whose entry procedures have ended with it,
  and nothing else. -/
  traceback : ∀ id, m.world.ledger.traceback id = namesOf id ms
  /-- A new exception is none of those that there are, whatever it wraps. -/
  fresh : ∀ f, m.world.ledger.tracebacks.size ≤ (m.world.ledger.make (.fresh f)).1.id
  wrapped : ∀ c error k, m.control = .code c → P.next c = .wrap error k →
    ∃ w, m.next P = ⟨w, .code (k ⟨m.world.ledger.tracebacks.size, .operation error⟩), m.frames⟩
  /-- An exception that nested producers raise again comes out as it is, with their names. -/
  reraised : ∀ e l levels, Reraises P e l levels m → e.id < m.world.ledger.tracebacks.size →
    ∃ w, Leads P m ((outermost l levels).raises e w) ∧
      w.ledger.traceback e.id = m.world.ledger.traceback e.id ++ (l :: levels).map Level.name

theorem size_le_id_make (l : Ledger) (f : FailureSpec) :
    l.tracebacks.size ≤ (l.make (.fresh f)).1.id := by
  simp only [Ledger.make, Ledger.createMet, Ledger.create]
  exact Ledger.size_le_makeFailure l f

theorem size_report (w : World C) (error : OpError) :
    (w.report error).2.ledger.tracebacks.size = w.ledger.tracebacks.size := by
  cases error with
  | raised e => exact Ledger.size_meet ..
  | _ => rfl

/-- Over every run exceptions keep their identity, and their tracebacks are right. -/
theorem identity_of_run (h : Run P (m :: ms)) : Identity P m ms := by
  have hm := h.reachable
  have htraceback := traceback_of_run h
  obtain ⟨w, control, fs⟩ := m
  constructor
  case raised =>
    intro t g w' b e hcontrol ht hwithin hb
    obtain rfl : control = _ := hcontrol
    exact origin_of_asks hm ht hwithin hb
  case iterated =>
    intro e g k fs' hcontrol hframes
    obtain rfl : control = _ := hcontrol
    obtain rfl : fs = _ := hframes
    rfl
  case iteratedNamed =>
    intro e it g left items fs' hcontrol hframes
    obtain rfl : control = _ := hcontrol
    obtain rfl : fs = _ := hframes
    rfl
  case traceback => exact htraceback
  case fresh => exact size_le_id_make _
  case wrapped =>
    intro c error k hcontrol hP
    obtain rfl : control = _ := hcontrol
    rw [← size_report w error]
    exact ⟨_, by simp only [next, hP, grant]; rfl⟩
  case reraised =>
    intro e l levels hreraises he
    obtain ⟨w', hescapes⟩ := escapes_of_reraises hreraises hm he
    exact ⟨w', hescapes.leads, hescapes.traceback hm⟩

/-- The code of two producers: one raises an exception, and the other one makes it, pulls on it and
raises the exception again. -/
inductive Relay
  | raise
  | make
  | hold
  | pull
  | ended (e : Exception)

def relaying : Program Relay where
  next
    | .raise => .wrap (.exhausted "") .ended
    | .make => .holdGenerator "g" ⟨"inner", minStackSize, none, [], [], none, .raise⟩ .hold
    | .hold => .holdIterator "g" true fun _ => .pull
    | .pull => .pull fun
      | .failed (.raised e) => .ended e
      | _ => .raise
    | .ended e => .finish (.error e)

/-- An exception that two producers have raised has their names, the inner one's first. -/
theorem identity_of_relaying : ∃ (m : Machine Relay) (ms : List (Machine Relay)),
    Identity relaying m ms ∧ namesOf 0 ms = ["inner", "outer"] := by
  have hcreate : Reachable relaying
      ⟨{ stackMemory := minStackSize },
        .task (.step (.create "g" ⟨"outer", minStackSize, none, [], [], none, .make⟩)), []⟩ :=
    .start _ _
  have hresume := (hcreate.leads (leads_run relaying 2 _)).again (.resume "g" none)
    ⟨rfl, .inl ⟨_, rfl⟩⟩
  obtain ⟨ms, hrun⟩ := reachable_iff_run.mp (hresume.leads (leads_run relaying 40 _))
  have hidentity := identity_of_run hrun
  exact ⟨_, ms, hidentity, (hidentity.traceback 0).symm.trans rfl⟩

end Coroutine.Machine
