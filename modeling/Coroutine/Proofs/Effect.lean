import Coroutine.Proofs.Sound.Caller
import Coroutine.Proofs.Traceback

/-! What a move can do, said once for the whole machine: which edits it may make in the world, each
with the state of the machine that it is made in, and how the control and the frames go on. What a
move leaves alone is read off here, without a look at the function that makes it. -/

namespace Coroutine

variable {C : Type}

/-! ### What the account speaks of -/

/-- What a generator owns that its cleanup gets. -/
structure Account (C : Type) where
  plain : Bool
  payload : Option (List Value)
  cleanup : Option (Cleanup C)

/-- The account of a generator. -/
def Generator.account (x : Generator C) : Account C := ⟨x.plain, x.payload, x.cleanup⟩

namespace Event

/-- Whether the event says what became of the payload of `g`: its cleanup got it, or it stays in use
for good. -/
def settles (g : GeneratorId) : Event → Bool
  | cleanup h _ _ | logged (.leaksPayload h _) => h == g
  | _ => false

/-- The record of `g` that the event is, if it is one. -/
def record? (g : GeneratorId) : Event → Option Record
  | logged r => if r.generator? = some g then some r else none
  | _ => none

end Event

/-- Whether the record only comments on an operation. -/
def Record.isRemark : Record → Bool
  | injects .. | raisesInjected .. | closes .. => true
  | ignoredExit .. | leaksPayload .. | failedToClose .. => true
  | _ => false

namespace Task

/-- The generator that a task ends. -/
def ends? : Task C → Option GeneratorId
  | finalize g | releaseEntry g | releasePayload g => some g
  | _ => none

/-- The generator that the log can name when the task is done. It does not say whose fiber or whose
entry procedure is released. -/
def recorded? : Task C → Option GeneratorId
  | finalize _ | releaseEntry _ => none
  | t => t.operates?

theorem operates?_of_recorded? {t : Task C} {g : GeneratorId} (h : t.recorded? = some g) :
    t.operates? = some g := by
  cases t <;> first | exact h | cases h

end Task

/-- The generator that is ended once the frame gets its answer. -/
@[simp] def Frame.ends? : Frame C → Option GeneratorId
  | destroying g | emptying g => some g
  | _ => none

/-- The generators whose ends the frames wait for, the innermost first. -/
def endings (fs : List (Frame C)) : List GeneratorId := fs.filterMap Frame.ends?

@[simp] theorem endings_nil : endings ([] : List (Frame C)) = [] := rfl

@[simp] theorem endings_cons (f : Frame C) (fs : List (Frame C)) :
    endings (f :: fs) = f.ends?.toList ++ endings fs := by
  cases f <;> rfl

theorem endings_cons_of_none {f : Frame C} {fs : List (Frame C)} (hf : f.ends? = none) :
    endings (f :: fs) = endings fs := by
  rw [endings_cons, hf]
  rfl

@[simp] theorem endings_stackFiber (scopes : List (Scope C)) (captures : List (HeldGuard C))
    (rest : List (Frame C)) : endings (stackFiber scopes captures rest) = endings rest := by
  induction scopes with
  | nil => simp
  | cons s scopes ih => simpa using ih

/-- The generator that the control is about to switch into or out of, or has just switched. -/
def Control.switches? : Control C → Option GeneratorId
  | task (.start g) | task (.drive g) | task (.wake g _) | task (.suspended g) => some g
  | _ => none

/-- The iterator that a step names, pulls or drops. -/
def Step.iterator? (w : World C) : Step C → Option String
  | .iterate name it _ => (w.handles.find? name).map fun _ => it
  | .pull it _ | .dropIterator it => some it
  | _ => none

/-- The iterator that a frame gives its name back. -/
def Frame.iterator? : Frame C → Option String
  | .pullingNamed it _ _ _ | .endingNamed it _ _ _ => some it
  | _ => none

/-- Why an operation on top of `fs` may begin to unwind frames. -/
inductive Cause (fs : List (Frame C)) : Unwinding → Prop
  /-- User code panics: only such panics have a text of their own. -/
  | user (message : String) : Cause fs (.panic (.text message))
  | fault (f : Fault) : Cause fs (.panic (.fault f))
  /-- A producer yielded in answer to a close, -/
  | ignored (name : String) : panicking fs = false → Cause fs (.panic (.ignoredExit name))
  /-- or the stack of a fiber is unwound by force. -/
  | cancel : panicking fs = false → Cause fs .cancel

namespace Machine

/-- The generators that are being ended, the innermost first. -/
def endings (m : Machine C) : List GeneratorId :=
  match m.control with
  | .task t => t.ends?.toList ++ Coroutine.endings m.frames
  | _ => Coroutine.endings m.frames

/-- The iterator that the next move may give its name or take it away from. -/
def iterator? (m : Machine C) : Option String :=
  match m.control, m.frames with
  | .task (.step s), _ => s.iterator? m.world
  | .answer _, f :: _ | .unwind _, f :: _ => f.iterator?
  | _, _ => none

/-- The definition of the generator that the next move makes, if it makes one. -/
def makes? (P : Program C) (m : Machine C) : Option (Definition C) :=
  match m.control with
  | .task (.step (.create _ d)) => some d
  | .code c =>
    match P.next c with
    | .holdGenerator _ d _ => some d
    | _ => none
  | _ => none

/-- The generator to whose payload the next move appends, and the value, if it appends one. -/
def appends? (P : Program C) (m : Machine C) : Option (GeneratorId × Value) :=
  match m.control with
  | .code c =>
    match P.next c with
    | .append v _ => (producer? m.frames).map (·, v)
    | _ => none
  | _ => none

/-- The generator whose stack control leaves with the next move, if it leaves one. -/
def leaves? (P : Program C) (m : Machine C) : Option GeneratorId :=
  match m.control with
  | .code c =>
    match P.next c with
    | .yield _ _ => producer? m.frames
    | _ => none
  | .answer _ | .unwind _ => m.frames.head?.bind Frame.entered?
  | _ => none

/-- The world in which an exception that escaped from `g` has got its name. -/
def credit (w : World C) (g : GeneratorId) : Except Exception Value → World C
  | .ok _ => w
  | .error e => { w with ledger := w.ledger.escape e (w.generator g).name }

/-- The world that the next move finds, where an exception that escapes with it has got its
generator's name. -/
def credited (m : Machine C) : World C :=
  match m.control, m.frames with
  | .answer (.outcome r), .driving g :: _ => credit m.world g r
  | _, _ => m.world

theorem credited_eq (m : Machine C) : ∃ l, m.credited = { m.world with ledger := l } := by
  unfold credited
  split
  · next r _ _ _ _ => cases r <;> exact ⟨_, rfl⟩
  · exact ⟨_, rfl⟩

/-! ### Edits of the world -/

/-- The next move can enter records of `g`, or switch into or out of it: an operation is being done
on it, or its producer yields. -/
inductive Acts (P : Program C) (g : GeneratorId) (m : Machine C) : Prop
  | operates {t : Task C} : m.control = .task t → t.recorded? = some g → Acts P g m
  | yields {c : C} {v : Value} {k : Except Exception (Option Value) → C} :
      m.control = .code c → P.next c = .yield v k → producer? m.frames = some g → Acts P g m

/-- The next move can change what `g` looks like: an operation is being done on it, or control
leaves its stack. -/
inductive Concerns (P : Program C) (g : GeneratorId) (m : Machine C) : Prop
  | operates {t : Task C} : m.control = .task t → t.operates? = some g → Concerns P g m
  | leaves : m.leaves? P = some g → Concerns P g m

/-- The next move can change the account of `g`. -/
inductive Pays (P : Program C) (g : GeneratorId) (m : Machine C) : Prop
  | releases : m.control = .task (.releasePayload g) → Pays P g m
  | appends {v : Value} : m.appends? P = some (g, v) → Pays P g m

/-- What the next move can enter in the history. -/
structure Tells (P : Program C) (m : Machine C) (e : Event) : Prop where
  settles : ∀ g, e.settles g = true → m.control = .task (.releasePayload g)
  records : ∀ g r, e.record? g = some r → r.isRemark = true ∨ Acts P g m

/-- The worlds that the next move from `m` can make of the one that it finds, edit by edit. -/
inductive Edited (P : Program C) (m : Machine C) : World C → Prop
  | start : Edited P m m.credited
  | note {w : World C} {e : Event} : Edited P m w → Tells P m e → Edited P m (w.note e)
  | alter {w : World C} {g : GeneratorId} {φ : Generator C → Generator C} : Edited P m w →
      Concerns P g m → (∀ x, (φ x).handles = x.handles) → (∀ x, (φ x).account = x.account) →
      Edited P m (w.modify g φ)
  | pay {w : World C} {g : GeneratorId} {φ : Generator C → Generator C} : Edited P m w →
      Pays P g m → (∀ x, (φ x).handles = x.handles) → Edited P m (w.modify g φ)
  /-- Only a generator that has a handle, a name at least, gets another one. -/
  | retain {w : World C} {g : GeneratorId} : Edited P m w →
      ((m.world.generator g).handles = 0 → ∃ name, m.world.handles.find? name = some g) →
      Edited P m (w.retain g)
  | drop {w : World C} {g : GeneratorId} : Edited P m w → m.control = .task (.dropHandle g) →
      Edited P m (w.modify g fun x => { x with handles := x.handles - 1 })
  | add {w : World C} {d : Definition C} : Edited P m w → m.makes? P = some d →
      Edited P m (w.addGenerator d).2
  | guards {w : World C} {n : Nat} : Edited P m w → Edited P m { w with guards := n }
  | handles {w : World C} {t : Table GeneratorId} : Edited P m w →
      Edited P m { w with handles := t }
  | fibers {w : World C} {t : Table (Fiber C)} : Edited P m w → Edited P m { w with fibers := t }
  | iterators {w : World C} {t : Table (Option GeneratorId)} : Edited P m w →
      (∀ it, m.iterator? ≠ some it → t.find? it = w.iterators.find? it) →
      Edited P m { w with iterators := t }
  /-- Exceptions are made and met, and the tracebacks stay. -/
  | ledger {w : World C} {l : Ledger} : Edited P m w → l.traceback = w.ledger.traceback →
      w.ledger.tracebacks.size ≤ l.tracebacks.size → Edited P m { w with ledger := l }

/-! ### Where the control and the frames go -/

/-- The next move can begin to end `g`. -/
inductive Endable (g : GeneratorId) (m : Machine C) : Prop
  | thrown {e : Exception} : m.control = .task (.throw g e) →
      (m.world.generator g).running = false → Endable g m
  | terminated : m.control = .task (.terminated g) → Endable g m
  | unended : (m.world.generator g).status ≠ .finished → Endable g m

/-- What becomes of the end that a move takes up, if there is one: `y` is the generator that is
being ended, and below the frames `fs` the others wait. -/
inductive Due (m : Machine C) (y : Option GeneratorId) (fs : List (Frame C)) (m' : Machine C) : Prop
  /-- It is over, -/
  | made : m'.endings = Coroutine.endings fs → Due m y fs m'
  /-- or it goes on, -/
  | kept : m'.endings = y.toList ++ Coroutine.endings fs → Due m y fs m'
  /-- or another one begins above it. -/
  | begun {g : GeneratorId} : Endable g m → m'.control = .task (.finalize g) →
      m'.endings = g :: (y.toList ++ Coroutine.endings fs) → Due m y fs m'

/-- Frames are unwound already for `u`, or are to be again after a release. -/
inductive Underway (u : Unwinding) (m : Machine C) : Prop
  | still : m.control = .unwind u → Underway u m
  | again {a : Answer} {fs : List (Frame C)} : m.control = .answer a →
      m.frames = .unwinding u :: fs → Underway u m

/-- What the next move from `m` does on top of the frames `fs`, when it takes up the end of `y`. -/
structure Effect (P : Program C) (m : Machine C) (y : Option GeneratorId) (fs : List (Frame C))
    (m' : Machine C) : Prop where
  edited : Edited P m m'.world
  above : fs <:+ m'.frames
  ends : Due m y fs m'
  switches : ∀ g, m'.control.switches? = some g → Acts P g m
  unwinds : ∀ u, m'.control = .unwind u → Cause m.frames u ∨ Underway u m

/-- The frames that the next move from `m` leaves where they are, and the generator that is being
ended by what it takes away from the rest. -/
inductive Base (P : Program C) (m : Machine C) : Option GeneratorId → List (Frame C) → Prop
  | task {t : Task C} : m.control = .task t → Base P m t.ends? m.frames
  | all : (∀ t, m.control ≠ .task t) → Base P m none m.frames
  /-- The frame on top gets an answer, or is left. -/
  | top {f : Frame C} {fs : List (Frame C)} :
      ((∃ a, m.control = .answer a) ∨ ∃ u, m.control = .unwind u) → m.frames = f :: fs →
      Base P m f.ends? fs
  /-- An iterator that ends lets go of its source. -/
  | pulled {a : Answer} {g : GeneratorId} {k : Item OpError → C} {source : Option GeneratorId}
      {fs : List (Frame C)} : m.control = .answer a →
      m.frames = .pulling g k :: .scope (.iterator source) :: fs → Base P m none fs
  | leaves {c c' : C} {s : Scope C} {fs : List (Frame C)} : m.control = .code c →
      P.next c = .leave c' → m.frames = .scope s :: fs → Base P m none fs
  | yields {c : C} {v : Value} {k : Except Exception (Option Value) → C} {scopes : List (Scope C)}
      {captures : List (HeldGuard C)} {f : Frame C} {fs : List (Frame C)} : m.control = .code c →
      P.next c = .yield v k → m.frames = stackFiber scopes captures (f :: fs) → f.ends? = none →
      Base P m none fs

/-- A move does what it does on top of the frames that it leaves where they are. -/
def Does (P : Program C) (m m' : Machine C) : Prop := ∃ y fs, Base P m y fs ∧ Effect P m y fs m'

variable {P : Program C} {m m' : Machine C} {w w' : World C} {g : GeneratorId}
  {y : Option GeneratorId} {fs : List (Frame C)} {f : Frame C} {u : Unwinding}

theorem Acts.concerns (h : Acts P g m) : Concerns P g m := by
  cases h with
  | operates hcontrol ht => exact .operates hcontrol (Task.operates?_of_recorded? ht)
  | yields hcontrol hP hproducer => exact .leaves (by simp [leaves?, hcontrol, hP, hproducer])

namespace Edited

/-- An event that is no record and does not settle anything. -/
theorem tell {e : Event} (h : Edited P m w) (hsettles : ∀ g, e.settles g = false)
    (hrecord : ∀ g, e.record? g = none) : Edited P m (w.note e) := by
  refine h.note ⟨fun g hg => ?_, fun g r hr => ?_⟩
  · cases (hsettles g).symm.trans hg
  · cases (hrecord g).symm.trans hr

theorem log {r : Record} (h : Edited P m w)
    (hsettles : ∀ g, (Event.logged r).settles g = true → m.control = .task (.releasePayload g))
    (hr : ∀ g, r.generator? = some g → r.isRemark = true ∨ Acts P g m) : Edited P m (w.log r) := by
  refine h.note ⟨hsettles, fun g r' hr' => ?_⟩
  obtain ⟨hgenerator, rfl⟩ : r.generator? = some g ∧ r = r' := by
    simpa [Event.record?] using hr'
  exact hr g hgenerator

/-- A record that names no generator. -/
theorem mention {r : Record} (h : Edited P m w) (hr : r.generator? = none) :
    Edited P m (w.log r) := by
  refine h.log (fun g hg => ?_) fun g hg => ?_
  · cases r <;> first | cases hg | cases hr
  · cases hr.symm.trans hg

theorem remark {r : Record} (h : Edited P m w) (hr : r.isRemark = true)
    (hsettles : ∀ g, (Event.logged r).settles g = false) : Edited P m (w.log r) :=
  h.log (fun g hg => nomatch (hsettles g).symm.trans hg) fun _ _ => .inl hr

theorem record {r : Record} (h : Edited P m w) (hg : Acts P g m) (hr : r.generator? = some g)
    (hsettles : ∀ g, (Event.logged r).settles g = false) : Edited P m (w.log r) := by
  refine h.log (fun g hg => nomatch (hsettles g).symm.trans hg) fun k hk => .inr ?_
  obtain rfl := Option.some.inj (hr.symm.trans hk)
  exact hg

theorem apply {op : Operation} {a : Action} (h : Edited P m w) (hg : Acts P g m)
    (happly : w.apply g op = .ok (w', a)) : Edited P m w' := by
  simp only [World.apply] at happly
  split at happly
  · cases happly
  · cases happly
    refine record ?_ hg rfl fun _ => rfl
    split
    · exact h
    · exact h.alter hg.concerns (fun _ => rfl) fun _ => rfl

theorem create (h : Edited P m w) (failure : Failure) :
    Edited P m { w with ledger := (w.ledger.create failure).2 } :=
  h.ledger (Ledger.traceback_create ..) (Ledger.size_create .. ▸ Nat.le_succ _)

theorem meet (h : Edited P m w) (e : Exception) :
    Edited P m { w with ledger := (w.ledger.meet e).2 } :=
  h.ledger (Ledger.traceback_meet ..) (Nat.le_of_eq (Ledger.size_meet ..).symm)

theorem call (h : Edited P m w) (name : String) (e : Exception) :
    Edited P m { w with ledger := w.ledger.call name e } :=
  h.ledger rfl (Nat.le_refl _)

theorem make (h : Edited P m w) (e : ExceptionSpec) : Edited P m (w.make e).2 :=
  h.ledger (Ledger.traceback_make ..) (Ledger.size_le_make ..)

theorem report (h : Edited P m w) (e : OpError) : Edited P m (w.report e).2 := by
  cases e with
  | raised e => exact h.meet e
  | _ => exact h

theorem reportItem (h : Edited P m w) (item : Item OpError) :
    Edited P m (Machine.reportItem w item).2 := by
  cases item with
  | failed e => exact h.report e
  | _ => exact h

theorem reportProgress (h : Edited P m w) (r : Except OpError (Progress Value Value)) :
    Edited P m (Machine.reportProgress w r).2 := by
  rcases r with e | _ | _
  · exact h.report e
  · exact h
  · exact h

theorem reportClosed (h : Edited P m w) (r : Except OpError Unit) :
    Edited P m (Machine.reportClosed w r).2 := by
  rcases r with e | _
  · exact h.report e
  · exact h

theorem holdGuards (h : Edited P m w) (guards : List (Guard C)) :
    Edited P m (w.holdGuards guards).2 := by
  rw [World.holdGuards_snd]
  exact h.guards

end Edited

namespace Effect

theorem answers (h : Edited P m w) (a : Answer) : Effect P m y fs (answer w fs a) :=
  ⟨h, List.suffix_refl fs, .made rfl, nofun, nofun⟩

theorem runs (h : Edited P m w) (c : C) : Effect P m y fs (code w fs c) :=
  ⟨h, List.suffix_refl fs, .made rfl, nofun, nofun⟩

/-- The frame on top cannot take its answer. -/
theorem halts (h : Edited P m w) : Effect P m y fs ⟨w, .stuck, fs⟩ :=
  ⟨h, List.suffix_refl fs, .made rfl, nofun, nofun⟩

theorem raises (h : Edited P m w) (hu : Cause m.frames u) :
    Effect P m y fs ⟨w, .unwind u, fs⟩ := by
  refine ⟨h, List.suffix_refl fs, .made rfl, nofun, fun u' hu' => ?_⟩
  cases hu'
  exact .inl hu

theorem faults (h : Edited P m w) (broken : Fault) : Effect P m y fs (fault w fs broken) :=
  raises h (.fault broken)

theorem passes (h : Edited P m w) (hu : Underway u m) : Effect P m y fs ⟨w, .unwind u, fs⟩ := by
  refine ⟨h, List.suffix_refl fs, .made rfl, nofun, fun u' hu' => ?_⟩
  cases hu'
  exact .inr hu

/-- A task is done next that neither ends a generator nor switches. -/
theorem asks {t : Task C} (h : Edited P m w) (hends : t.ends? = none)
    (hcalm : (Control.task t).switches? = none) : Effect P m y fs (task w fs t) := by
  refine ⟨h, List.suffix_refl fs, .made ?_, fun g hg => ?_, nofun⟩
  · simp [endings, task, hends]
  · cases hcalm.symm.trans hg

theorem hands {t : Task C} (h : Edited P m w) (hg : Acts P g m) (hends : t.ends? = none)
    (hswitches : (Control.task t).switches? = some g) : Effect P m y fs (task w fs t) := by
  refine ⟨h, List.suffix_refl fs, .made ?_, fun k hk => ?_, nofun⟩
  · simp [endings, task, hends]
  · obtain rfl := Option.some.inj (hswitches.symm.trans hk)
    exact hg

/-- The end that is taken up goes on. -/
theorem goes {t : Task C} (h : Edited P m w) (hends : t.ends? = some g) :
    Effect P m (some g) fs (task w fs t) := by
  refine ⟨h, List.suffix_refl fs, .kept ?_, fun k hk => ?_, nofun⟩
  · simp [endings, task, hends]
  · have hcalm : (Control.task t).switches? = none := by cases t <;> first | rfl | cases hends
    cases hcalm.symm.trans hk

theorem begins (h : Edited P m w) (hg : Endable g m) :
    Effect P m none fs (task w fs (.finalize g)) :=
  ⟨h, List.suffix_refl fs, .begun hg rfl rfl, nofun, nofun⟩

/-- Frames that end no generator can be on top. -/
theorem below {fs' : List (Frame C)} (h : Effect P m y fs' m') (hfs : fs <:+ fs')
    (hends : Coroutine.endings fs' = Coroutine.endings fs) : Effect P m y fs m' where
  edited := h.edited
  above := hfs.trans h.above
  ends := by
    cases h.ends with
    | made hmade => exact .made (hmade.trans hends)
    | kept hkept => exact .kept (hends ▸ hkept)
    | begun hg hfinal hbegun => exact .begun hg hfinal (hends ▸ hbegun)
  switches := h.switches
  unwinds := h.unwinds

theorem under (f : Frame C) (h : Effect P m y (f :: fs) m') (hf : f.ends? = none) :
    Effect P m y fs m' :=
  h.below (List.suffix_cons f fs) (endings_cons_of_none hf)

theorem under_stackFiber (scopes : List (Scope C)) (captures : List (HeldGuard C))
    (h : Effect P m y (stackFiber scopes captures fs) m') : Effect P m y fs m' :=
  h.below (suffix_stackFiber ..) (endings_stackFiber ..)

/-- The end that is taken up waits in a frame. -/
theorem beneath (f : Frame C) (h : Effect P m none (f :: fs) m') : Effect P m f.ends? fs m' where
  edited := h.edited
  above := (List.suffix_cons f fs).trans h.above
  ends := by
    cases h.ends with
    | made hends | kept hends => exact .kept (by simpa using hends)
    | begun hg hfinal hends => exact .begun hg hfinal (by simpa using hends)
  switches := h.switches
  unwinds := h.unwinds

end Effect

/-- The ends that are in progress are those that wait in the frames and the one that is taken up. -/
theorem Base.endings (h : Base P m y fs) : m.endings = y.toList ++ Coroutine.endings fs := by
  cases h with
  | task hcontrol => simp [Machine.endings, hcontrol]
  | all hcontrol =>
    unfold Machine.endings
    split
    · next t ht => exact absurd ht (hcontrol t)
    · rfl
  | top hcontrol hframes =>
    rcases hcontrol with ⟨a, hcontrol⟩ | ⟨u, hcontrol⟩ <;>
      simp [Machine.endings, hcontrol, hframes]
  | pulled hcontrol hframes | leaves hcontrol _ hframes =>
    simp [Machine.endings, hcontrol, hframes]
  | yields hcontrol _ hframes hf =>
    simp [-Coroutine.endings_cons, Machine.endings, hcontrol, hframes, endings_cons_of_none hf]

end Machine

end Coroutine
