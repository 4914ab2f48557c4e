import Coroutine.Proofs.Reachable

/-! The past plays no part. Main statement: a move does the same in two worlds that differ in the events
that have happened, and the same events happen. This compares what one function does in two worlds, so
it does not follow from what a move may do in one. -/

namespace Coroutine

variable {C : Type}

namespace World

/-- The world in which these events happened before all others. -/
def after (w : World C) (es : List Event) : World C := { w with history := w.history ++ es }

/-- The world in which nothing has happened yet. -/
def forget (w : World C) : World C := { w with history := [] }

/-- The two worlds differ at most in what has happened in them. -/
def Resembles (w w' : World C) : Prop := w.forget = w'.forget

variable {w w' : World C} {es : List Event} {g : GeneratorId}

theorem Resembles.eq (h : w.Resembles w') : w'.forget = w.forget := Eq.symm h

@[simp] theorem generator_after : (w.after es).generator g = w.generator g := rfl

@[simp] theorem handles_after : (w.after es).handles = w.handles := rfl

@[simp] theorem iterators_after : (w.after es).iterators = w.iterators := rfl

@[simp] theorem fibers_after : (w.after es).fibers = w.fibers := rfl

@[simp] theorem ledger_after : (w.after es).ledger = w.ledger := rfl

@[simp] theorem stackMemory_after : (w.after es).stackMemory = w.stackMemory := rfl

@[simp] theorem modify_after (φ : Generator C → Generator C) :
    (w.after es).modify g φ = (w.modify g φ).after es := rfl

@[simp] theorem note_after (e : Event) : (w.after es).note e = (w.note e).after es := rfl

@[simp] theorem log_after (r : Record) : (w.after es).log r = (w.log r).after es := rfl

@[simp] theorem retain_after : (w.after es).retain g = (w.retain g).after es := rfl

@[simp] theorem holdGuards_after (guards : List (Guard C)) :
    (w.after es).holdGuards guards = ((w.holdGuards guards).1, (w.holdGuards guards).2.after es) := by
  induction guards generalizing w with
  | nil => rfl
  | cons guard rest ih =>
    have hrest := ih (w := { w with guards := w.guards + 1 })
    simp only [holdGuards]
    rw [show ({ w.after es with guards := (w.after es).guards + 1 } : World C) =
      ({ w with guards := w.guards + 1 } : World C).after es from rfl, hrest]
    rfl

@[simp] theorem addGenerator_after (d : Definition C) :
    (w.after es).addGenerator d = ((w.addGenerator d).1, (w.addGenerator d).2.after es) := by
  simp only [addGenerator, holdGuards_after]
  rfl

@[simp] theorem report_after (e : OpError) :
    (w.after es).report e = ((w.report e).1, (w.report e).2.after es) := rfl

@[simp] theorem make_after (e : ExceptionSpec) :
    (w.after es).make e = ((w.make e).1, (w.make e).2.after es) := rfl

@[simp] theorem apply_after (op : Operation) :
    (w.after es).apply g op = (w.apply g op).map fun p => (p.1.after es, p.2) := by
  by_cases hillegal : (transition (w.generator g).status op).2 = .illegal
  · simp [apply, hillegal, Except.map]
  · by_cases hstart : (transition (w.generator g).status op).2 = .start <;>
      simp [apply, hillegal, hstart, Except.map]

end World

namespace Machine

/-- The machine in whose world these events happened before all others. -/
def after (m : Machine C) (es : List Event) : Machine C := { m with world := m.world.after es }

variable {w : World C} {es : List Event} {g : GeneratorId} {fs : List (Frame C)}

open World

@[simp] theorem after_mk {c : Control C} :
    (⟨w, c, fs⟩ : Machine C).after es = ⟨w.after es, c, fs⟩ := rfl

@[simp] theorem after_ite {p : Prop} [Decidable p] {a b : Machine C} :
    (if p then a else b).after es = if p then a.after es else b.after es :=
  apply_ite (Machine.after · es) p a b

/-! ### Operations -/

theorem resume_after (sent : Option Value) :
    resume (w.after es) fs g sent = (resume w fs g sent).after es := by
  simp only [resume, generator_after, apply_after, after_ite]
  rcases w.apply g .resume with f | ⟨w', action⟩
  · rfl
  · cases action with
    | switchIn =>
      cases sent with
      | none => rfl
      | some v =>
        simp only [after_ite]
        rfl
    | _ => rfl

theorem start_after : start (w.after es) fs g = (start w fs g).after es := by
  simp only [start, generator_after, after_ite]
  cases (w.generator g).entry with
  | none => rfl
  | some entry =>
    simp only [after_ite]
    rfl

theorem throwInto_after (e : Exception) :
    throwInto (w.after es) fs g e = (throwInto w fs g e).after es := by
  simp only [throwInto, generator_after, apply_after, after_ite]
  rcases w.apply g .throw with f | ⟨w', action⟩
  · rfl
  · cases action with
    | switchIn =>
      simp only [after_ite]
      rfl
    | _ => rfl

theorem close_after : close (w.after es) fs g = (close w fs g).after es := by
  simp only [close, generator_after, apply_after, after_ite]
  rcases w.apply g .close with f | ⟨w', action⟩
  · rfl
  · cases action with
    | switchIn =>
      simp only [after_ite]
      rfl
    | _ => rfl

theorem drive_after : drive (w.after es) fs g = (drive w fs g).after es := by
  simp only [drive, generator_after]
  rcases (w.generator g).fiber with _ | ⟨size, state⟩
  · rfl
  · cases state with
    | fresh entry =>
      simp only [after_ite]
      rfl
    | _ => rfl

theorem wake_after (k : Except Exception (Option Value) → C) :
    wake (w.after es) fs g k = (wake w fs g k).after es := by
  simp only [wake, generator_after]
  cases (w.generator g).error <;> rfl

theorem suspended_after : suspended (w.after es) fs g = (suspended w fs g).after es := by
  simp only [suspended, apply_after]
  rcases w.apply g .yielded with f | ⟨w', action⟩
  · rfl
  · simp only [Except.map, generator_after]
    cases (w'.generator g).value <;> rfl

theorem terminated_after : terminated (w.after es) fs g = (terminated w fs g).after es := by
  simp only [terminated, apply_after]
  rcases w.apply g .terminated with f | ⟨w', action⟩ <;> rfl

theorem abandon_after : abandon (w.after es) fs g = (abandon w fs g).after es := by
  simp only [abandon, generator_after, apply_after]
  cases (w.generator g).status with
  | unused => cases w.apply g .close <;> rfl
  | running => cases w.apply g .terminated <;> rfl
  | finished => rfl

theorem finalize_after : finalize (w.after es) fs g = (finalize w fs g).after es := by
  simp only [finalize, generator_after]
  rcases (w.generator g).fiber with _ | ⟨size, state⟩
  · rfl
  · cases state with
    | suspended k scopes captures =>
      simp only [after_ite]
      rfl
    | _ => rfl

theorem releaseEntry_after : releaseEntry (w.after es) fs g = (releaseEntry w fs g).after es := by
  simp only [releaseEntry, generator_after]
  cases (w.generator g).entry <;> rfl

theorem clean_after (todo : List (Step C)) (last : Option String) :
    clean (w.after es) fs todo last = (clean w fs todo last).after es := by
  cases todo <;> cases last <;> rfl

theorem releasePayload_after :
    releasePayload (w.after es) fs g = (releasePayload w fs g).after es := by
  simp only [releasePayload, modify_after, generator_after]
  cases ((w.modify g .emptySlots).generator g).cleanup with
  | none => rfl
  | some cleanup =>
    simp only [after_ite]
    cases ((w.modify g .emptySlots).generator g).payload <;> cases cleanup <;>
      simp only [log_after, modify_after, note_after, clean_after] <;> rfl

theorem dropHandle_after : dropHandle (w.after es) fs g = (dropHandle w fs g).after es := by
  simp only [dropHandle, modify_after, after_ite]
  rfl

/-! ### Releases -/

theorem releaseStep_after (name : String) (todo : List (Step C)) (rest : List (HeldGuard C)) :
    releaseStep (w.after es) fs name todo rest = (releaseStep w fs name todo rest).after es := by
  cases todo <;> rfl

theorem release_after (guards : List (HeldGuard C)) :
    release (w.after es) fs guards = (release w fs guards).after es := by
  cases guards with
  | nil => rfl
  | cons held rest =>
    exact releaseStep_after (w := w.note (.released held.serial held.guard.name)) ..

theorem releaseScope_after (s : Scope C) :
    releaseScope (w.after es) fs s = (releaseScope w fs s).after es := by
  cases s with
  | guard held => rfl
  | generator name =>
    simp only [releaseScope, handles_after]
    cases w.handles.find? name <;> rfl
  | iterator source => cases source <;> rfl

theorem discard_after (announced : Bool) (fiber : Fiber C) :
    discard (w.after es) fs announced fiber = (discard w fs announced fiber).after es := by
  obtain ⟨size, state⟩ := fiber
  cases state with
  | suspended k scopes captures =>
    simp only [discard, after_ite]
    cases announced <;> rfl
  | _ => rfl

/-! ### Steps -/

theorem nameHandle_after (name : String) (a : Answer) :
    nameHandle (w.after es) fs name g a = (nameHandle w fs name g a).after es := by
  simp only [nameHandle, handles_after]
  cases w.handles.find? name <;> rfl

theorem nameIterator_after (name : String) (source : Option GeneratorId) (a : Answer) :
    nameIterator (w.after es) fs name source a = (nameIterator w fs name source a).after es := by
  simp only [nameIterator, iterators_after]
  rcases w.iterators.find? name with _ | _ | old <;> rfl

theorem nameFiber_after (name : String) (fiber : Fiber C) (a : Answer) :
    nameFiber (w.after es) fs name fiber a = (nameFiber w fs name fiber a).after es := by
  simp only [nameFiber, fibers_after]
  cases w.fibers.find? name <;> rfl

theorem operate_after (name : String) (t : GeneratorId → Task C) :
    operate (w.after es) fs name t = (operate w fs name t).after es := by
  simp only [operate, handles_after]
  cases w.handles.find? name <;> rfl

theorem pullNamed_after (it : String) (source : Option GeneratorId) (left : Nat)
    (items : List (Item ErrorReport)) :
    pullNamed (w.after es) fs it source left items =
      (pullNamed w fs it source left items).after es := by
  cases left <;> cases source <;> first | rfl | exact nameIterator_after ..

theorem createFiber_after (f : String) (size : Nat) (captures : List (Guard C)) (entry : C) :
    createFiber (w.after es) fs f size captures entry =
      (createFiber w fs f size captures entry).after es := by
  simp only [createFiber, holdGuards_after, after_ite, log_after, nameFiber_after]
  rfl

theorem switchFiber_after (f : String) (fiber : Fiber C) :
    switchFiber (w.after es) fs f fiber = (switchFiber w fs f fiber).after es := by
  obtain ⟨size, state⟩ := fiber
  cases state <;> rfl

theorem makeStep_after (s : Step C) : makeStep (w.after es) fs s = (makeStep w fs s).after es := by
  cases s with
  | create g d =>
    simp only [makeStep, addGenerator_after]
    exact nameHandle_after ..
  | resume | close => exact operate_after ..
  | throw g e =>
    simp only [makeStep, handles_after, make_after]
    cases w.handles.find? g with
    | none => rfl
    | some id => exact operate_after ..
  | clone g as =>
    simp only [makeStep, handles_after]
    cases w.handles.find? g with
    | none => rfl
    | some id => exact nameHandle_after (w := w.retain id) ..
  | info g | drop g =>
    simp only [makeStep, handles_after]
    cases w.handles.find? g <;> rfl
  | sameGenerator g h =>
    simp only [makeStep, handles_after]
    cases w.handles.find? g <;> cases w.handles.find? h <;> rfl
  | iterate g it into =>
    simp only [makeStep, handles_after]
    cases w.handles.find? g with
    | none => rfl
    | some id =>
      cases into with
      | false => exact nameIterator_after (w := w.retain id) ..
      | true => exact nameIterator_after (w := { w with handles := w.handles.erase g }) ..
  | pull it count =>
    simp only [makeStep, iterators_after]
    cases w.iterators.find? it with
    | none => rfl
    | some source =>
      exact pullNamed_after (w := { w with iterators := w.iterators.erase it }) ..
  | dropIterator it =>
    simp only [makeStep, iterators_after]
    cases w.iterators.find? it <;> rfl
  | nameException | describe | sameException | unwind | unwindFibers => rfl
  | createFiber => exact createFiber_after ..
  | switch f =>
    simp only [makeStep, fibers_after]
    cases w.fibers.find? f with
    | none => rfl
    | some fiber => exact switchFiber_after ..
  | fiberInfo f | destroy f | dropFiber f | unwindDestroy f =>
    simp only [makeStep, fibers_after]
    cases w.fibers.find? f <;> rfl

/-! ### Requests -/

theorem yield_after (v : Value) (k : Except Exception (Option Value) → C) :
    yield (w.after es) fs v k = (yield w fs v k).after es := by
  simp only [yield]
  split
  · simp only [generator_after, after_ite]
    rfl
  · exact nameFiber_after ..
  · rfl

theorem holdIterator_after (name : String) (into : Bool) (k : Bool → C) :
    holdIterator (w.after es) fs name into k = (holdIterator w fs name into k).after es := by
  simp only [holdIterator, handles_after]
  cases w.handles.find? name with
  | none => rfl
  | some g => cases into <;> rfl

theorem useView_after (v : View) (k : Reply → C) :
    useView (w.after es) fs g v k = (useView w fs g v k).after es := by
  simp only [useView, generator_after, handles_after, after_ite]
  cases v with
  | is name =>
    dsimp only
    cases w.handles.find? name <;> rfl
  | _ => rfl

theorem grant_after (r : Request C) : grant (w.after es) fs r = (grant w fs r).after es := by
  cases r with
  | yield => exact yield_after ..
  | producerName c =>
    simp only [grant]
    cases producer? fs <;> rfl
  | append v c =>
    simp only [grant]
    cases producer? fs <;> rfl
  | caught e name c => cases name <;> rfl
  | hold guard c => rfl
  | holdGenerator name d c =>
    simp only [grant, addGenerator_after]
    exact nameHandle_after ..
  | holdIterator => exact holdIterator_after ..
  | pull k =>
    simp only [grant]
    split <;> rfl
  | leave c =>
    simp only [grant]
    split <;> rfl
  | view v k =>
    simp only [grant]
    cases producer? fs with
    | none => rfl
    | some g => exact useView_after ..
  | _ => rfl

/-! ### Answers and panics -/

theorem leaveProducer_after : leaveProducer (w.after es) g = (leaveProducer w g).after es := rfl

theorem endProducer_after (r : Except Exception Value) :
    endProducer (w.after es) fs g r = (endProducer w fs g r).after es := by
  cases r <;> simp only [endProducer, leaveProducer_after, after_ite] <;> rfl

theorem finishClose_after (r : Except OpError (Progress Value Value)) :
    finishClose (w.after es) fs g r = (finishClose w fs g r).after es := by
  rcases r with e | p
  · cases e <;> rfl
  · cases p <;> rfl

theorem finishPull_after (k : Item OpError → C) (item : Item OpError) :
    finishPull (w.after es) fs g k item = (finishPull w fs g k item).after es := by
  simp only [finishPull]
  split <;> rfl

theorem reportItem_after (item : Item OpError) :
    reportItem (w.after es) item = ((reportItem w item).1, (reportItem w item).2.after es) := by
  cases item <;> rfl

theorem reportProgress_after (r : Except OpError (Progress Value Value)) :
    reportProgress (w.after es) r = ((reportProgress w r).1, (reportProgress w r).2.after es) := by
  rcases r with e | p
  · rfl
  · cases p <;> rfl

theorem reportClosed_after (r : Except OpError Unit) :
    reportClosed (w.after es) r = ((reportClosed w r).1, (reportClosed w r).2.after es) := by
  cases r <;> rfl

theorem finishNamedPull_after (it : String) (left : Nat) (items : List (Item ErrorReport))
    (item : Item OpError) :
    finishNamedPull (w.after es) fs it g left items item =
      (finishNamedPull w fs it g left items item).after es := by
  cases item with
  | value v => exact pullNamed_after ..
  | _ => rfl

theorem deliver_after (a : Answer) : deliver (w.after es) a fs = (deliver w a fs).after es := by
  cases fs with
  | nil => rfl
  | cons f fs =>
    cases f with
    | violating g =>
      simp only [deliver, after_ite]
      rfl
    | endingNamed it left items item =>
      simp only [deliver, reportItem_after]
      exact pullNamed_after ..
    | driving g =>
      cases a with
      | outcome => exact endProducer_after ..
      | _ => rfl
    | switching f size =>
      cases a with
      | outcome => exact nameFiber_after ..
      | _ => rfl
    | pulling g k =>
      cases a with
      | progress => exact finishPull_after ..
      | _ => rfl
    | pullingNamed it g left items =>
      cases a with
      | progress => exact finishNamedPull_after ..
      | _ => rfl
    | viewing g k =>
      cases a with
      | progress r => simp only [deliver, reportProgress_after]; rfl
      | closed r => simp only [deliver, reportClosed_after]; rfl
      | _ => rfl
    | reporting =>
      cases a with
      | progress r => simp only [deliver, reportProgress_after]; rfl
      | closed r => simp only [deliver, reportClosed_after]; rfl
      | _ => rfl
    | closing g =>
      cases a with
      | progress => exact finishClose_after ..
      | _ => rfl
    | dropping g =>
      cases a with
      | closed r => cases r <;> rfl
      | _ => rfl
    | cleaning todo last =>
      cases a with
      | reply r => exact clean_after (w := w.note (.onCleanup r)) ..
      | _ => rfl
    | onRelease name todo rest =>
      cases a with
      | reply r => exact releaseStep_after (w := w.note (.onRelease name r)) ..
      | _ => rfl
    | calling => cases a <;> rfl
    | _ => rfl

theorem leave_after (u : Unwinding) : leave (w.after es) u fs = (leave w u fs).after es := by
  cases fs with
  | nil => rfl
  | cons f fs =>
    cases f with
    | pullingNamed | endingNamed => exact nameIterator_after ..
    | switching => exact nameFiber_after ..
    | owningHandles gs => cases gs <;> rfl
    | owningFibers announced fibers => cases fibers <;> rfl
    | calling catchesPanics k => cases catchesPanics <;> cases u <;> rfl
    | cleaning todo last =>
      cases u with
      | panic p => exact clean_after (w := w.note (.onCleanup (.panicked p.message))) ..
      | cancel => rfl
    | onRelease name todo rest =>
      cases u with
      | panic p => exact releaseStep_after (w := w.note (.onRelease name (.panicked p.message))) ..
      | cancel => rfl
    | destroying | dismantling | catching => cases u <;> rfl
    | _ => rfl

/-! ### Moves -/

theorem perform_after (t : Task C) : perform (w.after es) fs t = (perform w fs t).after es := by
  cases t with
  | resume => exact resume_after ..
  | start => exact start_after
  | throw => exact throwInto_after ..
  | close => exact close_after
  | drive => exact drive_after
  | wake => exact wake_after ..
  | suspended => exact suspended_after
  | terminated => exact terminated_after
  | abandon => exact abandon_after
  | finalize => exact finalize_after
  | releaseEntry => exact releaseEntry_after
  | releasePayload => exact releasePayload_after
  | dropHandle => exact dropHandle_after
  | release => exact release_after ..
  | releaseScope => exact releaseScope_after ..
  | discard => exact discard_after ..
  | step => exact makeStep_after ..

variable {P : Program C} {m m' : Machine C}

/-- Moves read nothing of what has happened. -/
theorem next_after (m : Machine C) (es : List Event) :
    (m.after es).next P = (m.next P).after es := by
  obtain ⟨w, control, fs⟩ := m
  cases control with
  | code => exact grant_after ..
  | task => exact perform_after ..
  | answer => exact deliver_after ..
  | unwind => exact leave_after ..
  | aborted | stuck => rfl

/-- The machine in whose world nothing has happened yet. -/
def forget (m : Machine C) : Machine C := { m with world := m.world.forget }

/-- What happens with the next move, the latest first. -/
def happens (P : Program C) (m : Machine C) : List Event := (m.forget.next P).world.history

theorem next_eq (m : Machine C) : m.next P = (m.forget.next P).after m.world.history :=
  next_after m.forget m.world.history

theorem history_next_eq (P : Program C) (m : Machine C) :
    (m.next P).world.history = m.happens P ++ m.world.history := by
  rw [next_eq]
  rfl

/-- The two machines differ at most in what has happened. -/
structure Resembles (m m' : Machine C) : Prop where
  world : m.world.Resembles m'.world
  control : m'.control = m.control
  frames : m'.frames = m.frames

theorem Resembles.refl (m : Machine C) : Resembles m m := ⟨rfl, rfl, rfl⟩

theorem Resembles.forget (h : Resembles m m') : m'.forget = m.forget := by
  simp only [Machine.forget, h.control, h.frames, h.world.eq]

/-- The same happens next, -/
theorem Resembles.happens (h : Resembles m m') : m'.happens P = m.happens P := by
  simp only [Machine.happens, h.forget]

/-- and it leads to the same. -/
theorem Resembles.next (h : Resembles m m') : Resembles (m.next P) (m'.next P) := by
  rw [next_eq m, next_eq m', h.forget]
  exact ⟨rfl, rfl, rfl⟩

end Machine

end Coroutine
