import Coroutine.Machine.Release

/-! The steps of a caller. A step that runs a producer holds a handle of its own meanwhile. -/

namespace Coroutine.Machine

variable {C : Type}

def reply (w : World C) (fs : List (Frame C)) (r : Reply) : Machine C := answer w fs (.reply r)

/-- Names a handle; the handle that had the name is dropped then. -/
def nameHandle (w : World C) (fs : List (Frame C)) (name : String) (g : GeneratorId) (a : Answer) :
    Machine C :=
  let named := { w with handles := w.handles.insert name g }
  match w.handles.find? name with
  | none => answer named fs a
  | some old => task named (.keeping a :: fs) (.dropHandle old)

/-- Names an iterator; the iterator that had the name is dropped then. -/
def nameIterator (w : World C) (fs : List (Frame C)) (name : String) (source : Option GeneratorId)
    (a : Answer) : Machine C :=
  let named := { w with iterators := w.iterators.insert name source }
  match w.iterators.find? name with
  | some (some old) => task named (.keeping a :: fs) (.dropHandle old)
  | _ => answer named fs a

/-- Names a raw fiber; the fiber that had the name is dropped then. -/
def nameFiber (w : World C) (fs : List (Frame C)) (name : String) (fiber : Fiber C) (a : Answer) :
    Machine C :=
  let named := { w with fibers := w.fibers.insert name fiber }
  match w.fibers.find? name with
  | none => answer named fs a
  | some old => task named (.keeping a :: fs) (.discard false old)

/-- Runs an operation on the generator that `name` names, holding a handle to it. -/
def operate (w : World C) (fs : List (Frame C)) (name : String) (t : GeneratorId → Task C) :
    Machine C :=
  match w.handles.find? name with
  | none => reply w fs .noHandle
  | some g => task (w.retain g) (.reporting :: .holding g :: fs) (t g)

/-- Goes on pulling on a named iterator. An iterator that has ended hands out nothing any more. -/
def pullNamed (w : World C) (fs : List (Frame C)) (it : String) (source : Option GeneratorId)
    (left : Nat) (items : List (Item ErrorReport)) : Machine C :=
  match left, source with
  | left + 1, some g => task w (.pullingNamed it g left items :: fs) (.resume g none)
  | left, _ =>
    nameIterator w fs it source (.reply (.items (items.reverse ++ List.replicate left .ended)))

/-- What an iterator hands out when its generator came back with this; nothing comes after a
failure. -/
def itemOf : Except OpError (Progress Value Value) → Item OpError
  | .ok (.yielded v) => .value v
  | .ok (.returned _) | .error (.exhausted _) => .ended
  | .error e => .failed e

def reportItem (w : World C) : Item OpError → Item ErrorReport × World C
  | .value v => (.value v, w)
  | .ended => (.ended, w)
  | .failed e =>
    let (r, w) := w.report e
    (.failed r, w)

/-- The reply that says how an operation that may run a producer ended. -/
def reportProgress (w : World C) : Except OpError (Progress Value Value) → Reply × World C
  | .ok (.yielded v) => (.yielded v, w)
  | .ok (.returned v) => (.returned v, w)
  | .error e =>
    let (r, w) := w.report e
    (.failed r, w)

/-- The reply that says how a close ended. -/
def reportClosed (w : World C) : Except OpError Unit → Reply × World C
  | .ok () => (.closed, w)
  | .error e =>
    let (r, w) := w.report e
    (.failed r, w)

/-- Removes names from a table and gathers what they named; names that are not there are
skipped. -/
def takeNamed {α : Type} (t : Table α) : List String → List α × Table α
  | [] => ([], t)
  | name :: rest =>
    match t.find? name with
    | none => takeNamed t rest
    | some a =>
      let (as, t) := takeNamed (t.erase name) rest
      (a :: as, t)

/-- The panic of a caller that owns something. -/
def unwindOwning (w : World C) (fs : List (Frame C)) (owner : Frame C) : Machine C :=
  panic w (owner :: fs) (.text "unwinding")

/-- Sets a raw fiber up. If that fails, its entry procedure is released at once. -/
def createFiber (w : World C) (fs : List (Frame C)) (f : String) (size : Nat)
    (captures : List (Guard C)) (entry : C) : Machine C :=
  let (held, w) := w.holdGuards captures
  let failure : Answer := .reply (.allocationFailure ⟨size⟩)
  if !stackSizeInRange size then task w (.keeping failure :: fs) (.release held)
  else if w.stackMemory < size then
    task w (.unwinding (.panic .outOfMemory) :: .catching failure :: fs) (.release held)
  else nameFiber (w.log (.allocated size)) fs f ⟨size, .fresh ⟨entry, held⟩⟩ (.reply .ok)

/-- Switches into a raw fiber, which has no name meanwhile. -/
def switchFiber (w : World C) (fs : List (Frame C)) (f : String) (fiber : Fiber C) : Machine C :=
  let taken := { w with fibers := w.fibers.erase f }
  match fiber.state with
  | .fresh entry =>
    ⟨taken, .code entry.code, stackFiber [] entry.captures (.switching f fiber.size :: fs)⟩
  | .suspended k scopes captures =>
    ⟨taken, .code (k (.ok none)), stackFiber scopes captures (.switching f fiber.size :: fs)⟩
  | _ => reply w fs (.switched true)

def makeStep (w : World C) (fs : List (Frame C)) : Step C → Machine C
  | .create g d =>
    let (id, w) := w.addGenerator d
    nameHandle w fs g id (.reply .ok)
  | .resume g sent => operate w fs g fun id => .resume id sent
  | .throw g e =>
    match w.handles.find? g with
    | none => reply w fs .noHandle
    | some _ =>
      let (e, w) := w.make e
      operate w fs g fun id => .throw id e
  | .close g => operate w fs g .close
  | .info g =>
    match w.handles.find? g with
    | none => reply w fs .noHandle
    | some id => reply w fs (.info (w.generator id).info)
  | .clone g as =>
    match w.handles.find? g with
    | none => reply w fs .noHandle
    | some id => nameHandle (w.retain id) fs as id (.reply .ok)
  | .drop g =>
    match w.handles.find? g with
    | none => reply w fs .noHandle
    | some id =>
      task { w with handles := w.handles.erase g } (.keeping (.reply .ok) :: fs) (.dropHandle id)
  | .sameGenerator g h =>
    match w.handles.find? g, w.handles.find? h with
    | some a, some b =>
      reply w fs (.sameGenerator
        (if (w.generator a).plain = (w.generator b).plain then some (a == b) else none))
    | _, _ => reply w fs .noHandle
  | .iterate g it into =>
    match w.handles.find? g with
    | none => reply w fs .noHandle
    | some id =>
      let w := if into then { w with handles := w.handles.erase g } else w.retain id
      nameIterator w fs it (some id) (.reply .ok)
  | .pull it count =>
    match w.iterators.find? it with
    | none => reply w fs .noIterator
    | some source => pullNamed { w with iterators := w.iterators.erase it } fs it source count []
  | .dropIterator it =>
    match w.iterators.find? it with
    | none => reply w fs .noIterator
    | some source =>
      task { w with iterators := w.iterators.erase it } (.keeping (.reply .ok) :: fs)
        (.releaseScope (.iterator source))
  | .nameException name e =>
    let (e, w) := w.make e
    let (number, ledger) := w.ledger.meet e
    reply { w with ledger := ledger.call name e } fs (.named number)
  | .describe e =>
    let (e, w) := w.make e
    let (d, ledger) := w.ledger.describe e
    reply { w with ledger } fs (.description d)
  | .sameException a b =>
    let (a, w) := w.make a
    let (b, w) := w.make b
    reply w fs (.sameException (a.id == b.id))
  | .unwind names =>
    let (gs, handles) := takeNamed w.handles names
    unwindOwning { w with handles } fs (.owningHandles gs)
  | .createFiber f size captures entry => createFiber w fs f size captures entry
  | .switch f =>
    match w.fibers.find? f with
    | none => reply w fs .noFiber
    | some fiber => switchFiber w fs f fiber
  | .fiberInfo f =>
    match w.fibers.find? f with
    | none => reply w fs .noFiber
    | some fiber => reply w fs (.fiberInfo fiber.info)
  | .destroy f =>
    match w.fibers.find? f with
    | none => reply w fs .noFiber
    | some fiber =>
      task { w with fibers := w.fibers.erase f } (.keeping (.reply .ok) :: fs)
        (.discard true fiber)
  | .dropFiber f =>
    match w.fibers.find? f with
    | none => reply w fs .noFiber
    | some fiber =>
      task { w with fibers := w.fibers.erase f } (.keeping (.reply .ok) :: fs)
        (.discard false fiber)
  | .unwindFibers names =>
    let (owned, fibers) := takeNamed w.fibers names
    unwindOwning { w with fibers } fs (.owningFibers false owned)
  | .unwindDestroy f =>
    match w.fibers.find? f with
    | none => reply w fs .noFiber
    | some fiber =>
      unwindOwning { w with fibers := w.fibers.erase f } fs (.owningFibers true [fiber])

end Coroutine.Machine
