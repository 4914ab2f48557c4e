import Coroutine.Machine.Producer

/-! What frames do with the answers that they get, and with the panics that leave them. -/

namespace Coroutine.Machine

variable {C : Type}

/-- The producer of `g` is over: control is outside again, and the payload is not in use. -/
def leaveProducer (w : World C) (g : GeneratorId) : World C :=
  w.modify g fun x =>
    { x with
      running := false
      payloadHeld := false
      fiber := x.fiber.map fun f => { f with state := .over } }

/-- The entry procedure of `g` ended. An exception that escapes gets the generator's name in its
traceback. -/
def endProducer (w : World C) (fs : List (Frame C)) (g : GeneratorId)
    (r : Except Exception Value) : Machine C :=
  let w := leaveProducer w g
  let x := w.generator g
  let w := match r with
    | .ok _ => w
    | .error e => { w with ledger := w.ledger.escape e x.name }
  if x.outcome.isSome then fault w fs .slotOccupied
  else task (w.modify g fun x => { x with outcome := some r }) fs (.terminated g)

/-- The producer answered a close. -/
def finishClose (w : World C) (fs : List (Frame C)) (g : GeneratorId) :
    Except OpError (Progress Value Value) → Machine C
  | .ok (.returned _) => closed w fs (.ok ())
  | .ok (.yielded _) =>
    task (w.log (.ignoredExit g (w.generator g).name)) (.violating g :: fs) (.abandon g)
  | .error (.exhausted _) => closed w fs (.ok ())
  | .error (.raised e) => closed w fs (if e.isExit then .ok () else .error (.raised e))
  | .error e => closed w fs (.error e)

/-- The iterator on top of the code's stack got an item. When it ends, it drops its handle. -/
def finishPull (w : World C) (fs : List (Frame C)) (g : GeneratorId) (k : Item OpError → C)
    (item : Item OpError) : Machine C :=
  match item, fs with
  | .value _, _ => code w fs (k item)
  | _, .scope (.iterator _) :: rest =>
    task w (.resuming (k item) :: .scope (.iterator none) :: rest) (.dropHandle g)
  | _, _ => ⟨w, .stuck, fs⟩

/-- A named iterator got an item. When it ends, it drops its handle. -/
def finishNamedPull (w : World C) (fs : List (Frame C)) (it : String) (g : GeneratorId)
    (left : Nat) (items : List (Item ErrorReport)) (item : Item OpError) : Machine C :=
  match item with
  | .value v => pullNamed w fs it (some g) left (.value v :: items)
  | _ => task w (.endingNamed it left items item :: fs) (.dropHandle g)

/-- Gives an answer to the frame on top. -/
def deliver (w : World C) (a : Answer) : List (Frame C) → Machine C
  | [] => answer w [] a
  | .scope s :: fs => task w (.keeping a :: fs) (.releaseScope s)
  | .closure captures :: fs => task w (.keeping a :: fs) (.release captures)
  | .keeping kept :: fs => answer w fs kept
  | .catching _ :: fs => answer w fs a
  | .unwinding u :: fs => ⟨w, .unwind u, fs⟩
  | .resuming c :: fs => code w fs c
  | .entering s c :: fs => code w (.scope s :: fs) c
  | .destroying g :: fs =>
    task (w.modify g fun x => { x with running := false }) fs (.releaseEntry g)
  | .dismantling :: fs => answer w fs .unit
  | .emptying g :: fs => task w fs (.releasePayload g)
  | .violating g :: fs =>
    if panicking fs then closed w fs (.ok ())
    else panic w fs (.ignoredExit (w.generator g).name)
  | .holding g :: fs => task w (.keeping a :: fs) (.dropHandle g)
  | .endingNamed it left items item :: fs =>
    let (item, w) := reportItem w item
    pullNamed w fs it none left (item :: items)
  | frame :: fs =>
    match frame, a with
    | .driving g, .outcome r => endProducer w fs g r
    | .switching f size, .outcome _ =>
      nameFiber w fs f ⟨size, .over⟩ (.reply (.switched true))
    | .calling _ k, .reply r => code (w.note (.called r)) fs (k r)
    | .pulling g k, .progress r => finishPull w fs g k (itemOf r)
    | .pullingNamed it g left items, .progress r =>
      finishNamedPull w fs it g left items (itemOf r)
    | .viewing g k, .progress r =>
      let (r, w) := reportProgress w r
      task (w.note (.viewed r)) (.resuming (k r) :: fs) (.dropHandle g)
    | .viewing g k, .closed r =>
      let (r, w) := reportClosed w r
      task (w.note (.viewed r)) (.resuming (k r) :: fs) (.dropHandle g)
    | .reporting, .progress r =>
      let (r, w) := reportProgress w r
      reply w fs r
    | .reporting, .closed r =>
      let (r, w) := reportClosed w r
      reply w fs r
    | .closing g, .progress r => finishClose w fs g r
    | .dropping g, .closed r =>
      let w := match r with
        | .ok () => w
        | .error e => w.log (.failedToClose g (w.generator g).name e.message)
      task w fs (.abandon g)
    | .cleaning todo last, .reply r => clean (w.note (.onCleanup r)) fs todo last
    | .onRelease name todo rest, .reply r =>
      releaseStep (w.note (.onRelease name r)) fs name todo rest
    | _, _ => ⟨w, .stuck, frame :: fs⟩

/-- Leaves the frame on top. -/
def leave (w : World C) (u : Unwinding) : List (Frame C) → Machine C
  | [] => ⟨w, .unwind u, []⟩
  | .scope s :: fs => task w (.unwinding u :: fs) (.releaseScope s)
  | .closure captures :: fs => task w (.unwinding u :: fs) (.release captures)
  | .driving g :: fs => ⟨leaveProducer w g, .unwind u, fs⟩
  | .unwinding _ :: fs => ⟨w, .aborted, fs⟩
  | .holding g :: fs => task w (.unwinding u :: fs) (.dropHandle g)
  | .viewing g _ :: fs => task w (.unwinding u :: fs) (.dropHandle g)
  | .dropping g :: fs => task w (.unwinding u :: fs) (.abandon g)
  | .owningHandles (g :: gs) :: fs =>
    task w (.unwinding u :: .owningHandles gs :: fs) (.dropHandle g)
  | .owningFibers announced (f :: rest) :: fs =>
    task w (.unwinding u :: .owningFibers announced rest :: fs) (.discard announced f)
  | .pullingNamed it g _ _ :: fs => nameIterator w (.unwinding u :: fs) it (some g) .unit
  | .endingNamed it _ _ _ :: fs => nameIterator w (.unwinding u :: fs) it none .unit
  | .switching f size :: fs => nameFiber w (.unwinding u :: fs) f ⟨size, .over⟩ .unit
  | frame :: fs =>
    match frame, u with
    | .destroying g, .cancel =>
      task (leaveProducer w g) fs (.releaseEntry g)
    | .destroying g, .panic _ => ⟨leaveProducer w g, .unwind u, fs⟩
    | .dismantling, .cancel => answer w fs .unit
    | .catching a, .panic _ => answer w fs a
    | .calling true k, .panic p =>
      let r := Reply.panicked p.message
      code (w.note (.called r)) fs (k r)
    | .cleaning todo last, .panic p =>
      clean (w.note (.onCleanup (.panicked p.message))) fs todo last
    | .onRelease name todo rest, .panic p =>
      releaseStep (w.note (.onRelease name (.panicked p.message))) fs name todo rest
    | _, _ => ⟨w, .unwind u, fs⟩

end Coroutine.Machine
