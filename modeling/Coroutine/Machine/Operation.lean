import Coroutine.Machine.Basic

/-! The operations on generators. Every operation first looks the status up in the table of the
lifecycle and commits the status that follows, except that a start commits it once the fiber is
there. -/

namespace Coroutine

variable {C : Type}

/-- Looks an operation up, commits the status that follows and says what has to be done. -/
def World.apply (w : World C) (g : GeneratorId) (op : Operation) :
    Except Fault (World C × Action) :=
  let x := w.generator g
  let (next, action) := transition x.status op
  if action = .illegal then .error (.illegal x.name op action x.status)
  else
    let w := if action = .start then w else w.modify g fun x => { x with status := next }
    .ok (w.log (.transition g x.name x.status op next action), action)

namespace Machine

/-- The machine that has an answer for its frames. -/
def answer (w : World C) (fs : List (Frame C)) (a : Answer) : Machine C := ⟨w, .answer a, fs⟩

/-- The machine that has a task to do. -/
def task (w : World C) (fs : List (Frame C)) (t : Task C) : Machine C := ⟨w, .task t, fs⟩

/-- The machine that leaves its frames with a panic. -/
def panic (w : World C) (fs : List (Frame C)) (p : Panic) : Machine C :=
  ⟨w, .unwind (.panic p), fs⟩

/-- The machine that met a broken rule. -/
def fault (w : World C) (fs : List (Frame C)) (f : Fault) : Machine C := panic w fs (.fault f)

/-- The answer of an operation that may run a producer. -/
def progress (w : World C) (fs : List (Frame C)) (r : Except OpError (Progress Value Value)) :
    Machine C :=
  answer w fs (.progress r)

/-- The answer of a close. -/
def closed (w : World C) (fs : List (Frame C)) (r : Except OpError Unit) : Machine C :=
  answer w fs (.closed r)

/-- An operation cannot lead to this action. -/
def unexpected (w : World C) (fs : List (Frame C)) (g : GeneratorId) (op : Operation)
    (action : Action) : Machine C :=
  fault w fs (.illegal (w.generator g).name op action (w.generator g).status)

/-- Resumes a generator, with a value or without. -/
def resume (w : World C) (fs : List (Frame C)) (g : GeneratorId) (sent : Option Value) :
    Machine C :=
  let x := w.generator g
  if x.running then progress w fs (.error (.reentrancy x.name))
  else if sent.isSome && x.status = .unused then progress w fs (.error (.sentBeforeStart x.name))
  else
    match w.apply g .resume with
    | .error f => fault w fs f
    | .ok (w, .start) => task w fs (.start g)
    | .ok (w, .switchIn) =>
      match sent with
      | none => task w fs (.drive g)
      | some v =>
        if x.value.isSome then fault w fs .slotOccupied
        else task (w.modify g fun x => { x with value := some v }) fs (.drive g)
    | .ok (w, .exhausted) => progress w fs (.error (.exhausted x.name))
    | .ok (w, action) => unexpected w fs g .resume action

/-- Allocates the fiber of an unused generator. A size out of range leaves the entry procedure as it
is; when there is no memory, it is released at once. -/
def start (w : World C) (fs : List (Frame C)) (g : GeneratorId) : Machine C :=
  let x := w.generator g
  let failure : Answer := .progress (.error (.fiberAllocation x.name x.stackSize))
  if !stackSizeInRange x.stackSize then answer w fs failure
  else
    match x.entry with
    | none => answer w fs failure
    | some entry =>
      let w := w.modify g fun x => { x with entry := none }
      if w.stackMemory < x.stackSize then
        task w (.unwinding (.panic .outOfMemory) :: .catching failure :: fs)
          (.release entry.captures)
      else
        let w := (w.log (.allocated x.stackSize)).log (.starts g x.name x.stackSize)
        task (w.modify g fun x =>
          { x with fiber := some ⟨x.stackSize, .fresh entry⟩, status := .running }) fs (.drive g)

/-- Raises an exception where a producer is suspended, or else to the caller. -/
def throwInto (w : World C) (fs : List (Frame C)) (g : GeneratorId) (e : Exception) : Machine C :=
  let x := w.generator g
  if x.running then progress w fs (.error (.reentrancy x.name))
  else
    match w.apply g .throw with
    | .error f => fault w fs f
    | .ok (w, .raise) => task w (.keeping (.progress (.error (.raised e))) :: fs) (.finalize g)
    | .ok (w, .switchIn) =>
      let w := w.log (.injects g x.name e.kind)
      if x.error.isSome then fault w fs .slotOccupied
      else task (w.modify g fun x => { x with error := some e }) fs (.drive g)
    | .ok (w, action) => unexpected w fs g .throw action

/-- Finishes a generator, raising the exit signal where its producer is suspended. -/
def close (w : World C) (fs : List (Frame C)) (g : GeneratorId) : Machine C :=
  let x := w.generator g
  if x.running then closed w fs (.error (.reentrancy x.name))
  else
    match w.apply g .close with
    | .error f => fault w fs f
    | .ok (w, .nothing) => closed w fs (.ok ())
    | .ok (w, .finalize) => task w (.keeping (.closed (.ok ())) :: fs) (.finalize g)
    | .ok (w, .switchIn) =>
      let w := w.log (.closes g x.name)
      let (e, ledger) := w.ledger.create .exit
      let w := { w with ledger }
      if x.error.isSome then fault w fs .slotOccupied
      else task (w.modify g fun x => { x with error := some e }) (.closing g :: fs) (.drive g)
    | .ok (w, action) => unexpected w fs g .close action

/-- Switches into the producer. -/
def drive (w : World C) (fs : List (Frame C)) (g : GeneratorId) : Machine C :=
  let x := w.generator g
  match x.fiber with
  | none => task w fs (.terminated g)
  | some fiber =>
    let switched := w.log (.switchesIn g x.name)
    let enter (held : Bool) : World C := switched.modify g fun x =>
      { x with running := true, payloadHeld := held, fiber := some { fiber with state := .active } }
    match fiber.state with
    | .active => fault w fs .fiberInUse
    | .over => task switched fs (.terminated g)
    | .fresh entry =>
      let fs := stackFiber [] entry.captures (.driving g :: fs)
      if x.payload.isNone then fault (enter x.payloadHeld) fs .payloadReleased
      else ⟨enter true, .code entry.code, fs⟩
    | .suspended k scopes captures =>
      task (enter x.payloadHeld) (stackFiber scopes captures (.driving g :: fs)) (.wake g k)

/-- The producer takes what was handed over to it: an exception before a value. -/
def wake (w : World C) (fs : List (Frame C)) (g : GeneratorId)
    (k : Except Exception (Option Value) → C) : Machine C :=
  let x := w.generator g
  let w := w.log (.switchedBack g x.name)
  match x.error with
  | some e =>
    let w := w.modify g fun x => { x with error := none }
    ⟨w.log (.raisesInjected g x.name e.kind), .code (k (.error e)), fs⟩
  | none => ⟨w.modify g fun x => { x with value := none }, .code (k (.ok x.value)), fs⟩

/-- Hands the yielded value over to the caller. -/
def suspended (w : World C) (fs : List (Frame C)) (g : GeneratorId) : Machine C :=
  match w.apply g .yielded with
  | .error f => fault w fs f
  | .ok (w, _) =>
    let x := w.generator g
    match x.value with
    | some v => progress (w.modify g fun x => { x with value := none }) fs (.ok (.yielded v))
    | none => fault w fs (.noValue x.name)

/-- Finalizes a generator whose producer is over, and hands the outcome over to the caller. A
producer that left no outcome was ended by a panic. -/
def terminated (w : World C) (fs : List (Frame C)) (g : GeneratorId) : Machine C :=
  match w.apply g .terminated with
  | .error f => fault w fs f
  | .ok (w, _) =>
    let x := w.generator g
    let result : Except OpError (Progress Value Value) := match x.outcome with
      | some (.ok v) => .ok (.returned v)
      | some (.error e) => .error (.raised e)
      | none => .error (.exhausted x.name)
    task (w.modify g fun x => { x with outcome := none }) (.keeping (.progress result) :: fs)
      (.finalize g)

/-- Finishes a generator without letting its producer run. -/
def abandon (w : World C) (fs : List (Frame C)) (g : GeneratorId) : Machine C :=
  let finish (op : Operation) : Machine C :=
    match w.apply g op with
    | .error f => fault w fs f
    | .ok (w, _) => task w fs (.finalize g)
  match (w.generator g).status with
  | .unused => finish .close
  | .running => finish .terminated
  | .finished => answer w fs .unit

/-- Releases the fiber of a finished generator. A suspended one is unwound, but while frames are
unwound anyway it is given up. -/
def finalize (w : World C) (fs : List (Frame C)) (g : GeneratorId) : Machine C :=
  let x := w.generator g
  match x.fiber with
  | none => task w fs (.releaseEntry g)
  | some fiber =>
    let taken := w.modify g fun x => { x with fiber := none }
    let inside := w.modify g fun x => { x with fiber := none, running := true }
    match fiber.state with
    | .active => fault w fs .fiberInUse
    | .over => task taken fs (.releaseEntry g)
    | .fresh entry => task inside (.destroying g :: fs) (.release entry.captures)
    | .suspended _ scopes captures =>
      if panicking fs then
        task (taken.log (.abandonsFiber (stackGuards scopes captures))) fs (.releaseEntry g)
      else
        ⟨inside.log .unwindsFiber, .unwind .cancel,
          stackFiber scopes captures (.destroying g :: fs)⟩

def releaseEntry (w : World C) (fs : List (Frame C)) (g : GeneratorId) : Machine C :=
  match (w.generator g).entry with
  | none => task w fs (.releasePayload g)
  | some entry =>
    task (w.modify g fun x => { x with entry := none }) (.emptying g :: fs)
      (.release entry.captures)

/-- Goes on with a cleanup callback: with its next step, or with its end. -/
def clean (w : World C) (fs : List (Frame C)) (todo : List (Step C)) (last : Option String) :
    Machine C :=
  match todo, last with
  | s :: rest, _ => task w (.cleaning rest last :: fs) (.step s)
  | [], none => answer w fs .unit
  | [], some message => panic w fs (.text message)

/-- Empties the slots and gives the payload away. A payload that a producer still has in use is
lost. -/
def releasePayload (w : World C) (fs : List (Frame C)) (g : GeneratorId) : Machine C :=
  let w := w.modify g .emptySlots
  let x := w.generator g
  match x.cleanup with
  | none => answer w fs .unit
  | some cleanup =>
    let w := (w.modify g fun x => { x with cleanup := none }).log (.finalizes g x.name)
    if x.payloadHeld then answer (w.log (.leaksPayload g x.name)) fs .unit
    else
      let w := w.modify g fun x => { x with payload := none }
      match x.payload, cleanup with
      | some payload, .callback steps last =>
        clean (w.note (.cleanup g x.name payload)) fs steps last
      | _, _ => answer w fs .unit

/-- Drops a handle. With the last one a generator that is not finished is closed. -/
def dropHandle (w : World C) (fs : List (Frame C)) (g : GeneratorId) : Machine C :=
  let w := w.modify g fun x => { x with handles := x.handles - 1 }
  let x := w.generator g
  if x.handles = 0 && !x.status.isFinished then task w (.dropping g :: fs) (.close g)
  else answer w fs .unit

end Machine

end Coroutine
