import Coroutine.Machine.Caller

/-! The requests of user code. -/

namespace Coroutine.Machine

variable {C : Type}

/-- The machine that runs user code. -/
def code (w : World C) (fs : List (Frame C)) (c : C) : Machine C := ⟨w, .code c, fs⟩

/-- Suspends the running fiber, whose stack is kept with it. -/
def yield (w : World C) (fs : List (Frame C)) (v : Value)
    (k : Except Exception (Option Value) → C) : Machine C :=
  match splitFiber fs with
  | some (scopes, captures, .driving g :: rest) =>
    let x := w.generator g
    if x.error.isSome then fault w fs (.exceptionInFlight x.name)
    else if x.value.isSome then fault w fs .slotOccupied
    else
      let w := w.log (.switchesOut g x.name)
      task (w.modify g fun x =>
        { x with
          value := some v
          running := false
          fiber := x.fiber.map fun f => { f with state := .suspended k scopes captures } })
        rest (.suspended g)
  | some (scopes, captures, .switching f size :: rest) =>
    nameFiber w rest f ⟨size, .suspended k scopes captures⟩ (.reply (.switched false))
  | _ => ⟨w, .stuck, fs⟩

/-- Puts an iterator on the stack of the running code. -/
def holdIterator (w : World C) (fs : List (Frame C)) (name : String) (into : Bool)
    (k : Bool → C) : Machine C :=
  match w.handles.find? name with
  | none => code (w.note (.called .noHandle)) fs (k false)
  | some g =>
    let w := if into then { w with handles := w.handles.erase name } else w.retain g
    code w (.scope (.iterator (some g)) :: fs) (k true)

/-- Lets code use its own view of a generator. A view is a handle that is released at once. -/
def useView (w : World C) (fs : List (Frame C)) (g : GeneratorId) (v : View) (k : Reply → C) :
    Machine C :=
  let x := w.generator g
  let viewed (r : Reply) : Machine C := code (w.note (.viewed r)) fs (k r)
  if x.handles = 0 then viewed .gone
  else
    match v with
    | .resume sent => task (w.retain g) (.viewing g k :: fs) (.resume g sent)
    | .throw e =>
      let (e, w) := w.make e
      task (w.retain g) (.viewing g k :: fs) (.throw g e)
    | .close => task (w.retain g) (.viewing g k :: fs) (.close g)
    | .info => viewed (.selfInfo x.info)
    | .is name =>
      match w.handles.find? name with
      | none => viewed (.isSelf none)
      | some h =>
        viewed (.isSelf (if (w.generator h).plain = x.plain then some (h == g) else none))

def grant (w : World C) (fs : List (Frame C)) : Request C → Machine C
  | .finish r => answer w fs (.outcome r)
  | .panic message => panic w fs (.text message)
  | .silent c => code w fs c
  | .yield v k => yield w fs v k
  | .emit v c => code (w.note (.emitted v)) fs c
  | .producerName c =>
    match producer? fs with
    | none => code w fs c
    | some g => code (w.note (.producerName (w.generator g).name)) fs c
  | .append v c =>
    match producer? fs with
    | none => code w fs c
    | some g =>
      code (w.modify g fun x =>
        if x.plain then x else { x with payload := x.payload.map (· ++ [v]) }) fs c
  | .make e k =>
    let (e, w) := w.make e
    code w fs (k e)
  | .wrap e k =>
    let (_, w) := w.report e
    let (e, ledger) := w.ledger.create (.operation e)
    code { w with ledger } fs (k e)
  | .caught e name c =>
    let (number, ledger) := w.ledger.meet e
    let ledger := match name with
      | none => ledger
      | some name => ledger.call name e
    code ({ w with ledger }.note (.caught number e.kind)) fs c
  | .hold guard c =>
    let (held, w) := w.holdGuards [guard]
    code w (held.map (.scope ∘ .guard) ++ fs) c
  | .holdGenerator name d c =>
    let (id, w) := w.addGenerator d
    nameHandle w (.entering (.generator name) c :: fs) name id .unit
  | .holdIterator name into k => holdIterator w fs name into k
  | .pull k =>
    match fs with
    | .scope (.iterator (some g)) :: _ => task w (.pulling g k :: fs) (.resume g none)
    | _ => code w fs (k .ended)
  | .leave c =>
    match fs with
    | .scope s :: rest => task w (.resuming c :: rest) (.releaseScope s)
    | _ => code w fs c
  | .call s catchesPanics k => task w (.calling catchesPanics k :: fs) (.step s)
  | .view v k =>
    match producer? fs with
    | none => code w fs (k .gone)
    | some g => useView w fs g v k

end Coroutine.Machine
