import Coroutine.Script.Syntax

/-! The requests that a running script makes. Each request carries out one statement or completes
one; what follows is in the code that the request goes on with. -/

namespace Coroutine.Script

/-- Whether a handler for these kinds handles an exception. -/
def handles (kinds : Option (List String)) (e : Exception) : Bool :=
  match kinds with
  | none => true
  | some kinds => kinds.contains e.kind

/-- What the tag of a call shows of its reply. -/
def tagOf : Reply → String
  | .failed r => r.error.label
  | .noHandle => "NoHandle"
  | .noIterator => "NoIter"
  | .noFiber => "NoFiber"
  | .allocationFailure _ => "AllocationFailure"
  | .yielded _ => "yielded"
  | .returned _ => "returned"
  | .panicked _ => "panic"
  | _ => "ok"

/-- The value that a reply hands over. -/
def valueOf : Reply → Value
  | .yielded v | .returned v => v
  | _ => .null

/-- The variables of a procedure: its parameters with the values of the arguments, of which those
that are missing are not set. -/
def bindParams (params : List String) (args : List Value) : Variables :=
  (params.zip args).foldl (fun vars (x, v) => vars.insert x v) .empty

namespace Code

/-- Goes on with the statements after the one that is carried out. -/
def after (c : Code) : List Statement → Code
  | [] => { c with focus := .complete .normal }
  | rest => { c with focus := .complete .normal, around := .andThen rest :: c.around }

def run (c : Code) (statements : List Statement) : Code := { c with focus := .run statements }

def complete (c : Code) (completion : Completion) : Code := { c with focus := .complete completion }

def inside (c : Code) (a : Around) (body : List Statement) : Code :=
  { c with focus := .run body, around := a :: c.around }

def assign (c : Code) (x : Option String) (v : Value) : Code :=
  match x with
  | none => c
  | some x => { c with vars := c.vars.insert x v }

/-- Raises what an operation error stands for. -/
def raise (c : Code) (raising : Raising) (e : OpError) : Request Code :=
  match raising, e with
  | .raised, .raised x => .silent (c.complete (.raised x))
  | _, _ => .wrap e fun x => c.complete (.raised x)

/-- Goes on with the reply to a call. -/
def afterCall (c : Code) (target tag : Option String) (raising : Option Raising)
    (r : Reply) : Code :=
  let c := (c.assign tag (.text (tagOf r))).assign target (valueOf r)
  match raising, r with
  | some raising, .failed report => { c with focus := .raise raising report.error }
  | _, _ => c

/-- Goes on with an item of the loop around; what raises has left the loop. -/
def afterPull (c : Code) (x : String) (raising : Raising) (body : List Statement) :
    Item OpError → Code
  | .value v => (c.assign (some x) v).run body
  | .ended => c.complete .broke
  | .failed e => { c with focus := .raise raising e }

def afterYield (c : Code) (target : Option String) : Except Exception (Option Value) → Code
  | .ok sent => c.assign target (sent.getD .null)
  | .error e => c.complete (.raised e)

end Code

/-- The step that a call makes. -/
def Call.toStep (vars : Variables) : Call → Step Code
  | .resume g sent => .resume g (sent.map (·.eval vars))
  | .step s => s

/-- What a statement does with the view of its generator. -/
def ViewStatement.toView (vars : Variables) : ViewStatement → View
  | .resume sent => .resume (sent.map (·.eval vars))
  | .other v => v

/-- Carries a statement out; `c` is the code that goes on after it. -/
def Statement.request (procedures : Table Procedure) (c : Code) : Statement → Request Code
  | .yield v target => .yield (v.eval c.vars) fun r => c.afterYield target r
  | .switchOut => .yield .null fun r => c.afterYield none r
  | .returning v => .silent (c.complete (.returned (v.eval c.vars)))
  | .breaking => .silent (c.complete .broke)
  | .raise e => .make e fun x => c.complete (.raised x)
  | .panic message => .panic message
  | .set x v => .silent (c.assign (some x) (v.eval c.vars))
  | .branch e yes no => .silent (c.run (if (e.eval c.vars).isTrue then yes else no))
  | .whileLoop e body =>
    if (e.eval c.vars).isTrue then .silent (c.inside (.whileLoop e body) body) else .silent c
  | .loop none body => .silent (c.inside (.loop none body) body)
  | .loop (some 0) _ => .silent c
  | .loop (some (n + 1)) body => .silent (c.inside (.loop (some n) body) body)
  | .emit v => .emit (v.eval c.vars) c
  | .append v => .append (v.eval c.vars) c
  | .producerName => .producerName c
  | .attempt body kinds name handler last =>
    .silent (c.inside (.attempt kinds name handler last) body)
  | .guard g body => .hold g (c.inside .scope body)
  | .generator name d body => .holdGenerator name d (c.inside .scope body)
  | .call made target tag raising catchesPanics =>
    .call (made.toStep c.vars) catchesPanics fun r => c.afterCall target tag raising r
  | .forEach x g into raising body =>
    .holdIterator g into fun found =>
      if found then { c with focus := .pull, around := .forEach x raising body :: c.around } else c
  | .view v => .view (v.toView c.vars) fun _ => c
  | .procedure name args target =>
    match procedures.find? name with
    | none => .silent (c.assign target .null)
    | some p =>
      .silent
        { c.inside (.procedure target c.vars) p.body with
          vars := bindParams p.params (evalAll c.vars args) }

/-- Carries the completion of statements on to the statement around them, which is `a`. -/
def Around.request (c : Code) (completion : Completion) : Around → Request Code
  | .andThen rest =>
    match completion with
    | .normal => .silent (c.run rest)
    | _ => .silent (c.complete completion)
  | .whileLoop e body =>
    match completion with
    | .normal => .silent (c.run [.whileLoop e body])
    | .broke => .silent (c.complete .normal)
    | _ => .silent (c.complete completion)
  | .loop left body =>
    match completion with
    | .normal => .silent (c.run [.loop left body])
    | .broke => .silent (c.complete .normal)
    | _ => .silent (c.complete completion)
  | .forEach x raising body =>
    match completion with
    | .normal => .silent { c with focus := .pull, around := .forEach x raising body :: c.around }
    | .broke => .leave (c.complete .normal)
    | _ => .leave (c.complete completion)
  | .attempt kinds name body final =>
    match completion with
    | .raised e =>
      if handles kinds e then .caught e name (c.inside (.handler final) body)
      else .silent (c.inside (.last completion) final)
    | _ => .silent (c.inside (.last completion) final)
  | .handler final => .silent (c.inside (.last completion) final)
  | .last sofar =>
    match completion with
    | .normal => .silent (c.complete sofar)
    | _ => .silent (c.complete completion)
  | .scope => .leave (c.complete completion)
  | .procedure target saved =>
    let c := { c with vars := saved }
    match completion with
    | .returned v => .silent ((c.assign target v).complete .normal)
    | .raised _ => .silent (c.complete completion)
    | _ => .silent ((c.assign target .null).complete .normal)

/-- How an entry procedure ends: with the value that it returns, with null, or with an exception. -/
def Completion.outcome : Completion → Except Exception Value
  | .returned v => .ok v
  | .raised e => .error e
  | .normal | .broke => .ok .null

def Code.request (procedures : Table Procedure) (c : Code) : Request Code :=
  match c.focus with
  | .run [] => .silent (c.complete .normal)
  | .run (s :: rest) => s.request procedures (c.after rest)
  | .complete completion =>
    match c.around with
    | [] => .finish completion.outcome
    | a :: around => a.request { c with around } completion
  | .raise raising e => c.raise raising e
  | .pull =>
    match c.around with
    | .forEach x raising body :: _ => .pull fun item => c.afterPull x raising body item
    | _ => .silent (c.complete .normal)

/-- The program of scripts that share procedures. -/
def program (procedures : Table Procedure) : Program Code := ⟨Code.request procedures⟩

end Coroutine.Script
