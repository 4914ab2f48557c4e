import Coroutine.Machine.Run

/-! Sessions: steps made one after another in one world, and the release of all that is left at the
end, the lowest name first. Panics that leave a step end there. -/

namespace Coroutine

variable {C : Type}

/-- The name of the generator that a step is about. -/
def Step.subject? : Step C → Option String
  | .create g _ | .resume g _ | .throw g _ | .close g | .info g | .clone g _ | .drop g
  | .sameGenerator g _ | .iterate g _ _ => some g
  | _ => none

namespace Session

/-- A bound on the moves of one step that no step of use comes near. -/
def ampleMoves : Nat := 1_000_000_000_000_000_000

/-- A bound on the releases at the end of a session. -/
def ampleReleases : Nat := 1_000_000

/-- The reply of a machine at rest. -/
def replyOf (m : Machine C) : Reply :=
  match m.control with
  | .answer (.reply r) => r
  | .unwind (.panic p) => .panicked p.message
  | .aborted => .panicked "aborted"
  | _ => .panicked "stuck"

def perform (P : Program C) (w : World C) (s : Step C) : Reply × World C :=
  let m := Machine.run P ampleMoves ⟨w, .task (.step s), []⟩
  (replyOf m, m.world)

/-- What happened since the world was `before`, in order. -/
def since (before after : World C) : List Event :=
  (after.history.take (after.history.length - before.history.length)).reverse

/-- What came of a step, with the status that its generator has afterwards. -/
structure StepReport where
  reply : Reply
  events : List Event
  status : Option Status

inductive Leftover
  | iterator (name : String)
  | handle (name : String)
  | fiber (name : String)
  deriving DecidableEq, Repr

/-- What came of a release at the end. -/
structure ReleaseReport where
  leftover : Leftover
  reply : Reply
  events : List Event

/-- Makes steps in turn. -/
def performAll (P : Program C) (w : World C) : List (Step C) → List StepReport × World C
  | [] => ([], w)
  | s :: rest =>
    let (reply, after) := perform P w s
    let status := (s.subject?.bind after.handles.find?).map fun g => (after.generator g).status
    let (reports, last) := performAll P after rest
    (⟨reply, since w after, status⟩ :: reports, last)

namespace Leftover

def toStep : Leftover → Step C
  | iterator name => .dropIterator name
  | handle name => .drop name
  | fiber name => .destroy name

end Leftover

/-- Releases what `lowest?` finds until it finds nothing, as long as there is fuel. -/
def releaseAll (P : Program C) (lowest? : World C → Option Leftover) :
    Nat → World C → List ReleaseReport × World C
  | 0, w => ([], w)
  | fuel + 1, w =>
    match lowest? w with
    | none => ([], w)
    | some l =>
      let (reply, after) := perform P w l.toStep
      let (reports, last) := releaseAll P lowest? fuel after
      (⟨l, reply, since w after⟩ :: reports, last)

/-- Releases the iterators, then the handles, then the raw fibers. A release may leave new names,
or release what other names named. -/
def finish (P : Program C) (w : World C) : List ReleaseReport :=
  let (iterators, w) :=
    releaseAll P (fun w => w.iterators.lowest?.map .iterator) ampleReleases w
  let (handles, w) := releaseAll P (fun w => w.handles.lowest?.map .handle) ampleReleases w
  let (fibers, _) := releaseAll P (fun w => w.fibers.lowest?.map .fiber) ampleReleases w
  iterators ++ handles ++ fibers

/-- Makes the steps of a session in a new world, and releases all that is left. -/
def play (P : Program C) (steps : List (Step C)) : List StepReport × List ReleaseReport :=
  let (reports, w) := performAll P {} steps
  (reports, finish P w)

end Session

end Coroutine
