import Coroutine.Session

/-! Recursion with generators, for the sum of the numbers up to `n`. In one program a single
producer recurses on its own stack and suspends once, at the bottom. In the other every level is a
generator of its own, which yields the next smaller argument, is sent that one's sum and returns its
own; a driver keeps the suspended generators in a list. -/

namespace Coroutine.Recursion

inductive Code
  /-- Recurses from `n` down; the numbers of the callers are pending. -/
  | descend (n : Nat) (pending : List Nat)
  /-- Adds the pending numbers to what came back. -/
  | ascend (sum : Int) (pending : List Nat)
  /-- Computes the sum up to `n`, asking for the sum up to `n - 1`. -/
  | level (n : Nat)
  | finish (outcome : Except Exception Value)
  | missing

/-- The error of a level that is resumed without the sum that it asked for. -/
def missingResult : ErrorValue :=
  ⟨"recursion::auto_heap_state::MissingResult", "no result was sent back", "MissingResult", [],
    .nothing⟩

def Code.request : Code → Request Code
  | .descend 0 pending => .yield (.int 0) fun
    | .ok _ => .ascend 0 pending
    | .error e => .finish (.error e)
  | .descend (n + 1) pending => .silent (.descend n ((n + 1) :: pending))
  | .ascend sum [] => .finish (.ok (.int sum))
  | .ascend sum (n :: pending) => .silent (.ascend (n + sum) pending)
  | .level 0 => .finish (.ok (.int 0))
  | .level (n + 1) => .yield (.int n) fun
    | .ok (some (.int sum)) => .finish (.ok (.int ((n + 1 : Nat) + sum)))
    | .ok _ => .missing
    | .error e => .finish (.error e)
  | .finish outcome => .finish outcome
  | .missing => .make (.fresh (.value missingResult)) fun e => .finish (.error e)

def program : Program Code := ⟨Code.request⟩

def triangular (stackSize : Nat) (entry : Code) : Definition Code where
  name := "triangular"
  stackSize := stackSize
  context := none
  captures := []
  cleanup := []
  cleanupPanic := none
  entry := entry

/-- Three resumptions of the generator that recurses on its own stack, where a stack can get so much
memory. -/
def onStack (stackMemory n stackSize : Nat) : List Reply :=
  let steps := [.create "g" (triangular stackSize (.descend n [])), .resume "g" none,
    .resume "g" none, .resume "g" none]
  ((Session.performAll program { stackMemory } steps).1.map Session.StepReport.reply).tail

/-- The name of the generator at a depth of the driver's list. -/
def nameAt (depth : Nat) : String := toString depth

/-- How the driver's loop ends: with the sum and the largest number of generators that were alive at
once, or with the reply of an operation that failed. -/
inductive Result
  | sum (total : Int) (most : Nat)
  | failed (r : Reply)

/-- The driver's loop, from the reply of the generator on top of `depth` suspended ones. An argument
that is asked for is given to a new generator on top; a sum is sent to the generator below. -/
def drive (stackSize : Nat) : Nat → World Code → Nat → Nat → Reply → Result
  | 0, _, _, _, r => .failed r
  | fuel + 1, w, depth, most, r =>
    match r, depth with
    | .yielded (.int n), _ =>
      let (_, w) := Session.perform program w
        (.create (nameAt (depth + 1)) (triangular stackSize (.level n.toNat)))
      let (r, w) := Session.perform program w (.resume (nameAt (depth + 1)) none)
      drive stackSize fuel w (depth + 1) (max most w.alive) r
    | .returned (.int total), 0 => .sum total most
    | .returned v, depth + 1 =>
      let (_, w) := Session.perform program w (.drop (nameAt (depth + 1)))
      let (r, w) := Session.perform program w (.resume (nameAt depth) (some v))
      drive stackSize fuel w depth most r
    | r, _ => .failed r

/-- The sum with one generator for each level, where a stack can get so much memory. The loop takes
one turn for each generator and one for each sum. -/
def onHeap (stackMemory n stackSize : Nat) : Result :=
  let (_, w) := Session.perform program { stackMemory }
    (.create (nameAt 0) (triangular stackSize (.level n)))
  let (r, w) := Session.perform program w (.resume (nameAt 0) none)
  drive stackSize (2 * n + 2) w 0 w.alive r

end Coroutine.Recursion
