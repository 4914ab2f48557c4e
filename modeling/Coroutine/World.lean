import Coroutine.Generator
import Coroutine.Stack

/-! The world that steps act on: the generators, the names of a session, the exceptions and the
history of events. -/

namespace Coroutine

/-- All that outlives a step. -/
structure World (C : Type) where
  generators : Array (Generator C) := #[]
  handles : Table GeneratorId := .empty
  iterators : Table (Option GeneratorId) := .empty
  fibers : Table (Fiber C) := .empty
  ledger : Ledger := {}
  /-- The number of guards that were ever held. -/
  guards : Nat := 0
  /-- What happened so far, the latest first. -/
  history : List Event := []
  /-- The memory that there is for one stack. -/
  stackMemory : Nat := defaultStackMemory
  deriving Inhabited

namespace World

variable {C : Type}

/-- The generator with an identity. -/
def generator (w : World C) (g : GeneratorId) : Generator C := w.generators.getD g .vacant

def modify (w : World C) (g : GeneratorId) (f : Generator C → Generator C) : World C :=
  { w with generators := w.generators.modify g f }

def note (w : World C) (e : Event) : World C := { w with history := e :: w.history }

def log (w : World C) (r : Record) : World C := w.note (.logged r)

def retain (w : World C) (g : GeneratorId) : World C :=
  w.modify g fun x => { x with handles := x.handles + 1 }

/-- Gives guards their serial numbers. -/
def holdGuards (w : World C) : List (Guard C) → List (HeldGuard C) × World C
  | [] => ([], w)
  | guard :: rest =>
    let (held, w') := holdGuards { w with guards := w.guards + 1 } rest
    (⟨w.guards, guard⟩ :: held, w')

def addGenerator (w : World C) (d : Definition C) : GeneratorId × World C :=
  let (captures, w) := w.holdGuards d.captures
  (w.generators.size,
    { w with generators := w.generators.push (.ofDefinition d captures) })

def report (w : World C) (e : OpError) : ErrorReport × World C :=
  let (r, ledger) := w.ledger.report e
  (r, { w with ledger })

def make (w : World C) (e : ExceptionSpec) : Exception × World C :=
  let (e, ledger) := w.ledger.make e
  (e, { w with ledger })

/-- The number of generators that have a handle. -/
def alive (w : World C) : Nat := w.generators.countP fun g => 0 < g.handles

theorem size_modify (w : World C) (g : GeneratorId) (f : Generator C → Generator C) :
    (w.modify g f).generators.size = w.generators.size := Array.size_modify

theorem generator_modify_self {w : World C} {g : GeneratorId} (h : g < w.generators.size)
    (f : Generator C → Generator C) : (w.modify g f).generator g = f (w.generator g) := by
  simp [generator, modify, Array.getElem_modify, h]

theorem generator_modify_of_ne {w : World C} {g h : GeneratorId} (hne : h ≠ g)
    (f : Generator C → Generator C) : (w.modify g f).generator h = w.generator h := by
  simp [generator, modify, Array.getElem?_modify, Ne.symm hne]

@[simp] theorem generator_note (w : World C) (e : Event) (g : GeneratorId) :
    (w.note e).generator g = w.generator g := rfl

@[simp] theorem generator_log (w : World C) (r : Record) (g : GeneratorId) :
    (w.log r).generator g = w.generator g := rfl

@[simp] theorem history_modify (w : World C) (g : GeneratorId) (f : Generator C → Generator C) :
    (w.modify g f).history = w.history := rfl

@[simp] theorem history_note (w : World C) (e : Event) :
    (w.note e).history = e :: w.history := rfl

end World

end Coroutine
