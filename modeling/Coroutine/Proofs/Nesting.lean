import Coroutine.Proofs.Traceback
import Mathlib.Data.List.Chain

/-! Exceptions nested in one another, directly or in operation errors that report them. Main statement:
the message of a nesting shows all its layers and the innermost value, the chain of its sources ends
at the first operation error, the tests for a type see only the outermost value, and each layer that is
made is an exception of its own. -/

namespace Coroutine

/-! ### Layers -/

/-- Neither an exception nor the report of one. -/
def Failure.Innermost : Failure → Prop
  | .exception _ | .operation (.raised _) => False
  | _ => True

/-- An exception wraps another one, or an operation error that reports it. -/
def Exception.Holds (outer inner : Exception) : Prop :=
  outer.failure = .exception inner ∨ outer.failure = .operation (.raised inner)

mutual

/-- The exceptions nested in what an exception wraps, from the outside in. -/
def Failure.layers : Failure → List Exception
  | .value _ | .exit => []
  | .exception e => e.layers
  | .operation e => e.layers

/-- An exception and those nested in it, from the outside in. -/
def Exception.layers : Exception → List Exception
  | ⟨id, f⟩ => ⟨id, f⟩ :: f.layers

def OpError.layers : OpError → List Exception
  | .raised e => e.layers
  | .reentrancy _ | .exhausted _ | .sentBeforeStart _ | .fiberAllocation _ _ => []

end

mutual

/-- The innermost value: all around it are exceptions, and errors that report one. -/
def Failure.core : Failure → Failure
  | .value e => .value e
  | .exit => .exit
  | .exception e => e.core
  | .operation e => e.core

def Exception.core : Exception → Failure
  | ⟨_, f⟩ => f.core

def OpError.core : OpError → Failure
  | .raised e => e.core
  | e => .operation e

end

mutual

/-- The values of the exceptions that are nested directly in one another, from the outside in. -/
def Failure.values : Failure → List Failure
  | .exception e => e.values
  | _ => []

def Exception.values : Exception → List Failure
  | ⟨_, f⟩ => f :: f.values

end

namespace Exception

variable {id : ExceptionId} {f : Failure} {e x : Exception}

/-- A nesting is an innermost value in an exception, or one more exception around a nesting or around
an error that reports it. -/
@[elab_as_elim]
theorem nesting_induction {motive : Exception → Prop}
    (innermost : ∀ id f, f.Innermost → motive ⟨id, f⟩)
    (exception : ∀ id e, motive e → motive ⟨id, .exception e⟩)
    (raised : ∀ id e, motive e → motive ⟨id, .operation (.raised e)⟩) : ∀ e, motive e
  | ⟨id, .value _⟩ => innermost id _ trivial
  | ⟨id, .exit⟩ => innermost id _ trivial
  | ⟨id, .exception e⟩ => exception id e (nesting_induction innermost exception raised e)
  | ⟨id, .operation (.raised e)⟩ => raised id e (nesting_induction innermost exception raised e)
  | ⟨id, .operation (.reentrancy _)⟩ => innermost id _ trivial
  | ⟨id, .operation (.exhausted _)⟩ => innermost id _ trivial
  | ⟨id, .operation (.sentBeforeStart _)⟩ => innermost id _ trivial
  | ⟨id, .operation (.fiberAllocation _ _)⟩ => innermost id _ trivial

/-- An exception around an innermost value has that layer only. -/
theorem parts_of_innermost (h : f.Innermost) :
    layers ⟨id, f⟩ = [⟨id, f⟩] ∧ core ⟨id, f⟩ = f ∧ values ⟨id, f⟩ = [f] := by
  cases f with
  | value | exit => exact ⟨rfl, rfl, rfl⟩
  | exception => cases h
  | operation o =>
    cases o with
    | raised => cases h
    | _ => exact ⟨rfl, rfl, rfl⟩

/-- These exceptions are the layers of a nesting from the outside in, with this value inside. -/
structure Layered (e : Exception) (layers : List Exception) (core : Failure) : Prop where
  head : layers.head? = some e
  chain : layers.IsChain Holds
  last : layers.getLast?.map failure = some core
  innermost : core.Innermost

theorem Layered.cons {layers : List Exception} {core : Failure} (h : e.Layered layers core)
    (hx : x.Holds e) : x.Layered (x :: layers) core := by
  obtain ⟨rest, rfl⟩ : ∃ rest, layers = e :: rest := List.head?_eq_some_iff.mp h.head
  constructor
  case head => rfl
  case chain => exact List.isChain_cons_cons.mpr ⟨hx, h.chain⟩
  case last =>
    rw [List.getLast?_cons_cons]
    exact h.last
  case innermost => exact h.innermost

theorem layered (e : Exception) : e.Layered e.layers e.core := by
  induction e using nesting_induction with
  | innermost id f hf =>
    obtain ⟨hlayers, hcore, -⟩ := parts_of_innermost hf
    rw [hlayers, hcore]
    exact ⟨rfl, .singleton _, rfl, hf⟩
  | exception id e ih => exact ih.cons (.inl rfl)
  | raised id e ih => exact ih.cons (.inr rfl)

/-- The message of an exception names the kinds of its layers and shows the innermost value. -/
theorem message_eq (e : Exception) :
    e.message = e.layers.foldr (fun x shown => x.kind ++ ": " ++ shown) e.core.message := by
  induction e using nesting_induction with
  | innermost id f hf =>
    obtain ⟨hlayers, hcore, -⟩ := parts_of_innermost hf
    rw [hlayers, hcore]
    rfl
  | exception id e ih =>
    calc message ⟨id, .exception e⟩
      _ = (Failure.exception e).kind ++ ": " ++ e.message := rfl
      _ = (Failure.exception e).kind ++ ": " ++ e.layers.foldr _ e.core.message := by rw [ih]
  | raised id e ih =>
    calc message ⟨id, .operation (.raised e)⟩
      _ = (Failure.operation (.raised e)).kind ++ ": " ++ e.message := rfl
      _ = (Failure.operation (.raised e)).kind ++ ": " ++ e.layers.foldr _ e.core.message := by
        rw [ih]

/-! ### Sources -/

/-- These are the values of exceptions that are nested directly, the outermost one's first, as far as
such a nesting goes. -/
structure Chained (e : Exception) (values : List Failure) (deepest : Failure) : Prop where
  head : values.head? = some e.failure
  chain : values.IsChain fun f inner => ∃ x, f = .exception x ∧ x.failure = inner
  last : values.getLast? = some deepest
  ends : ∀ x, deepest ≠ .exception x

/-- The chain of sources lists the values of the exceptions that are nested directly, and then the
sources of the last one of them. -/
theorem exists_chained (e : Exception) : ∃ deepest, e.Chained e.values deepest ∧
    e.sources = e.values.map Failure.message ++ deepest.sources := by
  induction e using nesting_induction with
  | innermost id f hf =>
    obtain ⟨-, -, hvalues⟩ := parts_of_innermost hf
    rw [hvalues]
    refine ⟨f, ⟨rfl, .singleton _, rfl, ?_⟩, rfl⟩
    rintro x rfl
    cases hf
  | exception id e ih =>
    obtain ⟨deepest, hchained, hsources⟩ := ih
    obtain ⟨rest, hrest⟩ : ∃ rest, e.values = e.failure :: rest :=
      List.head?_eq_some_iff.mp hchained.head
    have hvalues : values ⟨id, .exception e⟩ = .exception e :: e.values := rfl
    refine ⟨deepest, ⟨rfl, ?_, ?_, hchained.ends⟩, ?_⟩
    · rw [hvalues, hrest, List.isChain_cons_cons, ← hrest]
      exact ⟨⟨e, rfl, rfl⟩, hchained.chain⟩
    · rw [hvalues, hrest, List.getLast?_cons_cons, ← hrest]
      exact hchained.last
    · rw [hvalues, List.map_cons, List.cons_append, ← hsources]
      rfl
  | raised id e =>
    -- An operation error has no source, so the chain ends although the nesting goes on.
    exact ⟨.operation (.raised e), ⟨rfl, .singleton _, rfl, nofun⟩, rfl⟩

/-! ### Tests for a type -/

theorem isExit_iff : e.isExit = true ↔ e.failure = .exit := by
  unfold isExit
  split
  · next h => simp [h]
  · next h => simpa using h

/-- An exception that holds another one is no exit signal, whatever that one is. -/
theorem Holds.not_isExit (h : e.Holds x) : e.isExit = false := by
  rw [Bool.eq_false_iff, ne_eq, isExit_iff]
  rcases h with h | h <;> simp [h]

theorem exists_holds (h : x ∈ e.layers.tail) : ∃ y, e.Holds y := by
  obtain ⟨rest, hrest⟩ : ∃ rest, e.layers = e :: rest := List.head?_eq_some_iff.mp e.layered.head
  have hchain := e.layered.chain
  rw [hrest] at h hchain
  cases rest with
  | nil => cases h
  | cons y rest => exact ⟨y, (List.isChain_cons_cons.mp hchain).1⟩

end Exception

/-- What the tests for a type tell of an exception follows from the value that it wraps, and not from
what is nested in that value. -/
structure Description.Tells (d : Description) (f : Failure) : Prop where
  exit : d.isExit = true ↔ f = .exit
  operation : d.isOperation = true ↔ ∃ o, f = .operation o
  exception : d.isException = true ↔ ∃ x, f = .exception x
  /-- Only a value of its own type can be read. -/
  carried : ∀ c ≠ .nothing, d.carried = c ↔ ∃ v, f = .value v ∧ v.carried = c

namespace Ledger

variable {l l' : Ledger} {id : ExceptionId} {f : Failure} {layers : List Exception} {n : Nat}

theorem tells_describe (l : Ledger) (e : Exception) : (l.describe e).1.Tells e.failure := by
  obtain ⟨id, f⟩ := e
  constructor
  case exit => exact Exception.isExit_iff
  case operation | exception => cases f <;> simp [describe]
  case carried =>
    intro c hc
    cases f with
    | value v => simp [describe]
    | exit | exception | operation => simpa [describe] using Ne.symm hc

/-! ### Identity -/

/-- There is an exception with this identity. -/
def Has (l : Ledger) (id : ExceptionId) : Prop := id < l.tracebacks.size

/-- These layers were made one after another, the innermost one first. -/
def Made (l : Ledger) (layers : List Exception) : Prop :=
  (l.tracebacks.size :: layers.map Exception.id).Pairwise (· > ·)

/-- Names stand for exceptions that were made. -/
def Known (l : Ledger) : Prop := ∀ name e, l.named.find? name = some e → l.Made e.layers

theorem made_nil (l : Ledger) : l.Made [] := List.pairwise_singleton _ _

theorem Made.mono (h : l.Made layers) (hle : l.tracebacks.size ≤ l'.tracebacks.size) :
    l'.Made layers := by
  obtain ⟨hbelow, hlayers⟩ := List.pairwise_cons.mp h
  refine List.pairwise_cons.mpr ⟨fun id hid => ?_, hlayers⟩
  have := hbelow id hid
  omega

theorem Made.has (h : l.Made layers) : ∀ x ∈ layers, l.Has x.id := by
  intro x hx
  exact (List.pairwise_cons.mp h).1 x.id (List.mem_map_of_mem hx)

theorem Made.nodup (h : l.Made layers) : (layers.map Exception.id).Nodup :=
  (List.pairwise_cons.mp h).2.imp Nat.ne_of_gt

theorem Made.create (h : l.Made f.layers) : (l.create f).2.Made (l.create f).1.layers := by
  show ((l.create f).2.tracebacks.size :: l.tracebacks.size :: f.layers.map Exception.id).Pairwise _
  rw [size_create]
  refine List.pairwise_cons.mpr ⟨?_, h⟩
  intro id hid
  rcases List.mem_cons.mp hid with rfl | hid
  · exact Nat.lt_succ_self _
  · exact Nat.lt_succ_of_lt ((List.pairwise_cons.mp h).1 id hid)

theorem traceback_of_not_has (h : ¬ l.Has id) : l.traceback id = [] :=
  dif_neg h

theorem known_empty : Known {} := nofun

theorem Known.call {e : Exception} (h : l.Known) (he : l.Made e.layers) (name : String) :
    (l.call name e).Known := by
  intro other x hx
  rw [Ledger.call, Table.find?_insert] at hx
  split at hx
  · cases hx
    exact he
  · exact h other x hx

theorem named_meet (l : Ledger) (e : Exception) : (l.meet e).2.named = l.named := by
  simp only [meet]
  split <;> rfl

/-- What has been made since `l`: so many exceptions around what there was. -/
structure Adds (l l' : Ledger) (layers : List Exception) (n : Nat) : Prop where
  made : l'.Made layers
  size : l.tracebacks.size ≤ l'.tracebacks.size
  names : l'.named = l.named
  parts : ∃ added old, layers = added ++ old ∧ added.length = n ∧ (∀ x ∈ added, ¬ l.Has x.id) ∧
    l.Made old

theorem Adds.of_made (h : l.Made layers) : Adds l l layers 0 :=
  ⟨h, Nat.le_refl _, rfl, [], layers, rfl, rfl, List.forall_mem_nil _, h⟩

theorem Adds.meet (h : Adds l l' layers n) (e : Exception) : Adds l (l'.meet e).2 layers n where
  made := h.made.mono (Nat.le_of_eq (size_meet l' e).symm)
  size := by
    rw [size_meet]
    exact h.size
  names := by
    rw [named_meet]
    exact h.names
  parts := h.parts

theorem Adds.create (h : Adds l l' f.layers n) :
    Adds l (l'.create f).2 (l'.create f).1.layers (n + 1) := by
  obtain ⟨added, old, hlayers, hlength, hadded, hold⟩ := h.parts
  constructor
  case made => exact h.made.create
  case size =>
    rw [size_create]
    exact Nat.le_succ_of_le h.size
  case names => exact h.names
  case parts =>
    refine ⟨(l'.create f).1 :: added, old, ?_, ?_, ?_, hold⟩
    · show (l'.create f).1 :: f.layers = _
      rw [hlayers, List.cons_append]
    · rw [List.length_cons, hlength]
    · exact List.forall_mem_cons.mpr ⟨Nat.not_lt.mpr h.size, hadded⟩

theorem Adds.createMet (h : Adds l l' f.layers n) :
    Adds l (l'.createMet f).2 (l'.createMet f).1.layers (n + 1) :=
  h.create.meet _

theorem Adds.known (h : Adds l l' layers n) (hl : l.Known) : l'.Known := by
  intro name e he
  rw [h.names] at he
  exact (hl name e he).mono h.size

mutual

/-- How many exceptions a specification asks to make: one for each wrapping, and one for a name that
stands for none. -/
def wrappings (l : Ledger) : ExceptionSpec → Nat
  | .named name => if (l.named.find? name).isSome then 0 else 1
  | .fresh f => l.wrappingsIn f + 1

def wrappingsIn (l : Ledger) : FailureSpec → Nat
  | .value _ | .exit => 0
  | .exception e => l.wrappings e
  | .operation e => l.wrappingsInError e

def wrappingsInError (l : Ledger) : OpErrorSpec → Nat
  | .raised e => l.wrappings e
  | .reentrancy _ | .exhausted _ | .sentBeforeStart _ | .fiberAllocation _ _ => 0

end

mutual

/-- Making an exception makes a new one for each wrapping, and keeps what it is made around. -/
theorem adds_make (hl : l.Known) (s : ExceptionSpec) :
    Adds l (l.make s).2 (l.make s).1.layers (l.wrappings s) := by
  cases s with
  | named name =>
    simp only [make, wrappings]
    cases hfind : l.named.find? name with
    | some e => exact (Adds.of_made (hl name e hfind)).meet e
    | none => exact (Adds.of_made l.made_nil).createMet
  | fresh f =>
    -- What is wrapped was made before, so the new identity is above all those in it.
    simp only [make, wrappings]
    exact (adds_makeFailure hl f).createMet

theorem adds_makeFailure (hl : l.Known) (s : FailureSpec) :
    Adds l (l.makeFailure s).2 (l.makeFailure s).1.layers (l.wrappingsIn s) := by
  cases s with
  | value | exit => exact .of_made l.made_nil
  | exception e => exact adds_make hl e
  | operation e => exact adds_makeError hl e

theorem adds_makeError (hl : l.Known) (s : OpErrorSpec) :
    Adds l (l.makeError s).2 (l.makeError s).1.layers (l.wrappingsInError s) := by
  cases s with
  | raised e => exact adds_make hl e
  | _ => exact .of_made l.made_nil

end

/-- How exceptions and operation errors are nested in one another, and what shows of it. -/
structure Nests (l : Ledger) : Prop where
  layered : ∀ e : Exception, e.Layered e.layers e.core
  /-- The message is the kinds of the layers, and then the message of the innermost value. -/
  display : ∀ e : Exception,
    e.message = e.layers.foldr (fun x shown => x.kind ++ ": " ++ shown) e.core.message
  /-- An error that reports an exception shows its message, -/
  transparent : ∀ e : Exception, (OpError.raised e).message = e.message
  /-- but has no source. -/
  sourceless : ∀ o : OpError, o.sources = [] ∧ (Failure.operation o).sources = []
  /-- The chain of sources lists the values of the exceptions that are nested directly, and then the
  sources of the last value. -/
  sources : ∀ e : Exception, ∃ deepest, e.Chained e.values deepest ∧
    e.sources = e.values.map Failure.message ++ deepest.sources
  described : ∀ e : Exception, (l.describe e).1.message = e.message ∧
    (l.describe e).1.sources = e.sources ∧ (l.describe e).1.isExit = e.isExit ∧
      (l.describe e).1.traceback = l.traceback e.id
  tests : ∀ e : Exception, (l.describe e).1.Tells e.failure
  /-- An exception around others is no exit signal, even if one of them is. -/
  hidden : ∀ e x : Exception, x ∈ e.layers.tail → e.isExit = false
  /-- Each wrapping makes a new exception, which has escaped from nowhere; -/
  created : ∀ f, (l.create f).1.failure = f ∧ ¬ l.Has (l.create f).1.id ∧
    (l.create f).2.Has (l.create f).1.id ∧ (l.create f).2.traceback (l.create f).1.id = []
  added : ∀ s, Adds l (l.make s).2 (l.make s).1.layers (l.wrappings s)
  distinct : ∀ s, ((l.make s).1.layers.map Exception.id).Nodup ∧
    ∀ x ∈ (l.make s).1.layers, (l.make s).2.Has x.id
  untold : ∀ s, ∀ x ∈ (l.make s).1.layers, ¬ l.Has x.id → (l.make s).2.traceback x.id = []
  /-- the exceptions in it are left as they are. -/
  kept : ∀ s, (l.make s).2.traceback = l.traceback
  /-- What has been made can be given a name. -/
  named : ∀ s name, ((l.make s).2.call name (l.make s).1).Known
  /-- To report an exception in an error makes nothing, and it is read off the error again. -/
  reported : ∀ s, l.makeError (.raised s) = (.raised (l.make s).1, (l.make s).2)
  given : ∀ (o : OpError) (e : Exception), o.exception? = some e ↔ o = .raised e

/-- Exceptions nest as they should in every ledger whose names stand for exceptions that were made. -/
theorem nests_of_known (hl : l.Known) : Nests l where
  layered := Exception.layered
  display := Exception.message_eq
  transparent _ := rfl
  sourceless _ := ⟨rfl, rfl⟩
  sources := Exception.exists_chained
  described e := ⟨rfl, rfl, rfl, congrFun (traceback_meet l e) e.id⟩
  tests := tells_describe l
  hidden e x hx := by
    obtain ⟨y, hy⟩ := Exception.exists_holds hx
    exact hy.not_isExit
  created f := by
    have hnew : ¬ l.Has (l.create f).1.id := Nat.lt_irrefl _
    refine ⟨rfl, hnew, ?_, ?_⟩
    · show l.tracebacks.size < (l.create f).2.tracebacks.size
      rw [size_create]
      exact Nat.lt_succ_self _
    · rw [traceback_create]
      exact traceback_of_not_has hnew
  added := adds_make hl
  distinct s := by
    have hmade := (adds_make hl s).made
    exact ⟨hmade.nodup, hmade.has⟩
  untold s x _ hx := by
    rw [traceback_make]
    exact traceback_of_not_has hx
  kept := traceback_make l
  named s name := by
    have hadds := adds_make hl s
    exact (hadds.known hl).call hadds.made name
  reported _ := rfl
  given o e := by cases o <;> simp [OpError.exception?]

/-- An exit signal with a name, in an error, in an exception, in an exception. -/
theorem nests_of_exit : ∃ (l : Ledger) (s : ExceptionSpec), Nests l ∧
    l.named.find? "exit" = some ⟨0, .exit⟩ ∧ l.wrappings s = 2 ∧
      (l.make s).1.layers.map Exception.id = [2, 1, 0] ∧ (l.make s).1.isExit = false ∧
        (l.make s).1.message = "Exception: GeneratorError: GeneratorExit: GeneratorExit" := by
  let l := (create {} .exit).2.call "exit" (create {} .exit).1
  have hl : l.Known := by
    have hadds : Adds {} (create {} .exit).2 (create {} .exit).1.layers 1 :=
      (Adds.of_made (made_nil {})).create
    exact (hadds.known known_empty).call hadds.made "exit"
  exact ⟨l, .fresh (.exception (.fresh (.operation (.raised (.named "exit"))))), nests_of_known hl,
    rfl, rfl, by decide +kernel, rfl, by decide +kernel⟩

end Ledger

end Coroutine
