import Coroutine.Exception.Ledger
import Coroutine.Value

/-! What a caller can do: the steps on named generators, iterators, exceptions and raw fibers, and
the definitions that new generators are made from. The type `C` is that of user code. -/

namespace Coroutine

mutual

/-- A step on the names that a session owns. -/
inductive Step (C : Type)
  /-- Names a new generator. -/
  | create (g : String) (definition : Definition C)
  | resume (g : String) (sent : Option Value)
  | throw (g : String) (e : ExceptionSpec)
  | close (g : String)
  | info (g : String)
  | clone (g as : String)
  | drop (g : String)
  | sameGenerator (g h : String)
  /-- Names an iterator, which gets the handle of `g` if `into` is set and another one if not. -/
  | iterate (g it : String) (into : Bool)
  | pull (it : String) (count : Nat)
  | dropIterator (it : String)
  | nameException (name : String) (e : ExceptionSpec)
  | describe (e : ExceptionSpec)
  | sameException (a b : ExceptionSpec)
  /-- Panics while owning the handles of these names. -/
  | unwind (names : List String)
  | createFiber (f : String) (size : Nat) (captures : List (Guard C)) (entry : C)
  | switch (f : String)
  | fiberInfo (f : String)
  | destroy (f : String)
  | dropFiber (f : String)
  /-- Panics while owning the fibers of these names. -/
  | unwindFibers (names : List String)
  /-- Panics while a fiber is to be destroyed. -/
  | unwindDestroy (f : String)

/-- What a generator is made from. Without a context it is a plain one. -/
structure Definition (C : Type) where
  name : String
  stackSize : Nat
  context : Option (List Value)
  captures : List (Guard C)
  cleanup : List (Step C)
  cleanupPanic : Option String
  entry : C

/-- A value with release logic: the steps that are made when it is released. -/
structure Guard (C : Type) where
  name : String
  onDrop : List (Step C)

end

instance {C : Type} : Inhabited (Step C) := ⟨.info ""⟩

instance {C : Type} : Inhabited (Guard C) := ⟨⟨"", []⟩⟩

instance {C : Type} [Inhabited C] : Inhabited (Definition C) :=
  ⟨⟨"", 0, none, [], [], none, default⟩⟩

end Coroutine
