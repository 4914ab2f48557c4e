/-! What a resumed producer comes back with: a value at a yield point, or its return value. -/

namespace Coroutine

/-- A producer suspended with a value or completed with one. -/
inductive Progress (α β : Type)
  | yielded (value : α)
  | returned (value : β)
  deriving DecidableEq, Repr

namespace Progress

variable {α β : Type}

def yielded? : Progress α β → Option α
  | yielded a => some a
  | returned _ => none

def returned? : Progress α β → Option β
  | yielded _ => none
  | returned b => some b

/-- The completion without a value. -/
def complete : Progress α Unit := returned ()

/-- A yielded value comes before a returned one, and values of one sort are ordered among
themselves. -/
def order [Ord α] [Ord β] : Progress α β → Progress α β → Ordering
  | yielded a, yielded b => compare a b
  | yielded _, returned _ => .lt
  | returned _, yielded _ => .gt
  | returned a, returned b => compare a b

/-- The progress as a message shows it, from the texts of its values. -/
def label (showYielded : α → String) (showReturned : β → String) : Progress α β → String
  | yielded a => "Yielded(" ++ showYielded a ++ ")"
  | returned b => "Returned(" ++ showReturned b ++ ")"

end Progress

end Coroutine
