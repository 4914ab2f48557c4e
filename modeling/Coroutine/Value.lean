/-! The values that producers and callers exchange, with the arithmetic of signed 64-bit words. -/

namespace Coroutine

/-- A value: a scalar, a list, or a record whose fields are sorted by name. -/
inductive Value
  | null
  | bool (b : Bool)
  | int (n : Int)
  | text (s : String)
  | list (vs : List Value)
  | record (fields : List (String × Value))
  deriving Inhabited

namespace Value

mutual

def same : Value → Value → Bool
  | null, null => true
  | bool a, bool b => a == b
  | int a, int b => a == b
  | text a, text b => a == b
  | list as, list bs => sameList as bs
  | record as, record bs => sameFields as bs
  | _, _ => false

def sameList : List Value → List Value → Bool
  | [], [] => true
  | a :: as, b :: bs => same a b && sameList as bs
  | _, _ => false

def sameFields : List (String × Value) → List (String × Value) → Bool
  | [], [] => true
  | (x, a) :: as, (y, b) :: bs => x == y && same a b && sameFields as bs
  | _, _ => false

end

/-- Null, false and zero are false; every other value is true. -/
def isTrue : Value → Bool
  | null => false
  | bool b => b
  | int n => n != 0
  | _ => true

/-- The signed 64-bit word congruent to an integer. -/
def wrap (n : Int) : Int := n.bmod (1 <<< 64)

/-- The number that a value stands for in arithmetic: zero unless it is a signed 64-bit word. -/
def number : Value → Int
  | int n => if wrap n = n then n else 0
  | _ => 0

end Value

end Coroutine
