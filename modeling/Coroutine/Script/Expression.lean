import Coroutine.Table
import Coroutine.Value

/-! The expressions of scripts. Evaluation is total: a variable that is not set and an operand that
is missing are null, and arithmetic wraps. -/

namespace Coroutine.Script

abbrev Variables := Table Value

/-- What an expression applies to its operands. -/
inductive Operator
  | add
  | sub
  | mul
  /-- The remainder that is never negative; zero for the divisor zero. -/
  | mod
  | lt
  | eq
  | not
  | list
  /-- Joins the texts among the operands. -/
  | cat
  | push
  deriving DecidableEq, Repr

inductive Expression
  | literal (v : Value)
  | variable (x : String)
  | apply (op : Operator) (args : List Expression)
  deriving Inhabited

/-- The text of a value, nothing if it is no text. -/
def textOf : Value → String
  | .text s => s
  | _ => ""

/-- The elements of a value, none if it is no list. -/
def elementsOf : Value → List Value
  | .list vs => vs
  | _ => []

namespace Operator

def eval (op : Operator) (args : List Value) : Value :=
  let a := args.getD 0 .null
  let b := args.getD 1 .null
  match op with
  | add => .int (Value.wrap (a.number + b.number))
  | sub => .int (Value.wrap (a.number - b.number))
  | mul => .int (Value.wrap (a.number * b.number))
  | mod => .int (if b.number = 0 then 0 else a.number.emod b.number)
  | lt => .bool (decide (a.number < b.number))
  | eq => .bool (a.same b)
  | not => .bool (!a.isTrue)
  | list => .list args
  | cat => .text (String.join (args.map textOf))
  | push => .list (elementsOf a ++ [b])

end Operator

mutual

def Expression.eval (vars : Variables) : Expression → Value
  | .literal v => v
  | .variable x => (vars.find? x).getD .null
  | .apply op args => op.eval (evalAll vars args)

def evalAll (vars : Variables) : List Expression → List Value
  | [] => []
  | e :: es => e.eval vars :: evalAll vars es

end

end Coroutine.Script
