import Coroutine.Program
import Coroutine.Script.Expression

/-! The scripts of producers. A script is a list of statements; the code of a running script keeps
what it is about to do, the statements around it and its variables. -/

namespace Coroutine.Script

/-- How an error that an operation came back with is raised in the script. -/
inductive Raising
  /-- An exception that is reported is raised itself; every other error is wrapped. -/
  | raised
  | wrapped
  deriving DecidableEq, Repr

inductive Completion
  | normal
  | returned (v : Value)
  | broke
  | raised (e : Exception)

/-- What a script does with its view of its own generator. -/
inductive ViewStatement
  | resume (sent : Option Expression)
  | other (v : View)

mutual

inductive Statement
  | yield (v : Expression) (target : Option String)
  /-- Suspends without a value. -/
  | switchOut
  | returning (v : Expression)
  | breaking
  | raise (e : ExceptionSpec)
  | panic (message : String)
  | set (x : String) (v : Expression)
  | branch (c : Expression) (yes no : List Statement)
  | whileLoop (c : Expression) (body : List Statement)
  /-- Repeats, without end if there is no count. -/
  | loop (count : Option Nat) (body : List Statement)
  | emit (v : Expression)
  | append (v : Expression)
  | producerName
  /-- Handles the exceptions of the given kinds, or of all kinds if none are given, and runs the
  last statements in any case. -/
  | attempt (body : List Statement) (kinds : Option (List String)) (name : Option String)
      (handler last : List Statement)
  | guard (g : Guard Code) (body : List Statement)
  | generator (name : String) (definition : Definition Code) (body : List Statement)
  | call (c : Call) (target tag : Option String) (raising : Option Raising) (catchesPanics : Bool)
  | forEach (x g : String) (into : Bool) (raising : Raising) (body : List Statement)
  | view (v : ViewStatement)
  | procedure (name : String) (args : List Expression) (target : Option String)

/-- A step that a script calls: a resumption whose value is an expression, or another step. -/
inductive Call
  | resume (g : String) (sent : Option Expression)
  | step (s : Step Code)

/-- A statement that is being carried out. -/
inductive Around
  | andThen (rest : List Statement)
  | whileLoop (c : Expression) (body : List Statement)
  /-- How often the body is still to be repeated. -/
  | loop (left : Option Nat) (body : List Statement)
  | forEach (x : String) (raising : Raising) (body : List Statement)
  | attempt (kinds : Option (List String)) (name : Option String) (handler last : List Statement)
  | handler (last : List Statement)
  /-- The last statements of an attempt, whose completion so far is `c`. -/
  | last (c : Completion)
  | scope
  /-- A procedure, and the variables of its caller. -/
  | procedure (target : Option String) (saved : Variables)

/-- What a script is about to do. -/
inductive Focus
  | run (statements : List Statement)
  | complete (c : Completion)
  /-- Gets the next item of the loop around. -/
  | pull
  /-- Raises what an operation error stands for. -/
  | raise (raising : Raising) (e : OpError)

structure Code where
  focus : Focus
  around : List Around
  vars : Variables

end

instance : Inhabited Statement := ⟨.breaking⟩

instance : Inhabited Call := ⟨.step default⟩

instance : Inhabited Code := ⟨⟨.pull, [], .empty⟩⟩

/-- The code of a script that has not run. -/
def Code.ofStatements (statements : List Statement) : Code := ⟨.run statements, [], .empty⟩

/-- A procedure: its parameters and its body. -/
structure Procedure where
  params : List String
  body : List Statement

end Coroutine.Script
