import Coroutine.Text.Quoted
import Coroutine.Text.Numeral
import Coroutine.Text.TypeName

/-! The error values that producers and callers raise. A value is known by the name of its type, its
message, its inspected form and the messages of its sources; a handler that knows its type can also
read what it carries. -/

namespace Coroutine

/-- What a handler that knows the type of an error value can read from it. -/
inductive Carried
  | code (n : Nat)
  | number (n : Int)
  | unit
  | nothing
  deriving DecidableEq, Repr

/-- An error value. -/
structure ErrorValue where
  /-- The full name of its type. -/
  typeName : String
  message : String
  inspect : String
  sources : List String
  carried : Carried
  deriving DecidableEq, Repr

namespace ErrorValue

/-- The module of the error types that scripts raise, unless they are handed in from another. -/
def scripted : String := "oracle_driver::errors"

/-- An error with a code of eight bits. -/
def custom (n : Int) (path : String := scripted) : ErrorValue :=
  let code := (n % 256).toNat
  ⟨path ++ "::CustomError", "custom failure #" ++ toString code,
    "CustomError(" ++ toString code ++ ")", [], .code code⟩

def outOfRange (n : Int) (path : String := scripted) : ErrorValue :=
  ⟨path ++ "::OutOfRange", "value out of range: " ++ toString n,
    "OutOfRange(" ++ toString n ++ ")", [], .number n⟩

def text (s : String) (path : String := scripted) : ErrorValue :=
  ⟨path ++ "::Text", s, "Text(" ++ Text.quoted s ++ ")", [], .nothing⟩

def unit (path : String := scripted) : ErrorValue :=
  ⟨path ++ "::Unit", "unit failure", "Unit", [], .unit⟩

/-- A reference to an error value, which is of another type. -/
def reference (e : ErrorValue) : ErrorValue :=
  { e with typeName := "&" ++ e.typeName, carried := .nothing }

def box (e : ErrorValue) : ErrorValue :=
  { e with typeName := "alloc::boxed::Box<" ++ e.typeName ++ ">", carried := .nothing }

def unitRef (path : String := scripted) : ErrorValue := (unit path).reference

def boxed (path : String := scripted) : ErrorValue := (unit path).box

/-- An error with a source of its own. -/
def chained (n : Int) (path : String := scripted) : ErrorValue :=
  let source := outOfRange n path
  ⟨path ++ "::Chained", "chained", "Chained(" ++ source.inspect ++ ")", [source.message], .nothing⟩

/-- An error value under a tag. -/
def tagged (n : Int) (e : ErrorValue) (path : String := scripted) : ErrorValue :=
  ⟨path ++ "::Tagged<" ++ e.typeName ++ ">", "tagged " ++ toString n ++ ": " ++ e.message,
    "Tagged(" ++ toString n ++ ", " ++ e.inspect ++ ")", [], .nothing⟩

def taggedRange (n : Int) (path : String := scripted) : ErrorValue :=
  tagged n (outOfRange n path) path

def taggedTwice (n : Int) (path : String := scripted) : ErrorValue :=
  tagged n (tagged n (unit path) path) path

def buried (path : String := scripted) : ErrorValue :=
  ⟨path ++ "::deep::er::Buried", "buried", "Buried", [], .nothing⟩

def pair (n : Int) (path : String := scripted) : ErrorValue :=
  let first := outOfRange n path
  let second := buried path
  ⟨path ++ "::Pair<" ++ first.typeName ++ ", " ++ second.typeName ++ ">",
    "pair of " ++ first.message ++ " and " ++ second.message,
    "Pair(" ++ first.inspect ++ ", " ++ second.inspect ++ ")", [], .nothing⟩

/-- A text that is no number of eight bits. -/
def numeral (reason : Text.NumeralError) : ErrorValue :=
  ⟨"core::num::error::ParseIntError", reason.message,
    "ParseIntError \x7b kind: " ++ reason.label ++ " \x7d", [], .nothing⟩

end ErrorValue

end Coroutine
