import Coroutine.Text.Printable

/-! Quoted text: a string between double quotes, in which every character that is not printable is
written as an escape. Two strings with one quoted form are equal strings. -/

namespace Coroutine.Text

/-- The hexadecimal digits of a code point, in lower case and without leading zeros. -/
def hexDigits (code : Nat) : List Char := Nat.toDigits 16 code

/-- The escape of a character: a short one where there is one, its code point otherwise, and the
character itself when it is printable. -/
def escape (c : Char) : List Char :=
  if c = '\x00' then ['\\', '0']
  else if c = '\t' then ['\\', 't']
  else if c = '\n' then ['\\', 'n']
  else if c = '\r' then ['\\', 'r']
  else if c = '"' then ['\\', '"']
  else if c = '\\' then ['\\', '\\']
  else if isPrintable c then [c]
  else ['\\', 'u', '\x7b'] ++ hexDigits c.toNat ++ ['\x7d']

/-- A string as it is quoted in a message. -/
def quoted (s : String) : String :=
  String.ofList ('"' :: s.toList.flatMap escape ++ ['"'])

def quotedList (ss : List String) : String :=
  "[" ++ ", ".intercalate (ss.map quoted) ++ "]"

end Coroutine.Text
