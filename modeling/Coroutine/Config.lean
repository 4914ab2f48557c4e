import Coroutine.Record
import Coroutine.Text.Blank

/-! How a producer's stack is configured, by the program or by the environment variable
`FIBER_GEN_STACK_SIZE`. Main statement: a configuration keeps the last size that it was given. -/

namespace Coroutine

/-- The environment variable with the size of stacks. -/
def stackSizeVariable : String := "FIBER_GEN_STACK_SIZE"

/-- The configuration of a producer. -/
structure Config where
  stackSize : Nat := defaultStackSize
  deriving DecidableEq, Repr, Inhabited

namespace Config

/-- The configuration with another size of stack; a size out of range is reported when the stack is
allocated. -/
def withStackSize (config : Config) (size : Nat) : Config := { config with stackSize := size }

/-- The configuration with its fields. -/
def inspect (config : Config) : String :=
  "Config \x7b stack_size: " ++ toString config.stackSize ++ " \x7d"

/-- The configuration that a text asks for, and the record of a text that is no size of 64 bits. -/
def ofText (raw : String) : Config × Option Record :=
  match Text.readNumeral (1 <<< 64) (Text.trimBlanks raw.toList) with
  | .ok size => ({ stackSize := size }, none)
  | .error reason => ({}, some (.ignoredSize raw reason))

/-- The configuration that the content of the variable asks for. Without content, or with one that
is no text, it is the default one. -/
def ofEnvironment (content : Option ByteArray) : Config × Option Record :=
  match content.bind String.fromUTF8? with
  | some raw => ofText raw
  | none => ({}, none)

/-- The configurations that follow one another when sizes are set in turn. -/
def scan (config : Config) (sizes : List Nat) : List Config :=
  config :: match sizes with
    | [] => []
    | size :: rest => scan (config.withStackSize size) rest

@[simp] theorem stackSize_withStackSize (config : Config) (size : Nat) :
    (config.withStackSize size).stackSize = size := rfl

/-- Of two sizes that are set, the later one stays. -/
@[simp] theorem withStackSize_withStackSize (config : Config) (first second : Nat) :
    (config.withStackSize first).withStackSize second = config.withStackSize second := rfl

end Config

end Coroutine
