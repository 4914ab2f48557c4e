import Coroutine.Lifecycle
import Coroutine.Stack
import Coroutine.Text.Numeral
import Coroutine.Text.Quoted

/-! The log: what a record reports, how important it is, and its message. -/

namespace Coroutine

abbrev GeneratorId := Nat

inductive Level
  | trace
  | debug
  | info
  | warn
  | error
  deriving DecidableEq, Repr

namespace Level

/-- The place of a level, the least important first. -/
def rank : Level → Nat
  | trace => 0
  | debug => 1
  | info => 2
  | warn => 3
  | error => 4

def label : Level → String
  | trace => "TRACE"
  | debug => "DEBUG"
  | info => "INFO"
  | warn => "WARN"
  | error => "ERROR"

end Level

/-- What a log record reports. Where it names a generator it also has its identity. -/
inductive Record
  /-- The configured size `raw` is no size. -/
  | ignoredSize (raw : String) (reason : Text.NumeralError)
  /-- An operation was looked up in the table of the lifecycle. -/
  | transition (g : GeneratorId) (name : String) (before : Status) (op : Operation)
      (after : Status) (action : Action)
  | allocated (size : Nat)
  | starts (g : GeneratorId) (name : String) (size : Nat)
  | switchesIn (g : GeneratorId) (name : String)
  | switchesOut (g : GeneratorId) (name : String)
  | switchedBack (g : GeneratorId) (name : String)
  | injects (g : GeneratorId) (name : String) (kind : String)
  | raisesInjected (g : GeneratorId) (name : String) (kind : String)
  | closes (g : GeneratorId) (name : String)
  | ignoredExit (g : GeneratorId) (name : String)
  | finalizes (g : GeneratorId) (name : String)
  | leaksPayload (g : GeneratorId) (name : String)
  | failedToClose (g : GeneratorId) (name : String) (reason : String)
  | unwindsFiber
  /-- A suspended fiber is given up, with the guards on its stack that are not released. -/
  | abandonsFiber (guards : List Nat)
  deriving DecidableEq, Repr

namespace Record

def level : Record → Level
  | ignoredSize .. | ignoredExit .. | leaksPayload .. | failedToClose .. | abandonsFiber _ => .warn
  | allocated _ | starts .. | finalizes .. => .debug
  | _ => .trace

def message : Record → String
  | ignoredSize raw reason =>
    "ignoring FIBER_GEN_STACK_SIZE=" ++ Text.quoted raw ++ " (" ++ reason.message ++ "); using " ++
      toString defaultStackSize ++ " bytes"
  | transition _ name before op after action =>
    "generator `" ++ name ++ "`: " ++ before.message ++ " --" ++ op.label ++ "--> " ++
      after.message ++ " (" ++ action.label ++ ")"
  | allocated size => "allocated a " ++ toString size ++ "-byte fiber stack"
  | starts _ name size =>
    "generator `" ++ name ++ "` starts on a " ++ toString size ++ "-byte stack"
  | switchesIn _ name => "switching into generator `" ++ name ++ "`"
  | switchesOut _ name => "generator `" ++ name ++ "` switches out"
  | switchedBack _ name => "generator `" ++ name ++ "` switched back in"
  | injects _ name kind => "injecting " ++ kind ++ " into generator `" ++ name ++ "`"
  | raisesInjected _ name kind => "generator `" ++ name ++ "` raises injected " ++ kind
  | closes _ name => "closing generator `" ++ name ++ "`"
  | ignoredExit _ name => "generator `" ++ name ++ "` ignored GeneratorExit"
  | finalizes _ name => "finalizing generator `" ++ name ++ "`"
  | leaksPayload _ name => "generator `" ++ name ++ "`: context payload leaked with its stack"
  | failedToClose _ name reason =>
    "generator `" ++ name ++ "` failed to close on drop: " ++ reason
  | unwindsFiber => "unwinding a suspended fiber"
  | abandonsFiber _ => "releasing a suspended fiber without unwinding it"

def generator? : Record → Option GeneratorId
  | transition g .. | starts g .. | switchesIn g _ | switchesOut g _ | switchedBack g _
  | injects g .. | raisesInjected g .. | closes g _ | ignoredExit g _ | finalizes g _
  | leaksPayload g _ | failedToClose g .. => some g
  | _ => none

/-- Whether a log that shows `threshold` and all above it shows the record. -/
def shownAt (r : Record) (threshold : Level) : Bool := threshold.rank ≤ r.level.rank

end Record

end Coroutine
