import Coroutine.Text.Quoted
import Coroutine.Text.Blank
import Coroutine.Value
import Coroutine.Lifecycle
import Coroutine.Progress
import Coroutine.Stack
import Coroutine.Config
import Coroutine.Recursion
import Coroutine.Script.Run
import Coroutine.Proofs.Awaits
import Coroutine.Proofs.Reachable
import Coroutine.Proofs.Handles
import Coroutine.Proofs.Shape
import Coroutine.Proofs.Operation
import Coroutine.Proofs.Sound
import Coroutine.Proofs.Sound.Release
import Coroutine.Proofs.Sound.Operation
import Coroutine.Proofs.Sound.Finalize
import Coroutine.Proofs.Sound.Switch
import Coroutine.Proofs.Sound.Caller
import Coroutine.Proofs.Sound.Producer
import Coroutine.Proofs.Sound.Return
import Coroutine.Proofs.Invariant
import Coroutine.Proofs.HandOff
import Coroutine.Proofs.Reentrancy
import Coroutine.Proofs.Effect
import Coroutine.Proofs.Effect.Operation
import Coroutine.Proofs.Effect.Step
import Coroutine.Proofs.Books
import Coroutine.Proofs.Booking
import Coroutine.Proofs.Cleanup
import Coroutine.Proofs.Routine
import Coroutine.Proofs.Refinement
import Coroutine.Proofs.Change
import Coroutine.Proofs.Lasting
import Coroutine.Proofs.Representation
import Coroutine.Proofs.Frames
import Coroutine.Proofs.Outcome
import Coroutine.Proofs.Identity
import Coroutine.Proofs.Guards
import Coroutine.Proofs.Recovery
import Coroutine.Proofs.Propagation
import Coroutine.Proofs.Custody
import Coroutine.Proofs.Endings
import Coroutine.Proofs.Finality
import Coroutine.Proofs.OneWay
import Coroutine.Proofs.Copies
import Coroutine.Proofs.Precedence
import Coroutine.Proofs.Discharge
import Coroutine.Proofs.Closing
import Coroutine.Proofs.Unshaken
import Coroutine.Proofs.Exiting
import Coroutine.Proofs.Composure
import Coroutine.Proofs.Escaping
import Coroutine.Proofs.Pipeline
import Coroutine.Proofs.Windup
import Coroutine.Proofs.Cascade
import Coroutine.Proofs.Finalization
import Coroutine.Proofs.Throwing
import Coroutine.Proofs.Shutdown
import Coroutine.Proofs.Dropping
import Coroutine.Proofs.Past
import Coroutine.Proofs.Refusal
import Coroutine.Proofs.Omission
import Coroutine.Proofs.Stackless
import Coroutine.Proofs.Traceless
import Coroutine.Proofs.SelfView
import Coroutine.Proofs.Execution
import Coroutine.Proofs.Triangular
import Coroutine.Proofs.Records
import Coroutine.Proofs.Reporting
import Coroutine.Proofs.Chronicle
import Coroutine.Proofs.Drawing
import Coroutine.Proofs.Relaying
import Coroutine.Proofs.Pulling
import Coroutine.Proofs.Iterating
import Coroutine.Proofs.Sharing
import Coroutine.Proofs.Numeral
import Coroutine.Proofs.Quotation
import Coroutine.Proofs.Configuration
import Coroutine.Proofs.Nesting
