import Scriptlet.Main
import Scriptlet.Console.Faulty
import Scriptlet.Dump.Read
import Scriptlet.Proofs.Token.Stream
import Scriptlet.Proofs.Grammar.Phrase
import Scriptlet.Proofs.Grammar.Structure
import Scriptlet.Proofs.Grammar.Greedy
import Scriptlet.Proofs.Assignment.Path
import Scriptlet.Proofs.Grammar.RoundTrip
import Scriptlet.Proofs.Execution.Termination
import Scriptlet.Proofs.Execution.Sequence
import Scriptlet.Proofs.Grammar.Progress
import Scriptlet.Proofs.Execution.Failure
import Scriptlet.Proofs.Evaluation.Literal
import Scriptlet.Proofs.Execution.Frame
import Scriptlet.Proofs.Evaluation.Purity
import Scriptlet.Proofs.Grammar.Layout
import Scriptlet.Proofs.Dump.RoundTrip
import Scriptlet.Proofs.Assignment.Compound
import Scriptlet.Proofs.Execution.Input
import Scriptlet.Proofs.Execution.Fault
import Scriptlet.Proofs.CommandLine.Agreement
import Scriptlet.Proofs.Assignment.Order
import Scriptlet.Proofs.Execution.Rounds
import Scriptlet.Proofs.Execution.Unrolled
import Scriptlet.Proofs.Token.Position
import Scriptlet.Proofs.Value.Replace
import Scriptlet.Proofs.Assignment.Ignored
import Scriptlet.Proofs.Evaluation.Ordered
import Scriptlet.Proofs.Value.Views
import Scriptlet.Proofs.Token.Rewritten
import Scriptlet.Proofs.Execution.Declarations
import Scriptlet.Proofs.Value.Equality
import Scriptlet.Proofs.Evaluation.Operators
import Scriptlet.Proofs.Number.Arithmetic
import Scriptlet.Proofs.Number.Power
import Scriptlet.Proofs.Number.Conversion
import Scriptlet.Proofs.Token.Walk
import Scriptlet.Proofs.Token.Safety
