import Lots.Main
import Lots.Program
import Lots.Proofs.Expr.Classification
import Lots.Proofs.Expr.Printing
import Lots.Proofs.Line.Derivation
import Lots.Proofs.Line.Quoting
import Lots.Proofs.Program.Isolation
import Lots.Proofs.Session.Carrying
import Lots.Proofs.Session.Errors
import Lots.Proofs.Session.Failure
import Lots.Proofs.Session.Invariant
import Lots.Proofs.Session.Pushing
import Lots.Proofs.Session.Taking
import Lots.Text.Blank
import Lots.Text.Quoted
import Lots.Proofs.Line.Renaming
import Lots.Proofs.Selection.Drawing
import Lots.Proofs.Statement.Picks
import Lots.Proofs.Statement.Sampling
import Lots.Proofs.Selection.Taping
import Lots.Proofs.Selection.Asking
import Lots.Proofs.Statement.Unbiased
import Lots.Proofs.Line.Interchange
import Lots.Proofs.Session.Listing
import Lots.Proofs.Line.Pieces
import Lots.Proofs.CommandLine.Output
import Lots.Proofs.CommandLine.Arguments
import Lots.Proofs.Expr.Sparse
import Lots.Proofs.Sample.Lengths
import Lots.Proofs.CommandLine.Ending
import Lots.Proofs.CommandLine.Seed
import Lots.Proofs.Text.Lines
import Lots.Proofs.CommandLine.Listing
import Lots.Proofs.Options.Meaning
import Lots.Proofs.Options.Outcome
import Lots.Proofs.Interval.Integers
import Lots.Proofs.Roll.Meaning
import Lots.Proofs.Line.Faults
import Lots.Proofs.Roll.Chains
import Lots.Proofs.Roll.Keeping
import Lots.Proofs.Binary64.Rounding
import Lots.Proofs.Binary64.Arithmetic
import Lots.Proofs.Interval.Endpoints
import Lots.Proofs.Binary64.Decimal
import Lots.Proofs.Interval.Printing
import Lots.Proofs.Roll.Rendering
import Lots.Proofs.Statement.Memory
import Lots.Proofs.Session.Storing
