import Reckon.Main
import Reckon.Expr
import Reckon.Parser.Session
import Reckon.Parser.Stream
import Reckon.Proofs.Tape
import Reckon.Proofs.Refinement
import Reckon.Proofs.Placement
import Reckon.Proofs.Nesting
import Reckon.Proofs.Reading
import Reckon.Proofs.Precedence
import Reckon.Proofs.Endless
import Reckon.Proofs.Machine
import Reckon.Proofs.Numbers
import Reckon.Proofs.Layers
import Reckon.Proofs.DepthLimit
import Reckon.Proofs.Cutting
import Reckon.Proofs.Layout
import Reckon.Proofs.Formulas
import Reckon.Proofs.Places
import Reckon.Proofs.Bounds
import Reckon.Proofs.Invariants
import Reckon.Proofs.HigherLimit
import Reckon.Proofs.Completion
import Reckon.Proofs.Wiring
import Reckon.Proofs.Evaluation
import Reckon.Proofs.Relabeling
import Reckon.Proofs.Drawing
import Reckon.Proofs.Insertion
import Reckon.Proofs.Refusals
import Reckon.Proofs.Renaming
import Reckon.Proofs.Divergence
import Reckon.Proofs.Isolation
import Reckon.Proofs.Stopping
import Reckon.Proofs.Relexing
import Reckon.Proofs.Carets
import Reckon.Proofs.Encoding
import Reckon.Proofs.Messages
import Reckon.Proofs.Prompting
import Reckon.Proofs.Thresholds
import Reckon.Proofs.Registry
import Reckon.Proofs.Uses
import Reckon.Proofs.Moves
import Reckon.Proofs.Recognition
import Reckon.Proofs.Checked
import Reckon.Proofs.Defence
