import Lindenmayer.Main
import Lindenmayer.Proofs.CommandLine.Escapes
import Lindenmayer.Proofs.CommandLine.Iterations
import Lindenmayer.Proofs.CommandLine.Numerals
import Lindenmayer.Proofs.CommandLine.Validation
import Lindenmayer.Proofs.Config.Preset
import Lindenmayer.Proofs.Config.RuleForms
import Lindenmayer.Proofs.Decimal.Reread
import Lindenmayer.Proofs.Grammar.Dragon
import Lindenmayer.Proofs.Grammar.EdgeRewriting
import Lindenmayer.Proofs.Grammar.Equality
import Lindenmayer.Proofs.Grammar.Growth
import Lindenmayer.Proofs.Grammar.Hilbert
import Lindenmayer.Proofs.Grammar.NonErasing
import Lindenmayer.Proofs.Grammar.Overshoot
import Lindenmayer.Proofs.Grammar.Prolongable
import Lindenmayer.Proofs.Grammar.Renaming
import Lindenmayer.Proofs.Rules.RoundTrip
import Lindenmayer.Proofs.Svg.Fit
import Lindenmayer.Proofs.Svg.Structure
import Lindenmayer.Proofs.Svg.Title
import Lindenmayer.Proofs.Svg.Upright
import Lindenmayer.Proofs.Turtle.Branch
import Lindenmayer.Proofs.Turtle.Idle
import Lindenmayer.Proofs.Turtle.Mirror
import Lindenmayer.Proofs.Turtle.Segments
import Lindenmayer.Proofs.Turtle.Unmatched
