import Metrology.Main
import Metrology.Session
import Metrology.Proofs.Quantity.Normal
import Metrology.Proofs.Session.Normal
import Metrology.Proofs.Session.Frame
import Metrology.Proofs.Binary64.Whole
import Metrology.Proofs.Units.Vector
import Metrology.Proofs.Units.SameDimensions
import Metrology.Proofs.Units.Matching
import Metrology.Proofs.Units.Combination
import Metrology.Proofs.Units.Tidy
import Metrology.Proofs.Units.Cancellation
import Metrology.Proofs.Quantity.Vector
import Metrology.Proofs.Session.Symbols
import Metrology.Proofs.Symbols
import Metrology.Proofs.Text
import Metrology.Proofs.Text.Bytes
import Metrology.Proofs.Text.Octets
import Metrology.Proofs.Units.Notation
import Metrology.Proofs.Expression
import Metrology.Proofs.Session.RoundTrip
import Metrology.Proofs.Expression.Fractional
import Metrology.Proofs.Expression.Grammar
import Metrology.Proofs.Registry
import Metrology.Proofs.Session.Atomic
import Metrology.Proofs.Quantity.Unprefixed
import Metrology.Proofs.Session.Alike
import Metrology.Proofs.Session.Unprefixed
import Metrology.Proofs.Family
import Metrology.Proofs.Quantity.Unvalued
import Metrology.Proofs.Quantity.Family
import Metrology.Proofs.Session.Unvalued
import Metrology.Proofs.Settings.Lines
import Metrology.Proofs.Settings.Family
import Metrology.Proofs.Registry.History
import Metrology.Proofs.Registry.References
import Metrology.Proofs.Units.Bounded
import Metrology.Proofs.Program
import Metrology.Proofs.Console.Commands
import Metrology.Proofs.Console.Outcome
import Metrology.Proofs.Console.Conversion
import Metrology.Proofs.Settings.Families
import Metrology.Proofs.Binary64.Order
import Metrology.Proofs.Units.Multiple
import Metrology.Proofs.Session.Comparison
import Metrology.Proofs.Session.Power
import Metrology.Proofs.Session.Vocabulary
import Metrology.Proofs.Family.Aliases
import Metrology.Proofs.Family.Conversion
import Metrology.Proofs.Settings.Comments
import Metrology.Proofs.Settings.Units
import Metrology.Proofs.Text.Pieces
import Metrology.Proofs.Console.Values
import Metrology.Proofs.Binary64.Shortest
