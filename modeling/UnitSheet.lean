import UnitSheet.Steps
import UnitSheet.Table
import UnitSheet.Proofs.Grammar.Exactness
import UnitSheet.Proofs.Line.Tiers
import UnitSheet.Proofs.Evaluation.Cycles
import UnitSheet.Proofs.Document.Units
import UnitSheet.Proofs.Document.History
import UnitSheet.Proofs.Document.Isolation
import UnitSheet.Proofs.Document.Reading
import UnitSheet.Proofs.Document.Cut
import UnitSheet.Proofs.Document.Faults
import UnitSheet.Proofs.Document.Names
import UnitSheet.Proofs.Document.Dimensions
import UnitSheet.Proofs.Steps
import UnitSheet.Proofs.Line.Repeats
import UnitSheet.Proofs.Number.Nearest
import UnitSheet.Proofs.Number.Shortest
import UnitSheet.Proofs.Number.Numeral
import UnitSheet.Proofs.Token.Words
import UnitSheet.Proofs.Token.Pieces
import UnitSheet.Proofs.Grammar.RoundTrip
import UnitSheet.Proofs.Text.Classes
import UnitSheet.Proofs.Token.Steady
import UnitSheet.Proofs.Token.Texts
import UnitSheet.Proofs.Token.Spacing
import UnitSheet.Proofs.Line.Normal
import UnitSheet.Proofs.Grammar.Neighbours
import UnitSheet.Proofs.Line.Folding
import UnitSheet.Proofs.Line.Ending
import UnitSheet.Proofs.Line.Readable
import UnitSheet.Proofs.Document.Kinds
import UnitSheet.Proofs.Document.GivenNames
import UnitSheet.Proofs.Quantity.Unlabelled
import UnitSheet.Proofs.Table.References
import UnitSheet.Proofs.Document.Listing
import UnitSheet.Proofs.Evaluation.Dependence
import UnitSheet.Proofs.Evaluation.CellFailures
import UnitSheet.Proofs.Grammar.Complaints
import UnitSheet.Proofs.Token.Tiling
import UnitSheet.Proofs.Token.Respacing
import UnitSheet.Proofs.Token.UnitEnds
import UnitSheet.Proofs.Evaluation.Inlining
import UnitSheet.Proofs.Evaluation.Magnitudes
import UnitSheet.Proofs.Line.Direct
import UnitSheet.Proofs.Line.StrictUnits
import UnitSheet.Proofs.Unit.Algebra
import UnitSheet.Proofs.Unit.Readings
import UnitSheet.Proofs.Quantity.Chosen
import UnitSheet.Proofs.Steps.Inputs
import UnitSheet.Proofs.Number.Order
import UnitSheet.Proofs.Number.Rounding
import UnitSheet.Proofs.Number.Displayed
import UnitSheet.Proofs.Store.History
import UnitSheet.Proofs.Address.Texts
import UnitSheet.Proofs.Table.Lines
