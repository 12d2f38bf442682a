import ColumnMask.Main
import ColumnMask.Proofs.Truncation
import ColumnMask.Proofs.WholeUnits
import ColumnMask.Proofs.Bytes
import ColumnMask.Proofs.Call
import ColumnMask.Proofs.RandomTime
import ColumnMask.Proofs.Config
import ColumnMask.Proofs.Decimal
import ColumnMask.Proofs.IntegerWindow
import ColumnMask.Proofs.DecimalWindow
import ColumnMask.Proofs.RandomText
import ColumnMask.Proofs.Subnet
import ColumnMask.Proofs.CheckedRead
import ColumnMask.Proofs.Masking
import ColumnMask.Proofs.Folding
import ColumnMask.Proofs.Visits
import ColumnMask.Proofs.GeneratorTree
import ColumnMask.Proofs.Session
import ColumnMask.Proofs.Dependence
import ColumnMask.Proofs.DecimalText
import ColumnMask.Proofs.Noise
import ColumnMask.Proofs.RandomAddress
import ColumnMask.Proofs.Rows
import ColumnMask.Proofs.Text
import ColumnMask.Proofs.DecimalPrint
import ColumnMask.Proofs.DecimalArithmetic
import ColumnMask.Proofs.Rounding
import ColumnMask.Proofs.FloatText
import ColumnMask.Proofs.InstantText
import ColumnMask.Proofs.MacText
import ColumnMask.Proofs.Interchange
import ColumnMask.Proofs.Saved
import ColumnMask.Proofs.Instant
import ColumnMask.Proofs.NoiseTime
import ColumnMask.Proofs.Precision
import ColumnMask.Proofs.Capacity
import ColumnMask.Proofs.Override
import ColumnMask.Proofs.Exchanges
import ColumnMask.Proofs.Expansion
import ColumnMask.Proofs.Stages
import ColumnMask.Proofs.DurationText
import ColumnMask.Proofs.DecimalFold
import ColumnMask.Proofs.RoundingError
import ColumnMask.Proofs.Magnitude
import ColumnMask.Proofs.FloatPower
import ColumnMask.Proofs.FloatOrder
import ColumnMask.Proofs.FloatWindow
import ColumnMask.Proofs.AddressText
import ColumnMask.Proofs.Notation
import ColumnMask.Proofs.NearestFloat
import ColumnMask.Proofs.ShortestDigits
import ColumnMask.Proofs.JsonText
import ColumnMask.Proofs.PlainScalar
import ColumnMask.Proofs.BoundEntry
import ColumnMask.Proofs.UnquotedBounds
import ColumnMask.Proofs.Columns
