import Mym.Lib.Outcome
import Mym.Lib.Recursion
import Mym.Lib.Memory
import Mym.Lib.Trace
import Mym.Lib.Brackets
import Mym.Lib.Cursor
import Mym.Lib.Heap
import Mym.Lib.Marks
import Mym.Lib.Indexed
import Mym.Lib.Loop
import Mym.Lib.Utf8
import Mym.Lib.Utf16
import Mym.Lib.Decimal
import Mym.Lib.Ieee
import Mym.Lib.Logged
import Mym.Value
import Mym.Serialize
import Mym.Format
import Mym.SerializeFormat
import Mym.Deserialize
import Mym.Walk
import Mym.Header
import Mym.Frame
import Mym.Bounds
import Mym.Lib.Extension
import Mym.Fallback
import Mym.Extended
import Mym.Transparency
import Mym.Termination
import Mym.Command
import Mym.Connection
import Mym.SlotSteps
import Mym.ConnectionTable
import Mym.Routing
import Mym.Pending
import Mym.Abandon
import Mym.Placeholder
import Mym.Substitution
import Mym.Binary
import Mym.RoundTrip
import Mym.Legacy
import Mym.EntryPoint
import Mym.Allocation
import Mym.Statement
import Mym.Braces
import Mym.Template
import Mym.Whitespace
import Mym.Flags
import Mym.SerializeCommand
import Mym.Arguments
import Mym.SameMeaning
import Mym.Runs
import Mym.Hex
import Mym.Text
import Mym.SerializeString
import Mym.Preamble
import Mym.SerializeFile
import Mym.GetString
import Mym.BraceStep
import Mym.StructTables
import Mym.ResultSet
import Mym.Loading
import Mym.ColumnCreation
import Mym.ColumnDelivery
import Mym.ConversionErrors
import Mym.ResultRelease
import Mym.Buffers
import Mym.Lib.Product
import Mym.Lib.Literal
import Mym.Slots
import Mym.Quoting
import Mym.Storable
import Mym.CommandRoundTrip
import Mym.Fetching
import Mym.Server
import Mym.Contents
import Mym.Session
import Mym.Refetch
import Mym.Lib.Printf
import Mym.PrintedTable
import Mym.Opening
import Mym.BigintToDouble
import Mym.Behind
import Mym.Lib.DecimalValue
import Mym.Numbers
