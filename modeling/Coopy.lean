import Coopy.AgreeingSides
import Coopy.PatcherReport
import Coopy.ColumnScript
import Coopy.ColumnRenames
import Coopy.IndexedReplay
import Coopy.OrderedReplay
import Coopy.PolyColumns
import Coopy.PolyRows
import Coopy.HashCache
import Coopy.FilterDelivery
import Coopy.RowResolution
import Coopy.NullRows
import Coopy.ConflictResolution
import Coopy.Mover
import Coopy.CsvFraming
import Coopy.CsvRoundTrip
import Coopy.JsonRoundTrip
import Coopy.SqlChanges
import Coopy.RubyApply
import Coopy.RubyContext
import Coopy.RubyDiff
import Coopy.BookCompare
import Coopy.SqliteReads
import Coopy.LatticeRuns
import Coopy.ColumnInference
import Coopy.TdiffTransitions
import Coopy.TdiffColumns
import Coopy.MeasureMan
import Coopy.RowEntries
import Coopy.DirectMatch
import Coopy.CsvSheetEdits
import Coopy.RowCursor
import Coopy.CellCodec
import Coopy.TdiffComments
import Coopy.IndexLookups
import Coopy.HiliteColumns
import Coopy.HiliteRows
import Coopy.DeferredInserts
import Coopy.SheetMoves
import Coopy.SqlQuoting
import Coopy.NameSniffing
import Coopy.ContextLines
import Coopy.SqliteSchema
import Coopy.ColumnContract
import Coopy.ColumnAtomicity
import Coopy.TextDump
import Coopy.ColumnNaming
import Coopy.SpreadsheetNames
import Coopy.CsvDiffRoundTrip
import Coopy.TdiffRoundTrip
import Coopy.SqlDiffReplay
import Coopy.Convergence
import Coopy.Revision
import Coopy.CsvDiffReplay
