import Coopy.CsvEncode
import Coopy.CsvRead

/-!
# Books of sheets in one CSV file

`CsvTextBook::write` puts the sheets of a book one behind the other, each under a title, and
`CsvFile::write` writes a line of column names with dashes below it, or leaves it out when it finds
the names in the sheet or has only guessed them.  `readCsvsData` reads such a text back.
-/

namespace Coopy

/-- A sheet as the writer sees it, with what its schema says: the names of all columns, where the
header ends and whether it was guessed. -/
structure SchemaSheet extends DataSheet where
  columns : List String
  headerHeight : Int := 0
  isGuess : Bool := false
  -- `getDatabase() != NULL`
  hasDatabase : Bool := false
  fits : columns.length = width

namespace SchemaSheet

/-- `NameSniffer::isEmbedded`: the first row is the names. -/
def isEmbedded (s : SchemaSheet) : Bool :=
  !s.hasDatabase && s.rows.head?.any fun row => row.map (·.text) == s.columns

/-- The line of names: a sheet of one row, resized to it from nothing. -/
def header (s : SchemaSheet) : List SheetCell := s.columns.map fun name => ⟨name, true⟩

/-- The columns whose name stands in one of the first three rows. -/
def inplaceMatches (s : SchemaSheet) : Nat :=
  (List.range s.width).countP fun j =>
    (List.range (min 3 s.rows.length)).any fun k => (s.cellSummary j k).text == s.columns.getD j ""

/-- How many dashes stand below the line of names. -/
def dashCount (line : List Char) : Nat :=
  let len := (line.dropLast.reverse.dropWhile (· == '\r')).length
  min (max len 4) 79

/-- The line of names. -/
def headerLine (s : SchemaSheet) (style : SheetStyle) : List Char :=
  DataSheet.encodeRows style none 0 [s.header]

/-- What is written before the rows, and the style the rows are then written in. -/
def writeHeader (s : SchemaSheet) (markHeader : Bool) : List Char × SheetStyle :=
  let style := SheetStyle.marked markHeader
  if !s.isEmbedded && !s.isGuess then
    let skipHeader := !markHeader && 1 ≤ s.inplaceMatches && 3 * s.width ≤ 4 * s.inplaceMatches
    if skipHeader then ([], style)
    else
      let line := s.headerLine style
      if markHeader then (line ++ List.replicate (dashCount line) '-' ++ ['\r', '\n'],
        { style with markHeader := false })
      else (line, style)
  else ([], style)

/-- `CsvFile::writeString`, with `mark_header` the only option that may be set. -/
def writeString (s : SchemaSheet) (markHeader : Bool) : List Char :=
  let (front, style) := s.writeHeader markHeader
  front ++ s.toDataSheet.encode style (some s.headerHeight)

end SchemaSheet

/-- A book: its sheets under their names. -/
structure TextBook where
  sheets : List (String × SchemaSheet)
  namedSheets : Bool := true

namespace CsvTextBook

def title (name : String) : List Char := "== ".toList ++ name.toList ++ " ==\r\n".toList

/-- The sheets from sheet `i` on; `markHeader` is in the options once a title has been written. -/
def writeFrom (titled : Bool) : Nat → Bool → List (String × SchemaSheet) → List Char
  | _, _, [] => []
  | i, markHeader, (name, s) :: sheets =>
    let front := if titled then (if 0 < i then " \r\n".toList else []) ++ title name else []
    let markHeader := markHeader || titled
    front ++ s.writeString markHeader ++ writeFrom titled (i + 1) markHeader sheets

def write (book : TextBook) : List Char :=
  writeFrom (book.namedSheets || 1 < book.sheets.length) 0 false book.sheets

/-- A sheet that has been read: the names its schema has, if it has one, and its rows. -/
structure Page where
  name : String
  columns : Option (List String)
  rows : List (List SheetCell)
deriving DecidableEq, Repr

def page (sheet : String × CsvSheet) : Page :=
  ⟨sheet.1, sheet.2.schema.map (·.columns), sheet.2.shownRows⟩

def readCsvsData (text : List Char) : Option (List Page) :=
  (CsvSheetReaderState.readSheets text).map (List.map page)

end CsvTextBook

end Coopy
