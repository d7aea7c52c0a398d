import Coopy.ChainedPatcher
import Coopy.Lib.Containers
import Coopy.PolySheet
import Mathlib.Algebra.Group.Int.Defs
import Mathlib.Algebra.Group.Nat.Defs

/-!
# `JsonBook`: a book as a JSON value

What is written and parsed is the value; the text in between is the library's.  A row is an object
with a member for each column, or an array if the option `hash` says so.  In a column that is
declared as an integer type the cells become numbers.

Members of an object come in the order of their names.  A cell that is itself a sheet is kept as its
value.
-/

namespace Coopy

open Lib

/-! ## Column types -/

/-- `ColumnType::setType`: what a declared type is, up to its first bracket. -/
def ColumnFamily.ofType (name : String) : ColumnFamily :=
  let lower := String.ofList ((name.toList.takeWhile (· != '(')).map Char.toLower)
  if lower ∈ ["int", "integer", "tinyint", "byte", "smallint", "smallint unsigned",
    "long integer"] then .integer
  else if lower = "text" then .text
  else if lower ∈ ["float", "single", "double", "real", "double precision"] then .real
  else if lower ∈ ["datetime (short)", "datetime", "date", "timestamp",
    "timestamp without time zone"] then .datetime
  else if lower.startsWith "varchar" ∨
    lower ∈ ["longtext", "character varying", "memo", "hyperlink", "memo/hyperlink"] then .text
  else if lower ∈ ["boolean", "bool"] then .boolean
  else if lower = "currency" then .currency
  else if lower ∈ ["blob", "clob"] then .blob
  else .none

structure JsonColumn where
  name : String
  -- the declared type, if there is one
  type : Option String := none
deriving DecidableEq, Repr

def JsonColumn.family (info : JsonColumn) : ColumnFamily :=
  (info.type.map ColumnFamily.ofType).getD .none

/-! ## Values -/

inductive Json
  | null
  | int (n : Int)
  -- any other number, and what `%g` prints of it
  | numeric (g : String)
  | string (s : String)
  | array (items : List Json)
  | object (members : List (String × Json))

namespace Json

/-- A member; one that is not there is null. -/
def member (m : AssocMap String Json) (name : String) : Json := (m.get? name).getD .null

/-- The members by their names. -/
def inOrder (m : AssocMap String Json) : List (String × Json) :=
  m.mergeSort fun a b => decide (a.1 ≤ b.1)

def asString : Json → String
  | .string s => s
  | _ => ""

/-- What an iterator goes over. -/
def items : Json → List Json
  | .array xs => xs
  | .object m => (inOrder m).map (·.2)
  | _ => []

end Json

/-- A number as an `int`: of 64 bits first, then the lower 32 of them. -/
def wrapInt (n : Int) : Int := (max (-2 ^ 63) (min n (2 ^ 63 - 1))).bmod (2 ^ 32)

/-- `SheetCell::asInt`, in the width that it has. -/
def SheetCell.asInt32 (c : SheetCell) : Int := wrapInt c.asInt

/-! ## Sheets and books -/

structure JsonSheet where
  name : String
  columns : List JsonColumn
  rows : List (List SheetCell)
  distinct : (columns.map (·.name)).Nodup
  rect : ∀ row ∈ rows, row.length = columns.length
  hasRows : rows ≠ []

structure Book where
  sheets : List JsonSheet
  distinct : (sheets.map (·.name)).Nodup

/-- What a cell of a sheet says: a text, or NULL. -/
def SheetCell.value? (c : SheetCell) : Option String := if c.escaped then none else some c.text

namespace JsonSheet

variable (s : JsonSheet)

def columnNames : List String := s.columns.map (·.name)

def values : List (List (Option String)) := s.rows.map (List.map SheetCell.value?)

end JsonSheet

/-! ## Writing -/

namespace JsonBook

def cellToJson (cell : SheetCell) (info : JsonColumn) : Json :=
  if info.family = .integer then .int cell.asInt32 else .string cell.text

/-- One row of `writePart`. -/
def writeRow (hasNames : Bool) (infos : List JsonColumn) (row : List SheetCell) : Json :=
  if hasNames then
    .object ((infos.zip row).foldl (fun (m : AssocMap String Json) e =>
      m.set e.1.name (if e.2.escaped then .null else cellToJson e.2 e.1)) [])
  else .array (row.map fun c => if c.escaped then .null else .string c.text)

/-- `writePart` for a sheet with a schema. -/
def writePart (s : JsonSheet) (nestSchema : Bool) : Json :=
  let hasNames := nestSchema && !s.columns.isEmpty
  .object [("columns", .array (s.columns.map fun info => .string info.name)),
    ("rows", .array (s.rows.map (writeRow hasNames s.columns)))]

/-- `renderJsonBook`, with the option `hash` if it is given. -/
def render (book : Book) (hash : Option Int) : AssocMap String Json :=
  let nestSchema := match hash with
    | none => true
    | some h => decide (0 < h)
  book.sheets.foldl (fun (root : AssocMap String Json) s =>
    root.set s.name (writePart s nestSchema)) []

/-! ## Reading -/

/-- A cell of a `FoldedSheet`. -/
inductive FoldedCell
  | datum (c : SheetCell)
  | sheet (j : Json)

def zero : FoldedCell := .datum ⟨"", true⟩

def readCell : Json → FoldedCell
  | .int n => .datum ⟨toString n, false⟩
  | .numeric g => .datum ⟨g, false⟩
  | .null => .datum ⟨"NULL", true⟩
  | .string s => .datum ⟨s, false⟩
  | j => .sheet j

/-- The values of a row, in the order of the columns; `none` is no row. -/
def rowItems (schema : Option (List String)) : Json → Option (List Json)
  | .array items => some items
  | .object m => schema.map fun names => names.map (Json.member m)
  | .null => schema.map fun names => names.map fun _ => .null
  | _ => none

/-- One row of `readPart`; `y` counts what is in `rows`. -/
def readRow (schema : Option (List String)) (s : TypedSheet FoldedCell × Nat) (j : Json) :
    TypedSheet FoldedCell × Nat :=
  match rowItems schema j with
  | none => (s.1, s.2 + 1)
  | some cols =>
    let sheet := if s.2 = 0 then { s.1 with zero := zero }.resize cols.length 1
      else (s.1.insertRow (-1)).1
    (cols.zipIdx.foldl (fun sheet e => sheet.setCell e.2 s.2 (readCell e.1)) sheet, s.2 + 1)

def readPart (schema : Option (List String)) (rows : List Json) : TypedSheet FoldedCell :=
  (rows.foldl (readRow schema) (⟨[], 0, zero⟩, 0)).1

structure Sheet where
  -- the names of the columns, if there is a schema
  schema : Option (List String)
  sheet : TypedSheet FoldedCell

/-- A name that went through a `const char *`. -/
def asName (name : String) : String := String.ofList (cString name.toList)

def readTable : Json → Option Sheet
  | .object table =>
    match Json.member table "rows", Json.member table "columns" with
    | .null, _ => none
    | _, .null => none
    | .array rows, cols =>
      let names := cols.items.map fun c => asName c.asString
      some ⟨some names, readPart (some names) rows⟩
    | _, _ => none
  | .array rows => some ⟨none, readPart none rows⟩
  | _ => none

/-- `JsonBook::read`: the names, each with its sheet. -/
def read (root : AssocMap String Json) : List (String × Sheet) :=
  if root.contains "names" && root.contains "tables" then
    match Json.member root "names", Json.member root "tables" with
    | .array names, .object tables =>
      names.filterMap fun n => (readTable (Json.member tables n.asString)).map fun s =>
        (n.asString, s)
    | _, _ => []
  else (Json.inOrder root).filterMap fun e => (readTable e.2).map fun s => (asName e.1, s)

/-- The cells that a sheet of texts and NULLs shows. -/
def FoldedCell.value? : FoldedCell → Option (Option String)
  | .datum c => some c.value?
  | .sheet _ => none

def Sheet.values (s : Sheet) : List (List (Option (Option String))) :=
  s.sheet.arr.map (List.map FoldedCell.value?)

/-- `readSheet`: the sheet that was read last under a name. -/
def readSheet (book : List (String × Sheet)) (name : String) : Option Sheet :=
  AssocMap.get? (book.foldl (fun (m : AssocMap String Sheet) e => m.set e.1 e.2) []) name

end JsonBook

/-- The book that is read of the one that is rendered has the same sheets under the same names. -/
def Book.Returns (book : Book) (hash : Option Int) : Prop :=
  let back := JsonBook.read (JsonBook.render book hash)
  (back.map (·.1)).Perm (book.sheets.map (·.name)) ∧
    ∀ s ∈ book.sheets, ∃ r, JsonBook.readSheet back s.name = some r ∧
    r.schema = some s.columnNames ∧
      r.values = s.values.map (List.map some)

end Coopy
