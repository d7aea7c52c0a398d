import Coopy.Lib.RowidTable
import Coopy.SparseSheet
import Coopy.Table

/-!
# `SqliteSheet`: a table of a database read and changed as a sheet

The sheet keeps the numbers of the rows in `row2sql`, the names of the columns in `col2sql`, and a
cache of cells that is filled at the first access and by writes, and emptied by every change of rows
or columns. Column changes other than `ALTER TABLE` build the table anew, which numbers its rows
from 1; the cache keeps the width that the table had when it was connected.

What a column makes of a text that is written into it depends on its type; the cache keeps the text.
-/

namespace Coopy

open Lib

namespace SqliteSheet

/-- A text as a C string. -/
def cText (s : String) : String := String.ofList (cString s.toList)

/-- `sqlite3_column_int`, and the cast of a `sqlite3_int64` to an `int`. -/
def toInt (id : Int) : Int := id.bmod (2 ^ 32)

/-- The value of a cell as the sheet shows it. -/
def shown : Option String → SheetCell
  | some text => ⟨text, false⟩
  | none => SheetCell.null

/-- What a user of the sheet does. -/
inductive Op
  | read (x y : Nat)
  | write (x y : Nat) (text : String) (escaped : Bool)
  | insertColumn (base : Int) (kind : Option String)
  | deleteColumn (column : Nat)
  | moveColumn (src : Nat) (base : Int)
  | insertRow
  | deleteRow (src : Nat)
deriving DecidableEq, Repr

end SqliteSheet

/-- What is not settled by the statements themselves. -/
structure SqliteEngine where
  -- the number of a new row when the largest one is in use
  pick : List Int → Int
  -- what a column of a type makes of a text, as it is read back
  store : String → String → String

/-- The table of the database with simple column definitions, names and types, and what the sheet
keeps beside it. -/
structure SqliteSheet where
  table : RowidTable String String
  types : List String
  w : Nat
  h : Nat
  pendingLoad : Bool
  row2sql : List Int
  col2sql : List String
  cache : SparseSheet String
  cacheFlag : SparseSheet Nat

namespace SqliteSheet

def connect (table : RowidTable String String) (types : List String) : SqliteSheet where
  table := table
  types := types
  w := table.names.length
  h := table.rows.length
  pendingLoad := true
  row2sql := table.ids.map toInt
  col2sql := table.names
  cache := (SparseSheet.empty "").resize table.names.length table.rows.length ""
  cacheFlag := (SparseSheet.empty 0).resize table.names.length table.rows.length 0

/-! ## Cells -/

/-- The cells of a scan of the table. -/
def scan (s : SqliteSheet) : List (Nat × Nat × Option String) :=
  s.table.values.zipIdx.flatMap fun (row, yy) => (List.range s.w).map fun xx =>
  (xx, yy, row.getD xx none)

/-- What a cell of the scan adds to the two caches. -/
def loadCell (caches : SparseSheet String × SparseSheet Nat) (c : Nat × Nat × Option String) :
    SparseSheet String × SparseSheet Nat :=
  match c.2.2 with
  | none => (caches.1, caches.2.write c.1 c.2.1 1)
  | some r => (caches.1.write c.1 c.2.1 (cText r), caches.2)

/-- `check`: the first access to a cell loads all of them. -/
def check (s : SqliteSheet) : SqliteSheet :=
  if s.pendingLoad then
    let caches := s.scan.foldl loadCell (s.cache, s.cacheFlag)
    { s with pendingLoad := false, cache := caches.1, cacheFlag := caches.2 }
  else s

/-- The cell is in the cache. -/
def cached (s : SqliteSheet) (x y : Nat) : Bool :=
  (s.cacheFlag.pcell x y).isSome || (s.cache.pcell x y).isSome

/-- `SELECT * FROM t WHERE ROWID = row2sql[y]`. -/
def selectCell (s : SqliteSheet) (x y : Nat) : SheetCell :=
  match s.table.select (s.row2sql.getD y 0) with
  | none => ⟨"", true⟩
  | some row => shown ((row.getD x none).map cText)

/-- `cellString(x,y)`, the cells once loaded. -/
def cellString (s : SqliteSheet) (x y : Nat) : SheetCell :=
  if (s.cacheFlag.pcell x y).isSome then SheetCell.null
  else
    match s.cache.pcell x y with
    | some c => ⟨c, false⟩
    | none => s.selectCell x y

/-- `cellString(x,y,str,escaped)`, the cells once loaded. -/
def setCellString (s : SqliteSheet) (E : SqliteEngine) (x y : Nat) (str : String) (escaped : Bool) :
    Option SqliteSheet :=
  let cacheFlag := if escaped then s.cacheFlag.write x y 1 else s.cacheFlag.remove x y
  let name := cText (s.col2sql.getD x "")
  let tstr :=
    if escaped then none
    else some (E.store (s.types.getD (s.table.names.idxOf name) "") (cText str))
  (s.table.update name tstr (s.row2sql.getD y 0)).map fun table =>
    { s with table := table, cache := s.cache.write x y str, cacheFlag := cacheFlag }

/-! ## Rows and columns -/

def clearCache (s : SqliteSheet) : SqliteSheet :=
  { s with cache := s.cache.clear, cacheFlag := s.cacheFlag.clear }

/-- `SqliteSchema::apply`: the table anew with the columns `parts`; what stands in the columns
`names` is kept, apart from the new one.  The program ends at a name with a double quote. -/
def applySchema (table : RowidTable String String) (parts names : List String) (novel : String) :
    Option (RowidTable String String) :=
  if names.any fun name => (cText name).toList.contains '"' then none
  else table.rebuild id parts ((names.map cText).filter fun base => base ≠ novel)

/-- A name for a new column: the longest of the names that begin like the suggestion, with a mark
behind. -/
def suggestName (names : List String) (suggestBase : String) : String :=
  let (suggest, found) := names.foldl
    (fun (suggest, found) n =>
      if suggestBase.toList <+: n.toList ∧ suggest.utf8ByteSize ≤ n.utf8ByteSize then (n, true)
        else (suggest, found))
    (suggestBase, false)
  if found then suggest ++ "_" else suggest

/-- A column before `base`, without a type; `none` if no success is reported.  At the end the table
is altered, elsewhere built anew. -/
def insertColumn (s : SqliteSheet) (base : Int) (kind : Option String) : Option SqliteSheet :=
  let s := s.clearCache
  let name := suggestName s.col2sql (kind.getD "ins")
  if base = -1 then
    (s.table.addColumn (cText name)).map fun table =>
      { s with
        table := table
        types := s.types ++ [""]
        col2sql := s.col2sql ++ [name]
        w := s.w + 1 }
  else if name.toList.contains '\x00' then none  -- the statement ends within the column list
  else if base ≤ s.w then
    let index := if base < 0 then s.w else base.toNat
    let col2sql := s.col2sql.insertIdx index name
    (applySchema s.table (s.table.names.insertIdx index name) col2sql name).map fun table =>
      { s with
        table := table
        types := s.types.insertIdx index ""
        col2sql := col2sql
        w := s.w + 1 }
  else none

def deleteColumn (s : SqliteSheet) (column : Nat) : Option SqliteSheet :=
  let s := s.clearCache
  if column < s.w then
    let col2sql := s.col2sql.eraseIdx column
    (applySchema s.table (s.table.names.eraseIdx column) col2sql "").map fun table =>
      { s with table := table, types := s.types.eraseIdx column, col2sql := col2sql, w := s.w - 1 }
  else none

/-- The place of a column that is moved before `base`. -/
def placeBefore (src base : Nat) : Nat := if src < base then base - 1 else base

/-- A move to the end (`base = -1`) is made, but the reference that comes back is not valid. -/
def moveColumn (s : SqliteSheet) (src : Nat) (base : Int) : Option SqliteSheet :=
  let s := s.clearCache
  if src < s.w ∧ 0 ≤ base ∧ base ≤ s.w then
    let index := placeBefore src base.toNat
    let col2sql := (s.col2sql.eraseIdx src).insertIdx index (s.col2sql.getD src "")
    (applySchema s.table ((s.table.names.eraseIdx src).insertIdx index (s.table.names.getD src ""))
      col2sql "").map fun table =>
      { s with
        table := table
        types := (s.types.eraseIdx src).insertIdx index (s.types.getD src "")
        col2sql := col2sql }
  else none

def insertRow (pick : List Int → Int) (s : SqliteSheet) : SqliteSheet :=
  let s := s.clearCache
  { s with
    table := s.table.insertDefault pick
    row2sql := s.row2sql ++ [toInt (s.table.newRowid pick)]
    h := s.h + 1 }

def deleteRow (s : SqliteSheet) (index : Nat) : Option SqliteSheet :=
  let s := s.clearCache
  if index < s.h then
    some { s with
      table := s.table.delete (s.row2sql.getD index 0)
      row2sql := s.row2sql.eraseIdx index
      h := s.h - 1 }
  else none

/-- One step, with the cells that it reads; `none` if no success is reported. -/
def step (E : SqliteEngine) (s : SqliteSheet) : Op → Option (SqliteSheet × List SheetCell)
  | .read x y => if x < s.w ∧ y < s.h then some (s.check, [s.check.cellString x y]) else none
  | .write x y text escaped =>
    if x < s.w ∧ y < s.h then (s.check.setCellString E x y text escaped).map fun s =>
      (s, []) else none
  | .insertColumn base kind => (s.insertColumn base kind).map fun s => (s, [])
  | .deleteColumn column => (s.deleteColumn column).map fun s => (s, [])
  | .moveColumn src base => (s.moveColumn src base).map fun s => (s, [])
  | .insertRow => some (s.insertRow E.pick, [])
  | .deleteRow src => (s.deleteRow src).map fun s => (s, [])

/-- All cells read in a run of steps that report success. -/
def run (E : SqliteEngine) : SqliteSheet → List Op → Option (List SheetCell)
  | _, [] => some []
  | s, op :: ops => (s.step E op).bind fun (s, cells) => (run E s ops).map (cells ++ ·)

end SqliteSheet

/-! ## A plain list of rows -/

/-- The same in memory: rows of values, new ones at the end. -/
structure PlainRows where
  width : Nat
  rows : List (List (Option String))

namespace PlainRows

open SqliteSheet

def cell (r : PlainRows) (x y : Nat) : Option String := (r.rows.getD y []).getD x none

def step (r : PlainRows) : Op → PlainRows × List SheetCell
  | .read x y => (r, [shown (r.cell x y)])
  | .write x y text escaped =>
    ({ r with rows := r.rows.modify y fun row => row.set x (if escaped then none else some text) },
      [])
  | .insertColumn base _ =>
    let index := if base < 0 then r.width else base.toNat
    (⟨r.width + 1, r.rows.map fun row => row.insertIdx index none⟩, [])
  | .deleteColumn column => (⟨r.width - 1, r.rows.map fun row => row.eraseIdx column⟩, [])
  | .moveColumn src base =>
    ({ r with
        rows := r.rows.map fun row =>
          (row.eraseIdx src).insertIdx (placeBefore src base.toNat) (row.getD src none) }, [])
  | .insertRow => ({ r with rows := r.rows ++ [List.replicate r.width none] }, [])
  | .deleteRow src => ({ r with rows := r.rows.eraseIdx src }, [])

def run : PlainRows → List Op → List SheetCell
  | _, [] => []
  | r, op :: ops => (r.step op).2 ++ run (r.step op).1 ops

end PlainRows

end Coopy
