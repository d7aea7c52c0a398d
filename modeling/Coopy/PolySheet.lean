import Coopy.TypedSheet

/-!
# `PolySheet`: a sheet seen from a row on, with a schema beside it

`PolySheet` forwards to the sheet it holds.  Column operations go to the sheet and then to the
schema, and `COOPY_ASSERT` compares the columns both report; `none` is a failed assertion, or a name
written into a header row that the sheet does not have.  Row operations add the offset `dh` to the
rows they are given and take it off the rows they return, each method for itself (`moveRow` for one
of its two rows only, and `applyRowCache` not at all).
-/

namespace Coopy

/-! ## Schemas -/

inductive ColumnFamily
  | none
  | integer
  | real
  | text
  | datetime
  | boolean
  | currency
  | blob
deriving DecidableEq, Repr

inductive ColumnSource
  | none
  | sqlite
  | mysql
  | excel
  | csv
  | access
deriving DecidableEq, Repr

structure ColumnType where
  srcName : String := ""
  srcLang : String := ""
  allowNull : Bool := true
  family : ColumnFamily := .none
  src : ColumnSource := .none
  size : Int := 0
  size2 : Int := 0
  primaryKey : Bool := false
  primaryKeySet : Bool := false
  autoIncrement : Bool := false
  autoIncrementSet : Bool := false
  foreignTable : String := ""
  foreignKey : String := ""
  foreignKeySet : Bool := false
deriving DecidableEq, Repr

structure ColumnInfo where
  name : String := ""
  nameSet : Bool := false
  columnType : ColumnType := {}
deriving DecidableEq, Repr

/-- The constructor that takes a name. -/
def ColumnInfo.named (name : String) : ColumnInfo := { name := name, nameSet := true }

/-- The columns of a sheet: their names, their types, and how many rows the header takes. -/
structure SimpleSheetSchema where
  columns : List String
  kinds : List ColumnType
  hh : Int := 0
  aligned : kinds.length = columns.length
deriving DecidableEq

namespace SimpleSheetSchema

open TypedSheet (insertBefore moveInRow)

theorem length_insertBefore {α : Type} (xs : List α) {base : Int} (h : base ≤ xs.length) (x : α) :
    (insertBefore xs base x).length = xs.length + 1 := by
  unfold insertBefore
  split
  · exact List.length_insertIdx_of_le_length (by omega) x
  · exact List.length_append

theorem length_moveInRow_congr {α β : Type} {x : α} {y : β} {xs : List α} {ys : List β}
    (h : xs.length = ys.length) (src : Nat) (base : Int) :
    (moveInRow x xs src base).length = (moveInRow y ys src base).length := by
  simp only [moveInRow, insertBefore]
  split <;> simp [List.length_eraseIdx, List.length_insertIdx, h]

def getColumnCount (s : SimpleSheetSchema) : Nat := s.columns.length

def deleteColumn (s : SimpleSheetSchema) (column : Int) : SimpleSheetSchema where
  columns := s.columns.eraseIdx column.toNat
  kinds := s.kinds.eraseIdx column.toNat
  hh := s.hh
  aligned := by rw [List.length_eraseIdx, List.length_eraseIdx, s.aligned]

/-- The same steps as `TypedSheet::moveColumn`, on the two vectors. -/
def moveColumn (s : SimpleSheetSchema) (src base : Int) : SimpleSheetSchema × Int :=
  if base ≥ s.columns.length ∨ src < 0 ∨ src ≥ s.columns.length then (s, -1)
  else
    ({ columns := moveInRow "" s.columns src.toNat base
       kinds := moveInRow {} s.kinds src.toNat base
       hh := s.hh
       aligned := length_moveInRow_congr s.aligned _ _ },
      if base < 0 then s.columns.length - 1 else if base ≤ src then base else base - 1)

/-- At the end the type is not kept. -/
def insertColumn (s : SimpleSheetSchema) (column : Int) (info : ColumnInfo) :
    SimpleSheetSchema × Int :=
  if column = -1 then
    ({ columns := s.columns ++ [info.name]
       kinds := s.kinds ++ [{}]
       hh := s.hh
       aligned := by rw [List.length_append, List.length_append, s.aligned]; rfl },
      s.columns.length)
  else
    ({ columns := s.columns.insertIdx column.toNat info.name
       kinds := s.kinds.insertIdx column.toNat info.columnType
       hh := s.hh
       aligned := by rw [List.length_insertIdx, List.length_insertIdx, s.aligned] },
      column)

def modifyColumn (s : SimpleSheetSchema) (column : Int) (info : ColumnInfo) :
    SimpleSheetSchema × Bool :=
  ({ columns := s.columns.set column.toNat info.name
     kinds := s.kinds
     hh := s.hh
     aligned := by rw [List.length_set, s.aligned] }, true)

end SimpleSheetSchema

/-! ## Column operations -/

structure PolySheet where
  sheet : TypedSheet SheetCell
  schema : SimpleSheetSchema
  -- `sheet->hasExternalColumnNames()`
  external : Bool := false
  dh : Nat := 0
deriving DecidableEq

namespace PolySheet

/-- The row of the sheet that holds the column names, if a name goes there. -/
def headerRow (p : PolySheet) (info : ColumnInfo) : Option Nat :=
  if info.nameSet = true ∧ p.external = false ∧ p.schema.hh > 0 then some (p.schema.hh - 1).toNat
  else none

/-- The name is written into the header row, whether or not the sheet has that row. -/
def postApplyInfo (p : PolySheet) (info : ColumnInfo) (result : Int) : Option PolySheet :=
  match p.headerRow info with
  | some y =>
    if y < p.sheet.height then some { p with sheet := p.sheet.cellText result.toNat y info.name }
      else none
  | none => some p

def deleteColumn (p : PolySheet) (column : Int) : PolySheet × Bool :=
  let deleted := p.sheet.deleteColumn column
  if deleted.2 = false then ({ p with sheet := deleted.1 }, false)
  else ({ p with sheet := deleted.1, schema := p.schema.deleteColumn column }, true)

/-- Without a name in `info` this is also `insertColumn(base)`. -/
def insertColumn (p : PolySheet) (base : Int) (info : ColumnInfo) : Option (PolySheet × Int) :=
  let result := p.sheet.insertColumn base
  if result.2 < 0 then some ({ p with sheet := result.1 }, result.2)
  else
    let result2 := p.schema.insertColumn base info
    if result2.2 ≠ result.2 then none
    else (({ p with sheet := result.1, schema := result2.1 } : PolySheet).postApplyInfo info
      result.2).map (·, result.2)

def moveColumn (p : PolySheet) (src base : Int) : Option (PolySheet × Int) :=
  let result := p.sheet.moveColumn src base
  if result.2 < 0 then some ({ p with sheet := result.1 }, result.2)
  else
    let result2 := p.schema.moveColumn src base
    if result2.2 ≠ result.2 then none
      else some ({ p with sheet := result.1, schema := result2.1 }, result.2)

/-- `TypedSheet::modifyColumn` does nothing and reports success. -/
def modifyColumn (p : PolySheet) (base : Int) (info : ColumnInfo) : Option (PolySheet × Bool) :=
  let result2 := p.schema.modifyColumn base info
  if result2.2 = false then none
  else (({ p with schema := result2.1 } : PolySheet).postApplyInfo info base).map (·, true)

end PolySheet

/-! ## Row operations -/

/-- The cells of a row on their way to a sheet; only the flagged ones are set. -/
structure RowCache where
  flags : List Bool
  cells : List SheetCell
deriving DecidableEq, Repr

namespace TypedSheet

/-- `deleteRows`: stops at the first row that cannot be deleted. -/
def deleteRows (s : TypedSheet SheetCell) (start : Int) : Nat → TypedSheet SheetCell × Bool
  | 0 => (s, true)
  | n + 1 =>
    let deleted := s.deleteRow start
    if deleted.2 then deleted.1.deleteRows start n else (deleted.1, false)

/-- The cells of a cache, put in row `row`. -/
def setCells (s : TypedSheet SheetCell) (cache : RowCache) (row : Nat) : TypedSheet SheetCell :=
  (List.range cache.cells.length).foldl (fun s i =>
    if cache.flags.getD i false then s.setCell i row (cache.cells.getD i ⟨"", true⟩) else s) s

/-- `applyRowCache`: adds rows until there is a row `row`. -/
def applyRowCache (s : TypedSheet SheetCell) (cache : RowCache) (row : Int) :
    TypedSheet SheetCell × Bool :=
  if row = -1 then (s, false)
  else
    let grown := (List.range (row + 1 - s.height).toNat).foldl (fun s _ => (s.insertRow (-1)).1) s
    (grown.setCells cache row.toNat, true)

end TypedSheet

/-- `RowRef::delta`. -/
def rowDelta (row dh : Int) : Int := if row = -1 then row else row + dh

/-- The row and cell operations of a sheet. -/
inductive RowOp
  | height
  | cellString (x y : Nat)
  | cellSummary (x y : Nat)
  | setText (x y : Nat) (str : String)
  | setCell (x y : Nat) (c : SheetCell)
  | deleteRow (src : Int)
  | deleteRows (first last : Int)
  | insertRow (base : Int)
  -- `insertRowOrdered`, cells set through the row it returns, and `getRowAfterFlush`
  | insertRowOrdered (base : Int) (cells : List (Nat × SheetCell))
  | moveRow (src base : Int)
  | applyRowCache (cache : RowCache) (row : Int)
deriving DecidableEq, Repr

/-- What an operation returns. -/
inductive RowResult
  | height (h : Int)
  | text (str : String)
  | cell (c : SheetCell)
  | done (ok : Bool)
  | row (r : Int)
deriving DecidableEq, Repr

namespace PolySheet

variable (dh : Nat)

def fixRow (r : Int) : Int := if dh = 0 then r else if r = -1 then r else rowDelta r (-dh)

/-- The row operations, each as it forwards to the sheet. -/
def rowOp (s : TypedSheet SheetCell) : RowOp → TypedSheet SheetCell × RowResult
  | .height => (s, .height (s.height - dh))
  | .cellString x y => (s, .text (s.cell x (y + dh)).text)
  | .cellSummary x y => (s, .cell (s.cell x (y + dh)))
  | .setText x y str => (s.cellText x (y + dh) str, .done true)
  | .setCell x y c => (s.setCell x (y + dh) c, .done true)
  | .deleteRow src =>
    let deleted := s.deleteRow (rowDelta src dh)
    (deleted.1, .done deleted.2)
  | .deleteRows first last =>
    let deleted := s.deleteRows (rowDelta first dh) (rowDelta last dh + 1 - rowDelta first dh).toNat
    (deleted.1, .done deleted.2)
  | .insertRow base =>
    let inserted := s.insertRow (rowDelta base dh)
    (inserted.1, .row (fixRow dh inserted.2))
  | .insertRowOrdered base cells =>
    let inserted := s.insertRow (rowDelta base dh)
    (cells.foldl (fun s c => s.setCell c.1 inserted.2.toNat c.2) inserted.1,
      .row (if inserted.2 ≠ -1 then inserted.2 + -dh else inserted.2))
  | .moveRow src base =>
    let moved := s.moveRow src (rowDelta base dh)
    (moved.1, .row (fixRow dh moved.2))
  | .applyRowCache cache row =>
    let applied := s.applyRowCache cache row
    (applied.1, .done applied.2)

def rowOps : List RowOp → TypedSheet SheetCell → TypedSheet SheetCell × List RowResult
  | [], s => (s, [])
  | op :: ops, s =>
    let r := rowOp dh s op
    let rest := rowOps ops r.1
    (rest.1, r.2 :: rest.2)

end PolySheet

end Coopy
