import Coopy.Patcher
import Mathlib.Data.List.Dedup

/-!
# `MergeOutputFilter`: changes held back and sent on

The filter stands between a merge and its output.  It keeps what it is told about each sheet, and
the rows of all sheets in one list.  `mergeAllDone` sends everything on: rows in the order in which
they came, or table by table if two tables or more are asked for, and the names, columns and pools
of a sheet when the sheet first comes up.

`none` is `exit(1)`.  What is entered into the pool of the flags is left out, as nothing here reads
it back; that there is a pool makes `mergeAllDone` scan the inserted rows.
-/

namespace Coopy

open Lib

structure TableField where
  tableName : String
  fieldName : String
  invented : Bool := false
deriving DecidableEq, Repr

structure PoolChange where
  poolName : String
  tableName : String
  pool : List TableField
deriving DecidableEq, Repr

/-- The flags of a comparison, with those only the filter reads. -/
structure FilterFlags extends CompareFlags where
  orderedTables : List String := []
  createUnknownSheets : Bool := false
  -- the columns whose values are made up on insertion
  coined : List String := []
  -- whether there is a pool
  pool : Bool := false
deriving DecidableEq, Repr

def FilterFlags.canSchema (flags : FilterFlags) : Bool := flags.can "schema"

/-- All that is known of a sheet but its rows. -/
structure SheetUnit where
  sheetName : String := ""
  name0 : NameChange := ⟨false, false, []⟩
  name1 : NameChange := ⟨false, false, []⟩
  haveName0 : Bool := false
  haveName1 : Bool := false
  orders : List OrderChange := []
  pools : List PoolChange := []
  rowCount : Nat := 0
deriving DecidableEq, Repr

structure RowUnit where
  sheetName : String
  change : RowChange
deriving DecidableEq, Repr

/-- The book that is attached: its sheets, and the schemas of those that have one, each with the
name of its sheet and its columns. -/
structure FilterBook where
  sheets : List String
  schemas : AssocMap String (String × List String) := []
deriving DecidableEq, Repr

/-- A call on the chained output. -/
inductive ChainCall
  | setSheet (name : String)
  | changeName (change : NameChange)
  | changeColumn (change : OrderChange)
  | changePool (change : PoolChange)
  | changeRow (change : RowChange)
  | mergeDone
  | mergeAllDone
deriving DecidableEq, Repr

/-- A call on the filter. -/
inductive FilterCall
  | setSheet (name : String)
  | changeName (change : NameChange)
  | changePool (change : PoolChange)
  | changeColumn (change : OrderChange)
  | changeRow (change : RowChange)
deriving DecidableEq, Repr

structure MergeOutputFilter where
  flags : FilterFlags
  book : Option FilterBook := none
  sheetName : String := ""
  lastSheetName : String := "[[ COOPY - SHEET NOT SET ]]"
  sheetUnits : AssocMap String SheetUnit := []
  rows : List RowUnit := []
  startedSheets : List String := []
  desiredSheets : List String := []
  -- the calls on the chained output so far
  chain : List ChainCall := []
deriving DecidableEq, Repr

/-! ## A conflict resolved in a finished change -/

/-- What `emitRow` makes of a change; `none` if it keeps the change to itself. -/
def resolveChange (resolve : String) (change : RowChange) : Option RowChange :=
  if resolve ≠ "" ∧ change.conflicted = true then
    if resolve = "ours" then none
    else
      let val :=
        if resolve = "theirs" then change.conflictingVal.foldl
        (fun val e => val.set e.1 e.2) change.val
        else if resolve = "neither" then change.conflictingParentVal.foldl
          (fun val e => val.set e.1 e.2) change.val
        else change.val
      some { change with
        val := val
        conflictingVal := []
        conflictingParentVal := []
        conflicted := false }
  else some change

namespace MergeOutputFilter

/-! ## What the filter is told -/

def getSheetUnit (f : MergeOutputFilter) : SheetUnit :=
  (f.sheetUnits.get? f.sheetName).getD { sheetName := f.sheetName }

/-- A change to the unit of the present sheet. -/
def putSheetUnit (f : MergeOutputFilter) (unit : SheetUnit) : MergeOutputFilter :=
  { f with sheetUnits := f.sheetUnits.set f.sheetName unit }

def isActiveTable (f : MergeOutputFilter) : Bool :=
  f.desiredSheets.isEmpty || f.desiredSheets.contains f.sheetName

def mergeStart (f : MergeOutputFilter) : MergeOutputFilter :=
  { f with desiredSheets := f.flags.orderedTables.dedup }

def setSheet (f : MergeOutputFilter) (name : String) : MergeOutputFilter :=
  let f := { f with sheetName := name }
  f.putSheetUnit f.getSheetUnit

def changeColumn (f : MergeOutputFilter) (change : OrderChange) : MergeOutputFilter × Bool :=
  if f.isActiveTable = false then (f, false)
  else
    let unit := f.getSheetUnit
    (f.putSheetUnit { unit with orders := unit.orders ++ [change] }, true)

def changePool (f : MergeOutputFilter) (change : PoolChange) : MergeOutputFilter × Bool :=
  if f.isActiveTable = false then (f, false)
  else if f.flags.canSchema = false then (f, false)
  else
    let unit := f.getSheetUnit
    (f.putSheetUnit { unit with pools := unit.pools ++ [change] }, true)

/-- A second name change of one kind takes the place of the first. -/
def changeName (f : MergeOutputFilter) (change : NameChange) : MergeOutputFilter × Bool :=
  if f.isActiveTable = false then (f, false)
  else
    let unit := f.getSheetUnit
    if change.final then (f.putSheetUnit { unit with name1 := change, haveName1 := true }, true)
    else (f.putSheetUnit { unit with name0 := change, haveName0 := true }, true)

/-- The modes that the flags let pass. -/
def canMode (flags : FilterFlags) : RowChangeMode → Bool
  | .insert => flags.canInsert
  | .delete => flags.canDelete
  | .update => flags.canUpdate
  | .move => flags.canUpdate
  | _ => true

/-- The names of a sheet that has none are taken from its first row, even if that row is refused. -/
def changeRow (f : MergeOutputFilter) (change : RowChange) : MergeOutputFilter × Bool :=
  if f.isActiveTable = false then (f, false)
  else
    let unit := f.getSheetUnit
    let f :=
      if unit.haveName0 || unit.haveName1 then f.putSheetUnit unit
      else (f.changeName ⟨true, true, change.allNames⟩).1
    if canMode f.flags change.mode = false then (f, false)
    else
      let unit := f.getSheetUnit
      let f : MergeOutputFilter := { f with rows := f.rows ++ [⟨f.sheetName, change⟩] }
      (f.putSheetUnit { unit with rowCount := unit.rowCount + 1 }, true)

def call (f : MergeOutputFilter) : FilterCall → MergeOutputFilter
  | .setSheet name => f.setSheet name
  | .changeName change => (f.changeName change).1
  | .changePool change => (f.changePool change).1
  | .changeColumn change => (f.changeColumn change).1
  | .changeRow change => (f.changeRow change).1

/-! ## What the filter sends on -/

def send (f : MergeOutputFilter) (calls : List ChainCall) : MergeOutputFilter :=
  { f with chain := f.chain ++ calls }

/-- `sheet_units[name]`; what it adds to the map is never looked at but here. -/
def unitOf (f : MergeOutputFilter) (name : String) : SheetUnit := (f.sheetUnits.get? name).getD {}

/-- The part of `emitPreamble` that makes a sheet the book lacks; it has names only from a final
change. -/
def createSheet (f : MergeOutputFilter) (preamble : SheetUnit) : Option MergeOutputFilter :=
  match f.flags.createUnknownSheets, f.book with
  | true, some book =>
    if preamble.sheetName ∈ book.sheets then some f
    else
      let names :=
        if preamble.haveName1 then preamble.name1.names
        else if preamble.haveName0 then preamble.name1.names
        else []
      if names.length = 0 then none
      else some { f with book := some { book with sheets := book.sheets ++ [preamble.sheetName] } }
  | _, _ => some f

/-- The names, columns and pools of a sheet, as they go out. -/
def preambleCalls (preamble : SheetUnit) : List ChainCall :=
  (if preamble.haveName0 then [.changeName preamble.name0] else []) ++
  preamble.orders.map .changeColumn ++
    (if preamble.haveName1 then [.changeName preamble.name1] else []) ++
    preamble.pools.map .changePool

def emitPreamble (f : MergeOutputFilter) (preamble : SheetUnit) : Option MergeOutputFilter :=
  let name := preamble.sheetName
  if name = f.lastSheetName then some f
  else
    (f.createSheet preamble).map fun f =>
      let f := if name ≠ "" then f.send [.setSheet name] else f
      let f := { f with lastSheetName := name }
      if name ∈ f.startedSheets then f
      else { f with startedSheets := name :: f.startedSheets }.send (preambleCalls preamble)

def emitPreambleIfNeeded (f : MergeOutputFilter) (preamble : SheetUnit) :
    Option MergeOutputFilter :=
  if preamble.rowCount = 0 ∧
      (f.flags.canSchema = true ∨ preamble.orders.length > 0 ∨ preamble.pools.length > 0) then
    f.emitPreamble preamble
  else some f

def emitRow (f : MergeOutputFilter) (row : RowUnit) : Option MergeOutputFilter :=
  (if row.sheetName ≠ f.lastSheetName then f.emitPreamble (f.unitOf row.sheetName) else some f).map
  fun f =>
    match resolveChange f.flags.resolve row.change with
    | some change => f.send [.changeRow change]
    | none => f

def emitRows : List RowUnit → MergeOutputFilter → Option MergeOutputFilter
  | [], f => some f
  | row :: rows, f => (f.emitRow row).bind (emitRows rows)

def emitPreambles : List SheetUnit → MergeOutputFilter → Option MergeOutputFilter
  | [], f => some f
  | unit :: units, f => (f.emitPreambleIfNeeded unit).bind (emitPreambles units)

/-- Table by table, as the list has them. -/
def emitTables : List String → MergeOutputFilter → Option MergeOutputFilter
  | [], f => some f
  | name :: names, f =>
    (emitRows (f.rows.filter fun row => row.sheetName = name) f).bind fun f =>
      (f.emitPreambleIfNeeded (f.unitOf name)).bind (emitTables names)

/-- A pool for every column of the schema that is coined, reported on the present sheet. -/
def addPoolsFromFlags (f : MergeOutputFilter) (schema : String × List String) : MergeOutputFilter :=
  f.flags.coined.foldl (fun f field =>
    (schema.2.filter (· = field)).foldl
      (fun f field => (f.changePool ⟨schema.1, schema.1, [⟨"", field, true⟩]⟩).1) f) f

/-- The sheets of the inserted rows, each looked up in the book once. -/
def scanRows : List RowUnit → List String → MergeOutputFilter → MergeOutputFilter
  | [], _, f => f
  | row :: rows, seen, f =>
    if row.change.mode = .insert ∧ row.sheetName ∉ seen then
      match f.book with
      | none => scanRows rows seen f
      | some book =>
        scanRows rows (row.sheetName :: seen)
          (if row.sheetName ∈ book.sheets then
            match book.schemas.get? row.sheetName with
            | some schema => f.addPoolsFromFlags schema
            | none => f
          else f)
    else scanRows rows seen f

def scanPools (f : MergeOutputFilter) : MergeOutputFilter :=
  if f.flags.pool then scanRows f.rows [] f else f

/-- The part of `mergeAllDone` after the pools. -/
def emitAll (f : MergeOutputFilter) : Option MergeOutputFilter :=
  (if f.desiredSheets.length < 2 then
    (emitRows f.rows f).bind
      (emitPreambles ((f.sheetUnits.mergeSort fun a b => decide (a.1 ≤ b.1)).map Prod.snd))
  else emitTables f.flags.orderedTables f).map fun f => f.send [.mergeDone, .mergeAllDone]

def mergeAllDone (f : MergeOutputFilter) : Option MergeOutputFilter := f.scanPools.emitAll

/-- The calls on the chained output in a whole run. -/
def run (flags : FilterFlags) (book : Option FilterBook) (calls : List FilterCall) :
    Option (List ChainCall) :=
  (calls.foldl call
    ({ flags := flags, book := book : MergeOutputFilter }.mergeStart)).mergeAllDone.map chain

end MergeOutputFilter

end Coopy
