import Coopy.ChainedPatcher
import Coopy.Lib.Search
import Coopy.PolySheet

/-!
# Conflicts written into a sheet, and taken out again

The patcher of a merge adds a column `_MERGE_` to the sheet when it meets the first row in conflict.
It writes `CONFLICT` there, and both sides with the pivot into each cell in conflict, in one text.
`BookCompare::resolve` reads such a sheet, finds the sides in the texts again, and tells a patcher
to drop the column and to update the rows to the side that was chosen.
-/

namespace Coopy

open Lib

/-- The patcher of a merge. -/
structure MergingPatcher where
  patcher : SheetPatcher
  -- the schema of the sheet, or the one that `mustHaveSchema` sniffs
  schema : SimpleSheetSchema
  -- the sheet keeps its column names outside of its cells
  external : Bool := false
  -- nothing in the source enters a name here
  columnNames : List String := []
  readyForConflicts : Bool := false
  conflictColumn : Int := -1

namespace MergingPatcher

/-! ## The column of a merge -/

def mergeInfo : ColumnInfo :=
  { ColumnInfo.named "_MERGE_" with
    columnType := { srcName := "text", srcLang := "sqlite", family := .text } }

/-- The sheet with its schema. -/
def poly (q : MergingPatcher) : PolySheet where
  sheet := q.patcher.sheet
  schema := q.schema
  external := q.external

/-- `handleConflicts`: the name of the new column is not entered into `activeCol`. -/
def handleConflicts (q : MergingPatcher) : Option (MergingPatcher × Bool) :=
  if q.readyForConflicts then some (q, true)
  else if "_MERGE_" ∈ q.columnNames then
    some ({ q with readyForConflicts := true, conflictColumn := q.columnNames.idxOf "_MERGE_" },
      true)
  else
    (q.poly.insertColumn (-1) mergeInfo).map fun r =>
      let p' : SheetPatcher :=
        { q.patcher with
          sheet := r.1.sheet
          schema := !q.external
          activeCol := (q.patcher.activeCol.insertColumn (-1)).1
          statusCol := (q.patcher.statusCol.insertColumn (-1)).1 }
      ({ q with
         patcher := p'
         schema := r.1.schema
         readyForConflicts := decide (r.2 ≠ -1)
         conflictColumn := r.2 }, decide (r.2 ≠ -1))

/-! ## A row in conflict -/

/-- What a cell in conflict is given. -/
def conflictText (pivot l r : SheetCell) : String :=
  "((( " ++ pivot.toString ++ " ))) " ++ l.toString ++ " /// " ++ r.toString

/-- The loop that looks for a separator that is in none of the texts. -/
def conflictSeparator (texts : List String) : Nat → String → Option String
  | 0, _ => none
  | fuel + 1, sep =>
    if texts.any fun t => (firstIn sep.toList t.toList).isSome then conflictSeparator texts fuel
      ("-" ++ sep)
    else some sep

/-- As many rounds as the longest text has characters, and one more. -/
def separatorRounds (texts : List String) : Nat := texts.foldr (fun t n => max t.length n) 0 + 1

/-- A cell of row `r`: only where the sides differ something is written into it. -/
def markCell (conflictColumn : Nat) (val cval pval : AssocMap Nat (String × SheetCell)) (r : Nat)
    (sheet : TypedSheet SheetCell) (c : Nat) : TypedSheet SheetCell :=
  match val.get? c with
  | none => sheet
  | some v =>
    let sheet := sheet.setCell conflictColumn r ⟨"CONFLICT", false⟩
    let alt := (cval.get? c).getD v
    let parent := (pval.get? c).getD v
    if v.2 ≠ alt.2 then sheet.setCell c r ⟨conflictText parent.2 v.2 alt.2, false⟩ else sheet

/-- `markChanges` for a change in conflict. -/
def markChanges (q : MergingPatcher) (change : RowChange) (r : Nat) : Option MergingPatcher :=
  let p := q.patcher
  let val := p.byCol change.val
  let columns := List.range p.sheet.width
  if columns.all fun c => (val.get? c).isNone then some q
  else
    let texts := columns.map fun c => (p.sheet.cell c r).text
    (conflictSeparator texts (separatorRounds texts) "!").map fun init =>
      let p' : SheetPatcher :=
        { p with
          activeRow :=
            if init.length > (p.activeRow.cell 0 r).length then p.activeRow.setCell 0 r init
            else p.activeRow
          sheet :=
            columns.foldl (markCell q.conflictColumn.toNat val (p.byCol change.conflictingVal)
            (p.byCol change.conflictingParentVal) r) p.sheet }
      { q with patcher := p' }

def updateRow (q : MergingPatcher) (change : RowChange) (r : Int) :
    Option (MergingPatcher × Bool) :=
  if r < 0 then some ({ q with patcher := { q.patcher with rowCursor := -1 } }, false)
  else (q.markChanges change r.toNat).map fun q =>
    ({ q with patcher := { q.patcher with rowCursor := q.patcher.after r } }, true)

def moveRow (q : MergingPatcher) (change : RowChange) (r : Int) : Option (MergingPatcher × Bool) :=
  if r < 0 then some (q, false)
  else
    let p := q.patcher
    let moved := p.sheet.moveRow r p.rowCursor
    if moved.2 = -1 then none
    else
      let p' : SheetPatcher :=
        { p with sheet := moved.1, activeRow := (p.activeRow.moveRow r p.rowCursor).1 }
      (MergingPatcher.markChanges { q with patcher := p' } change moved.2.toNat).map fun q =>
        ({ q with patcher := { q.patcher with rowCursor := q.patcher.after moved.2 } }, false)

/-- `changeRow` of a merging patcher. -/
def changeRow (q : MergingPatcher) (change : RowChange) : Option (MergingPatcher × Bool) :=
  let within (r : SheetPatcher × Bool) (q : MergingPatcher) : MergingPatcher × Bool :=
    ({ q with patcher := r.1 }, r.2)
  (q.patcher.named change).bind fun p =>
    if change.conflicted = false then (p.changeRow change).map fun r => within r q
    else
      (handleConflicts { q with patcher := p }).bind fun ready =>
        if ready.2 = false then some (ready.1, false)
        else
          let p := ready.1.patcher.settle change
          let q := { ready.1 with patcher := p }
          let cond := p.byCol change.cond
          match change.mode with
          | .update => q.updateRow change (p.matchRow cond)
          | .move => q.moveRow change (p.matchRow cond)
          | .insert => (p.insertChange (p.byCol change.val)).map fun r => within r q
          | .delete => some (within (p.deleteChange (p.matchRow cond)) q)
          | .context => (p.contextChange cond.isEmpty (p.matchRow cond)).map fun r => within r q
          | .none => some (q, false)

end MergingPatcher

/-! ## `BookCompare::resolve` -/

namespace BookCompare

structure ConflictCell where
  locals : SheetCell
  remote : SheetCell
  pivot : SheetCell
deriving DecidableEq, Repr

/-- `substr(start,stop-start)`; the difference is unsigned, and too large when it would be
negative. -/
def slice (text : List Char) (start stop : Nat) : SheetCell :=
  ⟨String.ofList (if start ≤ stop then (text.drop start).take (stop - start) else text.drop start),
    false⟩

def ConflictCell.parse (src : SheetCell) : Option ConflictCell :=
  let text := src.text.toList
  if text.take 3 ≠ "(((".toList then none
  else
    (firstIn " ))) ".toList text).bind fun pivotEnd =>
      (firstIn " /// ".toList text).map fun localEnd =>
        { locals := slice text (pivotEnd + 5) localEnd
          remote := slice text (localEnd + 5) text.length
          pivot := slice text 4 pivotEnd }

/-- The side that a resolution takes; `none` if it is not understood. -/
def side (resolve : String) : Option (ConflictCell → SheetCell) :=
  if resolve = "theirs" then some ConflictCell.remote
  else if resolve = "ours" then some ConflictCell.locals
  else if resolve = "neither" then some ConflictCell.pivot
  else none

/-- `hideHeaders`. -/
def hideHeaders (p : PolySheet) : PolySheet :=
  if p.external then p else { p with dh := p.schema.hh.toNat }

/-- The update of a row with these cells, of which column `idx` is left out. -/
def resolveRow (side : ConflictCell → SheetCell) (indexes : AssocMap String Bool)
    (onames names : List String) (idx w : Nat) (cell : Nat → SheetCell) : RowChange :=
  let columns := (List.range w).filter fun x => decide (x ≠ idx)
  { mode := .update
    indexes := indexes
    allNames := names
    names := names
    cond := columns.foldl (fun m x => m.set (onames.getD x "") (cell x)) []
    val := columns.foldl (fun m x =>
      match ConflictCell.parse (cell x) with
      | some cc => m.set (onames.getD x "") (side cc)
      | none => m) [] }

/-- The deletion of the column. -/
def dropColumn (onames names : List String) : OrderChange where
  indicesBefore := (List.range onames.length).map Int.ofNat
  namesBefore := onames
  indicesAfter :=
    ((List.range onames.length).filter fun i => decide (onames.getD i "" ≠ "_MERGE_")).map Int.ofNat
  namesAfter := names
  subject :=
    (((List.range onames.length).filter fun i => decide (onames.getD i "" = "_MERGE_")).map
      Int.ofNat).getLastD (-1)
  mode := .delete

/-- `resolve` for one sheet: the calls on the output.  The indexes are what the sniffer suggests. -/
def resolve (resolve : String) (indexes : AssocMap String Bool) (p : PolySheet) :
    Option (List PatchEvent) :=
  (side resolve).map fun side =>
    let onames := p.schema.columns
    let names := onames.filter fun name => decide (name ≠ "_MERGE_")
    if "_MERGE_" ∉ onames then []
    else
      let idx := onames.idxOf "_MERGE_"
      let dh := (hideHeaders p).dh
      let rows := (List.range (p.sheet.height - dh)).filter fun y =>
        decide ((p.sheet.cell idx (y + dh)).text = "CONFLICT")
      [.changeName ⟨false, false, onames⟩, .changeColumn (dropColumn onames names),
        .changeName ⟨true, false, names⟩] ++ rows.map (fun y => .changeRow
          (resolveRow side indexes onames names idx p.sheet.width fun x =>
            p.sheet.cell x (y + dh))) ++ [.mergeDone]

end BookCompare

end Coopy
