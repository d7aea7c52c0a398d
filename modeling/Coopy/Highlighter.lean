import Coopy.MergingPatcher

/-!
# `SheetPatcher` as a highlighter

In descriptive mode the patcher writes a change into the sheet instead of making it.  A deleted row
or column keeps its place and gets a mark; the old and the new value of a cell are written into it
with a separator between them; and a column that is not where the declared names have it gets one
arrow for each place it has moved.  `activeRow` holds the tags of the rows, `statusCol` those of the
columns.
-/

namespace Coopy

open Lib

structure Highlighter where
  patcher : SheetPatcher
  originalIndex : AssocMap String Nat := []
  killNeutral : Bool := false

namespace Highlighter

/-! ## Cells -/

/-- The text without the underscores it begins with. -/
def bare (text : String) : List Char := text.toList.dropWhile fun ch => ch == '_'

def colorEncode (c : SheetCell) : String :=
  if c.escaped then "NULL" else if bare c.text = "NULL".toList then "_" ++ c.text else c.text

/-- One round of the loop of `markChanges`; `status` is the tag of the column.  A text that is
written leaves the flag of the cell as it was. -/
def markCell (status separator init : String) (val cval pval : AssocMap Nat (String × SheetCell))
    (r : Nat) (sheet : TypedSheet SheetCell) (c : Nat) : TypedSheet SheetCell :=
  match val.get? c with
  | none => sheet
  | some v =>
    let prev := sheet.cell c r
    let alt := (cval.get? c).getD v
    let parent := (pval.get? c).getD v
    let conflicted := decide (v.2 ≠ alt.2)
    let sep := if conflicted then init else separator
    if decide (status ≠ "+++") || conflicted then
      if conflicted && !parent.2.escaped then
        sheet.cellText c r (colorEncode parent.2 ++ sep ++ colorEncode prev ++ sep ++
          colorEncode alt.2)
      else sheet.cellText c r (colorEncode prev ++ sep ++ colorEncode alt.2)
    else sheet.setCell c r alt.2

/-- The columns that are assigned. -/
def assigned (p : SheetPatcher) (val : AssocMap Nat (String × SheetCell)) : List Nat :=
  (List.range p.sheet.width).filter fun c => (val.get? c).isSome

/-- What stands between the old and the new value: arrows that are in no text of the row, or a plus
where all columns that are assigned are new. -/
def separator (p : SheetPatcher) (val : AssocMap Nat (String × SheetCell)) (texts : List String) :
    Option String :=
  let status := fun c => p.statusCol.cell c 0
  if (assigned p val).any fun c => status c != "+++" && status c != "---" then
    MergingPatcher.conflictSeparator texts (MergingPatcher.separatorRounds texts) "->"
  else some (if (assigned p val).any fun c => status c == "+++" then "+" else "")

/-- `markChanges`: the cells that are assigned, and the tag of the row. -/
def markChanges (p : SheetPatcher) (change : RowChange) (r : Nat) : Option SheetPatcher :=
  let val := p.byCol change.val
  if assigned p val = [] then some p
  else
    let texts := (List.range p.sheet.width).map fun c => (p.sheet.cell c r).text
    (separator p val texts).bind fun sep =>
      (if change.conflicted then
        (MergingPatcher.conflictSeparator texts (MergingPatcher.separatorRounds texts) "!").map
          (· ++ sep)
      else some sep).map fun init =>
        { p with
          activeRow :=
            if init.length > (p.activeRow.cell 0 r).length then p.activeRow.setCell 0 r init
            else p.activeRow
          sheet := (List.range p.sheet.width).foldl (fun sheet c =>
            markCell (p.statusCol.cell c 0) sep init val (p.byCol change.conflictingVal)
              (p.byCol change.conflictingParentVal) r sheet c) p.sheet }

/-! ## Names and columns -/

/-- `original_index`. -/
def indexNames (names : List String) : AssocMap String Nat :=
  (List.range names.length).foldl (fun m i => m.set (names.getD i "") i) []

/-- `declareNames`: the first names that are declared are matched with those of the sheet. -/
def declareNames (q : Highlighter) (names : List String) : Option Highlighter :=
  let p := { q.patcher with declaredNames := true }
  if q.patcher.declaredNames then some { q with patcher := p, originalIndex := indexNames names }
  else if names.length > p.activeCol.width then none
  else
    let p := (List.range names.length).foldl (fun (p : SheetPatcher) i =>
      if names.getD i "" ≠ p.activeCol.cell i 0 then
        { p with
          syn2name := p.syn2name.set (names.getD i "") (p.activeCol.cell i 0)
          name2syn := p.name2syn.set (p.activeCol.cell i 0) (names.getD i "") }
      else p) p
    p.updateCols.map fun p => { q with patcher := p, originalIndex := indexNames names }

/-- The arrows of the column at `k`, one for each place between it and where it was. -/
def arrows (k first : Nat) : String :=
  if first < k then String.ofList (List.replicate (k - first) '>')
  else String.ofList (List.replicate (first - k) '<')

/-- One round of the loop of `moveColumn`: a column that is deleted or new has no place to come
from. -/
def traceColumn (q : Highlighter) (statusCol : TypedSheet String) (k : Nat) : TypedSheet String :=
  let code := (statusCol.cell k 0).toList.head?
  if code = some '-' ∨ code = some '+' then statusCol
  else
    match q.originalIndex.get? (q.patcher.activeCol.cell k 0) with
    | none => statusCol
    | some first => statusCol.setCell k 0 (arrows k first)

def moveColumn (q : Highlighter) (idx idx2 : Int) : Option (Highlighter × Bool) :=
  let p := q.patcher
  let moved := p.sheet.moveColumn idx idx2
  let p' : SheetPatcher :=
    { p with
      sheet := moved.1
      activeCol := (p.activeCol.moveColumn idx idx2).1
      statusCol := (p.statusCol.moveColumn idx idx2).1 }
  let q' := { q with patcher := p' }
  let traced := (List.range p'.activeCol.width).foldl q'.traceColumn p'.statusCol
  { p' with statusCol := traced }.updateCols.map fun p =>
    ({ q with patcher := p }, decide (moved.2 ≠ -1))

/-! ## Rows -/

/-- The row keeps its place and is marked. -/
def deleteChange (p : SheetPatcher) (r : Int) : SheetPatcher × Bool :=
  if r < 0 then (p, false)
  else
    ({ p with
      activeRow := p.activeRow.setCell 0 r.toNat "---"
      rowCursor := if r ≥ p.sheet.height then -1 else r }, true)

def updateChange (p : SheetPatcher) (change : RowChange) (r : Int) : Option (SheetPatcher × Bool) :=
  if r < 0 then some ({ p with rowCursor := -1 }, false)
  else (markChanges p change r.toNat).map fun p => ({ p with rowCursor := p.after r }, true)

def moveChange (p : SheetPatcher) (change : RowChange) (r : Int) : Option (SheetPatcher × Bool) :=
  if r < 0 then some (p, false)
  else
    let moved := p.sheet.moveRow r p.rowCursor
    if moved.2 = -1 then none
    else
      let p' : SheetPatcher :=
        { p with sheet := moved.1, activeRow := (p.activeRow.moveRow r p.rowCursor).1 }
      (markChanges p' change moved.2.toNat).map fun p =>
        ({ p with rowCursor := p.after moved.2 }, false)

/-- The names, when none were declared. -/
def named (q : Highlighter) (change : RowChange) : Option Highlighter :=
  if q.patcher.declaredNames then some q else q.declareNames change.allNames

def changeRow (q : Highlighter) (change : RowChange) : Option (Highlighter × Bool) :=
  (q.named change).bind fun q =>
    let p := q.patcher.settle change
    let cond := p.byCol change.cond
    let result : Option (SheetPatcher × Bool) :=
      match change.mode with
      | .insert => p.insertChange (p.byCol change.val)
      | .delete => some (deleteChange p (p.matchRow cond))
      | .context => p.contextChange cond.isEmpty (p.matchRow cond)
      | .move => moveChange p change (p.matchRow cond)
      | .update => updateChange p change (p.matchRow cond)
      | .none => some (p, false)
    result.map fun r => ({ q with patcher := r.1 }, r.2)

end Highlighter

end Coopy
