import Coopy.TdiffNames
import Coopy.Patcher

/-!
# `MergeOutputTdiff`: changes written as a text

Rows are kept until the columns change or the merge is done; then each is written in one of two
forms, as the lattice has chosen.  In the plain form every cell has the name of its column in front.
In the factored form the names stand in a header line, which is written only where other columns are
in use than for the row before.

    @ |id=|note|                        a header: the row is chosen by `id`
    = |7|*->text|                       an update, factored
    = |id=7|note:*->text|               the same in the plain form
-/

namespace Coopy

open Lib

/-- What `MergeOutputTdiff` keeps from call to call, and its text so far.  (Of the flags only the
defaults are modelled; members that are set and never read are left out, and so are the costs of the
lattice.) -/
structure MergeOutputTdiff where
  sheetName : String := ""
  sheetNameShown : Bool := true
  sheetNameBreakShown : Bool := true
  ops : List String := []
  activeColumn : AssocMap String Bool := []
  showForSelect : AssocMap String Bool := []
  showForDescribe : AssocMap String Bool := []
  showForCond : AssocMap String Bool := []
  rowCache : List RowChange := []
  out : List Char := []
deriving DecidableEq, Repr

namespace MergeOutputTdiff

variable (w : MergeOutputTdiff)

def print (text : List Char) : MergeOutputTdiff := { w with out := w.out ++ text }

def mergeStart : MergeOutputTdiff := w.print "# tdiff version 0.3\n".toList

def showSheet (bound : Bool) : MergeOutputTdiff :=
  let w :=
    if w.sheetNameShown then w
    else { w.print ("\n@@@ ".toList ++ cString (Tdiff.stringy w.sheetName true) ++ ['\n']) with
      sheetNameShown := true
      sheetNameBreakShown := false }
  if bound || w.sheetNameBreakShown then w
  else { w.print ['\n'] with sheetNameBreakShown := true }

/-! ## Rows -/

/-- The row is chosen by its value in the column. -/
def shouldMatch (change : RowChange) (name : String) : Bool :=
  if change.mode = .insert then false
  else
    (change.cond.contains name && change.indexes.holds name) ||
      (change.val.contains name && change.cond.contains name)

def shouldAssign (change : RowChange) (name : String) : Bool :=
  if change.mode = .delete then false else change.val.contains name

def opText : (shouldMatch shouldAssign : Bool) → String
  | false, false => ""
  | _, _ => "..."

/-- `lops`: what is done with each column. -/
def columnOps (change : RowChange) : List String :=
  change.names.map fun name => opText (shouldMatch change name) (shouldAssign change name) ++ name

/-- What each column is for in the row. -/
def chooseOps (change : RowChange) : MergeOutputTdiff :=
  { w with
    activeColumn :=
      AssocMap.setAll (fun _ => true)
        (change.names.filter fun name => shouldMatch change name || shouldAssign change name) []
    showForSelect := AssocMap.setAll (shouldMatch change) change.names []
    showForDescribe := AssocMap.setAll (shouldAssign change) change.names []
    showForCond := AssocMap.setAll change.cond.contains change.names [] }

/-- The active columns of a row. -/
def actives (change : RowChange) : List String := change.names.filter w.activeColumn.holds

/-- The header line. -/
def operateRow (change : RowChange) : MergeOutputTdiff :=
  w.print ("@ |".toList ++
    ((w.actives change).flatMap fun name =>
      cString (Tdiff.stringy name false) ++ (if w.showForSelect.holds name then ['='] else []) ++
        ['|']) ++
    ['\n'])

/-- What stands in front of the values of a column. -/
def nameTerm (factored assign : Bool) (ch : Char) (name : String) : List Char :=
  let select := w.showForSelect.holds name
  let cond := w.showForCond.holds name
  let view := w.showForDescribe.holds name
  if factored then if assign && !cond then "*->".toList else []
  else
    cString (Tdiff.stringy name false) ++ (if select then ['='] else []) ++
      (if view && !(cond || select) then if ch = '+' then ":->".toList else ":*->".toList
        else []) ++
      (if cond && !(view || select) then [':'] else [])

/-- The marks of a conflict in a column. -/
def conflictTerm (change : RowChange) (name : String) : List Char :=
  if change.conflictingVal.contains name then
    '!' :: match change.conflictingParentVal.get? name with
      | some c => cString (Tdiff.celly c false) ++ ['!']
      | none => []
  else []

/-- The values of a column.  (The `select` of the call is hidden by another in the loop.) -/
def valueTerm (change : RowChange) (update : Bool) (name : String) : List Char :=
  let transition := w.showForCond.holds name && w.showForSelect.holds name
  let shown := w.showForDescribe.holds name && update
  let old :=
    if transition then cString (Tdiff.celly ((change.cond.get? name).getD ⟨"", true⟩) false) else []
  let v := if change.conflictingVal.contains name then change.conflictingVal.get? name
    else change.val.get? name
  let new :=
    if shown then (if transition then "->".toList else []) ++
    cString (Tdiff.celly (v.getD ⟨"", true⟩) false) else []
  old ++ new ++ if transition || shown then [] else ['*']

/-- The line of a row. -/
def updateRow (change : RowChange) (ch : Char) (assign update factored : Bool) : MergeOutputTdiff :=
  w.print ((if change.conflicted then ['!'] else []) ++ [ch] ++ " |".toList ++
    ((w.actives change).flatMap fun name =>
      w.nameTerm factored assign ch name ++ conflictTerm change name ++
        w.valueTerm change update name ++ ['|']) ++
    ['\n'])

/-- The start of `changeRow` for a row that is written: the header, if the columns are not those
before. -/
def beginRow (change : RowChange) (factored : Bool) : MergeOutputTdiff :=
  let w := (w.showSheet false).chooseOps change
  let lops := columnOps change
  if factored then if lops ≠ w.ops then { w with ops := lops }.operateRow change else w
  else { w with ops := lops }

/-- `changeRow` for a row that is written; `none` is a call of `exit`. -/
def writeRow (change : RowChange) (factored : Bool) : Option MergeOutputTdiff :=
  let w := w.beginRow change factored
  match change.mode with
  | .insert => some (w.updateRow change '+' false true factored)
  | .delete => some (w.updateRow change '-' false false factored)
  | .context => some (w.updateRow change '*' false false factored)
  | .move => some (w.updateRow change ':' true true factored)
  | .update => some (w.updateRow change '=' true true factored)
  | .none => none

/-- `changeRow` for a row that is kept. -/
def changeRow (change : RowChange) : MergeOutputTdiff :=
  { (w.showSheet false).chooseOps change with
    ops := columnOps change
    rowCache := w.rowCache ++ [change] }

/-- Row after row, each in the form that is chosen for it. -/
def writeRows (form : Nat → Bool) : Nat → List RowChange → MergeOutputTdiff →
    Option MergeOutputTdiff
  | _, [], w => some w
  | i, change :: rows, w => (w.writeRow change (form i)).bind (writeRows form (i + 1) rows)

/-- The rows that are kept are written: factored where the lattice says 1. -/
def flushRows (form : Nat → Bool) : Option MergeOutputTdiff :=
  let w := { w with ops := [], activeColumn := [], showForSelect := [], showForDescribe := [] }
  (writeRows form 0 w.rowCache w).map fun w => { w with rowCache := [] }

/-! ## Other calls -/

def setSheet (form : Nat → Bool) (name : String) : Option MergeOutputTdiff :=
  (w.flushRows form).map fun w =>
  { w with sheetNameShown := false, sheetNameBreakShown := true, sheetName := name }

def changeName (form : Nat → Bool) (change : NameChange) (loud : Bool) : Option MergeOutputTdiff :=
  (w.flushRows form).map fun w =>
    if change.final then w
    else
      let w := { w with
        activeColumn := AssocMap.setAll (fun _ => true) change.names []
        showForSelect := w.showForSelect.setAll (fun _ => true) change.names
        showForDescribe := w.showForDescribe.setAll (fun _ => true) change.names }
      if loud || !change.constant then (w.showSheet false).print (Tdiff.changeName change.names)
        else w

def mergeDone (form : Nat → Bool) : Option MergeOutputTdiff := w.flushRows form

/-- The text of a merge that reports rows of one sheet, if it names the sheet at all.  The
declarations of the column names come before the rows. -/
def write (form : Nat → Bool) (sheetName : Option String) (declared : List (NameChange × Bool))
    (rows : List RowChange) : Option (List Char) := do
  let w := ({} : MergeOutputTdiff).mergeStart
  let w ← sheetName.elim (some w) (w.setSheet form)
  let w ← declared.foldlM (fun w d => w.changeName form d.1 d.2) w
  let w ← (rows.foldl changeRow w).mergeDone form
  return w.out

/-- An update of one row in both forms. -/
example :
    let change : RowChange :=
      { mode := .update
        cond := [("id", ⟨"7", false⟩), ("note", SheetCell.null)]
        val := [("note", ⟨"text", false⟩)]
        names := ["id", "note"]
        indexes := [("id", true), ("note", false)] }
    write (· = 0) none [] [change, change] =
      some "# tdiff version 0.3\n@ |id=|note=|\n= |7|NULL->text|\n= |id=7|note=NULL->text|\n".toList := by
  decide +kernel

end MergeOutputTdiff

end Coopy
