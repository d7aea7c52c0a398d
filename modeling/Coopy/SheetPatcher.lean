import Coopy.Patcher
import Coopy.TypedSheet

/-!
# `SheetPatcher`: applying changes to a sheet

The patcher in apply mode (not descriptive, not merging, no pools and no chained
patcher).  It knows the sheet's columns by name, and its place in the sheet by a
cursor: `-1` is the end.  `none` is a call of `exit`, or a read or write outside a
sheet.  The `Bool` is what the source returns.
-/

namespace Coopy

open Lib

structure SheetPatcher where
  sheet : TypedSheet SheetCell
  -- the sheet has a schema and no column names outside its cells
  schema : Bool := false
  assumeHeader : Bool := false
  activeRow : TypedSheet String := ⟨[], 1, ""⟩
  activeCol : TypedSheet String
  statusCol : TypedSheet String
  name2col : AssocMap String Nat := []
  syn2name : AssocMap String String := []
  name2syn : AssocMap String String := []
  rowCursor : Int := -1
  declaredNames : Bool := false
  checkedHeader : Bool := false
  -- the sheet keeps its column names outside its cells
  external : Bool := false
  -- the rows down to the end of the header: by the schema, or as `SchemaSniffer` finds them in a
  -- sheet without
  headerHeight : TypedSheet SheetCell → Nat := fun _ => 0

namespace SheetPatcher

/-! ## Column names -/

/-- `matchCol`: exits when the name is not there. -/
def matchCol (p : SheetPatcher) (mover : String) : Option Nat :=
  let imover := (p.syn2name.get? mover).getD mover
  (List.range p.activeCol.width).find? fun i =>
    decide (p.activeCol.cell i 0 = imover) && decide (p.statusCol.cell i 0 ≠ "---")

/-- One round of the loop of `updateCols`. -/
def enterName (p : SheetPatcher) (m : AssocMap String Nat) (i : Nat) : AssocMap String Nat :=
  let name := p.activeCol.cell i 0
  if name = "---" then m
  else
    match p.name2syn.get? name with
    | some syn => (m.set name i).set syn i
    | none => m.set name i

/-- `updateCols`: exits when the names and the sheet have drifted apart. -/
def updateCols (p : SheetPatcher) : Option SheetPatcher :=
  if p.activeCol.width ≠ p.sheet.width then none
  else some { p with name2col := (List.range p.activeCol.width).foldl p.enterName [] }

/-- A patcher set to a sheet whose columns have these names. -/
def attach (sheet : TypedSheet SheetCell) (names : List String) (assumeHeader : Bool) :
    Option SheetPatcher :=
  updateCols
    { sheet := sheet
      assumeHeader := assumeHeader
      activeCol := ⟨[names], names.length, ""⟩
      statusCol := ⟨[List.replicate names.length ""], names.length, ""⟩ }

def moveColumn (p : SheetPatcher) (idx idx2 : Int) : Option (SheetPatcher × Bool) :=
  let moved := p.sheet.moveColumn idx idx2
  let p' : SheetPatcher :=
    { p with
      sheet := moved.1
      activeCol := (p.activeCol.moveColumn idx idx2).1
      statusCol := (p.statusCol.moveColumn idx idx2).1 }
  p'.updateCols.map fun p => (p, decide (moved.2 ≠ -1))

/-- `names[idx]`, with `none` for a read outside. -/
def nameIn (names : List String) (idx : Int) : Option String :=
  if idx < 0 then none else names[idx.toNat]?

/-- The column before which the one at `toSheet` goes, or `-1`. -/
def nextCol (p : SheetPatcher) (change : OrderChange) (toSheet : Int) : Option Int :=
  if toSheet ≠ (change.indicesAfter.length : Int) - 1 then
    (nameIn change.namesAfter (toSheet + 1)).bind fun before => (p.matchCol before).map Int.ofNat
  else some (-1)

def deleteCol (p : SheetPatcher) (change : OrderChange) : Option (SheetPatcher × Bool) :=
  (nameIn change.namesBefore (change.identityToIndex change.subject)).bind fun mover =>
    (p.matchCol mover).bind fun idx =>
      let deleted := p.sheet.deleteColumn idx
      let gone := decide (deleted.1.width = 0)
      let p' : SheetPatcher :=
        { p with
          sheet := if gone then deleted.1.deleteData else deleted.1
          activeCol := (p.activeCol.deleteColumn idx).1
          statusCol := (p.statusCol.deleteColumn idx).1
          rowCursor := if gone then -1 else p.rowCursor }
      p'.updateCols.map fun p => (p, deleted.2)

/-- The height of the header that a name is written into.  Without a schema one is sniffed, if that
is allowed. -/
def titles (p : SheetPatcher) (name : String) : Nat :=
  if p.external = false ∧
  (p.schema = true ∨ p.assumeHeader = true ∧ name ≠ "") then p.headerHeight p.sheet else 0

/-- The name goes into the last row of the header, whether or not the sheet has that row. -/
def postApplyInfo (sheet : TypedSheet SheetCell) (titles idx : Nat) (name : String) :
    Option (TypedSheet SheetCell) :=
  if titles = 0 then some sheet
  else if titles - 1 < sheet.height then some (sheet.cellText idx (titles - 1) name)
  else none

def insertCol (p : SheetPatcher) (change : OrderChange) : Option (SheetPatcher × Bool) :=
  let toSheet := change.identityToIndexAfter change.subject
  (nameIn change.namesAfter toSheet).bind fun mover =>
    (p.nextCol change toSheet).bind fun idx =>
      let inserted := p.sheet.insertColumn idx
      let col := p.activeCol.insertColumn idx
      -- a column that could not be inserted gets no name
      (postApplyInfo inserted.1 (if inserted.2 = -1 then 0 else p.titles mover) inserted.2.toNat
        mover).bind fun sheet =>
        let p' : SheetPatcher :=
          { p with
            sheet := sheet
            activeCol := col.1.setCell col.2.toNat 0 mover
            statusCol := (p.statusCol.insertColumn idx).1.setCell col.2.toNat 0 "+++" }
        p'.updateCols.map fun p => (p, decide (inserted.2 ≠ -1))

def moveCol (p : SheetPatcher) (change : OrderChange) : Option (SheetPatcher × Bool) :=
  let toSheet := change.identityToIndexAfter change.subject
  (nameIn change.namesAfter toSheet).bind fun mover =>
    (p.matchCol mover).bind fun idx =>
      (p.nextCol change toSheet).bind fun idx2 => p.moveColumn idx idx2

def renameCol (p : SheetPatcher) (change : OrderChange) : Option (SheetPatcher × Bool) :=
  (nameIn change.namesBefore (change.identityToIndex change.subject)).bind fun target =>
    (nameIn change.namesAfter (change.identityToIndexAfter change.subject)).bind fun newName =>
      (p.matchCol target).bind fun idx =>
        (postApplyInfo p.sheet (p.titles newName) idx newName).bind fun sheet =>
          let p' : SheetPatcher :=
            { p with
              sheet := sheet
              activeCol := p.activeCol.setCell idx 0 newName
              statusCol :=
                p.statusCol.setCell idx 0 (p.statusCol.cell idx 0 ++ "(" ++ target ++ ")") }
          p'.updateCols.map fun p => (p, true)

def changeColumn (p : SheetPatcher) (change : OrderChange) : Option (SheetPatcher × Bool) :=
  match change.mode with
  | .delete => p.deleteCol change
  | .insert => p.insertCol change
  | .move => p.moveCol change
  | .rename => p.renameCol change

/-- A script of column changes, in order. -/
def changeColumns : List OrderChange → SheetPatcher → Option SheetPatcher
  | [], p => some p
  | change :: changes, p => (p.changeColumn change).bind fun r => changeColumns changes r.1

/-! ## Names -/

/-- `declareNames` when called for the first time: names that differ become synonyms. -/
def declareNames (p : SheetPatcher) (names : List String) : Option SheetPatcher :=
  let p := { p with declaredNames := true }
  if names.length ≠ p.sheet.width then some p
  else
    let p := (List.range names.length).foldl (fun p i =>
      if names.getD i "" ≠ p.activeCol.cell i 0 then
        { p with
          syn2name := p.syn2name.set (names.getD i "") (p.activeCol.cell i 0)
          name2syn := p.name2syn.set (p.activeCol.cell i 0) (names.getD i "") }
      else p) p
    p.updateCols

/-- `declareNames` when names were declared before: columns are moved to where the names are. -/
def redeclareNames (p : SheetPatcher) (names : List String) : Option SheetPatcher :=
  if names.length ≠ p.sheet.width then some p
  else
    ((List.range names.length).foldlM (fun (p : SheetPatcher) i =>
      let name := names.getD i ""
      let found := p.activeCol.cell i 0
      if name = found ∨ name.toList.head? = some '[' then some p
      else
        (p.matchCol name).bind fun idx =>
          (p.matchCol found).bind fun idx1 => (p.moveColumn idx idx1).map fun r => r.1) p).bind
            updateCols

def changeName (p : SheetPatcher) (change : NameChange) : Option SheetPatcher :=
  if p.declaredNames then p.redeclareNames change.names else p.declareNames change.names

/-! ## Rows -/

/-- `checkHeader` of a cursor that was just put on the first row; the names are read there without a
look whether there is one. -/
def checkHeader (p : SheetPatcher) : Option SheetPatcher :=
  if p.checkedHeader then some p
  else
    let p := { p with checkedHeader := true }
    if p.assumeHeader = false then some p
    else if p.activeCol.width = p.sheet.width ∧ 0 < p.sheet.width ∧ p.sheet.height = 0 then none
    else
      let same := decide (p.activeCol.width = p.sheet.width) &&
        (List.range p.sheet.width).all fun c =>
        decide ((p.sheet.cell c 0).text = p.activeCol.cell c 0)
      if (same || decide (p.sheet.width = 0)) && !p.external then some { p with rowCursor := 1 }
        else some p

/-- The entries of a map by column: `idx` gets the cell of the last name that leads to it. -/
def byCol (p : SheetPatcher) (m : AssocMap String SheetCell) : AssocMap Nat (String × SheetCell) :=
  m.foldl (fun acc e => match p.name2col.get? e.1 with
    | some idx => acc.set idx e
    | none => acc) []

/-- The row agrees with the conditions. -/
def rowMatches (p : SheetPatcher) (cond : AssocMap Nat (String × SheetCell)) (r : Nat) : Bool :=
  decide (p.activeRow.cell 0 r ≠ "---") && (List.range p.sheet.width).all fun c =>
    match cond.get? c with
    | some e => decide (p.sheet.cell c r = e.2)
    | none => true

/-- `matchRow`: the first row that agrees; `-2` for the header line, `-1` for none. -/
def matchRow (p : SheetPatcher) (cond : AssocMap Nat (String × SheetCell)) : Int :=
  if p.schema && cond.all fun e => decide (e.2.2.text = e.2.1) then -2
  else
    match (List.range p.sheet.height).find? (p.rowMatches cond) with
    | some r => r
    | none => -1

/-- `r++`, with `-1` for the end of the sheet. -/
def after (p : SheetPatcher) (r : Int) : Int := if r + 1 ≥ p.sheet.height then -1 else r + 1

/-- The assignments of a change to the cells of row `r`, as `markChanges` makes them. -/
def assign (sheet : TypedSheet SheetCell) (val : AssocMap Nat (String × SheetCell)) (r : Nat) :
    TypedSheet SheetCell :=
  val.foldl (fun sheet e => sheet.setCell e.1 r e.2.2) sheet

def insertChange (p : SheetPatcher) (val : AssocMap Nat (String × SheetCell)) :
    Option (SheetPatcher × Bool) :=
  let inserted := p.sheet.insertRow p.rowCursor
  if inserted.2 = -1 then none
  else
    let p' : SheetPatcher :=
      { p with
        sheet := assign inserted.1 val inserted.2.toNat
        activeRow := (p.activeRow.insertRow p.rowCursor).1.setCell 0 inserted.2.toNat "+++" }
    some ({ p' with rowCursor := p'.after inserted.2 }, false)

def deleteChange (p : SheetPatcher) (r : Int) : SheetPatcher × Bool :=
  if r < 0 then (p, false)
  else
    let p := { p with sheet := (p.sheet.deleteRow r).1, activeRow := (p.activeRow.deleteRow r).1 }
    ({ p with rowCursor := if r ≥ p.sheet.height then -1 else r }, true)

/-- A context row without conditions leads to the top. -/
def contextChange (p : SheetPatcher) (blank : Bool) (r : Int) : Option (SheetPatcher × Bool) :=
  if blank then { p with rowCursor := 0 }.checkHeader.map fun p => (p, true)
  else if r = -2 then some ({ p with rowCursor := if p.sheet.height = 0 then -1 else 0 }, true)
  else if r < 0 then some (p, false)
  else some ({ p with rowCursor := p.after r }, true)

/-- The result of `moveRow` hides the one that is returned, which stays `false`. -/
def moveChange (p : SheetPatcher) (val : AssocMap Nat (String × SheetCell)) (r : Int) :
    Option (SheetPatcher × Bool) :=
  if r < 0 then some (p, false)
  else
    let moved := p.sheet.moveRow r p.rowCursor
    if moved.2 = -1 then none
    else
      let p' : SheetPatcher :=
        { p with
          sheet := assign moved.1 val moved.2.toNat
          activeRow := (p.activeRow.moveRow r p.rowCursor).1 }
      some ({ p' with rowCursor := p'.after moved.2 }, false)

def updateChange (p : SheetPatcher) (val : AssocMap Nat (String × SheetCell)) (r : Int) :
    SheetPatcher × Bool :=
  if r < 0 then ({ p with rowCursor := -1 }, false)
  else
    let p := { p with sheet := assign p.sheet val r.toNat }
    ({ p with rowCursor := p.after r }, true)

def changeRow (p : SheetPatcher) (change : RowChange) : Option (SheetPatcher × Bool) :=
  (if p.declaredNames then some p else p.declareNames change.allNames).bind fun p =>
    -- `handleConflicts` refuses outside a merge
    if change.conflicted then some (p, false)
    else
      let p :=
        if p.activeRow.height ≠ p.sheet.height ∨ p.activeRow.width ≠ 1 then
          { p with activeRow := p.activeRow.resize 1 p.sheet.height }
        else p
      let p := if change.sequential then p else { p with rowCursor := -1 }
      let cond := p.byCol change.cond
      let val := p.byCol change.val
      match change.mode with
      | .insert => p.insertChange val
      | .delete => some (p.deleteChange (p.matchRow cond))
      | .context => p.contextChange cond.isEmpty (p.matchRow cond)
      | .move => p.moveChange val (p.matchRow cond)
      | .update => some (p.updateChange val (p.matchRow cond))
      | .none => some (p, false)

def applyEvent (p : SheetPatcher) : PatchEvent → Option SheetPatcher
  | .changeName change => p.changeName change
  | .changeColumn change => (p.changeColumn change).map fun r => r.1
  | .changeRow change => (p.changeRow change).map fun r => r.1
  | .mergeDone => some p

/-- A script of row changes, in order. -/
def changeRows : List RowChange → SheetPatcher → Option SheetPatcher
  | [], p => some p
  | change :: changes, p => (p.changeRow change).bind fun r => changeRows changes r.1

end SheetPatcher

end Coopy
