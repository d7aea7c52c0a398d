import Coopy.SheetPatcher
import Mathlib.Data.List.Basic

/-!
# `SheetPatcher` with pools, a count and a chained patcher

`SheetPatcher::changeRow` in full, in apply mode: beside the sheet it keeps the pools that translate
the values of an inserted row, the rows put off because a pool lacks a value, the number of changes
made, and the changes passed on to a chained patcher.  A change is counted and passed on if the
function is going to return `true`.
-/

namespace Coopy

open Lib

namespace SheetCell

/-- A NULL is put in braces. -/
def toString (c : SheetCell) : String := if c.escaped then "\x7b" ++ c.text ++ "\x7d" else c.text

/-- The number that the digits at the head of a text make. -/
def leadingNat (n : Nat) : List Char → Nat
  | [] => n
  | c :: cs => if '0' ≤ c ∧ c ≤ '9' then leadingNat (10 * n + (c.toNat - '0'.toNat)) cs else n

/-- `atoi`. -/
def atoi (text : String) : Int :=
  match text.toList.dropWhile fun c => c ∈ [' ', '\t', '\n', '\x0b', '\x0c', '\r'] with
  | '-' :: cs => -leadingNat 0 cs
  | '+' :: cs => leadingNat 0 cs
  | cs => leadingNat 0 cs

def asInt (c : SheetCell) : Int := if c.escaped then 0 else atoi c.text

def makeInt (x : Int) : SheetCell := ⟨ToString.toString x, false⟩

end SheetCell

/-- A value of a pool: what it stands for here, and whether that is known to be there. -/
structure PoolRecord where
  cell : SheetCell
  linked : Bool
deriving DecidableEq, Repr

/-- The pool a column refers to, or invents values for. -/
structure PoolColumnLink where
  invent : Bool
  poolName : String
deriving DecidableEq, Repr

structure ChainedPatcher where
  patcher : SheetPatcher
  -- empty unless `flags.foreign_pool` is set
  name2pool : AssocMap String PoolColumnLink := []
  pools : AssocMap String (AssocMap String PoolRecord) := []
  -- `flags.pool` is there and has been scanned
  scanned : Bool := false
  changeCount : Nat := 0
  deferredRows : List RowChange := []
  -- the row changes passed on
  chained : List RowChange := []

namespace SheetPatcher

/-- The patcher once it knows the names: the row marks have the sheet's height, the cursor is
set. -/
def settle (p : SheetPatcher) (change : RowChange) : SheetPatcher :=
  let p :=
    if p.activeRow.height ≠ p.sheet.height ∨ p.activeRow.width ≠ 1 then
      { p with activeRow := p.activeRow.resize 1 p.sheet.height }
    else p
  if change.sequential then p else { p with rowCursor := -1 }

/-- The names, when none were declared. -/
def named (p : SheetPatcher) (change : RowChange) : Option SheetPatcher :=
  if p.declaredNames then some p else p.declareNames change.allNames

end SheetPatcher

namespace ChainedPatcher

/-! ## A row with values from pools -/

def lookup (q : ChainedPatcher) (link : PoolColumnLink) (val : SheetCell) : Option PoolRecord :=
  ((q.pools.get? link.poolName).getD []).get? val.toString

def put (q : ChainedPatcher) (link : PoolColumnLink) (src dest : SheetCell) : ChainedPatcher :=
  let items := (q.pools.get? link.poolName).getD []
  { q with pools := q.pools.set link.poolName (items.set src.toString ⟨dest, true⟩) }

/-- What a value becomes in a column that refers to a pool; `none` if the row has to wait. -/
def translate (q : ChainedPatcher) (link : PoolColumnLink) (val : SheetCell) : Option SheetCell :=
  match q.lookup link val with
  | some v => if v.linked then some v.cell else none
  | none => if q.scanned then some val else none

/-- `invent`: one more than the greatest number in the column. -/
def invented (sheet : TypedSheet SheetCell) (x : Nat) : SheetCell :=
  SheetCell.makeInt ((List.range sheet.height).foldl (fun top i =>
    let v := (sheet.cell x i).asInt
    if v > top then v else top) (-1) + 1)

structure Invention where
  origin : SheetCell
  offset : Nat
  link : PoolColumnLink
deriving DecidableEq, Repr

/-- How far the cells of a new row get. -/
inductive Filling
  | done (sheet : TypedSheet SheetCell) (inventions : List Invention)
  | deferred (sheet : TypedSheet SheetCell)
  -- a write outside the sheet
  | outside
deriving DecidableEq, Repr

/-- The cells of a new row `y`, column by column. -/
def fillRow (q : ChainedPatcher) (val : AssocMap Nat (String × SheetCell)) (y : Int) :
    List Nat → TypedSheet SheetCell → List Invention → Filling
  | [], sheet, inventions => .done sheet inventions
  | c :: cs, sheet, inventions =>
    match val.get? c with
    | none => fillRow q val y cs sheet inventions
    | some e =>
      match q.name2pool.get? (q.patcher.activeCol.cell c 0) with
      | none =>
        if y < 0 then .outside else fillRow q val y cs (sheet.setCell c y.toNat e.2) inventions
      | some link =>
        if link.invent then
          if y < 0 then .outside
          else fillRow q val y cs (sheet.setCell c y.toNat (invented sheet c))
            (inventions ++ [⟨e.2, c, link⟩])
        else
          match q.translate link e.2 with
          | none => .deferred sheet
          | some v =>
            if y < 0 then .outside else fillRow q val y cs (sheet.setCell c y.toNat v) inventions

/-- An insertion.  Nothing sets the result, so it is never reported. -/
def insertRow (q : ChainedPatcher) (change : RowChange) : Option (ChainedPatcher × Bool) :=
  let p := q.patcher
  let val := p.byCol change.val
  let inserted := p.sheet.insertRow p.rowCursor
  match q.fillRow val inserted.2 (List.range p.sheet.width) inserted.1 [] with
  | .outside => none
  | .deferred sheet =>
    some ({ q with
      patcher := { p with sheet := (sheet.deleteRow inserted.2).1 }
      deferredRows := q.deferredRows ++ [change] }, false)
  | .done sheet inventions =>
    if inserted.2 < 0 then none
    else
      let q :=
        inventions.foldl (fun q i => q.put i.link i.origin (sheet.cell i.offset inserted.2.toNat)) q
      let p' : SheetPatcher :=
        { p with
          sheet := sheet
          activeRow := (p.activeRow.insertRow p.rowCursor).1.setCell 0 inserted.2.toNat "+++" }
      some ({ q with patcher := { p' with rowCursor := p'.after inserted.2 } }, false)

/-! ## A change, and whether it is reported -/

/-- The end of `changeRow`. -/
def report (q : ChainedPatcher) (change : RowChange) (r : SheetPatcher × Bool) :
    ChainedPatcher × Bool :=
  if r.2 then
    ({ q with patcher := r.1, changeCount := q.changeCount + 1, chained := q.chained ++ [change] },
      true)
  else ({ q with patcher := r.1 }, false)

def changeRow (q : ChainedPatcher) (change : RowChange) : Option (ChainedPatcher × Bool) :=
  (q.patcher.named change).bind fun p =>
    if change.conflicted = false ∧ change.mode = .insert then
      { q with patcher := p.settle change }.insertRow change
    else (p.changeRow change).map (q.report change)

end ChainedPatcher

end Coopy
