import Coopy.Lib.Retry
import Coopy.MergeOutputFilter
import Coopy.PatcherReport
import Coopy.RowReplay

/-!
# Insertions that wait for a pool

A patcher at a book with several sheets.  An insertion that refers to a value which a pool lacks is
undone and kept with the name of its sheet; `mergeDone` goes through those that were kept until none
is left, or as many as before. Rows that refer to each other by way of pools can come in any order:

    each value that is referred to is linked,
      or an insertion invents it; no insertion waits for itself
      → mergeDone gets them all done,
        each once, with the cells that the pools have for its references

                                                                                   (deferredInserts)
-/

namespace Coopy

open Lib

/-- What the schemas of the sheets of a book say: the names of the columns, and the pool of a
column.  The insertions into a sheet call its columns by names of their own. -/
structure BookSchema where
  names : String → List String
  link : String → String → Option PoolColumnLink
  called : String → List String := names

/-- The patcher at a sheet of a book; `sheets` has what is in the others. -/
structure BookPatcher where
  q : ChainedPatcher
  sheetName : String := ""
  sheets : AssocMap String (TypedSheet SheetCell)
  deferred : List RowUnit := []

namespace BookSchema

variable (bk : BookSchema)

/-- `updatePool`. -/
def pools (name : String) : AssocMap String PoolColumnLink :=
  (bk.names name).filterMap fun col => (bk.link name col).map fun link => (col, link)

/-- The patcher that is set to a sheet: `setSheet` leaves the marks of the rows and the synonyms as
they are. -/
def attached (name : String) (sheet : TypedSheet SheetCell) (p : SheetPatcher) :
    Option SheetPatcher :=
  SheetPatcher.updateCols
    { p with
      sheet
      activeCol := ⟨[bk.names name], (bk.names name).length, ""⟩
      statusCol := ⟨[List.replicate (bk.names name).length ""], (bk.names name).length, ""⟩
      rowCursor := -1
      declaredNames := false
      checkedHeader := false }

end BookSchema

namespace BookPatcher

variable (bk : BookSchema)

/-- `setSheet`; `none` is a sheet that the book does not have, or whose schema does not fit it. -/
def setSheet (b : BookPatcher) (name : String) : Option BookPatcher :=
  let sheets := b.sheets.set b.sheetName b.q.patcher.sheet
  (sheets.get? name).bind fun sheet =>
    (bk.attached name sheet b.q.patcher).map fun p =>
      { b with
        q := { b.q with
          patcher := p
          name2pool := if name = "" then b.q.name2pool else bk.pools name }
        sheetName := name
        sheets }

/-- A change at the sheet; one that is put off is kept with the name of the sheet. -/
def changeRow (b : BookPatcher) (change : RowChange) : Option BookPatcher :=
  (b.q.changeRow change).map fun r =>
    { b with
      q := { r.1 with deferredRows := [] }
      deferred := b.deferred ++ r.1.deferredRows.map fun change => ⟨b.sheetName, change⟩ }

/-- A change at the sheet that it is about. -/
def visit (b : BookPatcher) (u : RowUnit) : Option BookPatcher :=
  (if u.sheetName ≠ b.sheetName then b.setSheet bk u.sheetName else some b).bind fun b =>
  b.changeRow u.change

/-- One round of the loop of `mergeDone`, on a copy of the rows that were kept. -/
def retryRows (units : List RowUnit) (b : BookPatcher) : Option (BookPatcher × List RowUnit) :=
  (units.foldlM (visit bk) { b with deferred := [] }).map fun b => (b, b.deferred)

/-- `mergeDone`; a loop that is stuck calls `exit`. -/
def mergeDone (b : BookPatcher) : Outcome BookPatcher RowUnit :=
  retry (retryRows bk) (b.deferred.length + 2) none b.deferred b

/-- A patcher at the first sheet of a book. -/
def opened (sheets : AssocMap String (TypedSheet SheetCell))
    (pools : AssocMap String (AssocMap String PoolRecord))
    (scanned : Bool) (name : String) : Option BookPatcher :=
  setSheet bk
    { q := {
        patcher := {
          sheet := ⟨[], 0, SheetCell.null⟩
          activeCol := ⟨[], 0, ""⟩
          statusCol := ⟨[], 0, ""⟩ }
        pools
        scanned }
      sheets } name

/-- Changes one after the other, and `mergeDone` after the last. -/
def merge (sheets : AssocMap String (TypedSheet SheetCell))
    (pools : AssocMap String (AssocMap String PoolRecord))
    (scanned : Bool) (name : String) (units : List RowUnit) :
    Option (Outcome BookPatcher RowUnit) :=
  (opened bk sheets pools scanned name).bind fun b => (units.foldlM (visit bk) b).map (mergeDone bk)

end BookPatcher

/-! ## Rows by their references -/

/-- What is in the sheets and the pools. -/
structure Store where
  sheets : String → Option (TypedSheet SheetCell)
  pools : AssocMap String (AssocMap String PoolRecord)
  scanned : Bool

def BookPatcher.store (b : BookPatcher) : Store where
  sheets := fun name => if name = b.sheetName then some b.q.patcher.sheet else b.sheets.get? name
  pools := b.q.pools
  scanned := b.q.scanned

namespace BookSchema

variable (bk : BookSchema)

/-- A patcher that knows the columns of a sheet by their names. -/
def attachedReader (name : String) : SheetPatcher :=
  let p : SheetPatcher :=
    { sheet := ⟨[], (bk.names name).length, SheetCell.null⟩
      activeCol := ⟨[bk.names name], (bk.names name).length, ""⟩
      statusCol := ⟨[List.replicate (bk.names name).length ""], (bk.names name).length, ""⟩ }
  { p with name2col := (List.range (bk.names name).length).foldl p.enterName [] }

/-- One that knows the names that the insertions call them by, too. -/
def reader (name : String) : SheetPatcher :=
  ((bk.attachedReader name).declareNames (bk.called name)).getD (bk.attachedReader name)

/-- The name that the insertions into a sheet call a column by, where it is another one. -/
def synonym (name col : String) : Option String := (bk.reader name).name2syn.get? col

/-- The synonyms of a sheet are kept at the next one: none of these sheets has a column that is
called otherwise at another of them. -/
def Unmixed (visited : String → Prop) : Prop :=
  ∀ s t, visited s → visited t → ∀ col ∈ bk.names s, col ∈ bk.names t →
  bk.synonym s col = bk.synonym t col

/-- The values of a new row, column by column. -/
def cells (u : RowUnit) : AssocMap Nat (String × SheetCell) :=
  (bk.reader u.sheetName).byCol u.change.val

/-- The pool of a column. -/
def linkAt (name : String) (c : Nat) : Option PoolColumnLink :=
  (bk.pools name).get? ((bk.names name).getD c "")

/-- The values of a row in columns that have a pool: where it is invented, or referred to. -/
def uses (invent : Bool) (u : RowUnit) : List (String × String) :=
  (List.range (bk.names u.sheetName).length).filterMap fun c =>
    ((bk.cells u).get? c).bind fun e =>
      ((bk.linkAt u.sheetName c).filter fun link => link.invent == invent).map fun link =>
        (link.poolName, e.2.toString)

end BookSchema

namespace Store

variable (bk : BookSchema) (st : Store)

def record (pool key : String) : Option PoolRecord := ((st.pools.get? pool).getD []).get? key

/-- The cell of a new row: what the pool has for a reference, and a new number for what is
invented. -/
def newCell (u : RowUnit) (sheet : TypedSheet SheetCell) (c : Nat) : SheetCell :=
  match (bk.cells u).get? c with
  | none => sheet.zero
  | some e =>
    match bk.linkAt u.sheetName c with
    | none => e.2
    | some link =>
      if link.invent then ChainedPatcher.invented (sheet.insertRow (-1)).1 c
      else
        match st.record link.poolName e.2.toString with
        | some record => record.cell
        | none => e.2

def newRow (u : RowUnit) (sheet : TypedSheet SheetCell) : List SheetCell :=
  (List.range sheet.w).map (st.newCell bk u sheet)

/-- The values of a row that are put into pools. -/
def inventions (u : RowUnit) : List ChainedPatcher.Invention :=
  (List.range (bk.names u.sheetName).length).filterMap fun c =>
    ((bk.cells u).get? c).bind fun e =>
      ((bk.linkAt u.sheetName c).filter fun link => link.invent).map fun link =>
      ⟨e.2, c, link⟩

def put (pools : AssocMap String (AssocMap String PoolRecord)) (link : PoolColumnLink)
    (src dest : SheetCell) : AssocMap String (AssocMap String PoolRecord) :=
  pools.set link.poolName (((pools.get? link.poolName).getD []).set src.toString ⟨dest, true⟩)

/-- The row is put at the end of its sheet, and what it invents into the pools. -/
def insert (u : RowUnit) : Store :=
  match st.sheets u.sheetName with
  | none => st
  | some sheet =>
    { st with
      sheets := fun name =>
        if name = u.sheetName then some { sheet with arr := sheet.arr ++ [st.newRow bk u sheet] }
          else st.sheets name
      pools :=
        (inventions bk u).foldl
          (fun pools i => put pools i.link i.origin (st.newCell bk u sheet i.offset))
        st.pools }

/-- Each value that is referred to has a counterpart; in a pool that was scanned, a value that it
does not have is one. -/
def ready (u : RowUnit) : Bool :=
  (List.range (bk.names u.sheetName).length).all fun c =>
    match (bk.cells u).get? c, bk.linkAt u.sheetName c with
    | some e, some link =>
      link.invent ||
        match st.record link.poolName e.2.toString with
        | some record => record.linked
        | none => st.scanned
    | _, _ => true

/-- A value that is known to be there. -/
def Linked (x : String × String) : Prop := ∃ record, st.record x.1 x.2 = some record ∧
    record.linked = true

end Store

/-- Insertions as work that waits for other insertions. -/
def BookSchema.supply (bk : BookSchema) : Supply Store RowUnit (String × String) where
  ready := Store.ready bk
  apply := Store.insert bk
  has := Store.Linked
  needs := fun u x => x ∈ bk.uses false u
  provides := fun u x => x ∈ bk.uses true u

/-- An insertion of a row into a sheet, with the names that its columns are called by; where these
are their own, it may come with any other number of names, which leave the sheet alone. -/
structure BookSchema.Insertion (bk : BookSchema) (u : RowUnit) : Prop where
  mode : u.change.mode = .insert
  clear : u.change.conflicted = false
  named : u.sheetName ≠ ""
  names : u.change.allNames = bk.called u.sheetName ∨
    bk.called u.sheetName = bk.names u.sheetName ∧
    u.change.allNames.length ≠ (bk.names u.sheetName).length

/-- A book, pools, and insertions into sheets of the book. -/
structure Batch where
  book : BookSchema
  sheets : AssocMap String (TypedSheet SheetCell)
  wide : ∀ name sheet, sheets.get? name = some sheet → sheet.w = (book.names name).length
  pools : AssocMap String (AssocMap String PoolRecord)
  scanned : Bool
  first : String
  first_in : first ≠ "" ∧ (sheets.get? first).isSome
  units : List RowUnit
  insertions : ∀ u ∈ units, book.Insertion u
  units_in : ∀ u ∈ units, (sheets.get? u.sheetName).isSome
  unmixed : book.Unmixed fun name => ∃ u ∈ units, u.sheetName = name

namespace Batch

/-- What there is before any insertion; a patcher starts at a sheet without a name. -/
def store (t : Batch) : Store where
  sheets := fun name => if name = "" then some ⟨[], 0, SheetCell.null⟩ else t.sheets.get? name
  pools := t.pools
  scanned := t.scanned

/-- The references of the insertions lead to values that are linked, or invented by an insertion,
and not around in a circle; a scan of the pools has found the values that are invented. -/
structure Orderly (t : Batch) : Prop where
  supplied : t.book.supply.Supplied t.store t.units
  acyclic : t.book.supply.Acyclic t.units
  entered :
    t.scanned = true → ∀ u ∈ t.units, ∀ x ∈ t.book.uses true u, ∃ record, t.store.record x.1 x.2 =
    some record

end Batch

/-! ## The cells of a new row -/

theorem TypedSheet.cell_setCell_ne {T : Type} (s : TypedSheet T) {x x' : Nat} (hx : x' ≠ x)
    (y y' : Nat) (c : T) : (s.setCell x y c).cell x' y' = s.cell x' y' := by
  unfold TypedSheet.setCell TypedSheet.cell
  simp only [List.getD_eq_getElem?_getD, List.getElem?_modify, Option.map_eq_map]
  cases s.arr[y']? with
  | none => rfl
  | some row =>
    by_cases hy : y = y'
    · simp only [if_pos hy, Option.map_some, Option.getD_some]
      rw [List.getElem?_set_ne (Ne.symm hx)]
    · simp only [if_neg hy, Option.map_some, Option.getD_some]

namespace ChainedPatcher

/-- A number is invented from its own column. -/
theorem invented_setCell (sheet : TypedSheet SheetCell) {c d : Nat} (h : d ≠ c) (y : Nat)
    (x : SheetCell) : invented (sheet.setCell c y x) d = invented sheet d := by
  unfold invented
  have hheight : (sheet.setCell c y x).height = sheet.height := List.length_modify ..
  simp only [hheight, sheet.cell_setCell_ne h]

/-- The cell that a column of a new row gets. -/
def cellFor (q : ChainedPatcher) (val : AssocMap Nat (String × SheetCell))
    (sheet : TypedSheet SheetCell) (c : Nat) : Option SheetCell :=
  (val.get? c).bind fun e =>
    match q.name2pool.get? (q.patcher.activeCol.cell c 0) with
    | none => some e.2
    | some link => if link.invent then some (invented sheet c) else q.translate link e.2

/-- The value of a column that invents. -/
def inventionFor (q : ChainedPatcher) (val : AssocMap Nat (String × SheetCell)) (c : Nat) :
    Option Invention :=
  (val.get? c).bind fun e =>
    ((q.name2pool.get? (q.patcher.activeCol.cell c 0)).filter fun link => link.invent).map
      fun link => ⟨e.2, c, link⟩

/-- The writes into a new row. -/
def fill (q : ChainedPatcher) (val : AssocMap Nat (String × SheetCell))
    (sheet : TypedSheet SheetCell) (cs : List Nat) (row : List SheetCell) : List SheetCell :=
  cs.foldl (fun row c => row.modify c fun x => (q.cellFor val sheet c).getD x) row

theorem fill_setCell (q : ChainedPatcher) (val : AssocMap Nat (String × SheetCell))
    (sheet : TypedSheet SheetCell)
    {c : Nat} (y : Nat) (x : SheetCell) (cs : List Nat) (hc : c ∉ cs) (row : List SheetCell) :
    q.fill val (sheet.setCell c y x) cs row = q.fill val sheet cs row := by
  unfold fill
  induction cs generalizing row with
  | nil => rfl
  | cons d cs ih =>
    rw [List.mem_cons, not_or] at hc
    have hcell : q.cellFor val (sheet.setCell c y x) d = q.cellFor val sheet d := by
      unfold cellFor
      rw [invented_setCell sheet (Ne.symm hc.1)]
    rw [List.foldl_cons, List.foldl_cons, hcell]
    exact ih hc.2 _

/-- A row none of whose values is lacking is filled in. -/
theorem fillRow_done (q : ChainedPatcher) (val : AssocMap Nat (String × SheetCell))
    {y : Int} (hy : 0 ≤ y)
    (cs : List Nat) : ∀ (sheet : TypedSheet SheetCell) (inventions : List Invention), cs.Nodup →
      (∀ c ∈ cs, ¬ q.Lacks val c) → q.fillRow val y cs sheet inventions =
        .done { sheet with arr := sheet.arr.modify y.toNat (q.fill val sheet cs) }
          (inventions ++ cs.filterMap (q.inventionFor val)) := by
  have hneg : ¬ y < 0 := Int.not_lt.2 hy
  induction cs with
  | nil =>
    intro sheet inventions _ _
    have hid : q.fill val sheet [] = id := rfl
    rw [hid, List.modify_id, List.filterMap_nil, List.append_nil]
    rfl
  | cons c cs ih =>
    intro sheet inventions hd hlacks
    obtain ⟨hc, hd⟩ := List.nodup_cons.1 hd
    have hrest : ∀ d ∈ cs, ¬ q.Lacks val d := fun d hd => hlacks d (List.mem_cons_of_mem _ hd)
    have hset : ∀ (x : SheetCell) (inv : List Invention), q.cellFor val sheet c = some x →
        q.fillRow val y cs (sheet.setCell c y.toNat x) inv =
          .done { sheet with arr := sheet.arr.modify y.toNat (q.fill val sheet (c :: cs)) }
            (inv ++ cs.filterMap (q.inventionFor val)) := by
      intro x inv hx
      rw [ih _ inv hd hrest]
      have hrow :
        (sheet.setCell c y.toNat x).arr.modify y.toNat (q.fill val (sheet.setCell c y.toNat x) cs) =
          sheet.arr.modify y.toNat (q.fill val sheet (c :: cs)) := by
        unfold TypedSheet.setCell
        rw [List.modify_modify_eq]
        refine congrArg (sheet.arr.modify y.toNat) (funext fun row => ?_)
        have hwrite : row.set c x = row.modify c fun z => (q.cellFor val sheet c).getD z := by
          rw [hx]
          refine List.ext_getElem? fun i => ?_
          rw [List.getElem?_set, List.getElem?_modify, Option.map_eq_map]
          by_cases hi : c = i
          · subst hi
            by_cases hlt : c < row.length
            · simp [hlt]
            · simp [hlt]
          · simp [hi]
        show q.fill val (sheet.setCell c y.toNat x) cs (row.set c x) =
          q.fill val sheet (c :: cs) row
        rw [q.fill_setCell val sheet y.toNat x cs hc, hwrite]
        rfl
      rw [hrow]
      rfl
    unfold fillRow
    cases he : val.get? c with
    | none =>
      have hnone : q.cellFor val sheet c = none := by
        unfold cellFor
        rw [he]
        rfl
      have hinv : q.inventionFor val c = none := by
        unfold inventionFor
        rw [he]
        rfl
      have hfill : q.fill val sheet (c :: cs) = q.fill val sheet cs := by
        funext row
        unfold fill
        have hid : (row.modify c fun x => (none : Option SheetCell).getD x) = row :=
          List.modify_id ..
        rw [List.foldl_cons, hnone, hid]
      simp only
      rw [ih sheet inventions hd hrest, List.filterMap_cons_none hinv, hfill]
    | some e =>
      simp only
      cases hl : q.name2pool.get? (q.patcher.activeCol.cell c 0) with
      | none =>
        have hcell : q.cellFor val sheet c = some e.2 := by
          unfold cellFor
          rw [he, Option.bind_some, hl]
        have hinv : q.inventionFor val c = none := by
          unfold inventionFor
          rw [he, Option.bind_some, hl]
          rfl
        simp only
        rw [if_neg hneg, hset e.2 inventions hcell, List.filterMap_cons_none hinv]
      | some link =>
        simp only
        by_cases hi : link.invent = true
        · have hcell : q.cellFor val sheet c = some (invented sheet c) := by
            unfold cellFor
            rw [he, Option.bind_some, hl]
            exact if_pos hi
          have hinv : q.inventionFor val c = some ⟨e.2, c, link⟩ := by
            unfold inventionFor
            rw [he, Option.bind_some, hl]
            simp only [Option.filter, hi, if_true, Option.map_some]
          rw [if_pos hi, if_neg hneg, hset _ _ hcell, List.filterMap_cons_some hinv,
            List.append_assoc]
          rfl
        · have hinv : q.inventionFor val c = none := by
            unfold inventionFor
            rw [he, Option.bind_some, hl]
            simp only [Option.filter, hi, Bool.false_eq_true, if_false, Option.map_none]
          rw [if_neg hi]
          cases ht : q.translate link e.2 with
          | none => exact absurd ⟨e, link, he, hl, by simpa using hi, ht⟩ (hlacks c (by simp))
          | some v =>
            have hcell : q.cellFor val sheet c = some v := by
              unfold cellFor
              rw [he, Option.bind_some, hl]
              exact (if_neg hi).trans ht
            simp only
            rw [if_neg hneg, hset v inventions hcell, List.filterMap_cons_none hinv]

/-- A blank row, filled in. -/
theorem fill_range (q : ChainedPatcher) (val : AssocMap Nat (String × SheetCell))
    (sheet : TypedSheet SheetCell)
    (n : Nat) (zero : SheetCell) : q.fill val sheet (List.range n) (List.replicate n zero) =
      (List.range n).map fun c => (q.cellFor val sheet c).getD zero := by
  unfold fill
  rw [foldl_modify]
  refine List.ext_getElem
    (by rw [List.length_mapIdx, List.length_replicate, List.length_map, List.length_range])
    fun i hi hi' => ?_
  have hlt : i < n := by rwa [List.length_map, List.length_range] at hi'
  rw [List.getElem_mapIdx, if_pos hlt, List.getElem_replicate, List.getElem_map, List.getElem_range]

/-! ## A row that is put off -/

theorem named_frame {p p' : SheetPatcher} {change : RowChange} (h : p.named change = some p') :
    p'.sheet = p.sheet ∧ p'.activeRow = p.activeRow ∧ p'.rowCursor = p.rowCursor := by
  unfold SheetPatcher.named at h
  split at h
  · cases h
    exact ⟨rfl, rfl, rfl⟩
  · unfold SheetPatcher.declareNames at h
    simp only at h
    split at h
    · cases h
      exact ⟨rfl, rfl, rfl⟩
    · have hsame := @SheetPatcher.foldl_synonyms
        (fun g => g.sheet = p.sheet ∧ g.activeRow = p.activeRow ∧ g.rowCursor = p.rowCursor)
          (fun _ _ _ h => h)
        change.allNames (List.range change.allNames.length) { p with declaredNames := true }
          ⟨rfl, rfl, rfl⟩
      unfold SheetPatcher.updateCols at h
      split at h
      · cases h
      · cases h
        exact hsame

theorem foldl_put (f : Invention → SheetCell) (inventions : List Invention) : ∀ q : ChainedPatcher,
    inventions.foldl (fun q i => q.put i.link i.origin (f i)) q =
      { q with
        pools := inventions.foldl (fun pools i => Store.put pools i.link i.origin (f i)) q.pools } := by
  induction inventions with
  | nil => exact fun q => rfl
  | cons i inventions ih =>
    intro q
    rw [List.foldl_cons, ih]
    rfl

/-- An insertion that is put off, as the first thing every change does leaves the patcher: the marks
of the rows have the height of the sheet, and the cursor is reset if the change is not part of a
sequence. -/
structure PutBack (q q' : ChainedPatcher) (change : RowChange) : Prop where
  sheet : q'.patcher.sheet = q.patcher.sheet
  activeRow : q'.patcher.activeRow =
    if q.patcher.activeRow.height = q.patcher.sheet.height ∧
    q.patcher.activeRow.width = 1 then q.patcher.activeRow
    else q.patcher.activeRow.resize 1 q.patcher.sheet.height
  rowCursor : q'.patcher.rowCursor = if change.sequential then q.patcher.rowCursor else -1
  pools : q'.pools = q.pools
  deferredRows : q'.deferredRows = q.deferredRows ++ [change]

theorem settle_frame (p : SheetPatcher) (change : RowChange) :
    (p.settle change).activeRow =
      (if p.activeRow.height = p.sheet.height ∧ p.activeRow.width = 1 then p.activeRow
        else p.activeRow.resize 1 p.sheet.height) ∧
      (p.settle change).rowCursor = if change.sequential then p.rowCursor else -1 := by
  have hunfit : (p.activeRow.height ≠ p.sheet.height ∨ p.activeRow.width ≠ 1) ↔
      ¬ (p.activeRow.height = p.sheet.height ∧ p.activeRow.width = 1) := not_and_or.symm
  unfold SheetPatcher.settle
  by_cases hfits : p.activeRow.height = p.sheet.height ∧ p.activeRow.width = 1
  · have hsame := not_not.2 hfits
    rw [← hunfit] at hsame
    simp only [if_neg hsame, if_pos hfits]
    cases change.sequential <;> exact ⟨rfl, rfl⟩
  · have hother := hunfit.2 hfits
    simp only [if_pos hother, if_neg hfits]
    cases change.sequential <;> exact ⟨rfl, rfl⟩

/-- A change is not kept, or it is put off and leaves no trace. -/
theorem kept_or_putBack {q q' : ChainedPatcher} {change : RowChange} {result : Bool}
    (h : q.changeRow change = some (q', result)) : q'.deferredRows = q.deferredRows ∨
    PutBack q q' change := by
  unfold changeRow at h
  obtain ⟨p, hp, h⟩ := Option.bind_eq_some_iff.1 h
  obtain ⟨hsheet, hrow, hcursor⟩ := named_frame hp
  obtain ⟨hrow', hcursor'⟩ := settle_frame p change
  split at h
  · unfold insertRow at h
    simp only at h
    split at h
    · cases h
    · next sheet hfill =>
      cases h
      refine Or.inr ⟨?_, ?_, ?_, rfl, rfl⟩
      · exact (waits_sheet hfill).trans ((p.sheet_settle change).trans hsheet)
      · rw [← hsheet, ← hrow]
        exact hrow'
      · rw [← hcursor]
        exact hcursor'
    · split at h
      · cases h
      · cases h
        rw [foldl_put]
        exact Or.inl rfl
  · obtain ⟨r, -, h⟩ := Option.map_eq_some_iff.1 h
    refine Or.inl ?_
    unfold report at h
    split at h <;> cases h <;> rfl

end ChainedPatcher

namespace SheetPatcher

theorem byCol_congr {p p' : SheetPatcher} (h : p.name2col = p'.name2col)
    (m : AssocMap String SheetCell) : p.byCol m = p'.byCol m := by
  unfold byCol
  rw [h]

theorem enterName_congr {p p' : SheetPatcher} (hcol : p.activeCol = p'.activeCol)
    (hsyn : p.name2syn = p'.name2syn) : p.enterName = p'.enterName := by
  funext m i
  unfold enterName
  rw [hcol, hsyn]

/-- The columns are known alike where their own names have the same synonyms. -/
theorem foldl_enterName_congr {p p' : SheetPatcher} (hcol : p.activeCol = p'.activeCol)
    (is : List Nat) (hsyn : ∀ i ∈ is, p.name2syn.get? (p'.activeCol.cell i 0) =
      p'.name2syn.get? (p'.activeCol.cell i 0)) :
    is.foldl p.enterName [] = is.foldl p'.enterName [] :=
  List.foldl_ext _ _ _ fun m i hi => by
    unfold enterName
    simp only [hcol, hsyn i hi]

/-- One name of `declareNames`: where it differs from the column's own, it becomes a synonym. -/
def enterSynonym (cols : Nat → String) (names : List String) (m : AssocMap String String)
    (i : Nat) : AssocMap String String :=
  if names.getD i "" ≠ cols i then m.set (cols i) (names.getD i "") else m

/-- What is entered comes before what was there. -/
theorem get?_foldl_enterSynonym (cols : Nat → String) (names is : List _)
    (m : AssocMap String String) (col : String) : (is.foldl (enterSynonym cols names) m).get? col =
      ((is.foldl (enterSynonym cols names) []).get? col).or (m.get? col) := by
  induction is using List.reverseRecOn with
  | nil => rfl
  | append_singleton is i ih =>
    rw [List.foldl_concat, List.foldl_concat, enterSynonym, enterSynonym]
    split
    · rw [AssocMap.get?_set, AssocMap.get?_set]
      split
      · rfl
      · exact ih
    · exact ih

/-- A name that no column has gets no synonym. -/
theorem get?_foldl_enterSynonym_eq_none {cols : Nat → String} {names : List String}
    {is : List Nat} {col : String} (h : ∀ i ∈ is, cols i = col → names.getD i "" = cols i) :
    (is.foldl (enterSynonym cols names) []).get? col = none := by
  induction is using List.reverseRecOn with
  | nil => rfl
  | append_singleton is i ih =>
    have hrest := ih fun j hj => h j (List.mem_append_left _ hj)
    rw [List.foldl_concat, enterSynonym]
    split
    · next hne =>
      rw [AssocMap.get?_set, if_neg fun hcol => hne (h i (by simp) hcol.symm), hrest]
    · exact hrest

/-- The first names that come to a sheet, as many as it has columns. -/
theorem declareNames_eq {p : SheetPatcher} {names : List String}
    (hw : p.activeCol.width = p.sheet.width) (hlen : names.length = p.sheet.width) : ∃ q syn2name,
      p.declareNames names =
      some { q with name2col := (List.range p.activeCol.width).foldl q.enterName [] } ∧
      q = { p with
        declaredNames := true
        syn2name
        name2syn :=
          (List.range names.length).foldl
            (enterSynonym (p.activeCol.cell · 0) names) p.name2syn } := by
  have hfold : ∀ (is : List Nat) (p : SheetPatcher), ∃ syn2name,
      is.foldl (fun (p : SheetPatcher) i =>
        if names.getD i "" ≠ p.activeCol.cell i 0 then
          { p with
            syn2name := p.syn2name.set (names.getD i "") (p.activeCol.cell i 0)
            name2syn := p.name2syn.set (p.activeCol.cell i 0) (names.getD i "") }
        else p) p =
      { p with
        syn2name
        name2syn := is.foldl (enterSynonym (p.activeCol.cell · 0) names) p.name2syn } := by
    intro is
    induction is with
    | nil => exact fun p => ⟨p.syn2name, rfl⟩
    | cons i is ih =>
      intro p
      rw [List.foldl_cons, List.foldl_cons, enterSynonym]
      split
      · exact ih _
      · exact ih _
  obtain ⟨syn2name, hnames⟩ := hfold (List.range names.length) { p with declaredNames := true }
  refine ⟨_, syn2name, ?_, rfl⟩
  unfold declareNames
  simp only
  rw [if_neg (not_not.2 hlen), hnames]
  unfold updateCols
  exact if_neg (not_not.2 hw)

theorem name2col_settle (p : SheetPatcher) (change : RowChange) :
    (p.settle change).name2col = p.name2col := by
  unfold settle
  simp only
  split <;> split <;> rfl

theorem name2syn_settle (p : SheetPatcher) (change : RowChange) :
    (p.settle change).name2syn = p.name2syn := by
  unfold settle
  simp only
  split <;> split <;> rfl

end SheetPatcher

theorem TypedSheet.insertRow_end {T : Type} (s : TypedSheet T) :
    s.insertRow (-1) = ({ s with arr := s.arr ++ [List.replicate s.w s.zero] },
      (s.height : Int)) := by
  unfold TypedSheet.insertRow
  rw [if_neg (by unfold TypedSheet.height; omega), if_pos (by decide)]

namespace BookPatcher

variable {bk : BookSchema} {visited : String → Prop} {b : BookPatcher}

/-! ## At a sheet -/

/-- The sheets of the book fit their schemas, nothing is under way, and the synonyms that are known
are those of the sheets themselves. -/
structure Idle (bk : BookSchema) (visited : String → Prop) (b : BookPatcher) : Prop where
  synonyms : ∀ name, visited name → ∀ col ∈ bk.names name,
    b.q.patcher.name2syn.get? col = none ∨ b.q.patcher.name2syn.get? col = bk.synonym name col
  drained : b.q.deferredRows = []
  wide : ∀ name sheet, name ≠ "" → b.store.sheets name = some sheet →
    sheet.w = (bk.names name).length

/-- The patcher is at the end of a sheet whose columns it knows. -/
structure Steady (bk : BookSchema) (visited : String → Prop) (b : BookPatcher) :
    Prop extends Idle bk visited b where
  named : b.sheetName ≠ ""
  cols : b.q.patcher.activeCol = ⟨[bk.names b.sheetName], (bk.names b.sheetName).length, ""⟩
  name2col : b.q.patcher.name2col =
    (List.range (bk.names b.sheetName).length).foldl b.q.patcher.enterName []
  declared : b.q.patcher.declaredNames = true → ∀ col ∈ bk.names b.sheetName,
    b.q.patcher.name2syn.get? col = bk.synonym b.sheetName col
  cursor : b.q.patcher.rowCursor = -1
  links : b.q.name2pool = bk.pools b.sheetName

theorem store_current (b : BookPatcher) : b.store.sheets b.sheetName =
    some b.q.patcher.sheet := if_pos rfl

theorem Steady.width (h : b.Steady bk visited) :
    b.q.patcher.sheet.w = (bk.names b.sheetName).length :=
  h.wide _ _ h.named b.store_current

/-- A patcher that has come to a sheet. -/
def arrived (bk : BookSchema) (name : String) (sheet : TypedSheet SheetCell) (p : SheetPatcher) :
    SheetPatcher :=
  let p : SheetPatcher :=
    { p with
      sheet
      activeCol := ⟨[bk.names name], (bk.names name).length, ""⟩
      statusCol := ⟨[List.replicate (bk.names name).length ""], (bk.names name).length, ""⟩
      rowCursor := -1
      declaredNames := false
      checkedHeader := false }
  { p with name2col := (List.range (bk.names name).length).foldl p.enterName [] }

theorem attached_eq {name : String} {sheet : TypedSheet SheetCell} {p : SheetPatcher}
    (hw : sheet.w = (bk.names name).length) :
    bk.attached name sheet p = some (arrived bk name sheet p) := by
  unfold BookSchema.attached SheetPatcher.updateCols
  exact if_neg (show ¬ (bk.names name).length ≠ sheet.w from fun hc => hc hw.symm)

/-- Another sheet of the book. -/
theorem Idle.setSheet (h : b.Idle bk visited) {name : String} (hname : name ≠ "")
    (hne : name ≠ b.sheetName)
    (hin : (b.store.sheets name).isSome) : ∃ b', b.setSheet bk name = some b' ∧
    b'.Steady bk visited ∧ b'.sheetName = name ∧
      b'.store = b.store ∧ b'.deferred = b.deferred := by
  obtain ⟨sheet, hsheet⟩ := Option.isSome_iff_exists.1 hin
  have hwide := h.wide name sheet hname hsheet
  have hget : b.sheets.get? name = some sheet := by
    have hother : b.store.sheets name = b.sheets.get? name := if_neg hne
    rw [← hother]
    exact hsheet
  have hset : b.setSheet bk name = some
      { b with
        q := { b.q with patcher := arrived bk name sheet b.q.patcher, name2pool := bk.pools name }
        sheetName := name
        sheets := b.sheets.set b.sheetName b.q.patcher.sheet } := by
    unfold BookPatcher.setSheet
    simp only [AssocMap.get?_set_ne _ _ hne, hget, Option.bind_some, if_neg hname,
      attached_eq hwide, Option.map_some]
  have hstore : ({ b with
        q := { b.q with patcher := arrived bk name sheet b.q.patcher, name2pool := bk.pools name }
        sheetName := name
        sheets := b.sheets.set b.sheetName b.q.patcher.sheet } : BookPatcher).store = b.store := by
    unfold BookPatcher.store
    simp only [Store.mk.injEq, and_true]
    funext other
    by_cases hother : other = name
    · subst hother
      rw [if_pos rfl, if_neg hne, hget]
      rfl
    · rw [if_neg hother, AssocMap.get?_set]
  refine ⟨_, hset,
    ⟨⟨h.synonyms, h.drained, fun other s hother hs => ?_⟩, hname, rfl, rfl, (fun hd => by cases hd),
      rfl, rfl⟩,
    rfl, hstore, rfl⟩
  rw [hstore] at hs
  exact h.wide other s hother hs

theorem cell_names (names : List String) {i : Nat} (h : i < names.length) :
    (⟨[names], names.length, ""⟩ : TypedSheet String).cell i 0 ∈ names := by
  unfold TypedSheet.cell
  rw [List.getD_cons_zero, List.getD_eq_getElem _ _ h]
  exact List.getElem_mem h

/-- What the reader of a sheet knows. -/
theorem reader_spec (bk : BookSchema) (name : String) :
    (bk.reader name).activeCol = ⟨[bk.names name], (bk.names name).length, ""⟩ ∧
    (bk.reader name).name2col = (List.range (bk.names name).length).foldl (bk.reader name).enterName
      [] ∧ (bk.reader name).name2syn =
      if (bk.called name).length = (bk.names name).length then
        (List.range (bk.called name).length).foldl
          (SheetPatcher.enterSynonym
            ((⟨[bk.names name], (bk.names name).length, ""⟩ : TypedSheet String).cell · 0)
            (bk.called name)) []
      else [] := by
  unfold BookSchema.reader
  by_cases hlen : (bk.called name).length = (bk.names name).length
  · obtain ⟨q, syn2name, hq, hsyn⟩ :=
      @SheetPatcher.declareNames_eq (bk.attachedReader name) (bk.called name) rfl hlen
    rw [hq, Option.getD_some, if_pos hlen, hsyn]
    exact ⟨rfl, rfl, rfl⟩
  · have hother : (bk.attachedReader name).declareNames (bk.called name) =
        some { bk.attachedReader name with declaredNames := true } := if_pos hlen
    rw [hother, Option.getD_some, if_neg hlen]
    exact ⟨rfl, rfl, rfl⟩

theorem synonym_of_notMem {name col : String} (h : col ∉ bk.names name) :
    bk.synonym name col = none := by
  unfold BookSchema.synonym
  rw [(reader_spec bk name).2.2]
  split
  · next hlen =>
    refine SheetPatcher.get?_foldl_enterSynonym_eq_none fun i hi hcol => absurd ?_ h
    rw [← hcol]
    exact cell_names _ (hlen ▸ List.mem_range.1 hi)
  · rfl

/-- The patcher with the names of an insertion declared, at a sheet of these names. -/
structure Knows (bk : BookSchema) (visited : String → Prop) (name : String)
    (p p' : SheetPatcher) : Prop where
  sheet : p'.sheet = p.sheet
  activeCol : p'.activeCol = p.activeCol
  rowCursor : p'.rowCursor = p.rowCursor
  synonyms : ∀ other, visited other → ∀ col ∈ bk.names other,
    p'.name2syn.get? col = none ∨ p'.name2syn.get? col = bk.synonym other col
  declared : ∀ col ∈ bk.names name, p'.name2syn.get? col = bk.synonym name col
  name2col : p'.name2col = (List.range (bk.names name).length).foldl p'.enterName []

/-- The columns are known by the names that the insertions come with, or they have been before. -/
theorem Steady.exists_named (h : b.Steady bk visited) (hmixed : bk.Unmixed visited) {u : RowUnit}
    (hu : bk.Insertion u) (hsheet : u.sheetName = b.sheetName) (hvisited : visited u.sheetName) :
    ∃ p', b.q.patcher.named u.change = some p' ∧ Knows bk visited b.sheetName b.q.patcher p' := by
  unfold SheetPatcher.named
  rw [hsheet] at hvisited
  cases hd : b.q.patcher.declaredNames with
  | true =>
    rw [if_pos rfl]
    exact ⟨_, rfl, rfl, rfl, rfl, h.synonyms, h.declared hd, h.name2col⟩
  | false =>
    rw [if_neg (by decide)]
    have hnames := hu.names
    rw [hsheet] at hnames
    have hwidth : b.q.patcher.sheet.width = (bk.names b.sheetName).length := h.width
    have hactive : b.q.patcher.activeCol.width = (bk.names b.sheetName).length := by
      rw [h.cols]
      rfl
    by_cases hlen : u.change.allNames.length = (bk.names b.sheetName).length
    · have hcalled : u.change.allNames = bk.called b.sheetName :=
        hnames.resolve_right fun hn => hn.2 hlen
      obtain ⟨q, syn2name, hq, hsyn⟩ :=
        @SheetPatcher.declareNames_eq b.q.patcher u.change.allNames (hactive.trans hwidth.symm)
        (hlen.trans hwidth.symm)
      -- the synonyms of this sheet come before those that were known
      have hget : ∀ col, q.name2syn.get? col =
          (bk.synonym b.sheetName col).or (b.q.patcher.name2syn.get? col) := fun col => by
        unfold BookSchema.synonym
        rw [(reader_spec bk b.sheetName).2.2, if_pos (hcalled ▸ hlen), hsyn]
        show AssocMap.get? (List.foldl _ b.q.patcher.name2syn _) col = _
        rw [SheetPatcher.get?_foldl_enterSynonym, hcalled, h.cols]
      refine ⟨_,
        hq, by rw [hsyn], by rw [hsyn], by
          rw [hsyn], fun other hother col hcol => ?_, fun col hcol => ?_, ?_⟩
      · show q.name2syn.get? col = none ∨ q.name2syn.get? col = _
        rw [hget]
        by_cases hmem : col ∈ bk.names b.sheetName
        · rw [hmixed b.sheetName other hvisited hother col hmem hcol]
          rcases h.synonyms other hother col hcol with hn | hn
          · rw [hn, Option.or_none]
            exact Or.inr rfl
          · rw [hn, Option.or_self]
            exact Or.inr rfl
        · rw [synonym_of_notMem hmem, Option.none_or]
          exact h.synonyms other hother col hcol
      · show q.name2syn.get? col = _
        rw [hget]
        cases hs : bk.synonym b.sheetName col with
        | none =>
          rw [Option.none_or]
          rcases h.synonyms b.sheetName hvisited col hcol with hn | hn
          · exact hn
          · exact hn.trans hs
        | some x => rfl
      · rw [hactive]
        rfl
    · have hother :
        b.q.patcher.declareNames u.change.allNames =
        some { b.q.patcher with declaredNames := true } := by
        unfold SheetPatcher.declareNames
        exact if_pos (fun hn => hlen (hn.trans hwidth))
      have hnone : ∀ col, bk.synonym b.sheetName col = none := fun col => by
        unfold BookSchema.synonym
        rw [(reader_spec bk b.sheetName).2.2]
        split
        · next hcalled =>
          have hsame : bk.called b.sheetName = bk.names b.sheetName := by
            rcases hnames with hn | hn
            · exact absurd (hn ▸ hcalled) hlen
            · exact hn.1
          refine SheetPatcher.get?_foldl_enterSynonym_eq_none fun i hi _ => ?_
          rw [hsame]
          rfl
        · rfl
      refine ⟨_, hother, rfl, rfl, rfl, h.synonyms, fun col hcol => ?_, h.name2col⟩
      rcases h.synonyms b.sheetName hvisited col hcol with hn | hn
      · exact hn.trans (hnone col).symm
      · exact hn

/-! ## An insertion at its sheet -/

/-- The patcher as an insertion meets it. -/
def Steady.meets (b : BookPatcher) (u : RowUnit) : ChainedPatcher :=
  { b.q with patcher := ((b.q.patcher.named u.change).getD b.q.patcher).settle u.change }

theorem Steady.changeRow_eq (h : b.Steady bk visited) (hmixed : bk.Unmixed visited) {u : RowUnit}
    (hu : bk.Insertion u) (hsheet : u.sheetName = b.sheetName) (hvisited : visited u.sheetName) :
    b.q.changeRow u.change = (Steady.meets b u).insertRow u.change := by
  obtain ⟨p', hp', -⟩ := h.exists_named hmixed hu hsheet hvisited
  unfold ChainedPatcher.changeRow Steady.meets
  rw [hp', Option.bind_some, if_pos ⟨hu.clear, hu.mode⟩]
  rfl

/-- What the insertion meets. -/
structure Met (bk : BookSchema) (visited : String → Prop) (b : BookPatcher) (u : RowUnit)
    (q : ChainedPatcher) : Prop where
  sheet : q.patcher.sheet = b.q.patcher.sheet
  activeCol : q.patcher.activeCol = b.q.patcher.activeCol
  synonyms : ∀ name, visited name → ∀ col ∈ bk.names name,
    q.patcher.name2syn.get? col = none ∨ q.patcher.name2syn.get? col = bk.synonym name col
  declared : ∀ col ∈ bk.names b.sheetName, q.patcher.name2syn.get? col = bk.synonym b.sheetName col
  name2col :
    q.patcher.name2col = (List.range (bk.names b.sheetName).length).foldl q.patcher.enterName []
  cursor : q.patcher.rowCursor = -1
  name2pool : q.name2pool = bk.pools b.sheetName
  pools : q.pools = b.q.pools
  scanned : q.scanned = b.q.scanned
  drained : q.deferredRows = []
  val : q.patcher.byCol u.change.val = bk.cells u

theorem Steady.met (h : b.Steady bk visited) (hmixed : bk.Unmixed visited) {u : RowUnit}
    (hu : bk.Insertion u) (hsheet : u.sheetName = b.sheetName) (hvisited : visited u.sheetName) :
    Met bk visited b u (Steady.meets b u) := by
  obtain ⟨p', hp', hknows⟩ := h.exists_named hmixed hu hsheet hvisited
  have hmeets : Steady.meets b u = { b.q with patcher := p'.settle u.change } := by
    unfold Steady.meets
    rw [hp', Option.getD_some]
  have hsyn : (p'.settle u.change).name2syn = p'.name2syn := SheetPatcher.name2syn_settle _ _
  have hactive : (p'.settle u.change).activeCol = p'.activeCol := SheetPatcher.activeCol_settle _ _
  have hcol : (p'.settle u.change).name2col = p'.name2col := SheetPatcher.name2col_settle _ _
  have hcursor : (p'.settle u.change).rowCursor = if u.change.sequential then p'.rowCursor
    else -1 := (ChainedPatcher.settle_frame _ _).2
  obtain ⟨hreader, hreader2col, -⟩ := reader_spec bk b.sheetName
  rw [hmeets]
  refine ⟨(SheetPatcher.sheet_settle _ _).trans hknows.sheet, hactive.trans hknows.activeCol, ?_,
    ?_, ?_, ?_, h.links, rfl, rfl, h.drained, ?_⟩
  · rw [hsyn]
    exact hknows.synonyms
  · rw [hsyn]
    exact hknows.declared
  · rw [hcol, hknows.name2col, SheetPatcher.enterName_congr hactive hsyn]
  · rw [hcursor, hknows.rowCursor, h.cursor, ite_self]
  · unfold BookSchema.cells
    rw [hsheet]
    refine SheetPatcher.byCol_congr (hcol.trans (hknows.name2col.trans ?_)) _
    rw [hreader2col]
    refine SheetPatcher.foldl_enterName_congr (hknows.activeCol.trans (h.cols.trans hreader.symm)) _
      fun i hi => ?_
    rw [hreader]
    exact hknows.declared _ (cell_names _ (List.mem_range.1 hi))

section
variable {u : RowUnit} {q : ChainedPatcher}

theorem Met.link (hm : Met bk visited b u q) (h : b.Steady bk visited)
    (hsheet : u.sheetName = b.sheetName) (c : Nat) :
    q.name2pool.get? (q.patcher.activeCol.cell c 0) = bk.linkAt u.sheetName c := by
  rw [hm.name2pool, hm.activeCol, h.cols, hsheet]
  rfl

theorem Met.translate (hm : Met bk visited b u q) (link : PoolColumnLink) (val : SheetCell) :
    q.translate link val =
      match b.store.record link.poolName val.toString with
      | some record => if record.linked then some record.cell else none
      | none => if b.store.scanned then some val else none := by
  unfold ChainedPatcher.translate ChainedPatcher.lookup Store.record BookPatcher.store
  rewrite [hm.pools, hm.scanned]
  rfl

/-- A row is put off if one of its references is not ready. -/
theorem Met.lacks_iff (hm : Met bk visited b u q) (h : b.Steady bk visited)
    (hsheet : u.sheetName = b.sheetName) :
    (∃ c < q.patcher.sheet.width, q.Lacks (bk.cells u) c) ↔ b.store.ready bk u = false := by
  have hwidth : q.patcher.sheet.width = (bk.names u.sheetName).length := by
    unfold TypedSheet.width
    rw [hm.sheet, h.width, hsheet]
  have hcolumn : ∀ c, q.Lacks (bk.cells u) c ↔
    (match (bk.cells u).get? c, bk.linkAt u.sheetName c with
      | some e, some link =>
        link.invent ||
          match b.store.record link.poolName e.2.toString with
          | some record => record.linked
          | none => b.store.scanned
      | _, _ => true) = false := by
    intro c
    unfold ChainedPatcher.Lacks
    rw [hm.link h hsheet c]
    cases he : (bk.cells u).get? c with
    | none =>
      refine iff_of_false (fun ⟨e, link, he', _⟩ => by cases he') ?_
      cases bk.linkAt u.sheetName c <;> exact Bool.true_eq_false.mp
    | some e =>
      cases hl : bk.linkAt u.sheetName c with
      | none => exact iff_of_false (fun ⟨e, link, _, hl', _⟩ => by cases hl') Bool.true_eq_false.mp
      | some link =>
        have hvalue : q.translate link e.2 = none ↔
            (match b.store.record link.poolName e.2.toString with
              | some record => record.linked
              | none => b.store.scanned) = false := by
          rw [hm.translate]
          cases b.store.record link.poolName e.2.toString with
          | none => cases b.store.scanned <;> simp
          | some record => cases hr : record.linked <;> simp [hr]
        rw [Bool.or_eq_false_iff, ← hvalue]
        constructor
        · rintro ⟨e', link', he', hl', hi, ht⟩
          obtain rfl := Option.some.inj he'
          obtain rfl := Option.some.inj hl'
          exact ⟨hi, ht⟩
        · rintro ⟨hi, ht⟩
          exact ⟨e, link, rfl, rfl, hi, ht⟩
  unfold Store.ready
  rw [List.all_eq_false, hwidth]
  constructor
  · rintro ⟨c, hc, hlack⟩
    refine ⟨c, List.mem_range.2 hc, ?_⟩
    rw [(hcolumn c).1 hlack]
    decide
  · rintro ⟨c, hc, hnot⟩
    exact ⟨c, List.mem_range.1 hc, (hcolumn c).2 (Bool.eq_false_iff.2 hnot)⟩

theorem Met.cellFor (hm : Met bk visited b u q) (h : b.Steady bk visited)
    (hsheet : u.sheetName = b.sheetName)
    {c : Nat} (hc : ¬ q.Lacks (bk.cells u) c) (sheet : TypedSheet SheetCell) :
    (q.cellFor (bk.cells u) (sheet.insertRow (-1)).1 c).getD sheet.zero =
    b.store.newCell bk u sheet c := by
  have hlink := hm.link h hsheet c
  unfold ChainedPatcher.cellFor Store.newCell
  rw [hlink]
  cases he : (bk.cells u).get? c with
  | none => rfl
  | some e =>
    cases hl : bk.linkAt u.sheetName c with
    | none => rfl
    | some link =>
      simp only [Option.bind_some]
      by_cases hi : link.invent = true
      · rw [if_pos hi, if_pos hi]
        rfl
      · rw [if_neg hi, if_neg hi]
        have hfound : q.translate link e.2 ≠ none := fun hnone =>
          hc ⟨e, link, he, hlink.trans hl, by simpa using hi, hnone⟩
        rw [hm.translate] at hfound ⊢
        cases hr : b.store.record link.poolName e.2.toString with
        | none =>
          rw [hr] at hfound
          simp only at hfound ⊢
          split at hfound
          · next hscanned =>
            rw [if_pos hscanned]
            rfl
          · exact absurd rfl hfound
        | some record =>
          rw [hr] at hfound
          simp only at hfound ⊢
          split at hfound
          · next hlinked =>
            rw [if_pos hlinked]
            rfl
          · exact absurd rfl hfound

theorem Met.inventions (hm : Met bk visited b u q) (h : b.Steady bk visited)
    (hsheet : u.sheetName = b.sheetName) :
    (List.range (bk.names u.sheetName).length).filterMap (q.inventionFor (bk.cells u)) =
    Store.inventions bk u := by
  unfold Store.inventions
  refine congrArg (fun f => List.filterMap f _) (funext fun c => ?_)
  unfold ChainedPatcher.inventionFor
  rw [hm.link h hsheet c]

/-- The cells of a row that is ready. -/
theorem Met.fillRow (hm : Met bk visited b u q) (h : b.Steady bk visited)
    (hsheet : u.sheetName = b.sheetName) (hready : b.store.ready bk u = true) :
    q.fillRow (bk.cells u) (b.q.patcher.sheet.height : Int) (List.range b.q.patcher.sheet.w)
      (b.q.patcher.sheet.insertRow (-1)).1 [] =
    .done { b.q.patcher.sheet with
      arr := b.q.patcher.sheet.arr ++ [b.store.newRow bk u b.q.patcher.sheet] }
      (Store.inventions bk u) := by
  have hlacks : ∀ c ∈ List.range b.q.patcher.sheet.w, ¬ q.Lacks (bk.cells u) c := by
    intro c hc hlack
    have hput := (hm.lacks_iff h hsheet).1 ⟨c, by rw [hm.sheet]; exact List.mem_range.1 hc, hlack⟩
    rw [hready] at hput
    exact Bool.noConfusion hput
  have hrow : (List.range b.q.patcher.sheet.w).map (fun c =>
      (q.cellFor (bk.cells u) (b.q.patcher.sheet.insertRow (-1)).1 c).getD b.q.patcher.sheet.zero) =
      b.store.newRow bk u b.q.patcher.sheet :=
    List.map_congr_left fun c hc => hm.cellFor h hsheet (hlacks c hc) _
  have hinv : (List.range b.q.patcher.sheet.w).filterMap (q.inventionFor (bk.cells u)) =
    Store.inventions bk u := by
    rw [← hm.inventions h hsheet, h.width, hsheet]
  rw [q.fillRow_done _ (Int.natCast_nonneg _) _ _ _ List.nodup_range hlacks, hinv, List.nil_append]
  have harr : (b.q.patcher.sheet.insertRow (-1)).1.arr.modify (b.q.patcher.sheet.height : Int).toNat
      (q.fill (bk.cells u) (b.q.patcher.sheet.insertRow (-1)).1 (List.range b.q.patcher.sheet.w)) =
      b.q.patcher.sheet.arr ++ [b.store.newRow bk u b.q.patcher.sheet] := by
    rw [← hrow, ← q.fill_range, TypedSheet.insertRow_end]
    exact SheetPatcher.Follows.modify_append _ _ _ _
  rw [harr, TypedSheet.insertRow_end]

/-- The values that a row puts into pools. -/
theorem put_inventions (h : b.Steady bk visited) (hsheet : u.sheetName = b.sheetName)
    (pools : AssocMap String (AssocMap String PoolRecord)) :
    (Store.inventions bk u).foldl
      (fun pools i => Store.put pools i.link i.origin (({ b.q.patcher.sheet with
      arr := b.q.patcher.sheet.arr ++ [b.store.newRow bk u b.q.patcher.sheet] } :
        TypedSheet SheetCell).cell i.offset
        b.q.patcher.sheet.height)) pools =
    (Store.inventions bk u).foldl
      (fun pools i =>
        Store.put pools i.link i.origin (b.store.newCell bk u b.q.patcher.sheet i.offset))
        pools := by
  refine List.foldl_ext _ _ _ fun pools i hi => ?_
  have hoffset : i.offset < b.q.patcher.sheet.w := by
    obtain ⟨c, hc, hinv⟩ := List.mem_filterMap.1 hi
    obtain ⟨e, -, hinv⟩ := Option.bind_eq_some_iff.1 hinv
    obtain ⟨link, -, rfl⟩ := Option.map_eq_some_iff.1 hinv
    rw [h.width, ← hsheet]
    exact List.mem_range.1 hc
  have hcell : ({ b.q.patcher.sheet with
      arr := b.q.patcher.sheet.arr ++ [b.store.newRow bk u b.q.patcher.sheet] } :
        TypedSheet SheetCell).cell i.offset
        b.q.patcher.sheet.height = b.store.newCell bk u b.q.patcher.sheet i.offset := by
    unfold TypedSheet.cell TypedSheet.height Store.newRow
    rw [List.getD_append_right _ _ _ _ le_rfl, Nat.sub_self, List.getD_cons_zero,
      List.getD_eq_getElem?_getD, List.getElem?_map, List.getElem?_range hoffset]
    rfl
  rw [hcell]

theorem Met.insertRow_ready (hm : Met bk visited b u q) (h : b.Steady bk visited)
    (hsheet : u.sheetName = b.sheetName)
    (hready : b.store.ready bk u = true) : q.insertRow u.change = some
      ({ q with
        pools := (Store.inventions bk u).foldl
          (fun pools i =>
            Store.put pools i.link i.origin (b.store.newCell bk u b.q.patcher.sheet i.offset))
            b.q.pools
        patcher :=
          { q.patcher with
            sheet :=
              { b.q.patcher.sheet with
                arr := b.q.patcher.sheet.arr ++ [b.store.newRow bk u b.q.patcher.sheet] }
            activeRow :=
              (q.patcher.activeRow.insertRow (-1)).1.setCell 0 b.q.patcher.sheet.height "+++"
            rowCursor := -1 } }, false) := by
  have hplace : (b.q.patcher.sheet.insertRow (-1)).2 = (b.q.patcher.sheet.height : Int) := by
    rw [TypedSheet.insertRow_end]
  have hafter : ∀ p : SheetPatcher, p.sheet =
      { b.q.patcher.sheet with
        arr := b.q.patcher.sheet.arr ++ [b.store.newRow bk u b.q.patcher.sheet] } →
      p.after (b.q.patcher.sheet.height : Int) = -1 := by
    intro p hp
    unfold SheetPatcher.after TypedSheet.height
    rw [hp, List.length_append, List.length_singleton]
    exact if_pos (by omega)
  unfold ChainedPatcher.insertRow
  simp only [hm.val, hm.sheet, hm.cursor, TypedSheet.width, hplace, hm.fillRow h hsheet hready]
  rw [if_neg (by omega), ChainedPatcher.foldl_put, hafter _ rfl, Int.toNat_natCast, hm.pools,
    put_inventions h hsheet]

theorem Met.insertRow_lacking (hm : Met bk visited b u q) (h : b.Steady bk visited)
    (hsheet : u.sheetName = b.sheetName) (hready : b.store.ready bk u = false) :
    q.insertRow u.change = some ({ q with deferredRows := q.deferredRows ++ [u.change] },
      false) := by
  obtain ⟨c, hc, hlack⟩ := (hm.lacks_iff h hsheet).2 hready
  obtain ⟨pre, post, hsplit⟩ := List.append_of_mem (List.mem_range.2 hc)
  have hplace : 0 ≤ (q.patcher.sheet.insertRow q.patcher.rowCursor).2 := by
    rw [hm.cursor, TypedSheet.insertRow_end]
    exact Int.natCast_nonneg _
  rw [← hm.val] at hlack
  obtain ⟨sheet, hfill⟩ :=
    (q.fillRow_deferred_iff _ (q.patcher.sheet.insertRow q.patcher.rowCursor).2
      (List.range q.patcher.sheet.width) (q.patcher.sheet.insertRow q.patcher.rowCursor).1 []).2
    ⟨pre, c, post, hsplit, hlack, Or.inl hplace⟩
  unfold ChainedPatcher.insertRow
  simp only [hfill, ChainedPatcher.waits_sheet hfill]

end

/-- What a change at a sheet does to the book. -/
structure Changed (bk : BookSchema) (visited : String → Prop) (b b' : BookPatcher)
    (u : RowUnit) : Prop where
  steady : b'.Steady bk visited
  sheetName : b'.sheetName = u.sheetName
  store : b'.store = if b.store.ready bk u then b.store.insert bk u else b.store
  deferred : b'.deferred = b.deferred ++ if b.store.ready bk u then [] else [u]

theorem store_insert_wide {st : Store} {u : RowUnit}
    (h : ∀ name sheet, name ≠ "" → st.sheets name = some sheet → sheet.w = (bk.names name).length)
    (name : String) (sheet : TypedSheet SheetCell) (hname : name ≠ "")
    (hs : (st.insert bk u).sheets name = some sheet) :
    sheet.w = (bk.names name).length := by
  unfold Store.insert at hs
  cases hu : st.sheets u.sheetName with
  | none =>
    rw [hu] at hs
    exact h name sheet hname hs
  | some s =>
    rw [hu] at hs
    simp only at hs
    by_cases heq : name = u.sheetName
    · rw [if_pos heq] at hs
      obtain rfl := Option.some.inj hs
      exact h name s hname (heq ▸ hu)
    · rw [if_neg heq] at hs
      exact h name sheet hname hs

/-- An insertion into the sheet that the patcher is at. -/
theorem Steady.changeRow (h : b.Steady bk visited) (hmixed : bk.Unmixed visited) {u : RowUnit}
    (hu : bk.Insertion u) (hsheet : u.sheetName = b.sheetName) (hvisited : visited u.sheetName) :
    ∃ b', b.changeRow u.change = some b' ∧ Changed bk visited b b' u := by
  have hm := h.met hmixed hu hsheet hvisited
  unfold BookPatcher.changeRow
  rw [h.changeRow_eq hmixed hu hsheet hvisited]
  cases hready : b.store.ready bk u with
  | true =>
    rw [hm.insertRow_ready h hsheet hready]
    refine ⟨_, rfl, ?_⟩
    have hcurrent : b.store.sheets u.sheetName = some b.q.patcher.sheet := by
      rw [hsheet]
      exact b.store_current
    have hstore : ({ b with
        q :=
          { Steady.meets b u with
            pools := (Store.inventions bk u).foldl
              (fun pools i =>
                Store.put pools i.link i.origin (b.store.newCell bk u b.q.patcher.sheet i.offset))
                b.q.pools
            patcher :=
              { (Steady.meets b u).patcher with
                sheet :=
                  { b.q.patcher.sheet with
                    arr := b.q.patcher.sheet.arr ++ [b.store.newRow bk u b.q.patcher.sheet] }
                activeRow :=
                  ((Steady.meets b u).patcher.activeRow.insertRow (-1)).1.setCell 0
                  b.q.patcher.sheet.height "+++"
                rowCursor := -1 }
            deferredRows := [] } } : BookPatcher).store = b.store.insert bk u := by
      unfold Store.insert
      rw [hcurrent]
      unfold BookPatcher.store
      simp only [hm.scanned, Store.mk.injEq, and_true]
      funext name
      rw [hsheet]
      by_cases hname : name = b.sheetName
      · rw [if_pos hname, if_pos hname]
      · rw [if_neg hname, if_neg hname, if_neg hname]
    have hwide := store_insert_wide (u := u) h.wide
    refine ⟨⟨⟨hm.synonyms, rfl, fun name sheet hname hs => ?_⟩, h.named, hm.activeCol.trans h.cols,
      hm.name2col, fun _ => hm.declared, rfl, hm.name2pool⟩, hsheet.symm, ?_, ?_⟩
    · exact hwide name sheet hname ((congrFun (congrArg Store.sheets hstore) name).symm.trans hs)
    · rw [hready]
      exact hstore
    · rw [hready]
      exact congrArg
        (fun rows => b.deferred ++ List.map (fun change => (⟨b.sheetName, change⟩ : RowUnit)) rows)
        hm.drained
  | false =>
    rw [hm.insertRow_lacking h hsheet hready, hm.drained]
    refine ⟨_, rfl, ?_⟩
    have hstore : ({ b with
        q := { Steady.meets b u with deferredRows := [] }
        deferred := b.deferred ++ [⟨b.sheetName, u.change⟩] } : BookPatcher).store = b.store := by
      unfold BookPatcher.store
      rw [hm.sheet, hm.pools, hm.scanned]
    refine ⟨⟨⟨hm.synonyms, rfl, fun name sheet hname hs => ?_⟩, h.named, hm.activeCol.trans h.cols,
      hm.name2col, fun _ => hm.declared, hm.cursor, hm.name2pool⟩, hsheet.symm, ?_, ?_⟩
    · exact h.wide name sheet hname ((congrFun (congrArg Store.sheets hstore) name).symm.trans hs)
    · rw [hready]
      exact hstore
    · rw [hready, ← hsheet]
      rfl

/-- An insertion at its sheet. -/
theorem Steady.visit (h : b.Steady bk visited) (hmixed : bk.Unmixed visited) {u : RowUnit}
    (hu : bk.Insertion u)
    (hvisited : visited u.sheetName) (hin : (b.store.sheets u.sheetName).isSome) :
    ∃ b', b.visit bk u = some b' ∧ Changed bk visited b b' u := by
  unfold BookPatcher.visit
  by_cases hname : u.sheetName = b.sheetName
  · rw [if_neg (not_not.2 hname), Option.bind_some]
    exact h.changeRow hmixed hu hname hvisited
  · obtain ⟨b', hset, hsteady, hsheet, hstore, hdeferred⟩ := h.toIdle.setSheet hu.named hname hin
    obtain ⟨b'', hchange, hchanged⟩ := hsteady.changeRow hmixed hu hsheet.symm hvisited
    rw [if_pos hname, hset, Option.bind_some]
    refine ⟨b'', hchange, hchanged.steady, hchanged.sheetName, ?_, ?_⟩
    · rw [hchanged.store, hstore]
    · rw [hchanged.deferred, hstore, hdeferred]

theorem isSome_insert {st : Store} (u : RowUnit) {name : String} (h : (st.sheets name).isSome) :
    ((st.insert bk u).sheets name).isSome := by
  unfold Store.insert
  cases st.sheets u.sheetName with
  | none => exact h
  | some sheet =>
    by_cases hname : name = u.sheetName
    · simp only [if_pos hname, Option.isSome_some]
    · simp only [if_neg hname, h]

theorem Changed.isSome {b' : BookPatcher} {u : RowUnit} (h : Changed bk visited b b' u)
    {name : String} (hin : (b.store.sheets name).isSome) : (b'.store.sheets name).isSome := by
  rw [h.store]
  split
  · exact isSome_insert u hin
  · exact hin

/-- A run of insertions is a pass over what is in the sheets and the pools. -/
theorem Steady.foldlM_visit (hmixed : bk.Unmixed visited) (units : List RowUnit) :
    ∀ {b : BookPatcher},
    b.Steady bk visited → (∀ u ∈ units, bk.Insertion u) → (∀ u ∈ units, visited u.sheetName) →
    (∀ u ∈ units, (b.store.sheets u.sheetName).isSome) →
    ∃ b', units.foldlM (BookPatcher.visit bk) b = some b' ∧
      b'.Steady bk visited ∧ b'.store = (bk.supply.pass units b.store).1 ∧
      b'.deferred = b.deferred ++ (bk.supply.pass units b.store).2 ∧
      ∀ name, (b.store.sheets name).isSome → (b'.store.sheets name).isSome := by
  induction units with
  | nil => exact fun {b} h _ _ _ => ⟨b, rfl, h, rfl, (List.append_nil _).symm, fun _ hin => hin⟩
  | cons u units ih =>
    intro b h hu hvisited hin
    obtain ⟨b', hvisit, hchanged⟩ :=
      h.visit hmixed (hu u (by simp)) (hvisited u (by simp)) (hin u (by simp))
    obtain ⟨b'', hrun, hsteady, hstore, hdeferred, hstay⟩ := ih hchanged.steady
      (fun v hv => hu v (List.mem_cons_of_mem _ hv))
        (fun v hv => hvisited v (List.mem_cons_of_mem _ hv))
      fun v hv => hchanged.isSome (hin v (List.mem_cons_of_mem _ hv))
    refine ⟨b'', ?_, hsteady, ?_, ?_, fun name hname => hstay name (hchanged.isSome hname)⟩
    · rw [List.foldlM_cons, hvisit]
      exact hrun
    · rw [hstore, hchanged.store]
      cases hready : b.store.ready bk u with
      | true => rw [if_pos rfl, @Supply.pass_of_ready _ _ _ bk.supply _ _ hready, BookSchema.supply]
      | false => rw [if_neg (by decide), @Supply.pass_of_not_ready _ _ _ bk.supply _ _ hready]
    · rw [hdeferred, hchanged.store, hchanged.deferred, List.append_assoc]
      cases hready : b.store.ready bk u with
      | true =>
        rw [if_pos rfl, if_pos rfl, @Supply.pass_of_ready _ _ _ bk.supply _ _ hready,
          List.nil_append, BookSchema.supply]
      | false =>
        rw [if_neg (by decide), if_neg (by decide),
          @Supply.pass_of_not_ready _ _ _ bk.supply _ _ hready,
          List.singleton_append]

/-- The loop of `mergeDone` is the one over the sheets and the pools. -/
theorem Steady.mergeDone_of_retry (h : b.Steady bk visited) (hmixed : bk.Unmixed visited)
    {all : List RowUnit}
    (hu : ∀ u ∈ all, bk.Insertion u) (hvisited : ∀ u ∈ all, visited u.sheetName)
    (hin : ∀ u ∈ all, (b.store.sheets u.sheetName).isSome) (hall : ∀ u ∈ b.deferred, u ∈ all)
    {st : Store}
    (hretry : retry bk.supply.passed (b.deferred.length + 2) none b.deferred b.store = .done st) :
    ∃ b', b.mergeDone bk = .done b' ∧ b'.store = st := by
  have hsim : ∀ queue (b : BookPatcher) st r, (∀ u ∈ queue, u ∈ all) →
      (b.Steady bk visited ∧ b.store = st ∧ ∀ u ∈ all, (b.store.sheets u.sheetName).isSome) →
      bk.supply.passed queue st = some r → ∃ b', retryRows bk queue b = some (b', r.2) ∧
        (b'.Steady bk visited ∧ b'.store = r.1 ∧ ∀ u ∈ all, (b'.store.sheets u.sheetName).isSome) ∧
        ∀ u ∈ r.2, u ∈ all := by
    rintro queue b st r hqueue ⟨hsteady, rfl, hin⟩ hr
    obtain rfl := Option.some.inj hr
    have hcleared : ({ b with deferred := [] } : BookPatcher).Steady bk visited :=
      ⟨⟨hsteady.synonyms, hsteady.drained, hsteady.wide⟩, hsteady.named, hsteady.cols,
        hsteady.name2col, hsteady.declared, hsteady.cursor, hsteady.links⟩
    obtain ⟨b', hrun, hsteady', hstore, hdeferred, hstay⟩ := hcleared.foldlM_visit hmixed queue
      (fun u hu' => hu u (hqueue u hu')) (fun u hu' => hvisited u (hqueue u hu')) fun u hu' =>
        hin u (hqueue u hu')
    refine ⟨b', ?_, ⟨hsteady', hstore, fun u hu' => hstay _ (hin u hu')⟩, fun u hu' => ?_⟩
    · unfold retryRows
      rw [hrun, Option.map_some, hdeferred]
      rfl
    · exact hqueue u ((bk.supply.pass_sublist queue b.store).subset hu')
  obtain ⟨b', hb', -, hstore, -⟩ :=
    retry_done_of_sim hsim _ none b.deferred b b.store st hall ⟨h, rfl, hin⟩ hretry
  exact ⟨b', hb', hstore⟩

/-! ## The loop ends -/

/-- A change keeps at most one row. -/
theorem length_deferred_changeRow {b b' : BookPatcher} {change : RowChange}
    (hdrained : b.q.deferredRows = []) (h : b.changeRow change = some b') :
    b'.q.deferredRows = [] ∧ b'.deferred.length ≤ b.deferred.length + 1 := by
  unfold BookPatcher.changeRow at h
  obtain ⟨⟨q, result⟩, hq, rfl⟩ := Option.map_eq_some_iff.1 h
  refine ⟨rfl, ?_⟩
  rw [List.length_append, List.length_map, Nat.add_le_add_iff_left]
  rcases ChainedPatcher.kept_or_putBack hq with hkept | hput
  · rw [hkept, hdrained]
    exact Nat.zero_le 1
  · rw [hput.deferredRows, hdrained]
    exact le_rfl

theorem setSheet_frame {b b' : BookPatcher} {name : String} (h : b.setSheet bk name = some b') :
    b'.q.deferredRows = b.q.deferredRows ∧ b'.deferred = b.deferred := by
  unfold BookPatcher.setSheet at h
  obtain ⟨sheet, -, h⟩ := Option.bind_eq_some_iff.1 h
  obtain ⟨p, -, rfl⟩ := Option.map_eq_some_iff.1 h
  exact ⟨rfl, rfl⟩

theorem length_deferred_visit {b b' : BookPatcher} {u : RowUnit} (hdrained : b.q.deferredRows = [])
    (h : b.visit bk u = some b') : b'.q.deferredRows = [] ∧ b'.deferred.length ≤ b.deferred.length +
    1 := by
  unfold BookPatcher.visit at h
  obtain ⟨b₁, hb₁, h⟩ := Option.bind_eq_some_iff.1 h
  split at hb₁
  · obtain ⟨hrows, hdeferred⟩ := setSheet_frame hb₁
    rw [← hdeferred]
    exact length_deferred_changeRow (hrows.trans hdrained) h
  · obtain rfl := Option.some.inj hb₁
    exact length_deferred_changeRow hdrained h

theorem length_deferred_foldlM (units : List RowUnit) :
    ∀ {b b' : BookPatcher}, b.q.deferredRows = [] →
    units.foldlM (BookPatcher.visit bk) b = some b' →
      b'.q.deferredRows = [] ∧ b'.deferred.length ≤ b.deferred.length + units.length := by
  induction units with
  | nil =>
    intro b b' hdrained h
    obtain rfl := Option.some.inj h
    exact ⟨hdrained, le_rfl⟩
  | cons u units ih =>
    intro b b' hdrained h
    rw [List.foldlM_cons] at h
    obtain ⟨b₁, hvisit, h⟩ := Option.bind_eq_some_iff.1 h
    obtain ⟨hdrained₁, hle⟩ := length_deferred_visit hdrained hvisit
    obtain ⟨hdrained', hle'⟩ := ih hdrained₁ h
    refine ⟨hdrained', ?_⟩
    rw [List.length_cons]
    omega

/-- The loop of `mergeDone` comes to an end. -/
theorem mergeDone_ends {b : BookPatcher} (hdrained : b.q.deferredRows = []) :
    b.mergeDone bk ≠ .unfinished := by
  have hpass : ∀ queue (b : BookPatcher) r, b.q.deferredRows = [] → retryRows bk queue b = some r →
      r.1.q.deferredRows = [] ∧ r.2.length ≤ queue.length := by
    intro queue b r hdrained hr
    unfold retryRows at hr
    obtain ⟨b', hrun, rfl⟩ := Option.map_eq_some_iff.1 hr
    have hcleared : ({ b with deferred := [] } : BookPatcher).q.deferredRows = [] := hdrained
    obtain ⟨hdrained', hle⟩ := length_deferred_foldlM queue hcleared hrun
    exact ⟨hdrained', hle.trans (Nat.le_of_eq (Nat.zero_add _))⟩
  exact retry_ends hpass _ none b.deferred b hdrained le_rfl

end BookPatcher

/-! ## Insertions as a supply -/

namespace Store

variable {bk : BookSchema} {st : Store} {u : RowUnit}

theorem mem_uses {invent : Bool} {x : String × String} : x ∈ bk.uses invent u ↔
    ∃ c < (bk.names u.sheetName).length, ∃ e link, (bk.cells u).get? c = some e ∧
    bk.linkAt u.sheetName c = some link ∧
      link.invent = invent ∧ x = (link.poolName, e.2.toString) := by
  unfold BookSchema.uses
  rw [List.mem_filterMap]
  constructor
  · rintro ⟨c, hc, hx⟩
    obtain ⟨e, he, hx⟩ := Option.bind_eq_some_iff.1 hx
    obtain ⟨link, hlink, rfl⟩ := Option.map_eq_some_iff.1 hx
    obtain ⟨hlink, hi⟩ := Option.filter_eq_some_iff.1 hlink
    exact ⟨c, List.mem_range.1 hc, e, link, he, hlink, beq_iff_eq.1 hi, rfl⟩
  · rintro ⟨c, hc, e, link, he, hlink, hi, rfl⟩
    refine ⟨c, List.mem_range.2 hc, ?_⟩
    rw [he, Option.bind_some, hlink]
    simp only [Option.filter, hi, beq_self_eq_true, if_true, Option.map_some]

theorem record_put (pools : AssocMap String (AssocMap String PoolRecord)) (link : PoolColumnLink)
    (src dest : SheetCell)
    (pool key : String) : (((put pools link src dest).get? pool).getD []).get? key =
      if pool = link.poolName ∧ key = src.toString then some ⟨dest, true⟩
      else ((pools.get? pool).getD []).get? key := by
  unfold put
  by_cases hpool : pool = link.poolName
  · subst hpool
    rw [AssocMap.get?_set, if_pos rfl, Option.getD_some, AssocMap.get?_set]
    by_cases hkey : key = src.toString
    · rw [if_pos hkey, if_pos ⟨rfl, hkey⟩]
    · rw [if_neg hkey, if_neg fun h => hkey h.2]
  · rw [AssocMap.get?_set_ne _ _ hpool, if_neg fun h => hpool h.1]

/-- A value has a record of some kind if it had one, or if it was put. -/
theorem record_foldl_put {P : PoolRecord → Prop} (hP : ∀ cell, P ⟨cell, true⟩)
    (f : ChainedPatcher.Invention → SheetCell)
    (pool key : String) (inventions : List ChainedPatcher.Invention) :
    ∀ pools : AssocMap String (AssocMap String PoolRecord),
      (∃ record,
        (((inventions.foldl (fun pools i => put pools i.link i.origin (f i)) pools).get? pool).getD
          []).get? key =
        some record ∧ P record) ↔
      (∃ record, ((pools.get? pool).getD []).get? key = some record ∧ P record) ∨
        ∃ i ∈ inventions, pool = i.link.poolName ∧ key = i.origin.toString := by
  induction inventions with
  | nil => simp
  | cons i inventions ih =>
    intro pools
    rw [List.foldl_cons, ih, record_put]
    by_cases hi : pool = i.link.poolName ∧ key = i.origin.toString
    · rw [if_pos hi]
      exact iff_of_true (Or.inl ⟨_, rfl, hP _⟩) (Or.inr ⟨i, by simp, hi⟩)
    · rw [if_neg hi]
      refine or_congr_right ?_
      constructor
      · rintro ⟨j, hj, hkey⟩
        exact ⟨j, List.mem_cons_of_mem _ hj, hkey⟩
      · rintro ⟨j, hj, hkey⟩
        rcases List.mem_cons.1 hj with rfl | hj
        · exact absurd hkey hi
        · exact ⟨j, hj, hkey⟩

/-- What a row puts into pools is what it has in the columns that invent. -/
theorem map_inventions :
    (inventions bk u).map (fun i => (i.link.poolName, i.origin.toString)) = bk.uses true u := by
  unfold inventions BookSchema.uses
  rw [List.map_filterMap]
  refine congrArg (fun f => List.filterMap f _) (funext fun c => ?_)
  cases (bk.cells u).get? c with
  | none => rfl
  | some e => simp only [Option.bind_some, Option.map_map, beq_true, Function.comp_def]

theorem mem_inventions (pool key : String) :
    (∃ i ∈ inventions bk u, pool = i.link.poolName ∧ key = i.origin.toString) ↔
    (pool, key) ∈ bk.uses true u := by
  rw [← map_inventions, List.mem_map]
  refine exists_congr fun i => and_congr_right fun _ => ?_
  rw [Prod.mk.injEq]
  exact and_congr eq_comm eq_comm

theorem record_insert {P : PoolRecord → Prop} (hP : ∀ cell, P ⟨cell, true⟩)
    (hin : (st.sheets u.sheetName).isSome)
    (pool key : String) : (∃ record, (st.insert bk u).record pool key = some record ∧ P record) ↔
      (∃ record, st.record pool key = some record ∧ P record) ∨ (pool, key) ∈ bk.uses true u := by
  obtain ⟨sheet, hsheet⟩ := Option.isSome_iff_exists.1 hin
  rw [← mem_inventions]
  unfold insert record
  rw [hsheet]
  exact record_foldl_put hP _ pool key _ st.pools

/-- Sheets for all rows, and in pools that were scanned all values that the rows refer to. -/
structure Sound (bk : BookSchema) (all : List RowUnit) (st : Store) : Prop where
  sheets : ∀ u ∈ all, (st.sheets u.sheetName).isSome
  entered : st.scanned = true → ∀ u ∈ all, ∀ x, x ∈ bk.uses false u →
    ∃ record, st.record x.1 x.2 = some record

theorem Sound.ready_iff {all : List RowUnit} (h : Sound bk all st) (hu : u ∈ all) :
    st.ready bk u = true ↔ ∀ x, x ∈ bk.uses false u → st.Linked x := by
  unfold ready
  rw [List.all_eq_true]
  constructor
  · intro hready x hx
    obtain ⟨c, hc, e, link, he, hlink, hi, rfl⟩ := mem_uses.1 hx
    have hcolumn := hready c (List.mem_range.2 hc)
    rw [he, hlink] at hcolumn
    simp only [hi, Bool.false_or] at hcolumn
    cases hr : st.record link.poolName e.2.toString with
    | some record =>
      rw [hr] at hcolumn
      exact ⟨record, hr, hcolumn⟩
    | none =>
      rw [hr] at hcolumn
      obtain ⟨record, hrecord⟩ := h.entered hcolumn u hu _ hx
      rw [hr] at hrecord
      cases hrecord
  · intro hsated c hc
    cases he : (bk.cells u).get? c with
    | none => rfl
    | some e =>
      cases hlink : bk.linkAt u.sheetName c with
      | none => rfl
      | some link =>
        cases hi : link.invent with
        | true => simp [hi]
        | false =>
          obtain ⟨record, hrecord, hlinked⟩ :=
            hsated _ (mem_uses.2 ⟨c, List.mem_range.1 hc, e, link, he, hlink, hi, rfl⟩)
          simp [hi, hrecord, hlinked]

theorem scanned_insert : (st.insert bk u).scanned = st.scanned := by
  unfold insert
  split <;> rfl

end Store

/-- Rows in the order of their references: what an insertion adds, and what it waits for. -/
theorem supply_lawful (bk : BookSchema) (all : List RowUnit) :
    bk.supply.Lawful all (Store.Sound bk all) where
  ready_iff := fun st u hst hu => hst.ready_iff hu
  has_apply := fun st u hst hu _ x => Store.record_insert (fun _ => rfl) (hst.sheets u hu) x.1 x.2
  valid_apply := by
    intro st u hst hu _
    refine ⟨fun v hv => BookPatcher.isSome_insert u (hst.sheets v hv), fun hscanned v hv x hx => ?_⟩
    have hbefore := hst.entered (Store.scanned_insert.symm.trans hscanned) v hv x hx
    obtain ⟨record, hrecord⟩ := hbefore
    obtain ⟨record', hrecord', -⟩ := (@Store.record_insert bk st u (fun _ => True) (fun _ => trivial)
      (hst.sheets u hu) x.1 x.2).2 (Or.inl ⟨record, hrecord, trivial⟩)
    exact ⟨record', hrecord'⟩

/-! ## All of a batch -/

namespace Batch

theorem Orderly.sound {t : Batch} (h : t.Orderly) : Store.Sound t.book t.units t.store where
  sheets := by
    intro u hu
    rw [show t.store.sheets u.sheetName = t.sheets.get? u.sheetName from if_neg (t.insertions u hu).named]
    exact t.units_in u hu
  entered := by
    intro hscanned u hu x hx
    rcases h.supplied u hu x hx with ⟨record, hrecord, -⟩ | ⟨v, hv, hx'⟩
    · exact ⟨record, hrecord⟩
    · exact h.entered hscanned v hv x hx'

/-- The sheets that rows are put into. -/
def Visits (t : Batch) (name : String) : Prop := ∃ u ∈ t.units, u.sheetName = name

/-- The patcher comes to the first sheet. -/
theorem opened (t : Batch) : ∃ b, BookPatcher.opened t.book t.sheets t.pools t.scanned t.first = some b ∧
    b.Steady t.book t.Visits ∧ b.store = t.store ∧ b.deferred = [] := by
  have hidle : ({
      q := {
        patcher := {
          sheet := ⟨[], 0, SheetCell.null⟩
          activeCol := ⟨[], 0, ""⟩
          statusCol := ⟨[], 0, ""⟩ }
        pools := t.pools
        scanned := t.scanned }
      sheets := t.sheets } : BookPatcher).Idle t.book t.Visits := by
    refine ⟨fun _ _ _ _ => Or.inl rfl, rfl, fun name sheet hname hs => ?_⟩
    exact t.wide name sheet ((if_neg hname).symm.trans hs)
  obtain ⟨b, hb, hsteady, -, hstore, hdeferred⟩ := hidle.setSheet t.first_in.1 t.first_in.1
    ((congrArg Option.isSome (if_neg t.first_in.1)).trans t.first_in.2)
  exact ⟨b, hb, hsteady, hstore, hdeferred⟩

/-- Rows of `r` refer to rows of `p` and `s`, and those of `s` to rows of `p`. -/
def references : BookSchema where
  names := fun name =>
    if name = "r" then ["a", "b"] else if name = "s" then ["id", "c"]
      else if name = "p" then ["id", "k"] else ["k"]
  link := fun name col =>
    if name = "r" then some (if col = "a" then ⟨false, "P"⟩ else ⟨false, "S"⟩)
    else if name = "s" then some (if col = "id" then ⟨true, "S"⟩ else ⟨false, "P"⟩)
    else if name = "p" then if col = "id" then some ⟨true, "P"⟩ else none
    else none

def rowOf (name : String) (allNames : List String) (val : AssocMap String SheetCell) : RowUnit :=
  ⟨name, { mode := .insert, allNames, val }⟩

def blank (names : List String) : AssocMap String (TypedSheet SheetCell) :=
  names.map fun name => (name, ⟨[], (references.names name).length, SheetCell.null⟩)

/-- The row that is referred to last comes first. -/
def backwards : List RowUnit :=
  [rowOf "r" ["a", "b"] [("a", ⟨"1", false⟩), ("b", ⟨"2", false⟩)],
    rowOf "s" ["id", "c"] [("id", ⟨"2", false⟩), ("c", ⟨"1", false⟩)],
    rowOf "p" ["id", "k"] [("id", ⟨"1", false⟩)]]

def rank (u : RowUnit) : Nat := if u.sheetName = "r" then 2 else if u.sheetName = "s" then 1 else 0

theorem supplied_of_uses {bk : BookSchema} {st : Store} {units : List RowUnit}
    (h : ∀ u ∈ units, ∀ x ∈ bk.uses false u, ∃ v ∈ units, x ∈ bk.uses true v) :
    bk.supply.Supplied st units :=
  fun u hu x hx => Or.inr (h u hu x hx)

theorem acyclic_of_uses {bk : BookSchema} {units : List RowUnit}
    (h : ∀ u ∈ units, ∀ v ∈ units, ∀ x ∈ bk.uses false u, x ∈ bk.uses true v → rank v < rank u) :
    bk.supply.Acyclic units :=
  Supply.acyclic_of_rank rank fun u v ⟨hu, hv, x, hx, hx'⟩ => h u hu v hv x hx hx'

/-- The same book, where the insertions into `r` call its columns otherwise. -/
def called : BookSchema :=
  { references with
    called := fun name => if name = "r" then ["first", "second"] else references.names name }

/-- Two rows of `r` before those they refer to, and a row of `p` with a number of names that leaves
it alone. -/
def callers : List RowUnit :=
  [rowOf "r" ["first", "second"] [("first", ⟨"1", false⟩), ("second", ⟨"2", false⟩)],
    rowOf "s" ["id", "c"] [("id", ⟨"2", false⟩), ("c", ⟨"1", false⟩)],
    rowOf "r" ["first", "second"] [("second", ⟨"2", false⟩)],
    rowOf "p" ["id"] [("id", ⟨"1", false⟩)]]

theorem insertion_of_mem_callers : ∀ u ∈ callers, called.Insertion u := by
  intro u hu
  simp only [callers, List.mem_cons, List.not_mem_nil, or_false] at hu
  rcases hu with rfl | rfl | rfl | rfl
  · exact ⟨rfl, rfl, by decide, Or.inl rfl⟩
  · exact ⟨rfl, rfl, by decide, Or.inl rfl⟩
  · exact ⟨rfl, rfl, by decide, Or.inl rfl⟩
  · exact ⟨rfl, rfl, by decide, Or.inr ⟨rfl, by decide⟩⟩

theorem width_blank (name : String) (sheet : TypedSheet SheetCell)
    (hs : (blank ["r", "s", "p"]).get? name = some sheet) :
    sheet.w = (called.names name).length := by
  simp only [blank, List.map_cons, List.map_nil, AssocMap.get?_cons, AssocMap.get?_nil] at hs
  split at hs
  · next h => cases h; cases hs; rfl
  · split at hs
    · next h => cases h; cases hs; rfl
    · split at hs
      · next h => cases h; cases hs; rfl
      · cases hs

def calledBackwards : Batch where
  book := called
  sheets := blank ["r", "s", "p"]
  wide := width_blank
  pools := []
  scanned := false
  first := "r"
  first_in := by decide
  units := callers
  insertions := insertion_of_mem_callers
  units_in := by decide
  unmixed := by
    rintro _ _ ⟨u, hu, rfl⟩ ⟨v, hv, rfl⟩
    revert u v
    decide +kernel

theorem orderly_calledBackwards : calledBackwards.Orderly where
  supplied := supplied_of_uses (by decide +kernel)
  acyclic := acyclic_of_uses (by decide +kernel)
  entered := fun h => by cases h

end Batch

/-- **An insertion that is put off leaves no trace** but the height of the row marks and the cursor
that a change which is not part of a sequence resets; the loop over those that were put off comes to
an end; and when the references are in order, all insertions are done, each once and with its
references translated, in whatever order they came. -/
theorem deferredInserts :
    (∀ (q q' : ChainedPatcher) (change : RowChange) (result : Bool),
      q.changeRow change = some (q', result) →
      q'.deferredRows ≠ q.deferredRows → q.PutBack q' change) ∧
    (∀ (bk : BookSchema) (b : BookPatcher), b.q.deferredRows = [] → b.mergeDone bk ≠ .unfinished) ∧
    ∀ t : Batch, t.Orderly → ∃ b order,
      BookPatcher.merge t.book t.sheets t.pools t.scanned t.first t.units = some (.done b) ∧
      t.book.supply.Applied t.book.supply.Sated t.store order b.store ∧ order.Perm t.units := by
  refine ⟨fun q q' change result h hkept => (ChainedPatcher.kept_or_putBack h).resolve_left hkept,
    fun bk b hdrained => BookPatcher.mergeDone_ends hdrained, fun t ht => ?_⟩
  obtain ⟨b₀, hopened, hsteady, hstore, hdeferred⟩ := t.opened
  have hin : ∀ u ∈ t.units, (b₀.store.sheets u.sheetName).isSome := by
    rw [hstore]
    exact ht.sound.sheets
  obtain ⟨b₁, hrun, hsteady₁, hstore₁, hdeferred₁, hstay⟩ :=
    hsteady.foldlM_visit t.unmixed t.units t.insertions (fun u hu => ⟨u, hu, rfl⟩) hin
  rw [hstore] at hstore₁ hdeferred₁
  rw [hdeferred, List.nil_append] at hdeferred₁
  obtain ⟨st, order, hretry, happlied, hperm⟩ :=
    Supply.exists_retry_done (supply_lawful t.book t.units) ht.acyclic ht.sound
    ht.supplied (le_refl ((t.book.supply.pass t.units t.store).2.length + 2))
  rw [← hdeferred₁, ← hstore₁] at hretry
  obtain ⟨b₂, hdone, rfl⟩ :=
    hsteady₁.mergeDone_of_retry t.unmixed t.insertions (fun u hu => ⟨u, hu, rfl⟩)
    (fun u hu => hstay _ (hin u hu))
      (fun u hu => (t.book.supply.pass_sublist t.units t.store).subset (hdeferred₁ ▸ hu)) hretry
  refine ⟨b₂, order, ?_, happlied, hperm⟩
  unfold BookPatcher.merge
  rw [hopened, Option.bind_some, hrun, Option.map_some, hdone]

open Batch in
theorem deferredInserts_calledBackwards : ∃ b order,
    BookPatcher.merge called (blank ["r", "s", "p"]) [] false "r" calledBackwards.units =
    some (.done b) ∧
      called.supply.Applied called.supply.Sated calledBackwards.store order b.store ∧
      order.Perm calledBackwards.units :=
  deferredInserts.2.2 calledBackwards orderly_calledBackwards

open Batch in
example :
    ((BookPatcher.merge references (blank ["r", "s", "p"]) [] false "r" backwards).bind
      Outcome.result).map (fun b =>
    (b.store.sheets "r").map TypedSheet.arr) = some (some [[⟨"1", false⟩, ⟨"1", false⟩]]) := by
  decide +kernel

/-! ## What is in the way -/

namespace Batch

/-- The column of the first row goes by the name of another sheet's column. -/
def renamed : List RowUnit :=
  [rowOf "q" ["id"] [("id", ⟨"5", false⟩)], rowOf "r" ["a", "b"] [("a", ⟨"1", false⟩)],
    rowOf "p" ["id", "k"] [("id", ⟨"1", false⟩)]]

/-- The sheet `r` with a row, and an insertion that refers to a pool without values. -/
def waiting : ChainedPatcher where
  patcher :=
    { sheet := ⟨[[⟨"0", false⟩]], 1, SheetCell.null⟩
      activeCol := ⟨[["a"]], 1, ""⟩
      statusCol := ⟨[[""]], 1, ""⟩ }
  name2pool := [("a", ⟨false, "P"⟩)]

end Batch

open Batch in
/-- The first row that is put off does give the row marks the height of the sheet.  Where the pools
were scanned, a value passes that they do not have, before it is invented; and a synonym from
another sheet keeps a value from being invented at all. -/
theorem not_deferredInserts :
    (∃ q', waiting.changeRow (rowOf "r" ["a"] [("a", ⟨"1", false⟩)]).change = some (q', false) ∧
      q'.deferredRows ≠ waiting.deferredRows ∧ q'.patcher.activeRow ≠ waiting.patcher.activeRow) ∧
    ((∀ st, references.supply.Supplied st backwards) ∧ references.supply.Acyclic backwards ∧
      ((BookPatcher.merge references (blank ["r", "s", "p"])
        [("P", [("1", ⟨SheetCell.null, false⟩)])] true "r"
        backwards).bind Outcome.result).map (fun b =>
          ((b.store.sheets "r").map TypedSheet.arr, b.store.record "S" "2")) =
        some (some [[⟨"1", false⟩, ⟨"2", false⟩]], some ⟨⟨"1", false⟩, true⟩)) ∧
    (∀ st, references.supply.Supplied st renamed) ∧ references.supply.Acyclic renamed ∧
      (BookPatcher.merge references (blank ["q", "r", "p"]) [] false "q" renamed).bind
      Outcome.left =
        some [rowOf "r" ["a", "b"] [("a", ⟨"1", false⟩)]] := by
  refine ⟨⟨_, rfl, by decide +kernel, by decide +kernel⟩,
    ⟨fun st => supplied_of_uses (by decide +kernel),
    acyclic_of_uses (by decide +kernel), by decide +kernel⟩,
    fun st => supplied_of_uses (by decide +kernel),
    acyclic_of_uses (by decide +kernel), by decide +kernel⟩

end Coopy
