import Coopy.ColumnReplay
import Coopy.ConflictMarks
import Coopy.InLine
import Coopy.RowResolution
import Coopy.UnchangedRemote

/-!
# A conflict merged, written down and resolved

A row in conflict is merged, the patcher of the merge writes it into the local sheet, and `resolve`
with a second patcher takes it out again.  What remote alone changed in such a row is not written
down with the conflict, so it is lost; everything else ends as it should:

    t.Resolves R ↔ no column was changed by remote alone                            (resolves_iff)
-/

namespace Coopy

open Lib Merger BookCompare

open Comparison (column)

/-- A row of three tables, and the sheet that its merge is written into. -/
structure MergedRow where
  pivot : DataSheet
  locals : DataSheet
  remote : DataSheet
  names : List String
  pRow : Nat
  lRow : Nat
  rRow : Nat
  flags : CompareFlags
  merger : Cursor
  -- the sheet: the local row between others, and the patcher at row `place`
  above : List (List SheetCell)
  below : List (List SheetCell)
  place : Nat
  zero : SheetCell
  assumeHeader : Bool
  -- its schema: the first `hh` rows are the header, unless the names are kept outside of the cells
  kinds : List ColumnType
  hh : Nat
  external : Bool
  indexes : AssocMap String Bool
  aligned : kinds.length = names.length

namespace MergedRow

variable (t : MergedRow)

def pivotCell (i : Nat) : SheetCell := (t.pivot.row t.pRow).getD i SheetCell.null

def localCell (i : Nat) : SheetCell := (t.locals.row t.lRow).getD i SheetCell.null

def remoteCell (i : Nat) : SheetCell := (t.remote.row t.rRow).getD i SheetCell.null

/-- Both sides changed the cell, and not in the same way. -/
def InConflict (i : Nat) : Prop :=
  sameCell t.flags (t.localCell i) (t.remoteCell i) = false ∧
  sameCell t.flags (t.pivotCell i) (t.localCell i) = false ∧
    sameCell t.flags (t.pivotCell i) (t.remoteCell i) = false

instance (i : Nat) : Decidable (t.InConflict i) := inferInstanceAs (Decidable (_ ∧ _))

/-- Remote changed the cell, and local did not. -/
def RemoteOnly (i : Nat) : Prop :=
  sameCell t.flags (t.localCell i) (t.remoteCell i) = false ∧
  sameCell t.flags (t.pivotCell i) (t.localCell i) = true

instance (i : Nat) : Decidable (t.RemoteOnly i) := inferInstanceAs (Decidable (_ ∧ _))

/-- The local row with its conflicts written down. -/
def marked : List SheetCell :=
  (List.range t.names.length).map fun i =>
    if t.InConflict i then
      ⟨MergingPatcher.conflictText (t.pivotCell i) (t.localCell i) (t.remoteCell i), false⟩
    else t.localCell i

def side (R : Resolution) (i : Nat) : SheetCell :=
  match R with
  | .ours => t.localCell i
  | .theirs => t.remoteCell i
  | .neither => t.pivotCell i

/-- What the row should end as. -/
def wanted (R : Resolution) : List SheetCell :=
  (List.range t.names.length).map fun i =>
    if t.InConflict i then t.side R i else if t.RemoteOnly i then t.remoteCell i else t.localCell i

/-- How many rows of the sheet are its header. -/
def header : Nat := if t.external then 0 else t.hh

/-- The rows of the sheet. -/
def rows : List (List SheetCell) := t.above ++ t.locals.row t.lRow :: t.below

/-! ## The steps -/

def ctx : RowContext where
  pivot := t.pivot
  locals := t.locals
  remote := t.remote
  flags := t.flags
  colAccum := (List.range t.names.length).map column
  names := t.names
  filteredNames := []
  allGone := false

def unit : MatchUnit := ⟨t.pRow, t.lRow, t.rRow, false, .none⟩

/-- The change that is reported for the row. -/
def change? : Option RowChange :=
  match mergeRow t.ctx t.unit { cursor := t.merger } with
  | .ok s =>
    s.rc.getLast?.map fun change => { change with allNames := t.names, indexes := t.indexes }
  | .error _ => none

/-- The patcher of the merge, on the local sheet. -/
def target? : Option MergingPatcher :=
  (SheetPatcher.attach ⟨t.rows, t.names.length, t.zero⟩ t.names t.assumeHeader).map fun p =>
    { patcher := { p with rowCursor := if t.place = t.rows.length then -1 else (t.place : Int) }
      schema := ⟨t.names, t.kinds, t.hh, t.aligned⟩
      external := t.external }

/-- The patcher once the row is written down. -/
def written? : Option MergingPatcher :=
  t.change?.bind fun change => t.target?.bind fun q => (q.changeRow change).map fun r => r.1

/-- The rows once the conflict is resolved, by a patcher of its own. -/
def resolved? (R : Resolution) : Option (List (List SheetCell)) :=
  t.written?.bind fun q =>
    (resolve R.text t.indexes q.poly).bind fun events =>
      (SheetPatcher.attach q.patcher.sheet q.schema.columns t.assumeHeader).bind fun p =>
        (events.foldlM SheetPatcher.applyEvent { p with schema := !t.external }).map fun p =>
          p.sheet.arr

/-- The row ends as it should, among the other rows of the sheet. -/
def Resolves (R : Resolution) : Prop :=
  ∃ a b, t.resolved? R = some (a ++ t.wanted R :: b) ∧ a ++ b = t.above ++ t.below

end MergedRow

/-- A row in conflict.  Its texts can be told from the marks, and it matches no other row, as it is
or marked; the header line counts as one. -/
structure ConflictedRow extends MergedRow where
  names_nodup : names.Nodup
  usable : "---" ∉ names
  unmerged : "_MERGE_" ∉ names
  pivot_row : pRow < pivot.height ∧ pivot.width = names.length
  local_row : lRow < locals.height ∧ locals.width = names.length
  remote_row : rRow < remote.height ∧ remote.width = names.length
  texts : ∀ c ∈ pivot.row pRow ++ locals.row lRow ++ remote.row rRow, c.escaped = false ∧
    PlainText c.text
  conflict : ∃ i < names.length, toMergedRow.InConflict i
  all_columns : flags.excludeColumns = [] ∧ flags.fixedColumns = false
  unresolved : flags.resolve = ""
  updates : flags.canUpdate = true
  rect : ∀ row ∈ above ++ below, row.length = names.length
  apart : ∀ row ∈ above ++ below, row ≠ locals.row lRow ∧ row ≠ toMergedRow.marked
  not_header : external = false →
    (locals.row lRow).map SheetCell.text ≠ names ∧ toMergedRow.marked.map SheetCell.text ≠ names
  below_header : toMergedRow.header ≤ above.length ∧ toMergedRow.header ≤ place
  place_le : place ≤ toMergedRow.rows.length
  fresh : zero.text ≠ "CONFLICT"

namespace ConflictedRow

variable {t : ConflictedRow}

/-! ## The merged row -/

theorem pivotCell_mem {i : Nat} (hi : i < t.names.length) : t.pivotCell i ∈ t.pivot.row t.pRow := by
  have hlen := (t.pivot.row_length t.pivot_row.1).trans t.pivot_row.2
  unfold MergedRow.pivotCell
  rw [List.getD_eq_getElem _ _ (by omega)]
  exact List.getElem_mem _

theorem localCell_mem {i : Nat} (hi : i < t.names.length) :
    t.localCell i ∈ t.locals.row t.lRow := by
  have hlen := (t.locals.row_length t.local_row.1).trans t.local_row.2
  unfold MergedRow.localCell
  rw [List.getD_eq_getElem _ _ (by omega)]
  exact List.getElem_mem _

theorem remoteCell_mem {i : Nat} (hi : i < t.names.length) :
    t.remoteCell i ∈ t.remote.row t.rRow := by
  have hlen := (t.remote.row_length t.remote_row.1).trans t.remote_row.2
  unfold MergedRow.remoteCell
  rw [List.getD_eq_getElem _ _ (by omega)]
  exact List.getElem_mem _

theorem text_of_mem {c : SheetCell} (h : c ∈ t.pivot.row t.pRow ∨ c ∈ t.locals.row t.lRow ∨
    c ∈ t.remote.row t.rRow) : c = ⟨c.text, false⟩ ∧ PlainText c.text := by
  have hmem : c ∈ t.pivot.row t.pRow ++ t.locals.row t.lRow ++ t.remote.row t.rRow := by
    rw [List.mem_append, List.mem_append, or_assoc]
    exact h
  obtain ⟨he, hp⟩ := t.texts c hmem
  exact ⟨by rw [← he], hp⟩

/-- What the merge makes of a cell. -/
theorem mergedAt_eq {i : Nat} (hi : i < t.names.length) : mergedAt t.ctx t.unit (column i) =
    if t.InConflict i then ⟨t.localCell i, true, true⟩
    else if t.RemoteOnly i then ⟨t.remoteCell i, true, false⟩
      else ⟨t.localCell i, false, false⟩ := by
  have hl : t.localCell i ≠ SheetCell.blankCell := by
    rw [(text_of_mem (Or.inr (Or.inl (localCell_mem hi)))).1]
    simp [SheetCell.blankCell]
  have hr : t.remoteCell i ≠ SheetCell.blankCell := by
    rw [(text_of_mem (Or.inr (Or.inr (remoteCell_mem hi)))).1]
    simp [SheetCell.blankCell]
  have hcells :
    mergedAt t.ctx t.unit (column i) = mergedCell t.flags (t.localCell i) (t.remoteCell i)
    (t.pivotCell i) := by
    show mergedCell t.flags (cellAt t.locals i t.lRow) (cellAt t.remote i t.rRow)
      (cellAt t.pivot i t.pRow) = _
    rw [cellAt_eq, cellAt_eq, cellAt_eq]
    rfl
  rw [hcells]
  unfold mergedCell resolveCell
  rw [if_neg hl, if_neg hr, if_pos t.unresolved]
  cases hlr : sameCell t.flags (t.localCell i) (t.remoteCell i) <;>
    cases hpl : sameCell t.flags (t.pivotCell i) (t.localCell i) <;>
    cases hpr : sameCell t.flags (t.pivotCell i) (t.remoteCell i) <;>
    simp [MergedRow.InConflict, MergedRow.RemoteOnly, hlr, hpl, hpr]

/-- The maps of the row change. -/
def values (t : ConflictedRow) : RowValues := valuesOf t.ctx t.unit 0 t.ctx.colAccum {}

theorem inLine : InLine t.ctx := ⟨t.names_nodup, rfl, t.all_columns.1⟩

theorem value_enters : Enters t.names (fun i => if t.InConflict i then some (t.localCell i)
    else if t.RemoteOnly i then some (t.remoteCell i) else none) t.values.value := by
  refine (inLine.valuesOf_enters t.unit).values.congr fun i hi => ?_
  unfold newCell
  rw [mergedAt_eq hi]
  split
  · rfl
  · split <;> rfl

theorem sideCell_eq (c : SheetCell) {i : Nat} (hi : i < t.names.length) :
    sideCell t.ctx t.unit c i = if t.InConflict i then some c else none := by
  unfold sideCell
  rw [mergedAt_eq hi]
  split
  · rfl
  · split <;> rfl

theorem other_enters :
    Enters t.names (fun i => if t.InConflict i then some (t.remoteCell i) else none)
    t.values.conflictedValue := by
  refine (inLine.valuesOf_enters t.unit).others.congr fun i hi => ?_
  rw [sideCell_eq _ hi]
  exact congrArg (fun c => if t.InConflict i then some c else none) (cellAt_eq t.remote i t.rRow)

theorem parent_enters :
    Enters t.names (fun i => if t.InConflict i then some (t.pivotCell i) else none)
    t.values.conflictedParentValue := by
  refine (inLine.valuesOf_enters t.unit).parents.congr fun i hi => ?_
  rw [sideCell_eq _ hi]
  exact congrArg (fun c => if t.InConflict i then some c else none) (cellAt_eq t.pivot i t.pRow)

theorem cond_enters :
    Enters t.names (fun i => some (t.localCell i)) (rowCond t.ctx t.lRow 0 t.ctx.colAccum []) :=
  (inLine.rowCond_enters t.lRow).congr fun i _ => congrArg some (cellAt_eq t.locals i t.lRow)

theorem values_conflict : t.values.conflict = true := by
  obtain ⟨i, hi, hc⟩ := t.conflict
  refine (inLine.valuesOf_enters t.unit).conflict.2 ⟨i, hi, ?_⟩
  rw [mergedAt_eq hi, if_pos hc]

/-- The change as it is reported: an update, or a move. -/
def reported (t : ConflictedRow) (mode : RowChangeMode) : RowChange :=
  { rowChangeOf t.ctx t.unit t.values with mode := mode, allNames := t.names, indexes := t.indexes }

theorem change_eq : ∃ mode, (mode = .update ∨ mode = .move) ∧
    t.change? = some (t.reported mode) := by
  have hval : (rowChangeOf t.ctx t.unit t.values).val.length ≠ 0 := by
    obtain ⟨i, hi, hc⟩ := t.conflict
    intro hz
    have hget := (@value_enters t).get i hi
    rw [if_pos hc, show t.values.value = [] from List.length_eq_zero_iff.1 hz] at hget
    cases hget
  have hmerge : mergeRow t.ctx t.unit { cursor := t.merger } =
      .ok (rowStep t.ctx { cursor := t.merger } t.unit) := by
    unfold mergeRow
    rw [rowValues_eq t.all_columns.2 rfl]
    rfl
  unfold MergedRow.change?
  rw [hmerge]
  unfold rowStep emitRow
  simp only
  rw [if_neg (show t.unit.localUnit ≠ -1 from by show (t.lRow : Int) ≠ -1; omega),
    if_neg (show t.unit.remoteUnit ≠ -1 from by show (t.rRow : Int) ≠ -1; omega),
      if_pos ⟨t.updates, hval⟩]
  simp only [List.nil_append, List.getLast?_append, List.getLast?_singleton, Option.some_or,
    Option.map_some]
  have hmode : ∀ b : Bool, (if b = true then RowChangeMode.move else RowChangeMode.update) =
    .update ∨
      (if b = true then RowChangeMode.move else RowChangeMode.update) = .move := by decide
  exact ⟨_, hmode _, rfl⟩

/-! ## The column of the merge -/

/-- The rows with one more column: in the last row of the header its name, elsewhere a fresh
cell. -/
def withMerge (t : ConflictedRow) : List (List SheetCell) :=
  let rows := t.rows.map fun row => row ++ [t.zero]
  match t.header with
  | 0 => rows
  | k + 1 =>
    rows.modify k fun row => row.modify t.names.length fun c => { c with text := "_MERGE_" }

theorem local_length : (t.locals.row t.lRow).length = t.names.length :=
  (t.locals.row_length t.local_row.1).trans t.local_row.2

/-- The other rows of a sheet with the column of the merge. -/
structure OtherRows (t : ConflictedRow) (others : List (List SheetCell)) : Prop where
  cells : others.map (fun row => row.take t.names.length) = t.above ++ t.below
  width : ∀ row ∈ others, row.length = t.names.length + 1
  unmarked : ∀ row ∈ others.drop t.header, row.getD t.names.length t.zero = t.zero

theorem modify_append_left {α : Type} (f : α → α) {a b : List α} {k : Nat} (h : k < a.length) :
    (a ++ b).modify k f = a.modify k f ++ b := by
  induction a generalizing k with
  | nil => cases h
  | cons x a ih =>
    cases k with
    | zero => rfl
    | succ k =>
      rw [List.cons_append, List.modify_succ_cons, ih (Nat.lt_of_succ_lt_succ h),
        List.modify_succ_cons, List.cons_append]

/-- The other rows, each with a fresh cell. -/
theorem otherRows_fresh : OtherRows t ((t.above ++ t.below).map fun row => row ++ [t.zero]) := by
  refine ⟨?_, fun row hrow => ?_, fun row hrow => ?_⟩
  · rw [List.map_map]
    conv_rhs => rw [← List.map_id (t.above ++ t.below)]
    refine List.map_congr_left fun row hrow => ?_
    rw [Function.comp, ← t.rect row hrow, List.take_left]
    rfl
  · obtain ⟨old, hold, rfl⟩ := List.mem_map.1 hrow
    rw [List.length_append, t.rect old hold]
    rfl
  · obtain ⟨old, hold, rfl⟩ := List.mem_map.1 (List.mem_of_mem_drop hrow)
    rw [← t.rect old hold, List.getD_append_right _ _ _ _ (Nat.le_refl _), Nat.sub_self]
    rfl

/-- A name in the new column of a header row makes no difference. -/
theorem OtherRows.named {others : List (List SheetCell)} (h : OtherRows t others) {k : Nat}
    (hk : k < t.header) (f : SheetCell → SheetCell) :
    OtherRows t (others.modify k fun row => row.modify t.names.length f) := by
  refine ⟨?_, fun row hrow => ?_, ?_⟩
  · rw [← h.cells]
    refine List.ext_getElem? fun i => ?_
    rw [List.getElem?_map, List.getElem?_map, List.getElem?_modify]
    cases others[i]? with
    | none => rfl
    | some row =>
      simp only [Option.map_eq_map, Option.map_some, Option.some.injEq]
      split
      · rw [List.take_modify, List.modify_eq_self]
        exact List.length_take_le _ _
      · rfl
  · obtain ⟨i, hi⟩ := List.mem_iff_getElem?.1 hrow
    rw [List.getElem?_modify] at hi
    obtain ⟨old, hold, rfl⟩ := Option.map_eq_some_iff.1 hi
    have hlen := h.width old (List.mem_of_getElem? hold)
    split
    · rw [List.length_modify]
      exact hlen
    · exact hlen
  · rw [List.drop_modify_of_lt _ _ _ _ hk]
    exact h.unmarked

theorem withMerge_split : ∃ a b, t.withMerge = a ++ (t.locals.row t.lRow ++ [t.zero]) :: b ∧
    a.length = t.above.length ∧ b.length = t.below.length ∧ OtherRows t (a ++ b) := by
  have hrows : (t.rows.map fun row => row ++ [t.zero]) = (t.above.map fun row => row ++ [t.zero]) ++
      (t.locals.row t.lRow ++ [t.zero]) :: t.below.map fun row => row ++ [t.zero] := by
    show List.map _ (t.above ++ _ :: t.below) = _
    rw [List.map_append, List.map_cons]
  have hfresh := @otherRows_fresh t
  rw [List.map_append] at hfresh
  unfold withMerge
  rw [hrows]
  cases hh : t.header with
  | zero => exact ⟨_, _, rfl, List.length_map _, List.length_map _, hfresh⟩
  | succ k =>
    have hk : k < (t.above.map fun row => row ++ [t.zero]).length := by
      have := t.below_header.1
      rw [List.length_map]
      omega
    have hnamed := hfresh.named (show k < t.header by omega) fun c => { c with text := "_MERGE_" }
    rw [modify_append_left _ hk] at hnamed
    refine ⟨_, _, modify_append_left _ hk, ?_, List.length_map _, hnamed⟩
    rw [List.length_modify, List.length_map]

/-! ## The patcher of the merge -/

/-- The cursor of the patcher is at the place. -/
theorem placeOf_place : TypedSheet.placeOf (t.rows.take t.place) (t.rows.drop t.place) =
    if t.place = t.rows.length then -1 else (t.place : Int) := by
  have hle := t.place_le
  unfold TypedSheet.placeOf
  rw [List.length_take_of_le hle]
  by_cases h : t.place = t.rows.length
  · rw [if_pos h, if_pos (by rw [h, List.drop_length])]
  · rw [if_neg h, if_neg (fun hnil => h (Nat.le_antisymm hle (List.drop_eq_nil_iff.1 hnil)))]

theorem rows_rect : ∀ row ∈ t.rows, row.length = t.names.length := by
  intro row hrow
  rcases List.mem_append.1 hrow with h | h
  · exact t.rect row (List.mem_append_left _ h)
  · rcases List.mem_cons.1 h with rfl | h
    · exact local_length
    · exact t.rect row (List.mem_append_right _ h)

theorem target_eq :
    ∃ p, t.target? =
    some { patcher := p, schema := ⟨t.names, t.kinds, t.hh, t.aligned⟩, external := t.external } ∧
    SheetPatcher.Follows t.names t.assumeHeader p ⟨t.rows.take t.place, t.rows.drop t.place⟩ ∧
    p.sheet.zero = t.zero := by
  obtain ⟨p, hp, hfol, hzero⟩ := SheetPatcher.attach_follows t.names_nodup t.usable
    (show (⟨t.rows, t.names.length, t.zero⟩ : TypedSheet SheetCell).w = t.names.length
      from rfl) rows_rect t.assumeHeader
  unfold MergedRow.target?
  rw [hp]
  refine ⟨_, rfl, hfol.moved rfl ?_ ?_ placeOf_place.symm hfol.unmarked, hzero⟩
  · rw [Zipper.items_mk, List.take_append_drop, hfol.arr, Zipper.items_atEnd]
  · rw [Zipper.items_mk, List.take_append_drop]
    exact rows_rect

/-- A merging patcher on a sheet with the column of the merge. -/
structure Widened (t : ConflictedRow) (q : MergingPatcher)
    (rows : List (List SheetCell)) : Prop where
  sheet : q.patcher.sheet = ⟨rows, t.names.length + 1, t.zero⟩
  knows : SheetPatcher.Knows q.patcher t.names
  unmarked : SheetPatcher.Unmarked q.patcher.activeRow
  schema : q.patcher.schema = !t.external
  cursor : q.patcher.rowCursor = if t.place = t.rows.length then -1 else (t.place : Int)
  conflictColumn : q.conflictColumn = t.names.length
  columns : q.schema.columns = t.names ++ ["_MERGE_"]
  hh : q.schema.hh = t.hh
  external : q.external = t.external

/-- Where the name of the new column goes. -/
theorem headerRow_eq {poly : PolySheet} (hh : poly.schema.hh = t.hh)
    (he : poly.external = t.external) :
    poly.headerRow MergingPatcher.mergeInfo = if t.header = 0 then none
    else some (t.header - 1) := by
  unfold PolySheet.headerRow MergedRow.header
  rw [hh, he]
  cases t.external with
  | true => simp
  | false =>
    simp only [MergingPatcher.mergeInfo, ColumnInfo.named, true_and, Bool.false_eq_true, if_false]
    by_cases hz : t.hh = 0
    · rw [if_neg (by omega), if_pos hz]
    · rw [if_pos (by omega), if_neg hz]
      congr 1
      omega

/-- The sheet with its schema, once it has the column. -/
theorem insertColumn_eq {sheet : TypedSheet SheetCell}
    (h : sheet = ⟨t.rows, t.names.length, t.zero⟩) :
    ∃ poly : PolySheet, PolySheet.insertColumn
        { sheet := sheet, schema := ⟨t.names, t.kinds, t.hh, t.aligned⟩, external := t.external }
          (-1)
        MergingPatcher.mergeInfo = some (poly, (t.names.length : Int)) ∧
      poly.sheet = ⟨t.withMerge, t.names.length + 1, t.zero⟩ ∧
        poly.schema.columns = t.names ++ ["_MERGE_"] ∧
      poly.schema.hh = t.hh := by
  have hsheet : sheet.insertColumn (-1) =
      (⟨t.rows.map fun row => row ++ [t.zero], t.names.length + 1, t.zero⟩,
        (t.names.length : Int)) := by
    rw [h]
    unfold TypedSheet.insertColumn
    rw [if_neg (by simp only; omega), if_neg (by decide)]
    rfl
  have hbelow := t.below_header.1
  unfold PolySheet.insertColumn SimpleSheetSchema.insertColumn
  simp only [hsheet, if_true]
  rw [if_neg (by omega), if_neg (fun h => h rfl)]
  unfold PolySheet.postApplyInfo
  rw [headerRow_eq rfl rfl]
  unfold withMerge
  cases hk : t.header with
  | zero => exact ⟨_, rfl, rfl, rfl, rfl⟩
  | succ k =>
    have hin : k < (t.rows.map fun row => row ++ [t.zero]).length := by
      unfold MergedRow.rows
      rw [List.length_map, List.length_append]
      omega
    rw [if_neg (by omega)]
    exact ⟨_, congrArg (Option.map _) (if_pos hin), rfl, rfl, rfl⟩

theorem handleConflicts_eq {p : SheetPatcher} {z : Zipper (List SheetCell)}
    (hfol : SheetPatcher.Follows t.names t.assumeHeader p z) (hitems : z.items = t.rows)
    (hzero : p.sheet.zero = t.zero)
    (hcursor : p.rowCursor = if t.place = t.rows.length then -1 else (t.place : Int)) :
    ∃ q, MergingPatcher.handleConflicts
        { patcher := p, schema := ⟨t.names, t.kinds, t.hh, t.aligned⟩, external := t.external } =
          some (q, true) ∧
      Widened t q t.withMerge := by
  have hsheet : p.sheet = ⟨t.rows, t.names.length, t.zero⟩ := by
    rw [← hitems, ← hfol.arr, ← hfol.width, ← hzero]
  obtain ⟨poly, hinsert, hpsheet, hcolumns, hhh⟩ := insertColumn_eq hsheet
  unfold MergingPatcher.handleConflicts
  simp only [Bool.false_eq_true, if_false, List.not_mem_nil]
  rw [show MergingPatcher.poly
    { patcher := p, schema := ⟨t.names, t.kinds, t.hh, t.aligned⟩, external := t.external } =
      { sheet := p.sheet, schema := ⟨t.names, t.kinds, t.hh, t.aligned⟩, external := t.external }
      from rfl, hinsert,
    Option.map_some, decide_eq_true (show (t.names.length : Int) ≠ -1 by omega)]
  exact ⟨_, rfl, hpsheet, ⟨hfol.knows.nodup, hfol.knows.found, hfol.knows.others⟩, hfol.unmarked,
    rfl, hcursor, rfl, hcolumns, hhh, rfl⟩

/-! ## The marks -/

theorem localCell_getElem? {i : Nat} (hi : i < t.names.length) :
    (t.locals.row t.lRow ++ [t.zero])[i]? = some (t.localCell i) := by
  have hlen := @local_length t
  rw [List.getElem?_append_left (by omega), List.getElem?_eq_getElem (by omega)]
  exact congrArg some (List.getD_eq_getElem _ _ _).symm

theorem local_ne_remote {i : Nat} (h : t.InConflict i) : t.localCell i ≠ t.remoteCell i := by
  intro he
  have hno := h.1
  rw [he, sameCell_refl] at hno
  cases hno

/-- The marked row, and its cell in the column of the merge. -/
theorem markRow_eq {p : SheetPatcher} (hk : SheetPatcher.Knows p t.names) :
    MergingPatcher.markRow t.names.length (p.byCol t.values.value)
    (p.byCol t.values.conflictedValue)
        (p.byCol t.values.conflictedParentValue) (List.range (t.names.length + 1))
          (t.locals.row t.lRow ++ [t.zero]) =
      t.marked ++ [⟨"CONFLICT", false⟩] := by
  have hlen := @local_length t
  have hmlen : t.marked.length = t.names.length := by
    unfold MergedRow.marked
    rw [List.length_map, List.length_range]
  have hv := @value_enters t
  have ho := @other_enters t
  have hp := @parent_enters t
  refine List.ext_getElem? fun i => ?_
  rcases Nat.lt_trichotomy i t.names.length with hi | rfl | hi
  · rw [MergingPatcher.markRow_getElem? _ _ _ _ (by omega), localCell_getElem? hi, Option.map_some,
      if_pos (List.mem_range.2 (by omega)), List.getElem?_append_left (by omega)]
    unfold MergedRow.marked MergingPatcher.markedCell
    rw [List.getElem?_map, List.getElem?_range hi, hk.byCol_get? hv.nodup hi,
      hk.byCol_get? ho.nodup hi,
      hk.byCol_get? hp.nodup hi, hv.get i hi, ho.get i hi, hp.get i hi, Option.map_some]
    by_cases hc : t.InConflict i
    · simp only [if_pos hc, Option.map_some, Option.getD_some]
      rw [if_pos (local_ne_remote hc)]
    · by_cases hr : t.RemoteOnly i
      · simp only [if_neg hc, if_pos hr, Option.map_some, Option.map_none, Option.getD_none, ne_eq,
          not_true_eq_false, if_false]
      · simp only [if_neg hc, if_neg hr, Option.map_none]
  · obtain ⟨j, hj, hc⟩ := t.conflict
    have hany :
      ((List.range (t.names.length + 1)).any fun k => ((p.byCol t.values.value).get? k).isSome) =
      true := by
      rw [List.any_eq_true]
      refine ⟨j, List.mem_range.2 (by omega), ?_⟩
      rw [hk.byCol_get? hv.nodup hj, hv.get j hj, if_pos hc]
      rfl
    rw [MergingPatcher.markRow_conflictColumn _ _ _ _ (hk.byCol_none _ (Nat.le_refl _)), hany,
      List.getElem?_append_right (by omega), List.getElem?_append_right (by omega), hlen,
        hmlen, Nat.sub_self]
    rfl
  · rw [List.getElem?_eq_none, List.getElem?_eq_none]
    · rw [List.length_append, hmlen, List.length_singleton]
      omega
    · rw [MergingPatcher.markRow_length, List.length_append, hlen, List.length_singleton]
      omega

/-- **The row is written down**: its conflicts, and nothing that remote alone changed. -/
theorem Widened.markChanges {q : MergingPatcher} {a b : List (List SheetCell)}
    (h : Widened t q (a ++ (t.locals.row t.lRow ++ [t.zero]) :: b)) (mode : RowChangeMode) :
    ∃ q', q.markChanges (t.reported mode) a.length = some q' ∧
      q'.patcher.sheet = ⟨a ++ (t.marked ++ [⟨"CONFLICT", false⟩]) :: b,
        t.names.length + 1, t.zero⟩ ∧
      q'.schema = q.schema ∧ q'.external = q.external := by
  have hw : q.patcher.sheet.width = t.names.length + 1 := by rw [h.sheet]; rfl
  unfold MergingPatcher.markChanges
  simp only
  rw [hw, if_neg]
  · obtain ⟨init, hinit⟩ := MergingPatcher.separator_found
      ((List.range (t.names.length + 1)).map fun c => (q.patcher.sheet.cell c a.length).text)
    rw [hinit, Option.map_some]
    refine ⟨_, rfl, ?_, rfl, rfl⟩
    show (List.range (t.names.length + 1)).foldl
      (MergingPatcher.markCell q.conflictColumn.toNat _ _ _ a.length)
      q.patcher.sheet = _
    rw [MergingPatcher.foldl_markCell, h.sheet, h.conflictColumn, Int.toNat_natCast]
    simp only
    rw [SheetPatcher.Follows.modify_append]
    congr 2
    exact congrArg (· :: b) (markRow_eq h.knows)
  · obtain ⟨i, hi, hc⟩ := t.conflict
    intro hall
    have hnone := List.all_eq_true.1 hall i (List.mem_range.2 (by omega))
    have hv := @value_enters t
    have hsome :
      (q.patcher.byCol (t.reported mode).val).get? i = some (t.names[i], t.localCell i) := by
      show (q.patcher.byCol t.values.value).get? i = _
      rw [h.knows.byCol_get? hv.nodup hi, hv.get i hi, if_pos hc]
      rfl
    rw [hsome] at hnone
    cases hnone

/-! ## The row in its place -/

/-- A row that is moved, or stays, is found between the other rows, below the header. -/
theorem moveRow_place {s : TypedSheet SheetCell} {a b : List (List SheetCell)} {x : List SheetCell}
    (h : s.arr = a ++ x :: b) {place lower : Nat} (hp : place ≤ s.arr.length)
    (ha : lower ≤ a.length) (hl : lower ≤ place) :
    ∃ a' b', s.moveRow a.length (if place = s.arr.length then -1 else (place : Int)) =
      ({ s with arr := a' ++ x :: b' }, (a'.length : Int)) ∧ a' ++ b' = a ++ b ∧
      lower ≤ a'.length := by
  have hlen : s.arr.length = a.length + (b.length + 1) := by
    rw [h, List.length_append, List.length_cons]
  by_cases hle : place ≤ a.length
  · -- the row stands behind the place
    have hsplit : s.arr = a.take place ++ (a.drop place ++ x :: b) := by
      rw [h, ← List.append_assoc, List.take_append_drop]
    have htake : (a.take place).length = place := List.length_take_of_le hle
    have hmove := TypedSheet.moveRow_forth hsplit
    rw [List.take_append_drop, TypedSheet.placeOf, if_neg (by simp), htake] at hmove
    refine ⟨a.take place, a.drop place ++ b, ?_, ?_, by omega⟩
    · rw [if_neg (by omega), hmove, htake]
    · rw [← List.append_assoc, List.take_append_drop]
  · -- it stands before it
    have hsplit :
      s.arr = a ++ x :: b.take (place - a.length - 1) ++ b.drop (place - a.length - 1) := by
      rw [h, List.append_assoc, List.cons_append, List.take_append_drop]
    have htake : (b.take (place - a.length - 1)).length = place - a.length - 1 :=
      List.length_take_of_le (by omega)
    have hmove := TypedSheet.moveRow_back hsplit
    have hplace :
      TypedSheet.placeOf (a ++ x :: b.take (place - a.length - 1)) (b.drop (place - a.length - 1)) =
        if place = s.arr.length then -1 else (place : Int) := by
      unfold TypedSheet.placeOf
      rw [List.length_append, List.length_cons, htake]
      by_cases hend : place = s.arr.length
      · rw [if_pos hend, if_pos (List.drop_eq_nil_iff.2 (by omega))]
      · rw [if_neg hend, if_neg (fun hnil => hend (by have := List.drop_eq_nil_iff.1 hnil; omega))]
        omega
    rw [hplace] at hmove
    refine ⟨a ++ b.take (place - a.length - 1), b.drop (place - a.length - 1), ?_, ?_, ?_⟩
    · rw [hmove]
    · rw [List.append_assoc, List.take_append_drop]
    · rw [List.length_append]
      omega

theorem settle_eq (p : SheetPatcher) {change : RowChange} (h : change.sequential = true) :
    ∃ activeRow, p.settle change = { p with activeRow := activeRow } ∧
      (SheetPatcher.Unmarked p.activeRow → SheetPatcher.Unmarked activeRow) := by
  unfold SheetPatcher.settle
  simp only [h, if_true]
  split
  · exact ⟨_, rfl, fun hun => hun.resize _ _⟩
  · exact ⟨_, rfl, id⟩

/-- The conditions single out the local row. -/
theorem agrees_take_iff {row : List SheetCell} (hrow : t.names.length ≤ row.length) :
    RowChange.agrees t.names (rowCond t.ctx t.lRow 0 t.ctx.colAccum []) (row.take t.names.length) =
    true ↔
      row.take t.names.length = t.locals.row t.lRow :=
  (@cond_enters t).agrees_iff local_length (List.length_take_of_le hrow)

theorem OtherRows.take_mem {others : List (List SheetCell)} (h : OtherRows t others)
    {row : List SheetCell}
    (hrow : row ∈ others) : row.take t.names.length ∈ t.above ++ t.below := by
  rw [← h.cells]
  exact List.mem_map.2 ⟨row, hrow, rfl⟩

theorem Widened.matchRow {q : MergingPatcher} {a b : List (List SheetCell)}
    (h : Widened t q (a ++ (t.locals.row t.lRow ++ [t.zero]) :: b)) (ho : OtherRows t (a ++ b))
    (mode : RowChangeMode) :
    q.patcher.matchRow (q.patcher.byCol (t.reported mode).cond) = (a.length : Int) := by
  have hlen := @local_length t
  have hwide : ∀ row ∈ q.patcher.sheet.arr, t.names.length ≤ row.length := by
    intro row hrow
    rw [h.sheet] at hrow
    rcases List.mem_append.1 hrow with hrow | hrow
    · rw [ho.width row (List.mem_append_left _ hrow)]
      omega
    · rcases List.mem_cons.1 hrow with rfl | hrow
      · rw [List.length_append, hlen]
        omega
      · rw [ho.width row (List.mem_append_right _ hrow)]
        omega
  have hreads : SheetPatcher.Reads q.patcher t.names :=
    ⟨h.knows, by rw [h.sheet]; exact Nat.le_succ _, hwide, h.unmarked⟩
  have harr : q.patcher.sheet.arr = a ++ (t.locals.row t.lRow ++ [t.zero]) :: b := by rw [h.sheet]
  have hcond := @cond_enters t
  have htake : (t.locals.row t.lRow ++ [t.zero]).take t.names.length = t.locals.row t.lRow := by
    rw [← hlen, List.take_left]
  refine hreads.matchRow_first hcond.nodup harr ?_ (fun row hrow => ?_) fun hs => ?_
  · exact (agrees_take_iff (by rw [List.length_append]; omega)).2 htake
  · rw [← Bool.not_eq_true]
    intro hag
    have heq :=
      (agrees_take_iff (hwide row (by rw [harr]; exact List.mem_append_left _ hrow))).1 hag
    exact (t.apart _ (ho.take_mem (List.mem_append_left _ hrow))).1 heq
  · rw [h.schema, Bool.not_eq_true'] at hs
    by_contra hno
    refine (t.not_header hs).1 (List.ext_getElem ?_ fun i h1 h2 => ?_)
    · rw [List.length_map, hlen]
    · rw [List.getElem_map]
      by_contra hne
      refine hno ⟨i, h2, _, hcond.get i h2, fun he => hne ?_⟩
      rw [← he]
      exact congrArg SheetCell.text (List.getD_eq_getElem _ _ _).symm

/-- The sheet with the conflict in it. -/
structure Written (t : ConflictedRow) (q : MergingPatcher)
    (a b : List (List SheetCell)) : Prop where
  sheet :
    q.patcher.sheet = ⟨a ++ (t.marked ++ [⟨"CONFLICT", false⟩]) :: b, t.names.length + 1, t.zero⟩
  columns : q.schema.columns = t.names ++ ["_MERGE_"]
  hh : q.schema.hh = t.hh
  external : q.external = t.external
  others : OtherRows t (a ++ b)
  below_header : t.header ≤ a.length

/-- A conflict, once the column is there: an update in place, or a move. -/
theorem Widened.written {q : MergingPatcher} {a b : List (List SheetCell)}
    (h : Widened t q (a ++ (t.locals.row t.lRow ++ [t.zero]) :: b)) (ho : OtherRows t (a ++ b))
    (ha : a.length = t.above.length) (hb : b.length = t.below.length) {mode : RowChangeMode}
    (hmode : mode = .update ∨ mode = .move) : ∃ r a' b', Written t r a' b' ∧
      (mode = .update → ∃ ok, q.updateRow (t.reported mode) a.length = some (r, ok)) ∧
      (mode = .move → ∃ ok, q.moveRow (t.reported mode) a.length = some (r, ok)) := by
  have hbelow : t.header ≤ a.length := by rw [ha]; exact t.below_header.1
  rcases hmode with rfl | rfl
  · obtain ⟨q', hq', hsheet, hschema, hext⟩ := h.markChanges .update
    refine ⟨{ q' with patcher := { q'.patcher with rowCursor := q'.patcher.after a.length } }, a, b,
      ⟨hsheet, by rw [hschema]; exact h.columns, by rw [hschema]; exact h.hh,
        hext.trans h.external, ho, hbelow⟩,
      fun _ => ⟨true, ?_⟩, fun hno => (by cases hno)⟩
    unfold MergingPatcher.updateRow
    rw [if_neg (by omega), Int.toNat_natCast, hq']
    rfl
  · have harr : q.patcher.sheet.arr = a ++ (t.locals.row t.lRow ++ [t.zero]) :: b := by rw [h.sheet]
    have hrows : t.rows.length = q.patcher.sheet.arr.length := by
      show (t.above ++ _ :: t.below).length = _
      rw [harr, List.length_append, List.length_append, List.length_cons, List.length_cons, ha, hb]
    obtain ⟨a', b', hmove, hsame, hle⟩ :=
      moveRow_place harr (by rw [← hrows]; exact t.place_le) hbelow t.below_header.2
    have hmoved : Widened t
        { q with patcher := { q.patcher with
            sheet := { q.patcher.sheet with arr := a' ++ (t.locals.row t.lRow ++ [t.zero]) :: b' }
            activeRow := (q.patcher.activeRow.moveRow a.length q.patcher.rowCursor).1 } }
        (a' ++ (t.locals.row t.lRow ++ [t.zero]) :: b') :=
      ⟨by rw [h.sheet], ⟨h.knows.nodup, h.knows.found, h.knows.others⟩,
        h.unmarked.moveRow _ _, h.schema, h.cursor, h.conflictColumn, h.columns, h.hh, h.external⟩
    obtain ⟨q', hq', hsheet, hschema, hext⟩ := hmoved.markChanges .move
    refine ⟨{ q' with patcher := { q'.patcher with rowCursor := q'.patcher.after a'.length } }, a',
      b',
      ⟨hsheet, by rw [hschema]; exact h.columns, by rw [hschema]; exact h.hh, hext.trans h.external,
        by rw [hsame]; exact ho, hle⟩,
      fun hno => (by cases hno), fun _ => ⟨false, ?_⟩⟩
    have hmove' : q.patcher.sheet.moveRow a.length q.patcher.rowCursor =
        ({ q.patcher.sheet with arr := a' ++ (t.locals.row t.lRow ++ [t.zero]) :: b' },
          (a'.length : Int)) := by
      rw [h.cursor, hrows]
      exact hmove
    unfold MergingPatcher.moveRow
    rw [if_neg (by omega)]
    simp only
    rw [hmove']
    simp only
    rw [if_neg (by omega), Int.toNat_natCast]
    exact congrArg (Option.map fun q : MergingPatcher =>
      ({ q with patcher := { q.patcher with rowCursor := q.patcher.after a'.length } }, false)) hq'

theorem named_follows {p : SheetPatcher} {z : Zipper (List SheetCell)}
    (h : SheetPatcher.Follows t.names t.assumeHeader p z) (mode : RowChangeMode) :
    ∃ p', p.named (t.reported mode) = some p' ∧ SheetPatcher.Follows t.names t.assumeHeader p' z ∧
      p'.sheet = p.sheet := by
  unfold SheetPatcher.named
  split
  · exact ⟨p, rfl, h, rfl⟩
  · exact h.declareNames

/-- **The merge writes the conflict down.** -/
theorem written_eq : ∃ q a b, t.written? = some q ∧ Written t q a b := by
  obtain ⟨mode, hmode, hchange⟩ := @change_eq t
  obtain ⟨p, htarget, hfol, hzero⟩ := @target_eq t
  obtain ⟨p1, hnamed, hfol1, hsheet1⟩ := named_follows hfol mode
  have hitems : Zipper.items ⟨t.rows.take t.place, t.rows.drop t.place⟩ = t.rows := by
    rw [Zipper.items_mk, List.take_append_drop]
  obtain ⟨q, hready, hwide⟩ := handleConflicts_eq hfol1 hitems (by rw [hsheet1]; exact hzero)
    (hfol1.cursor.trans placeOf_place)
  obtain ⟨a, b, hsplit, ha, hb, hothers⟩ := @withMerge_split t
  rw [hsplit] at hwide
  obtain ⟨activeRow, hsettle, hun⟩ :=
    settle_eq q.patcher (show (t.reported mode).sequential = true from rfl)
  have hsettled : Widened t { q with patcher := q.patcher.settle (t.reported mode) }
      (a ++ (t.locals.row t.lRow ++ [t.zero]) :: b) := by
    rw [hsettle]
    exact ⟨hwide.sheet, ⟨hwide.knows.nodup, hwide.knows.found, hwide.knows.others⟩,
      hun hwide.unmarked, hwide.schema,
      hwide.cursor, hwide.conflictColumn, hwide.columns, hwide.hh, hwide.external⟩
  have hmatch := hsettled.matchRow hothers mode
  obtain ⟨r, a', b', hwritten, hupdate, hmove⟩ := hsettled.written hothers ha hb hmode
  refine ⟨r, a', b', ?_, hwritten⟩
  unfold MergedRow.written?
  rw [hchange, htarget, Option.bind_some, Option.bind_some]
  unfold MergingPatcher.changeRow
  simp only
  rw [hnamed, Option.bind_some,
    if_neg (show (t.reported mode).conflicted ≠ false from by
      rw [show (t.reported mode).conflicted = true from values_conflict]
      decide), hready, Option.bind_some, if_neg (fun h => Bool.noConfusion h)]
  simp only
  rcases hmode with rfl | rfl
  · obtain ⟨ok, hok⟩ := hupdate rfl
    show ((MergingPatcher.updateRow _ _ _).map fun r => r.1) = some r
    rw [show SheetPatcher.matchRow _ _ = (a.length : Int) from hmatch, hok]
    rfl
  · obtain ⟨ok, hok⟩ := hmove rfl
    show ((MergingPatcher.moveRow _ _ _).map fun r => r.1) = some r
    rw [show SheetPatcher.matchRow _ _ = (a.length : Int) from hmatch, hok]
    rfl

/-! ## What `resolve` reads -/

/-- A map filled column by column. -/
theorem enters_foldl {names : List String} (hn : names.Nodup) (f : Nat → Option SheetCell)
    (step : AssocMap String SheetCell → Nat → AssocMap String SheetCell)
    (hsome : ∀ m i (hi : i < names.length) c, f i = some c → step m i = m.set names[i] c)
    (hnone : ∀ m i, i < names.length → f i = none → step m i = m) :
    ∀ k ≤ names.length, Enters names (fun i => if i < k then f i else none)
    ((List.range k).foldl step []) := by
  intro k
  induction k with
  | zero => exact fun _ => Enters.nil.congr fun i _ => (if_neg (Nat.not_lt_zero i)).symm
  | succ k ih =>
    intro hk
    rw [List.range_succ, List.foldl_append, List.foldl_cons, List.foldl_nil]
    cases hf : f k with
    | none =>
      rw [hnone _ k hk hf]
      exact (ih (Nat.le_of_succ_le hk)).skip hf
    | some c =>
      rw [hsome _ k hk c hf]
      exact (ih (Nat.le_of_succ_le hk)).next hn hk hf

theorem marked_length : t.marked.length = t.names.length := by
  unfold MergedRow.marked
  rw [List.length_map, List.length_range]

theorem marked_getD {i : Nat} (hi : i < t.names.length) : t.marked.getD i SheetCell.null =
    if t.InConflict i then
    ⟨MergingPatcher.conflictText (t.pivotCell i) (t.localCell i) (t.remoteCell i), false⟩
    else t.localCell i := by
  have hlen := @marked_length t
  rw [List.getD_eq_getElem _ _ (by omega)]
  unfold MergedRow.marked
  rw [List.getElem_map, List.getElem_range]

/-- The side that a resolution takes of a conflict. -/
def chosen : Resolution → ConflictCell → SheetCell
  | .ours => ConflictCell.locals
  | .theirs => ConflictCell.remote
  | .neither => ConflictCell.pivot

theorem side_eq (R : Resolution) : BookCompare.side R.text = some (chosen R) := by
  cases R <;> rfl

/-- What a marked cell is read as. -/
theorem parse_marked (R : Resolution) {i : Nat} (hi : i < t.names.length) :
    (ConflictCell.parse (t.marked.getD i SheetCell.null)).map (chosen R) =
      if t.InConflict i then some (t.side R i) else none := by
  obtain ⟨hp, hpt⟩ := text_of_mem (t := t) (Or.inl (pivotCell_mem hi))
  obtain ⟨hl, hlt⟩ := text_of_mem (t := t) (Or.inr (Or.inl (localCell_mem hi)))
  obtain ⟨hr, -⟩ := text_of_mem (t := t) (Or.inr (Or.inr (remoteCell_mem hi)))
  rw [marked_getD hi]
  by_cases hc : t.InConflict i
  · rw [if_pos hc, if_pos hc, hp, hl, hr, parse_conflictText hpt hlt, Option.map_some,
      ← hp, ← hl, ← hr]
    cases R <;> rfl
  · rw [if_neg hc, if_neg hc, parse_plain hlt]
    rfl

/-- The update that `resolve` asks for. -/
def update (t : ConflictedRow) (R : Resolution) : RowChange :=
  resolveRow (chosen R) t.indexes (t.names ++ ["_MERGE_"]) t.names t.names.length
  (t.names.length + 1) fun x =>
    (t.marked ++ [(⟨"CONFLICT", false⟩ : SheetCell)]).getD x t.zero

theorem columns_eq (n : Nat) :
    (List.range (n + 1)).filter (fun x => decide (x ≠ n)) = List.range n := by
  rw [List.range_succ, List.filter_append, List.filter_eq_self.2]
  · simp
  · intro x hx
    have := List.mem_range.1 hx
    exact decide_eq_true (by omega)

theorem markedCell_getD {i : Nat} (hi : i < t.names.length) :
    (t.marked ++ [(⟨"CONFLICT", false⟩ : SheetCell)]).getD i t.zero =
    t.marked.getD i SheetCell.null := by
  have hlen := @marked_length t
  rw [List.getD_append _ _ _ _ (by omega), List.getD_eq_getElem _ _ (by omega),
    List.getD_eq_getElem _ _ (by omega)]

theorem onames_getD {i : Nat} (hi : i < t.names.length) :
    (t.names ++ ["_MERGE_"]).getD i "" = t.names[i] := by
  rw [List.getD_append _ _ _ _ hi, List.getD_eq_getElem _ _ hi]

theorem update_cond (R : Resolution) :
    Enters t.names (fun i => some (t.marked.getD i SheetCell.null)) (t.update R).cond := by
  unfold update resolveRow
  simp only [columns_eq]
  refine (enters_foldl t.names_nodup (fun i => some (t.marked.getD i SheetCell.null)) _
    (fun m i hi c hc => ?_)
    (fun m i hi hno => by cases hno) _ (Nat.le_refl _)).congr fun i hi => if_pos hi
  rw [onames_getD hi, markedCell_getD hi, Option.some.inj hc]

theorem update_val (R : Resolution) :
    Enters t.names (fun i => if t.InConflict i then some (t.side R i) else none)
    (t.update R).val := by
  unfold update resolveRow
  simp only [columns_eq]
  refine (enters_foldl t.names_nodup
    (fun i => (ConflictCell.parse (t.marked.getD i SheetCell.null)).map (chosen R)) _
      (fun m i hi c hc => ?_) (fun m i hi hno => ?_) _ (Nat.le_refl _)).congr fun i hi => ?_
  · rw [onames_getD hi, markedCell_getD hi]
    obtain ⟨cc, hcc, rfl⟩ := Option.map_eq_some_iff.1 hc
    rw [hcc]
  · rw [markedCell_getD hi, Option.map_eq_none_iff.1 hno]
  · rw [if_pos hi]
    exact parse_marked R hi

/-- A row that is not the one in the middle is one of the others. -/
theorem getD_mem_drop {α : Type} {a b : List α} {x d : α} {k y : Nat}
    (hk : k ≤ a.length) (hky : k ≤ y) (hy : y < (a ++ x :: b).length) (hne : y ≠ a.length) :
    (a ++ x :: b).getD y d ∈ (a ++ b).drop k := by
  rw [List.length_append, List.length_cons] at hy
  rw [List.drop_append_of_le_length hk, List.mem_append]
  by_cases hlt : y < a.length
  · rw [List.getD_append _ _ _ _ hlt, List.getD_eq_getElem _ _ hlt]
    refine Or.inl (List.mem_drop_iff_getElem.2 ⟨y - k, by omega, ?_⟩)
    congr 1
    omega
  · obtain ⟨j, rfl⟩ : ∃ j, y = a.length + 1 + j := ⟨y - a.length - 1, by omega⟩
    rw [List.getD_append_right _ _ _ _ (by omega), show a.length + 1 + j - a.length = j +
      1 by omega, List.getD_cons_succ, List.getD_eq_getElem _ _ (by omega)]
    exact Or.inr (List.getElem_mem _)

/-- The rows marked as in conflict: only this one. -/
theorem filter_range_singleton {n k : Nat} {f : Nat → Bool} (hk : k < n) (h : ∀ y < n, f y = true ↔
    y = k) : (List.range n).filter f = [k] := by
  have hcongr : (List.range n).filter f = (List.range n).filter fun y => decide (y = k) := by
    refine List.filter_congr fun y hy => ?_
    rw [Bool.eq_iff_iff, decide_eq_true_eq]
    exact h y (List.mem_range.1 hy)
  rw [hcongr, List.filter_eq, List.count_eq_one_of_mem List.nodup_range (List.mem_range.2 hk)]
  rfl

/-- **What `resolve` asks for**: the column goes, and the row is updated. -/
theorem Written.resolve_eq {q : MergingPatcher} {a b : List (List SheetCell)} (h : Written t q a b)
    (R : Resolution) : resolve R.text t.indexes q.poly = some
      [.changeName ⟨false, false, t.names ++ ["_MERGE_"]⟩,
        .changeColumn (dropColumn (t.names ++ ["_MERGE_"]) t.names),
        .changeName ⟨true, false, t.names⟩, .changeRow (t.update R), .mergeDone] := by
  have hlen := @marked_length t
  have hcolumns : q.poly.schema.columns = t.names ++ ["_MERGE_"] := h.columns
  have hsheet :
    q.poly.sheet = ⟨a ++ (t.marked ++ [⟨"CONFLICT", false⟩]) :: b, t.names.length + 1, t.zero⟩ :=
    h.sheet
  have hnames : (t.names ++ ["_MERGE_"]).filter (fun name => decide (name ≠ "_MERGE_")) =
    t.names := by
    rw [List.filter_append, List.filter_eq_self.2]
    · simp
    · exact fun name hname => decide_eq_true fun he => t.unmerged (he ▸ hname)
  have hidx : (t.names ++ ["_MERGE_"]).idxOf "_MERGE_" = t.names.length := by
    rw [List.idxOf_append_of_notMem t.unmerged, List.idxOf_cons_self, Nat.add_zero]
  have hdh : (hideHeaders q.poly).dh = t.header := by
    unfold hideHeaders MergedRow.header
    rw [show q.poly.external = t.external from h.external]
    split
    · rfl
    · show q.schema.hh.toNat = t.hh
      rw [h.hh, Int.toNat_natCast]
  have hbelow := h.below_header
  have hcell : ∀ x y, q.poly.sheet.cell x y =
      ((a ++ (t.marked ++ [⟨"CONFLICT", false⟩]) :: b).getD y []).getD x t.zero := by
    intro x y
    rw [hsheet]
    rfl
  have hrow : ∀ x, q.poly.sheet.cell x (a.length - t.header + t.header) =
      (t.marked ++ [(⟨"CONFLICT", false⟩ : SheetCell)]).getD x t.zero := by
    intro x
    rw [hcell, Nat.sub_add_cancel hbelow, List.getD_append_right _ _ _ _ (Nat.le_refl _),
      Nat.sub_self]
    rfl
  have hrows : (List.range (q.poly.sheet.height - t.header)).filter
      (fun y => decide ((q.poly.sheet.cell t.names.length (y + t.header)).text = "CONFLICT")) =
        [a.length - t.header] := by
    have hheight : q.poly.sheet.height = a.length + (b.length + 1) := by
      rw [hsheet]
      show (a ++ _ :: b).length = _
      rw [List.length_append, List.length_cons]
    refine filter_range_singleton (by omega) fun y hy => ?_
    rw [decide_eq_true_eq]
    constructor
    · intro htext
      by_contra hne
      refine t.fresh ?_
      have hmem : (a ++ (t.marked ++ [(⟨"CONFLICT", false⟩ : SheetCell)]) :: b).getD (y + t.header)
        [] ∈
          (a ++ b).drop t.header :=
        getD_mem_drop hbelow (by omega) (by rw [List.length_append, List.length_cons]; omega)
          (by omega)
      rw [hcell, h.others.unmarked _ hmem] at htext
      exact htext
    · rintro rfl
      rw [hrow, ← hlen, List.getD_append_right _ _ _ _ (Nat.le_refl _), Nat.sub_self]
      rfl
  unfold resolve
  rw [side_eq, Option.map_some]
  simp only
  rw [hcolumns, hnames, hidx, hdh, hrows, if_neg (by simp)]
  simp only [List.map_cons, List.map_nil, hrow, List.cons_append, List.nil_append]
  rw [show q.poly.sheet.width = t.names.length + 1 by rw [hsheet]; rfl]
  rfl

/-! ## The patcher that resolves -/

/-- A patcher whose sheet has these columns, and no marks of its own. -/
structure Attached (t : ConflictedRow) (names : List String) (rows : List (List SheetCell))
    (p : SheetPatcher) : Prop where
  sheet : p.sheet = ⟨rows, names.length, t.zero⟩
  active : p.activeCol = ⟨[names], names.length, ""⟩
  status : p.statusCol = ⟨[List.replicate names.length ""], names.length, ""⟩
  synonyms : p.syn2name = [] ∧ p.name2syn = []
  activeRow : p.activeRow = ⟨[], 1, ""⟩
  schema : p.schema = !t.external

namespace Attached

variable {names : List String} {rows : List (List SheetCell)} {p : SheetPatcher}

theorem columns (h : Attached t names rows p) : p.activeCol.arr = [names] ∧
    p.activeCol.w = names.length := by
  rw [h.active]
  exact ⟨rfl, rfl⟩

theorem width (h : Attached t names rows p) : p.sheet.w = names.length := by rw [h.sheet]

theorem activeCol_cell (h : Attached t names rows p) (i : Nat) :
    p.activeCol.cell i 0 = names.getD i "" := by
  rw [h.active]
  rfl

theorem updateCols (h : Attached t names rows p) (hn : names.Nodup) (hu : "---" ∉ names) :
    ∃ p', p.updateCols = some p' ∧ Attached t names rows p' ∧ SheetPatcher.Knows p' names ∧
      p'.declaredNames = p.declaredNames :=
  ⟨_, SheetPatcher.updateCols_eq h.columns h.width,
    ⟨h.sheet, h.active, h.status, h.synonyms, h.activeRow, h.schema⟩,
    SheetPatcher.updateCols_knows hn hu h.columns h.synonyms.2, rfl⟩

/-- The names are declared as they are. -/
theorem changeName (h : Attached t names rows p) (hn : names.Nodup) (hu : "---" ∉ names)
    (final constant : Bool) :
    ∃ p', p.changeName ⟨final, constant, names⟩ = some p' ∧ Attached t names rows p' ∧
      SheetPatcher.Knows p' names ∧ p'.declaredNames = true := by
  unfold SheetPatcher.changeName
  cases hd : p.declaredNames with
  | false =>
    refine ⟨_, SheetPatcher.declareNames_same h.columns h.width,
      ⟨h.sheet, h.active, h.status, h.synonyms, h.activeRow, h.schema⟩, ?_, rfl⟩
    have hknows := SheetPatcher.updateCols_knows hn hu h.columns h.synonyms.2
    exact ⟨hknows.nodup, hknows.found, hknows.others⟩
  | true =>
    have hloop : ∀ ks : List Nat, (ks.foldlM (fun (p : SheetPatcher) i =>
        let name := names.getD i ""
        let found := p.activeCol.cell i 0
        if name = found ∨ name.toList.head? = some '[' then some p
        else
          (p.matchCol name).bind fun idx =>
            (p.matchCol found).bind fun idx1 => (p.moveColumn idx idx1).map fun r => r.1) p) =
              some p := by
      intro ks
      induction ks with
      | nil => rfl
      | cons k ks ih =>
        rw [List.foldlM_cons]
        simp only
        rw [if_pos (Or.inl (h.activeCol_cell k).symm)]
        exact ih
    rw [if_pos rfl]
    unfold SheetPatcher.redeclareNames
    rw [if_neg (fun hne => hne h.width.symm), hloop, Option.bind_some]
    obtain ⟨p', hp', hatt, hknows, hd'⟩ := h.updateCols hn hu
    exact ⟨p', hp', hatt, hknows, hd'.trans hd⟩

/-- The last column goes. -/
theorem dropColumn (h : Attached t (t.names ++ ["_MERGE_"]) rows p) : ∃ p',
    (p.changeColumn (BookCompare.dropColumn (t.names ++ ["_MERGE_"]) t.names)).map (fun r => r.1) =
    some p' ∧
      Attached t t.names (rows.map fun row => row.eraseIdx t.names.length) p' ∧
      p'.declaredNames = p.declaredNames := by
  have hlen : (t.names ++ ["_MERGE_"]).length = t.names.length + 1 := by
    rw [List.length_append, List.length_singleton]
  have hlast : (t.names ++ ["_MERGE_"]).getD t.names.length "" = "_MERGE_" := by
    rw [List.getD_append_right _ _ _ _ (Nat.le_refl _), Nat.sub_self]
    rfl
  have hother : ∀ i < t.names.length, (t.names ++ ["_MERGE_"]).getD i "" ≠ "_MERGE_" := by
    intro i hi he
    rw [onames_getD hi] at he
    exact t.unmerged (he ▸ List.getElem_mem hi)
  have hsubject : (BookCompare.dropColumn (t.names ++ ["_MERGE_"]) t.names).subject =
    (t.names.length : Int) := by
    unfold BookCompare.dropColumn
    simp only [hlen]
    rw [filter_range_singleton (k := t.names.length) (Nat.lt_succ_self _)]
    · rfl
    · intro i hi
      rw [decide_eq_true_eq]
      constructor
      · intro he
        by_contra hne
        exact hother i (by omega) he
      · rintro rfl
        exact hlast
  have hindex :
    (BookCompare.dropColumn (t.names ++ ["_MERGE_"]) t.names).identityToIndex t.names.length =
      (t.names.length : Int) := by
    have hmem : (t.names.length : Int) ∈ (List.range (t.names.length + 1)).map Int.ofNat :=
      List.mem_map.2 ⟨t.names.length, List.mem_range.2 (Nat.lt_succ_self _), rfl⟩
    have hidx : ((List.range (t.names.length + 1)).map Int.ofNat).idxOf (t.names.length : Int) =
      t.names.length := by
      rw [List.range_succ, List.map_append, List.idxOf_append_of_notMem]
      · simp
      · intro hin
        obtain ⟨i, hi, he⟩ := List.mem_map.1 hin
        have := List.mem_range.1 hi
        have : (i : Int) = t.names.length := he
        omega
    unfold OrderChange.identityToIndex OrderChange.indexIn BookCompare.dropColumn
    simp only [hlen]
    rw [if_pos hmem, hidx]
  have hmatch : p.matchCol "_MERGE_" = some t.names.length := by
    unfold SheetPatcher.matchCol
    rw [h.synonyms.1, h.active, h.status]
    show (List.range (t.names ++ ["_MERGE_"]).length).find? _ = _
    rw [hlen, List.find?_range_eq_some]
    refine ⟨?_, List.mem_range.2 (Nat.lt_succ_self _), fun j hj => ?_⟩
    · rw [Bool.and_eq_true, decide_eq_true_eq, decide_eq_true_eq]
      refine ⟨hlast, ?_⟩
      show (List.replicate (t.names.length + 1) "").getD t.names.length "" ≠ "---"
      rw [List.getD_replicate _ (Nat.lt_succ_self _)]
      decide
    · rw [Bool.not_eq_true', Bool.and_eq_false_iff]
      exact Or.inl (decide_eq_false (hother j hj))
  have hgone : t.names.length ≠ 0 := by
    obtain ⟨i, hi, -⟩ := t.conflict
    omega
  have herase : ∀ {T : Type} (s : TypedSheet T), s.w = t.names.length + 1 →
    s.deleteColumn t.names.length =
      ({ s with arr := s.arr.map fun row => row.eraseIdx t.names.length, w := t.names.length },
        true) := by
    intro T s hs
    unfold TypedSheet.deleteColumn
    rw [if_neg (by omega), Int.toNat_natCast, hs, Nat.add_sub_cancel]
  have hname : SheetPatcher.nameIn (t.names ++ ["_MERGE_"]) t.names.length = some "_MERGE_" := by
    unfold SheetPatcher.nameIn
    rw [if_neg (by omega), Int.toNat_natCast, List.getElem?_append_right (Nat.le_refl _),
      Nat.sub_self]
    rfl
  have hactive : p.activeCol.w = t.names.length + 1 := by rw [h.active, hlen]
  have hstatus : p.statusCol.w = t.names.length + 1 := by rw [h.status, hlen]
  have hsheet : p.sheet.w = t.names.length + 1 := by rw [h.sheet, hlen]
  have hdropped : Attached t t.names (rows.map fun row => row.eraseIdx t.names.length)
      { p with
        sheet :=
          { p.sheet with
            arr := p.sheet.arr.map fun row => row.eraseIdx t.names.length
            w := t.names.length }
        activeCol :=
          { p.activeCol with
            arr := p.activeCol.arr.map fun row => row.eraseIdx t.names.length
            w := t.names.length }
        statusCol :=
          { p.statusCol with
            arr := p.statusCol.arr.map fun row => row.eraseIdx t.names.length
            w := t.names.length } } := by
    refine ⟨by rw [h.sheet], ?_, ?_, h.synonyms, h.activeRow, h.schema⟩
    · rw [h.active]
      simp only [List.map_cons, List.map_nil, List.eraseIdx_append_of_length_le (Nat.le_refl _),
        Nat.sub_self]
      simp
    · rw [h.status, hlen]
      simp only [List.map_cons, List.map_nil, List.eraseIdx_replicate, if_pos (Nat.lt_succ_self _),
        Nat.add_sub_cancel]
  obtain ⟨p', hp', hatt, -, hd⟩ := hdropped.updateCols t.names_nodup t.usable
  refine ⟨p', ?_, hatt, hd⟩
  show ((p.deleteCol _).map fun r => r.1) = some p'
  unfold SheetPatcher.deleteCol
  rw [hsubject, hindex]
  show Option.map _ ((SheetPatcher.nameIn (t.names ++ ["_MERGE_"]) t.names.length).bind _) = some p'
  rw [hname, Option.bind_some, hmatch, Option.bind_some]
  simp only [herase p.sheet hsheet, herase p.activeCol hactive, herase p.statusCol hstatus,
    TypedSheet.width, hgone, decide_false, Bool.false_eq_true, if_false]
  rw [Option.map_map]
  exact congrArg (Option.map _) hp'

end Attached

/-- What the row does end as: where there was no conflict, as local had it. -/
def got (t : ConflictedRow) (R : Resolution) : List SheetCell :=
  (List.range t.names.length).map fun i => if t.InConflict i then t.side R i else t.localCell i

theorem got_length (R : Resolution) : (t.got R).length = t.names.length := by
  unfold got
  rw [List.length_map, List.length_range]

theorem got_getElem? (R : Resolution) {i : Nat} (hi : i < t.names.length) :
    (t.got R)[i]? = some (if t.InConflict i then t.side R i else t.localCell i) := by
  unfold got
  rw [List.getElem?_map, List.getElem?_range hi]
  rfl

theorem patched_marked (R : Resolution) :
    RowChange.patched t.names (t.update R).val t.marked = t.got R := by
  refine (update_val R).patched_eq marked_length (got_length R) fun i h1 h2 => ?_
  have hi : i < t.names.length := by rwa [got_length] at h2
  have hmarked := marked_getD hi
  rw [List.getD_eq_getElem _ _ h1] at hmarked
  have hgot := got_getElem? R hi
  rw [List.getElem?_eq_getElem h2] at hgot
  rw [Option.some.inj hgot, hmarked]
  by_cases hc : t.InConflict i
  · simp only [if_pos hc, Option.getD_some]
  · simp only [if_neg hc, Option.getD_none]

/-- The update finds the marked row. -/
theorem Attached.update {p : SheetPatcher} {a b : List (List SheetCell)}
    (h : Attached t t.names (a ++ t.marked :: b) p)
    (hk : SheetPatcher.Knows p t.names) (hd : p.declaredNames = true)
    (hab : a ++ b = t.above ++ t.below)
    (R : Resolution) : ∃ p', (p.changeRow (t.update R)).map (fun r => r.1) = some p' ∧
      p'.sheet.arr = a ++ t.got R :: b := by
  have hmarked := @marked_length t
  have hcond := update_cond (t := t) R
  obtain ⟨activeRow, hsettle, hun⟩ := settle_eq p (show (t.update R).sequential = true from rfl)
  have hunmarked : SheetPatcher.Unmarked p.activeRow := by
    rw [h.activeRow]
    exact ⟨rfl, fun row hrow => by cases hrow⟩
  have harr : (p.settle (t.update R)).sheet.arr = a ++ t.marked :: b := by
    rw [hsettle]
    exact congrArg TypedSheet.arr h.sheet
  have hothers : ∀ row ∈ a ++ b, row.length = t.names.length ∧ row ≠ t.marked := by
    intro row hrow
    rw [hab] at hrow
    exact ⟨t.rect row hrow, (t.apart row hrow).2⟩
  have hwide : ∀ row ∈ a ++ t.marked :: b, row.length = t.names.length := by
    intro row hrow
    rcases List.mem_append.1 hrow with hrow | hrow
    · exact (hothers row (List.mem_append_left _ hrow)).1
    · rcases List.mem_cons.1 hrow with rfl | hrow
      · exact hmarked
      · exact (hothers row (List.mem_append_right _ hrow)).1
  have hknows : SheetPatcher.Knows (p.settle (t.update R)) t.names := by
    rw [hsettle]
    exact ⟨hk.nodup, hk.found, hk.others⟩
  have hreads : SheetPatcher.Reads (p.settle (t.update R)) t.names := by
    refine ⟨hknows, ?_, fun row hrow => ?_, ?_⟩
    · rw [hsettle]
      exact Nat.le_of_eq h.width.symm
    · rw [harr] at hrow
      exact Nat.le_of_eq (hwide row hrow).symm
    · rw [hsettle]
      exact hun hunmarked
  have hmatch : (p.settle (t.update R)).matchRow ((p.settle (t.update R)).byCol (t.update R).cond) =
    (a.length : Int) := by
    have hagrees : ∀ row : List SheetCell, row.length = t.names.length →
        (RowChange.agrees t.names (t.update R).cond (row.take t.names.length) = true ↔
          row = t.marked) := by
      intro row hrow
      rw [List.take_of_length_le (Nat.le_of_eq hrow)]
      exact hcond.agrees_iff hmarked hrow
    refine hreads.matchRow_first hcond.nodup harr ((hagrees _ hmarked).2 rfl)
      (fun row hrow => ?_) fun hs => ?_
    · obtain ⟨hlen, hne⟩ := hothers row (List.mem_append_left _ hrow)
      rw [← Bool.not_eq_true]
      exact fun hag => hne ((hagrees row hlen).1 hag)
    · rw [hsettle] at hs
      have hext : t.external = false := by
        rw [← Bool.not_eq_true']
        exact h.schema.symm.trans hs
      by_contra hno
      refine (t.not_header hext).2 (List.ext_getElem ?_ fun i h1 h2 => ?_)
      · rw [List.length_map, hmarked]
      · rw [List.getElem_map]
        by_contra hne
        refine hno ⟨i, h2, _, hcond.get i h2, fun he => hne ?_⟩
        rw [← he]
        exact congrArg SheetCell.text (List.getD_eq_getElem _ _ _).symm
  have hchange : p.changeRow (t.update R) = some ((p.settle (t.update R)).updateChange
      ((p.settle (t.update R)).byCol (t.update R).val)
      ((p.settle (t.update R)).matchRow ((p.settle (t.update R)).byCol (t.update R).cond))) := by
    unfold SheetPatcher.changeRow
    rw [if_pos hd, Option.bind_some]
    rfl
  rw [hchange, hmatch]
  refine ⟨_, rfl, ?_⟩
  unfold SheetPatcher.updateChange
  rw [if_neg (by omega), Int.toNat_natCast, SheetPatcher.assign_eq]
  show (p.settle (t.update R)).sheet.arr.modify a.length _ = _
  rw [harr, SheetPatcher.Follows.modify_append, hknows.assignRow_eq (update_val R).nodup hmarked,
    patched_marked]

theorem onames_nodup : (t.names ++ ["_MERGE_"]).Nodup := by
  rw [List.nodup_append]
  refine ⟨t.names_nodup, List.nodup_singleton _, fun x hx y hy he => ?_⟩
  rw [List.mem_singleton.1 hy] at he
  exact t.unmerged (he ▸ hx)

theorem onames_usable : "---" ∉ t.names ++ ["_MERGE_"] := by
  rw [List.mem_append, not_or]
  exact ⟨t.usable, by decide⟩

theorem attach_eq {q : MergingPatcher} {a b : List (List SheetCell)} (h : Written t q a b) :
    ∃ p, SheetPatcher.attach q.patcher.sheet q.schema.columns t.assumeHeader = some p ∧
      Attached t (t.names ++ ["_MERGE_"]) (a ++ (t.marked ++ [⟨"CONFLICT", false⟩]) :: b)
        { p with schema := !t.external } := by
  have hw :
    (⟨a ++ (t.marked ++ [⟨"CONFLICT", false⟩]) :: b, t.names.length + 1, t.zero⟩ :
      TypedSheet SheetCell).w = (t.names ++ ["_MERGE_"]).length := by
    rw [List.length_append]
    rfl
  rw [h.sheet, h.columns]
  unfold SheetPatcher.attach
  rw [SheetPatcher.updateCols_eq ⟨rfl, rfl⟩ hw]
  refine ⟨_, rfl, ?_, rfl, rfl, ⟨rfl, rfl⟩, rfl, rfl⟩
  rw [List.length_append]
  rfl

/-- **What is left**: the row with its conflicts resolved, between the other rows. -/
theorem resolved_eq (R : Resolution) : ∃ a b, t.resolved? R = some (a ++ t.got R :: b) ∧
    a ++ b = t.above ++ t.below := by
  obtain ⟨q, a, b, hq, hw⟩ := @written_eq t
  obtain ⟨p0, hp0, h0⟩ := attach_eq hw
  obtain ⟨p1, hp1, h1, -, hd1⟩ := h0.changeName onames_nodup onames_usable false false
  obtain ⟨p2, hp2, h2, hd2⟩ := h1.dropColumn
  obtain ⟨p3, hp3, h3, hk3, hd3⟩ := h2.changeName t.names_nodup t.usable true false
  have herase : ∀ row : List SheetCell, row.length = t.names.length + 1 →
      row.eraseIdx t.names.length = row.take t.names.length := by
    intro row hrow
    rw [List.eraseIdx_eq_take_drop_succ, List.drop_of_length_le (Nat.le_of_eq hrow),
      List.append_nil]
  have hmarked : (t.marked ++ [(⟨"CONFLICT", false⟩ : SheetCell)]).eraseIdx t.names.length =
    t.marked := by
    rw [herase, ← @marked_length t, List.take_left]
    rw [List.length_append, marked_length]
    rfl
  have hsame : (a ++ b).map (fun row => row.eraseIdx t.names.length) = t.above ++ t.below := by
    rw [← hw.others.cells]
    exact List.map_congr_left fun row hrow => herase row (hw.others.width row hrow)
  rw [List.map_append, List.map_cons, hmarked] at h3
  rw [List.map_append] at hsame
  obtain ⟨p4, hp4, harr⟩ := h3.update hk3 hd3 hsame R
  refine ⟨_, _, ?_, hsame⟩
  unfold MergedRow.resolved?
  rw [hq, Option.bind_some, hw.resolve_eq R, Option.bind_some, hp0, Option.bind_some,
    List.foldlM_cons,
    show SheetPatcher.applyEvent _ (.changeName _) = some p1 from hp1, Option.bind_eq_bind,
    Option.bind_some,
    List.foldlM_cons, show SheetPatcher.applyEvent p1 (.changeColumn _) = some p2 from hp2,
    Option.bind_eq_bind,
    Option.bind_some, List.foldlM_cons, show SheetPatcher.applyEvent p2 (.changeName _) = some p3
    from hp3, Option.bind_eq_bind, Option.bind_some, List.foldlM_cons,
    show SheetPatcher.applyEvent p3 (.changeRow _) = some p4 from hp4]
  exact congrArg some harr

/-- Where remote alone changed a cell, the row does not end as it should. -/
theorem got_eq_wanted_iff (R : Resolution) :
    t.got R = t.wanted R ↔ ∀ i < t.names.length, ¬t.RemoteOnly i := by
  have hwanted : ∀ i < t.names.length, (t.wanted R)[i]? =
      some (if t.InConflict i then t.side R i else if t.RemoteOnly i then t.remoteCell i
        else t.localCell i) := by
    intro i hi
    unfold MergedRow.wanted
    rw [List.getElem?_map, List.getElem?_range hi]
    rfl
  constructor
  · intro heq i hi hr
    have hcell := got_getElem? R hi
    rw [heq, hwanted i hi] at hcell
    have hc : ¬t.InConflict i := by
      intro hc
      have hno := hc.2.1
      rw [hr.2] at hno
      cases hno
    rw [if_neg hc, if_neg hc, if_pos hr, Option.some.injEq] at hcell
    have hsame := hr.1
    rw [hcell, sameCell_refl] at hsame
    cases hsame
  · intro hnone
    refine List.ext_getElem? fun i => ?_
    by_cases hi : i < t.names.length
    · rw [got_getElem? R hi, hwanted i hi, if_neg (hnone i hi)]
    · rw [List.getElem?_eq_none, List.getElem?_eq_none]
      · unfold MergedRow.wanted
        rw [List.length_map, List.length_range]
        omega
      · rw [got_length]
        omega

/-- Both sides changed `A`; remote alone changed `B`. -/
def mixedRow : MergedRow where
  pivot := ⟨2, [textRow ["1", "x"]], by decide, by decide⟩
  locals := ⟨2, [textRow ["2", "x"]], by decide, by decide⟩
  remote := ⟨2, [textRow ["3", "y"]], by decide, by decide⟩
  names := ["A", "B"]
  pRow := 0
  lRow := 0
  rRow := 0
  flags := {}
  merger := {}
  above := [textRow ["A", "B"]]
  below := []
  place := 2
  zero := ⟨"", false⟩
  assumeHeader := true
  kinds := [{}, {}]
  hh := 1
  external := false
  indexes := []
  aligned := by decide

def mixedConflict : ConflictedRow where
  toMergedRow := mixedRow
  names_nodup := by decide
  usable := by decide
  unmerged := by decide
  pivot_row := by decide
  local_row := by decide
  remote_row := by decide
  texts := by decide
  conflict := ⟨0, by decide, by decide⟩
  all_columns := by decide
  unresolved := rfl
  updates := by decide
  rect := by decide
  apart := by decide
  not_header := by decide
  below_header := by decide
  place_le := by decide
  fresh := by decide

end ConflictedRow

end Coopy
