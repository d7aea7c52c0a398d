import Coopy.RowReplay
import Coopy.UnchangedRemote

/-!
# Columns in line

All tables have the same columns, in the same order.  Then the column passes have nothing to do, and
the maps of a row change can be read column by column: the conditions hold the local cells, and the
values the merged cells that are new.

    InLine ctx → the maps of `rowCond` and `valuesOf` by column    (rowCond_enters, valuesOf_enters)
-/

namespace Coopy

open Lib Merger

namespace Comparison

/-- The unit of a column. -/
def column (i : Nat) : MatchUnit := ⟨i, i, i, false, .preserve⟩

@[simp] theorem column_deleted (i : Nat) : (column i).deleted = false := rfl

end Comparison

open Comparison (column column_deleted)

namespace Merger

/-! ## The column passes -/

/-- A merge of tables whose columns are in line under these names. -/
structure StateInLine (state : MergerState) (names : List String) : Prop where
  colLocal : state.colLocal = (Matching.identity names.length).toOrderResult
  colRemote : state.colRemote = (Matching.identity names.length).toOrderResult
  localNames : state.localNames = ⟨names, []⟩
  remoteNames : state.remoteNames = ⟨names, []⟩
  width : state.locals.width = names.length

theorem localUnits_columns (n : Nat) :
    OrderMerge.localUnits (Matching.identity n) = (List.range n).map column := by
  unfold OrderMerge.localUnits
  refine List.map_congr_left fun i hi => ?_
  rw [OrderMerge.unitAt_identity_remote, Matching.identity_bwd, if_pos (List.mem_range.mp hi)]
  rfl

section
variable {state : MergerState} {names : List String} (h : StateInLine state names)

include h

theorem StateInLine.colUnits_eq : colUnits state =
    some ⟨(List.range names.length).map column,
      OrderMerge.countOverlap ((List.range names.length).map column)⟩ := by
  unfold colUnits
  rw [h.colLocal, h.colRemote, ← localUnits_columns]
  exact OrderMerge.merge_identity_remote rfl rfl (Matching.identity names.length) true (by
    show _ ≤ (Matching.identity names.length).toOrderResult.blen +
      (Matching.identity names.length).toOrderResult.blen + 1
    rw [Matching.blen_toOrderResult])

theorem StateInLine.originalColNames_eq : originalColNames state = .ok names := by
  have hname : ∀ i ∈ List.range names.length,
      (⟨names, []⟩ : NameSniffer).suggestColumnName i = some (names.getD i "") := by
    intro i hi
    have hlt := List.mem_range.mp hi
    unfold NameSniffer.suggestColumnName
    rw [if_pos (by show 0 < names.length; omega), List.getElem?_eq_getElem hlt,
      List.getD_eq_getElem _ _ hlt]
  have hall : (List.range names.length).map (fun i => names.getD i "") = names := by
    refine List.ext_getElem (by simp) fun i h1 h2 => ?_
    rw [List.getElem_map, List.getElem_range, List.getD_eq_getElem _ _ h2]
  refine Merger.originalColNames_eq ?_
  rw [h.localNames, h.width, mapM_eq_some_map hname, hall]

theorem StateInLine.columnPasses_eq (indexes : AssocMap String Bool) :
    columnPasses state.flags indexes state.localNames state.remoteNames
      ((List.range names.length).map column)
      (ColState.start state.locals.width names) =
        .ok (ColState.start state.locals.width names) := by
  have hmem : ∀ u ∈ (List.range names.length).map column, ∃ i < names.length, u = column i := by
    intro u hu
    obtain ⟨i, hi, rfl⟩ := List.mem_map.mp hu
    exact ⟨i, List.mem_range.mp hi, rfl⟩
  have hdel : ∀ u ∈ (List.range names.length).map column, u.deleted = false := by
    intro u hu
    obtain ⟨i, -, rfl⟩ := hmem u hu
    rfl
  have hshuf : shuffledCols ((List.range names.length).map column) =
      (ColState.start state.locals.width names).localCols := by
    unfold shuffledCols ColState.start
    rw [List.filter_eq_self.mpr, h.width]
    · exact List.map_map
    · intro u hu
      obtain ⟨i, -, rfl⟩ := hmem u hu
      simp only [column, Bool.not_false, Bool.and_true, bne_iff_ne]
      omega
  rw [columnPasses_quiet _ _ _ _ _ hdel (fun u hu h => by obtain ⟨i, -, rfl⟩ := hmem u hu; exact h)
    hshuf]
  split
  · refine renamePass_quiet fun u hu _ => ?_
    obtain ⟨i, hi, rfl⟩ := hmem u hu
    have hname : NameSniffer.suggestColumnName ⟨names, []⟩ i = some names[i] := by
      unfold NameSniffer.suggestColumnName
      rw [if_pos (by show 0 < names.length; omega), List.getElem?_eq_getElem hi]
    rw [h.localNames, h.remoteNames]
    exact ⟨names[i], names[i], hname, hname, Or.inl rfl⟩
  · rfl

end

/-! ## One cell, with local as the pivot -/

section
variable {flags : CompareFlags} {l r : SheetCell}

theorem mergedCell_kept (hcase : flags.ignoreCase = false) (hl : l.Stored) (hr : r.Stored) :
    mergedCell flags l r l = if l = r then ⟨l, false, false⟩ else ⟨r, true, false⟩ := by
  unfold mergedCell
  rw [if_neg hl.ne_blankCell, if_neg hr.ne_blankCell, sameCell_refl, if_pos rfl]
  unfold sameCell
  rw [if_pos hcase]
  simp only [beq_iff_eq]

/-- A null of a row that is added is left out. -/
theorem mergedCell_added (hcase : flags.ignoreCase = false) (hr : r.Stored) (p : SheetCell) :
    mergedCell flags SheetCell.blankCell r p =
      if r.escaped then ⟨SheetCell.blankCell, false, false⟩ else ⟨r, true, false⟩ := by
  unfold mergedCell
  rw [if_neg, if_pos rfl]
  unfold sameCell
  rw [if_pos hcase, beq_iff_eq]
  exact hr.ne_blankCell.symm

theorem mergedCell_dropped (hl : l.Stored) (p : SheetCell) :
    mergedCell flags l SheetCell.blankCell p = ⟨l, false, false⟩ := by
  unfold mergedCell
  rw [if_neg hl.ne_blankCell, if_pos rfl, ite_self]

end

theorem cellAt_eq (sheet : DataSheet) (i y : Nat) :
    cellAt sheet i y = (sheet.row y).getD i SheetCell.null := by
  unfold cellAt DataSheet.cellSummary
  rw [if_pos ⟨Int.natCast_nonneg y, Int.natCast_nonneg i⟩]
  rfl

/-! ## The maps of a row change -/

/-- What is entered under each name, column by column. -/
structure Enters (names : List String) (f : Nat → Option SheetCell)
    (m : AssocMap String SheetCell) : Prop where
  get : ∀ i (hi : i < names.length), m.get? names[i] = f i
  nodup : m.keys.Nodup
  names : ∀ n ∈ m.keys, n ∈ names

namespace Enters

variable {names : List String} {f g : Nat → Option SheetCell} {m : AssocMap String SheetCell}

theorem nil : Enters names (fun _ => none) [] :=
  ⟨fun _ _ => rfl, List.nodup_nil, fun n hn => by cases hn⟩

theorem congr (h : Enters names f m) (hfg : ∀ i < names.length, f i = g i) : Enters names g m :=
  ⟨fun i hi => (h.get i hi).trans (hfg i hi), h.nodup, h.names⟩

theorem set (h : Enters names f m) (hn : names.Nodup) {k : Nat} (hk : k < names.length)
    (x : SheetCell) : Enters names (fun i => if i = k then some x else f i) (m.set names[k] x) := by
  refine ⟨fun i hi => ?_, AssocMap.nodup_keys_set h.nodup _ _, fun n hn => ?_⟩
  · rw [AssocMap.get?_set, h.get i hi]
    simp only [hn.getElem_inj_iff]
  · rcases AssocMap.mem_keys_set.mp hn with rfl | hn
    · exact List.getElem_mem hk
    · exact h.names n hn

theorem eq_nil (h : Enters names f m) (hf : ∀ i < names.length, f i = none) : m = [] := by
  cases m with
  | nil => rfl
  | cons e m =>
    obtain ⟨i, hi, hn⟩ := List.mem_iff_getElem.mp (h.names e.1 (by simp [AssocMap.keys]))
    have hget := h.get i hi
    rw [hf i hi, hn, AssocMap.get?_cons, if_pos rfl] at hget
    cases hget

/-- All conditions together single out a row. -/
theorem agrees_iff {x row : List SheetCell}
    (h : Enters names (fun i => some (x.getD i SheetCell.null)) m)
    (hx : x.length = names.length) (hrow : row.length = names.length) :
    RowChange.agrees names m row = true ↔ row = x := by
  rw [RowChange.agrees_iff hrow]
  constructor
  · intro hall
    refine List.ext_getElem (hrow.trans hx.symm) fun i h1 h2 => ?_
    have hi : i < names.length := by omega
    have hcell := hall i hi _ (h.get i hi)
    rw [List.getElem?_eq_getElem h1, List.getD_eq_getElem _ _ h2] at hcell
    exact Option.some.inj hcell
  · rintro rfl i hi c hc
    rw [h.get i hi] at hc
    rw [List.getElem?_eq_getElem (by omega), ← hc, List.getD_eq_getElem _ _ (by omega)]

/-- The row with the assignments made. -/
theorem patched_eq (h : Enters names f m) {row out : List SheetCell}
    (hrow : row.length = names.length) (hout : out.length = names.length)
    (hf : ∀ i (h1 : i < row.length) (h2 : i < out.length), (f i).getD row[i] = out[i]) :
    RowChange.patched names m row = out := by
  refine List.ext_getElem (by rw [RowChange.patched_length m hrow, hout]) fun i h1 h2 => ?_
  have hi : i < names.length := by omega
  have hget := RowChange.patched_getElem? m hrow hi
  rw [List.getElem?_eq_getElem h1, h.get i hi, hf i (by omega) h2] at hget
  exact Option.some.inj hget

end Enters

/-- Each column has its name, and is met under the same index on all sides. -/
structure InLine (ctx : RowContext) : Prop where
  nodup : ctx.names.Nodup
  columns : ctx.colAccum = (List.range ctx.names.length).map column
  all : ctx.flags.excludeColumns = []

section
variable {ctx : RowContext} (h : InLine ctx)

theorem range'_columns (k : Nat) {n : Nat} (hn : 0 < n) :
    (List.range' k n).map column = column k :: (List.range' (k + 1) (n - 1)).map column := by
  obtain ⟨m, rfl⟩ : ∃ m, n = m + 1 := ⟨n - 1, by omega⟩
  rw [List.range'_succ, List.map_cons, Nat.add_sub_cancel]

include h

theorem InLine.rowCond_from {lRow : Int} (hl : 0 ≤ lRow) (n : Nat) :
    ∀ (k : Nat) (f : Nat → Option SheetCell)
    (m : AssocMap String SheetCell), k + n = ctx.names.length → Enters ctx.names f m →
    Enters ctx.names (fun i => if k ≤ i then some (cellAt ctx.locals i lRow) else f i)
      (rowCond ctx lRow k ((List.range' k n).map column) m) := by
  induction n with
  | zero =>
    intro k f m hk hm
    exact hm.congr fun i hi => by rw [if_neg (by omega)]
  | succ n ih =>
    intro k f m hk hm
    rw [range'_columns k (by omega), Nat.add_sub_cancel]
    unfold rowCond
    simp only [column_deleted, Bool.false_eq_true, if_false]
    rw [if_pos ⟨hl, Int.natCast_nonneg k, trivial, by rw [h.all]; exact List.not_mem_nil⟩]
    show Enters ctx.names _
      (rowCond _ lRow (k + 1) _ (AssocMap.set m (nameAt ctx.names k) (cellAt ctx.locals k lRow)))
    rw [show nameAt ctx.names k = ctx.names[k] from List.getD_eq_getElem _ _ (by omega)]
    refine (ih (k + 1) _ _ (by omega) (hm.set h.nodup (by omega) _)).congr fun i hi => ?_
    by_cases hik : i = k
    · rw [if_neg (by omega), if_pos hik, if_pos (by omega), hik]
    · by_cases hle : k + 1 ≤ i
      · rw [if_pos hle, if_pos (by omega)]
      · rw [if_neg hle, if_neg hik, if_neg (by omega)]

/-- The conditions of a local row: all its cells. -/
theorem InLine.rowCond_enters (l : Nat) :
    Enters ctx.names (fun i => some (cellAt ctx.locals i l)) (rowCond ctx l 0 ctx.colAccum []) := by
  rw [h.columns, List.range_eq_range']
  refine (h.rowCond_from (Int.natCast_nonneg l) ctx.names.length 0 _ _
    (Nat.zero_add _) Enters.nil).congr fun i _ => ?_
  rw [if_pos (Nat.zero_le i)]

omit h in
/-- A row that local does not have is added without conditions. -/
theorem rowCond_insert (ctx : RowContext) (units : List MatchUnit) (k : Nat) :
    rowCond ctx (-1) k units [] = [] :=
  rowCond_of_neg ctx (by decide) units k []

/-- A cell that is entered: its column's name is not excluded. -/
theorem InLine.enter_eq (v : RowValues) {k : Nat} (hk : k < ctx.names.length) (m : CellMerge)
    (r p : SheetCell) : v.enter ctx.flags (nameAt ctx.names k) m r p =
      { v with
        value := v.value.set ctx.names[k] m.cell
        conflictedValue := if m.conflicted then v.conflictedValue.set ctx.names[k] r
          else v.conflictedValue
        conflictedParentValue :=
          if m.conflicted then v.conflictedParentValue.set ctx.names[k] p
            else v.conflictedParentValue } := by
  unfold RowValues.enter
  rw [h.all, if_neg List.not_mem_nil, show nameAt ctx.names k = ctx.names[k]
    from List.getD_eq_getElem _ _ hk]

end

/-- The cell that column `i` of a row enters: a new one. -/
def newCell (ctx : RowContext) (row : MatchUnit) (i : Nat) : Option SheetCell :=
  let m := mergedAt ctx row (column i)
  if m.novel then some m.cell else none

/-- A side of a conflict in column `i` of a row. -/
def sideCell (ctx : RowContext) (row : MatchUnit) (side : SheetCell) (i : Nat) : Option SheetCell :=
  let m := mergedAt ctx row (column i)
  if m.novel && m.conflicted then some side else none

/-- The maps once the first `k` columns have been met. -/
structure ValuesTo (ctx : RowContext) (row : MatchUnit) (k : Nat) (v : RowValues) : Prop where
  value : Enters ctx.names (fun i => if i < k then newCell ctx row i else none) v.value
  other :
    Enters ctx.names (fun i => if i < k then sideCell ctx row (cellAt ctx.remote i row.remoteUnit) i
      else none)
    v.conflictedValue
  parent :
    Enters ctx.names (fun i => if i < k then sideCell ctx row (cellAt ctx.pivot i row.pivotUnit) i
      else none)
    v.conflictedParentValue
  conflict : v.conflict = true ↔ ∃ i < k, (mergedAt ctx row (column i)).conflicted = true

/-- One more column, that enters nothing. -/
theorem Enters.skip {names : List String} {g : Nat → Option SheetCell} {k : Nat}
    {m : AssocMap String SheetCell}
    (h : Enters names (fun i => if i < k then g i else none) m) (hk : g k = none) :
    Enters names (fun i => if i < k + 1 then g i else none) m := by
  refine h.congr fun i _ => ?_
  by_cases hik : i = k
  · rw [if_neg (by omega), if_pos (by omega), hik, hk]
  · by_cases hlt : i < k
    · rw [if_pos hlt, if_pos (by omega)]
    · rw [if_neg hlt, if_neg (by omega)]

/-- One more column, and its entry. -/
theorem Enters.next {names : List String} {g : Nat → Option SheetCell} {k : Nat}
    {m : AssocMap String SheetCell}
    (h : Enters names (fun i => if i < k then g i else none) m) (hn : names.Nodup)
    (hlt : k < names.length) {x : SheetCell} (hk : g k = some x) :
    Enters names (fun i => if i < k + 1 then g i else none) (m.set names[k] x) := by
  refine (h.set hn hlt x).congr fun i _ => ?_
  by_cases hik : i = k
  · rw [if_pos hik, if_pos (by omega), hik, hk]
  · rw [if_neg hik]
    by_cases hlt : i < k
    · rw [if_pos hlt, if_pos (by omega)]
    · rw [if_neg hlt, if_neg (by omega)]

section
variable {ctx : RowContext} (h : InLine ctx) (row : MatchUnit)

include h

theorem InLine.valuesTo_succ {k : Nat} (hk : k < ctx.names.length) {v : RowValues}
    (hv : ValuesTo ctx row k v) : let m := mergedAt ctx row (column k)
    let v' := { v with conflict := v.conflict || m.conflicted }
    ValuesTo ctx row (k + 1)
      (if m.novel = true then v'.enter ctx.flags (nameAt ctx.names k) m
        (cellAt ctx.remote k row.remoteUnit)
        (cellAt ctx.pivot k row.pivotUnit) else v') := by
  simp only
  have hconf : (v.conflict || (mergedAt ctx row (column k)).conflicted) = true ↔
      ∃ i < k + 1, (mergedAt ctx row (column i)).conflicted = true := by
    rw [Bool.or_eq_true, hv.conflict]
    constructor
    · rintro (⟨i, hi, hc⟩ | hc)
      · exact ⟨i, by omega, hc⟩
      · exact ⟨k, by omega, hc⟩
    · rintro ⟨i, hi, hc⟩
      by_cases hik : i = k
      · exact Or.inr (hik ▸ hc)
      · exact Or.inl ⟨i, by omega, hc⟩
  have hval := hv.value
  have hoth := hv.other
  have hpar := hv.parent
  cases hnov : (mergedAt ctx row (column k)).novel with
  | false =>
    rw [if_neg (by decide)]
    have hnone : ∀ side, sideCell ctx row side k = none := fun side => by
      simp only [sideCell, hnov]; rfl
    refine ⟨hval.skip (by simp only [newCell, hnov]; rfl), ?_, ?_, hconf⟩
    · exact @Enters.skip _ (fun i => sideCell ctx row (cellAt ctx.remote i row.remoteUnit) i) k _
        hoth (hnone _)
    · exact @Enters.skip _ (fun i => sideCell ctx row (cellAt ctx.pivot i row.pivotUnit) i) k _ hpar
        (hnone _)
  | true =>
    rw [if_pos rfl, h.enter_eq _ hk]
    refine ⟨hval.next h.nodup hk (by simp only [newCell, hnov]; rfl), ?_, ?_, hconf⟩
    · cases hc : (mergedAt ctx row (column k)).conflicted with
      | false =>
        exact @Enters.skip _ (fun i => sideCell ctx row (cellAt ctx.remote i row.remoteUnit) i) k _
          hoth
            (by simp only [sideCell, hnov, hc]; rfl)
      | true =>
        exact @Enters.next _ (fun i => sideCell ctx row (cellAt ctx.remote i row.remoteUnit) i) k _
          hoth h.nodup hk _
            (by simp only [sideCell, hnov, hc]; rfl)
    · cases hc : (mergedAt ctx row (column k)).conflicted with
      | false =>
        exact @Enters.skip _ (fun i => sideCell ctx row (cellAt ctx.pivot i row.pivotUnit) i) k _
          hpar
            (by simp only [sideCell, hnov, hc]; rfl)
      | true =>
        exact @Enters.next _ (fun i => sideCell ctx row (cellAt ctx.pivot i row.pivotUnit) i) k _
          hpar h.nodup hk _
            (by simp only [sideCell, hnov, hc]; rfl)

theorem InLine.valuesOf_from (n : Nat) : ∀ (k : Nat) (v : RowValues), k + n = ctx.names.length →
    ValuesTo ctx row k v →
    ValuesTo ctx row ctx.names.length (valuesOf ctx row k ((List.range' k n).map column) v) := by
  induction n with
  | zero =>
    intro k v hk hv
    rw [← hk]
    exact hv
  | succ n ih =>
    intro k v hk hv
    have hstep := h.valuesTo_succ row (show k < ctx.names.length by omega) hv
    rw [range'_columns k (by omega), Nat.add_sub_cancel]
    unfold valuesOf
    simp only [column_deleted, Bool.false_eq_true, if_false, true_and]
    exact ih (k + 1) _ (by omega) hstep

/-- **The maps of a row**, by column. -/
theorem InLine.valuesOf_enters :
    ValuesTo ctx row ctx.names.length (valuesOf ctx row 0 ctx.colAccum {}) := by
  rw [h.columns, List.range_eq_range']
  refine h.valuesOf_from row ctx.names.length 0 {} (Nat.zero_add _) ⟨?_, ?_, ?_, ?_⟩
  · exact Enters.nil.congr fun i _ => (if_neg (Nat.not_lt_zero i)).symm
  · exact Enters.nil.congr fun i _ => (if_neg (Nat.not_lt_zero i)).symm
  · exact Enters.nil.congr fun i _ => (if_neg (Nat.not_lt_zero i)).symm
  · exact iff_of_false (by decide) fun ⟨i, hi, _⟩ => absurd hi (Nat.not_lt_zero i)

end

namespace ValuesTo

variable {ctx : RowContext} {row : MatchUnit} {v : RowValues}
    (hv : ValuesTo ctx row ctx.names.length v)

include hv

theorem values : Enters ctx.names (newCell ctx row) v.value := hv.value.congr fun _ hi => if_pos hi

theorem others : Enters ctx.names (fun i => sideCell ctx row (cellAt ctx.remote i row.remoteUnit) i)
    v.conflictedValue := hv.other.congr fun _ hi => if_pos hi

theorem parents : Enters ctx.names (fun i => sideCell ctx row (cellAt ctx.pivot i row.pivotUnit) i)
    v.conflictedParentValue := hv.parent.congr fun _ hi => if_pos hi

end ValuesTo

end Merger

end Coopy
