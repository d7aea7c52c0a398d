import Coopy.AgreedColumns
import Coopy.UnorderedScript

/-!
# Two sides that made the same edits

With the remote equal to local, under the same matchings, nothing is in conflict and
nothing is deleted or moved among local's columns.  A row or column that both sides added
has no pivot to meet at, so that the merge takes the remote's for a second one and inserts
it again.  What it writes into a row of local goes into these second columns, and is what
the row already holds in the first (`merge_agreeing`).
-/

namespace Coopy

open Lib

namespace Merger

/-! ## Units and cells -/

/-- A unit whose two sides, where both are there, are the same index. -/
structure AgreedUnit (u : MatchUnit) : Prop where
  sides : u.localUnit = u.remoteUnit ∨ u.localUnit = -1 ∨ u.remoteUnit = -1
  range : -1 ≤ u.localUnit
  undeleted : u.deleted = false
  not_dropped : u.remoteUnit = -1 → u.pivotUnit = -1

theorem agreedUnit_swept {n m : Nat} (M : Matching n m) {u : MatchUnit}
    (h : u ∈ OrderMerge.sweptUnits M M) : AgreedUnit u := by
  rcases List.mem_append.mp h with h | h
  · obtain ⟨k, -, rfl⟩ := List.mem_map.mp h
    rw [OrderMerge.unitAt_agreed]
    cases M.bwd k with
    | none => exact ⟨Or.inr (Or.inr rfl), by simp only []; omega, rfl, fun _ => rfl⟩
    | some p =>
      exact ⟨Or.inl rfl, by simp only []; omega, rfl, fun hr => absurd hr (by simp only []; omega)⟩
  · obtain ⟨r, -, -, -, rfl⟩ := OrderMerge.mem_insertsIn.mp h
    exact ⟨Or.inr (Or.inl rfl), Int.le_refl _, rfl, fun _ => rfl⟩

theorem mergedCell_no_conflict (flags : CompareFlags) {l r p : SheetCell}
    (h : l = r ∨ l = SheetCell.blankCell ∨ r = SheetCell.blankCell) :
    (mergedCell flags l r p).conflicted = false := by
  unfold mergedCell
  split
  · rfl
  · next hs =>
    split
    · split <;> rfl
    · next hl =>
      rcases h with h | h | h
      · rw [h, sameCell_refl] at hs
        exact absurd rfl hs
      · exact absurd h hl
      · rw [if_pos h]

theorem mergedCell_not_novel (flags : CompareFlags) {l r p : SheetCell} (hl : l.Stored)
    (h : l = r ∨ r = SheetCell.blankCell) : (mergedCell flags l r p).novel = false := by
  unfold mergedCell
  split
  · rfl
  · next hs =>
    rcases h with h | h
    · rw [h, sameCell_refl] at hs
      exact absurd rfl hs
    · rw [if_neg hl.ne_blankCell, if_pos h]

/-- The entries of a row are novel cells, each under the name at its column's place. -/
theorem mem_valuesOf {ctx : RowContext} {row : MatchUnit} (units : List MatchUnit)
    (hdel : ∀ u ∈ units, u.deleted = false) : ∀ (k : Nat) (v : RowValues) (e : String × SheetCell),
    e ∈ (valuesOf ctx row k units v).value → e ∈ v.value ∨
      ∃ i unit, units[i]? = some unit ∧ (mergedAt ctx row unit).novel = true ∧
        e = (nameAt ctx.names (k + i), (mergedAt ctx row unit).cell) := by
  induction units with
  | nil => exact fun k v e he => Or.inl he
  | cons unit units ih =>
    intro k v e he
    have hd := hdel unit (by simp)
    unfold valuesOf at he
    simp only [hd, true_and, Bool.false_eq_true, if_false] at he
    rcases ih (fun u hu => hdel u (List.mem_cons_of_mem _ hu)) _ _ e he with hv | ⟨i, u, hi, hnov,
      rfl⟩
    · split at hv
      · next hnov =>
        unfold RowValues.enter at hv
        split at hv
        · exact Or.inl hv
        · rcases AssocMap.mem_of_mem_set hv with rfl | hv
          · exact Or.inr ⟨0, unit, rfl, hnov, rfl⟩
          · exact Or.inl hv
      · exact Or.inl hv
    · exact Or.inr ⟨i + 1, u, hi, hnov, by rw [Nat.add_assoc, Nat.add_comm 1 i]⟩

/-! ## The rows -/

section
variable {ctx : RowContext} (hsame : ctx.remote = ctx.locals)

include hsame

theorem mergedAt_no_conflict {row unit : MatchUnit} (hr : AgreedUnit row) (hu : AgreedUnit unit) :
    (mergedAt ctx row unit).conflicted = false := by
  apply mergedCell_no_conflict
  rw [hsame]
  rcases hr.sides with h | h | h
  · rcases hu.sides with h' | h' | h'
    · exact Or.inl (by rw [h, h'])
    · exact Or.inr (Or.inl (cellAt_blank _ (Or.inr h')))
    · exact Or.inr (Or.inr (cellAt_blank _ (Or.inr h')))
  · exact Or.inr (Or.inl (cellAt_blank _ (Or.inl h)))
  · exact Or.inr (Or.inr (cellAt_blank _ (Or.inl h)))

/-- In a row of local only the cell of a second column is new, and it is the row's own. -/
theorem novel_agreed {row unit : MatchUnit} (hr : AgreedUnit row) (hu : AgreedUnit unit)
    (hl : 0 ≤ row.localUnit) (hnov : (mergedAt ctx row unit).novel = true) : unit.localUnit = -1 ∧
      (mergedAt ctx row unit).cell = cellAt ctx.locals unit.remoteUnit row.localUnit := by
  unfold mergedAt at hnov ⊢
  rw [hsame] at hnov ⊢
  by_cases hlc : unit.localUnit = -1
  · refine ⟨hlc, ?_⟩
    rw [cellAt_blank ctx.locals (Or.inr hlc)] at hnov ⊢
    rcases hr.sides with h | h | h
    · rw [← h] at hnov ⊢
      unfold mergedCell at hnov ⊢
      split
      · next hs =>
        rw [if_pos hs] at hnov
        cases hnov
      · next hs =>
        rw [if_neg hs, if_pos rfl] at hnov
        rw [if_pos rfl]
        split
        · next hesc =>
          rw [if_pos hesc] at hnov
          cases hnov
        · rfl
    · omega
    · rw [cellAt_blank ctx.locals (Or.inl h)] at hnov
      unfold mergedCell at hnov
      rw [if_pos (sameCell_refl _ _)] at hnov
      cases hnov
  · have hpos : 0 ≤ unit.localUnit := by
      have := hu.range
      omega
    have hnot : (mergedCell ctx.flags (cellAt ctx.locals unit.localUnit row.localUnit)
        (cellAt ctx.locals unit.remoteUnit row.remoteUnit)
        (cellAt ctx.pivot unit.pivotUnit row.pivotUnit)).novel = false := by
      apply mergedCell_not_novel _ (cellAt_stored _ hl hpos)
      rcases hr.sides with h | h | h
      · rcases hu.sides with h' | h' | h'
        · exact Or.inl (by rw [h, h'])
        · exact absurd h' hlc
        · exact Or.inr (cellAt_blank _ (Or.inr h'))
      · omega
      · exact Or.inr (cellAt_blank _ (Or.inl h))
    rw [hnot] at hnov
    cases hnov

variable {rows : List MatchUnit} (hrows : ∀ u ∈ rows, AgreedUnit u)
    (hcols : ∀ u ∈ ctx.colAccum, AgreedUnit u)

include hrows hcols

theorem rows_no_conflict : (rows.foldl (rowStep ctx) {}).conflicted = false := by
  apply conflicted_rows rows {} rfl
  intro u hu
  exact valuesOf_conflict _
    (fun unit hunit => mergedAt_no_conflict hsame (hrows u hu) (hcols unit hunit)) 0 {}

omit hsame hcols in
theorem rows_no_delete : ∀ c ∈ (rows.foldl (rowStep ctx) {}).rc, c.mode ≠ .delete := by
  intro c hc
  rcases mem_rows rows {} c hc with h | ⟨u, hu, cur, h⟩
  · cases h
  rcases mem_emitRow h with h | ⟨-, rfl⟩ | ⟨-, rfl | ⟨hr, hp, -⟩ | ⟨-, -, rfl⟩⟩
  · rw [h]; decide
  · exact RowChangeMode.noConfusion
  · exact RowChangeMode.noConfusion
  · exact absurd ((hrows u hu).not_dropped hr) hp
  · exact RowChangeMode.noConfusion

/-- What an update or a move writes: the row's own cells, in second columns. -/
theorem rows_cells : ∀ c ∈ (rows.foldl (rowStep ctx) {}).rc, c.mode = .update ∨ c.mode = .move →
    c.names = ctx.names ∧ 0 ≤ c.lRow ∧ (c.mode = .update → c.val ≠ []) ∧
      ∀ e ∈ c.val, ∃ (i : Nat) (unit : MatchUnit), ctx.colAccum[i]? = some unit ∧
      unit.localUnit = -1 ∧
        e = (nameAt ctx.names i, cellAt ctx.locals unit.remoteUnit c.lRow) := by
  intro c hc hmode
  rcases mem_rows rows {} c hc with h | ⟨u, hu, cur, h⟩
  · cases h
  have hpos : u.localUnit ≠ -1 → 0 ≤ u.localUnit := by
    have := (hrows u hu).range
    omega
  have hentries : u.localUnit ≠ -1 → ∀ e ∈ (valuesOf ctx u 0 ctx.colAccum {}).value,
      ∃ (i : Nat) (unit : MatchUnit), ctx.colAccum[i]? = some unit ∧ unit.localUnit = -1 ∧
        e = (nameAt ctx.names i, cellAt ctx.locals unit.remoteUnit u.localUnit) := by
    intro hl e he
    have hdel : ∀ unit ∈ ctx.colAccum, unit.deleted = false :=
      fun unit hunit => (hcols unit hunit).undeleted
    rcases mem_valuesOf ctx.colAccum hdel 0 {} e he with hv | ⟨i, unit, hi, hnov, rfl⟩
    · cases hv
    · obtain ⟨hloc, hcell⟩ :=
        novel_agreed hsame (hrows u hu) (hcols unit (List.mem_of_getElem? hi)) (hpos hl) hnov
      exact ⟨i, unit, hi, hloc, by rw [Nat.zero_add, hcell]⟩
  rcases mem_emitRow h with h | ⟨-, rfl⟩ | ⟨hl, rfl | ⟨-, -, rfl⟩ | ⟨-, hv, rfl⟩⟩
  · rw [h] at hmode
    rcases hmode with hm | hm <;> cases hm
  · rcases hmode with hm | hm <;> cases hm
  · exact ⟨rfl, hpos hl, fun hm => RowChangeMode.noConfusion hm, hentries hl⟩
  · rcases hmode with hm | hm <;> cases hm
  · exact ⟨rfl, hpos hl, fun _ hnil => hv (congrArg List.length hnil), hentries hl⟩

end

/-- A row of local that stands behind those before it is updated at most. -/
theorem emitRow_inOrder {ctx : RowContext} {row : MatchUnit} (change : RowChange) {c : Cursor}
    (hl : 0 ≤ row.localUnit) (hkept : row.remoteUnit = -1 → row.pivotUnit = -1) (hc : c.InOrder)
    (hle : c.bottomLocalRow ≤ row.localUnit) :
    (∀ x ∈ (emitRow ctx row change c).2, x.mode = .update) ∧ (emitRow ctx row change c).1.InOrder ∧
      (emitRow ctx row change c).1.bottomLocalRow = row.localUnit := by
  have hpos : row.localUnit ≠ -1 := by omega
  have hdrop : row.remoteUnit = -1 → ¬(ctx.flags.canDelete = true ∧ row.pivotUnit ≠ -1) :=
    fun hr hx => hx.2 (hkept hr)
  have hmoves : ¬(row.localUnit < c.bottomLocalRow) := by omega
  unfold emitRow
  by_cases hr : row.remoteUnit = -1
  · simp only [hpos, if_false, hr, if_true, hdrop hr, hc.native, hmoves, contextRow, ite_self,
      Bool.false_eq_true,
      or_false, and_false, decide_false, Bool.false_and, false_and, List.append_nil]
    refine ⟨fun x hx => absurd hx List.not_mem_nil, ⟨rfl, ?_⟩, ?_⟩ <;> rw [if_pos (by omega)]
  · simp only [hpos, if_false, hr, hc.native, hmoves, contextRow, ite_self, Bool.false_eq_true,
      or_false, and_false,
      decide_false, Bool.false_and, false_and, List.append_nil, List.nil_append]
    split
    · refine ⟨fun x hx => ?_, ⟨rfl, rfl⟩, rfl⟩
      rw [List.mem_singleton.mp hx]
    · exact ⟨fun x hx => absurd hx List.not_mem_nil, ⟨rfl, rfl⟩, rfl⟩

/-- Rows of local in their order are updated at most. -/
theorem rows_inOrder {ctx : RowContext} (units : List MatchUnit)
    (h : ∀ u ∈ units, 0 ≤ u.localUnit ∧ (u.remoteUnit = -1 → u.pivotUnit = -1))
    (hord : units.Pairwise fun u v => u.localUnit ≤ v.localUnit) :
    ∀ s : RowState, s.cursor.InOrder →
      (∀ u ∈ units, s.cursor.bottomLocalRow ≤ u.localUnit) →
      ∀ x ∈ (units.foldl (rowStep ctx) s).rc, x ∈ s.rc ∨ x.mode = .update := by
  induction units with
  | nil => exact fun s _ _ x hx => Or.inl hx
  | cons u units ih =>
    intro s hs hle x hx
    obtain ⟨hl, hkept⟩ := h u (by simp)
    obtain ⟨hfirst, hrest⟩ := List.pairwise_cons.mp hord
    obtain ⟨h1, h2, h3⟩ :=
      @emitRow_inOrder ctx u (rowChangeOf ctx u (valuesOf ctx u 0 ctx.colAccum {})) s.cursor hl
      hkept hs (hle u (by simp))
    have hbottom : ∀ w ∈ units, (rowStep ctx s u).cursor.bottomLocalRow ≤ w.localUnit :=
      fun w hw => h3 ▸ hfirst w hw
    rcases ih (fun w hw => h w (List.mem_cons_of_mem _ hw)) hrest
      (rowStep ctx s u) h2 hbottom x hx with hx | hx
    · rcases List.mem_append.mp hx with hx | hx
      · exact Or.inl hx
      · exact Or.inr (h1 x hx)
    · exact Or.inr hx

/-! ## The merge -/

/-- A merge in which both sides are `x`. -/
def agreeingSides (pivot x : DataSheet) (rows : Matching pivot.height x.height)
    (cols : Matching pivot.width x.width)
    (useOrder assumeHeader : Bool) (names : NameSniffer) : MergerState where
  pivot := pivot
  locals := x
  remote := x
  rowLocal := rows.toOrderResult
  rowRemote := rows.toOrderResult
  colLocal := cols.toOrderResult
  colRemote := cols.toOrderResult
  flags := { useOrder := useOrder, assumeHeader := assumeHeader }
  localNames := names
  remoteNames := names

/-- An entry of a changed row is for a column `k` that `x` added: it goes into the second one, at
place `j` of the columns after the changes, and is what the row has in the first. -/
def SecondCell {pivot x : DataSheet} (cols : Matching pivot.width x.width) (columns : List Int)
    (c : RowChange) (e : String × SheetCell) : Prop :=
  ∃ k j l : Nat, k < x.width ∧ cols.bwd k = none ∧ columns[j]? = some (-(k : Int) - 1) ∧
    c.names[j]? = some e.1 ∧ c.lRow = l ∧ e.2 = x.cellSummary k l

/-- What such a merge reports about the rows.  `moved`: with order in use the last row of `x` can
come to stand behind the second copies of its added rows. -/
structure AgreedRows {pivot x : DataSheet} (rows : Matching pivot.height x.height)
    (cols : Matching pivot.width x.width) (useOrder assumeHeader : Bool) (names : NameSniffer)
    (columns : List Int) (rc : List RowChange) : Prop where
  no_row_deleted : ∀ c ∈ rc, c.mode ≠ .delete
  rows_again : (∃ p l : Nat, cols.a2b p = l) → insertCount rc = rows.added
  all_again : (¬ ∃ p l : Nat, cols.a2b p = l) → insertCount rc = x.height
  kept : (∃ p l : Nat, cols.a2b p = l) → rows.added = 0 → ∀ c ∈ rc, c.mode = .update
  moved : ∀ c ∈ rc, c.mode = .move → useOrder = true ∧ rows.added ≠ 0 ∧
    c.lRow = (x.height : Int) - 1
  updates_write : ∀ c ∈ rc, c.mode = .update → c.val ≠ []
  cells_again : ∀ c ∈ rc, c.mode = .update ∨ c.mode = .move →
    ∀ e ∈ c.val, SecondCell cols columns c e
  cells_kept : assumeHeader = false → ∀ c ∈ rc, c.mode = .update ∨ c.mode = .move →
    ∀ e ∈ c.val, e.1 ∉ names.columnNames x.width

/-- What such a merge reports. -/
structure AgreedReport {pivot x : DataSheet} (rows : Matching pivot.height x.height)
    (cols : Matching pivot.width x.width) (useOrder assumeHeader : Bool) (names : NameSniffer)
    (r : MergeResult) : Prop where
  no_conflict : r.conflicted = false
  columns_kept : ∀ c ∈ r.columnChanges, c.mode = .insert ∨ assumeHeader = true ∧ c.mode = .rename
  columns_again : (r.columnChanges.countP fun c => decide (c.mode = .insert)) = cols.added
  row_changes :
    AgreedRows rows cols useOrder assumeHeader names
      (columnsAfter x.width r.columnChanges) r.rowChanges

/-- The report reads the mode, the entries, the names and the local row of each change. -/
theorem AgreedRows.map {pivot x : DataSheet} {rows : Matching pivot.height x.height}
    {cols : Matching pivot.width x.width} {useOrder assumeHeader : Bool} {names : NameSniffer}
    {columns : List Int}
    {rc : List RowChange} (h : AgreedRows rows cols useOrder assumeHeader names columns rc)
    {f : RowChange → RowChange}
    (hf : ∀ c, (f c).mode = c.mode ∧ (f c).val = c.val ∧ (f c).names = c.names ∧
      (f c).lRow = c.lRow) :
    AgreedRows rows cols useOrder assumeHeader names columns (rc.map f) := by
  have hcount : insertCount (rc.map f) = insertCount rc := by
    unfold insertCount
    rw [List.countP_map]
    exact List.countP_congr fun c _ => by rw [Function.comp_apply, (hf c).1]
  constructor
  · exact List.forall_mem_map.mpr fun c hc => by rw [(hf c).1]; exact h.no_row_deleted c hc
  · exact fun hs => hcount.trans (h.rows_again hs)
  · exact fun hs => hcount.trans (h.all_again hs)
  · exact fun hs hr => List.forall_mem_map.mpr fun c hc => by rw [(hf c).1]; exact h.kept hs hr c hc
  · exact List.forall_mem_map.mpr fun c hc hm => by
      rw [(hf c).1] at hm
      rw [(hf c).2.2.2]
      exact h.moved c hc hm
  · exact List.forall_mem_map.mpr fun c hc hm => by
      rw [(hf c).1] at hm
      rw [(hf c).2.1]
      exact h.updates_write c hc hm
  · refine List.forall_mem_map.mpr fun c hc hm e he => ?_
    obtain ⟨-, hval, hnames, hrow⟩ := hf c
    rw [(hf c).1] at hm
    rw [hval] at he
    unfold SecondCell
    rw [hnames, hrow]
    exact h.cells_again c hc hm e he
  · refine fun hah => List.forall_mem_map.mpr fun c hc hm e he => ?_
    rw [(hf c).1] at hm
    rw [(hf c).2.1] at he
    exact h.cells_kept hah c hc hm e he

section
variable {pivot x : DataSheet} (rows : Matching pivot.height x.height)
    (cols : Matching pivot.width x.width)
  (useOrder assumeHeader : Bool) (names : NameSniffer)

/-- The units of a merge with order in use, or of its columns. -/
theorem merge_agreeingUnits {n m : Nat} (M : Matching n m) {flags : CompareFlags}
    (hh : flags.headTrimmed = false) (ht : flags.tailTrimmed = false) (columnar : Bool) : ∃ units,
    OrderMerge.merge (OrderMerge.enough M.toOrderResult M.toOrderResult) M.toOrderResult
    M.toOrderResult flags columnar =
      some ⟨units, OrderMerge.countOverlap units⟩ ∧ units.Perm (OrderMerge.agreedSweep M) ∧
      ((flags.useOrder || columnar) = true → (List.range (m - 1)).map (OrderMerge.unitAt M M) <+:
        units) ∧
      (M.added = 0 → units = OrderMerge.agreedUnits M) := by
  obtain ⟨units, hm, hperm, -⟩ := OrderMerge.merge_perm M M hh ht columnar (Nat.le_refl _)
  refine ⟨units, hm, hperm.trans OrderMerge.agreedSweep_perm.symm, fun ho => ?_, fun h => ?_⟩
  · rw [OrderMerge.merge_eq M M hh ht columnar (Nat.le_refl _), if_pos ho] at hm
    obtain ⟨accum, hpass, haccum⟩ := Option.map_eq_some_iff.mp hm
    obtain rfl : accum = units := congrArg OrderMerge.accum haccum
    exact OrderMerge.orderPass_locals (Nat.succ_pos _) hpass
  · have henough : m + m + 1 ≤ OrderMerge.enough M.toOrderResult M.toOrderResult := by
      unfold OrderMerge.enough
      rw [M.blen_toOrderResult]
    have hagreed :=
      OrderMerge.merge_agreed hh ht M (Matching.bwd_ne_none_of_added h) columnar henough
    rw [hm] at hagreed
    exact congrArg OrderMerge.accum (Option.some.inj hagreed)

theorem shared_iff {units : List MatchUnit} (hperm : units.Perm (OrderMerge.agreedSweep cols)) :
    (∃ p l : Nat, cols.a2b p = l) ↔ OrderMerge.countOverlap units ≠ 0 := by
  have hcount : OrderMerge.countOverlap units ≠ 0 ↔ ∃ u ∈ units, u.localUnit ≠ -1 ∧
    u.remoteUnit ≠ -1 := by
    unfold OrderMerge.countOverlap
    rw [← Nat.pos_iff_ne_zero, List.countP_pos_iff]
    simp only [Bool.and_eq_true, bne_iff_ne]
  rw [hcount]
  constructor
  · rintro ⟨p, l, hpl⟩
    have hf := (cols.a2b_eq_iff p l).mp hpl
    have hb := (cols.fwd_eq_some_iff p l).mp hf
    refine ⟨OrderMerge.unitAt cols cols l,
      hperm.mem_iff.mpr (OrderMerge.unitAt_mem (cols.fwd_lt hf).2), ?_, ?_⟩
    · rw [OrderMerge.unitAt_localUnit]
      omega
    · rw [OrderMerge.unitAt_agreed_remoteUnit, hb]
      simp only [reduceCtorEq, if_false]
      omega
  · rintro ⟨u, hu, hl, hr⟩
    rcases OrderMerge.mem_agreedSweep.mp (hperm.mem_iff.mp hu) with ⟨k, -, rfl⟩ | ⟨r, -, -, rfl⟩
    · rw [OrderMerge.unitAt_agreed_remoteUnit] at hr
      cases hb : cols.bwd k with
      | none => rw [if_pos hb] at hr; exact absurd rfl hr
      | some p => exact ⟨p, k, (cols.a2b_eq_iff p k).mpr ((cols.fwd_eq_some_iff p k).mpr hb)⟩
    · exact absurd rfl hl

variable {rows} in
/-- Only the last row can be moved: the others come first, in their order. -/
theorem rows_moved {ctx : RowContext} (hacts : ctx.flags.acts = []) {units : List MatchUnit}
    (hperm : units.Perm (OrderMerge.agreedSweep rows)) (hpre : ctx.flags.useOrder = true →
      (List.range (x.height - 1)).map (OrderMerge.unitAt rows rows) <+: units) :
    ∀ c ∈ (units.foldl (rowStep ctx) {}).rc, c.mode = .move →
      ctx.flags.useOrder = true ∧ c.lRow = (x.height : Int) - 1 := by
  intro c hc hmode
  cases ho : ctx.flags.useOrder with
  | false =>
    rcases mem_rows units {} c hc with h | ⟨u, -, cur, h⟩
    · cases h
    rw [emitRow_unordered ho hacts] at h
    unfold unorderedRow at h
    split at h
    · rw [List.mem_singleton.mp h] at hmode
      cases hmode
    split at h
    · split at h
      · rw [List.mem_singleton.mp h] at hmode
        cases hmode
      · cases h
    · split at h
      · rw [List.mem_singleton.mp h] at hmode
        cases hmode
      · cases h
  | true =>
    obtain ⟨rest, rfl⟩ := hpre ho
    have hfirst : ∀ u ∈ (List.range (x.height - 1)).map (OrderMerge.unitAt rows rows),
      0 ≤ u.localUnit ∧
        (u.remoteUnit = -1 → u.pivotUnit = -1) := fun u hu => by
      have hmem := hperm.mem_iff.mp (List.mem_append_left rest hu)
      obtain ⟨k, -, rfl⟩ := List.mem_map.mp hu
      exact ⟨by rw [OrderMerge.unitAt_localUnit]; omega,
        (agreedUnit_swept rows (OrderMerge.agreedSweep_perm.mem_iff.mp hmem)).not_dropped⟩
    have hord : ((List.range (x.height - 1)).map (OrderMerge.unitAt rows rows)).Pairwise fun u v =>
        u.localUnit ≤ v.localUnit := by
      refine List.pairwise_map.mpr (List.pairwise_lt_range.imp fun {a b} hab => ?_)
      rw [OrderMerge.unitAt_localUnit, OrderMerge.unitAt_localUnit]
      omega
    rw [List.foldl_append] at hc
    rcases mem_rows rest _ c hc with h | ⟨u, hu, cur, h⟩
    · have hin := rows_inOrder _ hfirst hord {} ⟨rfl, rfl⟩ (fun u hu => by
        have := (hfirst u hu).1
        show (-1 : Int) ≤ u.localUnit
        omega) c h
      rcases hin with h | h
      · cases h
      · rw [h] at hmode
        cases hmode
    · refine ⟨rfl, ?_⟩
      have hlast : u.localUnit ≠ -1 → u.localUnit = (x.height : Int) - 1 := by
        intro hl
        have hnd : ((List.range (x.height - 1)).map (OrderMerge.unitAt rows rows) ++ rest).Nodup :=
          hperm.nodup_iff.mpr OrderMerge.agreedSweep_nodup
        rcases OrderMerge.mem_agreedSweep.mp
          (hperm.mem_iff.mp (List.mem_append_right _ hu)) with ⟨k, hk, rfl⟩ | ⟨r, -, -, rfl⟩
        · have hnot : ¬ k < x.height - 1 := fun hlt =>
            (List.nodup_append.mp hnd).2.2 _ (List.mem_map.mpr ⟨k, List.mem_range.mpr hlt, rfl⟩) _
              hu rfl
          rw [OrderMerge.unitAt_localUnit]
          omega
        · exact absurd rfl hl
      rcases mem_emitRow h with h | ⟨-, rfl⟩ | ⟨hl, rfl | ⟨-, -, rfl⟩ | ⟨-, -, rfl⟩⟩
      · rw [h] at hmode
        cases hmode
      · cases hmode
      · exact hlast hl
      · cases hmode
      · cases hmode

/-- With no row added the rows stand in their order. -/
theorem rows_kept {ctx : RowContext} :
    ∀ c ∈ ((OrderMerge.agreedUnits rows).foldl (rowStep ctx) {}).rc,
    c.mode = .update := by
  have hpos := OrderMerge.map_unitAt_nonneg rows rows
  have hkept : ∀ u ∈ OrderMerge.agreedUnits rows, u.remoteUnit = -1 → u.pivotUnit = -1 :=
    fun u hu =>
    (agreedUnit_swept rows (List.mem_append_left _ hu)).not_dropped
  intro c hc
  have hin := rows_inOrder _ (fun u hu => ⟨hpos u hu, hkept u hu⟩)
    ((OrderMerge.map_unitAt_pairwise rows rows).imp fun h => h.le) {} ⟨rfl, rfl⟩ (fun u hu => by
      have := hpos u hu
      show (-1 : Int) ≤ u.localUnit
      omega) c hc
  rcases hin with h | h
  · cases h
  · exact h

theorem colUnits_agreeingSides : ∃ units,
    colUnits (agreeingSides pivot x rows cols useOrder assumeHeader names) =
      some ⟨units, OrderMerge.countOverlap units⟩ ∧ units.Perm (OrderMerge.agreedSweep cols) ∧
      (List.range (x.width - 1)).map (OrderMerge.unitAt cols cols) <+: units := by
  obtain ⟨units, hm, hperm, hpre, -⟩ := merge_agreeingUnits cols
    (show ({ useOrder := useOrder, assumeHeader := assumeHeader } : CompareFlags).headTrimmed =
      false from rfl) rfl true
  exact ⟨units, hm, hperm, hpre (Bool.or_true _)⟩

theorem rowUnits_agreeingSides (overlap : Nat) : ∃ units,
    rowUnits (agreeingSides pivot x rows cols useOrder assumeHeader names) overlap = some units ∧
      (∀ u ∈ units, AgreedUnit u) ∧
      (overlap = 0 → units.length = x.height ∧ ∀ u ∈ units, u.localUnit = -1) ∧
      (overlap ≠ 0 → units.Perm (OrderMerge.agreedSweep rows) ∧
        (useOrder = true → (List.range (x.height - 1)).map (OrderMerge.unitAt rows rows) <+:
          units) ∧
        (rows.added = 0 → units = OrderMerge.agreedUnits rows)) := by
  by_cases ho : overlap = 0
  · refine ⟨_, if_pos ho, fun u hu => ?_, fun _ => ⟨?_, fun u hu => ?_⟩, fun h => absurd ho h⟩
    · obtain ⟨i, -, rfl⟩ := List.mem_map.mp hu
      exact ⟨Or.inr (Or.inl rfl), Int.le_refl _, rfl, fun _ => rfl⟩
    · simp only [List.length_map, List.pure_def, List.bind_eq_flatMap, ← List.map_eq_flatMap,
        List.length_range]
      rfl
    · obtain ⟨i, -, rfl⟩ := List.mem_map.mp hu
      rfl
  · obtain ⟨units, hm, hperm, hpre, hagreed⟩ := merge_agreeingUnits rows
      (show ({ useOrder := useOrder, assumeHeader := assumeHeader } : CompareFlags).headTrimmed =
        false from rfl) rfl
      false
    refine ⟨units, ?_, fun u hu => ?_, fun h => absurd h ho, fun _ => ⟨hperm, fun h => ?_, hagreed⟩⟩
    · unfold rowUnits
      rw [if_neg ho]
      exact congrArg (Option.map OrderMerge.accum) hm
    · exact agreedUnit_swept rows (OrderMerge.agreedSweep_perm.mem_iff.mp (hperm.mem_iff.mp hu))
    · exact hpre (by rw [h]; rfl)

variable {cols} in
/-- An entry for a unit that local does not have is for the second copy of a column. -/
theorem secondCell {units : List MatchUnit} (hperm : units.Perm (OrderMerge.agreedSweep cols))
    {original : List String}
    {s : ColState} (hs : AgreedColumns cols assumeHeader original units s) {c : RowChange}
    (hnames : c.names = s.localColNames) (hpos : 0 ≤ c.lRow) {i : Nat} {unit : MatchUnit}
    (hi : units[i]? = some unit) (hl : unit.localUnit = -1) :
    SecondCell cols (columnsAfter x.width s.cc) c (nameAt s.localColNames i,
      cellAt x unit.remoteUnit c.lRow) ∧
      (assumeHeader = false → nameAt s.localColNames i ∉ original) := by
  have hdel : ∀ u ∈ units, u.deleted = false := fun u hu =>
    (agreedUnit_swept cols (OrderMerge.agreedSweep_perm.mem_iff.mp (hperm.mem_iff.mp hu))).undeleted
  have hwanted : wantedCols units = units.map colId := by
    unfold wantedCols
    rw [List.filter_eq_self.mpr fun u hu => by rw [hdel u hu]; rfl]
  obtain ⟨k, hk, hb, rfl⟩ : ∃ k < x.width, cols.bwd k = none ∧ unit = OrderMerge.insertUnit k := by
    rcases OrderMerge.mem_agreedSweep.mp (hperm.mem_iff.mp (List.mem_of_getElem? hi)) with ⟨k, -,
      rfl⟩ | ⟨r, hr, hb, rfl⟩
    · rw [OrderMerge.unitAt_localUnit] at hl
      omega
    · exact ⟨r, hr, hb, rfl⟩
  have hid : s.localCols[i]? = some (-(k : Int) - 1) := by
    rw [hs.placed, hwanted, List.getElem?_map, hi]
    rfl
  have hlt : i < s.localColNames.length := by
    rw [hs.told.parallel]
    exact (List.getElem?_eq_some_iff.mp hid).1
  have hname : s.localColNames[i]? = some (nameAt s.localColNames i) := by
    unfold nameAt
    rw [List.getElem?_eq_getElem hlt, List.getD_eq_getElem _ _ hlt]
  refine ⟨⟨k, i, c.lRow.toNat, hk, hb, ?_, ?_, (Int.toNat_of_nonneg hpos).symm, ?_⟩, fun hah => ?_⟩
  · rw [hs.told.last, hid]
  · rw [hnames, hname]
  · unfold cellAt
    rw [if_pos ⟨hpos, Int.natCast_nonneg k⟩]
    rfl
  · exact (hs.fresh hah).unused i _ _ hid (by omega) hname

variable {rows cols useOrder assumeHeader names} in
/-- The rows, under the columns the passes leave. -/
theorem rows_agreed {units rowList : List MatchUnit}
    (hperm : units.Perm (OrderMerge.agreedSweep cols)) {s : ColState}
    (hs : AgreedColumns cols assumeHeader (names.columnNames x.width) units s)
    (hagreed : ∀ u ∈ rowList, AgreedUnit u)
    (hnone : OrderMerge.countOverlap units = 0 → rowList.length = x.height ∧
      ∀ u ∈ rowList, u.localUnit = -1)
    (hover : OrderMerge.countOverlap units ≠ 0 → rowList.Perm (OrderMerge.agreedSweep rows) ∧
      (useOrder = true → (List.range (x.height - 1)).map (OrderMerge.unitAt rows rows) <+:
        rowList) ∧
      (rows.added = 0 → rowList = OrderMerge.agreedUnits rows)) :
    AgreedRows rows cols useOrder assumeHeader names (columnsAfter x.width s.cc)
      (rowList.foldl
        (rowStep (rowContext (agreeingSides pivot x rows cols useOrder assumeHeader names) units
          (names.columnNames x.width) s)) {}).rc := by
  have hcolsAgreed : ∀ u ∈ units, AgreedUnit u := fun u hu =>
    agreedUnit_swept cols (OrderMerge.agreedSweep_perm.mem_iff.mp (hperm.mem_iff.mp hu))
  have hsame : (rowContext (agreeingSides pivot x rows cols useOrder assumeHeader names) units
      (names.columnNames x.width) s).remote = x := rfl
  have hcells := rows_cells hsame hagreed hcolsAgreed
  have hinserted :=
    @insertCount_rows
      (rowContext (agreeingSides pivot x rows cols useOrder assumeHeader names) units
    (names.columnNames x.width) s) rfl rowList {}
  rw [show insertCount ({} : RowState).rc = 0 from rfl, Nat.zero_add] at hinserted
  have hshared := shared_iff cols hperm
  refine ⟨rows_no_delete hagreed, fun h => ?_, fun h => ?_, fun h hr0 => ?_, fun c hc hmode => ?_,
    fun c hc hmode => (hcells c hc (Or.inl hmode)).2.2.1 hmode, fun c hc hmode e he => ?_,
    fun hah c hc hmode e he => ?_⟩
  · rw [hinserted]
    apply OrderMerge.countP_agreed rows ((hover (hshared.mp h)).1.trans OrderMerge.agreedSweep_perm)
    · intro k
      apply decide_eq_false
      rw [OrderMerge.unitAt_localUnit]
      omega
    · exact fun r => rfl
  · obtain ⟨hlength, hall⟩ := hnone (not_not.mp (mt hshared.mpr h))
    rw [hinserted, List.countP_eq_length.mpr fun u hu => decide_eq_true (hall u hu), hlength]
  · obtain rfl := (hover (hshared.mp h)).2.2 hr0
    exact rows_kept rows
  · by_cases h : OrderMerge.countOverlap units = 0
    · rcases mem_rows rowList {} c hc with h' | ⟨u, hu, cur, h'⟩
      · cases h'
      rcases mem_emitRow h' with h' | ⟨-, rfl⟩ | ⟨hl, -⟩
      · rw [h'] at hmode
        cases hmode
      · cases hmode
      · exact absurd ((hnone h).2 u hu) hl
    · obtain ⟨hrperm, hpre, hequal⟩ := hover h
      obtain ⟨ho, hlast⟩ := rows_moved rfl hrperm hpre c hc hmode
      refine ⟨ho, fun hr0 => ?_, hlast⟩
      obtain rfl := hequal hr0
      rw [rows_kept rows c hc] at hmode
      cases hmode
  · obtain ⟨hnames, hpos, -, hval⟩ := hcells c hc hmode
    obtain ⟨i, unit, hi, hl, rfl⟩ := hval e he
    exact (secondCell assumeHeader hperm hs hnames hpos hi hl).1
  · obtain ⟨hnames, hpos, -, hval⟩ := hcells c hc hmode
    obtain ⟨i, unit, hi, hl, rfl⟩ := hval e he
    exact (secondCell assumeHeader hperm hs hnames hpos hi hl).2 hah

end

/-- A pivot of one row, to which both sides added a second. -/
def oneRow : DataSheet := ⟨1, [textRow ["1"]], by decide, by decide⟩

def twoRows : DataSheet := ⟨1, [textRow ["1"], textRow ["2"]], by decide, by decide⟩

def keptFirst : Matching 1 2 := ⟨⟨[0], [0, -1]⟩, rfl, rfl, by decide, by decide, by decide⟩

/-- Local with a second row and a second column. -/
def twoByTwo : DataSheet := ⟨2, [textRow ["1", "a"], textRow ["2", "b"]], by decide, by decide⟩

/-- The report calls for nothing that alters local. -/
def LeavesLocal (r : MergeResult) : Prop :=
  r.conflicted = false ∧ r.columnChanges = [] ∧ ∀ c ∈ r.rowChanges, c.mode = .context

end Merger

end Coopy
