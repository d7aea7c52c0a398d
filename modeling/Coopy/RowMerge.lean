import Coopy.Merger

/-!
# The rows of a merge as a fold

A cell of a sheet never meets the `inconsistent NULL` exit, so with all columns in
play the loops of `mergeRow` and of the caller are plain folds:

    mergeCell flags l r p = .ok (mergedCell flags l r p)                       (mergeCell_eq)
    rowValues ctx row k units v = .ok (valuesOf ctx row k units v)             (rowValues_eq)
    mergeRows ctx units s = .ok (units.foldl (rowStep ctx) s)                  (mergeRows_eq)

A row that stands where it stood, was not dropped by the remote and takes no new cell
is passed over in silence (`mergeRows_quiet`).
-/

namespace Coopy

open Lib

namespace Merger

/-! ## One cell -/

/-- What the loop over the expanded cells can meet: a cell of a sheet, or the blank cell. -/
def Seen (c : SheetCell) : Prop := c.Stored ∨ c = SheetCell.blankCell

theorem Seen.consistentNull {c : SheetCell} (h : Seen c) (he : c.escaped = true) :
    consistentNull c = true := by
  unfold Merger.consistentNull
  rcases h with h | rfl
  · rw [h he]
    rfl
  · decide

theorem cellAt_seen (sheet : DataSheet) (col row : Int) : Seen (cellAt sheet col row) := by
  unfold cellAt
  split
  · exact Or.inl (sheet.cellSummary_stored _ _)
  · exact Or.inr rfl

theorem cellAt_stored (sheet : DataSheet) {col row : Int} (hr : 0 ≤ row) (hc : 0 ≤ col) :
    (cellAt sheet col row).Stored := by
  unfold cellAt
  rw [if_pos ⟨hr, hc⟩]
  exact sheet.cellSummary_stored _ _

theorem cellAt_blank (sheet : DataSheet) {col row : Int} (h : row = -1 ∨ col = -1) :
    cellAt sheet col row = SheetCell.blankCell := by
  unfold cellAt
  rw [if_neg (by omega)]

/-- `compare_string` where it returns. -/
def sameCell (flags : CompareFlags) (a b : SheetCell) : Bool :=
  if flags.ignoreCase = false then a == b
  else a.escaped == b.escaped && normalizeString a.text flags == normalizeString b.text flags

theorem compareString_eq (flags : CompareFlags) {a b : SheetCell} (ha : Seen a) (hb : Seen b) :
    compareString flags a b = .ok (sameCell flags a b) := by
  unfold compareString sameCell
  rw [if_neg]
  · split
    · rfl
    · cases a.escaped <;> cases b.escaped <;> rfl
  · simp only [Bool.and_eq_true, Bool.not_eq_true', Bool.and_eq_false_iff, not_and, not_or,
      Bool.not_eq_false]
    exact fun he => ⟨ha.consistentNull he.1, hb.consistentNull he.2⟩

theorem sameCell_refl (flags : CompareFlags) (a : SheetCell) : sameCell flags a a = true := by
  unfold sameCell
  split <;> simp

theorem sameCell_comm (flags : CompareFlags) (a b : SheetCell) :
    sameCell flags a b = sameCell flags b a := by
  unfold sameCell
  split
  · exact Bool.beq_comm
  · rw [Bool.beq_comm, show (normalizeString a.text flags == normalizeString b.text flags) =
      (normalizeString b.text flags == normalizeString a.text flags) from Bool.beq_comm]

/-- The three-way rule where it returns. -/
def mergedCell (flags : CompareFlags) (l r p : SheetCell) : CellMerge :=
  if sameCell flags l r then ⟨l, false, false⟩
  else if l = SheetCell.blankCell then if r.escaped then ⟨l, false, false⟩ else ⟨r, true, false⟩
  else if r = SheetCell.blankCell then ⟨l, false, false⟩
  else if sameCell flags p l then ⟨r, true, false⟩
  else if sameCell flags p r then ⟨l, false, false⟩
  else resolveCell flags l r p

theorem mergeCell_eq (flags : CompareFlags) {l r p : SheetCell} (hl : Seen l) (hr : Seen r)
    (hp : Seen p) : mergeCell flags l r p = .ok (mergedCell flags l r p) := by
  unfold mergeCell mergedCell
  rw [compareString_eq flags hl hr, compareString_eq flags hp hl, compareString_eq flags hp hr]
  simp only [Except.bind]
  split
  · rfl
  split
  · rfl
  split
  · rfl
  split
  · rfl
  split <;> rfl

/-! ## One row -/

/-- The merged cell of a row under a column unit. -/
def mergedAt (ctx : RowContext) (row unit : MatchUnit) : CellMerge :=
  mergedCell ctx.flags (cellAt ctx.locals unit.localUnit row.localUnit)
    (cellAt ctx.remote unit.remoteUnit row.remoteUnit)
      (cellAt ctx.pivot unit.pivotUnit row.pivotUnit)

/-- The loop over the expanded cells where it returns. -/
def valuesOf (ctx : RowContext) (row : MatchUnit) : Nat → List MatchUnit → RowValues → RowValues
  | _, [], v => v
  | k, unit :: units, v =>
    let m := mergedAt ctx row unit
    let v := { v with conflict := v.conflict || m.conflicted }
    let v :=
      if unit.deleted = false ∧ m.novel = true then
        v.enter ctx.flags (nameAt ctx.names k) m (cellAt ctx.remote unit.remoteUnit row.remoteUnit)
          (cellAt ctx.pivot unit.pivotUnit row.pivotUnit)
      else v
    valuesOf ctx row (if unit.deleted then k else k + 1) units v

/-- One row unit where it returns, with some local column left. -/
def rowStep (ctx : RowContext) (s : RowState) (row : MatchUnit) : RowState :=
  let v := valuesOf ctx row 0 ctx.colAccum {}
  let (cursor, rows) := emitRow ctx row (rowChangeOf ctx row v) s.cursor
  { cursor := cursor, rc := s.rc ++ rows, conflicted := s.conflicted || v.conflict }

section
variable {ctx : RowContext} (hfix : ctx.flags.fixedColumns = false) (hfil : ctx.filteredNames = [])

include hfix hfil

theorem rowValues_eq (row : MatchUnit) (units : List MatchUnit) : ∀ (k : Nat) (v : RowValues),
    rowValues ctx row k units v = .ok (valuesOf ctx row k units v) := by
  induction units with
  | nil => exact fun k v => rfl
  | cons unit units ih =>
    intro k v
    have hm := mergeCell_eq ctx.flags (cellAt_seen ctx.locals unit.localUnit row.localUnit)
      (cellAt_seen ctx.remote unit.remoteUnit row.remoteUnit)
        (cellAt_seen ctx.pivot unit.pivotUnit row.pivotUnit)
    unfold rowValues valuesOf
    rw [hfix, hfil, if_neg (by simp)]
    simp only [List.length_nil, gt_iff_lt, Nat.lt_irrefl, and_false, if_false, Except.bind, hm,
      Bool.false_eq_true]
    exact ih _ _

theorem mergeRows_eq (hgone : ctx.allGone = false) (units : List MatchUnit) : ∀ s : RowState,
    mergeRows ctx units s = .ok (units.foldl (rowStep ctx) s) := by
  induction units with
  | nil => exact fun s => rfl
  | cons unit units ih =>
    intro s
    unfold mergeRows
    rw [hgone]
    simp only [Bool.false_eq_true, if_false, or_true, if_true]
    unfold mergeRow
    rw [rowValues_eq hfix hfil]
    exact ih _

end

/-! ## What a row can lead to -/

theorem mem_contextRow {ctx : RowContext} {wanted : Bool} {alt x : RowChange}
    (h : x ∈ contextRow ctx wanted alt) : x.mode = .context := by
  unfold contextRow at h
  split at h
  · rw [List.mem_singleton.mp h]
  · cases h

/-- The changes a row can lead to. -/
theorem mem_emitRow {ctx : RowContext} {row : MatchUnit} {change x : RowChange} {c : Cursor}
    (h : x ∈ (emitRow ctx row change c).2) :
    x.mode = .context ∨ (row.localUnit = -1 ∧ x = { change with mode := .insert }) ∨
      (row.localUnit ≠ -1 ∧ (x = { change with mode := .move } ∨
        (row.remoteUnit = -1 ∧ row.pivotUnit ≠ -1 ∧ x = { change with mode := .delete }) ∨
        (row.remoteUnit ≠ -1 ∧ change.val.length ≠ 0 ∧ x = { change with mode := .update }))) := by
  have hmoved : ∀ b : Bool, x ∈ (if b then [{ change with mode := RowChangeMode.move }] else []) →
      x = { change with mode := .move } := by
    intro b hb
    split at hb
    · exact List.mem_singleton.mp hb
    · cases hb
  have hchanged :
    ∀ b : Bool, x = { change with mode := if b then RowChangeMode.move else RowChangeMode.update } →
      x = { change with mode := .move } ∨ x = { change with mode := .update } := by
    intro b hb
    cases b
    · exact Or.inr hb
    · exact Or.inl hb
  by_cases hl : row.localUnit = -1
  · unfold emitRow at h
    simp only [hl, if_true, ne_eq, not_true_eq_false, false_and, and_false, decide_false,
      Bool.false_and, Bool.false_eq_true, if_false, List.append_nil] at h
    split at h
    · simp only [List.mem_append, List.mem_singleton] at h
      rcases h with (h | h) | h
      · exact Or.inl (mem_contextRow h)
      · split at h <;> exact Or.inl (mem_contextRow h)
      · exact Or.inr (Or.inl ⟨hl, h⟩)
    · exact Or.inl (mem_contextRow (show x ∈ contextRow ctx false c.lastRowChange from h))
  · unfold emitRow at h
    simp only [hl, if_false] at h
    split at h
    · next hr =>
      split at h
      · next hdel =>
        simp only [List.mem_append, List.mem_singleton] at h
        rcases h with (h | h) | h
        · exact Or.inl (mem_contextRow h)
        · exact Or.inr (Or.inr ⟨hl, Or.inl (hmoved _ h)⟩)
        · exact Or.inr (Or.inr ⟨hl, Or.inr (Or.inl ⟨hr, hdel.2, h⟩)⟩)
      · rcases List.mem_append.mp h with h | h
        · exact Or.inl (mem_contextRow h)
        · exact Or.inr (Or.inr ⟨hl, Or.inl (hmoved _ h)⟩)
    · next hr =>
      split at h
      · next hval =>
        simp only [List.mem_append, List.mem_singleton] at h
        rcases h with h | h
        · exact Or.inl (mem_contextRow h)
        · rcases hchanged _ h with h | h
          · exact Or.inr (Or.inr ⟨hl, Or.inl h⟩)
          · exact Or.inr (Or.inr ⟨hl, Or.inr (Or.inr ⟨hr, hval.2, h⟩)⟩)
      · rcases List.mem_append.mp h with h | h
        · exact Or.inl (mem_contextRow h)
        · exact Or.inr (Or.inr ⟨hl, Or.inl (hmoved _ h)⟩)

/-- The insertions among some changes. -/
def insertCount (rc : List RowChange) : Nat := rc.countP fun x => decide (x.mode = .insert)

theorem insertCount_append (xs ys : List RowChange) :
    insertCount (xs ++ ys) = insertCount xs + insertCount ys :=
  List.countP_append

theorem insertCount_eq_zero {rc : List RowChange} (h : ∀ x ∈ rc, x.mode ≠ .insert) :
    insertCount rc = 0 :=
  List.countP_eq_zero.mpr fun x hx => by simpa using h x hx

/-- A row that local does not have leads to one insertion, any other to none. -/
theorem insertCount_emitRow {ctx : RowContext} (hins : ctx.flags.canInsert = true) (row : MatchUnit)
    (change : RowChange) (c : Cursor) :
    insertCount (emitRow ctx row change c).2 = if row.localUnit = -1 then 1 else 0 := by
  by_cases hl : row.localUnit = -1
  · rw [if_pos hl]
    have hcon : ∀ wanted alt, insertCount (contextRow ctx wanted alt) = 0 := fun wanted alt =>
      insertCount_eq_zero fun x hx => by rw [mem_contextRow hx]; decide
    unfold emitRow
    simp only [hl, hins, if_true, ne_eq, not_true_eq_false, false_and, and_false, decide_false,
      Bool.false_and, Bool.false_eq_true, if_false, List.append_nil, insertCount_append, hcon]
    split <;> rw [hcon] <;> rfl
  · rw [if_neg hl]
    refine insertCount_eq_zero fun x hx => ?_
    rcases mem_emitRow hx with h | ⟨h, -⟩ | ⟨-, rfl | ⟨-, -, rfl⟩ | ⟨-, -, rfl⟩⟩
    · rw [h]; decide
    · exact absurd h hl
    · exact RowChangeMode.noConfusion
    · exact RowChangeMode.noConfusion
    · exact RowChangeMode.noConfusion

/-- A property of the reported rows, from one row to the whole report. -/
theorem mem_rows {ctx : RowContext} (units : List MatchUnit) : ∀ (s : RowState) (x : RowChange),
    x ∈ (units.foldl (rowStep ctx) s).rc → x ∈ s.rc ∨ ∃ u ∈ units, ∃ c : Cursor,
      x ∈ (emitRow ctx u (rowChangeOf ctx u (valuesOf ctx u 0 ctx.colAccum {})) c).2 := by
  induction units with
  | nil => exact fun s x hx => Or.inl hx
  | cons u units ih =>
    intro s x hx
    rcases ih _ x hx with h | ⟨w, hw, c, h⟩
    · rcases List.mem_append.mp h with h | h
      · exact Or.inl h
      · exact Or.inr ⟨u, by simp, s.cursor, h⟩
    · exact Or.inr ⟨w, List.mem_cons_of_mem _ hw, c, h⟩

theorem insertCount_rows {ctx : RowContext} (hins : ctx.flags.canInsert = true)
    (units : List MatchUnit) : ∀ s : RowState, insertCount (units.foldl (rowStep ctx) s).rc =
      insertCount s.rc + units.countP fun u => decide (u.localUnit = -1) := by
  induction units with
  | nil => exact fun s => rfl
  | cons u units ih =>
    intro s
    rw [List.foldl_cons, ih, List.countP_cons]
    show insertCount
      (s.rc ++ (emitRow ctx u (rowChangeOf ctx u (valuesOf ctx u 0 ctx.colAccum {})) s.cursor).2) +
      _ = _
    rw [insertCount_append, insertCount_emitRow hins]
    simp only [decide_eq_true_eq]
    omega

theorem conflicted_rows {ctx : RowContext} (units : List MatchUnit) :
    ∀ s : RowState, s.conflicted = false →
    (∀ u ∈ units, (valuesOf ctx u 0 ctx.colAccum {}).conflict = false) →
    (units.foldl (rowStep ctx) s).conflicted = false := by
  induction units with
  | nil => exact fun s hs _ => hs
  | cons u units ih =>
    intro s hs h
    refine ih _ ?_ fun w hw => h w (List.mem_cons_of_mem _ hw)
    show (s.conflicted || (valuesOf ctx u 0 ctx.colAccum {}).conflict) = false
    rw [hs, h u (by simp)]
    rfl

theorem valuesOf_conflict {ctx : RowContext} {row : MatchUnit} (units : List MatchUnit)
    (h : ∀ unit ∈ units, (mergedAt ctx row unit).conflicted = false) : ∀ (k : Nat) (v : RowValues),
    (valuesOf ctx row k units v).conflict = v.conflict := by
  induction units with
  | nil => exact fun k v => rfl
  | cons unit units ih =>
    intro k v
    unfold valuesOf
    simp only
    rw [ih fun w hw => h w (List.mem_cons_of_mem _ hw)]
    rw [h unit (by simp)]
    split
    · unfold RowValues.enter
      split <;> simp
    · simp

/-! ## Rows that nothing happened to -/

/-- Nothing new under any column, and no conflict. -/
theorem valuesOf_quiet {ctx : RowContext} {row : MatchUnit} (units : List MatchUnit)
    (h : ∀ unit ∈ units, (mergedAt ctx row unit).conflicted = false ∧
      (unit.deleted = false → (mergedAt ctx row unit).novel = false)) :
    ∀ (k : Nat) (v : RowValues), valuesOf ctx row k units v = v := by
  induction units with
  | nil => exact fun k v => rfl
  | cons unit units ih =>
    intro k v
    obtain ⟨hc, hn⟩ := h unit (by simp)
    have hnot : ¬(unit.deleted = false ∧ (mergedAt ctx row unit).novel = true) := by
      rintro ⟨hd, hnov⟩
      rw [hn hd] at hnov
      cases hnov
    unfold valuesOf
    simp only [hnot, if_false, hc, Bool.or_false]
    exact ih (fun u hu => h u (List.mem_cons_of_mem _ hu)) _ _

/-- A row of local that no rule asks to report. -/
structure Quiet (ctx : RowContext) (row : MatchUnit) : Prop where
  present : 0 ≤ row.localUnit
  undeleted : row.deleted = false
  not_dropped : row.remoteUnit = -1 → row.pivotUnit = -1
  cells : ∀ unit ∈ ctx.colAccum, (mergedAt ctx row unit).conflicted = false ∧
    (unit.deleted = false → (mergedAt ctx row unit).novel = false)

/-- The cursor after rows that stood in local order, the last of them at `bottomLocalRow`. -/
structure Cursor.InOrder (c : Cursor) : Prop where
  native : c.hadForeignRow = false
  at_bottom : c.lastLocalRow = c.bottomLocalRow

theorem emitRow_quiet {ctx : RowContext} {row : MatchUnit} (change : RowChange) {c : Cursor}
    (h : Quiet ctx row)
    (hval : change.val = []) (hc : c.InOrder) (hle : c.bottomLocalRow ≤ row.localUnit) :
    (emitRow ctx row change c).2 = [] ∧ (emitRow ctx row change c).1.InOrder ∧
      (emitRow ctx row change c).1.bottomLocalRow = row.localUnit := by
  have hp := h.present
  have hpos : row.localUnit ≠ -1 := by omega
  have hdrop : row.remoteUnit = -1 → ¬(ctx.flags.canDelete = true ∧ row.pivotUnit ≠ -1) :=
    fun hr hx => hx.2 (h.not_dropped hr)
  have hmoves : ¬(row.localUnit < c.bottomLocalRow) := by omega
  unfold emitRow
  by_cases hr : row.remoteUnit = -1
  · simp only [hpos, if_false, hr, if_true, hdrop hr, hc.native, hmoves, contextRow, ite_self,
      Bool.false_eq_true,
      or_false, and_false, decide_false, Bool.false_and, false_and, List.append_nil, true_and]
    refine ⟨⟨rfl, ?_⟩, ?_⟩ <;> rw [if_pos (by omega)]
  · simp only [hpos, if_false, hr, hval, hc.native, hmoves, contextRow, ite_self,
      Bool.false_eq_true, or_false,
      and_false, decide_false, Bool.false_and, false_and, List.append_nil, List.length_nil, ne_eq,
      not_true_eq_false, true_and]
    refine ⟨⟨rfl, ?_⟩, ?_⟩ <;> rw [if_pos (by omega)]

/-- **Silence.**  Rows in local order that nothing happened to leave the report as it was. -/
theorem mergeRows_quiet {ctx : RowContext} (units : List MatchUnit) (h : ∀ u ∈ units, Quiet ctx u)
    (hord : units.Pairwise fun u v => u.localUnit ≤ v.localUnit) :
    ∀ s : RowState, s.cursor.InOrder → (∀ u ∈ units, s.cursor.bottomLocalRow ≤ u.localUnit) →
      (units.foldl (rowStep ctx) s).rc = s.rc ∧ (units.foldl (rowStep ctx) s).conflicted =
      s.conflicted := by
  induction units with
  | nil => exact fun s _ _ => ⟨rfl, rfl⟩
  | cons u units ih =>
    intro s hs hle
    have hu := h u (by simp)
    obtain ⟨hfirst, hrest⟩ := List.pairwise_cons.mp hord
    have hv : valuesOf ctx u 0 ctx.colAccum {} = {} := valuesOf_quiet ctx.colAccum hu.cells 0 {}
    obtain ⟨h1, h2, h3⟩ := emitRow_quiet (rowChangeOf ctx u {}) hu rfl hs (hle u (by simp))
    have hstep :
      rowStep ctx s u = { s with cursor := (emitRow ctx u (rowChangeOf ctx u {}) s.cursor).1 } := by
      unfold rowStep
      rw [hv]
      simp only [h1, List.append_nil, Bool.or_false]
    rw [List.foldl_cons, hstep]
    refine ih (fun w hw => h w (List.mem_cons_of_mem _ hw)) hrest _ h2 (fun w hw => ?_)
    show (emitRow ctx u (rowChangeOf ctx u {}) s.cursor).1.bottomLocalRow ≤ w.localUnit
    rw [h3]
    exact hfirst w hw

/-- A row that local does not have has no conditions. -/
theorem rowCond_of_neg (ctx : RowContext) {lRow : Int} (hl : lRow < 0) (units : List MatchUnit) :
    ∀ (k : Nat) (cond : AssocMap String SheetCell), rowCond ctx lRow k units cond = cond := by
  induction units with
  | nil => exact fun k cond => rfl
  | cons unit units ih =>
    intro k cond
    unfold rowCond
    simp only
    rw [if_neg (show ¬(lRow ≥ 0 ∧ unit.localUnit ≥ 0 ∧ unit.deleted = false ∧ _) from fun h =>
      not_lt_of_ge h.1 hl)]
    exact ih _ _

/-! ## The merge in terms of its parts -/

/-- The index flags that go out with the rows. -/
def reportedIndexes (original : List String) (indexes : AssocMap String Bool) (s : ColState) :
    AssocMap String Bool :=
  if s.constantIndex then indexes else original.foldl (fun m name => m.set name true) indexes

/-- The rows are reported as they are, with the indexes and the names of all columns. -/
theorem rowChanges_report (flags : CompareFlags) (original : List String)
    (indexes : AssocMap String Bool) (s : ColState)
    (rows : RowState) : (report flags original indexes s rows).rowChanges =
      rows.rc.map fun change =>
        { change with
          indexes := reportedIndexes original indexes s
          allNames := if flags.fixedColumns then original else s.localColNames } := by
  have hcolumns : (if flags.fixedColumns then []
      else PatchEvent.changeName ⟨false, s.cc.isEmpty, original⟩ ::
        s.cc.map PatchEvent.changeColumn).filterMap
        PatchEvent.row? = [] := by
    split
    · rfl
    · rw [List.filterMap_cons_none rfl, List.filterMap_map]
      exact List.filterMap_eq_nil_iff.mpr fun change _ => rfl
  unfold MergeResult.rowChanges report
  simp only [List.filterMap_append, List.filterMap_cons, PatchEvent.row?, List.filterMap_map,
    List.filterMap_nil, List.append_nil]
  rw [hcolumns, List.nil_append]
  exact congrFun List.filterMap_eq_map rows.rc

section
variable {flags : CompareFlags} (hfix : flags.fixedColumns = false) (original : List String)
  (indexes : AssocMap String Bool) (s : ColState) (rows : RowState)

include hfix

theorem report_columnChanges : (report flags original indexes s rows).columnChanges = s.cc := by
  unfold MergeResult.columnChanges report
  simp only [hfix, Bool.false_eq_true, if_false, List.filterMap_append, List.filterMap_cons,
    PatchEvent.column?, List.filterMap_map, List.filterMap_nil, List.append_nil]
  have hcc : s.cc.filterMap (PatchEvent.column? ∘ PatchEvent.changeColumn) = s.cc :=
    List.filterMap_some
  have hrc : rows.rc.filterMap (PatchEvent.column? ∘ fun change => PatchEvent.changeRow
      { change with indexes := reportedIndexes original indexes s, allNames := s.localColNames }) =
        [] :=
    List.filterMap_eq_nil_iff.mpr fun change _ => rfl
  exact (congrArg₂ (· ++ ·) hcc hrc).trans (List.append_nil _)

theorem report_rowChanges : (report flags original indexes s rows).rowChanges =
    rows.rc.map fun change =>
      { change with
        indexes := reportedIndexes original indexes s
        allNames := s.localColNames } := by
  rw [rowChanges_report, hfix]
  rfl

end

theorem originalColNames_eq {state : MergerState} {names : List String}
    (h : (List.range state.locals.width).mapM state.localNames.suggestColumnName = some names) :
    originalColNames state = .ok names := by
  rw [originalColNames, h]

/-- A merge in which the parts are known, with some local column left. -/
theorem merge_eq {state : MergerState} (hid : state.allIdentical = false)
    (hfix : state.flags.fixedColumns = false)
    {cols : OrderMerge} {rows : List MatchUnit} {names : List String} {s : ColState}
    (hcols : colUnits state = some cols) (hrows : rowUnits state cols.overlap = some rows)
    (hnames : originalColNames state = .ok names)
    (hpasses : columnPasses state.flags
      (indexMap state.flags names (IndexSniffer.sniff state.locals state.flags state.localNames))
        state.localNames
      state.remoteNames cols.accum (ColState.start state.locals.width names) = .ok s)
    (hgone : s.allGone = false) :
    merge state = .ok (report state.flags names
      (indexMap state.flags names (IndexSniffer.sniff state.locals state.flags state.localNames)) s
        (rows.foldl (rowStep (rowContext state cols.accum names s)) {})) := by
  have hctx : (rowContext state cols.accum names s).filteredNames = [] := by
    show (if state.flags.fixedColumns then names else []) = []
    rw [hfix]
    rfl
  unfold merge
  rw [hid, hcols]
  simp only [Bool.false_eq_true, if_false, hrows, hnames, Except.bind, hpasses]
  rw [mergeRows_eq hfix hctx hgone]
  rfl

/-- A merge that returned came through its column passes, and reports what they found. -/
theorem merge_ok_columns {state : MergerState} (hid : state.allIdentical = false)
    (hfix : state.flags.fixedColumns = false) {cols : OrderMerge}
    (hcols : colUnits state = some cols)
    {names : List String} (hnames : originalColNames state = .ok names) {r : MergeResult}
    (h : merge state = .ok r) : ∃ s, columnPasses state.flags
      (indexMap state.flags names (IndexSniffer.sniff state.locals state.flags state.localNames))
        state.localNames
      state.remoteNames cols.accum (ColState.start state.locals.width names) = .ok s ∧
        r.columnChanges = s.cc := by
  unfold merge at h
  rw [hid, hcols] at h
  simp only [Bool.false_eq_true, if_false, hnames, Except.bind] at h
  split at h
  · cases h
  split at h
  · cases h
  · next s hs =>
    refine ⟨s, hs, ?_⟩
    cases hm : mergeRows (rowContext state cols.accum names s) _ {} with
    | error e =>
      rw [hm] at h
      cases h
    | ok rows =>
      rw [hm] at h
      cases h
      exact report_columnChanges hfix _ _ _ _

end Merger

end Coopy
