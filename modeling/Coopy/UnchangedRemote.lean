import Coopy.ColumnPasses
import Coopy.RowMerge

/-!
# A remote that changed nothing

With the remote equal to the pivot the merge should keep local as it is, whatever local
did.  Passes 1 to 3 and the rows see to that.  Pass 4 does not: it reads the local name
at the pivot index of a column, and so sees a rename where local only has its columns
in other places.  The merge is silent exactly when no such misreading finds a name to
change (`keepsLocal_iff`).
-/

namespace Coopy

open Lib

namespace Merger

/-! ## Column passes with nothing to do -/

section
variable {units : List MatchUnit} (s : ColState)

theorem deletePass_quiet (indexes : AssocMap String Bool) (h : ∀ u ∈ units, u.deleted = false) :
    deletePass indexes units s = .ok s := by
  induction units with
  | nil => rfl
  | cons u units ih =>
    unfold deletePass
    rw [if_neg (by rw [h u (by simp)]; simp)]
    exact ih fun w hw => h w (List.mem_cons_of_mem _ hw)

theorem move_self (dest : List Int) (fuel : Nat) :
    Mover.move dest (fuel + 1) dest [] [] 0 Mover.fresh = some (Mover.fresh, true, []) := by
  unfold Mover.move
  simp [Mover.fresh]

theorem shufflePass_quiet (h : shuffledCols units = s.localCols) : shufflePass units s = .ok s := by
  unfold shufflePass
  simp only [h, ne_eq, not_true_eq_false, if_false, move_self]
  rfl

theorem insertPass_quiet (remoteNames : NameSniffer)
    (h : ∀ u ∈ units, u.pivotUnit = -1 → u.remoteUnit = -1) :
    ∀ k, insertPass remoteNames k units s = .ok s := by
  induction units with
  | nil => exact fun k => rfl
  | cons u units ih =>
    intro k
    unfold insertPass
    rw [if_neg (fun hu => hu.2.1 (h u (by simp) hu.1))]
    exact ih (fun w hw => h w (List.mem_cons_of_mem _ hw)) _

/-- Where every unit is a local column in its place, only pass 4 is left. -/
theorem columnPasses_quiet (flags : CompareFlags) (indexes : AssocMap String Bool)
    (localNames remoteNames : NameSniffer)
    (hdel : ∀ u ∈ units, u.deleted = false) (hins : ∀ u ∈ units, u.pivotUnit = -1 →
      u.remoteUnit = -1)
    (hshuf : shuffledCols units = s.localCols) :
    columnPasses flags indexes localNames remoteNames units s =
      if flags.assumeHeader then renamePass localNames remoteNames units s else .ok s := by
  unfold columnPasses
  rw [deletePass_quiet s indexes hdel]
  simp only [Except.bind]
  rw [shufflePass_quiet s hshuf]
  simp only
  rw [insertPass_quiet s remoteNames hins]

end

/-! ## Pass 4 -/

/-- Pass 4 finds nothing to rename at this unit. -/
def NamesAgree (localNames remoteNames : NameSniffer) (names : List String)
    (unit : MatchUnit) : Prop :=
  ∃ lName rName, localNames.suggestColumnName unit.pivotUnit.toNat = some lName ∧
    remoteNames.suggestColumnName unit.remoteUnit.toNat = some rName ∧
    (lName = rName ∨ lName ∉ names)

/-- The units pass 4 looks at. -/
def Renamable (unit : MatchUnit) : Prop := unit.pivotUnit ≠ -1 ∧ unit.remoteUnit ≠ -1 ∧
    unit.deleted = false

section
variable {localNames remoteNames : NameSniffer}

theorem renamePass_quiet {units : List MatchUnit} {s : ColState}
    (h : ∀ u ∈ units, Renamable u → NamesAgree localNames remoteNames s.localColNames u) :
    renamePass localNames remoteNames units s = .ok s := by
  induction units with
  | nil => rfl
  | cons u units ih =>
    have hrest := ih fun w hw => h w (List.mem_cons_of_mem _ hw)
    unfold renamePass
    split
    · next hu =>
      obtain ⟨lName, rName, hl, hr, hag⟩ := h u (by simp) hu
      rw [hl, hr]
      simp only
      rw [if_neg (fun hx => hag.elim hx.1 fun hout => hout hx.2)]
      exact hrest
    · exact hrest

theorem renamePass_loud (units : List MatchUnit) :
    ∀ s s' : ColState, renamePass localNames remoteNames units s = .ok s' →
    (∃ u ∈ units, Renamable u ∧ ¬ NamesAgree localNames remoteNames s.localColNames u) →
    s.cc.length < s'.cc.length := by
  induction units with
  | nil => rintro s s' - ⟨u, hu, -⟩; cases hu
  | cons u units ih =>
    rintro s s' h ⟨w, hw, hren, hno⟩
    unfold renamePass at h
    split at h
    · split at h
      · next lName rName hl hr =>
        split at h
        · obtain ⟨-, renames, hcc, -⟩ := renamePass_report units _ _ h
          rw [hcc, List.length_append, List.length_append, List.length_singleton]
          omega
        · next hag =>
          refine ih s s' h ⟨w, ?_, hren, hno⟩
          rcases List.mem_cons.mp hw with rfl | hw
          · refine absurd ⟨lName, rName, hl, hr, ?_⟩ hno
            by_cases he : lName = rName
            · exact Or.inl he
            · exact Or.inr fun hm => hag ⟨he, hm⟩
          · exact hw
      · cases h
    · next hu =>
      rcases List.mem_cons.mp hw with rfl | hw
      · exact absurd hren hu
      · exact ih s s' h ⟨w, hw, hren, hno⟩

end

/-! ## The merge -/

/-- The merge reports nothing, so that local stays as it is. -/
def KeepsLocal (state : MergerState) : Prop :=
  ∃ r, merge state = .ok r ∧ r.columnChanges = [] ∧ r.rowChanges = [] ∧ r.conflicted = false

/-- A merge in which the remote is the pivot. -/
def unchangedRemote (pivot locals : DataSheet) (rows : Matching pivot.height locals.height)
    (cols : Matching pivot.width locals.width) (useOrder assumeHeader : Bool)
    (localNames remoteNames : NameSniffer) : MergerState where
  pivot := pivot
  locals := locals
  remote := pivot
  rowLocal := rows.toOrderResult
  rowRemote := (Matching.identity pivot.height).toOrderResult
  colLocal := cols.toOrderResult
  colRemote := (Matching.identity pivot.width).toOrderResult
  flags := { useOrder := useOrder, assumeHeader := assumeHeader }
  localNames := localNames
  remoteNames := remoteNames

/-- Where the remote has the pivot's cell, the merged cell is local's. -/
theorem mergedCell_unchanged (flags : CompareFlags) {l r : SheetCell} (hl : l.Stored) :
    mergedCell flags l r r = ⟨l, false, false⟩ := by
  unfold mergedCell
  by_cases hs : sameCell flags l r = true
  · rw [if_pos hs]
  · rw [if_neg hs, if_neg hl.ne_blankCell]
    split
    · rfl
    · rw [if_neg (by rw [sameCell_comm]; exact hs), if_pos (sameCell_refl flags r)]

theorem countOverlap_pos {n m : Nat} (M : Matching n m) {p l : Nat} (h : M.fwd p = some l) :
    OrderMerge.countOverlap (OrderMerge.localUnits M) ≠ 0 := by
  have hb := (M.fwd_eq_some_iff p l).mp h
  have hmem : OrderMerge.unitAt M (Matching.identity n) l ∈ OrderMerge.localUnits M :=
    List.mem_map.mpr ⟨l, List.mem_range.mpr (M.fwd_lt h).2, rfl⟩
  have hpos : 0 < OrderMerge.countOverlap (OrderMerge.localUnits M) := by
    refine List.countP_pos_iff.mpr ⟨_, hmem, ?_⟩
    rw [OrderMerge.unitAt_identity_remote, hb]
    simp only [Bool.and_eq_true, bne_iff_ne]
    omega
  omega

section
variable {pivot locals : DataSheet} (rows : Matching pivot.height locals.height)
  (cols : Matching pivot.width locals.width) (useOrder assumeHeader : Bool)
    (localNames remoteNames : NameSniffer)

theorem colUnits_unchangedRemote :
    colUnits (unchangedRemote pivot locals rows cols useOrder assumeHeader localNames remoteNames) =
      some ⟨OrderMerge.localUnits cols, OrderMerge.countOverlap (OrderMerge.localUnits cols)⟩ := by
  unfold colUnits
  exact OrderMerge.merge_identity_remote rfl rfl cols true (by
    show _ ≤ cols.toOrderResult.blen + (Matching.identity pivot.width).toOrderResult.blen + 1
    rw [Matching.blen_toOrderResult, Matching.blen_toOrderResult])

theorem rowUnits_unchangedRemote {overlap : Nat} (h : overlap ≠ 0) :
    rowUnits (unchangedRemote pivot locals rows cols useOrder assumeHeader localNames remoteNames)
    overlap =
      some (OrderMerge.localUnits rows) := by
  unfold rowUnits
  rw [if_neg h]
  show Option.map OrderMerge.accum (OrderMerge.merge _ rows.toOrderResult
    (Matching.identity pivot.height).toOrderResult _ false) = _
  rw [OrderMerge.merge_identity_remote rfl rfl rows false]
  · rfl
  · show _ ≤ rows.toOrderResult.blen + (Matching.identity pivot.height).toOrderResult.blen + 1
    rw [Matching.blen_toOrderResult, Matching.blen_toOrderResult]

/-- Each row of local is one that nothing happened to. -/
theorem quiet_unchangedRemote (names : List String) (s : ColState) :
    ∀ u ∈ OrderMerge.localUnits rows,
      Quiet (rowContext
        (unchangedRemote pivot locals rows cols useOrder assumeHeader localNames remoteNames)
        (OrderMerge.localUnits cols) names s) u := by
  intro u hu
  have hside := OrderMerge.localUnits_sides rows u hu
  refine ⟨OrderMerge.map_unitAt_nonneg rows _ u hu, OrderMerge.localUnits_deleted rows u hu,
    fun h => hside.trans h, ?_⟩
  intro unit hunit
  have hcell :
    mergedAt
      (rowContext
        (unchangedRemote pivot locals rows cols useOrder assumeHeader localNames remoteNames)
      (OrderMerge.localUnits cols) names s) u unit =
      ⟨cellAt locals unit.localUnit u.localUnit, false, false⟩ := by
    unfold mergedAt
    rw [hside, OrderMerge.localUnits_sides cols unit hunit]
    exact mergedCell_unchanged _ (cellAt_stored locals (OrderMerge.map_unitAt_nonneg rows _ u hu)
      (OrderMerge.map_unitAt_nonneg cols _ unit hunit))
  rw [hcell]
  exact ⟨rfl, fun _ => rfl⟩

end

/-- **An unchanged remote.**  The merge keeps local exactly when no header is assumed, or at
each shared column the local name read at the pivot index is the remote name or names
no local column. -/
theorem keepsLocal_iff (pivot locals : DataSheet) (rows : Matching pivot.height locals.height)
    (cols : Matching pivot.width locals.width) (useOrder assumeHeader : Bool)
    (localNames remoteNames : NameSniffer)
    (hl : localNames.Fits locals.width) (hshared : ∃ p l : Nat, cols.a2b p = l) :
    KeepsLocal
      (unchangedRemote pivot locals rows cols useOrder assumeHeader localNames remoteNames) ↔
      (assumeHeader = true → ∀ p l : Nat, cols.a2b p = l →
        ∃ lName rName, localNames.suggestColumnName p = some lName ∧
        remoteNames.suggestColumnName p = some rName ∧
          (lName = rName ∨ lName ∉ localNames.columnNames locals.width)) := by
  obtain ⟨p0, l0, h0⟩ := hshared
  have hover := countOverlap_pos cols ((cols.a2b_eq_iff p0 l0).mp h0)
  have hcols := colUnits_unchangedRemote rows cols useOrder assumeHeader localNames remoteNames
  have hnames :
    originalColNames
      (unchangedRemote pivot locals rows cols useOrder assumeHeader localNames remoteNames) =
      .ok (localNames.columnNames locals.width) := originalColNames_eq hl.mapM_suggestColumnName
  have hpasses :=
    columnPasses_quiet (ColState.start locals.width (localNames.columnNames locals.width))
    (unchangedRemote pivot locals rows cols useOrder assumeHeader localNames remoteNames).flags
      (indexMap { useOrder := useOrder, assumeHeader := assumeHeader }
      (localNames.columnNames locals.width)
      (IndexSniffer.sniff locals { useOrder := useOrder, assumeHeader := assumeHeader } localNames))
    localNames remoteNames (OrderMerge.localUnits_deleted cols)
    (fun u hu h => (OrderMerge.localUnits_sides cols u hu).symm.trans h)
    (shuffledCols_in_order cols _ (OrderMerge.localUnits_deleted cols))
  -- the units pass 4 looks at are the pairs of the matching
  have hunits : (∀ u ∈ OrderMerge.localUnits cols, Renamable u →
        NamesAgree localNames remoteNames (localNames.columnNames locals.width) u) ↔
      ∀ p l : Nat, cols.a2b p = l → ∃ lName rName, localNames.suggestColumnName p = some lName ∧
        remoteNames.suggestColumnName p = some rName ∧
          (lName = rName ∨ lName ∉ localNames.columnNames locals.width) := by
    constructor
    · intro h p l hpl
      have hf := (cols.a2b_eq_iff p l).mp hpl
      have hb := (cols.fwd_eq_some_iff p l).mp hf
      have hu :
        OrderMerge.unitAt cols (Matching.identity pivot.width) l = ⟨p, l, p, false, .preserve⟩ := by
        rw [OrderMerge.unitAt_identity_remote, hb]
      exact h ⟨p, l, p, false, .preserve⟩
        (List.mem_map.mpr ⟨l, List.mem_range.mpr (cols.fwd_lt hf).2, hu⟩)
          ⟨by simp only []; omega, by simp only []; omega, rfl⟩
    · intro h u hu hren
      obtain ⟨l, -, rfl⟩ := List.mem_map.mp hu
      cases hb : cols.bwd l with
      | none =>
        refine absurd ?_ hren.1
        rw [OrderMerge.unitAt_identity_remote, hb]
      | some p =>
        rw [OrderMerge.unitAt_identity_remote, hb]
        exact h p l ((cols.a2b_eq_iff p l).mpr ((cols.fwd_eq_some_iff p l).mpr hb))
  constructor
  · rintro ⟨r, hr, hcc, -, -⟩ hah
    rw [← hunits]
    by_contra hno
    simp only [not_forall] at hno
    obtain ⟨u, hu, hren, hnot⟩ := hno
    obtain ⟨s, hs, hscc⟩ := merge_ok_columns rfl rfl hcols hnames hr
    rw [hcc] at hscc
    have hpass : renamePass localNames remoteNames (OrderMerge.localUnits cols)
        (ColState.start locals.width (localNames.columnNames locals.width)) = .ok s :=
      (if_pos hah).symm.trans (hpasses.symm.trans hs)
    have := renamePass_loud _ _ _ hpass ⟨u, hu, hren, hnot⟩
    rw [← hscc] at this
    exact absurd this (by simp)
  · intro h
    have hstart :
      (if assumeHeader then renamePass localNames remoteNames (OrderMerge.localUnits cols)
        (ColState.start locals.width (localNames.columnNames locals.width)) else
        .ok (ColState.start locals.width (localNames.columnNames locals.width))) =
        .ok (ColState.start locals.width (localNames.columnNames locals.width)) := by
      split
      · next hah => exact renamePass_quiet (hunits.mpr (h hah))
      · rfl
    have hm :=
      merge_eq rfl rfl hcols
        (rowUnits_unchangedRemote rows cols useOrder assumeHeader localNames remoteNames hover)
      hnames (hpasses.trans hstart) rfl
    obtain ⟨h1, h2⟩ := mergeRows_quiet (OrderMerge.localUnits rows)
      (quiet_unchangedRemote rows cols useOrder assumeHeader localNames remoteNames
        (localNames.columnNames locals.width)
        (ColState.start locals.width (localNames.columnNames locals.width)))
      ((OrderMerge.map_unitAt_pairwise rows _).imp fun h => h.le) {} ⟨rfl, rfl⟩
      (fun u hu => by
        have := OrderMerge.map_unitAt_nonneg rows _ u hu
        show (-1 : Int) ≤ u.localUnit
        omega)
    refine ⟨_, hm, report_columnChanges rfl _ _ _ _, ?_, h2⟩
    rw [report_rowChanges rfl, h1]
    rfl

/-- One row of cells that hold texts. -/
def textRow (texts : List String) : List SheetCell := texts.map fun text => ⟨text, false⟩

/-- Pivot columns `A`, `B`, to which local added a column `X` in front. -/
def colsAB : DataSheet := ⟨2, [textRow ["1", "2"]], by decide, by decide⟩

def colsXAB : DataSheet := ⟨3, [textRow ["0", "1", "2"]], by decide, by decide⟩

def afterX : Matching 2 3 := ⟨⟨[1, 2], [-1, 0, 1]⟩, rfl, rfl, by decide, by decide, by decide⟩

theorem keepsLocal_iff_added_column :
    KeepsLocal
      (unchangedRemote colsAB colsXAB (Matching.identity 1) afterX true false ⟨["X", "A", "B"], []⟩
        ⟨["A", "B"], []⟩) ↔
      (false = true → ∀ p l : Nat, afterX.a2b p = l → ∃ lName rName,
        NameSniffer.suggestColumnName ⟨["X", "A", "B"], []⟩ p = some lName ∧
          NameSniffer.suggestColumnName ⟨["A", "B"], []⟩ p = some rName ∧
            (lName = rName ∨ lName ∉ NameSniffer.columnNames ⟨["X", "A", "B"], []⟩ 3)) :=
  keepsLocal_iff colsAB colsXAB (Matching.identity 1) afterX true false ⟨["X", "A", "B"], []⟩
    ⟨["A", "B"], []⟩ (Or.inr rfl)
    ⟨0, 1, by decide⟩

/-- Pass 4 renames the new column `X` to `A`. -/
theorem renames_added_column :
    ¬ KeepsLocal
      (unchangedRemote colsAB colsXAB (Matching.identity 1) afterX true true ⟨["X", "A", "B"], []⟩
      ⟨["A", "B"], []⟩) := by
  rintro ⟨r, hr, hcc, -, -⟩
  have hm :
    (merge (unchangedRemote colsAB colsXAB (Matching.identity 1) afterX true true
      ⟨["X", "A", "B"], []⟩
      ⟨["A", "B"], []⟩)).toOption.map (fun r => r.columnChanges.length) = some 2 := by
        decide +kernel
  rw [hr] at hm
  simp only [Except.toOption, Option.map_some, hcc] at hm
  exact absurd hm (by decide)

end Merger

end Coopy
