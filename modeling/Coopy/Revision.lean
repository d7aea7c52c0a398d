import Coopy.Lib.SingledOut
import Coopy.LinedColumns
import Coopy.ThreeWay

/-!
# A table revised, columns and all

Remote is local with columns dropped, added and moved, and with rows dropped, added and changed.
The merge of a comparison puts all of it in one script, columns first, and the patcher that runs the
script on local gets the remote: its columns in order, and its rows in some order.

    merge, then `changeColumns` and `changeRows` on local → the rows of the remote
                                                                                (patch_makes_remote)

The patcher finds a row by the cells that it shares with the remote, and so a row must be told by
these (`Told`).
-/

namespace Coopy

open Lib Merger

open Comparison (pairUnit deleteUnit)

/-- Two tables, and which of their columns and rows correspond. -/
structure Revision where
  locals : DataSheet
  remote : DataSheet
  localNames : List String
  remoteNames : List String
  cols : Matching localNames.length remoteNames.length
  rows : Matching locals.height remote.height
  names_nodup : localNames.Nodup
  local_usable : "---" ∉ localNames
  remote_usable : "---" ∉ remoteNames
  local_width : locals.width = localNames.length
  remote_width : remote.width = remoteNames.length
  shared : ∃ l r, cols.fwd l = some r

namespace Merger

/-! ## What is left of the columns -/

/-- Columns are all gone only if none is left. -/
theorem deletePass_allGone {indexes : AssocMap String Bool} (units : List MatchUnit) :
    ∀ s s' : ColState,
    deletePass indexes units s = .ok s' → s'.localCols ≠ [] → s'.allGone = s.allGone ∧
    s.localCols ≠ [] := by
  induction units with
  | nil =>
    intro s s' h hne
    cases h
    exact ⟨rfl, hne⟩
  | cons u units ih =>
    intro s s' h hne
    unfold deletePass at h
    simp only at h
    split at h
    · split at h
      · next hmem =>
        obtain ⟨hgone, hleft⟩ := ih _ s' h hne
        simp only at hgone hleft
        refine ⟨?_, List.ne_nil_of_mem hmem⟩
        rw [hgone, List.isEmpty_eq_false_iff.2 hleft, Bool.or_false]
      · cases h
    · exact ih s s' h hne

/-- An inserted column is not named like one that is gone. -/
theorem withUnderscores_usable (j : Nat) : ∀ {name : String}, name ≠ "---" →
    withUnderscores j name ≠ "---" := by
  have hlast : ∀ (j : Nat) (name : String), name.toList.getLast? = some '_' →
      (withUnderscores j name).toList.getLast? = some '_' := by
    intro j
    induction j with
    | zero => exact fun name h => h
    | succ j ih => exact fun name _ => ih (name ++ "_") (by simp)
  intro name hname
  cases j with
  | zero => exact hname
  | succ j =>
    intro he
    have hend := hlast j (name ++ "_") (by simp)
    rw [show withUnderscores j (name ++ "_") = "---" from he] at hend
    exact absurd hend (by decide)

theorem braced_usable {name : String} (hname : name ≠ "---") : braced name ≠ "---" := by
  unfold braced
  split
  · split
    · intro he
      have hfirst := congrArg (fun s : String => s.toList.head?) he
      simp at hfirst
    · exact hname
  · exact hname

/-- A name under which the patcher can find the column. -/
theorem ColName.usable {lnames rnames : List String} {id : Int} {name : String}
    (h : ColName lnames rnames id name)
    (hl : "---" ∉ lnames) (hr : "---" ∉ rnames) : name ≠ "---" := by
  rcases h with ⟨l, -, hget⟩ | ⟨r, j, rName, -, hget, rfl⟩
  · rintro rfl
    exact hl (List.mem_of_getElem? hget)
  · refine withUnderscores_usable j (braced_usable ?_)
    rintro rfl
    exact hr (List.mem_of_getElem? hget)

end Merger

namespace Revision

variable (v : Revision)

def state : MergerState where
  pivot := v.locals
  locals := v.locals
  remote := v.remote
  rowLocal := (Matching.identity v.locals.height).toOrderResult
  rowRemote := v.rows.toOrderResult
  colLocal := (Matching.identity v.localNames.length).toOrderResult
  colRemote := v.cols.toOrderResult
  flags := { useOrder := false, assumeHeader := false }
  localNames := ⟨v.localNames, []⟩
  remoteNames := ⟨v.remoteNames, []⟩

/-- The changes that a merge reports, made to a copy of local.  No row is taken for a header. -/
def patch (zero : SheetCell) (r : MergeResult) : Option SheetPatcher :=
  (SheetPatcher.attach ⟨v.locals.rows, v.localNames.length, zero⟩ v.localNames false).bind fun p =>
    (SheetPatcher.changeColumns r.columnChanges p).bind fun p =>
      SheetPatcher.changeRows r.rowChanges p

/-- The columns of the remote: those of local by their index, and new ones below zero. -/
def wanted : List Int := (List.range v.remoteNames.length).map fun j =>
    (v.cols.bwd j).elim (-(j : Int) - 1) Int.ofNat

def kept : List MatchUnit := OrderMerge.remoteUnits v.cols

def gone : List MatchUnit := OrderMerge.deletedUnits v.cols

def indexes : AssocMap String Bool :=
  indexMap v.state.flags v.localNames
    (IndexSniffer.sniff v.locals v.state.flags ⟨v.localNames, []⟩)

/-- The moves of the columns, made one by one as pass 2 makes them, lead to the order of the
remote. -/
def Placed : Prop :=
  ∀ order, moveOrder (keptCols v.cols) (keptOrder v.cols) = some order →
    PlacementAgrees (keptOrder v.cols) (keptCols v.cols) order

/-! ## The columns -/

/-- What the column passes come to. -/
structure Columns (s : ColState) : Prop where
  passes : columnPasses v.state.flags v.indexes ⟨v.localNames, []⟩ ⟨v.remoteNames, []⟩
    (v.kept ++ v.gone) (ColState.start v.localNames.length v.localNames) = .ok s
  cols : s.localCols = v.wanted
  left : s.allGone = false
  nodup : s.localColNames.Nodup
  named : List.Forall₂ (ColName v.localNames v.remoteNames) v.wanted s.localColNames
  leads : ∀ (rows : List (List SheetCell)) (p : SheetPatcher),
    InStep v.localNames v.remoteNames rows p (ColState.start v.localNames.length v.localNames) →
      Leads v.localNames v.remoteNames rows p (ColState.start v.localNames.length v.localNames) s

section
variable {v} {zero : SheetCell}

theorem keptOrder_ne_nil : keptOrder v.cols ≠ [] := by
  obtain ⟨l, r, h⟩ := v.shared
  have hmem : Int.ofNat l ∈ keptOrder v.cols :=
    List.mem_filterMap.2
      ⟨r, List.mem_range.2 (v.cols.fwd_lt h).2, by rw [(v.cols.fwd_eq_some_iff l r).1 h]; rfl⟩
  exact List.ne_nil_of_mem hmem

theorem suggest {names : List String} {i : Nat} (hi : i < names.length) :
    (⟨names, []⟩ : NameSniffer).suggestColumnName i = some names[i] := by
  unfold NameSniffer.suggestColumnName
  rw [if_pos (by show 0 < names.length; omega), List.getElem?_eq_getElem hi]

theorem columns (hplaced : v.Placed) : ∃ s, v.Columns s := by
  obtain ⟨order, s1, s2, s3, h⟩ := passes v.localNames v.remoteNames v.cols v.indexes
  have htwo := twoWay_units v.cols
  have hcols2 := h.placed_iff.2 (hplaced order h.moves)
  have hcols3 : s3.localCols = v.wanted := by
    have hins :=
      insertPass_cols _ htwo [] s2 s3 (by rw [hcols2, shuffledCols_remote]; rfl) h.inserted
    exact hins.trans (wantedCols_remote v.cols)
  obtain ⟨moved, hs2, hlength⟩ : ∃ order, movePass (keptOrder v.cols) order s1 = .ok s2 ∧
      s1.localCols.length = (keptOrder v.cols).length := by
    have hshuffled := h.shuffled
    unfold shufflePass at hshuffled
    rw [shuffledCols_remote] at hshuffled
    simp only at hshuffled
    split at hshuffled
    · cases hshuffled
    · next hlength =>
      split at hshuffled
      · cases hshuffled
      · exact ⟨_, hshuffled, not_not.1 hlength⟩
  have hgone : s3.allGone = false := by
    have hne : s1.localCols ≠ [] := fun hnil => by
      rw [hnil] at hlength
      exact keptOrder_ne_nil (List.length_eq_zero_iff.1 hlength.symm)
    rw [(insertPass_report _ 0 s2 s3 h.inserted).1, (movePass_report moved s1 s2 hs2).1,
      (deletePass_allGone _ _ s1 h.deleted hne).1]
    rfl
  -- the names are those that a patcher shows, were it to run the script on a sheet without rows
  obtain ⟨p0, -, hin0⟩ := attach_inStep v.remoteNames v.names_nodup
    (show (⟨[], v.localNames.length, SheetCell.null⟩ : TypedSheet SheetCell).w =
      v.localNames.length from rfl)
    (fun row hrow => absurd hrow List.not_mem_nil) false
  obtain ⟨script, p, -, -, hin⟩ := h.leads [] p0 hin0
  obtain ⟨nm, hnm, hcol⟩ := hin.named
  have hnamed : List.Forall₂ (ColName v.localNames v.remoteNames) v.wanted s3.localColNames := by
    rw [← hcols3, hnm, List.forall₂_map_right_iff]
    exact List.forall₂_same.2 hcol
  refine ⟨s3, ?_, hcols3, hgone, hin.shows.names_nodup, hnamed, h.leads⟩
  unfold columnPasses
  rw [show deletePass v.indexes (v.kept ++ v.gone) _ = .ok s1 from h.deleted]
  simp only [Except.bind]
  rw [show shufflePass (v.kept ++ v.gone) s1 = .ok s2 from h.shuffled]
  simp only
  rw [show insertPass ⟨v.remoteNames, []⟩ 0 (v.kept ++ v.gone) s2 = .ok s3 from h.inserted]
  rfl

/-- The merge finds its way through the columns, and reports the rows one unit after the other. -/
def units (v : Revision) : List MatchUnit :=
  OrderMerge.sweepFrom (Matching.identity v.locals.height) v.rows (List.range v.locals.height) 0

def context (v : Revision) (s : ColState) : RowContext :=
  rowContext v.state (v.kept ++ v.gone) v.localNames s

/-- The change of a row unit, before its mode is known. -/
def change (v : Revision) (s : ColState) (u : MatchUnit) : RowChange :=
  rowChangeOf (v.context s) u
    (valuesOf (v.context s) u 0 (v.context s).colAccum {})

/-- A change as it is reported. -/
def reported (v : Revision) (s : ColState) (change : RowChange) : RowChange :=
  { change with
    indexes := reportedIndexes v.localNames v.indexes s
    allNames := s.localColNames }

theorem colUnits_eq : colUnits v.state =
    some ⟨v.kept ++ v.gone, OrderMerge.countOverlap (v.kept ++ v.gone)⟩ := by
  unfold colUnits
  exact OrderMerge.merge_identity_local rfl rfl v.cols rfl (by
    unfold OrderMerge.enough
    show _ ≤ (Matching.identity v.localNames.length).toOrderResult.blen +
      v.cols.toOrderResult.blen + 1
    rw [Matching.blen_toOrderResult, Matching.blen_toOrderResult])

theorem overlap_ne_zero : OrderMerge.countOverlap (v.kept ++ v.gone) ≠ 0 := by
  obtain ⟨l, r, h⟩ := v.shared
  have hunit : OrderMerge.remoteUnitAt v.cols r = ⟨l, l, r, false, .preserve⟩ := by
    unfold OrderMerge.remoteUnitAt
    rw [(v.cols.fwd_eq_some_iff l r).1 h]
  have hpos : 0 < OrderMerge.countOverlap (v.kept ++ v.gone) := by
    refine List.countP_pos_iff.2 ⟨⟨l, l, r, false, .preserve⟩, List.mem_append_left _ ?_, ?_⟩
    · exact List.mem_map.2 ⟨r, List.mem_range.2 (v.cols.fwd_lt h).2, hunit⟩
    · simp only [Bool.and_eq_true, bne_iff_ne]
      omega
  omega

theorem rowUnits_eq : rowUnits v.state (OrderMerge.countOverlap (v.kept ++ v.gone)) =
    some v.units := by
  unfold rowUnits units
  rw [if_neg overlap_ne_zero]
  show Option.map OrderMerge.accum (OrderMerge.merge
    (OrderMerge.enough (Matching.identity v.locals.height).toOrderResult v.rows.toOrderResult)
    (Matching.identity v.locals.height).toOrderResult v.rows.toOrderResult
      { useOrder := false, assumeHeader := false } false) = _
  rw [OrderMerge.merge_eq _ _ rfl rfl false (Nat.le_refl _)]
  rfl

theorem originalColNames_eq : originalColNames v.state = .ok v.localNames := by
  have hname : ∀ i ∈ List.range v.localNames.length,
      (⟨v.localNames, []⟩ : NameSniffer).suggestColumnName i = some (v.localNames.getD i "") := by
    intro i hi
    have hlt := List.mem_range.1 hi
    rw [suggest hlt, List.getD_eq_getElem _ _ hlt]
  have hall : (List.range v.localNames.length).map (fun i => v.localNames.getD i "") =
    v.localNames := by
    refine List.ext_getElem (by simp) fun i h1 h2 => ?_
    rw [List.getElem_map, List.getElem_range, List.getD_eq_getElem _ _ h2]
  refine Merger.originalColNames_eq ?_
  show (List.range v.locals.width).mapM _ = _
  rw [v.local_width]
  exact (mapM_eq_some_map hname).trans (congrArg some hall)

/-- The merge reports the column changes, and the row changes one unit after the other. -/
theorem merge_changes {s : ColState} (h : v.Columns s) : ∃ r, merge v.state = .ok r ∧
    r.columnChanges = s.cc ∧
    r.rowChanges = (v.units.flatMap fun u => unorderedRow u (v.change s u)).map (v.reported s) ∧
    r.conflicted = (v.units.foldl (rowStep (v.context s)) {}).conflicted := by
  have hpasses := h.passes
  rw [← v.local_width] at hpasses
  have hm := Merger.merge_eq rfl rfl colUnits_eq rowUnits_eq originalColNames_eq hpasses h.left
  refine ⟨_, hm, report_columnChanges rfl _ _ _ _, ?_, rfl⟩
  rw [report_rowChanges rfl, foldl_rowStep_unordered rfl rfl]
  rfl

end

/-! ## The rows that a patcher sees -/

/-- The columns that both tables have, with their index on each side. -/
def sharedCols : List (Nat × Nat) :=
  (List.range v.remoteNames.length).filterMap fun j => (v.cols.bwd j).map fun i => (i, j)

/-- What a local row has in the shared columns. -/
def localCells (l : Nat) : List SheetCell :=
  v.sharedCols.map fun e => (v.locals.row l).getD e.1 SheetCell.null

/-- What a row under the columns of the remote has there. -/
def sharedCells (row : List SheetCell) : List SheetCell :=
  v.sharedCols.map fun e => row.getD e.2 SheetCell.null

/-- A local row once the columns have been changed. -/
def image (zero : SheetCell) (l : Nat) : List SheetCell :=
  v.wanted.map (SheetPatcher.cellOf zero (v.locals.row l))

/-- The shared columns tell each local row from the others, and from the remote rows that are not
its partner. -/
structure Told : Prop where
  distinct : ∀ l < v.locals.height, ∀ l' < v.locals.height,
    v.localCells l = v.localCells l' → l = l'
  paired : ∀ l < v.locals.height, ∀ r < v.remote.height, v.localCells l =
    v.sharedCells (v.remote.row r) → v.rows.fwd l = some r

/-- A missing value of the remote is what a new cell holds. -/
def NullsKept (zero : SheetCell) : Prop :=
  zero = SheetCell.null ∨ ∀ row ∈ v.remote.rows, ∀ c ∈ row, c.escaped = false

section
variable {v} {zero : SheetCell} {s : ColState}

theorem mem_sharedCols {i j : Nat} : (i, j) ∈ v.sharedCols ↔ v.cols.bwd j = some i := by
  unfold sharedCols
  rw [List.mem_filterMap]
  constructor
  · rintro ⟨j', -, hj⟩
    obtain ⟨i', hb, he⟩ := Option.map_eq_some_iff.1 hj
    obtain ⟨rfl, rfl⟩ := Prod.mk.inj he
    exact hb
  · intro hb
    exact ⟨j, List.mem_range.2 (v.cols.bwd_lt hb).2, by rw [hb]; rfl⟩

theorem sharedCells_eq_iff {row : List SheetCell} {l : Nat} : v.sharedCells row = v.localCells l ↔
    ∀ i j, v.cols.bwd j = some i →
    row.getD j SheetCell.null = (v.locals.row l).getD i SheetCell.null := by
  unfold sharedCells localCells
  rw [List.map_inj_left]
  constructor
  · exact fun h i j hb => h (i, j) (mem_sharedCols.2 hb)
  · exact fun h e he => h e.1 e.2 (mem_sharedCols.1 he)

theorem length_wanted : v.wanted.length = v.remoteNames.length := by
  unfold wanted
  rw [List.length_map, List.length_range]

theorem length_image (l : Nat) : (v.image zero l).length = v.remoteNames.length := by
  unfold image
  rw [List.length_map, length_wanted]

theorem local_length {l : Nat} (hl : l < v.locals.height) :
    (v.locals.row l).length = v.localNames.length :=
  (v.locals.row_length hl).trans v.local_width

theorem remote_length {r : Nat} (hr : r < v.remote.height) :
    (v.remote.row r).length = v.remoteNames.length :=
  (v.remote.row_length hr).trans v.remote_width

theorem image_at {l j : Nat} (hl : l < v.locals.height) (hj : j < v.remoteNames.length) :
    (v.image zero l)[j]? =
    some ((v.cols.bwd j).elim zero fun i => (v.locals.row l).getD i SheetCell.null) := by
  unfold image wanted
  rw [List.getElem?_map, List.getElem?_map, List.getElem?_range hj, Option.map_some,
    Option.map_some]
  refine congrArg some ?_
  cases hb : v.cols.bwd j with
  | none => exact if_pos (by rw [Option.elim_none]; omega)
  | some i =>
    have hi : i < (v.locals.row l).length := by
      rw [local_length hl]
      exact (v.cols.bwd_lt hb).1
    unfold SheetPatcher.cellOf
    rw [Option.elim_some, Option.elim_some, if_neg (by simp), show (Int.ofNat i).toNat = i from rfl,
      List.getD_eq_getElem _ _ hi, List.getD_eq_getElem _ _ hi]

theorem sharedCells_image {l : Nat} (hl : l < v.locals.height) :
    v.sharedCells (v.image zero l) = v.localCells l := by
  refine sharedCells_eq_iff.2 fun i j hb => ?_
  rw [List.getD_eq_getElem?_getD, image_at hl (v.cols.bwd_lt hb).2, hb]
  rfl

/-! ## What each unit changes -/

theorem length_names (h : v.Columns s) : s.localColNames.length = v.remoteNames.length :=
  h.named.length_eq.symm.trans length_wanted

theorem lined (h : v.Columns s) : Lined (v.context s) v.kept v.gone := by
  refine ⟨h.nodup, rfl, ?_, ?_, ?_, rfl⟩
  · show s.localColNames.length = ((List.range v.remoteNames.length).map _).length
    rw [length_names h, List.length_map, List.length_range]
  · intro u hu
    obtain ⟨r, -, rfl⟩ := List.mem_map.1 hu
    exact OrderMerge.remoteUnitAt_deleted v.cols r
  · intro u hu
    obtain ⟨l, -, rfl⟩ := List.mem_map.1 hu
    rfl

theorem kept_at {j : Nat} (hj : j < v.remoteNames.length) :
    v.kept[j]? = some (OrderMerge.remoteUnitAt v.cols j) := by
  unfold kept OrderMerge.remoteUnits
  rw [List.getElem?_map, List.getElem?_range hj]
  rfl

theorem remoteUnitAt_shared {i j : Nat} (hb : v.cols.bwd j = some i) :
    OrderMerge.remoteUnitAt v.cols j = ⟨i, i, j, false, .preserve⟩ := by
  unfold OrderMerge.remoteUnitAt
  rw [hb]

theorem remoteUnitAt_new {j : Nat} (hb : v.cols.bwd j = none) :
    OrderMerge.remoteUnitAt v.cols j = OrderMerge.insertUnit j := by
  unfold OrderMerge.remoteUnitAt
  rw [hb]

/-- The conditions of a local row: its cells in the shared columns. -/
theorem cond_enters (h : v.Columns s) {u : MatchUnit} {l : Nat} (hu : u.localUnit = l) :
    Enters s.localColNames (fun j => (v.cols.bwd j).map fun i =>
      (v.locals.row l).getD i SheetCell.null)
      (v.change s u).cond := by
  show Enters s.localColNames _ (rowCond (v.context s) u.localUnit 0 (v.context s).colAccum [])
  rw [hu]
  refine ((lined h).rowCond_enters l).congr fun j hj => ?_
  rw [kept_at (by rw [← length_names h]; exact hj), Option.bind_some]
  unfold localEntry
  cases hb : v.cols.bwd j with
  | none =>
    rw [remoteUnitAt_new hb]
    exact if_neg (by show ¬(0 : Int) ≤ -1; omega)
  | some i =>
    rw [remoteUnitAt_shared hb, if_pos (Int.natCast_nonneg i)]
    exact congrArg some (cellAt_eq _ i l)

/-- The search for a local row looks at the shared columns. -/
theorem agrees_iff (h : v.Columns s) {u : MatchUnit} {l : Nat} (hu : u.localUnit = l)
    {row : List SheetCell} (hrow : row.length = v.remoteNames.length) :
    RowChange.agrees s.localColNames (v.change s u).cond row = true ↔
    v.sharedCells row = v.localCells l := by
  have hcond := cond_enters h hu
  have hlen := length_names h
  rw [RowChange.agrees_iff (hrow.trans hlen.symm), sharedCells_eq_iff]
  constructor
  · intro hall i j hb
    have hj := (v.cols.bwd_lt hb).2
    have hcell := hall j (by rw [hlen]; exact hj) _ (by rw [hcond.get, hb]; rfl)
    rw [List.getD_eq_getElem?_getD, hcell]
    rfl
  · intro hall j hj c hc
    rw [hcond.get] at hc
    obtain ⟨i, hb, rfl⟩ := Option.map_eq_some_iff.1 hc
    have hj' : j < row.length := by
      rw [hrow]
      exact (v.cols.bwd_lt hb).2
    rw [← hall i j hb, List.getElem?_eq_getElem hj', List.getD_eq_getElem _ _ hj']

/-- A cell that is new: what a column of the remote enters for a row. -/
def entry (v : Revision) (s : ColState) (u : MatchUnit) (j : Nat) : Option SheetCell :=
  newEntry (v.context s) u (OrderMerge.remoteUnitAt v.cols j)

theorem val_enters (h : v.Columns s) (u : MatchUnit) :
    Enters s.localColNames (v.entry s u) (v.change s u).val := by
  refine ((lined h).valuesOf_enters u).congr fun j hj => ?_
  rw [kept_at (by rw [← length_names h]; exact hj), Option.bind_some]
  rfl

/-- With local as the pivot no cell is in conflict. -/
theorem change_unconflicted {u : MatchUnit} (hu : u.pivotUnit = u.localUnit) :
    (v.change s u).conflicted = false := by
  have hcell : ∀ (flags : CompareFlags) (l r : SheetCell),
    (mergedCell flags l r l).conflicted = false := by
    intro flags l r
    unfold mergedCell
    rw [sameCell_refl, if_pos rfl]
    repeat' split
    all_goals rfl
  refine valuesOf_conflict _ (fun col hcol => ?_) 0 {}
  have hsides : col.pivotUnit = col.localUnit := by
    rcases List.mem_append.1 hcol with hcol | hcol
    · obtain ⟨r, -, rfl⟩ := List.mem_map.1 hcol
      exact OrderMerge.remoteUnitAt_sides v.cols r
    · obtain ⟨l, -, rfl⟩ := List.mem_map.1 hcol
      rfl
  unfold mergedAt
  rw [hu, hsides]
  exact hcell _ _ _

theorem stored_at (sheet : DataSheet) (j k : Nat) : (cellAt sheet j k).Stored :=
  cellAt_stored sheet (Int.natCast_nonneg k) (Int.natCast_nonneg j)

theorem entry_shared {l r i j : Nat} (hb : v.cols.bwd j = some i) : v.entry s (pairUnit l r) j =
    if (v.locals.row l).getD i SheetCell.null = (v.remote.row r).getD j SheetCell.null then none
    else some ((v.remote.row r).getD j SheetCell.null) := by
  unfold entry newEntry
  rw [remoteUnitAt_shared hb, ← cellAt_eq, ← cellAt_eq]
  have hkept :=
    @mergedCell_kept v.state.flags _ _ rfl (stored_at v.locals i l) (stored_at v.remote j r)
  rw [show mergedAt (v.context s) (pairUnit l r) ⟨i, i, j, false, .preserve⟩ = _ from hkept]
  split <;> rfl

/-- Where local has no cell the remote's is new, if it holds a value. -/
theorem entry_added {u : MatchUnit} {r j : Nat} (hr : u.remoteUnit = r) (hnone : u.localUnit = -1 ∨
    v.cols.bwd j = none) :
    v.entry s u j = if ((v.remote.row r).getD j SheetCell.null).escaped then none
      else some ((v.remote.row r).getD j SheetCell.null) := by
  have hblank : cellAt v.locals (OrderMerge.remoteUnitAt v.cols j).localUnit u.localUnit =
    SheetCell.blankCell := by
    refine cellAt_blank _ (hnone.imp_right fun hb => ?_)
    rw [remoteUnitAt_new hb]
    rfl
  have hadded := @mergedCell_added v.state.flags _ rfl (stored_at v.remote j r)
    (cellAt v.locals (OrderMerge.remoteUnitAt v.cols j).pivotUnit u.pivotUnit)
  have hat : mergedAt (v.context s) u (OrderMerge.remoteUnitAt v.cols j) =
      mergedCell v.state.flags SheetCell.blankCell (cellAt v.remote j r)
        (cellAt v.locals (OrderMerge.remoteUnitAt v.cols j).pivotUnit u.pivotUnit) := by
    rw [← hblank, ← hr, ← OrderMerge.remoteUnitAt_remoteUnit v.cols j]
    rfl
  unfold entry newEntry
  rw [hat, hadded, ← cellAt_eq]
  split <;> rfl

/-- A missing value needs no entry. -/
theorem NullsKept.eq_zero (h : v.NullsKept zero) {r j : Nat} (hr : r < v.remote.height)
    (hj : j < v.remoteNames.length) (he : ((v.remote.row r).getD j SheetCell.null).escaped = true) :
    (v.remote.row r).getD j SheetCell.null = zero := by
  rcases h with rfl | hfree
  · have hstored := stored_at v.remote j r
    rw [cellAt_eq] at hstored
    generalize (v.remote.row r).getD j SheetCell.null = c at hstored he ⊢
    obtain ⟨text, escaped⟩ := c
    obtain rfl : text = "NULL" := hstored he
    obtain rfl : escaped = true := he
    rfl
  · have hlen : j < (v.remote.row r).length := by rw [remote_length hr]; exact hj
    rw [List.getD_eq_getElem _ _ hlen] at he
    have hrow : v.remote.row r ∈ v.remote.rows := by
      rw [v.remote.row_eq_getElem hr]
      exact List.getElem_mem hr
    rw [hfree _ hrow _ (List.getElem_mem hlen)] at he
    cases he

/-- The assignments of a row make the remote row, where each cell is entered or there already. -/
theorem patched_eq (h : v.Columns s) {u : MatchUnit} {r : Nat} (hr : r < v.remote.height)
    {row : List SheetCell} (hrow : row.length = v.remoteNames.length)
    (hcell : ∀ j < v.remoteNames.length, (v.entry s u j).getD (row.getD j zero) =
      (v.remote.row r).getD j SheetCell.null) :
    RowChange.patched s.localColNames (v.change s u).val row = v.remote.row r := by
  have hlen := length_names h
  refine (val_enters h u).patched_eq (hrow.trans hlen.symm)
    ((remote_length hr).trans hlen.symm) fun j h1 h2 => ?_
  have := hcell j (by rw [← hrow]; exact h1)
  rwa [List.getD_eq_getElem _ _ h1, List.getD_eq_getElem _ _ h2] at this

theorem patched_pair (h : v.Columns s) (hnull : v.NullsKept zero) {l r : Nat}
    (hl : l < v.locals.height) (hr : r < v.remote.height) :
    RowChange.patched s.localColNames (v.change s (pairUnit l r)).val (v.image zero l) =
    v.remote.row r := by
  refine @patched_eq v zero s h _ r hr _ (length_image l) fun j hj => ?_
  rw [@List.getD_eq_getElem?_getD _ (v.image zero l), image_at hl hj, Option.getD_some]
  cases hb : v.cols.bwd j with
  | none =>
    rw [entry_added rfl (Or.inr hb), Option.elim_none]
    split
    · next he => exact (hnull.eq_zero hr hj he).symm
    · rfl
  | some i =>
    rw [entry_shared hb, Option.elim_some]
    split
    · next he => exact he
    · rfl

theorem patched_added (h : v.Columns s) (hnull : v.NullsKept zero) {r : Nat}
    (hr : r < v.remote.height) :
    RowChange.patched s.localColNames (v.change s (OrderMerge.insertUnit r)).val
      (List.replicate s.localColNames.length zero) = v.remote.row r := by
  rw [length_names h]
  refine @patched_eq v zero s h _ r hr _ List.length_replicate fun j hj => ?_
  have hzero : (List.replicate v.remoteNames.length zero).getD j zero = zero :=
    List.getD_replicate zero hj
  rw [entry_added rfl (Or.inl rfl), hzero]
  split
  · next he => exact (hnull.eq_zero hr hj he).symm
  · rfl

/-! ## The units of the rows -/

/-- A unit of the rows. -/
inductive IsUnit (v : Revision) : MatchUnit → Prop
  | pair {l r : Nat} (h : v.rows.fwd l = some r) : IsUnit v (pairUnit l r)
  | insert {r : Nat} (hr : r < v.remote.height) (h : v.rows.bwd r = none) :
    IsUnit v (OrderMerge.insertUnit r)
  | delete {l : Nat} (hl : l < v.locals.height) (h : v.rows.fwd l = none) : IsUnit v (deleteUnit l)

/-- The row of a unit, as the patcher meets it. -/
def oldRow? (v : Revision) (zero : SheetCell) (u : MatchUnit) : Option (List SheetCell) :=
  if u.localUnit = -1 then none else some (v.image zero u.localUnit.toNat)

/-- The remote row of a unit. -/
def newRow? (v : Revision) (u : MatchUnit) : Option (List SheetCell) :=
  if u.remoteUnit = -1 then none else some (v.remote.row u.remoteUnit.toNat)

/-- The search for the row of a unit.  Nothing is searched for a row that is added. -/
def search (v : Revision) (s : ColState) (u : MatchUnit) (row : List SheetCell) : Bool :=
  decide (u.localUnit ≠ -1) && RowChange.agrees s.localColNames (v.change s u).cond row

/-- The edits that the changes of a unit stand for. -/
def edits (v : Revision) (s : ColState) (zero : SheetCell) (u : MatchUnit) :
    List (Edit (List SheetCell)) :=
  ((unorderedRow u (v.change s u)).map (v.reported s)).map
    (RowChange.edit s.localColNames zero)

theorem isUnit_of_mem {u : MatchUnit} (hu : u ∈ v.units) : v.IsUnit u := by
  have hmem :=
    (OrderMerge.sweepFrom_perm (List.range v.locals.height) 0 (Nat.zero_le _)).mem_iff.mp hu
  rcases List.mem_append.mp hmem with h | h
  · obtain ⟨l, hl, rfl⟩ := List.mem_map.mp h
    have hl := List.mem_range.mp hl
    rw [OrderMerge.unitAt_identity v.rows hl]
    cases hf : v.rows.fwd l with
    | none => exact IsUnit.delete hl hf
    | some r => exact IsUnit.pair hf
  · obtain ⟨r, -, hr, hb, rfl⟩ := OrderMerge.mem_insertsIn.mp h
    exact IsUnit.insert hr hb

theorem IsUnit.sides {u : MatchUnit} (hu : v.IsUnit u) : u.pivotUnit = u.localUnit := by
  cases hu <;> rfl

theorem IsUnit.local_cases {u : MatchUnit} (hu : v.IsUnit u) :
    u.localUnit = -1 ∨ ∃ l : Nat, u.localUnit = l := by
  cases hu with
  | pair _ => exact Or.inr ⟨_, rfl⟩
  | insert _ _ => exact Or.inl rfl
  | delete _ _ => exact Or.inr ⟨_, rfl⟩

theorem IsUnit.remote_cases {u : MatchUnit} (hu : v.IsUnit u) :
    u.remoteUnit = -1 ∨ ∃ r : Nat, u.remoteUnit = r := by
  cases hu with
  | pair _ => exact Or.inr ⟨_, rfl⟩
  | insert _ _ => exact Or.inr ⟨_, rfl⟩
  | delete _ _ => exact Or.inl rfl

/-- There is one unit for each local row. -/
theorem IsUnit.at_local {u : MatchUnit} (hu : v.IsUnit u) {l : Nat} (hul : u.localUnit = l) :
    l < v.locals.height ∧ u = OrderMerge.unitAt (Matching.identity v.locals.height) v.rows l := by
  cases hu with
  | @pair a r h =>
    obtain rfl : a = l := Int.ofNat.inj hul
    have hl := (v.rows.fwd_lt h).1
    rw [OrderMerge.unitAt_identity v.rows hl, h]
    exact ⟨hl, rfl⟩
  | insert hr h =>
    have : (-1 : Int) = l := hul
    omega
  | @delete a hl h =>
    obtain rfl : a = l := Int.ofNat.inj hul
    rw [OrderMerge.unitAt_identity v.rows hl, h]
    exact ⟨hl, rfl⟩

/-- The partner of a local row is met in the unit of that row. -/
theorem IsUnit.at_remote {u : MatchUnit} (hu : v.IsUnit u) {r : Nat} (hur : u.remoteUnit = r) :
    r < v.remote.height ∧ ∀ l : Nat, v.rows.fwd l = some r → u.localUnit = l := by
  cases hu with
  | @pair a b h =>
    obtain rfl : b = r := Int.ofNat.inj hur
    refine ⟨(v.rows.fwd_lt h).2, fun l hl => ?_⟩
    rw [v.rows.fwd_inj hl h]
    rfl
  | @insert b hr h =>
    obtain rfl : b = r := Int.ofNat.inj hur
    refine ⟨hr, fun l hl => ?_⟩
    rw [(v.rows.fwd_eq_some_iff l b).1 hl] at h
    cases h
  | delete hl h =>
    have : (-1 : Int) = r := hur
    omega

/-- The row of a unit, if local has one. -/
theorem IsUnit.old_row {u : MatchUnit} (hu : v.IsUnit u) {row : List SheetCell}
    (h : v.oldRow? zero u = some row) :
    ∃ l : Nat, u.localUnit = l ∧ l < v.locals.height ∧ row = v.image zero l := by
  unfold oldRow? at h
  rcases hu.local_cases with hnone | ⟨l, hl⟩
  · rw [if_pos hnone] at h
    cases h
  · rw [if_neg (by omega), hl, Option.some.injEq] at h
    exact ⟨l, hl, (hu.at_local hl).1, h.symm⟩

theorem IsUnit.new_row {u : MatchUnit} (hu : v.IsUnit u) {row : List SheetCell}
    (h : v.newRow? u = some row) :
    ∃ r : Nat, u.remoteUnit = r ∧ r < v.remote.height ∧ row = v.remote.row r := by
  unfold newRow? at h
  rcases hu.remote_cases with hnone | ⟨r, hr⟩
  · rw [if_pos hnone] at h
    cases h
  · rw [if_neg (by omega), hr, Option.some.injEq] at h
    exact ⟨r, hr, (hu.at_remote hr).1, h.symm⟩

theorem search_none {u : MatchUnit} (hu : u.localUnit = -1) (row : List SheetCell) :
    v.search s u row = false := by
  unfold search
  rw [decide_eq_false (not_not.2 hu), Bool.false_and]

theorem search_iff (h : v.Columns s) {u : MatchUnit} {l : Nat} (hu : u.localUnit = l)
    {row : List SheetCell} (hrow : row.length = v.remoteNames.length) :
    v.search s u row = true ↔ v.sharedCells row = v.localCells l := by
  unfold search
  rw [decide_eq_true (show u.localUnit ≠ -1 by omega), Bool.true_and, agrees_iff h hu hrow]

/-- A search finds its own row. -/
theorem search_image (h : v.Columns s) {u : MatchUnit} {l : Nat} (hu : u.localUnit = l)
    (hl : l < v.locals.height) : v.search s u (v.image zero l) = true :=
  (search_iff h hu (length_image l)).2 (sharedCells_image hl)

theorem search_eq {u : MatchUnit} (hu : u.localUnit ≠ -1) : v.search s u =
    RowChange.agrees s.localColNames (v.change s u).cond := by
  funext row
  unfold search
  rw [decide_eq_true hu, Bool.true_and]

/-- Each unit exchanges its local row for its remote row. -/
theorem unit_exchanges (h : v.Columns s) (hnull : v.NullsKept zero) {u : MatchUnit}
    (hu : v.IsUnit u) :
    Edit.Exchanges (v.search s u) (v.edits s zero u) (v.oldRow? zero u) (v.newRow? u) := by
  cases hu with
  | @pair l r hlr =>
    obtain ⟨hl, hr⟩ := v.rows.fwd_lt hlr
    have hold : v.oldRow? zero (pairUnit l r) = some (v.image zero l) :=
      if_neg (Comparison.pairUnit_local l r)
    have hnew : v.newRow? (pairUnit l r) = some (v.remote.row r) :=
      if_neg (Comparison.pairUnit_remote l r)
    have hpatched := patched_pair h hnull hl hr
    have hfound := @search_image v zero s h (pairUnit l r) l rfl hl
    rw [search_eq (Comparison.pairUnit_local l r)] at hfound ⊢
    unfold edits unorderedRow
    rw [hold, hnew, if_neg (Comparison.pairUnit_local l r), if_neg (Comparison.pairUnit_remote l r)]
    split
    · rw [← hpatched]
      exact Edit.exchanges_update hfound _
    · next hval =>
      have hnil := List.length_eq_zero_iff.1 (not_not.1 hval)
      have hsame : v.image zero l = v.remote.row r := by
        rw [hnil] at hpatched
        rw [← hpatched]
        have hwide := (@length_image v zero l).trans (length_names h).symm
        exact (Enters.nil.patched_eq hwide hwide fun i _ _ => rfl).symm
      rw [hsame]
      exact Edit.exchanges_nothing _ _
  | @insert r hr hb =>
    have hold : v.oldRow? zero (OrderMerge.insertUnit r) = none := rfl
    have hnew : v.newRow? (OrderMerge.insertUnit r) = some (v.remote.row r) :=
      if_neg (Comparison.insertUnit_remote r)
    rw [hold, hnew, ← patched_added h hnull hr]
    exact Edit.exchanges_insert _ _
  | @delete l hl hf =>
    have hold : v.oldRow? zero (deleteUnit l) = some (v.image zero l) :=
      if_neg (Comparison.deleteUnit_local l)
    have hnew : v.newRow? (deleteUnit l) = none := rfl
    have hfound := @search_image v zero s h (deleteUnit l) l rfl hl
    rw [search_eq (Comparison.deleteUnit_local l)] at hfound ⊢
    unfold edits unorderedRow
    rw [hold, hnew, if_neg (Comparison.deleteUnit_local l),
      if_pos (show (deleteUnit l).remoteUnit = -1 from rfl),
      if_pos (show (deleteUnit l).pivotUnit ≠ -1 from Comparison.deleteUnit_local l)]
    exact Edit.exchanges_delete hfound

/-- No unit finds the row of another one, and none finds what another one leaves. -/
theorem units_apart (h : v.Columns s) (htold : v.Told) {u w : MatchUnit} (hu : v.IsUnit u)
    (hw : v.IsUnit w)
    (hne : u ≠ w) : Edit.Apart (v.search s u) (v.search s w) (v.newRow? u) (v.oldRow? zero w) := by
  have hone : ∀ l : Nat, u.localUnit = l → w.localUnit ≠ l := by
    intro l hul hwl
    exact hne ((hu.at_local hul).2.trans (hw.at_local hwl).2.symm)
  constructor
  · intro row hrow
    obtain ⟨l', hwl, hl', rfl⟩ := hw.old_row hrow
    rcases hu.local_cases with hnone | ⟨l, hul⟩
    · exact search_none hnone _
    · refine Bool.eq_false_iff.2 fun hfound => ?_
      rw [search_iff h hul (length_image l'), sharedCells_image hl'] at hfound
      obtain rfl := htold.distinct l' hl' l (hu.at_local hul).1 hfound
      exact hone l' hul hwl
  · intro row hrow
    obtain ⟨r, hur, hr, rfl⟩ := hu.new_row hrow
    rcases hw.local_cases with hnone | ⟨l, hwl⟩
    · exact search_none hnone _
    · refine Bool.eq_false_iff.2 fun hfound => ?_
      rw [search_iff h hwl (remote_length hr)] at hfound
      have hpair := htold.paired l (hw.at_local hwl).1 r hr hfound.symm
      exact hone l ((hu.at_remote hur).2 l hpair) hwl

/-- A change as it is reported can be read as it stands. -/
theorem reported_plain (h : v.Columns s) {u : MatchUnit} (hu : v.IsUnit u) {x : RowChange}
    (hx : x ∈ unorderedRow u (v.change s u)) :
    (v.reported s x).Plain s.localColNames ∧ x.mode ≠ .context := by
  obtain ⟨mode, rfl, hmode⟩ := ThreeWay.mem_unorderedRow hx
  have hcond : (v.change s u).cond.keys.Nodup ∧ ∀ n ∈ (v.change s u).cond.keys,
      n ∈ s.localColNames := by
    cases hu with
    | pair _ => exact ⟨(cond_enters h rfl).nodup, (cond_enters h rfl).names⟩
    | @insert r hr hb =>
      rw [show (v.change s (OrderMerge.insertUnit r)).cond = [] from rowCond_insert _ _ 0]
      exact ⟨List.nodup_nil, fun n hn => by cases hn⟩
    | delete _ _ => exact ⟨(cond_enters h rfl).nodup, (cond_enters h rfl).names⟩
  exact ⟨⟨rfl, rfl, change_unconflicted hu.sides, hcond.1, hcond.2, (val_enters h u).nodup⟩, hmode⟩

/-! ## The patch -/

theorem units_nodup : v.units.Nodup :=
  (OrderMerge.sweepFrom_perm (List.range v.locals.height) 0 (Nat.zero_le _)).nodup_iff.2
    (OrderMerge.sweptUnits_nodup (Matching.identity v.locals.height) v.rows)

theorem oldRows_perm : (v.units.filterMap (v.oldRow? zero)).Perm
    (v.locals.rows.map fun row => v.wanted.map (SheetPatcher.cellOf zero row)) := by
  have hins : (OrderMerge.insertsIn v.rows 0 v.remote.height).filterMap (v.oldRow? zero) = [] := by
    rw [List.filterMap_eq_nil_iff]
    intro u hu
    obtain ⟨r, -, -, -, rfl⟩ := OrderMerge.mem_insertsIn.mp hu
    rfl
  have hold : ((List.range v.locals.height).map
      (OrderMerge.unitAt (Matching.identity v.locals.height) v.rows)).filterMap (v.oldRow? zero) =
      v.locals.rows.map fun row => v.wanted.map (SheetPatcher.cellOf zero row) := by
    rw [List.filterMap_map, ← Comparison.rows_eq_map v.locals, List.map_map,
      ← List.filterMap_eq_map]
    refine List.filterMap_congr fun l _ => ?_
    show v.oldRow? zero (OrderMerge.unitAt _ v.rows l) = some (v.image zero l)
    unfold oldRow?
    rw [OrderMerge.unitAt_localUnit, if_neg (by omega), Int.toNat_natCast]
  unfold units
  calc List.Perm _ _ :=
        (OrderMerge.sweepFrom_perm (List.range v.locals.height) 0 (Nat.zero_le _)).filterMap
          (v.oldRow? zero)
    _ = _ := by rw [List.filterMap_append, hins, List.append_nil, hold]

theorem newRows_perm : (v.units.filterMap v.newRow?).Perm v.remote.rows := by
  have hkept :
    v.units.filterMap v.newRow? = (v.units.filter fun u => !u.deleted).filterMap v.newRow? := by
    rw [List.filterMap_filter]
    refine List.filterMap_congr fun u hu => ?_
    cases isUnit_of_mem hu with
    | pair h => rfl
    | insert hr h => rfl
    | delete hl h => rfl
  have hnew : (OrderMerge.remoteUnits v.rows).filterMap v.newRow? = v.remote.rows := by
    unfold OrderMerge.remoteUnits
    rw [List.filterMap_map, ← Comparison.rows_eq_map v.remote, ← List.filterMap_eq_map]
    refine List.filterMap_congr fun r _ => ?_
    show v.newRow? (OrderMerge.remoteUnitAt v.rows r) = some (v.remote.row r)
    unfold newRow?
    rw [OrderMerge.remoteUnitAt_remoteUnit, if_neg (by omega), Int.toNat_natCast]
  rw [hkept, ← hnew]
  exact (((OrderMerge.sweepFrom_perm (List.range v.locals.height) 0 (Nat.zero_le _)).filter _).trans
    (OrderMerge.sweptUnits_identity_perm v.rows)).filterMap _

/-- Once the columns are changed the patcher stands at the end of the rows, under the new names. -/
theorem columns_patched (h : v.Columns s) : ∃ p0 p,
    SheetPatcher.attach ⟨v.locals.rows, v.localNames.length, zero⟩ v.localNames false = some p0 ∧
    SheetPatcher.changeColumns s.cc p0 = some p ∧ p.sheet.zero = zero ∧
    SheetPatcher.Follows s.localColNames false p
      (Zipper.atEnd
        (v.locals.rows.map fun row => v.wanted.map (SheetPatcher.cellOf zero row))) := by
  obtain ⟨p0, hp0, hin0⟩ := attach_inStep v.remoteNames v.names_nodup
    (show (⟨v.locals.rows, v.localNames.length, zero⟩ : TypedSheet SheetCell).w =
      v.localNames.length from rfl)
    (fun row hrow => (v.locals.rect row hrow).trans v.local_width) false
  obtain ⟨script, p, hcc, hrun, hin⟩ := h.leads v.locals.rows p0 hin0
  have hscript : s.cc = script := hcc
  have hfresh := (SheetPatcher.attach_fresh hp0).changeColumns script hrun
  have husable : "---" ∉ s.localColNames := by
    intro hmem
    obtain ⟨j, hj, hget⟩ := List.mem_iff_getElem.1 hmem
    have hname := h.named.get (by rw [h.named.length_eq]; exact hj) hj
    exact hname.usable v.local_usable v.remote_usable hget
  have hlocal : ∃ id ∈ s.localCols, 0 ≤ id := by
    obtain ⟨l, r, hlr⟩ := v.shared
    refine ⟨Int.ofNat l, ?_, Int.natCast_nonneg l⟩
    rw [h.cols]
    exact List.mem_map.2
      ⟨r, List.mem_range.2 (v.cols.fwd_lt hlr).2, by rw [(v.cols.fwd_eq_some_iff l r).1 hlr]; rfl⟩
  have hfol := hfresh.follows hin.shows husable hlocal
  rw [h.cols] at hfol
  exact ⟨p0, p, hp0, by rw [hscript]; exact hrun, hfresh.zero, hfol⟩

end

/-- **A table revised.**  The script of the merge, columns and rows, turns local into the remote:
its columns stand in their order, those that local has under the names that local gives them, and
its rows in some order. -/
theorem patch_makes_remote (v : Revision) (zero : SheetCell) (hplaced : v.Placed) (htold : v.Told)
    (hnull : v.NullsKept zero) :
    ∃ r p names, merge v.state = .ok r ∧ v.patch zero r = some p ∧ p.sheet.arr.Perm v.remote.rows ∧
    p.sheet.w = v.remoteNames.length ∧ p.activeCol.arr = [names] ∧
      List.Forall₂ (ColName v.localNames v.remoteNames) v.wanted names := by
  obtain ⟨s, h⟩ := v.columns hplaced
  obtain ⟨r, hr, hcc, hrc, -⟩ := merge_changes h
  obtain ⟨p0, p, hp0, hp, hzero, hfol⟩ := @columns_patched v zero s h
  have hmem : ∀ x ∈ r.rowChanges, ∃ y u, v.IsUnit u ∧ y ∈ unorderedRow u (v.change s u) ∧
      x = v.reported s y := by
    intro x hx
    rw [hrc] at hx
    obtain ⟨y, hy, rfl⟩ := List.mem_map.1 hx
    obtain ⟨u, hu, hy⟩ := List.mem_flatMap.1 hy
    exact ⟨y, u, isUnit_of_mem hu, hy, rfl⟩
  obtain ⟨p', hp', hfol'⟩ := hfol.changeRows r.rowChanges
    (fun x hx => by
      obtain ⟨y, u, hu, hy, rfl⟩ := hmem x hx
      exact (reported_plain h hu hy).1)
    (fun pre x post heq hmode _ => by
      obtain ⟨y, u, hu, hy, rfl⟩ := hmem x (by rw [heq]; simp)
      exact absurd hmode (reported_plain h hu hy).2)
  have hedits : r.rowChanges.map (RowChange.edit s.localColNames p.sheet.zero) =
      v.units.flatMap (v.edits s zero) := by
    rw [hrc, hzero, List.map_map, List.map_flatMap]
    refine List.flatMap_congr fun u _ => ?_
    unfold edits
    rw [List.map_map]
  have hrun := Edit.run_exchanges v.units (fun u hu => unit_exchanges h hnull (isUnit_of_mem hu))
    (units_nodup.imp_of_mem fun hu hw hne =>
      units_apart h htold (isUnit_of_mem hu) (isUnit_of_mem hw) hne)
    (Zipper.atEnd (v.locals.rows.map fun row => v.wanted.map (SheetPatcher.cellOf zero row))) []
    (by rw [Zipper.items_atEnd]; exact oldRows_perm.symm) fun u _ y hy => by cases hy
  refine ⟨r, p', s.localColNames, hr, ?_, ?_, ?_, hfol'.columns.1, h.named⟩
  · unfold patch
    rw [hp0, Option.bind_some, hcc, hp, Option.bind_some, hp']
  · rw [hfol'.arr, hedits]
    exact hrun.trans newRows_perm
  · exact hfol'.width.trans (length_names h)

/-- A list of goods whose notes are dropped, whose quantities come first, and that is given prices;
the first quantity is another one, the second line goes, and a line is added. -/
def pricedGoods : Revision where
  locals :=
    ⟨3, [textRow ["tea", "3", "loose"], textRow ["milk", "5", ""], textRow ["jam", "6", "fig"]],
    by decide, by decide⟩
  remote :=
    ⟨3, [textRow ["4", "tea", "9"], textRow ["6", "jam", "5"],
      textRow ["7", "salt", "1"]], by decide, by decide⟩
  localNames := ["name", "quantity", "note"]
  remoteNames := ["quantity", "name", "price"]
  cols := ⟨⟨[1, 0, -1], [1, 0, -1]⟩, rfl, rfl, by decide, by decide, by decide⟩
  rows := ⟨⟨[0, -1, 1], [0, 2, -1]⟩, rfl, rfl, by decide, by decide, by decide⟩
  names_nodup := by decide
  local_usable := by decide
  remote_usable := by decide
  local_width := rfl
  remote_width := rfl
  shared := ⟨0, 1, by decide⟩

theorem patch_makes_remote_pricedGoods : pricedGoods.Placed ∧ pricedGoods.Told ∧
    pricedGoods.NullsKept ⟨"", false⟩ ∧
    ∃ r p names, merge pricedGoods.state = .ok r ∧ pricedGoods.patch ⟨"", false⟩ r = some p ∧
      p.sheet.arr.Perm pricedGoods.remote.rows ∧ p.sheet.w = 3 ∧ p.activeCol.arr = [names] ∧
      List.Forall₂ (ColName pricedGoods.localNames pricedGoods.remoteNames) pricedGoods.wanted
      names := by
  have hplaced : pricedGoods.Placed := by
    intro order horder
    have hmoves : moveOrder (keptCols pricedGoods.cols) (keptOrder pricedGoods.cols) =
      some [1] := by decide +kernel
    rw [hmoves] at horder
    obtain rfl := Option.some.inj horder
    decide +kernel
  have htold : pricedGoods.Told := by
    constructor
    · exact show ∀ l < 3, ∀ l' < 3, pricedGoods.localCells l = pricedGoods.localCells l' → l = l' by
        decide +kernel
    · exact show ∀ l < 3, ∀ r < 3, pricedGoods.localCells l = pricedGoods.sharedCells
        (pricedGoods.remote.row r) → pricedGoods.rows.fwd l = some r by decide +kernel
  have hnull : pricedGoods.NullsKept ⟨"", false⟩ := Or.inr (by decide +kernel)
  exact ⟨hplaced, htold, hnull, pricedGoods.patch_makes_remote ⟨"", false⟩ hplaced htold hnull⟩

end Revision

end Coopy
