import Coopy.InLine

/-!
# Two tables compared, and the difference replayed

A comparison is a merge in which local is the pivot.  With the columns in line its row
changes say what to do to local to get the remote, and the patcher can be made to do it.

    merge of a comparison = .ok, with rows.foldl rowStep                       (Comparison.merge_eq)
    the change of a row finds the local row, and makes it the remote one  (agrees_cond, patched_val)
-/

namespace Coopy

open Lib Merger

/-- Two tables without nulls under the same column names, and which of their rows correspond. -/
structure Comparison where
  locals : DataSheet
  remote : DataSheet
  names : List String
  rows : Matching locals.height remote.height
  names_ne_nil : names ≠ []
  names_nodup : names.Nodup
  usable : "---" ∉ names
  local_width : locals.width = names.length
  remote_width : remote.width = names.length
  local_text : ∀ row ∈ locals.rows, ∀ c ∈ row, c.escaped = false
  remote_text : ∀ row ∈ remote.rows, ∀ c ∈ row, c.escaped = false
  local_nodup : locals.rows.Nodup
  remote_nodup : remote.rows.Nodup
  equal_paired : ∀ l < locals.height, ∀ r < remote.height,
    locals.row l = remote.row r → rows.a2b l = r

namespace Comparison

variable (c : Comparison)

/-- The merge, with or without the order of the rows in use. -/
def state (useOrder assumeHeader : Bool) : MergerState where
  pivot := c.locals
  locals := c.locals
  remote := c.remote
  rowLocal := (Matching.identity c.locals.height).toOrderResult
  rowRemote := c.rows.toOrderResult
  colLocal := (Matching.identity c.names.length).toOrderResult
  colRemote := (Matching.identity c.names.length).toOrderResult
  flags := { useOrder := useOrder, assumeHeader := assumeHeader }
  localNames := ⟨c.names, []⟩
  remoteNames := ⟨c.names, []⟩

/-- Row changes made to a copy of local. -/
def replay (zero : SheetCell) (assumeHeader : Bool) (changes : List RowChange) :
    Option (List (List SheetCell)) :=
  (SheetPatcher.attach ⟨c.locals.rows, c.names.length, zero⟩ c.names assumeHeader).bind fun p =>
    (SheetPatcher.changeRows changes p).map fun p => p.sheet.arr

/-! ## The columns -/

theorem names_length_pos : 0 < c.names.length := List.length_pos_iff.mpr c.names_ne_nil

def columns : List MatchUnit := (List.range c.names.length).map column

/-- The row loop of the comparison. -/
def context (useOrder assumeHeader : Bool) : RowContext :=
  rowContext (c.state useOrder assumeHeader) c.columns c.names
  (ColState.start c.locals.width c.names)

/-- The row units: those of the remote and then the deletions, or in the order of the sweep. -/
def units (useOrder : Bool) : List MatchUnit :=
  if useOrder then OrderMerge.remoteUnits c.rows ++ OrderMerge.deletedUnits c.rows
  else OrderMerge.sweepFrom (Matching.identity c.locals.height) c.rows
    (List.range c.locals.height) 0

/-- The index flags the rows are reported with. -/
def indexes (useOrder assumeHeader : Bool) : AssocMap String Bool :=
  indexMap (c.state useOrder assumeHeader).flags c.names
    (IndexSniffer.sniff c.locals (c.state useOrder assumeHeader).flags ⟨c.names, []⟩)

section
variable (useOrder assumeHeader : Bool)

theorem inLine_state : StateInLine (c.state useOrder assumeHeader) c.names :=
  ⟨rfl, rfl, rfl, rfl, c.local_width⟩

theorem overlap_ne_zero : OrderMerge.countOverlap c.columns ≠ 0 := by
  unfold columns
  rw [← localUnits_columns]
  have hfwd : (Matching.identity c.names.length).fwd 0 = some 0 := by
    rw [Matching.identity_fwd, if_pos c.names_length_pos]
  exact countOverlap_pos (Matching.identity c.names.length) hfwd

theorem rowUnits_eq {overlap : Nat} (h : overlap ≠ 0) :
    rowUnits (c.state useOrder assumeHeader) overlap = some (c.units useOrder) := by
  have hf :
    OrderMerge.enough (Matching.identity c.locals.height).toOrderResult c.rows.toOrderResult =
      c.locals.height + c.remote.height + 1 := by
    unfold OrderMerge.enough
    rw [Matching.blen_toOrderResult, Matching.blen_toOrderResult]
  unfold rowUnits units
  rw [if_neg h]
  show Option.map OrderMerge.accum (OrderMerge.merge
    (OrderMerge.enough (Matching.identity c.locals.height).toOrderResult c.rows.toOrderResult)
    (Matching.identity c.locals.height).toOrderResult c.rows.toOrderResult
      { useOrder := useOrder, assumeHeader := assumeHeader } false) = _
  cases useOrder with
  | true =>
    rw [OrderMerge.merge_identity_local rfl rfl c.rows rfl (by rw [hf])]
    rfl
  | false =>
    rw [OrderMerge.merge_eq _ _ rfl rfl false (Nat.le_refl _)]
    rfl

/-- **The merge of a comparison.**  No column changes; the rows are a fold over the row units. -/
theorem merge_eq : merge (c.state useOrder assumeHeader) =
    .ok (report (c.state useOrder assumeHeader).flags c.names (c.indexes useOrder assumeHeader)
      (ColState.start c.locals.width c.names)
      ((c.units useOrder).foldl (rowStep (c.context useOrder assumeHeader)) {})) := by
  have hline := c.inLine_state useOrder assumeHeader
  have hrows := c.rowUnits_eq useOrder assumeHeader c.overlap_ne_zero
  have hpasses := hline.columnPasses_eq (c.indexes useOrder assumeHeader)
  have hm := Merger.merge_eq rfl rfl hline.colUnits_eq hrows hline.originalColNames_eq hpasses rfl
  exact hm

/-! ## The maps of a row change -/

variable {c useOrder assumeHeader}

/-- What is entered under each name by a loop over the columns. -/
structure Entered (c : Comparison) (f : Nat → Option SheetCell)
    (m : AssocMap String SheetCell) : Prop where
  get : ∀ i (hi : i < c.names.length), m.get? c.names[i] = f i
  nodup : m.keys.Nodup
  names : ∀ n ∈ m.keys, n ∈ c.names

theorem entered_iff {f : Nat → Option SheetCell} {m : AssocMap String SheetCell} :
    Entered c f m ↔ Enters c.names f m :=
  ⟨fun h => ⟨h.get, h.nodup, h.names⟩, fun h => ⟨h.get, h.nodup, h.names⟩⟩

theorem inLine : InLine (c.context useOrder assumeHeader) := ⟨c.names_nodup, rfl, rfl⟩

theorem Entered.eq_nil {f : Nat → Option SheetCell} {m : AssocMap String SheetCell}
    (h : Entered c f m)
    (hf : ∀ i < c.names.length, f i = none) : m = [] := (entered_iff.1 h).eq_nil hf

end

/-! ## The units of the rows -/

/-- A local row with its remote partner. -/
def pairUnit (l r : Nat) : MatchUnit := ⟨l, l, r, false, .preserve⟩

/-- A local row that the remote dropped. -/
def deleteUnit (l : Nat) : MatchUnit := ⟨l, l, -1, true, .delete⟩

theorem pairUnit_local (l r : Nat) : (pairUnit l r).localUnit ≠ -1 := by
  show (l : Int) ≠ -1
  omega

theorem pairUnit_remote (l r : Nat) : (pairUnit l r).remoteUnit ≠ -1 := by
  show (r : Int) ≠ -1
  omega

theorem deleteUnit_local (l : Nat) : (deleteUnit l).localUnit ≠ -1 := by
  show (l : Int) ≠ -1
  omega

theorem insertUnit_remote (r : Nat) : (OrderMerge.insertUnit r).remoteUnit ≠ -1 := by
  show (r : Int) ≠ -1
  omega

/-- The change of a row unit, before its mode is known. -/
def change (useOrder assumeHeader : Bool) (u : MatchUnit) : RowChange :=
  rowChangeOf (c.context useOrder assumeHeader) u
  (valuesOf (c.context useOrder assumeHeader) u 0 c.columns {})

section
variable {c} {useOrder assumeHeader : Bool}

theorem cellAt_local {i l : Nat} : cellAt c.locals i l = (c.locals.row l).getD i SheetCell.null :=
  cellAt_eq _ i l

theorem cellAt_remote {i r : Nat} : cellAt c.remote i r = (c.remote.row r).getD i SheetCell.null :=
  cellAt_eq _ i r

theorem local_length {l : Nat} (hl : l < c.locals.height) :
    (c.locals.row l).length = c.names.length :=
  (c.locals.row_length hl).trans c.local_width

theorem remote_length {r : Nat} (hr : r < c.remote.height) :
    (c.remote.row r).length = c.names.length :=
  (c.remote.row_length hr).trans c.remote_width

theorem remote_unescaped {r i : Nat} (hr : r < c.remote.height) (hi : i < c.names.length) :
    ((c.remote.row r).getD i SheetCell.null).escaped = false := by
  rw [List.getD_eq_getElem _ _ (by rw [remote_length hr]; exact hi)]
  refine c.remote_text (c.remote.row r) ?_ _ (List.getElem_mem _)
  rw [c.remote.row_eq_getElem hr]
  exact List.getElem_mem hr

theorem mergedAt_pair (l r i : Nat) :
    mergedAt (c.context useOrder assumeHeader) (pairUnit l r) (column i) =
      if (c.locals.row l).getD i SheetCell.null = (c.remote.row r).getD i SheetCell.null
      then ⟨(c.locals.row l).getD i SheetCell.null, false, false⟩
      else ⟨(c.remote.row r).getD i SheetCell.null, true, false⟩ := by
  have hl : (cellAt c.locals i l).Stored :=
    cellAt_stored c.locals (Int.natCast_nonneg l) (Int.natCast_nonneg i)
  have hr : (cellAt c.remote i r).Stored :=
    cellAt_stored c.remote (Int.natCast_nonneg r) (Int.natCast_nonneg i)
  rw [← cellAt_local, ← cellAt_remote]
  exact mergedCell_kept rfl hl hr

theorem mergedAt_insert {r i : Nat} (hr : r < c.remote.height) (hi : i < c.names.length) :
    mergedAt (c.context useOrder assumeHeader) (OrderMerge.insertUnit r) (column i) =
      ⟨(c.remote.row r).getD i SheetCell.null, true, false⟩ := by
  have hs : (cellAt c.remote i r).Stored :=
    cellAt_stored c.remote (Int.natCast_nonneg r) (Int.natCast_nonneg i)
  have hblank : cellAt c.locals i (-1) = SheetCell.blankCell := cellAt_blank c.locals (Or.inl rfl)
  have hm :=
    @mergedCell_added (c.state useOrder assumeHeader).flags _ rfl hs (cellAt c.locals i (-1))
  rw [cellAt_remote, remote_unescaped hr hi, if_neg (by simp), ← cellAt_remote] at hm
  rw [← cellAt_remote, ← hm, ← hblank]
  rfl

theorem mergedAt_delete (l i : Nat) :
    mergedAt (c.context useOrder assumeHeader) (deleteUnit l) (column i) =
      ⟨(c.locals.row l).getD i SheetCell.null, false, false⟩ := by
  have hl : (cellAt c.locals i l).Stored :=
    cellAt_stored c.locals (Int.natCast_nonneg l) (Int.natCast_nonneg i)
  have hblank : cellAt c.remote i (-1) = SheetCell.blankCell := cellAt_blank c.remote (Or.inl rfl)
  rw [← cellAt_local, ← mergedCell_dropped hl (cellAt c.locals i l), ← hblank]
  rfl

theorem valuesOf_start {row : MatchUnit} {g : Nat → Option SheetCell} (hg : ∀ i < c.names.length,
      (mergedAt (c.context useOrder assumeHeader) row (column i)).conflicted = false ∧
      g i = if (mergedAt (c.context useOrder assumeHeader) row (column i)).novel
        then some (mergedAt (c.context useOrder assumeHeader) row (column i)).cell else none) :
    Entered c g (c.change useOrder assumeHeader row).val ∧
      (c.change useOrder assumeHeader row).conflicted = false := by
  have hv := (@inLine c useOrder assumeHeader).valuesOf_enters row
  constructor
  · refine entered_iff.2 (hv.values.congr fun i hi => ?_)
    exact (hg i hi).2.symm
  · apply Bool.eq_false_iff.2
    intro hconf
    obtain ⟨i, hi, hc⟩ := hv.conflict.1 hconf
    rw [(hg i hi).1] at hc
    cases hc

/-- What a paired row changes: the cells in which the partners differ. -/
theorem val_pair (l r : Nat) :
    Entered c
      (fun i => if (c.locals.row l).getD i SheetCell.null = (c.remote.row r).getD i SheetCell.null
        then none else some ((c.remote.row r).getD i SheetCell.null))
      (c.change useOrder assumeHeader (pairUnit l r)).val ∧
    (c.change useOrder assumeHeader (pairUnit l r)).conflicted = false := by
  refine valuesOf_start fun i _ => ?_
  rw [mergedAt_pair]
  split <;> exact ⟨rfl, rfl⟩

theorem val_insert {r : Nat} (hr : r < c.remote.height) :
    Entered c (fun i => some ((c.remote.row r).getD i SheetCell.null))
      (c.change useOrder assumeHeader (OrderMerge.insertUnit r)).val ∧
    (c.change useOrder assumeHeader (OrderMerge.insertUnit r)).conflicted = false := by
  refine valuesOf_start fun i hi => ?_
  rw [mergedAt_insert hr hi]
  exact ⟨rfl, rfl⟩

theorem val_delete (l : Nat) :
    (c.change useOrder assumeHeader (deleteUnit l)).val = [] ∧
    (c.change useOrder assumeHeader (deleteUnit l)).conflicted = false := by
  have h : Entered c (fun _ => none) (c.change useOrder assumeHeader (deleteUnit l)).val ∧
      (c.change useOrder assumeHeader (deleteUnit l)).conflicted = false := by
    refine valuesOf_start fun i _ => ?_
    rw [mergedAt_delete]
    exact ⟨rfl, rfl⟩
  exact ⟨h.1.eq_nil fun _ _ => rfl, h.2⟩

/-- The conditions of a local row: all its cells. -/
theorem cond_local {u : MatchUnit} {l : Nat} (hu : u.localUnit = l) :
    Entered c (fun i => some ((c.locals.row l).getD i SheetCell.null))
    (c.change useOrder assumeHeader u).cond := by
  show Entered c _ (rowCond (c.context useOrder assumeHeader) u.localUnit 0 c.columns [])
  rw [hu]
  refine entered_iff.2 (((@inLine c useOrder assumeHeader).rowCond_enters l).congr fun i _ => ?_)
  exact congrArg some cellAt_local

theorem cond_insert (r : Nat) : (c.change useOrder assumeHeader (OrderMerge.insertUnit r)).cond =
    [] :=
  rowCond_insert (c.context useOrder assumeHeader) c.columns 0

/-! ## The changes as edits -/

/-- The search for a row. -/
def isRow (x : List SheetCell) (row : List SheetCell) : Bool := decide (row = x)

theorem isRow_self (x : List SheetCell) : isRow x x = true := decide_eq_true rfl

/-- All conditions together single out the local row. -/
theorem agrees_cond {u : MatchUnit} {l : Nat} (hu : u.localUnit = l) (hl : l < c.locals.height)
    {row : List SheetCell} (hrow : row.length = c.names.length) :
    RowChange.agrees c.names (c.change useOrder assumeHeader u).cond row =
    isRow (c.locals.row l) row := by
  unfold isRow
  rw [Bool.eq_iff_iff, decide_eq_true_iff]
  exact (entered_iff.1 (cond_local hu)).agrees_iff (local_length hl) hrow

theorem patched_of_entered {f : Nat → Option SheetCell} {m : AssocMap String SheetCell}
    (h : Entered c f m) {row out : List SheetCell} (hrow : row.length = c.names.length)
    (hout : out.length = c.names.length)
    (hf : ∀ i (h1 : i < row.length) (h2 : i < out.length), (f i).getD row[i] = out[i]) :
    RowChange.patched c.names m row = out :=
  (entered_iff.1 h).patched_eq hrow hout hf

/-- The assignments of a paired row make the partner of it. -/
theorem patched_pair {l r : Nat} (hl : l < c.locals.height) (hr : r < c.remote.height) :
    RowChange.patched c.names (c.change useOrder assumeHeader (pairUnit l r)).val (c.locals.row l) =
    c.remote.row r := by
  refine patched_of_entered (val_pair l r).1 (local_length hl) (remote_length hr) fun i h1 h2 => ?_
  rw [List.getD_eq_getElem _ _ h1, List.getD_eq_getElem _ _ h2]
  split
  · next h => exact h
  · rfl

theorem patched_insert {r : Nat} (hr : r < c.remote.height) {row : List SheetCell}
    (hrow : row.length = c.names.length) :
    RowChange.patched c.names (c.change useOrder assumeHeader (OrderMerge.insertUnit r)).val row =
    c.remote.row r := by
  refine patched_of_entered (val_insert hr).1 hrow (remote_length hr) fun i h1 h2 => ?_
  rw [List.getD_eq_getElem _ _ h2]
  rfl

/-- Nothing is assigned exactly where the partners are equal. -/
theorem val_eq_nil_iff {l r : Nat} (hl : l < c.locals.height) (hr : r < c.remote.height) :
    (c.change useOrder assumeHeader (pairUnit l r)).val = [] ↔ c.locals.row l = c.remote.row r := by
  constructor
  · intro h
    have hnil : Entered c (fun _ => none) [] :=
      ⟨fun _ _ => rfl, List.nodup_nil, fun n hn => by cases hn⟩
    calc c.locals.row l = RowChange.patched c.names [] (c.locals.row l) :=
          (patched_of_entered hnil (local_length hl) (local_length hl) fun i h1 h2 => rfl).symm
      _ = RowChange.patched c.names (c.change useOrder assumeHeader (pairUnit l r)).val
        (c.locals.row l) := by rw [h]
      _ = c.remote.row r := patched_pair hl hr
  · intro h
    refine (val_pair l r).1.eq_nil fun i _ => ?_
    rw [if_pos (by rw [h])]

end

/-- A change as it is reported. -/
def reported (useOrder assumeHeader : Bool) (mode : RowChangeMode) (u : MatchUnit) : RowChange :=
  { c.change useOrder assumeHeader u with
    mode := mode
    indexes :=
      reportedIndexes c.names (c.indexes useOrder assumeHeader)
      (ColState.start c.locals.width c.names)
    allNames := c.names }

/-- The blank context row as it is reported. -/
def reportedTop (useOrder assumeHeader : Bool) : RowChange :=
  { mode := .context
    indexes :=
      reportedIndexes c.names (c.indexes useOrder assumeHeader)
      (ColState.start c.locals.width c.names)
    allNames := c.names }

/-- A unit of the comparison. -/
inductive IsUnit : MatchUnit → Prop
  | pair {l r : Nat} (h : c.rows.fwd l = some r) : IsUnit (pairUnit l r)
  | insert {r : Nat} (hr : r < c.remote.height) (h : c.rows.bwd r = none) :
    IsUnit (OrderMerge.insertUnit r)
  | delete {l : Nat} (hl : l < c.locals.height) (h : c.rows.fwd l = none) : IsUnit (deleteUnit l)

section
variable {c} {useOrder assumeHeader : Bool} {zero : SheetCell}

theorem fwd_lt {l r : Nat} (h : c.rows.fwd l = some r) :
    l < c.locals.height ∧ r < c.remote.height := c.rows.fwd_lt h

theorem reported_plain {u : MatchUnit} (hu : c.IsUnit u) (mode : RowChangeMode) :
    (c.reported useOrder assumeHeader mode u).Plain c.names := by
  have hval : (c.change useOrder assumeHeader u).val.keys.Nodup ∧
    (c.change useOrder assumeHeader u).conflicted = false := by
    cases hu with
    | @pair l r h => exact ⟨(val_pair l r).1.nodup, (val_pair l r).2⟩
    | insert hr h => exact ⟨(val_insert hr).1.nodup, (val_insert hr).2⟩
    | @delete l hl h =>
      rw [(val_delete l).1]
      exact ⟨List.nodup_nil, (val_delete l).2⟩
  have hcond : (c.change useOrder assumeHeader u).cond.keys.Nodup ∧
      ∀ n ∈ (c.change useOrder assumeHeader u).cond.keys, n ∈ c.names := by
    cases hu with
    | @pair l r h => exact ⟨(cond_local rfl).nodup, (cond_local rfl).names⟩
    | insert hr h =>
      rw [cond_insert]
      exact ⟨List.nodup_nil, fun n hn => by cases hn⟩
    | @delete l hl h => exact ⟨(cond_local rfl).nodup, (cond_local rfl).names⟩
  exact ⟨rfl, rfl, hval.2, hcond.1, hcond.2, hval.1⟩

theorem cond_ne_nil {u : MatchUnit} {l : Nat} (hu : u.localUnit = l) :
    (c.change useOrder assumeHeader u).cond ≠ [] := by
  intro h
  have hcond : Entered c _ (c.change useOrder assumeHeader u).cond := cond_local hu
  have := hcond.get 0 c.names_length_pos
  rw [h] at this
  cases this

/-- A row of the right width. -/
def Wide (c : Comparison) (row : List SheetCell) : Prop := row.length = c.names.length

theorem local_wide : ∀ row ∈ c.locals.rows, c.Wide row :=
  fun row h => (c.locals.rect row h).trans c.local_width

theorem alike_insert {r : Nat} (hr : r < c.remote.height) :
    Edit.Alike c.Wide
      ((c.reported useOrder assumeHeader .insert (OrderMerge.insertUnit r)).edit c.names zero)
      (.insert (c.remote.row r)) := by
  have hrow :
    RowChange.patched c.names (c.change useOrder assumeHeader (OrderMerge.insertUnit r)).val
      (List.replicate c.names.length zero) = c.remote.row r :=
        patched_insert hr List.length_replicate
  exact ⟨hrow, by
    show (RowChange.patched c.names (c.change useOrder assumeHeader (OrderMerge.insertUnit r)).val
      _).length = _
    rw [hrow]
    exact remote_length hr⟩

theorem alike_delete {l : Nat} (hl : l < c.locals.height) :
    Edit.Alike c.Wide ((c.reported useOrder assumeHeader .delete (deleteUnit l)).edit c.names zero)
      (.delete (isRow (c.locals.row l))) :=
  fun _ hrow => agrees_cond rfl hl hrow

theorem alike_context {u : MatchUnit} {l : Nat} (hu : u.localUnit = l) (hl : l < c.locals.height) :
    Edit.Alike c.Wide ((c.reported useOrder assumeHeader .context u).edit c.names zero)
      (.seek (isRow (c.locals.row l))) := by
  unfold RowChange.edit
  show Edit.Alike c.Wide (if (c.change useOrder assumeHeader u).cond = [] then _ else _) _
  rw [if_neg (cond_ne_nil hu)]
  exact fun _ hrow => agrees_cond hu hl hrow

theorem alike_top :
    Edit.Alike c.Wide ((c.reportedTop useOrder assumeHeader).edit c.names zero) .top := trivial

theorem patched_found {l r : Nat} (hl : l < c.locals.height) (hr : r < c.remote.height)
    (row : List SheetCell) (hrow : c.Wide row) :
    RowChange.agrees c.names (c.change useOrder assumeHeader (pairUnit l r)).cond row =
    isRow (c.locals.row l) row ∧
      (RowChange.agrees c.names (c.change useOrder assumeHeader (pairUnit l r)).cond row = true →
        RowChange.patched c.names (c.change useOrder assumeHeader (pairUnit l r)).val row =
        c.remote.row r ∧
        c.Wide (RowChange.patched c.names (c.change useOrder assumeHeader (pairUnit l r)).val
          row)) := by
  have hag : RowChange.agrees c.names (c.change useOrder assumeHeader (pairUnit l r)).cond row =
      isRow (c.locals.row l) row := agrees_cond rfl hl hrow
  refine ⟨hag, fun h => ⟨?_, RowChange.patched_length _ hrow⟩⟩
  rw [hag] at h
  rw [of_decide_eq_true h]
  exact patched_pair hl hr

theorem alike_update {l r : Nat} (hl : l < c.locals.height) (hr : r < c.remote.height) :
    Edit.Alike c.Wide ((c.reported useOrder assumeHeader .update (pairUnit l r)).edit c.names zero)
      (.update (isRow (c.locals.row l)) fun _ => c.remote.row r) :=
  patched_found hl hr

theorem alike_move {l r : Nat} (hl : l < c.locals.height) (hr : r < c.remote.height) :
    Edit.Alike c.Wide ((c.reported useOrder assumeHeader .move (pairUnit l r)).edit c.names zero)
      (.move (isRow (c.locals.row l)) fun _ => c.remote.row r) :=
  patched_found hl hr

/-- **Replay.**  The patcher runs the edits from the end of local. -/
theorem replay_eq {changes : List RowChange} (hplain : ∀ change ∈ changes, change.Plain c.names)
    (htop : ∀ pre change post, changes = pre ++ change :: post → change.mode = .context →
      change.cond = [] →
      (Edit.run (pre.map (RowChange.edit c.names zero)) (Zipper.atEnd c.locals.rows)).items ≠ [] ∧
        assumeHeader = false) :
    c.replay zero assumeHeader changes =
      some (Edit.run (changes.map (RowChange.edit c.names zero))
        (Zipper.atEnd c.locals.rows)).items := by
  obtain ⟨p, hp, hfol, hzero⟩ := SheetPatcher.attach_follows c.names_nodup c.usable
    (show (⟨c.locals.rows, c.names.length, zero⟩ : TypedSheet SheetCell).w = c.names.length
      from rfl) local_wide
    assumeHeader
  obtain ⟨p', hp', hfol'⟩ := hfol.changeRows changes hplain (by rw [hzero]; exact htop)
  unfold replay
  rw [hp, Option.bind_some, hp', Option.map_some, hfol'.arr, hzero]

end

end Comparison

end Coopy
