import Coopy.Lib.Reconcile
import Coopy.UnorderedScript

/-!
# Three tables merged, and the difference replayed on local

Local and remote were both made from a pivot, under the same columns.  With order not in use the
merge says what to do to local, and the patcher does it.  What local ends with is a table that is
told without any merging: the rows that both sides kept, cell by cell, and the rows that either side
added.

    the replay on local is a permutation of `merged`                                 (replay_merged)
-/

namespace Coopy

open Lib Merger

open Comparison (column)

/-- The name of a resolve mode. -/
def Lib.Settling.text : Settling → String
  | .undecided => ""
  | .ours => "ours"
  | .theirs => "theirs"
  | .neither => "neither"

/-- Three tables under the same column names, and the rows that were matched with the pivot. -/
structure ThreeWay where
  pivot : DataSheet
  locals : DataSheet
  remote : DataSheet
  names : List String
  rowsLocal : Matching pivot.height locals.height
  rowsRemote : Matching pivot.height remote.height
  names_ne_nil : names ≠ []
  names_nodup : names.Nodup
  usable : "---" ∉ names
  pivot_width : pivot.width = names.length
  local_width : locals.width = names.length
  remote_width : remote.width = names.length

namespace Merger

/-! ## One cell -/

section
variable {flags : CompareFlags} {c : Settling} {l r p : SheetCell}

theorem resolveCell_text (hres : flags.resolve = c.text) : resolveCell flags l r p =
    ⟨c.pick p l r, decide (c ≠ .ours), decide (c = .undecided)⟩ := by
  unfold resolveCell
  rw [hres]
  cases c <;> rfl

/-- The three-way rule of the merge, for cells that are there.  A cell is new if it is not
local's. -/
theorem mergedCell_eq_settle (hcase : flags.ignoreCase = false) (hres : flags.resolve = c.text)
    (hl : l.Stored) (hr : r.Stored) : (mergedCell flags l r p).cell = settle c p l r ∧
      ((mergedCell flags l r p).conflicted = true ↔ c = .undecided ∧ merge3 p l r = none) ∧
      ((mergedCell flags l r p).conflicted = false →
        ((mergedCell flags l r p).novel = true ↔ settle c p l r ≠ l)) := by
  have hsame : ∀ a b : SheetCell, sameCell flags a b = true ↔ a = b := by
    intro a b
    unfold sameCell
    rw [if_pos hcase, beq_iff_eq]
  unfold mergedCell settle merge3
  rw [if_neg hl.ne_blankCell, if_neg hr.ne_blankCell, resolveCell_text hres]
  simp only [hsame]
  by_cases hlr : l = r
  · simp [hlr]
  by_cases hpl : p = l
  · simp [hlr, hpl, Ne.symm hlr]
  by_cases hpr : p = r
  · simp [hlr, hpr, Ne.symm hlr]
  · simp only [hlr, hpl, hpr, if_false, Option.getD_none, decide_eq_true_eq, and_true, true_and]
    intro hc
    cases c with
    | undecided => cases hc
    | ours => simp [Settling.pick]
    | theirs => simpa [Settling.pick] using Ne.symm hlr
    | neither => simpa [Settling.pick] using hpl

end

end Merger

namespace ThreeWay

variable (t : ThreeWay)

/-! ## The merged table -/

/-- A row that was there from the beginning, and that neither side dropped. -/
def keptRow? (c : Settling) (p : Nat) : Option (List SheetCell) :=
  (t.rowsLocal.fwd p).bind fun l => (t.rowsRemote.fwd p).map fun r =>
    reconcile c (t.pivot.row p) (t.locals.row l) (t.remote.row r)

/-- The rows of a side that the pivot does not have. -/
def addedRows {n : Nat} (s : DataSheet) (M : Matching n s.height) : List (List SheetCell) :=
  (List.range s.height).filterMap fun k => if M.bwd k = none then some (s.row k) else none

/-- A row as the patcher fills it in: a null is left out. -/
def filledRow (zero : SheetCell) (row : List SheetCell) : List SheetCell :=
  row.map fun c => if c.escaped then zero else c

/-- **The merged table.** -/
def merged (c : Settling) (zero : SheetCell) : List (List SheetCell) :=
  (List.range t.pivot.height).filterMap (t.keptRow? c) ++ addedRows t.locals t.rowsLocal ++
    (addedRows t.remote t.rowsRemote).map (filledRow zero)

/-- A conflict: a row of the pivot that both sides have, with a cell that each side changed in its
own way. -/
def Conflicts : Prop :=
  ∃ p l r, t.rowsLocal.fwd p = some l ∧ t.rowsRemote.fwd p = some r ∧
    clash (t.pivot.row p) (t.locals.row l) (t.remote.row r) = true

/-! ## The merge -/

/-- The merge with order not in use. -/
def state (c : Settling) (assumeHeader : Bool) : MergerState where
  pivot := t.pivot
  locals := t.locals
  remote := t.remote
  rowLocal := t.rowsLocal.toOrderResult
  rowRemote := t.rowsRemote.toOrderResult
  colLocal := (Matching.identity t.names.length).toOrderResult
  colRemote := (Matching.identity t.names.length).toOrderResult
  flags := { useOrder := false, assumeHeader := assumeHeader, resolve := c.text }
  localNames := ⟨t.names, []⟩
  remoteNames := ⟨t.names, []⟩

/-- Row changes made to a copy of local. -/
def replay (zero : SheetCell) (assumeHeader : Bool) (changes : List RowChange) :
    Option (List (List SheetCell)) :=
  (SheetPatcher.attach ⟨t.locals.rows, t.names.length, zero⟩ t.names assumeHeader).bind fun p =>
    (SheetPatcher.changeRows changes p).map fun p => p.sheet.arr

def context (c : Settling) (assumeHeader : Bool) : RowContext :=
  rowContext (t.state c assumeHeader) ((List.range t.names.length).map column) t.names
    (ColState.start t.locals.width t.names)

def units : List MatchUnit :=
  OrderMerge.sweepFrom t.rowsLocal t.rowsRemote (List.range t.locals.height) 0

/-- The change of a row unit, before its mode is known. -/
def change (c : Settling) (assumeHeader : Bool) (u : MatchUnit) : RowChange :=
  rowChangeOf (t.context c assumeHeader) u
  (valuesOf (t.context c assumeHeader) u 0 (t.context c assumeHeader).colAccum {})

/-- A change as it is reported. -/
def reported (c : Settling) (assumeHeader : Bool) (change : RowChange) : RowChange :=
  { change with
    indexes := reportedIndexes t.names (indexMap (t.state c assumeHeader).flags t.names
      (IndexSniffer.sniff t.locals (t.state c assumeHeader).flags ⟨t.names, []⟩))
        (ColState.start t.locals.width t.names)
    allNames := t.names }

section
variable {t} {c : Settling} {assumeHeader : Bool}

theorem inLine : InLine (t.context c assumeHeader) := ⟨t.names_nodup, rfl, rfl⟩

theorem inLine_state : StateInLine (t.state c assumeHeader) t.names :=
  ⟨rfl, rfl, rfl, rfl, t.local_width⟩

theorem rowUnits_eq : rowUnits (t.state c assumeHeader)
    (OrderMerge.countOverlap ((List.range t.names.length).map column)) = some t.units := by
  have hfwd : (Matching.identity t.names.length).fwd 0 = some 0 := by
    rw [Matching.identity_fwd, if_pos (List.length_pos_iff.mpr t.names_ne_nil)]
  unfold rowUnits units
  rw [← localUnits_columns, if_neg (countOverlap_pos (Matching.identity t.names.length) hfwd)]
  show Option.map OrderMerge.accum (OrderMerge.merge
    (OrderMerge.enough t.rowsLocal.toOrderResult t.rowsRemote.toOrderResult)
      t.rowsLocal.toOrderResult
    t.rowsRemote.toOrderResult
      { useOrder := false, assumeHeader := assumeHeader, resolve := c.text } false) = _
  rw [OrderMerge.merge_eq _ _ rfl rfl false (Nat.le_refl _)]
  rfl

/-- The merge reports the changes of the units, one unit after the other. -/
theorem merge_changes : ∃ r, merge (t.state c assumeHeader) = .ok r ∧
    r.rowChanges = (t.units.flatMap fun u => unorderedRow u (t.change c assumeHeader u)).map
      (t.reported c assumeHeader) ∧
    r.conflicted = (t.units.foldl (rowStep (t.context c assumeHeader)) {}).conflicted := by
  have hline := @inLine_state t c assumeHeader
  have hm := Merger.merge_eq rfl rfl hline.colUnits_eq rowUnits_eq hline.originalColNames_eq
    (hline.columnPasses_eq _) rfl
  refine ⟨_, hm, ?_, rfl⟩
  rw [report_rowChanges rfl, foldl_rowStep_unordered rfl rfl]
  rfl

/-! ## What each unit changes -/

theorem row_length {s : DataSheet} (hw : s.width = t.names.length) {k : Nat} (hk : k < s.height) :
    (s.row k).length = t.names.length := (s.row_length hk).trans hw

theorem stored_at (s : DataSheet) (i k : Nat) : (cellAt s i k).Stored :=
  cellAt_stored s (Int.natCast_nonneg k) (Int.natCast_nonneg i)

/-- The kinds of row units. -/
inductive IsUnit (t : ThreeWay) : MatchUnit → Prop
  | pair {p l r : Nat} (hl : t.rowsLocal.fwd p = some l) (hr : t.rowsRemote.fwd p = some r) :
    IsUnit t ⟨p, l, r, false, .preserve⟩
  | mine {l : Nat} (hl : l < t.locals.height) : IsUnit t ⟨-1, l, -1, false, .preserve⟩
  | delete {p l : Nat} (hl : t.rowsLocal.fwd p = some l) : IsUnit t ⟨p, l, -1, true, .delete⟩
  | added {r : Nat} (hr : r < t.remote.height) : IsUnit t (OrderMerge.insertUnit r)

theorem isUnit_unitAt {l : Nat} (hl : l < t.locals.height) :
    t.IsUnit (OrderMerge.unitAt t.rowsLocal t.rowsRemote l) := by
  unfold OrderMerge.unitAt
  cases hb : t.rowsLocal.bwd l with
  | none => exact IsUnit.mine hl
  | some p =>
    have hf := (t.rowsLocal.fwd_eq_some_iff p l).2 hb
    simp only
    cases hr : t.rowsRemote.fwd p with
    | none => exact IsUnit.delete hf
    | some r => exact IsUnit.pair hf hr

theorem isUnit_of_mem {u : MatchUnit} (hu : u ∈ t.units) : t.IsUnit u := by
  have hmem :=
    (OrderMerge.sweepFrom_perm (List.range t.locals.height) 0 (Nat.zero_le _)).mem_iff.mp hu
  rcases List.mem_append.mp hmem with h | h
  · obtain ⟨l, hl, rfl⟩ := List.mem_map.mp h
    exact isUnit_unitAt (List.mem_range.mp hl)
  · obtain ⟨r, -, hr, -, rfl⟩ := OrderMerge.mem_insertsIn.mp h
    exact IsUnit.added hr

/-- The merged cell of a unit in a column. -/
theorem mergedAt_pair (p l r i : Nat) :
    mergedAt (t.context c assumeHeader) ⟨p, l, r, false, .preserve⟩ (column i) =
    mergedCell (t.state c assumeHeader).flags (cellAt t.locals i l) (cellAt t.remote i r)
    (cellAt t.pivot i p) := rfl

theorem mergedAt_added (r i : Nat) :
    mergedAt (t.context c assumeHeader) (OrderMerge.insertUnit r) (column i) =
    if (cellAt t.remote i r).escaped then ⟨SheetCell.blankCell, false, false⟩
    else ⟨cellAt t.remote i r, true, false⟩ := by
  have hblank : cellAt (t.context c assumeHeader).locals (column i).localUnit (-1) =
    SheetCell.blankCell := cellAt_blank _ (Or.inl rfl)
  unfold mergedAt
  rw [show (OrderMerge.insertUnit r).localUnit = -1 from rfl, hblank]
  exact mergedCell_added rfl (stored_at t.remote i r) _

theorem mergedAt_dropped {u : MatchUnit} {l : Nat} (hl : u.localUnit = l)
    (hr : u.remoteUnit = -1) (i : Nat) :
    mergedAt (t.context c assumeHeader) u (column i) = ⟨cellAt t.locals i l, false, false⟩ := by
  have hblank : cellAt (t.context c assumeHeader).remote (column i).remoteUnit (-1) =
    SheetCell.blankCell := cellAt_blank _ (Or.inl rfl)
  unfold mergedAt
  rw [hr, hl, hblank]
  exact mergedCell_dropped (stored_at t.locals i l) _

theorem values (u : MatchUnit) :
    Enters t.names (newCell (t.context c assumeHeader) u) (t.change c assumeHeader u).val ∧
      ((t.change c assumeHeader u).conflicted = true ↔
        ∃ i < t.names.length, (mergedAt (t.context c assumeHeader) u (column i)).conflicted =
          true) := by
  have hv := (@inLine t c assumeHeader).valuesOf_enters u
  exact ⟨hv.values, hv.conflict⟩

theorem conds {u : MatchUnit} {l : Nat} (hu : u.localUnit = l) :
    Enters t.names (fun i => some ((t.locals.row l).getD i SheetCell.null))
    (t.change c assumeHeader u).cond := by
  show Enters t.names _
    (rowCond (t.context c assumeHeader) u.localUnit 0 (t.context c assumeHeader).colAccum [])
  rw [hu]
  refine ((@inLine t c assumeHeader).rowCond_enters l).congr fun i _ => ?_
  exact congrArg some (cellAt_eq _ i l)

/-! ## The edits of a unit -/

/-- The local row of a unit. -/
def oldRow? (t : ThreeWay) (u : MatchUnit) : Option (List SheetCell) :=
  if u.localUnit = -1 then none else some (t.locals.row u.localUnit.toNat)

/-- The row that a unit leaves. -/
def newRow? (t : ThreeWay) (c : Settling) (zero : SheetCell) (u : MatchUnit) :
    Option (List SheetCell) :=
  if u.remoteUnit = -1 then if u.pivotUnit = -1 then t.oldRow? u else none
  else if u.localUnit = -1 then some (filledRow zero (t.remote.row u.remoteUnit.toNat))
  else some (reconcile c (t.pivot.row u.pivotUnit.toNat) (t.locals.row u.localUnit.toNat)
    (t.remote.row u.remoteUnit.toNat))

/-- A row of the right width. -/
def Wide (t : ThreeWay) (row : List SheetCell) : Prop := row.length = t.names.length

theorem pair_rows (zero : SheetCell) (p l r : Nat) :
    t.oldRow? ⟨p, l, r, false, .preserve⟩ = some (t.locals.row l) ∧
      t.newRow? c zero ⟨p, l, r, false, .preserve⟩ =
        some (reconcile c (t.pivot.row p) (t.locals.row l) (t.remote.row r)) := by
  unfold oldRow? newRow?
  simp only
  rw [if_neg (by omega), if_neg (by omega), if_neg (by omega)]
  exact ⟨rfl, rfl⟩

theorem added_rows (zero : SheetCell) (r : Nat) : t.oldRow? (OrderMerge.insertUnit r) = none ∧
    t.newRow? c zero (OrderMerge.insertUnit r) = some (filledRow zero (t.remote.row r)) := by
  unfold oldRow? newRow?
  rw [if_neg (Comparison.insertUnit_remote r)]
  exact ⟨rfl, rfl⟩

theorem mine_rows (zero : SheetCell) (l : Nat) :
    t.oldRow? ⟨-1, l, -1, false, .preserve⟩ = some (t.locals.row l) ∧
    t.newRow? c zero ⟨-1, l, -1, false, .preserve⟩ = some (t.locals.row l) := by
  have hold : t.oldRow? ⟨-1, l, -1, false, .preserve⟩ = some (t.locals.row l) :=
    if_neg (by simp only; omega)
  exact ⟨hold, hold⟩

theorem delete_rows (zero : SheetCell) (p l : Nat) :
    t.oldRow? ⟨p, l, -1, true, .delete⟩ = some (t.locals.row l) ∧
    t.newRow? c zero ⟨p, l, -1, true, .delete⟩ = none := by
  unfold oldRow? newRow?
  simp only
  rw [if_neg (by omega), if_neg (show (p : Int) ≠ -1 by omega)]
  exact ⟨rfl, rfl⟩

/-- The edits of a change: a change in conflict is refused. -/
def editsOf (names : List String) (zero : SheetCell) (change : RowChange) :
    List (Edit (List SheetCell)) :=
  if change.conflicted then [] else [change.edit names zero]

section
variable {p l r : Nat} (hl : t.rowsLocal.fwd p = some l) (hr : t.rowsRemote.fwd p = some r)

include hl hr

theorem pair_lengths : (t.pivot.row p).length = t.names.length ∧
    (t.locals.row l).length = t.names.length ∧ (t.remote.row r).length = t.names.length :=
  ⟨row_length t.pivot_width (t.rowsLocal.fwd_lt hl).1,
    row_length t.local_width (t.rowsLocal.fwd_lt hl).2,
    row_length t.remote_width (t.rowsRemote.fwd_lt hr).2⟩

/-- A row is in conflict with the merge as it is with the rule for whole rows. -/
theorem conflicted_pair_iff : (t.change c assumeHeader ⟨p, l, r, false, .preserve⟩).conflicted =
    true ↔ c = .undecided ∧ clash (t.pivot.row p) (t.locals.row l) (t.remote.row r) = true := by
  obtain ⟨hlp, hll, hlr⟩ := pair_lengths hl hr
  have hcell :
    ∀ i, (mergedAt (t.context c assumeHeader) ⟨p, l, r, false, .preserve⟩ (column i)).conflicted =
    true ↔
      c = .undecided ∧ merge3 (cellAt t.pivot i p) (cellAt t.locals i l) (cellAt t.remote i r) =
      none := by
    intro i
    rw [mergedAt_pair]
    exact (mergedCell_eq_settle rfl rfl (stored_at t.locals i l) (stored_at t.remote i r)).2.1
  rw [(values _).2, clash_iff SheetCell.null hlp hll hlr]
  simp only [hcell, cellAt_eq]
  constructor
  · rintro ⟨i, hi, hc, hnone⟩
    exact ⟨hc, i, hi, hnone⟩
  · rintro ⟨hc, i, hi, hnone⟩
    exact ⟨i, hi, hc, hnone⟩

omit hl hr in
/-- What a matched row enters in a column, if it is not in conflict: the cell, where it is not
local's. -/
theorem newCell_pair (hconf : (t.change c assumeHeader ⟨p, l, r, false, .preserve⟩).conflicted =
    false) {i : Nat}
    (hi : i < t.names.length) :
    newCell (t.context c assumeHeader) ⟨p, l, r, false, .preserve⟩ i =
      let x :=
        settle c ((t.pivot.row p).getD i SheetCell.null) ((t.locals.row l).getD i SheetCell.null)
          ((t.remote.row r).getD i SheetCell.null)
      if x ≠ (t.locals.row l).getD i SheetCell.null then some x else none := by
  obtain ⟨hcell, -, hnovel⟩ :=
    @mergedCell_eq_settle (t.state c assumeHeader).flags c _ _ (cellAt t.pivot i p) rfl rfl
    (stored_at t.locals i l) (stored_at t.remote i r)
  have hnone :
    (mergedAt (t.context c assumeHeader) ⟨p, l, r, false, .preserve⟩ (column i)).conflicted =
    false := by
    refine Bool.eq_false_iff.2 fun h => Bool.false_ne_true ?_
    rw [← hconf]
    exact (values _).2.2 ⟨i, hi, h⟩
  rw [← cellAt_eq, ← cellAt_eq, ← cellAt_eq, ← hcell]
  refine if_congr ?_ rfl rfl
  rw [hcell]
  exact hnovel hnone

/-- The assignments of a matched row that is not in conflict make the reconciled row of it. -/
theorem patched_pair (hconf : (t.change c assumeHeader ⟨p, l, r, false, .preserve⟩).conflicted =
    false) : RowChange.patched t.names (t.change c assumeHeader ⟨p, l, r, false, .preserve⟩).val
      (t.locals.row l) =
      reconcile c (t.pivot.row p) (t.locals.row l) (t.remote.row r) := by
  obtain ⟨hlp, hll, hlr⟩ := pair_lengths hl hr
  have hclash :
    ¬(c = .undecided ∧ clash (t.pivot.row p) (t.locals.row l) (t.remote.row r) = true) := by
    rw [← @conflicted_pair_iff t c assumeHeader p l r hl hr, hconf]
    exact Bool.false_ne_true
  unfold reconcile
  rw [if_neg hclash]
  refine (values _).1.patched_eq hll ?_ fun i h1 h2 => ?_
  · simp only [List.length_map, List.length_zip, hlp, hll, hlr, Nat.min_self]
  · have hi : i < t.names.length := by omega
    rw [newCell_pair hconf hi, List.getElem_map, List.getElem_zip, List.getElem_zip]
    simp only
    rw [List.getD_eq_getElem _ _ h1, List.getD_eq_getElem _ _ (hlp ▸ hi),
      List.getD_eq_getElem _ _ (hlr ▸ hi)]
    split
    · rfl
    · next heq => exact (not_not.1 heq).symm

/-- Nothing is assigned exactly where the reconciled row is local's. -/
theorem val_pair_eq_nil_iff
    (hconf : (t.change c assumeHeader ⟨p, l, r, false, .preserve⟩).conflicted = false) :
    (t.change c assumeHeader ⟨p, l, r, false, .preserve⟩).val = [] ↔
      t.locals.row l = reconcile c (t.pivot.row p) (t.locals.row l) (t.remote.row r) := by
  obtain ⟨hlp, hll, hlr⟩ := pair_lengths hl hr
  have hpatched := patched_pair hl hr hconf
  constructor
  · intro hnil
    rw [hnil] at hpatched
    have hsame : RowChange.patched t.names [] (t.locals.row l) = t.locals.row l :=
      Enters.nil.patched_eq hll hll fun i h1 h2 => rfl
    exact hsame.symm.trans hpatched
  · intro heq
    refine (values _).1.eq_nil fun i hi => ?_
    have hget :=
      RowChange.patched_getElem? (t.change c assumeHeader ⟨p, l, r, false, .preserve⟩).val hll hi
    rw [hpatched, ← heq, (values _).1.get i hi, newCell_pair hconf hi] at hget
    rw [newCell_pair hconf hi]
    simp only at hget ⊢
    rw [List.getElem?_eq_getElem (hll ▸ hi),
      ← List.getD_eq_getElem _ SheetCell.null (hll ▸ hi)] at hget
    by_cases hx :
      settle c ((t.pivot.row p).getD i SheetCell.null) ((t.locals.row l).getD i SheetCell.null)
        ((t.remote.row r).getD i SheetCell.null) = (t.locals.row l).getD i SheetCell.null
    · rw [if_neg (not_not.2 hx)]
    · rw [if_pos hx] at hget
      exact absurd (Option.some.inj hget).symm hx

end

/-- The assignments of an added row fill a fresh one, but for the nulls. -/
theorem patched_added {zero : SheetCell} {r : Nat} (hr : r < t.remote.height) :
    RowChange.patched t.names (t.change c assumeHeader (OrderMerge.insertUnit r)).val
      (List.replicate t.names.length zero) =
      filledRow zero (t.remote.row r) := by
  have hlr := row_length t.remote_width hr
  refine (values _).1.patched_eq List.length_replicate
    ((List.length_map _).trans hlr) fun i h1 h2 => ?_
  have hi : i < (t.remote.row r).length := by rwa [filledRow, List.length_map] at h2
  have hout : (filledRow zero (t.remote.row r))[i] = if (t.remote.row r)[i].escaped then zero
    else (t.remote.row r)[i] := List.getElem_map _
  unfold newCell
  rw [mergedAt_added, cellAt_eq, List.getD_eq_getElem _ _ hi, hout, List.getElem_replicate]
  split <;> rfl

theorem dropped_unconflicted {u : MatchUnit} {l : Nat} (hl : u.localUnit = l)
    (hr : u.remoteUnit = -1) : ¬(t.change c assumeHeader u).conflicted = true := by
  intro h
  obtain ⟨i, -, hi⟩ := (values u).2.1 h
  rw [mergedAt_dropped hl hr] at hi
  cases hi

theorem added_unconflicted {r : Nat} :
    ¬(t.change c assumeHeader (OrderMerge.insertUnit r)).conflicted = true := by
  intro h
  obtain ⟨i, -, hi⟩ := (values _).2.1 h
  rw [mergedAt_added] at hi
  split at hi <;> cases hi

/-- The conditions of a change single out the local row. -/
theorem agrees_eq {u : MatchUnit} {l : Nat} (hu : u.localUnit = l) (hl : l < t.locals.height)
    {row : List SheetCell} (hrow : t.Wide row) :
    RowChange.agrees t.names (t.change c assumeHeader u).cond row =
    decide (row = t.locals.row l) := by
  rw [Bool.eq_iff_iff, decide_eq_true_iff]
  exact (conds hu).agrees_iff (row_length t.local_width hl) hrow

/-- The changes of a unit come to an exchange of its rows. -/
theorem unit_alike {zero : SheetCell} {u : MatchUnit} (hu : t.IsUnit u) :
    List.Forall₂ (Edit.Alike t.Wide)
      ((unorderedRow u (t.change c assumeHeader u)).flatMap (editsOf t.names zero))
      (Edit.exchange (t.oldRow? u) (t.newRow? c zero u)) := by
  cases hu with
  | @pair p l r hl hr =>
    obtain ⟨hold, hnew⟩ := @pair_rows t c zero p l r
    have hlt := (t.rowsLocal.fwd_lt hl).2
    rw [hold, hnew, Edit.exchange_pair]
    unfold unorderedRow
    rw [if_neg (show (l : Int) ≠ -1 by omega), if_neg (show (r : Int) ≠ -1 by omega)]
    by_cases hconf : (t.change c assumeHeader ⟨p, l, r, false, .preserve⟩).conflicted = true
    · -- the patcher refuses the change, and the row stays as it is
      have hsame : reconcile c (t.pivot.row p) (t.locals.row l) (t.remote.row r) = t.locals.row l :=
        if_pos ((conflicted_pair_iff hl hr).1 hconf)
      rw [if_pos hsame.symm]
      split
      · rw [List.flatMap_singleton, editsOf, if_pos hconf]
        exact List.Forall₂.nil
      · exact List.Forall₂.nil
    · have hconf' := Bool.eq_false_iff.2 hconf
      have hnil := val_pair_eq_nil_iff hl hr hconf'
      by_cases hsame :
        t.locals.row l = reconcile c (t.pivot.row p) (t.locals.row l) (t.remote.row r)
      · rw [if_pos hsame, if_neg (by rw [hnil.2 hsame]; simp)]
        exact List.Forall₂.nil
      · rw [if_neg hsame, if_pos (fun hz => hsame (hnil.1 (List.length_eq_zero_iff.1 hz))),
          List.flatMap_singleton, editsOf, if_neg hconf]
        refine List.Forall₂.cons (fun row hrow => ?_) List.Forall₂.nil
        refine ⟨agrees_eq rfl hlt hrow, fun hag => ⟨?_, RowChange.patched_length _ hrow⟩⟩
        rw [show row = t.locals.row l
          from of_decide_eq_true ((agrees_eq rfl hlt hrow).symm.trans hag)]
        exact patched_pair hl hr hconf'
  | @mine l hl =>
    obtain ⟨hold, hnew⟩ := @mine_rows t c zero l
    rw [hold, hnew, Edit.exchange_pair, if_pos rfl]
    unfold unorderedRow
    rw [if_neg (show (l : Int) ≠ -1 by omega), if_pos rfl, if_neg (not_not.2 rfl)]
    exact List.Forall₂.nil
  | @delete p l hl =>
    obtain ⟨hold, hnew⟩ := @delete_rows t c zero p l
    have hlt := (t.rowsLocal.fwd_lt hl).2
    rw [hold, hnew]
    unfold unorderedRow
    rw [if_neg (show (l : Int) ≠ -1 by omega), if_pos rfl, if_pos (show (p : Int) ≠ -1 by omega),
      List.flatMap_singleton, editsOf, if_neg (fun h => dropped_unconflicted rfl rfl h)]
    exact List.Forall₂.cons (fun row hrow => agrees_eq rfl hlt hrow) List.Forall₂.nil
  | @added r hr =>
    obtain ⟨hold, hnew⟩ := @added_rows t c zero r
    rw [hold, hnew]
    unfold unorderedRow
    rw [if_pos (show (OrderMerge.insertUnit r).localUnit = -1 from rfl), List.flatMap_singleton,
      editsOf, if_neg (fun h => added_unconflicted h)]
    exact List.Forall₂.cons ⟨patched_added hr, RowChange.patched_length _ List.length_replicate⟩
      List.Forall₂.nil

/-- A unit is reported by changes of a kind, and of no other. -/
theorem mem_unorderedRow {u : MatchUnit} {change x : RowChange} (hx : x ∈ unorderedRow u change) :
    ∃ mode, x = { change with mode := mode } ∧ mode ≠ .context := by
  unfold unorderedRow at hx
  split at hx
  · exact ⟨.insert, List.mem_singleton.mp hx, by decide⟩
  split at hx
  · split at hx
    · exact ⟨.delete, List.mem_singleton.mp hx, by decide⟩
    · cases hx
  · split at hx
    · exact ⟨.update, List.mem_singleton.mp hx, by decide⟩
    · cases hx

theorem reported_plain {u : MatchUnit} (hu : t.IsUnit u) {x : RowChange}
    (hx : x ∈ unorderedRow u (t.change c assumeHeader u))
    (hconf : x.conflicted = false) : (t.reported c assumeHeader x).Plain t.names := by
  obtain ⟨mode, rfl, -⟩ := mem_unorderedRow hx
  have hcond : (t.change c assumeHeader u).cond.keys.Nodup ∧
    ∀ n ∈ (t.change c assumeHeader u).cond.keys, n ∈ t.names := by
    cases hu with
    | pair hl hr => exact ⟨(conds rfl).nodup, (conds rfl).names⟩
    | mine hl => exact ⟨(conds rfl).nodup, (conds rfl).names⟩
    | delete hl => exact ⟨(conds rfl).nodup, (conds rfl).names⟩
    | @added r hr =>
      have hnil : (t.change c assumeHeader (OrderMerge.insertUnit r)).cond = [] :=
        rowCond_insert _ _ 0
      rw [hnil]
      exact ⟨List.nodup_nil, fun n hn => by cases hn⟩
  exact ⟨rfl, rfl, hconf, hcond.1, hcond.2, (values u).1.nodup⟩

end

/-! ## The replay -/

end ThreeWay

namespace SheetPatcher.Follows

variable {names : List String} {header : Bool} {p : SheetPatcher} {z : Zipper (List SheetCell)}

/-- A change in conflict is refused, and the patcher stays where it is. -/
theorem changeRow_conflicted (h : Follows names header p z) {change : RowChange}
    (hnames : change.allNames = names) (hconf : change.conflicted = true) :
    ∃ r, p.changeRow change = some r ∧ Follows names header r.1 z ∧
    r.1.sheet.zero = p.sheet.zero := by
  unfold SheetPatcher.changeRow
  rw [hnames, hconf]
  split
  · exact ⟨(p, false), rfl, h, rfl⟩
  · obtain ⟨p', hp', hfol, hsheet⟩ := h.declareNames
    rw [hp']
    exact ⟨(p', false), rfl, hfol, by rw [hsheet]⟩

/-- **A script with conflicts in it.**  The patcher makes the edits of the changes that are in no
conflict. -/
theorem changeRows_conflicted (changes : List RowChange) :
    ∀ {p : SheetPatcher} {z : Zipper (List SheetCell)},
    Follows names header p z → (∀ change ∈ changes, change.allNames = names) →
    (∀ change ∈ changes, change.conflicted = false → change.Plain names) →
    (∀ change ∈ changes, change.mode ≠ .context) →
    ∃ p', SheetPatcher.changeRows changes p = some p' ∧
      Follows names header p'
        (Edit.run (changes.flatMap (ThreeWay.editsOf names p.sheet.zero)) z) := by
  induction changes with
  | nil => exact fun h _ _ _ => ⟨_, rfl, h⟩
  | cons change changes ih =>
    intro p z h hnames hplain hmode
    have hstep : ∃ r, p.changeRow change = some r ∧
      Follows names header r.1 (Edit.run (ThreeWay.editsOf names p.sheet.zero change) z) ∧
        r.1.sheet.zero = p.sheet.zero := by
      unfold ThreeWay.editsOf
      by_cases hconf : change.conflicted = true
      · rw [if_pos hconf]
        exact h.changeRow_conflicted (hnames change (by simp)) hconf
      · rw [if_neg hconf]
        exact h.changeRow (hplain change (by simp) (Bool.eq_false_iff.2 hconf))
          fun hm => absurd hm (hmode change (by simp))
    obtain ⟨r, hr, hfol, hzero⟩ := hstep
    obtain ⟨p', hp', hfol'⟩ := ih hfol (fun c hc => hnames c (List.mem_cons_of_mem _ hc))
      (fun c hc => hplain c (List.mem_cons_of_mem _ hc)) fun c hc =>
        hmode c (List.mem_cons_of_mem _ hc)
    refine ⟨p', ?_, ?_⟩
    · show (p.changeRow change).bind _ = _
      rw [hr]
      exact hp'
    · rw [hzero] at hfol'
      rw [List.flatMap_cons, Edit.run_append]
      exact hfol'

end SheetPatcher.Follows

namespace ThreeWay

section
variable {t : ThreeWay} {c : Settling} {assumeHeader : Bool} {zero : SheetCell}

/-- The replay of the reported changes is a run of exchanges. -/
theorem replay_eq {changes : List RowChange} (h : changes =
    (t.units.flatMap fun u => unorderedRow u (t.change c assumeHeader u)).map
      (t.reported c assumeHeader)) :
    t.replay zero assumeHeader changes =
      some (Edit.run (t.units.flatMap fun u => Edit.exchange (t.oldRow? u) (t.newRow? c zero u))
        (Zipper.atEnd t.locals.rows)).items := by
  have hwide : ∀ row ∈ t.locals.rows, t.Wide row :=
    fun row hrow => (t.locals.rect row hrow).trans t.local_width
  have hmem : ∀ x ∈ changes, ∃ y u, t.IsUnit u ∧ y ∈ unorderedRow u (t.change c assumeHeader u) ∧
      x = t.reported c assumeHeader y := by
    intro x hx
    rw [h] at hx
    obtain ⟨y, hy, rfl⟩ := List.mem_map.mp hx
    obtain ⟨u, hu, hy⟩ := List.mem_flatMap.mp hy
    exact ⟨y, u, isUnit_of_mem hu, hy, rfl⟩
  obtain ⟨p, hp, hfol, hzero⟩ := SheetPatcher.attach_follows t.names_nodup t.usable
    (show (⟨t.locals.rows, t.names.length, zero⟩ : TypedSheet SheetCell).w = t.names.length
      from rfl) hwide assumeHeader
  obtain ⟨p', hp', hfol'⟩ := hfol.changeRows_conflicted changes
    (fun x hx => by
      obtain ⟨y, u, -, -, rfl⟩ := hmem x hx
      rfl)
    (fun x hx hconf => by
      obtain ⟨y, u, hu, hy, rfl⟩ := hmem x hx
      exact reported_plain hu hy hconf)
    (fun x hx => by
      obtain ⟨y, u, -, hy, rfl⟩ := hmem x hx
      obtain ⟨mode, rfl, hmode⟩ := mem_unorderedRow hy
      exact hmode)
  have hedits : changes.flatMap (editsOf t.names zero) =
      t.units.flatMap fun u => (unorderedRow u (t.change c assumeHeader u)).flatMap
        (editsOf t.names zero) := by
    rw [h, List.flatMap_map, List.flatMap_assoc]
    rfl
  unfold replay
  rw [hp, Option.bind_some, hp', Option.map_some, hfol'.arr, hzero, hedits,
    Edit.run_alike (Comparison.forall₂_flatMap _ fun u hu => unit_alike (isUnit_of_mem hu))]
  rw [Zipper.items_atEnd]
  exact hwide

/-- Every local row is the old row of one unit. -/
theorem oldRows_perm : (t.units.filterMap t.oldRow?).Perm t.locals.rows := by
  have hins : (OrderMerge.insertsIn t.rowsRemote 0 t.remote.height).filterMap t.oldRow? = [] := by
    rw [List.filterMap_eq_nil_iff]
    intro u hu
    obtain ⟨r, -, -, -, rfl⟩ := OrderMerge.mem_insertsIn.mp hu
    rfl
  have hold :
    ((List.range t.locals.height).map (OrderMerge.unitAt t.rowsLocal t.rowsRemote)).filterMap
    t.oldRow? =
      t.locals.rows := by
    rw [List.filterMap_map, ← Comparison.rows_eq_map t.locals, ← List.filterMap_eq_map]
    refine List.filterMap_congr fun l _ => ?_
    show t.oldRow? (OrderMerge.unitAt t.rowsLocal t.rowsRemote l) = some (t.locals.row l)
    unfold oldRow?
    rw [OrderMerge.unitAt_localUnit, if_neg (by omega), Int.toNat_natCast]
  unfold units
  calc List.Perm _ _ :=
        (OrderMerge.sweepFrom_perm (List.range t.locals.height) 0 (Nat.zero_le _)).filterMap
        t.oldRow?
    _ = t.locals.rows := by rw [List.filterMap_append, hins, List.append_nil, hold]

/-- What the unit of a local row leaves. -/
theorem newRow_unitAt (l : Nat) : t.newRow? c zero (OrderMerge.unitAt t.rowsLocal t.rowsRemote l) =
    if t.rowsLocal.bwd l = none then some (t.locals.row l)
    else (t.rowsLocal.bwd l).bind fun p => (t.rowsRemote.fwd p).map fun r =>
      reconcile c (t.pivot.row p) (t.locals.row l) (t.remote.row r) := by
  unfold OrderMerge.unitAt
  cases hb : t.rowsLocal.bwd l with
  | none => exact (mine_rows zero l).2
  | some p =>
    rw [if_neg (by simp), Option.bind_some]
    simp only
    cases hr : t.rowsRemote.fwd p with
    | none => exact (delete_rows zero p l).2
    | some r => exact (pair_rows zero p l r).2

/-- The rows that the units leave are those of the merged table. -/
theorem newRows_perm : (t.units.filterMap (t.newRow? c zero)).Perm (t.merged c zero) := by
  have hins : (OrderMerge.insertsIn t.rowsRemote 0 t.remote.height).filterMap (t.newRow? c zero) =
      (addedRows t.remote t.rowsRemote).map (filledRow zero) := by
    unfold OrderMerge.insertsIn addedRows
    rw [List.filterMap_map, List.filterMap_filter, List.map_filterMap, Nat.sub_zero,
      ← List.range_eq_range']
    refine List.filterMap_congr fun r _ => ?_
    show (if (t.rowsRemote.bwd r).isNone = true then t.newRow? c zero (OrderMerge.insertUnit r)
      else none) = _
    rw [(added_rows zero r).2]
    cases t.rowsRemote.bwd r <;> rfl
  -- the rows that local has: those with a pivot, and its own
  have hmine :
    (((List.range t.locals.height).map (OrderMerge.unitAt t.rowsLocal t.rowsRemote)).filterMap
      (t.newRow? c zero)).Perm
        ((List.range t.pivot.height).filterMap (t.keptRow? c) ++
          addedRows t.locals t.rowsLocal) := by
    have hpairs := filterMap_pairs_perm t.rowsLocal.fwd_eq_some_iff (fun i j => t.rowsLocal.fwd_lt)
      fun p l => (t.rowsRemote.fwd p).map fun r => reconcile c (t.pivot.row p) (t.locals.row l)
        (t.remote.row r)
    rw [List.filterMap_map]
    refine (filterMap_kinds_perm (fun l => ?_) _).trans (hpairs.append_right _)
    rw [Function.comp_apply, newRow_unitAt]
    cases hb : t.rowsLocal.bwd l with
    | none => exact Or.inr ⟨rfl, rfl⟩
    | some p => exact Or.inl ⟨if_neg (by simp), if_neg (by simp)⟩
  unfold units
  calc List.Perm _ _ :=
        (OrderMerge.sweepFrom_perm (List.range t.locals.height) 0 (Nat.zero_le _)).filterMap
          (t.newRow? c zero)
    _ = _ := by rw [List.filterMap_append, hins]
    List.Perm _ (t.merged c zero) := hmine.append_right _

/-- The merge says that there is a conflict if there is one, and it is left undecided. -/
theorem conflicted_iff : (t.units.foldl (rowStep (t.context c assumeHeader)) {}).conflicted = true ↔
    c = .undecided ∧ t.Conflicts := by
  have hfold :
    ∀ (us : List MatchUnit) (s : RowState),
    (us.foldl (rowStep (t.context c assumeHeader)) s).conflicted = true ↔
      s.conflicted = true ∨ ∃ u ∈ us, (t.change c assumeHeader u).conflicted = true := by
    intro us
    induction us with
    | nil => exact fun s => by simp
    | cons u us ih =>
      intro s
      have hstep : (rowStep (t.context c assumeHeader) s u).conflicted =
          (s.conflicted || (t.change c assumeHeader u).conflicted) := rfl
      rw [List.foldl_cons, ih, hstep, Bool.or_eq_true]
      simp only [List.mem_cons, exists_eq_or_imp, or_assoc]
  rw [hfold]
  constructor
  · rintro (h | ⟨u, hu, hconf⟩)
    · cases h
    · cases isUnit_of_mem hu with
      | @pair p l r hl hr =>
        obtain ⟨hc, hclash⟩ := (conflicted_pair_iff hl hr).1 hconf
        exact ⟨hc, p, l, r, hl, hr, hclash⟩
      | @mine l hl => exact absurd hconf (dropped_unconflicted rfl rfl)
      | @delete p l hl => exact absurd hconf (dropped_unconflicted rfl rfl)
      | @added r hr => exact absurd hconf added_unconflicted
  · rintro ⟨hc, p, l, r, hl, hr, hclash⟩
    have hunit : OrderMerge.unitAt t.rowsLocal t.rowsRemote l = ⟨p, l, r, false, .preserve⟩ := by
      unfold OrderMerge.unitAt
      rw [(t.rowsLocal.fwd_eq_some_iff p l).1 hl]
      simp only [hr]
    refine Or.inr ⟨⟨p, l, r, false, .preserve⟩, ?_, (conflicted_pair_iff hl hr).2 ⟨hc, hclash⟩⟩
    refine (OrderMerge.sweepFrom_perm (List.range t.locals.height) 0 (Nat.zero_le _)).mem_iff.2 ?_
    exact List.mem_append_left _
      (List.mem_map.2 ⟨l, List.mem_range.2 (t.rowsLocal.fwd_lt hl).2, hunit⟩)

end

/-- **The merge of three tables.**  The merge returns, and says that there is a conflict exactly if
one is left undecided.  Its row changes, replayed on local, make the merged table of it, up to the
order of the rows. -/
theorem replay_merged (t : ThreeWay) (c : Settling) (assumeHeader : Bool) (zero : SheetCell) :
    ∃ r rows, merge (t.state c assumeHeader) = .ok r ∧
    (r.conflicted = true ↔ c = .undecided ∧ t.Conflicts) ∧
      t.replay zero assumeHeader r.rowChanges = some rows ∧ rows.Perm (t.merged c zero) := by
  obtain ⟨r, hr, hchanges, hconf⟩ := @merge_changes t c assumeHeader
  have hrun := Edit.run_exchange_perm (t.units.map fun u => (t.oldRow? u, t.newRow? c zero u))
    (Zipper.atEnd t.locals.rows) [] (by
      rw [Zipper.items_atEnd, List.filterMap_map]
      exact oldRows_perm.symm)
  rw [List.filterMap_map, List.flatMap_map] at hrun
  exact ⟨r, _, hr, by rw [hconf, conflicted_iff], replay_eq hchanges, hrun.trans newRows_perm⟩

end ThreeWay

end Coopy
