import Coopy.UnorderedScript

/-!
# NULLs in the rows that are added

A row that local does not have is reported without its NULLs, and the patcher writes what is
reported into a row of fresh cells.  A fresh cell of a `CsvSheet` is an empty text.  So the replay
of a comparison keeps the NULLs of matched rows, and loses those of added ones:

    NullsSurvive zero ↔ zero is the NULL, or no added row has one                 (nullsSurvive_iff)
-/

namespace Coopy

open Lib Merger

open Comparison (column pairUnit deleteUnit isRow)

/-- Two tables under the same column names, and which of their rows correspond. -/
structure Tables where
  locals : DataSheet
  remote : DataSheet
  names : List String
  rows : Matching locals.height remote.height
  names_nodup : names.Nodup
  local_width : locals.width = names.length
  remote_width : remote.width = names.length
  remote_nodup : remote.rows.Nodup

namespace Tables

variable (t : Tables)

/-- The merge with local as the pivot and order not in use. -/
def state (assumeHeader : Bool) : MergerState where
  pivot := t.locals
  locals := t.locals
  remote := t.remote
  rowLocal := (Matching.identity t.locals.height).toOrderResult
  rowRemote := t.rows.toOrderResult
  colLocal := (Matching.identity t.names.length).toOrderResult
  colRemote := (Matching.identity t.names.length).toOrderResult
  flags := { useOrder := false, assumeHeader := assumeHeader }
  localNames := ⟨t.names, []⟩
  remoteNames := ⟨t.names, []⟩

/-- Row changes made to a copy of local whose fresh cells are `zero`. -/
def replay (zero : SheetCell) (assumeHeader : Bool) (changes : List RowChange) :
    Option (List (List SheetCell)) :=
  (SheetPatcher.attach ⟨t.locals.rows, t.names.length, zero⟩ t.names assumeHeader).bind fun p =>
    (SheetPatcher.changeRows changes p).map fun p => p.sheet.arr

/-- The replay of the comparison has every row of the remote, each NULL a NULL and each text the
same text. -/
def NullsSurvive (zero : SheetCell) (assumeHeader : Bool) : Prop :=
  ∃ r rows, merge (t.state assumeHeader) = .ok r ∧ t.replay zero assumeHeader r.rowChanges =
  some rows ∧
    ∀ row ∈ t.remote.rows, row ∈ rows

/-- No row without a local partner has a NULL. -/
def NoneAdded : Prop := ∀ r < t.remote.height, t.rows.b2a r = -1 →
    ∀ c ∈ t.remote.row r, c.escaped = false

/-! ## The changes -/

/-- The row units: all remote rows, if there are no columns. -/
def units : List MatchUnit :=
  if t.names = [] then (List.range t.remote.height).map fun i : Nat => ⟨-1, -1, i, false, .none⟩
  else OrderMerge.sweepFrom (Matching.identity t.locals.height) t.rows
    (List.range t.locals.height) 0

def context (assumeHeader : Bool) : RowContext :=
  rowContext (t.state assumeHeader) ((List.range t.names.length).map column) t.names
    (ColState.start t.locals.width t.names)

/-- The change of a row unit, before its mode is known. -/
def change (assumeHeader : Bool) (u : MatchUnit) : RowChange :=
  rowChangeOf (t.context assumeHeader) u
  (valuesOf (t.context assumeHeader) u 0 (t.context assumeHeader).colAccum {})

section
variable {t} {assumeHeader : Bool}

theorem inLine : InLine (t.context assumeHeader) := ⟨t.names_nodup, rfl, rfl⟩

theorem inLine_state : StateInLine (t.state assumeHeader) t.names :=
  ⟨rfl, rfl, rfl, rfl, t.local_width⟩

theorem rowUnits_eq : rowUnits (t.state assumeHeader)
    (OrderMerge.countOverlap ((List.range t.names.length).map column)) = some t.units := by
  unfold rowUnits units
  by_cases hn : t.names = []
  · rw [if_pos hn, hn,
      if_pos (show OrderMerge.countOverlap ((List.range [].length).map column) = 0 from rfl)]
    simp only [List.pure_def, List.bind_eq_flatMap]
    rw [← List.map_eq_flatMap, List.map_map]
    rfl
  · have hfwd : (Matching.identity t.names.length).fwd 0 = some 0 := by
      rw [Matching.identity_fwd, if_pos (List.length_pos_iff.mpr hn)]
    rw [if_neg hn, ← localUnits_columns,
      if_neg (countOverlap_pos (Matching.identity t.names.length) hfwd)]
    show Option.map OrderMerge.accum (OrderMerge.merge
      (OrderMerge.enough (Matching.identity t.locals.height).toOrderResult t.rows.toOrderResult)
      (Matching.identity t.locals.height).toOrderResult t.rows.toOrderResult
        { useOrder := false, assumeHeader := assumeHeader } false) = _
    rw [OrderMerge.merge_eq _ _ rfl rfl false (Nat.le_refl _)]
    rfl

/-- A change as it is reported. -/
def reported (t : Tables) (assumeHeader : Bool) (change : RowChange) : RowChange :=
  { change with
    indexes := reportedIndexes t.names (indexMap (t.state assumeHeader).flags t.names
      (IndexSniffer.sniff t.locals (t.state assumeHeader).flags ⟨t.names, []⟩))
        (ColState.start t.locals.width t.names)
    allNames := t.names }

/-- The merge reports the changes of the units, one unit after the other. -/
theorem merge_changes : ∃ r, merge (t.state assumeHeader) = .ok r ∧
    r.rowChanges = (t.units.flatMap fun u => unorderedRow u (t.change assumeHeader u)).map
      (t.reported assumeHeader) := by
  have hline := @inLine_state t assumeHeader
  have hm := Merger.merge_eq rfl rfl hline.colUnits_eq rowUnits_eq hline.originalColNames_eq
    (hline.columnPasses_eq _) rfl
  refine ⟨_, hm, ?_⟩
  rw [report_rowChanges rfl, foldl_rowStep_unordered rfl rfl]
  rfl

/-! ## What each unit changes -/

/-- The row that an added one becomes. -/
def filled (t : Tables) (zero : SheetCell) (r : Nat) : List SheetCell :=
  (t.remote.row r).map fun c => if c.escaped then zero else c

theorem local_length {l : Nat} (hl : l < t.locals.height) :
    (t.locals.row l).length = t.names.length :=
  (t.locals.row_length hl).trans t.local_width

theorem remote_length {r : Nat} (hr : r < t.remote.height) :
    (t.remote.row r).length = t.names.length :=
  (t.remote.row_length hr).trans t.remote_width

theorem local_stored (i l : Nat) : (cellAt t.locals i l).Stored :=
  cellAt_stored t.locals (Int.natCast_nonneg l) (Int.natCast_nonneg i)

theorem remote_stored (i r : Nat) : (cellAt t.remote i r).Stored :=
  cellAt_stored t.remote (Int.natCast_nonneg r) (Int.natCast_nonneg i)

theorem mergedAt_pair (l r i : Nat) : mergedAt (t.context assumeHeader) (pairUnit l r) (column i) =
    if cellAt t.locals i l = cellAt t.remote i r then ⟨cellAt t.locals i l, false, false⟩
    else ⟨cellAt t.remote i r, true, false⟩ :=
  mergedCell_kept rfl (local_stored i l) (remote_stored i r)

theorem mergedAt_added {u : MatchUnit} {r : Nat} (hl : u.localUnit = -1) (hr : u.remoteUnit = r)
    (i : Nat) : mergedAt (t.context assumeHeader) u (column i) =
      if (cellAt t.remote i r).escaped then ⟨SheetCell.blankCell, false, false⟩
      else ⟨cellAt t.remote i r, true, false⟩ := by
  unfold mergedAt
  rw [hl, hr]
  have hblank : cellAt (t.context assumeHeader).locals (column i).localUnit (-1) =
    SheetCell.blankCell := cellAt_blank _ (Or.inl rfl)
  rw [hblank]
  exact mergedCell_added rfl (remote_stored i r) _

theorem mergedAt_delete (l i : Nat) : mergedAt (t.context assumeHeader) (deleteUnit l) (column i) =
    ⟨cellAt t.locals i l, false, false⟩ := by
  unfold mergedAt
  have hblank : cellAt (t.context assumeHeader).remote (column i).remoteUnit (-1) =
    SheetCell.blankCell := cellAt_blank _ (Or.inl rfl)
  rw [show (deleteUnit l).remoteUnit = -1 from rfl, hblank]
  exact mergedCell_dropped (local_stored i l) _

theorem values (u : MatchUnit) :
    Enters t.names (newCell (t.context assumeHeader) u) (t.change assumeHeader u).val ∧
      ((t.change assumeHeader u).conflicted = true ↔
        ∃ i < t.names.length, (mergedAt (t.context assumeHeader) u (column i)).conflicted =
          true) := by
  have hv := (@inLine t assumeHeader).valuesOf_enters u
  exact ⟨hv.values, hv.conflict⟩

theorem conds {u : MatchUnit} {l : Nat} (hu : u.localUnit = l) :
    Enters t.names (fun i => some ((t.locals.row l).getD i SheetCell.null))
    (t.change assumeHeader u).cond := by
  show Enters t.names _
    (rowCond (t.context assumeHeader) u.localUnit 0 (t.context assumeHeader).colAccum [])
  rw [hu]
  refine ((@inLine t assumeHeader).rowCond_enters l).congr fun i _ => ?_
  exact congrArg some (cellAt_eq _ i l)

end

/-! ## The edits of a unit -/

/-- The kinds of row units. -/
inductive IsUnit : MatchUnit → Prop
  | pair {l r : Nat} (h : t.rows.fwd l = some r) : IsUnit (pairUnit l r)
  | added {u : MatchUnit} {r : Nat} (hl : u.localUnit = -1) (hr : u.remoteUnit = r)
    (hlt : r < t.remote.height) : IsUnit u
  | delete {l : Nat} (hl : l < t.locals.height) : IsUnit (deleteUnit l)

/-- The local row of a unit. -/
def oldRow? (u : MatchUnit) : Option (List SheetCell) :=
  if u.localUnit = -1 then none else some (t.locals.row u.localUnit.toNat)

/-- The row that a unit leaves. -/
def newRow? (zero : SheetCell) (u : MatchUnit) : Option (List SheetCell) :=
  if u.remoteUnit = -1 then none
  else some (if u.localUnit = -1 then t.filled zero u.remoteUnit.toNat
    else t.remote.row u.remoteUnit.toNat)

/-- A row of the right width. -/
def Wide (row : List SheetCell) : Prop := row.length = t.names.length

section
variable {t} {assumeHeader : Bool} {zero : SheetCell}

theorem rows_pair (zero : SheetCell) (l r : Nat) :
    t.oldRow? (pairUnit l r) = some (t.locals.row l) ∧
    t.newRow? zero (pairUnit l r) = some (t.remote.row r) := by
  unfold oldRow? newRow?
  rw [if_neg (Comparison.pairUnit_local l r), if_neg (Comparison.pairUnit_remote l r),
    if_neg (Comparison.pairUnit_local l r)]
  exact ⟨rfl, rfl⟩

theorem rows_added (zero : SheetCell) {u : MatchUnit} {r : Nat} (hl : u.localUnit = -1)
    (hr : u.remoteUnit = r) : t.oldRow? u = none ∧ t.newRow? zero u = some (t.filled zero r) := by
  unfold oldRow? newRow?
  rw [if_pos hl, hr, if_neg (by omega), if_pos hl]
  exact ⟨rfl, rfl⟩

theorem rows_delete (zero : SheetCell) (l : Nat) :
    t.oldRow? (deleteUnit l) = some (t.locals.row l) ∧ t.newRow? zero (deleteUnit l) = none := by
  unfold oldRow? newRow?
  rw [if_neg (Comparison.deleteUnit_local l)]
  exact ⟨rfl, rfl⟩

/-- The assignments of a matched row make its partner of it. -/
theorem patched_pair {l r : Nat} (h : t.rows.fwd l = some r) :
    RowChange.patched t.names (t.change assumeHeader (pairUnit l r)).val (t.locals.row l) =
    t.remote.row r := by
  obtain ⟨hl, hr⟩ := t.rows.fwd_lt h
  refine (values (pairUnit l r)).1.patched_eq (local_length hl) (remote_length hr) fun i h1 h2 => ?_
  unfold newCell
  rw [mergedAt_pair, cellAt_eq, cellAt_eq, List.getD_eq_getElem _ _ h1, List.getD_eq_getElem _ _ h2]
  split
  · next heq => exact heq
  · rfl

/-- The assignments of an added row fill a fresh one, but for the NULLs. -/
theorem patched_added {u : MatchUnit} {r : Nat} (hl : u.localUnit = -1) (hr : u.remoteUnit = r)
    (hlt : r < t.remote.height) :
    RowChange.patched t.names (t.change assumeHeader u).val (List.replicate t.names.length zero) =
    t.filled zero r := by
  have hlen : (t.filled zero r).length = t.names.length := by
    unfold filled
    rw [List.length_map]
    exact remote_length hlt
  have hcell : ∀ i (h : i < (t.filled zero r).length) (h' : i < (t.remote.row r).length),
      (t.filled zero r)[i] = if (t.remote.row r)[i].escaped then zero else (t.remote.row r)[i] := by
    intro i h h'
    exact List.getElem_map _
  refine (values u).1.patched_eq List.length_replicate hlen fun i h1 h2 => ?_
  have hi : i < (t.remote.row r).length := by
    rw [remote_length hlt, ← hlen]
    exact h2
  unfold newCell
  rw [mergedAt_added hl hr, cellAt_eq, List.getD_eq_getElem _ _ hi, hcell i h2 hi,
    List.getElem_replicate]
  split <;> rfl

theorem val_eq_nil_iff {l r : Nat} (h : t.rows.fwd l = some r) :
    (t.change assumeHeader (pairUnit l r)).val = [] ↔ t.locals.row l = t.remote.row r := by
  obtain ⟨hl, hr⟩ := t.rows.fwd_lt h
  constructor
  · intro hnil
    have hsame : RowChange.patched t.names [] (t.locals.row l) = t.locals.row l :=
      Enters.nil.patched_eq (local_length hl) (local_length hl) fun i h1 h2 => rfl
    rw [← patched_pair h, hnil, hsame]
  · intro heq
    refine (values (pairUnit l r)).1.eq_nil fun i _ => ?_
    unfold newCell
    rw [mergedAt_pair, cellAt_eq, cellAt_eq, heq, if_pos rfl]
    rfl

/-- The conditions of a change single out the local row. -/
theorem agrees_eq {u : MatchUnit} {l : Nat} (hu : u.localUnit = l) (hl : l < t.locals.height)
    {row : List SheetCell}
    (hrow : t.Wide row) : RowChange.agrees t.names (t.change assumeHeader u).cond row =
    decide (row = t.locals.row l) := by
  rw [Bool.eq_iff_iff, decide_eq_true_iff]
  exact (conds hu).agrees_iff (local_length hl) hrow

/-- The changes of a unit come to an exchange of its rows. -/
theorem unit_alike {u : MatchUnit} (hu : t.IsUnit u) :
    List.Forall₂ (Edit.Alike t.Wide)
      ((unorderedRow u (t.change assumeHeader u)).map (RowChange.edit t.names zero))
      (Edit.exchange (t.oldRow? u) (t.newRow? zero u)) := by
  cases hu with
  | @pair l r h =>
    obtain ⟨hl, hr⟩ := t.rows.fwd_lt h
    have hnil := @val_eq_nil_iff t assumeHeader l r h
    unfold unorderedRow
    rw [(rows_pair zero l r).1, (rows_pair zero l r).2, if_neg (Comparison.pairUnit_local l r),
      if_neg (Comparison.pairUnit_remote l r)]
    rw [Edit.exchange_pair]
    by_cases heq : t.locals.row l = t.remote.row r
    · rw [if_pos heq, if_neg (by rw [hnil.2 heq]; simp)]
      exact List.Forall₂.nil
    · rw [if_neg heq, if_pos (fun hz => heq (hnil.1 (List.length_eq_zero_iff.1 hz)))]
      refine List.Forall₂.cons (fun row hrow => ?_) List.Forall₂.nil
      refine ⟨agrees_eq rfl hl hrow, fun hag => ⟨?_, RowChange.patched_length _ hrow⟩⟩
      rw [show row = t.locals.row l from of_decide_eq_true ((agrees_eq rfl hl hrow).symm.trans hag)]
      exact patched_pair h
  | @added u r hl hr hlt =>
    unfold unorderedRow
    rw [(rows_added zero hl hr).1, (rows_added zero hl hr).2, if_pos hl]
    have hrow :
      RowChange.patched t.names (t.change assumeHeader u).val (List.replicate t.names.length zero) =
        t.filled zero r := patched_added hl hr hlt
    refine List.Forall₂.cons ⟨hrow, ?_⟩ List.Forall₂.nil
    exact RowChange.patched_length _ List.length_replicate
  | @delete l hl =>
    unfold unorderedRow
    rw [(rows_delete zero l).1, (rows_delete zero l).2, if_neg (Comparison.deleteUnit_local l),
      if_pos (show (deleteUnit l).remoteUnit = -1 from rfl),
      if_pos (show (deleteUnit l).pivotUnit ≠ -1 from Comparison.deleteUnit_local l)]
    exact List.Forall₂.cons (fun row hrow => agrees_eq rfl hl hrow) List.Forall₂.nil

theorem plain_reported {u : MatchUnit} (hu : t.IsUnit u) {x : RowChange}
    (hx : x ∈ unorderedRow u (t.change assumeHeader u)) :
    (t.reported assumeHeader x).Plain t.names ∧ x.mode ≠ .context := by
  have hmode : ∃ mode, x = { t.change assumeHeader u with mode := mode } ∧ mode ≠ .context := by
    unfold unorderedRow at hx
    split at hx
    · exact ⟨.insert, List.mem_singleton.mp hx, by decide⟩
    split at hx
    · split at hx
      · exact ⟨.delete, List.mem_singleton.mp hx, by decide⟩
      · cases hx
    · split at hx
      · exact ⟨.update, List.mem_singleton.mp hx, by decide⟩
      · cases hx
  obtain ⟨mode, rfl, hne⟩ := hmode
  have hconf : (t.change assumeHeader u).conflicted = false := by
    apply Bool.eq_false_iff.2
    intro hc
    obtain ⟨i, -, hi⟩ := (values u).2.1 hc
    cases hu with
    | pair h =>
      rw [mergedAt_pair] at hi
      split at hi <;> cases hi
    | added hl hr hlt =>
      rw [mergedAt_added hl hr] at hi
      split at hi <;> cases hi
    | delete hl =>
      rw [mergedAt_delete] at hi
      cases hi
  have hcond : (t.change assumeHeader u).cond.keys.Nodup ∧
    ∀ n ∈ (t.change assumeHeader u).cond.keys, n ∈ t.names := by
    cases hu with
    | @pair l r h => exact ⟨(conds rfl).nodup, (conds rfl).names⟩
    | added hl hr hlt =>
      have hnil : (t.change assumeHeader u).cond = [] := by
        show rowCond (t.context assumeHeader) u.localUnit 0 _ [] = []
        rw [hl]
        exact rowCond_insert _ _ 0
      rw [hnil]
      exact ⟨List.nodup_nil, fun n hn => by cases hn⟩
    | @delete l hl => exact ⟨(conds rfl).nodup, (conds rfl).names⟩
  exact ⟨⟨rfl, rfl, hconf, hcond.1, hcond.2, (values u).1.nodup⟩, hne⟩

/-! ## The replay -/

theorem isUnit_of_mem {u : MatchUnit} (hu : u ∈ t.units) : t.IsUnit u := by
  unfold units at hu
  split at hu
  · obtain ⟨r, hr, rfl⟩ := List.mem_map.mp hu
    exact IsUnit.added rfl rfl (List.mem_range.mp hr)
  · have hmem :=
      (OrderMerge.sweepFrom_perm (List.range t.locals.height) 0 (Nat.zero_le _)).mem_iff.mp hu
    rcases List.mem_append.mp hmem with h | h
    · obtain ⟨l, hl, rfl⟩ := List.mem_map.mp h
      have hl := List.mem_range.mp hl
      rw [OrderMerge.unitAt_identity t.rows hl]
      cases hf : t.rows.fwd l with
      | none => exact IsUnit.delete hl
      | some r => exact IsUnit.pair hf
    · obtain ⟨r, -, hr, hb, rfl⟩ := OrderMerge.mem_insertsIn.mp h
      exact IsUnit.added rfl rfl hr

/-- The replay of the reported changes is a run of exchanges. -/
theorem replay_eq (hu : "---" ∉ t.names) {changes : List RowChange}
    (h : changes = (t.units.flatMap fun u => unorderedRow u (t.change assumeHeader u)).map
      (t.reported assumeHeader)) :
    t.replay zero assumeHeader changes =
      some (Edit.run (t.units.flatMap fun u => Edit.exchange (t.oldRow? u) (t.newRow? zero u))
        (Zipper.atEnd t.locals.rows)).items := by
  have hwide : ∀ row ∈ t.locals.rows, t.Wide row :=
    fun row hrow => (t.locals.rect row hrow).trans t.local_width
  have hmem : ∀ x ∈ changes, ∃ y u, t.IsUnit u ∧ y ∈ unorderedRow u (t.change assumeHeader u) ∧
      x = t.reported assumeHeader y := by
    intro x hx
    rw [h] at hx
    obtain ⟨y, hy, rfl⟩ := List.mem_map.mp hx
    obtain ⟨u, hu, hy⟩ := List.mem_flatMap.mp hy
    exact ⟨y, u, isUnit_of_mem hu, hy, rfl⟩
  obtain ⟨p, hp, hfol, hzero⟩ := SheetPatcher.attach_follows t.names_nodup hu
    (show (⟨t.locals.rows, t.names.length, zero⟩ : TypedSheet SheetCell).w = t.names.length
      from rfl) hwide assumeHeader
  obtain ⟨p', hp', hfol'⟩ := hfol.changeRows changes
    (fun x hx => by
      obtain ⟨y, u, hu, hy, rfl⟩ := hmem x hx
      exact (plain_reported hu hy).1)
    (fun pre x post heq hmode => by
      obtain ⟨y, u, hu, hy, rfl⟩ := hmem x (by rw [heq]; simp)
      exact absurd hmode (plain_reported hu hy).2)
  have hedits : changes.map (RowChange.edit t.names zero) =
      t.units.flatMap fun u => (unorderedRow u (t.change assumeHeader u)).map
        (RowChange.edit t.names zero) := by
    rw [h, List.map_map, List.map_flatMap]
    rfl
  unfold replay
  rw [hp, Option.bind_some, hp', Option.map_some, hfol'.arr, hzero, hedits,
    Edit.run_alike (Comparison.forall₂_flatMap _ fun u hu => unit_alike (isUnit_of_mem hu))]
  rw [Zipper.items_atEnd]
  exact hwide

theorem run_perm (done : List (List SheetCell))
    (h : t.locals.rows.Perm (done ++ t.units.filterMap t.oldRow?)) :
    (Edit.run (t.units.flatMap fun u => Edit.exchange (t.oldRow? u) (t.newRow? zero u))
      (Zipper.atEnd t.locals.rows)).items.Perm (done ++ t.units.filterMap (t.newRow? zero)) := by
  have hrun := Edit.run_exchange_perm (t.units.map fun u => (t.oldRow? u, t.newRow? zero u))
    (Zipper.atEnd t.locals.rows) done (by rwa [Zipper.items_atEnd, List.filterMap_map])
  rw [List.filterMap_map, List.flatMap_map] at hrun
  exact hrun

/-- With columns every local row is the old row of one unit. -/
theorem oldRows_perm (hn : t.names ≠ []) : (t.units.filterMap t.oldRow?).Perm t.locals.rows := by
  have hins : (OrderMerge.insertsIn t.rows 0 t.remote.height).filterMap t.oldRow? = [] := by
    rw [List.filterMap_eq_nil_iff]
    intro u hu
    obtain ⟨r, -, -, -, rfl⟩ := OrderMerge.mem_insertsIn.mp hu
    rfl
  have hold :
    ((List.range t.locals.height).map
      (OrderMerge.unitAt (Matching.identity t.locals.height) t.rows)).filterMap
      t.oldRow? = t.locals.rows := by
    rw [List.filterMap_map, ← Comparison.rows_eq_map t.locals, ← List.filterMap_eq_map]
    refine List.filterMap_congr fun l hl => ?_
    show t.oldRow? (OrderMerge.unitAt (Matching.identity t.locals.height) t.rows l) =
      some (t.locals.row l)
    rw [OrderMerge.unitAt_identity t.rows (List.mem_range.mp hl)]
    cases t.rows.fwd l with
    | none => exact (rows_delete SheetCell.null l).1
    | some r => exact (rows_pair SheetCell.null l r).1
  unfold units
  rw [if_neg hn]
  calc List.Perm _ _ :=
        (OrderMerge.sweepFrom_perm (List.range t.locals.height) 0 (Nat.zero_le _)).filterMap
        t.oldRow?
    _ = t.locals.rows := by rw [List.filterMap_append, hins, List.append_nil, hold]

/-- The rows that the units leave: the matched remote rows, and the added ones as they are filled
in. -/
theorem mem_newRows (hn : t.names ≠ []) {row : List SheetCell} :
    row ∈ t.units.filterMap (t.newRow? zero) ↔
    (∃ l r, t.rows.fwd l = some r ∧ row = t.remote.row r) ∨
      ∃ r < t.remote.height, t.rows.bwd r = none ∧ row = t.filled zero r := by
  have hmem : ∀ u, u ∈ t.units ↔ u ∈ (List.range t.locals.height).map
      (OrderMerge.unitAt (Matching.identity t.locals.height) t.rows) ++
        OrderMerge.insertsIn t.rows 0 t.remote.height := by
    intro u
    unfold units
    rw [if_neg hn]
    exact (OrderMerge.sweepFrom_perm (List.range t.locals.height) 0 (Nat.zero_le _)).mem_iff
  rw [List.mem_filterMap]
  constructor
  · rintro ⟨u, hu, hrow⟩
    rcases List.mem_append.mp ((hmem u).1 hu) with h | h
    · obtain ⟨l, hl, rfl⟩ := List.mem_map.mp h
      rw [OrderMerge.unitAt_identity t.rows (List.mem_range.mp hl)] at hrow
      cases hf : t.rows.fwd l with
      | none =>
        rw [hf] at hrow
        have hnone : t.newRow? zero (deleteUnit l) = some row := hrow
        rw [(rows_delete zero l).2] at hnone
        cases hnone
      | some r =>
        rw [hf] at hrow
        have hsome : t.newRow? zero (pairUnit l r) = some row := hrow
        rw [(rows_pair zero l r).2] at hsome
        exact Or.inl ⟨l, r, hf, (Option.some.inj hsome).symm⟩
    · obtain ⟨r, -, hr, hb, rfl⟩ := OrderMerge.mem_insertsIn.mp h
      rw [(rows_added zero rfl rfl).2] at hrow
      exact Or.inr ⟨r, hr, hb, (Option.some.inj hrow).symm⟩
  · rintro (⟨l, r, hf, rfl⟩ | ⟨r, hr, hb, rfl⟩)
    · refine ⟨pairUnit l r, (hmem _).2 (List.mem_append_left _ ?_), (rows_pair zero l r).2⟩
      refine List.mem_map.2 ⟨l, List.mem_range.2 (t.rows.fwd_lt hf).1, ?_⟩
      rw [OrderMerge.unitAt_identity t.rows (t.rows.fwd_lt hf).1, hf]
      rfl
    · refine ⟨OrderMerge.insertUnit r, (hmem _).2 (List.mem_append_right _ ?_),
        (rows_added zero rfl rfl).2⟩
      exact OrderMerge.mem_insertsIn.2 ⟨r, Nat.zero_le r, hr, hb, rfl⟩

/-! ## Which NULLs survive -/

theorem filled_eq (h : zero = SheetCell.null ∨ t.NoneAdded) {r : Nat} (hr : r < t.remote.height)
    (hb : t.rows.bwd r = none) : t.filled zero r = t.remote.row r := by
  unfold filled
  conv_rhs => rw [← List.map_id (t.remote.row r)]
  refine List.map_congr_left fun c hc => ?_
  rcases h with rfl | h
  · by_cases he : c.escaped = true
    · have htext : c.text = "NULL" := by
        refine t.remote.stored (t.remote.row r) ?_ c hc he
        rw [t.remote.row_eq_getElem hr]
        exact List.getElem_mem hr
      rw [if_pos he]
      obtain ⟨text, escaped⟩ := c
      subst htext he
      rfl
    · rw [if_neg he]
      rfl
  · rw [h r hr ((t.rows.b2a_eq_neg_one_iff r).2 hb) c hc]
    rfl

/-- A row that is filled in has no NULL, unless a fresh cell is one. -/
theorem filled_ne_null (hz : zero ≠ SheetCell.null) (r : Nat) :
    SheetCell.null ∉ t.filled zero r := by
  unfold filled
  rw [List.mem_map]
  rintro ⟨c, -, hc⟩
  split at hc
  · exact hz hc
  · next he =>
    rw [hc] at he
    exact he rfl

theorem mem_remote {row : List SheetCell} :
    row ∈ t.remote.rows ↔ ∃ r < t.remote.height, row = t.remote.row r := by
  rw [List.mem_iff_getElem]
  constructor
  · rintro ⟨r, hr, rfl⟩
    exact ⟨r, hr, (t.remote.row_eq_getElem hr).symm⟩
  · rintro ⟨r, hr, rfl⟩
    exact ⟨r, hr, (t.remote.row_eq_getElem hr).symm⟩

theorem remote_inj {r r' : Nat} (hr : r < t.remote.height) (hr' : r' < t.remote.height)
    (h : t.remote.row r = t.remote.row r') : r = r' := by
  rw [t.remote.row_eq_getElem hr, t.remote.row_eq_getElem hr'] at h
  exact t.remote_nodup.getElem_inj_iff.1 h

/-- Without columns all rows are alike, and none has a NULL. -/
theorem survive_of_no_columns (hn : t.names = []) :
    t.NoneAdded ∧ ∀ row ∈ t.remote.rows, row ∈ t.units.filterMap (t.newRow? zero) := by
  have hlen : ∀ r < t.remote.height, t.remote.row r = [] := by
    intro r hr
    apply List.eq_nil_of_length_eq_zero
    rw [remote_length hr, hn]
    rfl
  refine ⟨fun r hr _ c hc => ?_, fun row hrow => ?_⟩
  · rw [hlen r hr] at hc
    cases hc
  · obtain ⟨r, hr, rfl⟩ := mem_remote.1 hrow
    refine List.mem_filterMap.2 ⟨⟨-1, -1, r, false, .none⟩, ?_, ?_⟩
    · unfold units
      rw [if_pos hn]
      exact List.mem_map.2 ⟨r, List.mem_range.2 hr, rfl⟩
    · rw [(rows_added zero rfl rfl).2]
      unfold filled
      rw [hlen r hr]
      rfl

end

/-- **NULLs through a diff and a patch.**  The rows of the remote all arrive as they were exactly
when fresh cells of the sheet are NULL, or no row without a local partner has a NULL. -/
theorem nullsSurvive_iff (t : Tables) (hu : "---" ∉ t.names) (zero : SheetCell)
    (assumeHeader : Bool) :
    t.NullsSurvive zero assumeHeader ↔ zero = SheetCell.null ∨ t.NoneAdded := by
  obtain ⟨r, hr, hchanges⟩ := @merge_changes t assumeHeader
  have hreplay := @replay_eq t assumeHeader zero hu _ hchanges
  have hsurvive : t.NullsSurvive zero assumeHeader ↔ ∀ row ∈ t.remote.rows,
      row ∈ (Edit.run (t.units.flatMap fun u => Edit.exchange (t.oldRow? u) (t.newRow? zero u))
        (Zipper.atEnd t.locals.rows)).items := by
    constructor
    · rintro ⟨r', rows, hr', hrows, hall⟩
      rw [hr, Except.ok.injEq] at hr'
      subst hr'
      rw [hreplay, Option.some.injEq] at hrows
      rw [hrows]
      exact hall
    · exact fun hall => ⟨r, _, hr, hreplay, hall⟩
  rw [hsurvive]
  by_cases hn : t.names = []
  · obtain ⟨hnone, hall⟩ := @survive_of_no_columns t zero hn
    have hold : t.units.filterMap t.oldRow? = [] := by
      unfold units
      rw [if_pos hn, List.filterMap_eq_nil_iff]
      intro u hu
      obtain ⟨r, -, rfl⟩ := List.mem_map.mp hu
      rfl
    have hperm := @run_perm t zero t.locals.rows (by rw [hold, List.append_nil])
    refine iff_of_true (fun row hrow => hperm.mem_iff.2 ?_) (Or.inr hnone)
    exact List.mem_append_right _ (hall row hrow)
  · have hperm := @run_perm t zero [] (oldRows_perm hn).symm
    constructor
    · intro hall
      by_cases hz : zero = SheetCell.null
      · exact Or.inl hz
      refine Or.inr fun r hr hb c hc => Bool.eq_false_iff.2 fun he => ?_
      have hmem : t.remote.row r ∈ t.remote.rows := mem_remote.2 ⟨r, hr, rfl⟩
      -- the NULL would have to come from a matched row, which is another one, or from a row that
      -- was filled in
      have hnull : SheetCell.null ∈ t.remote.row r := by
        have htext := t.remote.stored _ hmem c hc he
        obtain ⟨text, escaped⟩ := c
        subst htext he
        exact hc
      rcases (mem_newRows hn).1 (hperm.mem_iff.1 (hall _ hmem)) with ⟨l, r', hf, heq⟩
        | ⟨r', -, -, heq⟩
      · obtain rfl := remote_inj hr (t.rows.fwd_lt hf).2 heq
        rw [(t.rows.b2a_eq_iff r l).2 ((t.rows.fwd_eq_some_iff l r).1 hf)] at hb
        omega
      · rw [heq] at hnull
        exact filled_ne_null hz r' hnull
    · intro h row hrow
      obtain ⟨r, hr, rfl⟩ := mem_remote.1 hrow
      refine hperm.mem_iff.2 ((mem_newRows hn).2 ?_)
      cases hb : t.rows.bwd r with
      | none => exact Or.inr ⟨r, hr, hb, (filled_eq h hr hb).symm⟩
      | some l => exact Or.inl ⟨l, r, (t.rows.fwd_eq_some_iff l r).2 hb, rfl⟩

/-! ## A row with a NULL -/

theorem rect_noRow : ∀ r ∈ ([] : List (List SheetCell)), r.length = 1 := List.forall_mem_nil _

theorem stored_noRow : ∀ r ∈ ([] : List (List SheetCell)), ∀ c ∈ r, c.Stored :=
  List.forall_mem_nil _

theorem rect_nullRow : ∀ r ∈ [[SheetCell.null]], r.length = 1 := by decide

/-- Local has no rows, the remote one row with a NULL. -/
def nullAdded : Tables where
  locals := ⟨1, [], rect_noRow, stored_noRow⟩
  remote := ⟨1, [[SheetCell.null]], rect_nullRow, by decide⟩
  names := ["a"]
  rows := ⟨⟨[], [-1]⟩, rfl, rfl, by decide, by decide, by decide⟩
  names_nodup := by decide
  local_width := rfl
  remote_width := rfl
  remote_nodup := by decide

theorem nullsSurvive_iff_nullAdded :
    "---" ∉ nullAdded.names ∧
      (nullAdded.NullsSurvive SheetCell.null false ↔ SheetCell.null = SheetCell.null ∨
        nullAdded.NoneAdded) :=
  ⟨by decide, nullAdded.nullsSurvive_iff (by decide) SheetCell.null false⟩

/-- In a `CsvSheet` the row arrives with an empty text. -/
theorem null_lost_nullAdded : ¬ nullAdded.NullsSurvive ⟨"", false⟩ false := by
  rintro ⟨r, rows, hr, hrows, hall⟩
  obtain ⟨r', hr', hchanges⟩ := @merge_changes nullAdded false
  obtain rfl : r' = r := Except.ok.inj (hr'.symm.trans hr)
  have hreplay : nullAdded.replay ⟨"", false⟩ false r'.rowChanges = some [[⟨"", false⟩]] := by
    rw [hchanges]
    decide +kernel
  obtain rfl : rows = [[⟨"", false⟩]] := Option.some.inj (hrows.symm.trans hreplay)
  exact absurd (hall [SheetCell.null] (by decide)) (by decide)

end Tables

end Coopy
