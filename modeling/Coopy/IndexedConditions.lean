import Coopy.UnorderedScript

/-!
# Conditions on the index columns only

The tdiff writer keeps of the conditions of a row those on index columns and on columns
that get a new value.  The index columns tell the rows of local apart, but the search is
made in a sheet that is partly patched, where a remote row can stand in front of the
local row that is meant and look the same on those columns.  Replay with the shorter
conditions gives the same sheet exactly when this does not happen (`cut_same_iff`).
-/

namespace Coopy

open Lib Merger

/-! ## The index tells the rows apart -/

namespace IndexSniffer

theorem length_cases (sheet : DataSheet) :
    (sofar sheet (length sheet)).Nodup ∨ length sheet = sheet.width := by
  unfold length
  cases hf : (List.range sheet.width).find? fun i => decide ((sofar sheet (i + 1)).Nodup) with
  | none =>
    right
    show (if sheet.width = 0 then sheet.width else sheet.width) = sheet.width
    exact ite_self _
  | some i =>
    left
    show (sofar sheet (if i + 1 = 0 then sheet.width else i + 1)).Nodup
    rw [if_neg (by omega)]
    have := List.find?_some hf
    exact of_decide_eq_true this

theorem length_pos {sheet : DataSheet} (h : 0 < sheet.width) : 0 < length sheet := by
  unfold length
  simp only
  split <;> omega

/-- Different rows differ in an index column. -/
theorem exists_ne {sheet : DataSheet} (hn : sheet.rows.Nodup) {l j : Nat} (hl : l < sheet.height)
    (hj : j < sheet.height) (hne : l ≠ j) : ∃ i < sheet.width, i < length sheet ∧
    (sheet.row l)[i]? ≠ (sheet.row j)[i]? := by
  by_contra hall
  push Not at hall
  have htake : (sheet.row l).take (length sheet) = (sheet.row j).take (length sheet) := by
    refine List.ext_getElem? fun i => ?_
    rw [List.getElem?_take, List.getElem?_take]
    by_cases hi : i < length sheet
    · rw [if_pos hi, if_pos hi]
      by_cases hw : i < sheet.width
      · exact hall i hw hi
      · rw [List.getElem?_eq_none (by rw [sheet.row_length hl]; omega),
          List.getElem?_eq_none (by rw [sheet.row_length hj]; omega)]
    · rw [if_neg hi, if_neg hi]
  rcases length_cases sheet with hnodup | hfull
  · have hkey : ∀ k (hk : k < sheet.height), (sofar sheet (length sheet))[k]? =
        some (((sheet.row k).take (length sheet)).foldl (fun acc c => acc ++ keyText c) "") := by
      intro k hk
      unfold sofar
      rw [List.getElem?_map, List.getElem?_eq_getElem hk, sheet.row_eq_getElem hk]
      rfl
    have hlen : (sofar sheet (length sheet)).length = sheet.height := by
      unfold sofar
      exact List.length_map _
    have heq := (hkey l hl).trans ((congrArg some (by rw [htake])).trans (hkey j hj).symm)
    rw [List.getElem?_eq_getElem (by omega), List.getElem?_eq_getElem (by omega)] at heq
    exact hne (hnodup.getElem_inj_iff.mp (Option.some.inj heq))
  · rw [hfull, List.take_of_length_le (by rw [sheet.row_length hl]),
      List.take_of_length_le (by rw [sheet.row_length hj]),
      sheet.row_eq_getElem hl, sheet.row_eq_getElem hj] at htake
    exact hne (hn.getElem_inj_iff.mp htake)

end IndexSniffer

/-! ## The shorter conditions -/

/-- The change with the conditions that the tdiff writer keeps. -/
def RowChange.cutCond (change : RowChange) : RowChange :=
  { change with
    cond := change.cond.filter fun e => decide (change.indexes.get? e.1 = some true) ||
      change.val.contains e.1 }

namespace Comparison

variable (c : Comparison)

/-- The column gets a new value in the local row `l`. -/
def assigned (l i : Nat) : Bool :=
  match c.rows.fwd l with
  | some r => decide ((c.locals.row l)[i]? ≠ (c.remote.row r)[i]?)
  | none => false

/-- A condition on the column is kept. -/
def kept (l i : Nat) : Bool := decide (i < IndexSniffer.length c.locals) || c.assigned l i

/-- The row has the same cells as the local row `l` in the columns of the kept conditions. -/
def looksLike (l : Nat) (row : List SheetCell) : Bool :=
  (List.range c.names.length).all fun i => !c.kept l i || decide (row[i]? = (c.locals.row l)[i]?)

section
variable {c} {useOrder assumeHeader : Bool}

theorem looksLike_iff {l : Nat} {row : List SheetCell} :
    c.looksLike l row = true ↔ ∀ i < c.names.length, c.kept l i = true →
    row[i]? = (c.locals.row l)[i]? := by
  unfold looksLike
  simp only [List.all_eq_true, List.mem_range, Bool.or_eq_true, Bool.not_eq_true',
    decide_eq_true_eq]
  exact forall₂_congr fun i _ => by cases c.kept l i <;> simp

theorem looksLike_self (l : Nat) : c.looksLike l (c.locals.row l) = true :=
  looksLike_iff.mpr fun _ _ _ => rfl

theorem looksLike_other {l j : Nat} (hl : l < c.locals.height) (hj : j < c.locals.height)
    (hne : j ≠ l) : c.looksLike l (c.locals.row j) = false := by
  obtain ⟨i, hi, hidx, hcell⟩ := IndexSniffer.exists_ne c.local_nodup hj hl hne
  by_contra h
  refine hcell (looksLike_iff.mp (by simpa using h) i (by rw [← c.local_width]; exact hi) ?_)
  unfold kept
  rw [decide_eq_true hidx, Bool.true_or]

theorem indexMap_plain {flags : CompareFlags} (hin : flags.includeColumns = [])
    (hex : flags.excludeColumns = [])
    (names : List String) (isIndex : List Bool) : indexMap flags names isIndex =
      if (names.zip isIndex).any Prod.snd then (names.zip isIndex).foldl
      (fun m e => AssocMap.set m e.1 e.2) [] else [] := by
  have hmap : ((names.zip isIndex).map fun e => (e.1, if e.1 ∈ flags.excludeColumns then false
      else if e.1 ∈ flags.includeColumns then true else e.2)) = names.zip isIndex := by
    rw [hin, hex]
    simp
  unfold indexMap
  simp only [hmap]

theorem indexes_get {i : Nat} (hi : i < c.names.length) :
    (c.indexes useOrder assumeHeader).get? c.names[i] =
    some (decide (i < IndexSniffer.length c.locals)) := by
  have hflags : IndexSniffer.sniff c.locals (c.state useOrder assumeHeader).flags ⟨c.names, []⟩ =
      (List.range c.names.length).map fun i => decide (i < IndexSniffer.length c.locals) := by
    unfold IndexSniffer.sniff
    rw [if_neg (fun h => absurd h.2 (by simp)), c.local_width]
  have hkeys : AssocMap.keys (c.names.zip ((List.range c.names.length).map fun i =>
      decide (i < IndexSniffer.length c.locals))) = c.names := List.map_fst_zip (by simp)
  have hentry :
    ∀ (k : Nat) (hk : k < c.names.length), (c.names[k], decide (k < IndexSniffer.length c.locals)) ∈
      c.names.zip ((List.range c.names.length).map fun i =>
        decide (i < IndexSniffer.length c.locals)) := by
    intro k hk
    refine List.mem_iff_getElem.mpr ⟨k, by simpa using hk, ?_⟩
    rw [List.getElem_zip, List.getElem_map, List.getElem_range]
  unfold indexes
  rw [hflags, indexMap_plain rfl rfl, if_pos,
    AssocMap.foldl_set _ [] (by rw [hkeys]; exact c.names_nodup)
    fun k _ h => by cases h]
  · rw [List.nil_append]
    exact AssocMap.get?_of_mem (by rw [hkeys]; exact c.names_nodup) (hentry i hi)
  · refine List.any_eq_true.mpr ⟨_, hentry 0 c.names_length_pos, ?_⟩
    exact decide_eq_true (IndexSniffer.length_pos (by rw [c.local_width]; exact c.names_length_pos))

theorem getD_null_eq {row : List SheetCell} {i : Nat} (hi : i < row.length) :
    row[i]? = some (row.getD i SheetCell.null) := by
  rw [List.getElem?_eq_getElem hi, List.getD_eq_getElem _ _ hi]

theorem kept_pair {l r i : Nat} (h : c.rows.fwd l = some r) (hi : i < c.names.length) :
    (decide ((c.indexes useOrder assumeHeader).get? c.names[i] = some true) ||
      (c.change useOrder assumeHeader (pairUnit l r)).val.contains c.names[i]) = c.kept l i := by
  have hl := local_length (fwd_lt h).1
  have hr := remote_length (fwd_lt h).2
  have hassigned : (c.change useOrder assumeHeader (pairUnit l r)).val.contains c.names[i] =
    c.assigned l i := by
    unfold AssocMap.contains assigned
    rw [(val_pair l r).1.get i hi, h]
    simp only
    rw [getD_null_eq (show i < (c.locals.row l).length by omega),
      getD_null_eq (show i < (c.remote.row r).length by omega)]
    by_cases he : (c.locals.row l).getD i SheetCell.null = (c.remote.row r).getD i SheetCell.null
    · rw [if_pos he, he]
      simp
    · rw [if_neg he]
      refine (decide_eq_true ?_).symm
      exact fun h => he (Option.some.inj h)
  unfold kept
  rw [indexes_get hi, hassigned]
  simp

theorem kept_delete {l i : Nat} (h : c.rows.fwd l = none) (hi : i < c.names.length) :
    (decide ((c.indexes useOrder assumeHeader).get? c.names[i] = some true) ||
      (c.change useOrder assumeHeader (deleteUnit l)).val.contains c.names[i]) = c.kept l i := by
  unfold kept assigned
  rw [indexes_get hi, (val_delete l).1, h]
  simp [AssocMap.contains]

/-- The kept conditions are met by the rows that look like the local row. -/
theorem agrees_cut {u : MatchUnit} {l : Nat} {mode : RowChangeMode} (hu : u.localUnit = l)
    (hl : l < c.locals.height) (hkept : ∀ i (hi : i < c.names.length),
      (decide ((c.indexes useOrder assumeHeader).get? c.names[i] = some true) ||
      (c.change useOrder assumeHeader u).val.contains c.names[i]) = c.kept l i)
      {row : List SheetCell} (hrow : c.Wide row) :
    RowChange.agrees c.names (c.reported useOrder assumeHeader mode u).cutCond.cond row =
    c.looksLike l row := by
  have hcond : Entered c _ (c.change useOrder assumeHeader u).cond := cond_local hu
  have hget :
    ∀ i (hi : i < c.names.length), (c.reported useOrder assumeHeader mode u).cutCond.cond.get?
    c.names[i] =
      if c.kept l i then (c.locals.row l)[i]? else none := by
    intro i hi
    rw [getD_null_eq (by rw [local_length hl]; exact hi), ← hcond.get i hi, ← hkept i hi]
    exact AssocMap.get?_filter _
      (fun n => decide ((c.indexes useOrder assumeHeader).get? n = some true) ||
      (c.change useOrder assumeHeader u).val.contains n) _
  rw [Bool.eq_iff_iff, RowChange.agrees_iff hrow, looksLike_iff]
  refine forall₂_congr fun i hi => ?_
  rw [hget i hi, getD_null_eq (show i < (c.locals.row l).length by rw [local_length hl]; exact hi)]
  cases c.kept l i with
  | true => simp [eq_comm]
  | false => simp

end

/-- What the changes of a unit do to rows of the right width, with the kept conditions. -/
def cutEdits (assumeHeader : Bool) (u : MatchUnit) : List (Edit (List SheetCell)) :=
  match c.oldRow? u, c.newRow? u with
  | none, none => []
  | none, some new => [.insert new]
  | some _, none => [.delete (c.looksLike u.localUnit.toNat)]
  | some old, some new => if old = new then [] else
    [.update (c.looksLike u.localUnit.toNat)
      (RowChange.patched c.names (c.change false assumeHeader u).val)]

section
variable {c} {assumeHeader : Bool} {zero : SheetCell}

theorem cutEdits_pair (l r : Nat) : c.cutEdits assumeHeader (pairUnit l r) =
    if c.locals.row l = c.remote.row r then [] else
      [.update (c.looksLike l)
        (RowChange.patched c.names (c.change false assumeHeader (pairUnit l r)).val)] := by
  simp only [cutEdits, (rows_pair l r).1, (rows_pair l r).2]
  rfl

theorem cutEdits_insert (r : Nat) :
    c.cutEdits assumeHeader (OrderMerge.insertUnit r) = [.insert (c.remote.row r)] := by
  simp only [cutEdits, (rows_insert r).1, (rows_insert r).2]

theorem cutEdits_delete (l : Nat) :
    c.cutEdits assumeHeader (deleteUnit l) = [.delete (c.looksLike l)] := by
  simp only [cutEdits, (rows_delete l).1, (rows_delete l).2]
  rfl

theorem cutChanges_alike {u : MatchUnit} (hu : c.IsUnit u) :
    List.Forall₂ (Edit.Alike c.Wide)
      (((c.unitChanges assumeHeader u).map RowChange.cutCond).map (RowChange.edit c.names zero))
      (c.cutEdits assumeHeader u) := by
  cases hu with
  | @pair l r h =>
    rw [unitChanges_pair h, cutEdits_pair]
    split
    · exact List.Forall₂.nil
    · refine List.Forall₂.cons
        (fun row hrow => ⟨?_, fun _ => ⟨rfl, RowChange.patched_length _ hrow⟩⟩) List.Forall₂.nil
      exact agrees_cut rfl (fwd_lt h).1 (fun i hi => kept_pair h hi) hrow
  | @insert r hr h =>
    rw [unitChanges_insert, cutEdits_insert]
    exact List.Forall₂.cons (alike_insert hr) List.Forall₂.nil
  | @delete l hl h =>
    rw [unitChanges_delete, cutEdits_delete]
    exact List.Forall₂.cons (fun row hrow => agrees_cut rfl hl (fun i hi => kept_delete h hi) hrow)
      List.Forall₂.nil

end

/-- The replay with the kept conditions is a run of edits too. -/
theorem replay_cut (zero : SheetCell) (assumeHeader : Bool) :
    c.replay zero assumeHeader
      (((c.units false).flatMap (c.unitChanges assumeHeader)).map RowChange.cutCond) =
      some (Edit.run ((c.units false).flatMap (c.cutEdits assumeHeader))
        (Zipper.atEnd c.locals.rows)).items := by
  have hchange :
    ∀ change ∈ ((c.units false).flatMap (c.unitChanges assumeHeader)).map RowChange.cutCond,
      change.Plain c.names ∧ change.mode ≠ .context := by
    intro change hchange
    obtain ⟨x, hx, rfl⟩ := List.mem_map.mp hchange
    obtain ⟨u, hu, hx⟩ := List.mem_flatMap.mp hx
    refine ⟨?_, (mode_unitChanges hx).1⟩
    obtain ⟨mode, rfl, -⟩ := mem_unitChanges hx
    have hp : (c.reported false assumeHeader mode u).Plain c.names :=
      reported_plain (c.isUnit_of_mem hu) mode
    have hsub : List.Sublist (AssocMap.keys (c.reported false assumeHeader mode u).cutCond.cond)
        (AssocMap.keys (c.reported false assumeHeader mode u).cond) := List.filter_sublist.map _
    exact ⟨hp.all_names, hp.sequential, hp.unconflicted, hp.cond_nodup.sublist hsub,
      fun n hn => hp.cond_names n (hsub.subset hn), hp.val_nodup⟩
  rw [replay_eq fun change h => (hchange change h).1]
  · rw [List.map_flatMap, List.map_flatMap,
      Edit.run_alike (forall₂_flatMap _ fun u hu => cutChanges_alike (c.isUnit_of_mem hu))]
    rw [Zipper.items_atEnd]
    exact local_wide
  · intro pre change post heq hmode
    exact absurd hmode (hchange change (by rw [heq]; simp)).2

end Comparison

end Coopy
