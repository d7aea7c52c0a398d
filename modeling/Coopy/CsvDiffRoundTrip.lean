import Coopy.CsvDiffRows

/-!
# Table diffs read back

A row of a merge goes through the sheet of `MergeOutputCsvDiff` and comes back from
`PatchParser::applyCsv`.  A line has one field for each column in use, empty if there
is nothing to show, and an inserted or deleted row has all columns in use: where such
a row has no value (as for the NULL cells of an inserted row) or no condition (as for
an excluded column), an empty one comes back.  The names of a header end with the
first empty one.  `Carried` is what a row has to be like to come back as it was.

    ComesBack flags p ↔ ∀ r ∈ p.rows, allows flags r.mode = true ∧ Carried p.names r
                                                                                 (rows_comeBack_iff)
-/

namespace Coopy

open Lib Lib.Transducer MergeOutputCsvDiff
open CsvPatch (known known_begins step)

namespace CsvDiff

/-! ## One row -/

/-- A row is back as it was reported: with its mode and values, no condition on a column that had
none, and the conditions on the columns that are indexed or assigned. -/
structure RoundTrips (r r' : RowChange) : Prop where
  mode : r'.mode = r.mode
  val : ∀ n, r'.val.get? n = r.val.get? n
  absent : ∀ n, r.cond.get? n = none → r'.cond.get? n = none
  cond : ∀ n, r.indexes.holds n = true ∨ r.val.contains n = true → r'.cond.get? n = r.cond.get? n

/-- An inserted row has values for all columns (up to one without a name), a deleted one has
conditions on them, and no other row uses a column without a name. -/
def Carried (names : List String) (r : RowChange) : Prop :=
  match r.mode with
  | .insert => ∀ n, r.val.contains n = true ↔ n ∈ known names
  | .delete => (∀ n ∈ known names, r.cond.contains n = true) ∧
      ∀ n, r.cond.contains n = true ∧ r.indexes.holds n = true → n ∈ known names
  | .context => r.val = [] ∧ matched r "" = false
  | _ => r.val.contains "" = false ∧ matched r "" = false

/-- All names of a list are read, unless one is empty. -/
theorem subset_known_iff {used : List String} : (∀ n ∈ used, n ∈ known used) ↔ "" ∉ used := by
  constructor
  · intro h hmem
    have := List.mem_takeWhile_imp (h "" hmem)
    exact absurd this (by decide)
  · intro h n hn
    have hself : known used = used := List.takeWhile_eq_self_iff.2 fun m hm =>
      decide_eq_true fun he => h (he ▸ hm)
    exact hself.symm ▸ hn

theorem get?_of_not_contains {m : AssocMap String SheetCell} {n : String}
    (h : ¬ m.contains n = true) : m.get? n = none := by
  unfold AssocMap.contains at h
  rwa [Option.isSome_iff_ne_none, not_not] at h

section
variable {names : List String} {r r' : RowChange}

theorem mem_names_of_cond (he : Emitted names r) {n : String} (h : r.cond.contains n = true) :
    n ∈ names := by
  refine he.cond n (Classical.byContradiction fun hn => ?_)
  unfold AssocMap.contains at h
  rw [AssocMap.get?_eq_none_iff.2 hn] at h
  cases h

theorem mem_names_of_val (he : Emitted names r) {n : String} (h : r.val.contains n = true) :
    n ∈ names := by
  refine he.val n (Classical.byContradiction fun hn => ?_)
  unfold AssocMap.contains at h
  rw [AssocMap.get?_eq_none_iff.2 hn] at h
  cases h

theorem mem_rowColumns (he : Emitted names r) {n : String} :
    n ∈ rowColumns names r ↔ matched r n = true ∨ r.val.contains n = true := by
  unfold rowColumns
  rw [List.mem_filter, Bool.or_eq_true]
  refine and_iff_right_of_imp fun h => ?_
  rcases h with h | h
  · obtain ⟨c, hc⟩ := cond_of_matched h
    exact mem_names_of_cond he (by unfold AssocMap.contains; rw [hc]; rfl)
  · exact mem_names_of_val he h

theorem matched_iff {n : String} :
    matched r n = true ↔ r.cond.contains n = true ∧
    (r.indexes.holds n = true ∨ r.val.contains n = true) := by
  unfold matched
  generalize r.cond.contains n = c
  generalize r.indexes.holds n = i
  generalize r.val.contains n = v
  revert c i v
  decide

theorem roundTrips_insert (he : Emitted names r) (hd : Decoded names r r')
    (hmode : r.mode = .insert) :
    RoundTrips r r' ↔ ∀ n, r.val.contains n = true ↔ n ∈ known names := by
  have hval : ∀ n, r'.val.get? n = if n ∈ known names then some ((r.val.get? n).getD ⟨"", false⟩)
    else none := fun n => by
    rw [hd.val]; unfold readVal; rw [hmode]
  have hcond : ∀ n, r'.cond.get? n = r.cond.get? n := fun n => by
    rw [hd.cond, he.inserted hmode]; unfold readCond; rw [hmode]; rfl
  constructor
  · intro h n
    unfold AssocMap.contains
    rw [← h.val n, hval]
    split
    · next hn => exact iff_of_true rfl hn
    · next hn => exact iff_of_false (by decide) hn
  · refine fun h => ⟨hd.mode, fun n => ?_, fun n hn => (hcond n).trans hn, fun n _ => hcond n⟩
    rw [hval]
    split
    · next hn =>
      obtain ⟨c, hc⟩ := Option.isSome_iff_exists.1 ((h n).2 hn)
      rw [hc]
      rfl
    · next hn => exact (get?_of_not_contains fun hc => hn ((h n).1 hc)).symm

theorem roundTrips_delete (he : Emitted names r) (hd : Decoded names r r')
    (hmode : r.mode = .delete) : RoundTrips r r' ↔ (∀ n ∈ known names, r.cond.contains n = true) ∧
      ∀ n, r.cond.contains n = true ∧ r.indexes.holds n = true → n ∈ known names := by
  have hcond : ∀ n, r'.cond.get? n = if n ∈ known names then some ((r.cond.get? n).getD ⟨"", false⟩)
    else none := fun n => by
    rw [hd.cond]; unfold readCond; rw [hmode]
  have hval : ∀ n, r'.val.get? n = r.val.get? n := fun n => by
    rw [hd.val, he.deleted hmode]; unfold readVal; rw [hmode]; rfl
  constructor
  · refine fun h => ⟨fun n hn => Classical.byContradiction fun hc => ?_,
      fun n hn => Classical.byContradiction fun hk => ?_⟩
    · have := h.absent n (get?_of_not_contains hc)
      rw [hcond, if_pos hn] at this
      cases this
    · have hsome := hn.1
      unfold AssocMap.contains at hsome
      rw [← h.cond n (Or.inl hn.2), hcond, if_neg hk] at hsome
      cases hsome
  · intro h
    refine ⟨hd.mode, hval, fun n hn => ?_, fun n hn => ?_⟩
    · rw [hcond, if_neg]
      intro hk
      have := h.1 n hk
      unfold AssocMap.contains at this
      rw [hn] at this
      cases this
    · rw [hcond]
      split
      · next hk =>
        obtain ⟨c, hc⟩ := Option.isSome_iff_exists.1 (h.1 n hk)
        rw [hc]
        rfl
      · next hk =>
        refine (get?_of_not_contains fun hc => hk (h.2 n ⟨hc, hn.resolve_right fun hv => ?_⟩)).symm
        rw [he.deleted hmode] at hv
        cases hv

section
variable (hi : r.mode ≠ .insert) (hdel : r.mode ≠ .delete)
include hi hdel

theorem readCond_eq (n : String) :
    readCond names r n = if n ∈ known (rowColumns names r) ∧ matched r n = true then r.cond.get? n
    else none := by
  unfold readCond
  cases hmode : r.mode <;> first | rfl | exact absurd hmode hi | exact absurd hmode hdel

/-- No condition comes from nowhere. -/
theorem absent_kept (hd : Decoded names r r') (n : String) (hn : r.cond.get? n = none) :
    r'.cond.get? n = none := by
  rw [hd.cond, readCond_eq hi hdel, hn, ite_self]

/-- The conditions come back on the columns whose names do. -/
theorem cond_kept_iff (hd : Decoded names r r') :
    (∀ n, r.indexes.holds n = true ∨ r.val.contains n = true → r'.cond.get? n = r.cond.get? n) ↔
      ∀ n, matched r n = true → n ∈ known (rowColumns names r) := by
  constructor
  · intro h n hn
    obtain ⟨hc, huse⟩ := matched_iff.1 hn
    refine Classical.byContradiction fun hk => ?_
    unfold AssocMap.contains at hc
    rw [← h n huse, hd.cond, readCond_eq hi hdel, if_neg fun hboth => hk hboth.1] at hc
    cases hc
  · intro h n huse
    rw [hd.cond, readCond_eq hi hdel]
    split
    · rfl
    · next hn =>
      refine (get?_of_not_contains fun hc => hn ?_).symm
      have hm := matched_iff.2 ⟨hc, huse⟩
      exact ⟨h n hm, hm⟩

end

/-- The columns in use come back if all of them have names. -/
theorem columns_known_iff (he : Emitted names r) :
    (∀ n, matched r n = true ∨ r.val.contains n = true → n ∈ known (rowColumns names r)) ↔
      r.val.contains "" = false ∧ matched r "" = false := by
  rw [← Bool.not_eq_true, ← Bool.not_eq_true, and_comm, ← not_or, ← mem_rowColumns he,
    ← subset_known_iff]
  exact forall_congr' fun n => by rw [mem_rowColumns he]

theorem roundTrips_assign (he : Emitted names r) (hd : Decoded names r r')
    (hmode : r.mode = .update ∨ r.mode = .move) :
    RoundTrips r r' ↔ r.val.contains "" = false ∧ matched r "" = false := by
  have hi : r.mode ≠ .insert := by rcases hmode with h | h <;> rw [h] <;> decide
  have hdel : r.mode ≠ .delete := by rcases hmode with h | h <;> rw [h] <;> decide
  have hval : ∀ n, r'.val.get? n = if n ∈ known (rowColumns names r) then r.val.get? n else none :=
    fun n => by
    rw [hd.val]
    unfold readVal
    rcases hmode with h | h <;> rw [h]
  rw [← columns_known_iff he]
  constructor
  · rintro h n (hn | hn)
    · exact (cond_kept_iff hi hdel hd).1 h.cond n hn
    · refine Classical.byContradiction fun hk => ?_
      unfold AssocMap.contains at hn
      rw [← h.val n, hval, if_neg hk] at hn
      cases hn
  · intro h
    refine ⟨hd.mode, fun n => ?_, absent_kept hi hdel hd, (cond_kept_iff hi hdel hd).2 fun n hn =>
      h n (Or.inl hn)⟩
    rw [hval]
    split
    · rfl
    · next hk => exact (get?_of_not_contains fun hc => hk (h n (Or.inr hc))).symm

theorem roundTrips_context (he : Emitted names r) (hd : Decoded names r r')
    (hmode : r.mode = .context) : RoundTrips r r' ↔ r.val = [] ∧ matched r "" = false := by
  have hi : r.mode ≠ .insert := by rw [hmode]; decide
  have hdel : r.mode ≠ .delete := by rw [hmode]; decide
  have hval : ∀ n, r'.val.get? n = none := fun n => by
    rw [hd.val]; unfold readVal; rw [hmode]
  have hnil : (∀ n, r'.val.get? n = r.val.get? n) ↔ r.val = [] := by
    constructor
    · refine fun h => List.eq_nil_iff_forall_not_mem.2 fun e he => ?_
      obtain ⟨c, hc⟩ := AssocMap.get?_isSome_of_mem he
      rw [← h, hval] at hc
      cases hc
    · intro h n
      rw [hval, h]
      rfl
  have hcolumns :
    r.val = [] →
    ((∀ n, matched r n = true → n ∈ known (rowColumns names r)) ↔ matched r "" = false) := by
    intro h
    have hno : ∀ n, r.val.contains n = false := fun n => by rw [h]; rfl
    have := columns_known_iff he
    simpa only [hno, Bool.false_eq_true, or_false, true_and] using this
  constructor
  · intro h
    have hv := hnil.1 h.val
    exact ⟨hv, (hcolumns hv).1 ((cond_kept_iff hi hdel hd).1 h.cond)⟩
  · rintro ⟨hv, hm⟩
    exact ⟨hd.mode, hnil.2 hv, absent_kept hi hdel hd,
      (cond_kept_iff hi hdel hd).2 ((hcolumns hv).2 hm)⟩

/-- The rows that come back as they were. -/
theorem roundTrips_iff_carried (he : Emitted names r) (hd : Decoded names r r') :
    RoundTrips r r' ↔ Carried names r := by
  unfold Carried
  cases hmode : r.mode with
  | none => exact absurd hmode he.mode
  | delete => exact roundTrips_delete he hd hmode
  | insert => exact roundTrips_insert he hd hmode
  | update => exact roundTrips_assign he hd (Or.inl hmode)
  | context => exact roundTrips_context he hd hmode
  | move => exact roundTrips_assign he hd (Or.inr hmode)

end

/-- Rows that have been read come back as they were if each of them is carried. -/
theorem forall₂_roundTrips_iff {names : List String} {rows new : List RowChange}
    (h : List.Forall₂ (Decoded names) rows new)
    (he : ∀ r ∈ rows, Emitted names r) : List.Forall₂ RoundTrips rows new ↔
    ∀ r ∈ rows, Carried names r := by
  induction h with
  | nil => exact iff_of_true .nil fun r hr => absurd hr List.not_mem_nil
  | @cons r r' rows new hd _ ih =>
    rw [List.forall₂_cons, List.forall_mem_cons,
      roundTrips_iff_carried (he r List.mem_cons_self) hd,
      ih fun r hr => he r (List.mem_cons_of_mem _ hr)]

/-! ## All rows of a merge -/

/-- What a merge reports of one sheet: its columns, as often as it does, and its rows. -/
structure RowReport where
  sheetName : String
  names : List String
  declared : List NameChange
  rows : List RowChange
  distinct : names.Nodup
  cStrings : ∀ n ∈ names, '\x00' ∉ n.toList
  declaredNames : ∀ change ∈ declared, change.names = names
  emitted : ∀ r ∈ rows, Emitted names r

def RowReport.events (p : RowReport) : List PatchEvent :=
  p.declared.map PatchEvent.changeName ++ p.rows.map PatchEvent.changeRow

/-- The rows come back, one for one. -/
def ComesBack (flags : CompareFlags) (p : RowReport) : Prop :=
  ∃ sheet calls, MergeOutputCsvDiff.run p.sheetName p.events = some sheet ∧
  applyCsv flags sheet = some calls ∧
    List.Forall₂ RoundTrips p.rows (calls.filterMap PatcherCall.row?)

/-- The sheet is written and read to the end, and the rows that are let through come back. -/
theorem reads_back (flags : CompareFlags) (p : RowReport) :
    ∃ sheet calls, MergeOutputCsvDiff.run p.sheetName p.events = some sheet ∧
    applyCsv flags sheet = some calls ∧
    List.Forall₂ (Decoded p.names) (p.rows.filter fun r => allows flags r.mode)
    (calls.filterMap PatcherCall.row?) := by
  obtain ⟨htold, hd⟩ := told_start flags p.sheetName p.names
  obtain ⟨w₁, s₁, hnames, htold₁, hd₁⟩ := told_names p.cStrings p.declared htold hd p.declaredNames
  obtain ⟨w₂, s₂, new, hrows, htold₂, hnew⟩ :=
    told_rows p.cStrings p.distinct p.rows htold₁ hd₁.tracks p.emitted
  obtain ⟨calls, hpass, hcalls⟩ := htold₂.read w₂.result.w le_rfl
  refine ⟨w₂.result, .mergeStart :: calls ++ [.mergeDone, .mergeAllDone], ?_, ?_, ?_⟩
  · unfold MergeOutputCsvDiff.run RowReport.events
    rw [List.foldlM_append, hnames]
    exact congrArg (Option.map result) hrows
  · unfold applyCsv
    rw [show (step flags w₂.result.w).run w₂.result.arr (some {}) = (calls, some s₂) from hpass]
    rfl
  · have hfilter :
        (PatcherCall.mergeStart :: calls ++ [PatcherCall.mergeDone, .mergeAllDone]).filterMap
        PatcherCall.row? = new := by
      rw [List.cons_append, List.filterMap_cons_none rfl, List.filterMap_append, hcalls]
      exact List.append_nil new
    rw [hfilter]
    exact hnew

theorem ComesBack.forall₂ {flags : CompareFlags} {p : RowReport} (h : ComesBack flags p)
    {sheet : CsvSheet} {calls : List PatcherCall}
    (hrun : MergeOutputCsvDiff.run p.sheetName p.events = some sheet)
    (hread : applyCsv flags sheet = some calls) :
    List.Forall₂ RoundTrips p.rows (calls.filterMap PatcherCall.row?) := by
  obtain ⟨sheet', calls', hrun', hread', hback⟩ := h
  obtain rfl : sheet = sheet' := Option.some.inj (hrun.symm.trans hrun')
  obtain rfl : calls = calls' := Option.some.inj (hread.symm.trans hread')
  exact hback

theorem rows_comeBack_iff (flags : CompareFlags) (p : RowReport) :
    ComesBack flags p ↔ ∀ r ∈ p.rows, allows flags r.mode = true ∧ Carried p.names r := by
  obtain ⟨sheet, calls, hrun, hread, hdecoded⟩ := reads_back flags p
  constructor
  · intro h
    have hback := h.forall₂ hrun hread
    -- as many rows come back as there were, so all have been let through
    have hlen : (p.rows.filter fun r => allows flags r.mode).length = p.rows.length :=
      hdecoded.length_eq.trans hback.length_eq.symm
    have hall : (p.rows.filter fun r => allows flags r.mode) = p.rows :=
      List.filter_sublist.eq_of_length hlen
    rw [hall] at hdecoded
    exact fun r hr =>
      ⟨List.filter_eq_self.1 hall r hr, (forall₂_roundTrips_iff hdecoded p.emitted).1 hback r hr⟩
  · intro h
    rw [List.filter_eq_self.2 fun r hr => (h r hr).1] at hdecoded
    exact ⟨sheet, calls, hrun, hread, (forall₂_roundTrips_iff hdecoded p.emitted).2 fun r hr =>
      (h r hr).2⟩

/-- A new row with nothing in its second column. -/
def nullInserted : RowReport where
  sheetName := "sheet"
  names := ["id", "note"]
  declared := [⟨false, true, ["id", "note"]⟩]
  rows := [{
    mode := .insert
    names := ["id", "note"]
    val := [("id", ⟨"1", false⟩)]
    indexes := [("id", true), ("note", false)] }]
  distinct := by decide
  cStrings := by decide
  declaredNames := by decide
  emitted := by
    intro r hr
    obtain rfl := List.mem_singleton.1 hr
    exact ⟨by decide, rfl, Or.inl rfl, by decide, by decide, fun _ => rfl, by decide, by decide, by decide⟩

/-- Its empty cell comes back as a value. -/
theorem nullInserted_not_comesBack : ¬ ComesBack {} nullInserted := by
  rintro ⟨sheet, calls, hrun, hread, hback⟩
  have hval : (MergeOutputCsvDiff.run nullInserted.sheetName nullInserted.events).bind (fun sheet =>
      (applyCsv {} sheet).map fun calls => (calls.filterMap PatcherCall.row?).map fun r =>
        r.val.get? "note") = some [some ⟨"", false⟩] := by decide +kernel
  rw [hrun, Option.bind_some, hread, Option.map_some] at hval
  obtain ⟨r, rest, hrow, -, hcalls⟩ := List.forall₂_cons_left_iff.1 hback
  rw [hcalls, List.map_cons] at hval
  -- there was no value in the row that was reported
  have hsome : r.val.get? "note" = some ⟨"", false⟩ :=
    List.head_eq_of_cons_eq (Option.some.inj hval)
  rw [hrow.val] at hsome
  exact absurd hsome (by decide)

end CsvDiff

end Coopy
