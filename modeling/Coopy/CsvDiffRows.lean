import Coopy.CsvDiffHeaders

/-!
# Row lines of a table diff

With the header lines read, a row's own line (two, where a column has both a condition and a value
to show) gives the parser one row, with the conditions and values of the columns in use whose names
are known: `Decoded`.

    Told flags w.result s rows → Tracks names w s → … →
      ∃ w' s' new, (changes.map .changeRow).foldlM call w = some w' ∧
      Told flags w'.result s' (rows ++ new) ∧ Forall₂ (Decoded names) (changes.filter …) new
                                                                                         (told_rows)
-/

namespace Coopy

open Lib Lib.Transducer MergeOutputCsvDiff
open CsvPatch (Covers Keeps Plain Reads Renamed TakesLine known known_begins step)

namespace CsvDiff

/-! ## A row -/

/-- A change of the kind that a merge over columns of these names reports.  Texts are C strings. -/
structure Emitted (names : List String) (r : RowChange) : Prop where
  mode : r.mode ≠ .none
  conflictFree : r.conflicted = false
  columns : r.names = names ∨ r.mode = .context ∧ r.names = [] ∧ r.cond = [] ∧ r.val = []
  cond : ∀ n ∈ r.cond.keys, n ∈ names
  val : ∀ n ∈ r.val.keys, n ∈ names
  inserted : r.mode = .insert → r.cond = []
  deleted : r.mode = .delete → r.val = []
  indexed : ∀ n ∈ r.cond.keys, n ∈ r.indexes.keys
  cStrings : ∀ e ∈ r.cond ++ r.val, '\x00' ∉ e.2.text.toList

/-- The condition on a column is written: it is indexed or assigned. -/
def matched (r : RowChange) (n : String) : Bool :=
  (r.cond.contains n && r.indexes.holds n) || (r.val.contains n && r.cond.contains n)

/-- The columns that a row which is neither inserted nor deleted has in use. -/
def rowColumns (names : List String) (r : RowChange) : List String :=
  names.filter fun n => matched r n || r.val.contains n

/-- The condition that is read. -/
def readCond (names : List String) (r : RowChange) (n : String) : Option SheetCell :=
  match r.mode with
  | .insert => none
  | .delete => if n ∈ known names then some ((r.cond.get? n).getD ⟨"", false⟩) else none
  | _ => if n ∈ known (rowColumns names r) ∧ matched r n = true then r.cond.get? n else none

/-- The value that is read. -/
def readVal (names : List String) (r : RowChange) (n : String) : Option SheetCell :=
  match r.mode with
  | .insert => if n ∈ known names then some ((r.val.get? n).getD ⟨"", false⟩) else none
  | .delete | .context => none
  | _ => if n ∈ known (rowColumns names r) then r.val.get? n else none

structure Decoded (names : List String) (r r' : RowChange) : Prop where
  mode : r'.mode = r.mode
  cond : ∀ n, r'.cond.get? n = readCond names r n
  val : ∀ n, r'.val.get? n = readVal names r n

section
variable {flags : CompareFlags} {names : List String} {w w₁ : MergeOutputCsvDiff}
    {s s₁ s' : CsvPatch}
  {rows : List RowChange}
  {change : RowChange}

theorem Tracks.line (ht : Tracks names w s) (hk : Keeps s s') (hready : s'.needSelector = true)
    (fields : List SheetCell) :
    Tracks names (w.line fields) s' := by
  have hrest := sameRest_line w fields
  refine ⟨hk.plain ht.plain, hready, ⟨?_, ?_, hrest.columns ▸ ht.named.columns⟩, ⟨?_, ?_⟩, ?_, ?_⟩
  · rw [hrest.showedColumns, hrest.columns, hk.names]
    exact ht.named.shown
  · rw [hrest.showedColumns, hk.names]
    exact ht.named.unshown
  · rw [hrest.showForSelect, hk.names, hk.matchColumn]
    exact ht.marked.select
  · rw [hrest.showForDescribe, hk.names, hk.assignColumn]
    exact ht.marked.describe
  · rw [hrest.showForSelect, hrest.showForDescribe]
    exact ht.keys
  · cases ht.noted with
    | idle hops hnops hselect hdescribe =>
      exact .idle (hrest.ops.trans hops) (hrest.nops.trans hnops) (hrest.showForSelect ▸ hselect)
        (hrest.showForDescribe ▸ hdescribe)
    | busy hops hsome hall hnops hcolumns =>
      refine .busy ?_ (hrest.ops ▸ hsome) (hrest.showForSelect ▸ hall) ?_ ?_
      · rw [hrest.ops, hrest.showForSelect, hrest.showForDescribe]
        exact hops
      · rw [hrest.nops, hrest.showForSelect, hrest.showForDescribe]
        exact hnops
      · rw [hrest.nops, hrest.showedColumns, hrest.columns]
        exact hcolumns

/-- The line of a row, field by field. -/
def rowFields (w : MergeOutputCsvDiff) (change : RowChange) (used : List String) (tag : String)
    (select update : Bool) : List SheetCell :=
  textField "row" :: textField tag :: used.map (w.shown change select update)

theorem updateRow_eq {used : List String} (hactives : w₁.actives change = used) (tag : String)
    {select update : Bool} (h : ∀ n ∈ used, (w₁.fieldsOf change select update n).length ≤ 1) :
    (w₁.updateRow change tag select update false).1 =
    w₁.line (rowFields w₁ change used tag select update) := by
  unfold updateRow rowFields
  simp only [Bool.false_eq_true, if_false]
  rw [hactives, flatten_fieldsOf h]

theorem holds_select (hr : Ready names w s change w₁ s₁) (n : String) :
    w₁.showForSelect.holds n = if n ∈ change.names then shouldMatch w.showForSelect change n
    else false := by
  rw [hr.select]
  exact AssocMap.holds_setAll _ _ _ n

theorem holds_describe (hr : Ready names w s change w₁ s₁) (n : String) :
    w₁.showForDescribe.holds n = if n ∈ change.names then shouldAssign w.showForDescribe change n
    else false := by
  rw [hr.describe]
  exact AssocMap.holds_setAll _ _ _ n

/-- A column that is not in use shows nothing. -/
theorem shown_of_not_used (hr : Ready names w s change w₁ s₁) {n : String} (hn : n ∉ w.used change)
    (select update : Bool) :
    w₁.shown change select update n = ⟨"", false⟩ := by
  have hboth : w₁.showForSelect.holds n = false ∧ w₁.showForDescribe.holds n = false := by
    rw [holds_select hr, holds_describe hr]
    split
    · next hmem =>
      have hnot := fun h => hn (List.mem_filter.2 ⟨hmem, h⟩)
      simpa using hnot
    · exact ⟨rfl, rfl⟩
  unfold shown
  rw [hboth.1, hboth.2]
  rfl

theorem Ready.covers' (hr : Ready names w s change w₁ s₁) (hnames : change.names = names ∨
    change.names = []) : Covers s₁.names.lst (w.used change) := by
  rcases hnames with hM | hM
  · rcases hr.covers hM with hlst | hnil
    · exact Or.inl (hlst ▸ known_begins _)
    · exact Or.inr hnil
  · exact Or.inr (by unfold used; rw [hM]; rfl)

/-- The fields of the line as they are read. -/
theorem readData_shown (hr : Ready names w s change w₁ s₁) (hnames : change.names = names ∨
    change.names = [])
    {s₂ : CsvPatch}
    (hk : Keeps s₁ s₂) (tag : String) (select update : Bool) :
    CsvPatch.readData (rowFields w₁ change (w.used change) tag select update) s₂.nameStart s₂.len =
      s₂.names.lst.map (w₁.shown change select update) :=
  CsvPatch.readData_eq (hk.plain hr.tracks.plain) (hk.names ▸ hr.covers' hnames)
    (fun _ _ hn => shown_of_not_used hr hn select update) _ _

theorem cString_shown (he : Emitted names change) (w : MergeOutputCsvDiff)
    (select update : Bool) (n : String) :
    '\x00' ∉ (w.shown change select update n).text.toList := by
  have hcond : ∀ c, change.cond.get? n = some c → '\x00' ∉ c.text.toList := fun c hc =>
    he.cStrings _ (List.mem_append_left _ (AssocMap.mem_of_get? hc))
  have hval : ∀ c, change.val.get? n = some c → '\x00' ∉ c.text.toList := fun c hc =>
    he.cStrings _ (List.mem_append_right _ (AssocMap.mem_of_get? hc))
  unfold shown
  simp only
  cases hor : Option.or (if w.showForSelect.holds n && select then change.cond.get? n else none)
    (if w.showForDescribe.holds n && update then change.val.get? n else none) with
  | none => exact (by decide : '\x00' ∉ "".toList)
  | some c =>
    rcases Option.or_eq_some_iff.1 hor with hc | ⟨-, hv⟩
    · split at hc
      · exact hcond c hc
      · cases hc
    · split at hv
      · exact hval c hv
      · cases hv

/-- A line for a row, up to what the parser does with its fields. -/
theorem Told.rowLine (h : Told flags w₁.result s' rows) (hs : s'.Plain) (he : Emitted names change)
    {used : List String} {tag : String}
    (htag : '\x00' ∉ tag.toList) {select update : Bool} {s'' : CsvPatch} {calls : List PatcherCall}
    (hread : ∀ width, s'.rowLine flags width (rowFields w₁ change used tag select update) tag =
      some (calls, s'')) :
    Told flags (w₁.line (rowFields w₁ change used tag select update)).result s''
      (rows ++ calls.filterMap PatcherCall.row?) := by
  refine h.line hs.configSet (fun c hc => ?_) fun width _ => ⟨calls, ?_, rfl⟩
  · rcases List.mem_cons.1 hc with rfl | hc
    · decide
    · rcases List.mem_cons.1 hc with rfl | hc
      · exact htag
      · obtain ⟨n, hn, rfl⟩ := List.mem_map.1 hc
        exact cString_shown he w₁ select update n
  · show s'.readLine flags width (⟨"row", false⟩ :: ⟨tag, false⟩ :: _) = _
    rw [CsvPatch.readLine_tag hs.configSet (Or.inl rfl)]
    exact hread width

theorem marked_select (hr : Ready names w s change w₁ s₁) (hM : change.names = names) {n : String}
    (hn : n ∈ s₁.names.lst) :
    s₁.matchColumn.holds n = shouldMatch w.showForSelect change n := by
  refine hr.tracks.marked.select n hn _ ?_
  rw [hr.select, get?_showForSelect, if_pos (hM ▸ hr.tracks.named.lst_sublist.subset hn)]

theorem marked_describe (hr : Ready names w s change w₁ s₁) (hM : change.names = names) {n : String}
    (hn : n ∈ s₁.names.lst) :
    s₁.assignColumn.holds n = shouldAssign w.showForDescribe change n := by
  refine hr.tracks.marked.describe n hn _ ?_
  rw [hr.describe, get?_showForDescribe, if_pos (hM ▸ hr.tracks.named.lst_sublist.subset hn)]

/-- The columns that are read to be matched, and to be assigned. -/
theorem reads_select_iff (hr : Ready names w s change w₁ s₁)
    (hM : change.names = names) (n : String) : (n ∈ s₁.names.lst ∧ s₁.matchColumn.holds n = true) ↔
      (n ∈ known (w.used change) ∧ shouldMatch w.showForSelect change n = true) := by
  rcases hr.covers hM with hlst | hnil
  · rw [← hlst]
    exact and_congr_right fun hn => by rw [marked_select hr hM hn]
  · rw [hnil]
    refine iff_of_false (fun ⟨hn, hm⟩ => ?_) fun ⟨hn, _⟩ => List.not_mem_nil hn
    rw [marked_select hr hM hn] at hm
    have : n ∈ w.used change :=
      List.mem_filter.2 ⟨hM ▸ hr.tracks.named.lst_sublist.subset hn, by rw [hm]; rfl⟩
    rw [hnil] at this
    exact List.not_mem_nil this

theorem reads_describe_iff (hr : Ready names w s change w₁ s₁)
    (hM : change.names = names) (n : String) : (n ∈ s₁.names.lst ∧ s₁.assignColumn.holds n = true) ↔
      (n ∈ known (w.used change) ∧ shouldAssign w.showForDescribe change n = true) := by
  rcases hr.covers hM with hlst | hnil
  · rw [← hlst]
    exact and_congr_right fun hn => by rw [marked_describe hr hM hn]
  · rw [hnil]
    refine iff_of_false (fun ⟨hn, ha⟩ => ?_) fun ⟨hn, _⟩ => List.not_mem_nil hn
    rw [marked_describe hr hM hn] at ha
    have : n ∈ w.used change :=
      List.mem_filter.2 ⟨hM ▸ hr.tracks.named.lst_sublist.subset hn, by rw [ha, Bool.or_true]⟩
    rw [hnil] at this
    exact List.not_mem_nil this

/-- An inserted or deleted row uses all columns. -/
theorem used_all (hM : change.names = names) (hmode : change.mode = .insert ∨
    change.mode = .delete) : w.used change = names := by
  unfold used
  rw [hM]
  refine List.filter_eq_self.2 fun n _ => ?_
  unfold shouldMatch shouldAssign
  rcases hmode with hmode | hmode
  · rw [hmode]
    exact Bool.or_true _
  · rw [hmode]
    exact Bool.true_or _

/-- The row has been written and read, and the parser is ready for the next. -/
def Passed (flags : CompareFlags) (names : List String) (rows : List RowChange) (allowed : Bool)
    (change : RowChange) (w' : MergeOutputCsvDiff) : Prop :=
  ∃ s' new, Told flags w'.result s' (rows ++ new) ∧ Tracks names w' s' ∧
    if allowed then ∃ r, new = [r] ∧ Decoded names change r else new = []

theorem Told.passed (h : Told flags w₁.result s₁ rows) (hs : s₁.Plain) (he : Emitted names change)
    {used : List String} {tag : String}
    (htag : '\x00' ∉ tag.toList) {select update allowed : Bool} {r : RowChange}
    (hread : ∀ width, s₁.rowLine flags width (rowFields w₁ change used tag select update) tag =
      some (if allowed then [.changeRow r] else [], s'))
    (ht : Tracks names (w₁.line (rowFields w₁ change used tag select update)) s')
      (hd : Decoded names change r) :
    Passed flags names rows allowed
    change (w₁.line (rowFields w₁ change used tag select update)) := by
  refine ⟨s', _, h.rowLine hs he htag hread, ht, ?_⟩
  cases allowed
  · rfl
  · exact ⟨r, rfl, hd⟩

theorem passed_insert (h : Told flags w₁.result s₁ rows) (hr : Ready names w s change w₁ s₁)
    (he : Emitted names change)
    (hn : names.Nodup) (hM : change.names = names) (hmode : change.mode = .insert) :
    Passed flags names rows flags.canInsert
    change (w₁.updateRow change "insert" false true false).1 := by
  rw [updateRow_eq hr.actives "insert" fun n _ => length_fieldsOf_le_one (Or.inl rfl)]
  have hplain := hr.tracks.plain
  have hlst := hr.tracks.named.lst_sublist
  have hused := used_all (w := w) hM (Or.inl hmode)
  obtain ⟨s', r, hline, hkeeps, hready, hrmode, hcond, hval⟩ := CsvPatch.insertLine_eq flags hplain
    (hn.sublist hlst) (w₁.shown change false true)
  refine h.passed hplain he (by decide) (fun width => ?_) (hr.tracks.line hkeeps hready _)
    ⟨hrmode.trans hmode.symm, fun n => ?_, fun n => ?_⟩
  · show s₁.insertLine flags (CsvPatch.readData _ s₁.nameStart s₁.len) = _
    rw [readData_shown hr (Or.inl hM) ⟨rfl, rfl, rfl, id⟩, hline]
  · unfold readCond
    rw [hmode, hcond]
    rfl
  · rw [hval n, if_congr (reads_describe_iff hr hM n) rfl rfl, hused]
    unfold readVal
    rw [hmode]
    have hassign : shouldAssign w.showForDescribe change n = true := by
      unfold shouldAssign; rw [hmode]
    rw [hassign]
    simp only [and_true]
    split
    · next hmem =>
      have hholds : w₁.showForDescribe.holds n = true := by
        rw [holds_describe hr, if_pos (hM ▸ (known_begins _).subset hmem), hassign]
      unfold shown
      rw [hholds]
      simp [textField]
    · rfl

theorem passed_delete (h : Told flags w₁.result s₁ rows) (hr : Ready names w s change w₁ s₁)
    (he : Emitted names change)
    (hn : names.Nodup) (hM : change.names = names) (hmode : change.mode = .delete) :
    Passed flags names rows flags.canDelete
    change (w₁.updateRow change "delete" true false false).1 := by
  rw [updateRow_eq hr.actives "delete" fun n _ => length_fieldsOf_le_one (Or.inr rfl)]
  have hplain := hr.tracks.plain
  have hlst := hr.tracks.named.lst_sublist
  have hused := used_all (w := w) hM (Or.inr hmode)
  obtain ⟨s', r, hline, hkeeps, hready, hrmode, hval, hcond⟩ := CsvPatch.deleteLine_eq flags hplain
    (hn.sublist hlst) (w₁.shown change true false)
  refine h.passed hplain he (by decide) (fun width => ?_) (hr.tracks.line hkeeps hready _)
    ⟨hrmode.trans hmode.symm, fun n => ?_, fun n => ?_⟩
  · show s₁.deleteLine flags (CsvPatch.readData _ s₁.nameStart s₁.len) = _
    rw [readData_shown hr (Or.inl hM) ⟨rfl, rfl, rfl, id⟩, hline]
  · rw [hcond n, if_congr (reads_select_iff hr hM n) rfl rfl, hused]
    unfold readCond
    rw [hmode]
    have hmatch : shouldMatch w.showForSelect change n = true := by unfold shouldMatch; rw [hmode]
    rw [hmatch]
    simp only [and_true]
    split
    · next hmem =>
      have hholds : w₁.showForSelect.holds n = true := by
        rw [holds_select hr, if_pos (hM ▸ (known_begins _).subset hmem), hmatch]
      unfold shown
      rw [hholds]
      simp [textField]
    · rfl
  · unfold readVal
    rw [hmode, hval]
    rfl

theorem shouldMatch_eq (hi : change.mode ≠ .insert) (hd : change.mode ≠ .delete)
    (prev : AssocMap String Bool) (n : String) :
    shouldMatch prev change n = matched change n := by
  unfold shouldMatch matched
  cases hmode : change.mode <;> first | rfl | exact absurd hmode hi | exact absurd hmode hd

theorem shouldAssign_eq (hi : change.mode ≠ .insert) (hd : change.mode ≠ .delete)
    (prev : AssocMap String Bool) (n : String) :
    shouldAssign prev change n = change.val.contains n := by
  unfold shouldAssign
  cases hmode : change.mode <;> first | rfl | exact absurd hmode hi | exact absurd hmode hd

theorem used_eq (hM : change.names = names) (hi : change.mode ≠ .insert)
    (hd : change.mode ≠ .delete) : w.used change = rowColumns names change := by
  unfold used rowColumns
  rw [hM]
  exact List.filter_congr fun n _ => by rw [shouldMatch_eq hi hd, shouldAssign_eq hi hd]

/-- A column that is matched has a condition. -/
theorem cond_of_matched {n : String} (h : matched change n = true) :
    ∃ c, change.cond.get? n = some c := by
  have hcond : change.cond.contains n = true := by
    unfold matched at h
    cases hc : change.cond.contains n
    · rw [hc, Bool.false_and, Bool.and_false] at h
      exact absurd h (by decide)
    · rfl
  exact Option.isSome_iff_exists.1 hcond

theorem known_subset {used : List String} {n : String} (h : n ∈ known used) : n ∈ used :=
  (known_begins _).subset h

section
variable (hi : change.mode ≠ .insert) (hd : change.mode ≠ .delete)
include hi hd

/-- The conditions that are shown are those read back. -/
theorem reads_cond (hr : Ready names w s change w₁ s₁) (hM : change.names = names) {update : Bool}
    {r : RowChange}
    (h : Reads r.cond s₁.names.lst s₁.matchColumn (w₁.shown change true update)) (n : String) :
    r.cond.get? n =
      if n ∈ known (rowColumns names change) ∧ matched change n = true then change.cond.get? n
      else none := by
  rw [h n, if_congr (reads_select_iff hr hM n) rfl rfl, used_eq hM hi hd, shouldMatch_eq hi hd]
  split
  · next hmem =>
    obtain ⟨c, hc⟩ := cond_of_matched hmem.2
    have hname : n ∈ change.names := hM ▸ (List.mem_filter.1 (known_subset hmem.1)).1
    have hholds : w₁.showForSelect.holds n = true := by
      rw [holds_select hr, if_pos hname, shouldMatch_eq hi hd, hmem.2]
    unfold shown
    rw [hholds, hc]
    rfl
  · rfl

/-- So are the values, where no condition is shown with them. -/
theorem reads_val (hr : Ready names w s change w₁ s₁) (hM : change.names = names) {select : Bool}
    {r : RowChange} (h : Reads r.val s₁.names.lst s₁.assignColumn (w₁.shown change select true))
    (hone : ∀ n ∈ w.used change, (w₁.fieldsOf change select true n).length ≤ 1) (n : String) :
    r.val.get? n = if n ∈ known (rowColumns names change) then change.val.get? n else none := by
  rw [h n, if_congr (reads_describe_iff hr hM n) rfl rfl, used_eq hM hi hd, shouldAssign_eq hi hd]
  by_cases hmem : n ∈ known (rowColumns names change)
  · rw [if_pos hmem]
    cases hval : change.val.get? n with
    | none =>
      refine if_neg fun h => ?_
      have := h.2
      unfold AssocMap.contains at this
      rw [hval] at this
      cases this
    | some c =>
      have hcontains : change.val.contains n = true := by
        unfold AssocMap.contains
        rw [hval]
        rfl
      rw [if_pos ⟨hmem, hcontains⟩]
      have hname : n ∈ change.names := hM ▸ (List.mem_filter.1 (known_subset hmem)).1
      have hholds : w₁.showForDescribe.holds n = true := by
        rw [holds_describe hr, if_pos hname, shouldAssign_eq hi hd, hcontains]
      have hlen := hone n (by rw [used_eq hM hi hd]; exact known_subset hmem)
      unfold fieldsOf at hlen
      unfold shown
      rw [hholds, hval] at *
      cases hcond : (if w₁.showForSelect.holds n && select then change.cond.get? n else none) with
      | none => rfl
      | some d =>
        -- two fields for one column
        split at hcond
        · next hsel =>
          rw [if_pos hsel, hcond] at hlen
          simp at hlen
        · cases hcond
  · rw [if_neg hmem, if_neg fun h => hmem h.1]

end

theorem passed_context (h : Told flags w₁.result s₁ rows) (hr : Ready names w s change w₁ s₁)
    (he : Emitted names change)
    (hn : names.Nodup) (hmode : change.mode = .context) : Passed flags names rows true change
      (w₁.updateRow change (if change.cond.length > 0 then "after" else "start") true false
        false).1 := by
  have hi : change.mode ≠ .insert := by rw [hmode]; decide
  have hd : change.mode ≠ .delete := by rw [hmode]; decide
  rw [updateRow_eq hr.actives _ fun n _ => length_fieldsOf_le_one (Or.inr rfl)]
  have hplain := hr.tracks.plain
  by_cases hcond : change.cond.length > 0
  · rw [if_pos hcond]
    have hM : change.names = names := he.columns.resolve_right fun ⟨_, _, hnil, _⟩ => by
      rw [hnil] at hcond
      exact absurd hcond (by decide)
    obtain ⟨s', r, hline, hkeeps, hready, hrmode, hval, hread⟩ := CsvPatch.afterLine_eq hplain
      (hn.sublist hr.tracks.named.lst_sublist) (w₁.shown change true false)
    refine h.passed hplain he (by decide) (fun width => ?_)
      (hr.tracks.line hkeeps (hready.trans hr.tracks.ready) _)
      ⟨hrmode.trans hmode.symm, fun n => ?_, fun n => ?_⟩
    · show s₁.afterLine (CsvPatch.readData _ s₁.nameStart s₁.len) = _
      rw [readData_shown hr (Or.inl hM) ⟨rfl, rfl, rfl, id⟩, hline]
      rfl
    · rw [reads_cond hi hd hr hM hread]
      unfold readCond
      rw [hmode]
    · unfold readVal
      rw [hmode, hval]
      rfl
  · rw [if_neg hcond]
    have hnil : change.cond = [] := List.eq_nil_of_length_eq_zero (Nat.eq_zero_of_not_pos hcond)
    have hkeeps : Keeps s₁ { s₁ with sequential := true } :=
      ⟨rfl, rfl, rfl, fun hp => ⟨hp.nameStart, hp.supportNameRow, hp.supportNameStar,
        hp.configSet, hp.len⟩⟩
    refine h.passed (r := { mode := .context }) hplain he (by decide) (fun width => rfl)
      (hr.tracks.line hkeeps hr.tracks.ready _)
      ⟨hmode.symm, fun n => ?_, fun n => ?_⟩
    · unfold readCond
      rw [hmode, hnil]
      simp
    · unfold readVal
      rw [hmode]
      rfl

/-- Lines for a row with a condition and values: `row move`, and `row update`. -/
structure Assigns (flags : CompareFlags) (mode : RowChangeMode) (tag : String)
    (allowed : Bool) : Prop where
  text : '\x00' ∉ tag.toList
  assigns : mode = .update ∨ mode = .move
  line : ∀ (s : CsvPatch) width row,
    s.rowLine flags width row tag = s.assignLine mode allowed
      (CsvPatch.readData row s.nameStart s.len)

theorem assigns_move (flags : CompareFlags) : Assigns flags .move "move" true :=
  ⟨by decide, Or.inr rfl, fun _ _ _ => rfl⟩

theorem assigns_update (flags : CompareFlags) : Assigns flags .update "update" flags.canUpdate :=
  ⟨by decide, Or.inl rfl, fun _ _ _ => rfl⟩

theorem decoded_assign (hmode : change.mode = .update ∨ change.mode = .move) {r : RowChange}
    (hrmode : r.mode = change.mode)
    (hcond : ∀ n, r.cond.get? n =
      if n ∈ known (rowColumns names change) ∧ matched change n =
        true then change.cond.get? n else none)
    (hval : ∀ n, r.val.get? n = if n ∈ known (rowColumns names change) then change.val.get? n
      else none) :
    Decoded names change r := by
  refine ⟨hrmode, fun n => ?_, fun n => ?_⟩
  · rw [hcond]
    unfold readCond
    rcases hmode with hmode | hmode <;> rw [hmode]
  · rw [hval]
    unfold readVal
    rcases hmode with hmode | hmode <;> rw [hmode]

theorem passed_assign (h : Told flags w₁.result s₁ rows) (hr : Ready names w s change w₁ s₁)
    (he : Emitted names change)
    (hn : names.Nodup) (hM : change.names = names) {tag : String} {allowed : Bool}
    (ha : Assigns flags change.mode tag allowed) :
    Passed flags names rows allowed change (w₁.updateLines change tag) := by
  have hi : change.mode ≠ .insert := by
    rcases ha.assigns with hmode | hmode <;> rw [hmode] <;> decide
  have hd : change.mode ≠ .delete := by
    rcases ha.assigns with hmode | hmode <;> rw [hmode] <;> decide
  have hplain := hr.tracks.plain
  have hlst := hn.sublist hr.tracks.named.lst_sublist
  unfold updateLines
  simp only
  by_cases hterse : (w₁.updateRow change "practice" true true true).2 = true
  · -- one line, which is its own selection
    have hone : ∀ n ∈ w.used change, (w₁.fieldsOf change true true n).length ≤ 1 := by
      intro n hmem
      have :=
        List.all_eq_true.1 hterse (w₁.fieldsOf change true true n)
        (List.mem_map_of_mem (hr.actives ▸ hmem))
      simpa using this
    rw [if_pos hterse, updateRow_eq hr.actives tag hone]
    obtain ⟨s', r, hline, hkeeps, hready, hrmode, hcond, hval⟩ :=
      CsvPatch.assignLine_eq hplain hlst change.mode allowed
        (f := w₁.shown change true true) (g := w₁.shown change true true) (by
        unfold CsvPatch.choice
        rw [hr.tracks.ready]
        rfl)
    refine h.passed hplain he ha.text (fun width => ?_) (hr.tracks.line hkeeps hready _)
      (decoded_assign ha.assigns hrmode (reads_cond hi hd hr hM hcond)
        (reads_val hi hd hr hM hval hone))
    rw [ha.line, readData_shown hr (Or.inl hM) ⟨rfl, rfl, rfl, id⟩, hline]
  · -- two lines
    rw [if_neg hterse, updateRow_eq hr.actives "select" fun n _ =>
      length_fieldsOf_le_one (Or.inr rfl)]
    let s₂ : CsvPatch := { s₁ with
      sequential := true
      selector := s₁.names.lst.map (w₁.shown change true false)
      needSelector := false }
    have hkeeps₂ : Keeps s₁ s₂ :=
      ⟨rfl, rfl, rfl, fun hp => ⟨hp.nameStart, hp.supportNameRow, hp.supportNameStar,
        hp.configSet, hp.len⟩⟩
    have htold₂ :
      Told flags (w₁.line (rowFields w₁ change (w.used change) "select" true false)).result s₂
        (rows ++ ([] : List PatcherCall).filterMap PatcherCall.row?) :=
          h.rowLine hplain he (by decide) fun width => by
      show some ([], { s₁ with
        selector := CsvPatch.readData _ s₁.nameStart s₁.len, sequential := true,
          needSelector := false }) = _
      rw [readData_shown hr (Or.inl hM) ⟨rfl, rfl, rfl, id⟩]
    rw [List.filterMap_nil, List.append_nil] at htold₂
    generalize hfields :
      rowFields w₁ change (w.used change) "select" true false = fields at htold₂ ⊢
    have hrest := sameRest_line w₁ fields
    have hactives : (w₁.line fields).actives change = w.used change := by
      unfold actives
      rw [hrest.activeColumn]
      exact hr.actives
    have hshown : (w₁.line fields).shown change false true = w₁.shown change false true := by
      unfold shown
      rw [hrest.showForSelect, hrest.showForDescribe]
    rw [updateRow_eq hactives tag fun n _ => length_fieldsOf_le_one (Or.inl rfl)]
    obtain ⟨s', r, hline, hkeeps, hready, hrmode, hcond, hval⟩ :=
      CsvPatch.assignLine_eq (hkeeps₂.plain hplain) hlst change.mode allowed
        (f := w₁.shown change false true) (g := w₁.shown change true false) rfl
    have hkeeps' : Keeps s₁ s' :=
      ⟨hkeeps.names, hkeeps.matchColumn, hkeeps.assignColumn,
        fun hp => hkeeps.plain (hkeeps₂.plain hp)⟩
    refine htold₂.passed (hkeeps₂.plain hplain) he ha.text (fun width => ?_)
      ((hr.tracks.line hkeeps' hready fields).line ⟨rfl, rfl, rfl, id⟩ hready _)
      (decoded_assign ha.assigns hrmode (reads_cond hi hd hr hM hcond)
        (reads_val hi hd hr hM hval fun n _ => length_fieldsOf_le_one (Or.inl rfl)))
    rw [ha.line]
    unfold rowFields
    rw [hshown]
    exact (congrArg _ (readData_shown hr (Or.inl hM) hkeeps₂ tag false true)).trans hline

/-- The rows the parser lets through. -/
def allows (flags : CompareFlags) : RowChangeMode → Bool
  | .insert => flags.canInsert
  | .delete => flags.canDelete
  | .update => flags.canUpdate
  | _ => true

theorem passed_changeRow (h : Told flags w.result s rows) (ht : Tracks names w s)
    (hc : ∀ n ∈ names, '\x00' ∉ n.toList) (hn : names.Nodup) (he : Emitted names change) :
    ∃ w', w.changeRow change = some w' ∧
    Passed flags names rows (allows flags change.mode) change w' := by
  obtain ⟨s₁, htold, hr⟩ := h.prepareRow ht hc (he.columns.imp_right fun hblank => hblank.2.1)
  have hM : change.mode ≠ .context → change.names = names := fun hmode =>
    he.columns.resolve_right fun hblank => hmode hblank.1
  unfold MergeOutputCsvDiff.changeRow
  simp only
  cases hmode : change.mode with
  | none => exact absurd hmode he.mode
  | delete => exact ⟨_, rfl, passed_delete htold hr he hn (hM (by rw [hmode]; decide)) hmode⟩
  | insert => exact ⟨_, rfl, passed_insert htold hr he hn (hM (by rw [hmode]; decide)) hmode⟩
  | update =>
    have ha : Assigns flags change.mode "update" flags.canUpdate := hmode ▸ assigns_update flags
    exact ⟨_, rfl, passed_assign htold hr he hn (hM (by rw [hmode]; decide)) ha⟩
  | context => exact ⟨_, rfl, passed_context htold hr he hn hmode⟩
  | move =>
    have ha : Assigns flags change.mode "move" true := hmode ▸ assigns_move flags
    exact ⟨_, rfl, passed_assign htold hr he hn (hM (by rw [hmode]; decide)) ha⟩

/-! ## All rows -/

theorem told_rows (hc : ∀ n ∈ names, '\x00' ∉ n.toList) (hn : names.Nodup)
    (changes : List RowChange) :
    ∀ {w : MergeOutputCsvDiff} {s : CsvPatch} {rows : List RowChange}, Told flags w.result s rows →
    Tracks names w s →
      (∀ r ∈ changes, Emitted names r) →
      ∃ w' s' new, (changes.map PatchEvent.changeRow).foldlM call w = some w' ∧
        Told flags w'.result s' (rows ++ new) ∧
        List.Forall₂ (Decoded names) (changes.filter fun r => allows flags r.mode) new := by
  induction changes with
  | nil => exact fun {w s rows} h _ _ => ⟨w, s, [], rfl, by rwa [List.append_nil], .nil⟩
  | cons change changes ih =>
    intro w s rows h ht he
    obtain ⟨w₁, hrow, s₁, new, htold, ht₁, hnew⟩ :=
      passed_changeRow h ht hc hn (he change List.mem_cons_self)
    obtain ⟨w', s', rest, hrun, htold', hrest⟩ :=
      ih htold ht₁ fun r hr => he r (List.mem_cons_of_mem _ hr)
    refine ⟨w', s', new ++ rest, ?_, by rwa [← List.append_assoc], ?_⟩
    · rw [List.map_cons, List.foldlM_cons]
      show (w.changeRow change).bind _ = _
      rw [hrow]
      exact hrun
    · rw [List.filter_cons]
      cases hallow : allows flags change.mode
      · rw [hallow] at hnew
        rw [show new = [] from hnew]
        exact hrest
      · rw [hallow] at hnew
        obtain ⟨r, rfl, hd⟩ := hnew
        exact .cons hd hrest

end

end CsvDiff

end Coopy
