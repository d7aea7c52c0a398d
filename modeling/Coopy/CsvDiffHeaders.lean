import Coopy.MergeOutputCsvDiff
import Coopy.PatchParserCsv

/-!
# Header lines of a table diff

`MergeOutputCsvDiff` writes a header line only where something has changed since the row before, so
a row is read with what the last header line of each kind has left.  `Told` says that the lines of
the sheet take the parser to a state; `Tracks` is what writer and parser agree on between two rows.
The lines before a row leave them agreed on the columns in use and on what each is for:

    Told flags w.result s rows → Tracks names w s → … →
      ∃ s₁, Told flags (w.prepareRow change).result s₁ rows ∧
        Ready names w s change (w.prepareRow change) s₁   (Told.prepareRow)
-/

namespace Coopy

open Lib Lib.Transducer MergeOutputCsvDiff
open CsvPatch
    (Covers Renamed TakesLine known known_begins step takes_act takes_columnName takes_linkName)

namespace CsvDiff

/-! ## Writer and reader, line by line -/

/-- The lines of the sheet take the parser to `s`, and the patcher hears of `rows`. -/
structure Told (flags : CompareFlags) (sheet : CsvSheet) (s : CsvPatch)
    (rows : List RowChange) : Prop where
  atLine : sheet.AtLine
  read : ∀ width, sheet.w ≤ width → ∃ calls,
    Passes (step flags width) (some {}) sheet.arr calls (some s) ∧
    calls.filterMap PatcherCall.row? = rows

section
variable {flags : CompareFlags} {sheet : CsvSheet} {w : MergeOutputCsvDiff} {s s' : CsvPatch}
  {rows new : List RowChange}
  {fields : List SheetCell}

theorem Told.addLine (h : Told flags sheet s rows)
    (hread : TakesLine flags s (fields.map CsvSheet.stored) s' new) :
    Told flags (sheet.addLine fields) s' (rows ++ new) := by
  refine ⟨CsvSheet.atLine_addLine fields, fun width hw => ?_⟩
  rw [h.atLine.w_addLine] at hw
  obtain ⟨calls, hpass, hrows⟩ := h.read width (by omega)
  obtain ⟨calls', hline, hnew⟩ := hread width (by rw [List.length_map]; omega)
  refine ⟨calls ++ calls', ?_, by rw [List.filterMap_append, hrows, hnew]⟩
  rw [h.atLine.arr_addLine]
  refine hpass.snoc ?_
  unfold step
  simp only [hline]

theorem Told.clearThroat (h : Told flags w.result s rows) (hc : s.configSet = false) :
    Told flags w.clearThroat.result s rows := by
  unfold MergeOutputCsvDiff.clearThroat
  split
  · rw [← List.append_nil rows]
    refine h.addLine fun width _ =>
      ⟨[.setSheet (CsvSheet.stored (textField w.pendingSheetName)).text], ?_, rfl⟩
    rw [List.map_cons, List.map_cons,
      CsvSheet.stored_of_notMem (c := textField "table") (by decide),
      CsvSheet.stored_of_notMem (c := textField "name") (by decide)]
    unfold CsvPatch.readLine
    simp only [textField, List.map_cons, List.map_nil, List.getElem?_cons_zero,
      List.getElem?_cons_succ, Option.map_some, hc, Bool.false_eq_true, and_false, if_false]
    rfl
  · exact h

/-- One line more. -/
theorem Told.line (h : Told flags w.result s rows) (hc : s.configSet = false)
    (hfields : ∀ c ∈ fields, '\x00' ∉ c.text.toList) (hread : TakesLine flags s fields s' new) :
    Told flags (w.line fields).result s' (rows ++ new) :=
  (h.clearThroat hc).addLine (by rwa [CsvSheet.map_stored hfields])

end

/-! ## The header lines -/

/-- The names of the columns are known to the parser as far as lines for them were written. -/
structure Named (names : List String) (w : MergeOutputCsvDiff) (s : CsvPatch) : Prop where
  shown : w.showedColumns = true → s.names.lst = known w.columns
  unshown : w.showedColumns = false → s.names.lst = []
  columns : w.columns.Sublist names

/-- What a column is for is known of each column that the row before had. -/
structure Marked (w : MergeOutputCsvDiff) (s : CsvPatch) : Prop where
  select : ∀ n ∈ s.names.lst, ∀ b, w.showForSelect.get? n = some b → s.matchColumn.holds n = b
  describe : ∀ n ∈ s.names.lst, ∀ b, w.showForDescribe.get? n = some b → s.assignColumn.holds n = b

/-- Either no column has been used for anything, or the ones in use are written down. -/
inductive Noted (names : List String) (w : MergeOutputCsvDiff) : Prop
  | idle (ops : w.ops = []) (nops : w.nops = []) (select : ∀ n b, w.showForSelect.get? n = some b →
    b = true)
      (describe : ∀ n b, w.showForDescribe.get? n = some b → b = true)
  | busy (ops : w.ops = names.map fun n =>
    opText (w.showForSelect.holds n) (w.showForDescribe.holds n))
      (some : w.ops ≠ [])
      (all : ∀ n ∈ names, (w.showForSelect.get? n).isSome = true)
      (nops : w.nops = names.filter fun n => w.showForSelect.holds n || w.showForDescribe.holds n)
      (columns : w.nops ≠ [] → w.showedColumns = true ∧ w.columns = w.nops)

structure Tracks (names : List String) (w : MergeOutputCsvDiff) (s : CsvPatch) : Prop where
  plain : s.Plain
  ready : s.needSelector = true
  named : Named names w s
  marked : Marked w s
  keys : ∀ n, (w.showForSelect.get? n).isSome = (w.showForDescribe.get? n).isSome
  noted : Noted names w

section
variable {flags : CompareFlags} {names : List String} {w : MergeOutputCsvDiff} {s : CsvPatch}
    {rows : List RowChange}
  {change : RowChange}

theorem Named.lst_sublist (h : Named names w s) : s.names.lst.Sublist names := by
  cases hs : w.showedColumns
  · rw [h.unshown hs]
    exact List.nil_sublist _
  · rw [h.shown hs]
    exact (known_begins _).sublist.trans h.columns

/-- A line of names. -/
theorem Told.nameLine (h : Told flags w.result s rows) (hp : s.Plain) {xs : List String}
    (hxs : ∀ n ∈ xs, '\x00' ∉ n.toList)
    {cmd : String} (hcmd : cmd = "column" ∨ cmd = "link") :
    ∃ s', Renamed s s' xs ∧
      Told flags (w.line (textField cmd :: textField "name" :: xs.map textField)).result s'
      rows := by
  have hnul : '\x00' ∉ cmd.toList := by
    rcases hcmd with rfl | rfl
    · decide
    · decide
  have hfields : ∀ c ∈ textField cmd :: textField "name" :: xs.map textField, '\x00' ∉
    c.text.toList := by
    intro c hc
    rcases List.mem_cons.1 hc with rfl | hc
    · exact hnul
    · rcases List.mem_cons.1 hc with rfl | hc
      · exact (by decide : '\x00' ∉ "name".toList)
      · obtain ⟨n, hn, rfl⟩ := List.mem_map.1 hc
        exact hxs n hn
  obtain ⟨s', hren, htakes⟩ : ∃ s', Renamed s s' xs ∧
      TakesLine flags s (textField cmd :: textField "name" :: xs.map textField) s' [] := by
    rcases hcmd with rfl | rfl
    · exact takes_columnName hp xs
    · exact takes_linkName hp xs
  have := h.line hp.configSet hfields htakes
  rw [List.append_nil] at this
  exact ⟨s', hren, this⟩

/-- After the lines for the names, which come if other columns are active than before: all columns
are to match and to assign, unless the names were known already. -/
theorem Told.nameColumns (h : Told flags w.result s rows) (hp : s.Plain) (hnamed : Named names w s)
    (hc : ∀ n ∈ names, '\x00' ∉ n.toList) (hactive : (w.actives change).Sublist names)
    (hne : w.actives change ≠ w.nops) :
    ∃ s', Told flags (w.nameColumns change).result s' rows ∧ s'.Plain ∧
    s'.needSelector = s.needSelector ∧
      s'.names.lst = known (w.actives change) ∧
      (w.nameColumns change).showedColumns = true ∧
      (w.nameColumns change).columns = w.actives change ∧
      (w.nameColumns change).nops = w.actives change ∧
      ((∀ n ∈ s'.names.lst, s'.matchColumn.holds n = true ∧ s'.assignColumn.holds n = true) ∨
        w.showedColumns = true ∧ s' = s) := by
  -- the names that were declared
  obtain ⟨s₁, htold₁, hplain₁, hready₁, hlst₁, hshow₁, hcols₁, hall₁⟩ :
      ∃ s₁, Told flags w.showColumns.result s₁ rows ∧ s₁.Plain ∧
      s₁.needSelector = s.needSelector ∧ s₁.names.lst = known w.columns ∧
      w.showColumns.showedColumns = true ∧ w.showColumns.columns = w.columns ∧
      ((∀ n ∈ s₁.names.lst, s₁.matchColumn.holds n = true ∧ s₁.assignColumn.holds n = true) ∨
        w.showedColumns = true ∧ s₁ = s) := by
    unfold showColumns
    split
    · next hs => exact ⟨s, h, hp, rfl, hnamed.shown hs, hs, rfl, Or.inr ⟨hs, rfl⟩⟩
    · obtain ⟨s₁, hren, htold⟩ :=
        h.nameLine hp (fun n hn => hc n (hnamed.columns.subset hn)) (Or.inl rfl)
      exact ⟨s₁, htold, hren.toPlain, hren.needSelector, hren.lst, rfl,
        (sameRest_clearThroat w).columns,
        Or.inl fun n hn => ⟨hren.matchAll n hn, hren.assignAll n hn⟩⟩
  unfold MergeOutputCsvDiff.nameColumns
  simp only
  rw [if_pos hne]
  unfold linkColumns
  by_cases hcols : w.columns = w.actives change
  · rw [if_neg (by rw [hcols₁]; exact fun h => h hcols)]
    exact ⟨s₁, htold₁, hplain₁, hready₁, hcols ▸ hlst₁, hshow₁, hcols₁.trans hcols, rfl, hall₁⟩
  · rw [if_pos (by rw [hcols₁]; exact hcols)]
    obtain ⟨s₂, hren, htold₂⟩ :=
      htold₁.nameLine hplain₁ (fun n hn => hc n (hactive.subset hn)) (Or.inr rfl)
    exact ⟨s₂, htold₂, hren.toPlain, hren.needSelector.trans hready₁, hren.lst,
      (sameRest_clearThroat _).showedColumns.trans hshow₁, rfl,
      rfl, Or.inl fun n hn => ⟨hren.matchAll n hn, hren.assignAll n hn⟩⟩

theorem get?_of_isSome {m : AssocMap String Bool} {n : String} (h : (m.get? n).isSome = true) :
    m.get? n = some (m.holds n) := by
  obtain ⟨b, hb⟩ := Option.isSome_iff_exists.1 h
  rw [AssocMap.holds, hb]
  rfl

/-- The parser is ready for the line of the row: it knows the columns in use, and what each is
for. -/
structure Ready (names : List String) (w : MergeOutputCsvDiff) (s : CsvPatch) (change : RowChange)
    (w₁ : MergeOutputCsvDiff) (s₁ : CsvPatch) : Prop where
  tracks : Tracks names w₁ s₁
  select : w₁.showForSelect = (w.chooseOps change).showForSelect
  describe : w₁.showForDescribe = (w.chooseOps change).showForDescribe
  actives : w₁.actives change = w.used change
  covers : change.names = names → s₁.names.lst = known (w.used change) ∨ w.used change = []

/-- The row uses the columns as the row before did. -/
theorem ready_of_same (ht : Tracks names w s) (hnames : change.names = names ∨ change.names = [])
    (hops : (change.names.map fun name =>
      opText (shouldMatch w.showForSelect change name)
        (shouldAssign w.showForDescribe change name)) = w.ops) :
    Ready names w s change (w.chooseOps change) s := by
  have hkeys :
      ∀ n, ((w.chooseOps change).showForSelect.get? n).isSome =
      ((w.chooseOps change).showForDescribe.get? n).isSome := by
    intro n
    rw [get?_showForSelect, get?_showForDescribe]
    split
    · rfl
    · rfl
  have hnamed : Named names (w.chooseOps change) s :=
    ⟨ht.named.shown, ht.named.unshown, ht.named.columns⟩
  cases ht.noted with
  | idle hidle hnops hselect hdescribe =>
    -- there are no columns at all
    have hnil : change.names = [] := List.map_eq_nil_iff.1 (hops.trans hidle)
    have hs : ∀ n, (w.chooseOps change).showForSelect.get? n = none := fun n => by
      rw [get?_showForSelect, hnil, if_neg List.not_mem_nil]
    have hd : ∀ n, (w.chooseOps change).showForDescribe.get? n = none := fun n => by
      rw [get?_showForDescribe, hnil, if_neg List.not_mem_nil]
    refine ⟨⟨ht.plain, ht.ready, hnamed, ⟨fun n _ b hb => ?_, fun n _ b hb => ?_⟩, hkeys,
      .idle hidle hnops (fun n b hb => ?_) fun n b hb => ?_⟩, rfl, rfl, actives_eq rfl,
        fun _ => Or.inr ?_⟩
    · rw [hs] at hb; cases hb
    · rw [hd] at hb; cases hb
    · rw [hs] at hb; cases hb
    · rw [hd] at hb; cases hb
    · unfold used
      rw [hnil]
      rfl
  | busy hbusy hsome hall hnops hcolumns =>
    have hM : change.names = names :=
      hnames.resolve_right fun hnil => hsome (by rw [← hops, hnil]; rfl)
    have hroles : ∀ n ∈ names, shouldMatch w.showForSelect change n = w.showForSelect.holds n ∧
        shouldAssign w.showForDescribe change n = w.showForDescribe.holds n := by
      intro n hn
      rw [hM, hbusy] at hops
      exact opText_injective (List.map_inj_left.1 hops n hn)
    have hs : ∀ n ∈ names, (w.chooseOps change).showForSelect.get? n = w.showForSelect.get? n := by
      intro n hn
      rw [get?_showForSelect, hM, if_pos hn, (hroles n hn).1, get?_of_isSome (hall n hn)]
    have hd :
      ∀ n ∈ names, (w.chooseOps change).showForDescribe.get? n = w.showForDescribe.get? n := by
      intro n hn
      rw [get?_showForDescribe, hM, if_pos hn, (hroles n hn).2,
        get?_of_isSome ((ht.keys n).symm.trans (hall n hn))]
    have hused : w.used change = w.nops := by
      unfold used
      rw [hM, hnops]
      exact List.filter_congr fun n hn => by rw [(hroles n hn).1, (hroles n hn).2]
    refine ⟨⟨ht.plain, ht.ready, hnamed, ⟨fun n hn b hb => ?_, fun n hn b hb => ?_⟩, hkeys,
      .busy ?_ hsome (fun n hn => ?_) ?_ hcolumns⟩, rfl, rfl, actives_eq rfl, fun _ => ?_⟩
    · exact ht.marked.select n hn b ((hs n (ht.named.lst_sublist.subset hn)).symm.trans hb)
    · exact ht.marked.describe n hn b ((hd n (ht.named.lst_sublist.subset hn)).symm.trans hb)
    · refine hbusy.trans (List.map_congr_left fun n hn => ?_)
      unfold AssocMap.holds
      rw [hs n hn, hd n hn]
    · rw [hs n hn]
      exact hall n hn
    · refine hnops.trans (List.filter_congr fun n hn => ?_)
      unfold AssocMap.holds
      rw [hs n hn, hd n hn]
    · rw [hused]
      by_cases hnil : w.nops = []
      · exact Or.inr hnil
      · obtain ⟨hshow, hcols⟩ := hcolumns hnil
        exact Or.inl (hcols ▸ ht.named.shown hshow)

/-- The names of the columns in use are known, and noted. -/
structure KnowsNames (names used : List String) (w : MergeOutputCsvDiff) (s : CsvPatch) : Prop where
  plain : s.Plain
  ready : s.needSelector = true
  named : Named names w s
  covers : s.names.lst = known used ∨ used = []
  nops : w.nops = used
  columns : used ≠ [] → w.showedColumns = true ∧ w.columns = used

theorem used_sublist (hnames : change.names = names ∨ change.names = []) :
    (w.used change).Sublist names := by
  unfold used
  rcases hnames with hM | hM
  · exact hM ▸ List.filter_sublist
  · rw [hM]
    exact List.nil_sublist _

/-- The lines for the names of the columns in use, where they are not those in use before. -/
theorem Told.useNames (h : Told flags w.result s rows) (ht : Tracks names w s)
    (hc : ∀ n ∈ names, '\x00' ∉ n.toList)
    (hnames : change.names = names ∨ change.names = []) (lops : List String) :
    ∃ s',
      Told flags
      (({ w.chooseOps change with ops := lops } : MergeOutputCsvDiff).nameColumns change).result s'
      rows ∧ KnowsNames names (w.used change)
        (({ w.chooseOps change with ops := lops } : MergeOutputCsvDiff).nameColumns change) s' ∧
      ((∀ n ∈ s'.names.lst, s'.matchColumn.holds n = true ∧ s'.assignColumn.holds n = true) ∨
        s' = s) := by
  generalize hw₀ : ({ w.chooseOps change with ops := lops } : MergeOutputCsvDiff) = w₀
  have hactives : w₀.actives change = w.used change := actives_eq (by rw [← hw₀])
  have hnops : w₀.nops = w.nops := by rw [← hw₀]; rfl
  have hnamed : Named names w₀ s := by
    rw [← hw₀]
    exact ⟨ht.named.shown, ht.named.unshown, ht.named.columns⟩
  have htold : Told flags w₀.result s rows := by rw [← hw₀]; exact h
  by_cases hne : w.used change = w.nops
  · have hself : w₀.nameColumns change = w₀ := by
      unfold MergeOutputCsvDiff.nameColumns
      simp only
      rw [if_neg (by rw [hactives, hnops]; exact not_not_intro hne)]
    have hcolumns : w.used change ≠ [] → w.showedColumns = true ∧ w.columns = w.used change := by
      intro hnil
      rw [hne] at hnil ⊢
      cases ht.noted with
      | idle _ hidle => exact absurd hidle hnil
      | busy _ _ _ _ hcolumns => exact hcolumns hnil
    rw [hself]
    refine ⟨s, htold, ⟨ht.plain, ht.ready, hnamed, ?_, hnops.trans hne.symm, ?_⟩, Or.inr rfl⟩
    · by_cases hnil : w.used change = []
      · exact Or.inr hnil
      · obtain ⟨hshow, hcols⟩ := hcolumns hnil
        exact Or.inl (hcols ▸ ht.named.shown hshow)
    · rw [← hw₀]
      exact hcolumns
  · obtain ⟨s', htold', hplain, hready, hlst, hshow, hcols, hnops', hmarks⟩ :=
      htold.nameColumns ht.plain hnamed hc
        (hactives ▸ used_sublist hnames) (by rw [hactives, hnops]; exact hne)
    rw [hactives] at hlst hcols hnops'
    exact ⟨s', htold', ⟨hplain, hready.trans ht.ready, ⟨fun _ => hcols ▸ hlst,
      fun hfalse => absurd (hshow.symm.trans hfalse) (by decide),
      hcols ▸ used_sublist hnames⟩, Or.inl hlst, hnops', fun _ => ⟨hshow, hcols⟩⟩,
        hmarks.imp_right And.right⟩

/-- What the columns are for is noted with the names. -/
theorem Ready.of_knowsNames {w' : MergeOutputCsvDiff} {s' : CsvPatch} {lops : List String}
    (hnames : change.names = names ∨ change.names = [])
    (hlops : (change.names.map fun name =>
      opText (shouldMatch w.showForSelect change name)
        (shouldAssign w.showForDescribe change name)) = lops)
    (hk : KnowsNames names (w.used change) w' s') (hops : w'.ops = lops)
    (hactive : w'.activeColumn = (w.chooseOps change).activeColumn)
    (hselect : w'.showForSelect = (w.chooseOps change).showForSelect)
    (hdescribe : w'.showForDescribe = (w.chooseOps change).showForDescribe)
    (hmarks : ∀ n ∈ s'.names.lst, n ∈ change.names →
      s'.matchColumn.holds n = shouldMatch w.showForSelect change n ∧
      s'.assignColumn.holds n = shouldAssign w.showForDescribe change n) :
      Ready names w s change w' s' := by
  have hs : ∀ n, w'.showForSelect.get? n =
      if n ∈ change.names then some (shouldMatch w.showForSelect change n) else none :=
    fun n => by rw [hselect, get?_showForSelect]
  have hd : ∀ n, w'.showForDescribe.get? n =
      if n ∈ change.names then some (shouldAssign w.showForDescribe change n) else none :=
    fun n => by rw [hdescribe, get?_showForDescribe]
  have hmarked : Marked w' s' := by
    refine ⟨fun n hn b hb => ?_, fun n hn b hb => ?_⟩
    · rw [hs] at hb
      split at hb
      · next hmem => exact (hmarks n hn hmem).1.trans (Option.some.inj hb)
      · cases hb
    · rw [hd] at hb
      split at hb
      · next hmem => exact (hmarks n hn hmem).2.trans (Option.some.inj hb)
      · cases hb
  have hnoted : Noted names w' := by
    by_cases hnil : lops = []
    · have hM : change.names = [] := List.map_eq_nil_iff.1 (hlops.trans hnil)
      refine .idle (hops.trans hnil) (hk.nops.trans (by unfold used; rw [hM]; rfl))
        (fun n b hb => ?_) fun n b hb => ?_
      · rw [hs, hM, if_neg List.not_mem_nil] at hb; cases hb
      · rw [hd, hM, if_neg List.not_mem_nil] at hb; cases hb
    · have hM : change.names = names :=
        hnames.resolve_right fun hM => hnil (by rw [← hlops, hM]; rfl)
      have hholds : ∀ n ∈ names, w'.showForSelect.holds n = shouldMatch w.showForSelect change n ∧
          w'.showForDescribe.holds n = shouldAssign w.showForDescribe change n := by
        intro n hn
        unfold AssocMap.holds
        rw [hs, hd, hM, if_pos hn, if_pos hn]
        exact ⟨rfl, rfl⟩
      refine .busy ?_ (hops ▸ hnil) (fun n hn => by rw [hs, hM, if_pos hn]; rfl) ?_ fun hne => ?_
      · rw [hops, ← hlops, hM]
        exact List.map_congr_left fun n hn => by rw [(hholds n hn).1, (hholds n hn).2]
      · rw [hk.nops]
        unfold used
        rw [hM]
        exact List.filter_congr fun n hn => by rw [(hholds n hn).1, (hholds n hn).2]
      · rw [hk.nops] at hne ⊢
        exact hk.columns hne
  have hkeys : ∀ n, (w'.showForSelect.get? n).isSome = (w'.showForDescribe.get? n).isSome := by
    intro n
    rw [hs, hd]
    split
    · rfl
    · rfl
  exact ⟨⟨hk.plain, hk.ready, hk.named, hmarked, hkeys, hnoted⟩, hselect, hdescribe,
    actives_eq hactive, fun _ => hk.covers⟩

/-- Other codes than for the row before, but the same maps: then these were set by the declaration
of the names. -/
theorem all_of_same (ht : Tracks names w s) (hnames : change.names = names ∨ change.names = [])
    (hops : (change.names.map fun name =>
      opText (shouldMatch w.showForSelect change name)
        (shouldAssign w.showForDescribe change name)) ≠ w.ops)
    (hs : (w.chooseOps change).prevSelect.same (w.chooseOps change).showForSelect = true)
    (hd : (w.chooseOps change).prevDescribe.same (w.chooseOps change).showForDescribe = true) :
    ∀ n ∈ change.names, shouldMatch w.showForSelect change n = true ∧
      shouldAssign w.showForDescribe change n = true := by
  intro n hn
  obtain ⟨hbefore, hbefore'⟩ := same_before ht.keys hs hd hn
  cases ht.noted with
  | idle _ _ hselect hdescribe => exact ⟨hselect n _ hbefore, hdescribe n _ hbefore'⟩
  | busy hbusy _ hall _ _ =>
    refine absurd ?_ hops
    have hM : change.names = names := hnames.resolve_right fun hM => by rw [hM] at hn; cases hn
    rw [hbusy, hM]
    refine List.map_congr_left fun n hn => ?_
    obtain ⟨hbefore, hbefore'⟩ := same_before ht.keys hs hd (hM ▸ hn)
    unfold AssocMap.holds
    rw [hbefore, hbefore']
    rfl

/-- The codes of the columns in use. -/
theorem codes_eq {w' : MergeOutputCsvDiff} (f : String → String)
    (hops : w'.ops = change.names.map f) :
    ((change.names.zip w'.ops).filter fun e => w'.activeColumn.holds e.1).map Prod.snd =
    (w'.actives change).map f := by
  rw [hops, ← List.map_prod_left_eq_zip, List.filter_map, List.map_map]
  rfl

/-- The line that says what the columns in use are for. -/
theorem Told.actLine {w' : MergeOutputCsvDiff} {s' : CsvPatch} (h : Told flags w'.result s' rows)
    (hk : KnowsNames names (w.used change) w' s') :
    ∃ s'', Told flags (w'.line (textField "link" :: textField "act" :: ((w.used change).map fun n =>
          opText (shouldMatch w.showForSelect change n)
            (shouldAssign w.showForDescribe change n)).map
            textField)).result s'' rows ∧
      KnowsNames names (w.used change)
        (w'.line (textField "link" :: textField "act" :: ((w.used change).map fun n =>
        opText (shouldMatch w.showForSelect change n) (shouldAssign w.showForDescribe change n)).map
          textField)) s'' ∧
      ∀ n ∈ s''.names.lst, n ∈ change.names →
        s''.matchColumn.holds n = shouldMatch w.showForSelect change n ∧
        s''.assignColumn.holds n = shouldAssign w.showForDescribe change n := by
  -- columns that are known, but not in the row, have no code
  let code : String → String := fun n =>
    if n ∈ change.names then opText (shouldMatch w.showForSelect change n)
      (shouldAssign w.showForDescribe change n)
    else ""
  have hfields : ((w.used change).map fun n =>
      opText (shouldMatch w.showForSelect change n) (shouldAssign w.showForDescribe change n)).map
        textField = (w.used change).map fun n => ⟨code n, false⟩ := by
    rw [List.map_map]
    refine List.map_congr_left fun n hn => ?_
    show textField _ = (⟨if n ∈ change.names then _ else "", false⟩ : SheetCell)
    rw [if_pos (List.mem_filter.1 hn).1]
    rfl
  have hcode : ∀ n ∈ s'.names.lst, n ∉ w.used change → code n = "" := by
    intro n _ hn
    by_cases hmem : n ∈ change.names
    · have hnot := fun h => hn (List.mem_filter.2 ⟨hmem, h⟩)
      exact (if_pos hmem).trans (opText_eq_empty (by simpa using hnot))
    · exact if_neg hmem
  have hcovers : Covers s'.names.lst (w.used change) := by
    rcases hk.covers with hlst | hnil
    · exact Or.inl (hlst ▸ known_begins _)
    · exact Or.inr hnil
  obtain ⟨s'', htakes, hplain, hlst, hready, hholds⟩ := takes_act flags hk.plain hcovers hcode
  have hnul :
    ∀ c ∈ textField "link" :: textField "act" :: (w.used change).map (fun n => (⟨code n, false⟩ : SheetCell)),
      '\x00' ∉ c.text.toList := by
    intro c hc
    rcases List.mem_cons.1 hc with rfl | hc
    · decide
    · rcases List.mem_cons.1 hc with rfl | hc
      · decide
      · obtain ⟨n, hn, rfl⟩ := List.mem_map.1 hc
        show '\x00' ∉ (if n ∈ change.names then _ else "").toList
        rw [if_pos (List.mem_filter.1 hn).1]
        generalize shouldMatch w.showForSelect change n = m
        generalize shouldAssign w.showForDescribe change n = a
        revert m a
        decide
  have htold := h.line hk.plain.configSet hnul htakes
  rw [List.append_nil] at htold
  rw [hfields]
  have hrest :=
    sameRest_line w' (textField "link" :: textField "act" :: (w.used change).map fun n =>
      ⟨code n, false⟩)
  refine ⟨s'', htold, ⟨hplain, hready.trans hk.ready, ⟨?_, ?_, hrest.columns ▸ hk.named.columns⟩,
    hlst ▸ hk.covers, hrest.nops.trans hk.nops, ?_⟩, fun n hn hmem => ?_⟩
  · rw [hrest.showedColumns, hrest.columns, hlst]
    exact hk.named.shown
  · rw [hrest.showedColumns, hlst]
    exact hk.named.unshown
  · rw [hrest.showedColumns, hrest.columns]
    exact hk.columns
  · obtain ⟨hm, ha⟩ := hholds n (hlst ▸ hn)
    have hop : code n = _ := if_pos hmem
    rw [hm, ha, hop]
    exact contains_opText _ _

theorem Told.prepareRow (h : Told flags w.result s rows) (ht : Tracks names w s)
    (hc : ∀ n ∈ names, '\x00' ∉ n.toList) (hnames : change.names = names ∨ change.names = []) :
    ∃ s₁, Told flags (w.prepareRow change).result s₁ rows ∧
    Ready names w s change (w.prepareRow change) s₁ := by
  unfold MergeOutputCsvDiff.prepareRow
  simp only
  by_cases hops : (change.names.map fun name =>
      opText (shouldMatch w.showForSelect change name)
        (shouldAssign w.showForDescribe change name)) = w.ops
  · rw [if_neg (not_not_intro hops)]
    exact ⟨s, h, ready_of_same ht hnames hops⟩
  · rw [if_pos hops]
    obtain ⟨s', htold, hk, hmarks⟩ := h.useNames ht hc hnames (change.names.map fun name =>
      opText (shouldMatch w.showForSelect change name) (shouldAssign w.showForDescribe change name))
    generalize hlops : (change.names.map fun name =>
      opText (shouldMatch w.showForSelect change name)
        (shouldAssign w.showForDescribe change name)) = lops at *
    have hrow := sameRow_nameColumns { w.chooseOps change with ops := lops } change
    generalize hw' :
      ({ w.chooseOps change with ops := lops } : MergeOutputCsvDiff).nameColumns change = w' at *
    unfold operateRow
    rw [hw']
    simp only
    by_cases hsame : w'.prevSelect.same w'.showForSelect = true ∧
      w'.prevDescribe.same w'.showForDescribe = true
    · rw [if_pos hsame]
      refine ⟨s', htold,
        .of_knowsNames hnames hlops hk hrow.ops hrow.activeColumn hrow.showForSelect
        hrow.showForDescribe
        fun n hn hmem => ?_⟩
      have hsame : (w.chooseOps change).prevSelect.same (w.chooseOps change).showForSelect = true ∧
          (w.chooseOps change).prevDescribe.same (w.chooseOps change).showForDescribe = true := by
        rw [hrow.prevSelect, hrow.prevDescribe, hrow.showForSelect, hrow.showForDescribe] at hsame
        exact hsame
      obtain ⟨hm, ha⟩ := all_of_same ht hnames (hlops ▸ hops) hsame.1 hsame.2 n hmem
      obtain ⟨hbefore, hbefore'⟩ := same_before ht.keys hsame.1 hsame.2 hmem
      rcases hmarks with hall | rfl
      · rw [hm, ha]
        exact hall n hn
      · exact ⟨ht.marked.select n hn _ hbefore, ht.marked.describe n hn _ hbefore'⟩
    · rw [if_neg hsame]
      have hactives : w'.actives change = w.used change := actives_eq hrow.activeColumn
      rw [codes_eq _ (hrow.ops.trans hlops.symm), hactives]
      obtain ⟨s'', htold', hk', hcode⟩ := htold.actLine hk
      have hrest :=
        sameRest_line w' (textField (if "act" = "act" then "link" else "row") :: textField "act" ::
        ((w.used change).map fun n =>
          opText (shouldMatch w.showForSelect change n)
            (shouldAssign w.showForDescribe change n)).map textField)
      exact ⟨s'', htold',
        .of_knowsNames hnames hlops hk' (hrest.ops.trans hrow.ops)
        (hrest.activeColumn.trans hrow.activeColumn)
        (hrest.showForSelect.trans hrow.showForSelect)
          (hrest.showForDescribe.trans hrow.showForDescribe) hcode⟩

end

/-! ## The names of a merge -/

/-- Before the first row. -/
structure Declared (names : List String) (w : MergeOutputCsvDiff) (s : CsvPatch) : Prop where
  plain : s.Plain
  ready : s.needSelector = true
  shown : w.showedColumns = true → w.columns = names ∧ s.names.lst = known names
  unshown : w.showedColumns = false → s.names.lst = []
  columns : w.columns.Sublist names
  all : ∀ n ∈ s.names.lst, s.matchColumn.holds n = true ∧ s.assignColumn.holds n = true
  select : ∀ n b, w.showForSelect.get? n = some b → b = true
  describe : ∀ n b, w.showForDescribe.get? n = some b → b = true
  keys : ∀ n, (w.showForSelect.get? n).isSome = (w.showForDescribe.get? n).isSome
  ops : w.ops = []
  nops : w.nops = []

section
variable {flags : CompareFlags} {names : List String} {w : MergeOutputCsvDiff} {s : CsvPatch}
    {rows : List RowChange}

theorem Declared.tracks (h : Declared names w s) : Tracks names w s where
  plain := h.plain
  ready := h.ready
  named := ⟨fun hs => (h.shown hs).1 ▸ (h.shown hs).2, h.unshown, h.columns⟩
  marked := ⟨fun n hn b hb => (h.all n hn).1.trans (h.select n b hb).symm,
    fun n hn b hb => (h.all n hn).2.trans (h.describe n b hb).symm⟩
  keys := h.keys
  noted := .idle h.ops h.nops h.select h.describe

theorem told_changeName (h : Told flags w.result s rows) (hd : Declared names w s)
    (hc : ∀ n ∈ names, '\x00' ∉ n.toList) {change : NameChange} (hnames : change.names = names) :
    ∃ s', Told flags (w.changeName change).result s' rows ∧
    Declared names (w.changeName change) s' := by
  have hset : ∀ {m : AssocMap String Bool}, (∀ n b, m.get? n = some b → b = true) → ∀ n b,
      (m.setAll (fun _ => true) names).get? n = some b → b = true := by
    intro m hm n b hb
    rw [AssocMap.get?_setAll] at hb
    split at hb
    · exact (Option.some.inj hb).symm
    · exact hm n b hb
  have hkeys : ∀ n, ((w.showForSelect.setAll (fun _ => true) names).get? n).isSome =
      ((w.showForDescribe.setAll (fun _ => true) names).get? n).isSome := by
    intro n
    rw [AssocMap.get?_setAll, AssocMap.get?_setAll]
    split
    · rfl
    · exact hd.keys n
  unfold MergeOutputCsvDiff.changeName
  rw [hnames]
  split
  · exact ⟨s, h,
      { hd with shown := fun hs => ⟨rfl, (hd.shown hs).2⟩, columns := List.Sublist.refl _ }⟩
  · simp only
    split
    · exact ⟨s, h, { hd with
        shown := fun hs => ⟨rfl, (hd.shown hs).2⟩
        columns := List.Sublist.refl _
        select := hset hd.select
        describe := hset hd.describe
        keys := hkeys }⟩
    · generalize hw₁ : ({ w with
          activeColumn := AssocMap.setAll (fun _ => true) names []
          showForSelect := w.showForSelect.setAll (fun _ => true) names
          showForDescribe := w.showForDescribe.setAll (fun _ => true) names } :
            MergeOutputCsvDiff) = w₁
      have htold : Told flags w₁.result s rows := by rw [← hw₁]; exact h
      obtain ⟨s', hren, htold'⟩ := htold.nameLine hd.plain hc (Or.inl rfl)
      have hrest := sameRest_line w₁ (textField "column" :: textField "name" :: names.map textField)
      have hselect : w₁.showForSelect = w.showForSelect.setAll (fun _ => true) names := by
        rw [← hw₁]
      have hdescribe : w₁.showForDescribe = w.showForDescribe.setAll (fun _ => true) names := by
        rw [← hw₁]
      have hkeys₁ : ∀ n,
          ((w₁.line
            (textField "column" :: textField "name" :: names.map textField)).showForSelect.get?
              n).isSome =
          ((w₁.line
            (textField "column" :: textField "name" :: names.map textField)).showForDescribe.get?
              n).isSome := by
        intro n
        rw [hrest.showForSelect, hrest.showForDescribe, hselect, hdescribe]
        exact hkeys n
      exact ⟨s', htold', {
        plain := hren.toPlain
        ready := hren.needSelector.trans hd.ready
        shown := fun _ => ⟨rfl, hren.lst⟩
        unshown := fun hs => Bool.noConfusion hs
        columns := List.Sublist.refl _
        all := fun n hn => ⟨hren.matchAll n hn, hren.assignAll n hn⟩
        select := fun n b hb => hset hd.select n b (hselect ▸ hrest.showForSelect ▸ hb)
        describe := fun n b hb => hset hd.describe n b (hdescribe ▸ hrest.showForDescribe ▸ hb)
        keys := hkeys₁
        ops := hrest.ops.trans (by rw [← hw₁]; exact hd.ops)
        nops := hrest.nops.trans (by rw [← hw₁]; exact hd.nops) }⟩

/-- The start of a merge, with its sheet named. -/
theorem told_start (flags : CompareFlags) (sheetName : String) (names : List String) :
    Told flags ((({} : MergeOutputCsvDiff).mergeStart).setSheet sheetName).result {} [] ∧
      Declared names ((({} : MergeOutputCsvDiff).mergeStart).setSheet sheetName) {} := by
  constructor
  · have hempty : Told flags {} {} [] := ⟨⟨rfl, rfl⟩, fun _ _ => ⟨[], Passes.nil _, rfl⟩⟩
    exact hempty.addLine fun _ _ => ⟨[], rfl, rfl⟩
  · exact {
      plain := ⟨rfl, rfl, rfl, rfl, rfl⟩
      ready := rfl
      shown := fun hs => Bool.noConfusion hs
      unshown := fun _ => rfl
      columns := List.nil_sublist _
      all := fun n hn => absurd hn List.not_mem_nil
      select := fun n b hb => absurd hb (Option.some_ne_none b).symm
      describe := fun n b hb => absurd hb (Option.some_ne_none b).symm
      keys := fun _ => rfl
      ops := rfl
      nops := rfl }

theorem told_names (hc : ∀ n ∈ names, '\x00' ∉ n.toList) (declared : List NameChange) :
    ∀ {w : MergeOutputCsvDiff} {s : CsvPatch} {rows : List RowChange}, Told flags w.result s rows →
    Declared names w s →
      (∀ change ∈ declared, change.names = names) →
        ∃ w' s', (declared.map PatchEvent.changeName).foldlM call w = some w' ∧
        Told flags w'.result s' rows ∧ Declared names w' s' := by
  induction declared with
  | nil => exact fun {w s rows} h hd _ => ⟨w, s, rfl, h, hd⟩
  | cons change declared ih =>
    intro w s rows h hd hnames
    obtain ⟨s₁, htold, hd₁⟩ := told_changeName h hd hc (hnames change List.mem_cons_self)
    obtain ⟨w', s', hrun, htold', hd'⟩ :=
      ih htold hd₁ fun c hmem => hnames c (List.mem_cons_of_mem _ hmem)
    exact ⟨w', s', hrun, htold', hd'⟩

end

end CsvDiff

end Coopy
