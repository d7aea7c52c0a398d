import Coopy.CsvDiffFile
import Coopy.CsvDiffRoundTrip

/-!
# The calls that a table diff makes

Where no column comes or goes, the sheet of a table diff begins with the version, the name of the
table and the names of the columns; all other lines are header lines or lines of rows.  So the
parser sets the sheet, declares the names, and then makes one call for each row.

    rows of a report → the sheet is the preamble, and lines of rows below it          (written_rows)
-/

namespace Coopy

open Lib Lib.Transducer MergeOutputCsvDiff

open CsvSheet (Kept AtLine)
open CsvSheetReaderState (readSheet)

namespace CsvDiff

/-! ## Lines -/

/-- The lines above those of the rows. -/
def preamble (sheetName : String) (names : List String) : List (List SheetCell) :=
  ["dtbl", "csv", "version", "0.5"].map textField ::
    (if sheetName = "" then [] else [["table", "name", sheetName].map textField]) ++
    [textField "column" :: textField "name" :: names.map textField]

/-- A line of a row, or a header line for it; what is in it comes back from a file. -/
structure RowLine (row : List SheetCell) : Prop where
  begins : ∃ cmd tag fields, row = textField cmd :: textField tag :: fields ∧
    (cmd = "row" ∨ cmd = "link") ∧ tag ≠ "start" ∧ tag ≠ "etc"
  cells : ∀ c ∈ row, Kept c

theorem kept_preamble {sheetName : String} {names : List String}
    (hsheet : Kept (textField sheetName)) (hnames : ∀ n ∈ names, Kept (textField n)) :
    ∀ row ∈ preamble sheetName names, ∀ c ∈ row, Kept c := by
  refine List.forall_mem_cons.2 ⟨by decide, fun row hrow => ?_⟩
  rcases List.mem_append.1 hrow with hrow | hrow
  · split at hrow
    · cases hrow
    · rw [List.mem_singleton.1 hrow]
      exact List.forall_mem_cons.2
        ⟨by decide, List.forall_mem_cons.2 ⟨by decide, List.forall_mem_singleton.2 hsheet⟩⟩
  · rw [List.mem_singleton.1 hrow]
    refine List.forall_mem_cons.2 ⟨by decide, List.forall_mem_cons.2 ⟨by decide, fun c hc => ?_⟩⟩
    obtain ⟨n, hn, rfl⟩ := List.mem_map.1 hc
    exact hnames n hn

/-- The sheet is begun: its lines are those of the preamble and then lines of rows. -/
structure Started (sheetName : String) (names : List String) (w : MergeOutputCsvDiff) : Prop where
  atLine : w.result.AtLine
  current : w.currentSheetName = w.pendingSheetName
  shown : w.showedColumns = true
  wide : ∀ row ∈ w.result.arr, row.length ≤ w.result.w
  lines : ∃ rest, w.result.arr = preamble sheetName names ++ rest ∧ ∀ row ∈ rest, RowLine row

/-- Nothing but the version is written. -/
structure Unstarted (sheetName : String) (names : List String) (w : MergeOutputCsvDiff) : Prop where
  result : w.result = ({} : CsvSheet).addLine (["dtbl", "csv", "version", "0.5"].map textField)
  current : w.currentSheetName = ""
  pending : w.pendingSheetName = sheetName
  shown : w.showedColumns = false
  columns : w.columns = names
  nops : w.nops = []

section
variable {sheetName : String} {names : List String} {w w' : MergeOutputCsvDiff}

theorem Kept.noNul {c : SheetCell} (h : Kept c) : '\x00' ∉ c.text.toList := by
  have hback := h.2
  unfold comesBack at hback
  simp only [Bool.and_eq_true, Bool.not_eq_true', List.contains_eq_mem,
    decide_eq_false_iff_not] at hback
  exact hback.1.2

theorem kept_stored {fields : List SheetCell} (h : ∀ c ∈ fields, Kept c) :
    fields.map CsvSheet.stored = fields :=
  CsvSheet.map_stored fun c hc => Kept.noNul (h c hc)

theorem wide_addLine {sheet : CsvSheet} (hat : sheet.AtLine)
    (h : ∀ row ∈ sheet.arr, row.length ≤ sheet.w) (fields : List SheetCell) :
    ∀ row ∈ (sheet.addLine fields).arr, row.length ≤ (sheet.addLine fields).w := by
  rw [hat.arr_addLine, hat.w_addLine]
  intro row hrow
  rcases List.mem_append.1 hrow with hrow | hrow
  · exact (h row hrow).trans (Nat.le_max_left _ _)
  · rw [List.mem_singleton.1 hrow, List.length_map]
    exact Nat.le_max_right _ _

/-- The writer has kept its sheet. -/
theorem Started.same (h : Started sheetName names w) (hresult : w'.result = w.result)
    (hcurrent : w'.currentSheetName = w.currentSheetName)
    (hpending : w'.pendingSheetName = w.pendingSheetName)
    (hshown : w'.showedColumns = w.showedColumns) : Started sheetName names w' where
  atLine := hresult ▸ h.atLine
  current := by rw [hcurrent, hpending, h.current]
  shown := hshown.trans h.shown
  wide := by rw [hresult]; exact h.wide
  lines := by rw [hresult]; exact h.lines

theorem Started.clearThroat (h : Started sheetName names w) : w.clearThroat = w := by
  unfold MergeOutputCsvDiff.clearThroat
  rw [if_neg (not_not_intro h.current)]

/-- One line more. -/
theorem Started.line (h : Started sheetName names w) {fields : List SheetCell}
    (hline : RowLine fields) : Started sheetName names (w.line fields) := by
  obtain ⟨rest, harr, hrest⟩ := h.lines
  unfold MergeOutputCsvDiff.line
  rw [h.clearThroat]
  refine ⟨CsvSheet.atLine_addLine _, h.current, h.shown, wide_addLine h.atLine h.wide _,
    rest ++ [fields], ?_, ?_⟩
  · show (w.result.addLine fields).arr = _
    rw [h.atLine.arr_addLine, kept_stored hline.cells, harr, List.append_assoc]
  · intro row hrow
    rcases List.mem_append.1 hrow with hrow | hrow
    · exact hrest row hrow
    · exact List.mem_singleton.1 hrow ▸ hline

/-- The line for the names of all columns, with the name of the table in front. -/
theorem Unstarted.showColumns (h : Unstarted sheetName names w)
    (hsheet : Kept (textField sheetName))
    (hnames : ∀ n ∈ names, Kept (textField n)) : Started sheetName names w.showColumns := by
  have hfields : ∀ c ∈ textField "column" :: textField "name" :: names.map textField, Kept c := by
    intro c hc
    rcases List.mem_cons.1 hc with rfl | hc
    · decide
    rcases List.mem_cons.1 hc with rfl | hc
    · decide
    obtain ⟨n, hn, rfl⟩ := List.mem_map.1 hc
    exact hnames n hn
  have htable : ∀ c ∈ [textField "table", textField "name", textField sheetName], Kept c :=
    List.forall_mem_cons.2
      ⟨by decide, List.forall_mem_cons.2 ⟨by decide, List.forall_mem_singleton.2 hsheet⟩⟩
  have hat : w.result.AtLine := h.result ▸ CsvSheet.atLine_addLine _
  have harr : w.result.arr = [["dtbl", "csv", "version", "0.5"].map textField] := by
    rw [h.result]
    decide
  have hwide : ∀ row ∈ w.result.arr, row.length ≤ w.result.w := by
    rw [h.result]
    decide
  unfold MergeOutputCsvDiff.showColumns
  rw [if_neg (by rw [h.shown]; decide), h.columns]
  unfold MergeOutputCsvDiff.line MergeOutputCsvDiff.clearThroat
  by_cases hempty : sheetName = ""
  · rw [if_neg (by rw [h.current, h.pending]; exact not_not_intro hempty.symm)]
    refine ⟨CsvSheet.atLine_addLine
      _, by rw [h.current, h.pending, hempty], rfl, wide_addLine hat hwide _, [], ?_,
      fun row hrow => absurd hrow List.not_mem_nil⟩
    show (w.result.addLine _).arr = _
    rw [hat.arr_addLine, kept_stored hfields, harr, List.append_nil]
    unfold preamble
    rw [if_pos hempty]
  · rw [if_pos (by rw [h.current, h.pending]; exact fun he => hempty he.symm), h.pending]
    refine ⟨CsvSheet.atLine_addLine _, rfl, rfl,
      wide_addLine (CsvSheet.atLine_addLine _) (wide_addLine hat hwide _) _, [], ?_,
      fun row hrow => absurd hrow List.not_mem_nil⟩
    show ((w.result.addLine _).addLine _).arr = _
    rw [(CsvSheet.atLine_addLine _).arr_addLine, hat.arr_addLine, kept_stored hfields,
      kept_stored htable, harr, List.append_nil]
    unfold preamble
    rw [if_neg hempty]
    rfl

/-! ## The lines of a row -/

/-- A change of which everything is kept, and that uses the columns. -/
structure Written (names : List String) (change : RowChange) : Prop where
  mode : change.mode ≠ .none
  columns : change.names = names
  blank : change.mode = .context → change.cond ≠ []
  uses : ∃ n ∈ names, change.mode = .insert ∨ change.mode = .delete ∨ matched change n = true ∨
    change.val.contains n = true
  cells : ∀ e ∈ change.cond ++ change.val, Kept e.2

variable {change : RowChange}

theorem rowLine_link (tag : String) (htag : Kept (textField tag) ∧ tag ≠ "start" ∧ tag ≠ "etc")
    {xs : List String} (hxs : ∀ x ∈ xs, Kept (textField x)) :
    RowLine (textField "link" :: textField tag :: xs.map textField) := by
  refine ⟨⟨"link", tag, _, rfl, Or.inr rfl, htag.2⟩, fun c hc => ?_⟩
  rcases List.mem_cons.1 hc with rfl | hc
  · decide
  rcases List.mem_cons.1 hc with rfl | hc
  · exact htag.1
  obtain ⟨x, hx, rfl⟩ := List.mem_map.1 hc
  exact hxs x hx

theorem kept_opText (m a : Bool) : Kept (textField (opText m a)) := by
  revert m a
  decide

section
variable (hnames : ∀ n ∈ names, Kept (textField n))

include hnames

theorem Started.linkColumns (h : Started sheetName names w) {lnops : List String}
    (hsub : ∀ n ∈ lnops, n ∈ names) : Started sheetName names (w.linkColumns lnops) := by
  unfold MergeOutputCsvDiff.linkColumns
  split
  · have hline := h.line (rowLine_link "name" (by decide) fun n hn => hnames n (hsub n hn))
    exact hline.same rfl rfl rfl rfl
  · exact h

/-- The lines for the names of the columns in use. -/
theorem Started.nameColumns (h : Started sheetName names w) (hcols : change.names = names) :
    Started sheetName names (w.nameColumns change) := by
  have hsub : ∀ n ∈ w.actives change, n ∈ names := fun n hn => hcols ▸ (List.mem_filter.1 hn).1
  have hshow : w.showColumns = w := by
    unfold MergeOutputCsvDiff.showColumns
    rw [if_pos h.shown]
  unfold MergeOutputCsvDiff.nameColumns
  simp only [hshow]
  split
  · exact (h.linkColumns hnames hsub).same rfl rfl rfl rfl
  · exact h

theorem Unstarted.nameColumns (h : Unstarted sheetName names w)
    (hsheet : Kept (textField sheetName))
    (hcols : change.names = names) (hused : w.actives change ≠ []) :
    Started sheetName names (w.nameColumns change) := by
  have hsub : ∀ n ∈ w.actives change, n ∈ names := fun n hn => hcols ▸ (List.mem_filter.1 hn).1
  unfold MergeOutputCsvDiff.nameColumns
  simp only
  rw [if_pos (by rw [h.nops]; exact hused)]
  exact ((h.showColumns hsheet hnames).linkColumns hnames hsub).same rfl rfl rfl rfl

omit hnames in
/-- The line for what the columns are for. -/
theorem Started.operateRow (h : Started sheetName names (w.nameColumns change))
    (hops : ∀ op ∈ w.ops, Kept (textField op)) :
    Started sheetName names (w.operateRow change "act") := by
  unfold MergeOutputCsvDiff.operateRow
  simp only
  split
  · exact h
  · refine h.line (rowLine_link "act" (by decide) fun op hop => hops op ?_)
    obtain ⟨e, he, rfl⟩ := List.mem_map.1 hop
    have hmem := (List.of_mem_zip (List.mem_filter.1 he).1).2
    rwa [(sameRow_nameColumns w change).ops] at hmem

/-- What comes before the line of a row. -/
theorem Started.prepareRow (h : Started sheetName names w) (hcols : change.names = names) :
    Started sheetName names (w.prepareRow change) := by
  have hchoose : Started sheetName names (w.chooseOps change) := h.same rfl rfl rfl rfl
  unfold MergeOutputCsvDiff.prepareRow
  simp only
  split
  · refine Started.operateRow (Started.nameColumns hnames (hchoose.same rfl rfl rfl rfl) hcols)
      fun op hop => ?_
    obtain ⟨n, -, rfl⟩ := List.mem_map.1 hop
    exact kept_opText _ _
  · exact hchoose

theorem Unstarted.prepareRow (h : Unstarted sheetName names w) (hops : w.ops = [])
    (hsheet : Kept (textField sheetName))
    (hcols : change.names = names) (hused : w.used change ≠ []) :
    Started sheetName names (w.prepareRow change) := by
  have hne : change.names ≠ [] := by
    intro hnil
    unfold used at hused
    rw [hnil] at hused
    exact hused rfl
  unfold MergeOutputCsvDiff.prepareRow
  simp only
  rw [if_pos (by rw [hops]; exact fun he => hne (List.map_eq_nil_iff.1 he))]
  refine Started.operateRow
    (Unstarted.nameColumns hnames ⟨h.result, h.current, h.pending, h.shown, h.columns, h.nops⟩
    hsheet hcols ?_) fun op hop => ?_
  · exact fun hnil => hused ((actives_eq rfl).symm.trans hnil)
  · obtain ⟨n, -, rfl⟩ := List.mem_map.1 hop
    exact kept_opText _ _

end

/-- What is shown of a column is empty, or its condition or its value. -/
theorem mem_fieldsOf {select update : Bool} {n : String} {c : SheetCell}
    (h : c ∈ w.fieldsOf change select update n) :
    c = textField "" ∨ change.cond.get? n = some c ∨ change.val.get? n = some c := by
  have hpick : ∀ {on : Bool} {m : Option SheetCell}, c ∈ (if on then m.toList else []) →
    m = some c := by
    intro on m hc
    split at hc
    · exact Option.mem_toList.1 hc
    · cases hc
  have hblank : ∀ {cells : List SheetCell}, c ∈ (if cells.isEmpty then [textField ""] else cells) →
      c = textField "" ∨ c ∈ cells := by
    intro cells hc
    split at hc
    · exact Or.inl (List.mem_singleton.1 hc)
    · exact Or.inr hc
  rcases hblank h with rfl | hc
  · exact Or.inl rfl
  · exact Or.inr ((List.mem_append.1 hc).imp hpick hpick)

/-- The line of a row. -/
theorem Started.updateRow (h : Started sheetName names w)
    (hcells : ∀ e ∈ change.cond ++ change.val, Kept e.2)
    {tag : String} (htag : Kept (textField tag) ∧ tag ≠ "start" ∧ tag ≠ "etc")
    (select update practice : Bool) :
    Started sheetName names (w.updateRow change tag select update practice).1 := by
  unfold MergeOutputCsvDiff.updateRow
  simp only
  split
  · exact h
  refine h.line ⟨⟨"row", tag, _, rfl, Or.inl rfl, htag.2⟩, fun c hc => ?_⟩
  rcases List.mem_cons.1 hc with rfl | hc
  · decide
  rcases List.mem_cons.1 hc with rfl | hc
  · exact htag.1
  obtain ⟨cells, hmem, hc⟩ := List.mem_flatten.1 hc
  obtain ⟨n, -, rfl⟩ := List.mem_map.1 hmem
  rcases mem_fieldsOf hc with rfl | hc | hc
  · decide
  · exact hcells (n, c) (List.mem_append_left _ (AssocMap.mem_of_get? hc))
  · exact hcells (n, c) (List.mem_append_right _ (AssocMap.mem_of_get? hc))

theorem Started.updateLines (h : Started sheetName names w)
    (hcells : ∀ e ∈ change.cond ++ change.val, Kept e.2)
    {tag : String} (htag : Kept (textField tag) ∧ tag ≠ "start" ∧ tag ≠ "etc") :
    Started sheetName names (w.updateLines change tag) := by
  unfold MergeOutputCsvDiff.updateLines
  simp only
  split
  · exact h.updateRow hcells htag true true false
  · have hselect : Kept (textField "select") ∧ "select" ≠ "start" ∧ "select" ≠ "etc" := by decide
    exact (h.updateRow hcells hselect true false false).updateRow hcells htag false true false

/-- The lines of a row, when those that come before them are written. -/
theorem Started.rowLines (h : Started sheetName names (w.prepareRow change))
    (hw : Written names change) :
    ∃ w', w.changeRow change = some w' ∧ Started sheetName names w' := by
  unfold MergeOutputCsvDiff.changeRow
  simp only
  cases hmode : change.mode with
  | none => exact absurd hmode hw.mode
  | delete => exact ⟨_, rfl, h.updateRow hw.cells (by decide) true false false⟩
  | insert => exact ⟨_, rfl, h.updateRow hw.cells (by decide) false true false⟩
  | update => exact ⟨_, rfl, h.updateLines hw.cells (by decide)⟩
  | context =>
    refine ⟨_, rfl, ?_⟩
    rw [if_pos (List.length_pos_iff.2 (hw.blank hmode))]
    exact h.updateRow hw.cells (by decide) true false false
  | move => exact ⟨_, rfl, h.updateLines hw.cells (by decide)⟩

theorem Written.used_ne_nil (h : Written names change) (w : MergeOutputCsvDiff) :
    w.used change ≠ [] := by
  obtain ⟨n, hn, huse⟩ := h.uses
  refine List.ne_nil_of_mem (a := n) (List.mem_filter.2 ⟨h.columns.symm ▸ hn, ?_⟩)
  unfold shouldMatch shouldAssign
  unfold matched at huse
  cases hmode : change.mode <;> rw [hmode] at huse <;> simp at huse ⊢ <;> tauto

/-- **One row.** -/
theorem Started.changeRow (h : Started sheetName names w) (hnames : ∀ n ∈ names, Kept (textField n))
    (hw : Written names change) : ∃ w', w.changeRow change = some w' ∧ Started sheetName names w' :=
  (h.prepareRow hnames hw.columns).rowLines hw

/-- **The rows of a report.** -/
theorem Started.changeRows (hnames : ∀ n ∈ names, Kept (textField n)) (changes : List RowChange) :
    ∀ {w : MergeOutputCsvDiff}, Started sheetName names w → (∀ r ∈ changes, Written names r) →
      ∃ w', (changes.map PatchEvent.changeRow).foldlM call w = some w' ∧
      Started sheetName names w' := by
  induction changes with
  | nil => exact fun {w} h _ => ⟨w, rfl, h⟩
  | cons change changes ih =>
    intro w h hw
    obtain ⟨w₁, hrow, h₁⟩ := h.changeRow hnames (hw change List.mem_cons_self)
    obtain ⟨w', hrun, h'⟩ := ih h₁ fun r hr => hw r (List.mem_cons_of_mem _ hr)
    refine ⟨w', ?_, h'⟩
    rw [List.map_cons, List.foldlM_cons]
    show (w.changeRow change).bind _ = _
    rw [hrow]
    exact hrun

/-- The names of columns that stay as they are write nothing. -/
theorem Unstarted.changeName {columns : List String} (h : Unstarted sheetName columns w)
    {d : NameChange} (hconst : d.constant = true) : Unstarted sheetName d.names (w.changeName d) ∧
    (w.changeName d).ops = w.ops := by
  unfold MergeOutputCsvDiff.changeName
  split
  · exact ⟨⟨h.result, h.current, h.pending, h.shown, rfl, h.nops⟩, rfl⟩
  · exact ⟨⟨h.result, h.current, h.pending, h.shown, rfl, h.nops⟩, rfl⟩

theorem Unstarted.changeNames (declared : List NameChange) :
    ∀ {w : MergeOutputCsvDiff}, Unstarted sheetName names w →
    w.ops = [] → (∀ d ∈ declared, d.constant = true ∧ d.names = names) →
      ∃ w', (declared.map PatchEvent.changeName).foldlM call w = some w' ∧
      Unstarted sheetName names w' ∧ w'.ops = [] := by
  induction declared with
  | nil => exact fun {w} h hops _ => ⟨w, rfl, h, hops⟩
  | cons d declared ih =>
    intro w h hops hd
    obtain ⟨hconst, hnames⟩ := hd d List.mem_cons_self
    obtain ⟨hstep, hkept⟩ := h.changeName hconst
    rw [hnames] at hstep
    exact ih hstep (hkept.trans hops) fun c hc => hd c (List.mem_cons_of_mem _ hc)

/-- **The sheet of a report.**  The lines of the rows stand below the preamble. -/
theorem written_rows (hsheet : Kept (textField sheetName))
    (hnames : ∀ n ∈ names, Kept (textField n))
    {d : NameChange} {declared : List NameChange} (hd : ∀ c ∈ d :: declared, c.constant = true ∧
      c.names = names)
    {change : RowChange} {changes : List RowChange}
    (hw : ∀ r ∈ change :: changes, Written names r) :
    ∃ w', ((d :: declared).map PatchEvent.changeName ++
      (change :: changes).map PatchEvent.changeRow).foldlM call
        ((({} : MergeOutputCsvDiff).mergeStart).setSheet sheetName) = some w' ∧
          Started sheetName names w' := by
  have hstart :
    Unstarted sheetName [] ((({} : MergeOutputCsvDiff).mergeStart).setSheet sheetName) :=
    ⟨rfl, rfl, rfl, rfl, rfl, rfl⟩
  obtain ⟨hconst, hnamesd⟩ := hd d List.mem_cons_self
  obtain ⟨h₁, hops₁⟩ := hstart.changeName hconst
  rw [hnamesd] at h₁
  obtain ⟨w₂, hrun₂, h₂, hops₂⟩ := h₁.changeNames declared hops₁ fun c hc =>
    hd c (List.mem_cons_of_mem _ hc)
  have hfirst := hw change List.mem_cons_self
  obtain ⟨w₃, hrow, h₃⟩ :=
    (h₂.prepareRow hnames hops₂ hsheet hfirst.columns (hfirst.used_ne_nil w₂)).rowLines hfirst
  obtain ⟨w', hrun, h'⟩ := h₃.changeRows hnames changes fun r hr => hw r (List.mem_cons_of_mem _ hr)
  refine ⟨w', ?_, h'⟩
  rw [List.foldlM_append]
  show ((declared.map PatchEvent.changeName).foldlM call _).bind _ = _
  rw [hrun₂]
  show (w₂.changeRow change).bind _ = _
  rw [hrow]
  exact hrun

end

/-! ## The calls -/

/-- The parser below the preamble. -/
structure Below (names : List String) (s : CsvPatch) : Prop where
  allNames : s.allNames = names
  sequential : s.sequential = true
  configSet : s.configSet = false

/-- A change that the patcher reads as it stands. -/
structure Heard (names : List String) (r : RowChange) : Prop where
  allNames : r.allNames = names
  sequential : r.sequential = true
  unconflicted : r.conflicted = false
  cond_nodup : r.cond.keys.Nodup
  val_nodup : r.val.keys.Nodup

section
variable {names : List String} {s s' : CsvPatch} {flags : CompareFlags} {width : Nat}
    {row : List SheetCell}
  {calls : List PatcherCall}

theorem nodup_keyed (s : CsvPatch) (data : List SheetCell) (on : AssocMap String Bool) :
    (s.keyed data on).keys.Nodup := by
  unfold CsvPatch.keyed
  exact List.foldlRecOn (motive := fun m : AssocMap String SheetCell => m.keys.Nodup) _ _
    List.nodup_nil
    fun m hm e _ => AssocMap.nodup_keys_set hm _ _

/-- A line that says what the columns are for, or begins no row, is not heard of. -/
theorem Below.actLine (h : Below names s) {data : List SheetCell}
    (hr : s.actLine data = some (calls, s')) : Below names s' ∧ calls = [] := by
  unfold CsvPatch.actLine at hr
  split at hr
  · cases hr
    exact ⟨⟨h.allNames, h.sequential, h.configSet⟩, rfl⟩
  · cases hr

theorem Below.assignLine (h : Below names s) {mode : RowChangeMode} {allowed : Bool}
    {data : List SheetCell} (hr : s.assignLine mode allowed data = some (calls, s')) :
    Below names s' ∧ ∀ call ∈ calls, ∃ r, call = .changeRow r ∧ Heard names r := by
  unfold CsvPatch.assignLine at hr
  simp only at hr
  split at hr
  · cases hr
    refine ⟨⟨h.allNames, rfl, h.configSet⟩, fun call hcall => ?_⟩
    split at hcall
    · exact ⟨_, List.mem_singleton.1 hcall, h.allNames, h.sequential, rfl, nodup_keyed _ _ _,
        nodup_keyed _ _ _⟩
    · cases hcall
  · cases hr

theorem Below.insertLine (h : Below names s) {data : List SheetCell}
    (hr : s.insertLine flags data = some (calls, s')) :
    Below names s' ∧ ∀ call ∈ calls, ∃ r, call = .changeRow r ∧ Heard names r := by
  unfold CsvPatch.insertLine at hr
  simp only at hr
  split at hr
  · cases hr
    refine ⟨⟨h.allNames, rfl, h.configSet⟩, fun call hcall => ?_⟩
    split at hcall
    · exact ⟨_, List.mem_singleton.1 hcall, h.allNames, h.sequential, rfl, List.nodup_nil,
        nodup_keyed _ _ _⟩
    · cases hcall
  · cases hr

theorem Below.deleteLine (h : Below names s) {data : List SheetCell}
    (hr : s.deleteLine flags data = some (calls, s')) :
    Below names s' ∧ ∀ call ∈ calls, ∃ r, call = .changeRow r ∧ Heard names r := by
  unfold CsvPatch.deleteLine at hr
  simp only at hr
  split at hr
  · cases hr
    refine ⟨⟨h.allNames, rfl, h.configSet⟩, fun call hcall => ?_⟩
    split at hcall
    · exact ⟨_, List.mem_singleton.1 hcall, h.allNames, h.sequential, rfl, nodup_keyed _ _ _,
        List.nodup_nil⟩
    · cases hcall
  · cases hr

theorem Below.afterLine (h : Below names s) {data : List SheetCell}
    (hr : s.afterLine data = some (calls, s')) :
    Below names s' ∧ ∀ call ∈ calls, ∃ r, call = .changeRow r ∧ Heard names r := by
  unfold CsvPatch.afterLine at hr
  split at hr
  · cases hr
    exact ⟨⟨h.allNames, rfl, h.configSet⟩, fun call hcall =>
      ⟨_, List.mem_singleton.1 hcall, h.allNames, h.sequential, rfl, nodup_keyed _ _ _,
        List.nodup_nil⟩⟩
  · cases hr

/-- **One line.** -/
theorem Below.rowLine (h : Below names s) {tag : String} (htag : tag ≠ "start" ∧ tag ≠ "etc")
    (hr : s.rowLine flags width row tag = some (calls, s')) :
    Below names s' ∧ ∀ call ∈ calls, ∃ r, call = .changeRow r ∧ Heard names r := by
  unfold CsvPatch.rowLine at hr
  simp only at hr
  split at hr
  · cases hr
    exact ⟨⟨h.allNames, h.sequential, h.configSet⟩, List.forall_mem_nil _⟩
  · cases hr
    exact ⟨⟨h.allNames, h.sequential, h.configSet⟩, List.forall_mem_nil _⟩
  · obtain ⟨hbelow, rfl⟩ := h.actLine hr
    exact ⟨hbelow, List.forall_mem_nil _⟩
  · obtain ⟨hbelow, rfl⟩ := h.actLine hr
    exact ⟨hbelow, List.forall_mem_nil _⟩
  · cases hr
    exact ⟨⟨h.allNames, rfl, h.configSet⟩, List.forall_mem_nil _⟩
  · cases hr
    exact ⟨⟨h.allNames, rfl, h.configSet⟩, List.forall_mem_nil _⟩
  · exact absurd rfl htag.1
  · exact h.afterLine hr
  · exact h.assignLine hr
  · exact absurd rfl htag.2
  · exact h.assignLine hr
  · exact h.assignLine hr
  · exact h.insertLine hr
  · exact h.deleteLine hr
  · cases hr
    exact ⟨⟨h.allNames, h.sequential, h.configSet⟩, List.forall_mem_nil _⟩

theorem Below.readLine (h : Below names s) (hrow : RowLine row)
    (hr : s.readLine flags width row = some (calls, s')) :
    Below names s' ∧ ∀ call ∈ calls, ∃ r, call = .changeRow r ∧ Heard names r := by
  obtain ⟨cmd, tag, fields, rfl, hcmd, htag⟩ := hrow.begins
  unfold textField at hr
  rw [CsvPatch.readLine_tag h.configSet hcmd] at hr
  exact h.rowLine htag hr

/-- **All lines below the preamble.** -/
theorem Below.run {rows : List (List SheetCell)} (hrows : ∀ row ∈ rows, RowLine row) :
    ∀ {s s' : CsvPatch} {calls : List PatcherCall}, Below names s →
      Passes (CsvPatch.step flags width) (some s) rows calls (some s') →
      ∀ call ∈ calls, ∃ r, call = .changeRow r ∧ Heard names r := by
  induction rows with
  | nil =>
    intro s s' calls _ hpass
    obtain ⟨rfl, -⟩ := Prod.mk.inj hpass.run_eq
    exact List.forall_mem_nil _
  | cons row rows ih =>
    intro s s' calls h hpass
    have hrun := hpass.run_eq
    rw [run_cons] at hrun
    cases hline : s.readLine flags width row with
    | none =>
      rw [CsvPatch.step_ended hline, CsvPatch.run_none] at hrun
      cases hrun
    | some r =>
      obtain ⟨hbelow, hcalls⟩ := h.readLine (hrows row List.mem_cons_self) hline
      rw [CsvPatch.step_read hline] at hrun
      obtain ⟨rfl, hlast⟩ := Prod.mk.inj hrun
      have hrest :=
        ih (fun row' hrow => hrows row' (List.mem_cons_of_mem _ hrow)) hbelow (Prod.ext rfl hlast)
      exact fun call hcall => (List.mem_append.1 hcall).elim (hcalls call) (hrest call)

theorem map_changeRow {calls : List PatcherCall} (h : ∀ call ∈ calls, ∃ r, call = .changeRow r ∧
    Heard names r) : calls = (calls.filterMap PatcherCall.row?).map PatcherCall.changeRow ∧
      ∀ r ∈ calls.filterMap PatcherCall.row?, Heard names r := by
  induction calls with
  | nil => exact ⟨rfl, List.forall_mem_nil _⟩
  | cons call calls ih =>
    obtain ⟨r, rfl, hr⟩ := h call List.mem_cons_self
    obtain ⟨heq, hrest⟩ := ih fun c hc => h c (List.mem_cons_of_mem _ hc)
    have hmap : (PatcherCall.changeRow r :: calls).filterMap PatcherCall.row? = r ::
      calls.filterMap PatcherCall.row? := List.filterMap_cons_some rfl
    rw [hmap]
    exact ⟨congrArg _ heq, List.forall_mem_cons.2 ⟨hr, hrest⟩⟩

/-- What the patcher is told before the rows. -/
def opening (sheetName : String) (names : List String) : List PatcherCall :=
  (if sheetName = "" then [] else [.setSheet sheetName]) ++ [.changeName ⟨false, false, names⟩]

theorem read_preamble {sheetName : String} (hblank : "" ∉ names) (hw : names.length + 2 ≤ width) :
    ∃ s, Passes (CsvPatch.step flags width) (some {}) (preamble sheetName names)
    (opening sheetName names) (some s) ∧
      Below names s := by
  have hversion :
    Passes (CsvPatch.step flags width) (some {}) [["dtbl", "csv", "version", "0.5"].map textField]
    []
      (some {}) := rfl
  have htable : Passes (CsvPatch.step flags width) (some {})
      (if sheetName = "" then [] else [["table", "name", sheetName].map textField])
      (if sheetName = "" then [] else [.setSheet sheetName]) (some {}) := by
    split
    · rfl
    · rfl
  have hknown : CsvPatch.known names = names :=
    List.takeWhile_eq_self_iff.2 fun n hn => decide_eq_true fun he => hblank (he ▸ hn)
  have hcolumn := CsvPatch.readNames_eq hw (textField "column") (textField "name")
  rw [hknown] at hcolumn
  have hline :
    CsvPatch.step flags width (some {})
    (textField "column" :: textField "name" :: names.map textField) =
      ([.changeName ⟨false, false, names⟩], some {
        names := PatchColumnNames.read names
        len := names.length
        allNames := names
        matchColumn := AssocMap.setAll (fun _ => true) names []
        assignColumn := AssocMap.setAll (fun _ => true) names [] }) := by
    unfold CsvPatch.step CsvPatch.readLine CsvPatch.columnLine
    unfold textField at hcolumn ⊢
    simp only [List.getElem?_cons_zero, List.getElem?_cons_succ, Option.map_some, hcolumn,
      Bool.false_eq_true, false_and, and_false, if_false]
    rfl
  have hnames :
    Passes (CsvPatch.step flags width) (some {})
    [textField "column" :: textField "name" :: names.map textField]
      [.changeName ⟨false, false, names⟩] _ := Passes.cons hline (Passes.nil _)
  exact ⟨_, hversion.append (htable.append hnames), rfl, rfl, rfl⟩

/-- What the patcher is told of the rows; the preamble is there if there is a row. -/
def spoken (begun : Bool) (sheetName : String) (names : List String) (rows : List RowChange) :
    List PatcherCall :=
  .mergeStart ::
  ((if begun then opening sheetName names else []) ++ rows.map PatcherCall.changeRow) ++
    [.mergeDone, .mergeAllDone]

theorem rows_opening (sheetName : String) (names : List String) :
    (opening sheetName names).filterMap PatcherCall.row? = [] := by
  unfold opening
  split
  · rfl
  · rfl

theorem rows_spoken {sheetName : String} {made : List PatcherCall} :
    (PatcherCall.mergeStart :: (opening sheetName names ++ made) ++
      [PatcherCall.mergeDone, .mergeAllDone]).filterMap
        PatcherCall.row? =
      made.filterMap PatcherCall.row? := by
  rw [List.cons_append, List.filterMap_cons_none rfl, List.filterMap_append, List.filterMap_append,
    rows_opening, List.nil_append]
  exact List.append_nil _

/-- The calls for a sheet that is begun. -/
theorem Started.calls_eq {sheetName : String} {w : MergeOutputCsvDiff}
    (h : Started sheetName names w) (hblank : "" ∉ names)
    (hr : applyCsv flags w.result = some calls) :
    calls = spoken true sheetName names (calls.filterMap PatcherCall.row?) ∧
      ∀ r ∈ calls.filterMap PatcherCall.row?, Heard names r := by
  obtain ⟨rest, harr, hrest⟩ := h.lines
  have hwidth : names.length + 2 ≤ w.result.w := by
    have hcolumn := h.wide (textField "column" :: textField "name" :: names.map textField) (by
      rw [harr]
      exact List.mem_append_left _
        (List.mem_cons_of_mem _ (List.mem_append_right _ (List.mem_singleton_self _))))
    rwa [List.length_cons, List.length_cons, List.length_map] at hcolumn
  obtain ⟨s, hpass, hbelow⟩ := @read_preamble names flags w.result.w sheetName hblank hwidth
  unfold applyCsv at hr
  rw [harr, run_append, hpass.run_eq] at hr
  cases hrun : (CsvPatch.step flags w.result.w).run rest (some s) with
  | mk made last =>
    rw [hrun] at hr
    cases last with
    | none => cases hr
    | some s' =>
      obtain rfl : _ = calls := Option.some.inj hr
      obtain ⟨hmade, hheard⟩ := map_changeRow (hbelow.run hrest hrun)
      rw [rows_spoken]
      refine ⟨?_, hheard⟩
      unfold spoken
      rw [← hmade]
      rfl

end

/-! ## A report that goes through a file -/

theorem run_mergeDone (sheetName : String) (events : List PatchEvent) :
    MergeOutputCsvDiff.run sheetName (events ++ [.mergeDone]) =
    MergeOutputCsvDiff.run sheetName events := by
  unfold MergeOutputCsvDiff.run
  rw [List.foldlM_append]
  cases events.foldlM call ((({} : MergeOutputCsvDiff).mergeStart).setSheet sheetName) with
  | none => rfl
  | some w => rfl

theorem forall₂_and {α β : Type} {R : α → β → Prop} {P : β → Prop} {xs : List α} {ys : List β}
    (h : List.Forall₂ R xs ys)
    (hP : ∀ y ∈ ys, P y) : List.Forall₂ (fun x y => R x y ∧ P y) xs ys := by
  induction h with
  | nil => exact .nil
  | cons hxy _ ih =>
    exact .cons ⟨hxy, hP _ List.mem_cons_self⟩ (ih fun y hy => hP y (List.mem_cons_of_mem _ hy))

/-- A report whose sheet comes back from a file. -/
structure Filed (p : RowReport) : Prop where
  named : "" ∉ p.names
  sheet : Kept (textField p.sheetName)
  names : ∀ n ∈ p.names, Kept (textField n)
  declares : p.declared ≠ []
  constant : ∀ d ∈ p.declared, d.constant = true
  written : ∀ r ∈ p.rows, Written p.names r

/-- The sheet of a report without rows. -/
theorem Filed.silent {p : RowReport} (h : Filed p) (hrows : p.rows = []) :
    MergeOutputCsvDiff.run p.sheetName p.events =
      some (({} : CsvSheet).addLine (["dtbl", "csv", "version", "0.5"].map textField)) := by
  obtain ⟨d, declared, hdeclared⟩ := List.exists_cons_of_ne_nil h.declares
  have hd : ∀ c ∈ d :: declared, c.constant = true ∧ c.names = p.names := fun c hc =>
    ⟨h.constant c (hdeclared ▸ hc), p.declaredNames c (hdeclared ▸ hc)⟩
  have hstart :
    Unstarted p.sheetName [] ((({} : MergeOutputCsvDiff).mergeStart).setSheet p.sheetName) :=
    ⟨rfl, rfl, rfl, rfl, rfl, rfl⟩
  obtain ⟨hconst, hnames⟩ := hd d List.mem_cons_self
  obtain ⟨h₁, hops⟩ := hstart.changeName hconst
  rw [hnames] at h₁
  obtain ⟨w, hrun, hw, -⟩ := h₁.changeNames declared hops fun c hc =>
    hd c (List.mem_cons_of_mem _ hc)
  unfold MergeOutputCsvDiff.run RowReport.events
  rw [hrows, hdeclared, List.map_nil, List.append_nil]
  show Option.map MergeOutputCsvDiff.result ((declared.map PatchEvent.changeName).foldlM call _) = _
  rw [hrun, ← hw.result]
  rfl

/-- **A report, printed and read again.**  The parser sets the sheet and declares the names, and
makes one call for each row that is let through. -/
theorem Filed.read_encode {p : RowReport} (h : Filed p) (flags : CompareFlags) :
    ∃ sheet sheet' rows, MergeOutputCsvDiff.run p.sheetName (p.events ++ [.mergeDone]) =
    some sheet ∧
      readSheet sheet.encode = some sheet' ∧
      applyCsv flags sheet' = some (spoken (!p.rows.isEmpty) p.sheetName p.names rows) ∧
      List.Forall₂ (fun r r' => Decoded p.names r r' ∧ Heard p.names r')
      (p.rows.filter fun r => allows flags r.mode)
        rows := by
  rw [run_mergeDone]
  cases hrows : p.rows with
  | nil =>
    have hsilent := h.silent hrows
    have hversion :
      applyCsv flags (({} : CsvSheet).addLine (["dtbl", "csv", "version", "0.5"].map textField)) =
        some [.mergeStart, .mergeDone, .mergeAllDone] := rfl
    obtain ⟨sheet', hread, hcalls⟩ :=
      applyCsv_encode (by decide) (by decide) (by decide) (by decide) hversion
    exact ⟨_, sheet', [], hsilent, hread, hcalls, .nil⟩
  | cons change changes =>
    obtain ⟨d, declared, hdeclared⟩ := List.exists_cons_of_ne_nil h.declares
    obtain ⟨w, hrun, hstart⟩ := written_rows h.sheet h.names
      (fun c hc => ⟨h.constant c (hdeclared ▸ hc), p.declaredNames c (hdeclared ▸ hc)⟩)
      (fun r hr => h.written r (hrows ▸ hr))
    obtain ⟨sheet, calls, hsheet, hcalls, hdecoded⟩ := reads_back flags p
    obtain rfl : w.result = sheet := by
      have hresult : MergeOutputCsvDiff.run p.sheetName p.events = some w.result := by
        unfold MergeOutputCsvDiff.run RowReport.events
        rw [hrows, hdeclared, hrun]
        rfl
      exact Option.some.inj (hresult.symm.trans hsheet)
    obtain ⟨rest, harr, hrest⟩ := hstart.lines
    obtain ⟨hshape, hheard⟩ := hstart.calls_eq h.named hcalls
    have hlong : 1 < w.result.w := by
      have := hstart.wide (["dtbl", "csv", "version", "0.5"].map textField) (by
        rw [harr]
        exact List.mem_append_left _ List.mem_cons_self)
      exact lt_of_lt_of_le (by decide) this
    have hcells : ∀ row ∈ w.result.arr, ∀ c ∈ row, Kept c := by
      intro row hrow
      rw [harr] at hrow
      rcases List.mem_append.1 hrow with hrow | hrow
      · exact kept_preamble h.sheet h.names row hrow
      · exact (hrest row hrow).cells
    obtain ⟨sheet', hread, hcalls'⟩ :=
      applyCsv_encode hlong (by rw [harr]; exact List.cons_ne_nil _ _) hstart.wide hcells
      hcalls
    refine ⟨w.result, sheet', calls.filterMap PatcherCall.row?, hsheet, hread, ?_, ?_⟩
    · rw [hcalls']
      exact congrArg some hshape
    · rw [← hrows]
      exact forall₂_and hdecoded hheard

end CsvDiff

end Coopy
