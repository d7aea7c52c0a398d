import Coopy.CsvTitles

/-!
# A book through a CSV file

The sheets of a book, written one behind the other and read back.  A sheet comes back when its names
are written above it, each of them and each cell can be read again, and the first name is not taken
for the dashes below the header.

    the page of s = the names and rows of s ↔ s.ComesBack                         (page_iff)
    RoundTrips book ↔ every name can stand in a title and every sheet comes back  (roundTrips_iff)
-/

namespace Coopy

open Lib Libcsv

open CsvSheetReaderState
    (readCell bodyRow bodyRow_enter bodyRow_break breaks isBreak AllTexts Tally)

/-! ## Names that come back -/

/-- Underscores before a null token that may be cut off: a name is written without one more of
them. -/
def bareSlips (t : List Char) : Bool :=
  let rest := t.dropWhile (· == '_')
  decide (rest.length < t.length) && rest.isPrefixOf (SheetStyle.defaultStyle.nullToken ++ ['\x00'])

/-- A column name that is read as it is. -/
def nameComesBack (t : List Char) : Bool :=
  !t.isEmpty && clean t && !t.contains '\x00' && !bareSlips t

/-- A name that looks like the end of a header. -/
def isDashes (t : List Char) : Bool := t.all (· == '-') && decide (3 < t.length)

/-- The field of a cell that is one field. -/
def theField (c : SheetCell) : CsvField := lastField (cellFields c)

theorem cellFields_eq {c : SheetCell} (h : (cellFields c).length = 1) :
    cellFields c = [theField c] := by
  obtain ⟨f, hf⟩ := List.length_eq_one_iff.1 h
  rw [theField, hf]
  rfl

theorem lineRows_eq {cs : List SheetCell} (h : ∀ c ∈ cs, (cellFields c).length = 1) :
    lineRows cs = [cs.map theField] := by
  induction cs with
  | nil => rfl
  | cons c cs ih =>
    rw [lineRows, ih fun d hd => h d (List.mem_cons_of_mem _ hd),
      cellFields_eq (h c List.mem_cons_self)]
    rfl

/-- A name is written as it is, bare or between quotes; the empty one as the null token. -/
theorem cellFields_name {n : String} (hc : clean n.toList = true) :
    (n = "" ∧ cellFields ⟨n, true⟩ = [(SheetStyle.defaultStyle.nullToken, false)]) ∨
    (n ≠ "" ∧ ∃ q, cellFields ⟨n, true⟩ = [(n.toList, q)] ∧
      (q = false ↔ ∀ a ∈ n.toList, plain a = true)) := by
  by_cases hn : n = ""
  · subst hn
    exact Or.inl ⟨rfl, rfl⟩
  · have hne : n.toList.isEmpty = false := by
      rw [List.isEmpty_eq_false_iff, Ne, ← String.toList_empty, String.toList_inj]
      exact hn
    have hplain : n.toList.any SheetStyle.defaultStyle.needsQuote = false ↔
      ∀ a ∈ n.toList, plain a = true := by
      simp [List.any_eq_false, plain]
    have htext : DataSheet.collisionText .defaultStyle ⟨n, true⟩ = n.toList := rfl
    refine Or.inr ⟨hn, n.toList.any SheetStyle.defaultStyle.needsQuote, ?_, hplain⟩
    unfold cellFields
    simp only [hne, Bool.false_and, Bool.false_eq_true, if_false, htext,
      (pieces_eq_singleton_iff _).2 hc]
    cases n.toList.any SheetStyle.defaultStyle.needsQuote <;> rfl

theorem length_cellFields_name {n : String} (hc : clean n.toList = true) :
    (cellFields ⟨n, true⟩).length = 1 := by
  rcases cellFields_name hc with ⟨-, h⟩ | ⟨-, q, h, -⟩ <;> rw [h] <;> rfl

theorem length_cellFields_text {c : SheetCell} (hesc : c.escaped = false)
    (hc : clean c.text.toList = true) : (cellFields c).length = 1 := by
  rcases cellFields_text hesc with ⟨-, h⟩ | ⟨-, q, h⟩
  · rw [h]
    rfl
  · rw [h, (pieces_eq_singleton_iff _).2 hc]
    rfl

/-- What is read of a name. -/
theorem text_theField_name {n : String} (hc : clean n.toList = true) (hn : '\x00' ∉ n.toList) :
    (readCell (theField ⟨n, true⟩)).text = n ↔ nameComesBack n.toList = true := by
  have hnul : n.toList.contains '\x00' = false := by simpa using hn
  rcases cellFields_name hc with ⟨rfl, h⟩ | ⟨hne, q, h, -⟩
  · rw [theField, h]
    exact ⟨fun h => absurd h (by decide), fun h => absurd h (by decide)⟩
  · have hempty : n.toList.isEmpty = false := by
      rw [List.isEmpty_eq_false_iff, Ne, ← String.toList_empty, String.toList_inj]
      exact hne
    have hback : nameComesBack n.toList = !bareSlips n.toList := by
      unfold nameComesBack
      rw [hempty, hc, hnul]
      rfl
    rw [theField, h, hback, ← String.toList_inj, Bool.not_eq_true']
    show (readCell (n.toList, q)).text.toList = _ ↔ _
    unfold readCell CsvSheetReaderState.fieldCell bareSlips
    simp only [show SheetStyle.defaultStyle.haveNull = true from rfl,
      show SheetStyle.defaultStyle.quoteCollision = true from rfl,
      if_true, Bool.true_and, String.toList_ofList]
    split
    · next htok =>
      rw [beq_iff_eq] at htok
      rw [← htok]
      exact ⟨fun _ => rfl, fun _ => by decide⟩
    · split
      · next hslip =>
        rw [hslip, cString_of_not_mem fun hm => hn (List.mem_of_mem_drop hm)]
        have hpos : 0 < n.toList.length := by
          simp only [Bool.and_eq_true, decide_eq_true_eq] at hslip
          omega
        constructor
        · intro h
          have := congrArg List.length h
          rw [List.length_drop] at this
          omega
        · intro h
          cases h
      · next hslip =>
        rw [cString_of_not_mem hn, Bool.not_eq_true] at *
        exact ⟨fun _ => hslip, fun _ => rfl⟩

/-- The name that is taken for the end of the header. -/
theorem breaks_theField_name {n : String} (hc : clean n.toList = true) :
    breaks (theField ⟨n, true⟩) = isDashes n.toList := by
  rcases cellFields_name hc with ⟨rfl, h⟩ | ⟨-, q, h, hq⟩
  · rw [theField, h]
    decide
  · rw [theField, h]
    show (!q && isBreak n.toList) = isDashes n.toList
    unfold isBreak isDashes
    cases q with
    | true =>
      -- a name between quotes has a character that is no dash
      have hnot : ¬ ∀ a ∈ n.toList, plain a = true := fun h => by cases hq.2 h
      have hall : (n.toList.all fun c => c == '-') = false := by
        rw [Bool.eq_false_iff]
        intro hall
        refine hnot fun a ha => ?_
        have := List.all_eq_true.1 hall a ha
        rw [beq_iff_eq.1 this]
        decide
      simp [hall]
    | false =>
      have hplain := hq.1 rfl
      have hsame :
        (n.toList.all fun c => c == '-' || c == '\n' || c == '\r') = n.toList.all fun c =>
        c == '-' := by
        rw [Bool.eq_iff_iff, List.all_eq_true, List.all_eq_true]
        refine forall₂_congr fun a ha => ?_
        have := (plain_iff a).1 (hplain a ha)
        simp [this]
      rw [hsame]
      rfl

theorem readCell_theField {c : SheetCell} (hesc : c.escaped = false)
    (hone : (cellFields c).length = 1) :
    readCell (theField c) = c ↔ comesBack c.text.toList = true := by
  rw [comesBack_iff hesc, cellFields_eq hone]
  simp

/-! ## A page with a header -/

namespace CsvSheet

theorem foldl_bodyRow_broken (name : String) (rows : List (List CsvField)) (sheet : CsvSheet) :
    rows.foldl (bodyRow name) (true, sheet) = (true, rows.foldl enterRow sheet) := by
  induction rows generalizing sheet with
  | nil => rfl
  | cons row rows ih =>
    have hrow : bodyRow name (true, sheet) row = (true, sheet.enterRow row) := by
      cases row with
      | nil => rfl
      | cons f fs => exact bodyRow_enter name (Or.inr rfl) fs
    rw [List.foldl_cons, hrow, ih]
    rfl

theorem schema_enterRows (rows : List (List CsvField)) (sheet : CsvSheet) :
    (rows.foldl enterRow sheet).schema = sheet.schema := by
  induction rows generalizing sheet with
  | nil => rfl
  | cons row rows ih =>
    rw [List.foldl_cons, ih]
    simp [enterRow, foldl_addCell, addRecord]

theorem Closed.w_enterRows {sheet : CsvSheet} (h : sheet.Closed) {rows : List (List CsvField)}
    (hrows : ∀ row ∈ rows, row.length = sheet.w) :
    (rows.foldl CsvSheet.enterRow sheet).w = sheet.w := by
  cases rows with
  | nil => rfl
  | cons row rows => exact h.width_enterRows (Nat.le_refl _) (by simp) hrows

theorem map_getD_range {α : Type} (xs : List α) (d : α) :
    (List.range xs.length).map (fun x => xs.getD x d) = xs := by
  refine List.ext_getElem (by simp) fun i hi hi' => ?_
  rw [List.getElem_map, List.getElem_range, List.getD_eq_getElem _ _ hi']

/-- **A header, its dashes and rows of its width** are shown as they are. -/
theorem shown_headed (name : String) {f : CsvField} {fs : List CsvField} (hf : breaks f = false)
    {n : Nat} (hn : 3 < n)
    {rows : List (List CsvField)} (hrows : ∀ row ∈ rows, row.length = (f :: fs).length) :
    let sheet :=
      (((f :: fs) :: [SchemaSheet.dashField n] :: rows).foldl (bodyRow name) (false, {})).2
    sheet.schema.map (·.columns) = some ((f :: fs).map fun g => (readCell g).text) ∧
      sheet.shownRows = rows.map (List.map readCell) := by
  have hdash : breaks (SchemaSheet.dashField n) = true := by
    simp [breaks, isBreak, SchemaSheet.dashField, hn]
  have hbody : ((f :: fs) :: [SchemaSheet.dashField n] :: rows).foldl (bodyRow name) (false, {}) =
      (true, rows.foldl enterRow ((enterRow {} (f :: fs)).withHeader name)) := by
    rw [List.foldl_cons, bodyRow_enter name (Or.inl hf), List.foldl_cons,
      bodyRow_break name _ hdash, List.map_nil, List.foldl_nil, foldl_bodyRow_broken]
  have hfirst : enterRow {} (f :: fs) =
      { arr := [(f :: fs).map readCell], w := (f :: fs).length, th := 1, h := 1 } := by
    simp [enterRow, foldl_addCell, addRecord, addCell]
    omega
  have hclosed : ((enterRow {} (f :: fs)).withHeader name).Closed := by
    rw [hfirst]
    exact ⟨rfl, rfl, rfl, rfl, rfl⟩
  have hw : ((enterRow {} (f :: fs)).withHeader name).w = (f :: fs).length := by rw [hfirst]; rfl
  have harr : ((enterRow {} (f :: fs)).withHeader name).arr = [(f :: fs).map readCell] := by
    rw [hfirst]; rfl
  have hschema : ((enterRow {} (f :: fs)).withHeader name).schema =
      some ⟨0, (List.range (f :: fs).length).map fun i =>
        (((f :: fs).map readCell).getD i ⟨"", false⟩).text, name⟩ := by
    rw [hfirst]
    rfl
  simp only [hbody]
  refine ⟨?_, ?_⟩
  · have := map_getD_range ((f :: fs).map readCell) ⟨"", false⟩
    rw [List.length_map] at this
    have hcols := congrArg (List.map SheetCell.text) this
    rw [List.map_map, List.map_map] at hcols
    rw [schema_enterRows, hschema, Option.map_some]
    exact congrArg some hcols
  · have hoff : rowOffset (rows.foldl enterRow ((enterRow {} (f :: fs)).withHeader name)) = 1 := by
      rw [rowOffset, schema_enterRows, hschema]
      rfl
    rw [shownRows, hoff, hclosed.arr_enterRows, harr,
      hclosed.w_enterRows (fun row hr => (hrows row hr).trans hw.symm), hw]
    simp only [List.singleton_append, List.drop_one, List.tail_cons]
    conv_rhs => rw [← List.map_id (rows.map (List.map readCell))]
    refine List.map_congr_left fun row hr => ?_
    obtain ⟨fields, hfields, rfl⟩ := List.mem_map.1 hr
    have := map_getD_range (fields.map readCell) ⟨"", false⟩
    rw [List.length_map, hrows fields hfields] at this
    exact this

end CsvSheet

/-! ## Sheets that come back -/

namespace SchemaSheet

/-- What it takes for a sheet to come back. -/
structure ComesBack (s : SchemaSheet) : Prop where
  notGuess : s.isGuess = false
  notEmbedded : s.isEmbedded = false
  names : ∀ n ∈ s.columns, nameComesBack n.toList = true
  noDashes : ∀ n ∈ s.columns.head?, isDashes n.toList = false
  cells : ∀ row ∈ s.rows, ∀ c ∈ row, comesBack c.text.toList = true

/-- All texts of the sheet have a property. -/
def AllOf (s : SchemaSheet) (Q : List Char → Prop) : Prop :=
  (∀ n ∈ s.columns, Q n.toList) ∧ ∀ row ∈ s.rows, ∀ c ∈ row, Q c.text.toList

/-- The sheet comes back as this page. -/
def Returns (s : SchemaSheet) (name : String) : Prop :=
  CsvTextBook.page (name, CsvTextBook.readBody (name, s)) = ⟨name, some s.columns, s.rows⟩

theorem returns_iff_parts {s : SchemaSheet} {name : String} : s.Returns name ↔
    (CsvTextBook.readBody (name, s)).schema.map (·.columns) = some s.columns ∧
      (CsvTextBook.readBody (name, s)).shownRows = s.rows := by
  simp [Returns, CsvTextBook.page]

/-- What all fields that are read have, the sheet has. -/
theorem allOf_of_returns {s : SchemaSheet} {name : String} (h : s.Returns name)
    {Q : List Char → Prop} (hnil : Q [])
    (hq : ∀ r ∈ s.bodyRows, ∀ f ∈ r, Q (readCell f).text.toList) : s.AllOf Q := by
  obtain ⟨hcols, hrows⟩ := returns_iff_parts.1 h
  have hall : AllTexts Q (CsvTextBook.readBody (name, s)) :=
    (AllTexts.new hnil).body (b := (false, {})) name hq
  refine ⟨fun n hn => ?_, fun row hr c hc => hall.shown row (hrows ▸ hr) c hc⟩
  obtain ⟨schema, hs, hc⟩ := Option.map_eq_some_iff.1 hcols
  exact hall.columns schema hs n (hc ▸ hn)

theorem mem_cells {s : SchemaSheet} {Q : List Char → Prop} (h : s.AllOf Q) {c : SheetCell}
    (hc : c ∈ s.header ∨ ∃ row ∈ s.rows, c ∈ row) : Q c.text.toList := by
  rcases hc with hc | ⟨row, hr, hc⟩
  · obtain ⟨n, hn, rfl⟩ := List.mem_map.1 hc
    exact h.1 n hn
  · exact h.2 row hr c hc

/-- **No text of a sheet that comes back** is torn, ends with a line end or has an end mark in
it. -/
theorem clean_of_returns {s : SchemaSheet} {name : String} (h : s.Returns name) :
    s.AllOf fun t => clean t = true ∧ '\x00' ∉ t := by
  have hdash : ∀ n, torn (dashField n).1 = false ∧ endsOpen (dashField n).1 = false ∧
    '\x00' ∉ (dashField n).1 := by
    intro n
    have hplain : ∀ c ∈ (dashField n).1, plain c = true := fun c hc => by
      rw [List.eq_of_mem_replicate hc]
      decide
    have hclean := clean_of_plain hplain
    simp only [clean, Bool.and_eq_true, Bool.not_eq_true'] at hclean
    refine ⟨hclean.1, hclean.2, fun hm => ?_⟩
    exact absurd (List.eq_of_mem_replicate hm) (by decide)
  have hwhole : s.AllOf fun t => torn t = false ∧ '\x00' ∉ t := by
    refine allOf_of_returns h ⟨rfl, List.not_mem_nil⟩ fun r hr f hf => readCell_whole ?_
    rcases mem_bodyRows hr hf with ⟨c, -, hc⟩ | ⟨n, rfl⟩
    · exact (fieldOf_of_mem hc).notTorn
    · exact (hdash n).1
  -- no field has an end mark, so nothing is cut off
  have hclosed : s.AllOf fun t => endsOpen t = false := by
    refine allOf_of_returns h rfl fun r hr f hf => ?_
    rcases mem_bodyRows hr hf with ⟨c, hmem, hc⟩ | ⟨n, rfl⟩
    · exact endsOpen_readCell (fieldOf_of_mem hc).notOpen
        ((fieldOf_of_mem hc).noNul (mem_cells hwhole hmem).2)
    · exact endsOpen_readCell (hdash n).2.1 (hdash n).2.2
  have hclean : ∀ t, (torn t = false ∧ '\x00' ∉ t) → endsOpen t = false → clean t = true ∧
    '\x00' ∉ t := by
    intro t ht he
    exact ⟨by rw [clean, ht.1, he]; rfl, ht.2⟩
  exact ⟨fun n hn => hclean _ (hwhole.1 n hn) (hclosed.1 n hn),
    fun row hr c hc => hclean _ (hwhole.2 row hr c hc) (hclosed.2 row hr c hc)⟩

theorem length_markedRows {hh : Int} {y : Nat} {rows : List (List SheetCell)}
    (h : ∀ row ∈ rows, (lineRows row).length = 1) :
    (markedRows hh y rows).length ≤ rows.length + (if y ≤ hh then 1 else 0) := by
  induction rows generalizing y with
  | nil => exact Nat.zero_le _
  | cons row rows ih =>
    have hrest := ih (y := y + 1) fun r hr => h r (List.mem_cons_of_mem _ hr)
    rw [markedRows, List.length_append, List.length_append, h row List.mem_cons_self,
      List.length_cons]
    by_cases hy : hh = y
    · rw [if_neg (by omega)] at hrest
      rw [if_pos hy, if_pos (by omega)]
      simp only [List.length_singleton]
      omega
    · rw [if_neg hy, List.length_nil]
      split at hrest <;> split <;> omega

variable {s : SchemaSheet} {name : String} (hw : 2 ≤ s.width)
    (hnull : ∀ row ∈ s.rows, ∀ c ∈ row, c.escaped = false)

include hnull in
theorem lineRows_of_clean (hclean : s.AllOf fun t => clean t = true ∧ '\x00' ∉ t) :
    ∀ row ∈ s.rows, lineRows row = [row.map theField] :=
  fun row hr => lineRows_eq fun c hc => length_cellFields_text (hnull row hr c hc)
    (hclean.2 row hr c hc).1

include hw hnull in
/-- A sheet that comes back has its names above it. -/
theorem headed_of_returns (h : s.Returns name) : s.headed = true := by
  obtain ⟨hcols, hrows⟩ := returns_iff_parts.1 h
  have hlines := lineRows_of_clean hnull (clean_of_returns h)
  by_contra hh
  have hbody : s.bodyRows = markedRows s.headerHeight 0 s.rows := by rw [bodyRows, if_neg hh]
  have hlen := @length_markedRows s.headerHeight 0 _ fun row hr => by rw [hlines row hr]; rfl
  have htally := Tally.new.body name s.bodyRows
  have hne : s.columns ≠ [] := by
    intro hnil
    have := s.fits
    rw [hnil, List.length_nil] at this
    omega
  have hshown := htally.shown_lt hne hcols
  have hrows' := congrArg List.length hrows
  simp only [CsvTextBook.readBody] at hrows'
  rw [hrows', hbody] at hshown
  split at hlen <;> omega

include hw in
theorem columns_cons : ∃ n ns, s.columns = n :: ns := by
  cases h : s.columns with
  | nil =>
    have := s.fits
    rw [h, List.length_nil] at this
    omega
  | cons n ns => exact ⟨n, ns, rfl⟩

include hnull in
/-- The rows below the title, when every line is one row. -/
theorem bodyRows_of_clean (hh : s.headed = true) (hclean : s.AllOf fun t =>
    clean t = true ∧ '\x00' ∉ t) :
    s.bodyRows = s.header.map theField :: [dashField (dashCount (s.headerLine .defaultStyle))] ::
      s.rows.map (List.map theField) := by
  have hlines := lineRows_of_clean hnull hclean
  have hheader : lineRows s.header = [s.header.map theField] := by
    refine lineRows_eq fun c hc => ?_
    obtain ⟨n, hn, rfl⟩ := List.mem_map.1 hc
    exact length_cellFields_name (hclean.1 n hn).1
  have hdata : s.rows.flatMap lineRows = s.rows.map (List.map theField) := by
    rw [← List.flatMap_singleton' (l := s.rows.map (List.map theField)), List.flatMap_map]
    exact List.flatMap_congr fun row hr => hlines row hr
  rw [bodyRows, if_pos hh, hheader, hdata]
  rfl

include hw hnull in
/-- What is shown of a sheet of clean texts with its names above it: each name and each cell as it
is read. -/
theorem shown_of_clean (hh : s.headed = true) (hclean : s.AllOf fun t =>
    clean t = true ∧ '\x00' ∉ t)
    (hdash : ∀ n ∈ s.columns.head?, isDashes n.toList = false) :
    (CsvTextBook.readBody (name, s)).schema.map (·.columns) =
        some (s.columns.map fun n => (readCell (theField ⟨n, true⟩)).text) ∧
      (CsvTextBook.readBody (name, s)).shownRows =
        s.rows.map (List.map fun c => readCell (theField c)) := by
  obtain ⟨n, ns, hcols⟩ := columns_cons hw
  have hfirst : breaks (theField ⟨n, true⟩) = false := by
    rw [breaks_theField_name (hclean.1 n (by simp [hcols])).1]
    exact hdash n (by simp [hcols])
  have hrows : ∀ row ∈ s.rows.map (List.map theField),
      row.length = (theField ⟨n, true⟩ :: (ns.map fun n => ⟨n, true⟩).map theField).length := by
    intro row hr
    obtain ⟨r, hmem, rfl⟩ := List.mem_map.1 hr
    have hfit := s.fits
    rw [hcols, List.length_cons] at hfit
    rw [List.length_map, s.rect r hmem, List.length_cons, List.length_map, List.length_map, hfit]
  have hcount : 3 < dashCount (s.headerLine .defaultStyle) := by
    show 3 < min (max _ 4) 79
    omega
  have hshown := CsvSheet.shown_headed name hfirst hcount hrows
  have hheader :
    s.header.map theField = theField ⟨n, true⟩ :: (ns.map fun n => ⟨n, true⟩).map theField := by
    rw [header, hcols]
    rfl
  unfold CsvTextBook.readBody
  rw [bodyRows_of_clean hnull hh hclean, hheader, hcols]
  simpa [List.map_map, Function.comp_def] using hshown

include hw hnull in
/-- The first name of a sheet that comes back is not taken for dashes. -/
theorem noDashes_of_returns (h : s.Returns name) :
    ∀ n ∈ s.columns.head?, isDashes n.toList = false := by
  have hclean := clean_of_returns h
  have hh := headed_of_returns hw hnull h
  intro n hn
  obtain ⟨m, ns, hcols⟩ := columns_cons hw
  rw [hcols, List.head?_cons, Option.mem_some] at hn
  subst hn
  by_contra hdash
  have hbreak : breaks (theField ⟨m, true⟩) = true := by
    rw [breaks_theField_name (hclean.1 m (by simp [hcols])).1]
    simpa using hdash
  -- the header ends before it begins: there are no names
  have hbody : CsvTextBook.readBody (name, s) =
      (([dashField (dashCount (s.headerLine .defaultStyle))] ::
        s.rows.map (List.map theField)).foldl CsvSheet.enterRow
          ((((ns.map fun n => (⟨n, true⟩ : SheetCell)).map theField).map readCell).foldl
          CsvSheet.addCell
            (CsvSheet.withHeader {} name))) := by
    unfold CsvTextBook.readBody
    rw [bodyRows_of_clean hnull hh hclean, header, hcols, List.map_cons, List.map_cons,
      List.foldl_cons, bodyRow_break name _ hbreak, CsvSheet.foldl_bodyRow_broken]
  have hcolumns := (returns_iff_parts.1 h).1
  rw [hbody, CsvSheet.schema_enterRows, CsvSheet.foldl_addCell, hcols] at hcolumns
  simp [CsvSheet.withHeader] at hcolumns

include hw hnull in
/-- **When a sheet comes back.** -/
theorem returns_iff_comesBack : s.Returns name ↔ s.ComesBack := by
  have hcell : ∀ (hclean : s.AllOf fun t => clean t = true ∧ '\x00' ∉ t), ∀ row ∈ s.rows, ∀ c ∈ row,
      (readCell (theField c) = c ↔ comesBack c.text.toList = true) := fun hclean row hr c hc =>
    readCell_theField (hnull row hr c hc)
      (length_cellFields_text (hnull row hr c hc) (hclean.2 row hr c hc).1)
  constructor
  · intro h
    have hclean := clean_of_returns h
    have hh := headed_of_returns hw hnull h
    have hdash := noDashes_of_returns hw hnull h
    obtain ⟨hcols, hrows⟩ := returns_iff_parts.1 h
    obtain ⟨hcols', hrows'⟩ := @shown_of_clean s name hw hnull hh hclean hdash
    have hnames := Option.some.inj (hcols'.symm.trans hcols)
    have hcells := hrows'.symm.trans hrows
    simp only [headed, Bool.and_eq_true, Bool.not_eq_true'] at hh
    refine ⟨hh.2, hh.1, fun n hn => ?_, hdash, fun row hr c hc => ?_⟩
    · rw [← text_theField_name (hclean.1 n hn).1 (hclean.1 n hn).2]
      exact map_eq_self_iff.1 hnames n hn
    · rw [← hcell hclean row hr c hc]
      exact map_eq_self_iff.1 (map_eq_self_iff.1 hcells row hr) c hc
  · intro h
    have hclean : s.AllOf fun t => clean t = true ∧ '\x00' ∉ t := by
      refine ⟨fun n hn => ?_, fun row hr c hc => ?_⟩
      · have := h.names n hn
        simp only [nameComesBack, Bool.and_eq_true, Bool.not_eq_true', List.contains_eq_mem,
          decide_eq_false_iff_not] at this
        exact ⟨this.1.1.2, this.1.2⟩
      · have := h.cells row hr c hc
        simp only [comesBack, Bool.and_eq_true, Bool.not_eq_true', List.contains_eq_mem,
          decide_eq_false_iff_not] at this
        exact ⟨this.1.1, this.1.2⟩
    have hh : s.headed = true := by simp [headed, h.notEmbedded, h.notGuess]
    obtain ⟨hcols, hrows⟩ := @shown_of_clean s name hw hnull hh hclean h.noDashes
    refine returns_iff_parts.2 ⟨hcols.trans (congrArg some ?_), hrows.trans ?_⟩
    · exact map_eq_self_iff.2 fun n hn => (text_theField_name (hclean.1 n hn).1 (hclean.1 n hn).2).2
        (h.names n hn)
    · exact map_eq_self_iff.2 fun row hr => map_eq_self_iff.2 fun c hc =>
        (hcell hclean row hr c hc).2 (h.cells row hr c hc)

end SchemaSheet

/-! ## Books that come back -/

namespace CsvTextBook

/-- Written and read back, the book has the same sheets, with their names, columns and rows. -/
def RoundTrips (book : TextBook) : Prop :=
  readCsvsData (write book) = some (book.sheets.map fun s => ⟨s.1, some s.2.columns, s.2.rows⟩)

end CsvTextBook

/-- A book of named sheets of at least two columns and without NULL cells. -/
structure PlainBook extends TextBook where
  named : namedSheets = true
  nonempty : ∀ s ∈ sheets, s.1 ≠ ""
  distinct : (sheets.map Prod.fst).Nodup
  columnsDistinct : ∀ s ∈ sheets, s.2.columns.Nodup
  wide : ∀ s ∈ sheets, 2 ≤ s.2.width
  notNull : ∀ s ∈ sheets, ∀ row ∈ s.2.rows, ∀ c ∈ row, c.escaped = false

namespace PlainBook

/-- **A book comes back** when its names can stand in titles and its sheets come back. -/
theorem roundTrips_iff (book : PlainBook) : CsvTextBook.RoundTrips book.toTextBook ↔
    ∀ s ∈ book.sheets, titleName s.1.toList = true ∧ s.2.ComesBack := by
  have hread : (∀ s ∈ book.sheets, titleName s.1.toList = true) →
    (CsvTextBook.RoundTrips book.toTextBook ↔
      ∀ s ∈ book.sheets, s.2.ComesBack) := by
    intro hnames
    have hapart : ∀ s ∈ book.sheets, CsvTextBook.Apart s :=
      fun s hs => ⟨hnames s hs, book.wide s hs⟩
    rw [CsvTextBook.RoundTrips, CsvTextBook.readCsvsData_write book.named hapart, Option.some.injEq,
      List.map_inj_left]
    exact forall₂_congr fun s hs => SchemaSheet.returns_iff_comesBack (book.wide s hs)
      (book.notNull s hs)
  constructor
  · intro h
    have hnames : ∀ s ∈ book.sheets, titleName s.1.toList = true := fun s hs =>
      CsvTextBook.titleName_of_read h _ (List.mem_map_of_mem hs)
    exact fun s hs => ⟨hnames s hs, (hread hnames).1 h s hs⟩
  · intro h
    exact (hread fun s hs => (h s hs).1).2 fun s hs => (h s hs).2

/-- A book of one sheet with an underscore in it. -/
def underscore : PlainBook where
  sheets := [("t",
    { width := 2
      rows := [[⟨"_", false⟩, ⟨"x", false⟩]]
      rect := by decide
      stored := by decide
      columns := ["a", "b"]
      fits := rfl })]
  named := rfl
  nonempty := by decide
  distinct := by decide
  columnsDistinct := by decide
  wide := by decide
  notNull := by decide

/-- The underscore is lost. -/
theorem underscore_lost : CsvTextBook.readCsvsData (CsvTextBook.write underscore.toTextBook) =
      some [⟨"t", some ["a", "b"], [[⟨"", false⟩, ⟨"x", false⟩]]⟩] ∧
    ¬ CsvTextBook.RoundTrips underscore.toTextBook := by
  have hread : CsvTextBook.readCsvsData (CsvTextBook.write underscore.toTextBook) =
      some [⟨"t", some ["a", "b"], [[⟨"", false⟩, ⟨"x", false⟩]]⟩] := by decide +kernel
  refine ⟨hread, ?_⟩
  rw [CsvTextBook.RoundTrips, hread]
  decide

end PlainBook

end Coopy
