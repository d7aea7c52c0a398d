import Coopy.CsvBookRead

/-!
# The rows of a book

A title whose name has no delimiter, line end or end mark in it is read as that name.  Below it come
the rows of the sheet, whatever is in its cells, so that each sheet of the book can be looked at
alone.

    readSheets (write book) = the sheets (bodyRows s).foldl (bodyRow name)        (readSheets_write)
-/

namespace Coopy

open Lib Libcsv

open Transducer (Passes)

open CsvSheetReaderState (bodyRow inBody NoTitle isTitle titleEnd)

/-! ## Titles -/

/-- A name that can stand in a title. -/
def titleName (name : List Char) : Bool := name.all fun c => c != ',' && !isTerm c && c != '\x00'

/-- The line of a title without its end. -/
def titleText (name : List Char) : List Char := "== ".toList ++ name ++ " ==".toList

namespace Libcsv

/-- In a field without quotes, behind some blanks. -/
def inBare (entry : List Char) (spaces : Nat) : Parser :=
  { delim := ',', pstate := .fieldBegun, spaces := spaces, entry := entry }

theorem passes_bare (entry : List Char) (n : Nat) {t : List Char} (ht : ∀ c ∈ t, c ≠ ',' ∧
    isTerm c = false) : ∃ m, Passes step (inBare entry n) t [] (inBare (entry ++ t) m) := by
  induction t generalizing entry n with
  | nil => exact ⟨n, by simpa using Passes.nil (m := step) (inBare entry n)⟩
  | cons c t ih =>
    obtain ⟨hd, hterm⟩ := ht c List.mem_cons_self
    have hstep : ∃ k, step (inBare entry n) c = ([], inBare (entry ++ [c]) k) := by
      by_cases hq : c = '"'
      · exact ⟨0, by simp [step, inBare, Parser.inField, Parser.submitChar, hq]⟩
      · cases hs : isSpace c with
        | true =>
          exact ⟨n +
            1, by simp [step, inBare, Parser.inField, Parser.submitChar, hq, hd, hterm, hs]⟩
        | false =>
          exact ⟨0, by simp [step, inBare, Parser.inField, Parser.submitChar, hq, hd, hterm, hs]⟩
    obtain ⟨k, hk⟩ := hstep
    obtain ⟨m, hm⟩ := ih (entry ++ [c]) k fun c hc => ht c (List.mem_cons_of_mem _ hc)
    exact ⟨m, Passes.quiet hk (by simpa using hm)⟩

theorem passes_title {name : String} (hn : titleName name.toList = true) :
    Passes step (atField .rowNotBegun) (CsvTextBook.title name)
    (CsvField.rowEvents [(titleText name.toList, false)])
      (atField .rowNotBegun) := by
  have hbody : ∀ c ∈ "= ".toList ++ name.toList ++ " =".toList, c ≠ ',' ∧ isTerm c = false := by
    have hlit : ∀ c ∈ "= ".toList ++ " =".toList, c ≠ ',' ∧ isTerm c = false := by
      have hall : (("= ".toList ++ " =".toList).all fun c => c != ',' && !isTerm c) = true := rfl
      exact fun c hc => by simpa using List.all_eq_true.1 hall c hc
    intro c hc
    simp only [List.mem_append] at hc hlit
    rcases hc with (hc | hc) | hc
    · exact hlit c (Or.inl hc)
    · have := List.all_eq_true.1 hn c hc
      simp only [Bool.and_eq_true, bne_iff_ne, ne_eq, Bool.not_eq_true'] at this
      exact ⟨this.1.1, this.1.2⟩
    · exact hlit c (Or.inr hc)
  obtain ⟨m, hm⟩ := passes_bare ['='] 0 hbody
  have hlast : ∀ entry n, step (inBare entry n) '=' = ([], inEntry false (entry ++ ['='])) :=
    fun _ _ => rfl
  have hend := Passes.cons (step_plain_term (titleText name.toList) (c := '\r') rfl)
    (Passes.quiet (step_blank (c := '\n') rfl) (Passes.nil _))
  have hfront :
    Passes step (atField .rowNotBegun) ('=' :: ("= ".toList ++ name.toList ++ " =".toList) ++ ['='])
      [] (inEntry false (titleText name.toList)) := by
    refine Passes.snoc (Passes.quiet (step_plain_start (Or.inl rfl) (by decide)) hm) ?_
    rw [hlast]
    simp [titleText]
  have := hfront.append hend
  simpa [CsvTextBook.title, titleText, CsvField.rowEvents, CsvField.event] using this

theorem passes_gap : Passes step (atField .rowNotBegun) " \r\n".toList [] (atField .rowNotBegun) :=
  rfl

end Libcsv

theorem isTitle_titleText (name : List Char) : isTitle (titleText name) = true := by
  simp [isTitle, titleText]

/-- The last blank before an equals sign is the one behind the name. -/
theorem titleEnd_titleText (name : List Char) :
    titleEnd (titleText name) = some (3 + name.length) := by
  have hlen : (titleText name).length - 1 = (3 + name.length) + 2 := by simp [titleText]; omega
  have hfront : ("== ".toList ++ name).length = 3 + name.length := by simp; omega
  have hend : ∀ k, (titleText name)[3 + name.length + k]? = " ==".toList[k]? := by
    intro k
    rw [titleText, List.getElem?_append_right (by omega), hfront, Nat.add_sub_cancel_left]
  have hblank : (titleText name)[3 + name.length]? = some ' ' := hend 0
  have heq : (titleText name)[3 + name.length + 1]? = some '=' := hend 1
  have hnext : (titleText name)[3 + name.length + 1 + 1]? = some '=' := hend 2
  unfold titleEnd
  rw [hlen, List.range_succ, List.range_succ, List.filter_append, List.filter_append]
  simp [hblank, heq, hnext]

theorem name_of_titleText (name : List Char) :
    ((titleText name).take (3 + name.length)).drop 3 = name := by
  have : titleText name = "== ".toList ++ (name ++ " ==".toList) := by simp [titleText]
  rw [this, show 3 + name.length = "== ".toList.length + name.length from rfl,
    List.take_length_add_append]
  simp

/-! ## The rows of a sheet -/

namespace SchemaSheet

/-- The names are written above the rows. -/
def headed (s : SchemaSheet) : Bool := !s.isEmbedded && !s.isGuess

def dashField (n : Nat) : CsvField := (List.replicate n '-', false)

/-- The rows of the lines from line `y` on, with the dashes below the header if they are written
there. -/
def markedRows (headerHeight : Int) : Nat → List (List SheetCell) → List (List CsvField)
  | _, [] => []
  | y, row :: rows =>
    let len := (DataSheet.encodeCells .defaultStyle row).length
    lineRows row ++ (if headerHeight = y then [[dashField (min (max len 3) 79)]] else []) ++
      markedRows headerHeight (y + 1) rows

/-- The rows that stand below the title of a sheet. -/
def bodyRows (s : SchemaSheet) : List (List CsvField) :=
  if s.headed then
    lineRows s.header ++ [dashField (dashCount (s.headerLine .defaultStyle))] ::
      s.rows.flatMap lineRows
  else markedRows s.headerHeight 0 s.rows

end SchemaSheet

open SchemaSheet (dashField dashCount markedRows)

theorem encodeChars_marked (b : Bool) (buf t : List Char) :
    DataSheet.encodeChars (.marked b) buf t = DataSheet.encodeChars .defaultStyle buf t := by
  induction t generalizing buf with
  | nil => rfl
  | cons c t ih =>
    simp only [DataSheet.encodeChars, ih]
    rfl

theorem encodeCells_marked (b : Bool) (cs : List SheetCell) :
    DataSheet.encodeCells (.marked b) cs = DataSheet.encodeCells .defaultStyle cs := by
  have hcell : ∀ c, DataSheet.encodeCell c (.marked b) = DataSheet.encodeCell c .defaultStyle := by
    intro c
    unfold DataSheet.encodeCell
    simp only [encodeChars_marked]
    rfl
  induction cs with
  | nil => rfl
  | cons c cs ih =>
    cases cs with
    | nil => exact hcell c
    | cons d cs =>
      have hne : d :: cs ≠ [] := List.cons_ne_nil d cs
      rw [DataSheet.encodeCells_cons _ _ hne, DataSheet.encodeCells_cons _ _ hne, ih, hcell]
      rfl

namespace Libcsv

theorem passes_dashes {n : Nat} (hn : 0 < n) :
    Passes step (atField .rowNotBegun) (List.replicate n '-' ++ ['\r', '\n'])
    (CsvField.rowEvents [dashField n])
      (atField .rowNotBegun) := by
  have hplain : ∀ c ∈ List.replicate n '-', plain c = true := fun c hc => by
    rw [List.eq_of_mem_replicate hc]
    decide
  have hne : List.replicate n '-' ≠ [] := by
    rw [Ne, List.replicate_eq_nil_iff]
    omega
  have hend := Passes.cons (step_plain_term (List.replicate n '-') (c := '\r') rfl)
    (Passes.quiet (step_blank (c := '\n') rfl) (Passes.nil _))
  exact (passes_plain_start (Or.inl rfl) hne hplain).append hend

/-- Lines of two cells or more, with the dashes among them. -/
theorem passes_markedRows (hh : Int) (y : Nat) {rows : List (List SheetCell)}
    (hrows : ∀ row ∈ rows, 1 < row.length) :
    Passes step (atField .rowNotBegun) (DataSheet.encodeRows (.marked true) (some hh) y rows)
      ((markedRows hh y rows).flatMap CsvField.rowEvents) (atField .rowNotBegun) := by
  induction rows generalizing y with
  | nil => exact Passes.nil _
  | cons row rows ih =>
    have hrest := ih (y + 1) fun r hr => hrows r (List.mem_cons_of_mem _ hr)
    have hrow := hrows row List.mem_cons_self
    have hline :=
      passes_line (Or.inl rfl) (by rintro rfl; cases hrow) (Or.inr (encodeCells_ne_nil hrow))
    have hmark : (SheetStyle.marked true).markHeader = true := rfl
    have heol : (SheetStyle.marked true).eol = ['\r', '\n'] := rfl
    unfold DataSheet.encodeRows markedRows
    simp only [encodeCells_marked, DataSheet.headerMark, heol, hmark, Bool.true_and,
      List.flatMap_append]
    refine Passes.append (Passes.append hline ?_) hrest
    by_cases hy : hh = y
    · rw [if_pos (by simpa using hy), if_pos hy]
      simpa using passes_dashes (n :=
        min (max (DataSheet.encodeCells .defaultStyle row).length 3) 79) (by omega)
    · rw [if_neg (by simpa using hy), if_neg hy]
      exact Passes.nil _

end Libcsv

namespace SchemaSheet

theorem one_lt_length {s : SchemaSheet} (hw : 2 ≤ s.width) : ∀ row ∈ s.rows, 1 < row.length :=
    fun row hr => by
  rw [s.rect row hr]
  exact hw

theorem length_header (s : SchemaSheet) : s.header.length = s.width := by
  rw [header, List.length_map, s.fits]

theorem kept_wide {rows : List (List SheetCell)} (h : ∀ row ∈ rows, 1 < row.length) :
    kept rows = rows :=
  List.filter_eq_self.2 fun row hr => bne_iff_ne.2 (encodeCells_ne_nil (h row hr))

theorem headerLine_eq (s : SchemaSheet) (b : Bool) :
    s.headerLine (.marked b) = DataSheet.encodeCells .defaultStyle s.header ++ ['\r', '\n'] := by
  unfold headerLine DataSheet.encodeRows
  rw [encodeCells_marked]
  cases b <;>
    simp [DataSheet.headerMark, DataSheet.encodeRows, SheetStyle.marked, SheetStyle.defaultStyle]

/-- **A sheet below its title** is read as its rows. -/
theorem passes_writeString {s : SchemaSheet} (hw : 2 ≤ s.width) :
    Passes step (atField .rowNotBegun) (s.writeString true) (s.bodyRows.flatMap CsvField.rowEvents)
    (atField .rowNotBegun) := by
  have hrows := one_lt_length hw
  have hhead : 1 < s.header.length := by rw [length_header]; exact hw
  cases hh : s.headed with
  | false =>
    have hcond : (!s.isEmbedded && !s.isGuess) = false := hh
    rw [bodyRows, if_neg (by simp [hh]), writeString, writeHeader, if_neg (by simp [hcond])]
    exact passes_markedRows s.headerHeight 0 hrows
  | true =>
    have hcond : (!s.isEmbedded && !s.isGuess) = true := hh
    have hline :=
      passes_line (Or.inl rfl) (by rintro h; rw [h] at hhead; cases hhead)
      (Or.inr (encodeCells_ne_nil hhead))
    have hpos : 0 < dashCount (s.headerLine .defaultStyle) := by
      show 0 < min (max _ 4) 79
      omega
    have hdash := passes_dashes hpos
    have hne : ∀ row ∈ s.rows, row ≠ [] := by
      rintro row hr rfl
      exact absurd (hrows [] hr) (by decide)
    have hdata := passes_rows (some s.headerHeight) 0 s.rows hne
    rw [sheetRows_eq, kept_wide hrows] at hdata
    have htext : s.writeString true = DataSheet.encodeCells .defaultStyle s.header ++
      ['\r', '\n'] ++
        (List.replicate (dashCount (s.headerLine .defaultStyle)) '-' ++ ['\r', '\n']) ++
          s.toDataSheet.encode .defaultStyle (some s.headerHeight) := by
      rw [writeString, writeHeader, if_pos hcond,
        show SheetStyle.defaultStyle = SheetStyle.marked false from rfl,
        headerLine_eq, headerLine_eq]
      simp
      rfl
    rw [bodyRows, if_pos hh, htext, List.flatMap_append, List.flatMap_cons, List.append_assoc]
    exact hline.append (hdash.append hdata)

end SchemaSheet

/-! ## What the rows are -/

namespace SchemaSheet

/-- The fields of the sheet: those of its names and cells, and dashes. -/
theorem mem_markedRows {hh : Int} {y : Nat} {rows : List (List SheetCell)} {r : List CsvField}
    (hr : r ∈ markedRows hh y rows)
    {f : CsvField} (hf : f ∈ r) : (∃ row ∈ rows, ∃ c ∈ row, f ∈ cellFields c) ∨
    ∃ n, f = dashField n := by
  induction rows generalizing y with
  | nil => cases hr
  | cons row rows ih =>
    rw [markedRows] at hr
    simp only [List.mem_append] at hr
    rcases hr with (hr | hr) | hr
    · obtain ⟨c, hc, h⟩ := mem_lineRows hr hf
      exact Or.inl ⟨row, List.mem_cons_self, c, hc, h⟩
    · split at hr
      · rw [List.mem_singleton.1 hr, List.mem_singleton] at hf
        exact Or.inr ⟨_, hf⟩
      · cases hr
    · exact (ih hr).imp_left fun ⟨row', h, hc⟩ => ⟨row', List.mem_cons_of_mem _ h, hc⟩

theorem mem_bodyRows {s : SchemaSheet} {r : List CsvField} (hr : r ∈ s.bodyRows)
    {f : CsvField} (hf : f ∈ r) :
    (∃ c, (c ∈ s.header ∨ ∃ row ∈ s.rows, c ∈ row) ∧ f ∈ cellFields c) ∨ ∃ n, f = dashField n := by
  unfold bodyRows at hr
  split at hr
  · rcases List.mem_append.1 hr with hr | hr
    · obtain ⟨c, hc, h⟩ := mem_lineRows hr hf
      exact Or.inl ⟨c, Or.inl hc, h⟩
    · rcases List.mem_cons.1 hr with rfl | hr
      · exact Or.inr ⟨_, List.mem_singleton.1 hf⟩
      · obtain ⟨row, hrow, hr⟩ := List.mem_flatMap.1 hr
        obtain ⟨c, hc, h⟩ := mem_lineRows hr hf
        exact Or.inl ⟨c, Or.inr ⟨row, hrow, hc⟩, h⟩
  · refine (mem_markedRows hr hf).imp_left ?_
    rintro ⟨row, hrow, c, hc, h⟩
    exact ⟨c, Or.inr ⟨row, hrow, hc⟩, h⟩

theorem noTitle_bodyRows (s : SchemaSheet) : ∀ r ∈ s.bodyRows, ∀ f ∈ r, NoTitle f := by
  intro r hr f hf hq
  have hblank : ' ' ∉ f.1 := by
    intro hm
    rcases mem_bodyRows hr hf with ⟨c, -, hc⟩ | ⟨n, rfl⟩
    · exact absurd ((fieldOf_of_mem hc).plain hq _ hm) (by decide)
    · exact absurd (List.eq_of_mem_replicate hm) (by decide)
  rw [isTitle, Bool.and_eq_false_iff]
  refine Or.inr (beq_eq_false_iff_ne.2 fun h => hblank (List.mem_of_mem_take (i := 3) ?_))
  rw [h]
  decide

end SchemaSheet

namespace CsvTextBook

/-- A title and the rows below it. -/
def bookRows (sheet : String × SchemaSheet) : List (List CsvField) :=
  [(titleText sheet.1.toList, false)] :: sheet.2.bodyRows

/-- A sheet that can be told from its neighbours. -/
def Apart (sheet : String × SchemaSheet) : Prop := titleName sheet.1.toList = true ∧
    2 ≤ sheet.2.width

theorem passes_writeFrom (i : Nat) (mark : Bool) {sheets : List (String × SchemaSheet)}
    (h : ∀ s ∈ sheets, Apart s) : Passes step (atField .rowNotBegun) (writeFrom true i mark sheets)
      ((sheets.flatMap bookRows).flatMap CsvField.rowEvents) (atField .rowNotBegun) := by
  induction sheets generalizing i mark with
  | nil => exact Passes.nil _
  | cons sheet sheets ih =>
    obtain ⟨hname, hwide⟩ := h sheet List.mem_cons_self
    have hrest := ih (i + 1) (mark || true) fun s hs => h s (List.mem_cons_of_mem _ hs)
    have hgap :
      Passes step (atField .rowNotBegun) (if 0 < i then " \r\n".toList else []) []
      (atField .rowNotBegun) := by
      split
      · exact passes_gap
      · exact Passes.nil _
    have hsheet :=
      (hgap.append (passes_title hname)).append
        ((SchemaSheet.passes_writeString hwide).append hrest)
    rw [List.flatMap_cons, List.flatMap_append, bookRows, List.flatMap_cons]
    unfold writeFrom
    simpa [Bool.or_true, List.append_assoc] using hsheet

/-- The sheet that is read for a sheet. -/
def readBody (sheet : String × SchemaSheet) : CsvSheet :=
  (sheet.2.bodyRows.foldl (bodyRow sheet.1) (false, {})).2

open CsvSheetReaderState

theorem events_title {st : CsvSheetReaderState} (hr : st.hasReader = true)
    (he : st.expecting = true) {name : String} (hn : titleName name.toList = true) :
    st.events (CsvField.rowEvents [(titleText name.toList, false)]) =
    some ((st.addSheet name true).inBody (false, {})) := by
  have hnul : '\x00' ∉ name.toList := by
    intro hm
    have := List.all_eq_true.1 hn _ hm
    simp at this
  have hfield :
    st.event (.field (titleText name.toList) false) =
    some { st.addSheet name true with ignore := true } := by
    show st.mergeCb1 _ _ = _
    unfold mergeCb1
    rw [if_pos (by simp [he, hr, isTitle_titleText]), titleEnd_titleText, Option.map_some,
      name_of_titleText, cString_of_not_mem hnul, String.ofList_toList]
  rw [show CsvField.rowEvents [(titleText name.toList, false)] =
    [.field (titleText name.toList) false, .row] from rfl,
    events_cons, hfield]
  simp [CsvSheetReaderState.events, event, mergeCb2, addSheet, hr, inBody]

/-- The reader goes from title to title. -/
theorem events_sheets {st : CsvSheetReaderState} (hr : st.hasReader = true)
    (he : st.expecting = true)
    {sheets : List (String × SchemaSheet)} (h : ∀ s ∈ sheets, titleName s.1.toList = true) :
    (st.events ((sheets.flatMap bookRows).flatMap CsvField.rowEvents)).map
    CsvSheetReaderState.sheets =
      some (st.sheets ++ sheets.map fun s => (s.1, readBody s)) := by
  induction sheets generalizing st with
  | nil => simp [CsvSheetReaderState.events]
  | cons sheet sheets ih =>
    have htitle := events_title hr he (h sheet List.mem_cons_self)
    have hbody :=
      @events_body (st.addSheet sheet.1 true) hr rfl (false, {}) rfl _ sheet.2.noTitle_bodyRows
    rw [List.flatMap_cons, List.flatMap_append, bookRows, List.flatMap_cons, List.append_assoc,
      events_append, htitle, Option.bind_some, events_append, hbody, Option.bind_some,
      @ih ((st.addSheet sheet.1 true).inBody _) hr rfl fun s hs => h s (List.mem_cons_of_mem _ hs)]
    simp [CsvSheetReaderState.sheets, inBody, addSheet, hr, readBody]

/-- **What is read back** of a book whose names can stand in titles. -/
theorem readCsvsData_write {book : TextBook} (hn : book.namedSheets = true)
    (h : ∀ s ∈ book.sheets, Apart s) :
    readCsvsData (write book) = some (book.sheets.map fun s => page (s.1, readBody s)) := by
  have hevents :
    Libcsv.events ',' (write book) = (book.sheets.flatMap bookRows).flatMap CsvField.rowEvents := by
    unfold Libcsv.events write
    rw [hn, Bool.true_or, show ({ delim := ',' } : Parser) = atField .rowNotBegun from rfl,
      (passes_writeFrom 0 false h).run_eq]
    exact List.append_nil _
  have := @events_sheets { hasReader := true } rfl rfl _ fun s hs => (h s hs).1
  unfold readCsvsData readSheets
  rw [hevents, this]
  simp [CsvSheetReaderState.sheets]

end CsvTextBook

end Coopy
