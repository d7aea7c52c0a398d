import Coopy.CsvCells
import Coopy.Lib.Containers

/-!
# A sheet through a CSV file

A rectangular sheet without NULL cells, written in the default style and read back.  Everything
comes back, a blank line excepted, if and only if no cell is torn.

    Framed s ↔ no cell of s has a quote right behind a line end                   (framed_iff)
-/

namespace Coopy

open Lib Libcsv

open CsvSheetReaderState (readCell readSheet)

/-! ## Lines that are one row -/

theorem length_lineRows_cons (c : SheetCell) (cs : List SheetCell) :
    (lineRows (c :: cs)).length = (cellFields c).length - 1 + (lineRows cs).length := by
  have hpos := List.length_pos_of_ne_nil (lineRows_ne_nil cs)
  simp only [lineRows, glue, List.length_append, List.length_map, List.length_dropLast,
    List.length_cons, List.length_tail]
  omega

/-- A line that is one row is made of cells that are one field. -/
theorem length_cellFields_of_lineRows {cs : List SheetCell} (h : (lineRows cs).length = 1) :
    ∀ c ∈ cs, (cellFields c).length = 1 := by
  induction cs with
  | nil => intro c hc; cases hc
  | cons d cs ih =>
    have hd := List.length_pos_of_ne_nil (cellFields_ne_nil d)
    have hcs := List.length_pos_of_ne_nil (lineRows_ne_nil cs)
    rw [length_lineRows_cons] at h
    intro c hc
    rcases List.mem_cons.1 hc with rfl | hc
    · omega
    · exact ih (by omega) c hc

/-- A line of cells that come back is one row of these cells. -/
theorem lineRows_of_comesBack {cs : List SheetCell}
    (h : ∀ c ∈ cs, c.escaped = false ∧ comesBack c.text.toList = true) :
    ∃ fields, lineRows cs = [fields] ∧ fields.map readCell = cs := by
  induction cs with
  | nil => exact ⟨[], rfl, rfl⟩
  | cons c cs ih =>
    obtain ⟨fields, hl, hr⟩ := ih fun d hd => h d (List.mem_cons_of_mem _ hd)
    obtain ⟨hesc, hback⟩ := h c List.mem_cons_self
    obtain ⟨f, hf, hfc⟩ := (comesBack_iff hesc).1 hback
    exact ⟨f :: fields, by simp [lineRows, glue, hf, hl, lastField], by rw [List.map_cons, hfc, hr]⟩

theorem torn_of_length_cellFields {c : SheetCell} (hc : c.escaped = false)
    (h : (cellFields c).length = 1) : torn c.text.toList = false := by
  rcases cellFields_text hc with ⟨hcol, -⟩ | ⟨-, q, hf⟩
  · have := clean_of_plain fun a ha => (plain_of_collides hcol a ha).1
    simp only [clean, Bool.and_eq_true, Bool.not_eq_true'] at this
    exact this.1
  · by_contra ht
    have := (one_lt_length_pieces [] c.text.toList).2 (Or.inl (by simpa using ht))
    rw [hf, List.length_map] at h
    omega

/-! ## Lines that are read at all -/

/-- The lines with some text in them. -/
def kept (rows : List (List SheetCell)) : List (List SheetCell) :=
  rows.filter fun row => DataSheet.encodeCells .defaultStyle row != []

theorem sheetRows_eq (rows : List (List SheetCell)) :
    sheetRows rows = (kept rows).flatMap lineRows := by
  induction rows with
  | nil => rfl
  | cons row rows ih =>
    unfold sheetRows kept at *
    rw [List.flatMap_cons, List.filter_cons, ih]
    by_cases h : DataSheet.encodeCells .defaultStyle row = [] <;> simp [h]

theorem encodeCells_ne_nil {row : List SheetCell} (h : 1 < row.length) :
    DataSheet.encodeCells .defaultStyle row ≠ [] := by
  match row, h with
  | c :: d :: cs, _ =>
    rw [DataSheet.encodeCells_cons _ _ (List.cons_ne_nil d cs),
      show SheetStyle.defaultStyle.delim = [','] from rfl]
    simp

theorem encodeCell_text_eq_nil {c : SheetCell} (hc : c.escaped = false) :
    DataSheet.encodeCell c .defaultStyle = [] ↔ c.text = "" := by
  have hcol : SheetStyle.defaultStyle.collides [] = false := by decide
  have hnil : c.text.toList = [] ↔ c.text = "" := by rw [← String.toList_inj]; rfl
  rw [← hnil]
  unfold DataSheet.encodeCell
  simp only [hc, Bool.and_false, Bool.false_and, Bool.false_eq_true, if_false]
  by_cases hq : c.text.toList.any SheetStyle.defaultStyle.needsQuote = true
  · have hne : c.text.toList ≠ [] := by
      intro h
      rw [h] at hq
      cases hq
    simp [hq, hne]
  · rw [if_neg hq, encodeChars_plain (plain_collisionText (by simpa using hq)), List.nil_append,
      List.append_nil]
    unfold DataSheet.collisionText
    simp only
    split
    · next h =>
      simp only [Bool.and_eq_true] at h
      have hne : c.text.toList ≠ [] := by
        intro he
        rw [he, hcol] at h
        cases h.2
      simp [hne]
    · rfl

/-- What the reader makes of an encoded sheet. -/
theorem readSheet_encode (hh : Option Int) (s : DataSheet) (hw : 0 < s.width) :
    readSheet (s.encode .defaultStyle hh) =
    some ((sheetRows s.rows).foldl CsvSheet.enterRow {}) := by
  have hrows : ∀ row ∈ s.rows, row ≠ [] := by
    rintro row hr rfl
    have := s.rect [] hr
    simp at this
    omega
  have hpass := Libcsv.passes_rows hh 0 s.rows hrows
  have hevents :
    Libcsv.events ',' (s.encode .defaultStyle hh) =
    (sheetRows s.rows).flatMap CsvField.rowEvents := by
    unfold Libcsv.events DataSheet.encode
    rw [show ({ delim := ',' } : Parser) = atField .rowNotBegun from rfl, hpass.run_eq]
    exact List.append_nil _
  have hunmarked : ∀ row ∈ sheetRows s.rows, ∀ f ∈ row,
      CsvSheetReaderState.Unmarked { hasReader := false, sheet := some {} } f :=
      fun row _ f _ hr => by cases hr
  unfold readSheet
  rw [hevents]
  have :=
    @CsvSheetReaderState.events_rows { hasReader := false, sheet := some {} } _ CsvSheet.closed_new
    rfl _ hunmarked
  exact congrArg (Option.bind · (·.sheet)) this

/-! ## The sheets of the round trip -/

/-- A sheet of at least one row and one column, without NULL cells, whose cells have no end mark in
them and neither begin with an underscore nor end with a line end. -/
structure PlainSheet extends DataSheet where
  width_pos : 0 < width
  height_pos : rows ≠ []
  notNull : ∀ row ∈ rows, ∀ c ∈ row, c.escaped = false
  noNul : ∀ row ∈ rows, ∀ c ∈ row, '\x00' ∉ c.text.toList
  noUnderscore : ∀ row ∈ rows, ∀ c ∈ row, c.text.toList.head? ≠ some '_'
  noOpenEnd : ∀ row ∈ rows, ∀ c ∈ row, endsOpen c.text.toList = false

namespace PlainSheet

variable (s : PlainSheet)

/-- Written and read back, the sheet is what it was; of a single column, the lines with text in them
are left. -/
def Framed (hh : Option Int) : Prop :=
  ∃ sheet, readSheet (s.encode .defaultStyle hh) = some sheet ∧
    if s.width = 1 then sheet.arr = s.rows.filter fun row => row.any fun c => c.text != ""
    else sheet.arr = s.rows ∧ sheet.w = s.width ∧ sheet.h = s.rows.length

theorem slips_eq_false {t : List Char} (h : t.head? ≠ some '_') : slips t = false := by
  have hdrop : t.dropWhile (· == '_') = t := by
    cases t with
    | nil => rfl
    | cons a t =>
      have ha : a ≠ '_' := by simpa using h
      simp [ha]
  simp [slips, hdrop]

/-- The cells of such a sheet come back when they are not torn. -/
theorem comesBack_of_not_torn {row : List SheetCell} (hr : row ∈ s.rows)
    {c : SheetCell} (hc : c ∈ row)
    (ht : torn c.text.toList = false) : comesBack c.text.toList = true := by
  have hnul := s.noNul row hr c hc
  simp [comesBack, clean, ht, s.noOpenEnd row hr c hc,
    slips_eq_false (s.noUnderscore row hr c hc), hnul]

theorem kept_eq : kept s.rows =
    if s.width = 1 then s.rows.filter fun row => row.any fun c => c.text != "" else s.rows := by
  unfold kept
  split
  · next hw =>
    refine List.filter_congr fun row hr => ?_
    obtain ⟨c, rfl⟩ := List.length_eq_one_iff.1 ((s.rect row hr).trans hw)
    have := encodeCell_text_eq_nil (s.notNull _ hr c (List.mem_singleton_self c))
    rw [DataSheet.encodeCells, List.any_cons, List.any_nil, Bool.or_false, Bool.eq_iff_iff,
      bne_iff_ne, bne_iff_ne, Ne, Ne, this]
  · next hw =>
    rw [List.filter_eq_self]
    intro row hr
    have := s.rect row hr
    have := s.width_pos
    exact bne_iff_ne.2 (encodeCells_ne_nil (by omega))

theorem mem_kept {row : List SheetCell} (hr : row ∈ kept s.rows) : row ∈ s.rows :=
  (List.mem_filter.1 hr).1

/-- Lines without a torn cell come back, one row each. -/
theorem rows_of_not_torn {rows : List (List SheetCell)} (hrows : ∀ row ∈ rows, row ∈ s.rows)
    (ht : ∀ row ∈ rows, ∀ c ∈ row, torn c.text.toList = false) :
    (rows.flatMap lineRows).map (List.map readCell) = rows := by
  induction rows with
  | nil => rfl
  | cons row rows ih =>
    have hr := hrows row List.mem_cons_self
    obtain ⟨fields, hl, hread⟩ := lineRows_of_comesBack fun c hc =>
      ⟨s.notNull row hr c hc, s.comesBack_of_not_torn hr hc (ht row List.mem_cons_self c hc)⟩
    rw [List.flatMap_cons, hl, List.map_append, ih (fun r h => hrows r (List.mem_cons_of_mem _ h))
      fun r h => ht r (List.mem_cons_of_mem _ h)]
    simp [hread]

/-- A torn cell is in a line that is read. -/
theorem mem_kept_of_torn {row : List SheetCell} (hr : row ∈ s.rows) {c : SheetCell} (hc : c ∈ row)
    (ht : torn c.text.toList = true) : row ∈ kept s.rows := by
  rw [kept_eq]
  split
  · refine List.mem_filter.2 ⟨hr, List.any_eq_true.2 ⟨c, hc, ?_⟩⟩
    rw [bne_iff_ne]
    intro he
    rw [he] at ht
    cases ht
  · exact hr

/-- The rows that are read are the lines if and only if no cell is torn. -/
theorem rows_eq_iff : (sheetRows s.rows).map (List.map readCell) = kept s.rows ↔
    ∀ row ∈ s.rows, ∀ c ∈ row, torn c.text.toList = false := by
  rw [sheetRows_eq]
  constructor
  · intro h row hr c hc
    by_contra ht
    have hk := s.mem_kept_of_torn hr hc (by simpa using ht)
    have hlen : ((kept s.rows).flatMap lineRows).length ≤ (kept s.rows).length := by
      conv_rhs => rw [← h]
      rw [List.length_map]
    have hone := length_eq_one_of_flatMap (fun r _ => lineRows_ne_nil r) hlen row hk
    exact ht
      (torn_of_length_cellFields (s.notNull row hr c hc) (length_cellFields_of_lineRows hone c hc))
  · intro ht
    exact s.rows_of_not_torn (fun row hr => s.mem_kept hr) fun row hr => ht row (s.mem_kept hr)

/-- **What a CSV file keeps of a sheet**: everything, unless a cell is torn. -/
theorem framed_iff (hh : Option Int) :
    s.Framed hh ↔ ∀ row ∈ s.rows, ∀ c ∈ row, torn c.text.toList = false := by
  have harr :
    ((sheetRows s.rows).foldl CsvSheet.enterRow {}).arr = (sheetRows s.rows).map
      (List.map readCell) := CsvSheet.closed_new.arr_enterRows _
  rw [← s.rows_eq_iff, ← harr, kept_eq]
  unfold Framed
  rw [readSheet_encode hh s.toDataSheet s.width_pos]
  split
  · simp
  · next hw =>
    have hshape : ((sheetRows s.rows).foldl CsvSheet.enterRow {}).arr = s.rows →
        ((sheetRows s.rows).foldl CsvSheet.enterRow {}).w = s.width ∧
          ((sheetRows s.rows).foldl CsvSheet.enterRow {}).h = s.rows.length := by
      intro h
      have hread := harr.symm.trans h
      refine ⟨CsvSheet.closed_new.width_enterRows (Nat.zero_le _) ?_ ?_, ?_⟩
      · rintro hnil
        rw [hnil] at hread
        exact s.height_pos hread.symm
      · intro row hr
        have : row.map readCell ∈ s.rows := hread ▸ List.mem_map_of_mem hr
        simpa using s.rect _ this
      · rw [(CsvSheet.closed_new.enterRows _).h, h]
    simp only [Option.some.injEq, exists_eq_left']
    exact ⟨fun h => h.1, fun h => ⟨h, hshape h⟩⟩

/-- One row of two cells, the first with a quote at the start of its second line. -/
def quotedLine : PlainSheet where
  width := 2
  rows := [[⟨"a\n\"b", false⟩, ⟨"c", false⟩]]
  rect := by decide
  stored := by decide
  width_pos := by decide
  height_pos := by decide
  notNull := by decide
  noNul := by decide
  noUnderscore := by decide
  noOpenEnd := by decide

/-- It comes back as two rows. -/
theorem quotedLine_torn : readSheet (quotedLine.encode .defaultStyle none) = some
      { arr := [[⟨"a", false⟩], [⟨"b", false⟩, ⟨"c", false⟩]]
        w := 2
        th := 2
        h := 2
        valid := false } ∧
    ¬ quotedLine.Framed none := by
  have hread : readSheet (quotedLine.encode .defaultStyle none) = some
      { arr := [[⟨"a", false⟩], [⟨"b", false⟩, ⟨"c", false⟩]]
        w := 2
        th := 2
        h := 2
        valid := false } := by decide +kernel
  refine ⟨hread, ?_⟩
  rintro ⟨sheet, hs, hshape⟩
  rw [hread, Option.some.injEq] at hs
  rw [if_neg (by decide), ← hs] at hshape
  exact absurd hshape.1 (by decide)

end PlainSheet

end Coopy
