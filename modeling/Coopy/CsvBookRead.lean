import Coopy.CsvFraming
import Coopy.CsvTextBook

/-!
# The rows below a title

Below a title, each row goes into the sheet, but the first row that begins with a field of dashes:
it makes the row above it the header.  `bodyRow` says so for one row.  No text that comes out of a
file is torn, or has an end mark in it.

    title → rows without a title → the sheet rows.foldl (bodyRow name)            (events_body)
    a header above n rows leaves less than n - 1 of them                          (Tally.shown_lt)
-/

namespace Coopy

open Lib Libcsv

namespace CsvSheetReaderState

/-- A field that begins no sheet. -/
def NoTitle (f : CsvField) : Prop := f.2 = false → isTitle f.1 = false

/-- The dashes that end a header. -/
def breaks (f : CsvField) : Bool := !f.2 && isBreak f.1

/-- One row below the title `name`; the flag says that the header has ended. -/
def bodyRow (name : String) (b : Bool × CsvSheet) (fields : List CsvField) : Bool × CsvSheet :=
  match fields with
  | [] => (b.1, b.2.addRecord)
  | f :: fs =>
    if breaks f && !b.1 then (true, (fs.map readCell).foldl CsvSheet.addCell (b.2.withHeader name))
    else (b.1, b.2.enterRow (f :: fs))

theorem bodyRow_break (name : String) (sheet : CsvSheet) {f : CsvField} (h : breaks f = true)
    (fs : List CsvField) : bodyRow name (false, sheet) (f :: fs) =
    (true, (fs.map readCell).foldl CsvSheet.addCell (sheet.withHeader name)) := by
  rw [bodyRow, h]
  rfl

theorem bodyRow_enter (name : String) {b : Bool × CsvSheet} {f : CsvField}
    (h : breaks f = false ∨ b.1 = true)
    (fs : List CsvField) : bodyRow name b (f :: fs) = (b.1, b.2.enterRow (f :: fs)) := by
  rw [bodyRow, if_neg]
  rcases h with h | h <;> simp [h]

/-- A row is the one that ends the header, or goes into the sheet. -/
theorem bodyRow_cases (name : String) (b : Bool × CsvSheet) (fields : List CsvField) :
    (∃ f fs, fields = f :: fs ∧ b.1 = false ∧ breaks f = true ∧
      bodyRow name b fields =
        (true, (fs.map readCell).foldl CsvSheet.addCell (b.2.withHeader name))) ∨
    bodyRow name b fields = (b.1, b.2.enterRow fields) := by
  obtain ⟨broken, sheet⟩ := b
  cases fields with
  | nil => exact Or.inr rfl
  | cons f fs =>
    cases hb : breaks f with
    | false => exact Or.inr (bodyRow_enter name (Or.inl hb) fs)
    | true =>
      cases broken with
      | false => exact Or.inl ⟨f, fs, rfl, rfl, hb, bodyRow_break name sheet hb fs⟩
      | true => exact Or.inr (bodyRow_enter name (Or.inr rfl) fs)

/-- Below a title, between two rows. -/
def inBody (st : CsvSheetReaderState) (b : Bool × CsvSheet) : CsvSheetReaderState :=
  { st with expecting := true, ignore := false, broken := b.1, sheet := some b.2 }

/-- Below a title, inside the row that ends the header. -/
def inBreak (st : CsvSheetReaderState) (expecting : Bool) (sheet : CsvSheet) :
    CsvSheetReaderState :=
  { st with expecting := expecting, ignore := true, broken := true, sheet := some sheet }

theorem unmarked_of_broken {st : CsvSheetReaderState} (hb : st.broken = true) {f : CsvField}
    (hf : NoTitle f) : Unmarked st f :=
  fun _ hq => ⟨hf hq, fun _ _ => hb⟩

theorem events_inBreak {st : CsvSheetReaderState} {sheet : CsvSheet}
    (hstyle : sheet.style = .defaultStyle)
    {fields : List CsvField} (hf : ∀ f ∈ fields, NoTitle f) (e : Bool) :
    (st.inBreak e sheet).events (fields.map CsvField.event ++ [.row]) =
      some (st.inBody (true, (fields.map readCell).foldl CsvSheet.addCell sheet)) := by
  induction fields generalizing sheet e with
  | nil => rfl
  | cons f fields ih =>
    have hu : Unmarked (st.inBreak e sheet) f := unmarked_of_broken rfl (hf f List.mem_cons_self)
    rw [List.map_cons, List.cons_append, events_cons]
    rw [show (st.inBreak e sheet).event f.event =
      some ((st.inBreak e sheet).inRecord (sheet.addCell (readCell f))) from
      event_field rfl hstyle hu]
    exact @ih (sheet.addCell (readCell f)) hstyle (fun g hg => hf g (List.mem_cons_of_mem _ hg))
      false

/-- One row. -/
theorem events_bodyRow {st : CsvSheetReaderState} (hr : st.hasReader = true) (hn : st.named = true)
    {b : Bool × CsvSheet}
    (hstyle : b.2.style = .defaultStyle) {fields : List CsvField} (hf : ∀ f ∈ fields, NoTitle f) :
    (st.inBody b).events (CsvField.rowEvents fields) =
    some (st.inBody (bodyRow st.name b fields)) := by
  cases fields with
  | nil => rfl
  | cons f fields =>
    have htitle := hf f List.mem_cons_self
    have hfs : ∀ g ∈ fields, NoTitle g := fun g hg => hf g (List.mem_cons_of_mem _ hg)
    obtain ⟨broken, sheet⟩ := b
    by_cases hb : breaks f = true ∧ broken = false
    · obtain ⟨hb, rfl⟩ := hb
      have hqd := hb
      simp only [breaks, Bool.and_eq_true, Bool.not_eq_true'] at hqd
      have hmark :
        (st.inBody (false, sheet)).event f.event =
        some (st.inBreak true (sheet.withHeader st.name)) := by
        show (st.inBody (false, sheet)).mergeCb1 f.1 f.2 = _
        unfold mergeCb1
        rw [if_neg (by simp [htitle hqd.1]), if_pos (by simp [inBody, hr, hn, hqd])]
        simp [markBreak, inBody, inBreak, hn]
      rw [CsvField.rowEvents, List.map_cons, List.cons_append, events_cons, hmark,
        bodyRow_break _ _ hb]
      exact @events_inBreak st (sheet.withHeader st.name) hstyle _ hfs true
    · have henter : breaks f = false ∨ broken = true := by
        cases broken <;> simp_all
      have hun : Unmarked (st.inBody (broken, sheet)) f := by
        intro _ hq
        refine ⟨htitle hq, fun hd _ => ?_⟩
        rcases henter with h | h
        · simp [breaks, hq, hd] at h
        · exact h
      rw [bodyRow_enter _ henter, CsvField.rowEvents, List.map_cons, List.cons_append, events_cons,
        show (st.inBody (broken, sheet)).event f.event =
          some ((st.inBody (broken, sheet)).inRecord (sheet.addCell (readCell f)))
            from event_field rfl hstyle hun]
      -- inside a record no field is looked at
      have hin : ∀ (fs : List CsvField) (rest : CsvSheet), rest.style = .defaultStyle →
          ((st.inBody (broken, sheet)).inRecord rest).events (fs.map CsvField.event ++ [.row]) =
            some (st.inBody
              (broken, ((fs.map readCell).foldl CsvSheet.addCell rest).addRecord)) := by
        intro fs
        induction fs with
        | nil => intro rest _; rfl
        | cons g fs ih =>
          intro rest hs
          have hstep : ((st.inBody (broken, sheet)).inRecord rest).event g.event =
              some ((st.inBody (broken, sheet)).inRecord (rest.addCell (readCell g))) := by
            show ((st.inBody (broken, sheet)).inRecord rest).mergeCb1 g.1 g.2 = _
            unfold mergeCb1
            rw [if_neg (by simp [inRecord]), if_neg (by simp [inRecord])]
            simp only [enterField, inRecord, Option.isNone_some, Bool.false_eq_true, if_false, hs]
            rfl
          rw [List.map_cons, List.cons_append, events_cons, hstep]
          exact ih _ hs
      exact hin fields _ hstyle

theorem style_enterRow {sheet : CsvSheet} (fields : List CsvField) :
    (sheet.enterRow fields).style = sheet.style := by
  simp [CsvSheet.enterRow, CsvSheet.foldl_addCell, CsvSheet.addRecord]

theorem bodyRow_style (name : String) {b : Bool × CsvSheet} (h : b.2.style = .defaultStyle)
    (fields : List CsvField) : (bodyRow name b fields).2.style = .defaultStyle := by
  rcases bodyRow_cases name b fields with ⟨f, fs, -, -, -, hb⟩ | hb
  · rw [hb, CsvSheet.foldl_addCell]
    exact h
  · rw [hb]
    exact (style_enterRow fields).trans h

/-- **The rows below a title.** -/
theorem events_body {st : CsvSheetReaderState} (hr : st.hasReader = true) (hn : st.named = true)
    {b : Bool × CsvSheet} (hstyle : b.2.style = .defaultStyle) {rows : List (List CsvField)}
    (hf : ∀ row ∈ rows, ∀ f ∈ row, NoTitle f) :
    (st.inBody b).events (rows.flatMap CsvField.rowEvents) =
    some (st.inBody (rows.foldl (bodyRow st.name) b)) := by
  induction rows generalizing b with
  | nil => rfl
  | cons row rows ih =>
    rw [List.flatMap_cons, events_append, events_bodyRow hr hn hstyle (hf row List.mem_cons_self)]
    exact ih (bodyRow_style _ hstyle row) fun r h => hf r (List.mem_cons_of_mem _ h)

/-! ## What is left of the rows -/

/-- What is known of a sheet after `n` rows: without a header, or with one that took its rows. -/
structure Tally (n : Nat) (b : Bool × CsvSheet) : Prop where
  h : b.2.h = b.2.arr.length
  th : b.2.th = b.2.arr.length
  w : b.2.arr = [] → b.2.w = 0
  unbroken : b.1 = false → b.2.schema = none ∧ b.2.arr.length = n
  broken : b.1 = true → b.2.arr.length + 1 = n ∧ ∃ schema, b.2.schema = some schema ∧
    (schema.columns = [] ∨ (0 ≤ schema.headerHeight ∧ 1 ≤ b.2.arr.length))

theorem Tally.new : Tally 0 (false, {}) := ⟨rfl, rfl, fun _ => rfl, fun _ => ⟨rfl, rfl⟩, nofun⟩

theorem Tally.bodyRow {n : Nat} {b : Bool × CsvSheet} (t : Tally n b) (name : String)
    (fields : List CsvField) : Tally (n + 1) (CsvSheetReaderState.bodyRow name b fields) := by
  rcases bodyRow_cases name b fields with ⟨f, fs, -, hfalse, -, hb⟩ | hb
  · rw [hb, CsvSheet.foldl_addCell]
    refine ⟨t.h, t.th, t.w, nofun, fun _ => ⟨by rw [← (t.unbroken hfalse).2]; rfl, _, rfl, ?_⟩⟩
    by_cases harr : b.2.arr = []
    · exact Or.inl (by simp [t.w harr])
    · have hpos := List.length_pos_of_ne_nil harr
      refine Or.inr ⟨?_, hpos⟩
      simp only [t.h]
      omega
  · have henter : (b.2.enterRow fields).arr.length = b.2.arr.length + 1 := by
      simp [CsvSheet.enterRow, CsvSheet.foldl_addCell, CsvSheet.addRecord]
    have hth : (b.2.enterRow fields).th = b.2.th + 1 ∧ (b.2.enterRow fields).h = b.2.th + 1 ∧
        (b.2.enterRow fields).schema = b.2.schema := by
      simp [CsvSheet.enterRow, CsvSheet.foldl_addCell, CsvSheet.addRecord]
    rw [hb]
    refine ⟨by simp only [hth, henter, t.th], by simp only [hth, henter, t.th],
      fun h => ?_, fun h => ?_, fun h => ?_⟩
    · rw [h] at henter
      cases henter
    · exact ⟨hth.2.2.trans (t.unbroken h).1, by rw [henter, (t.unbroken h).2]⟩
    · obtain ⟨hlen, schema, hs, hcol⟩ := t.broken h
      refine ⟨by rw [henter, hlen], schema, hth.2.2.trans hs, hcol.imp_right fun hc => ⟨hc.1, ?_⟩⟩
      rw [henter]
      omega

theorem Tally.body {n : Nat} {b : Bool × CsvSheet} (t : Tally n b) (name : String)
    (rows : List (List CsvField)) :
    Tally (n + rows.length) (rows.foldl (CsvSheetReaderState.bodyRow name) b) := by
  induction rows generalizing n b with
  | nil => exact t
  | cons row rows ih =>
    have := ih (t.bodyRow name row)
    rw [List.length_cons, Nat.add_comm rows.length, ← Nat.add_assoc]
    exact this

/-- **A header costs two rows**: itself and its dashes. -/
theorem Tally.shown_lt {n : Nat} {b : Bool × CsvSheet} (t : Tally n b) {columns : List String}
    (hne : columns ≠ [])
    (hs : b.2.schema.map (·.columns) = some columns) : b.2.shownRows.length + 2 ≤ n := by
  cases hb : b.1 with
  | false =>
    rw [(t.unbroken hb).1] at hs
    cases hs
  | true =>
    obtain ⟨hlen, schema, hsch, hcol⟩ := t.broken hb
    rw [hsch, Option.map_some, Option.some.injEq] at hs
    obtain ⟨hh, hpos⟩ := hcol.resolve_left (hs ▸ hne)
    have hoff : b.2.rowOffset = (schema.headerHeight + 1).toNat := by
      rw [CsvSheet.rowOffset, hsch]
      exact if_pos hh
    rw [CsvSheet.shownRows, List.length_map, List.length_drop, hoff]
    omega

/-! ## What the texts are -/

/-- A property of texts that the cells of a sheet and the names above them have. -/
structure AllTexts (Q : List Char → Prop) (sheet : CsvSheet) : Prop where
  nil : Q []
  arr : ∀ row ∈ sheet.arr, ∀ c ∈ row, Q c.text.toList
  record : ∀ c ∈ sheet.record, Q c.text.toList
  columns : ∀ schema ∈ sheet.schema, ∀ name ∈ schema.columns, Q name.toList

variable {Q : List Char → Prop}

theorem AllTexts.new (h : Q []) : AllTexts Q {} :=
  ⟨h, nofun, nofun, nofun⟩

theorem AllTexts.cellAt {sheet : CsvSheet} (a : AllTexts Q sheet) (row : List SheetCell)
    (hrow : row ∈ sheet.arr ∨ row = []) (x : Nat) : Q (row.getD x ⟨"", false⟩).text.toList := by
  rcases lt_or_ge x row.length with hx | hx
  · rw [List.getD_eq_getElem _ _ hx]
    rcases hrow with hrow | rfl
    · exact a.arr row hrow _ (List.getElem_mem hx)
    · cases hx
  · rw [List.getD_eq_default _ _ hx]
    exact a.nil

theorem AllTexts.addCells {sheet : CsvSheet} (a : AllTexts Q sheet) {cells : List SheetCell}
    (hc : ∀ c ∈ cells, Q c.text.toList) : AllTexts Q (cells.foldl CsvSheet.addCell sheet) := by
  rw [CsvSheet.foldl_addCell]
  exact ⟨a.nil, a.arr, fun c h => (List.mem_append.1 h).elim (a.record c) (hc c), a.columns⟩

theorem AllTexts.addRecord {sheet : CsvSheet} (a : AllTexts Q sheet) : AllTexts Q sheet.addRecord :=
  ⟨a.nil, fun row h => (List.mem_append.1 h).elim (a.arr row) fun h =>
    List.mem_singleton.1 h ▸ a.record, nofun, a.columns⟩

theorem AllTexts.withHeader {sheet : CsvSheet} (a : AllTexts Q sheet) (name : String) :
    AllTexts Q (sheet.withHeader name) := by
  refine ⟨a.nil, a.arr, a.record, ?_⟩
  rintro schema hs
  cases hs
  intro text ht
  obtain ⟨x, -, rfl⟩ := List.mem_map.1 ht
  refine a.cellAt _ ?_ x
  rcases lt_or_ge (sheet.h - 1) sheet.arr.length with hy | hy
  · rw [List.getD_eq_getElem _ _ hy]
    exact Or.inl (List.getElem_mem hy)
  · exact Or.inr (List.getD_eq_default _ _ hy)

theorem AllTexts.body {b : Bool × CsvSheet} (a : AllTexts Q b.2) (name : String)
    {rows : List (List CsvField)} (hq : ∀ row ∈ rows, ∀ f ∈ row, Q (readCell f).text.toList) :
    AllTexts Q (rows.foldl (bodyRow name) b).2 := by
  induction rows generalizing b with
  | nil => exact a
  | cons row rows ih =>
    have hrow := hq row List.mem_cons_self
    refine ih (b := bodyRow name b row) ?_ fun r h => hq r (List.mem_cons_of_mem _ h)
    rcases bodyRow_cases name b row with ⟨f, fs, rfl, -, -, hb⟩ | hb
    · rw [hb]
      exact (a.withHeader name).addCells fun c hc => by
        obtain ⟨g, hg, rfl⟩ := List.mem_map.1 hc
        exact hrow g (List.mem_cons_of_mem _ hg)
    · rw [hb]
      exact (a.addCells fun c hc => by
        obtain ⟨g, hg, rfl⟩ := List.mem_map.1 hc
        exact hrow g hg).addRecord

theorem AllTexts.shown {sheet : CsvSheet} (a : AllTexts Q sheet) :
    ∀ row ∈ sheet.shownRows, ∀ c ∈ row, Q c.text.toList := by
  intro row hr c hc
  obtain ⟨arrRow, ha, rfl⟩ := List.mem_map.1 hr
  obtain ⟨x, -, rfl⟩ := List.mem_map.1 hc
  exact a.cellAt arrRow (Or.inl (List.mem_of_mem_drop ha)) x

end CsvSheetReaderState

end Coopy
