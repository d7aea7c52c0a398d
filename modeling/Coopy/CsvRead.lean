import Coopy.CsvEncode

/-!
# Reading CSV into sheets

`CsvSheet` is filled a field and a record at a time; the two callbacks of `CsvRead` decide, for each
field and each row that the tokeniser reports, what goes in.  With a `CsvSheetReader` behind them
they also look out for the marks of a file of several sheets: `== name ==` begins a sheet, and a
line of dashes makes the row above it the header.
-/

namespace Coopy

open Libcsv (Event)

/-- What `markBreak` puts in a `SimpleSheetSchema`. -/
structure CsvSchema where
  headerHeight : Int
  columns : List String
  sheetName : String
deriving DecidableEq, Repr

structure CsvSheet where
  arr : List (List SheetCell) := []
  record : List SheetCell := []
  tw : Nat := 0
  th : Nat := 0
  w : Nat := 0
  h : Nat := 0
  valid : Bool := true
  style : SheetStyle := .defaultStyle
  schema : Option CsvSchema := none
deriving DecidableEq, Repr

namespace CsvSheet

def addCell (sheet : CsvSheet) (c : SheetCell) : CsvSheet :=
  { sheet with record := sheet.record ++ [c], tw := sheet.tw + 1 }

def addField (sheet : CsvSheet) (s : List Char) (escaped : Bool) : CsvSheet :=
  sheet.addCell ⟨String.ofList (cString s), escaped⟩

def addRecord (sheet : CsvSheet) : CsvSheet :=
  { sheet with
    arr := sheet.arr ++ [sheet.record]
    record := []
    valid := if sheet.w ≠ sheet.tw ∧ sheet.w ≠ 0 then false else sheet.valid
    w := max sheet.w sheet.tw
    tw := 0
    th := sheet.th + 1
    h := sheet.th + 1 }

/-- `cellString`: a cell that a short record does not have is an empty text. -/
def cellString (sheet : CsvSheet) (x y : Nat) : String :=
  ((sheet.arr.getD y []).getD x ⟨"", false⟩).text

/-- The sheet with its last row as header. -/
def withHeader (sheet : CsvSheet) (sheetName : String) : CsvSheet :=
  { sheet with
    schema := some
      { headerHeight := (sheet.h : Int) - 1
        columns := (List.range sheet.w).map fun i => sheet.cellString i (sheet.h - 1)
        sheetName := sheetName } }

/-- `setRowOffset`: the rows up to the header are not seen through the `PolySheet`. -/
def rowOffset (sheet : CsvSheet) : Nat :=
  match sheet.schema with
  | none => 0
  | some schema => if 0 ≤ schema.headerHeight then (schema.headerHeight + 1).toNat else 0

/-- The rows that are seen, each as wide as the sheet. -/
def shownRows (sheet : CsvSheet) : List (List SheetCell) :=
  (sheet.arr.drop sheet.rowOffset).map fun row => (List.range sheet.w).map fun x =>
  row.getD x ⟨"", false⟩

end CsvSheet

structure CsvSheetReaderState where
  -- `reader != NULL`
  hasReader : Bool
  -- the sheets that the reader has given out before this one, under their names
  closed : List (String × CsvSheet) := []
  sheet : Option CsvSheet := none
  expecting : Bool := true
  ignore : Bool := false
  name : String := ""
  named : Bool := false
  broken : Bool := false
deriving DecidableEq, Repr

/-- `coopy_get_default_table_name`. -/
def defaultTableName : String := "sheet"

namespace CsvSheetReaderState

/-- All sheets that the reader has given out. -/
def sheets (st : CsvSheetReaderState) : List (String × CsvSheet) :=
  st.closed ++ (st.sheet.map fun sheet => (st.name, sheet)).toList

def addSheet (st : CsvSheetReaderState) (name : String) (named : Bool) : CsvSheetReaderState :=
  { st with
    closed := if st.hasReader then st.sheets else st.closed
    sheet := if st.hasReader then some {} else st.sheet
    name := name
    named := named
    broken := false }

def markBreak (st : CsvSheetReaderState) : CsvSheetReaderState :=
  { st with
    broken := true
    sheet := st.sheet.map fun sheet => sheet.withHeader (if st.named then st.name else "") }

/-- The last place, from the fourth on, of a blank before an equals sign.  (A field without quotes
does not end with a blank, so what stands behind it is not looked at.) -/
def titleEnd (s : List Char) : Option Nat :=
  ((List.range (s.length - 1)).filter fun j => 3 ≤ j && s[j]? == some ' ' && s[j + 1]? ==
    some '=').getLast?

def isTitle (s : List Char) : Bool := 4 < s.length && s.take 3 == "== ".toList

def isBreak (s : List Char) : Bool :=
  s.all (fun c => c == '-' || c == '\n' || c == '\r') && 3 < s.length

/-- The cell that a field stands for, before it is cut off at an end mark. -/
def fieldCell (style : SheetStyle) (s : List Char) : List Char × Bool :=
  if style.haveNull then
    let token := style.nullToken
    let rest := s.dropWhile (· == '_')
    if token == s then (s, true)
    else if style.quoteCollision && rest.length < s.length &&
      rest.isPrefixOf (token ++ ['\x00']) then (s.drop 1, false)
    else (s, false)
  else (s, false)

/-- The field goes into the sheet there is, or into a first one without a name. -/
def enterField (st : CsvSheetReaderState) (s : List Char) : CsvSheetReaderState :=
  let st := if st.sheet.isNone then st.addSheet defaultTableName false else st
  match st.sheet with
  | none => st
  | some sheet =>
    let (text, escaped) := fieldCell sheet.style s
    { st with expecting := false, sheet := some (sheet.addField text escaped) }

/-- `csvfile_merge_cb1`.  `none` is a name that does not end inside its field: the source reads on
behind it. -/
def mergeCb1 (st : CsvSheetReaderState) (s : List Char) (quoted : Bool) :
    Option CsvSheetReaderState :=
  if st.expecting && st.hasReader && !quoted && isTitle s then
    (titleEnd s).map fun j =>
      { st.addSheet (String.ofList (cString ((s.take j).drop 3))) true with ignore := true }
  else if st.expecting && st.hasReader && !quoted && isBreak s && st.named && !st.broken then
    some { st.markBreak with ignore := true }
  else some (st.enterField s)

/-- `csvfile_merge_cb2`. -/
def mergeCb2 (st : CsvSheetReaderState) : CsvSheetReaderState :=
  let st := { st with expecting := true }
  match st.sheet with
  | none => st
  | some sheet =>
    if st.ignore then { st with ignore := false } else { st with sheet := some sheet.addRecord }

def event (st : CsvSheetReaderState) : Event → Option CsvSheetReaderState
  | .field s quoted => st.mergeCb1 s quoted
  | .row => some st.mergeCb2

def events (st : CsvSheetReaderState) (es : List Event) : Option CsvSheetReaderState :=
  es.foldlM event st

/-! ## Fields that mark nothing -/

/-- The cell that a field leaves in a sheet of the default style. -/
def readCell (f : List Char × Bool) : SheetCell :=
  ⟨String.ofList (cString (fieldCell .defaultStyle f.1).1), (fieldCell .defaultStyle f.1).2⟩

/-- A field that neither begins a sheet nor closes its header. -/
def Unmarked (st : CsvSheetReaderState) (f : List Char × Bool) : Prop :=
  st.hasReader = true → f.2 = false → isTitle f.1 = false ∧
  (isBreak f.1 = true → st.named = true → st.broken = true)

theorem mergeCb1_unmarked {st : CsvSheetReaderState} {f : List Char × Bool} (h : Unmarked st f) :
    st.mergeCb1 f.1 f.2 = some (st.enterField f.1) := by
  unfold mergeCb1
  rw [if_neg, if_neg]
  · intro hb
    simp only [Bool.and_eq_true, Bool.not_eq_true'] at hb
    obtain ⟨⟨⟨⟨⟨-, hr⟩, hq⟩, hd⟩, hn⟩, hbroken⟩ := hb
    rw [(h hr hq).2 hd hn] at hbroken
    cases hbroken
  · intro ht
    simp only [Bool.and_eq_true, Bool.not_eq_true'] at ht
    obtain ⟨⟨⟨-, hr⟩, hq⟩, ht⟩ := ht
    rw [(h hr hq).1] at ht
    cases ht

end CsvSheetReaderState

namespace CsvSheet

open CsvSheetReaderState (readCell)

/-- A row of fields put into a sheet. -/
def enterRow (sheet : CsvSheet) (fields : List (List Char × Bool)) : CsvSheet :=
  ((fields.map readCell).foldl addCell sheet).addRecord

theorem foldl_addCell (cells : List SheetCell) (sheet : CsvSheet) :
    cells.foldl addCell sheet =
    { sheet with record := sheet.record ++ cells, tw := sheet.tw + cells.length } := by
  induction cells generalizing sheet with
  | nil => simp
  | cons c cells ih =>
    rw [List.foldl_cons, ih]
    simp [addCell, Nat.add_assoc, Nat.add_comm 1]

/-- Between records. -/
structure Closed (sheet : CsvSheet) : Prop where
  record : sheet.record = []
  tw : sheet.tw = 0
  style : sheet.style = .defaultStyle
  th : sheet.th = sheet.arr.length
  h : sheet.h = sheet.arr.length

theorem closed_new : Closed {} := ⟨rfl, rfl, rfl, rfl, rfl⟩

theorem Closed.enterRow {sheet : CsvSheet} (h : sheet.Closed) (fields : List (List Char × Bool)) :
    (sheet.enterRow fields).Closed :=
  ⟨rfl, rfl, by simp [CsvSheet.enterRow, foldl_addCell, addRecord, h.style],
    by simp [CsvSheet.enterRow, foldl_addCell, addRecord, h.th], by
      simp [CsvSheet.enterRow, foldl_addCell, addRecord, h.th]⟩

theorem Closed.enterRows {sheet : CsvSheet} (h : sheet.Closed)
    (rows : List (List (List Char × Bool))) : (rows.foldl CsvSheet.enterRow sheet).Closed := by
  induction rows generalizing sheet with
  | nil => exact h
  | cons row rows ih => exact ih (h.enterRow row)

theorem Closed.arr_enterRows {sheet : CsvSheet} (h : sheet.Closed)
    (rows : List (List (List Char × Bool))) :
    (rows.foldl CsvSheet.enterRow sheet).arr = sheet.arr ++ rows.map (List.map readCell) := by
  induction rows generalizing sheet with
  | nil => simp
  | cons row rows ih =>
    rw [List.foldl_cons, ih (h.enterRow row)]
    simp [CsvSheet.enterRow, foldl_addCell, addRecord, h.record]

/-- The width of a sheet whose rows are all of one length. -/
theorem Closed.width_enterRows {sheet : CsvSheet} (h : sheet.Closed) {width : Nat}
    (hw : sheet.w ≤ width) {rows : List (List (List Char × Bool))} (hne : rows ≠ [])
    (hrows : ∀ row ∈ rows, row.length = width) :
    (rows.foldl CsvSheet.enterRow sheet).w = width := by
  induction rows generalizing sheet with
  | nil => exact absurd rfl hne
  | cons row rows ih =>
    have hrow : (sheet.enterRow row).w = width := by
      simp [CsvSheet.enterRow, foldl_addCell, addRecord, h.tw, hrows row List.mem_cons_self, hw]
    rw [List.foldl_cons]
    cases rows with
    | nil => exact hrow
    | cons r rows =>
      exact ih (h.enterRow row) (Nat.le_of_eq hrow) (by simp) fun r hr =>
        hrows r (List.mem_cons_of_mem _ hr)

end CsvSheet

namespace CsvSheetReaderState

/-- Inside a record of a sheet. -/
def inRecord (st : CsvSheetReaderState) (sheet : CsvSheet) : CsvSheetReaderState :=
  { st with expecting := false, sheet := some sheet }

/-- Between two records of a sheet. -/
def betweenRecords (st : CsvSheetReaderState) (sheet : CsvSheet) : CsvSheetReaderState :=
  { st with expecting := true, sheet := some sheet }

theorem event_field {st : CsvSheetReaderState} {sheet : CsvSheet} (hs : st.sheet = some sheet)
    (hstyle : sheet.style = .defaultStyle) {f : List Char × Bool} (hf : Unmarked st f) :
    st.event (.field f.1 f.2) = some (st.inRecord (sheet.addCell (readCell f))) := by
  show st.mergeCb1 f.1 f.2 = _
  rw [mergeCb1_unmarked hf]
  unfold enterField
  simp only [hs, Option.isNone_some, Bool.false_eq_true, if_false, hstyle]
  rfl

theorem events_append (st : CsvSheetReaderState) (es fs : List Event) :
    st.events (es ++ fs) = (st.events es).bind fun st => st.events fs := by
  unfold events
  rw [List.foldlM_append]
  rfl

theorem events_cons (st : CsvSheetReaderState) (e : Event) (es : List Event) :
    st.events (e :: es) = (st.event e).bind fun st => st.events es := rfl

theorem events_fields {st : CsvSheetReaderState} {sheet : CsvSheet}
    (hstyle : sheet.style = .defaultStyle)
    {fields : List (List Char × Bool)} (hf : ∀ f ∈ fields, Unmarked st f) :
    (st.inRecord sheet).events (fields.map fun f => .field f.1 f.2) =
      some (st.inRecord ((fields.map readCell).foldl CsvSheet.addCell sheet)) := by
  induction fields generalizing sheet with
  | nil => rfl
  | cons f fields ih =>
    rw [List.map_cons, events_cons,
      @event_field (st.inRecord sheet) _ rfl hstyle _ (hf f List.mem_cons_self)]
    exact @ih (sheet.addCell (readCell f)) hstyle fun g hg => hf g (List.mem_cons_of_mem _ hg)

/-- One row of unmarked fields. -/
theorem events_row {st : CsvSheetReaderState} {sheet : CsvSheet}
    (hstyle : sheet.style = .defaultStyle)
    (hi : st.ignore = false) {fields : List (List Char × Bool)} (hf : ∀ f ∈ fields, Unmarked st f) :
    (st.betweenRecords sheet).events (fields.map (fun f => .field f.1 f.2) ++ [.row]) =
      some (st.betweenRecords (sheet.enterRow fields)) := by
  have hrow :
    ∀ sheet : CsvSheet, (st.inRecord sheet).events [.row] =
    some (st.betweenRecords sheet.addRecord) := by
    intro sheet
    simp [events, event, mergeCb2, inRecord, betweenRecords, hi]
  cases fields with
  | nil => simp [events, event, mergeCb2, betweenRecords, hi, CsvSheet.enterRow]
  | cons f fields =>
    rw [List.map_cons, List.cons_append, events_cons,
      @event_field (st.betweenRecords sheet) _ rfl hstyle _ (hf f List.mem_cons_self)]
    show ((st.inRecord (sheet.addCell (readCell f))).events _) = _
    rw [events_append, @events_fields _ (sheet.addCell (readCell f)) hstyle _
      fun g hg => hf g (List.mem_cons_of_mem _ hg)]
    exact hrow _

/-- **Rows of unmarked fields** go into the sheet as they are. -/
theorem events_rows {st : CsvSheetReaderState} {sheet : CsvSheet} (hc : sheet.Closed)
    (hi : st.ignore = false) {rows : List (List (List Char × Bool))}
    (hf : ∀ row ∈ rows, ∀ f ∈ row, Unmarked st f) :
    (st.betweenRecords sheet).events (rows.flatMap fun row => row.map (fun f => .field f.1 f.2) ++
      [.row]) = some (st.betweenRecords (rows.foldl CsvSheet.enterRow sheet)) := by
  induction rows generalizing sheet with
  | nil => rfl
  | cons row rows ih =>
    rw [List.flatMap_cons, events_append, events_row hc.style hi (hf row List.mem_cons_self)]
    exact ih (hc.enterRow row) fun r hr => hf r (List.mem_cons_of_mem _ hr)

/-! ## Reading a text -/

/-- `read` for one sheet and no reader. -/
def readSheet (text : List Char) : Option CsvSheet :=
  (events { hasReader := false, sheet := some {} } (Libcsv.events ',' text)).bind (·.sheet)

/-- `read` into the sheets of a reader. -/
def readSheets (text : List Char) : Option (List (String × CsvSheet)) :=
  (events { hasReader := true } (Libcsv.events ',' text)).map sheets

end CsvSheetReaderState

end Coopy
