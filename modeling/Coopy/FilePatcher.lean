import Coopy.CsvDiffCalls
import Coopy.MergingPatcher
import Coopy.RowReplay

/-!
# The calls of a table diff, made on a patcher

A patcher that has a book with one sheet, as `Coopy::patch` has for a CSV file.  `mergeStart` goes
to the sheet, and `setSheet` goes there again.  The calls of a table diff then come to the edits of
its rows, in their order and from the end of the sheet.

    rows of plain changes → run (spoken rows) = some b, b's sheet = the edits of the rows,
      run from the end                                                                  (run_spoken)
-/

namespace Coopy

open Lib

/-- A patcher whose book has one sheet, found under any name (`ShortTextBook`), and no pools. -/
structure FilePatcher where
  patcher : SheetPatcher
  config : ConfigChange := {}
  sheetName : String := ""

namespace FilePatcher

/-- `createForApply`, with the book attached. -/
def createForApply (sheet : TypedSheet SheetCell) (assumeHeader : Bool) : FilePatcher where
  patcher :=
    { sheet
      assumeHeader
      activeCol := ⟨[], 0, ""⟩
      statusCol := ⟨[], 0, ""⟩ }

section
-- the names that the sniffer suggests for the columns of a sheet
variable (suggest : TypedSheet SheetCell → List String)

/-- `setNames` after a change of the sheet. -/
def setNames (p : SheetPatcher) : Option SheetPatcher :=
  SheetPatcher.updateCols
    { p with
      activeCol := ⟨[suggest p.sheet], (suggest p.sheet).length, ""⟩
      statusCol := ⟨[List.replicate (suggest p.sheet).length ""], (suggest p.sheet).length, ""⟩ }

def mergeStart (b : FilePatcher) : Option FilePatcher :=
  (setNames suggest { b.patcher with activeRow := ⟨[], 1, ""⟩ }).map fun p =>
  { b with patcher := p, sheetName := "" }

/-- `setSheet`; the names are asked for if the sheet has another name. -/
def setSheet (b : FilePatcher) (name : String) : Option FilePatcher :=
  let p := { b.patcher with rowCursor := -1, declaredNames := false, checkedHeader := false }
  if b.sheetName = name then some { b with patcher := p, config := {} }
  else (setNames suggest p).map fun p => { patcher := p, config := {}, sheetName := name }

/-- `changeName`; names that are to be trusted end the program. -/
def changeName (b : FilePatcher) (change : NameChange) : Option FilePatcher :=
  if b.config.trustNames then none else (b.patcher.changeName change).map fun p =>
  { b with patcher := p }

/-- `changeRow`, which declares the names of the row if none are declared. -/
def changeRow (b : FilePatcher) (change : RowChange) : Option FilePatcher :=
  if b.config.trustNames ∧ b.patcher.declaredNames = false then none
  else (b.patcher.changeRow change).map fun r => { b with patcher := r.1 }

def call (b : FilePatcher) : PatcherCall → Option FilePatcher
  | .mergeStart => b.mergeStart suggest
  | .setSheet name => b.setSheet suggest name
  | .changeConfig change => some { b with config := change }
  | .changeName change => b.changeName change
  | .changeColumn change => (b.patcher.changeColumn change).map fun r => { b with patcher := r.1 }
  | .changeRow change => b.changeRow change
  -- no row is put off where there are no pools, and only a description has to be updated
  | .mergeDone => some b
  | .mergeAllDone => some b

end

/-! ## The names -/

/-- The patcher is at the sheet, with its names entered. -/
structure At (names : List String) (header : Bool) (b : FilePatcher)
    (z : Zipper (List SheetCell)) : Prop where
  follows : SheetPatcher.Follows names header b.patcher z
  untrusting : b.config.trustNames = false

section
variable {suggest : TypedSheet SheetCell → List String} {names : List String} {header : Bool}
    {b : FilePatcher}
  {sheet : TypedSheet SheetCell}

/-- The sheet is gone to, and the cursor is at its end. -/
theorem setNames_follows {p : SheetPatcher} (hn : names.Nodup) (hu : "---" ∉ names)
    (hs : suggest p.sheet = names)
    (hw : p.sheet.w = names.length) (hrect : ∀ row ∈ p.sheet.arr, row.length = names.length)
    (hsyn : p.name2syn = []) (hcursor : p.rowCursor = -1) (hun : SheetPatcher.Unmarked p.activeRow)
    (hschema : p.schema = false) : ∃ q, setNames suggest p = some q ∧
    SheetPatcher.Follows names p.assumeHeader q (Zipper.atEnd p.sheet.arr) ∧
      q.sheet = p.sheet ∧ q.declaredNames = p.declaredNames := by
  unfold setNames
  rw [hs]
  have hupdate := @SheetPatcher.updateCols_eq names
    { p with
      activeCol := ⟨[names], names.length, ""⟩
      statusCol := ⟨[List.replicate names.length ""], names.length, ""⟩ } ⟨rfl, rfl⟩ hw
  have hknows := SheetPatcher.updateCols_knows hn hu
    (p := { p with
      activeCol := ⟨[names], names.length, ""⟩
      statusCol := ⟨[List.replicate names.length ""], names.length, ""⟩ }) ⟨rfl, rfl⟩ hsyn
  refine ⟨_, hupdate, ⟨hknows, hu, ⟨rfl, rfl⟩, hsyn, (Zipper.items_atEnd _).symm, hw, ?_, hcursor,
    hun, hschema, rfl⟩, rfl, rfl⟩
  rw [Zipper.items_atEnd]
  exact hrect

section
variable (hn : names.Nodup) (hu : "---" ∉ names) (hs : suggest sheet = names)
    (hw : sheet.w = names.length)
  (hrect : ∀ row ∈ sheet.arr, row.length = names.length)

include hn hu hs hw hrect

/-- The start of a merge. -/
theorem mergeStart_at (header : Bool) :
    ∃ b, (createForApply sheet header).mergeStart suggest = some b ∧
    b.At names header (Zipper.atEnd sheet.arr) ∧ b.patcher.sheet = sheet ∧
    b.patcher.declaredNames = false := by
  obtain ⟨q, hq, hfol, hsheet, hfirst⟩ := setNames_follows
    (p := { (createForApply sheet header).patcher with activeRow := ⟨[], 1, ""⟩ }) hn hu hs hw hrect
      rfl rfl
    ⟨rfl, fun row hrow => by cases hrow⟩ rfl
  refine ⟨⟨q, {}, ""⟩, ?_, ⟨hfol, rfl⟩, hsheet, hfirst⟩
  unfold mergeStart
  rw [hq]
  rfl

/-- The sheet is gone to again. -/
theorem At.setSheet (h : b.At names header (Zipper.atEnd sheet.arr))
    (hsheet : b.patcher.sheet = sheet) (name : String) :
    ∃ b', b.setSheet suggest name = some b' ∧ b'.At names header (Zipper.atEnd sheet.arr) ∧
    b'.patcher.sheet = sheet ∧
      b'.patcher.declaredNames = false := by
  have hfol := h.follows
  unfold FilePatcher.setSheet
  simp only
  split
  · exact ⟨_, rfl,
      ⟨⟨⟨hfol.knows.nodup, hfol.knows.found, hfol.knows.others⟩, hfol.usable, hfol.columns,
        hfol.no_synonyms,
      hfol.arr, hfol.width, hfol.rect, rfl, hfol.unmarked, hfol.schema, hfol.header⟩, rfl⟩, hsheet,
        rfl⟩
  · subst hsheet
    obtain ⟨q, hq, hfol', hsheet', hfirst'⟩ := setNames_follows
      (p := { b.patcher with rowCursor := -1, declaredNames := false, checkedHeader := false }) hn
        hu hs hw hrect
      hfol.no_synonyms rfl hfol.unmarked hfol.schema
    rw [hq]
    exact ⟨⟨q, {}, name⟩, rfl, ⟨hfol.header ▸ hfol', rfl⟩, hsheet', hfirst'⟩

end

/-- The names are declared for the first time. -/
theorem At.changeName {z : Zipper (List SheetCell)} (h : b.At names header z)
    (hfirst : b.patcher.declaredNames = false) (final constant : Bool) :
    ∃ b', b.changeName ⟨final, constant, names⟩ = some b' ∧ b'.At names header z ∧
    b'.patcher.sheet = b.patcher.sheet := by
  obtain ⟨p, hp, hfol, hsheet⟩ := h.follows.declareNames
  refine ⟨{ b with patcher := p }, ?_, ⟨hfol, h.untrusting⟩, hsheet⟩
  unfold FilePatcher.changeName SheetPatcher.changeName
  rw [h.untrusting, if_neg Bool.false_ne_true, hfirst, if_neg Bool.false_ne_true, hp]
  rfl

/-! ## The rows -/

/-- The rows are made by the patcher of the sheet. -/
theorem foldlM_changeRow (changes : List RowChange) :
    ∀ {b : FilePatcher}, b.config.trustNames = false →
    (changes.map PatcherCall.changeRow).foldlM (call suggest) b =
      (SheetPatcher.changeRows changes b.patcher).map fun p => { b with patcher := p } := by
  induction changes with
  | nil => exact fun _ => rfl
  | cons change changes ih =>
    intro b hb
    have hrow : b.call suggest (.changeRow change) = (b.patcher.changeRow change).map fun r =>
      { b with patcher := r.1 } := if_neg fun h => Bool.false_ne_true (hb.symm.trans h.1)
    rw [List.map_cons, List.foldlM_cons, hrow]
    unfold SheetPatcher.changeRows
    cases b.patcher.changeRow change with
    | none => rfl
    | some r => exact ih hb

/-- **The calls of a table diff.**  With or without a row, the sheet has the edits of the rows made
to it. -/
theorem run_spoken (hn : names.Nodup) (hu : "---" ∉ names) (hs : suggest sheet = names)
    (hw : sheet.w = names.length)
    (hrect : ∀ row ∈ sheet.arr, row.length = names.length) (header begun : Bool)
    (sheetName : String) {rows : List RowChange} (hplain : ∀ r ∈ rows, r.Plain names)
    (hmode : ∀ r ∈ rows, r.mode ≠ .context) :
    ∃ b, (CsvDiff.spoken begun sheetName names rows).foldlM (call suggest)
    (createForApply sheet header) = some b ∧
      b.patcher.sheet.arr =
      (Edit.run (rows.map (RowChange.edit names sheet.zero)) (Zipper.atEnd sheet.arr)).items := by
  obtain ⟨b₁, hstart, h₁, hsheet₁, hfirst₁⟩ := mergeStart_at hn hu hs hw hrect header
  -- what comes before the rows leaves the sheet as it is
  obtain ⟨b₂, hopen, h₂, hsheet₂⟩ :
    ∃ b₂, (if begun then CsvDiff.opening sheetName names else []).foldlM (call suggest) b₁ =
      some b₂ ∧ b₂.At names header (Zipper.atEnd sheet.arr) ∧ b₂.patcher.sheet = sheet := by
    cases begun with
    | false => exact ⟨b₁, rfl, h₁, hsheet₁⟩
    | true =>
      unfold CsvDiff.opening
      by_cases hname : sheetName = ""
      · obtain ⟨b₂, hb₂, h₂, hsheet₂⟩ := h₁.changeName hfirst₁ false false
        refine ⟨b₂, ?_, h₂, hsheet₂.trans hsheet₁⟩
        rw [if_pos rfl, if_pos hname]
        show (b₁.changeName ⟨false, false, names⟩).bind _ = _
        rw [hb₂]
        rfl
      · obtain ⟨b', hset, h', hsheet', hfirst'⟩ := h₁.setSheet hn hu hs hw hrect hsheet₁ sheetName
        obtain ⟨b₂, hb₂, h₂, hsheet₂⟩ := h'.changeName hfirst' false false
        refine ⟨b₂, ?_, h₂, hsheet₂.trans hsheet'⟩
        rw [if_pos rfl, if_neg hname]
        show (b₁.setSheet suggest sheetName).bind _ = _
        rw [hset]
        show (b'.changeName ⟨false, false, names⟩).bind _ = _
        rw [hb₂]
        rfl
  obtain ⟨p, hp, hfol⟩ := h₂.follows.changeRows rows hplain fun pre r post heq hm =>
    absurd hm (hmode r (by rw [heq]; exact List.mem_append_right _ List.mem_cons_self))
  refine ⟨{ b₂ with patcher := p }, ?_, ?_⟩
  · unfold CsvDiff.spoken
    rw [List.cons_append, List.foldlM_cons]
    show ((createForApply sheet header).mergeStart suggest).bind _ = _
    rw [hstart, Option.bind_some, List.foldlM_append, List.foldlM_append, hopen]
    show ((rows.map PatcherCall.changeRow).foldlM (call suggest) b₂).bind _ = _
    rw [foldlM_changeRow rows h₂.untrusting, hp]
    rfl
  · show p.sheet.arr = _
    rw [hfol.arr, hsheet₂]

end

end FilePatcher

end Coopy
