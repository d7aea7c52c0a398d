import Coopy.CsvRead
import Coopy.Patcher
import Coopy.Lib.Containers

/-!
# `MergeOutputCsvDiff`: changes written as a table

Every change becomes one or two lines of a sheet.  A line says in its first two fields what it does;
the others belong to the active columns, and header lines say which these are and what each is for.
A header line is written only where something has changed.

    column name …, link name …          the columns of the lines that follow
    link act …                          `*` to match, `=` to assign, `*=` for both
    row insert …, row update …          one row
-/

namespace Coopy

open Lib

namespace CsvSheet

/-- A cell as `addField` keeps it. -/
def stored (c : SheetCell) : SheetCell := ⟨String.ofList (cString c.text.toList), c.escaped⟩

/-- The fields of a record, and its end. -/
def addLine (sheet : CsvSheet) (fields : List SheetCell) : CsvSheet :=
  (fields.foldl (fun sheet c => sheet.addField c.text.toList c.escaped) sheet).addRecord

end CsvSheet

/-- A field that is a text of the program. -/
def textField (text : String) : SheetCell := ⟨text, false⟩

structure MergeOutputCsvDiff where
  currentSheetName : String := ""
  pendingSheetName : String := ""
  result : CsvSheet := {}
  ops : List String := []
  nops : List String := []
  activeColumn : AssocMap String Bool := []
  showForSelect : AssocMap String Bool := []
  showForDescribe : AssocMap String Bool := []
  prevSelect : AssocMap String Bool := []
  prevDescribe : AssocMap String Bool := []
  columns : List String := []
  showedColumns : Bool := false
deriving DecidableEq, Repr

namespace MergeOutputCsvDiff

variable (w : MergeOutputCsvDiff)

def clearThroat : MergeOutputCsvDiff :=
  if w.currentSheetName ≠ w.pendingSheetName then
    { w with
      result := w.result.addLine [textField "table", textField "name", textField w.pendingSheetName]
      currentSheetName := w.pendingSheetName }
  else w

/-- A record of its own.  `clearThroat` is called again between its fields, and has nothing left to
do there. -/
def line (fields : List SheetCell) : MergeOutputCsvDiff :=
  { w.clearThroat with result := w.clearThroat.result.addLine fields }

def mergeClear : MergeOutputCsvDiff :=
  { w with
    ops := []
    nops := []
    activeColumn := []
    showForSelect := []
    showForDescribe := []
    prevSelect := []
    prevDescribe := []
    columns := []
    showedColumns := false }

def mergeStart : MergeOutputCsvDiff :=
  { w.mergeClear with
    currentSheetName := ""
    pendingSheetName := ""
    result :=
      w.result.addLine [textField "dtbl", textField "csv", textField "version", textField "0.5"] }

def setSheet (name : String) : MergeOutputCsvDiff := { w with pendingSheetName := name }

def columnTag : OrderChangeMode → String
  | .delete => "delete"
  | .insert => "insert"
  | .move => "move"
  | .rename => "rename"

def changeColumn (change : OrderChange) : MergeOutputCsvDiff :=
  { w.line (textField "column" :: textField (columnTag change.mode) :: change.namesAfter.map textField) with
    activeColumn := AssocMap.setAll (fun _ => true) change.namesAfter []
    nops := change.namesAfter }

/-- The names a merge starts and ends with. -/
def changeName (change : NameChange) : MergeOutputCsvDiff :=
  if change.final then { w with columns := change.names }
  else
    let w := { w with
      activeColumn := AssocMap.setAll (fun _ => true) change.names []
      showForSelect := w.showForSelect.setAll (fun _ => true) change.names
      showForDescribe := w.showForDescribe.setAll (fun _ => true) change.names }
    if change.constant then { w with columns := change.names }
    else
      { w.line (textField "column" :: textField "name" :: change.names.map textField) with
        showedColumns := true
        columns := change.names }

/-! ## Rows -/

/-- The active columns of a row. -/
def actives (change : RowChange) : List String := change.names.filter w.activeColumn.holds

/-- The line for the names of all columns, if there was none. -/
def showColumns : MergeOutputCsvDiff :=
  if w.showedColumns then w
  else { w.line (textField "column" :: textField "name" :: w.columns.map textField) with
    showedColumns := true }

/-- The line for the names of the columns in use, if others were. -/
def linkColumns (lnops : List String) : MergeOutputCsvDiff :=
  if w.columns ≠ lnops then
    { w.line (textField "link" :: textField "name" :: lnops.map textField) with columns := lnops }
  else w

def nameColumns (change : RowChange) : MergeOutputCsvDiff :=
  let lnops := w.actives change
  if lnops ≠ w.nops then { w.showColumns.linkColumns lnops with nops := lnops } else w

def operateRow (change : RowChange) (tag : String) : MergeOutputCsvDiff :=
  let w := w.nameColumns change
  if w.prevSelect.same w.showForSelect ∧ w.prevDescribe.same w.showForDescribe then w
  else
    let ops := ((change.names.zip w.ops).filter fun e => w.activeColumn.holds e.1).map Prod.snd
    w.line (textField (if tag = "act" then "link" else "row") :: textField tag :: ops.map textField)

/-- The fields of one column: two, if there is a condition and a value to show. -/
def fieldsOf (change : RowChange) (select update : Bool) (name : String) : List SheetCell :=
  let cond := if w.showForSelect.holds name && select then (change.cond.get? name).toList else []
  let val := if w.showForDescribe.holds name && update then (change.val.get? name).toList else []
  if (cond ++ val).isEmpty then [textField ""] else cond ++ val

/-- One line for a row, and whether every column has one field; nothing is written for practice. -/
def updateRow (change : RowChange) (tag : String) (select update practice : Bool) :
    MergeOutputCsvDiff × Bool :=
  let fields := (w.actives change).map (w.fieldsOf change select update)
  (if practice then w else w.line (textField "row" :: textField tag :: fields.flatten),
    fields.all fun cells => cells.length ≤ 1)

/-- A change with conditions and values: in one line if no column has both, else in two. -/
def updateLines (change : RowChange) (tag : String) : MergeOutputCsvDiff :=
  let terse := (w.updateRow change "practice" true true true).2
  if terse then (w.updateRow change tag true true false).1
  else ((w.updateRow change "select" true false false).1.updateRow change tag false true false).1

/-- (The condition on a column without an entry in `indexes` has no meaning.) -/
def shouldMatch (prevSelect : AssocMap String Bool) (change : RowChange) (name : String) : Bool :=
  match change.mode with
  | .insert => prevSelect.holds name
  | .delete => true
  | _ =>
    (change.cond.contains name && change.indexes.holds name) ||
      (change.val.contains name && change.cond.contains name)

def shouldAssign (prevDescribe : AssocMap String Bool) (change : RowChange)
    (name : String) : Bool :=
  match change.mode with
  | .insert => true
  | .delete => prevDescribe.holds name
  | _ => change.val.contains name

def opText : (shouldMatch shouldAssign : Bool) → String
  | false, false => ""
  | false, true => "="
  | true, false => "*"
  | true, true => "*="

/-- What each column is for in the row.  (Where the maps of the row before are asked, they get an
entry.) -/
def chooseOps (change : RowChange) : MergeOutputCsvDiff :=
  let toMatch := shouldMatch w.showForSelect change
  let toAssign := shouldAssign w.showForDescribe change
  { w with
    prevSelect :=
      if change.mode = .insert then w.showForSelect.setAll w.showForSelect.holds change.names
      else w.showForSelect
    prevDescribe :=
      if change.mode = .delete then w.showForDescribe.setAll w.showForDescribe.holds change.names
      else w.showForDescribe
    activeColumn :=
      AssocMap.setAll (fun _ => true) (change.names.filter fun name =>
        toMatch name || toAssign name) []
    showForSelect := AssocMap.setAll toMatch change.names []
    showForDescribe := AssocMap.setAll toAssign change.names [] }

/-- What comes before the line of a row. -/
def prepareRow (change : RowChange) : MergeOutputCsvDiff :=
  let lops := change.names.map fun name =>
    opText (shouldMatch w.showForSelect change name) (shouldAssign w.showForDescribe change name)
  if lops ≠ w.ops then { w.chooseOps change with ops := lops }.operateRow change "act"
    else w.chooseOps change

/-- `none` is a call of `exit`. -/
def changeRow (change : RowChange) : Option MergeOutputCsvDiff :=
  let w := w.prepareRow change
  match change.mode with
  | .insert => some (w.updateRow change "insert" false true false).1
  | .delete => some (w.updateRow change "delete" true false false).1
  | .move => some (w.updateLines change "move")
  | .context =>
    some (w.updateRow change (if change.cond.length > 0 then "after" else "start") true false
      false).1
  | .update => some (w.updateLines change "update")
  | .none => none

def call : PatchEvent → Option MergeOutputCsvDiff
  | .changeName change => some (w.changeName change)
  | .changeColumn change => some (w.changeColumn change)
  | .changeRow change => w.changeRow change
  | .mergeDone => some w.mergeClear

/-- The sheet after a merge has started, named its sheet and reported. -/
def run (sheetName : String) (events : List PatchEvent) : Option CsvSheet :=
  (events.foldlM call ((({} : MergeOutputCsvDiff).mergeStart).setSheet sheetName)).map result

end MergeOutputCsvDiff

/-! ## Lines of a sheet -/

namespace CsvSheet

theorem stored_of_notMem {c : SheetCell} (h : '\x00' ∉ c.text.toList) : stored c = c := by
  unfold stored
  rw [cString_of_not_mem h, String.ofList_toList]

theorem map_stored {fields : List SheetCell} (h : ∀ c ∈ fields, '\x00' ∉ c.text.toList) :
    fields.map stored = fields :=
  (List.map_congr_left fun c hc => stored_of_notMem (h c hc)).trans (List.map_id' fields)

/-- Between two lines. -/
structure AtLine (sheet : CsvSheet) : Prop where
  record : sheet.record = []
  tw : sheet.tw = 0

section
variable {sheet : CsvSheet} (fields : List SheetCell)

theorem addLine_eq :
    sheet.addLine fields = ((fields.map stored).foldl addCell sheet).addRecord := by
  unfold addLine
  rw [List.foldl_map]
  rfl

theorem atLine_addLine : (sheet.addLine fields).AtLine := by
  rw [addLine_eq]
  exact ⟨rfl, rfl⟩

theorem AtLine.arr_addLine (h : sheet.AtLine) :
    (sheet.addLine fields).arr = sheet.arr ++ [fields.map stored] := by
  rw [addLine_eq, foldl_addCell]
  simp [addRecord, h.record]

theorem AtLine.w_addLine (h : sheet.AtLine) :
    (sheet.addLine fields).w = max sheet.w fields.length := by
  rw [addLine_eq, foldl_addCell]
  simp [addRecord, h.tw]

end

end CsvSheet

namespace MergeOutputCsvDiff

/-- What belongs to the row. -/
structure SameRow (w w' : MergeOutputCsvDiff) : Prop where
  ops : w'.ops = w.ops
  activeColumn : w'.activeColumn = w.activeColumn
  showForSelect : w'.showForSelect = w.showForSelect
  showForDescribe : w'.showForDescribe = w.showForDescribe
  prevSelect : w'.prevSelect = w.prevSelect
  prevDescribe : w'.prevDescribe = w.prevDescribe

/-- All but the sheet and its name. -/
structure SameRest (w w' : MergeOutputCsvDiff) : Prop extends SameRow w w' where
  nops : w'.nops = w.nops
  columns : w'.columns = w.columns
  showedColumns : w'.showedColumns = w.showedColumns

theorem sameRest_clearThroat (w : MergeOutputCsvDiff) : SameRest w w.clearThroat := by
  unfold clearThroat
  split
  · exact ⟨⟨rfl, rfl, rfl, rfl, rfl, rfl⟩, rfl, rfl, rfl⟩
  · exact ⟨⟨rfl, rfl, rfl, rfl, rfl, rfl⟩, rfl, rfl, rfl⟩

theorem sameRest_line (w : MergeOutputCsvDiff) (fields : List SheetCell) :
    SameRest w (w.line fields) := by
  obtain ⟨⟨h₁, h₂, h₃, h₄, h₅, h₆⟩, h₇, h₈, h₉⟩ := sameRest_clearThroat w
  exact ⟨⟨h₁, h₂, h₃, h₄, h₅, h₆⟩, h₇, h₈, h₉⟩

theorem sameRow_nameColumns (w : MergeOutputCsvDiff) (change : RowChange) :
    SameRow w (w.nameColumns change) := by
  have hshow : SameRow w w.showColumns := by
    unfold showColumns
    split
    · exact ⟨rfl, rfl, rfl, rfl, rfl, rfl⟩
    · obtain ⟨h₁, h₂, h₃, h₄, h₅, h₆⟩ := (sameRest_clearThroat w).toSameRow
      exact ⟨h₁, h₂, h₃, h₄, h₅, h₆⟩
  have hlink : SameRow w (w.showColumns.linkColumns (w.actives change)) := by
    unfold linkColumns
    split
    · obtain ⟨h₁, h₂, h₃, h₄, h₅, h₆⟩ := (sameRest_clearThroat w.showColumns).toSameRow
      exact ⟨h₁.trans hshow.ops, h₂.trans hshow.activeColumn, h₃.trans hshow.showForSelect,
        h₄.trans hshow.showForDescribe,
        h₅.trans hshow.prevSelect, h₆.trans hshow.prevDescribe⟩
    · exact hshow
  unfold nameColumns
  simp only
  split
  · exact ⟨hlink.ops, hlink.activeColumn, hlink.showForSelect, hlink.showForDescribe,
      hlink.prevSelect, hlink.prevDescribe⟩
  · exact ⟨rfl, rfl, rfl, rfl, rfl, rfl⟩

/-! ## What the columns are for -/

section
variable {w : MergeOutputCsvDiff} {change : RowChange}

theorem get?_showForSelect (n : String) : (w.chooseOps change).showForSelect.get? n =
    if n ∈ change.names then some (shouldMatch w.showForSelect change n) else none :=
  AssocMap.get?_setAll _ _ n []

theorem get?_showForDescribe (n : String) : (w.chooseOps change).showForDescribe.get? n =
    if n ∈ change.names then some (shouldAssign w.showForDescribe change n) else none :=
  AssocMap.get?_setAll _ _ n []

/-- The columns a row has a use for. -/
def used (w : MergeOutputCsvDiff) (change : RowChange) : List String :=
  change.names.filter fun n => shouldMatch w.showForSelect change n ||
  shouldAssign w.showForDescribe change n

theorem actives_eq {w' : MergeOutputCsvDiff}
    (h : w'.activeColumn = (w.chooseOps change).activeColumn) :
    w'.actives change = w.used change := by
  unfold actives used
  refine List.filter_congr fun n hn => ?_
  rw [h]
  refine (AssocMap.holds_setAll _ _ _ n).trans ?_
  simp only [List.mem_filter, hn, true_and]
  cases shouldMatch w.showForSelect change n || shouldAssign w.showForDescribe change n <;> rfl

/-- A map that was asked for all columns, or was left alone: what it had, it has. -/
theorem get?_touched {m : AssocMap String Bool} {asked : Prop} [Decidable asked] {n : String}
    (h : (m.get? n).isSome = true) :
    (if asked then m.setAll m.holds change.names else m).get? n = m.get? n := by
  split
  · rw [AssocMap.get?_setAll]
    split
    · obtain ⟨b, hb⟩ := Option.isSome_iff_exists.1 h
      rw [AssocMap.holds, hb]
      rfl
    · rfl
  · rfl

/-- Nothing of the kind changed since the row before: then that row had the columns, for the
same. -/
theorem same_before
    (hkeys : ∀ n, (w.showForSelect.get? n).isSome = (w.showForDescribe.get? n).isSome)
    (hs : (w.chooseOps change).prevSelect.same (w.chooseOps change).showForSelect = true)
    (hd : (w.chooseOps change).prevDescribe.same (w.chooseOps change).showForDescribe = true)
    {n : String} (hn : n ∈ change.names) :
    w.showForSelect.get? n = some (shouldMatch w.showForSelect change n) ∧
      w.showForDescribe.get? n = some (shouldAssign w.showForDescribe change n) := by
  have hs := AssocMap.same_iff.1 hs n
  have hd := AssocMap.same_iff.1 hd n
  rw [get?_showForSelect, if_pos hn] at hs
  rw [get?_showForDescribe, if_pos hn] at hd
  have hsome : (w.showForSelect.get? n).isSome = true := by
    by_cases hmode : change.mode = .insert
    · rw [hkeys]
      have hdel : change.mode ≠ .delete := by rw [hmode]; decide
      change (if change.mode = .delete then _ else w.showForDescribe).get? n = _ at hd
      rw [if_neg hdel] at hd
      rw [hd]
      rfl
    · change (if change.mode = .insert then _ else w.showForSelect).get? n = _ at hs
      rw [if_neg hmode] at hs
      rw [hs]
      rfl
  exact ⟨(get?_touched hsome).symm.trans hs,
    (get?_touched ((hkeys n).symm.trans hsome)).symm.trans hd⟩

theorem opText_injective {m a m' a' : Bool} (h : opText m a = opText m' a') : m = m' ∧ a = a' := by
  revert m a m' a'
  decide

theorem contains_opText (m a : Bool) : (opText m a).toList.contains '*' = m ∧
    (opText m a).toList.contains '=' = a := by
  revert m a
  decide

theorem opText_eq_empty {m a : Bool} (h : (m || a) = false) : opText m a = "" := by
  revert m a
  decide

end

/-! ## The fields of a line -/

variable {w : MergeOutputCsvDiff} {change : RowChange} {select update : Bool} {name : String}

/-- What a line shows of a column that has not both. -/
def shown (w : MergeOutputCsvDiff) (change : RowChange) (select update : Bool)
    (name : String) : SheetCell :=
  let cond := if w.showForSelect.holds name && select then change.cond.get? name else none
  let val := if w.showForDescribe.holds name && update then change.val.get? name else none
  (cond.or val).getD (textField "")

theorem fieldsOf_of_le_one (h : (w.fieldsOf change select update name).length ≤ 1) :
    w.fieldsOf change select update name = [w.shown change select update name] := by
  unfold fieldsOf shown at *
  cases hc : w.showForSelect.holds name && select <;> cases hv :
  w.showForDescribe.holds name && update <;>
    cases hcond : change.cond.get? name <;> cases hval : change.val.get? name <;> simp_all

theorem length_fieldsOf_le_one (h : select = false ∨ update = false) :
    (w.fieldsOf change select update name).length ≤ 1 := by
  unfold fieldsOf
  rcases h with rfl | rfl
  · cases w.showForDescribe.holds name <;> cases update <;> cases change.val.get? name <;> simp
  · cases w.showForSelect.holds name <;> cases select <;> cases change.cond.get? name <;> simp

theorem flatten_fieldsOf {names : List String}
    (h : ∀ name ∈ names, (w.fieldsOf change select update name).length ≤ 1) :
    (names.map (w.fieldsOf change select update)).flatten =
    names.map (w.shown change select update) := by
  induction names with
  | nil => rfl
  | cons name names ih =>
    rw [List.map_cons, List.flatten_cons, fieldsOf_of_le_one (h name List.mem_cons_self),
      ih fun n hn => h n (List.mem_cons_of_mem _ hn)]
    rfl

end MergeOutputCsvDiff

end Coopy
