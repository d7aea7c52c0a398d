import Coopy.Lib.Transducer
import Coopy.Lib.Containers
import Coopy.CsvRead
import Coopy.PatchColumnNames

/-!
# `PatchParser::applyCsv`: a table read as changes

The lines of the table are read from the top.  Header lines set the columns and what each is for; a
row line becomes a `RowChange` over these columns, and a `select` line keeps its cells for the row
line after it.  `none` is a call of `exit`, a failed `COOPY_ASSERT`, or a read outside a vector.
-/

namespace Coopy

open Lib

structure ConfigChange where
  ordered : Bool := true
  complete : Bool := true
  trustNames : Bool := false
deriving DecidableEq, Repr

/-- A call on the patcher. -/
inductive PatcherCall
  | mergeStart
  | setSheet (name : String)
  | changeConfig (change : ConfigChange)
  | changeName (change : NameChange)
  | changeColumn (change : OrderChange)
  | changeRow (change : RowChange)
  | mergeDone
  | mergeAllDone
deriving DecidableEq, Repr

def PatcherCall.row? : PatcherCall → Option RowChange
  | changeRow change => some change
  | _ => none

/-- What the loop over the lines keeps.  (`configSent` is never set.) -/
structure CsvPatch where
  names : PatchColumnNames := {}
  allNames : List String := []
  matchColumn : AssocMap String Bool := []
  assignColumn : AssocMap String Bool := []
  selector : List SheetCell := []
  needSelector : Bool := true
  len : Nat := 0
  sequential : Bool := true
  configSet : Bool := false
  cc : ConfigChange := {}
  supportNameRow : Bool := false
  supportNameStar : Bool := false
  nameStart : Nat := 2
deriving DecidableEq, Repr

namespace CsvPatch

/-! ## One line -/

/-- `PatchColumnNames::read`: the texts from column `x` on, up to the first empty one. -/
def readNames (width : Nat) (row : List SheetCell) (x : Nat) : List String :=
  ((List.range (width - x)).map fun i => (row.getD (x + i) ⟨"", false⟩).text).takeWhile (· ≠ "")

/-- `PatchColumnNames::readData`. -/
def readData (row : List SheetCell) (x len : Nat) : List SheetCell :=
  (List.range len).map fun i => row.getD (x + i) ⟨"", false⟩

variable (s : CsvPatch) (flags : CompareFlags) (width : Nat) (row : List SheetCell)

def columnMode : String → Option OrderChangeMode
  | "move" => some .move
  | "rename" => some .rename
  | "insert" => some .insert
  | "delete" => some .delete
  | _ => none

/-- A line `column …`. -/
def columnLine (cmd1 : String) : Option (List PatcherCall × CsvPatch) :=
  let names2 := readNames width row s.nameStart
  let skipRow := names2.head? = some "ROW" ∧ s.supportNameRow = true ∧ s.nameStart = 2
  let nameStart := if skipRow then 3 else s.nameStart
  let names2 := PatchColumnNames.read (if skipRow then readNames width row 3 else names2)
  let s := { s with
    nameStart
    len := names2.lst.length
    allNames := names2.lst
    matchColumn := AssocMap.setAll (fun _ => true) names2.lst []
    assignColumn := AssocMap.setAll (fun _ => true) names2.lst [] }
  if cmd1 = "name" then
    some ([.changeName ⟨false, false, names2.lst⟩], { s with names := names2 })
  else
    match columnMode cmd1 with
    | some mode => do
      let inferred ← names2.infer s.names mode none
      let change ← names2.inferChange s.names mode none
      some ([.changeColumn change], { s with names := inferred.names })
    | none => some ([], s)

/-- The cells of the line under the names of the columns for which `on` holds. -/
def keyed (data : List SheetCell) (on : AssocMap String Bool) : AssocMap String SheetCell :=
  ((s.names.lst.zip data).filter fun e =>
    on.holds e.1 && !(s.supportNameStar && e.2.text == "*")).foldl
      (fun m e => m.set e.1 e.2) []

/-- The change a row line begins with. -/
def newChange (mode : RowChangeMode) : RowChange where
  mode := mode
  names := s.names.lst
  allNames := s.allNames
  indexes := AssocMap.setAll (fun _ => true) s.names.lst []
  sequential := s.sequential

/-- The selection for this line. -/
def choice (data : List SheetCell) : List SheetCell := if s.needSelector then data else s.selector

/-- The lines `move` and `update`, with a condition from the selection and values from the line. -/
def assignLine (mode : RowChangeMode) (allowed : Bool) (data : List SheetCell) :
    Option (List PatcherCall × CsvPatch) :=
  let selector := s.choice data
  if s.len ≤ s.names.lst.length ∧ s.len ≤ selector.length then
    let change := { s.newChange mode with
      cond := s.keyed (selector.take s.len) s.matchColumn
      val := s.keyed data s.assignColumn }
    some (if allowed then [.changeRow change] else [],
      { s with sequential := true, selector, needSelector := true })
  else none

def insertLine (data : List SheetCell) : Option (List PatcherCall × CsvPatch) :=
  if s.len ≤ s.names.lst.length then
    let change := { s.newChange .insert with val := s.keyed data s.assignColumn }
    some (if flags.canInsert then [.changeRow change] else [],
      { s with sequential := true, selector := s.choice data, needSelector := true })
  else none

def deleteLine (data : List SheetCell) : Option (List PatcherCall × CsvPatch) :=
  if s.len ≤ s.names.lst.length then
    let change := { s.newChange .delete with cond := s.keyed data s.matchColumn }
    some (if flags.canDelete then [.changeRow change] else [],
      { s with sequential := true, selector := s.choice data, needSelector := true })
  else none

def afterLine (data : List SheetCell) : Option (List PatcherCall × CsvPatch) :=
  if s.len ≤ s.names.lst.length then
    some ([.changeRow { s.newChange .context with cond := s.keyed data s.matchColumn }],
      { s with sequential := true })
  else none

/-- What the columns are for, from the cells of an `act` line. -/
def actLine (data : List SheetCell) : Option (List PatcherCall × CsvPatch) :=
  if s.len ≤ s.names.lst.length then
    let codes := s.names.lst.zip data
    some ([], { s with
      matchColumn := codes.foldl (fun m e => m.set e.1 (e.2.text.toList.contains '*')) s.matchColumn
      assignColumn :=
        codes.foldl (fun m e => m.set e.1 (e.2.text.toList.contains '=')) s.assignColumn })
  else none

/-- A line `row …` or `link …`. -/
def rowLine (cmd1 : String) : Option (List PatcherCall × CsvPatch) :=
  let data := readData row s.nameStart s.len
  match cmd1 with
  | "columns" | "name" =>
    let lst := readNames width row s.nameStart
    some ([], { s with
      names := { s.names with lst }
      len := lst.length
      matchColumn := AssocMap.setAll (fun _ => true) lst []
      assignColumn := AssocMap.setAll (fun _ => true) lst [] })
  | "operate" | "act" => s.actLine data
  | "select" | "*" =>
    some ([], { s with sequential := true, selector := data, needSelector := false })
  | "start" => some ([.changeRow { mode := .context }], { s with sequential := true })
  | "after" => s.afterLine data
  | "move" => s.assignLine .move true data
  | "etc" => some ([], { s with sequential := false })
  | "update" | "=" => s.assignLine .update flags.canUpdate data
  | "insert" => s.insertLine flags data
  | "delete" => s.deleteLine flags data
  | _ => some ([], s)

/-- A line `config …`. -/
def configLine (key val : String) : Option CsvPatch :=
  if key = "order" then
    match val with
    | "named" => some { s with cc := ⟨false, false, true⟩, configSet := true }
    | "map" => some { s with cc := ⟨true, true, false⟩, configSet := true }
    | _ => none
  else some s

def readLine : Option (List PatcherCall × CsvPatch) := do
  let cmd0 ← row[0]?.map SheetCell.text
  let cmd1 ← row[1]?.map SheetCell.text
  let config := if cmd0 ≠ "config" ∧ s.configSet = true then [PatcherCall.changeConfig s.cc] else []
  let (calls, s) ←
    match cmd0 with
    | "dtbl" => do
      let ver ← row[3]?.map SheetCell.text
      some ([], if ver = "0.2" then { s with supportNameRow := true, supportNameStar := true }
        else s)
    | "config" => do
      let val ← row[2]?.map SheetCell.text
      let s ← s.configLine cmd1 val
      some ([], s)
    | "sheet" | "table" =>
      if cmd1 = "name" then row[2]?.map fun c => ([PatcherCall.setSheet c.text], s)
        else some ([], s)
    | "column" => s.columnLine width row cmd1
    | "row" | "link" => s.rowLine flags width row cmd1
    | _ => some ([], s)
  some (config ++ calls, s)

/-! ## All lines -/

/-- One line after the other, as long as the program goes on. -/
def step : Transducer (Option CsvPatch) (List SheetCell) PatcherCall
  | some s, row =>
    match s.readLine flags width row with
    | some (calls, s) => (calls, some s)
    | none => ([], none)
  | none, _ => ([], none)

end CsvPatch

/-- The calls on the patcher, if the program gets to the end. -/
def applyCsv (flags : CompareFlags) (patch : CsvSheet) : Option (List PatcherCall) :=
  let (calls, s) := (CsvPatch.step flags patch.w).run patch.arr (some {})
  s.map fun _ => .mergeStart :: calls ++ [.mergeDone, .mergeAllDone]

namespace CsvPatch

/-! ## Lines of version 0.5 -/

/-- The names that are read of a list: those before the first empty one. -/
def known (names : List String) : List String := names.takeWhile (· ≠ "")

theorem known_begins (names : List String) : known names <+: names := List.takeWhile_prefix _

/-- Cells that are not there end the names as empty ones do. -/
theorem known_append (names : List String) (k : Nat) :
    known (names ++ List.replicate k "") = known names := by
  unfold known
  induction names with
  | nil => cases k <;> rfl
  | cons name names ih =>
    rw [List.cons_append, List.takeWhile_cons, List.takeWhile_cons, ih]

theorem readNames_eq {width : Nat} {names : List String} (h : names.length + 2 ≤ width)
    (a b : SheetCell) :
    readNames width (a :: b :: names.map fun name => ⟨name, false⟩) 2 = known names := by
  have hcells : ((List.range (width - 2)).map fun i =>
      ((a :: b :: names.map fun name => (⟨name, false⟩ : SheetCell)).getD (2 + i)
        ⟨"", false⟩).text) = names ++ List.replicate (width - 2 - names.length) "" := by
    refine List.ext_getElem (by simp; omega) fun i hi hi' => ?_
    rw [List.getElem_map, List.getElem_range, Nat.add_comm 2 i, List.getD_cons_succ,
      List.getD_cons_succ, List.getElem_append]
    split
    · next hlt => rw [List.getD_eq_getElem _ _ (by simpa using hlt), List.getElem_map]
    · next hge =>
      rw [List.getD_eq_default _ _ (by simpa using hge), List.getElem_replicate]
  unfold readNames
  rw [hcells]
  exact known_append names _

/-- The state between two changes. -/
structure Plain (s : CsvPatch) : Prop where
  nameStart : s.nameStart = 2
  supportNameRow : s.supportNameRow = false
  supportNameStar : s.supportNameStar = false
  configSet : s.configSet = false
  len : s.len = s.names.lst.length

section
variable {s : CsvPatch} {flags : CompareFlags} {width : Nat}

/-- A header line that names the columns, all of them to match and to assign. -/
structure Renamed (s s' : CsvPatch) (names : List String) : Prop extends s'.Plain where
  lst : s'.names.lst = known names
  needSelector : s'.needSelector = s.needSelector
  matchAll : ∀ n ∈ s'.names.lst, s'.matchColumn.holds n = true
  assignAll : ∀ n ∈ s'.names.lst, s'.assignColumn.holds n = true

/-- A line that takes the parser from `s` to `s'`, with row changes `new`. -/
def TakesLine (flags : CompareFlags) (s : CsvPatch) (fields : List SheetCell) (s' : CsvPatch)
    (new : List RowChange) : Prop :=
  ∀ width, fields.length ≤ width → ∃ calls,
    s.readLine flags width fields = some (calls, s') ∧ calls.filterMap PatcherCall.row? = new

theorem takes_columnName (h : s.Plain) (names : List String) : ∃ s', Renamed s s' names ∧
    TakesLine flags s (⟨"column", false⟩ :: ⟨"name", false⟩ :: names.map fun name => ⟨name, false⟩)
    s' [] := by
  refine ⟨{ s with
      names := PatchColumnNames.read (known names)
      len := (known names).length
      allNames := known names
      matchColumn := AssocMap.setAll (fun _ => true) (known names) []
      assignColumn := AssocMap.setAll (fun _ => true) (known names) [] },
    ⟨⟨h.nameStart, h.supportNameRow, h.supportNameStar, h.configSet, rfl⟩, rfl, rfl,
      fun n hn => (AssocMap.holds_setAll _ _ _ n).trans (if_pos hn),
      fun n hn => (AssocMap.holds_setAll _ _ _ n).trans (if_pos hn)⟩,
    fun width hw => ?_⟩
  rw [List.length_cons, List.length_cons, List.length_map] at hw
  unfold readLine columnLine
  simp only [List.getElem?_cons_zero, List.getElem?_cons_succ, Option.map_some, h.nameStart,
    h.supportNameRow,
    h.configSet, readNames_eq hw, Bool.false_eq_true, false_and, and_false, if_false]
  exact ⟨_, rfl, rfl⟩

theorem takes_linkName (h : s.Plain) (names : List String) : ∃ s', Renamed s s' names ∧
    TakesLine flags s (⟨"link", false⟩ :: ⟨"name", false⟩ :: names.map fun name => ⟨name, false⟩) s'
      [] := by
  refine ⟨{ s with
      names := { s.names with lst := known names }
      len := (known names).length
      matchColumn := AssocMap.setAll (fun _ => true) (known names) []
      assignColumn := AssocMap.setAll (fun _ => true) (known names) [] },
    ⟨⟨h.nameStart, h.supportNameRow, h.supportNameStar, h.configSet, rfl⟩, rfl, rfl,
      fun n hn => (AssocMap.holds_setAll _ _ _ n).trans (if_pos hn),
      fun n hn => (AssocMap.holds_setAll _ _ _ n).trans (if_pos hn)⟩,
    fun width hw => ?_⟩
  rw [List.length_cons, List.length_cons, List.length_map] at hw
  unfold readLine rowLine
  simp only [List.getElem?_cons_zero, List.getElem?_cons_succ, Option.map_some, h.nameStart,
    h.configSet, readNames_eq hw, Bool.false_eq_true, and_false, if_false]
  exact ⟨_, rfl, rfl⟩

/-! ### Lines with a cell for each active column -/

/-- The columns read are the first of the columns written, unless there are none written and nothing
is asked. -/
def Covers (lst active : List String) : Prop := lst <+: active ∨ active = []

theorem readData_eq (h : s.Plain) {active : List String} (hcov : Covers s.names.lst active)
    {f : String → SheetCell}
    (hf : ∀ n ∈ s.names.lst, n ∉ active → f n = ⟨"", false⟩) (a b : SheetCell) :
    readData (a :: b :: active.map f) s.nameStart s.len = s.names.lst.map f := by
  unfold readData
  rw [h.nameStart, h.len]
  refine List.ext_getElem (by simp) fun i hi hi' => ?_
  rw [List.length_map] at hi'
  rw [List.getElem_map, List.getElem_range, List.getElem_map, Nat.add_comm 2 i, List.getD_cons_succ,
    List.getD_cons_succ]
  rcases hcov with ⟨rest, rfl⟩ | rfl
  · rw [List.map_append, List.getD_append _ _ _ _ (by simpa using hi'),
      List.getD_eq_getElem _ _ (by simpa using hi'),
      List.getElem_map]
  · exact (hf _ (List.getElem_mem hi') List.not_mem_nil).symm

theorem get?_keyed (h : s.supportNameStar = false) (hn : s.names.lst.Nodup) (f : String → SheetCell)
    (on : AssocMap String Bool) (n : String) :
    (s.keyed (s.names.lst.map f) on).get? n = if n ∈ s.names.lst ∧ on.holds n = true then some (f n)
    else none := by
  unfold keyed
  have hkeys : AssocMap.keys (s.names.lst.zip (s.names.lst.map f)) = s.names.lst := by
    unfold AssocMap.keys
    rw [List.map_fst_zip (by simp)]
  simp only [h, Bool.false_and, Bool.not_false, Bool.and_true]
  rw [AssocMap.get?_foldl_set, AssocMap.get?_filter, AssocMap.get?_zip_map]
  · by_cases hon : on.holds n = true <;> by_cases hmem : n ∈ s.names.lst <;> simp [hon, hmem]
  · refine List.Nodup.sublist ?_ (hkeys ▸ hn)
    exact List.Sublist.map _ List.filter_sublist

theorem readLine_tag (h : s.configSet = false) {cmd0 : String}
    (hcmd : cmd0 = "row" ∨ cmd0 = "link") (tag : String) (fields : List SheetCell) :
    s.readLine flags width (⟨cmd0, false⟩ :: ⟨tag, false⟩ :: fields) =
      s.rowLine flags width (⟨cmd0, false⟩ :: ⟨tag, false⟩ :: fields) tag := by
  unfold readLine
  simp only [List.getElem?_cons_zero, List.getElem?_cons_succ, Option.map_some, h,
    Bool.false_eq_true, and_false, if_false]
  rcases hcmd with rfl | rfl
  · show ((s.rowLine flags width _ tag).bind fun r => some ([] ++ r.1, r.2)) = _
    cases s.rowLine flags width _ tag <;> rfl
  · show ((s.rowLine flags width _ tag).bind fun r => some ([] ++ r.1, r.2)) = _
    cases s.rowLine flags width _ tag <;> rfl

theorem takes_act (flags : CompareFlags) (h : s.Plain) {active : List String}
    (hcov : Covers s.names.lst active) {code : String → String}
    (hcode : ∀ n ∈ s.names.lst, n ∉ active → code n = "") :
    ∃ s', TakesLine flags s (⟨"link", false⟩ :: ⟨"act", false⟩ :: active.map fun n =>
      ⟨code n, false⟩) s' [] ∧
      s'.Plain ∧ s'.names = s.names ∧ s'.needSelector = s.needSelector ∧ ∀ n ∈ s.names.lst,
        s'.matchColumn.holds n = (code n).toList.contains '*' ∧
          s'.assignColumn.holds n = (code n).toList.contains '=' := by
  have hdata := readData_eq h hcov (f := fun n => ⟨code n, false⟩)
    (fun n hn ha => by rw [hcode n hn ha]) ⟨"link", false⟩ ⟨"act", false⟩
  have hset : ∀ (p : Char) (m : AssocMap String Bool),
      (s.names.lst.zip (s.names.lst.map fun n => (⟨code n, false⟩ : SheetCell))).foldl
        (fun m e => m.set e.1 (e.2.text.toList.contains p)) m =
          m.setAll (fun n => (code n).toList.contains p) s.names.lst := by
    intro p m
    rw [← List.map_prod_left_eq_zip, List.foldl_map]
    rfl
  refine ⟨{ s with
      matchColumn := s.matchColumn.setAll (fun n => (code n).toList.contains '*') s.names.lst
      assignColumn := s.assignColumn.setAll (fun n => (code n).toList.contains '=') s.names.lst },
    fun width _ => ⟨[], ?_, rfl⟩,
      ⟨h.nameStart, h.supportNameRow, h.supportNameStar, h.configSet, h.len⟩, rfl, rfl,
      fun n hn => ?_⟩
  · rw [readLine_tag h.configSet (Or.inr rfl)]
    show s.actLine (readData _ s.nameStart s.len) = _
    rw [hdata]
    unfold actLine
    rw [if_pos (Nat.le_of_eq h.len)]
    simp only [hset]
  · simp only [AssocMap.holds_setAll, if_pos hn, and_self]

/-- Only the selection is another. -/
structure Keeps (s s' : CsvPatch) : Prop where
  names : s'.names = s.names
  matchColumn : s'.matchColumn = s.matchColumn
  assignColumn : s'.assignColumn = s.assignColumn
  plain : s.Plain → s'.Plain

/-- A column is read with what stands in it, if it is one of those that `on` says. -/
def Reads (m : AssocMap String SheetCell) (lst : List String) (on : AssocMap String Bool)
    (f : String → SheetCell) : Prop :=
  ∀ n, m.get? n = if n ∈ lst ∧ on.holds n = true then some (f n) else none

theorem assignLine_eq (h : s.Plain) (hn : s.names.lst.Nodup) (mode : RowChangeMode) (allowed : Bool)
    {f g : String → SheetCell}
    (hg : s.choice (s.names.lst.map f) = s.names.lst.map g) :
    ∃ s' r, s.assignLine mode allowed (s.names.lst.map f) =
    some (if allowed then [.changeRow r] else [], s') ∧
      Keeps s s' ∧ s'.needSelector = true ∧ r.mode = mode ∧
      Reads r.cond s.names.lst s.matchColumn g ∧ Reads r.val s.names.lst s.assignColumn f := by
  unfold assignLine
  simp only
  have hlen : (s.names.lst.map g).length = s.len := by rw [List.length_map, h.len]
  rw [hg, if_pos ⟨Nat.le_of_eq h.len, Nat.le_of_eq hlen.symm⟩, ← hlen, List.take_length]
  exact ⟨_, _, rfl,
    ⟨rfl, rfl, rfl,
      fun _ => ⟨h.nameStart, h.supportNameRow, h.supportNameStar, h.configSet, List.length_map _⟩⟩,
    rfl, rfl, get?_keyed h.supportNameStar hn g _, get?_keyed h.supportNameStar hn f _⟩

/-- The lines `insert`, `delete` and `after`, with a condition or values. -/
theorem insertLine_eq (flags : CompareFlags) (h : s.Plain) (hn : s.names.lst.Nodup)
    (f : String → SheetCell) : ∃ s' r, s.insertLine flags (s.names.lst.map f) =
    some (if flags.canInsert then [.changeRow r] else [], s') ∧
      Keeps s s' ∧ s'.needSelector = true ∧ r.mode = .insert ∧ r.cond = [] ∧
        Reads r.val s.names.lst s.assignColumn f := by
  unfold insertLine
  rw [if_pos (Nat.le_of_eq h.len)]
  exact ⟨_, _, rfl,
    ⟨rfl, rfl, rfl,
      fun _ => ⟨h.nameStart, h.supportNameRow, h.supportNameStar, h.configSet, h.len⟩⟩,
    rfl, rfl, rfl, get?_keyed h.supportNameStar hn f _⟩

theorem deleteLine_eq (flags : CompareFlags) (h : s.Plain) (hn : s.names.lst.Nodup)
    (f : String → SheetCell) : ∃ s' r, s.deleteLine flags (s.names.lst.map f) =
    some (if flags.canDelete then [.changeRow r] else [], s') ∧
      Keeps s s' ∧ s'.needSelector = true ∧ r.mode = .delete ∧ r.val = [] ∧
        Reads r.cond s.names.lst s.matchColumn f := by
  unfold deleteLine
  rw [if_pos (Nat.le_of_eq h.len)]
  exact ⟨_, _, rfl,
    ⟨rfl, rfl, rfl,
      fun _ => ⟨h.nameStart, h.supportNameRow, h.supportNameStar, h.configSet, h.len⟩⟩,
    rfl, rfl, rfl, get?_keyed h.supportNameStar hn f _⟩

theorem afterLine_eq (h : s.Plain) (hn : s.names.lst.Nodup) (f : String → SheetCell) :
    ∃ s' r, s.afterLine (s.names.lst.map f) = some ([.changeRow r], s') ∧
      Keeps s s' ∧ s'.needSelector = s.needSelector ∧ r.mode = .context ∧ r.val = [] ∧
        Reads r.cond s.names.lst s.matchColumn f := by
  unfold afterLine
  rw [if_pos (Nat.le_of_eq h.len)]
  exact ⟨_, _, rfl,
    ⟨rfl, rfl, rfl,
      fun _ => ⟨h.nameStart, h.supportNameRow, h.supportNameStar, h.configSet, h.len⟩⟩,
    rfl, rfl, rfl, get?_keyed h.supportNameStar hn f _⟩

end

end CsvPatch

end Coopy
