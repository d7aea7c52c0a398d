import Coopy.ConflictMarks
import Coopy.HiliteColumns

/-!
# Rows in a highlighted sheet

A row that is updated has a separator as its tag, and in each cell that is assigned the old value,
the separator and the new value.  The reader cuts a cell at the first separator in it.  A null is
written as `NULL`, and a text that would be taken for one gets an underscore, which the reader takes
off again, but also off other texts; and it does not look at a cell whose flag says null, which a
cell keeps when a text is written into it.

    the row is read as the update it was
      ↔ no cell is assigned, or each cell is legible behind the tag of the row      (updateBack_iff)
-/

namespace Coopy

open Lib Merger

namespace Hilite

/-! ## Reading a row -/

/-- `NULL` and the mark at the end of the buffer. -/
def nullToken : List Char := ['N', 'U', 'L', 'L', '\x00']

/-- A text as it was before `colorEncode`.  What stands behind the underscores is compared with
`NULL` for as long as it is itself; `none` is a comparison that goes on outside of the buffer. -/
def nully (x : String) : Option SheetCell :=
  if x = "NULL" then some SheetCell.null
  else if x.toList.head? = some '_' then
    if (Highlighter.bare x).isPrefixOf nullToken then some ⟨String.ofList (x.toList.drop 1), false⟩
    else if nullToken.isPrefixOf (Highlighter.bare x) then none
    else some ⟨x, false⟩
  else some ⟨x, false⟩

/-- The text on both sides of a word. -/
def cut (word text : List Char) : Option (String × String) :=
  (firstIn word text).map fun k =>
  (String.ofList (text.take k), String.ofList (text.drop (k + word.length)))

/-- The tag of an update: a plus, or the separators. -/
structure RowTag where
  plus : Bool
  separator : List Char := []
  conflict : List Char := []
deriving DecidableEq, Repr

def stripAt (text : List Char) : List Char := if text.head? = some '@' then text.drop 1 else text

def readTag (code : String) : RowTag :=
  if code = "+" then { plus := true }
  else
    let full := stripAt (stripAt code.toList)
    if '!' ∈
      full then { plus := false, separator := (full.dropWhile (· != '!')).drop 1, conflict := full }
    else { plus := false, separator := full }

/-- What a cell puts into the change, under the name of its column. -/
structure CellEntry where
  val : Option SheetCell := none
  cond : Option SheetCell := none
  conflictingVal : Option SheetCell := none
  conflictingParentVal : Option SheetCell := none
deriving DecidableEq, Repr

/-- A cell of a row that is updated. -/
def readCell (tag : RowTag) (added : Bool) (c : SheetCell) : Option CellEntry :=
  -- the condition on a cell that is not done with
  let kept := if added then none else some c
  if c.escaped then some {}
  else if tag.plus then some { val := some c, cond := kept }
  else
    match cut tag.separator c.text.toList with
    | none => some { val := if added then some c else none, cond := kept }
    | some (front, back) =>
      match if tag.conflict = [] then none else cut tag.conflict c.text.toList with
      | some (first, rest) =>
        match cut tag.conflict rest.toList with
        | some (second, third) =>
          (nully second).bind fun val => (nully third).bind fun alt =>
            (nully first).map fun parent =>
            { val := some val
              cond := some val
              conflictingVal := some alt
              conflictingParentVal := some parent }
        | none =>
          (nully first).bind fun val => (nully rest).map fun alt =>
            { val := some val, cond := some val, conflictingVal := some alt }
      | none =>
        if added then (nully back).map fun new => { val := some new }
        else (nully front).bind fun old => (nully back).map fun new =>
          { val := some new, cond := some old }

/-- The entries of a row under the names of the columns. -/
def enter (part : CellEntry → Option SheetCell) (entries : List (String × CellEntry)) :
    AssocMap String SheetCell :=
  entries.foldl (fun m e => match part e.2 with | some c => m.set e.1 c | none => m) []

/-- What every change of a row has. -/
def blankChange (cols : List Column) (mode : RowChangeMode) : RowChange :=
  let active := (cols.filter fun c => c.status != "---").map Column.name
  { mode
    names := active
    allNames := active
    indexes := cols.map fun c => (c.name, c.status != "+++" && c.status != "---") }

/-- A row by its code, with the code of the next row; `none` is a read outside of a buffer. -/
def readRow (cols : List Column) (code : String) (next : Option String) (cells : List SheetCell) :
    Option (Option RowChange) :=
  let named := (cols.map Column.name).zip cells
  if code = "+++" then
    some (some { blankChange cols .insert with val := named.foldl (fun m e => m.set e.1 e.2) [] })
  else if code = "---" then
    some (some { blankChange cols .delete with
      cond := (named.filter fun e => !e.2.escaped).foldl (fun m e => m.set e.1 e.2) [] })
  else if ['-', '>'] <:+ code.toList ∨ code = "+" then
    ((cols.zip cells).mapM fun e =>
      (readCell (readTag code) (e.1.status == "+++") e.2).map fun entry => (e.1.name, entry)).map
        fun entries =>
        some { blankChange cols .update with
          cond := enter CellEntry.cond entries
          val := enter CellEntry.val entries
          conflictingVal := enter CellEntry.conflictingVal entries
          conflictingParentVal := enter CellEntry.conflictingParentVal entries
          conflicted := entries.any fun e => e.2.conflictingVal.isSome }
  else if next = some "+++" then
    some (some { blankChange cols .context with cond := named.foldl (fun m e => m.set e.1 e.2) [] })
  else some none

/-! ## An update -/

/-- A cell of a table, with the mark of its column and the value it gets. -/
structure CellUpdate where
  name : String
  status : String := ""
  old : SheetCell
  new : Option SheetCell := none
  old_stored : old.Stored
  new_stored : ∀ c ∈ new, c.Stored

/-- A row of a table, and the cells of it that are updated. -/
structure RowUpdate where
  cells : List CellUpdate
  distinct : (cells.map CellUpdate.name).Nodup
  above : List (List SheetCell)
  below : List (List SheetCell)

namespace RowUpdate

variable (t : RowUpdate)

def names : List String := t.cells.map CellUpdate.name

/-- The table, at which the patcher knows each column by its name. -/
def patcher : SheetPatcher where
  sheet := ⟨t.above ++ t.cells.map CellUpdate.old :: t.below, t.cells.length, SheetCell.null⟩
  activeCol := ⟨[t.names], t.cells.length, ""⟩
  statusCol := ⟨[t.cells.map CellUpdate.status], t.cells.length, ""⟩
  activeRow := ⟨List.replicate (t.above.length + 1 + t.below.length) [""], 1, ""⟩
  name2col := t.names.zipIdx
  declaredNames := true

def val : AssocMap String SheetCell := t.cells.filterMap fun c => c.new.map fun v => (c.name, v)

def change : RowChange where
  mode := .update
  cond := t.cells.map fun c => (c.name, c.old)
  val := t.val

/-- The columns, as the header of the sheet has them. -/
def cols : List Column := t.cells.map fun c => { name := c.name, status := c.status }

/-- An update of the same columns, from the same old values to the same new ones; where nothing is
updated it may be none at all. -/
def Agrees (reading : Option RowChange) : Prop :=
  match reading.filter fun change => change.mode = .update with
  | none => t.val = []
  | some change =>
    ∀ c ∈ t.cells, change.val.get? c.name = c.new ∧
      (c.new.isSome → change.cond.get? c.name = if c.status = "+++" then none else some c.old)

/-- The tag and the cells that the highlighter leaves are read as the update. -/
def ReadBack (next : Option String) : Prop :=
  ∃ p reading, Highlighter.markChanges t.patcher t.change t.above.length = some p ∧
    readRow t.cols (p.activeRow.cell 0 t.above.length) next
      ((List.range p.sheet.width).map fun c => p.sheet.cell c t.above.length) = some reading ∧
    t.Agrees reading

/-- A column of the table is updated that is neither new nor deleted. -/
def Modified : Prop := ∃ c ∈ t.cells, c.new.isSome ∧ c.status ≠ "+++" ∧ c.status ≠ "---"

/-- The separator of the row: arrows that are in none of the old texts. -/
def arrow : String :=
  let texts := t.cells.map fun c => c.old.text
  (MergingPatcher.conflictSeparator texts (MergingPatcher.separatorRounds texts) "->").getD ""

end RowUpdate

/-- A text that loses an underscore: behind the first ones stands `NULL` in part. -/
def Shortened (text : String) : Prop :=
  text.toList.head? = some '_' ∧ Highlighter.bare text ≠ "NULL".toList ∧
    (Highlighter.bare text <+: nullToken ∨ nullToken <+: Highlighter.bare text)

namespace CellUpdate

/-- The reader finds in the cell what the highlighter means by it, in a row with a separator. -/
def LegibleBehind (separator : String) (c : CellUpdate) : Prop :=
  match c.new with
  | none => c.status = "+++" → c.old.escaped = true
  | some v =>
    if c.status = "+++" then v.escaped = false ∧ ¬ separator.toList <:+: v.text.toList
    else c.old.escaped = false ∧ ¬ Shortened c.old.text ∧ (v.escaped = false → ¬ Shortened v.text)

/-- The same, in a row with a plus. -/
def LegiblePlain (c : CellUpdate) : Prop :=
  match c.new with
  | none => c.old.escaped = true
  | some v => c.status = "+++" ∧ v.escaped = false

end CellUpdate

/-! ## Texts -/

open Highlighter

theorem bare_underscore (text : String) : bare ("_" ++ text) = bare text := by
  unfold bare
  rw [String.toList_append]
  rfl

/-- What `nully` makes of a text that is written for a cell. -/
theorem nully_colorEncode {c : SheetCell} (hc : c.Stored) :
    nully (colorEncode c) = some c ↔ (c.escaped = false → ¬ Shortened c.text) := by
  obtain ⟨text, escaped⟩ := c
  cases escaped with
  | true =>
    have htext : text = "NULL" := hc rfl
    subst htext
    exact iff_of_true rfl fun h => absurd h (by decide)
  | false =>
    rw [show ((⟨text, false⟩ : SheetCell).escaped = false → ¬ Shortened text) ↔
      ¬ Shortened text from
      ⟨fun h => h rfl, fun h _ => h⟩]
    unfold colorEncode nully Shortened
    by_cases hbare : bare text = "NULL".toList
    · -- the underscore that was put before the text is taken off
      have htoken : "NULL".toList.isPrefixOf nullToken = true := by decide
      have hne : "_" ++ text ≠ "NULL" := fun h => by
        have hhead := congrArg (fun t => t.toList.head?) h
        simp only [String.toList_append] at hhead
        cases hhead
      simp only [hbare, if_pos, Bool.false_eq_true, if_false, bare_underscore, if_neg hne,
        String.toList_append, htoken]
      rw [if_pos (by rfl)]
      refine iff_of_true ?_ fun h => h.2.1 rfl
      show some (SheetCell.mk (String.ofList text.toList) false) = _
      rw [String.ofList_toList]
    · have hne : text ≠ "NULL" := by
        rintro rfl
        exact hbare (by decide)
      simp only [Bool.false_eq_true, if_false, if_neg hbare, if_neg hne]
      by_cases hhead : text.toList.head? = some '_'
      · rw [if_pos hhead]
        by_cases hin : (bare text).isPrefixOf nullToken
        · rw [if_pos hin]
          refine iff_of_false (fun h => ?_) fun h =>
            h ⟨hhead, hbare, Or.inl (List.isPrefixOf_iff_prefix.1 hin)⟩
          have hlen := congrArg (fun c : Option SheetCell => c.map fun c => c.text.toList.length) h
          obtain ⟨rest, hrest⟩ : ∃ rest, text.toList = '_' :: rest := by
            cases htext : text.toList with
            | nil =>
              rw [htext] at hhead
              cases hhead
            | cons a rest =>
              rw [htext] at hhead
              exact ⟨rest, by rw [Option.some.inj hhead]⟩
          simp only [Option.map_some, String.toList_ofList, hrest, List.drop_succ_cons,
            List.drop_zero, List.length_cons, Option.some.injEq] at hlen
          omega
        · rw [if_neg hin]
          by_cases hout : nullToken.isPrefixOf (bare text)
          · rw [if_pos hout]
            exact iff_of_false (fun h => by cases h) fun h =>
              h ⟨hhead, hbare, Or.inr (List.isPrefixOf_iff_prefix.1 hout)⟩
          · rw [if_neg hout]
            exact iff_of_true rfl fun h =>
              h.2.2.elim (fun hp => hin (List.isPrefixOf_iff_prefix.2 hp))
              fun hp => hout (List.isPrefixOf_iff_prefix.2 hp)
      · rw [if_neg hhead]
        exact iff_of_true rfl fun h => hhead h.1

/-- Some dashes and the end of an arrow. -/
def IsArrow (word : List Char) : Prop := ∃ k, word = List.replicate (k + 1) '-' ++ ['>']

/-- An arrow is found where it was put, if it does not occur before. -/
theorem firstIn_arrow {word front : List Char} (hw : IsArrow word) (hf : ¬ word <:+: front)
    (rest : List Char) : firstIn word (front ++ (word ++ rest)) = some front.length := by
  obtain ⟨k, rfl⟩ := hw
  refine firstIn_append front fun xs ys hxy hys hp => ?_
  -- the head of the arrow would be one of the dashes
  by_cases hlen : k + 2 ≤ ys.length
  · have hin : List.replicate (k + 1) '-' ++ ['>'] <+: ys := by
      refine List.prefix_of_prefix_length_le hp (List.prefix_append ys _) ?_
      rw [List.length_append, List.length_replicate]
      exact hlen
    exact hf (hxy ▸ (hin.isInfix.trans (List.suffix_append xs ys).isInfix))
  · have hpos : 0 < ys.length := List.length_pos_iff.2 hys
    obtain ⟨tail, htail⟩ := hp
    have hleft : (List.replicate (k + 1) '-' ++ ['>'] ++ tail)[k + 1]? = some '>' := by
      rw [List.append_assoc, List.getElem?_append_right (by rw [List.length_replicate]),
        List.length_replicate, Nat.sub_self]
      rfl
    have hright : (ys ++ (List.replicate (k + 1) '-' ++ ['>'] ++ rest))[k + 1]? = some '-' := by
      rw [List.getElem?_append_right (by omega), List.append_assoc,
        List.getElem?_append_left (by rw [List.length_replicate]; omega), List.getElem?_replicate,
          if_pos (by omega)]
    rw [htail, hright] at hleft
    exact absurd (Option.some.inj hleft) (by decide)

theorem colorEncode_arrowFree {word : List Char} (hw : IsArrow word) {c : SheetCell}
    (hc : ¬ word <:+: c.text.toList) : ¬ word <:+: (colorEncode c).toList := by
  obtain ⟨k, rfl⟩ := hw
  unfold colorEncode
  split
  · intro h
    have hmem : '>' ∈ "NULL".toList := h.subset (List.mem_append_right _ (List.mem_singleton.2 rfl))
    exact absurd hmem (by decide)
  · split
    · rw [String.toList_append]
      show ¬ _ <:+: [] ++ '_' :: c.text.toList
      rw [infix_append_cons_iff (by simp [List.mem_replicate]), not_or]
      exact ⟨by simp, hc⟩
    · exact hc

/-- The reader cuts a cell where the highlighter has put it together. -/
theorem cut_arrow {word : List Char} (hw : IsArrow word) {c : SheetCell}
    (hc : ¬ word <:+: c.text.toList) (back : String) :
    cut word (colorEncode c ++ String.ofList word ++ back).toList = some (colorEncode c, back) := by
  have hfirst := firstIn_arrow hw (colorEncode_arrowFree hw hc) back.toList
  unfold cut
  rw [String.toList_append, String.toList_append, String.toList_ofList, List.append_assoc, hfirst,
    Option.map_some,
    List.take_left, ← List.append_assoc, ← List.length_append, List.drop_left, String.ofList_toList,
      String.ofList_toList]

theorem length_colorEncode {c : SheetCell} (hc : c.escaped = false) :
    c.text.length ≤ (colorEncode c).length := by
  unfold colorEncode
  rw [if_neg (by rw [hc]; decide)]
  split
  · rw [String.length_append]
    exact Nat.le_add_left _ _
  · exact Nat.le_refl _

/-! ## Cells -/

/-- The cell as the highlighter leaves it. -/
def CellUpdate.written (separator : String) (c : CellUpdate) : SheetCell :=
  match c.new with
  | none => c.old
  | some v =>
    if c.status ≠ "+++" then ⟨colorEncode c.old ++ separator ++ colorEncode v, c.old.escaped⟩ else v

/-- The reader has the new value of a cell that is assigned, and the old one if there was one. -/
structure CellUpdate.Read (c : CellUpdate) (entry : CellEntry) : Prop where
  val : entry.val = c.new
  cond : c.new.isSome → entry.cond = if c.status = "+++" then none else some c.old

theorem readCell_escaped (tag : RowTag) (added : Bool) {c : SheetCell} (h : c.escaped = true) :
    readCell tag added c = some {} := by
  unfold readCell
  rw [if_pos h]

theorem nully_ne_of_length {back : String} {v : SheetCell} (hv : v.escaped = false)
    (hlen : back.length < v.text.length) : nully back ≠ some v := by
  intro h
  unfold nully at h
  split at h
  · rw [← Option.some.inj h] at hv
    cases hv
  · split at h
    · split at h
      · rw [← Option.some.inj h] at hlen
        simp only [String.length_ofList, List.length_drop, String.length_toList] at hlen
        omega
      · split at h
        · cases h
        · rw [← Option.some.inj h] at hlen
          exact Nat.lt_irrefl _ hlen
    · rw [← Option.some.inj h] at hlen
      exact Nat.lt_irrefl _ hlen

theorem readCell_whole {word : List Char} (added : Bool) {c : SheetCell} (h : c.escaped = false)
    (hcut : cut word c.text.toList = none) : readCell { plus := false, separator := word } added c =
      some { val := if added then some c else none, cond := if added then none else some c } := by
  unfold readCell
  simp only [h, hcut, Bool.false_eq_true, if_false]

theorem readCell_cut {word : List Char} (added : Bool) {c : SheetCell} {front back : String}
    (h : c.escaped = false) (hcut : cut word c.text.toList = some (front, back)) :
    readCell { plus := false, separator := word } added c =
      if added then (nully back).map fun new => { val := some new }
      else (nully front).bind fun old => (nully back).map fun new =>
        { val := some new, cond := some old } := by
  unfold readCell
  simp only [h, hcut, Bool.false_eq_true, if_false, if_true]

theorem cut_eq_none {word text : List Char} (h : ¬ word <:+: text) : cut word text = none := by
  unfold cut
  rw [(firstIn_eq_none_iff _).2 h]
  rfl

theorem exists_cut {word : List Char} (hw : IsArrow word) {text : String}
    (h : word <:+: text.toList) :
    ∃ front back, cut word text.toList = some (front, back) ∧ back.length < text.length := by
  obtain ⟨k, hk⟩ :=
    Option.ne_none_iff_exists'.1 (mt (firstIn_eq_none_iff text.toList).1 (not_not.2 h))
  unfold cut
  rw [hk]
  refine ⟨_, _, rfl, ?_⟩
  have hword : 0 < word.length := by
    obtain ⟨n, rfl⟩ := hw
    rw [List.length_append]
    exact Nat.succ_pos _
  have htext := h.length_le
  rw [String.length_ofList, List.length_drop, ← String.length_toList]
  omega

section
variable {c : CellUpdate}

theorem CellUpdate.read_untouched_iff {word : List Char} (hnew : c.new = none)
    (hold : ¬ word <:+: c.old.text.toList) :
    (∃ entry, readCell { plus := false, separator := word } (c.status == "+++") c.old = some entry ∧
      c.Read entry) ↔ (c.status = "+++" → c.old.escaped = true) := by
  cases hesc : c.old.escaped with
  | true =>
    refine iff_of_true ⟨_, readCell_escaped _ _ hesc, hnew.symm, fun h => ?_⟩ fun _ => rfl
    rw [hnew] at h
    cases h
  | false =>
    rw [readCell_whole _ hesc (cut_eq_none hold)]
    refine ⟨fun ⟨entry, hentry, hread⟩ hstatus => ?_, fun h => ⟨_, rfl, ?_, fun hsome => ?_⟩⟩
    · rw [← Option.some.inj hentry] at hread
      have hval := hread.val
      rw [hstatus, hnew] at hval
      cases hval
    · have hstatus : ¬ c.status = "+++" := fun hs => by cases h hs
      rw [hnew, if_neg (by simpa using hstatus)]
    · rw [hnew] at hsome
      cases hsome

theorem CellUpdate.read_added_iff {word : List Char} (hw : IsArrow word) {v : SheetCell}
    (hnew : c.new = some v) (hstatus : c.status = "+++") :
    (∃ entry, readCell { plus := false, separator := word } (c.status == "+++") v = some entry ∧
      c.Read entry) ↔ v.escaped = false ∧ ¬ word <:+: v.text.toList := by
  cases hesc : v.escaped with
  | true =>
    rw [readCell_escaped _ _ hesc]
    refine iff_of_false (fun ⟨entry, hentry, hread⟩ => ?_) fun h => by cases h.1
    rw [← Option.some.inj hentry] at hread
    cases hread.val.trans hnew
  | false =>
    have hadded : (c.status == "+++") = true := by rw [hstatus]; rfl
    rw [hadded]
    by_cases hin : word <:+: v.text.toList
    · obtain ⟨front, back, hcut, hlen⟩ := exists_cut hw hin
      rw [readCell_cut _ hesc hcut, if_pos rfl]
      refine iff_of_false (fun ⟨entry, hentry, hread⟩ => ?_) fun h => h.2 hin
      obtain ⟨new, hback, rfl⟩ := Option.map_eq_some_iff.1 hentry
      exact nully_ne_of_length hesc hlen (hback.trans (hread.val.trans hnew))
    · rw [readCell_whole _ hesc (cut_eq_none hin)]
      refine iff_of_true ⟨_, rfl, hnew.symm, fun _ => ?_⟩ ⟨rfl, hin⟩
      rw [if_pos hstatus]
      rfl

theorem CellUpdate.read_changed_iff {word : List Char} (hw : IsArrow word) {v : SheetCell}
    (hnew : c.new = some v) (hstatus : c.status ≠ "+++") (hold : ¬ word <:+: c.old.text.toList) :
    (∃ entry, readCell { plus := false, separator := word } (c.status == "+++")
      ⟨colorEncode c.old ++ String.ofList word ++ colorEncode v, c.old.escaped⟩ = some entry ∧
        c.Read entry) ↔
      c.old.escaped = false ∧ ¬ Shortened c.old.text ∧
      (v.escaped = false → ¬ Shortened v.text) := by
  have hkept : (c.status == "+++") = false := by simpa using hstatus
  rw [hkept]
  cases hesc : c.old.escaped with
  | true =>
    rw [readCell_escaped _ _ rfl]
    refine iff_of_false (fun ⟨entry, hentry, hread⟩ => ?_) fun h => by cases h.1
    rw [← Option.some.inj hentry] at hread
    cases hread.val.trans hnew
  | false =>
    have hread :=
      @readCell_cut word false ⟨colorEncode c.old ++ String.ofList word ++ colorEncode v,
        false⟩ _ _ rfl
      (cut_arrow hw hold _)
    rw [hread, if_neg (by decide), ← nully_colorEncode (c.new_stored v hnew)]
    have hnully := nully_colorEncode c.old_stored
    rw [hesc] at hnully
    refine ⟨fun ⟨entry, hentry, hread⟩ => ⟨rfl, ?_⟩, fun ⟨_, hback, hval⟩ => ?_⟩
    · obtain ⟨old, hfront, hentry⟩ := Option.bind_eq_some_iff.1 hentry
      obtain ⟨new, hback, rfl⟩ := Option.map_eq_some_iff.1 hentry
      have hcond := hread.cond (by rw [hnew]; rfl)
      rw [if_neg hstatus] at hcond
      refine ⟨hnully.1 (hfront.trans hcond) rfl, hback.trans (hread.val.trans hnew)⟩
    · have hfront := hnully.2 fun _ => hback
      rw [hfront, hval]
      refine ⟨_, rfl, hnew.symm, fun _ => ?_⟩
      rw [if_neg hstatus]

/-- A cell behind an arrow is read back if and only if it is legible. -/
theorem CellUpdate.read_behind_iff {word : List Char} (hw : IsArrow word)
    (hold : ¬ word <:+: c.old.text.toList) :
    (∃ entry, readCell { plus := false, separator := word } (c.status == "+++")
      (c.written (String.ofList word)) =
      some entry ∧ c.Read entry) ↔ c.LegibleBehind (String.ofList word) := by
  unfold CellUpdate.LegibleBehind CellUpdate.written
  rw [String.toList_ofList]
  cases hnew : c.new with
  | none => exact CellUpdate.read_untouched_iff hnew hold
  | some v =>
    by_cases hstatus : c.status = "+++"
    · simp only [hstatus, ne_eq, not_true_eq_false, if_false, if_true]
      have hadded := CellUpdate.read_added_iff hw hnew hstatus
      rwa [hstatus] at hadded
    · simp only [hstatus, ne_eq, not_false_eq_true, if_true, if_false]
      exact CellUpdate.read_changed_iff hw hnew hstatus hold

theorem readCell_plus (added : Bool) {c : SheetCell} (h : c.escaped = false) :
    readCell { plus := true } added c =
    some { val := some c, cond := if added then none else some c } := by
  unfold readCell
  simp only [h, Bool.false_eq_true, if_false, if_true]

/-- A cell in a row with a plus is read back if and only if it is legible: the reader takes every
text for a new one. -/
theorem CellUpdate.read_plain_iff :
    (∃ entry, readCell { plus := true } (c.status == "+++") (c.written "+") = some entry ∧
      c.Read entry) ↔
      c.LegiblePlain := by
  unfold CellUpdate.LegiblePlain CellUpdate.written
  have hlost : ∀ {cell : SheetCell}, cell.escaped = true → ∀ v, c.new = some v →
      ¬ ∃ entry, readCell { plus := true } (c.status == "+++") cell = some entry ∧
      c.Read entry := by
    rintro cell hesc v hnew ⟨entry, hentry, hread⟩
    rw [readCell_escaped _ _ hesc] at hentry
    rw [← Option.some.inj hentry] at hread
    cases hread.val.trans hnew
  cases hnew : c.new with
  | none =>
    simp only
    cases hesc : c.old.escaped with
    | true =>
      refine iff_of_true ⟨_, readCell_escaped _ _ hesc, hnew.symm, fun h => ?_⟩ rfl
      rw [hnew] at h
      cases h
    | false =>
      rw [readCell_plus _ hesc]
      refine iff_of_false (fun ⟨entry, hentry, hread⟩ => ?_) (by decide)
      rw [← Option.some.inj hentry] at hread
      cases hread.val.trans hnew
  | some v =>
    by_cases hstatus : c.status = "+++"
    · simp only [hstatus, ne_eq, not_true_eq_false, if_false, true_and]
      cases hesc : v.escaped with
      | true =>
        have hno := hlost hesc v hnew
        rw [hstatus] at hno
        exact iff_of_false hno (by decide)
      | false =>
        rw [readCell_plus _ hesc]
        refine iff_of_true ⟨_, rfl, hnew.symm, fun _ => ?_⟩ rfl
        rw [if_pos hstatus]
        rfl
    · simp only [ne_eq, if_pos hstatus]
      refine iff_of_false (fun hread => ?_) fun h => hstatus h.1
      cases hesc : c.old.escaped with
      | true =>
        exact @hlost ⟨colorEncode c.old ++ "+" ++ colorEncode v, c.old.escaped⟩ hesc v hnew hread
      | false =>
        obtain ⟨entry, hentry, hread⟩ := hread
        rw [@readCell_plus _ ⟨colorEncode c.old ++ "+" ++ colorEncode v,
          c.old.escaped⟩ hesc] at hentry
        rw [← Option.some.inj hentry] at hread
        have hval := Option.some.inj (hread.val.trans hnew)
        have hv : v.escaped = false := by rw [← hval]; exact hesc
        -- the text has the new value and more in it
        have hlen := congrArg (fun c : SheetCell => c.text.length) hval
        have hcode := length_colorEncode hv
        simp only [String.length_append] at hlen
        have hplus : "+".length = 1 := rfl
        omega

end

/-! ## Rows -/

section
variable {α β : Type} {name : α → String} {part : α → Option β}

/-- Optional entries under distinct names. -/
theorem get?_filterMap {xs : List α} (hd : (xs.map name).Nodup) {x : α} (hx : x ∈ xs) :
    AssocMap.get? (xs.filterMap fun x => (part x).map fun v => (name x, v)) (name x) = part x := by
  induction xs with
  | nil => cases hx
  | cons a xs ih =>
    obtain ⟨ha, hd⟩ := List.nodup_cons.1 hd
    rcases List.mem_cons.1 hx with rfl | hx
    · cases hpart : part x with
      | some v =>
        rw [List.filterMap_cons_some (by rw [hpart]; rfl), AssocMap.get?_cons, if_pos rfl]
      | none =>
        rw [List.filterMap_cons_none (by rw [hpart]; rfl), AssocMap.get?_eq_none_iff]
        intro hmem
        obtain ⟨e, he, hname⟩ := List.mem_map.1 hmem
        obtain ⟨y, hy, hentry⟩ := List.mem_filterMap.1 he
        obtain ⟨v, -, rfl⟩ := Option.map_eq_some_iff.1 hentry
        exact ha (hname ▸ List.mem_map_of_mem hy)
    · have hne : name a ≠ name x := fun hname => ha (hname ▸ List.mem_map_of_mem hx)
      cases hpart : part a with
      | some v =>
        rw [List.filterMap_cons_some (by rw [hpart]; rfl), AssocMap.get?_cons, if_neg hne]
        exact ih hd hx
      | none =>
        rw [List.filterMap_cons_none (by rw [hpart]; rfl)]
        exact ih hd hx

theorem nodup_keys_filterMap {xs : List α} (hd : (xs.map name).Nodup) :
    (AssocMap.keys (xs.filterMap fun x => (part x).map fun v => (name x, v))).Nodup := by
  refine List.Nodup.sublist ?_ hd
  induction xs with
  | nil => exact List.Sublist.refl _
  | cons a xs ih =>
    obtain ⟨-, hd⟩ := List.nodup_cons.1 hd
    cases hpart : part a with
    | some v =>
      rw [List.filterMap_cons_some (by rw [hpart]; rfl)]
      exact (ih hd).cons_cons _
    | none =>
      rw [List.filterMap_cons_none (by rw [hpart]; rfl)]
      exact (ih hd).cons _

end

theorem get?_enter (part : CellEntry → Option SheetCell) {entries : List (String × CellEntry)}
    (hd : (entries.map Prod.fst).Nodup) {e : String × CellEntry} (he : e ∈ entries) :
    (enter part entries).get? e.1 = part e.2 := by
  have hfold : enter part entries =
      (entries.filterMap fun e => (part e.2).map fun c => (e.1, c)).foldl
        (fun m e => AssocMap.set m e.1 e.2) [] := by
    unfold enter
    rw [List.foldl_filterMap]
    refine congrArg (fun f => entries.foldl f []) (funext fun m => funext fun e => ?_)
    cases part e.2 <;> rfl
  have hkeys :=
    @nodup_keys_filterMap (String × CellEntry) SheetCell Prod.fst (fun e => part e.2) entries hd
  have hget :=
    @get?_filterMap (String × CellEntry) SheetCell Prod.fst (fun e => part e.2) entries hd e he
  rw [hfold, AssocMap.get?_foldl_set _ _ _ hkeys, hget]
  exact Option.or_none ..

namespace RowUpdate

variable (t : RowUpdate)

/-- The entry of a cell that can be read. -/
def entryOf (tag : RowTag) (row : CellUpdate → SheetCell) (c : CellUpdate) : CellEntry :=
  (readCell tag (c.status == "+++") (row c)).getD {}

/-- A row behind the tag of an update is read back if and only if each of its cells is. -/
theorem agrees_readRow_iff {code : String} (hcode : ['-', '>'] <:+ code.toList ∨ code = "+")
    (hinsert : code ≠ "+++")
    (hdelete : code ≠ "---") (next : Option String) (row : CellUpdate → SheetCell) :
    (∃ reading, readRow t.cols code next (t.cells.map row) = some reading ∧ t.Agrees reading) ↔
      ∀ c ∈ t.cells, ∃ entry, readCell (readTag code) (c.status == "+++") (row c) = some entry ∧
      c.Read entry := by
  unfold readRow
  rw [if_neg hinsert, if_neg hdelete, if_pos hcode]
  have hzip : t.cols.zip (t.cells.map row) =
      t.cells.map fun c => (({ name := c.name, status := c.status } : Column), row c) := by
    unfold RowUpdate.cols
    exact List.zip_map' ..
  rw [hzip, List.mapM_map]
  by_cases hall : ∀ c ∈ t.cells, ∃ entry, readCell (readTag code) (c.status == "+++")
    (row c) = some entry
  · have hentries :
      (t.cells.mapM fun c => (readCell (readTag code) (c.status == "+++") (row c)).map fun entry =>
        (c.name, entry)) = some (t.cells.map fun c => (c.name, entryOf (readTag code) row c)) := by
      refine mapM_eq_some_map fun c hc => ?_
      obtain ⟨entry, hentry⟩ := hall c hc
      unfold entryOf
      rw [hentry]
      rfl
    have hd :
      ((t.cells.map fun c => (c.name, entryOf (readTag code) row c)).map Prod.fst).Nodup := by
      rw [List.map_map]
      exact t.distinct
    have hget : ∀ (part : CellEntry → Option SheetCell), ∀ c ∈ t.cells,
        (enter part (t.cells.map fun c => (c.name, entryOf (readTag code) row c))).get? c.name =
          part (entryOf (readTag code) row c) :=
      fun part c hc => get?_enter part hd
        (List.mem_map_of_mem (f := fun c : CellUpdate => (c.name, entryOf (readTag code) row c)) hc)
    have hread :
      (∃ reading,
        ((t.cells.mapM fun c =>
          (readCell (readTag code) (c.status == "+++") (row c)).map fun entry =>
        (c.name, entry)).map fun entries => some { blankChange t.cols .update with
          cond := enter CellEntry.cond entries
          val := enter CellEntry.val entries
          conflictingVal := enter CellEntry.conflictingVal entries
          conflictingParentVal := enter CellEntry.conflictingParentVal entries
          conflicted := entries.any fun e => e.2.conflictingVal.isSome }) = some reading ∧
            t.Agrees reading) ↔
        ∀ c ∈ t.cells, c.Read (entryOf (readTag code) row c) := by
      rw [hentries]
      refine ⟨fun hread c hc => ?_, fun h => ⟨_, rfl, fun c hc => ?_⟩⟩
      · obtain ⟨reading, hreading, hagrees⟩ := hread
        obtain rfl := Option.some.inj hreading
        have hc' := hagrees c hc
        simp only [hget _ c hc] at hc'
        exact ⟨hc'.1, hc'.2⟩
      · simp only [hget _ c hc]
        exact ⟨(h c hc).val, (h c hc).cond⟩
    refine hread.trans (forall₂_congr fun c hc => ?_)
    obtain ⟨entry, hentry⟩ := hall c hc
    unfold entryOf
    rw [hentry]
    refine ⟨fun h => ⟨entry, rfl, h⟩, fun h => ?_⟩
    obtain ⟨entry', hentry', h⟩ := h
    obtain rfl := Option.some.inj hentry'
    exact h
  · refine iff_of_false (fun hread => hall fun c hc => ?_)
      fun h => hall fun c hc => (h c hc).imp fun entry hentry => hentry.1
    obtain ⟨reading, hreading, -⟩ := hread
    obtain ⟨entries, hentries, -⟩ := Option.map_eq_some_iff.1 hreading
    obtain ⟨e, he⟩ := exists_of_mapM hentries c hc
    obtain ⟨entry, hentry, -⟩ := Option.map_eq_some_iff.1 he
    exact ⟨entry, hentry⟩

end RowUpdate

/-! ## Marks -/

theorem modify_congr {α : Type} {f g : α → α} {xs : List α} {i : Nat} (h : ∀ x, xs[i]? = some x →
    f x = g x) : xs.modify i f = xs.modify i g := by
  refine List.ext_getElem? fun j => ?_
  rw [List.getElem?_modify, List.getElem?_modify]
  cases hx : xs[j]? with
  | none => rfl
  | some x =>
    refine congrArg some ?_
    show (if i = j then f x else x) = if i = j then g x else x
    by_cases hij : i = j
    · rw [if_pos hij, if_pos hij, h x (hij ▸ hx)]
    · rw [if_neg hij, if_neg hij]

theorem modify_self {sheet : TypedSheet SheetCell} (f : SheetCell → SheetCell → SheetCell)
    (c r : Nat) : (sheet.arr.modify r fun row => row.modify c (f (sheet.cell c r))) =
      sheet.arr.modify r fun row => row.modify c fun x => f x x := by
  refine modify_congr fun row hrow => modify_congr fun x hx => ?_
  have hcell : sheet.cell c r = x := by
    unfold TypedSheet.cell
    rw [List.getD_eq_getElem?_getD, List.getD_eq_getElem?_getD, hrow, Option.getD_some, hx,
      Option.getD_some]
  rw [hcell]

/-- What the highlighter makes of a cell when there is no conflict. -/
def marked (status separator : String) (v : Option SheetCell) (c : SheetCell) : SheetCell :=
  match v with
  | none => c
  | some v => if status ≠ "+++" then ⟨colorEncode c ++ separator ++ colorEncode v, c.escaped⟩ else v

theorem markCell_eq (status separator init : String)
    (val : AssocMap Nat (String × SheetCell)) (r : Nat) (sheet : TypedSheet SheetCell) (c : Nat) :
    markCell status separator init val [] [] r sheet c =
      { sheet with arr := sheet.arr.modify r fun row =>
          row.modify c (marked status separator ((val.get? c).map Prod.snd)) } := by
  unfold markCell marked
  cases hv : val.get? c with
  | none =>
    show sheet = { sheet with arr := sheet.arr.modify r fun row => row.modify c id }
    have hid : (fun row : List SheetCell => row.modify c id) = id :=
      funext fun row => List.modify_id _ _
    rw [hid, List.modify_id]
  | some v =>
    simp only [AssocMap.get?_nil, Option.getD_none, ne_eq, not_true_eq_false,
      decide_false, Bool.or_false,
      Bool.false_and, Bool.false_eq_true, if_false, Option.map_some, decide_eq_true_eq]
    by_cases hstatus : status = "+++"
    · simp only [hstatus, not_true_eq_false, if_false]
      unfold TypedSheet.setCell
      simp only [MergingPatcher.modify_const]
    · simp only [hstatus, not_false_eq_true, if_true]
      unfold TypedSheet.cellText
      exact congrArg (fun arr => { sheet with arr := arr }) (@modify_self sheet
        (fun prev x => { x with text := colorEncode prev ++ separator ++ colorEncode v.2 }) c r)

/-- The marks of one row. -/
def markRow (status : Nat → String) (separator : String) (val : AssocMap Nat (String × SheetCell))
    (cs : List Nat) (row : List SheetCell) : List SheetCell :=
  cs.foldl (fun row c => row.modify c (marked (status c) separator ((val.get? c).map Prod.snd))) row

theorem foldl_markCell (status : Nat → String) (separator init : String)
    (val : AssocMap Nat (String × SheetCell)) (r : Nat)
    (cs : List Nat) : ∀ sheet : TypedSheet SheetCell,
    cs.foldl (fun sheet c => markCell (status c) separator init val [] [] r sheet c) sheet =
      { sheet with arr := sheet.arr.modify r (markRow status separator val cs) } := by
  unfold markRow
  induction cs with
  | nil =>
    intro sheet
    show sheet = { sheet with arr := sheet.arr.modify r id }
    rw [List.modify_id]
  | cons c cs ih =>
    intro sheet
    rw [List.foldl_cons, ih, markCell_eq]
    simp only [List.modify_modify_eq]
    rfl

namespace RowUpdate

variable (t : RowUpdate)

theorem knows : SheetPatcher.Knows t.patcher t.names := by
  have hkeys : t.patcher.name2col.keys = t.names := List.zipIdx_map_fst 0 t.names
  refine ⟨t.distinct, fun i hi => ?_, fun n hn => ?_⟩
  · refine AssocMap.get?_of_mem ?_ (List.mem_iff_getElem?.2 ⟨i, ?_⟩)
    · rw [hkeys]
      exact t.distinct
    · show t.names.zipIdx[i]? = _
      rw [List.getElem?_zipIdx, List.getElem?_eq_getElem hi, Option.map_some, Nat.zero_add]
  · refine AssocMap.get?_eq_none_iff.2 fun hmem => hn ?_
    rwa [hkeys] at hmem

theorem val_nodup : t.val.keys.Nodup := nodup_keys_filterMap t.distinct

theorem get?_val {c : CellUpdate} (hc : c ∈ t.cells) : t.val.get? c.name = c.new :=
  get?_filterMap t.distinct hc

theorem byCol_val {i : Nat} (hi : i < t.cells.length) :
    ((t.patcher.byCol t.val).get? i).map Prod.snd = t.cells[i].new := by
  have hn : i < t.names.length := by rwa [names, List.length_map]
  rw [t.knows.byCol_get? t.val_nodup hn, Option.map_map]
  have hname : t.names[i] = t.cells[i].name := List.getElem_map ..
  rw [hname, t.get?_val (List.getElem_mem hi)]
  exact Option.map_id'

theorem isSome_byCol_val {i : Nat} (hi : i < t.cells.length) :
    ((t.patcher.byCol t.val).get? i).isSome = t.cells[i].new.isSome := by
  rw [← t.byCol_val hi, Option.isSome_map]

theorem row_patcher : t.patcher.sheet.arr.getD t.above.length [] = t.cells.map CellUpdate.old := by
  show (t.above ++ t.cells.map CellUpdate.old :: t.below).getD t.above.length [] = _
  rw [List.getD_append_right _ _ _ _ (Nat.le_refl _), Nat.sub_self]
  rfl

theorem cell_patcher {i : Nat} (hi : i < t.cells.length) :
    t.patcher.sheet.cell i t.above.length = t.cells[i].old := by
  unfold TypedSheet.cell
  rw [t.row_patcher, List.getD_eq_getElem _ _ (by rwa [List.length_map]), List.getElem_map]

theorem status_patcher {i : Nat} (hi : i < t.cells.length) :
    t.patcher.statusCol.cell i 0 = t.cells[i].status := by
  show (t.cells.map CellUpdate.status).getD i "" = _
  rw [List.getD_eq_getElem _ _ (by rwa [List.length_map]), List.getElem_map]

theorem texts_patcher :
    ((List.range t.patcher.sheet.width).map fun c => (t.patcher.sheet.cell c t.above.length).text) =
    t.cells.map fun c => c.old.text := by
  refine List.ext_getElem ?_ fun i hi hi' => ?_
  · rw [List.length_map, List.length_map, List.length_range]
    rfl
  · have hlt : i < t.cells.length := by rwa [List.length_map] at hi'
    rw [List.getElem_map, List.getElem_range, t.cell_patcher hlt, List.getElem_map]

/-- A column that is assigned. -/
theorem any_assigned_iff (test : String → Bool) :
    ((assigned t.patcher (t.patcher.byCol t.val)).any fun c =>
      test (t.patcher.statusCol.cell c 0)) = true ↔
      ∃ c ∈ t.cells, c.new.isSome ∧ test c.status = true := by
  unfold assigned
  simp only [List.any_eq_true, List.mem_filter, List.mem_range]
  constructor
  · rintro ⟨i, ⟨hi, hnew⟩, htest⟩
    have hlt : i < t.cells.length := hi
    rw [t.isSome_byCol_val hlt] at hnew
    rw [t.status_patcher hlt] at htest
    exact ⟨t.cells[i], List.getElem_mem hlt, hnew, htest⟩
  · rintro ⟨c, hc, hnew, htest⟩
    obtain ⟨i, hlt, rfl⟩ := List.mem_iff_getElem.1 hc
    refine ⟨i, ⟨hlt, ?_⟩, ?_⟩
    · rwa [t.isSome_byCol_val hlt]
    · rwa [t.status_patcher hlt]

theorem val_eq_nil_iff : t.val = [] ↔ ∀ c ∈ t.cells, c.new = none := by
  unfold val
  rw [List.filterMap_eq_nil_iff]
  exact forall₂_congr fun c _ => Option.map_eq_none_iff

theorem assigned_eq_nil_iff : assigned t.patcher (t.patcher.byCol t.val) = [] ↔ t.val = [] := by
  have hany := t.any_assigned_iff fun _ => true
  rw [t.val_eq_nil_iff]
  constructor
  · intro h c hc
    by_contra hne
    have htrue := hany.2 ⟨c, hc, Option.isSome_iff_ne_none.2 hne, rfl⟩
    rw [h] at htrue
    cases htrue
  · intro h
    by_contra hne
    obtain ⟨i, hi⟩ := List.exists_mem_of_ne_nil _ hne
    obtain ⟨c, hc, hnew, -⟩ := hany.1 (List.any_eq_true.2 ⟨i, hi, rfl⟩)
    rw [h c hc] at hnew
    cases hnew

/-- The row as the highlighter leaves it. -/
theorem markRow_eq (separator : String) :
    markRow (fun c => t.patcher.statusCol.cell c 0) separator (t.patcher.byCol t.val)
    (List.range t.cells.length)
      (t.cells.map CellUpdate.old) = t.cells.map (CellUpdate.written separator) := by
  unfold markRow
  rw [foldl_modify]
  refine List.ext_getElem (by rw [List.length_mapIdx, List.length_map, List.length_map])
    fun i hi hi' => ?_
  have hlt : i < t.cells.length := by rwa [List.length_map] at hi'
  rw [List.getElem_mapIdx, List.getElem_map, List.getElem_map, if_pos hlt, t.byCol_val hlt]
  show marked (t.patcher.statusCol.cell i 0) separator _ _ = _
  rw [t.status_patcher hlt]
  rfl

theorem tag_patcher : t.patcher.activeRow.cell 0 t.above.length = "" := by
  show ((List.replicate (t.above.length + 1 + t.below.length) [""]).getD t.above.length []).getD 0
    "" = ""
  have hlt :
    t.above.length < (List.replicate (t.above.length + 1 + t.below.length) [""]).length := by
    rw [List.length_replicate]
    omega
  rw [List.getD_eq_getElem _ _ hlt, List.getElem_replicate]
  rfl

/-- The row and its tag, where a cell is assigned. -/
theorem markChanges_eq (hne : t.val ≠ []) {sep : String}
    (hsep : separator t.patcher (t.patcher.byCol t.val)
      (t.cells.map fun c => c.old.text) = some sep) :
    ∃ p, markChanges t.patcher t.change t.above.length = some p ∧
    p.activeRow.cell 0 t.above.length = sep ∧
      ((List.range p.sheet.width).map fun c => p.sheet.cell c t.above.length) =
        t.cells.map (CellUpdate.written sep) := by
  have hrow : (t.patcher.sheet.arr.modify t.above.length
      (markRow (fun c => t.patcher.statusCol.cell c 0) sep (t.patcher.byCol t.val)
        (List.range t.cells.length))) =
        t.above ++ t.cells.map (CellUpdate.written sep) :: t.below := by
    show (t.above ++ t.cells.map CellUpdate.old :: t.below).modify t.above.length _ = _
    rw [SheetPatcher.Follows.modify_append, t.markRow_eq]
  unfold markChanges
  simp only [show t.change.val = t.val from rfl, show t.change.conflicted = false from rfl,
    show t.patcher.byCol t.change.conflictingVal = [] from rfl,
    show t.patcher.byCol t.change.conflictingParentVal = [] from rfl,
    t.texts_patcher, hsep, Option.bind_some, Bool.false_eq_true, if_false,
      Option.map_some, t.tag_patcher]
  rw [if_neg (mt t.assigned_eq_nil_iff.1 hne)]
  refine ⟨_, rfl, ?_, ?_⟩
  · simp only
    by_cases hlen : sep.length > "".length
    · rw [if_pos hlen]
      show ((t.patcher.activeRow.arr.modify t.above.length fun row => row.set 0 sep).getD
        t.above.length []).getD 0 "" = sep
      show (((List.replicate (t.above.length + 1 + t.below.length) [""]).modify t.above.length
        fun row => row.set 0 sep).getD
        t.above.length []).getD 0 "" = sep
      have hlt :
        t.above.length <
        ((List.replicate (t.above.length + 1 + t.below.length) [""]).modify t.above.length
          fun row => row.set 0 sep).length := by
        rw [List.length_modify, List.length_replicate]
        omega
      rw [List.getD_eq_getElem _ _ hlt, List.getElem_modify, if_pos rfl, List.getElem_replicate]
      rfl
    · rw [if_neg hlen, t.tag_patcher]
      exact (String.length_eq_zero_iff.1 (Nat.eq_zero_of_not_pos hlen)).symm
  · rw [foldl_markCell]
    show (List.range t.cells.length).map (fun c => ((t.patcher.sheet.arr.modify t.above.length
      (markRow (fun c => t.patcher.statusCol.cell c 0) sep (t.patcher.byCol t.val)
        (List.range t.cells.length))).getD
        t.above.length []).getD c SheetCell.null) = _
    rw [hrow]
    refine List.ext_getElem ?_ fun i hi hi' => ?_
    · rw [List.length_map, List.length_map, List.length_range]
    · rw [List.getElem_map, List.getElem_range]
      rw [List.getD_append_right _ _ _ _ (Nat.le_refl _), Nat.sub_self]
      exact List.getD_eq_getElem _ _ hi'

/-! ## Tags -/

theorem conflictSeparator_arrow {texts : List String} :
    ∀ (fuel : Nat) {sep s : String}, IsArrow sep.toList →
    MergingPatcher.conflictSeparator texts fuel sep = some s →
    IsArrow s.toList ∧ ∀ text ∈ texts, ¬ s.toList <:+: text.toList := by
  intro fuel
  induction fuel with
  | zero => exact fun _ h => nomatch h
  | succ fuel ih =>
    intro sep s hsep h
    unfold MergingPatcher.conflictSeparator at h
    split at h
    · obtain ⟨k, hk⟩ := hsep
      refine ih ⟨k + 1, ?_⟩ h
      rw [String.toList_append, hk, List.replicate_succ]
      rfl
    · next hno =>
      obtain rfl := Option.some.inj h
      refine ⟨hsep, fun text htext hin => hno (List.any_eq_true.2 ⟨text, htext, ?_⟩)⟩
      rw [Option.isSome_iff_ne_none]
      exact fun hnone => (firstIn_eq_none_iff _).1 hnone hin

theorem arrow_spec : MergingPatcher.conflictSeparator (t.cells.map fun c => c.old.text)
      (MergingPatcher.separatorRounds (t.cells.map fun c => c.old.text)) "->" = some t.arrow ∧
    IsArrow t.arrow.toList ∧ ∀ c ∈ t.cells, ¬ t.arrow.toList <:+: c.old.text.toList := by
  have hsome : ∃ s, MergingPatcher.conflictSeparator (t.cells.map fun c => c.old.text)
      (MergingPatcher.separatorRounds (t.cells.map fun c => c.old.text)) "->" = some s := by
    refine MergingPatcher.conflictSeparator_isSome _ _ "->" fun text htext => ?_
    have hlt := MergingPatcher.lt_separatorRounds htext
    unfold MergingPatcher.separatorRounds at hlt
    rw [show "->".length = 2 from rfl]
    omega
  obtain ⟨s, hs⟩ := hsome
  have harrow : t.arrow = s := by
    unfold arrow
    simp only [hs, Option.getD_some]
  rw [harrow]
  obtain ⟨hform, hfree⟩ := conflictSeparator_arrow _ ⟨0, rfl⟩ hs
  exact ⟨hs, hform, fun c hc => hfree _ (List.mem_map_of_mem hc)⟩

theorem readTag_arrow {code : String} (h : IsArrow code.toList) :
    readTag code = { plus := false, separator := code.toList } := by
  obtain ⟨k, hk⟩ := h
  have hplus : code ≠ "+" := by
    rintro rfl
    have hmem : '>' ∈ "+".toList := by rw [hk]; simp
    exact absurd hmem (by decide)
  have hstrip : stripAt code.toList = code.toList := by
    unfold stripAt
    rw [hk, List.replicate_succ]
    exact if_neg fun h => absurd (Option.some.inj h) (by decide)
  have hmark : '!' ∉ code.toList := by
    rw [hk, List.mem_append, not_or]
    exact ⟨fun hmem => absurd (List.eq_of_mem_replicate hmem) (by decide), by decide⟩
  unfold readTag
  simp only [hplus, if_false, hstrip, hmark]

theorem arrow_isCode {code : String} (h : IsArrow code.toList) :
    ['-', '>'] <:+ code.toList ∧ code ≠ "+++" ∧ code ≠ "---" := by
  obtain ⟨k, hk⟩ := h
  have hmem : '>' ∈ code.toList := by rw [hk]; simp
  refine ⟨?_, fun hc => ?_, fun hc => ?_⟩
  · rw [hk, List.replicate_succ', List.append_assoc]
    exact List.suffix_append _ _
  · rw [hc] at hmem
    exact absurd hmem (by decide)
  · rw [hc] at hmem
    exact absurd hmem (by decide)

/-- A row without a tag is not read as an update. -/
theorem readRow_blank (cols : List Column) (next : Option String) (cells : List SheetCell) :
    ∃ reading, readRow cols "" next cells = some reading ∧
      (reading.filter fun change => change.mode = .update) = none := by
  unfold readRow
  rw [if_neg (by decide), if_neg (by decide), if_neg (by decide)]
  by_cases hnext : next = some "+++"
  · rw [if_pos hnext]
    exact ⟨_, rfl, rfl⟩
  · rw [if_neg hnext]
    exact ⟨_, rfl, rfl⟩

/-! ## Reading back -/

theorem agrees_of_blank {reading : Option RowChange}
    (h : (reading.filter fun change => change.mode = .update) = none) :
    t.Agrees reading ↔ t.val = [] := by
  unfold Agrees
  rw [h]

/-- What is read from a row in which a cell is assigned. -/
theorem readBack_iff_of_separator (hne : t.val ≠ []) {sep : String}
    (hsep : separator t.patcher (t.patcher.byCol t.val)
      (t.cells.map fun c => c.old.text) = some sep)
    (next : Option String) : t.ReadBack next ↔
      ∃ reading, readRow t.cols sep next (t.cells.map (CellUpdate.written sep)) = some reading ∧
      t.Agrees reading := by
  obtain ⟨p, hp, htag, hrow⟩ := t.markChanges_eq hne hsep
  unfold ReadBack
  constructor
  · rintro ⟨p', reading, hp', hreading, hagrees⟩
    obtain rfl := Option.some.inj (hp.symm.trans hp')
    rw [htag, hrow] at hreading
    exact ⟨reading, hreading, hagrees⟩
  · rintro ⟨reading, hreading, hagrees⟩
    refine ⟨p, reading, hp, ?_, hagrees⟩
    rw [htag, hrow]
    exact hreading

theorem readBack_of_blank (h : t.val = []) (next : Option String) : t.ReadBack next := by
  obtain ⟨reading, hreading, hblank⟩ := readRow_blank t.cols next
    ((List.range t.patcher.sheet.width).map fun c => t.patcher.sheet.cell c t.above.length)
  refine ⟨t.patcher, reading, ?_, ?_, (t.agrees_of_blank hblank).2 h⟩
  · unfold markChanges
    simp only [show t.change.val = t.val from rfl]
    rw [if_pos (t.assigned_eq_nil_iff.2 h)]
  · rw [t.tag_patcher]
    exact hreading

theorem separator_modified (h : t.Modified) :
    separator t.patcher (t.patcher.byCol t.val) (t.cells.map fun c => c.old.text) =
    some t.arrow := by
  unfold separator
  rw [if_pos ((t.any_assigned_iff fun status => status != "+++" && status != "---").2 ?_)]
  · exact t.arrow_spec.1
  · obtain ⟨c, hc, hnew, hadd, hdel⟩ := h
    exact ⟨c, hc, hnew, by simp [hadd, hdel]⟩

theorem separator_unmodified (h : ¬ t.Modified) :
    separator t.patcher (t.patcher.byCol t.val) (t.cells.map fun c => c.old.text) =
      some (if (assigned t.patcher (t.patcher.byCol t.val)).any fun c =>
        t.patcher.statusCol.cell c 0 == "+++" then "+"
        else "") := by
  unfold separator
  rw [if_neg]
  intro hany
  obtain ⟨c, hc, hnew, hstatus⟩ :=
    (t.any_assigned_iff fun status => status != "+++" && status != "---").1 hany
  rw [Bool.and_eq_true, bne_iff_ne, bne_iff_ne] at hstatus
  exact h ⟨c, hc, hnew, hstatus⟩

/-- The row is read back if and only if nothing is assigned, or the reader finds in each cell what
is meant by it. -/
theorem updateBack_iff (next : Option String) : t.ReadBack next ↔
    (∀ c ∈ t.cells, c.new = none) ∨ (t.Modified ∧ ∀ c ∈ t.cells, c.LegibleBehind t.arrow) ∨
      (¬ t.Modified ∧ ∀ c ∈ t.cells, c.LegiblePlain) := by
  rw [← t.val_eq_nil_iff]
  by_cases hne : t.val = []
  · exact iff_of_true (t.readBack_of_blank hne next) (Or.inl hne)
  by_cases hmod : t.Modified
  · obtain ⟨-, harrow, hfree⟩ := t.arrow_spec
    obtain ⟨hcode, hinsert, hdelete⟩ := arrow_isCode harrow
    have hcells :
      (∀ c ∈ t.cells, ∃ entry, readCell (readTag t.arrow) (c.status == "+++") (c.written t.arrow) =
        some entry ∧ c.Read entry) ↔ ∀ c ∈ t.cells, c.LegibleBehind t.arrow := by
      refine forall₂_congr fun c hc => ?_
      have hread := CellUpdate.read_behind_iff harrow (hfree c hc)
      rwa [String.ofList_toList, ← readTag_arrow harrow] at hread
    rw [t.readBack_iff_of_separator hne (t.separator_modified hmod),
      t.agrees_readRow_iff (Or.inl hcode) hinsert hdelete next, hcells]
    simp only [hne, hmod, false_or, true_and, not_true_eq_false, false_and, or_false]
  · have hsep := t.separator_unmodified hmod
    by_cases hadd : ((assigned t.patcher (t.patcher.byCol t.val)).any fun c =>
        t.patcher.statusCol.cell c 0 == "+++") = true
    · rw [if_pos hadd] at hsep
      have htag : readTag "+" = { plus := true } := rfl
      have hcells :
        (∀ c ∈ t.cells, ∃ entry, readCell (readTag "+") (c.status == "+++") (c.written "+") =
          some entry ∧ c.Read entry) ↔ ∀ c ∈ t.cells, c.LegiblePlain := by
        rw [htag]
        exact forall₂_congr fun c _ => CellUpdate.read_plain_iff
      rw [t.readBack_iff_of_separator hne hsep,
        t.agrees_readRow_iff (Or.inr rfl) (by decide) (by decide) next, hcells]
      simp only [hne, hmod, false_or, false_and, not_false_eq_true, true_and]
    · rw [if_neg hadd] at hsep
      rw [t.readBack_iff_of_separator hne hsep]
      refine iff_of_false (fun ⟨reading, hreading, hagrees⟩ => ?_) fun h => ?_
      · obtain ⟨reading', hreading', hblank⟩ :=
          readRow_blank t.cols next (t.cells.map (CellUpdate.written ""))
        obtain rfl := Option.some.inj (hreading.symm.trans hreading')
        exact hne ((t.agrees_of_blank hblank).1 hagrees)
      · rcases h with h | h | h
        · exact hne h
        · exact hmod h.1
        · -- a cell that is assigned would be in a new column
          obtain ⟨e, he⟩ := List.exists_mem_of_ne_nil _ hne
          obtain ⟨c, hc, hentry⟩ := List.mem_filterMap.1 he
          obtain ⟨v, hnew, -⟩ := Option.map_eq_some_iff.1 hentry
          have hlegible := h.2 c hc
          unfold CellUpdate.LegiblePlain at hlegible
          rw [hnew] at hlegible
          refine hadd
            ((t.any_assigned_iff fun status => status == "+++").2
              ⟨c, hc, ?_, beq_iff_eq.2 hlegible.1⟩)
          rw [hnew]
          rfl

/-- One cell of a table with one column. -/
def ofCell (old new : SheetCell) (hold : old.Stored) (hnew : new.Stored) : RowUpdate where
  cells :=
    [{ name := "a", old, new := some new, old_stored := hold,
       new_stored := fun _ hc => Option.some.inj hc ▸ hnew }]
  distinct := List.nodup_singleton _
  above := [[⟨"a", false⟩]]
  below := []

def ofUnderscore : RowUpdate := ofCell ⟨"_", false⟩ ⟨"x", false⟩ (by decide) (by decide)

def ofNull : RowUpdate := ofCell SheetCell.null ⟨"x", false⟩ (by decide) (by decide)

/-- What is read of a row, as the old and new value of the column `a`. -/
def readingOf (t : RowUpdate) : Option (Option (Option SheetCell × Option SheetCell)) :=
  (markChanges t.patcher t.change t.above.length).bind fun p =>
    (readRow t.cols (p.activeRow.cell 0 t.above.length) none
      ((List.range p.sheet.width).map fun c => p.sheet.cell c t.above.length)).map fun reading =>
        (reading.filter fun change => change.mode = .update).map fun change =>
          (change.cond.get? "a", change.val.get? "a")

/-- An underscore that is replaced is read as an empty text, and a null that is replaced is not
read. -/
theorem not_updateBack : ¬ ofUnderscore.ReadBack none ∧ ¬ ofNull.ReadBack none := by
  constructor
  · rintro ⟨p, reading, hp, hread, hagrees⟩
    have hreading : readingOf ofUnderscore = some (some (some ⟨"", false⟩, some ⟨"x", false⟩)) := by
      decide +kernel
    unfold readingOf at hreading
    rw [hp, Option.bind_some, hread, Option.map_some] at hreading
    unfold Agrees at hagrees
    obtain ⟨change, hchange, hentries⟩ := Option.map_eq_some_iff.1 (Option.some.inj hreading)
    rw [hchange] at hagrees
    have hcond := (hagrees _ (List.mem_singleton.2 rfl)).2 rfl
    exact absurd ((congrArg Prod.fst hentries).symm.trans hcond) (by decide)
  · rintro ⟨p, reading, hp, hread, hagrees⟩
    have hreading : readingOf ofNull = some (some (none, none)) := by decide +kernel
    unfold readingOf at hreading
    rw [hp, Option.bind_some, hread, Option.map_some] at hreading
    unfold Agrees at hagrees
    obtain ⟨change, hchange, hentries⟩ := Option.map_eq_some_iff.1 (Option.some.inj hreading)
    rw [hchange] at hagrees
    have hval := (hagrees _ (List.mem_singleton.2 rfl)).1
    exact absurd ((congrArg Prod.snd hentries).symm.trans hval) (by decide)

end RowUpdate

end Hilite

end Coopy
