import Coopy.RubyCompare
import Coopy.RubyCsv

/-!
# `DiffRenderCsv` and `DiffParser`

A row change is one CSV line, its mode in front.  A cell with a new value has both values in it,
with an arrow between them; the parser looks for the arrow in each cell of an update.

    the parser gives back modes, old values and new values ↔ `Holds`              (reparsed_iff)
-/

namespace Coopy

open Lib

namespace Ruby

/-! ## Rendering -/

namespace DiffRenderCsv

/-- `DiffOutputTable#quote`. -/
def quote (x : Option String) : String := x.getD ""

/-- What `DiffOutputTable#apply_row` puts in for a cell. -/
def cellText (cell : Cell String) : Option String :=
  match cell.newValue with
  | some w => some (quote cell.value ++ "->" ++ w)
  | none => cell.txt

def applyRow (rc : RowChange String) : CSV.Line := some rc.rowMode :: rc.cells.map cellText

/-- The text after all rows. -/
def render (rcs : List (RowChange String)) : List Char := (rcs.map applyRow).flatMap CSV.toCsv

end DiffRenderCsv

/-! ## Parsing -/

namespace DiffParser

/-- `index`: the first place of a text in another one. -/
def index? (pat : List Char) : List Char → Option Nat
  | [] => if pat = [] then some 0 else none
  | c :: s => if pat <+: c :: s then some 0 else (index? pat s).map (· + 1)

def arrow : List Char := ['-', '>']

structure DiffColumns where
  titleRow : Option CSV.Line := none
  changeRow : Option CSV.Line := none

/-- The mode of a row, and whether it is open to the modes of its columns. -/
def rowMode (txt : String) : String × Bool :=
  if txt = "@" ∨ txt = "@@" then ("@@", false)
  else if txt = "!" ∨ txt = "+++" ∨ txt = "---" ∨ txt = "..." ∨
    (index? arrow txt.toList).isSome then (txt, false)
  else ("", true)

/-- The mode that a cell has from its column. -/
def columnMode (columns : DiffColumns) (c : Nat) : String :=
  match columns.changeRow with
  | none => ""
  | some row =>
    match row.getD c none with
    | some "+++" => "+++"
    | some "---" => "---"
    | _ => ""

def parseCell (columns : DiffColumns) (opened : Bool) (cmd : String) (c : Nat)
    (val : Option String) : Cell String :=
  let txt := if val.getD "" = "NULL" then "" else val.getD ""
  let cellMode := if opened then columnMode columns c else ""
  let hit := if (index? arrow cmd.toList).isSome then index? cmd.toList txt.toList else none
  match hit with
  | some b =>
    { txt := txt, value := some (String.ofList (txt.toList.take b))
      newValue := some (String.ofList (txt.toList.drop (b + cmd.toList.length))), cellMode :=
        "->", separator := some cmd }
  | none => { txt := txt, value := val, cellMode := cellMode, separator := some "" }

/-- One row that is not blank: its columns, and the row change. -/
def parseRow (columns : DiffColumns) (first : Option String) (rest : CSV.Line) :
    DiffColumns × RowChange String :=
  let cmd := first.getD ""
  let row := first :: rest
  let columns :=
    if cmd = "@" ∨ cmd = "@@" then { columns with titleRow := some row }
    else if cmd = "!" then { columns with changeRow := some row }
    else columns
  (columns,
    ⟨(rowMode cmd).1, rest.zipIdx.map fun v => parseCell columns (rowMode cmd).2 cmd (v.2 + 1) v.1⟩)

structure ParserState where
  columns : DiffColumns := {}
  -- row changes that wait for the titles
  rcs : List (RowChange String) := []
  out : List (RowChange String) := []

def applyRow (s : ParserState) : CSV.Line → ParserState
  | [] => s
  | first :: rest =>
    let parsed := parseRow s.columns first rest
    if parsed.1.titleRow.isSome then
      { columns := parsed.1, rcs := [], out := s.out ++ s.rcs ++ [parsed.2] }
    else { s with columns := parsed.1, rcs := s.rcs ++ [parsed.2] }

/-- `DiffParser#apply`: the row changes that the output is given. -/
def apply (rows : List CSV.Line) : List (RowChange String) :=
  let s := rows.foldl applyRow {}
  s.out ++ s.rcs

/-- The parser on a text. -/
def parse (text : List Char) : Option (List (RowChange String)) := (CSV.read text).map apply

end DiffParser

open DiffParser DiffRenderCsv

/-! ## The first arrow -/

namespace DiffParser

theorem index?_eq_none {pat s : List Char} : index? pat s = none ↔ ¬ pat <:+: s := by
  induction s with
  | nil =>
    rw [index?, List.infix_nil]
    split <;> simp_all
  | cons c s ih =>
    rw [index?, List.infix_cons_iff, not_or, ← ih]
    split
    · next h => simp [h]
    · next h => simp [h]

theorem index?_append {pat s : List Char} {b : Nat} (t : List Char) (h : index? pat s = some b) :
    index? pat (s ++ t) = some b ∧ b + pat.length ≤ s.length := by
  induction s generalizing b with
  | nil =>
    rw [index?] at h
    split at h
    · next hpat =>
      cases h
      rw [hpat]
      cases t <;> simp [index?]
    · cases h
  | cons c s ih =>
    rw [List.cons_append, index?]
    rw [index?] at h
    split at h
    · next hpat =>
      cases h
      have hlen := hpat.length_le
      rw [if_pos (by exact hpat.trans (List.prefix_append (c :: s) t))]
      exact ⟨rfl, by simpa using hlen⟩
    · next hpat =>
      obtain ⟨b', hb', rfl⟩ := Option.map_eq_some_iff.1 h
      obtain ⟨hrest, hlen⟩ := ih hb'
      have hnot : ¬ pat <+: c :: (s ++ t) := by
        intro hp
        refine hpat (List.prefix_of_prefix_length_le hp (List.prefix_append (c :: s) t) ?_)
        rw [List.length_cons]
        omega
      rw [if_neg hnot, hrest]
      exact ⟨rfl, by rw [List.length_cons]; omega⟩

/-- An arrow behind a text without one is the first. -/
theorem index?_arrow {s : List Char} (h : ¬ arrow <:+: s) (t : List Char) :
    index? arrow (s ++ (arrow ++ t)) = some s.length := by
  induction s with
  | nil => rw [List.nil_append, arrow, List.cons_append, index?, if_pos (by simp)]; rfl
  | cons c s ih =>
    obtain ⟨hstart, hs⟩ := not_or.1 (mt List.infix_cons_iff.2 h)
    have hnot : ¬ arrow <+: c :: (s ++ (arrow ++ t)) := by
      cases s with
      | nil => simp [arrow]
      | cons d s => simpa [arrow] using hstart
    rw [List.cons_append, index?, if_neg hnot, ih hs]
    rfl

end DiffParser

/-! ## Row changes there and back -/

/-- Row changes over some columns, as a comparison makes them. -/
structure Diff where
  columns : List String
  changes : List (RowChange String)
  distinct : columns.Nodup
  mode : ∀ rc ∈ changes, rc.rowMode ∈ ["+++", "---", "->", "", "..."]
  width : ∀ rc ∈ changes, rc.cells.length = columns.length
  txt : ∀ rc ∈ changes, ∀ c ∈ rc.cells, c.txt = c.value
  -- only the cells of an update are changed ones
  changed : ∀ rc ∈ changes, ∀ c ∈ rc.cells, (rc.rowMode = "->" ∧ c.cellMode = "->") ∨
    (c.cellMode = "" ∧ c.newValue = none)

/-- The new value of a changed cell. -/
def Cell.new (c : Cell String) : Option (Option String) :=
  if c.cellMode = "->" then some c.newValue else none

/-- What a row change says: its mode, the old values and the new ones. -/
def RowChange.content (rc : RowChange String) :
    String × List (Option String × Option (Option String)) :=
  (rc.rowMode, rc.cells.map fun c => (c.value, c.new))

namespace Diff

variable (d : Diff)

/-- The row that says what the columns are. -/
def header : RowChange String := ⟨"@@", d.columns.map fun v => { txt := some v, value := some v }⟩

/-- The rows that are parsed say what the rendered ones said. -/
def Returns : Prop :=
  ∃ rcs, parse (render (d.header :: d.changes)) = some rcs ∧
  rcs.map RowChange.content = (d.header :: d.changes).map RowChange.content

/-- The cell can share its text with an arrow. -/
def CellHolds (c : Cell String) : Prop :=
  (∀ s ∈ c.value, ¬ arrow <:+: s.toList) ∧ (c.cellMode = "->" → c.value ≠ none ∧ c.newValue ≠ none)

/-- When the row changes come back. -/
structure Holds : Prop where
  names : (d.columns.flatMap String.toList).find? CSV.isBreak ≠ some '\r'
  cells : ∀ rc ∈ d.changes, rc.rowMode = "->" → ∀ c ∈ rc.cells, CellHolds c

end Diff

/-! ## Cells -/

section
variable {columns : DiffColumns} {n : Nat} {c : Cell String}

theorem parseCell_hit {t : String} {b : Nat} (hb : index? arrow t.toList = some b) :
    parseCell columns false "->" n (some t) =
    { txt := some t, value := some (String.ofList (t.toList.take b))
      newValue := some (String.ofList (t.toList.drop (b + 2))), cellMode := "->", separator :=
        some "->" } := by
  have hnull : t ≠ "NULL" := by
    rintro rfl
    rw [show index? arrow "NULL".toList = none by decide] at hb
    cases hb
  have hhit : (if (index? arrow "->".toList).isSome then index? "->".toList t.toList else none) =
    some b := by
    rw [if_pos (by decide)]
    exact hb
  unfold parseCell
  simp only [Option.getD_some, if_neg hnull, hhit]
  rfl

theorem parseCell_miss {t : String} (h : index? arrow t.toList = none) :
    (parseCell columns false "->" n (some t)).value = some t ∧
    (parseCell columns false "->" n (some t)).new = none := by
  have hmiss :
    (if (index? arrow "->".toList).isSome then index? "->".toList
      (if t = "NULL" then "" else t).toList else none) = none := by
    rw [if_pos (by decide)]
    split
    · decide
    · exact h
  have hcell : parseCell columns false "->" n (some t) =
      { txt := some (if t = "NULL" then "" else t), value := some t, separator := some "" } := by
    unfold parseCell
    simp only [Option.getD_some, hmiss]
    rfl
  rw [hcell]
  exact ⟨rfl, rfl⟩

/-- **A cell of an update.** -/
theorem parseCell_update (htxt : c.txt = c.value) (hchanged : c.cellMode = "->" ∨
    (c.cellMode = "" ∧ c.newValue = none)) : ((parseCell columns false "->" n (cellText c)).value,
      (parseCell columns false "->" n (cellText c)).new) = (c.value, c.new) ↔
      Diff.CellHolds c := by
  cases hnew : c.newValue with
  | some w =>
    have hmode : c.cellMode = "->" := hchanged.resolve_right fun h => by rw [hnew] at h; cases h.2
    let s := (quote c.value).toList
    have htext : cellText c = some (String.ofList (s ++ (arrow ++ w.toList))) := by
      rw [cellText, hnew]
      refine congrArg some (String.toList_inj.1 ?_)
      simp [s, arrow]
    obtain ⟨b, hb⟩ : ∃ b, index? arrow (s ++ (arrow ++ w.toList)) = some b := by
      by_cases hs : arrow <:+: s
      · obtain ⟨b, hb⟩ := Option.ne_none_iff_exists'.1 (mt index?_eq_none.1 (not_not.2 hs))
        exact ⟨b, (index?_append _ hb).1⟩
      · exact ⟨_, index?_arrow hs _⟩
    have hcell := @parseCell_hit columns n _ b (String.toList_ofList.symm ▸ hb : index? arrow
      (String.ofList (s ++ (arrow ++ w.toList))).toList = some b)
    rw [← htext, String.toList_ofList] at hcell
    simp only [hcell, Cell.new, hmode, if_true, hnew, Prod.mk.injEq, Diff.CellHolds, ne_eq,
      reduceCtorEq, not_false_eq_true, and_true, forall_const]
    constructor
    · rintro ⟨hvalue, -⟩
      have hs : s = (String.ofList ((s ++ (arrow ++ w.toList)).take b)).toList := by
        show (quote c.value).toList = _
        rw [← hvalue]
        rfl
      rw [String.toList_ofList] at hs
      refine ⟨fun t ht => ?_, by rw [← hvalue]; nofun⟩
      have ht : t.toList = s := by
        show _ = (quote c.value).toList
        rw [Option.mem_def.1 ht]
        rfl
      rw [ht]
      by_contra harrow
      obtain ⟨b', hb'⟩ := Option.ne_none_iff_exists'.1 (mt index?_eq_none.1 (not_not.2 harrow))
      obtain ⟨hfirst, hlen⟩ := index?_append (arrow ++ w.toList) hb'
      rw [hb, Option.some.injEq] at hfirst
      subst hfirst
      have := congrArg List.length hs
      simp only [List.length_take, List.length_append, arrow, List.length_cons,
        List.length_nil] at this hlen
      omega
    · rintro ⟨harrow, hvalue⟩
      obtain ⟨t, ht⟩ := Option.ne_none_iff_exists'.1 hvalue
      have hs : s = t.toList := by
        show (quote c.value).toList = _
        rw [ht]
        rfl
      have hfirst := index?_arrow (hs ▸ harrow t ht) w.toList
      rw [hb, Option.some.injEq] at hfirst
      rw [hfirst, List.take_left, ht, hs, String.ofList_toList]
      refine ⟨rfl, congrArg (fun t => some (some t)) ?_⟩
      rw [← List.append_assoc, List.drop_left' (by simp [arrow]), String.ofList_toList]
  | none =>
    have htext : cellText c = c.value := by rw [cellText, hnew, htxt]
    rw [htext]
    cases hvalue : c.value with
    | none =>
      have hcell :
        parseCell columns false "->" n none =
        { txt := some "", value := none, separator := some "" } := rfl
      rw [hcell]
      rcases hchanged with hmode | ⟨hmode, -⟩
      · simp [Cell.new, hmode, Diff.CellHolds, hvalue]
      · simp [Cell.new, hmode, Diff.CellHolds, hvalue]
    | some t =>
      by_cases harrow : arrow <:+: t.toList
      · obtain ⟨b, hb⟩ := Option.ne_none_iff_exists'.1 (mt index?_eq_none.1 (not_not.2 harrow))
        have hnot : ¬ Diff.CellHolds c := fun h => h.1 t hvalue harrow
        refine iff_of_false (fun he => ?_) hnot
        have hnew' := (Prod.mk.inj he).2
        rw [parseCell_hit hb] at hnew'
        simp only [Cell.new, hnew, if_true] at hnew'
        split at hnew' <;> cases hnew'
      · obtain ⟨hval, hnone⟩ := @parseCell_miss columns n _ (index?_eq_none.2 harrow)
        rw [hval, hnone]
        rcases hchanged with hmode | ⟨hmode, -⟩
        · simp [Cell.new, hmode, Diff.CellHolds, hvalue, hnew]
        · simp [Cell.new, hmode, Diff.CellHolds, hvalue, harrow]

/-- A cell of any other row. -/
theorem parseCell_plain {cmd : String} {opened : Bool} (hcmd : index? arrow cmd.toList = none)
    (hcols : columns.changeRow = none) (htxt : c.txt = c.value) (hmode : c.cellMode = "")
    (hnew : c.newValue = none) : ((parseCell columns opened cmd n (cellText c)).value,
      (parseCell columns opened cmd n (cellText c)).new) = (c.value, c.new) := by
  have htext : cellText c = c.value := by rw [cellText, hnew, htxt]
  have hcol : (if opened = true then columnMode columns n else "") = "" := by
    rw [columnMode, hcols]
    split <;> rfl
  rw [htext, parseCell, hcmd]
  simp only [Option.isSome_none, Bool.false_eq_true, if_false, hcol, Cell.new, hmode]
  rw [if_neg (by decide), if_neg (by decide)]

end

/-! ## Rows -/

namespace DiffParser

variable {columns : DiffColumns}

/-- Behind the titles a row change is passed on at once. -/
theorem foldl_applyRow {title : CSV.Line} {rcs : List (RowChange String)}
    (hmode : ∀ rc ∈ rcs, rc.rowMode ∈ ["+++", "---", "->", "", "..."])
    (out : List (RowChange String)) : (rcs.map DiffRenderCsv.applyRow).foldl applyRow
      { columns := { titleRow := some title }, out := out } =
      { columns := { titleRow := some title }
        out := out ++ rcs.map fun rc =>
          (parseRow { titleRow := some title } (some rc.rowMode) (rc.cells.map cellText)).2 } := by
  induction rcs generalizing out with
  | nil => simp
  | cons rc rcs ih =>
    have hkeep : (parseRow { titleRow := some title } (some rc.rowMode) (rc.cells.map cellText)).1 =
      { titleRow := some title } := by
      rcases List.mem_cons.1 (hmode rc List.mem_cons_self) with h | h
      · simp [parseRow, h]
      · rcases List.mem_cons.1 h with h | h
        · simp [parseRow, h]
        · rcases List.mem_cons.1 h with h | h
          · simp [parseRow, h]
          · rcases List.mem_cons.1 h with h | h
            · simp [parseRow, h]
            · simp [parseRow, List.mem_singleton.1 h]
    rw [List.map_cons, List.foldl_cons, DiffRenderCsv.applyRow, applyRow]
    simp only [hkeep, Option.isSome_some, if_true, List.append_nil]
    rw [ih fun rc hrc => hmode rc (List.mem_cons_of_mem _ hrc)]
    simp

theorem rowMode_modes : ∀ m ∈ ["+++", "---", "->", "", "..."], (rowMode m).1 = m ∧
    (m ≠ "->" → index? arrow m.toList = none) ∧ (m = "->" → (rowMode m).2 = false) := by
  decide

end DiffParser

namespace Diff

variable (d : Diff)

/-- The titles that are found. -/
def titles : CSV.Line := some "@@" :: d.columns.map some

/-- What is parsed of a row change. -/
def parsed (rc : RowChange String) : RowChange String :=
  (parseRow { titleRow := some d.titles } (some rc.rowMode) (rc.cells.map cellText)).2

theorem line_header : DiffRenderCsv.applyRow d.header = d.titles := by
  simp [DiffRenderCsv.applyRow, header, titles, cellText]

theorem apply_lines :
    DiffParser.apply ((d.header :: d.changes).map DiffRenderCsv.applyRow) =
      (parseRow {} (some "@@") (d.columns.map some)).2 :: d.changes.map d.parsed := by
  have hfirst : DiffParser.applyRow {} d.titles =
      { columns := { titleRow := some d.titles }
        out := [(parseRow {} (some "@@") (d.columns.map some)).2] } := by
    simp [DiffParser.applyRow, titles, parseRow]
  unfold DiffParser.apply
  rw [List.map_cons, List.foldl_cons, line_header, hfirst, foldl_applyRow d.mode]
  simp only [List.append_nil]
  rfl

/-- Cells of a row, one by one. -/
theorem map_zipIdx_eq_iff {α β γ : Type} {f : α × Nat → γ} {g : β → γ} {h : β → α}
    {cs : List β} (k : Nat) :
    ((cs.map h).zipIdx k).map f = cs.map g ↔ ∀ i (hi : i < cs.length), f (h cs[i], k + i) =
    g cs[i] := by
  rw [List.ext_getElem_iff]
  simp only [List.length_map, List.length_zipIdx, List.getElem_map, List.getElem_zipIdx, true_and]
  exact ⟨fun hall i hi => hall i hi hi, fun hall i hi _ => hall i hi⟩

/-- **A row change** says the same if and only if the cells of an update can share their texts. -/
theorem content_parsed {rc : RowChange String} (hrc : rc ∈ d.changes) :
    (d.parsed rc).content = rc.content ↔ (rc.rowMode = "->" → ∀ c ∈ rc.cells, CellHolds c) := by
  obtain ⟨hmode, harrow, hopened⟩ := rowMode_modes rc.rowMode (d.mode rc hrc)
  have hcontent : (d.parsed rc).content = rc.content ↔ ∀ i (hi : i < rc.cells.length),
      ((parseCell { titleRow := some d.titles } (rowMode rc.rowMode).2 rc.rowMode (i + 1)
        (cellText rc.cells[i])).value,
        (parseCell { titleRow := some d.titles } (rowMode rc.rowMode).2 rc.rowMode (i + 1)
          (cellText rc.cells[i])).new) =
        (rc.cells[i].value, rc.cells[i].new) := by
    have hne : ¬ (rc.rowMode = "@" ∨ rc.rowMode = "@@") ∧ rc.rowMode ≠ "!" := by
      have := d.mode rc hrc
      constructor
      · rintro (h | h) <;> rw [h] at this <;> revert this <;> decide
      · intro h
        rw [h] at this
        revert this
        decide
    rw [RowChange.content, RowChange.content, parsed, parseRow]
    simp only [Option.getD_some, if_neg hne.1, if_neg hne.2, hmode, Prod.mk.injEq,
      true_and, List.map_map]
    rw [map_zipIdx_eq_iff]
    simp only [Function.comp, Nat.zero_add, Prod.mk.injEq]
  rw [hcontent]
  by_cases hm : rc.rowMode = "->"
  · have hcells : ∀ i (hi : i < rc.cells.length), _ ↔ CellHolds rc.cells[i] := fun i hi =>
      @parseCell_update { titleRow := some d.titles } (i + 1) rc.cells[i]
        (d.txt rc hrc _ (List.getElem_mem hi))
        ((d.changed rc hrc _ (List.getElem_mem hi)).imp_left And.right)
    rw [hm, show (rowMode "->").2 = false from rfl]
    simp only [forall_const]
    constructor
    · intro hall c hc
      obtain ⟨i, hi, rfl⟩ := List.mem_iff_getElem.1 hc
      exact (hcells i hi).1 (hall i hi)
    · exact fun hall i hi => (hcells i hi).2 (hall _ (List.getElem_mem hi))
  · refine iff_of_true (fun i hi => ?_) fun h => absurd h hm
    obtain ⟨hcell, hnew⟩ := (d.changed rc hrc _ (List.getElem_mem hi)).resolve_left fun h => hm h.1
    exact parseCell_plain (harrow hm) rfl (d.txt rc hrc _ (List.getElem_mem hi)) hcell hnew

/-- The titles say the same. -/
theorem content_header :
    (parseRow {} (some "@@") (d.columns.map some)).2.content = d.header.content := by
  have hmode : (parseRow {} (some "@@") (d.columns.map some)).2.rowMode = "@@" := rfl
  have hcells : (parseRow {} (some "@@") (d.columns.map some)).2.cells =
      (d.columns.map some).zipIdx.map fun v => parseCell { titleRow := some d.titles } false "@@"
      (v.2 + 1) v.1 := rfl
  rw [RowChange.content, RowChange.content, hmode, hcells, header]
  simp only [List.map_map, Prod.mk.injEq, true_and]
  rw [map_zipIdx_eq_iff]
  intro i hi
  exact parseCell_plain (c := { txt := some d.columns[i], value := some d.columns[i] })
    (by decide) rfl rfl rfl rfl

theorem endsLf_titles : CSV.EndsLf d.titles ↔ (d.columns.flatMap String.toList).find? CSV.isBreak ≠
    some '\r' := by
  have hfind : (d.titles.flatMap fun f => (f.getD "").toList).find? CSV.isBreak =
      (d.columns.flatMap String.toList).find? CSV.isBreak := by
    rw [titles, List.flatMap_cons, List.find?_append, List.flatMap_map]
    rfl
  rw [CSV.EndsLf, hfind]

/-- **When the row changes come back.** -/
theorem reparsed_iff (d : Diff) : d.Returns ↔ d.Holds := by
  have hlines : ∀ line ∈ (d.header :: d.changes).map DiffRenderCsv.applyRow, line ≠ [none] := by
    intro line hline
    obtain ⟨rc, -, rfl⟩ := List.mem_map.1 hline
    simp [DiffRenderCsv.applyRow]
  have hread :=
    @CSV.read_toCsv d.titles (d.changes.map DiffRenderCsv.applyRow)
    (by rwa [List.map_cons, line_header] at hlines)
  have hparse : parse (render (d.header :: d.changes)) =
      (CSV.read ((d.titles :: d.changes.map DiffRenderCsv.applyRow).flatMap CSV.toCsv)).map
      DiffParser.apply := by
    rw [parse, render, List.map_cons, line_header]
  have hcontent :
    ((parseRow {} (some "@@") (d.columns.map some)).2 :: d.changes.map d.parsed).map
    RowChange.content =
      (d.header :: d.changes).map RowChange.content ↔ ∀ rc ∈ d.changes, rc.rowMode = "->" →
      ∀ c ∈ rc.cells, CellHolds c := by
    rw [List.map_cons, List.map_cons, content_header, List.cons.injEq, List.map_map]
    simp only [true_and]
    exact List.map_inj_left.trans (forall₂_congr fun rc hrc => d.content_parsed hrc)
  unfold Returns
  rw [hparse]
  by_cases hlf : CSV.EndsLf d.titles
  · rw [hread.1 hlf, Option.map_some, ← line_header, ← List.map_cons, apply_lines]
    constructor
    · rintro ⟨rcs, hrcs, he⟩
      rw [← Option.some.inj hrcs] at he
      exact ⟨d.endsLf_titles.1 hlf, hcontent.1 he⟩
    · exact fun h => ⟨_, rfl, hcontent.2 h.cells⟩
  · rw [hread.2 hlf]
    refine iff_of_false ?_ fun h => hlf (d.endsLf_titles.2 h.names)
    rintro ⟨rcs, hrcs, -⟩
    cases hrcs

/-- An update of a cell that was NULL. -/
def nullToValue : Diff where
  columns := ["id", "v"]
  changes :=
    [⟨"->",
      [{ txt := some "1", value := some "1" },
        { txt := none, value := none, newValue := some "a", cellMode := "->" }]⟩]
  distinct := by decide
  mode := by decide
  width := by decide
  txt := by decide
  changed := by decide

/-- Its old value comes back as an empty text. -/
theorem nullToValue_folded :
    (parse (render (nullToValue.header :: nullToValue.changes))).map (List.map RowChange.content) =
      some [("@@", [(some "id", none), (some "v", none)]),
        ("->", [(some "1", none), (some "", some (some "a"))])] ∧
    ¬ nullToValue.Returns := by
  have hparse :
    (parse (render (nullToValue.header :: nullToValue.changes))).map (List.map RowChange.content) =
      some [("@@", [(some "id", none), (some "v", none)]),
        ("->", [(some "1", none), (some "", some (some "a"))])] := by
    decide +kernel
  refine ⟨hparse, ?_⟩
  rintro ⟨rcs, hrcs, he⟩
  rw [hrcs, Option.map_some, he] at hparse
  revert hparse
  decide

end Diff

end Ruby

end Coopy
