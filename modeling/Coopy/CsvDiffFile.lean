import Coopy.CsvFraming
import Coopy.PatchParserCsv

/-!
# A table diff in a file

What is printed at the end of a merge is the sheet of the changes in the default style, each line
filled up with empty fields.  `applyCsv` does not tell an empty field from one that is not there, so
it makes the same of the file as of the sheet, if the cells come back.

    applyCsv sheet = some calls → … → applyCsv (readSheet sheet.encode) = some calls
                                                                                   (applyCsv_encode)
-/

namespace Coopy

open Lib Lib.Transducer

open CsvSheetReaderState (readCell readSheet)

namespace CsvSheet

/-- A record, with an empty text for each cell up to the width that it does not have. -/
def filled (width : Nat) (row : List SheetCell) : List SheetCell :=
  (List.range width).map fun x => row.getD x ⟨"", false⟩

/-- `encode` with a style of its own. -/
def encode (sheet : CsvSheet) : List Char :=
  DataSheet.encodeRows .defaultStyle none 0 (sheet.arr.map (filled sheet.w))

section
variable {width : Nat} {row : List SheetCell}

theorem length_filled (width : Nat) (row : List SheetCell) : (filled width row).length = width := by
  unfold filled
  rw [List.length_map, List.length_range]

theorem getElem?_filled (h : row.length ≤ width) {i : Nat} {c : SheetCell} (hc : row[i]? = some c) :
    (filled width row)[i]? = some c := by
  obtain ⟨hi, rfl⟩ := List.getElem?_eq_some_iff.1 hc
  unfold filled
  rw [List.getElem?_map, List.getElem?_range (by omega), Option.map_some,
    List.getD_eq_getElem _ _ hi]

theorem getD_filled (h : row.length ≤ width) (i : Nat) :
    (filled width row).getD i ⟨"", false⟩ = row.getD i ⟨"", false⟩ := by
  rcases Nat.lt_or_ge i width with hi | hi
  · rw [List.getD_eq_getElem _ _ (by rw [length_filled]; exact hi)]
    unfold filled
    rw [List.getElem_map, List.getElem_range]
  · rw [List.getD_eq_default _ _ (by rw [length_filled]; exact hi),
      List.getD_eq_default _ _ (by omega)]

theorem mem_filled {c : SheetCell} (hc : c ∈ filled width row) : c ∈ row ∨ c = ⟨"", false⟩ := by
  obtain ⟨x, -, rfl⟩ := List.mem_map.1 hc
  by_cases hx : x < row.length
  · exact Or.inl (List.getD_eq_getElem row _ hx ▸ List.getElem_mem hx)
  · exact Or.inr (List.getD_eq_default _ _ (Nat.le_of_not_lt hx))

end

/-! ## The text -/

/-- A cell that comes back from a file. -/
def Kept (c : SheetCell) : Prop := c.escaped = false ∧ comesBack c.text.toList = true

instance (c : SheetCell) : Decidable (Kept c) := inferInstanceAs (Decidable (_ ∧ _))

/-- Lines of more than one cell come back as they were written. -/
theorem sheetRows_kept {width : Nat} (hw : 1 < width) {rows : List (List SheetCell)}
    (hrows : ∀ row ∈ rows, row.length = width ∧ ∀ c ∈ row, Kept c) :
    (Libcsv.sheetRows rows).map (List.map readCell) = rows := by
  have hall : kept rows = rows := List.filter_eq_self.2 fun row hrow =>
    bne_iff_ne.2 (encodeCells_ne_nil (by rw [(hrows row hrow).1]; exact hw))
  rw [sheetRows_eq, hall]
  clear hall
  induction rows with
  | nil => rfl
  | cons row rows ih =>
    obtain ⟨fields, hline, hread⟩ := lineRows_of_comesBack (hrows row List.mem_cons_self).2
    rw [List.flatMap_cons, hline, List.map_append, ih fun r hr =>
      hrows r (List.mem_cons_of_mem _ hr)]
    simp [hread]

/-- The sheet that is read: its lines are filled up. -/
theorem readSheet_encode {sheet : CsvSheet} (hw : 1 < sheet.w) (hne : sheet.arr ≠ [])
    (hcells : ∀ row ∈ sheet.arr, ∀ c ∈ row, Kept c) :
    ∃ sheet', readSheet sheet.encode = some sheet' ∧ sheet'.arr = sheet.arr.map (filled sheet.w) ∧
    sheet'.w = sheet.w := by
  have hrows : ∀ row ∈ sheet.arr.map (filled sheet.w), row.length = sheet.w ∧
    ∀ c ∈ row, Kept c := by
    intro row hrow
    obtain ⟨record, hrecord, rfl⟩ := List.mem_map.1 hrow
    refine ⟨length_filled _ _, fun c hc => ?_⟩
    rcases mem_filled hc with hc | rfl
    · exact hcells record hrecord c hc
    · exact (by decide : Kept ⟨"", false⟩)
  let s : DataSheet :=
    { width := sheet.w
      rows := sheet.arr.map (filled sheet.w)
      rect := fun row hrow => (hrows row hrow).1
      stored := fun row hrow c hc hesc => by
        rw [((hrows row hrow).2 c hc).1] at hesc
        cases hesc }
  have hread : readSheet sheet.encode = some ((Libcsv.sheetRows s.rows).foldl enterRow {}) :=
    Coopy.readSheet_encode none s (show 0 < sheet.w by omega)
  have hback : (Libcsv.sheetRows s.rows).map (List.map readCell) = s.rows := sheetRows_kept hw hrows
  refine ⟨_, hread, ?_, closed_new.width_enterRows (Nat.zero_le _) ?_ fun row hrow => ?_⟩
  · rw [closed_new.arr_enterRows]
    exact hback
  · intro hnil
    rw [hnil] at hback
    exact hne (List.map_eq_nil_iff.1 hback.symm)
  · have hmem : row.map readCell ∈ s.rows := hback ▸ List.mem_map_of_mem hrow
    have hlen := (hrows _ hmem).1
    rwa [List.length_map] at hlen

end CsvSheet

/-! ## The lines -/

namespace CsvPatch

open CsvSheet (filled getD_filled getElem?_filled)

section
variable {s : CsvPatch} {flags : CompareFlags} {width w : Nat} {row : List SheetCell}

/-- A line that is filled up is read as the line. -/
theorem readLine_filled (h : row.length ≤ w) {r : List PatcherCall × CsvPatch}
    (hr : s.readLine flags width row = some r) :
    s.readLine flags width (filled w row) = some r := by
  have hnames : readNames width (filled w row) = readNames width row := by
    funext x
    unfold readNames
    simp only [getD_filled h]
  have hdata : readData (filled w row) = readData row := by
    funext x len
    unfold readData
    simp only [getD_filled h]
  have htext : ∀ {i : Nat} {t : String}, row[i]?.map SheetCell.text = some t →
      (filled w row)[i]?.map SheetCell.text = some t := by
    intro i t ht
    obtain ⟨c, hc, rfl⟩ := Option.map_eq_some_iff.1 ht
    rw [getElem?_filled h hc]
    rfl
  have hsheet : ∀ {r' : List PatcherCall × CsvPatch},
      (row[2]?.map fun c => ([PatcherCall.setSheet c.text], s)) = some r' →
        ((filled w row)[2]?.map fun c => ([PatcherCall.setSheet c.text], s)) = some r' := by
    intro r' hr'
    obtain ⟨c, hc, rfl⟩ := Option.map_eq_some_iff.1 hr'
    rw [getElem?_filled h hc]
    rfl
  unfold readLine at hr ⊢
  simp only [Option.bind_eq_bind, Option.bind_eq_some_iff] at hr
  obtain ⟨cmd0, h0, cmd1, h1, hr⟩ := hr
  rw [htext h0, htext h1]
  unfold columnLine rowLine at hr ⊢
  simp only [Option.bind_eq_bind, Option.bind_some, hnames, hdata]
  split at hr
  · obtain ⟨ver, hver, hr⟩ := Option.bind_eq_some_iff.1 hr
    rw [htext hver]
    exact hr
  · obtain ⟨val, hval, hr⟩ := Option.bind_eq_some_iff.1 hr
    rw [htext hval]
    exact hr
  · split at hr
    · next hname =>
      obtain ⟨out, hout, hr⟩ := Option.bind_eq_some_iff.1 hr
      rw [if_pos hname, hsheet hout]
      exact hr
    · next hname =>
      rw [if_neg hname]
      exact hr
  · split at hr
    · next hname =>
      obtain ⟨out, hout, hr⟩ := Option.bind_eq_some_iff.1 hr
      rw [if_pos hname, hsheet hout]
      exact hr
    · next hname =>
      rw [if_neg hname]
      exact hr
  · exact hr
  · exact hr
  · exact hr
  · exact hr

theorem step_read {r : List PatcherCall × CsvPatch} (h : s.readLine flags width row = some r) :
    step flags width (some s) row = (r.1, some r.2) := by
  unfold step
  simp only [h]

theorem step_ended (h : s.readLine flags width row = none) :
    step flags width (some s) row = ([], none) := by
  unfold step
  simp only [h]

/-- Where the program has ended nothing is read. -/
theorem run_none (rows : List (List SheetCell)) :
    (step flags width).run rows none = ([], none) := by
  induction rows with
  | nil => rfl
  | cons row rows ih =>
    rw [run_cons, show step flags width none row = ([], none) from rfl, ih]
    rfl

/-- So are all lines, if the program gets to the end of them. -/
theorem run_filled {rows : List (List SheetCell)} (h : ∀ row ∈ rows, row.length ≤ w) :
    ∀ {s s' : CsvPatch} {calls : List PatcherCall}, Passes (step flags width) (some s) rows calls
      (some s') →
      Passes (step flags width) (some s) (rows.map (filled w)) calls (some s') := by
  induction rows with
  | nil => exact fun hpass => hpass
  | cons row rows ih =>
    intro s s' calls hpass
    have hrun := hpass.run_eq
    rw [run_cons] at hrun
    cases hline : s.readLine flags width row with
    | none =>
      rw [step_ended hline, run_none] at hrun
      cases hrun
    | some r =>
      rw [step_read hline] at hrun
      obtain ⟨rfl, hlast⟩ := Prod.mk.inj hrun
      have hrest := ih (fun row' hrow => h row' (List.mem_cons_of_mem _ hrow)) (Prod.ext rfl hlast)
      exact Passes.cons (step_read (readLine_filled (h row List.mem_cons_self) hline)) hrest

end

end CsvPatch

open CsvSheet (Kept filled)

/-- **A table diff that is printed and read again.**  If the cells come back, the calls are those
that the sheet itself would have made. -/
theorem applyCsv_encode {flags : CompareFlags} {sheet : CsvSheet} (hw : 1 < sheet.w)
    (hne : sheet.arr ≠ [])
    (hlen : ∀ row ∈ sheet.arr, row.length ≤ sheet.w) (hcells : ∀ row ∈ sheet.arr, ∀ c ∈ row, Kept c)
    {calls : List PatcherCall} (h : applyCsv flags sheet = some calls) :
    ∃ sheet', readSheet sheet.encode = some sheet' ∧ applyCsv flags sheet' = some calls := by
  obtain ⟨sheet', hread, harr, hwidth⟩ := CsvSheet.readSheet_encode hw hne hcells
  refine ⟨sheet', hread, ?_⟩
  unfold applyCsv at h ⊢
  rw [harr, hwidth]
  cases hrun : (CsvPatch.step flags sheet.w).run sheet.arr (some {}) with
  | mk made last =>
    rw [hrun] at h
    cases last with
    | none => cases h
    | some s =>
      rw [(CsvPatch.run_filled hlen hrun).run_eq]
      exact h

end Coopy
