import Coopy.Lib.SingledOut
import Coopy.SqlDiffColumns
import Coopy.SqlDiffText

/-!
# Rows of a patched table

The row that a change looks for is the first that agrees with the conditions, while a statement is
about all rows of which the whole condition is true.  A row agrees just where the condition is true
of it, if no condition is on NULL; and if one row agrees at most, then the patcher deletes and
updates what the statement does.

    holds (sqlEntries cond) of a row ↔ the row agrees, and no condition is on NULL
                                                                        (RowChange.holds_sqlEntries)
    a change of a row keeps the columns, and edits the rows                     (Standing.changeRow)
-/

namespace Coopy

open Lib MergeOutputSqlDiff

namespace RowChange

variable {names : List String} {row : List SheetCell}

theorem sqlValue_inj {c d : SheetCell} (hd : sqlValue d ≠ none)
    (h : sqlValue c = sqlValue d) : c = d := by
  obtain ⟨s, e⟩ := c
  obtain ⟨t, f⟩ := d
  unfold sqlValue at h hd
  cases e <;> cases f <;> simp_all

/-- The values that are written make the row anew. -/
theorem map_patched {val : AssocMap String SheetCell} (hval : val.keys.Nodup) (names : List String)
    (row : List SheetCell) :
    (patched names val row).map sqlValue = Sql.write (sqlEntries val) names (row.map sqlValue) := by
  unfold patched Sql.write
  rw [List.map_zipWith, List.zipWith_map_right]
  refine congrArg (fun f => List.zipWith f names row) (funext fun n => funext fun c => ?_)
  rw [get?_sqlEntries hval]
  cases val.get? n with
  | none => rfl
  | some d => rfl

/-- **The condition of a statement.** -/
theorem holds_sqlEntries (hnodup : names.Nodup) (hrow : row.length = names.length)
    {cond : AssocMap String SheetCell}
    (hcond : cond.keys.Nodup) (hnames : ∀ n ∈ cond.keys, n ∈ names) :
    Sql.holds (sqlEntries cond) (Sql.under names (row.map sqlValue)) = some true ↔
      agrees names cond row = true ∧ ∀ e ∈ cond, sqlValue e.2 ≠ none := by
  have hwidth : (row.map sqlValue).length = names.length := by rw [List.length_map, hrow]
  have hat : ∀ i (hi : i < names.length), Sql.under names (row.map sqlValue) names[i] =
    sqlValue row[i] := by
    intro i hi
    rw [Sql.under_getElem hnodup hwidth hi, List.getElem_map]
  rw [Sql.holds_iff, mem_sqlEntries, agrees_iff hrow]
  constructor
  · intro h
    refine ⟨fun i hi c hc => ?_, fun e he => (h e he).2⟩
    obtain ⟨heq, hne⟩ := h _ (AssocMap.mem_of_get? hc)
    rw [hat i hi] at heq
    rw [List.getElem?_eq_getElem (by omega), sqlValue_inj hne heq]
  · rintro ⟨hall, hne⟩ e he
    refine ⟨?_, hne e he⟩
    obtain ⟨i, hi, hn⟩ := List.mem_iff_getElem.1 (hnames e.1 (List.mem_map_of_mem he))
    have hrowi := hall i hi e.2 (by rw [hn]; exact AssocMap.get?_of_mem hcond he)
    rw [List.getElem?_eq_getElem (by omega)] at hrowi
    rw [← hn, hat i hi, Option.some.inj hrowi]

/-- The rows that agree with the conditions of a change. -/
def found (names : List String) (change : RowChange) (rows : List (List SheetCell)) : Nat :=
  rows.countP (agrees names change.cond)

/-- One row agrees, and no condition is on NULL; or none does. -/
def SinglesOut (names : List String) (change : RowChange) (rows : List (List SheetCell)) : Prop :=
  found names change rows = 0 ∨
  (found names change rows = 1 ∧ ∀ e ∈ change.cond, sqlValue e.2 ≠ none)

section
variable {change : RowChange} {rows : List (List SheetCell)}

theorem SinglesOut.found_le (h : SinglesOut names change rows) :
    rows.countP (agrees names change.cond) ≤ 1 := by
  rcases h with h | ⟨h, -⟩
  · exact le_of_eq_of_le h (Nat.zero_le 1)
  · exact le_of_eq h

theorem SinglesOut.holds_iff (h : SinglesOut names change rows) (hplain : change.Plain names)
    (hnodup : names.Nodup) (hrow : row.length = names.length) (hin : row ∈ rows) :
    Sql.holds (sqlEntries change.cond) (Sql.under names (row.map sqlValue)) = some true ↔
    agrees names change.cond row = true := by
  rw [holds_sqlEntries hnodup hrow hplain.cond_nodup hplain.cond_names]
  refine and_iff_left_of_imp fun hagrees => ?_
  rcases h with h | ⟨-, h⟩
  · exact absurd hagrees (List.countP_eq_zero.1 h row hin)
  · exact h

end

end RowChange

namespace SheetPatcher

open RowChange

variable {p : SheetPatcher} {names : List String}

/-! ## What is kept -/

theorem Standing.follows (h : Standing p names) : ∃ z, Follows names false p z := by
  obtain ⟨z, harr, hcursor⟩ : ∃ z : Zipper (List SheetCell), p.sheet.arr = z.items ∧
      p.rowCursor = TypedSheet.placeOf z.before z.after := by
    rcases h.poised.cursor with hend | ⟨hpos, hlt⟩
    · exact ⟨Zipper.atEnd p.sheet.arr, (Zipper.items_atEnd _).symm, hend⟩
    · obtain ⟨k, hk⟩ := Int.eq_ofNat_of_zero_le hpos
      have hk' : k < p.sheet.arr.length := by
        rw [hk] at hlt
        exact Int.ofNat_lt.1 hlt
      refine ⟨⟨p.sheet.arr.take k, p.sheet.arr.drop k⟩, (List.take_append_drop k _).symm, ?_⟩
      unfold TypedSheet.placeOf
      rw [if_neg (by rw [List.drop_eq_nil_iff]; omega), List.length_take,
        Nat.min_eq_left (Nat.le_of_lt hk'), hk]
  exact ⟨z, h.knows, h.usable, h.poised.active, h.poised.no_synonyms.2, harr, h.poised.width,
    by rw [← harr]; exact h.poised.rect, hcursor, h.poised.unmarked, h.poised.schema, h.poised.header⟩

theorem Follows.standing {z : Zipper (List SheetCell)} (h : Follows names false p z)
    (hs : p.syn2name = []) : Standing p names := by
  refine ⟨⟨h.columns, ⟨hs, h.no_synonyms⟩,
    h.width, by rw [h.arr]; exact h.rect, ?_, h.unmarked, h.schema, h.header⟩, h.usable, h.knows⟩
  unfold CursorOk TypedSheet.height
  rw [h.cursor, h.arr]
  unfold TypedSheet.placeOf Zipper.items
  split
  · exact Or.inl rfl
  · next hafter =>
    have hpos : 0 < z.after.length := List.length_pos_iff.2 hafter
    rw [List.length_append]
    exact Or.inr ⟨Int.natCast_nonneg _, by omega⟩

theorem Standing.declare (h : Standing p names) : ∃ q, p.declareNames names = some q ∧
    Standing q names ∧ q.sheet = p.sheet := by
  refine ⟨_, declareNames_same h.poised.active h.poised.width,
    ⟨⟨h.poised.active, h.poised.no_synonyms, h.poised.width,
    h.poised.rect, h.poised.cursor, h.poised.unmarked, h.poised.schema, h.poised.header⟩,
      h.usable, ?_⟩, rfl⟩
  have hknows := updateCols_knows h.knows.nodup h.usable h.poised.active h.poised.no_synonyms.2
  exact ⟨hknows.nodup, hknows.found, hknows.others⟩

theorem Standing.settle (h : Standing p names) (change : RowChange) :
    Standing (p.settle change) names := by
  have hcursor := cursorOk_settle h.poised.cursor change
  have hmarks : Unmarked (p.settle change).activeRow ∧ (p.settle change).syn2name = p.syn2name ∧
      (p.settle change).name2syn = p.name2syn ∧ (p.settle change).name2col = p.name2col ∧
      (p.settle change).schema = p.schema ∧ (p.settle change).assumeHeader = p.assumeHeader := by
    unfold SheetPatcher.settle
    simp only
    split <;> split <;>
      exact ⟨by first | exact h.poised.unmarked | exact h.poised.unmarked.resize _ _, rfl, rfl, rfl, rfl, rfl⟩
  obtain ⟨hunmarked, hsyn, hsyn', hcol, hschema, hheader⟩ := hmarks
  refine ⟨⟨?_, ⟨hsyn.trans h.poised.no_synonyms.1, hsyn'.trans h.poised.no_synonyms.2⟩, ?_, ?_,
    hcursor, hunmarked, hschema.trans h.poised.schema, hheader.trans h.poised.header⟩, h.usable, ?_⟩
  · rw [activeCol_settle]
    exact h.poised.active
  · rw [sheet_settle]
    exact h.poised.width
  · rw [sheet_settle]
    exact h.poised.rect
  · exact ⟨h.knows.nodup, by rw [hcol]; exact h.knows.found, by rw [hcol]; exact h.knows.others⟩

theorem hasTop_settle {change : RowChange} (h : p.HasTop) : (p.settle change).HasTop := by
  unfold SheetPatcher.settle
  simp only
  split <;> split <;> exact h

/-- Going to the top changes nothing but the place. -/
theorem Standing.top (h : Standing p names) (htop : p.HasTop) (i : Int) :
    ∃ r, p.contextChange true i = some r ∧ Standing r.1 names ∧ r.1.sheet = p.sheet := by
  have hnone : SheetPatcher.checkHeader { p with rowCursor := 0 } ≠ none := fun hnone =>
    Bool.false_ne_true (h.poised.header.symm.trans (checkHeader_eq_none_iff.1 hnone).2.1)
  obtain ⟨q, hq⟩ := Option.ne_none_iff_exists'.1 hnone
  obtain ⟨c, rfl⟩ := checkHeader_eq hq
  have hr :
    p.contextChange true i = some ({ p with rowCursor := c, checkedHeader := true }, true) := by
    unfold SheetPatcher.contextChange
    rw [if_pos rfl, hq]
    rfl
  have hcursor := (cursorOk_contextChange h.poised.cursor hr).2 fun _ => htop
  exact ⟨_, hr,
    ⟨⟨h.poised.active, h.poised.no_synonyms, h.poised.width, h.poised.rect, hcursor,
      h.poised.unmarked,
    h.poised.schema, h.poised.header⟩, h.usable, ⟨h.knows.nodup, h.knows.found, h.knows.others⟩⟩,
      rfl⟩

/-! ## One change -/

theorem syn_insertChange {val : AssocMap Nat (String × SheetCell)} {r : SheetPatcher × Bool}
    (hr : p.insertChange val = some r) : r.1.syn2name = p.syn2name := by
  unfold SheetPatcher.insertChange at hr
  simp only at hr
  split at hr
  · cases hr
  · cases hr
    rfl

theorem syn_moveChange {val : AssocMap Nat (String × SheetCell)} {i : Int} {r : SheetPatcher × Bool}
    (hr : p.moveChange val i = some r) : r.1.syn2name = p.syn2name := by
  unfold SheetPatcher.moveChange at hr
  simp only at hr
  split at hr
  · cases hr
    rfl
  split at hr
  · cases hr
  · cases hr
    rfl

theorem syn_deleteChange (p : SheetPatcher) (i : Int) :
    (p.deleteChange i).1.syn2name = p.syn2name := by
  unfold SheetPatcher.deleteChange
  split <;> rfl

theorem syn_updateChange (p : SheetPatcher) (val : AssocMap Nat (String × SheetCell)) (i : Int) :
    (p.updateChange val i).1.syn2name = p.syn2name := by
  unfold SheetPatcher.updateChange
  split <;> rfl

theorem syn_contextChange {i : Int} {r : SheetPatcher × Bool}
    (hr : p.contextChange false i = some r) : r.1.syn2name = p.syn2name := by
  unfold SheetPatcher.contextChange at hr
  rw [if_neg Bool.false_ne_true] at hr
  split at hr
  · cases hr
    rfl
  split at hr
  · cases hr
    rfl
  · cases hr
    rfl

/-- The patcher that is ready for a change. -/
theorem Standing.ready (h : Standing p names) {change : RowChange} (hplain : change.Plain names) :
    ∃ q, (if p.declaredNames then some p else p.declareNames change.allNames) = some q ∧
    Standing q names ∧
      q.sheet = p.sheet ∧ (p.HasTop → q.HasTop) := by
  split
  · exact ⟨p, rfl, h, rfl, id⟩
  · rw [hplain.all_names]
    have heq := declareNames_same h.poised.active h.poised.width
    obtain ⟨q, hq, hstand, hsheet⟩ := h.declare
    rw [heq] at hq
    cases hq
    exact ⟨_, heq, hstand, hsheet, id⟩

/-- **A change of a row keeps the columns, and edits the rows.** -/
theorem Standing.changeRow (h : Standing p names) {change : RowChange} (hplain : change.Plain names)
    (htop : change.mode = .context → change.cond = [] → p.HasTop) :
    ∃ r z, p.changeRow change = some r ∧ z.items = p.sheet.arr ∧ Standing r.1 names ∧
    r.1.sheet.zero = p.sheet.zero ∧
      r.1.sheet.arr = ((change.edit names p.sheet.zero).apply z).items := by
  obtain ⟨q, hq, hstand, hsheet, hkeep⟩ := h.ready hplain
  have hready := hstand.settle change
  have hsyn := hready.poised.no_synonyms.1
  obtain ⟨z, hfol⟩ := hready.follows
  have harr : (q.settle change).sheet = p.sheet := (sheet_settle q change).trans hsheet
  have hitems : z.items = p.sheet.arr := by rw [← hfol.arr, harr]
  unfold SheetPatcher.changeRow
  rw [hq, Option.bind_some, hplain.unconflicted]
  have hzero : (q.settle change).sheet.zero = p.sheet.zero := by rw [harr]
  have hdone : ∀ {r : SheetPatcher × Bool} {z' : Zipper (List SheetCell)},
      Follows names false r.1 z' → r.1.syn2name = [] → Standing r.1 names ∧
      r.1.sheet.arr = z'.items :=
    fun hr hs => ⟨hr.standing hs, hr.arr⟩
  unfold RowChange.edit
  cases hm : change.mode with
  | insert =>
    obtain ⟨r, hr, hfol', hz⟩ := hfol.insertChange hplain.val_nodup
    obtain ⟨hs, ha⟩ := hdone hfol' ((syn_insertChange hr).trans hsyn)
    rw [hzero] at ha
    exact ⟨r, z, hr, hitems, hs, hz.trans hzero, ha⟩
  | delete =>
    obtain ⟨hfol', hz⟩ := hfol.deleteChange hplain.cond_nodup
    obtain ⟨hs, ha⟩ := hdone hfol' ((syn_deleteChange _ _).trans hsyn)
    exact ⟨_, z, rfl, hitems, hs, hz.trans hzero, ha⟩
  | update =>
    obtain ⟨hfol', hz⟩ := hfol.updateChange hplain.cond_nodup hplain.val_nodup
    obtain ⟨hs, ha⟩ := hdone hfol' ((syn_updateChange _ _ _).trans hsyn)
    exact ⟨_, z, rfl, hitems, hs, hz.trans hzero, ha⟩
  | move =>
    obtain ⟨r, hr, hfol', hz⟩ := hfol.moveChange hplain.cond_nodup hplain.val_nodup
    obtain ⟨hs, ha⟩ := hdone hfol' ((syn_moveChange hr).trans hsyn)
    exact ⟨r, z, hr, hitems, hs, hz.trans hzero, ha⟩
  | none =>
    refine ⟨_, z, rfl, hitems, hready, hzero, ?_⟩
    show _ = ((Edit.seek fun _ => false).apply z).items
    rw [Edit.items_seek]
    exact hfol.arr
  | context =>
    show ∃ r z, (q.settle change).contextChange ((q.settle change).byCol change.cond).isEmpty
      ((q.settle change).matchRow ((q.settle change).byCol change.cond)) = some r ∧ _
    simp only [hfol.knows.byCol_isEmpty hplain.cond_nodup hplain.cond_names]
    by_cases hb : change.cond = []
    · obtain ⟨r, hr, hs, hsame⟩ := hready.top (hasTop_settle (hkeep (htop hm hb)))
        ((q.settle change).matchRow ((q.settle change).byCol change.cond))
      rw [if_pos hb, decide_eq_true hb]
      refine ⟨r, z, hr, hitems, hs, ?_, ?_⟩
      · rw [hsame]
        exact hzero
      · rw [hsame]
        exact hfol.arr
    · obtain ⟨r, hr, hfol', hz⟩ := hfol.contextChange hplain.cond_nodup
      obtain ⟨hs, ha⟩ := hdone hfol' ((syn_contextChange hr).trans hsyn)
      rw [if_neg hb, decide_eq_false hb]
      exact ⟨r, z, hr, hitems, hs, hz.trans hzero, ha⟩

end SheetPatcher

end Coopy
