import Coopy.ColumnReplay
import Coopy.Lib.SqlTables
import Coopy.RowCursor
import Coopy.RowReplay
import Coopy.SheetMoves
import Coopy.SqlCompare

/-!
# Columns of a patched table

The sheet of a patcher is taken as a table of a database, under the names that the patcher has for
its columns.  What a change of the columns does to it, whatever the change says, is then one of
three things:

    a deletion takes out a column of the name that it gives, with its values      (Poised.deleteCol)
    an insertion puts in a column under the name that it gives                    (Poised.insertCol)
    a move has the columns in another order, each with its values                   (Poised.moveCol)
-/

namespace Coopy

open Lib

namespace SheetPatcher

/-- The names of the columns. -/
def names (p : SheetPatcher) : List String := p.activeCol.arr.headD []

/-- The sheet as a table of a database. -/
def table (p : SheetPatcher) : Sql.Table String String :=
  ⟨p.names, p.sheet.arr.map fun row => row.map RowChange.sqlValue⟩

/-- The sheet has a column under each of these names, and the cursor is at one of its rows or at the
end. -/
structure Poised (p : SheetPatcher) (names : List String) : Prop where
  active : p.activeCol.arr = [names] ∧ p.activeCol.w = names.length
  no_synonyms : p.syn2name = [] ∧ p.name2syn = []
  width : p.sheet.w = names.length
  rect : ∀ row ∈ p.sheet.arr, row.length = names.length
  cursor : p.CursorOk
  unmarked : Unmarked p.activeRow
  schema : p.schema = false
  -- no schema is looked for, and no name written into the cells
  header : p.assumeHeader = false

section
variable {p q : SheetPatcher} {names : List String}

theorem Poised.table_eq (h : Poised p names) :
    p.table = ⟨names, p.sheet.arr.map fun row => row.map RowChange.sqlValue⟩ := by
  unfold table SheetPatcher.names
  rw [h.active.1]
  rfl

theorem Poised.proper (h : Poised p names) (hnodup : names.Nodup) : p.table.Proper := by
  rw [h.table_eq]
  refine ⟨hnodup, fun row hrow => ?_⟩
  obtain ⟨cells, hcells, rfl⟩ := List.mem_map.1 hrow
  rw [List.length_map]
  exact h.rect cells hcells

theorem Poised.names_eq (h : Poised p names) : p.names = names := by
  unfold SheetPatcher.names
  rw [h.active.1]
  rfl

/-- The rows stay as many. -/
theorem Poised.cursor_map {T : Type} (h : Poised p names) (f : List SheetCell → T) :
    p.rowCursor = -1 ∨ (0 ≤ p.rowCursor ∧ p.rowCursor < ((p.sheet.arr.map f).length : Int)) := by
  rw [List.length_map]
  exact h.cursor

/-- The columns are entered under their names. -/
structure Standing (p : SheetPatcher) (names : List String) : Prop where
  poised : Poised p names
  usable : "---" ∉ names
  knows : Knows p names

theorem Poised.updateCols (h : Poised p names) (hq : p.updateCols = some q) :
    (names.Nodup → "---" ∉ names → Standing q names) ∧ q.table = p.table ∧
    q.sheet.zero = p.sheet.zero := by
  rw [updateCols_eq h.active h.width] at hq
  cases hq
  exact ⟨fun hnodup husable =>
    ⟨⟨h.active, h.no_synonyms, h.width, h.rect, h.cursor, h.unmarked, h.schema, h.header⟩, husable,
    updateCols_knows hnodup husable h.active h.no_synonyms.2⟩, rfl, rfl⟩

theorem Poised.untitled (h : Poised p names) : p.Untitled := fun _ hx => by
  rw [h.schema, h.header] at hx
  exact absurd hx (by decide)

/-- A column is found by its name. -/
theorem Poised.matchCol (h : Poised p names) {c : String} {i : Nat} (hi : p.matchCol c = some i) :
    names[i]? = some c := by
  unfold SheetPatcher.matchCol at hi
  rw [h.no_synonyms.1] at hi
  obtain ⟨hfound, hlt, -⟩ := List.find?_range_eq_some.1 hi
  have hlt : i < names.length := lt_of_lt_of_eq (List.mem_range.1 hlt) h.active.2
  have hcell : p.activeCol.cell i 0 = c := by
    simpa using of_decide_eq_true (Bool.and_eq_true_iff.1 hfound).1
  unfold TypedSheet.cell at hcell
  rw [h.active.1] at hcell
  rw [List.getElem?_eq_getElem hlt, ← List.getD_eq_getElem names p.activeCol.zero hlt]
  exact congrArg some hcell

theorem Poised.nextCol (h : Poised p names) {change : OrderChange} {toSheet base : Int}
    (hbase : p.nextCol change toSheet = some base) : base = -1 ∨ ∃ j : Nat, base = j ∧
    j < names.length := by
  unfold SheetPatcher.nextCol at hbase
  split at hbase
  · obtain ⟨before, -, hbase⟩ := Option.bind_eq_some_iff.1 hbase
    obtain ⟨j, hj, rfl⟩ := Option.map_eq_some_iff.1 hbase
    exact Or.inr ⟨j, rfl, (List.getElem?_eq_some_iff.1 (h.matchCol hj)).1⟩
  · exact Or.inl (Option.some.inj hbase).symm

/-! ## Deletions -/

theorem Poised.deleteCol (h : Poised p names) {change : OrderChange} {r : SheetPatcher × Bool}
    (hr : p.deleteCol change = some r) :
    ∃ c i, nameIn change.namesBefore (change.identityToIndex change.subject) = some c ∧
      names[i]? = some c ∧ (names.Nodup → "---" ∉ names → Standing r.1 (names.eraseIdx i)) ∧
      r.1.sheet.zero = p.sheet.zero ∧
      (1 < names.length →
        r.1.table = ⟨names.eraseIdx i, p.table.rows.map fun row => row.eraseIdx i⟩) := by
  unfold SheetPatcher.deleteCol at hr
  obtain ⟨c, hc, hr⟩ := Option.bind_eq_some_iff.1 hr
  obtain ⟨i, hi, hr⟩ := Option.bind_eq_some_iff.1 hr
  have hname := h.matchCol hi
  have hlt := (List.getElem?_eq_some_iff.1 hname).1
  have hdel : ∀ {T : Type} (s : TypedSheet T), s.w = names.length → s.deleteColumn (i : Int) =
      ({ s with arr := s.arr.map fun row => row.eraseIdx i, w := s.w - 1 }, true) := by
    intro T s hs
    unfold TypedSheet.deleteColumn
    rw [if_neg (by omega), Int.toNat_natCast]
  simp only [hdel p.sheet h.width, hdel p.activeCol h.active.2] at hr
  have hlen : (names.eraseIdx i).length = names.length - 1 := List.length_eraseIdx_of_lt hlt
  have hposed :
    ∀ (sheet : TypedSheet SheetCell) (status : TypedSheet String) (cursor : Int), sheet.w =
    names.length - 1 →
      (∀ row ∈ sheet.arr, row.length = names.length - 1) →
      (cursor = -1 ∨ (0 ≤ cursor ∧ cursor < sheet.height)) →
      Poised
        { p with
          sheet := sheet
          activeCol :=
            { p.activeCol with
              arr := p.activeCol.arr.map fun row => row.eraseIdx i
              w := p.activeCol.w - 1 }
          statusCol := status
          rowCursor := cursor } (names.eraseIdx i) := by
    intro sheet status cursor hw hrect hcursor
    refine ⟨⟨?_, ?_⟩, h.no_synonyms, hw.trans hlen.symm, fun row hrow =>
      (hrect row hrow).trans hlen.symm, hcursor, h.unmarked, h.schema, h.header⟩
    · show p.activeCol.arr.map _ = _
      rw [h.active.1]
      rfl
    · show p.activeCol.w - 1 = _
      rw [h.active.2, hlen]
  have hrect : ∀ row ∈ p.sheet.arr.map fun row => row.eraseIdx i,
    row.length = names.length - 1 := by
    intro row hrow
    obtain ⟨old, hold, rfl⟩ := List.mem_map.1 hrow
    rw [List.length_eraseIdx_of_lt (by rw [h.rect old hold]; exact hlt), h.rect old hold]
  have hstand : ∀ {q : SheetPatcher},
      ((names.eraseIdx i).Nodup → "---" ∉ names.eraseIdx i → Standing q (names.eraseIdx i)) →
      names.Nodup → "---" ∉ names → Standing q (names.eraseIdx i) := fun hq hnodup husable =>
    hq (hnodup.eraseIdx i) fun hin => husable (List.mem_of_mem_eraseIdx hin)
  obtain ⟨q, hq, rfl⟩ := Option.map_eq_some_iff.1 hr
  by_cases hgone : p.sheet.w - 1 = 0
  · simp only [TypedSheet.width, hgone, decide_true, if_true] at hq
    obtain ⟨hq', -, hzero⟩ :=
      (hposed _ (p.statusCol.deleteColumn i).1 _ (by show 0 = _; rw [← h.width, hgone])
      (fun row hrow => by cases hrow) (Or.inl rfl)).updateCols hq
    exact ⟨c, i, hc, hname, hstand hq', hzero, fun hmore => by rw [h.width] at hgone; omega⟩
  · simp only [TypedSheet.width, hgone, decide_false, Bool.false_eq_true, if_false] at hq
    have hposed' :=
      hposed { p.sheet with arr := p.sheet.arr.map fun row => row.eraseIdx i, w := p.sheet.w - 1 }
      (p.statusCol.deleteColumn i).1 p.rowCursor (by rw [h.width]) hrect (h.cursor_map _)
    obtain ⟨hq', htable, hzero⟩ := hposed'.updateCols hq
    refine ⟨c, i, hc, hname, hstand hq', hzero, fun _ => ?_⟩
    rw [htable, hposed'.table_eq, h.table_eq]
    refine congrArg (Sql.Table.mk _) ?_
    show (p.sheet.arr.map _).map _ = (p.sheet.arr.map _).map _
    rw [List.map_map, List.map_map]
    exact List.map_congr_left fun row _ => (List.eraseIdx_map _ _ _).symm

/-! ## Insertions -/

/-- Where an insertion before `base` puts a value. -/
theorem insertBefore_place {T : Type} {n : Nat} {base : Int} (hbase : base = -1 ∨
    ∃ j : Nat, base = j ∧ j < n) : ∃ k ≤ n, (if base ≥ 0 then base else (n : Int)) = (k : Int) ∧
      ∀ (row : List T) (c : T), row.length = n →
      TypedSheet.insertBefore row base c = row.insertIdx k c := by
  rcases hbase with rfl | ⟨j, rfl, hj⟩
  · refine ⟨n, Nat.le_refl n, if_neg (by omega), fun row c hrow => ?_⟩
    unfold TypedSheet.insertBefore
    rw [if_neg (by omega), ← hrow, List.insertIdx_length_self]
  · refine ⟨j, by omega, if_pos (by omega), fun row c _ => ?_⟩
    unfold TypedSheet.insertBefore
    rw [if_pos (by omega), Int.toNat_natCast]

theorem Poised.insertCol (h : Poised p names) {change : OrderChange} {r : SheetPatcher × Bool}
    (hr : p.insertCol change = some r) :
    ∃ c k, nameIn change.namesAfter (change.identityToIndexAfter change.subject) = some c ∧
      k ≤ names.length ∧
      (names.Nodup → "---" ∉ names → c ∉ names → c ≠ "---" → Standing r.1 (names.insertIdx k c)) ∧
      r.1.sheet.zero = p.sheet.zero ∧
      r.1.table = ⟨names.insertIdx k c, p.table.rows.map fun row =>
        row.insertIdx k (RowChange.sqlValue p.sheet.zero)⟩ := by
  unfold SheetPatcher.insertCol at hr
  simp only at hr
  obtain ⟨c, hc, hr⟩ := Option.bind_eq_some_iff.1 hr
  obtain ⟨base, hbase, hr⟩ := Option.bind_eq_some_iff.1 hr
  have hplace := h.nextCol hbase
  have hlt : ¬ base ≥ (names.length : Int) := by
    rcases hplace with rfl | ⟨j, rfl, hj⟩
    · omega
    · omega
  have hins : ∀ {T : Type} (s : TypedSheet T), s.w = names.length → s.insertColumn base =
      ({ s with arr := s.arr.map fun row => TypedSheet.insertBefore row base s.zero, w := s.w + 1 },
        if base ≥ 0 then base else (names.length : Int)) := by
    intro T s hs
    unfold TypedSheet.insertColumn
    rw [hs, if_neg hlt]
  obtain ⟨k, hk, hat, hrow⟩ := @insertBefore_place SheetCell names.length base hplace
  obtain ⟨k', -, hat', hrow'⟩ := @insertBefore_place String names.length base hplace
  obtain rfl : k = k' := by omega
  simp only [hins p.sheet h.width, hins p.activeCol h.active.2, hat, Int.toNat_natCast,
    h.untitled.postApplyInfo_if, Option.bind_some] at hr
  have hlen : (names.insertIdx k c).length = names.length + 1 :=
    List.length_insertIdx_of_le_length hk _
  have hrows : p.sheet.arr.map (fun row => TypedSheet.insertBefore row base p.sheet.zero) =
      p.sheet.arr.map fun row => row.insertIdx k p.sheet.zero :=
    List.map_congr_left fun row hin => hrow row _ (h.rect row hin)
  obtain ⟨q, hq, rfl⟩ := Option.map_eq_some_iff.1 hr
  have hposed : Poised
      { p with
        sheet :=
          { p.sheet with
            arr := p.sheet.arr.map fun row => TypedSheet.insertBefore row base p.sheet.zero
            w := p.sheet.w + 1 }
        activeCol := TypedSheet.setCell
          { p.activeCol with
            arr := p.activeCol.arr.map fun row => TypedSheet.insertBefore row base p.activeCol.zero
            w := p.activeCol.w + 1 } k 0 c
        statusCol := (p.statusCol.insertColumn base).1.setCell k 0 "+++" }
          (names.insertIdx k c) := by
    refine ⟨⟨?_, ?_⟩, h.no_synonyms, ?_, fun row hin => ?_, h.cursor_map _, h.unmarked,
      h.schema, h.header⟩
    · show (p.activeCol.arr.map _).modify 0 _ = _
      rw [h.active.1]
      show [(TypedSheet.insertBefore names base _).set k c] = _
      rw [hrow' names _ rfl, TypedSheet.set_insertIdx_self]
    · show p.activeCol.w + 1 = _
      rw [h.active.2, hlen]
    · show p.sheet.w + 1 = _
      rw [h.width, hlen]
    · change row ∈ p.sheet.arr.map _ at hin
      rw [hrows] at hin
      obtain ⟨old, hold, rfl⟩ := List.mem_map.1 hin
      rw [List.length_insertIdx_of_le_length (by rw [h.rect old hold]; exact hk), h.rect old hold,
        hlen]
  obtain ⟨hq', htable, hzero⟩ := hposed.updateCols hq
  refine ⟨c, k, hc, hk, fun hnodup husable hfresh hc' => hq' ?_ ?_, hzero, ?_⟩
  · exact (List.perm_insertIdx c names hk).nodup_iff.2 (List.nodup_cons.2 ⟨hfresh, hnodup⟩)
  · rw [(List.perm_insertIdx c names hk).mem_iff, List.mem_cons]
    rintro (he | hin)
    · exact hc' he.symm
    · exact husable hin
  rw [htable, hposed.table_eq, h.table_eq]
  refine congrArg (Sql.Table.mk _) ?_
  show (p.sheet.arr.map _).map _ = (p.sheet.arr.map _).map _
  rw [hrows, List.map_map, List.map_map]
  exact List.map_congr_left fun row _ => List.map_insertIdx ..

/-! ## Moves -/

/-- A row taken in another order. -/
theorem map_getD_perm {T : Type} {n : Nat} {order : List Nat} {row : List T} (zero : T)
    (h : order.Perm (List.range n))
    (hrow : row.length = n) : (order.map fun j => row.getD j zero).Perm row := by
  refine (h.map _).trans (List.Perm.of_eq (List.ext_getElem (by simp [hrow]) fun i h1 h2 => ?_))
  rw [List.getElem_map, List.getElem_range, List.getD_eq_getElem _ _ h2]

theorem Poised.moveCol (h : Poised p names) {change : OrderChange} {r : SheetPatcher × Bool}
    (hr : p.moveCol change = some r) : ∃ order : List Nat, order.Perm (List.range names.length) ∧
      (names.Nodup → "---" ∉ names →
        Standing r.1 (order.map fun j => names.getD j p.activeCol.zero)) ∧
      r.1.sheet.zero = p.sheet.zero ∧
      r.1.table = ⟨order.map fun j => names.getD j p.activeCol.zero,
        p.table.rows.map fun row => order.map fun j =>
          row.getD j (RowChange.sqlValue p.sheet.zero)⟩ := by
  unfold SheetPatcher.moveCol at hr
  obtain ⟨c, -, hr⟩ := Option.bind_eq_some_iff.1 hr
  obtain ⟨src, hsrc, hr⟩ := Option.bind_eq_some_iff.1 hr
  obtain ⟨base, hbase, hr⟩ := Option.bind_eq_some_iff.1 hr
  have hs : src < names.length := (List.getElem?_eq_some_iff.1 (h.matchCol hsrc)).1
  obtain ⟨hb, hb'⟩ : -1 ≤ base ∧ base < (names.length : Int) := by
    rcases h.nextCol hbase with rfl | ⟨j, rfl, hj⟩
    · omega
    · omega
  have hcol :=
    TypedSheet.moveColumn_eq (s := p.activeCol) (by rw [h.active.2]; exact hs) hb
      (by rw [h.active.2]; exact hb')
    fun row hin => by
      rw [h.active.1] at hin
      rw [List.mem_singleton.1 hin, h.active.2]
  have hsheet :=
    TypedSheet.moveColumn_eq (s := p.sheet) (by rw [h.width]; exact hs) hb
      (by rw [h.width]; exact hb')
    fun row hin => (h.rect row hin).trans h.width.symm
  rw [h.active.2] at hcol
  rw [h.width] at hsheet
  have hlen :
    ∀ {T : Type} (f : Nat → T), ((TypedSheet.moveOrder names.length src base).map f).length =
    names.length := by
    intro T f
    rw [List.length_map, (TypedSheet.moveOrder_perm hs hb').length_eq, List.length_range]
  unfold SheetPatcher.moveColumn at hr
  simp only [hcol, hsheet] at hr
  obtain ⟨q, hq, rfl⟩ := Option.map_eq_some_iff.1 hr
  have hposed : Poised
      { p with
        sheet := { p.sheet with
          arr := p.sheet.arr.map fun row =>
            (TypedSheet.moveOrder names.length src base).map fun j => row.getD j p.sheet.zero
          w := names.length }
        activeCol := { p.activeCol with
          arr := p.activeCol.arr.map fun row =>
            (TypedSheet.moveOrder names.length src base).map fun j => row.getD j p.activeCol.zero
          w := names.length }
        statusCol := (p.statusCol.moveColumn src base).1 }
      ((TypedSheet.moveOrder names.length src base).map fun j =>
        names.getD j p.activeCol.zero) := by
    refine ⟨⟨?_, ?_⟩, h.no_synonyms, ?_, fun row hin => ?_, h.cursor_map _, h.unmarked,
      h.schema, h.header⟩
    · show p.activeCol.arr.map _ = _
      rw [h.active.1]
      rfl
    · exact (hlen _).symm
    · exact (hlen _).symm
    · obtain ⟨old, -, rfl⟩ := List.mem_map.1 hin
      rw [hlen, hlen]
  have hperm :=
    map_getD_perm p.activeCol.zero (TypedSheet.moveOrder_perm hs hb')
    (show names.length = _ from rfl)
  obtain ⟨hq', htable, hzero⟩ := hposed.updateCols hq
  refine ⟨_, TypedSheet.moveOrder_perm hs hb', fun hnodup husable =>
    hq' (hperm.nodup_iff.2 hnodup) (mt hperm.mem_iff.1 husable), hzero, ?_⟩
  rw [htable, hposed.table_eq, h.table_eq]
  refine congrArg (Sql.Table.mk _) ?_
  show (p.sheet.arr.map _).map _ = (p.sheet.arr.map _).map _
  rw [List.map_map, List.map_map]
  refine List.map_congr_left fun row _ => ?_
  simp only [Function.comp_apply, List.map_map]
  exact List.map_congr_left fun j _ => (List.getD_map ..).symm

end

end SheetPatcher

end Coopy
