import Coopy.ColumnPlacement
import Coopy.SheetPatcher

/-!
# Replaying a column script

The patcher finds columns by their names and places by the names that follow.  As long
as the names are distinct it stays in step with the simulated list of columns, for
each kind of change (`deleteCol_shows`, `moveCol_shows`, `insertCol_shows`).
-/

namespace Coopy

open Lib

namespace TypedSheet

variable {T : Type}

/-- An insertion before the column that now stands at `k`, or at the end. -/
theorem insertBefore_eq (row : List T) {k : Nat} (hk : k ≤ row.length) (c : T) :
    insertBefore row (if k < row.length then (k : Int) else -1) c = row.insertIdx k c := by
  unfold insertBefore
  split
  · next h => rw [if_pos (by omega), Int.toNat_natCast]
  · next h =>
    obtain rfl : k = row.length := by omega
    rw [if_neg (by omega), List.insertIdx_length_self]

/-- The place before which a column must go to end up at `k`, in a row of `n`. -/
def baseFor (n src k : Nat) : Int := if k + 1 < n then if k < src then (k : Int) else k + 1 else -1

theorem moveInRow_eq (zero : T) {row : List T} {src k : Nat} (hs : src < row.length)
    (hk : k < row.length) :
    moveInRow zero row src (baseFor row.length src k) = (row.eraseIdx src).insertIdx k
      (row.getD src zero) := by
  unfold moveInRow baseFor insertBefore
  by_cases h1 : k + 1 < row.length
  · by_cases h2 : k < src
    · simp only [h1, h2, if_true]
      rw [if_pos (by omega), if_pos (by omega), Int.toNat_natCast,
        List.insertIdx_eraseIdx_of_le hs (by omega)]
    · simp only [h1, h2, if_true, if_false]
      rw [if_neg (show ¬((k : Int) + 1 ≤ src ∧ (k : Int) + 1 ≠ -1) by omega),
        if_pos (show (k : Int) + 1 ≥ 0 by omega),
        show ((k : Int) + 1).toNat = k + 1 by omega, List.insertIdx_eraseIdx_of_ge hs (by omega)]
  · obtain ⟨n, hn⟩ : ∃ n, row.length = n + 1 := ⟨row.length - 1, by omega⟩
    obtain rfl : k = n := by omega
    simp only [h1, if_false]
    rw [if_neg (by omega), if_neg (by omega), List.insertIdx_eraseIdx_of_ge hs (by omega), ← hn,
      List.insertIdx_length_self]

theorem baseFor_lt {n k : Nat} (hk : k < n) (src : Nat) : baseFor n src k < n := by
  unfold baseFor
  split
  · split <;> omega
  · omega

theorem set_insertIdx_self (x c : T) :
    ∀ (k : Nat) (row : List T), (row.insertIdx k x).set k c = row.insertIdx k c
  | 0, row => by simp
  | k + 1, [] => by simp
  | k + 1, y :: row => by
    rw [List.insertIdx_succ_cons, List.insertIdx_succ_cons, List.set_cons_succ,
      set_insertIdx_self x c k row]

theorem idxOf_insertIdx {row : List Int} {a : Int} (ha : a ∉ row) {k : Nat} (hk : k ≤ row.length) :
    (row.insertIdx k a).idxOf a = k := by
  rw [Merger.insertIdx_eq_take_drop a k row hk, List.idxOf_append_of_notMem fun h =>
    ha (List.mem_of_mem_take h),
    List.idxOf_cons_self, List.length_take, Nat.min_eq_left hk, Nat.add_zero]

end TypedSheet

namespace SheetPatcher

/-- The cell of column `id` in a row of the original sheet; new columns hold `zero`. -/
def cellOf (zero : SheetCell) (row : List SheetCell) (id : Int) : SheetCell :=
  if id < 0 then zero else row.getD id.toNat zero

theorem changeColumns_append {xs ys : List OrderChange} {p p' : SheetPatcher}
    (h : changeColumns xs p = some p') : changeColumns (xs ++ ys) p = changeColumns ys p' := by
  induction xs generalizing p with
  | nil =>
    cases h
    rfl
  | cons x xs ih =>
    unfold changeColumns at h
    obtain ⟨r, hr, hrest⟩ := Option.bind_eq_some_iff.mp h
    rw [List.cons_append, changeColumns, hr]
    exact ih hrest

/-- No name of a column is written into the cells of the sheet. -/
def Untitled (p : SheetPatcher) : Prop :=
  p.external = false → p.schema = true ∨ p.assumeHeader = true → ∀ sheet, p.headerHeight sheet = 0

section
variable {p : SheetPatcher} (h : p.Untitled)

include h

theorem Untitled.titles (name : String) : p.titles name = 0 := by
  unfold SheetPatcher.titles
  split
  · next hx => exact h hx.1 (hx.2.imp_right And.left) _
  · rfl

theorem Untitled.postApplyInfo (sheet : TypedSheet SheetCell) (idx : Nat) (name : String) :
    SheetPatcher.postApplyInfo sheet (p.titles name) idx name = some sheet := by
  rw [h.titles]
  rfl

theorem Untitled.postApplyInfo_if (sheet : TypedSheet SheetCell) (c : Prop) [Decidable c]
    (idx : Nat) (name : String) :
    SheetPatcher.postApplyInfo sheet (if c then 0 else p.titles name) idx name = some sheet := by
  rw [h.titles, ite_self]
  rfl

end

/-- The patcher shows the columns `ids` of a sheet with these `rows`, under `names`. -/
structure Shows (rows : List (List SheetCell)) (p : SheetPatcher) (ids : List Int)
    (names : List String) : Prop where
  ids_nodup : ids.Nodup
  names_nodup : names.Nodup
  parallel : names.length = ids.length
  active : p.activeCol.arr = [names] ∧ p.activeCol.w = names.length
  status : (∃ st, p.statusCol.arr = [st] ∧ st.length = names.length ∧ ∀ x ∈ st, x ≠ "---") ∧
    p.statusCol.w = names.length
  no_synonyms : p.syn2name = [] ∧ p.name2syn = []
  sheet_w : p.sheet.w = ids.length
  untitled : p.Untitled
  -- when the last column goes the rows go too
  sheet_arr : ∃ base, (base = rows ∨ ∀ id ∈ ids, id < 0) ∧
    p.sheet.arr = base.map fun row => ids.map (cellOf p.sheet.zero row)

namespace Shows

variable {rows : List (List SheetCell)} {p : SheetPatcher} {ids : List Int} {names : List String}

theorem matchCol (h : Shows rows p ids names) {i : Nat} (hi : i < names.length) :
    p.matchCol names[i] = some i := by
  obtain ⟨⟨st, hst, hlen, hok⟩, hw⟩ := h.status
  have hname : ∀ j, p.activeCol.cell j 0 = names.getD j p.activeCol.zero := by
    intro j
    unfold TypedSheet.cell
    rw [h.active.1]
    rfl
  have hstatus : ∀ j < names.length, p.statusCol.cell j 0 ≠ "---" := by
    intro j hj
    unfold TypedSheet.cell
    rw [hst]
    show st.getD j _ ≠ _
    rw [List.getD_eq_getElem _ _ (by omega)]
    exact hok _ (List.getElem_mem _)
  unfold SheetPatcher.matchCol
  rw [h.no_synonyms.1]
  show (List.range p.activeCol.w).find? _ = _
  rw [h.active.2, List.find?_range_eq_some]
  refine ⟨?_, List.mem_range.mpr hi, fun j hj => ?_⟩
  · simp only [AssocMap.get?_nil, Option.getD_none, Bool.and_eq_true, decide_eq_true_eq]
    refine ⟨?_, hstatus i hi⟩
    rw [hname, List.getD_eq_getElem _ _ hi]
    exact decide_eq_true rfl
  · simp only [AssocMap.get?_nil, Option.getD_none, Bool.not_eq_true', Bool.and_eq_false_iff,
      decide_eq_false_iff_not]
    left
    rw [hname, List.getD_eq_getElem _ _ (by omega)]
    refine decide_eq_false fun he => ?_
    have := h.names_nodup.getElem_inj_iff.mp he
    omega

theorem with_name2col (h : Shows rows p ids names) (m : AssocMap String Nat) :
    Shows rows { p with name2col := m } ids names :=
  ⟨h.ids_nodup, h.names_nodup, h.parallel, h.active, h.status, h.no_synonyms, h.sheet_w,
    h.untitled, h.sheet_arr⟩

theorem updateCols (h : Shows rows p ids names) : ∃ p', p.updateCols = some p' ∧
    Shows rows p' ids names := by
  unfold SheetPatcher.updateCols
  have hw : ¬ p.activeCol.width ≠ p.sheet.width := by
    show ¬ p.activeCol.w ≠ p.sheet.w
    rw [h.active.2, h.sheet_w, h.parallel]
    exact fun hne => hne rfl
  rw [if_neg hw]
  exact ⟨_, rfl, h.with_name2col _⟩

/-- The place of a column by the name that is to follow it. -/
theorem nextCol (h : Shows rows p ids names) {change : OrderChange} {k j : Nat}
    (hk : k < change.indicesAfter.length)
    (hj : k + 1 < change.indicesAfter.length → ∃ hlt : j < names.length, change.namesAfter[k + 1]? =
      some names[j]) :
    p.nextCol change k = some (if k + 1 < change.indicesAfter.length then (j : Int) else -1) := by
  unfold SheetPatcher.nextCol
  by_cases hend : k + 1 < change.indicesAfter.length
  · obtain ⟨hlt, hname⟩ := hj hend
    have hnext : nameIn change.namesAfter ((k : Int) + 1) = some names[j] := by
      unfold nameIn
      rw [if_neg (by omega), show ((k : Int) + 1).toNat = k + 1 by omega, hname]
    rw [if_pos (by omega), if_pos hend, hnext, Option.bind_some, h.matchCol hlt]
    rfl
  · rw [if_neg (by omega), if_neg hend]

theorem nameIn_natCast (names : List String) {i : Nat} (hi : i < names.length) :
    nameIn names (i : Int) = some names[i] := by
  unfold nameIn
  rw [if_neg (by omega), Int.toNat_natCast, List.getElem?_eq_getElem hi]

/-! ## Deletions -/

theorem deleteCol (h : Shows rows p ids names) (change : OrderChange)
    (hmode : change.mode = .delete)
    (hids : change.indicesBefore = ids) (hnames : change.namesBefore = names)
    (ha : change.subject ∈ ids) : ∃ r, p.changeColumn change = some r ∧
      Shows rows r.1 (ids.eraseIdx (ids.idxOf change.subject))
      (names.eraseIdx (ids.idxOf change.subject)) := by
  obtain ⟨⟨st, hst, hlen, hok⟩, hw⟩ := h.status
  obtain ⟨base, hbase, harr⟩ := h.sheet_arr
  have hi : ids.idxOf change.subject < ids.length := List.idxOf_lt_length_of_mem ha
  have hin : ids.idxOf change.subject < names.length := by rw [h.parallel]; exact hi
  have hto : change.identityToIndex change.subject = (ids.idxOf change.subject : Int) := by
    unfold OrderChange.identityToIndex OrderChange.indexIn
    rw [hids, if_pos ha]
  generalize ids.idxOf change.subject = i at hi hin hto ⊢
  unfold changeColumn SheetPatcher.deleteCol
  rw [hmode]
  simp only [hto, hnames, nameIn_natCast names hin, Option.bind_some, h.matchCol hin]
  have hdel : ∀ {T : Type} (s : TypedSheet T), s.w = ids.length → s.deleteColumn (i : Int) =
      ({ s with arr := s.arr.map fun row => row.eraseIdx i, w := s.w - 1 }, true) := by
    intro T s hs
    unfold TypedSheet.deleteColumn
    rw [if_neg (by omega), Int.toNat_natCast]
  rw [hdel p.sheet h.sheet_w, hdel p.activeCol (h.active.2.trans h.parallel),
    hdel p.statusCol (hw.trans h.parallel)]
  simp only
  have hlen' : (ids.eraseIdx i).length = ids.length - 1 := List.length_eraseIdx_of_lt hi
  have hnlen : (names.eraseIdx i).length = names.length - 1 := List.length_eraseIdx_of_lt hin
  have hshow : ∀ (sheet : TypedSheet SheetCell) (cursor : Int), sheet.w = ids.length - 1 →
      (∃ base, (base = rows ∨ ∀ id ∈ ids.eraseIdx i, id < 0) ∧
        sheet.arr = base.map fun row => (ids.eraseIdx i).map (cellOf sheet.zero row)) →
      Shows rows
        { p with
          sheet := sheet
          activeCol :=
            { p.activeCol with
              arr := p.activeCol.arr.map fun row => row.eraseIdx i
              w := p.activeCol.w - 1 }
          statusCol :=
            { p.statusCol with
              arr := p.statusCol.arr.map fun row => row.eraseIdx i
              w := p.statusCol.w - 1 }
          rowCursor := cursor } (ids.eraseIdx i) (names.eraseIdx i) := by
    intro sheet cursor hsw hsa
    refine ⟨h.ids_nodup.eraseIdx i, h.names_nodup.eraseIdx i, ?_, ⟨?_, ?_⟩,
      ⟨⟨st.eraseIdx i, ?_, ?_, ?_⟩, ?_⟩, h.no_synonyms, ?_, h.untitled, hsa⟩
    · have := h.parallel
      omega
    · show p.activeCol.arr.map _ = _
      rw [h.active.1]
      rfl
    · show p.activeCol.w - 1 = _
      rw [h.active.2, hnlen]
    · show p.statusCol.arr.map _ = _
      rw [hst]
      rfl
    · rw [List.length_eraseIdx_of_lt (by omega)]
      omega
    · exact fun x hx => hok x (List.mem_of_mem_eraseIdx hx)
    · show p.statusCol.w - 1 = _
      rw [hw, hnlen]
    · show sheet.w = _
      rw [hsw, hlen']
  by_cases hgone : ids.length = 1
  · have hz : p.sheet.w - 1 = 0 := by rw [h.sheet_w]; omega
    have hnil : ids.eraseIdx i = [] := List.eq_nil_of_length_eq_zero (by omega)
    simp only [TypedSheet.width, hz, decide_true, if_true]
    obtain ⟨p', hp', hs'⟩ :=
      (hshow (TypedSheet.deleteData ⟨p.sheet.arr.map fun row => row.eraseIdx i, 0, p.sheet.zero⟩)
        (-1)
      (by show 0 = _; omega)
      ⟨[], Or.inr (by rw [hnil]; exact fun id hid => absurd hid List.not_mem_nil), rfl⟩).updateCols
    exact ⟨_, congrArg (Option.map fun p => (p, true)) hp', hs'⟩
  · have hz : p.sheet.w - 1 ≠ 0 := by rw [h.sheet_w]; omega
    simp only [TypedSheet.width, hz, decide_false, Bool.false_eq_true, if_false]
    obtain ⟨p', hp', hs'⟩ :=
      (hshow { p.sheet with arr := p.sheet.arr.map fun row => row.eraseIdx i, w := p.sheet.w - 1 }
      p.rowCursor (by rw [h.sheet_w])
      ⟨base, hbase.imp id fun hneg id hid => hneg id (List.mem_of_mem_eraseIdx hid), by
        show p.sheet.arr.map _ = _
        rw [harr, List.map_map]
        exact List.map_congr_left fun row _ => (List.eraseIdx_map _ _ _)⟩).updateCols
    exact ⟨_, congrArg (Option.map fun p => (p, true)) hp', hs'⟩

/-! ## Insertions -/

theorem insertCol (h : Shows rows p ids names) (change : OrderChange) {k : Nat} {name : String}
    (hmode : change.mode = .insert) (hids : change.indicesAfter = ids.insertIdx k change.subject)
    (hnames : change.namesAfter = names.insertIdx k name) (hk : k ≤ ids.length)
    (hnew : change.subject ∉ ids) (hneg : change.subject < 0) (hfree : name ∉ names) :
    ∃ r, p.changeColumn change = some r ∧
      Shows rows r.1 (ids.insertIdx k change.subject) (names.insertIdx k name) := by
  obtain ⟨⟨st, hst, hlen, hok⟩, hw⟩ := h.status
  obtain ⟨base, hbase, harr⟩ := h.sheet_arr
  have hpar := h.parallel
  have hkn : k ≤ names.length := by omega
  have hilen : (ids.insertIdx k change.subject).length = ids.length + 1 :=
    List.length_insertIdx_of_le_length hk _
  have hnlen : (names.insertIdx k name).length = names.length + 1 :=
    List.length_insertIdx_of_le_length hkn _
  have hto : change.identityToIndexAfter change.subject = (k : Int) := by
    unfold OrderChange.identityToIndexAfter OrderChange.indexIn
    rw [hids, if_pos ((List.mem_insertIdx hk).mpr (Or.inl rfl)), TypedSheet.idxOf_insertIdx hnew hk]
  have hmover : nameIn change.namesAfter (k : Int) = some name := by
    rw [hnames, nameIn_natCast _ (by omega), List.getElem_insertIdx_self]
  have hnext : p.nextCol change k = some (if k < ids.length then (k : Int) else -1) := by
    rw [h.nextCol (j := k) (by rw [hids]; omega)]
    · rw [hids, hilen]
      simp only [Nat.add_lt_add_iff_right]
    · intro hend
      rw [hids, hilen] at hend
      refine ⟨by omega, ?_⟩
      rw [hnames, List.getElem?_insertIdx_of_gt (by omega), Nat.add_sub_cancel,
        List.getElem?_eq_getElem]
  unfold changeColumn SheetPatcher.insertCol
  rw [hmode]
  simp only [hto, hmover, hnext, Option.bind_some, h.untitled.postApplyInfo_if]
  have hins : ∀ {T : Type} (s : TypedSheet T), s.w = ids.length →
      s.insertColumn (if k < ids.length then (k : Int) else -1) =
        ({ s with
            arr := s.arr.map fun row =>
              TypedSheet.insertBefore row (if k < ids.length then (k : Int) else -1) s.zero
            w := s.w + 1 }, (k : Int)) := by
    intro T s hs
    unfold TypedSheet.insertColumn
    rw [if_neg (by split <;> omega)]
    congr 1
    split <;> omega
  rw [hins p.sheet h.sheet_w, hins p.activeCol (h.active.2.trans hpar),
    hins p.statusCol (hw.trans hpar)]
  have hrow : ∀ {T : Type} (row : List T) (c : T), row.length = ids.length →
      TypedSheet.insertBefore row (if k < ids.length then (k : Int) else -1) c =
      row.insertIdx k c := by
    intro T row c hrow
    rw [← hrow]
    exact TypedSheet.insertBefore_eq row (by omega) c
  have hshow : Shows rows
      { p with
        sheet :=
          { p.sheet with
            arr := p.sheet.arr.map fun row =>
              TypedSheet.insertBefore row (if k < ids.length then (k : Int) else -1) p.sheet.zero
            w := p.sheet.w + 1 }
        activeCol := TypedSheet.setCell
          { p.activeCol with
            arr := p.activeCol.arr.map fun row =>
              TypedSheet.insertBefore row (if k < ids.length then (k : Int)
                else -1) p.activeCol.zero
            w := p.activeCol.w + 1 } (k : Int).toNat 0 name
        statusCol := TypedSheet.setCell
          { p.statusCol with
            arr := p.statusCol.arr.map fun row =>
              TypedSheet.insertBefore row (if k < ids.length then (k : Int)
                else -1) p.statusCol.zero
            w := p.statusCol.w + 1 } (k : Int).toNat 0 "+++" }
      (ids.insertIdx k change.subject) (names.insertIdx k name) := by
    refine ⟨?_,
      ?_, by omega, ⟨?_, ?_⟩, ⟨⟨st.insertIdx k "+++", ?_, ?_, ?_⟩, ?_⟩, h.no_synonyms,
      ?_, h.untitled, base, ?_, ?_⟩
    · exact (List.perm_insertIdx _ _ hk).nodup_iff.mpr (List.nodup_cons.mpr ⟨hnew, h.ids_nodup⟩)
    · exact (List.perm_insertIdx _ _ hkn).nodup_iff.mpr (List.nodup_cons.mpr ⟨hfree, h.names_nodup⟩)
    · show (p.activeCol.arr.map _).modify 0 _ = _
      rw [h.active.1]
      show [(TypedSheet.insertBefore names _ _).set (k : Int).toNat name] = _
      rw [hrow names _ hpar, Int.toNat_natCast, TypedSheet.set_insertIdx_self]
    · show p.activeCol.w + 1 = _
      rw [h.active.2, hnlen]
    · show (p.statusCol.arr.map _).modify 0 _ = _
      rw [hst]
      show [(TypedSheet.insertBefore st _ _).set (k : Int).toNat "+++"] = _
      rw [hrow st _ (by omega), Int.toNat_natCast, TypedSheet.set_insertIdx_self]
    · rw [List.length_insertIdx_of_le_length (by omega), hlen, hnlen]
    · intro x hx
      rcases List.eq_or_mem_of_mem_insertIdx hx with rfl | hx
      · decide
      · exact hok x hx
    · show p.statusCol.w + 1 = _
      rw [hw, hnlen]
    · show p.sheet.w + 1 = _
      rw [h.sheet_w, hilen]
    · refine hbase.imp id fun hall id hid => ?_
      rcases List.eq_or_mem_of_mem_insertIdx hid with rfl | hid
      · exact hneg
      · exact hall id hid
    · show p.sheet.arr.map _ = _
      rw [harr, List.map_map]
      refine List.map_congr_left fun row _ => ?_
      show TypedSheet.insertBefore (ids.map (cellOf p.sheet.zero row)) _ p.sheet.zero = _
      rw [hrow _ _ (List.length_map ..), List.map_insertIdx]
      congr 1
      unfold cellOf
      rw [if_pos hneg]
  obtain ⟨p', hp', hs'⟩ := hshow.updateCols
  exact ⟨_, congrArg (Option.map fun p => (p, _)) hp', hs'⟩

/-! ## Moves -/

theorem moveCol (h : Shows rows p ids names) (change : OrderChange) {k : Nat}
    (hmode : change.mode = .move) (ha : change.subject ∈ ids) (hk : k < ids.length)
    (hids : change.indicesAfter =
      (ids.eraseIdx (ids.idxOf change.subject)).insertIdx k change.subject)
    (hnames : change.namesAfter = (names.eraseIdx (ids.idxOf change.subject)).insertIdx k
      (names.getD (ids.idxOf change.subject) "")) :
    ∃ r, p.changeColumn change = some r ∧ Shows rows r.1 change.indicesAfter change.namesAfter := by
  obtain ⟨⟨st, hst, hlen, hok⟩, hw⟩ := h.status
  obtain ⟨base, hbase, harr⟩ := h.sheet_arr
  have hpar := h.parallel
  have hi : ids.idxOf change.subject < ids.length := List.idxOf_lt_length_of_mem ha
  have hget : ids[ids.idxOf change.subject] = change.subject := List.getElem_idxOf hi
  have hnot : change.subject ∉ ids.eraseIdx (ids.idxOf change.subject) := by
    rw [List.eraseIdx_idxOf_eq_erase]
    exact h.ids_nodup.not_mem_erase
  generalize ids.idxOf change.subject = i at hi hget hids hnames hnot
  have hin : i < names.length := by omega
  have hname : names.getD i "" = names[i] := List.getD_eq_getElem _ _ hin
  rw [hname] at hnames
  have hie : (ids.eraseIdx i).length = ids.length - 1 := List.length_eraseIdx_of_lt hi
  have hne : (names.eraseIdx i).length = names.length - 1 := List.length_eraseIdx_of_lt hin
  have hilen : change.indicesAfter.length = ids.length := by
    rw [hids, List.length_insertIdx_of_le_length (by omega)]
    omega
  have hnlen : change.namesAfter.length = names.length := by
    rw [hnames, List.length_insertIdx_of_le_length (by omega)]
    omega
  have hto : change.identityToIndexAfter change.subject = (k : Int) := by
    unfold OrderChange.identityToIndexAfter OrderChange.indexIn
    rw [hids, if_pos ((List.mem_insertIdx (by omega)).mpr (Or.inl rfl)),
      TypedSheet.idxOf_insertIdx hnot (by omega)]
  have hmover : nameIn change.namesAfter (k : Int) = some names[i] := by
    rw [nameIn_natCast _ (by omega)]
    simp only [hnames, List.getElem_insertIdx_self]
  have hnext : p.nextCol change k = some (TypedSheet.baseFor ids.length i k) := by
    rw [h.nextCol (j := if k < i then k else k + 1) (by omega)]
    · unfold TypedSheet.baseFor
      rw [hilen]
      split
      · split <;> rfl
      · rfl
    · intro hend
      refine ⟨by split <;> omega, ?_⟩
      rw [hnames, List.getElem?_insertIdx_of_gt (by omega), Nat.add_sub_cancel,
        List.getElem?_eraseIdx]
      split <;> rw [List.getElem?_eq_getElem]
  unfold changeColumn SheetPatcher.moveCol
  rw [hmode]
  simp only [hto, hmover, hnext, h.matchCol hin, Option.bind_some]
  unfold SheetPatcher.moveColumn
  have hmv : ∀ {T : Type} (s : TypedSheet T), s.w = ids.length →
    (s.moveColumn (i : Int) (TypedSheet.baseFor ids.length i k)).1 =
      { s with
        arr := s.arr.map fun row =>
          TypedSheet.moveInRow s.zero row i (TypedSheet.baseFor ids.length i k) } := by
    intro T s hs
    have := TypedSheet.baseFor_lt hk i
    unfold TypedSheet.moveColumn
    rw [if_neg (by omega)]
    rfl
  have hrow : ∀ {T : Type} (zero : T) (row : List T), row.length = ids.length →
      TypedSheet.moveInRow zero row i (TypedSheet.baseFor ids.length i k) =
        (row.eraseIdx i).insertIdx k (row.getD i zero) := by
    intro T zero row hrow
    rw [← hrow]
    exact TypedSheet.moveInRow_eq zero (by omega) (by omega)
  have hperm : change.indicesAfter.Perm ids := by
    rw [hids]
    refine (List.perm_insertIdx _ _ (by omega)).trans ?_
    rw [← hget]
    exact List.getElem_cons_eraseIdx_perm hi
  have hnperm : change.namesAfter.Perm names := by
    rw [hnames]
    exact (List.perm_insertIdx _ _ (by omega)).trans (List.getElem_cons_eraseIdx_perm hin)
  have hshow : Shows rows
      { p with
        sheet := (p.sheet.moveColumn (i : Int) (TypedSheet.baseFor ids.length i k)).1
        activeCol := (p.activeCol.moveColumn (i : Int) (TypedSheet.baseFor ids.length i k)).1
        statusCol := (p.statusCol.moveColumn (i : Int) (TypedSheet.baseFor ids.length i k)).1 }
      change.indicesAfter change.namesAfter := by
    rw [hmv p.sheet h.sheet_w, hmv p.activeCol (h.active.2.trans hpar),
      hmv p.statusCol (hw.trans hpar)]
    refine ⟨hperm.nodup_iff.mpr h.ids_nodup, hnperm.nodup_iff.mpr h.names_nodup, by omega, ⟨?_, ?_⟩,
      ⟨⟨(st.eraseIdx i).insertIdx k (st.getD i p.statusCol.zero), ?_, ?_, ?_⟩, ?_⟩, h.no_synonyms,
        ?_, h.untitled, base, ?_, ?_⟩
    · show p.activeCol.arr.map _ = _
      rw [h.active.1]
      show [TypedSheet.moveInRow _ names i _] = _
      rw [hrow _ names hpar, hnames, List.getD_eq_getElem _ _ hin]
    · show p.activeCol.w = _
      rw [h.active.2, hnlen]
    · show p.statusCol.arr.map _ = _
      rw [hst]
      show [TypedSheet.moveInRow _ st i _] = _
      rw [hrow _ st (by omega)]
    · rw [List.length_insertIdx_of_le_length (by rw [List.length_eraseIdx_of_lt (by omega)]; omega),
        List.length_eraseIdx_of_lt (by omega)]
      omega
    · intro x hx
      rcases List.eq_or_mem_of_mem_insertIdx hx with rfl | hx
      · rw [List.getD_eq_getElem _ _ (by omega)]
        exact hok _ (List.getElem_mem _)
      · exact hok x (List.mem_of_mem_eraseIdx hx)
    · show p.statusCol.w = _
      rw [hw, hnlen]
    · show p.sheet.w = _
      rw [h.sheet_w, hilen]
    · exact hbase.imp id fun hall id hid => hall id (hperm.mem_iff.mp hid)
    · show p.sheet.arr.map _ = _
      rw [harr, List.map_map]
      refine List.map_congr_left fun row _ => ?_
      show TypedSheet.moveInRow _ (ids.map (cellOf p.sheet.zero row)) i _ = _
      rw [hrow _ _ (List.length_map ..), hids, List.map_insertIdx, List.eraseIdx_map,
        List.getD_eq_getElem _ _ (by rw [List.length_map]; exact hi), List.getElem_map, hget]
  obtain ⟨p', hp', hs'⟩ := hshow.updateCols
  exact ⟨_, congrArg (Option.map fun p => (p, _)) hp', hs'⟩

end Shows

end SheetPatcher

end Coopy
