import Coopy.Lib.Containers
import Coopy.PolyColumns
import Mathlib.Data.List.Perm.Basic

/-!
# Moves within a sheet

A row or a column is copied to its new place, and its old place erased; which index that is, and
which one is returned, depends on whether the base is in front of the source or behind it.  All
cases are one:

    moveRow, moveColumn: the places of the others in order, with the source in front of the base
                                                                                        (sheetMoves)
-/

namespace Coopy

open Lib

namespace TypedSheet

/-- The places of `n` elements after a move: `src` is taken out, and put back in front of `base`, or
at the end. -/
def moveOrder (n src : Nat) (base : Int) : List Nat :=
  let others := (List.range n).filter fun i => i ≠ src
  if base < 0 then others ++ [src]
  else (others.filter fun (i : Nat) => (i : Int) < base) ++ src :: others.filter fun (i : Nat) =>
    base ≤ (i : Int)

section
variable {n src : Nat} {base : Int}

/-! ## The order of the places -/

theorem range_split (h : src < n) :
    List.range n = List.range src ++ src :: List.range' (src + 1) (n - (src + 1)) := by
  have hjoin := @List.range'_append_1 0 src (n - src)
  rw [Nat.zero_add, show src + (n - src) = n by omega] at hjoin
  rw [List.range_eq_range', List.range_eq_range', ← hjoin,
    show n - src = n - (src + 1) + 1 by omega, List.range'_succ]

theorem others_eq (h : src < n) :
    ((List.range n).filter fun i => i ≠ src) = (List.range n).eraseIdx src := by
  have hfront : (List.range src).filter (fun i => decide (i ≠ src)) = List.range src :=
    List.filter_eq_self.2 fun i hi => by simpa using (List.mem_range.1 hi).ne
  have hback : (List.range' (src + 1) (n - (src + 1))).filter (fun i => decide (i ≠ src)) =
      List.range' (src + 1) (n - (src + 1)) :=
    List.filter_eq_self.2 fun i hi => by
      rw [List.mem_range'_1] at hi
      simp
      omega
  have herase := eraseIdx_append_cons (List.range src) (List.range' (src + 1) (n - (src + 1))) src
  rw [List.length_range] at herase
  rw [range_split h, herase, List.filter_append, hfront, List.filter_cons, if_neg (by simp), hback]

theorem getElem_others {i : Nat} (h : i < ((List.range n).eraseIdx src).length) :
    ((List.range n).eraseIdx src)[i] = if i < src then i else i + 1 := by
  rw [List.getElem_eraseIdx]
  split <;> rw [List.getElem_range]

/-- The places before a bound are those in front of an index. -/
theorem filter_others {k : Nat} (hlt : ∀ i < k, (if i < src then i else i + 1 : Nat) < base)
    (hge : ∀ i, k ≤ i → base ≤ (if i < src then i else i + 1 : Nat)) :
    ((List.range n).eraseIdx src).filter (fun (i : Nat) => decide ((i : Int) < base)) =
    ((List.range n).eraseIdx src).take k ∧
      ((List.range n).eraseIdx src).filter (fun (i : Nat) => decide (base ≤ (i : Int))) =
        ((List.range n).eraseIdx src).drop k := by
  generalize hothers : (List.range n).eraseIdx src = others
  have hfront : ∀ x ∈ others.take k, (x : Int) < base := by
    intro x hx
    obtain ⟨i, hi, rfl⟩ := List.mem_take_iff_getElem.1 hx
    subst hothers
    rw [getElem_others]
    exact hlt i (by omega)
  have hback : ∀ x ∈ others.drop k, base ≤ (x : Int) := by
    intro x hx
    obtain ⟨i, hi, rfl⟩ := List.mem_drop_iff_getElem.1 hx
    subst hothers
    rw [getElem_others]
    exact hge _ (by omega)
  have hjoin := List.take_append_drop k others
  constructor
  · conv_lhs => rw [← hjoin]
    rw [List.filter_append, List.filter_eq_self.2 fun x hx => decide_eq_true (hfront x hx),
      List.filter_eq_nil_iff.2 fun x hx => by simpa using hback x hx, List.append_nil]
  · conv_lhs => rw [← hjoin]
    rw [List.filter_append, List.filter_eq_self.2 fun x hx => decide_eq_true (hback x hx),
      List.filter_eq_nil_iff.2 fun x hx => by simpa using hfront x hx, List.nil_append]

/-- Where the source is put among the others: at the end, behind some that were behind it, or in
front of them. -/
theorem place_end (h : base < 0) : ColumnOp.place (n - 1)
    (if base > src then base - 1 else base) = n - 1 := by
  rw [if_neg (by omega)]
  exact if_pos h

theorem place_behind (h : base > src) :
    ColumnOp.place (n - 1) (if base > src then base - 1 else base) = (base - 1).toNat := by
  rw [if_pos h]
  exact if_neg (by omega)

theorem place_front (h : ¬ base < 0) (h' : ¬ base > src) :
    ColumnOp.place (n - 1) (if base > src then base - 1 else base) = base.toNat := by
  rw [if_neg h']
  exact if_neg h

/-- The source is put in among the others. -/
theorem moveOrder_eq (hs : src < n) (hb' : base < n) : moveOrder n src base =
    ((List.range n).eraseIdx src).insertIdx
      (ColumnOp.place (n - 1) (if base > src then base - 1 else base)) src := by
  have hlen : ((List.range n).eraseIdx src).length = n - 1 := by
    rw [List.length_eraseIdx_of_lt (by rwa [List.length_range]), List.length_range]
  unfold moveOrder
  simp only
  rw [others_eq hs]
  by_cases hneg : base < 0
  · rw [if_pos hneg, place_end hneg, ← hlen, List.insertIdx_length_self]
  · have hplace : ColumnOp.place (n - 1) (if base > src then base - 1 else base) =
        (if base > src then base - 1 else base).toNat := if_neg (by split <;> omega)
    obtain ⟨hfront, hback⟩ :=
      @filter_others n src base (if base > src then base - 1 else base).toNat
        (fun i hi => by split <;> split at hi <;> omega)
        (fun i hi => by split <;> split at hi <;> omega)
    have hlen' :
      (((List.range n).eraseIdx src).take (if base > src then base - 1 else base).toNat).length =
        (if base > src then base - 1 else base).toNat := by
      rw [List.length_take, hlen, min_eq_left (by split <;> omega)]
    have hput :=
      insertIdx_append
        (((List.range n).eraseIdx src).take (if base > src then base - 1 else base).toNat)
      (((List.range n).eraseIdx src).drop (if base > src then base - 1 else base).toNat) src
    rw [List.take_append_drop, hlen'] at hput
    rw [if_neg hneg, hplace, hfront, hback, hput]

/-- The others around the source. -/
theorem moveOrder_split (hs : src < n) (hb' : base < n) : ∃ front back,
    moveOrder n src base = front ++ src :: back ∧
    front ++ back = (List.range n).filter (fun i => i ≠ src) ∧
      front.length = ColumnOp.place (n - 1) (if base > src then base - 1 else base) ∧
      (moveOrder n src base).idxOf src = front.length := by
  have hlen : ((List.range n).eraseIdx src).length = n - 1 := by
    rw [List.length_eraseIdx_of_lt (by rwa [List.length_range]), List.length_range]
  have hle : ColumnOp.place (n - 1) (if base > src then base - 1 else base) ≤ n - 1 :=
    ColumnOp.place_le (by split <;> omega)
  rw [moveOrder_eq hs hb', others_eq hs]
  generalize ColumnOp.place (n - 1) (if base > src then base - 1 else base) = k at hle
  have hfront : (((List.range n).eraseIdx src).take k).length = k := by
    rw [List.length_take, hlen, min_eq_left hle]
  have hput :=
    insertIdx_append (((List.range n).eraseIdx src).take k)
    (((List.range n).eraseIdx src).drop k) src
  rw [List.take_append_drop, hfront] at hput
  have hnot : src ∉ ((List.range n).eraseIdx src).take k := by
    intro hmem
    have hother := List.mem_of_mem_take hmem
    rw [← others_eq hs] at hother
    simp at hother
  refine ⟨_, _, hput, List.take_append_drop _ _, hfront, ?_⟩
  rw [hput, List.idxOf_append_of_notMem hnot, List.idxOf_cons_self, Nat.add_zero]

/-- The others keep their order. -/
theorem moveOrder_filter (hs : src < n) (hb' : base < n) :
    (moveOrder n src base).filter (fun i => i ≠ src) = (List.range n).filter fun i => i ≠ src := by
  obtain ⟨front, back, horder, hothers, -, -⟩ := moveOrder_split hs hb'
  rw [horder, List.filter_append, List.filter_cons, if_neg (by simp), ← List.filter_append, hothers,
    List.filter_filter]
  simp only [Bool.and_self]

/-- Where the source goes. -/
theorem idxOf_moveOrder (hs : src < n) (hb' : base < n) : ((moveOrder n src base).idxOf src : Int) =
    if base < 0 then (n : Int) - 1 else if base > src then base - 1 else base := by
  obtain ⟨front, back, -, -, hlen, hindex⟩ := moveOrder_split hs hb'
  rw [hindex, hlen]
  by_cases hneg : base < 0
  · rw [place_end hneg, if_pos hneg]
    omega
  · rw [if_neg hneg]
    by_cases hgt : base > src
    · rw [place_behind hgt, if_pos hgt]
      omega
    · rw [place_front hneg hgt, if_neg hgt]
      omega

theorem moveOrder_perm (hs : src < n) (hb' : base < n) :
    (moveOrder n src base).Perm (List.range n) := by
  obtain ⟨front, back, horder, hothers, -, -⟩ := moveOrder_split hs hb'
  rw [horder]
  refine List.perm_middle.trans ?_
  have hsource := @List.getElem_cons_eraseIdx_perm _ (List.range n) src (by rwa [List.length_range])
  rw [List.getElem_range] at hsource
  rw [hothers, others_eq hs]
  exact hsource

/-- The base comes next. -/
theorem moveOrder_next (hs : src < n) (hb : 0 ≤ base) (hb' : base < n) (hne : base ≠ src) :
    (moveOrder n src base)[(moveOrder n src base).idxOf src + 1]? = some base.toNat := by
  obtain ⟨front, back, horder, hothers, hlen, hindex⟩ := moveOrder_split hs hb'
  have hat : (front ++ back)[front.length]? = back[0]? := by
    rw [List.getElem?_append_right (Nat.le_refl _), Nat.sub_self]
  rw [hindex, horder, List.getElem?_append_right (by omega), show front.length + 1 - front.length =
    0 + 1 by omega, List.getElem?_cons_succ, ← hat, hothers, others_eq hs]
  have hothersLen : ((List.range n).eraseIdx src).length = n - 1 := by
    rw [List.length_eraseIdx_of_lt (by rwa [List.length_range]), List.length_range]
  rw [hlen]
  by_cases hgt : base > src
  · rw [place_behind hgt, List.getElem?_eq_getElem (by omega), getElem_others, if_neg (by omega)]
    congr 1
    omega
  · rw [place_front (by omega) hgt, List.getElem?_eq_getElem (by omega), getElem_others,
      if_pos (by omega)]

end

/-! ## Moves -/

section
variable {T : Type} {s : TypedSheet T} {src : Nat} {base : Int}

/-- A list in a new order is the list with one element taken out and put back. -/
theorem map_moveOrder {l : List T} (d : T) (hs : src < l.length) (hb' : base < l.length) :
    (moveOrder l.length src base).map (fun i => l.getD i d) =
      (l.eraseIdx src).insertIdx
        (ColumnOp.place (l.length - 1) (if base > src then base - 1 else base)) (l.getD src d) := by
  have hself : (List.range l.length).map (fun i => l.getD i d) = l :=
    List.ext_getElem (by simp) fun i hi hi' => by
      rw [List.getElem_map, List.getElem_range, List.getD_eq_getElem _ _ hi']
  rw [moveOrder_eq hs hb', List.map_insertIdx, ← List.eraseIdx_map, hself]

theorem moveColumn_eq (hs : src < s.w) (hb : -1 ≤ base) (hb' : base < s.w)
    (hrect : ∀ row ∈ s.arr, row.length = s.w) : s.moveColumn src base =
      ({ s with
        arr := s.arr.map fun row => (moveOrder s.w src base).map fun j => row.getD j s.zero },
        ((moveOrder s.w src base).idxOf src : Int)) := by
  have hrows : s.arr.map (fun row => moveInRow s.zero row (src : Int).toNat base) =
      s.arr.map fun row => (moveOrder s.w src base).map fun j => row.getD j s.zero := by
    refine List.map_congr_left fun row hrow => ?_
    have hw := hrect row hrow
    rw [Int.toNat_natCast, moveInRow_eq_insertIdx s.zero (by omega) hb, ← hw,
      map_moveOrder s.zero (by omega) (by omega), List.getD_eq_getElem]
  unfold moveColumn
  rw [if_neg (by omega), hrows, idxOf_moveOrder hs hb']
  refine Prod.ext rfl ?_
  by_cases hneg : base < 0
  · simp only [if_pos hneg]
  · simp only [if_neg hneg]
    by_cases hlt : base > src
    · rw [if_neg (by omega), if_pos hlt]
    · rw [if_pos (by omega), if_neg hlt]

theorem moveRow_eq (hs : src < s.height) (hb : -1 ≤ base) (hb' : base < s.height) :
    s.moveRow src base =
    ({ s with arr := (moveOrder s.height src base).map fun i => s.arr.getD i [] },
      ((moveOrder s.height src base).idxOf src : Int)) := by
  have hs' : src < s.arr.length := hs
  have hrows : (moveOrder s.height src base).map (fun i => s.arr.getD i []) =
    (s.arr.eraseIdx src).insertIdx
      (ColumnOp.place (s.arr.length - 1) (if base > src then base - 1 else base))
        (s.arr.getD src []) :=
    map_moveOrder [] hs hb'
  rw [hrows, idxOf_moveOrder hs hb']
  unfold moveRow
  rw [if_neg (by omega), Int.toNat_natCast]
  simp only
  by_cases hneg : base < 0
  · -- the copy is the last row, and the source in front of it
    have hend :=
      @List.insertIdx_eraseIdx_of_ge _ (s.arr.getD src []) src (s.arr.length - 1) s.arr hs'
        (by omega)
    rw [show s.arr.length - 1 + 1 = s.arr.length by omega, List.insertIdx_length_self] at hend
    rw [place_end hneg, if_neg (by omega), if_pos hneg, hend]
  · rw [if_pos (by omega), if_neg hneg]
    by_cases hgt : base > src
    · have hbehind :=
        @List.insertIdx_eraseIdx_of_ge _ (s.arr.getD src []) src (base - 1).toNat s.arr hs'
          (by omega)
      rw [show (base - 1).toNat + 1 = base.toNat by omega] at hbehind
      rw [place_behind hgt, if_neg (by omega), if_pos hgt, hbehind]
    · rw [place_front hneg hgt, if_neg hgt]
      by_cases hfront : base < src
      · rw [if_pos hfront, List.insertIdx_eraseIdx_of_le hs' (by omega)]
      · -- in place: the copy itself is erased
        have hsame : base.toNat = src := by omega
        rw [if_neg hfront, hsame, List.eraseIdx_insertIdx_self, List.getD_eq_getElem _ _ hs',
          List.insertIdx_eraseIdx_getElem]

end

end TypedSheet

open TypedSheet in
/-- **Moves.**  The others keep their order and their cells, and what is returned is where the moved
one stands. -/
theorem sheetMoves :
    (∀ (n src : Nat) (base : Int), src < n → base < n → (moveOrder n src base).Perm (List.range n) ∧
      ((moveOrder n src base).filter (fun i => i ≠ src) = (List.range n).filter fun i => i ≠ src) ∧
      (0 ≤ base → base ≠ src → (moveOrder n src base)[(moveOrder n src base).idxOf src + 1]? =
        some base.toNat)) ∧
    (∀ {T : Type} (s : TypedSheet T) (src : Nat) (base : Int), src < s.height → -1 ≤ base →
      base < s.height → s.moveRow src base =
      ({ s with arr := (moveOrder s.height src base).map fun i => s.arr.getD i [] },
        ((moveOrder s.height src base).idxOf src : Int))) ∧
    ∀ {T : Type} (s : TypedSheet T) (src : Nat) (base : Int), src < s.w → -1 ≤ base → base < s.w →
      (∀ row ∈ s.arr, row.length = s.w) → s.moveColumn src base =
        ({ s with
          arr := s.arr.map fun row => (moveOrder s.w src base).map fun j => row.getD j s.zero },
          ((moveOrder s.w src base).idxOf src : Int)) := by
  refine ⟨fun n src base hs hb' => ⟨moveOrder_perm hs hb', moveOrder_filter hs hb',
    fun hb hne => moveOrder_next hs hb hb' hne⟩, fun s src base => moveRow_eq,
    fun s src base => moveColumn_eq⟩

/-- The second of four rows goes in front of the last, and the last of three columns to the
front. -/
theorem sheetMoves_table :
    (⟨[["a"], ["b"], ["c"], ["d"]], 1, ""⟩ : TypedSheet String).moveRow 1 3 =
    (⟨[["a"], ["c"], ["b"], ["d"]], 1, ""⟩, 2) ∧
      (⟨[["a", "b", "c"], ["d", "e", "f"]], 3, ""⟩ : TypedSheet String).moveColumn 2 0 =
        (⟨[["c", "a", "b"], ["f", "d", "e"]], 3, ""⟩, 0) :=
  ⟨sheetMoves.2.1 _ 1 3 (by decide) (by decide) (by decide),
    sheetMoves.2.2 _ 2 0 (by decide) (by decide) (by decide) (by decide)⟩

end Coopy
