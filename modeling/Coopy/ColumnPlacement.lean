import Coopy.ColumnPasses

/-!
# Where pass 2 puts the columns

`Mover` finds moves that put each column after its predecessor.  Pass 2 replays them by
another rule: each column goes to its final index, counted in a list in which later
columns of the move list still stand in their old places.  The result is right exactly
when, at each move, as many of those stand before the index as belong before it:

    order.foldl (placeAt dest) cur = dest ↔ PlacementAgrees dest cur order    (foldl_placeAt_eq_iff)
-/

namespace Coopy

open Lib

namespace Merger

theorem insertIdx_eq_take_drop {α : Type} (a : α) : ∀ (k : Nat) (xs : List α), k ≤ xs.length →
    xs.insertIdx k a = xs.take k ++ a :: xs.drop k
  | 0, xs, _ => by simp
  | k + 1, [], h => by simp at h
  | k + 1, x :: xs, h => by
    rw [List.insertIdx_succ_cons, insertIdx_eq_take_drop a k xs (by simpa using h)]
    rfl

/-- `count` of the columns of `order` before the place of `a`, in `cur` and in `dest`. -/
def PlacementAgrees (dest : List Int) : List Int → List Int → Prop
  | _, [] => True
  | cur, a :: order =>
    (((cur.erase a).take (dest.idxOf a)).countP fun c => decide (c ∈ order)) =
        ((dest.take (dest.idxOf a)).countP fun c => decide (c ∈ order)) ∧
      PlacementAgrees dest (placeAt dest cur a) order

instance decidablePlacementAgrees (dest : List Int) :
    ∀ order cur : List Int, Decidable (PlacementAgrees dest cur order)
  | [], _ => isTrue trivial
  | a :: order, cur =>
    have := decidablePlacementAgrees dest order (placeAt dest cur a)
    inferInstanceAs (Decidable (_ ∧ _))

section
variable {dest : List Int}

theorem placeAt_eq {cur : List Int} (hp : cur.Perm dest) {a : Int} (ha : a ∈ dest) :
    placeAt dest cur a = (cur.erase a).take (dest.idxOf a) ++ a :: (cur.erase a).drop
      (dest.idxOf a) := by
  have hmem : a ∈ cur := hp.mem_iff.mpr ha
  have hlt := List.idxOf_lt_length_of_mem ha
  unfold placeAt
  rw [List.eraseIdx_idxOf_eq_erase]
  apply insertIdx_eq_take_drop
  rw [List.length_erase_of_mem hmem, hp.length_eq]
  omega

/-- A placement does not disturb the other columns. -/
theorem filter_placeAt {cur : List Int} (hp : cur.Perm dest) {a : Int} (ha : a ∈ dest)
    {p : Int → Bool} (hpa : p a = false) : (placeAt dest cur a).filter p = cur.filter p := by
  rw [placeAt_eq hp ha, List.filter_append, List.filter_cons, hpa]
  simp only [Bool.false_eq_true, if_false]
  rw [← List.filter_append, List.take_append_drop, filter_erase hpa]

theorem filter_foldl_placeAt {p : Int → Bool} (order : List Int) : ∀ cur : List Int, cur.Perm dest →
    (∀ a ∈ order, a ∈ dest) → (∀ a ∈ order, p a = false) →
    (order.foldl (placeAt dest) cur).filter p = cur.filter p := by
  induction order with
  | nil => exact fun cur _ _ _ => rfl
  | cons a order ih =>
    intro cur hp hsub hpa
    have ha := hsub a (by simp)
    rw [List.foldl_cons, ih _ (placeAt_perm hp ha) (fun b hb => hsub b (List.mem_cons_of_mem _ hb))
      (fun b hb => hpa b (List.mem_cons_of_mem _ hb)), filter_placeAt hp ha (hpa a (by simp))]

/-- Two ways to split a list around `a` are the same if the parts before `a` are as long. -/
theorem append_cons_eq_iff {xs ys xs' ys' : List Int} {a : Int} (hx : a ∉ xs) (hx' : a ∉ xs')
    (h : xs ++ ys = xs' ++ ys') : xs ++ a :: ys = xs' ++ a :: ys' ↔ xs.length = xs'.length := by
  constructor
  · intro he
    have := congrArg (List.idxOf a) he
    rw [List.idxOf_append_of_notMem hx, List.idxOf_append_of_notMem hx', List.idxOf_cons_self,
      List.idxOf_cons_self] at this
    omega
  · intro hlen
    obtain ⟨rfl, rfl⟩ := List.append_inj h hlen
    rfl

theorem length_filter_take {xs : List Int} {i : Nat} (hi : i ≤ xs.length) (order : List Int) :
    ((xs.take i).filter fun c => decide (c ∉ order)).length +
    ((xs.take i).countP fun c => decide (c ∈ order)) = i := by
  have hlen := List.length_eq_countP_add_countP (fun c => decide (c ∈ order)) (l := xs.take i)
  have hnot : ((xs.take i).countP fun c => decide ¬(decide (c ∈ order) = true)) =
      ((xs.take i).filter fun c => decide (c ∉ order)).length := by
    rw [List.countP_eq_length_filter]
    congr 1
    exact List.filter_congr fun c _ => by simp
  rw [hnot, List.length_take, Nat.min_eq_left hi] at hlen
  omega

/-- One placement is right, as far as the columns that are placed go, when the counts agree. -/
theorem filter_placeAt_eq_iff (hd : dest.Nodup) {cur : List Int} (hp : cur.Perm dest) {a : Int}
    {order : List Int} (ha : a ∈ dest)
    (hao : a ∉ order) (hinv : (cur.filter fun c => decide (c ∉ a :: order)) = dest.filter fun c =>
      decide (c ∉ a :: order)) :
    ((placeAt dest cur a).filter fun c => decide (c ∉ order)) =
    (dest.filter fun c => decide (c ∉ order)) ↔
      (((cur.erase a).take (dest.idxOf a)).countP fun c => decide (c ∈ order)) =
        ((dest.take (dest.idxOf a)).countP fun c => decide (c ∈ order)) := by
  have hmem : a ∈ cur := hp.mem_iff.mpr ha
  have hcur : cur.Nodup := hp.nodup_iff.mpr hd
  have hlt := List.idxOf_lt_length_of_mem ha
  have hpa : decide (a ∉ order) = true := decide_eq_true hao
  have herase : ∀ xs : List Int, xs.Nodup → ((xs.erase a).filter fun c => decide (c ∉ order)) =
      xs.filter fun c => decide (c ∉ a :: order) := by
    intro xs hxs
    rw [hxs.erase_eq_filter, List.filter_filter]
    refine List.filter_congr fun c _ => ?_
    rw [Bool.eq_iff_iff]
    simp [and_comm]
  have hsplit : dest = dest.take (dest.idxOf a) ++ a :: dest.drop (dest.idxOf a + 1) := by
    conv_lhs => rw [← List.take_append_drop (dest.idxOf a) dest, List.drop_eq_getElem_cons hlt,
      List.getElem_idxOf hlt]
  have hdest : dest.erase a = dest.take (dest.idxOf a) ++ dest.drop (dest.idxOf a + 1) := by
    rw [← List.eraseIdx_idxOf_eq_erase, List.eraseIdx_eq_take_drop_succ]
  have hle : dest.idxOf a ≤ (cur.erase a).length := by
    rw [List.length_erase_of_mem hmem, hp.length_eq]
    omega
  have hparts : (((cur.erase a).take (dest.idxOf a)).filter fun c => decide (c ∉ order)) ++
        ((cur.erase a).drop (dest.idxOf a)).filter (fun c => decide (c ∉ order)) =
      ((dest.take (dest.idxOf a)).filter fun c => decide (c ∉ order)) ++
        (dest.drop (dest.idxOf a + 1)).filter fun c => decide (c ∉ order) := by
    rw [← List.filter_append, List.take_append_drop, ← List.filter_append, ← hdest, herase cur hcur,
      herase dest hd, hinv]
  have hout : ∀ xs : List Int, a ∉ xs → a ∉ xs.filter fun c => decide (c ∉ order) := fun xs h hm =>
    h (List.mem_filter.mp hm).1
  have hleft : a ∉ (cur.erase a).take (dest.idxOf a) :=
    fun h => (hcur.not_mem_erase) (List.mem_of_mem_take h)
  have hright : a ∉ dest.take (dest.idxOf a) := by
    rw [hsplit] at hd
    have := (List.nodup_append.mp hd).2.2
    exact fun h => this a h a (by simp) rfl
  have h1 : ((placeAt dest cur a).filter fun c => decide (c ∉ order)) =
      (((cur.erase a).take (dest.idxOf a)).filter fun c => decide (c ∉ order)) ++
        a :: ((cur.erase a).drop (dest.idxOf a)).filter fun c => decide (c ∉ order) := by
    rw [placeAt_eq hp ha, List.filter_append, List.filter_cons, if_pos hpa]
  have h2 : (dest.filter fun c => decide (c ∉ order)) =
      ((dest.take (dest.idxOf a)).filter fun c => decide (c ∉ order)) ++
        a :: (dest.drop (dest.idxOf a + 1)).filter fun c => decide (c ∉ order) := by
    conv_lhs => rw [hsplit, List.filter_append, List.filter_cons, if_pos hpa]
  rw [h1, h2, append_cons_eq_iff (hout _ hleft) (hout _ hright) hparts]
  have e1 := length_filter_take hle order
  have e2 := length_filter_take (Nat.le_of_lt hlt) order
  omega

/-- **The placements.**  They lead to `dest` exactly when the counts agree at each of them. -/
theorem foldl_placeAt_eq_iff (hd : dest.Nodup) (order : List Int) :
    ∀ cur : List Int, cur.Perm dest → order.Nodup →
    (∀ a ∈ order, a ∈ dest) →
    (cur.filter fun c => decide (c ∉ order)) = (dest.filter fun c => decide (c ∉ order)) →
    (order.foldl (placeAt dest) cur = dest ↔ PlacementAgrees dest cur order) := by
  induction order with
  | nil =>
    intro cur _ _ _ hinv
    simp only [List.not_mem_nil, not_false_eq_true, decide_true, List.filter_true] at hinv
    exact ⟨fun _ => trivial, fun _ => hinv⟩
  | cons a order ih =>
    intro cur hp hnd hsub hinv
    obtain ⟨hao, hnd⟩ := List.nodup_cons.mp hnd
    have ha := hsub a (by simp)
    have hsub' : ∀ b ∈ order, b ∈ dest := fun b hb => hsub b (List.mem_cons_of_mem _ hb)
    have hp' := placeAt_perm hp ha
    have hkey := filter_placeAt_eq_iff hd hp ha hao hinv
    rw [List.foldl_cons]
    constructor
    · intro h
      have hfil : ((placeAt dest cur a).filter fun c => decide (c ∉ order)) = dest.filter fun c =>
        decide (c ∉ order) := by
        rw [← filter_foldl_placeAt order _ hp' hsub' (fun b hb => decide_eq_false (not_not.mpr hb)),
          h]
      exact ⟨hkey.mp hfil, (ih _ hp' hnd hsub' hfil).mp h⟩
    · rintro ⟨hcount, hrest⟩
      exact (ih _ hp' hnd hsub' (hkey.mpr hcount)).mpr hrest

end

end Merger

end Coopy
