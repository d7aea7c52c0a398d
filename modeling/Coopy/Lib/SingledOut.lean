import Coopy.Lib.Zipper

/-!
# Edits of an item that is the only one

If at most one item passes the test then what a search does is done to all items that pass it.

    at most one item passes → what a deletion leaves are the items that do not pass   (items_delete)
    at most one item passes → an update makes the items anew, each by itself          (items_update)

Edits that each exchange one item for another, and that only find their own, come in any order to
the exchange of them all (`run_exchanges`).
-/

namespace Coopy.Lib.Edit

variable {α : Type} {m : α → Bool} {xs a b : List α} {x : α}

/-- None of the others passes. -/
theorem others_of_cut (h : cut m xs = some (a, x, b)) (hone : xs.countP m ≤ 1) :
    ∀ y ∈ a ++ b, m y = false := by
  obtain ⟨rfl, hx, ha⟩ := cut_eq_some_iff.mp h
  have hcount : a.countP m + (b.countP m + 1) ≤ 1 := by
    rwa [List.countP_append, List.countP_cons_of_pos hx] at hone
  have hb : b.countP m = 0 := by omega
  intro y hy
  rcases List.mem_append.mp hy with hy | hy
  · exact ha y hy
  · exact Bool.eq_false_iff.mpr (List.countP_eq_zero.mp hb y hy)

theorem map_ite_of_none {f : α → α} (h : ∀ y ∈ xs, m y = false) :
    (xs.map fun y => if m y then f y else y) = xs := by
  refine (List.map_congr_left fun y hy => ?_).trans (List.map_id xs)
  rw [if_neg (Bool.eq_false_iff.mp (h y hy))]
  rfl

theorem filter_of_none (h : ∀ y ∈ xs, m y = false) : (xs.filter fun y => !m y) = xs :=
  List.filter_eq_self.mpr fun y hy => by rw [h y hy]; rfl

section
variable {z : Zipper α}

theorem items_delete (hone : z.items.countP m ≤ 1) :
    ((delete m).apply z).items = z.items.filter fun y => !m y := by
  cases hcut : cut m z.items with
  | none => rw [delete_missed hcut, filter_of_none (cut_eq_none_iff.mp hcut)]
  | some c =>
    obtain ⟨a, x, b⟩ := c
    have hothers := others_of_cut hcut hone
    obtain ⟨heq, hx, -⟩ := cut_eq_some_iff.mp hcut
    rw [delete_found hcut, heq, List.filter_append, List.filter_cons_of_neg (by rw [hx]; decide),
      filter_of_none fun y hy => hothers y (List.mem_append_left b hy),
      filter_of_none fun y hy => hothers y (List.mem_append_right a hy)]
    rfl

theorem items_update (f : α → α) (hone : z.items.countP m ≤ 1) :
    ((update m f).apply z).items = z.items.map fun y => if m y then f y else y := by
  cases hcut : cut m z.items with
  | none => rw [update_missed f hcut, map_ite_of_none (cut_eq_none_iff.mp hcut), Zipper.items_atEnd]
  | some c =>
    obtain ⟨a, x, b⟩ := c
    have hothers := others_of_cut hcut hone
    obtain ⟨heq, hx, -⟩ := cut_eq_some_iff.mp hcut
    rw [update_found f hcut, heq, List.map_append, List.map_cons, if_pos hx,
      map_ite_of_none fun y hy => hothers y (List.mem_append_left b hy),
      map_ite_of_none fun y hy => hothers y (List.mem_append_right a hy)]
    show a ++ [f x] ++ b = _
    rw [List.append_assoc, List.singleton_append]

/-- A move that finds nothing, or changes nothing but the place. -/
theorem items_move_perm {f : α → α} (h : (∀ y ∈ z.items, f y = y) ∨ z.items.countP m = 0) :
    ((move m f).apply z).items.Perm z.items := by
  have hkeep : ∀ {xs a b : List α} {x : α}, cut m xs = some (a, x, b) →
    (∀ y ∈ xs, y ∈ z.items) → f x = x := by
    intro xs a b x hcut hsub
    obtain ⟨rfl, hx, -⟩ := cut_eq_some_iff.mp hcut
    have hin : x ∈ z.items := hsub x (by simp)
    rcases h with h | h
    · exact h x hin
    · exact absurd hx (List.countP_eq_zero.mp h x hin)
  cases hcut : cut m z.before with
  | some c =>
    obtain ⟨a, x, b⟩ := c
    have hx := hkeep hcut fun y hy => List.mem_append_left _ hy
    rw [move_back f hcut, hx]
    show (a ++ b ++ [x] ++ z.after).Perm (z.before ++ z.after)
    rw [(cut_eq_some_iff.mp hcut).1]
    refine List.Perm.append_right _ ?_
    exact (List.perm_append_singleton x _).trans List.perm_middle.symm
  | none =>
    cases hcut' : cut m z.after with
    | none => rw [move_missed f hcut hcut']
    | some c =>
      obtain ⟨a, x, b⟩ := c
      have hx := hkeep hcut' fun y hy => List.mem_append_right _ hy
      rw [move_forth f hcut hcut', hx]
      show (z.before ++ [x] ++ (a ++ b)).Perm (z.before ++ z.after)
      rw [(cut_eq_some_iff.mp hcut').1, List.append_assoc, List.singleton_append]
      exact List.Perm.append_left _ List.perm_middle.symm

end

/-! ## Exchanges -/

/-- The edits take `old` out and put `new` in, whatever stands around that does not pass the
test. -/
def Exchanges (m : α → Bool) (es : List (Edit α)) (old new : Option α) : Prop :=
  ∀ (z : Zipper α) (rest : List α), z.items.Perm (old.toList ++ rest) → (∀ y ∈ rest, m y = false) →
    (run es z).items.Perm (new.toList ++ rest)

theorem exchanges_nothing (m : α → Bool) (old : Option α) : Exchanges m [] old old :=
  fun _ _ h _ => h

theorem exchanges_insert (m : α → Bool) (y : α) : Exchanges m [insert y] none (some y) := by
  intro z rest h _
  show (z.before ++ [y] ++ z.after).Perm (y :: rest)
  rw [List.append_assoc, List.singleton_append]
  exact List.perm_middle.trans (h.cons y)

/-- The item that passes is found, if it is the only one. -/
theorem cut_of_perm (hx : m x = true) {rest : List α} (h : xs.Perm (x :: rest))
    (hrest : ∀ y ∈ rest, m y = false) : ∃ a b, cut m xs = some (a, x, b) ∧ (a ++ b).Perm rest := by
  obtain ⟨⟨a, y, b⟩, hcut⟩ := exists_cut (h.mem_iff.mpr List.mem_cons_self) hx
  obtain ⟨heq, hy, -⟩ := cut_eq_some_iff.mp hcut
  have hin : y ∈ x :: rest := h.mem_iff.mp (by rw [heq]; simp)
  obtain rfl : y = x := by
    rcases List.mem_cons.mp hin with rfl | hin
    · rfl
    · rw [hrest y hin] at hy
      cases hy
  refine ⟨a, b, hcut, ?_⟩
  rw [heq] at h
  exact (List.perm_middle.symm.trans h).cons_inv

theorem exchanges_delete (hx : m x = true) : Exchanges m [delete m] (some x) none := by
  intro z rest h hrest
  obtain ⟨a, b, hcut, hperm⟩ := cut_of_perm hx h hrest
  show ((delete m).apply z).items.Perm rest
  rw [delete_found hcut]
  exact hperm

theorem exchanges_update (hx : m x = true) (f : α → α) :
    Exchanges m [update m f] (some x) (some (f x)) := by
  intro z rest h hrest
  obtain ⟨a, b, hcut, hperm⟩ := cut_of_perm hx h hrest
  show ((update m f).apply z).items.Perm (f x :: rest)
  rw [update_found f hcut]
  show (a ++ [f x] ++ b).Perm _
  rw [List.append_assoc, List.singleton_append]
  exact List.perm_middle.trans (hperm.cons (f x))

/-- What two exchanges must not do to each other: the one to come is not found by the one at hand,
nor the other way round what the one at hand leaves. -/
def Apart (m m' : α → Bool) (new old' : Option α) : Prop := (∀ x ∈ old', m x = false) ∧
    ∀ y ∈ new, m' y = false

/-- **A run of exchanges.**  All the old items turn into the new ones. -/
theorem run_exchanges {ι : Type} {m : ι → α → Bool} {es : ι → List (Edit α)}
    {old new : ι → Option α} (us : List ι)
    (h : ∀ u ∈ us, Exchanges (m u) (es u) (old u) (new u)) (hapart : us.Pairwise fun u v =>
      Apart (m u) (m v) (new u) (old v)) :
    ∀ (z : Zipper α) (done : List α), z.items.Perm (done ++ us.filterMap old) →
    (∀ u ∈ us, ∀ y ∈ done, m u y = false) →
      (run (us.flatMap es) z).items.Perm (done ++ us.filterMap new) := by
  induction us with
  | nil => exact fun z done hz _ => hz
  | cons u us ih =>
    intro z done hz hdone
    obtain ⟨hu, hpair⟩ := List.pairwise_cons.mp hapart
    have hcons :
      ∀ (f : ι → Option α) (xs : List α), (xs ++ (u :: us).filterMap f).Perm
        ((f u).toList ++ (xs ++ us.filterMap f)) := by
      intro f xs
      cases hf : f u with
      | none => rw [List.filterMap_cons_none hf]; exact List.Perm.refl _
      | some y => rw [List.filterMap_cons_some hf]; exact List.perm_middle
    have hrest : ∀ y ∈ done ++ us.filterMap old, m u y = false := by
      intro y hy
      rcases List.mem_append.mp hy with hy | hy
      · exact hdone u List.mem_cons_self y hy
      · obtain ⟨v, hv, hvy⟩ := List.mem_filterMap.mp hy
        exact (hu v hv).1 y hvy
    have hstep := h u List.mem_cons_self z _ (hz.trans (hcons old done)) hrest
    have hrun :=
      ih (fun v hv => h v (List.mem_cons_of_mem u hv)) hpair (run (es u) z) ((new u).toList ++ done)
      (by rw [List.append_assoc]; exact hstep) (fun v hv y hy => by
        rcases List.mem_append.mp hy with hy | hy
        · exact (hu v hv).2 y (Option.mem_toList.mp hy)
        · exact hdone v (List.mem_cons_of_mem u hv) y hy)
    rw [List.flatMap_cons, run_append]
    refine hrun.trans ?_
    rw [List.append_assoc]
    exact (hcons new done).symm

end Coopy.Lib.Edit
