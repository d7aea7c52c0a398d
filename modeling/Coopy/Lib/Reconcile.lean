import Mathlib.Data.List.GetD
import Mathlib.Data.List.Nodup
import Mathlib.Data.List.Perm.Basic
import Mathlib.Data.Prod.Basic

/-!
# Two copies, edited apart

A value was copied, and the copies were edited.  A copy that is still what it was gives way to the
other one; copies that were both changed, and not alike, are in conflict.

    merge3 p l r = merge3 p r l                                                      (merge3_comm)

Which copy is called the first is of no matter either for lists of values, once the conflicts are
decided (`reconcile_swap`).
-/

namespace Coopy.Lib

/-! ## One value -/

variable {α : Type}

section
variable [DecidableEq α]

/-- What becomes of `p`, of which one copy is now `l` and the other one `r`. -/
def merge3 (p l r : α) : Option α :=
  if l = r then some l else if p = l then some r else if p = r then some l else none

theorem merge3_comm (p l r : α) : merge3 p l r = merge3 p r l := by
  unfold merge3
  by_cases hlr : l = r
  · rw [if_pos hlr, if_pos hlr.symm, hlr]
  rw [if_neg hlr, if_neg (Ne.symm hlr)]
  by_cases hpl : p = l
  · rw [if_pos hpl, if_neg (fun hpr => hlr (hpl.symm.trans hpr)), if_pos hpl]
  · rw [if_neg hpl, if_neg hpl]

end

/-- What is made of a conflict. -/
inductive Settling
  | undecided
  | ours
  | theirs
  | neither
deriving DecidableEq, Repr

namespace Settling

/-- The value that stands in for a conflict. -/
def pick (c : Settling) (p l r : α) : α :=
  match c with
  | undecided => l
  | ours => l
  | theirs => r
  | neither => p

/-- The same decision, as the other side calls it. -/
def swap : Settling → Settling
  | undecided => undecided
  | ours => theirs
  | theirs => ours
  | neither => neither

theorem pick_swap {c : Settling} (h : c ≠ undecided) (p l r : α) :
    c.swap.pick p r l = c.pick p l r := by
  cases c with
  | undecided => exact absurd rfl h
  | ours => rfl
  | theirs => rfl
  | neither => rfl

theorem swap_eq_undecided_iff {c : Settling} : c.swap = undecided ↔ c = undecided := by
  cases c <;> decide

end Settling

section
variable [DecidableEq α]

/-- The merged value, or what stands in for the conflict. -/
def settle (c : Settling) (p l r : α) : α := (merge3 p l r).getD (c.pick p l r)

theorem settle_swap {c : Settling} {p l r : α} (h : c ≠ .undecided ∨ merge3 p l r ≠ none) :
    settle c.swap p r l = settle c p l r := by
  unfold settle
  rw [merge3_comm p r l]
  cases hm : merge3 p l r with
  | some x => rfl
  | none =>
    have hc : c ≠ .undecided := h.resolve_right (fun hne => hne hm)
    exact Settling.pick_swap hc p l r

end

/-! ## Lists of values -/

theorem zip_swapped (p l r : List α) : p.zip (r.zip l) = (p.zip (l.zip r)).map fun e =>
    (e.1, e.2.2, e.2.1) := by
  refine List.ext_getElem ?_ fun i h1 h2 => ?_
  · simp only [List.length_zip, List.length_map]
    omega
  · rw [List.getElem_map]
    simp only [List.getElem_zip]

section
variable [DecidableEq α]

/-- Some value is in conflict. -/
def clash (p l r : List α) : Bool := (p.zip (l.zip r)).any fun e => (merge3 e.1 e.2.1 e.2.2).isNone

/-- Value by value; a list in which a conflict is left undecided stays as the first copy has it. -/
def reconcile (c : Settling) (p l r : List α) : List α :=
  if c = .undecided ∧ clash p l r = true then l else (p.zip (l.zip r)).map fun e =>
  settle c e.1 e.2.1 e.2.2

theorem clash_comm (p l r : List α) : clash p r l = clash p l r := by
  unfold clash
  rw [zip_swapped, List.any_map]
  simp only [Function.comp_def, merge3_comm]

theorem merge3_ne_none_of_clash {p l r : List α} (h : clash p l r = false) {e : α × α × α}
    (he : e ∈ p.zip (l.zip r)) : merge3 e.1 e.2.1 e.2.2 ≠ none := by
  intro hnone
  have hnot := List.any_eq_false.1 h e he
  rw [hnone] at hnot
  exact hnot rfl

/-- **The two copies can be exchanged**, if every conflict is decided. -/
theorem reconcile_swap {c : Settling} {p l r : List α} (h : c ≠ .undecided ∨ clash p l r = false) :
    reconcile c.swap p r l = reconcile c p l r := by
  have hleft : ¬(c = .undecided ∧ clash p l r = true) := by
    rintro ⟨hc, hclash⟩
    rcases h with h | h
    · exact h hc
    · rw [h] at hclash
      cases hclash
  have hright : ¬(c.swap = .undecided ∧ clash p r l = true) := by
    rw [Settling.swap_eq_undecided_iff, clash_comm]
    exact hleft
  unfold reconcile
  rw [if_neg hleft, if_neg hright, zip_swapped, List.map_map]
  refine List.map_congr_left fun e he => settle_swap ?_
  exact h.imp_right fun hclash => merge3_ne_none_of_clash hclash he

theorem clash_iff {p l r : List α} {n : Nat} (d : α) (hp : p.length = n) (hl : l.length = n)
    (hr : r.length = n) :
    clash p l r = true ↔ ∃ i < n, merge3 (p.getD i d) (l.getD i d) (r.getD i d) = none := by
  unfold clash
  rw [List.any_eq_true]
  constructor
  · rintro ⟨e, he, hnone⟩
    obtain ⟨i, hi, rfl⟩ := List.getElem_of_mem he
    have hlen : i < n := by
      simp only [List.length_zip] at hi
      omega
    refine ⟨i, hlen, ?_⟩
    rw [List.getD_eq_getElem _ _ (hp ▸ hlen), List.getD_eq_getElem _ _ (hl ▸ hlen),
      List.getD_eq_getElem _ _ (hr ▸ hlen)]
    simpa [List.getElem_zip] using hnone
  · rintro ⟨i, hi, hnone⟩
    rw [List.getD_eq_getElem _ _ (hp ▸ hi), List.getD_eq_getElem _ _ (hl ▸ hi),
      List.getD_eq_getElem _ _ (hr ▸ hi)] at hnone
    have hlen : i < (p.zip (l.zip r)).length := by
      simp only [List.length_zip]
      omega
    refine ⟨(p.zip (l.zip r))[i], List.getElem_mem hlen, ?_⟩
    simpa [List.getElem_zip] using hnone

end

/-! ## Two enumerations of a partial bijection -/

section
variable {β : Type} {n m : Nat} {fwd bwd : Nat → Option Nat}

theorem nodup_pairs (f : Nat → Option Nat) (n : Nat) :
    ((List.range n).filterMap fun i => (f i).map fun j => (i, j)).Nodup := by
  refine List.Nodup.filterMap (fun i i' e hi hi' => ?_) List.nodup_range
  obtain ⟨j, -, rfl⟩ := Option.map_eq_some_iff.1 hi
  obtain ⟨j', -, he⟩ := Option.map_eq_some_iff.1 hi'
  exact (congrArg Prod.fst he).symm

/-- Going over one side or over the other, the same pairs are met. -/
theorem filterMap_pairs_perm (hiff : ∀ i j, fwd i = some j ↔ bwd j = some i)
    (hlt : ∀ i j, fwd i = some j → i < n ∧ j < m) (g : Nat → Nat → Option β) :
    ((List.range m).filterMap fun j => (bwd j).bind fun i => g i j).Perm
      ((List.range n).filterMap fun i => (fwd i).bind fun j => g i j) := by
  have hpairs : (((List.range m).filterMap fun j => (bwd j).map fun i => (j, i)).map Prod.swap).Perm
      ((List.range n).filterMap fun i => (fwd i).map fun j => (i, j)) := by
    refine (List.perm_ext_iff_of_nodup ((nodup_pairs bwd m).map Prod.swap_bijective.injective)
      (nodup_pairs fwd n)).2 ?_
    rintro ⟨i, j⟩
    simp only [List.mem_map, List.mem_filterMap, List.mem_range, Option.map_eq_some_iff,
      Prod.exists, Prod.swap_prod_mk, Prod.mk.injEq]
    constructor
    · rintro ⟨j', i', ⟨_, -, _, hb, rfl, rfl⟩, rfl, rfl⟩
      have hf := (hiff _ _).2 hb
      exact ⟨_, (hlt _ _ hf).1, _, hf, rfl, rfl⟩
    · rintro ⟨_, -, _, hf, rfl, rfl⟩
      exact ⟨_, _, ⟨_, (hlt _ _ hf).2, _, (hiff _ _).1 hf, rfl, rfl⟩, rfl, rfl⟩
  have hrun := hpairs.filterMap fun e => g e.1 e.2
  rw [List.filterMap_map, List.filterMap_filterMap, List.filterMap_filterMap] at hrun
  have hbwd : ((List.range m).filterMap fun j => (bwd j).bind fun i => g i j) =
      (List.range m).filterMap fun j =>
      ((bwd j).map fun i => (j, i)).bind ((fun e => g e.1 e.2) ∘ Prod.swap) := by
    refine List.filterMap_congr fun j _ => ?_
    cases bwd j <;> rfl
  have hfwd : ((List.range n).filterMap fun i => (fwd i).bind fun j => g i j) =
      (List.range n).filterMap fun i => ((fwd i).map fun j => (i, j)).bind fun e => g e.1 e.2 := by
    refine List.filterMap_congr fun i _ => ?_
    cases fwd i <;> rfl
  rw [hbwd, hfwd]
  exact hrun

/-- A list of two kinds of items, by kind. -/
theorem filterMap_kinds_perm {f g h : β → Option α} (hkinds : ∀ x, (h x = f x ∧ g x = none) ∨
    (f x = none ∧ h x = g x))
    (xs : List β) : (xs.filterMap h).Perm (xs.filterMap f ++ xs.filterMap g) := by
  induction xs with
  | nil => exact List.Perm.refl _
  | cons x xs ih =>
    rcases hkinds x with ⟨hf, hg⟩ | ⟨hf, hg⟩
    · cases hx : f x with
      | none =>
        rw [List.filterMap_cons_none hx, List.filterMap_cons_none hg,
          List.filterMap_cons_none (hf.trans hx)]
        exact ih
      | some y =>
        rw [List.filterMap_cons_some hx, List.filterMap_cons_none hg,
          List.filterMap_cons_some (hf.trans hx)]
        exact ih.cons y
    · cases hx : g x with
      | none =>
        rw [List.filterMap_cons_none hx, List.filterMap_cons_none hf,
          List.filterMap_cons_none (hg.trans hx)]
        exact ih
      | some y =>
        rw [List.filterMap_cons_some hx, List.filterMap_cons_none hf,
          List.filterMap_cons_some (hg.trans hx)]
        exact (ih.cons y).trans List.perm_middle.symm

end

end Coopy.Lib
