import Mathlib.Data.List.GetD
import Mathlib.Data.List.Range
import Mathlib.Tactic.Common

/-!
# `OrderResult`: which rows or columns of two tables correspond

An `OrderResult` holds, for each index of one table, the index of its partner in
the other, `-1` where it has none and `-2` where the index was trimmed away.
`Matching n m` is an `OrderResult` that is a partial bijection between the
indices below `n` and below `m`, which is what the comparison hands over.

    M.fwd i = some j ↔ M.bwd j = some i                                 (Matching.fwd_eq_some_iff)
    M.a2b i = j ↔ M.fwd i = some j                                          (Matching.a2b_eq_iff)
-/

namespace Coopy

structure OrderResult where
  a2bSheet : List Int
  b2aSheet : List Int
deriving DecidableEq, Repr

namespace OrderResult

/-- The body shared by `a2b` and `b2a`. -/
def lookup (sheet : List Int) (x : Int) : Int :=
  if x = -2 then -2
  else if x < 0 ∨ x ≥ sheet.length then -1
  else sheet.getD x.toNat (-1)

def a2b (o : OrderResult) (x : Int) : Int := lookup o.a2bSheet x

def b2a (o : OrderResult) (x : Int) : Int := lookup o.b2aSheet x

def alen (o : OrderResult) : Nat := o.a2bSheet.length

def blen (o : OrderResult) : Nat := o.b2aSheet.length

/-- The run of `pre` at the head of a sheet becomes `post`. -/
def replaceRun (pre post : Int) : List Int → List Int
  | [] => []
  | x :: xs => if x = pre then post :: replaceRun pre post xs else x :: xs

def trimHead (o : OrderResult) (pre post : Int) : OrderResult :=
  ⟨replaceRun pre post o.a2bSheet, replaceRun pre post o.b2aSheet⟩

def trimTail (o : OrderResult) (pre post : Int) : OrderResult :=
  ⟨(replaceRun pre post o.a2bSheet.reverse).reverse,
    (replaceRun pre post o.b2aSheet.reverse).reverse⟩

theorem lookup_natCast (sheet : List Int) (i : Nat) : lookup sheet i = sheet.getD i (-1) := by
  unfold lookup
  rw [if_neg (by omega)]
  by_cases h : i < sheet.length
  · rw [if_neg (by omega), Int.toNat_natCast]
  · rw [if_pos (by omega), List.getD_eq_default _ _ (by omega)]

end OrderResult

/-- What a unit of the merge is, from the local side. -/
inductive MatchStatus
  | none
  | insert
  | delete
  | preserve
deriving DecidableEq, Repr

/-- A row or column of the merge, with its index on each side. -/
structure MatchUnit where
  pivotUnit : Int
  localUnit : Int
  remoteUnit : Int
  deleted : Bool
  status : MatchStatus
deriving DecidableEq, Repr

/-- A partial bijection between the indices below `n` and those below `m`. -/
structure Matching (n m : Nat) extends OrderResult where
  alen_eq : a2bSheet.length = n
  blen_eq : b2aSheet.length = m
  a2b_range : ∀ x ∈ a2bSheet, x = -1 ∨ (0 ≤ x ∧ x < m)
  b2a_range : ∀ x ∈ b2aSheet, x = -1 ∨ (0 ≤ x ∧ x < n)
  paired : ∀ i < n, ∀ j < m, a2bSheet.getD i (-1) = (j : Int) ↔ b2aSheet.getD j (-1) = (i : Int)

namespace Matching

variable {n m : Nat} (M : Matching n m)

/-- The partner of a left index. -/
def fwd (i : Nat) : Option Nat := if M.a2b i < 0 then none else some (M.a2b i).toNat

/-- The partner of a right index. -/
def bwd (j : Nat) : Option Nat := if M.b2a j < 0 then none else some (M.b2a j).toNat

theorem a2b_cases (i : Nat) : M.a2b i = -1 ∨ (i < n ∧ 0 ≤ M.a2b i ∧ M.a2b i < m) := by
  unfold OrderResult.a2b
  rw [OrderResult.lookup_natCast]
  by_cases h : i < M.a2bSheet.length
  · rw [List.getD_eq_getElem _ _ h]
    have hi : i < n := by rw [← M.alen_eq]; exact h
    exact (M.a2b_range _ (List.getElem_mem h)).imp id (fun hx => ⟨hi, hx⟩)
  · left
    exact List.getD_eq_default _ _ (by omega)

theorem b2a_cases (j : Nat) : M.b2a j = -1 ∨ (j < m ∧ 0 ≤ M.b2a j ∧ M.b2a j < n) := by
  unfold OrderResult.b2a
  rw [OrderResult.lookup_natCast]
  by_cases h : j < M.b2aSheet.length
  · rw [List.getD_eq_getElem _ _ h]
    have hj : j < m := by rw [← M.blen_eq]; exact h
    exact (M.b2a_range _ (List.getElem_mem h)).imp id (fun hx => ⟨hj, hx⟩)
  · left
    exact List.getD_eq_default _ _ (by omega)

theorem a2b_eq_iff (i j : Nat) : M.a2b i = j ↔ M.fwd i = some j := by
  unfold fwd
  have := M.a2b_cases i
  by_cases h : M.a2b i < 0
  · rw [if_pos h]
    simp only [reduceCtorEq, iff_false]
    omega
  · rw [if_neg h, Option.some.injEq]
    omega

theorem b2a_eq_iff (j i : Nat) : M.b2a j = i ↔ M.bwd j = some i := by
  unfold bwd
  have := M.b2a_cases j
  by_cases h : M.b2a j < 0
  · rw [if_pos h]
    simp only [reduceCtorEq, iff_false]
    omega
  · rw [if_neg h, Option.some.injEq]
    omega

theorem a2b_eq_neg_one_iff (i : Nat) : M.a2b i = -1 ↔ M.fwd i = none := by
  unfold fwd
  have := M.a2b_cases i
  by_cases h : M.a2b i < 0
  · rw [if_pos h]
    simp only [iff_true]
    omega
  · rw [if_neg h]
    simp only [reduceCtorEq, iff_false]
    omega

theorem b2a_eq_neg_one_iff (j : Nat) : M.b2a j = -1 ↔ M.bwd j = none := by
  unfold bwd
  have := M.b2a_cases j
  by_cases h : M.b2a j < 0
  · rw [if_pos h]
    simp only [iff_true]
    omega
  · rw [if_neg h]
    simp only [reduceCtorEq, iff_false]
    omega

theorem fwd_lt {i j : Nat} (h : M.fwd i = some j) : i < n ∧ j < m := by
  have h1 := (M.a2b_eq_iff i j).mpr h
  have h2 := M.a2b_cases i
  omega

theorem bwd_lt {i j : Nat} (h : M.bwd j = some i) : i < n ∧ j < m := by
  have h1 := (M.b2a_eq_iff j i).mpr h
  have h2 := M.b2a_cases j
  omega

theorem fwd_eq_some_iff (i j : Nat) : M.fwd i = some j ↔ M.bwd j = some i := by
  have key : i < n → j < m → (M.fwd i = some j ↔ M.bwd j = some i) := fun hi hj => by
    rw [← M.a2b_eq_iff, ← M.b2a_eq_iff]
    unfold OrderResult.a2b OrderResult.b2a
    rw [OrderResult.lookup_natCast, OrderResult.lookup_natCast]
    exact M.paired i hi j hj
  constructor
  · intro h
    obtain ⟨hi, hj⟩ := M.fwd_lt h
    exact (key hi hj).mp h
  · intro h
    obtain ⟨hi, hj⟩ := M.bwd_lt h
    exact (key hi hj).mpr h

theorem fwd_inj {i i' j : Nat} (h : M.fwd i = some j) (h' : M.fwd i' = some j) : i = i' := by
  rw [fwd_eq_some_iff] at h h'
  rw [h] at h'
  exact Option.some.inj h'

theorem bwd_inj {i j j' : Nat} (h : M.bwd j = some i) (h' : M.bwd j' = some i) : j = j' := by
  rw [← fwd_eq_some_iff] at h h'
  rw [h] at h'
  exact Option.some.inj h'

theorem blen_toOrderResult : M.toOrderResult.blen = m := M.blen_eq

/-- Each index matched with itself. -/
def identity (n : Nat) : Matching n n where
  a2bSheet := (List.range n).map Int.ofNat
  b2aSheet := (List.range n).map Int.ofNat
  alen_eq := by simp
  blen_eq := by simp
  a2b_range := fun x hx => by
    obtain ⟨i, hi, rfl⟩ := List.mem_map.mp hx
    right
    rw [List.mem_range] at hi
    simp only [Int.ofNat_eq_natCast]
    omega
  b2a_range := fun x hx => by
    obtain ⟨i, hi, rfl⟩ := List.mem_map.mp hx
    right
    rw [List.mem_range] at hi
    simp only [Int.ofNat_eq_natCast]
    omega
  paired := fun i hi j hj => by
    simp only [List.getD_eq_getElem?_getD, List.getElem?_map, List.getElem?_range hi,
      List.getElem?_range hj, Option.map_some, Option.getD_some, Int.ofNat_eq_natCast]
    omega

theorem identity_fwd (n i : Nat) : (identity n).fwd i = if i < n then some i else none := by
  by_cases h : i < n
  · rw [if_pos h, ← a2b_eq_iff]
    unfold OrderResult.a2b
    rw [OrderResult.lookup_natCast]
    simp [identity, List.getD_eq_getElem?_getD, h]
  · rw [if_neg h, ← a2b_eq_neg_one_iff]
    unfold OrderResult.a2b
    rw [OrderResult.lookup_natCast]
    exact List.getD_eq_default _ _ (by simp [identity]; omega)

theorem identity_bwd (n i : Nat) : (identity n).bwd i = if i < n then some i else none := by
  by_cases h : i < n
  · rw [if_pos h, ← fwd_eq_some_iff, identity_fwd, if_pos h]
  · rw [if_neg h]
    cases hb : (identity n).bwd i with
    | none => rfl
    | some j => exact absurd ((identity n).bwd_lt hb).2 h

end Matching

end Coopy
