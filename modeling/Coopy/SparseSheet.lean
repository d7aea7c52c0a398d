import Coopy.Lib.Containers

/-!
# `SparseSheet`: a sheet of mostly zero cells

Cells are kept in a map under the key `y * w + x`; a cell that is not in the map
reads as `zero`.  (Reading through the non-const accessor also enters `zero`
under the key; that changes no later read, so reads are pure here.)  The row and
column occupancy sets belong to `getCellsInRow` and `getCellsInCol`, which
`Viterbi` does not use.

    x < w → x' < w → (s.write x y v).cell x' y' = if x' = x ∧ y' = y then v else s.cell x' y'
                                                                       (SparseSheet.cell_write)
-/

namespace Coopy

open Lib

structure SparseSheet (α : Type) where
  data : AssocMap Nat α
  w : Nat
  h : Nat
  zero : α

namespace SparseSheet

variable {α : Type}

/-- A sheet before its first `resize`. -/
def empty (zero : α) : SparseSheet α := ⟨[], 0, 0, zero⟩

def key (s : SparseSheet α) (x y : Nat) : Nat := y * s.w + x

def cell (s : SparseSheet α) (x y : Nat) : α := (s.data.get? (s.key x y)).getD s.zero

/-- `cell(x,y) = v`. -/
def write (s : SparseSheet α) (x y : Nat) (v : α) : SparseSheet α :=
  { s with data := s.data.set (s.key x y) v }

def resize (_ : SparseSheet α) (w h : Nat) (zero : α) : SparseSheet α := ⟨[], w, h, zero⟩

def nonDestructiveResize (s : SparseSheet α) (w h : Nat) (zero : α) : SparseSheet α :=
  { s with w := w, h := h, zero := zero }

/-- The key tells the cells inside the width apart. -/
theorem key_inj (s : SparseSheet α) {x y x' y' : Nat} (hx : x < s.w) (hx' : x' < s.w)
    (h : s.key x y = s.key x' y') : x = x' ∧ y = y' := by
  unfold key at h
  have hmod : (y * s.w + x) % s.w = (y' * s.w + x') % s.w := by rw [h]
  have hdiv : (y * s.w + x) / s.w = (y' * s.w + x') / s.w := by rw [h]
  have hw : 0 < s.w := by omega
  rw [Nat.mul_comm y, Nat.mul_comm y', Nat.mul_add_mod, Nat.mul_add_mod, Nat.mod_eq_of_lt hx,
    Nat.mod_eq_of_lt hx'] at hmod
  rw [Nat.mul_comm y, Nat.mul_comm y', Nat.mul_add_div hw, Nat.mul_add_div hw, Nat.div_eq_of_lt hx,
    Nat.div_eq_of_lt hx'] at hdiv
  omega

theorem cell_write (s : SparseSheet α) {x x' : Nat} (y y' : Nat) (v : α) (hx : x < s.w)
    (hx' : x' < s.w) :
    (s.write x y v).cell x' y' = if x' = x ∧ y' = y then v else s.cell x' y' := by
  show ((s.data.set (s.key x y) v).get? (s.key x' y')).getD s.zero = _
  rw [AssocMap.get?_set]
  by_cases h : x' = x ∧ y' = y
  · obtain ⟨rfl, rfl⟩ := h
    simp
  · rw [if_neg h, if_neg (fun hk => h (s.key_inj hx' hx hk))]
    rfl

/-! ## Cells that are set -/

/-- `pcell`: the cell if it is set. -/
def pcell (s : SparseSheet α) (x y : Nat) : Option α := s.data.get? (s.key x y)

def remove (s : SparseSheet α) (x y : Nat) : SparseSheet α :=
  { s with data := s.data.filter fun e => e.1 ≠ s.key x y }

def clear (s : SparseSheet α) : SparseSheet α := { s with data := [] }

/-- A write reaches every cell with the key. -/
theorem pcell_write (s : SparseSheet α) (x y x' y' : Nat) (v : α) :
    (s.write x y v).pcell x' y' = if s.key x' y' = s.key x y then some v else s.pcell x' y' :=
  AssocMap.get?_set ..

theorem pcell_remove (s : SparseSheet α) (x y x' y' : Nat) :
    (s.remove x y).pcell x' y' = if s.key x' y' = s.key x y then none else s.pcell x' y' := by
  have hfilter := AssocMap.get?_filter s.data (fun k => decide (k ≠ s.key x y)) (s.key x' y')
  show AssocMap.get? (s.data.filter fun e => e.1 ≠ s.key x y) (s.key x' y') = _
  rw [hfilter]
  by_cases h : s.key x' y' = s.key x y
  · simp [h]
  · simp [h, pcell]

end SparseSheet

end Coopy
