import Coopy.Lib.KeyedDiff
import Mathlib.Data.List.GetD

/-!
# Rows of values and NULLs

A row is a list of values, `none` for NULL; two of them are compared with `IS`, for which NULL is
NULL. The two selections that compare tables, over columns given by their places, find what the
tables differ in:

    rows of t without a partner in other = unmatched (project ks) t other       (selectUnmatched_eq)
    joined rows that differ = mismatched (project ks) t other                  (selectMismatched_eq)
-/

namespace Coopy.Lib

namespace Relation

variable {α : Type}

abbrev Row (α : Type) := List (Option α)

def value (r : Row α) (i : Nat) : Option α := r.getD i none

/-- The values of a row in some columns. -/
def project (is : List Nat) (r : Row α) : Row α := is.map (value r)

/-- `SELECT cols FROM t WHERE NOT EXISTS (SELECT 1 FROM other WHERE t.ks IS other.ks)`. -/
def selectUnmatched [DecidableEq α] (cols ks : List Nat) (t : List (Row α)) (ks' : List Nat)
    (other : List (Row α)) : List (Row α) :=
  (t.filter fun r => !other.any fun s => decide (project ks' s = project ks r)).map (project cols)

/-- Two rows with their values in turns. -/
def interleave : Row α → Row α → Row α
  | a :: as, b :: bs => a :: b :: interleave as bs
  | _, _ => []

/-- `SELECT t.cols, other.cols FROM t INNER JOIN other ON t.ks IS other.ks WHERE t.ds IS NOT
other.ds`. -/
def selectMismatched [DecidableEq α] (cols ks ds : List Nat) (t : List (Row α))
    (cols' ks' ds' : List Nat) (other : List (Row α)) :
    List (Row α) :=
  t.flatMap fun r =>
    (other.filter fun s => decide (project ks r = project ks' s) &&
      decide (project ds r ≠ project ds' s)).map fun s =>
      interleave (project cols r) (project cols' s)

theorem project_range {n : Nat} {r : Row α} (h : r.length = n) : project (List.range n) r = r := by
  unfold project
  refine List.ext_getElem (by simp [h]) fun i hi hi' => ?_
  rw [List.getElem_map, List.getElem_range, value, List.getD_eq_getElem _ _ hi']

/-- Rows that agree in all columns are one row. -/
theorem eq_of_project {n : Nat} {l : List Nat} (hcover : ∀ i < n, i ∈ l) {r s : Row α}
    (hr : r.length = n) (hs : s.length = n) (h : project l r = project l s) : r = s := by
  have hvalue : ∀ i ∈ l, value r i = value s i := List.map_inj_left.1 h
  refine List.ext_getElem (hr.trans hs.symm) fun i hi hi' => ?_
  have := hvalue i (hcover i (hr ▸ hi))
  rwa [value, value, List.getD_eq_getElem _ _ hi, List.getD_eq_getElem _ _ hi'] at this

theorem selectUnmatched_eq [DecidableEq α] {n : Nat} (ks : List Nat) {t : List (Row α)}
    (ht : ∀ r ∈ t, r.length = n) (other : List (Row α)) :
    selectUnmatched (List.range n) ks t ks other = unmatched (project ks) t other := by
  unfold selectUnmatched unmatched
  conv_rhs => rw [← List.map_id (t.filter _)]
  exact List.map_congr_left fun r hr => project_range (ht r (List.mem_filter.1 hr).1)

theorem selectMismatched_eq [DecidableEq α] {n : Nat} {ks ds : List Nat} (hcover : ∀ i < n, i ∈ ks ∨
    i ∈ ds) {t other : List (Row α)}
    (ht : ∀ r ∈ t, r.length = n) (ho : ∀ r ∈ other, r.length = n) :
    selectMismatched (List.range n) ks ds t (List.range n) ks ds other =
      (mismatched (project ks) t other).map fun p => interleave p.1 p.2 := by
  unfold selectMismatched mismatched
  rw [List.map_flatMap]
  refine List.flatMap_congr fun r hr => ?_
  have hfilter :
    (other.filter fun s => decide (project ks r = project ks s) &&
      decide (project ds r ≠ project ds s)) =
      other.filter fun s => decide (project ks r = project ks s) && decide (r ≠ s) := by
    refine List.filter_congr fun s hs => ?_
    by_cases hk : project ks r = project ks s
    · have hboth : project ds r = project ds s ↔ r = s := by
        refine ⟨fun hd => ?_, fun h => h ▸ rfl⟩
        refine eq_of_project (l := ks ++ ds) (fun i hi => List.mem_append.2 (hcover i hi))
          (ht r hr) (ho s hs) ?_
        simpa [project] using congrArg₂ (· ++ ·) hk hd
      simp [hk, hboth]
    · simp [hk]
  rw [hfilter, List.map_map]
  refine List.map_congr_left fun s hs => ?_
  show interleave _ _ = interleave r s
  rw [project_range (ht r hr), project_range (ho s (List.mem_filter.1 hs).1)]

/-- The two rows of an interleaved one. -/
theorem getD_interleave {r s : Row α} (h : r.length = s.length) (i : Nat) :
    (interleave r s).getD (2 * i) none = value r i ∧ (interleave r s).getD (2 * i + 1) none =
    value s i := by
  induction r generalizing s i with
  | nil =>
    cases s with
    | nil => simp [interleave, value]
    | cons b bs => cases h
  | cons a as ih =>
    cases s with
    | nil => cases h
    | cons b bs =>
      cases i with
      | zero => simp [interleave, value]
      | succ i =>
        have := ih (Nat.succ.inj h) i
        simpa [interleave, value, Nat.mul_add] using this

end Relation

end Coopy.Lib
