import Coopy.SparseSheet

/-!
# `SparseSheet` with its occupancy sets, and the map it stands for

`row[y]` holds the columns that were entered in row `y`, `col[x]` the rows that were entered in
column `x`. `Cells` is the map a sheet is meant to be: what was written last at each place and not
removed since. `remove` takes a cell out of `data` and leaves both sets alone;
`nonDestructiveResize` leaves `data` under keys that were made with the old width.

    every cell reads as the map has it, and the sets list its places, all through the run
      ↔ only empty places are removed, and a new width finds no cell below row 0      (readsAll_iff)
-/

namespace Coopy

open Lib

/-- A `SparseSheet` with the sets of the places that were entered. -/
structure OccupiedSheet (α : Type) extends SparseSheet α where
  row : AssocMap Nat (List Nat)
  col : AssocMap Nat (List Nat)

/-- `row[k].insert(x)`, where a set that is not there yet is empty. -/
def insertAt (m : AssocMap Nat (List Nat)) (k x : Nat) : AssocMap Nat (List Nat) :=
  m.set k (setInsert x ((m.get? k).getD []))

theorem get?_insertAt (m : AssocMap Nat (List Nat)) (k k' x : Nat) :
    ((insertAt m k x).get? k').getD [] =
      if k' = k then setInsert x ((m.get? k').getD []) else (m.get? k').getD [] := by
  unfold insertAt
  rw [AssocMap.get?_set]
  by_cases h : k' = k
  · subst h
    simp
  · simp [h]

namespace OccupiedSheet

variable {α : Type}

def resize (_ : OccupiedSheet α) (w h : Nat) (zero : α) : OccupiedSheet α :=
  ⟨⟨[], w, h, zero⟩, [], []⟩

def nonDestructiveResize (s : OccupiedSheet α) (w h : Nat) (zero : α) : OccupiedSheet α :=
  { s with w := w, h := h, zero := zero }

/-- What the non-const `cell` does to the sheet: a place that is not there is entered with the
zero. -/
def enter (s : OccupiedSheet α) (x y : Nat) : OccupiedSheet α :=
  if (s.pcell x y).isSome then s
  else { s with
    data := s.data.set (s.key x y) s.zero
    row := insertAt s.row y x
    col := insertAt s.col x y }

/-- `cell(x,y) = v`. -/
def write (s : OccupiedSheet α) (x y : Nat) (v : α) : OccupiedSheet α :=
  { s.enter x y with data := (s.enter x y).data.set (s.key x y) v }

def remove (s : OccupiedSheet α) (x y : Nat) : OccupiedSheet α :=
  { s with toSparseSheet := s.toSparseSheet.remove x y }

def getCellsInRow (s : OccupiedSheet α) (y : Nat) : List Nat := (s.row.get? y).getD []

def getCellsInCol (s : OccupiedSheet α) (x : Nat) : List Nat := (s.col.get? x).getD []

end OccupiedSheet

/-! ## The map -/

/-- What a sheet of `w` by `h` cells is meant to hold. -/
@[ext] structure Cells (α : Type) where
  w : Nat
  h : Nat
  zero : α
  at? : Nat → Nat → Option α

inductive SparseOp (α : Type) where
  | write (x y : Nat) (v : α)
  | remove (x y : Nat)
  | nonDestructiveResize (w h : Nat) (zero : α)

namespace Cells

variable {α : Type}

def blank (w h : Nat) (zero : α) : Cells α := ⟨w, h, zero, fun _ _ => none⟩

/-- The place `(x, y)` takes the value `v`. -/
def put (m : Cells α) (x y : Nat) (v : Option α) : Cells α :=
  { m with at? := fun x' y' => if x' = x ∧ y' = y then v else m.at? x' y' }

@[simp] theorem put_w (m : Cells α) (x y : Nat) (v : Option α) : (m.put x y v).w = m.w := rfl

theorem put_at? (m : Cells α) (x y x' y' : Nat) (v : Option α) :
    (m.put x y v).at? x' y' = if x' = x ∧ y' = y then v else m.at? x' y' := rfl

/-- Taking an empty place out leaves the map. -/
theorem put_none {m : Cells α} {x y : Nat} (h : m.at? x y = none) : m.put x y none = m := by
  ext x' y' v
  · rfl
  · rfl
  · rfl
  · rw [put_at?]
    split
    · next hs => rw [hs.1, hs.2, h]
    · rfl

def step (m : Cells α) : SparseOp α → Cells α
  | .write x y v => m.put x y (some v)
  | .remove x y => m.put x y none
  | .nonDestructiveResize w h zero => { m with w := w, h := h, zero := zero }

/-- Coordinates are inside the bounds, and new bounds contain the cells. -/
def Valid (m : Cells α) : SparseOp α → Prop
  | .write x y _ => x < m.w ∧ y < m.h
  | .remove x y => x < m.w ∧ y < m.h
  | .nonDestructiveResize w h _ => ∀ x y, (m.at? x y).isSome → x < w ∧ y < h

/-- Only an empty place is removed, and a new width finds no cell below row 0. -/
def Keeps (m : Cells α) : SparseOp α → Prop
  | .write _ _ _ => True
  | .remove x y => m.at? x y = none
  | .nonDestructiveResize w _ _ => w = m.w ∨ ∀ x y, (m.at? x y).isSome → y = 0

end Cells

namespace OccupiedSheet

variable {α : Type}

def step (s : OccupiedSheet α) : SparseOp α → OccupiedSheet α
  | .write x y v => s.write x y v
  | .remove x y => s.remove x y
  | .nonDestructiveResize w h zero => s.nonDestructiveResize w h zero

/-- Inside the bounds the sheet reads as the map, and its sets list the places of the map, in
order. -/
structure Reads (s : OccupiedSheet α) (m : Cells α) : Prop where
  cell : ∀ x < m.w, ∀ y < m.h, s.cell x y = (m.at? x y).getD m.zero
  pcell : ∀ x < m.w, ∀ y < m.h, s.pcell x y = m.at? x y
  getCellsInRow : ∀ y < m.h, s.getCellsInRow y = (List.range m.w).filter fun x => (m.at? x y).isSome
  getCellsInCol : ∀ x < m.w, s.getCellsInCol x = (List.range m.h).filter fun y => (m.at? x y).isSome

/-! ## The invariant -/

/-- `data` has the cells of the map under the keys of the width in use, and the sets have their
places. -/
structure Holds (s : OccupiedSheet α) (m : Cells α) : Prop where
  w_eq : s.w = m.w
  h_eq : s.h = m.h
  zero_eq : s.zero = m.zero
  inside : ∀ x y, (m.at? x y).isSome → x < m.w ∧ y < m.h
  data : ∀ k v, s.data.get? k = some v ↔ ∃ x y, m.at? x y = some v ∧ k = y * m.w + x
  mem_row : ∀ x y, x ∈ s.getCellsInRow y ↔ (m.at? x y).isSome
  mem_col : ∀ x y, y ∈ s.getCellsInCol x ↔ (m.at? x y).isSome
  row_sorted : ∀ y, (s.getCellsInRow y).Pairwise (· < ·)
  col_sorted : ∀ x, (s.getCellsInCol x).Pairwise (· < ·)

theorem holds_resize (s : OccupiedSheet α) (w h : Nat) (zero : α) :
    Holds (s.resize w h zero) (Cells.blank w h zero) where
  w_eq := rfl
  h_eq := rfl
  zero_eq := rfl
  inside := fun x y hs => by simp [Cells.blank] at hs
  data := fun k v => by simp [resize, Cells.blank]
  mem_row := fun x y => by simp [resize, getCellsInRow, Cells.blank]
  mem_col := fun x y => by simp [resize, getCellsInCol, Cells.blank]
  row_sorted := fun y => List.Pairwise.nil
  col_sorted := fun x => List.Pairwise.nil

section
variable {s : OccupiedSheet α} {m : Cells α}

/-- Inside the width the key of a place belongs to no other cell. -/
theorem Holds.pcell (H : Holds s m) {x : Nat} (hx : x < m.w) (y : Nat) :
    s.pcell x y = m.at? x y := by
  have hkey : s.key x y = y * m.w + x := by rw [SparseSheet.key, H.w_eq]
  cases hat : m.at? x y with
  | some v => exact (H.data _ v).2 ⟨x, y, hat, hkey⟩
  | none =>
    refine Option.eq_none_iff_forall_not_mem.2 fun v hv => ?_
    obtain ⟨x', y', hat', hk⟩ := (H.data _ v).1 hv
    have hx' : x' < m.w := (H.inside x' y' (by rw [hat']; rfl)).1
    have hsame : s.key x y = s.key x' y' := by rw [hk, SparseSheet.key, H.w_eq]
    obtain ⟨rfl, rfl⟩ := s.key_inj (by rwa [H.w_eq]) (by rwa [H.w_eq]) hsame
    rw [hat] at hat'
    cases hat'

/-- A sorted list of places below `n` is the filter of all of them. -/
theorem eq_filter_range {xs : List Nat} (hs : xs.Pairwise (· < ·)) (n : Nat) (p : Nat → Bool)
    (hp : ∀ x, x ∈ xs ↔ p x = true) (hn : ∀ x, p x = true → x < n) :
    xs = (List.range n).filter p := by
  have hr : ((List.range n).filter p).Pairwise (· < ·) :=
    List.Pairwise.filter _ List.pairwise_lt_range
  refine List.Perm.eq_of_pairwise (fun a b _ _ hab hba => by omega) hs hr ?_
  refine (List.perm_ext_iff_of_nodup (hs.imp fun h => Nat.ne_of_lt h)
    (hr.imp fun h => Nat.ne_of_lt h)).2 fun x => ?_
  rw [hp, List.mem_filter, List.mem_range]
  exact ⟨fun h => ⟨hn x h, h⟩, And.right⟩

theorem Holds.reads (H : Holds s m) : Reads s m where
  pcell := fun x hx y _ => H.pcell hx y
  cell := fun x hx y _ => by
    have hp : s.cell x y = (s.pcell x y).getD s.zero := rfl
    rw [hp, H.pcell hx, H.zero_eq]
  getCellsInRow := fun y _ =>
    eq_filter_range (H.row_sorted y) m.w _ (fun x => H.mem_row x y) fun x hx => (H.inside x y hx).1
  getCellsInCol := fun x _ =>
    eq_filter_range (H.col_sorted x) m.h _ (fun y => H.mem_col x y) fun y hy => (H.inside x y hy).2

end

/-! ## Each operation keeps it -/

section
variable {s : OccupiedSheet α} {m : Cells α}

theorem enter_w (s : OccupiedSheet α) (x y : Nat) :
    (s.enter x y).w = s.w ∧ (s.enter x y).h = s.h ∧ (s.enter x y).zero = s.zero := by
  unfold enter
  split
  · exact ⟨rfl, rfl, rfl⟩
  · exact ⟨rfl, rfl, rfl⟩

/-- What a write leaves under each key. -/
theorem get?_write (s : OccupiedSheet α) (x y k : Nat) (v : α) :
    (s.write x y v).data.get? k = if k = s.key x y then some v else s.data.get? k := by
  show ((s.enter x y).data.set (s.key x y) v).get? k = _
  rw [AssocMap.get?_set]
  by_cases hk : k = s.key x y
  · simp [hk]
  · rw [if_neg hk, if_neg hk]
    unfold enter
    split
    · rfl
    · exact AssocMap.get?_set_ne _ _ hk

/-- A write enters its place in the row, where it is there before if the cell was set. -/
theorem getCellsInRow_write (H : Holds s m) {x y : Nat} (hx : x < m.w) (v : α) (y' : Nat) :
    (s.write x y v).getCellsInRow y' =
      if (m.at? x y).isSome then s.getCellsInRow y'
      else if y' = y then setInsert x (s.getCellsInRow y') else s.getCellsInRow y' := by
  show (((s.enter x y).row.get? y').getD []) = _
  unfold enter
  rw [H.pcell hx]
  split
  · rfl
  · exact get?_insertAt _ _ _ _

theorem getCellsInCol_write (H : Holds s m) {x y : Nat} (hx : x < m.w) (v : α) (x' : Nat) :
    (s.write x y v).getCellsInCol x' =
      if (m.at? x y).isSome then s.getCellsInCol x'
      else if x' = x then setInsert y (s.getCellsInCol x') else s.getCellsInCol x' := by
  show (((s.enter x y).col.get? x').getD []) = _
  unfold enter
  rw [H.pcell hx]
  split
  · rfl
  · exact get?_insertAt _ _ _ _

theorem isSome_put (m : Cells α) (x y x' y' : Nat) (v : α) :
    ((m.put x y (some v)).at? x' y').isSome ↔ x' = x ∧ y' = y ∨ (m.at? x' y').isSome := by
  rw [Cells.put_at?]
  split
  · next h => simp [h]
  · next h => simp [h]

theorem holds_write (H : Holds s m) {x y : Nat} (hx : x < m.w) (hy : y < m.h) (v : α) :
    Holds (s.write x y v) (m.put x y (some v)) where
  w_eq := (s.enter_w x y).1.trans H.w_eq
  h_eq := (s.enter_w x y).2.1.trans H.h_eq
  zero_eq := (s.enter_w x y).2.2.trans H.zero_eq
  inside := fun x' y' h => by
    rcases (isSome_put m x y x' y' v).1 h with ⟨rfl, rfl⟩ | h
    · exact ⟨hx, hy⟩
    · exact H.inside x' y' h
  data := fun k u => by
    have hkey : s.key x y = y * m.w + x := by rw [SparseSheet.key, H.w_eq]
    rw [get?_write, hkey]
    constructor
    · intro h
      split at h
      · next hk =>
        exact ⟨x, y, by rw [Cells.put_at?, if_pos ⟨rfl, rfl⟩, h], hk⟩
      · next hk =>
        obtain ⟨x', y', hat, rfl⟩ := (H.data k u).1 h
        exact ⟨x', y', by rw [Cells.put_at?, if_neg (by rintro ⟨rfl, rfl⟩; exact hk rfl), hat], rfl⟩
    · rintro ⟨x', y', hat, rfl⟩
      rw [Cells.put_at?] at hat
      rw [Cells.put_w]
      by_cases hsame : x' = x ∧ y' = y
      · rw [if_pos hsame] at hat
        rw [hsame.1, hsame.2, if_pos rfl, hat]
      · rw [if_neg hsame] at hat
        have hx' : x' < m.w := (H.inside x' y' (by rw [hat]; rfl)).1
        have hne : y' * m.w + x' ≠ y * m.w + x := fun hk => hsame
          (s.key_inj (by rwa [H.w_eq]) (by rwa [H.w_eq])
            (by rw [SparseSheet.key, SparseSheet.key, H.w_eq, hk]))
        rw [if_neg hne]
        exact (H.data _ u).2 ⟨x', y', hat, rfl⟩
  mem_row := fun x' y' => by
    rw [getCellsInRow_write H hx, isSome_put]
    split
    · next hs =>
      rw [H.mem_row]
      exact ⟨Or.inr, fun h => h.elim (fun e => by rw [e.1, e.2]; exact hs) id⟩
    · split
      · next hyy => rw [mem_setInsert, H.mem_row, hyy]; simp
      · next hyy => rw [H.mem_row]; simp [hyy]
  mem_col := fun x' y' => by
    rw [getCellsInCol_write H hx, isSome_put]
    split
    · next hs =>
      rw [H.mem_col]
      exact ⟨Or.inr, fun h => h.elim (fun e => by rw [e.1, e.2]; exact hs) id⟩
    · split
      · next hxx => rw [mem_setInsert, H.mem_col, hxx]; simp
      · next hxx => rw [H.mem_col]; simp [hxx]
  row_sorted := fun y' => by
    rw [getCellsInRow_write H hx]
    split
    · exact H.row_sorted y'
    · split
      · exact setInsert_pairwise x _ (H.row_sorted y')
      · exact H.row_sorted y'
  col_sorted := fun x' => by
    rw [getCellsInCol_write H hx]
    split
    · exact H.col_sorted x'
    · split
      · exact setInsert_pairwise y _ (H.col_sorted x')
      · exact H.col_sorted x'

/-- Removing an empty place changes nothing. -/
theorem holds_remove (H : Holds s m) {x y : Nat} (hx : x < m.w) (hnone : m.at? x y = none) :
    Holds (s.remove x y) (m.put x y none) := by
  have hdata : ∀ k, (s.remove x y).data.get? k = s.data.get? k := by
    intro k
    show AssocMap.get? (s.data.filter fun e => e.1 ≠ s.key x y) k = _
    rw [AssocMap.get?_filter s.data (fun k => decide (k ≠ s.key x y)) k]
    split
    · rfl
    · next hk =>
      have hk : k = s.key x y := by simpa using hk
      have hgone : s.pcell x y = none := (H.pcell hx y).trans hnone
      rw [hk]
      exact hgone.symm
  rw [Cells.put_none hnone]
  exact ⟨H.w_eq, H.h_eq, H.zero_eq, H.inside,
    fun k v => by rw [hdata]; exact H.data k v, H.mem_row, H.mem_col,
    H.row_sorted, H.col_sorted⟩

/-- The keys stay right where the width stays, and in row 0. -/
theorem holds_nonDestructiveResize (H : Holds s m) {w h : Nat} (zero : α)
    (hin : ∀ x y, (m.at? x y).isSome → x < w ∧ y < h)
      (hkeep : w = m.w ∨ ∀ x y, (m.at? x y).isSome → y = 0) :
    Holds (s.nonDestructiveResize w h zero) { m with w := w, h := h, zero := zero } := by
  have hkey : ∀ x y, (m.at? x y).isSome → y * m.w + x = y * w + x := by
    intro x y hs
    rcases hkeep with rfl | h0
    · rfl
    · rw [h0 x y hs, Nat.zero_mul, Nat.zero_mul]
  refine ⟨rfl, rfl, rfl, hin, fun k v => ?_, H.mem_row, H.mem_col, H.row_sorted, H.col_sorted⟩
  refine (H.data k v).trans ⟨?_, ?_⟩
  · rintro ⟨x, y, hat, hk⟩
    exact ⟨x, y, hat, hk.trans (hkey x y (by rw [hat]; rfl))⟩
  · rintro ⟨x, y, hat, hk⟩
    exact ⟨x, y, hat, hk.trans (hkey x y (by rw [show m.at? x y = some v from hat]; rfl)).symm⟩

theorem holds_step (H : Holds s m) {op : SparseOp α} (hv : m.Valid op) (hk : m.Keeps op) :
    Holds (s.step op) (m.step op) := by
  cases op with
  | write x y v => exact holds_write H hv.1 hv.2 v
  | remove x y => exact holds_remove H hv.1 hk
  | nonDestructiveResize w h zero => exact holds_nonDestructiveResize H zero hv hk

/-! ## Nothing else does -/

/-- Where a resized sheet reads as the map, the key of a cell below row 0 was the key of another one
below row 0. -/
theorem exists_cell_of_key (H : Holds s m) {w h : Nat} {zero : α}
    (hin : ∀ x y, (m.at? x y).isSome → x < w ∧ y < h)
    (R : Reads (s.nonDestructiveResize w h zero) { m with w := w, h := h, zero := zero })
    {x y : Nat} (hs : (m.at? x y).isSome) (hy : 0 < y) :
    ∃ x' y', (m.at? x' y').isSome ∧ 0 < y' ∧ y' * m.w + x' = y * w + x := by
  obtain ⟨v, hv⟩ := Option.isSome_iff_exists.1 hs
  have hread : s.data.get? (y * w + x) = some v :=
    (R.pcell x (hin x y hs).1 y (hin x y hs).2).trans hv
  obtain ⟨x', y', hat, hk⟩ := (H.data _ v).1 hread
  have hs' : (m.at? x' y').isSome := by rw [hat]; rfl
  refine ⟨x', y', hs', ?_, hk.symm⟩
  by_contra h0
  have hy' : y' = 0 := by omega
  have hw : w ≤ y * w := Nat.le_mul_of_pos_left w hy
  have hx' : x' < w := (hin x' y' hs').1
  rw [hy', Nat.zero_mul] at hk
  omega

/-- With a larger width the keys grow, and there is no largest one. -/
theorem not_isSome_of_wider (H : Holds s m) {w h : Nat} {zero : α}
    (hin : ∀ x y, (m.at? x y).isSome → x < w ∧ y < h)
    (R : Reads (s.nonDestructiveResize w h zero) { m with w := w, h := h, zero := zero })
    (hw : m.w < w) : ∀ n x y, (m.at? x y).isSome → 0 < y → m.h * m.w ≤ y * m.w + x + n → False := by
  intro n
  induction n with
  | zero =>
    intro x y hs _ hle
    obtain ⟨hx, hy⟩ := H.inside x y hs
    have hrow : (y + 1) * m.w ≤ m.h * m.w := Nat.mul_le_mul_right _ hy
    rw [Nat.succ_mul] at hrow
    omega
  | succ n ih =>
    intro x y hs hy hle
    obtain ⟨x', y', hs', hy', hk⟩ := exists_cell_of_key H hin R hs hy
    have hgrow : y * m.w < y * w := Nat.mul_lt_mul_of_pos_left hw hy
    exact ih x' y' hs' hy' (by omega)

/-- With a smaller width they shrink, and there is no smallest one. -/
theorem not_isSome_of_narrower (H : Holds s m) {w h : Nat} {zero : α}
    (hin : ∀ x y, (m.at? x y).isSome → x < w ∧ y < h)
    (R : Reads (s.nonDestructiveResize w h zero) { m with w := w, h := h, zero := zero })
    (hw : w < m.w) : ∀ n x y, (m.at? x y).isSome → 0 < y → y * m.w + x < n → False := by
  intro n
  induction n with
  | zero => exact fun _ _ _ _ hlt => Nat.not_lt_zero _ hlt
  | succ n ih =>
    intro x y hs hy hlt
    obtain ⟨x', y', hs', hy', hk⟩ := exists_cell_of_key H hin R hs hy
    have hshrink : y * w < y * m.w := Nat.mul_lt_mul_of_pos_left hw hy
    exact ih x' y' hs' hy' (by omega)

theorem keeps_of_reads (H : Holds s m) {op : SparseOp α} (hv : m.Valid op)
    (R : Reads (s.step op) (m.step op)) : m.Keeps op := by
  cases op with
  | write x y v => exact trivial
  | remove x y =>
    by_contra hsome
    have hs : (m.at? x y).isSome := Option.isSome_iff_ne_none.2 hsome
    have hstale : x ∈ (s.step (.remove x y)).getCellsInRow y := (H.mem_row x y).2 hs
    rw [R.getCellsInRow y hv.2, List.mem_filter] at hstale
    have hgone : (m.step (.remove x y)).at? x y = none := if_pos ⟨rfl, rfl⟩
    rw [hgone] at hstale
    exact Bool.false_ne_true hstale.2
  | nonDestructiveResize w h zero =>
    show w = m.w ∨ _
    rcases Nat.lt_trichotomy w m.w with hw | hw | hw
    · refine Or.inr fun x y hs => ?_
      by_contra hy
      exact not_isSome_of_narrower H hv R hw _ x y hs (by omega) (Nat.lt_succ_self _)
    · exact Or.inl hw
    · refine Or.inr fun x y hs => ?_
      by_contra hy
      exact not_isSome_of_wider H hv R hw (m.h * m.w) x y hs (by omega) (by omega)

end

end OccupiedSheet

/-! ## Runs -/

namespace Cells

variable {α : Type}

def ValidAll (m : Cells α) : List (SparseOp α) → Prop
  | [] => True
  | op :: ops => m.Valid op ∧ (m.step op).ValidAll ops

def KeepsAll (m : Cells α) : List (SparseOp α) → Prop
  | [] => True
  | op :: ops => m.Keeps op ∧ (m.step op).KeepsAll ops

end Cells

/-- A sheet of `w` by `h` cells, and operations that stay inside the bounds. -/
structure SparseRun (α : Type) where
  w : Nat
  h : Nat
  zero : α
  ops : List (SparseOp α)
  valid : (Cells.blank w h zero).ValidAll ops

namespace OccupiedSheet

variable {α : Type}

/-- The sheet reads as the map before and after every operation. -/
def ReadsAll (s : OccupiedSheet α) (m : Cells α) : List (SparseOp α) → Prop
  | [] => Reads s m
  | op :: ops => Reads s m ∧ ReadsAll (s.step op) (m.step op) ops

theorem readsAll_iff_of_holds (ops : List (SparseOp α)) : ∀ {s : OccupiedSheet α} {m : Cells α},
    Holds s m → m.ValidAll ops → (ReadsAll s m ops ↔ m.KeepsAll ops) := by
  induction ops with
  | nil =>
    intro s m H _
    exact iff_of_true H.reads trivial
  | cons op ops ih =>
    intro s m H hv
    constructor
    · rintro ⟨_, hrest⟩
      have hnext : Reads (s.step op) (m.step op) := by
        cases ops with
        | nil => exact hrest
        | cons op' ops => exact hrest.1
      have hk : m.Keeps op := keeps_of_reads H hv.1 hnext
      exact ⟨hk, (ih (holds_step H hv.1 hk) hv.2).1 hrest⟩
    · rintro ⟨hk, hrest⟩
      exact ⟨H.reads, (ih (holds_step H hv.1 hk) hv.2).2 hrest⟩

/-- A sheet is the map it is meant to be all through a run exactly when only empty places are
removed and every new width finds no cell below row 0. -/
theorem readsAll_iff (s : OccupiedSheet α) (r : SparseRun α) :
    ReadsAll (s.resize r.w r.h r.zero) (Cells.blank r.w r.h r.zero) r.ops ↔
      (Cells.blank r.w r.h r.zero).KeepsAll r.ops :=
  readsAll_iff_of_holds r.ops (holds_resize s r.w r.h r.zero) r.valid

/-! ## A cell out of reach and a place too many -/

/-- One column of two cells; a second state makes the sheet wider. -/
def widened : SparseRun Nat where
  w := 1
  h := 2
  zero := 0
  ops := [.write 0 1 5, .nonDestructiveResize 2 2 0]
  valid := by
    refine ⟨⟨by decide, by decide⟩, fun x y hs => ?_, trivial⟩
    have hat := (isSome_put (Cells.blank 1 2 0) 0 1 x y 5).1 hs
    simp only [Cells.blank, Option.isSome_none, Bool.false_eq_true, or_false] at hat
    omega

/-- The only cell is written and removed. -/
def emptied : SparseRun Nat where
  w := 1
  h := 1
  zero := 0
  ops := [.write 0 0 5, .remove 0 0]
  valid := ⟨⟨by decide, by decide⟩, ⟨by decide, by decide⟩, trivial⟩

/-- In the wider sheet the cell reads as the zero; in the emptied one the removed place is still
listed. -/
theorem not_readsAll :
    ((widened.ops.foldl OccupiedSheet.step (resize ⟨⟨[], 0, 0, 0⟩, [], []⟩ 1 2 0)).cell 0 1 = 0 ∧
      (widened.ops.foldl Cells.step (Cells.blank 1 2 0)).at? 0 1 = some 5) ∧
    ((emptied.ops.foldl OccupiedSheet.step (resize ⟨⟨[], 0, 0, 0⟩, [], []⟩ 1 1 0)).getCellsInRow 0 =
      [0] ∧ (emptied.ops.foldl Cells.step (Cells.blank 1 1 0)).at? 0 0 = none) ∧
    ¬ ReadsAll (resize ⟨⟨[], 0, 0, 0⟩, [], []⟩ widened.w widened.h widened.zero)
      (Cells.blank widened.w widened.h widened.zero) widened.ops ∧
    ¬ ReadsAll (resize ⟨⟨[], 0, 0, 0⟩, [], []⟩ emptied.w emptied.h emptied.zero)
      (Cells.blank emptied.w emptied.h emptied.zero) emptied.ops := by
  refine ⟨by decide, by decide, fun h => ?_, fun h => ?_⟩
  · exact absurd (h.2.2.cell 0 (by decide) 1 (by decide)) (by decide)
  · exact absurd (h.2.2.getCellsInRow 0 (by decide)) (by decide)

end OccupiedSheet

end Coopy
