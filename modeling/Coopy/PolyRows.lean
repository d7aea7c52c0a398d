import Coopy.PolySheet
import Mathlib.Data.List.Basic

/-!
# Rows behind an offset

With a row offset `d` a `PolySheet` should work on the sheet without its first `d` rows, and
put these back in front (`behead`, `putBack`).  All operations but two do: `moveRow` leaves the
row it moves unshifted, and `applyRowCache` the row it writes.

    d = 0, or no moveRow or applyRowCache in ops →
      rowOps d ops s = putBack (rowOps 0 ops (s.behead d))                          (rowOps_offset)
-/

namespace Coopy

namespace TypedSheet

variable {T : Type}

/-- The sheet without its first `d` rows. -/
def behead (s : TypedSheet T) (d : Nat) : TypedSheet T := { s with arr := s.arr.drop d }

/-- Rows put back in front. -/
def putBack (head : List (List T)) (s : TypedSheet T) : TypedSheet T :=
  { s with arr := head ++ s.arr }

theorem putBack_behead (s : TypedSheet T) (d : Nat) : putBack (s.arr.take d) (s.behead d) = s := by
  unfold putBack behead
  rw [List.take_append_drop]

section
variable {head : List (List T)} {d : Nat} (hd : head.length = d) (s : TypedSheet T)

include hd

theorem height_putBack : (putBack head s).height = d + s.height := by
  unfold putBack height
  rw [List.length_append, hd]

theorem cell_putBack (x y : Nat) : (putBack head s).cell x (y + d) = s.cell x y := by
  unfold putBack cell
  simp only
  rw [List.getD_append_right _ _ _ _ (by omega), show y + d - head.length = y by omega]

theorem modify_putBack (f : List T → List T) (y : Nat) :
    (head ++ s.arr).modify (y + d) f = head ++ s.arr.modify y f := by
  have := List.modifyTailIdx_add (List.modifyHead f) y head s.arr
  rw [hd, Nat.add_comm] at this
  exact this

theorem insertIdx_putBack (row : List T) (y : Nat) :
    (head ++ s.arr).insertIdx (y + d) row = head ++ s.arr.insertIdx y row := by
  have := List.modifyTailIdx_add (List.cons row) y head s.arr
  rw [hd, Nat.add_comm] at this
  exact this

theorem setCell_putBack (x y : Nat) (c : T) :
    (putBack head s).setCell x (y + d) c = putBack head (s.setCell x y c) := by
  unfold putBack setCell
  simp only [modify_putBack hd s]

theorem deleteRow_putBack {src : Int} (hs : 0 ≤ src) : (putBack head s).deleteRow (rowDelta src d) =
    (putBack head (s.deleteRow src).1, (s.deleteRow src).2) := by
  have hdelta : rowDelta src d = src + d := if_neg (by omega)
  unfold deleteRow
  rw [height_putBack hd, hdelta]
  by_cases h : src ≥ s.height
  · rw [if_pos (by omega), if_pos (by omega)]
  · rw [if_neg (by omega), if_neg (by omega)]
    unfold putBack
    simp only
    rw [List.eraseIdx_append_of_length_le (by omega),
      show (src + d).toNat - head.length = src.toNat by omega]

theorem insertRow_putBack {base : Int} (hb : -1 ≤ base) (hb' : base < s.height) :
    (putBack head s).insertRow (rowDelta base d) =
      (putBack head (s.insertRow base).1, (s.insertRow base).2 + d) ∧ 0 ≤ (s.insertRow base).2 := by
  unfold insertRow
  simp only
  rw [height_putBack hd]
  by_cases h : base = -1
  · subst h
    have hdelta : rowDelta (-1) d = -1 := rfl
    rw [hdelta, if_neg (by omega), if_pos (by omega), if_neg (by omega), if_pos (by omega)]
    refine ⟨?_, by simp only []; omega⟩
    unfold putBack
    simp only [List.append_assoc]
    congr 1
    omega
  · have hdelta : rowDelta base d = base + d := if_neg h
    rw [hdelta, if_neg (by omega), if_neg (by omega), if_neg (by omega), if_neg (by omega)]
    refine ⟨?_, by simp only []; omega⟩
    have htoNat : (base + d).toNat = base.toNat + d := by omega
    unfold putBack
    simp only [htoNat, insertIdx_putBack hd s]

end

section
variable {head : List (List SheetCell)} {d : Nat} (hd : head.length = d)

include hd

theorem cellText_putBack (s : TypedSheet SheetCell) (x y : Nat) (str : String) :
    (putBack head s).cellText x (y + d) str = putBack head (s.cellText x y str) := by
  unfold putBack cellText
  simp only [modify_putBack hd s]

theorem deleteRows_putBack (n : Nat) (s : TypedSheet SheetCell) {src : Int} (hs : 0 ≤ src) :
    (putBack head s).deleteRows (rowDelta src d) n =
      (putBack head (s.deleteRows src n).1, (s.deleteRows src n).2) := by
  induction n generalizing s with
  | zero => rfl
  | succ n ih =>
    unfold deleteRows
    simp only [deleteRow_putBack hd s hs]
    split
    · exact ih _
    · rfl

theorem foldl_setCell_putBack (cells : List (Nat × SheetCell)) (y : Nat)
    (s : TypedSheet SheetCell) :
    cells.foldl (fun s c => s.setCell c.1 (y + d) c.2) (putBack head s) =
      putBack head (cells.foldl (fun s c => s.setCell c.1 y c.2) s) := by
  induction cells generalizing s with
  | nil => rfl
  | cons c cells ih =>
    simp only [List.foldl_cons]
    rw [setCell_putBack hd]
    exact ih _

end

end TypedSheet

/-! ## Operations on a view -/

namespace RowOp

/-- The rows and cells an operation refers to are there, in a sheet of `w` columns and `h` rows. -/
def Valid (w h : Nat) : RowOp → Prop
  | .height => True
  | .cellString x y => x < w ∧ y < h
  | .cellSummary x y => x < w ∧ y < h
  | .setText x y _ => x < w ∧ y < h
  | .setCell x y _ => x < w ∧ y < h
  | .deleteRow src => 0 ≤ src ∧ src < h
  | .deleteRows first last => 0 ≤ first ∧ first ≤ last ∧ last < h
  | .insertRow base => -1 ≤ base ∧ base < h
  | .insertRowOrdered base cells => -1 ≤ base ∧ base < h ∧ ∀ c ∈ cells, c.1 < w
  | .moveRow src base => 0 ≤ src ∧ src < h ∧ -1 ≤ base ∧ base < h
  -- rows are added for a row beyond the last, and nothing is done for row `-1`
  | .applyRowCache cache row =>
    -1 ≤ row ∧ cache.flags.length = cache.cells.length ∧ cache.cells.length ≤ w

instance (w h : Nat) : DecidablePred (Valid w h) := fun op => by
  cases op <;> unfold Valid <;> infer_instance

/-- Not a row moved, nor a cache put in a row. -/
def Shifts : RowOp → Prop
  | .moveRow _ _ => False
  | .applyRowCache _ row => row = -1
  | _ => True

instance : DecidablePred Shifts := fun op => by
  cases op <;> unfold Shifts <;> infer_instance

end RowOp

namespace PolySheet

open TypedSheet (behead putBack)

/-- All operations are valid where they are done, without an offset. -/
def ValidRows : List RowOp → TypedSheet SheetCell → Prop
  | [], _ => True
  | op :: ops, s => op.Valid s.width s.height ∧ ValidRows ops (rowOp 0 s op).1

instance decidableValidRows : (ops : List RowOp) → (s : TypedSheet SheetCell) →
    Decidable (ValidRows ops s)
  | [], _ => isTrue trivial
  | _ :: ops, _ => @instDecidableAnd _ _ _ (decidableValidRows ops _)

theorem rowDelta_zero (r : Int) : rowDelta r (0 : Nat) = r := by
  unfold rowDelta
  split <;> omega

theorem fixRow_add {d : Nat} {r : Int} (h : 0 ≤ r) : fixRow d (r + d) = r := by
  unfold fixRow rowDelta
  split
  · omega
  · rw [if_neg (by omega), if_neg (by omega)]
    omega

theorem fixRow_zero (r : Int) : fixRow 0 r = r := if_pos rfl

/-- **One operation behind an offset**, on the rows behind it. -/
theorem rowOp_offset {head : List (List SheetCell)} {d : Nat} (hd : head.length = d)
    (s : TypedSheet SheetCell) {op : RowOp} (hv : op.Valid s.width s.height) (hop : op.Shifts) :
    rowOp d (putBack head s) op = (putBack head (rowOp 0 s op).1, (rowOp 0 s op).2) := by
  cases op with
  | height =>
    simp only [rowOp]
    rw [TypedSheet.height_putBack hd]
    congr 2
    omega
  | cellString x y => simp only [rowOp, TypedSheet.cell_putBack hd, Nat.add_zero]
  | cellSummary x y => simp only [rowOp, TypedSheet.cell_putBack hd, Nat.add_zero]
  | setText x y str => simp only [rowOp, TypedSheet.cellText_putBack hd, Nat.add_zero]
  | setCell x y c => simp only [rowOp, TypedSheet.setCell_putBack hd, Nat.add_zero]
  | deleteRow src =>
    simp only [rowOp]
    rw [TypedSheet.deleteRow_putBack hd s hv.1, rowDelta_zero]
  | deleteRows first last =>
    obtain ⟨h0, hle, hlt⟩ := hv
    have hcount : rowDelta last d + 1 - rowDelta first d = last + 1 - first := by
      unfold rowDelta
      rw [if_neg (by omega), if_neg (by omega)]
      omega
    simp only [rowOp]
    rw [TypedSheet.deleteRows_putBack hd _ s h0, hcount, rowDelta_zero, rowDelta_zero]
  | insertRow base =>
    obtain ⟨hins, h0⟩ := TypedSheet.insertRow_putBack hd s hv.1 hv.2
    simp only [rowOp]
    rw [hins, rowDelta_zero, fixRow_add h0, fixRow_zero]
  | insertRowOrdered base cells =>
    obtain ⟨hins, h0⟩ := TypedSheet.insertRow_putBack hd s hv.1 hv.2.1
    have htoNat : ((s.insertRow base).2 + d).toNat = (s.insertRow base).2.toNat + d := by omega
    simp only [rowOp]
    rw [hins, rowDelta_zero, htoNat, TypedSheet.foldl_setCell_putBack hd,
      if_pos (by omega), if_pos (by omega)]
    congr 2
    omega
  | moveRow src base => exact hop.elim
  | applyRowCache cache row =>
    have hrow : row = -1 := hop
    subst hrow
    rfl

theorem rowOps_putBack {head : List (List SheetCell)} {d : Nat} (hd : head.length = d)
    {ops : List RowOp}
    (hops : ∀ op ∈ ops, op.Shifts) (s : TypedSheet SheetCell) (hv : ValidRows ops s) :
    rowOps d ops (putBack head s) = (putBack head (rowOps 0 ops s).1, (rowOps 0 ops s).2) := by
  induction ops generalizing s with
  | nil => rfl
  | cons op ops ih =>
    have hstep := rowOp_offset hd s hv.1 (hops op List.mem_cons_self)
    have hrest := ih (fun o ho => hops o (List.mem_cons_of_mem op ho)) _ hv.2
    simp only [rowOps]
    rw [hstep, hrest]

/-- **An offset hides the rows in front.**  Every run that does not move a row or write a row
cache, or that has no offset, does to the sheet and returns what it would on the sheet without its
first `d` rows. -/
theorem rowOps_offset (s : TypedSheet SheetCell) (d : Nat) (hd : d ≤ s.height) (ops : List RowOp)
    (hv : ValidRows ops (s.behead d)) (hops : d = 0 ∨ ∀ op ∈ ops, op.Shifts) :
    rowOps d ops s =
      (putBack (s.arr.take d) (rowOps 0 ops (s.behead d)).1, (rowOps 0 ops (s.behead d)).2) := by
  rcases hops with rfl | hops
  · rfl
  · have hlen : (s.arr.take d).length = d := by
      rw [List.length_take]
      exact Nat.min_eq_left hd
    calc rowOps d ops s
        = rowOps d ops (putBack (s.arr.take d) (s.behead d)) := by rw [TypedSheet.putBack_behead]
      _ = _ := rowOps_putBack hlen hops (s.behead d) hv

/-- A header and two rows. -/
def headed : TypedSheet SheetCell where
  arr := [[⟨"h", false⟩], [⟨"a", false⟩], [⟨"b", false⟩]]
  w := 1
  zero := ⟨"", false⟩

/-- A cell written, a row added and one deleted, below the header. -/
theorem rowOps_offset_headed :
    rowOps 1 [.setCell 0 1 ⟨"c", false⟩, .insertRow 0, .deleteRow 1] headed =
      (putBack [[⟨"h", false⟩]] ⟨[[⟨"", false⟩], [⟨"c", false⟩]], 1, ⟨"", false⟩⟩,
        [.done true, .row 0, .done true]) :=
  rowOps_offset headed 1 (by decide) _ (by decide) (by decide)

/-- The first row of the view, moved to the end: it is the header that goes.  And a cache for that
row overwrites the header. -/
theorem rowOps_moves_header :
    (1 ≤ headed.height ∧ ValidRows [.moveRow 0 (-1)] (headed.behead 1) ∧
      rowOps 1 [.moveRow 0 (-1)] headed ≠
        (putBack (headed.arr.take 1) (rowOps 0 [.moveRow 0 (-1)] (headed.behead 1)).1,
          (rowOps 0 [.moveRow 0 (-1)] (headed.behead 1)).2)) ∧
    (ValidRows [.applyRowCache ⟨[true], [⟨"c", false⟩]⟩ 0] (headed.behead 1) ∧
      rowOps 1 [.applyRowCache ⟨[true], [⟨"c", false⟩]⟩ 0] headed ≠
        (putBack (headed.arr.take 1)
          (rowOps 0 [.applyRowCache ⟨[true], [⟨"c", false⟩]⟩ 0] (headed.behead 1)).1,
          (rowOps 0 [.applyRowCache ⟨[true], [⟨"c", false⟩]⟩ 0] (headed.behead 1)).2)) := by
  decide

end PolySheet

end Coopy
