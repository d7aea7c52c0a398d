import Coopy.ThreeWay

/-!
# Both sides of a merge end with the same table

Each side can merge the other one into its own table.  If no conflict is left undecided, and the
rows that were added have no nulls to lose, the two end with the same rows.

    t.swap.merged c.swap is a permutation of t.merged c                                (merged_swap)
-/

namespace Coopy

open Lib Merger

namespace ThreeWay

variable (t : ThreeWay)

/-- The merge as the other side makes it. -/
def swap : ThreeWay where
  pivot := t.pivot
  locals := t.remote
  remote := t.locals
  names := t.names
  rowsLocal := t.rowsRemote
  rowsRemote := t.rowsLocal
  names_ne_nil := t.names_ne_nil
  names_nodup := t.names_nodup
  usable := t.usable
  pivot_width := t.pivot_width
  local_width := t.remote_width
  remote_width := t.local_width

/-- Fresh cells are nulls, or no row that a side added has one. -/
def NullsKept (zero : SheetCell) : Prop :=
  zero = SheetCell.null ∨
    ∀ row ∈ addedRows t.locals t.rowsLocal ++ addedRows t.remote t.rowsRemote, ∀ x ∈ row,
    x.escaped = false

section
variable {t} {c : Settling} {zero : SheetCell}

theorem addedRows_stored {n : Nat} {s : DataSheet} {M : Matching n s.height} {row : List SheetCell}
    (h : row ∈ addedRows s M) : ∀ x ∈ row, x.Stored := by
  obtain ⟨k, hk, hrow⟩ := List.mem_filterMap.1 h
  split at hrow
  · obtain rfl := Option.some.inj hrow
    have hmem : s.row k ∈ s.rows := by
      rw [s.row_eq_getElem (List.mem_range.1 hk)]
      exact List.getElem_mem _
    exact s.stored _ hmem
  · cases hrow

/-- A row is filled in as it is. -/
theorem filledRow_eq {row : List SheetCell} (hs : ∀ x ∈ row, x.Stored)
    (h : zero = SheetCell.null ∨ ∀ x ∈ row, x.escaped = false) : filledRow zero row = row := by
  have hcell : ∀ x ∈ row, (if x.escaped then zero else x) = x := by
    intro x hx
    by_cases he : x.escaped = true
    · rw [if_pos he]
      rcases h with rfl | h
      · cases x with
        | mk text escaped =>
          obtain rfl : escaped = true := he
          rw [show text = "NULL" from hs _ hx rfl]
          rfl
      · rw [h x hx] at he
        cases he
    · rw [if_neg he]
  unfold filledRow
  rw [List.map_congr_left hcell, List.map_id']

theorem map_filledRow {n : Nat} {s : DataSheet} {M : Matching n s.height}
    (h : zero = SheetCell.null ∨ ∀ row ∈ addedRows s M, ∀ x ∈ row, x.escaped = false) :
    (addedRows s M).map (filledRow zero) = addedRows s M := by
  have hrow : ∀ row ∈ addedRows s M, filledRow zero row = row :=
    fun row hmem => filledRow_eq (addedRows_stored hmem) (h.imp_right fun h => h row hmem)
  rw [List.map_congr_left hrow, List.map_id']

theorem keptRow_swap (h : c ≠ .undecided ∨ ¬t.Conflicts) (p : Nat) :
    t.swap.keptRow? c.swap p = t.keptRow? c p := by
  show ((t.rowsRemote.fwd p).bind fun r => (t.rowsLocal.fwd p).map fun l =>
    reconcile c.swap (t.pivot.row p) (t.remote.row r) (t.locals.row l)) = _
  unfold keptRow?
  cases hl : t.rowsLocal.fwd p with
  | none => cases t.rowsRemote.fwd p <;> rfl
  | some l =>
    cases hr : t.rowsRemote.fwd p with
    | none => rfl
    | some r =>
      refine congrArg some
        (reconcile_swap (h.imp_right fun hno => Bool.eq_false_iff.2 fun hclash => ?_))
      exact hno ⟨p, l, r, hl, hr, hclash⟩

/-- The merged table is the same one from either side. -/
theorem merged_swap (h : c ≠ .undecided ∨ ¬t.Conflicts) (hnull : t.NullsKept zero) :
    (t.swap.merged c.swap zero).Perm (t.merged c zero) := by
  have hlocal := @map_filledRow zero _ t.locals t.rowsLocal
    (hnull.imp_right fun hn row hmem => hn row (List.mem_append_left _ hmem))
  have hremote := @map_filledRow zero _ t.remote t.rowsRemote
    (hnull.imp_right fun hn row hmem => hn row (List.mem_append_right _ hmem))
  have hkept : (List.range t.pivot.height).filterMap (t.swap.keptRow? c.swap) =
      (List.range t.pivot.height).filterMap (t.keptRow? c) :=
      List.filterMap_congr fun p _ => keptRow_swap h p
  show ((List.range t.pivot.height).filterMap (t.swap.keptRow? c.swap) ++
    addedRows t.remote t.rowsRemote ++ (addedRows t.locals t.rowsLocal).map (filledRow zero)).Perm _
  unfold merged
  rw [hkept, hlocal, hremote, List.append_assoc, List.append_assoc]
  exact List.perm_append_comm.append_left _

end

/-- **Convergence.**  Local merges remote, and remote merges local, deciding the conflicts alike:
each replays the changes on its own table, and both have the same rows then. -/
theorem sides_converge (t : ThreeWay) (c : Settling) (assumeHeader : Bool) (zero : SheetCell)
    (h : c ≠ .undecided ∨ ¬t.Conflicts) (hnull : t.NullsKept zero) :
    ∃ r r' rows rows', merge (t.state c assumeHeader) = .ok r ∧
    merge (t.swap.state c.swap assumeHeader) = .ok r' ∧
      t.replay zero assumeHeader r.rowChanges = some rows ∧
      t.swap.replay zero assumeHeader r'.rowChanges = some rows' ∧
      rows.Perm rows' := by
  obtain ⟨r, rows, hr, -, hrows, hperm⟩ := t.replay_merged c assumeHeader zero
  obtain ⟨r', rows', hr', -, hrows', hperm'⟩ := t.swap.replay_merged c.swap assumeHeader zero
  exact ⟨r, r', rows, rows', hr, hr', hrows, hrows',
    hperm.trans ((merged_swap h hnull).symm.trans hperm'.symm)⟩

/-- A price list of three rows.  Local has a new price in the first one and a row of its own; remote
has another name in the first one, and has dropped the second one. -/
def priceLists : ThreeWay where
  pivot :=
    ⟨2, [textRow ["tea", "3"], textRow ["milk", "1"], textRow ["salt", "1"]], by decide, by decide⟩
  locals :=
    ⟨2, [textRow ["tea", "4"], textRow ["milk", "1"], textRow ["salt", "1"], textRow ["jam", "2"]],
    by decide, by decide⟩
  remote := ⟨2, [textRow ["green tea", "3"], textRow ["salt", "1"]], by decide, by decide⟩
  names := ["name", "price"]
  rowsLocal := ⟨⟨[0, 1, 2], [0, 1, 2, -1]⟩, rfl, rfl, by decide, by decide, by decide⟩
  rowsRemote := ⟨⟨[0, -1, 1], [0, 2]⟩, rfl, rfl, by decide, by decide, by decide⟩
  names_ne_nil := by decide
  names_nodup := by decide
  usable := by decide
  pivot_width := rfl
  local_width := rfl
  remote_width := rfl

example : priceLists.merged .undecided ⟨"", false⟩ =
    [textRow ["green tea", "4"], textRow ["salt", "1"], textRow ["jam", "2"]] := by
  decide +kernel

theorem sides_converge_priceLists :
    (Settling.neither ≠ .undecided ∨ ¬priceLists.Conflicts) ∧ priceLists.NullsKept ⟨"", false⟩ ∧
    ∃ r r' rows rows', merge (priceLists.state .neither true) = .ok r ∧
      merge (priceLists.swap.state .neither true) = .ok r' ∧
      priceLists.replay ⟨"", false⟩ true r.rowChanges = some rows ∧
      priceLists.swap.replay ⟨"", false⟩ true r'.rowChanges = some rows' ∧ rows.Perm rows' := by
  have h : Settling.neither ≠ .undecided ∨ ¬priceLists.Conflicts := Or.inl (by decide)
  have hnull : priceLists.NullsKept ⟨"", false⟩ := Or.inr (by decide +kernel)
  exact ⟨h, hnull, priceLists.sides_converge .neither true ⟨"", false⟩ h hnull⟩

end ThreeWay

end Coopy
