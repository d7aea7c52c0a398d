import Coopy.OrderedScript

/-!
# The sheet along the units of an ordered merge

After `k` units the sheet holds the first `k` remote rows and the local rows whose
partner is still to come.  Behind the lowest local row reached nothing has changed:

    items = A ++ rowsFrom b,  done k a sublist of A                               (Placed)

and while the cursor is in step the remote rows stand in front of it (`Synced`).  An
insertion or a move keeps the cursor in step, an update puts it in step, and a context
row brings it back after a row that needed no change.
-/

namespace Coopy

open Lib Merger

namespace Comparison

variable (c : Comparison)

/-- A unit, for the cursor of the merge and for the sheet. -/
def unitStep (s : Cursor × Zipper (List SheetCell)) (u : MatchUnit) :
    Cursor × Zipper (List SheetCell) :=
  (c.next s.1 u, Edit.run (c.stepEdits s.1 u) s.2)

theorem run_orderedEdits (us : List MatchUnit) : ∀ s : Cursor × Zipper (List SheetCell),
    Edit.run (c.orderedEdits s.1 us) s.2 = (us.foldl c.unitStep s).2 := by
  induction us with
  | nil => exact fun s => rfl
  | cons u us ih =>
    intro s
    show Edit.run (c.stepEdits s.1 u ++ c.orderedEdits (c.next s.1 u) us) s.2 = _
    rw [Edit.run_append]
    exact ih (c.unitStep s u)

/-- The first `k` remote rows. -/
def done (k : Nat) : List (List SheetCell) := (List.range k).map c.remote.row

/-- No partner among the first `k` remote rows. -/
def pending (k l : Nat) : Bool := (c.rows.fwd l).all fun r => decide (k ≤ r)

/-- The local rows that have not been dealt with. -/
def todo (k : Nat) : List (List SheetCell) :=
  ((List.range c.locals.height).filter (c.pending k)).map c.locals.row

section
variable {c} {k b l : Nat}

/-! ## Rows done and rows to come -/

theorem done_succ (c : Comparison) (k : Nat) : c.done (k + 1) = c.done k ++ [c.remote.row k] := by
  unfold done
  rw [List.range_succ, List.map_append]
  rfl

theorem pending_iff : c.pending k l = true ↔ ∀ r, c.rows.fwd l = some r → k ≤ r := by
  unfold pending
  cases c.rows.fwd l with
  | none => simp
  | some r => simp

theorem fwd_of_bwd (hb : c.rows.bwd k = some l) : c.rows.fwd l = some k :=
  (c.rows.fwd_eq_some_iff l k).mpr hb

theorem pending_self (hb : c.rows.bwd k = some l) : c.pending k l = true := by
  rw [pending_iff, fwd_of_bwd hb]
  intro r hr
  exact Nat.le_of_eq (Option.some.inj hr)

theorem local_inj {l l' : Nat} (hl : l < c.locals.height) (hl' : l' < c.locals.height)
    (h : c.locals.row l = c.locals.row l') : l = l' := by
  rw [c.locals.row_eq_getElem hl, c.locals.row_eq_getElem hl'] at h
  exact (c.local_nodup.getElem_inj_iff).mp h

theorem remote_inj {r r' : Nat} (hr : r < c.remote.height) (hr' : r' < c.remote.height)
    (h : c.remote.row r = c.remote.row r') : r = r' := by
  rw [c.remote.row_eq_getElem hr, c.remote.row_eq_getElem hr'] at h
  exact (c.remote_nodup.getElem_inj_iff).mp h

/-- Equal rows are partners. -/
theorem fwd_of_eq {r : Nat} (hl : l < c.locals.height) (hr : r < c.remote.height)
    (h : c.locals.row l = c.remote.row r) : c.rows.fwd l = some r :=
  (c.rows.a2b_eq_iff l r).mp (c.equal_paired l hl r hr h)

/-- A row still to come is none of those done. -/
theorem pending_not_done (hl : l < c.locals.height) (hk : k ≤ c.remote.height)
    (hp : c.pending k l = true) : c.locals.row l ∉ c.done k := by
  intro hmem
  obtain ⟨r, hr, heq⟩ := List.mem_map.mp hmem
  have hlt := List.mem_range.mp hr
  have := pending_iff.mp hp r (fwd_of_eq hl (by omega) heq.symm)
  omega

theorem todo_none (hb : c.rows.bwd k = none) : c.todo (k + 1) = c.todo k := by
  unfold todo
  congr 1
  refine List.filter_congr fun l _ => ?_
  rw [Bool.eq_iff_iff, pending_iff, pending_iff]
  refine forall_congr' fun r => imp_congr_right fun hf => ?_
  have hne : r ≠ k := by
    rintro rfl
    rw [(c.rows.fwd_eq_some_iff l r).mp hf] at hb
    cases hb
  omega

theorem todo_some (hb : c.rows.bwd k = some l) :
    (c.todo k).Perm (c.locals.row l :: c.todo (k + 1)) := by
  have hf := fwd_of_bwd hb
  have hidx : ((List.range c.locals.height).filter (c.pending k)).Perm
      (l :: (List.range c.locals.height).filter (c.pending (k + 1))) := by
    refine (List.perm_ext_iff_of_nodup (List.nodup_range.filter _) ?_).mpr fun i => ?_
    · refine List.nodup_cons.mpr ⟨fun hmem => ?_, List.nodup_range.filter _⟩
      have := pending_iff.mp (List.mem_filter.mp hmem).2 k hf
      omega
    · rw [List.mem_cons, List.mem_filter, List.mem_filter, List.mem_range, pending_iff, pending_iff]
      constructor
      · rintro ⟨hi, hp⟩
        by_cases hil : i = l
        · exact Or.inl hil
        · refine Or.inr ⟨hi, fun r hr => ?_⟩
          have hne : r ≠ k := by
            rintro rfl
            exact hil (Option.some.inj (((c.rows.fwd_eq_some_iff i r).mp hr).symm.trans hb))
          have := hp r hr
          omega
      · rintro (rfl | ⟨hi, hp⟩)
        · exact ⟨(fwd_lt hf).1, fun r hr => Nat.le_of_eq (Option.some.inj (hf.symm.trans hr))⟩
        · exact ⟨hi, fun r hr => Nat.le_of_succ_le (hp r hr)⟩
  exact hidx.map c.locals.row

/-- The sheet holds what is done and what is to come. -/
def Holds (c : Comparison) (k : Nat) (items : List (List SheetCell)) : Prop :=
  items.Perm (c.done k ++ c.todo k)

theorem Holds.nodup {items : List (List SheetCell)} (h : c.Holds k items)
    (hk : k ≤ c.remote.height) : items.Nodup := by
  refine (List.Perm.nodup_iff h).mpr (List.nodup_append.mpr ⟨?_, ?_, ?_⟩)
  · refine List.Nodup.map_on (fun x hx y hy hxy => ?_) List.nodup_range
    have hx := List.mem_range.mp hx
    have hy := List.mem_range.mp hy
    exact remote_inj (by omega) (by omega) hxy
  · refine List.Nodup.map_on (fun x hx y hy hxy => ?_) (List.nodup_range.filter _)
    exact local_inj (List.mem_range.mp (List.mem_filter.mp hx).1)
      (List.mem_range.mp (List.mem_filter.mp hy).1) hxy
  · rintro x hx y hy rfl
    obtain ⟨i, hi, rfl⟩ := List.mem_map.mp hy
    obtain ⟨hi, hp⟩ := List.mem_filter.mp hi
    exact pending_not_done (List.mem_range.mp hi) hk hp hx

theorem Holds.mem {items : List (List SheetCell)} (h : c.Holds k items)
    (hb : c.rows.bwd k = some l) : c.locals.row l ∈ items := by
  refine (List.Perm.mem_iff h).mpr (List.mem_append_right _ ?_)
  exact (todo_some hb).mem_iff.mpr List.mem_cons_self

theorem Holds.insert {a b : List (List SheetCell)} (h : c.Holds k (a ++ b))
    (hb : c.rows.bwd k = none) : c.Holds (k + 1) (a ++ [c.remote.row k] ++ b) := by
  unfold Holds
  rw [todo_none hb, done_succ, List.append_assoc, List.append_assoc, List.singleton_append,
    List.singleton_append]
  exact List.perm_middle.trans ((h.cons _).trans List.perm_middle.symm)

/-- The row at hand gives way to its partner, wherever that stands. -/
theorem Holds.pair {items a b a' b' : List (List SheetCell)} (h : c.Holds k items)
    (hb : c.rows.bwd k = some l)
    (heq : items = a ++ c.locals.row l :: b) (hrest : a' ++ b' = a ++ b) :
    c.Holds (k + 1) (a' ++ [c.remote.row k] ++ b') := by
  have hold : items.Perm (c.done k ++ c.locals.row l :: c.todo (k + 1)) :=
    h.trans ((todo_some hb).append_left _)
  unfold Holds
  rw [done_succ, List.append_assoc, List.append_assoc, List.singleton_append, List.singleton_append]
  calc (a' ++ c.remote.row k :: b').Perm (c.remote.row k :: (a ++ b)) := by
        rw [← hrest]
        exact List.perm_middle
    List.Perm _ (c.remote.row k :: (c.done k ++ c.todo (k + 1))) :=
      (Edit.perm_without hold heq).cons _
    List.Perm _ (c.done k ++ c.remote.row k :: c.todo (k + 1)) := List.perm_middle.symm

/-! ## The rows that nothing has touched -/

theorem rowsFrom_split {b' : Nat} (h : b ≤ b') (hb' : b' ≤ c.locals.height) :
    c.rowsFrom b = (List.range' b (b' - b)).map c.locals.row ++ c.rowsFrom b' := by
  unfold rowsFrom
  rw [← List.map_append]
  congr 1
  have happ : List.range' b (b' - b) ++ List.range' (b + (b' - b)) (c.locals.height - b') =
      List.range' b (b' - b + (c.locals.height - b')) := List.range'_append_1
  rw [show b + (b' - b) =
    b' by omega, show b' - b + (c.locals.height - b') = c.locals.height - b by omega] at happ
  exact happ.symm

theorem not_mem_rowsFrom (hl : l < c.locals.height) (h : l < b) :
    c.locals.row l ∉ c.rowsFrom b := by
  intro hmem
  obtain ⟨i, hi, heq⟩ := List.mem_map.mp hmem
  have hi := List.mem_range'_1.mp hi
  have := local_inj (by omega) hl heq
  omega

/-- From the row `b` on the sheet is that of the local side; the remote rows stand before. -/
structure Placed (c : Comparison) (k b : Nat) (items : List (List SheetCell)) : Prop where
  bound : k ≤ c.remote.height
  holds : c.Holds k items
  split : ∃ A, items = A ++ c.rowsFrom b ∧ (c.done k).Sublist A

/-- Besides, the cursor stands between the remote rows and the rows from `b` on. -/
structure Synced (c : Comparison) (k b : Nat) (z : Zipper (List SheetCell)) : Prop where
  bound : k ≤ c.remote.height
  holds : c.Holds k z.items
  before : (c.done k).Sublist z.before
  after : ∃ A, z.after = A ++ c.rowsFrom b

section
variable {z : Zipper (List SheetCell)}

theorem Synced.placed (h : c.Synced k b z) : c.Placed k b z.items := by
  obtain ⟨A, hA⟩ := h.after
  refine ⟨h.bound, h.holds, z.before ++ A, ?_, h.before.trans (List.sublist_append_left _ _)⟩
  unfold Zipper.items
  rw [hA, List.append_assoc]

theorem Synced.mono (h : c.Synced k b z) {b' : Nat} (hb : b ≤ b') (hb' : b' ≤ c.locals.height) :
    c.Synced k b' z := by
  obtain ⟨A, hA⟩ := h.after
  exact ⟨h.bound, h.holds, h.before, _, by rw [hA, rowsFrom_split hb hb', ← List.append_assoc]⟩

/-- A context row brings the cursor back behind the last remote row. -/
theorem Placed.seek (h : c.Placed (k + 1) b z.items) :
    c.Synced (k + 1) b ((Edit.seek (isRow (c.remote.row k))).apply z) := by
  obtain ⟨A, hA, hsub⟩ := h.split
  have hnodup := h.holds.nodup h.bound
  have hmem : c.remote.row k ∈ A := by
    refine hsub.subset ?_
    rw [done_succ]
    simp
  obtain ⟨a, a', hc, heq⟩ := cut_isRow hmem
  obtain ⟨-, -, hbefore⟩ := cut_eq_some_iff.mp hc
  have hitems : z.items = a ++ c.remote.row k :: (a' ++ c.rowsFrom b) := by
    rw [hA, heq, List.append_assoc, List.cons_append]
  have hcut :
    cut (isRow (c.remote.row k)) z.items = some (a, c.remote.row k, a' ++ c.rowsFrom b) := by
    rw [hitems]
    exact cut_append hbefore (isRow_self _)
  refine ⟨h.bound, ?_, ?_, ?_⟩
  · rw [Edit.items_seek]
    exact h.holds
  · rw [Edit.seek_found hcut]
    rw [heq, done_succ] at hsub
    rw [done_succ]
    refine sublist_upto hsub fun hin => ?_
    rw [hitems, List.nodup_middle, List.nodup_cons] at hnodup
    exact hnodup.1 (List.mem_append_right _ (List.mem_append_left _ hin))
  · rw [Edit.seek_found hcut]
    exact ⟨a', rfl⟩

theorem Synced.insert (h : c.Synced k b z) (hk : k < c.remote.height) (hb : c.rows.bwd k = none) :
    c.Synced (k + 1) b ((Edit.insert (c.remote.row k)).apply z) := by
  rw [Edit.insert_apply]
  refine ⟨hk, Holds.insert h.holds hb, ?_, h.after⟩
  rw [done_succ]
  exact h.before.append (List.Sublist.refl _)

/-- A move fetches the row to the cursor, from either side. -/
theorem Synced.move (h : c.Synced k b z) (hb : c.rows.bwd k = some l) (hl : l < b) :
    c.Synced (k + 1) b ((Edit.move (isRow (c.locals.row l)) fun _ => c.remote.row k).apply z) := by
  have hf := fwd_of_bwd hb
  have hnot := pending_not_done (fwd_lt hf).1 h.bound (pending_self hb)
  obtain ⟨A, hA⟩ := h.after
  cases hc : cut (isRow (c.locals.row l)) z.before with
  | some p =>
    obtain ⟨a, x, a'⟩ := p
    obtain ⟨heq, hx, -⟩ := cut_eq_some_iff.mp hc
    obtain rfl : x = c.locals.row l := of_decide_eq_true hx
    have hbefore := h.before
    rw [heq] at hbefore
    rw [Edit.move_back _ hc]
    refine ⟨(fwd_lt hf).2, ?_, ?_, A, hA⟩
    · refine h.holds.pair hb (b := a' ++ z.after) ?_ (List.append_assoc _ _ _)
      unfold Zipper.items
      rw [heq, List.append_assoc, List.cons_append]
    · rw [done_succ]
      exact (sublist_without hbefore hnot).append (List.Sublist.refl _)
  | none =>
    have hin : c.locals.row l ∈ A := by
      have hmem : c.locals.row l ∈ z.before ++ (A ++ c.rowsFrom b) := by
        rw [← hA]
        exact h.holds.mem hb
      rcases List.mem_append.mp hmem with hmem | hmem
      · exact absurd (cut_eq_none_iff.mp hc _ hmem) (by rw [isRow_self]; decide)
      · exact (List.mem_append.mp hmem).resolve_right (not_mem_rowsFrom (fwd_lt hf).1 hl)
    obtain ⟨a, a', hca, heq⟩ := cut_isRow hin
    have hafter : z.after = a ++ c.locals.row l :: (a' ++ c.rowsFrom b) := by
      rw [hA, heq, List.append_assoc, List.cons_append]
    have hcut :
      cut (isRow (c.locals.row l)) z.after = some (a, c.locals.row l, a' ++ c.rowsFrom b) := by
      rw [hafter]
      exact cut_append (cut_eq_some_iff.mp hca).2.2 (isRow_self _)
    rw [Edit.move_forth _ hc hcut]
    refine ⟨(fwd_lt hf).2, ?_, ?_, a ++ a', by rw [List.append_assoc]⟩
    · refine h.holds.pair hb (a := z.before ++ a) (b := a' ++ c.rowsFrom b) ?_
        (List.append_assoc _ _ _).symm
      unfold Zipper.items
      rw [hafter, List.append_assoc]
    · rw [done_succ]
      exact h.before.append (List.Sublist.refl _)

/-- A row below all those reached is found in its place. -/
theorem Placed.inPlace (h : c.Placed k b z.items) (hb : c.rows.bwd k = some l) (hl : b ≤ l) :
    ∃ pre, c.Synced (k + 1) (l + 1) ⟨pre ++ [c.remote.row k], c.rowsFrom (l + 1)⟩ ∧
      (Edit.update (isRow (c.locals.row l)) fun _ => c.remote.row k).apply z =
        ⟨pre ++ [c.remote.row k], c.rowsFrom (l + 1)⟩ ∧
      z.items = pre ++ [c.locals.row l] ++ c.rowsFrom (l + 1) ∧ ∀ i, b ≤ i → i < l →
        c.locals.row i ∈ pre := by
  have hf := fwd_of_bwd hb
  have hlt := (fwd_lt hf).1
  obtain ⟨A, hA, hsub⟩ := h.split
  have hitems : z.items = (A ++ (List.range' b (l - b)).map c.locals.row) ++ c.locals.row l ::
    c.rowsFrom (l + 1) := by
    rw [hA, rowsFrom_split hl (Nat.le_of_lt hlt), rowsFrom_succ hlt, List.append_assoc]
  have hnodup := h.holds.nodup h.bound
  rw [hitems, List.nodup_middle, List.nodup_cons] at hnodup
  have hcut : cut (isRow (c.locals.row l)) z.items =
      some (A ++ (List.range' b (l - b)).map c.locals.row, c.locals.row l, c.rowsFrom (l + 1)) := by
    rw [hitems]
    refine cut_append (fun y hy => decide_eq_false ?_) (isRow_self _)
    rintro rfl
    exact hnodup.1 (List.mem_append_left _ hy)
  refine ⟨_, ⟨(fwd_lt hf).2, h.holds.pair hb hitems rfl, ?_, [], rfl⟩, Edit.update_found _ hcut, ?_,
    fun i h1 h2 => ?_⟩
  · rw [done_succ]
    exact (hsub.trans (List.sublist_append_left _ _)).append (List.Sublist.refl _)
  · rw [hitems, List.append_assoc, List.append_assoc, List.append_assoc, List.singleton_append]
  · exact List.mem_append_right _ (List.mem_map.mpr ⟨i, List.mem_range'_1.mpr ⟨h1, by omega⟩, rfl⟩)

end

end

end Comparison

end Coopy
