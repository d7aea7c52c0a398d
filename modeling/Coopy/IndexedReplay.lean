import Coopy.IndexedConditions

/-!
# When the shorter conditions find the same rows

Along the sweep the sheet falls into three parts: what stands in front of the local rows
still to come (`A`), these rows, and additions that were put at the end before anything
had set the cursor (`E`).  `A` holds remote rows only, known from the matching
(`Stood`), and a search for a local row can go wrong only there.

    cut conditions = full conditions, as replayed  ↔  no mistaken row in any A      (cut_same_iff)
-/

namespace Coopy

open Lib Merger

namespace Comparison

variable (c : Comparison)

/-- The local row is deleted, or updated to a different row. -/
def Changed (l : Nat) : Prop := l < c.locals.height ∧ ∀ r, c.rows.fwd l = some r →
    c.locals.row l ≠ c.remote.row r

/-- When the local row `l` is looked for, the remote row `r` stands in front of it: its partner came
before `l`, or it was added behind a changed row that came before `l`. -/
def StandsBefore (l r : Nat) : Prop :=
  (∃ l0 < l, c.rows.bwd r = some l0) ∨
    (c.rows.bwd r = none ∧ (∃ k ≤ l, ∃ s, c.rows.fwd k = some s ∧ r < s) ∧
      ∃ l0 < l, c.Changed l0 ∧ ∀ k ≤ l0, ∀ s, c.rows.fwd k = some s → s < r)

/-- No row that stands in front of a changed row looks like it in the kept columns. -/
def Unmistaken : Prop :=
  ∀ l, c.Changed l → ∀ r < c.remote.height, c.StandsBefore l r →
  c.looksLike l (c.remote.row r) = false

/-! ## The sheet along the sweep -/

/-- The remote row `r` stands in front of the local rows from `k` on, with the additions below `br`
made. -/
def Stood (k br r : Nat) : Prop :=
  (∃ l0 < k, c.rows.bwd r = some l0) ∨
    (c.rows.bwd r = none ∧ r < br ∧ ∃ l0 < k, c.Changed l0 ∧
      ∀ k' ≤ l0, ∀ s, c.rows.fwd k' = some s → s < r)

/-- The sheet when the local rows below `k` and the additions below `br` have been dealt with. -/
structure Laid (k br : Nat) (z : Zipper (List SheetCell)) (A E : List (List SheetCell)) : Prop where
  items : z.items = A ++ c.rowsFrom k ++ E
  -- the cursor is in `A` once a row has changed, and at the end before that
  changed : (∃ l0 < k, c.Changed l0) → ∃ A2, A = z.before ++ A2
  fresh : (¬∃ l0 < k, c.Changed l0) → z.after = []
  front : ∀ row, row ∈ A ↔ ∃ r < c.remote.height, c.Stood k br r ∧ row = c.remote.row r

section
variable {c} {assumeHeader : Bool}

theorem laid_start : c.Laid 0 0 (Zipper.atEnd c.locals.rows) [] [] := by
  refine ⟨?_, fun ⟨l0, h, _⟩ => absurd h (Nat.not_lt_zero _), fun _ => rfl,
    fun row => ⟨fun h => (by cases h), ?_⟩⟩
  · rw [Zipper.items_atEnd, List.nil_append, List.append_nil, rowsFrom_zero]
  · rintro ⟨r, -, ⟨l0, h, -⟩ | ⟨-, h, -⟩, -⟩ <;> exact absurd h (Nat.not_lt_zero _)

/-! ## Additions -/

/-- One addition. -/
theorem Laid.insert {k lo : Nat} {z : Zipper (List SheetCell)} {A E : List (List SheetCell)}
    (h : c.Laid k lo z A E) (hlo : lo < c.remote.height) (hb : c.rows.bwd lo = none)
    (hpart : ∀ k' < k, ∀ s, c.rows.fwd k' = some s → s ≤ lo) :
    ∃ A' E', c.Laid k (lo + 1) ((Edit.insert (c.remote.row lo)).apply z) A' E' := by
  rw [Edit.insert_apply]
  have hless : ∀ k' < k, ∀ s, c.rows.fwd k' = some s → s < lo := by
    intro k' hk' s hs
    have hle := hpart k' hk' s hs
    rcases Nat.lt_or_eq_of_le hle with hlt | rfl
    · exact hlt
    · rw [(c.rows.fwd_eq_some_iff k' s).mp hs] at hb
      cases hb
  by_cases hch : ∃ l0 < k, c.Changed l0
  · -- it goes in at the cursor, in front of the rows to come
    obtain ⟨A2, hA⟩ := h.changed hch
    refine ⟨z.before ++ [c.remote.row lo] ++ A2, E, ?_, fun _ => ⟨A2, rfl⟩,
      fun hno => absurd hch hno, fun row => ?_⟩
    · have hafter : z.after = A2 ++ c.rowsFrom k ++ E := by
        have := h.items
        rw [hA] at this
        unfold Zipper.items at this
        rw [List.append_assoc z.before, List.append_assoc z.before] at this
        exact List.append_cancel_left this
      rw [Zipper.items_mk, hafter]
      simp only [List.append_assoc]
    · have hmem : row ∈ z.before ++ [c.remote.row lo] ++ A2 ↔ row ∈ A ∨ row = c.remote.row lo := by
        rw [hA]
        simp only [List.mem_append, List.mem_singleton]
        tauto
      rw [hmem, h.front]
      constructor
      · rintro (⟨r, hr, hst, rfl⟩ | rfl)
        · exact ⟨r, hr, hst.imp_right fun ⟨h1, h2, h3⟩ => ⟨h1, by omega, h3⟩, rfl⟩
        · obtain ⟨l0, hl0, hc0⟩ := hch
          exact ⟨lo, hlo, Or.inr ⟨hb, by omega, l0, hl0, hc0, fun k' hk' => hless k' (by omega)⟩,
            rfl⟩
      · rintro ⟨r, hr, hst, rfl⟩
        by_cases he : r = lo
        · exact Or.inr (by rw [he])
        · exact Or.inl ⟨r, hr, hst.imp_right fun ⟨h1, h2, h3⟩ => ⟨h1, by omega, h3⟩, rfl⟩
  · -- nothing has set the cursor: it goes to the end
    have hafter := h.fresh hch
    refine ⟨A, E ++ [c.remote.row lo], ?_, fun hyes => absurd hyes hch,
      fun _ => hafter, fun row => ?_⟩
    · have hbefore : z.before = A ++ c.rowsFrom k ++ E := by
        rw [← h.items]
        unfold Zipper.items
        rw [hafter, List.append_nil]
      rw [Zipper.items_mk, hbefore, hafter, List.append_nil]
      simp only [List.append_assoc]
    · rw [h.front]
      refine exists_congr fun r => and_congr_right fun _ => and_congr_left fun _ =>
        or_congr_right ?_
      exact ⟨fun ⟨_, _, l0, hl0, hc0, _⟩ => absurd ⟨l0, hl0, hc0⟩ hch,
        fun ⟨_, _, l0, hl0, hc0, _⟩ => absurd ⟨l0, hl0, hc0⟩ hch⟩

/-- A matched remote row is passed over. -/
theorem Laid.pass {k lo : Nat} {z : Zipper (List SheetCell)} {A E : List (List SheetCell)}
    (h : c.Laid k lo z A E) (hb : c.rows.bwd lo ≠ none) : c.Laid k (lo + 1) z A E := by
  refine ⟨h.items, h.changed, h.fresh, fun row => (h.front row).trans ?_⟩
  refine exists_congr fun r => and_congr_right fun _ => and_congr_left fun _ => or_congr_right ?_
  constructor
  · rintro ⟨h1, h2, h3⟩
    exact ⟨h1, by omega, h3⟩
  · rintro ⟨h1, h2, h3⟩
    refine ⟨h1, ?_, h3⟩
    rcases Nat.lt_or_eq_of_le (Nat.le_of_lt_succ h2) with hlt | rfl
    · exact hlt
    · exact absurd h1 hb

/-- The additions up to `hi`. -/
theorem Laid.insertsIn {k hi : Nat} (hhi : hi ≤ c.remote.height) (n : Nat) :
    ∀ {lo : Nat} {z : Zipper (List SheetCell)}
    {A E : List (List SheetCell)}, lo + n = hi → c.Laid k lo z A E →
    (∀ k' < k, ∀ s, c.rows.fwd k' = some s → s ≤ lo) →
    ∃ A' E', c.Laid k hi (Edit.run ((OrderMerge.insertsIn c.rows lo hi).flatMap c.unitEdits) z) A'
    E' := by
  induction n with
  | zero =>
    intro lo z A E hlo h _
    rw [OrderMerge.insertsIn_of_le (by omega)]
    exact ⟨A, E, by rw [← show lo = hi by omega]; exact h⟩
  | succ n ih =>
    intro lo z A E hlo h hpart
    rw [OrderMerge.insertsIn_succ (by omega), List.flatMap_append, Edit.run_append]
    have hnext : ∀ k' < k, ∀ s, c.rows.fwd k' = some s → s ≤ lo + 1 :=
      fun k' hk' s hs => (hpart k' hk' s hs).trans (Nat.le_succ lo)
    by_cases hb : c.rows.bwd lo = none
    · obtain ⟨A', E', h'⟩ := h.insert (by omega) hb hpart
      rw [if_pos hb, List.flatMap_singleton, unitEdits_insert]
      exact ih (by omega) h' hnext
    · rw [if_neg hb]
      exact ih (by omega) (h.pass hb) hnext

theorem cutEdits_insertsIn (lo hi : Nat) :
    (OrderMerge.insertsIn c.rows lo hi).flatMap (c.cutEdits assumeHeader) =
      (OrderMerge.insertsIn c.rows lo hi).flatMap c.unitEdits := by
  refine List.flatMap_congr fun u hu => ?_
  obtain ⟨r, -, -, -, rfl⟩ := OrderMerge.mem_insertsIn.mp hu
  rw [cutEdits_insert, unitEdits_insert]

/-! ## One local row -/

section
variable {k br : Nat} (hbr : ∀ r, r < br ↔ ∃ k' ≤ k, ∃ s, c.rows.fwd k' = some s ∧ r < s)

include hbr

theorem stood_succ_pair {s : Nat} (hs : c.rows.fwd k = some s) (r : Nat) :
    c.Stood (k + 1) br r ↔ c.Stood k br r ∨ r = s := by
  have hb := (c.rows.fwd_eq_some_iff k s).mp hs
  constructor
  · rintro (⟨l0, hl0, hr⟩ | ⟨h1, h2, l0, hl0, hc0, h3⟩)
    · rcases Nat.lt_or_eq_of_le (Nat.le_of_lt_succ hl0) with hlt | rfl
      · exact Or.inl (Or.inl ⟨l0, hlt, hr⟩)
      · exact Or.inr (Option.some.inj (((c.rows.fwd_eq_some_iff l0 r).mpr hr).symm.trans hs))
    · rcases Nat.lt_or_eq_of_le (Nat.le_of_lt_succ hl0) with hlt | rfl
      · exact Or.inl (Or.inr ⟨h1, h2, l0, hlt, hc0, h3⟩)
      · -- an addition already made stands in front of some partner
        obtain ⟨k', hk', s', hs', hlt⟩ := (hbr r).mp h2
        have := h3 k' hk' s' hs'
        omega
  · rintro ((⟨l0, hl0, hr⟩ | ⟨h1, h2, l0, hl0, hc0, h3⟩) | rfl)
    · exact Or.inl ⟨l0, by omega, hr⟩
    · exact Or.inr ⟨h1, h2, l0, by omega, hc0, h3⟩
    · exact Or.inl ⟨k, by omega, hb⟩

theorem stood_succ_delete (hs : c.rows.fwd k = none) (r : Nat) :
    c.Stood (k + 1) br r ↔ c.Stood k br r := by
  constructor
  · rintro (⟨l0, hl0, hr⟩ | ⟨h1, h2, l0, hl0, hc0, h3⟩)
    · rcases Nat.lt_or_eq_of_le (Nat.le_of_lt_succ hl0) with hlt | rfl
      · exact Or.inl ⟨l0, hlt, hr⟩
      · rw [(c.rows.fwd_eq_some_iff l0 r).mpr hr] at hs
        cases hs
    · rcases Nat.lt_or_eq_of_le (Nat.le_of_lt_succ hl0) with hlt | rfl
      · exact Or.inr ⟨h1, h2, l0, hlt, hc0, h3⟩
      · obtain ⟨k', hk', s', hs', hlt⟩ := (hbr r).mp h2
        have := h3 k' hk' s' hs'
        omega
  · rintro (⟨l0, hl0, hr⟩ | ⟨h1, h2, l0, hl0, hc0, h3⟩)
    · exact Or.inl ⟨l0, by omega, hr⟩
    · exact Or.inr ⟨h1, h2, l0, by omega, hc0, h3⟩

/-- What stands in front of `k` when it is looked for. -/
theorem stood_iff (r : Nat) : c.Stood k br r ↔ c.StandsBefore k r := by
  unfold Stood StandsBefore
  rw [hbr r]

variable {z : Zipper (List SheetCell)} {A E : List (List SheetCell)} (h : c.Laid k br z A E)
    (hk : k < c.locals.height)

include h in
theorem front_pair {s : Nat} (hs : c.rows.fwd k = some s) (row : List SheetCell) :
    row ∈ A ++ [c.remote.row s] ↔ ∃ r < c.remote.height, c.Stood (k + 1) br r ∧
    row = c.remote.row r := by
  rw [List.mem_append, List.mem_singleton, h.front]
  simp only [stood_succ_pair hbr hs]
  constructor
  · rintro (⟨r, hr, hst, rfl⟩ | rfl)
    · exact ⟨r, hr, Or.inl hst, rfl⟩
    · exact ⟨s, (fwd_lt hs).2, Or.inr rfl, rfl⟩
  · rintro ⟨r, hr, hst | rfl, rfl⟩
    · exact Or.inl ⟨r, hr, hst, rfl⟩
    · exact Or.inr rfl

include h hk

theorem Laid.unchanged {s : Nat} (hs : c.rows.fwd k = some s)
    (heq : c.locals.row k = c.remote.row s) : c.Laid (k + 1) br z (A ++ [c.remote.row s]) E := by
  have hnot : ¬c.Changed k := fun hc => hc.2 s hs heq
  have hback : (∃ l0 < k + 1, c.Changed l0) → ∃ l0 < k, c.Changed l0 := by
    rintro ⟨l0, hl0, hc0⟩
    rcases Nat.lt_or_eq_of_le (Nat.le_of_lt_succ hl0) with hlt | rfl
    · exact ⟨l0, hlt, hc0⟩
    · exact absurd hc0 hnot
  refine ⟨?_, fun hch => ?_, fun hno => h.fresh fun ⟨l0, hl0, hc0⟩ => hno ⟨l0, by omega, hc0⟩,
    front_pair hbr h hs⟩
  · rw [h.items, rowsFrom_succ hk, heq]
    simp only [List.append_assoc, List.cons_append, List.nil_append]
  · obtain ⟨A2, hA⟩ := h.changed (hback hch)
    exact ⟨A2 ++ [c.remote.row s], by rw [hA, List.append_assoc]⟩

omit hk in
theorem Laid.updated {s : Nat} (hs : c.rows.fwd k = some s) (hch : c.Changed k) :
    c.Laid (k + 1) br ⟨A ++ [c.remote.row s], c.rowsFrom (k + 1) ++ E⟩ (A ++ [c.remote.row s]) E :=
  ⟨by rw [Zipper.items_mk, List.append_assoc (A ++ _)], fun _ => ⟨[], (List.append_nil _).symm⟩,
    fun hno => absurd ⟨k, by omega, hch⟩ hno, front_pair hbr h hs⟩

omit hk in
theorem Laid.deleted (hs : c.rows.fwd k = none) (hch : c.Changed k) :
    c.Laid (k + 1) br ⟨A, c.rowsFrom (k + 1) ++ E⟩ A E :=
  ⟨by rw [Zipper.items_mk, List.append_assoc A], fun _ => ⟨[], (List.append_nil _).symm⟩,
    fun hno => absurd ⟨k, by omega, hch⟩ hno, fun row => by
      rw [h.front]
      simp only [stood_succ_delete hbr hs]⟩

end

/-- The unit of a local row. -/
theorem unitAt_eq {k : Nat} (hk : k < c.locals.height) :
    OrderMerge.unitAt (Matching.identity c.locals.height) c.rows k =
      match c.rows.fwd k with
      | none => deleteUnit k
      | some s => pairUnit k s := OrderMerge.unitAt_identity c.rows hk

theorem changed_of_none {k : Nat} (hk : k < c.locals.height)
    (hs : c.rows.fwd k = none) : c.Changed k :=
  ⟨hk, fun r hr => by rw [hs] at hr; cases hr⟩

/-- A changed local row is none of the remote's. -/
theorem Changed.ne {k : Nat} (h : c.Changed k) {r : Nat} (hr : r < c.remote.height) :
    c.remote.row r ≠ c.locals.row k := by
  intro he
  have hf := (c.rows.a2b_eq_iff k r).mp (c.equal_paired k h.1 r hr he.symm)
  exact h.2 r hf he.symm

section
variable {k br : Nat} {z : Zipper (List SheetCell)} {A E : List (List SheetCell)}
    (h : c.Laid k br z A E)
  (hk : k < c.locals.height)

include h hk

theorem Laid.items_succ : z.items = A ++ c.locals.row k :: (c.rowsFrom (k + 1) ++ E) := by
  rw [h.items, rowsFrom_succ hk]
  simp only [List.append_assoc, List.cons_append]

/-- The search for the whole row goes to its place. -/
theorem Laid.cut_row (hch : c.Changed k) :
    cut (isRow (c.locals.row k)) z.items = some (A, c.locals.row k, c.rowsFrom (k + 1) ++ E) := by
  rw [h.items_succ hk]
  refine cut_append (fun row hrow => ?_) (isRow_self _)
  obtain ⟨r, hr, -, rfl⟩ := (h.front row).mp hrow
  exact decide_eq_false (hch.ne hr)

/-- So does the search by the kept columns, if nothing in front looks like the row. -/
theorem Laid.cut_looksLike (hno : ∀ r < c.remote.height, c.Stood k br r →
    c.looksLike k (c.remote.row r) = false) :
    cut (c.looksLike k) z.items = some (A, c.locals.row k, c.rowsFrom (k + 1) ++ E) := by
  rw [h.items_succ hk]
  refine cut_append (fun row hrow => ?_) (looksLike_self k)
  obtain ⟨r, hr, hst, rfl⟩ := (h.front row).mp hrow
  exact hno r hr hst

/-- Otherwise it stops in front of the row, which is left behind. -/
theorem Laid.cut_mistaken {r : Nat} (hr : r < c.remote.height) (hst : c.Stood k br r)
    (hlike : c.looksLike k (c.remote.row r) = true) :
    ∃ a x b, cut (c.looksLike k) z.items = some (a, x, b) ∧ c.locals.row k ∈ b := by
  have hmem : c.remote.row r ∈ A := (h.front _).mpr ⟨r, hr, hst, rfl⟩
  obtain ⟨⟨a, x, b⟩, hc⟩ := exists_cut hmem hlike
  obtain ⟨rfl, hx, ha⟩ := cut_eq_some_iff.mp hc
  refine ⟨a, x, b ++ c.locals.row k :: (c.rowsFrom (k + 1) ++ E), ?_, by simp⟩
  rw [h.items_succ hk, List.append_assoc, List.cons_append]
  exact cut_append ha hx

include h hk in
/-- With nothing mistaken the unit of a row is replayed alike. -/
theorem Laid.unit_same (hbr : ∀ r, r < br ↔ ∃ k' ≤ k, ∃ s, c.rows.fwd k' = some s ∧ r < s)
    (hno : c.Changed k → ∀ r < c.remote.height, c.StandsBefore k r →
      c.looksLike k (c.remote.row r) = false) :
    Edit.run
      (c.cutEdits assumeHeader (OrderMerge.unitAt (Matching.identity c.locals.height) c.rows k)) z =
        Edit.run (c.unitEdits (OrderMerge.unitAt (Matching.identity c.locals.height) c.rows k)) z ∧
      ∃ A' E', c.Laid (k + 1) br
        (Edit.run (c.unitEdits (OrderMerge.unitAt (Matching.identity c.locals.height) c.rows k)) z)
          A' E' := by
  have hlike :
    c.Changed k → cut (c.looksLike k) z.items = some (A, c.locals.row k, c.rowsFrom (k + 1) ++ E) :=
    fun hch => h.cut_looksLike hk fun r hr hst => hno hch r hr ((stood_iff hbr r).mp hst)
  rw [unitAt_eq hk]
  cases hs : c.rows.fwd k with
  | none =>
    have hch := changed_of_none hk hs
    simp only [cutEdits_delete, unitEdits_delete, Edit.run_cons, Edit.run_nil,
      Edit.delete_found (hlike hch), Edit.delete_found (h.cut_row hk hch), true_and]
    exact ⟨A, E, h.deleted hbr hs hch⟩
  | some s =>
    simp only [cutEdits_pair, unitEdits_pair]
    by_cases heq : c.locals.row k = c.remote.row s
    · simp only [if_pos heq, Edit.run_nil, true_and]
      exact ⟨_, E, h.unchanged hbr hk hs heq⟩
    · have hch : c.Changed k := ⟨hk, fun r hr => by rw [hs] at hr; cases hr; exact heq⟩
      simp only [if_neg heq, Edit.run_cons, Edit.run_nil, Edit.update_found _ (hlike hch),
        Edit.update_found _ (h.cut_row hk hch), patched_pair hk (fwd_lt hs).2, true_and]
      exact ⟨_, E, h.updated hbr hs hch⟩

include h hk in
/-- With a mistaken row the local row stays behind. -/
theorem Laid.unit_mistaken (hbr : ∀ r, r < br ↔ ∃ k' ≤ k, ∃ s, c.rows.fwd k' = some s ∧ r < s)
    (hch : c.Changed k) {r : Nat} (hr : r < c.remote.height) (hst : c.StandsBefore k r)
    (hlike : c.looksLike k (c.remote.row r) = true) :
    c.locals.row k ∈ (Edit.run
      (c.cutEdits assumeHeader (OrderMerge.unitAt (Matching.identity c.locals.height) c.rows k))
        z).items := by
  obtain ⟨a, x, b, hcut, hmem⟩ := h.cut_mistaken hk hr ((stood_iff hbr r).mpr hst) hlike
  rw [unitAt_eq hk]
  cases hs : c.rows.fwd k with
  | none =>
    simp only [cutEdits_delete, Edit.run_cons, Edit.run_nil, Edit.delete_found hcut]
    exact List.mem_append_right _ hmem
  | some s =>
    simp only [cutEdits_pair, if_neg (hch.2 s hs), Edit.run_cons, Edit.run_nil,
      Edit.update_found _ hcut]
    exact List.mem_append_right _ hmem

end

/-- A row left behind is touched by no other search. -/
theorem stays {l : Nat} (hl : l < c.locals.height) (us : List MatchUnit)
    (hus : ∀ u ∈ us, c.IsUnit u ∧ u.localUnit ≠ l) :
    ∀ z : Zipper (List SheetCell), c.locals.row l ∈ z.items →
      c.locals.row l ∈ (Edit.run (us.flatMap (c.cutEdits assumeHeader)) z).items := by
  have hfound :
    ∀ {k : Nat} {z : Zipper (List SheetCell)} {a b : List (List SheetCell)} {x : List SheetCell},
      k < c.locals.height → l ≠ k → c.locals.row l ∈ z.items →
      cut (c.looksLike k) z.items = some (a, x, b) →
      c.locals.row l ∈ a ∨ c.locals.row l ∈ b := by
    intro k z a b x hk hne hmem hcut
    obtain ⟨heq, hx, -⟩ := cut_eq_some_iff.mp hcut
    rw [heq, List.mem_append, List.mem_cons] at hmem
    rcases hmem with hmem | rfl | hmem
    · exact Or.inl hmem
    · rw [looksLike_other hk hl hne] at hx
      cases hx
    · exact Or.inr hmem
  induction us with
  | nil => exact fun z hz => hz
  | cons u us ih =>
    intro z hz
    rw [List.flatMap_cons, Edit.run_append]
    refine ih (fun w hw => hus w (List.mem_cons_of_mem _ hw)) _ ?_
    obtain ⟨hu, hne⟩ := hus u (by simp)
    cases hu with
    | @pair k s hf =>
      have hne : l ≠ k := fun he => hne (by rw [he]; rfl)
      rw [cutEdits_pair]
      split
      · exact hz
      · rw [Edit.run_cons, Edit.run_nil]
        cases hc : cut (c.looksLike k) z.items with
        | none =>
          rw [Edit.update_missed _ hc, Zipper.items_atEnd]
          exact hz
        | some p =>
          rw [Edit.update_found _ hc, Zipper.items_mk, List.mem_append, List.mem_append]
          exact (hfound (fwd_lt hf).1 hne hz hc).imp_left Or.inl
    | @insert s hs hb =>
      rw [cutEdits_insert, Edit.run_cons, Edit.run_nil, Edit.insert_apply, Zipper.items_mk,
        List.mem_append, List.mem_append]
      exact (List.mem_append.mp hz).imp_left Or.inl
    | @delete k hk hf =>
      have hne : l ≠ k := fun he => hne (by rw [he]; rfl)
      rw [cutEdits_delete, Edit.run_cons, Edit.run_nil]
      cases hc : cut (c.looksLike k) z.items with
      | none =>
        rw [Edit.delete_missed hc]
        exact hz
      | some p =>
        rw [Edit.delete_found hc, Zipper.items_mk, List.mem_append]
        exact hfound hk hne hz hc

/-! ## The whole sweep -/

theorem partner_eq {k : Nat} (hk : k < c.locals.height) :
    OrderMerge.partner (Matching.identity c.locals.height) c.rows k = c.rows.fwd k := by
  unfold OrderMerge.partner
  rw [Matching.identity_bwd, if_pos hk]
  rfl

/-- The additions in front of row `k`, and how far the remote has been swept when it is looked
for. -/
theorem sweepFrom_cons {k : Nat} (hk : k < c.locals.height) (ks : List Nat) (br : Nat) :
    ∃ hi, OrderMerge.sweepFrom (Matching.identity c.locals.height) c.rows (k :: ks) br =
        OrderMerge.insertsIn c.rows br hi ++ OrderMerge.unitAt
          (Matching.identity c.locals.height) c.rows k ::
          OrderMerge.sweepFrom (Matching.identity c.locals.height) c.rows ks (max br hi) ∧
      (hi ≤ c.remote.height) ∧ ∀ r, r < max br hi ↔
        r < br ∨ ∃ s, c.rows.fwd k = some s ∧ r < s := by
  cases hs : c.rows.fwd k with
  | none =>
    refine ⟨0, ?_, Nat.zero_le _, fun r => ?_⟩
    · simp only [OrderMerge.sweepFrom, partner_eq hk, hs,
        OrderMerge.insertsIn_of_le (Nat.zero_le _), List.nil_append,
        Nat.max_eq_left (Nat.zero_le _)]
    · simp
  | some s =>
    refine ⟨s, ?_, (fwd_lt hs).2.le, fun r => ?_⟩
    · simp only [OrderMerge.sweepFrom, partner_eq hk, hs]
    · simp

theorem sweepFrom_units {k br : Nat} {ks : List Nat} (hks : ∀ j ∈ ks, k < j ∧ j < c.locals.height)
    (hbr : br ≤ c.remote.height) :
    ∀ u ∈ OrderMerge.sweepFrom (Matching.identity c.locals.height) c.rows ks br, c.IsUnit u ∧
    u.localUnit ≠ k := by
  intro u hu
  rcases List.mem_append.mp ((OrderMerge.sweepFrom_perm ks br hbr).mem_iff.mp hu) with h | h
  · obtain ⟨j, hj, rfl⟩ := List.mem_map.mp h
    obtain ⟨hlt, hj⟩ := hks j hj
    rw [unitAt_eq hj]
    cases hs : c.rows.fwd j with
    | none => exact ⟨IsUnit.delete hj hs, by show (j : Int) ≠ k; omega⟩
    | some s => exact ⟨IsUnit.pair hs, by show (j : Int) ≠ k; omega⟩
  · obtain ⟨r, -, hr, hb, rfl⟩ := OrderMerge.mem_insertsIn.mp h
    exact ⟨IsUnit.insert hr hb, by show (-1 : Int) ≠ k; omega⟩

/-- **The sweep from row `k` on.**  Without a mistaken row both replays are the same; with one, some
changed local row is left over. -/
theorem run_cutEdits (assumeHeader : Bool) (n : Nat) :
    ∀ {k br : Nat} {z : Zipper (List SheetCell)} {A E : List (List SheetCell)},
    k + n = c.locals.height → br ≤ c.remote.height → c.Laid k br z A E →
    (∀ r, r < br ↔ ∃ k' < k, ∃ s, c.rows.fwd k' = some s ∧ r < s) →
    ((∀ l, k ≤ l → c.Changed l → ∀ r < c.remote.height, c.StandsBefore l r →
      c.looksLike l (c.remote.row r) = false) → Edit.run
        ((OrderMerge.sweepFrom (Matching.identity c.locals.height) c.rows
          (List.range' k n) br).flatMap
            (c.cutEdits assumeHeader)) z =
        Edit.run
          ((OrderMerge.sweepFrom (Matching.identity c.locals.height) c.rows
            (List.range' k n) br).flatMap
          c.unitEdits) z) ∧
    ((∃ l, k ≤ l ∧ c.Changed l ∧ ∃ r < c.remote.height, c.StandsBefore l r ∧
      c.looksLike l (c.remote.row r) = true) → ∃ l, c.Changed l ∧
        c.locals.row l ∈ (Edit.run
          ((OrderMerge.sweepFrom (Matching.identity c.locals.height) c.rows
            (List.range' k n) br).flatMap
          (c.cutEdits assumeHeader)) z).items) := by
  induction n with
  | zero =>
    intro k br z A E hk _ _ _
    refine ⟨fun _ => ?_, fun ⟨l, hl, hch, _⟩ => absurd hch.1 (by omega)⟩
    show Edit.run ((OrderMerge.insertsIn c.rows br c.remote.height).flatMap _) z =
      Edit.run ((OrderMerge.insertsIn c.rows br c.remote.height).flatMap _) z
    rw [cutEdits_insertsIn]
  | succ n ih =>
    intro k br z A E hk hbrle h hbr
    have hklt : k < c.locals.height := by omega
    obtain ⟨hi, hsweep, hhi, hmax⟩ := sweepFrom_cons hklt (List.range' (k + 1) n) br
    have hins : OrderMerge.insertsIn c.rows br hi = OrderMerge.insertsIn c.rows br (max br hi) := by
      rcases Nat.le_total hi br with hle | hle
      · rw [OrderMerge.insertsIn_of_le hle, Nat.max_eq_left hle,
          OrderMerge.insertsIn_of_le (Nat.le_refl _)]
      · rw [Nat.max_eq_right hle]
    have hpart : ∀ k' < k, ∀ s, c.rows.fwd k' = some s → s ≤ br := by
      intro k' hk' s hs
      by_contra hlt
      exact Nat.lt_irrefl br ((hbr br).mpr ⟨k', hk', s, hs, by omega⟩)
    have hbr' : ∀ r, r < max br hi ↔ ∃ k' ≤ k, ∃ s, c.rows.fwd k' = some s ∧ r < s := by
      intro r
      rw [hmax, hbr]
      constructor
      · rintro (⟨k', hk', hs⟩ | hs)
        · exact ⟨k', by omega, hs⟩
        · exact ⟨k, Nat.le_refl _, hs⟩
      · rintro ⟨k', hk', hs⟩
        rcases Nat.lt_or_eq_of_le hk' with hlt | rfl
        · exact Or.inl ⟨k', hlt, hs⟩
        · exact Or.inr hs
    obtain ⟨A1, E1, h1⟩ :=
      Laid.insertsIn (show max br hi ≤ c.remote.height by omega) (max br hi - br) (by omega) h hpart
    rw [List.range'_succ, hsweep, hins]
    simp only [List.flatMap_append, List.flatMap_cons, Edit.run_append, cutEdits_insertsIn]
    have hnext : ∀ r, r < max br hi ↔ ∃ k' < k + 1, ∃ s, c.rows.fwd k' = some s ∧ r < s := by
      intro r
      rw [hbr' r]
      simp only [Nat.lt_succ_iff]
    by_cases hfail : c.Changed k ∧ ∃ r < c.remote.height, c.StandsBefore k r ∧
      c.looksLike k (c.remote.row r) = true
    · obtain ⟨hch, r, hr, hst, hlike⟩ := hfail
      refine ⟨fun hno => ?_, fun _ => ⟨k, hch, ?_⟩⟩
      · rw [hno k (Nat.le_refl _) hch r hr hst] at hlike
        cases hlike
      · refine stays hklt _ (sweepFrom_units (fun j hj => ?_) (by omega)) _
          (h1.unit_mistaken hklt hbr' hch hr hst hlike)
        rw [List.mem_range'_1] at hj
        omega
    · have hfine : c.Changed k → ∀ r < c.remote.height, c.StandsBefore k r →
        c.looksLike k (c.remote.row r) = false := by
        intro hch r hr hst
        by_contra hlike
        exact hfail ⟨hch, r, hr, hst, by simpa using hlike⟩
      obtain ⟨hsame, A2, E2, h2⟩ := h1.unit_same hklt hbr' hfine
      rw [hsame]
      obtain ⟨ih1, ih2⟩ := ih (by omega) (by omega) h2 hnext
      refine ⟨fun hno => ih1 fun l hl => hno l (by omega), ?_⟩
      rintro ⟨l, hl, hch, hlike⟩
      rcases Nat.lt_or_eq_of_le hl with hlt | rfl
      · exact ih2 ⟨l, hlt, hch, hlike⟩
      · exact absurd ⟨hch, hlike⟩ hfail

end

/-- **Conditions on the kept columns.**  With order not in use, replaying the row changes with the
shorter conditions leaves the same sheet as replaying them with the full ones exactly when no
remote row stands in front of a changed local row and looks like it in the kept columns. -/
theorem cut_same_iff (c : Comparison) (zero : SheetCell) (assumeHeader : Bool) :
    ∃ r, merge (c.state false assumeHeader) = .ok r ∧
      (c.replay zero assumeHeader (r.rowChanges.map RowChange.cutCond) =
        c.replay zero assumeHeader r.rowChanges ↔ c.Unmistaken) := by
  obtain ⟨r, hr, hchanges⟩ := c.merge_unordered assumeHeader
  refine ⟨r, hr, ?_⟩
  rw [hchanges, replay_cut, replay_unordered]
  have hunits : c.units false = OrderMerge.sweepFrom (Matching.identity c.locals.height) c.rows
      (List.range' 0 c.locals.height) 0 := by
    rw [← List.range_eq_range']
    rfl
  obtain ⟨h1, h2⟩ := run_cutEdits assumeHeader c.locals.height (Nat.zero_add _)
    (Nat.zero_le _) c.laid_start
      (fun r =>
        ⟨fun h => absurd h (Nat.not_lt_zero _), fun ⟨k', h, _⟩ => absurd h (Nat.not_lt_zero _)⟩)
  rw [← hunits] at h1 h2
  constructor
  · intro hsame l hch s hs hst
    by_contra hlike
    obtain ⟨l', hch', hmem⟩ := h2 ⟨l, Nat.zero_le _, hch, s, hs, hst, by simpa using hlike⟩
    rw [Option.some.inj hsame] at hmem
    obtain ⟨t, ht, he⟩ := List.mem_iff_getElem.mp (c.run_units_perm.subset hmem)
    rw [← c.remote.row_eq_getElem ht] at he
    exact hch'.ne ht he
  · intro hno
    rw [h1 fun l _ => hno l]

/-- Local `1 a`, `3 c`, `2 b` and remote `1 x`, `2 z`, `3 c`, with the rows `1` and `3` paired. -/
def addedTwo : Comparison where
  locals := ⟨2, [textRow ["1", "a"], textRow ["3", "c"], textRow ["2", "b"]], by decide, by decide⟩
  remote := ⟨2, [textRow ["1", "x"], textRow ["2", "z"], textRow ["3", "c"]], by decide, by decide⟩
  names := ["id", "value"]
  rows := ⟨⟨[0, 2, -1], [0, -1, 1]⟩, rfl, rfl, by decide, by decide, by decide⟩
  names_ne_nil := by decide
  names_nodup := by decide
  usable := by decide
  local_width := rfl
  remote_width := rfl
  local_text := by decide
  remote_text := by decide
  local_nodup := by decide
  remote_nodup := by decide
  equal_paired := by decide

/-- The new row `2 z` goes in behind `1 x`; the deletion of `2 b`, by its index only, then takes
it. -/
theorem cut_differs_addedTwo : ∃ r, merge (addedTwo.state false false) = .ok r ∧
    addedTwo.replay SheetCell.null false (r.rowChanges.map RowChange.cutCond) ≠
      addedTwo.replay SheetCell.null false r.rowChanges := by
  obtain ⟨r, hr, hchanges⟩ := addedTwo.merge_unordered false
  refine ⟨r, hr, ?_⟩
  rw [hchanges]
  decide +kernel

end Comparison

end Coopy
