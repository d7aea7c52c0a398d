import Coopy.IndexedReplay

/-!
# Rows that are found in other ways

The edits of a comparison, with any search for a local row that finds it and no other local row.
They leave the rows of the remote, in whatever order, exactly if no remote row that stands in front
of a changed local row is taken for it.

    search l (local l) = true, search l (local j) = false →
      (edits leave the remote ↔ no row is mistaken)
                                                                                 (searched_perm_iff)
-/

namespace Coopy

open Lib Merger

namespace Comparison

variable (c : Comparison)

/-- The edits of a unit, with `search l` to find the local row `l`. -/
def searchEdits (search : Nat → List SheetCell → Bool) (assumeHeader : Bool) (u : MatchUnit) :
    List (Edit (List SheetCell)) :=
  match c.oldRow? u, c.newRow? u with
  | none, none => []
  | none, some new => [.insert new]
  | some _, none => [.delete (search u.localUnit.toNat)]
  | some old, some new => if old = new then [] else
    [.update (search u.localUnit.toNat)
      (RowChange.patched c.names (c.change false assumeHeader u).val)]

/-- The search finds the local row that is meant, and no other local row. -/
structure Searches (search : Nat → List SheetCell → Bool) : Prop where
  self : ∀ l < c.locals.height, search l (c.locals.row l) = true
  other : ∀ l < c.locals.height, ∀ j < c.locals.height, j ≠ l → search l (c.locals.row j) = false

/-- No row that stands in front of a changed row is taken for it. -/
def NoneMistaken (search : Nat → List SheetCell → Bool) : Prop :=
  ∀ l, c.Changed l → ∀ r < c.remote.height, c.StandsBefore l r → search l (c.remote.row r) = false

section
variable {c} {search : Nat → List SheetCell → Bool} {assumeHeader : Bool}

theorem searchEdits_pair (l r : Nat) : c.searchEdits search assumeHeader (pairUnit l r) =
    if c.locals.row l = c.remote.row r then [] else
      [.update (search l)
        (RowChange.patched c.names (c.change false assumeHeader (pairUnit l r)).val)] := by
  simp only [searchEdits, (rows_pair l r).1, (rows_pair l r).2]
  rfl

theorem searchEdits_insert (r : Nat) :
    c.searchEdits search assumeHeader (OrderMerge.insertUnit r) = [.insert (c.remote.row r)] := by
  simp only [searchEdits, (rows_insert r).1, (rows_insert r).2]

theorem searchEdits_delete (l : Nat) :
    c.searchEdits search assumeHeader (deleteUnit l) = [.delete (search l)] := by
  simp only [searchEdits, (rows_delete l).1, (rows_delete l).2]
  rfl

/-! ## One unit -/

section
variable {k br : Nat} {z : Zipper (List SheetCell)} {A E : List (List SheetCell)}
    (h : c.Laid k br z A E)
  (hk : k < c.locals.height) (hbr : ∀ r, r < br ↔ ∃ k' ≤ k, ∃ s, c.rows.fwd k' = some s ∧ r < s)

include h hk hbr

/-- The search goes to the place of the row, if nothing in front is taken for it. -/
theorem Laid.cut_search (hs : c.Searches search)
    (hno : ∀ r < c.remote.height, c.StandsBefore k r → search k (c.remote.row r) = false) :
    cut (search k) z.items = some (A, c.locals.row k, c.rowsFrom (k + 1) ++ E) := by
  rw [h.items_succ hk]
  refine cut_append (fun row hrow => ?_) (hs.self k hk)
  obtain ⟨r, hr, hst, rfl⟩ := (h.front row).mp hrow
  exact hno r hr ((stood_iff hbr r).mp hst)

/-- The unit is replayed as with all conditions. -/
theorem Laid.search_same (hs : c.Searches search)
    (hno : c.Changed k → ∀ r < c.remote.height, c.StandsBefore k r →
      search k (c.remote.row r) = false) :
    Edit.run
      (c.searchEdits search assumeHeader
        (OrderMerge.unitAt (Matching.identity c.locals.height) c.rows k)) z =
        Edit.run (c.unitEdits (OrderMerge.unitAt (Matching.identity c.locals.height) c.rows k)) z ∧
      ∃ A' E', c.Laid (k + 1) br
        (Edit.run (c.unitEdits (OrderMerge.unitAt (Matching.identity c.locals.height) c.rows k)) z)
          A' E' := by
  rw [unitAt_eq hk]
  cases hf : c.rows.fwd k with
  | none =>
    have hch := changed_of_none hk hf
    have hcut := h.cut_search hk hbr hs (hno hch)
    simp only [searchEdits_delete, unitEdits_delete, Edit.run_cons, Edit.run_nil,
      Edit.delete_found hcut, Edit.delete_found (h.cut_row hk hch), true_and]
    exact ⟨A, E, h.deleted hbr hf hch⟩
  | some s =>
    simp only [searchEdits_pair, unitEdits_pair]
    by_cases heq : c.locals.row k = c.remote.row s
    · simp only [if_pos heq, Edit.run_nil, true_and]
      exact ⟨_, E, h.unchanged hbr hk hf heq⟩
    · have hch : c.Changed k := ⟨hk, fun r hr => by rw [hf] at hr; cases hr; exact heq⟩
      have hcut := h.cut_search hk hbr hs (hno hch)
      simp only [if_neg heq, Edit.run_cons, Edit.run_nil, Edit.update_found _ hcut,
        Edit.update_found _ (h.cut_row hk hch), patched_pair hk (fwd_lt hf).2, true_and]
      exact ⟨_, E, h.updated hbr hf hch⟩

/-- If another row is taken for the local row, this one stays behind. -/
theorem Laid.search_mistaken (hch : c.Changed k) {r : Nat} (hr : r < c.remote.height)
    (hst : c.StandsBefore k r) (hlike : search k (c.remote.row r) = true) :
    c.locals.row k ∈ (Edit.run
      (c.searchEdits search assumeHeader
        (OrderMerge.unitAt (Matching.identity c.locals.height) c.rows k)) z).items := by
  have hmem : c.remote.row r ∈ A := (h.front _).mpr ⟨r, hr, (stood_iff hbr r).mpr hst, rfl⟩
  obtain ⟨⟨a, x, b⟩, hc⟩ := exists_cut hmem hlike
  obtain ⟨rfl, hx, ha⟩ := cut_eq_some_iff.mp hc
  have hcut :
    cut (search k) z.items = some (a, x, b ++ c.locals.row k :: (c.rowsFrom (k + 1) ++ E)) := by
    rw [h.items_succ hk, List.append_assoc, List.cons_append]
    exact cut_append ha hx
  have hleft : c.locals.row k ∈ b ++ c.locals.row k :: (c.rowsFrom (k + 1) ++ E) := by simp
  rw [unitAt_eq hk]
  cases hf : c.rows.fwd k with
  | none =>
    simp only [searchEdits_delete, Edit.run_cons, Edit.run_nil, Edit.delete_found hcut]
    exact List.mem_append_right _ hleft
  | some s =>
    simp only [searchEdits_pair, if_neg (hch.2 s hf), Edit.run_cons, Edit.run_nil,
      Edit.update_found _ hcut]
    exact List.mem_append_right _ hleft

end

/-! ## A row left behind -/

/-- A local row that a search for another one passes by. -/
theorem Searches.passes (hs : c.Searches search) {k l : Nat} (hk : k < c.locals.height)
    (hl : l < c.locals.height) (hne : l ≠ k) {rows a b : List (List SheetCell)} {x : List SheetCell}
    (hmem : c.locals.row l ∈ rows)
    (hcut : cut (search k) rows = some (a, x, b)) : c.locals.row l ∈ a ∨ c.locals.row l ∈ b := by
  obtain ⟨heq, hx, -⟩ := cut_eq_some_iff.mp hcut
  rw [heq, List.mem_append, List.mem_cons] at hmem
  rcases hmem with hmem | rfl | hmem
  · exact Or.inl hmem
  · rw [hs.other k hk l hl hne] at hx
    cases hx
  · exact Or.inr hmem

/-- One unit of another row. -/
theorem Searches.unit_stays (hs : c.Searches search) {l : Nat} (hl : l < c.locals.height)
    {u : MatchUnit} (hu : c.IsUnit u)
    (hne : u.localUnit ≠ l) {z : Zipper (List SheetCell)} (hz : c.locals.row l ∈ z.items) :
    c.locals.row l ∈ (Edit.run (c.searchEdits search assumeHeader u) z).items := by
  cases hu with
  | @pair k s hf =>
    have hne : l ≠ k := fun he => hne (by rw [he]; rfl)
    rw [searchEdits_pair]
    split
    · exact hz
    · rw [Edit.run_cons, Edit.run_nil]
      cases hc : cut (search k) z.items with
      | none =>
        rw [Edit.update_missed _ hc, Zipper.items_atEnd]
        exact hz
      | some p =>
        rw [Edit.update_found _ hc, Zipper.items_mk, List.mem_append, List.mem_append]
        exact (hs.passes (fwd_lt hf).1 hl hne hz hc).imp_left Or.inl
  | @insert s hr hb =>
    rw [searchEdits_insert, Edit.run_cons, Edit.run_nil, Edit.insert_apply, Zipper.items_mk,
      List.mem_append, List.mem_append]
    exact (List.mem_append.mp hz).imp_left Or.inl
  | @delete k hk hf =>
    have hne : l ≠ k := fun he => hne (by rw [he]; rfl)
    rw [searchEdits_delete, Edit.run_cons, Edit.run_nil]
    cases hc : cut (search k) z.items with
    | none =>
      rw [Edit.delete_missed hc]
      exact hz
    | some p =>
      rw [Edit.delete_found hc, Zipper.items_mk, List.mem_append]
      exact hs.passes hk hl hne hz hc

theorem Searches.stays (hs : c.Searches search) {l : Nat} (hl : l < c.locals.height)
    (us : List MatchUnit) (hus : ∀ u ∈ us, c.IsUnit u ∧ u.localUnit ≠ l) :
    ∀ z : Zipper (List SheetCell), c.locals.row l ∈ z.items →
      c.locals.row l ∈ (Edit.run (us.flatMap (c.searchEdits search assumeHeader)) z).items := by
  induction us with
  | nil => exact fun z hz => hz
  | cons u us ih =>
    intro z hz
    obtain ⟨hu, hne⟩ := hus u List.mem_cons_self
    rw [List.flatMap_cons, Edit.run_append]
    exact ih (fun w hw => hus w (List.mem_cons_of_mem _ hw)) _ (hs.unit_stays hl hu hne hz)

/-! ## The sweep -/

theorem searchEdits_insertsIn (lo hi : Nat) :
    (OrderMerge.insertsIn c.rows lo hi).flatMap (c.searchEdits search assumeHeader) =
      (OrderMerge.insertsIn c.rows lo hi).flatMap c.unitEdits := by
  refine List.flatMap_congr fun u hu => ?_
  obtain ⟨r, -, -, -, rfl⟩ := OrderMerge.mem_insertsIn.mp hu
  rw [searchEdits_insert, unitEdits_insert]

/-- The additions in front of row `k`, and the sheet when they are made. -/
theorem Laid.reach {k br : Nat} (ks : List Nat) {z : Zipper (List SheetCell)}
    {A E : List (List SheetCell)}
    (h : c.Laid k br z A E) (hk : k < c.locals.height) (hle : br ≤ c.remote.height)
    (hbr : ∀ r, r < br ↔ ∃ k' < k, ∃ s, c.rows.fwd k' = some s ∧ r < s) :
    ∃ top, br ≤ top ∧ top ≤ c.remote.height ∧
      OrderMerge.sweepFrom (Matching.identity c.locals.height) c.rows (k :: ks) br =
        OrderMerge.insertsIn c.rows br top ++ OrderMerge.unitAt
          (Matching.identity c.locals.height) c.rows k ::
          OrderMerge.sweepFrom (Matching.identity c.locals.height) c.rows ks top ∧
      (∀ r, r < top ↔ ∃ k' ≤ k, ∃ s, c.rows.fwd k' = some s ∧ r < s) ∧
      ∃ A' E', c.Laid k top (Edit.run ((OrderMerge.insertsIn c.rows br top).flatMap c.unitEdits) z)
      A' E' := by
  obtain ⟨hi, hsweep, hhi, hmax⟩ := sweepFrom_cons hk ks br
  have hins : OrderMerge.insertsIn c.rows br hi = OrderMerge.insertsIn c.rows br (max br hi) := by
    rcases Nat.le_total hi br with hle | hle
    · rw [OrderMerge.insertsIn_of_le hle, Nat.max_eq_left hle,
        OrderMerge.insertsIn_of_le (Nat.le_refl _)]
    · rw [Nat.max_eq_right hle]
  have hpart : ∀ k' < k, ∀ s, c.rows.fwd k' = some s → s ≤ br := by
    intro k' hk' s hs
    by_contra hlt
    exact Nat.lt_irrefl br ((hbr br).mpr ⟨k', hk', s, hs, by omega⟩)
  have htop : ∀ r, r < max br hi ↔ ∃ k' ≤ k, ∃ s, c.rows.fwd k' = some s ∧ r < s := by
    intro r
    rw [hmax, hbr]
    constructor
    · rintro (⟨k', hk', hs⟩ | hs)
      · exact ⟨k', by omega, hs⟩
      · exact ⟨k, Nat.le_refl _, hs⟩
    · rintro ⟨k', hk', hs⟩
      rcases Nat.lt_or_eq_of_le hk' with hlt | rfl
      · exact Or.inl ⟨k', hlt, hs⟩
      · exact Or.inr hs
  refine ⟨max br hi, Nat.le_max_left _ _, by omega, hins ▸ hsweep, htop, ?_⟩
  exact Laid.insertsIn (show max br hi ≤ c.remote.height by omega) (max br hi - br)
    (by omega) h hpart

/-- **The sweep from row `k` on.**  If no row is mistaken, it is the same with the shorter
search. -/
theorem Searches.run_same (hs : c.Searches search) (hno : c.NoneMistaken search)
    (assumeHeader : Bool) (n : Nat) :
    ∀ {k br : Nat} {z : Zipper (List SheetCell)} {A E : List (List SheetCell)}, k + n =
    c.locals.height →
      br ≤ c.remote.height → c.Laid k br z A E →
      (∀ r, r < br ↔ ∃ k' < k, ∃ s, c.rows.fwd k' = some s ∧ r < s) →
      Edit.run
        ((OrderMerge.sweepFrom (Matching.identity c.locals.height) c.rows
          (List.range' k n) br).flatMap
            (c.searchEdits search assumeHeader)) z =
        Edit.run
          ((OrderMerge.sweepFrom (Matching.identity c.locals.height) c.rows
            (List.range' k n) br).flatMap
          c.unitEdits) z := by
  induction n with
  | zero =>
    intro k br z A E _ _ _ _
    show Edit.run ((OrderMerge.insertsIn c.rows br c.remote.height).flatMap _) z =
      Edit.run ((OrderMerge.insertsIn c.rows br c.remote.height).flatMap _) z
    rw [searchEdits_insertsIn]
  | succ n ih =>
    intro k br z A E hk hle h hbr
    have hklt : k < c.locals.height := by omega
    obtain ⟨top, -, htople, hsweep, htop, A₁, E₁, h₁⟩ :=
      h.reach (List.range' (k + 1) n) hklt hle hbr
    obtain ⟨hsame, A₂, E₂, h₂⟩ :=
      @Laid.search_same c search assumeHeader k top _ A₁ E₁ h₁ hklt htop hs
      fun hch => hno k hch
    rw [List.range'_succ, hsweep]
    simp only [List.flatMap_append, List.flatMap_cons, Edit.run_append, searchEdits_insertsIn]
    rw [hsame]
    exact ih (by omega) htople h₂ fun r => by
      rw [htop r]
      simp only [Nat.lt_succ_iff]

/-- If a row is mistaken, some changed local row is left over. -/
theorem Searches.run_mistaken (hs : c.Searches search) (assumeHeader : Bool) (n : Nat) :
    ∀ {k br : Nat} {z : Zipper (List SheetCell)} {A E : List (List SheetCell)}, k + n =
    c.locals.height →
      br ≤ c.remote.height → c.Laid k br z A E →
      (∀ r, r < br ↔ ∃ k' < k, ∃ s, c.rows.fwd k' = some s ∧ r < s) →
      (∃ l, k ≤ l ∧ c.Changed l ∧ ∃ r < c.remote.height, c.StandsBefore l r ∧
        search l (c.remote.row r) = true) →
      ∃ l, c.Changed l ∧ c.locals.row l ∈
        (Edit.run
          ((OrderMerge.sweepFrom (Matching.identity c.locals.height) c.rows
            (List.range' k n) br).flatMap
          (c.searchEdits search assumeHeader)) z).items := by
  induction n with
  | zero =>
    rintro k br z A E hk - - - ⟨l, hl, hch, -⟩
    exact absurd hch.1 (by omega)
  | succ n ih =>
    intro k br z A E hk hle h hbr hbad
    have hklt : k < c.locals.height := by omega
    obtain ⟨top, -, htople, hsweep, htop, A₁, E₁, h₁⟩ :=
      h.reach (List.range' (k + 1) n) hklt hle hbr
    rw [List.range'_succ, hsweep]
    simp only [List.flatMap_append, List.flatMap_cons, Edit.run_append, searchEdits_insertsIn]
    by_cases hfail : c.Changed k ∧ ∃ r < c.remote.height, c.StandsBefore k r ∧
      search k (c.remote.row r) = true
    · obtain ⟨hch, r, hr, hst, hlike⟩ := hfail
      refine ⟨k, hch, hs.stays hklt _ (sweepFrom_units (fun j hj => ?_) htople) _
        (h₁.search_mistaken hklt htop hch hr hst hlike)⟩
      rw [List.mem_range'_1] at hj
      omega
    · have hfine : c.Changed k → ∀ r < c.remote.height, c.StandsBefore k r →
        search k (c.remote.row r) = false := by
        intro hch r hr hst
        by_contra hlike
        exact hfail ⟨hch, r, hr, hst, by simpa using hlike⟩
      obtain ⟨hsame, A₂, E₂, h₂⟩ :=
        @Laid.search_same c search assumeHeader k top _ A₁ E₁ h₁ hklt htop hs hfine
      rw [hsame]
      refine ih (by omega) htople h₂ (fun r => by rw [htop r]; simp only [Nat.lt_succ_iff]) ?_
      obtain ⟨l, hl, hch, hlike⟩ := hbad
      rcases Nat.lt_or_eq_of_le hl with hlt | rfl
      · exact ⟨l, hlt, hch, hlike⟩
      · exact absurd ⟨hch, hlike⟩ hfail

end

/-- **Any search.**  The edits leave the rows of the remote exactly if none of them is taken for a
local row that has changed. -/
theorem searched_perm_iff {search : Nat → List SheetCell → Bool} (hs : c.Searches search)
    (assumeHeader : Bool) : (Edit.run ((c.units false).flatMap (c.searchEdits search assumeHeader))
      (Zipper.atEnd c.locals.rows)).items.Perm
      c.remote.rows ↔ c.NoneMistaken search := by
  have hunits : c.units false = OrderMerge.sweepFrom (Matching.identity c.locals.height) c.rows
      (List.range' 0 c.locals.height) 0 := by
    rw [← List.range_eq_range']
    rfl
  have hfresh : ∀ r, r < 0 ↔ ∃ k' < 0, ∃ s, c.rows.fwd k' = some s ∧ r < s :=
    fun r => ⟨fun h => absurd h (Nat.not_lt_zero _), fun ⟨k', h, _⟩ => absurd h (Nat.not_lt_zero _)⟩
  constructor
  · intro hperm l hch r hr hst
    by_contra hlike
    obtain ⟨l', hch', hmem⟩ :=
      hs.run_mistaken assumeHeader c.locals.height (Nat.zero_add _) (Nat.zero_le _)
      c.laid_start hfresh ⟨l, Nat.zero_le _, hch, r, hr, hst, by simpa using hlike⟩
    rw [← hunits] at hmem
    obtain ⟨t, ht, he⟩ := List.mem_iff_getElem.mp (hperm.subset hmem)
    rw [← c.remote.row_eq_getElem ht] at he
    exact hch'.ne ht he
  · intro hno
    have hsame :=
      hs.run_same hno assumeHeader c.locals.height (Nat.zero_add _)
      (Nat.zero_le _) c.laid_start hfresh
    rw [← hunits] at hsame
    rw [hsame]
    exact c.run_units_perm

end Comparison

end Coopy
