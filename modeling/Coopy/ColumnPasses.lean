import Coopy.Merger
import Coopy.OrderLaw
import Mathlib.Data.List.InsertIdx

/-!
# What the column passes do

Pass 1 erases by pivot index from a list that holds local indices.  It does the right
thing exactly when the pivot indices of the dropped columns are, as a set, also their
local indices, which two-way merges always give (`deletions_exact_iff`).  Then the list
is a permutation of what the merge wants, so that neither of the two failure exits of
passes 1 and 2 can be reached.
-/

namespace Coopy

open Lib

namespace Merger

/-! ## Pass 1 -/

/-- The indices pass 1 erases. -/
def deletedPivots (units : List MatchUnit) : List Int :=
  (units.filter fun unit => unit.pivotUnit != -1 && unit.deleted).map MatchUnit.pivotUnit

theorem deletedPivots_cons (unit : MatchUnit) (units : List MatchUnit) :
    deletedPivots (unit :: units) =
      if unit.pivotUnit ≠ -1 ∧ unit.deleted = true then unit.pivotUnit :: deletedPivots units
      else deletedPivots units := by
  unfold deletedPivots
  rw [List.filter_cons]
  by_cases h : unit.pivotUnit ≠ -1 ∧ unit.deleted = true
  · rw [if_pos h, if_pos (by simpa using h), List.map_cons]
  · rw [if_neg h, if_neg (by simpa using h)]

section
variable {indexes : AssocMap String Bool}

theorem eraseIdx_idxOf_eq_filter {cols : List Int} (hnd : cols.Nodup) (p : Int) :
    cols.eraseIdx (cols.idxOf p) = cols.filter fun c => decide (c ≠ p) := by
  rw [List.eraseIdx_idxOf_eq_erase, hnd.erase_eq_filter]
  exact List.filter_congr fun c _ => by simp only [ne_eq, decide_not]; rfl

/-- What pass 1 did, if it came through. -/
theorem deletePass_eq (units : List MatchUnit) : ∀ (s s' : ColState), s.localCols.Nodup →
    deletePass indexes units s = .ok s' →
    s'.localCols = (s.localCols.filter fun c => decide (c ∉ deletedPivots units)) ∧
      ∀ p ∈ deletedPivots units, p ∈ s.localCols := by
  induction units with
  | nil =>
    intro s s' _ h
    cases h
    exact ⟨by simp [deletedPivots], fun p hp => by simp [deletedPivots] at hp⟩
  | cons unit units ih =>
    intro s s' hnd h
    unfold deletePass at h
    simp only at h
    rw [deletedPivots_cons]
    split at h
    · next hdel =>
      split at h
      · next hmem =>
        obtain ⟨h1, h2⟩ := ih _ s' (by exact hnd.sublist (List.eraseIdx_sublist _ _)) h
        simp only [eraseIdx_idxOf_eq_filter hnd] at h1 h2
        rw [if_pos hdel]
        refine ⟨?_, fun p hp => ?_⟩
        · rw [h1, List.filter_filter]
          refine List.filter_congr fun c _ => ?_
          simp only [List.mem_cons, not_or, Bool.decide_and, Bool.and_comm]
        · rcases List.mem_cons.mp hp with rfl | hp
          · exact hmem
          · exact (List.mem_filter.mp (h2 p hp)).1
      · cases h
    · next hdel =>
      rw [if_neg hdel]
      exact ih s s' hnd h

variable (indexes) in
/-- Pass 1 comes through when each index it erases is still there. -/
theorem deletePass_ok (units : List MatchUnit) : ∀ s : ColState, s.localCols.Nodup →
    (deletedPivots units).Nodup → (∀ p ∈ deletedPivots units, p ∈ s.localCols) →
    ∃ s', deletePass indexes units s = .ok s' := by
  induction units with
  | nil => exact fun s _ _ _ => ⟨s, rfl⟩
  | cons unit units ih =>
    intro s hnd hpn hsub
    rw [deletedPivots_cons] at hpn hsub
    unfold deletePass
    simp only
    split
    · next hdel =>
      rw [if_pos hdel] at hpn hsub
      obtain ⟨hnot, hpn⟩ := List.nodup_cons.mp hpn
      rw [if_pos (hsub _ (by simp))]
      refine ih _ (by exact hnd.sublist (List.eraseIdx_sublist _ _)) hpn fun p hp => ?_
      simp only [eraseIdx_idxOf_eq_filter hnd]
      refine List.mem_filter.mpr ⟨hsub p (List.mem_cons_of_mem _ hp), decide_eq_true fun he => ?_⟩
      exact hnot (he ▸ hp)
    · next hdel =>
      rw [if_neg hdel] at hpn hsub
      exact ih s hnd hpn hsub

end

/-! ## Pass 2 -/

/-- A column put at its final index. -/
def placeAt (shuffled cols : List Int) (a : Int) : List Int :=
  (cols.eraseIdx (cols.idxOf a)).insertIdx (shuffled.idxOf a) a

theorem placeAt_perm {shuffled cols : List Int} (hp : cols.Perm shuffled) {a : Int}
    (ha : a ∈ shuffled) : (placeAt shuffled cols a).Perm shuffled := by
  have hmem : a ∈ cols := hp.mem_iff.mpr ha
  have hlen : shuffled.idxOf a ≤ (cols.eraseIdx (cols.idxOf a)).length := by
    rw [List.eraseIdx_idxOf_eq_erase, List.length_erase_of_mem hmem, hp.length_eq]
    have := List.idxOf_lt_length_of_mem ha
    omega
  unfold placeAt
  rw [List.eraseIdx_idxOf_eq_erase] at hlen ⊢
  exact (List.perm_insertIdx a _ hlen).trans ((List.perm_cons_erase hmem).symm.trans hp)

theorem foldl_placeAt_perm {shuffled : List Int} (order : List Int) :
    ∀ cols : List Int, cols.Perm shuffled →
    (∀ a ∈ order, a ∈ shuffled) → (order.foldl (placeAt shuffled) cols).Perm shuffled := by
  induction order with
  | nil => exact fun cols h _ => h
  | cons a order ih =>
    intro cols h hsub
    exact ih _ (placeAt_perm h (hsub a (by simp))) fun b hb => hsub b (List.mem_cons_of_mem _ hb)

/-- Pass 2 comes through, and the columns are the result of the placements. -/
theorem movePass_ok {shuffled : List Int} (order : List Int) :
    ∀ s : ColState, s.localCols.Perm shuffled → (∀ a ∈ order, a ∈ shuffled) →
    ∃ s', movePass shuffled order s = .ok s' ∧
    s'.localCols = order.foldl (placeAt shuffled) s.localCols := by
  induction order with
  | nil => exact fun s _ _ => ⟨s, rfl, rfl⟩
  | cons a order ih =>
    intro s hp hsub
    have ha := hsub a (by simp)
    unfold movePass
    rw [if_pos ⟨hp.mem_iff.mpr ha, ha⟩]
    simp only
    obtain ⟨s', h1, h2⟩ := ih
      { s with
        localCols := (s.localCols.eraseIdx (s.localCols.idxOf a)).insertIdx (shuffled.idxOf a) a
        localColNames :=
          (s.localColNames.eraseIdx (s.localCols.idxOf a)).insertIdx (shuffled.idxOf a)
          (nameAt s.localColNames (s.localCols.idxOf a))
        cc := _ } (placeAt_perm hp ha) (fun b hb => hsub b (List.mem_cons_of_mem _ hb))
    exact ⟨s', h1, h2⟩

/-! ## Passes 3 and 4 -/

/-- Pass 3 ends in neither of the two failures. -/
theorem insertPass_error {remoteNames : NameSniffer} (units : List MatchUnit) :
    ∀ (k : Nat) (s : ColState) (e : MergerExit),
    insertPass remoteNames k units s = .error e → e = .outOfBounds ∨ e = .outOfFuel := by
  induction units with
  | nil => intro k s e h; cases h
  | cons unit units ih =>
    intro k s e h
    unfold insertPass at h
    simp only at h
    split at h
    · split at h
      · cases h; exact Or.inl rfl
      · split at h
        · cases h; exact Or.inr rfl
        · exact ih _ _ _ h
    · exact ih _ _ _ h

theorem renamePass_error {localNames remoteNames : NameSniffer} (units : List MatchUnit) :
    ∀ (s : ColState) (e : MergerExit), renamePass localNames remoteNames units s = .error e →
    e = .outOfBounds := by
  induction units with
  | nil => intro s e h; cases h
  | cons unit units ih =>
    intro s e h
    unfold renamePass at h
    split at h
    · split at h
      · split at h
        · exact ih _ _ h
        · exact ih _ _ h
      · cases h; rfl
    · exact ih _ _ h

theorem freeName_not_mem {taken : List String} : ∀ {fuel : Nat} {name name' : String},
    freeName fuel taken name = some name' → name' ∉ taken := by
  intro fuel
  induction fuel with
  | zero => intro name name' h; cases h
  | succ fuel ih =>
    intro name name' h
    unfold freeName at h
    split at h
    · exact ih h
    · next hn =>
      cases h
      exact hn

/-- The loop finds a free name: each `_` leaves the shorter names behind. -/
theorem freeName_isSome {taken : List String} (fuel : Nat) : ∀ name : String,
    (taken.countP fun t => decide (name.length ≤ t.length)) < fuel →
    ∃ name', freeName fuel taken name = some name' := by
  induction fuel with
  | zero => intro name h; omega
  | succ fuel ih =>
    intro name h
    unfold freeName
    split
    · next hn =>
      apply ih
      have hlen : (name ++ "_").length = name.length + 1 := by rw [String.length_append]; rfl
      have hlt : (taken.countP fun t => decide ((name ++ "_").length ≤ t.length)) <
          taken.countP fun t => decide (name.length ≤ t.length) := by
        apply Nat.lt_of_le_of_ne
        · exact List.countP_mono_left fun t _ ht => by
            simp only [decide_eq_true_eq] at ht ⊢
            omega
        · intro he
          have hsub : (taken.filter fun t => decide ((name ++ "_").length ≤ t.length)).Sublist
              (taken.filter fun t => decide (name.length ≤ t.length)) := by
            apply List.monotone_filter_right
            intro t ht
            simp only [decide_eq_true_eq] at ht ⊢
            omega
          rw [List.countP_eq_length_filter, List.countP_eq_length_filter] at he
          have hmem : name ∈ taken.filter fun t => decide (name.length ≤ t.length) :=
            List.mem_filter.mpr ⟨hn, by simp⟩
          rw [← hsub.eq_of_length he] at hmem
          have := (List.mem_filter.mp hmem).2
          simp only [decide_eq_true_eq] at this
          omega
      omega
    · exact ⟨name, rfl⟩

/-- Pass 3 comes through when the remote names can be read. -/
theorem insertPass_ok {remoteNames : NameSniffer} (units : List MatchUnit)
    (h : ∀ u ∈ units, u.remoteUnit ≠ -1 →
      (remoteNames.suggestColumnName u.remoteUnit.toNat).isSome) :
    ∀ (k : Nat) (s : ColState), ∃ s', insertPass remoteNames k units s = .ok s' := by
  induction units with
  | nil => exact fun k s => ⟨s, rfl⟩
  | cons u units ih =>
    intro k s
    have hrest := ih fun w hw => h w (List.mem_cons_of_mem _ hw)
    unfold insertPass
    simp only
    split
    · next hu =>
      obtain ⟨name, hname⟩ := Option.isSome_iff_exists.mp (h u (by simp) hu.2.1)
      obtain ⟨name', hfree⟩ := freeName_isSome (s.localColNames.length + 1) (braced name)
        (Nat.lt_succ_of_le List.countP_le_length)
      rw [hname]
      simp only [hfree]
      exact hrest _ _
    · exact hrest _ _

/-! ## What the passes report -/

theorem movePass_report {shuffled : List Int} (order : List Int) : ∀ s s' : ColState,
    movePass shuffled order s = .ok s' → s'.allGone = s.allGone ∧
      ∃ moves, s'.cc = s.cc ++ moves ∧ ∀ c ∈ moves, c.mode = .move := by
  induction order with
  | nil =>
    intro s s' h
    cases h
    exact ⟨rfl, [], (List.append_nil _).symm, fun c hc => absurd hc List.not_mem_nil⟩
  | cons a order ih =>
    intro s s' h
    unfold movePass at h
    split at h
    · obtain ⟨hgone, moves, hcc, hmode⟩ := ih _ _ h
      refine ⟨hgone, ?_⟩
      simp only at hcc
      split at hcc
      · refine ⟨_ :: moves, by rw [hcc, List.append_assoc, List.singleton_append], fun c hc => ?_⟩
        rcases List.mem_cons.mp hc with rfl | hc
        · rfl
        · exact hmode c hc
      · exact ⟨moves, hcc, hmode⟩
    · cases h

/-- The units pass 3 inserts a column for. -/
def Inserted (u : MatchUnit) : Prop := u.pivotUnit = -1 ∧ u.remoteUnit ≠ -1 ∧ u.deleted = false

instance (u : MatchUnit) : Decidable (Inserted u) := inferInstanceAs (Decidable (_ ∧ _))

theorem insertPass_report {remoteNames : NameSniffer} (units : List MatchUnit) :
    ∀ (k : Nat) (s s' : ColState),
    insertPass remoteNames k units s = .ok s' → s'.allGone = s.allGone ∧
      ∃ ins, s'.cc = s.cc ++ ins ∧ (∀ c ∈ ins, c.mode = .insert) ∧
        ins.length = units.countP fun u => decide (Inserted u) := by
  induction units with
  | nil =>
    intro k s s' h
    cases h
    exact ⟨rfl, [], (List.append_nil _).symm, fun c hc => absurd hc List.not_mem_nil, rfl⟩
  | cons u units ih =>
    intro k s s' h
    rw [List.countP_cons]
    unfold insertPass at h
    simp only at h
    split at h
    · next hu =>
      split at h
      · cases h
      split at h
      · cases h
      · obtain ⟨hgone, ins, hcc, hmode, hlen⟩ := ih _ _ _ h
        refine ⟨hgone,
          _ :: ins, by rw [hcc, List.append_assoc, List.singleton_append], fun c hc => ?_, ?_⟩
        · rcases List.mem_cons.mp hc with rfl | hc
          · rfl
          · exact hmode c hc
        · have hins : Inserted u := hu
          rw [List.length_cons, hlen, if_pos (decide_eq_true hins)]
    · next hu =>
      have hins : ¬ Inserted u := hu
      rw [if_neg (by simpa using hins), Nat.add_zero]
      exact ih _ _ _ h

theorem renamePass_report {localNames remoteNames : NameSniffer} (units : List MatchUnit) :
    ∀ s s' : ColState, renamePass localNames remoteNames units s = .ok s' → s'.allGone = s.allGone ∧
      ∃ renames, s'.cc = s.cc ++ renames ∧ ∀ c ∈ renames, c.mode = .rename := by
  induction units with
  | nil =>
    intro s s' h
    cases h
    exact ⟨rfl, [], (List.append_nil _).symm, fun c hc => absurd hc List.not_mem_nil⟩
  | cons u units ih =>
    intro s s' h
    unfold renamePass at h
    split at h
    · split at h
      · split at h
        · obtain ⟨hgone, renames, hcc, hmode⟩ := ih _ _ h
          refine ⟨hgone,
            _ :: renames, by rw [hcc, List.append_assoc, List.singleton_append], fun c hc => ?_⟩
          rcases List.mem_cons.mp hc with rfl | hc
          · rfl
          · exact hmode c hc
        · exact ih _ _ h
      · cases h
    · exact ih _ _ h

/-! ## Which columns go -/

/-- The local columns of the units marked deleted. -/
def deletedLocals (units : List MatchUnit) : List Int :=
  (units.filter fun unit => unit.deleted).map MatchUnit.localUnit

/-- Pass 1 removes exactly the local columns of the deleted units, and no pass ends in
`Merge logic failure` or `Match failed`. -/
structure DeletionsExact (flags : CompareFlags) (indexes : AssocMap String Bool)
    (localNames remoteNames : NameSniffer)
    (width : Nat) (names : List String) (units : List MatchUnit) : Prop where
  exact : ∃ s, deletePass indexes units (ColState.start width names) = .ok s ∧
    s.localCols = ((List.range width).map Int.ofNat).filter fun c =>
    decide (c ∉ deletedLocals units)
  no_logic_failure :
    columnPasses flags indexes localNames remoteNames units (ColState.start width names) ≠
    .error .mergeLogicFailure
  no_match_failed :
    columnPasses flags indexes localNames remoteNames units (ColState.start width names) ≠
    .error .matchFailed

section
variable {np nl nr : Nat} {ML : Matching np nl} {MR : Matching np nr} {units : List MatchUnit}
  (hperm : units.Perm (OrderMerge.sweptUnits ML MR))

include hperm

theorem mem_deleted_iff (u : MatchUnit) : (u ∈ units ∧ u.deleted = true) ↔
    ∃ l p : Nat, ML.bwd l = some p ∧ MR.fwd p = none ∧ u = ⟨p, l, -1, true, .delete⟩ := by
  rw [hperm.mem_iff]
  unfold OrderMerge.sweptUnits
  rw [List.mem_append]
  constructor
  · rintro ⟨hu | hu, hd⟩
    · obtain ⟨l, -, rfl⟩ := List.mem_map.mp hu
      unfold OrderMerge.unitAt at hd ⊢
      cases hb : ML.bwd l with
      | none => rw [hb] at hd; cases hd
      | some p =>
        rw [hb] at hd
        simp only at hd ⊢
        cases hf : MR.fwd p with
        | none => exact ⟨l, p, hb, hf, rfl⟩
        | some r => rw [hf] at hd; cases hd
    · obtain ⟨r, -, -, -, rfl⟩ := OrderMerge.mem_insertsIn.mp hu
      cases hd
  · rintro ⟨l, p, hb, hf, rfl⟩
    refine ⟨Or.inl (List.mem_map.mpr ⟨l, List.mem_range.mpr (ML.bwd_lt hb).2, ?_⟩), rfl⟩
    unfold OrderMerge.unitAt
    rw [hb]
    simp only
    rw [hf]

theorem mem_deletedPivots_iff (i : Int) : i ∈ deletedPivots units ↔
    ∃ l p : Nat, ML.bwd l = some p ∧ MR.fwd p = none ∧ i = p := by
  unfold deletedPivots
  simp only [List.mem_map, List.mem_filter, Bool.and_eq_true, bne_iff_ne]
  constructor
  · rintro ⟨u, ⟨hu, -, hd⟩, rfl⟩
    obtain ⟨l, p, hb, hf, rfl⟩ := (mem_deleted_iff hperm u).mp ⟨hu, hd⟩
    exact ⟨l, p, hb, hf, rfl⟩
  · rintro ⟨l, p, hb, hf, rfl⟩
    obtain ⟨hu, hd⟩ := (mem_deleted_iff hperm ⟨p, l, -1, true, .delete⟩).mpr ⟨l, p, hb, hf, rfl⟩
    exact ⟨_, ⟨hu, by simp only []; omega, hd⟩, rfl⟩

theorem mem_deletedLocals_iff (i : Int) : i ∈ deletedLocals units ↔
    ∃ l p : Nat, ML.bwd l = some p ∧ MR.fwd p = none ∧ i = l := by
  unfold deletedLocals
  simp only [List.mem_map, List.mem_filter]
  constructor
  · rintro ⟨u, ⟨hu, hd⟩, rfl⟩
    obtain ⟨l, p, hb, hf, rfl⟩ := (mem_deleted_iff hperm u).mp ⟨hu, hd⟩
    exact ⟨l, p, hb, hf, rfl⟩
  · rintro ⟨l, p, hb, hf, rfl⟩
    exact ⟨_, (mem_deleted_iff hperm ⟨p, l, -1, true, .delete⟩).mpr ⟨l, p, hb, hf, rfl⟩, rfl⟩

theorem deletedPivots_nodup : (deletedPivots units).Nodup := by
  have hnd : units.Nodup := hperm.nodup_iff.mpr (OrderMerge.sweptUnits_nodup ML MR)
  refine List.Nodup.map_on (fun u hu v hv he => ?_) (hnd.filter _)
  simp only [List.mem_filter, Bool.and_eq_true] at hu hv
  obtain ⟨l, p, hb, -, rfl⟩ := (mem_deleted_iff hperm u).mp ⟨hu.1, hu.2.2⟩
  obtain ⟨l', p', hb', -, rfl⟩ := (mem_deleted_iff hperm v).mp ⟨hv.1, hv.2.2⟩
  obtain rfl : p = p' := Int.ofNat.inj he
  rw [ML.bwd_inj hb hb']

/-- The columns the merge keeps are the local columns less those of the deleted units. -/
theorem shuffledCols_perm : (shuffledCols units).Perm
    (((List.range nl).map Int.ofNat).filter fun c => decide (c ∉ deletedLocals units)) := by
  have hunit : ∀ u ∈ units, u.localUnit ≠ -1 → ∃ k : Nat, k < nl ∧
    u = OrderMerge.unitAt ML MR k := by
    intro u hu hl
    rcases List.mem_append.mp (hperm.mem_iff.mp hu) with hu | hu
    · obtain ⟨k, hk, rfl⟩ := List.mem_map.mp hu
      exact ⟨k, List.mem_range.mp hk, rfl⟩
    · obtain ⟨r, -, -, -, rfl⟩ := OrderMerge.mem_insertsIn.mp hu
      exact absurd rfl hl
  have hnd : (shuffledCols units).Nodup := by
    have hu : units.Nodup := hperm.nodup_iff.mpr (OrderMerge.sweptUnits_nodup ML MR)
    refine List.Nodup.map_on (fun u hu v hv he => ?_) (hu.filter _)
    simp only [List.mem_filter, Bool.and_eq_true, bne_iff_ne] at hu hv
    obtain ⟨k, -, rfl⟩ := hunit u hu.1 hu.2.1
    obtain ⟨k', -, rfl⟩ := hunit v hv.1 hv.2.1
    rw [OrderMerge.unitAt_localUnit, OrderMerge.unitAt_localUnit] at he
    rw [Int.ofNat.inj he]
  have hnd' :
    (((List.range nl).map Int.ofNat).filter fun c => decide (c ∉ deletedLocals units)).Nodup :=
    (List.nodup_range.map fun _ _ => Int.ofNat.inj).filter _
  refine (List.perm_ext_iff_of_nodup hnd hnd').mpr fun i => ?_
  simp only [shuffledCols, List.mem_map, List.mem_filter, Bool.and_eq_true, bne_iff_ne,
    Bool.not_eq_true', List.mem_range, decide_eq_true_eq]
  constructor
  · rintro ⟨u, ⟨hu, hl, hd⟩, rfl⟩
    obtain ⟨k, hk, rfl⟩ := hunit u hu hl
    refine ⟨⟨k, hk, by rw [OrderMerge.unitAt_localUnit]; rfl⟩, fun hm => ?_⟩
    obtain ⟨l, p, hb, hf, he⟩ := (mem_deletedLocals_iff hperm _).mp hm
    rw [OrderMerge.unitAt_localUnit] at he
    obtain rfl : k = l := Int.ofNat.inj he
    unfold OrderMerge.unitAt at hd
    rw [hb] at hd
    simp only at hd
    rw [hf] at hd
    cases hd
  · rintro ⟨⟨k, hk, rfl⟩, hm⟩
    refine ⟨OrderMerge.unitAt ML MR k, ⟨?_, ?_, ?_⟩, OrderMerge.unitAt_localUnit ML MR k⟩
    · exact hperm.mem_iff.mpr
        (List.mem_append_left _ (List.mem_map.mpr ⟨k, List.mem_range.mpr hk, rfl⟩))
    · rw [OrderMerge.unitAt_localUnit]
      omega
    · cases hdel : (OrderMerge.unitAt ML MR k).deleted with
      | false => rfl
      | true =>
        refine absurd ((mem_deletedLocals_iff hperm _).mpr ?_) hm
        unfold OrderMerge.unitAt at hdel
        cases hb : ML.bwd k with
        | none => rw [hb] at hdel; cases hdel
        | some p =>
          rw [hb] at hdel
          simp only at hdel
          cases hf : MR.fwd p with
          | none => exact ⟨k, p, hb, hf, rfl⟩
          | some r => rw [hf] at hdel; cases hdel

end

/-- Units along the local columns ask for no shuffle. -/
theorem shuffledCols_in_order {np nl nr : Nat} (ML : Matching np nl) (MR : Matching np nr)
    (hdel : ∀ u ∈ (List.range nl).map (OrderMerge.unitAt ML MR), u.deleted = false) :
    shuffledCols ((List.range nl).map (OrderMerge.unitAt ML MR)) =
    (List.range nl).map Int.ofNat := by
  unfold shuffledCols
  rw [List.filter_eq_self.mpr, List.map_map]
  · exact List.map_congr_left fun k _ => OrderMerge.unitAt_localUnit ML MR k
  · intro u hu
    have hpos := OrderMerge.map_unitAt_nonneg ML MR u hu
    simp only [hdel u hu, Bool.and_eq_true, bne_iff_ne, Bool.not_false, and_true]
    omega

/-- After an exact pass 1, passes 2 to 4 reach neither failure. -/
theorem columnPasses_no_exit {flags : CompareFlags} {indexes : AssocMap String Bool}
    {localNames remoteNames : NameSniffer} {units : List MatchUnit} {s s1 : ColState}
    (h1 : deletePass indexes units s = .ok s1) (hp : s1.localCols.Perm (shuffledCols units))
    (hnd : (shuffledCols units).Nodup) (e : MergerExit)
    (h : columnPasses flags indexes localNames remoteNames units s = .error e) :
    e = .outOfBounds ∨ e = .outOfFuel := by
  obtain ⟨mover, order, hmove, hsol⟩ := Mover.move_spec hnd hp (Nat.lt_succ_self _)
  obtain ⟨s2, h2, -⟩ := movePass_ok order s1 hp hsol.subset
  have hshuffle : shufflePass units s1 = .ok s2 := by
    unfold shufflePass
    simp only
    rw [if_neg (not_not.mpr hp.length_eq), hmove]
    exact h2
  unfold columnPasses at h
  rw [h1] at h
  simp only [Except.bind, hshuffle] at h
  cases h3 : insertPass remoteNames 0 units s2 with
  | error e' =>
    rw [h3] at h
    cases h
    exact insertPass_error units 0 s2 e h3
  | ok s3 =>
    rw [h3] at h
    simp only at h
    split at h
    · exact Or.inl (renamePass_error units s3 e h)
    · cases h

/-- **Column deletions.**  The passes delete the right columns, and come through passes 1
and 2, exactly when the columns that local kept and the remote dropped have the same
set of pivot indices and of local indices. -/
theorem deletions_exact_iff {np nl nr : Nat} (ML : Matching np nl) (MR : Matching np nr)
    (flags : CompareFlags)
    (indexes : AssocMap String Bool) (localNames remoteNames : NameSniffer) (names : List String) :
    ∃ cols, OrderMerge.merge (OrderMerge.enough ML.toOrderResult MR.toOrderResult) ML.toOrderResult
    MR.toOrderResult
        { flags with headTrimmed := false, tailTrimmed := false } true = some cols ∧
      (DeletionsExact flags indexes localNames remoteNames nl names cols.accum ↔
        ∀ i : Nat, (∃ l : Nat, ML.b2a l = i ∧ MR.a2b i = -1) ↔ ∃ p : Nat, ML.b2a i = p ∧
          MR.a2b p = -1) := by
  have hhead :
    ({ flags with headTrimmed := false, tailTrimmed := false } : CompareFlags).headTrimmed =
    false := rfl
  obtain ⟨units, hm, hperm, -⟩ := OrderMerge.merge_perm ML MR hhead rfl true (le_refl _)
  refine ⟨_, hm, ?_⟩
  simp only
  have hcols : (ColState.start nl names).localCols.Nodup :=
    List.nodup_range.map fun _ _ => Int.ofNat.inj
  have hpiv : ∀ i : Nat, ((i : Int) ∈ deletedPivots units) ↔ ∃ l : Nat, ML.b2a l = i ∧
    MR.a2b i = -1 := by
    intro i
    rw [mem_deletedPivots_iff hperm]
    constructor
    · rintro ⟨l, p, hb, hf, he⟩
      obtain rfl : i = p := Int.ofNat.inj he
      exact ⟨l, (ML.b2a_eq_iff l i).mpr hb, (MR.a2b_eq_neg_one_iff i).mpr hf⟩
    · rintro ⟨l, hb, hf⟩
      exact ⟨l, i, (ML.b2a_eq_iff l i).mp hb, (MR.a2b_eq_neg_one_iff i).mp hf, rfl⟩
  have hloc : ∀ i : Nat, ((i : Int) ∈ deletedLocals units) ↔ ∃ p : Nat, ML.b2a i = p ∧
    MR.a2b p = -1 := by
    intro i
    rw [mem_deletedLocals_iff hperm]
    constructor
    · rintro ⟨l, p, hb, hf, he⟩
      obtain rfl : i = l := Int.ofNat.inj he
      exact ⟨p, (ML.b2a_eq_iff i p).mpr hb, (MR.a2b_eq_neg_one_iff p).mpr hf⟩
    · rintro ⟨p, hb, hf⟩
      exact ⟨i, p, (ML.b2a_eq_iff i p).mp hb, (MR.a2b_eq_neg_one_iff p).mp hf, rfl⟩
  have hloclt : ∀ i : Nat, ((i : Int) ∈ deletedLocals units) → i < nl := by
    intro i hi
    obtain ⟨p, hb, -⟩ := (hloc i).mp hi
    exact (ML.bwd_lt ((ML.b2a_eq_iff i p).mp hb)).2
  constructor
  · rintro ⟨⟨s, hs, he⟩, -, -⟩ i
    rw [← hpiv, ← hloc]
    obtain ⟨h1, h2⟩ := deletePass_eq units _ s hcols hs
    have hstart : (ColState.start nl names).localCols = (List.range nl).map Int.ofNat := rfl
    rw [hstart] at h1 h2
    have hin :
      ∀ i : Nat, i < nl → ((i : Int) ∈ deletedPivots units ↔ (i : Int) ∈ deletedLocals units) := by
      intro i hi
      have hmem : (i : Int) ∈ (List.range nl).map Int.ofNat :=
        List.mem_map.mpr ⟨i, List.mem_range.mpr hi, rfl⟩
      have hiff : (i : Int) ∈ s.localCols ↔ (i : Int) ∉ deletedPivots units := by
        rw [h1, List.mem_filter, decide_eq_true_eq]
        exact ⟨fun h => h.2, fun h => ⟨hmem, h⟩⟩
      rw [he, List.mem_filter, decide_eq_true_eq] at hiff
      constructor
      · intro hp
        by_contra hl
        exact hiff.mp ⟨hmem, hl⟩ hp
      · intro hl
        by_contra hp
        exact (hiff.mpr hp).2 hl
    constructor
    · intro hp
      obtain ⟨i', hi', he'⟩ := List.mem_map.mp (h2 _ hp)
      obtain rfl : i' = i := Int.ofNat.inj he'
      exact (hin i' (List.mem_range.mp hi')).mp hp
    · exact fun hl => (hin i (hloclt i hl)).mpr hl
  · intro hcond
    have hsame : ∀ i : Nat, ((i : Int) ∈ deletedPivots units) ↔
      (i : Int) ∈ deletedLocals units := by
      intro i
      rw [hpiv, hloc]
      exact hcond i
    have hsub : ∀ p ∈ deletedPivots units, p ∈ (ColState.start nl names).localCols := by
      intro p hp
      obtain ⟨l, i, -, -, rfl⟩ := (mem_deletedPivots_iff hperm p).mp hp
      exact List.mem_map.mpr ⟨i, List.mem_range.mpr (hloclt i ((hsame i).mp hp)), rfl⟩
    obtain ⟨s, hs⟩ := deletePass_ok indexes units (ColState.start nl names) hcols
      (deletedPivots_nodup hperm) hsub
    obtain ⟨h1, -⟩ := deletePass_eq units _ s hcols hs
    have hexact : s.localCols = ((List.range nl).map Int.ofNat).filter fun c =>
      decide (c ∉ deletedLocals units) := by
      rw [h1]
      refine List.filter_congr fun c hc => ?_
      obtain ⟨i, -, rfl⟩ := List.mem_map.mp hc
      rw [decide_eq_decide, not_iff_not]
      exact hsame i
    have hp : s.localCols.Perm (shuffledCols units) := by
      rw [hexact]
      exact (shuffledCols_perm hperm).symm
    have hnd : (shuffledCols units).Nodup := hp.nodup_iff.mp (by
      rw [h1]
      exact hcols.filter _)
    refine ⟨⟨s, hs, hexact⟩, fun h => ?_, fun h => ?_⟩
    · rcases columnPasses_no_exit hs hp hnd _ h with h | h <;> cases h
    · rcases columnPasses_no_exit hs hp hnd _ h with h | h <;> cases h

/-- Pivot columns `A`, `B`; local kept `B` alone, the remote kept `A` alone. -/
def keptB : Matching 2 1 := ⟨⟨[-1, 0], [1]⟩, rfl, rfl, by decide, by decide, by decide⟩

def keptA : Matching 2 1 := ⟨⟨[0, -1], [0]⟩, rfl, rfl, by decide, by decide, by decide⟩

theorem deletions_not_exact_keptB :
    ∃ cols, OrderMerge.merge (OrderMerge.enough keptB.toOrderResult keptA.toOrderResult)
    keptB.toOrderResult
        keptA.toOrderResult {} true = some cols ∧
      ¬ DeletionsExact {} [("B", true)] ⟨["B"], []⟩ ⟨["A"], []⟩ 1 ["B"] cols.accum := by
  have hcols :
    OrderMerge.merge (OrderMerge.enough keptB.toOrderResult keptA.toOrderResult) keptB.toOrderResult
      keptA.toOrderResult {} true = some ⟨[⟨1, 0, -1, true, .delete⟩], 0⟩ := by decide +kernel
  refine ⟨_, hcols, fun h => h.no_logic_failure ?_⟩
  rfl

end Merger

end Coopy
