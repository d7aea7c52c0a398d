import Coopy.AgreedOrder
import Coopy.ColumnScript
import Coopy.UnchangedRemote

/-!
# The column passes of two agreeing sides

Local's columns keep their order (`orderPass_locals`), so that pass 2 has nothing to move.  Pass 3
inserts the columns that both sides added once more.  What the changes report is what the passes
hold: the columns after the last change are the simulated ones (`Told`), and an inserted column has
a name that local does not use (`Fresh`).

    columnPasses → insertions only, and then the renames of pass 4             (columnPasses_agreed)
-/

namespace Coopy

open Lib

/-- The indices on the right that have no partner. -/
def Matching.added {n m : Nat} (M : Matching n m) : Nat :=
  (List.range m).countP fun k : Nat => decide (M.b2a k = -1)

theorem Matching.bwd_ne_none_of_added {n m : Nat} {M : Matching n m} (h : M.added = 0) :
    ∀ l < m, M.bwd l ≠ none := by
  intro l hl hb
  have := List.countP_eq_zero.mp h l (List.mem_range.mpr hl)
  exact this (decide_eq_true ((M.b2a_eq_neg_one_iff l).mpr hb))

namespace OrderMerge

theorem insertsIn_length {n m : Nat} (M : Matching n m) : (insertsIn M 0 m).length = M.added := by
  unfold insertsIn Matching.added
  rw [List.length_map, Nat.sub_zero, ← List.range_eq_range', List.countP_eq_length_filter]
  congr 1
  refine List.filter_congr fun k _ => ?_
  cases hb : M.bwd k with
  | none => exact (decide_eq_true ((M.b2a_eq_neg_one_iff k).mpr hb)).symm
  | some p =>
    refine (decide_eq_false fun h => ?_).symm
    rw [(M.b2a_eq_neg_one_iff k).mp h] at hb
    cases hb

/-- A test that only the remote additions pass counts them. -/
theorem countP_agreed {n m : Nat} (M : Matching n m) {units : List MatchUnit}
    (hperm : units.Perm (sweptUnits M M)) {p : MatchUnit → Bool}
    (h1 : ∀ k, p (unitAt M M k) = false)
    (h2 : ∀ r, p (insertUnit r) = true) : units.countP p = M.added := by
  have hkept : ((List.range m).map (unitAt M M)).countP p = 0 := by
    apply List.countP_eq_zero.mpr
    intro u hu
    obtain ⟨k, -, rfl⟩ := List.mem_map.mp hu
    rw [h1 k]
    exact Bool.false_ne_true
  have hadded : (insertsIn M 0 m).countP p = (insertsIn M 0 m).length := by
    apply List.countP_eq_length.mpr
    intro u hu
    obtain ⟨r, -, -, -, rfl⟩ := mem_insertsIn.mp hu
    exact h2 r
  rw [hperm.countP_eq, sweptUnits, List.countP_append, hkept, hadded,
    insertsIn_length, Nat.zero_add]

end OrderMerge

namespace Merger

/-! ## What the changes tell -/

/-- The columns after the last of some changes. -/
def columnsAfter (width : Nat) (cc : List OrderChange) : List Int :=
  (cc.getLast?.map OrderChange.indicesAfter).getD ((List.range width).map Int.ofNat)

/-- The changes end in the simulated columns, and each of them has a name. -/
structure Told (width : Nat) (s : ColState) : Prop where
  parallel : s.localColNames.length = s.localCols.length
  last : columnsAfter width s.cc = s.localCols

/-- The inserted columns have names that local does not use. -/
structure Fresh (original : List String) (s : ColState) : Prop where
  kept : ∀ n ∈ original, n ∈ s.localColNames
  unused : ∀ (j : Nat) (id : Int) (n : String), s.localCols[j]? = some id → id < 0 →
    s.localColNames[j]? = some n → n ∉ original

theorem Told.start (original : List String) :
    Told original.length (ColState.start original.length original) where
  parallel := by
    unfold ColState.start
    rw [List.length_map, List.length_range]
  last := rfl

theorem Fresh.start (width : Nat) (original : List String) :
    Fresh original (ColState.start width original) where
  kept := fun n hn => hn
  unused := by
    intro j id n hid hneg
    obtain ⟨k, -, rfl⟩ := List.mem_map.mp (List.mem_of_getElem? hid)
    exact absurd hneg (not_lt_of_ge (Int.natCast_nonneg k))

theorem columnsAfter_append (width : Nat) (cc : List OrderChange) (change : OrderChange) :
    columnsAfter width (cc ++ [change]) = change.indicesAfter := by
  unfold columnsAfter
  rw [List.getLast?_concat]
  rfl

section
variable {remoteNames : NameSniffer} {width : Nat} {original : List String}

theorem insertPass_told (units : List MatchUnit) : ∀ (k : Nat) (s s' : ColState), Told width s →
    insertPass remoteNames k units s = .ok s' → Told width s' := by
  induction units with
  | nil =>
    intro k s s' hs h
    cases h
    exact hs
  | cons u units ih =>
    intro k s s' hs h
    unfold insertPass at h
    simp only at h
    split at h
    · split at h
      · cases h
      split at h
      · cases h
      · refine ih _ _ s' ⟨?_, columnsAfter_append width _ _⟩ h
        rw [List.length_insertIdx, List.length_insertIdx, hs.parallel]
    · exact ih _ s s' hs h

/-- A name put in where it is not used yet stays apart from local's. -/
theorem insertPass_fresh (units : List MatchUnit) : ∀ (k : Nat) (s s' : ColState), Told width s →
    Fresh original s → insertPass remoteNames k units s = .ok s' → Fresh original s' := by
  induction units with
  | nil =>
    intro k s s' _ hf h
    cases h
    exact hf
  | cons u units ih =>
    intro k s s' hs hf h
    unfold insertPass at h
    simp only at h
    split at h
    · split at h
      · cases h
      split at h
      · cases h
      · next name hfree =>
        refine ih _ _ s' ⟨?_, columnsAfter_append width _ _⟩ ⟨fun n hn => ?_, ?_⟩ h
        · rw [List.length_insertIdx, List.length_insertIdx, hs.parallel]
        · have hmem := hf.kept n hn
          show n ∈ s.localColNames.insertIdx k _
          by_cases hk : k ≤ s.localColNames.length
          · exact (List.mem_insertIdx hk).mpr (Or.inr hmem)
          · rw [List.insertIdx_of_length_lt (Nat.lt_of_not_le hk)]
            exact hmem
        · intro j id n hid hneg hname
          rw [List.getElem?_insertIdx] at hid hname
          split at hid
          · next hlt =>
            rw [if_pos hlt] at hname
            exact hf.unused j id n hid hneg hname
          · next hlt =>
            rw [if_neg hlt] at hname
            split at hid
            · rw [if_pos ‹_›] at hname
              split at hname
              · obtain rfl := Option.some.inj hname
                exact fun hn => freeName_not_mem hfree (hf.kept _ hn)
              · cases hname
            · rw [if_neg ‹_›] at hname
              exact hf.unused _ id n hid hneg hname
    · exact ih _ s s' hs hf h

/-- Pass 4 leaves the columns where they are. -/
theorem renamePass_told {localNames : NameSniffer} (units : List MatchUnit) :
    ∀ s s' : ColState, Told width s →
    renamePass localNames remoteNames units s = .ok s' → Told width s' ∧
    s'.localCols = s.localCols := by
  induction units with
  | nil =>
    intro s s' hs h
    cases h
    exact ⟨hs, rfl⟩
  | cons u units ih =>
    intro s s' hs h
    unfold renamePass at h
    split at h
    · split at h
      · split at h
        · obtain ⟨htold, hcols⟩ :=
            ih _ s' ⟨by rw [List.length_set]; exact hs.parallel, columnsAfter_append width _ _⟩ h
          exact ⟨htold, hcols⟩
        · exact ih s s' hs h
      · cases h
    · exact ih s s' hs h

end

/-! ## Agreeing sides -/

section
variable {n m : Nat} (M : Matching n m)

theorem twoWay_agreed : ∀ u ∈ OrderMerge.agreedSweep M, TwoWay u := by
  intro u hu
  rcases OrderMerge.mem_agreedSweep.mp hu with ⟨k, -, rfl⟩ | ⟨r, -, -, rfl⟩
  · rw [OrderMerge.unitAt_agreed]
    cases M.bwd k with
    | none => exact TwoWay.kept rfl (Int.natCast_nonneg k) fun _ => rfl
    | some p =>
      exact TwoWay.kept rfl (Int.natCast_nonneg k) fun hp => absurd hp (by simp only []; omega)
  · exact TwoWay.added rfl rfl rfl (Int.natCast_nonneg r)

variable {M} {units : List MatchUnit}

theorem shuffledCols_append (us vs : List MatchUnit) :
    shuffledCols (us ++ vs) = shuffledCols us ++ shuffledCols vs := by
  unfold shuffledCols
  rw [List.filter_append, List.map_append]

/-- All local columns but the last come first, so that the last is the only one left for the
rest. -/
theorem shuffledCols_agreed (hperm : units.Perm (OrderMerge.agreedSweep M))
    (hpre : (List.range (m - 1)).map (OrderMerge.unitAt M M) <+: units) :
    shuffledCols units = (List.range m).map Int.ofNat := by
  obtain ⟨rest, rfl⟩ := hpre
  have hfirst : shuffledCols ((List.range (m - 1)).map (OrderMerge.unitAt M M)) =
    (List.range (m - 1)).map Int.ofNat := by
    unfold shuffledCols
    rw [List.filter_eq_self.mpr, List.map_map]
    · exact List.map_congr_left fun k _ => OrderMerge.unitAt_localUnit M M k
    · intro u hu
      obtain ⟨k, -, rfl⟩ := List.mem_map.mp hu
      rw [OrderMerge.unitAt_localUnit, OrderMerge.unitAt_deleted]
      simp only [Bool.and_eq_true, bne_iff_ne, Bool.not_false, and_true]
      omega
  have hall : (shuffledCols ((List.range (m - 1)).map (OrderMerge.unitAt M M) ++ rest)).Perm
      ((List.range m).map Int.ofNat) := by
    have hcols := shuffledCols_perm (hperm.trans OrderMerge.agreedSweep_perm)
    have hnone : deletedLocals ((List.range (m - 1)).map (OrderMerge.unitAt M M) ++ rest) = [] := by
      unfold deletedLocals
      rw [List.filter_eq_nil_iff.mpr fun u hu => ?_]
      · rfl
      · rcases OrderMerge.mem_agreedSweep.mp (hperm.mem_iff.mp hu) with ⟨k, -, rfl⟩ | ⟨r, -, -, rfl⟩
        · rw [OrderMerge.unitAt_deleted]
          exact Bool.false_ne_true
        · exact Bool.false_ne_true
    rw [hnone, List.filter_eq_self.mpr fun c _ => by simp] at hcols
    exact hcols
  rw [shuffledCols_append, hfirst] at hall ⊢
  rcases Nat.eq_zero_or_pos m with rfl | hm
  · exact hall.eq_nil
  · obtain ⟨j, rfl⟩ : ∃ j, m = j + 1 := ⟨m - 1, by omega⟩
    rw [List.range_succ, List.map_append] at hall ⊢
    rw [Nat.add_sub_cancel, List.perm_append_left_iff] at hall
    rw [Nat.add_sub_cancel, List.perm_singleton.mp hall]
    rfl

/-- What the passes leave when both sides agree. -/
structure AgreedColumns (M : Matching n m) (assumeHeader : Bool) (original : List String)
    (units : List MatchUnit) (s : ColState) : Prop where
  present : s.allGone = false
  modes : ∀ c ∈ s.cc, c.mode = .insert ∨ assumeHeader = true ∧ c.mode = .rename
  inserted : (s.cc.countP fun c => decide (c.mode = .insert)) = M.added
  told : Told m s
  placed : s.localCols = wantedCols units
  fresh : assumeHeader = false → Fresh original s

/-- Passes 1 and 2 find nothing to do, and pass 3 comes through. -/
theorem columnPasses_agreed (hperm : units.Perm (OrderMerge.agreedSweep M))
    (hpre : (List.range (m - 1)).map (OrderMerge.unitAt M M) <+: units) (flags : CompareFlags)
    (indexes : AssocMap String Bool) {names : NameSniffer} (hn : names.Fits m)
    {original : List String} (hlen : original.length = m) :
    ∃ s, columnPasses flags indexes names names units (ColState.start m original) =
        (if flags.assumeHeader then renamePass names names units s else .ok s) ∧
      AgreedColumns M false original units s := by
  have hmem : ∀ u ∈ units, u ∈ OrderMerge.agreedSweep M := fun u hu => hperm.mem_iff.mp hu
  have hdel : ∀ u ∈ units, u.deleted = false := by
    intro u hu
    rcases OrderMerge.mem_agreedSweep.mp (hmem u hu) with ⟨k, -, rfl⟩ | ⟨r, -, -, rfl⟩
    · exact OrderMerge.unitAt_deleted k
    · rfl
  have hshuf := shuffledCols_agreed hperm hpre
  have hread : ∀ u ∈ units, u.remoteUnit ≠ -1 →
    (names.suggestColumnName u.remoteUnit.toNat).isSome := by
    intro u hu hr
    have hlt : u.remoteUnit.toNat < m := by
      rcases OrderMerge.mem_agreedSweep.mp (hmem u hu) with ⟨k, hk, rfl⟩ | ⟨r, hlt, -, rfl⟩
      · rw [OrderMerge.unitAt_agreed_remoteUnit] at hr ⊢
        split at hr
        · exact absurd rfl hr
        · next hb => rw [if_neg hb]; exact hk
      · exact hlt
    rw [hn.suggestColumnName hlt]
    rfl
  obtain ⟨s, hs⟩ := insertPass_ok units hread 0 (ColState.start m original)
  have hstart : Told m (ColState.start m original) := by
    subst hlen
    exact Told.start original
  obtain ⟨hgone, ins, hcc, hins, hcount⟩ := insertPass_report units 0 _ s hs
  have hcc' : s.cc = ins := hcc
  have hadded : ins.length = M.added := by
    rw [hcount]
    apply OrderMerge.countP_agreed M (hperm.trans OrderMerge.agreedSweep_perm)
    · intro k
      apply decide_eq_false
      rintro ⟨hp, hr, -⟩
      have hsome : ¬ 0 ≤ (OrderMerge.unitAt M M k).pivotUnit := by omega
      rw [OrderMerge.unitAt_pivotUnit, not_not] at hsome
      rw [OrderMerge.unitAt_agreed_remoteUnit, if_pos hsome] at hr
      exact hr rfl
    · intro r
      exact decide_eq_true ⟨rfl, by simp only [OrderMerge.insertUnit]; omega, rfl⟩
  refine ⟨s, ?_, hgone, fun c hc => Or.inl (hins c (hcc' ▸ hc)), ?_,
    insertPass_told units 0 _ s hstart hs, ?_,
    fun _ => insertPass_fresh units 0 _ s hstart (Fresh.start m original) hs⟩
  · unfold columnPasses
    rw [deletePass_quiet _ indexes hdel]
    simp only [Except.bind]
    rw [shufflePass_quiet _ hshuf]
    simp only [hs]
  · rw [hcc', List.countP_eq_length.mpr fun c hc => by rw [hins c hc]; decide, hadded]
  · have hcols :=
      insertPass_cols units (fun u hu => twoWay_agreed M u (hmem u hu)) [] _ s
        (by rw [hshuf]; rfl) hs
    exact hcols

/-- What the passes leave, whenever they come through. -/
theorem columnPasses_agreed_report (hperm : units.Perm (OrderMerge.agreedSweep M))
    (hpre : (List.range (m - 1)).map (OrderMerge.unitAt M M) <+: units) {flags : CompareFlags}
    {indexes : AssocMap String Bool} {names : NameSniffer} (hn : names.Fits m)
    {original : List String} (hlen : original.length = m) {s : ColState}
    (h : columnPasses flags indexes names names units (ColState.start m original) = .ok s) :
    AgreedColumns M flags.assumeHeader original units s := by
  obtain ⟨s3, hpass, h3⟩ := columnPasses_agreed hperm hpre flags indexes hn hlen
  rw [h] at hpass
  split at hpass
  · next hah =>
    obtain ⟨hgone, renames, hcc, hren⟩ := renamePass_report units s3 s hpass.symm
    obtain ⟨htold, hcols⟩ := renamePass_told units s3 s h3.told hpass.symm
    refine ⟨hgone.trans h3.present, fun c hc => ?_, ?_, htold, hcols.trans h3.placed, fun hf => ?_⟩
    · rw [hcc] at hc
      rcases List.mem_append.mp hc with hc | hc
      · rcases h3.modes c hc with hm | ⟨hf, -⟩
        · exact Or.inl hm
        · cases hf
      · exact Or.inr ⟨hah, hren c hc⟩
    · rw [hcc, List.countP_append, h3.inserted,
        List.countP_eq_zero.mpr fun c hc => by rw [hren c hc]; decide,
        Nat.add_zero]
    · rw [hah] at hf
      cases hf
  · next hah =>
    cases hpass
    rw [Bool.eq_false_of_not_eq_true hah]
    exact h3

end

end Merger

end Coopy
