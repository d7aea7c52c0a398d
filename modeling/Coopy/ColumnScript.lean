import Coopy.ColumnReplay

/-!
# The column script of a two-way merge

Each change of passes 1 to 3 keeps a patcher that started from the local columns in step
with the simulated list (`deletePass_replay`, `movePass_replay`, `insertPass_replay`), so
that the script is as right as the simulation.  That is right exactly when the placements
of pass 2 are (`columnScript_iff`).
-/

namespace Coopy

open Lib

namespace Merger

/-! ## Pass 3 over the simulated list -/

/-- The id of a unit's column in the simulated list. -/
def colId (u : MatchUnit) : Int := if u.localUnit ≠ -1 then u.localUnit else -u.remoteUnit - 1

/-- The columns the merge wants, in order. -/
def wantedCols (units : List MatchUnit) : List Int := (units.filter fun u => !u.deleted).map colId

/-- A unit of a two-way merge: gone, a local column, or an insertion. -/
inductive TwoWay (u : MatchUnit) : Prop
  | gone : u.deleted = true → TwoWay u
  | kept : u.deleted = false → 0 ≤ u.localUnit → (u.pivotUnit = -1 → u.remoteUnit = -1) → TwoWay u
  | added : u.deleted = false → u.localUnit = -1 → u.pivotUnit = -1 → 0 ≤ u.remoteUnit → TwoWay u

theorem TwoWay.of_inserted {u : MatchUnit} (h : TwoWay u) (hi : Inserted u) :
    u.localUnit = -1 ∧ 0 ≤ u.remoteUnit := by
  cases h with
  | gone hd =>
    have := hi.2.2
    rw [hd] at this
    cases this
  | kept _ _ hp => exact absurd (hp hi.1) hi.2.1
  | added _ hl _ hr => exact ⟨hl, hr⟩

theorem shuffledCols_cons (u : MatchUnit) (units : List MatchUnit) : shuffledCols (u :: units) =
    if u.localUnit ≠ -1 ∧ u.deleted = false then u.localUnit :: shuffledCols units
    else shuffledCols units := by
  unfold shuffledCols
  rw [List.filter_cons]
  by_cases h : u.localUnit ≠ -1 ∧ u.deleted = false
  · rw [if_pos h, if_pos (by simpa using h), List.map_cons]
  · rw [if_neg h, if_neg (by simpa using h)]

theorem wantedCols_cons (u : MatchUnit) (units : List MatchUnit) : wantedCols (u :: units) =
    if u.deleted = false then colId u :: wantedCols units else wantedCols units := by
  unfold wantedCols
  rw [List.filter_cons]
  cases u.deleted <;> rfl

/-- Pass 3 puts each insertion where its unit stands, if the local columns are in order. -/
theorem insertPass_cols {remoteNames : NameSniffer} (units : List MatchUnit)
    (htwo : ∀ u ∈ units, TwoWay u) :
    ∀ (done : List Int) (s s' : ColState), s.localCols = done ++ shuffledCols units →
      insertPass remoteNames done.length units s = .ok s' →
      s'.localCols = done ++ wantedCols units := by
  induction units with
  | nil =>
    intro done s s' hs h
    cases h
    exact hs
  | cons u units ih =>
    intro done s s' hs h
    have hrest := ih fun w hw => htwo w (List.mem_cons_of_mem _ hw)
    rw [wantedCols_cons]
    rw [shuffledCols_cons] at hs
    unfold insertPass at h
    simp only at h
    cases htwo u (by simp) with
    | gone hd =>
      rw [hd] at hs h ⊢
      simp only [Bool.true_eq_false, and_false, if_false, Nat.add_zero] at hs h ⊢
      exact hrest done s s' hs h
    | kept hd hl hp =>
      have hl' : u.localUnit ≠ -1 := by omega
      rw [if_pos ⟨hl', hd⟩] at hs
      rw [if_neg (fun hx => hx.2.1 (hp hx.1)), if_pos ⟨hl', hd⟩] at h
      rw [if_pos hd, colId, if_pos hl']
      have := hrest (done ++ [u.localUnit]) s s' (by rw [hs, List.append_assoc]; rfl)
        (by rw [List.length_append, List.length_singleton]; exact h)
      rw [this, List.append_assoc]
      rfl
    | added hd hl hp hr =>
      rw [if_neg (fun hx => hx.1 hl)] at hs
      rw [if_pos ⟨hp, by omega, hd⟩, if_neg (fun hx => hx.1 hl)] at h
      rw [if_pos hd, colId, if_neg (not_not.mpr hl)]
      split at h
      · cases h
      split at h
      · cases h
      rw [show done.length + 1 + 0 = (done ++ [-u.remoteUnit - 1]).length by simp] at h
      refine (hrest _ _ s' ?_ h).trans (by rw [List.append_assoc]; rfl)
      show s.localCols.insertIdx done.length _ = _
      rw [hs, insertIdx_eq_take_drop _ _ _ (by simp), List.take_left, List.drop_left,
        List.append_assoc]
      rfl

/-- Pass 3 leaves the local columns as they are among themselves. -/
theorem insertPass_locals {remoteNames : NameSniffer} (units : List MatchUnit)
    (htwo : ∀ u ∈ units, TwoWay u) :
    ∀ (k : Nat) (s s' : ColState), insertPass remoteNames k units s = .ok s' →
      (s'.localCols.filter fun c => decide (0 ≤ c)) = s.localCols.filter fun c =>
      decide (0 ≤ c) := by
  induction units with
  | nil => intro k s s' h; cases h; rfl
  | cons u units ih =>
    intro k s s' h
    have hrest := ih fun w hw => htwo w (List.mem_cons_of_mem _ hw)
    unfold insertPass at h
    simp only at h
    split at h
    · next hu =>
      have hneg : decide (0 ≤ -u.remoteUnit - 1) = false := by
        apply decide_eq_false
        have := ((htwo u (by simp)).of_inserted hu).2
        omega
      split at h
      · cases h
      split at h
      · cases h
      rw [hrest _ _ _ h]
      by_cases hk : k ≤ s.localCols.length
      · rw [insertIdx_eq_take_drop _ _ _ hk, List.filter_append, List.filter_cons,
          if_neg (by rw [hneg]; simp), ← List.filter_append, List.take_append_drop]
      · rw [List.insertIdx_of_length_lt (by omega)]
    · exact hrest _ _ _ h

theorem filter_wantedCols (units : List MatchUnit) (htwo : ∀ u ∈ units, TwoWay u) :
    ((wantedCols units).filter fun c => decide (0 ≤ c)) = shuffledCols units := by
  induction units with
  | nil => rfl
  | cons u units ih =>
    have hrest := ih fun w hw => htwo w (List.mem_cons_of_mem _ hw)
    rw [wantedCols_cons, shuffledCols_cons]
    cases htwo u (by simp) with
    | gone hd => rw [if_neg (by rw [hd]; simp), if_neg (by rw [hd]; simp), hrest]
    | kept hd hl hp =>
      have hl' : u.localUnit ≠ -1 := by omega
      rw [if_pos hd, if_pos ⟨hl', hd⟩, colId, if_pos hl', List.filter_cons,
        if_pos (by simpa using hl), hrest]
    | added hd hl hp hr =>
      rw [if_pos hd, if_neg (fun hx => hx.1 hl), colId, if_neg (not_not.mpr hl), List.filter_cons,
        if_neg (by simp only [decide_eq_true_eq]; omega), hrest]

/-! ## In step with the patcher -/

/-- A name after some rounds of the loop that appends `_`. -/
def withUnderscores : Nat → String → String
  | 0, name => name
  | j + 1, name => withUnderscores j (name ++ "_")

theorem freeName_eq {taken : List String} : ∀ {fuel : Nat} {name name' : String},
    freeName fuel taken name = some name' → ∃ j, name' = withUnderscores j name := by
  intro fuel
  induction fuel with
  | zero => intro name name' h; cases h
  | succ fuel ih =>
    intro name name' h
    unfold freeName at h
    split at h
    · obtain ⟨j, hj⟩ := ih h
      exact ⟨j + 1, hj⟩
    · cases h
      exact ⟨0, rfl⟩

/-- `name` is the name of column `id`: local columns keep theirs, an inserted one has its
remote name, up to braces and underscores. -/
def ColName (lnames rnames : List String) (id : Int) (name : String) : Prop :=
  (∃ l : Nat, id = l ∧ lnames[l]? = some name) ∨
    ∃ (r j : Nat) (rName : String), id = -(r : Int) - 1 ∧ rnames[r]? = some rName ∧
    name = withUnderscores j (braced rName)

/-- The patcher shows the simulated columns, under their names. -/
structure InStep (lnames rnames : List String) (rows : List (List SheetCell)) (p : SheetPatcher)
    (s : ColState) : Prop where
  shows : SheetPatcher.Shows rows p s.localCols s.localColNames
  named : ∃ nm, s.localColNames = s.localCols.map nm ∧
    ∀ id ∈ s.localCols, ColName lnames rnames id (nm id)

/-- A script leads from `p` to a patcher in step with `s'`. -/
def Leads (lnames rnames : List String) (rows : List (List SheetCell)) (p : SheetPatcher)
    (s s' : ColState) : Prop :=
  ∃ script p', s'.cc = s.cc ++ script ∧ SheetPatcher.changeColumns script p = some p' ∧
  InStep lnames rnames rows p' s'

section
variable {lnames rnames : List String} {rows : List (List SheetCell)}

theorem Leads.refl {p : SheetPatcher} {s : ColState} (h : InStep lnames rnames rows p s) :
    Leads lnames rnames rows p s s := ⟨[], p, (List.append_nil _).symm, rfl, h⟩

/-- One change, and then the rest of a script. -/
theorem Leads.cons {p : SheetPatcher} {r : SheetPatcher × Bool} {s s1 s' : ColState}
    {change : OrderChange} (h1 : p.changeColumn change = some r) (hcc : s1.cc = s.cc ++ [change])
    (h2 : Leads lnames rnames rows r.1 s1 s') : Leads lnames rnames rows p s s' := by
  obtain ⟨script, p', hs', hrun, hin⟩ := h2
  refine ⟨change :: script, p', by rw [hs', hcc, List.append_assoc, List.singleton_append], ?_, hin⟩
  unfold SheetPatcher.changeColumns
  rw [h1]
  exact hrun

theorem Leads.trans {p : SheetPatcher} {s s1 s2 : ColState} (h1 : Leads lnames rnames rows p s s1)
    (h2 : ∀ p1, InStep lnames rnames rows p1 s1 → Leads lnames rnames rows p1 s1 s2) :
    Leads lnames rnames rows p s s2 := by
  obtain ⟨script, p1, hcc, hrun, hin⟩ := h1
  obtain ⟨script', p2, hcc', hrun', hin'⟩ := h2 p1 hin
  refine ⟨script ++ script', p2, by rw [hcc', hcc, List.append_assoc], ?_, hin'⟩
  rw [SheetPatcher.changeColumns_append hrun]
  exact hrun'

theorem deletePass_replay {indexes : AssocMap String Bool} (units : List MatchUnit) :
    ∀ (p : SheetPatcher) (s s' : ColState), InStep lnames rnames rows p s →
      deletePass indexes units s = .ok s' → Leads lnames rnames rows p s s' := by
  induction units with
  | nil =>
    intro p s s' hin h
    cases h
    exact Leads.refl hin
  | cons u units ih =>
    intro p s s' hin h
    unfold deletePass at h
    simp only at h
    split at h
    · split at h
      · next hmem =>
        obtain ⟨r, hr, hshow⟩ := hin.shows.deleteCol (s.change
          { s with
            localCols := s.localCols.eraseIdx (s.localCols.idxOf u.pivotUnit)
            localColNames := s.localColNames.eraseIdx (s.localCols.idxOf u.pivotUnit)
            constantIndex := _
            allGone := _ } .delete u.pivotUnit (-1)) rfl rfl rfl hmem
        refine Leads.cons hr rfl (ih r.1 _ s' ⟨hshow, ?_⟩ h)
        obtain ⟨nm, hnm, hcol⟩ := hin.named
        refine ⟨nm, ?_, fun id hid => hcol id (List.mem_of_mem_eraseIdx hid)⟩
        show s.localColNames.eraseIdx _ = _
        rw [hnm, List.eraseIdx_map]
      · cases h
    · exact ih p s s' hin h

/-- A name that goes back to where it was stood there before. -/
theorem insertIdx_eraseIdx_names {names : List String} (hnd : names.Nodup) {i k : Nat}
    (hi : i < names.length)
    (hk : k < names.length) (h : (names.eraseIdx i).insertIdx k names[i] = names) : k = i := by
  have hlen : (names.eraseIdx i).length = names.length - 1 := List.length_eraseIdx_of_lt hi
  have hget : ((names.eraseIdx i).insertIdx k names[i])[k]? = some names[i] := by
    rw [List.getElem?_insertIdx_self, if_pos (by omega)]
  rw [h, List.getElem?_eq_getElem hk, Option.some.injEq] at hget
  exact hnd.getElem_inj_iff.mp hget

theorem movePass_replay {shuffled : List Int} (order : List Int) :
    ∀ (p : SheetPatcher) (s s' : ColState),
    s.localCols.Perm shuffled → InStep lnames rnames rows p s → movePass shuffled order s = .ok s' →
      Leads lnames rnames rows p s s' := by
  induction order with
  | nil =>
    intro p s s' _ hin h
    cases h
    exact Leads.refl hin
  | cons a order ih =>
    intro p s s' hperm hin h
    unfold movePass at h
    split at h
    · next hmem =>
      have hi : s.localCols.idxOf a < s.localCols.length := List.idxOf_lt_length_of_mem hmem.1
      have hk : shuffled.idxOf a < s.localCols.length := by
        rw [hperm.length_eq]
        exact List.idxOf_lt_length_of_mem hmem.2
      have hpar := hin.shows.parallel
      have hget : s.localCols[s.localCols.idxOf a] = a := List.getElem_idxOf hi
      have hperm' := placeAt_perm hperm hmem.2
      have hname :
        nameAt s.localColNames (s.localCols.idxOf a) = s.localColNames[s.localCols.idxOf a] :=
        List.getD_eq_getElem _ _ (by omega)
      simp only at h
      obtain ⟨nm, hnm, hcol⟩ := hin.named
      have hnamed :
        ∃ nm, (s.localColNames.eraseIdx (s.localCols.idxOf a)).insertIdx (shuffled.idxOf a)
          (nameAt s.localColNames (s.localCols.idxOf a)) = (placeAt shuffled s.localCols a).map nm ∧
          ∀ id ∈ placeAt shuffled s.localCols a, ColName lnames rnames id (nm id) := by
        refine ⟨nm, ?_, fun id hid => hcol id (hperm.mem_iff.mpr (hperm'.mem_iff.mp hid))⟩
        have hat : nameAt s.localColNames (s.localCols.idxOf a) = nm a := by
          unfold nameAt
          rw [hnm, List.getD_eq_getElem?_getD, List.getElem?_map, List.getElem?_eq_getElem hi, hget]
          rfl
        unfold placeAt
        rw [hat, List.map_insertIdx, ← List.eraseIdx_map, ← hnm]
      by_cases hsame :
        s.localColNames = (s.localColNames.eraseIdx (s.localCols.idxOf a)).insertIdx
          (shuffled.idxOf a)
          (nameAt s.localColNames (s.localCols.idxOf a))
      · -- a column that is moved to where it stands: nothing is reported
        have hki : shuffled.idxOf a = s.localCols.idxOf a := by
          rw [hname] at hsame
          exact insertIdx_eraseIdx_names hin.shows.names_nodup (by omega) (by omega) hsame.symm
        have hcols : (s.localCols.eraseIdx (s.localCols.idxOf a)).insertIdx (shuffled.idxOf a) a =
          s.localCols := by
          have := List.insertIdx_eraseIdx_getElem hi
          rw [hget] at this
          rw [hki, this]
        rw [← hsame, hcols, if_neg (fun hne => hne rfl)] at h
        exact ih p s s' hperm hin h
      · rw [if_pos hsame] at h
        obtain ⟨r, hr, hshow⟩ := hin.shows.moveCol (s.change
          { s with
            localCols := (s.localCols.eraseIdx (s.localCols.idxOf a)).insertIdx (shuffled.idxOf a) a
            localColNames :=
              (s.localColNames.eraseIdx (s.localCols.idxOf a)).insertIdx (shuffled.idxOf a)
              (nameAt s.localColNames (s.localCols.idxOf a)) } .move a a) rfl hmem.1 hk rfl rfl
        exact Leads.cons hr rfl (ih r.1 _ s' hperm' ⟨hshow, hnamed⟩ h)
    · cases h

/-- Pass 3, with `k` units passed that have a column. -/
theorem insertPass_replay (units : List MatchUnit) (htwo : ∀ u ∈ units, TwoWay u)
    (hdist : units.Pairwise fun u v => Inserted u → Inserted v → u.remoteUnit ≠ v.remoteUnit)
    (hnames : ∀ u ∈ units, Inserted u → u.remoteUnit.toNat < rnames.length) :
    ∀ (k : Nat) (p : SheetPatcher) (s s' : ColState), k + (shuffledCols units).length =
    s.localCols.length →
      (∀ u ∈ units, Inserted u → -u.remoteUnit - 1 ∉ s.localCols) → InStep lnames rnames rows p s →
      insertPass ⟨rnames, []⟩ k units s = .ok s' → Leads lnames rnames rows p s s' := by
  induction units with
  | nil =>
    intro k p s s' _ _ hin h
    cases h
    exact Leads.refl hin
  | cons u units ih =>
    intro k p s s' hk hfresh hin h
    obtain ⟨hfirst, hrest⟩ := List.pairwise_cons.mp hdist
    have hih := ih (fun w hw => htwo w (List.mem_cons_of_mem _ hw)) hrest fun w hw =>
      hnames w (List.mem_cons_of_mem _ hw)
    rw [shuffledCols_cons] at hk
    unfold insertPass at h
    simp only at h
    split at h
    · next hu =>
      have hins : Inserted u := hu
      have hlt := hnames u (by simp) hins
      obtain ⟨hlocal, hremote⟩ := (htwo u (by simp)).of_inserted hins
      have hnot : ¬(u.localUnit ≠ -1 ∧ u.deleted = false) := fun hx => hx.1 hlocal
      have hneg : -u.remoteUnit - 1 < 0 := by omega
      have hnew := hfresh u (by simp) hins
      rw [if_neg hnot] at hk h
      split at h
      · cases h
      · next name hname =>
        split at h
        · cases h
        · next name' hfree =>
          have hkle : k ≤ s.localCols.length := by omega
          obtain ⟨r, hr, hshow⟩ := hin.shows.insertCol (s.change
            { s with
              localCols := s.localCols.insertIdx k (-u.remoteUnit - 1)
              localColNames := s.localColNames.insertIdx k name' } .insert (-u.remoteUnit - 1) (-1))
                rfl rfl rfl hkle
            hnew hneg (freeName_not_mem hfree)
          refine Leads.cons hr rfl (hih (k + 1 + 0) r.1 _ s' ?_ ?_ ⟨hshow, ?_⟩ h)
          · show _ = (s.localCols.insertIdx k _).length
            rw [List.length_insertIdx_of_le_length hkle]
            omega
          · intro w hw hwi hm
            rcases List.eq_or_mem_of_mem_insertIdx hm with he | hm
            · exact hfirst w hw hins hwi (by omega)
            · exact hfresh w (List.mem_cons_of_mem _ hw) hwi hm
          · obtain ⟨nm, hnm, hcol⟩ := hin.named
            have hold : ∀ id ∈ s.localCols, (if id = -u.remoteUnit - 1 then name' else nm id) =
              nm id := by
              intro id hid
              rw [if_neg]
              rintro rfl
              exact hnew hid
            refine ⟨fun id => if id = -u.remoteUnit - 1 then name' else nm id, ?_, fun id hid => ?_⟩
            · show s.localColNames.insertIdx k name' = (s.localCols.insertIdx k _).map _
              rw [List.map_insertIdx, if_pos rfl, List.map_congr_left hold, ← hnm]
            · rcases List.eq_or_mem_of_mem_insertIdx hid with rfl | hid
              · simp only [if_true]
                obtain ⟨j, hj⟩ := freeName_eq hfree
                have hread : rnames[u.remoteUnit.toNat]? = some name := by
                  unfold NameSniffer.suggestColumnName at hname
                  rw [if_pos (by show 0 < rnames.length; omega)] at hname
                  exact hname
                exact Or.inr ⟨u.remoteUnit.toNat, j, name, by omega, hread, hj⟩
              · simp only [hold id hid]
                exact hcol id hid
    · refine hih _ p s s' ?_ (fun w hw => hfresh w (List.mem_cons_of_mem _ hw)) hin h
      by_cases hc : u.localUnit ≠ -1 ∧ u.deleted = false
      · rw [if_pos hc, List.length_cons] at hk
        rw [if_pos hc]
        omega
      · rw [if_neg hc] at hk
        rw [if_neg hc]
        omega

end

/-! ## The two-way merge -/

/-- The local columns that the remote kept. -/
def keptCols {n m : Nat} (M : Matching n m) : List Int :=
  ((List.range n).filter fun l => (M.fwd l).isSome).map Int.ofNat

/-- The same in the order of the remote. -/
def keptOrder {n m : Nat} (M : Matching n m) : List Int :=
  (List.range m).filterMap fun r => (M.bwd r).map Int.ofNat

/-- The moves `Mover` finds from one order to another. -/
def moveOrder (src dest : List Int) : Option (List Int) :=
  (Mover.move dest (dest.length + 1) src [] [] 0 Mover.fresh).map fun r => r.2.2

/-- After passes 1 to 3 the simulated columns are those of the kept units, in order and under
their names; and the script, applied to a sheet with the local columns, gives the columns
in remote order, with the cells of each column that stays. -/
def ColumnScriptRight (lnames rnames : List String) (M : Matching lnames.length rnames.length)
    (indexes : AssocMap String Bool) (sheet : TypedSheet SheetCell) (units : List MatchUnit) :
    Prop :=
  ∃ s p0 p, columnPasses { assumeHeader := false } indexes ⟨lnames, []⟩ ⟨rnames, []⟩ units
      (ColState.start lnames.length lnames) = .ok s ∧
    s.localCols = wantedCols units ∧
      List.Forall₂ (ColName lnames rnames) s.localCols s.localColNames ∧
    SheetPatcher.attach sheet lnames false = some p0 ∧ SheetPatcher.changeColumns s.cc p0 = some p ∧
    p.sheet.w = rnames.length ∧ p.activeCol.arr = [s.localColNames] ∧
    ∀ r l : Nat, M.b2a r = l →
      p.sheet.arr.map (fun row => row.getD r sheet.zero) = sheet.arr.map fun row =>
      row.getD l sheet.zero

section
variable {n m : Nat} (M : Matching n m)

theorem shuffledCols_remote : shuffledCols (OrderMerge.remoteUnits M ++ OrderMerge.deletedUnits M) =
    keptOrder M := by
  have hdel : shuffledCols (OrderMerge.deletedUnits M) = [] := by
    unfold shuffledCols
    rw [List.filter_eq_nil_iff.mpr]
    · rfl
    · intro u hu
      obtain ⟨p, -, rfl⟩ := List.mem_map.mp hu
      simp
  have happ : shuffledCols (OrderMerge.remoteUnits M ++ OrderMerge.deletedUnits M) =
      shuffledCols (OrderMerge.remoteUnits M) ++ shuffledCols (OrderMerge.deletedUnits M) := by
    unfold shuffledCols
    rw [List.filter_append, List.map_append]
  rw [happ, hdel, List.append_nil]
  unfold keptOrder OrderMerge.remoteUnits
  induction List.range m with
  | nil => rfl
  | cons r rs ih =>
    rw [List.map_cons, shuffledCols_cons, List.filterMap_cons, ih]
    unfold OrderMerge.remoteUnitAt
    cases M.bwd r with
    | none => rfl
    | some p => exact if_pos ⟨by simp only []; omega, rfl⟩

theorem twoWay_units : ∀ u ∈ OrderMerge.remoteUnits M ++ OrderMerge.deletedUnits M, TwoWay u := by
  intro u hu
  rcases List.mem_append.mp hu with hu | hu
  · obtain ⟨r, -, rfl⟩ := List.mem_map.mp hu
    unfold OrderMerge.remoteUnitAt
    cases M.bwd r with
    | none => exact TwoWay.added rfl rfl rfl (Int.natCast_nonneg r)
    | some p =>
      exact TwoWay.kept rfl (Int.natCast_nonneg p) fun hp => absurd hp (by simp only []; omega)
  · obtain ⟨p, -, rfl⟩ := List.mem_map.mp hu
    exact TwoWay.gone rfl

theorem wantedCols_remote : wantedCols (OrderMerge.remoteUnits M ++ OrderMerge.deletedUnits M) =
    (List.range m).map fun r => (M.bwd r).elim (-(r : Int) - 1) Int.ofNat := by
  have hkeep :
    ((OrderMerge.remoteUnits M ++ OrderMerge.deletedUnits M).filter fun u => !u.deleted) =
      OrderMerge.remoteUnits M := by
    rw [List.filter_append, List.filter_eq_self.mpr, List.filter_eq_nil_iff.mpr, List.append_nil]
    · intro u hu
      obtain ⟨p, -, rfl⟩ := List.mem_map.mp hu
      simp
    · intro u hu
      obtain ⟨r, -, rfl⟩ := List.mem_map.mp hu
      simp
  unfold wantedCols
  rw [hkeep, OrderMerge.remoteUnits, List.map_map]
  refine List.map_congr_left fun r _ => ?_
  show colId (OrderMerge.remoteUnitAt M r) = _
  unfold OrderMerge.remoteUnitAt colId
  cases M.bwd r with
  | none => rfl
  | some p => exact if_pos (by simp only []; omega)

/-- Pass 1 leaves the columns the remote kept. -/
theorem deletePass_twoWay (indexes : AssocMap String Bool) (names : List String) :
    ∃ s, deletePass indexes (OrderMerge.remoteUnits M ++ OrderMerge.deletedUnits M)
    (ColState.start n names) = .ok s ∧
      s.localCols = keptCols M := by
  have hpiv : deletedPivots (OrderMerge.remoteUnits M ++ OrderMerge.deletedUnits M) =
      ((List.range n).filter fun p => (M.fwd p).isNone).map Int.ofNat := by
    unfold deletedPivots
    rw [List.filter_append, List.filter_eq_nil_iff.mpr, List.filter_eq_self.mpr, List.nil_append]
    · unfold OrderMerge.deletedUnits
      rw [List.map_map]
      rfl
    · intro u hu
      obtain ⟨p, -, rfl⟩ := List.mem_map.mp hu
      simp only [Bool.and_true, bne_iff_ne]
      omega
    · intro u hu
      obtain ⟨r, -, rfl⟩ := List.mem_map.mp hu
      simp
  have hnd : (ColState.start n names).localCols.Nodup :=
    List.nodup_range.map fun _ _ => Int.ofNat.inj
  obtain ⟨s, hs⟩ := deletePass_ok indexes (OrderMerge.remoteUnits M ++ OrderMerge.deletedUnits M)
    (ColState.start n names) hnd (by
      rw [hpiv]
      exact (List.nodup_range.filter _).map fun _ _ => Int.ofNat.inj) (by
      rw [hpiv]
      intro p hp
      obtain ⟨i, hi, rfl⟩ := List.mem_map.mp hp
      exact List.mem_map.mpr ⟨i, (List.mem_filter.mp hi).1, rfl⟩)
  refine ⟨s, hs, ?_⟩
  rw [(deletePass_eq _ _ s hnd hs).1, hpiv]
  unfold keptCols
  show ((List.range n).map Int.ofNat).filter _ = _
  rw [List.filter_map]
  congr 1
  refine List.filter_congr fun l hl => ?_
  simp only [Function.comp_apply]
  have hinj :
    ∀ i : Nat, Int.ofNat i ∈ ((List.range n).filter fun p => (M.fwd p).isNone).map Int.ofNat ↔
      (i < n ∧ (M.fwd i).isNone = true) := by
    intro i
    rw [List.mem_map]
    constructor
    · rintro ⟨j, hj, he⟩
      obtain rfl := Int.ofNat.inj he
      exact ⟨List.mem_range.mp (List.mem_filter.mp hj).1, (List.mem_filter.mp hj).2⟩
    · exact fun h => ⟨i, List.mem_filter.mpr ⟨List.mem_range.mpr h.1, h.2⟩, rfl⟩
  rw [Bool.eq_iff_iff, decide_eq_true_eq, hinj]
  cases M.fwd l with
  | none => simp [List.mem_range.mp hl]
  | some r => simp

theorem keptOrder_nodup : (keptOrder M).Nodup := by
  unfold keptOrder
  refine List.Nodup.filterMap (fun r r' i hi hi' => ?_) List.nodup_range
  obtain ⟨p, hp, rfl⟩ := Option.map_eq_some_iff.mp (Option.mem_def.mp hi)
  obtain ⟨p', hp', he⟩ := Option.map_eq_some_iff.mp (Option.mem_def.mp hi')
  obtain rfl := Int.ofNat.inj he
  exact M.bwd_inj hp hp'

theorem keptOrder_nonneg : ∀ i ∈ keptOrder M, (0 : Int) ≤ i := by
  intro i hi
  obtain ⟨r, -, hr⟩ := List.mem_filterMap.mp hi
  obtain ⟨p, -, rfl⟩ := Option.map_eq_some_iff.mp hr
  exact Int.natCast_nonneg p

theorem inserted_distinct : (OrderMerge.remoteUnits M ++ OrderMerge.deletedUnits M).Pairwise
    fun u v => Inserted u → Inserted v → u.remoteUnit ≠ v.remoteUnit := by
  refine List.pairwise_append.mpr
    ⟨(OrderMerge.remoteUnits_pairwise M).imp fun h _ _ => by omega, ?_, ?_⟩
  · refine List.pairwise_map.mpr (List.pairwise_of_forall fun p q hp => ?_)
    cases hp.2.2
  · intro u _ v hv _ hi
    obtain ⟨p, -, rfl⟩ := List.mem_map.mp hv
    cases hi.2.2

theorem keptCols_perm : (keptCols M).Perm (keptOrder M) := by
  have hnd : (keptCols M).Nodup := (List.nodup_range.filter _).map fun _ _ => Int.ofNat.inj
  refine (List.perm_ext_iff_of_nodup hnd (keptOrder_nodup M)).mpr fun i => ?_
  unfold keptCols keptOrder
  simp only [List.mem_map, List.mem_filter, List.mem_filterMap, List.mem_range,
    Option.isSome_iff_exists, Option.map_eq_some_iff]
  constructor
  · rintro ⟨l, ⟨-, r, hf⟩, rfl⟩
    exact ⟨r, (M.fwd_lt hf).2, l, (M.fwd_eq_some_iff l r).mp hf, rfl⟩
  · rintro ⟨r, -, l, hb, rfl⟩
    exact ⟨l, ⟨(M.bwd_lt hb).1, r, (M.fwd_eq_some_iff l r).mpr hb⟩, rfl⟩

end

/-- A patcher set to a sheet with the local columns is in step with the start. -/
theorem attach_inStep {lnames : List String} (rnames : List String) (hl : lnames.Nodup)
    {sheet : TypedSheet SheetCell}
    (hw : sheet.w = lnames.length) (hrect : ∀ row ∈ sheet.arr, row.length = sheet.w)
    (assumeHeader : Bool) : ∃ p0, SheetPatcher.attach sheet lnames assumeHeader = some p0 ∧
      InStep lnames rnames sheet.arr p0 (ColState.start lnames.length lnames) := by
  have hshow : SheetPatcher.Shows sheet.arr
      { sheet := sheet
        assumeHeader := assumeHeader
        activeCol := ⟨[lnames], lnames.length, ""⟩
        statusCol := ⟨[List.replicate lnames.length ""], lnames.length, ""⟩ }
      (ColState.start lnames.length lnames).localCols
        (ColState.start lnames.length lnames).localColNames := by
    refine ⟨List.nodup_range.map fun _ _ => Int.ofNat.inj, hl, by simp [ColState.start], ⟨rfl, rfl⟩,
      ⟨⟨_, rfl, List.length_replicate, fun x hx => ?_⟩, rfl⟩, ⟨rfl, rfl⟩, by
        simp [ColState.start, hw], fun _ _ _ => rfl,
      sheet.arr, Or.inl rfl, ?_⟩
    · rw [List.eq_of_mem_replicate hx]
      decide
    · conv_lhs => rw [← List.map_id sheet.arr]
      refine List.map_congr_left fun row hrow => ?_
      have hlen : row.length = lnames.length := (hrect row hrow).trans hw
      show row = ((List.range lnames.length).map Int.ofNat).map _
      rw [List.map_map]
      refine List.ext_getElem (by simp [hlen]) fun i h1 h2 => ?_
      rw [List.getElem_map, List.getElem_range]
      show row[i] = SheetPatcher.cellOf _ row (Int.ofNat i)
      unfold SheetPatcher.cellOf
      rw [if_neg (by simp), show (Int.ofNat i).toNat = i from rfl, List.getD_eq_getElem _ _ h1]
  obtain ⟨p0, hp0, hs0⟩ := hshow.updateCols
  refine ⟨p0, hp0, hs0, fun id => lnames.getD id.toNat "", ?_, fun id hid => ?_⟩
  · show lnames = ((List.range lnames.length).map Int.ofNat).map _
    rw [List.map_map]
    refine List.ext_getElem (by simp) fun i h1 h2 => ?_
    rw [List.getElem_map, List.getElem_range]
    exact (List.getD_eq_getElem _ _ h1).symm
  · obtain ⟨l, hl', rfl⟩ := List.mem_map.mp hid
    have hlt := List.mem_range.mp hl'
    refine Or.inl ⟨l, rfl, ?_⟩
    show lnames[l]? = some (lnames.getD l "")
    rw [List.getD_eq_getElem _ _ hlt, List.getElem?_eq_getElem hlt]

/-- The places passes 1 to 3 of a two-way merge come by. -/
structure Passes {n m : Nat} (M : Matching n m) (indexes : AssocMap String Bool)
    (lnames rnames : List String)
    (units : List MatchUnit) (order : List Int) (s1 s2 s3 : ColState) : Prop where
  deleted : deletePass indexes units (ColState.start lnames.length lnames) = .ok s1
  shuffled : shufflePass units s1 = .ok s2
  inserted : insertPass ⟨rnames, []⟩ 0 units s2 = .ok s3
  moves : moveOrder (keptCols M) (keptOrder M) = some order
  perm : s2.localCols.Perm (keptOrder M)
  placed_iff : s2.localCols = keptOrder M ↔ PlacementAgrees (keptOrder M) (keptCols M) order
  leads : ∀ (rows : List (List SheetCell)) (p0 : SheetPatcher),
    InStep lnames rnames rows p0 (ColState.start lnames.length lnames) →
      Leads lnames rnames rows p0 (ColState.start lnames.length lnames) s3

theorem remoteUnit_lt {n m : Nat} (M : Matching n m) :
    ∀ u ∈ OrderMerge.remoteUnits M ++ OrderMerge.deletedUnits M, u.remoteUnit ≠ -1 →
    u.remoteUnit.toNat < m := by
  intro u hu hr
  rcases List.mem_append.mp hu with hu | hu
  · obtain ⟨r, hlt, rfl⟩ := List.mem_map.mp hu
    rw [OrderMerge.remoteUnitAt_remoteUnit]
    exact List.mem_range.mp hlt
  · obtain ⟨p, -, rfl⟩ := List.mem_map.mp hu
    exact absurd rfl hr

/-- Passes 1 to 3 come through, and the patcher keeps in step. -/
theorem passes (lnames rnames : List String) (M : Matching lnames.length rnames.length)
    (indexes : AssocMap String Bool) :
    ∃ order s1 s2 s3, Passes M indexes lnames rnames
      (OrderMerge.remoteUnits M ++ OrderMerge.deletedUnits M)
      order s1 s2 s3 := by
  have htwo := twoWay_units M
  have hshuf := shuffledCols_remote M
  obtain ⟨s1, h1, hcols1⟩ := deletePass_twoWay M indexes lnames
  have hperm : s1.localCols.Perm (keptOrder M) := by
    rw [hcols1]
    exact keptCols_perm M
  have hnd := keptOrder_nodup M
  obtain ⟨mover, order, hmove, hsol⟩ := Mover.move_spec hnd (keptCols_perm M) (Nat.lt_succ_self _)
  have horder : moveOrder (keptCols M) (keptOrder M) = some order := by
    unfold moveOrder
    rw [hmove]
    rfl
  obtain ⟨s2, h2, hcols2⟩ := movePass_ok order s1 hperm hsol.subset
  have hshuffle : shufflePass (OrderMerge.remoteUnits M ++ OrderMerge.deletedUnits M) s1 =
    .ok s2 := by
    unfold shufflePass
    simp only [hshuf]
    rw [if_neg (not_not.mpr hperm.length_eq), hcols1, hmove]
    exact h2
  have hplace : s2.localCols = keptOrder M ↔ PlacementAgrees (keptOrder M) (keptCols M) order := by
    rw [hcols2, hcols1]
    exact foldl_placeAt_eq_iff hnd order _ (keptCols_perm M) hsol.nodup hsol.subset hsol.filter_eq
  have hread := remoteUnit_lt M
  have hfits : NameSniffer.Fits ⟨rnames, []⟩ rnames.length := Or.inr rfl
  obtain ⟨s3, h3⟩ := insertPass_ok (OrderMerge.remoteUnits M ++ OrderMerge.deletedUnits M)
    (fun u hu hr => by rw [hfits.suggestColumnName (hread u hu hr)]; rfl) 0 s2
  have hperm2 : s2.localCols.Perm (keptOrder M) := by
    rw [hcols2]
    exact foldl_placeAt_perm order _ hperm hsol.subset
  refine ⟨order, s1, s2, s3, h1, hshuffle, h3, horder, hperm2, hplace, ?_⟩
  intro rows p0 hin0
  refine (deletePass_replay _ p0 _ s1 hin0 h1).trans fun p1 hin1 => ?_
  refine (movePass_replay order p1 s1 s2 hperm hin1 h2).trans fun p2 hin2 => ?_
  refine insertPass_replay _ htwo ?_ (fun u hu hi => hread u hu hi.2.1) 0 p2 s2 s3 ?_ ?_ hin2 h3
  · exact inserted_distinct M
  · rw [hshuf, Nat.zero_add, hperm2.length_eq]
  · intro u hu hi hm
    have := keptOrder_nonneg M _ (hperm2.mem_iff.mp hm)
    have := ((htwo u hu).of_inserted hi).2
    omega

/-- **The column script.**  It is right exactly when at each move, in the order `Mover` gives,
as many columns still to be moved stand before the target as belong before it. -/
theorem columnScript_iff (lnames rnames : List String) (hl : lnames.Nodup)
    (M : Matching lnames.length rnames.length) (indexes : AssocMap String Bool)
    (sheet : TypedSheet SheetCell)
    (hw : sheet.w = lnames.length) (hrect : ∀ row ∈ sheet.arr, row.length = sheet.w) :
    ∃ cols, OrderMerge.merge
      (OrderMerge.enough (Matching.identity lnames.length).toOrderResult M.toOrderResult)
        (Matching.identity lnames.length).toOrderResult M.toOrderResult {} true = some cols ∧
      (ColumnScriptRight lnames rnames M indexes sheet cols.accum ↔
        ∀ order, moveOrder (keptCols M) (keptOrder M) = some order →
          PlacementAgrees (keptOrder M) (keptCols M) order) := by
  refine ⟨_, OrderMerge.merge_identity_local rfl rfl M rfl (by
    unfold OrderMerge.enough
    rw [Matching.blen_toOrderResult, Matching.blen_toOrderResult]), ?_⟩
  simp only
  have htwo := twoWay_units M
  have hshuf := shuffledCols_remote M
  obtain ⟨order, s1, s2, s3, h⟩ := passes lnames rnames M indexes
  have hpasses : columnPasses { assumeHeader := false } indexes ⟨lnames, []⟩ ⟨rnames, []⟩
      (OrderMerge.remoteUnits M ++ OrderMerge.deletedUnits M)
        (ColState.start lnames.length lnames) = .ok s3 := by
    unfold columnPasses
    rw [h.deleted]
    simp only [Except.bind, h.shuffled, h.inserted]
    rfl
  constructor
  · rintro ⟨s, -, -, hs, hwant, -⟩ order' horder'
    obtain rfl : s3 = s := Except.ok.inj (hpasses.symm.trans hs)
    obtain rfl : order = order' := Option.some.inj (h.moves.symm.trans horder')
    apply h.placed_iff.mp
    have hfil := insertPass_locals _ htwo 0 s2 s3 h.inserted
    rw [hwant, filter_wantedCols _ htwo, hshuf] at hfil
    rw [hfil]
    exact (List.filter_eq_self.mpr fun c hc =>
      decide_eq_true (keptOrder_nonneg M c (h.perm.mem_iff.mp hc))).symm
  · intro hagree
    have hcols2' := h.placed_iff.mpr (hagree order h.moves)
    have hwant :
      s3.localCols = wantedCols (OrderMerge.remoteUnits M ++ OrderMerge.deletedUnits M) :=
      insertPass_cols _ htwo [] s2 s3 (by rw [hcols2', hshuf]; rfl) h.inserted
    obtain ⟨p0, hp0, hin0⟩ := attach_inStep rnames hl hw hrect false
    obtain ⟨script, p, hcc, hrun, hin⟩ := h.leads sheet.arr p0 hin0
    obtain ⟨nm, hnm, hcol⟩ := hin.named
    obtain ⟨base, hbase, harr⟩ := hin.shows.sheet_arr
    have hids := hwant.trans (wantedCols_remote M)
    refine ⟨s3, p0, p, hpasses, hwant, ?_, hp0, ?_, ?_, hin.shows.active.1, ?_⟩
    · rw [hnm, List.forall₂_map_right_iff]
      exact List.forall₂_same.mpr hcol
    · rw [show s3.cc = script from hcc]
      exact hrun
    · rw [hin.shows.sheet_w, hids, List.length_map, List.length_range]
    · intro r l hrl
      have hb := (M.b2a_eq_iff r l).mp hrl
      obtain ⟨hll, hrr⟩ := M.bwd_lt hb
      have hget : s3.localCols[r]? = some (l : Int) := by
        rw [hids, List.getElem?_map, List.getElem?_range hrr, Option.map_some, hb]
        rfl
      have hbase' : base = sheet.arr := by
        rcases hbase with h | h
        · exact h
        · have := h l (List.mem_of_getElem? hget)
          omega
      rw [harr, hbase', List.map_map]
      refine List.map_congr_left fun row hrow => ?_
      show (s3.localCols.map (SheetPatcher.cellOf p.sheet.zero row)).getD r sheet.zero = _
      rw [List.getD_eq_getElem?_getD, List.getElem?_map, hget, Option.map_some, Option.getD_some]
      unfold SheetPatcher.cellOf
      have hlen : l < row.length := by rw [hrect row hrow, hw]; exact hll
      rw [if_neg (by omega), Int.toNat_natCast, List.getD_eq_getElem _ _ hlen,
        List.getD_eq_getElem _ _ hlen]

/-- Columns `a`, `b`, `c`, `d`, that the remote has as `b`, `d`, `c`, `a`. -/
def firstToLast : Matching 4 4 :=
  ⟨⟨[3, 0, 2, 1], [1, 3, 2, 0]⟩, rfl, rfl, by decide, by decide, by decide⟩

def fourCells : TypedSheet SheetCell :=
  ⟨[[⟨"1", false⟩, ⟨"2", false⟩, ⟨"3", false⟩, ⟨"4", false⟩]], 4, ⟨"", false⟩⟩

theorem columnScript_iff_firstToLast :
    ∃ cols, OrderMerge.merge
      (OrderMerge.enough (Matching.identity 4).toOrderResult firstToLast.toOrderResult)
        (Matching.identity 4).toOrderResult firstToLast.toOrderResult {} true = some cols ∧
      (ColumnScriptRight ["a", "b", "c", "d"] ["b", "d", "c", "a"] firstToLast
        [] fourCells cols.accum ↔
        ∀ order, moveOrder (keptCols firstToLast) (keptOrder firstToLast) = some order →
          PlacementAgrees (keptOrder firstToLast) (keptCols firstToLast) order) :=
  columnScript_iff ["a", "b", "c", "d"] ["b", "d", "c", "a"] (by decide) firstToLast
    [] fourCells rfl
    (by decide)

/-- `Mover` says to move `d` and then `a`; sent to index 1 among `a`, `b`, `c`, column `d` lands
before `b`. -/
theorem columnScript_wrong_firstToLast :
    ∃ cols, OrderMerge.merge
      (OrderMerge.enough (Matching.identity 4).toOrderResult firstToLast.toOrderResult)
        (Matching.identity 4).toOrderResult firstToLast.toOrderResult {} true = some cols ∧
      ¬ ColumnScriptRight ["a", "b", "c", "d"] ["b", "d", "c", "a"] firstToLast
        [] fourCells cols.accum := by
  have hcols :
    OrderMerge.merge
      (OrderMerge.enough (Matching.identity 4).toOrderResult firstToLast.toOrderResult)
      (Matching.identity 4).toOrderResult firstToLast.toOrderResult {} true =
      some ⟨OrderMerge.remoteUnits firstToLast, 4⟩ := by decide +kernel
  refine ⟨_, hcols, ?_⟩
  rintro ⟨s, -, -, hs, hwant, -⟩
  have hm :
    ((columnPasses { assumeHeader := false } [] ⟨["a", "b", "c", "d"],
      []⟩ ⟨["b", "d", "c", "a"], []⟩
      (OrderMerge.remoteUnits firstToLast) (ColState.start 4 ["a", "b", "c", "d"])).toOption.map
        ColState.localCols) =
      some [3, 1, 2, 0] := by decide +kernel
  rw [show columnPasses { assumeHeader := false } [] ⟨["a", "b", "c", "d"], []⟩
    ⟨["b", "d", "c", "a"], []⟩
    (OrderMerge.remoteUnits firstToLast) (ColState.start 4 ["a", "b", "c", "d"]) =
      .ok s from hs] at hm
  have hlist : s.localCols = [3, 1, 2, 0] := Option.some.inj hm
  rw [hlist] at hwant
  exact absurd hwant (by decide +kernel)

end Merger

end Coopy
