import Coopy.OrderLaw
import Mathlib.Tactic.Linarith

/-!
# The order of the units that two agreeing sides added

With the same edits on both sides, an index that is not in the pivot gives two units, one of local
and one of the remote.  Every link leads one index on.  Of two ways into a unit the one along local
comes first, since the sweep collects a local unit before the remote ones of its stretch.  So the
first round goes along local and takes all of it but the last unit, whose next is the dead end.

    the path of the first round is local's units in order, and the dead end            (agreed_path)
    the order pass starts with the local units up to the last but one             (orderPass_locals)
-/

namespace Coopy

open Lib Lib.Trellis

namespace OrderMerge

section
variable {np n : Nat} (M : Matching np n)

/-! ## The units of the sweep -/

/-- The sweep when the remote did the same as local. -/
def agreedSweep : List MatchUnit := sweepFrom M M (List.range n) 0

/-- The unit of the remote index `k`. -/
def remoteOf (k : Nat) : MatchUnit := if M.bwd k = none then insertUnit k else unitAt M M k

/-- The index a unit stands for, on either side. -/
def place (u : MatchUnit) : Int := max u.localUnit u.remoteUnit

variable {M}

theorem agreedSweep_perm : (agreedSweep M).Perm (sweptUnits M M) :=
  sweepFrom_perm (List.range n) 0 (Nat.zero_le _)

theorem mem_agreedSweep {u : MatchUnit} : u ∈ agreedSweep M ↔
    (∃ k < n, u = unitAt M M k) ∨ ∃ r < n, M.bwd r = none ∧ u = insertUnit r := by
  rw [agreedSweep_perm.mem_iff, sweptUnits, List.mem_append, List.mem_map, mem_insertsIn]
  refine or_congr ⟨?_, ?_⟩ ⟨?_, ?_⟩
  · rintro ⟨k, hk, rfl⟩
    exact ⟨k, List.mem_range.mp hk, rfl⟩
  · rintro ⟨k, hk, rfl⟩
    exact ⟨k, List.mem_range.mpr hk, rfl⟩
  · rintro ⟨r, -, hr, hb, rfl⟩
    exact ⟨r, hr, hb, rfl⟩
  · rintro ⟨r, hr, hb, rfl⟩
    exact ⟨r, Nat.zero_le _, hr, hb, rfl⟩

theorem unitAt_mem {k : Nat} (hk : k < n) : unitAt M M k ∈ agreedSweep M :=
  mem_agreedSweep.mpr (Or.inl ⟨k, hk, rfl⟩)

theorem remoteOf_mem {k : Nat} (hk : k < n) : remoteOf M k ∈ agreedSweep M := by
  unfold remoteOf
  split
  · next hb => exact mem_agreedSweep.mpr (Or.inr ⟨k, hk, hb, rfl⟩)
  · exact unitAt_mem hk

theorem unitAt_deleted (k : Nat) : (unitAt M M k).deleted = false := by
  rw [unitAt_agreed]
  split <;> rfl

theorem unitAt_agreed_remoteUnit (k : Nat) : (unitAt M M k).remoteUnit = if M.bwd k = none then -1
    else (k : Int) := by
  rw [unitAt_agreed]
  cases M.bwd k <;> simp

theorem unitAt_pivotUnit (k : Nat) : 0 ≤ (unitAt M M k).pivotUnit ↔ M.bwd k ≠ none := by
  rw [unitAt_agreed]
  cases M.bwd k <;> simp

@[simp] theorem place_unitAt (k : Nat) : place (unitAt M M k) = k := by
  unfold place
  rw [unitAt_localUnit, unitAt_agreed_remoteUnit]
  split <;> omega

@[simp] theorem place_insertUnit (r : Nat) : place (insertUnit r) = r := by
  unfold place insertUnit
  simp only []
  omega

@[simp] theorem remoteOf_remoteUnit (k : Nat) : (remoteOf M k).remoteUnit = k := by
  unfold remoteOf
  split
  · rfl
  · next hb => rw [unitAt_agreed_remoteUnit, if_neg hb]

@[simp] theorem place_remoteOf (k : Nat) : place (remoteOf M k) = k := by
  unfold remoteOf
  split <;> simp

theorem agreedSweep_undeleted :
    ((agreedSweep M).filter fun unit => !unit.deleted) = agreedSweep M := by
  refine List.filter_eq_self.mpr fun u hu => ?_
  rcases mem_agreedSweep.mp hu with ⟨k, -, rfl⟩ | ⟨r, -, -, rfl⟩
  · rw [unitAt_deleted]
    rfl
  · rfl

theorem agreedSweep_nodup : (agreedSweep M).Nodup :=
  agreedSweep_perm.nodup_iff.mpr (sweptUnits_nodup M M)

theorem eq_unitAt {u : MatchUnit} (hu : u ∈ agreedSweep M) {k : Nat} (h : u.localUnit = k) :
    u = unitAt M M k := by
  rcases mem_agreedSweep.mp hu with ⟨j, -, rfl⟩ | ⟨r, -, -, rfl⟩
  · rw [unitAt_localUnit] at h
    rw [Int.ofNat.inj h]
  · simp only [insertUnit] at h
    omega

theorem eq_remoteOf {u : MatchUnit} (hu : u ∈ agreedSweep M) {k : Nat} (h : u.remoteUnit = k) :
    u = remoteOf M k := by
  unfold remoteOf
  rcases mem_agreedSweep.mp hu with ⟨j, -, rfl⟩ | ⟨r, -, hb, rfl⟩
  · rw [unitAt_agreed_remoteUnit] at h
    split at h
    · omega
    · next hb =>
      obtain rfl : j = k := Int.ofNat.inj h
      rw [if_neg hb]
  · obtain rfl : r = k := Int.ofNat.inj h
    rw [if_pos hb]

/-- A unit at index `k` is local's, or the remote addition there. -/
theorem eq_of_place {u : MatchUnit} (hu : u ∈ agreedSweep M) {k : Nat} (h : place u = k) :
    u = unitAt M M k ∨ M.bwd k = none ∧ u = insertUnit k := by
  rcases mem_agreedSweep.mp hu with ⟨j, -, rfl⟩ | ⟨r, -, hb, rfl⟩
  · rw [place_unitAt] at h
    exact Or.inl (by rw [Int.ofNat.inj h])
  · rw [place_insertUnit] at h
    obtain rfl : r = k := Int.ofNat.inj h
    exact Or.inr ⟨hb, rfl⟩

theorem place_lt {u : MatchUnit} (hu : u ∈ agreedSweep M) : ∃ k < n, place u = (k : Int) := by
  rcases mem_agreedSweep.mp hu with ⟨k, hk, rfl⟩ | ⟨r, hr, -, rfl⟩
  · exact ⟨k, hk, place_unitAt k⟩
  · exact ⟨r, hr, place_insertUnit r⟩

theorem mem_sweepFrom_local {ks : List Nat} :
    ∀ {br : Nat} {u : MatchUnit}, u ∈ sweepFrom M M ks br →
    u.localUnit = -1 ∨ ∃ k ∈ ks, u.localUnit = k := by
  induction ks with
  | nil =>
    intro br u hu
    obtain ⟨r, -, -, -, rfl⟩ := mem_insertsIn.mp hu
    exact Or.inl rfl
  | cons k ks ih =>
    have hrest : ∀ {br u}, u ∈ unitAt M M k :: sweepFrom M M ks br → u.localUnit = -1 ∨
      ∃ j ∈ k :: ks, u.localUnit = j := by
      intro br u hu
      rcases List.mem_cons.mp hu with rfl | hu
      · exact Or.inr ⟨k, by simp, unitAt_localUnit M M k⟩
      · rcases ih hu with h | ⟨j, hj, h⟩
        · exact Or.inl h
        · exact Or.inr ⟨j, List.mem_cons_of_mem _ hj, h⟩
    intro br u hu
    unfold sweepFrom at hu
    split at hu
    · rcases List.mem_append.mp hu with hu | hu
      · obtain ⟨r, -, -, -, rfl⟩ := mem_insertsIn.mp hu
        exact Or.inl rfl
      · exact hrest hu
    · exact hrest hu

theorem partner_agreed {k r : Nat} (h : partner M M k = some r) : r = k := by
  unfold partner at h
  obtain ⟨p, hb, hf⟩ := Option.bind_eq_some_iff.mp h
  have := (M.fwd_eq_some_iff p k).mpr hb
  rw [hf] at this
  exact Option.some.inj this

/-- A remote addition stands in front of local units of larger indices only. -/
theorem sweepFrom_pairwise {ks : List Nat} (hks : ks.Pairwise (· < ·)) :
    ∀ br, (sweepFrom M M ks br).Pairwise fun u v =>
    u.localUnit = -1 → v.localUnit = -1 ∨ u.remoteUnit < v.localUnit := by
  have hins : ∀ lo hi, (insertsIn M lo hi).Pairwise fun u v =>
      u.localUnit = -1 → v.localUnit = -1 ∨ u.remoteUnit < v.localUnit := by
    intro lo hi
    refine List.pairwise_of_forall_mem_list fun u _ v hv _ => Or.inl ?_
    obtain ⟨r, -, -, -, rfl⟩ := mem_insertsIn.mp hv
    rfl
  induction ks with
  | nil => exact fun br => hins br n
  | cons k ks ih =>
    obtain ⟨hk, hks⟩ := List.pairwise_cons.mp hks
    have hrest : ∀ br, (unitAt M M k :: sweepFrom M M ks br).Pairwise fun u v =>
        u.localUnit = -1 → v.localUnit = -1 ∨ u.remoteUnit < v.localUnit := fun br => by
      refine List.pairwise_cons.mpr ⟨fun v _ hl => ?_, ih hks br⟩
      rw [unitAt_localUnit] at hl
      omega
    intro br
    unfold sweepFrom
    split
    · next r hp =>
      obtain rfl := partner_agreed hp
      refine List.pairwise_append.mpr ⟨hins _ _, hrest _, fun u hu v hv _ => ?_⟩
      obtain ⟨j, -, hj, -, rfl⟩ := mem_insertsIn.mp hu
      have hj' : (insertUnit j).remoteUnit = (j : Int) := rfl
      rcases List.mem_cons.mp hv with rfl | hv
      · rw [unitAt_localUnit, hj']
        omega
      · rcases mem_sweepFrom_local hv with h | ⟨i, hi, h⟩
        · exact Or.inl h
        · have := hk i hi
          rw [h, hj']
          omega
    · exact hrest br

theorem agreedSweep_pairwise : (agreedSweep M).Pairwise fun u v =>
    u.localUnit = -1 → v.localUnit = -1 ∨ u.remoteUnit < v.localUnit :=
  sweepFrom_pairwise List.pairwise_lt_range 0

theorem agreedSweep_head (hn : 0 < n) : ∃ us, agreedSweep M = unitAt M M 0 :: us := by
  obtain ⟨m, rfl⟩ : ∃ m, n = m + 1 := ⟨n - 1, by omega⟩
  unfold agreedSweep
  rw [List.range_succ_eq_map]
  unfold sweepFrom
  split
  · next r hp =>
    obtain rfl := partner_agreed hp
    rw [insertsIn_of_le (Nat.le_refl _)]
    exact ⟨_, rfl⟩
  · exact ⟨_, rfl⟩

/-! ## Their links -/

variable (M) in
/-- The state of a unit in the first round. -/
def stateOf (u : MatchUnit) : Nat := (agreedSweep M).idxOf u

theorem agreed_mu : (links (agreedSweep M)).mu = agreedSweep M := by
  rw [links_mu, agreedSweep_undeleted]

theorem agreed_dud : (links (agreedSweep M)).dud = (agreedSweep M).length := by
  rw [Links.dud, agreed_mu]

theorem getElem?_stateOf {u : MatchUnit} (hu : u ∈ agreedSweep M) :
    (agreedSweep M)[stateOf M u]? = some u :=
  List.getElem?_idxOf hu

theorem eq_stateOf {k : Nat} {u : MatchUnit} (h : (agreedSweep M)[k]? = some u) :
    k = stateOf M u := by
  obtain ⟨hk, rfl⟩ := List.getElem?_eq_some_iff.mp h
  exact (agreedSweep_nodup.idxOf_getElem k hk).symm

theorem stateOf_lt {u : MatchUnit} (hu : u ∈ agreedSweep M) :
    stateOf M u < (links (agreedSweep M)).dud := by
  rw [agreed_dud]
  exact List.idxOf_lt_length_of_mem hu

/-- Of the indices below `n` the next one follows. -/
theorem nextIn_below {s : List Int} (hs : s.Pairwise (· < ·)) (hmem : ∀ i, i ∈ s ↔
    ∃ k < n, (k : Int) = i) {k : Nat}
    (hk : k < n) : nextIn s k = if k + 1 < n then some ((k + 1 : Nat) : Int) else none := by
  have hs' : s = (List.range n).map Int.ofNat := by
    refine List.Perm.eq_of_pairwise (fun _ _ _ _ h h' => absurd h (lt_asymm h')) hs
      (List.pairwise_map.mpr (List.pairwise_lt_range.imp Int.ofNat_lt.mpr)) ?_
    refine (List.perm_ext_iff_of_nodup (hs.imp fun h => h.ne)
      (List.nodup_range.map fun _ _ => Int.ofNat.inj)).mpr fun i => ?_
    rw [hmem, List.mem_map]
    simp only [List.mem_range]
    rfl
  have hsplit : List.range n = List.range k ++ k :: List.range' (k + 1) (n - (k + 1)) := by
    rw [List.range_eq_range', List.range_eq_range',
      show n = k + (n - (k + 1) + 1) by omega, ← List.range'_append_1,
      List.range'_succ, Nat.zero_add]
    congr 3
    omega
  rw [hs', hsplit, List.map_append, List.map_cons]
  have hnot : (Int.ofNat k) ∉ (List.range k).map Int.ofNat := by
    intro h
    obtain ⟨j, hj, he⟩ := List.mem_map.mp h
    have := List.mem_range.mp hj
    have := Int.ofNat.inj he
    omega
  refine (nextIn_append _ _ _ hnot).trans ?_
  split
  · next h =>
    rw [show n - (k + 1) = (n - (k + 2)) + 1 by omega, List.range'_succ]
    rfl
  · next h =>
    rw [show n - (k + 1) = 0 by omega]
    rfl

theorem get_left {k : Nat} (hk : k < n) :
    (links (agreedSweep M)).l2k.get? k = some (stateOf M (unitAt M M k)) := by
  have hside := (links_ok (agreedSweep M)).left
  obtain ⟨j, hj⟩ := hside.get_mem (unitAt M M k) (by rw [agreed_mu]; exact unitAt_mem hk)
    (by rw [unitAt_localUnit]; omega)
  rw [unitAt_localUnit] at hj
  obtain ⟨-, u, hu, hloc⟩ := hside.get_some _ _ hj
  rw [agreed_mu] at hu
  rw [hj, ← eq_unitAt (List.mem_of_getElem? hu) hloc, eq_stateOf hu]

theorem get_right {k : Nat} (hk : k < n) :
    (links (agreedSweep M)).r2k.get? k = some (stateOf M (remoteOf M k)) := by
  have hside := (links_ok (agreedSweep M)).right
  obtain ⟨j, hj⟩ := hside.get_mem (remoteOf M k) (by rw [agreed_mu]; exact remoteOf_mem hk)
    (by rw [remoteOf_remoteUnit]; omega)
  rw [remoteOf_remoteUnit] at hj
  obtain ⟨-, u, hu, hrem⟩ := hside.get_some _ _ hj
  rw [agreed_mu] at hu
  rw [hj, ← eq_remoteOf (List.mem_of_getElem? hu) hrem, eq_stateOf hu]

/-- A side on which every index is there leads to the next one, and from the last to the dead
end. -/
theorem safeNext_below {key : MatchUnit → Int} {m : AssocMap Int Nat} {avail : List Int}
    {unitOf : Nat → MatchUnit}
    (hside : Side key (agreedSweep M) m avail) (hkey : ∀ u ∈ agreedSweep M, key u = -1 ∨
      ∃ k < n, key u = (k : Int))
    (hat : ∀ k < n, unitOf k ∈ agreedSweep M ∧ key (unitOf k) = k ∧
      m.get? k = some (stateOf M (unitOf k))) {k : Nat} (hk : k < n)
    (d : Nat) : safeNext m (nextAvail avail k) d = if k + 1 < n then stateOf M (unitOf (k + 1))
    else d := by
  have hmem : ∀ i, i ∈ avail ↔ ∃ j < n, (j : Int) = i := by
    intro i
    rw [hside.mem_avail]
    constructor
    · rintro ⟨hi, u, hu, rfl⟩
      rcases hkey u hu with h | ⟨j, hj, h⟩
      · exact absurd h hi
      · exact ⟨j, hj, h.symm⟩
    · rintro ⟨j, hj, rfl⟩
      obtain ⟨hin, hkeyj, -⟩ := hat j hj
      exact ⟨by omega, _, hin, hkeyj⟩
  unfold safeNext nextAvail
  rw [nextIn_below hside.sorted hmem hk]
  split
  · next h =>
    rw [Option.getD_some, (hat (k + 1) h).2.2]
    rfl
  · rw [Option.getD_none]
    cases hg : m.get? (-2) with
    | none => rfl
    | some j =>
      have := (hside.get_some _ _ hg).1
      omega

theorem agreed_lnext {u : MatchUnit} {k : Nat} (hk : k < n) (h : u.localUnit = k) :
    (links (agreedSweep M)).lnext u =
      if k + 1 < n then stateOf M (unitAt M M (k + 1)) else (links (agreedSweep M)).dud := by
  have hside := (links_ok (agreedSweep M)).left
  rw [agreed_mu] at hside
  unfold Links.lnext
  rw [h]
  refine safeNext_below hside (fun v hv => ?_)
    (fun j hj => ⟨unitAt_mem hj, unitAt_localUnit M M j, get_left hj⟩) hk _
  rcases mem_agreedSweep.mp hv with ⟨j, hj, rfl⟩ | ⟨r, -, -, rfl⟩
  · exact Or.inr ⟨j, hj, unitAt_localUnit M M j⟩
  · exact Or.inl rfl

theorem agreed_rnext {u : MatchUnit} {k : Nat} (hk : k < n) (h : u.remoteUnit = k) :
    (links (agreedSweep M)).rnext u =
      if k + 1 < n then stateOf M (remoteOf M (k + 1)) else (links (agreedSweep M)).dud := by
  have hside := (links_ok (agreedSweep M)).right
  rw [agreed_mu] at hside
  unfold Links.rnext
  rw [h]
  refine safeNext_below hside (fun v hv => ?_)
    (fun j hj => ⟨remoteOf_mem hj, remoteOf_remoteUnit j, get_right hj⟩) hk _
  rcases mem_agreedSweep.mp hv with ⟨j, hj, rfl⟩ | ⟨r, hr, -, rfl⟩
  · rw [unitAt_agreed_remoteUnit]
    split
    · exact Or.inl rfl
    · exact Or.inr ⟨j, hj, rfl⟩
  · exact Or.inr ⟨r, hr, rfl⟩

/-- **Every link leads one index on**, or from the last index to the dead end. -/
theorem place_of_mem_nexts {u : MatchUnit} (hu : u ∈ agreedSweep M) {j : Nat}
    (hj : j ∈ (links (agreedSweep M)).nexts u) :
    (place u + 1 = n ∧ j = (links (agreedSweep M)).dud) ∨
      ∃ v ∈ agreedSweep M, j = stateOf M v ∧ place v = place u + 1 := by
  have hleft : ∀ k < n, u.localUnit = k → place u = k → j = (links (agreedSweep M)).lnext u →
      (place u + 1 = n ∧ j = (links (agreedSweep M)).dud) ∨
        ∃ v ∈ agreedSweep M, j = stateOf M v ∧ place v = place u + 1 := by
    intro k hk hl hp he
    rw [agreed_lnext hk hl] at he
    split at he
    · next h => exact Or.inr ⟨_, unitAt_mem h, he, by rw [place_unitAt, hp]; rfl⟩
    · exact Or.inl ⟨by omega, he⟩
  have hright : ∀ k < n, u.remoteUnit = k → place u = k → j = (links (agreedSweep M)).rnext u →
      (place u + 1 = n ∧ j = (links (agreedSweep M)).dud) ∨
        ∃ v ∈ agreedSweep M, j = stateOf M v ∧ place v = place u + 1 := by
    intro k hk hr hp he
    rw [agreed_rnext hk hr] at he
    split at he
    · next h => exact Or.inr ⟨_, remoteOf_mem h, he, by rw [place_remoteOf, hp]; rfl⟩
    · exact Or.inl ⟨by omega, he⟩
  unfold Links.nexts at hj
  rcases mem_agreedSweep.mp hu with ⟨k, hk, rfl⟩ | ⟨r, hr, hb, rfl⟩
  · have hl := unitAt_localUnit M M k
    have hlne : (unitAt M M k).localUnit ≠ -1 := by omega
    have hl' := hleft k hk hl (place_unitAt k)
    rw [if_neg (fun h => hlne h.1)] at hj
    by_cases hb : M.bwd k = none
    · rw [if_pos (by rw [unitAt_agreed_remoteUnit, if_pos hb])] at hj
      exact hl' (List.mem_singleton.mp hj)
    · have hr : (unitAt M M k).remoteUnit = k := by rw [unitAt_agreed_remoteUnit, if_neg hb]
      have hr' := hright k hk hr (place_unitAt k)
      rw [if_neg (by omega), if_neg hlne] at hj
      simp only [List.mem_append] at hj
      rcases hj with (hj | hj) | hj
      · split at hj
        · exact hl' (List.mem_singleton.mp hj)
        · cases hj
      · split at hj
        · exact hr' (List.mem_singleton.mp hj)
        · cases hj
      · split at hj
        · next h => exact hl' ((List.mem_singleton.mp hj).trans h.2.symm)
        · cases hj
  · rw [if_neg (fun h => by simp only [insertUnit] at h; omega),
      if_neg (by simp only [insertUnit]; omega),
      if_pos (show (insertUnit r).localUnit = -1 from rfl)] at hj
    exact hright r hr rfl (place_insertUnit r) (List.mem_singleton.mp hj)

/-- The link along local is always there. -/
theorem lnext_mem_nexts {k : Nat} (hk : k < n) :
    (links (agreedSweep M)).lnext (unitAt M M k) ∈ (links (agreedSweep M)).nexts
      (unitAt M M k) := by
  have hl := unitAt_localUnit M M k
  have hlne : (unitAt M M k).localUnit ≠ -1 := by omega
  unfold Links.nexts
  rw [if_neg (fun h => hlne h.1)]
  by_cases hb : M.bwd k = none
  · rw [if_pos (by rw [unitAt_agreed_remoteUnit, if_pos hb])]
    exact List.mem_singleton_self _
  · have hr : (unitAt M M k).remoteUnit = k := by rw [unitAt_agreed_remoteUnit, if_neg hb]
    rw [if_neg (by omega), if_neg hlne]
    by_cases hlp :
      (links (agreedSweep M)).lnext (unitAt M M k) = (links (agreedSweep M)).pnext (unitAt M M k)
    · -- the next local unit is in the pivot, and so the next remote one too
      have hrp :
        (links (agreedSweep M)).rnext (unitAt M M k) = (links (agreedSweep M)).pnext
          (unitAt M M k) := by
        rw [← hlp, agreed_lnext hk hl, agreed_rnext hk hr]
        split
        · next h =>
          rw [agreed_lnext hk hl, if_pos h] at hlp
          have hlt := stateOf_lt (unitAt_mem (M := M) h)
          rw [hlp] at hlt
          unfold Links.pnext safeNext at hlp hlt
          cases hg : (links (agreedSweep M)).p2k.get?
              (nextAvail (links (agreedSweep M)).availableP (unitAt M M k).pivotUnit) with
          | none =>
            rw [hg] at hlt
            exact absurd hlt (lt_irrefl _)
          | some j =>
            rw [hg] at hlp
            obtain ⟨hpos, v, hv, hpiv⟩ := (links_ok (agreedSweep M)).pivot.get_some _ _ hg
            rw [agreed_mu] at hv
            have hst := getElem?_stateOf (unitAt_mem (M := M) h)
            rw [hlp, Option.getD_some, hv] at hst
            rw [← hpiv, Option.some.inj hst, unitAt_pivotUnit] at hpos
            rw [remoteOf, if_neg hpos]
        · rfl
      simp [hlp, hrp]
    · rw [if_pos hlp]
      simp

/-! ## The first round -/

/-- The chain along local up to index `t`, latest first. -/
def localTrace (M : Matching np n) (t : Nat) : List Nat :=
  ((List.range (t + 1)).map fun k => stateOf M (unitAt M M k)).reverse

/-- The stages `rs` reach index `t`, from `idx` the next ones start: local's unit is reached for
free, along local. -/
structure Front (M : Matching np n) (t : Nat) (idx : List Nat) (rs : List (Stage ℚ)) : Prop where
  below : t < n
  sorted : idx.Pairwise (· < ·)
  here : stateOf M (unitAt M M t) ∈ idx
  nonempty : rs ≠ []
  cells : ∀ s x, cells rs s = some x → (s = (links (agreedSweep M)).dud ∧ 0 < x.1) ∨
    (x.1 = 0 ∧ ∃ u ∈ agreedSweep M, s = stateOf M u ∧ place u = t)
  reached : ∃ x, Trellis.cells rs (stateOf M (unitAt M M t)) = some x
  along : trace rs (stateOf M (unitAt M M t)) = localTrace M t

/-- The stages `rs` went on through the dead end for `i` stages. -/
structure Tail (M : Matching np n) (i : Nat) (rs : List (Stage ℚ)) : Prop where
  nonempty : rs ≠ []
  cells : ∀ s x, cells rs s = some x → s = (links (agreedSweep M)).dud
  reached : ∃ x, Trellis.cells rs (links (agreedSweep M)).dud = some x
  along : trace rs (links (agreedSweep M)).dud =
    List.replicate (i + 1) (links (agreedSweep M)).dud ++ localTrace M (n - 1)

/-- A cell of a draw comes by a free edge from a unit, or by the loop at the dead end. -/
theorem cells_drawStage {w : Links} {idx : List Nat} {rs : List (Stage ℚ)} (hrs : rs ≠ [])
    {s : Nat} {x : ℚ × Nat} (h : cells (w.drawStage idx :: rs) s = some x) :
    (∃ y, cells rs x.2 = some y ∧ x.1 = y.1 ∧ (x.2, s) ∈ w.drawPairs idx) ∨
      (s = w.dud ∧ x.2 = w.dud ∧ ∃ y, cells rs w.dud = some y ∧ x.1 = 1 + y.1) := by
  obtain ⟨st, rs, rfl⟩ := List.exists_cons_of_ne_nil hrs
  rw [cells_cons] at h
  obtain ⟨e, he, hsrc, hdst, d, hd, hx⟩ := ((bestOver_layer (entry (st :: rs)) _ s).2 x.1 x.2 h).1
  obtain ⟨y, hy, rfl⟩ := Option.map_eq_some_iff.mp hd
  rcases List.mem_append.mp he with he | he
  · obtain ⟨⟨k, j⟩, hf, rfl⟩ := List.mem_map.mp he
    simp only at hsrc hdst hx
    subst hsrc hdst
    exact Or.inl ⟨y, hy, by rw [hx, zero_add], hf⟩
  · obtain rfl := List.mem_singleton.mp he
    simp only at hsrc hdst hx
    subst hdst
    rw [← hsrc] at hy
    exact Or.inr ⟨rfl, hsrc.symm, y, hy, hx⟩

/-- A free edge makes its target reached, at no more than its source. -/
theorem reached_drawStage {w : Links} {idx : List Nat} {rs : List (Stage ℚ)} (hrs : rs ≠ [])
    {k j : Nat} {y : ℚ × Nat} (hy : cells rs k = some y) (hkj : (k, j) ∈ w.drawPairs idx) :
    ∃ x, cells (w.drawStage idx :: rs) j = some x ∧ x.1 ≤ y.1 := by
  obtain ⟨st, rs, rfl⟩ := List.exists_cons_of_ne_nil hrs
  have he : (⟨k, j, 0⟩ : Edge ℚ) ∈ w.drawStage idx :=
    List.mem_append_left _ (List.mem_map.mpr ⟨(k, j), hkj, rfl⟩)
  have hentry : entry (st :: rs) k = some y.1 := congrArg (Option.map Prod.fst) hy
  have hb := bestOver_layer (entry (st :: rs)) (w.drawStage idx) j
  rw [cells_cons]
  cases hx : layer (entry (st :: rs)) (w.drawStage idx) j with
  | none =>
    have := hb.1 hx _ he rfl
    rw [hentry] at this
    cases this
  | some x => exact ⟨x, rfl, by simpa using (hb.2 x.1 x.2 hx).2 _ he rfl y.1 hentry⟩

/-- The edges of a draw stand in the order of their sources. -/
theorem drawStage_sorted {w : Links} {idx : List Nat} (h : idx.Pairwise (· < ·)) :
    (w.drawStage idx).Pairwise fun e f => e.src ≤ f.src := by
  have hpairs : ∀ idx : List Nat, idx.Pairwise (· < ·) → (w.drawPairs idx).Pairwise fun e f =>
    e.1 ≤ f.1 := by
    intro idx
    induction idx with
    | nil => exact fun _ => List.Pairwise.nil
    | cons k idx ih =>
      intro h
      obtain ⟨hk, h⟩ := List.pairwise_cons.mp h
      have hfst : ∀ e ∈ w.drawPairs [k], e.1 = k := fun e he => by
        simpa using (Links.mem_drawPairs.mp he).1
      have hsplit : w.drawPairs (k :: idx) = w.drawPairs [k] ++ w.drawPairs idx := by
        unfold Links.drawPairs
        rw [List.flatMap_cons, List.flatMap_singleton]
      rw [hsplit]
      refine List.pairwise_append.mpr ⟨?_, ih h, fun e he f hf => ?_⟩
      · exact List.pairwise_of_forall_mem_list fun e he f hf => by rw [hfst e he, hfst f hf]
      · rw [hfst e he]
        exact (hk _ (Links.mem_drawPairs.mp hf).1).le
  refine List.pairwise_append.mpr ⟨List.pairwise_map.mpr (hpairs idx h),
    List.pairwise_singleton _ _, fun e he f hf => ?_⟩
  obtain ⟨⟨k, j⟩, hkj, rfl⟩ := List.mem_map.mp he
  obtain ⟨-, -, u, hu, -⟩ := Links.mem_drawPairs.mp hkj
  rw [List.mem_singleton.mp hf]
  exact (List.getElem?_eq_some_iff.mp hu).1.le

theorem entry_eq {rs : List (Stage ℚ)} (hrs : rs ≠ []) (s : Nat) :
    entry rs s = (cells rs s).map Prod.fst := by
  obtain ⟨st, rs, rfl⟩ := List.exists_cons_of_ne_nil hrs
  rfl

/-- The sweep collects local's unit before the remote addition at its index. -/
theorem stateOf_lt_insertUnit {t : Nat} (ht : t < n) (hb : M.bwd t = none) :
    stateOf M (unitAt M M t) < stateOf M (insertUnit t) := by
  have hu := unitAt_mem (M := M) ht
  have hv : insertUnit t ∈ agreedSweep M := mem_agreedSweep.mpr (Or.inr ⟨t, ht, hb, rfl⟩)
  obtain ⟨hi, hui⟩ := List.getElem?_eq_some_iff.mp (getElem?_stateOf hu)
  obtain ⟨hj, hvj⟩ := List.getElem?_eq_some_iff.mp (getElem?_stateOf hv)
  have hl := unitAt_localUnit M M t
  rcases lt_trichotomy (stateOf M (unitAt M M t)) (stateOf M (insertUnit t)) with h | h | h
  · exact h
  · simp only [h] at hui
    rw [hvj] at hui
    rw [← hui] at hl
    simp only [insertUnit] at hl
    omega
  · have hpair := List.pairwise_iff_getElem.mp (agreedSweep_pairwise (M := M)) _ _ hj hi h
    rw [hvj, hui, hl] at hpair
    rcases hpair rfl with h | h
    · omega
    · exact absurd h (lt_irrefl _)

/-- Of the free ways out of the front into one state, the cell's own is the one along local. -/
theorem Front.first_way {t : Nat} {idx : List Nat} {rs : List (Stage ℚ)}
    (h : Front M t idx rs) {j : Nat}
    (hj : (stateOf M (unitAt M M t), j) ∈ (links (agreedSweep M)).drawPairs idx) {x : ℚ × Nat}
    (hx : Trellis.cells ((links (agreedSweep M)).drawStage idx :: rs) j = some x) :
    x.2 = stateOf M (unitAt M M t) := by
  obtain ⟨y, hy⟩ := h.reached
  have hlt := stateOf_lt (unitAt_mem (M := M) h.below)
  have hy0 : y.1 = 0 := by
    rcases h.cells _ _ hy with ⟨hd, -⟩ | ⟨h0, -⟩
    · omega
    · exact h0
  obtain ⟨x', hx', hle⟩ := reached_drawStage h.nonempty hy hj
  obtain rfl : x = x' := Option.some.inj (hx.symm.trans hx')
  rcases cells_drawStage h.nonempty hx with ⟨z, hz, hxz, hpair⟩ | ⟨-, -, z, hz, hxz⟩
  · -- the source is a unit at index `t`; a remote addition comes later than local's
    obtain ⟨-, hne, -⟩ := Links.mem_drawPairs.mp hpair
    rcases h.cells _ _ hz with ⟨hd, -⟩ | ⟨hz0, u, hu, hsrc, hplace⟩
    · exact absurd hd hne
    · rcases eq_of_place hu hplace with rfl | ⟨hb, rfl⟩
      · exact hsrc
      · exfalso
        have hfree : (entry rs (stateOf M (unitAt M M t))).map (fun d => (0 : ℚ) + d) =
          some x.1 := by
          rw [entry_eq h.nonempty, hy, Option.map_some, Option.map_some, hxz, hz0, hy0, add_zero]
        obtain ⟨pre, e, post, hst, -, he, hpre⟩ := exists_first_edge hx
        have hmem : (⟨stateOf M (unitAt M M t), j, 0⟩ : Edge ℚ) ∈ pre ++ e :: post := by
          rw [← hst]
          exact List.mem_append_left _ (List.mem_map.mpr ⟨_, hj, rfl⟩)
        have hlater := stateOf_lt_insertUnit h.below hb
        rcases List.mem_append.mp hmem with hmem | hmem
        · exact hpre _ hmem rfl hfree
        · have hsorted := drawStage_sorted (w := links (agreedSweep M)) h.sorted
          rw [hst] at hsorted
          have hle : e.src ≤ stateOf M (unitAt M M t) := by
            rcases List.mem_cons.mp hmem with heq | hmem
            · rw [← heq]
            · exact (List.pairwise_cons.mp (List.pairwise_append.mp hsorted).2.1).1 _ hmem
          omega
  · rcases h.cells _ _ hz with ⟨-, hpos⟩ | ⟨-, u, hu, hd, -⟩
    · rw [hxz, hy0] at hle
      linarith
    · exact absurd hd (stateOf_lt hu).ne'

/-- The way from the front's local unit leads on along local. -/
theorem Front.pair {t : Nat} {idx : List Nat} {rs : List (Stage ℚ)} (h : Front M t idx rs) :
    (stateOf M (unitAt M M t), (links (agreedSweep M)).lnext (unitAt M M t)) ∈
    (links (agreedSweep M)).drawPairs idx := by
  have hmem := unitAt_mem (M := M) h.below
  refine Links.mem_drawPairs.mpr ⟨h.here, (stateOf_lt hmem).ne, unitAt M M t, ?_,
    lnext_mem_nexts h.below⟩
  rw [agreed_mu]
  exact getElem?_stateOf hmem

/-- Where a draw leads from the front: one index on, or through the dead end. -/
theorem Front.draw_pair {t : Nat} {idx : List Nat} {rs : List (Stage ℚ)}
    (h : Front M t idx rs) {k j : Nat} {y : ℚ × Nat} (hy : Trellis.cells rs k = some y)
    (hkj : (k, j) ∈ (links (agreedSweep M)).drawPairs idx) :
    y.1 = 0 ∧ ((t + 1 = n ∧ j = (links (agreedSweep M)).dud) ∨
      ∃ v ∈ agreedSweep M, j = stateOf M v ∧ place v = ((t + 1 : Nat) : Int)) := by
  obtain ⟨-, hne, u, hu, hnext⟩ := Links.mem_drawPairs.mp hkj
  rw [agreed_mu] at hu
  rcases h.cells _ _ hy with ⟨hd, -⟩ | ⟨h0, v, hv, hk, hplace⟩
  · exact absurd hd hne
  · have hst := getElem?_stateOf hv
    rw [← hk, hu] at hst
    obtain rfl := Option.some.inj hst
    refine ⟨h0, ?_⟩
    rcases place_of_mem_nexts hv hnext with ⟨hlast, hj⟩ | ⟨v, hv, hj, hp⟩
    · exact Or.inl ⟨by omega, hj⟩
    · exact Or.inr ⟨v, hv, hj, by rw [hp, hplace]; rfl⟩

theorem trace_of_cells {st : Stage ℚ} {rs : List (Stage ℚ)} {s : Nat} {x : ℚ × Nat}
    (h : cells (st :: rs) s = some x) : trace (st :: rs) s = s :: trace rs x.2 := by
  rw [trace, h]

/-- **The next draw** moves the front one index on. -/
theorem Front.step {t : Nat} {idx : List Nat} {rs : List (Stage ℚ)} (h : Front M t idx rs)
    (ht : t + 1 < n) :
    Front M (t + 1) (toSet (((links (agreedSweep M)).drawPairs idx).map Prod.snd))
      ((links (agreedSweep M)).drawStage idx :: rs) := by
  have hpair := h.pair
  rw [agreed_lnext h.below (unitAt_localUnit M M t), if_pos ht] at hpair
  obtain ⟨y, hy⟩ := h.reached
  obtain ⟨x, hx, -⟩ := reached_drawStage h.nonempty hy hpair
  refine ⟨ht, toSet_pairwise _, (mem_toSet _ _).mpr (List.mem_map.mpr ⟨_, hpair, rfl⟩),
    List.cons_ne_nil _ _, fun s z hz => ?_, ⟨x, hx⟩, ?_⟩
  · rcases cells_drawStage h.nonempty hz with ⟨y, hy, hzy, hkj⟩ | ⟨hs, -, y, hy, hzy⟩
    · obtain ⟨hy0, ⟨hlast, -⟩ | ⟨v, hv, hj, hp⟩⟩ := h.draw_pair hy hkj
      · omega
      · exact Or.inr ⟨hzy.trans hy0, v, hv, hj, hp⟩
    · refine Or.inl ⟨hs, ?_⟩
      rcases h.cells _ _ hy with ⟨-, hpos⟩ | ⟨h0, -⟩
      · rw [hzy]
        linarith
      · rw [hzy, h0, add_zero]
        exact one_pos
  · rw [trace_of_cells hx, h.first_way hpair hx, h.along]
    unfold localTrace
    rw [List.range_succ (n := t + 1), List.map_append, List.reverse_append]
    rfl

/-- After the last index there is only the dead end. -/
theorem Front.last {t : Nat} {idx : List Nat} {rs : List (Stage ℚ)} (h : Front M t idx rs)
    (ht : t + 1 = n) : Tail M 0 ((links (agreedSweep M)).drawStage idx :: rs) := by
  have hpair := h.pair
  rw [agreed_lnext h.below (unitAt_localUnit M M t), if_neg (by omega)] at hpair
  obtain ⟨y, hy⟩ := h.reached
  obtain ⟨x, hx, -⟩ := reached_drawStage h.nonempty hy hpair
  refine ⟨List.cons_ne_nil _ _, fun s z hz => ?_, ⟨x, hx⟩, ?_⟩
  · rcases cells_drawStage h.nonempty hz with ⟨y, hy, -, hkj⟩ | ⟨hs, -⟩
    · obtain ⟨-, ⟨-, hj⟩ | ⟨v, hv, -, hp⟩⟩ := h.draw_pair hy hkj
      · exact hj
      · obtain ⟨i, hi, hplace⟩ := place_lt hv
        omega
    · exact hs
  · rw [trace_of_cells hx, h.first_way hpair hx, h.along, show n - 1 = t by omega]
    rfl

/-- A loop at a reached state keeps it reached. -/
theorem reached_loop {st : Stage ℚ} {rs : List (Stage ℚ)} (hrs : rs ≠ []) {e : Edge ℚ}
    (he : e ∈ st) {y : ℚ × Nat}
    (hy : cells rs e.src = some y) : ∃ x, cells (st :: rs) e.dst = some x := by
  rw [cells_cons]
  cases hx : layer (entry rs) st e.dst with
  | none =>
    have := (bestOver_layer (entry rs) st e.dst).1 hx e he rfl
    rw [entry_eq hrs, hy] at this
    cases this
  | some x => exact ⟨x, rfl⟩

/-- No draw leads out of the dead end. -/
theorem Tail.step {i : Nat} {rs : List (Stage ℚ)} (h : Tail M i rs) (idx : List Nat) :
    Tail M (i + 1) ((links (agreedSweep M)).drawStage idx :: rs) := by
  have hcells : ∀ s z, Trellis.cells ((links (agreedSweep M)).drawStage idx :: rs) s = some z →
      s = (links (agreedSweep M)).dud ∧ z.2 = (links (agreedSweep M)).dud := by
    intro s z hz
    rcases cells_drawStage h.nonempty hz with ⟨y, hy, -, hkj⟩ | ⟨hs, hsrc, -⟩
    · exact absurd (h.cells _ _ hy) (Links.mem_drawPairs.mp hkj).2.1
    · exact ⟨hs, hsrc⟩
  obtain ⟨y, hy⟩ := h.reached
  have hloop : (⟨(links (agreedSweep M)).dud, (links (agreedSweep M)).dud, 1⟩ : Edge ℚ) ∈
      (links (agreedSweep M)).drawStage idx := List.mem_append_right _ (by simp)
  obtain ⟨x, hx⟩ := reached_loop h.nonempty hloop hy
  refine ⟨List.cons_ne_nil _ _, fun s z hz => (hcells s z hz).1, ⟨x, hx⟩, ?_⟩
  rw [trace_of_cells hx, (hcells _ x hx).2, h.along, List.replicate_succ (n := i + 1)]
  rfl

theorem Tail.draws (m : Nat) : ∀ {i : Nat} {rs : List (Stage ℚ)} (idx : List Nat), Tail M i rs →
    Tail M (i + m) (((links (agreedSweep M)).drawStages m idx).reverse ++ rs) := by
  induction m with
  | zero => exact fun idx h => h
  | succ m ih =>
    intro i rs idx h
    unfold Links.drawStages
    rw [List.reverse_cons, List.append_assoc, List.singleton_append,
      show i + (m + 1) = i + 1 + m by omega]
    exact ih _ (h.step idx)

theorem Front.draws (m : Nat) :
    ∀ {t : Nat} {idx : List Nat} {rs : List (Stage ℚ)}, Front M t idx rs → n ≤ t + m →
    Tail M (t + m - n) (((links (agreedSweep M)).drawStages m idx).reverse ++ rs) := by
  induction m with
  | zero =>
    intro t idx rs h hm
    have := h.below
    omega
  | succ m ih =>
    intro t idx rs h hm
    unfold Links.drawStages
    rw [List.reverse_cons, List.append_assoc, List.singleton_append]
    by_cases ht : t + 1 < n
    · rw [show t + (m + 1) - n = t + 1 + m - n by omega]
      exact ih (h.step ht) (by omega)
    · have := h.below
      rw [show t + (m + 1) - n = 0 + m by omega]
      exact Tail.draws m _ (h.last (by omega))

theorem keyLowest_cons {key : MatchUnit → Int} {u : MatchUnit} (us : List MatchUnit)
    (h : key u = 0 ∨ key u = -1) : keyLowest key (u :: us) = key u := by
  unfold keyLowest
  rw [List.foldl_cons, show lower (-2) (key u) = key u from if_pos (Or.inr rfl)]
  refine foldl_eq_self us fun v _ => ?_
  unfold lower
  rw [if_neg (by omega)]

/-- The path starts at index 0, on the side of the first unit. -/
theorem front_first (hn : 0 < n) :
    Front M 0 (toSet (links (agreedSweep M)).starts) [(links (agreedSweep M)).firstStage] := by
  obtain ⟨us, hus⟩ := agreedSweep_head (M := M) hn
  have hl0 := unitAt_localUnit M M 0
  have hget : (links (agreedSweep M)).l2k.get? 0 = some (stateOf M (unitAt M M 0)) := get_left hn
  have hlow : (links (agreedSweep M)).lowestL = 0 := by
    rw [links_eq, agreedSweep_undeleted, hus]
    exact (keyLowest_cons us (Or.inl hl0)).trans hl0
  have hlowR : (links (agreedSweep M)).lowestR = (unitAt M M 0).remoteUnit := by
    rw [links_eq, agreedSweep_undeleted, hus]
    refine keyLowest_cons us ?_
    rw [unitAt_agreed_remoteUnit]
    split
    · exact Or.inr rfl
    · exact Or.inl rfl
  have hhere : stateOf M (unitAt M M 0) ∈ (links (agreedSweep M)).starts := by
    unfold Links.starts
    rw [hlow, if_pos (le_refl _), hget]
    exact List.mem_append_left _ (List.mem_singleton_self _)
  have hstarts : ∀ k ∈ (links (agreedSweep M)).starts, k = stateOf M (unitAt M M 0) := by
    intro k hk
    unfold Links.starts at hk
    rw [hlow, if_pos (le_refl _), hget, hlowR, unitAt_agreed_remoteUnit] at hk
    by_cases hb : M.bwd 0 = none
    · rw [if_pos hb] at hk
      simpa using hk
    · have hgetR : (links (agreedSweep M)).r2k.get? 0 =
        some (stateOf M (remoteOf M 0)) := get_right hn
      rw [remoteOf, if_neg hb] at hgetR
      rw [if_neg hb, Nat.cast_zero, if_pos (le_refl _), hgetR] at hk
      simpa using hk
  have hcells : ∀ s x, Trellis.cells [(links (agreedSweep M)).firstStage] s = some x →
      (s = (links (agreedSweep M)).dud ∧ x.1 = 1) ∨ (x.1 = 0 ∧ s = stateOf M (unitAt M M 0)) := by
    intro s x hx
    obtain ⟨e, he, -, hdst, d, hd, hcost⟩ :=
      ((bestOver_layer (fun _ => some (0 : ℚ)) _ s).2 x.1 x.2 hx).1
    obtain rfl : 0 = d := Option.some.inj hd
    rw [add_zero] at hcost
    rcases List.mem_append.mp he with he | he
    · obtain ⟨k, hk, rfl⟩ := List.mem_map.mp he
      exact Or.inr ⟨hcost, hdst.symm.trans (hstarts k hk)⟩
    · obtain rfl := List.mem_singleton.mp he
      exact Or.inl ⟨hdst.symm, hcost⟩
  obtain ⟨x, hx⟩ :
    ∃ x, Trellis.cells [(links (agreedSweep M)).firstStage] (stateOf M (unitAt M M 0)) =
    some x := by
    have he : (⟨stateOf M (unitAt M M 0), stateOf M (unitAt M M 0), 0⟩ : Edge ℚ) ∈
      (links (agreedSweep M)).firstStage :=
      List.mem_append_left _ (List.mem_map.mpr ⟨_, hhere, rfl⟩)
    obtain ⟨c, a, hx, -⟩ := cells_le (Chain.start he) _ _ rfl
    exact ⟨_, hx⟩
  refine ⟨hn, toSet_pairwise _, (mem_toSet _ _).mpr hhere, List.cons_ne_nil _ _,
    fun s z hz => ?_, ⟨x, hx⟩, ?_⟩
  · rcases hcells s z hz with ⟨hs, hc⟩ | ⟨hc, hs⟩
    · exact Or.inl ⟨hs, by rw [hc]; exact one_pos⟩
    · exact Or.inr ⟨hc, _, unitAt_mem hn, hs, place_unitAt 0⟩
  · rw [trace_of_cells hx]
    rfl

/-- **The path of the first round** goes along local, then through the dead end. -/
theorem agreed_path (hn : 0 < n) (hadded : n < (agreedSweep M).length) :
    (links (agreedSweep M)).path = some (((List.range n).map (fun k => stateOf M (unitAt M M k)) ++
      List.replicate ((agreedSweep M).length - n) (links (agreedSweep M)).dud).map Int.ofNat) := by
  have hdud := agreed_dud (M := M)
  have htail := (front_first (M := M) hn).draws ((links (agreedSweep M)).dud - 1) (by omega)
  obtain ⟨c, j, hend, -, -, hpath, -⟩ := (links_ok (agreedSweep M)).path_spec
  have hrev : (links (agreedSweep M)).stages.reverse = (links (agreedSweep M)).lastStage ::
      (((links (agreedSweep M)).drawStages ((links (agreedSweep M)).dud - 1)
        (toSet (links (agreedSweep M)).starts)).reverse ++
          [(links (agreedSweep M)).firstStage]) := by
    unfold Links.stages
    simp
  rw [hrev] at hend hpath
  generalize ((links (agreedSweep M)).drawStages ((links (agreedSweep M)).dud - 1)
    (toSet (links (agreedSweep M)).starts)).reverse ++ [(links (agreedSweep M)).firstStage] =
      rs at hend hpath htail
  -- what the last stage starts from can only be the dead end
  obtain ⟨⟨-, a, ha⟩, -⟩ := cheapest_eq_some_iff.mp hend
  have hlayer := ha
  rw [cells_cons] at hlayer
  obtain ⟨e, -, -, -, d, hd, -⟩ := ((bestOver_layer (entry rs) _ j).2 c a hlayer).1
  rw [entry_eq htail.nonempty] at hd
  obtain ⟨y, hy, -⟩ := Option.map_eq_some_iff.mp hd
  have hadud : a = (links (agreedSweep M)).dud := htail.cells _ _ hy
  have htrace : trace ((links (agreedSweep M)).lastStage :: rs) j = j :: trace rs a :=
    trace_of_cells ha
  rw [hpath, htrace, hadud, htail.along, List.tail_cons, List.reverse_append,
    List.reverse_replicate, localTrace, List.reverse_reverse, show n - 1 + 1 = n by omega,
    show 0 + ((links (agreedSweep M)).dud - 1) - n + 1 = (agreedSweep M).length - n by omega]

/-! ## The order pass -/

/-- What is accepted of a path stops one state before the first that is taken already. -/
theorem acceptPath_stop {k d : Int} {rest : List Int} (ks : List Int) :
    ∀ dups : List Int, (ks ++ [k]).Nodup →
    (∀ i ∈ ks ++ [k], i ∉ dups) → d ∈ dups → acceptPath dups (ks ++ k :: d :: rest) =
    (ks, false) := by
  induction ks with
  | nil =>
    intro dups _ _ hd
    rw [List.nil_append, acceptPath, if_neg fun h => h.2 hd]
  | cons j ks ih =>
    intro dups hnd hfree hd
    obtain ⟨hj, hnd⟩ := List.nodup_cons.mp hnd
    have hnext : (ks ++ k :: d :: rest).headD j ∉ dups := by
      cases ks with
      | nil => exact hfree k (by simp)
      | cons i ks => exact hfree i (by simp)
    rw [List.cons_append, acceptPath, if_pos ⟨hfree j (by simp), hnext⟩,
      ih (j :: dups) hnd ?_ (List.mem_cons_of_mem _ hd)]
    intro i hi hmem
    rcases List.mem_cons.mp hmem with rfl | hmem
    · exact hj hi
    · exact hfree i (List.mem_cons_of_mem _ hi) hmem

/-- A round only adds to what is placed. -/
theorem prefix_rounds (fuel : Nat) : ∀ {canon src canon' rest : List MatchUnit},
    rounds fuel canon src = some (canon', rest) → canon <+: canon' := by
  induction fuel with
  | zero => exact fun h => nomatch h
  | succ fuel ih =>
    intro canon src canon' rest h
    unfold rounds at h
    obtain ⟨path, -, h⟩ := Option.bind_eq_some_iff.mp h
    simp only at h
    split at h
    · exact (List.prefix_append _ _).trans (ih h)
    · obtain ⟨rfl, -⟩ := Prod.mk.inj (Option.some.inj h)
      exact List.prefix_append _ _

/-- The first round accepts local's units up to the last but one. -/
theorem rounds_locals (hn : 0 < n) (hadded : n < (agreedSweep M).length) {fuel : Nat}
    {canon rest : List MatchUnit} (h : rounds (fuel + 1) [] (agreedSweep M) = some (canon, rest)) :
    (List.range (n - 1)).map (unitAt M M) <+: canon := by
  obtain ⟨m, rfl⟩ : ∃ m, n = m + 1 := ⟨n - 1, by omega⟩
  obtain ⟨i, hi⟩ : ∃ i, (agreedSweep M).length - (m + 1) = i + 1 :=
    ⟨(agreedSweep M).length - (m + 1) - 1, by omega⟩
  have hstate : ∀ k ≤ m, (agreedSweep M)[stateOf M (unitAt M M k)]? = some (unitAt M M k) :=
    fun k hk =>
    getElem?_stateOf (unitAt_mem (Nat.lt_succ_of_le hk))
  have hpath :
    (links (agreedSweep M)).path =
    some (((List.range m).map fun k => (stateOf M (unitAt M M k) : Int)) ++
      (stateOf M (unitAt M M m) : Int) :: ((links (agreedSweep M)).dud : Int) ::
        (List.replicate i (links (agreedSweep M)).dud).map Int.ofNat) := by
    rw [agreed_path hn hadded, hi, List.range_succ, List.replicate_succ]
    simp
  have hinj : ∀ j ≤ m, ∀ k ≤ m, stateOf M (unitAt M M j) = stateOf M (unitAt M M k) → j = k := by
    intro j hj k hk he
    have hjk := hstate j hj
    rw [he, hstate k hk] at hjk
    have := congrArg MatchUnit.localUnit (Option.some.inj hjk)
    rw [unitAt_localUnit, unitAt_localUnit] at this
    omega
  have hacc : acceptPath [((links (agreedSweep M)).dud : Int)] (((List.range m).map fun k =>
        (stateOf M (unitAt M M k) : Int)) ++ (stateOf M (unitAt M M m) : Int) ::
          ((links (agreedSweep M)).dud : Int) ::
        (List.replicate i (links (agreedSweep M)).dud).map Int.ofNat) =
      ((List.range m).map fun k => (stateOf M (unitAt M M k) : Int), false) := by
    have hall : ((List.range m).map fun k => (stateOf M (unitAt M M k) : Int)) ++
      [(stateOf M (unitAt M M m) : Int)] =
        (List.range (m + 1)).map fun k => (stateOf M (unitAt M M k) : Int) := by
      rw [List.range_succ, List.map_append]
      rfl
    refine acceptPath_stop _ _ ?_ ?_ (List.mem_singleton_self _)
    · rw [hall]
      refine List.Nodup.map_on (fun j hj k hk he => ?_) List.nodup_range
      exact hinj j (by simpa [Nat.lt_succ_iff] using hj) k (by simpa [Nat.lt_succ_iff] using hk)
        (by exact_mod_cast he)
    · rw [hall]
      intro k hk hd
      obtain ⟨j, hj, rfl⟩ := List.mem_map.mp hk
      have hlt := stateOf_lt (unitAt_mem (M := M) (List.mem_range.mp hj))
      have := List.mem_singleton.mp hd
      omega
  have htaken : ((List.range m).map fun k => (stateOf M (unitAt M M k) : Int)).filterMap
      (fun k => (links (agreedSweep M)).mu[k.toNat]?) = (List.range m).map (unitAt M M) := by
    rw [List.filterMap_map, agreed_mu, ← List.filterMap_eq_map]
    refine List.filterMap_congr fun k hk => ?_
    simpa using hstate k (List.mem_range.mp hk).le
  unfold rounds at h
  simp only [hpath, Option.bind_some, hacc, htaken, List.nil_append] at h
  split at h
  · exact prefix_rounds fuel h
  · obtain ⟨rfl, -⟩ := Prod.mk.inj (Option.some.inj h)
    exact List.prefix_refl _

/-- **Local's units keep their order.**  The order pass starts with them, up to the last but one at
least. -/
theorem orderPass_locals {fuel : Nat} (hf : 0 < fuel) {units : List MatchUnit}
    (h : orderPass fuel (agreedSweep M) = some units) :
    (List.range (n - 1)).map (unitAt M M) <+: units := by
  obtain ⟨fuel, rfl⟩ : ∃ m, fuel = m + 1 := ⟨fuel - 1, by omega⟩
  rcases Nat.eq_zero_or_pos n with rfl | hn
  · exact List.nil_prefix
  by_cases hnone : ∀ l < n, M.bwd l ≠ none
  · have hsweep : agreedSweep M = agreedUnits M := sweepFrom_matched M M hnone _ 0
    have hpass := orderPass_agreed M hnone hf
    rw [hsweep, hpass] at h
    obtain rfl := Option.some.inj h
    obtain ⟨m, rfl⟩ : ∃ m, n = m + 1 := ⟨n - 1, by omega⟩
    rw [agreedUnits, List.range_succ, List.map_append]
    exact List.prefix_append _ _
  · have hadded : n < (agreedSweep M).length := by
      push Not at hnone
      obtain ⟨l, hl, hb⟩ := hnone
      have hmem : insertUnit l ∈ insertsIn M 0 n :=
        mem_insertsIn.mpr ⟨l, Nat.zero_le _, hl, hb, rfl⟩
      have hpos := List.length_pos_of_mem hmem
      have hlen := (agreedSweep_perm (M := M)).length_eq
      rw [sweptUnits, List.length_append, List.length_map, List.length_range] at hlen
      omega
    unfold orderPass at h
    obtain ⟨⟨canon, rest⟩, hr, rfl⟩ := Option.map_eq_some_iff.mp h
    refine (rounds_locals hn hadded hr).trans ?_
    exact (List.prefix_append canon _).trans (List.prefix_append _ _)

end

end OrderMerge

end Coopy
