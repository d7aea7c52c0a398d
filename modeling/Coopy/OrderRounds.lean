import Coopy.OrderSweep
import Mathlib.Data.List.Nodup

/-!
# The order pass loses no unit

Each round reads the cheapest path of a lattice over the units still to place and
takes a prefix of it without repetitions; what it does not take goes to the next
round.  So the rounds end, and `canon` is a permutation of what they were given.

    rounds fuel canon src = some (canon', rest), canon' ++ rest ~ canon ++ src         (rounds_spec)
    merge fuel ML MR flags columnar = some om, om.accum ~ the units of the sweep   (merge_conserves)
-/

namespace Coopy

open Lib Lib.Trellis

namespace OrderMerge

/-! ## What the links of a round hold -/

/-- The links on one side: `key` reads the index of a unit on that side. -/
structure Side (key : MatchUnit → Int) (mu : List MatchUnit) (m : AssocMap Int Nat)
    (avail : List Int) : Prop where
  get_some : ∀ i k, m.get? i = some k → 0 ≤ i ∧ ∃ u, mu[k]? = some u ∧ key u = i
  get_mem : ∀ u ∈ mu, 0 ≤ key u → ∃ k, m.get? (key u) = some k
  sorted : avail.Pairwise (· < ·)
  mem_avail : ∀ i, i ∈ avail ↔ i ≠ -1 ∧ ∃ u ∈ mu, key u = i

theorem Side.nil (key : MatchUnit → Int) : Side key [] [] [] where
  get_some := fun i k h => by cases h
  get_mem := fun u hu => by simp at hu
  sorted := List.Pairwise.nil
  mem_avail := fun i => by simp

theorem Side.enter {key : MatchUnit → Int} {mu : List MatchUnit} {m : AssocMap Int Nat}
    {avail : List Int} (h : Side key mu m avail) (unit : MatchUnit) :
    Side key (mu ++ [unit]) (link m (key unit) mu.length) (offer avail (key unit)) := by
  have hkeep : ∀ (k : Nat) (u : MatchUnit), mu[k]? = some u → (mu ++ [unit])[k]? = some u := by
    intro k u hk
    rw [List.getElem?_append_left (List.getElem?_eq_some_iff.mp hk).1]
    exact hk
  refine ⟨fun i k hg => ?_, fun u hu hpos => ?_, ?_, fun i => ?_⟩
  · unfold link at hg
    split at hg
    · next hge =>
      rw [AssocMap.get?_set] at hg
      split at hg
      · next he =>
        cases hg
        rw [he]
        exact ⟨hge, unit, by simp, rfl⟩
      · obtain ⟨h1, u, h2, h3⟩ := h.get_some i k hg
        exact ⟨h1, u, hkeep k u h2, h3⟩
    · obtain ⟨h1, u, h2, h3⟩ := h.get_some i k hg
      exact ⟨h1, u, hkeep k u h2, h3⟩
  · unfold link
    split
    · rw [AssocMap.get?_set]
      split
      · exact ⟨_, rfl⟩
      · next hne =>
        rcases List.mem_append.mp hu with hu | hu
        · exact h.get_mem u hu hpos
        · rw [List.mem_singleton.mp hu] at hne
          exact absurd rfl hne
    · next hlt =>
      rcases List.mem_append.mp hu with hu | hu
      · exact h.get_mem u hu hpos
      · rw [List.mem_singleton.mp hu] at hpos
        exact absurd hpos hlt
  · unfold offer
    split
    · exact setInsert_pairwise _ _ h.sorted
    · exact h.sorted
  · unfold offer
    by_cases hne : key unit = -1
    · rw [if_neg (not_not.mpr hne), h.mem_avail]
      simp only [List.mem_append, List.mem_singleton, and_congr_right_iff]
      intro hi
      constructor
      · rintro ⟨u, hu, rfl⟩
        exact ⟨u, Or.inl hu, rfl⟩
      · rintro ⟨u, hu | rfl, rfl⟩
        · exact ⟨u, hu, rfl⟩
        · exact absurd hne hi
    · rw [if_pos hne, mem_setInsert, h.mem_avail]
      simp only [List.mem_append, List.mem_singleton]
      constructor
      · rintro (rfl | ⟨h1, u, hu, rfl⟩)
        · exact ⟨hne, unit, Or.inr rfl, rfl⟩
        · exact ⟨h1, u, Or.inl hu, rfl⟩
      · rintro ⟨h1, u, hu | rfl, rfl⟩
        · exact Or.inr ⟨h1, u, hu, rfl⟩
        · exact Or.inl rfl

theorem Side.get_lt {key : MatchUnit → Int} {mu : List MatchUnit} {m : AssocMap Int Nat}
    {avail : List Int}
    (h : Side key mu m avail) {i : Int} {k : Nat} (hg : m.get? i = some k) : k < mu.length := by
  obtain ⟨-, u, hu, -⟩ := h.get_some i k hg
  exact (List.getElem?_eq_some_iff.mp hu).1

theorem Side.safeNext_le {key : MatchUnit → Int} {mu : List MatchUnit} {m : AssocMap Int Nat}
    {avail : List Int}
    (h : Side key mu m avail) (i : Int) : safeNext m i mu.length ≤ mu.length := by
  unfold safeNext
  cases hg : m.get? i with
  | none => exact le_refl _
  | some k => exact (h.get_lt hg).le

/-- All three sides of a round's links. -/
structure Links.Ok (w : Links) : Prop where
  pivot : Side MatchUnit.pivotUnit w.mu w.p2k w.availableP
  left : Side MatchUnit.localUnit w.mu w.l2k w.availableL
  right : Side MatchUnit.remoteUnit w.mu w.r2k w.availableR

theorem links_foldl (src : List MatchUnit) : ∀ w : Links, w.Ok →
    (src.foldl (fun w unit => if unit.deleted then w else w.enter unit) w).Ok ∧
      (src.foldl (fun w unit => if unit.deleted then w else w.enter unit) w).mu =
        w.mu ++ src.filter fun unit => !unit.deleted := by
  induction src with
  | nil => exact fun w h => ⟨h, by simp⟩
  | cons unit src ih =>
    intro w h
    by_cases hd : unit.deleted = true
    · simpa [hd] using ih w h
    · have hok : (w.enter unit).Ok := ⟨h.pivot.enter unit, h.left.enter unit, h.right.enter unit⟩
      obtain ⟨h1, h2⟩ := ih _ hok
      have hd' : unit.deleted = false := by simpa using hd
      simp only [List.foldl_cons, hd', Bool.false_eq_true, if_false]
      refine ⟨h1, ?_⟩
      rw [h2]
      simp [Links.enter, hd']

theorem links_ok (src : List MatchUnit) : (links src).Ok :=
  (links_foldl src {} ⟨Side.nil _, Side.nil _, Side.nil _⟩).1

theorem links_mu (src : List MatchUnit) : (links src).mu = src.filter fun unit =>
    !unit.deleted := by
  exact (links_foldl src {} ⟨Side.nil _, Side.nil _, Side.nil _⟩).2

/-! ## The path of a round -/

namespace Links

variable {w : Links}

theorem Ok.nexts_le (h : w.Ok) (unit : MatchUnit) : ∀ k ∈ w.nexts unit, k ≤ w.dud := by
  have hp : w.pnext unit ≤ w.dud := h.pivot.safeNext_le _
  have hl : w.lnext unit ≤ w.dud := h.left.safeNext_le _
  have hr : w.rnext unit ≤ w.dud := h.right.safeNext_le _
  intro k hk
  have : k = w.pnext unit ∨ k = w.lnext unit ∨ k = w.rnext unit := by
    unfold nexts at hk
    split at hk
    · exact Or.inl (List.mem_singleton.mp hk)
    split at hk
    · exact Or.inr (Or.inl (List.mem_singleton.mp hk))
    split at hk
    · exact Or.inr (Or.inr (List.mem_singleton.mp hk))
    · simp only [List.mem_append] at hk
      rcases hk with (hk | hk) | hk
      · split at hk
        · exact Or.inr (Or.inl (List.mem_singleton.mp hk))
        · simp at hk
      · split at hk
        · exact Or.inr (Or.inr (List.mem_singleton.mp hk))
        · simp at hk
      · split at hk
        · exact Or.inl (List.mem_singleton.mp hk)
        · simp at hk
  omega

theorem Ok.starts_le (h : w.Ok) : ∀ k ∈ w.starts, k ≤ w.dud := by
  have key : ∀ {f : MatchUnit → Int} {m : AssocMap Int Nat} {avail : List Int} (i : Int),
      Side f w.mu m avail → (m.get? i).getD 0 ≤ w.dud := by
    intro f m avail i hs
    cases hg : m.get? i with
    | none => exact Nat.zero_le _
    | some k => exact (hs.get_lt hg).le
  intro k hk
  unfold starts at hk
  rcases List.mem_append.mp hk with hk | hk
  · split at hk
    · rw [List.mem_singleton.mp hk]; exact key _ h.left
    · simp at hk
  · split at hk
    · rw [List.mem_singleton.mp hk]; exact key _ h.right
    · simp at hk

theorem mem_drawPairs {idx : List Nat} {e : Nat × Nat} :
    e ∈ w.drawPairs idx ↔ e.1 ∈ idx ∧ e.1 ≠ w.dud ∧ ∃ unit, w.mu[e.1]? = some unit ∧
    e.2 ∈ w.nexts unit := by
  unfold drawPairs
  simp only [List.mem_flatMap]
  constructor
  · rintro ⟨k, hk, he⟩
    split at he
    · simp at he
    · next hne =>
      split at he
      · next unit hu =>
        obtain ⟨next, hn, rfl⟩ := List.mem_map.mp he
        exact ⟨hk, hne, unit, hu, hn⟩
      · simp at he
  · rintro ⟨hk, hne, unit, hu, hn⟩
    refine ⟨e.1, hk, ?_⟩
    rw [if_neg hne, hu]
    exact List.mem_map.mpr ⟨e.2, hn, rfl⟩

theorem mem_drawStages {st : Stage ℚ} : ∀ {n : Nat} {idx : List Nat}, st ∈ w.drawStages n idx →
    ∃ idx', st = w.drawStage idx' := by
  intro n
  induction n with
  | zero => intro idx h; simp [drawStages] at h
  | succ n ih =>
    intro idx h
    rcases List.mem_cons.mp h with rfl | h
    · exact ⟨idx, rfl⟩
    · exact ih h

/-- Every stage is the first, the last or a draw. -/
theorem mem_stages {st : Stage ℚ} (h : st ∈ w.stages) :
    st = w.firstStage ∨ (∃ idx, st = w.drawStage idx) ∨ st = w.lastStage := by
  unfold stages at h
  rcases List.mem_append.mp h with h | h
  · rcases List.mem_cons.mp h with h | h
    · exact Or.inl h
    · exact Or.inr (Or.inl (mem_drawStages h))
  · exact Or.inr (Or.inr (List.mem_singleton.mp h))

theorem Ok.stages_bounded (h : w.Ok) : ∀ st ∈ w.stages, ∀ e ∈ st, e.src < w.dud + 1 ∧
    e.dst < w.dud + 1 := by
  intro st hst e he
  rcases mem_stages hst with rfl | ⟨idx, rfl⟩ | rfl
  · rcases List.mem_append.mp he with he | he
    · obtain ⟨k, hk, rfl⟩ := List.mem_map.mp he
      have := h.starts_le k hk
      exact ⟨by simp only []; omega, by simp only []; omega⟩
    · rw [List.mem_singleton.mp he]
      exact ⟨Nat.lt_succ_self _, Nat.lt_succ_self _⟩
  · rcases List.mem_append.mp he with he | he
    · obtain ⟨f, hf, rfl⟩ := List.mem_map.mp he
      obtain ⟨-, -, unit, hu, hn⟩ := mem_drawPairs.mp hf
      have h1 := (List.getElem?_eq_some_iff.mp hu).1
      have h2 := h.nexts_le unit _ hn
      exact ⟨h1.trans (Nat.lt_succ_self _), Nat.lt_succ_of_le h2⟩
    · rw [List.mem_singleton.mp he]
      exact ⟨Nat.lt_succ_self _, Nat.lt_succ_self _⟩
  · obtain ⟨k, hk, rfl⟩ := List.mem_map.mp he
    rw [List.mem_range] at hk
    exact ⟨hk, hk⟩

theorem stages_loop : ∀ st ∈ w.stages, ∃ e ∈ st, e.src = w.dud ∧ e.dst = w.dud := by
  intro st hst
  rcases mem_stages hst with rfl | ⟨idx, rfl⟩ | rfl
  · exact ⟨⟨w.dud, w.dud, 1⟩, by simp [firstStage], rfl, rfl⟩
  · exact ⟨⟨w.dud, w.dud, 1⟩, by simp [drawStage], rfl, rfl⟩
  · exact ⟨⟨w.dud, w.dud, if w.dud = w.dud then 1 else 0⟩,
      List.mem_map.mpr ⟨w.dud, List.mem_range.mpr (Nat.lt_succ_self _), rfl⟩, rfl, rfl⟩

/-- **The path of a round** is a cheapest chain through its stages, less the last state. -/
theorem Ok.path_spec (h : w.Ok) :
    ∃ (c : ℚ) (j : Nat), cheapest (cells w.stages.reverse) (w.dud + 1) = some (c, j) ∧
    Chain w.stages.reverse (trace w.stages.reverse j) c ∧
    (∀ p' c', Chain w.stages.reverse p' c' → c ≤ c') ∧
    w.path = some ((trace w.stages.reverse j).tail.reverse.map Int.ofNat) ∧
    ∀ k ∈ trace w.stages.reverse j, k ≤ w.dud := by
  have hne : ∃ p c, Chain w.stages.reverse p c := by
    obtain ⟨q, c, hc⟩ := exists_chain_of_loop w.dud w.stages.reverse
      (by simp [stages]) (fun st hst => stages_loop st (List.mem_reverse.mp hst))
    exact ⟨_, c, hc⟩
  obtain ⟨v, c, j, hlen, hend, hch, hmin, hget⟩ := Viterbi.runStages_read (w.dud + 1) (w.dud + 2)
    Viterbi.fresh w.stages h.stages_bounded hne
  refine ⟨c, j, hend, hch, hmin, ?_, fun k hk => ?_⟩
  · generalize trace w.stages.reverse j = p at hch hget
    have hplen : p.length = w.stages.length := by
      rw [hch.length_eq, List.length_reverse]
    unfold path lattice
    rw [hlen]
    simp only [Option.bind_some]
    have hread : ∀ i ∈ List.range (w.stages.length - 1), (v.getPath i).map Prod.snd =
        some ((p.getD (w.stages.length - 1 - i) 0 : Nat) : Int) := by
      intro i hi
      rw [List.mem_range] at hi
      rw [hget i (by omega)]
      rfl
    rw [mapM_eq_some_map hread]
    congr 1
    refine List.ext_getElem (by simp [hplen]) fun i h1 h2 => ?_
    simp only [List.length_map, List.length_range] at h1
    have hlt : w.stages.length - 1 - i < p.length := by omega
    simp only [List.getElem_map, List.getElem_range, List.getElem_reverse, List.getElem_tail,
      List.getD_eq_getElem _ _ hlt, List.length_tail]
    congr 2
    omega
  · obtain ⟨st, hst, e, he, rfl⟩ := hch.mem_dst k hk
    exact Nat.lt_succ_iff.mp (h.stages_bounded st (List.mem_reverse.mp hst) e he).2

end Links

/-! ## The rounds -/

/-- What is accepted is a prefix of the path, free of repetitions and of `dups`. -/
theorem acceptPath_spec (path : List Int) : ∀ dups : List Int,
    (acceptPath dups path).1 <+: path ∧ (acceptPath dups path).1.Nodup ∧
      ∀ k ∈ (acceptPath dups path).1, k ∉ dups := by
  induction path with
  | nil =>
    exact fun dups => ⟨List.prefix_refl _, List.nodup_nil, fun k hk => by simp [acceptPath] at hk⟩
  | cons k rest ih =>
    intro dups
    unfold acceptPath
    split
    · next h =>
      obtain ⟨h1, h2, h3⟩ := ih (k :: dups)
      refine ⟨List.cons_prefix_cons.mpr ⟨rfl, h1⟩, List.nodup_cons.mpr ⟨fun hk => ?_, h2⟩,
        fun j hj => ?_⟩
      · exact h3 k hk (by simp)
      · rcases List.mem_cons.mp hj with rfl | hj
        · exact h.1
        · exact fun hd => h3 j hj (List.mem_cons_of_mem _ hd)
    · exact ⟨List.nil_prefix, List.nodup_nil, fun j hj => by simp at hj⟩

/-- A path without repetitions is accepted whole. -/
theorem acceptPath_of_nodup (path : List Int) : ∀ dups : List Int, path.Nodup →
    (∀ k ∈ path, k ∉ dups) → acceptPath dups path = (path, true) := by
  induction path with
  | nil => exact fun _ _ _ => rfl
  | cons k rest ih =>
    intro dups hn hd
    obtain ⟨hk, hr⟩ := List.nodup_cons.mp hn
    have hhead : rest.headD k ∉ dups := by
      cases rest with
      | nil => exact hd k (by simp)
      | cons j rest => exact hd j (by simp)
    unfold acceptPath
    rw [if_pos ⟨hd k (by simp), hhead⟩, ih (k :: dups) hr fun j hj hm => ?_]
    rcases List.mem_cons.mp hm with rfl | hm
    · exact hk hj
    · exact hd j (List.mem_cons_of_mem _ hj) hm

/-- What a round takes and what it leaves make up its units. -/
theorem accepted_perm {w : Links} (h : w.Ok) {path : List Int} (hp : w.path = some path) :
    ((acceptPath [(w.dud : Int)] path).1.filterMap (fun k => w.mu[k.toNat]?) ++
      ((List.range w.mu.length).filter fun k : Nat =>
        decide ((k : Int) ∉ (acceptPath [(w.dud : Int)] path).1)).filterMap fun k => w.mu[k]?).Perm
          w.mu := by
  obtain ⟨c, j, -, -, -, hpath, hle⟩ := h.path_spec
  generalize trace w.stages.reverse j = p at hpath hle
  rw [hp, Option.some.injEq] at hpath
  subst hpath
  obtain ⟨h1, h2, h3⟩ := acceptPath_spec (p.tail.reverse.map Int.ofNat) [(w.dud : Int)]
  generalize (acceptPath [(w.dud : Int)] (p.tail.reverse.map Int.ofNat)).1 = acc at h1 h2 h3
  -- the accepted states are numbers of units
  obtain ⟨ks, rfl⟩ : ∃ ks : List Nat, acc = ks.map Int.ofNat := by
    obtain ⟨t, ht⟩ := h1
    obtain ⟨l1, l2, -, hl1, -⟩ := List.map_eq_append_iff.mp ht.symm
    exact ⟨l1, hl1.symm⟩
  have hks : ∀ k ∈ ks, k < w.mu.length := by
    intro k hk
    have hmem : (k : Int) ∈ p.tail.reverse.map Int.ofNat :=
      h1.subset (List.mem_map.mpr ⟨k, hk, rfl⟩)
    obtain ⟨k', hk', he⟩ := List.mem_map.mp hmem
    obtain rfl : k' = k := Int.ofNat.inj he
    have hkle := hle k' (List.mem_of_mem_tail (List.mem_reverse.mp hk'))
    have hne : (k' : Int) ∉ [(w.dud : Int)] := h3 k' (List.mem_map.mpr ⟨k', hk, rfl⟩)
    have hne' : k' ≠ w.dud := fun he => hne (by rw [he]; simp)
    exact lt_of_le_of_ne hkle hne'
  have hcongr : ∀ k : Nat, ((k : Int) ∈ ks.map Int.ofNat) ↔ k ∈ ks := by
    intro k
    constructor
    · intro hm
      obtain ⟨k', hk', he⟩ := List.mem_map.mp hm
      rwa [← Int.ofNat.inj he]
    · exact fun hm => List.mem_map.mpr ⟨k, hm, rfl⟩
  rw [List.filterMap_map]
  simp only [hcongr]
  exact filterMap_getElem?_perm w.mu ks (List.Nodup.of_map _ h2) hks

/-- **The rounds end and conserve the units.** -/
theorem rounds_spec (fuel : Nat) : ∀ canon src : List MatchUnit,
    (src.filter fun unit => !unit.deleted).length < fuel →
    ∃ canon' rest, rounds fuel canon src = some (canon', rest) ∧ (∀ u ∈ rest, u.deleted = false) ∧
      (canon' ++ rest).Perm (canon ++ src.filter fun unit => !unit.deleted) := by
  induction fuel with
  | zero => intro canon src h; omega
  | succ fuel ih =>
    intro canon src hf
    have hok := links_ok src
    obtain ⟨c, j, -, -, -, hpath, -⟩ := hok.path_spec
    generalize trace (links src).stages.reverse j = p at hpath
    have hperm := accepted_perm hok hpath
    unfold rounds
    simp only [hpath, Option.bind_some]
    generalize acceptPath [((links src).dud : Int)] (p.tail.reverse.map Int.ofNat) = r at hperm
    obtain ⟨accepted, good⟩ := r
    simp only at hperm ⊢
    generalize accepted.filterMap (fun k => (links src).mu[k.toNat]?) = taken at hperm
    generalize ((List.range (links src).mu.length).filter fun k : Nat =>
      decide ((k : Int) ∉ accepted)).filterMap (fun k => (links src).mu[k]?) = rest at hperm
    rw [links_mu] at hperm ⊢
    have hrest : ∀ u ∈ rest, u.deleted = false := by
      intro u hu
      have := hperm.subset (List.mem_append_right _ hu)
      simpa using (List.mem_filter.mp this).2
    have htotal :
      (canon ++ taken ++ rest).Perm (canon ++ src.filter fun unit => !unit.deleted) := by
      rw [List.append_assoc]
      exact hperm.append_left canon
    split
    · next hmore =>
      have hself : (rest.filter fun unit => !unit.deleted) = rest := by
        rw [List.filter_eq_self]
        intro u hu
        simp [hrest u hu]
      have hlen := hperm.length_eq
      rw [List.length_append] at hlen
      obtain ⟨canon', rest', h1, h2, h3⟩ := ih (canon ++ taken) rest (by rw [hself]; omega)
      refine ⟨canon', rest', h1, h2, h3.trans ?_⟩
      rw [hself]
      exact htotal
    · exact ⟨canon ++ taken, rest, rfl, hrest, htotal⟩

theorem orderPass_spec (accum : List MatchUnit) {fuel : Nat} (hf : accum.length < fuel) :
    ∃ accum', orderPass fuel accum = some accum' ∧ accum'.Perm accum ∧
      accum'.Pairwise fun u v => u.deleted = true → v.deleted = true := by
  obtain ⟨canon, rest, h1, h2, h3⟩ := rounds_spec fuel [] accum
    (lt_of_le_of_lt (List.length_filter_le _ _) hf)
  rw [List.nil_append] at h3
  have hself : (rest.filter fun unit => !unit.deleted) = rest := by
    rw [List.filter_eq_self]
    intro u hu
    simp [h2 u hu]
  have hnot : ∀ u ∈ canon ++ rest, u.deleted = false := by
    intro u hu
    simpa using (List.mem_filter.mp (h3.subset hu)).2
  refine ⟨canon ++ rest ++ accum.filter fun unit => unit.deleted, ?_, ?_, ?_⟩
  · unfold orderPass
    rw [h1]
    simp only [Option.map_some, hself]
  · calc (canon ++ rest ++ accum.filter fun unit => unit.deleted).Perm
          ((accum.filter fun unit => !unit.deleted) ++ accum.filter fun unit => unit.deleted) :=
            h3.append_right _
      List.Perm _ ((accum.filter fun unit => unit.deleted) ++ accum.filter fun unit =>
        !unit.deleted) :=
            List.perm_append_comm
      List.Perm _ accum := List.filter_append_perm _ accum
  · refine List.pairwise_append.mpr ⟨?_, ?_, fun u hu v hv hd => ?_⟩
    · refine List.Pairwise.imp_of_mem (R := fun _ _ => True) (fun hu _ _ hd => ?_)
        (List.pairwise_of_forall (by simp))
      rw [hnot _ hu] at hd
      cases hd
    · refine List.Pairwise.imp_of_mem (R := fun _ _ => True) (fun _ hv _ _ => ?_)
        (List.pairwise_of_forall (by simp))
      exact (List.mem_filter.mp hv).2
    · rw [hnot u hu] at hd
      cases hd

/-! ## The merge conserves units -/

section
variable {np nl nr : Nat}

/-- Each index that the merge must keep stands in exactly one unit, with its partner. -/
structure Conserved (nl nr : Nat) (orderLocal orderRemote : OrderResult)
    (accum : List MatchUnit) : Prop where
  locals : ∀ l : Nat, l < nl → accum.countP (fun u => u.localUnit = (l : Int)) = 1
  additions : ∀ r : Nat, r < nr → orderRemote.b2a r = -1 →
    accum.countP (fun u => u.remoteUnit = (r : Int)) = 1
  shared : ∀ r : Nat, r < nr → orderRemote.b2a r ≠ -1 → orderLocal.a2b (orderRemote.b2a r) ≠ -1 →
    accum.countP (fun u => u.remoteUnit = (r : Int)) = 1 ∧
      ∃ u ∈ accum, u.remoteUnit = r ∧ u.localUnit = orderLocal.a2b (orderRemote.b2a r)
  dropped : ∀ r : Nat, r < nr → orderRemote.b2a r ≠ -1 → orderLocal.a2b (orderRemote.b2a r) = -1 →
    ∀ u ∈ accum, u.remoteUnit ≠ r

theorem Conserved.perm {o o' : OrderResult} {accum accum' : List MatchUnit}
    (h : Conserved nl nr o o' accum) (hp : accum'.Perm accum) : Conserved nl nr o o' accum' where
  locals := fun l hl => (hp.countP_eq _).trans (h.locals l hl)
  additions := fun r hr hb => (hp.countP_eq _).trans (h.additions r hr hb)
  shared := fun r hr hb ha => by
    obtain ⟨h1, u, hu, h2⟩ := h.shared r hr hb ha
    exact ⟨(hp.countP_eq _).trans h1, u, hp.mem_iff.mpr hu, h2⟩
  dropped := fun r hr hb ha u hu => h.dropped r hr hb ha u (hp.mem_iff.mp hu)

variable (ML : Matching np nl) (MR : Matching np nr)

theorem unitAt_localUnit (k : Nat) : (unitAt ML MR k).localUnit = k := by
  unfold unitAt
  split
  · rfl
  · split <;> rfl

theorem unitAt_remoteUnit (k : Nat) :
    (unitAt ML MR k).remoteUnit = match partner ML MR k with | some r => (r : Int) | none => -1 := by
  unfold unitAt partner
  cases hb : ML.bwd k with
  | none => rfl
  | some p =>
    simp only [Option.bind_some]
    cases hf : MR.fwd p <;> rfl

theorem unitAt_remoteUnit_iff (k r : Nat) : (unitAt ML MR k).remoteUnit = r ↔ partner ML MR k = some r := by
  rw [unitAt_remoteUnit]
  cases partner ML MR k with
  | none => simp only [reduceCtorEq]
  | some r' => simp only [Option.some.injEq]; omega

theorem partner_eq_some_iff (k r : Nat) : partner ML MR k = some r ↔ ∃ p, MR.bwd r = some p ∧
    ML.fwd p = some k := by
  unfold partner
  rw [Option.bind_eq_some_iff]
  constructor
  · rintro ⟨p, h1, h2⟩
    exact ⟨p, (MR.fwd_eq_some_iff p r).mp h2, (ML.fwd_eq_some_iff p k).mpr h1⟩
  · rintro ⟨p, h1, h2⟩
    exact ⟨p, (ML.fwd_eq_some_iff p k).mp h2, (MR.fwd_eq_some_iff p r).mpr h1⟩

/-- The units the sweep is made of. -/
def sweptUnits : List MatchUnit := (List.range nl).map (unitAt ML MR) ++ insertsIn MR 0 nr

theorem countP_insertsIn_remote (r : Nat) (hr : r < nr) :
    (insertsIn MR 0 nr).countP (fun u => u.remoteUnit = (r : Int)) = if MR.bwd r = none then 1
    else 0 := by
  have hmem : ∀ u ∈ insertsIn MR 0 nr, u.remoteUnit = r → MR.bwd r = none := by
    intro u hu he
    obtain ⟨r', -, -, hb, rfl⟩ := mem_insertsIn.mp hu
    obtain rfl : r' = r := Int.ofNat.inj he
    exact hb
  split
  · next hb =>
    unfold insertsIn
    rw [List.countP_map]
    refine countP_eq_one_of_iff (x := r) ((List.nodup_range' (h := by omega)).filter _) ?_
      fun y _ => ?_
    · simp only [List.mem_filter, List.mem_range'_1, Option.isNone_iff_eq_none]
      exact ⟨by omega, hb⟩
    · show decide ((y : Int) = (r : Int)) = true ↔ y = r
      rw [decide_eq_true_iff]
      omega
  · next hb =>
    rw [List.countP_eq_zero]
    intro u hu he
    exact hb (hmem u hu (of_decide_eq_true he))

theorem countP_units_remote (r : Nat) :
    ((List.range nl).map (unitAt ML MR)).countP (fun u => u.remoteUnit = (r : Int)) =
      if ((MR.bwd r).bind ML.fwd).isSome then 1 else 0 := by
  rw [List.countP_map]
  split
  · next h =>
    obtain ⟨k, hk⟩ := Option.isSome_iff_exists.mp h
    obtain ⟨p, h1, h2⟩ := Option.bind_eq_some_iff.mp hk
    refine countP_eq_one_of_iff (x := k) List.nodup_range
      (List.mem_range.mpr (ML.fwd_lt h2).2) fun y _ => ?_
    simp only [Function.comp_apply, decide_eq_true_eq, unitAt_remoteUnit_iff, partner_eq_some_iff,
      h1, Option.some.injEq, exists_eq_left', h2]
    exact eq_comm
  · next h =>
    rw [List.countP_eq_zero]
    intro y _ hy
    simp only [Function.comp_apply, decide_eq_true_eq, unitAt_remoteUnit_iff,
      partner_eq_some_iff] at hy
    obtain ⟨p, h1, h2⟩ := hy
    exact h (by rw [h1, Option.bind_some, h2]; rfl)

/-- A remote index with a pivot, and what the local side has for that pivot. -/
theorem pivot_cases (r : Nat) (hb : MR.b2a r ≠ -1) : ∃ p, MR.bwd r = some p ∧ MR.b2a r = p := by
  cases h : MR.bwd r with
  | none => exact absurd ((MR.b2a_eq_neg_one_iff r).mpr h) hb
  | some p => exact ⟨p, rfl, (MR.b2a_eq_iff r p).mpr h⟩

theorem sweptUnits_conserved :
    Conserved nl nr ML.toOrderResult MR.toOrderResult (sweptUnits ML MR) where
  locals := fun l hl => by
    unfold sweptUnits
    rw [List.countP_append, List.countP_map,
      countP_eq_one_of_iff (x := l) List.nodup_range (List.mem_range.mpr hl)
        (fun y _ => by simp only [Function.comp_apply, decide_eq_true_eq, unitAt_localUnit]; omega)]
    have : (insertsIn MR 0 nr).countP (fun u => u.localUnit = (l : Int)) = 0 := by
      rw [List.countP_eq_zero]
      intro u hu he
      obtain ⟨r, -, -, -, rfl⟩ := mem_insertsIn.mp hu
      have : (-1 : Int) = l := of_decide_eq_true he
      omega
    omega
  additions := fun r hr hb => by
    have hn := (MR.b2a_eq_neg_one_iff r).mp hb
    unfold sweptUnits
    rw [List.countP_append, countP_units_remote, countP_insertsIn_remote MR r hr, hn]
    rfl
  shared := fun r hr hb ha => by
    obtain ⟨p, hp, he⟩ := pivot_cases MR r hb
    rw [he] at ha ⊢
    obtain ⟨l, hl⟩ : ∃ l, ML.fwd p = some l := by
      cases h : ML.fwd p with
      | none => exact absurd ((ML.a2b_eq_neg_one_iff p).mpr h) ha
      | some l => exact ⟨l, rfl⟩
    unfold sweptUnits
    refine ⟨?_, unitAt ML MR l, ?_, ?_, ?_⟩
    · rw [List.countP_append, countP_units_remote, countP_insertsIn_remote MR r hr, hp,
        Option.bind_some, hl]
      rfl
    · exact List.mem_append_left _ (List.mem_map.mpr ⟨l, List.mem_range.mpr (ML.fwd_lt hl).2, rfl⟩)
    · exact (unitAt_remoteUnit_iff ML MR l r).mpr ((partner_eq_some_iff ML MR l r).mpr ⟨p, hp, hl⟩)
    · rw [unitAt_localUnit, (ML.a2b_eq_iff p l).mpr hl]
  dropped := fun r hr hb ha u hu hur => by
    obtain ⟨p, hp, he⟩ := pivot_cases MR r hb
    rw [he] at ha
    have hl := (ML.a2b_eq_neg_one_iff p).mp ha
    have hzero : (sweptUnits ML MR).countP (fun u => u.remoteUnit = (r : Int)) = 0 := by
      unfold sweptUnits
      rw [List.countP_append, countP_units_remote, countP_insertsIn_remote MR r hr, hp,
        Option.bind_some, hl]
      rfl
    exact List.countP_eq_zero.mp hzero u hu (decide_eq_true hur)

theorem sweptUnits_nodup : (sweptUnits ML MR).Nodup := by
  refine List.nodup_append.mpr ⟨?_, ?_, fun u hu v hv huv => ?_⟩
  · refine List.Nodup.map (fun k k' h => ?_) List.nodup_range
    have := congrArg MatchUnit.localUnit h
    rw [unitAt_localUnit, unitAt_localUnit] at this
    omega
  · refine List.Nodup.map (fun r r' h => ?_) ((List.nodup_range' (h := by omega)).filter _)
    exact Int.ofNat.inj (congrArg MatchUnit.remoteUnit h)
  · obtain ⟨k, -, rfl⟩ := List.mem_map.mp hu
    obtain ⟨r, -, -, -, rfl⟩ := mem_insertsIn.mp hv
    have := congrArg MatchUnit.localUnit huv
    rw [unitAt_localUnit] at this
    simp only [insertUnit] at this
    omega

theorem sweptUnits_length_lt {fuel : Nat} (hf : enough ML.toOrderResult MR.toOrderResult ≤ fuel) :
    (sweptUnits ML MR).length < fuel := by
  unfold enough at hf
  rw [ML.blen_toOrderResult, MR.blen_toOrderResult] at hf
  have : (insertsIn MR 0 nr).length ≤ nr := by
    unfold insertsIn
    rw [List.length_map]
    exact (List.length_filter_le _ _).trans (by simp)
  unfold sweptUnits
  rw [List.length_append, List.length_map, List.length_range]
  omega

/-- The merge of two matchings without trimming, in terms of the sweep. -/
theorem merge_eq {flags : CompareFlags} (hh : flags.headTrimmed = false)
    (ht : flags.tailTrimmed = false)
    (columnar : Bool) {fuel : Nat} (hf : enough ML.toOrderResult MR.toOrderResult ≤ fuel) :
    merge fuel ML.toOrderResult MR.toOrderResult flags columnar =
      (if flags.useOrder || columnar then orderPass fuel (sweepFrom ML MR (List.range nl) 0)
        else some (sweepFrom ML MR (List.range nl) 0)).map fun accum =>
          ⟨accum, countOverlap accum⟩ := by
  obtain ⟨s, h1, h2⟩ := sweepAll_spec ML MR hf
  have htrim : ∀ o : OrderResult, trim o flags = o := by
    intro o
    unfold trim
    simp [hh, ht]
  unfold merge
  rw [htrim, htrim, h1, ← h2]
  rfl

/-- The units of a merge are those of the sweep, in some order. -/
theorem merge_perm {flags : CompareFlags} (hh : flags.headTrimmed = false)
    (ht : flags.tailTrimmed = false)
    (columnar : Bool) {fuel : Nat} (hf : enough ML.toOrderResult MR.toOrderResult ≤ fuel) :
    ∃ accum, merge fuel ML.toOrderResult MR.toOrderResult flags columnar =
    some ⟨accum, countOverlap accum⟩ ∧
      accum.Perm (sweptUnits ML MR) ∧
      ((flags.useOrder || columnar) = true → accum.Pairwise fun u v => u.deleted = true →
        v.deleted = true) := by
  have hswept : (sweepFrom ML MR (List.range nl) 0).Perm (sweptUnits ML MR) :=
    sweepFrom_perm (List.range nl) 0 (Nat.zero_le _)
  rw [merge_eq ML MR hh ht columnar hf]
  cases ho : flags.useOrder || columnar with
  | true =>
    obtain ⟨accum, h3, h4, h5⟩ := orderPass_spec (sweepFrom ML MR (List.range nl) 0)
      (hswept.length_eq ▸ sweptUnits_length_lt ML MR hf)
    refine ⟨accum, ?_, h4.trans hswept, fun _ => h5⟩
    rw [if_pos rfl, h3]
    rfl
  | false => exact ⟨_, rfl, hswept, fun h => by cases h⟩

/-- **Conservation of units.**  Without trimming, `merge` terminates; its units are a
permutation of those of the sweep, no index is lost or doubled, and after the order
pass the deleted units stand last. -/
theorem merge_conserves (flags : CompareFlags) (hh : flags.headTrimmed = false)
    (ht : flags.tailTrimmed = false)
    (columnar : Bool) (fuel : Nat) (hf : enough ML.toOrderResult MR.toOrderResult ≤ fuel) :
    ∃ s om, sweepAll fuel ML.toOrderResult MR.toOrderResult = some s ∧
      merge fuel ML.toOrderResult MR.toOrderResult flags columnar = some om ∧
      om.accum.Perm s.accum ∧ Conserved nl nr ML.toOrderResult MR.toOrderResult om.accum ∧
      (flags.useOrder = true ∨ columnar = true →
        om.accum.Pairwise fun u v => u.deleted = true → v.deleted = true) := by
  obtain ⟨s, h1, h2⟩ := sweepAll_spec ML MR hf
  have hswept : s.accum.Perm (sweptUnits ML MR) := by
    rw [h2]
    exact sweepFrom_perm (List.range nl) 0 (Nat.zero_le _)
  obtain ⟨accum, h3, h4, h5⟩ := merge_perm ML MR hh ht columnar hf
  exact ⟨s, _, h1, h3, h4.trans hswept.symm, (sweptUnits_conserved ML MR).perm h4,
    fun ho => h5 (by simpa using ho)⟩

/-- Two indices a side, of which only the second is matched. -/
def keepSecond : Matching 2 2 := ⟨⟨[-1, 1], [-1, 1]⟩, rfl, rfl, by decide, by decide, by decide⟩

theorem merge_conserves_keepSecond :
    ∃ s om, sweepAll 5 keepSecond.toOrderResult keepSecond.toOrderResult = some s ∧
      merge 5 keepSecond.toOrderResult keepSecond.toOrderResult {} false = some om ∧
      om.accum.Perm s.accum ∧
      Conserved 2 2 keepSecond.toOrderResult keepSecond.toOrderResult om.accum ∧
      (({} : CompareFlags).useOrder = true ∨ false = true →
        om.accum.Pairwise fun u v => u.deleted = true → v.deleted = true) :=
  merge_conserves keepSecond keepSecond {} rfl rfl false 5 (by decide)

end

end OrderMerge

end Coopy
