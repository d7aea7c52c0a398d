import Coopy.OrderRounds

/-!
# The one-sided order law

When every link of a round leads to the unit that is next on one side, and all
units are on that side, the units in the order of that side are a path of cost
zero.  A path through the dead end costs more, so this is what the first round finds.

    local = pivot  → the units that are not deleted stand in remote order    (merge_order_remote)
    remote = pivot → the units that are not deleted stand in local order      (merge_order_local)
-/

namespace Coopy

open Lib Lib.Trellis

namespace OrderMerge

/-! ## Links of a side -/

def keyMap (key : MatchUnit → Int) (us : List MatchUnit) : AssocMap Int Nat :=
  us.zipIdx.foldl (fun m e => link m (key e.1) e.2) []

def keyAvail (key : MatchUnit → Int) (us : List MatchUnit) : List Int :=
  us.foldl (fun s u => offer s (key u)) []

def keyLowest (key : MatchUnit → Int) (us : List MatchUnit) : Int :=
  us.foldl (fun lowest u => lower lowest (key u)) (-2)

/-- The links of a round, side by side. -/
theorem links_eq (src : List MatchUnit) :
    links src =
      let us := src.filter fun unit => !unit.deleted
      { mu := us
        p2k := keyMap MatchUnit.pivotUnit us
        l2k := keyMap MatchUnit.localUnit us
        r2k := keyMap MatchUnit.remoteUnit us
        availableP := keyAvail MatchUnit.pivotUnit us
        availableL := keyAvail MatchUnit.localUnit us
        availableR := keyAvail MatchUnit.remoteUnit us
        lowestL := keyLowest MatchUnit.localUnit us
        lowestR := keyLowest MatchUnit.remoteUnit us } := by
  induction src using List.reverseRecOn with
  | nil => rfl
  | append_singleton src unit ih =>
    unfold links at ih ⊢
    rw [List.foldl_append, ih]
    cases hd : unit.deleted with
    | true => simp [hd]
    | false => simp [hd, Links.enter, keyMap, keyAvail, keyLowest, List.zipIdx_append]

theorem keyMap_congr {f g : MatchUnit → Int} {us : List MatchUnit} (h : ∀ u ∈ us, f u = g u) :
    keyMap f us = keyMap g us := by
  induction us using List.reverseRecOn with
  | nil => rfl
  | append_singleton us u ih =>
    have hu := h u (by simp)
    have := ih fun v hv => h v (List.mem_append_left _ hv)
    unfold keyMap at this ⊢
    simp [List.zipIdx_append, this, hu]

theorem keyAvail_congr {f g : MatchUnit → Int} {us : List MatchUnit} (h : ∀ u ∈ us, f u = g u) :
    keyAvail f us = keyAvail g us := by
  induction us using List.reverseRecOn with
  | nil => rfl
  | append_singleton us u ih =>
    have hu := h u (by simp)
    have := ih fun v hv => h v (List.mem_append_left _ hv)
    unfold keyAvail at this ⊢
    simp [this, hu]

theorem keySide (key : MatchUnit → Int) (us : List MatchUnit) :
    Side key us (keyMap key us) (keyAvail key us) := by
  induction us using List.reverseRecOn with
  | nil => exact Side.nil key
  | append_singleton us u ih =>
    have := ih.enter u
    unfold keyMap keyAvail at this ⊢
    simpa [List.zipIdx_append] using this

/-- With the side complete, `lowest` is its smallest index. -/
theorem keyLowest_spec (key : MatchUnit → Int) (us : List MatchUnit) (hpos : ∀ u ∈ us, 0 ≤ key u)
    (hne : us ≠ []) :
    (∃ u ∈ us, key u = keyLowest key us) ∧ ∀ u ∈ us, keyLowest key us ≤ key u := by
  induction us using List.reverseRecOn with
  | nil => exact absurd rfl hne
  | append_singleton us u ih =>
    have hstep : keyLowest key (us ++ [u]) = lower (keyLowest key us) (key u) := by
      simp [keyLowest]
    have hu := hpos u (by simp)
    rw [hstep]
    unfold lower
    by_cases hnil : us = []
    · subst hnil
      rw [if_pos (Or.inr (show keyLowest key [] = -2 from rfl))]
      exact ⟨⟨u, by simp, rfl⟩, fun v hv => by rw [show v = u by simpa using hv]⟩
    · obtain ⟨⟨x, hx, hxe⟩, hle⟩ := ih (fun v hv => hpos v (List.mem_append_left _ hv)) hnil
      have hx0 := hpos x (List.mem_append_left _ hx)
      by_cases hlt : key u < keyLowest key us
      · rw [if_pos (Or.inl ⟨hlt, hu⟩)]
        refine ⟨⟨u, by simp, rfl⟩, fun v hv => ?_⟩
        rcases List.mem_append.mp hv with hv | hv
        · exact hlt.le.trans (hle v hv)
        · rw [List.mem_singleton.mp hv]
      · rw [if_neg (by omega)]
        refine ⟨⟨x, List.mem_append_left _ hx, hxe⟩, fun v hv => ?_⟩
        rcases List.mem_append.mp hv with hv | hv
        · exact hle v hv
        · rw [List.mem_singleton.mp hv]
          omega

/-! ## Rounds that follow one side -/

/-- The round `w` follows the side `key`: all its units are there, at distinct indices,
every link leads to the next of them, and the search may start at the first. -/
structure Follows (w : Links) (key : MatchUnit → Int) (m : AssocMap Int Nat)
    (avail : List Int) : Prop where
  ok : w.Ok
  side : Side key w.mu m avail
  nonneg : ∀ u ∈ w.mu, 0 ≤ key u
  distinct : (w.mu.map key).Nodup
  nexts_ne : ∀ u ∈ w.mu, w.nexts u ≠ []
  nexts_eq : ∀ u ∈ w.mu, ∀ k ∈ w.nexts u, k = safeNext m (nextAvail avail (key u)) w.dud
  start : ∀ a, avail.head? = some a → ∃ k, m.get? a = some k ∧ k ∈ w.starts

namespace Follows

variable {w : Links} {key : MatchUnit → Int} {m : AssocMap Int Nat} {avail : List Int}

theorem mem_avail (h : Follows w key m avail) (i : Int) : i ∈ avail ↔ ∃ u ∈ w.mu, key u = i := by
  rw [h.side.mem_avail]
  constructor
  · exact fun hi => hi.2
  · rintro ⟨u, hu, rfl⟩
    have := h.nonneg u hu
    exact ⟨by omega, u, hu, rfl⟩

theorem length_avail (h : Follows w key m avail) : avail.length = w.mu.length := by
  have hperm : avail.Perm (w.mu.map key) := by
    refine (List.perm_ext_iff_of_nodup (h.side.sorted.imp fun hlt => hlt.ne) h.distinct).mpr
      fun i => ?_
    rw [h.mem_avail, List.mem_map]
  rw [hperm.length_eq, List.length_map]

/-- Each index of the side has its unit. -/
theorem get (h : Follows w key m avail) {a : Int} (ha : a ∈ avail) :
    ∃ k u, m.get? a = some k ∧ w.mu[k]? = some u ∧ key u = a := by
  obtain ⟨u, hu, rfl⟩ := (h.mem_avail a).mp ha
  obtain ⟨k, hk⟩ := h.side.get_mem u hu (h.nonneg u hu)
  obtain ⟨-, v, hv, he⟩ := h.side.get_some _ k hk
  exact ⟨k, v, hk, hv, he⟩

/-- The link from a unit to the next one of the side. -/
theorem nexts_mem (h : Follows w key m avail) {k : Nat} {u : MatchUnit} (hu : w.mu[k]? = some u)
    {b : Int} {j : Nat}
    (hb : nextIn avail (key u) = some b) (hj : m.get? b = some j) : j ∈ w.nexts u := by
  have hmem : u ∈ w.mu := List.mem_of_getElem? hu
  obtain ⟨x, hx⟩ := List.exists_mem_of_ne_nil _ (h.nexts_ne u hmem)
  have := h.nexts_eq u hmem x hx
  unfold nextAvail safeNext at this
  rw [hb, Option.getD_some, hj, Option.getD_some] at this
  rwa [← this]

/-- The draws follow the indices `a :: suf` of the side at no cost. -/
theorem chain_draws (h : Follows w key m avail) (suf : List Int) :
    ∀ (pre : List Int) (a : Int) (k : Nat) (idx : List Nat) (st : Stage ℚ) (rs : List (Stage ℚ)) (p : List Nat),
    avail = pre ++ a :: suf → m.get? a = some k → k ∈ idx → Chain (st :: rs) (k :: p) 0 →
    ∃ k' q, k' < w.dud ∧ Chain ((w.drawStages suf.length idx).reverse ++ st :: rs) (k' :: q) 0 := by
  induction suf with
  | nil =>
    intro pre a k idx st rs p _ hk _ hch
    exact ⟨k, p, h.side.get_lt hk, hch⟩
  | cons b suf ih =>
    intro pre a k idx st rs p hav hk hidx hch
    obtain ⟨j, -, hj, -, -⟩ := h.get (a := b) (by rw [hav]; simp)
    obtain ⟨k0, u, hk0, hu, hua⟩ := h.get (a := a) (by rw [hav]; simp)
    obtain rfl : k0 = k := by rw [hk] at hk0; exact (Option.some.inj hk0).symm
    have hnot : a ∉ pre := by
      intro hm
      have hs := h.side.sorted
      rw [hav, List.pairwise_append] at hs
      exact absurd (hs.2.2 a hm a (by simp)) (lt_irrefl _)
    have hnext : nextIn avail (key u) = some b := by
      rw [hua, hav, nextIn_append pre (b :: suf) a hnot]
      rfl
    have hpair : (k0, j) ∈ w.drawPairs idx :=
      Links.mem_drawPairs.mpr ⟨hidx, (h.side.get_lt hk).ne, u, hu, h.nexts_mem hu hnext hj⟩
    have hedge : (⟨k0, j, 0⟩ : Edge ℚ) ∈ w.drawStage idx :=
      List.mem_append_left _ (List.mem_map.mpr ⟨(k0, j), hpair, rfl⟩)
    have hch' : Chain (w.drawStage idx :: st :: rs) (j :: k0 :: p) 0 := by
      have := Chain.cons (e := ⟨k0, j, 0⟩) hch hedge
      rwa [add_zero] at this
    have hj' : j ∈ toSet ((w.drawPairs idx).map Prod.snd) :=
      (mem_toSet _ _).mpr (List.mem_map.mpr ⟨(k0, j), hpair, rfl⟩)
    obtain ⟨k', q, hk', hq⟩ := ih (pre ++ [a]) b j _ _ _ _ (by rw [hav]; simp) hj hj' hch'
    refine ⟨k', q, hk', ?_⟩
    rw [List.length_cons]
    unfold Links.drawStages
    rw [List.reverse_cons, List.append_assoc]
    exact hq

/-- The units of the side in order are a path of no cost. -/
theorem chain_zero (h : Follows w key m avail) (hne : w.mu ≠ []) :
    ∃ p, Chain w.stages.reverse p 0 := by
  have hlen := h.length_avail
  obtain ⟨a, suf, hav⟩ : ∃ a suf, avail = a :: suf := by
    cases avail with
    | nil => exact absurd (List.length_eq_zero_iff.mp hlen.symm) hne
    | cons a suf => exact ⟨a, suf, rfl⟩
  obtain ⟨k, hk, hks⟩ := h.start a (by rw [hav]; rfl)
  have hfirst : Chain [w.firstStage] [k] 0 :=
    Chain.start (e := ⟨k, k, 0⟩) (List.mem_append_left _ (List.mem_map.mpr ⟨k, hks, rfl⟩))
  obtain ⟨k', q, hk', hq⟩ := h.chain_draws suf [] a k (toSet w.starts) _ _ _ hav hk
    ((mem_toSet _ _).mpr hks) hfirst
  have hsuf : suf.length = w.dud - 1 := by
    rw [hav, List.length_cons] at hlen
    unfold Links.dud
    omega
  have hlast : (⟨k', k', 0⟩ : Edge ℚ) ∈ w.lastStage := by
    refine List.mem_map.mpr ⟨k', List.mem_range.mpr (by omega), ?_⟩
    rw [if_neg (by omega)]
  rw [hsuf] at hq
  have hrev : w.stages.reverse =
      w.lastStage :: ((w.drawStages (w.dud - 1) (toSet w.starts)).reverse ++ [w.firstStage]) := by
    unfold Links.stages
    simp
  rw [hrev]
  generalize (w.drawStages (w.dud - 1) (toSet w.starts)).reverse ++ [w.firstStage] = rs at hq
  obtain ⟨st, rs', -, -, -, rfl, -⟩ := hq.head
  refine ⟨k' :: k' :: q, ?_⟩
  have := Chain.cons (e := ⟨k', k', 0⟩) hq hlast
  rwa [add_zero] at this

/-- Later states of a path that avoids the dead end have larger indices. -/
def Before (w : Links) (key : MatchUnit → Int) (k k' : Nat) : Prop :=
  ∃ u u', w.mu[k]? = some u ∧ w.mu[k']? = some u' ∧ key u < key u'

/-- A free edge of a draw leaves a unit, for a later one or for the dead end. -/
theorem drawStage_free (h : Follows w key m avail) {idx : List Nat} {e : Edge ℚ}
    (he : e ∈ w.drawStage idx)
    (hc : e.cost = 0) : e.src < w.dud ∧ (e.dst = w.dud ∨ Before w key e.src e.dst) := by
  rcases List.mem_append.mp he with he | he
  · obtain ⟨⟨k, j⟩, hf, rfl⟩ := List.mem_map.mp he
    obtain ⟨-, -, u, hu, hn⟩ := Links.mem_drawPairs.mp hf
    refine ⟨(List.getElem?_eq_some_iff.mp hu).1, ?_⟩
    have hj := h.nexts_eq u (List.mem_of_getElem? hu) j hn
    unfold safeNext at hj
    cases hg : m.get? (nextAvail avail (key u)) with
    | none =>
      rw [hg] at hj
      exact Or.inl hj
    | some j' =>
      rw [hg] at hj
      obtain rfl : j = j' := hj
      obtain ⟨hpos, v, hv, hve⟩ := h.side.get_some _ _ hg
      refine Or.inr ⟨u, v, hu, hv, ?_⟩
      unfold nextAvail at hve hpos
      cases hn' : nextIn avail (key u) with
      | none => rw [hn'] at hpos; exact absurd hpos (by decide)
      | some b =>
        rw [hn'] at hve
        rw [hve]
        exact (nextIn_spec avail h.side.sorted (key u) b hn').1
  · rw [List.mem_singleton.mp he] at hc
    exact absurd hc one_ne_zero

theorem stages_nonneg (w : Links) : ∀ st ∈ w.stages, ∀ e ∈ st, 0 ≤ e.cost := by
  intro st hst e he
  rcases Links.mem_stages hst with rfl | ⟨idx, rfl⟩ | rfl
  · rcases List.mem_append.mp he with he | he
    · obtain ⟨k, -, rfl⟩ := List.mem_map.mp he
      exact le_refl _
    · rw [List.mem_singleton.mp he]
      exact zero_le_one
  · rcases List.mem_append.mp he with he | he
    · obtain ⟨k, -, rfl⟩ := List.mem_map.mp he
      exact le_refl _
    · rw [List.mem_singleton.mp he]
      exact zero_le_one
  · obtain ⟨k, -, rfl⟩ := List.mem_map.mp he
    show (0 : ℚ) ≤ if k = w.dud then 1 else 0
    split
    · exact zero_le_one
    · exact le_refl _

/-- A path read backwards from a unit, by edges into later units or the dead end. -/
theorem descending {w : Links} {key : MatchUnit → Int} :
    ∀ (p : List Nat), (∀ k ∈ p.head?, k < w.dud) →
    p.IsChain (fun k' k => k < w.dud ∧ (k' = w.dud ∨ Before w key k k')) →
    (∀ k ∈ p, k < w.dud) ∧ p.Pairwise fun k' k => Before w key k k' := by
  intro p
  induction p with
  | nil => exact fun _ _ => ⟨fun k hk => by simp at hk, List.Pairwise.nil⟩
  | cons k' p ih =>
    intro hhead hch
    have hk' : k' < w.dud := hhead k' rfl
    cases p with
    | nil =>
      exact ⟨fun k hk => by rw [List.mem_singleton.mp hk]; exact hk', List.pairwise_singleton _ _⟩
    | cons k p =>
      obtain ⟨⟨hk, hstep⟩, hrest⟩ := List.isChain_cons_cons.mp hch
      have hb : Before w key k k' := hstep.resolve_left (by omega)
      obtain ⟨h1, h2⟩ := ih (fun j hj => by rw [← Option.some.inj hj]; exact hk) hrest
      refine ⟨fun j hj => ?_, List.pairwise_cons.mpr ⟨fun j hj => ?_, h2⟩⟩
      · rcases List.mem_cons.mp hj with rfl | hj
        · exact hk'
        · exact h1 j hj
      · rcases List.mem_cons.mp hj with rfl | hj
        · exact hb
        · obtain ⟨u, v, hu, hv, huv⟩ := hb
          obtain ⟨x, y, hx, hy, hxy⟩ := (List.pairwise_cons.mp h2).1 j hj
          rw [hu] at hy
          cases hy
          exact ⟨x, v, hx, hv, hxy.trans huv⟩

/-- **The path of a round that follows a side** is the side's own order. -/
theorem path_eq (h : Follows w key m avail) (hne : w.mu ≠ []) :
    ∃ ks : List Nat, w.path = some (ks.map Int.ofNat) ∧ ks.length = w.mu.length ∧
    (∀ k ∈ ks, k < w.dud) ∧
      ks.Pairwise (Before w key) := by
  obtain ⟨c, j, -, hch, hmin, hpath, -⟩ := h.ok.path_spec
  generalize trace w.stages.reverse j = p at hch hpath
  obtain ⟨p0, hp0⟩ := h.chain_zero hne
  have hnn : ∀ st ∈ w.stages.reverse, ∀ e ∈ st, 0 ≤ e.cost := fun st hst =>
    stages_nonneg w st (List.mem_reverse.mp hst)
  have hc : c = 0 := le_antisymm (hmin p0 0 hp0) (hch.nonneg hnn)
  have hfree := hch.free hnn hc
  have hlen : p.length = w.mu.length + 1 := by
    rw [hch.length_eq, List.length_reverse]
    have hdraws : ∀ n idx, (w.drawStages n idx).length = n := by
      intro n
      induction n with
      | zero => exact fun _ => rfl
      | succ n ih => intro idx; simp [Links.drawStages, ih]
    have : 0 < w.mu.length := List.length_pos_iff.mpr hne
    simp only [Links.stages, List.length_append, List.length_cons, hdraws,
      List.length_nil, Links.dud]
    omega
  -- split the last stage off the free chain
  have hrev : w.stages.reverse =
      w.lastStage :: ((w.drawStages (w.dud - 1) (toSet w.starts)).reverse ++ [w.firstStage]) := by
    unfold Links.stages
    simp
  rw [hrev, List.map_cons, List.map_append, List.map_singleton] at hfree
  have hdraw : ∀ st ∈ (((w.drawStages (w.dud - 1) (toSet w.starts)).reverse.map
        fun st => st.filter fun e => decide (e.cost = 0)) ++
          [w.firstStage.filter fun e => decide (e.cost = 0)]).dropLast,
      ∀ e ∈ st, e.src < w.dud ∧ (e.dst = w.dud ∨ Before w key e.src e.dst) := by
    intro st hst e he
    rw [List.dropLast_concat] at hst
    obtain ⟨st', hst', rfl⟩ := List.mem_map.mp hst
    obtain ⟨idx, rfl⟩ := Links.mem_drawStages (List.mem_reverse.mp hst')
    obtain ⟨he1, he2⟩ := List.mem_filter.mp he
    exact h.drawStage_free he1 (of_decide_eq_true he2)
  obtain ⟨e, he, q, c', rfl, hch'⟩ := hfree.uncons (by simp)
  obtain ⟨he1, he2⟩ := List.mem_filter.mp he
  obtain ⟨k, hk, rfl⟩ := List.mem_map.mp he1
  have hklt : k < w.dud := by
    have hne' : k ≠ w.dud := by
      rintro rfl
      simp at he2
    rw [List.mem_range] at hk
    omega
  obtain ⟨hlt, hpw⟩ := descending (k :: q) (fun j hj => by rw [← Option.some.inj hj]; exact hklt)
    (hch'.isChain hdraw)
  refine ⟨(k :: q).reverse, hpath, ?_, fun j hj => hlt j (List.mem_reverse.mp hj),
    List.pairwise_reverse.mpr hpw⟩
  rw [List.length_reverse]
  simpa using hlen

end Follows

/-- A round that follows a side is the last, and puts the units in the side's order. -/
theorem rounds_follows {src : List MatchUnit} {key : MatchUnit → Int} {m : AssocMap Int Nat}
    {avail : List Int} (h : Follows (links src) key m avail) (fuel : Nat) :
    ∃ canon, rounds (fuel + 1) [] src = some (canon, []) ∧
    canon.Perm (src.filter fun unit => !unit.deleted) ∧
      canon.Pairwise fun u v => key u < key v := by
  by_cases hne : (links src).mu = []
  · have hnil : (src.filter fun unit => !unit.deleted) = [] := by rw [← links_mu, hne]
    obtain ⟨canon, rest, h1, -, h3⟩ := rounds_spec (fuel + 1) [] src (by rw [hnil]; simp)
    rw [hnil, List.append_nil] at h3
    obtain ⟨rfl, rfl⟩ := List.append_eq_nil_iff.mp h3.eq_nil
    exact ⟨[], h1, by rw [hnil], List.Pairwise.nil⟩
  · obtain ⟨ks, hpath, hlen, hlt, hpw⟩ := h.path_eq hne
    have hnodup : (ks.map Int.ofNat).Nodup := by
      refine List.Nodup.map (fun _ _ => Int.ofNat.inj) (hpw.imp ?_)
      rintro k k' ⟨u, u', hu, hu', hk⟩ rfl
      rw [hu] at hu'
      cases hu'
      exact absurd hk (lt_irrefl _)
    have hacc :
      acceptPath [((links src).dud : Int)] (ks.map Int.ofNat) = (ks.map Int.ofNat, true) := by
      refine acceptPath_of_nodup _ _ hnodup fun k hk hd => ?_
      obtain ⟨j, hj, rfl⟩ := List.mem_map.mp hk
      have : (j : Int) = ((links src).dud : Int) := List.mem_singleton.mp hd
      have := hlt j hj
      omega
    have hperm := accepted_perm h.ok hpath
    rw [hacc] at hperm
    simp only at hperm
    have htaken : (ks.map Int.ofNat).filterMap (fun k => (links src).mu[k.toNat]?) =
        ks.filterMap fun k => (links src).mu[k]? := by
      rw [List.filterMap_map]
      rfl
    have htlen : (ks.filterMap fun k => (links src).mu[k]?).length = (links src).mu.length := by
      rw [← hlen]
      have hsome : ∀ ks : List Nat, (∀ k ∈ ks, k < (links src).mu.length) →
          (ks.filterMap fun k => (links src).mu[k]?).length = ks.length := by
        intro ks
        induction ks with
        | nil => exact fun _ => rfl
        | cons k ks ih =>
          intro hk
          rw [List.filterMap_cons, List.getElem?_eq_getElem (hk k (by simp)), List.length_cons,
            List.length_cons, ih fun j hj => hk j (List.mem_cons_of_mem _ hj)]
      exact hsome ks hlt
    rw [htaken] at hperm
    have hrest : (((List.range (links src).mu.length).filter fun k : Nat =>
        decide ((k : Int) ∉ ks.map Int.ofNat)).filterMap fun k => (links src).mu[k]?) = [] := by
      have := hperm.length_eq
      rw [List.length_append, htlen] at this
      exact List.length_eq_zero_iff.mp (by omega)
    rw [hrest, List.append_nil, links_mu] at hperm
    refine ⟨ks.filterMap fun k => (links src).mu[k]?, ?_, by rw [links_mu]; exact hperm, ?_⟩
    · unfold rounds
      simp only [hpath, Option.bind_some, hacc, htaken, hrest]
      rw [if_neg (by simp), List.nil_append]
    · refine List.pairwise_filterMap.mpr (hpw.imp ?_)
      rintro k k' ⟨u, u', hu, hu', hk⟩ v hv v' hv'
      rw [hu] at hv
      rw [hu'] at hv'
      cases hv
      cases hv'
      exact hk

/-- The order pass of a merge whose units follow one side. -/
theorem orderPass_follows {accum : List MatchUnit} {key : MatchUnit → Int} {m : AssocMap Int Nat}
    {avail : List Int} (h : Follows (links accum) key m avail) {fuel : Nat} (hf : 0 < fuel) :
    ∃ canon, orderPass fuel accum = some (canon ++ accum.filter fun unit => unit.deleted) ∧
      canon.Perm (accum.filter fun unit => !unit.deleted) ∧ canon.Pairwise fun u v =>
      key u < key v := by
  obtain ⟨n, rfl⟩ : ∃ n, fuel = n + 1 := ⟨fuel - 1, by omega⟩
  obtain ⟨canon, h1, h2, h3⟩ := rounds_follows h n
  refine ⟨canon, ?_, h2, h3⟩
  unfold orderPass
  rw [h1]
  simp

/-! ## When the links follow a side -/

theorem keyAvail_head (key : MatchUnit → Int) (us : List MatchUnit)
    (hpos : ∀ u ∈ us, 0 ≤ key u) {a : Int}
    (ha : (keyAvail key us).head? = some a) : a = keyLowest key us ∧ 0 ≤ a := by
  have hs := keySide key us
  have hmem : a ∈ keyAvail key us := List.mem_of_mem_head? ha
  obtain ⟨-, u, hu, rfl⟩ := (hs.mem_avail a).mp hmem
  have hne : us ≠ [] := by
    rintro rfl
    simp at hu
  obtain ⟨⟨v, hv, hve⟩, hle⟩ := keyLowest_spec key us hpos hne
  have hv0 := hpos v hv
  have hvm : key v ∈ keyAvail key us := (hs.mem_avail _).mpr ⟨by omega, v, hv, rfl⟩
  have hle' : key u ≤ key v := by
    cases hav : keyAvail key us with
    | nil => rw [hav] at hmem; simp at hmem
    | cons b bs =>
      have hsorted := hs.sorted
      rw [hav] at ha hsorted hvm
      obtain rfl : b = key u := by simpa using ha
      rcases List.mem_cons.mp hvm with h | h
      · exact h.ge
      · exact ((List.pairwise_cons.mp hsorted).1 _ h).le
  have := hle u hu
  exact ⟨by omega, hpos u hu⟩

section
variable {accum us : List MatchUnit} (hus : (accum.filter fun unit => !unit.deleted) = us)

include hus in
theorem lnext_eq (u : MatchUnit) : (links accum).lnext u =
    safeNext (keyMap MatchUnit.localUnit us)
    (nextAvail (keyAvail MatchUnit.localUnit us) u.localUnit) us.length := by
  unfold Links.lnext Links.dud
  rw [links_eq, hus]

include hus in
theorem rnext_eq (u : MatchUnit) : (links accum).rnext u =
    safeNext (keyMap MatchUnit.remoteUnit us)
    (nextAvail (keyAvail MatchUnit.remoteUnit us) u.remoteUnit) us.length := by
  unfold Links.rnext Links.dud
  rw [links_eq, hus]

include hus in
theorem pnext_eq (u : MatchUnit) : (links accum).pnext u =
    safeNext (keyMap MatchUnit.pivotUnit us)
    (nextAvail (keyAvail MatchUnit.pivotUnit us) u.pivotUnit) us.length := by
  unfold Links.pnext Links.dud
  rw [links_eq, hus]

include hus in
/-- Links that lead to the next unit on the local or the remote side follow that side. -/
theorem follows_of_nexts {key : MatchUnit → Int} (hkey : key = MatchUnit.localUnit ∨
    key = MatchUnit.remoteUnit)
    (hpos : ∀ u ∈ us, 0 ≤ key u) (hnd : (us.map key).Nodup)
    (hne : ∀ u ∈ us, (links accum).nexts u ≠ [])
    (hnext : ∀ u ∈ us, ∀ k ∈ (links accum).nexts u,
      k = safeNext (keyMap key us) (nextAvail (keyAvail key us) (key u)) us.length) :
    Follows (links accum) key (keyMap key us) (keyAvail key us) := by
  have hmu : (links accum).mu = us := by rw [links_mu, hus]
  refine ⟨links_ok accum, ?_, ?_, ?_, ?_, ?_, fun a ha => ?_⟩
  · rw [hmu]; exact keySide _ _
  · rw [hmu]; exact hpos
  · rw [hmu]; exact hnd
  · rw [hmu]; exact hne
  · unfold Links.dud
    rw [hmu]
    exact hnext
  · obtain ⟨hlow, h0⟩ := keyAvail_head _ us hpos ha
    obtain ⟨-, u, hu, rfl⟩ := ((keySide key us).mem_avail a).mp (List.mem_of_mem_head? ha)
    obtain ⟨k, hk⟩ := (keySide key us).get_mem u hu h0
    refine ⟨k, hk, ?_⟩
    unfold Links.starts
    rw [links_eq, hus]
    simp only
    rcases hkey with rfl | rfl
    · rw [← hlow, if_pos h0, hk]
      simp
    · rw [← hlow, if_pos h0, hk]
      simp

include hus in
/-- With the pivot and local sides alike, the links follow the remote. -/
theorem follows_remote (heq : ∀ u ∈ us, u.pivotUnit = u.localUnit)
    (hpos : ∀ u ∈ us, 0 ≤ u.remoteUnit) (hnd : (us.map MatchUnit.remoteUnit).Nodup) :
    Follows (links accum) MatchUnit.remoteUnit (keyMap MatchUnit.remoteUnit us)
    (keyAvail MatchUnit.remoteUnit us) := by
  have hnexts : ∀ u ∈ us, (links accum).nexts u = [(links accum).rnext u] := by
    intro u hu
    have hlp : (links accum).lnext u = (links accum).pnext u := by
      rw [lnext_eq hus, pnext_eq hus, keyMap_congr heq, keyAvail_congr heq, heq u hu]
    have hr : u.remoteUnit ≠ -1 := by have := hpos u hu; omega
    unfold Links.nexts
    rw [if_neg (fun hh => hr hh.2), if_neg hr, hlp]
    split
    · rfl
    · by_cases hrp : (links accum).rnext u = (links accum).pnext u <;> simp [hrp]
  refine follows_of_nexts hus (Or.inr rfl) hpos hnd (fun u hu => ?_) fun u hu k hk => ?_
  · rw [hnexts u hu]; simp
  · rw [hnexts u hu, List.mem_singleton] at hk
    rw [hk, rnext_eq hus]

include hus in
/-- With the pivot and remote sides alike, the links follow the local. -/
theorem follows_local (heq : ∀ u ∈ us, u.pivotUnit = u.remoteUnit)
    (hpos : ∀ u ∈ us, 0 ≤ u.localUnit) (hnd : (us.map MatchUnit.localUnit).Nodup) :
    Follows (links accum) MatchUnit.localUnit (keyMap MatchUnit.localUnit us)
    (keyAvail MatchUnit.localUnit us) := by
  have hnexts : ∀ u ∈ us, (links accum).nexts u = [(links accum).lnext u] := by
    intro u hu
    have hrp : (links accum).rnext u = (links accum).pnext u := by
      rw [rnext_eq hus, pnext_eq hus, keyMap_congr heq, keyAvail_congr heq, heq u hu]
    have hl : u.localUnit ≠ -1 := by have := hpos u hu; omega
    unfold Links.nexts
    rw [if_neg (fun hh => hl hh.1), if_neg hl, hrp]
    split
    · rfl
    · by_cases hlp : (links accum).lnext u = (links accum).pnext u <;> simp [hlp]
  refine follows_of_nexts hus (Or.inl rfl) hpos hnd (fun u hu => ?_) fun u hu k hk => ?_
  · rw [hnexts u hu]; simp
  · rw [hnexts u hu, List.mem_singleton] at hk
    rw [hk, lnext_eq hus]

include hus in
/-- With the local and remote sides alike, the links follow both. -/
theorem follows_agreeing (heq : ∀ u ∈ us, u.remoteUnit = u.localUnit)
    (hpos : ∀ u ∈ us, 0 ≤ u.localUnit) (hnd : (us.map MatchUnit.localUnit).Nodup) :
    Follows (links accum) MatchUnit.localUnit (keyMap MatchUnit.localUnit us)
    (keyAvail MatchUnit.localUnit us) := by
  have hrl : ∀ u ∈ us, (links accum).rnext u = (links accum).lnext u := fun u hu => by
    rw [rnext_eq hus, lnext_eq hus, keyMap_congr heq, keyAvail_congr heq, heq u hu]
  have hnexts : ∀ u ∈ us, (links accum).nexts u = [(links accum).lnext u] ∨
      (links accum).nexts u = [(links accum).lnext u, (links accum).lnext u] := by
    intro u hu
    have hl : u.localUnit ≠ -1 := by have := hpos u hu; omega
    have hr : u.remoteUnit ≠ -1 := by rw [heq u hu]; exact hl
    unfold Links.nexts
    rw [if_neg (fun hh => hl hh.1), if_neg hr, if_neg hl, hrl u hu]
    by_cases hlp : (links accum).lnext u = (links accum).pnext u <;> simp [hlp]
  refine follows_of_nexts hus (Or.inl rfl) hpos hnd (fun u hu => ?_) fun u hu k hk => ?_
  · rcases hnexts u hu with h | h <;> rw [h] <;> simp
  · have : k = (links accum).lnext u := by
      rcases hnexts u hu with h | h <;> rw [h] at hk <;> simpa using hk
    rw [this, lnext_eq hus]

end

/-! ## The law -/

section
variable {np nl nr : Nat}

/-- Two lists of the same units, both in the strict order of `key`, are equal. -/
theorem eq_of_perm_of_key {key : MatchUnit → Int} {us vs : List MatchUnit} (hp : us.Perm vs)
    (hu : us.Pairwise fun u v => key u < key v) (hv : vs.Pairwise fun u v => key u < key v) :
    us = vs :=
  hp.eq_of_pairwise (fun _ _ _ _ h h' => absurd h (lt_asymm h')) hu hv

theorem filter_deleted_sweepFrom (ML : Matching np nl) (MR : Matching np nr) (ks : List Nat) : ∀ br,
    ((sweepFrom ML MR ks br).filter fun unit => unit.deleted) =
      (ks.map (unitAt ML MR)).filter fun unit => unit.deleted := by
  have hins : ∀ lo hi, ((insertsIn MR lo hi).filter fun unit => unit.deleted) = [] := by
    intro lo hi
    rw [List.filter_eq_nil_iff]
    intro u hu
    obtain ⟨r, -, -, -, rfl⟩ := mem_insertsIn.mp hu
    simp [insertUnit]
  induction ks with
  | nil => exact fun br => hins br nr
  | cons k ks ih =>
    intro br
    unfold sweepFrom
    cases partner ML MR k with
    | none => rw [List.map_cons, List.filter_cons, List.filter_cons, ih]
    | some r =>
      rw [List.filter_append, hins, List.nil_append, List.map_cons, List.filter_cons,
        List.filter_cons, ih]

/-! ### Local = pivot -/

/-- The unit of a remote index when local is the pivot. -/
def remoteUnitAt (M : Matching np nr) (r : Nat) : MatchUnit :=
  match M.bwd r with
  | some p => ⟨p, p, r, false, .preserve⟩
  | none => insertUnit r

def remoteUnits (M : Matching np nr) : List MatchUnit := (List.range nr).map (remoteUnitAt M)

/-- The units of the pivot indices that the remote dropped. -/
def deletedUnits (M : Matching np nr) : List MatchUnit :=
  ((List.range np).filter fun p => (M.fwd p).isNone).map fun p : Nat => ⟨p, p, -1, true, .delete⟩

@[simp] theorem remoteUnitAt_deleted (M : Matching np nr) (r : Nat) :
    (remoteUnitAt M r).deleted = false := by
  unfold remoteUnitAt
  split <;> rfl

@[simp] theorem remoteUnitAt_remoteUnit (M : Matching np nr) (r : Nat) :
    (remoteUnitAt M r).remoteUnit = r := by
  unfold remoteUnitAt
  split <;> rfl

theorem remoteUnitAt_sides (M : Matching np nr) (r : Nat) :
    (remoteUnitAt M r).pivotUnit = (remoteUnitAt M r).localUnit := by
  unfold remoteUnitAt
  split <;> rfl

theorem unitAt_identity (M : Matching np nr) {k : Nat} (hk : k < np) :
    unitAt (Matching.identity np) M k =
      match M.fwd k with
      | none => ⟨k, k, -1, true, .delete⟩
      | some r => ⟨k, k, r, false, .preserve⟩ := by
  have hb : (Matching.identity np).bwd k = some k := by rw [Matching.identity_bwd, if_pos hk]
  cases hf : M.fwd k <;> simp only [unitAt, hb, hf]

theorem remoteUnits_pairwise (M : Matching np nr) :
    (remoteUnits M).Pairwise fun u v => u.remoteUnit < v.remoteUnit := by
  unfold remoteUnits
  refine List.pairwise_map.mpr (List.pairwise_lt_range.imp fun h => ?_)
  simp only [remoteUnitAt_remoteUnit]
  omega

/-- The units a sweep from the pivot keeps are those of the remote indices. -/
theorem sweptUnits_identity_perm (M : Matching np nr) :
    ((sweptUnits (Matching.identity np) M).filter fun unit => !unit.deleted).Perm
      (remoteUnits M) := by
  have hnd := (sweptUnits_nodup (Matching.identity np) M).filter fun unit => !unit.deleted
  have hnd' : (remoteUnits M).Nodup := (remoteUnits_pairwise M).imp fun h he => by
    rw [he] at h; omega
  refine (List.perm_ext_iff_of_nodup hnd hnd').mpr fun u => ?_
  simp only [sweptUnits, remoteUnits, List.mem_filter, List.mem_append, List.mem_map,
    List.mem_range, mem_insertsIn, Bool.not_eq_true']
  constructor
  · rintro ⟨⟨k, hk, rfl⟩ | ⟨r, -, hr, hb, rfl⟩, hd⟩
    · rw [unitAt_identity M hk] at hd ⊢
      cases hf : M.fwd k with
      | none => rw [hf] at hd; cases hd
      | some r =>
        refine ⟨r, (M.fwd_lt hf).2, ?_⟩
        unfold remoteUnitAt
        rw [(M.fwd_eq_some_iff k r).mp hf]
    · refine ⟨r, hr, ?_⟩
      unfold remoteUnitAt
      rw [hb]
  · rintro ⟨r, hr, rfl⟩
    refine ⟨?_, remoteUnitAt_deleted M r⟩
    unfold remoteUnitAt
    cases hb : M.bwd r with
    | none => exact Or.inr ⟨r, Nat.zero_le _, hr, hb, rfl⟩
    | some p =>
      left
      have hf := (M.fwd_eq_some_iff p r).mpr hb
      have hp := (M.fwd_lt hf).1
      exact ⟨p, hp, by rw [unitAt_identity M hp, hf]⟩

theorem filter_deleted_identity (M : Matching np nr) (br : Nat) :
    ((sweepFrom (Matching.identity np) M (List.range np) br).filter fun unit => unit.deleted) =
    deletedUnits M := by
  rw [filter_deleted_sweepFrom]
  unfold deletedUnits
  have key : ∀ ks : List Nat, (∀ k ∈ ks, k < np) →
      ((ks.map (unitAt (Matching.identity np) M)).filter fun unit => unit.deleted) =
        (ks.filter fun p => (M.fwd p).isNone).map fun p : Nat => ⟨p, p, -1, true, .delete⟩ := by
    intro ks
    induction ks with
    | nil => exact fun _ => rfl
    | cons k ks ih =>
      intro hks
      have := ih fun j hj => hks j (List.mem_cons_of_mem _ hj)
      rw [List.map_cons, unitAt_identity M (hks k (by simp))]
      cases hf : M.fwd k with
      | none => simp [hf, this]
      | some r => simp [hf, this]
  exact key _ fun k hk => List.mem_range.mp hk

/-- **Local = pivot.**  The kept units are those of the remote, in its order. -/
theorem orderPass_identity_local (M : Matching np nr) {fuel : Nat} (hf : 0 < fuel) :
    orderPass fuel (sweepFrom (Matching.identity np) M (List.range np) 0) =
      some (remoteUnits M ++ deletedUnits M) := by
  have hperm :
    ((sweepFrom (Matching.identity np) M (List.range np) 0).filter fun unit => !unit.deleted).Perm
      (remoteUnits M) :=
    ((sweepFrom_perm (List.range np) 0 (Nat.zero_le _)).filter _).trans (sweptUnits_identity_perm M)
  have hall :
    ∀ u ∈ (sweepFrom (Matching.identity np) M (List.range np) 0).filter fun unit => !unit.deleted,
      ∃ r, u = remoteUnitAt M r := by
    intro u hu
    obtain ⟨r, -, rfl⟩ := List.mem_map.mp (hperm.subset hu)
    exact ⟨r, rfl⟩
  have hfol := follows_remote rfl
    (fun u hu => by obtain ⟨r, rfl⟩ := hall u hu; exact remoteUnitAt_sides M r)
    (fun u hu => by obtain ⟨r, rfl⟩ := hall u hu; rw [remoteUnitAt_remoteUnit]; omega)
    ((hperm.map _).nodup_iff.mpr
      (List.pairwise_map.mpr ((remoteUnits_pairwise M).imp fun h => h.ne)))
  obtain ⟨canon, h1, h2, h3⟩ := orderPass_follows hfol hf
  rw [h1, filter_deleted_identity, eq_of_perm_of_key (h2.trans hperm) h3 (remoteUnits_pairwise M)]

/-! ### Units along the local indices -/

theorem map_unitAt_pairwise (ML : Matching np nl) (MR : Matching np nr) :
    ((List.range nl).map (unitAt ML MR)).Pairwise fun u v => u.localUnit < v.localUnit := by
  refine List.pairwise_map.mpr (List.pairwise_lt_range.imp fun h => ?_)
  rw [unitAt_localUnit, unitAt_localUnit]
  omega

theorem map_unitAt_nonneg (ML : Matching np nl) (MR : Matching np nr) :
    ∀ u ∈ (List.range nl).map (unitAt ML MR), 0 ≤ u.localUnit := by
  intro u hu
  obtain ⟨k, -, rfl⟩ := List.mem_map.mp hu
  rw [unitAt_localUnit]
  omega

/-- Units whose links follow their order stay in it. -/
theorem orderPass_in_order {us : List MatchUnit} (hdel : ∀ u ∈ us, u.deleted = false)
    {key : MatchUnit → Int}
    {m : AssocMap Int Nat} {avail : List Int} (hfol : Follows (links us) key m avail)
    (hord : us.Pairwise fun u v => key u < key v) {fuel : Nat} (hf : 0 < fuel) :
    orderPass fuel us = some us := by
  have hself : (us.filter fun unit => !unit.deleted) = us :=
    List.filter_eq_self.mpr fun u hu => by rw [hdel u hu]; rfl
  have hnil : (us.filter fun unit => unit.deleted) = [] :=
    List.filter_eq_nil_iff.mpr fun u hu => by rw [hdel u hu]; simp
  obtain ⟨canon, h1, h2, h3⟩ := orderPass_follows hfol hf
  rw [hself] at h2
  rw [h1, hnil, List.append_nil, eq_of_perm_of_key h2 h3 hord]

/-! ### Remote = pivot -/

/-- A remote without additions: the sweep is along the local indices. -/
theorem sweepFrom_matched (ML : Matching np nl) (MR : Matching np nr)
    (h : ∀ r < nr, MR.bwd r ≠ none) (ks : List Nat) :
    ∀ br, sweepFrom ML MR ks br = ks.map (unitAt ML MR) := by
  have hins : ∀ lo hi, hi ≤ nr → insertsIn MR lo hi = [] := by
    intro lo hi hle
    rw [List.eq_nil_iff_forall_not_mem]
    intro u hu
    obtain ⟨r, -, hr, hb, -⟩ := mem_insertsIn.mp hu
    exact h r (by omega) hb
  induction ks with
  | nil => exact fun br => hins br nr (le_refl _)
  | cons k ks ih =>
    intro br
    unfold sweepFrom
    cases hp : partner ML MR k with
    | none => rw [List.map_cons, ih]
    | some r =>
      simp only
      rw [hins br r (partner_lt hp).le, List.nil_append, List.map_cons, ih]

theorem identity_matched (n : Nat) : ∀ r < n, (Matching.identity n).bwd r ≠ none := by
  intro r hr h
  rw [Matching.identity_bwd, if_pos hr] at h
  cases h

theorem unitAt_identity_remote (M : Matching np nl) (k : Nat) :
    unitAt M (Matching.identity np) k =
      match M.bwd k with
      | none => ⟨-1, k, -1, false, .preserve⟩
      | some p => ⟨p, k, p, false, .preserve⟩ := by
  unfold unitAt
  cases hb : M.bwd k with
  | none => rfl
  | some p =>
    simp only
    rw [Matching.identity_fwd, if_pos (M.bwd_lt hb).1]

/-- The units of the local indices when the remote is the pivot. -/
def localUnits (M : Matching np nl) : List MatchUnit :=
  (List.range nl).map (unitAt M (Matching.identity np))

theorem localUnits_deleted (M : Matching np nl) : ∀ u ∈ localUnits M, u.deleted = false := by
  intro u hu
  obtain ⟨k, -, rfl⟩ := List.mem_map.mp hu
  rw [unitAt_identity_remote]
  split <;> rfl

theorem localUnits_sides (M : Matching np nl) : ∀ u ∈ localUnits M, u.pivotUnit = u.remoteUnit := by
  intro u hu
  obtain ⟨k, -, rfl⟩ := List.mem_map.mp hu
  rw [unitAt_identity_remote]
  split <;> rfl

/-- **Remote = pivot.**  The units are those of the local indices, in order. -/
theorem orderPass_identity_remote (M : Matching np nl) {fuel : Nat} (hf : 0 < fuel) :
    orderPass fuel (localUnits M) = some (localUnits M) := by
  have hself : ((localUnits M).filter fun unit => !unit.deleted) = localUnits M :=
    List.filter_eq_self.mpr fun u hu => by rw [localUnits_deleted M u hu]; rfl
  have hord := map_unitAt_pairwise M (Matching.identity np)
  have hfol := follows_local hself (localUnits_sides M) (map_unitAt_nonneg M _)
    (List.pairwise_map.mpr (hord.imp fun h => h.ne))
  exact orderPass_in_order (localUnits_deleted M) hfol hord hf

/-! ### Local = remote -/

/-- The units of the local indices when the remote did the same as local. -/
def agreedUnits (M : Matching np nl) : List MatchUnit := (List.range nl).map (unitAt M M)

theorem unitAt_agreed (M : Matching np nl) (k : Nat) :
    unitAt M M k =
      match M.bwd k with
      | none => ⟨-1, k, -1, false, .preserve⟩
      | some p => ⟨p, k, k, false, .preserve⟩ := by
  unfold unitAt
  cases hb : M.bwd k with
  | none => rfl
  | some p => simp only [(M.fwd_eq_some_iff p k).mpr hb]

theorem agreedUnits_deleted (M : Matching np nl) : ∀ u ∈ agreedUnits M, u.deleted = false := by
  intro u hu
  obtain ⟨k, -, rfl⟩ := List.mem_map.mp hu
  rw [unitAt_agreed]
  split <;> rfl

/-- **Local = remote.**  If neither side added anything, the units stand in their common order. -/
theorem orderPass_agreed (M : Matching np nl) (h : ∀ l < nl, M.bwd l ≠ none) {fuel : Nat}
    (hf : 0 < fuel) : orderPass fuel (agreedUnits M) = some (agreedUnits M) := by
  have hself : ((agreedUnits M).filter fun unit => !unit.deleted) = agreedUnits M :=
    List.filter_eq_self.mpr fun u hu => by rw [agreedUnits_deleted M u hu]; rfl
  have hsides : ∀ u ∈ agreedUnits M, u.remoteUnit = u.localUnit := by
    intro u hu
    obtain ⟨k, hk, rfl⟩ := List.mem_map.mp hu
    rw [unitAt_agreed]
    cases hb : M.bwd k with
    | none => exact absurd hb (h k (List.mem_range.mp hk))
    | some p => rfl
  have hord := map_unitAt_pairwise M M
  have hfol :=
    follows_agreeing hself hsides (map_unitAt_nonneg M M)
    (List.pairwise_map.mpr (hord.imp fun h => h.ne))
  exact orderPass_in_order (agreedUnits_deleted M) hfol hord hf

/-! ### The merge -/

section
variable {flags : CompareFlags} (hh : flags.headTrimmed = false) (ht : flags.tailTrimmed = false)

include hh ht in
theorem merge_identity_local (M : Matching np nr) {columnar : Bool}
    (ho : (flags.useOrder || columnar) = true) {fuel : Nat} (hf : np + nr + 1 ≤ fuel) :
    merge fuel (Matching.identity np).toOrderResult M.toOrderResult flags columnar =
      some ⟨remoteUnits M ++ deletedUnits M, countOverlap (remoteUnits M ++ deletedUnits M)⟩ := by
  have hf' : enough (Matching.identity np).toOrderResult M.toOrderResult ≤ fuel := by
    unfold enough
    rw [Matching.blen_toOrderResult, Matching.blen_toOrderResult]
    exact hf
  rw [merge_eq _ _ hh ht columnar hf', if_pos ho, orderPass_identity_local M (by omega)]
  rfl

include hh ht in
theorem merge_identity_remote (M : Matching np nl) (columnar : Bool) {fuel : Nat}
    (hf : nl + np + 1 ≤ fuel) :
    merge fuel M.toOrderResult (Matching.identity np).toOrderResult flags columnar =
      some ⟨localUnits M, countOverlap (localUnits M)⟩ := by
  have hf' : enough M.toOrderResult (Matching.identity np).toOrderResult ≤ fuel := by
    unfold enough
    rw [Matching.blen_toOrderResult, Matching.blen_toOrderResult]
    exact hf
  rw [merge_eq _ _ hh ht columnar hf', sweepFrom_matched _ _ (identity_matched np)]
  show Option.map _ (if flags.useOrder || columnar then orderPass fuel (localUnits M)
    else some (localUnits M)) = _
  rw [orderPass_identity_remote M (by omega), ite_self]
  rfl

include hh ht in
theorem merge_agreed (M : Matching np nl) (h : ∀ l < nl, M.bwd l ≠ none)
    (columnar : Bool) {fuel : Nat} (hf : nl + nl + 1 ≤ fuel) :
    merge fuel M.toOrderResult M.toOrderResult flags columnar =
      some ⟨agreedUnits M, countOverlap (agreedUnits M)⟩ := by
  have hf' : enough M.toOrderResult M.toOrderResult ≤ fuel := by
    unfold enough
    rw [Matching.blen_toOrderResult]
    exact hf
  rw [merge_eq _ _ hh ht columnar hf', sweepFrom_matched _ _ h]
  show Option.map _ (if flags.useOrder || columnar then orderPass fuel (agreedUnits M)
    else some (agreedUnits M)) = _
  rw [orderPass_agreed M h (by omega), ite_self]
  rfl

end

/-- **The one-sided order law.**  Whatever the other side did: with local the pivot, the
kept units stand in remote order; with the remote the pivot, in local order. -/
theorem merge_one_sided_order {n : Nat} (M : Matching np n) (flags : CompareFlags) (columnar : Bool)
    (hh : flags.headTrimmed = false) (ht : flags.tailTrimmed = false)
    (ho : flags.useOrder = true ∨ columnar = true) (fuel : Nat) (hf : np + n + 1 ≤ fuel) :
    (∃ om, merge fuel (Matching.identity np).toOrderResult M.toOrderResult flags columnar =
      some om ∧ (∀ u ∈ om.accum, u.deleted = false → 0 ≤ u.remoteUnit) ∧
      (om.accum.filter fun u => !u.deleted).Pairwise fun u v => u.remoteUnit < v.remoteUnit) ∧
    (∃ om, merge fuel M.toOrderResult (Matching.identity np).toOrderResult flags columnar =
      some om ∧ (∀ u ∈ om.accum, u.deleted = false → 0 ≤ u.localUnit) ∧
      (om.accum.filter fun u => !u.deleted).Pairwise fun u v => u.localUnit < v.localUnit) := by
  constructor
  · refine ⟨_, merge_identity_local hh ht M (by simpa using ho) hf, fun u hu hd => ?_, ?_⟩
    · rcases List.mem_append.mp hu with hu | hu
      · obtain ⟨r, -, rfl⟩ := List.mem_map.mp hu
        rw [remoteUnitAt_remoteUnit]
        omega
      · obtain ⟨p, -, rfl⟩ := List.mem_map.mp hu
        cases hd
    · have hkeep : ((remoteUnits M).filter fun u => !u.deleted) = remoteUnits M := by
        refine List.filter_eq_self.mpr fun u hu => ?_
        obtain ⟨r, -, rfl⟩ := List.mem_map.mp hu
        simp
      have hdrop : ((deletedUnits M).filter fun u => !u.deleted) = [] := by
        refine List.filter_eq_nil_iff.mpr fun u hu => ?_
        obtain ⟨p, -, rfl⟩ := List.mem_map.mp hu
        simp
      rw [List.filter_append, hkeep, hdrop, List.append_nil]
      exact remoteUnits_pairwise M
  · refine ⟨_, merge_identity_remote hh ht M columnar (by omega), fun u hu _ =>
      map_unitAt_nonneg M _ u hu, ?_⟩
    exact (map_unitAt_pairwise M _).sublist List.filter_sublist

theorem merge_one_sided_order_keepSecond :
    (∃ om, merge 5 (Matching.identity 2).toOrderResult keepSecond.toOrderResult {} false = some om ∧
      (∀ u ∈ om.accum, u.deleted = false → 0 ≤ u.remoteUnit) ∧
      (om.accum.filter fun u => !u.deleted).Pairwise fun u v => u.remoteUnit < v.remoteUnit) ∧
    (∃ om, merge 5 keepSecond.toOrderResult (Matching.identity 2).toOrderResult {} false = some om ∧
      (∀ u ∈ om.accum, u.deleted = false → 0 ≤ u.localUnit) ∧
      (om.accum.filter fun u => !u.deleted).Pairwise fun u v => u.localUnit < v.localUnit) :=
  merge_one_sided_order keepSecond {} false rfl rfl (Or.inl rfl) 5 (by decide)

end

end OrderMerge

end Coopy
