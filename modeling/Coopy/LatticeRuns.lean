import Coopy.Lib.Containers
import Coopy.Lib.Rounding
import Coopy.Viterbi
import Mathlib.Algebra.Order.Ring.Rat
import Mathlib.Data.List.GetD

/-!
# What a lattice run reads

A run feeds stages to a lattice and then reads `getCost` and `getPath`.  On a freshly sized lattice
that is a path of least cost.  `reset` takes the stage back to the first one and leaves `cost` and
`src` as they are, so a run after it goes over the layers of the run before.

    a fresh run reads the cost and the end states of a cheapest path         (read_cheapest_path)
    a second run reads what a fresh one reads ↔ no leftover comes before     (reset_read_iff)
-/

namespace Coopy.Viterbi

open Lib Lib.Rounding Lib.Trellis

/-- The stages of a run over the states below `K`. -/
structure Feed (κ : Type) (K : Nat) where
  stages : List (Stage κ)
  below : ∀ st ∈ stages, ∀ e ∈ st, e.src < K ∧ e.dst < K

/-- A feed with a path through all its stages. -/
structure PassableFeed (κ : Type) (K : Nat) extends Feed κ K where
  passable : ∃ es, IsPath stages es

section
variable {κ : Type} [AddZeroClass κ] [LinearOrder κ]

/-- The run on a freshly sized lattice. -/
def alone {K : Nat} (T : Nat) (f : Feed κ K) : Viterbi κ := runStages (setSize fresh K T) f.stages

variable {K : Nat} {old : Leftovers κ} {rs : List (Stage κ)} {v : Viterbi κ}

/-! ## Reading a run -/

/-- The path sheet holds the states of the way back. -/
theorem mapM_getPath {c : κ} {p : SparseSheet Int} {q : List Nat} (hlen : q.length = v.index)
    (hp : ∀ i, i < v.index → p.cell 0 i = (q.getD (v.index - 1 - i) 0 : Nat)) :
    ((List.range v.index).mapM fun i =>
      ((getPath { v with bestCost := c, path := p, pathValid := true } i).map Prod.snd)) =
        some (q.reverse.map Nat.cast) := by
  have hget : ∀ i ∈ List.range v.index,
      ((getPath { v with bestCost := c, path := p, pathValid := true } i).map Prod.snd) =
        some ((q.reverse.getD i 0 : Nat) : Int) := by
    intro i hi
    have hlt : i < v.index := List.mem_range.1 hi
    have hrev : q.reverse.getD i 0 = q.getD (v.index - 1 - i) 0 := by
      rw [List.getD_eq_getElem?_getD, List.getD_eq_getElem?_getD,
        List.getElem?_reverse (by omega), hlen]
    unfold getPath calculatePath
    rw [if_pos rfl, Option.bind_some, if_pos hlt, Option.map_some, hp i hlt, hrev]
  rw [mapM_eq_some_map hget]
  refine congrArg some (List.ext_getElem (by simp [hlen]) fun i h₁ h₂ => ?_)
  have hi : i < q.reverse.length := by simpa using h₂
  rw [List.getElem_map, List.getElem_map, List.getElem_range, List.getD_eq_getElem _ _ hi]

/-- A run is read as the cheapest state of its last stage and the way back from it. -/
theorem Ready.read_eq (h : Ready K old rs v) (hrs : rs ≠ []) :
    v.read = (cheapest (cellsOver old rs) K).map fun x =>
    (x.1, (traceOver old rs x.2).reverse.map Nat.cast) := by
  have hidx : v.index = rs.length := h.filled.index
  cases hend : cheapest (cellsOver old rs) K with
  | none =>
    unfold read getCost
    rw [h.calculatePath_none hrs hend]
    rfl
  | some x =>
    obtain ⟨p, hcalc, -, hp⟩ := h.calculatePath_some hrs (c := x.1) (j := x.2) hend
    obtain ⟨⟨-, a, ha⟩, -⟩ := cheapest_eq_some_iff.1 hend
    have hlen := length_traceOver h.backed rs h.sources ha
    have hpath :=
      mapM_getPath (c := x.1) (v := v) (hlen.trans hidx.symm)
      (fun i hi => by rw [hp i (hidx ▸ hi), hidx])
    have hlength : length { v with bestCost := x.1, path := p, pathValid := true } =
        some ({ v with bestCost := x.1, path := p, pathValid := true }, v.index) := by
      unfold length calculatePath
      rw [if_pos rfl]
      exact ite_self _
    unfold read getCost
    rw [hcalc, Option.map_some, Option.bind_some]
    show (length { v with bestCost := x.1, path := p, pathValid := true }).bind _ = _
    rw [hlength, Option.bind_some]
    exact congrArg (Option.map fun p => (x.1, p)) hpath

theorem read_reset (v : Viterbi κ) : (reset v).read = some (0, []) := rfl

theorem ready_alone (T : Nat) (f : Feed κ K) :
    Ready K (fun _ _ => none) f.stages.reverse (alone T f) :=
  ready_fresh K T fresh f.stages f.below

/-! ## A run after a reset -/

/-- The layers that the run of `A` leaves in `cost` and `src`. -/
def leftBy (A : List (Stage κ)) : Leftovers κ :=
  fun i => if i < A.length then cells (A.take (i + 1)).reverse else fun _ => none

/-- Nothing that the run of `A` left comes before the cheapest chain through `B`. -/
structure Unspoilt (K : Nat) (A B : List (Stage κ)) : Prop where
  ends : EndsBehind (leftBy A) B.reverse K
  back : ∀ c j, cheapest (cells B.reverse) K = some (c, j) → Undisturbed (leftBy A) B.reverse j

theorem cells_lt {st : Stage κ} {rs : List (Stage κ)} (hst : ∀ e ∈ st, e.dst < K)
    {s : Nat} {x : κ × Nat} (h : cells (st :: rs) s = some x) : s < K := by
  rw [← cellsOver_nothing] at h
  rcases mem_ways.1 (mem_ways_of_cellsOver h) with hleft | ⟨e, he, rfl, -⟩
  · cases hleft
  · exact hst e he

theorem leftBy_eq {A : List (Stage κ)} {i : Nat} (hi : i < A.length) :
    leftBy A i = cells (A[i] :: (A.take i).reverse) := by
  rw [leftBy, if_pos hi, List.take_succ_eq_append_getElem hi, List.reverse_append]
  rfl

theorem lt_length_of_leftBy {A : List (Stage κ)} {i s : Nat} {x : κ × Nat}
    (h : leftBy A i s = some x) : i < A.length := by
  by_contra hge
  rw [leftBy, if_neg hge] at h
  cases h

theorem leftBy_lt (f : Feed κ K) {i s : Nat} {x : κ × Nat}
    (h : leftBy f.stages i s = some x) : s < K := by
  have hi := lt_length_of_leftBy h
  rw [leftBy_eq hi] at h
  exact cells_lt (fun e he => (f.below _ (List.getElem_mem hi) e he).2) h

theorem backed_leftBy (f : Feed κ K) : Backed (leftBy f.stages) K := by
  intro i s c a h
  have hi := lt_length_of_leftBy h
  have hi' : i < f.stages.length := by omega
  rw [leftBy_eq hi, List.take_succ_eq_append_getElem hi', List.reverse_append] at h
  rw [leftBy_eq hi']
  rw [← cellsOver_nothing] at h ⊢
  exact cellsOver_back (fun _ _ _ _ hold => by cases hold)
    (fun e he => (f.below _ (List.getElem_mem hi) e he).1) h

/-- A continued leftover stays among the states of the two runs. -/
theorem Resumed.lt {A B : List (Stage κ)} (hleft : ∀ i s x, leftBy A i s = some x → s < K)
    (hB : ∀ st ∈ B, ∀ e ∈ st, e.dst < K) {s : Nat} {c : κ} (h : Resumed (leftBy A) B s c) :
    s < K := by
  cases h with
  | left h => exact hleft _ _ _ h
  | cons _ he => exact hB _ List.mem_cons_self _ he

/-- `reset` after a run leaves the layers of that run. -/
theorem filled_reset {T : Nat} {f : Feed κ K} {p : SparseSheet Int} (hp : p.w = 1) (c : κ) :
    Filled K (leftBy f.stages) [] (leftBy f.stages 0)
      (reset { alone T f with bestCost := c, path := p, pathValid := true }) := by
  have h := (ready_alone T f).filled
  have hrow :
    ∀ i, EncodesRow (reset { alone T f with bestCost := c, path := p, pathValid := true }) i
      (leftBy f.stages i) := by
    intro i s hs
    by_cases hi : i < f.stages.length
    · have hdrop :
        f.stages.reverse.drop (f.stages.reverse.length - 1 - i) =
        (f.stages.take (i + 1)).reverse := by
        rw [List.drop_reverse, List.length_reverse]
        congr 2
        omega
      have hdone := h.done i (by simpa using hi) s hs
      rw [hdrop, cellsOver_nothing] at hdone
      rw [leftBy, if_pos hi]
      exact hdone
    · rw [leftBy, if_neg hi]
      rcases Nat.lt_or_eq_of_le (not_lt.1 hi) with hlt | rfl
      · exact h.later i (by simpa using hlt) s hs
      · have hcur := h.current s hs
        rw [List.length_reverse] at hcur
        exact hcur
  exact ⟨h.states, h.cost_w, h.src_w, hp, h.cost_zero, h.src_zero, rfl,
    fun i hi => absurd hi (Nat.not_lt_zero i), hrow 0, fun i _ => hrow i⟩

theorem ready_reset {T : Nat} {A : Feed κ K} {p : SparseSheet Int} (hp : p.w = 1) (c : κ)
    (B : Feed κ K) : Ready K (leftBy A.stages) B.stages.reverse
      (runStages (reset { alone T A with bestCost := c, path := p, pathValid := true })
        B.stages) := by
  obtain ⟨hm, hv⟩ :=
    runStages_idle B.stages (reset { alone T A with bestCost := c, path := p, pathValid := true })
    rfl rfl
  have hf := (filled_reset (T := T) (f := A) hp c).runStages B.stages B.below
  rw [List.append_nil] at hf
  exact ⟨hf, hm, hv, fun st hs e he => (B.below st (List.mem_reverse.1 hs) e he).1, backed_leftBy A⟩

/-- Where there is a path, `calculatePath` finds its way and leaves the layers as they are. -/
theorem exists_calculatePath [AddLeftMono κ] (T : Nat) (f : PassableFeed κ K) :
    ∃ (c : κ) (p : SparseSheet Int), p.w = 1 ∧
    (alone T f.toFeed).calculatePath =
    some { alone T f.toFeed with bestCost := c, path := p, pathValid := true } := by
  by_cases hne : f.stages = []
  · refine ⟨0, (setSize (fresh : Viterbi κ) K T).path, rfl, ?_⟩
    unfold alone
    rw [hne]
    rfl
  · have hrs : f.stages.reverse ≠ [] := fun hr => hne (List.reverse_eq_nil_iff.1 hr)
    obtain ⟨es, hes⟩ := f.passable
    obtain ⟨c, j, hend, -⟩ := cheapest_of_chain
      (fun st hs e he => (f.below st (List.mem_reverse.1 hs) e he).2) ⟨_, _, hes.chain_reverse hne⟩
    rw [← cellsOver_nothing] at hend
    obtain ⟨p, hcalc, hp, -⟩ := (ready_alone T f.toFeed).calculatePath_some hrs hend
    exact ⟨c, p, hp, hcalc⟩

/-- Two ways back from the cheapest state are read alike. -/
theorem read_eq_iff [AddLeftMono κ] {rs : List (Stage κ)} (hrs : rs ≠ [])
    (hlt : ∀ s c, Resumed old rs s c → s < K) : ((cheapest (cellsOver old rs) K).map fun x =>
      (x.1, (traceOver old rs x.2).reverse.map (Nat.cast (R := Int)))) =
      ((cheapest (cells rs) K).map fun x =>
        (x.1, (trace rs x.2).reverse.map (Nat.cast (R := Int)))) ↔
    EndsBehind old rs K ∧ ∀ c j, cheapest (cells rs) K = some (c, j) → Undisturbed old rs j := by
  obtain ⟨st, rs, rfl⟩ := List.exists_cons_of_ne_nil hrs
  rw [← cheapest_eq_iff hlt]
  -- where the ends agree, so do the ways back unless a leftover comes before the chain
  have hback : ∀ c j, cheapest (cellsOver old (st :: rs)) K = some (c, j) →
    cheapest (cells (st :: rs)) K = some (c, j) →
      (traceOver old (st :: rs) j = trace (st :: rs) j ↔ Undisturbed old (st :: rs) j) := by
    intro c j hover hend
    obtain ⟨⟨-, a, ha⟩, -⟩ := cheapest_eq_some_iff.1 hover
    obtain ⟨⟨-, b, hb⟩, -⟩ := cheapest_eq_some_iff.1 hend
    exact traceOver_eq_iff (st :: rs) hb
  have hinj : ∀ p q : List Nat, p.reverse.map (Nat.cast (R := Int)) = q.reverse.map Nat.cast →
    p = q := fun p q h =>
    List.reverse_injective (List.map_injective_iff.2 Nat.cast_injective h)
  constructor
  · intro h
    cases hend : cheapest (cells (st :: rs)) K with
    | none =>
      rw [hend, Option.map_none, Option.map_eq_none_iff] at h
      exact ⟨h, fun c j hcj => by cases hcj⟩
    | some y =>
      rw [hend, Option.map_some] at h
      obtain ⟨x, hover, hxy⟩ := Option.map_eq_some_iff.1 h
      obtain ⟨hcost, hpath⟩ := Prod.ext_iff.1 hxy
      have hsame := hinj _ _ hpath
      have hhead := congrArg List.head? hsame
      rw [← traceOver_nothing, head?_traceOver, head?_traceOver] at hhead
      obtain rfl : x = y := Prod.ext hcost (Option.some.inj hhead)
      refine ⟨hover, fun c j hcj => ?_⟩
      obtain rfl : x = (c, j) := Option.some.inj hcj
      exact (hback c j hover hend).1 hsame
  · rintro ⟨hends, hun⟩
    rw [hends]
    cases hend : cheapest (cells (st :: rs)) K with
    | none => rfl
    | some y =>
      rw [Option.map_some, Option.map_some,
        (hback y.1 y.2 (hends.trans hend) hend).2 (hun y.1 y.2 hend)]

/-- A run after a reset reads what a fresh run reads if and only if nothing that the run before it
left comes before its cheapest chain. -/
theorem reset_read [AddLeftMono κ] (T : Nat) (A : PassableFeed κ K) (B : Feed κ K) :
    ∃ v, (alone T A.toFeed).calculatePath = some v ∧
      ((runStages (reset v) B.stages).read = (alone T B).read ↔ Unspoilt K A.stages B.stages) := by
  obtain ⟨c, p, hp, hcalc⟩ := exists_calculatePath T A
  refine ⟨_, hcalc, ?_⟩
  by_cases hne : B.stages = []
  · have hfresh : (alone T B).read = some (0, []) := by
      unfold alone
      rw [hne]
      exact read_reset _
    rw [hne, hfresh]
    refine iff_of_true (read_reset _) ⟨fun s c h => (by cases h), fun c j h => trivial⟩
  · have hrs : B.stages.reverse ≠ [] := fun hr => hne (List.reverse_eq_nil_iff.1 hr)
    have hlt : ∀ s c, Resumed (leftBy A.stages) B.stages.reverse s c → s < K := fun s c h =>
      Resumed.lt (fun i s x => leftBy_lt A.toFeed)
        (fun st hs e he => (B.below st (List.mem_reverse.1 hs) e he).2) h
    rw [(ready_reset hp c B).read_eq hrs, (ready_alone T B).read_eq hrs, cellsOver_nothing]
    simp only [traceOver_nothing]
    rw [read_eq_iff hrs hlt]
    exact ⟨fun h => ⟨h.1, h.2⟩, fun h => ⟨h.ends, h.back⟩⟩

end

/-- **A run on a freshly sized lattice** reads the cost and the end states of a cheapest path. -/
theorem read_cheapest_path {K : Nat} (T : Nat) (f : PassableFeed ℚ K) : ∃ es, IsPath f.stages es ∧
    (∀ es', IsPath f.stages es' → pathCost es ≤ pathCost es') ∧
    (alone T f.toFeed).read = some (pathCost es, es.map fun e => (e.dst : Int)) := by
  by_cases hne : f.stages = []
  · have hnil : IsPath f.stages [] := by
      rw [hne]
      exact ⟨.nil, .nil⟩
    refine ⟨[], hnil, fun es' h' => ?_, ?_⟩
    · have hes : es' = [] := List.forall₂_nil_right_iff.1 (hne ▸ h'.edges)
      rw [hes]
    · unfold alone
      rw [hne]
      exact read_reset _
  · have hrs : f.stages.reverse ≠ [] := fun hr => hne (List.reverse_eq_nil_iff.1 hr)
    have hdst : ∀ st ∈ f.stages.reverse, ∀ e ∈ st, e.dst < K :=
      fun st hs e he => (f.below st (List.mem_reverse.1 hs) e he).2
    obtain ⟨es₀, h₀⟩ := f.passable
    obtain ⟨c, j, hend, hch, hmin⟩ := cheapest_of_chain hdst ⟨_, _, h₀.chain hne⟩
    obtain ⟨es, hes, htrace, hcost⟩ := exists_path_of_chain hch
    refine ⟨es, hes, fun es' h' => ?_, ?_⟩
    · rw [hcost]
      exact hmin _ _ (h'.chain hne)
    · rw [(ready_alone T f.toFeed).read_eq hrs, cellsOver_nothing, hend, Option.map_some,
        traceOver_nothing, hcost, ← htrace, List.map_map]
      rfl

/-- Two stages, where the way on from the dearer state is the cheaper one. -/
def detour : PassableFeed ℚ 2 where
  stages := [[⟨0, 0, 1⟩, ⟨0, 1, 3⟩], [⟨0, 0, 2⟩, ⟨1, 0, -4⟩, ⟨1, 1, 1 / 2⟩]]
  below := by decide
  passable :=
    ⟨[⟨0, 0, 1⟩, ⟨0, 0, 2⟩], .cons (by simp) (.cons (by simp) .nil), .cons_cons rfl (.singleton _)⟩

theorem read_cheapest_path_detour : (∃ es, IsPath detour.stages es ∧
      (∀ es', IsPath detour.stages es' → pathCost es ≤ pathCost es') ∧
      (alone 2 detour.toFeed).read = some (pathCost es, es.map fun e => (e.dst : Int))) ∧
    (alone 2 detour.toFeed).read = some (-1, [1, 0]) :=
  ⟨read_cheapest_path 2 detour, by decide +kernel⟩

/-! ## Costs in floats -/

/-- A feed as the code gets it: the costs are floats, none of them infinite. -/
structure FloatFeed (K : Nat) extends Feed Single K where
  finite : ∀ st ∈ stages, ∀ e ∈ st, e.cost.Finite

/-- **A run after a reset**, with sums rounded as the floats round them, reads what a fresh run
reads if and only if nothing that the run before it left comes before its cheapest chain. -/
theorem reset_read_iff {K : Nat} (T : Nat) (A B : FloatFeed K) (hA : ∃ es, IsPath A.stages es) :
    ∃ v, (alone T A.toFeed).calculatePath = some v ∧
      ((runStages (reset v) B.stages).read = (alone T B.toFeed).read ↔
        Unspoilt K A.stages B.stages) :=
  reset_read T ⟨A.toFeed, hA⟩ B.toFeed

/-- The stage that `changeRow` feeds for a row: state 1 factors the header out of the row, at a
higher cost where the operations are not those of the row before. -/
def formStage (switched : Bool) : Stage Single :=
  -- `1`, which `+= 1.1` takes to the float next to 2.1
  let costFactored := if switched then Single.scaled 8808038 127 else Single.scaled 1 149
  -- the float next to 1.9
  let costUnfactored := Single.scaled 15938355 126
  let costSwitch := if switched then 0 else Single.scaled 1 147
  [⟨0, 0, costUnfactored⟩, ⟨1, 0, costUnfactored + costSwitch⟩, ⟨0, 1, costFactored + costSwitch⟩,
    ⟨1, 1, costFactored⟩]

theorem formStage_below (rows : List Bool) : ∀ st ∈ rows.map formStage, ∀ e ∈ st, e.src < 2 ∧
    e.dst < 2 := by
  intro st hst e he
  obtain ⟨b, -, rfl⟩ := List.mem_map.1 hst
  simp only [formStage, List.mem_cons, List.not_mem_nil, or_false] at he
  rcases he with rfl | rfl | rfl | rfl <;>
    exact ⟨Nat.le_of_ble_eq_true rfl, Nat.le_of_ble_eq_true rfl⟩

theorem formStage_finite (rows : List Bool) :
    ∀ st ∈ rows.map formStage, ∀ e ∈ st, e.cost.Finite := by
  intro st hst
  obtain ⟨b, -, rfl⟩ := List.mem_map.1 hst
  cases b <;> decide +kernel

/-- The stages of a sheet whose rows switch operations as listed. -/
def formFeed (rows : List Bool) : FloatFeed 2 :=
  ⟨⟨rows.map formStage, formStage_below rows⟩, formStage_finite rows⟩

theorem formFeed_passable : ∃ es, IsPath (formFeed [true, false]).stages es :=
  ⟨[⟨0, 0, Single.scaled 15938355 126⟩, ⟨0, 0, Single.scaled 15938355 126⟩],
    .cons (List.mem_cons_self ..) (.cons (List.mem_cons_self ..) .nil),
      .cons_cons rfl (.singleton _)⟩

theorem reset_read_iff_form :
    ∃ v, (alone 0 (formFeed [true, false]).toFeed).calculatePath = some v ∧
      ((runStages (reset v) (formFeed [true, true]).stages).read =
        (alone 0 (formFeed [true, true]).toFeed).read ↔
        Unspoilt 2 (formFeed [true, false]).stages (formFeed [true, true]).stages) :=
  reset_read_iff 0 (formFeed [true, false]) (formFeed [true, true]) formFeed_passable

/-- A sheet of two rows with other operations each, after one whose second row had those of its
first: the fresh lattice writes both rows in full, at 3.8, the reused one factors the header out of
both, at 3.1. -/
theorem formLattice_reused :
    ∃ v, (alone 0 (formFeed [true, false]).toFeed).calculatePath = some v ∧
      (runStages (reset v) (formFeed [true, true]).stages).read =
      some (Single.scaled 13002342 127, [1, 1]) ∧ (alone 0 (formFeed [true, true]).toFeed).read =
      some (Single.scaled 15938355 127, [0, 0]) := by
  have hreused : ((alone 0 (formFeed [true, false]).toFeed).calculatePath.bind fun v =>
      (runStages (reset v) (formFeed [true, true]).stages).read) =
        some (Single.scaled 13002342 127, [1, 1]) := by
    decide +kernel
  obtain ⟨v, hv, hread⟩ := Option.bind_eq_some_iff.1 hreused
  exact ⟨v, hv, hread, by decide +kernel⟩

end Coopy.Viterbi
