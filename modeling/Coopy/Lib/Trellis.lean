import Mathlib.Algebra.Order.Monoid.Basic
import Mathlib.Algebra.Order.Monoid.Unbundled.Basic
import Mathlib.Data.List.Chain
import Mathlib.Tactic.Common

/-!
# Cheapest chains through the stages of a trellis

A stage is a list of edges `src → dst` with a cost; a chain takes one edge of
each stage, each starting where the one before it ended.  `cells` is the forward
dynamic programme (for each state the cheapest cost so far and the state it came
from, the first edge winning a tie), `trace` walks the predecessors back.
Stages and chains are listed latest first.

    cells rs s = some (c, a) → Chain rs (trace rs s) c                       (trace_chain)
    Chain rs (s :: p) c → ∃ c' a, cells rs s = some (c', a) ∧ c' ≤ c           (cells_le)
    costs nonnegative → Chain rs p 0 → Chain (free edges of rs) p 0            (Chain.free)
-/

namespace Coopy.Lib.Trellis

structure Edge (κ : Type) where
  src : Nat
  dst : Nat
  cost : κ

abbrev Stage (κ : Type) := List (Edge κ)

section
variable {κ : Type} [AddZeroClass κ] [LinearOrder κ]

/-- `Chain rs p c`: `p` lists the end states of a chain through `rs`, of total cost `c`. -/
inductive Chain : List (Stage κ) → List Nat → κ → Prop
  | start {st : Stage κ} {e : Edge κ} : e ∈ st → Chain [st] [e.dst] e.cost
  | cons {st st' : Stage κ} {rs : List (Stage κ)} {e : Edge κ} {p : List Nat} {c : κ} :
      Chain (st' :: rs) (e.src :: p) c → e ∈ st →
        Chain (st :: st' :: rs) (e.dst :: e.src :: p) (e.cost + c)

/-! ## The forward pass -/

/-- One edge relaxed: the target takes the new cost if it had none or a larger one. -/
def relaxStep (prev : Nat → Option κ) (lay : Nat → Option (κ × Nat)) (e : Edge κ) :
    Nat → Option (κ × Nat) :=
  match prev e.src with
  | none => lay
  | some d =>
    match lay e.dst with
    | none => Function.update lay e.dst (some (e.cost + d, e.src))
    | some old =>
      if e.cost + d < old.1 then Function.update lay e.dst (some (e.cost + d, e.src)) else lay

def layer (prev : Nat → Option κ) (st : Stage κ) : Nat → Option (κ × Nat) :=
  st.foldl (relaxStep prev) (fun _ => none)

/-- The cells of the latest stage. -/
def cells : List (Stage κ) → Nat → Option (κ × Nat)
  | [] => fun _ => none
  | [st] => layer (fun _ => some 0) st
  | st :: st' :: rs => layer (fun s => (cells (st' :: rs) s).map Prod.fst) st

/-- What the latest stage may start from, before it is relaxed. -/
def entry : List (Stage κ) → Nat → Option κ
  | [] => fun _ => some 0
  | st :: rs => fun s => (cells (st :: rs) s).map Prod.fst

theorem cells_cons (st : Stage κ) (rs : List (Stage κ)) :
    cells (st :: rs) = layer (entry rs) st := by
  cases rs <;> rfl

/-- The chain of predecessors from `s` back. -/
def trace : List (Stage κ) → Nat → List Nat
  | [], _ => []
  | st :: rs, s =>
    match cells (st :: rs) s with
    | none => [s]
    | some (_, a) => s :: trace rs a

/-- `lay` holds the best way into each state over the edges `es`. -/
def BestOver (prev : Nat → Option κ) (es : List (Edge κ)) (lay : Nat → Option (κ × Nat)) : Prop :=
  ∀ s, (lay s = none → ∀ e ∈ es, e.dst = s → prev e.src = none) ∧
    ∀ c a, lay s = some (c, a) →
      (∃ e ∈ es, e.src = a ∧ e.dst = s ∧ ∃ d, prev a = some d ∧ c = e.cost + d) ∧
      ∀ e ∈ es, e.dst = s → ∀ d, prev e.src = some d → c ≤ e.cost + d

theorem bestOver_relaxStep (prev : Nat → Option κ) (es : List (Edge κ))
    (lay : Nat → Option (κ × Nat)) (h : BestOver prev es lay) (e : Edge κ) :
    BestOver prev (es ++ [e]) (relaxStep prev lay e) := by
  -- the new edge writes its target's cell, or leaves every cell alone
  have keep : ∀ s, (e.dst = s → prev e.src = none ∨
        ∃ c a, lay s = some (c, a) ∧ ∀ d, prev e.src = some d → c ≤ e.cost + d) →
      (lay s = none → ∀ f ∈ es ++ [e], f.dst = s → prev f.src = none) ∧
      ∀ c a, lay s = some (c, a) →
        (∃ f ∈ es ++ [e], f.src = a ∧ f.dst = s ∧ ∃ d, prev a = some d ∧ c = f.cost + d) ∧
        ∀ f ∈ es ++ [e], f.dst = s → ∀ d, prev f.src = some d → c ≤ f.cost + d := by
    intro s he
    refine ⟨fun hn f hf hfs => ?_, fun c a hs => ⟨?_, fun f hf hfs d hd => ?_⟩⟩
    · rcases List.mem_append.mp hf with hf | hf
      · exact (h s).1 hn f hf hfs
      · rw [List.mem_singleton] at hf
        subst hf
        rcases he hfs with he | ⟨c, a, hs, -⟩
        · exact he
        · rw [hn] at hs; cases hs
    · obtain ⟨f, hf, hrest⟩ := ((h s).2 c a hs).1
      exact ⟨f, List.mem_append_left _ hf, hrest⟩
    · rcases List.mem_append.mp hf with hf | hf
      · exact ((h s).2 c a hs).2 f hf hfs d hd
      · rw [List.mem_singleton] at hf
        subst hf
        rcases he hfs with he | ⟨c', a', hs', hle⟩
        · rw [he] at hd; cases hd
        · rw [hs] at hs'
          cases hs'
          exact hle d hd
  have write : ∀ d, prev e.src = some d → (∀ c a, lay e.dst = some (c, a) → e.cost + d ≤ c) →
      BestOver prev (es ++ [e]) (Function.update lay e.dst (some (e.cost + d, e.src))) := by
    intro d hd hle s
    by_cases hs : e.dst = s
    · subst hs
      rw [Function.update_self]
      refine ⟨fun hn => (by cases hn), fun c a hc => ?_⟩
      have hc' : e.cost + d = c ∧ e.src = a := by simpa using hc
      rw [← hc'.1, ← hc'.2]
      refine ⟨⟨e, by simp, rfl, rfl, d, hd, rfl⟩, fun f hf hfs d' hd' => ?_⟩
      rcases List.mem_append.mp hf with hf | hf
      · cases hl : lay e.dst with
        | none => rw [(h e.dst).1 hl f hf hfs] at hd'; cases hd'
        | some old =>
          exact (hle old.1 old.2 hl).trans (((h e.dst).2 old.1 old.2 hl).2 f hf hfs d' hd')
      · rw [List.mem_singleton] at hf
        subst hf
        rw [hd] at hd'
        cases hd'
        exact le_refl _
    · rw [Function.update_of_ne (Ne.symm hs)]
      exact keep s (fun he => absurd he hs)
  unfold relaxStep
  cases hp : prev e.src with
  | none => exact fun s => keep s (fun _ => Or.inl hp)
  | some d =>
    cases hl : lay e.dst with
    | none =>
      refine write d hp (fun c a hc => ?_)
      rw [hl] at hc; cases hc
    | some old =>
      simp only []
      split
      · next hlt =>
        refine write d hp (fun c a hc => ?_)
        rw [hl] at hc
        cases hc
        exact hlt.le
      · next hge =>
        refine fun s => keep s (fun hs => Or.inr ⟨old.1, old.2, ?_, fun d' hd' => ?_⟩)
        · rw [← hs, hl]
        · rw [hp] at hd'
          cases hd'
          exact not_lt.mp hge

theorem bestOver_foldl (prev : Nat → Option κ) (fs : List (Edge κ)) :
    ∀ (es : List (Edge κ)) (lay : Nat → Option (κ × Nat)), BestOver prev es lay →
      BestOver prev (es ++ fs) (fs.foldl (relaxStep prev) lay) := by
  induction fs with
  | nil => intro es lay h; rwa [List.append_nil]
  | cons e fs ih =>
    intro es lay h
    have := ih (es ++ [e]) _ (bestOver_relaxStep prev es lay h e)
    rwa [List.append_assoc, List.singleton_append] at this

theorem bestOver_layer (prev : Nat → Option κ) (st : Stage κ) :
    BestOver prev st (layer prev st) := by
  have h0 : BestOver prev [] (fun _ => none) :=
    fun s => ⟨fun _ e he => by simp at he, fun c a h => by cases h⟩
  have := bestOver_foldl prev st [] _ h0
  rwa [List.nil_append] at this

/-! ## Chains and cells -/

/-- The predecessors of a reached state form a chain of the cost in its cell. -/
theorem trace_chain (rs : List (Stage κ)) : ∀ (s : Nat) (c : κ) (a : Nat),
    cells rs s = some (c, a) → Chain rs (trace rs s) c := by
  induction rs with
  | nil => intro s c a h; cases h
  | cons st rs ih =>
    intro s c a h
    have hb := (bestOver_layer (entry rs) st s).2 c a (by rw [← cells_cons, h])
    obtain ⟨e, he, rfl, rfl, d, hd, rfl⟩ := hb.1
    unfold trace
    rw [h]
    cases rs with
    | nil =>
      have : d = 0 := by simpa [entry] using hd.symm
      subst this
      simpa [trace] using Chain.start he
    | cons st' rs =>
      simp only [entry, Option.map_eq_some_iff] at hd
      obtain ⟨⟨d', b⟩, hcell, rfl⟩ := hd
      have hc := ih e.src d' b hcell
      -- the trace from `e.src` starts at `e.src`
      have ht : trace (st' :: rs) e.src = e.src :: trace rs b := by
        conv => lhs; unfold trace
        rw [hcell]
      show Chain _ (e.dst :: trace (st' :: rs) e.src) _
      rw [ht] at hc ⊢
      exact Chain.cons hc he

/-- No chain into a state is cheaper than its cell. -/
theorem cells_le [AddLeftMono κ] {rs : List (Stage κ)} {p : List Nat} {c : κ}
    (h : Chain rs p c) :
    ∀ s q, p = s :: q → ∃ c' a, cells rs s = some (c', a) ∧ c' ≤ c := by
  induction h with
  | @start st e he =>
    rintro s q heq
    obtain ⟨rfl, rfl⟩ : e.dst = s ∧ [] = q := by simpa using heq
    have hb := bestOver_layer (fun _ => some (0 : κ)) st e.dst
    cases hc : cells [st] e.dst with
    | none => cases hb.1 hc e he rfl
    | some x => exact ⟨x.1, x.2, rfl, by simpa using (hb.2 x.1 x.2 hc).2 e he rfl 0 rfl⟩
  | @cons st st' rs e p c _ he ih =>
    rintro s q heq
    obtain ⟨rfl, rfl⟩ : e.dst = s ∧ e.src :: p = q := by simpa using heq
    obtain ⟨c', a, hcell, hle⟩ := ih e.src p rfl
    have hentry : entry (st' :: rs) e.src = some c' := by simp [entry, hcell]
    have hb := bestOver_layer (entry (st' :: rs)) st e.dst
    rw [cells_cons]
    cases hc : layer (entry (st' :: rs)) st e.dst with
    | none => rw [hb.1 hc e he rfl] at hentry; cases hentry
    | some x =>
      refine ⟨x.1, x.2, rfl, ((hb.2 x.1 x.2 hc).2 e he rfl c' hentry).trans ?_⟩
      exact add_le_add_right hle e.cost

omit [LinearOrder κ] in
theorem Chain.length_eq {rs : List (Stage κ)} {p : List Nat} {c : κ} (h : Chain rs p c) :
    p.length = rs.length := by
  induction h with
  | start _ => rfl
  | cons _ _ ih => simpa using ih

omit [LinearOrder κ] in
/-- A chain ends at the target of an edge of the latest stage. -/
theorem Chain.head {rs : List (Stage κ)} {p : List Nat} {c : κ} (h : Chain rs p c) :
    ∃ st rs' q, ∃ e ∈ st, rs = st :: rs' ∧ p = e.dst :: q := by
  cases h with
  | start he => exact ⟨_, _, _, _, he, rfl, rfl⟩
  | cons _ he => exact ⟨_, _, _, _, he, rfl, rfl⟩

omit [LinearOrder κ] in
/-- The latest edge of a chain of two stages or more, and the chain before it. -/
theorem Chain.uncons {st : Stage κ} {rs : List (Stage κ)} {p : List Nat} {c : κ}
    (h : Chain (st :: rs) p c)
    (hrs : rs ≠ []) : ∃ e ∈ st, ∃ q c', p = e.dst :: e.src :: q ∧ Chain rs (e.src :: q) c' := by
  cases h with
  | start _ => exact absurd rfl hrs
  | cons h' he => exact ⟨_, he, _, _, rfl, h'⟩

omit [LinearOrder κ] in
/-- A state with a loop in every stage carries a chain. -/
theorem exists_chain_of_loop (d : Nat) : ∀ rs : List (Stage κ), rs ≠ [] →
    (∀ st ∈ rs, ∃ e ∈ st, e.src = d ∧ e.dst = d) → ∃ q c, Chain rs (d :: q) c := by
  intro rs
  induction rs with
  | nil => exact fun h => absurd rfl h
  | cons st rs ih =>
    intro _ hloop
    obtain ⟨e, he, hs, hd⟩ := hloop st (by simp)
    cases rs with
    | nil =>
      refine ⟨[], e.cost, ?_⟩
      rw [← hd]
      exact Chain.start he
    | cons st' rs =>
      obtain ⟨q, c, hc⟩ := ih (by simp) (fun t ht => hloop t (List.mem_cons_of_mem _ ht))
      refine ⟨e.src :: q, e.cost + c, ?_⟩
      rw [← hd]
      exact Chain.cons (hs ▸ hc) he

omit [LinearOrder κ] in
theorem Chain.mem_dst {rs : List (Stage κ)} {p : List Nat} {c : κ} (h : Chain rs p c) :
    ∀ k ∈ p, ∃ st ∈ rs, ∃ e ∈ st, e.dst = k := by
  induction h with
  | @start st e he => exact fun k hk => ⟨st, by simp, e, he, (List.mem_singleton.mp hk).symm⟩
  | @cons st st' rs e p c _ he ih =>
    intro k hk
    rcases List.mem_cons.mp hk with rfl | hk
    · exact ⟨st, by simp, e, he, rfl⟩
    · obtain ⟨t, ht, f, hf, hfk⟩ := ih k hk
      exact ⟨t, List.mem_cons_of_mem _ ht, f, hf, hfk⟩

omit [LinearOrder κ] in
/-- Consecutive states of a chain are related if the edges of every stage but the oldest are. -/
theorem Chain.isChain {R : Nat → Nat → Prop} {rs : List (Stage κ)} {p : List Nat} {c : κ}
    (h : Chain rs p c) (hR : ∀ st ∈ rs.dropLast, ∀ e ∈ st, R e.dst e.src) : p.IsChain R := by
  induction h with
  | start _ => exact List.IsChain.singleton _
  | @cons st st' rs e p c _ he ih =>
    rw [List.dropLast_cons_cons] at hR
    refine List.IsChain.cons_cons (hR st (by simp) e he)
      (ih fun t ht => hR t (List.mem_cons_of_mem _ ht))

/-! ## Paths -/

/-- An edge of each stage, each starting where the one before it ended; the earliest comes first. -/
structure IsPath (stages : List (Stage κ)) (es : List (Edge κ)) : Prop where
  edges : List.Forall₂ (· ∈ ·) es stages
  chained : es.IsChain fun e f => e.dst = f.src

def pathCost (es : List (Edge κ)) : κ := (es.map Edge.cost).sum

omit [LinearOrder κ] in
theorem chain_of_edges {rs : List (Stage κ)} {es : List (Edge κ)}
    (hmem : List.Forall₂ (· ∈ ·) es rs)
    (hchain : es.IsChain fun e f => f.dst = e.src) (hrs : rs ≠ []) :
    Chain rs (es.map Edge.dst) (pathCost es) := by
  induction hmem with
  | nil => exact absurd rfl hrs
  | @cons e st es rs he hmem ih =>
    cases hmem with
    | nil =>
      have hcost : pathCost [e] = e.cost := by simp [pathCost]
      rw [hcost]
      exact .start he
    | @cons f st' es rs hf hmem =>
      obtain ⟨hfe, hchain⟩ := List.isChain_cons_cons.1 hchain
      have hc := ih hchain (List.cons_ne_nil _ _)
      rw [List.map_cons, hfe] at hc
      rw [List.map_cons, List.map_cons, hfe]
      exact .cons hc he

omit [LinearOrder κ] in
theorem exists_edges_of_chain {rs : List (Stage κ)} {p : List Nat} {c : κ} (h : Chain rs p c) :
    ∃ es, List.Forall₂ (· ∈ ·) es rs ∧ (es.IsChain fun e f => f.dst = e.src) ∧ es.map Edge.dst = p ∧
      pathCost es = c := by
  induction h with
  | @start st e he => exact ⟨[e], .cons he .nil, .singleton _, rfl, by simp [pathCost]⟩
  | @cons st st' rs e p c h he ih =>
    obtain ⟨es, hmem, hchain, hp, hc⟩ := ih
    cases es with
    | nil => cases hp
    | cons f es =>
      refine ⟨e :: f :: es, .cons he hmem,
        .cons_cons (List.cons.inj hp).1 hchain, by rw [List.map_cons, hp], ?_⟩
      rw [← hc]
      rfl

omit [LinearOrder κ] in
/-- A path read from its end is a chain; its cost is added up in that order. -/
theorem IsPath.chain_reverse {stages : List (Stage κ)} {es : List (Edge κ)} (h : IsPath stages es)
    (hne : stages ≠ []) : Chain stages.reverse (es.reverse.map Edge.dst) (pathCost es.reverse) :=
  chain_of_edges (List.forall₂_reverse_iff.2 h.edges) (List.isChain_reverse.2 h.chained)
    (fun hr => hne (List.reverse_eq_nil_iff.1 hr))

end

/-! ## Exact costs -/

section
variable {κ : Type} [AddCommMonoid κ]

theorem pathCost_reverse (es : List (Edge κ)) : pathCost es.reverse = pathCost es := by
  rw [pathCost, List.map_reverse, List.sum_reverse]
  rfl

theorem IsPath.chain {stages : List (Stage κ)} {es : List (Edge κ)} (h : IsPath stages es)
    (hne : stages ≠ []) : Chain stages.reverse (es.reverse.map Edge.dst) (pathCost es) := by
  rw [← pathCost_reverse es]
  exact h.chain_reverse hne

theorem exists_path_of_chain {stages : List (Stage κ)} {p : List Nat} {c : κ}
    (h : Chain stages.reverse p c) :
    ∃ es, IsPath stages es ∧ es.map Edge.dst = p.reverse ∧ pathCost es = c := by
  obtain ⟨es, hmem, hchain, hp, hc⟩ := exists_edges_of_chain h
  refine ⟨es.reverse, ⟨?_, List.isChain_reverse.2 hchain⟩, by rw [List.map_reverse, hp],
    by rw [pathCost_reverse, hc]⟩
  rw [← List.forall₂_reverse_iff, List.reverse_reverse]
  exact hmem

variable [LinearOrder κ] [IsOrderedAddMonoid κ]

theorem Chain.nonneg {rs : List (Stage κ)} {p : List Nat} {c : κ} (h : Chain rs p c)
    (hn : ∀ st ∈ rs, ∀ e ∈ st, 0 ≤ e.cost) : 0 ≤ c := by
  induction h with
  | @start st e he => exact hn st (by simp) e he
  | @cons st st' rs e p c _ he ih =>
    exact add_nonneg (hn st (by simp) e he) (ih fun t ht => hn t (List.mem_cons_of_mem _ ht))

/-- With no negative edge, a chain of no cost uses free edges only. -/
theorem Chain.free {rs : List (Stage κ)} {p : List Nat} {c : κ} (h : Chain rs p c)
    (hn : ∀ st ∈ rs, ∀ e ∈ st, 0 ≤ e.cost) (hc : c = 0) :
    Chain (rs.map fun st => st.filter fun e => decide (e.cost = 0)) p 0 := by
  induction h with
  | @start st e he =>
    have hf : e ∈ st.filter fun e => decide (e.cost = 0) := by simp [he, hc]
    have := Chain.start hf
    rwa [hc] at this
  | @cons st st' rs e p c h' he ih =>
    have hn' : ∀ t ∈ st' :: rs, ∀ e ∈ t, 0 ≤ e.cost := fun t ht => hn t (List.mem_cons_of_mem _ ht)
    have h2 := (add_eq_zero_iff_of_nonneg (hn st (by simp) e he) (h'.nonneg hn')).mp hc
    have hf : e ∈ st.filter fun e => decide (e.cost = 0) := by simp [he, h2.1]
    have := Chain.cons (ih hn' h2.2) hf
    rwa [h2.1, add_zero] at this

end

end Coopy.Lib.Trellis
