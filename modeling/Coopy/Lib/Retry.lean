import Mathlib.Data.List.Basic
import Mathlib.Data.Fintype.Card
import Mathlib.Data.Set.Finite.Basic
import Mathlib.Order.WellFounded
import Mathlib.Logic.Relation

/-!
# Work that waits for other work

A queue of items is gone through; an item that lacks something is put off, and those that were put
off are gone through again, until none is left, or none of them could be done.  When each item waits
only for what is there or what another item supplies, and no item waits for itself by way of others,
all of them get done, each once:

    Lawful S all Valid → Acyclic S all → Valid s → Supplied S s all →
      retry (passed S) fuel none rest s' = .done s''        for (s', rest) = pass S all s
                                                                                 (exists_retry_done)

The loop ends in any case, by its count of what is left (`retry_ends`).
-/

namespace Coopy.Lib

/-! ## The loop -/

/-- How a loop of passes ends: it lacks fuel, a pass fails, items are left that no pass does, or
nothing is left. -/
inductive Outcome (σ ι : Type)
  | unfinished
  | failed
  | stuck (s : σ) (rest : List ι)
  | done (s : σ)
deriving DecidableEq, Repr

section
variable {σ τ ι : Type}

/-- The state that is left when everything is done. -/
def Outcome.result : Outcome σ ι → Option σ
  | .done s => some s
  | _ => none

/-- The items that nothing could be done about. -/
def Outcome.left : Outcome σ ι → Option (List ι)
  | .stuck _ rest => some rest
  | _ => none

/-- Passes until nothing is left, or as much as before the pass before. -/
def retry (pass : List ι → σ → Option (σ × List ι)) : Nat → Option Nat → List ι → σ → Outcome σ ι
  | 0, _, _, _ => .unfinished
  | fuel + 1, prev, queue, s =>
    if queue.length = 0 then .done s
    else
      match pass queue s with
      | none => .failed
      | some r =>
        if prev = some queue.length then .stuck r.1 r.2
          else retry pass fuel (some queue.length) r.2 r.1

/-- The loop ends if a pass leaves no more than it was given. -/
theorem retry_ends {pass : List ι → σ → Option (σ × List ι)} {Inv : σ → Prop}
    (hpass : ∀ queue s r, Inv s → pass queue s = some r → Inv r.1 ∧ r.2.length ≤ queue.length)
    (fuel : Nat)
    (prev : Option Nat) (queue : List ι) (s : σ) (hinv : Inv s) (hfuel : queue.length + 2 ≤ fuel) :
    retry pass fuel prev queue s ≠ .unfinished := by
  have hgen : ∀ (n fuel : Nat) (prev : Option Nat) (queue : List ι) (s : σ), Inv s →
    queue.length ≤ n →
      (if prev = some queue.length then 1 else n + 2) ≤ fuel →
      retry pass fuel prev queue s ≠ .unfinished := by
    intro n
    induction n with
    | zero =>
      intro fuel prev queue s hinv hlen hfuel
      obtain ⟨fuel, rfl⟩ : ∃ k, fuel = k + 1 := ⟨fuel - 1, by split at hfuel <;> omega⟩
      unfold retry
      rw [if_pos (Nat.le_zero.1 hlen)]
      exact fun h => by cases h
    | succ n ih =>
      intro fuel prev queue s hinv hlen hfuel
      obtain ⟨fuel, rfl⟩ : ∃ k, fuel = k + 1 := ⟨fuel - 1, by split at hfuel <;> omega⟩
      unfold retry
      by_cases hempty : queue.length = 0
      · rw [if_pos hempty]
        exact fun h => by cases h
      rw [if_neg hempty]
      cases hr : pass queue s with
      | none => exact fun h => by cases h
      | some r =>
        simp only
        by_cases hprev : prev = some queue.length
        · rw [if_pos hprev]
          exact fun h => by cases h
        rw [if_neg hprev] at hfuel ⊢
        obtain ⟨hinv', hle⟩ := hpass queue s r hinv hr
        by_cases hsame : r.2.length = queue.length
        · -- nothing was done: the next pass is the last one
          obtain ⟨fuel, rfl⟩ : ∃ k, fuel = k + 1 := ⟨fuel - 1, by omega⟩
          unfold retry
          rw [hsame, if_neg hempty]
          cases pass r.2 r.1 with
          | none => exact fun h => by cases h
          | some r' =>
            simp only [if_true]
            exact fun h => by cases h
        · refine ih fuel _ _ _ hinv' (by omega) ?_
          split <;> omega
  exact hgen queue.length fuel prev queue s hinv le_rfl (by split <;> omega)

/-- A loop that gets everything done, seen from states behind it. -/
theorem retry_done_of_sim {pass : List ι → σ → Option (σ × List ι)} {pass' : List ι → τ →
    Option (τ × List ι)}
    {R : σ → τ → Prop} {all : List ι}
    (hsim : ∀ queue s t r, (∀ i ∈ queue, i ∈ all) → R s t → pass' queue t = some r →
      ∃ s', pass queue s = some (s', r.2) ∧ R s' r.1 ∧ ∀ i ∈ r.2, i ∈ all) :
    ∀ (fuel : Nat) (prev : Option Nat) (queue : List ι) (s : σ)
      (t t' : τ), (∀ i ∈ queue, i ∈ all) → R s t →
      retry pass' fuel prev queue t = .done t' → ∃ s', retry pass fuel prev queue s = .done s' ∧
      R s' t' := by
  intro fuel
  induction fuel with
  | zero => exact fun _ _ _ _ _ _ _ h => by cases h
  | succ fuel ih =>
    intro prev queue s t t' hall hR h
    unfold retry at h ⊢
    by_cases hempty : queue.length = 0
    · rw [if_pos hempty] at h ⊢
      cases h
      exact ⟨s, rfl, hR⟩
    rw [if_neg hempty] at h ⊢
    cases hr : pass' queue t with
    | none =>
      rw [hr] at h
      cases h
    | some r =>
      obtain ⟨s', hs', hR', hall'⟩ := hsim queue s t r hall hR hr
      rw [hr] at h
      rw [hs']
      simp only at h ⊢
      by_cases hprev : prev = some queue.length
      · rw [if_pos hprev] at h
        cases h
      · rw [if_neg hprev] at h ⊢
        exact ih _ _ _ _ _ hall' hR' h

end

/-! ## Supply -/

/-- Items with what they need and supply, and the step that an item which is ready takes. -/
structure Supply (σ ι κ : Type) where
  ready : σ → ι → Bool
  apply : σ → ι → σ
  has : σ → κ → Prop
  needs : ι → κ → Prop
  provides : ι → κ → Prop

namespace Supply

variable {σ ι κ : Type} (S : Supply σ ι κ)

/-! ## Passes -/

/-- One pass: the items that are ready take their step, the others are left, in order. -/
def pass : List ι → σ → σ × List ι
  | [], s => (s, [])
  | i :: queue, s =>
    if S.ready s i then pass queue (S.apply s i) else ((pass queue s).1, i :: (pass queue s).2)

section
variable {S} {s : σ} {i : ι}

theorem pass_of_ready (h : S.ready s i = true) (queue : List ι) :
    S.pass (i :: queue) s = S.pass queue (S.apply s i) := if_pos h

theorem pass_of_not_ready (h : S.ready s i = false) (queue : List ι) :
    S.pass (i :: queue) s = ((S.pass queue s).1, i :: (S.pass queue s).2) :=
  if_neg (Bool.eq_false_iff.1 h)

end

theorem pass_sublist (queue : List ι) : ∀ s, (S.pass queue s).2.Sublist queue := by
  induction queue with
  | nil => exact fun s => .slnil
  | cons i queue ih =>
    intro s
    cases hready : S.ready s i with
    | true =>
      rw [pass_of_ready hready]
      exact (ih _).cons i
    | false =>
      rw [pass_of_not_ready hready]
      exact (ih s).cons_cons i

theorem length_pass_le (queue : List ι) (s : σ) : (S.pass queue s).2.length ≤ queue.length :=
  (S.pass_sublist queue s).length_le

/-- A pass as a step of the loop. -/
def passed (queue : List ι) (s : σ) : Option (σ × List ι) := some (S.pass queue s)

/-! ## Items that are applied -/

/-- An item has what it needs. -/
def Sated (s : σ) (i : ι) : Prop := ∀ x, S.needs i x → S.has s x

/-- The items take their steps one after the other, each when `P` holds of it. -/
inductive Applied (P : σ → ι → Prop) : σ → List ι → σ → Prop
  | nil (s : σ) : Applied P s [] s
  | cons {s s' : σ} {i : ι} {queue : List ι} : P s i → Applied P (S.apply s i) queue s' →
    Applied P s (i :: queue) s'

section
variable {S} {P : σ → ι → Prop}

theorem Applied.append {s s' s'' : σ} {first second : List ι} (h : S.Applied P s first s')
    (h' : S.Applied P s' second s'') : S.Applied P s (first ++ second) s'' := by
  induction h with
  | nil s => exact h'
  | cons hp _ ih => exact .cons hp (ih h')

end

/-- The step of an item adds what it supplies, and an item is ready when it has what it needs. -/
structure Lawful (all : List ι) (Valid : σ → Prop) : Prop where
  ready_iff : ∀ s i, Valid s → i ∈ all → (S.ready s i = true ↔ S.Sated s i)
  has_apply : ∀ s i, Valid s → i ∈ all → S.ready s i = true → ∀ x, S.has (S.apply s i) x ↔
    S.has s x ∨ S.provides i x
  valid_apply : ∀ s i, Valid s → i ∈ all → S.ready s i = true → Valid (S.apply s i)

/-- What is needed is there, or an item supplies it. -/
def Supplied (s : σ) (queue : List ι) : Prop :=
  ∀ i ∈ queue, ∀ x, S.needs i x → S.has s x ∨ ∃ j ∈ queue, S.provides j x

/-- An item waits for another. -/
def Awaits (all : List ι) (i j : ι) : Prop := i ∈ all ∧ j ∈ all ∧ ∃ x, S.needs i x ∧ S.provides j x

/-- No item waits for itself by way of others. -/
def Acyclic (all : List ι) : Prop := ∀ i ∈ all, ¬ Relation.TransGen (S.Awaits all) i i

section
variable {S} {all : List ι} {Valid : σ → Prop}

/-- Items that wait only for items of a lower rank. -/
theorem acyclic_of_rank (rank : ι → Nat) (h : ∀ i j, S.Awaits all i j → rank j < rank i) :
    S.Acyclic all := by
  intro i _ hcycle
  have hrank : ∀ j, Relation.TransGen (S.Awaits all) i j → rank j < rank i := by
    intro j hj
    induction hj with
    | single hawaits => exact h i _ hawaits
    | tail _ hawaits ih => exact (h _ _ hawaits).trans ih
  exact lt_irrefl _ (hrank i hcycle)

/-- Of items some of which are left, one waits for none of them. -/
theorem Acyclic.exists_first (h : S.Acyclic all) {rest : List ι} (hsub : ∀ i ∈ rest, i ∈ all)
    (hne : rest ≠ []) : ∃ i ∈ rest, ∀ j ∈ rest, ¬ S.Awaits all i j := by
  have hirr : ∀ i : {i // i ∈ all}, ¬ Relation.TransGen (S.Awaits all) i.1 i.1 := fun i => h i.1 i.2
  have : Std.Irrefl fun j i : {i // i ∈ all} => Relation.TransGen (S.Awaits all) i.1 j.1 := ⟨hirr⟩
  have : IsTrans {i // i ∈ all} fun j i => Relation.TransGen (S.Awaits all) i.1 j.1 :=
    ⟨fun _ _ _ hab hbc => hbc.trans hab⟩
  have : Finite {i // i ∈ all} := (List.finite_toSet all).to_subtype
  have hwf : WellFounded fun j i : {i // i ∈ all} => Relation.TransGen (S.Awaits all) i.1 j.1 :=
    Finite.wellFounded_of_trans_of_irrefl _
  obtain ⟨i, hi⟩ := List.exists_mem_of_ne_nil rest hne
  obtain ⟨first, hfirst, hmin⟩ := hwf.has_min {i | i.1 ∈ rest} ⟨⟨i, hsub i hi⟩, hi⟩
  refine ⟨first.1, hfirst, fun j hj hawaits => ?_⟩
  exact hmin ⟨j, hsub j hj⟩ hj (Relation.TransGen.single hawaits)

theorem pass_spec (hl : S.Lawful all Valid) (queue : List ι) :
    ∀ (s : σ) (skipped : List ι), Valid s →
    (∀ i ∈ skipped ++ queue, i ∈ all) → S.Supplied s (skipped ++ queue) →
    Valid (S.pass queue s).1 ∧ S.Supplied (S.pass queue s).1 (skipped ++ (S.pass queue s).2) ∧
      ∃ done, S.Applied S.Sated s done (S.pass queue s).1 ∧
      (done ++ (S.pass queue s).2).Perm queue := by
  induction queue with
  | nil => exact fun s skipped hv _ hs => ⟨hv, hs, [], .nil s, .refl _⟩
  | cons i queue ih =>
    intro s skipped hv hall hs
    have hi : i ∈ all := hall i (by simp)
    unfold pass
    by_cases hready : S.ready s i = true
    · rw [if_pos hready]
      have hsub : ∀ j ∈ skipped ++ queue, j ∈ skipped ++ i :: queue := fun j hj => by
        rcases List.mem_append.1 hj with hj | hj
        · exact List.mem_append_left _ hj
        · exact List.mem_append_right _ (List.mem_cons_of_mem _ hj)
      have hs' : S.Supplied (S.apply s i) (skipped ++ queue) := by
        intro j hj x hx
        have hhas := hl.has_apply s i hv hi hready x
        rcases hs j (hsub j hj) x hx with hx | ⟨k, hk, hprov⟩
        · exact Or.inl (hhas.2 (Or.inl hx))
        · rcases List.mem_append.1 hk with hk | hk
          · exact Or.inr ⟨k, List.mem_append_left _ hk, hprov⟩
          · rcases List.mem_cons.1 hk with rfl | hk
            · exact Or.inl (hhas.2 (Or.inr hprov))
            · exact Or.inr ⟨k, List.mem_append_right _ hk, hprov⟩
      obtain ⟨hv', hsup, done, happlied, hperm⟩ :=
        ih (S.apply s i) skipped (hl.valid_apply s i hv hi hready)
        (fun j hj => hall j (hsub j hj)) hs'
      exact ⟨hv', hsup, i :: done, .cons ((hl.ready_iff s i hv hi).1 hready) happlied, hperm.cons i⟩
    · rw [if_neg hready]
      have hassoc : ∀ tail : List ι, skipped ++ i :: tail = skipped ++ [i] ++ tail := fun tail => by
        rw [List.append_assoc, List.singleton_append]
      obtain ⟨hv', hsup, done, happlied, hperm⟩ := ih s (skipped ++ [i]) hv
        (fun j hj => hall j (by rwa [hassoc])) (by rwa [← hassoc])
      refine ⟨hv', by rwa [hassoc], done, happlied, ?_⟩
      exact List.perm_middle.trans (hperm.cons i)

/-- A pass in which an item has what it needs gets something done. -/
theorem length_pass_lt (hl : S.Lawful all Valid) {s : σ} (hv : Valid s) (queue : List ι)
    (hall : ∀ i ∈ queue, i ∈ all)
    (h : ∃ i ∈ queue, S.Sated s i) : (S.pass queue s).2.length < queue.length := by
  induction queue with
  | nil => exact absurd h (by simp)
  | cons a queue ih =>
    unfold pass
    by_cases hready : S.ready s a = true
    · rw [if_pos hready]
      exact Nat.lt_succ_of_le (S.length_pass_le queue _)
    · rw [if_neg hready]
      obtain ⟨i, hi, hsated⟩ := h
      rcases List.mem_cons.1 hi with rfl | hi
      · exact absurd ((hl.ready_iff s i hv (hall i hi)).2 hsated) hready
      · exact Nat.succ_lt_succ (ih (fun j hj => hall j (List.mem_cons_of_mem _ hj)) ⟨i, hi, hsated⟩)

/-- What is left after a pass gets done by the passes that follow. -/
theorem retry_done (hl : S.Lawful all Valid) (hac : S.Acyclic all) :
    ∀ (n fuel : Nat) (prev : Option Nat) (queue : List ι)
    (s : σ), queue.length ≤ n → n + 1 ≤ fuel → (queue ≠ [] → prev ≠ some queue.length) → Valid s →
    (∀ i ∈ queue, i ∈ all) → S.Supplied s queue →
    ∃ s' done, retry S.passed fuel prev queue s = .done s' ∧ S.Applied S.Sated s done s' ∧
    done.Perm queue := by
  intro n
  induction n with
  | zero =>
    intro fuel prev queue s hlen hfuel _ _ _ _
    obtain ⟨fuel, rfl⟩ : ∃ k, fuel = k + 1 := ⟨fuel - 1, by omega⟩
    obtain rfl := List.eq_nil_of_length_eq_zero (Nat.le_zero.1 hlen)
    exact ⟨s, [], rfl, .nil s, .refl _⟩
  | succ n ih =>
    intro fuel prev queue s hlen hfuel hprev hv hall hs
    obtain ⟨fuel, rfl⟩ : ∃ k, fuel = k + 1 := ⟨fuel - 1, by omega⟩
    by_cases hempty : queue = []
    · subst hempty
      exact ⟨s, [], rfl, .nil s, .refl _⟩
    obtain ⟨i, hi, hfirst⟩ := hac.exists_first hall hempty
    have hsated : S.Sated s i := fun x hx => (hs i hi x hx).resolve_right fun ⟨j, hj, hprov⟩ =>
      hfirst j hj ⟨hall i hi, hall j hj, x, hx, hprov⟩
    have hlt := length_pass_lt hl hv queue hall ⟨i, hi, hsated⟩
    obtain ⟨hv', hsup, done, happlied, hperm⟩ := pass_spec hl queue s [] hv hall hs
    have hall' : ∀ j ∈ (S.pass queue s).2, j ∈ all := fun j hj =>
      hall j (hperm.mem_iff.1 (List.mem_append_right _ hj))
    obtain ⟨s', done', hretry, happlied', hperm'⟩ :=
      ih fuel (some queue.length) (S.pass queue s).2 (S.pass queue s).1
        (by omega) (by omega) (fun _ h => absurd (Option.some.inj h) (by omega)) hv' hall' hsup
    refine ⟨s', done ++ done', ?_, happlied.append happlied', (hperm'.append_left done).trans hperm⟩
    unfold retry passed
    rw [if_neg (fun h => hempty (List.eq_nil_of_length_eq_zero h))]
    simp only
    rw [if_neg (hprev hempty)]
    exact hretry

/-- **All items get done**, each once: first those of one pass, then the others. -/
theorem exists_retry_done (hl : S.Lawful all Valid) (hac : S.Acyclic all) {s : σ} (hv : Valid s)
    (hs : S.Supplied s all) {fuel : Nat} (hfuel : (S.pass all s).2.length + 2 ≤ fuel) :
    ∃ s' order, retry S.passed fuel none (S.pass all s).2 (S.pass all s).1 = .done s' ∧
      S.Applied S.Sated s order s' ∧ order.Perm all := by
  obtain ⟨hv', hsup, done, happlied, hperm⟩ := pass_spec hl all s [] hv (fun i hi => hi) hs
  have hall' : ∀ j ∈ (S.pass all s).2, j ∈ all :=
    fun j hj => hperm.mem_iff.1 (List.mem_append_right _ hj)
  obtain ⟨s', done', hretry, happlied', hperm'⟩ :=
    retry_done hl hac _ fuel none _ _ le_rfl (by omega)
    (fun _ h => by cases h) hv' hall' hsup
  exact ⟨s', done ++ done', hretry, happlied.append happlied',
    (hperm'.append_left done).trans hperm⟩

end

end Supply

end Coopy.Lib
