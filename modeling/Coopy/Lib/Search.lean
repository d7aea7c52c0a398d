import Mathlib.Data.List.Infix
import Mathlib.Tactic.Common

/-!
# The first occurrence of a word

A search for a word in a text, from the front.  A word between two marks that are not part of it is
found where it was put, if it does not occur before:

    a ∉ core → ¬ core <:+: front →
      firstIn (a :: core ++ [a]) (front ++ (a :: core ++ [a]) ++ rest) = some front.length
                                                                                 (firstIn_delimited)
-/

namespace Coopy.Lib

variable {α : Type} [DecidableEq α]

/-- The place of the first occurrence of a word in a text. -/
def firstIn (word : List α) : List α → Option Nat
  | [] => if word = [] then some 0 else none
  | a :: text => if word.isPrefixOf (a :: text) then some 0 else (firstIn word text).map (· + 1)

theorem firstIn_eq_none_iff {word : List α} : ∀ text : List α, firstIn word text = none ↔
    ¬ word <:+: text
  | [] => by
    unfold firstIn
    rw [List.infix_nil]
    split
    · next h => simp [h]
    · next h => simp [h]
  | a :: text => by
    unfold firstIn
    rw [List.infix_cons_iff, not_or, ← firstIn_eq_none_iff text]
    split
    · next h => simp [List.isPrefixOf_iff_prefix.1 h]
    · next h => simp [mt List.isPrefixOf_iff_prefix.2 h]

/-- The text up to the first occurrence. -/
theorem firstIn_append {word rest : List α} : ∀ front : List α,
    (∀ xs ys, front = xs ++ ys → ys ≠ [] → ¬ word <+: ys ++ (word ++ rest)) →
    firstIn word (front ++ (word ++ rest)) = some front.length
  | [], _ => by
    rw [List.nil_append]
    cases hw : word ++ rest with
    | nil =>
      obtain ⟨rfl, rfl⟩ := List.append_eq_nil_iff.1 hw
      rfl
    | cons a text =>
      unfold firstIn
      rw [if_pos]
      · rfl
      · rw [← hw]
        exact List.isPrefixOf_iff_prefix.2 (List.prefix_append word rest)
  | a :: front, h => by
    have hrest := @firstIn_append word rest front fun xs ys hxy => h (a :: xs) ys (by rw [hxy]; rfl)
    rw [List.cons_append]
    unfold firstIn
    rw [if_neg, hrest]
    · rfl
    · intro hp
      exact h [] (a :: front) rfl (by simp) (List.isPrefixOf_iff_prefix.1 hp)

omit [DecidableEq α] in
/-- A word without `a` does not reach across an `a`. -/
theorem infix_append_cons_iff {core : List α} {a : α} (ha : a ∉ core) {xs ys : List α} :
    core <:+: xs ++ a :: ys ↔ core <:+: xs ∨ core <:+: ys := by
  constructor
  · rintro ⟨s, t, h⟩
    rcases List.append_eq_append_iff.1 h with ⟨rest, hxs, -⟩ | ⟨rest, hs, hrest⟩
    · exact Or.inl ⟨s, rest, hxs.symm⟩
    · cases rest with
      | nil =>
        rw [List.append_nil] at hs
        exact Or.inl ⟨s, [], by rw [List.append_nil, hs]⟩
      | cons b rest =>
        obtain ⟨rfl, hys⟩ := List.cons_eq_cons.1 hrest
        rcases List.append_eq_append_iff.1 hs with ⟨cut, -, hcore⟩ | ⟨cut, -, hcore⟩
        · exact absurd (by rw [hcore]; simp) ha
        · cases cut with
          | nil => exact absurd (by rw [← List.nil_append core, ← hcore]; simp) ha
          | cons c cut =>
            obtain ⟨rfl, hc⟩ := List.cons_eq_cons.1 hcore
            refine Or.inr ⟨cut, t, ?_⟩
            rw [hys, hc]
            rfl
  · rintro (h | h)
    · exact h.trans (List.prefix_append xs _).isInfix
    · exact h.trans ((List.suffix_cons a ys).isInfix.trans (List.suffix_append xs _).isInfix)

/-- **A word between two marks** is found where it was put. -/
theorem firstIn_delimited {core front rest : List α} {a : α} (ha : a ∉ core)
    (hf : ¬ core <:+: front) :
    firstIn (a :: core ++ [a]) (front ++ (a :: core ++ [a] ++ rest)) = some front.length := by
  refine firstIn_append front fun xs ys hxy hys hp => ?_
  obtain ⟨b, ys, rfl⟩ := List.exists_cons_of_ne_nil hys
  rw [List.cons_append, List.cons_append, List.cons_append] at hp
  obtain ⟨-, hp⟩ := List.cons_prefix_cons.1 hp
  -- the core would stand before the mark, so in front
  obtain ⟨t, hcore⟩ : core <+: ys ++ a :: (core ++ [a] ++ rest) :=
    (List.prefix_append core [a]).trans hp
  have hys : core <+: ys := by
    rcases List.append_eq_append_iff.1 hcore with ⟨cut, hcut, -⟩ | ⟨cut, hcut, hrest⟩
    · exact ⟨cut, hcut.symm⟩
    · cases cut with
      | nil => exact ⟨[], by rw [hcut, List.append_nil, List.append_nil]⟩
      | cons c cut =>
        obtain ⟨rfl, -⟩ := List.cons_eq_cons.1 hrest
        exact absurd (by rw [hcut]; simp) ha
  apply hf
  rw [hxy]
  exact hys.isInfix.trans ((List.suffix_cons b ys).isInfix.trans (List.suffix_append xs _).isInfix)

end Coopy.Lib
