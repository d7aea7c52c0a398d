import Mathlib.Data.List.Basic
import Mathlib.Data.List.Infix
import Mathlib.Tactic.Common

/-!
# All occurrences of a word replaced

A text is read from the front; where the word stands, its replacement is written and the reading
goes on behind it.  Where the word does not occur the text stays, and where it does, a word that is
shortened makes it shorter:

    rep shorter than word → word <:+: text → replaceAll word rep text shorter than text
                                                                              (length_replaceAll_lt)
    no occurrence from xs into ys → replaceAll of xs ++ ys is that of the parts  (replaceAll_append)
    a letter written as a pair, and the pairs replaced by it, is the pairs replaced
                                                                           (replaceAll_flatMap_pair)
-/

namespace Coopy.Lib

variable {α : Type} [DecidableEq α]

/-- The first letters are skipped: they belong to a word that is already replaced. -/
def replaceFrom (word rep : List α) : Nat → List α → List α
  | _, [] => []
  | n + 1, _ :: text => replaceFrom word rep n text
  | 0, a :: text =>
    if word.isPrefixOf (a :: text) then rep ++ replaceFrom word rep (word.length - 1) text
    else a :: replaceFrom word rep 0 text

def replaceAll (word rep text : List α) : List α := replaceFrom word rep 0 text

variable {word rep : List α}

theorem replaceFrom_append (front text : List α) :
    replaceFrom word rep front.length (front ++ text) = replaceAll word rep text := by
  induction front with
  | nil => rfl
  | cons a front ih => exact ih

theorem replaceAll_word (hw : word ≠ []) (text : List α) :
    replaceAll word rep (word ++ text) = rep ++ replaceAll word rep text := by
  obtain ⟨a, core, rfl⟩ := List.exists_cons_of_ne_nil hw
  have hp : (a :: core).isPrefixOf (a :: (core ++ text)) = true :=
    List.isPrefixOf_iff_prefix.2 (List.prefix_append (a :: core) text)
  unfold replaceAll
  rw [List.cons_append, replaceFrom, if_pos hp]
  exact congrArg (rep ++ ·) (replaceFrom_append core text)

theorem replaceAll_cons {a : α} {text : List α} (h : ¬ word <+: a :: text) :
    replaceAll word rep (a :: text) = a :: replaceAll word rep text := by
  unfold replaceAll
  rw [replaceFrom, if_neg fun hp => h (List.isPrefixOf_iff_prefix.1 hp)]

/-- A text is empty, or starts with the word, or with a letter that does not start it. -/
theorem replace_induction {motive : List α → Prop} (hw : word ≠ []) (nil : motive [])
    (hit : ∀ text, motive text → motive (word ++ text))
    (miss : ∀ a text, ¬ word <+: a :: text → motive text → motive (a :: text)) (text : List α) :
    motive text := by
  have key : ∀ n (text : List α), text.length ≤ n → motive text := by
    intro n
    induction n with
    | zero =>
      intro text hlen
      rw [List.eq_nil_of_length_eq_zero (Nat.le_zero.1 hlen)]
      exact nil
    | succ n ih =>
      intro text hlen
      cases text with
      | nil => exact nil
      | cons a text =>
        by_cases hp : word <+: a :: text
        · obtain ⟨rest, hrest⟩ := hp
          have hpos : 0 < word.length := List.length_pos_iff.2 hw
          have hle := congrArg List.length hrest
          rw [List.length_append] at hle
          rw [← hrest]
          exact hit rest (ih rest (by omega))
        · exact miss a text hp (ih text (by simpa using hlen))
  exact key text.length text (le_refl _)

/-- A text in which the word does not occur. -/
theorem replaceAll_eq_self {text : List α} (h : ¬ word <:+: text) :
    replaceAll word rep text = text := by
  induction text with
  | nil => rfl
  | cons a text ih =>
    rw [List.infix_cons_iff, not_or] at h
    rw [replaceAll_cons h.1, ih h.2]

theorem length_replaceAll_le (hlt : rep.length < word.length) (text : List α) :
    (replaceAll word rep text).length ≤ text.length := by
  have hw : word ≠ [] := fun h => by simp [h] at hlt
  refine replace_induction (motive := fun text => (replaceAll word rep text).length ≤ text.length)
    hw (le_refl _)
    (fun text ih => ?_) (fun a text hp ih => ?_) text
  · rw [replaceAll_word hw, List.length_append, List.length_append]
    omega
  · rw [replaceAll_cons hp]
    exact Nat.succ_le_succ ih

/-- An occurrence makes the text shorter. -/
theorem length_replaceAll_lt (hlt : rep.length < word.length) {text : List α} (h : word <:+: text) :
    (replaceAll word rep text).length < text.length := by
  have hw : word ≠ [] := fun h => by simp [h] at hlt
  refine replace_induction (motive := fun text => word <:+: text →
    (replaceAll word rep text).length < text.length) hw
    (fun h => absurd (List.infix_nil.1 h) hw) (fun text _ _ => ?_) (fun a text hp ih h => ?_) text h
  · have hle := length_replaceAll_le hlt text
    rw [replaceAll_word hw, List.length_append, List.length_append]
    omega
  · rw [replaceAll_cons hp]
    exact Nat.succ_lt_succ (ih ((List.infix_cons_iff.1 h).resolve_left hp))

/-- No occurrence reaches from the one text into the other. -/
def Apart (word xs ys : List α) : Prop := ∀ s t, xs = s ++ t → t ≠ [] →
    word <+: t ++ ys → word <+: t

theorem replaceAll_append (hw : word ≠ []) {xs ys : List α} (h : Apart word xs ys) :
    replaceAll word rep (xs ++ ys) = replaceAll word rep xs ++ replaceAll word rep ys := by
  refine replace_induction
    (motive := fun xs => Apart word xs ys →
      replaceAll word rep (xs ++ ys) = replaceAll word rep xs ++ replaceAll word rep ys)
    hw (fun _ => rfl) (fun text ih h => ?_) (fun a text hp ih h => ?_) xs h
  · rw [List.append_assoc, replaceAll_word hw, replaceAll_word hw, List.append_assoc,
      ih fun s t hst => h (word ++ s) t (by rw [hst, List.append_assoc])]
  · have hp' : ¬ word <+: a :: (text ++ ys) :=
      fun hin => hp (h [] (a :: text) rfl (List.cons_ne_nil _ _) hin)
    rw [List.cons_append, replaceAll_cons hp', replaceAll_cons hp,
      ih fun s t hst => h (a :: s) t (by rw [hst, List.cons_append])]
    rfl

omit [DecidableEq α] in
/-- A word of two letters is kept apart by its first letter or by its second. -/
theorem apart_pair {a b : α} {xs ys : List α} (h : xs.getLast? ≠ some a ∨ ys.head? ≠ some b) :
    Apart [a, b] xs ys := by
  rintro s t rfl ht hp
  obtain ⟨x, t, rfl⟩ := List.exists_cons_of_ne_nil ht
  obtain ⟨rfl, hb⟩ := List.cons_prefix_cons.1 hp
  cases t with
  | nil =>
    exfalso
    rcases h with h | h
    · exact h (by simp)
    · cases ys with
      | nil => simp at hb
      | cons y ys =>
        obtain ⟨rfl, -⟩ := List.cons_prefix_cons.1 hb
        exact h rfl
  | cons y t =>
    obtain ⟨rfl, -⟩ := List.cons_prefix_cons.1 hb
    simp

/-- A single letter is replaced wherever it stands. -/
theorem replaceAll_singleton (a : α) (rep text : List α) :
    replaceAll [a] rep text = text.flatMap fun c => if c = a then rep else [c] := by
  induction text with
  | nil => rfl
  | cons c text ih =>
    rw [List.flatMap_cons]
    by_cases hc : c = a
    · subst hc
      rw [if_pos rfl, ← ih]
      exact replaceAll_word (List.cons_ne_nil c []) text
    · rw [if_neg hc, ← ih]
      exact replaceAll_cons fun hp => hc (List.cons_prefix_cons.1 hp).1.symm

/-- What stands in the text after a replacement stood there before or comes with the replacement. -/
theorem mem_of_mem_replaceAll (hw : word ≠ []) {text : List α} {c : α}
    (h : c ∈ replaceAll word rep text) : c ∈ text ∨ c ∈ rep := by
  refine replace_induction (motive := fun text => c ∈ replaceAll word rep text →
    c ∈ text ∨ c ∈ rep) hw
      (fun h => Or.inl h) (fun text ih h => ?_) (fun a text hp ih h => ?_) text h
  · rw [replaceAll_word hw, List.mem_append] at h
    rcases h with h | h
    · exact Or.inr h
    · exact (ih h).imp_left (List.mem_append_right word)
  · rw [replaceAll_cons hp, List.mem_cons] at h
    rcases h with rfl | h
    · exact Or.inl List.mem_cons_self
    · exact (ih h).imp_left (List.mem_cons_of_mem a)

/-! ## Pairs -/

section
variable {a b r : α}

theorem head?_of_replaceAll {text : List α} {c : α} (hc : c ≠ r)
    (h : (replaceAll [a, b] [r] text).head? = some c) :
    text.head? = some c := by
  refine replace_induction
    (motive := fun text => (replaceAll [a, b] [r] text).head? = some c → text.head? = some c)
    (List.cons_ne_nil a [b]) (fun h => h) (fun text _ h => ?_) (fun x text hp _ h => ?_) text h
  · rw [replaceAll_word (List.cons_ne_nil _ _)] at h
    exact absurd (Option.some.inj h).symm hc
  · rwa [replaceAll_cons hp] at h

/-- Two letters that stand next to each other after a replacement, and do not come with it, did so
before. -/
theorem infix_of_replaceAll {text : List α} {c d : α} (hc : c ≠ r) (hd : d ≠ r)
    (h : [c, d] <:+: replaceAll [a, b] [r] text) : [c, d] <:+: text := by
  refine replace_induction
    (motive := fun text => [c, d] <:+: replaceAll [a, b] [r] text → [c, d] <:+: text)
    (List.cons_ne_nil a [b]) (fun h => h) (fun text ih h => ?_) (fun x text hp ih h => ?_) text h
  · rw [replaceAll_word (List.cons_ne_nil _ _), List.singleton_append] at h
    rcases List.infix_cons_iff.1 h with hpre | hin
    · exact absurd (List.cons_prefix_cons.1 hpre).1 hc
    · exact (ih hin).trans (List.suffix_append [a, b] text).isInfix
  · rw [replaceAll_cons hp] at h
    rcases List.infix_cons_iff.1 h with hpre | hin
    · obtain ⟨rfl, hrest⟩ := List.cons_prefix_cons.1 hpre
      obtain ⟨t, ht⟩ := hrest
      have hhead : text.head? = some d := head?_of_replaceAll hd (by rw [← ht]; rfl)
      obtain ⟨rest, rfl⟩ := List.head?_eq_some_iff.1 hhead
      exact ⟨[], rest, rfl⟩
    · exact (ih hin).trans (List.suffix_cons x text).isInfix

/-- Letters written as words commute with the replacement of a pair that none of the words takes
part in. -/
theorem replaceAll_flatMap {f : α → List α} (ha : f a = [a]) (hb : f b = [b]) (hr : f r = [r])
    (hword : ∀ c, c ≠ a → (f c).getLast? ≠ some a ∧ ¬ [a, b] <:+: f c)
    (hhead : ∀ c, (f c).head? = some b → c = b) (hne : ∀ c, f c ≠ []) (text : List α) :
    replaceAll [a, b] [r] (text.flatMap f) = (replaceAll [a, b] [r] text).flatMap f := by
  refine replace_induction
    (motive :=
      fun text => replaceAll [a, b] [r] (text.flatMap f) = (replaceAll [a, b] [r] text).flatMap f)
    (List.cons_ne_nil a [b]) rfl (fun text ih => ?_) (fun x text hp ih => ?_) text
  · rw [List.flatMap_append, List.flatMap_cons, List.flatMap_singleton, ha, hb,
      List.singleton_append,
      replaceAll_word (List.cons_ne_nil _ _), replaceAll_word (List.cons_ne_nil _ _),
      List.flatMap_append, ih, List.flatMap_singleton, hr]
  · rw [List.flatMap_cons, replaceAll_cons hp, List.flatMap_cons, ← ih]
    by_cases hx : x = a
    · subst hx
      rw [ha, List.singleton_append, List.singleton_append]
      refine replaceAll_cons fun hpre => hp ?_
      obtain ⟨t, ht⟩ := (List.cons_prefix_cons.1 hpre).2
      cases text with
      | nil => cases ht
      | cons c text =>
        have hc : (f c).head? = some b := by
          obtain ⟨d, rest, hfc⟩ := List.exists_cons_of_ne_nil (hne c)
          rw [List.flatMap_cons, hfc] at ht
          rw [hfc]
          exact congrArg some (List.cons.inj ht).1.symm
        rw [hhead c hc]
        exact ⟨text, rfl⟩
    · rw [replaceAll_append (List.cons_ne_nil _ _) (apart_pair (Or.inl (hword x hx).1)),
        replaceAll_eq_self (hword x hx).2]

/-- A letter written as the pair is read as the letter again, and all else as it would be without
that. -/
theorem replaceAll_flatMap_pair (ha : a ≠ r) (hb : b ≠ r) (hab : a ≠ b) (text : List α) :
    replaceAll [a, b] [r] (text.flatMap fun c => if c = r then [a, b] else [c]) = replaceAll [a, b]
    [r] text := by
  refine replace_induction
    (motive :=
      fun text => replaceAll [a, b] [r] (text.flatMap fun c => if c = r then [a, b] else [c]) =
      replaceAll [a, b] [r] text)
    (List.cons_ne_nil a [b]) rfl (fun text ih => ?_) (fun x text hp ih => ?_) text
  · rw [List.flatMap_append, List.flatMap_cons, List.flatMap_singleton, if_neg ha, if_neg hb,
      List.singleton_append,
      replaceAll_word (List.cons_ne_nil _ _), replaceAll_word (List.cons_ne_nil _ _), ih]
  · rw [List.flatMap_cons, replaceAll_cons hp]
    by_cases hx : x = r
    · rw [if_pos hx, replaceAll_word (List.cons_ne_nil _ _), ih, hx]
      rfl
    · rw [if_neg hx, List.singleton_append, ← ih]
      refine replaceAll_cons fun hpre => hp ?_
      obtain ⟨rfl, t, ht⟩ := List.cons_prefix_cons.1 hpre
      cases text with
      | nil => cases ht
      | cons c text =>
        by_cases hc : c = r
        · rw [List.flatMap_cons, if_pos hc] at ht
          exact absurd (List.cons.inj ht).1.symm hab
        · rw [List.flatMap_cons, if_neg hc] at ht
          rw [← (List.cons.inj ht).1]
          exact ⟨text, rfl⟩

end

end Coopy.Lib
