import Coopy.Lib.Quoting
import Coopy.TdiffWriter

/-!
# `quoteSql`, read by the rule of its delimiter

A quoted token ends at its closing delimiter, and two closing delimiters stand for one.  Between
quotes that is how texts are written.  Between brackets it is the opening delimiter that is followed
by a closing one, so that a bracket comes through only in a pair:

    the token is read back, or the text is left alone for its characters
      ↔ the delimiter is a quote, or brackets stand in the text as `[]` only            (quotes_iff)
-/

namespace Coopy

open Lib

namespace Tdiff

/-- The delimiters of `getSqlQuote`, of the text dump and of tdiff. -/
inductive Delimiter
  | single
  | double
  | bracket
deriving DecidableEq, Repr

namespace Delimiter

def opening : Delimiter → Char
  | single => '\''
  | double => '"'
  | bracket => '['

def closing : Delimiter → Char
  | single => '\''
  | double => '"'
  | bracket => ']'

/-- The text of a token that fills `s`. -/
def read (d : Delimiter) : List Char → Option (List Char)
  | [] => none
  | c :: s => if c = d.opening then readClosed d.closing s else none

end Delimiter

/-- A text comes through quoting: quoted always, as a token; else as a token, or as it is. -/
def Quotes (d : Delimiter) (x : List Char) : Prop :=
  d.read (quoteSql x d.opening true) = some x ∧
    (d.read (quoteSql x d.opening false) = some x ∨
      (quoteSql x d.opening false = x ∧ ∀ c ∈ x, isWordChar c = true))

instance (d : Delimiter) (x : List Char) : Decidable (Quotes d x) :=
  inferInstanceAs (Decidable (_ ∧ (_ ∨ (_ ∧ _))))

/-- Brackets stand in the text in pairs, with nothing between them. -/
def paired : List Char → Bool
  | [] => true
  | [c] => c != '[' && c != ']'
  | c :: d :: rest => if c = '[' then d == ']' && paired rest else c != ']' && paired (d :: rest)

/-! ## The two forms of a token -/

/-- What stands between the delimiters. -/
def body (d : Delimiter) (x : List Char) : List Char :=
  x.flatMap fun ch => if ch ≠ d.opening then [ch] else [d.opening, d.closing]

/-- The delimiters are not easy. -/
theorem isWordChar_delimiter (d : Delimiter) : isWordChar d.opening = false ∧
    isWordChar d.closing = false := by
  cases d <;> decide

theorem body_eq_self {d : Delimiter} {x : List Char} (h : d.opening ∉ x) : body d x = x := by
  have hone : ∀ c ∈ x, (if c ≠ d.opening then [c] else [d.opening, d.closing]) = [c] := fun c hc =>
    if_pos fun (he : c = d.opening) => h (he ▸ hc)
  unfold body
  rw [List.flatMap_congr hone, List.flatMap_singleton']

/-- A token, if it is wanted or there is something to quote. -/
theorem quoteSql_eq (d : Delimiter) (x : List Char) (always : Bool) : quoteSql x d.opening always =
    if (always || x.any fun ch => !isWordChar ch) = true then d.opening :: body d x ++ [d.closing]
    else x := by
  have hclosing : (if d.opening = '[' then ']' else d.opening) = d.closing := by cases d <;> rfl
  unfold quoteSql
  simp only [hclosing]
  cases heasy : x.any fun ch => !isWordChar ch && (ch == d.opening || ch == d.closing) with
  | true =>
    obtain ⟨c, hc, hdel⟩ := List.any_eq_true.1 heasy
    have hquote : (x.any fun ch => !isWordChar ch) = true :=
      List.any_eq_true.2 ⟨c, hc, (Bool.and_eq_true_iff.1 hdel).1⟩
    simp only [hquote, Bool.or_true, Bool.not_true, Bool.and_false, Bool.false_eq_true, if_false,
      Bool.not_false, if_true]
    rfl
  | false =>
    have hfree : d.opening ∉ x := by
      intro hc
      have hdel := List.any_eq_false.1 heasy d.opening hc
      simp [(isWordChar_delimiter d).1] at hdel
    simp only [Bool.not_false, Bool.and_true, Bool.not_true, Bool.false_eq_true, if_false,
      body_eq_self hfree]

theorem read_token (d : Delimiter) (x : List Char) :
    d.read (d.opening :: body d x ++ [d.closing]) = some x ↔ body d x = doubleMark d.closing x := by
  have hread :
    d.read (d.opening :: body d x ++ [d.closing]) = readClosed d.closing
      (body d x ++ [d.closing]) := if_pos rfl
  rw [hread, readClosed_eq_some, List.append_left_inj]

/-! ## Brackets -/

section
variable {x y : List Char}

theorem body_bracket_cons (x : List Char) :
    body .bracket ('[' :: x) = '[' :: ']' :: body .bracket x := rfl

theorem body_cons {c : Char} (h : c ≠ '[') (x : List Char) :
    body .bracket (c :: x) = c :: body .bracket x := by
  have hopening : c ≠ Delimiter.bracket.opening := h
  unfold body
  rw [List.flatMap_cons, if_pos hopening]
  rfl

/-- A closing bracket too few is never made up for. -/
theorem body_ne_replicate (y : List Char) :
    ∀ k, body .bracket y ≠ List.replicate (k + 1) ']' ++ doubleMark ']' y := by
  induction y with
  | nil => exact fun k h => by cases h
  | cons c y ih =>
    intro k h
    by_cases hclose : c = ']'
    · subst hclose
      rw [body_cons (by decide), doubleMark_cons_self, List.replicate_succ, List.cons_append] at h
      refine ih (k + 1) ?_
      have hmore : List.replicate (k + 1 + 1) ']' = List.replicate k ']' ++ [']', ']'] :=
        @List.replicate_add _ k 2 ']'
      rw [(List.cons.inj h).2, hmore, List.append_assoc]
      rfl
    · -- the text goes on with something else, and the brackets are missing
      rw [List.replicate_succ, List.cons_append] at h
      by_cases hopen : c = '['
      · subst hopen
        exact absurd (List.cons.inj h).1 (by decide)
      · rw [body_cons hopen] at h
        exact hclose (List.cons.inj h).1

/-- Behind an opening bracket there has to be a closing one. -/
theorem body_open_iff (y : List Char) : body .bracket ('[' :: y) = doubleMark ']' ('[' :: y) ↔
    ∃ z, y = ']' :: z ∧ body .bracket z = doubleMark ']' z := by
  rw [body_bracket_cons, doubleMark_cons (by decide), List.cons_inj_right]
  constructor
  · intro h
    cases y with
    | nil => cases h
    | cons c z =>
      by_cases hc : c = ']'
      · subst hc
        rw [body_cons (by decide), doubleMark_cons_self] at h
        exact ⟨z, rfl, (List.cons.inj (List.cons.inj h).2).2⟩
      · rw [doubleMark_cons hc] at h
        exact absurd (List.cons.inj h).1.symm hc
  · rintro ⟨z, rfl, hz⟩
    rw [body_cons (by decide), doubleMark_cons_self, hz]

theorem body_eq_doubleMark_iff : ∀ x : List Char, body .bracket x = doubleMark ']' x ↔
    paired x = true
  | [] => by decide
  | [c] => by
    by_cases hopen : c = '['
    · subst hopen
      decide
    · by_cases hclose : c = ']'
      · subst hclose
        decide
      · rw [body_cons hopen, doubleMark_cons hclose]
        simp [paired, hopen, hclose, body, doubleMark]
  | c :: d :: rest => by
    unfold paired
    by_cases hopen : c = '['
    · subst hopen
      rw [body_open_iff, if_pos rfl, Bool.and_eq_true, beq_iff_eq, ← body_eq_doubleMark_iff rest]
      constructor
      · rintro ⟨z, hz, hrest⟩
        obtain ⟨rfl, rfl⟩ := List.cons.inj hz
        exact ⟨rfl, hrest⟩
      · rintro ⟨rfl, hrest⟩
        exact ⟨rest, rfl, hrest⟩
    · rw [if_neg hopen, Bool.and_eq_true, bne_iff_ne, ← body_eq_doubleMark_iff (d :: rest),
        body_cons hopen]
      by_cases hclose : c = ']'
      · subst hclose
        refine iff_of_false (fun h => ?_) fun h => h.1 rfl
        rw [doubleMark_cons_self] at h
        exact body_ne_replicate (d :: rest) 0 (List.cons.inj h).2
      · rw [doubleMark_cons hclose, List.cons_inj_right]
        exact ⟨fun h => ⟨hclose, h⟩, fun h => h.2⟩

end

/-! ## What comes through -/

theorem body_eq_iff (d : Delimiter) (x : List Char) :
    body d x = doubleMark d.closing x ↔ (d = .bracket → paired x = true) := by
  cases d with
  | bracket => rw [← body_eq_doubleMark_iff]; exact ⟨fun h _ => h, fun h => h rfl⟩
  | single =>
    refine iff_of_true ?_ (fun h => by cases h)
    exact List.flatMap_congr fun c _ => ite_not ..
  | double =>
    refine iff_of_true ?_ (fun h => by cases h)
    exact List.flatMap_congr fun c _ => ite_not ..

/-- **A text comes through** if no bracket of it is in the way of the brackets around it. -/
theorem quotes_iff (d : Delimiter) (x : List Char) :
    Quotes d x ↔ (d = .bracket → paired x = true) := by
  unfold Quotes
  rw [quoteSql_eq, Bool.true_or, if_pos rfl, read_token, body_eq_iff]
  refine and_iff_left_of_imp fun hpaired => ?_
  rw [quoteSql_eq, Bool.false_or]
  cases hquote : x.any fun ch => !isWordChar ch with
  | true =>
    rw [if_pos rfl, read_token, body_eq_iff]
    exact Or.inl hpaired
  | false =>
    rw [if_neg (by decide)]
    exact Or.inr ⟨rfl, fun c hc => by simpa using List.any_eq_false.1 hquote c hc⟩

/-- An opening bracket is followed by a closing one, and a closing one is not doubled. -/
theorem not_quotes : ¬ ∀ (d : Delimiter) (x : List Char), Quotes d x :=
  fun h => absurd (h .bracket "a]b".toList) (by decide)

end Tdiff

end Coopy
