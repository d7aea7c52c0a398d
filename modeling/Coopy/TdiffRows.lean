import Coopy.TdiffReader

/-!
# The spellings of a tdiff row line

A row line is an operator, a bar, and terms between bars.  The grammar lets the final bar be left
out, and blanks stand on both sides of a bar.  The scanner drops what stands behind the last bar,
and from the first bar on it takes a blank for a part of the term.

    the line is read as its operator and its terms
      ↔ no terms, or a final bar, and no blanks next to a term             (normalizedMessage_iff)
-/

namespace Coopy

open Lib

namespace Tdiff

/-- The quotes are closed at the end, and no bar stands outside of them; `quote` is set behind an
open one. -/
def closes : (quote : Bool) → List Char → Bool
  | quote, [] => !quote
  | quote, ch :: rest =>
    if ch = '\'' then closes (!quote) rest else (quote || decide (ch ≠ '|')) && closes quote rest

/-! ## Lines -/

structure Blanks where
  text : List Char
  blank : ∀ ch ∈ text, ch = ' ' ∨ ch = '\t'

/-- The characters of an operator. -/
def Plain (ch : Char) : Prop := ch ≠ '\'' ∧ ch ≠ ' ' ∧ ch ≠ '\r' ∧ ch ≠ '\t' ∧ ch ≠ '|' ∧ ch ≠ '\\'

instance : DecidablePred Plain := fun ch =>
  inferInstanceAs (Decidable (ch ≠ '\'' ∧ ch ≠ ' ' ∧ ch ≠ '\r' ∧ ch ≠ '\t' ∧ ch ≠ '|' ∧ ch ≠ '\\'))

theorem plain_of_all {text : List Char} (h : text.all (fun ch => decide (Plain ch)) = true) :
    ∀ ch ∈ text, Plain ch :=
  fun ch hch => of_decide_eq_true (List.all_eq_true.1 h ch hch)

structure Operator where
  text : List Char
  some_char : text ≠ []
  plain : ∀ ch ∈ text, Plain ch

/-- A term, with the blanks between it and the bars next to it. -/
structure Term where
  before : Blanks
  text : List Char
  after : Blanks
  closed : closes false text = true

structure RowLine where
  op : Operator
  lead : Blanks
  terms : List Term
  finalBar : Bool
  tail : Blanks

def Term.padded (t : Term) : List Char := t.before.text ++ t.text ++ t.after.text

/-- The terms behind the first bar, each with its bar but perhaps the last. -/
def spell (finalBar : Bool) : List Term → List Char
  | [] => []
  | [t] => t.padded ++ if finalBar then ['|'] else []
  | t :: u :: ts => t.padded ++ '|' :: spell finalBar (u :: ts)

def RowLine.text (l : RowLine) : List Char :=
  l.op.text ++ l.lead.text ++
  (if l.terms ≠ [] ∨ l.finalBar = true then '|' :: spell l.finalBar l.terms else []) ++ l.tail.text

/-! ## The scanner -/

/-- Behind the first bar. -/
def inTerm (result : List Char) (quote : Bool) : Scanner := ⟨result, quote, true, true, true⟩

/-- Before it, with an operator read or not. -/
def beforeBar (result : List Char) (pending : Bool) : Scanner :=
  ⟨result, false, pending, false, false⟩

open Transducer

/-- A closed text becomes a part of the term. -/
theorem passes_closed {text : List Char} : ∀ {result quote}, closes quote text = true →
    Passes Scanner.step (inTerm result quote) text [] (inTerm (result ++ text) false) := by
  induction text with
  | nil =>
    intro result quote h
    obtain rfl : quote = false := by simpa [closes] using h
    rw [List.append_nil]
    exact Passes.nil _
  | cons ch text ih =>
    intro result quote h
    rw [closes] at h
    have happ : result ++ ch :: text = result ++ [ch] ++ text := by simp
    rw [happ]
    by_cases hq : ch = '\''
    · rw [if_pos hq] at h
      refine Passes.quiet ?_ (ih h)
      unfold Scanner.step
      rw [if_pos hq]
      rfl
    · rw [if_neg hq, Bool.and_eq_true] at h
      refine Passes.quiet ?_ (ih h.2)
      unfold Scanner.step
      rw [if_neg hq]
      cases quote with
      | true => rfl
      | false =>
        have hbar : ch ≠ '|' := by simpa using h.1
        rw [if_neg (by exact Bool.false_ne_true), if_neg (by simp [inTerm, hbar])]
        rfl

/-- A bar outside of quotes ends the term. -/
theorem step_bar (result : List Char) :
    Scanner.step (inTerm result false) '|' = ([result], inTerm [] false) := rfl

theorem closes_append {xs ys : List Char} (hx : closes false xs = true) :
    closes false (xs ++ ys) = closes false ys := by
  have key : ∀ (xs : List Char) (quote : Bool), closes quote xs = true →
    closes quote (xs ++ ys) = closes false ys := by
    intro xs
    induction xs with
    | nil =>
      intro quote h
      obtain rfl : quote = false := by simpa [closes] using h
      rfl
    | cons ch xs ih =>
      intro quote h
      rw [List.cons_append, closes]
      rw [closes] at h
      split at h
      · next hq => rw [if_pos hq, ih _ h]
      · next hq =>
        rw [Bool.and_eq_true] at h
        rw [if_neg hq, h.1, ih _ h.2, Bool.true_and]
  exact key xs false hx

theorem closes_of_plain {xs : List Char} (h : ∀ ch ∈ xs, ch ≠ '\'' ∧ ch ≠ '|') :
    closes false xs = true := by
  induction xs with
  | nil => rfl
  | cons ch xs ih =>
    obtain ⟨⟨hq, hb⟩, hxs⟩ := List.forall_mem_cons.1 h
    rw [closes, if_neg hq, ih hxs]
    simp [hb]

theorem Blanks.closed (b : Blanks) : closes false b.text = true :=
  closes_of_plain fun ch hch => by
    rcases b.blank ch hch with rfl | rfl <;> exact ⟨by decide, by decide⟩

theorem Term.closed_padded (t : Term) : closes false t.padded = true := by
  unfold Term.padded
  rw [List.append_assoc, closes_append t.before.closed, closes_append t.closed, t.after.closed]

/-- The terms that end with a bar are given out. -/
theorem passes_spell (ts : List Term) :
    Passes Scanner.step (inTerm [] false) (spell true ts) (ts.map Term.padded)
    (inTerm [] false) := by
  have hterm : ∀ t : Term, Passes Scanner.step (inTerm [] false) (t.padded ++ ['|']) [t.padded]
    (inTerm [] false) := fun t => (passes_closed t.closed_padded).snoc (step_bar _)
  induction ts with
  | nil => exact Passes.nil _
  | cons t ts ih =>
    cases ts with
    | nil => exact hterm t
    | cons u ts =>
      have h := (hterm t).append ih
      rwa [List.append_assoc, List.singleton_append] at h

/-- Without the final bar the last term is kept back. -/
theorem passes_spell_open (ts : List Term) (t : Term) :
    Passes Scanner.step (inTerm [] false) (spell false (ts ++ [t])) (ts.map Term.padded)
    (inTerm t.padded false) := by
  induction ts with
  | nil =>
    show Passes Scanner.step (inTerm [] false) (t.padded ++ []) [] (inTerm t.padded false)
    rw [List.append_nil]
    exact passes_closed t.closed_padded
  | cons u ts ih =>
    have hspell : spell false (u :: ts ++ [t]) = u.padded ++ ['|'] ++ spell false (ts ++ [t]) := by
      cases ts with
      | nil => simp [spell]
      | cons v ts => simp [spell]
    rw [hspell]
    exact ((passes_closed u.closed_padded).snoc (step_bar _)).append ih

theorem step_plain {ch : Char} (h : Plain ch) (result : List Char) (pending : Bool) :
    Scanner.step (beforeBar result pending) ch = ([], beforeBar (result ++ [ch]) true) := by
  obtain ⟨hq, hs, hr, ht, hb, -⟩ := h
  unfold Scanner.step
  rw [if_neg hq, if_neg (by exact Bool.false_ne_true), if_neg (by simp [hs, hr, ht, hb])]
  rfl

/-- The operator is kept until something ends it. -/
theorem passes_operator (op : Operator) :
    Passes Scanner.step {} op.text [] (beforeBar op.text true) := by
  have key : ∀ (text result : List Char), (∀ ch ∈ text, Plain ch) → text ≠ [] → ∀ pending,
      Passes Scanner.step (beforeBar result pending) text [] (beforeBar (result ++ text) true) := by
    intro text
    induction text with
    | nil => exact fun result _ h => absurd rfl h
    | cons ch text ih =>
      intro result h _ pending
      obtain ⟨hch, htext⟩ := List.forall_mem_cons.1 h
      refine Passes.quiet (step_plain hch result pending) ?_
      cases htx : text with
      | nil => exact Passes.nil _
      | cons d rest =>
        have := ih (result ++ [ch]) htext (by rw [htx]; exact List.cons_ne_nil _ _) true
        rw [htx] at this
        rwa [List.append_assoc, List.singleton_append] at this
  exact key op.text [] op.plain op.some_char false

theorem step_blank {ch : Char} (h : ch = ' ' ∨ ch = '\t') (result : List Char) (pending : Bool) :
    Scanner.step (beforeBar result pending) ch =
    (if pending then [result] else [], beforeBar [] false) := by
  rcases h with rfl | rfl <;> rfl

/-- Blanks before any word give nothing out. -/
theorem passes_indent {text : List Char} (h : ∀ ch ∈ text, ch = ' ' ∨ ch = '\t') :
    Passes Scanner.step (beforeBar [] false) text [] (beforeBar [] false) := by
  induction text with
  | nil => exact Passes.nil _
  | cons ch text ih =>
    obtain ⟨hch, htext⟩ := List.forall_mem_cons.1 h
    exact Passes.quiet (step_blank hch [] false) (ih htext)

/-- Blanks behind the operator end it. -/
theorem passes_blanks (b : Blanks) (result : List Char) :
    Passes Scanner.step (beforeBar result true) b.text (if b.text = [] then [] else [result])
      (if b.text = [] then beforeBar result true else beforeBar [] false) := by
  obtain ⟨text, hb⟩ := b
  cases text with
  | nil => exact Passes.nil _
  | cons ch text =>
    obtain ⟨hch, htext⟩ := List.forall_mem_cons.1 hb
    exact Passes.cons (step_blank hch result true) (passes_indent htext)

/-- The operator, the blanks behind it, and the first bar. -/
theorem passes_lead (op : Operator) (lead : Blanks) :
    Passes Scanner.step {} (op.text ++ lead.text ++ ['|']) [op.text] (inTerm [] false) := by
  have h := (passes_operator op).append (passes_blanks lead op.text)
  by_cases hl : lead.text = []
  · rw [if_pos hl, if_pos hl] at h
    exact h.snoc rfl
  · rw [if_neg hl, if_neg hl] at h
    exact h.snoc rfl

/-! ## What is read of a line -/

theorem tokens_of_passes {line : List Char} {es : List (List Char)} {s : Scanner}
    (h : Passes Scanner.step {} line es s) : tokens line = es ++ s.last := by
  unfold tokens
  rw [h.run_eq]

/-- Nothing is given out at the end of a line with bars. -/
theorem last_inTerm (result : List Char) (quote : Bool) : (inTerm result quote).last = [] := by
  unfold Scanner.last
  rw [if_neg fun h => by cases h.2.2]

theorem Blanks.passes (b : Blanks) (result : List Char) :
    Passes Scanner.step (inTerm result false) b.text [] (inTerm (result ++ b.text) false) :=
  passes_closed b.closed

namespace RowLine

variable (l : RowLine)

/-- What stands behind the last bar is not read. -/
theorem tokens_of_terms {spelled result : List Char} {es : List (List Char)}
    (h : Passes Scanner.step (inTerm [] false) spelled es (inTerm result false)) :
    tokens (l.op.text ++ l.lead.text ++ '|' :: spelled ++ l.tail.text) = l.op.text :: es := by
  have hpass := ((passes_lead l.op l.lead).append h).append (l.tail.passes result)
  rw [List.append_assoc (l.op.text ++ l.lead.text), List.singleton_append] at hpass
  rw [tokens_of_passes hpass, last_inTerm, List.append_nil, List.append_nil]
  rfl

/-- An operator alone. -/
theorem tokens_operator : tokens (l.op.text ++ l.lead.text ++ l.tail.text) = [l.op.text] := by
  have hblank : ∀ ch ∈ l.lead.text ++ l.tail.text, ch = ' ' ∨ ch = '\t' := fun ch hch =>
    (List.mem_append.1 hch).elim (l.lead.blank ch) (l.tail.blank ch)
  have hpass :=
    (passes_operator l.op).append (passes_blanks ⟨l.lead.text ++ l.tail.text, hblank⟩ l.op.text)
  rw [List.append_assoc, tokens_of_passes hpass]
  by_cases hb : l.lead.text ++ l.tail.text = []
  · rw [if_pos hb, if_pos hb]
    unfold Scanner.last
    rw [if_pos ⟨rfl, l.op.some_char, rfl⟩]
    rfl
  · rw [if_neg hb, if_neg hb]
    rfl

/-- The terms that are given out: all of them behind a final bar, all but the last without it. -/
theorem tokens_text : tokens l.text =
    l.op.text :: (if l.finalBar then l.terms else l.terms.dropLast).map Term.padded := by
  unfold text
  cases hbar : l.finalBar with
  | true =>
    rw [if_pos (Or.inr rfl), if_pos rfl]
    exact l.tokens_of_terms (passes_spell l.terms)
  | false =>
    rw [if_neg Bool.false_ne_true]
    rcases List.eq_nil_or_concat l.terms with hnil | ⟨ts, t, hts⟩
    · rw [hnil, if_neg (by simp), List.append_nil]
      exact l.tokens_operator
    · rw [if_pos (Or.inl (by rw [hts]; simp)), hts, List.concat_eq_append, List.dropLast_concat]
      exact l.tokens_of_terms (passes_spell_open ts t)

/-- The spellings that are read: a final bar behind the terms, and no blanks next to them. -/
def Tight : Prop :=
  (l.terms = [] ∨ l.finalBar = true) ∧ ∀ t ∈ l.terms, t.before.text = [] ∧ t.after.text = []

end RowLine

theorem unescape_blanks {text : List Char} (h : ∀ ch ∈ text, ch = ' ' ∨ ch = '\t') :
    unescape text = text :=
  unescape_of_unescaped
  (unescaped_of_notMem fun hm => by rcases h _ hm with h | h <;> exact absurd h (by decide))

theorem Operator.unescape_text (op : Operator) : unescape op.text = op.text :=
  unescape_of_unescaped (unescaped_of_notMem fun hm => (op.plain _ hm).2.2.2.2.2 rfl)

/-- The blanks stay on both sides of the term. -/
theorem Term.unescape_padded (t : Term) :
    unescape t.padded = t.before.text ++ unescape t.text ++ t.after.text := by
  have hback : ∀ b : Blanks, '\\' ∉ b.text := fun b hm => by
    rcases b.blank _ hm with h | h <;> exact absurd h (by decide)
  unfold Term.padded
  rw [List.append_assoc, unescape_append_left (hback t.before), unescape_append (fun ch hch => ?_),
    unescape_blanks t.after.blank, List.append_assoc]
  rcases t.after.blank ch (List.mem_of_mem_head? hch) with rfl | rfl <;>
    exact ⟨by decide, by decide, by decide⟩

/-- **A row line is read** as its operator and its terms, if and only if it is spelled tight. -/
theorem normalizedMessage_iff (l : RowLine) :
    normalizedMessage l.text = (l.op.text :: l.terms.map Term.text).map unescape ↔ l.Tight := by
  unfold normalizedMessage
  have hall : l.terms = [] ∨ l.finalBar = true →
    (if l.finalBar then l.terms else l.terms.dropLast) = l.terms := by
    rintro (hnil | hbar)
    · rw [hnil]
      exact ite_self _
    · rw [if_pos hbar]
  rw [l.tokens_text, List.map_cons, List.map_cons, List.map_map, List.map_map]
  constructor
  · intro h
    have hterms := (List.cons.inj h).2
    have hbar : l.terms = [] ∨ l.finalBar = true := by
      cases hf : l.finalBar with
      | true => exact Or.inr rfl
      | false =>
        -- one token less than there are terms
        have hlen := congrArg List.length hterms
        rw [hf, if_neg Bool.false_ne_true, List.length_map, List.length_map,
          List.length_dropLast] at hlen
        exact Or.inl (List.eq_nil_of_length_eq_zero (by omega))
    refine ⟨hbar, fun t ht => ?_⟩
    rw [hall hbar] at hterms
    have heq := congrArg List.length (List.map_inj_left.1 hterms t ht)
    rw [Function.comp_apply, Function.comp_apply, t.unescape_padded, List.length_append,
      List.length_append] at heq
    exact ⟨List.eq_nil_of_length_eq_zero (by omega), List.eq_nil_of_length_eq_zero (by omega)⟩
  · rintro ⟨hbar, htight⟩
    congr 1
    rw [hall hbar]
    refine List.map_congr_left fun t ht => ?_
    obtain ⟨hb, ha⟩ := htight t ht
    show unescape t.padded = unescape t.text
    rw [t.unescape_padded, hb, ha, List.nil_append, List.append_nil]

def noBlanks : Blanks := ⟨[], List.forall_mem_nil _⟩

def oneBlank : Blanks := ⟨[' '], List.forall_mem_singleton.2 (Or.inl rfl)⟩

/-- A line of the terms `a` and `b`, with these blanks around each of them. -/
def lineOfTwo (around : Blanks) (finalBar : Bool) : RowLine where
  op := ⟨"=".toList, by decide, plain_of_all (by decide)⟩
  lead := oneBlank
  terms := [⟨around, "a".toList, around, by decide⟩, ⟨around, "b".toList, around, by decide⟩]
  finalBar := finalBar
  tail := noBlanks

/-- Of three spellings only the first is tight: the others lack the final bar, or have blanks next
to the terms. -/
theorem normalizedMessage_lineOfTwo :
    ((lineOfTwo noBlanks true).text = "= |a|b|".toList ∧
      normalizedMessage "= |a|b|".toList = ["=".toList, "a".toList, "b".toList]) ∧
    ((lineOfTwo noBlanks false).text = "= |a|b".toList ∧
      normalizedMessage "= |a|b".toList ≠ ["=".toList, "a".toList, "b".toList]) ∧
    ((lineOfTwo oneBlank true).text = "= | a | b |".toList ∧
      normalizedMessage "= | a | b |".toList ≠ ["=".toList, "a".toList, "b".toList]) := by
  refine ⟨⟨by decide, (normalizedMessage_iff (lineOfTwo noBlanks true)).2 ⟨Or.inr rfl, by decide⟩⟩,
    ⟨by decide, fun h => ?_⟩, ⟨by decide, fun h => ?_⟩⟩
  · have htight := (normalizedMessage_iff (lineOfTwo noBlanks false)).1 h
    exact absurd htight.1 (by decide)
  · have htight := (normalizedMessage_iff (lineOfTwo oneBlank true)).1 h
    exact absurd (htight.2 _ List.mem_cons_self).1 (by decide)

/-- Two spellings of `= |a|b|`: without the final bar, and with blanks as in the examples of the
specification. -/
theorem normalizedMessage_variants :
    normalizedMessage "= |a|b|".toList = ["=".toList, "a".toList, "b".toList] ∧
    normalizedMessage "= |a|b".toList = ["=".toList, "a".toList] ∧
    normalizedMessage "= | a | b |".toList = ["=".toList, " a ".toList, " b ".toList] := by
  decide +kernel

end Tdiff

end Coopy
