import Coopy.Lib.Replacing
import Coopy.Table

/-!
# Writing a tdiff term

`celly` decides, character by character, whether a cell is put between quotes.  In a quoted text the
quotes are doubled and the line ends escaped; a backslash is written as it is, with quotes and
without.
-/

namespace Coopy

open Lib

namespace Tdiff

/-! ## Quoting -/

/-- The characters `quoteSql` finds easy. -/
def isWordChar (ch : Char) : Bool :=
  ('A' ≤ ch && ch ≤ 'Z') || ('a' ≤ ch && ch ≤ 'z') || ('0' ≤ ch && ch ≤ '9') || ch == '_'

def quoteSql (x : List Char) (del : Char) (alwaysQuote : Bool) : List Char :=
  let del2 := if del = '[' then ']' else del
  let easy := !x.any fun ch => !isWordChar ch && (ch == del || ch == del2)
  let quote := x.any fun ch => !isWordChar ch
  if (alwaysQuote || quote) && easy then del :: x ++ [del2]
  else if !easy then del :: (x.flatMap fun ch => if ch ≠ del then [ch] else [del, del2]) ++ [del2]
  else x

/-- What `char` holds below 32: the control characters, and with its sign the characters from 128
on. -/
def belowBlank (ch : Char) : Bool := decide (ch.toNat < 32) || decide (128 ≤ ch.toNat)

/-- The loop of `celly`: a character for which the text is quoted. -/
def needQuote (quoteSpace : Bool) : (lastWasMinus : Bool) → List Char → Bool
  | _, [] => false
  | lastWasMinus, ch :: rest =>
    decide (ch ∈ ['\n', '\r', '!', ':', '=', '|', '\'']) || (decide (ch = '>') && lastWasMinus) ||
      (decide (ch = ' ') && quoteSpace) || belowBlank ch || needQuote quoteSpace
        (decide (ch = '-')) rest

def celly (c : SheetCell) (quoteSpace : Bool) : List Char :=
  if c.text = "NULL" ∧ c.escaped = false then "'NULL'".toList
  else if c.escaped then "NULL".toList
  else if needQuote quoteSpace false c.text.toList then
    replaceAll ['\r'] ['\\', 'r'] (replaceAll ['\n'] ['\\', 'n'] (quoteSql c.text.toList '\'' true))
  else c.text.toList

def stringy (s : String) (quoteSpace : Bool) : List Char := celly ⟨s, false⟩ quoteSpace

/-! ## The quoted form -/

/-- Every quote twice. -/
def double (text : List Char) : List Char := text.flatMap fun ch =>
    if ch = '\'' then ['\'', '\''] else [ch]

theorem double_eq_self {text : List Char} (h : '\'' ∉ text) : double text = text := by
  have hone : ∀ ch ∈ text, (if ch = '\'' then ['\'', '\''] else [ch]) = [ch] := fun ch hch =>
    if_neg fun he => h (by rwa [← he])
  unfold double
  rw [List.flatMap_congr hone, List.flatMap_singleton']

/-- Quoted always, a text stands between two quotes with its own doubled. -/
theorem quoteSql_quote (x : List Char) : quoteSql x '\'' true = '\'' :: double x ++ ['\''] := by
  have heasy : (x.any fun ch => !isWordChar ch && (ch == '\'' || ch == '\'')) =
    decide ('\'' ∈ x) := by
    refine Bool.eq_iff_iff.2 ?_
    rw [List.any_eq_true, decide_eq_true_eq]
    constructor
    · rintro ⟨ch, hch, hq⟩
      have he : ch = '\'' := by simpa using (Bool.and_eq_true_iff.1 hq).2
      rwa [← he]
    · exact fun hq => ⟨'\'', hq, rfl⟩
  have hdel : (if '\'' = '[' then ']' else '\'') = '\'' := rfl
  unfold quoteSql
  simp only [hdel, heasy]
  by_cases hq : '\'' ∈ x
  · have hdouble : (x.flatMap fun ch => if ch ≠ '\'' then [ch] else ['\'', '\'']) = double x := by
      refine List.flatMap_congr fun ch _ => ?_
      rw [ite_not]
    simp only [hq, decide_true, Bool.not_true, Bool.and_false, Bool.false_eq_true, if_false,
      Bool.not_false, if_true, hdouble]
  · simp only [hq, decide_false, Bool.not_false, Bool.true_or, Bool.and_true, if_true,
      double_eq_self hq]

/-- The line ends of a quoted text. -/
def escapeLines (text : List Char) : List Char :=
  replaceAll ['\r'] ['\\', 'r'] (replaceAll ['\n'] ['\\', 'n'] text)

theorem escapeLines_eq (text : List Char) : escapeLines text =
    (text.flatMap fun ch => if ch = '\r' then ['\\', 'r'] else [ch]).flatMap
      fun ch => if ch = '\n' then ['\\', 'n'] else [ch] := by
  unfold escapeLines
  rw [replaceAll_singleton, replaceAll_singleton, List.flatMap_assoc, List.flatMap_assoc]
  refine List.flatMap_congr fun ch _ => ?_
  by_cases hn : ch = '\n'
  · subst hn
    rfl
  · by_cases hr : ch = '\r'
    · subst hr
      rfl
    · simp [hn, hr]

theorem celly_quoted {c : SheetCell} {quoteSpace : Bool} (hesc : c.escaped = false)
    (h : c.text = "NULL" ∨ needQuote quoteSpace false c.text.toList = true) :
    celly c quoteSpace = '\'' :: escapeLines (double c.text.toList) ++ ['\''] := by
  unfold celly
  by_cases hnull : c.text = "NULL"
  · rw [if_pos ⟨hnull, hesc⟩, hnull]
    rfl
  · have hquote : escapeLines ('\'' :: double c.text.toList ++ ['\'']) =
        '\'' :: escapeLines (double c.text.toList) ++ ['\''] := by
      rw [escapeLines_eq, escapeLines_eq]
      simp
    rw [if_neg fun hh => hnull hh.1, if_neg (by rw [hesc]; exact Bool.false_ne_true),
      if_pos (h.resolve_left hnull), quoteSql_quote]
    exact hquote

theorem celly_bare {c : SheetCell} {quoteSpace : Bool} (hesc : c.escaped = false)
    (hnull : c.text ≠ "NULL") (h : needQuote quoteSpace false c.text.toList = false) :
    celly c quoteSpace = c.text.toList := by
  unfold celly
  rw [if_neg fun hh => hnull hh.1, if_neg (by rw [hesc]; exact Bool.false_ne_true),
    if_neg (by rw [h]; exact Bool.false_ne_true)]

theorem celly_null {c : SheetCell} {quoteSpace : Bool} (hesc : c.escaped = true) :
    celly c quoteSpace = "NULL".toList := by
  unfold celly
  rw [if_neg (by rw [hesc]; exact fun h => Bool.noConfusion h.2), if_pos hesc]

/-- A text that needs no quotes. -/
theorem needQuote_eq_false {quoteSpace : Bool} {text : List Char} : ∀ {lastWasMinus : Bool},
    needQuote quoteSpace lastWasMinus text = false →
    (∀ ch ∈ text, ch ∉ ['\n', '\r', '!', ':', '=', '|', '\''] ∧ belowBlank ch = false) ∧
      ¬ ['-', '>'] <:+: (if lastWasMinus then ['-'] else []) ++ text := by
  induction text with
  | nil =>
    intro lastWasMinus _
    refine ⟨List.forall_mem_nil _, fun h => ?_⟩
    have hlen := h.length_le
    cases lastWasMinus <;> simp at hlen
  | cons ch text ih =>
    intro lastWasMinus h
    unfold needQuote at h
    simp only [Bool.or_eq_false_iff] at h
    obtain ⟨⟨⟨⟨hmem, hgt⟩, -⟩, hlow⟩, hrest⟩ := h
    obtain ⟨hchars, harrow⟩ := ih hrest
    have hone : ¬ ['-', '>'] <:+: ch :: text := fun h => harrow (by
      by_cases hc : ch = '-'
      · rw [hc] at h ⊢
        exact h
      · rcases List.infix_cons_iff.1 h with hp | hin
        · exact absurd (List.cons_prefix_cons.1 hp).1.symm hc
        · exact hin.trans (List.suffix_append _ _).isInfix)
    refine ⟨List.forall_mem_cons.2 ⟨⟨of_decide_eq_false hmem, hlow⟩, hchars⟩, ?_⟩
    cases lastWasMinus with
    | false => exact hone
    | true =>
      intro h
      rcases List.infix_cons_iff.1 h with hp | hin
      · obtain ⟨t, ht⟩ := (List.cons_prefix_cons.1 hp).2
        rw [← (List.cons.inj ht).1] at hgt
        cases hgt
      · exact hone hin

end Tdiff

end Coopy
