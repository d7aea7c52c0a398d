import Mathlib.Data.List.Forall2
import Coopy.TdiffRows
import Coopy.TdiffWriter

/-!
# Cells through a tdiff line

A text comes back from a tdiff line with its escapes undone, whether it was quoted or not: quoting
doubles the quotes and escapes the line ends, but leaves backslashes alone.  A bare asterisk stands
for no cell.

    a row of cells comes back ↔ each is NULL, or has no null character, no escape,
      and is no asterisk
                                                                                 (row_comesBack_iff)
-/

namespace Coopy

open Lib

namespace Tdiff

/-! ## Pieces of a term -/

/-- State 1 of `peel` behind a text: set by a dash, and taken back by the next one. -/
def dashAfter : Bool → List Char → Bool
  | dash, [] => dash
  | dash, ch :: rest => dashAfter (decide (ch = '-') && !dash) rest

/-- No quote and no separator. -/
structure Bare (text : List Char) : Prop where
  chars : ∀ ch ∈ text, ch ≠ '\'' ∧ ch ≠ ':' ∧ ch ≠ '=' ∧ ch ≠ '!'
  arrow : ¬ ['-', '>'] <:+: text

/-- A piece of a term as it is read: what it says, and whether it is quoted. -/
inductive Shown : List Char → List Char → Bool → Prop
  | bare {text : List Char} : Bare text → Shown text text false
  | quoted (text : List Char) : Shown ('\'' :: double text ++ ['\'']) text true

/-- **One character**: a separator ends the scan, anything else leads on; only a mark at the front
leaves the text as open for a quote as it was. -/
theorem scan_cons (ch : Char) (text : List Char) (i : Nat) (first hq quote bang dash : Bool) :
    (ch ≠ '\'' ∧ (ch = '!' → bang = true) ∧ ∃ sep place conflict, sep ≠ Sep.none ∧ place ≤ i ∧
      i < place + sep.length ∧
      scan i first hq quote bang dash (ch :: text) = ⟨sep, place, hq, conflict⟩) ∨
    ∃ quote' bang' dash', scan i first hq quote bang dash (ch :: text) =
      scan (i + 1) (!quote && decide (ch = '!') && decide (i = 0))
      (if ch = '\'' then hq || first else hq) quote' bang' dash' text := by
  rw [scan]
  by_cases hquote : ch = '\''
  · subst hquote
    refine Or.inr ⟨!quote, bang, false, ?_⟩
    rw [if_pos rfl, if_pos rfl, decide_eq_false (by decide), Bool.and_false, Bool.false_and]
  rw [if_neg hquote, if_neg hquote]
  cases quote with
  | true => exact Or.inr ⟨true, bang, false, if_pos rfl⟩
  | false =>
    have hother : ∀ {d : Char}, ch = d → d ≠ '!' → ch = '!' → bang = true :=
      fun h hd he => absurd (h.symm.trans he) hd
    rw [if_neg Bool.false_ne_true, Bool.not_false, Bool.true_and]
    by_cases hcolon : ch = ':' ∧ dash = false
    · rw [if_pos hcolon]
      exact Or.inl ⟨hquote, hother hcolon.1 (by decide), .colon, i, bang, Sep.noConfusion,
        le_refl i, Nat.lt_succ_self i, rfl⟩
    rw [if_neg hcolon]
    by_cases hequals : ch = '=' ∧ dash = false
    · rw [if_pos hequals]
      exact Or.inl ⟨hquote, hother hequals.1 (by decide), .equals, i, bang, Sep.noConfusion,
        le_refl i, Nat.lt_succ_self i, rfl⟩
    rw [if_neg hequals]
    by_cases hdash : ch = '-' ∧ dash = false
    · rw [if_pos hdash, hdash.1, decide_eq_false (by decide), Bool.false_and]
      exact Or.inr ⟨false, bang, true, rfl⟩
    rw [if_neg hdash]
    by_cases harrow : ch = '>' ∧ dash = true
    · have hlength : i < i - 1 + 2 := by omega
      rw [if_pos harrow]
      exact Or.inl ⟨hquote, hother harrow.1 (by decide), .arrow, i - 1, bang, Sep.noConfusion,
        Nat.sub_le i 1, hlength, rfl⟩
    rw [if_neg harrow]
    by_cases hbang : ch = '!'
    · rw [if_pos hbang, decide_eq_true hbang, Bool.true_and]
      cases bang with
      | true =>
        exact Or.inl ⟨hquote, fun _ => rfl, .bang, i, true, Sep.noConfusion, le_refl i,
          Nat.lt_succ_self i, rfl⟩
      | false => exact Or.inr ⟨false, true, dash, rfl⟩
    · rw [if_neg hbang, decide_eq_false hbang, Bool.false_and]
      exact Or.inr ⟨false, bang, false, rfl⟩

theorem dashAfter_append (dash : Bool) (xs ys : List Char) :
    dashAfter dash (xs ++ ys) = dashAfter (dashAfter dash xs) ys := by
  induction xs generalizing dash with
  | nil => rfl
  | cons ch xs ih => exact ih _

theorem scan_bare {text : List Char} (hchars : ∀ ch ∈ text, ch ≠ '\'' ∧ ch ≠ ':' ∧
    ch ≠ '=' ∧ ch ≠ '!')
    (hq : Bool) (rest : List Char) : ∀ (i : Nat) (first dash : Bool),
    ¬ ['-', '>'] <:+: (if dash then ['-'] else []) ++ text →
    scan i first hq false false dash (text ++ rest) =
      scan (i + text.length) (first && text.isEmpty) hq false false (dashAfter dash text) rest := by
  induction text with
  | nil => intro i first dash _; rw [List.isEmpty_nil, Bool.and_true]; rfl
  | cons ch text ih =>
    intro i first dash harrow
    obtain ⟨⟨hquote, hcolon, heq, hbang⟩, hchars'⟩ := List.forall_mem_cons.1 hchars
    have hlen : i + (ch :: text).length = i + 1 + text.length := by rw [List.length_cons]; omega
    rw [List.cons_append, scan, if_neg hquote, if_neg Bool.false_ne_true,
      if_neg (fun h => hcolon h.1),
      if_neg (fun h => heq h.1), hlen, List.isEmpty_cons, Bool.and_false, dashAfter]
    by_cases hdash : ch = '-' ∧ dash = false
    · obtain ⟨rfl, rfl⟩ := hdash
      rw [if_pos ⟨rfl, rfl⟩, ih hchars' (i + 1) false true harrow]
      rfl
    · have hnext : (decide (ch = '-') && !dash) = false := by
        rw [Bool.and_eq_false_iff, decide_eq_false_iff_not, Bool.not_eq_false']
        by_cases hc : ch = '-'
        · exact Or.inr (by simpa [hc] using hdash)
        · exact Or.inl hc
      have hgt : ¬(ch = '>' ∧ dash = true) := by
        rintro ⟨rfl, rfl⟩
        exact harrow ⟨[], text, rfl⟩
      have htext : ¬ ['-', '>'] <:+: text := fun h =>
        harrow (h.trans ((List.suffix_cons ch text).isInfix.trans (List.suffix_append _ _).isInfix))
      rw [if_neg hdash, if_neg hgt, if_neg hbang, hnext, ih hchars' (i + 1) false false htext]
      rfl

/-- Between quotes, with the quotes in it doubled. -/
theorem scan_double (hq : Bool) (text rest : List Char) : ∀ i : Nat,
    scan i false hq true false false (double text ++ rest) =
    scan (i + (double text).length) false hq true false false rest := by
  induction text with
  | nil => exact fun i => rfl
  | cons ch text ih =>
    intro i
    have hcons : double (ch :: text) = (if ch = '\'' then ['\'', '\''] else [ch]) ++ double text :=
      rfl
    rw [hcons]
    by_cases hquote : ch = '\''
    · rw [if_pos hquote, List.append_assoc, List.cons_append, List.cons_append, List.nil_append,
        scan, if_pos rfl, scan, if_pos rfl, Bool.or_false, Bool.or_false]
      show scan (i + 1 + 1) false hq true false false (double text ++ rest) = _
      rw [ih, List.length_append]
      congr 1
      simp
      omega
    · rw [if_neg hquote, List.append_assoc, List.singleton_append, scan, if_neg hquote, if_pos rfl,
        ih, List.length_append]
      congr 1
      simp
      omega

theorem scan_shown {piece text : List Char} {quoted : Bool} (h : Shown piece text quoted) (i : Nat)
    (first hq : Bool) (rest : List Char) : scan i first hq false false false (piece ++ rest) =
      scan (i + piece.length) (first && piece.isEmpty) (hq || (quoted && first)) false false
        (dashAfter false piece) rest := by
  cases h with
  | bare hb =>
    rw [scan_bare hb.chars hq rest i first false hb.arrow, Bool.false_and, Bool.or_false]
  | quoted =>
    have hdash : dashAfter false ('\'' :: double text ++ ['\'']) = false := by
      rw [dashAfter_append]
      rfl
    rw [hdash, List.append_assoc, List.singleton_append, List.cons_append, scan, if_pos rfl]
    show scan (i + 1) false (hq || first) true false false (double text ++ '\'' :: rest) = _
    rw [scan_double, scan, if_pos rfl]
    have hlen : i + 1 + (double text).length + 1 = i + ('\'' :: double text ++ ['\'']).length := by
      rw [List.length_append, List.length_cons, List.length_singleton]
      omega
    rw [hlen, Bool.or_false, Bool.true_and, List.cons_append, List.isEmpty_cons, Bool.and_false]
    rfl

/-- The doubled quotes are single again. -/
theorem replaceAll_double (text : List Char) :
    replaceAll ['\'', '\''] ['\''] (double text) = text := by
  induction text with
  | nil => rfl
  | cons ch text ih =>
    have hcons : double (ch :: text) = (if ch = '\'' then ['\'', '\''] else [ch]) ++ double text :=
      rfl
    rw [hcons]
    by_cases hquote : ch = '\''
    · rw [if_pos hquote, replaceAll_word (List.cons_ne_nil _ _), ih, hquote]
      rfl
    · rw [if_neg hquote, List.singleton_append, replaceAll_cons fun hp =>
        hquote (List.cons_prefix_cons.1 hp).1.symm, ih]

theorem unquote_quoted (text : List Char) : unquote ('\'' :: double text ++ ['\'']) = text := by
  have hlen : ('\'' :: double text ++ ['\'']).length - 2 = (double text).length := by
    rw [List.length_append, List.length_cons, List.length_singleton]
    omega
  unfold unquote
  rw [hlen, List.cons_append, List.drop_succ_cons, List.drop_zero, List.take_left,
    replaceAll_double]

theorem Shown.head?_ne {piece text : List Char} {quoted : Bool} (h : Shown piece text quoted) :
    piece.head? ≠ some '!' := by
  cases h with
  | bare hb => exact fun hh => (hb.chars _ (List.mem_of_mem_head? hh)).2.2.2 rfl
  | quoted => exact fun hh => absurd (Option.some.inj hh) (by decide)

theorem Shown.unquote_eq {piece text : List Char} {quoted : Bool} (h : Shown piece text quoted) :
    (if quoted then unquote piece else piece) = text := by
  cases h with
  | bare => rfl
  | quoted => exact unquote_quoted text

/-- The characters of a separator. -/
def Sep.text : Sep → List Char
  | none => []
  | colon => [':']
  | equals => ['=']
  | arrow => ['-', '>']
  | bang => ['!']

section
variable {piece text : List Char} {quoted : Bool}

theorem peel_last (h : Shown piece text quoted) :
    peel piece = ⟨text, .none, [], quoted, false⟩ := by
  have hscan := scan_shown h 0 true false []
  rw [List.append_nil, Bool.and_true, Bool.false_or] at hscan
  have hfront : front piece ⟨.none, 0, quoted, false⟩ = piece := rfl
  unfold peel
  simp only [hscan, scan, hfront, h.unquote_eq, if_true]

theorem scan_sep {sep : Sep} (hsep : sep = .colon ∨ sep = .equals ∨ sep = .arrow) (i : Nat)
    (first hq : Bool) (rest : List Char) :
    scan i first hq false false false (sep.text ++ rest) = ⟨sep, i, hq, false⟩ := by
  rcases hsep with rfl | rfl | rfl <;> rfl

/-- A piece with a separator behind it, which nothing hides. -/
theorem peel_sep (h : Shown piece text quoted) (hdash : dashAfter false piece = false) {sep : Sep}
    (hsep : sep = .colon ∨ sep = .equals ∨ sep = .arrow) (rest : List Char) :
    peel (piece ++ (sep.text ++ rest)) = ⟨text, sep, rest, quoted, false⟩ := by
  have hscan := scan_shown h 0 true false (sep.text ++ rest)
  rw [hdash, scan_sep hsep, Nat.zero_add, Bool.and_true, Bool.false_or] at hscan
  have hnone : sep ≠ .none := by rcases hsep with rfl | rfl | rfl <;> exact Sep.noConfusion
  have hfront : front (piece ++ (sep.text ++ rest)) ⟨sep, piece.length, quoted, false⟩ = piece := by
    unfold front
    simp only [if_neg hnone, List.take_left, if_neg h.head?_ne]
  have hrest : (piece ++ (sep.text ++ rest)).drop (piece.length + sep.length) = rest := by
    have hlen : sep.length = sep.text.length := by rcases hsep with rfl | rfl | rfl <;> rfl
    rw [hlen, ← List.length_append, ← List.append_assoc, List.drop_left]
  unfold peel
  simp only [hscan, hfront, h.unquote_eq, if_neg hnone, hrest]

end

/-! ## What `celly` shows -/

theorem mem_of_mem_unescape {text : List Char} {ch : Char} (h : ch ∈ unescape text) :
    ch ∈ text ∨ ch = '\n' ∨ ch = '\r' ∨ ch = '\\' := by
  have hone : ∀ {b r : Char} {text : List Char}, ch ∈ replaceAll ['\\', b] [r] text → ch ∈ text ∨
    ch = r := fun h =>
    (mem_of_mem_replaceAll (List.cons_ne_nil _ _) h).imp_right List.mem_singleton.1
  rcases hone h with h | h
  · rcases hone h with h | h
    · rcases hone h with h | h
      · exact Or.inl h
      · exact Or.inr (Or.inl h)
    · exact Or.inr (Or.inr (Or.inl h))
  · exact Or.inr (Or.inr (Or.inr h))

/-- A text that needs no quotes is read bare. -/
theorem bare_unescape {quoteSpace : Bool} {text : List Char}
    (h : needQuote quoteSpace false text = false) :
    Bare (unescape text) := by
  obtain ⟨hchars, harrow⟩ := needQuote_eq_false h
  constructor
  · intro ch hch
    rcases mem_of_mem_unescape hch with hm | rfl | rfl | rfl
    · have hnot := (hchars ch hm).1
      exact ⟨fun he => hnot (by simp [he]), fun he => hnot (by simp [he]),
        fun he => hnot (by simp [he]), fun he => hnot (by simp [he])⟩
    · exact ⟨by decide, by decide, by decide, by decide⟩
    · exact ⟨by decide, by decide, by decide, by decide⟩
    · exact ⟨by decide, by decide, by decide, by decide⟩
  · intro hin
    exact harrow
      (infix_of_replaceAll (by decide) (by decide) (infix_of_replaceAll (by decide) (by decide)
      (infix_of_replaceAll (by decide) (by decide) hin)))

/-- In a quoted text the escapes are undone as they would be without quotes. -/
theorem unescape_escapeLines (text : List Char) :
    unescape (escapeLines (double text)) = double (unescape text) := by
  have hsingle : ∀ {c : Char}, c ≠ '\\' → ∀ b, [c].getLast? ≠ some '\\' ∧ ¬ ['\\', b] <:+: [c] :=
    fun hc b =>
    ⟨fun h => hc (Option.some.inj h),
      fun hin => hc (List.mem_singleton.1 (hin.subset List.mem_cons_self)).symm⟩
  have hfeeds : lineFeeds (escapeLines (double text)) =
      (lineFeeds (double text)).flatMap fun ch => if ch = '\r' then ['\\', 'r'] else [ch] := by
    rw [escapeLines_eq]
    unfold lineFeeds
    rw [replaceAll_flatMap_pair (by decide) (by decide) (by decide)]
    refine replaceAll_flatMap rfl rfl rfl (fun c hc => ?_) (fun c hc => ?_) (fun c => ?_) _
    · by_cases hr : c = '\r'
      · rw [if_pos hr]
        exact ⟨by decide, by decide⟩
      · rw [if_neg hr]
        exact hsingle hc 'n'
    · by_cases hr : c = '\r'
      · rw [if_pos hr] at hc
        exact absurd (Option.some.inj hc) (by decide)
      · rw [if_neg hr] at hc
        exact Option.some.inj hc
    · split <;> exact List.cons_ne_nil _ _
  have hreturns :
    returns (lineFeeds (escapeLines (double text))) = returns (lineFeeds (double text)) := by
    rw [hfeeds]
    unfold returns
    rw [replaceAll_flatMap_pair (by decide) (by decide) (by decide)]
  have hdouble : ∀ (b r : Char) (text : List Char), b ≠ '\'' → r ≠ '\'' →
      replaceAll ['\\', b] [r] (double text) = double (replaceAll ['\\', b] [r] text) := by
    intro b r text hb hr
    unfold double
    refine replaceAll_flatMap rfl ?_ ?_ (fun c hc => ?_) (fun c hc => ?_) (fun c => ?_) text
    · exact if_neg hb
    · exact if_neg hr
    · by_cases hq : c = '\''
      · rw [if_pos hq]
        exact ⟨by simp, fun hin => absurd (hin.subset List.mem_cons_self) (by simp)⟩
      · rw [if_neg hq]
        exact hsingle hc b
    · by_cases hq : c = '\''
      · rw [if_pos hq] at hc
        exact absurd (Option.some.inj hc).symm hb
      · rw [if_neg hq] at hc
        exact Option.some.inj hc
    · split <;> exact List.cons_ne_nil _ _
  unfold unescape
  rw [hreturns]
  unfold lineFeeds returns backslashes
  rw [hdouble _ _ _ (by decide) (by decide), hdouble _ _ _ (by decide) (by decide),
    hdouble _ _ _ (by decide) (by decide)]

/-- Whether `celly` puts the cell between quotes. -/
def quotes (c : SheetCell) (quoteSpace : Bool) : Bool :=
  !c.escaped && (decide (c.text = "NULL") || needQuote quoteSpace false c.text.toList)

/-- What a cell says in a term: its text with the escapes undone. -/
def told (c : SheetCell) : List Char := if c.escaped then "NULL".toList else unescape c.text.toList

theorem shown_celly (c : SheetCell) (quoteSpace : Bool) :
    Shown (unescape (celly c quoteSpace)) (told c) (quotes c quoteSpace) := by
  unfold told quotes
  cases hesc : c.escaped with
  | true =>
    have hnull : unescape "NULL".toList = "NULL".toList := by decide
    have hchars :
      "NULL".toList.all (fun ch => decide (ch ≠ '\'' ∧ ch ≠ ':' ∧ ch ≠ '=' ∧ ch ≠ '!')) = true := by
        decide
    rw [celly_null hesc, hnull, if_pos rfl]
    exact .bare ⟨fun ch hch => of_decide_eq_true (List.all_eq_true.1 hchars ch hch), by decide⟩
  | false =>
    rw [if_neg Bool.false_ne_true, Bool.not_false, Bool.true_and]
    cases hq : decide (c.text = "NULL") || needQuote quoteSpace false c.text.toList with
    | true =>
      have hor : c.text = "NULL" ∨ needQuote quoteSpace false c.text.toList = true := by
        rw [Bool.or_eq_true, decide_eq_true_eq] at hq
        exact hq
      have hpiece : unescape (celly c quoteSpace) =
        '\'' :: double (unescape c.text.toList) ++ ['\''] := by
        have hone : unescape ['\''] = ['\''] := by decide
        rw [celly_quoted hesc hor, List.cons_append, ← List.singleton_append,
          unescape_append_left (by decide),
          unescape_append (fun ch hch => ?_), unescape_escapeLines, hone]
        · rfl
        · rw [← Option.some.inj hch]
          exact ⟨by decide, by decide, by decide⟩
      rw [hpiece]
      exact .quoted _
    | false =>
      rw [Bool.or_eq_false_iff, decide_eq_false_iff_not] at hq
      rw [celly_bare hesc hq.1 hq.2]
      exact .bare (bare_unescape hq.2)

/-- The same cell: both are NULL, or both hold the same text. -/
def Same (c d : SheetCell) : Prop := d.escaped = c.escaped ∧ (c.escaped = false → d.text = c.text)

/-- NULL, or a text that is no asterisk and holds no escapes. -/
def Tellable (c : SheetCell) : Prop := c.escaped = true ∨ c.text ≠ "*" ∧ Unescaped c.text.toList

theorem text_getCell (txt : List Char) (quoted : Bool) :
    (TDiffPart.getCell txt quoted).text = String.ofList txt := by
  unfold TDiffPart.getCell
  split
  · rfl
  · split <;> rfl

/-- A cell is told as itself if it is tellable. -/
theorem cell?_told_iff (c : SheetCell) (quoteSpace : Bool) :
    (∃ d, TDiffPart.cell? (told c) (quotes c quoteSpace) = some d ∧ Same c d) ↔ Tellable c := by
  cases hesc : c.escaped with
  | true =>
    refine iff_of_true ⟨⟨"NULL", true⟩, ?_, ?_⟩ (Or.inl hesc)
    · unfold told quotes
      rw [hesc]
      rfl
    · exact ⟨hesc.symm, fun h => absurd (hesc.symm.trans h) Bool.true_eq_false.mp⟩
  | false =>
    have htold : told c = unescape c.text.toList := if_neg (by rw [hesc]; exact Bool.false_ne_true)
    rw [htold]
    constructor
    · rintro ⟨d, hd, hsame⟩
      unfold TDiffPart.cell? at hd
      obtain ⟨hcheck, hget⟩ := Option.ite_none_right_eq_some.1 hd
      have htext : unescape c.text.toList = c.text.toList := by
        have h := hsame.2 hesc
        rw [← Option.some.inj hget, text_getCell] at h
        exact String.toList_ofList.symm.trans (congrArg String.toList h)
      refine Or.inr ⟨fun hstar => ?_, unescape_eq_self_iff.1 htext⟩
      -- the asterisk is not quoted
      have hquotes : quotes c quoteSpace = false := by
        unfold quotes
        rw [hesc, hstar]
        cases quoteSpace <;> decide
      rw [hquotes, htext, hstar] at hcheck
      exact absurd hcheck (by decide)
    · rintro (h | ⟨hstar, hun⟩)
      · rw [hesc] at h
        cases h
      rw [unescape_of_unescaped hun]
      unfold TDiffPart.cell? TDiffPart.checkCell TDiffPart.getCell
      have hback : String.ofList c.text.toList = c.text := String.ofList_toList
      cases hq : quotes c quoteSpace with
      | true => exact ⟨⟨c.text, false⟩, by rw [hback]; rfl, hesc.symm, fun _ => rfl⟩
      | false =>
        have hnull : c.text ≠ "NULL" := fun h => by
          unfold quotes at hq
          rw [hesc, h] at hq
          cases hq
        have hne : c.text.toList ≠ ['*'] := fun h => hstar (String.toList_inj.1 h)
        have hne' : c.text.toList ≠ "NULL".toList := fun h => hnull (String.toList_inj.1 h)
        refine ⟨⟨c.text, false⟩, ?_, hesc.symm, fun _ => rfl⟩
        rw [if_pos (by simpa using hne), if_neg Bool.false_ne_true, if_neg hne', hback]

/-! ## A row of cells -/

theorem settle_key (p : TDiffPart) : p.settle.key = p.key := by
  unfold TDiffPart.settle
  split <;> rfl

/-- A piece that makes up a term by itself. -/
theorem apply_shown {piece text : List Char} {quoted : Bool} (h : Shown piece text quoted) :
    TDiffPart.apply piece false = { val := TDiffPart.cell? text quoted } := by
  have hpeels : peels 4 piece = [⟨text, .none, [], quoted, false⟩] := by
    unfold peels
    rw [peel_last h]
    rfl
  unfold TDiffPart.apply
  rw [hpeels]
  show TDiffPart.settle { val := (TDiffPart.cell? text quoted).or none } = _
  rw [Option.or_none]
  rfl

/-- The character a row line starts with. -/
inductive RowOp
  | update
  | insert
  | delete
  | after
  | move
deriving DecidableEq, Repr

def RowOp.char : RowOp → Char
  | update => '='
  | insert => '+'
  | delete => '-'
  | after => '*'
  | move => ':'

/-- The operator of a row line, as `updateRow` prints it. -/
def rowOperator (conflicted : Bool) (op : RowOp) : Operator where
  text := (if conflicted then ['!'] else []) ++ [op.char]
  some_char := by cases conflicted <;> exact List.cons_ne_nil _ _
  plain := by
    cases conflicted <;> cases op <;> exact plain_of_all (by decide)

/-- A row line with these terms. -/
def rowLine (op : Operator) (terms : List (List Char)) : List Char :=
  op.text ++ ' ' :: '|' :: terms.flatMap fun t => cString t ++ ['|']

/-- The token of a term is the cell and nothing else. -/
def ComesBack (token : List Char) (c : SheetCell) : Prop :=
  ∃ d, TDiffPart.apply token false = { val := some d } ∧ Same c d

/-! ## No null character comes back -/

/-- One letter that is not the null character. -/
theorem nul_notMem_step {s : Scanner} {ch : Char} (hs : '\x00' ∉ s.result) (hch : ch ≠ '\x00') :
    (∀ t ∈ (Scanner.step s ch).1, '\x00' ∉ t) ∧ '\x00' ∉ (Scanner.step s ch).2.result := by
  have hgrown : '\x00' ∉ s.result ++ [ch] := fun h => (List.mem_append.1 h).elim hs fun h =>
    hch (List.mem_singleton.1 h).symm
  have hend : ∀ t ∈ (if s.pending then [s.result] else []), '\x00' ∉ t := by
    cases s.pending with
    | true => exact List.forall_mem_singleton.2 hs
    | false => exact List.forall_mem_nil _
  unfold Scanner.step
  split
  · exact ⟨List.forall_mem_nil _, hgrown⟩
  · split
    · exact ⟨List.forall_mem_nil _, hgrown⟩
    · split
      · refine ⟨hend, ?_⟩
        by_cases hbar : ch = '|'
        · rw [if_pos hbar]
          exact List.not_mem_nil
        · rw [if_neg hbar]
          exact List.not_mem_nil
      · exact ⟨List.forall_mem_nil _, hgrown⟩

theorem nul_notMem_run {line : List Char} (hline : '\x00' ∉ line) :
    ∀ s : Scanner, '\x00' ∉ s.result → (∀ t ∈ (Transducer.run Scanner.step line s).1, '\x00' ∉ t) ∧
    '\x00' ∉ (Transducer.run Scanner.step line s).2.result := by
  induction line with
  | nil => exact fun s hs => ⟨List.forall_mem_nil _, hs⟩
  | cons ch line ih =>
    intro s hs
    obtain ⟨hch, hline⟩ := List.ne_and_not_mem_of_not_mem_cons hline
    obtain ⟨hgiven, hs'⟩ := nul_notMem_step hs hch.symm
    obtain ⟨hrest, hlast⟩ := ih hline _ hs'
    exact ⟨fun t ht => (List.mem_append.1 ht).elim (hgiven t) (hrest t), hlast⟩

/-- The tokens of a line without a null character have none. -/
theorem nul_notMem_normalizedMessage {line : List Char} (hline : '\x00' ∉ line) :
    ∀ t ∈ normalizedMessage line, '\x00' ∉ t := by
  intro t ht
  obtain ⟨token, htoken, rfl⟩ := List.mem_map.1 ht
  obtain ⟨hrun, hlast⟩ := nul_notMem_run hline {} List.not_mem_nil
  have hnul : '\x00' ∉ token := by
    rcases List.mem_append.1 htoken with hin | hin
    · exact hrun token hin
    · unfold Scanner.last at hin
      split at hin
      · rw [List.mem_singleton.1 hin]
        exact hlast
      · exact absurd hin List.not_mem_nil
  intro h
  rcases mem_of_mem_unescape h with h | h | h | h
  · exact hnul h
  · exact absurd h (by decide)
  · exact absurd h (by decide)
  · exact absurd h (by decide)

theorem notMem_peel {x : Char} (hx : x ≠ '\'') {s : List Char} (hs : x ∉ s) :
    x ∉ (peel s).result ∧ x ∉ (peel s).rem := by
  have hfront : ∀ f, x ∉ front s f := fun f h => by
    unfold front at h
    split at h
    · exact hs h
    · simp only at h
      split at h
      · exact hs (List.mem_of_mem_take (List.mem_of_mem_drop h))
      · exact hs (List.mem_of_mem_take h)
  unfold peel
  simp only
  refine ⟨fun h => ?_, fun h => ?_⟩
  · split at h
    · unfold unquote at h
      rcases mem_of_mem_replaceAll (List.cons_ne_nil _ _) h with h | h
      · exact hfront _ (List.mem_of_mem_drop (List.mem_of_mem_take h))
      · exact hx (List.mem_singleton.1 h)
    · exact hfront _ h
  · split at h
    · exact absurd h List.not_mem_nil
    · exact hs (List.mem_of_mem_drop h)

theorem notMem_peels {x : Char} (hx : x ≠ '\'') : ∀ (n : Nat) {s : List Char}, x ∉ s →
    ∀ e ∈ peels n s, x ∉ e.result
  | 0, _, _ => List.forall_mem_nil _
  | n + 1, s, hs => by
    obtain ⟨hresult, hrem⟩ := notMem_peel hx hs
    unfold peels
    refine List.forall_mem_cons.2 ⟨hresult, ?_⟩
    split
    · exact List.forall_mem_nil _
    · exact notMem_peels hx n hrem

/-- The character is neither in the old value nor in the new one. -/
structure Without (x : Char) (p : TDiffPart) : Prop where
  val : ∀ d, p.val = some d → x ∉ d.text.toList
  nval : ∀ d, p.nval = some d → x ∉ d.text.toList

theorem notMem_cell? {x : Char} {txt : List Char} {quoted : Bool} (htxt : x ∉ txt)
    {o : Option SheetCell} (ho : ∀ d, o = some d → x ∉ d.text.toList) {d : SheetCell}
    (h : (TDiffPart.cell? txt quoted).or o = some d) :
    x ∉ d.text.toList := by
  unfold TDiffPart.cell? at h
  split at h
  · rw [← Option.some.inj h, text_getCell, String.toList_ofList]
    exact htxt
  · exact ho d h

namespace Without

variable {x : Char} {p : TDiffPart}

theorem applyElement (h : Without x p) {txt : List Char} (htxt : x ∉ txt) (pre post : Sep)
    (quoted columnLike : Bool) : Without x (p.applyElement txt pre post quoted columnLike).1 := by
  have hval : ∀ d, (TDiffPart.cell? txt quoted).or p.val = some d → x ∉ d.text.toList :=
    fun d => notMem_cell? htxt h.val
  have hnval : ∀ d, (TDiffPart.cell? txt quoted).or p.nval = some d → x ∉ d.text.toList :=
    fun d => notMem_cell? htxt h.nval
  unfold TDiffPart.applyElement
  split
  · exact ⟨h.val, h.nval⟩
  · cases pre <;> simp only
    · split
      · exact ⟨hval, h.nval⟩
      · exact ⟨h.val, h.nval⟩
    · split
      · exact ⟨h.val, h.nval⟩
      · exact ⟨hval, h.nval⟩
    · split
      · exact ⟨h.val, h.nval⟩
      · exact ⟨hval, h.nval⟩
    · split
      · exact ⟨h.val, h.nval⟩
      · exact ⟨h.val, hnval⟩
    · exact h

theorem applyElements {columnLike : Bool} {es : List Peeled} (hes : ∀ e ∈ es, x ∉ e.result) :
    ∀ {pre : Sep} {p : TDiffPart}, Without x p →
    Without x (TDiffPart.applyElements columnLike pre es p) := by
  induction es with
  | nil => exact fun h => h
  | cons e es ih =>
    intro pre p h
    obtain ⟨he, hes⟩ := List.forall_mem_cons.1 hes
    exact ih hes (h.applyElement he _ _ _ _)

theorem settle (h : Without x p) : Without x p.settle := by
  unfold TDiffPart.settle
  split
  · refine ⟨h.val, fun d hd => ?_⟩
    rcases Option.or_eq_some_iff.1 hd with hd | ⟨-, hd⟩
    · exact h.val d hd
    · exact h.nval d hd
  · exact h

end Without

theorem nulFree_apply {s : List Char} (hs : '\x00' ∉ s) (columnLike : Bool) :
    Without '\x00' (TDiffPart.apply s columnLike) :=
  (Without.applyElements (notMem_peels (by decide) 4 hs) ⟨fun d h => (by cases h),
    fun d h => (by cases h)⟩).settle

/-- A cell with a null character does not come back from a text without one. -/
theorem Same.nul_notMem {c d : SheetCell} (h : Same c d) (hd : '\x00' ∉ d.text.toList) :
    c.escaped = true ∨ '\x00' ∉ c.text.toList := by
  cases hesc : c.escaped with
  | true => exact Or.inl rfl
  | false => exact Or.inr (h.2 hesc ▸ hd)

/-! ## The line -/

/-- A character between quotes: a quote twice, a line end as its escape. -/
def quotedWord (ch : Char) : List Char :=
  if ch = '\'' then ['\'', '\''] else if ch = '\n' then ['\\', 'n']
  else if ch = '\r' then ['\\', 'r'] else [ch]

/-- The characters of a word: its own, which is no line end then, or those of a quote or an
escape. -/
theorem mem_quotedWord {x ch : Char} (h : x ∈ quotedWord ch) : (x = ch ∧ x ≠ '\n' ∧ x ≠ '\r') ∨
    x ∈ ['\'', '\\', 'n', 'r'] := by
  unfold quotedWord at h
  by_cases hq : ch = '\''
  · rw [if_pos hq] at h
    exact Or.inr (by simpa using Or.inl (by simpa using h))
  by_cases hn : ch = '\n'
  · rw [if_neg hq, if_pos hn] at h
    exact Or.inr ((show ['\\', 'n'] ⊆ ['\'', '\\', 'n', 'r'] by decide) h)
  by_cases hr : ch = '\r'
  · rw [if_neg hq, if_neg hn, if_pos hr] at h
    exact Or.inr ((show ['\\', 'r'] ⊆ ['\'', '\\', 'n', 'r'] by decide) h)
  · rw [if_neg hq, if_neg hn, if_neg hr, List.mem_singleton] at h
    exact Or.inl ⟨h, h ▸ hn, h ▸ hr⟩

/-- A character that is in no escape is in the words of a text only where it is in the text, and is
no line end. -/
theorem mem_quotedWords {x : Char} {text : List Char} (hx : x ∉ ['\'', '\\', 'n', 'r'])
    (h : x ∈ text.flatMap quotedWord) : x ∈ text ∧ x ≠ '\n' ∧ x ≠ '\r' := by
  obtain ⟨ch, hch, hword⟩ := List.mem_flatMap.1 h
  obtain ⟨rfl, hline⟩ := (mem_quotedWord hword).resolve_right hx
  exact ⟨hch, hline⟩

theorem escapeLines_double (text : List Char) :
    escapeLines (double text) = text.flatMap quotedWord := by
  rw [escapeLines_eq]
  unfold double
  rw [List.flatMap_assoc, List.flatMap_assoc]
  refine List.flatMap_congr fun ch _ => ?_
  unfold quotedWord
  by_cases hq : ch = '\''
  · subst hq
    rfl
  · by_cases hn : ch = '\n'
    · subst hn
      rfl
    · by_cases hr : ch = '\r'
      · subst hr
        rfl
      · simp [hq, hn, hr]

/-- The words of a text do not open quotes or close them, and a bar among them is only noticed
outside. -/
theorem closes_quotedWords {quote : Bool} {text : List Char} (h : quote = true ∨ '|' ∉ text)
    (rest : List Char) : closes quote (text.flatMap quotedWord ++ rest) = closes quote rest := by
  induction text with
  | nil => rfl
  | cons ch text ih =>
    have htext : quote = true ∨ '|' ∉ text :=
      h.imp_right fun hbar hm => hbar (List.mem_cons_of_mem ch hm)
    rw [List.flatMap_cons, List.append_assoc, ← ih htext]
    unfold quotedWord
    by_cases hq : ch = '\''
    · subst hq
      cases quote <;> rfl
    · by_cases hn : ch = '\n'
      · subst hn
        cases quote <;> rfl
      · by_cases hr : ch = '\r'
        · subst hr
          cases quote <;> rfl
        · have hin : (quote || decide (ch ≠ '|')) = true := by
            rw [Bool.or_eq_true, decide_eq_true_eq]
            exact h.imp_right fun hbar he => hbar (he ▸ List.mem_cons_self)
          rw [if_neg hq, if_neg hn, if_neg hr, List.singleton_append, closes, if_neg hq,
            hin, Bool.true_and]

/-- A cell that is not NULL is its words between quotes, or its text. -/
theorem celly_cases {c : SheetCell} (hesc : c.escaped = false) (quoteSpace : Bool) :
    celly c quoteSpace = '\'' :: (c.text.toList.flatMap quotedWord ++ ['\'']) ∨
      (needQuote quoteSpace false c.text.toList = false ∧ celly c quoteSpace = c.text.toList) := by
  by_cases hq : c.text = "NULL" ∨ needQuote quoteSpace false c.text.toList = true
  · rw [celly_quoted hesc hq, escapeLines_double]
    exact Or.inl rfl
  · obtain ⟨hnull, hneed⟩ := not_or.1 hq
    rw [Bool.not_eq_true] at hneed
    exact Or.inr ⟨hneed, celly_bare hesc hnull hneed⟩

/-- A cell is one term: no bar of it stands outside of quotes. -/
theorem closes_celly (c : SheetCell) (quoteSpace : Bool) :
    closes false (celly c quoteSpace) = true := by
  cases hesc : c.escaped with
  | true =>
    rw [celly_null hesc]
    decide
  | false =>
    rcases celly_cases hesc quoteSpace with heq | ⟨hneed, heq⟩
    · rw [heq, closes, if_pos rfl, Bool.not_false, closes_quotedWords (Or.inl rfl)]
      rfl
    · rw [heq]
      refine closes_of_plain fun ch hch => ?_
      have hnot := ((needQuote_eq_false hneed).1 ch hch).1
      exact ⟨fun he => hnot (by simp [he]), fun he => hnot (by simp [he])⟩

/-- NULL, or no null character in the text. -/
def Printed (c : SheetCell) : Prop := c.escaped = true ∨ '\x00' ∉ c.text.toList

theorem nul_notMem_celly {c : SheetCell} (h : Printed c) (quoteSpace : Bool) :
    '\x00' ∉ celly c quoteSpace := by
  by_cases hesc : c.escaped = true
  · rw [celly_null hesc]
    decide
  · have hnul : '\x00' ∉ c.text.toList := h.resolve_left hesc
    rw [Bool.not_eq_true] at hesc
    rcases celly_cases hesc quoteSpace with heq | ⟨-, heq⟩
    · rw [heq, List.mem_cons, List.mem_append]
      rintro (h | h | h)
      · exact absurd h (by decide)
      · exact hnul (mem_quotedWords (by decide) h).1
      · exact absurd h (by decide)
    · rw [heq]
      exact hnul

theorem cString_celly {c : SheetCell} (h : Printed c) (quoteSpace : Bool) :
    cString (celly c quoteSpace) = celly c quoteSpace :=
  cString_of_not_mem (nul_notMem_celly h quoteSpace)

theorem passes_start (op : Operator) :
    Transducer.Passes Scanner.step {} (op.text ++ [' ', '|']) [op.text] (inTerm [] false) := by
  have h := passes_lead op ⟨[' '], fun ch hch => Or.inl (List.mem_singleton.1 hch)⟩
  rwa [List.append_assoc] at h

/-- Terms that close their quotes are given out as they are. -/
theorem passes_terms {terms : List (List Char)} (h : ∀ t ∈ terms, closes false t = true) :
    Transducer.Passes Scanner.step (inTerm [] false) (terms.flatMap fun t => t ++ ['|']) terms
      (inTerm [] false) := by
  induction terms with
  | nil => exact Transducer.Passes.nil _
  | cons t terms ih =>
    obtain ⟨ht, hterms⟩ := List.forall_mem_cons.1 h
    exact ((passes_closed ht).snoc (step_bar _)).append (ih hterms)

theorem tokens_terms (op : Operator) {terms : List (List Char)}
    (h : ∀ t ∈ terms, closes false t = true) :
    tokens (op.text ++ [' ', '|'] ++ terms.flatMap fun t => t ++ ['|']) = op.text :: terms := by
  rw [tokens_of_passes ((passes_start op).append (passes_terms h)), last_inTerm, List.append_nil]
  rfl

theorem tokens_rowLine (op : Operator) {terms : List (List Char)}
    (hterms : ∀ t ∈ terms, closes false (cString t) = true) :
    tokens (rowLine op terms) = op.text :: terms.map cString := by
  have hline : rowLine op terms = op.text ++ [' ', '|'] ++ (terms.map cString).flatMap fun t =>
    t ++ ['|'] := by
    rw [List.append_assoc, List.flatMap_map]
    rfl
  rw [hline]
  exact tokens_terms op (List.forall_mem_map.2 hterms)

theorem nul_notMem_rowLine (conflicted : Bool) (op : RowOp) (terms : List (List Char)) :
    '\x00' ∉ rowLine (rowOperator conflicted op) terms := by
  have hop : '\x00' ∉ (rowOperator conflicted op).text := by
    cases conflicted <;> cases op <;> decide
  unfold rowLine
  rw [List.mem_append, List.mem_cons, List.mem_cons, List.mem_flatMap]
  rintro (h | h | h | ⟨t, -, h⟩)
  · exact hop h
  · exact absurd h (by decide)
  · exact absurd h (by decide)
  · rcases List.mem_append.1 h with h | h
    · exact nul_not_mem_cString t h
    · exact absurd h (by decide)

/-- A term of cells: it is given out as it is, and its escapes are undone. -/
theorem normalizedMessage_rowLine (conflicted : Bool) (op : RowOp) {terms : List (List Char)}
    (hterms : ∀ t ∈ terms, closes false (cString t) = true) :
    normalizedMessage (rowLine (rowOperator conflicted op) terms) =
      (rowOperator conflicted op).text :: terms.map fun t => unescape (cString t) := by
  unfold normalizedMessage
  rw [tokens_rowLine _ hterms, List.map_cons, Operator.unescape_text, List.map_map]
  rfl

theorem comesBack_iff (c : SheetCell) (quoteSpace : Bool) :
    ComesBack (unescape (celly c quoteSpace)) c ↔ Tellable c := by
  rw [← cell?_told_iff c quoteSpace]
  unfold ComesBack
  rw [apply_shown (shown_celly c quoteSpace)]
  refine exists_congr fun d => and_congr_left fun _ => ?_
  simp

/-- A cell that comes back is printed whole. -/
theorem ComesBack.printed {token : List Char} (htoken : '\x00' ∉ token) {c : SheetCell}
    (h : ComesBack token c) : Printed c := by
  obtain ⟨d, hd, hsame⟩ := h
  exact hsame.nul_notMem ((nulFree_apply htoken false).val d (by rw [hd]))

/-- **A row of cells comes back** if and only if each is NULL, or holds no null character and no
escape and is no asterisk. -/
theorem row_comesBack_iff (conflicted : Bool) (op : RowOp) (cs : List SheetCell) :
    List.Forall₂ ComesBack
    ((normalizedMessage (rowLine (rowOperator conflicted op) (cs.map (celly · false)))).drop 1) cs ↔
      ∀ c ∈ cs, Printed c ∧ Tellable c := by
  have hnul :
    ∀ t ∈ (normalizedMessage (rowLine (rowOperator conflicted op) (cs.map (celly · false)))).drop 1,
    '\x00' ∉ t := fun t ht => nul_notMem_normalizedMessage (nul_notMem_rowLine conflicted op _) t
      (List.mem_of_mem_drop ht)
  have hback : (∀ c ∈ cs, Printed c) →
      (normalizedMessage (rowLine (rowOperator conflicted op) (cs.map (celly · false)))).drop 1 =
        cs.map fun c => unescape (celly c false) := by
    intro hprinted
    rw [normalizedMessage_rowLine, List.drop_succ_cons, List.drop_zero, List.map_map]
    · exact List.map_congr_left fun c hc => congrArg unescape (cString_celly (hprinted c hc) false)
    · intro t ht
      obtain ⟨c, hc, rfl⟩ := List.mem_map.1 ht
      rw [cString_celly (hprinted c hc) false]
      exact closes_celly c false
  constructor
  · intro h
    have hprinted : ∀ c ∈ cs, Printed c := by
      have hall : List.Forall₂ (fun c t => Printed c ∧ ComesBack t c) cs _ :=
        List.Forall₂.flip (((List.forall₂_and_left _ _).2 ⟨hnul, h⟩).imp fun t c ht =>
          ⟨ht.2.printed ht.1, ht.2⟩)
      exact ((List.forall₂_and_left _ _).1 hall).1
    rw [hback hprinted, List.forall₂_map_left_iff, List.forall₂_same] at h
    exact fun c hc => ⟨hprinted c hc, (comesBack_iff c false).1 (h c hc)⟩
  · intro h
    rw [hback fun c hc => (h c hc).1, List.forall₂_map_left_iff, List.forall₂_same]
    exact fun c hc => (comesBack_iff c false).2 (h c hc).2

/-- An asterisk is read as no cell, and a backslash before an `n` as a line end. -/
theorem row_notComesBack :
    ¬ List.Forall₂ ComesBack
      ((normalizedMessage
        (rowLine (rowOperator false .insert) ([⟨"*", false⟩].map (celly · false)))).drop 1)
        [⟨"*", false⟩] ∧
    ¬ List.Forall₂ ComesBack
      ((normalizedMessage
        (rowLine (rowOperator false .insert) ([⟨"a\\nb", false⟩].map (celly · false)))).drop 1)
      [⟨"a\\nb", false⟩] := by
  constructor
  · intro h
    have hread :
      (normalizedMessage
        (rowLine (rowOperator false .insert) ([⟨"*", false⟩].map (celly · false)))).drop 1 =
        [['*']] := by
      decide +kernel
    rw [hread] at h
    obtain ⟨d, hd, -⟩ := (List.forall₂_cons.1 h).1
    have hnone : TDiffPart.apply ['*'] false = {} := by decide +kernel
    rw [hnone] at hd
    cases congrArg TDiffPart.val hd
  · intro h
    have hread :
      (normalizedMessage
        (rowLine (rowOperator false .insert) ([⟨"a\\nb", false⟩].map (celly · false)))).drop 1 =
        ["a\nb".toList] := by
      decide +kernel
    rw [hread] at h
    obtain ⟨d, hd, hsame⟩ := (List.forall₂_cons.1 h).1
    have hval : TDiffPart.apply "a\nb".toList false = { val := some ⟨"a\nb", false⟩ } := by
      decide +kernel
    rw [hval] at hd
    have hd' : (⟨"a\nb", false⟩ : SheetCell) = d := Option.some.inj (congrArg TDiffPart.val hd)
    exact absurd (hd' ▸ hsame.2 rfl) (by decide)

end Tdiff

end Coopy
