import Mathlib.Data.List.Induction
import Coopy.TdiffCells

/-!
# Transitions in a tdiff line

A changed cell is one term, its old value and its new one with an arrow between them; in the
unfactored form the name of the column stands in front, with an equals sign.  The reader does not
see a separator behind an odd number of dashes, so an unquoted text that ends in one hides it.

    a transition is split right ↔ both cells come back by themselves, and neither the old value nor
                                  the name hides the separator behind it      (transition_split_iff)
    in a line of them each is split by itself                                    (transitions_split)
-/

namespace Coopy

open Lib

namespace Tdiff

/-! ## Terms -/

/-- The column name in front of the values. -/
def namePrefix : Option String → List Char
  | none => []
  | some name => cString (stringy name false) ++ ['=']

def transitionTerm (name : Option String) (old new : SheetCell) : List Char :=
  namePrefix name ++ (cString (celly old false) ++ ('-' :: '>' :: cString (celly new false)))

theorem namePrefix_some (name : String) :
    namePrefix (some name) = cString (stringy name false) ++ ['='] := rfl

theorem nul_notMem_transitionTerm (name : Option String) (old new : SheetCell) :
    '\x00' ∉ transitionTerm name old new := by
  have hname : '\x00' ∉ namePrefix name := by
    cases name with
    | none => exact List.not_mem_nil
    | some name =>
      rw [namePrefix_some, List.mem_append]
      rintro (h | h)
      · exact nul_not_mem_cString _ h
      · exact absurd h (by decide)
  unfold transitionTerm
  rw [List.mem_append, List.mem_append, List.mem_cons, List.mem_cons]
  rintro (h | h | h | h | h)
  · exact hname h
  · exact nul_not_mem_cString _ h
  · exact absurd h (by decide)
  · exact absurd h (by decide)
  · exact nul_not_mem_cString _ h

/-- The parts of a transition: a key if there is a name in front, the old cell, and the new one. -/
structure SplitsInto (p : TDiffPart) (name : Option String) (old new : SheetCell) : Prop where
  named : p.key.isSome = name.isSome
  old : ∃ d, p.val = some d ∧ Same old d
  new : ∃ d, p.nval = some d ∧ Same new d

/-! ## Dashes -/

/-- The dashes at the end of a text. -/
def trailingDashes (text : List Char) : Nat := (text.reverse.takeWhile (· = '-')).length

/-- An unquoted text that ends in an odd number of dashes. -/
structure Hides (c : SheetCell) : Prop where
  text : c.escaped = false
  bare : quotes c false = false
  odd : trailingDashes c.text.toList % 2 = 1

theorem dashAfter_eq (text : List Char) :
    dashAfter false text = decide (trailingDashes text % 2 = 1) := by
  induction text using List.reverseRecOn with
  | nil => rfl
  | append_singleton text ch ih =>
    have hlast : dashAfter false (text ++ [ch]) = (decide (ch = '-') && !dashAfter false text) :=
      dashAfter_append _ _ _
    rw [hlast, ih]
    unfold trailingDashes
    rw [List.reverse_append, List.reverse_singleton, List.singleton_append, List.takeWhile_cons]
    by_cases hc : ch = '-'
    · rw [if_pos (by simpa using hc), List.length_cons, decide_eq_true hc,
        Bool.true_and, ← decide_not]
      refine decide_eq_decide.2 ?_
      omega
    · rw [if_neg (by simpa using hc), decide_eq_false hc]
      rfl

/-- What is written for an escape is no dash. -/
theorem dashAfter_unescape (text : List Char) :
    dashAfter false (unescape text) = dashAfter false text := by
  have hone : ∀ {b r : Char}, b ≠ '-' → r ≠ '-' → ∀ (text : List Char) (dash : Bool),
      dashAfter dash (replaceAll ['\\', b] [r] text) = dashAfter dash text := by
    intro b r hb hr text
    refine replace_induction
      (motive := fun text => ∀ dash, dashAfter dash (replaceAll ['\\', b] [r] text) =
        dashAfter dash text)
      (List.cons_ne_nil '\\' [b]) (fun _ => rfl) (fun text ih dash => ?_)
        (fun ch text hp ih dash => ?_) text
    · rw [replaceAll_word (List.cons_ne_nil _ _)]
      simp only [List.cons_append, List.nil_append, dashAfter, decide_eq_false hb,
        decide_eq_false hr, Bool.false_and]
      exact ih false
    · rw [replaceAll_cons hp]
      exact ih _
  unfold unescape backslashes returns lineFeeds
  rw [hone (by decide) (by decide), hone (by decide) (by decide), hone (by decide) (by decide)]

theorem Shown.dashAfter_eq_false {piece text : List Char} (h : Shown piece text true) :
    dashAfter false piece = false := by
  cases h with
  | quoted =>
    rw [dashAfter_append]
    rfl

theorem dashAfter_celly (c : SheetCell) : dashAfter false (unescape (celly c false)) = true ↔
    Hides c := by
  cases hesc : c.escaped with
  | true =>
    rw [celly_null hesc]
    exact iff_of_false (by decide) fun h => by cases hesc.symm.trans h.text
  | false =>
    have hshown := shown_celly c false
    cases hq : quotes c false with
    | true =>
      rw [hq] at hshown
      rw [hshown.dashAfter_eq_false]
      exact iff_of_false Bool.false_ne_true fun h => by cases hq.symm.trans h.bare
    | false =>
      have hq' := hq
      unfold quotes at hq'
      rw [hesc, Bool.not_false, Bool.true_and, Bool.or_eq_false_iff, decide_eq_false_iff_not] at hq'
      rw [celly_bare hesc hq'.1 hq'.2, dashAfter_unescape, dashAfter_eq, decide_eq_true_eq]
      exact ⟨fun h => ⟨hesc, hq, h⟩, Hides.odd⟩

/-! ## Separators that are not hidden -/

section
variable {k o n name old new : List Char} {qk qo qn : Bool}

/-- The parts of a transition without a name. -/
theorem apply_transition (ho : Shown o old qo) (hn : Shown n new qn)
    (hdash : dashAfter false o = false) :
    TDiffPart.apply (o ++ (Sep.arrow.text ++ n)) false =
      { val := TDiffPart.cell? old qo
        nval := TDiffPart.cell? new qn
        isFresh := (TDiffPart.cell? old qo).isNone } := by
  have hpeels :
    peels 4 (o ++ (Sep.arrow.text ++ n)) =
    [⟨old, .arrow, n, qo, false⟩, ⟨new, .none, [], qn, false⟩] := by
    unfold peels
    rw [peel_sep ho hdash (Or.inr (Or.inr rfl))]
    unfold peels
    rw [peel_last hn]
    rfl
  unfold TDiffPart.apply
  rw [hpeels]
  show TDiffPart.settle
    { val := (TDiffPart.cell? old qo).or none
      nval := (TDiffPart.cell? new qn).or none
      isFresh := false || ((TDiffPart.cell? old qo).or none).isNone } = _
  rw [Option.or_none, Option.or_none, Bool.false_or]
  rfl

theorem apply_named (hk : Shown k name qk) (hkdash : dashAfter false k = false)
    (ho : Shown o old qo) (hn : Shown n new qn) (hdash : dashAfter false o = false) :
    TDiffPart.apply (k ++ (Sep.equals.text ++ (o ++ (Sep.arrow.text ++ n)))) false =
      { key := some (String.ofList name)
        val := TDiffPart.cell? old qo
        nval := TDiffPart.cell? new qn
        isId := true
        isFresh := (TDiffPart.cell? old qo).isNone } := by
  have hpeels : peels 4 (k ++ (Sep.equals.text ++ (o ++ (Sep.arrow.text ++ n)))) =
      [⟨name, .equals, o ++ (Sep.arrow.text ++ n), qk, false⟩, ⟨old, .arrow, n, qo, false⟩,
        ⟨new, .none, [], qn, false⟩] := by
    unfold peels
    rw [peel_sep hk hkdash (Or.inr (Or.inl rfl))]
    unfold peels
    rw [peel_sep ho hdash (Or.inr (Or.inr rfl))]
    unfold peels
    rw [peel_last hn]
    rfl
  unfold TDiffPart.apply
  rw [hpeels]
  show TDiffPart.settle
    { key := some (String.ofList name)
      val := (TDiffPart.cell? old qo).or none
      nval := (TDiffPart.cell? new qn).or none
      isId := true
      isFresh := false || ((TDiffPart.cell? old qo).or none).isNone } = _
  rw [Option.or_none, Option.or_none, Bool.false_or]
  rfl

/-! ## Hidden separators -/

theorem scan_last (hn : Shown n new qn) (i : Nat) (hq : Bool) :
    (scan i false hq false false false n).sep = .none := by
  have h := scan_shown hn i false hq []
  rw [List.append_nil] at h
  rw [h]
  rfl

/-- A hidden arrow is a part of the value. -/
theorem peel_hiddenArrow (ho : Shown o old qo) (hn : Shown n new qn)
    (hdash : dashAfter false o = true) : (peel (o ++ (Sep.arrow.text ++ n))).sep = .none := by
  have h := scan_shown ho 0 true false (Sep.arrow.text ++ n)
  rw [hdash] at h
  show (scan 0 true false false false false (o ++ (Sep.arrow.text ++ n))).sep = .none
  rw [h]
  exact scan_last hn _ _

/-- Behind a hidden equals sign, the arrow is the first separator there can be. -/
theorem peel_hiddenEquals (hk : Shown k name qk) (hkdash : dashAfter false k = true)
    (ho : Shown o old qo) (hn : Shown n new qn) :
    (peel (k ++ (Sep.equals.text ++ (o ++ (Sep.arrow.text ++ n))))).sep = .none ∨
      (peel (k ++ (Sep.equals.text ++ (o ++ (Sep.arrow.text ++ n))))).sep = .arrow := by
  have h := scan_shown hk 0 true false (Sep.equals.text ++ (o ++ (Sep.arrow.text ++ n)))
  rw [hkdash] at h
  show (scan 0 true false false false false _).sep = .none ∨
    (scan 0 true false false false false _).sep = .arrow
  rw [h]
  show (scan _ false _ false false false (o ++ (Sep.arrow.text ++ n))).sep = .none ∨
    (scan _ false _ false false false (o ++ (Sep.arrow.text ++ n))).sep = .arrow
  rw [scan_shown ho, Bool.false_and]
  cases dashAfter false o with
  | false =>
    rw [scan_sep (Or.inr (Or.inr rfl))]
    exact Or.inr rfl
  | true => exact Or.inl (scan_last hn _ _)

end

/-! ## Keys -/

theorem applyElement_key {pre : Sep} (hpre : pre ≠ .none) (p : TDiffPart) (txt : List Char)
    (post : Sep) (quoted : Bool) : (p.applyElement txt pre post quoted false).1.key = p.key := by
  unfold TDiffPart.applyElement
  by_cases hpost : post = .bang
  · rw [if_pos hpost]
  · rw [if_neg hpost]
    cases pre with
    | none => exact absurd rfl hpre
    | _ => rfl

theorem applyElement_next (p : TDiffPart) (txt : List Char) (pre post : Sep) (quoted : Bool) :
    (p.applyElement txt pre post quoted false).2 = if post = .bang then pre else post := by
  unfold TDiffPart.applyElement
  by_cases hpost : post = .bang
  · rw [if_pos hpost, if_pos hpost]
  · rw [if_neg hpost, if_neg hpost]

/-- Only the first element of a term is a key. -/
theorem key_later : ∀ (n : Nat) {pre : Sep} (s : List Char) (p : TDiffPart), pre ≠ .none →
    (TDiffPart.applyElements false pre (peels n s) p).key = p.key
  | 0, _, _, _, _ => rfl
  | n + 1, pre, s, p, hpre => by
    unfold peels TDiffPart.applyElements
    simp only [applyElement_next]
    by_cases hsep : (peel s).sep = .none
    · rw [if_pos hsep]
      exact applyElement_key hpre p _ _ _
    · rw [if_neg hsep, key_later n]
      · exact applyElement_key hpre p _ _ _
      · split
        · exact hpre
        · exact hsep

/-- Without a colon or an equals sign there is no key. -/
theorem key_apply {s : List Char} (h : (peel s).sep = .none ∨ (peel s).sep = .arrow) :
    (TDiffPart.apply s false).key = none := by
  unfold TDiffPart.apply
  rw [settle_key]
  unfold peels TDiffPart.applyElements
  have hbang : (peel s).sep ≠ .bang := by rcases h with h | h <;> (rw [h]; exact Sep.noConfusion)
  have hfirst :
    ∀ p : TDiffPart,
    (p.applyElement (peel s).result .none (peel s).sep (peel s).hasQuote false).1.key = p.key := by
    intro p
    unfold TDiffPart.applyElement
    rw [if_neg hbang]
    rcases h with h | h <;> (rw [h]; rfl)
  simp only [applyElement_next, if_neg hbang]
  by_cases hsep : (peel s).sep = .none
  · rw [if_pos hsep]
    exact hfirst _
  · rw [if_neg hsep, key_later _ _ _ hsep]
    exact hfirst _

theorem settle_nval {p : TDiffPart} (h : p.nval = none) : p.settle.nval = none := by
  unfold TDiffPart.settle
  rw [if_neg fun hh => by rw [h] at hh; cases hh.2]
  exact h

/-- What a first element leaves alone. -/
theorem applyElement_first (p : TDiffPart) (txt : List Char) (post : Sep) (quoted : Bool) :
    (p.applyElement txt .none post quoted false).1.nval = p.nval ∧
      (post = .colon ∨ post = .equals ∨ post = .bang →
        (p.applyElement txt .none post quoted false).1.val = p.val) := by
  cases post with
  | none => exact ⟨rfl, by rintro (h | h | h) <;> cases h⟩
  | arrow => exact ⟨rfl, by rintro (h | h | h) <;> cases h⟩
  | colon => exact ⟨rfl, fun _ => rfl⟩
  | equals => exact ⟨rfl, fun _ => rfl⟩
  | bang => exact ⟨rfl, fun _ => rfl⟩

/-- An only element has no new value. -/
theorem nval_apply {s : List Char} (h : (peel s).sep = .none) :
    (TDiffPart.apply s false).nval = none := by
  have hpeels : peels 4 s = [peel s] := by
    unfold peels
    rw [if_pos h]
  unfold TDiffPart.apply
  rw [hpeels]
  exact settle_nval (applyElement_first _ _ _ _).1

/-- Nor has an only element behind a key. -/
theorem nval_apply_named {k name rest : List Char} {qk : Bool} (hk : Shown k name qk)
    (hkdash : dashAfter false k = false)
    (h : (peel rest).sep = .none) : (TDiffPart.apply (k ++ (Sep.equals.text ++ rest)) false).nval =
    none := by
  have hpeels :
    peels 4 (k ++ (Sep.equals.text ++ rest)) = [⟨name, .equals, rest, qk, false⟩, peel rest] := by
    unfold peels
    rw [peel_sep hk hkdash (Or.inr (Or.inl rfl))]
    unfold peels
    rw [if_pos h]
    rfl
  unfold TDiffPart.apply
  rw [hpeels]
  refine settle_nval ?_
  unfold TDiffPart.applyElements TDiffPart.applyElements TDiffPart.applyElements
    TDiffPart.applyElement
  simp only [h]
  rfl

/-- In a term with a key, the values stand behind the first separator. -/
theorem without_apply {x : Char} (hx : x ≠ '\'') {s : List Char}
    (hkey : (TDiffPart.apply s false).key.isSome = true)
    (hrem : x ∉ (peel s).rem) : Without x (TDiffPart.apply s false) := by
  have hnone : (peel s).sep ≠ .none := fun h => by rw [key_apply (Or.inl h)] at hkey; cases hkey
  have harrow : (peel s).sep ≠ .arrow := fun h => by rw [key_apply (Or.inr h)] at hkey; cases hkey
  have hsep : (peel s).sep = .colon ∨ (peel s).sep = .equals ∨ (peel s).sep = .bang := by
    cases h : (peel s).sep with
    | none => exact absurd h hnone
    | arrow => exact absurd h harrow
    | colon => exact Or.inl rfl
    | equals => exact Or.inr (Or.inl rfl)
    | bang => exact Or.inr (Or.inr rfl)
  have hpeels : peels 4 s = peel s :: peels 3 (peel s).rem := by
    rw [peels, if_neg hnone]
  unfold TDiffPart.apply
  rw [hpeels]
  refine (Without.applyElements (notMem_peels hx 3 hrem) ⟨fun d h => ?_, fun d h => ?_⟩).settle
  · rw [(applyElement_first _ _ _ _).2 hsep] at h
    cases h
  · rw [(applyElement_first _ _ _ _).1] at h
    cases h

/-! ## A name with a null character -/

theorem closes_bare {xs : List Char} (h : '\'' ∉ xs) (rest : List Char) :
    closes true (xs ++ rest) = closes true rest := by
  induction xs with
  | nil => rfl
  | cons ch xs ih =>
    obtain ⟨hch, hxs⟩ := List.ne_and_not_mem_of_not_mem_cons h
    rw [List.cons_append, closes, if_neg hch.symm, Bool.true_or, Bool.true_and, ih hxs]

theorem bar_notMem_quotedWords {text : List Char} (h : '|' ∉ text) :
    '|' ∉ text.flatMap quotedWord :=
  fun hin => h (mem_quotedWords (by decide) hin).1

/-- A text that leaves the quotes open takes all that follows for a part of the term. -/
theorem passes_of_closes {xs : List Char} :
    ∀ {quote quote' : Bool} (_ : ∀ rest, closes quote (xs ++ rest) = closes quote' rest)
    (result : List Char), Transducer.Passes Scanner.step (inTerm result quote) xs []
    (inTerm (result ++ xs) quote') := by
  induction xs with
  | nil =>
    intro quote quote' h result
    have hquote : (!quote) = !quote' := h []
    rw [Bool.not_inj hquote, List.append_nil]
    exact Transducer.Passes.nil _
  | cons ch xs ih =>
    intro quote quote' h result
    have happ : result ++ ch :: xs = result ++ [ch] ++ xs := by simp
    rw [happ]
    simp only [List.cons_append, closes] at h
    by_cases hq : ch = '\''
    · simp only [if_pos hq] at h
      refine Transducer.Passes.quiet ?_ (ih h _)
      unfold Scanner.step
      rw [if_pos hq]
      rfl
    · simp only [if_neg hq] at h
      -- a bar outside of the quotes would never be closed
      have hin : (quote || decide (ch ≠ '|')) = true := by
        by_contra hn
        have hall := h (if quote' then ['\''] else [])
        rw [Bool.not_eq_true] at hn
        rw [hn, Bool.false_and] at hall
        cases quote' <;> exact absurd hall (by decide)
      simp only [hin, Bool.true_and] at h
      refine Transducer.Passes.quiet ?_ (ih h _)
      unfold Scanner.step
      rw [if_neg hq]
      cases quote with
      | true => rfl
      | false =>
        have hbar : ch ≠ '|' := by simpa using hin
        rw [if_neg (by exact Bool.false_ne_true), if_neg (by simp [inTerm, hbar])]
        rfl

/-- The first bar outside of quotes ends the first term. -/
theorem tokens_cut (op : Operator) {x : List Char} (hx : closes false x = true) (y : List Char) :
    ∃ es, tokens (op.text ++ [' ', '|'] ++ (x ++ '|' :: y)) = op.text :: x :: es := by
  obtain ⟨es, s', hy⟩ := Transducer.exists_passes Scanner.step (inTerm [] false) y
  have h := (passes_start op).append (((passes_closed hx).snoc (step_bar _)).append hy)
  rw [List.append_assoc x, List.singleton_append] at h
  rw [tokens_of_passes h]
  exact ⟨es ++ s'.last, rfl⟩

/-- Without one there is no term. -/
theorem tokens_open (op : Operator) {x : List Char}
    (hx : ∀ rest, closes false (x ++ rest) = closes true rest) :
    tokens (op.text ++ [' ', '|'] ++ x) = [op.text] := by
  have h := (passes_start op).append (passes_of_closes hx [])
  rw [tokens_of_passes h, last_inTerm, List.append_nil]
  rfl

/-- A cell that follows on an open quote: either the quotes stay open behind it, or a bar cuts
it. -/
theorem flipped_celly (c : SheetCell) :
    ('|' ∉ celly c false ∧ ∀ rest, closes true (celly c false ++ rest) = closes true rest) ∨
    ((c.escaped = false ∧ '|' ∈ c.text.toList) ∧ ∃ x y, celly c false = x ++ '|' :: y ∧ '|' ∉ x ∧
      ∀ rest, closes true (x ++ rest) = closes false rest) := by
  cases hesc : c.escaped with
  | true =>
    rw [celly_null hesc]
    exact Or.inl ⟨by decide, closes_bare (by decide)⟩
  | false =>
    rcases celly_cases hesc false with heq | ⟨hneed, heq⟩
    · rw [heq]
      by_cases hbar : '|' ∈ c.text.toList
      · obtain ⟨u, v, htext, hu⟩ := List.eq_append_cons_of_mem hbar
        refine Or.inr ⟨⟨rfl, hbar⟩, '\'' :: u.flatMap quotedWord, v.flatMap quotedWord ++ ['\''],
          ?_, ?_, fun rest => ?_⟩
        · have hword : quotedWord '|' = ['|'] := rfl
          rw [htext, List.flatMap_append, List.flatMap_cons, hword]
          simp
        · exact List.not_mem_cons_of_ne_of_not_mem (by decide) (bar_notMem_quotedWords hu)
        · rw [List.cons_append, closes, if_pos rfl, Bool.not_true, closes_quotedWords (Or.inr hu)]
      · refine Or.inl ⟨?_, fun rest => ?_⟩
        · rw [List.mem_cons, List.mem_append]
          rintro (h | h | h)
          · exact absurd h (by decide)
          · exact bar_notMem_quotedWords hbar h
          · exact absurd h (by decide)
        · rw [List.cons_append, List.append_assoc, closes, if_pos rfl, Bool.not_true,
            closes_quotedWords (Or.inr hbar)]
          rfl
    · have hchars := (needQuote_eq_false hneed).1
      rw [heq]
      exact Or.inl ⟨fun h => (hchars _ h).1 (by decide), closes_bare fun h =>
        (hchars _ h).1 (by decide)⟩

/-- The quote of a name that is cut at a null character stays open. -/
theorem stringy_cut {name : String} (h : '\x00' ∈ name.toList) :
    cString (stringy name false) = '\'' :: (cString name.toList).flatMap quotedWord := by
  have hquote : needQuote false false name.toList = true := by
    by_contra hn
    rw [Bool.not_eq_true] at hn
    exact absurd ((needQuote_eq_false hn).1 _ h).2 (by decide)
  have hwords : ∀ {text : List Char}, '\x00' ∈ text → ∀ rest,
      cString (text.flatMap quotedWord ++ rest) = (cString text).flatMap quotedWord := by
    intro text
    induction text with
    | nil => exact fun h => absurd h List.not_mem_nil
    | cons ch text ih =>
      intro h rest
      by_cases hch : ch = '\x00'
      · subst hch
        rfl
      · have hrest := ih ((List.mem_cons.1 h).resolve_left (Ne.symm hch)) rest
        have hword : ∀ x ∈ quotedWord ch, (x != '\x00') = true := by
          intro x hx
          rw [bne_iff_ne]
          rintro rfl
          exact hch ((mem_quotedWord hx).resolve_right (by decide)).1.symm
        have hcons : cString (ch :: text) = ch :: cString text :=
          List.takeWhile_cons_of_pos (by simpa using hch)
        rw [hcons, List.flatMap_cons, List.flatMap_cons, List.append_assoc, ← hrest]
        exact List.takeWhile_append_of_pos hword
  have hcelly : stringy name false = '\'' :: (name.toList.flatMap quotedWord ++ ['\'']) := by
    rcases celly_cases (c := ⟨name, false⟩) rfl false with heq | ⟨hneed, -⟩
    · exact heq
    · exact Bool.noConfusion (hquote.symm.trans hneed)
  rw [hcelly, ← hwords h ['\'']]
  rfl

/-- The first separator stands at this place or later. -/
theorem lt_scan_place (text : List Char) : ∀ {i : Nat} {first hq quote bang dash : Bool},
    (scan i first hq quote bang dash text).sep ≠ .none →
    i < (scan i first hq quote bang dash text).place +
    (scan i first hq quote bang dash text).sep.length := by
  induction text with
  | nil => exact fun h => absurd rfl h
  | cons ch text ih =>
    intro i first hq quote bang dash
    rcases scan_cons ch text i first hq quote bang dash with ⟨-, -, sep, place, conflict, -, -, hlt,
      heq⟩ | ⟨_, _, _, heq⟩
    · rw [heq]
      exact fun _ => hlt
    · rw [heq]
      exact fun h => Nat.lt_of_succ_lt (ih h)

/-- The equals sign behind an open quote is not a separator, so the values have no bars if there are
none behind it. -/
theorem bar_notMem_rem (text : List Char) {z : List Char} (hz : '|' ∉ z) :
    '|' ∉ (peel (unescape ('\'' :: text.flatMap quotedWord ++ '=' :: z))).rem := by
  have hz' : '|' ∉ unescape z := fun h => by
    rcases mem_of_mem_unescape h with h | h | h | h
    · exact hz h
    · exact absurd h (by decide)
    · exact absurd h (by decide)
    · exact absurd h (by decide)
  have hpiece : unescape ('\'' :: text.flatMap quotedWord ++ '=' :: z) =
      '\'' :: double (unescape text) ++ '=' :: unescape z := by
    have hequals : unescape ('=' :: z) = '=' :: unescape z :=
      @unescape_append_left ['='] (by decide) z
    have hquote :
      unescape ('\'' :: text.flatMap quotedWord) = '\'' :: unescape (text.flatMap quotedWord) :=
      @unescape_append_left ['\''] (by decide) _
    rw [unescape_append (fun ch hch => ?_), hequals, hquote, ← escapeLines_double,
      unescape_escapeLines]
    rw [← Option.some.inj hch]
    exact ⟨by decide, by decide, by decide⟩
  rw [hpiece]
  generalize unescape text = u at *
  generalize unescape z = w at *
  have hscan : scan 0 true false false false false ('\'' :: double u ++ '=' :: w) =
      scan ('\'' :: double u ++ ['=']).length false true true false false w := by
    rw [List.cons_append, scan, if_pos rfl]
    show scan (0 + 1) false true true false false (double u ++ '=' :: w) = _
    rw [scan_double, scan, if_neg (by decide), if_pos rfl]
    congr 1
    rw [List.length_append, List.length_cons, List.length_singleton]
    omega
  unfold peel
  simp only
  intro h
  split at h
  · exact List.not_mem_nil h
  next hsep =>
    rw [hscan] at h hsep
    have hplace := lt_scan_place w hsep
    have happ : '\'' :: double u ++ '=' :: w = ('\'' :: double u ++ ['=']) ++ w := by simp
    rw [happ, List.drop_append, List.drop_eq_nil_of_le hplace.le, List.nil_append] at h
    exact hz' (List.mem_of_mem_drop h)

/-- Behind a name that is cut, a bar ends the term inside of a value. -/
theorem token_of_cut {name : String} (hnul : '\x00' ∈ name.toList) (op : Operator)
    {old new : SheetCell} (hold : Printed old) (hnew : Printed new) {token : List Char}
    (htoken : (normalizedMessage (rowLine op [transitionTerm (some name) old new])).drop 1 =
      [token]) :
    ((old.escaped = false ∧ '|' ∈ old.text.toList) ∨
      (new.escaped = false ∧ '|' ∈ new.text.toList)) ∧
      ∃ z, '|' ∉ z ∧
      token = unescape ('\'' :: (cString name.toList).flatMap quotedWord ++ '=' :: z) := by
  generalize hw : (cString name.toList).flatMap quotedWord = w at *
  have hopen : ∀ rest, closes false ('\'' :: w ++ '=' :: rest) = closes true rest := by
    intro rest
    rw [List.cons_append, closes, if_pos rfl, Bool.not_false, ← hw, closes_quotedWords (Or.inl rfl)]
    rfl
  have hline : rowLine op [transitionTerm (some name) old new] =
      op.text ++ [' ', '|'] ++
      ('\'' :: w ++ '=' :: (celly old false ++ '-' :: '>' :: (celly new false ++ ['|']))) := by
    have hterm :
      transitionTerm (some name) old new = '\'' :: w ++ '=' ::
      (celly old false ++ '-' :: '>' :: celly new false) := by
      unfold transitionTerm
      rw [namePrefix_some, cString_celly hold, cString_celly hnew, stringy_cut hnul, hw]
      simp
    unfold rowLine
    rw [List.flatMap_singleton, cString_of_not_mem (nul_notMem_transitionTerm _ _ _), hterm]
    simp
  have hcut : ∀ {x y : List Char}, closes true x = true → '|' ∉ x →
      celly old false ++ '-' :: '>' :: (celly new false ++ ['|']) = x ++ '|' :: y →
      ∃ z, '|' ∉ z ∧ token = unescape ('\'' :: w ++ '=' :: z) := by
    intro x y hx hbar hxy
    have happ : '\'' :: w ++ '=' :: (x ++ '|' :: y) = ('\'' :: w ++ '=' :: x) ++ '|' :: y := by simp
    obtain ⟨es, hes⟩ := tokens_cut op ((hopen x).trans hx) y
    unfold normalizedMessage at htoken
    rw [hline, hxy, happ, hes, List.map_cons, List.map_cons, List.drop_succ_cons,
      List.drop_zero] at htoken
    exact ⟨x, hbar, (List.cons.inj htoken).1.symm⟩
  have harrow : ∀ rest, closes true ('-' :: '>' :: rest) = closes true rest := fun _ => rfl
  rcases flipped_celly old with ⟨hbarOld, hthrough⟩ | ⟨hin, x, y, hxy, hbar, hclose⟩
  · rcases flipped_celly new with ⟨-, hthrough'⟩ | ⟨hin, x, y, hxy, hbar, hclose⟩
    · -- the line ends before the quotes do
      have hall :
        ∀ rest, closes false
          ('\'' :: w ++ '=' :: (celly old false ++ '-' :: '>' :: (celly new false ++ ['|'])) ++
          rest) = closes true rest := by
        intro rest
        have happ :
          '\'' :: w ++ '=' :: (celly old false ++ '-' :: '>' :: (celly new false ++ ['|'])) ++
          rest =
            '\'' :: w ++ '=' ::
            (celly old false ++ '-' :: '>' :: (celly new false ++ '|' :: rest)) := by simp
        rw [happ, hopen, hthrough, harrow, hthrough']
        rfl
      unfold normalizedMessage at htoken
      rw [hline, tokens_open op hall] at htoken
      cases htoken
    · refine ⟨Or.inr hin, hcut (x := celly old false ++ '-' :: '>' :: x) (y := y ++ ['|']) ?_ ?_ ?_⟩
      · rw [hthrough, harrow, ← List.append_nil x, hclose]
        rfl
      · rw [List.mem_append, List.mem_cons, List.mem_cons]
        rintro (h | h | h | h)
        · exact hbarOld h
        · exact absurd h (by decide)
        · exact absurd h (by decide)
        · exact hbar h
      · rw [hxy]
        simp
  · refine ⟨Or.inl hin,
      hcut (x := x) (y := y ++ '-' :: '>' :: (celly new false ++ ['|'])) ?_ hbar ?_⟩
    · rw [← List.append_nil x, hclose]
      rfl
    · rw [hxy]
      simp

theorem not_splitsInto_of_nul {name : String} (hnul : '\x00' ∈ name.toList) (op : Operator)
    {old new : SheetCell} (hold : Printed old) (hnew : Printed new) {token : List Char}
    (htoken : (normalizedMessage (rowLine op [transitionTerm (some name) old new])).drop 1 =
      [token]) :
    ¬ SplitsInto (TDiffPart.apply token false) (some name) old new := by
  intro h
  obtain ⟨hbar, z, hz, rfl⟩ := token_of_cut hnul op hold hnew htoken
  have hwithout := without_apply (by decide) h.named (bar_notMem_rem _ hz)
  obtain ⟨d, hd, hsame⟩ := h.old
  obtain ⟨e, he, hsame'⟩ := h.new
  rcases hbar with ⟨hesc, hbar⟩ | ⟨hesc, hbar⟩
  · exact hwithout.val d hd (hsame.2 hesc ▸ hbar)
  · exact hwithout.nval e he (hsame'.2 hesc ▸ hbar)

/-! ## The line -/

/-- A transition as it is read, with its escapes undone. -/
def transitionToken (name : Option String) (old new : SheetCell) : List Char :=
  (match name with
    | none => []
    | some name => unescape (celly ⟨name, false⟩ false) ++ Sep.equals.text) ++
    (unescape (celly old false) ++ (Sep.arrow.text ++ unescape (celly new false)))

/-- A transition is given out as a whole, and its escapes are undone. -/
theorem unescape_transitionTerm {name : Option String} {old new : SheetCell}
    (hname : ∀ n, name = some n → '\x00' ∉ n.toList) (hold : Printed old) (hnew : Printed new) :
    closes false (cString (transitionTerm name old new)) = true ∧
      unescape (cString (transitionTerm name old new)) = transitionToken name old new := by
  have hvalues : unescape (celly old false ++ '-' :: '>' :: celly new false) =
      unescape (celly old false) ++ (Sep.arrow.text ++ unescape (celly new false)) := by
    have harrow :
      unescape ('-' :: '>' :: celly new false) = '-' :: '>' :: unescape (celly new false) :=
      @unescape_append_left ['-', '>'] (by decide) _
    rw [unescape_append (fun ch hch => ?_), harrow]
    · rfl
    · rw [← Option.some.inj hch]
      exact ⟨by decide, by decide, by decide⟩
  have hclosed : closes false (celly old false ++ '-' :: '>' :: celly new false) = true := by
    rw [closes_append (closes_celly old false)]
    exact closes_celly new false
  rw [cString_of_not_mem (nul_notMem_transitionTerm name old new)]
  unfold transitionTerm transitionToken
  rw [cString_celly hold, cString_celly hnew]
  cases name with
  | none => exact ⟨hclosed, hvalues⟩
  | some n =>
    have hpre : namePrefix (some n) = celly ⟨n, false⟩ false ++ ['='] := by
      rw [namePrefix_some]
      exact congrArg (· ++ ['=']) (cString_celly (Or.inr (hname n rfl)) false)
    have hequals : unescape ('=' :: (celly old false ++ '-' :: '>' :: celly new false)) =
        '=' :: unescape (celly old false ++ '-' :: '>' :: celly new false) :=
      @unescape_append_left ['='] (by decide) _
    rw [hpre, List.append_assoc, List.singleton_append]
    constructor
    · rw [closes_append (closes_celly _ _)]
      exact hclosed
    · rw [unescape_append (fun ch hch => ?_), hequals, hvalues, List.append_assoc]
      · rfl
      · rw [← Option.some.inj hch]
        exact ⟨by decide, by decide, by decide⟩

/-- A transition without null characters. -/
structure Transition where
  name : Option String
  old : SheetCell
  new : SheetCell
  name_printed : ∀ n, name = some n → '\x00' ∉ n.toList
  old_printed : Printed old
  new_printed : Printed new

namespace Transition

def term (t : Transition) : List Char := transitionTerm t.name t.old t.new

def token (t : Transition) : List Char := transitionToken t.name t.old t.new

end Transition

theorem normalizedMessage_transitions (conflicted : Bool) (op : RowOp) (ts : List Transition) :
    (normalizedMessage (rowLine (rowOperator conflicted op) (ts.map Transition.term))).drop 1 =
      ts.map Transition.token := by
  have hterm : ∀ t : Transition, closes false (cString t.term) = true ∧
    unescape (cString t.term) = t.token :=
    fun t => unescape_transitionTerm t.name_printed t.old_printed t.new_printed
  rw [normalizedMessage_rowLine conflicted op (List.forall_mem_map.2 fun t _ => (hterm t).1),
    List.drop_succ_cons, List.drop_zero, List.map_map]
  exact List.map_congr_left fun t _ => (hterm t).2

theorem normalizedMessage_transition (conflicted : Bool) (op : RowOp) {name : Option String}
    {old new : SheetCell}
    (hname : ∀ n, name = some n → '\x00' ∉ n.toList) (hold : Printed old) (hnew : Printed new) :
    (normalizedMessage (rowLine (rowOperator conflicted op) [transitionTerm name old new])).drop 1 =
      [transitionToken name old new] :=
  normalizedMessage_transitions conflicted op [⟨name, old, new, hname, hold, hnew⟩]

/-- A transition is split into its parts if the cells are told as themselves and the separators are
seen. -/
theorem splitsInto_iff (name : Option String) (old new : SheetCell) :
    SplitsInto (TDiffPart.apply (transitionToken name old new) false) name old new ↔
      (Tellable old ∧ ¬ Hides old) ∧ Tellable new ∧ ∀ n, name = some n → ¬ Hides ⟨n, false⟩ := by
  have ho := shown_celly old false
  have hn := shown_celly new false
  rw [← cell?_told_iff old false, ← cell?_told_iff new false, ← dashAfter_celly]
  unfold transitionToken
  cases name with
  | none =>
    simp only [List.nil_append]
    cases hdash : dashAfter false (unescape (celly old false)) with
    | true =>
      refine iff_of_false (fun h => ?_) fun h => h.1.2 rfl
      obtain ⟨d, hd, -⟩ := h.new
      rw [nval_apply (peel_hiddenArrow ho hn hdash)] at hd
      cases hd
    | false =>
      rw [apply_transition ho hn hdash]
      exact ⟨fun h => ⟨⟨h.old, Bool.false_ne_true⟩, h.new, fun n hn => (by cases hn)⟩,
        fun h => ⟨rfl, h.1.1, h.2.1⟩⟩
  | some name =>
    have hk := shown_celly ⟨name, false⟩ false
    have hname : (∀ n, some name = some n → ¬ Hides ⟨n, false⟩) ↔
      ¬ dashAfter false (unescape (celly ⟨name, false⟩ false)) = true := by
      rw [dashAfter_celly]
      exact ⟨fun h => h name rfl, fun h n hn => Option.some.inj hn ▸ h⟩
    rw [hname]
    simp only [List.append_assoc]
    cases hkdash : dashAfter false (unescape (celly ⟨name, false⟩ false)) with
    | true =>
      refine iff_of_false (fun h => ?_) fun h => h.2.2 rfl
      have hnamed := h.named
      rw [key_apply (peel_hiddenEquals hk hkdash ho hn)] at hnamed
      cases hnamed
    | false =>
      cases hdash : dashAfter false (unescape (celly old false)) with
      | true =>
        -- the value is all that stands behind the equals sign
        refine iff_of_false (fun h => ?_) fun h => h.1.2 rfl
        obtain ⟨d, hd, -⟩ := h.new
        rw [nval_apply_named hk hkdash (peel_hiddenArrow ho hn hdash)] at hd
        cases hd
      | false =>
        rw [apply_named hk hkdash ho hn hdash]
        exact ⟨fun h => ⟨⟨h.old, Bool.false_ne_true⟩, h.new, Bool.false_ne_true⟩,
          fun h => ⟨rfl, h.1.1, h.2.1⟩⟩

/-- In a line of any number of transitions each is split by itself. -/
theorem transitions_split (conflicted : Bool) (op : RowOp) (ts : List Transition) :
    List.Forall₂ (fun token t => SplitsInto (TDiffPart.apply token false) t.name t.old t.new ↔
        (Tellable t.old ∧ ¬ Hides t.old) ∧ Tellable t.new ∧ ∀ n, t.name = some n →
          ¬ Hides ⟨n, false⟩)
      ((normalizedMessage (rowLine (rowOperator conflicted op) (ts.map Transition.term))).drop 1)
        ts := by
  rw [normalizedMessage_transitions, List.forall₂_map_left_iff]
  exact List.forall₂_same.2 fun t _ => splitsInto_iff t.name t.old t.new

example : (normalizedMessage (rowLine (rowOperator false .update)
    [transitionTerm (some "qty") ⟨"3", false⟩ ⟨"4", false⟩,
      transitionTerm (some "note") ⟨"a|b", false⟩ ⟨"", true⟩])).drop 1 =
      ["qty=3->4".toList, "note='a|b'->NULL".toList] := by decide +kernel

/-- **A transition is split right** if and only if both cells come back by themselves, the name has
no null character, and neither the old value nor the name ends, unquoted, in an odd number of
dashes. -/
theorem transition_split_iff (conflicted : Bool) (op : RowOp) (name : Option String)
    (old new : SheetCell) : (∃ token,
      (normalizedMessage (rowLine (rowOperator conflicted op) [transitionTerm name old new])).drop
      1 = [token] ∧ SplitsInto (TDiffPart.apply token false) name old new) ↔
    (Printed old ∧ Tellable old ∧ ¬ Hides old) ∧ (Printed new ∧ Tellable new) ∧
      ∀ n, name = some n → '\x00' ∉ n.toList ∧ ¬ Hides ⟨n, false⟩ := by
  constructor
  · rintro ⟨token, htoken, h⟩
    have hmem :
      token ∈ normalizedMessage
        (rowLine (rowOperator conflicted op) [transitionTerm name old new]) :=
      List.mem_of_mem_drop (htoken ▸ List.mem_singleton_self token)
    have hwithout :=
      nulFree_apply (nul_notMem_normalizedMessage (nul_notMem_rowLine conflicted op _) token hmem)
      false
    obtain ⟨d, hd, hsame⟩ := h.old
    obtain ⟨e, he, hsame'⟩ := h.new
    have hold : Printed old := hsame.nul_notMem (hwithout.val d hd)
    have hnew : Printed new := hsame'.nul_notMem (hwithout.nval e he)
    have hname : ∀ n, name = some n → '\x00' ∉ n.toList := by
      rintro n rfl hnul
      exact not_splitsInto_of_nul hnul _ hold hnew htoken h
    rw [normalizedMessage_transition conflicted op hname hold hnew] at htoken
    obtain rfl := (List.cons.inj htoken).1
    obtain ⟨⟨htold, hhides⟩, htnew, hkey⟩ := (splitsInto_iff name old new).1 h
    exact ⟨⟨hold, htold, hhides⟩, ⟨hnew, htnew⟩, fun n hn => ⟨hname n hn, hkey n hn⟩⟩
  · rintro ⟨⟨hold, htold, hhides⟩, ⟨hnew, htnew⟩, hname⟩
    refine ⟨_, normalizedMessage_transition conflicted op (fun n hn => (hname n hn).1) hold hnew,
      ?_⟩
    exact (splitsInto_iff name old new).2 ⟨⟨htold, hhides⟩, htnew, fun n hn => (hname n hn).2⟩

/-- An old value that ends in a dash takes the arrow and the new value with it. -/
theorem transition_hidden :
    ¬ ∃ token, (normalizedMessage
      (rowLine (rowOperator false .update) [transitionTerm none ⟨"a-", false⟩ ⟨"b", false⟩])).drop
      1 = [token] ∧ SplitsInto (TDiffPart.apply token false) none ⟨"a-", false⟩ ⟨"b", false⟩ := by
  rintro ⟨token, htoken, h⟩
  have hread :
    (normalizedMessage
      (rowLine (rowOperator false .update) [transitionTerm none ⟨"a-", false⟩ ⟨"b", false⟩])).drop
      1 = ["a-->b".toList] := by
    decide +kernel
  rw [hread] at htoken
  obtain rfl := (List.cons.inj htoken).1
  obtain ⟨d, hd, -⟩ := h.new
  have hnval : (TDiffPart.apply "a-->b".toList false).nval = none := by decide +kernel
  rw [hnval] at hd
  cases hd

end Tdiff

end Coopy
