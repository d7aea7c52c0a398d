import Coopy.MergeOutputTdiff
import Coopy.TdiffComments
import Coopy.TdiffTransitions

/-!
# Terms of a tdiff row

A term is put together from pieces: a name, a separator, a value, an arrow.  A piece of letters and
digits, quoted or not, says what it says whatever stands next to it.

    name=old, name:old->new, name= in a header       (apply_keyed, apply_fresh, apply_header)
    a NULL is read as the null                       (cell?_simple)
-/

namespace Coopy

open Lib MergeOutputTdiff

namespace Tdiff

/-! ## Plain texts -/

/-- Letters and digits. -/
def Alphanumeric (text : List Char) : Prop := ∀ ch ∈ text, ch.isAlphanum = true

instance : DecidablePred Alphanumeric := fun text =>
  decidable_of_iff (text.all Char.isAlphanum = true) List.all_eq_true

/-- NULL, or a text of letters and digits that does not say NULL. -/
def SimpleCell (c : SheetCell) : Prop := c.escaped = true ∨ c.text ≠ "NULL" ∧
    Alphanumeric c.text.toList

/-- A NULL is read as the null, whatever text it had. -/
def asRead (c : SheetCell) : SheetCell := if c.escaped then SheetCell.null else c

theorem toNat_of_isAlphanum {ch : Char} (h : ch.isAlphanum = true) :
    48 ≤ ch.toNat ∧ ch.toNat ≤ 122 := by
  have hbounds : ∀ {lo hi : UInt32}, 48 ≤ lo.toNat → hi.toNat ≤ 122 → lo ≤ ch.val → ch.val ≤ hi →
      48 ≤ ch.toNat ∧ ch.toNat ≤ 122 := fun hlo hhi h h' =>
    ⟨hlo.trans (UInt32.le_iff_toNat_le.1 h), (UInt32.le_iff_toNat_le.1 h').trans hhi⟩
  have hkinds : (ch.isUpper = true ∨ ch.isLower = true) ∨ ch.isDigit = true :=
    (Bool.or_eq_true_iff.1 h).imp_left Bool.or_eq_true_iff.1
  rcases hkinds with (h | h) | h
  · obtain ⟨h, h'⟩ := of_decide_eq_true h
    exact hbounds (by decide) (by decide) h h'
  · obtain ⟨h, h'⟩ := Bool.and_eq_true_iff.1 h
    exact hbounds (by decide) (by decide) (of_decide_eq_true h) (of_decide_eq_true h')
  · obtain ⟨h, h'⟩ := Bool.and_eq_true_iff.1 h
    exact hbounds (by decide) (by decide) (of_decide_eq_true h) (of_decide_eq_true h')

section
variable {text : List Char}

theorem Alphanumeric.notMem (h : Alphanumeric text) {ch : Char} (hch : ch.isAlphanum = false) :
    ch ∉ text := by
  intro hm
  rw [h ch hm] at hch
  cases hch

theorem Alphanumeric.bare (h : Alphanumeric text) : Bare text := by
  refine ⟨fun ch hch => ?_, fun hin => h.notMem (by decide : '-'.isAlphanum = false)
    (hin.subset List.mem_cons_self)⟩
  refine ⟨?_, ?_, ?_, ?_⟩ <;> rintro rfl <;> exact absurd (h _ hch) (by decide)

theorem dashAfter_of_notMem (h : '-' ∉ text) : dashAfter false text = false := by
  induction text with
  | nil => rfl
  | cons ch text ih =>
    obtain ⟨hch, htext⟩ := List.ne_and_not_mem_of_not_mem_cons h
    rw [dashAfter, decide_eq_false hch.symm, Bool.false_and]
    exact ih htext

theorem Alphanumeric.needQuote_eq (h : Alphanumeric text) (quoteSpace : Bool) :
    ∀ last, needQuote quoteSpace last text = false := by
  induction text with
  | nil => exact fun _ => rfl
  | cons ch text ih =>
    intro last
    obtain ⟨hch, htext⟩ := List.forall_mem_cons.1 h
    have hnat := toNat_of_isAlphanum hch
    have hne : ∀ {d : Char}, d.isAlphanum = false → ch ≠ d := by
      rintro d hd rfl
      rw [hch] at hd
      cases hd
    have hmem : ch ∉ ['\n', '\r', '!', ':', '=', '|', '\''] := by
      simp only [List.mem_cons, List.not_mem_nil, or_false, not_or]
      refine ⟨?_, ?_, ?_, ?_, ?_, ?_, ?_⟩ <;> exact hne (by decide)
    have hlow : belowBlank ch = false := by
      unfold belowBlank
      rw [decide_eq_false (by omega), decide_eq_false (by omega)]
      rfl
    unfold needQuote
    rw [decide_eq_false hmem, decide_eq_false (hne (by decide : '>'.isAlphanum = false)),
      decide_eq_false (hne (by decide : ' '.isAlphanum = false)), hlow, ih htext]
    rfl

end

/-! ## Pieces -/

/-- A piece of a term that says `text`, with nothing in it that could take part in something
else. -/
structure Piece (piece text : List Char) (quoted : Bool) : Prop where
  shown : Shown piece text quoted
  dash : dashAfter false piece = false
  closed : closes false piece = true
  printed : '\x00' ∉ piece
  unescaped : '\\' ∉ piece
  oneLine : '\n' ∉ piece
  unreturned : '\r' ∉ piece

theorem Alphanumeric.piece {text : List Char} (h : Alphanumeric text) : Piece text text false where
  shown := .bare h.bare
  dash := dashAfter_of_notMem (h.notMem (by decide))
  closed := closes_of_plain fun ch hch =>
    ⟨fun he => h.notMem (by decide) (he ▸ hch), fun he => h.notMem (by decide) (he ▸ hch)⟩
  printed := h.notMem (by decide)
  unescaped := h.notMem (by decide)
  oneLine := h.notMem (by decide)
  unreturned := h.notMem (by decide)

theorem piece_nil : Piece [] [] false := Alphanumeric.piece (List.forall_mem_nil _)

theorem piece_star : Piece ['*'] ['*'] false :=
  ⟨.bare ⟨List.forall_mem_singleton.2
    (by decide), by decide⟩, by decide, by decide, by decide, by decide, by decide,
    by decide⟩

/-- The name of a column. -/
theorem piece_stringy {name : String} (h : Alphanumeric name.toList) (quoteSpace : Bool) :
    ∃ quoted, Piece (stringy name quoteSpace) name.toList quoted := by
  unfold stringy
  by_cases hnull : name = "NULL"
  · subst hnull
    have hquoted : celly ⟨"NULL", false⟩ quoteSpace = "'NULL'".toList := if_pos ⟨rfl, rfl⟩
    rw [hquoted]
    exact ⟨true,
      ⟨.quoted "NULL".toList, by decide, by decide, by decide, by decide, by decide, by decide⟩⟩
  · rw [celly_bare rfl hnull (h.needQuote_eq quoteSpace false)]
    exact ⟨false, h.piece⟩

/-- The text of a cell. -/
theorem piece_celly {c : SheetCell} (h : SimpleCell c) :
    Piece (celly c false) (asRead c).text.toList false := by
  unfold asRead
  cases hesc : c.escaped with
  | true =>
    rw [celly_null hesc]
    have hplain : Alphanumeric "NULL".toList := List.all_eq_true.1 (by decide)
    exact hplain.piece
  | false =>
    obtain ⟨hnull, hplain⟩ := h.resolve_left (by rw [hesc]; exact Bool.false_ne_true)
    rw [celly_bare hesc hnull (hplain.needQuote_eq false false)]
    exact hplain.piece

theorem cell?_simple {c : SheetCell} (h : SimpleCell c) :
    TDiffPart.cell? (asRead c).text.toList false = some (asRead c) := by
  unfold asRead
  cases hesc : c.escaped with
  | true =>
    rw [if_pos rfl]
    decide
  | false =>
    obtain ⟨hnull, hplain⟩ := h.resolve_left (by rw [hesc]; exact Bool.false_ne_true)
    have hstar : c.text.toList ≠ ['*'] := fun hs => by
      have := hplain '*' (by rw [hs]; exact List.mem_cons_self)
      exact absurd this (by decide)
    unfold TDiffPart.cell? TDiffPart.checkCell TDiffPart.getCell
    rw [if_neg Bool.false_ne_true, Bool.false_or, decide_eq_true hstar, if_pos rfl,
      if_neg Bool.false_ne_true,
      if_neg fun hn => hnull (String.toList_injective hn), String.ofList_toList]
    exact congrArg (fun e => some (⟨c.text, e⟩ : SheetCell)) hesc.symm

/-! ## Terms -/

section
variable {k o n name old new : List Char} {qk qo qn : Bool}

theorem apply_empty : TDiffPart.apply ['*'] false = {} := by
  rw [apply_shown piece_star.shown]
  rfl

/-- A name and a value. -/
theorem apply_keyed (hk : Piece k name qk) (ho : Piece o old qo) :
    TDiffPart.apply (k ++ (Sep.equals.text ++ o)) false =
      { key := some (String.ofList name), val := TDiffPart.cell? old qo, isId := true } := by
  have hpeels :
      peels 4 (k ++ (Sep.equals.text ++ o)) =
      [⟨name, .equals, o, qk, false⟩, ⟨old, .none, [], qo, false⟩] := by
    unfold peels
    rw [peel_sep hk.shown hk.dash (Or.inr (Or.inl rfl))]
    unfold peels
    rw [peel_last ho.shown]
    rfl
  unfold TDiffPart.apply
  rw [hpeels]
  show TDiffPart.settle
    { key := some (String.ofList name), isId := true, val := (TDiffPart.cell? old qo).or none } = _
  rw [Option.or_none]
  rfl

/-- A name, and a value that the row is not chosen by. -/
theorem apply_fresh (hk : Piece k name qk) (ho : Piece o old qo) (hn : Piece n new qn) :
    TDiffPart.apply (k ++ (Sep.colon.text ++ (o ++ (Sep.arrow.text ++ n)))) false =
      { key := some (String.ofList name)
        val := TDiffPart.cell? old qo
        nval := TDiffPart.cell? new qn
        isFresh := (TDiffPart.cell? old qo).isNone } := by
  have hpeels : peels 4 (k ++ (Sep.colon.text ++ (o ++ (Sep.arrow.text ++ n)))) =
      [⟨name, .colon, o ++ (Sep.arrow.text ++ n), qk, false⟩, ⟨old, .arrow, n, qo, false⟩,
        ⟨new, .none, [], qn, false⟩] := by
    unfold peels
    rw [peel_sep hk.shown hk.dash (Or.inl rfl)]
    unfold peels
    rw [peel_sep ho.shown ho.dash (Or.inr (Or.inr rfl))]
    unfold peels
    rw [peel_last hn.shown]
    rfl
  unfold TDiffPart.apply
  rw [hpeels]
  show TDiffPart.settle
    { key := some (String.ofList name)
      val := (TDiffPart.cell? old qo).or none
      nval := (TDiffPart.cell? new qn).or none
      isFresh := false || ((TDiffPart.cell? old qo).or none).isNone } = _
  rw [Option.or_none, Option.or_none, Bool.false_or]
  rfl

/-- A column in a header line. -/
theorem apply_header (hk : Piece k name qk) (select : Bool) :
    TDiffPart.apply (k ++ if select then ['='] else []) true =
      { key := some (String.ofList name), isId := select } := by
  cases select with
  | false =>
    have hpeels : peels 4 (k ++ []) = [⟨name, .none, [], qk, false⟩] := by
      unfold peels
      rw [List.append_nil, peel_last hk.shown]
      rfl
    unfold TDiffPart.apply
    rw [if_neg Bool.false_ne_true, hpeels]
    rfl
  | true =>
    have hpeels :
        peels 4 (k ++ (Sep.equals.text ++ [])) =
        [⟨name, .equals, [], qk, false⟩, ⟨[], .none, [], false, false⟩] := by
      unfold peels
      rw [peel_sep hk.shown hk.dash (Or.inr (Or.inl rfl))]
      rfl
    have hterm : k ++ (if true = true then ['='] else []) = k ++ (Sep.equals.text ++ []) := rfl
    unfold TDiffPart.apply
    rw [hterm, hpeels]
    rfl

end

end Tdiff

end Coopy
