import Coopy.CsvLines
import Coopy.CsvRead

/-!
# Cells that come back

A text comes back from a CSV file as it is when it is not torn, does not end with a line end, has no
end mark in it, and does not slip: underscores before a cut-off null token lose one of their number.

    cellFields c = [f] with readCell f = c ↔ comesBack c.text                        (comesBack_iff)
-/

namespace Coopy

open Libcsv

open CsvSheetReaderState (readCell fieldCell)

/-- Underscores, and then the null token without its end: the reader takes an underscore away that
the writer has not put there. -/
def slips (t : List Char) : Bool :=
  let rest := t.dropWhile (· == '_')
  decide (rest.length < t.length) &&
    rest.isPrefixOf (SheetStyle.defaultStyle.nullToken ++ ['\x00']) &&
    rest != SheetStyle.defaultStyle.nullToken

def comesBack (t : List Char) : Bool := clean t && !t.contains '\x00' && !slips t

/-- Reading takes characters away, or none. -/
theorem readCell_cases (f : CsvField) :
    (readCell f).text.toList = cString f.1 ∨
    (f.1 ≠ [] ∧ (readCell f).text.toList = cString (f.1.drop 1)) := by
  unfold readCell fieldCell
  simp only [String.toList_ofList]
  split
  · split
    · exact Or.inl rfl
    · split
      · next h =>
        simp only [Bool.and_eq_true, decide_eq_true_eq] at h
        refine Or.inr ⟨?_, rfl⟩
        rintro hnil
        rw [hnil] at h
        simp at h
      · exact Or.inl rfl
  · exact Or.inl rfl

/-- A field that is read as a text no shorter than itself is that text. -/
theorem readCell_full {f : CsvField} (h : f.1.length ≤ (readCell f).text.toList.length) :
    (readCell f).text.toList = f.1 ∧ f.1.contains '\x00' = false := by
  rcases readCell_cases f with hr | ⟨hne, hr⟩
  · rw [hr] at h ⊢
    have := (cString_initial f.1).eq_of_length_le h
    exact ⟨this, (cString_eq_self_iff _).1 this⟩
  · have hlen := (cString_initial (f.1.drop 1)).length_le
    have hpos := List.length_pos_of_ne_nil hne
    rw [hr] at h
    rw [List.length_drop] at hlen
    omega

/-- A text that is no null token, not even behind underscores. -/
theorem readCell_of_not_collides {t : List Char} (ht : SheetStyle.defaultStyle.collides t = false)
    (q : Bool) :
    readCell (t, q) = ⟨String.ofList (cString (if slips t then t.drop 1 else t)), false⟩ := by
  have hrest : t.dropWhile (· == '_') ≠ SheetStyle.defaultStyle.nullToken := by
    simpa [SheetStyle.collides] using ht
  have htok : (SheetStyle.defaultStyle.nullToken == t) = false := by
    rw [beq_eq_false_iff_ne]
    rintro rfl
    exact hrest (by decide)
  unfold readCell fieldCell slips
  simp only [htok, show SheetStyle.defaultStyle.haveNull = true from rfl,
    show SheetStyle.defaultStyle.quoteCollision = true from rfl,
    bne_iff_ne.2 hrest, Bool.and_true, if_true, Bool.true_and, Bool.false_eq_true, if_false]
  split <;> rfl

/-- A text that is the null token, bare or behind underscores, gets one more underscore and loses it
again. -/
theorem readCell_collides {t : List Char} (ht : SheetStyle.defaultStyle.collides t = true)
    (q : Bool) : readCell ('_' :: t, q) = ⟨String.ofList (cString t), false⟩ := by
  have hrest : t.dropWhile (· == '_') = SheetStyle.defaultStyle.nullToken := by
    simpa [SheetStyle.collides] using ht
  have hdrop : ('_' :: t).dropWhile (· == '_') = SheetStyle.defaultStyle.nullToken := hrest
  have hlen : (t.dropWhile (· == '_')).length ≤ t.length := (List.dropWhile_suffix _).length_le
  have hlt : (('_' :: t).dropWhile (· == '_')).length < ('_' :: t).length := by
    rw [hdrop, ← hrest, List.length_cons]
    omega
  have htok : (SheetStyle.defaultStyle.nullToken == '_' :: t) = false := by
    rw [beq_eq_false_iff_ne]
    intro h
    cases h
  unfold readCell fieldCell
  simp only [show SheetStyle.defaultStyle.haveNull = true from rfl, htok, if_true,
    Bool.false_eq_true, if_false]
  rw [if_pos]
  · rfl
  · simp only [Bool.and_eq_true, decide_eq_true_eq]
    refine ⟨⟨rfl, hlt⟩, ?_⟩
    rw [hdrop]
    decide

/-- A text of underscores and the null token has no letter that needs care. -/
theorem plain_of_collides {t : List Char} (ht : SheetStyle.defaultStyle.collides t = true) :
    ∀ c ∈ t, plain c = true ∧ c ≠ '\x00' := by
  have hrest : t.dropWhile (· == '_') = SheetStyle.defaultStyle.nullToken := by
    simpa [SheetStyle.collides] using ht
  intro c hc
  rw [← List.takeWhile_append_dropWhile (p := (· == '_')) (l := t), hrest] at hc
  rcases List.mem_append.1 hc with hc | hc
  · have hu : c = '_' := by simpa using List.mem_takeWhile_imp hc
    rw [hu]
    decide
  · have hall : (SheetStyle.defaultStyle.nullToken.all fun c => plain c && c != '\x00') = true :=
      rfl
    simpa using List.all_eq_true.1 hall c hc

theorem clean_of_plain {t : List Char} (ht : ∀ c ∈ t, plain c = true) : clean t = true := by
  have hterm : ∀ c ∈ t, isTerm c = false := by
    intro c hc
    have := (plain_iff c).1 (ht c hc)
    simp [isTerm, this]
  have htorn : torn t = false := by
    clear ht
    induction t with
    | nil => rfl
    | cons c t ih =>
      rw [torn, hterm c List.mem_cons_self, ih fun c hc => hterm c (List.mem_cons_of_mem _ hc)]
      rfl
  have hopen : endsOpen t = false := by
    unfold endsOpen
    cases hl : t.getLast? with
    | none => rfl
    | some c => exact hterm c (List.mem_of_getLast? hl)
  rw [clean, htorn, hopen]
  rfl

theorem slips_of_collides {t : List Char} (ht : SheetStyle.defaultStyle.collides t = true) :
    slips t = false := by
  have hrest : t.dropWhile (· == '_') = SheetStyle.defaultStyle.nullToken := by
    simpa [SheetStyle.collides] using ht
  simp [slips, hrest]

/-- What becomes of a text: the fields of its cell. -/
theorem cellFields_text {c : SheetCell} (hc : c.escaped = false) :
    (SheetStyle.defaultStyle.collides c.text.toList = true ∧
      cellFields c = [('_' :: c.text.toList, false)]) ∨
    (SheetStyle.defaultStyle.collides c.text.toList = false ∧
      ∃ q, cellFields c = (pieces [] c.text.toList).map (·, q)) := by
  have hcollision : SheetStyle.defaultStyle.quoteCollision = true := rfl
  cases hcol : SheetStyle.defaultStyle.collides c.text.toList with
  | true =>
    have hplain := plain_of_collides hcol
    have hq : c.text.toList.any SheetStyle.defaultStyle.needsQuote = false := by
      rw [List.any_eq_false]
      intro a ha
      have := (hplain a ha).1
      simpa [plain] using this
    refine Or.inl ⟨rfl, ?_⟩
    simp only [cellFields, hc, Bool.and_false, Bool.false_eq_true, if_false, hq,
      DataSheet.collisionText, hcol, hcollision, Bool.not_false, Bool.and_self, if_true]
  | false =>
    have htext : DataSheet.collisionText .defaultStyle c = c.text.toList := by
      simp [DataSheet.collisionText, hcol]
    refine Or.inr ⟨rfl, ?_⟩
    unfold cellFields
    simp only [hc, Bool.and_false, Bool.false_eq_true, if_false, htext]
    by_cases hq : c.text.toList.any SheetStyle.defaultStyle.needsQuote = true
    · exact ⟨true, if_pos hq⟩
    · have ht := plain_collisionText (by simpa using hq)
      rw [htext] at ht
      exact ⟨false, by rw [if_neg hq, (pieces_eq_singleton_iff _).2 (clean_of_plain ht)]; rfl⟩

/-- **A cell comes back** as one field with its text, or not at all. -/
theorem comesBack_iff {c : SheetCell} (hc : c.escaped = false) :
    comesBack c.text.toList = true ↔ ∃ f, cellFields c = [f] ∧ readCell f = c := by
  unfold comesBack
  simp only [Bool.and_eq_true, Bool.not_eq_true']
  have hcell : ∀ c' : SheetCell, c'.escaped = false → c'.text.toList = c.text.toList → c' = c := by
    rintro ⟨t, e⟩ he ht
    obtain ⟨t', e'⟩ := c
    simp only at he hc ht
    rw [String.toList_inj.1 ht, he, hc]
  rcases cellFields_text hc with ⟨hcol, hf⟩ | ⟨hcol, q, hf⟩
  · have hplain := plain_of_collides hcol
    have hnul : c.text.toList.contains '\x00' = false := by
      simp only [List.contains_eq_mem, decide_eq_false_iff_not]
      exact fun h => (hplain _ h).2 rfl
    constructor
    · intro _
      refine ⟨_, hf, ?_⟩
      rw [readCell_collides hcol]
      exact hcell _ rfl (by rw [String.toList_ofList, (cString_eq_self_iff _).2 hnul])
    · intro _
      exact ⟨⟨clean_of_plain fun c hc => (hplain c hc).1, hnul⟩, slips_of_collides hcol⟩
  · constructor
    · rintro ⟨⟨hclean, hnul⟩, hslip⟩
      refine ⟨(c.text.toList, q), by rw [hf, (pieces_eq_singleton_iff _).2 hclean]; rfl, ?_⟩
      rw [readCell_of_not_collides hcol, hslip]
      exact hcell _ rfl (by simp [(cString_eq_self_iff _).2 hnul])
    · rintro ⟨f, hone, hread⟩
      rw [hf] at hone
      obtain ⟨p, hp⟩ : ∃ p, pieces [] c.text.toList = [p] := by
        cases hps : pieces [] c.text.toList with
        | nil => exact absurd hps (pieces_ne_nil _ _)
        | cons p ps =>
          rw [hps] at hone
          simp only [List.map_cons, List.cons.injEq, List.map_eq_nil_iff] at hone
          exact ⟨p, by rw [hone.2]⟩
      have hfp : f = (p, q) := by
        rw [hp] at hone
        simpa using hone.symm
      have hle : p.length ≤ c.text.toList.length := by
        have := length_flatten_pieces [] c.text.toList
        rw [hp] at this
        simpa using this
      -- the piece is no longer than the text, so nothing is lost in reading it
      have hfull := readCell_full (f := f) (by rw [hread, hfp]; exact hle)
      rw [hread, hfp] at hfull
      have htext : p = c.text.toList := hfull.1.symm
      subst htext
      refine ⟨⟨(pieces_eq_singleton_iff _).1 hp, hfull.2⟩, ?_⟩
      by_contra hslip
      rw [Bool.not_eq_false] at hslip
      have hshort := congrArg (fun c : SheetCell => c.text.toList.length) hread
      rw [hfp, readCell_of_not_collides hcol, hslip] at hshort
      have hlen := (cString_initial (c.text.toList.drop 1)).length_le
      have hpos : 0 < c.text.toList.length := by
        simp only [slips, Bool.and_eq_true, decide_eq_true_eq] at hslip
        omega
      simp only [if_true, String.toList_ofList, List.length_drop] at hshort hlen
      omega

/-! ## Texts that cannot be read

Whatever is written, no text that is read is torn or has an end mark in it, and without end marks
none ends with a line end.
-/

theorem torn_cons_of_not_term {c : Char} (hc : isTerm c = false) (t : List Char) :
    torn (c :: t) = torn t := by
  simp [torn, hc]

theorem torn_terms {buf : List Char} (hbuf : ∀ c ∈ buf, isTerm c = true) {ch : Char}
    (hch : isTerm ch = false) (hq : ch ≠ '"') (t : List Char) : torn (buf ++ ch :: t) = torn t := by
  induction buf with
  | nil => exact torn_cons_of_not_term hch t
  | cons b buf ih =>
    have hhead : (buf ++ ch :: t).head? ≠ some '"' := by
      cases buf with
      | nil => simpa using hq
      | cons d buf =>
        have hd := hbuf d (by simp)
        rintro he
        simp only [List.cons_append, List.head?_cons, Option.some.injEq] at he
        rw [he] at hd
        cases hd
    rw [List.cons_append, torn, ih fun c hc => hbuf c (List.mem_cons_of_mem _ hc),
      beq_eq_false_iff_ne.2 hhead, Bool.and_false, Bool.false_or]

/-- No piece is torn. -/
theorem torn_of_mem_pieces {buf t p : List Char} (hbuf : ∀ c ∈ buf, isTerm c = true)
    (hp : p ∈ pieces buf t) : torn p = false := by
  induction t generalizing buf p with
  | nil =>
    rw [pieces, List.mem_singleton] at hp
    rw [hp]
    rfl
  | cons ch rest ih =>
    have hfirst : torn ((pieces [] rest).headD []) = false := by
      obtain ⟨q, qs, hqs⟩ := List.exists_cons_of_ne_nil (pieces_ne_nil [] rest)
      rw [hqs]
      exact @ih [] _ (by simp) (by rw [hqs]; exact List.mem_cons_self)
    have hrest : ∀ {p}, p ∈ pieces [] rest → torn p = false := fun hp => ih (by simp) hp
    by_cases hq : ch = '"'
    · subst hq
      cases buf with
      | nil =>
        rw [pieces_quote, consHead_eq] at hp
        rcases List.mem_cons.1 hp with rfl | hp
        · exact (torn_cons_of_not_term rfl _).trans hfirst
        · exact hrest (List.mem_of_mem_tail hp)
      | cons b buf =>
        rw [pieces_tear] at hp
        rcases List.mem_cons.1 hp with rfl | hp
        · rfl
        · exact hrest hp
    · cases hterm : isTerm ch with
      | true =>
        rw [pieces_term _ _ hterm] at hp
        refine ih (fun c hc => ?_) hp
        rcases List.mem_append.1 hc with hc | hc
        · exact hbuf c hc
        · rw [List.mem_singleton.1 hc]
          exact hterm
      | false =>
        rw [pieces_other _ _ hterm hq, consHead_eq] at hp
        rcases List.mem_cons.1 hp with rfl | hp
        · rw [List.append_assoc, List.singleton_append, torn_terms hbuf hterm hq]
          exact hfirst
        · exact hrest (List.mem_of_mem_tail hp)

theorem torn_of_initial {p t : List Char} (h : p <+: t) (ht : torn t = false) : torn p = false := by
  induction p generalizing t with
  | nil => rfl
  | cons c p ih =>
    obtain ⟨rest, rfl⟩ := h
    rw [List.cons_append, torn, Bool.or_eq_false_iff] at ht
    rw [torn, Bool.or_eq_false_iff]
    refine ⟨?_, ih (List.prefix_append p rest) ht.2⟩
    cases p with
    | nil => simp
    | cons d p => exact ht.1

theorem torn_drop {t : List Char} (ht : torn t = false) : torn (t.drop 1) = false := by
  cases t with
  | nil => rfl
  | cons c t =>
    rw [torn, Bool.or_eq_false_iff] at ht
    exact ht.2

theorem endsOpen_drop {t : List Char} (ht : endsOpen t = false) : endsOpen (t.drop 1) = false := by
  match t, ht with
  | [], _ => rfl
  | [_], _ => rfl
  | _ :: d :: t, ht =>
    unfold endsOpen at ht ⊢
    rw [List.getLast?_cons_cons] at ht
    exact ht

theorem mem_of_mem_pieces {buf t p : List Char} (hp : p ∈ pieces buf t) :
    ∀ c ∈ p, c ∈ buf ++ t := by
  induction t generalizing buf p with
  | nil =>
    rw [pieces, List.mem_singleton] at hp
    rw [hp]
    exact List.forall_mem_nil _
  | cons ch rest ih =>
    have hhead : ∀ front : List Char, front ⊆ buf ++ ch :: rest →
      p ∈ consHead front (pieces [] rest) →
        ∀ c ∈ p, c ∈ buf ++ ch :: rest := by
      intro front hfront hp c hc
      obtain ⟨q, qs, hqs⟩ := List.exists_cons_of_ne_nil (pieces_ne_nil [] rest)
      have hrest : ∀ {p}, p ∈ pieces [] rest → ∀ c ∈ p, c ∈ buf ++ ch :: rest := fun hp c hc => by
        have := ih hp c hc
        simp only [List.nil_append] at this
        simp [this]
      rw [hqs] at hp hrest
      rcases List.mem_cons.1 hp with rfl | hp
      · rcases List.mem_append.1 hc with hc | hc
        · exact hfront hc
        · exact hrest List.mem_cons_self c hc
      · exact hrest (List.mem_cons_of_mem _ hp) c hc
    unfold pieces at hp
    split at hp
    · split at hp
      · next hq _ => exact hhead ['"'] (by simp [beq_iff_eq.1 hq]) hp
      · rcases List.mem_cons.1 hp with rfl | hp
        · exact List.forall_mem_nil _
        · intro c hc
          have := ih hp c hc
          simp only [List.nil_append] at this
          simp [this]
    · split at hp
      · intro c hc
        have := ih hp c hc
        simpa using this
      · exact hhead (buf ++ [ch]) (by simp) hp

theorem mem_collisionText {c : SheetCell} {a : Char}
    (h : a ∈ DataSheet.collisionText .defaultStyle c) :
    a = '_' ∨ a ∈ c.text.toList := by
  unfold DataSheet.collisionText at h
  simp only at h
  split at h
  · exact List.mem_cons.1 h
  · exact Or.inr h

/-- What the fields of a cell are. -/
structure FieldOf (c : SheetCell) (f : CsvField) : Prop where
  notTorn : torn f.1 = false
  notOpen : endsOpen f.1 = false
  plain : f.2 = false → ∀ a ∈ f.1, Libcsv.plain a = true
  noNul : '\x00' ∉ c.text.toList → '\x00' ∉ f.1

theorem fieldOf_of_mem {c : SheetCell} {f : CsvField} (hf : f ∈ cellFields c) : FieldOf c f := by
  rcases encodeCell_cases c with ⟨hs, hplain⟩ | ⟨-, hs⟩
  · rw [hs, List.mem_singleton] at hf
    subst hf
    have hclean := clean_of_plain hplain
    simp only [clean, Bool.and_eq_true, Bool.not_eq_true'] at hclean
    have hshort : DataSheet.encodeCell c .defaultStyle = SheetStyle.defaultStyle.nullToken ∨
        DataSheet.encodeCell c .defaultStyle = DataSheet.collisionText .defaultStyle c := by
      unfold cellFields at hs
      simp only at hs
      split at hs
      · exact Or.inl (by simpa using hs.symm)
      · split at hs
        · cases h : pieces [] (DataSheet.collisionText .defaultStyle c) <;> rw [h] at hs <;>
            simp at hs
        · exact Or.inr (by simpa using hs.symm)
    refine ⟨hclean.1, hclean.2, fun _ => hplain, fun hn hm => ?_⟩
    rcases hshort with h | h
    · rw [h] at hm
      exact absurd hm (by decide)
    · rw [h] at hm
      exact (mem_collisionText hm).elim (by decide) hn
  · rw [hs] at hf
    obtain ⟨p, hp, rfl⟩ := List.mem_map.1 hf
    refine ⟨torn_of_mem_pieces (by simp) hp, endsOpen_of_mem_pieces hp, nofun, fun hn hm => ?_⟩
    have := mem_of_mem_pieces hp _ hm
    exact (mem_collisionText (by simpa using this)).elim (by decide) hn

/-- What is read from a field that is not torn is not torn, and has no end mark in it. -/
theorem readCell_whole {f : CsvField} (hf : torn f.1 = false) :
    torn (readCell f).text.toList = false ∧ '\x00' ∉ (readCell f).text.toList := by
  rcases readCell_cases f with h | ⟨-, h⟩
  · rw [h]
    exact ⟨torn_of_initial (cString_initial _) hf, nul_not_mem_cString _⟩
  · rw [h]
    exact ⟨torn_of_initial (cString_initial _) (torn_drop hf), nul_not_mem_cString _⟩

theorem endsOpen_readCell {f : CsvField} (hf : endsOpen f.1 = false) (hn : '\x00' ∉ f.1) :
    endsOpen (readCell f).text.toList = false := by
  rcases readCell_cases f with h | ⟨-, h⟩
  · rw [h, cString_of_not_mem hn]
    exact hf
  · rw [h, cString_of_not_mem fun hm => hn (List.mem_of_mem_drop hm)]
    exact endsOpen_drop hf

theorem mem_glue {fs : List CsvField} {rows : List (List CsvField)} (hfs : fs ≠ [])
    {row : List CsvField}
    (hr : row ∈ glue fs rows) {f : CsvField} (hf : f ∈ row) : f ∈ fs ∨ ∃ row' ∈ rows, f ∈ row' := by
  unfold glue at hr
  rcases List.mem_append.1 hr with hr | hr
  · obtain ⟨g, hg, rfl⟩ := List.mem_map.1 hr
    rw [List.mem_singleton.1 hf]
    exact Or.inl (List.mem_of_mem_dropLast hg)
  · rcases List.mem_cons.1 hr with rfl | hr
    · rcases List.mem_cons.1 hf with rfl | hf
      · rw [lastField, List.getLastD_eq_getLast?]
        cases hl : fs.getLast? with
        | none => exact absurd (List.getLast?_eq_none_iff.1 hl) hfs
        | some g => exact Or.inl (List.mem_of_getLast? hl)
      · cases rows with
        | nil => cases hf
        | cons r rows => exact Or.inr ⟨r, List.mem_cons_self, hf⟩
    · exact Or.inr ⟨row, List.mem_of_mem_tail hr, hf⟩

theorem mem_lineRows {cs : List SheetCell} {row : List CsvField} (hr : row ∈ lineRows cs)
    {f : CsvField} (hf : f ∈ row) : ∃ c ∈ cs, f ∈ cellFields c := by
  induction cs generalizing row with
  | nil =>
    rw [lineRows, List.mem_singleton] at hr
    rw [hr] at hf
    cases hf
  | cons c cs ih =>
    rcases mem_glue (cellFields_ne_nil c) hr hf with h | ⟨row', hr', hf'⟩
    · exact ⟨c, List.mem_cons_self, h⟩
    · obtain ⟨d, hd, h⟩ := ih hr' hf'
      exact ⟨d, List.mem_cons_of_mem _ hd, h⟩

end Coopy
