import Coopy.CsvBookText

/-!
# The names of the sheets that are read

A title is a field without quotes, so that the name in it cannot have a delimiter, a line end or an
end mark.  No text is read as a book with another name in it.

    readCsvsData text = some pages → every name of pages can stand in a title    (titleName_of_read)
-/

namespace Coopy

open Lib Libcsv

/-! ## Fields without quotes -/

namespace Libcsv

/-- A character of a field without quotes. -/
def bareChar (c : Char) : Bool := c != ',' && !isTerm c

/-- A field without quotes has no delimiter and no line end in it. -/
def BareEvent : Event → Prop
  | .field s quoted => quoted = false → s.all bareChar = true
  | .row => True

/-- What is in the buffer of the tokeniser. -/
structure BareEntry (p : Parser) : Prop where
  delim : p.delim = ','
  entry : p.quoted = false → p.entry.all bareChar = true
  start : p.pstate = .rowNotBegun ∨ p.pstate = .fieldNotBegun → p.entry = []
  quoted : p.pstate = .fieldMightHaveEnded → p.quoted = true

theorem bareChar_of {c : Char} (hd : c ≠ ',') (ht : isTerm c = false) : bareChar c = true := by
  simp [bareChar, hd, ht]

theorem all_drop {entry : List Char} {n : Nat} (h : entry.all bareChar = true) :
    (drop entry n).all bareChar = true := by
  rw [List.all_eq_true] at h ⊢
  exact fun c hc => h c (List.mem_of_mem_take hc)

theorem bareEvent_submitField {p : Parser} (h : p.quoted = false → p.entry.all bareChar = true) :
    ∀ e ∈ p.submitField.1, BareEvent e := by
  intro e he
  rw [Parser.submitField, List.mem_singleton] at he
  subst he
  intro hq
  simp only [Parser.fieldText, hq, Bool.false_eq_true, if_false]
  exact all_drop (h hq)

theorem bareEntry_submitField {p : Parser} (h : p.delim = ',') : BareEntry p.submitField.2 :=
  ⟨h, fun _ => rfl, fun _ => rfl, nofun⟩

theorem bareEvent_submitLast {p : Parser} (h : p.quoted = false → p.entry.all bareChar = true) :
    ∀ e ∈ p.submitLast.1, BareEvent e := by
  intro e he
  rcases List.mem_append.1 he with he | he
  · exact bareEvent_submitField h e he
  · rw [Parser.submitRow, List.mem_singleton] at he
    subst he
    trivial

theorem bareEntry_submitLast {p : Parser} (h : p.delim = ',') : BareEntry p.submitLast.2 :=
  ⟨h, fun _ => rfl, fun _ => rfl, nofun⟩

theorem bareEntry_begun {p : Parser} (hd : p.delim = ',') (hp : p.pstate = .fieldBegun)
    (he : p.quoted = false → p.entry.all bareChar = true) : BareEntry p := by
  refine ⟨hd, he, fun h => ?_, fun h => ?_⟩
  · rcases h with h | h <;> rw [hp] at h <;> cases h
  · rw [hp] at h
    cases h

theorem bareEntry_quoted {p : Parser} (hd : p.delim = ',') (hp : p.pstate = .fieldBegun ∨
    p.pstate = .fieldMightHaveEnded)
    (hq : p.quoted = true) : BareEntry p := by
  refine ⟨hd, fun h => ?_, fun h => ?_, fun _ => hq⟩
  · rw [hq] at h
    cases h
  · rcases h with h | h <;> rcases hp with hp | hp <;> rw [hp] at h <;> cases h

theorem bareEntry_atStart {p : Parser} (h : BareEntry p) (hempty : p.entry = []) (c : Char) :
    (∀ e ∈ (p.atStart c).1, BareEvent e) ∧ BareEntry (p.atStart c).2 := by
  unfold Parser.atStart
  split
  · exact ⟨List.forall_mem_nil _, h⟩
  · split
    · split
      · exact ⟨bareEvent_submitLast h.entry, bareEntry_submitLast h.delim⟩
      · exact ⟨List.forall_mem_nil _, h⟩
    · next hterm =>
      split
      · exact ⟨bareEvent_submitField h.entry, bareEntry_submitField h.delim⟩
      · next hd =>
        rw [h.delim, beq_iff_eq] at hd
        split
        · exact ⟨List.forall_mem_nil _, bareEntry_quoted h.delim (Or.inl rfl) rfl⟩
        · refine ⟨List.forall_mem_nil _, bareEntry_begun h.delim rfl fun _ => ?_⟩
          simp [Parser.submitChar, hempty, bareChar_of hd (by simpa using hterm)]

theorem bareEntry_inField {p : Parser} (h : BareEntry p) (hp : p.pstate = .fieldBegun) (c : Char) :
    (∀ e ∈ (p.inField c).1, BareEvent e) ∧ BareEntry (p.inField c).2 := by
  have happend : c ≠ ',' → isTerm c = false → p.quoted = false →
    (p.entry ++ [c]).all bareChar = true := by
    intro hd ht hq
    simp [h.entry hq, bareChar_of hd ht]
  unfold Parser.inField
  split
  · next hc =>
    rw [beq_iff_eq] at hc
    split
    · next hq => exact ⟨List.forall_mem_nil _, bareEntry_quoted h.delim (Or.inr rfl) hq⟩
    · exact ⟨List.forall_mem_nil _,
        bareEntry_begun h.delim hp (happend (by rw [hc]; decide) (by rw [hc]; decide))⟩
  · split
    · split
      · next hq => exact ⟨List.forall_mem_nil _, bareEntry_quoted h.delim (Or.inl hp) hq⟩
      · exact ⟨bareEvent_submitField h.entry, bareEntry_submitField h.delim⟩
    · next hd =>
      rw [h.delim, beq_iff_eq] at hd
      split
      · split
        · exact ⟨bareEvent_submitLast h.entry, bareEntry_submitLast h.delim⟩
        · next hq =>
          have hq : p.quoted = true := by simpa using hq
          exact ⟨List.forall_mem_nil _, bareEntry_quoted h.delim (Or.inl hp) hq⟩
      · next hterm =>
        split
        · exact ⟨List.forall_mem_nil _,
            bareEntry_begun h.delim hp (happend hd (by simpa using hterm))⟩
        · exact ⟨List.forall_mem_nil _,
            bareEntry_begun h.delim hp (happend hd (by simpa using hterm))⟩

theorem bareEntry_afterQuote {p : Parser} (h : BareEntry p) (hp : p.pstate = .fieldMightHaveEnded)
    (c : Char) : (∀ e ∈ (p.afterQuote c).1, BareEvent e) ∧ BareEntry (p.afterQuote c).2 := by
  have hq := h.quoted hp
  have hun : p.unquote.quoted = false → p.unquote.entry.all bareChar = true := fun hf => by
    rw [Parser.unquote, hq] at hf
    cases hf
  unfold Parser.afterQuote
  split
  · exact ⟨bareEvent_submitField hun, bareEntry_submitField h.delim⟩
  · split
    · exact ⟨bareEvent_submitLast hun, bareEntry_submitLast h.delim⟩
    · split
      · exact ⟨List.forall_mem_nil _, bareEntry_quoted h.delim (Or.inr hp) hq⟩
      · split
        · split
          · exact ⟨List.forall_mem_nil _, bareEntry_quoted h.delim (Or.inr hp) hq⟩
          · exact ⟨List.forall_mem_nil _, bareEntry_quoted h.delim (Or.inl rfl) hq⟩
        · exact ⟨List.forall_mem_nil _, bareEntry_quoted h.delim (Or.inl rfl) hq⟩

theorem bareEntry_step (p : Parser) (c : Char) (h : BareEntry p) :
    (∀ e ∈ (step p c).1, BareEvent e) ∧ BareEntry (step p c).2 := by
  unfold step
  split
  · next hp => exact bareEntry_atStart h (h.start (Or.inl hp)) c
  · next hp => exact bareEntry_atStart h (h.start (Or.inr hp)) c
  · next hp => exact bareEntry_inField h hp c
  · next hp => exact bareEntry_afterQuote h hp c

/-- **No field without quotes** has a delimiter or a line end in it, whatever the text. -/
theorem bareEvent_events (text : List Char) : ∀ e ∈ Libcsv.events ',' text, BareEvent e := by
  have hnew : BareEntry { delim := ',' } := ⟨rfl, fun _ => rfl, fun _ => rfl, nofun⟩
  obtain ⟨hrun, hend⟩ := Transducer.run_invariant bareEntry_step text hnew
  intro e he
  rcases List.mem_append.1 he with he | he
  · exact hrun e he
  · unfold fini at he
    split at he
    · cases he
    · next hp =>
      refine bareEvent_submitLast (fun hf => ?_) e he
      rw [Parser.unquote, hend.quoted hp] at hf
      cases hf
    · exact bareEvent_submitLast hend.entry e he
    · exact bareEvent_submitLast hend.entry e he

end Libcsv

/-! ## Names -/

namespace CsvSheetReaderState

/-- Every sheet has a name that can stand in a title. -/
structure NamesRead (st : CsvSheetReaderState) : Prop where
  closed : ∀ sheet ∈ st.closed, titleName sheet.1.toList = true
  name : titleName st.name.toList = true

theorem NamesRead.sheets {st : CsvSheetReaderState} (h : NamesRead st) :
    ∀ sheet ∈ st.sheets, titleName sheet.1.toList = true := by
  intro sheet hs
  rcases List.mem_append.1 hs with hs | hs
  · exact h.closed sheet hs
  · obtain ⟨s, -, rfl⟩ := Option.map_eq_some_iff.1 (Option.mem_toList.1 hs)
    exact h.name

theorem NamesRead.addSheet {st : CsvSheetReaderState} (h : NamesRead st) {name : String}
    (hn : titleName name.toList = true) (named : Bool) : NamesRead (st.addSheet name named) := by
  refine ⟨?_, hn⟩
  unfold CsvSheetReaderState.addSheet
  split
  · exact h.sheets
  · exact h.closed

theorem NamesRead.event {st st' : CsvSheetReaderState} (h : NamesRead st) {e : Event}
    (he : BareEvent e) (hst : st.event e = some st') : NamesRead st' := by
  cases e with
  | row =>
    rw [CsvSheetReaderState.event, Option.some.injEq] at hst
    subst hst
    unfold mergeCb2
    simp only
    split
    · exact ⟨h.closed, h.name⟩
    · split <;> exact ⟨h.closed, h.name⟩
  | field s quoted =>
    rw [CsvSheetReaderState.event, mergeCb1] at hst
    split at hst
    · next hcond =>
      simp only [Bool.and_eq_true, Bool.not_eq_true'] at hcond
      obtain ⟨j, -, rfl⟩ := Option.map_eq_some_iff.1 hst
      have hall := List.all_eq_true.1 (he hcond.1.2)
      have hname : titleName (String.ofList (cString ((s.take j).drop 3))).toList = true := by
        rw [String.toList_ofList, titleName, List.all_eq_true]
        intro c hc
        have hbare :=
          hall c (List.mem_of_mem_take (List.mem_of_mem_drop ((cString_initial _).subset hc)))
        have hnul : c ≠ '\x00' := fun h => nul_not_mem_cString _ (h ▸ hc)
        simpa [bareChar, hnul] using hbare
      exact ⟨(h.addSheet hname true).closed, (h.addSheet hname true).name⟩
    · split at hst
      · rw [Option.some.injEq] at hst
        subst hst
        exact ⟨h.closed, h.name⟩
      · rw [Option.some.injEq] at hst
        subst hst
        have hfirst :
          NamesRead (if st.sheet.isNone then st.addSheet defaultTableName false else st) := by
          split
          · exact h.addSheet (by decide) false
          · exact h
        unfold enterField
        simp only
        split
        · exact hfirst
        · exact ⟨hfirst.closed, hfirst.name⟩

theorem NamesRead.events {st st' : CsvSheetReaderState} (h : NamesRead st) {es : List Event}
    (he : ∀ e ∈ es, BareEvent e) (hst : st.events es = some st') : NamesRead st' := by
  induction es generalizing st with
  | nil =>
    cases hst
    exact h
  | cons e es ih =>
    rw [events_cons, Option.bind_eq_some_iff] at hst
    obtain ⟨st1, h1, h2⟩ := hst
    exact ih (h.event (he e List.mem_cons_self) h1)
      (fun f hf => he f (List.mem_cons_of_mem _ hf)) h2

end CsvSheetReaderState

namespace CsvTextBook

/-- Whatever is read, its names can stand in titles. -/
theorem titleName_of_read {text : List Char} {pages : List Page}
    (h : readCsvsData text = some pages) : ∀ p ∈ pages, titleName p.name.toList = true := by
  obtain ⟨sheets, hs, rfl⟩ := Option.map_eq_some_iff.1 h
  obtain ⟨st, hst, rfl⟩ := Option.map_eq_some_iff.1 hs
  have hnew : CsvSheetReaderState.NamesRead { hasReader := true } := ⟨nofun, rfl⟩
  intro p hp
  obtain ⟨sheet, hmem, rfl⟩ := List.mem_map.1 hp
  exact (hnew.events (bareEvent_events text) hst).sheets sheet hmem

end CsvTextBook

end Coopy
