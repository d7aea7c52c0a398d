import Coopy.CsvCells

/-!
# A cell as a token of a CSV file

What `encodeCell` writes for a cell, read by the tokeniser and by `csvfile_merge_cb1`.  A NULL is
the null token, and comes back with that text; a text loses the line ends at its end, which the
style has the writer trim, and is cut off at an end mark.  What the reader takes for a guarded null
token loses an underscore as well (`guarded`).

    not torn, guarded → decodeCell (encodeCell c) = [c without the line ends at its end]
                                                                                 (decode_encodeCell)
-/

namespace Coopy

open Lib Libcsv

open Transducer (Passes)

open CsvSheetReaderState (readCell)

/-- The cells that a token at the end of a line is read as. -/
def decodeCell (token : List Char) : List SheetCell :=
  (Transducer.run step (token ++ ['\r', '\n']) (atField .fieldNotBegun)).1.filterMap fun
    | .field text quoted => some (readCell (text, quoted))
    | .row => none

/-- What is left of a text is not read as a guarded null token, unless it was guarded as one. -/
def guarded (t : List Char) : Bool :=
  !slips (trimmed t) && (trimmed t == t || !SheetStyle.defaultStyle.collides (trimmed t))

/-- The tokeniser gives out the fields of the cell. -/
theorem decodeCell_eq (c : SheetCell) :
    decodeCell (DataSheet.encodeCell c .defaultStyle) = (cellFields c).map readCell := by
  have hend : Passes step (pending .fieldNotBegun (lastField (cellFields c))) ['\r', '\n']
      (CsvField.rowEvents [lastField (cellFields c)] ++ []) (atField .rowNotBegun) :=
    Passes.cons (step_pending_term _ (Or.inl rfl) (c := '\r') rfl)
      (Passes.quiet (step_blank (c := '\n') rfl) (Passes.nil _))
  have hrun := ((passes_cell (Or.inr rfl) c).append hend).run_eq
  unfold decodeCell
  rw [hrun]
  have hne := cellFields_ne_nil c
  generalize cellFields c = fs at hne ⊢
  induction fs with
  | nil => exact absurd rfl hne
  | cons f fs ih =>
    cases fs with
    | nil => rfl
    | cons g fs =>
      rw [tears_cons f (List.cons_ne_nil g fs), lastField_cons f (List.cons_ne_nil g fs)]
      have hrest := ih (List.cons_ne_nil g fs)
      simp only [List.append_assoc, List.filterMap_append] at hrest ⊢
      rw [List.map_cons, ← hrest]
      rfl

/-- A text that is read: the line ends at its end are gone, and a guard that was not put there is
not taken away. -/
theorem decode_text {c : SheetCell} (hc : c.escaped = false) (ht : torn c.text.toList = false)
    (hg : guarded c.text.toList = true) :
    (cellFields c).map readCell = [⟨String.ofList (cString (trimmed c.text.toList)), false⟩] := by
  unfold guarded at hg
  rw [Bool.and_eq_true, Bool.not_eq_true'] at hg
  rcases cellFields_text hc with ⟨hcol, hf⟩ | ⟨hcol, q, hf⟩
  · have hplain := clean_of_plain fun a ha => (plain_of_collides hcol a ha).1
    have hopen : endsOpen c.text.toList = false := by
      rw [clean, Bool.and_eq_true, Bool.not_eq_true', Bool.not_eq_true'] at hplain
      exact hplain.2
    rw [hf, List.map_singleton, readCell_collides hcol, trimmed_eq_self hopen]
  · rw [hf, pieces_eq_trimmed [] _ ht (Or.inl rfl) (by simp), List.nil_append, List.map_singleton,
      List.map_singleton]
    have hleft : SheetStyle.defaultStyle.collides (trimmed c.text.toList) = false := by
      rw [Bool.or_eq_true, Bool.not_eq_true'] at hg
      rcases hg.2 with h | h
      · rw [beq_iff_eq.1 h]
        exact hcol
      · exact h
    rw [readCell_of_not_collides hleft, hg.1]
    rfl

/-- A cell of a table: a NULL, or a text in which no quote stands right behind a line end and which
the reader does not take for a guarded null token. -/
structure TokenCell where
  cell : SheetCell
  null : cell.escaped = true → cell.text = "" ∨ cell.text = "NULL"
  whole : cell.escaped = false → torn cell.text.toList = false
  guard : cell.escaped = false → guarded cell.text.toList = true

/-- **A cell comes back**: a NULL as the null token, a text without the line ends at its end. -/
theorem decode_encodeCell (t : TokenCell) :
    decodeCell (DataSheet.encodeCell t.cell .defaultStyle) =
      [if t.cell.escaped then SheetCell.null
        else ⟨String.ofList (cString (trimmed t.cell.text.toList)), false⟩] := by
  rw [decodeCell_eq]
  obtain ⟨⟨text, escaped⟩, null, whole, guard⟩ := t
  cases escaped with
  | false => exact decode_text rfl (whole rfl) (guard rfl)
  | true =>
    rcases null rfl with h | h
    · obtain rfl : text = "" := h
      have hread : (cellFields ⟨"", true⟩).map readCell = [SheetCell.null] := by decide
      exact hread
    · obtain rfl : text = "NULL" := h
      have hread : (cellFields ⟨"NULL", true⟩).map readCell = [SheetCell.null] := by decide
      exact hread

def nullToken : TokenCell := ⟨SheetCell.null, by decide, by decide, by decide⟩

def guardedToken : TokenCell := ⟨⟨"__NULL", false⟩, by decide, by decide, by decide⟩

def linesToken : TokenCell := ⟨⟨"a,\n\tb\n", false⟩, by decide, by decide, by decide⟩

/-- A NULL, a text that the writer guards, and one of two lines with a line end behind them. -/
theorem decode_encodeCell_kept :
    decodeCell (DataSheet.encodeCell nullToken.cell .defaultStyle) = [SheetCell.null] ∧
      decodeCell (DataSheet.encodeCell guardedToken.cell .defaultStyle) = [⟨"__NULL", false⟩] ∧
      decodeCell (DataSheet.encodeCell linesToken.cell .defaultStyle) = [⟨"a,\n\tb", false⟩] :=
  ⟨(decode_encodeCell nullToken).trans (by decide),
    (decode_encodeCell guardedToken).trans (by decide),
    (decode_encodeCell linesToken).trans (by decide)⟩

/-- The line end at the end of a text and the empty text of a NULL do not come back. -/
theorem decode_encodeCell_ne :
    decodeCell (DataSheet.encodeCell ⟨"a\n", false⟩ .defaultStyle) ≠ [⟨"a\n", false⟩] ∧
      decodeCell (DataSheet.encodeCell ⟨"", true⟩ .defaultStyle) ≠ [⟨"", true⟩] := by
  rw [decodeCell_eq, decodeCell_eq]
  decide

/-- An underscore alone is not guarded, and is lost. -/
example : decodeCell (DataSheet.encodeCell ⟨"_", false⟩ .defaultStyle) = [⟨"", false⟩] := by
  rw [decodeCell_eq]
  decide

end Coopy
