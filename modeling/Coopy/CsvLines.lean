import Coopy.CsvEncode
import Mathlib.Data.List.DropRight
import Mathlib.Data.List.Infix

/-!
# What the tokeniser makes of an encoded line

Whatever its cells, an encoded line is read to its end and leaves the tokeniser where it was: at the
start of a row.  `lineRows` says which rows come out.  A cell that is torn (a quote right behind a
line end) ends its row and goes on in the next one, and the line ends at the end of a cell are lost
(`pieces`).

    start → encodeCells cs ++ "\r\n" → the rows lineRows cs                            (passes_line)
    pieces [] t = [t] ↔ t is neither torn nor ends with a line end         (pieces_eq_singleton_iff)
-/

namespace Coopy

open Lib Libcsv

open Transducer (Passes)

/-- A field as the tokeniser reports it. -/
abbrev CsvField := List Char × Bool

namespace CsvField

def event (f : CsvField) : Event := .field f.1 f.2

/-- The events of one row. -/
def rowEvents (fields : List CsvField) : List Event := fields.map event ++ [.row]

end CsvField

/-! ## Torn cells -/

/-- A text put in front of the first of some texts. -/
def consHead (front : List Char) : List (List Char) → List (List Char)
  | [] => [front]
  | p :: ps => (front ++ p) :: ps

/-- The texts that a quoted cell is read as; `lineBuf` holds line ends that are kept back. -/
def pieces : List Char → List Char → List (List Char)
  | _, [] => [[]]
  | lineBuf, ch :: rest =>
    if ch == '"' then
      if lineBuf.isEmpty then consHead ['"'] (pieces [] rest) else [] :: pieces [] rest
    else if isTerm ch then pieces (lineBuf ++ [ch]) rest
    else consHead (lineBuf ++ [ch]) (pieces [] rest)

theorem pieces_quote (rest : List Char) :
    pieces [] ('"' :: rest) = consHead ['"'] (pieces [] rest) := rfl

theorem pieces_tear (b : Char) (buf rest : List Char) :
    pieces (b :: buf) ('"' :: rest) = [] :: pieces [] rest := rfl

theorem pieces_term (buf rest : List Char) {ch : Char} (h : isTerm ch = true) :
    pieces buf (ch :: rest) = pieces (buf ++ [ch]) rest := by
  have hq : ch ≠ '"' := by rintro rfl; simp [isTerm] at h
  simp [pieces, h, hq]

theorem pieces_other (buf rest : List Char) {ch : Char} (h : isTerm ch = false) (hq : ch ≠ '"') :
    pieces buf (ch :: rest) = consHead (buf ++ [ch]) (pieces [] rest) := by
  simp [pieces, h, hq]

theorem encodeChars_quote (buf rest : List Char) :
    DataSheet.encodeChars .defaultStyle buf ('"' :: rest) =
    '"' :: (buf ++ '"' :: DataSheet.encodeChars .defaultStyle [] rest) := rfl

theorem encodeChars_term (buf rest : List Char) {ch : Char} (h : isTerm ch = true) :
    DataSheet.encodeChars .defaultStyle buf (ch :: rest) = DataSheet.encodeChars .defaultStyle
      (buf ++ [ch]) rest := by
  have hq : ch ≠ '"' := by rintro rfl; simp [isTerm] at h
  rw [DataSheet.encodeChars]
  simp [h, hq, SheetStyle.defaultStyle]

theorem encodeChars_other (buf rest : List Char) {ch : Char} (h : isTerm ch = false)
    (hq : ch ≠ '"') : DataSheet.encodeChars .defaultStyle buf (ch :: rest) = buf ++ ch ::
    DataSheet.encodeChars .defaultStyle [] rest := by
  rw [DataSheet.encodeChars]
  simp [h, hq]

/-- A quote stands right behind a line end. -/
def torn : List Char → Bool
  | [] => false
  | c :: rest => (isTerm c && rest.head? == some '"') || torn rest

/-- The text ends with a line end. -/
def endsOpen (t : List Char) : Bool := t.getLast?.any isTerm

theorem consHead_eq (front : List Char) (ps : List (List Char)) :
    consHead front ps = (front ++ ps.headD []) :: ps.tail := by
  cases ps <;> simp [consHead]

theorem consHead_ne_nil (front : List Char) (ps : List (List Char)) : consHead front ps ≠ [] := by
  rw [consHead_eq]
  exact List.cons_ne_nil _ _

theorem length_consHead (front : List Char) {ps : List (List Char)} (h : ps ≠ []) :
    (consHead front ps).length = ps.length := by
  cases ps with
  | nil => exact absurd rfl h
  | cons p ps => rfl

theorem consHead_consHead (front front' : List Char) (ps : List (List Char)) :
    consHead front (consHead front' ps) = consHead (front ++ front') ps := by
  simp [consHead_eq, List.append_assoc]

@[simp]
theorem consHead_nil {ps : List (List Char)} (h : ps ≠ []) : consHead [] ps = ps := by
  cases ps with
  | nil => exact absurd rfl h
  | cons p ps => rfl

theorem pieces_ne_nil (buf t : List Char) : pieces buf t ≠ [] := by
  induction t generalizing buf with
  | nil => simp [pieces]
  | cons ch rest ih =>
    unfold pieces
    split
    · split
      · exact consHead_ne_nil _ _
      · exact List.cons_ne_nil _ _
    · split
      · exact ih _
      · exact consHead_ne_nil _ _

/-- A text is in more than one piece when it is torn, or begins with a quote behind kept line
ends. -/
theorem one_lt_length_pieces (buf t : List Char) :
    1 < (pieces buf t).length ↔ torn t = true ∨ (buf ≠ [] ∧ t.head? = some '"') := by
  induction t generalizing buf with
  | nil => simp [pieces, torn]
  | cons ch rest ih =>
    unfold pieces torn
    by_cases hq : ch = '"'
    · subst hq
      cases buf with
      | nil => simp [length_consHead, ih, isTerm, pieces_ne_nil]
      | cons b buf =>
        have := List.length_pos_of_ne_nil (pieces_ne_nil [] rest)
        simp [this]
    · by_cases ht : isTerm ch = true
      · simp [hq, ht, ih, or_comm]
      · simp [length_consHead, hq, ht, ih, pieces_ne_nil]

/-- The text without the line ends at its end, which are kept back and never written. -/
def trimmed (t : List Char) : List Char := t.rdropWhile isTerm

theorem trimmed_append_cons (front rest : List Char) {ch : Char} (h : isTerm ch = false) :
    trimmed (front ++ ch :: rest) = front ++ ch :: trimmed rest := by
  unfold trimmed List.rdropWhile
  rw [List.reverse_append, List.reverse_cons, List.append_assoc, List.dropWhile_append]
  have hch : ([ch] ++ front.reverse).dropWhile isTerm = ch :: front.reverse := by simp [h]
  split
  · next he =>
    rw [hch, List.isEmpty_iff.1 he]
    simp
  · simp

theorem trimmed_eq_self {t : List Char} (h : endsOpen t = false) : trimmed t = t := by
  refine List.rdropWhile_eq_self_iff.2 fun hne => ?_
  rw [endsOpen, List.getLast?_eq_some_getLast hne, Option.any_some] at h
  rw [h]
  exact Bool.false_ne_true

/-- A text that is not torn is in one piece, without the line ends at its end. -/
theorem pieces_eq_trimmed (buf t : List Char) (ht : torn t = false)
    (hb : buf = [] ∨ t.head? ≠ some '"')
    (hbuf : ∀ c ∈ buf, isTerm c = true) : pieces buf t = [trimmed (buf ++ t)] := by
  induction t generalizing buf with
  | nil =>
    have hnil : trimmed buf = [] := List.rdropWhile_eq_nil_iff.2 hbuf
    rw [List.append_nil, hnil]
    rfl
  | cons ch rest ih =>
    simp only [torn, Bool.or_eq_false_iff] at ht
    by_cases hq : ch = '"'
    · subst hq
      have hb' : buf = [] := hb.resolve_right (by simp)
      subst hb'
      rw [pieces_quote, ih [] ht.2 (Or.inl rfl) (by simp)]
      exact congrArg (· :: []) (trimmed_append_cons [] rest rfl).symm
    · cases hterm : isTerm ch with
      | true =>
        have hhead : rest.head? ≠ some '"' := by
          have hnot := ht.1
          simpa [hterm] using hnot
        rw [pieces_term _ _ hterm, ih (buf ++ [ch]) ht.2 (Or.inr hhead) (by
          intro c hc
          rcases List.mem_append.1 hc with hc | hc
          · exact hbuf c hc
          · rw [List.mem_singleton.1 hc]; exact hterm), List.append_assoc, List.singleton_append]
      | false =>
        rw [pieces_other _ _ hterm hq, ih [] ht.2 (Or.inl rfl) (by simp),
          trimmed_append_cons buf rest hterm]
        simp [consHead]

theorem pieces_of_not_torn (buf t : List Char) (ht : torn t = false)
    (hb : buf = [] ∨ t.head? ≠ some '"')
    (he : endsOpen (buf ++ t) = false) (hbuf : ∀ c ∈ buf, isTerm c = true) :
    pieces buf t = [buf ++ t] := by
  rw [pieces_eq_trimmed buf t ht hb hbuf, trimmed_eq_self he]

theorem flatten_consHead {front : List Char} {ps : List (List Char)} (h : ps ≠ []) :
    (consHead front ps).flatten = front ++ ps.flatten := by
  cases ps with
  | nil => exact absurd rfl h
  | cons p ps => simp [consHead]

/-- The pieces hold no more characters than the text. -/
theorem length_flatten_pieces (buf t : List Char) :
    (pieces buf t).flatten.length ≤ buf.length + t.length := by
  induction t generalizing buf with
  | nil => simp [pieces]
  | cons ch rest ih =>
    have hrest := ih []
    have hnext := ih (buf ++ [ch])
    unfold pieces
    split
    · split
      · simp only [flatten_consHead (pieces_ne_nil _ _), List.length_append, List.length_cons,
          List.length_nil] at hrest ⊢
        omega
      · simp only [List.flatten_cons, List.nil_append, List.length_cons, List.length_nil] at hrest ⊢
        omega
    · split
      · simp only [List.length_append, List.length_cons, List.length_nil] at hnext ⊢
        omega
      · simp only [flatten_consHead (pieces_ne_nil _ _), List.length_append, List.length_cons,
          List.length_nil] at hrest ⊢
        omega

/-- No piece ends with a line end. -/
theorem endsOpen_of_mem_pieces {buf t p : List Char} (hp : p ∈ pieces buf t) :
    endsOpen p = false := by
  induction t generalizing buf p with
  | nil =>
    rw [pieces, List.mem_singleton] at hp
    rw [hp]
    rfl
  | cons ch rest ih =>
    have hhead : ∀ front : List Char, isTerm ch = false →
      p ∈ consHead (front ++ [ch]) (pieces [] rest) → endsOpen p = false := by
      intro front hch hp
      rw [consHead_eq, List.mem_cons] at hp
      rcases hp with rfl | hp
      · cases hps : pieces [] rest with
        | nil => exact absurd hps (pieces_ne_nil _ _)
        | cons q qs =>
          have hq : endsOpen q = false := ih (by rw [hps]; exact List.mem_cons_self)
          cases q using List.reverseRecOn with
          | nil => simp [endsOpen, hch]
          | append_singleton q c =>
            unfold endsOpen at hq ⊢
            rw [List.getLast?_concat] at hq
            rw [List.headD_cons, ← List.append_assoc, List.getLast?_concat]
            exact hq
      · exact ih (List.mem_of_mem_tail hp)
    unfold pieces at hp
    split at hp
    · next hq =>
      split at hp
      · exact hhead [] (by rw [beq_iff_eq.1 hq]; rfl) (by simpa [beq_iff_eq.1 hq] using hp)
      · rcases List.mem_cons.1 hp with rfl | hp
        · rfl
        · exact ih hp
    · split at hp
      · exact ih hp
      · next hterm => exact hhead buf (by simpa using hterm) hp

/-- A text that comes back as it is. -/
def clean (t : List Char) : Bool := !torn t && !endsOpen t

theorem pieces_eq_singleton_iff (t : List Char) : pieces [] t = [t] ↔ clean t = true := by
  unfold clean
  rw [Bool.and_eq_true, Bool.not_eq_true', Bool.not_eq_true']
  constructor
  · intro h
    refine ⟨?_, endsOpen_of_mem_pieces (h ▸ List.mem_singleton_self t)⟩
    by_contra ht
    have hlen := (one_lt_length_pieces [] t).2 (Or.inl (by simpa using ht))
    rw [h] at hlen
    simp at hlen
  · rintro ⟨ht, he⟩
    exact pieces_of_not_torn [] t ht (Or.inl rfl) (by simpa using he) (by simp)

/-! ## Reading a cell -/

namespace Libcsv

/-- Between fields. -/
def atField (phase : PState) : Parser := { delim := ',', pstate := phase }

/-- In a field of which `entry` has been read. -/
def inEntry (quoted : Bool) (entry : List Char) : Parser :=
  { delim := ',', pstate := .fieldBegun, quoted := quoted, entry := entry }

/-- Behind the quote that may close a field. -/
def closing (entry : List Char) : Parser :=
  { delim := ',', pstate := .fieldMightHaveEnded, quoted := true, entry := entry ++ ['"'] }

/-- The start of a row, or of a later field. -/
def IsStart (phase : PState) : Prop := phase = .rowNotBegun ∨ phase = .fieldNotBegun

theorem drop_closing (entry : List Char) : drop (entry ++ ['"']) 1 = entry := by
  simp [drop]

theorem step_closing_delim (entry : List Char) :
    step (closing entry) ',' = ([.field entry true], atField .fieldNotBegun) := by
  simp [step, closing, Parser.afterQuote, Parser.unquote, Parser.submitField, Parser.fieldText,
    drop_closing, atField]

theorem step_closing_term (entry : List Char) {c : Char} (hc : isTerm c = true) :
    step (closing entry) c = ([.field entry true, .row], atField .rowNotBegun) := by
  have hd : c ≠ ',' := by rintro rfl; simp [isTerm] at hc
  simp [step, closing, Parser.afterQuote, Parser.unquote, Parser.submitLast, Parser.submitField,
    Parser.submitRow, Parser.fieldText, drop_closing, atField, hc, hd]

theorem step_closing_quote (entry : List Char) :
    step (closing entry) '"' = ([], inEntry true (entry ++ ['"'])) := by
  simp [step, closing, Parser.afterQuote, isTerm, isSpace, inEntry]

theorem step_quote (entry : List Char) : step (inEntry true entry) '"' = ([], closing entry) := by
  simp [step, inEntry, Parser.inField, Parser.submitChar, closing]

/-- Between quotes, all but a quote belongs to the field. -/
theorem step_quoted (entry : List Char) {c : Char} (hc : c ≠ '"') :
    step (inEntry true entry) c = ([], inEntry true (entry ++ [c])) := by
  by_cases hd : c = ','
  · simp [step, inEntry, Parser.inField, Parser.submitChar, hd]
  · by_cases ht :
      isTerm c = true <;> simp [step, inEntry, Parser.inField, Parser.submitChar, hc, hd, ht]

theorem passes_quoted (entry t : List Char) (ht : '"' ∉ t) :
    Passes step (inEntry true entry) t [] (inEntry true (entry ++ t)) := by
  induction t generalizing entry with
  | nil => simpa using Passes.nil (m := step) (inEntry true entry)
  | cons c t ih =>
    have hc : c ≠ '"' := fun h => ht (h ▸ List.mem_cons_self)
    refine Passes.quiet (step_quoted entry hc) ?_
    simpa using ih (entry ++ [c]) fun h => ht (List.mem_cons_of_mem _ h)

theorem step_open {phase : PState} (h : IsStart phase) :
    step (atField phase) '"' = ([], inEntry true []) := by
  rcases h with rfl | rfl <;> rfl

/-- A character that needs no quotes. -/
def plain (c : Char) : Bool := !SheetStyle.defaultStyle.needsQuote c

theorem plain_iff (c : Char) : plain c = true ↔
    c ≠ '"' ∧ c ≠ '\'' ∧ c ≠ ',' ∧ c ≠ '\r' ∧ c ≠ '\n' ∧ c ≠ '\t' ∧ c ≠ ' ' := by
  simp [plain, SheetStyle.needsQuote, SheetStyle.delimChar, SheetStyle.defaultStyle, and_assoc]

theorem step_plain (entry : List Char) {c : Char} (hc : plain c = true) :
    step (inEntry false entry) c = ([], inEntry false (entry ++ [c])) := by
  rw [plain_iff] at hc
  simp [step, inEntry, Parser.inField, Parser.submitChar, isTerm, isSpace, hc]

theorem step_plain_start {phase : PState} (h : IsStart phase) {c : Char} (hc : plain c = true) :
    step (atField phase) c = ([], inEntry false [c]) := by
  rw [plain_iff] at hc
  rcases h with rfl | rfl <;>
    simp [step, atField, inEntry, Parser.atStart, Parser.submitChar, isTerm, isSpace, hc]

theorem passes_plain (entry t : List Char) (ht : ∀ c ∈ t, plain c = true) :
    Passes step (inEntry false entry) t [] (inEntry false (entry ++ t)) := by
  induction t generalizing entry with
  | nil => simpa using Passes.nil (m := step) (inEntry false entry)
  | cons c t ih =>
    refine Passes.quiet (step_plain entry (ht c List.mem_cons_self)) ?_
    simpa using ih (entry ++ [c]) fun c hc => ht c (List.mem_cons_of_mem _ hc)

theorem passes_plain_start {phase : PState} (h : IsStart phase) {t : List Char} (hne : t ≠ [])
    (ht : ∀ c ∈ t, plain c = true) : Passes step (atField phase) t [] (inEntry false t) := by
  obtain ⟨c, t, rfl⟩ := List.exists_cons_of_ne_nil hne
  exact Passes.quiet (step_plain_start h (ht c List.mem_cons_self))
    (by simpa using passes_plain [c] t fun c hc => ht c (List.mem_cons_of_mem _ hc))

theorem step_plain_delim (entry : List Char) :
    step (inEntry false entry) ',' = ([.field entry false], atField .fieldNotBegun) := by
  simp [step, inEntry, Parser.inField, Parser.submitField, Parser.fieldText, drop, atField]

theorem step_plain_term (entry : List Char) {c : Char} (hc : isTerm c = true) :
    step (inEntry false entry) c = ([.field entry false, .row], atField .rowNotBegun) := by
  have hq : c ≠ '"' := by rintro rfl; simp [isTerm] at hc
  have hd : c ≠ ',' := by rintro rfl; simp [isTerm] at hc
  simp [step, inEntry, Parser.inField, Parser.submitLast, Parser.submitField, Parser.submitRow,
    Parser.fieldText, drop, atField, hc, hq, hd]

theorem step_empty_delim {phase : PState} (h : IsStart phase) :
    step (atField phase) ',' = ([.field [] false], atField .fieldNotBegun) := by
  rcases h with rfl | rfl <;> rfl

theorem step_empty_term {c : Char} (hc : isTerm c = true) :
    step (atField .fieldNotBegun) c = ([.field [] false, .row], atField .rowNotBegun) := by
  have hs : isSpace c = false := by
    simp only [isTerm, Bool.or_eq_true, beq_iff_eq] at hc
    rcases hc with rfl | rfl <;> rfl
  simp [step, atField, Parser.atStart, Parser.submitLast, Parser.submitField, Parser.submitRow,
    Parser.fieldText, drop, hc, hs]

/-- Line ends between rows go unnoticed. -/
theorem step_blank {c : Char} (hc : isTerm c = true) :
    step (atField .rowNotBegun) c = ([], atField .rowNotBegun) := by
  have hs : isSpace c = false := by
    simp only [isTerm, Bool.or_eq_true, beq_iff_eq] at hc
    rcases hc with rfl | rfl <;> rfl
  simp [step, atField, Parser.atStart, hc, hs]

theorem passes_blank (t : List Char) (ht : ∀ c ∈ t, isTerm c = true) :
    Passes step (atField .rowNotBegun) t [] (atField .rowNotBegun) := by
  induction t with
  | nil => exact Passes.nil _
  | cons c t ih =>
    exact Passes.quiet (step_blank (ht c List.mem_cons_self))
      (ih fun c hc => ht c (List.mem_cons_of_mem _ hc))

end Libcsv

/-! ## The rows of a line -/

/-- The fields a cell is read as: all but the last end their rows. -/
def cellFields (c : SheetCell) : List CsvField :=
  let str := c.text.toList
  if str.isEmpty && c.escaped then [(SheetStyle.defaultStyle.nullToken, false)]
  else if str.any SheetStyle.defaultStyle.needsQuote then
    (pieces [] (DataSheet.collisionText .defaultStyle c)).map (·, true)
  else [(DataSheet.collisionText .defaultStyle c, false)]

/-- The events of the fields that end their rows. -/
def tears (fs : List CsvField) : List Event := fs.dropLast.flatMap fun f => CsvField.rowEvents [f]

def lastField (fs : List CsvField) : CsvField := fs.getLastD ([], false)

/-- A cell in front of the rows of the rest of its line. -/
def glue (fs : List CsvField) (rows : List (List CsvField)) : List (List CsvField) :=
  fs.dropLast.map (fun f => [f]) ++ (lastField fs :: rows.headD []) :: rows.tail

/-- The rows that a line is read as. -/
def lineRows : List SheetCell → List (List CsvField)
  | [] => [[]]
  | c :: cs => glue (cellFields c) (lineRows cs)

theorem cellFields_ne_nil (c : SheetCell) : cellFields c ≠ [] := by
  unfold cellFields
  simp only
  split
  · simp
  · split
    · simp [pieces_ne_nil]
    · simp

theorem glue_ne_nil (fs : List CsvField) (rows : List (List CsvField)) : glue fs rows ≠ [] := by
  simp [glue]

theorem lineRows_ne_nil (cs : List SheetCell) : lineRows cs ≠ [] := by
  cases cs with
  | nil => simp [lineRows]
  | cons c cs => exact glue_ne_nil _ _

theorem events_glue (fs : List CsvField) {rows : List (List CsvField)} (h : rows ≠ []) :
    (glue fs rows).flatMap CsvField.rowEvents =
      tears fs ++ (lastField fs).event :: rows.flatMap CsvField.rowEvents := by
  obtain ⟨r, rows, rfl⟩ := List.exists_cons_of_ne_nil h
  simp [glue, tears, CsvField.rowEvents, -List.map_dropLast, List.flatMap_map]

theorem tears_cons (f : CsvField) {fs : List CsvField} (h : fs ≠ []) :
    tears (f :: fs) = CsvField.rowEvents [f] ++ tears fs := by
  obtain ⟨g, fs, rfl⟩ := List.exists_cons_of_ne_nil h
  rfl

theorem lastField_cons (f : CsvField) {fs : List CsvField} (h : fs ≠ []) :
    lastField (f :: fs) = lastField fs := by
  obtain ⟨g, fs, rfl⟩ := List.exists_cons_of_ne_nil h
  simp [lastField]

namespace Libcsv

/-- Where a cell leaves the tokeniser: its last field is not closed yet. -/
def pending (phase : PState) (f : CsvField) : Parser :=
  if f.2 then closing f.1 else if f.1 = [] then atField phase else inEntry false f.1

theorem step_pending_delim {phase : PState} (h : IsStart phase) (f : CsvField) :
    step (pending phase f) ',' = ([f.event], atField .fieldNotBegun) := by
  obtain ⟨t, q⟩ := f
  cases q with
  | true => exact step_closing_delim t
  | false =>
    by_cases ht : t = []
    · subst ht
      exact step_empty_delim h
    · rw [show pending phase (t, false) = inEntry false t by simp [pending, ht]]
      exact step_plain_delim t

theorem step_pending_term {phase : PState} (f : CsvField) (hf : phase = .fieldNotBegun ∨
    f ≠ ([], false))
    {c : Char} (hc : isTerm c = true) :
    step (pending phase f) c = (CsvField.rowEvents [f], atField .rowNotBegun) := by
  obtain ⟨t, q⟩ := f
  cases q with
  | true => exact step_closing_term t hc
  | false =>
    by_cases ht : t = []
    · subst ht
      have hp : phase = .fieldNotBegun := hf.resolve_right (by simp)
      subst hp
      exact step_empty_term hc
    · rw [show pending phase (t, false) = inEntry false t by simp [pending, ht]]
      exact step_plain_term t hc

/-- The characters between the quotes of a cell, and the closing quote. -/
theorem passes_body (t : List Char) (buf entry : List Char) (hbuf : ∀ c ∈ buf, isTerm c = true) :
    Passes step (inEntry true entry) (DataSheet.encodeChars .defaultStyle buf t ++ ['"'])
      (tears ((consHead entry (pieces buf t)).map (·, true)))
      (closing (lastField ((consHead entry (pieces buf t)).map (·, true))).1) := by
  induction t generalizing buf entry with
  | nil =>
    rw [show (consHead entry (pieces buf [])).map (·, true) =
      [(entry, true)] by simp [pieces, consHead]]
    exact Passes.quiet (step_quote entry) (Passes.nil _)
  | cons ch rest ih =>
    by_cases hq : ch = '"'
    · subst hq
      rw [encodeChars_quote]
      cases buf with
      | nil =>
        rw [pieces_quote, consHead_consHead]
        exact Passes.quiet (step_quote entry)
          (Passes.quiet (step_closing_quote entry) (ih [] (entry ++ ['"']) (by simp)))
      | cons b buf =>
        have hne : (pieces [] rest).map (·, true) ≠ ([] : List CsvField) := by simp [pieces_ne_nil]
        have hopen : Passes step (inEntry true entry) ('"' :: b :: (buf ++ ['"']))
            (CsvField.rowEvents [(entry, true)]) (inEntry true []) := by
          have hblank := passes_blank buf fun c hc => hbuf c (List.mem_cons_of_mem _ hc)
          have hclose := Passes.cons (step_closing_term entry (hbuf b List.mem_cons_self))
            (hblank.append (Passes.quiet (step_open (Or.inl rfl)) (Passes.nil _)))
          simpa [CsvField.rowEvents, CsvField.event] using Passes.quiet (step_quote entry) hclose
        have hrest := ih [] [] (by simp)
        rw [consHead_nil (pieces_ne_nil _ _)] at hrest
        rw [pieces_tear, consHead, List.append_nil, List.map_cons, tears_cons _ hne,
          lastField_cons _ hne]
        simpa using hopen.append hrest
    · by_cases hterm : isTerm ch = true
      · rw [encodeChars_term _ _ hterm, pieces_term _ _ hterm]
        refine ih (buf ++ [ch]) entry fun c hc => ?_
        rcases List.mem_append.1 hc with hc | hc
        · exact hbuf c hc
        · rw [List.mem_singleton.1 hc]
          exact hterm
      · have hbody : '"' ∉ buf ++ [ch] := by
          intro hm
          rcases List.mem_append.1 hm with hm | hm
          · exact absurd (hbuf _ hm) (by decide)
          · exact hq (List.mem_singleton.1 hm).symm
        rw [encodeChars_other _ _ (by simpa using hterm) hq,
          pieces_other _ _ (by simpa using hterm) hq, consHead_consHead]
        simpa using (passes_quoted entry (buf ++ [ch]) hbody).append
          (ih [] (entry ++ (buf ++ [ch])) (by simp))

theorem encodeChars_plain {t : List Char} (ht : ∀ c ∈ t, plain c = true) :
    DataSheet.encodeChars .defaultStyle [] t = t := by
  induction t with
  | nil => rfl
  | cons c t ih =>
    have hc := (plain_iff c).1 (ht c List.mem_cons_self)
    rw [encodeChars_other [] t (by simp [isTerm, hc]) hc.1, ih fun c hc =>
      ht c (List.mem_cons_of_mem _ hc)]
    rfl

theorem plain_collisionText {c : SheetCell}
    (h : c.text.toList.any SheetStyle.defaultStyle.needsQuote = false) :
    ∀ a ∈ DataSheet.collisionText .defaultStyle c, plain a = true := by
  have hstr : ∀ a ∈ c.text.toList, plain a = true := by
    intro a ha
    rw [List.any_eq_false] at h
    simpa [plain] using h a ha
  unfold DataSheet.collisionText
  simp only
  split
  · intro a ha
    rcases List.mem_cons.1 ha with rfl | ha
    · decide
    · exact hstr a ha
  · exact hstr

/-- A cell is written as it is, or between quotes. -/
theorem encodeCell_cases (c : SheetCell) :
    (cellFields c = [(DataSheet.encodeCell c .defaultStyle, false)] ∧
      ∀ a ∈ DataSheet.encodeCell c .defaultStyle, plain a = true) ∨
    (DataSheet.encodeCell c .defaultStyle = '"' ::
      (DataSheet.encodeChars .defaultStyle [] (DataSheet.collisionText .defaultStyle c) ++ ['"']) ∧
      cellFields c = (pieces [] (DataSheet.collisionText .defaultStyle c)).map (·, true)) := by
  unfold DataSheet.encodeCell cellFields
  have hhave : SheetStyle.defaultStyle.haveNull = true := rfl
  simp only [hhave, Bool.and_true]
  by_cases hnull : (c.text.toList.isEmpty && c.escaped) = true
  · rw [if_pos hnull, if_pos hnull]
    exact Or.inl ⟨rfl, List.all_eq_true.1 rfl⟩
  · rw [if_neg hnull, if_neg hnull]
    by_cases hq : c.text.toList.any SheetStyle.defaultStyle.needsQuote = true
    · rw [if_pos hq, if_pos hq]
      exact Or.inr ⟨rfl, rfl⟩
    · have ht := plain_collisionText (by simpa using hq)
      rw [if_neg hq, if_neg hq, encodeChars_plain ht, List.nil_append, List.append_nil]
      exact Or.inl ⟨rfl, ht⟩

theorem lastField_quoted {ps : List (List Char)} (h : ps ≠ []) :
    (lastField (ps.map (·, true))).2 = true := by
  rw [lastField, List.getLastD_eq_getLast?, List.getLast?_map]
  cases hl : ps.getLast? with
  | none => exact absurd (List.getLast?_eq_none_iff.1 hl) h
  | some l => rfl

/-- **A cell**: every torn piece ends its row, and the last one is left open. -/
theorem passes_cell {phase : PState} (h : IsStart phase) (c : SheetCell) :
    Passes step (atField phase) (DataSheet.encodeCell c .defaultStyle) (tears (cellFields c))
    (pending phase (lastField (cellFields c))) := by
  rcases encodeCell_cases c with ⟨hf, ht⟩ | ⟨he, hf⟩
  · rw [hf]
    by_cases hne : DataSheet.encodeCell c .defaultStyle = []
    · rw [hne]
      exact Passes.nil _
    · have hp :
        pending phase (DataSheet.encodeCell c .defaultStyle, false) =
        inEntry false (DataSheet.encodeCell c .defaultStyle) := by
        rw [pending, if_neg (by simp), if_neg hne]
      exact hp ▸ passes_plain_start h hne ht
  · have hbody := passes_body (DataSheet.collisionText .defaultStyle c) [] [] (by simp)
    rw [consHead_nil (pieces_ne_nil _ _)] at hbody
    rw [he, hf, pending, if_pos (lastField_quoted (pieces_ne_nil _ _))]
    exact Passes.quiet (step_open h) hbody

/-- An empty cell is written as nothing. -/
theorem encodeCell_eq_nil_iff (c : SheetCell) : DataSheet.encodeCell c .defaultStyle = [] ↔
    lastField (cellFields c) = ([], false) := by
  rcases encodeCell_cases c with ⟨hf, -⟩ | ⟨he, hf⟩
  · simp [hf, lastField]
  · rw [he, hf]
    simp only [reduceCtorEq, false_iff]
    intro hl
    have := lastField_quoted (pieces_ne_nil [] (DataSheet.collisionText .defaultStyle c))
    rw [hl] at this
    cases this

/-- **A line** is read as its rows. -/
theorem passes_line {phase : PState} (h : IsStart phase) {cs : List SheetCell} (hcs : cs ≠ [])
    (hline : phase = .fieldNotBegun ∨ DataSheet.encodeCells .defaultStyle cs ≠ []) :
    Passes step (atField phase) (DataSheet.encodeCells .defaultStyle cs ++ ['\r', '\n'])
      ((lineRows cs).flatMap CsvField.rowEvents) (atField .rowNotBegun) := by
  induction cs generalizing phase with
  | nil => exact absurd rfl hcs
  | cons c cs ih =>
    rw [lineRows, events_glue _ (lineRows_ne_nil cs)]
    cases cs with
    | nil =>
      have hlast : phase = .fieldNotBegun ∨ lastField (cellFields c) ≠ ([], false) := by
        rw [DataSheet.encodeCells] at hline
        exact hline.imp_right fun hne he => hne ((encodeCell_eq_nil_iff c).2 he)
      have hend := Passes.cons (step_pending_term _ hlast (c := '\r') rfl)
        (Passes.quiet (step_blank (c := '\n') rfl) (Passes.nil _))
      simpa [DataSheet.encodeCells, lineRows, CsvField.rowEvents] using (passes_cell h c).append
        hend
    | cons c' cs =>
      have hrest := @ih .fieldNotBegun (Or.inr rfl) (by simp) (Or.inl rfl)
      have hcell := (passes_cell h c).append (Passes.cons (step_pending_delim h _) hrest)
      rw [DataSheet.encodeCells_cons _ _ (by simp),
        show SheetStyle.defaultStyle.delim = [','] from rfl]
      simpa using hcell

/-! ## The rows of a sheet -/

/-- The rows that some lines are read as; a line without any text is not read at all. -/
def sheetRows (rows : List (List SheetCell)) : List (List CsvField) :=
  rows.flatMap fun row => if DataSheet.encodeCells .defaultStyle row = [] then [] else lineRows row

theorem passes_rows (hh : Option Int) (y : Nat) (rows : List (List SheetCell))
    (hrows : ∀ row ∈ rows, row ≠ []) :
    Passes step (atField .rowNotBegun) (DataSheet.encodeRows .defaultStyle hh y rows)
      ((sheetRows rows).flatMap CsvField.rowEvents) (atField .rowNotBegun) := by
  induction rows generalizing y with
  | nil => exact Passes.nil _
  | cons row rows ih =>
    have hrest := ih (y + 1) fun r hr => hrows r (List.mem_cons_of_mem _ hr)
    have hmark : ∀ len, DataSheet.headerMark .defaultStyle hh y len = [] := fun len => rfl
    have heol :
      (if SheetStyle.defaultStyle.eolAtEof || !rows.isEmpty then SheetStyle.defaultStyle.eol
        else []) = ['\r', '\n'] := rfl
    unfold DataSheet.encodeRows sheetRows
    simp only [hmark, heol, List.append_nil, List.flatMap_cons]
    rw [List.flatMap_append]
    refine Passes.append ?_ hrest
    by_cases hline : DataSheet.encodeCells .defaultStyle row = []
    · rw [if_pos hline, hline]
      exact passes_blank _ (List.all_eq_true.1 rfl)
    · rw [if_neg hline]
      exact passes_line (Or.inl rfl) (hrows row List.mem_cons_self) (Or.inr hline)

end Libcsv

end Coopy
