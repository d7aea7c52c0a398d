import Coopy.Lib.Transducer

/-!
# Ruby's CSV

`to_csv` writes a line, `CSV.read` reads a text.  What ends a row is the first line end of the text,
wherever it stands; any other line end outside quotes is an error.  A field that is `nil` is written
as nothing, and an empty text between quotes.

    read of written lines, the first of them not blank = the lines ↔ the first line end is `\n`
                                                                                        (read_toCsv)
-/

namespace Coopy

open Lib Transducer

namespace Ruby

namespace CSV

/-- A field is a text or `nil`. -/
abbrev Line := List (Option String)

def isBreak (c : Char) : Bool := c == '\r' || c == '\n'

def quotable (c : Char) : Bool := isBreak c || c == ',' || c == '"'

def doubled (s : List Char) : List Char := s.flatMap fun c => if c == '"' then [c, c] else [c]

def needsQuotes (s : List Char) : Bool := s.isEmpty || s.any quotable

def quoteField : Option String → List Char
  | none => []
  | some s => if needsQuotes s.toList then '"' :: doubled s.toList ++ ['"'] else s.toList

/-- `to_csv`. -/
def toCsv (line : Line) : List Char := List.intercalate [','] (line.map quoteField) ++ ['\n']

/-! ## Reading -/

inductive RowSep
  | lf
  | cr
  | crlf
deriving DecidableEq, Repr

/-- `:auto`. -/
def rowSep (text : List Char) : RowSep :=
  match text.dropWhile fun c => !isBreak c with
  | '\r' :: '\n' :: _ => .crlf
  | '\r' :: _ => .cr
  | _ => .lf

inductive Phase
  | fieldStart
  | unquoted (s : List Char)
  | quoted (s : List Char)
  | closed (s : List Char)
  -- between the two characters of a row end
  | rowEnd
  | failed
deriving DecidableEq, Repr

structure State where
  line : Line := []
  phase : Phase := .fieldStart
deriving DecidableEq, Repr

namespace State

/-- The line with the field that ends here. -/
def withField (st : State) : Line :=
  match st.phase with
  | .fieldStart => st.line ++ [none]
  | .unquoted s => st.line ++ [some (String.ofList s)]
  | .closed s => st.line ++ [some (String.ofList s)]
  | _ => st.line

/-- The line that ends here; a blank one has no fields. -/
def wholeLine (st : State) : Line := if st.line = [] ∧ st.phase = .fieldStart then []
    else st.withField

def fail (st : State) : List Line × State := ([], { st with phase := .failed })

def atLineEnd (sep : RowSep) (st : State) (c : Char) : List Line × State :=
  match sep with
  | .lf => if c == '\n' then ([st.wholeLine], {}) else st.fail
  | .cr => if c == '\r' then ([st.wholeLine], {}) else st.fail
  | .crlf => if c == '\r' then ([], ⟨st.wholeLine, .rowEnd⟩) else st.fail

def outsideQuotes (sep : RowSep) (st : State) (c : Char) : List Line × State :=
  if c == ',' then ([], ⟨st.withField, .fieldStart⟩)
  else if isBreak c then st.atLineEnd sep c
  else if c == '"' then
    match st.phase with
    | .fieldStart => ([], { st with phase := .quoted [] })
    | .closed s => ([], { st with phase := .quoted (s ++ ['"']) })
    | _ => st.fail
  else
    match st.phase with
    | .fieldStart => ([], { st with phase := .unquoted [c] })
    | .unquoted s => ([], { st with phase := .unquoted (s ++ [c]) })
    | _ => st.fail

end State

def step (sep : RowSep) : Transducer State Char Line := fun st c =>
  match st.phase with
  | .failed => ([], st)
  | .rowEnd => if c == '\n' then ([st.line], {}) else st.fail
  | .quoted s =>
    if c == '"' then ([], { st with phase := .closed s })
      else ([], { st with phase := .quoted (s ++ [c]) })
  | _ => st.outsideQuotes sep c

/-- The end of the text. -/
def finish (rows : List Line) (st : State) : Option (List Line) :=
  match st.phase with
  | .failed => none
  | .rowEnd => none
  | .quoted _ => none
  | _ => if st.wholeLine = [] then some rows else some (rows ++ [st.wholeLine])

/-- `CSV.read`; `none` is `MalformedCSVError`. -/
def read (text : List Char) : Option (List Line) :=
  let (rows, st) := run (step (rowSep text)) text {}
  finish rows st

/-! ## What is read of what was written -/

/-- The phase behind a field. -/
def after : Option String → Phase
  | none => .fieldStart
  | some s => if needsQuotes s.toList then .closed s.toList else .unquoted s.toList

/-- Behind a text the phase is one of two. -/
theorem after_some (s : String) : after (some s) = .closed s.toList ∨
    after (some s) = .unquoted s.toList := by
  rw [after]
  split
  · exact Or.inl rfl
  · exact Or.inr rfl

theorem withField_after (line : Line) (f : Option String) :
    State.withField ⟨line, after f⟩ = line ++ [f] := by
  cases f with
  | none => rfl
  | some s =>
    rcases after_some s with h | h <;> rw [h] <;>
      exact congrArg (fun t => line ++ [some t]) String.ofList_toList

variable {sep : RowSep}

theorem passes_quoted (line : Line) (s acc : List Char) :
    Passes (step sep) ⟨line, .quoted acc⟩ (doubled s) [] ⟨line, .quoted (acc ++ s)⟩ := by
  induction s generalizing acc with
  | nil =>
    rw [List.append_nil]
    exact Passes.nil _
  | cons c s ih =>
    have hrest := ih (acc ++ [c])
    rw [List.append_assoc] at hrest
    rw [doubled, List.flatMap_cons, ← doubled]
    by_cases hc : c = '"'
    · subst hc
      exact Passes.quiet (a := '"') rfl (Passes.quiet (a := '"') rfl hrest)
    · have hc' : (c == '"') = false := beq_eq_false_iff_ne.2 hc
      rw [hc']
      refine Passes.quiet (a := c) ?_ hrest
      show (if c == '"' then _ else _) = _
      rw [hc']
      rfl

theorem step_unquoted (line : Line) {c : Char} (hc : quotable c = false) (s : List Char) :
    step sep ⟨line, .unquoted s⟩ c = ([], ⟨line, .unquoted (s ++ [c])⟩) ∧
      step sep ⟨line, .fieldStart⟩ c = ([], ⟨line, .unquoted [c]⟩) := by
  simp only [quotable, Bool.or_eq_false_iff] at hc
  obtain ⟨⟨hbreak, hcomma⟩, hquote⟩ := hc
  simp [step, State.outsideQuotes, hbreak, hcomma, hquote]

theorem passes_unquoted (line : Line) {s : List Char} (hs : s.any quotable = false)
    (acc : List Char) :
    Passes (step sep) ⟨line, .unquoted acc⟩ s [] ⟨line, .unquoted (acc ++ s)⟩ := by
  induction s generalizing acc with
  | nil =>
    rw [List.append_nil]
    exact Passes.nil _
  | cons c s ih =>
    rw [List.any_cons, Bool.or_eq_false_iff] at hs
    have hrest := ih hs.2 (acc ++ [c])
    rw [List.append_assoc] at hrest
    exact Passes.quiet (step_unquoted line hs.1 acc).1 hrest

/-- **A field.** -/
theorem passes_field (line : Line) (f : Option String) :
    Passes (step sep) ⟨line, .fieldStart⟩ (quoteField f) [] ⟨line, after f⟩ := by
  cases f with
  | none => exact Passes.nil _
  | some s =>
    rw [quoteField, after]
    by_cases hq : needsQuotes s.toList = true
    · rw [if_pos hq, if_pos hq]
      have hbody := @passes_quoted sep line s.toList []
      rw [List.nil_append] at hbody
      exact Passes.quiet (a := '"') rfl (hbody.snoc (a := '"') rfl)
    · rw [if_neg hq, if_neg hq]
      rw [needsQuotes, Bool.or_eq_true, not_or, Bool.not_eq_true, Bool.not_eq_true] at hq
      obtain ⟨hne, hany⟩ := hq
      cases hs : s.toList with
      | nil =>
        rw [hs] at hne
        cases hne
      | cons c cs =>
        rw [hs, List.any_cons, Bool.or_eq_false_iff] at hany
        exact Passes.quiet (step_unquoted line hany.1 []).2 (passes_unquoted line hany.2 [c])

theorem step_comma (line : Line) (f : Option String) :
    step sep ⟨line, after f⟩ ',' = ([], ⟨line ++ [f], .fieldStart⟩) := by
  have hfield := withField_after line f
  cases f with
  | none => rfl
  | some s =>
    rcases after_some s with h | h <;> rw [h] at hfield ⊢ <;>
      exact congrArg (fun l : Line => (([] : List Line), State.mk l .fieldStart)) hfield

/-- **The fields of a line**: the last of them is still open. -/
theorem passes_fields (line : Line) {fs : Line} (f : Option String) (h : fs.getLast? = some f) :
    Passes (step sep) ⟨line, .fieldStart⟩ (List.intercalate [','] (fs.map quoteField)) []
    ⟨line ++ fs.dropLast, after f⟩ := by
  induction fs generalizing line with
  | nil => cases h
  | cons g gs ih =>
    cases gs with
    | nil =>
      obtain rfl : g = f := by simpa using h
      have := @passes_field sep line g
      simpa [List.intercalate] using this
    | cons g' gs =>
      have hrest := ih (line ++ [g]) (by simpa using h)
      have hfield := (@passes_field sep line g).append (Passes.quiet (step_comma line g) hrest)
      rw [List.map_cons, List.map_cons, List.intercalate_cons_cons, ← List.map_cons]
      simpa using hfield

theorem atLineEnd_after (line : Line) (f : Option String) (c : Char) (hc : isBreak c = true) :
    step sep ⟨line, after f⟩ c = State.atLineEnd sep ⟨line, after f⟩ c := by
  have hcomma : (c == ',') = false := by
    rw [beq_eq_false_iff_ne]
    rintro rfl
    cases hc
  have hout :
    State.outsideQuotes sep ⟨line, after f⟩ c = State.atLineEnd sep ⟨line, after f⟩ c := by
    rw [State.outsideQuotes, hcomma, if_neg Bool.false_ne_true, if_pos hc]
  cases f with
  | none => exact hout
  | some s =>
    rcases after_some s with h | h <;> rw [h] at hout ⊢ <;> exact hout

/-- What a line is that is not one `nil`. -/
theorem wholeLine_after {fs : Line} {f : Option String} (h : fs.getLast? = some f)
    (hne : fs ≠ [none]) : State.wholeLine ⟨fs.dropLast, after f⟩ = fs := by
  have hfs : fs.dropLast ++ [f] = fs := by
    obtain ⟨init, rfl⟩ := List.getLast?_eq_some_iff.1 h
    simp
  rw [State.wholeLine, if_neg, withField_after, hfs]
  rintro ⟨hnil, hstart⟩
  cases f with
  | none =>
    have hnil : fs.dropLast = [] := hnil
    rw [hnil] at hfs
    exact hne hfs.symm
  | some s =>
    have hstart : after (some s) = .fieldStart := hstart
    rcases after_some s with h | h <;> rw [h] at hstart <;> cases hstart

/-- **A line**, where rows end with `\n`. -/
theorem passes_toCsv {fs : Line} (hne : fs ≠ [none]) : Passes (step .lf) {} (toCsv fs) [fs] {} := by
  cases h : fs.getLast? with
  | none =>
    rw [List.getLast?_eq_none_iff.1 h]
    rfl
  | some f =>
    have hfields := @passes_fields .lf [] fs f h
    have hend := @atLineEnd_after .lf fs.dropLast f '\n' rfl
    rw [State.atLineEnd, wholeLine_after h hne] at hend
    exact hfields.snoc hend

theorem passes_lines {lines : List Line} (h : ∀ fs ∈ lines, fs ≠ [none]) :
    Passes (step .lf) {} (lines.flatMap toCsv) lines {} := by
  induction lines with
  | nil => exact Passes.nil _
  | cons fs lines ih =>
    exact (passes_toCsv (h fs List.mem_cons_self)).append
      (ih fun gs hgs => h gs (List.mem_cons_of_mem _ hgs))

theorem step_failed {st : State} (h : st.phase = .failed) (text : List Char) :
    Passes (step sep) st text [] st := by
  induction text with
  | nil => exact Passes.nil _
  | cons c text ih =>
    refine Passes.quiet ?_ ih
    rw [step, h]

/-- Where rows end otherwise, the first line fails. -/
theorem fails_toCsv (hsep : sep ≠ .lf) {fs : Line} (hne : fs ≠ []) (text : List Char) :
    ∃ st, st.phase = .failed ∧ Passes (step sep) {} (toCsv fs ++ text) [] st := by
  obtain ⟨f, h⟩ := Option.ne_none_iff_exists'.1 (mt List.getLast?_eq_none_iff.1 hne)
  have hfields := @passes_fields sep [] fs f h
  have hend := @atLineEnd_after sep fs.dropLast f '\n' rfl
  have hfail :
    State.atLineEnd sep ⟨fs.dropLast, after f⟩ '\n' = State.fail ⟨fs.dropLast, after f⟩ := by
    cases sep with
    | lf => exact absurd rfl hsep
    | cr => rfl
    | crlf => rfl
  rw [hfail] at hend
  exact ⟨_, rfl, (hfields.snoc hend).append (step_failed rfl text)⟩

/-! ## The row end that is found -/

theorem rowSep_eq_lf (text : List Char) : rowSep text = .lf ↔ text.find? isBreak ≠ some '\r' := by
  have hfind : text.find? isBreak = (text.dropWhile fun c => !isBreak c).head? := by
    induction text with
    | nil => rfl
    | cons c text ih =>
      rw [List.find?_cons, List.dropWhile_cons]
      cases isBreak c with
      | true => rfl
      | false => exact ih
  rw [hfind, rowSep]
  split
  · next h => simp [h]
  · next h => simp [h]
  · next h1 h2 =>
    simp only [true_iff]
    intro he
    obtain ⟨rest, hrest⟩ := List.head?_eq_some_iff.1 he
    exact h2 rest hrest

theorem find?_quoteField (f : Option String) :
    (quoteField f).find? isBreak = (f.getD "").toList.find? isBreak := by
  cases f with
  | none => rfl
  | some s =>
    have hdoubled : (doubled s.toList).find? isBreak = s.toList.find? isBreak := by
      induction s.toList with
      | nil => rfl
      | cons c cs ih =>
        rw [doubled, List.flatMap_cons, ← doubled, List.find?_append, ih, List.find?_cons]
        by_cases hc : c = '"'
        · subst hc
          rfl
        · rw [beq_eq_false_iff_ne.2 hc]
          cases hb : isBreak c <;> simp [hb]
    rw [quoteField]
    split
    · rw [List.cons_append, List.find?_cons, List.find?_append, hdoubled]
      exact Option.or_none
    · rfl

/-- The first line end of a written line. -/
theorem find?_toCsv (fs : Line) (text : List Char) :
    (toCsv fs ++ text).find? isBreak = ((fs.flatMap fun f => (f.getD "").toList).find? isBreak).or
      (some '\n') := by
  have hfields : (List.intercalate [','] (fs.map quoteField)).find? isBreak =
      (fs.flatMap fun f => (f.getD "").toList).find? isBreak := by
    induction fs with
    | nil => rfl
    | cons f fs ih =>
      cases fs with
      | nil => simp [List.intercalate, find?_quoteField]
      | cons g gs =>
        rw [List.map_cons, List.map_cons, List.intercalate_cons_cons, ← List.map_cons,
          List.find?_append, List.find?_append, ih, find?_quoteField]
        conv_rhs => rw [List.flatMap_cons, List.find?_append]
        exact congrArg (Option.or · _) Option.or_none
  rw [toCsv, List.append_assoc, List.find?_append, hfields]
  rfl

/-- The first line end in the texts of a line is none that ends rows elsewhere. -/
def EndsLf (fs : Line) : Prop := (fs.flatMap fun f => (f.getD "").toList).find? isBreak ≠ some '\r'

/-- **Reading what was written.** -/
theorem read_toCsv {fs : Line} {lines : List Line} (h : ∀ gs ∈ fs :: lines, gs ≠ [none]) :
    (EndsLf fs → read ((fs :: lines).flatMap toCsv) = some (fs :: lines)) ∧
      (¬ EndsLf fs → read ((fs :: lines).flatMap toCsv) = none) := by
  have hsep := rowSep_eq_lf ((fs :: lines).flatMap toCsv)
  rw [List.flatMap_cons, find?_toCsv] at hsep
  constructor
  · intro hlf
    have hne : ((fs.flatMap fun f => (f.getD "").toList).find? isBreak).or (some '\n') ≠
      some '\r' := by
      cases hfind : (fs.flatMap fun f => (f.getD "").toList).find? isBreak with
      | none => decide
      | some c => exact fun he => hlf (hfind.trans he)
    unfold read
    rw [List.flatMap_cons, hsep.2 hne, ← List.flatMap_cons, (passes_lines h).run_eq]
    rfl
  · intro hcr
    have hfind := not_not.1 hcr
    have hnot : rowSep (toCsv fs ++ lines.flatMap toCsv) ≠ .lf := by
      rw [Ne, hsep, hfind]
      exact fun h => h rfl
    have hnil : fs ≠ [] := by
      rintro rfl
      cases hfind
    obtain ⟨st, hst, hpass⟩ := fails_toCsv hnot hnil (lines.flatMap toCsv)
    unfold read
    rw [List.flatMap_cons, hpass.run_eq]
    simp [finish, hst]

end CSV

end Ruby

end Coopy
