import Mathlib.Data.List.Forall2
import Coopy.ColumnInference
import Coopy.TdiffCells

/-!
# Column names in a tdiff

A declaration line gives the names as they are, each with a bar behind it.  The reader cuts the text
into lines, the line into tokens, and takes the key of each token.  No key is longer than its token,
so a list of names comes back only if every name is a token and a key by itself:

    the names are declared ↔ each of them stands between bars as it is
                                                              (raw_of_declared, applyTdiff_declared)
-/

namespace Coopy

open Lib

/-- The name of the column that changes: before the change, if it goes or moves, else after it. -/
def OrderChange.subjectName (change : OrderChange) : Option String :=
  let nameAt (names : List String) (idx : Int) : Option String :=
    if idx < 0 then none else names[idx.toNat]?
  match change.mode with
  | .delete => nameAt change.namesBefore (change.identityToIndex change.subject)
  | .insert => nameAt change.namesAfter (change.identityToIndexAfter change.subject)
  | .move => nameAt change.namesBefore (change.identityToIndex change.subject)
  | .rename => nameAt change.namesAfter (change.identityToIndexAfter change.subject)

namespace Tdiff

/-! ## Writing -/

/-- Terms with a bar behind each. -/
def barred (terms : List (List Char)) : List Char := terms.flatMap fun t => t ++ ['|']

/-- The line of `changeName`: the names are not quoted. -/
def changeName (names : List String) : List Char :=
  "@@ |".toList ++ barred (names.map fun n => cString n.toList) ++ ['\n']

def columnMark : OrderChangeMode → List Char
  | .delete => ['@', '-']
  | .insert => ['@', '+']
  | .move => ['@', ':']
  | .rename => ['@', '=']

/-- The line of `changeColumn`; `none` if it does not find the column and exits. -/
def changeColumn (change : OrderChange) : Option (List Char) :=
  change.subjectName.map fun subject =>
    columnMark change.mode ++ ' ' :: cString (stringy subject true) ++ [' ', '|'] ++
      barred (change.namesAfter.map fun n => cString (stringy n false)) ++ ['\n']

/-! ## Reading -/

/-- `readLine` takes a carriage return off at both ends. -/
def stripReturns (line : List Char) : List Char :=
  let line := if line.head? = some '\r' then line.tail else line
  if line.getLast? = some '\r' then line.dropLast else line

/-- The lines that `readLine` gives, `line` being read already; an unfinished last line is given as
it is. -/
def readLines : (line : List Char) → List Char → List (List Char)
  | line, [] => if line = [] then [] else [line]
  | line, ch :: rest =>
    if ch = '\n' then stripReturns line :: readLines [] rest else readLines (line ++ [ch]) rest

/-- The calls of the patcher for column names. -/
inductive PatchCall
  | changeName (names : List String) (strong : Bool)
  | changeColumn (change : OrderChange)
deriving DecidableEq, Repr

structure TdiffState where
  cols : List TDiffPart := []
  inComment : Bool := false
deriving DecidableEq, Repr

/-- The key of a part; it is empty if none was read. -/
def TDiffPart.name (p : TDiffPart) : String := p.key.getD ""

def columnMode (first : List Char) : Option OrderChangeMode :=
  if first = ['@', ':'] then some .move
  else if first = ['@', '+'] then some .insert
  else if first = ['@', '-'] then some .delete
  else if first = ['@', '='] then some .rename
  else none

/-- A column line: the name of the column, and the columns after the change. -/
def applyColumnLine (s : TdiffState) (mode : OrderChangeMode) :
    List (List Char) → Option (TdiffState × List PatchCall)
  | [] => none
  | name :: rest =>
    let cols := rest.map (TDiffPart.apply · true)
    let given := String.ofList (cString name)
    let ncols := if mode = .insert ∧ cols = [] then [given] else cols.map TDiffPart.name
    (PatchColumnNames.inferChange (.read ncols) (.read (s.cols.map TDiffPart.name)) mode
      (some given)).map fun change =>
      ({ s with cols }, [.changeColumn change])

section
-- what a line of another kind does: it may set the columns, and it may call the patcher
variable (other : List TDiffPart → List (List Char) → Option (List TDiffPart × List PatchCall))

/-- One turn of the loop of `applyTdiff`; `none` is a failed inference, or a read outside of the
line. -/
def applyLine (s : TdiffState) (line : List Char) : Option (TdiffState × List PatchCall) :=
  if s.inComment then some ({ s with inComment := !(decide (['*', '/'] <:+: line)) }, [])
  else
    match normalizedMessage line with
    | [] => some (s, [])
    | word :: rest =>
      let first := if word.head? = some '!' then word.tail else word
      if word.head? = some '#' then some (s, [])
      else if ['/', '*'].isPrefixOf first then some ({ s with inComment := true }, [])
      else if first = ['@'] ∨ first = ['@', '@'] ∨ first = ['@', '@', '='] then
        let cols := rest.map (TDiffPart.apply · true)
        some ({ s with cols },
          if first = ['@'] then []
            else [.changeName (cols.map TDiffPart.name) (decide (first = ['@', '@', '=']))])
      else
        match columnMode first with
        | some mode => applyColumnLine s mode rest
        | none => (other s.cols (word :: rest)).map fun (cols, calls) => ({ s with cols }, calls)

def applyLines : TdiffState → List (List Char) → Option (List PatchCall)
  | _, [] => some []
  | s, line :: lines =>
    (applyLine other s line).bind fun (s', calls) => (applyLines s' lines).map (calls ++ ·)

/-- The calls of the patcher for a text. -/
def applyTdiff (text : List Char) : Option (List PatchCall) :=
  applyLines other {} (readLines [] text)

end

/-! ## Keys -/

/-- Outside of quotes there is no colon, equals sign or arrow, and no second exclamation mark;
behind an open dash a colon or an equals sign is like any other character. -/
def seamless : (quote bang dash : Bool) → List Char → Bool
  | _, _, _, [] => true
  | quote, bang, dash, ch :: rest =>
    if ch = '\'' then seamless (!quote) bang false rest
    else if quote then seamless quote bang false rest
    else if dash = false ∧ (ch = ':' ∨ ch = '=') then false
    else if dash = true ∧ ch = '>' then false
    else if ch = '!' then !bang && seamless quote true dash rest
    else seamless quote bang (decide (ch = '-') && !dash) rest

/-- A quote comes first, or after an exclamation mark. -/
def opens (text : List Char) : Bool :=
  ['\''].isPrefixOf text || ['!', '\''].isPrefixOf text

theorem scan_seamless (text : List Char) : ∀ (i : Nat) (first hq quote bang dash : Bool),
    (scan i first hq quote bang dash text).sep = .none ↔ seamless quote bang dash text = true := by
  induction text with
  | nil => exact fun i first hq quote bang dash => iff_of_true rfl rfl
  | cons ch text ih =>
    intro i first hq quote bang dash
    unfold scan seamless
    by_cases hquote : ch = '\''
    · rw [if_pos hquote, if_pos hquote]
      exact ih _ _ _ _ _ _
    rw [if_neg hquote, if_neg hquote]
    cases quote with
    | true => exact ih _ _ _ _ _ _
    | false =>
      rw [if_neg Bool.false_ne_true, if_neg Bool.false_ne_true]
      by_cases hsep : dash = false ∧ (ch = ':' ∨ ch = '=')
      · rw [if_pos hsep]
        refine iff_of_false ?_ Bool.false_ne_true
        obtain ⟨rfl, rfl | rfl⟩ := hsep
        · exact Sep.noConfusion
        · exact Sep.noConfusion
      · rw [if_neg hsep, if_neg fun h => hsep ⟨h.2, Or.inl h.1⟩, if_neg fun h =>
          hsep ⟨h.2, Or.inr h.1⟩]
        by_cases hdash : ch = '-' ∧ dash = false
        · obtain ⟨rfl, rfl⟩ := hdash
          exact ih _ _ _ _ _ _
        · rw [if_neg hdash]
          by_cases harrow : dash = true ∧ ch = '>'
          · rw [if_pos harrow.symm, if_pos harrow]
            exact iff_of_false Sep.noConfusion Bool.false_ne_true
          · rw [if_neg fun h => harrow h.symm, if_neg harrow]
            by_cases hbang : ch = '!'
            · rw [if_pos hbang, if_pos hbang]
              cases bang with
              | true => exact iff_of_false Sep.noConfusion Bool.false_ne_true
              | false => exact ih _ _ _ _ _ _
            · have hnext : (decide (ch = '-') && !dash) = false := by
                rw [Bool.and_eq_false_iff, decide_eq_false_iff_not, Bool.not_eq_false',
                  ← Bool.not_eq_false, ← not_and_or]
                exact hdash
              rw [if_neg hbang, if_neg hbang, hnext]
              exact ih _ _ _ _ _ _

/-- Behind the first character it is settled whether the text opens with a quote. -/
theorem scan_hasQuote_later (text : List Char) : ∀ (i : Nat) (hq quote bang dash : Bool),
    (scan (i + 1) false hq quote bang dash text).hasQuote = hq := by
  induction text with
  | nil => exact fun i hq quote bang dash => rfl
  | cons ch text ih =>
    intro i hq quote bang dash
    rcases scan_cons ch text (i + 1) false hq quote bang dash with ⟨-, -, sep, place, conflict, -,
      -, -, heq⟩ | ⟨_, _, _, heq⟩
    · rw [heq]
    · rw [heq, decide_eq_false (Nat.succ_ne_zero i), Bool.and_false, ih, Bool.or_false, ite_self]

theorem scan_hasQuote (text : List Char) :
    (scan 0 true false false false false text).hasQuote = opens text := by
  have hlone : ∀ ch text, ['\''].isPrefixOf (ch :: text) = decide (ch = '\'') := by
    intro ch text
    rw [List.isPrefixOf, List.isPrefixOf, Bool.and_true, beq_eq_decide, decide_eq_decide]
    exact eq_comm
  cases text with
  | nil => rfl
  | cons ch text =>
    have hopens : ch ≠ '!' → opens (ch :: text) = decide (ch = '\'') := by
      intro hbang
      rw [opens, hlone, List.isPrefixOf, beq_false_of_ne (Ne.symm hbang),
        Bool.false_and, Bool.or_false]
    rcases scan_cons ch text 0 true false false false false with ⟨hquote, hbang, sep, place,
      conflict, -, -, -, heq⟩ | ⟨_, _, _, heq⟩
    · rw [heq, hopens fun h => Bool.noConfusion (hbang h), decide_eq_false hquote]
    · rw [heq]
      by_cases hbang : ch = '!'
      · -- a quote may follow the mark
        subst hbang
        show (scan 1 true false _ _ _ text).hasQuote = ['\''].isPrefixOf text
        cases text with
        | nil => rfl
        | cons ch text =>
          rw [hlone]
          rcases scan_cons ch text 1 true false _ _ _ with ⟨hquote, -, sep, place, conflict, -, -,
            -, heq⟩ | ⟨_, _, _, heq⟩
          · rw [heq, decide_eq_false hquote]
          · rw [heq, decide_eq_false Nat.one_ne_zero, Bool.and_false, scan_hasQuote_later]
            split
            · next hquote => rw [decide_eq_true hquote]; rfl
            · next hquote => rw [decide_eq_false hquote]
      · rw [decide_eq_false hbang, Bool.and_false, Bool.false_and,
          scan_hasQuote_later, hopens hbang]
        split
        · next hquote => rw [decide_eq_true hquote]; rfl
        · next hquote => rw [decide_eq_false hquote]

/-- A text that is a key by itself. -/
def Whole (text : List Char) : Prop := seamless false false false text = true ∧ opens text = false

theorem whole_iff (text : List Char) : Whole text ↔ (peel text).sep = .none ∧
    (peel text).hasQuote = false := by
  unfold Whole
  rw [← scan_seamless text 0 true false, ← scan_hasQuote]
  rfl

theorem Whole.peel_eq {text : List Char} (h : Whole text) : (peel text).result = text := by
  obtain ⟨hsep, hquote⟩ := (whole_iff text).1 h
  unfold peel at hsep hquote ⊢
  simp only at hsep hquote ⊢
  rw [hquote, if_neg Bool.false_ne_true]
  unfold front
  rw [if_pos hsep]

/-- A separator stands before the end of the text. -/
theorem scan_place_lt (text : List Char) : ∀ {i : Nat} {first hq quote bang dash : Bool},
    (scan i first hq quote bang dash text).sep ≠ .none →
    (scan i first hq quote bang dash text).place < i + text.length := by
  induction text with
  | nil => exact fun h => absurd rfl h
  | cons ch text ih =>
    intro i first hq quote bang dash
    rw [List.length_cons]
    rcases scan_cons ch text i first hq quote bang dash with ⟨-, -, sep, place, conflict, -, hle, -,
      heq⟩ | ⟨_, _, _, heq⟩
    · rw [heq]
      exact fun _ => Nat.lt_of_le_of_lt hle (Nat.lt_add_of_pos_right (Nat.succ_pos _))
    · rw [heq]
      intro h
      have hlater := ih h
      omega

theorem length_unquote_lt {text : List Char} (h : text ≠ []) :
    (unquote text).length < text.length := by
  have hpos : 0 < text.length := List.length_pos_iff.2 h
  have hle : (replaceAll ['\'', '\''] ['\''] ((text.drop 1).take (text.length - 2))).length ≤
      ((text.drop 1).take (text.length - 2)).length := length_replaceAll_le (by decide) _
  have htake : ((text.drop 1).take (text.length - 2)).length ≤ text.length - 2 :=
    List.length_take_le ..
  unfold unquote
  omega

theorem length_unquote_le (text : List Char) : (unquote text).length ≤ text.length := by
  cases text with
  | nil => exact le_refl _
  | cons ch text => exact (length_unquote_lt (List.cons_ne_nil _ _)).le

/-- What is peeled off is shorter than the text, unless it is the whole text. -/
theorem length_peel_lt {s : List Char} (h : ¬ Whole s) : (peel s).result.length < s.length := by
  have hne : s ≠ [] := fun hnil => h (by rw [hnil]; exact ⟨rfl, rfl⟩)
  rw [whole_iff] at h
  unfold peel at h ⊢
  simp only at h ⊢
  have hplace : (scan 0 true false false false false s).sep ≠ .none →
      (scan 0 true false false false false s).place < 0 + s.length := scan_place_lt s
  generalize scan 0 true false false false false s = f at *
  have hfront : f.sep ≠ .none → (front s f).length < s.length := fun hsep => by
    have htake : (s.take f.place).length < s.length := by
      rw [List.length_take]
      have := hplace hsep
      omega
    unfold front
    rw [if_neg hsep]
    simp only []
    split
    · rw [List.length_drop]
      exact (Nat.sub_le _ _).trans_lt htake
    · exact htake
  by_cases hsep : f.sep = .none
  · have hquote : f.hasQuote = true := by
      rw [← Bool.not_eq_false]
      exact fun hq => h ⟨hsep, hq⟩
    have hself : front s f = s := if_pos hsep
    rw [if_pos hquote, hself]
    exact length_unquote_lt hne
  · split
    · exact (length_unquote_le _).trans_lt (hfront hsep)
    · exact hfront hsep

theorem length_peel_le (s : List Char) : (peel s).result.length ≤ s.length := by
  by_cases h : Whole s
  · rw [h.peel_eq]
  · exact (length_peel_lt h).le

/-- Behind a separator there is less than before. -/
theorem length_rem_lt {s : List Char} (h : (peel s).sep ≠ .none) :
    (peel s).rem.length < s.length := by
  have hne : 0 < s.length := List.length_pos_iff.2 fun hnil => h (by rw [hnil]; rfl)
  unfold peel at h ⊢
  simp only at h ⊢
  generalize scan 0 true false false false false s = f at *
  have hsep : 0 < f.sep.length := by
    cases hf : f.sep with
    | none => exact absurd hf h
    | arrow => exact Nat.succ_pos 1
    | colon => exact Nat.succ_pos 0
    | equals => exact Nat.succ_pos 0
    | bang => exact Nat.succ_pos 0
  rw [if_neg h, List.length_drop]
  omega

theorem length_peels_le : ∀ (n : Nat) (s : List Char), ∀ e ∈ peels n s, e.result.length ≤ s.length
  | 0, _ => List.forall_mem_nil _
  | n + 1, s => by
    unfold peels
    refine List.forall_mem_cons.2 ⟨length_peel_le s, ?_⟩
    by_cases h : (peel s).sep = .none
    · rw [if_pos h]
      exact List.forall_mem_nil _
    · rw [if_neg h]
      exact fun e he => (length_peels_le n _ e he).trans (length_rem_lt h).le

/-- The key is that of the part before, or one of the elements. -/
theorem key_applyElements (es : List Peeled) : ∀ (pre : Sep) (p : TDiffPart),
    (TDiffPart.applyElements true pre es p).key = p.key ∨
      ∃ e ∈ es, (TDiffPart.applyElements true pre es p).key = some (String.ofList e.result) := by
  induction es with
  | nil => exact fun pre p => Or.inl rfl
  | cons e es ih =>
    intro pre p
    have hone : (p.applyElement e.result pre e.sep e.hasQuote true).1.key = p.key ∨
        (p.applyElement e.result pre e.sep e.hasQuote true).1.key =
        some (String.ofList e.result) := by
      unfold TDiffPart.applyElement
      split
      · exact Or.inl rfl
      · cases pre with
        | none => exact Or.inr rfl
        | _ => exact Or.inl rfl
    rcases ih (p.applyElement e.result pre e.sep e.hasQuote true).2
      (p.applyElement e.result pre e.sep e.hasQuote true).1 with h | ⟨d, hd, h⟩
    · rcases hone with h' | h'
      · exact Or.inl (h.trans h')
      · exact Or.inr ⟨e, List.mem_cons_self, h.trans h'⟩
    · exact Or.inr ⟨d, List.mem_cons_of_mem e hd, h⟩

/-- The key of a token. -/
def keyOf (token : List Char) : String := (TDiffPart.apply token true).name

theorem keyOf_cases (token : List Char) :
    keyOf token = "" ∨ ∃ e ∈ peels 4 token, keyOf token = String.ofList e.result := by
  have hkey : keyOf token = (TDiffPart.applyElements true .none (peels 4 token)
      { conflict := (peels 4 token).any Peeled.conflict }).key.getD "" := by
    unfold keyOf TDiffPart.name TDiffPart.apply
    simp only [settle_key]
  rw [hkey]
  rcases key_applyElements (peels 4 token) .none
    { conflict := (peels 4 token).any Peeled.conflict } with h | ⟨e, he, h⟩
  · exact Or.inl (by rw [h]; rfl)
  · exact Or.inr ⟨e, he, by rw [h]; rfl⟩

theorem keyOf_last {token : List Char} (h : (peel token).sep = .none) :
    keyOf token = String.ofList (peel token).result := by
  have hpeels : peels 4 token = [peel token] := by
    unfold peels
    rw [if_pos h]
  have hfirst :
    ∀ p : TDiffPart,
    (p.applyElement (peel token).result .none (peel token).sep (peel token).hasQuote true).1.key =
      some (String.ofList (peel token).result) := by
    intro p
    rw [h]
    rfl
  unfold keyOf TDiffPart.name TDiffPart.apply
  rw [hpeels]
  simp only [settle_key]
  exact congrArg (·.getD "") (hfirst _)

theorem keyOf_whole {token : List Char} (h : Whole token) : keyOf token = String.ofList token := by
  rw [keyOf_last ((whole_iff token).1 h).1, h.peel_eq]

/-- No key is longer than its token, and only a whole token is as long. -/
theorem length_keyOf_le (token : List Char) : (keyOf token).toList.length ≤ token.length := by
  rcases keyOf_cases token with h | ⟨e, he, h⟩
  · rw [h]
    exact Nat.zero_le _
  · rw [h, String.toList_ofList]
    exact length_peels_le 4 token e he

theorem length_keyOf_lt {token : List Char} (h : ¬ Whole token) :
    (keyOf token).toList.length < token.length := by
  by_cases hsep : (peel token).sep = .none
  · rw [keyOf_last hsep, String.toList_ofList]
    exact length_peel_lt h
  · have hpos : 0 < token.length := List.length_pos_iff.2 fun hnil => hsep (by rw [hnil]; rfl)
    rcases keyOf_cases token with hkey | ⟨e, he, hkey⟩
    · rw [hkey]
      exact hpos
    · rw [hkey, String.toList_ofList]
      have hpeels : peels 4 token = peel token :: peels 3 (peel token).rem := by
        rw [peels, if_neg hsep]
      rw [hpeels] at he
      rcases List.mem_cons.1 he with rfl | he
      · exact length_peel_lt h
      · exact (length_peels_le 3 _ e he).trans_lt (length_rem_lt hsep)

theorem keyOf_shown {piece text : List Char} {quoted : Bool} (h : Shown piece text quoted) :
    keyOf piece = String.ofList text := by
  have hpeel := peel_last h
  rw [keyOf_last (by rw [hpeel]), hpeel]

/-! ## The terms of a line -/

theorem barred_cons (t : List Char) (ts : List (List Char)) :
    barred (t :: ts) = t ++ '|' :: barred ts := by
  simp [barred]

/-- What is given out behind the first bar is the line, each term with its bar. -/
theorem run_inTerm (line : List Char) : ∀ {result : List Char} {quote : Bool},
    (∀ rest, closes false (result ++ rest) = closes quote rest) →
    (∀ e ∈ (Transducer.run Scanner.step line (inTerm result quote)).1, closes false e = true) ∧
    ∃ result' quote', (Transducer.run Scanner.step line (inTerm result quote)).2 =
    inTerm result' quote' ∧
      result ++ line = barred (Transducer.run Scanner.step line (inTerm result quote)).1 ++
      result' := by
  induction line with
  | nil => exact fun _ => ⟨List.forall_mem_nil _, _, _, rfl, List.append_nil _⟩
  | cons ch line ih =>
    intro result quote hopen
    have hgrown : ∀ quote', (∀ rest, closes quote (ch :: rest) = closes quote' rest) →
        Scanner.step (inTerm result quote) ch = ([], inTerm (result ++ [ch]) quote') →
        (∀ e ∈ (Transducer.run Scanner.step (ch :: line) (inTerm result quote)).1,
          closes false e = true) ∧
        ∃ result' quote', (Transducer.run Scanner.step (ch :: line) (inTerm result quote)).2 =
        inTerm result' quote' ∧
          result ++ ch :: line =
          barred (Transducer.run Scanner.step (ch :: line) (inTerm result quote)).1 ++ result' := by
      intro quote' hcloses hstep
      have hnext : ∀ rest, closes false (result ++ [ch] ++ rest) = closes quote' rest :=
        fun rest => by
        rw [List.append_assoc, List.singleton_append, hopen, hcloses]
      obtain ⟨hall, r, q, hrun, hline⟩ := ih hnext
      rw [List.append_assoc, List.singleton_append] at hline
      simp only [Transducer.run, hstep]
      exact ⟨hall, r, q, hrun, hline⟩
    by_cases hq : ch = '\''
    · subst hq
      exact hgrown (!quote) (fun rest => rfl) rfl
    · cases quote with
      | true =>
        refine hgrown true (fun rest => ?_) ?_
        · rw [closes, if_neg hq, Bool.true_or, Bool.true_and]
        · unfold Scanner.step
          rw [if_neg hq]
          rfl
      | false =>
        by_cases hbar : ch = '|'
        · subst hbar
          have hclosed : closes false result = true := by
            have h := hopen []
            rw [List.append_nil] at h
            exact h
          obtain ⟨hall, r, q, hrun, hline⟩ := @ih [] false fun rest => rfl
          have hstep : Scanner.step (inTerm result false) '|' = ([result], inTerm [] false) := rfl
          simp only [Transducer.run, hstep]
          refine ⟨List.forall_mem_cons.2 ⟨hclosed, hall⟩, r, q, hrun, ?_⟩
          rw [List.singleton_append, barred_cons, List.append_assoc, List.cons_append, ← hline]
          rfl
        · refine hgrown false (fun rest => ?_) ?_
          · rw [closes, if_neg hq, decide_eq_true hbar, Bool.or_true, Bool.true_and]
          · unfold Scanner.step
            rw [if_neg hq, if_neg (by exact Bool.false_ne_true), if_neg (by simp [inTerm, hbar])]
            rfl

/-- A line with a mark: its tokens are the mark and closed terms, which make up the line with their
bars. -/
theorem tokens_mark (op : Operator) (line : List Char) :
    ∃ es rest, tokens (op.text ++ [' ', '|'] ++ line) = op.text :: es ∧
    (∀ e ∈ es, closes false e = true) ∧
      line = barred es ++ rest := by
  obtain ⟨hall, r, q, hrun, hline⟩ := @run_inTerm line [] false fun rest => rfl
  have hpass : Transducer.Passes Scanner.step (inTerm [] false) line
      (Transducer.run Scanner.step line (inTerm [] false)).1 (inTerm r q) := Prod.ext rfl hrun
  refine ⟨_, r, ?_, hall, hline⟩
  have h := (passes_start op).append hpass
  rw [tokens_of_passes h, last_inTerm, List.append_nil]
  rfl

/-! ## Lengths -/

/-- Terms that are no shorter than the texts they come from, and make up a part of the line, are
these texts. -/
theorem eq_of_length_le {es cs : List (List Char)}
    (hle : List.Forall₂ (fun e c => c.length ≤ e.length) es cs)
    (h : (barred es).length ≤ (barred cs).length) :
    List.Forall₂ (fun e c => e.length = c.length) es cs := by
  have hsum : ∀ {es cs : List (List Char)}, List.Forall₂ (fun e c => c.length ≤ e.length) es cs →
      (barred cs).length ≤ (barred es).length := by
    intro es cs hle
    induction hle with
    | nil => exact le_refl _
    | cons hec _ ih =>
      rw [barred_cons, barred_cons, List.length_append, List.length_append, List.length_cons,
        List.length_cons]
      omega
  induction hle with
  | nil => exact .nil
  | cons hec hrest ih =>
    have hle := hsum hrest
    rw [barred_cons, barred_cons, List.length_append, List.length_append, List.length_cons,
      List.length_cons] at h
    exact .cons (by omega) (ih (by omega))

theorem eq_of_barred_prefix {es cs : List (List Char)}
    (hlen : List.Forall₂ (fun e c => e.length = c.length) es cs)
    {r r' : List Char} (h : barred es ++ r = barred cs ++ r') : es = cs := by
  induction hlen with
  | nil => rfl
  | cons hec _ ih =>
    rw [barred_cons, barred_cons, List.append_assoc, List.append_assoc] at h
    obtain ⟨rfl, htail⟩ := List.append_inj h hec
    rw [ih (List.cons.inj htail).2]

/-! ## Lines of a text -/

theorem readLines_append {x : List Char} (hx : '\n' ∉ x) (y : List Char) : ∀ line : List Char,
    readLines line (x ++ '\n' :: y) = stripReturns (line ++ x) :: readLines [] y := by
  induction x with
  | nil =>
    intro line
    rw [List.nil_append, readLines, if_pos rfl, List.append_nil]
  | cons ch x ih =>
    intro line
    obtain ⟨hch, hx⟩ := List.ne_and_not_mem_of_not_mem_cons hx
    rw [List.cons_append, readLines, if_neg hch.symm, ih hx, List.append_assoc,
      List.singleton_append]

theorem stripReturns_eq {line : List Char} (hhead : line.head? ≠ some '\r')
    (hlast : line.getLast? ≠ some '\r') : stripReturns line = line := by
  unfold stripReturns
  simp only [if_neg hhead, if_neg hlast]

/-- What is left of a line with a mark is the mark and a first part of the rest. -/
theorem stripReturns_mark {mark : List Char} (hne : mark ≠ []) (hhead : mark.head? ≠ some '\r')
    (hend : mark.getLast? ≠ some '\r') (line : List Char) :
    ∃ line', stripReturns (mark ++ line) = mark ++ line' ∧ line' <+: line := by
  have hstart : (mark ++ line).head? ≠ some '\r' := by
    rwa [List.head?_append_of_ne_nil _ hne]
  unfold stripReturns
  simp only [if_neg hstart]
  split
  · next hlast =>
    have hline : line ≠ [] := fun h => by
      rw [h, List.append_nil] at hlast
      exact hend hlast
    exact ⟨line.dropLast, List.dropLast_append_of_ne_nil hline, List.dropLast_prefix line⟩
  · exact ⟨line, rfl, List.prefix_refl _⟩

/-! ## The declaration -/

/-- A name that stands between bars as it is: one line of one closed term without escapes, and the
whole of it the key. -/
structure RawFine (name : String) : Prop where
  nul : '\x00' ∉ name.toList
  feed : '\n' ∉ name.toList
  closed : closes false name.toList = true
  unescaped : Unescaped name.toList
  whole : Whole name.toList

theorem length_cString_le (t : List Char) : (cString t).length ≤ t.length :=
  (cString_initial t).length_le

/-- The names a line is read as. -/
def readNames (tokens : List (List Char)) : List String := tokens.map fun t => keyOf (unescape t)

/-- **If the names come back** from a first part of their line, each stands there as it is. -/
theorem raw_of_readNames {names : List String} {es : List (List Char)} {line rest : List Char}
    (hclosed : ∀ e ∈ es, closes false e = true) (hline : line = barred es ++ rest)
    (hpart : line <+: barred (names.map fun n => cString n.toList)) (hfeed : '\n' ∉ line)
    (hread : readNames es = names) : ∀ n ∈ names, RawFine n := by
  subst hread
  generalize hcs : (readNames es).map (fun n => cString n.toList) = cs at hpart
  have hmap : cs = es.map fun t => cString (keyOf (unescape t)).toList := by
    rw [← hcs]
    unfold readNames
    rw [List.map_map]
    rfl
  -- no name is longer than its term
  have hle : List.Forall₂ (fun e c => c.length ≤ e.length) es cs := by
    rw [hmap, List.forall₂_map_right_iff, List.forall₂_same]
    exact fun t _ => (length_cString_le _).trans ((length_keyOf_le _).trans (length_unescape_le t))
  have htotal : (barred es).length ≤ (barred cs).length := by
    have hl := hpart.length_le
    rw [hline, List.length_append] at hl
    omega
  have hlen := eq_of_length_le hle htotal
  obtain ⟨r', hr'⟩ := hpart
  have hall : barred es ++ (rest ++ r') = barred cs ++ [] := by
    rw [List.append_nil, ← hr', hline, List.append_assoc]
  have heq : es = cs := eq_of_barred_prefix hlen hall
  intro n hn
  obtain ⟨t, ht, rfl⟩ := List.mem_map.1 hn
  have hself : t = cString (keyOf (unescape t)).toList := by
    have h := heq
    rw [hmap] at h
    exact List.map_inj_left.1 ((List.map_id' es).trans h) t ht
  -- so every bound is met
  have hc := length_cString_le (keyOf (unescape t)).toList
  have hk := length_keyOf_le (unescape t)
  have hu := length_unescape_le t
  have hlent := congrArg List.length hself
  have hun : Unescaped t := unescaped_of_length (by omega)
  have htext : unescape t = t := unescape_of_unescaped hun
  have hwhole : Whole t := by
    by_contra hnot
    have hnot' : ¬ Whole (unescape t) := by rwa [htext]
    have := length_keyOf_lt hnot'
    omega
  have hname : (keyOf (unescape t)).toList = t := by
    rw [htext, keyOf_whole hwhole, String.toList_ofList]
  have hin : ∀ ch ∈ t, ch ∈ line := fun ch hch => by
    rw [hline]
    exact List.mem_append_left _ (List.mem_flatMap.2 ⟨t, ht, List.mem_append_left _ hch⟩)
  constructor
  · rw [hname]
    rw [hname] at hself
    rw [hself]
    exact nul_not_mem_cString t
  · rw [hname]
    exact fun h => hfeed (hin _ h)
  · rw [hname]
    exact hclosed t ht
  · rw [hname]
    exact hun
  · rw [hname]
    exact hwhole

/-- The mark of a declaration. -/
def declares : Operator where
  text := ['@', '@']
  some_char := List.cons_ne_nil _ _
  plain := plain_of_all (by decide)

section
variable (other : List TDiffPart → List (List Char) → Option (List TDiffPart × List PatchCall))

theorem applyLine_declares {line : List Char} {es : List (List Char)}
    (h : tokens line = declares.text :: es) : applyLine other {} line =
      some (⟨es.map fun t => TDiffPart.apply (unescape t) true, false⟩,
        [.changeName (readNames es) false]) := by
  have hmessage : normalizedMessage line = ['@', '@'] :: es.map unescape := by
    unfold normalizedMessage
    rw [h, List.map_cons, declares.unescape_text]
    rfl
  unfold applyLine
  rw [if_neg Bool.false_ne_true, hmessage]
  show some (TdiffState.mk ((es.map unescape).map (TDiffPart.apply · true)) false,
    [PatchCall.changeName (((es.map unescape).map (TDiffPart.apply · true)).map TDiffPart.name)
      false]) = _
  rw [List.map_map, List.map_map]
  rfl

theorem applyLines_cons {s s' : TdiffState} {line : List Char} {calls : List PatchCall}
    (h : applyLine other s line = some (s', calls)) (lines : List (List Char)) :
    applyLines other s (line :: lines) = (applyLines other s' lines).map (calls ++ ·) := by
  rw [applyLines, h]
  rfl

theorem raw_of_declared {names : List String} {rest : List Char} {calls : List PatchCall}
    (h : applyTdiff other (changeName names ++ rest) = some (.changeName names false :: calls)) :
    ∀ n ∈ names, RawFine n := by
  generalize hB : barred (names.map fun n => cString n.toList) = B at *
  obtain ⟨x, y, hxy, hx⟩ := List.eq_append_cons_of_mem (show '\n' ∈ B ++ '\n' :: rest by simp)
  -- the line ends with the declaration, or in a name
  have hpart : x <+: B := by
    have hall : x <+: B ++ '\n' :: rest := hxy ▸ List.prefix_append _ _
    rcases List.prefix_or_prefix_of_prefix hall (List.prefix_append B _) with hle | ⟨z, rfl⟩
    · exact hle
    · rw [List.append_assoc] at hxy
      have hz := List.append_cancel_left hxy
      cases z with
      | nil => exact (List.append_nil B).symm ▸ List.prefix_refl B
      | cons ch z =>
        exact absurd (List.mem_append_right B ((List.cons.inj hz).1 ▸ List.mem_cons_self)) hx
  have htext : changeName names ++ rest = ['@', '@', ' ', '|'] ++ x ++ '\n' :: y := by
    unfold changeName
    rw [hB, List.append_assoc ['@', '@', ' ', '|'], ← hxy]
    simp
  have hfree : '\n' ∉ ['@', '@', ' ', '|'] ++ x := by
    rw [List.mem_append]
    exact fun h => h.elim (by decide) hx
  obtain ⟨x', hstrip, hx'⟩ :=
    @stripReturns_mark ['@', '@', ' ', '|'] (by decide) (by decide) (by decide) x
  obtain ⟨es, r, htokens, hclosed, hline⟩ := tokens_mark declares x'
  have hmark : declares.text ++ [' ', '|'] ++ x' = ['@', '@', ' ', '|'] ++ x' := rfl
  rw [hmark] at htokens
  unfold applyTdiff at h
  rw [htext, readLines_append hfree, List.nil_append, hstrip] at h
  rw [applyLines_cons other (applyLine_declares other htokens)] at h
  obtain ⟨more, -, hcalls⟩ := Option.map_eq_some_iff.1 h
  have hread : readNames es = names := by
    injection (List.cons.inj hcalls).1
  exact raw_of_readNames hclosed hline (hB ▸ hx'.trans hpart) (fun hm => hx (hx'.subset hm)) hread

/-- The names that are declared when each stands in the line as it is. -/
theorem applyTdiff_declared {names : List String} (hnames : ∀ n ∈ names, RawFine n)
    (rest : List Char) : applyTdiff other (changeName names ++ rest) =
      (applyLines other { cols := names.map fun n => TDiffPart.apply n.toList true }
        (readLines [] rest)).map
          (.changeName names false :: ·) := by
  have hterms : (names.map fun n => cString n.toList) = names.map String.toList :=
    List.map_congr_left fun n hn => cString_of_not_mem (hnames n hn).nul
  have hclosed : ∀ t ∈ names.map String.toList, closes false t = true :=
    List.forall_mem_map.2 fun n hn => (hnames n hn).closed
  have hfree : '\n' ∉ ['@', '@', ' ', '|'] ++ barred (names.map String.toList) := by
    unfold barred
    rw [List.mem_append, List.mem_flatMap]
    rintro (h | ⟨t, ht, h⟩)
    · exact absurd h (by decide)
    · obtain ⟨n, hn, rfl⟩ := List.mem_map.1 ht
      rcases List.mem_append.1 h with h | h
      · exact (hnames n hn).feed h
      · exact absurd h (by decide)
  have hstrip : stripReturns (['@', '@', ' ', '|'] ++ barred (names.map String.toList)) =
      ['@', '@', ' ', '|'] ++ barred (names.map String.toList) := by
    refine stripReturns_eq (fun h => absurd (Option.some.inj h) (by decide)) ?_
    rcases List.eq_nil_or_concat names with rfl | ⟨init, last, rfl⟩
    · decide
    · unfold barred
      rw [List.concat_eq_append, List.map_append, List.flatMap_append, List.map_singleton,
        List.flatMap_singleton, ← List.append_assoc, ← List.append_assoc, List.getLast?_concat]
      decide
  have htext : changeName names ++ rest =
      ['@', '@', ' ', '|'] ++ barred (names.map String.toList) ++ '\n' :: rest := by
    unfold changeName
    rw [hterms]
    simp
  have htokens : tokens (['@', '@', ' ', '|'] ++ barred (names.map String.toList)) =
    declares.text :: names.map String.toList := tokens_terms declares hclosed
  have hcols : (names.map String.toList).map (fun t => TDiffPart.apply (unescape t) true) =
      names.map fun n => TDiffPart.apply n.toList true := by
    rw [List.map_map]
    exact List.map_congr_left fun n hn => by
      rw [Function.comp_apply, unescape_of_unescaped (hnames n hn).unescaped]
  have hread : readNames (names.map String.toList) = names := by
    unfold readNames
    rw [List.map_map]
    conv_rhs => rw [← List.map_id names]
    refine List.map_congr_left fun n hn => ?_
    rw [Function.comp_apply, unescape_of_unescaped (hnames n hn).unescaped,
      keyOf_whole (hnames n hn).whole, String.ofList_toList]
    rfl
  unfold applyTdiff
  rw [htext, readLines_append hfree, List.nil_append, hstrip,
    applyLines_cons other (applyLine_declares other htokens), hcols, hread]
  rfl

end

end Tdiff

end Coopy
