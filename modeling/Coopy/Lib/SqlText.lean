import Coopy.Lib.Quoting
import Coopy.Lib.SqlTables
import Mathlib.Data.List.TakeWhile

/-!
# Reading SQL statements

A name is a word that is not reserved, or stands between delimiters with its closing ones doubled; a
text stands between quotes.  Names and texts end where a blank or a mark of punctuation follows:

    d.Names s n → Behind rest → d.name (s ++ rest) = some (n, rest)                  (Names.read)
    Values s v → Behind rest → value (s ++ rest) = some (v, rest)                    (Values.read)
    statements written one behind the other are read one after the other             (Script.cons)
-/

namespace Coopy.Lib

namespace Sql

/-! ## Characters -/

def isBlank (c : Char) : Bool := c == ' ' || c == '\n' || c == '\t' || c == '\r'

def isLetter (c : Char) : Bool := ('A' ≤ c && c ≤ 'Z') || ('a' ≤ c && c ≤ 'z') || c == '_'

def isWordChar (c : Char) : Bool := isLetter c || ('0' ≤ c && c ≤ '9')

/-- What can stand behind a word or a quoted text. -/
def isBreak (c : Char) : Bool := isBlank c || c == '(' || c == ')' || c == ',' || c == ';' ||
    c == '='

/-- A letter, and word characters behind it. -/
def isBare : List Char → Bool
  | [] => false
  | c :: w => isLetter c && w.all isWordChar

/-- How names are written, and which words are none. -/
structure Dialect where
  opening : Char
  closing : Char
  reserved : String → Bool
  opening_special : isBreak opening = false ∧ isWordChar opening = false
  closing_special : isBreak closing = false

/-! ## The parts of a statement -/

section
variable {β : Type}

def skip (s : List Char) : List Char := s.dropWhile isBlank

def word (s : List Char) : Option (String × List Char) :=
  match skip s with
  | [] => none
  | c :: s =>
    if isLetter c then some (String.ofList ((c :: s).takeWhile isWordChar),
      (c :: s).dropWhile isWordChar) else none

def keyword (w : String) (s : List Char) : Option (List Char) :=
  (word s).bind fun r => if r.1 = w then some r.2 else none

def mark (c : Char) (s : List Char) : Option (List Char) :=
  match skip s with
  | [] => none
  | d :: rest => if d = c then some rest else none

def value (s : List Char) : Option (Option String × List Char) :=
  match skip s with
  | [] => none
  | c :: s =>
    if c = '\'' then (readQuoted '\'' s).map fun r => (some (String.ofList r.1), r.2)
    else (keyword "NULL" (c :: s)).map fun rest => (none, rest)

/-- Items up to the first one that no separator stands behind. -/
def sepBy (item : List Char → Option (β × List Char)) (sep : List Char → Option (List Char)) :
    Nat → List Char → Option (List β × List Char)
  | 0, _ => none
  | fuel + 1, s =>
    (item s).bind fun r =>
      match sep r.2 with
      | some rest => (sepBy item sep fuel rest).map fun q => (r.1 :: q.1, q.2)
      | none => some ([r.1], r.2)

end

namespace Dialect

variable (d : Dialect)

def name (s : List Char) : Option (String × List Char) :=
  match skip s with
  | [] => none
  | c :: s =>
    if c = d.opening then (readQuoted d.closing s).map fun r => (String.ofList r.1, r.2)
    else (word (c :: s)).bind fun r => if d.reserved r.1 then none else some r

/-- `c = v`. -/
def pair (s : List Char) : Option ((String × Option String) × List Char) :=
  (d.name s).bind fun n => (mark '=' n.2).bind fun s => (value s).map fun v => ((n.1, v.1), v.2)

def conditions (s : List Char) : Option (List (String × Option String) × List Char) :=
  sepBy d.pair (keyword "AND") s.length s

/-- `DROP COLUMN c`, `ADD COLUMN c` and `RENAME COLUMN c TO c'`. -/
def columnAction (s : List Char) : Option (Action String String × List Char) :=
  (word s).bind fun w => (keyword "COLUMN" w.2).bind fun s => (d.name s).bind fun c =>
    if w.1 = "DROP" then some (.dropColumn c.1, c.2)
    else if w.1 = "ADD" then some (.addColumn c.1, c.2)
    else if w.1 = "RENAME" then
      (keyword "TO" c.2).bind fun s => (d.name s).map fun c' => (.renameColumn c.1 c'.1, c'.2)
    else none

def alter (s : List Char) : Option (Statement String String × List Char) :=
  (keyword "TABLE" s).bind fun s => (d.name s).bind fun t =>
    (d.columnAction t.2).map fun a => (⟨t.1, a.1⟩, a.2)

def insert (s : List Char) : Option (Statement String String × List Char) :=
  (keyword "INTO" s).bind fun s => (d.name s).bind fun t => (mark '(' t.2).bind fun s =>
    (sepBy d.name (mark ',') s.length s).bind fun ns => (mark ')' ns.2).bind fun s =>
      (keyword "VALUES" s).bind fun s => (mark '(' s).bind fun s =>
        (sepBy value (mark ',') s.length s).bind fun vs =>
          (mark ')' vs.2).map fun s => (⟨t.1, .insert ns.1 vs.1⟩, s)

def delete (s : List Char) : Option (Statement String String × List Char) :=
  (keyword "FROM" s).bind fun s => (d.name s).bind fun t => (keyword "WHERE" t.2).bind fun s =>
    (d.conditions s).map fun cs => (⟨t.1, .delete cs.1⟩, cs.2)

def update (s : List Char) : Option (Statement String String × List Char) :=
  (d.name s).bind fun t => (keyword "SET" t.2).bind fun s =>
    (sepBy d.pair (mark ',') s.length s).bind fun vs => (keyword "WHERE" vs.2).bind fun s =>
      (d.conditions s).map fun cs => (⟨t.1, .update vs.1 cs.1⟩, cs.2)

def statement (s : List Char) : Option (Statement String String × List Char) :=
  (word s).bind fun w =>
    (if w.1 = "ALTER" then d.alter w.2
      else if w.1 = "INSERT" then d.insert w.2
      else if w.1 = "DELETE" then d.delete w.2
      else if w.1 = "UPDATE" then d.update w.2
      else none).bind fun r => (mark ';' r.2).map fun rest => (r.1, rest)

def statements : Nat → List Char → Option (List (Statement String String))
  | 0, s => if skip s = [] then some [] else none
  | fuel + 1, s =>
    if skip s = [] then some []
    else (d.statement s).bind fun r => (statements fuel r.2).map (r.1 :: ·)

/-- The statements of a text. -/
def script (s : List Char) : Option (List (Statement String String)) := d.statements s.length s

end Dialect

/-! ## What is read -/

/-- A text that a word or a quoted text can end in front of. -/
def Behind (rest : List Char) : Prop := ∀ c ∈ rest.head?, isBreak c = true

theorem Behind.cons {c : Char} (h : isBreak c = true) (s : List Char) : Behind (c :: s) := by
  intro c' hc'
  obtain rfl := Option.some.inj hc'
  exact h

/-- Whatever stands behind `s`, the reader takes `s` and gives `b`. -/
def Takes {β : Type} (p : List Char → Option (β × List Char)) (s : List Char) (b : β) : Prop :=
  ∀ rest, Behind rest → p (s ++ rest) = some (b, rest)

theorem skip_cons {c : Char} (h : isBlank c = false) (s : List Char) : skip (c :: s) = c :: s := by
  unfold skip
  rw [List.dropWhile_cons, h]
  rfl

theorem isBlank_of_isBreak {c : Char} (h : isBreak c = false) : isBlank c = false := by
  simp only [isBreak, Bool.or_eq_false_iff] at h
  exact h.1.1.1.1.1

/-- No character of a word is a break. -/
theorem isBreak_of_isWordChar {c : Char} (h : isWordChar c = true) : isBreak c = false := by
  by_contra hbreak
  rw [Bool.not_eq_false] at hbreak
  simp only [isBreak, isBlank, Bool.or_eq_true, beq_iff_eq, or_assoc] at hbreak
  rcases hbreak with rfl | rfl | rfl | rfl | rfl | rfl | rfl | rfl | rfl
  all_goals exact absurd h (by decide)

theorem isBare_cons {w : List Char} (h : isBare w = true) :
    ∃ c cs, w = c :: cs ∧ isLetter c = true ∧ ∀ x ∈ c :: cs, isWordChar x = true := by
  cases w with
  | nil => cases h
  | cons c cs =>
    obtain ⟨hc, hcs⟩ := Bool.and_eq_true_iff.1 h
    refine ⟨c, cs, rfl, hc, List.forall_mem_cons.2 ⟨?_, List.all_eq_true.1 hcs⟩⟩
    unfold isWordChar
    rw [hc]
    rfl

theorem word_takes {w : List Char} (h : isBare w = true) : Takes word w (String.ofList w) := by
  obtain ⟨c, cs, rfl, hc, hall⟩ := isBare_cons h
  intro rest hrest
  have hblank : isBlank c = false :=
    isBlank_of_isBreak (isBreak_of_isWordChar (hall c List.mem_cons_self))
  have htake : (c :: cs ++ rest).takeWhile isWordChar = c :: cs ∧
    (c :: cs ++ rest).dropWhile isWordChar = rest := by
    rw [List.takeWhile_append_of_pos hall, List.dropWhile_append_of_pos hall]
    cases rest with
    | nil => exact ⟨List.append_nil _, rfl⟩
    | cons x rest =>
      have hx : isWordChar x = false := by
        by_contra hw
        have hbreak := hrest x rfl
        rw [isBreak_of_isWordChar (by simpa using hw)] at hbreak
        cases hbreak
      rw [List.takeWhile_cons, List.dropWhile_cons, hx]
      exact ⟨List.append_nil _, rfl⟩
  unfold word
  rw [List.cons_append, skip_cons hblank]
  simp only [hc, if_true]
  rw [← List.cons_append, htake.1, htake.2]

theorem keyword_eq {w : String} (h : isBare w.toList = true) {rest : List Char}
    (hrest : Behind rest) : keyword w (w.toList ++ rest) = some rest := by
  unfold keyword
  rw [word_takes h rest hrest, Option.bind_some, String.ofList_toList, if_pos rfl]

theorem mark_eq {c : Char} (h : isBlank c = false) (s : List Char) : mark c (c :: s) = some s := by
  unfold mark
  rw [skip_cons h]
  exact if_pos rfl

/-- A text between quotes, behind the first of them. -/
theorem readQuoted_behind {close : Char} (hclose : isBreak close = false) (x : List Char)
    {rest : List Char} (hrest : Behind rest) :
    readQuoted close (doubleMark close x ++ [close] ++ rest) = some (x, rest) := by
  rw [List.append_assoc, List.singleton_append]
  refine readQuoted_doubleMark x fun hhead => ?_
  rw [hrest close hhead] at hclose
  cases hclose

/-- How a name is written. -/
inductive Dialect.Names (d : Dialect) : List Char → String → Prop
  | bare {w : List Char} : isBare w = true → d.reserved (String.ofList w) = false →
    d.Names w (String.ofList w)
  | quoted (x : List Char) :
    d.Names (d.opening :: doubleMark d.closing x ++ [d.closing]) (String.ofList x)

/-- How a value is written. -/
inductive Values : List Char → Option String → Prop
  | null : Values "NULL".toList none
  | text (x : List Char) : Values ('\'' :: doubleMark '\'' x ++ ['\'']) (some (String.ofList x))

/-- `c=v` -/
def Dialect.Pairs (d : Dialect) (s : List Char) (e : String × Option String) : Prop :=
  ∃ sn sv, s = sn ++ '=' :: sv ∧ d.Names sn e.1 ∧ Values sv e.2

section
variable {d : Dialect} {s : List Char} {n : String} {v : Option String}

theorem Dialect.Names.takes (h : d.Names s n) : Takes d.name s n := by
  intro rest hrest
  cases h with
  | @bare w hw hres =>
    obtain ⟨c, cs, rfl, hc, hall⟩ := isBare_cons hw
    have hblank : isBlank c = false :=
      isBlank_of_isBreak (isBreak_of_isWordChar (hall c List.mem_cons_self))
    have hne : c ≠ d.opening := by
      rintro rfl
      exact absurd (hall _ List.mem_cons_self)
        (by rw [d.opening_special.2]; exact Bool.false_ne_true)
    have hword := word_takes hw rest hrest
    unfold Dialect.name
    rw [List.cons_append, skip_cons hblank]
    rw [List.cons_append] at hword
    simp only [if_neg hne, hword, Option.bind_some, hres, Bool.false_eq_true, if_false]
  | quoted x =>
    unfold Dialect.name
    rw [List.cons_append, List.cons_append, skip_cons (isBlank_of_isBreak d.opening_special.1)]
    simp only [if_true, readQuoted_behind d.closing_special x hrest, Option.map_some]

theorem Dialect.Names.ne_nil (h : d.Names s n) : s ≠ [] := by
  cases h with
  | bare hw =>
    rintro rfl
    cases hw
  | quoted x => exact List.cons_ne_nil _ _

theorem Values.takes (h : Values s v) : Takes value s v := by
  intro rest hrest
  cases h with
  | null =>
    have hnull : keyword "NULL" ("NULL".toList ++ rest) = some rest := keyword_eq (by decide) hrest
    have hskip : skip ("NULL".toList ++ rest) = 'N' :: ("ULL".toList ++ rest) :=
      skip_cons (by decide) _
    have hword : 'N' :: ("ULL".toList ++ rest) = "NULL".toList ++ rest := rfl
    unfold value
    rw [hskip]
    simp only
    rw [if_neg (by decide), hword, hnull]
    rfl
  | text x =>
    have hquote : isBreak '\'' = false := by decide
    unfold value
    rw [List.cons_append, List.cons_append, skip_cons (by decide)]
    simp only [if_true, readQuoted_behind hquote x hrest, Option.map_some]

theorem Values.ne_nil (h : Values s v) : s ≠ [] := by
  cases h with
  | null => decide
  | text x => exact List.cons_ne_nil _ _

theorem Dialect.Pairs.takes {e : String × Option String} (h : d.Pairs s e) : Takes d.pair s e := by
  obtain ⟨sn, sv, rfl, hn, hv⟩ := h
  intro rest hrest
  unfold Dialect.pair
  rw [List.append_assoc, List.cons_append, hn.takes _ (Behind.cons (by decide) _), Option.bind_some]
  show ((mark '=' ('=' :: (sv ++ rest))).bind _) = _
  rw [mark_eq (by decide), Option.bind_some, hv.takes rest hrest]
  rfl

/-! ## Lists -/

theorem sepBy_blank {β : Type} {item : List Char → Option (β × List Char)}
    {sep : List Char → Option (List Char)}
    (hblank : ∀ s, item (' ' :: s) = item s) (fuel : Nat) (s : List Char) :
    sepBy item sep fuel (' ' :: s) = sepBy item sep fuel s := by
  cases fuel with
  | zero => rfl
  | succ fuel => rw [sepBy, sepBy, hblank]

/-- Items with the same text between them. -/
theorem sepBy_eq {β : Type} {item : List Char → Option (β × List Char)}
    {sep : List Char → Option (List Char)} {glue : List Char}
    (hblank : ∀ s, item (' ' :: s) = item s) (hglue : ∀ s, Behind (glue ++ s))
    (hsep : ∀ s, sep (glue ++ s) = some (' ' :: s))
    {parts : List (List Char)} {bs : List β} (h : List.Forall₂ (Takes item) parts bs)
    (hne : parts ≠ []) {rest : List Char} (hrest : Behind rest) (hend : sep rest = none) :
    ∀ fuel, parts.length ≤ fuel → sepBy item sep fuel (glue.intercalate parts ++ rest) =
    some (bs, rest) := by
  induction h with
  | nil => exact absurd rfl hne
  | @cons part b parts bs hpart hparts ih =>
    intro fuel hfuel
    obtain ⟨fuel, rfl⟩ : ∃ k, fuel = k + 1 := ⟨fuel - 1, by rw [List.length_cons] at hfuel; omega⟩
    cases hparts with
    | nil =>
      rw [List.intercalate_singleton, sepBy, hpart rest hrest, Option.bind_some]
      simp only [hend]
    | cons hnext hparts =>
      rw [List.intercalate_cons_cons, List.append_assoc, List.append_assoc, sepBy,
        hpart _ (hglue _), Option.bind_some]
      simp only [hsep]
      rw [sepBy_blank hblank, ih (List.cons_ne_nil _ _) fuel (Nat.le_of_succ_le_succ hfuel)]
      rfl

/-- There are no more items than characters. -/
theorem length_le_intercalate (glue : List Char) {parts : List (List Char)}
    (h : ∀ part ∈ parts, part ≠ []) : parts.length ≤ (glue.intercalate parts).length := by
  induction parts with
  | nil => exact Nat.zero_le _
  | cons part parts ih =>
    have hpart : 0 < part.length := List.length_pos_of_ne_nil (h part List.mem_cons_self)
    have hparts := ih fun p hp => h p (List.mem_cons_of_mem _ hp)
    cases parts with
    | nil =>
      rw [List.intercalate_singleton]
      exact hpart
    | cons next parts =>
      rw [List.intercalate_cons_cons, List.length_append, List.length_append, List.length_cons]
      omega

theorem ne_nil_of_forall₂ {β : Type} {P : List Char → β → Prop} (hP : ∀ {s b}, P s b → s ≠ [])
    {parts : List (List Char)} {bs : List β}
    (h : List.Forall₂ P parts bs) : ∀ part ∈ parts, part ≠ [] := by
  induction h with
  | nil => exact List.forall_mem_nil _
  | cons hpart hparts ih => exact List.forall_mem_cons.2 ⟨hP hpart, ih⟩

/-- A list that is read up to `rest`. -/
theorem sepBy_read {β : Type} {P : List Char → β → Prop} {item : List Char → Option (β × List Char)}
    {sep : List Char → Option (List Char)} {glue : List Char} (htakes : ∀ {s b}, P s b →
      Takes item s b) (hP : ∀ {s b}, P s b → s ≠ [])
    (hblank : ∀ s, item (' ' :: s) = item s) (hglue : ∀ s, Behind (glue ++ s))
    (hsep : ∀ s, sep (glue ++ s) = some (' ' :: s))
    {parts : List (List Char)} {bs : List β} (h : List.Forall₂ P parts bs) (hne : parts ≠ [])
    {rest : List Char} (hrest : Behind rest)
    (hend : sep rest = none) {fuel : Nat} (hfuel : (glue.intercalate parts ++ rest).length ≤ fuel) :
    sepBy item sep fuel (glue.intercalate parts ++ rest) = some (bs, rest) := by
  refine sepBy_eq hblank hglue hsep (h.imp fun _ _ => htakes) hne hrest hend _ ?_
  have hlength := length_le_intercalate glue (ne_nil_of_forall₂ hP h)
  rw [List.length_append] at hfuel
  omega

theorem Dialect.Pairs.ne_nil {e : String × Option String} (h : d.Pairs s e) : s ≠ [] := by
  obtain ⟨sn, sv, rfl, -, -⟩ := h
  exact List.append_ne_nil_of_right_ne_nil _ (List.cons_ne_nil _ _)

/-! ## Statements -/

/-- How a statement is written. -/
inductive Dialect.Written (d : Dialect) : List Char → Statement String String → Prop
  | addColumn {st sc : List Char} {t c : String} : d.Names st t → d.Names sc c →
      d.Written ("ALTER TABLE ".toList ++ st ++ " ADD COLUMN ".toList ++ sc ++ [';'])
      ⟨t, .addColumn c⟩
  | dropColumn {st sc : List Char} {t c : String} : d.Names st t → d.Names sc c →
      d.Written ("ALTER TABLE ".toList ++ st ++ " DROP COLUMN ".toList ++ sc ++ [';'])
      ⟨t, .dropColumn c⟩
  | renameColumn {st sc sc' : List Char} {t c c' : String} : d.Names st t → d.Names sc c →
    d.Names sc' c' →
      d.Written ("ALTER TABLE ".toList ++ st ++ " RENAME COLUMN ".toList ++ sc ++ " TO ".toList ++
        sc' ++ [';'])
        ⟨t, .renameColumn c c'⟩
  | insert {st : List Char} {sns svs : List (List Char)} {t : String} {ns : List String}
    {vs : List (Option String)} :
      d.Names st t → List.Forall₂ d.Names sns ns → List.Forall₂ Values svs vs → sns ≠ [] →
      svs ≠ [] →
      d.Written ("INSERT INTO ".toList ++ st ++ " (".toList ++ [',', ' '].intercalate sns ++
        ") VALUES (".toList ++ [',', ' '].intercalate svs ++ ");".toList) ⟨t, .insert ns vs⟩
  | delete {st : List Char} {scs : List (List Char)} {t : String}
    {cs : List (String × Option String)} :
      d.Names st t → List.Forall₂ d.Pairs scs cs → scs ≠ [] →
      d.Written
        ("DELETE FROM ".toList ++ st ++ " WHERE ".toList ++ " AND ".toList.intercalate scs ++ [';'])
      ⟨t, .delete cs⟩
  | update {st : List Char} {svs scs : List (List Char)} {t : String}
    {vs cs : List (String × Option String)} :
      d.Names st t → List.Forall₂ d.Pairs svs vs → List.Forall₂ d.Pairs scs cs → svs ≠ [] →
      scs ≠ [] →
      d.Written ("UPDATE ".toList ++ st ++ " SET ".toList ++ [',', ' '].intercalate svs ++
        " WHERE ".toList ++ " AND ".toList.intercalate scs ++ [';']) ⟨t, .update vs cs⟩

theorem mark_blank (c : Char) (s : List Char) : mark c (' ' :: s) = mark c s := rfl

/-- A keyword with blanks around it. -/
theorem keyword_between {w : String} (h : isBare w.toList = true) (rest : List Char) :
    keyword w (' ' :: (w.toList ++ ' ' :: rest)) = some (' ' :: rest) :=
  keyword_eq h (Behind.cons (by decide) rest)

theorem word_between {w : List Char} (h : isBare w = true) (rest : List Char) :
    word (' ' :: (w ++ ' ' :: rest)) = some (String.ofList w, ' ' :: rest) :=
  word_takes h _ (Behind.cons (by decide) rest)

theorem name_between (h : d.Names s n) (c : Char) (hc : isBreak c = true) (rest : List Char) :
    d.name (' ' :: (s ++ c :: rest)) = some (n, c :: rest) :=
  h.takes _ (Behind.cons hc rest)

theorem alter_read {st sc : List Char} {t c : String} {k : String} {a : Action String String}
    (hk : isBare k.toList = true) (ha : (if k = "DROP" then some (Action.dropColumn (α := String) c)
      else if k = "ADD" then some (.addColumn c) else none) = some a)
    (ht : d.Names st t) (hc : d.Names sc c) (rest : List Char) :
    d.alter
      (' ' ::
      ("TABLE".toList ++ ' ' ::
        (st ++ ' ' :: (k.toList ++ ' ' :: ("COLUMN".toList ++ ' ' :: (sc ++ ';' :: rest)))))) =
      some (⟨t, a⟩, ';' :: rest) := by
  unfold Dialect.alter
  rw [keyword_between (by decide), Option.bind_some, name_between ht ' ' (by decide),
    Option.bind_some]
  unfold Dialect.columnAction
  simp only [word_between hk, Option.bind_some, keyword_between (w := "COLUMN") (by decide),
    name_between hc ';' (by decide), String.ofList_toList]
  split at ha
  · next hdrop =>
    cases ha
    rw [if_pos hdrop]
    rfl
  · next hdrop =>
    split at ha
    · next hadd =>
      cases ha
      rw [if_neg hdrop, if_pos hadd]
      rfl
    · cases ha

theorem rename_read {st sc sc' : List Char} {t c c' : String} (ht : d.Names st t)
    (hc : d.Names sc c) (hc' : d.Names sc' c') (rest : List Char) :
    d.alter
      (' ' ::
      ("TABLE".toList ++ ' ' :: (st ++ ' ' :: ("RENAME".toList ++ ' ' :: ("COLUMN".toList ++ ' ' ::
        (sc ++ ' ' :: ("TO".toList ++ ' ' :: (sc' ++ ';' :: rest)))))))) =
        some (⟨t, .renameColumn c c'⟩, ';' :: rest) := by
  unfold Dialect.alter
  rw [keyword_between (by decide), Option.bind_some, name_between ht ' ' (by decide),
    Option.bind_some]
  unfold Dialect.columnAction
  simp only [word_between (w := "RENAME".toList) (by decide), Option.bind_some,
    keyword_between (w := "COLUMN") (by decide),
    name_between hc ' ' (by decide), String.ofList_toList, String.reduceEq, if_false, if_true,
    keyword_between (w := "TO") (by decide), name_between hc' ';' (by decide), Option.map_some]

open Dialect in
theorem names_read {sns : List (List Char)} {ns : List String} (h : List.Forall₂ d.Names sns ns)
    (hne : sns ≠ []) (rest : List Char) :
    sepBy d.name (mark ',') ([',', ' '].intercalate sns ++ ')' :: rest).length
      ([',', ' '].intercalate sns ++ ')' :: rest) =
      some (ns, ')' :: rest) :=
  sepBy_read Names.takes Names.ne_nil (fun _ => rfl) (fun _ => Behind.cons (by decide) _)
    (fun _ => mark_eq (by decide) _) h hne
      (Behind.cons (by decide) rest) rfl (Nat.le_refl _)

theorem values_read {svs : List (List Char)} {vs : List (Option String)}
    (h : List.Forall₂ Values svs vs) (hne : svs ≠ []) (rest : List Char) :
    sepBy value (mark ',') ([',', ' '].intercalate svs ++ ')' :: rest).length
      ([',', ' '].intercalate svs ++ ')' :: rest) =
      some (vs, ')' :: rest) :=
  sepBy_read Values.takes Values.ne_nil (fun _ => rfl) (fun _ => Behind.cons (by decide) _)
    (fun _ => mark_eq (by decide) _) h hne
      (Behind.cons (by decide) rest) rfl (Nat.le_refl _)

open Dialect in
theorem assignments_read {svs : List (List Char)} {vs : List (String × Option String)}
    (h : List.Forall₂ d.Pairs svs vs) (hne : svs ≠ []) (rest : List Char) :
    sepBy d.pair (mark ',')
    (' ' :: ([',', ' '].intercalate svs ++ ' ' :: ("WHERE".toList ++ ' ' :: rest))).length
        (' ' :: ([',', ' '].intercalate svs ++ ' ' :: ("WHERE".toList ++ ' ' :: rest))) =
      some (vs, ' ' :: ("WHERE".toList ++ ' ' :: rest)) := by
  rw [sepBy_blank fun _ => rfl]
  exact sepBy_read Pairs.takes Pairs.ne_nil (fun _ => rfl) (fun _ => Behind.cons (by decide) _)
    (fun _ => mark_eq (by decide) _) h hne
      (Behind.cons (by decide) _) rfl (Nat.le_succ _)

open Dialect in
theorem conditions_read {scs : List (List Char)} {cs : List (String × Option String)}
    (h : List.Forall₂ d.Pairs scs cs) (hne : scs ≠ [])
    (rest : List Char) : d.conditions (' ' :: (" AND ".toList.intercalate scs ++ ';' :: rest)) =
    some (cs, ';' :: rest) := by
  unfold Dialect.conditions
  rw [sepBy_blank fun _ => rfl]
  exact sepBy_read Pairs.takes Pairs.ne_nil (fun _ => rfl) (fun _ => Behind.cons (by decide) _)
    (fun s => keyword_between (w := "AND") (by decide) s) h hne (Behind.cons (by decide) rest) rfl
      (Nat.le_succ _)

/-- **What is written is read**, up to the end of the statement. -/
theorem Dialect.Written.read {st : Statement String String} (h : d.Written s st)
    (rest : List Char) :
    d.statement (s ++ rest) = some (st, rest) := by
  have hstart : ∀ {k : String} (s : List Char), isBare k.toList = true →
    word (k.toList ++ ' ' :: s) = some (k, ' ' :: s) := by
    intro k s hk
    rw [word_takes hk _ (Behind.cons (by decide) s), String.ofList_toList]
  unfold Dialect.statement
  cases h with
  | @addColumn st sc t c ht hc =>
    have htext : "ALTER TABLE ".toList ++ st ++ " ADD COLUMN ".toList ++ sc ++ [';'] ++ rest =
      "ALTER".toList ++ ' ' ::
        ("TABLE".toList ++ ' ' ::
          (st ++ ' ' ::
            ("ADD".toList ++ ' ' :: ("COLUMN".toList ++ ' ' :: (sc ++ ';' :: rest))))) := by
      simp
    rw [htext, hstart _ (by decide), Option.bind_some]
    simp only [if_true, alter_read (k := "ADD") (by decide) rfl ht hc, Option.bind_some,
      mark_eq (c := ';') (by decide), Option.map_some]
  | @dropColumn st sc t c ht hc =>
    have htext : "ALTER TABLE ".toList ++ st ++ " DROP COLUMN ".toList ++ sc ++ [';'] ++ rest =
      "ALTER".toList ++ ' ' ::
        ("TABLE".toList ++ ' ' ::
          (st ++ ' ' ::
            ("DROP".toList ++ ' ' :: ("COLUMN".toList ++ ' ' :: (sc ++ ';' :: rest))))) := by
      simp
    rw [htext, hstart _ (by decide), Option.bind_some]
    simp only [if_true, alter_read (k := "DROP") (by decide) rfl ht hc, Option.bind_some,
      mark_eq (c := ';') (by decide), Option.map_some]
  | @renameColumn st sc sc' t c c' ht hc hc' =>
    have htext : "ALTER TABLE ".toList ++ st ++ " RENAME COLUMN ".toList ++ sc ++ " TO ".toList ++
      sc' ++ [';'] ++ rest =
        "ALTER".toList ++ ' ' ::
        ("TABLE".toList ++ ' ' ::
          (st ++ ' ' :: ("RENAME".toList ++ ' ' :: ("COLUMN".toList ++ ' ' ::
          (sc ++ ' ' :: ("TO".toList ++ ' ' :: (sc' ++ ';' :: rest))))))) := by
      simp
    rw [htext, hstart _ (by decide), Option.bind_some]
    simp only [if_true, rename_read ht hc hc', Option.bind_some, mark_eq (c := ';') (by decide),
      Option.map_some]
  | @insert st sns svs t ns vs ht hns hvs hns0 hvs0 =>
    have htext : "INSERT INTO ".toList ++ st ++ " (".toList ++ [',', ' '].intercalate sns ++
      ") VALUES (".toList ++
        [',', ' '].intercalate svs ++ ");".toList ++ rest = "INSERT".toList ++ ' ' ::
        ("INTO".toList ++ ' ' :: (st ++ ' ' :: '(' ::
          ([',', ' '].intercalate sns ++ ')' :: ' ' :: ("VALUES".toList ++ ' ' :: '(' ::
            ([',', ' '].intercalate svs ++ ')' :: ';' :: rest))))) := by
      simp
    have hinsert :
      d.insert
        (' ' ::
        ("INTO".toList ++ ' ' :: (st ++ ' ' :: '(' :: ([',', ' '].intercalate sns ++ ')' :: ' ' ::
        ("VALUES".toList ++ ' ' :: '(' :: ([',', ' '].intercalate svs ++ ')' :: ';' :: rest)))))) =
        some (⟨t, .insert ns vs⟩, ';' :: rest) := by
      unfold Dialect.insert
      rw [keyword_between (by decide), Option.bind_some, name_between ht ' ' (by decide),
        Option.bind_some, mark_blank,
        mark_eq (by decide), Option.bind_some, names_read hns hns0, Option.bind_some]
      simp only [mark_eq (c := ')') (by decide), Option.bind_some,
        keyword_between (w := "VALUES") (by decide), mark_blank,
        mark_eq (c := '(') (by decide), values_read hvs hvs0, Option.map_some]
    rw [htext, hstart _ (by decide), Option.bind_some]
    simp only [String.reduceEq, if_false, if_true, hinsert, Option.bind_some,
      mark_eq (c := ';') (by decide), Option.map_some]
  | @delete st scs t cs ht hcs hcs0 =>
    have htext :
      "DELETE FROM ".toList ++ st ++ " WHERE ".toList ++ " AND ".toList.intercalate scs ++ [';'] ++
      rest = "DELETE".toList ++
        ' ' :: ("FROM".toList ++ ' ' ::
          (st ++ ' ' ::
            ("WHERE".toList ++ ' ' :: (" AND ".toList.intercalate scs ++ ';' :: rest)))) := by
      simp
    have hdelete : d.delete (' ' :: ("FROM".toList ++ ' ' :: (st ++ ' ' :: ("WHERE".toList ++ ' ' ::
        (" AND ".toList.intercalate scs ++ ';' :: rest))))) =
        some (⟨t, .delete cs⟩, ';' :: rest) := by
      unfold Dialect.delete
      rw [keyword_between (by decide), Option.bind_some, name_between ht ' ' (by decide),
        Option.bind_some, keyword_between (by decide), Option.bind_some, conditions_read hcs hcs0]
      rfl
    rw [htext, hstart _ (by decide), Option.bind_some]
    simp only [String.reduceEq, if_false, if_true, hdelete, Option.bind_some,
      mark_eq (c := ';') (by decide), Option.map_some]
  | @update st svs scs t vs cs ht hvs hcs hvs0 hcs0 =>
    have htext : "UPDATE ".toList ++ st ++ " SET ".toList ++ [',', ' '].intercalate svs ++
      " WHERE ".toList ++
        " AND ".toList.intercalate scs ++ [';'] ++ rest = "UPDATE".toList ++ ' ' ::
        (st ++ ' ' :: ("SET".toList ++ ' ' ::
          ([',', ' '].intercalate svs ++ ' ' ::
            ("WHERE".toList ++ ' ' :: (" AND ".toList.intercalate scs ++ ';' :: rest))))) := by
      simp
    have hupdate :
      d.update
        (' ' ::
        (st ++ ' ' ::
          ("SET".toList ++ ' ' :: ([',', ' '].intercalate svs ++ ' ' :: ("WHERE".toList ++ ' ' ::
        (" AND ".toList.intercalate scs ++ ';' :: rest)))))) =
        some (⟨t, .update vs cs⟩, ';' :: rest) := by
      unfold Dialect.update
      rw [name_between ht ' ' (by decide), Option.bind_some, keyword_between (by decide),
        Option.bind_some, assignments_read hvs hvs0, Option.bind_some]
      simp only [keyword_between (w := "WHERE") (by decide), Option.bind_some,
        conditions_read hcs hcs0, Option.map_some]
    rw [htext, hstart _ (by decide), Option.bind_some]
    simp only [String.reduceEq, if_false, if_true, hupdate, Option.bind_some,
      mark_eq (c := ';') (by decide), Option.map_some]

/-! ## Scripts -/

/-- The text is read as these statements. -/
def Dialect.Tells (d : Dialect) (s : List Char) (sts : List (Statement String String)) : Prop :=
  ∀ fuel, s.length ≤ fuel → d.statements fuel s = some sts

theorem statements_newline (fuel : Nat) (s : List Char) :
    d.statements fuel ('\n' :: s) = d.statements fuel s := by
  cases fuel with
  | zero => rfl
  | succ fuel => rfl

theorem Dialect.Tells.nil : d.Tells [] [] := by
  intro fuel _
  cases fuel with
  | zero => rfl
  | succ fuel => rfl

/-- A statement on a line of its own, and the others behind it. -/
theorem Dialect.Tells.cons {st : Statement String String} {sts : List (Statement String String)}
    {rest : List Char}
    (h : d.Written s st) (hrest : d.Tells rest sts) : d.Tells (s ++ '\n' :: rest) (st :: sts) := by
  intro fuel hfuel
  obtain ⟨fuel, rfl⟩ : ∃ k, fuel = k + 1 := by
    refine ⟨fuel - 1, ?_⟩
    rw [List.length_append, List.length_cons] at hfuel
    omega
  have hskip : skip (s ++ '\n' :: rest) ≠ [] := by
    intro hskip
    have hread := h.read ('\n' :: rest)
    have hword : word (s ++ '\n' :: rest) = none := by
      unfold word
      rw [hskip]
    unfold Dialect.statement at hread
    rw [hword] at hread
    cases hread
  rw [Dialect.statements, if_neg hskip, h.read, Option.bind_some, statements_newline, hrest fuel]
  · rfl
  · rw [List.length_append, List.length_cons] at hfuel
    omega

theorem Dialect.Tells.script_eq {sts : List (Statement String String)} (h : d.Tells s sts) :
    d.script s = some sts := h _ (Nat.le_refl _)

end

end Sql

end Coopy.Lib
