import Coopy.Lib.Cutting
import Mathlib.Data.List.DropRight

/-!
# `SqliteSchema`: the text of a table taken apart

Column changes take the text of `CREATE TABLE` apart, change the list of its parts, and put it
together again.  The loop has flags for quotes, but nothing raises them: what counts is every comma,
and every parenthesis.

    one part for each definition, and the same parts read again
      ↔ no comma in the name and the definitions; parentheses, those in quotes too,
        are balanced in the definitions and
        the wrong way round in the name; no two spaces at the start of the list         (splits_iff)
-/

namespace Coopy

open Lib

/-- The texts are C strings. -/
structure SqliteSchema where
  preamble : List Char
  parts : List (List Char)
deriving DecidableEq, Repr

namespace SqliteSchema

/-- The state of the loop in `parse`. -/
structure ParseState where
  doubleQuote : Bool := false
  singleQuote : Bool := false
  token : List Char := []
  nesting : Int := 0
  preamble : List Char := []
  parts : List (List Char) := []

def nest (nesting : Int) (ch : Char) : Int :=
  if ch = '(' then nesting + 1 else if ch = ')' then nesting - 1 else nesting

/-- `brk`, from the nesting in front of the character. -/
def brk (nesting : Int) (ch : Char) : Bool :=
  (ch == '(' && nest nesting ch == 1) || (ch == ')' && nest nesting ch == 0) || ch == ','

/-- One leading space of a token is left out. -/
def dropSpace (token : List Char) : List Char := if token.head? = some ' ' then token.drop 1
    else token

/-- A token: the first that is not empty is the preamble. -/
def push (found : List Char × List (List Char)) (token : List Char) :
    List Char × List (List Char) :=
  if found.1 = [] then (dropSpace token, found.2) else (found.1, found.2 ++ [dropSpace token])

def ParseState.step (s : ParseState) (ch : Char) : ParseState :=
  if s.doubleQuote || s.singleQuote then
    { s with
      doubleQuote := s.doubleQuote && ch != '"'
      singleQuote := s.singleQuote && ch != '\''
      token := s.token ++ [ch] }
  else if brk s.nesting ch then
    { s with
      nesting := nest s.nesting ch
      preamble := (push (s.preamble, s.parts) s.token).1
      parts := (push (s.preamble, s.parts) s.token).2
      token := [] }
  else { s with nesting := nest s.nesting ch, token := s.token ++ [ch] }

def parse (sql : List Char) : SqliteSchema :=
  let s := sql.foldl ParseState.step {}
  ⟨s.preamble, s.parts⟩

def toString (schema : SqliteSchema) : List Char :=
  schema.preamble ++ "(".toList ++ ", ".toList.intercalate schema.parts ++ ")".toList

/-! ## Texts of tables -/

/-- Where a reader of SQL is: outside of quotes, within so many parentheses, or within quotes that a
character closes.  A doubled quote closes and opens again. -/
inductive Place
  | outside (depth : Nat)
  | within (closing : Char) (depth : Nat)
deriving DecidableEq, Repr

/-- The next place; `none` where an item of the list would end. -/
def Place.next : Place → Char → Option Place
  | outside depth, c =>
    if c = '\'' ∨ c = '"' ∨ c = '`' then some (within c depth)
    else if c = '[' then some (within ']' depth)
    else if c = '(' then some (outside (depth + 1))
    else if c = ')' then if depth = 0 then none else some (outside (depth - 1))
    else if c = ',' ∧ depth = 0 then none
    else some (outside depth)
  | within closing depth, c => some (if c = closing then outside depth else within closing depth)

/-- One item of the text. -/
def whole (item : List Char) : Bool := item.foldlM Place.next (.outside 0) = some (.outside 0)

/-- The text of a table as the database keeps it: what stands in front of the list, and the
definitions with the blanks around them. -/
structure TableText where
  name : List Char
  defs : List (List Char)
  name_whole : whole name = true
  defs_whole : ∀ d ∈ defs, whole d = true
  nonempty : defs ≠ []

namespace TableText

def head (t : TableText) : List Char := "CREATE TABLE ".toList ++ t.name

def text (t : TableText) : List Char := t.head ++ '(' :: joined ',' ')' t.defs

end TableText

def isBlank (c : Char) : Bool := c == ' ' || c == '\t' || c == '\n' || c == '\r' || c == '\x0c'

/-- A text without the blanks around it. -/
def strip (x : List Char) : List Char := (x.dropWhile isBlank).rdropWhile isBlank

/-- The text falls into its definitions, and the text that is made of them into the same parts. -/
structure Splits (t : TableText) : Prop where
  preamble : strip (parse t.text).preamble = strip t.head
  parts : (parse t.text).parts.map strip = t.defs.map strip
  again : (parse (parse t.text).toString).parts = (parse t.text).parts

/-- The parentheses of a text, those in quotes too, are balanced: in front of each place `op` has
come as often as `cl`, or more often. -/
structure Balanced (op cl : Char) (x : List Char) : Prop where
  prefixes : ∀ y, y <+: x → y.count cl ≤ y.count op
  total : x.count cl = x.count op

/-- What `parse` needs of a text. -/
structure Plain (t : TableText) : Prop where
  name_commas : ',' ∉ t.name
  name : Balanced ')' '(' t.name
  commas : ∀ d ∈ t.defs, ',' ∉ d
  defs : Balanced '(' ')' t.defs.flatten
  start : ∀ d, t.defs.head? = some d → ¬ "  ".toList <+: d

/-! ## The loop -/

theorem foldl_step (x : List Char) : ∀ s : ParseState, s.doubleQuote = false →
    s.singleQuote = false →
    ((x.foldl ParseState.step s).preamble, (x.foldl ParseState.step s).parts) =
      (cuts nest brk s.nesting s.token x).foldl push (s.preamble, s.parts) := by
  induction x with
  | nil => exact fun s _ _ => rfl
  | cons c x ih =>
    intro s hd hs
    rw [List.foldl_cons, cuts]
    unfold ParseState.step
    rw [hd, hs, Bool.or_false, if_neg Bool.false_ne_true]
    split
    · exact ih _ rfl rfl
    · exact ih _ rfl rfl

theorem parse_eq (x : List Char) :
    parse x = ⟨((cuts nest brk 0 [] x).foldl push ([], [])).1,
      ((cuts nest brk 0 [] x).foldl push ([], [])).2⟩ := by
  have h := foldl_step x {} rfl rfl
  unfold parse
  rw [← h]

theorem foldl_push {preamble : List Char} (h : preamble ≠ []) (tokens : List (List Char)) :
    ∀ parts : List (List Char),
    tokens.foldl push (preamble, parts) = (preamble, parts ++ tokens.map dropSpace) := by
  induction tokens with
  | nil =>
    intro parts
    rw [List.map_nil, List.append_nil]
    rfl
  | cons token tokens ih =>
    intro parts
    rw [List.foldl_cons, push, if_neg h, ih, List.map_cons, List.append_assoc]
    rfl

theorem head_eq (t : TableText) : t.head = 'C' :: ("REATE TABLE ".toList ++ t.name) := by
  have hletter : "CREATE TABLE ".toList = 'C' :: "REATE TABLE ".toList := by decide
  unfold TableText.head
  rw [hletter, List.cons_append]

/-- The first token, with a letter at its start, is the preamble. -/
theorem parse_of_cuts {x token : List Char} {tokens : List (List Char)}
    (h : cuts nest brk 0 [] x = ('C' :: token) :: tokens) :
    parse x = ⟨'C' :: token, tokens.map dropSpace⟩ := by
  have hpush : push ([], []) ('C' :: token) = ('C' :: token, []) := rfl
  rw [parse_eq, h, List.foldl_cons, hpush, foldl_push (by simp)]
  rfl

theorem parse_text (t : TableText) (h : quiet nest brk 0 t.head = some 0)
    (hdefs : quiet nest brk 1 t.defs.flatten = some 1) :
    parse t.text = ⟨t.head, t.defs.map dropSpace⟩ := by
  have hcuts : cuts nest brk 0 [] t.text = t.head :: t.defs := by
    unfold TableText.text
    rw [cuts_of_quiet _ _ _ h, cuts, if_pos (by decide)]
    exact congrArg _ (cuts_joined (fun k => ⟨by simp [brk], by simp [nest]⟩) t.defs t.nonempty hdefs
      (by decide))
  rw [head_eq] at hcuts
  rw [parse_of_cuts hcuts, head_eq]

/-! ## Without the blanks -/

theorem filter_strip (x : List Char) : (strip x).filter (!isBlank ·) = x.filter (!isBlank ·) := by
  have hfront :
    ∀ y : List Char, (y.dropWhile isBlank).filter (!isBlank ·) = y.filter (!isBlank ·) := by
    intro y
    induction y with
    | nil => rfl
    | cons c y ih =>
      rw [List.dropWhile_cons]
      split
      · rename_i hc
        rw [ih, List.filter_cons_of_neg (by simp [hc])]
      · rfl
  unfold strip List.rdropWhile
  rw [List.filter_reverse, hfront, ← List.filter_reverse, List.reverse_reverse, hfront]

theorem countP_of_strip (x y : List Char) (h : strip x = strip y) :
    x.countP (!isBlank ·) = y.countP (!isBlank ·) := by
  rw [List.countP_eq_length_filter, List.countP_eq_length_filter, ← filter_strip, h, filter_strip]

theorem strip_dropSpace (x : List Char) : strip (dropSpace x) = strip x := by
  unfold dropSpace
  cases x with
  | nil => rfl
  | cons c x =>
    split
    · rename_i hc
      obtain rfl : c = ' ' := Option.some.inj hc
      rfl
    · rfl

theorem not_isBlank_of_brk (k : Int) (c : Char) (h : brk k c = true) : (!isBlank c) = true := by
  unfold brk at h
  simp only [Bool.or_eq_true, Bool.and_eq_true, beq_iff_eq] at h
  rcases h with (⟨rfl, -⟩ | ⟨rfl, -⟩) | rfl
  · rfl
  · rfl
  · rfl

/-- The text falls into its definitions where the loop is quiet within them. -/
theorem parts_iff (t : TableText) :
    (strip (parse t.text).preamble = strip t.head ∧
      (parse t.text).parts.map strip = t.defs.map strip) ↔
      quiet nest brk 0 t.head = some 0 ∧ quiet nest brk 1 t.defs.flatten = some 1 := by
  constructor
  · rintro ⟨hpreamble, hparts⟩
    cases hcuts : cuts nest brk 0 [] t.text with
    | nil =>
      rw [parse_eq, hcuts] at hparts
      exact absurd (List.map_eq_nil_iff.1 hparts.symm) t.nonempty
    | cons s rest =>
      -- the first token is not empty, for the text starts with a letter
      obtain ⟨m, hm⟩ : ∃ m, s = 'C' :: m := by
        obtain ⟨m, b, y, k', htext, hs, -, hb, -⟩ := cuts_eq_cons _ hcuts
        unfold TableText.text at htext
        rw [head_eq, List.cons_append] at htext
        cases m with
        | nil =>
          obtain rfl : 'C' = b := (List.cons.inj htext).1
          exact absurd hb (by simp [brk])
        | cons c m =>
          obtain rfl : 'C' = c := (List.cons.inj htext).1
          exact ⟨m, hs⟩
      rw [hm] at hcuts
      rw [parse_of_cuts hcuts] at hpreamble hparts
      obtain ⟨k', hhead, hopen, -, hrest⟩ :=
        cuts_first countP_of_strip not_isBlank_of_brk (by decide) hcuts hpreamble
      obtain rfl : k' = 0 := by
        simp only [brk, nest, beq_iff_eq, if_true, Bool.or_eq_true, Bool.and_eq_true] at hopen
        rcases hopen with (⟨-, hk⟩ | ⟨hc, -⟩) | hc
        · omega
        · cases hc
        · cases hc
      have hstrip : rest.map strip = t.defs.map strip := by
        rw [← hparts, List.map_map]
        exact (List.map_congr_left fun d _ => (strip_dropSpace d).symm)
      rw [hrest] at hstrip
      obtain ⟨k'', hdefs, hclose⟩ := (cuts_joined_iff countP_of_strip not_isBlank_of_brk
        (fun k => ⟨by simp [brk], by simp [nest]⟩) (by decide) t.defs t.nonempty _).1 hstrip
      obtain rfl : k'' = 1 := by
        simp only [brk, nest, beq_iff_eq, if_true, Bool.or_eq_true, Bool.and_eq_true] at hclose
        rcases hclose with (⟨hc, -⟩ | ⟨-, hk⟩) | hc
        · cases hc
        · have hne : ¬ ')' = '(' := by decide
          rw [if_neg hne] at hk
          omega
        · cases hc
      exact ⟨hhead, hdefs⟩
  · rintro ⟨hhead, hdefs⟩
    rw [parse_text t hhead hdefs, List.map_map]
    exact ⟨rfl, List.map_congr_left fun d _ => strip_dropSpace d⟩

/-! ## The text made of the parts -/

/-- The parts as they stand in the text that is made of them: a space in front of each but the
first. -/
def respaced : List (List Char) → List (List Char)
  | [] => []
  | part :: parts => part :: parts.map (' ' :: ·)

theorem dropSpace_space (x : List Char) : dropSpace (' ' :: x) = x := if_pos rfl

theorem intercalate_cons (parts : List (List Char)) : ∀ part : List Char,
    ", ".toList.intercalate (part :: parts) ++ ")".toList =
    joined ',' ')' (part :: parts.map (' ' :: ·)) := by
  induction parts with
  | nil =>
    intro part
    rw [List.intercalate_singleton]
    rfl
  | cons part' parts ih =>
    intro part
    have hnext : joined ',' ')' ((' ' :: part') :: parts.map (' ' :: ·)) =
        ' ' :: joined ',' ')' (part' :: parts.map (' ' :: ·)) := by
      cases parts with
      | nil => rfl
      | cons part'' parts => rfl
    rw [List.intercalate_cons_cons, List.append_assoc, List.append_assoc, ih part', List.map_cons,
      joined.eq_3 _ _ _ _ (List.cons_ne_nil _ _), hnext]
    rfl

theorem quiet_space (k : Int) (x : List Char) :
    quiet nest brk k (' ' :: x) = quiet nest brk k x := by
  rw [quiet, if_neg (by simp [brk])]
  rfl

theorem quiet_dropSpace (k : Int) (x y : List Char) :
    quiet nest brk k (dropSpace x ++ y) = quiet nest brk k (x ++ y) := by
  unfold dropSpace
  cases x with
  | nil => rfl
  | cons c x =>
    split
    · rename_i hc
      obtain rfl : c = ' ' := Option.some.inj hc
      exact (quiet_space k (x ++ y)).symm
    · rfl

theorem quiet_flatten_dropSpace (ds : List (List Char)) : ∀ k : Int,
    quiet nest brk k (ds.map dropSpace).flatten = quiet nest brk k ds.flatten := by
  induction ds with
  | nil => exact fun k => rfl
  | cons d ds ih =>
    intro k
    rw [List.map_cons, List.flatten_cons, List.flatten_cons, quiet_dropSpace,
      quiet_append, quiet_append]
    exact congrArg _ (funext ih)

theorem quiet_flatten_spaced (ds : List (List Char)) : ∀ k : Int,
    quiet nest brk k (ds.map (' ' :: ·)).flatten = quiet nest brk k ds.flatten := by
  induction ds with
  | nil => exact fun k => rfl
  | cons d ds ih =>
    intro k
    rw [List.map_cons, List.flatten_cons, List.flatten_cons, List.cons_append, quiet_space,
      quiet_append, quiet_append]
    exact congrArg _ (funext ih)

theorem quiet_flatten_respaced (ds : List (List Char)) (k : Int) :
    quiet nest brk k (respaced (ds.map dropSpace)).flatten = quiet nest brk k ds.flatten := by
  cases ds with
  | nil => rfl
  | cons d ds =>
    rw [← quiet_flatten_dropSpace (d :: ds), List.map_cons]
    show quiet nest brk k (dropSpace d ++ ((ds.map dropSpace).map (' ' :: ·)).flatten) = _
    rw [List.flatten_cons, quiet_append, quiet_append]
    exact congrArg _ (funext (quiet_flatten_spaced (ds.map dropSpace)))

/-- A space is left out once more where there were two. -/
theorem dropSpace_dropSpace_iff (d : List Char) : dropSpace (dropSpace d) = dropSpace d ↔
    ¬ "  ".toList <+: d := by
  have hspaces : "  ".toList = [' ', ' '] := by decide
  rw [hspaces]
  have hone : ∀ x : List Char, dropSpace x = x ↔ x.head? ≠ some ' ' := by
    intro x
    unfold dropSpace
    cases x with
    | nil => simp
    | cons c x =>
      by_cases hc : c = ' '
      · subst hc
        exact iff_of_false (fun h => by simpa using congrArg List.length h) (by simp)
      · simp [hc]
  rw [hone]
  cases d with
  | nil => simp [dropSpace]
  | cons c d =>
    by_cases hc : c = ' '
    · subst hc
      rw [dropSpace_space, List.cons_prefix_cons]
      cases d with
      | nil => simp
      | cons c d => simp [List.cons_prefix_cons, eq_comm]
    · have hdrop : dropSpace (c :: d) = c :: d := if_neg (by simpa using hc)
      rw [hdrop, List.cons_prefix_cons]
      simp [hc, eq_comm]

/-- The text that is made of the parts falls into them, but for a second space at the start. -/
theorem again_iff (t : TableText) (h : quiet nest brk 0 t.head = some 0)
    (hdefs : quiet nest brk 1 t.defs.flatten = some 1) :
    (parse (parse t.text).toString).parts = (parse t.text).parts ↔ ∀ d, t.defs.head? = some d →
    ¬ "  ".toList <+: d := by
  have hrespaced : respaced (t.defs.map dropSpace) ≠ [] := by
    cases hd : t.defs with
    | nil => exact absurd hd t.nonempty
    | cons d ds => exact List.cons_ne_nil _ _
  have htext :
    (parse t.text).toString = t.head ++ '(' ::
    joined ',' ')' (respaced (t.defs.map dropSpace)) := by
    rw [parse_text t h hdefs]
    unfold toString
    cases hd : t.defs with
    | nil => exact absurd hd t.nonempty
    | cons d ds =>
      rw [List.append_assoc, List.append_assoc, List.map_cons, intercalate_cons]
      rfl
  have hcuts :
    cuts nest brk 0 [] (parse t.text).toString = t.head :: respaced (t.defs.map dropSpace) := by
    rw [htext, cuts_of_quiet _ _ _ h, cuts, if_pos (by decide)]
    exact congrArg _ (cuts_joined (fun k => ⟨by simp [brk], by simp [nest]⟩) _ hrespaced
      ((quiet_flatten_respaced t.defs 1).trans hdefs) (by decide))
  rw [head_eq] at hcuts
  rw [parse_of_cuts hcuts, parse_text t h hdefs]
  cases hd : t.defs with
  | nil => exact absurd hd t.nonempty
  | cons d ds =>
    have hrest : ((ds.map dropSpace).map (' ' :: ·)).map dropSpace = ds.map dropSpace := by
      rw [List.map_map]
      exact (List.map_congr_left fun x _ => dropSpace_space x).trans (List.map_id _)
    show dropSpace (dropSpace d) :: ((ds.map dropSpace).map (' ' :: ·)).map dropSpace =
      dropSpace d :: ds.map dropSpace ↔ _
    rw [hrest, List.cons.injEq, dropSpace_dropSpace_iff]
    simp

/-! ## Counting parentheses -/

/-- The loop is quiet if there is no comma and the nesting stays on its side of zero. -/
theorem quiet_iff (x : List Char) : ∀ k m : Int, quiet nest brk k x = some m ↔
    ',' ∉ x ∧ (∀ y, y <+: x → (0 < k + y.count '(' - y.count ')' ↔ 0 < k)) ∧
    m = k + x.count '(' - x.count ')' := by
  induction x with
  | nil =>
    intro k m
    constructor
    · intro h
      obtain rfl := Option.some.inj h
      refine ⟨List.not_mem_nil, fun y hy => ?_, by simp⟩
      rw [List.prefix_nil.1 hy]
      simp
    · rintro ⟨-, -, rfl⟩
      simp [quiet]
  | cons c x ih =>
    intro k m
    have hcount : ∀ y : List Char, nest k c + y.count '(' - y.count ')' = k + (c :: y).count '(' -
      (c :: y).count ')' := by
      intro y
      unfold nest
      by_cases hopen : c = '('
      · subst hopen
        simp
        omega
      · by_cases hclose : c = ')'
        · subst hclose
          simp
          omega
        · simp [hopen, hclose]
    have hbrk : brk k c = false ↔ c ≠ ',' ∧ (0 < nest k c ↔ 0 < k) := by
      unfold brk nest
      by_cases hopen : c = '('
      · subst hopen
        simp
        omega
      · by_cases hclose : c = ')'
        · subst hclose
          simp
          omega
        · simp [hopen, hclose]
    have hlast : (∀ y, y <+: c :: x → (0 < k + y.count '(' - y.count ')' ↔ 0 < k)) ↔
        (0 < nest k c ↔ 0 < k) ∧ ∀ y, y <+: x →
        (0 < nest k c + y.count '(' - y.count ')' ↔ 0 < k) := by
      constructor
      · intro h
        refine ⟨?_, fun y hy => ?_⟩
        · have hnil := hcount []
          rw [List.count_nil, List.count_nil] at hnil
          rw [← h [c] (List.prefix_append [c] x), ← hnil]
          simp
        · rw [hcount, h (c :: y) (List.cons_prefix_cons.2 ⟨rfl, hy⟩)]
      · rintro ⟨-, h⟩ y hy
        cases y with
        | nil => simp
        | cons c' y =>
          obtain ⟨rfl, hrest⟩ := List.cons_prefix_cons.1 hy
          rw [← hcount, h y hrest]
    rw [quiet, hlast, ← hcount, List.mem_cons, not_or]
    by_cases hb : brk k c = true
    · rw [if_pos hb]
      refine iff_of_false (by simp) ?_
      rintro ⟨⟨hcomma, -⟩, ⟨hside, -⟩, -⟩
      rw [hbrk.2 ⟨fun he => hcomma he.symm, hside⟩] at hb
      cases hb
    · obtain ⟨hcomma, hside⟩ := hbrk.1 (by simpa using hb)
      rw [if_neg hb, ih, hside]
      constructor
      · rintro ⟨hx, hsides, hm⟩
        exact ⟨⟨fun he => hcomma he.symm, hx⟩, ⟨Iff.rfl, hsides⟩, hm⟩
      · rintro ⟨⟨-, hx⟩, ⟨-, hsides⟩, hm⟩
        exact ⟨hx, hsides, hm⟩

/-- Outside of the list a parenthesis is closed before it is opened. -/
theorem quiet_zero_iff (x : List Char) : quiet nest brk 0 x = some 0 ↔ ',' ∉ x ∧
    Balanced ')' '(' x := by
  rw [quiet_iff]
  constructor
  · rintro ⟨hcomma, hsides, htotal⟩
    refine ⟨hcomma, fun y hy => ?_, ?_⟩
    · have hside := hsides y hy
      omega
    · omega
  · rintro ⟨hcomma, hprefixes, htotal⟩
    refine ⟨hcomma, fun y hy => ?_, ?_⟩
    · have hle := hprefixes y hy
      omega
    · omega

/-- Within the list it is opened before it is closed. -/
theorem quiet_one_iff (x : List Char) : quiet nest brk 1 x = some 1 ↔ ',' ∉ x ∧
    Balanced '(' ')' x := by
  rw [quiet_iff]
  constructor
  · rintro ⟨hcomma, hsides, htotal⟩
    refine ⟨hcomma, fun y hy => ?_, ?_⟩
    · have hside := hsides y hy
      omega
    · omega
  · rintro ⟨hcomma, hprefixes, htotal⟩
    refine ⟨hcomma, fun y hy => ?_, ?_⟩
    · have hle := hprefixes y hy
      omega
    · omega

theorem quiet_head (t : TableText) : quiet nest brk 0 t.head = quiet nest brk 0 t.name := by
  have hwords : quiet nest brk 0 "CREATE TABLE ".toList = some 0 := by decide
  unfold TableText.head
  rw [quiet_append, hwords]
  rfl

/-- **The parts are the definitions**, and come back, exactly where no comma and no parenthesis is
in the way. -/
theorem splits_iff (t : TableText) : Splits t ↔ Plain t := by
  have hparts := parts_iff t
  rw [quiet_head, quiet_zero_iff, quiet_one_iff, List.mem_flatten] at hparts
  have hagain : quiet nest brk 0 t.head = some 0 ↔ ',' ∉ t.name ∧ Balanced ')' '(' t.name := by
    rw [quiet_head, quiet_zero_iff]
  constructor
  · rintro ⟨hpreamble, hdefs, hstart⟩
    obtain ⟨⟨hcomma, hname⟩, hcommas, hbalanced⟩ := hparts.1 ⟨hpreamble, hdefs⟩
    refine ⟨hcomma, hname, fun d hd hc => hcommas ⟨d, hd, hc⟩, hbalanced, ?_⟩
    rwa [again_iff t (hagain.2 ⟨hcomma, hname⟩)
      ((quiet_one_iff _).2 ⟨by rwa [List.mem_flatten], hbalanced⟩)] at hstart
  · rintro ⟨hcomma, hname, hcommas, hbalanced, hstart⟩
    have hnone : ¬ ∃ d, d ∈ t.defs ∧ ',' ∈ d := by
      rintro ⟨d, hd, hc⟩
      exact hcommas d hd hc
    obtain ⟨hpreamble, hdefs⟩ := hparts.2 ⟨⟨hcomma, hname⟩, hnone, hbalanced⟩
    refine ⟨hpreamble, hdefs, ?_⟩
    rwa [again_iff t (hagain.2 ⟨hcomma, hname⟩)
      ((quiet_one_iff _).2 ⟨by rwa [List.mem_flatten], hbalanced⟩)]

/-- The comma between the digits of a number is taken for one between columns. -/
def decimalTable : TableText where
  name := "t ".toList
  defs := ["a DECIMAL(10,2)".toList, " b".toList]
  name_whole := by decide
  defs_whole := by decide
  nonempty := by decide

theorem not_splits : ¬ ∀ t : TableText, Splits t := by
  intro h
  have hparts := (h decimalTable).parts
  exact absurd hparts (by decide)

end SqliteSchema

end Coopy
