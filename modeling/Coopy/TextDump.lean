import Coopy.SqlQuoting
import Coopy.SqliteSheet

/-!
# The text dump of a database

A row is written as an `INSERT` statement.  Texts and the name of the table are quoted; an integer
goes through an `int` of the program, and comes back if it fits:

    a literal is read as the value ↔ the value is no integer, or one of 32 bits
    the statement is read as the table and the row ↔ all integers of the row have 32 bits
                                                                                          (dump_iff)
-/

namespace Coopy

open Lib

namespace TextDump

/-- A value of the database.  What SQLite gives as the text of a float or a blob is taken as it
is. -/
inductive SqlValue
  | null
  | integer (i : Int)
  | float (shown : List Char)
  | text (t : List Char)
  | blob (shown : List Char)
deriving DecidableEq, Repr

/-- `%d`. -/
def stringerEncoder (x : Int) : List Char := x.repr.toList

/-- What is written for a value: an integer comes by `sqlite3_column_int`, a text as a C string. -/
def literal : SqlValue → List Char
  | .null => "NULL".toList
  | .integer i => stringerEncoder (SqliteSheet.toInt i)
  | .float shown => cString shown
  | .text t => Tdiff.quoteSql (cString t) '\'' true
  | .blob shown => Tdiff.quoteSql (cString shown) '\'' true

def insertLine (name : List Char) (row : List SqlValue) : List Char :=
  "INSERT INTO ".toList ++ Tdiff.quoteSql (cString name) '"' true ++ " VALUES(".toList ++
    ",".toList.intercalate (row.map literal) ++ ");".toList

/-! ## How SQLite reads it -/

def expect (p s : List Char) : Option (List Char) :=
  if p.isPrefixOf s then some (s.drop p.length) else none

/-- The digits of a number, and what stands behind them. -/
def readDigits (s : List Char) : Option (Nat × List Char) :=
  let digits := s.takeWhile Char.isDigit
  if digits = [] then none else some (Nat.ofDigitChars 10 digits 0, s.dropWhile Char.isDigit)

/-- A literal at the start of a text: NULL, a quoted text, or an integer of 64 bits. -/
def evalLiteral : List Char → Option (SqlValue × List Char)
  | [] => none
  | c :: s =>
    if c = 'N' then (expect "ULL".toList s).map fun rest => (.null, rest)
    else if c = '\'' then (readQuoted '\'' s).map fun r => (.text r.1, r.2)
    else if c = '-' then (readDigits s).bind fun r =>
      if r.1 ≤ 2 ^ 63 then some (.integer (-r.1), r.2) else none
    else (readDigits (c :: s)).bind fun r => if r.1 < 2 ^ 63 then some (.integer r.1, r.2) else none

/-- Literals up to the end of the statement; the count bounds how many. -/
def evalRow : Nat → List Char → Option (List SqlValue)
  | 0, _ => none
  | n + 1, s => (evalLiteral s).bind fun r =>
    if r.2 = ");".toList then some [r.1] else (expect ",".toList r.2).bind fun rest =>
      (evalRow n rest).map (r.1 :: ·)

/-- A quoted name at the start of a text. -/
def evalName (s : List Char) : Option (List Char × List Char) :=
  (expect "\"".toList s).bind (readQuoted '"')

/-- The table and the row of an `INSERT` statement. -/
def evalInsert (s : List Char) : Option (List Char × List SqlValue) :=
  (expect "INSERT INTO ".toList s).bind fun s => (evalName s).bind fun name =>
    (expect " VALUES(".toList name.2).bind fun s =>
      (evalRow s.length s).map fun row => (name.1, row)

/-! ## What a table holds -/

/-- NULL, an integer of 64 bits, or a text without NUL. -/
def Plain : SqlValue → Prop
  | .null => True
  | .integer i => -2 ^ 63 ≤ i ∧ i < 2 ^ 63
  | .text t => '\x00' ∉ t
  | .float _ => False
  | .blob _ => False

structure PlainValue where
  value : SqlValue
  plain : Plain value

structure TableName where
  name : List Char
  plain : '\x00' ∉ name

structure PlainRow where
  row : List SqlValue
  plain : ∀ v ∈ row, Plain v
  nonempty : row ≠ []

/-- What can stand behind a literal in the statement. -/
structure Behind where
  rest : List Char
  mark : ∃ s, rest = ',' :: s ∨ rest = ')' :: s

/-- An integer that the program's `int` can hold. -/
def Fits : SqlValue → Prop
  | .integer i => -2 ^ 31 ≤ i ∧ i < 2 ^ 31
  | _ => True

/-! ## Literals -/

/-- The value that is written: an integer has lost all but 32 bits. -/
def narrow : SqlValue → SqlValue
  | .integer i => .integer (SqliteSheet.toInt i)
  | v => v

theorem expect_append (p s : List Char) : expect p (p ++ s) = some s := by
  unfold expect
  rw [if_pos (List.isPrefixOf_iff_prefix.2 (List.prefix_append p s)), List.drop_left]

theorem quoteSql_always (d : Tdiff.Delimiter) (hd : d ≠ .bracket) (x : List Char) :
    Tdiff.quoteSql x d.opening true = d.opening :: (doubleMark d.closing x ++ [d.closing]) := by
  rw [Tdiff.quoteSql_eq, Bool.true_or, if_pos rfl, (Tdiff.body_eq_iff d x).2 fun hb => absurd hb hd]
  rfl

theorem quoteSql_single (x : List Char) :
    Tdiff.quoteSql x '\'' true = '\'' :: (doubleMark '\'' x ++ ['\'']) :=
  quoteSql_always .single (by decide) x

theorem quoteSql_double (x : List Char) :
    Tdiff.quoteSql x '"' true = '"' :: (doubleMark '"' x ++ ['"']) :=
  quoteSql_always .double (by decide) x

theorem readDigits_toDigits (n : Nat) {rest : List Char} (h : ∀ c ∈ rest.head?, c.isDigit = false) :
    readDigits (Nat.toDigits 10 n ++ rest) = some (n, rest) := by
  have hdigits : ∀ c ∈ Nat.toDigits 10 n, c.isDigit = true :=
    fun c hc => Nat.isDigit_of_mem_toDigits (by decide) (by decide) hc
  have hrest : rest.takeWhile Char.isDigit = [] ∧ rest.dropWhile Char.isDigit = rest := by
    cases rest with
    | nil => exact ⟨rfl, rfl⟩
    | cons c rest =>
      have hc : ¬ c.isDigit = true := by simp [h c rfl]
      exact ⟨List.takeWhile_cons_of_neg hc, List.dropWhile_cons_of_neg hc⟩
  have htake : (Nat.toDigits 10 n ++ rest).takeWhile Char.isDigit = Nat.toDigits 10 n := by
    rw [List.takeWhile_append_of_pos hdigits, hrest.1, List.append_nil]
  unfold readDigits
  simp only [htake, List.dropWhile_append_of_pos hdigits, hrest.2, if_neg Nat.toDigits_ne_nil,
    Nat.ofDigitChars_ten_toDigits]

/-- Behind a literal stands nothing that could belong to it. -/
theorem Behind.head (b : Behind) : ∀ c ∈ b.rest.head?, c.isDigit = false ∧ c ≠ '\'' := by
  obtain ⟨rest, s, rfl | rfl⟩ := b
  · rintro c ⟨⟩
    decide
  · rintro c ⟨⟩
    decide

theorem evalLiteral_digits {n : Nat} (hn : n < 2 ^ 63) {rest : List Char}
    (h : ∀ c ∈ rest.head?, c.isDigit = false) :
    evalLiteral (Nat.toDigits 10 n ++ rest) = some (.integer n, rest) := by
  have hread := readDigits_toDigits n h
  obtain ⟨c, cs, hcs⟩ := List.exists_cons_of_ne_nil (Nat.toDigits_ne_nil (n := n) (b := 10))
  have hc : c.isDigit = true :=
    Nat.isDigit_of_mem_toDigits (by decide) (by decide) (hcs ▸ List.mem_cons_self)
  rw [hcs, List.cons_append] at hread ⊢
  have hother : c ≠ 'N' ∧ c ≠ '\'' ∧ c ≠ '-' := by
    refine ⟨?_, ?_, ?_⟩ <;> rintro rfl <;> cases hc
  rw [evalLiteral, if_neg hother.1, if_neg hother.2.1, if_neg hother.2.2, hread]
  exact if_pos hn

theorem toInt_range (i : Int) : -2 ^ 31 ≤ SqliteSheet.toInt i ∧ SqliteSheet.toInt i < 2 ^ 31 := by
  unfold SqliteSheet.toInt
  have hle := Int.le_bmod (x := i) (m := 2 ^ 32) (by decide)
  have hlt := Int.bmod_lt (x := i) (m := 2 ^ 32) (by decide)
  omega

theorem evalLiteral_integer {m : Int} (hm : -2 ^ 31 ≤ m ∧ m < 2 ^ 31) {rest : List Char}
    (h : ∀ c ∈ rest.head?, c.isDigit = false) :
    evalLiteral (stringerEncoder m ++ rest) = some (.integer m, rest) := by
  unfold stringerEncoder
  cases m with
  | ofNat n =>
    have htext : (Int.ofNat n).repr.toList = Nat.toDigits 10 n := by
      show n.repr.toList = _
      rw [Nat.repr_eq_ofList_toDigits, String.toList_ofList]
    have hn : (n : Int) < 2 ^ 31 := hm.2
    rw [htext, evalLiteral_digits (by omega) h]
    rfl
  | negSucc n =>
    have htext : (Int.negSucc n).repr.toList = '-' :: Nat.toDigits 10 (n + 1) := by
      show ("-" ++ (n + 1).repr).toList = _
      rw [String.toList_append, Nat.repr_eq_ofList_toDigits]
      exact congrArg ("-".toList ++ ·) String.toList_ofList
    rw [htext, List.cons_append, evalLiteral, if_neg (by decide), if_neg (by decide), if_pos rfl,
      readDigits_toDigits _ h]
    have hfits : n + 1 ≤ 2 ^ 63 := by omega
    exact if_pos hfits

/-- A literal is read as what is left of the value. -/
theorem evalLiteral_literal {v : SqlValue} (h : Plain v) (b : Behind) :
    evalLiteral (literal v ++ b.rest) = some (narrow v, b.rest) := by
  cases v with
  | null => rfl
  | integer i => exact evalLiteral_integer (toInt_range i) fun c hc => (b.head c hc).1
  | float shown => exact absurd h id
  | blob shown => exact absurd h id
  | text t =>
    have hnext : b.rest.head? ≠ some '\'' := fun he => (b.head _ he).2 rfl
    show evalLiteral (Tdiff.quoteSql (cString t) '\'' true ++ b.rest) = _
    rw [cString_of_not_mem h, quoteSql_single, List.cons_append, List.append_assoc, evalLiteral,
      if_neg (by decide), if_pos rfl, List.singleton_append, readQuoted_doubleMark t hnext]
    rfl

theorem narrow_eq_self_iff (v : SqlValue) : narrow v = v ↔ Fits v := by
  cases v with
  | integer i =>
    unfold narrow Fits
    rw [SqlValue.integer.injEq]
    constructor
    · intro h
      rw [← h]
      exact toInt_range i
    · intro h
      exact Int.bmod_eq_of_le_mul_two (by omega) (by omega)
  | null => exact iff_of_true rfl trivial
  | float shown => exact iff_of_true rfl trivial
  | text t => exact iff_of_true rfl trivial
  | blob shown => exact iff_of_true rfl trivial

/-! ## The statement -/

theorem evalRow_row (row : List SqlValue) : ∀ fuel : Nat, row ≠ [] → (∀ v ∈ row, Plain v) →
    row.length ≤ fuel → evalRow fuel (",".toList.intercalate (row.map literal) ++ ");".toList) =
    some (row.map narrow) := by
  induction row with
  | nil => exact fun fuel hne => absurd rfl hne
  | cons v row ih =>
    intro fuel _ hplain hfuel
    cases fuel with
    | zero => exact absurd hfuel (by simp)
    | succ fuel =>
      have hv := hplain v List.mem_cons_self
      cases row with
      | nil =>
        rw [List.map_cons, List.map_nil, List.intercalate_singleton, evalRow,
          evalLiteral_literal hv ⟨");".toList, [';'], Or.inr rfl⟩, Option.bind_some, if_pos rfl]
        rfl
      | cons v' row =>
        have hrest :=
          ih fuel (by simp) (fun u hu => hplain u (List.mem_cons_of_mem _ hu))
          (by simpa using hfuel)
        rw [List.map_cons, List.map_cons, List.intercalate_cons_cons, ← List.map_cons,
          List.append_assoc, List.append_assoc,
          evalRow, evalLiteral_literal hv ⟨",".toList ++ _, _, Or.inl rfl⟩]
        have hne :
          ¬ ",".toList ++ (",".toList.intercalate ((v' :: row).map literal) ++ ");".toList) =
          ");".toList := by
          intro he
          have hhead : ',' = ')' := (List.cons.inj he).1
          exact absurd hhead (by decide)
        rw [Option.bind_some, if_neg hne, expect_append, Option.bind_some, hrest]
        rfl

theorem length_le_text (row : List SqlValue) (hne : row ≠ []) :
    row.length ≤ (",".toList.intercalate (row.map literal) ++ ");".toList).length := by
  induction row with
  | nil => exact absurd rfl hne
  | cons v row ih =>
    cases row with
    | nil => simp
    | cons v' row =>
      have hrest := ih (by simp)
      have hcomma : ",".toList.length = 1 := by decide
      rw [List.map_cons, List.map_cons, List.intercalate_cons_cons, ← List.map_cons,
        List.append_assoc, List.append_assoc,
        List.length_append, List.length_append, hcomma, List.length_cons]
      omega

theorem evalName_quoted {name : List Char} (h : '\x00' ∉ name) {rest : List Char}
    (hrest : rest.head? ≠ some '"') :
    evalName (Tdiff.quoteSql (cString name) '"' true ++ rest) = some (name, rest) := by
  have hmark :
    '"' :: (doubleMark '"' name ++ '"' :: rest) = "\"".toList ++
    (doubleMark '"' name ++ '"' :: rest) := rfl
  rw [cString_of_not_mem h, quoteSql_double, List.cons_append, List.append_assoc,
    List.singleton_append, hmark]
  unfold evalName
  rw [expect_append]
  exact readQuoted_doubleMark name hrest

theorem evalInsert_insertLine (t : TableName) (r : PlainRow) :
    evalInsert (insertLine t.name r.row) = some (t.name, r.row.map narrow) := by
  unfold insertLine evalInsert
  rw [List.append_assoc, List.append_assoc, List.append_assoc, expect_append, Option.bind_some,
    evalName_quoted t.plain (by simp), Option.bind_some, expect_append, Option.bind_some,
    evalRow_row r.row _ r.nonempty r.plain (length_le_text r.row r.nonempty)]
  rfl

/-- **What is read from a statement** is the value, or the table and the row, unless an integer
takes more than 32 bits. -/
theorem dump_iff (v : PlainValue) (b : Behind) (t : TableName) (r : PlainRow) :
    (evalLiteral (literal v.value ++ b.rest) = some (v.value, b.rest) ↔ Fits v.value) ∧
      (evalInsert (insertLine t.name r.row) = some (t.name, r.row) ↔ ∀ u ∈ r.row, Fits u) := by
  constructor
  · rw [evalLiteral_literal v.plain b, Option.some.injEq, Prod.mk.injEq, and_iff_left rfl,
      narrow_eq_self_iff]
  · rw [evalInsert_insertLine t r, Option.some.injEq, Prod.mk.injEq, and_iff_right rfl,
      Lib.map_eq_self_iff]
    exact forall₂_congr fun u _ => narrow_eq_self_iff u

/-- A table with a quote in its name, and a row with one number that fits and one that does not. -/
def quotedTable : TableName := ⟨"a \"b\"".toList, by decide⟩

def mixedRow (i : Int) (h : -2 ^ 63 ≤ i ∧ i < 2 ^ 63) : PlainRow where
  row := [.null, .text "it's".toList, .integer i]
  plain := by
    intro v hv
    simp only [List.mem_cons, List.not_mem_nil, or_false] at hv
    rcases hv with rfl | rfl | rfl
    · trivial
    · exact (by decide : '\x00' ∉ "it's".toList)
    · exact h
  nonempty := List.cons_ne_nil _ _

theorem dump_iff_quotedTable :
    evalLiteral "-2147483648,".toList = some (.integer (-2147483648), ",".toList) ∧
      evalInsert (insertLine quotedTable.name (mixedRow (-2147483648) (by decide)).row) =
        some (quotedTable.name, (mixedRow (-2147483648) (by decide)).row) ∧
      evalInsert (insertLine quotedTable.name (mixedRow 2147483648 (by decide)).row) ≠
        some (quotedTable.name, (mixedRow 2147483648 (by decide)).row) := by
  obtain ⟨hvalue, hrow⟩ :=
    dump_iff ⟨.integer (-2147483648), ⟨by decide, by decide⟩⟩ ⟨",".toList, [], Or.inl rfl⟩
    quotedTable (mixedRow (-2147483648) (by decide))
  have hlost :=
    (dump_iff ⟨.null, trivial⟩ ⟨",".toList, [], Or.inl rfl⟩ quotedTable
      (mixedRow 2147483648 (by decide))).2
  refine ⟨hvalue.2 ⟨by decide, by decide⟩, hrow.2 fun v hv => ?_, fun h => ?_⟩
  · simp only [mixedRow, List.mem_cons, List.not_mem_nil, or_false] at hv
    rcases hv with rfl | rfl | rfl
    · trivial
    · trivial
    · exact ⟨by decide, by decide⟩
  · exact absurd (hlost.1 h (.integer 2147483648) (by simp [mixedRow])).2 (by decide)

/-- The number does not fit, and another one is written. -/
theorem not_dump : ¬ ∀ (v : PlainValue) (b : Behind), evalLiteral (literal v.value ++ b.rest) =
    some (v.value, b.rest) := by
  intro h
  have hlost := h ⟨.integer 4294967297, ⟨by decide, by decide⟩⟩ ⟨");".toList, [';'], Or.inr rfl⟩
  exact absurd hlost (by decide +kernel)

end TextDump

end Coopy
