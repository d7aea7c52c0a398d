import Coopy.NameSniffing
import Mathlib.Algebra.Order.Ring.Nat
import Mathlib.Data.List.Induction

/-!
# Names of a spreadsheet, computed and counted

`getSpreadsheetColumnName` writes the index in base 26 with the letters for digits, `A` for nought;
`NameSniffer` calls a column so.  `SchemaSniffer` goes from name to name with
`nextSpreadsheetColumnName`, which counts the last letter up and carries.  A carry out of the first
letter appends an `A`, where the index gets a `B` in front: `Z` is followed by `AA`, and 26 is `BA`.

    next (name n) = name (n + 1) ↔ n + 1 is none of 26, 26², …                         (counted_iff)
-/

namespace Coopy

/-! ## One name after the other -/

/-- The loop of `nextSpreadsheetColumnName`, with `cursor` one past the letter in hand. -/
def countUp : (cursor : Nat) → (current : List Char) → List Char
  | 0, current => current
  | cursor + 1, current =>
    let ch := current.getD cursor 'Z'
    if ch ≠ 'Z' then current.set cursor (Char.ofNat (ch.toNat + 1))
    else
      let current := current.set cursor 'A'
      countUp cursor (if cursor = 0 then current ++ ['A'] else current)

def nextSpreadsheetColumnName (current : String) : String :=
  String.ofList (countUp current.toList.length current.toList)

namespace SchemaSniffer

/-- The loop that gives the columns without a name one; `col` is the name for the next. -/
def addColumns : Nat → (col : String) → List String
  | 0, _ => []
  | missing + 1, col => col :: addColumns missing (nextSpreadsheetColumnName col)

/-- The names of the columns of the fallback schema, of which a `NameSniffer` gave the first. -/
def columnNames (names : List String) (width : Nat) : List String :=
  names ++ addColumns (width - names.length) (getSpreadsheetColumnName names.length)

end SchemaSniffer

/-! ## The digits of an index -/

/-- The letters of an index. -/
def letters (n : Nat) : List Char := (getSpreadsheetColumnName n).toList

def letter (d : Nat) : Char := Char.ofNat (65 + d)

theorem spreadsheetDigits_append (fuel : Nat) : ∀ (rem : Nat) (current : List Char),
    spreadsheetDigits fuel rem current = spreadsheetDigits fuel rem [] ++ current := by
  induction fuel with
  | zero => exact fun rem current => rfl
  | succ fuel ih =>
    intro rem current
    unfold spreadsheetDigits
    simp only
    split
    · rw [ih _ (_ :: current), ih _ [_], List.append_assoc, List.singleton_append]
    · rfl

/-- Fuel beyond the index makes no difference. -/
theorem spreadsheetDigits_fuel (fuel : Nat) :
    ∀ (fuel' rem : Nat) (current : List Char), rem < fuel → rem < fuel' →
    spreadsheetDigits fuel rem current = spreadsheetDigits fuel' rem current := by
  induction fuel with
  | zero => exact fun fuel' rem current h => absurd h (Nat.not_lt_zero _)
  | succ fuel ih =>
    intro fuel' rem current h h'
    cases fuel' with
    | zero => exact absurd h' (Nat.not_lt_zero _)
    | succ fuel' =>
      unfold spreadsheetDigits
      simp only
      split
      · exact ih fuel' _ _ (by omega) (by omega)
      · rfl

theorem letters_of_lt {n : Nat} (h : n < 26) : letters n = [letter n] := by
  unfold letters getSpreadsheetColumnName spreadsheetDigits
  rw [String.toList_ofList]
  simp only
  rw [if_neg (by omega), Nat.mod_eq_of_lt h]
  rfl

theorem letters_snoc {n : Nat} (h : 26 ≤ n) :
    letters n = letters (n / 26) ++ [letter (n % 26)] := by
  unfold letters getSpreadsheetColumnName
  rw [String.toList_ofList, String.toList_ofList]
  conv_lhs => unfold spreadsheetDigits
  simp only
  rw [if_pos (by omega), spreadsheetDigits_append,
    spreadsheetDigits_fuel n (n / 26 + 1) _ _ (by omega) (by omega)]
  rfl

theorem letter_succ : ∀ d < 25, letter d ≠ 'Z' ∧
    Char.ofNat ((letter d).toNat + 1) = letter (d + 1) := by decide

/-! ## Counting up -/

/-- A letter before the last `Z`s takes up the carry. -/
theorem countUp_snoc_of_ne {xs ys : List Char} {c : Char} (hc : c ≠ 'Z') :
    countUp (xs.length + 1) (xs ++ c :: ys) = xs ++ Char.ofNat (c.toNat + 1) :: ys := by
  unfold countUp
  have hget : (xs ++ c :: ys).getD xs.length 'Z' = c := by
    rw [List.getD_append_right _ _ _ _ (Nat.le_refl _), Nat.sub_self, List.getD_cons_zero]
  simp only
  rw [hget, if_pos hc, List.set_append_right _ _ (Nat.le_refl _), Nat.sub_self, List.set_cons_zero]

/-- A `Z` hands the carry on. -/
theorem countUp_snoc_Z (xs ys : List Char) :
    countUp (xs.length + 1) (xs ++ 'Z' :: ys) =
      countUp xs.length (xs ++ 'A' :: ys ++ if xs = [] then ['A'] else []) := by
  conv_lhs => unfold countUp
  have hget : (xs ++ 'Z' :: ys).getD xs.length 'Z' = 'Z' := by
    rw [List.getD_append_right _ _ _ _ (Nat.le_refl _), Nat.sub_self, List.getD_cons_zero]
  simp only
  rw [hget, if_neg (by simp), List.set_append_right _ _ (Nat.le_refl _), Nat.sub_self,
    List.set_cons_zero]
  by_cases hxs : xs = []
  · rw [if_pos hxs, if_pos (by rw [hxs]; rfl)]
  · rw [if_neg hxs, if_neg (fun h => hxs (List.eq_nil_of_length_eq_zero h)), List.append_nil]

/-- A carry that stops does not touch what is behind. -/
theorem countUp_append {xs : List Char} (h : ∃ c ∈ xs, c ≠ 'Z') : ∀ ys : List Char,
    countUp xs.length (xs ++ ys) = countUp xs.length xs ++ ys := by
  induction xs using List.reverseRecOn with
  | nil =>
    obtain ⟨c, hc, -⟩ := h
    cases hc
  | append_singleton xs c ih =>
    intro ys
    rw [List.length_append, List.length_singleton, List.append_assoc, List.singleton_append]
    by_cases hc : c = 'Z'
    · have hxs : ∃ d ∈ xs, d ≠ 'Z' := by
        obtain ⟨d, hd, hne⟩ := h
        rcases List.mem_append.1 hd with hd | hd
        · exact ⟨d, hd, hne⟩
        · exact absurd ((List.mem_singleton.1 hd).trans hc) hne
      have hnil : xs ≠ [] := by
        rintro rfl
        obtain ⟨d, hd, -⟩ := hxs
        cases hd
      rw [hc, countUp_snoc_Z, countUp_snoc_Z, if_neg hnil, List.append_nil, List.append_nil, ih hxs,
        ih hxs, List.append_assoc, List.singleton_append]
    · rw [countUp_snoc_of_ne hc, countUp_snoc_of_ne hc, List.append_assoc, List.singleton_append]

/-- A carry through all letters appends an `A`. -/
theorem countUp_replicate (k : Nat) : ∀ ys : List Char,
    countUp (k + 1) (List.replicate (k + 1) 'Z' ++ ys) = List.replicate (k + 1) 'A' ++ ys ++
    ['A'] := by
  induction k with
  | zero => exact fun ys => countUp_snoc_Z [] ys
  | succ k ih =>
    intro ys
    have hlen : (List.replicate (k + 1) 'Z').length = k + 1 := List.length_replicate
    have h := countUp_snoc_Z (List.replicate (k + 1) 'Z') ys
    rw [if_neg (by simp), List.append_nil, hlen, ih] at h
    rw [List.replicate_succ', List.append_assoc, List.singleton_append, h,
      List.replicate_succ' (n := k + 1)]
    simp only [List.append_assoc, List.cons_append, List.nil_append]

/-! ## From an index to the next -/

theorem letters_pow (k : Nat) : letters (26 ^ (k + 1) - 1) = List.replicate (k + 1) 'Z' := by
  induction k with
  | zero => exact letters_of_lt (by decide)
  | succ k ih =>
    have hpos : 0 < 26 ^ (k + 1) := Nat.pow_pos (by decide)
    have hpow : 26 ^ (k + 1 + 1) = 26 * 26 ^ (k + 1) := by rw [Nat.pow_succ, Nat.mul_comm]
    have hle : 26 ≤ 26 ^ (k + 1) := Nat.le_self_pow (by omega) 26
    rw [letters_snoc (by omega), show (26 ^ (k + 1 + 1) - 1) / 26 = 26 ^ (k + 1) - 1 by omega,
      show (26 ^ (k + 1 + 1) - 1) % 26 = 25 by omega, ih, List.replicate_succ' (n := k + 1)]
    rfl

theorem letters_ne_nil (n : Nat) : letters n ≠ [] := by
  by_cases h : n < 26
  · rw [letters_of_lt h]
    exact List.cons_ne_nil _ _
  · rw [letters_snoc (by omega)]
    exact List.append_ne_nil_of_right_ne_nil _ (List.cons_ne_nil _ _)

/-- Only an index before a power of 26 is all `Z`s. -/
theorem exists_ne_Z {n : Nat} (h : ∀ k, n + 1 ≠ 26 ^ (k + 1)) : ∃ c ∈ letters n, c ≠ 'Z' := by
  induction n using Nat.strongRecOn with
  | ind n ih =>
    by_cases hlt : n < 26
    · rw [letters_of_lt hlt]
      have h25 : n + 1 ≠ 26 := h 0
      exact ⟨letter n, List.mem_singleton_self _, (letter_succ n (by omega)).1⟩
    · rw [letters_snoc (by omega)]
      by_cases hr : n % 26 < 25
      · exact ⟨letter (n % 26), List.mem_append_right _ (List.mem_singleton_self _),
          (letter_succ _ hr).1⟩
      · obtain ⟨c, hc, hne⟩ :=
          ih (n / 26) (by omega) fun k hk => h (k + 1) (by rw [Nat.pow_succ, ← hk]; omega)
        exact ⟨c, List.mem_append_left _ hc, hne⟩

/-- The next letters, where the carry stops. -/
theorem countUp_letters {n : Nat} (h : ∀ k, n + 1 ≠ 26 ^ (k + 1)) :
    countUp (letters n).length (letters n) = letters (n + 1) := by
  induction n using Nat.strongRecOn with
  | ind n ih =>
    by_cases hlt : n < 26
    · have h25 : n + 1 ≠ 26 := h 0
      obtain ⟨hne, hsucc⟩ := letter_succ n (by omega)
      rw [letters_of_lt hlt, letters_of_lt (by omega), ← hsucc]
      show countUp (([] : List Char).length + 1) ([] ++ letter n :: []) = _
      exact countUp_snoc_of_ne hne
    · have hsnoc := letters_snoc (n := n) (by omega)
      have hsnoc' := letters_snoc (n := n + 1) (by omega)
      rw [hsnoc, List.length_append, List.length_singleton, hsnoc']
      by_cases hr : n % 26 < 25
      · obtain ⟨hne, hsucc⟩ := letter_succ _ hr
        rw [countUp_snoc_of_ne hne, hsucc,
          show (n + 1) / 26 = n / 26 by omega, show (n + 1) % 26 = n % 26 + 1 by omega]
      · have hq : ∀ k, n / 26 + 1 ≠ 26 ^ (k + 1) :=
          fun k hk => h (k + 1) (by rw [Nat.pow_succ, ← hk]; omega)
        rw [show n % 26 =
          25 by omega, show letter 25 = 'Z' from rfl, countUp_snoc_Z, if_neg (letters_ne_nil _),
          List.append_nil, countUp_append (exists_ne_Z hq), ih (n / 26) (by omega) hq,
          show (n + 1) / 26 = n / 26 + 1 by omega, show (n + 1) % 26 = 0 by omega]
        rfl

theorem columnNumber_replicate_A (k : Nat) : columnNumber (List.replicate k 'A') = 0 := by
  unfold columnNumber
  induction k with
  | zero => rfl
  | succ k ih => exact ih

/-- All `Z`s go to all `A`s, the number 0. -/
theorem countUp_letters_pow (k : Nat) :
    countUp (letters (26 ^ (k + 1) - 1)).length (letters (26 ^ (k + 1) - 1)) =
    List.replicate (k + 2) 'A' := by
  have h := countUp_replicate k []
  rw [List.append_nil, List.append_nil] at h
  rw [letters_pow, List.length_replicate, h, List.replicate_succ' (n := k + 1)]

theorem nextName_iff (n : Nat) :
    nextSpreadsheetColumnName (getSpreadsheetColumnName n) = getSpreadsheetColumnName (n + 1) ↔
    ∀ k, n + 1 ≠ 26 ^ (k + 1) := by
  have hnext :
    nextSpreadsheetColumnName (getSpreadsheetColumnName n) =
    String.ofList (countUp (letters n).length (letters n)) := rfl
  constructor
  · intro h k hk
    have hnum := columnNumber_name (n + 1)
    rw [← h, hnext, String.toList_ofList,
      show n = 26 ^ (k + 1) - 1 by omega, countUp_letters_pow, columnNumber_replicate_A] at hnum
    omega
  · intro h
    rw [hnext, countUp_letters h]
    exact String.ofList_toList

/-! ## The columns of a schema -/

namespace SchemaSniffer

/-- The columns get the names of their indices as long as no index behind the first is a power of
26. -/
theorem addColumns_iff (missing : Nat) : ∀ first : Nat,
    addColumns missing (getSpreadsheetColumnName first) =
    (List.range' first missing).map getSpreadsheetColumnName ↔
      ∀ k, ¬ (first < 26 ^ (k + 1) ∧ 26 ^ (k + 1) < first + missing) := by
  induction missing with
  | zero => exact fun first => iff_of_true rfl fun k h => by omega
  | succ missing ih =>
    intro first
    rw [List.range'_succ, List.map_cons]
    unfold addColumns
    rw [List.cons_inj_right]
    cases missing with
    | zero => exact iff_of_true rfl fun k h => by omega
    | succ missing =>
      by_cases hnext : ∀ k, first + 1 ≠ 26 ^ (k + 1)
      · rw [(nextName_iff first).2 hnext, ih (first + 1)]
        refine forall_congr' fun k => not_congr ?_
        have := hnext k
        omega
      · refine iff_of_false (fun h => hnext ?_) fun h => hnext fun k hk => h k (by omega)
        rw [List.range'_succ, List.map_cons] at h
        exact (nextName_iff first).1 (List.cons.inj h).1

end SchemaSniffer

/-- The names of a step are those of the next index unless this is a positive power of 26; a schema
that has names for the first columns names the others by their index unless a positive power of 26
is the index of one of them but the first. -/
theorem counted_iff (n : Nat) (names : List String) (width : Nat) :
    (nextSpreadsheetColumnName (getSpreadsheetColumnName n) = getSpreadsheetColumnName (n + 1) ↔
      ∀ k, n + 1 ≠ 26 ^ (k + 1)) ∧ (SchemaSniffer.columnNames names width = names ++
        (NameSniffer.columnNames ⟨[], []⟩ width).drop names.length ↔
        ∀ k, ¬ (names.length < 26 ^ (k + 1) ∧ 26 ^ (k + 1) < width)) := by
  refine ⟨nextName_iff n, ?_⟩
  have hrange : (NameSniffer.columnNames ⟨[], []⟩ width).drop names.length =
      (List.range' names.length (width - names.length)).map getSpreadsheetColumnName := by
    unfold NameSniffer.columnNames
    rw [← List.map_drop, List.range_eq_range', List.drop_range']
    simp [NameSniffer.suggestColumnName]
  unfold SchemaSniffer.columnNames
  rw [hrange, List.append_cancel_left_eq, SchemaSniffer.addColumns_iff]
  exact forall_congr' fun k => not_congr (by omega)

/-- After the 26th name, and at the 27th column of a sheet without names. -/
theorem not_counted :
    nextSpreadsheetColumnName (getSpreadsheetColumnName 25) ≠ getSpreadsheetColumnName 26 ∧
    SchemaSniffer.columnNames [] 27 ≠ NameSniffer.columnNames ⟨[], []⟩ 27 := by
  decide

end Coopy
