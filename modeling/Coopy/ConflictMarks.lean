import Coopy.MergingPatcher
import Coopy.RowReplay

/-!
# The marks of a conflict

What is written into a cell in conflict can be read back, as long as the runs `)))` and `///` are
only there as marks; a text without `)))` is not taken for a conflict:

    parse (conflictText p l r) = some (l, r, p)                                 (parse_conflictText)

A row with a conflict gets its marks and nothing else: a cell whose sides agree stays as it was,
even if a new value came with the change (`markRow_getElem?`).
-/

namespace Coopy

open Lib

/-! ## Reading a conflict back -/

namespace BookCompare

/-- A text without the runs that separate the sides. -/
def PlainText (text : String) : Prop := ¬ ")))".toList <:+: text.toList ∧
    ¬ "///".toList <:+: text.toList

instance (text : String) : Decidable (PlainText text) := inferInstanceAs (Decidable (_ ∧ _))

/-- The parts of a conflict. -/
theorem conflictText_toList (p l r : String) :
    (MergingPatcher.conflictText ⟨p, false⟩ ⟨l, false⟩ ⟨r, false⟩).toList =
      "((( ".toList ++ p.toList ++
      (" ))) ".toList ++ (l.toList ++ (" /// ".toList ++ r.toList))) := by
  show ("((( " ++ p ++ " ))) " ++ l ++ " /// " ++ r).toList = _
  simp only [String.toList_append, List.append_assoc]

theorem firstIn_pivotEnd {p : String} (hp : PlainText p) (rest : List Char) :
    firstIn " ))) ".toList ("((( ".toList ++ p.toList ++ (" ))) ".toList ++ rest)) =
    some (4 + p.toList.length) := by
  have hfront : ¬ ")))".toList <:+: "((( ".toList ++ p.toList := by
    show ¬ ")))".toList <:+: ['(', '(', '('] ++ ' ' :: p.toList
    rw [infix_append_cons_iff (by decide), not_or]
    exact ⟨by decide, hp.1⟩
  have h := @firstIn_delimited _ _ _ _ rest _ (show ' ' ∉ ")))".toList by decide) hfront
  rwa [List.length_append] at h

theorem firstIn_localEnd {p l : String} (hp : PlainText p) (hl : PlainText l) (rest : List Char) :
    firstIn " /// ".toList
      ("((( ".toList ++ p.toList ++ (" ))) ".toList ++ (l.toList ++ (" /// ".toList ++ rest)))) =
      some (4 + p.toList.length + (5 + l.toList.length)) := by
  have hfront : ¬ "///".toList <:+: "((( ".toList ++ p.toList ++ (" ))) ".toList ++ l.toList) := by
    rw [List.append_assoc]
    show ¬ "///".toList <:+: ['(', '(', '('] ++ ' ' ::
      (p.toList ++ ' ' :: ([')', ')', ')'] ++ ' ' :: l.toList))
    rw [infix_append_cons_iff (by decide), infix_append_cons_iff (by decide),
      infix_append_cons_iff (by decide), not_or, not_or, not_or]
    exact ⟨by decide, hp.2, by decide, hl.2⟩
  have h := @firstIn_delimited _ _ _ _ rest _ (show ' ' ∉ "///".toList by decide) hfront
  have hlen : ("((( ".toList ++ p.toList ++ (" ))) ".toList ++ l.toList)).length =
      4 + p.toList.length + (5 + l.toList.length) := by
    rw [List.length_append, List.length_append, List.length_append]
    rfl
  rw [hlen, List.append_assoc, List.append_assoc] at h
  rw [List.append_assoc]
  exact h

/-- A part of a text. -/
theorem slice_append (a b c : List Char) {start stop : Nat} (hs : start = a.length)
    (ht : stop = a.length + b.length) :
    slice (a ++ (b ++ c)) start stop = ⟨String.ofList b, false⟩ := by
  unfold slice
  rw [if_pos (by omega), hs, ht, List.drop_left, Nat.add_sub_cancel_left, List.take_left]

/-- **A conflict reads back** as its three sides. -/
theorem parse_conflictText {p l : String} (hp : PlainText p) (hl : PlainText l) (r : String) :
    ConflictCell.parse ⟨MergingPatcher.conflictText ⟨p, false⟩ ⟨l, false⟩ ⟨r, false⟩, false⟩ =
      some ⟨⟨l, false⟩, ⟨r, false⟩, ⟨p, false⟩⟩ := by
  unfold ConflictCell.parse
  simp only
  rw [conflictText_toList, if_neg (fun h => h (by rfl)), firstIn_pivotEnd hp,
    firstIn_localEnd hp hl]
  simp only [Option.bind_some, Option.map_some, Option.some.injEq, ConflictCell.mk.injEq]
  have hopen : "((( ".toList.length = 4 := rfl
  have hclose : " ))) ".toList.length = 5 := rfl
  have hmid : " /// ".toList.length = 5 := rfl
  refine ⟨?_, ?_, ?_⟩
  · rw [← List.append_assoc, slice_append, String.ofList_toList]
    · rw [List.length_append, List.length_append]
      omega
    · rw [List.length_append, List.length_append]
      omega
  · rw [← List.append_nil r.toList, ← List.append_assoc, ← List.append_assoc, ← List.append_assoc,
      slice_append, String.ofList_toList]
    · simp only [List.length_append]
      omega
    · simp only [List.length_append, List.length_nil]
      omega
  · rw [List.append_assoc, slice_append, String.ofList_toList]
    · exact hopen.symm
    · rw [hopen]

/-- A text without `)))` is not a conflict. -/
theorem parse_plain {c : SheetCell} (h : PlainText c.text) : ConflictCell.parse c = none := by
  have hnone : firstIn " ))) ".toList c.text.toList = none := by
    rw [firstIn_eq_none_iff]
    intro hin
    exact h.1 (List.IsInfix.trans ⟨[' '], [' '], rfl⟩ hin)
  unfold ConflictCell.parse
  simp only
  rw [hnone, Option.bind_none, ite_self]

end BookCompare

/-! ## Writing the marks -/

namespace MergingPatcher

theorem conflictSeparator_isSome (texts : List String) : ∀ (fuel : Nat) (sep : String),
    (∀ t ∈ texts, t.length < sep.length + fuel) → ∃ s, conflictSeparator texts (fuel + 1) sep =
    some s := by
  intro fuel
  induction fuel with
  | zero =>
    intro sep h
    refine ⟨sep, ?_⟩
    unfold conflictSeparator
    rw [if_neg]
    intro hany
    obtain ⟨t, ht, hin⟩ := List.any_eq_true.1 hany
    have hinfix : sep.toList <:+: t.toList := by
      by_contra hno
      rw [(firstIn_eq_none_iff _).2 hno] at hin
      cases hin
    have hlen := hinfix.length_le
    rw [String.length_toList, String.length_toList] at hlen
    have := h t ht
    omega
  | succ fuel ih =>
    intro sep h
    unfold conflictSeparator
    split
    · refine ih ("-" ++ sep) fun t ht => ?_
      have := h t ht
      rw [String.length_append, show "-".length = 1 from rfl]
      omega
    · exact ⟨sep, rfl⟩

theorem lt_separatorRounds {texts : List String} {t : String} (h : t ∈ texts) :
    t.length < separatorRounds texts := by
  unfold separatorRounds
  induction texts with
  | nil => cases h
  | cons u texts ih =>
    rw [List.foldr_cons]
    rcases List.mem_cons.1 h with rfl | h
    · have := Nat.le_max_left t.length (texts.foldr (fun t n => max t.length n) 0)
      omega
    · have := ih h
      have := Nat.le_max_right u.length (texts.foldr (fun t n => max t.length n) 0)
      omega

/-- A separator is always found. -/
theorem separator_found (texts : List String) :
    ∃ s, conflictSeparator texts (separatorRounds texts) "!" = some s := by
  refine conflictSeparator_isSome texts _ "!" fun t ht => ?_
  have := lt_separatorRounds ht
  unfold separatorRounds at this
  rw [show "!".length = 1 from rfl]
  omega

section
variable (conflictColumn : Nat) (val cval pval : AssocMap Nat (String × SheetCell))

/-- What the cell of column `i` becomes. -/
def markedCell (i : Nat) (c : SheetCell) : SheetCell :=
  match val.get? i with
  | none => c
  | some v =>
    if v.2 ≠ ((cval.get? i).getD v).2 then
      ⟨conflictText ((pval.get? i).getD v).2 v.2 ((cval.get? i).getD v).2, false⟩
    else c

/-- `markCell` on the row alone. -/
def markIn (row : List SheetCell) (c : Nat) : List SheetCell :=
  match val.get? c with
  | none => row
  | some _ => (row.set conflictColumn ⟨"CONFLICT", false⟩).modify c (markedCell val cval pval c)

theorem modify_const {row : List SheetCell} (c : Nat) (x : SheetCell) :
    row.modify c (fun _ => x) = row.set c x := by
  refine List.ext_getElem? fun i => ?_
  rw [List.getElem?_modify, List.getElem?_set]
  by_cases hic : c = i
  · subst hic
    by_cases hlt : c < row.length
    · simp [hlt]
    · simp [hlt]
  · simp [hic]

theorem markCell_eq (r : Nat) (sheet : TypedSheet SheetCell) (c : Nat) :
    markCell conflictColumn val cval pval r sheet c =
      { sheet with
        arr := sheet.arr.modify r fun row => markIn conflictColumn val cval pval row c } := by
  unfold markCell markIn markedCell
  cases hv : val.get? c with
  | none =>
    show sheet = { sheet with arr := sheet.arr.modify r id }
    rw [List.modify_id]
  | some v =>
    simp only
    by_cases hne : v.2 ≠ ((cval.get? c).getD v).2
    · rw [if_pos hne]
      unfold TypedSheet.setCell
      simp only [List.modify_modify_eq, if_pos hne, modify_const]
      rfl
    · rw [if_neg hne]
      unfold TypedSheet.setCell
      simp only [if_neg hne]
      congr 1
      refine congrArg (sheet.arr.modify r) (funext fun row => ?_)
      exact (List.modify_id _ _).symm

/-- The marks of one row. -/
def markRow (cs : List Nat) (row : List SheetCell) : List SheetCell :=
  cs.foldl (markIn conflictColumn val cval pval) row

theorem foldl_markCell (r : Nat) (cs : List Nat) : ∀ sheet : TypedSheet SheetCell,
    cs.foldl (markCell conflictColumn val cval pval r) sheet =
      { sheet with arr := sheet.arr.modify r (markRow conflictColumn val cval pval cs) } := by
  unfold markRow
  induction cs with
  | nil =>
    intro sheet
    show sheet = { sheet with arr := sheet.arr.modify r id }
    rw [List.modify_id]
  | cons c cs ih =>
    intro sheet
    rw [List.foldl_cons, ih, markCell_eq]
    simp only [List.modify_modify_eq]
    rfl

theorem markedCell_twice (i : Nat) (c : SheetCell) :
    markedCell val cval pval i (markedCell val cval pval i c) = markedCell val cval pval i c := by
  unfold markedCell
  cases val.get? i with
  | none => rfl
  | some v =>
    simp only
    split <;> rfl

/-- **A cell of a marked row.** -/
theorem markRow_getElem? {i : Nat} (hi : i ≠ conflictColumn) (cs : List Nat) :
    ∀ row : List SheetCell, (markRow conflictColumn val cval pval cs row)[i]? =
      row[i]?.map fun c => if i ∈ cs then markedCell val cval pval i c else c := by
  unfold markRow
  induction cs with
  | nil =>
    intro row
    simp
  | cons k cs ih =>
    intro row
    have hstep : (markIn conflictColumn val cval pval row k)[i]? =
        row[i]?.map fun c => if i = k then markedCell val cval pval i c else c := by
      unfold markIn
      cases hv : val.get? k with
      | none =>
        by_cases hik : i = k
        · subst hik
          unfold markedCell
          simp [hv]
        · simp [hik]
      | some v =>
        simp only
        rw [List.getElem?_modify, List.getElem?_set_ne (Ne.symm hi)]
        by_cases hik : k = i
        · subst hik
          simp
        · simp [hik, Ne.symm hik]
    rw [List.foldl_cons, ih, hstep, Option.map_map]
    congr 1
    funext c
    simp only [Function.comp, List.mem_cons]
    by_cases hik : i = k
    · simp only [if_pos hik, if_pos (Or.inl hik), markedCell_twice, ite_self]
    · simp only [hik, false_or, if_false]

/-- The column of the merge in a marked row. -/
theorem markRow_conflictColumn (hcol : val.get? conflictColumn = none) (cs : List Nat) :
    ∀ row : List SheetCell, (markRow conflictColumn val cval pval cs row)[conflictColumn]? =
      row[conflictColumn]?.map fun c => if cs.any fun k =>
      (val.get? k).isSome then ⟨"CONFLICT", false⟩ else c := by
  unfold markRow
  induction cs with
  | nil =>
    intro row
    simp
  | cons k cs ih =>
    intro row
    have hstep : (markIn conflictColumn val cval pval row k)[conflictColumn]? =
        row[conflictColumn]?.map fun c => if (val.get? k).isSome then ⟨"CONFLICT", false⟩
        else c := by
      unfold markIn
      cases hv : val.get? k with
      | none => simp
      | some v =>
        have hne : k ≠ conflictColumn := by
          rintro rfl
          rw [hcol] at hv
          cases hv
        simp only
        rw [List.getElem?_modify]
        by_cases hlt : conflictColumn < row.length
        · simp [hlt, hne]
        · simp [hlt]
    rw [List.foldl_cons, ih, hstep, Option.map_map, List.any_cons]
    congr 1
    funext c
    simp only [Function.comp]
    cases (val.get? k).isSome <;> simp

theorem markRow_length (cs : List Nat) : ∀ row : List SheetCell,
    (markRow conflictColumn val cval pval cs row).length = row.length := by
  unfold markRow
  induction cs with
  | nil => exact fun row => rfl
  | cons k cs ih =>
    intro row
    rw [List.foldl_cons, ih]
    unfold markIn
    cases val.get? k with
    | none => rfl
    | some v => simp

end

end MergingPatcher

/-! ## The search for a row -/

namespace SheetPatcher

open RowChange

variable {p : SheetPatcher} {names : List String}

/-- No map has an entry for a column that has no name. -/
theorem Knows.byCol_none (h : Knows p names) (m : AssocMap String SheetCell) {i : Nat}
    (hi : names.length ≤ i) : (p.byCol m).get? i = none := by
  suffices hgen : ∀ acc : AssocMap Nat (String × SheetCell), acc.get? i = none →
      AssocMap.get? (m.foldl p.enterCol acc) i = none by
    exact hgen [] rfl
  induction m with
  | nil => exact fun acc hacc => hacc
  | cons e m ih =>
    intro acc hacc
    rw [List.foldl_cons]
    apply ih
    unfold enterCol
    split
    · next j hj =>
      have hlt : j < names.length := by
        by_cases hm : e.1 ∈ names
        · obtain ⟨k, hk, he⟩ := List.mem_iff_getElem.mp hm
          have hkj := h.found k hk
          rw [he, hj] at hkj
          cases hkj
          exact hk
        · rw [h.others _ hm] at hj
          cases hj
      rw [AssocMap.get?_set_ne _ _ (by omega)]
      exact hacc
    · exact hacc

/-- A patcher that knows the first columns of its sheet by name. -/
structure Reads (p : SheetPatcher) (names : List String) : Prop where
  knows : Knows p names
  wide : names.length ≤ p.sheet.w
  rect : ∀ row ∈ p.sheet.arr, names.length ≤ row.length
  unmarked : Unmarked p.activeRow

namespace Reads

theorem rowMatches_eq (h : Reads p names) {cond : AssocMap String SheetCell}
    (hc : cond.keys.Nodup) {r : Nat} (hr : r < p.sheet.arr.length) :
    p.rowMatches (p.byCol cond) r = agrees names cond (p.sheet.arr[r].take names.length) := by
  have hlen := h.rect _ (List.getElem_mem hr)
  have htake : (p.sheet.arr[r].take names.length).length = names.length :=
    List.length_take_of_le hlen
  have hcell : ∀ i (hi : i < names.length), (p.sheet.arr[r].take names.length)[i]? =
    some (p.sheet.cell i r) := by
    intro i hi
    unfold TypedSheet.cell
    rw [List.getElem?_take_of_lt hi, List.getD_eq_getElem _ _ hr,
      List.getD_eq_getElem _ _ (by omega), List.getElem?_eq_getElem]
  unfold rowMatches
  rw [Bool.eq_iff_iff, agrees_iff htake, Bool.and_eq_true, List.all_eq_true]
  constructor
  · rintro ⟨-, hall⟩ i hi c hget
    have hi' : i < p.sheet.w := Nat.lt_of_lt_of_le hi h.wide
    have hmatch := hall i (List.mem_range.mpr hi')
    rw [h.knows.byCol_get? hc hi, hget] at hmatch
    rw [hcell i hi]
    exact congrArg some (of_decide_eq_true hmatch)
  · intro hall
    refine ⟨decide_eq_true (h.unmarked.cell r), fun i hi => ?_⟩
    by_cases hin : i < names.length
    · rw [h.knows.byCol_get? hc hin]
      cases hget : cond.get? names[i] with
      | none => rfl
      | some c =>
        have hmatch := hall i hin c hget
        rw [hcell i hin] at hmatch
        exact decide_eq_true (Option.some.inj hmatch)
    · rw [h.knows.byCol_none cond (by omega)]

/-- **The first row that agrees** is found, unless the conditions are those of the header line. -/
theorem matchRow_first (h : Reads p names) {cond : AssocMap String SheetCell} (hc : cond.keys.Nodup)
    {a b : List (List SheetCell)} {x : List SheetCell} (harr : p.sheet.arr = a ++ x :: b)
    (hx : agrees names cond (x.take names.length) = true)
    (ha : ∀ row ∈ a, agrees names cond (row.take names.length) = false)
    (hs : p.schema = true → ∃ i, ∃ hi : i < names.length, ∃ c, cond.get? names[i] = some c ∧
      c.text ≠ names[i]) :
    p.matchRow (p.byCol cond) = (a.length : Int) := by
  have hlen : p.sheet.arr.length = a.length + (b.length + 1) := by
    rw [harr, List.length_append, List.length_cons]
  have hheader : (p.schema && (p.byCol cond).all fun e => decide (e.2.2.text = e.2.1)) = false := by
    cases hsch : p.schema with
    | false => rfl
    | true =>
      obtain ⟨i, hi, c, hget, hne⟩ := hs hsch
      have hmem : (i, (names[i], c)) ∈ p.byCol cond := by
        apply AssocMap.mem_of_get?
        rw [h.knows.byCol_get? hc hi, hget]
        rfl
      rw [Bool.true_and, List.all_eq_false]
      exact ⟨_, hmem, by simpa using hne⟩
  have hfind : (List.range p.sheet.height).find? (p.rowMatches (p.byCol cond)) = some a.length := by
    unfold TypedSheet.height
    rw [List.find?_range_eq_some]
    refine ⟨?_, List.mem_range.mpr (by omega), fun j hj => ?_⟩
    · rw [h.rowMatches_eq hc (by omega), ← hx]
      congr 2
      simp only [harr]
      rw [List.getElem_append_right (Nat.le_refl _)]
      simp
    · rw [h.rowMatches_eq hc (by omega), Bool.not_eq_true']
      have hj' : p.sheet.arr[j] = a[j] := by
        simp only [harr]
        rw [List.getElem_append_left hj]
      rw [hj']
      exact ha _ (List.getElem_mem hj)
  unfold matchRow
  rw [hheader, if_neg (by simp), hfind]

end Reads

end SheetPatcher

end Coopy
