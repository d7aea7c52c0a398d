import Coopy.TdiffRowTerms

/-!
# Rows of a tdiff, written and read

The writer has two forms for a row and five kinds of rows, and a term of each says something else.
`Says` is what the parser takes from a term; `Fits` is what it has to know of the column beforehand,
from a header or from the row before.  The two halves meet there:

    a term of an active column says its values, in either form                 (says_term)
    terms that say them, under columns that fit, are read as the row           (rowChange_restored)
    and the columns that are left fit the row, too                             (rowColumns_eq)

Only a column that is assigned and never has a condition is taken for a fresh one, so a fresh column
that a row leaves to the next one does no harm.
-/

namespace Coopy

open Lib MergeOutputTdiff

namespace Tdiff

/-! ## Rows -/

/-- A row as a merge reports it over columns of these names, with conditions on those of
`condColumns`. -/
structure Reported (names condColumns : List String) (r : RowChange) : Prop where
  mode : r.mode ≠ .none
  conflictFree : r.conflicted = false ∧ r.conflictingVal = []
  columns : r.names = names ∨ r.mode = .context ∧ r.names = [] ∧ r.cond = [] ∧ r.val = []
  inserted : r.mode = .insert → r.cond = []
  cond : r.mode ≠ .insert → r.names = names → ∀ n, r.cond.contains n = true ↔ n ∈ condColumns
  val : ∀ n ∈ r.val.keys, n ∈ names
  deleted : r.mode = .delete → r.val = []
  indexed : ∀ n ∈ r.cond.keys, n ∈ r.indexes.keys
  cells : ∀ e ∈ r.cond ++ r.val, SimpleCell e.2

/-- The columns of a row that are written. -/
def active (r : RowChange) : List String :=
  r.names.filter fun n => shouldMatch r n || shouldAssign r n

/-- The line of a row, by its kind. -/
inductive RowKind : RowChangeMode → Char → (assign update : Bool) → Prop
  | insert : RowKind .insert '+' false true
  | delete : RowKind .delete '-' false false
  | context : RowKind .context '*' false false
  | move : RowKind .move ':' true true
  | update : RowKind .update '=' true true

/-- What stands in the fields of the columns has been chosen for the row. -/
structure Chosen (w : MergeOutputTdiff) (r : RowChange) : Prop where
  actives : w.actives r = active r
  select : ∀ n ∈ r.names, w.showForSelect.holds n = shouldMatch r n
  describe : ∀ n ∈ r.names, w.showForDescribe.holds n = shouldAssign r n
  cond : ∀ n ∈ r.names, w.showForCond.holds n = r.cond.contains n

theorem chosen_chooseOps (w : MergeOutputTdiff) (r : RowChange) : Chosen (w.chooseOps r) r where
  actives := by
    unfold MergeOutputTdiff.actives active chooseOps
    refine List.filter_congr fun n hn => ?_
    rw [AssocMap.holds_setAll]
    cases h : shouldMatch r n || shouldAssign r n with
    | true => rw [if_pos (List.mem_filter.2 ⟨hn, h⟩)]
    | false =>
      rw [if_neg fun hm => absurd (List.mem_filter.1 hm).2 (by rw [h]; exact Bool.false_ne_true)]
      rfl
  select := fun n hn => (AssocMap.holds_setAll _ _ _ n).trans (if_pos hn)
  describe := fun n hn => (AssocMap.holds_setAll _ _ _ n).trans (if_pos hn)
  cond := fun n hn => (AssocMap.holds_setAll _ _ _ n).trans (if_pos hn)

theorem Chosen.print {w : MergeOutputTdiff} {r : RowChange} (h : Chosen w r) (text : List Char) :
    Chosen (w.print text) r :=
  ⟨h.actives, h.select, h.describe, h.cond⟩

theorem Chosen.withOps {w : MergeOutputTdiff} {r : RowChange} (h : Chosen w r)
    (lops : List String) :
    Chosen { w with ops := lops } r := ⟨h.actives, h.select, h.describe, h.cond⟩

/-! ## What a term says -/

/-- The first value of a term. -/
def firstValue (r : RowChange) (factored : Bool) (n : String) : Option SheetCell :=
  if r.mode = .insert then if factored then (r.val.get? n).map asRead else some ⟨"", false⟩
  else if shouldMatch r n then (r.cond.get? n).map asRead
  else none

/-- The value behind the arrow. -/
def newValue (r : RowChange) (factored : Bool) (n : String) : Option SheetCell :=
  match r.mode with
  | .insert => if factored then none else (r.val.get? n).map asRead
  | .update | .move => (r.val.get? n).map asRead
  | _ => none

/-- The term is read as it was meant. -/
structure Says (p : TDiffPart) (r : RowChange) (factored : Bool) (n : String) : Prop where
  key : p.key = if factored then none else some n
  val : p.val = firstValue r factored n
  nval : p.nval = newValue r factored n
  fresh : p.isFresh = true → r.mode ≠ .insert ∧ shouldMatch r n = false

section
variable {names condColumns : List String} {r : RowChange} {w : MergeOutputTdiff} {n : String}

/-- A column is chosen by, or assigned, or both. -/
inductive Role (r : RowChange) (n : String) : Prop
  | assigned (match_ : shouldMatch r n = false) (assign : shouldAssign r n = true)
    (cond : r.cond.contains n = false)
  | matched (match_ : shouldMatch r n = true) (assign : shouldAssign r n = false)
    (cond : r.cond.contains n = true)
  | both (match_ : shouldMatch r n = true) (assign : shouldAssign r n = true)
    (cond : r.cond.contains n = true)

theorem cond_of_shouldMatch (h : shouldMatch r n = true) : r.cond.contains n = true := by
  unfold shouldMatch at h
  split at h
  · cases h
  · cases hc : r.cond.contains n
    · rw [hc, Bool.false_and, Bool.and_false] at h
      cases h
    · rfl

theorem val_of_shouldAssign (h : shouldAssign r n = true) : r.val.contains n = true := by
  unfold shouldAssign at h
  split at h
  · cases h
  · exact h

theorem role_of_active (hr : Reported names condColumns r) (h : n ∈ active r) : Role r n := by
  have hor := (List.mem_filter.1 h).2
  cases hm : shouldMatch r n with
  | true =>
    cases ha : shouldAssign r n with
    | true => exact .both hm ha (cond_of_shouldMatch hm)
    | false => exact .matched hm ha (cond_of_shouldMatch hm)
  | false =>
    rw [hm, Bool.false_or] at hor
    refine .assigned hm hor ?_
    by_cases hi : r.mode = .insert
    · rw [hr.inserted hi]
      rfl
    · have hv := val_of_shouldAssign hor
      unfold shouldMatch at hm
      rw [if_neg hi, hv, Bool.true_and] at hm
      exact (Bool.or_eq_false_iff.1 hm).2

/-- The term of a column. -/
def rowTerm (w : MergeOutputTdiff) (r : RowChange) (ch : Char) (assign update factored : Bool)
    (n : String) : List Char :=
  w.nameTerm factored assign ch n ++ conflictTerm r n ++ w.valueTerm r update n

/-- The name in front, with its separator; none in the factored form. -/
def keyed (factored : Bool) (n : String) (sep : Sep) : List Char :=
  if factored then [] else stringy n false ++ sep.text

theorem cString_stringy {n : String} (h : Alphanumeric n.toList) :
    cString (stringy n false) = stringy n false := by
  obtain ⟨q, hq⟩ := piece_stringy h false
  exact cString_of_not_mem hq.printed

theorem SimpleCell.cString_eq {c : SheetCell} (h : SimpleCell c) :
    cString (celly c false) = celly c false :=
  cString_of_not_mem (piece_celly h).printed

theorem conflictTerm_eq (hr : Reported names condColumns r) (n : String) :
    conflictTerm r n = [] := by
  unfold conflictTerm
  rw [hr.conflictFree.2]
  rfl

theorem nameTerm_matched (hw : Chosen w r) (hn : n ∈ r.names) (halpha : Alphanumeric n.toList)
    (hm : shouldMatch r n = true) (factored assign : Bool) (ch : Char) :
    w.nameTerm factored assign ch n = keyed factored n .equals := by
  unfold MergeOutputTdiff.nameTerm keyed
  simp only [hw.select n hn, hw.describe n hn, hw.cond n hn, hm, cond_of_shouldMatch hm,
    cString_stringy halpha]
  cases factored <;> cases shouldAssign r n <;> simp [Sep.text]

theorem nameTerm_assigned (hw : Chosen w r) (hn : n ∈ r.names) (halpha : Alphanumeric n.toList)
    (hm : shouldMatch r n = false) (ha : shouldAssign r n = true) (hc : r.cond.contains n = false)
    (factored assign : Bool) (ch : Char) :
    w.nameTerm factored assign ch n =
      if factored then if assign then '*' :: Sep.arrow.text else []
      else stringy n false ++
        (Sep.colon.text ++ ((if ch = '+' then [] else ['*']) ++ Sep.arrow.text)) := by
  unfold MergeOutputTdiff.nameTerm
  simp only [hw.select n hn, hw.describe n hn, hw.cond n hn, hm, ha, hc, cString_stringy halpha]
  cases factored <;> cases assign <;> by_cases hch : ch = '+' <;> simp [Sep.text, hch]

/-- The value that a column is assigned, behind an arrow. -/
def assigned (r : RowChange) (update : Bool) (n : String) : List Char :=
  if shouldAssign r n && update then Sep.arrow.text ++ celly ((r.val.get? n).getD ⟨"", true⟩) false
  else []

theorem cell_of_cond (hr : Reported names condColumns r) (h : r.cond.contains n = true) :
    ∃ c, r.cond.get? n = some c ∧ SimpleCell c := by
  obtain ⟨c, hc⟩ := Option.isSome_iff_exists.1 h
  exact ⟨c, hc, hr.cells _ (List.mem_append_left _ (AssocMap.mem_of_get? hc))⟩

theorem cell_of_val (hr : Reported names condColumns r) (h : r.val.contains n = true) :
    ∃ c, r.val.get? n = some c ∧ SimpleCell c := by
  obtain ⟨c, hc⟩ := Option.isSome_iff_exists.1 h
  exact ⟨c, hc, hr.cells _ (List.mem_append_right _ (AssocMap.mem_of_get? hc))⟩

theorem valueTerm_matched (hw : Chosen w r) (hr : Reported names condColumns r) (hn : n ∈ r.names)
    (hm : shouldMatch r n = true) (update : Bool) :
    w.valueTerm r update n = celly ((r.cond.get? n).getD ⟨"", true⟩) false ++
    assigned r update n := by
  obtain ⟨c, hc, hcell⟩ := cell_of_cond hr (cond_of_shouldMatch hm)
  have hcold := hcell.cString_eq
  unfold MergeOutputTdiff.valueTerm assigned
  simp only [hw.select n hn, hw.describe n hn, hw.cond n hn, hm, cond_of_shouldMatch hm,
    hr.conflictFree.2, hc]
  cases ha : shouldAssign r n && update with
  | false => simp [hcold]
  | true =>
    obtain ⟨v, hv, hval⟩ := cell_of_val hr (val_of_shouldAssign (Bool.and_eq_true_iff.1 ha).1)
    simp [AssocMap.contains, hcold, hv, hval.cString_eq, Sep.text]

theorem valueTerm_assigned (hw : Chosen w r) (hr : Reported names condColumns r) (hn : n ∈ r.names)
    (hm : shouldMatch r n = false) (ha : shouldAssign r n = true) (update : Bool) :
    w.valueTerm r update n = if update then celly ((r.val.get? n).getD ⟨"", true⟩) false
    else ['*'] := by
  obtain ⟨v, hv, hval⟩ := cell_of_val hr (val_of_shouldAssign ha)
  unfold MergeOutputTdiff.valueTerm
  simp only [hw.select n hn, hw.describe n hn, hm, ha, hr.conflictFree.2, hv]
  cases update <;> simp [AssocMap.contains, hval.cString_eq]

/-- A part of a line that says what stands in it. -/
structure Clean (t : List Char) : Prop where
  closed : closes false t = true
  unescaped : '\\' ∉ t
  oneLine : '\n' ∉ t

theorem Piece.clean {piece text : List Char} {quoted : Bool}
    (h : Piece piece text quoted) : Clean piece :=
  ⟨h.closed, h.unescaped, h.oneLine⟩

theorem Clean.append {x y : List Char} (hx : Clean x) (hy : Clean y) : Clean (x ++ y) where
  closed := (closes_append hx.closed).trans hy.closed
  unescaped := fun h => (List.mem_append.1 h).elim hx.unescaped hy.unescaped
  oneLine := fun h => (List.mem_append.1 h).elim hx.oneLine hy.oneLine

theorem clean_sep (sep : Sep) : Clean sep.text := by
  cases sep <;> exact ⟨by decide, by decide, by decide⟩

theorem clean_keyed (halpha : Alphanumeric n.toList) (factored : Bool) (sep : Sep) :
    Clean (keyed factored n sep) := by
  unfold keyed
  cases factored with
  | true => exact piece_nil.clean
  | false =>
    obtain ⟨q, hq⟩ := piece_stringy halpha false
    exact hq.clean.append (clean_sep sep)

theorem newValue_eq {ch : Char} {assign update : Bool} (hkind : RowKind r.mode ch assign update)
    (hi : r.mode ≠ .insert) (factored : Bool) :
    newValue r factored n = if shouldAssign r n && update then (r.val.get? n).map asRead
    else none := by
  have hassigned : ∀ o : Option SheetCell, o.map asRead = if o.isSome then o.map asRead
    else none := by
    intro o
    cases o <;> rfl
  unfold newValue
  generalize hmode : r.mode = mode at *
  cases hkind with
  | insert => exact absurd rfl hi
  | delete => rw [Bool.and_false]; rfl
  | context => rw [Bool.and_false]; rfl
  | move =>
    have hcontains : shouldAssign r n = r.val.contains n := if_neg (by rw [hmode]; decide)
    rw [Bool.and_true, hcontains]
    exact hassigned _
  | update =>
    have hcontains : shouldAssign r n = r.val.contains n := if_neg (by rw [hmode]; decide)
    rw [Bool.and_true, hcontains]
    exact hassigned _

/-- The columns that choose the row. -/
theorem says_matched (hw : Chosen w r) (hr : Reported names condColumns r) (hn : n ∈ r.names)
    (halpha : Alphanumeric n.toList) {ch : Char} {assign update : Bool}
    (hkind : RowKind r.mode ch assign update) (hm : shouldMatch r n = true) (factored : Bool) :
    Says (TDiffPart.apply (rowTerm w r ch assign update factored n) false) r factored n ∧
      Clean (rowTerm w r ch assign update factored n) := by
  obtain ⟨c, hc, hcell⟩ := cell_of_cond hr (cond_of_shouldMatch hm)
  have hi : r.mode ≠ .insert := fun hi => by
    unfold shouldMatch at hm
    rw [if_pos hi] at hm
    cases hm
  have hold := piece_celly hcell
  obtain ⟨q, hname⟩ := piece_stringy halpha false
  have hfirst : firstValue r factored n = some (asRead c) := by
    unfold firstValue
    rw [if_neg hi, if_pos hm, hc]
    rfl
  have hterm : rowTerm w r ch assign update factored n =
      keyed factored n .equals ++ (celly c false ++ assigned r update n) := by
    unfold rowTerm
    rw [nameTerm_matched hw hn halpha hm, conflictTerm_eq hr, valueTerm_matched hw hr hn hm, hc,
      List.append_nil]
    rfl
  rw [hterm]
  cases ha : shouldAssign r n && update with
  | false =>
    have hnone : assigned r update n = [] := by
      unfold assigned
      rw [ha]
      rfl
    have hnew : newValue r factored n = none := by
      rw [newValue_eq hkind hi, ha]
      rfl
    rw [hnone, List.append_nil]
    refine ⟨?_, (clean_keyed halpha factored .equals).append hold.clean⟩
    cases factored with
    | true =>
      rw [show keyed true n .equals ++ celly c false = celly c false from rfl,
        apply_shown hold.shown, cell?_simple hcell]
      exact ⟨rfl, hfirst.symm, hnew.symm, fun h => by cases h⟩
    | false =>
      rw [show keyed false n .equals ++ celly c false = stringy n false ++
        (Sep.equals.text ++ celly c false) from
        List.append_assoc _ _ _, apply_keyed hname hold, cell?_simple hcell, String.ofList_toList]
      exact ⟨rfl, hfirst.symm, hnew.symm, fun h => by cases h⟩
  | true =>
    obtain ⟨v, hv, hval⟩ := cell_of_val hr (val_of_shouldAssign (Bool.and_eq_true_iff.1 ha).1)
    have hnew := piece_celly hval
    have hsome : assigned r update n = Sep.arrow.text ++ celly v false := by
      unfold assigned
      rw [ha, hv]
      rfl
    have hnval : newValue r factored n = some (asRead v) := by
      rw [newValue_eq hkind hi, ha, hv]
      rfl
    rw [hsome]
    refine ⟨?_,
      (clean_keyed halpha factored .equals).append
        (hold.clean.append ((clean_sep .arrow).append hnew.clean))⟩
    cases factored with
    | true =>
      rw [show keyed true n .equals ++ (celly c false ++ (Sep.arrow.text ++ celly v false)) =
        celly c false ++ (Sep.arrow.text ++ celly v false) from rfl,
        apply_transition hold.shown hnew.shown hold.dash,
        cell?_simple hcell, cell?_simple hval]
      exact ⟨rfl, hfirst.symm, hnval.symm, fun h => by cases h⟩
    | false =>
      rw [show keyed false n .equals ++ (celly c false ++ (Sep.arrow.text ++ celly v false)) =
        stringy n false ++ (Sep.equals.text ++ (celly c false ++ (Sep.arrow.text ++ celly v false)))
        from
        List.append_assoc _ _ _, apply_named hname.shown hname.dash hold.shown hnew.shown hold.dash,
        cell?_simple hcell, cell?_simple hval, String.ofList_toList]
      exact ⟨rfl, hfirst.symm, hnval.symm, fun h => by cases h⟩

/-- A column that is assigned a value, whatever it was before. -/
theorem says_replaced {v : SheetCell} (hv : r.val.get? n = some v) (hval : SimpleCell v)
    (halpha : Alphanumeric n.toList) (hmode : r.mode = .update ∨ r.mode = .move)
    (hm : shouldMatch r n = false) (factored : Bool) :
    Says (TDiffPart.apply ((if factored then '*' :: Sep.arrow.text
        else stringy n false ++ (Sep.colon.text ++ (['*'] ++ Sep.arrow.text))) ++ celly v false)
          false) r factored n ∧
      Clean ((if factored then '*' :: Sep.arrow.text
        else stringy n false ++ (Sep.colon.text ++ (['*'] ++ Sep.arrow.text))) ++
          celly v false) := by
  obtain ⟨q, hname⟩ := piece_stringy halpha false
  have hnew := piece_celly hval
  have hnone : TDiffPart.cell? ['*'] false = none := rfl
  have hi : r.mode ≠ .insert := by rcases hmode with h | h <;> rw [h] <;> decide
  have hfirst : firstValue r factored n = none := by
    unfold firstValue
    rw [if_neg hi, if_neg (by rw [hm]; decide)]
  have hnval : newValue r factored n = some (asRead v) := by
    unfold newValue
    rcases hmode with h | h <;> rw [h, hv] <;> rfl
  cases factored with
  | true =>
    show Says (TDiffPart.apply (['*'] ++ (Sep.arrow.text ++ celly v false)) false) r true n ∧
      Clean (['*'] ++ (Sep.arrow.text ++ celly v false))
    refine ⟨?_, piece_star.clean.append ((clean_sep .arrow).append hnew.clean)⟩
    rw [apply_transition piece_star.shown hnew.shown piece_star.dash, hnone, cell?_simple hval]
    exact ⟨rfl, hfirst.symm, hnval.symm, fun _ => ⟨hi, hm⟩⟩
  | false =>
    have hterm : stringy n false ++ (Sep.colon.text ++ (['*'] ++ Sep.arrow.text)) ++ celly v false =
        stringy n false ++ (Sep.colon.text ++ (['*'] ++ (Sep.arrow.text ++ celly v false))) := by
      simp only [List.append_assoc]
    rw [if_neg Bool.false_ne_true, hterm]
    have hclean := piece_star.clean.append ((clean_sep .arrow).append hnew.clean)
    refine ⟨?_, hname.clean.append ((clean_sep .colon).append hclean)⟩
    rw [apply_fresh hname piece_star hnew, hnone, cell?_simple hval, String.ofList_toList]
    exact ⟨rfl, hfirst.symm, hnval.symm, fun _ => ⟨hi, hm⟩⟩

/-- The columns that are only assigned. -/
theorem says_assigned (hw : Chosen w r) (hr : Reported names condColumns r) (hn : n ∈ r.names)
    (halpha : Alphanumeric n.toList) {ch : Char} {assign update : Bool}
    (hkind : RowKind r.mode ch assign update)
    (hm : shouldMatch r n = false) (ha : shouldAssign r n = true) (hc : r.cond.contains n = false)
    (factored : Bool) :
    Says (TDiffPart.apply (rowTerm w r ch assign update factored n) false) r factored n ∧
      Clean (rowTerm w r ch assign update factored n) := by
  obtain ⟨v, hv, hval⟩ := cell_of_val hr (val_of_shouldAssign ha)
  have hnew := piece_celly hval
  obtain ⟨q, hname⟩ := piece_stringy halpha false
  have hempty : TDiffPart.cell? [] false = some ⟨"", false⟩ := rfl
  have hnone : TDiffPart.cell? ['*'] false = none := rfl
  have hterm : rowTerm w r ch assign update factored n =
      (if factored then if assign then '*' :: Sep.arrow.text else []
        else stringy n false ++
          (Sep.colon.text ++ ((if ch = '+' then [] else ['*']) ++ Sep.arrow.text))) ++
      if update then celly v false else ['*'] := by
    unfold rowTerm
    rw [nameTerm_assigned hw hn halpha hm ha hc, conflictTerm_eq hr,
      valueTerm_assigned hw hr hn hm ha, hv, List.append_nil]
    rfl
  have hplain : ∀ o z : List Char, stringy n false ++ (Sep.colon.text ++ (o ++ Sep.arrow.text)) ++
    z =
      stringy n false ++ (Sep.colon.text ++ (o ++ (Sep.arrow.text ++ z))) := fun o z => by
    simp only [List.append_assoc]
  rw [hterm]
  have hclean : ∀ {o z : List Char}, Clean o → Clean z →
      Clean (stringy n false ++ (Sep.colon.text ++ (o ++ (Sep.arrow.text ++ z)))) := fun ho hz =>
    hname.clean.append ((clean_sep .colon).append (ho.append ((clean_sep .arrow).append hz)))
  generalize hmode : r.mode = mode at hkind
  cases hkind with
  | delete =>
    unfold shouldAssign at ha
    rw [if_pos hmode] at ha
    cases ha
  | insert =>
    cases factored with
    | true =>
      show Says (TDiffPart.apply (celly v false) false) r true n ∧ Clean (celly v false)
      refine ⟨?_, hnew.clean⟩
      rw [apply_shown hnew.shown, cell?_simple hval]
      refine ⟨rfl, ?_, ?_, fun h => by cases h⟩
      · unfold firstValue
        rw [if_pos hmode, hv]
        rfl
      · unfold newValue
        rw [hmode]
        rfl
    | false =>
      rw [if_neg Bool.false_ne_true, if_pos rfl, if_pos rfl, hplain]
      refine ⟨?_, hclean piece_nil.clean hnew.clean⟩
      rw [apply_fresh hname piece_nil hnew, hempty, cell?_simple hval, String.ofList_toList]
      refine ⟨rfl, ?_, ?_, fun h => by cases h⟩
      · unfold firstValue
        rw [if_pos hmode]
        rfl
      · unfold newValue
        rw [hmode, hv]
        rfl
  | context =>
    have hfirst : firstValue r factored n = none := by
      unfold firstValue
      rw [if_neg (by rw [hmode]; decide), if_neg (by rw [hm]; decide)]
    have hnval : newValue r factored n = none := by
      unfold newValue
      rw [hmode]
    have hi : r.mode ≠ .insert := by rw [hmode]; decide
    cases factored with
    | true =>
      show Says (TDiffPart.apply ['*'] false) r true n ∧ Clean ['*']
      refine ⟨?_, piece_star.clean⟩
      rw [apply_empty]
      exact ⟨rfl, hfirst.symm, hnval.symm, fun h => by cases h⟩
    | false =>
      rw [if_neg Bool.false_ne_true, if_neg (by decide), if_neg Bool.false_ne_true, hplain]
      refine ⟨?_, hclean piece_star.clean piece_star.clean⟩
      rw [apply_fresh hname piece_star piece_star, hnone, String.ofList_toList]
      exact ⟨rfl, hfirst.symm, hnval.symm, fun _ => ⟨hi, hm⟩⟩
  | move => exact says_replaced hv hval halpha (Or.inr hmode) hm factored
  | update => exact says_replaced hv hval halpha (Or.inl hmode) hm factored

theorem says_term (hw : Chosen w r) (hr : Reported names condColumns r) (hn : n ∈ active r)
    (halpha : Alphanumeric n.toList) {ch : Char} {assign update : Bool}
    (hkind : RowKind r.mode ch assign update) (factored : Bool) :
    Says (TDiffPart.apply (rowTerm w r ch assign update factored n) false) r factored n ∧
      Clean (rowTerm w r ch assign update factored n) := by
  have hmem := (List.mem_filter.1 hn).1
  cases role_of_active hr hn with
  | assigned hm ha hc => exact says_assigned hw hr hmem halpha hkind hm ha hc factored
  | matched hm => exact says_matched hw hr hmem halpha hkind hm factored
  | both hm => exact says_matched hw hr hmem halpha hkind hm factored

/-! ## A row that is read -/

/-- A column of the parser; one that the row before has only assigned has no conditions at all. -/
structure Fits (condColumns : List String) (col : TDiffPart) (n : String) : Prop where
  key : col.key = some n
  fresh : col.isFresh = true → n ∉ condColumns

/-- The condition that is read on a column. -/
def readCond (r : RowChange) (n : String) : Option SheetCell :=
  if shouldMatch r n then (r.cond.get? n).map asRead else none

/-- The value that is read. -/
def readVal (r : RowChange) (n : String) : Option SheetCell :=
  match r.mode with
  | .delete | .context => none
  | _ => (r.val.get? n).map asRead

theorem names_of_active (hr : Reported names condColumns r) (h : n ∈ active r) :
    r.names = names := by
  refine hr.columns.resolve_right fun hblank => ?_
  have := (List.mem_filter.1 h).1
  rw [hblank.2.1] at this
  exact List.not_mem_nil this

/-- A column that is only assigned has no condition. -/
theorem notMem_condColumns (hr : Reported names condColumns r) (hn : n ∈ active r)
    (hi : r.mode ≠ .insert) (hm : shouldMatch r n = false) : n ∉ condColumns := by
  intro hmem
  have hc := (hr.cond hi (names_of_active hr hn) n).2 hmem
  cases role_of_active hr hn with
  | assigned _ _ hc' =>
    rw [hc] at hc'
    cases hc'
  | matched hm' =>
    rw [hm] at hm'
    cases hm'
  | both hm' =>
    rw [hm] at hm'
    cases hm'

/-- The parser has the columns of the row, for each of its terms. -/
theorem rowColumns_eq (hr : Reported names condColumns r) {cols assign : List TDiffPart}
    {factored : Bool}
    (hterms : List.Forall₂ (fun p n => n ∈ active r ∧ Says p r factored n) assign (active r))
    (hcols : factored = true → active r ≠ [] → List.Forall₂ (Fits condColumns) cols (active r)) :
    ∃ cols', rowColumns cols assign = some cols' ∧
    List.Forall₂ (Fits condColumns) cols' (active r) ∧
      (r.mode = .insert → factored = false → ∀ c ∈ cols', c.isFresh = false) := by
  have hlen : assign.length = (active r).length := hterms.length_eq
  by_cases hnil : active r = []
  · rw [hnil] at hterms ⊢
    obtain rfl := List.forall₂_nil_right_iff.1 hterms
    refine ⟨[], ?_, .nil, fun _ _ => List.forall_mem_nil _⟩
    unfold rowColumns
    simp
  have hpos : 0 < (active r).length := List.length_pos_iff.2 hnil
  have hkeys : ∀ p ∈ assign, p.key.isSome = !factored :=
    ((List.forall₂_and_left _ _).1
      (hterms.imp fun p n h => ⟨by rw [h.2.key]; cases factored <;> rfl, h⟩)).1
  -- the columns are those of the header, or the ones that the terms name
  have hall : ∀ cols' : List TDiffPart, cols'.length = assign.length →
      (if assign.any (·.key.isSome) then assign.map fun a =>
        { a with val := none, nval := none, cval := none }
        else cols) = cols' → rowColumns cols assign = some cols' := by
    intro cols' hlen' hcols'
    have hne : cols' ≠ [] := List.length_pos_iff.1 (by omega)
    unfold rowColumns
    simp only [hcols']
    rw [← hlen', List.take_length, if_neg hne, if_pos rfl]
  cases factored with
  | true =>
    have hfits := hcols rfl hnil
    refine ⟨cols, hall cols (hfits.length_eq.trans hlen.symm) (if_neg ?_), hfits,
      fun _ h => by cases h⟩
    rw [List.any_eq_true]
    rintro ⟨p, hp, hkey⟩
    rw [hkeys p hp] at hkey
    cases hkey
  | false =>
    refine ⟨_, hall _ (List.length_map _) (if_pos ?_), ?_, fun hi _ => ?_⟩
    · obtain ⟨p, hp⟩ := List.exists_mem_of_length_pos (hlen ▸ hpos)
      exact List.any_eq_true.2 ⟨p, hp, hkeys p hp⟩
    · refine List.forall₂_map_left_iff.2 (hterms.imp fun p n h => ⟨h.2.key, fun hfresh => ?_⟩)
      obtain ⟨hi, hm⟩ := h.2.fresh hfresh
      exact notMem_condColumns hr h.1 hi hm
    · have hall :=
        hterms.imp fun p n h => And.intro (Bool.eq_false_iff.2 fun hf => (h.2.fresh hf).1 hi) h
      exact List.forall_mem_map.2 ((List.forall₂_and_left _ _).1 hall).1

/-- A term gives a condition if the row is chosen by its column. -/
theorem conded_eq (hr : Reported names condColumns r) (hn : n ∈ active r) {context part : TDiffPart}
    {factored : Bool} (hfits : Fits condColumns context n) (hs : Says part r factored n) :
    conded r.mode context part = shouldMatch r n := by
  unfold conded
  by_cases hi : r.mode = .insert
  · have hm : shouldMatch r n = false := if_pos hi
    rw [hm, decide_eq_false (not_not_intro hi), Bool.and_false, Bool.false_and]
  · rw [hs.val, hfits.key, decide_eq_true hi]
    unfold firstValue
    rw [if_neg hi]
    cases hm : shouldMatch r n with
    | false => rfl
    | true =>
      have hc := cond_of_shouldMatch hm
      have hfresh : context.isFresh = false := Bool.eq_false_iff.2 fun hf =>
        hfits.fresh hf ((hr.cond hi (names_of_active hr hn) n).1 hc)
      rw [if_pos rfl, hfresh]
      rw [Option.isSome_map, show (r.cond.get? n).isSome = true from hc]
      rfl

/-! ## What a term adds -/

theorem cName_eq (halpha : Alphanumeric n.toList) {context : TDiffPart}
    (hfits : Fits condColumns context n) : cName context.name = n := by
  unfold cName TDiffPart.name
  rw [hfits.key, Option.getD_some, cString_of_not_mem (halpha.notMem (by decide)),
    String.ofList_toList]

section
variable {context part : TDiffPart} {factored : Bool} {change : RowChange}
  (hr : Reported names condColumns r) (hn : n ∈ active r) (halpha : Alphanumeric n.toList)
  (hfits : Fits condColumns context n) (hs : Says part r factored n) (hmode : change.mode = r.mode)

include hr hn halpha hfits hs hmode

theorem get?_cond_addTerm (k : String) :
    (addTerm change context part).cond.get? k =
      if k = n then (readCond r n).or (change.cond.get? k) else change.cond.get? k := by
  have hconded : conded change.mode context part = shouldMatch r n :=
    hmode ▸ conded_eq hr hn hfits hs
  unfold addTerm readCond
  simp only [cName_eq halpha hfits, hconded, hs.val]
  cases hm : shouldMatch r n with
  | false => simp
  | true =>
    have hi : r.mode ≠ .insert := fun hi => by
      rw [show shouldMatch r n = false from if_pos hi] at hm
      cases hm
    obtain ⟨c, hc⟩ := Option.isSome_iff_exists.1 (cond_of_shouldMatch hm)
    unfold firstValue
    rw [if_neg hi, hm, if_pos rfl, if_pos rfl, hc, AssocMap.get?_set]
    rfl

/-- In an insert the value stands in the term, alone or behind an arrow. -/
theorem get?_val_addTerm_insert (hi : r.mode = .insert) (hfresh : factored = false →
    context.isFresh = false)
    (k : String) :
    (addTerm change context part).val.get? k =
      if k = n then (readVal r n).or (change.val.get? k) else change.val.get? k := by
  have hm : shouldMatch r n = false := if_pos hi
  have ha : shouldAssign r n = true := by
    have hor := (List.mem_filter.1 hn).2
    rwa [hm, Bool.false_or] at hor
  obtain ⟨v, hv⟩ := Option.isSome_iff_exists.1 (val_of_shouldAssign ha)
  have hconded : conded .insert context part = false := hi ▸ hm ▸ conded_eq hr hn hfits hs
  have hread : readVal r n = some (asRead v) := by
    unfold readVal
    rw [hi, hv]
    rfl
  have hval : part.val = if factored then some (asRead v) else some ⟨"", false⟩ := by
    rw [hs.val]
    unfold firstValue
    rw [if_pos hi, hv]
    rfl
  have hnval : part.nval = if factored then none else some (asRead v) := by
    rw [hs.nval]
    unfold newValue
    rw [hi, hv]
    rfl
  rw [hread]
  unfold addTerm
  simp only [cName_eq halpha hfits, hmode, hi, hval, hnval, hconded]
  cases factored with
  | true =>
    -- in a fresh column the value is set twice
    cases context.isFresh with
    | false => simp [AssocMap.get?_set]
    | true =>
      simp only [AssocMap.get?_set, if_pos, Option.isSome_some, Bool.not_false, Bool.and_self,
        Option.getD_some]
      by_cases hk : k = n
      · rw [if_pos hk, if_pos hk]
        rfl
      · rw [if_neg hk, if_neg hk, if_pos ⟨trivial, trivial⟩, AssocMap.get?_set_ne _ _ hk]
  | false =>
    rw [hfresh rfl]
    simp [AssocMap.get?_set]

/-- In other rows only the value behind an arrow counts. -/
theorem get?_val_addTerm (hi : r.mode ≠ .insert) (k : String) :
    (addTerm change context part).val.get? k =
      if k = n then (readVal r n).or (change.val.get? k) else change.val.get? k := by
  have hread : part.nval = readVal r n := by
    rw [hs.nval]
    unfold newValue readVal
    cases hmode' : r.mode with
    | none => exact absurd hmode' hr.mode
    | insert => exact absurd hmode' hi
    | _ => rfl
  have hfresh : (context.isFresh && part.val.isSome) = false := by
    cases hf : context.isFresh with
    | false => rfl
    | true =>
      have hm : shouldMatch r n = false := by
        refine Bool.eq_false_iff.2 fun hm => hfits.fresh hf ?_
        exact (hr.cond hi (names_of_active hr hn) n).1 (cond_of_shouldMatch hm)
      rw [hs.val]
      unfold firstValue
      rw [if_neg hi, hm]
      rfl
  unfold addTerm
  simp only [cName_eq halpha hfits, hmode, hfresh, hread]
  cases readVal r n with
  | none => simp [hi]
  | some v => simp [AssocMap.get?_set]

end

/-- What a row is read as. -/
structure Restored (r r' : RowChange) : Prop where
  mode : r'.mode = r.mode
  cond : ∀ k, r'.cond.get? k = if k ∈ active r then readCond r k else none
  val : ∀ k, r'.val.get? k = if k ∈ active r then readVal r k else none

/-- One column more, in a map. -/
theorem ite_mem_cons {used : List String} (f g : String → Option SheetCell) (k : String) :
    (if k ∈ used then (f k).or (if k = n then (f n).or (g k) else g k)
      else if k = n then (f n).or (g k) else g k) =
      if k ∈ n :: used then (f k).or (g k) else g k := by
  by_cases hk : k = n
  · subst hk
    rw [if_pos rfl, if_pos List.mem_cons_self]
    split
    · cases f k <;> rfl
    · rfl
  · rw [if_neg hk]
    simp [hk]

/-- The terms are added one after the other. -/
theorem foldl_addTerm (hr : Reported names condColumns r)
    (halpha : ∀ n ∈ active r, Alphanumeric n.toList)
    {factored : Bool} {used : List String} {assign : List TDiffPart}
    (hterms : List.Forall₂ (fun p n => n ∈ active r ∧ Says p r factored n) assign used) :
    ∀ {cols : List TDiffPart} {change : RowChange}, change.mode = r.mode →
    List.Forall₂ (Fits condColumns) cols used →
      (r.mode = .insert → factored = false → ∀ c ∈ cols, c.isFresh = false) →
      let final := (cols.zip assign).foldl (fun change term => addTerm change term.1 term.2) change
      final.mode = r.mode ∧
        (∀ k, final.cond.get? k = if k ∈ used then (readCond r k).or (change.cond.get? k)
          else change.cond.get? k) ∧
        ∀ k, final.val.get? k = if k ∈ used then (readVal r k).or (change.val.get? k)
        else change.val.get? k := by
  induction hterms with
  | nil =>
    intro cols change hmode hfits _
    obtain rfl := List.forall₂_nil_right_iff.1 hfits
    exact ⟨hmode, fun k => (if_neg List.not_mem_nil).symm, fun k => (if_neg List.not_mem_nil).symm⟩
  | @cons p n assign used hp _ ih =>
    intro cols change hmode hfits hinsert
    obtain ⟨context, cols, hfit, hfits', rfl⟩ := List.forall₂_cons_right_iff.1 hfits
    have hplain := halpha n hp.1
    have hone := get?_cond_addTerm hr hp.1 hplain hfit hp.2 hmode
    have hval : ∀ k, (addTerm change context p).val.get? k =
        if k = n then (readVal r n).or (change.val.get? k) else change.val.get? k := fun k => by
      by_cases hi : r.mode = .insert
      · exact get?_val_addTerm_insert hr hp.1 hplain hfit hp.2 hmode hi
          (fun hf => hinsert hi hf context List.mem_cons_self) k
      · exact get?_val_addTerm hr hp.1 hplain hfit hp.2 hmode hi k
    obtain ⟨hmode', hcond', hval'⟩ := @ih cols (addTerm change context p) hmode hfits'
      fun hi hf c hc => hinsert hi hf c (List.mem_cons_of_mem _ hc)
    refine ⟨hmode', fun k => ?_, fun k => ?_⟩
    · rw [List.zip_cons_cons, List.foldl_cons, hcond', hone]
      exact ite_mem_cons (readCond r) change.cond.get? k
    · rw [List.zip_cons_cons, List.foldl_cons, hval', hval]
      exact ite_mem_cons (readVal r) change.val.get? k

theorem rowChange_restored (hr : Reported names condColumns r)
    (halpha : ∀ n ∈ active r, Alphanumeric n.toList)
    {cols assign : List TDiffPart} {factored : Bool}
    (hterms : List.Forall₂ (fun p n => n ∈ active r ∧ Says p r factored n) assign (active r))
    (hfits : List.Forall₂ (Fits condColumns) cols (active r))
    (hinsert : r.mode = .insert → factored = false → ∀ c ∈ cols, c.isFresh = false) :
    Restored r (rowChange r.mode false cols assign) := by
  have hstart : ({ mode := r.mode, conflicted := false } : RowChange).mode = r.mode := rfl
  obtain ⟨hmode, hcond, hval⟩ := foldl_addTerm hr halpha hterms hstart hfits hinsert
  refine ⟨hmode, fun k => (hcond k).trans ?_, fun k => (hval k).trans ?_⟩
  · rw [AssocMap.get?_nil, Option.or_none]
  · rw [AssocMap.get?_nil, Option.or_none]

end

end Tdiff

end Coopy
