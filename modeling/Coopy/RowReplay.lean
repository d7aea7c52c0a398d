import Coopy.Lib.Zipper
import Coopy.SheetPatcher

/-!
# Row changes as edits by search

What `changeRow` does to a sheet without schema is an `Edit` of its rows: the test is
agreement with the conditions, and the assignments are made to the row that is found.
The cursor is the place in the rows, with `-1` for the end.

    p shows z  →  p.changeRow change = some p', p' shows (change.edit ..).apply z
                                                                                 (Follows.changeRow)
-/

namespace Coopy

open Lib

namespace RowChange

/-! ## The edit -/

/-- The row agrees with the conditions. -/
def agrees (names : List String) (cond : AssocMap String SheetCell) (row : List SheetCell) : Bool :=
  (names.zip row).all fun e => (cond.get? e.1).all fun c => decide (e.2 = c)

/-- The row with the assignments made. -/
def patched (names : List String) (val : AssocMap String SheetCell) (row : List SheetCell) :
    List SheetCell :=
  List.zipWith (fun n c => (val.get? n).getD c) names row

/-- What a change does to the rows of a sheet whose columns have these names. -/
def edit (names : List String) (zero : SheetCell) (change : RowChange) : Edit (List SheetCell) :=
  match change.mode with
  | .insert => .insert (patched names change.val (List.replicate names.length zero))
  | .delete => .delete (agrees names change.cond)
  | .context => if change.cond = [] then .top else .seek (agrees names change.cond)
  | .move => .move (agrees names change.cond) (patched names change.val)
  | .update => .update (agrees names change.cond) (patched names change.val)
  | .none => .seek fun _ => false

/-- A change that `changeRow` reads as it stands. -/
structure Plain (names : List String) (change : RowChange) : Prop where
  all_names : change.allNames = names
  sequential : change.sequential = true
  unconflicted : change.conflicted = false
  cond_nodup : change.cond.keys.Nodup
  cond_names : ∀ n ∈ change.cond.keys, n ∈ names
  val_nodup : change.val.keys.Nodup

theorem patched_length {names : List String} (val : AssocMap String SheetCell)
    {row : List SheetCell}
    (h : row.length = names.length) : (patched names val row).length = names.length := by
  unfold patched
  rw [List.length_zipWith, h, Nat.min_self]

theorem patched_getElem? {names : List String} (val : AssocMap String SheetCell)
    {row : List SheetCell} (h : row.length = names.length) {i : Nat} (hi : i < names.length) :
    (patched names val row)[i]? = some ((val.get? names[i]).getD row[i]) := by
  unfold patched
  rw [List.getElem?_eq_getElem (by rw [List.length_zipWith]; omega), List.getElem_zipWith]

theorem agrees_iff {names : List String} {cond : AssocMap String SheetCell} {row : List SheetCell}
    (h : row.length = names.length) : agrees names cond row = true ↔
      ∀ i (hi : i < names.length), ∀ c, cond.get? names[i] = some c → row[i]? = some c := by
  unfold agrees
  rw [List.all_eq_true]
  constructor
  · intro hall i hi c hc
    have hmem : (names[i], row[i]) ∈ names.zip row := by
      rw [← List.getElem_zip (h := by rw [List.length_zip]; omega)]
      exact List.getElem_mem _
    have := hall _ hmem
    rw [hc] at this
    rw [List.getElem?_eq_getElem (by omega)]
    exact congrArg some (of_decide_eq_true this)
  · intro hall e he
    obtain ⟨i, hi, rfl⟩ := List.mem_iff_getElem.mp he
    have hi' : i < names.length := by rw [List.length_zip] at hi; omega
    rw [List.getElem_zip]
    cases hc : cond.get? names[i] with
    | none => rfl
    | some c =>
      have := hall i hi' c hc
      rw [List.getElem?_eq_getElem (by omega)] at this
      exact decide_eq_true (Option.some.inj this)

end RowChange

namespace SheetPatcher

open RowChange

/-! ## Maps by column -/

/-- What `byCol` does with one entry. -/
def enterCol (p : SheetPatcher) (acc : AssocMap Nat (String × SheetCell)) (e : String × SheetCell) :
    AssocMap Nat (String × SheetCell) :=
  match p.name2col.get? e.1 with
  | some idx => acc.set idx e
  | none => acc

/-- The patcher finds each column by its name, and no other. -/
structure Knows (p : SheetPatcher) (names : List String) : Prop where
  nodup : names.Nodup
  found : ∀ i (hi : i < names.length), p.name2col.get? names[i] = some i
  others : ∀ n ∉ names, p.name2col.get? n = none

namespace Knows

variable {p : SheetPatcher} {names : List String}

theorem get?_iff (h : Knows p names) {n : String} {i : Nat} (hi : i < names.length) :
    p.name2col.get? n = some i ↔ n = names[i] := by
  constructor
  · intro hn
    by_cases hm : n ∈ names
    · obtain ⟨j, hj, rfl⟩ := List.mem_iff_getElem.mp hm
      have hij : j = i := Option.some.inj ((h.found j hj).symm.trans hn)
      subst hij
      rfl
    · rw [h.others n hm] at hn
      cases hn
  · rintro rfl
    exact h.found i hi

theorem byCol_get? (h : Knows p names) {m : AssocMap String SheetCell} (hm : m.keys.Nodup) {i : Nat}
    (hi : i < names.length) : (p.byCol m).get? i = (m.get? names[i]).map fun c =>
    (names[i], c) := by
  suffices hgen : ∀ acc : AssocMap Nat (String × SheetCell),
      (m.foldl p.enterCol acc).get? i = ((m.get? names[i]).map fun c => (names[i], c)).or
        (acc.get? i) by
    exact (hgen []).trans (Option.or_none ..)
  induction m with
  | nil => exact fun acc => rfl
  | cons e m ih =>
    intro acc
    obtain ⟨he, hm⟩ := List.nodup_cons.mp hm
    rw [List.foldl_cons, ih hm, AssocMap.get?_cons, enterCol]
    by_cases hn : e.1 = names[i]
    · have hnone : AssocMap.get? m names[i] = none := AssocMap.get?_eq_none_iff.mpr (hn ▸ he)
      rw [if_pos hn, hnone, hn, h.found i hi]
      simp only [Option.map_none, Option.none_or, Option.map_some, Option.some_or,
        AssocMap.get?_set_self]
      rw [← hn]
    · rw [if_neg hn]
      cases hc : p.name2col.get? e.1 with
      | none => rfl
      | some j =>
        have hij : i ≠ j := by
          rintro rfl
          exact hn ((h.get?_iff hi).mp hc)
        simp only
        rw [AssocMap.get?_set_ne _ _ hij]

theorem byCol_nodup (p : SheetPatcher) (m : AssocMap String SheetCell) :
    (p.byCol m).keys.Nodup := by
  suffices hgen : ∀ acc : AssocMap Nat (String × SheetCell), acc.keys.Nodup →
    (AssocMap.keys (m.foldl p.enterCol acc)).Nodup by
    exact hgen [] List.nodup_nil
  induction m with
  | nil => exact fun acc h => h
  | cons e m ih =>
    intro acc hacc
    rw [List.foldl_cons]
    apply ih
    unfold enterCol
    split
    · exact AssocMap.nodup_keys_set hacc _ _
    · exact hacc

/-- There is a condition on a column if there is one at all. -/
theorem byCol_isEmpty (h : Knows p names) {m : AssocMap String SheetCell} (hm : m.keys.Nodup)
    (hk : ∀ n ∈ m.keys, n ∈ names) : (p.byCol m).isEmpty = decide (m = []) := by
  cases m with
  | nil => rfl
  | cons e m =>
    obtain ⟨i, hi, hn⟩ := List.mem_iff_getElem.mp (hk e.1 (by simp [AssocMap.keys]))
    have hget := h.byCol_get? hm hi
    rw [AssocMap.get?_cons, if_pos hn.symm] at hget
    cases hb : p.byCol (e :: m) with
    | nil =>
      rw [hb] at hget
      cases hget
    | cons e' m' => simp

end Knows

/-- The assignments to one row. -/
def assignRow (val : AssocMap Nat (String × SheetCell)) (row : List SheetCell) : List SheetCell :=
  val.foldl (fun row e => row.set e.1 e.2.2) row

theorem assign_eq (sheet : TypedSheet SheetCell) (val : AssocMap Nat (String × SheetCell))
    (r : Nat) : assign sheet val r = { sheet with arr := sheet.arr.modify r (assignRow val) } := by
  unfold assign
  induction val generalizing sheet with
  | nil =>
    show sheet = { sheet with arr := sheet.arr.modify r id }
    rw [List.modify_id]
  | cons e val ih =>
    rw [List.foldl_cons, ih]
    unfold TypedSheet.setCell
    simp only [List.modify_modify_eq]
    rfl

theorem assignRow_getElem? (val : AssocMap Nat (String × SheetCell)) (hn : val.keys.Nodup)
    (i : Nat) : ∀ row : List SheetCell,
      (assignRow val row)[i]? = row[i]?.map fun c => ((val.get? i).map Prod.snd).getD c := by
  unfold assignRow
  induction val with
  | nil => intro row; simp
  | cons e val ih =>
    intro row
    obtain ⟨he, hn⟩ := List.nodup_cons.mp hn
    rw [List.foldl_cons, ih hn, AssocMap.get?_cons, List.getElem?_set]
    by_cases hi : e.1 = i
    · subst hi
      have hnone : AssocMap.get? val e.1 = none := AssocMap.get?_eq_none_iff.mpr he
      rw [if_pos rfl, if_pos rfl, hnone]
      by_cases hlt : e.1 < row.length
      · simp [hlt]
      · simp [hlt]
    · rw [if_neg hi, if_neg hi]

theorem Knows.assignRow_eq {p : SheetPatcher} {names : List String} (h : Knows p names)
    {val : AssocMap String SheetCell} (hv : val.keys.Nodup) {row : List SheetCell}
    (hr : row.length = names.length) : assignRow (p.byCol val) row = patched names val row := by
  refine List.ext_getElem? fun i => ?_
  rw [assignRow_getElem? _ (Knows.byCol_nodup p val)]
  unfold patched
  rw [List.getElem?_zipWith]
  by_cases hi : i < names.length
  · rw [h.byCol_get? hv hi, List.getElem?_eq_getElem hi,
      List.getElem?_eq_getElem (show i < row.length by omega)]
    cases hc : val.get? names[i] <;> simp [hc]
  · rw [List.getElem?_eq_none (show row.length ≤ i by omega),
      List.getElem?_eq_none (show names.length ≤ i by omega)]
    rfl

end SheetPatcher

/-! ## The sheet at a place -/

namespace TypedSheet

variable {T : Type} {s : TypedSheet T} {a b c : List (List T)} {x : List T}

/-- The reference for the place between `a` and `b`. -/
def placeOf (a b : List (List T)) : Int := if b = [] then -1 else (a.length : Int)

theorem insertRow_at (h : s.arr = a ++ b) :
    s.insertRow (placeOf a b) = ({ s with arr := a ++ List.replicate s.w s.zero :: b },
      (a.length : Int)) := by
  unfold insertRow placeOf height
  cases b with
  | nil =>
    rw [List.append_nil] at h
    simp only [if_true, h]
    rw [if_neg (by omega), if_pos (by omega)]
  | cons y b =>
    have hlen : s.arr.length = a.length + (b.length + 1) := by
      rw [h, List.length_append, List.length_cons]
    simp only [reduceCtorEq, if_false]
    rw [if_neg (by omega), if_neg (by omega), Int.toNat_natCast, h, insertIdx_append]

theorem deleteRow_at (h : s.arr = a ++ x :: b) :
    s.deleteRow (a.length : Int) = ({ s with arr := a ++ b }, true) := by
  have hlen : s.arr.length = a.length + (b.length + 1) := by
    rw [h, List.length_append, List.length_cons]
  unfold deleteRow height
  rw [if_neg (by omega), Int.toNat_natCast, h, eraseIdx_append_cons]

/-- The row stood before the place. -/
theorem moveRow_back (h : s.arr = a ++ x :: b ++ c) :
    s.moveRow (a.length : Int) (placeOf (a ++ x :: b) c) =
      ({ s with arr := a ++ b ++ x :: c }, ((a ++ b).length : Int)) := by
  have hlen : s.arr.length = a.length + b.length + 1 + c.length := by
    rw [h, List.length_append, List.length_append, List.length_cons]
    omega
  have hx : s.arr.getD a.length [] = x := by
    rw [h, List.append_assoc, List.cons_append, List.getD_append_right _ _ _ _ (Nat.le_refl _),
      Nat.sub_self]
    rfl
  have hab : (a ++ b).length = a.length + b.length := List.length_append
  have hab' : (a ++ x :: b).length = a.length + b.length + 1 := by
    rw [List.length_append, List.length_cons]
    omega
  unfold moveRow placeOf height
  cases c with
  | nil =>
    simp only [if_true, ne_eq, not_true_eq_false, if_false]
    rw [if_neg (by omega), Int.toNat_natCast, hx, h, List.append_nil, List.append_assoc,
      List.cons_append, eraseIdx_append_cons]
    simp only [List.append_assoc, List.length_append, List.length_cons]
    congr 1
    omega
  | cons y c =>
    have hlen' : ((y :: c).length : Int) = c.length + 1 := by rw [List.length_cons]; rfl
    simp only [reduceCtorEq, if_false]
    rw [if_neg (by omega), if_pos (by omega), if_neg (by omega), if_pos (by omega),
      Int.toNat_natCast, Int.toNat_natCast,
      hx, h, insertIdx_append, List.append_assoc, List.cons_append, eraseIdx_append_cons,
        List.append_assoc]
    congr 1
    omega

/-- The row stood behind the place. -/
theorem moveRow_forth (h : s.arr = a ++ (b ++ x :: c)) :
    s.moveRow ((a ++ b).length : Int) (placeOf a (b ++ x :: c)) =
      ({ s with arr := a ++ x :: (b ++ c) }, (a.length : Int)) := by
  have hlen : s.arr.length = a.length + b.length + 1 + c.length := by
    rw [h, List.length_append, List.length_append, List.length_cons]
    omega
  have hab : (a ++ b).length = a.length + b.length := List.length_append
  have hx : s.arr.getD (a ++ b).length [] = x := by
    rw [h, ← List.append_assoc, List.getD_append_right _ _ _ _ (Nat.le_refl _), Nat.sub_self]
    rfl
  have hplace : placeOf a (b ++ x :: c) = a.length := if_neg (by simp)
  unfold moveRow
  rw [hplace, if_neg (by unfold height; omega)]
  simp only
  rw [if_pos (by omega), Int.toNat_natCast, Int.toNat_natCast, hx, h, insertIdx_append]
  cases b with
  | nil =>
    rw [List.append_nil, if_neg (by omega), if_neg (by omega), List.nil_append, List.nil_append,
      eraseIdx_append_cons]
  | cons y b =>
    have happ : a ++ x :: (y :: b ++ x :: c) = (a ++ x :: y :: b) ++ x :: c := by simp
    have hl : (a ++ y :: b).length + 1 = (a ++ x :: y :: b).length := by
      simp only [List.length_append, List.length_cons]
      omega
    have hcons : (y :: b).length = b.length + 1 := List.length_cons
    rw [if_pos (by omega), if_neg (by omega), happ, hl, eraseIdx_append_cons]
    simp

end TypedSheet

/-! ## Rows struck out -/

namespace SheetPatcher

open RowChange

/-- No row is struck out. -/
structure Unmarked (s : TypedSheet String) : Prop where
  zero : s.zero = ""
  rows : ∀ row ∈ s.arr, row.getD 0 "" ≠ "---"

namespace Unmarked

variable {s : TypedSheet String}

theorem blank (s : TypedSheet String) (h : s.zero = "") (w : Nat) :
    (List.replicate w s.zero).getD 0 "" ≠ "---" := by
  rw [h]
  cases w <;> simp [List.replicate_succ]

theorem cell (h : Unmarked s) (y : Nat) : s.cell 0 y ≠ "---" := by
  unfold TypedSheet.cell
  rw [h.zero]
  by_cases hy : y < s.arr.length
  · rw [List.getD_eq_getElem _ _ hy]
    exact h.rows _ (List.getElem_mem hy)
  · rw [show s.arr.getD y [] = [] from List.getD_eq_default _ _ (by omega)]
    simp

theorem resize (h : Unmarked s) (w n : Nat) : Unmarked (s.resize w n) :=
  ⟨h.zero, fun row hrow => by
    rw [List.eq_of_mem_replicate hrow]
    exact blank s h.zero w⟩

theorem insertRow (h : Unmarked s) (base : Int) : Unmarked (s.insertRow base).1 := by
  unfold TypedSheet.insertRow
  split
  · exact h
  split
  · refine ⟨h.zero, fun row hrow => ?_⟩
    rcases List.mem_append.mp hrow with hrow | hrow
    · exact h.rows row hrow
    · rw [List.mem_singleton.mp hrow]
      exact blank s h.zero s.w
  · refine ⟨h.zero, fun row hrow => ?_⟩
    rcases List.eq_or_mem_of_mem_insertIdx hrow with rfl | hrow
    · exact blank s h.zero s.w
    · exact h.rows row hrow

theorem setCell (h : Unmarked s) (y : Nat) {c : String} (hc : c ≠ "---") :
    Unmarked (s.setCell 0 y c) := by
  refine ⟨h.zero, fun row hrow => ?_⟩
  obtain ⟨i, hi⟩ := List.mem_iff_getElem?.mp hrow
  rw [show (s.setCell 0 y c).arr = s.arr.modify y fun row => row.set 0 c from rfl,
    List.getElem?_modify] at hi
  obtain ⟨old, hold, rfl⟩ := Option.map_eq_some_iff.mp hi
  have hok := h.rows old (List.mem_of_getElem? hold)
  split
  · cases old with
    | nil => simp
    | cons d old => exact hc
  · exact hok

theorem deleteRow (h : Unmarked s) (src : Int) : Unmarked (s.deleteRow src).1 := by
  unfold TypedSheet.deleteRow
  split
  · exact h
  · exact ⟨h.zero, fun row hrow => h.rows row (List.mem_of_mem_eraseIdx hrow)⟩

theorem moveRow (h : Unmarked s) (src base : Int) : Unmarked (s.moveRow src base).1 := by
  have hget : (s.arr.getD src.toNat []).getD 0 "" ≠ "---" := by
    have := h.cell src.toNat
    unfold TypedSheet.cell at this
    rw [h.zero] at this
    exact this
  unfold TypedSheet.moveRow
  split
  · exact h
  split
  · refine ⟨h.zero, fun row hrow => ?_⟩
    rcases List.eq_or_mem_of_mem_insertIdx (List.mem_of_mem_eraseIdx hrow) with rfl | hrow
    · exact hget
    · exact h.rows row hrow
  · refine ⟨h.zero, fun row hrow => ?_⟩
    rcases List.mem_append.mp (List.mem_of_mem_eraseIdx hrow) with hrow | hrow
    · exact h.rows row hrow
    · rw [List.mem_singleton.mp hrow]
      exact hget

end Unmarked

/-! ## The patcher at a place -/

/-- The patcher holds the rows of `z`, is at its place, and knows the columns by these names. -/
structure Follows (names : List String) (header : Bool) (p : SheetPatcher)
    (z : Zipper (List SheetCell)) : Prop where
  knows : Knows p names
  usable : "---" ∉ names
  columns : p.activeCol.arr = [names] ∧ p.activeCol.w = names.length
  no_synonyms : p.name2syn = []
  arr : p.sheet.arr = z.items
  width : p.sheet.w = names.length
  rect : ∀ row ∈ z.items, row.length = names.length
  cursor : p.rowCursor = TypedSheet.placeOf z.before z.after
  unmarked : Unmarked p.activeRow
  schema : p.schema = false
  header : p.assumeHeader = header

section
variable {names : List String} {p : SheetPatcher}

theorem enterName_foldl (hn : names.Nodup) (hu : "---" ∉ names)
    (hc : p.activeCol.arr = [names] ∧ p.activeCol.w = names.length) (hs : p.name2syn = []) :
    ∀ k ≤ names.length,
      (∀ i (hi : i < names.length), i < k → ((List.range k).foldl p.enterName []).get? names[i] =
        some i) ∧ ∀ n ∉ names.take k, ((List.range k).foldl p.enterName []).get? n = none := by
  intro k
  induction k with
  | zero => exact fun _ => ⟨fun i _ hi => absurd hi (Nat.not_lt_zero i), fun n _ => rfl⟩
  | succ k ih =>
    intro hk
    obtain ⟨h1, h2⟩ := ih (by omega)
    have hname : p.activeCol.cell k 0 = names[k] := by
      unfold TypedSheet.cell
      rw [hc.1]
      exact List.getD_eq_getElem names _ hk
    have hne : names[k] ≠ "---" := fun he => hu (he ▸ List.getElem_mem _)
    have hstep :
      (List.range (k + 1)).foldl p.enterName [] =
      ((List.range k).foldl p.enterName []).set names[k] k := by
      rw [List.range_succ, List.foldl_append, List.foldl_cons, List.foldl_nil]
      unfold enterName
      simp only [hname, hne, if_false, hs, AssocMap.get?_nil]
    rw [hstep]
    refine ⟨fun i hi hik => ?_, fun n hmem => ?_⟩
    · by_cases he : i = k
      · subst he
        exact AssocMap.get?_set_self _ _ _
      · rw [AssocMap.get?_set_ne _ _ (fun h => he (hn.getElem_inj_iff.mp h))]
        exact h1 i hi (by omega)
    · rw [List.take_succ_eq_append_getElem (by omega), List.mem_append, List.mem_singleton,
        not_or] at hmem
      rw [AssocMap.get?_set_ne _ _ hmem.2]
      exact h2 n hmem.1

theorem updateCols_eq (hc : p.activeCol.arr = [names] ∧ p.activeCol.w = names.length)
    (hw : p.sheet.w = names.length) :
    p.updateCols = some { p with name2col := (List.range names.length).foldl p.enterName [] } := by
  unfold updateCols TypedSheet.width
  rw [hc.2, hw, if_neg (fun h => h rfl)]

theorem updateCols_knows (hn : names.Nodup) (hu : "---" ∉ names)
    (hc : p.activeCol.arr = [names] ∧ p.activeCol.w = names.length) (hs : p.name2syn = []) :
    Knows { p with name2col := (List.range names.length).foldl p.enterName [] } names := by
  obtain ⟨h1, h2⟩ := enterName_foldl hn hu hc hs names.length (Nat.le_refl _)
  rw [List.take_length] at h2
  exact ⟨hn, fun i hi => h1 i hi hi, h2⟩

/-- The names of the columns, declared for the first time. -/
theorem declareNames_same (hc : p.activeCol.arr = [names] ∧ p.activeCol.w = names.length)
    (hw : p.sheet.w = names.length) : p.declareNames names =
      some { p with
        declaredNames := true
        name2col := (List.range names.length).foldl p.enterName [] } := by
  have hname : ∀ i < names.length, p.activeCol.cell i 0 = names.getD i "" := by
    intro i hi
    unfold TypedSheet.cell
    rw [hc.1, List.getD_eq_getElem names "" hi]
    exact List.getD_eq_getElem _ _ hi
  have hfold : ∀ ks : List Nat, (∀ k ∈ ks, k < names.length) →
      ks.foldl (fun (p : SheetPatcher) i =>
        if names.getD i "" ≠ p.activeCol.cell i 0 then
          { p with
            syn2name := p.syn2name.set (names.getD i "") (p.activeCol.cell i 0)
            name2syn := p.name2syn.set (p.activeCol.cell i 0) (names.getD i "") }
        else p) { p with declaredNames := true } = { p with declaredNames := true } := by
    intro ks
    induction ks with
    | nil => exact fun _ => rfl
    | cons k ks ih =>
      intro hks
      rw [List.foldl_cons, if_neg (fun hne => hne (hname k (hks k (by simp))).symm)]
      exact ih fun j hj => hks j (List.mem_cons_of_mem _ hj)
  unfold SheetPatcher.declareNames
  simp only
  rw [if_neg (fun hne => hne hw.symm), hfold _ fun k hk => List.mem_range.mp hk]
  exact updateCols_eq (p := { p with declaredNames := true }) hc hw

/-- A patcher starts at the end of the sheet. -/
theorem attach_follows (hn : names.Nodup) (hu : "---" ∉ names) {sheet : TypedSheet SheetCell}
    (hw : sheet.w = names.length) (hrect : ∀ row ∈ sheet.arr, row.length = names.length)
    (header : Bool) :
    ∃ p, attach sheet names header = some p ∧ Follows names header p (Zipper.atEnd sheet.arr) ∧
      p.sheet.zero = sheet.zero := by
  unfold attach
  rw [updateCols_eq ⟨rfl, rfl⟩ hw]
  exact ⟨_, rfl,
    ⟨updateCols_knows hn hu ⟨rfl, rfl⟩ rfl, hu, ⟨rfl, rfl⟩, rfl, (List.append_nil _).symm, hw,
    fun row hrow => hrect row (by rwa [Zipper.items_atEnd] at hrow), rfl,
      ⟨rfl, fun row hrow => by cases hrow⟩, rfl, rfl⟩, rfl⟩

end

namespace Follows

variable {names : List String} {header : Bool} {p : SheetPatcher} {z : Zipper (List SheetCell)}

theorem declareNames (h : Follows names header p z) :
    ∃ p', p.declareNames names = some p' ∧ Follows names header p' z ∧ p'.sheet = p.sheet := by
  refine ⟨_, declareNames_same h.columns h.width,
    ⟨?_, h.usable, h.columns, h.no_synonyms, h.arr, h.width, h.rect,
    h.cursor, h.unmarked, h.schema, h.header⟩, rfl⟩
  have hknows := updateCols_knows h.knows.nodup h.usable h.columns h.no_synonyms
  exact ⟨hknows.nodup, hknows.found, hknows.others⟩

/-- Other rows, and another place in them. -/
theorem moved (h : Follows names header p z) {sheet : TypedSheet SheetCell}
    {activeRow : TypedSheet String}
    {rowCursor : Int} {z' : Zipper (List SheetCell)} (hw : sheet.w = p.sheet.w)
    (harr : sheet.arr = z'.items) (hrect : ∀ row ∈ z'.items, row.length = names.length)
    (hcursor : rowCursor = TypedSheet.placeOf z'.before z'.after) (hun : Unmarked activeRow) :
    Follows names header { p with sheet := sheet, activeRow := activeRow, rowCursor := rowCursor }
    z' :=
  ⟨⟨h.knows.nodup, h.knows.found, h.knows.others⟩, h.usable, h.columns, h.no_synonyms, harr,
    hw.trans h.width, hrect, hcursor, hun, h.schema, h.header⟩

theorem rowMatches_eq (h : Follows names header p z) {cond : AssocMap String SheetCell}
    (hc : cond.keys.Nodup) {r : Nat}
    (hr : r < z.items.length) : p.rowMatches (p.byCol cond) r = agrees names cond z.items[r] := by
  have hlen := h.rect _ (List.getElem_mem hr)
  have hcell : ∀ i (hi : i < names.length), p.sheet.cell i r = z.items[r][i] := by
    intro i hi
    unfold TypedSheet.cell
    rw [h.arr, List.getD_eq_getElem _ _ hr, List.getD_eq_getElem _ _ (by omega)]
  unfold rowMatches
  rw [Bool.eq_iff_iff, agrees_iff hlen, Bool.and_eq_true, List.all_eq_true]
  unfold TypedSheet.width
  rw [h.width]
  constructor
  · rintro ⟨-, hall⟩ i hi c hget
    have := hall i (List.mem_range.mpr hi)
    rw [h.knows.byCol_get? hc hi, hget] at this
    rw [List.getElem?_eq_getElem (by omega), ← hcell i hi]
    exact congrArg some (of_decide_eq_true this)
  · intro hall
    refine ⟨decide_eq_true (h.unmarked.cell r), fun i hi => ?_⟩
    have hi := List.mem_range.mp hi
    rw [h.knows.byCol_get? hc hi]
    cases hget : cond.get? names[i] with
    | none => rfl
    | some c =>
      have := hall i hi c hget
      rw [List.getElem?_eq_getElem (by omega), ← hcell i hi] at this
      exact decide_eq_true (Option.some.inj this)

theorem matchRow_eq (h : Follows names header p z) {cond : AssocMap String SheetCell}
    (hc : cond.keys.Nodup) : p.matchRow (p.byCol cond) =
    ((cut (agrees names cond) z.items).map fun c => (c.1.length : Int)).getD (-1) := by
  unfold matchRow
  rw [h.schema, Bool.false_and, if_neg (by simp)]
  unfold TypedSheet.height
  rw [h.arr]
  cases hcut : cut (agrees names cond) z.items with
  | none =>
    have hnone : (List.range z.items.length).find? (p.rowMatches (p.byCol cond)) = none := by
      rw [List.find?_eq_none]
      intro r hr
      have hr := List.mem_range.mp hr
      rw [h.rowMatches_eq hc hr, cut_eq_none_iff.mp hcut _ (List.getElem_mem hr)]
      simp
    rw [hnone]
    rfl
  | some c =>
    obtain ⟨a, x, b⟩ := c
    obtain ⟨heq, hx, ha⟩ := cut_eq_some_iff.mp hcut
    have hlen : z.items.length = a.length + (b.length + 1) := by
      rw [heq, List.length_append, List.length_cons]
    have hfind : (List.range z.items.length).find? (p.rowMatches (p.byCol cond)) =
      some a.length := by
      rw [List.find?_range_eq_some]
      refine ⟨?_, List.mem_range.mpr (by omega), fun j hj => ?_⟩
      · rw [h.rowMatches_eq hc (by omega), ← hx]
        congr 1
        simp only [heq]
        rw [List.getElem_append_right (Nat.le_refl _)]
        simp
      · rw [h.rowMatches_eq hc (by omega), Bool.not_eq_true']
        have : z.items[j] = a[j] := by
          simp only [heq]
          rw [List.getElem_append_left hj]
        rw [this]
        exact ha _ (List.getElem_mem hj)
    rw [hfind]
    rfl

theorem after_at {a b : List (List SheetCell)} {x : List SheetCell}
    (h : p.sheet.arr = a ++ x :: b) :
    p.after (a.length : Int) = TypedSheet.placeOf (a ++ [x]) b := by
  have hlen : p.sheet.arr.length = a.length + (b.length + 1) := by
    rw [h, List.length_append, List.length_cons]
  unfold SheetPatcher.after TypedSheet.placeOf TypedSheet.height
  rw [List.length_append, List.length_singleton]
  cases b with
  | nil =>
    rw [if_pos rfl, if_pos]
    rw [List.length_nil] at hlen
    omega
  | cons y b =>
    rw [List.length_cons] at hlen
    rw [if_neg (by omega), if_neg (by simp)]
    rfl

theorem modify_append (f : List SheetCell → List SheetCell) (x : List SheetCell)
    (a b : List (List SheetCell)) : (a ++ x :: b).modify a.length f = a ++ f x :: b := by
  induction a with
  | nil => rfl
  | cons y a ih =>
    rw [List.cons_append, List.length_cons, List.modify_succ_cons, ih, List.cons_append]

/-- A row of the right width with assignments made to it, among such rows. -/
theorem rect_patched {a b : List (List SheetCell)} {x : List SheetCell}
    (val : AssocMap String SheetCell)
    (hx : x.length = names.length) (hab : ∀ row ∈ a ++ b, row.length = names.length) :
    ∀ row ∈ a ++ patched names val x :: b, row.length = names.length := by
  intro row hrow
  rcases List.mem_append.mp hrow with hrow | hrow
  · exact hab row (List.mem_append_left _ hrow)
  · rcases List.mem_cons.mp hrow with rfl | hrow
    · exact patched_length val hx
    · exact hab row (List.mem_append_right _ hrow)

/-! ## One change -/

theorem insertChange (h : Follows names header p z) {val : AssocMap String SheetCell}
    (hv : val.keys.Nodup) :
    ∃ r, p.insertChange (p.byCol val) = some r ∧
      Follows names header r.1
        ⟨z.before ++ [patched names val (List.replicate names.length p.sheet.zero)], z.after⟩ ∧
      r.1.sheet.zero = p.sheet.zero := by
  have hrow : (List.replicate names.length p.sheet.zero).length = names.length :=
    List.length_replicate
  unfold SheetPatcher.insertChange
  rw [h.cursor, TypedSheet.insertRow_at h.arr]
  simp only
  rw [if_neg (by omega), Int.toNat_natCast, assign_eq]
  simp only
  rw [modify_append, h.width, h.knows.assignRow_eq hv hrow]
  refine ⟨_, rfl, ?_, rfl⟩
  refine h.moved h.width.symm ?_ ?_ (after_at rfl) ((h.unmarked.insertRow _).setCell _ (by decide))
  · rw [Zipper.items_mk, List.append_assoc, List.singleton_append]
  · rw [Zipper.items_mk, List.append_assoc, List.singleton_append]
    exact rect_patched val hrow h.rect

/-- Where the search for the row of a change stops. -/
theorem found (h : Follows names header p z) {cond : AssocMap String SheetCell}
    (hc : cond.keys.Nodup) {a b : List (List SheetCell)} {x : List SheetCell}
    (hcut : cut (agrees names cond) z.items = some (a, x, b)) :
    p.matchRow (p.byCol cond) = (a.length : Int) ∧ p.sheet.arr = a ++ x :: b ∧
    x.length = names.length ∧
      ∀ row ∈ a ++ b, row.length = names.length := by
  obtain ⟨heq, -, -⟩ := cut_eq_some_iff.mp hcut
  refine ⟨?_, h.arr.trans heq, h.rect x (by rw [heq]; simp), fun row hrow => h.rect row ?_⟩
  · rw [h.matchRow_eq hc, hcut]
    rfl
  · rw [heq]
    rcases List.mem_append.mp hrow with hrow | hrow
    · exact List.mem_append_left _ hrow
    · exact List.mem_append_right _ (List.mem_cons_of_mem _ hrow)

theorem missed (h : Follows names header p z) {cond : AssocMap String SheetCell}
    (hc : cond.keys.Nodup)
    (hcut : cut (agrees names cond) z.items = none) : p.matchRow (p.byCol cond) = -1 := by
  rw [h.matchRow_eq hc, hcut]
  rfl

theorem deleteChange (h : Follows names header p z) {cond : AssocMap String SheetCell}
    (hc : cond.keys.Nodup) : Follows names header (p.deleteChange (p.matchRow (p.byCol cond))).1
      ((Edit.delete (agrees names cond)).apply z) ∧
      (p.deleteChange (p.matchRow (p.byCol cond))).1.sheet.zero = p.sheet.zero := by
  unfold SheetPatcher.deleteChange
  cases hcut : cut (agrees names cond) z.items with
  | none =>
    rw [h.missed hc hcut, if_pos (by omega), Edit.delete_missed hcut]
    exact ⟨h, rfl⟩
  | some c =>
    obtain ⟨a, x, b⟩ := c
    obtain ⟨hm, harr, hx, hab⟩ := h.found hc hcut
    rw [hm, if_neg (by omega), TypedSheet.deleteRow_at harr, Edit.delete_found hcut]
    refine ⟨h.moved rfl rfl hab ?_ (h.unmarked.deleteRow _), rfl⟩
    show (if (a.length : Int) ≥ ((a ++ b).length : Int) then -1 else (a.length : Int)) = _
    unfold TypedSheet.placeOf
    rw [List.length_append]
    cases b with
    | nil => rw [if_pos (by simp), if_pos rfl]
    | cons y b =>
      rw [if_neg, if_neg (by simp)]
      rw [List.length_cons]
      omega

theorem contextChange (h : Follows names header p z) {cond : AssocMap String SheetCell}
    (hc : cond.keys.Nodup) : ∃ r, p.contextChange false (p.matchRow (p.byCol cond)) = some r ∧
      Follows names header r.1 ((Edit.seek (agrees names cond)).apply z) ∧
      r.1.sheet.zero = p.sheet.zero := by
  unfold SheetPatcher.contextChange
  rw [if_neg (by simp)]
  cases hcut : cut (agrees names cond) z.items with
  | none =>
    rw [h.missed hc hcut, if_neg (by omega), if_pos (by omega), Edit.seek_missed hcut]
    exact ⟨_, rfl, h, rfl⟩
  | some c =>
    obtain ⟨a, x, b⟩ := c
    obtain ⟨hm, harr, hx, hab⟩ := h.found hc hcut
    rw [hm, if_neg (by omega), if_neg (by omega), Edit.seek_found hcut]
    have hitems : Zipper.items ⟨a ++ [x], b⟩ = z.items := by
      rw [Zipper.items_mk, List.append_assoc, List.singleton_append, ← harr, h.arr]
    exact ⟨_, rfl, h.moved rfl (by rw [hitems, h.arr]) (by rw [hitems]; exact h.rect)
      (after_at harr) h.unmarked, rfl⟩

/-- A blank context row leads to the top. -/
theorem contextChange_blank (h : Follows names header p z) (hne : z.items ≠ [])
    (hh : header = false) (r : Int) :
    ∃ r', p.contextChange true r = some r' ∧ Follows names header r'.1 (Edit.top.apply z) ∧
      r'.1.sheet.zero = p.sheet.zero := by
  unfold SheetPatcher.contextChange
  rw [if_pos rfl]
  have hzero : (0 : Int) = TypedSheet.placeOf [] z.items := by
    unfold TypedSheet.placeOf
    rw [if_neg hne]
    rfl
  have hfol : Follows names header { p with rowCursor := 0 } (Edit.top.apply z) :=
    h.moved rfl h.arr h.rect hzero h.unmarked
  unfold checkHeader
  simp only
  split
  · exact ⟨_, rfl, hfol, rfl⟩
  · rw [if_pos (show p.assumeHeader = false from h.header.trans hh)]
    exact ⟨_, rfl,
      ⟨⟨hfol.knows.nodup, hfol.knows.found, hfol.knows.others⟩, hfol.usable, hfol.columns,
      hfol.no_synonyms, hfol.arr, hfol.width, hfol.rect, hfol.cursor, hfol.unmarked, hfol.schema,
        hfol.header⟩, rfl⟩

theorem updateChange (h : Follows names header p z) {cond val : AssocMap String SheetCell}
    (hc : cond.keys.Nodup) (hv : val.keys.Nodup) :
    Follows names header (p.updateChange (p.byCol val) (p.matchRow (p.byCol cond))).1
        ((Edit.update (agrees names cond) (patched names val)).apply z) ∧
      (p.updateChange (p.byCol val) (p.matchRow (p.byCol cond))).1.sheet.zero = p.sheet.zero := by
  unfold SheetPatcher.updateChange
  cases hcut : cut (agrees names cond) z.items with
  | none =>
    rw [h.missed hc hcut, if_pos (by omega), Edit.update_missed _ hcut]
    refine ⟨h.moved rfl ?_ ?_ rfl h.unmarked, rfl⟩
    · rw [Zipper.items_atEnd]
      exact h.arr
    · rw [Zipper.items_atEnd]
      exact h.rect
  | some c =>
    obtain ⟨a, x, b⟩ := c
    obtain ⟨hm, harr, hx, hab⟩ := h.found hc hcut
    rw [hm, if_neg (by omega), Int.toNat_natCast, assign_eq]
    simp only
    rw [harr, modify_append, h.knows.assignRow_eq hv hx, Edit.update_found _ hcut]
    refine ⟨h.moved rfl ?_ ?_ (after_at rfl) h.unmarked, trivial⟩
    · rw [Zipper.items_mk, List.append_assoc, List.singleton_append]
    · rw [Zipper.items_mk, List.append_assoc, List.singleton_append]
      exact rect_patched val hx hab

theorem moveChange (h : Follows names header p z) {cond val : AssocMap String SheetCell}
    (hc : cond.keys.Nodup) (hv : val.keys.Nodup) :
    ∃ r, p.moveChange (p.byCol val) (p.matchRow (p.byCol cond)) = some r ∧
      Follows names header r.1 ((Edit.move (agrees names cond) (patched names val)).apply z) ∧
      r.1.sheet.zero = p.sheet.zero := by
  unfold SheetPatcher.moveChange
  cases hcut : cut (agrees names cond) z.before with
  | some c =>
    -- the row stands before the place
    obtain ⟨a, x, b⟩ := c
    obtain ⟨heq, hm, ha⟩ := cut_eq_some_iff.mp hcut
    have hall : cut (agrees names cond) z.items = some (a, x, b ++ z.after) := by
      unfold Zipper.items
      rw [heq, List.append_assoc, List.cons_append]
      exact cut_append ha hm
    obtain ⟨hm, harr, hx, hab⟩ := h.found hc hall
    have harr' : p.sheet.arr = a ++ x :: b ++ z.after := by
      rw [harr, List.append_assoc, List.cons_append]
    rw [hm, if_neg (by omega), h.cursor, heq, TypedSheet.moveRow_back harr', Edit.move_back _ hcut]
    simp only
    rw [if_neg (by omega), Int.toNat_natCast, assign_eq]
    simp only
    rw [modify_append, h.knows.assignRow_eq hv hx]
    refine ⟨_, rfl, h.moved rfl ?_ ?_ (after_at rfl) (h.unmarked.moveRow _ _), rfl⟩
    · rw [Zipper.items_mk, List.append_assoc (a ++ b), List.singleton_append]
    · rw [Zipper.items_mk, List.append_assoc (a ++ b), List.singleton_append]
      exact rect_patched val hx (by rw [List.append_assoc]; exact hab)
  | none =>
    have hbefore := cut_eq_none_iff.mp hcut
    cases hcut' : cut (agrees names cond) z.after with
    | none =>
      have hall : cut (agrees names cond) z.items = none :=
        cut_eq_none_iff.mpr fun y hy =>
        (List.mem_append.mp hy).elim (hbefore y) (cut_eq_none_iff.mp hcut' y)
      rw [h.missed hc hall, if_pos (by omega), Edit.move_missed _ hcut hcut']
      exact ⟨_, rfl, h, rfl⟩
    | some c =>
      obtain ⟨a, x, b⟩ := c
      obtain ⟨heq, hm, ha⟩ := cut_eq_some_iff.mp hcut'
      have hall : cut (agrees names cond) z.items = some (z.before ++ a, x, b) := by
        unfold Zipper.items
        rw [heq, ← List.append_assoc]
        exact cut_append (fun y hy => (List.mem_append.mp hy).elim (hbefore y) (ha y)) hm
      obtain ⟨hm, harr, hx, hab⟩ := h.found hc hall
      have harr' : p.sheet.arr = z.before ++ (a ++ x :: b) := by rw [harr, List.append_assoc]
      rw [hm, if_neg (by omega), h.cursor, heq, TypedSheet.moveRow_forth harr',
        Edit.move_forth _ hcut hcut']
      simp only
      rw [if_neg (by omega), Int.toNat_natCast, assign_eq]
      simp only
      rw [modify_append, h.knows.assignRow_eq hv hx]
      refine ⟨_, rfl, h.moved rfl ?_ ?_ (after_at rfl) (h.unmarked.moveRow _ _), rfl⟩
      · rw [Zipper.items_mk, List.append_assoc z.before, List.singleton_append]
      · rw [Zipper.items_mk, List.append_assoc z.before, List.singleton_append]
        exact rect_patched val hx (by rw [← List.append_assoc]; exact hab)

/-- **One change.**  The patcher makes the edit that the change stands for. -/
theorem changeRow (h : Follows names header p z) {change : RowChange} (hp : change.Plain names)
    (htop : change.mode = .context → change.cond = [] → z.items ≠ [] ∧ header = false) :
    ∃ r, p.changeRow change = some r ∧
    Follows names header r.1 ((change.edit names p.sheet.zero).apply z) ∧
      r.1.sheet.zero = p.sheet.zero := by
  obtain ⟨p1, h1, hfol1, hsheet1⟩ :
      ∃ p1, (if p.declaredNames then some p else p.declareNames change.allNames) = some p1 ∧
        Follows names header p1 z ∧ p1.sheet = p.sheet := by
    rw [hp.all_names]
    split
    · exact ⟨p, rfl, h, rfl⟩
    · exact h.declareNames
  obtain ⟨p2, h2, hfol2, hsheet2⟩ :
      ∃ p2, (if p1.activeRow.height ≠ p1.sheet.height ∨ p1.activeRow.width ≠ 1 then
          { p1 with activeRow := p1.activeRow.resize 1 p1.sheet.height } else p1) = p2 ∧
        Follows names header p2 z ∧ p2.sheet = p1.sheet := by
    split
    · exact ⟨_, rfl, hfol1.moved rfl hfol1.arr hfol1.rect hfol1.cursor (hfol1.unmarked.resize _ _),
        rfl⟩
    · exact ⟨_, rfl, hfol1, rfl⟩
  have hzero : p2.sheet.zero = p.sheet.zero := by rw [hsheet2, hsheet1]
  unfold SheetPatcher.changeRow
  rw [h1, Option.bind_some, hp.unconflicted, if_neg (by simp), h2, hp.sequential]
  simp only [if_true]
  unfold RowChange.edit
  rw [← hzero]
  cases hm : change.mode with
  | insert => exact hfol2.insertChange hp.val_nodup
  | delete => exact ⟨_, rfl, hfol2.deleteChange hp.cond_nodup⟩
  | update => exact ⟨_, rfl, hfol2.updateChange hp.cond_nodup hp.val_nodup⟩
  | move => exact hfol2.moveChange hp.cond_nodup hp.val_nodup
  | none =>
    refine ⟨_, rfl, ?_, rfl⟩
    show Follows names header p2 ((Edit.seek fun _ => false).apply z)
    rw [Edit.seek_missed (cut_eq_none_iff.mpr fun _ _ => rfl)]
    exact hfol2
  | context =>
    simp only [hfol2.knows.byCol_isEmpty hp.cond_nodup hp.cond_names]
    by_cases hb : change.cond = []
    · obtain ⟨hne, hh⟩ := htop hm hb
      rw [if_pos hb, decide_eq_true hb]
      exact hfol2.contextChange_blank hne hh _
    · rw [if_neg hb, decide_eq_false hb]
      exact hfol2.contextChange hp.cond_nodup

/-- **A script.**  The patcher makes the edits one after the other. -/
theorem changeRows (changes : List RowChange) : ∀ {p : SheetPatcher} {z : Zipper (List SheetCell)},
    Follows names header p z → (∀ change ∈ changes, change.Plain names) →
    (∀ pre change post, changes = pre ++ change :: post → change.mode = .context →
      change.cond = [] →
      (Edit.run (pre.map (RowChange.edit names p.sheet.zero)) z).items ≠ [] ∧ header = false) →
    ∃ p', SheetPatcher.changeRows changes p = some p' ∧
      Follows names header p' (Edit.run (changes.map (RowChange.edit names p.sheet.zero)) z) := by
  induction changes with
  | nil => exact fun h _ _ => ⟨_, rfl, h⟩
  | cons change changes ih =>
    intro p z h hplain htop
    obtain ⟨r, hr, hfol, hzero⟩ :=
      h.changeRow (hplain change (by simp)) (htop [] change changes rfl)
    obtain ⟨p', hp', hfol'⟩ :=
      ih hfol (fun c hc => hplain c (List.mem_cons_of_mem _ hc)) fun pre c post heq => by
      rw [hzero]
      exact htop (change :: pre) c post (by rw [heq, List.cons_append])
    refine ⟨p', ?_, ?_⟩
    · show (p.changeRow change).bind _ = _
      rw [hr]
      exact hp'
    · rw [hzero] at hfol'
      exact hfol'

end Follows

end SheetPatcher

end Coopy
