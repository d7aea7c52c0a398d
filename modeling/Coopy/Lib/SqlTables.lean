import Coopy.Lib.Containers
import Coopy.Lib.Relation

/-!
# Tables changed by SQL statements

A table has rows under named columns, with `none` for NULL.  A comparison with NULL is neither true
nor false, and a row is changed or deleted only where the whole condition is true.  What a statement
does can be said without the order of the columns and of the rows, with each row as a function of
the names:

    holds conds f = some true ↔ each condition is on a value, and the row has it         (holds_iff)
    a runs on t → what it makes of t has the view a.effect t.view                       (view_apply)
    of two tables that are the same, an action that can be carried out makes the same     (Same.run)
-/

namespace Coopy.Lib

namespace AssocMap

variable {κ α : Type} [DecidableEq κ]

theorem get?_append (m m' : AssocMap κ α) (k : κ) :
    get? (m ++ m') k = (m.get? k).or (m'.get? k) := by
  induction m with
  | nil => rfl
  | cons e m ih =>
    rw [List.cons_append, get?_cons, get?_cons, ih]
    split
    · rfl
    · rfl

/-- Entries in another order. -/
theorem get?_perm {m m' : AssocMap κ α} (hn : m.keys.Nodup) (h : m.Perm m') (k : κ) :
    m.get? k = m'.get? k := by
  have hn' : m'.keys.Nodup := (h.map Prod.fst).nodup_iff.1 hn
  cases hget : m'.get? k with
  | none =>
    have hkey : k ∉ m'.keys := get?_eq_none_iff.1 hget
    exact get?_eq_none_iff.2 fun hm => hkey ((h.map Prod.fst).mem_iff.1 hm)
  | some v => exact get?_of_mem hn (h.mem_iff.2 (mem_of_get? hget))

end AssocMap

theorem zip_insertIdx {β γ : Type} (a : β) (b : γ) :
    ∀ (xs : List β) (ys : List γ) (i : Nat), xs.length = ys.length →
    (xs.insertIdx i a).zip (ys.insertIdx i b) = (xs.zip ys).insertIdx i (a, b)
  | xs, ys, 0, _ => rfl
  | [], [], i + 1, _ => rfl
  | x :: xs, y :: ys, i + 1, h => by
    rw [List.insertIdx_succ_cons, List.insertIdx_succ_cons, List.zip_cons_cons,
      zip_insertIdx a b xs ys i (Nat.succ.inj h), List.zip_cons_cons, List.insertIdx_succ_cons]

theorem zip_eraseIdx {β γ : Type} : ∀ (xs : List β) (ys : List γ) (i : Nat),
    (xs.eraseIdx i).zip (ys.eraseIdx i) = (xs.zip ys).eraseIdx i
  | [], ys, i => by simp
  | x :: xs, [], i => by simp
  | x :: xs, y :: ys, 0 => rfl
  | x :: xs, y :: ys, i + 1 => by
    rw [List.eraseIdx_cons_succ, List.eraseIdx_cons_succ, List.zip_cons_cons, zip_eraseIdx xs ys i,
      List.zip_cons_cons, List.eraseIdx_cons_succ]

namespace Sql

variable {ν α : Type} [DecidableEq ν]

/-! ## Rows under names -/

/-- The value of a row under a name, NULL if there is no such column. -/
def under (columns : List ν) (row : Relation.Row α) (n : ν) : Option α :=
  (AssocMap.get? (columns.zip row) n).join

/-- A row with values written over its own. -/
def write (vals : AssocMap ν (Option α)) (columns : List ν) (row : Relation.Row α) :
    Relation.Row α :=
  List.zipWith (fun n v => (vals.get? n).getD v) columns row

section
variable {columns : List ν} {row : Relation.Row α} {n : ν}

theorem under_of_notMem (h : n ∉ columns) : under columns row n = none := by
  have hnone : AssocMap.get? (columns.zip row) n = none := by
    refine AssocMap.get?_eq_none_iff.2 fun hn => h ?_
    obtain ⟨e, he, rfl⟩ := List.mem_map.1 hn
    exact (List.of_mem_zip he).1
  unfold under
  rw [hnone]
  rfl

theorem under_getElem (hnodup : columns.Nodup) (hrow : row.length = columns.length) {i : Nat}
    (hi : i < columns.length) : under columns row columns[i] = row[i] := by
  have hmem : (columns[i], row[i]) ∈ columns.zip row := by
    rw [← @List.getElem_zip _ _ columns row i (by rw [List.length_zip]; omega)]
    exact List.getElem_mem _
  have hkeys : (AssocMap.keys (columns.zip row)).Nodup := by
    unfold AssocMap.keys
    rw [List.map_fst_zip (le_of_eq hrow.symm)]
    exact hnodup
  unfold under
  rw [AssocMap.get?_of_mem hkeys hmem]
  rfl

theorem under_write {vals : AssocMap ν (Option α)} (hrow : row.length = columns.length)
    (hvals : ∀ n ∈ vals.keys, n ∈ columns) :
    under columns (write vals columns row) n = (vals.get? n).getD (under columns row n) := by
  by_cases hn : n ∈ columns
  · clear hvals
    unfold under write
    induction columns generalizing row with
    | nil => exact absurd hn List.not_mem_nil
    | cons c columns ih =>
      cases row with
      | nil => cases hrow
      | cons v row =>
        rw [List.zipWith_cons_cons, List.zip_cons_cons, List.zip_cons_cons, AssocMap.get?_cons,
          AssocMap.get?_cons]
        by_cases hc : c = n
        · subst hc
          simp
        · rw [if_neg hc, if_neg hc]
          exact ih (Nat.succ.inj hrow) ((List.mem_cons.1 hn).resolve_left fun he => hc he.symm)
  · have hnone : vals.get? n = none := AssocMap.get?_eq_none_iff.2 (mt (hvals n) hn)
    rw [hnone, under_of_notMem hn, under_of_notMem hn]
    rfl

theorem length_write {vals : AssocMap ν (Option α)} (hrow : row.length = columns.length) :
    (write vals columns row).length = columns.length := by
  unfold write
  rw [List.length_zipWith, hrow, Nat.min_self]

/-- A new column is empty. -/
theorem under_snoc (hrow : row.length = columns.length) (c : ν) :
    under (columns ++ [c]) (row ++ [none]) n = under columns row n := by
  unfold under
  rw [List.zip_append hrow.symm, AssocMap.get?_append]
  cases AssocMap.get? (columns.zip row) n with
  | some v => rfl
  | none =>
    rw [Option.none_or, List.zip_cons_cons, AssocMap.get?_cons]
    split
    · rfl
    · rfl

/-- Columns in another order, with their values. -/
theorem under_perm (hnodup : columns.Nodup) (hrow : row.length = columns.length) {columns' : List ν}
    {row' : Relation.Row α} (h : (columns'.zip row').Perm (columns.zip row)) :
    under columns' row' n = under columns row n := by
  have hkeys : (columns.zip row).map Prod.fst = columns := List.map_fst_zip (le_of_eq hrow.symm)
  have hnodup' : (AssocMap.keys (columns'.zip row')).Nodup :=
    (h.map Prod.fst).nodup_iff.2 (by rw [hkeys]; exact hnodup)
  unfold under
  rw [AssocMap.get?_perm hnodup' h]

/-- An empty column somewhere among the others. -/
theorem under_insertIdx (hnodup : columns.Nodup) (hrow : row.length = columns.length) {c : ν}
    (hc : c ∉ columns) {k : Nat} (hk : k ≤ columns.length) :
    under (columns.insertIdx k c) (row.insertIdx k none) n = under columns row n := by
  have hsnoc : (columns ++ [c]).Nodup := by
    rw [List.nodup_append_comm]
    exact List.nodup_cons.2 ⟨hc, hnodup⟩
  have hperm :
    ((columns.insertIdx k c).zip (row.insertIdx k none)).Perm
      ((columns ++ [c]).zip (row ++ [none])) := by
    rw [zip_insertIdx c none columns row k hrow.symm, List.zip_append hrow.symm]
    refine (List.perm_insertIdx _ _ ?_).trans (List.perm_append_singleton _ _).symm
    rw [List.length_zip, hrow, Nat.min_self]
    exact hk
  rw [under_perm hsnoc (by rw [List.length_append, List.length_append, hrow]; rfl) hperm,
    under_snoc hrow]

theorem under_erase (hnodup : columns.Nodup) (hrow : row.length = columns.length) {c : ν}
    (hc : c ∈ columns) :
    under (columns.erase c) (row.eraseIdx (columns.idxOf c)) n = if n = c then none
    else under columns row n := by
  have hlt : columns.idxOf c < columns.length := List.idxOf_lt_length_of_mem hc
  have hkeys : (columns.zip row).map Prod.fst = columns := List.map_fst_zip (le_of_eq hrow.symm)
  have hzip : columns.idxOf c < (columns.zip row).length := by
    rw [List.length_zip, hrow, Nat.min_self]; exact hlt
  have hat : (columns.zip row)[columns.idxOf c].1 = c := by
    rw [List.getElem_zip, List.getElem_idxOf]
  have herase : (columns.zip row).eraseIdx (columns.idxOf c) =
    (columns.zip row).filter fun e => e.1 ≠ c := by
    rw [← filter_ne_eq_eraseIdx (f := Prod.fst) (by rw [hkeys]; exact hnodup) hzip, hat]
  unfold under
  rw [← List.eraseIdx_idxOf_eq_erase, zip_eraseIdx, herase,
    AssocMap.get?_filter _ (fun m => decide (m ≠ c))]
  by_cases hn : n = c
  · simp [hn]
  · simp [hn]

/-- A column under a name that no other one has. -/
theorem under_rename {c c' : ν} (hc' : c' ∉ columns) :
    under (columns.map fun m => if m = c then c' else m) row n =
      if n = c' then under columns row c else if n = c then none else under columns row n := by
  unfold under
  induction columns generalizing row with
  | nil => simp
  | cons d columns ih =>
    obtain ⟨hd, hc'⟩ := not_or.1 (mt List.mem_cons.2 hc')
    cases row with
    | nil => simp
    | cons v row =>
      have hrest := @ih row hc'
      rw [List.map_cons, List.zip_cons_cons, List.zip_cons_cons, AssocMap.get?_cons,
        AssocMap.get?_cons, AssocMap.get?_cons]
      grind

end

/-! ## Conditions -/

section
variable [DecidableEq α]

/-- `a = b`: unknown if there is a NULL. -/
def equals : Option α → Option α → Option Bool
  | some a, some b => some (decide (a = b))
  | _, _ => none

end

/-- `AND` of truth values that may be unknown. -/
def both : Option Bool → Option Bool → Option Bool
  | some false, _ => some false
  | _, some false => some false
  | some true, some true => some true
  | _, _ => none

theorem both_eq_true {s t : Option Bool} : both s t = some true ↔ s = some true ∧
    t = some true := by
  cases s with
  | none => cases t with
    | none => simp [both]
    | some b => cases b <;> simp [both]
  | some a => cases a with
    | false => simp [both]
    | true => cases t with
      | none => simp [both]
      | some b => cases b <;> simp [both]

section
variable [DecidableEq α]

/-- `c = v AND ...` of a row that has these values. -/
def holds (conds : AssocMap ν (Option α)) (f : ν → Option α) : Option Bool :=
  conds.foldr (fun e truth => both (equals (f e.1) e.2) truth) (some true)

omit [DecidableEq ν] in
theorem equals_eq_true {v w : Option α} : equals v w = some true ↔ v = w ∧ w ≠ none := by
  cases v <;> cases w <;> simp [equals]

omit [DecidableEq ν] in
theorem holds_iff {conds : AssocMap ν (Option α)} {f : ν → Option α} :
    holds conds f = some true ↔ ∀ e ∈ conds, f e.1 = e.2 ∧ e.2 ≠ none := by
  induction conds with
  | nil => exact iff_of_true rfl fun e he => absurd he List.not_mem_nil
  | cons e conds ih =>
    show both (equals (f e.1) e.2) (holds conds f) = some true ↔ _
    rw [both_eq_true, equals_eq_true, ih, List.forall_mem_cons]

end

/-! ## Tables and statements -/

structure Table (ν α : Type) where
  columns : List ν
  rows : List (Relation.Row α)
deriving DecidableEq, Repr

/-- What is done to a table. -/
inductive Action (ν α : Type)
  | addColumn (n : ν)
  | dropColumn (n : ν)
  | renameColumn (n n' : ν)
  | insert (names : List ν) (values : List (Option α))
  | delete (conds : AssocMap ν (Option α))
  | update (vals conds : AssocMap ν (Option α))

structure Statement (ν α : Type) where
  table : ν
  action : Action ν α

section
variable [DecidableEq α]

namespace Action

/-- The action can be carried out on a table with these columns. -/
def Runs (columns : List ν) : Action ν α → Prop
  | addColumn n => n ∉ columns
  | dropColumn n => n ∈ columns ∧ 1 < columns.length
  | renameColumn n n' => n ∈ columns ∧ n' ∉ columns
  | insert names values => names.length = values.length ∧ ∀ n ∈ names, n ∈ columns
  | delete conds => ∀ n ∈ conds.keys, n ∈ columns
  | update vals conds => (∀ n ∈ vals.keys, n ∈ columns) ∧ ∀ n ∈ conds.keys, n ∈ columns

instance (columns : List ν) : (a : Action ν α) → Decidable (a.Runs columns)
  | addColumn n => inferInstanceAs (Decidable (n ∉ columns))
  | dropColumn n => inferInstanceAs (Decidable (n ∈ columns ∧ 1 < columns.length))
  | renameColumn n n' => inferInstanceAs (Decidable (n ∈ columns ∧ n' ∉ columns))
  | insert names values =>
    inferInstanceAs (Decidable (names.length = values.length ∧ ∀ n ∈ names, n ∈ columns))
  | delete conds => inferInstanceAs (Decidable (∀ n ∈ conds.keys, n ∈ columns))
  | update vals conds =>
    inferInstanceAs (Decidable ((∀ n ∈ vals.keys, n ∈ columns) ∧ ∀ n ∈ conds.keys, n ∈ columns))

def columnsAfter : Action ν α → List ν → List ν
  | addColumn n, columns => columns ++ [n]
  | dropColumn n, columns => columns.erase n
  | renameColumn n n', columns => columns.map fun m => if m = n then n' else m
  | _, columns => columns

def rowsAfter (columns : List ν) : Action ν α → List (Relation.Row α) → List (Relation.Row α)
  | addColumn _, rows => rows.map (· ++ [none])
  | dropColumn n, rows => rows.map (·.eraseIdx (columns.idxOf n))
  | renameColumn _ _, rows => rows
  | insert names values, rows =>
    rows ++ [columns.map fun n => (AssocMap.get? (names.zip values) n).join]
  | delete conds, rows =>
    rows.filter fun row => decide (holds conds (under columns row) ≠ some true)
  | update vals conds, rows =>
    rows.map fun row => if holds conds (under columns row) = some true then write vals columns row
      else row

def run (a : Action ν α) (t : Table ν α) : Option (Table ν α) :=
  if a.Runs t.columns then some ⟨a.columnsAfter t.columns, a.rowsAfter t.columns t.rows⟩ else none

/-- What the action does to the rows, each taken as a function of the names. -/
def effect : Action ν α → List (ν → Option α) → List (ν → Option α)
  | addColumn _, fs => fs
  | dropColumn n, fs => fs.map fun f m => if m = n then none else f m
  | renameColumn n n', fs => fs.map fun f m => if m = n' then f n else if m = n then none else f m
  | insert names values, fs => fs ++ [fun n => (AssocMap.get? (names.zip values) n).join]
  | delete conds, fs => fs.filter fun f => decide (holds conds f ≠ some true)
  | update vals conds, fs =>
    fs.map fun f => if holds conds f = some true then fun n => (vals.get? n).getD (f n) else f

end Action

/-- A statement about the table of this name. -/
def Statement.run (name : ν) (s : Statement ν α) (t : Table ν α) : Option (Table ν α) :=
  if s.table = name then s.action.run t else none

/-- A script stops at the first statement that cannot be carried out. -/
def runScript (name : ν) (script : List (Statement ν α)) (t : Table ν α) : Option (Table ν α) :=
  script.foldlM (fun t s => s.run name t) t

end

/-! ## What an action does to the rows -/

namespace Table

/-- The rows have one value for each column. -/
structure Proper (t : Table ν α) : Prop where
  nodup : t.columns.Nodup
  rect : ∀ row ∈ t.rows, row.length = t.columns.length

/-- The rows as functions of the names. -/
def view (t : Table ν α) : List (ν → Option α) := t.rows.map (under t.columns)

end Table

/-- The same columns and the same rows, in whatever order. -/
structure Same (t u : Table ν α) : Prop where
  columns : t.columns.Perm u.columns
  view : t.view.Perm u.view

section
variable [DecidableEq α] {t t' u : Table ν α} {a : Action ν α}

theorem Action.run_of_runs (h : a.Runs t.columns) :
    a.run t = some ⟨a.columnsAfter t.columns, a.rowsAfter t.columns t.rows⟩ := if_pos h

/-- Each action does to the rows what its effect says. -/
theorem view_apply (ht : t.Proper) (h : a.Runs t.columns) :
    Table.view ⟨a.columnsAfter t.columns, a.rowsAfter t.columns t.rows⟩ = a.effect t.view := by
  unfold Table.view
  cases a with
  | addColumn n =>
    show (t.rows.map _).map _ = t.rows.map _
    rw [List.map_map]
    exact List.map_congr_left fun row hrow => funext fun m => under_snoc (ht.rect row hrow) n
  | dropColumn n =>
    show (t.rows.map _).map _ = (t.rows.map _).map _
    rw [List.map_map, List.map_map]
    exact List.map_congr_left fun row hrow => funext fun m =>
      under_erase ht.nodup (ht.rect row hrow) h.1
  | renameColumn n n' =>
    show t.rows.map _ = (t.rows.map _).map _
    rw [List.map_map]
    exact List.map_congr_left fun row _ => funext fun m => under_rename h.2
  | insert names values =>
    show (t.rows ++ [_]).map _ = _
    rw [List.map_append, List.map_singleton]
    refine congrArg (fun f => t.rows.map (under t.columns) ++ [f]) (funext fun m => ?_)
    show (AssocMap.get? (t.columns.zip (t.columns.map _)) m).join = _
    rw [AssocMap.get?_zip_map]
    split
    · rfl
    · next hm =>
      have hnone : AssocMap.get? (names.zip values) m = none := by
        refine AssocMap.get?_eq_none_iff.2 fun hn => hm ?_
        obtain ⟨e, he, rfl⟩ := List.mem_map.1 hn
        exact h.2 _ (List.of_mem_zip he).1
      rw [hnone]
  | delete conds =>
    show (t.rows.filter _).map _ = (t.rows.map _).filter _
    rw [List.filter_map]
    rfl
  | update vals conds =>
    show (t.rows.map _).map _ = (t.rows.map _).map _
    rw [List.map_map, List.map_map]
    refine List.map_congr_left fun row hrow => ?_
    simp only [Function.comp_apply]
    split
    · exact funext fun m => under_write (ht.rect row hrow) h.1
    · rfl

/-- The table stays one. -/
theorem Table.Proper.apply (ht : t.Proper) (h : a.Runs t.columns) :
    Table.Proper ⟨a.columnsAfter t.columns, a.rowsAfter t.columns t.rows⟩ := by
  have hmap :
    ∀ {f : Relation.Row α → Relation.Row α} {n : Nat}, (∀ row, row.length = t.columns.length →
      (f row).length = n) → ∀ row ∈ t.rows.map f, row.length = n := by
    intro f n hf row hrow
    obtain ⟨old, hold, rfl⟩ := List.mem_map.1 hrow
    exact hf old (ht.rect old hold)
  cases a with
  | addColumn n =>
    have hnodup : (t.columns ++ [n]).Nodup := by
      refine List.nodup_append.2 ⟨ht.nodup, List.nodup_singleton n, ?_⟩
      rintro m hm _ hn rfl
      exact h (List.mem_singleton.1 hn ▸ hm)
    refine ⟨hnodup, hmap fun row hrow => ?_⟩
    show _ = (t.columns ++ [n]).length
    rw [List.length_append, List.length_append, hrow]
    rfl
  | dropColumn n =>
    have hlt : t.columns.idxOf n < t.columns.length := List.idxOf_lt_length_of_mem h.1
    refine ⟨ht.nodup.erase n, hmap fun row hrow => ?_⟩
    show _ = (t.columns.erase n).length
    rw [List.length_eraseIdx_of_lt (by omega), List.length_erase_of_mem h.1, hrow]
  | renameColumn n n' =>
    refine ⟨List.Nodup.map_on (fun m hm k hk he => ?_) ht.nodup, fun row hrow => ?_⟩
    · grind [Action.Runs]
    · show _ = (t.columns.map _).length
      rw [List.length_map]
      exact ht.rect row hrow
  | insert names values =>
    refine ⟨ht.nodup, fun row hrow => ?_⟩
    rcases List.mem_append.1 hrow with hrow | hrow
    · exact ht.rect row hrow
    · rw [List.mem_singleton.1 hrow, List.length_map]
      rfl
  | delete conds => exact ⟨ht.nodup, fun row hrow => ht.rect row (List.mem_filter.1 hrow).1⟩
  | update vals conds =>
    refine ⟨ht.nodup, hmap fun row hrow => ?_⟩
    split
    · exact length_write hrow
    · exact hrow

end

/-! ## Without the order -/

namespace Same

variable {t u v : Table ν α}

theorem refl (t : Table ν α) : Same t t := ⟨List.Perm.refl _, List.Perm.refl _⟩

theorem trans (h : Same t u) (h' : Same u v) : Same t v :=
  ⟨h.columns.trans h'.columns, h.view.trans h'.view⟩

/-- The rows in another order. -/
theorem of_rows {columns : List ν} {rows rows' : List (Relation.Row α)} (h : rows.Perm rows') :
    Same (⟨columns, rows⟩ : Table ν α) ⟨columns, rows'⟩ := ⟨List.Perm.refl _, h.map _⟩

section
variable [DecidableEq α] {a : Action ν α}

omit [DecidableEq α] in
theorem runs (h : Same t u) (ha : a.Runs u.columns) : a.Runs t.columns := by
  have hmem : ∀ n, n ∈ t.columns ↔ n ∈ u.columns := fun n => h.columns.mem_iff
  cases a with
  | addColumn n => exact mt (hmem n).1 ha
  | dropColumn n => exact ⟨(hmem n).2 ha.1, lt_of_lt_of_eq ha.2 h.columns.length_eq.symm⟩
  | renameColumn n n' => exact ⟨(hmem n).2 ha.1, mt (hmem n').1 ha.2⟩
  | insert names values => exact ⟨ha.1, fun n hn => (hmem n).2 (ha.2 n hn)⟩
  | delete conds => exact fun n hn => (hmem n).2 (ha n hn)
  | update vals conds =>
    exact ⟨fun n hn => (hmem n).2 (ha.1 n hn), fun n hn => (hmem n).2 (ha.2 n hn)⟩

omit [DecidableEq α] in
theorem columnsAfter (h : Same t u) (a : Action ν α) :
    (a.columnsAfter t.columns).Perm (a.columnsAfter u.columns) := by
  cases a with
  | addColumn n => exact h.columns.append_right [n]
  | dropColumn n => exact h.columns.erase n
  | renameColumn n n' => exact h.columns.map _
  | insert names values => exact h.columns
  | delete conds => exact h.columns
  | update vals conds => exact h.columns

theorem effect (h : Same t u) (a : Action ν α) : (a.effect t.view).Perm (a.effect u.view) := by
  cases a with
  | addColumn n => exact h.view
  | dropColumn n => exact h.view.map _
  | renameColumn n n' => exact h.view.map _
  | insert names values => exact h.view.append_right _
  | delete conds => exact h.view.filter _
  | update vals conds => exact h.view.map _

/-- **The same made of the same.**  `v` is the same as what the action makes of `u`. -/
theorem run (h : Same t u) (ht : t.Proper) (hu : u.Proper) (ha : a.Runs u.columns)
    (hv : Same ⟨a.columnsAfter u.columns, a.rowsAfter u.columns u.rows⟩ v) :
    ∃ t', a.run t = some t' ∧ t'.Proper ∧ Same t' v := by
  have hruns := h.runs ha
  refine ⟨_, a.run_of_runs hruns, ht.apply hruns, Same.trans ⟨h.columnsAfter a, ?_⟩ hv⟩
  rw [view_apply ht hruns, view_apply hu ha]
  exact h.effect a

end

end Same

end Sql

end Coopy.Lib
