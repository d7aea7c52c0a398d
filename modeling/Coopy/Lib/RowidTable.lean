import Coopy.Lib.Containers
import Mathlib.Algebra.Group.Int.Defs
import Mathlib.Algebra.Group.Nat.Defs
import Mathlib.Data.List.InsertIdx

/-!
# Tables whose rows have numbers of their own

A table of an SQL engine that numbers its rows: columns found by name, rows found by their number,
values that may be NULL.  A scan gives the rows in the order of the numbers.  A table can be built
anew with other columns; its rows are then numbered from 1.

    columns of distinct names are copied by name = the values move with the columns        (copy_eq)
    the last row of an insertion ↔ its number is above all others               (insertDefault_rows)
-/

namespace Coopy.Lib

/-- Rows in the order of their numbers, one value in each column. -/
structure RowidTable (ν α : Type) where
  names : List ν
  rows : List (Int × List (Option α))
  distinct : names.Nodup
  fits : ∀ r ∈ rows, r.2.length = names.length
  ordered : (rows.map Prod.fst).Pairwise (· < ·)

namespace RowidTable

variable {ν α : Type} [DecidableEq ν]

def ids (t : RowidTable ν α) : List Int := t.rows.map Prod.fst

def values (t : RowidTable ν α) : List (List (Option α)) := t.rows.map Prod.snd

/-- The row of a number. -/
def select (t : RowidTable ν α) (id : Int) : Option (List (Option α)) := AssocMap.get? t.rows id

/-- `UPDATE t SET name = v WHERE ROWID = id`. -/
def update (t : RowidTable ν α) (name : ν) (v : Option α) (id : Int) : Option (RowidTable ν α) :=
  if name ∈ t.names then
    some
      { names := t.names
        rows := t.rows.map fun r => if r.1 = id then (r.1, r.2.set (t.names.idxOf name) v) else r
        distinct := t.distinct
        fits := by
          intro r hr
          obtain ⟨r', hr', rfl⟩ := List.mem_map.1 hr
          split
          · exact (List.length_set ..).trans (t.fits r' hr')
          · exact t.fits r' hr'
        ordered := by
          rw [List.map_map, List.map_congr_left (g := Prod.fst)]
          · exact t.ordered
          · intro r _
            show (if r.1 = id then _ else r).1 = r.1
            split <;> rfl }
  else none

/-- `DELETE FROM t WHERE ROWID = id`. -/
def delete (t : RowidTable ν α) (id : Int) : RowidTable ν α where
  names := t.names
  rows := t.rows.filter fun r => r.1 ≠ id
  distinct := t.distinct
  fits := fun r hr => t.fits r (List.mem_of_mem_filter hr)
  ordered := t.ordered.sublist (List.filter_sublist.map _)

/-- `ALTER TABLE t ADD COLUMN name`; a name is not given twice. -/
def addColumn (t : RowidTable ν α) (name : ν) : Option (RowidTable ν α) :=
  if h : name ∈ t.names then none
  else
    some
      { names := t.names ++ [name]
        rows := t.rows.map fun r => (r.1, r.2 ++ [none])
        distinct := List.nodup_append.2 ⟨t.distinct, List.nodup_singleton name, by
          rintro a ha b hb rfl
          exact h (List.mem_singleton.1 hb ▸ ha)⟩
        fits := by
          intro r hr
          obtain ⟨r', hr', rfl⟩ := List.mem_map.1 hr
          rw [List.length_append, List.length_append, t.fits r' hr', List.length_singleton,
            List.length_singleton]
        ordered := by
          rw [List.map_map]
          exact t.ordered }

/-- The largest number that a row can have. -/
def maxRowid : Int := 2 ^ 63 - 1

/-- The number of a new row; `pick` chooses when the largest one is in use. -/
def newRowid (pick : List Int → Int) (t : RowidTable ν α) : Int :=
  match t.ids.getLast? with
  | none => 1
  | some id => if id < maxRowid then id + 1 else pick t.ids

/-- `INSERT INTO t DEFAULT VALUES`. -/
def insertDefault (pick : List Int → Int) (t : RowidTable ν α) : RowidTable ν α where
  names := t.names
  rows := (t.rows.filter fun r => r.1 < t.newRowid pick) ++
    (t.newRowid pick, List.replicate t.names.length none) :: t.rows.filter fun r =>
    t.newRowid pick < r.1
  distinct := t.distinct
  fits := by
    intro r hr
    rcases List.mem_append.1 hr with hr | hr
    · exact t.fits r (List.mem_of_mem_filter hr)
    · rcases List.mem_cons.1 hr with rfl | hr
      · exact List.length_replicate
      · exact t.fits r (List.mem_of_mem_filter hr)
  ordered := by
    have hlow : ∀ a ∈ (t.rows.filter fun r => r.1 < t.newRowid pick).map Prod.fst, a <
      t.newRowid pick := by
      intro a ha
      obtain ⟨r, hr, rfl⟩ := List.mem_map.1 ha
      simpa using (List.mem_filter.1 hr).2
    have hhigh :
      ∀ a ∈ (t.rows.filter fun r => t.newRowid pick < r.1).map Prod.fst, t.newRowid pick < a := by
      intro a ha
      obtain ⟨r, hr, rfl⟩ := List.mem_map.1 ha
      simpa using (List.mem_filter.1 hr).2
    rw [List.map_append, List.map_cons]
    refine List.pairwise_append.2 ⟨t.ordered.sublist (List.filter_sublist.map _),
      List.pairwise_cons.2 ⟨hhigh, t.ordered.sublist (List.filter_sublist.map _)⟩,
        fun a ha b hb => ?_⟩
    rcases List.mem_cons.1 hb with rfl | hb
    · exact hlow a ha
    · exact Int.lt_trans (hlow a ha) (hhigh b hb)

/-! ## A table built anew -/

/-- The value of a row under a name; a name that no column has is read as a text. -/
def column (literal : ν → α) (names : List ν) (row : List (Option α)) (name : ν) : Option α :=
  (AssocMap.get? (names.zip row) name).getD (some (literal name))

/-- What stands in a row of the new table: the copied values under their names, NULL elsewhere. -/
def copy (literal : ν → α) (names names' copied : List ν) (row : List (Option α)) :
    List (Option α) :=
  names'.map fun name =>
  (AssocMap.get? (copied.zip (copied.map (column literal names row))) name).getD none

/-- A new table in place of the old one: the columns `copied` are kept in a temporary table, the
table is dropped and created with the columns `names'`, and the rows come back into the columns of
their names. -/
def rebuild (literal : ν → α) (t : RowidTable ν α) (names' copied : List ν) :
    Option (RowidTable ν α) :=
  if h : names'.Nodup ∧ copied.Nodup ∧ copied ≠ [] ∧
    (∀ name ∈ copied, name ∈ names') then some
      { names := names'
        rows := t.rows.mapIdx fun i r => ((i : Int) + 1, copy literal t.names names' copied r.2)
        distinct := h.1
        fits := by
          intro r hr
          obtain ⟨i, hi, rfl⟩ := List.mem_mapIdx.1 hr
          exact List.length_map _
        ordered := by
          refine List.pairwise_iff_getElem.2 fun i j hi hj hij => ?_
          rw [List.getElem_map, List.getElem_map, List.getElem_mapIdx, List.getElem_mapIdx]
          show (i : Int) + 1 < (j : Int) + 1
          omega }
  else none

theorem column_names (literal : ν → α) {names : List ν} (h : names.Nodup) {row : List (Option α)}
    (hlen : row.length = names.length) : names.map (column literal names row) = row := by
  refine List.ext_getElem (by simp [hlen]) fun i hi hi' => ?_
  have hi'' : i < names.length := hlen ▸ hi'
  have hmem : (names[i], row[i]) ∈ names.zip row :=
    List.mem_iff_getElem.2 ⟨i, by rw [List.length_zip]; omega, List.getElem_zip⟩
  have hkeys : AssocMap.keys (names.zip row) = names := List.map_fst_zip (Nat.le_of_eq hlen.symm)
  rw [List.getElem_map, column, AssocMap.get?_of_mem (by rwa [hkeys]) hmem]
  rfl

theorem copy_eq (literal : ν → α) (names names' copied : List ν) (row : List (Option α)) :
    copy literal names names' copied row =
      names'.map fun name => if name ∈ copied then column literal names row name else none := by
  refine List.map_congr_left fun name _ => ?_
  rw [AssocMap.get?_zip_map]
  split <;> rfl

/-- Columns that are all copied, in any order and number. -/
theorem copy_all (literal : ν → α) (names names' : List ν) (row : List (Option α)) :
    copy literal names names' names' row = names'.map (column literal names row) := by
  rw [copy_eq]
  exact List.map_congr_left fun name h => if_pos h

theorem copy_eraseIdx (literal : ν → α) {names : List ν} (h : names.Nodup) {row : List (Option α)}
    (hlen : row.length = names.length) (i : Nat) :
    copy literal names (names.eraseIdx i) (names.eraseIdx i) row = row.eraseIdx i := by
  rw [copy_all, ← List.eraseIdx_map, column_names literal h hlen]

theorem copy_move (literal : ν → α) {names : List ν} (h : names.Nodup) {row : List (Option α)}
    (hlen : row.length = names.length) {i : Nat} (hi : i < names.length) (hi' : i < row.length)
    (j : Nat) : copy literal names ((names.eraseIdx i).insertIdx j names[i])
    ((names.eraseIdx i).insertIdx j names[i]) row =
      (row.eraseIdx i).insertIdx j row[i] := by
  have hvalue : column literal names row names[i] = row[i] := by
    have := congrArg (·[i]?) (column_names literal h hlen)
    simpa [hi, hi'] using this
  rw [copy_all, List.map_insertIdx, ← List.eraseIdx_map, column_names literal h hlen, hvalue]

theorem copy_insertIdx (literal : ν → α) {names : List ν} (h : names.Nodup) {row : List (Option α)}
    (hlen : row.length = names.length) {novel : ν} (hnew : novel ∉ names) (i : Nat) :
    copy literal names (names.insertIdx i novel) names row = row.insertIdx i none := by
  have hold : (names.map fun name => if name ∈ names then column literal names row name else none) =
    row := by
    rw [List.map_congr_left fun name hn => if_pos hn, column_names literal h hlen]
  rw [copy_eq, List.map_insertIdx, hold, if_neg hnew]

/-! ## What the statements do -/

omit [DecidableEq ν] in
theorem values_length {t : RowidTable ν α} {r : List (Option α)} (h : r ∈ t.values) :
    r.length = t.names.length := by
  obtain ⟨r', hr', rfl⟩ := List.mem_map.1 h
  exact t.fits r' hr'

theorem rebuild_spec {literal : ν → α} {t t' : RowidTable ν α} {names' copied : List ν}
    (h : t.rebuild literal names' copied = some t') :
    t'.names = names' ∧ t'.values = t.values.map (copy literal t.names names' copied) ∧
      t'.ids = (List.range t.rows.length).map fun i : Nat => (i : Int) + 1 := by
  unfold rebuild at h
  split at h
  · cases h
    refine ⟨rfl, ?_, ?_⟩
    · refine List.ext_getElem (by simp [values]) fun i hi hi' => ?_
      simp [values]
    · refine List.ext_getElem (by simp [ids]) fun i hi hi' => ?_
      simp [ids]
  · cases h

omit [DecidableEq ν] in
theorem nodup_ids (t : RowidTable ν α) : t.ids.Nodup :=
  (show t.ids.Pairwise (· < ·) from t.ordered).imp fun h => Int.ne_of_lt h

omit [DecidableEq ν] in
theorem getElem_ids_eq_iff (t : RowidTable ν α) {i j : Nat} (hi : i < t.rows.length)
    (hj : j < t.rows.length) : t.rows[i].1 = t.rows[j].1 ↔ i = j := by
  have hi' : i < t.ids.length := by simpa [ids] using hi
  have hj' : j < t.ids.length := by simpa [ids] using hj
  have h : t.ids[i] = t.ids[j] ↔ i = j := t.nodup_ids.getElem_inj_iff
  simpa [ids] using h

omit [DecidableEq ν] in
/-- A row is found under its number. -/
theorem select_getElem (t : RowidTable ν α) {i : Nat} (h : i < t.rows.length) :
    t.select t.rows[i].1 = some t.rows[i].2 :=
  AssocMap.get?_of_mem t.nodup_ids (List.getElem_mem h)

theorem update_spec {t t' : RowidTable ν α} {i j : Nat} (hi : i < t.rows.length)
    (hj : j < t.names.length) {v : Option α} (h : t.update t.names[j] v t.rows[i].1 = some t') :
    t'.names = t.names ∧ t'.ids = t.ids ∧ t'.values = t.values.modify i fun row => row.set j v := by
  rw [update, if_pos (List.getElem_mem hj)] at h
  cases h
  refine ⟨rfl, ?_, ?_⟩
  · refine List.ext_getElem (by simp [ids]) fun k hk hk' => ?_
    simp only [ids, List.getElem_map]
    split <;> rfl
  · refine List.ext_getElem (by simp [values]) fun k hk hk' => ?_
    have hk'' : k < t.rows.length := by simpa [values] using hk'
    simp only [values, List.getElem_map, List.getElem_modify, t.distinct.idxOf_getElem,
      t.getElem_ids_eq_iff hk'' hi]
    by_cases he : i = k
    · simp [he]
    · have hne : ¬ k = i := fun h => he h.symm
      simp [he, hne]

omit [DecidableEq ν] in
theorem delete_rows (t : RowidTable ν α) {i : Nat} (h : i < t.rows.length) :
    (t.delete t.rows[i].1).rows = t.rows.eraseIdx i :=
  filter_ne_eq_eraseIdx t.nodup_ids h

theorem addColumn_spec {t t' : RowidTable ν α} {name : ν} (h : t.addColumn name = some t') :
    t'.names = t.names ++ [name] ∧ t'.values = t.values.map (· ++ [none]) ∧ t'.ids = t.ids := by
  unfold addColumn at h
  split at h
  · cases h
  · cases h
    exact ⟨rfl, by simp [values], by simp [ids]⟩

omit [DecidableEq ν] in
/-- A new row is the last one if there is room above the others. -/
theorem insertDefault_rows {pick : List Int → Int} {t : RowidTable ν α}
    (h : ∀ id ∈ t.ids.getLast?, id < maxRowid) : (t.insertDefault pick).rows = t.rows ++
    [(t.newRowid pick, List.replicate t.names.length none)] := by
  have habove : ∀ r ∈ t.rows, r.1 < t.newRowid pick := by
    intro r hr
    have hmem : r.1 ∈ t.ids := List.mem_map_of_mem hr
    have hne : t.ids ≠ [] := List.ne_nil_of_mem hmem
    have hlast := List.getLast?_eq_some_getLast hne
    have hle : r.1 ≤ t.ids.getLast hne := by
      obtain ⟨i, hi, he⟩ := List.mem_iff_getElem.1 hmem
      rw [← he, List.getLast_eq_getElem]
      by_cases hend : i = t.ids.length - 1
      · simp only [hend, Int.le_refl]
      · exact Int.le_of_lt
          (List.pairwise_iff_getElem.1 (show t.ids.Pairwise (· < ·) from t.ordered) i _ hi
            (by omega) (by omega))
    have hroom := h _ hlast
    rw [newRowid, hlast]
    show r.1 < if t.ids.getLast hne < maxRowid then t.ids.getLast hne + 1 else _
    rw [if_pos hroom]
    omega
  have hnone : ∀ r ∈ t.rows, ¬ t.newRowid pick < r.1 :=
    fun r hr => Int.not_lt.2 (Int.le_of_lt (habove r hr))
  show t.rows.filter _ ++ _ :: t.rows.filter _ = _
  rw [List.filter_eq_self.2 (by simpa using habove),
    List.filter_eq_nil_iff.2 (by simpa using hnone)]

end RowidTable

end Coopy.Lib
