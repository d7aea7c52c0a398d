import Coopy.ColumnContract

/-!
# Column operations that fail

The list of columns is changed before the script runs, and the script is not rolled back.

    all is as before ↔ a column was to come at the end,
      or a move changes nothing and its transaction never was, or was
      undone by the engine                                                       (columnsAtomic_iff)
-/

namespace Coopy

open Lib

namespace SqliteColumns

variable {δ : Type} {e : Engine δ} {s : SqliteColumns δ}

/-- A failure is reported; the columns, the contents and the transactions are as before. -/
structure Atomic (s : SqliteColumns δ) (r : Report δ) : Prop where
  reported : r.answer.success = false
  w : r.sheet.w = s.w
  col2sql : r.sheet.col2sql = s.col2sql
  conn : r.sheet.conn = s.conn

/-- What saves an operation whose commands `stops` fail. -/
def Spared (s : SqliteColumns δ) (stops : List (Stop Statement)) : Op → Prop
  | .insertColumn base _ => base = -1 ∧ (s.conn.saved = none ∨ ∀ stop ∈ stops, stop.undone = false)
  | .deleteColumn _ => False
  | .moveColumn src base =>
    (∀ info, s.col2sql[src]? = some info → moved s.col2sql src base info = s.col2sql) ∧
      ∀ stop ∈ stops, stop.command = .start ∨ stop.undone = true
  | .modifyColumn _ _ => False

/-- An operation of which a statement failed. -/
structure Stopped (e : Engine δ) where
  sheet : SqliteColumns δ
  op : Op
  report : Report δ
  performed : sheet.perform e op = some report
  stopped : report.stops ≠ []

theorem insertIdx_ne_self {α : Type} {xs : List α} {i : Nat} (h : i ≤ xs.length) (x : α) :
    xs.insertIdx i x ≠ xs := by
  intro he
  have hlen := congrArg List.length he
  rw [List.length_insertIdx_of_le_length h] at hlen
  omega

/-- The new name is not one of the old ones, so that the list has changed. -/
theorem set_newInfo_ne_self {column : Nat} {kind : ColumnInfo} (h : column < s.col2sql.length) :
    s.col2sql.set column (s.newInfo kind) ≠ s.col2sql := by
  intro he
  have hmem : s.newInfo kind ∈ s.col2sql := by
    rw [← he]
    exact List.mem_iff_getElem?.2 ⟨column, by simp [h]⟩
  exact s.newInfo_name_not_mem kind (List.mem_map_of_mem hmem)

/-- **A failed operation leaves all as it was** only in two places. -/
theorem columnsAtomic_iff (e : Engine δ) (t : Stopped e) : Atomic t.sheet t.report ↔
    Spared t.sheet t.report.stops t.op := by
  obtain ⟨s, op, r, hperform, hstopped⟩ := t
  show Atomic s r ↔ Spared s r.stops op
  cases op with
  | insertColumn base kind =>
    obtain ⟨hlen, ⟨hnone, -⟩ | ⟨-, -, hbase, hcols⟩ | ⟨statement, stop, hbase, hone, hanswer, hcols,
      hw, hstop, hconn⟩⟩ := insertColumn_eq_some hperform
    · exact absurd hnone hstopped
    · refine iff_of_false (fun h => ?_) (fun h => hbase h.1)
      exact insertIdx_ne_self hlen _ (hcols.symm.trans h.col2sql)
    · have hself := Connection.step_run_eq_self_iff hstop
      rw [← hconn] at hself
      have hreported : r.answer.success = false := by
        rw [hanswer]
        rfl
      rw [hone]
      constructor
      · intro h
        refine ⟨hbase, (hself.1 h.conn).imp_right fun hundone stop' hmem => ?_⟩
        rwa [List.mem_singleton.1 hmem]
      · rintro ⟨-, hcases⟩
        exact ⟨hreported, hw, hcols,
          hself.2 (hcases.imp_right fun hall => hall stop List.mem_cons_self)⟩
  | deleteColumn column =>
    obtain ⟨hlt, hcols, -⟩ := deleteColumn_eq_some hperform
    refine iff_of_false (fun h => ?_) id
    have hlen := congrArg List.length (hcols.symm.trans h.col2sql)
    rw [List.length_eraseIdx_of_lt hlt] at hlen
    omega
  | moveColumn src base =>
    obtain ⟨info, statements, hinfo, -, hcols, hw, hanswer, hconn, hstops⟩ :=
      moveColumn_eq_some hperform
    cases hresult : (s.conn.exec e.run (Connection.script statements)).2 with
    | none =>
      rw [hresult] at hstops
      exact absurd hstops hstopped
    | some stop =>
      have hself := Connection.exec_eq_self_iff hresult
      rw [← hconn] at hself
      rw [hresult] at hstops
      have hreported : r.answer.success = false := by
        rw [hanswer, if_neg hstopped]
        rfl
      rw [hstops]
      constructor
      · intro h
        refine ⟨fun info' hinfo' => ?_, fun stop' hmem => ?_⟩
        · obtain rfl := Option.some.inj (hinfo.symm.trans hinfo')
          exact hcols.symm.trans h.col2sql
        · rw [List.mem_singleton.1 hmem]
          exact hself.1 h.conn
      · rintro ⟨hmoved, hcases⟩
        exact ⟨hreported, hw, hcols.trans (hmoved info hinfo),
          hself.2 (hcases stop List.mem_cons_self)⟩
  | modifyColumn column kind =>
    refine iff_of_false (fun h => ?_) id
    obtain ⟨-, -, hcols, hlen⟩ | ⟨hlt, hcols, -⟩ := modifyColumn_eq_some hperform
    · exact insertIdx_ne_self hlen _ (hcols.symm.trans h.col2sql)
    · exact set_newInfo_ne_self hlt (hcols.symm.trans h.col2sql)

/-- No table is made without columns. -/
def noEmptyTable : Engine Unit where
  run := fun command _ => if command = .run (.createBackup []) then .failed else .done ()
  sql := fun _ _ => "CREATE TABLE t (abc)".toList
  scan := fun _ _ => some []
  select := fun _ _ _ => none

/-- The only column is to go. -/
def lastColumn : Stopped noEmptyTable where
  sheet := abcSheet
  op := .deleteColumn 0
  report := (abcSheet.perform noEmptyTable (.deleteColumn 0)).get (by decide +kernel)
  performed := (Option.some_get _).symm
  stopped := by decide +kernel

theorem not_columnsAtomic :
    ¬ ∀ (δ : Type) (e : Engine δ) (t : Stopped e), Atomic t.sheet t.report := by
  intro h
  have hcols := (h Unit noEmptyTable lastColumn).col2sql
  exact absurd hcols (by decide +kernel)

end SqliteColumns

end Coopy
