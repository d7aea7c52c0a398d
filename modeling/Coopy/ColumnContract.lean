import Coopy.SqliteColumns

/-!
# What a column operation gives

    the requested name, or a free one, and a reference to the column's place
      ↔ no other name begins with the requested one; a moved column has a column behind it
                                                                                (columnContract_iff)
-/

namespace Coopy

open Lib

/-! ## The name of a new column -/

namespace SqliteSheet

theorem utf8ByteSize_le_of_prefix {m n : String} (h : m.toList <+: n.toList) :
    m.utf8ByteSize ≤ n.utf8ByteSize := by
  obtain ⟨t, ht⟩ := h
  have hn : n = m ++ String.ofList t := by
    rw [← String.ofList_toList (s := n), ← ht, String.ofList_append, String.ofList_toList]
  rw [hn, String.utf8ByteSize_append]
  exact Nat.le_add_right _ _

/-- One round: a name that begins like the base, and is not shorter than what is suggested, is
suggested. -/
def suggestStep (base : String) (t : String × Bool) (n : String) : String × Bool :=
  if base.toList <+: n.toList ∧ t.1.utf8ByteSize ≤ n.utf8ByteSize then (n, true) else t

/-- What has been suggested after the names `seen`: the base, or the longest that begins like it. -/
structure Suggests (base : String) (seen : List String) (t : String × Bool) : Prop where
  start : t.2 = false → t.1 = base ∧ ∀ n ∈ seen, ¬ base.toList <+: n.toList
  found : t.2 = true → t.1 ∈ seen ∧ base.toList <+: t.1.toList ∧
    ∀ n ∈ seen, base.toList <+: n.toList → n.utf8ByteSize ≤ t.1.utf8ByteSize

theorem Suggests.step {base : String} {seen : List String} {t : String × Bool}
    (h : Suggests base seen t) (n : String) :
    Suggests base (seen ++ [n]) (suggestStep base t n) := by
  unfold suggestStep
  split
  · rename_i hn
    refine ⟨fun hfalse => absurd hfalse (Bool.noConfusion),
      fun _ => ⟨by simp, hn.1, fun m hm hbegins => ?_⟩⟩
    rcases List.mem_append.1 hm with hm | hm
    · cases hfound : t.2 with
      | false => exact absurd hbegins ((h.start hfound).2 m hm)
      | true => exact ((h.found hfound).2.2 m hm hbegins).trans hn.2
    · rw [List.mem_singleton.1 hm]
  · rename_i hn
    constructor
    · intro hfound
      obtain ⟨hbase, hnone⟩ := h.start hfound
      refine ⟨hbase, fun m hm hbegins => ?_⟩
      rcases List.mem_append.1 hm with hm | hm
      · exact hnone m hm hbegins
      · rw [List.mem_singleton.1 hm] at hbegins
        exact hn ⟨hbegins, by rw [hbase]; exact utf8ByteSize_le_of_prefix hbegins⟩
    · intro hfound
      obtain ⟨hmem, hbegins, hlongest⟩ := h.found hfound
      refine ⟨List.mem_append_left _ hmem, hbegins, fun m hm hm' => ?_⟩
      rcases List.mem_append.1 hm with hm | hm
      · exact hlongest m hm hm'
      · rw [List.mem_singleton.1 hm] at hm' ⊢
        by_contra hlt
        exact hn ⟨hm', by omega⟩

theorem suggests_foldl (base : String) (names : List String) :
    ∀ (seen : List String) (t : String × Bool), Suggests base seen t →
    Suggests base (seen ++ names) (names.foldl (suggestStep base) t) := by
  induction names with
  | nil => exact fun seen t h => by rwa [List.append_nil]
  | cons n names ih =>
    intro seen t h
    have hrest := ih (seen ++ [n]) _ (h.step n)
    rwa [List.append_assoc] at hrest

theorem suggests_names (names : List String) (base : String) :
    Suggests base names (names.foldl (suggestStep base) (base, false)) := by
  have h := suggests_foldl base names [] (base, false)
    ⟨fun _ => ⟨rfl, fun n hn => absurd hn List.not_mem_nil⟩, fun hfound => by cases hfound⟩
  rwa [List.nil_append] at h

theorem suggestName_eq (names : List String) (base : String) : suggestName names base =
    (if (names.foldl (suggestStep base) (base, false)).2 =
      true then (names.foldl (suggestStep base) (base, false)).1 ++ "_"
      else (names.foldl (suggestStep base) (base, false)).1) := rfl

/-- The suggestion is the base itself if no name begins like it. -/
theorem suggestName_eq_iff (names : List String) (base : String) :
    suggestName names base = base ↔ ∀ n ∈ names, ¬ base.toList <+: n.toList := by
  have h := suggests_names names base
  rw [suggestName_eq]
  cases hfound : (names.foldl (suggestStep base) (base, false)).2 with
  | false =>
    rw [if_neg (by decide)]
    exact iff_of_true (h.start hfound).1 (h.start hfound).2
  | true =>
    obtain ⟨hmem, hbegins, -⟩ := h.found hfound
    rw [if_pos rfl]
    refine iff_of_false (fun he => ?_) (fun hnone => hnone _ hmem hbegins)
    have hsize := congrArg String.utf8ByteSize he
    have hle := utf8ByteSize_le_of_prefix hbegins
    have hmark : "_".utf8ByteSize = 1 := by decide
    rw [String.utf8ByteSize_append, hmark] at hsize
    omega

/-- No column bears the suggested name. -/
theorem suggestName_not_mem (names : List String) (base : String) :
    suggestName names base ∉ names := by
  have h := suggests_names names base
  rw [suggestName_eq]
  cases hfound : (names.foldl (suggestStep base) (base, false)).2 with
  | false =>
    obtain ⟨hbase, hnone⟩ := h.start hfound
    rw [if_neg (by decide), hbase]
    exact fun hmem => hnone base hmem (List.prefix_refl _)
  | true =>
    obtain ⟨-, hbegins, hlongest⟩ := h.found hfound
    rw [if_pos rfl]
    intro hmem
    have hlong :=
      hlongest _ hmem (by rw [String.toList_append]; exact hbegins.trans (List.prefix_append _ _))
    have hmark : "_".utf8ByteSize = 1 := by decide
    rw [String.utf8ByteSize_append, hmark] at hlong
    omega

end SqliteSheet

namespace SqliteColumns

open SqliteSheet (suggestName suggestName_eq_iff suggestName_not_mem)

variable {δ : Type}

def names (s : SqliteColumns δ) : List String := s.col2sql.map (·.name)

/-- The column that an insertion brings. -/
def newInfo (s : SqliteColumns δ) (kind : ColumnInfo) : ColumnInfo :=
  { kind with
    name := suggestName s.names (if kind.nameSet then kind.name else "ins")
    nameSet := true }

/-- The place before `base`, or the end. -/
def placeFor (s : SqliteColumns δ) (base : Int) : Nat :=
  if base < 0 then s.col2sql.length else base.toNat

/-! ## What each operation does -/

variable {e : Engine δ} {s : SqliteColumns δ}

theorem apply_eq_some {ischema : SqliteSchema} {novel : String}
    {result : SqliteColumns δ × List (Stop Statement)}
    (h : s.apply e ischema novel = some result) : ∃ statements,
      result.1 = { s with conn := (s.conn.exec e.run (Connection.script statements)).1 } ∧
        result.2 = (s.conn.exec e.run (Connection.script statements)).2.toList := by
  unfold apply at h
  simp only at h
  split at h
  · cases h
  · obtain rfl := Option.some.inj h
    exact ⟨_, rfl, rfl⟩

theorem grown_eq_some {cols : List ColumnInfo} {ischema : SqliteSchema} {novel : String}
    {index : Int} {r : Report δ}
    (h : (apply e { s with col2sql := cols } ischema novel).map (grown index) = some r) :
    r.sheet.col2sql = cols ∧
      ((r.stops = [] ∧ r.answer = .ref index ∧ r.sheet.w = s.w + 1) ∨
        (r.stops ≠ [] ∧ r.answer = .ref (-1))) := by
  obtain ⟨result, happly, rfl⟩ := Option.map_eq_some_iff.1 h
  obtain ⟨statements, hsheet, -⟩ := apply_eq_some happly
  unfold grown
  by_cases hstops : result.2 = []
  · rw [if_pos hstops]
    exact ⟨congrArg col2sql hsheet, Or.inl ⟨rfl, rfl, congrArg (·.w + 1) hsheet⟩⟩
  · rw [if_neg hstops]
    exact ⟨congrArg col2sql hsheet, Or.inr ⟨hstops, rfl⟩⟩

/-- An insertion: the column has come, or a statement failed; only at the end is the list then as it
was. -/
theorem insertColumn_eq_some {base : Int} {kind : ColumnInfo} {r : Report δ}
    (h : s.insertColumn e base kind = some r) : s.placeFor base ≤ s.col2sql.length ∧
      ((r.stops = [] ∧ r.answer = .ref (if base < 0 then s.w else base) ∧
          r.sheet.col2sql = s.col2sql.insertIdx (s.placeFor base) (s.newInfo kind) ∧
            r.sheet.w = s.w + 1) ∨
        (r.stops ≠ [] ∧ r.answer = .ref (-1) ∧ base ≠ -1 ∧
          r.sheet.col2sql = s.col2sql.insertIdx (s.placeFor base) (s.newInfo kind)) ∨
        ∃ statement stop, base = -1 ∧ r.stops = [stop] ∧ r.answer = .ref (-1) ∧
          r.sheet.col2sql = s.col2sql ∧ r.sheet.w = s.w ∧
          (s.conn.step e.run (.run statement)).2 = some stop ∧
            r.sheet.conn = (s.conn.step e.run (.run statement)).1) := by
  unfold insertColumn at h
  simp only at h
  by_cases hlast : base = -1
  · have hneg : base < 0 := by omega
    have hplace : s.placeFor base = s.col2sql.length := if_pos hneg
    rw [if_pos hlast] at h
    rw [if_pos hneg]
    refine ⟨Nat.le_of_eq hplace, ?_⟩
    split at h
    · rename_i stop hstop
      obtain rfl := Option.some.inj h
      exact Or.inr (Or.inr ⟨_, stop, hlast, rfl, rfl, rfl, rfl, hstop, rfl⟩)
    · obtain rfl := Option.some.inj h
      refine Or.inl ⟨rfl, rfl, ?_, rfl⟩
      rw [hplace, List.insertIdx_length_self]
      rfl
  · rw [if_neg hlast] at h
    split at h
    · rename_i hneg
      have hplace : s.placeFor base = s.col2sql.length := if_pos hneg
      obtain ⟨hcols, hcases⟩ := grown_eq_some h
      have hcols' : r.sheet.col2sql = s.col2sql.insertIdx (s.placeFor base) (s.newInfo kind) := by
        rw [hcols, hplace, List.insertIdx_length_self]
        rfl
      rw [if_pos hneg]
      refine ⟨Nat.le_of_eq hplace, ?_⟩
      rcases hcases with ⟨hstops, hanswer, hw⟩ | ⟨hstops, hanswer⟩
      · exact Or.inl ⟨hstops, hanswer, hcols', hw⟩
      · exact Or.inr (Or.inl ⟨hstops, hanswer, hlast, hcols'⟩)
    · rename_i hneg
      have hplace : s.placeFor base = base.toNat := if_neg hneg
      split at h
      · rename_i hin
        have hcount : base ≤ s.col2sql.length := hin.2
        obtain ⟨hcols, hcases⟩ := grown_eq_some h
        have hcols' : r.sheet.col2sql = s.col2sql.insertIdx (s.placeFor base) (s.newInfo kind) := by
          rw [hcols, hplace]
          rfl
        rw [if_neg hneg]
        refine ⟨by omega, ?_⟩
        rcases hcases with ⟨hstops, hanswer, hw⟩ | ⟨hstops, hanswer⟩
        · exact Or.inl ⟨hstops, hanswer, hcols', hw⟩
        · exact Or.inr (Or.inl ⟨hstops, hanswer, hlast, hcols'⟩)
      · cases h

theorem deleteColumn_eq_some {column : Nat} {r : Report δ} (h : s.deleteColumn e column = some r) :
    column < s.col2sql.length ∧ r.sheet.col2sql = s.col2sql.eraseIdx column ∧ r.sheet.w = s.w - 1 ∧
      r.answer = .flag (r.stops = []) := by
  unfold deleteColumn at h
  simp only at h
  split at h
  · rename_i hin
    obtain ⟨result, happly, rfl⟩ := Option.map_eq_some_iff.1 h
    obtain ⟨statements, hsheet, -⟩ := apply_eq_some happly
    exact ⟨hin.2, congrArg col2sql hsheet, congrArg w hsheet, rfl⟩
  · cases h

theorem moveColumn_eq_some {src : Nat} {base : Int} {r : Report δ}
    (h : s.moveColumn e src base = some r) : ∃ info statements, s.col2sql[src]? = some info ∧
      (movedIndex src base = -1 ∨
        (0 ≤ movedIndex src base ∧ movedIndex src base < s.col2sql.length)) ∧
      r.sheet.col2sql = moved s.col2sql src base info ∧ r.sheet.w = s.w ∧
      r.answer = .ref (if r.stops = [] then movedIndex src base else -1) ∧
      r.sheet.conn = (s.conn.exec e.run (Connection.script statements)).1 ∧
      r.stops = (s.conn.exec e.run (Connection.script statements)).2.toList := by
  unfold moveColumn at h
  simp only at h
  split at h
  · rename_i cacheSql cacheInfo hsql hinfo
    split at h
    · rename_i hin
      obtain ⟨result, happly, rfl⟩ := Option.map_eq_some_iff.1 h
      obtain ⟨statements, hsheet, hstops⟩ := apply_eq_some happly
      have hw : result.1.w = s.w := by rw [hsheet]; rfl
      refine ⟨cacheInfo, statements, hinfo, ?_, congrArg col2sql hsheet, hw, rfl,
        congrArg conn hsheet, hstops⟩
      exact hin.imp_right fun hin => ⟨hin.1, hin.2.2⟩
    · cases h
  · cases h

/-- The columns are the same, and their number. -/
def SameColumns (t u : SqliteColumns δ) : Prop := u.col2sql = t.col2sql ∧ u.w = t.w

theorem SameColumns.refl (t : SqliteColumns δ) : SameColumns t t := ⟨rfl, rfl⟩

theorem SameColumns.trans {t u v : SqliteColumns δ} (h : SameColumns t u) (h' : SameColumns u v) :
    SameColumns t v :=
  ⟨h'.1.trans h.1, h'.2.trans h.2⟩

theorem loadCell_frame (t : SqliteColumns δ) (xx yy : Nat) (r : Option String) :
    SameColumns t (t.loadCell xx yy r) := by
  cases r with
  | none => exact SameColumns.refl t
  | some r => exact SameColumns.refl t

theorem check_frame (t : SqliteColumns δ) : SameColumns t (t.check e) := by
  have hrow : ∀ (row : List (Option String) × Nat) (xs : List Nat) (t : SqliteColumns δ),
      SameColumns t (xs.foldl (fun s xx => s.loadCell xx row.2 (row.1.getD xx none)) t) :=
      fun row xs t =>
    List.foldlRecOn (motive := SameColumns t) xs _ (SameColumns.refl t) fun u hu xx _ =>
      hu.trans (loadCell_frame u xx _ _)
  have hrows : ∀ (rows : List (List (Option String) × Nat))
    (t : SqliteColumns δ), SameColumns t (rows.foldl
      (fun s row =>
        (List.range s.w.toNat).foldl (fun s xx => s.loadCell xx row.2 (row.1.getD xx none)) s) t) :=
        fun rows t =>
    List.foldlRecOn (motive := SameColumns t) rows _ (SameColumns.refl t) fun u hu row _ =>
      hu.trans (hrow row _ u)
  unfold check
  by_cases hload : t.pendingLoad = true
  · rw [if_pos hload]
    simp only
    split
    · exact SameColumns.refl t
    · exact hrows _ _
  · rw [if_neg hload]
    exact SameColumns.refl t

/-- Copies leave the columns as they are. -/
theorem copyCells_frame (column : Nat) (rows : List Nat)
    (t : SqliteColumns δ × List (Stop Statement)) :
    SameColumns t.1 (rows.foldl (copyCell e column) t).1 :=
  List.foldlRecOn (motive := fun u : SqliteColumns δ × List (Stop Statement) => SameColumns t.1 u.1)
    rows _ (SameColumns.refl t.1)
    fun u hu _ _ => hu.trans (@check_frame δ e u.1)

theorem eraseIdx_succ_insertIdx {α : Type} (x : α) {xs : List α} : ∀ {i : Nat}, i < xs.length →
    (xs.insertIdx i x).eraseIdx (i + 1) = xs.set i x := by
  induction xs with
  | nil => exact fun h => absurd h (by simp)
  | cons y ys ih =>
    intro i hi
    cases i with
    | zero => rfl
    | succ i =>
      rw [List.insertIdx_succ_cons, List.eraseIdx_cons_succ, List.set_cons_succ,
        ih (Nat.lt_of_succ_lt_succ hi)]

/-- A modification: an insertion that failed, or also a deletion, by which the column is another
one. -/
theorem modifyColumn_eq_some {column : Nat} {kind : ColumnInfo} {r : Report δ}
    (h : s.modifyColumn e column kind = some r) : (r.stops ≠ [] ∧ r.answer = .flag false ∧
      r.sheet.col2sql = s.col2sql.insertIdx column (s.newInfo kind) ∧
        column ≤ s.col2sql.length) ∨
      (column < s.col2sql.length ∧ r.sheet.col2sql = s.col2sql.set column (s.newInfo kind) ∧
        r.sheet.w = s.w) := by
  obtain ⟨inserted, hinsert, hrest⟩ := Option.bind_eq_some_iff.1 h
  obtain ⟨hlen, hcases⟩ := insertColumn_eq_some hinsert
  have hplace : s.placeFor column = column := by
    unfold placeFor
    rw [if_neg (by omega), Int.toNat_natCast]
  rw [hplace] at hlen hcases
  rw [if_neg (by omega)] at hcases
  rcases hcases with ⟨-, hanswer, hcols, hw⟩ | ⟨hstops, hanswer, -, hcols⟩ | ⟨-, -, hend, -⟩
  · have hsuccess : inserted.answer.success = true := by
      have hpos : (0 : Int) ≤ column := by omega
      rw [hanswer]
      exact decide_eq_true hpos
    rw [if_pos hsuccess] at hrest
    obtain ⟨deleted, hdelete, rfl⟩ := Option.map_eq_some_iff.1 hrest
    obtain ⟨hin, hdcols, hdw, -⟩ := deleteColumn_eq_some hdelete
    obtain ⟨hccols, hcw⟩ :=
      @copyCells_frame δ e column (List.range inserted.sheet.h) (inserted.sheet, inserted.stops)
    rw [hccols, hcols, List.length_insertIdx_of_le_length hlen] at hin
    refine Or.inr ⟨by omega, ?_, ?_⟩
    · show deleted.sheet.col2sql = _
      rw [hdcols, hccols, hcols, eraseIdx_succ_insertIdx _ (by omega)]
    · show deleted.sheet.w = _
      rw [hdw, hcw, hw]
      omega
  · have hfailure : ¬ inserted.answer.success = true := by
      rw [hanswer]
      decide
    rw [if_neg hfailure] at hrest
    obtain rfl := Option.some.inj hrest
    exact Or.inl ⟨hstops, rfl, hcols, hlen⟩
  · omega

/-! ## The contract -/

/-- What an operation gives where its statements succeed. -/
def Contract (s : SqliteColumns δ) (r : Report δ) : Op → Prop
  | .insertColumn base kind =>
    ∃ info, r.answer = .ref (s.placeFor base) ∧ s.placeFor base ≤ s.col2sql.length ∧
      r.sheet.col2sql = s.col2sql.insertIdx (s.placeFor base) info ∧ info.name ∉ s.names ∧
      (kind.nameSet = true → kind.name ∉ s.names → info.name = kind.name)
  | .deleteColumn _ => True
  | .moveColumn src _ =>
    ∃ index info, r.answer = .ref (index : Nat) ∧ s.col2sql[src]? = some info ∧
      index < s.col2sql.length ∧ r.sheet.col2sql = (s.col2sql.eraseIdx src).insertIdx index info
  | .modifyColumn column kind => kind.nameSet = true → kind.name ∉ s.names.eraseIdx column →
      ∃ info, r.sheet.col2sql = s.col2sql.set column info ∧ info.name = kind.name

/-- No name begins with a requested one, unless it is in the way itself; a column is moved in front
of another. -/
def Unclouded (s : SqliteColumns δ) : Op → Prop
  | .insertColumn _ kind =>
    kind.nameSet = true → kind.name ∈ s.names ∨ ∀ n ∈ s.names, ¬ kind.name.toList <+: n.toList
  | .deleteColumn _ => True
  | .moveColumn _ base => base ≠ -1
  | .modifyColumn column kind => kind.nameSet = true →
      kind.name ∈ s.names.eraseIdx column ∨ ∀ n ∈ s.names, ¬ kind.name.toList <+: n.toList

/-- An operation that went through, on a sheet with as many columns as it says. -/
structure Settled (e : Engine δ) where
  sheet : SqliteColumns δ
  width : sheet.w = sheet.col2sql.length
  op : Op
  report : Report δ
  performed : sheet.perform e op = some report
  through : report.stops = []

theorem newInfo_name_eq_iff {kind : ColumnInfo} (h : kind.nameSet = true) :
    (s.newInfo kind).name = kind.name ↔ ∀ n ∈ s.names, ¬ kind.name.toList <+: n.toList := by
  unfold newInfo
  rw [if_pos h]
  exact suggestName_eq_iff s.names kind.name

theorem newInfo_name_not_mem (s : SqliteColumns δ) (kind : ColumnInfo) :
    (s.newInfo kind).name ∉ s.names :=
  suggestName_not_mem s.names _

/-- **A column operation keeps its contract** unless another name begins with the requested one, or
the column is moved to the end. -/
theorem columnContract_iff (e : Engine δ) (t : Settled e) : Contract t.sheet t.report t.op ↔
    Unclouded t.sheet t.op := by
  obtain ⟨s, hwidth, op, r, hperform, hstops⟩ := t
  show Contract s r op ↔ Unclouded s op
  cases op with
  | insertColumn base kind =>
    obtain ⟨hlen, ⟨-, hanswer, hcols, -⟩ | ⟨hne, -⟩ | ⟨statement, stop, -, hone, -⟩⟩ :=
      insertColumn_eq_some hperform
    · constructor
      · rintro ⟨info, -, -, hinfo, -, hname⟩ hset
        rw [hcols] at hinfo
        obtain rfl : s.newInfo kind = info := by
          have hget := congrArg (fun cols => cols[s.placeFor base]?) hinfo
          simpa [List.getElem?_insertIdx_self, hlen] using hget
        by_cases hmem : kind.name ∈ s.names
        · exact Or.inl hmem
        · exact Or.inr ((newInfo_name_eq_iff hset).1 (hname hset hmem))
      · intro hclear
        refine ⟨s.newInfo kind, ?_, hlen, hcols, s.newInfo_name_not_mem kind, fun hset hfree => ?_⟩
        · rw [hanswer]
          unfold placeFor
          split
          · rw [hwidth]
          · rw [Int.toNat_of_nonneg (by omega)]
        · exact (newInfo_name_eq_iff hset).2 ((hclear hset).resolve_left hfree)
    · exact absurd hstops hne
    · rw [hone] at hstops
      cases hstops
  | deleteColumn column => exact Iff.rfl
  | moveColumn src base =>
    obtain ⟨info, statements, hinfo, hin, hcols, -, hanswer, -⟩ := moveColumn_eq_some hperform
    rw [if_pos hstops] at hanswer
    have hlast : movedIndex src base = -1 ↔ base = -1 := by
      unfold movedIndex
      split
      · omega
      · rfl
    constructor
    · rintro ⟨index, -, hindex, -⟩ hbase
      rw [hanswer, hlast.2 hbase] at hindex
      have hneg := Answer.ref.inj hindex
      omega
    · intro hbase
      have hin := hin.resolve_left (mt hlast.1 hbase)
      refine ⟨(movedIndex src base).toNat, info, ?_, hinfo, by omega, ?_⟩
      · rw [hanswer, Int.toNat_of_nonneg hin.1]
      · rw [hcols, moved, if_neg (mt hlast.1 hbase)]
  | modifyColumn column kind =>
    obtain ⟨hne, -⟩ | ⟨hlt, hcols, -⟩ := modifyColumn_eq_some hperform
    · exact absurd hstops hne
    · constructor
      · intro hcontract hset
        by_cases hmem : kind.name ∈ s.names.eraseIdx column
        · exact Or.inl hmem
        · obtain ⟨info, hinfo, hname⟩ := hcontract hset hmem
          rw [hcols] at hinfo
          obtain rfl : s.newInfo kind = info := by
            have hget := congrArg (fun cols => cols[column]?) hinfo
            simpa [hlt] using hget
          exact Or.inr ((newInfo_name_eq_iff hset).1 hname)
      · intro hclear hset hfree
        exact ⟨s.newInfo kind, hcols,
          (newInfo_name_eq_iff hset).2 ((hclear hset).resolve_left hfree)⟩

/-- A table with one column, in a database that runs all statements. -/
def oneColumn : Engine Unit where
  run := fun _ _ => .done ()
  sql := fun _ _ => "CREATE TABLE t (abc)".toList
  scan := fun _ _ => some []
  select := fun _ _ _ => none

def abcSheet : SqliteColumns Unit where
  conn := ⟨(), none⟩
  name := "t"
  quotedName := "t"
  w := 1
  h := 0
  pendingLoad := true
  row2sql := []
  col2sql := [ColumnInfo.named "abc"]
  cache := SparseSheet.empty ""
  cacheFlag := SparseSheet.empty 0

/-- No column is named `ab`, but the new one becomes `abc_`. -/
def clouded : Settled oneColumn where
  sheet := abcSheet
  width := rfl
  op := .insertColumn 0 (ColumnInfo.named "ab")
  report :=
    (abcSheet.perform oneColumn (.insertColumn 0 (ColumnInfo.named "ab"))).get (by decide +kernel)
  performed := (Option.some_get _).symm
  through := by decide +kernel

theorem not_columnContract :
    ¬ ∀ (δ : Type) (e : Engine δ) (t : Settled e), Contract t.sheet t.report t.op := by
  intro h
  obtain ⟨info, -, -, hcols, -, hname⟩ := h Unit oneColumn clouded
  have hfirst : clouded.report.sheet.col2sql.head?.map ColumnInfo.name = some "abc_" := by
    decide +kernel
  rw [hcols] at hfirst
  have hinfo : info.name = "abc_" := Option.some.inj hfirst
  rw [hinfo] at hname
  exact absurd (hname rfl (by decide)) (by decide)

end SqliteColumns

end Coopy
