import Coopy.SqlCompare
import Mathlib.Data.List.MinMax

/-!
# What the three queries find

A name without backticks is read between them with its apostrophes doubled.  Without apostrophes the
queries find the rows that the tables differ in; with one of them anywhere, no query can be
prepared.

    apply db t remote = one change for each difference of the tables                   (apply_plain)
    apply db t remote = no change                                                 (apply_apostrophe)
-/

namespace Coopy

open Lib Relation

namespace Sqlite

theorem readBody_append {s : List Char} (hs : backtick ∉ s) :
    readBody (s ++ [backtick]) = some s := by
  induction s with
  | nil => rfl
  | cons c s ih =>
    have hc : (c == backtick) = false := by
      rw [beq_eq_false_iff_ne]
      rintro rfl
      exact hs List.mem_cons_self
    have hrest := ih fun h => hs (List.mem_cons_of_mem _ h)
    cases s with
    | nil => simp [readBody, hc]
    | cons d s =>
      rw [List.cons_append, List.cons_append, readBody, hc]
      simpa using hrest

theorem mem_doubled {s : List Char} {c : Char} : c ∈ doubled s ↔ c ∈ s := by
  simp only [doubled, List.mem_flatMap]
  constructor
  · rintro ⟨d, hd, hc⟩
    split at hc
    · simp only [List.mem_cons, List.not_mem_nil, or_false, or_self] at hc
      exact hc ▸ hd
    · rw [List.mem_singleton.1 hc]
      exact hd
  · intro hc
    refine ⟨c, hc, ?_⟩
    split <;> simp

theorem readName_quoted {name : String} (h : backtick ∉ name.toList) :
    readName (quoted name) = some (String.ofList (doubled name.toList)) := by
  rw [quoted, List.cons_append, readName, beq_self_eq_true, if_pos rfl,
    readBody_append (mt mem_doubled.1 h)]
  rfl

theorem doubled_eq_self {s : List Char} (h : apostrophe ∉ s) : doubled s = s := by
  induction s with
  | nil => rfl
  | cons c s ih =>
    have hc : (c == apostrophe) = false := by
      rw [beq_eq_false_iff_ne]
      rintro rfl
      exact h List.mem_cons_self
    rw [doubled, List.flatMap_cons, hc]
    exact congrArg (c :: ·) (ih fun hm => h (List.mem_cons_of_mem _ hm))

theorem count_doubled (s : List Char) : (doubled s).count apostrophe = 2 * s.count apostrophe := by
  induction s with
  | nil => rfl
  | cons c s ih =>
    rw [doubled, List.flatMap_cons, List.count_append, List.count_cons]
    rw [doubled] at ih
    rw [ih]
    by_cases hc : c = apostrophe
    · simp [hc]
      omega
    · simp [hc]

/-- The apostrophes in a name. -/
def apostrophes (name : String) : Nat := name.toList.count apostrophe

theorem apostrophes_read {name name' : String} (h : backtick ∉ name.toList)
    (hr : readName (quoted name) = some name') : apostrophes name' = 2 * apostrophes name := by
  rw [readName_quoted h, Option.some.injEq] at hr
  rw [← hr, apostrophes, String.toList_ofList, count_doubled]
  rfl

theorem readName_plain {name : String} (h : backtick ∉ name.toList) (ha : apostrophes name = 0) :
    readName (quoted name) = some name := by
  rw [readName_quoted h, doubled_eq_self (List.count_eq_zero.1 ha), String.ofList_toList]

end Sqlite

open Sqlite

/-! ## Names -/

theorem exists_max {α : Type} (f : α → Nat) {l : List α} (h : l ≠ []) :
    ∃ m ∈ l, ∀ a ∈ l, f a ≤ f m := by
  obtain ⟨m, hm⟩ := Option.ne_none_iff_exists'.1 (mt (List.argmax_eq_none (f := f)).1 h)
  exact ⟨m, List.argmax_mem hm, fun a ha => List.le_of_mem_argmax ha hm⟩

namespace SqlTable

/-- All names that stand in a query about the table. -/
def names (t : SqlTable) : List String := t.name.schema :: t.name.name :: t.getColumnNames

/-- The places of the key columns, and of the others. -/
def keyPlaces (t : SqlTable) : List Nat := t.getPrimaryKey.map (t.getColumnNames.idxOf ·)

def dataPlaces (t : SqlTable) : List Nat := t.getAllButPrimaryKey.map (t.getColumnNames.idxOf ·)

theorem column?_plain {t : SqlTable} {name : String} (hm : name ∈ t.getColumnNames)
    (hb : backtick ∉ name.toList)
    (ha : apostrophes name = 0) : t.column? (quoted name) = some (t.getColumnNames.idxOf name) := by
  rw [column?, readName_plain hb ha]
  exact List.findIdx?_eq_some_iff_findIdx_eq.2 ⟨List.idxOf_lt_length_iff.2 hm, rfl⟩

theorem column?_mem {t : SqlTable} {name : String} {i : Nat} (hb : backtick ∉ name.toList)
    (h : t.column? (quoted name) = some i) :
    ∃ name' ∈ t.getColumnNames, apostrophes name' = 2 * apostrophes name := by
  obtain ⟨name', hread, hfind⟩ := Option.bind_eq_some_iff.1 h
  obtain ⟨hlt, heq, -⟩ := List.findIdx?_eq_some_iff_getElem.1 hfind
  rw [beq_iff_eq] at heq
  exact ⟨name', heq ▸ List.getElem_mem hlt, apostrophes_read hb hread⟩

/-- Among the columns, the name with the most apostrophes is not found. -/
theorem column?_apostrophe {t : SqlTable} (hb : ∀ n ∈ t.getColumnNames, backtick ∉ n.toList)
    (ha : ∃ n ∈ t.getColumnNames, apostrophes n ≠ 0) :
    ∃ n ∈ t.getColumnNames, t.column? (quoted n) = none := by
  obtain ⟨n0, hn0, ha0⟩ := ha
  obtain ⟨n, hn, hmax⟩ := exists_max apostrophes (List.ne_nil_of_mem hn0)
  refine ⟨n, hn, ?_⟩
  cases hcol : t.column? (quoted n) with
  | none => rfl
  | some i =>
    obtain ⟨m, hm, htwice⟩ := column?_mem (hb n hn) hcol
    have hle := hmax m hm
    have hpos := hmax n0 hn0
    omega

end SqlTable

/-! ## The tables of a comparison -/

/-- The name that is read where this one was quoted. -/
def SqlTableName.read (n : SqlTableName) : SqlTableName :=
  ⟨String.ofList (doubled n.schema.toList), String.ofList (doubled n.name.toList)⟩

/-- Two tables of a database with the same columns, and a key that is unique and not NULL in
each. -/
structure SqlPair where
  t : SqlTable
  remote : SqlTable
  others : Database := []
  -- none of them is taken for one of the two
  unlike : ∀ o ∈ others, o.name ≠ t.name.read ∧ o.name ≠ remote.name.read := by decide
  apart : t.name ≠ remote.name
  sameColumns : t.columns = remote.columns
  distinct : t.getColumnNames.Nodup
  keyed : t.getPrimaryKey ≠ []
  noBacktick : ∀ n ∈ t.names ++ remote.names, backtick ∉ n.toList
  rect : ∀ r ∈ t.rows ++ remote.rows, r.length = t.columns.length
  unique : (t.rows.map (project t.keyPlaces)).Nodup
  uniqueRemote : (remote.rows.map (project t.keyPlaces)).Nodup
  notNull : ∀ r ∈ t.rows ++ remote.rows, ∀ v ∈ project t.keyPlaces r, v ≠ none

namespace SqlPair

variable (p : SqlPair)

def db : Database := p.t :: p.remote :: p.others

/-- No name in the queries has an apostrophe. -/
def Plain : Prop := ∀ n ∈ p.t.names ++ p.remote.names, apostrophes n = 0

theorem sameNames : p.remote.getColumnNames = p.t.getColumnNames := by
  rw [SqlTable.getColumnNames, SqlTable.getColumnNames, p.sameColumns]

theorem mem_names {n : String} (h : n ∈ p.t.getColumnNames) : n ∈ p.t.names ++ p.remote.names := by
  simp [SqlTable.names, h]

theorem key_mem : ∀ n ∈ p.t.getPrimaryKey, n ∈ p.t.getColumnNames := by
  intro n hn
  obtain ⟨c, hc, rfl⟩ := List.mem_map.1 hn
  exact List.mem_map_of_mem (List.mem_filter.1 hc).1

theorem data_mem : ∀ n ∈ p.t.getAllButPrimaryKey, n ∈ p.t.getColumnNames := by
  intro n hn
  obtain ⟨c, hc, rfl⟩ := List.mem_map.1 hn
  exact List.mem_map_of_mem (List.mem_filter.1 hc).1

theorem validateSchema : SqlCompare.validateSchema p.t p.remote = true := by
  have hkey : p.remote.getPrimaryKey = p.t.getPrimaryKey := by
    rw [SqlTable.getPrimaryKey, SqlTable.getPrimaryKey, p.sameColumns]
  have hne : p.t.getPrimaryKey.isEmpty = false := by simpa using p.keyed
  simp [SqlCompare.validateSchema, p.sameNames, hkey, hne]

/-! ## Queries that can be prepared -/

section
variable {p} (hp : p.Plain)

include hp

theorem mapM_columns {ns : List String} (h : ∀ n ∈ ns, n ∈ p.t.getColumnNames) :
    (ns.map quoted).mapM p.t.column? = some (ns.map (p.t.getColumnNames.idxOf ·)) ∧
      (ns.map quoted).mapM p.remote.column? = some (ns.map (p.t.getColumnNames.idxOf ·)) := by
  have hcol : ∀ n ∈ ns, p.t.column? (quoted n) = some (p.t.getColumnNames.idxOf n) ∧
      p.remote.column? (quoted n) = some (p.t.getColumnNames.idxOf n) := by
    intro n hn
    have hb := p.noBacktick n (p.mem_names (h n hn))
    have ha := hp n (p.mem_names (h n hn))
    refine ⟨SqlTable.column?_plain (h n hn) hb ha, ?_⟩
    rw [SqlTable.column?_plain (by rw [p.sameNames]; exact h n hn) hb ha, p.sameNames]
  rw [List.mapM_map, List.mapM_map]
  exact ⟨mapM_eq_some_map fun n hn => (hcol n hn).1, mapM_eq_some_map fun n hn => (hcol n hn).2⟩

theorem table?_plain : p.db.table? p.t.quotedTableName = some p.t ∧
    p.db.table? p.remote.quotedTableName = some p.remote := by
  have hread : ∀ n ∈ p.t.names ++ p.remote.names, readName (quoted n) = some n :=
    fun n hn => readName_plain (p.noBacktick n hn) (hp n hn)
  have h1 : (p.t.name == p.t.name) = true := beq_self_eq_true _
  have h2 : (p.t.name == p.remote.name) = false := beq_eq_false_iff_ne.2 p.apart
  constructor
  · unfold Database.table? SqlTable.quotedTableName
    rw [hread _ (by simp [SqlTable.names]), hread _ (by simp [SqlTable.names])]
    simp [db]
  · unfold Database.table? SqlTable.quotedTableName
    rw [hread _ (by simp [SqlTable.names]), hread _ (by simp [SqlTable.names])]
    simp [db, p.apart]

end

theorem allPlaces :
    p.t.getColumnNames.map (p.t.getColumnNames.idxOf ·) = List.range p.t.columns.length := by
  rw [map_idxOf_self p.distinct, SqlTable.getColumnNames, List.length_map]

/-- Every column is in the key or not. -/
theorem cover : ∀ i < p.t.columns.length, i ∈ p.t.keyPlaces ∨ i ∈ p.t.dataPlaces := by
  intro i hi
  have hi' : i < p.t.getColumnNames.length := by rwa [SqlTable.getColumnNames, List.length_map]
  have hidx : p.t.getColumnNames.idxOf p.t.columns[i].name = i := by
    have := p.distinct.idxOf_getElem i hi'
    rwa [show p.t.getColumnNames[i] = p.t.columns[i].name from List.getElem_map ..] at this
  cases hk : p.t.columns[i].isPrimaryKey with
  | true =>
    refine Or.inl
      (List.mem_map.2 ⟨p.t.columns[i].name, List.mem_map.2 ⟨p.t.columns[i], ?_, rfl⟩, hidx⟩)
    exact List.mem_filter.2 ⟨List.getElem_mem hi, hk⟩
  | false =>
    refine Or.inr
      (List.mem_map.2 ⟨p.t.columns[i].name, List.mem_map.2 ⟨p.t.columns[i], ?_, rfl⟩, hidx⟩)
    exact List.mem_filter.2 ⟨List.getElem_mem hi, by simp [hk]⟩

theorem rect_t : ∀ r ∈ p.t.rows, r.length = p.t.columns.length :=
  fun r hr => p.rect r (List.mem_append_left _ hr)

theorem rect_remote : ∀ r ∈ p.remote.rows, r.length = p.t.columns.length :=
  fun r hr => p.rect r (List.mem_append_right _ hr)

/-- The key of a row. -/
def key (r : Row String) : Row String := project p.t.keyPlaces r

/-- A difference of the tables as the change that is emitted for it. -/
def toChange : Change (Row String) → RowChange
  | .insert b => SqlCompare.insertChange p.t.getColumnNames (SqlCompare.keyIndexes p.t) b
  | .update a b =>
    SqlCompare.updateChange p.t.getColumnNames (SqlCompare.keyIndexes p.t) (interleave a b)
  | .delete a => SqlCompare.deleteChange p.t.getColumnNames (SqlCompare.keyIndexes p.t) a

/-- The changes that make the remote table. -/
def differences : List (Change (Row String)) := changes p.key p.t.rows p.remote.rows

section
variable {p}

theorem queryUnmatched_plain (hp : p.Plain) :
    p.db.queryUnmatched (p.t.getColumnNames.map quoted)
    (p.t.getPrimaryKey.map quoted) p.remote.quotedTableName
        p.t.quotedTableName = some (unmatched p.key p.remote.rows p.t.rows) ∧
      p.db.queryUnmatched (p.t.getColumnNames.map quoted)
        (p.t.getPrimaryKey.map quoted) p.t.quotedTableName
        p.remote.quotedTableName = some (unmatched p.key p.t.rows p.remote.rows) := by
  have hkeys := mapM_columns hp p.key_mem
  have hcols := mapM_columns hp fun n hn => hn
  have htables := table?_plain hp
  have hne : (p.t.getPrimaryKey.map quoted).isEmpty = false := by simpa using p.keyed
  rw [p.allPlaces] at hcols
  unfold Database.queryUnmatched
  simp only [htables.1, htables.2, hkeys.1, hkeys.2, hcols.1, hcols.2, Option.bind_eq_bind,
    Option.bind_some, hne, Bool.false_eq_true, if_false]
  exact ⟨congrArg some (selectUnmatched_eq _ p.rect_remote _),
    congrArg some (selectUnmatched_eq _ p.rect_t _)⟩

/-- Without a column outside the key there is nothing to be found, and the query has no
condition. -/
theorem mismatched_of_no_data (h : p.t.getAllButPrimaryKey = []) :
    mismatched p.key p.t.rows p.remote.rows = [] := by
  rw [List.eq_nil_iff_forall_not_mem]
  rintro ⟨a, b⟩ hab
  obtain ⟨ha, hb, hk, hne⟩ := mem_mismatched.1 hab
  refine hne
    (eq_of_project (l := p.t.keyPlaces) (fun i hi => ?_) (p.rect_t a ha) (p.rect_remote b hb) hk)
  refine (p.cover i hi).resolve_right fun hd => ?_
  rw [SqlTable.dataPlaces, h] at hd
  cases hd

theorem queryMismatched_plain (hp : p.Plain) :
    (p.db.queryMismatched (p.t.getColumnNames.map quoted) (p.t.getPrimaryKey.map quoted)
      (p.t.getAllButPrimaryKey.map quoted) p.t.quotedTableName p.remote.quotedTableName).getD [] =
      (mismatched p.key p.t.rows p.remote.rows).map fun q => interleave q.1 q.2 := by
  have hkeys := mapM_columns hp p.key_mem
  have hdata := mapM_columns hp p.data_mem
  have hcols := mapM_columns hp fun n hn => hn
  have htables := table?_plain hp
  have hne : (p.t.getPrimaryKey.map quoted).isEmpty = false := by simpa using p.keyed
  rw [p.allPlaces] at hcols
  unfold Database.queryMismatched
  simp only [htables.1, htables.2, hkeys.1, hkeys.2, hdata.1, hdata.2, hcols.1, hcols.2,
    Option.bind_eq_bind, Option.bind_some, hne, Bool.false_or]
  by_cases hd : p.t.getAllButPrimaryKey = []
  · rw [if_pos (by simp [hd]), mismatched_of_no_data hd]
    rfl
  · rw [if_neg (by simpa using hd)]
    exact selectMismatched_eq p.cover p.rect_t p.rect_remote

/-- **The changes for plain names**: one for each difference. -/
theorem apply_plain (hp : p.Plain) :
    SqlCompare.apply p.db p.t p.remote = (true, p.differences.map p.toChange) := by
  unfold SqlCompare.apply SqlCompare.rowChanges
  rw [p.validateSchema]
  simp only [Bool.not_true, Bool.false_eq_true, if_false, (queryUnmatched_plain hp).1,
    (queryUnmatched_plain hp).2, queryMismatched_plain hp, Option.getD_some]
  simp [differences, changes, List.map_append, List.map_map, Function.comp_def, toChange]

/-! ## Queries that cannot be prepared -/

/-- What is found under the name of one of the two is one of them. -/
theorem table?_mem {m x : SqlTable} (hm : m = p.t ∨ m = p.remote)
    (h : p.db.table? m.quotedTableName = some x) :
    x.name = m.name.read ∧ (x = p.t ∨ x = p.remote) := by
  have hb : backtick ∉ m.name.schema.toList ∧ backtick ∉ m.name.name.toList := by
    rcases hm with rfl | rfl <;>
      exact ⟨p.noBacktick _ (by simp [SqlTable.names]), p.noBacktick _ (by simp [SqlTable.names])⟩
  unfold Database.table? SqlTable.quotedTableName at h
  rw [readName_quoted hb.1, readName_quoted hb.2] at h
  change p.db.find? (fun t => t.name == m.name.read) = some x at h
  have hfound := List.find?_some h
  have hname : x.name = m.name.read := eq_of_beq hfound
  refine ⟨hname, ?_⟩
  rcases List.mem_cons.1 (List.mem_of_find?_eq_some h) with hx | hx
  · exact Or.inl hx
  rcases List.mem_cons.1 hx with hx | hx
  · exact Or.inr hx
  · rcases hm with rfl | rfl
    · exact absurd hname (p.unlike x hx).1
    · exact absurd hname (p.unlike x hx).2

/-- A table with a name that is not found, or columns that are not. -/
theorem notFound (hp : ¬ p.Plain) :
    (p.db.table? p.t.quotedTableName = none ∨ p.db.table? p.remote.quotedTableName = none) ∨
      (p.t.getColumnNames.map quoted).mapM p.t.column? = none ∧
      (p.t.getColumnNames.map quoted).mapM p.remote.column? = none := by
  have hb : ∀ n ∈ p.t.getColumnNames, backtick ∉ n.toList :=
    fun n hn => p.noBacktick n (p.mem_names hn)
  by_cases hcols : ∃ n ∈ p.t.getColumnNames, apostrophes n ≠ 0
  · refine Or.inr ⟨mapM_eq_none ?_, mapM_eq_none ?_⟩
    · obtain ⟨n, hn, hnone⟩ := SqlTable.column?_apostrophe hb hcols
      exact ⟨quoted n, List.mem_map_of_mem hn, hnone⟩
    · obtain ⟨n, hn, hnone⟩ :=
        SqlTable.column?_apostrophe (t := p.remote) (by rwa [p.sameNames]) (by rwa [p.sameNames])
      exact ⟨quoted n, List.mem_map_of_mem (p.sameNames ▸ hn), hnone⟩
  · -- the apostrophe is in the name of a table: the one with most of them is not found
    let weight : SqlTable → Nat := fun t => apostrophes t.name.schema + apostrophes t.name.name
    obtain ⟨m, hm, hmax⟩ := exists_max weight (l := [p.t, p.remote]) (List.cons_ne_nil _ _)
    have hm : m = p.t ∨ m = p.remote := by simpa using hm
    have hpos : 0 < weight m := by
      by_contra hzero
      refine hp fun n hn => ?_
      have ht := hmax p.t List.mem_cons_self
      have hr := hmax p.remote (List.mem_cons_of_mem _ List.mem_cons_self)
      simp only [weight] at ht hr hzero
      simp only [SqlTable.names, p.sameNames, List.mem_append, List.mem_cons] at hn
      rcases hn with (rfl | rfl | hn) | (rfl | rfl | hn)
      · omega
      · omega
      · by_contra h
        exact hcols ⟨n, hn, h⟩
      · omega
      · omega
      · by_contra h
        exact hcols ⟨n, hn, h⟩
    have hnone : p.db.table? m.quotedTableName = none := by
      cases hfound : p.db.table? m.quotedTableName with
      | none => rfl
      | some x =>
        obtain ⟨hname, hx⟩ := table?_mem hm hfound
        have hle := hmax x (by simpa using hx)
        have hdouble : weight x = 2 * weight m := by
          simp only [weight, hname, SqlTableName.read, apostrophes,
            String.toList_ofList, count_doubled]
          omega
        omega
    refine Or.inl ?_
    rcases hm with rfl | rfl
    · exact Or.inl hnone
    · exact Or.inr hnone

/-- A query over the columns of a table that is found. -/
theorem not_prepared (hp : ¬ p.Plain) {q q' : List Char × List Char} {t other : SqlTable}
    {is : List Nat} (hq : (q, q') = (p.t.quotedTableName, p.remote.quotedTableName) ∨
      (q, q') = (p.remote.quotedTableName, p.t.quotedTableName))
    (ht : p.db.table? q = some t) (ho : p.db.table? q' = some other)
    (his : (p.t.getColumnNames.map quoted).mapM t.column? = some is) : False := by
  have hmem : t = p.t ∨ t = p.remote := by
    rcases hq with hq | hq <;> cases hq
    · exact (table?_mem (Or.inl rfl) ht).2
    · exact (table?_mem (Or.inr rfl) ht).2
  rcases notFound hp with htable | ⟨h1, h2⟩
  · rcases hq with hq | hq <;> cases hq <;> rcases htable with h | h
    · rw [ht] at h
      cases h
    · rw [ho] at h
      cases h
    · rw [ho] at h
      cases h
    · rw [ht] at h
      cases h
  · rcases hmem with rfl | rfl
    · rw [his] at h1
      cases h1
    · rw [his] at h2
      cases h2

theorem queryUnmatched_apostrophe (hp : ¬ p.Plain) {q q' : List Char × List Char}
    (keys : List (List Char)) (hq : (q, q') = (p.t.quotedTableName, p.remote.quotedTableName) ∨
      (q, q') = (p.remote.quotedTableName, p.t.quotedTableName)) :
    p.db.queryUnmatched (p.t.getColumnNames.map quoted) keys q q' = none := by
  by_contra hsome
  obtain ⟨rows, h⟩ := Option.ne_none_iff_exists'.1 hsome
  simp only [Database.queryUnmatched, Option.bind_eq_bind, Option.bind_eq_some_iff] at h
  obtain ⟨t, ht, other, ho, -, -, -, -, is, his, -⟩ := h
  exact not_prepared hp hq ht ho his

theorem queryMismatched_apostrophe (hp : ¬ p.Plain) (keys data : List (List Char)) :
    p.db.queryMismatched (p.t.getColumnNames.map quoted) keys data p.t.quotedTableName
    p.remote.quotedTableName = none := by
  by_contra hsome
  obtain ⟨rows, h⟩ := Option.ne_none_iff_exists'.1 hsome
  simp only [Database.queryMismatched, Option.bind_eq_bind, Option.bind_eq_some_iff] at h
  obtain ⟨t, ht, other, ho, is, his, -⟩ := h
  exact not_prepared hp (Or.inl rfl) ht ho his

/-- **With an apostrophe in a name** nothing is found. -/
theorem apply_apostrophe (hp : ¬ p.Plain) : SqlCompare.apply p.db p.t p.remote = (true, []) := by
  unfold SqlCompare.apply SqlCompare.rowChanges
  rw [p.validateSchema]
  simp only [Bool.not_true, Bool.false_eq_true, if_false,
    queryUnmatched_apostrophe hp _ (Or.inl rfl),
    queryUnmatched_apostrophe hp _ (Or.inr rfl), queryMismatched_apostrophe hp]
  rfl

end

end SqlPair

end Coopy
