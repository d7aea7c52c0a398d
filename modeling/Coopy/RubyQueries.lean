import Coopy.RubyNames

/-!
# The row changes of two tables

With plain names, and a column outside the key, each difference of the tables is one row change
under the text of its key; what is passed on, apart from rows around the changes, is drained from
these.

    applySingle, when no statement is refused: one row change for each text         (applySingle_eq)
    applySingle, with tidy names: no statement is refused only if the names are plain,
        and there is a column outside the key                                             (prepared)
-/

namespace Coopy

open Lib Relation Sqlite

namespace Ruby

/-! ## Rows around the changes -/

/-- The row changes that are more than context. -/
def acts {V : Type} (rc : RowChange V) : Bool :=
  rc.rowMode == "+++" || rc.rowMode == "---" || rc.rowMode == "->"

namespace Engine

variable {V : Type} (E : Engine V)

theorem acts_skip (b : Bool) (row : Row V) :
    (if b then [E.skipChange row] else []).filter acts = [] := by
  cases b <;> rfl

theorem acts_plain (rows : List (Row V)) :
    (rows.map fun row => RowChange.mk "" (plainCells row)).filter acts = [] := by
  rw [List.filter_eq_nil_iff]
  intro rc hrc
  obtain ⟨row, -, rfl⟩ := List.mem_map.1 hrc
  exact Bool.false_ne_true

section
variable {ks : List Nat} {s : ContextState V} {e : Row V × Nat}

/-- **One row**: the change under its key is passed on, and taken out. -/
theorem contextStep_some {rc : RowChange V}
    (hget : s.hits.get? (E.keyify (project ks e.1)) = some rc) (hrc : acts rc = true) :
    (E.contextStep ks s e).out.filter acts = s.out.filter acts ++ [rc] ∧
      (E.contextStep ks s e).hits = s.hits.filter fun h => h.1 != E.keyify (project ks e.1) := by
  simp only [contextStep, hget, List.filter_append, acts_skip, acts_plain, List.append_nil,
    List.filter_cons, hrc, if_true, List.filter_nil, and_self]

theorem contextStep_none (hget : s.hits.get? (E.keyify (project ks e.1)) = none) :
    (E.contextStep ks s e).out.filter acts = s.out.filter acts ∧
    (E.contextStep ks s e).hits = s.hits := by
  simp only [contextStep, hget]
  split
  · exact ⟨rfl, rfl⟩
  · split
    · have hplain : [RowChange.mk "" (plainCells e.1)].filter acts = [] := acts_plain [e.1]
      simp only [List.filter_append, acts_skip, hplain, List.append_nil, and_self]
    · split <;> exact ⟨rfl, rfl⟩

end

/-- **All rows.** -/
theorem contextRows_spec (ks : List Nat) (rows : List (Row V × Nat)) (s : ContextState V)
    (hacts : ∀ h ∈ s.hits, acts h.2 = true) : (rows.foldl (E.contextStep ks) s).out.filter acts =
      s.out.filter acts ++ (s.hits.drain (rows.map fun e => E.keyify (project ks e.1))).map
      Prod.snd := by
  induction rows generalizing s with
  | nil => simp [AssocMap.drain]
  | cons e rows ih =>
    rw [List.foldl_cons, List.map_cons, AssocMap.drain]
    cases hget : s.hits.get? (E.keyify (project ks e.1)) with
    | some rc =>
      obtain ⟨hout, hhits⟩ := E.contextStep_some hget (hacts _ (AssocMap.mem_of_get? hget))
      have hrest : ∀ h ∈ (E.contextStep ks s e).hits, acts h.2 = true := by
        rw [hhits]
        exact fun h hh => hacts h (List.mem_filter.1 hh).1
      rw [ih _ hrest, hout, hhits, List.map_cons, List.append_assoc, List.singleton_append]
    | none =>
      obtain ⟨hout, hhits⟩ := E.contextStep_none hget
      rw [ih _ (hhits ▸ hacts), hout, hhits]

theorem applyWithContext_acts (rows : List (Row V × Nat)) (ks : List Nat)
    (pendingRcs : List (String × RowChange V)) (hacts : ∀ e ∈ pendingRcs, acts e.2 = true) :
    (E.applyWithContext rows ks pendingRcs).filter acts =
      (AssocMap.drain (pendingRcs.foldl (fun (m : AssocMap String (RowChange V)) e => m.set e.1 e.2)
        [])
        (rows.map fun e => E.keyify (project ks e.1))).map Prod.snd := by
  unfold applyWithContext
  rw [List.filter_append, contextRows_spec, acts_skip]
  · simp
  · suffices hgen : ∀ m : AssocMap String (RowChange V), (∀ h ∈ m, acts h.2 = true) →
        ∀ h ∈ pendingRcs.foldl (fun (m : AssocMap String (RowChange V)) e => m.set e.1 e.2) m,
        acts h.2 = true from
      hgen [] (by simp)
    induction pendingRcs with
    | nil => exact fun m hm => hm
    | cons e es ih =>
      refine fun m hm => ih (fun e he => hacts e (List.mem_cons_of_mem _ he)) _ fun h hh => ?_
      rcases AssocMap.mem_of_mem_set hh with rfl | hh
      · exact hacts e List.mem_cons_self
      · exact hm h hh

end Engine

/-! ## The tables of a comparison -/

namespace Table

variable {V : Type} (t : Table V)

/-- The places of the columns of the key. -/
def fullPlaces : List Nat := t.key.map (t.columns.idxOf ·)

/-- The columns that are taken for the key. -/
def keyColumns : List String := t.primaryKey.getD []

/-- The places of these columns, and of the others. -/
def keyPlaces : List Nat := t.keyColumns.map (t.columns.idxOf ·)

def dataColumns : List String := t.columns.filter (· ∉ t.keyColumns)

def dataPlaces : List Nat := t.dataColumns.map (t.columns.idxOf ·)

variable {t} in
theorem pk_eq_one {key : List String} (h : t.key = key) (hne : key ≠ []) (c : String) :
    (t.pk c == 1) = (c == key.head hne) := by
  obtain ⟨k, ks, rfl⟩ := List.exists_cons_of_ne_nil hne
  unfold pk
  rw [h, Bool.eq_iff_iff, beq_iff_eq, beq_iff_eq, List.head_cons]
  by_cases hc : c = k
  · simp [hc]
  · rw [List.idxOf_cons_ne ks (Ne.symm hc)]
    constructor
    · intro hone
      split at hone <;> omega
    · exact fun he => absurd he hc

end Table

/-- Two tables with the same columns, and a key that is unique in each. -/
structure TablePair (V : Type) where
  t : Table V
  remote : Table V
  apart : ¬ (t.schema = remote.schema ∧ t.name = remote.name)
  sameColumns : remote.columns = t.columns
  sameKey : remote.key = t.key
  distinct : t.columns.Nodup
  keyed : t.key ≠ []
  keyColumns : ∀ k ∈ t.key, k ∈ t.columns
  rect : ∀ r ∈ t.rows ++ remote.rows, r.length = t.columns.length
  unique : (t.rows.map (project t.fullPlaces)).Nodup
  uniqueRemote : (remote.rows.map (project t.fullPlaces)).Nodup

namespace TablePair

variable {V : Type} (E : Engine V) (p : TablePair V)

def db : Database V := [p.t, p.remote]

/-- Each name is read in a statement as the name that it is. -/
structure PlainNames : Prop where
  schema : ∀ t ∈ p.db, Plain E.bare t.schema.toList
  name : ∀ t ∈ p.db, Plain E.argument t.name.toList
  column : ∀ c ∈ p.t.columns, Plain E.bare c.toList

/-- No name is read in a statement as another one. -/
structure TidyNames : Prop where
  schema : ∀ t ∈ p.db, Tidy t.schema.toList
  name : ∀ t ∈ p.db, Tidy t.name.toList
  column : ∀ c ∈ p.t.columns, Tidy c.toList

theorem PlainNames.tidy {E : Engine V} {p : TablePair V} (h : p.PlainNames E) : p.TidyNames :=
  ⟨fun t ht => (h.schema t ht).toTidy, fun t ht => (h.name t ht).toTidy,
    fun c hc => (h.column c hc).toTidy⟩

/-- Tables named by words of the language. -/
theorem PlainNames.of_bare {E : Engine V} {p : TablePair V}
    (ht : ∀ t ∈ p.db, E.bare t.schema.toList = true ∧ E.bare t.name.toList = true)
    (hc : ∀ c ∈ p.t.columns, E.bare c.toList = true) : p.PlainNames E := by
  have hword : ∀ x, E.bare x = true → x ≠ [] ∧ x.all isWordChar = true := by
    intro x hx
    simp only [Engine.bare, Bool.and_eq_true, Bool.not_eq_true', List.isEmpty_eq_false_iff] at hx
    exact hx.1.1
  refine ⟨fun t h => ?_, fun t h => ?_, fun c h => ?_⟩
  · have hbare := (ht t h).1
    exact plain_of_word (hword _ hbare).1 (hword _ hbare).2 hbare
  · have hbare := (ht t h).2
    exact plain_of_word (hword _ hbare).1 (hword _ hbare).2 (Bool.or_eq_true_iff.2 (Or.inl hbare))
  · have hbare := hc c h
    exact plain_of_word (hword _ hbare).1 (hword _ hbare).2 hbare

theorem find_db : ∀ t ∈ p.db, p.db.find t.schema t.name = some t := by
  intro t ht
  rcases List.mem_cons.1 ht with rfl | ht
  · simp [Database.find, db]
  · rw [List.mem_singleton.1 ht]
    simp [Database.find, db, p.apart]

theorem rect_t : ∀ r ∈ p.t.rows, r.length = p.t.columns.length :=
  fun r hr => p.rect r (List.mem_append_left _ hr)

theorem rect_remote : ∀ r ∈ p.remote.rows, r.length = p.t.columns.length :=
  fun r hr => p.rect r (List.mem_append_right _ hr)

/-- The key of a row. -/
def fullKey (r : Row V) : Row V := project p.t.fullPlaces r

/-- What is taken for it. -/
def key (r : Row V) : Row V := project p.t.keyPlaces r

section
variable {p}

theorem t_mem : p.t ∈ p.db := List.mem_cons_self

theorem remote_mem : p.remote ∈ p.db := List.mem_cons_of_mem _ List.mem_cons_self

theorem columnsOf_db {t : Table V} (ht : t ∈ p.db) : t.columns = p.t.columns := by
  rcases List.mem_cons.1 ht with rfl | ht
  · rfl
  · rw [List.mem_singleton.1 ht, p.sameColumns]

theorem keyOf_db {t : Table V} (ht : t ∈ p.db) : t.key = p.t.key := by
  rcases List.mem_cons.1 ht with rfl | ht
  · rfl
  · rw [List.mem_singleton.1 ht, p.sameKey]

/-- **The key that is taken** is the first column of the key. -/
theorem primaryKey_eq {t : Table V} (ht : t ∈ p.db) :
    t.primaryKey = some [p.t.key.head p.keyed] := by
  have hmem : p.t.key.head p.keyed ∈ p.t.columns := p.keyColumns _ (List.head_mem p.keyed)
  have hpk : ∀ c ∈ p.t.columns, (t.pk c == 1) = (c == p.t.key.head p.keyed) :=
    fun c _ => t.pk_eq_one (keyOf_db ht) p.keyed c
  have hfilter : (p.t.columns.filter fun c => t.pk c == 1) = [p.t.key.head p.keyed] := by
    rw [List.filter_congr hpk, List.filter_beq, List.count_eq_one_of_mem p.distinct hmem]
    rfl
  rw [Table.primaryKey, columnsOf_db ht, hfilter]
  rfl

theorem keyColumns_eq {t : Table V} (ht : t ∈ p.db) : t.keyColumns = [p.t.key.head p.keyed] := by
  rw [Table.keyColumns, primaryKey_eq ht]
  rfl

theorem primaryKey_some {t : Table V} (ht : t ∈ p.db) : t.primaryKey = some p.t.keyColumns := by
  rw [primaryKey_eq ht, keyColumns_eq t_mem]

theorem keyColumns_ne_nil : p.t.keyColumns ≠ [] := by
  rw [keyColumns_eq t_mem]
  exact List.cons_ne_nil _ _

theorem keyColumns_mem : ∀ k ∈ p.t.keyColumns, k ∈ p.t.columns := by
  rw [keyColumns_eq t_mem]
  exact fun k hk => List.mem_singleton.1 hk ▸ p.keyColumns _ (List.head_mem p.keyed)

/-- What is taken for the key of a row is the first value of its key. -/
theorem key_eq_take (r : Row V) : p.key r = (p.fullKey r).take 1 := by
  have hplaces : p.t.keyPlaces = p.t.fullPlaces.take 1 := by
    rw [Table.keyPlaces, Table.fullPlaces, keyColumns_eq t_mem, ← List.map_take, List.take_one,
      List.head?_eq_some_head p.keyed]
    rfl
  rw [key, fullKey, hplaces, project, project, List.map_take]

variable (p) in
/-- A key of one column is taken as it is. -/
theorem key_eq_fullKey (h : p.t.key.length = 1) : p.key = p.fullKey := by
  funext r
  rw [key_eq_take, List.take_of_length_le]
  simp [fullKey, project, Table.fullPlaces, h]

end

/-- Every column is in the key or not. -/
theorem cover : ∀ i < p.t.columns.length, i ∈ p.t.keyPlaces ∨ i ∈ p.t.dataPlaces := by
  intro i hi
  have hidx := p.distinct.idxOf_getElem i hi
  by_cases hk : p.t.columns[i] ∈ p.t.keyColumns
  · exact Or.inl (List.mem_map.2 ⟨_, hk, hidx⟩)
  · exact Or.inr
      (List.mem_map.2 ⟨_, List.mem_filter.2 ⟨List.getElem_mem hi, by simpa using hk⟩, hidx⟩)

/-! ## What the queries find -/

section
variable {E p}

theorem mapM_columns (h : p.PlainNames E) {t : Table V} (ht : t ∈ p.db) {ns : List String}
    (hns : ∀ n ∈ ns, n ∈ p.t.columns) :
    (ns.map quoteColumn).mapM (E.column? t) = some (ns.map (p.t.columns.idxOf ·)) := by
  rw [List.mapM_map]
  refine mapM_eq_some_map fun n hn => ?_
  rw [Function.comp,
    E.column?_quoteColumn (h.column n (hns n hn)) (by rw [columnsOf_db ht]; exact hns n hn),
      columnsOf_db ht]

theorem table?_plain (h : p.PlainNames E) :
    ∀ t ∈ p.db, E.table? p.db (quoteTable t.fullName) = some t := by
  intro t ht
  rw [E.table?_quoteTable (h.tidy.schema t ht) (h.tidy.name t ht) ⟨(h.schema t ht).noDot,
    (h.name t ht).noDot⟩]
  exact p.find_db t ht

theorem pragma_plain (h : p.PlainNames E) : ∀ t ∈ p.db, E.pragma p.db t.fullName = some t :=
    fun t ht =>
  (E.pragma_fullName (h.tidy.schema t ht) (h.tidy.name t ht) ⟨(h.schema t ht).noDot,
    (h.name t ht).noDot⟩).2
      ⟨⟨h.schema t ht, h.name t ht⟩, p.find_db t ht⟩

theorem dataColumns_mem : ∀ n ∈ p.t.dataColumns, n ∈ p.t.columns :=
  fun _ hn => (List.mem_filter.1 hn).1

theorem allPlaces : p.t.columns.map (p.t.columns.idxOf ·) = List.range p.t.columns.length :=
  map_idxOf_self p.distinct

variable [DecidableEq V]

theorem queryUnmatched_plain (h : p.PlainNames E) {t other : Table V} (ht : t ∈ p.db)
    (ho : other ∈ p.db) (hrect : ∀ r ∈ t.rows, r.length = p.t.columns.length) :
    E.queryUnmatched p.db (p.t.columns.map quoteColumn) (p.t.keyColumns.map quoteColumn)
    (quoteTable t.fullName)
      (quoteTable other.fullName) = some (unmatched p.key t.rows other.rows) := by
  have hne : (p.t.keyColumns.map quoteColumn).isEmpty = false := by simpa using keyColumns_ne_nil
  unfold Engine.queryUnmatched
  simp only [table?_plain h t ht, table?_plain h other ho, mapM_columns h ht keyColumns_mem,
    mapM_columns h ho keyColumns_mem,
    mapM_columns h ht fun n hn => hn, allPlaces, Option.bind_eq_bind, Option.bind_some, hne,
      Bool.false_eq_true, if_false]
  exact congrArg some (selectUnmatched_eq _ hrect _)

theorem queryMismatched_plain (h : p.PlainNames E) (hd : p.t.dataColumns ≠ []) :
    E.queryMismatched p.db (p.t.columns.map quoteColumn) (p.t.keyColumns.map quoteColumn)
    (p.t.dataColumns.map quoteColumn)
      (quoteTable p.t.fullName) (quoteTable p.remote.fullName) =
        some ((mismatched p.key p.t.rows p.remote.rows).map fun q => interleave q.1 q.2) := by
  have hne : (p.t.keyColumns.map quoteColumn).isEmpty = false := by simpa using keyColumns_ne_nil
  have hne' : (p.t.dataColumns.map quoteColumn).isEmpty = false := by simpa using hd
  unfold Engine.queryMismatched
  simp only [table?_plain h _ t_mem, table?_plain h _ remote_mem,
    mapM_columns h t_mem keyColumns_mem,
    mapM_columns h remote_mem keyColumns_mem, mapM_columns h t_mem dataColumns_mem,
    mapM_columns h remote_mem dataColumns_mem,
    mapM_columns h t_mem fun n hn => hn, mapM_columns h remote_mem fun n hn => hn, allPlaces,
    Option.bind_eq_bind, Option.bind_some, hne, hne', Bool.or_self, Bool.false_eq_true, if_false]
  exact congrArg some (selectMismatched_eq p.cover p.rect_t p.rect_remote)

/-- The rows of both tables, in the order of the fourth query. -/
def contextRows (E : Engine V) (p : TablePair V) : List (Row V × Nat) :=
  E.orderBy ((p.t.rows.map fun r => (r, 0)) ++ p.remote.rows.map fun r => (r, 1)).dedup

theorem queryContext_plain (h : p.PlainNames E) :
    E.queryContext p.db (p.t.columns.map quoteColumn) (quoteTable p.t.fullName)
    (quoteTable p.remote.fullName) =
      some (p.contextRows E) := by
  have ht : (p.t.rows.map fun r => (project (List.range p.t.columns.length) r, 0)) =
    p.t.rows.map fun r => (r, 0) :=
    List.map_congr_left fun r hr => by rw [project_range (p.rect_t r hr)]
  have ho : (p.remote.rows.map fun r => (project (List.range p.t.columns.length) r, 1)) =
    p.remote.rows.map fun r => (r, 1) :=
    List.map_congr_left fun r hr => by rw [project_range (p.rect_remote r hr)]
  unfold Engine.queryContext
  simp only [table?_plain h _ t_mem, table?_plain h _ remote_mem,
    mapM_columns h t_mem fun n hn => hn,
    mapM_columns h remote_mem fun n hn => hn, allPlaces, Option.bind_eq_bind,
      Option.bind_some, ht, ho]
  rfl

theorem mem_contextRows {r : Row V} : (∃ tag, (r, tag) ∈ p.contextRows E) ↔
    r ∈ p.t.rows ++ p.remote.rows := by
  simp only [contextRows, (E.orderBy_perm _).mem_iff, List.mem_dedup, List.mem_append,
    List.mem_map, Prod.mk.injEq]
  constructor
  · rintro ⟨tag, ⟨r', hr, rfl, -⟩ | ⟨r', hr, rfl, -⟩⟩
    · exact Or.inl hr
    · exact Or.inr hr
  · rintro (hr | hr)
    · exact ⟨0, Or.inl ⟨r, hr, rfl, rfl⟩⟩
    · exact ⟨1, Or.inr ⟨r, hr, rfl, rfl⟩⟩

end

/-! ## The row changes -/

section
variable [DecidableEq V]

def differences : List (Change (Row V)) := changes p.key p.t.rows p.remote.rows

/-- The text under which a row change is kept. -/
def keyText (c : Change (Row V)) : String := E.keyify (p.key c.row)

def toChange : Change (Row V) → RowChange V
  | .insert b => ⟨"+++", Engine.plainCells b⟩
  | .update a b => ⟨"->", Engine.updateCells (interleave a b)⟩
  | .delete a => ⟨"---", Engine.plainCells a⟩

variable {p} in
theorem acts_toChange (c : Change (Row V)) : acts (toChange c) = true := by cases c <;> rfl

variable {E p}

/-- **When no statement is refused**: one row change for each difference, kept under its text. -/
theorem applySingle_eq (h : p.PlainNames E) (hd : p.t.dataColumns ≠ []) :
    E.applySingle p.db p.t.fullName p.remote.fullName =
      some (⟨"@@", p.t.columns.map fun v =>
        { txt := some (E.ofText v), value := some (E.ofText v) }⟩ ::
        E.applyWithContext (p.contextRows E) p.t.keyPlaces
          (p.differences.map fun c => (p.keyText E c, toChange c))) := by
  have hdata : p.t.columns.filter (· ∉ p.t.keyColumns) = p.t.dataColumns := rfl
  have hkeys : p.t.keyColumns.map (p.t.columns.idxOf ·) = p.t.keyPlaces := rfl
  have hdouble : ∀ q ∈ mismatched p.key p.t.rows p.remote.rows,
      project (p.t.keyPlaces.map (2 * ·)) (interleave q.1 q.2) = p.key q.1 := by
    intro q hq
    obtain ⟨ha, hb, -⟩ := mem_mismatched.1 hq
    have hlen : q.1.length = q.2.length := (p.rect_t _ ha).trans (p.rect_remote _ hb).symm
    unfold project key project
    rw [List.map_map]
    exact List.map_congr_left fun i _ => (getD_interleave hlen i).1
  unfold Engine.applySingle
  simp only [pragma_plain h _ t_mem, pragma_plain h _ remote_mem, p.sameColumns,
    primaryKey_some t_mem, primaryKey_some remote_mem, ne_eq, not_true_eq_false,
    decide_false, Bool.or_self, Bool.false_eq_true, if_false, Option.bind_eq_bind, Option.bind_some,
    queryUnmatched_plain h remote_mem t_mem p.rect_remote,
    queryUnmatched_plain h t_mem remote_mem p.rect_t, hdata, hkeys,
    queryMismatched_plain h hd, queryContext_plain h, Option.some.injEq, List.cons.injEq, true_and]
  refine congrArg (E.applyWithContext _ _) ?_
  simp only [differences, changes, List.map_append, List.map_map]
  refine congrArg₂ _ (congrArg₂ _ rfl (List.map_congr_left fun q hq => ?_)) rfl
  simp only [Function.comp, hdouble q hq]
  rfl

theorem data_of_queryMismatched {db : Database V} {cols keys data : List (List Char)}
    {t other : List Char} (h : E.queryMismatched db cols keys data t other ≠ none) :
    data ≠ [] ∧ E.table? db t ≠ none ∧ E.table? db other ≠ none ∧
    ∃ u : Table V, cols.mapM (E.column? u) ≠ none := by
  obtain ⟨rows, h⟩ := Option.ne_none_iff_exists'.1 h
  simp only [Engine.queryMismatched, Option.bind_eq_bind, Option.bind_eq_some_iff] at h
  obtain ⟨u, hu, u', hu', is, his, _, -, _, -, _, -, _, -, _, -, hrows⟩ := h
  refine ⟨?_, by rw [hu]; nofun, by rw [hu']; nofun, u, by rw [his]; nofun⟩
  rintro rfl
  simp at hrows

/-- **Names that no statement is refused for.** -/
theorem prepared (hT : p.TidyNames) (h : E.applySingle p.db p.t.fullName p.remote.fullName ≠ none) :
    p.PlainNames E ∧ p.t.dataColumns ≠ [] := by
  obtain ⟨rcs, h⟩ := Option.ne_none_iff_exists'.1 h
  simp only [Engine.applySingle, Option.bind_eq_bind, Option.bind_eq_some_iff] at h
  obtain ⟨info1, hinfo1, info2, hinfo2, h⟩ := h
  split at h
  · cases h
  · simp only [Option.bind_eq_some_iff] at h
    obtain ⟨keyCols, hkey, -, -, updates, hupdates, -⟩ := h
    obtain ⟨hdata, ht1, ht2, u, hcols⟩ := data_of_queryMismatched (by rw [hupdates]; nofun)
    have hs := hT.schema _ t_mem
    have hn := hT.name _ t_mem
    have hs' := hT.schema _ remote_mem
    have hn' := hT.name _ remote_mem
    obtain ⟨hplain, hfind⟩ := (E.pragma_fullName hs hn (E.dots_of_table? hs hn ht1)).1 hinfo1
    obtain ⟨hplain', -⟩ := (E.pragma_fullName hs' hn' (E.dots_of_table? hs' hn' ht2)).1 hinfo2
    have hinfo : info1 = p.t := (Option.some.inj ((p.find_db _ t_mem).symm.trans hfind)).symm
    subst hinfo
    have hcol : ∀ c ∈ p.t.columns, E.column? u (quoteColumn c) ≠ none := fun c hc hnone =>
      hcols (mapM_eq_none ⟨_, List.mem_map_of_mem hc, hnone⟩)
    have hkeys : keyCols = p.t.keyColumns :=
      Option.some.inj (hkey.symm.trans (primaryKey_some t_mem))
    have hdata' : p.t.dataColumns ≠ [] := by
      rintro he
      rw [hkeys] at hdata
      exact hdata (congrArg (List.map quoteColumn) he)
    refine ⟨⟨?_, ?_, fun c hc => E.plain_of_column? (hT.column c hc) (hcol c hc)⟩, hdata'⟩
    · intro t ht
      rcases List.mem_cons.1 ht with rfl | ht
      · exact hplain.1
      · exact List.mem_singleton.1 ht ▸ hplain'.1
    · intro t ht
      rcases List.mem_cons.1 ht with rfl | ht
      · exact hplain.2
      · exact List.mem_singleton.1 ht ▸ hplain'.2

end

end TablePair

end Ruby

end Coopy
