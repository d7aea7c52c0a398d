import Coopy.RubyQueries

/-!
# What `DiffApplySql` makes of the first table

A row change is one statement on the first table.  A new value that is NULL is taken for none: the
column is not assigned, and an update without an assignment is refused.

    a row change = the difference without its NULLs, or refused         (applyRow_toChange)
    the run = the differences whose texts were not written over         (run_eq)
    the first table becomes the second one ↔ `Holds`                    (converges_iff)

Of a key of several columns only the first is taken for the key; `Holds` wants it to be a key by
itself.
-/

namespace Coopy

open Lib Relation Sqlite

namespace Ruby

section
variable {V : Type}

/-! ## Rows and their cells -/

/-- The new row with the old values where it has none. -/
def kept (a b : Row V) : Row V := List.zipWith (fun v w => w.or v) a b

theorem length_kept {a b : Row V} (h : a.length = b.length) : (kept a b).length = a.length := by
  simp [kept, h]

theorem value_kept {a b : Row V} (h : a.length = b.length) (i : Nat) :
    value (kept a b) i = (value b i).or (value a i) := by
  by_cases hi : i < a.length
  · have hi' : i < b.length := h ▸ hi
    rw [value, value, value, List.getD_eq_getElem _ _ hi, List.getD_eq_getElem _ _ hi',
      List.getD_eq_getElem _ _ (by rwa [length_kept h])]
    exact List.getElem_zipWith
  · have hnone : ∀ r : Row V, r.length = a.length → value r i = none := fun r hr =>
      List.getD_eq_default _ _ (by rw [hr]; exact Nat.le_of_not_lt hi)
    rw [hnone a rfl, hnone b h.symm, hnone _ (length_kept h)]
    rfl

/-- Rows that agree in each place are one row. -/
theorem row_ext {n : Nat} {r s : Row V} (hr : r.length = n) (hs : s.length = n)
    (h : ∀ i < n, value r i = value s i) : r = s :=
  eq_of_project (l := List.range n) (fun _ hi => List.mem_range.2 hi) hr hs
    (List.map_inj_left.2 fun i hi => h i (List.mem_range.1 hi))

theorem eachPair_interleave (a b : Row V) : Engine.eachPair (interleave a b) = a.zip b := by
  induction a generalizing b with
  | nil => rfl
  | cons v a ih =>
    cases b with
    | nil => rfl
    | cons w b => exact congrArg ((v, w) :: ·) (ih b)

theorem valueAt_plainCells (mode : String) (row : Row V) (i : Nat) :
    RowChange.valueAt ⟨mode, Engine.plainCells row⟩ i = value row i := by
  rw [RowChange.valueAt, value, List.getD_eq_getElem?_getD]
  simp only [Engine.plainCells, List.getElem?_map]
  cases row[i]? <;> rfl

/-- The cells of an update: the old value, and the new one where it is another. -/
theorem valueAt_updateCells [DecidableEq V] {a b : Row V} (h : a.length = b.length) (i : Nat) :
    RowChange.valueAt ⟨"->", Engine.updateCells (interleave a b)⟩ i = value a i ∧
      RowChange.newValueAt ⟨"->", Engine.updateCells (interleave a b)⟩ i =
        if value a i = value b i then none else value b i := by
  simp only [RowChange.valueAt, RowChange.newValueAt, Engine.updateCells, eachPair_interleave,
    List.getElem?_map]
  by_cases hi : i < a.length
  · have hi' : i < b.length := h ▸ hi
    rw [value, value, List.getD_eq_getElem _ _ hi, List.getD_eq_getElem _ _ hi',
      List.getElem?_eq_getElem (by simp [hi, hi']), List.getElem_zip]
    by_cases he : a[i] = b[i]
    · simp [he]
    · simp [he]
  · rw [value, value, List.getD_eq_default _ _ (by omega), List.getD_eq_default _ _ (by omega),
      List.getElem?_eq_none (by simp; omega)]
    simp

theorem value_set (row : Row V) (j : Nat) (v : Option V) {i : Nat} (hi : i < row.length) :
    value (row.set j v) i = if i = j then v else value row i := by
  rw [value, value, List.getD_eq_getElem _ _ hi, List.getD_eq_getElem _ _ (by simpa using hi),
    List.getElem_set]
  simp only [eq_comm]

theorem length_writeRow (es : List (Nat × Option V)) (row : Row V) :
    (writeRow es row).length = row.length := by
  induction es generalizing row with
  | nil => rfl
  | cons e es ih => rw [writeRow, List.foldl_cons, ← writeRow, ih, List.length_set]

/-- Values written by place. -/
theorem value_writeRow {g : Nat → Option V} (es : List (Nat × Option V))
    (hg : ∀ e ∈ es, e.2 = g e.1) (row : Row V) {i : Nat}
    (hi : i < row.length) : value (writeRow es row) i = if i ∈ es.map Prod.fst then g i
    else value row i := by
  induction es generalizing row with
  | nil => rfl
  | cons e es ih =>
    have hrest :=
      ih (fun e he => hg e (List.mem_cons_of_mem _ he)) (row.set e.1 e.2) (by simpa using hi)
    rw [writeRow, List.foldl_cons, ← writeRow, hrest, value_set _ _ _ hi, hg e List.mem_cons_self]
    by_cases hm : i ∈ es.map Prod.fst
    · rw [if_pos hm, if_pos (by exact List.mem_cons_of_mem _ hm)]
    · rw [if_neg hm]
      by_cases he : i = e.1
      · rw [if_pos he, if_pos (by rw [he]; exact List.mem_cons_self), he]
      · rw [if_neg he, if_neg]
        rw [List.map_cons, List.mem_cons, not_or]
        exact ⟨he, hm⟩

end

namespace TablePair

variable {V : Type} (E : Engine V) (p : TablePair V)

/-! ## One statement -/

/-- The tables with other rows in the first of them. -/
def withRows (rows : List (Row V)) : Database V := [{ p.t with rows := rows }, p.remote]

/-- A difference as it is carried out: a value that becomes NULL is left as it is. -/
def carried : Change (Row V) → Change (Row V)
  | .update a b => .update a (kept a b)
  | c => c

/-- Something is assigned. -/
def touches [DecidableEq V] : Change (Row V) → Bool
  | .update a b =>
    (List.range p.t.columns.length).any fun i => decide (value a i ≠ value b i) &&
      (value b i).isSome
  | _ => true

section
variable {E p}

theorem table?_withRows (h : p.PlainNames E) (rows : List (Row V)) :
    E.table? (p.withRows rows) (quoteTable p.t.fullName) = some { p.t with rows := rows } := by
  rw [E.table?_quoteTable (h.tidy.schema _ t_mem) (h.tidy.name _ t_mem) ⟨(h.schema _ t_mem).noDot,
    (h.name _ t_mem).noDot⟩]
  simp [Database.find, withRows]

theorem modify_withRows (rows : List (Row V)) (f : List (Row V) → List (Row V)) :
    (p.withRows rows).modify { p.t with rows := rows } f = p.withRows (f rows) := by
  have hremote : (p.remote.schema == p.t.schema && p.remote.name == p.t.name) = false := by
    rw [Bool.and_eq_false_iff, beq_eq_false_iff_ne, beq_eq_false_iff_ne]
    by_contra hboth
    rw [not_or, not_not, not_not] at hboth
    exact p.apart ⟨hboth.1.symm, hboth.2.symm⟩
  rw [Database.modify, withRows, List.map_cons, List.map_cons, List.map_nil, hremote,
    beq_self_eq_true, beq_self_eq_true]
  rfl

/-- Conditions and assignments on some of the columns. -/
theorem resolve_columns (h : p.PlainNames E) (rows : List (Row V)) (f : Nat → Option V)
    {l : List (String × Nat)} (hl : ∀ c ∈ l, c ∈ p.t.columns.zipIdx) :
    E.resolve { p.t with rows := rows } (l.map fun c => (quoteColumn c.1, f c.2)) =
    some (l.map fun c => (c.2, f c.2)) := by
  unfold Engine.resolve
  rw [List.mapM_map]
  refine mapM_eq_some_map fun c hc => ?_
  obtain ⟨hi, he⟩ := List.getElem?_eq_some_iff.1 (List.mk_mem_zipIdx_iff_getElem?.1 (hl c hc))
  have hm : c.1 ∈ p.t.columns := he ▸ List.getElem_mem hi
  have hcol : E.column? { p.t with rows := rows } (quoteColumn c.1) = some c.2 := by
    refine (E.column?_quoteColumn (t := { p.t with rows := rows }) (h.column _ hm) hm).trans
      (congrArg some ?_)
    rw [← he]
    exact p.distinct.idxOf_getElem _ hi
  simp [Function.comp, hcol]

theorem columns_ne_nil : p.t.columns.zipIdx ≠ [] := by
  obtain ⟨k, hk⟩ := List.exists_mem_of_ne_nil _ p.keyed
  intro he
  have := List.ne_nil_of_mem (p.keyColumns k hk)
  exact this (by simpa using he)

variable [DecidableEq V]

/-- A condition on every column. -/
theorem satisfies_columns {f : Nat → Option V} {a row : Row V} (ha : a.length = p.t.columns.length)
    (hrow : row.length = p.t.columns.length) (hf : ∀ i, f i = value a i) :
    Engine.satisfies (p.t.columns.zipIdx.map fun c => (c.2, f c.2)) row = true ↔ row = a := by
  unfold Engine.satisfies
  rw [List.all_map, List.all_eq_true]
  simp only [Function.comp, decide_eq_true_eq, hf]
  constructor
  · intro hall
    refine row_ext hrow ha fun i hi => ?_
    exact hall (p.t.columns[i], i) (List.mk_mem_zipIdx_iff_getElem?.2 (List.getElem?_eq_getElem hi))
  · rintro rfl c -
    rfl

/-- The rows of a difference are rows of the tables. -/
theorem length_of_mem {c : Change (Row V)} (hc : c ∈ p.differences) :
    ∀ r, c.old = some r ∨ c.new = some r → r.length = p.t.columns.length := by
  rcases mem_changes.1 hc with ⟨b, rfl, hb, -⟩ | ⟨a, b, rfl, ha, hb, -⟩ | ⟨a, rfl, ha, -⟩ <;>
    rintro r (h | h) <;> cases h
  · exact p.rect_remote b hb
  · exact p.rect_t a ha
  · exact p.rect_remote b hb
  · exact p.rect_t a ha

/-- What an update writes. -/
theorem writeRow_kept {a b : Row V} (ha : a.length = p.t.columns.length)
    (hb : b.length = p.t.columns.length) {f : Nat → Option V}
    (hf : ∀ i, f i = if value a i = value b i then none else value b i) :
    writeRow ((p.t.columns.zipIdx.filter fun c => (f c.2).isSome).map fun c => (c.2, f c.2)) a =
    kept a b := by
  have hlen : a.length = b.length := ha.trans hb.symm
  refine row_ext ((length_writeRow _ a).trans ha) ((length_kept hlen).trans ha) fun i hi => ?_
  have hvals :
    ∀ e ∈ (p.t.columns.zipIdx.filter fun c => (f c.2).isSome).map fun c => (c.2, f c.2), e.2 =
    f e.1 := by
    intro e he
    obtain ⟨c, -, rfl⟩ := List.mem_map.1 he
    rfl
  rw [value_writeRow _ hvals a (ha ▸ hi), value_kept hlen]
  have hmem :
    i ∈ ((p.t.columns.zipIdx.filter fun c => (f c.2).isSome).map fun c => (c.2, f c.2)).map
    Prod.fst ↔
      (f i).isSome = true := by
    rw [List.map_map, List.mem_map]
    constructor
    · rintro ⟨c, hc, rfl⟩
      exact (List.mem_filter.1 hc).2
    · intro hsome
      exact ⟨(p.t.columns[i], i),
        List.mem_filter.2 ⟨List.mk_mem_zipIdx_iff_getElem?.2 (List.getElem?_eq_getElem hi), hsome⟩,
          rfl⟩
  by_cases hsome : (f i).isSome = true
  · rw [if_pos (hmem.2 hsome)]
    rw [hf] at hsome ⊢
    split at hsome
    · cases hsome
    · next hne =>
      rw [if_neg hne]
      obtain ⟨w, hw⟩ := Option.isSome_iff_exists.1 hsome
      rw [hw]
      rfl
  · rw [if_neg (mt hmem.1 hsome)]
    rw [Bool.not_eq_true, Option.isSome_eq_false_iff, Option.isNone_iff_eq_none, hf] at hsome
    split at hsome
    · next he => rw [← he, Option.or_self]
    · rw [hsome, Option.none_or]

theorem touches_iff {a b : Row V} {f : Nat → Option V}
    (hf : ∀ i, f i = if value a i = value b i then none else value b i) :
    p.t.columns.zipIdx.filter (fun c => (f c.2).isSome) ≠ [] ↔ p.touches (.update a b) = true := by
  rw [Ne, List.filter_eq_nil_iff]
  simp only [hf, not_forall, not_not, touches, List.any_eq_true, List.mem_range, Bool.and_eq_true,
    decide_eq_true_eq]
  constructor
  · rintro ⟨c, hc, hsome⟩
    obtain ⟨hi, -⟩ := List.getElem?_eq_some_iff.1 (List.mk_mem_zipIdx_iff_getElem?.1 hc)
    split at hsome
    · cases hsome
    · next hne => exact ⟨c.2, hi, hne, hsome⟩
  · rintro ⟨i, hi, hne, hw⟩
    refine ⟨(p.t.columns[i], i), List.mk_mem_zipIdx_iff_getElem?.2 (List.getElem?_eq_getElem hi),
      ?_⟩
    rw [if_neg hne]
    exact hw

/-- **One row change** is the difference without its NULLs, or refused. -/
theorem applyRow_toChange (h : p.PlainNames E) {c : Change (Row V)} (hc : c ∈ p.differences)
    {rows : List (Row V)} (hrows : ∀ r ∈ rows, r.length = p.t.columns.length)
    (hadmits : p.t.admits ((carried c).apply rows) = true) :
    E.applyRow p.t.fullName p.t.columns (p.withRows rows) (toChange c) =
      if p.touches c then some (p.withRows ((carried c).apply rows)) else none := by
  have hlen := length_of_mem hc
  have hall : ∀ c ∈ p.t.columns.zipIdx, c ∈ p.t.columns.zipIdx := fun _ hc => hc
  cases c with
  | insert b =>
    have hb := hlen b (Or.inr rfl)
    have hvals :
      (DiffApplySql.assigned p.t.columns (RowChange.valueAt ⟨"+++", Engine.plainCells b⟩)).map
        (·.2) = b := by
      refine row_ext (by simp [DiffApplySql.assigned]) hb fun i hi => ?_
      rw [value, List.getD_eq_getElem _ _ (by simpa [DiffApplySql.assigned] using hi)]
      simp [DiffApplySql.assigned, valueAt_plainCells]
    rw [if_pos (show p.touches (.insert b) = true from rfl)]
    show E.execute _ (.insert (quoteTable p.t.fullName)
      ((DiffApplySql.assigned p.t.columns (RowChange.valueAt ⟨"+++", Engine.plainCells b⟩)).map
        (·.2))) = _
    have hadmits' : ({ p.t with rows := rows } : Table V).admits (rows ++ [b]) = true := hadmits
    simp only [hvals, Engine.execute, table?_withRows h, Option.bind_eq_bind, Option.bind_some, hb,
      hadmits', and_self, if_true]
    exact congrArg some (modify_withRows rows _)
  | update a b =>
    have ha := hlen a (Or.inl rfl)
    have hb := hlen b (Or.inr rfl)
    have hcells := fun i => valueAt_updateCells (ha.trans hb.symm) i
    have hsets : (DiffApplySql.assigned p.t.columns
        (RowChange.newValueAt ⟨"->", Engine.updateCells (interleave a b)⟩)).filter
          (fun c => c.2.isSome) =
        (p.t.columns.zipIdx.filter fun c =>
          (RowChange.newValueAt ⟨"->", Engine.updateCells (interleave a b)⟩ c.2).isSome).map
          fun c =>
            (quoteColumn c.1,
              RowChange.newValueAt ⟨"->", Engine.updateCells (interleave a b)⟩ c.2) := by
      rw [DiffApplySql.assigned, List.filter_map]
      rfl
    show E.execute _ (.update (quoteTable p.t.fullName) ((DiffApplySql.assigned p.t.columns
      (RowChange.newValueAt ⟨"->", Engine.updateCells (interleave a b)⟩)).filter fun c =>
        c.2.isSome)
      (DiffApplySql.assigned p.t.columns
        (RowChange.valueAt ⟨"->", Engine.updateCells (interleave a b)⟩))) = _
    have hconds : (DiffApplySql.assigned p.t.columns
        (RowChange.valueAt ⟨"->", Engine.updateCells (interleave a b)⟩)).isEmpty = false := by
      simpa [DiffApplySql.assigned] using columns_ne_nil (p := p)
    rw [hsets]
    simp only [Engine.execute, table?_withRows h, Option.bind_eq_bind, Option.bind_some,
      resolve_columns h rows _ fun c hc => (List.mem_filter.1 hc).1]
    rw [DiffApplySql.assigned, resolve_columns h rows _ hall, Option.bind_some,
      ← DiffApplySql.assigned, hconds, Bool.or_false]
    have htouch := touches_iff (p := p) (a := a) (b := b) fun i => (hcells i).2
    by_cases ht : p.touches (.update a b) = true
    · have hne := htouch.2 ht
      have hwritten : (rows.map fun r =>
          if Engine.satisfies (p.t.columns.zipIdx.map fun c =>
              (c.2, RowChange.valueAt ⟨"->", Engine.updateCells (interleave a b)⟩ c.2)) r then
            writeRow ((p.t.columns.zipIdx.filter fun c =>
              (RowChange.newValueAt ⟨"->", Engine.updateCells (interleave a b)⟩ c.2).isSome).map
                fun c =>
                (c.2, RowChange.newValueAt ⟨"->", Engine.updateCells (interleave a b)⟩ c.2)) r
          else r) = (carried (.update a b)).apply rows := by
        refine List.map_congr_left fun r hr => ?_
        have hsat := satisfies_columns ha (hrows r hr) fun i => (hcells i).1
        by_cases he : r = a
        · rw [if_pos (hsat.2 he), if_pos he, he]
          exact writeRow_kept ha hb fun i => (hcells i).2
        · rw [if_neg (mt hsat.1 he), if_neg he]
      have hadmits' :
        ({ p.t with rows := rows } : Table V).admits ((carried (.update a b)).apply rows) = true :=
        hadmits
      rw [if_pos ht, hwritten, hadmits', if_neg (by simpa using hne)]
      exact congrArg some ((modify_withRows rows _).trans (congrArg p.withRows hwritten))
    · have hnil : p.t.columns.zipIdx.filter
          (fun c => (RowChange.newValueAt ⟨"->", Engine.updateCells (interleave a b)⟩ c.2).isSome) =
            [] := by
        by_contra hne
        exact ht (htouch.1 hne)
      rw [if_neg ht, hnil]
      rfl
  | delete a =>
    have ha := hlen a (Or.inl rfl)
    have hconds :
      (DiffApplySql.assigned p.t.columns (RowChange.valueAt ⟨"---", Engine.plainCells a⟩)).isEmpty =
      false := by
      simpa [DiffApplySql.assigned] using columns_ne_nil (p := p)
    rw [if_pos (show p.touches (.delete a) = true from rfl)]
    show E.execute _ (.delete (quoteTable p.t.fullName)
      (DiffApplySql.assigned p.t.columns (RowChange.valueAt ⟨"---", Engine.plainCells a⟩))) = _
    simp only [Engine.execute, table?_withRows h, Option.bind_eq_bind, Option.bind_some]
    rw [hconds, DiffApplySql.assigned, resolve_columns h rows _ hall, Option.bind_some,
      if_neg Bool.false_ne_true]
    refine congrArg some
      ((modify_withRows rows _).trans (congrArg p.withRows (List.filter_congr fun r hr => ?_)))
    have hsat := satisfies_columns ha (hrows r hr) fun i => valueAt_plainCells "---" a i
    by_cases he : r = a
    · rw [hsat.2 he]
      simp [he]
    · rw [Bool.eq_false_iff.2 (mt hsat.1 he)]
      simp [he]

end

/-! ## The run -/

/-- The rows of a table. -/
def rowsOf (db : Database V) (t : Table V) : List (Row V) :=
  ((db.find t.schema t.name).map (·.rows)).getD []

variable [DecidableEq V]

/-- No statement is refused, and the rows of the first table become those of the second. -/
def Converges : Prop :=
  ∃ db, E.run p.db p.t.fullName p.remote.fullName = some db ∧ ∀ r, r ∈ rowsOf db p.t ↔
  r ∈ p.remote.rows

/-- A row that one of the tables has. -/
def OnlyInOne (r : Row V) : Prop := (r ∈ p.t.rows ∧ r ∉ p.remote.rows) ∨
    (r ∈ p.remote.rows ∧ r ∉ p.t.rows)

/-- The first column of the key is a key. -/
structure FirstKeyed : Prop where
  unique : (p.t.rows.map p.key).Nodup
  uniqueRemote : (p.remote.rows.map p.key).Nodup

/-- When the run works; the key of a row is what is taken for it. -/
structure Holds : Prop where
  names : p.PlainNames E
  first : p.FirstKeyed
  data : ∃ c ∈ p.t.columns, c ∉ p.t.keyColumns
  -- no value becomes NULL
  values : ∀ a ∈ p.t.rows, ∀ b ∈ p.remote.rows, p.key a = p.key b → ∀ i, value a i ≠ none →
    value b i ≠ none
  -- keys under which the tables differ have different texts
  texts : ∀ r s, p.OnlyInOne r → p.OnlyInOne s → E.keyify (p.key r) = E.keyify (p.key s) →
    p.key r = p.key s

end TablePair

/-- Tables whose first key column is a key. -/
structure KeyedPair (V : Type) extends TablePair V where
  first : toTablePair.FirstKeyed

namespace TablePair

section
variable {V : Type} [DecidableEq V] {E : Engine V} {p : KeyedPair V}

omit [DecidableEq V] in
theorem keyed_t : Keyed p.key p.t.rows :=
  fun _ ha _ hb h => List.inj_on_of_nodup_map p.first.unique ha hb h

omit [DecidableEq V] in
theorem keyed_remote : Keyed p.key p.remote.rows := fun _ ha _ hb h =>
  List.inj_on_of_nodup_map p.first.uniqueRemote ha hb h

/-- Rows that the first key column tells apart are admitted. -/
theorem admits_of_key {rows : List (Row V)} (h : (rows.map p.key).Nodup) :
    p.t.admits rows = true := by
  have hmap : rows.map p.key = (rows.map p.fullKey).map (List.take 1) := by
    rw [List.map_map]
    exact List.map_congr_left fun r _ => key_eq_take r
  rw [hmap] at h
  rw [Table.admits, Bool.or_eq_true, decide_eq_true_eq]
  exact Or.inr (h.of_map.filter _)

omit [DecidableEq V] in
theorem OnlyInOne.mem {p : TablePair V} {r : Row V} (h : p.OnlyInOne r) :
    r ∈ p.t.rows ++ p.remote.rows :=
  List.mem_append.2 (h.imp And.left And.left)

theorem onlyInOne_row {c : Change (Row V)} (hc : c ∈ p.differences) : p.OnlyInOne c.row := by
  rcases mem_changes.1 hc with ⟨b, rfl, hb, hfresh⟩ | ⟨a, b, rfl, ha, hb, hk, hne⟩
    | ⟨a, rfl, ha, hgone⟩
  · exact Or.inr ⟨hb, fun h => hfresh b h rfl⟩
  · exact Or.inl ⟨ha, fun h => hne (keyed_remote a h b hb hk)⟩
  · exact Or.inl ⟨ha, fun h => hgone a h rfl⟩

theorem exists_difference {r : Row V} (h : p.OnlyInOne r) :
    ∃ c ∈ p.differences, p.key c.row = p.key r := by
  rcases h with ⟨hr, hnot⟩ | ⟨hr, hnot⟩
  · by_cases hk : ∃ b ∈ p.remote.rows, p.key r = p.key b
    · obtain ⟨b, hb, hk⟩ := hk
      exact ⟨.update r b,
        mem_changes.2 (Or.inr (Or.inl ⟨r, b, rfl, hr, hb, hk, fun he => hnot (he ▸ hb)⟩)), rfl⟩
    · exact ⟨.delete r,
        mem_changes.2 (Or.inr (Or.inr ⟨r, rfl, hr, fun b hb h => hk ⟨b, hb, h.symm⟩⟩)), rfl⟩
  · by_cases hk : ∃ a ∈ p.t.rows, p.key a = p.key r
    · obtain ⟨a, ha, hk⟩ := hk
      exact ⟨.update a r,
        mem_changes.2 (Or.inr (Or.inl ⟨a, r, rfl, ha, hr, hk, fun he => hnot (he ▸ ha)⟩)), hk⟩
    · exact ⟨.insert r, mem_changes.2 (Or.inl ⟨r, rfl, hr, fun a ha h => hk ⟨a, ha, h⟩⟩), rfl⟩

/-- A difference with its NULLs left out stands for it. -/
theorem fits_carried {c : Change (Row V)} (hc : c ∈ p.differences) :
    Change.Fits p.key p.t.rows (carried c) ∧ (carried c).old = c.old ∧
    (carried c).new.map p.key = c.new.map p.key ∧
      (carried c).row = c.row := by
  cases c with
  | insert b => exact ⟨fits_changes hc, rfl, rfl, rfl⟩
  | delete a => exact ⟨fits_changes hc, rfl, rfl, rfl⟩
  | update a b =>
    have hfits := fits_changes hc
    have hlen : a.length = b.length :=
      (length_of_mem hc a (Or.inl rfl)).trans (length_of_mem hc b (Or.inr rfl)).symm
    have hk : p.key b = p.key a := hfits.same a rfl b rfl
    have hkept : p.key (kept a b) = p.key a := by
      refine List.map_inj_left.2 fun i hi => ?_
      have hvalue : value b i = value a i := List.map_inj_left.1 hk i hi
      rw [value_kept hlen, hvalue, Option.or_self]
    refine ⟨⟨hfits.old, fun x hx y hy => ?_, nofun⟩, rfl, ?_, rfl⟩
    · cases hx
      cases hy
      exact hkept
    · exact congrArg some (hkept.trans hk.symm)

theorem length_carried {c : Change (Row V)} (hc : c ∈ p.differences) {rows : List (Row V)}
    (hrows : ∀ r ∈ rows, r.length = p.t.columns.length) :
    ∀ r ∈ (carried c).apply rows, r.length = p.t.columns.length := by
  have hlen := length_of_mem hc
  cases c with
  | insert b =>
    exact fun r hr => (List.mem_append.1 hr).elim (hrows r) fun h =>
      List.mem_singleton.1 h ▸ hlen b (Or.inr rfl)
  | update a b =>
    intro r hr
    obtain ⟨row, hrow, rfl⟩ := List.mem_map.1 hr
    split
    · rw [length_kept ((hlen a (Or.inl rfl)).trans (hlen b (Or.inr rfl)).symm)]
      exact hlen a (Or.inl rfl)
    · exact hrows row hrow
  | delete a => exact fun r hr => hrows r (List.mem_filter.1 hr).1

/-- **Row changes one after the other.** -/
theorem foldlM_toChange (h : p.PlainNames E) {cs : List (Change (Row V))}
    (hcs : ∀ c ∈ cs, c ∈ p.differences)
    (hapart : cs.Pairwise fun c d => p.key c.row ≠ p.key d.row) {rows : List (Row V)}
    (hrows : ∀ r ∈ rows, r.length = p.t.columns.length)
    (hfits : ∀ c ∈ cs, Change.Fits p.key rows (carried c)) (hkeys : (rows.map p.key).Nodup) :
    (cs.map toChange).foldlM (E.applyRow p.t.fullName p.t.columns) (p.withRows rows) =
      if cs.all p.touches then some (p.withRows (Change.applyAll (cs.map carried) rows))
      else none := by
  induction cs generalizing rows with
  | nil => rfl
  | cons c cs ih =>
    have hc := hcs c List.mem_cons_self
    have hfit := hfits c List.mem_cons_self
    have hkeys' := Change.nodup_apply hfit hkeys
    obtain ⟨hhead, htail⟩ := List.pairwise_cons.1 hapart
    rw [List.map_cons, List.foldlM_cons, applyRow_toChange h hc hrows (admits_of_key hkeys'),
      List.all_cons]
    by_cases ht : p.touches c = true
    · rw [if_pos ht, ht, Bool.true_and]
      refine ih (fun d hd => hcs d (List.mem_cons_of_mem _ hd)) htail (length_carried hc hrows)
        (fun d hd => ?_) hkeys'
      refine hfit.apply (hfits d (List.mem_cons_of_mem _ hd)) ?_
      rw [(fits_carried hc).2.2.2, (fits_carried (hcs d (List.mem_cons_of_mem _ hd))).2.2.2]
      exact hhead d hd
    · rw [if_neg ht, Bool.eq_false_iff.2 ht]
      rfl

/-- Row changes that are context change nothing. -/
theorem foldlM_acts (E : Engine V) (name : String) (columns : List String)
    (rcs : List (RowChange V)) (db : Database V) :
    rcs.foldlM (E.applyRow name columns) db = (rcs.filter acts).foldlM
      (E.applyRow name columns) db := by
  induction rcs generalizing db with
  | nil => rfl
  | cons rc rcs ih =>
    rw [List.foldlM_cons, List.filter_cons]
    by_cases hrc : acts rc = true
    · rw [if_pos hrc, List.foldlM_cons]
      exact congrArg _ (funext fun db => ih db)
    · have hnone : DiffApplySql.applyRow name columns rc = none := by
        simp only [acts, Bool.or_eq_true, beq_iff_eq, not_or] at hrc
        rw [DiffApplySql.applyRow, if_neg hrc.1.1, if_neg hrc.1.2, if_neg hrc.2]
      rw [if_neg hrc, Engine.applyRow, hnone]
      exact ih db

/-- **The run**: the differences that are found under their texts, in some order. -/
theorem run_eq (h : p.PlainNames E) (hd : p.t.dataColumns ≠ []) : ∃ cs : List (Change (Row V)),
    (∀ c ∈ cs, c ∈ p.differences) ∧ (cs.map (p.keyText E)).Nodup ∧
    ((∀ c ∈ p.differences, ∀ d ∈ p.differences, p.keyText E c = p.keyText E d → c = d) →
      ∀ c ∈ p.differences, c ∈ cs) ∧
    E.run p.db p.t.fullName p.remote.fullName =
      if cs.all p.touches then some (p.withRows (Change.applyAll (cs.map carried) p.t.rows))
      else none := by
  let entries := p.differences.map fun c => (p.keyText E c, toChange c)
  let hits := entries.foldl (fun (m : AssocMap String (RowChange V)) e => m.set e.1 e.2) []
  let drained := hits.drain ((p.contextRows E).map fun e => E.keyify (project p.t.keyPlaces e.1))
  -- each entry that is met is that of a difference
  have hmem : ∀ e ∈ drained, ∃ c ∈ p.differences, (p.keyText E c, toChange c) = e := by
    intro e he
    rcases AssocMap.mem_of_get?_foldl_set entries [] (AssocMap.mem_drain.1 he).2 with he | he
    · exact List.mem_map.1 he
    · cases he
  obtain ⟨cs, hcs, hdrained⟩ := exists_map_eq hmem
  have hnodup : (cs.map (p.keyText E)).Nodup := by
    have :=
      AssocMap.nodup_drain hits
        ((p.contextRows E).map fun e => E.keyify (project p.t.keyPlaces e.1))
    rw [show hits.drain _ = _ from hdrained.symm, AssocMap.keys, List.map_map] at this
    exact this
  refine ⟨cs, hcs, hnodup, fun hinj c hc => ?_, ?_⟩
  · have hrow : c.row ∈ p.t.rows ++ p.remote.rows := by
      rcases onlyInOne_row hc with ⟨hr, -⟩ | ⟨hr, -⟩
      · exact List.mem_append_left _ hr
      · exact List.mem_append_right _ hr
    obtain ⟨tag, htag⟩ := mem_contextRows.2 hrow
    have hkeys : (AssocMap.keys entries).Nodup := by
      rw [AssocMap.keys, List.map_map]
      exact (List.nodup_map_iff_inj_on
        (nodup_changes p.first.unique.of_map p.first.uniqueRemote.of_map)).2 hinj
    have hget : hits.get? (p.keyText E c) = some (toChange c) := by
      rw [show hits.get? _ = _ from AssocMap.get?_foldl_set entries _ [] hkeys,
        AssocMap.get?_of_mem hkeys (List.mem_map_of_mem hc)]
      rfl
    have hin : (p.keyText E c, toChange c) ∈ drained :=
      AssocMap.mem_drain.2 ⟨List.mem_map.2 ⟨(c.row, tag), htag, rfl⟩, hget⟩
    rw [← hdrained] at hin
    obtain ⟨d, hd, he⟩ := List.mem_map.1 hin
    rw [hinj c hc d (hcs d hd) (congrArg Prod.fst he).symm]
    exact hd
  · have hacts : (E.applyWithContext (p.contextRows E) p.t.keyPlaces entries).filter acts =
      cs.map toChange := by
      rw [E.applyWithContext_acts]
      · rw [show AssocMap.drain _ _ = _ from hdrained.symm, List.map_map]
        rfl
      · intro e he
        obtain ⟨c, -, rfl⟩ := List.mem_map.1 he
        exact acts_toChange c
    unfold Engine.run
    rw [pragma_plain h _ t_mem, applySingle_eq h hd]
    simp only [Option.bind_eq_bind, Option.bind_some]
    rw [foldlM_acts, List.filter_cons, if_neg (by simp [acts]), hacts]
    refine foldlM_toChange h hcs ?_ p.rect_t
      (fun c hc => (fits_carried (hcs c hc)).1) p.first.unique
    exact (List.pairwise_map.1 hnodup).imp fun hne hk => hne (congrArg E.keyify hk)

omit [DecidableEq V] in
theorem rowsOf_withRows (rows : List (Row V)) : rowsOf (p.withRows rows) p.t = rows := by
  simp [rowsOf, Database.find, withRows]

theorem texts_inj (h : p.Holds E) :
    ∀ c ∈ p.differences, ∀ d ∈ p.differences, p.keyText E c = p.keyText E d → c = d :=
  fun _ hc _ hd hk =>
  changes_keyed keyed_t keyed_remote hc hd (h.texts _ _ (onlyInOne_row hc) (onlyInOne_row hd) hk)

/-- Where no value becomes NULL, a difference is carried out as it is. -/
theorem carried_eq (h : p.Holds E) {c : Change (Row V)} (hc : c ∈ p.differences) :
    carried c = c ∧ p.touches c = true := by
  rcases mem_changes.1 hc with ⟨b, rfl, -⟩ | ⟨a, b, rfl, ha, hb, hk, hne⟩ | ⟨a, rfl, -⟩
  · exact ⟨rfl, rfl⟩
  · have hlen := p.rect_t a ha
    have hlen' := p.rect_remote b hb
    have hvalues := h.values a ha b hb hk
    constructor
    · refine congrArg (Change.update a)
        (row_ext ((length_kept (hlen.trans hlen'.symm)).trans hlen) hlen' fun i _ => ?_)
      rw [value_kept (hlen.trans hlen'.symm)]
      cases hb' : value b i with
      | some w => rfl
      | none => exact not_not.1 (mt (hvalues i) (not_not.2 hb'))
    · -- a value that differs is not NULL in the new row
      obtain ⟨i, hi, hi'⟩ : ∃ i < p.t.columns.length, value a i ≠ value b i := by
        by_contra hall
        push Not at hall
        exact hne (row_ext hlen hlen' hall)
      have hsome : (value b i).isSome = true := by
        rw [Option.isSome_iff_ne_none]
        intro hnone
        have := not_not.1 (mt (hvalues i) (not_not.2 hnone))
        exact hi' (this.trans hnone.symm)
      exact List.any_eq_true.2 ⟨i, List.mem_range.2 hi, by simp [hi', hsome]⟩
  · exact ⟨rfl, rfl⟩

theorem converges_of_holds (h : p.Holds E) : p.Converges E := by
  obtain ⟨c, hc, hnot⟩ := h.data
  have hd : p.t.dataColumns ≠ [] := List.ne_nil_of_mem (List.mem_filter.2 ⟨hc, by simpa using hnot⟩)
  obtain ⟨cs, hcs, hnodup, hall, hrun⟩ := run_eq h.names hd
  have htouch : cs.all p.touches = true :=
    List.all_eq_true.2 fun c hc => (carried_eq h (hcs c hc)).2
  have hmap : cs.map carried = cs := map_eq_self_iff.2 fun c hc => (carried_eq h (hcs c hc)).1
  rw [if_pos htouch, hmap] at hrun
  refine ⟨_, hrun, ?_⟩
  rw [rowsOf_withRows]
  exact (applyAll_eq_remote_iff keyed_t keyed_remote hcs hnodup.of_map).2 (hall (texts_inj h))

theorem holds_of_converges (hT : p.TidyNames) (h : p.Converges E) : p.Holds E := by
  obtain ⟨db, hrun, hrows⟩ := h
  have hsome : E.applySingle p.db p.t.fullName p.remote.fullName ≠ none := by
    intro hnone
    rw [Engine.run, hnone] at hrun
    cases hinfo : E.pragma p.db p.t.fullName <;> rw [hinfo] at hrun <;> cases hrun
  obtain ⟨hnames, hd⟩ := prepared hT hsome
  obtain ⟨cs, hcs, hnodup, -, heq⟩ := run_eq hnames hd
  rw [heq] at hrun
  split at hrun
  · obtain rfl := Option.some.inj hrun
    rw [rowsOf_withRows] at hrows
    have hapart : (cs.map carried).Pairwise fun c d => p.key c.row ≠ p.key d.row := by
      refine List.pairwise_map.2 ((List.pairwise_map.1 hnodup).imp_of_mem fun {c d} hc hd hne hk =>
        hne ?_)
      rw [(fits_carried (hcs c hc)).2.2.2, (fits_carried (hcs d hd)).2.2.2] at hk
      exact congrArg E.keyify hk
    have hall := mem_of_applyAll_eq_remote keyed_t keyed_remote (fun d hd => by
      obtain ⟨c, hc, rfl⟩ := List.mem_map.1 hd
      have hfits := fits_carried (hcs c hc)
      exact ⟨hfits.1, c, hcs c hc, hfits.2.1, hfits.2.2.1⟩) hapart hrows
    -- each difference has been carried out, and as it is
    have hin : ∀ c ∈ p.differences, c ∈ cs ∧ carried c = c := by
      intro c hc
      obtain ⟨d, hd, he⟩ := List.mem_map.1 (hall c hc)
      have hrow : d.row = c.row :=
        (fits_carried (hcs d hd)).2.2.2.symm.trans (congrArg Change.row he)
      have hdc : d = c := changes_keyed keyed_t keyed_remote (hcs d hd) hc (congrArg p.key hrow)
      exact ⟨hdc ▸ hd, hdc ▸ he⟩
    refine ⟨hnames, p.first, ?_, fun a ha b hb hk i hi hnone => hi ?_, fun r s hr hs hk => ?_⟩
    · obtain ⟨c, hc⟩ := List.exists_mem_of_ne_nil _ hd
      exact ⟨c, dataColumns_mem c hc, by simpa using (List.mem_filter.1 hc).2⟩
    · by_cases he : a = b
      · rw [he, hnone]
      · have hkept :=
          (hin (.update a b) (mem_changes.2 (Or.inr (Or.inl ⟨a, b, rfl, ha, hb, hk, he⟩)))).2
        have hvalue := congrArg (fun r => value r i) (Change.update.inj hkept).2
        simp only [value_kept ((p.rect_t a ha).trans (p.rect_remote b hb).symm), hnone,
          Option.none_or] at hvalue
        exact hvalue
    · obtain ⟨c, hc, hrow⟩ := exists_difference hr
      obtain ⟨d, hd, hrow'⟩ := exists_difference hs
      have htext : p.keyText E c = p.keyText E d := by
        rw [keyText, keyText, hrow, hrow', hk]
      rw [← hrow, ← hrow', List.inj_on_of_nodup_map hnodup (hin c hc).1 (hin d hd).1 htext]
  · cases hrun

end

/-- **When the run works**: always where `Holds`, and nowhere else among tables with tidy names that
their first key column keys. -/
theorem converges_iff {V : Type} [DecidableEq V] (E : Engine V) (p : TablePair V) :
    (p.Holds E → p.Converges E) ∧ (p.TidyNames → p.FirstKeyed → p.Converges E → p.Holds E) :=
  ⟨fun h => converges_of_holds (p := ⟨p, h.first⟩) h, fun hT hf h =>
    holds_of_converges (p := ⟨p, hf⟩) hT h⟩

/-- An engine for values that are texts. -/
def textEngine : Engine String where
  toS := id
  ofText := id
  keyword w :=
    ["select", "from", "where", "table", "order", "group", "index", "values"].contains w.toLower
  number w := w.toList.all Char.isDigit
  orderBy := id
  orderBy_perm _ := List.Perm.refl _

/-- Translations of three words, of which one is put right, one dropped and one added. -/
def wordList : TablePair String where
  t := {
    schema := "main", name := "t", columns := ["id", "lang", "v"], key := ["id", "lang"]
    rows := [[some "1", some "en", some "a"], [some "2", some "en", some "b"],
      [some "3", some "de", some "c"]] }
  remote := {
    schema := "main", name := "u", columns := ["id", "lang", "v"], key := ["id", "lang"]
    rows := [[some "1", some "en", some "x"], [some "3", some "de", some "c"],
      [some "4", some "fr", some "d"]] }
  apart := by decide
  sameColumns := rfl
  sameKey := rfl
  distinct := by decide
  keyed := by decide
  keyColumns := by decide
  rect := by decide
  unique := by decide
  uniqueRemote := by decide

theorem plainNames_wordList : wordList.PlainNames textEngine :=
  PlainNames.of_bare (by decide +kernel) (by decide +kernel)

theorem holds_wordList : wordList.Holds textEngine where
  names := plainNames_wordList
  first := ⟨by decide, by decide⟩
  data := ⟨"v", by decide, by decide⟩
  values a ha b hb _ i hv := by
    have hfull : ∀ b ∈ wordList.remote.rows, ∀ i < 3, value b i ≠ none := by decide
    apply hfull b hb i
    by_contra hi
    have hlen : a.length = 3 := wordList.rect a (List.mem_append_left _ ha)
    exact hv (List.getD_eq_default _ _ (by omega))
  texts r s hr hs := by
    have hrows : ∀ r ∈ wordList.t.rows ++ wordList.remote.rows,
        ∀ s ∈ wordList.t.rows ++ wordList.remote.rows,
          textEngine.keyify (wordList.key r) = textEngine.keyify (wordList.key s) →
            wordList.key r = wordList.key s := by
      decide +kernel
    exact hrows r hr.mem s hs.mem

theorem converges_iff_wordList : wordList.Converges textEngine :=
  (converges_iff textEngine wordList).1 holds_wordList

/-- A row of which a value becomes NULL. -/
def valueToNull : TablePair String where
  t := { schema := "main", name := "t", columns := ["id", "v"], key := ["id"], rows := [[some "1", some "a"]] }
  remote :=
    { schema := "main"
      name := "u"
      columns := ["id", "v"]
      key := ["id"]
      rows := [[some "1", none]] }
  apart := by decide
  sameColumns := rfl
  sameKey := rfl
  distinct := by decide
  keyed := by decide
  keyColumns := by decide
  rect := by decide
  unique := by decide
  uniqueRemote := by decide

/-- Its update has no assignment, and is refused. -/
theorem valueToNull_refused :
    textEngine.applyRow "main.t" ["id", "v"] valueToNull.db
      (toChange (.update [some "1", some "a"] [some "1", none])) = none ∧
      ¬ valueToNull.Converges textEngine := by
  have hrun : textEngine.run valueToNull.db valueToNull.t.fullName valueToNull.remote.fullName =
    none := by decide +kernel
  refine ⟨by decide +kernel, fun h => ?_⟩
  obtain ⟨db, hdb, -⟩ := h
  rw [hrun] at hdb
  cases hdb

/-- Two rows whose keys begin alike, in both tables. -/
def alikeKeys : TablePair String where
  t := {
    schema := "main", name := "t", columns := ["id", "lang", "v"], key := ["id", "lang"]
    rows := [[some "1", some "en", some "a"], [some "1", some "de", some "b"]] }
  remote := {
    schema := "main", name := "u", columns := ["id", "lang", "v"], key := ["id", "lang"]
    rows := [[some "1", some "en", some "a"], [some "1", some "de", some "b"]] }
  apart := by decide
  sameColumns := rfl
  sameKey := rfl
  distinct := by decide
  keyed := by decide
  keyColumns := by decide
  rect := by decide
  unique := by decide
  uniqueRemote := by decide

/-- One row is to become the other, which the key forbids. -/
example : (textEngine.run alikeKeys.db alikeKeys.t.fullName alikeKeys.remote.fullName).isNone =
    true := by decide +kernel

end TablePair

end Ruby

end Coopy
