import Coopy.ColumnScript
import Coopy.InLine

/-!
# Rows whose columns come and go

Some columns stay, others go, and each that stays has a name.  The maps of a row change can then
still be read column by column: the conditions hold the cells of the columns that local has, and the
values what is new in any of them.

    Lined ctx kept gone → the maps of `rowCond` and `valuesOf` by column
                                                                   (rowCond_enters, valuesOf_enters)

A patcher that has changed its columns is ready for the rows (`Fresh.follows`).
-/

namespace Coopy

open Lib

namespace Merger

/-! ## The maps of a row change -/

/-- The columns that stay, each with its name, and then those that go. -/
structure Lined (ctx : RowContext) (kept gone : List MatchUnit) : Prop where
  nodup : ctx.names.Nodup
  columns : ctx.colAccum = kept ++ gone
  length : ctx.names.length = kept.length
  stay : ∀ u ∈ kept, u.deleted = false
  leave : ∀ u ∈ gone, u.deleted = true
  all : ctx.flags.excludeColumns = []

/-- The local cell of a row in a column, if local has the column. -/
def localEntry (ctx : RowContext) (lRow : Int) (u : MatchUnit) : Option SheetCell :=
  if 0 ≤ u.localUnit then some (cellAt ctx.locals u.localUnit lRow) else none

/-- What a column enters for a row: a cell that is new. -/
def newEntry (ctx : RowContext) (row u : MatchUnit) : Option SheetCell :=
  if (mergedAt ctx row u).novel then some (mergedAt ctx row u).cell else none

section
variable {ctx : RowContext} {kept gone : List MatchUnit}

theorem rowCond_deleted (lRow : Int) (units : List MatchUnit)
    (hdel : ∀ u ∈ units, u.deleted = true) :
    ∀ (k : Nat) (m : AssocMap String SheetCell), rowCond ctx lRow k units m = m := by
  induction units with
  | nil => exact fun k m => rfl
  | cons u units ih =>
    intro k m
    have hu := hdel u List.mem_cons_self
    unfold rowCond
    simp only [hu, Bool.true_eq_false, false_and, and_false, if_false]
    exact ih (fun v hv => hdel v (List.mem_cons_of_mem u hv)) _ _

theorem valuesOf_deleted (row : MatchUnit) (units : List MatchUnit)
    (hdel : ∀ u ∈ units, u.deleted = true) :
    ∀ (k : Nat) (v : RowValues), (valuesOf ctx row k units v).value = v.value := by
  induction units with
  | nil => exact fun k v => rfl
  | cons u units ih =>
    intro k v
    have hu := hdel u List.mem_cons_self
    unfold valuesOf
    simp only [hu, Bool.true_eq_false, false_and, if_false]
    exact ih (fun w hw => hdel w (List.mem_cons_of_mem u hw)) _ _

/-- One more column. -/
theorem Enters.column {names : List String} {g : Nat → Option SheetCell} {k : Nat}
    {m : AssocMap String SheetCell}
    (h : Enters names (fun i => if i < k then g i else none) m) (hn : names.Nodup)
    (hk : k < names.length) : Enters names (fun i => if i < k + 1 then g i else none)
      (match g k with
        | some x => m.set names[k] x
        | none => m) := by
  cases hg : g k with
  | none => exact h.skip hg
  | some x => exact h.next hn hk hg

variable (h : Lined ctx kept gone)

include h

theorem Lined.getElem?_kept {k : Nat} {u : MatchUnit} {us : List MatchUnit}
    (hsuf : kept.drop k = u :: us) :
    kept[k]? = some u ∧ k < ctx.names.length ∧ kept.drop (k + 1) = us ∧ u.deleted = false := by
  have hget : kept[k]? = some u := by rw [← List.head?_drop, hsuf, List.head?_cons]
  obtain ⟨hk, -⟩ := List.getElem?_eq_some_iff.1 hget
  refine ⟨hget, by rw [h.length]; exact hk, ?_, h.stay u (List.mem_of_getElem? hget)⟩
  rw [← List.drop_drop, hsuf, List.drop_one, List.tail_cons]

theorem Lined.rowCond_from {lRow : Int} (hl : 0 ≤ lRow) (us : List MatchUnit) :
    ∀ (k : Nat) (m : AssocMap String SheetCell), kept.drop k = us →
    Enters ctx.names (fun i => if i < k then kept[i]?.bind (localEntry ctx lRow) else none) m →
    Enters ctx.names (fun i => kept[i]?.bind (localEntry ctx lRow))
    (rowCond ctx lRow k (us ++ gone) m) := by
  induction us with
  | nil =>
    intro k m hsuf hm
    rw [List.nil_append, rowCond_deleted lRow gone h.leave]
    have hlen := List.drop_eq_nil_iff.1 hsuf
    refine hm.congr fun i hi => if_pos ?_
    rw [h.length] at hi
    omega
  | cons u us ih =>
    intro k m hsuf hm
    obtain ⟨hget, hk, hrest, hdel⟩ := h.getElem?_kept hsuf
    have hnext :=
      @Enters.column ctx.names (fun i => kept[i]?.bind (localEntry ctx lRow)) k m hm h.nodup hk
    rw [List.cons_append]
    unfold rowCond
    simp only [hdel, Bool.false_eq_true, if_false]
    refine ih (k + 1) _ hrest ?_
    simp only [hget, Option.bind_some] at hnext
    unfold localEntry at hnext
    by_cases hu : 0 ≤ u.localUnit
    · rw [if_pos ⟨hl, hu, trivial, by rw [h.all]; exact List.not_mem_nil⟩]
      rw [show nameAt ctx.names k = ctx.names[k] from List.getD_eq_getElem _ _ hk]
      rw [if_pos hu] at hnext
      exact hnext
    · rw [if_neg (fun hx => hu hx.2.1)]
      rw [if_neg hu] at hnext
      exact hnext

/-- The conditions of a local row: its cells in the columns that stay. -/
theorem Lined.rowCond_enters (l : Nat) :
    Enters ctx.names (fun i => kept[i]?.bind (localEntry ctx l))
    (rowCond ctx l 0 ctx.colAccum []) := by
  rw [h.columns]
  refine h.rowCond_from (Int.natCast_nonneg l) kept 0 [] List.drop_zero ?_
  exact Enters.nil.congr fun i _ => (if_neg (Nat.not_lt_zero i)).symm

theorem Lined.valuesOf_from (row : MatchUnit) (us : List MatchUnit) :
    ∀ (k : Nat) (v : RowValues), kept.drop k = us →
    Enters ctx.names (fun i => if i < k then kept[i]?.bind (newEntry ctx row) else none) v.value →
    Enters ctx.names (fun i => kept[i]?.bind (newEntry ctx row))
    (valuesOf ctx row k (us ++ gone) v).value := by
  induction us with
  | nil =>
    intro k v hsuf hm
    rw [List.nil_append, valuesOf_deleted row gone h.leave]
    have hlen := List.drop_eq_nil_iff.1 hsuf
    refine hm.congr fun i hi => if_pos ?_
    rw [h.length] at hi
    omega
  | cons u us ih =>
    intro k v hsuf hm
    obtain ⟨hget, hk, hrest, hdel⟩ := h.getElem?_kept hsuf
    have hnext :=
      @Enters.column ctx.names (fun i => kept[i]?.bind (newEntry ctx row)) k v.value hm h.nodup hk
    have hname : nameAt ctx.names k = ctx.names[k] := List.getD_eq_getElem _ _ hk
    rw [List.cons_append]
    unfold valuesOf
    simp only [hdel, Bool.false_eq_true, if_false, true_and]
    refine ih (k + 1) _ hrest ?_
    simp only [hget, Option.bind_some] at hnext
    unfold newEntry at hnext
    by_cases hnov : (mergedAt ctx row u).novel = true
    · rw [if_pos hnov] at hnext ⊢
      unfold RowValues.enter
      rw [if_neg (by rw [h.all]; exact List.not_mem_nil), hname]
      exact hnext
    · rw [if_neg hnov] at hnext ⊢
      exact hnext

/-- The values of a row: what is new, column by column. -/
theorem Lined.valuesOf_enters (row : MatchUnit) :
    Enters ctx.names (fun i => kept[i]?.bind (newEntry ctx row))
    (valuesOf ctx row 0 ctx.colAccum {}).value := by
  rw [h.columns]
  refine h.valuesOf_from row kept 0 {} List.drop_zero ?_
  exact Enters.nil.congr fun i _ => (if_neg (Nat.not_lt_zero i)).symm

end

end Merger

namespace SheetPatcher

/-! ## A patcher after its columns -/

/-- No row has been touched yet, and the names have just been entered. -/
structure Fresh (header : Bool) (zero : SheetCell) (p : SheetPatcher) : Prop where
  cursor : p.rowCursor = -1
  unmarked : Unmarked p.activeRow
  schema : p.schema = false
  header : p.assumeHeader = header
  zero : p.sheet.zero = zero
  entered : ∃ q : SheetPatcher, q.updateCols = some p

section
variable {header : Bool} {zero : SheetCell} {p : SheetPatcher}

theorem updateCols_spec {q p : SheetPatcher} (h : q.updateCols = some p) :
    p = { q with name2col := (List.range q.activeCol.width).foldl q.enterName [] } := by
  unfold updateCols at h
  split at h
  · cases h
  · exact (Option.some.inj h).symm

theorem Fresh.of_updateCols {q p : SheetPatcher} (hq : q.updateCols = some p)
    (hcursor : q.rowCursor = -1)
    (hun : Unmarked q.activeRow) (hschema : q.schema = false) (hheader : q.assumeHeader = header)
    (hzero : q.sheet.zero = zero) : Fresh header zero p := by
  have hp := updateCols_spec hq
  subst hp
  exact ⟨hcursor, hun, hschema, hheader, hzero, q, hq⟩

theorem attach_fresh {sheet : TypedSheet SheetCell} {names : List String}
    (h : attach sheet names header = some p) : Fresh header sheet.zero p :=
  Fresh.of_updateCols h rfl ⟨rfl, fun row hrow => by cases hrow⟩ rfl rfl rfl

theorem zero_postApplyInfo {sheet sheet' : TypedSheet SheetCell} {titles idx : Nat} {name : String}
    (h : postApplyInfo sheet titles idx name = some sheet') : sheet'.zero = sheet.zero := by
  unfold postApplyInfo at h
  split at h
  · cases h
    rfl
  split at h
  · cases h
    rfl
  · cases h

/-- A change of the columns leaves the rows' part of the patcher as it is. -/
theorem Fresh.changeColumn (h : Fresh header zero p) {change : OrderChange}
    {r : SheetPatcher × Bool} (hr : p.changeColumn change = some r) : Fresh header zero r.1 := by
  unfold SheetPatcher.changeColumn at hr
  split at hr
  · unfold deleteCol at hr
    obtain ⟨mover, -, hr⟩ := Option.bind_eq_some_iff.1 hr
    obtain ⟨idx, -, hr⟩ := Option.bind_eq_some_iff.1 hr
    obtain ⟨q, hq, rfl⟩ := Option.map_eq_some_iff.1 hr
    refine Fresh.of_updateCols hq ?_ h.unmarked h.schema h.header ?_
    · simp only
      rw [h.cursor, ite_self]
    · have hdeleted : (p.sheet.deleteColumn idx).1.zero = zero := by
        unfold TypedSheet.deleteColumn
        split <;> exact h.zero
      simp only
      split <;> exact hdeleted
  · unfold insertCol at hr
    simp only at hr
    obtain ⟨mover, -, hr⟩ := Option.bind_eq_some_iff.1 hr
    obtain ⟨idx, -, hr⟩ := Option.bind_eq_some_iff.1 hr
    obtain ⟨sheet, hsheet, hr⟩ := Option.bind_eq_some_iff.1 hr
    obtain ⟨q, hq, rfl⟩ := Option.map_eq_some_iff.1 hr
    refine Fresh.of_updateCols hq h.cursor h.unmarked h.schema h.header
      ((zero_postApplyInfo hsheet).trans ?_)
    unfold TypedSheet.insertColumn
    split <;> exact h.zero
  · unfold moveCol at hr
    simp only at hr
    obtain ⟨mover, -, hr⟩ := Option.bind_eq_some_iff.1 hr
    obtain ⟨idx, -, hr⟩ := Option.bind_eq_some_iff.1 hr
    obtain ⟨idx2, -, hr⟩ := Option.bind_eq_some_iff.1 hr
    unfold SheetPatcher.moveColumn at hr
    obtain ⟨q, hq, rfl⟩ := Option.map_eq_some_iff.1 hr
    refine Fresh.of_updateCols hq h.cursor h.unmarked h.schema h.header ?_
    unfold TypedSheet.moveColumn
    simp only
    split <;> exact h.zero
  · unfold renameCol at hr
    obtain ⟨target, -, hr⟩ := Option.bind_eq_some_iff.1 hr
    obtain ⟨newName, -, hr⟩ := Option.bind_eq_some_iff.1 hr
    obtain ⟨idx, -, hr⟩ := Option.bind_eq_some_iff.1 hr
    obtain ⟨sheet, hsheet, hr⟩ := Option.bind_eq_some_iff.1 hr
    obtain ⟨q, hq, rfl⟩ := Option.map_eq_some_iff.1 hr
    exact Fresh.of_updateCols hq h.cursor h.unmarked h.schema h.header
      ((zero_postApplyInfo hsheet).trans h.zero)

theorem Fresh.changeColumns (changes : List OrderChange) :
    ∀ {p p' : SheetPatcher}, Fresh header zero p →
    changeColumns changes p = some p' → Fresh header zero p' := by
  induction changes with
  | nil =>
    intro p p' h hp
    cases hp
    exact h
  | cons change changes ih =>
    intro p p' h hp
    unfold SheetPatcher.changeColumns at hp
    obtain ⟨r, hr, hrest⟩ := Option.bind_eq_some_iff.1 hp
    exact ih (h.changeColumn hr) hrest

/-- The patcher is at the end of the rows, and knows the columns by their names. -/
theorem Fresh.follows (h : Fresh header zero p) {rows : List (List SheetCell)} {ids : List Int}
    {names : List String}
    (hshow : Shows rows p ids names) (husable : "---" ∉ names) (hlocal : ∃ id ∈ ids, 0 ≤ id) :
    Follows names header p (Zipper.atEnd (rows.map fun row => ids.map (cellOf zero row))) := by
  obtain ⟨q, hq⟩ := h.entered
  have hp := updateCols_spec hq
  have hknows : Knows p names := by
    have hc : q.activeCol.arr = [names] ∧ q.activeCol.w = names.length := by
      have hactive := hshow.active
      rw [hp] at hactive
      exact hactive
    have hs : q.name2syn = [] := by
      have hsyn := hshow.no_synonyms.2
      rw [hp] at hsyn
      exact hsyn
    rw [hp, show q.activeCol.width = names.length from hc.2]
    exact updateCols_knows hshow.names_nodup husable hc hs
  obtain ⟨base, hbase, harr⟩ := hshow.sheet_arr
  have hrows : base = rows := by
    rcases hbase with hbase | hbase
    · exact hbase
    · obtain ⟨id, hid, hnonneg⟩ := hlocal
      have := hbase id hid
      omega
  rw [hrows, h.zero] at harr
  refine ⟨hknows, husable, hshow.active, hshow.no_synonyms.2, ?_,
    hshow.sheet_w.trans hshow.parallel.symm, ?_, h.cursor,
    h.unmarked, h.schema, h.header⟩
  · rw [Zipper.items_atEnd]
    exact harr
  · intro row hrow
    rw [Zipper.items_atEnd] at hrow
    obtain ⟨old, -, rfl⟩ := List.mem_map.1 hrow
    rw [List.length_map, hshow.parallel]

end

end SheetPatcher

end Coopy
