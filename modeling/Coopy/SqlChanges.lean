import Coopy.SqlQueries

/-!
# The changes of `SqlCompare` applied

A change whose texts have no end mark says of its rows what they are, and does to a table what the
difference does.  Rows with an end mark are met by no change, and none makes one.

    the changes make the remote table and spare what is equal ↔
      the tables are equal, or no name has an apostrophe and they agree in the rows with an end mark
                                                                                         (right_iff)
-/

namespace Coopy

open Lib Relation Sqlite

open SqlCompare (get fill insertChange updateChange deleteChange)

open RowChange (sqlCell sqlValue)

/-! ## Cells under their columns -/

theorem sqlValue_sqlCell (v : Option String) : sqlValue (sqlCell v) = v := by cases v <;> rfl

theorem sqlCell_injective : Function.Injective sqlCell := fun v w h => by
  rw [← sqlValue_sqlCell v, h, sqlValue_sqlCell]

theorem get?_fill {es : List (String × SheetCell)} (hn : (es.map Prod.fst).Nodup) (k : String) :
    (fill es).get? k = AssocMap.get? es k := by
  rw [fill, AssocMap.get?_foldl_set es k [] hn]
  exact Option.or_none

section
variable {names : List String} (hn : names.Nodup)

include hn

/-- Some of the columns, filled with a cell for each place. -/
theorem get?_fill_filter (P : Nat → Bool) (f : Nat → SheetCell) {i : Nat} (hi : i < names.length) :
    (fill ((names.zipIdx.filter fun c => P c.2).map fun c => (c.1, f c.2))).get? names[i] =
      if P i then some (f i) else none := by
  have hkeys : ((names.zipIdx.filter fun c => P c.2).map fun c => (c.1, f c.2)).map Prod.fst =
      (names.zipIdx.filter fun c => P c.2).map Prod.fst := by rw [List.map_map]; rfl
  have hsub : ((names.zipIdx.filter fun c => P c.2).map Prod.fst).Sublist names := by
    have :=
      (List.filter_sublist (p := fun c : String × Nat => P c.2) (l := names.zipIdx)).map Prod.fst
    rwa [List.zipIdx_map_fst] at this
  have hnodup :
    (((names.zipIdx.filter fun c => P c.2).map fun c => (c.1, f c.2)).map Prod.fst).Nodup := by
    rw [hkeys]
    exact hsub.nodup hn
  rw [get?_fill hnodup]
  split
  · next hp =>
    refine AssocMap.get?_of_mem hnodup
      (List.mem_map.2 ⟨(names[i], i), List.mem_filter.2 ⟨?_, hp⟩, rfl⟩)
    exact List.mk_mem_zipIdx_iff_getElem?.2 (List.getElem?_eq_getElem hi)
  · next hp =>
    rw [AssocMap.get?_eq_none_iff, AssocMap.keys, hkeys]
    intro hm
    obtain ⟨⟨name, j⟩, hmem, hname⟩ := List.mem_map.1 hm
    obtain ⟨hzip, hj⟩ := List.mem_filter.1 hmem
    obtain ⟨hjlt, he⟩ := List.getElem?_eq_some_iff.1 (List.mk_mem_zipIdx_iff_getElem?.1 hzip)
    have hij : j = i := (List.Nodup.getElem_inj_iff hn).1 (he.trans hname)
    exact hp (hij ▸ hj)

theorem get?_fill_all (f : Nat → SheetCell) {i : Nat} (hi : i < names.length) :
    (fill (names.zipIdx.map fun c => (c.1, f c.2))).get? names[i] = some (f i) := by
  have := get?_fill_filter hn (fun _ => true) f hi
  rwa [List.filter_true, if_pos rfl] at this

end

namespace RowChange

variable {names : List String} {rc : RowChange}

/-- What a change with a cell for each column asks for. -/
theorem asksFor_iff {f : Nat → SheetCell} (hc : ∀ i (hi : i < names.length),
    rc.cond.get? names[i] = some (f i))
    {row : Row String} (hrow : row.length = names.length) :
    rc.asksFor names row = true ↔ ∀ i < names.length, f i = sqlCell (value row i) := by
  unfold asksFor
  rw [List.all_eq_true]
  constructor
  · intro h i hi
    have hi' : i < row.length := hrow ▸ hi
    have hmem : (names[i], row[i]) ∈ names.zip row :=
      List.mem_iff_getElem.2 ⟨i, by simp [hi, hi'], by simp⟩
    have := h _ hmem
    rw [hc i hi] at this
    rw [value, List.getD_eq_getElem _ _ hi']
    exact beq_iff_eq.1 this
  · intro h e he
    obtain ⟨i, hi, rfl⟩ := List.mem_iff_getElem.1 he
    rw [List.length_zip] at hi
    have hin : i < names.length := by omega
    have := h i hin
    rw [value, List.getD_eq_getElem _ _ (by omega)] at this
    simp only [List.getElem_zip, hc i hin]
    exact beq_iff_eq.2 this

/-- The row that a change writes. -/
theorem writeRow_eq {g : Nat → Option SheetCell}
    (hv : ∀ i (hi : i < names.length), rc.val.get? names[i] = g i)
    {row : Row String} (hrow : row.length = names.length) :
    rc.writeRow names row = (List.range names.length).map fun i => match g i with
      | none => value row i
      | some c => sqlValue c := by
  unfold writeRow
  refine List.ext_getElem (by simp [hrow]) fun i hi hi' => ?_
  have hin : i < names.length := by simpa [hrow] using hi
  have hvalue : value row i = row[i] := List.getD_eq_getElem _ _ (by omega)
  cases hg : g i with
  | none => simp [hv i hin, hg, hvalue]
  | some c => simp [hv i hin, hg]

theorem length_writeRow {row : Row String} (hrow : row.length = names.length) :
    (rc.writeRow names row).length = names.length := by
  simp [writeRow, hrow]

end RowChange

/-! ## Rows with an end mark -/

/-- A text of the row has an end mark in it. -/
def hasNul (row : Row String) : Prop := ∃ text, some text ∈ row ∧ '\x00' ∈ text.toList

theorem get_of_not_hasNul {row : Row String} (h : ¬ hasNul row) (i : Nat) :
    get row i = sqlCell (value row i) := by
  unfold SqlCompare.get value
  cases hv : row.getD i none with
  | none => rfl
  | some text =>
    have hmem : some text ∈ row := by
      rcases lt_or_ge i row.length with hi | hi
      · rw [List.getD_eq_getElem _ _ hi] at hv
        exact hv ▸ List.getElem_mem hi
      · rw [List.getD_eq_default _ _ hi] at hv
        cases hv
    show (⟨_, _⟩ : SheetCell) = ⟨_, _⟩
    rw [cString_of_not_mem fun hn => h ⟨text, hmem, hn⟩, String.ofList_toList]

theorem nul_not_mem_get (row : Row String) (i : Nat) : '\x00' ∉ (get row i).text.toList := by
  unfold SqlCompare.get
  split
  · exact nofun
  · rw [String.toList_ofList]
    exact nul_not_mem_cString _

theorem get_interleave {a b : Row String} (h : a.length = b.length) (i : Nat) :
    get (interleave a b) (2 * i) = get a i ∧ get (interleave a b) (2 * i + 1) = get b i := by
  obtain ⟨h1, h2⟩ := getD_interleave h i
  unfold SqlCompare.get
  rw [h1, h2]
  exact ⟨rfl, rfl⟩

/-- The cells of a change have no end mark, and it asks for all columns. -/
structure NulFree (names : List String) (rc : RowChange) : Prop where
  cond : rc.mode ≠ .insert → ∀ i (hi : i < names.length), ∃ c, rc.cond.get? names[i] = some c ∧
    '\x00' ∉ c.text.toList
  val : ∀ i (hi : i < names.length), ∀ c ∈ rc.val.get? names[i], '\x00' ∉ c.text.toList

namespace NulFree

variable {names : List String} {rc : RowChange} (h : NulFree names rc)

include h

theorem not_asksFor (hm : rc.mode ≠ .insert) {row : Row String} (hrow : row.length = names.length)
    (hn : hasNul row) : rc.asksFor names row = false := by
  obtain ⟨text, hmem, hnul⟩ := hn
  obtain ⟨i, hi, he⟩ := List.mem_iff_getElem.1 hmem
  have hin : i < names.length := hrow ▸ hi
  obtain ⟨c, hc, hfree⟩ := h.cond hm i hin
  unfold RowChange.asksFor
  rw [List.all_eq_false]
  refine ⟨(names[i], row[i]), List.mem_iff_getElem.2 ⟨i, by simp [hi, hin], by simp⟩, ?_⟩
  simp only [hc, he, Bool.not_eq_true, beq_eq_false_iff_ne]
  rintro rfl
  exact hfree hnul

theorem not_hasNul_writeRow {row : Row String} (hrow : row.length = names.length)
    (hn : ¬ hasNul row) : ¬ hasNul (rc.writeRow names row) := by
  rintro ⟨text, hmem, hnul⟩
  obtain ⟨e, he, hv⟩ := List.mem_map.1 hmem
  obtain ⟨i, hi, rfl⟩ := List.mem_iff_getElem.1 he
  rw [List.length_zip] at hi
  have hin : i < names.length := by omega
  simp only [List.getElem_zip] at hv
  split at hv
  · exact hn ⟨text, hv ▸ List.getElem_mem (by omega), hnul⟩
  · next c hc =>
    have hfree := h.val i hin c hc
    unfold RowChange.sqlValue at hv
    split at hv
    · cases hv
    · cases hv
      exact hfree hnul

/-- Rows with an end mark stay, and none comes in. -/
theorem mem_applyTo {rows : List (Row String)} (hrows : ∀ r ∈ rows, r.length = names.length)
    {r : Row String} (hr : hasNul r) : r ∈ rc.applyTo names rows ↔ r ∈ rows := by
  unfold RowChange.applyTo
  split
  · have hnew : ¬ hasNul (rc.writeRow names (names.map fun _ => none)) := by
      refine h.not_hasNul_writeRow (by simp) ?_
      rintro ⟨text, hmem, -⟩
      simp at hmem
    rw [List.mem_append, List.mem_singleton]
    exact ⟨fun h => h.resolve_right fun he => hnew (he ▸ hr), Or.inl⟩
  · next hmode =>
    have hm : rc.mode ≠ .insert := by rw [hmode]; nofun
    rw [List.mem_map]
    constructor
    · rintro ⟨row, hrow, he⟩
      split at he
      · next hask =>
        have hclean : ¬ hasNul row := fun hn => by
          rw [h.not_asksFor hm (hrows row hrow) hn] at hask
          cases hask
        exact absurd (he ▸ hr) (h.not_hasNul_writeRow (hrows row hrow) hclean)
      · exact he ▸ hrow
    · intro hrow
      exact ⟨r, hrow, by rw [h.not_asksFor hm (hrows r hrow) hr]; rfl⟩
  · next hmode =>
    have hm : rc.mode ≠ .insert := by rw [hmode]; nofun
    rw [List.mem_filter]
    exact ⟨And.left, fun hrow => ⟨hrow, by rw [h.not_asksFor hm (hrows r hrow) hr]; rfl⟩⟩
  · rfl

end NulFree

/-! ## The changes of a comparison -/

namespace SqlPair

variable (p : SqlPair)

/-- Applied to the local table as a set of rows, the changes give the remote table. -/
def Complete : Prop :=
  ∀ r, r ∈ RowChange.applyAllTo p.t.getColumnNames (SqlCompare.apply p.db p.t p.remote).2 p.t.rows ↔
  r ∈ p.remote.rows

/-- The change puts the row in, or asks for it. -/
def Concerns (columns : List String) (rc : RowChange) (r : Row String) : Prop :=
  match rc.mode with
  | .insert => rc.writeRow columns (columns.map fun _ => none) = r
  | _ => rc.asksFor columns r = true

/-- No change concerns a row that is present and equal in both tables. -/
def Minimal : Prop :=
  ∀ rc ∈ (SqlCompare.apply p.db p.t p.remote).2, ∀ r, r ∈ p.t.rows → r ∈ p.remote.rows →
  ¬ Concerns p.t.getColumnNames rc r

/-- The tables have the same rows. -/
def SameRows : Prop := ∀ r, r ∈ p.t.rows ↔ r ∈ p.remote.rows

/-- The rows with an end mark are the same. -/
def NulsAgree : Prop := ∀ r, hasNul r → (r ∈ p.t.rows ↔ r ∈ p.remote.rows)

theorem length_names : p.t.getColumnNames.length = p.t.columns.length := by
  rw [SqlTable.getColumnNames, List.length_map]

theorem keyed_t : Keyed p.key p.t.rows :=
  fun _ ha _ hb h => List.inj_on_of_nodup_map p.unique ha hb h

theorem keyed_remote : Keyed p.key p.remote.rows :=
  fun _ ha _ hb h => List.inj_on_of_nodup_map p.uniqueRemote ha hb h

/-- The rows of a difference are rows of the tables. -/
theorem length_of_mem {c : Change (Row String)} (hc : c ∈ p.differences) :
    ∀ r, c.old = some r ∨ c.new = some r → r.length = p.t.getColumnNames.length := by
  rw [length_names]
  rcases mem_changes.1 hc with ⟨b, rfl, hb, -⟩ | ⟨a, b, rfl, ha, hb, -⟩ | ⟨a, rfl, ha, -⟩ <;>
    rintro r (h | h) <;> cases h
  · exact p.rect_remote b hb
  · exact p.rect_t a ha
  · exact p.rect_remote b hb
  · exact p.rect_t a ha

theorem nulFree_toChange {c : Change (Row String)} (hc : c ∈ p.differences) :
    NulFree p.t.getColumnNames (p.toChange c) := by
  have hnone :
    ∀ i (hi : i < p.t.getColumnNames.length),
    ∀ cell ∈ AssocMap.get? (κ := String) (α := SheetCell) [] p.t.getColumnNames[i],
      '\x00' ∉ cell.text.toList := fun _ _ _ h => by cases h
  cases c with
  | insert b =>
    refine ⟨fun hm => absurd rfl hm, fun i hi cell hcell => ?_⟩
    rw [Option.mem_def, toChange, insertChange, get?_fill_all p.distinct _ hi,
      Option.some.injEq] at hcell
    exact hcell ▸ nul_not_mem_get b i
  | update a b =>
    refine ⟨fun _ i hi => ⟨_, get?_fill_all p.distinct (fun i => get (interleave a b) (2 * i)) hi,
      nul_not_mem_get _ _⟩, fun i hi cell hcell => ?_⟩
    rw [Option.mem_def, toChange, updateChange,
      get?_fill_filter p.distinct
        (fun i => get (interleave a b) (2 * i) != get (interleave a b) (2 * i + 1))
        (fun i => get (interleave a b) (2 * i + 1)) hi] at hcell
    split at hcell
    · rw [← Option.some.inj hcell]
      exact nul_not_mem_get _ _
    · cases hcell
  | delete a => exact ⟨fun _ i hi => ⟨_, get?_fill_all p.distinct _ hi, nul_not_mem_get _ _⟩, hnone⟩

/-- A row that agrees with another in every column is that row. -/
theorem agree_iff {a row : Row String} (ha : a.length = p.t.getColumnNames.length)
    (hrow : row.length = p.t.getColumnNames.length) :
    (∀ i < p.t.getColumnNames.length, sqlCell (value a i) = sqlCell (value row i)) ↔ row = a := by
  constructor
  · intro h
    refine eq_of_project (l := List.range p.t.getColumnNames.length)
      (fun i hi => List.mem_range.2 hi) hrow ha ?_
    exact List.map_inj_left.2 fun i hi => (sqlCell_injective (h i (List.mem_range.1 hi))).symm
  · rintro rfl i -
    rfl

section
variable {p} {c : Change (Row String)} (hc : c ∈ p.differences) (hfree : ∀ r, c.old = some r ∨
    c.new = some r → ¬ hasNul r)

include hc hfree

/-- What a change asks for is the old row. -/
theorem asksFor_toChange {a : Row String} (ha : c.old = some a) {row : Row String}
    (hrow : row.length = p.t.getColumnNames.length) :
    (p.toChange c).asksFor p.t.getColumnNames row = true ↔ row = a := by
  have hlen := p.length_of_mem hc a (Or.inl ha)
  have hclean := hfree a (Or.inl ha)
  rw [← p.agree_iff hlen hrow]
  cases c with
  | insert b => cases ha
  | update a' b =>
    cases ha
    have hb := p.length_of_mem hc b (Or.inr rfl)
    rw [RowChange.asksFor_iff (f := fun i => get (interleave a b) (2 * i))
      (fun i hi => get?_fill_all p.distinct (fun i => get (interleave a b) (2 * i)) hi) hrow]
    refine forall₂_congr fun i _ => ?_
    rw [(get_interleave (hlen.trans hb.symm) i).1, get_of_not_hasNul hclean]
  | delete a' =>
    cases ha
    rw [RowChange.asksFor_iff (f := get a) (fun i hi => get?_fill_all p.distinct _ hi) hrow]
    refine forall₂_congr fun i _ => ?_
    rw [get_of_not_hasNul hclean]

/-- What a change writes is the new row. -/
theorem writeRow_toChange {b : Row String} (hb : c.new = some b) {row : Row String}
    (hrow : row = (c.old.getD (p.t.getColumnNames.map fun _ => none))) :
    (p.toChange c).writeRow p.t.getColumnNames row = b := by
  have hlen := p.length_of_mem hc b (Or.inr hb)
  have hclean := hfree b (Or.inr hb)
  cases c with
  | delete a => cases hb
  | insert b' =>
    cases hb
    rw [RowChange.writeRow_eq (g := fun i => some (get b i))
      (fun i hi => get?_fill_all p.distinct _ hi) (by rw [hrow]; simp [Change.old])]
    conv_rhs => rw [← project_range hlen]
    refine List.map_congr_left fun i _ => ?_
    show sqlValue (get b i) = value b i
    rw [get_of_not_hasNul hclean, sqlValue_sqlCell]
  | update a b' =>
    cases hb
    have ha := p.length_of_mem hc a (Or.inl rfl)
    have hclean' := hfree a (Or.inl rfl)
    have hrow : row = a := hrow
    subst hrow
    rw [RowChange.writeRow_eq (fun i hi => get?_fill_filter p.distinct
      (fun i => get (interleave row b) (2 * i) != get (interleave row b) (2 * i + 1))
      (fun i => get (interleave row b) (2 * i + 1)) hi) ha]
    conv_rhs => rw [← project_range hlen]
    refine List.map_congr_left fun i _ => ?_
    obtain ⟨h1, h2⟩ := get_interleave (ha.trans hlen.symm) i
    rw [h1, h2, get_of_not_hasNul hclean, get_of_not_hasNul hclean']
    by_cases he : sqlCell (value row i) = sqlCell (value b i)
    · rw [he, if_neg (by simp)]
      exact sqlCell_injective he
    · rw [if_pos (by simpa using he)]
      exact sqlValue_sqlCell _

/-- **A change does what the difference does.** -/
theorem applyTo_toChange {rows : List (Row String)}
    (hrows : ∀ r ∈ rows, r.length = p.t.getColumnNames.length) :
    (p.toChange c).applyTo p.t.getColumnNames rows = c.apply rows := by
  cases c with
  | insert b =>
    have hw :
      (p.toChange (.insert b)).writeRow p.t.getColumnNames (p.t.getColumnNames.map fun _ => none) =
      b := writeRow_toChange hc hfree rfl rfl
    exact congrArg (fun r => rows ++ [r]) hw
  | update a b =>
    refine List.map_congr_left fun row hr => ?_
    by_cases he : row = a
    · rw [if_pos ((asksFor_toChange hc hfree rfl (hrows row hr)).2 he), if_pos he]
      exact writeRow_toChange hc hfree rfl he
    · rw [if_neg (mt (asksFor_toChange hc hfree rfl (hrows row hr)).1 he), if_neg he]
  | delete a =>
    refine List.filter_congr fun row hr => ?_
    have := asksFor_toChange hc hfree rfl (hrows row hr)
    by_cases he : row = a
    · rw [this.2 he]
      simp [he]
    · rw [Bool.eq_false_iff.2 (mt this.1 he)]
      simp [he]

end

theorem length_apply {c : Change (Row String)} (hc : c ∈ p.differences) {rows : List (Row String)}
    (hrows : ∀ r ∈ rows, r.length = p.t.getColumnNames.length) :
    ∀ r ∈ c.apply rows, r.length = p.t.getColumnNames.length := by
  have hlen := p.length_of_mem hc
  cases c with
  | insert b =>
    exact fun r hr => (List.mem_append.1 hr).elim (hrows r) fun h =>
      List.mem_singleton.1 h ▸ hlen b (Or.inr rfl)
  | update a b =>
    intro r hr
    obtain ⟨row, hrow, rfl⟩ := List.mem_map.1 hr
    split
    · exact hlen b (Or.inr rfl)
    · exact hrows row hrow
  | delete a => exact fun r hr => hrows r (List.mem_filter.1 hr).1

theorem length_applyTo {rc : RowChange} {names : List String} {rows : List (Row String)}
    (hrows : ∀ r ∈ rows, r.length = names.length) :
    ∀ r ∈ rc.applyTo names rows, r.length = names.length := by
  unfold RowChange.applyTo
  split
  · intro r hr
    rcases List.mem_append.1 hr with hr | hr
    · exact hrows r hr
    · rw [List.mem_singleton.1 hr]
      exact RowChange.length_writeRow (by simp)
  · intro r hr
    obtain ⟨row, hrow, rfl⟩ := List.mem_map.1 hr
    split
    · exact RowChange.length_writeRow (hrows row hrow)
    · exact hrows row hrow
  · exact fun r hr => hrows r (List.mem_filter.1 hr).1
  · exact hrows

/-- All changes together. -/
theorem applyAllTo_toChange {cs : List (Change (Row String))} (hcs : ∀ c ∈ cs, c ∈ p.differences)
    (hfree : ∀ c ∈ cs, ∀ r, c.old = some r ∨ c.new = some r → ¬ hasNul r) {rows : List (Row String)}
    (hrows : ∀ r ∈ rows, r.length = p.t.getColumnNames.length) :
    RowChange.applyAllTo p.t.getColumnNames (cs.map p.toChange) rows = Change.applyAll cs rows := by
  induction cs generalizing rows with
  | nil => rfl
  | cons c cs ih =>
    have hc := hcs c List.mem_cons_self
    have hstep := applyTo_toChange hc (hfree c List.mem_cons_self) hrows
    show RowChange.applyAllTo _ (cs.map p.toChange) ((p.toChange c).applyTo _ rows) =
      Change.applyAll cs (c.apply rows)
    rw [hstep]
    exact ih (fun d hd => hcs d (List.mem_cons_of_mem _ hd))
      (fun d hd => hfree d (List.mem_cons_of_mem _ hd))
      (p.length_apply hc hrows)

/-- Rows with an end mark, after all changes. -/
theorem mem_applyAllTo {cs : List (Change (Row String))} (hcs : ∀ c ∈ cs, c ∈ p.differences)
    {rows : List (Row String)}
    (hrows : ∀ r ∈ rows, r.length = p.t.getColumnNames.length) {r : Row String} (hr : hasNul r) :
    r ∈ RowChange.applyAllTo p.t.getColumnNames (cs.map p.toChange) rows ↔ r ∈ rows := by
  induction cs generalizing rows with
  | nil => rfl
  | cons c cs ih =>
    have hc := hcs c List.mem_cons_self
    exact (ih (fun d hd => hcs d (List.mem_cons_of_mem _ hd)) (length_applyTo hrows)).trans
      ((p.nulFree_toChange hc).mem_applyTo hrows hr)

variable {p}

/-- When the rows with an end mark are the same, no difference has one. -/
theorem not_hasNul_of_agree (h : p.NulsAgree) {c : Change (Row String)} (hc : c ∈ p.differences) :
    ∀ r, c.old = some r ∨ c.new = some r → ¬ hasNul r := by
  rcases mem_changes.1 hc with ⟨b, rfl, hb, hfresh⟩ | ⟨a, b, rfl, ha, hb, hk, hne⟩ | ⟨a, rfl, ha,
    hgone⟩ <;> rintro r (hr | hr) <;> cases hr <;> intro hn
  · exact hfresh b ((h b hn).2 hb) rfl
  · exact hne (p.keyed_remote a ((h a hn).1 ha) b hb hk)
  · exact hne (p.keyed_t a ha b ((h b hn).2 hb) hk)
  · exact hgone a ((h a hn).1 ha) rfl

theorem complete_of_agree (hp : p.Plain) (h : p.NulsAgree) : p.Complete := by
  have hrows : ∀ r ∈ p.t.rows, r.length = p.t.getColumnNames.length := fun r hr => by
    rw [length_names]
    exact p.rect_t r hr
  intro r
  rw [apply_plain hp]
  rw [p.applyAllTo_toChange (fun c hc => hc) (fun c hc => not_hasNul_of_agree h hc) hrows]
  have hnodup : p.differences.Nodup := nodup_changes p.unique.of_map p.uniqueRemote.of_map
  exact (applyAll_eq_remote_iff p.keyed_t p.keyed_remote (fun c hc => hc) hnodup).2
    (fun c hc => hc) r

theorem minimal_of_agree (hp : p.Plain) (h : p.NulsAgree) : p.Minimal := by
  intro rc hrc r hr hr' hconcerns
  rw [apply_plain hp] at hrc
  obtain ⟨c, hc, rfl⟩ := List.mem_map.1 hrc
  have hfree := not_hasNul_of_agree h hc
  have hlen : r.length = p.t.getColumnNames.length := by
    rw [length_names]
    exact p.rect_t r hr
  rcases mem_changes.1 hc with ⟨b, rfl, hb, hfresh⟩ | ⟨a, b, rfl, ha, hb, hk, hne⟩
    | ⟨a, rfl, ha, hgone⟩
  · have hw : b = r := (writeRow_toChange hc hfree rfl rfl).symm.trans hconcerns
    exact hfresh r hr (by rw [hw])
  · have he : r = a := (asksFor_toChange hc hfree rfl hlen).1 hconcerns
    exact hne (p.keyed_remote a (he ▸ hr') b hb hk)
  · have he : r = a := (asksFor_toChange hc hfree rfl hlen).1 hconcerns
    exact hgone r hr' (by rw [he])

/-- **When the changes are right**: complete, and none too many. -/
theorem right_iff (p : SqlPair) : p.Complete ∧ p.Minimal ↔ p.SameRows ∨
    (p.Plain ∧ p.NulsAgree) := by
  have hrows : ∀ r ∈ p.t.rows, r.length = p.t.getColumnNames.length := fun r hr => by
    rw [length_names]
    exact p.rect_t r hr
  by_cases hp : p.Plain
  · have hagree : p.Complete → p.NulsAgree := fun h r hn => by
      have := h r
      rw [apply_plain hp] at this
      rw [← this, p.mem_applyAllTo (fun c hc => hc) hrows hn]
    constructor
    · rintro ⟨h, -⟩
      exact Or.inr ⟨hp, hagree h⟩
    · rintro (h | ⟨-, h⟩)
      · exact ⟨complete_of_agree hp fun r _ => h r, minimal_of_agree hp fun r _ => h r⟩
      · exact ⟨complete_of_agree hp h, minimal_of_agree hp h⟩
  · have hcomplete : p.Complete ↔ p.SameRows := by
      unfold Complete
      rw [apply_apostrophe hp]
      rfl
    have hminimal : p.Minimal := fun rc hrc => by
      rw [apply_apostrophe hp] at hrc
      cases hrc
    rw [hcomplete]
    exact ⟨fun h => Or.inl h.1, fun h => ⟨h.resolve_right fun h => hp h.1, hminimal⟩⟩

/-- A table with a column named `it's`, against one with another row, in a database with a third
table. -/
def apostropheColumn : SqlPair where
  t := { name := ⟨"main", "t"⟩, columns := [⟨"id", true⟩, ⟨"it's", false⟩], rows := [[some "1", some "a"]] }
  remote :=
    { name := ⟨"main", "u"⟩
      columns := [⟨"id", true⟩, ⟨"it's", false⟩]
      rows := [[some "1", some "b"]] }
  others := [{ name := ⟨"main", "v"⟩, columns := [⟨"id", true⟩], rows := [[some "7"]] }]
  apart := by decide
  sameColumns := rfl
  distinct := by decide
  keyed := by decide
  noBacktick := by decide
  rect := by decide
  unique := by decide
  uniqueRemote := by decide
  notNull := by decide

/-- No change is emitted for it. -/
theorem apostropheColumn_missed :
    SqlCompare.apply apostropheColumn.db apostropheColumn.t apostropheColumn.remote = (true, []) ∧
      ¬ (apostropheColumn.Complete ∧ apostropheColumn.Minimal) := by
  have hnone : SqlCompare.apply apostropheColumn.db apostropheColumn.t apostropheColumn.remote =
    (true, []) := by
    decide +kernel
  refine ⟨hnone, fun h => ?_⟩
  have := (h.1 [some "1", some "a"]).1 (by rw [hnone]; decide)
  revert this
  decide

end SqlPair

end Coopy
