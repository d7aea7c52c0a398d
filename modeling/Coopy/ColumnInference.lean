import Coopy.ColumnRenames
import Coopy.PatchColumnNames

/-!
# Which column changes are guessed right

A single insertion, deletion, move or rename turns a list of distinct names into another.  From
the two lists `PatchColumnNames` puts an `OrderChange` together, and `SheetPatcher` applies it.
For a move behind other columns the identity is put one place too few, unless it goes to the end;
a move to the left by one column is taken for one of its neighbour to the right.

    the change is told and carried out as meant ↔ Inferable                 (inferred_iff)
-/

namespace Coopy

open Lib

/-- A change of one column of the list, to another list of distinct names. -/
inductive ColumnEdit (names : List String) where
  | insert (k : Nat) (name : String) (hk : k ≤ names.length) (hnew : name ∉ names)
  | delete (i : Nat) (hi : i < names.length)
  | move (i k : Nat) (hi : i < names.length) (hk : k < names.length) (hne : i ≠ k)
  | rename (i : Nat) (name : String) (hi : i < names.length) (hnew : name ∉ names)

namespace ColumnEdit

variable {names : List String} {α β : Type}

def mode : ColumnEdit names → OrderChangeMode
  | insert .. => .insert
  | delete .. => .delete
  | move .. => .move
  | rename .. => .rename

/-- The name a column line gives for the column. -/
def subject : ColumnEdit names → String
  | insert _ name _ _ => name
  | delete i _ => names.getD i ""
  | move i _ _ _ _ => names.getD i ""
  | rename _ name _ _ => name

/-- The list of names after the change. -/
def target : ColumnEdit names → List String
  | insert k name _ _ => names.insertIdx k name
  | delete i _ => names.eraseIdx i
  | move i k _ _ _ => (names.eraseIdx i).insertIdx k (names.getD i "")
  | rename i name _ _ => names.set i name

/-- What goes with the columns goes to these places; a new column gets `new`. -/
def place (new : α) (row : List α) : ColumnEdit names → List α
  | insert k _ _ _ => row.insertIdx k new
  | delete i _ => row.eraseIdx i
  | move i k _ _ _ => (row.eraseIdx i).insertIdx k (row.getD i new)
  | rename .. => row

/-- The place each column had before the change, if it was there. -/
def origin (e : ColumnEdit names) : List (Option Nat) :=
  e.place none ((List.range names.length).map some)

/-- The moves that are guessed right: to the left by two columns or more, or with the last place at
one end and, to the left, over one column. -/
def Inferable : ColumnEdit names → Prop
  | move i k _ _ _ => k + 1 < i ∨ max i k + 1 = names.length
  | _ => True

instance : DecidablePred (@Inferable names) := fun e => by
  cases e <;> unfold Inferable <;> infer_instance

/-! ## Places -/

theorem map_place (f : α → β) (new : α) (row : List α) (e : ColumnEdit names) :
    (e.place new row).map f = e.place (f new) (row.map f) := by
  cases e with
  | insert k name hk hnew => exact List.map_insertIdx ..
  | delete i hi => exact (List.eraseIdx_map ..).symm
  | move i k hi hk hne =>
    show ((row.eraseIdx i).insertIdx k (row.getD i new)).map f =
      ((row.map f).eraseIdx i).insertIdx k ((row.map f).getD i (f new))
    rw [List.map_insertIdx, List.eraseIdx_map, List.getD_map]
  | rename i name hi hnew => rfl

/-- What is at a place after the change was at its origin before. -/
theorem place_eq_map (new : α) {row : List α} (hrow : row.length = names.length)
    (e : ColumnEdit names) :
    e.place new row = e.origin.map fun o => o.elim new fun i => row.getD i new := by
  have hrange : row = ((List.range names.length).map some).map fun o => o.elim new fun i =>
    row.getD i new := by
    refine List.ext_getElem (by simp [hrow]) fun i h₁ h₂ => ?_
    rw [List.getElem_map, List.getElem_map, List.getElem_range, Option.elim_some,
      List.getD_eq_getElem _ _ h₁]
  unfold origin
  rw [map_place]
  conv_lhs => rw [hrange]
  rfl

theorem length_place (new : α) {row : List α} (hrow : row.length = names.length)
    (e : ColumnEdit names) : (e.place new row).length = e.target.length := by
  cases e with
  | insert k name hk hnew =>
    show (row.insertIdx k new).length = (names.insertIdx k name).length
    rw [List.length_insertIdx, List.length_insertIdx, hrow]
  | delete i hi =>
    show (row.eraseIdx i).length = (names.eraseIdx i).length
    rw [List.length_eraseIdx, List.length_eraseIdx, hrow]
  | move i k hi hk hne =>
    show ((row.eraseIdx i).insertIdx k _).length = ((names.eraseIdx i).insertIdx k _).length
    rw [List.length_insertIdx, List.length_insertIdx, List.length_eraseIdx,
      List.length_eraseIdx, hrow]
  | rename i name hi hnew => exact hrow.trans (List.length_set ..).symm

theorem perm_moved {row : List α} {i k : Nat} (hi : i < row.length) (hk : k < row.length)
    (new : α) : ((row.eraseIdx i).insertIdx k (row.getD i new)).Perm row := by
  have hlen : (row.eraseIdx i).length = row.length - 1 := List.length_eraseIdx_of_lt hi
  rw [List.getD_eq_getElem _ _ hi]
  exact (List.perm_insertIdx _ _ (by omega)).trans (List.getElem_cons_eraseIdx_perm hi)

theorem nodup_place {new : α} {row : List α} (hrow : row.length = names.length) (hn : row.Nodup)
    (hnew : new ∉ row) (e : ColumnEdit names) : (e.place new row).Nodup := by
  cases e with
  | insert k name hk _ =>
    exact (List.perm_insertIdx _ _ (hrow ▸ hk)).nodup_iff.2 (List.nodup_cons.2 ⟨hnew, hn⟩)
  | delete i hi => exact hn.eraseIdx i
  | move i k hi hk hne => exact (perm_moved (hrow ▸ hi) (hrow ▸ hk) new).nodup_iff.2 hn
  | rename i name hi _ => exact hn

theorem mem_place {new : α} {row : List α} (hrow : row.length = names.length)
    {e : ColumnEdit names} {x : α} (h : x ∈ e.place new row) : x = new ∨ x ∈ row := by
  cases e with
  | insert k name hk hnew => exact List.eq_or_mem_of_mem_insertIdx h
  | delete i hi => exact Or.inr (List.mem_of_mem_eraseIdx h)
  | move i k hi hk hne => exact Or.inr ((perm_moved (hrow ▸ hi) (hrow ▸ hk) new).mem_iff.1 h)
  | rename i name hi hnew => exact Or.inr h

theorem lt_of_origin {e : ColumnEdit names} {i j : Nat} (h : e.origin[j]? = some (some i)) :
    i < names.length := by
  have hmem : some i ∈ e.origin := List.mem_of_getElem? h
  rcases mem_place (by simp) hmem with hnone | hin
  · cases hnone
  · obtain ⟨i', hi', he⟩ := List.mem_map.1 hin
    exact Option.some.inj he ▸ List.mem_range.1 hi'

/-- The identity of the column that changes. -/
def identity (new : α) (row : List α) : ColumnEdit names → α
  | insert _ _ _ _ => new
  | delete i _ => row.getD i new
  | move i _ _ _ _ => row.getD i new
  | rename i _ _ _ => row.getD i new

/-- Its place before the change, and its place after it. -/
def places : ColumnEdit names → Nat × Nat
  | insert k _ _ _ => (names.length, k)
  | delete i _ => (i, names.length)
  | move i k _ _ _ => (i, k)
  | rename i _ _ _ => (i, i)

theorem getElem?_identity {new : α} {row : List α} (hrow : row.length = names.length)
    {e : ColumnEdit names}
    (h : e.mode ≠ .insert) : row[e.places.1]? = some (e.identity new row) := by
  have hat : ∀ {i}, i < names.length → row[i]? = some (row.getD i new) := fun hi => by
    rw [List.getD_eq_getElem _ _ (hrow ▸ hi), List.getElem?_eq_getElem (hrow ▸ hi)]
  cases e with
  | insert k name hk hnew => exact absurd rfl h
  | delete i hi => exact hat hi
  | move i k hi hk hne => exact hat hi
  | rename i name hi hnew => exact hat hi

theorem getElem?_place_identity {new : α} {row : List α} (hrow : row.length = names.length)
    {e : ColumnEdit names}
    (h : e.mode ≠ .delete) : (e.place new row)[e.places.2]? = some (e.identity new row) := by
  have hself : ∀ {l : List α} {k x}, k ≤ l.length → (l.insertIdx k x)[k]? = some x := fun hk => by
    rw [List.getElem?_insertIdx_self, if_pos hk]
  cases e with
  | insert k name hk hnew => exact hself (hrow ▸ hk)
  | delete i hi => exact absurd rfl h
  | move i k hi hk hne =>
    have hlen : (row.eraseIdx i).length = row.length - 1 := List.length_eraseIdx_of_lt (hrow ▸ hi)
    exact hself (by omega)
  | rename i name hi hnew =>
    exact getElem?_identity hrow (e := .rename i name hi hnew) OrderChangeMode.noConfusion

/-- A survivor has at its new place what it had before. -/
theorem getElem?_place {new : α} {row : List α} (hrow : row.length = names.length)
    {e : ColumnEdit names} {i j : Nat}
    (h : e.origin[j]? = some (some i)) : (e.place new row)[j]? = row[i]? := by
  have hi : i < row.length := hrow ▸ lt_of_origin h
  rw [place_eq_map new hrow, List.getElem?_map, h, Option.map_some, Option.elim_some,
    List.getD_eq_getElem _ _ hi, List.getElem?_eq_getElem hi]

end ColumnEdit

/-! ## What a change says -/

/-- Names and identities as earlier changes left them. -/
structure DistinctColumns extends PatchColumnNames where
  lst_nodup : lst.Nodup
  indices_nodup : indices.Nodup
  parallel : indices.length = lst.length

/-- The change is the edit: it says so, the surviving columns keep their identity, and a sheet with
the columns before gets those after, each survivor with its cells.  Where a header is assumed, these
are the cells below it. -/
structure Told {names : List String} (indices : List Int) (e : ColumnEdit names)
    (change : OrderChange) : Prop where
  mode : change.mode = e.mode
  before : change.namesBefore = names ∧ change.indicesBefore = indices
  after : change.namesAfter = e.target ∧ change.indicesAfter.length = e.target.length ∧
    change.indicesAfter.Nodup
  survivors : ∀ j i : Nat, e.origin[j]? = some (some i) →
    change.indicesAfter[j]? = change.indicesBefore[i]?
  carried :
    ∀ (sheet : TypedSheet SheetCell) (header : Bool) (headerHeight : TypedSheet SheetCell → Nat),
    (∀ sheet, headerHeight sheet ≤ sheet.height) → sheet.w = names.length →
    (∀ row ∈ sheet.arr, row.length = sheet.w) →
    ∃ p r, SheetPatcher.attach sheet names header = some p ∧
      (p.titled sheet headerHeight).changeColumn change = some r ∧
      r.1.activeCol.arr = [e.target] ∧ r.1.sheet.w = e.target.length ∧
      ∀ j i : Nat, e.origin[j]? = some (some i) →
        ∀ y, (if header then headerHeight sheet else 0) ≤ y →
          (r.1.sheet.arr[y]?).map (fun row => row.getD j sheet.zero) =
            (sheet.arr[y]?).map fun row => row.getD i sheet.zero

namespace SheetPatcher

/-- `changeColumn` goes by the names and the places of the subject. -/
theorem changeColumn_congr {p : SheetPatcher} {change change' : OrderChange}
    (hmode : change.mode = change'.mode) (hbefore : change.namesBefore = change'.namesBefore)
    (hafter : change.namesAfter = change'.namesAfter)
    (hlen : change.indicesAfter.length = change'.indicesAfter.length)
    (hfrom : change.mode ≠ .insert → change.identityToIndex change.subject =
      change'.identityToIndex change'.subject)
    (hto : change.mode ≠ .delete →
      change.identityToIndexAfter change.subject = change'.identityToIndexAfter change'.subject) :
    p.changeColumn change = p.changeColumn change' := by
  have hnext : p.nextCol change = p.nextCol change' := by
    unfold nextCol
    rw [hlen, hafter]
  unfold changeColumn
  rw [← hmode]
  cases hm : change.mode with
  | delete =>
    unfold deleteCol
    rw [hbefore, hfrom (by rw [hm]; exact OrderChangeMode.noConfusion)]
  | insert =>
    unfold insertCol
    rw [hafter, hnext, hto (by rw [hm]; exact OrderChangeMode.noConfusion)]
  | move =>
    unfold moveCol
    rw [hafter, hnext, hto (by rw [hm]; exact OrderChangeMode.noConfusion)]
  | rename =>
    unfold renameCol
    rw [hbefore, hafter, hfrom (by rw [hm]; exact OrderChangeMode.noConfusion),
      hto (by rw [hm]; exact OrderChangeMode.noConfusion)]

end SheetPatcher

theorem indexIn_of_getElem? {ids : List Int} (hn : ids.Nodup) {i : Nat} {id : Int}
    (h : ids[i]? = some id) : OrderChange.indexIn ids id = i := by
  obtain ⟨hi, rfl⟩ := List.getElem?_eq_some_iff.1 h
  unfold OrderChange.indexIn
  rw [if_pos (List.getElem_mem _), hn.idxOf_getElem]

namespace ColumnEdit

variable {names : List String} {e : ColumnEdit names} {change : OrderChange}

/-- The change puts the identities where the edit puts the columns; `new` is that of a new
column. -/
structure Follows (new : Int) (indices : List Int) (e : ColumnEdit names)
    (change : OrderChange) : Prop where
  mode : change.mode = e.mode
  namesBefore : change.namesBefore = names
  indicesBefore : change.indicesBefore = indices
  namesAfter : change.namesAfter = e.target
  indicesAfter : change.indicesAfter = e.place new indices
  subject : change.subject = e.identity new indices
  distinct : indices.Nodup
  fresh : new ∉ indices
  parallel : indices.length = names.length

namespace Follows

variable {new : Int} {indices : List Int}

theorem identityToIndex (h : Follows new indices e change) (hm : change.mode ≠ .insert) :
    change.identityToIndex change.subject = e.places.1 := by
  unfold OrderChange.identityToIndex
  rw [h.indicesBefore, h.subject]
  exact indexIn_of_getElem? h.distinct (getElem?_identity h.parallel (h.mode ▸ hm))

theorem identityToIndexAfter (h : Follows new indices e change) (hm : change.mode ≠ .delete) :
    change.identityToIndexAfter change.subject = e.places.2 := by
  unfold OrderChange.identityToIndexAfter
  rw [h.indicesAfter, h.subject]
  exact indexIn_of_getElem? (nodup_place h.parallel h.distinct h.fresh e)
    (getElem?_place_identity h.parallel (h.mode ▸ hm))

/-- The patcher does the same for any identities. -/
theorem changeColumn_eq (h : Follows new indices e change) {new' : Int} {indices' : List Int}
    {change' : OrderChange} (h' : Follows new' indices' e change') (p : SheetPatcher) :
    p.changeColumn change = p.changeColumn change' := by
  have hmode : change.mode = change'.mode := h.mode.trans h'.mode.symm
  refine SheetPatcher.changeColumn_congr hmode (h.namesBefore.trans h'.namesBefore.symm)
    (h.namesAfter.trans h'.namesAfter.symm) ?_ (fun hm => ?_) (fun hm => ?_)
  · rw [h.indicesAfter, h'.indicesAfter, length_place _ h.parallel, length_place _ h'.parallel]
  · rw [h.identityToIndex hm, h'.identityToIndex (hmode ▸ hm)]
  · rw [h.identityToIndexAfter hm, h'.identityToIndexAfter (hmode ▸ hm)]

/-- The places themselves, as identities. -/
def positions (n : Nat) : List Int := (List.range n).map Int.ofNat

theorem nodup_positions (n : Nat) : (positions n).Nodup :=
  List.nodup_range.map fun _ _ => Int.ofNat.inj

theorem getElem?_positions {n i : Nat} (hi : i < n) : (positions n)[i]? = some (i : Int) := by
  unfold positions
  rw [List.getElem?_map, List.getElem?_range hi]
  rfl

theorem length_positions (n : Nat) : (positions n).length = n := by simp [positions]

section
variable {sheet : TypedSheet SheetCell} {p : SheetPatcher}

/-- The columns of a patcher that shows those that stay. -/
theorem column_eq {n i j : Nat} {ids : List Int} {lst : List String}
    (h : SheetPatcher.Shows sheet.arr p ids lst)
    (hw : sheet.w = n) (hrect : ∀ row ∈ sheet.arr, row.length = sheet.w) (hi : i < n)
    (hj : ids[j]? = some (i : Int)) :
    p.sheet.arr.map (fun row => row.getD j sheet.zero) = sheet.arr.map fun row =>
    row.getD i sheet.zero := by
  have hcol := h.column hw hrect hi (List.mem_of_getElem? hj)
  obtain ⟨hlt, hget⟩ := List.getElem?_eq_some_iff.1 hj
  rwa [← hget, h.ids_nodup.idxOf_getElem] at hcol

theorem eq_renamed {i : Nat} {name : String} (hn : names.Nodup) (hi : i < names.length) :
    renameFirst names (names[i], name) = names.set i name := by
  unfold renameFirst
  rw [hn.idxOf_getElem]

/-- With the places as identities the patcher does what the edit says. -/
theorem replay (h : Follows (-1) (positions names.length) e change)
    (hs : SheetPatcher.Shows sheet.arr p (positions names.length) names)
    (hw : sheet.w = names.length) (hrect : ∀ row ∈ sheet.arr, row.length = sheet.w) :
    ∃ r, p.changeColumn change = some r ∧ r.1.activeCol.arr = [e.target] ∧
    r.1.sheet.w = e.target.length ∧
      ∀ j i : Nat, e.origin[j]? = some (some i) →
        r.1.sheet.arr.map (fun row => row.getD j sheet.zero) = sheet.arr.map fun row =>
        row.getD i sheet.zero := by
  have hlen := length_positions names.length
  -- the columns of a patcher that shows what the edit makes of the places
  have hshown : (∃ r, p.changeColumn change = some r ∧
        SheetPatcher.Shows sheet.arr r.1 (e.place (-1) (positions names.length)) e.target) →
      ∃ r, p.changeColumn change = some r ∧ r.1.activeCol.arr = [e.target] ∧
        r.1.sheet.w = e.target.length ∧ ∀ j i : Nat, e.origin[j]? = some (some i) →
          r.1.sheet.arr.map (fun row => row.getD j sheet.zero) = sheet.arr.map fun row =>
          row.getD i sheet.zero := by
    rintro ⟨r, hr, hs'⟩
    refine ⟨r, hr, hs'.active.1, hs'.sheet_w.trans hs'.parallel.symm, fun j i hji => ?_⟩
    refine column_eq hs' hw hrect (lt_of_origin hji) ?_
    rw [getElem?_place hlen hji, getElem?_positions (lt_of_origin hji)]
  have hmem : ∀ {i}, i < names.length → (positions names.length).getD i (-1) = (i : Int) :=
    fun hi => by
    rw [List.getD_eq_getElem?_getD, getElem?_positions hi, Option.getD_some]
  cases e with
  | insert k name hk hnew =>
    have hsub : change.subject = -1 := h.subject
    have hr := hs.insertCol change h.mode (by rw [hsub]; exact h.indicesAfter) h.namesAfter
      (by rw [hlen]; exact hk) (by rw [hsub]; exact h.fresh) (by omega) hnew
    rw [hsub] at hr
    exact hshown hr
  | delete i hi =>
    have hsub : change.subject = i := h.subject.trans (hmem hi)
    have hidx : (positions names.length).idxOf change.subject = i := by
      obtain ⟨hlt, hget⟩ := List.getElem?_eq_some_iff.1 (getElem?_positions hi)
      rw [hsub, ← hget, (nodup_positions _).idxOf_getElem]
    have hr := hs.deleteCol change h.mode h.indicesBefore h.namesBefore
      (by rw [hsub]; exact List.mem_of_getElem? (getElem?_positions hi))
    rw [hidx] at hr
    exact hshown hr
  | move i k hi hk hne =>
    have hsub : change.subject = i := h.subject.trans (hmem hi)
    have hidx : (positions names.length).idxOf change.subject = i := by
      obtain ⟨hlt, hget⟩ := List.getElem?_eq_some_iff.1 (getElem?_positions hi)
      rw [hsub, ← hget, (nodup_positions _).idxOf_getElem]
    have hafter :
      change.indicesAfter = ((positions names.length).eraseIdx i).insertIdx k change.subject :=
      h.indicesAfter.trans (by rw [h.subject]; rfl)
    obtain ⟨r, hr, hs'⟩ := hs.moveCol change (k := k) h.mode
      (by rw [hsub]; exact List.mem_of_getElem? (getElem?_positions hi)) (by rw [hlen]; exact hk)
      (by rw [hidx]; exact hafter) (by rw [hidx]; exact h.namesAfter)
    rw [h.indicesAfter, h.namesAfter] at hs'
    exact hshown ⟨r, hr, hs'⟩
  | rename i name hi hnew =>
    have hsays : SheetPatcher.Bears.Says change (names[i], name) := by
      have hset : i < (names.set i name).length := by rwa [List.length_set]
      refine ⟨h.mode, ?_, ?_⟩
      · rw [h.identityToIndex (by rw [h.mode]; exact OrderChangeMode.noConfusion), h.namesBefore]
        exact SheetPatcher.Shows.nameIn_natCast names hi
      · rw [h.identityToIndexAfter (by rw [h.mode]; exact OrderChangeMode.noConfusion),
          h.namesAfter]
        refine (SheetPatcher.Shows.nameIn_natCast (names.set i name) hset).trans ?_
        rw [List.getElem_set_self]
    obtain ⟨r, hr, hsheet, hbears⟩ := hs.bears.changeColumn hsays (List.getElem_mem hi)
    rw [eq_renamed hs.names_nodup hi] at hbears
    refine ⟨r, hr, hbears.active.1, hbears.sheet_w, fun j k hjk => ?_⟩
    have hat : (place (-1) (positions names.length) (rename i name hi hnew))[j]? =
      (positions names.length)[k]? := getElem?_place hlen hjk
    rw [hsheet]
    exact column_eq hs hw hrect (lt_of_origin hjk)
      (hat.trans (getElem?_positions (lt_of_origin hjk)))

end

/-- A change that puts the identities where the edit puts the columns is told right. -/
theorem told (h : Follows new indices e change) (hn : names.Nodup) : Told indices e change := by
  refine ⟨h.mode, ⟨h.namesBefore, h.indicesBefore⟩, ⟨h.namesAfter, ?_, ?_⟩, fun j i hji => ?_,
    fun sheet header f hfits hw hrect => ?_⟩
  · rw [h.indicesAfter, length_place _ h.parallel]
  · rw [h.indicesAfter]
    exact nodup_place h.parallel h.distinct h.fresh e
  · rw [h.indicesAfter, h.indicesBefore]
    exact getElem?_place h.parallel hji
  · obtain ⟨p, hp, hin⟩ := Merger.attach_inStep [] hn hw hrect header
    let change' : OrderChange :=
      { indicesBefore := positions names.length
        namesBefore := names
        indicesAfter := e.place (-1) (positions names.length)
        namesAfter := e.target
        subject := e.identity (-1) (positions names.length)
        mode := e.mode }
    have hfresh : (-1 : Int) ∉ positions names.length := fun hm => by
      obtain ⟨k, -, hk⟩ := List.mem_map.1 hm
      cases hk
    have h' : Follows (-1) (positions names.length) e change' :=
      ⟨rfl, rfl, rfl, rfl, rfl, rfl, nodup_positions _, hfresh, length_positions _⟩
    obtain ⟨r, hr, hnames, hwidth, hcells⟩ := h'.replay hin.shows hw hrect
    rw [← h.changeColumn_eq h' p] at hr
    obtain ⟨hsheet, hun⟩ := SheetPatcher.attach_sheet hp
    obtain ⟨t, ht, hbelow⟩ := SheetPatcher.changeColumn_titled hun
      (hsheet ▸ TypedSheet.SameBelow.refl (if header then f sheet else 0) sheet)
        (SheetPatcher.attach_titles hp f)
      (hfits sheet) change
    rw [hr] at ht
    have hsame := (hbelow r hr).1
    refine ⟨p, _, hp, ht, hnames, hsame.width.trans hwidth, fun j i hji y hy => ?_⟩
    show (t.arr[y]?).map _ = _
    rw [hsame.getElem? hy, ← List.getElem?_map, ← List.getElem?_map]
    exact congrArg (fun cells => cells[y]?) (hcells j i hji)

end Follows

/-! ## The inferred change -/

open PatchColumnNames

section
variable {α : Type}

/-- An edit with the same outcome is told by the same changes. -/
theorem told_congr {indices : List Int} {e e' : ColumnEdit names} (hmode : e.mode = e'.mode)
    (htarget : e.target = e'.target)
    (horigin : e.origin = e'.origin) (h : Told indices e change) : Told indices e' change := by
  refine ⟨h.mode.trans hmode, h.before, ?_, ?_, fun sheet header f hfits hw hrect => ?_⟩
  · rw [← htarget]
    exact h.after
  · rw [← horigin]
    exact h.survivors
  · rw [← htarget, ← horigin]
    exact h.carried sheet header f hfits hw hrect

/-- A move to the left by one is one of its neighbour to the right. -/
theorem moved_swap {l : List α} {k : Nat} (hk : k + 1 < l.length) (d : α) :
    (l.eraseIdx (k + 1)).insertIdx k (l.getD (k + 1) d) = (l.eraseIdx k).insertIdx (k + 1)
    (l.getD k d) := by
  rw [List.getD_eq_getElem _ _ hk, List.getD_eq_getElem _ _ (by omega)]
  induction l generalizing k with
  | nil => simp at hk
  | cons x l ih =>
    cases k with
    | zero =>
      cases l with
      | nil => simp at hk
      | cons y l => simp
    | succ k =>
      have hk' : k + 1 < l.length := by simpa using hk
      simpa using ih hk'

/-- A list around two of its places. -/
theorem exists_split {l : List α} {i k : Nat} (hik : i ≤ k) (hk : k ≤ l.length) :
    ∃ a b c, l = a ++ b ++ c ∧ a.length = i ∧ a.length + b.length = k := by
  refine ⟨l.take i, (l.drop i).take (k - i), l.drop k, ?_, by simp; omega, by simp; omega⟩
  have hdrop : l.drop k = (l.drop i).drop (k - i) := by
    rw [List.drop_drop]
    congr 1
    omega
  rw [hdrop, List.append_assoc, List.take_append_drop, List.take_append_drop]

/-- A list around the column that goes later. -/
theorem exists_later {l : List α} {i k : Nat} (hik : i < k) (hk : k < l.length) (d : α) :
    ∃ a b c, l = a ++ l.getD i d :: (b ++ c) ∧ a.length = i ∧ a.length + b.length = k ∧
      (l.eraseIdx i).insertIdx k (l.getD i d) = a ++ b ++ l.getD i d :: c := by
  obtain ⟨a, b, c, rfl, rfl, hb⟩ :=
    exists_split (show i ≤ k + 1 by omega) (show k + 1 ≤ l.length by omega)
  obtain ⟨x, b, rfl⟩ := List.exists_cons_of_length_pos (show 0 < b.length by omega)
  have hab : a.length + b.length = k := by
    rw [List.length_cons] at hb
    omega
  have hget : (a ++ x :: b ++ c).getD a.length d = x := by
    rw [List.append_assoc, List.cons_append, getD_append_cons]
  refine ⟨a, b, c, by rw [hget, List.append_assoc, List.cons_append], rfl, hab, ?_⟩
  rw [hget, List.append_assoc, List.cons_append, eraseIdx_append_cons, ← hab, ← List.length_append,
    ← List.append_assoc, insertIdx_append]

/-- A list around the column that goes earlier. -/
theorem exists_earlier {l : List α} {i k : Nat} (hki : k < i) (hi : i < l.length) (d : α) :
    ∃ a b c, l = a ++ b ++ l.getD i d :: c ∧ a.length = k ∧ a.length + b.length = i ∧
      (l.eraseIdx i).insertIdx k (l.getD i d) = a ++ l.getD i d :: (b ++ c) := by
  obtain ⟨a, b, c, rfl, rfl, rfl⟩ := exists_split (Nat.le_of_lt hki) (Nat.le_of_lt hi)
  obtain ⟨x, c, rfl⟩ := List.exists_cons_of_length_pos (show 0 < c.length by simp at hi; omega)
  have hget : (a ++ b ++ x :: c).getD (a.length + b.length) d = x := by
    rw [← List.length_append, getD_append_cons]
  refine ⟨a, b, c, by rw [hget], rfl, rfl, ?_⟩
  rw [hget, ← List.length_append, eraseIdx_append_cons, List.append_assoc, insertIdx_append]

end

/-- What a line gives: `applyTdiff` the name as well, `applyCsv` the lists alone. -/
def nameGiven (named : Bool) (e : ColumnEdit names) : Option String :=
  if named then some e.subject else none

section
variable (prior : DistinctColumns) (given : Option String)

/-- The change inferred for a move to the right: the identity stays one place short of the name. -/
theorem inferChange_later {i k : Nat} (hik : i < k) (hk : k < prior.lst.length) :
    ∃ v, prior.indices[i]? = some v ∧
      inferChange (read ((prior.lst.eraseIdx i).insertIdx k (prior.lst.getD i "")))
      prior.toPatchColumnNames .move given =
        some { indicesBefore := prior.indices
               namesBefore := prior.lst
               indicesAfter := if k + 1 = prior.lst.length then prior.indices.eraseIdx i ++ [v]
                               else (prior.indices.eraseIdx i).insertIdx (k - 1) v
               namesAfter := (prior.lst.eraseIdx i).insertIdx k (prior.lst.getD i "")
               subject := v
               object := v
               mode := .move } := by
  obtain ⟨a, b, c, hl, ha, hab, hmoved⟩ := exists_later hik hk ""
  have hb : b ≠ [] := fun h => by
    rw [h] at hab
    simp at hab
    omega
  have hlast : c = [] ↔ k + 1 = prior.lst.length := by
    have hlen := congrArg List.length hl
    rw [List.length_append, List.length_cons, List.length_append] at hlen
    rw [← List.length_eq_zero_iff]
    omega
  obtain ⟨v, hv, hinfer⟩ :=
    inferMove_later (read (a ++ b ++ prior.lst.getD i "" :: c)) prior.toPatchColumnNames given
    hb rfl hl prior.lst_nodup prior.parallel
  rw [ha] at hv hinfer
  refine ⟨v, hv, ?_⟩
  rw [hmoved]
  unfold inferChange infer
  simp only [hinfer, Option.map_some, hlast, ← hab, ha]
  rfl

/-- The change inferred for a move to the left over two columns or more. -/
theorem inferChange_earlier {i k : Nat} (hki : k + 1 < i) (hi : i < prior.lst.length) :
    ∃ v, prior.indices[i]? = some v ∧
      inferChange (read ((prior.lst.eraseIdx i).insertIdx k (prior.lst.getD i "")))
      prior.toPatchColumnNames .move given =
        some { indicesBefore := prior.indices
               namesBefore := prior.lst
               indicesAfter := (prior.indices.eraseIdx i).insertIdx k v
               namesAfter := (prior.lst.eraseIdx i).insertIdx k (prior.lst.getD i "")
               subject := v
               object := v
               mode := .move } := by
  obtain ⟨a, b, c, hl, ha, hab, hmoved⟩ := exists_earlier (Nat.lt_of_succ_lt hki) hi ""
  obtain ⟨v, hv, hinfer⟩ :=
    inferMove_earlier (read (a ++ prior.lst.getD i "" :: (b ++ c))) prior.toPatchColumnNames given
      (show 2 ≤ b.length by omega) rfl hl prior.lst_nodup prior.parallel
  rw [hab] at hv hinfer
  refine ⟨v, hv, ?_⟩
  rw [hmoved]
  unfold inferChange infer
  simp only [hinfer, Option.map_some, ha]
  rfl

/-- A move that the inference gets right. -/
theorem follows_move {i k : Nat} (hi : i < prior.lst.length)
    (hk : k < prior.lst.length) (hne : i ≠ k) (h : k + 1 < i ∨ i < k ∧ k + 1 = prior.lst.length) :
    ∃ change, inferChange (read (ColumnEdit.move i k hi hk hne).target) prior.toPatchColumnNames
    .move given = some change ∧
      Follows (freshIndex prior.indices) prior.indices (.move i k hi hk hne) change := by
  have hidx : ∀ {v}, prior.indices[i]? = some v →
    v = prior.indices.getD i (freshIndex prior.indices) := fun hv => by
    rw [List.getD_eq_getElem?_getD, hv, Option.getD_some]
  have hnew := freshIndex_notMem prior.indices
  rcases h with hki | ⟨hik, hend⟩
  · obtain ⟨v, hv, hchange⟩ := inferChange_earlier prior given hki hi
    refine ⟨_, hchange, rfl, rfl, rfl, rfl, ?_, hidx hv, prior.indices_nodup, hnew, prior.parallel⟩
    rw [hidx hv]
    rfl
  · obtain ⟨v, hv, hchange⟩ := inferChange_later prior given hik hk
    refine ⟨_, hchange, rfl, rfl, rfl, rfl, ?_, hidx hv, prior.indices_nodup, hnew, prior.parallel⟩
    have hlen : (prior.indices.eraseIdx i).length = k := by
      rw [List.length_eraseIdx_of_lt (by rw [prior.parallel]; exact hi), prior.parallel]
      omega
    show (if k + 1 = prior.lst.length then prior.indices.eraseIdx i ++ [v] else _) =
      (prior.indices.eraseIdx i).insertIdx k _
    rw [if_pos hend, ← hidx hv, ← hlen, List.insertIdx_length_self]

theorem follows_insert {k : Nat} {name : String} (hk : k ≤ prior.lst.length)
    (hnew : name ∉ prior.lst) (hgiven : prior.lst = [] → ∀ y, given = some y → y = name) :
    ∃ change, inferChange (read (ColumnEdit.insert k name hk hnew).target) prior.toPatchColumnNames
    .insert given = some change ∧
      Follows (freshIndex prior.indices) prior.indices (.insert k name hk hnew) change := by
  have htarget : (ColumnEdit.insert k name hk hnew).target = prior.lst.take k ++ name ::
    prior.lst.drop k := Merger.insertIdx_eq_take_drop name k prior.lst hk
  have hinfer :=
    inferInsert_eq (read (ColumnEdit.insert k name hk hnew).target) prior.toPatchColumnNames given
    htarget
      (List.take_append_drop k _).symm hnew prior.parallel hgiven
  rw [List.length_take, Nat.min_eq_left hk] at hinfer
  unfold inferChange infer
  simp only [hinfer]
  exact ⟨_, rfl, rfl, rfl, rfl, rfl, rfl, rfl, prior.indices_nodup, freshIndex_notMem _,
    prior.parallel⟩

theorem follows_delete {i : Nat} (hi : i < prior.lst.length) :
    ∃ change, inferChange (read (ColumnEdit.delete i hi).target) prior.toPatchColumnNames .delete
    given = some change ∧
      Follows (freshIndex prior.indices) prior.indices (.delete i hi) change := by
  have htarget : (ColumnEdit.delete i hi).target = prior.lst.take i ++ prior.lst.drop (i + 1) :=
    List.eraseIdx_eq_take_drop_succ ..
  have hprior : prior.lst = prior.lst.take i ++ prior.lst[i] :: prior.lst.drop (i + 1) := by
    rw [List.getElem_cons_drop, List.take_append_drop]
  have hnot : prior.lst[i] ∉ prior.lst.drop (i + 1) := by
    have hn := prior.lst_nodup
    rw [hprior] at hn
    exact (List.nodup_cons.1 (List.nodup_append.1 hn).2.1).1
  obtain ⟨v, hv, hinfer⟩ :=
    inferDelete_eq (read (ColumnEdit.delete i hi).target) prior.toPatchColumnNames given htarget
    hprior hnot prior.parallel
  rw [List.length_take, Nat.min_eq_left (Nat.le_of_lt hi)] at hv hinfer
  unfold inferChange infer
  simp only [hinfer]
  refine ⟨_, rfl, rfl, rfl, rfl, rfl, rfl, ?_, prior.indices_nodup, freshIndex_notMem _,
    prior.parallel⟩
  show v = prior.indices.getD i _
  rw [List.getD_eq_getElem?_getD, hv, Option.getD_some]

theorem follows_rename {i : Nat} {name : String} (hi : i < prior.lst.length)
    (hnew : name ∉ prior.lst) :
    ∃ change, inferChange (read (ColumnEdit.rename i name hi hnew).target) prior.toPatchColumnNames
    .rename given = some change ∧
      Follows (freshIndex prior.indices) prior.indices (.rename i name hi hnew) change := by
  have htarget : (ColumnEdit.rename i name hi hnew).target = prior.lst.take i ++ name ::
    prior.lst.drop (i + 1) := by
    show prior.lst.set i name = _
    rw [List.set_eq_take_append_cons_drop, if_pos hi]
  have hprior : prior.lst = prior.lst.take i ++ prior.lst[i] :: prior.lst.drop (i + 1) := by
    rw [List.getElem_cons_drop, List.take_append_drop]
  have hne : name ≠ prior.lst[i] := fun h => hnew (h ▸ List.getElem_mem hi)
  obtain ⟨v, hv, hinfer⟩ :=
    inferRename_eq (read (ColumnEdit.rename i name hi hnew).target) prior.toPatchColumnNames given
    htarget hprior hne prior.parallel
  rw [List.length_take, Nat.min_eq_left (Nat.le_of_lt hi)] at hv
  unfold inferChange infer
  simp only [hinfer]
  refine ⟨_, rfl, rfl, rfl, rfl, rfl, rfl, ?_, prior.indices_nodup, freshIndex_notMem _,
    prior.parallel⟩
  show v = prior.indices.getD i _
  rw [List.getD_eq_getElem?_getD, hv, Option.getD_some]

/-- The change a move gives when it falls short: the subject is not where the name is. -/
theorem not_told_later {i k : Nat} (hik : i < k) (hend : k + 1 < prior.lst.length)
    {e : ColumnEdit prior.lst}
    (htarget : e.target = (prior.lst.eraseIdx i).insertIdx k (prior.lst.getD i ""))
    (horigin : e.origin[k]? = some (some i)) :
    ∃ change, inferChange (read e.target) prior.toPatchColumnNames .move given = some change ∧
    ¬Told prior.indices e change := by
  obtain ⟨v, hv, hchange⟩ := inferChange_later prior given hik (Nat.lt_of_succ_lt hend)
  rw [← htarget] at hchange
  refine ⟨_, hchange, fun h => ?_⟩
  have hlen := prior.parallel
  have hi : i < prior.indices.length := by omega
  -- the identity at the place of the name was left there by another column
  have hat := h.survivors k i horigin
  rw [if_neg (by omega), hv, List.getElem?_insertIdx_of_gt (by omega)] at hat
  have hvi : prior.indices[i] = v := Option.some.inj ((List.getElem?_eq_getElem hi).symm.trans hv)
  have hnot : prior.indices[i] ∉ prior.indices.eraseIdx i := by
    have hperm := List.getElem_cons_eraseIdx_perm hi
    exact (List.nodup_cons.1 (hperm.nodup_iff.2 prior.indices_nodup)).1
  rw [hvi] at hnot
  exact hnot (List.mem_of_getElem? hat)

end

theorem origin_move {i k : Nat} {hi : i < names.length} {hk : k < names.length} {hne : i ≠ k} :
    (ColumnEdit.move i k hi hk hne).origin[k]? = some (some i) := by
  have hrow : ((List.range names.length).map some).getD i none = some i := by
    rw [List.getD_eq_getElem _ _ (by simpa using hi), List.getElem_map, List.getElem_range]
  have hlen : (((List.range names.length).map some).eraseIdx i).length = names.length - 1 := by
    rw [List.length_eraseIdx_of_lt (by simpa using hi), List.length_map, List.length_range]
  show ((((List.range names.length).map some).eraseIdx i).insertIdx k
    (((List.range names.length).map some).getD i none))[k]? = _
  rw [hrow, List.getElem?_insertIdx_self, if_pos (by omega)]

/-- A move to the left by one has the outcome of the move of its neighbour. -/
theorem move_swap {k : Nat} (hk : k + 1 < names.length) (hk' : k < names.length) (hne : k + 1 ≠ k) :
    (ColumnEdit.move (k + 1) k hk hk' hne).target =
    (ColumnEdit.move k (k + 1) hk' hk hne.symm).target ∧
      (ColumnEdit.move (k + 1) k hk hk' hne).origin =
      (ColumnEdit.move k (k + 1) hk' hk hne.symm).origin :=
  ⟨moved_swap hk "", moved_swap (by simpa using hk) none⟩

/-- **A column change is told from the lists** and carried out as meant, if and only if it is no
move behind other columns short of the end, and no move by one to the left short of it. -/
theorem inferred_iff (prior : DistinctColumns) (e : ColumnEdit prior.lst) (named : Bool) :
    (∃ change, inferChange (read e.target) prior.toPatchColumnNames e.mode (e.nameGiven named) =
      some change ∧ Told prior.indices e change) ↔ e.Inferable := by
  -- what is inferred is told, or fails to be
  have hgood : ∀ (e' : ColumnEdit prior.lst) {name}, e.mode = e'.mode → e.target = e'.target →
    e.origin = e'.origin →
      e.nameGiven named = name →
      (∃ change, inferChange (read e'.target) prior.toPatchColumnNames e'.mode name = some change ∧
        Follows (freshIndex prior.indices) prior.indices e' change) →
      ∃ change, inferChange (read e.target) prior.toPatchColumnNames e.mode (e.nameGiven named) =
        some change ∧ Told prior.indices e change := by
    rintro e' name hmode htarget horigin rfl ⟨change, hchange, hf⟩
    rw [← htarget, ← hmode] at hchange
    exact ⟨change, hchange,
      told_congr hmode.symm htarget.symm horigin.symm (hf.told prior.lst_nodup)⟩
  have hbad :
    (∃ change, inferChange (read e.target) prior.toPatchColumnNames e.mode (e.nameGiven named) =
      some change ∧
        ¬Told prior.indices e change) →
      ¬∃ change, inferChange (read e.target) prior.toPatchColumnNames e.mode (e.nameGiven named) =
        some change ∧ Told prior.indices e change := by
    rintro ⟨change, hchange, hnot⟩ ⟨change', hchange', htold⟩
    obtain rfl := Option.some.inj (hchange.symm.trans hchange')
    exact hnot htold
  cases e with
  | insert k name hk hnew =>
    refine iff_of_true (hgood _ rfl rfl rfl rfl (follows_insert prior _ hk hnew fun _ y hy => ?_))
      trivial
    unfold nameGiven at hy
    split at hy
    · exact (Option.some.inj hy).symm
    · cases hy
  | delete i hi => exact iff_of_true (hgood _ rfl rfl rfl rfl (follows_delete prior _ hi)) trivial
  | rename i name hi hnew =>
    exact iff_of_true (hgood _ rfl rfl rfl rfl (follows_rename prior _ hi hnew)) trivial
  | move i k hi hk hne =>
    rcases Nat.lt_or_gt_of_ne hne with hik | hki
    · -- to the right
      by_cases hend : k + 1 = prior.lst.length
      · exact iff_of_true
          (hgood _ rfl rfl rfl rfl (follows_move prior _ hi hk hne (Or.inr ⟨hik, hend⟩)))
          (Or.inr (by omega))
      · exact iff_of_false (hbad (not_told_later prior _ hik (by omega) rfl origin_move))
          fun h => by
          rcases h with h | h <;> omega
    · by_cases hone : i = k + 1
      · -- to the left by one: the neighbour goes to the right
        subst hone
        obtain ⟨htarget, horigin⟩ := move_swap hi hk hne
        by_cases hend : k + 1 + 1 = prior.lst.length
        · exact iff_of_true (hgood (.move k (k + 1) hk hi hne.symm) rfl htarget horigin rfl
            (follows_move prior _ hk hi hne.symm (Or.inr ⟨Nat.lt_succ_self k, hend⟩)))
              (Or.inr (by omega))
        · refine iff_of_false
            (hbad (not_told_later prior _ (Nat.lt_succ_self k) (by omega) htarget ?_)) fun h => by
            rcases h with h | h <;> omega
          rw [horigin]
          exact origin_move
      · exact iff_of_true
          (hgood _ rfl rfl rfl rfl (follows_move prior _ hi hk hne (Or.inl (by omega))))
          (Or.inl (by omega))

/-- `a` goes from the front of `a b c d` to the place before `d`: its identity is put before that of
`c`, and so the patcher takes `c` for the column that moves. -/
theorem move_taken_for_another :
    (ColumnEdit.move 0 2 (by decide) (by decide) (by decide) : ColumnEdit
      ["a", "b", "c", "d"]).target = ["b", "c", "a", "d"] ∧
    ∃ change p r, inferChange (read ["b", "c", "a", "d"]) (read ["a", "b", "c", "d"]) .move
      (some "a") = some change ∧
      change.indicesAfter = [1, 0, 2, 3] ∧ change.namesAfter = ["b", "c", "a", "d"] ∧
      SheetPatcher.attach ⟨[[⟨"1", false⟩, ⟨"2", false⟩, ⟨"3", false⟩, ⟨"4", false⟩]], 4,
        ⟨"", false⟩⟩ ["a", "b", "c", "d"] false =
        some p ∧ p.changeColumn change = some r ∧ r.1.activeCol.arr = [["c", "a", "b", "d"]] :=
  ⟨rfl, _, _, _, rfl, rfl, rfl, rfl, rfl, rfl⟩

end ColumnEdit

end Coopy
