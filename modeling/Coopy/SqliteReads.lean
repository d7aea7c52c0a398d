import Coopy.SqliteSheet

/-!
# A `SqliteSheet` shows its table

What the sheet keeps beside the table stays right as long as a table is only built anew when its
rows are numbered from 1, the numbers fit an `int`, no two cells share a place in the cache, and
texts are C strings that the types of their columns leave as they are.

    a step from a sheet that shows the rows: the same again, and the same cells read    (shows_step)
    a run of such steps reads what the plain list of rows gives                       (Run.cells_eq)
-/

namespace Coopy

open Lib

namespace SqliteSheet

/-! ## When a step is sound -/

/-- No other cell of the sheet has the place of this one in the cache. -/
def Apart (s : SqliteSheet) (x y : Nat) : Prop :=
  ∀ x' < s.w, ∀ y' < s.h, s.cache.key x' y' = s.cache.key x y → x' = x ∧ y' = y

/-- If the cells are still to be loaded, each has its own place. -/
def Loadable (s : SqliteSheet) : Prop := s.pendingLoad = true → ∀ x < s.w, ∀ y < s.h, s.Apart x y

/-- The number of the row fits an `int`. -/
def Located (s : SqliteSheet) (y : Nat) : Prop := ∀ id ∈ s.table.ids[y]?, toInt id = id

/-- `row2sql` is what it would be after the table is built anew. -/
def Numbered (s : SqliteSheet) : Prop := s.row2sql = (List.range s.h).map fun i :
    Nat => (i : Int) + 1

/-- The text is one that reaches the cell and stays as it is there. -/
def Keeps (s : SqliteSheet) (E : SqliteEngine) (x : Nat) (text : String) : Prop :=
  '\x00' ∉ text.toList ∧ E.store (s.types.getD x "") text = text

def Sound (s : SqliteSheet) (E : SqliteEngine) : Op → Prop
  | .read x y => s.Loadable ∧ (s.check.cached x y = false → s.Located y)
  | .write x y text escaped =>
    s.Loadable ∧ s.Apart x y ∧ s.Located y ∧ (escaped = true ∨ s.Keeps E x text)
  | .insertColumn base _ => base = -1 ∨ s.Numbered
  | .deleteColumn _ => s.Numbered ∧ "" ∉ s.table.names
  | .moveColumn _ _ => s.Numbered ∧ "" ∉ s.table.names
  | .insertRow => ∀ id ∈ s.table.ids.getLast?, id < RowidTable.maxRowid
  | .deleteRow src => s.Located src

/-- The cells in the cache are those of the rows. -/
structure Cached (s : SqliteSheet) (r : PlainRows) : Prop where
  sameWidth : s.cacheFlag.w = s.cache.w
  flags : ∀ x < s.w, ∀ y < s.h, (s.cacheFlag.pcell x y).isSome → r.cell x y = none
  cells : ∀ x < s.w, ∀ y < s.h, s.cacheFlag.pcell x y = none → ∀ t, s.cache.pcell x y = some t →
    r.cell x y = some t

/-- The sheet and the rows belong together. -/
structure Shows (s : SqliteSheet) (r : PlainRows) : Prop where
  names : s.table.names = s.col2sql.map cText
  width : s.w = s.table.names.length
  plainWidth : r.width = s.w
  rows : s.table.values = r.rows
  height : s.h = r.rows.length
  numbers : s.row2sql = s.table.ids.map toInt
  texts : ∀ row ∈ r.rows, ∀ t, some t ∈ row → cText t = t
  pending : s.pendingLoad = true → s.cache.data = [] ∧ s.cacheFlag.data = []
  cached : s.Cached r

theorem cText_eq_self_iff (t : String) : cText t = t ↔ '\x00' ∉ t.toList := by
  rw [cText, ← String.toList_inj, String.toList_ofList, cString_eq_self_iff, List.contains_eq_mem,
    decide_eq_false_iff_not]

/-! ## Loading -/

/-- What is in the caches after a load was there or comes from a cell with the key. -/
theorem foldl_loadCell (cs : List (Nat × Nat × Option String)) :
    ∀ caches : SparseSheet String × SparseSheet Nat,
    caches.2.w = caches.1.w →
    (cs.foldl loadCell caches).1.w = caches.1.w ∧ (cs.foldl loadCell caches).2.w = caches.1.w ∧
    (∀ x y, ((cs.foldl loadCell caches).2.pcell x y).isSome → (caches.2.pcell x y).isSome ∨
      ∃ c ∈ cs, caches.1.key c.1 c.2.1 = caches.1.key x y ∧ c.2.2 = none) ∧
    (∀ x y t, (cs.foldl loadCell caches).1.pcell x y = some t → caches.1.pcell x y = some t ∨
      ∃ c ∈ cs, caches.1.key c.1 c.2.1 = caches.1.key x y ∧ c.2.2.map cText = some t) := by
  induction cs with
  | nil => exact fun caches h => ⟨rfl, h, fun x y => .inl, fun x y t => .inl⟩
  | cons c cs ih =>
    intro caches h
    have hkey : ∀ x y, caches.2.key x y = caches.1.key x y := fun x y => by
      rw [SparseSheet.key, SparseSheet.key, h]
    rw [List.foldl_cons]
    cases hc : c.2.2 with
    | none =>
      have hload : loadCell caches c = (caches.1, caches.2.write c.1 c.2.1 1) := by
        rw [loadCell, hc]
      obtain ⟨hw1, hw2, hflag, hcell⟩ := ih (caches.1, caches.2.write c.1 c.2.1 1) h
      rw [hload]
      refine ⟨hw1, hw2, fun x y hxy => ?_, fun x y t hxy => ?_⟩
      · rcases hflag x y hxy with hxy | ⟨c', hc', hk⟩
        · rw [SparseSheet.pcell_write] at hxy
          split at hxy
          · next hk =>
            rw [hkey, hkey] at hk
            exact .inr ⟨c, List.mem_cons_self, hk.symm, hc⟩
          · exact .inl hxy
        · exact .inr ⟨c', List.mem_cons_of_mem _ hc', hk⟩
      · rcases hcell x y t hxy with hxy | ⟨c', hc', hk⟩
        · exact .inl hxy
        · exact .inr ⟨c', List.mem_cons_of_mem _ hc', hk⟩
    | some v =>
      have hload : loadCell caches c = (caches.1.write c.1 c.2.1 (cText v), caches.2) := by
        rw [loadCell, hc]
      obtain ⟨hw1, hw2, hflag, hcell⟩ := ih (caches.1.write c.1 c.2.1 (cText v), caches.2) h
      rw [hload]
      refine ⟨hw1, hw2, fun x y hxy => ?_, fun x y t hxy => ?_⟩
      · rcases hflag x y hxy with hxy | ⟨c', hc', hk⟩
        · exact .inl hxy
        · exact .inr ⟨c', List.mem_cons_of_mem _ hc', hk⟩
      · rcases hcell x y t hxy with hxy | ⟨c', hc', hk⟩
        · rw [SparseSheet.pcell_write] at hxy
          split at hxy
          · next hk => exact .inr ⟨c, List.mem_cons_self, hk.symm, by rw [hc]; exact hxy⟩
          · exact .inl hxy
        · exact .inr ⟨c', List.mem_cons_of_mem _ hc', hk⟩

/-- What a scan comes by. -/
theorem of_mem_scan {s : SqliteSheet} {r : PlainRows} (hrows : s.table.values = r.rows)
    {c : Nat × Nat × Option String}
    (h : c ∈ s.scan) : c.1 < s.w ∧ c.2.1 < r.rows.length ∧ c.2.2 = r.cell c.1 c.2.1 := by
  obtain ⟨⟨row, yy⟩, hrow, hc⟩ := List.mem_flatMap.1 h
  obtain ⟨xx, hxx, rfl⟩ := List.mem_map.1 hc
  have hget := List.mem_zipIdx_iff_getElem?.1 hrow
  obtain ⟨hy, he⟩ := List.getElem?_eq_some_iff.1 hget
  refine ⟨List.mem_range.1 hxx, hrows ▸ hy, ?_⟩
  show row.getD xx none = (r.rows.getD yy []).getD xx none
  rw [← hrows, List.getD_eq_getElem _ _ hy, he]

/-- A cell of rows that are all C strings. -/
theorem map_cText_cell {r : PlainRows} (h : ∀ row ∈ r.rows, ∀ t, some t ∈ row → cText t = t)
    (x y : Nat) : (r.cell x y).map cText = r.cell x y := by
  cases hv : r.cell x y with
  | none => rfl
  | some t =>
    unfold PlainRows.cell at hv
    have hy : y < r.rows.length := by
      by_contra hy
      have hnil : r.rows.getD y [] = [] := List.getD_eq_default _ _ (by omega)
      rw [hnil] at hv
      cases hv
    rw [List.getD_eq_getElem _ _ hy] at hv
    have hx : x < (r.rows[y]).length := by
      by_contra hx
      rw [List.getD_eq_default _ _ (by omega)] at hv
      cases hv
    rw [List.getD_eq_getElem _ _ hx] at hv
    rw [Option.map_some, h _ (List.getElem_mem hy) t (hv ▸ List.getElem_mem hx)]

theorem check_frame (s : SqliteSheet) : s.check.table = s.table ∧ s.check.types = s.types ∧
    s.check.w = s.w ∧ s.check.h = s.h ∧ s.check.row2sql = s.row2sql ∧ s.check.col2sql = s.col2sql ∧
    s.check.pendingLoad = false := by
  unfold check
  split
  · exact ⟨rfl, rfl, rfl, rfl, rfl, rfl, rfl⟩
  · next h => exact ⟨rfl, rfl, rfl, rfl, rfl, rfl, by simpa using h⟩

theorem Shows.check {s : SqliteSheet} {r : PlainRows} (h : s.Shows r) (hl : s.Loadable) :
    s.check.Shows r := by
  by_cases hp : s.pendingLoad = true
  · obtain ⟨hempty, hempty'⟩ := h.pending hp
    obtain ⟨hw1, hw2, hflag, hcell⟩ :=
      foldl_loadCell s.scan (s.cache, s.cacheFlag) h.cached.sameWidth
    -- the cell that the key comes from is the cell that is asked for
    have hmine : ∀ x < s.w, ∀ y < s.h, ∀ c ∈ s.scan, s.cache.key c.1 c.2.1 = s.cache.key x y →
      c.2.2 = r.cell x y := by
      intro x hx y hy c hc hk
      obtain ⟨hcx, hcy, hv⟩ := of_mem_scan h.rows hc
      obtain ⟨hxe, hye⟩ := hl hp x hx y hy c.1 hcx c.2.1 (h.height ▸ hcy) hk
      rw [hv, hxe, hye]
    have hcheck :
      s.check =
      { s with pendingLoad := false, cache := (s.scan.foldl loadCell (s.cache, s.cacheFlag)).1,
                                     cacheFlag :=
                                       (s.scan.foldl loadCell (s.cache, s.cacheFlag)).2 } := by
      rw [SqliteSheet.check, if_pos hp]
    rw [hcheck]
    refine { h with pending := nofun, cached := ⟨hw2.trans hw1.symm, ?_, ?_⟩ }
    · intro x hx y hy hxy
      rcases hflag x y hxy with hxy | ⟨c, hc, hk, hv⟩
      · simp [SparseSheet.pcell, hempty'] at hxy
      · rw [← hmine x hx y hy c hc hk, hv]
    · intro x hx y hy _ t hxy
      rcases hcell x y t hxy with hxy | ⟨c, hc, hk, hv⟩
      · simp [SparseSheet.pcell, hempty] at hxy
      · rw [hmine x hx y hy c hc hk, map_cText_cell h.texts] at hv
        exact hv
  · rwa [SqliteSheet.check, if_neg hp]

/-! ## Reading and writing -/

section
variable {s : SqliteSheet} {r : PlainRows}

theorem Shows.rows_length (h : s.Shows r) : s.table.rows.length = s.h := by
  rw [h.height, ← h.rows, RowidTable.values, List.length_map]

theorem Shows.getElem_rows (h : s.Shows r) {y : Nat} (hy : y < s.table.rows.length)
    (hy' : y < r.rows.length) : s.table.rows[y].2 = r.rows[y] := by
  have := congrArg (·[y]?) h.rows
  simpa [RowidTable.values, hy, hy'] using this

/-- The number that is kept for a row is the row's. -/
theorem Shows.row2sql_getD (h : s.Shows r) {y : Nat} (hy : y < s.table.rows.length)
    (hl : s.Located y) : s.row2sql.getD y 0 = s.table.rows[y].1 := by
  have hid : toInt s.table.rows[y].1 = s.table.rows[y].1 := hl _ (by simp [RowidTable.ids, hy])
  have hlen : y < s.row2sql.length := by rw [h.numbers]; simpa [RowidTable.ids] using hy
  rw [List.getD_eq_getElem _ _ hlen]
  simp only [h.numbers, RowidTable.ids, List.getElem_map, hid]

/-- The name that is kept for a column is the column's. -/
theorem Shows.col2sql_getD (h : s.Shows r) {x : Nat} (hx : x < s.table.names.length) :
    cText (s.col2sql.getD x "") = s.table.names[x] := by
  have hlen : x < s.col2sql.length := by simpa [h.names] using hx
  rw [List.getD_eq_getElem _ _ hlen]
  simp only [h.names, List.getElem_map]

theorem Shows.selectCell (h : s.Shows r) {x y : Nat} (hy : y < s.h) (hl : s.Located y) :
    s.selectCell x y = shown (r.cell x y) := by
  have hy' : y < s.table.rows.length := h.rows_length.symm ▸ hy
  have hy'' : y < r.rows.length := h.height ▸ hy
  have hcell : (s.table.rows[y].2).getD x none = r.cell x y := by
    rw [h.getElem_rows hy' hy'', PlainRows.cell, List.getD_eq_getElem _ _ hy'']
  rw [SqliteSheet.selectCell, h.row2sql_getD hy' hl, RowidTable.select_getElem]
  show shown (((s.table.rows[y].2).getD x none).map cText) = _
  rw [hcell, map_cText_cell h.texts]

/-- A cell reads as the rows have it. -/
theorem Shows.cellString (h : s.Shows r) {x y : Nat} (hx : x < s.w) (hy : y < s.h)
    (hl : s.cached x y = false → s.Located y) : s.cellString x y = shown (r.cell x y) := by
  unfold SqliteSheet.cellString
  cases hf : s.cacheFlag.pcell x y with
  | some f =>
    rw [h.cached.flags x hx y hy (by rw [hf]; rfl)]
    rfl
  | none =>
    cases hc : s.cache.pcell x y with
    | some t =>
      rw [h.cached.cells x hx y hy hf t hc]
      rfl
    | none =>
      have hmiss : s.cached x y = false := by rw [SqliteSheet.cached, hf, hc]; rfl
      exact h.selectCell hy (hl hmiss)

/-- What a cell holds after another one, or itself, is changed. -/
theorem cell_modify (r : PlainRows) {x y : Nat} (hy : y < r.rows.length)
    (hx : x < (r.rows[y]).length) (v : Option String)
    (x' y' : Nat) : PlainRows.cell { r with rows := r.rows.modify y fun row => row.set x v } x' y' =
      if x' = x ∧ y' = y then v else r.cell x' y' := by
  show ((r.rows.modify y fun row => row.set x v).getD y' []).getD x' none = _
  simp only [PlainRows.cell, List.getD_eq_getElem?_getD, List.getElem?_modify]
  by_cases hye : y = y'
  · subst hye
    by_cases hxe : x = x'
    · subst hxe
      simp [hy, hx]
    · have hne : ¬ x' = x := fun h => hxe h.symm
      simp [hy, hxe, hne]
  · have hne : ¬ y' = y := fun h => hye h.symm
    simp [hye, hne]

theorem Shows.setCellString {E : SqliteEngine} {s' : SqliteSheet} (h : s.Shows r)
    (hp : s.pendingLoad = false) {x y : Nat}
    (hx : x < s.w) (hy : y < s.h) {text : String} {escaped : Bool} (ha : s.Apart x y)
    (hl : s.Located y)
    (ht : escaped = true ∨ s.Keeps E x text) (hs : s.setCellString E x y text escaped = some s') :
    s'.Shows
      { r with
      rows := r.rows.modify y fun row => row.set x (if escaped then none else some text) } := by
  have hy' : y < s.table.rows.length := h.rows_length.symm ▸ hy
  have hy'' : y < r.rows.length := h.height ▸ hy
  have hx' : x < s.table.names.length := h.width ▸ hx
  obtain ⟨table, htable, rfl⟩ := Option.map_eq_some_iff.1 hs
  rw [h.col2sql_getD hx', h.row2sql_getD hy' hl, s.table.distinct.idxOf_getElem] at htable
  obtain ⟨hnames, hids, hvalues⟩ := RowidTable.update_spec hy' hx' htable
  -- the text that reaches the database is the one that is kept
  have hv : (if escaped then none else some (E.store (s.types.getD x "") (cText text))) =
      if escaped then none else some text := by
    rcases ht with rfl | ht
    · rfl
    · rw [(cText_eq_self_iff text).2 ht.1, ht.2]
  have hcell :
    ∀ x' y', PlainRows.cell
    { r with rows := r.rows.modify y fun row => row.set x (if escaped then none else some text) } x'
    y' =
      if x' = x ∧ y' = y then (if escaped then none else some text) else r.cell x' y' :=
    cell_modify r hy'' (by rwa [← h.getElem_rows hy' hy'', s.table.fits _ (List.getElem_mem hy')]) _
  have hflagKey : ∀ a b, s.cacheFlag.key a b = s.cache.key a b := fun a b => by
    rw [SparseSheet.key, SparseSheet.key, h.cached.sameWidth]
  refine { names := hnames.trans h.names, width := h.width.trans (by rw [hnames]), plainWidth := h.plainWidth,
           rows := ?_, height := ?_, numbers := ?_, texts := ?_, pending := ?_, cached := ?_ }
  · rw [hvalues, h.rows, hv]
  · simpa using h.height
  · rw [hids]
    exact h.numbers
  · intro row hrow t hm
    obtain ⟨i, hi, rfl⟩ := List.mem_iff_getElem.1 hrow
    rw [List.getElem_modify] at hm
    rw [List.length_modify] at hi
    split at hm
    · rcases List.mem_or_eq_of_mem_set hm with hm | hm
      · exact h.texts _ (List.getElem_mem hi) t hm
      · rcases ht with rfl | ht
        · cases hm
        · split at hm
          · cases hm
          · cases hm
            exact (cText_eq_self_iff text).2 ht.1
    · exact h.texts _ (List.getElem_mem hi) t hm
  · exact fun he => absurd (hp.symm.trans he) (by decide)
  · refine ⟨?_, fun x' hx' y' hy' hflag => ?_, fun x' hx' y' hy' hflag t hc => ?_⟩
    · show (if escaped then s.cacheFlag.write x y 1 else s.cacheFlag.remove x y).w = s.cache.w
      split <;> exact h.cached.sameWidth
    · rw [hcell]
      by_cases he : x' = x ∧ y' = y
      · rw [if_pos he]
        obtain ⟨rfl, rfl⟩ := he
        cases escaped with
        | true => rfl
        | false =>
          have hflag : ((s.cacheFlag.remove x' y').pcell x' y').isSome := hflag
          simp [SparseSheet.pcell_remove] at hflag
      · rw [if_neg he]
        have hk : ¬ s.cacheFlag.key x' y' = s.cacheFlag.key x y := by
          rw [hflagKey, hflagKey]
          exact fun hk => he (ha x' hx' y' hy' hk)
        refine h.cached.flags x' hx' y' hy' ?_
        cases escaped with
        | true =>
          have hflag : ((s.cacheFlag.write x y 1).pcell x' y').isSome := hflag
          rwa [SparseSheet.pcell_write, if_neg hk] at hflag
        | false =>
          have hflag : ((s.cacheFlag.remove x y).pcell x' y').isSome := hflag
          rwa [SparseSheet.pcell_remove, if_neg hk] at hflag
    · have hkept : (s.cache.write x y text).pcell x' y' = some t := hc
      rw [SparseSheet.pcell_write] at hkept
      rw [hcell]
      by_cases he : x' = x ∧ y' = y
      · rw [if_pos he]
        obtain ⟨rfl, rfl⟩ := he
        cases escaped with
        | true =>
          have hflag : (s.cacheFlag.write x' y' 1).pcell x' y' = none := hflag
          simp [SparseSheet.pcell_write] at hflag
        | false => simpa using hkept
      · have hk : ¬ s.cache.key x' y' = s.cache.key x y := fun hk => he (ha x' hx' y' hy' hk)
        rw [if_neg he]
        rw [if_neg hk] at hkept
        refine h.cached.cells x' hx' y' hy' ?_ t hkept
        have hk' : ¬ s.cacheFlag.key x' y' = s.cacheFlag.key x y := by rwa [hflagKey, hflagKey]
        cases escaped with
        | true =>
          have hflag : (s.cacheFlag.write x y 1).pcell x' y' = none := hflag
          rwa [SparseSheet.pcell_write, if_neg hk'] at hflag
        | false =>
          have hflag : (s.cacheFlag.remove x y).pcell x' y' = none := hflag
          rwa [SparseSheet.pcell_remove, if_neg hk'] at hflag

/-! ## Rows and columns -/

theorem cached_of_empty (hw : s.cacheFlag.w = s.cache.w) (hc : s.cache.data = [])
    (hf : s.cacheFlag.data = []) : s.Cached r where
  sameWidth := hw
  flags := fun x _ y _ h => by simp [SparseSheet.pcell, hf] at h
  cells := fun x _ y _ _ t h => by simp [SparseSheet.pcell, hc] at h

theorem toInt_toInt (id : Int) : toInt (toInt id) = toInt id := Int.bmod_bmod

theorem Shows.row_length (h : s.Shows r) {row : List (Option String)} (hr : row ∈ r.rows) :
    row.length = s.table.names.length := RowidTable.values_length (h.rows.symm ▸ hr)

/-- A table built anew under a sheet whose numbers are those that the rows then get. -/
theorem Shows.rebuilt (h : s.Shows r) (hn : s.Numbered) {parts names : List String}
    {novel : String} {w : Nat}
    {table : RowidTable String String} {types : List String} {f : List (Option String) →
      List (Option String)}
    (happ : applySchema s.table parts names novel = some table) (hparts : parts = names.map cText)
    (hw : w = parts.length) (hcopy : ∀ row ∈ r.rows,
      RowidTable.copy id s.table.names parts ((names.map cText).filter fun base => base ≠ novel)
        row = f row)
    (hmem : ∀ row ∈ r.rows, ∀ t, some t ∈ f row → some t ∈ row) :
    { s.clearCache with table := table, types := types, col2sql := names, w := w }.Shows
      ⟨w, r.rows.map f⟩ := by
  unfold applySchema at happ
  split at happ
  · cases happ
  · obtain ⟨hnames, hvalues, hids⟩ := RowidTable.rebuild_spec happ
    refine { names := hnames.trans hparts, width := hw.trans (by rw [hnames]), plainWidth := rfl, rows := ?_,
             height := ?_, numbers := ?_, texts := ?_, pending := fun _ => ⟨rfl, rfl⟩,
             cached := cached_of_empty h.cached.sameWidth rfl rfl }
    · rw [hvalues, h.rows]
      exact List.map_congr_left hcopy
    · exact h.height.trans (List.length_map _).symm
    · have hagain : s.row2sql.map toInt = s.row2sql := by
        rw [h.numbers, List.map_map]
        exact List.map_congr_left fun id _ => toInt_toInt id
      show s.row2sql = table.ids.map toInt
      rw [hids, h.rows_length, ← hn, hagain]
    · intro row hrow t ht
      obtain ⟨row', hrow', rfl⟩ := List.mem_map.1 hrow
      exact h.texts row' hrow' t (hmem row' hrow' t ht)

theorem filter_ne_insertIdx {l : List String} {a : String} (h : a ∉ l) (i : Nat)
    (hi : i ≤ l.length) : (l.insertIdx i a).filter (fun b => b ≠ a) = l := by
  have hself : l.filter (fun b => b ≠ a) = l := List.filter_eq_self.2 fun b hb => by
    simpa using fun he : b = a => h (he ▸ hb)
  induction l generalizing i with
  | nil =>
    obtain rfl := Nat.le_zero.1 hi
    simp
  | cons b l ih =>
    cases i with
    | zero =>
      rw [List.insertIdx_zero, List.filter_cons_of_neg (by simp), hself]
    | succ i =>
      have hb : b ≠ a := fun he => h (he ▸ List.mem_cons_self)
      have hl : a ∉ l := fun hm => h (List.mem_cons_of_mem _ hm)
      rw [List.insertIdx_succ_cons, List.filter_cons_of_pos (by simpa using hb),
        ih hl i (Nat.le_of_succ_le_succ hi)]
      exact List.filter_eq_self.2 fun c hc => by simpa using fun he : c = a => hl (he ▸ hc)

/-- A column at the end by `ALTER TABLE`. -/
theorem Shows.altered (h : s.Shows r) {name : String} {table : RowidTable String String}
    {types : List String} (htable : s.table.addColumn (cText name) = some table) :
    { s.clearCache with
      table := table
      types := types
      col2sql := s.col2sql ++ [name]
      w := s.w + 1 }.Shows
        ⟨r.width + 1, r.rows.map fun row : List (Option String) => row.insertIdx r.width none⟩ := by
  obtain ⟨hnames, hvalues, hids⟩ := RowidTable.addColumn_spec htable
  have hrows : (r.rows.map fun row => row.insertIdx r.width none) = r.rows.map (· ++ [none]) := by
    refine List.map_congr_left fun row hrow => ?_
    rw [h.plainWidth, h.width, ← h.row_length hrow, List.insertIdx_length_self]
  rw [hrows]
  refine { names := ?_, width := ?_, plainWidth := by rw [h.plainWidth], rows := hvalues.trans (by rw [h.rows]),
           height := h.height.trans (List.length_map _).symm, numbers := ?_, texts := ?_,
           pending := fun _ => ⟨rfl, rfl⟩, cached := cached_of_empty h.cached.sameWidth rfl rfl }
  · rw [hnames, List.map_append, h.names]
    rfl
  · rw [hnames, List.length_append, h.width]
    rfl
  · rw [hids]
    exact h.numbers
  · intro row hrow t ht
    obtain ⟨row', hrow', rfl⟩ := List.mem_map.1 hrow
    exact h.texts row' hrow' t (by simpa using ht)

/-- A column elsewhere, the table built anew. -/
theorem Shows.inserted (h : s.Shows r) (hn : s.Numbered) {index : Nat} {name : String}
    {table : RowidTable String String}
    {types : List String} (hindex : index ≤ r.width) (hname : '\x00' ∉ name.toList)
    (htable : applySchema s.table (s.table.names.insertIdx index name)
      (s.col2sql.insertIdx index name) name = some table) :
    { s.clearCache with
      table := table
      types := types
      col2sql := s.col2sql.insertIdx index name
      w := s.w + 1 }.Shows
        ⟨r.width + 1, r.rows.map fun row : List (Option String) => row.insertIdx index none⟩ := by
  have hroom : index ≤ s.table.names.length := by rwa [← h.width, ← h.plainWidth]
  have hparts :
    s.table.names.insertIdx index name = (s.col2sql.insertIdx index name).map cText := by
    rw [List.map_insertIdx, (cText_eq_self_iff name).2 hname, h.names]
  have hnew : name ∉ s.table.names := by
    have happ := htable
    unfold applySchema at happ
    split at happ
    · cases happ
    · have hd := table.distinct
      rw [(RowidTable.rebuild_spec happ).1] at hd
      exact (List.nodup_cons.1 ((List.perm_insertIdx name _ hroom).nodup_iff.1 hd)).1
  have hwidth : s.w + 1 = (s.table.names.insertIdx index name).length := by
    rw [List.length_insertIdx_of_le_length hroom, h.width]
  rw [h.plainWidth]
  refine h.rebuilt hn htable hparts hwidth (fun row hrow => ?_) (fun row hrow t ht => ?_)
  · rw [← hparts, filter_ne_insertIdx hnew _ hroom,
      RowidTable.copy_insertIdx _ s.table.distinct (h.row_length hrow) hnew]
  · rcases (List.mem_insertIdx (h.row_length hrow ▸ hroom)).1 ht with ht | ht
    · cases ht
    · exact ht

/-- Columns that all have names are all copied. -/
theorem filter_ne_nameless {l : List String} (h : "" ∉ l) : l.filter (fun base => base ≠ "") = l :=
  List.filter_eq_self.2 fun b hb => by simpa using fun he : b = "" => h (he ▸ hb)

theorem Shows.deleted (h : s.Shows r) (hn : s.Numbered) (hnamed : "" ∉ s.table.names) {column : Nat}
    (hc : column < s.w) {table : RowidTable String String} {types : List String}
    (htable : applySchema s.table (s.table.names.eraseIdx column)
      (s.col2sql.eraseIdx column) "" = some table) :
    { s.clearCache with
      table := table
      types := types
      col2sql := s.col2sql.eraseIdx column
      w := s.w - 1 }.Shows
        ⟨r.width - 1, r.rows.map fun row : List (Option String) => row.eraseIdx column⟩ := by
  have hparts : s.table.names.eraseIdx column = (s.col2sql.eraseIdx column).map cText := by
    rw [← List.eraseIdx_map, h.names]
  have hwidth : s.w - 1 = (s.table.names.eraseIdx column).length := by
    rw [List.length_eraseIdx_of_lt (h.width ▸ hc), h.width]
  have hnamed' : "" ∉ s.table.names.eraseIdx column :=
    fun hm => hnamed (List.mem_of_mem_eraseIdx hm)
  rw [h.plainWidth]
  refine h.rebuilt hn htable hparts hwidth (fun row hrow => ?_)
    (fun row hrow t ht => List.mem_of_mem_eraseIdx ht)
  rw [← hparts, filter_ne_nameless hnamed',
    RowidTable.copy_eraseIdx _ s.table.distinct (h.row_length hrow)]

theorem Shows.moved (h : s.Shows r) (hn : s.Numbered) (hnamed : "" ∉ s.table.names)
    {src index : Nat} (hsrc : src < s.w)
    (hindex : index + 1 ≤ s.w) {table : RowidTable String String} {types : List String}
    (htable : applySchema s.table
      ((s.table.names.eraseIdx src).insertIdx index (s.table.names.getD src ""))
      ((s.col2sql.eraseIdx src).insertIdx index (s.col2sql.getD src "")) "" = some table) :
    { s.clearCache with
      table := table
      types := types
      col2sql := (s.col2sql.eraseIdx src).insertIdx index (s.col2sql.getD src "") }.Shows
        ⟨r.width, r.rows.map fun row : List (Option String) =>
        (row.eraseIdx src).insertIdx index (row.getD src none)⟩ := by
  have hsrc' : src < s.table.names.length := h.width ▸ hsrc
  have hroom : index ≤ (s.table.names.eraseIdx src).length := by
    rw [List.length_eraseIdx_of_lt hsrc', ← h.width]
    omega
  have hparts : (s.table.names.eraseIdx src).insertIdx index (s.table.names.getD src "") =
      ((s.col2sql.eraseIdx src).insertIdx index (s.col2sql.getD src "")).map cText := by
    rw [List.map_insertIdx, ← List.eraseIdx_map, ← h.names, h.col2sql_getD hsrc',
      List.getD_eq_getElem _ _ hsrc']
  have hwidth :
    s.w = ((s.table.names.eraseIdx src).insertIdx index (s.table.names.getD src "")).length := by
    rw [List.length_insertIdx_of_le_length hroom, List.length_eraseIdx_of_lt hsrc', ← h.width]
    omega
  have hnamed' : "" ∉ (s.table.names.eraseIdx src).insertIdx index (s.table.names.getD src "") := by
    intro hm
    rcases (List.mem_insertIdx hroom).1 hm with hm | hm
    · rw [List.getD_eq_getElem _ _ hsrc'] at hm
      exact hnamed (hm ▸ List.getElem_mem hsrc')
    · exact hnamed (List.mem_of_mem_eraseIdx hm)
  rw [h.plainWidth]
  refine h.rebuilt hn htable hparts hwidth (fun row hrow => ?_) (fun row hrow t ht => ?_)
  · have hlen := h.row_length hrow
    rw [← hparts, filter_ne_nameless hnamed', List.getD_eq_getElem _ _ hsrc',
      RowidTable.copy_move _ s.table.distinct hlen hsrc' (hlen ▸ hsrc'),
        List.getD_eq_getElem _ _ (hlen ▸ hsrc')]
  · have hlen := h.row_length hrow
    have hroom' : index ≤ (row.eraseIdx src).length := by
      rwa [List.length_eraseIdx_of_lt (hlen ▸ hsrc'), hlen, ← List.length_eraseIdx_of_lt hsrc']
    rcases (List.mem_insertIdx hroom').1 ht with ht | ht
    · rw [List.getD_eq_getElem _ _ (hlen ▸ hsrc')] at ht
      exact ht ▸ List.getElem_mem _
    · exact List.mem_of_mem_eraseIdx ht

theorem Shows.insertRow (h : s.Shows r) (pick : List Int → Int)
    (hroom : ∀ id ∈ s.table.ids.getLast?, id < RowidTable.maxRowid) :
    (s.insertRow pick).Shows { r with rows := r.rows ++ [List.replicate r.width none] } := by
  have hrows : (s.table.insertDefault pick).rows = _ := RowidTable.insertDefault_rows hroom
  refine { names := h.names, width := h.width, plainWidth := h.plainWidth, rows := ?_, height := ?_,
           numbers := ?_, texts := ?_, pending := fun _ => ⟨rfl, rfl⟩,
           cached := cached_of_empty h.cached.sameWidth rfl rfl }
  · show (s.table.insertDefault pick).rows.map Prod.snd = _
    rw [hrows, List.map_append, h.plainWidth, h.width]
    exact congrArg (· ++ _) h.rows
  · rw [List.length_append, ← h.height]
    rfl
  · show s.row2sql ++ [toInt (s.table.newRowid pick)] =
      ((s.table.insertDefault pick).rows.map Prod.fst).map toInt
    rw [hrows, List.map_append, List.map_append, h.numbers]
    rfl
  · intro row hrow t ht
    rcases List.mem_append.1 hrow with hrow | hrow
    · exact h.texts row hrow t ht
    · rw [List.mem_singleton.1 hrow] at ht
      cases List.eq_of_mem_replicate ht

theorem Shows.deleteRow {s' : SqliteSheet} (h : s.Shows r) {src : Nat} (hl : s.Located src)
    (hs : s.deleteRow src = some s') : s'.Shows { r with rows := r.rows.eraseIdx src } := by
  simp only [SqliteSheet.deleteRow] at hs
  split at hs
  · next hsrc =>
    cases hs
    have hsrc : src < s.h := hsrc
    have hsrc' : src < s.table.rows.length := h.rows_length.symm ▸ hsrc
    have hdel : (s.table.delete (s.row2sql.getD src 0)).rows = s.table.rows.eraseIdx src := by
      rw [h.row2sql_getD hsrc' hl, RowidTable.delete_rows _ hsrc']
    refine { names := h.names, width := h.width, plainWidth := h.plainWidth, rows := ?_, height := ?_,
             numbers := ?_, texts := fun row hrow => h.texts row (List.mem_of_mem_eraseIdx hrow),
             pending := fun _ => ⟨rfl, rfl⟩,
             cached := cached_of_empty h.cached.sameWidth rfl rfl }
    · show (s.table.delete (s.row2sql.getD src 0)).rows.map Prod.snd = _
      rw [hdel, ← List.eraseIdx_map]
      exact congrArg (·.eraseIdx src) h.rows
    · rw [List.length_eraseIdx_of_lt (h.height ▸ hsrc), ← h.height]
      rfl
    · show s.row2sql.eraseIdx src = ((s.table.delete (s.row2sql.getD src 0)).rows.map Prod.fst).map
        toInt
      rw [hdel, h.numbers, ← List.eraseIdx_map, ← List.eraseIdx_map]
      rfl
  · cases hs

/-! ## Steps and runs -/

/-- A sound step reads what the rows have, and what it leaves behind belongs to the changed rows. -/
theorem shows_step {E : SqliteEngine} {s' : SqliteSheet} {op : Op} {cells : List SheetCell}
    (h : s.Shows r) (hsound : s.Sound E op) (hs : s.step E op = some (s', cells)) :
    s'.Shows (r.step op).1 ∧ cells = (r.step op).2 := by
  obtain ⟨htable, htypes, hw, hh, -, -, hp⟩ := s.check_frame
  cases op with
  | read x y =>
    obtain ⟨hload, hread⟩ := hsound
    rw [step] at hs
    split at hs
    · next hxy =>
      cases hs
      have hcheck := h.check hload
      refine ⟨hcheck,
        congrArg (fun c => [c]) (hcheck.cellString (hw.symm ▸ hxy.1)
          (hh.symm ▸ hxy.2) fun hmiss => ?_)⟩
      rw [Located, htable]
      exact hread hmiss
    · cases hs
  | write x y text escaped =>
    obtain ⟨hload, hapart, hlocated, htext⟩ := hsound
    rw [step] at hs
    split at hs
    · next hxy =>
      obtain ⟨s'', hs'', he⟩ := Option.map_eq_some_iff.1 hs
      cases he
      have hcheck := h.check hload
      have hkey : ∀ a b, s.check.cache.key a b = s.cache.key a b := by
        intro a b
        rw [SparseSheet.key, SparseSheet.key, check]
        split
        · rw [(foldl_loadCell s.scan (s.cache, s.cacheFlag) h.cached.sameWidth).1]
        · rfl
      have hkeeps : escaped = true ∨ s.check.Keeps E x text := by
        rw [Keeps, htypes]
        exact htext
      refine ⟨hcheck.setCellString hp (hw.symm ▸ hxy.1) (hh.symm ▸ hxy.2) ?_ ?_ hkeeps hs'', rfl⟩
      · intro x' hx' y' hy' hk
        rw [hkey, hkey] at hk
        exact hapart x' (hw ▸ hx') y' (hh ▸ hy') hk
      · rw [Located, htable]
        exact hlocated
    · cases hs
  | insertColumn base kind =>
    obtain ⟨s'', hs'', he⟩ := Option.map_eq_some_iff.1 hs
    cases he
    refine ⟨?_, rfl⟩
    simp only [insertColumn] at hs''
    split at hs''
    · next hbase =>
      obtain ⟨table, htable, rfl⟩ := Option.map_eq_some_iff.1 hs''
      have hneg : base < 0 := by omega
      simp only [PlainRows.step, if_pos hneg]
      exact h.altered htable
    · next hbase =>
      split at hs''
      · cases hs''
      · next hname =>
        split at hs''
        · next hle =>
          obtain ⟨table, htable, rfl⟩ := Option.map_eq_some_iff.1 hs''
          have hle : base ≤ s.w := hle
          have hindex : (if base < 0 then s.clearCache.w else base.toNat) = if base < 0 then r.width
            else base.toNat := by
            rw [h.plainWidth]
            rfl
          rw [hindex] at htable ⊢
          refine h.inserted (hsound.resolve_left hbase) ?_ (by simpa using hname) htable
          rw [h.plainWidth]
          split <;> omega
        · cases hs''
  | deleteColumn column =>
    obtain ⟨s'', hs'', he⟩ := Option.map_eq_some_iff.1 hs
    cases he
    refine ⟨?_, rfl⟩
    simp only [deleteColumn] at hs''
    split at hs''
    · next hc =>
      obtain ⟨table, htable, rfl⟩ := Option.map_eq_some_iff.1 hs''
      exact h.deleted hsound.1 hsound.2 hc htable
    · cases hs''
  | moveColumn src base =>
    obtain ⟨s'', hs'', he⟩ := Option.map_eq_some_iff.1 hs
    cases he
    refine ⟨?_, rfl⟩
    simp only [moveColumn] at hs''
    split at hs''
    · next hc =>
      obtain ⟨table, htable, rfl⟩ := Option.map_eq_some_iff.1 hs''
      obtain ⟨hsrc, hbase, hle⟩ : src < s.w ∧ 0 ≤ base ∧ base ≤ s.w := hc
      refine h.moved hsound.1 hsound.2 hsrc ?_ htable
      unfold placeBefore
      split <;> omega
    · cases hs''
  | insertRow =>
    cases hs
    exact ⟨h.insertRow E.pick hsound, rfl⟩
  | deleteRow src =>
    obtain ⟨s'', hs'', he⟩ := Option.map_eq_some_iff.1 hs
    cases he
    exact ⟨h.deleteRow hsound hs'', rfl⟩

/-- All steps of a run are sound where they are taken. -/
def AllSound (E : SqliteEngine) : SqliteSheet → List Op → Prop
  | _, [] => True
  | s, op :: ops => s.Sound E op ∧ ∀ after ∈ s.step E op, AllSound E after.1 ops

theorem run_eq {E : SqliteEngine} (ops : List Op) :
    ∀ {s : SqliteSheet} {r : PlainRows} {cells : List SheetCell},
    s.Shows r → AllSound E s ops → s.run E ops = some cells → cells = r.run ops := by
  induction ops with
  | nil =>
    intro s r cells _ _ hrun
    exact (Option.some.inj hrun).symm
  | cons op ops ih =>
    intro s r cells h hsound hrun
    obtain ⟨⟨s', now⟩, hstep, hrest⟩ := Option.bind_eq_some_iff.1 hrun
    obtain ⟨later, hlater, rfl⟩ := Option.map_eq_some_iff.1 hrest
    obtain ⟨hshows, rfl⟩ := shows_step h hsound.1 hstep
    rw [ih hshows (hsound.2 (s', _) hstep) hlater]
    rfl

/-- A table of which names and texts are C strings, as one is shown once it is connected. -/
theorem shows_connect {table : RowidTable String String}
    (hnames : ∀ name ∈ table.names, '\x00' ∉ name.toList)
    (htexts : ∀ row ∈ table.values, ∀ t, some t ∈ row → '\x00' ∉ t.toList) (types : List String) :
    (connect table types).Shows ⟨table.names.length, table.values⟩ where
  names :=
    (List.map_id _).symm.trans (List.map_congr_left fun name h =>
      ((cText_eq_self_iff name).2 (hnames name h)).symm)
  width := rfl
  plainWidth := rfl
  rows := rfl
  height := (List.length_map _).symm
  numbers := rfl
  texts := fun row hrow t ht => (cText_eq_self_iff t).2 (htexts row hrow t ht)
  pending := fun _ => ⟨rfl, rfl⟩
  cached := cached_of_empty rfl rfl rfl

/-- A run on a table of any rows, all steps of which report success and are sound. -/
structure Run where
  engine : SqliteEngine
  table : RowidTable String String
  -- the types of the columns
  types : List String
  typed : types.length = table.names.length
  -- the text of a statement ends at a NUL, so no name has one
  names : ∀ name ∈ table.names, '\x00' ∉ name.toList
  texts : ∀ row ∈ table.values, ∀ t, some t ∈ row → '\x00' ∉ t.toList
  ops : List Op
  cells : List SheetCell
  succeeds : (connect table types).run engine ops = some cells
  sound : AllSound engine (connect table types) ops

section
variable (E : SqliteEngine) (s : SqliteSheet)

instance (x y : Nat) : Decidable (s.Apart x y) :=
  inferInstanceAs
  (Decidable (∀ x' < s.w, ∀ y' < s.h, s.cache.key x' y' = s.cache.key x y → x' = x ∧ y' = y))

instance : Decidable s.Loadable :=
  inferInstanceAs (Decidable (s.pendingLoad = true → ∀ x < s.w, ∀ y < s.h, s.Apart x y))

instance (y : Nat) : Decidable (s.Located y) :=
  inferInstanceAs (Decidable (∀ id ∈ s.table.ids[y]?, toInt id = id))

instance : Decidable s.Numbered :=
  inferInstanceAs (Decidable (s.row2sql = (List.range s.h).map fun i : Nat => (i : Int) + 1))

instance (x : Nat) (text : String) : Decidable (s.Keeps E x text) :=
  inferInstanceAs (Decidable ('\x00' ∉ text.toList ∧ E.store (s.types.getD x "") text = text))

instance : ∀ op, Decidable (s.Sound E op)
  | .read _ _ => inferInstanceAs (Decidable (_ ∧ (_ → _)))
  | .write _ _ _ _ => inferInstanceAs (Decidable (_ ∧ _ ∧ _ ∧ (_ ∨ _)))
  | .insertColumn _ _ => inferInstanceAs (Decidable (_ ∨ _))
  | .deleteColumn _ => inferInstanceAs (Decidable (_ ∧ _))
  | .moveColumn _ _ => inferInstanceAs (Decidable (_ ∧ _))
  | .insertRow =>
    inferInstanceAs (Decidable (∀ id ∈ s.table.ids.getLast?, id < RowidTable.maxRowid))
  | .deleteRow src => inferInstanceAs (Decidable (s.Located src))

end

instance decidableAllSound (E : SqliteEngine) : ∀ s ops, Decidable (AllSound E s ops)
  | _, [] => isTrue trivial
  | s, op :: ops =>
    have (after : SqliteSheet × List SheetCell) : Decidable (AllSound E after.1 ops) :=
      decidableAllSound E after.1 ops
    inferInstanceAs (Decidable (s.Sound E op ∧ ∀ after ∈ s.step E op, AllSound E after.1 ops))

/-- An integer column makes a number of digits. -/
def integerEngine : SqliteEngine where
  pick _ := 0
  store type text :=
    if type = "INTEGER" ∧ text ≠ "" ∧ text.toList.all Char.isDigit then
      toString (text.toList.foldl (fun n c => 10 * n + (c.toNat - 48)) 0)
    else text

/-- Names and ages, rows in and out, a column put in and another taken out. -/
def ages : Run where
  engine := integerEngine
  table := {
    names := ["name", "age"]
    rows := [(1, [some "Ann", some "30"]), (2, [some "Bob", none])]
    distinct := by decide
    fits := by decide
    ordered := by decide }
  types := ["TEXT", "INTEGER"]
  typed := rfl
  names := by decide
  texts := by
    have hall : ∀ row ∈ [[some "Ann", some "30"], [some "Bob", none]], ∀ v ∈ row, ∀ t ∈ v, '\x00' ∉
      t.toList := by decide
    exact fun row hrow t ht => hall row hrow (some t) ht t rfl
  ops := [.read 1 1, .write 1 1 "41" false, .insertColumn 1 (some "town"), .read 2 1, .insertRow,
    .write 1 2 "007" false,
    .read 1 2, .read 2 2, .moveColumn 2 0, .deleteColumn 1, .deleteRow 0, .read 0 0, .read 1 1]
  cells :=
    [SheetCell.null, ⟨"41", false⟩, ⟨"007", false⟩, SheetCell.null, ⟨"41", false⟩, ⟨"007", false⟩]
  succeeds := by decide +kernel
  sound := by decide +kernel

/-- A table with a row taken out of the middle. -/
def gapped : RowidTable String String where
  names := ["a", "b"]
  rows := [(1, [some "x", some "p"]), (3, [some "y", some "q"])]
  distinct := by decide
  fits := by decide
  ordered := by decide

end

end SqliteSheet

end Coopy
