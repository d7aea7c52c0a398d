import Coopy.PolySheet
import Mathlib.Data.List.Basic

/-!
# Schema and sheet in lockstep

Above the two representations stands a single list of columns, each with its name, its type and
its cells, and a column operation there touches one column.  `Shown` says that a `PolySheet`
holds such a list.  The sheet and the schema run the same steps on rows and on vectors, so

    Shown cols p → valid op → p.columnOp op = some p' ∧ Shown (op.act … cols) p'    (Shown.columnOp)

No assertion fires.  The name of a column is written into the last row of the header, which a sheet
with fewer rows does not have:

    after each step of a run the two agree ↔ the header fits, or no operation gives a name
                                                                              (columns_lockstep_iff)
-/

namespace Coopy

open TypedSheet (insertBefore moveInRow)

/-! ## One list of columns -/

/-- A column of a table. -/
structure Column where
  name : String
  kind : ColumnType
  cell : Nat → SheetCell

/-- The column operations of a sheet. -/
inductive ColumnOp
  | insertColumn (base : Int) (info : ColumnInfo)
  | deleteColumn (column : Int)
  | moveColumn (src base : Int)
  | modifyColumn (column : Int) (info : ColumnInfo)
deriving DecidableEq

namespace ColumnOp

/-- The references of an operation on `w` columns; the end, as `-1`, is a place to insert or move
to. -/
def Valid (w : Nat) : ColumnOp → Prop
  | insertColumn base _ => -1 ≤ base ∧ base < w
  | deleteColumn column => 0 ≤ column ∧ column < w
  | moveColumn src base => (0 ≤ src ∧ src < w) ∧ -1 ≤ base ∧ base < w
  | modifyColumn column _ => 0 ≤ column ∧ column < w

instance (w : Nat) (op : ColumnOp) : Decidable (op.Valid w) := by
  cases op <;> exact inferInstanceAs (Decidable (_ ∧ _))

/-- The operation gives the column a name. -/
def named : ColumnOp → Bool
  | insertColumn _ info => info.nameSet
  | modifyColumn _ info => info.nameSet
  | _ => false

def widthAfter (w : Nat) : ColumnOp → Nat
  | insertColumn _ _ => w + 1
  | deleteColumn _ => w - 1
  | _ => w

/-- Each operation is valid where it comes. -/
def ValidRun : Nat → List ColumnOp → Prop
  | _, [] => True
  | w, op :: ops => op.Valid w ∧ ValidRun (op.widthAfter w) ops

/-- Where a column goes that is put before `base` among `n` others. -/
def place (n : Nat) (base : Int) : Nat := if base < 0 then n else base.toNat

theorem place_le {n : Nat} {base : Int} (h : base ≤ n) : place n base ≤ n := by
  unfold place
  split <;> omega

/-- The name in the header row, where there is one. -/
def title (header : Option Nat) (name : String) (i : Nat) (cols : List Column) : List Column :=
  match header with
  | none => cols
  | some y => cols.modify i fun col =>
      { col with
        cell := fun y' => if y' = y then { col.cell y' with text := name } else col.cell y' }

/-- What an operation is for: one column comes, goes, changes place or changes its name. -/
def act (header : ColumnInfo → Option Nat) (zero : SheetCell) : ColumnOp → List Column → List Column
  | insertColumn base info, cols =>
    title (header info) info.name (place cols.length base)
      (cols.insertIdx (place cols.length base) ⟨info.name, if base = -1 then {}
        else info.columnType, fun _ => zero⟩)
  | deleteColumn column, cols => cols.eraseIdx column.toNat
  | moveColumn src base, cols =>
    (cols[src.toNat]?.map fun col =>
      (cols.eraseIdx src.toNat).insertIdx
        (place (cols.length - 1) (if base > src then base - 1 else base)) col).getD cols
  | modifyColumn column info, cols =>
    title (header info) info.name column.toNat (cols.modify column.toNat fun col =>
      { col with name := info.name })

end ColumnOp

/-! ## The steps on rows and vectors -/

namespace TypedSheet

variable {α β : Type}

theorem insertBefore_eq_insertIdx (xs : List α) (base : Int) (x : α) :
    insertBefore xs base x = xs.insertIdx (ColumnOp.place xs.length base) x := by
  unfold insertBefore ColumnOp.place
  by_cases h : base < 0
  · rw [if_neg (by omega), if_pos h, List.insertIdx_length_self]
  · rw [if_pos (by omega), if_neg h]

theorem moveInRow_eq_insertIdx (zero : α) {xs : List α} {src : Nat} {base : Int}
    (hs : src < xs.length) (hb : -1 ≤ base) : moveInRow zero xs src base =
      (xs.eraseIdx src).insertIdx
        (ColumnOp.place (xs.length - 1) (if base > src then base - 1 else base)) xs[src] := by
  have hx : xs.getD src zero = xs[src] := List.getD_eq_getElem _ _ hs
  simp only [moveInRow, insertBefore_eq_insertIdx, hx]
  by_cases hneg : base < 0
  · have hfrom : ColumnOp.place (xs.length - 1) (if base > src then base - 1 else base) =
      xs.length - 1 := by
      rw [if_neg (by omega)]
      exact if_pos hneg
    have hto : ColumnOp.place xs.length base = xs.length - 1 + 1 := by
      rw [show xs.length - 1 + 1 = xs.length by omega]
      exact if_pos hneg
    rw [hfrom, hto, if_neg (by omega), List.insertIdx_eraseIdx_of_ge hs (by omega)]
  · have hto : ColumnOp.place xs.length base = base.toNat := if_neg hneg
    by_cases hle : base ≤ src
    · have hfrom : ColumnOp.place (xs.length - 1) (if base > src then base - 1 else base) =
        base.toNat := by
        rw [if_neg (by omega)]
        exact if_neg hneg
      rw [hfrom, hto, if_pos ⟨hle, by omega⟩, List.insertIdx_eraseIdx_of_le hs (by omega)]
    · have hfrom : ColumnOp.place (xs.length - 1) (if base > src then base - 1 else base) =
        (base - 1).toNat := by
        rw [if_pos (by omega)]
        exact if_neg (by omega)
      rw [hfrom, hto, if_neg (by omega), List.insertIdx_eraseIdx_of_ge hs (by omega),
        show (base - 1).toNat + 1 = base.toNat by omega]

theorem map_insertBefore (f : α → β) (xs : List α) (base : Int) (x : α) :
    (insertBefore xs base x).map f = insertBefore (xs.map f) base (f x) := by
  rw [insertBefore_eq_insertIdx, insertBefore_eq_insertIdx, List.map_insertIdx, List.length_map]

end TypedSheet

namespace PolySheet

/-- The sheet and the schema hold these columns. -/
structure Shown (cols : List Column) (p : PolySheet) : Prop where
  names : p.schema.columns = cols.map Column.name
  kinds : p.schema.kinds = cols.map Column.kind
  width : p.sheet.w = cols.length
  cells : p.sheet.arr = (List.range p.sheet.height).map fun y => cols.map fun col => col.cell y

/-- The sheet has all rows of the header, or keeps the names outside of its cells. -/
def HeaderFits (p : PolySheet) : Prop := p.external = true ∨ p.schema.hh ≤ p.sheet.height

instance (p : PolySheet) : Decidable p.HeaderFits := inferInstanceAs (Decidable (_ ∨ _))

/-- What a column operation leaves alone. -/
structure SameFrame (p p' : PolySheet) : Prop where
  zero : p'.sheet.zero = p.sheet.zero
  height : p'.sheet.height = p.sheet.height
  hh : p'.schema.hh = p.schema.hh
  external : p'.external = p.external

theorem SameFrame.headerRow {p p' : PolySheet} (h : SameFrame p p') :
    p'.headerRow = p.headerRow := by
  funext info
  unfold PolySheet.headerRow
  rw [h.hh, h.external]

theorem SameFrame.fits {p p' : PolySheet} (h : SameFrame p p') : p'.HeaderFits ↔ p.HeaderFits := by
  unfold HeaderFits
  rw [h.external, h.hh, h.height]

theorem SameFrame.trans {p p' p'' : PolySheet} (h : SameFrame p p') (h' : SameFrame p' p'') :
    SameFrame p p'' :=
  ⟨h'.zero.trans h.zero, h'.height.trans h.height, h'.hh.trans h.hh, h'.external.trans h.external⟩

/-- The columns of a sheet and its schema, side by side. -/
def columnsOf (p : PolySheet) : List Column :=
  (List.range p.sheet.width).map fun x =>
    ⟨p.schema.columns.getD x "", p.schema.kinds.getD x {}, fun y => p.sheet.cell x y⟩

def columnOp (p : PolySheet) : ColumnOp → Option PolySheet
  | .insertColumn base info => (p.insertColumn base info).map Prod.fst
  | .deleteColumn column => some (p.deleteColumn column).1
  | .moveColumn src base => (p.moveColumn src base).map Prod.fst
  | .modifyColumn column info => (p.modifyColumn column info).map Prod.fst

def columnOps : List ColumnOp → PolySheet → Option PolySheet
  | [], p => some p
  | op :: ops, p => (p.columnOp op).bind (columnOps ops)

theorem map_getD_range {α β : Type} (xs : List α) (d : α) (f : α → β) {n : Nat}
    (h : xs.length = n) : (List.range n).map (fun x => f (xs.getD x d)) = xs.map f := by
  refine List.ext_getElem (by simp [h]) fun i h1 h2 => ?_
  rw [List.getElem_map, List.getElem_map, List.getElem_range, List.getD_eq_getElem]

/-- Equal counts are all it takes at the start. -/
theorem shown_columnsOf {p : PolySheet} (hrect : ∀ row ∈ p.sheet.arr, row.length = p.sheet.width)
    (hcount : p.schema.getColumnCount = p.sheet.width) : Shown p.columnsOf p := by
  refine ⟨?_, ?_, ?_, ?_⟩
  · unfold columnsOf
    rw [List.map_map]
    exact ((map_getD_range _ "" (fun x => x) hcount).trans (List.map_id' _)).symm
  · unfold columnsOf
    rw [List.map_map]
    exact ((map_getD_range _ {} (fun x => x) (p.schema.aligned.trans hcount)).trans
      (List.map_id' _)).symm
  · unfold columnsOf
    rw [List.length_map, List.length_range]
    rfl
  · refine List.ext_getElem (by simp [TypedSheet.height]) fun y h1 h2 => ?_
    rw [List.getElem_map, List.getElem_range]
    unfold columnsOf TypedSheet.cell
    rw [List.map_map]
    refine (((map_getD_range p.sheet.arr[y] p.sheet.zero (fun x => x)
      (hrect _ (List.getElem_mem h1))).trans
        (List.map_id' _)).symm).trans ?_
    refine List.map_congr_left fun x _ => ?_
    simp only [Function.comp_apply, List.getD_eq_getElem _ _ h1]

section
variable {cols : List Column} {p : PolySheet}

theorem map_modify_of_comm {α β : Type} {f : α → α} {g : β → β} {k : α → β}
    (h : ∀ x, k (f x) = g (k x)) (xs : List α)
    (i : Nat) : (xs.modify i f).map k = (xs.map k).modify i g := by
  refine List.ext_getElem? fun j => ?_
  rw [List.getElem?_map, List.getElem?_modify, List.getElem?_modify, List.getElem?_map]
  cases xs[j]? with
  | none => rfl
  | some x =>
    simp only [Option.map_eq_map, Option.map_some]
    split
    · exact congrArg some (h x)
    · rfl

theorem map_modify_of_inv {α β : Type} {f : α → α} {k : α → β} (h : ∀ x, k (f x) = k x)
    (xs : List α) (i : Nat) : (xs.modify i f).map k = xs.map k := by
  rw [map_modify_of_comm (g := id) h, List.modify_id]

/-- The name goes to the header cell of the column, if there is one. -/
theorem Shown.postApplyInfo (h : Shown cols p) {info : ColumnInfo} (hfits : info.nameSet = true →
    p.HeaderFits) (i : Nat) : ∃ p', p.postApplyInfo info i = some p' ∧
    Shown (ColumnOp.title (p.headerRow info) info.name i cols) p' ∧
      SameFrame p p' := by
  unfold PolySheet.postApplyInfo ColumnOp.title
  cases hh : p.headerRow info with
  | none => exact ⟨p, rfl, h, rfl, rfl, rfl, rfl⟩
  | some y0 =>
    simp only [Int.toNat_natCast]
    have hy0 : y0 < p.sheet.height := by
      unfold PolySheet.headerRow at hh
      obtain ⟨⟨hset, hcells, hpos⟩, hy0⟩ := Option.ite_none_right_eq_some.1 hh
      obtain rfl := Option.some.inj hy0
      have hle := (hfits hset).resolve_left (by rw [hcells]; exact Bool.false_ne_true)
      omega
    have hheight : (p.sheet.cellText i y0 info.name).height = p.sheet.height :=
      List.length_modify ..
    refine ⟨_, if_pos hy0, ⟨?_, ?_, ?_, ?_⟩, rfl, hheight, rfl, rfl⟩
    · refine h.names.trans (Eq.symm ?_)
      apply map_modify_of_inv
      exact fun _ => rfl
    · refine h.kinds.trans (Eq.symm ?_)
      apply map_modify_of_inv
      exact fun _ => rfl
    · rw [List.length_modify]
      exact h.width
    · show (p.sheet.arr.modify y0 fun row => row.modify i fun c => { c with text := info.name }) = _
      simp only [hheight]
      refine List.ext_getElem (by simp [TypedSheet.height]) fun y h1 h2 => ?_
      have hy : y < p.sheet.arr.length := by simpa using h1
      have hrow : p.sheet.arr[y] = cols.map fun col => col.cell y := by
        have := List.getElem_of_eq h.cells hy
        rwa [List.getElem_map, List.getElem_range] at this
      rw [List.getElem_modify, List.getElem_map, List.getElem_range, hrow]
      split
      · next heq =>
        rw [map_modify_of_comm (g := fun c => { c with text := info.name })]
        intro col
        simp only [heq, if_true]
      · next hne =>
        rw [map_modify_of_inv]
        intro col
        simp only [if_neg fun he => hne (Eq.symm he)]

/-- Where the header has more rows than the sheet, the name is written out of bounds. -/
theorem postApplyInfo_eq_none {info : ColumnInfo} (hset : info.nameSet = true)
    (hfits : ¬p.HeaderFits) (result : Int) : p.postApplyInfo info result = none := by
  obtain ⟨hcells, hlt⟩ := not_or.1 hfits
  have hcells : p.external = false := Bool.not_eq_true _ ▸ hcells
  have hheader : p.headerRow info = some (p.schema.hh - 1).toNat := if_pos ⟨hset, hcells, by omega⟩
  unfold PolySheet.postApplyInfo
  rw [hheader]
  exact if_neg (by omega)

theorem Shown.count (h : Shown cols p) : p.schema.columns.length = p.sheet.w := by
  rw [h.names, List.length_map, h.width]

/-- The rows of the sheet, whatever list of columns they come from. -/
theorem Shown.map_rows (h : Shown cols p) {f : List SheetCell → List SheetCell}
    {cols' : List Column}
    (hf : ∀ y, f (cols.map fun col => col.cell y) = cols'.map fun col => col.cell y) :
    p.sheet.arr.map f = (List.range (p.sheet.arr.map f).length).map fun y => cols'.map fun col =>
    col.cell y := by
  rw [List.length_map]
  conv => lhs; rw [h.cells]
  rw [List.map_map]
  exact List.map_congr_left fun y _ => hf y

/-- Insertion. -/
theorem Shown.insertColumn (h : Shown cols p) {base : Int} {info : ColumnInfo} (hb : -1 ≤ base)
    (hb' : base < cols.length) : ∃ p' : PolySheet, p.insertColumn base info =
        (p'.postApplyInfo info (ColumnOp.place cols.length base : Nat)).map
          (·, (ColumnOp.place cols.length base : Int)) ∧
      Shown (cols.insertIdx (ColumnOp.place cols.length base)
        ⟨info.name, if base = -1 then {} else info.columnType, fun _ => p.sheet.zero⟩) p' ∧
          SameFrame p p' := by
  have hw := h.width
  have hcount := h.count
  have hsheet : p.sheet.insertColumn base =
      ({ p.sheet with
        arr := p.sheet.arr.map fun row => insertBefore row base p.sheet.zero
        w := p.sheet.w + 1 }, (ColumnOp.place cols.length base : Int)) := by
    unfold TypedSheet.insertColumn ColumnOp.place
    rw [if_neg (by omega)]
    by_cases hneg : base < 0
    · rw [if_neg (by omega), if_pos hneg, hw]
    · rw [if_pos (by omega), if_neg hneg]
      congr 1
      omega
  have hschema : p.schema.insertColumn base info =
      ({ columns := insertBefore p.schema.columns base info.name
         kinds := insertBefore p.schema.kinds base (if base = -1 then {} else info.columnType)
         hh := p.schema.hh
         aligned := by
          have hk := p.schema.aligned
          rw [SimpleSheetSchema.length_insertBefore _ (by omega),
            SimpleSheetSchema.length_insertBefore _ (by omega), hk] },
        (ColumnOp.place cols.length base : Int)) := by
    unfold SimpleSheetSchema.insertColumn ColumnOp.place insertBefore
    by_cases hneg : base = -1
    · subst hneg
      simp [hcount, hw]
    · have hpos : 0 ≤ base := by omega
      simp only [if_neg hneg, if_pos hpos, if_neg (show ¬base < 0 by omega), ge_iff_le]
      congr 1
      omega
  obtain ⟨p', hp'⟩ : ∃ p' : PolySheet, p' =
      { p with
        sheet := (p.sheet.insertColumn base).1
        schema := (p.schema.insertColumn base info).1 } := ⟨_, rfl⟩
  have hshown : Shown (cols.insertIdx (ColumnOp.place cols.length base)
      ⟨info.name, if base = -1 then {} else info.columnType, fun _ => p.sheet.zero⟩) p' := by
    rw [← TypedSheet.insertBefore_eq_insertIdx]
    rw [hp', hsheet, hschema]
    refine ⟨?_, ?_, ?_, ?_⟩
    · rw [TypedSheet.map_insertBefore, ← h.names]
    · rw [TypedSheet.map_insertBefore, ← h.kinds]
    · show p.sheet.w + 1 = _
      rw [SimpleSheetSchema.length_insertBefore _ (by omega), hw]
    · exact h.map_rows fun y => by rw [TypedSheet.map_insertBefore]
  have hheight : (p.sheet.insertColumn base).1.height = p.sheet.height := by
    rw [hsheet]
    exact List.length_map _
  refine ⟨p', ?_,
    hshown, by rw [hp', hsheet], by rw [hp']; exact hheight, by rw [hp', hschema], by rw [hp']⟩
  unfold PolySheet.insertColumn
  simp only [hsheet, hschema] at hp' ⊢
  rw [if_neg (by omega), if_neg (by simp), ← hp']

/-- Deletion. -/
theorem Shown.deleteColumn (h : Shown cols p) {column : Int} (hc : 0 ≤ column)
    (hc' : column < cols.length) :
    Shown ((ColumnOp.deleteColumn column).act p.headerRow p.sheet.zero cols)
    (p.deleteColumn column).1 ∧
      SameFrame p (p.deleteColumn column).1 := by
  have hw := h.width
  have hsheet : p.sheet.deleteColumn column =
      ({ p.sheet with
        arr := p.sheet.arr.map fun row => row.eraseIdx column.toNat
        w := p.sheet.w - 1 }, true) :=
    if_neg (by omega)
  unfold PolySheet.deleteColumn
  simp only [hsheet, Bool.true_eq_false, if_false]
  refine ⟨⟨?_, ?_, ?_, ?_⟩, rfl, List.length_map _, rfl, rfl⟩
  · exact (congrArg (fun xs => xs.eraseIdx column.toNat) h.names).trans (List.eraseIdx_map ..)
  · exact (congrArg (fun xs => xs.eraseIdx column.toNat) h.kinds).trans (List.eraseIdx_map ..)
  · show p.sheet.w - 1 = (cols.eraseIdx column.toNat).length
    rw [List.length_eraseIdx, if_pos (by omega), hw]
  · exact h.map_rows fun y => List.eraseIdx_map ..

theorem act_moveColumn {src base : Int} (hs : 0 ≤ src) (hs' : src < cols.length)
    (hb : -1 ≤ base) (c : Column) (header : ColumnInfo → Option Nat) (zero : SheetCell) :
    (ColumnOp.moveColumn src base).act header zero cols = moveInRow c cols src.toNat base := by
  have hlt : src.toNat < cols.length := by omega
  rw [TypedSheet.moveInRow_eq_insertIdx c hlt hb]
  unfold ColumnOp.act
  simp only [List.getElem?_eq_getElem hlt, Option.map_some, Option.getD_some]
  rw [show ((src.toNat : Nat) : Int) = src by omega]

theorem map_moveInRow {α β : Type} (f : α → β) {xs : List α} {src : Nat} {base : Int}
    (x : α) (y : β) (hs : src < xs.length) (hb : -1 ≤ base) :
    (moveInRow x xs src base).map f = moveInRow y (xs.map f) src base := by
  rw [TypedSheet.moveInRow_eq_insertIdx x hs hb,
    TypedSheet.moveInRow_eq_insertIdx y (by rwa [List.length_map]) hb,
    List.map_insertIdx, List.eraseIdx_map, List.getElem_map]
  simp only [List.length_map]

/-- Move. -/
theorem Shown.moveColumn (h : Shown cols p) {src base : Int} (hs : 0 ≤ src)
    (hs' : src < cols.length) (hb : -1 ≤ base)
    (hb' : base < cols.length) : ∃ p' r, p.moveColumn src base = some (p', r) ∧
      Shown ((ColumnOp.moveColumn src base).act p.headerRow p.sheet.zero cols) p' ∧
      SameFrame p p' := by
  have hw := h.width
  have hcount := h.count
  have hlt : src.toNat < cols.length := by omega
  have hcond : ¬(base ≥ p.sheet.w ∨ src < 0 ∨ src ≥ p.sheet.w) := by omega
  have hsheet : p.sheet.moveColumn src base = _ := if_neg hcond
  have hschema : p.schema.moveColumn src base = _ := if_neg (by rw [hcount]; exact hcond)
  unfold PolySheet.moveColumn
  simp only [hsheet, hschema, hcount]
  rw [if_neg (by split <;> [omega; split <;> omega]), if_neg (by simp)]
  refine ⟨_, _, rfl, ⟨?_, ?_, ?_, ?_⟩, rfl, List.length_map _, rfl, rfl⟩
  · rw [act_moveColumn hs hs' hb ⟨"", {}, fun _ => p.sheet.zero⟩,
      map_moveInRow Column.name _ "" hlt hb, ← h.names]
  · rw [act_moveColumn hs hs' hb ⟨"", {}, fun _ => p.sheet.zero⟩,
      map_moveInRow Column.kind _ {} hlt hb, ← h.kinds]
  · rw [act_moveColumn hs hs' hb ⟨"", {}, fun _ => p.sheet.zero⟩,
      TypedSheet.moveInRow_eq_insertIdx _ hlt hb]
    show p.sheet.w = _
    rw [List.length_insertIdx_of_le_length, List.length_eraseIdx_of_lt hlt]
    · omega
    · rw [List.length_eraseIdx_of_lt hlt]
      exact ColumnOp.place_le (by split <;> omega)
  · refine h.map_rows fun y => ?_
    rw [act_moveColumn hs hs' hb ⟨"", {}, fun _ => p.sheet.zero⟩,
      map_moveInRow _ _ p.sheet.zero hlt hb]

/-- A new name. -/
theorem Shown.modifyColumn (h : Shown cols p) {column : Int} {info : ColumnInfo} (hc : 0 ≤ column) :
    ∃ p' : PolySheet, p.modifyColumn column info = (p'.postApplyInfo info column.toNat).map
      (·, true) ∧
      Shown (cols.modify column.toNat fun col => { col with name := info.name }) p' ∧
      SameFrame p p' := by
  refine ⟨{ p with schema := (p.schema.modifyColumn column info).1 }, ?_, ⟨?_, ?_, ?_, ?_⟩, rfl,
    rfl, rfl, rfl⟩
  · rw [show ((column.toNat : Nat) : Int) = column by omega]
    rfl
  · show p.schema.columns.set column.toNat info.name = _
    rw [h.names]
    rw [List.set_eq_modify]
    refine Eq.symm ?_
    apply map_modify_of_comm
    exact fun _ => rfl
  · refine h.kinds.trans (Eq.symm ?_)
    apply map_modify_of_inv
    exact fun _ => rfl
  · rw [List.length_modify]
    exact h.width
  · refine h.cells.trans (List.map_congr_left fun y _ => Eq.symm ?_)
    apply map_modify_of_inv
    exact fun _ => rfl

/-- **One operation**, if there is a place for its name. -/
theorem Shown.columnOp (h : Shown cols p) {op : ColumnOp} (hv : op.Valid cols.length)
    (hfits : op.named = true → p.HeaderFits) : ∃ p', p.columnOp op = some p' ∧
      Shown (op.act p.headerRow p.sheet.zero cols) p' ∧ SameFrame p p' := by
  cases op with
  | insertColumn base info =>
    obtain ⟨p₁, heq, h₁, hframe₁⟩ := @Shown.insertColumn _ _ h _ info hv.1 hv.2
    obtain ⟨p', hp', h', hframe⟩ :=
      h₁.postApplyInfo (fun hset => hframe₁.fits.2 (hfits hset)) (ColumnOp.place cols.length base)
    rw [hframe₁.headerRow] at h'
    refine ⟨p', ?_, h', hframe₁.trans hframe⟩
    rw [PolySheet.columnOp, heq, hp']
    rfl
  | deleteColumn column => exact ⟨_, rfl, h.deleteColumn hv.1 hv.2⟩
  | moveColumn src base =>
    obtain ⟨p', r, hp', hrest⟩ := h.moveColumn hv.1.1 hv.1.2 hv.2.1 hv.2.2
    exact ⟨p', by rw [PolySheet.columnOp, hp']; rfl, hrest⟩
  | modifyColumn column info =>
    obtain ⟨p₁, heq, h₁, hframe₁⟩ := @Shown.modifyColumn _ _ h _ info hv.1
    obtain ⟨p', hp', h', hframe⟩ :=
      h₁.postApplyInfo (fun hset => hframe₁.fits.2 (hfits hset)) column.toNat
    rw [hframe₁.headerRow] at h'
    refine ⟨p', ?_, h', hframe₁.trans hframe⟩
    rw [PolySheet.columnOp, heq, hp']
    rfl

/-- A name that has no place. -/
theorem Shown.columnOp_eq_none (h : Shown cols p) {op : ColumnOp} (hv : op.Valid cols.length)
    (hnamed : op.named = true) (hfits : ¬p.HeaderFits) : p.columnOp op = none := by
  cases op with
  | insertColumn base info =>
    obtain ⟨p₁, heq, -, hframe⟩ := @Shown.insertColumn _ _ h _ info hv.1 hv.2
    rw [PolySheet.columnOp, heq, postApplyInfo_eq_none hnamed fun hf => hfits (hframe.fits.1 hf)]
    rfl
  | deleteColumn column => cases hnamed
  | moveColumn src base => cases hnamed
  | modifyColumn column info =>
    obtain ⟨p₁, heq, -, hframe⟩ := @Shown.modifyColumn _ _ h _ info hv.1
    rw [PolySheet.columnOp, heq, postApplyInfo_eq_none hnamed fun hf => hfits (hframe.fits.1 hf)]
    rfl

theorem length_act {header : ColumnInfo → Option Nat} {zero : SheetCell} {op : ColumnOp}
    (hv : op.Valid cols.length) : (op.act header zero cols).length = op.widthAfter cols.length := by
  have htitle : ∀ (h : Option Nat) (name : String) (i : Nat) (cs : List Column),
      (ColumnOp.title h name i cs).length = cs.length := by
    intro h name i cs
    unfold ColumnOp.title
    cases h with
    | none => rfl
    | some y => exact List.length_modify ..
  cases op with
  | insertColumn base info =>
    show (ColumnOp.title _ _ _ _).length = cols.length + 1
    rw [htitle, List.length_insertIdx_of_le_length (ColumnOp.place_le (Int.le_of_lt hv.2))]
  | deleteColumn column =>
    obtain ⟨h0, hlt⟩ := hv
    exact List.length_eraseIdx_of_lt (by omega)
  | moveColumn src base =>
    obtain ⟨⟨h0, hlt⟩, hb, hb'⟩ := hv
    have hs : src.toNat < cols.length := by omega
    rw [act_moveColumn h0 hlt hb ⟨"", {}, fun _ => zero⟩, TypedSheet.moveInRow_eq_insertIdx _ hs hb,
      List.length_insertIdx_of_le_length, List.length_eraseIdx_of_lt hs]
    · show cols.length - 1 + 1 = cols.length
      omega
    · rw [List.length_eraseIdx_of_lt hs]
      exact ColumnOp.place_le (by split <;> omega)
  | modifyColumn column info =>
    show (ColumnOp.title _ _ _ _).length = cols.length
    rw [htitle, List.length_modify]

/-- A run of operations. -/
theorem Shown.columnOps (ops : List ColumnOp) :
    ∀ {cols : List Column} {p : PolySheet}, Shown cols p →
    ColumnOp.ValidRun cols.length ops → (∀ op ∈ ops, op.named = true → p.HeaderFits) →
    ∃ p', columnOps ops p = some p' ∧
      Shown (ops.foldl (fun cols op => op.act p.headerRow p.sheet.zero cols) cols) p' := by
  induction ops with
  | nil => exact fun h _ _ => ⟨_, rfl, h⟩
  | cons op ops ih =>
    intro cols p h hv hfits
    obtain ⟨p1, hp1, h1, hframe⟩ := h.columnOp hv.1 (hfits op List.mem_cons_self)
    have hv2 := hv.2
    rw [← length_act hv.1] at hv2
    obtain ⟨p', hp', h'⟩ :=
      ih h1 hv2 fun o ho hnamed => hframe.fits.2 (hfits o (List.mem_cons_of_mem _ ho) hnamed)
    rw [hframe.headerRow, hframe.zero] at h'
    refine ⟨p', ?_, h'⟩
    rw [PolySheet.columnOps, hp1]
    exact hp'

/-- A run ends with the first name that has no place. -/
theorem Shown.columnOps_eq_none {ops : List ColumnOp} :
    ∀ {cols : List Column} {p : PolySheet}, Shown cols p →
    ColumnOp.ValidRun cols.length ops → ¬p.HeaderFits → (∃ op ∈ ops, op.named = true) →
    PolySheet.columnOps ops p = none := by
  induction ops with
  | nil => exact fun _ _ _ ⟨op, hop, _⟩ => nomatch hop
  | cons op ops ih =>
    rintro cols p h hv hfits ⟨o, ho, hnamed⟩
    rw [PolySheet.columnOps]
    cases hop : op.named with
    | true =>
      rw [h.columnOp_eq_none hv.1 hop hfits]
      rfl
    | false =>
      obtain ⟨p1, hp1, h1, hframe⟩ := h.columnOp hv.1 fun ht => by
        rw [hop] at ht
        cases ht
      have hv2 := hv.2
      rw [← length_act hv.1] at hv2
      rw [hp1]
      refine ih h1 hv2 (fun hf => hfits (hframe.fits.1 hf)) ⟨o, ?_, hnamed⟩
      rcases List.mem_cons.1 ho with rfl | ho
      · rw [hop] at hnamed
        cases hnamed
      · exact ho

theorem validRun_of_append {pre post : List ColumnOp} :
    ∀ {w : Nat}, ColumnOp.ValidRun w (pre ++ post) →
    ColumnOp.ValidRun w pre := by
  induction pre with
  | nil => exact fun _ => trivial
  | cons op pre ih => exact fun h => ⟨h.1, ih h.2⟩

end

/-- After these operations the counts agree, and both sides hold the columns that the operations
make of those at the start. -/
structure InStep (p : PolySheet) (ops : List ColumnOp) (p' : PolySheet) : Prop where
  ends : columnOps ops p = some p'
  count : p'.schema.getColumnCount = p'.sheet.width
  shown : Shown (ops.foldl (fun cols op => op.act p.headerRow p.sheet.zero cols) p.columnsOf) p'

/-- **Lockstep.**  From a schema that counts the sheet's columns on, operations with valid
references fail no assertion and keep the two in step, after each of them, if and only if the sheet
has all rows of its header or no operation gives a column a name. -/
theorem columns_lockstep_iff {p : PolySheet}
    (hrect : ∀ row ∈ p.sheet.arr, row.length = p.sheet.width)
    (hcount : p.schema.getColumnCount = p.sheet.width) {ops : List ColumnOp}
    (hvalid : ColumnOp.ValidRun p.sheet.width ops) :
    (∀ pre post, ops = pre ++ post → ∃ p', InStep p pre p') ↔ p.HeaderFits ∨
    ∀ op ∈ ops, op.named = false := by
  have h0 := shown_columnsOf hrect hcount
  have hlen : p.columnsOf.length = p.sheet.width := h0.width.symm
  rw [← hlen] at hvalid
  constructor
  · intro hsteps
    by_contra hnot
    obtain ⟨hfits, hnamed⟩ := not_or.1 hnot
    obtain ⟨p', hp', -⟩ := hsteps ops [] (List.append_nil _).symm
    have hnone := h0.columnOps_eq_none hvalid hfits (by simpa using hnamed)
    rw [hnone] at hp'
    cases hp'
  · rintro hcond pre post rfl
    have hfits : ∀ op ∈ pre, op.named = true → p.HeaderFits := fun op hop hnamed =>
      hcond.resolve_right fun hall => by
        rw [hall op (List.mem_append_left _ hop)] at hnamed
        cases hnamed
    obtain ⟨p', hp', h'⟩ := h0.columnOps pre (validRun_of_append hvalid) hfits
    exact ⟨p', hp', h'.count, h'⟩

/-- Two columns under a header row. -/
def twoColumns : PolySheet where
  sheet := ⟨[[⟨"id", false⟩, ⟨"name", false⟩], [⟨"1", false⟩, ⟨"ann", false⟩]], 2, ⟨"", false⟩⟩
  schema := ⟨["id", "name"], [{}, {}], 1, rfl⟩

theorem columns_lockstep_iff_twoColumns :
    ∃ p', InStep twoColumns [.moveColumn 0 (-1), .insertColumn 1 (.named "age"),
      .modifyColumn 2 (.named "key")] p' :=
  (@columns_lockstep_iff twoColumns (by decide) rfl
    [.moveColumn 0 (-1), .insertColumn 1 (.named "age"), .modifyColumn 2 (.named "key"),
      .deleteColumn 0]
    ⟨by decide, by decide, by decide, by decide, trivial⟩).2 (Or.inl (by decide)) _
      [.deleteColumn 0] rfl

/-- The same columns, and no rows. -/
def noRows : PolySheet := { twoColumns with sheet := ⟨[], 2, ⟨"", false⟩⟩ }

/-- The name of a third column goes to a row that is not there. -/
theorem not_columns_lockstep : noRows.schema.getColumnCount = noRows.sheet.width ∧
    ColumnOp.ValidRun noRows.sheet.width [.insertColumn (-1) (.named "age")] ∧
      columnOps [.insertColumn (-1) (.named "age")] noRows = none :=
  ⟨rfl, ⟨by decide, trivial⟩, by decide⟩

example : (columnOps [.moveColumn 0 (-1), .insertColumn 1 (.named "age")] twoColumns).map
    (fun p => (p.schema.columns, p.sheet.arr.map (List.map SheetCell.text))) =
      some (["name", "age", "id"], [["name", "age", "id"], ["ann", "", "1"]]) := by decide

end PolySheet

end Coopy
