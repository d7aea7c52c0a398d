import Coopy.CsvRead

/-!
# `CsvSheet`: building and editing one sheet

The height is kept twice, in `h` and in the record counter `th`; the width is that of the longest
record, and a record keeps its own length.  The operations come from `CsvSheet`, `EscapedTypedSheet`
and `TypedSheet`, and each updates some of these fields.  An access beyond the end of a vector has
no meaning, and gives `none`.

    height and stored rows agree and every cell can be read and written, all through a run
      ↔ a record is added only where `th` is the height and no record becomes shorter than the
        width,
        and only such sheets are copied                                     (EditedCsv.soundAll_iff)
-/

namespace Coopy

/-! ## Vectors -/

section
variable {α : Type}

/-- `v.insert(v.begin() + i, x)`. -/
def vectorInsert (v : List α) (i : Nat) (x : α) : Option (List α) :=
  if i ≤ v.length then some (v.insertIdx i x) else none

/-- `v.erase(v.begin() + i)`. -/
def vectorErase (v : List α) (i : Nat) : Option (List α) :=
  if i < v.length then some (v.eraseIdx i) else none

end

/-! ## The sheet -/

/-- A `CsvSheet` with the cell that new places get. -/
structure EditedCsv extends CsvSheet where
  zero : SheetCell := ⟨"", false⟩
deriving DecidableEq, Repr

namespace EditedCsv

def addField (s : EditedCsv) (text : List Char) (escaped : Bool) : EditedCsv :=
  { s with toCsvSheet := s.toCsvSheet.addField text escaped }

def addRecord (s : EditedCsv) : EditedCsv := { s with toCsvSheet := s.toCsvSheet.addRecord }

def clear (s : EditedCsv) : EditedCsv :=
  { s with tw := 0, th := 0, w := 0, h := 0, arr := [], record := [], valid := true }

/-! ### Reading and writing -/

/-- `cellString`: a record is asked for its length only where the sheet is known to be ragged. -/
def cellString (s : EditedCsv) (x y : Nat) : Option String := do
  let row ← s.arr[y]?
  if s.valid then (row[x]?).map SheetCell.text
  else if row.length > x then (row[x]?).map SheetCell.text
  else some ""

/-- `cellString(x, y, str, escaped)`. -/
def setCellString (s : EditedCsv) (x y : Nat) (text : String) (escaped : Bool) :
    Option EditedCsv := do
  let row ← s.arr[y]?
  let _ ← row[x]?
  some { s with arr := s.arr.set y (row.set x ⟨text, escaped⟩) }

/-! ### Rows -/

def insertRow (s : EditedCsv) (base : Int) : Option (EditedCsv × Int) :=
  if base ≥ s.h then some (s, -1)
  else do
    let offset := if base < 0 then s.h else base.toNat
    let arr ← if base < 0 then some (s.arr ++ [[]]) else vectorInsert s.arr offset []
    -- `arr[offset]` is filled up cell by cell
    if s.w = 0 ∨ offset < arr.length then
      some ({ s with arr := arr.modify offset (· ++ List.replicate s.w s.zero), h := s.h + 1 },
        (offset : Int))
    else none

def deleteRow (s : EditedCsv) (src : Int) : Option (EditedCsv × Bool) :=
  if src < 0 ∨ src ≥ s.h then some (s, false)
  else do
    let arr ← vectorErase s.arr src.toNat
    some ({ s with arr := arr, h := s.h - 1 }, true)

/-- The deprecated way to delete a row, which sets both heights. -/
def removeRow (s : EditedCsv) (index : Nat) : Option (EditedCsv × Bool) := do
  let arr ← vectorErase s.arr index
  if arr.length < s.h then some ({ s with arr := arr, th := arr.length, h := arr.length }, true)
  else some ({ s with arr := arr }, false)

def moveRow (s : EditedCsv) (src base : Int) : Option (EditedCsv × Int) :=
  if src ≥ s.h ∨ base ≥ s.h then some (s, -1)
  else if src < 0 ∨ base < -1 then none
  else do
    let row ← s.arr[src.toNat]?
    if base ≠ -1 then
      let orig := if base < src then src.toNat + 1 else src.toNat
      let arr ← vectorInsert s.arr base.toNat row
      let arr ← vectorErase arr orig
      some ({ s with arr := arr }, if base > src then base - 1 else base)
    else
      let arr ← vectorErase (s.arr ++ [row]) src.toNat
      some ({ s with arr := arr }, (arr.length : Int) - 1)

/-! ### Columns -/

def insertColumn (s : EditedCsv) (base : Int) : Option (EditedCsv × Int) :=
  if base ≥ s.w then some (s, -1)
  else do
    let arr ← s.arr.mapM fun row =>
      if base ≥ 0 then vectorInsert row base.toNat s.zero else some (row ++ [s.zero])
    some ({ s with arr := arr, w := s.w + 1 }, if base ≥ 0 then base else (s.w : Int))

def deleteColumn (s : EditedCsv) (column : Int) : Option (EditedCsv × Bool) :=
  if column < 0 ∨ column ≥ s.w then some (s, false)
  else do
    let arr ← s.arr.mapM fun row => vectorErase row column.toNat
    some ({ s with arr := arr, w := s.w - 1 }, true)

/-- One row under `moveColumn`: the cell is copied, then its old place erased. -/
def moveInRow (row : List SheetCell) (src : Nat) (base : Int) : Option (List SheetCell) := do
  let cell ← row[src]?
  let offsetDel := if base ≤ src ∧ base ≠ -1 then src + 1 else src
  let row ← if base ≥ 0 then vectorInsert row base.toNat cell else some (row ++ [cell])
  vectorErase row offsetDel

def moveColumn (s : EditedCsv) (src base : Int) : Option (EditedCsv × Int) :=
  if base ≥ s.w ∨ src < 0 ∨ src ≥ s.w then some (s, -1)
  else do
    let arr ← s.arr.mapM fun row => moveInRow row src.toNat base
    some ({ s with
      arr := arr }, if base < 0 then s.w - 1 else if base ≤ src then base else base - 1)

/-! ### Whole sheets -/

/-- `copy(const CsvSheet&)`. -/
def copySheet (s alt : EditedCsv) : EditedCsv := { s with arr := alt.arr, h := alt.h, w := alt.w }

/-- `copy(const DataSheet&)`. -/
def copyData (s : EditedCsv) (alt : DataSheet) : EditedCsv :=
  (List.range alt.height).foldl (fun s i =>
    ((List.range alt.width).foldl (fun s j =>
      s.addField (alt.cellSummary j i).text.toList (alt.cellSummary j i).escaped) s).addRecord) s.clear

def resize (s : EditedCsv) (w h : Nat) : EditedCsv :=
  let s := (List.range h).foldl
    (fun s _ => ((List.range w).foldl (fun s _ => s.addField [] true) s).addRecord) s.clear
  { s with w := w, h := h }

/-- The inherited `resize` with a text for every cell. -/
def resizeWith (s : EditedCsv) (w h : Nat) (zero : String) : EditedCsv :=
  { s with
    arr := List.replicate h (List.replicate w ⟨zero, true⟩)
    h := h
    w := w
    zero := ⟨zero, true⟩ }

end EditedCsv

inductive CsvOp where
  | addField (text : List Char) (escaped : Bool)
  | addRecord
  | setCellString (x y : Nat) (text : String) (escaped : Bool)
  | insertRow (base : Int)
  | deleteRow (src : Int)
  | removeRow (index : Nat)
  | moveRow (src base : Int)
  | insertColumn (base : Int)
  | deleteColumn (column : Int)
  | moveColumn (src base : Int)
  | copySheet (alt : EditedCsv)
  | copyData (alt : DataSheet)
  | resize (w h : Nat)
  | resizeWith (w h : Nat) (zero : String)
  | clear

namespace EditedCsv

def step (s : EditedCsv) : CsvOp → Option EditedCsv
  | .addField text escaped => some (s.addField text escaped)
  | .addRecord => some s.addRecord
  | .setCellString x y text escaped => s.setCellString x y text escaped
  | .insertRow base => (s.insertRow base).map Prod.fst
  | .deleteRow src => (s.deleteRow src).map Prod.fst
  | .removeRow index => (s.removeRow index).map Prod.fst
  | .moveRow src base => (s.moveRow src base).map Prod.fst
  | .insertColumn base => (s.insertColumn base).map Prod.fst
  | .deleteColumn column => (s.deleteColumn column).map Prod.fst
  | .moveColumn src base => (s.moveColumn src base).map Prod.fst
  | .copySheet alt => some (s.copySheet alt)
  | .copyData alt => some (s.copyData alt)
  | .resize w h => some (s.resize w h)
  | .resizeWith w h zero => some (s.resizeWith w h zero)
  | .clear => some s.clear

/-- The references are those of rows and columns that are reported; `-1` stands for the end. -/
def Valid (s : EditedCsv) : CsvOp → Prop
  | .addField _ _ | .addRecord | .copySheet _ | .copyData _ | .resize _ _ | .resizeWith _ _
    _ | .clear => True
  | .setCellString x y _ _ => x < s.w ∧ y < s.h
  | .insertRow base => base = -1 ∨ (0 ≤ base ∧ base < s.h)
  | .deleteRow src => 0 ≤ src ∧ src < s.h
  | .removeRow index => index < s.h
  | .moveRow src base => (0 ≤ src ∧ src < s.h) ∧ (base = -1 ∨ (0 ≤ base ∧ base < s.h))
  | .insertColumn base => base = -1 ∨ (0 ≤ base ∧ base < s.w)
  | .deleteColumn column => 0 ≤ column ∧ column < s.w
  | .moveColumn src base => (0 ≤ src ∧ src < s.w) ∧ (base = -1 ∨ (0 ≤ base ∧ base < s.w))

/-- The height is the number of stored rows, and every cell can be read, a missing one as an empty
text, and written. -/
structure Sound (s : EditedCsv) : Prop where
  height : s.h = s.arr.length
  reads : ∀ x < s.w, ∀ y < s.h, s.cellString x y = some (s.toCsvSheet.cellString x y)
  writes : ∀ x < s.w, ∀ y < s.h, ∀ text escaped, (s.setCellString x y text escaped).isSome

/-- A record is added where the counter is the height, and where it is as wide as the sheet and no
wider than a record before it; and the sheet that is copied is full. -/
def Keeps (s : EditedCsv) : CsvOp → Prop
  | .addRecord => s.th = s.h ∧ s.w ≤ s.tw ∧ ∀ row ∈ s.arr, s.tw ≤ row.length
  | .copySheet alt => alt.h = alt.arr.length ∧ ∀ row ∈ alt.arr, alt.w ≤ row.length
  | _ => True

/-! ## Sound sheets are full -/

structure Full (s : EditedCsv) : Prop where
  height : s.h = s.arr.length
  widths : ∀ row ∈ s.arr, s.w ≤ row.length

theorem Full.sound {s : EditedCsv} (R : s.Full) : s.Sound where
  height := R.height
  reads := fun x hx y hy => by
    have hy' : y < s.arr.length := R.height ▸ hy
    have hx' : x < s.arr[y].length := Nat.lt_of_lt_of_le hx (R.widths _ (List.getElem_mem hy'))
    have hrow : s.arr[y]? = some s.arr[y] := List.getElem?_eq_getElem hy'
    simp [cellString, CsvSheet.cellString, hrow, hx']
  writes := fun x hx y hy text escaped => by
    have hy' : y < s.arr.length := R.height ▸ hy
    have hx' : x < s.arr[y].length := Nat.lt_of_lt_of_le hx (R.widths _ (List.getElem_mem hy'))
    simp [setCellString, hy', hx']

/-- A record that is too short cannot be written at its end. -/
theorem Sound.full {s : EditedCsv} (S : s.Sound) : s.Full where
  height := S.height
  widths := fun row hrow => by
    refine Nat.le_of_not_lt fun hlt => ?_
    obtain ⟨y, hy, rfl⟩ := List.mem_iff_getElem.1 hrow
    have hw := S.writes _ hlt y (S.height.symm ▸ hy) "" false
    simp [setCellString, hy] at hw

/-! ## What each operation does to a full sheet -/

section
variable {s : EditedCsv}

theorem vectorInsert_length {α : Type} {v : List α} {i : Nat} (x : α) (h : i ≤ v.length) :
    ∃ v', vectorInsert v i x = some v' ∧ v'.length = v.length + 1 :=
  ⟨v.insertIdx i x, if_pos h, List.length_insertIdx_of_le_length h x⟩

theorem vectorErase_length {α : Type} {v : List α} {i : Nat} (h : i < v.length) :
    ∃ v', vectorErase v i = some v' ∧ v'.length = v.length - 1 :=
  ⟨v.eraseIdx i, if_pos h, List.length_eraseIdx_of_lt h⟩

theorem mem_of_vectorErase {α : Type} {v v' : List α} {i : Nat} (h : vectorErase v i = some v')
    {x : α} (hx : x ∈ v') : x ∈ v := by
  unfold vectorErase at h
  split at h
  · cases h
    exact List.mem_of_mem_eraseIdx hx
  · cases h

theorem mem_of_vectorInsert {α : Type} {v v' : List α} {i : Nat} {x : α}
    (h : vectorInsert v i x = some v') {z : α} (hz : z ∈ v') : z = x ∨ z ∈ v := by
  unfold vectorInsert at h
  split at h
  · next hi =>
    cases h
    exact (List.mem_insertIdx hi).1 hz
  · cases h

/-- A change made to every row takes full rows to full rows. -/
theorem mapM_rows {f : List SheetCell → Option (List SheetCell)} {n m : Nat}
    (hf : ∀ row, n ≤ row.length → ∃ row', f row = some row' ∧ m ≤ row'.length)
    (rows : List (List SheetCell)) (hrows : ∀ row ∈ rows, n ≤ row.length) :
    ∃ rows', rows.mapM f = some rows' ∧ rows'.length = rows.length ∧
    ∀ row ∈ rows', m ≤ row.length := by
  induction rows with
  | nil => exact ⟨[], rfl, rfl, List.forall_mem_nil _⟩
  | cons row rows ih =>
    obtain ⟨row', hrow', hlen⟩ := hf row (hrows row List.mem_cons_self)
    obtain ⟨rows', hrows', hl, hall⟩ := ih fun r hr => hrows r (List.mem_cons_of_mem _ hr)
    refine ⟨row' :: rows', ?_, by simp [hl], ?_⟩
    · simp [List.mapM_cons, hrow', hrows']
    · rw [List.forall_mem_cons]
      exact ⟨hlen, hall⟩

/-- The record in hand is counted by `tw`. -/
def Counted (s : EditedCsv) : Prop := s.tw = s.record.length

/-- An operation has a meaning and leaves a full sheet. -/
def Steps (r : Option EditedCsv) : Prop := ∃ s', r = some s' ∧ s'.Full ∧ s'.Counted

theorem steps_setCellString (R : s.Full) (hc : s.Counted) {x y : Nat} (hx : x < s.w) (hy : y < s.h)
    (text : String) (escaped : Bool) : Steps (s.setCellString x y text escaped) := by
  have hy' : y < s.arr.length := R.height ▸ hy
  have hx' : x < s.arr[y].length := Nat.lt_of_lt_of_le hx (R.widths _ (List.getElem_mem hy'))
  refine ⟨{ s with
    arr := s.arr.set y (s.arr[y].set x ⟨text, escaped⟩) }, by simp [setCellString, hy', hx'], ⟨?_, ?_⟩, hc⟩
  · exact R.height.trans List.length_set.symm
  · intro row hrow
    rcases List.mem_or_eq_of_mem_set hrow with hrow | rfl
    · exact R.widths row hrow
    · rw [List.length_set]
      exact R.widths _ (List.getElem_mem hy')

theorem modify_insertIdx {α : Type} (f : α → α) (x : α) : ∀ (v : List α) {i : Nat}, i ≤ v.length →
    (v.insertIdx i x).modify i f = v.insertIdx i (f x)
  | _, 0, _ => rfl
  | a :: v, i + 1, h => by
    rw [List.insertIdx_succ_cons, List.insertIdx_succ_cons, List.modify_succ_cons,
      modify_insertIdx f x v (Nat.le_of_succ_le_succ h)]

theorem modify_concat {α : Type} (f : α → α) (x : α) :
    ∀ v : List α, (v ++ [x]).modify v.length f = v ++ [f x]
  | [] => rfl
  | a :: v => by
    rw [List.cons_append, List.length_cons, List.modify_succ_cons, modify_concat f x v,
      List.cons_append]

theorem steps_insertRow (R : s.Full) (hc : s.Counted) {base : Int}
    (hb : base = -1 ∨ (0 ≤ base ∧ base < s.h)) : Steps ((s.insertRow base).map Prod.fst) := by
  have hlt : ¬ base ≥ s.h := by omega
  have hzeros : (List.replicate s.w s.zero).length = s.w := List.length_replicate
  unfold insertRow
  rw [if_neg hlt]
  rcases hb with rfl | ⟨h0, hlt⟩
  · refine ⟨{ s with arr := s.arr ++ [List.replicate s.w s.zero], h := s.h + 1 }, ?_, ⟨?_, ?_⟩, hc⟩
    · simp [R.height, modify_concat]
    · simp [R.height]
    · intro row hrow
      rcases List.mem_append.1 hrow with hrow | hrow
      · exact R.widths row hrow
      · rw [List.mem_singleton.1 hrow]
        exact hzeros.ge
  · have hle : base.toNat ≤ s.arr.length := by rw [← R.height]; omega
    have hneg : ¬ base < 0 := by omega
    refine ⟨{ s with arr := s.arr.insertIdx base.toNat (List.replicate s.w s.zero), h := s.h + 1 },
      ?_, ⟨?_, ?_⟩, hc⟩
    · simp [hneg, vectorInsert, hle, modify_insertIdx, List.length_insertIdx_of_le_length hle,
        Nat.lt_succ_of_le hle]
    · simp [R.height, List.length_insertIdx_of_le_length hle]
    · intro row hrow
      rcases (List.mem_insertIdx hle).1 hrow with rfl | hrow
      · exact hzeros.ge
      · exact R.widths row hrow

theorem steps_deleteRow (R : s.Full) (hc : s.Counted) {src : Int} (hs : 0 ≤ src ∧ src < s.h) :
    Steps ((s.deleteRow src).map Prod.fst) := by
  have hlt : src.toNat < s.arr.length := by rw [← R.height]; omega
  obtain ⟨arr, harr, hlen⟩ := vectorErase_length hlt
  refine ⟨{ s with arr := arr, h := s.h - 1 }, ?_, ⟨?_, ?_⟩, hc⟩
  · rw [deleteRow, if_neg (by omega), harr]
    rfl
  · show s.h - 1 = arr.length
    rw [hlen, R.height]
  · exact fun row hrow => R.widths row (mem_of_vectorErase harr hrow)

theorem steps_removeRow (R : s.Full) (hc : s.Counted) {index : Nat} (hs : index < s.h) :
    Steps ((s.removeRow index).map Prod.fst) := by
  have hlt : index < s.arr.length := by rw [← R.height]; exact hs
  obtain ⟨arr, harr, hlen⟩ := vectorErase_length hlt
  have hless : arr.length < s.h := by rw [hlen, R.height]; omega
  refine ⟨{ s with arr := arr, th := arr.length, h := arr.length }, ?_, ⟨rfl, ?_⟩, hc⟩
  · rw [removeRow, harr, Option.bind_eq_bind, Option.bind_some, if_pos hless]
    rfl
  · exact fun row hrow => R.widths row (mem_of_vectorErase harr hrow)

theorem steps_moveRow (R : s.Full) (hc : s.Counted) {src base : Int} (hs : 0 ≤ src ∧ src < s.h)
    (hb : base = -1 ∨ (0 ≤ base ∧ base < s.h)) : Steps ((s.moveRow src base).map Prod.fst) := by
  have hlt : src.toNat < s.arr.length := by rw [← R.height]; omega
  have hrow : s.arr[src.toNat]? = some s.arr[src.toNat] := List.getElem?_eq_getElem hlt
  have hmem : s.arr[src.toNat] ∈ s.arr := List.getElem_mem hlt
  unfold moveRow
  rw [if_neg (by omega), if_neg (by omega), hrow]
  by_cases hend : base = -1
  · obtain ⟨arr, harr, hlen⟩ := @vectorErase_length _ (s.arr ++ [s.arr[src.toNat]]) src.toNat
      (by rw [List.length_append]; omega)
    refine ⟨{ s with arr := arr }, ?_, ⟨?_, ?_⟩, hc⟩
    · simp [hend, harr]
    · show s.h = arr.length
      rw [hlen, R.height, List.length_append, List.length_singleton, Nat.add_sub_cancel]
    · intro row hin
      rcases List.mem_append.1 (mem_of_vectorErase harr hin) with h | h
      · exact R.widths row h
      · rw [List.mem_singleton.1 h]
        exact R.widths _ hmem
  · have hle : base.toNat ≤ s.arr.length := by rw [← R.height]; omega
    obtain ⟨arr, harr, hlen⟩ := vectorInsert_length s.arr[src.toNat] hle
    obtain ⟨arr', harr', hlen'⟩ :=
      @vectorErase_length _ arr (if base < src then src.toNat + 1 else src.toNat)
      (by rw [hlen]; split <;> omega)
    refine ⟨{ s with arr := arr' }, ?_, ⟨?_, ?_⟩, hc⟩
    · simp [hend, harr, harr']
    · show s.h = arr'.length
      rw [hlen', hlen, R.height, Nat.add_sub_cancel]
    · intro row hin
      rcases mem_of_vectorInsert harr (mem_of_vectorErase harr' hin) with rfl | h
      · exact R.widths _ hmem
      · exact R.widths row h

theorem steps_insertColumn (R : s.Full) (hc : s.Counted) {base : Int}
    (hb : base = -1 ∨ (0 ≤ base ∧ base < s.w)) : Steps ((s.insertColumn base).map Prod.fst) := by
  have hrow : ∀ row : List SheetCell, s.w ≤ row.length →
    ∃ row', (if base ≥ 0 then vectorInsert row base.toNat s.zero
      else some (row ++ [s.zero])) = some row' ∧ s.w + 1 ≤ row'.length := by
    intro row hlen
    split
    · obtain ⟨row', h, hl⟩ := @vectorInsert_length _ row base.toNat s.zero (by omega)
      exact ⟨row', h, by omega⟩
    · exact ⟨_, rfl, by simp [hlen]⟩
  obtain ⟨arr, harr, hlen, hall⟩ := mapM_rows hrow s.arr R.widths
  refine ⟨{ s with arr := arr, w := s.w + 1 }, ?_, ⟨R.height.trans hlen.symm, hall⟩, hc⟩
  rw [insertColumn, if_neg (by omega), harr]
  rfl

theorem steps_deleteColumn (R : s.Full) (hc : s.Counted) {column : Int}
    (hb : 0 ≤ column ∧ column < s.w) : Steps ((s.deleteColumn column).map Prod.fst) := by
  have hrow : ∀ row : List SheetCell, s.w ≤ row.length →
      ∃ row', vectorErase row column.toNat = some row' ∧ s.w - 1 ≤ row'.length := by
    intro row hlen
    obtain ⟨row', h, hl⟩ := @vectorErase_length _ row column.toNat (by omega)
    exact ⟨row', h, by omega⟩
  obtain ⟨arr, harr, hlen, hall⟩ := mapM_rows hrow s.arr R.widths
  refine ⟨{ s with arr := arr, w := s.w - 1 }, ?_, ⟨R.height.trans hlen.symm, hall⟩, hc⟩
  rw [deleteColumn, if_neg (by omega), harr]
  rfl

/-- A row keeps its length when a cell moves. -/
theorem moveInRow_length {row : List SheetCell} {src : Nat} {base : Int} (hs : src < row.length)
    (hb : base = -1 ∨ (0 ≤ base ∧ base < row.length)) :
    ∃ row', moveInRow row src base = some row' ∧ row'.length = row.length := by
  have hcell : row[src]? = some row[src] := List.getElem?_eq_getElem hs
  obtain ⟨row₁, h₁, hlen₁⟩ :
    ∃ row₁, (if base ≥ 0 then vectorInsert row base.toNat row[src] else some (row ++ [row[src]])) =
      some row₁ ∧ row₁.length = row.length + 1 := by
    split
    · exact vectorInsert_length _ (by omega)
    · exact ⟨_, rfl, by simp⟩
  obtain ⟨row₂, h₂, hlen₂⟩ :=
    @vectorErase_length _ row₁ (if base ≤ src ∧ base ≠ -1 then src + 1 else src)
    (by rw [hlen₁]; split <;> omega)
  refine ⟨row₂, ?_, by rw [hlen₂, hlen₁, Nat.add_sub_cancel]⟩
  simp only [moveInRow, hcell, Option.bind_eq_bind, Option.bind_some]
  by_cases h0 : base ≥ 0
  · rw [if_pos h0] at h₁ ⊢
    rw [h₁]
    exact h₂
  · rw [if_neg h0] at h₁ ⊢
    cases h₁
    exact h₂

theorem steps_moveColumn (R : s.Full) (hc : s.Counted) {src base : Int} (hs : 0 ≤ src ∧ src < s.w)
    (hb : base = -1 ∨ (0 ≤ base ∧ base < s.w)) : Steps ((s.moveColumn src base).map Prod.fst) := by
  have hrow : ∀ row : List SheetCell, s.w ≤ row.length →
      ∃ row', moveInRow row src.toNat base = some row' ∧ s.w ≤ row'.length := by
    intro row hlen
    obtain ⟨row', h, hl⟩ := @moveInRow_length row src.toNat base (by omega) (by omega)
    exact ⟨row', h, by omega⟩
  obtain ⟨arr, harr, hlen, hall⟩ := mapM_rows hrow s.arr R.widths
  refine ⟨{ s with arr := arr }, ?_, ⟨R.height.trans hlen.symm, hall⟩, hc⟩
  rw [moveColumn, if_neg (by omega), harr]
  rfl

/-! ### Sheets that are filled record by record -/

theorem foldl_addField {ι : Type} (f : ι → List Char) (g : ι → Bool) (js : List ι) (s : EditedCsv) :
    js.foldl (fun s j => s.addField (f j) (g j)) s =
      { s with
        record := s.record ++ js.map (fun j => ⟨String.ofList (cString (f j)), g j⟩)
        tw := s.tw + js.length } := by
  induction js generalizing s with
  | nil => simp
  | cons j js ih =>
    rw [List.foldl_cons, ih]
    simp [addField, CsvSheet.addField, CsvSheet.addCell, Nat.add_assoc, Nat.add_comm 1]

/-- Between records of `n` fields each. -/
structure Filled (n : Nat) (s : EditedCsv) : Prop where
  record : s.record = []
  tw : s.tw = 0
  th : s.th = s.h
  height : s.h = s.arr.length
  widths : ∀ row ∈ s.arr, row.length = n
  width : s.arr = [] ∧ s.w = 0 ∨ s.w = n

theorem filled_clear (n : Nat) (s : EditedCsv) : Filled n s.clear :=
  ⟨rfl, rfl, rfl, rfl, List.forall_mem_nil _, Or.inl ⟨rfl, rfl⟩⟩

theorem Filled.full {n : Nat} (F : Filled n s) : s.Full where
  height := F.height
  widths := fun row hrow => by
    rcases F.width with ⟨hnil, -⟩ | hw
    · rw [hnil] at hrow
      cases hrow
    · rw [hw]
      exact (F.widths row hrow).ge

theorem Filled.counted {n : Nat} (F : Filled n s) : s.Counted := by
  unfold Counted
  rw [F.tw, F.record]
  rfl

theorem Filled.addRecord {n : Nat} (F : Filled n s) {ι : Type} (f : ι → List Char)
    (g : ι → Bool) {js : List ι}
    (hn : js.length = n) : Filled n (js.foldl (fun s j => s.addField (f j) (g j)) s).addRecord := by
  rw [foldl_addField]
  refine ⟨rfl, rfl, rfl, ?_, ?_, Or.inr ?_⟩
  · simp [EditedCsv.addRecord, CsvSheet.addRecord, F.th, F.height]
  · intro row hrow
    rcases List.mem_append.1 hrow with h | h
    · exact F.widths row h
    · rw [List.mem_singleton.1 h, F.record]
      simp [hn]
  · show max s.w (s.tw + js.length) = n
    rw [F.tw, hn, Nat.zero_add]
    rcases F.width with ⟨-, h0⟩ | hw
    · rw [h0, Nat.zero_max]
    · rw [hw, Nat.max_self]

/-- The loop over the rows adds one record for each. -/
theorem Filled.foldl {n : Nat} {ι κ : Type} (f : κ → ι → List Char) (g : κ → ι → Bool) {js : List ι}
    (hn : js.length = n) (is : List κ) : ∀ {s : EditedCsv}, Filled n s →
      Filled n
        (is.foldl (fun s i => (js.foldl (fun s j => s.addField (f i j) (g i j)) s).addRecord) s) ∧
        (is.foldl (fun s i => (js.foldl (fun s j => s.addField (f i j) (g i j)) s).addRecord)
          s).arr.length = s.arr.length + is.length := by
  induction is with
  | nil => exact fun F => ⟨F, rfl⟩
  | cons i is ih =>
    intro s F
    obtain ⟨hF, hlen⟩ := ih (F.addRecord (f i) (g i) hn)
    refine ⟨hF, hlen.trans ?_⟩
    rw [foldl_addField]
    simp only [EditedCsv.addRecord, CsvSheet.addRecord, List.length_append, List.length_cons,
      List.length_nil]
    omega

theorem steps_copyData (s : EditedCsv) (alt : DataSheet) : Steps (some (s.copyData alt)) := by
  have hfill :=
    (Filled.foldl (fun i j => (alt.cellSummary j i).text.toList)
      (fun i j => (alt.cellSummary j i).escaped)
    List.length_range (List.range alt.height) (filled_clear alt.width s)).1
  exact ⟨_, rfl, hfill.full, hfill.counted⟩

theorem steps_resize (s : EditedCsv) (w h : Nat) : Steps (some (s.resize w h)) := by
  obtain ⟨hfill, hlen⟩ :=
    Filled.foldl (fun _ _ : Nat => []) (fun _ _ => true) (@List.length_range w) (List.range h)
    (filled_clear w s)
  rw [List.length_range] at hlen
  exact ⟨_, rfl, ⟨(hlen.trans (Nat.zero_add h)).symm, fun row hrow => (hfill.widths row hrow).ge⟩,
    hfill.counted⟩

theorem steps_resizeWith (hc : s.Counted) (w h : Nat) (zero : String) :
    Steps (some (s.resizeWith w h zero)) := by
  refine ⟨_, rfl, ⟨List.length_replicate.symm, fun row hrow => ?_⟩, hc⟩
  rw [List.eq_of_mem_replicate hrow]
  exact List.length_replicate.ge

theorem full_addRecord_iff (R : s.Full) (hc : s.Counted) :
    s.addRecord.Full ↔ s.Keeps .addRecord := by
  have harr : s.addRecord.arr = s.arr ++ [s.record] := rfl
  have hw : s.addRecord.w = max s.w s.tw := rfl
  have hh : s.addRecord.h = s.th + 1 := rfl
  constructor
  · rintro ⟨hheight, hwidths⟩
    rw [harr, hh, List.length_append, List.length_singleton, ← R.height] at hheight
    rw [harr, hw, List.forall_mem_append, List.forall_mem_singleton, ← hc] at hwidths
    exact ⟨by omega, by omega, fun row hrow => (Nat.le_max_right _ _).trans (hwidths.1 row hrow)⟩
  · rintro ⟨hth, hle, hrest⟩
    refine ⟨?_, ?_⟩
    · rw [hh, harr, hth, R.height]
      simp
    · rw [harr, hw, Nat.max_eq_right hle, List.forall_mem_append, List.forall_mem_singleton, ← hc]
      exact ⟨hrest, le_refl _⟩

/-! ## Steps and runs -/

theorem steps_step (R : s.Full) (hc : s.Counted) {op : CsvOp} (hv : s.Valid op) (hk : s.Keeps op) :
    Steps (s.step op) := by
  cases op with
  | addField text escaped =>
    refine ⟨_, rfl, ⟨R.height, R.widths⟩, ?_⟩
    show s.tw + 1 = (s.record ++ [_]).length
    rw [List.length_append, List.length_singleton, ← hc]
  | addRecord => exact ⟨_, rfl, (full_addRecord_iff R hc).2 hk, rfl⟩
  | setCellString x y text escaped => exact steps_setCellString R hc hv.1 hv.2 text escaped
  | insertRow base => exact steps_insertRow R hc hv
  | deleteRow src => exact steps_deleteRow R hc hv
  | removeRow index => exact steps_removeRow R hc hv
  | moveRow src base => exact steps_moveRow R hc hv.1 hv.2
  | insertColumn base => exact steps_insertColumn R hc hv
  | deleteColumn column => exact steps_deleteColumn R hc hv
  | moveColumn src base => exact steps_moveColumn R hc hv.1 hv.2
  | copySheet alt => exact ⟨_, rfl, ⟨hk.1, hk.2⟩, hc⟩
  | copyData alt => exact steps_copyData s alt
  | resize w h => exact steps_resize s w h
  | resizeWith w h zero => exact steps_resizeWith hc w h zero
  | clear => exact ⟨_, rfl, ⟨rfl, List.forall_mem_nil _⟩, rfl⟩

/-- No other step leaves a sound sheet. -/
theorem keeps_of_sound (R : s.Full) (hc : s.Counted) {op : CsvOp} {s' : EditedCsv}
    (hs : s.step op = some s') (S : s'.Sound) : s.Keeps op := by
  cases op with
  | addRecord =>
    obtain rfl : s.addRecord = s' := Option.some.inj hs
    exact (full_addRecord_iff R hc).1 S.full
  | copySheet alt =>
    obtain rfl : s.copySheet alt = s' := Option.some.inj hs
    exact ⟨S.full.height, S.full.widths⟩
  | _ => exact trivial

end

def ValidAll (s : EditedCsv) : List CsvOp → Prop
  | [] => True
  | op :: ops => s.Valid op ∧ ∀ s', s.step op = some s' → s'.ValidAll ops

def KeepsAll (s : EditedCsv) : List CsvOp → Prop
  | [] => True
  | op :: ops => s.Keeps op ∧ ∀ s', s.step op = some s' → s'.KeepsAll ops

/-- Every operation has a meaning, and the sheet is sound before and after it. -/
def SoundAll (s : EditedCsv) : List CsvOp → Prop
  | [] => s.Sound
  | op :: ops => s.Sound ∧ ∃ s', s.step op = some s' ∧ s'.SoundAll ops

theorem sound_of_soundAll {s : EditedCsv} {ops : List CsvOp} (h : s.SoundAll ops) : s.Sound := by
  cases ops with
  | nil => exact h
  | cons op ops => exact h.1

theorem sound_of_foldlM {ops : List CsvOp} : ∀ {s s' : EditedCsv}, s.SoundAll ops →
    ops.foldlM step s = some s' → s'.Sound := by
  induction ops with
  | nil =>
    intro s s' h hs
    obtain rfl : s = s' := Option.some.inj hs
    exact h
  | cons op ops ih =>
    intro s s' h hs
    obtain ⟨-, s₁, hs₁, hrest⟩ := h
    rw [List.foldlM_cons, hs₁] at hs
    exact ih hrest hs

theorem soundAll_iff_of_full (ops : List CsvOp) : ∀ {s : EditedCsv}, s.Full → s.Counted →
    s.ValidAll ops → (s.SoundAll ops ↔ s.KeepsAll ops) := by
  induction ops with
  | nil => exact fun R _ _ => iff_of_true R.sound trivial
  | cons op ops ih =>
    intro s R hc hv
    constructor
    · rintro ⟨_, s', hs, hrest⟩
      have hk : s.Keeps op := keeps_of_sound R hc hs (sound_of_soundAll hrest)
      refine ⟨hk, fun s'' hs' => ?_⟩
      obtain rfl : s' = s'' := Option.some.inj (hs.symm.trans hs')
      obtain ⟨s₁, hs₁, R₁, hc₁⟩ := steps_step R hc hv.1 hk
      obtain rfl : s' = s₁ := Option.some.inj (hs.symm.trans hs₁)
      exact (ih R₁ hc₁ (hv.2 _ hs)).1 hrest
    · rintro ⟨hk, hrest⟩
      obtain ⟨s₁, hs₁, R₁, hc₁⟩ := steps_step R hc hv.1 hk
      exact ⟨R.sound, s₁, hs₁, (ih R₁ hc₁ (hv.2 _ hs₁)).2 (hrest _ hs₁)⟩

end EditedCsv

/-- Operations on a new sheet, with valid references. -/
structure CsvRun where
  ops : List CsvOp
  valid : EditedCsv.ValidAll {} ops

namespace EditedCsv

/-- A sheet is sound all through a run exactly when each record is added where the counter is the
height and where neither it nor a record before it is left short, and each sheet that is copied is
full. -/
theorem soundAll_iff (r : CsvRun) : SoundAll {} r.ops ↔ KeepsAll {} r.ops :=
  soundAll_iff_of_full r.ops ⟨rfl, List.forall_mem_nil _⟩ rfl r.valid

/-! ## Runs that end in a sheet that is not sound -/

theorem validAll_fields {s : EditedCsv} {ops : List CsvOp}
    (h : ∀ op ∈ ops, op = .addRecord ∨ op = .insertRow (-1) ∨ ∃ text, op = .addField text false) :
    s.ValidAll ops := by
  induction ops generalizing s with
  | nil => exact trivial
  | cons op ops ih =>
    rw [List.forall_mem_cons] at h
    refine ⟨?_, fun s' _ => ih h.2⟩
    rcases h.1 with rfl | rfl | ⟨text, rfl⟩
    · exact trivial
    · exact Or.inl rfl
    · exact trivial

/-- A record, a row put in behind it, and a second record. -/
def rowBetween : CsvRun where
  ops := [.addField ['a'] false, .addRecord, .insertRow (-1), .addField ['b'] false, .addRecord]
  valid := validAll_fields (by simp)

/-- A record of two fields and one of one. -/
def raggedRecords : CsvRun where
  ops := [.addField ['a'] false, .addField ['b'] false, .addRecord,
    .addField ['c'] false, .addRecord]
  valid := validAll_fields (by simp)

/-- A record without fields before the first that has one. -/
def emptyRecord : CsvRun where
  ops := [.addRecord, .addField ['a'] false, .addRecord]
  valid := validAll_fields (by simp)

/-- Three rows are stored and two reported; a cell of a short record cannot be written; and a cell
of an empty first record cannot be read either. -/
theorem not_soundAll :
    ¬ SoundAll {} rowBetween.ops ∧ ¬ SoundAll {} raggedRecords.ops ∧
    ¬ SoundAll {} emptyRecord.ops := by
  refine ⟨fun h => ?_, fun h => ?_, fun h => ?_⟩
  · have hlast := sound_of_foldlM h rfl
    exact absurd hlast.height (by decide)
  · have hlast := sound_of_foldlM h rfl
    exact absurd (hlast.writes 1 (by decide) 1 (by decide) "d" false) (by decide)
  · have hlast := sound_of_foldlM h rfl
    exact absurd (hlast.reads 0 (by decide) 0 (by decide)) (by decide)

end EditedCsv

end Coopy
