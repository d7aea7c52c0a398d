import Coopy.Table
import Mathlib.Data.List.InsertIdx

/-!
# `TypedSheet`: a sheet that can be edited

The sheet class under `CsvSheet`, over any type of cell.  References to rows and
columns are indices, with `-1` for none: an insertion or a move to `-1` goes to the
end.  Operations return `-1`, or `false`, where the source does.
-/

namespace Coopy

structure TypedSheet (T : Type) where
  arr : List (List T)
  w : Nat
  zero : T
deriving DecidableEq, Repr

namespace TypedSheet

variable {T : Type}

def width (s : TypedSheet T) : Nat := s.w

def height (s : TypedSheet T) : Nat := s.arr.length

def cell (s : TypedSheet T) (x y : Nat) : T := (s.arr.getD y []).getD x s.zero

def setCell (s : TypedSheet T) (x y : Nat) (c : T) : TypedSheet T :=
  { s with arr := s.arr.modify y fun row => row.set x c }

def resize (s : TypedSheet T) (w h : Nat) : TypedSheet T :=
  { s with arr := List.replicate h (List.replicate w s.zero), w := w }

/-! ## Columns -/

def deleteColumn (s : TypedSheet T) (offset : Int) : TypedSheet T × Bool :=
  if offset < 0 ∨ offset ≥ s.w then (s, false)
  else ({ s with arr := s.arr.map fun row => row.eraseIdx offset.toNat, w := s.w - 1 }, true)

/-- A value put in a row before `offset`, or at its end. -/
def insertBefore (row : List T) (offset : Int) (c : T) : List T :=
  if offset ≥ 0 then row.insertIdx offset.toNat c else row ++ [c]

def insertColumn (s : TypedSheet T) (base : Int) : TypedSheet T × Int :=
  if base ≥ s.w then (s, -1)
  else ({ s with arr := s.arr.map fun row => insertBefore row base s.zero, w := s.w + 1 },
    if base ≥ 0 then base else s.w)

/-- One row under `moveColumn`: the cell is copied, then its old place erased. -/
def moveInRow (zero : T) (row : List T) (src : Nat) (base : Int) : List T :=
  let offsetDel := if base ≤ src ∧ base ≠ -1 then src + 1 else src
  (insertBefore row base (row.getD src zero)).eraseIdx offsetDel

def moveColumn (s : TypedSheet T) (src base : Int) : TypedSheet T × Int :=
  if base ≥ s.w ∨ src < 0 ∨ src ≥ s.w then (s, -1)
  else ({ s with arr := s.arr.map fun row => moveInRow s.zero row src.toNat base },
    if base < 0 then s.w - 1 else if base ≤ src then base else base - 1)

/-! ## Rows -/

def deleteRow (s : TypedSheet T) (src : Int) : TypedSheet T × Bool :=
  if src < 0 ∨ src ≥ s.height then (s, false)
  else ({ s with arr := s.arr.eraseIdx src.toNat }, true)

/-- `deleteData`: all rows go. -/
def deleteData (s : TypedSheet T) : TypedSheet T := { s with arr := [] }

def insertRow (s : TypedSheet T) (base : Int) : TypedSheet T × Int :=
  let row := List.replicate s.w s.zero
  if base ≥ s.height then (s, -1)
  else if base < 0 then ({ s with arr := s.arr ++ [row] }, s.height)
  else ({ s with arr := s.arr.insertIdx base.toNat row }, base)

/-- Moves a row before `base`; the row is copied, then its old place erased. -/
def moveRow (s : TypedSheet T) (src base : Int) : TypedSheet T × Int :=
  if src ≥ s.height ∨ base ≥ s.height then (s, -1)
  else
    let row := s.arr.getD src.toNat []
    if base ≠ -1 then
      let orig := if base < src then src.toNat + 1 else src.toNat
      ({ s with arr := (s.arr.insertIdx base.toNat row).eraseIdx orig },
        if base > src then base - 1 else base)
    else ({ s with arr := (s.arr ++ [row]).eraseIdx src.toNat }, (s.height : Int) - 1)

end TypedSheet

/-- `cellString(x,y,str)`: the text of a cell, with its flag left alone. -/
def TypedSheet.cellText (s : TypedSheet SheetCell) (x y : Nat) (str : String) :
    TypedSheet SheetCell :=
  { s with arr := s.arr.modify y fun row => row.modify x fun c => { c with text := str } }

end Coopy
