import Coopy.Lib.Containers
import Coopy.Table

/-!
# Column names and index columns

`NameSniffer` is left with the names it found: `names` is empty when the sheet has
no usable header, and then columns are named like those of a spreadsheet.
`IndexSniffer` picks the shortest run of leading columns that tells the rows apart;
the sheets here carry no schema, so its schema branch does not arise.
-/

namespace Coopy

open Lib

/-! ## Names -/

/-- The loop of `getSpreadsheetColumnName`, for `rem` below `26 ^ fuel`. -/
def spreadsheetDigits : Nat → Nat → List Char → List Char
  | 0, _, current => current
  | fuel + 1, rem, current =>
    let current := Char.ofNat (65 + rem % 26) :: current
    if rem / 26 ≠ 0 then spreadsheetDigits fuel (rem / 26) current else current

def getSpreadsheetColumnName (x : Nat) : String := String.ofList (spreadsheetDigits (x + 1) x [])

structure NameSniffer where
  names : List String
  subsetIndex : List Nat := []
deriving DecidableEq, Repr

namespace NameSniffer

/-- `none` is an index past the names, where the source reads out of bounds. -/
def suggestColumnName (sniffer : NameSniffer) (col : Nat) : Option String :=
  if sniffer.names.length > 0 then sniffer.names[col]? else some (getSpreadsheetColumnName col)

/-- What sniffing a sheet leaves: no names, or one for each column. -/
def Fits (sniffer : NameSniffer) (width : Nat) : Prop :=
  sniffer.names = [] ∨ sniffer.names.length = width

instance (sniffer : NameSniffer) (width : Nat) : Decidable (sniffer.Fits width) :=
  inferInstanceAs (Decidable (_ ∨ _))

/-- The names of all columns. -/
def columnNames (sniffer : NameSniffer) (width : Nat) : List String :=
  (List.range width).map fun col => (sniffer.suggestColumnName col).getD ""

theorem Fits.suggestColumnName {sniffer : NameSniffer} {width col : Nat} (h : sniffer.Fits width)
    (hc : col < width) :
    sniffer.suggestColumnName col = some ((sniffer.suggestColumnName col).getD "") := by
  unfold NameSniffer.suggestColumnName
  split
  · next hl =>
    rcases h with h | h
    · rw [h] at hl
      simp at hl
    · rw [List.getElem?_eq_getElem (by omega)]
      rfl
  · rfl

theorem Fits.mapM_suggestColumnName {sniffer : NameSniffer} {width : Nat} (h : sniffer.Fits width) :
    (List.range width).mapM sniffer.suggestColumnName = some (sniffer.columnNames width) :=
  mapM_eq_some_map fun _ hc => h.suggestColumnName (List.mem_range.mp hc)

end NameSniffer

/-! ## Index columns -/

namespace IndexSniffer

/-- A cell as `sniff` writes it into the key of its row. -/
def keyText (c : SheetCell) : String := c.text ++ if c.escaped then "*" else " "

/-- The keys of the rows over the first `i` columns. -/
def sofar (sheet : DataSheet) (i : Nat) : List String :=
  sheet.rows.map fun row => (row.take i).foldl (fun acc c => acc ++ keyText c) ""

/-- `len`: the first run of columns without a collision, or all of them. -/
def length (sheet : DataSheet) : Nat :=
  let len := ((List.range sheet.width).find? fun i => decide ((sofar sheet (i + 1)).Nodup)).elim
    sheet.width (· + 1)
  if len = 0 then sheet.width else len

/-- The flags of `sniff`: `true` for an index column.  Chosen id columns win unless `bias_ids`. -/
def sniff (sheet : DataSheet) (flags : CompareFlags) (sniffer : NameSniffer) : List Bool :=
  if flags.biasIds = false ∧ sniffer.subsetIndex.length > 0 then
    (List.range sheet.width).map fun i => decide (i ∈ sniffer.subsetIndex)
  else (List.range sheet.width).map fun i => decide (i < length sheet)

theorem sniff_length (sheet : DataSheet) (flags : CompareFlags) (sniffer : NameSniffer) :
    (sniff sheet flags sniffer).length = sheet.width := by
  unfold sniff
  split <;> simp

end IndexSniffer

end Coopy
