import Coopy.SheetPatcher
import Coopy.TdiffWriter
import Mathlib.Data.List.Sort

/-!
# `MergeOutputSqlDiff`: changes written as SQL statements

Each change of the columns or of a row is printed as a statement on a line of its own, if it is of a
kind that there is one for.  The entries of a row change are gone through in the order of their
names.
-/

namespace Coopy

open Lib Tdiff

/-- The pieces of a row's statement. -/
structure SqlText where
  name : List Char
  vals : List Char
  conds : List Char
  valColumns : List Char
  valValues : List Char
deriving DecidableEq, Repr

structure MergeOutputSqlDiff where
  sheetName : String
  -- `flags.variant`
  variant : String := ""
deriving DecidableEq, Repr

namespace MergeOutputSqlDiff

/-- The quotes of names and of values. -/
def getSqlQuote (variant : String) : Char × Char := (if variant = "access" then '[' else '"', '\'')

/-- The entries of a `std::map`, as they are gone through. -/
def inOrder (m : AssocMap String SheetCell) : AssocMap String SheetCell :=
  m.insertionSort fun e f => e.1 ≤ f.1

/-- What is printed for a value. -/
def valueText (val : Char) (c : SheetCell) : List Char :=
  if c.escaped then "NULL".toList else quoteSql c.text.toList val true

def getText (change : RowChange) (sheetName : List Char) (variant : String) : SqlText :=
  let (key, val) := getSqlQuote variant
  let column (e : String × SheetCell) : List Char := quoteSql e.1.toList key false
  let assigned (e : String × SheetCell) : List Char := column e ++ '=' :: valueText val e.2
  { name := quoteSql sheetName key false
    vals := [',', ' '].intercalate ((inOrder change.val).map assigned)
    conds := " AND ".toList.intercalate ((inOrder change.cond).map assigned)
    valColumns := [',', ' '].intercalate ((inOrder change.val).map column)
    valValues := [',', ' '].intercalate ((inOrder change.val).map fun e => valueText val e.2) }

variable (o : MergeOutputSqlDiff)

/-- What is printed for a change of the columns; `none` is a call of `exit`, or a read outside the
names. -/
def changeColumn (change : OrderChange) : Option (List Char) :=
  let key := (getSqlQuote o.variant).1
  let table := "ALTER TABLE ".toList ++ cString (quoteSql o.sheetName.toList key false)
  let column (c : String) : List Char := cString (quoteSql c.toList key false)
  match change.mode with
  | .delete =>
    (SheetPatcher.nameIn change.namesBefore (change.identityToIndex change.subject)).map fun c =>
      table ++ " DROP COLUMN ".toList ++ column c ++ ";\n".toList
  | .insert =>
    (SheetPatcher.nameIn change.namesAfter (change.identityToIndexAfter change.subject)).map
      fun c =>
      table ++ " ADD COLUMN ".toList ++ column c ++ ";\n".toList
  | .rename =>
    let idx := change.identityToIndexAfter change.subject
    (SheetPatcher.nameIn change.namesAfter idx).bind fun c =>
      (SheetPatcher.nameIn change.namesBefore idx).map fun c2 =>
        table ++ " RENAME COLUMN ".toList ++ column c ++ " TO ".toList ++ column c2 ++ ";\n".toList
  | .move => some []

def changeRow (change : RowChange) : List Char :=
  let text := getText change (cString o.sheetName.toList) o.variant
  match change.mode with
  | .insert =>
    "INSERT INTO ".toList ++ cString text.name ++ " (".toList ++ cString text.valColumns ++
      ") VALUES (".toList ++ cString text.valValues ++ ");\n".toList
  | .delete =>
    "DELETE FROM ".toList ++ cString text.name ++ " WHERE ".toList ++ cString text.conds ++
      ";\n".toList
  | .update =>
    "UPDATE ".toList ++ cString text.name ++ " SET ".toList ++ cString text.vals ++
      " WHERE ".toList ++ cString text.conds ++ ";\n".toList
  | _ => []

/-- One call. -/
def print : PatchEvent → Option (List Char)
  | .changeColumn change => o.changeColumn change
  | .changeRow change => some (o.changeRow change)
  | _ => some []

/-- Calls in order. -/
def printAll : List PatchEvent → Option (List Char)
  | [] => some []
  | e :: es => (o.print e).bind fun s => (printAll es).map (s ++ ·)

end MergeOutputSqlDiff

end Coopy
