import Coopy.Lib.Containers
import Coopy.Table

/-!
# `Patcher`: the changes a merge reports

The records a merge hands to its output: declarations of the column names, changes
of the columns, changes of the rows.  The maps of a `RowChange` are keyed by column
name.
-/

namespace Coopy

open Lib

inductive OrderChangeMode
  | delete
  | insert
  | move
  | rename
deriving DecidableEq, Repr

/-- A change of the columns, with all columns before and after it. -/
structure OrderChange where
  indicesBefore : List Int
  namesBefore : List String
  indicesAfter : List Int
  namesAfter : List String
  subject : Int := -1
  object : Int := -1
  mode : OrderChangeMode
deriving DecidableEq, Repr

namespace OrderChange

/-- `std::find`, with `-1` for a miss. -/
def indexIn (ids : List Int) (id : Int) : Int := if id ∈ ids then (ids.idxOf id : Int) else -1

def identityToIndex (change : OrderChange) (id : Int) : Int := indexIn change.indicesBefore id

def identityToIndexAfter (change : OrderChange) (id : Int) : Int := indexIn change.indicesAfter id

end OrderChange

inductive RowChangeMode
  | none
  | delete
  | insert
  | update
  | context
  | move
deriving DecidableEq, Repr

structure RowChange where
  mode : RowChangeMode := .none
  cond : AssocMap String SheetCell := []
  val : AssocMap String SheetCell := []
  conflictingVal : AssocMap String SheetCell := []
  conflictingParentVal : AssocMap String SheetCell := []
  names : List String := []
  allNames : List String := []
  indexes : AssocMap String Bool := []
  sequential : Bool := true
  conflicted : Bool := false
  pRow : Int := -2
  lRow : Int := -2
  rRow : Int := -2
deriving DecidableEq, Repr

/-- A declaration of the column names. -/
structure NameChange where
  final : Bool
  constant : Bool
  names : List String
deriving DecidableEq, Repr

/-- One call on the output of a merge. -/
inductive PatchEvent
  | changeName (change : NameChange)
  | changeColumn (change : OrderChange)
  | changeRow (change : RowChange)
  | mergeDone
deriving DecidableEq, Repr

namespace PatchEvent

def column? : PatchEvent → Option OrderChange
  | changeColumn change => some change
  | _ => none

def row? : PatchEvent → Option RowChange
  | changeRow change => some change
  | _ => none

end PatchEvent

end Coopy
