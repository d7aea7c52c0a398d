import Coopy.SqlCompare
import Mathlib.Data.List.Dedup
import Mathlib.Data.List.DropRight

/-!
# The Ruby `SqlCompare`, and `DiffApplySql` behind it

Names go into a statement as `quote_with_dots` leaves them: a word as it is, any other name cut at
its dots, each part between backticks.  The row changes that three queries find are kept under the
texts of their keys; a fourth query, for the rows around them, says in which order they are passed
on.

A statement that SQLite does not accept raises, and ends the run: `none`.  All rows of a query are
fetched before the first of them is looked at.
-/

namespace Coopy

open Lib Relation Sqlite

namespace Ruby

/-! ## Row changes -/

structure Cell (V : Type) where
  txt : Option V
  value : Option V
  newValue : Option V := none
  cellMode : String := ""
  separator : Option String := none
deriving DecidableEq, Repr

structure RowChange (V : Type) where
  rowMode : String
  cells : List (Cell V)
deriving DecidableEq, Repr

namespace RowChange

variable {V : Type} (rc : RowChange V)

def valueAt (inOffset : Nat) : Option V := rc.cells[inOffset]?.bind (·.value)

def newValueAt (inOffset : Nat) : Option V := rc.cells[inOffset]?.bind (·.newValue)

end RowChange

/-! ## Names in statements -/

def isWordChar (c : Char) : Bool := c.isAlphanum || c == '_'

/-- `/^[a-zA-Z0-9_]+$/`: one of the lines is a word. -/
def matchesWord (x : List Char) : Bool :=
  (x.splitOn '\n').any fun line => !line.isEmpty && line.all isWordChar

/-- `split('.')`; empty parts at the end are left out. -/
def splitDot (x : List Char) : List (List Char) := (x.splitOn '.').rdropWhile List.isEmpty

def backticked (x : List Char) : List Char := backtick :: x ++ [backtick]

def quoteWithDots (x : List Char) : List Char :=
  if matchesWord x then x else List.intercalate ['.'] ((splitDot x).map backticked)

def quoteTable (tbl : String) : List Char := quoteWithDots tbl.toList

def quoteColumn (col : String) : List Char := quoteWithDots col.toList

/-- A text at its dots that are not between backticks. -/
def splitOutside (inside : Bool) : List Char → List (List Char)
  | [] => [[]]
  | c :: rest =>
    if c == '.' && !inside then [] :: splitOutside inside rest
    else (splitOutside (inside ^^ (c == backtick)) rest).modifyHead (c :: ·)

/-- What the code relies on of SQLite, and of values. -/
structure Engine (V : Type) where
  toS : V → String
  ofText : String → V
  -- the words that are not names, and those that are numbers
  keyword : String → Bool
  number : String → Bool
  orderBy : List (Row V × Nat) → List (Row V × Nat)
  orderBy_perm : ∀ rows, (orderBy rows).Perm rows

structure Table (V : Type) where
  schema : String
  name : String
  columns : List String
  -- the columns of the primary key, and of the first unique index
  key : List String
  uniqueIndex : Option (List String) := none
  rows : List (Row V)

/-- The name of a table, as it is handed to the comparison. -/
def Table.fullName {V : Type} (t : Table V) : String := t.schema ++ "." ++ t.name

namespace Table

variable {V : Type} (t : Table V)

/-- What `table_info` has under `pk`: the place of a column in the key, from 1 on. -/
def pk (c : String) : Nat := if c ∈ t.key then t.key.idxOf c + 1 else 0

/-- `primary_key`: a column is taken if its `pk` is 1, so never the second of a key. -/
def primaryKey : Option (List String) :=
  let cols := t.columns.filter fun c => t.pk c == 1
  if cols.isEmpty then t.uniqueIndex else some cols

/-- What a table can hold: no key is there twice, unless it has a NULL. -/
def admits (rows : List (Row V)) [DecidableEq V] : Bool :=
  t.key.isEmpty ||
  decide ((rows.map (project (t.key.map (t.columns.idxOf ·)))).filter (none ∉ ·)).Nodup

end Table

/-- The tables that a statement can name. -/
abbrev Database (V : Type) := List (Table V)

def Database.find {V : Type} (db : Database V) (schema name : String) : Option (Table V) :=
  db.find? fun t => t.schema == schema && t.name == name

namespace Engine

variable {V : Type} (E : Engine V)

/-- A word that is read as a name. -/
def bare (x : List Char) : Bool := !x.isEmpty && x.all isWordChar && !x.head?.any Char.isDigit &&
    !E.keyword (String.ofList x)

def readPart : List Char → Option String
  | [] => none
  | c :: rest =>
    if c == backtick then readName (c :: rest)
    else if E.bare (c :: rest) then some (String.ofList (c :: rest)) else none

/-- The names in a text, with dots between them. -/
def readPath (x : List Char) : Option (List String) := (splitOutside false x).mapM E.readPart

def readSingle (x : List Char) : Option String :=
  match E.readPath x with
  | some [name] => some name
  | _ => none

/-- The argument of a pragma can be a number, too. -/
def readArgument (x : List Char) : Option String :=
  if x.all isWordChar && E.number (String.ofList x) then some (String.ofList x) else E.readSingle x

def table? (db : Database V) (q : List Char) : Option (Table V) :=
  match E.readPath q with
  | some [schema, name] => db.find schema name
  | _ => none

def column? (t : Table V) (q : List Char) : Option Nat := do
  let name ← E.readSingle q
  t.columns.findIdx? (· == name)

/-- `pragma`, for what is said of a table: its columns, its key and its unique index. -/
def pragma (db : Database V) (tbl : String) : Option (Table V) :=
  match splitDot tbl.toList with
  | dbname :: tbname :: _ => do
    let schema ← E.readSingle (quoteWithDots dbname)
    let name ← E.readArgument (quoteWithDots tbname)
    db.find schema name
  | _ => none

/-! ## Queries -/

/-- `SELECT cols FROM t WHERE NOT EXISTS (SELECT 1 FROM other WHERE t.k IS other.k AND ...)`. -/
def queryUnmatched [DecidableEq V] (db : Database V) (cols keys : List (List Char))
    (t other : List Char) : Option (List (Row V)) := do
  let t ← E.table? db t
  let other ← E.table? db other
  let ks ← keys.mapM (E.column? t)
  let ks' ← keys.mapM (E.column? other)
  let is ← cols.mapM (E.column? t)
  if keys.isEmpty then none else selectUnmatched is ks t.rows ks' other.rows

/-- `SELECT t.c AS ..., other.c AS ..., ... FROM t INNER JOIN other ON t.k IS other.k AND ... WHERE
t.d IS NOT other.d OR ...`. -/
def queryMismatched [DecidableEq V] (db : Database V) (cols keys data : List (List Char))
    (t other : List Char) : Option (List (Row V)) := do
  let t ← E.table? db t
  let other ← E.table? db other
  let is ← cols.mapM (E.column? t)
  let is' ← cols.mapM (E.column? other)
  let ks ← keys.mapM (E.column? t)
  let ks' ← keys.mapM (E.column? other)
  let ds ← data.mapM (E.column? t)
  let ds' ← data.mapM (E.column? other)
  if keys.isEmpty || data.isEmpty then none
    else selectMismatched is ks ds t.rows is' ks' ds' other.rows

/-- `SELECT cols, 0 AS tag FROM t UNION SELECT cols, 1 AS tag FROM other ORDER BY keys, tag`. -/
def queryContext [DecidableEq V] (db : Database V) (cols : List (List Char)) (t other : List Char) :
    Option (List (Row V × Nat)) := do
  let t ← E.table? db t
  let other ← E.table? db other
  let is ← cols.mapM (E.column? t)
  let is' ← cols.mapM (E.column? other)
  some (E.orderBy ((t.rows.map fun r => (project is r, 0)) ++ other.rows.map fun r =>
    (project is' r, 1)).dedup)

/-! ## `SqlCompare#apply_single` -/

def keyify (lst : Row V) : String := "___".intercalate (lst.map fun x => (x.map E.toS).getD "")

def plainCells (row : Row V) : List (Cell V) := row.map fun v => { txt := v, value := v }

/-- `each_slice(2)`. -/
def eachPair : Row V → List (Option V × Option V)
  | v :: w :: rest => (v, w) :: eachPair rest
  | _ => []

def updateCells [DecidableEq V] (row : Row V) : List (Cell V) :=
  (eachPair row).map fun v =>
    if v.1 = v.2 then { txt := v.1, value := v.1 }
      else { txt := v.1, value := v.1, newValue := v.2, cellMode := "->" }

def skipChange (row : Row V) : RowChange V :=
  ⟨"...", row.map fun _ => { txt := some (E.ofText "..."), value := some (E.ofText "...") }⟩

structure ContextState (V : Type) where
  hits : AssocMap String (RowChange V)
  hist : List (Row V) := []
  pending : Nat := 0
  skipped : Bool := false
  noted : Bool := false
  lastRow : Row V := []
  -- what is passed on
  out : List (RowChange V) := []

def contextLength : Nat := 2

/-- One row of the fourth query. -/
def contextStep (ks : List Nat) (s : ContextState V) (e : Row V × Nat) : ContextState V :=
  let row := e.1
  let k := E.keyify (project ks row)
  let skip := if s.skipped then [E.skipChange row] else []
  match s.hits.get? k with
  | some rc =>
    { s with
      out := s.out ++ skip ++ s.hist.map (fun row0 => ⟨"", plainCells row0⟩) ++ [rc]
      hist := [], pending := contextLength, hits := s.hits.filter fun h => h.1 != k, skipped :=
        false, noted := true }
  | none =>
    if e.2 = 1 then s
    else if 0 < s.pending then
      { s with
        out := s.out ++ skip ++ [⟨"", plainCells row⟩]
        pending := s.pending - 1
        skipped := false }
    else if contextLength < (s.hist ++ [row]).length then
      { s with skipped := true, lastRow := row, hist := (s.hist ++ [row]).tail }
    else { s with hist := s.hist ++ [row] }

def applyWithContext (rows : List (Row V × Nat)) (ks : List Nat)
    (pendingRcs : List (String × RowChange V)) : List (RowChange V) :=
  let hits := pendingRcs.foldl (fun (m : AssocMap String (RowChange V)) e => m.set e.1 e.2) []
  let s := rows.foldl (E.contextStep ks) { hits := hits }
  s.out ++ if s.skipped && s.noted then [E.skipChange s.lastRow] else []

/-- The row changes that are passed on, for an output that wants context. -/
def applySingle [DecidableEq V] (db : Database V) (table1 table2 : String) :
    Option (List (RowChange V)) := do
  let info1 ← E.pragma db table1
  let info2 ← E.pragma db table2
  if info1.columns ≠ info2.columns || info1.primaryKey ≠ info2.primaryKey then none
  else
    let keyCols ← info1.primaryKey
    let dataCols := info1.columns.filter (· ∉ keyCols)
    let allCols := info1.columns
    let keysInAllCols := keyCols.map (allCols.idxOf ·)
    let keysInDblCols := keysInAllCols.map (2 * ·)
    let inserts ← E.queryUnmatched db (allCols.map quoteColumn) (keyCols.map quoteColumn)
      (quoteTable table2) (quoteTable table1)
    let updates ← E.queryMismatched db (allCols.map quoteColumn) (keyCols.map quoteColumn)
      (dataCols.map quoteColumn)
      (quoteTable table1) (quoteTable table2)
    let deletes ← E.queryUnmatched db (allCols.map quoteColumn) (keyCols.map quoteColumn)
      (quoteTable table1) (quoteTable table2)
    let rows ← E.queryContext db (allCols.map quoteColumn) (quoteTable table1) (quoteTable table2)
    let pendingRcs :=
      inserts.map
        (fun row => (E.keyify (project keysInAllCols row), RowChange.mk "+++" (plainCells row))) ++
      updates.map
        (fun row => (E.keyify (project keysInDblCols row), RowChange.mk "->" (updateCells row))) ++
      deletes.map
        (fun row => (E.keyify (project keysInAllCols row), RowChange.mk "---" (plainCells row)))
    some (⟨"@@", allCols.map fun v => { txt := some (E.ofText v), value := some (E.ofText v) }⟩ ::
      E.applyWithContext rows keysInAllCols pendingRcs)

/-! ## `DiffApplySql` -/

end Engine

/-- A condition or an assignment is a column and a value. -/
inductive Statement (V : Type)
  | insert (tbl : List Char) (vals : List (Option V))
  | delete (tbl : List Char) (conds : List (List Char × Option V))
  | update (tbl : List Char) (sets conds : List (List Char × Option V))

namespace DiffApplySql

variable {V : Type} (name : String) (columns : List String) (rc : RowChange V)

/-- The columns with what the change has of them. -/
def assigned (f : Nat → Option V) : List (List Char × Option V) :=
  columns.zipIdx.map fun c => (quoteColumn c.1, f c.2)

def rowInsert : Statement V := .insert (quoteTable name) ((assigned columns rc.valueAt).map (·.2))

def rowDelete : Statement V := .delete (quoteTable name) (assigned columns rc.valueAt)

def rowUpdate : Statement V :=
  .update (quoteTable name) ((assigned columns rc.newValueAt).filter fun c => c.2.isSome)
  (assigned columns rc.valueAt)

/-- `apply_row`; skipped rows and context are nothing to do. -/
def applyRow : Option (Statement V) :=
  if rc.rowMode = "+++" then some (rowInsert name columns rc)
  else if rc.rowMode = "---" then some (rowDelete name columns rc)
  else if rc.rowMode = "->" then some (rowUpdate name columns rc)
  else none

end DiffApplySql

/-- The row with values put into some of its places. -/
def writeRow {V : Type} (is : List (Nat × Option V)) (row : Row V) : Row V :=
  is.foldl (fun row e => row.set e.1 e.2) row

def Database.modify {V : Type} (db : Database V) (t : Table V)
    (f : List (Row V) → List (Row V)) : Database V :=
  db.map fun u => if u.schema == t.schema && u.name == t.name then { u with rows := f u.rows }
  else u

namespace Engine

variable {V : Type} (E : Engine V) [DecidableEq V]

def resolve (t : Table V) (cs : List (List Char × Option V)) : Option (List (Nat × Option V)) :=
  cs.mapM fun c => (E.column? t c.1).map fun i => (i, c.2)

def satisfies (conds : List (Nat × Option V)) (row : Row V) : Bool :=
  conds.all fun c => decide (value row c.1 = c.2)

def execute (db : Database V) : Statement V → Option (Database V)
  | .insert tbl vals => do
    let t ← E.table? db tbl
    if vals.length = t.columns.length ∧ t.admits (t.rows ++ [vals]) then db.modify t fun rows =>
      rows ++ [vals] else none
  | .delete tbl conds => do
    let t ← E.table? db tbl
    let cs ← E.resolve t conds
    if conds.isEmpty then none else db.modify t fun rows => rows.filter fun r => !satisfies cs r
  | .update tbl sets conds => do
    let t ← E.table? db tbl
    let ss ← E.resolve t sets
    let cs ← E.resolve t conds
    let written := fun r => if satisfies cs r then writeRow ss r else r
    if sets.isEmpty || conds.isEmpty || !t.admits (t.rows.map written) then none
      else db.modify t (List.map written)

def applyRow (name : String) (columns : List String) (db : Database V) (rc : RowChange V) :
    Option (Database V) :=
  match DiffApplySql.applyRow name columns rc with
  | some s => E.execute db s
  | none => some db

/-- `SqlCompare#apply` with `DiffApplySql` on the first table as its output. -/
def run (db : Database V) (table1 table2 : String) : Option (Database V) := do
  let info ← E.pragma db table1
  let rcs ← E.applySingle db table1 table2
  rcs.foldlM (E.applyRow table1 info.columns) db

end Engine

end Ruby

end Coopy
