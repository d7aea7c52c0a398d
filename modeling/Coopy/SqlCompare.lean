import Coopy.Lib.Relation
import Coopy.Patcher

/-!
# `SqlCompare`: two tables of one database compared by three queries

The names of tables and columns go into the queries between backticks, with their apostrophes
doubled, as `sqlite3_mprintf` does for `%q`.  A query with a name that the database does not have
cannot be prepared, and `apply` goes on to the next one.  A text is read up to its first end mark.
-/

namespace Coopy

open Lib Relation

namespace Sqlite

def backtick : Char := Char.ofNat 96

def apostrophe : Char := Char.ofNat 39

/-- What `%q` makes of a text. -/
def doubled (s : List Char) : List Char := s.flatMap fun c =>
    if c == apostrophe then [c, c] else [c]

/-- A name between backticks. -/
def quoted (name : String) : List Char := backtick :: doubled name.toList ++ [backtick]

/-- A name between backticks behind the first of them: two backticks stand for one. -/
def readBody : List Char → Option (List Char)
  | [] => none
  | [c] => if c == backtick then some [] else none
  | c :: d :: rest =>
    if c == backtick then (if d == backtick then (readBody rest).map (backtick :: ·) else none)
    else (readBody (d :: rest)).map (c :: ·)

/-- The name that SQLite reads between backticks. -/
def readName : List Char → Option String
  | [] => none
  | c :: rest => if c == backtick then (readBody rest).map String.ofList else none

end Sqlite

open Sqlite

/-! ## Tables -/

structure SqlTableName where
  -- the database that the table is in
  schema : String
  name : String
deriving DecidableEq, Repr

structure SqlColumn where
  name : String
  isPrimaryKey : Bool := false
deriving DecidableEq, Repr

structure SqlTable where
  name : SqlTableName
  columns : List SqlColumn
  rows : List (Row String)

namespace SqlTable

variable (t : SqlTable)

def getColumnNames : List String := t.columns.map (·.name)

def getPrimaryKey : List String := (t.columns.filter (·.isPrimaryKey)).map (·.name)

def getAllButPrimaryKey : List String := (t.columns.filter fun c => !c.isPrimaryKey).map (·.name)

/-- `getQuotedTableName`; a table is looked up with its database. -/
def quotedTableName : List Char × List Char := (quoted t.name.schema, quoted t.name.name)

/-- The place of the column that a quoted name stands for. -/
def column? (q : List Char) : Option Nat := do
  let name ← readName q
  t.getColumnNames.findIdx? (· == name)

end SqlTable

/-- The tables that a query can name. -/
abbrev Database := List SqlTable

namespace Database

def table? (db : Database) (q : List Char × List Char) : Option SqlTable := do
  let schema ← readName q.1
  let name ← readName q.2
  db.find? fun t => t.name == ⟨schema, name⟩

/-- `SELECT cols FROM t WHERE NOT EXISTS (SELECT 1 FROM other WHERE t.k IS other.k AND ...)`; `none`
is a query that cannot be prepared. -/
def queryUnmatched (db : Database) (cols keys : List (List Char))
    (t other : List Char × List Char) : Option (List (Row String)) := do
  let t ← db.table? t
  let other ← db.table? other
  let ks ← keys.mapM t.column?
  let ks' ← keys.mapM other.column?
  let is ← cols.mapM t.column?
  if keys.isEmpty then none else selectUnmatched is ks t.rows ks' other.rows

/-- `SELECT t.c, other.c, ... FROM t INNER JOIN other ON t.k IS other.k AND ... WHERE t.d IS NOT
other.d OR ...`. -/
def queryMismatched (db : Database) (cols keys data : List (List Char))
    (t other : List Char × List Char) : Option (List (Row String)) := do
  let t ← db.table? t
  let other ← db.table? other
  let is ← cols.mapM t.column?
  let is' ← cols.mapM other.column?
  let ks ← keys.mapM t.column?
  let ks' ← keys.mapM other.column?
  let ds ← data.mapM t.column?
  let ds' ← data.mapM other.column?
  if keys.isEmpty || data.isEmpty then none
    else selectMismatched is ks ds t.rows is' ks' ds' other.rows

end Database

/-! ## The changes -/

namespace SqlCompare

/-- `DbiSqlWrapper::get`: the text is a C string. -/
def get (row : Row String) (i : Nat) : SheetCell :=
  match row.getD i none with
  | none => ⟨"", true⟩
  | some text => ⟨String.ofList (cString text.toList), false⟩

/-- Cells under their columns. -/
def fill (es : List (String × SheetCell)) : AssocMap String SheetCell :=
  es.foldl (fun m e => m.set e.1 e.2) []

section
variable (allCols : List String) (indexes : AssocMap String Bool)

def insertChange (row : Row String) : RowChange :=
  { mode := .insert
    val := fill (allCols.zipIdx.map fun c => (c.1, get row c.2))
    names := allCols, allNames := allCols, indexes := indexes }

def updateChange (row : Row String) : RowChange :=
  { mode := .update
    cond := fill (allCols.zipIdx.map fun c => (c.1, get row (2 * c.2)))
    val := fill ((allCols.zipIdx.filter fun c => get row (2 * c.2) != get row (2 * c.2 + 1)).map
      fun c => (c.1, get row (2 * c.2 + 1)))
    names := allCols, allNames := allCols, indexes := indexes }

def deleteChange (row : Row String) : RowChange :=
  { mode := .delete
    cond := fill (allCols.zipIdx.map fun c => (c.1, get row c.2))
    names := allCols, allNames := allCols, indexes := indexes }

end

def validateSchema (t remote : SqlTable) : Bool :=
  t.getColumnNames == remote.getColumnNames && t.getPrimaryKey == remote.getPrimaryKey &&
  !t.getPrimaryKey.isEmpty

/-- The changes of a query, none if it cannot be prepared. -/
def rowChanges (rows : Option (List (Row String))) (change : Row String → RowChange) :
    List RowChange :=
  (rows.getD []).map change

/-- Which columns are in the key. -/
def keyIndexes (t : SqlTable) : AssocMap String Bool :=
  let data := t.getAllButPrimaryKey.foldl (fun (m : AssocMap String Bool) k => m.set k false) []
  t.getPrimaryKey.foldl (fun (m : AssocMap String Bool) k => m.set k true) data

/-- `apply`: what it returns, and the changes. -/
def apply (db : Database) (t remote : SqlTable) : Bool × List RowChange :=
  if !validateSchema t remote then (false, [])
  else
    let allCols := t.getColumnNames
    let cols := allCols.map quoted
    let keys := t.getPrimaryKey.map quoted
    let data := t.getAllButPrimaryKey.map quoted
    let table1 := t.quotedTableName
    let table2 := remote.quotedTableName
    let indexes := keyIndexes t
    (true,
      rowChanges (db.queryUnmatched cols keys table2 table1) (insertChange allCols indexes) ++
      rowChanges (db.queryMismatched cols keys data table1 table2) (updateChange allCols indexes) ++
      rowChanges (db.queryUnmatched cols keys table1 table2) (deleteChange allCols indexes))

end SqlCompare

/-! ## What the changes say -/

namespace RowChange

/-- A value as a cell; a NULL is a cell without a text. -/
def sqlCell : Option String → SheetCell
  | none => ⟨"", true⟩
  | some text => ⟨text, false⟩

def sqlValue (c : SheetCell) : Option String := if c.escaped then none else some c.text

variable (columns : List String) (rc : RowChange)

/-- The row has the cells that the change asks for. -/
def asksFor (row : Row String) : Bool :=
  (columns.zip row).all fun e => match rc.cond.get? e.1 with
    | none => true
    | some c => c == sqlCell e.2

/-- The row with the cells that the change gives. -/
def writeRow (row : Row String) : Row String :=
  (columns.zip row).map fun e => match rc.val.get? e.1 with
    | none => e.2
    | some c => sqlValue c

/-- The change applied to a table as a set of rows. -/
def applyTo (rows : List (Row String)) : List (Row String) :=
  match rc.mode with
  | .insert => rows ++ [rc.writeRow columns (columns.map fun _ => none)]
  | .update => rows.map fun row => if rc.asksFor columns row then rc.writeRow columns row else row
  | .delete => rows.filter fun row => !rc.asksFor columns row
  | _ => rows

def applyAllTo (rcs : List RowChange) (rows : List (Row String)) : List (Row String) :=
  rcs.foldl (fun rows rc => rc.applyTo columns rows) rows

end RowChange

end Coopy
