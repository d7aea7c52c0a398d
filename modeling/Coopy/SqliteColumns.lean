import Coopy.Lib.Transaction
import Coopy.PolySheet
import Coopy.SqliteSchema
import Coopy.SqliteSheet
import Coopy.TdiffWriter

/-!
# `SqliteSheet`: columns of a table whose database may fail

The column operations as they are made of SQL statements, over any engine that runs these.  A new
column at the end is one statement; all else takes the table's text apart, changes the list of
columns that the sheet keeps, and only then builds the table anew in a script of eight statements.
A column is changed by an insertion, copies, and a deletion.
-/

namespace Coopy

open Lib

namespace SqliteColumns

/-- The statements of the column operations. -/
inductive Statement
  | createBackup (columns : List String)
  | fillBackup (columns : List String) (table : String)
  | dropTable (table : String)
  | create (sql : List Char)
  | refill (table : String) (columns : List String)
  | dropBackup
  | addColumn (table : String) (name : String)
  | update (table : String) (column : String) (value : Option String) (rowid : Int)
deriving DecidableEq, Repr

/-- The engine: what a command does to the database, and what queries find in it. -/
structure Engine (δ : Type) where
  run : Command Statement → δ → Reply δ
  /-- The text kept for a table; empty if the query fails. -/
  sql : String → δ → List Char
  /-- The rows of a table in the order of their numbers. -/
  scan : String → δ → Option (List (List (Option String)))
  select : String → Int → δ → Option (List (Option String))

end SqliteColumns

/-- A sheet over an open database. -/
structure SqliteColumns (δ : Type) where
  conn : Connection δ
  name : String
  quotedName : String
  w : Int
  h : Nat
  pendingLoad : Bool
  row2sql : List Int
  col2sql : List ColumnInfo
  cache : SparseSheet String
  cacheFlag : SparseSheet Nat

namespace SqliteColumns

open SqliteSheet (cText shown suggestName)

/-- What comes back: a reference, which is valid from 0 on, or a flag. -/
inductive Answer
  | ref (index : Int)
  | flag (ok : Bool)
deriving DecidableEq, Repr

def Answer.success : Answer → Bool
  | ref index => decide (0 ≤ index)
  | flag ok => ok

/-- The sheet after an operation, its answer, and the commands that failed. -/
structure Report (δ : Type) where
  sheet : SqliteColumns δ
  answer : Answer
  stops : List (Stop Statement)

variable {δ : Type} (e : Engine δ)

/-! ## Cells -/

def clearCache (s : SqliteColumns δ) : SqliteColumns δ :=
  { s with cache := s.cache.clear, cacheFlag := s.cacheFlag.clear }

/-- What a cell of the scan adds to the caches. -/
def loadCell (s : SqliteColumns δ) (xx yy : Nat) (r : Option String) : SqliteColumns δ :=
  match r with
  | none => { s with cacheFlag := s.cacheFlag.write xx yy 1 }
  | some r => { s with cache := s.cache.write xx yy (cText r) }

/-- `check`: the first access to a cell loads all of them. -/
def check (s : SqliteColumns δ) : SqliteColumns δ :=
  if s.pendingLoad then
    let s := { s with pendingLoad := false }
    match e.scan s.quotedName s.conn.db with
    | none => s
    | some rows => rows.zipIdx.foldl
      (fun s row =>
        (List.range s.w.toNat).foldl (fun s xx => s.loadCell xx row.2 (row.1.getD xx none)) s) s
  else s

/-- `cellString(x,y,escaped)`, the cells once loaded. -/
def cellString (s : SqliteColumns δ) (x y : Nat) : SheetCell :=
  if (s.cacheFlag.pcell x y).isSome then SheetCell.null
  else
    match s.cache.pcell x y with
    | some c => ⟨c, false⟩
    | none =>
      match e.select s.quotedName (s.row2sql.getD y 0) s.conn.db with
      | none => ⟨"", true⟩
      | some row => shown ((row.getD x none).map cText)

/-- `cellString(x,y,str,escaped)`, the cells once loaded: the cache is written first. -/
def setCellString (s : SqliteColumns δ) (x y : Nat) (str : SheetCell) :
    SqliteColumns δ × Option (Stop Statement) :=
  let column := (s.col2sql.getD x {}).name
  let value := if str.escaped then none else some (cText str.text)
  let result :=
    s.conn.step e.run (.run (.update s.quotedName (cText column) value (s.row2sql.getD y 0)))
  ({ s with
    conn := result.1
    cache := s.cache.write x y str.text
    cacheFlag := if str.escaped then s.cacheFlag.write x y 1 else s.cacheFlag.remove x y },
      result.2)

/-! ## Columns -/

def sqlKeywords : List String :=
  ["ABORT", "ACTION", "ADD", "AFTER", "ALL", "ALTER", "ANALYZE", "AND", "AS", "ASC", "ATTACH",
    "AUTOINCREMENT",
   "BEFORE", "BEGIN", "BETWEEN", "BY", "CASCADE", "CASE", "CAST", "CHECK", "COLLATE", "COLUMN",
   "COMMIT", "CONFLICT",
   "CONSTRAINT", "CREATE", "CROSS", "CURRENT_DATE", "CURRENT_TIME", "CURRENT_TIMESTAMP", "DATABASE",
   "DEFAULT",
   "DEFERRABLE", "DEFERRED", "DELETE", "DESC", "DETACH", "DISTINCT", "DROP", "EACH", "ELSE", "END",
   "ESCAPE",
   "EXCEPT", "EXCLUSIVE", "EXISTS", "EXPLAIN", "FAIL", "FOR", "FOREIGN", "FROM", "FULL", "GLOB",
   "GROUP", "HAVING",
   "IF", "IGNORE", "IMMEDIATE", "IN", "INDEX", "INDEXED", "INITIALLY", "INNER", "INSERT", "INSTEAD",
   "INTERSECT",
   "INTO", "IS", "ISNULL", "JOIN", "KEY", "LEFT", "LIKE", "LIMIT", "MATCH", "NATURAL", "NO", "NOT",
   "NOTNULL",
   "NULL", "OF", "OFFSET", "ON", "OR", "ORDER", "OUTER", "PLAN", "PRAGMA", "PRIMARY", "QUERY",
   "RAISE", "REFERENCES",
   "REGEXP", "REINDEX", "RELEASE", "RENAME", "REPLACE", "RESTRICT", "RIGHT", "ROLLBACK", "ROW",
   "SAVEPOINT",
   "SELECT", "SET", "TABLE", "TEMP", "TEMPORARY", "THEN", "TO", "TRANSACTION", "TRIGGER", "UNION",
   "UNIQUE",
   "UPDATE", "USING", "VACUUM", "VALUES", "VIEW", "VIRTUAL", "WHEN", "WHERE"]

def isReserved (name : String) : Bool :=
  name.toList.any (fun ch => ch == '[' || ch == ']' || ch == '.') ||
    sqlKeywords.contains (String.ofList (name.toList.map Char.toUpper))

def quotedSingle (x : String) : List Char := Tdiff.quoteSql x.toList '\'' (isReserved x)

/-- `SqliteSchema::apply`, for the columns that the sheet has by now.  The program ends at a name
with a double quote. -/
def apply (s : SqliteColumns δ) (ischema : SqliteSchema) (novel : String) :
    Option (SqliteColumns δ × List (Stop Statement)) :=
  let names := s.col2sql.map fun info => cText info.name
  if names.any fun base => base.toList.contains '"' then none
  else
    let insColumns := names.filter fun base => base ≠ novel
    let table := cText s.name
    let result := s.conn.exec e.run (Connection.script
      [.createBackup insColumns, .fillBackup insColumns table, .dropTable table,
        .create (cString ischema.toString), .refill table insColumns, .dropBackup])
    some ({ s with conn := result.1 }, result.2.toList)

/-- `fetch` and `parse`. -/
def fetch (s : SqliteColumns δ) : SqliteSchema :=
  SqliteSchema.parse (e.sql (cText s.name) s.conn.db)

/-- The report on a column that has come at `index`, unless a statement failed. -/
def grown (index : Int) (result : SqliteColumns δ × List (Stop Statement)) : Report δ :=
  if result.2 = [] then ⟨{ result.1 with w := result.1.w + 1 }, .ref index, []⟩
  else ⟨result.1, .ref (-1), result.2⟩

/-- A new column before `base`; `none` where the source has no meaning, or the program ends. -/
def insertColumn (s : SqliteColumns δ) (base : Int) (kind : ColumnInfo) : Option (Report δ) :=
  let s := s.clearCache
  let colName := suggestName (s.col2sql.map (·.name)) (if kind.nameSet then kind.name else "ins")
  let info := { kind with name := colName, nameSet := true }
  if base = -1 then
    let result := s.conn.step e.run (.run (.addColumn s.quotedName (cText colName)))
    match result.2 with
    | some stop => some ⟨{ s with conn := result.1 }, .ref (-1), [stop]⟩
    | none =>
      some ⟨{ s with conn := result.1, col2sql := s.col2sql ++ [info], w := s.w + 1 }, .ref s.w, []⟩
  else
    let ischema := s.fetch e
    let colSql := quotedSingle colName
    if base < 0 then
      let ischema := { ischema with parts := ischema.parts ++ [colSql] }
      (apply e { s with col2sql := s.col2sql ++ [info] } ischema colName).map (grown s.w)
    else if base ≤ ischema.parts.length ∧ base ≤ s.col2sql.length then
      let ischema := { ischema with parts := ischema.parts.insertIdx base.toNat colSql }
      (apply e { s with col2sql := s.col2sql.insertIdx base.toNat info } ischema colName).map
        (grown base)
    else none

def deleteColumn (s : SqliteColumns δ) (column : Nat) : Option (Report δ) :=
  let s := s.clearCache
  let ischema := s.fetch e
  if column < ischema.parts.length ∧ column < s.col2sql.length then
    let ischema := { ischema with parts := ischema.parts.eraseIdx column }
    (apply e { s with col2sql := s.col2sql.eraseIdx column, w := s.w - 1 } ischema "").map
    fun result =>
      ⟨result.1, .flag (result.2 = []), result.2⟩
  else none

/-- The place that a column takes when it is moved: `-1` for the end. -/
def movedIndex (src : Nat) (base : Int) : Int := if base > src then base - 1 else base

/-- A list with one item taken out and put back. -/
def moved {α : Type} (xs : List α) (src : Nat) (base : Int) (x : α) : List α :=
  if movedIndex src base = -1 then xs.eraseIdx src ++ [x]
  else (xs.eraseIdx src).insertIdx (movedIndex src base).toNat x

def moveColumn (s : SqliteColumns δ) (src : Nat) (base : Int) : Option (Report δ) :=
  let s := s.clearCache
  let ischema := s.fetch e
  match ischema.parts[src]?, s.col2sql[src]? with
  | some cacheSql, some cacheInfo =>
    if movedIndex src base = -1 ∨
        (0 ≤ movedIndex src base ∧ movedIndex src base < ischema.parts.length ∧
          movedIndex src base < s.col2sql.length) then
      let ischema := { ischema with parts := moved ischema.parts src base cacheSql }
      (apply e { s with col2sql := moved s.col2sql src base cacheInfo } ischema "").map
        fun result =>
        ⟨result.1, .ref (if result.2 = [] then movedIndex src base else -1), result.2⟩
    else none
  | _, _ => none

/-- One row of `modifyColumn`: the old cell is read and written to the new column; what fails goes
unnoticed. -/
def copyCell (column : Nat) (t : SqliteColumns δ × List (Stop Statement)) (i : Nat) :
    SqliteColumns δ × List (Stop Statement) :=
  let s := t.1.check e
  let result := s.setCellString e column i (s.cellString e (column + 1) i)
  (result.1, t.2 ++ result.2.toList)

def modifyColumn (s : SqliteColumns δ) (column : Nat) (kind : ColumnInfo) : Option (Report δ) :=
  (s.insertColumn e column kind).bind fun inserted =>
    if inserted.answer.success then
      let copied :=
        (List.range inserted.sheet.h).foldl (copyCell e column) (inserted.sheet, inserted.stops)
      (copied.1.deleteColumn e (column + 1)).map fun deleted =>
        { deleted with stops := copied.2 ++ deleted.stops }
    else some { inserted with answer := .flag false }

/-- The operations on columns; without a type of its own a new column comes with `ColumnInfo()`. -/
inductive Op
  | insertColumn (base : Int) (kind : ColumnInfo)
  | deleteColumn (column : Nat)
  | moveColumn (src : Nat) (base : Int)
  | modifyColumn (column : Nat) (kind : ColumnInfo)
deriving DecidableEq, Repr

def perform (s : SqliteColumns δ) : Op → Option (Report δ)
  | .insertColumn base kind => s.insertColumn e base kind
  | .deleteColumn column => s.deleteColumn e column
  | .moveColumn src base => s.moveColumn e src base
  | .modifyColumn column kind => s.modifyColumn e column kind

end SqliteColumns

end Coopy
