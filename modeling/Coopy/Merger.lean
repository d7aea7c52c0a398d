import Coopy.Mover
import Coopy.OrderMerge
import Coopy.Patcher
import Coopy.Sniffers

/-!
# `Merger`: the three-way merge of two tables

`merge` lines the columns and rows of the three tables up (`OrderMerge`), works out
the column changes in four passes over a simulated list of the local columns, and
then one `RowChange` or more for each row unit.  The output wants a diff and no
links.  A call of `exit` is an error here, and so is a read past the end of a vector.
-/

namespace Coopy

open Lib

/-- The ways a merge ends the program. -/
inductive MergerExit
  | mergeLogicFailure
  | matchFailed
  | inconsistentNull
  | outOfBounds
  | outOfFuel
deriving DecidableEq, Repr

/-- What a merge is given. -/
structure MergerState where
  pivot : DataSheet
  locals : DataSheet
  remote : DataSheet
  rowLocal : OrderResult
  rowRemote : OrderResult
  colLocal : OrderResult
  colRemote : OrderResult
  flags : CompareFlags
  localNames : NameSniffer
  remoteNames : NameSniffer
  allIdentical : Bool := false

namespace Merger

/-! ## One cell -/

def normalizeString (low : String) (flags : CompareFlags) : String :=
  if flags.ignoreCase then low.map Char.toLower else low

def consistentNull (c : SheetCell) : Bool :=
  c.text == "NULL" || c.text == SheetCell.blankCell.text

def compareString (flags : CompareFlags) (a b : SheetCell) : Except MergerExit Bool :=
  if a.escaped && b.escaped && !(consistentNull a && consistentNull b) then .error .inconsistentNull
  else if flags.ignoreCase = false then .ok (a == b)
  else if a.escaped != b.escaped then .ok false
  else .ok (normalizeString a.text flags == normalizeString b.text flags)

/-- A merged cell; `novel` says that local does not have it yet. -/
structure CellMerge where
  cell : SheetCell
  novel : Bool
  conflicted : Bool
deriving DecidableEq, Repr

/-- Two assertions that both differ from the pivot. -/
def resolveCell (flags : CompareFlags) (l r p : SheetCell) : CellMerge :=
  if flags.resolve = "" then ⟨l, true, true⟩
  else if flags.resolve = "ours" then ⟨l, false, false⟩
  else if flags.resolve = "theirs" then ⟨r, true, false⟩
  else if flags.resolve = "neither" then ⟨p, true, false⟩
  else ⟨l, false, false⟩

/-- The three-way rule for one cell. -/
def mergeCell (flags : CompareFlags) (l r p : SheetCell) : Except MergerExit CellMerge :=
  (compareString flags l r).bind fun same =>
    if same then .ok ⟨l, false, false⟩
    else if l = SheetCell.blankCell then .ok (if r.escaped then ⟨l, false, false⟩
      else ⟨r, true, false⟩)
    else if r = SheetCell.blankCell then .ok ⟨l, false, false⟩
    else
      (compareString flags p l).bind fun samePL =>
        if samePL then .ok ⟨r, true, false⟩
        else (compareString flags p r).bind fun samePR =>
          if samePR then .ok ⟨l, false, false⟩ else .ok (resolveCell flags l r p)

/-! ## One row -/

/-- `cellSummary(col,row)` where both are there, the blank cell otherwise. -/
def cellAt (sheet : DataSheet) (col row : Int) : SheetCell :=
  if row ≥ 0 ∧ col ≥ 0 then sheet.cellSummary col.toNat row.toNat else SheetCell.blankCell

/-- What `mergeRow` needs to know of the merge it is part of. -/
structure RowContext where
  pivot : DataSheet
  locals : DataSheet
  remote : DataSheet
  flags : CompareFlags
  colAccum : List MatchUnit
  names : List String
  filteredNames : List String
  allGone : Bool

/-- `names[at]` if `names.size()>at`, the empty name otherwise. -/
def nameAt (names : List String) (k : Nat) : String := names.getD k ""

/-- The conditions: the local cells under the names of the columns that stay. -/
def rowCond (ctx : RowContext) (lRow : Int) : Nat → List MatchUnit → AssocMap String SheetCell →
    AssocMap String SheetCell
  | _, [], cond => cond
  | k, unit :: units, cond =>
    let n := nameAt ctx.names k
    let cond :=
      if lRow ≥ 0 ∧ unit.localUnit ≥ 0 ∧ unit.deleted = false ∧ n ∉ ctx.flags.excludeColumns then
        cond.set n (cellAt ctx.locals unit.localUnit lRow)
      else cond
    rowCond ctx lRow (if unit.deleted then k else k + 1) units cond

/-- The maps the loop over the expanded cells fills. -/
structure RowValues where
  value : AssocMap String SheetCell := []
  conflictedValue : AssocMap String SheetCell := []
  conflictedParentValue : AssocMap String SheetCell := []
  conflict : Bool := false
deriving DecidableEq, Repr

def RowValues.enter (v : RowValues) (flags : CompareFlags) (n : String) (m : CellMerge)
    (r p : SheetCell) :
    RowValues :=
  if n ∈ flags.excludeColumns then v
  else
    { v with
      value := v.value.set n m.cell
      conflictedValue := if m.conflicted then v.conflictedValue.set n r else v.conflictedValue
      conflictedParentValue := if m.conflicted then v.conflictedParentValue.set n p
        else v.conflictedParentValue }

/-- The loop over the expanded cells. -/
def rowValues (ctx : RowContext) (row : MatchUnit) : Nat → List MatchUnit → RowValues →
    Except MergerExit RowValues
  | _, [], v => .ok v
  | k, unit :: units, v =>
    -- `continue` before `at` is counted
    if ctx.flags.fixedColumns = true ∧ unit.localUnit = -1 then rowValues ctx row k units v
    else
      let l := cellAt ctx.locals unit.localUnit row.localUnit
      let r := cellAt ctx.remote unit.remoteUnit row.remoteUnit
      let p := cellAt ctx.pivot unit.pivotUnit row.pivotUnit
      let ignored : Except MergerExit Bool :=
        if unit.deleted = false ∧ ctx.filteredNames.length > 0 then
          match ctx.names[k]? with
          | some n => .ok (decide (n ∉ ctx.filteredNames))
          | none => .error .outOfBounds
        else .ok false
      ignored.bind fun ignored =>
        (if ignored then .ok ⟨l, false, false⟩ else mergeCell ctx.flags l r p).bind fun m =>
          let v := { v with conflict := v.conflict || m.conflicted }
          let v := if unit.deleted = false ∧
            m.novel = true then v.enter ctx.flags (nameAt ctx.names k) m r p else v
          rowValues ctx row (if unit.deleted then k else k + 1) units v

/-- The members of `Merger` that carry over from row to row. -/
structure Cursor where
  lastLocalRow : Int := -1
  bottomLocalRow : Int := -1
  lastLocalRowMarked : Int := -1
  hadRow : Bool := false
  hadForeignRow : Bool := false
  lastRowChange : RowChange := {}
deriving DecidableEq, Repr

/-- A context row, if order is in use and the pivot has rows. -/
def contextRow (ctx : RowContext) (wanted : Bool) (alt : RowChange) : List RowChange :=
  if wanted = true ∧ ctx.flags.useOrder = true ∧
  ctx.pivot.height > 0 then [{ alt with mode := .context }] else []

/-- The part of `mergeRow` that decides what to report about the row. -/
def emitRow (ctx : RowContext) (row : MatchUnit) (rowChange : RowChange) (c : Cursor) :
    Cursor × List RowChange :=
  let lRow := row.localUnit
  let prevHadRow := c.hadRow
  let hadRow := if c.lastLocalRow ≠ -1 then true else c.hadRow
  let hadForeignRow := if c.lastLocalRow ≠ -1 then false else c.hadForeignRow
  let unmarked := decide (c.lastLocalRow ≥ 0 ∧ c.lastLocalRowMarked ≠ c.lastLocalRow)
  let moves := decide (row.deleted = false ∧ lRow ≠ -1 ∧ (hadRow = true ∨ hadForeignRow = true) ∧
    (lRow < c.bottomLocalRow ∨ hadForeignRow = true))
  let before := contextRow ctx (moves && unmarked) c.lastRowChange
  let haveMove := moves && (prevHadRow || decide (lRow ≠ 0)) && ctx.flags.useOrder
  let moved := if haveMove then [{ rowChange with mode := RowChangeMode.move }] else []
  let marked := if moves then lRow else c.lastLocalRowMarked
  let after (mode : RowChangeMode) (marked : Int) (hadForeignRow : Bool) : Cursor :=
    { lastLocalRow := lRow
      bottomLocalRow := if lRow ≥ c.bottomLocalRow then lRow else c.bottomLocalRow
      lastLocalRowMarked := marked
      hadRow := hadRow
      hadForeignRow := hadForeignRow
      lastRowChange := { rowChange with mode := mode } }
  if lRow = -1 then
    if ctx.flags.canInsert then
      let context :=
        if c.lastLocalRow ≥ 0 then contextRow ctx (decide (marked ≠ c.lastLocalRow)) c.lastRowChange
        else contextRow ctx (!(prevHadRow || hadForeignRow || ctx.allGone)) {}
      (after .insert lRow (hadForeignRow || decide (c.lastLocalRow < 0)),
        before ++ moved ++ context ++ [{ rowChange with mode := .insert }])
    else (after rowChange.mode marked hadForeignRow, before ++ moved)
  else if row.remoteUnit = -1 then
    if ctx.flags.canDelete = true ∧ row.pivotUnit ≠ -1 then
      (after .delete lRow hadForeignRow, before ++ moved ++ [{ rowChange with mode := .delete }])
    else (after rowChange.mode marked hadForeignRow, before ++ moved)
  else if ctx.flags.canUpdate = true ∧ rowChange.val.length ≠ 0 then
    let mode := if haveMove then RowChangeMode.move else RowChangeMode.update
    (after mode lRow hadForeignRow, before ++ [{ rowChange with mode := mode }])
  else (after rowChange.mode marked hadForeignRow, before ++ moved)

/-- The rows reported so far, the cursor, and whether `setConflicted` was called. -/
structure RowState where
  cursor : Cursor := {}
  rc : List RowChange := []
  conflicted : Bool := false
deriving DecidableEq, Repr

/-- The change a row unit amounts to, before its mode is known. -/
def rowChangeOf (ctx : RowContext) (row : MatchUnit) (v : RowValues) : RowChange :=
  { cond := rowCond ctx row.localUnit 0 ctx.colAccum []
    val := v.value
    conflictingVal := v.conflictedValue
    conflictingParentVal := v.conflictedParentValue
    names := ctx.names
    conflicted := v.conflict
    pRow := row.pivotUnit
    lRow := row.localUnit
    rRow := row.remoteUnit }

def mergeRow (ctx : RowContext) (row : MatchUnit) (s : RowState) : Except MergerExit RowState :=
  (rowValues ctx row 0 ctx.colAccum {}).map fun v =>
    let (cursor, rows) := emitRow ctx row (rowChangeOf ctx row v) s.cursor
    { cursor := cursor, rc := s.rc ++ rows, conflicted := s.conflicted || v.conflict }

/-- The loop over the row units. -/
def mergeRows (ctx : RowContext) : List MatchUnit → RowState → Except MergerExit RowState
  | [], s => .ok s
  | unit :: units, s =>
    let unit := if ctx.allGone then { unit with localUnit := -1, pivotUnit := -1 } else unit
    if unit.remoteUnit ≠ -1 ∨
      ctx.allGone = false then (mergeRow ctx unit s).bind (mergeRows ctx units)
    else mergeRows ctx units s

/-! ## The column passes -/

/-- The simulated local columns, and the changes so far. -/
structure ColState where
  localCols : List Int
  localColNames : List String
  cc : List OrderChange := []
  constantIndex : Bool := true
  allGone : Bool := false
deriving DecidableEq, Repr

/-- All local columns, before any pass. -/
def ColState.start (width : Nat) (names : List String) : ColState :=
  { localCols := (List.range width).map Int.ofNat, localColNames := names }

/-- A change from the columns of `s` to those of `s'`. -/
def ColState.change (s s' : ColState) (mode : OrderChangeMode)
    (subject object : Int) : OrderChange :=
  { indicesBefore := s.localCols, namesBefore := s.localColNames
    indicesAfter := s'.localCols, namesAfter := s'.localColNames
    subject := subject, object := object, mode := mode }

/-- Pass 1: deletions.  The column erased is the one at the unit's pivot index. -/
def deletePass (indexes : AssocMap String Bool) : List MatchUnit → ColState →
    Except MergerExit ColState
  | [], s => .ok s
  | unit :: units, s =>
    let lCol := unit.pivotUnit
    if lCol ≠ -1 ∧ unit.deleted = true then
      if lCol ∈ s.localCols then
        let idx := s.localCols.idxOf lCol
        let s' : ColState :=
          { s with
            localCols := s.localCols.eraseIdx idx
            localColNames := s.localColNames.eraseIdx idx
            constantIndex :=
              s.constantIndex && indexes.get? (nameAt s.localColNames idx) != some true
            allGone := s.allGone || (s.localCols.eraseIdx idx).isEmpty }
        deletePass indexes units { s' with cc := s.cc ++ [s.change s' .delete lCol (-1)] }
      else .error .mergeLogicFailure
    else deletePass indexes units s

/-- The local columns in the order the merge wants. -/
def shuffledCols (units : List MatchUnit) : List Int :=
  (units.filter fun unit => unit.localUnit != -1 && !unit.deleted).map MatchUnit.localUnit

/-- Pass 2: each column of the move list goes to its final index. -/
def movePass (shuffled : List Int) : List Int → ColState → Except MergerExit ColState
  | [], s => .ok s
  | a :: order, s =>
    if a ∈ s.localCols ∧ a ∈ shuffled then
      let idx := s.localCols.idxOf a
      let idx2 := shuffled.idxOf a
      let s' : ColState :=
        { s with
          localCols := (s.localCols.eraseIdx idx).insertIdx idx2 a
          localColNames :=
            (s.localColNames.eraseIdx idx).insertIdx idx2 (nameAt s.localColNames idx) }
      let cc := if s.localColNames ≠ s'.localColNames then s.cc ++ [s.change s' .move a a] else s.cc
      movePass shuffled order { s' with cc := cc }
    else .error .mergeLogicFailure

def shufflePass (units : List MatchUnit) (s : ColState) : Except MergerExit ColState :=
  let shuffled := shuffledCols units
  if s.localCols.length ≠ shuffled.length then .error .matchFailed
  else
    match Mover.move shuffled (shuffled.length + 1) s.localCols [] [] 0 Mover.fresh with
    | none => .error .outOfFuel
    | some (_, _, order) => movePass shuffled order s

/-- The loop that appends `_` until the name is free. -/
def freeName : Nat → List String → String → Option String
  | 0, _, _ => none
  | fuel + 1, taken, name => if name ∈ taken then freeName fuel taken (name ++ "_") else some name

/-- A name that starts with a digit is put in braces. -/
def braced (name : String) : String :=
  match name.toList with
  | c :: _ => if '0' ≤ c ∧ c ≤ '9' then "\x7b" ++ name ++ "\x7d" else name
  | [] => name

/-- Pass 3: insertions, with `at` the place reached. -/
def insertPass (remoteNames : NameSniffer) : Nat → List MatchUnit → ColState →
    Except MergerExit ColState
  | _, [], s => .ok s
  | k, unit :: units, s =>
    let counted := if unit.localUnit ≠ -1 ∧ unit.deleted = false then 1 else 0
    if unit.pivotUnit = -1 ∧ unit.remoteUnit ≠ -1 ∧ unit.deleted = false then
      match remoteNames.suggestColumnName unit.remoteUnit.toNat with
      | none => .error .outOfBounds
      | some name =>
        match freeName (s.localColNames.length + 1) s.localColNames (braced name) with
        | none => .error .outOfFuel
        | some name =>
          let id := -unit.remoteUnit - 1
          let s' : ColState :=
            { s with
              localCols := s.localCols.insertIdx k id
              localColNames := s.localColNames.insertIdx k name }
          insertPass remoteNames (k + 1 + counted) units
            { s' with cc := s.cc ++ [s.change s' .insert id (-1)] }
    else insertPass remoteNames (k + counted) units s

/-- Pass 4: renames.  The local name is looked up at the unit's pivot index. -/
def renamePass (localNames remoteNames : NameSniffer) : List MatchUnit → ColState →
    Except MergerExit ColState
  | [], s => .ok s
  | unit :: units, s =>
    if unit.pivotUnit ≠ -1 ∧ unit.remoteUnit ≠ -1 ∧ unit.deleted = false then
      match localNames.suggestColumnName unit.pivotUnit.toNat,
        remoteNames.suggestColumnName unit.remoteUnit.toNat with
      | some lName, some rName =>
        if lName ≠ rName ∧ lName ∈ s.localColNames then
          let idx := s.localColNames.idxOf lName
          let s' : ColState := { s with localColNames := s.localColNames.set idx rName }
          renamePass localNames remoteNames units
            { s' with cc := s.cc ++ [s.change s' .rename (s.localCols.getD idx (-1)) (-1)] }
        else renamePass localNames remoteNames units s
      | _, _ => .error .outOfBounds
    else renamePass localNames remoteNames units s

/-- The four passes. -/
def columnPasses (flags : CompareFlags) (indexes : AssocMap String Bool)
    (localNames remoteNames : NameSniffer)
    (units : List MatchUnit) (s : ColState) : Except MergerExit ColState :=
  (deletePass indexes units s).bind fun s =>
    (shufflePass units s).bind fun s =>
      (insertPass remoteNames 0 units s).bind fun s =>
        if flags.assumeHeader then renamePass localNames remoteNames units s else .ok s

/-! ## The merge -/

/-- The names of the local columns. -/
def originalColNames (state : MergerState) : Except MergerExit (List String) :=
  match (List.range state.locals.width).mapM state.localNames.suggestColumnName with
  | some names => .ok names
  | none => .error .outOfBounds

/-- `indexes`, or nothing if no column is an index. -/
def indexMap (flags : CompareFlags) (names : List String) (indexFlags : List Bool) :
    AssocMap String Bool :=
  let entry (name : String) (isIndex : Bool) : Bool :=
    if name ∈ flags.excludeColumns then false else if name ∈ flags.includeColumns then true
    else isIndex
  let entries := (names.zip indexFlags).map fun e => (e.1, entry e.1 e.2)
  if entries.any Prod.snd then entries.foldl (fun m e => m.set e.1 e.2) [] else []

/-- The row units: all remote rows as additions when no column is shared. -/
def rowUnits (state : MergerState) (overlap : Nat) : Option (List MatchUnit) :=
  if overlap = 0 then
    some ((List.range state.remote.height).map fun i => ⟨-1, -1, i, false, .none⟩)
  else
    (OrderMerge.merge (OrderMerge.enough state.rowLocal state.rowRemote) state.rowLocal
      state.rowRemote
      state.flags false).map OrderMerge.accum

structure MergeResult where
  events : List PatchEvent
  conflicted : Bool
deriving DecidableEq, Repr

namespace MergeResult

def columnChanges (r : MergeResult) : List OrderChange := r.events.filterMap PatchEvent.column?

def rowChanges (r : MergeResult) : List RowChange := r.events.filterMap PatchEvent.row?

end MergeResult

/-- The calls made on the output once everything is known. -/
def report (flags : CompareFlags) (original : List String)
    (indexes : AssocMap String Bool) (s : ColState) (rows : RowState) : MergeResult :=
  let constant := s.cc.isEmpty
  let localColNames := if flags.fixedColumns then original else s.localColNames
  let indexes :=
    if s.constantIndex then indexes else original.foldl (fun m name => m.set name true) indexes
  { events :=
      (if flags.fixedColumns then []
        else PatchEvent.changeName ⟨false, constant, original⟩ ::
          s.cc.map PatchEvent.changeColumn) ++
      [PatchEvent.changeName ⟨true, constant, localColNames⟩] ++
      rows.rc.map
        (fun change =>
        PatchEvent.changeRow { change with indexes := indexes, allNames := localColNames }) ++
      [PatchEvent.mergeDone]
    conflicted := rows.conflicted }

def rowContext (state : MergerState) (colAccum : List MatchUnit) (original : List String)
    (s : ColState) : RowContext :=
  { pivot := state.pivot
    locals := state.locals
    remote := state.remote
    flags := state.flags
    colAccum := colAccum
    names := s.localColNames
    filteredNames := if state.flags.fixedColumns then original else []
    allGone := s.allGone }

/-- The column units: trimming does not apply to columns. -/
def colUnits (state : MergerState) : Option OrderMerge :=
  OrderMerge.merge (OrderMerge.enough state.colLocal state.colRemote) state.colLocal state.colRemote
    { state.flags with headTrimmed := false, tailTrimmed := false } true

def merge (state : MergerState) : Except MergerExit MergeResult :=
  if state.allIdentical then .ok ⟨[], false⟩
  else
    match colUnits state with
    | none => .error .outOfFuel
    | some cols =>
      match rowUnits state cols.overlap with
      | none => .error .outOfFuel
      | some rows =>
        (originalColNames state).bind fun original =>
          let indexes :=
            indexMap state.flags original
              (IndexSniffer.sniff state.locals state.flags state.localNames)
          (columnPasses state.flags indexes state.localNames state.remoteNames cols.accum
            (ColState.start state.locals.width original)).bind fun s =>
            (mergeRows (rowContext state cols.accum original s) rows {}).map
              (report state.flags original indexes s)

end Merger

end Coopy
