import Coopy.MergeOutputFilter
import Coopy.TdiffNames

/-!
# A tdiff text

The loop of `applyTdiff` over all lines of a text.  A line sets the sheet, declares a pool, declares
or changes the columns, or is a row; it may use the columns of the lines before it.  The column
lines are those of the names alone:

    the text without its rows, pools and sheets is what the names make of it     (readTdiff_columns)
-/

namespace Coopy

open Lib

namespace Tdiff

/-! ## Calls and states -/

/-- The calls of the patcher. -/
inductive PatcherCall
  | mergeStart
  | setSheet (name : String)
  | changePool (change : PoolChange)
  | columns (call : PatchCall)
  | changeRow (change : RowChange)
  | mergeDone
  | mergeAllDone
deriving DecidableEq, Repr

def PatcherCall.columns? : PatcherCall → Option PatchCall
  | columns call => some call
  | _ => none

def PatcherCall.row? : PatcherCall → Option RowChange
  | changeRow change => some change
  | _ => none

/-- What is kept from line to line. -/
structure Reading extends TdiffState where
  tableName : String := ""
  allNames : List String := []
deriving DecidableEq, Repr

/-- What `c_str` leaves of a name. -/
def cName (name : String) : String := String.ofList (cString name.toList)

/-- `needTable`: a sheet is chosen if none is. -/
def needTable (flags : FilterFlags) (r : Reading) : Reading × List PatcherCall :=
  if r.tableName = "" then
    match flags.orderedTables with
    | [] => (r, [])
    | table :: _ => ({ r with tableName := table }, [.setSheet (cName table)])
  else (r, [])

/-! ## Pools -/

/-- The field of a key, cut at its first dot. -/
def tableField (key : String) (invented : Bool) : TableField :=
  if '.' ∈ key.toList then
    { tableName := String.ofList (key.toList.takeWhile (· ≠ '.'))
      fieldName := String.ofList (key.toList.dropWhile (· ≠ '.')).tail
      invented }
  else { tableName := "", fieldName := key, invented }

def declarePool (tableName : String) : List (List Char) → List PatcherCall
  | [] => []
  | poolName :: terms =>
    let pool := terms.filterMap fun term =>
      let part := TDiffPart.apply term true
      part.key.map fun key => tableField key part.isId
    if pool = [] then [] else [.changePool { poolName := String.ofList poolName, tableName, pool }]

/-! ## Rows -/

def rowMode (first : List Char) : Option RowChangeMode :=
  if first = ['='] then some .update
  else if first = ['-'] then some .delete
  else if first = ['+'] then some .insert
  else if first = ['*'] then some .context
  else if first = [':'] then some .move
  else none

def skipsRow (flags : FilterFlags) : RowChangeMode → Bool
  | .update => !flags.canUpdate
  | .delete => !flags.canDelete
  | .insert => !flags.canInsert
  | .context => !flags.useOrder
  | .move => !flags.canUpdate || !flags.useOrder
  | .none => false

/-- The columns of a row: those that its terms name, if one of them does; `[0]`, `[1]` and so on, if
there are none; and those before, as many as there are terms.  `none` is a failed assertion. -/
def rowColumns (cols assign : List TDiffPart) : Option (List TDiffPart) :=
  let cols :=
    if assign.any (·.key.isSome) then assign.map fun a =>
    { a with val := none, nval := none, cval := none } else cols
  let cols := cols.take assign.length
  let cols :=
    if cols = [] then (List.range assign.length).map fun i =>
    TDiffPart.apply ('[' :: (toString i).toList ++ [']']) true
    else cols
  if cols.length = assign.length then some cols else none

/-- A term says on which value its row is chosen. -/
def conded (mode : RowChangeMode) (context part : TDiffPart) : Bool :=
  part.val.isSome && context.key.isSome && decide (mode ≠ .insert) && !context.isFresh

/-- What a term adds to the change. -/
def addTerm (change : RowChange) (context part : TDiffPart) : RowChange :=
  let key := cName context.name
  let conded := conded change.mode context part
  let val := part.val.getD ⟨"", true⟩
  { change with
    cond := if conded then change.cond.set key val else change.cond
    indexes := if context.isId && part.val.isSome then change.indexes.set key true
      else change.indexes
    val :=
      let assigned :=
        match part.nval with
        | some nval => change.val.set key nval
        | none =>
          if change.mode = .insert ∧ conded = false then change.val.set key val else change.val
      if context.isFresh && part.val.isSome && !conded then assigned.set key val else assigned
    conflictingVal :=
      match part.nval, part.cval with
      | some _, some cval => change.conflictingVal.set key cval
      | _, _ => change.conflictingVal
    conflictingParentVal :=
      match part.nval, part.pval with
      | some _, some pval => change.conflictingParentVal.set key pval
      | _, _ => change.conflictingParentVal
    names := change.names ++ [key] }

def rowChange (mode : RowChangeMode) (conflicted : Bool)
    (cols assign : List TDiffPart) : RowChange :=
  (cols.zip assign).foldl (fun change term => addTerm change term.1 term.2) { mode, conflicted }

def applyRow (flags : FilterFlags) (r : Reading) (mode : RowChangeMode) (conflict : Bool)
    (terms : List (List Char)) : Option (Reading × List PatcherCall) :=
  let assign := terms.map (TDiffPart.apply · false)
  (rowColumns r.cols assign).map fun cols =>
    let change := rowChange mode conflict cols assign
    let allNames := if r.allNames.length < change.names.length then change.names else r.allNames
    ({ r with cols, allNames }, if skipsRow flags mode then []
      else [.changeRow { change with allNames }])

/-! ## Lines -/

/-- The names after a change of the columns. -/
def PatchCall.namesAfter : PatchCall → List String
  | changeName _ _ => []
  | changeColumn change => change.namesAfter

/-- The columns named by a line. -/
def declareColumns (r : Reading) (first : List Char) (terms : List (List Char)) :
    Reading × List PatcherCall :=
  let cols := terms.map (TDiffPart.apply · true)
  ({ r with cols },
    if first = ['@'] then []
      else [.columns (.changeName (cols.map TDiffPart.name) (decide (first = ['@', '@', '='])))])

def applyColumns (r : Reading) (mode : OrderChangeMode) (terms : List (List Char)) :
    Option (Reading × List PatcherCall) :=
  (applyColumnLine r.toTdiffState mode terms).map fun (s, calls) =>
    ({ r with toTdiffState := s, allNames := calls.flatMap PatchCall.namesAfter },
      calls.map .columns)

/-- Calls that come before those of a line. -/
def after (calls : List PatcherCall) (next : Reading × List PatcherCall) :
    Reading × List PatcherCall :=
  (next.1, calls ++ next.2)

section
variable (flags : FilterFlags)

/-- A line outside of comments, by its first word; `none` if an assertion fails, or a word is read
that is not there. -/
def applyWords (r : Reading) (first : List Char) (conflict : Bool) (rest : List (List Char)) :
    Option (Reading × List PatcherCall) :=
  if first = ['@', '@', '@'] then
    rest.head?.map fun name =>
      let tableName := (TDiffPart.apply name true).name
      ({ r with tableName, allNames := [] }, [.setSheet (cName tableName)])
  else if first = ['x'] then some (r, declarePool r.tableName rest)
  else if first = ['@'] then some (declareColumns r first rest)
  else if first = ['@', '@'] ∨ first = ['@', '@', '='] then
    let (r, calls) := needTable flags r
    some (after calls (declareColumns r first rest))
  else
    let (r', calls) := needTable flags r
    match columnMode first, rowMode first with
    | some mode, _ => (applyColumns r' mode rest).map (after calls)
    | none, some mode => (applyRow flags r' mode conflict rest).map (after calls)
    | none, none => some (r, [])

/-- One turn of the loop of `applyTdiff`. -/
def readLine (r : Reading) (line : List Char) : Option (Reading × List PatcherCall) :=
  if r.inComment then some ({ r with inComment := !(decide (['*', '/'] <:+: line)) }, [])
  else
    match normalizedMessage line with
    | [] => some (r, [])
    | word :: rest =>
      let conflict := decide (word.head? = some '!')
      let first := if conflict then word.tail else word
      if word.head? = some '#' then some (r, [])
      else if ['/', '*'].isPrefixOf first then some ({ r with inComment := true }, [])
      else applyWords flags r first conflict rest

def readText : Reading → List (List Char) → Option (Reading × List PatcherCall)
  | r, [] => some (r, [])
  | r, line :: lines =>
    (readLine flags r line).bind fun (r', calls) => (readText r' lines).map (after calls)

/-- The calls for the lines, with those before and after them. -/
def merged (next : Reading × List PatcherCall) : List PatcherCall :=
  .mergeStart :: next.2 ++ [.mergeDone, .mergeAllDone]

/-- The calls of the patcher for a text. -/
def readTdiff (text : List Char) : Option (List PatcherCall) :=
  (readText flags {} (readLines [] text)).map merged

end

/-! ## The columns alone -/

/-- What is left of the columns by a line that does not name them by itself. -/
def otherLine (cols : List TDiffPart) : List (List Char) → Option (List TDiffPart × List PatchCall)
  | [] => some (cols, [])
  | word :: rest =>
    let first := if word.head? = some '!' then word.tail else word
    if first = ['@', '@', '@'] then rest.head?.map fun _ => (cols, [])
    else
      match rowMode first with
      | some _ => (rowColumns cols (rest.map (TDiffPart.apply · false))).map fun cols => (cols, [])
      | none => some (cols, [])

/-- The part of a turn that concerns the columns. -/
def columnsOf (next : Reading × List PatcherCall) : TdiffState × List PatchCall :=
  (next.1.toTdiffState, next.2.filterMap PatcherCall.columns?)

theorem columns?_map (calls : List PatchCall) :
    (calls.map PatcherCall.columns).filterMap PatcherCall.columns? = calls := by
  rw [List.filterMap_map]
  exact List.filterMap_some

section
variable (flags : FilterFlags) (r : Reading)

theorem needTable_state : (needTable flags r).1.toTdiffState = r.toTdiffState := by
  unfold needTable
  split
  · split <;> rfl
  · rfl

theorem needTable_columns : (needTable flags r).2.filterMap PatcherCall.columns? = [] := by
  unfold needTable
  split
  · split <;> rfl
  · rfl

theorem columnsOf_after (next : Reading × List PatcherCall) :
    columnsOf (after (needTable flags r).2 next) = columnsOf next := by
  unfold columnsOf after
  rw [List.filterMap_append, needTable_columns, List.nil_append]

theorem declarePool_columns (tableName : String) (rest : List (List Char)) :
    (declarePool tableName rest).filterMap PatcherCall.columns? = [] := by
  cases rest with
  | nil => rfl
  | cons poolName terms =>
    rw [declarePool]
    show List.filterMap _ (if _ = [] then [] else [_]) = _
    split <;> rfl

theorem declareColumns_columns (first : List Char) (terms : List (List Char)) :
    columnsOf (declareColumns r first terms) =
      ({ r.toTdiffState with cols := terms.map (TDiffPart.apply · true) },
        if first = ['@'] then []
        else [.changeName ((terms.map (TDiffPart.apply · true)).map TDiffPart.name)
          (decide (first = ['@', '@', '=']))]) := by
  unfold columnsOf declareColumns
  split <;> rfl

theorem applyColumns_columns (mode : OrderChangeMode) (terms : List (List Char)) :
    (applyColumns r mode terms).map columnsOf = applyColumnLine r.toTdiffState mode terms := by
  unfold applyColumns
  rw [Option.map_map]
  have hid : (columnsOf ∘ fun next : TdiffState × List PatchCall =>
      ({ r with toTdiffState := next.1, allNames := next.2.flatMap PatchCall.namesAfter },
        next.2.map PatcherCall.columns)) = id :=
    funext fun next => Prod.ext rfl (columns?_map next.2)
  exact (congrArg (Option.map · _) hid).trans (congrFun Option.map_id _)

theorem applyRow_columns (mode : RowChangeMode) (conflict : Bool) (terms : List (List Char)) :
    (applyRow flags r mode conflict terms).map columnsOf =
      (rowColumns r.cols (terms.map (TDiffPart.apply · false))).map fun cols =>
      ({ r.toTdiffState with cols }, []) := by
  unfold applyRow
  rw [Option.map_map]
  congr 1
  funext cols
  unfold columnsOf
  show (_, _) = (_, _)
  congr 1
  show List.filterMap _ (if skipsRow flags mode = true then [] else _) = _
  split <;> rfl

/-- A line outside of comments, as far as the columns go. -/
theorem applyWords_columns {word first : List Char}
    (hfirst : (if word.head? = some '!' then word.tail else word) = first)
    (conflict : Bool) (rest : List (List Char)) :
    (applyWords flags r first conflict rest).map columnsOf =
      if first = ['@'] ∨ first = ['@', '@'] ∨ first = ['@', '@', '='] then
        let cols := rest.map (TDiffPart.apply · true)
        some ({ r.toTdiffState with cols },
          if first = ['@'] then []
            else [.changeName (cols.map TDiffPart.name) (decide (first = ['@', '@', '=']))])
      else
        match columnMode first with
        | some mode => applyColumnLine r.toTdiffState mode rest
        | none =>
          (otherLine r.cols (word :: rest)).map fun next =>
            ({ r.toTdiffState with cols := next.1 }, next.2) := by
  have hother : otherLine r.cols (word :: rest) =
      if first = ['@', '@', '@'] then rest.head?.map fun _ => (r.cols, [])
      else
        match rowMode first with
        | some _ =>
          (rowColumns r.cols (rest.map (TDiffPart.apply · false))).map fun cols => (cols, [])
        | none => some (r.cols, []) := by
    rw [← hfirst]
    rfl
  rw [hother]
  unfold applyWords
  by_cases hsheet : first = ['@', '@', '@']
  · subst hsheet
    rw [if_pos rfl, if_neg (by decide), if_pos rfl, Option.map_map]
    show _ = Option.map _ (Option.map _ rest.head?)
    rw [Option.map_map]
    rfl
  rw [if_neg hsheet, if_neg hsheet]
  by_cases hpool : first = ['x']
  · subst hpool
    rw [if_pos rfl, if_neg (by decide)]
    exact congrArg some (Prod.ext rfl (declarePool_columns _ _))
  rw [if_neg hpool]
  by_cases hat : first = ['@']
  · rw [if_pos hat, if_pos (Or.inl hat)]
    exact congrArg some (declareColumns_columns r first rest)
  rw [if_neg hat]
  by_cases hnames : first = ['@', '@'] ∨ first = ['@', '@', '=']
  · rw [if_pos hnames, if_pos (Or.inr hnames)]
    show some
      (columnsOf (after (needTable flags r).2 (declareColumns (needTable flags r).1 first rest))) =
      _
    rw [columnsOf_after, declareColumns_columns, needTable_state]
  rw [if_neg hnames, if_neg (not_or.2 ⟨hat, hnames⟩)]
  have hafter : columnsOf ∘ after (needTable flags r).2 = columnsOf :=
    funext fun next => columnsOf_after flags r next
  cases hmode : columnMode first with
  | some mode =>
    show ((applyColumns (needTable flags r).1 mode rest).map (after (needTable flags r).2)).map
      columnsOf = _
    rw [Option.map_map, hafter, applyColumns_columns, needTable_state]
  | none =>
    cases hrow : rowMode first with
    | some mode =>
      show ((applyRow flags (needTable flags r).1 mode conflict rest).map
        (after (needTable flags r).2)).map columnsOf =
        Option.map _ (Option.map _ _)
      rw [Option.map_map, hafter, applyRow_columns, needTable_state, Option.map_map]
      rfl
    | none => rfl

/-- A turn of the loop, as far as the columns go. -/
theorem readLine_columns (line : List Char) :
    (readLine flags r line).map columnsOf = applyLine otherLine r.toTdiffState line := by
  unfold readLine applyLine
  by_cases hin : r.inComment = true
  · rw [if_pos hin, if_pos hin]
    rfl
  rw [if_neg hin, if_neg hin]
  cases normalizedMessage line with
  | nil => rfl
  | cons word rest =>
    simp only [decide_eq_true_eq]
    by_cases hhash : word.head? = some '#'
    · rw [if_pos hhash, if_pos hhash]
      rfl
    rw [if_neg hhash, if_neg hhash]
    generalize hw : (if word.head? = some '!' then word.tail else word) = first
    by_cases hopen : ['/', '*'].isPrefixOf first = true
    · rw [if_pos hopen, if_pos hopen]
      rfl
    rw [if_neg hopen, if_neg hopen]
    exact applyWords_columns flags r hw _ rest

/-- **The column calls of a text** are those of the loop over names alone. -/
theorem readText_columns (lines : List (List Char)) : ∀ r : Reading,
    (readText flags r lines).map (fun next => next.2.filterMap PatcherCall.columns?) =
      applyLines otherLine r.toTdiffState lines := by
  induction lines with
  | nil => exact fun r => rfl
  | cons line lines ih =>
    intro r
    rw [readText, applyLines, ← readLine_columns flags r line]
    cases readLine flags r line with
    | none => rfl
    | some next =>
      show Option.map _ (Option.map _ _) =
        Option.map _ (applyLines otherLine next.1.toTdiffState lines)
      rw [← ih next.1, Option.map_map, Option.map_map]
      congr 1
      funext final
      exact List.filterMap_append

end

theorem readTdiff_columns (flags : FilterFlags) (text : List Char) :
    (readTdiff flags text).map (List.filterMap PatcherCall.columns?) =
    applyTdiff otherLine text := by
  unfold readTdiff applyTdiff
  rw [← readText_columns flags _ {}, Option.map_map]
  congr 1
  funext next
  show (PatcherCall.mergeStart :: (next.2 ++ _)).filterMap PatcherCall.columns? = _
  rw [List.filterMap_cons_none rfl, List.filterMap_append]
  exact List.append_nil _

end Tdiff

end Coopy
