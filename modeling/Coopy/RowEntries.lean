import Coopy.ChangedCells

/-!
# What a row change holds under a column name

The cells of a row are merged column by column, and a counter tells the name that each goes under.
Where the counter stands right, the maps of the row change hold under a name what the three-way rule
gives for the columns of that name, the last one winning:

    names line up → the maps under n are those of `entriesNamed ctx row n`     (mergeRow_hasEntries)

The counter is left standing at a column that `fixedColumns` passes over, so nothing is said here of
the names from there on.
-/

namespace Coopy

open Lib

namespace Merger

/-! ## The rule -/

/-- What goes in under a column name: a value, and in a conflict the cells of remote and pivot. -/
structure CellEntry where
  value : SheetCell
  conflict : Option (SheetCell × SheetCell)
deriving DecidableEq, Repr

/-- The three-way rule for the cells of pivot, local and remote. -/
def threeWay (flags : CompareFlags) (p l r : SheetCell) : Option CellEntry :=
  if sameCell flags l r then none
  else if l = SheetCell.blankCell then if r.escaped then none else some ⟨r, none⟩
  else if r = SheetCell.blankCell then none
  else if sameCell flags p l then some ⟨r, none⟩
  else if sameCell flags p r then none
  else if flags.resolve = "" then some ⟨l, some (r, p)⟩
  else if flags.resolve = "theirs" then some ⟨r, none⟩
  else if flags.resolve = "neither" then some ⟨p, none⟩
  else none

/-- The rule for a row and a column of a name, where that column takes part. -/
def entryOf (ctx : RowContext) (row : MatchUnit) (n : String) (unit : MatchUnit) :
    Option CellEntry :=
  if n ∈ ctx.flags.excludeColumns then none
  else if ctx.flags.fixedColumns = true ∧ unit.localUnit = -1 then none
  else if ctx.filteredNames ≠ [] ∧ n ∉ ctx.filteredNames then none
  else threeWay ctx.flags (pivotCell ctx row unit) (localCell ctx row unit)
    (remoteCell ctx row unit)

/-- The columns that stay. -/
def keptUnits (units : List MatchUnit) : List MatchUnit := units.filter fun unit => !unit.deleted

/-- The `k`-th column that stays, under the `k`-th name. -/
def namedUnits (ctx : RowContext) : List (String × MatchUnit) :=
  ctx.names.zip (keptUnits ctx.colAccum)

/-- What the rule gives for the columns of a name, in their order. -/
def entriesIn (ctx : RowContext) (row : MatchUnit) (n : String)
    (columns : List (String × MatchUnit)) : List CellEntry :=
  columns.filterMap fun column => if column.1 = n then entryOf ctx row n column.2 else none

def entriesNamed (ctx : RowContext) (row : MatchUnit) (n : String) : List CellEntry :=
  entriesIn ctx row n (namedUnits ctx)

/-- The names from the first column on that `fixedColumns` passes over. -/
def uncountedIn (ctx : RowContext) (columns : List (String × MatchUnit)) : List String :=
  if ctx.flags.fixedColumns then (columns.dropWhile fun column => column.2.localUnit ≠ -1).map
  Prod.fst else []

/-- The counter stands right at the columns of the name, or the name is not asked for. -/
def CountedIn (ctx : RowContext) (columns : List (String × MatchUnit)) (n : String) : Prop :=
  n ∉ uncountedIn ctx columns ∨ (ctx.filteredNames ≠ [] ∧ n ∉ ctx.filteredNames)

/-- The maps of a change hold under a name the last value and the last conflict of some entries. -/
structure HasEntries (change : RowChange) (n : String) (entries : List CellEntry) : Prop where
  val : change.val.get? n = entries.getLast?.map CellEntry.value
  conflictingVal :
    change.conflictingVal.get? n = (entries.filterMap CellEntry.conflict).getLast?.map Prod.fst
  conflictingParentVal :
    change.conflictingParentVal.get? n =
    (entries.filterMap CellEntry.conflict).getLast?.map Prod.snd

theorem entriesIn_cons {ctx : RowContext} {row : MatchUnit} {n : String}
    (column : String × MatchUnit) (columns : List (String × MatchUnit)) :
    entriesIn ctx row n (column :: columns) =
      (if column.1 = n then entryOf ctx row column.1 column.2 else none).toList ++
      entriesIn ctx row n columns := by
  unfold entriesIn
  rw [List.filterMap_cons]
  by_cases hn : column.1 = n
  · rw [if_pos hn, if_pos hn, hn]
    cases entryOf ctx row n column.2 <;> rfl
  · rw [if_neg hn, if_neg hn]
    rfl

/-! ## The cells that change -/

/-- What a changed cell enters under its name. -/
def CellChange.entry (resolve : String) (e : CellChange) : Option CellEntry :=
  if (e.merged resolve).novel then
    some ⟨(e.merged resolve).cell, if (e.merged resolve).conflicted then some (e.r, e.p) else none⟩
  else none

/-- The rule is what the code does with a cell. -/
theorem threeWay_eq (flags : CompareFlags) (n : String) (p l r : SheetCell) :
    threeWay flags p l r =
      if (mergedCell { flags with resolve := "" } l r p).novel then
        CellChange.entry flags.resolve
          ⟨n, l, r, p, (mergedCell { flags with resolve := "" } l r p).conflicted⟩
      else none := by
  have hsame : ∀ a b, sameCell { flags with resolve := "" } a b = sameCell flags a b :=
    fun _ _ => rfl
  unfold threeWay mergedCell
  simp only [hsame]
  split
  · rfl
  split
  · split <;> rfl
  split
  · rfl
  split
  · rfl
  split
  · rfl
  -- a conflict: `resolve` decides
  unfold CellChange.entry CellChange.merged resolveCell
  simp only [if_true]
  by_cases hopen : flags.resolve = ""
  · simp [hopen]
  simp only [hopen, if_false]
  by_cases hours : flags.resolve = "ours"
  · simp [hours]
  simp only [hours, if_false]
  by_cases htheirs : flags.resolve = "theirs"
  · simp [htheirs]
  simp only [htheirs, if_false]
  by_cases hneither : flags.resolve = "neither"
  · simp [hneither]
  · simp [hneither]

variable {ctx : RowContext} {row unit : MatchUnit} {units : List MatchUnit} {n : String} {k : Nat}

/-- The change of a cell that is counted under the name `n`. -/
def changeOf (ctx : RowContext) (row : MatchUnit) (n : String) (unit : MatchUnit) :
    Option CellChange :=
  let m := openMerge ctx row unit (decide (ctx.filteredNames ≠ [] ∧ n ∉ ctx.filteredNames))
  if m.novel = true ∧ n ∉ ctx.flags.excludeColumns then
    some ⟨n, localCell ctx row unit, remoteCell ctx row unit, pivotCell ctx row unit, m.conflicted⟩
  else none

theorem changeOf_name {e : CellChange} (he : changeOf ctx row n unit = some e) :
    e.name = n ∧ (ctx.filteredNames ≠ [] → n ∈ ctx.filteredNames) := by
  unfold changeOf at he
  simp only at he
  by_cases hfil : ctx.filteredNames ≠ [] ∧ n ∉ ctx.filteredNames
  · rw [decide_eq_true hfil, if_neg fun h => Bool.false_ne_true h.1] at he
    cases he
  · split at he
    · cases he
      exact ⟨rfl, fun hne => Decidable.not_not.1 fun hn => hfil ⟨hne, hn⟩⟩
    · cases he

/-- A cell that is counted right enters what the rule gives. -/
theorem changeOf_entry (hpass : ¬(ctx.flags.fixedColumns = true ∧ unit.localUnit = -1)) :
    (changeOf ctx row n unit).bind (CellChange.entry ctx.flags.resolve) =
    entryOf ctx row n unit := by
  unfold changeOf entryOf
  simp only
  rw [if_neg hpass]
  by_cases hex : n ∈ ctx.flags.excludeColumns
  · rw [if_pos hex, if_neg fun h => h.2 hex]
    rfl
  rw [if_neg hex]
  by_cases hfil : ctx.filteredNames ≠ [] ∧ n ∉ ctx.filteredNames
  · rw [if_pos hfil, decide_eq_true hfil, if_neg fun h => Bool.false_ne_true h.1]
    rfl
  rw [if_neg hfil, decide_eq_false hfil, threeWay_eq ctx.flags n]
  by_cases hnov : (openMerge ctx row unit false).novel = true
  · rw [if_pos ⟨hnov, hex⟩]
    exact (if_pos hnov).symm
  · rw [if_neg fun h => hnov h.1]
    exact (if_neg hnov).symm

/-- A column that goes counts for nothing. -/
theorem cellChanges_cons_deleted (hdel : unit.deleted = true)
    (hpass : ¬(ctx.flags.fixedColumns = true ∧ unit.localUnit = -1)) :
    ∃ b : Bool, cellChanges ctx row k (unit :: units) =
    (cellChanges ctx row k units).map fun rest => (rest.1, b || rest.2) := by
  have hig : ignoredAt ctx k unit = .ok false := by
    unfold ignoredAt
    rw [if_neg fun h => by rw [hdel] at h; cases h.1]
  refine ⟨(openMerge ctx row unit false).conflicted, ?_⟩
  rw [cellChanges, if_neg hpass, hig]
  simp only [Except.bind, hdel, if_true, Bool.true_eq_false, false_and, if_false]

/-- A column that stays takes the name at the counter, and the counter goes on. -/
theorem cellChanges_cons_kept (hdel : unit.deleted = false)
    (hpass : ¬(ctx.flags.fixedColumns = true ∧ unit.localUnit = -1)) (hn : ctx.names[k]? = some n) :
    ∃ b : Bool, cellChanges ctx row k (unit :: units) =
    (cellChanges ctx row (k + 1) units).map fun rest =>
      ((changeOf ctx row n unit).toList ++ rest.1, b || rest.2) := by
  have hname : nameAt ctx.names k = n := by
    rw [nameAt, List.getD_eq_getElem?_getD, hn, Option.getD_some]
  have hig :
    ignoredAt ctx k unit = .ok (decide (ctx.filteredNames ≠ [] ∧ n ∉ ctx.filteredNames)) := by
    unfold ignoredAt
    rw [hn]
    by_cases hfil : ctx.filteredNames = []
    · rw [if_neg
        fun h => by rw [hfil] at h; exact Nat.lt_irrefl 0 h.2, decide_eq_false fun h => h.1 hfil]
    · rw [if_pos ⟨hdel, List.length_pos_iff.2 hfil⟩]
      exact congrArg Except.ok (decide_eq_decide.2 (by simp [hfil]))
  refine ⟨(openMerge ctx row unit
    (decide (ctx.filteredNames ≠ [] ∧ n ∉ ctx.filteredNames))).conflicted, ?_⟩
  rw [cellChanges, if_neg hpass, hig]
  simp only [Except.bind, hdel, Bool.false_eq_true, if_false, true_and, hname]
  congr 1
  funext rest
  unfold changeOf
  simp only
  split <;> rfl

/-! ## The names that are entered -/

theorem keptUnits_cons_deleted (hdel : unit.deleted = true) :
    keptUnits (unit :: units) = keptUnits units :=
  List.filter_cons_of_neg (by simp [hdel])

theorem keptUnits_cons_kept (hdel : unit.deleted = false) :
    keptUnits (unit :: units) = unit :: keptUnits units :=
  List.filter_cons_of_pos (by simp [hdel])

/-- The loop reads no name past the end, and enters only names from the counter on that are asked
for. -/
theorem cellChanges_names (units : List MatchUnit) :
    ∀ k : Nat, k + (keptUnits units).length ≤ ctx.names.length →
    ∃ es conflict, cellChanges ctx row k units = .ok (es, conflict) ∧
      ∀ e ∈ es, e.name ∈ ctx.names.drop k ∧
      (ctx.filteredNames ≠ [] → e.name ∈ ctx.filteredNames) := by
  induction units with
  | nil => exact fun k _ => ⟨[], false, rfl, fun e he => nomatch he⟩
  | cons unit units ih =>
    intro k hk
    have hsub : (keptUnits units).length ≤ (keptUnits (unit :: units)).length :=
      ((List.sublist_cons_self unit units).filter _).length_le
    by_cases hpass : ctx.flags.fixedColumns = true ∧ unit.localUnit = -1
    · obtain ⟨es, conflict, hes, hnames⟩ := ih k (by omega)
      exact ⟨es, conflict, by rw [cellChanges, if_pos hpass, hes], hnames⟩
    cases hdel : unit.deleted with
    | true =>
      obtain ⟨es, conflict, hes, hnames⟩ := ih k (by omega)
      obtain ⟨b, hstep⟩ := @cellChanges_cons_deleted ctx row unit units k hdel hpass
      exact ⟨es, b || conflict, by rw [hstep, hes]; rfl, hnames⟩
    | false =>
      rw [keptUnits_cons_kept hdel, List.length_cons] at hk
      have hlt : k < ctx.names.length := by omega
      obtain ⟨es, conflict, hes, hnames⟩ := ih (k + 1) (by omega)
      obtain ⟨b, hstep⟩ :=
        @cellChanges_cons_kept ctx row unit units _ k hdel hpass (List.getElem?_eq_getElem hlt)
      refine ⟨(changeOf ctx row ctx.names[k] unit).toList ++ es,
        b || conflict, by rw [hstep, hes]; rfl, fun e he => ?_⟩
      rw [List.drop_eq_getElem_cons hlt]
      rcases List.mem_append.1 he with he | he
      · obtain ⟨hname, hfil⟩ := changeOf_name (Option.mem_toList.1 he)
        rw [hname]
        exact ⟨List.mem_cons_self, hfil⟩
      · exact ⟨List.mem_cons_of_mem _ (hnames e he).1, (hnames e he).2⟩

/-- What some changed cells enter under a name. -/
def namedEntries (resolve : String) (es : List CellChange) (n : String) : List CellEntry :=
  es.filterMap fun e => if e.name = n then e.entry resolve else none

/-- Past a column that is passed over, nothing is entered under a name that is not asked for. -/
theorem namedEntries_eq_nil {resolve : String} {es : List CellChange}
    (hes : ∀ e ∈ es, e.name ∈ ctx.names.drop k ∧
      (ctx.filteredNames ≠ [] → e.name ∈ ctx.filteredNames))
    (hn : n ∉ ctx.names.drop k ∨ (ctx.filteredNames ≠ [] ∧ n ∉ ctx.filteredNames)) :
    namedEntries resolve es n = [] := by
  refine List.filterMap_eq_nil_iff.2 fun e he => if_neg ?_
  rintro rfl
  obtain ⟨hmem, hfil⟩ := hes e he
  rcases hn with hn | ⟨hne, hn⟩
  · exact hn hmem
  · exact hn (hfil hne)

theorem entriesIn_eq_nil {columns : List (String × MatchUnit)}
    (hn : n ∉ columns.map Prod.fst ∨ (ctx.filteredNames ≠ [] ∧ n ∉ ctx.filteredNames)) :
    entriesIn ctx row n columns = [] := by
  refine List.filterMap_eq_nil_iff.2 fun column hc => ?_
  rcases hn with hn | hfil
  · refine if_neg ?_
    rintro rfl
    exact hn (List.mem_map_of_mem hc)
  · have hnone : entryOf ctx row n column.2 = none := by
      unfold entryOf
      rw [if_pos hfil, ite_self, ite_self]
    rw [hnone, ite_self]

theorem namedEntries_changeOf {resolve m : String} {rest : List CellChange} :
    namedEntries resolve ((changeOf ctx row m unit).toList ++ rest) n =
      (if m = n then (changeOf ctx row m unit).bind (CellChange.entry resolve) else none).toList ++
        namedEntries resolve rest n := by
  unfold namedEntries
  rw [List.filterMap_append]
  congr 1
  cases he : changeOf ctx row m unit with
  | none => rw [Option.bind_none, ite_self]; rfl
  | some e =>
    rw [Option.bind_some, ← (changeOf_name he).1, Option.toList_some, List.filterMap_cons]
    cases (if e.name = n then e.entry resolve else none) <;> rfl

theorem uncountedIn_cons {column : String × MatchUnit} {columns : List (String × MatchUnit)}
    (hpass : ¬(ctx.flags.fixedColumns = true ∧ column.2.localUnit = -1)) :
    uncountedIn ctx (column :: columns) = uncountedIn ctx columns := by
  unfold uncountedIn
  by_cases hfix : ctx.flags.fixedColumns = true
  · have hhere : column.2.localUnit ≠ -1 := fun h => hpass ⟨hfix, h⟩
    rw [if_pos hfix, if_pos hfix, List.dropWhile_cons_of_pos (by simpa using hhere)]
  · rw [if_neg hfix, if_neg hfix]

/-- **The loop over the cells of a row** enters under a name what the rule gives for its columns, as
long as the counter stands right. -/
theorem namedEntries_eq (units : List MatchUnit) :
    ∀ (k : Nat) (es : List CellChange) (conflict : Bool),
    k + (keptUnits units).length = ctx.names.length →
    cellChanges ctx row k units = .ok (es, conflict) →
    CountedIn ctx ((ctx.names.drop k).zip (keptUnits units)) n →
    namedEntries ctx.flags.resolve es n = entriesIn ctx row n
      ((ctx.names.drop k).zip (keptUnits units)) := by
  induction units with
  | nil =>
    intro k es conflict _ hes _
    cases hes
    rw [keptUnits, List.filter_nil, List.zip_nil_right]
    rfl
  | cons unit units ih =>
    intro k es conflict hk hes hcount
    cases hdel : unit.deleted with
    | true =>
      rw [keptUnits_cons_deleted hdel] at hk hcount ⊢
      by_cases hpass : ctx.flags.fixedColumns = true ∧ unit.localUnit = -1
      · rw [cellChanges, if_pos hpass] at hes
        exact ih k es conflict hk hes hcount
      · obtain ⟨b, hstep⟩ := @cellChanges_cons_deleted ctx row unit units k hdel hpass
        obtain ⟨rest, c, hrest, -⟩ := @cellChanges_names ctx row units k (by omega)
        rw [hstep, hrest] at hes
        cases hes
        exact ih k rest c hk hrest hcount
    | false =>
      rw [keptUnits_cons_kept hdel] at hk hcount ⊢
      rw [List.length_cons] at hk
      have hlt : k < ctx.names.length := by omega
      by_cases hpass : ctx.flags.fixedColumns = true ∧ unit.localUnit = -1
      · -- from here on the counter lags, and no name of the rest is counted
        have hall : uncountedIn ctx ((ctx.names.drop k).zip (unit :: keptUnits units)) =
          ctx.names.drop k := by
          have hfst : ((ctx.names.drop k).zip (unit :: keptUnits units)).map Prod.fst =
            ctx.names.drop k := List.map_fst_zip (by rw [List.length_drop, List.length_cons]; omega)
          rw [uncountedIn, if_pos hpass.1]
          rw [List.drop_eq_getElem_cons hlt] at hfst ⊢
          rw [List.zip_cons_cons] at hfst ⊢
          rw [List.dropWhile_cons_of_neg (by simp [hpass.2]), hfst]
        unfold CountedIn at hcount
        rw [hall] at hcount
        obtain ⟨es', c, hes', hnames⟩ := @cellChanges_names ctx row units k (by omega)
        rw [cellChanges, if_pos hpass, hes'] at hes
        cases hes
        rw [namedEntries_eq_nil hnames hcount, entriesIn_eq_nil]
        refine hcount.imp_left fun hn hmem => hn ?_
        obtain ⟨column, hc, rfl⟩ := List.mem_map.1 hmem
        exact (List.of_mem_zip hc).1
      · obtain ⟨b, hstep⟩ :=
          @cellChanges_cons_kept ctx row unit units _ k hdel hpass (List.getElem?_eq_getElem hlt)
        obtain ⟨rest, c, hrest, -⟩ := @cellChanges_names ctx row units (k + 1) (by omega)
        rw [hstep, hrest] at hes
        cases hes
        rw [List.drop_eq_getElem_cons hlt, List.zip_cons_cons] at hcount ⊢
        unfold CountedIn at hcount
        rw [uncountedIn_cons hpass] at hcount
        rw [entriesIn_cons, namedEntries_changeOf, changeOf_entry hpass,
          ih (k + 1) rest c (by omega) hrest hcount]

/-! ## The row change -/

/-- The names line up with the columns that stay. -/
structure LinedContext extends RowContext where
  lined : names.length = (keptUnits colAccum).length

/-- What `mergeRow` leaves, given the change that the row amounts to. -/
def emitted (ctx : RowContext) (row : MatchUnit) (change : RowChange) (s : RowState) : RowState :=
  let (cursor, rows) := emitRow ctx row change s.cursor
  { cursor := cursor, rc := s.rc ++ rows, conflicted := s.conflicted || change.conflicted }

/-- The maps hold what the rule gives, under every name whose columns are counted right, and nothing
under a name that no column has. -/
structure FollowsRule (ctx : RowContext) (row : MatchUnit) (change : RowChange) : Prop where
  counted : ∀ n, CountedIn ctx (namedUnits ctx) n → HasEntries change n (entriesNamed ctx row n)
  others : ∀ n, n ∉ ctx.names → HasEntries change n []

theorem lastOf_eq_getLast? {resolve : String} {es : List CellChange}
    {f : CellChange → Option SheetCell}
    {g : CellEntry → Option SheetCell} (hf : ∀ e, f e = (e.entry resolve).bind g) :
    lastOf f es n = ((namedEntries resolve es n).filterMap g).getLast? := by
  unfold lastOf namedEntries
  rw [List.filterMap_filterMap]
  congr 1
  refine List.filterMap_congr fun e _ => ?_
  split
  · exact hf e
  · rfl

theorem entry_conflict (resolve : String) (e : CellChange) {α : Type}
    (side : SheetCell × SheetCell → α) :
    (if (e.merged resolve).conflicted then some (side (e.r, e.p)) else none) =
      (e.entry resolve).bind fun entry => entry.conflict.map side := by
  unfold CellChange.entry
  cases hcon : (e.merged resolve).conflicted with
  | true =>
    rw [merged_novel_of_conflicted hcon]
    rfl
  | false => cases (e.merged resolve).novel <;> rfl

theorem hasEntries_valuesAfter (resolve : String) (es : List CellChange) (conflict : Bool)
    (n : String) : HasEntries (rowChangeOf ctx row (valuesAfter resolve {} (es, conflict))) n
      (namedEntries resolve es n) := by
  obtain ⟨hr, hp⟩ := get?_conflicts_foldl resolve es n {}
  have hval := get?_value_foldl resolve es n {}
  have hempty : AssocMap.get? ([] : AssocMap String SheetCell) n = none := rfl
  refine ⟨?_, ?_, ?_⟩
  · have hgiven : ∀ e : CellChange, e.given resolve = (e.entry resolve).bind fun entry =>
      some entry.value := fun e => by
      unfold CellChange.given CellChange.entry
      cases (e.merged resolve).novel <;> rfl
    rw [← List.getLast?_map, ← List.filterMap_eq_map', ← lastOf_eq_getLast? hgiven]
    exact hval.trans (by rw [hempty, Option.or_none])
  · rw [← List.getLast?_map, List.map_filterMap, ← lastOf_eq_getLast? fun e =>
      entry_conflict resolve e Prod.fst]
    exact hr.trans (by rw [hempty, Option.or_none])
  · rw [← List.getLast?_map, List.map_filterMap, ← lastOf_eq_getLast? fun e =>
      entry_conflict resolve e Prod.snd]
    exact hp.trans (by rw [hempty, Option.or_none])

/-- **Merged under the right name.**  The change that `mergeRow` makes of a row holds, under every
name whose columns are counted right, the last value and the last conflict that the three-way rule
gives for the columns of the name. -/
theorem mergeRow_hasEntries (ctx : LinedContext) (row : MatchUnit) (s : RowState) :
    ∃ change, mergeRow ctx.toRowContext row s = .ok (emitted ctx.toRowContext row change s) ∧
      FollowsRule ctx.toRowContext row change := by
  obtain ⟨es, conflict, hes, -⟩ := @cellChanges_names ctx.toRowContext row ctx.colAccum 0
    (by rw [ctx.lined, Nat.zero_add])
  have hvalues : rowValues ctx.toRowContext row 0 ctx.colAccum {} =
      .ok (valuesAfter ctx.flags.resolve {} (es, conflict)) := by
    have h := rowValues_resolving ctx.toRowContext row ctx.flags.resolve ctx.colAccum 0 {}
    rw [hes] at h
    exact h
  have hcounted : ∀ n, CountedIn ctx.toRowContext (namedUnits ctx.toRowContext) n →
      HasEntries
        (rowChangeOf ctx.toRowContext row (valuesAfter ctx.flags.resolve {} (es, conflict))) n
          (entriesNamed ctx.toRowContext row n) := fun n hn => by
    have heq :=
      namedEntries_eq (n := n) ctx.colAccum 0 es conflict (by rw [ctx.lined, Nat.zero_add]) hes hn
    rw [List.drop_zero] at heq
    have hentries :
      HasEntries
        (rowChangeOf ctx.toRowContext row (valuesAfter ctx.flags.resolve {} (es, conflict))) n
          (namedEntries ctx.flags.resolve es n) :=
          hasEntries_valuesAfter ctx.flags.resolve es conflict n
    rw [heq] at hentries
    exact hentries
  refine ⟨rowChangeOf ctx.toRowContext row (valuesAfter ctx.flags.resolve {} (es, conflict)), ?_,
    hcounted, fun n hn => ?_⟩
  · unfold mergeRow
    rw [hvalues]
    rfl
  · have hcolumns : n ∉ (namedUnits ctx.toRowContext).map Prod.fst := fun hmem => hn <| by
      obtain ⟨column, hc, rfl⟩ := List.mem_map.1 hmem
      exact (List.of_mem_zip hc).1
    have hcount : n ∉ uncountedIn ctx.toRowContext (namedUnits ctx.toRowContext) :=
      fun hmem => hcolumns <| by
      unfold uncountedIn at hmem
      split at hmem
      · exact ((List.dropWhile_sublist _).map _).subset hmem
      · cases hmem
    have hentries := hcounted n (Or.inl hcount)
    rwa [entriesNamed, entriesIn_eq_nil (Or.inl hcolumns)] at hentries

/-! ## Where the rule alone would give more, or less -/

/-- A sheet of one row of texts. -/
def lineOf (texts : List String) : DataSheet where
  width := texts.length
  rows := [texts.map fun text => ⟨text, false⟩]
  rect := by simp
  stored := by simp [SheetCell.Stored]

/-- Remote has a row whose only cell is the null; the other sides have none. -/
def newNull : RowContext where
  pivot := ⟨1, [], by simp, by simp⟩
  locals := ⟨1, [], by simp, by simp⟩
  remote := ⟨1, [[SheetCell.null]], by simp, by simp [SheetCell.Stored, SheetCell.null]⟩
  flags := {}
  colAccum := [⟨0, 0, 0, false, .preserve⟩]
  names := ["a"]
  filteredNames := []
  allGone := false

/-- The columns are fixed, and remote has one more. -/
def newColumn : RowContext where
  pivot := lineOf ["1"]
  locals := lineOf ["1"]
  remote := lineOf ["2", "3"]
  flags := { fixedColumns := true }
  colAccum := [⟨0, 0, 0, false, .preserve⟩, ⟨-1, -1, 1, false, .insert⟩]
  names := ["a", "x"]
  filteredNames := ["a"]
  allGone := false

/-- Two columns of one name, of which remote changed the first. -/
def twiceNamed : RowContext where
  pivot := lineOf ["1", "2"]
  locals := lineOf ["1", "2"]
  remote := lineOf ["3", "2"]
  flags := {}
  colAccum := [⟨0, 0, 0, false, .preserve⟩, ⟨1, 1, 1, false, .preserve⟩]
  names := ["a", "a"]
  filteredNames := []
  allGone := false

/-- Both sides changed the first column, local deleted the second, and remote changed the third. -/
def sharedRow : LinedContext where
  pivot := lineOf ["1", "1", "1"]
  locals := lineOf ["2", "1", "1"]
  remote := lineOf ["3", "1", "4"]
  flags := {}
  colAccum := [⟨0, 0, 0, false, .preserve⟩, ⟨1, 1, 1, true, .preserve⟩, ⟨2, 2, 2, false, .preserve⟩]
  names := ["a", "c"]
  filteredNames := []
  allGone := false
  lined := by decide

theorem mergeRow_hasEntries_sharedRow :
    ∃ change, mergeRow sharedRow.toRowContext ⟨0, 0, 0, false, .preserve⟩ {} =
        .ok (emitted sharedRow.toRowContext ⟨0, 0, 0, false, .preserve⟩ change {}) ∧
      HasEntries change "a" [⟨⟨"2", false⟩, some (⟨"3", false⟩, ⟨"1", false⟩)⟩] ∧
      HasEntries change "c" [⟨⟨"4", false⟩, none⟩] ∧ HasEntries change "b" [] := by
  obtain ⟨change, hmerge, hrule⟩ := mergeRow_hasEntries sharedRow ⟨0, 0, 0, false, .preserve⟩ {}
  exact ⟨change, hmerge, hrule.counted "a" (Or.inl (by decide)),
    hrule.counted "c" (Or.inl (by decide)), hrule.others "b" (by decide)⟩

/-- The value under a name, in each change that the first row gives. -/
def valuesUnder (ctx : RowContext) (row : MatchUnit) (n : String) :
    Except MergerExit (List (Option SheetCell)) :=
  (mergeRow ctx row {}).map fun s => s.rc.map fun change => change.val.get? n

/-- A new cell that is null gives no value, nor does a new column where the columns are fixed; and
where a name is given twice, an unchanged column stands under the value of the other. -/
theorem mergeRow_leavesOut :
    (valuesUnder newNull ⟨-1, -1, 0, false, .insert⟩ "a" = .ok [none] ∧
      localCell newNull ⟨-1, -1, 0, false, .insert⟩ ⟨0, 0, 0, false, .preserve⟩ =
      SheetCell.blankCell ∧
      remoteCell newNull ⟨-1, -1, 0, false, .insert⟩ ⟨0, 0, 0, false, .preserve⟩ = SheetCell.null) ∧
    (valuesUnder newColumn ⟨0, 0, 0, false, .preserve⟩ "x" = .ok [none] ∧
      localCell newColumn ⟨0, 0, 0, false, .preserve⟩ ⟨-1, -1, 1, false, .insert⟩ =
      SheetCell.blankCell ∧
      remoteCell newColumn ⟨0, 0, 0, false, .preserve⟩ ⟨-1, -1, 1, false, .insert⟩ = ⟨"3", false⟩) ∧
    valuesUnder twiceNamed ⟨0, 0, 0, false, .preserve⟩ "a" = .ok [some ⟨"3", false⟩] ∧
      remoteCell twiceNamed ⟨0, 0, 0, false, .preserve⟩ ⟨1, 1, 1, false, .preserve⟩ =
        localCell twiceNamed ⟨0, 0, 0, false, .preserve⟩ ⟨1, 1, 1, false, .preserve⟩ := by
  decide

/-- Behind a column passed over, the change of the third column stands under the name of the
second. -/
example : valuesUnder { newColumn with
    pivot := lineOf ["1", "1", "1"]
    locals := lineOf ["1", "1", "1"]
    remote := lineOf ["1", "9", "2", "3"]
    colAccum :=
      [⟨0, 0, 0, false, .preserve⟩, ⟨-1, -1, 1, false, .insert⟩, ⟨1, 1, 2, false, .preserve⟩,
      ⟨2, 2, 3, false, .preserve⟩]
    names := ["a", "x", "b", "c"]
    filteredNames := ["a", "b", "c"] } ⟨0, 0, 0, false, .preserve⟩ "b" =
      .ok [some ⟨"3", false⟩] := by
  decide

end Merger

end Coopy
