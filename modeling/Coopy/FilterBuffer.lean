import Coopy.MergeOutputFilter

/-!
# What a filter holds

The calls on a filter, each with the sheet it is made on, tell what the filter takes in: changes on
the tables that are asked for, in the modes that are allowed.  After any run of calls the unit of
each sheet and the list of rows hold just that (`Holds`).

    Holds flags (labelled "" calls) (calls.foldl call start)                             (holds_run)
-/

namespace Coopy

open Lib

namespace MergeOutputFilter

/-! ## The calls that a filter accepts -/

def sheetAfter (sheet : String) : FilterCall → String
  | .setSheet name => name
  | _ => sheet

/-- Each call with the sheet it is made on. -/
def labelled (sheet : String) : List FilterCall → List (String × FilterCall)
  | [] => []
  | call :: calls => (sheetAfter sheet call, call) :: labelled (sheetAfter sheet call) calls

/-- The table is asked for. -/
def active (flags : FilterFlags) (table : String) : Bool :=
  flags.orderedTables.isEmpty || flags.orderedTables.contains table

/-- A row change accepted for a table, and the same for columns, pools and names. -/
def rowOn (flags : FilterFlags) (table : String) : String × FilterCall → Option RowChange
  | (sheet, .changeRow change) =>
    if sheet = table ∧ active flags table = true ∧
      canMode flags change.mode = true then some change else none
  | _ => none

@[inherit_doc rowOn]
def columnOn (flags : FilterFlags) (table : String) : String × FilterCall → Option OrderChange
  | (sheet, .changeColumn change) =>
    if sheet = table ∧ active flags table = true then some change else none
  | _ => none

@[inherit_doc rowOn]
def poolOn (flags : FilterFlags) (table : String) : String × FilterCall → Option PoolChange
  | (sheet, .changePool change) =>
    if sheet = table ∧ active flags table = true ∧ flags.canSchema = true then some change else none
  | _ => none

@[inherit_doc rowOn]
def nameOn (flags : FilterFlags) (table : String) : String × FilterCall → Option NameChange
  | (sheet, .changeName change) =>
    if sheet = table ∧ active flags table = true then some change else none
  | _ => none

/-! ## The unit of a sheet -/

/-- The unit of a table, or one as it starts. -/
def unitFor (f : MergeOutputFilter) (table : String) : SheetUnit :=
  (f.sheetUnits.get? table).getD { sheetName := table }

theorem unitFor_put (f : MergeOutputFilter) (unit : SheetUnit) (table : String) :
    (f.putSheetUnit unit).unitFor table = if table = f.sheetName then unit
    else f.unitFor table := by
  unfold unitFor putSheetUnit
  rw [AssocMap.get?_set]
  split <;> rfl

/-- The last name change of a kind. -/
def lastName (final : Bool) (names : List NameChange) : Option NameChange :=
  (names.filter fun change => change.final == final).getLast?

/-- What a unit holds, when `evs` has been told of its table. -/
structure HoldsUnit (flags : FilterFlags) (evs : List (String × FilterCall)) (table : String)
    (u : SheetUnit) : Prop where
  sheetName : u.sheetName = table
  orders : u.orders = evs.filterMap (columnOn flags table)
  pools : u.pools = evs.filterMap (poolOn flags table)
  rowCount : u.rowCount = (evs.filterMap (rowOn flags table)).length
  name0 : if u.haveName0 then lastName false (evs.filterMap (nameOn flags table)) = some u.name0
    else lastName false (evs.filterMap (nameOn flags table)) = none
  name1 : if u.haveName1 then u.name1.final = true ∧
      ∀ change, lastName true (evs.filterMap (nameOn flags table)) = some change → u.name1 = change
    else lastName true (evs.filterMap (nameOn flags table)) = none

/-- What a filter holds, and that it has sent nothing yet. -/
structure Holds (flags : FilterFlags) (book : Option FilterBook) (evs : List (String × FilterCall))
    (f : MergeOutputFilter) : Prop where
  flags_eq : f.flags = flags
  book_eq : f.book = book
  desired : f.desiredSheets = flags.orderedTables.dedup
  last : f.lastSheetName = "[[ COOPY - SHEET NOT SET ]]"
  started : f.startedSheets = []
  chain : f.chain = []
  keys : f.sheetUnits.keys.Nodup
  units : ∀ table, HoldsUnit flags evs table (f.unitFor table)
  rows : ∀ table, (f.rows.filter fun row => row.sheetName = table).map RowUnit.change =
    evs.filterMap (rowOn flags table)

theorem lastName_append (final : Bool) (names : List NameChange) (change : NameChange) :
    lastName final (names ++ [change]) = if change.final =
    final then some change else lastName final names := by
  unfold lastName
  rw [List.filter_append]
  by_cases h : change.final = final
  · rw [if_pos h, List.filter_cons_of_pos (by simpa using h), List.filter_nil, List.getLast?_append]
    rfl
  · rw [if_neg h, List.filter_cons_of_neg (by simpa using h), List.filter_nil, List.append_nil]

section
variable {flags : FilterFlags} {book : Option FilterBook} {evs : List (String × FilterCall)}
    {f : MergeOutputFilter}

theorem Holds.isActiveTable (h : Holds flags book evs f) :
    f.isActiveTable = active flags f.sheetName := by
  unfold MergeOutputFilter.isActiveTable active
  rw [h.desired]
  have hempty : flags.orderedTables.dedup.isEmpty = flags.orderedTables.isEmpty := by
    rw [Bool.eq_iff_iff, List.isEmpty_iff, List.isEmpty_iff, List.dedup_eq_nil]
  have hmem :
    flags.orderedTables.dedup.contains f.sheetName = flags.orderedTables.contains f.sheetName := by
    rw [Bool.eq_iff_iff, List.contains_iff_mem, List.contains_iff_mem, List.mem_dedup]
  rw [hempty, hmem]

/-- A call that tells a unit nothing. -/
theorem HoldsUnit.skip {table : String} {u : SheetUnit} (h : HoldsUnit flags evs table u)
    {ev : String × FilterCall}
    (hrow : rowOn flags table ev = none) (hcol : columnOn flags table ev = none)
    (hpool : poolOn flags table ev = none)
    (hname : nameOn flags table ev = none) : HoldsUnit flags (evs ++ [ev]) table u := by
  have happ : ∀ {β : Type} (g : String × FilterCall → Option β), g ev = none →
      (evs ++ [ev]).filterMap g = evs.filterMap g := by
    intro β g hg
    rw [List.filterMap_append, List.filterMap_cons_none hg, List.filterMap_nil, List.append_nil]
  constructor
  · exact h.sheetName
  · rw [happ _ hcol]; exact h.orders
  · rw [happ _ hpool]; exact h.pools
  · rw [happ _ hrow]; exact h.rowCount
  · rw [happ _ hname]; exact h.name0
  · rw [happ _ hname]; exact h.name1

theorem filterMap_snoc {β : Type} {g : String × FilterCall → Option β}
    {ev : String × FilterCall} {x : β}
    (h : g ev = some x) : (evs ++ [ev]).filterMap g = evs.filterMap g ++ [x] := by
  rw [List.filterMap_append, List.filterMap_cons_some h, List.filterMap_nil]

theorem filterMap_skip {β : Type} {g : String × FilterCall → Option β} {ev : String × FilterCall}
    (h : g ev = none) : (evs ++ [ev]).filterMap g = evs.filterMap g := by
  rw [List.filterMap_append, List.filterMap_cons_none h, List.filterMap_nil, List.append_nil]

/-- A call on another sheet. -/
theorem on_other {table : String} {ev : String × FilterCall} (h : ev.1 ≠ table) :
    rowOn flags table ev = none ∧ columnOn flags table ev = none ∧ poolOn flags table ev = none ∧
      nameOn flags table ev = none := by
  obtain ⟨sheet, call⟩ := ev
  have h : sheet ≠ table := h
  cases call <;> simp [rowOn, columnOn, poolOn, nameOn, h]

/-- A call that changes the unit of the present sheet, and may add a row. -/
theorem Holds.put (h : Holds flags book evs f) {c : FilterCall} {u : SheetUnit} (new : List RowUnit)
    (hu : HoldsUnit flags (evs ++ [(f.sheetName, c)]) f.sheetName u)
    (hnew : ∀ row ∈ new, row.sheetName = f.sheetName)
    (hrows : new.map RowUnit.change = [(f.sheetName, c)].filterMap (rowOn flags f.sheetName)) :
    Holds flags book (evs ++ [(f.sheetName, c)])
    (({ f with rows := f.rows ++ new } : MergeOutputFilter).putSheetUnit u) := by
  refine ⟨h.flags_eq, h.book_eq, h.desired, h.last, h.started, h.chain,
    AssocMap.nodup_keys_set h.keys _ _, fun table => ?_, fun table => ?_⟩
  · rw [unitFor_put]
    split
    · next ht =>
      have ht : table = f.sheetName := ht
      rw [ht]
      exact hu
    · next ht =>
      obtain ⟨h1, h2, h3, h4⟩ := @on_other flags table (f.sheetName, c) fun e => ht e.symm
      exact (h.units table).skip h1 h2 h3 h4
  · show ((f.rows ++ new).filter fun row => row.sheetName = table).map RowUnit.change = _
    rw [List.filter_append, List.map_append, h.rows table, List.filterMap_append]
    congr 1
    by_cases ht : f.sheetName = table
    · rw [List.filter_eq_self.2 (by intro row hrow; simp [hnew row hrow, ht]), hrows, ht]
    · rw [List.filter_eq_nil_iff.2 (by intro row hrow; simp [hnew row hrow, ht]),
        List.filterMap_cons_none (@on_other flags table (f.sheetName, c) ht).1]
      rfl

/-- A call that is refused. -/
theorem Holds.skip (h : Holds flags book evs f) {ev : String × FilterCall}
    (hon : ∀ table, rowOn flags table ev = none ∧ columnOn flags table ev = none ∧
      poolOn flags table ev = none ∧
      nameOn flags table ev = none) : Holds flags book (evs ++ [ev]) f := by
  refine ⟨h.flags_eq, h.book_eq, h.desired, h.last, h.started, h.chain, h.keys, fun table => ?_,
    fun table => ?_⟩
  · obtain ⟨h1, h2, h3, h4⟩ := hon table
    exact (h.units table).skip h1 h2 h3 h4
  · rw [filterMap_skip (hon table).1]
    exact h.rows table

theorem getSheetUnit_eq (f : MergeOutputFilter) : f.getSheetUnit = f.unitFor f.sheetName := rfl

theorem Holds.setSheet (h : Holds flags book evs f) (name : String) :
    Holds flags book (evs ++ [(name, .setSheet name)]) (f.setSheet name) := by
  have h' : Holds flags book evs { f with sheetName := name } :=
    ⟨h.flags_eq, h.book_eq, h.desired, h.last, h.started, h.chain, h.keys, h.units, h.rows⟩
  have hu : HoldsUnit flags (evs ++ [(name, .setSheet name)]) name
      (({ f with sheetName := name } : MergeOutputFilter).unitFor name) :=
        (h'.units name).skip rfl rfl rfl rfl
  have hput := h'.put [] hu (by simp) rfl
  rwa [show ({ f with sheetName := name, rows := f.rows ++ [] } : MergeOutputFilter) =
    { f with sheetName := name } by
    rw [List.append_nil]] at hput

theorem put_append_nil (f : MergeOutputFilter) (u : SheetUnit) :
    ({ f with rows := f.rows ++ [] } : MergeOutputFilter).putSheetUnit u = f.putSheetUnit u := by
  rw [List.append_nil]

theorem Holds.changeColumn (h : Holds flags book evs f) (change : OrderChange) :
    Holds flags book (evs ++ [(f.sheetName, .changeColumn change)]) (f.changeColumn change).1 := by
  unfold MergeOutputFilter.changeColumn
  rw [h.isActiveTable]
  cases hact : active flags f.sheetName with
  | false =>
    refine h.skip fun table => ⟨rfl, ?_, rfl, rfl⟩
    refine if_neg fun hc => ?_
    rw [← hc.1, hact] at hc
    exact Bool.false_ne_true hc.2
  | true =>
    rw [if_neg (by decide)]
    have hold := h.units f.sheetName
    have hon : columnOn flags f.sheetName (f.sheetName, .changeColumn change) = some change :=
      if_pos ⟨rfl, hact⟩
    have hu : HoldsUnit flags (evs ++ [(f.sheetName, .changeColumn change)]) f.sheetName
        { f.getSheetUnit with orders := f.getSheetUnit.orders ++ [change] } := by
      rw [getSheetUnit_eq]
      refine ⟨hold.sheetName, ?_, ?_, ?_, ?_, ?_⟩
      · rw [filterMap_snoc hon, ← hold.orders]
      · rw [filterMap_skip rfl]; exact hold.pools
      · rw [filterMap_skip rfl]; exact hold.rowCount
      · rw [filterMap_skip rfl]; exact hold.name0
      · rw [filterMap_skip rfl]; exact hold.name1
    have hput := h.put [] hu (by simp) rfl
    rwa [put_append_nil] at hput

theorem Holds.changePool (h : Holds flags book evs f) (change : PoolChange) :
    Holds flags book (evs ++ [(f.sheetName, .changePool change)]) (f.changePool change).1 := by
  unfold MergeOutputFilter.changePool
  rw [h.isActiveTable, h.flags_eq]
  by_cases hok : active flags f.sheetName = true ∧ flags.canSchema = true
  · rw [if_neg (by rw [hok.1]; decide), if_neg (by rw [hok.2]; decide)]
    have hold := h.units f.sheetName
    have hon : poolOn flags f.sheetName (f.sheetName, .changePool change) = some change :=
      if_pos ⟨rfl, hok⟩
    have hu : HoldsUnit flags (evs ++ [(f.sheetName, .changePool change)]) f.sheetName
        { f.getSheetUnit with pools := f.getSheetUnit.pools ++ [change] } := by
      rw [getSheetUnit_eq]
      refine ⟨hold.sheetName, ?_, ?_, ?_, ?_, ?_⟩
      · rw [filterMap_skip rfl]; exact hold.orders
      · rw [filterMap_snoc hon, ← hold.pools]
      · rw [filterMap_skip rfl]; exact hold.rowCount
      · rw [filterMap_skip rfl]; exact hold.name0
      · rw [filterMap_skip rfl]; exact hold.name1
    have hput := h.put [] hu (by simp) rfl
    rwa [put_append_nil] at hput
  · have hsame : (if active flags f.sheetName = false then (f, false)
        else if flags.canSchema = false then (f, false)
        else (f.putSheetUnit { f.getSheetUnit with pools := f.getSheetUnit.pools ++ [change] },
          true)).1 = f := by
      split
      · rfl
      split
      · rfl
      next h1 h2 => exact absurd ⟨Bool.not_eq_false _ ▸ h1, Bool.not_eq_false _ ▸ h2⟩ hok
    rw [hsame]
    refine h.skip fun table => ⟨rfl, rfl, ?_, rfl⟩
    refine if_neg fun hc => hok ?_
    rw [hc.1]
    exact hc.2

/-- A unit takes a name change in. -/
theorem HoldsUnit.named {table : String} {u : SheetUnit} (h : HoldsUnit flags evs table u)
    (hact : active flags table = true) (change : NameChange) :
    HoldsUnit flags (evs ++ [(table, .changeName change)]) table
      (if change.final then { u with name1 := change, haveName1 := true }
        else { u with name0 := change, haveName0 := true }) := by
  have hon : nameOn flags table (table, .changeName change) = some change := if_pos ⟨rfl, hact⟩
  cases hfinal : change.final with
  | true =>
    rw [if_pos rfl]
    refine ⟨h.sheetName, ?_, ?_, ?_, ?_, ?_⟩
    · rw [filterMap_skip rfl]; exact h.orders
    · rw [filterMap_skip rfl]; exact h.pools
    · rw [filterMap_skip rfl]; exact h.rowCount
    · have hlast : lastName false (evs.filterMap (nameOn flags table) ++ [change]) =
          lastName false (evs.filterMap (nameOn flags table)) := by
        rw [lastName_append, if_neg (by rw [hfinal]; decide)]
      rw [filterMap_snoc hon, hlast]
      exact h.name0
    · rw [filterMap_snoc hon, lastName_append, if_pos hfinal]
      refine ⟨hfinal, fun c hc => ?_⟩
      cases hc
      rfl
  | false =>
    rw [if_neg (by decide)]
    refine ⟨h.sheetName, ?_, ?_, ?_, ?_, ?_⟩
    · rw [filterMap_skip rfl]; exact h.orders
    · rw [filterMap_skip rfl]; exact h.pools
    · rw [filterMap_skip rfl]; exact h.rowCount
    · rw [filterMap_snoc hon, lastName_append, if_pos hfinal]
      rfl
    · have hlast : lastName true (evs.filterMap (nameOn flags table) ++ [change]) =
          lastName true (evs.filterMap (nameOn flags table)) := by
        rw [lastName_append, if_neg (by rw [hfinal]; decide)]
      rw [filterMap_snoc hon, hlast]
      exact h.name1

theorem changeName_active (hact : f.isActiveTable = true) (change : NameChange) :
    (f.changeName change).1 = f.putSheetUnit
      (if change.final then { f.getSheetUnit with name1 := change, haveName1 := true }
        else { f.getSheetUnit with name0 := change, haveName0 := true }) := by
  unfold MergeOutputFilter.changeName
  rw [hact, if_neg (by decide)]
  split <;> rfl

theorem Holds.changeName (h : Holds flags book evs f) (change : NameChange) :
    Holds flags book (evs ++ [(f.sheetName, .changeName change)]) (f.changeName change).1 := by
  have hactive := h.isActiveTable
  cases hact : active flags f.sheetName with
  | false =>
    have hsame : (f.changeName change).1 = f := by
      unfold MergeOutputFilter.changeName
      rw [hactive, hact, if_pos rfl]
    rw [hsame]
    refine h.skip fun table => ⟨rfl, rfl, rfl, ?_⟩
    refine if_neg fun hc => ?_
    rw [← hc.1, hact] at hc
    exact Bool.false_ne_true hc.2
  | true =>
    rw [changeName_active (hactive.trans hact)]
    have hput := h.put [] ((h.units f.sheetName).named hact change) (by simp) rfl
    rwa [put_append_nil] at hput

/-- Another unit that holds the same takes its place. -/
theorem Holds.replace (h : Holds flags book evs f) {u : SheetUnit}
    (hu : HoldsUnit flags evs f.sheetName u) : Holds flags book evs (f.putSheetUnit u) := by
  refine ⟨h.flags_eq, h.book_eq, h.desired, h.last, h.started, h.chain,
    AssocMap.nodup_keys_set h.keys _ _, fun table => ?_, h.rows⟩
  rw [unitFor_put]
  split
  · next ht =>
    rw [ht]
    exact hu
  · exact h.units table

/-- Names taken from a row stand in for names that were never given. -/
theorem HoldsUnit.standIn {table : String} {u : SheetUnit} (h : HoldsUnit flags evs table u)
    (hnone : u.haveName1 = false) (names : List String) :
    HoldsUnit flags evs table { u with name1 := ⟨true, true, names⟩, haveName1 := true } := by
  have hlast := h.name1
  rw [hnone, if_neg (by decide)] at hlast
  refine ⟨h.sheetName, h.orders, h.pools, h.rowCount, h.name0, ?_⟩
  rw [if_pos rfl]
  refine ⟨rfl, fun change hc => ?_⟩
  rw [hlast] at hc
  cases hc

/-- A unit counts a row in. -/
theorem HoldsUnit.counted {table : String} {u : SheetUnit} (h : HoldsUnit flags evs table u)
    {change : RowChange} (hon : rowOn flags table (table, .changeRow change) = some change) :
    HoldsUnit flags (evs ++ [(table, .changeRow change)]) table
      { u with rowCount := u.rowCount + 1 } := by
  refine ⟨h.sheetName, ?_, ?_, ?_, ?_, ?_⟩
  · rw [filterMap_skip rfl]; exact h.orders
  · rw [filterMap_skip rfl]; exact h.pools
  · rw [filterMap_snoc hon, List.length_append, h.rowCount]; rfl
  · rw [filterMap_skip rfl]; exact h.name0
  · rw [filterMap_skip rfl]; exact h.name1

/-- The filter as a row finds it: the sheet of the row has names. -/
def withNames (f : MergeOutputFilter) (change : RowChange) : MergeOutputFilter :=
  if f.getSheetUnit.haveName0 || f.getSheetUnit.haveName1 then f.putSheetUnit f.getSheetUnit
  else (f.changeName ⟨true, true, change.allNames⟩).1

theorem changeRow_active (hact : f.isActiveTable = true) (change : RowChange) :
    (f.changeRow change).1 =
      if canMode (f.withNames change).flags change.mode = false then f.withNames change
      else
        ({ f.withNames change with
            rows := (f.withNames change).rows ++ [⟨(f.withNames change).sheetName, change⟩] } :
          MergeOutputFilter).putSheetUnit
            { (f.withNames change).getSheetUnit with
            rowCount := (f.withNames change).getSheetUnit.rowCount + 1 } := by
  unfold MergeOutputFilter.changeRow
  rw [hact, if_neg (by decide)]
  simp only
  show (if canMode (f.withNames change).flags change.mode =
    false then (f.withNames change, false) else _).1 = _
  split <;> rfl

theorem Holds.withNames (h : Holds flags book evs f) (hact : f.isActiveTable = true)
    (change : RowChange) :
    Holds flags book evs (f.withNames change) ∧ (f.withNames change).sheetName = f.sheetName := by
  have hold := h.units f.sheetName
  unfold MergeOutputFilter.withNames
  cases hnames : f.getSheetUnit.haveName0 || f.getSheetUnit.haveName1 with
  | true => exact ⟨h.replace hold, rfl⟩
  | false =>
    rw [if_neg (by decide), changeName_active hact]
    rw [Bool.or_eq_false_iff] at hnames
    exact ⟨h.replace (hold.standIn hnames.2 change.allNames), rfl⟩

theorem Holds.changeRow (h : Holds flags book evs f) (change : RowChange) :
    Holds flags book (evs ++ [(f.sheetName, .changeRow change)]) (f.changeRow change).1 := by
  have hactive := h.isActiveTable
  cases hact : active flags f.sheetName with
  | false =>
    have hsame : (f.changeRow change).1 = f := by
      unfold MergeOutputFilter.changeRow
      rw [hactive, hact, if_pos rfl]
    rw [hsame]
    refine h.skip fun table => ⟨?_, rfl, rfl, rfl⟩
    refine if_neg fun hc => ?_
    rw [← hc.1, hact] at hc
    exact Bool.false_ne_true hc.2.1
  | true =>
    obtain ⟨hn, hsheet⟩ := h.withNames (hactive.trans hact) change
    rw [changeRow_active (hactive.trans hact), hn.flags_eq, ← hsheet]
    cases hmode : canMode flags change.mode with
    | false =>
      rw [if_pos rfl]
      refine hn.skip fun table => ⟨?_, rfl, rfl, rfl⟩
      refine if_neg fun hc => ?_
      rw [hmode] at hc
      exact Bool.false_ne_true hc.2.2
    | true =>
      rw [if_neg (by decide)]
      have hon :
        rowOn flags (f.withNames change).sheetName ((f.withNames change).sheetName,
          .changeRow change) = some change := if_pos ⟨rfl, hsheet ▸ hact, hmode⟩
      refine hn.put [⟨(f.withNames change).sheetName, change⟩]
        ((hn.units _).counted hon) (by simp) ?_
      rw [List.filterMap_cons_some hon]
      rfl

/-! ## Runs of calls -/

theorem Holds.call (h : Holds flags book evs f) (c : FilterCall) :
    Holds flags book (evs ++ [(sheetAfter f.sheetName c, c)]) (f.call c) := by
  cases c with
  | setSheet name => exact h.setSheet name
  | changeName change => exact h.changeName change
  | changePool change => exact h.changePool change
  | changeColumn change => exact h.changeColumn change
  | changeRow change => exact h.changeRow change

end

theorem sheetName_changeName (f : MergeOutputFilter) (change : NameChange) :
    (f.changeName change).1.sheetName = f.sheetName := by
  unfold MergeOutputFilter.changeName
  split
  · rfl
  · simp only
    split <;> rfl

theorem sheetName_call (f : MergeOutputFilter) (c : FilterCall) :
    (f.call c).sheetName = sheetAfter f.sheetName c := by
  cases c with
  | setSheet name => rfl
  | changeName change => exact sheetName_changeName f change
  | changePool change =>
    show (f.changePool change).1.sheetName = f.sheetName
    unfold MergeOutputFilter.changePool
    split
    · rfl
    split <;> rfl
  | changeColumn change =>
    show (f.changeColumn change).1.sheetName = f.sheetName
    unfold MergeOutputFilter.changeColumn
    split <;> rfl
  | changeRow change =>
    have hnames : (f.withNames change).sheetName = f.sheetName := by
      unfold withNames
      split
      · rfl
      · exact sheetName_changeName f _
    show (f.changeRow change).1.sheetName = f.sheetName
    cases hact : f.isActiveTable with
    | false =>
      unfold MergeOutputFilter.changeRow
      rw [hact, if_pos rfl]
    | true =>
      rw [changeRow_active hact]
      split
      · exact hnames
      · exact hnames

theorem Holds.run {flags : FilterFlags} {book : Option FilterBook} (calls : List FilterCall) :
    ∀ (evs : List (String × FilterCall)) (f : MergeOutputFilter), Holds flags book evs f →
      Holds flags book (evs ++ labelled f.sheetName calls)
      (calls.foldl MergeOutputFilter.call f) := by
  induction calls with
  | nil =>
    intro evs f h
    rwa [labelled, List.append_nil]
  | cons c calls ih =>
    intro evs f h
    have hrest := ih _ _ (h.call c)
    rwa [sheetName_call, List.append_assoc, List.singleton_append] at hrest

/-- A change of a sheet, not the start of one. -/
def FilterCall.IsChange : FilterCall → Prop
  | .setSheet _ => False
  | _ => True

/-- A call leaves the unit of a table alone unless it is an accepted change on it. -/
theorem Holds.unitFor_call {flags : FilterFlags} {book : Option FilterBook}
    {evs : List (String × FilterCall)}
    {f : MergeOutputFilter} (h : Holds flags book evs f) {c : FilterCall} {table : String}
    (hc : FilterCall.IsChange c → active flags f.sheetName = true → f.sheetName ≠ table) :
    (f.call c).unitFor table = f.unitFor table := by
  have hput : ∀ u, f.sheetName ≠ table → (f.putSheetUnit u).unitFor table = f.unitFor table := by
    intro u hne
    rw [unitFor_put, if_neg fun e => hne e.symm]
  have hactive := h.isActiveTable
  cases c with
  | setSheet name =>
    show (({ f with sheetName := name } : MergeOutputFilter).putSheetUnit _).unitFor table = _
    rw [unitFor_put]
    split
    · next ht =>
      have ht : table = name := ht
      rw [ht]
      rfl
    · rfl
  | changeName change =>
    cases hact : f.isActiveTable with
    | false =>
      show (f.changeName change).1.unitFor table = _
      unfold MergeOutputFilter.changeName
      rw [hact, if_pos rfl]
    | true =>
      show (f.changeName change).1.unitFor table = _
      rw [changeName_active hact]
      exact hput _ (hc trivial (hactive.symm.trans hact))
  | changePool change =>
    show (f.changePool change).1.unitFor table = _
    unfold MergeOutputFilter.changePool
    split
    · rfl
    next hact =>
    split
    · rfl
    · exact hput _ (hc trivial (by rw [← hactive]; simpa using hact))
  | changeColumn change =>
    show (f.changeColumn change).1.unitFor table = _
    unfold MergeOutputFilter.changeColumn
    split
    · rfl
    next hact =>
    exact hput _ (hc trivial (by rw [← hactive]; simpa using hact))
  | changeRow change =>
    cases hact : f.isActiveTable with
    | false =>
      show (f.changeRow change).1.unitFor table = _
      unfold MergeOutputFilter.changeRow
      rw [hact, if_pos rfl]
    | true =>
      have hne := hc trivial (hactive.symm.trans hact)
      have hnames : (f.withNames change).unitFor table = f.unitFor table := by
        unfold MergeOutputFilter.withNames
        split
        · exact hput _ hne
        · rw [changeName_active hact]
          exact hput _ hne
      show (f.changeRow change).1.unitFor table = _
      rw [changeRow_active hact]
      split
      · exact hnames
      · rw [unitFor_put, if_neg, ← hnames]
        · rfl
        · intro e
          exact hne ((h.withNames hact change).2.symm.trans e.symm)

/-- A table without accepted changes has the unit it starts with. -/
theorem Holds.unitFor_run {flags : FilterFlags} {book : Option FilterBook} {table : String}
    (calls : List FilterCall) :
    ∀ (evs : List (String × FilterCall)) (f : MergeOutputFilter), Holds flags book evs f →
    (∀ ev ∈ labelled f.sheetName calls, FilterCall.IsChange ev.2 → active flags ev.1 = true →
      ev.1 ≠ table) →
    (calls.foldl MergeOutputFilter.call f).unitFor table = f.unitFor table := by
  induction calls with
  | nil => exact fun evs f h _ => rfl
  | cons c calls ih =>
    intro evs f h hall
    obtain ⟨hc, hrest⟩ := List.forall_mem_cons.1 hall
    rw [List.foldl_cons, ih _ _ (h.call c) (by rw [sheetName_call]; exact hrest)]
    refine h.unitFor_call fun hchange => ?_
    cases c with
    | setSheet name => exact hchange.elim
    | _ => exact hc hchange

/-- The filter before anything is reported. -/
def start (flags : FilterFlags) (book : Option FilterBook) : MergeOutputFilter :=
  ({ flags := flags, book := book } : MergeOutputFilter).mergeStart

/-- **What a filter holds** after a run of calls: what it accepted of them. -/
theorem holds_run (flags : FilterFlags) (book : Option FilterBook) (calls : List FilterCall) :
    Holds flags book (labelled "" calls) (calls.foldl call (start flags book)) := by
  have hstart : Holds flags book [] (start flags book) :=
    ⟨rfl, rfl, rfl, rfl, rfl, rfl, List.nodup_nil, fun table => ⟨rfl, rfl, rfl, rfl, rfl, rfl⟩,
      fun table => rfl⟩
  exact Holds.run calls [] _ hstart

end MergeOutputFilter

end Coopy
