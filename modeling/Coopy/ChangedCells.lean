import Coopy.RowMerge

/-!
# The cells that a merge changes

The loop of `mergeRow` over the cells of a row meets some that stay and some that change, and of
these some that both sides changed.  Which are which does not depend on `flags.resolve`, so one list
of changed cells tells what the maps of the row change hold under every value of it:

    rowValues with resolve = (cellChanges …).map (valuesAfter resolve v)       (rowValues_resolving)
    the value under a name is what the last changed cell of that name gives       (get?_value_foldl)
-/

namespace Coopy

open Lib

namespace Merger

/-- The context with a value of `flags.resolve`. -/
def RowContext.resolving (ctx : RowContext) (resolve : String) : RowContext :=
  { ctx with flags := { ctx.flags with resolve := resolve } }

/-! ## The cells a merge changes -/

/-- A cell that is not left as it is: remote changed it, and if `clash` is set so did local. -/
structure CellChange where
  name : String
  l : SheetCell
  r : SheetCell
  p : SheetCell
  clash : Bool
deriving DecidableEq, Repr

/-- What `mergeRow` makes of the cell. -/
def CellChange.merged (resolve : String) (e : CellChange) : CellMerge :=
  if e.clash then resolveCell { resolve := resolve } e.l e.r e.p else ⟨e.r, true, false⟩

/-- The cells of a row under a column unit. -/
def localCell (ctx : RowContext) (row unit : MatchUnit) : SheetCell :=
  cellAt ctx.locals unit.localUnit row.localUnit

@[inherit_doc localCell]
def remoteCell (ctx : RowContext) (row unit : MatchUnit) : SheetCell :=
  cellAt ctx.remote unit.remoteUnit row.remoteUnit

@[inherit_doc localCell]
def pivotCell (ctx : RowContext) (row unit : MatchUnit) : SheetCell :=
  cellAt ctx.pivot unit.pivotUnit row.pivotUnit

/-- Whether the column is not among those asked for. -/
def ignoredAt (ctx : RowContext) (k : Nat) (unit : MatchUnit) : Except MergerExit Bool :=
  if unit.deleted = false ∧ ctx.filteredNames.length > 0 then
    match ctx.names[k]? with
    | some n => .ok (decide (n ∉ ctx.filteredNames))
    | none => .error .outOfBounds
  else .ok false

/-- The cell merged, with its conflict if it has one. -/
def openMerge (ctx : RowContext) (row unit : MatchUnit) (ignored : Bool) : CellMerge :=
  if ignored then ⟨localCell ctx row unit, false, false⟩
  else
    mergedCell { ctx.flags with resolve := "" } (localCell ctx row unit) (remoteCell ctx row unit)
      (pivotCell ctx row unit)

/-- The changed cells of a row that are reported, and whether any cell of the row is in conflict. -/
def cellChanges (ctx : RowContext) (row : MatchUnit) : Nat → List MatchUnit →
    Except MergerExit (List CellChange × Bool)
  | _, [] => .ok ([], false)
  | k, unit :: units =>
    if ctx.flags.fixedColumns = true ∧ unit.localUnit = -1 then cellChanges ctx row k units
    else
      (ignoredAt ctx k unit).bind fun ignored =>
        let m := openMerge ctx row unit ignored
        (cellChanges ctx row (if unit.deleted then k else k + 1) units).map fun rest =>
          (if unit.deleted = false ∧ m.novel = true ∧
            nameAt ctx.names k ∉ ctx.flags.excludeColumns then
              ⟨nameAt ctx.names k, localCell ctx row unit, remoteCell ctx row unit,
                pivotCell ctx row unit, m.conflicted⟩ :: rest.1
            else rest.1,
            m.conflicted || rest.2)

/-- The three-way rule, with the conflicts apart. -/
theorem mergedCell_resolve (flags : CompareFlags) (resolve : String) (l r p : SheetCell) :
    mergedCell { flags with resolve := resolve } l r p =
      if (mergedCell { flags with resolve := "" } l r p).conflicted then resolveCell
      { resolve := resolve } l r p
      else mergedCell { flags with resolve := "" } l r p := by
  have hsame :
    ∀ a b, sameCell { flags with resolve := resolve } a b =
    sameCell { flags with resolve := "" } a b := fun _ _ => rfl
  unfold mergedCell
  simp only [hsame]
  split
  · rfl
  split
  · split <;> rfl
  split
  · rfl
  split
  · rfl
  split <;> rfl

/-- **The three-way rule**: local's cell, remote's where it is another one, or what is made of a
conflict. -/
theorem mergedCell_cases (flags : CompareFlags) (l r p : SheetCell) :
    mergedCell flags l r p = ⟨l, false, false⟩ ∨
    (r ≠ l ∧ mergedCell flags l r p = ⟨r, true, false⟩) ∨
      mergedCell flags l r p = resolveCell flags l r p := by
  unfold mergedCell
  by_cases hs : sameCell flags l r = true
  · rw [if_pos hs]
    exact Or.inl rfl
  have hne : r ≠ l := by
    rintro rfl
    exact hs (sameCell_refl _ _)
  rw [if_neg hs]
  split
  · split
    · exact Or.inl rfl
    · exact Or.inr (Or.inl ⟨hne, rfl⟩)
  split
  · exact Or.inl rfl
  split
  · exact Or.inr (Or.inl ⟨hne, rfl⟩)
  split
  · exact Or.inl rfl
  · exact Or.inr (Or.inr rfl)

theorem resolveCell_conflicted (flags : CompareFlags) (l r p : SheetCell) :
    (resolveCell flags l r p).conflicted = decide (flags.resolve = "") := by
  unfold resolveCell
  by_cases h : flags.resolve = ""
  · rw [if_pos h, decide_eq_true h]
  · rw [if_neg h, decide_eq_false h]
    split
    · rfl
    split
    · rfl
    split <;> rfl

/-- A cell that is new and not in conflict is remote's, and not local's. -/
theorem mergedCell_plain {flags : CompareFlags} {l r p : SheetCell}
    (hnov : (mergedCell flags l r p).novel = true)
    (hcon : (mergedCell flags l r p).conflicted = false)
    (hres : flags.resolve = "") : (mergedCell flags l r p).cell = r ∧ r ≠ l := by
  rcases mergedCell_cases flags l r p with heq | ⟨hne, heq⟩ | heq
  · rw [heq] at hnov
    cases hnov
  · rw [heq]
    exact ⟨rfl, hne⟩
  · rw [heq, resolveCell, if_pos hres] at hcon
    cases hcon

theorem mergedCell_novel_of_conflicted {flags : CompareFlags} {l r p : SheetCell}
    (h : (mergedCell flags l r p).conflicted = true) : (mergedCell flags l r p).novel = true := by
  rcases mergedCell_cases flags l r p with heq | ⟨-, heq⟩ | heq
  · rw [heq] at h
    cases h
  · rw [heq]
  · -- a conflict that is not resolved is new
    rw [heq, resolveCell_conflicted, decide_eq_true_eq] at h
    rw [heq, resolveCell, if_pos h]

theorem openMerge_plain {ctx : RowContext} {row unit : MatchUnit} {ignored : Bool}
    (hnov : (openMerge ctx row unit ignored).novel = true)
    (hcon : (openMerge ctx row unit ignored).conflicted = false) :
    (openMerge ctx row unit ignored).cell = remoteCell ctx row unit ∧
    remoteCell ctx row unit ≠ localCell ctx row unit := by
  cases ignored with
  | true => cases hnov
  | false => exact mergedCell_plain hnov hcon rfl

theorem openMerge_novel {ctx : RowContext} {row unit : MatchUnit} {ignored : Bool}
    (h : (openMerge ctx row unit ignored).conflicted = true) :
    (openMerge ctx row unit ignored).novel = true := by
  cases ignored with
  | true => cases h
  | false => exact mergedCell_novel_of_conflicted h

/-- In the list of changed cells a conflict is known from the row, and any other cell is remote's
own. -/
theorem cellChanges_spec {ctx : RowContext} {row : MatchUnit} (units : List MatchUnit) :
    ∀ (k : Nat) (es : List CellChange) (conflict : Bool), cellChanges ctx row k units =
    .ok (es, conflict) →
      (∀ e ∈ es, e.clash = true → conflict = true) ∧ ∀ e ∈ es, e.clash = false → e.r ≠ e.l := by
  induction units with
  | nil =>
    intro k es conflict h
    cases h
    simp
  | cons unit units ih =>
    intro k es conflict h
    unfold cellChanges at h
    split at h
    · exact ih k es conflict h
    cases hig : ignoredAt ctx k unit with
    | error e =>
      rw [hig] at h
      cases h
    | ok ignored =>
      cases hrest : cellChanges ctx row (if unit.deleted then k else k + 1) units with
      | error e =>
        rw [hig, hrest] at h
        cases h
      | ok rest =>
        rw [hig, hrest] at h
        simp only [Except.bind, Except.map, Except.ok.injEq, Prod.mk.injEq] at h
        obtain ⟨h1, h2⟩ := h
        obtain ⟨ihc, ihn⟩ := ih _ rest.1 rest.2 hrest
        have hc : ∀ e ∈ rest.1, e.clash = true → conflict = true := by
          intro e he hcl
          rw [← h2, ihc e he hcl, Bool.or_true]
        rw [← h1]
        split
        · next hin =>
          rw [List.forall_mem_cons, List.forall_mem_cons]
          refine ⟨⟨fun hcl => ?_, hc⟩, ⟨fun hcl => ?_, ihn⟩⟩
          · rw [← h2, show (openMerge ctx row unit ignored).conflicted =
              true from hcl, Bool.true_or]
          · exact (openMerge_plain hin.2.1 hcl).2
        · exact ⟨hc, ihn⟩

/-! ## The maps of a row change -/

/-- The entries one changed cell makes. -/
def CellChange.enter (resolve : String) (v : RowValues) (e : CellChange) : RowValues :=
  let m := e.merged resolve
  if m.novel then
    { v with
      value := v.value.set e.name m.cell
      conflictedValue := if m.conflicted then v.conflictedValue.set e.name e.r
        else v.conflictedValue
      conflictedParentValue := if m.conflicted then v.conflictedParentValue.set e.name e.p
        else v.conflictedParentValue }
  else v

theorem enter_conflict (resolve : String) (v : RowValues) (e : CellChange) (b : Bool) :
    e.enter resolve { v with conflict := b } = { e.enter resolve v with conflict := b } := by
  unfold CellChange.enter
  simp only
  split <;> rfl

theorem foldl_enter_conflict (resolve : String) (es : List CellChange) (b : Bool) : ∀ v : RowValues,
    es.foldl (CellChange.enter resolve) { v with conflict := b } =
      { es.foldl (CellChange.enter resolve) v with conflict := b } := by
  induction es with
  | nil => exact fun v => rfl
  | cons e es ih =>
    intro v
    rw [List.foldl_cons, List.foldl_cons, enter_conflict, ih]

/-- What a row's loop leaves, given its changed cells. -/
def valuesAfter (resolve : String) (v : RowValues) (c : List CellChange × Bool) : RowValues :=
  { c.1.foldl (CellChange.enter resolve) v with
    conflict := v.conflict || (decide (resolve = "") && c.2) }

theorem merged_conflicted (resolve : String) (e : CellChange) :
    (e.merged resolve).conflicted = (decide (resolve = "") && e.clash) := by
  unfold CellChange.merged
  cases e.clash with
  | true => rw [if_pos rfl, resolveCell_conflicted, Bool.and_true]
  | false => exact (Bool.and_false _).symm

/-- The merged cell of a changed cell, told from the merge without `resolve`. -/
theorem merged_of_novel {m : CellMerge} {n : String} {l r p : SheetCell} (resolve : String)
    (hnov : m.novel = true) (hm : m.conflicted = false → m.cell = r) :
    (if m.conflicted then resolveCell { resolve := resolve } l r p else m) =
      CellChange.merged resolve ⟨n, l, r, p, m.conflicted⟩ := by
  unfold CellChange.merged
  cases hc : m.conflicted with
  | true => rfl
  | false =>
    obtain ⟨cell, novel, conflicted⟩ := m
    simp only at hnov hc
    have hcell : cell = r := hm hc
    subst hcell hnov hc
    rfl

theorem enter_eq (flags : CompareFlags) (resolve : String) (v : RowValues) (e : CellChange)
    (hex : e.name ∉ flags.excludeColumns) :
    (if (e.merged resolve).novel = true then v.enter flags e.name (e.merged resolve) e.r e.p
      else v) = e.enter resolve v := by
  unfold CellChange.enter RowValues.enter
  simp only [if_neg hex]

/-- A changed cell goes into the maps before the rest of the row. -/
theorem valuesAfter_cons (resolve : String) (v : RowValues) (e : CellChange) (b : Bool)
    (hb : b = (decide (resolve = "") && e.clash)) (rest : List CellChange × Bool) :
    valuesAfter resolve (e.enter resolve { v with conflict := v.conflict || b }) rest =
      valuesAfter resolve v (e :: rest.1, e.clash || rest.2) := by
  unfold valuesAfter
  rw [enter_conflict, foldl_enter_conflict, List.foldl_cons]
  simp only
  rw [hb, Bool.and_or_distrib_left, Bool.or_assoc]

theorem valuesAfter_skip (resolve : String) (v : RowValues) (con b : Bool)
    (hb : b = (decide (resolve = "") && con)) (rest : List CellChange × Bool) :
    valuesAfter resolve { v with conflict := v.conflict || b } rest = valuesAfter resolve v
      (rest.1, con || rest.2) := by
  unfold valuesAfter
  rw [foldl_enter_conflict]
  simp only
  rw [hb, Bool.and_or_distrib_left, Bool.or_assoc]

/-- The loop over the cells of a row, one cell on. -/
theorem rowValues_cons {ctx : RowContext} {row unit : MatchUnit} {units : List MatchUnit} {k : Nat}
    {v : RowValues}
    (resolve : String) (hfix : ¬(ctx.flags.fixedColumns = true ∧ unit.localUnit = -1)) :
    rowValues (ctx.resolving resolve) row k (unit :: units) v =
      (ignoredAt ctx k unit).bind fun ignored =>
        let m :=
          if (openMerge ctx row unit ignored).conflicted then
            resolveCell { resolve := resolve } (localCell ctx row unit) (remoteCell ctx row unit)
              (pivotCell ctx row unit)
          else openMerge ctx row unit ignored
        let v' := { v with conflict := v.conflict || m.conflicted }
        rowValues (ctx.resolving resolve) row (if unit.deleted then k else k + 1) units
          (if unit.deleted = false ∧ m.novel = true then
            v'.enter (ctx.resolving resolve).flags (nameAt ctx.names k) m (remoteCell ctx row unit)
              (pivotCell ctx row unit)
          else v') := by
  have hm : ∀ ignored : Bool,
      (if ignored then .ok ⟨localCell ctx row unit, false, false⟩
        else mergeCell (ctx.resolving resolve).flags (localCell ctx row unit)
          (remoteCell ctx row unit)
          (pivotCell ctx row unit)) =
      (.ok (if (openMerge ctx row unit ignored).conflicted then
          resolveCell { resolve := resolve } (localCell ctx row unit) (remoteCell ctx row unit)
            (pivotCell ctx row unit)
        else openMerge ctx row unit ignored) : Except MergerExit CellMerge) := by
    intro ignored
    cases ignored with
    | true => rfl
    | false =>
      have hmerge :=
        mergeCell_eq (ctx.resolving resolve).flags
          (cellAt_seen ctx.locals unit.localUnit row.localUnit)
        (cellAt_seen ctx.remote unit.remoteUnit row.remoteUnit)
          (cellAt_seen ctx.pivot unit.pivotUnit row.pivotUnit)
      exact hmerge.trans (congrArg Except.ok (mergedCell_resolve ctx.flags resolve _ _ _))
  rw [rowValues,
    if_neg (show ¬((ctx.resolving resolve).flags.fixedColumns = true ∧ unit.localUnit = -1)
      from hfix)]
  show (ignoredAt ctx k unit).bind (fun ignored =>
    (if ignored then .ok ⟨localCell ctx row unit, false, false⟩
      else mergeCell (ctx.resolving resolve).flags (localCell ctx row unit)
        (remoteCell ctx row unit)
        (pivotCell ctx row unit)).bind _) = _
  congr 1
  funext ignored
  rw [hm ignored]
  rfl

/-- **The loop over the cells of a row** puts in the changed cells one after the other. -/
theorem rowValues_resolving (ctx : RowContext) (row : MatchUnit) (resolve : String)
    (units : List MatchUnit) :
    ∀ (k : Nat) (v : RowValues), rowValues (ctx.resolving resolve) row k units v =
      (cellChanges ctx row k units).map (valuesAfter resolve v) := by
  induction units with
  | nil =>
    intro k v
    simp [rowValues, cellChanges, Except.map, valuesAfter]
  | cons unit units ih =>
    intro k v
    by_cases hfix : ctx.flags.fixedColumns = true ∧ unit.localUnit = -1
    · rw [rowValues, cellChanges, if_pos hfix,
        if_pos (show (ctx.resolving resolve).flags.fixedColumns = true ∧
          unit.localUnit = -1 from hfix)]
      exact ih k v
    rw [rowValues_cons resolve hfix, cellChanges, if_neg hfix]
    cases ignoredAt ctx k unit with
    | error e => rfl
    | ok ignored =>
      simp only [Except.bind]
      rw [ih]
      cases cellChanges ctx row (if unit.deleted then k else k + 1) units with
      | error e => rfl
      | ok rest =>
        simp only [Except.map, Except.ok.injEq]
        generalize hm : openMerge ctx row unit ignored = m
        have hplain : m.novel = true → m.conflicted = false → m.cell = remoteCell ctx row unit := by
          rw [← hm]
          exact fun hnov hcon => (openMerge_plain hnov hcon).1
        have hnov : m.conflicted = true → m.novel = true := by
          rw [← hm]
          exact openMerge_novel
        cases hn : m.novel with
        | false =>
          have hc : m.conflicted = false := by
            rw [← Bool.not_eq_true]
            intro h
            rw [hnov h] at hn
            cases hn
          simp only [hc, hn, Bool.false_eq_true, if_false, and_false, false_and]
          exact valuesAfter_skip resolve v false false (Bool.and_false _).symm rest
        | true =>
          rw [@merged_of_novel m (nameAt ctx.names k) _ _ (pivotCell ctx row unit) resolve hn
            (hplain hn)]
          generalize he : (⟨nameAt ctx.names k, localCell ctx row unit, remoteCell ctx row unit,
            pivotCell ctx row unit, m.conflicted⟩ : CellChange) = e
          have hclash : m.conflicted = e.clash := by rw [← he]
          have hname : nameAt ctx.names k = e.name := by rw [← he]
          have hr : remoteCell ctx row unit = e.r := by rw [← he]
          have hp : pivotCell ctx row unit = e.p := by rw [← he]
          rw [hname, hr, hp, hclash]
          by_cases hin : unit.deleted = false ∧ e.name ∉ ctx.flags.excludeColumns
          · obtain ⟨hd, hex⟩ := hin
            simp only [hd, hex, true_and, not_false_eq_true, if_true]
            rw [enter_eq (ctx.resolving resolve).flags resolve _ e hex]
            exact valuesAfter_cons resolve v e _ (merged_conflicted resolve e) rest
          · rw [if_neg
              (show ¬(unit.deleted = false ∧ true = true ∧ e.name ∉ ctx.flags.excludeColumns) from
              fun h => hin ⟨h.1, h.2.2⟩)]
            have hv :
              ∀ w : RowValues, (if unit.deleted = false ∧ (e.merged resolve).novel = true then
                w.enter (ctx.resolving resolve).flags e.name (e.merged resolve) e.r e.p else w) =
                  w := by
              intro w
              split
              · next h =>
                have hex : e.name ∈ (ctx.resolving resolve).flags.excludeColumns :=
                  Decidable.not_not.1 fun hne => hin ⟨h.1, hne⟩
                exact if_pos hex
              · rfl
            rw [hv]
            exact valuesAfter_skip resolve v e.clash _ (merged_conflicted resolve e) rest

/-! ## The last value under a name -/

/-- The value that the last cell named `n` to give one gives. -/
def lastOf (f : CellChange → Option SheetCell) (es : List CellChange) (n : String) :
    Option SheetCell :=
  (es.filterMap fun e => if e.name = n then f e else none).getLast?

theorem lastOf_cons (f : CellChange → Option SheetCell) (e : CellChange)
    (es : List CellChange) (n : String) :
    lastOf f (e :: es) n = (lastOf f es n).or (if e.name = n then f e else none) := by
  unfold lastOf
  rw [List.filterMap_cons]
  cases (if e.name = n then f e else none) with
  | none => exact (Option.or_none).symm
  | some x =>
    rw [List.getLast?_cons]
    cases (List.filterMap (fun e => if e.name = n then f e else none) es).getLast? <;> rfl

theorem lastOf_congr {f g : CellChange → Option SheetCell} {es : List CellChange} {n : String}
    (h : ∀ e ∈ es, e.name = n → f e = g e) : lastOf f es n = lastOf g es n := by
  unfold lastOf
  congr 1
  apply List.filterMap_congr
  intro e he
  by_cases hn : e.name = n
  · rw [if_pos hn, if_pos hn, h e he hn]
  · rw [if_neg hn, if_neg hn]

theorem lastOf_eq_some {f : CellChange → Option SheetCell} {es : List CellChange} {n : String}
    {x : SheetCell} (h : lastOf f es n = some x) : ∃ e ∈ es, e.name = n ∧ f e = some x := by
  obtain ⟨e, he, hx⟩ := List.mem_filterMap.1 (List.mem_of_getLast? h)
  split at hx
  · next hn => exact ⟨e, he, hn, hx⟩
  · cases hx

theorem lastOf_eq_none {f : CellChange → Option SheetCell} {es : List CellChange} {n : String} :
    lastOf f es n = none ↔ ∀ e ∈ es, e.name = n → f e = none := by
  unfold lastOf
  rw [List.getLast?_eq_none_iff, List.filterMap_eq_nil_iff]
  constructor
  · intro h e he hn
    have := h e he
    rwa [if_pos hn] at this
  · intro h e he
    split
    · next hn => exact h e he hn
    · rfl

/-- The value and the two sides of a conflict that a cell enters under its name. -/
def CellChange.given (resolve : String) (e : CellChange) : Option SheetCell :=
  if (e.merged resolve).novel then some (e.merged resolve).cell else none

theorem get?_value_foldl (resolve : String) (es : List CellChange) (n : String) : ∀ v : RowValues,
    (es.foldl (CellChange.enter resolve) v).value.get? n =
      (lastOf (CellChange.given resolve) es n).or (v.value.get? n) := by
  induction es with
  | nil => exact fun v => rfl
  | cons e es ih =>
    intro v
    rw [List.foldl_cons, ih, lastOf_cons, Option.or_assoc]
    congr 1
    unfold CellChange.enter CellChange.given
    simp only
    cases hnov : (e.merged resolve).novel with
    | false => simp
    | true =>
      simp only [if_true, AssocMap.get?_set]
      by_cases hn : e.name = n
      · rw [if_pos hn, if_pos hn.symm]
        rfl
      · rw [if_neg hn, if_neg fun h => hn h.symm]
        rfl

theorem merged_novel_of_conflicted {resolve : String} {e : CellChange}
    (h : (e.merged resolve).conflicted = true) : (e.merged resolve).novel = true := by
  rw [merged_conflicted, Bool.and_eq_true, decide_eq_true_eq] at h
  unfold CellChange.merged resolveCell
  rw [if_pos h.2, if_pos h.1]

/-- The maps of the conflicts: the cells of remote and pivot, under the name of each cell that is
reported in conflict. -/
theorem get?_conflicts_foldl (resolve : String) (es : List CellChange) (n : String) :
    ∀ v : RowValues, (es.foldl (CellChange.enter resolve) v).conflictedValue.get? n =
        (lastOf (fun e => if (e.merged resolve).conflicted then some e.r else none) es n).or
          (v.conflictedValue.get? n) ∧
      (es.foldl (CellChange.enter resolve) v).conflictedParentValue.get? n =
        (lastOf (fun e => if (e.merged resolve).conflicted then some e.p else none) es n).or
          (v.conflictedParentValue.get? n) := by
  induction es with
  | nil => exact fun v => ⟨rfl, rfl⟩
  | cons e es ih =>
    intro v
    obtain ⟨h1, h2⟩ := ih (e.enter resolve v)
    rw [List.foldl_cons, h1, h2, lastOf_cons, lastOf_cons, Option.or_assoc, Option.or_assoc]
    unfold CellChange.enter
    simp only
    cases hcon : (e.merged resolve).conflicted with
    | false => cases (e.merged resolve).novel <;> simp
    | true =>
      simp only [merged_novel_of_conflicted hcon, if_true, AssocMap.get?_set]
      by_cases hn : e.name = n
      · simp only [if_pos hn, if_pos hn.symm]
        exact ⟨rfl, rfl⟩
      · simp only [if_neg hn, if_neg fun h : n = e.name => hn h.symm]
        exact ⟨rfl, rfl⟩

/-- Without `resolve`, every clash is reported. -/
theorem get?_sides_foldl (es : List CellChange) (n : String) (v : RowValues) :
    (es.foldl (CellChange.enter "") v).conflictedValue.get? n =
        (lastOf (fun e => if e.clash then some e.r else none) es n).or (v.conflictedValue.get? n) ∧
      (es.foldl (CellChange.enter "") v).conflictedParentValue.get? n =
        (lastOf (fun e => if e.clash then some e.p else none) es n).or
          (v.conflictedParentValue.get? n) := by
  have hclash : ∀ e : CellChange, (e.merged "").conflicted = e.clash := fun e => by
    rw [merged_conflicted, decide_eq_true rfl, Bool.true_and]
  have h := get?_conflicts_foldl "" es n v
  simp only [hclash] at h
  exact h

theorem nodup_keys_foldl (es : List CellChange) : ∀ v : RowValues,
    v.conflictedValue.keys.Nodup → v.conflictedParentValue.keys.Nodup →
      (es.foldl (CellChange.enter "") v).conflictedValue.keys.Nodup ∧
        (es.foldl (CellChange.enter "") v).conflictedParentValue.keys.Nodup := by
  induction es with
  | nil => exact fun v h1 h2 => ⟨h1, h2⟩
  | cons e es ih =>
    intro v h1 h2
    rw [List.foldl_cons]
    apply ih
    · unfold CellChange.enter
      simp only
      split
      · split
        · exact AssocMap.nodup_keys_set h1 _ _
        · exact h1
      · exact h1
    · unfold CellChange.enter
      simp only
      split
      · split
        · exact AssocMap.nodup_keys_set h2 _ _
        · exact h2
      · exact h2

end Merger

end Coopy
