import Coopy.ChangedCells
import Coopy.MergeOutputFilter

/-!
# A conflict resolved in the merge, or after it

`mergeRow` with `flags.resolve` set decides a cell in conflict at once.  Without it the row is
reported with its conflicts, and `MergeOutputFilter::emitRow` decides: `theirs` and `neither` write
over the values of the cells in conflict, `ours` keeps the whole row back.  So the two agree unless
`ours` is asked for and the row has a conflict and also a cell that only remote changed, or columns
of one name hide each other's cells.

    endValues (mergeRow with R) = endValues (emitRow R ∘ mergeRow) ↔ …          (resolved_alike_iff)
-/

namespace Coopy

open Lib

namespace Merger

/-- The ways to resolve a conflict. -/
inductive Resolution
  | ours
  | theirs
  | neither
deriving DecidableEq, Repr

def Resolution.text : Resolution → String
  | .ours => "ours"
  | .theirs => "theirs"
  | .neither => "neither"

/-! ## What a sheet ends with -/

/-- The cell of a column named `n` once some changes of its row are made. -/
def ended (rows : List RowChange) (n : String) (l : SheetCell) : SheetCell :=
  rows.foldl (fun c x => if x.mode = .context then c else (x.val.get? n).getD c) l

/-- The columns that stay, each by its name and with its local cell. -/
def keptColumns (ctx : RowContext) (row : MatchUnit) :
    Nat → List MatchUnit → List (String × SheetCell)
  | _, [] => []
  | k, unit :: units =>
    if ctx.flags.fixedColumns = true ∧ unit.localUnit = -1 then keptColumns ctx row k units
    else if unit.deleted then keptColumns ctx row k units
    else (nameAt ctx.names k, localCell ctx row unit) :: keptColumns ctx row (k + 1) units

/-- The values of the row, column by column. -/
def endValues (ctx : RowContext) (row : MatchUnit) (rows : List RowChange) : List SheetCell :=
  (keptColumns ctx row 0 ctx.colAccum).map fun column => ended rows column.1 column.2

theorem cellChanges_kept {ctx : RowContext} {row : MatchUnit} (units : List MatchUnit) :
    ∀ (k : Nat) (es : List CellChange) (conflict : Bool), cellChanges ctx row k units =
    .ok (es, conflict) →
      ∀ e ∈ es, (e.name, e.l) ∈ keptColumns ctx row k units := by
  induction units with
  | nil =>
    intro k es conflict h
    cases h
    simp
  | cons unit units ih =>
    intro k es conflict h
    unfold cellChanges at h
    unfold keptColumns
    split at h
    · next hfix =>
      rw [if_pos hfix]
      exact ih k es conflict h
    next hfix =>
    rw [if_neg hfix]
    cases hig : ignoredAt ctx k unit with
    | error e =>
      rw [hig] at h
      cases h
    | ok ignored =>
      cases hrest : cellChanges ctx row (if unit.deleted then k else k + 1) units with
      | error e =>
        rw [hig, hrest] at h
        cases h
      | ok rest =>
        rw [hig, hrest] at h
        simp only [Except.bind, Except.map, Except.ok.injEq, Prod.mk.injEq] at h
        have hmem := ih _ rest.1 rest.2 hrest
        intro e he
        rw [← h.1] at he
        cases hd : unit.deleted with
        | true =>
          rw [hd] at he hmem
          rw [if_pos rfl]
          exact hmem e (by simpa using he)
        | false =>
          rw [hd] at he hmem
          rw [if_neg (by simp)]
          split at he
          · rcases List.mem_cons.1 he with rfl | he
            · exact List.mem_cons_self
            · exact List.mem_cons_of_mem _ (hmem e he)
          · exact List.mem_cons_of_mem _ (hmem e he)

/-- The row moves, and the move is reported. -/
def rowMoves (ctx : RowContext) (row : MatchUnit) (c : Cursor) : Bool :=
  let hadRow := if c.lastLocalRow ≠ -1 then true else c.hadRow
  let hadForeignRow := if c.lastLocalRow ≠ -1 then false else c.hadForeignRow
  decide (row.deleted = false ∧ row.localUnit ≠ -1 ∧ (hadRow = true ∨ hadForeignRow = true) ∧
    (row.localUnit < c.bottomLocalRow ∨ hadForeignRow = true)) &&
    (c.hadRow || decide (row.localUnit ≠ 0)) && ctx.flags.useOrder

/-- A change of the row's cells would be reported. -/
def reports (ctx : RowContext) (row : MatchUnit) (c : Cursor) : Bool :=
  if row.localUnit = -1 then ctx.flags.canInsert
  else if row.remoteUnit = -1 then rowMoves ctx row c ||
    (ctx.flags.canDelete && decide (row.pivotUnit ≠ -1))
  else rowMoves ctx row c || ctx.flags.canUpdate

theorem resolveChange_mode {resolve : String} {x y : RowChange}
    (h : resolveChange resolve x = some y) : y.mode = x.mode := by
  unfold resolveChange at h
  split at h
  · split at h
    · cases h
    · cases h
      rfl
  · cases h
    rfl

theorem resolveChange_setMode (resolve : String) (x : RowChange) (mode : RowChangeMode) :
    resolveChange resolve { x with mode := mode } = (resolveChange resolve x).map
      ({ · with mode := mode }) := by
  unfold resolveChange
  simp only
  split
  · split <;> rfl
  · rfl

/-- What a column holds once the changes of its row are resolved and made. -/
def resolvedValue (resolve : String) (change : RowChange) (n : String)
    (l : SheetCell) : SheetCell :=
  match resolveChange resolve change with
  | some change => (change.val.get? n).getD l
  | none => l

/-- A report whose rows are contexts or the change itself, in several modes. -/
theorem ended_filterMap {resolve : String} {change : RowChange} (n : String) (rows : List RowChange)
    (h : ∀ x ∈ rows, x.mode = .context ∨ ∃ mode, mode ≠ .context ∧
      x = { change with mode := mode }) :
    ∀ l, ended (rows.filterMap (resolveChange resolve)) n l =
      if rows.any fun x => decide (x.mode ≠ .context) then resolvedValue resolve change n l
      else l := by
  induction rows with
  | nil => exact fun l => rfl
  | cons x rows ih =>
    intro l
    have ih := ih fun y hy => h y (List.mem_cons_of_mem x hy)
    rw [List.any_cons]
    rcases h x List.mem_cons_self with hx | ⟨mode, hmode, hx⟩
    · have hskip : ended ((x :: rows).filterMap (resolveChange resolve)) n l =
          ended (rows.filterMap (resolveChange resolve)) n l := by
        rw [List.filterMap_cons]
        cases hr : resolveChange resolve x with
        | none => rfl
        | some y =>
          unfold ended
          rw [List.foldl_cons, if_pos ((resolveChange_mode hr).trans hx)]
      rw [hskip, ih, hx]
      rfl
    · have hstep : ended ((x :: rows).filterMap (resolveChange resolve)) n l =
          ended (rows.filterMap (resolveChange resolve)) n (resolvedValue resolve change n l) := by
        rw [List.filterMap_cons, hx, resolveChange_setMode]
        unfold resolvedValue
        cases resolveChange resolve change with
        | none => rfl
        | some y =>
          unfold ended
          simp only [Option.map_some, List.foldl_cons, if_neg hmode]
      have htwice : resolvedValue resolve change n (resolvedValue resolve change n l) =
          resolvedValue resolve change n l := by
        unfold resolvedValue
        cases resolveChange resolve change with
        | none => rfl
        | some y =>
          show (y.val.get? n).getD ((y.val.get? n).getD l) = (y.val.get? n).getD l
          cases y.val.get? n <;> rfl
      rw [hstep, ih, htwice, ite_self, hx]
      simp [hmode]

/-- Whether something besides a context is reported. -/
theorem any_emitRow (ctx : RowContext) (row : MatchUnit) (change : RowChange) (c : Cursor) :
    ((emitRow ctx row change c).2.any fun x => decide (x.mode ≠ .context)) =
      if row.localUnit ≠ -1 ∧ row.remoteUnit ≠ -1 ∧ change.val.length = 0 then rowMoves ctx row c
      else reports ctx row c := by
  have hcon : ∀ wanted alt, ((contextRow ctx wanted alt).any fun x => decide (x.mode ≠ .context)) =
    false := by
    intro wanted alt
    rw [List.any_eq_false]
    intro x hx
    simp [mem_contextRow hx]
  have hmoved : ∀ b : Bool, ((if b then [{ change with mode := RowChangeMode.move }] else []).any
      fun x => decide (x.mode ≠ .context)) = b := by
    intro b
    cases b <;> rfl
  have hmode : ∀ b : Bool,
      decide ((if b = true then RowChangeMode.move else RowChangeMode.update) ≠
        RowChangeMode.context) = true := by
    decide
  by_cases hl : row.localUnit = -1
  · rw [if_neg fun h => h.1 hl, reports, if_pos hl]
    unfold emitRow
    simp only [hl, if_true, ne_eq, not_true_eq_false, false_and, and_false, decide_false,
      Bool.false_and, Bool.false_eq_true, if_false, List.append_nil]
    split
    · next hins =>
      rw [List.any_append, hins]
      exact Bool.or_true _
    · next hins =>
      have hno : ctx.flags.canInsert = false := by rwa [Bool.not_eq_true] at hins
      rw [hno]
      exact hcon false c.lastRowChange
  by_cases hr : row.remoteUnit = -1
  · rw [if_neg fun h => h.2.1 hr, reports, if_neg hl, if_pos hr]
    unfold emitRow
    simp only [if_neg hl, if_pos hr]
    split
    · next hdel =>
      rw [List.any_append, hdel.1, decide_eq_true hdel.2, Bool.and_true, Bool.or_true]
      exact Bool.or_true _
    · next hdel =>
      have hno : (ctx.flags.canDelete && decide (row.pivotUnit ≠ -1)) = false := by
        rw [← Bool.not_eq_true, Bool.and_eq_true, decide_eq_true_eq]
        exact hdel
      rw [List.any_append, hcon, hno, Bool.or_false]
      exact hmoved _
  by_cases hval : change.val.length = 0
  · rw [if_pos (show row.localUnit ≠ -1 ∧ row.remoteUnit ≠ -1 ∧ change.val.length = 0
      from ⟨hl, hr, hval⟩)]
    unfold emitRow
    simp only [if_neg hl, if_neg hr]
    rw [if_neg (show ¬(ctx.flags.canUpdate = true ∧ change.val.length ≠ 0) from fun h => h.2 hval),
      List.any_append, hcon]
    exact hmoved _
  rw [if_neg (show ¬(row.localUnit ≠ -1 ∧ row.remoteUnit ≠ -1 ∧ change.val.length = 0) from fun h =>
    hval h.2.2), reports, if_neg hl, if_neg hr]
  unfold emitRow
  simp only [if_neg hl, if_neg hr]
  cases hup : ctx.flags.canUpdate with
  | true =>
    rw [if_pos (show true = true ∧ change.val.length ≠ 0 from ⟨rfl, hval⟩),
      List.any_append, Bool.or_true]
    simp only [List.any_cons, List.any_nil, Bool.or_false, Bool.or_eq_true]
    exact Or.inr (hmode _)
  | false =>
    rw [if_neg (show ¬(false = true ∧ change.val.length ≠ 0) from fun h => Bool.false_ne_true h.1),
      List.any_append, hcon, Bool.or_false]
    exact hmoved _

/-- **The values after a report**: those of the change, if it is reported. -/
theorem ended_emitRow (ctx : RowContext) (row : MatchUnit) (change : RowChange) (c : Cursor)
    (resolve : String) (hval : resolve ≠ "" → change.val = [] → change.conflictingVal = [] ∧
      change.conflictingParentVal = [])
    (n : String) (l : SheetCell) :
    ended ((emitRow ctx row change c).2.filterMap (resolveChange resolve)) n l =
      if reports ctx row c then resolvedValue resolve change n l else l := by
  have hrows : ∀ x ∈ (emitRow ctx row change c).2,
      x.mode = .context ∨ ∃ mode, mode ≠ .context ∧ x = { change with mode := mode } := by
    intro x hx
    rcases mem_emitRow hx with h | ⟨-, h⟩ | ⟨-, h | ⟨-, -, h⟩ | ⟨-, -, h⟩⟩
    · exact Or.inl h
    · exact Or.inr ⟨.insert, RowChangeMode.noConfusion, h⟩
    · exact Or.inr ⟨.move, RowChangeMode.noConfusion, h⟩
    · exact Or.inr ⟨.delete, RowChangeMode.noConfusion, h⟩
    · exact Or.inr ⟨.update, RowChangeMode.noConfusion, h⟩
  rw [ended_filterMap n _ hrows, any_emitRow]
  split
  · next hnone =>
    -- without values there is nothing to write, reported or not
    have hv : change.val = [] := List.length_eq_zero_iff.1 hnone.2.2
    have hsame : resolvedValue resolve change n l = l := by
      unfold resolvedValue resolveChange
      split
      · next y hy =>
        split at hy
        · next hres =>
          split at hy
          · cases hy
          · cases hy
            simp [hv, hval hres.1 hv]
        · cases hy
          rw [hv]
          rfl
      · rfl
    rw [hsame, ite_self, ite_self]
  · rfl

/-! ## The two ways -/

/-- The cell that a way to resolve takes for a conflict. -/
def Resolution.side : Resolution → CellChange → Option SheetCell
  | .ours, _ => none
  | .theirs, e => if e.clash then some e.r else none
  | .neither, e => if e.clash then some e.p else none

/-- What it takes for the two ways to agree on a row with these changed cells. -/
def Resolution.Agrees : Resolution → List CellChange → Bool → Prop
  | .ours, es, conflict => conflict = false ∨ ∀ e ∈ es, e.clash = true
  | .theirs, es, _ => ∀ n x, lastOf Resolution.theirs.side es n = some x →
      lastOf (CellChange.given "theirs") es n = some x
  | .neither, es, _ => ∀ n x, lastOf Resolution.neither.side es n = some x →
      lastOf (CellChange.given "neither") es n = some x

/-- The row has the same values whether `mergeRow` resolves its conflicts or `emitRow` does. -/
def ResolvedAlike (ctx : RowContext) (row : MatchUnit) (c : Cursor) (R : Resolution) : Prop :=
  (mergeRow (ctx.resolving R.text) row { cursor := c }).map (fun s => endValues ctx row s.rc) =
    (mergeRow (ctx.resolving "") row { cursor := c }).map fun s =>
      endValues ctx row (s.rc.filterMap (resolveChange R.text))

theorem given_isSome (e : CellChange) : ∃ x, e.given "" = some x := by
  unfold CellChange.given CellChange.merged
  cases e.clash with
  | true => exact ⟨e.l, rfl⟩
  | false => exact ⟨e.r, rfl⟩

/-- Without values there are no sides of a conflict either. -/
theorem sides_eq_nil {es : List CellChange} (h : (es.foldl (CellChange.enter "") {}).value = []) :
    es = [] := by
  cases es with
  | nil => rfl
  | cons e es =>
    have hget := get?_value_foldl "" (e :: es) e.name {}
    rw [h] at hget
    have hnone : lastOf (CellChange.given "") (e :: es) e.name = none := by
      cases hlast : lastOf (CellChange.given "") (e :: es) e.name with
      | none => rfl
      | some x =>
        rw [hlast] at hget
        cases hget
    obtain ⟨x, hx⟩ := given_isSome e
    rw [lastOf_eq_none.1 hnone e List.mem_cons_self rfl] at hx
    cases hx

section
variable {ctx : RowContext} {row : MatchUnit} {es : List CellChange} {conflict : Bool}

/-- The change that is reported when nothing is resolved. -/
def openChange (ctx : RowContext) (row : MatchUnit) (es : List CellChange)
    (conflict : Bool) : RowChange :=
  rowChangeOf (ctx.resolving "") row (valuesAfter "" {} (es, conflict))

theorem conflicted_openChange : (openChange ctx row es conflict).conflicted = conflict := by
  show (false || (decide (("" : String) = "") && conflict)) = conflict
  simp

theorem get?_openChange (n : String) :
    (openChange ctx row es conflict).val.get? n = lastOf (CellChange.given "") es n := by
  show (es.foldl (CellChange.enter "") {}).value.get? n = _
  rw [get?_value_foldl]
  exact Option.or_none

theorem resolvedValue_quiet (R : Resolution) (n : String) (l : SheetCell) :
    resolvedValue R.text (openChange ctx row es false) n l =
    (lastOf (CellChange.given "") es n).getD l := by
  unfold resolvedValue resolveChange
  rw [if_neg (by rw [conflicted_openChange]; simp)]
  exact congrArg (Option.getD · l) (get?_openChange n)

theorem resolvedValue_ours (n : String) (l : SheetCell) :
    resolvedValue "ours" (openChange ctx row es true) n l = l := by
  unfold resolvedValue resolveChange
  rw [if_pos ⟨by decide, conflicted_openChange⟩, if_pos rfl]

theorem resolvedValue_side {R : Resolution} (hR : R ≠ .ours) (n : String) (l : SheetCell) :
    resolvedValue R.text (openChange ctx row es true) n l =
      ((lastOf R.side es n).or (lastOf (CellChange.given "") es n)).getD l := by
  obtain ⟨h1, h2⟩ := nodup_keys_foldl es {} List.nodup_nil List.nodup_nil
  obtain ⟨hs1, hs2⟩ := get?_sides_foldl es n {}
  have hcon : (openChange ctx row es true).conflicted = true := conflicted_openChange
  have hsides1 :
    (openChange ctx row es true).conflictingVal =
    (es.foldl (CellChange.enter "") {}).conflictedValue := rfl
  have hsides2 : (openChange ctx row es true).conflictingParentVal =
      (es.foldl (CellChange.enter "") {}).conflictedParentValue := rfl
  cases R with
  | ours => exact absurd rfl hR
  | theirs =>
    unfold resolvedValue resolveChange
    rw [if_pos ⟨by decide, hcon⟩, if_neg (by decide)]
    simp only [Resolution.text, if_true]
    rw [hsides1, AssocMap.get?_foldl_set _ _ _ h1, hs1, get?_openChange]
    simp only [AssocMap.get?_nil, Option.or_none]
    rfl
  | neither =>
    unfold resolvedValue resolveChange
    rw [if_pos ⟨by decide, hcon⟩, if_neg (by decide)]
    simp only [Resolution.text, if_true]
    rw [if_neg (by decide), hsides2, AssocMap.get?_foldl_set _ _ _ h2, hs2, get?_openChange]
    simp only [AssocMap.get?_nil, Option.or_none]
    rfl

/-- The values of one column, both ways. -/
theorem resolvedAlike_iff_columns (h : cellChanges ctx row 0 ctx.colAccum = .ok (es, conflict))
    (c : Cursor) (R : Resolution) :
    ResolvedAlike ctx row c R ↔ reports ctx row c = false ∨
      ∀ column ∈ keptColumns ctx row 0 ctx.colAccum,
      (lastOf (CellChange.given R.text) es column.1).getD column.2 =
        resolvedValue R.text (openChange ctx row es conflict) column.1 column.2 := by
  have hleft : ∀ n l, ended (emitRow ctx row (rowChangeOf (ctx.resolving R.text) row
      (valuesAfter R.text {} (es, conflict))) c).2 n l =
      if reports ctx row c then (lastOf (CellChange.given R.text) es n).getD l else l := by
    intro n l
    have hend := ended_emitRow ctx row (rowChangeOf (ctx.resolving R.text) row
      (valuesAfter R.text {} (es, conflict))) c "" (fun h => absurd rfl h) n l
    have hid : resolveChange "" = some := by
      funext x
      exact if_neg fun h => h.1 rfl
    rw [hid, List.filterMap_some] at hend
    rw [hend]
    congr 1
    show Option.getD ((es.foldl (CellChange.enter R.text) {}).value.get? n) l = _
    rw [get?_value_foldl]
    simp
  have hright : ∀ n l, ended ((emitRow ctx row (openChange ctx row es conflict) c).2.filterMap
      (resolveChange R.text)) n l =
      if reports ctx row c then resolvedValue R.text (openChange ctx row es conflict) n l
      else l := by
    intro n l
    refine ended_emitRow ctx row _ c R.text (fun _ hv => ?_) n l
    have hes : es = [] := sides_eq_nil hv
    subst hes
    exact ⟨rfl, rfl⟩
  have hlrun :
    (mergeRow (ctx.resolving R.text) row { cursor := c }).map (fun s => endValues ctx row s.rc) =
      .ok (endValues ctx row (emitRow ctx row (rowChangeOf (ctx.resolving R.text) row
        (valuesAfter R.text {} (es, conflict))) c).2) := by
    unfold mergeRow
    rw [show (ctx.resolving R.text).colAccum = ctx.colAccum from rfl, rowValues_resolving, h]
    rfl
  have hrrun : (mergeRow (ctx.resolving "") row { cursor := c }).map (fun s =>
      endValues ctx row (s.rc.filterMap (resolveChange R.text))) =
      .ok (endValues ctx row ((emitRow ctx row (openChange ctx row es conflict) c).2.filterMap
        (resolveChange R.text))) := by
    unfold mergeRow
    rw [show (ctx.resolving "").colAccum = ctx.colAccum from rfl, rowValues_resolving, h]
    rfl
  unfold ResolvedAlike
  rw [hlrun, hrrun, Except.ok.injEq]
  unfold endValues
  rw [List.map_inj_left]
  simp only [hleft, hright]
  cases reports ctx row c with
  | false => simp
  | true => simp

theorem given_of_not_clash {e : CellChange} (h : e.clash = false) (resolve : String) :
    e.given resolve = some e.r := by
  unfold CellChange.given CellChange.merged
  rw [h]
  rfl

theorem given_eq_side {R : Resolution} (hR : R ≠ .ours) {e : CellChange} (h : e.clash = true) :
    e.given R.text = R.side e := by
  cases R with
  | ours => exact absurd rfl hR
  | theirs =>
    simp [CellChange.given, CellChange.merged, Resolution.side, Resolution.text, resolveCell, h]
  | neither =>
    simp [CellChange.given, CellChange.merged, Resolution.side, Resolution.text, resolveCell, h]

theorem side_of_not_clash (R : Resolution) {e : CellChange} (h : e.clash = false) :
    R.side e = none := by
  cases R <;> simp [Resolution.side, h]

theorem columns_agree_ours (h : cellChanges ctx row 0 ctx.colAccum = .ok (es, conflict)) :
    (∀ column ∈ keptColumns ctx row 0 ctx.colAccum,
      (lastOf (CellChange.given "ours") es column.1).getD column.2 =
      resolvedValue "ours" (openChange ctx row es conflict) column.1 column.2) ↔
      Resolution.ours.Agrees es conflict := by
  obtain ⟨hclash, hplain⟩ := cellChanges_spec _ _ _ _ h
  have hnone : ∀ e ∈ es, e.clash = true → e.given "ours" = none := by
    intro e _ he
    unfold CellChange.given CellChange.merged
    rw [he]
    rfl
  cases conflict with
  | false =>
    have hno : ∀ e ∈ es, e.clash = false := fun e he => by
      rw [← Bool.not_eq_true]
      exact fun hc => Bool.false_ne_true (hclash e he hc)
    refine iff_of_true (fun column _ => ?_) (Or.inl rfl)
    rw [show ("ours" : String) = Resolution.ours.text from rfl, resolvedValue_quiet]
    congr 1
    exact lastOf_congr fun e he _ => by
      rw [given_of_not_clash (hno e he), given_of_not_clash (hno e he)]
  | true =>
    simp only [resolvedValue_ours]
    constructor
    · intro hall
      refine Or.inr fun e he => ?_
      rw [← Bool.not_eq_false]
      intro hc
      -- the last such cell under the name gets remote's value
      cases hlast : lastOf (CellChange.given "ours") es e.name with
      | none =>
        have := lastOf_eq_none.1 hlast e he rfl
        rw [given_of_not_clash hc] at this
        cases this
      | some x =>
        obtain ⟨e', he', hn, hx⟩ := lastOf_eq_some hlast
        have hc' : e'.clash = false := by
          rw [← Bool.not_eq_true]
          intro hcl
          rw [hnone e' he' hcl] at hx
          cases hx
        have hcol := hall _ (cellChanges_kept _ _ _ _ h e' he')
        simp only at hcol
        rw [hn, hlast] at hcol
        rw [given_of_not_clash hc', Option.some.injEq] at hx
        exact hplain e' he' hc' (hx.trans hcol)
    · rintro (hf | hall) column _
      · cases hf
      · rw [lastOf_eq_none.2 fun e he _ => hnone e he (hall e he)]
        rfl

theorem columns_agree_side {R : Resolution} (hR : R ≠ .ours)
    (h : cellChanges ctx row 0 ctx.colAccum = .ok (es, conflict)) :
    (∀ column ∈ keptColumns ctx row 0 ctx.colAccum,
      (lastOf (CellChange.given R.text) es column.1).getD column.2 =
      resolvedValue R.text (openChange ctx row es conflict) column.1 column.2) ↔
      ∀ n x, lastOf R.side es n = some x → lastOf (CellChange.given R.text) es n = some x := by
  obtain ⟨hclash, _⟩ := cellChanges_spec _ _ _ _ h
  have hclashed : ∀ {e : CellChange} {x}, R.side e = some x → e.clash = true := by
    intro e x hx
    rw [← Bool.not_eq_false]
    intro hc
    rw [side_of_not_clash R hc] at hx
    cases hx
  -- where no cell of the name is in conflict, nothing is written over
  have hopen : ∀ n, lastOf R.side es n = none →
      lastOf (CellChange.given R.text) es n = lastOf (CellChange.given "") es n := by
    intro n hnone
    refine lastOf_congr fun e he hn => ?_
    have hc : e.clash = false := by
      rw [← Bool.not_eq_true]
      intro hc
      have hside := lastOf_eq_none.1 hnone e he hn
      cases R with
      | ours => exact hR rfl
      | theirs => simp [Resolution.side, hc] at hside
      | neither => simp [Resolution.side, hc] at hside
    rw [given_of_not_clash hc, given_of_not_clash hc]
  cases conflict with
  | false =>
    have hnone : ∀ n, lastOf R.side es n = none := by
      intro n
      refine lastOf_eq_none.2 fun e he _ => side_of_not_clash R ?_
      rw [← Bool.not_eq_true]
      exact fun hc => Bool.false_ne_true (hclash e he hc)
    refine iff_of_true (fun column _ => ?_) (fun n x hx => ?_)
    · rw [resolvedValue_quiet, hopen _ (hnone _)]
    · rw [hnone n] at hx
      cases hx
  | true =>
    simp only [resolvedValue_side hR]
    constructor
    · intro hall n x hx
      obtain ⟨e, he, hn, hside⟩ := lastOf_eq_some hx
      have hcol := hall _ (cellChanges_kept _ _ _ _ h e he)
      simp only at hcol
      rw [hn, hx] at hcol
      cases hlast : lastOf (CellChange.given R.text) es n with
      | none =>
        have := lastOf_eq_none.1 hlast e he hn
        rw [given_eq_side hR (hclashed hside), hside] at this
        cases this
      | some y =>
        rw [hlast] at hcol
        exact congrArg some hcol
    · intro hall column _
      cases hx : lastOf R.side es column.1 with
      | none => rw [hopen _ hx, Option.none_or]
      | some x =>
        rw [hall _ x hx]
        rfl

end

/-- **When the two ways to resolve agree.**  They do on a row that is not reported; with `ours`, on
one that has no conflict or nothing but conflicts; with `theirs` and `neither`, if no column that
remote alone changed bears the name of an earlier one in conflict and has another value. -/
theorem resolved_alike_iff (ctx : RowContext) (row : MatchUnit) (c : Cursor) (R : Resolution) :
    ResolvedAlike ctx row c R ↔ ∀ es conflict, cellChanges ctx row 0 ctx.colAccum =
    .ok (es, conflict) →
      reports ctx row c = false ∨ R.Agrees es conflict := by
  cases h : cellChanges ctx row 0 ctx.colAccum with
  | error e =>
    refine iff_of_true ?_ (fun es conflict h => by cases h)
    unfold ResolvedAlike mergeRow
    rw [show (ctx.resolving R.text).colAccum = ctx.colAccum from rfl,
      show (ctx.resolving "").colAccum = ctx.colAccum from rfl, rowValues_resolving,
        rowValues_resolving, h]
    rfl
  | ok p =>
    have hiff : ResolvedAlike ctx row c R ↔ reports ctx row c = false ∨ R.Agrees p.1 p.2 := by
      rw [resolvedAlike_iff_columns h]
      apply or_congr_right
      cases R with
      | ours => exact columns_agree_ours h
      | theirs => exact columns_agree_side (by decide) h
      | neither => exact columns_agree_side (by decide) h
    rw [hiff]
    constructor
    · rintro hagree es conflict he
      cases he
      exact hagree
    · exact fun hall => hall p.1 p.2 rfl

/-- A row of two columns: both sides changed `a`, and remote also changed `b`. -/
def mixedRow : RowContext where
  pivot := ⟨2, [[⟨"1", false⟩, ⟨"x", false⟩]], by decide, by decide⟩
  locals := ⟨2, [[⟨"2", false⟩, ⟨"x", false⟩]], by decide, by decide⟩
  remote := ⟨2, [[⟨"3", false⟩, ⟨"y", false⟩]], by decide, by decide⟩
  flags := {}
  colAccum := [⟨0, 0, 0, false, .preserve⟩, ⟨1, 1, 1, false, .preserve⟩]
  names := ["a", "b"]
  filteredNames := []
  allGone := false

/-- Resolved by the merge the row ends with remote's `b`, resolved afterwards it ends as it was. -/
theorem resolved_ours_drops_row :
    ¬ResolvedAlike mixedRow ⟨0, 0, 0, false, .preserve⟩ {} .ours ∧
    (mergeRow (mixedRow.resolving "ours") ⟨0, 0, 0, false, .preserve⟩ {}).map
      (fun s => endValues mixedRow ⟨0, 0, 0, false, .preserve⟩ s.rc) =
        .ok [⟨"2", false⟩, ⟨"y", false⟩] ∧
    (mergeRow (mixedRow.resolving "") ⟨0, 0, 0, false, .preserve⟩ {}).map
      (fun s => endValues mixedRow ⟨0, 0, 0, false, .preserve⟩
        (s.rc.filterMap (resolveChange "ours"))) = .ok [⟨"2", false⟩, ⟨"x", false⟩] := by
  unfold ResolvedAlike
  decide

end Merger

end Coopy
