import Coopy.Comparison
import Mathlib.Data.List.Forall2

/-!
# Replaying a comparison without the order of the rows

With order not in use each row unit leads to one insertion, deletion or update, or to
nothing.  Each search is for a whole local row, and finds one: whatever the place, an
update turns a copy of the local row into the remote row.  So the rows of local become
those of the remote, up to their order (`replay_perm`).
-/

namespace Coopy

open Lib Merger

/-! ## The changes of a unit -/

namespace Merger

/-- What is reported about a row when order is not in use. -/
def unorderedRow (row : MatchUnit) (change : RowChange) : List RowChange :=
  if row.localUnit = -1 then [{ change with mode := .insert }]
  else if row.remoteUnit = -1 then if row.pivotUnit ≠ -1 then [{ change with mode := .delete }]
    else []
  else if change.val.length ≠ 0 then [{ change with mode := .update }] else []

theorem contextRow_unordered {ctx : RowContext} (ho : ctx.flags.useOrder = false) (wanted : Bool)
    (alt : RowChange) : contextRow ctx wanted alt = [] := by
  unfold contextRow
  rw [if_neg (by rw [ho]; simp)]

theorem emitRow_unordered {ctx : RowContext} (ho : ctx.flags.useOrder = false)
    (hacts : ctx.flags.acts = []) (row : MatchUnit) (change : RowChange) (c : Cursor) :
    (emitRow ctx row change c).2 = unorderedRow row change := by
  have hins : ctx.flags.canInsert = true := by
    simp [CompareFlags.canInsert, CompareFlags.can, hacts]
  have hdel : ctx.flags.canDelete = true := by
    simp [CompareFlags.canDelete, CompareFlags.can, hacts]
  have hupd : ctx.flags.canUpdate = true := by
    simp [CompareFlags.canUpdate, CompareFlags.can, hacts]
  unfold emitRow unorderedRow
  simp only [contextRow_unordered ho, ho, Bool.and_false, hins, hdel, hupd, if_true, true_and,
    Bool.false_eq_true, if_false, List.nil_append, ite_self]
  split
  · rfl
  split
  · split <;> rfl
  · split <;> rfl

theorem foldl_rowStep_unordered {ctx : RowContext} (ho : ctx.flags.useOrder = false)
    (hacts : ctx.flags.acts = []) (units : List MatchUnit) : ∀ s : RowState,
      (units.foldl (rowStep ctx) s).rc = s.rc ++
        units.flatMap fun u =>
        unorderedRow u (rowChangeOf ctx u (valuesOf ctx u 0 ctx.colAccum {})) := by
  induction units with
  | nil => exact fun s => (List.append_nil _).symm
  | cons u units ih =>
    intro s
    rw [List.foldl_cons, ih, List.flatMap_cons, ← List.append_assoc]
    congr 1
    show s.rc ++ (emitRow ctx u (rowChangeOf ctx u (valuesOf ctx u 0 ctx.colAccum {})) s.cursor).2 =
      _
    rw [emitRow_unordered ho hacts]

end Merger

namespace Comparison

variable (c : Comparison)

/-- The changes of a unit, as they are reported. -/
def unitChanges (assumeHeader : Bool) (u : MatchUnit) : List RowChange :=
  unorderedRow u (c.reported false assumeHeader .none u)

/-- The merge with order not in use. -/
theorem merge_unordered (assumeHeader : Bool) : ∃ r, merge (c.state false assumeHeader) = .ok r ∧
    r.rowChanges = (c.units false).flatMap (c.unitChanges assumeHeader) := by
  refine ⟨_, c.merge_eq false assumeHeader, ?_⟩
  rw [report_rowChanges rfl, foldl_rowStep_unordered rfl rfl, List.map_append, List.map_flatMap]
  refine List.flatMap_congr fun u _ => ?_
  show (unorderedRow u (c.change false assumeHeader u)).map _ = _
  unfold unitChanges unorderedRow
  split
  · rfl
  split
  · split <;> rfl
  · show List.map _ (if (c.change false assumeHeader u).val.length ≠ 0 then _ else _) =
      if (c.change false assumeHeader u).val.length ≠ 0 then _ else _
    split <;> rfl

/-! ## The units of the sweep -/

theorem isUnit_of_mem {u : MatchUnit} (hu : u ∈ c.units false) : c.IsUnit u := by
  have hmem :=
    (OrderMerge.sweepFrom_perm (List.range c.locals.height) 0 (Nat.zero_le _)).mem_iff.mp hu
  rcases List.mem_append.mp hmem with h | h
  · obtain ⟨l, hl, rfl⟩ := List.mem_map.mp h
    have hl := List.mem_range.mp hl
    rw [OrderMerge.unitAt_identity c.rows hl]
    cases hf : c.rows.fwd l with
    | none => exact IsUnit.delete hl hf
    | some r => exact IsUnit.pair hf
  · obtain ⟨r, -, hr, hb, rfl⟩ := OrderMerge.mem_insertsIn.mp h
    exact IsUnit.insert hr hb

/-- The local row of a unit. -/
def oldRow? (u : MatchUnit) : Option (List SheetCell) :=
  if u.localUnit = -1 then none else some (c.locals.row u.localUnit.toNat)

/-- The remote row of a unit. -/
def newRow? (u : MatchUnit) : Option (List SheetCell) :=
  if u.remoteUnit = -1 then none else some (c.remote.row u.remoteUnit.toNat)

theorem rows_eq_map (s : DataSheet) : (List.range s.height).map s.row = s.rows := by
  refine List.ext_getElem (by simp [DataSheet.height]) fun i h1 h2 => ?_
  rw [List.getElem_map, List.getElem_range, s.row_eq_getElem h2]

/-- The local rows from `k` on. -/
def rowsFrom (k : Nat) : List (List SheetCell) :=
  (List.range' k (c.locals.height - k)).map c.locals.row

theorem rowsFrom_succ {c : Comparison} {k : Nat} (hk : k < c.locals.height) :
    c.rowsFrom k = c.locals.row k :: c.rowsFrom (k + 1) := by
  unfold rowsFrom
  rw [show c.locals.height - k = (c.locals.height - (k + 1)) +
    1 by omega, List.range'_succ, List.map_cons]

theorem rowsFrom_zero (c : Comparison) : c.rowsFrom 0 = c.locals.rows := by
  unfold rowsFrom
  rw [Nat.sub_zero, ← List.range_eq_range', rows_eq_map]

theorem oldRows_perm : ((c.units false).filterMap c.oldRow?).Perm c.locals.rows := by
  have hins : (OrderMerge.insertsIn c.rows 0 c.remote.height).filterMap c.oldRow? = [] := by
    rw [List.filterMap_eq_nil_iff]
    intro u hu
    obtain ⟨r, -, -, -, rfl⟩ := OrderMerge.mem_insertsIn.mp hu
    rfl
  have hold :
    ((List.range c.locals.height).map
      (OrderMerge.unitAt (Matching.identity c.locals.height) c.rows)).filterMap
      c.oldRow? = c.locals.rows := by
    rw [List.filterMap_map, ← rows_eq_map c.locals, ← List.filterMap_eq_map]
    refine List.filterMap_congr fun l hl => ?_
    show c.oldRow? (OrderMerge.unitAt (Matching.identity c.locals.height) c.rows l) =
      some (c.locals.row l)
    rw [OrderMerge.unitAt_identity c.rows (List.mem_range.mp hl)]
    unfold oldRow?
    cases c.rows.fwd l with
    | none => rw [if_neg (by simp only []; omega)]; rfl
    | some r => rw [if_neg (by simp only []; omega)]; rfl
  calc ((c.units false).filterMap c.oldRow?).Perm _ :=
        (OrderMerge.sweepFrom_perm (List.range c.locals.height) 0 (Nat.zero_le _)).filterMap
        c.oldRow?
    _ = c.locals.rows := by rw [List.filterMap_append, hins, List.append_nil, hold]

theorem newRows_perm : ((c.units false).filterMap c.newRow?).Perm c.remote.rows := by
  have hkept : (c.units false).filterMap c.newRow? =
      ((c.units false).filter fun u => !u.deleted).filterMap c.newRow? := by
    rw [List.filterMap_filter]
    refine List.filterMap_congr fun u hu => ?_
    cases c.isUnit_of_mem hu with
    | pair h => rfl
    | insert hr h => rfl
    | delete hl h => rfl
  have hnew : (OrderMerge.remoteUnits c.rows).filterMap c.newRow? = c.remote.rows := by
    unfold OrderMerge.remoteUnits
    rw [List.filterMap_map, ← rows_eq_map c.remote, ← List.filterMap_eq_map]
    refine List.filterMap_congr fun r hr => ?_
    show c.newRow? (OrderMerge.remoteUnitAt c.rows r) = some (c.remote.row r)
    unfold newRow?
    rw [OrderMerge.remoteUnitAt_remoteUnit, if_neg (by omega), Int.toNat_natCast]
  rw [hkept, ← hnew]
  exact (((OrderMerge.sweepFrom_perm (List.range c.locals.height) 0 (Nat.zero_le _)).filter _).trans
    (OrderMerge.sweptUnits_identity_perm c.rows)).filterMap _

/-! ## The edits of a unit -/

/-- What the changes of a unit do to rows of the right width. -/
def unitEdits (u : MatchUnit) : List (Edit (List SheetCell)) :=
  match c.oldRow? u, c.newRow? u with
  | none, none => []
  | none, some new => [.insert new]
  | some old, none => [.delete (isRow old)]
  | some old, some new => if old = new then [] else [.update (isRow old) fun _ => new]

section
variable {c} {assumeHeader : Bool} {zero : SheetCell}

theorem unitChanges_pair {l r : Nat} (h : c.rows.fwd l = some r) :
    c.unitChanges assumeHeader (pairUnit l r) = if c.locals.row l = c.remote.row r then []
      else [c.reported false assumeHeader .update (pairUnit l r)] := by
  have hval : (c.change false assumeHeader (pairUnit l r)).val = [] ↔
    c.locals.row l = c.remote.row r := val_eq_nil_iff (fwd_lt h).1 (fwd_lt h).2
  unfold unitChanges unorderedRow
  rw [if_neg (pairUnit_local l r), if_neg (pairUnit_remote l r)]
  show (if (c.change false assumeHeader (pairUnit l r)).val.length ≠ 0 then _ else _) = _
  by_cases he : c.locals.row l = c.remote.row r
  · rw [if_pos he, hval.mpr he, if_neg (by simp)]
  · rw [if_neg he, if_pos (fun hz => he (hval.mp (List.eq_nil_iff_length_eq_zero.mpr hz)))]
    rfl

theorem unitChanges_insert (r : Nat) : c.unitChanges assumeHeader (OrderMerge.insertUnit r) =
    [c.reported false assumeHeader .insert (OrderMerge.insertUnit r)] := rfl

theorem unitChanges_delete (l : Nat) : c.unitChanges assumeHeader (deleteUnit l) =
    [c.reported false assumeHeader .delete (deleteUnit l)] := by
  unfold unitChanges unorderedRow
  rw [if_neg (deleteUnit_local l), if_pos (show (deleteUnit l).remoteUnit = -1 from rfl),
    if_pos (show (deleteUnit l).pivotUnit ≠ -1 from deleteUnit_local l)]
  rfl

theorem rows_pair (l r : Nat) : c.oldRow? (pairUnit l r) = some (c.locals.row l) ∧
    c.newRow? (pairUnit l r) = some (c.remote.row r) := by
  unfold oldRow? newRow?
  rw [if_neg (pairUnit_local l r), if_neg (pairUnit_remote l r)]
  exact ⟨rfl, rfl⟩

theorem rows_insert (r : Nat) : c.oldRow? (OrderMerge.insertUnit r) = none ∧
    c.newRow? (OrderMerge.insertUnit r) = some (c.remote.row r) := by
  unfold oldRow? newRow?
  rw [if_neg (insertUnit_remote r)]
  exact ⟨rfl, rfl⟩

theorem rows_delete (l : Nat) : c.oldRow? (deleteUnit l) = some (c.locals.row l) ∧
    c.newRow? (deleteUnit l) = none := by
  unfold oldRow? newRow?
  rw [if_neg (deleteUnit_local l)]
  exact ⟨rfl, rfl⟩

theorem unitEdits_pair (l r : Nat) :
    c.unitEdits (pairUnit l r) = if c.locals.row l = c.remote.row r then []
    else [.update (isRow (c.locals.row l)) fun _ => c.remote.row r] := by
  simp only [unitEdits, (rows_pair l r).1, (rows_pair l r).2]

theorem unitEdits_insert (r : Nat) :
    c.unitEdits (OrderMerge.insertUnit r) = [.insert (c.remote.row r)] := by
  simp only [unitEdits, (rows_insert r).1, (rows_insert r).2]

theorem unitEdits_delete (l : Nat) :
    c.unitEdits (deleteUnit l) = [.delete (isRow (c.locals.row l))] := by
  simp only [unitEdits, (rows_delete l).1, (rows_delete l).2]

theorem unitChanges_alike {u : MatchUnit} (hu : c.IsUnit u) :
    List.Forall₂ (Edit.Alike c.Wide)
    ((c.unitChanges assumeHeader u).map (RowChange.edit c.names zero)) (c.unitEdits u) := by
  cases hu with
  | @pair l r h =>
    rw [unitChanges_pair h, unitEdits_pair]
    split
    · exact List.Forall₂.nil
    · exact List.Forall₂.cons (alike_update (fwd_lt h).1 (fwd_lt h).2) List.Forall₂.nil
  | @insert r hr h =>
    rw [unitChanges_insert, unitEdits_insert]
    exact List.Forall₂.cons (alike_insert hr) List.Forall₂.nil
  | @delete l hl h =>
    rw [unitChanges_delete, unitEdits_delete]
    exact List.Forall₂.cons (alike_delete hl) List.Forall₂.nil

theorem forall₂_flatMap {β γ : Type} {R : β → γ → Prop} {f : MatchUnit → List β}
    {g : MatchUnit → List γ} (us : List MatchUnit) (h : ∀ u ∈ us, List.Forall₂ R (f u) (g u)) :
    List.Forall₂ R (us.flatMap f) (us.flatMap g) := by
  induction us with
  | nil => exact List.Forall₂.nil
  | cons u us ih =>
    rw [List.flatMap_cons, List.flatMap_cons]
    exact List.rel_append (h u (by simp)) (ih fun w hw => h w (List.mem_cons_of_mem _ hw))

/-- The changes of a unit carry no context and no move. -/
theorem mem_unitChanges {u : MatchUnit} {x : RowChange} (hx : x ∈ c.unitChanges assumeHeader u) :
    ∃ mode, x = c.reported false assumeHeader mode u ∧
    (mode = .insert ∨ mode = .delete ∨ mode = .update) := by
  unfold unitChanges unorderedRow at hx
  split at hx
  · exact ⟨.insert, List.mem_singleton.mp hx, Or.inl rfl⟩
  split at hx
  · split at hx
    · exact ⟨.delete, List.mem_singleton.mp hx, Or.inr (Or.inl rfl)⟩
    · cases hx
  · split at hx
    · exact ⟨.update, List.mem_singleton.mp hx, Or.inr (Or.inr rfl)⟩
    · cases hx

theorem mode_unitChanges {u : MatchUnit} {x : RowChange} (hx : x ∈ c.unitChanges assumeHeader u) :
    x.mode ≠ .context ∧ x.mode ≠ .move := by
  obtain ⟨mode, rfl, hmode⟩ := mem_unitChanges hx
  show mode ≠ .context ∧ mode ≠ .move
  rcases hmode with rfl | rfl | rfl <;> decide

/-! ## The rows afterwards -/

theorem cut_isRow {x : List SheetCell} {items : List (List SheetCell)} (h : x ∈ items) :
    ∃ a b, cut (isRow x) items = some (a, x, b) ∧ items = a ++ x :: b := Edit.cut_item h

theorem unitEdits_eq (u : MatchUnit) :
    c.unitEdits u = Edit.exchange (c.oldRow? u) (c.newRow? u) := by
  unfold unitEdits
  cases c.oldRow? u <;> cases c.newRow? u <;> rfl

/-- **A run of units.**  The local rows still to come turn into their remote rows. -/
theorem run_unitEdits_perm (us : List MatchUnit) (z : Zipper (List SheetCell))
    (done : List (List SheetCell)) (h : z.items.Perm (done ++ us.filterMap c.oldRow?)) :
    (Edit.run (us.flatMap c.unitEdits) z).items.Perm (done ++ us.filterMap c.newRow?) := by
  have hrun := Edit.run_exchange_perm (us.map fun u => (c.oldRow? u, c.newRow? u)) z done
    (by rwa [List.filterMap_map])
  rw [List.filterMap_map, List.flatMap_map] at hrun
  rw [List.flatMap_congr fun u _ => unitEdits_eq u]
  exact hrun

end

/-- The replay of the reported changes is a run of the edits of the units. -/
theorem replay_unordered (zero : SheetCell) (assumeHeader : Bool) :
    c.replay zero assumeHeader ((c.units false).flatMap (c.unitChanges assumeHeader)) =
      some (Edit.run ((c.units false).flatMap c.unitEdits) (Zipper.atEnd c.locals.rows)).items := by
  have hplain :
    ∀ change ∈ (c.units false).flatMap (c.unitChanges assumeHeader), change.Plain c.names := by
    intro change hchange
    obtain ⟨u, hu, hx⟩ := List.mem_flatMap.mp hchange
    obtain ⟨mode, rfl, -⟩ := mem_unitChanges hx
    exact reported_plain (c.isUnit_of_mem hu) mode
  rw [replay_eq hplain]
  · rw [List.map_flatMap,
      Edit.run_alike (forall₂_flatMap _ fun u hu => unitChanges_alike (c.isUnit_of_mem hu))]
    rw [Zipper.items_atEnd]
    exact local_wide
  · intro pre change post heq hmode
    have hmem : change ∈ (c.units false).flatMap (c.unitChanges assumeHeader) := by
      rw [heq]
      simp
    obtain ⟨u, hu, hx⟩ := List.mem_flatMap.mp hmem
    exact absurd hmode (mode_unitChanges hx).1

/-- The rows afterwards are those of the remote. -/
theorem run_units_perm :
    (Edit.run ((c.units false).flatMap c.unitEdits) (Zipper.atEnd c.locals.rows)).items.Perm
    c.remote.rows := by
  have hstart :
    (Zipper.atEnd c.locals.rows).items.Perm ([] ++ (c.units false).filterMap c.oldRow?) := by
    rw [Zipper.items_atEnd]
    exact c.oldRows_perm.symm
  exact (run_unitEdits_perm _ _ [] hstart).trans c.newRows_perm

/-- **Content round trip.**  With order not in use, replaying the row changes on local
gives the rows of the remote, in some order. -/
theorem replay_perm (c : Comparison) (zero : SheetCell) (assumeHeader : Bool) :
    ∃ r rows, merge (c.state false assumeHeader) = .ok r ∧
      (∀ x ∈ r.rowChanges, x.mode ≠ .context ∧ x.mode ≠ .move) ∧
      c.replay zero assumeHeader r.rowChanges = some rows ∧ rows.Perm c.remote.rows := by
  obtain ⟨r, hr, hchanges⟩ := c.merge_unordered assumeHeader
  have hreplay := c.replay_unordered zero assumeHeader
  rw [← hchanges] at hreplay
  refine ⟨r, _, hr, fun x hx => ?_, hreplay, c.run_units_perm⟩
  rw [hchanges] at hx
  obtain ⟨u, -, hx⟩ := List.mem_flatMap.mp hx
  exact mode_unitChanges hx

end Comparison

end Coopy
