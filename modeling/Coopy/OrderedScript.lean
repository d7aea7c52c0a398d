import Coopy.UnorderedScript

/-!
# Replaying a comparison in the order of the remote

The units come in the remote's order, with the deletions last.  A row is moved when it
stood above a row already reached, or follows a row that was added; contexts bring the
cursor back to the last row where a change does not.  One case is special: a move of the
first local row is left out while `hadRow` is not set.

    replaying the merge = running the edits of its units                            (replay_ordered)
-/

namespace Coopy

open Lib Merger

namespace Comparison

variable (c : Comparison)

/-! ## What a unit leads to -/

section
variable {c} {cur : Cursor}

/-- `hadRow` as `mergeRow` has it for the unit at hand. -/
def hadNow (cur : Cursor) : Bool := if cur.lastLocalRow ≠ -1 then true else cur.hadRow

/-- `hadForeignRow` likewise. -/
def foreignNow (cur : Cursor) : Bool := if cur.lastLocalRow ≠ -1 then false else cur.hadForeignRow

/-- The local row at hand is out of order, or follows an addition. -/
def movesNow (cur : Cursor) (l : Nat) : Bool :=
  decide ((hadNow cur = true ∨ foreignNow cur = true) ∧
    ((l : Int) < cur.bottomLocalRow ∨ foreignNow cur = true))

/-- Nothing has brought the cursor to the last row. -/
def unmarkedNow (cur : Cursor) : Bool :=
  decide (cur.lastLocalRow ≥ 0 ∧ cur.lastLocalRowMarked ≠ cur.lastLocalRow)

theorem contextRow_false (alt : RowChange) : contextRow (c.context true false) false alt = [] :=
  if_neg (by simp)

theorem emitRow_insert (r : Nat) (change : RowChange) :
    emitRow (c.context true false) (OrderMerge.insertUnit r) change cur =
      ({ lastLocalRow := -1
         bottomLocalRow := if (-1 : Int) ≥ cur.bottomLocalRow then -1 else cur.bottomLocalRow
         lastLocalRowMarked := -1
         hadRow := hadNow cur
         hadForeignRow := foreignNow cur || decide (cur.lastLocalRow < 0)
         lastRowChange := { change with mode := .insert } },
       (if cur.lastLocalRow ≥ 0 then contextRow (c.context true false)
         (unmarkedNow cur) cur.lastRowChange
         else contextRow (c.context true false) (!(cur.hadRow || foreignNow cur)) {}) ++
         [{ change with mode := .insert }]) := by
  have hins : (c.context true false).flags.canInsert = true := rfl
  have hgone : (c.context true false).allGone = false := rfl
  unfold emitRow
  simp only [OrderMerge.insertUnit, ne_eq, not_true_eq_false, false_and, and_false, decide_false,
    Bool.false_and,
    Bool.false_eq_true, if_false, if_true, List.append_nil, List.nil_append, hadNow, foreignNow,
    hins, hgone, contextRow_false, Bool.or_false]
  by_cases hl : cur.lastLocalRow ≥ 0
  · have hmark : unmarkedNow cur = decide ¬cur.lastLocalRowMarked = cur.lastLocalRow := by
      unfold unmarkedNow
      simp only [hl, true_and, ne_eq]
    simp only [if_pos hl, hmark]
    rfl
  · simp only [if_neg hl]
    rfl

theorem emitRow_pair (l r : Nat) (change : RowChange) :
    emitRow (c.context true false) (pairUnit l r) change cur =
      ({ lastLocalRow := l
         bottomLocalRow := if (l : Int) ≥ cur.bottomLocalRow then (l : Int) else cur.bottomLocalRow
         lastLocalRowMarked := if movesNow cur l || !change.val.isEmpty then (l : Int)
           else cur.lastLocalRowMarked
         hadRow := hadNow cur
         hadForeignRow := foreignNow cur
         lastRowChange := { change with
           mode := if change.val.isEmpty then change.mode
             else if movesNow cur l && (cur.hadRow || decide (l ≠ 0)) then .move else .update } },
       contextRow (c.context true false) (movesNow cur l && unmarkedNow cur) cur.lastRowChange ++
         if movesNow cur l && (cur.hadRow || decide (l ≠ 0)) then [{ change with mode := .move }]
         else if change.val.isEmpty then [] else [{ change with mode := .update }]) := by
  have hupd : (c.context true false).flags.canUpdate = true := rfl
  have hord : (c.context true false).flags.useOrder = true := rfl
  have hmoves : decide ((pairUnit l r).deleted = false ∧ (pairUnit l r).localUnit ≠ -1 ∧
      ((if cur.lastLocalRow ≠ -1 then true else cur.hadRow) = true ∨
        (if cur.lastLocalRow ≠ -1 then false else cur.hadForeignRow) = true) ∧
      ((pairUnit l r).localUnit < cur.bottomLocalRow ∨
        (if cur.lastLocalRow ≠ -1 then false else cur.hadForeignRow) = true)) = movesNow cur l := by
    unfold movesNow hadNow foreignNow
    rw [decide_eq_decide]
    exact ⟨fun h => h.2.2, fun h => ⟨rfl, pairUnit_local l r, h⟩⟩
  have hzero : decide ((pairUnit l r).localUnit ≠ 0) = decide (l ≠ 0) := by
    rw [decide_eq_decide]
    show (l : Int) ≠ 0 ↔ l ≠ 0
    omega
  have hlen : change.val.length ≠ 0 ↔ ¬change.val.isEmpty = true := by
    cases change.val <;> simp
  unfold emitRow
  simp only [hmoves, hzero, pairUnit_local, pairUnit_remote, if_false, hupd, hord, true_and,
    Bool.and_true, hlen]
  show (if ¬change.val.isEmpty = true then _ else _) = _
  cases change.val.isEmpty <;> cases movesNow cur l <;> cases (cur.hadRow || decide (l ≠ 0)) <;> rfl

theorem emitRow_delete (l : Nat) (change : RowChange) :
    emitRow (c.context true false) (deleteUnit l) change cur =
      ({ lastLocalRow := l
         bottomLocalRow := if (l : Int) ≥ cur.bottomLocalRow then (l : Int) else cur.bottomLocalRow
         lastLocalRowMarked := l
         hadRow := hadNow cur
         hadForeignRow := foreignNow cur
         lastRowChange := { change with mode := .delete } },
           [{ change with mode := .delete }]) := by
  have hdel : (c.context true false).flags.canDelete = true := rfl
  have hl : ¬((l : Int) = -1) := by omega
  unfold emitRow
  simp only [deleteUnit, hl, if_false, hdel, true_and, ne_eq, not_false_eq_true, if_true,
    Bool.true_eq_false, false_and,
    decide_false, Bool.false_and, Bool.false_eq_true, contextRow_false, List.nil_append,
      hadNow, foreignNow]
  rfl

end

/-! ## The edits of a unit -/

/-- The cursor after a unit. -/
def next (cur : Cursor) (u : MatchUnit) : Cursor :=
  (emitRow (c.context true false) u (c.change true false u) cur).1

/-- Back to the last row. -/
def seekLast (cur : Cursor) : Edit (List SheetCell) :=
  .seek (isRow (c.locals.row cur.lastLocalRow.toNat))

/-- What goes before an insertion: back to the last row, or, before any row, to the top. -/
def insertLead (cur : Cursor) : List (Edit (List SheetCell)) :=
  if cur.lastLocalRow ≥ 0 then if unmarkedNow cur then [c.seekLast cur] else []
  else if (cur.hadRow || foreignNow cur) = false ∧ 0 < c.locals.height then [.top] else []

/-- What the changes of a unit do to rows of the right width. -/
def stepEdits (cur : Cursor) (u : MatchUnit) : List (Edit (List SheetCell)) :=
  match c.oldRow? u, c.newRow? u with
  | none, none => []
  | none, some new => c.insertLead cur ++ [.insert new]
  | some old, none => [.delete (isRow old)]
  | some old, some new =>
    (if movesNow cur u.localUnit.toNat && unmarkedNow cur then [c.seekLast cur] else []) ++
      if movesNow cur u.localUnit.toNat && (cur.hadRow || decide (u.localUnit.toNat ≠ 0))
      then [.move (isRow old) fun _ => new]
      else if old = new then [] else [.update (isRow old) fun _ => new]

/-- The edits of a run of units. -/
def orderedEdits : Cursor → List MatchUnit → List (Edit (List SheetCell))
  | _, [] => []
  | cur, u :: us => c.stepEdits cur u ++ orderedEdits (c.next cur u) us

/-- The last change is that of the last local row. -/
structure LastOk (cur : Cursor) : Prop where
  low : -1 ≤ cur.lastLocalRow
  change : 0 ≤ cur.lastLocalRow → ∃ u mode, c.IsUnit u ∧ u.localUnit = cur.lastLocalRow ∧
    cur.lastRowChange = { c.change true false u with mode := mode }

/-- The change as it is reported. -/
def report (change : RowChange) : RowChange :=
  { change with
    indexes :=
      reportedIndexes c.names (c.indexes true false) (ColState.start c.locals.width c.names)
    allNames := c.names }

/-- A reported change, and the edit it comes to. -/
structure Reports (zero : SheetCell) (deleting : Bool) (change : RowChange)
    (e : Edit (List SheetCell)) : Prop where
  plain : (c.report change).Plain c.names
  alike : Edit.Alike c.Wide ((c.report change).edit c.names zero) e
  deletes : change.mode = .delete ↔ deleting = true
  top : change.mode = .context → 0 < c.locals.height

section
variable {c} {cur : Cursor} {zero : SheetCell}

theorem stepEdits_insert (r : Nat) : c.stepEdits cur (OrderMerge.insertUnit r) =
    c.insertLead cur ++ [.insert (c.remote.row r)] := by
  simp only [stepEdits, (rows_insert r).1, (rows_insert r).2]

theorem stepEdits_pair (l r : Nat) : c.stepEdits cur (pairUnit l r) =
    (if movesNow cur l && unmarkedNow cur then [c.seekLast cur] else []) ++
      if movesNow cur l && (cur.hadRow || decide (l ≠ 0))
      then [.move (isRow (c.locals.row l)) fun _ => c.remote.row r]
      else if c.locals.row l = c.remote.row r then []
      else [.update (isRow (c.locals.row l)) fun _ => c.remote.row r] := by
  simp only [stepEdits, (rows_pair l r).1, (rows_pair l r).2]
  rfl

theorem stepEdits_delete (l : Nat) :
    c.stepEdits cur (deleteUnit l) = [.delete (isRow (c.locals.row l))] := by
  simp only [stepEdits, (rows_delete l).1, (rows_delete l).2]

theorem local_lt {u : MatchUnit} (hu : c.IsUnit u) {l : Nat} (hl : u.localUnit = l) :
    l < c.locals.height := by
  cases hu with
  | @pair k r h =>
    have : k = l := Int.ofNat.inj hl
    rw [← this]
    exact (fwd_lt h).1
  | @insert r hr h =>
    have : (-1 : Int) = l := hl
    omega
  | @delete k hk h =>
    have : k = l := Int.ofNat.inj hl
    omega

/-- The context row that leads back to the last row. -/
theorem reports_seekLast (hlast : c.LastOk cur) (hl : 0 ≤ cur.lastLocalRow) :
    c.Reports zero false { cur.lastRowChange with mode := .context } (c.seekLast cur) := by
  obtain ⟨u, mode, hu, hlu, hch⟩ := hlast.change hl
  obtain ⟨l, hcast⟩ : ∃ l : Nat, cur.lastLocalRow = l := ⟨cur.lastLocalRow.toNat, by omega⟩
  have hlt := local_lt hu (hlu.trans hcast)
  rw [hch]
  refine ⟨reported_plain hu .context, ?_, ⟨fun h => (by cases h), fun h => (by cases h)⟩,
    fun _ => by omega⟩
  unfold seekLast
  rw [hcast, Int.toNat_natCast]
  exact alike_context (hlu.trans hcast) hlt

theorem reports_top (hne : 0 < c.locals.height) :
    c.Reports zero false { ({} : RowChange) with mode := .context } .top :=
  ⟨⟨rfl, rfl, rfl, List.nodup_nil, fun n hn => (by cases hn), List.nodup_nil⟩, alike_top,
    ⟨fun h => (by cases h), fun h => (by cases h)⟩, fun _ => hne⟩

theorem contextRow_seekLast (hlast : c.LastOk cur) (wanted : Bool) (hl : wanted = true →
    0 ≤ cur.lastLocalRow) :
    List.Forall₂ (c.Reports zero false) (contextRow (c.context true false) wanted cur.lastRowChange)
      (if wanted then [c.seekLast cur] else []) := by
  cases wanted with
  | false => exact List.Forall₂.nil
  | true =>
    have hrep : c.Reports zero false _ _ := reports_seekLast hlast (hl rfl)
    have hrow : contextRow (c.context true false) true cur.lastRowChange =
        [{ cur.lastRowChange with mode := .context }] := if_pos ⟨rfl, rfl, hrep.top rfl⟩
    rw [hrow, if_pos rfl]
    exact List.Forall₂.cons hrep List.Forall₂.nil

theorem contextRow_top (wanted : Bool) :
    List.Forall₂ (c.Reports zero false) (contextRow (c.context true false) (!wanted) {})
      (if wanted = false ∧ 0 < c.locals.height then [.top] else []) := by
  unfold contextRow
  by_cases h : wanted = false ∧ 0 < c.locals.height
  · rw [if_pos h, if_pos ⟨by rw [h.1]; rfl, rfl, h.2⟩]
    exact List.Forall₂.cons (reports_top h.2) List.Forall₂.nil
  · rw [if_neg h, if_neg fun h' => h ⟨by simpa using h'.1, h'.2.2⟩]
    exact List.Forall₂.nil

/-- **One unit.**  Its changes come to its edits, and its row becomes the last row. -/
theorem emit_reports (hlast : c.LastOk cur) {u : MatchUnit} (hu : c.IsUnit u) :
    List.Forall₂ (c.Reports zero u.deleted)
    (emitRow (c.context true false) u (c.change true false u) cur).2
      (c.stepEdits cur u) := by
  have hunmarked : ∀ b : Bool, (b && unmarkedNow cur) = true → 0 ≤ cur.lastLocalRow := by
    intro b hb
    rw [Bool.and_eq_true] at hb
    exact (of_decide_eq_true hb.2).1
  cases hu with
  | @pair l r h =>
    have hval :
      (c.change true false (pairUnit l r)).val.isEmpty =
      decide (c.locals.row l = c.remote.row r) := by
      rw [Bool.eq_iff_iff, List.isEmpty_iff, decide_eq_true_iff]
      exact val_eq_nil_iff (fwd_lt h).1 (fwd_lt h).2
    rw [emitRow_pair, stepEdits_pair, hval]
    refine List.rel_append (contextRow_seekLast hlast _ (hunmarked _)) ?_
    split
    · exact List.Forall₂.cons ⟨reported_plain (IsUnit.pair h) .move,
        alike_move (fwd_lt h).1 (fwd_lt h).2,
        ⟨fun h => (by cases h), fun h => (by cases h)⟩, fun h => (by cases h)⟩ List.Forall₂.nil
    · by_cases heq : c.locals.row l = c.remote.row r
      · rw [if_pos (decide_eq_true heq), if_pos heq]
        exact List.Forall₂.nil
      · rw [if_neg (by simpa using heq), if_neg heq]
        exact List.Forall₂.cons ⟨reported_plain (IsUnit.pair h) .update,
          alike_update (fwd_lt h).1 (fwd_lt h).2,
          ⟨fun h => (by cases h), fun h => (by cases h)⟩, fun h => (by cases h)⟩ List.Forall₂.nil
  | @insert r hr h =>
    rw [emitRow_insert, stepEdits_insert]
    refine List.rel_append ?_
      (List.Forall₂.cons ⟨reported_plain (IsUnit.insert hr h) .insert, alike_insert hr,
      ⟨fun h => (by cases h), fun h => (by cases h)⟩, fun h => (by cases h)⟩ List.Forall₂.nil)
    unfold insertLead
    split
    · next hl => exact contextRow_seekLast hlast _ fun _ => hl
    · exact contextRow_top _
  | @delete l hl h =>
    rw [emitRow_delete, stepEdits_delete]
    exact List.Forall₂.cons ⟨reported_plain (IsUnit.delete hl h) .delete, alike_delete hl,
      ⟨fun _ => rfl, fun _ => rfl⟩, fun h => (by cases h)⟩ List.Forall₂.nil

theorem next_lastOk {u : MatchUnit} (hu : c.IsUnit u) : c.LastOk (c.next cur u) := by
  unfold next
  cases hu with
  | @pair l r h =>
    rw [emitRow_pair]
    exact ⟨by simp only []; omega, fun _ => ⟨_, _, IsUnit.pair h, rfl, rfl⟩⟩
  | @insert r hr h =>
    rw [emitRow_insert]
    exact ⟨by simp only []; omega, fun h => absurd h (by simp only []; omega)⟩
  | @delete l hl h =>
    rw [emitRow_delete]
    exact ⟨by simp only []; omega, fun _ => ⟨_, _, IsUnit.delete hl h, rfl, rfl⟩⟩

/-! ## The whole script -/

theorem orderedEdits_append (us vs : List MatchUnit) : ∀ cur : Cursor,
    c.orderedEdits cur (us ++ vs) = c.orderedEdits cur us ++
    c.orderedEdits (us.foldl c.next cur) vs := by
  induction us with
  | nil => exact fun cur => rfl
  | cons u us ih =>
    intro cur
    show c.stepEdits cur u ++ c.orderedEdits (c.next cur u) (us ++ vs) = _
    rw [ih, ← List.append_assoc]
    rfl

theorem foldl_reports (zero : SheetCell) {deleting : Bool} (us : List MatchUnit)
    (hus : ∀ u ∈ us, c.IsUnit u ∧ u.deleted = deleting) :
    ∀ s : RowState, c.LastOk s.cursor → ∃ rows, (us.foldl (rowStep (c.context true false)) s).rc =
    s.rc ++ rows ∧
      (us.foldl (rowStep (c.context true false)) s).cursor = us.foldl c.next s.cursor ∧
      c.LastOk (us.foldl c.next s.cursor) ∧
      List.Forall₂ (c.Reports zero deleting) rows (c.orderedEdits s.cursor us) := by
  induction us with
  | nil => exact fun s h => ⟨[], (List.append_nil _).symm, rfl, h, List.Forall₂.nil⟩
  | cons u us ih =>
    intro s h
    obtain ⟨hu, hd⟩ := hus u (by simp)
    obtain ⟨rows, h1, h2, h3, h4⟩ := ih (fun w hw => hus w (List.mem_cons_of_mem _ hw))
      (rowStep (c.context true false) s u) (next_lastOk hu)
    refine ⟨(emitRow (c.context true false) u (c.change true false u) s.cursor).2 ++ rows,
      ?_, h2, h3, ?_⟩
    · rw [List.foldl_cons, h1, ← List.append_assoc]
      rfl
    · exact List.rel_append (hd ▸ emit_reports h hu) h4

theorem isUnit_remote {u : MatchUnit} (hu : u ∈ OrderMerge.remoteUnits c.rows) :
    c.IsUnit u ∧ u.deleted = false := by
  obtain ⟨r, hr, rfl⟩ := List.mem_map.mp hu
  refine ⟨?_, OrderMerge.remoteUnitAt_deleted c.rows r⟩
  unfold OrderMerge.remoteUnitAt
  cases hb : c.rows.bwd r with
  | none => exact IsUnit.insert (List.mem_range.mp hr) hb
  | some l => exact IsUnit.pair ((c.rows.fwd_eq_some_iff l r).mpr hb)

theorem isUnit_deleted {u : MatchUnit} (hu : u ∈ OrderMerge.deletedUnits c.rows) :
    c.IsUnit u ∧ u.deleted = true := by
  obtain ⟨l, hl, rfl⟩ := List.mem_map.mp hu
  obtain ⟨hl, hf⟩ := List.mem_filter.mp hl
  exact ⟨IsUnit.delete (List.mem_range.mp hl) (Option.isNone_iff_eq_none.mp hf), rfl⟩

theorem edit_ne_delete {names : List String} {change : RowChange} (h : change.mode ≠ .delete)
    (m : List SheetCell → Bool) : change.edit names zero ≠ .delete m := by
  intro he
  unfold RowChange.edit at he
  cases hm : change.mode with
  | delete => exact h hm
  | context =>
    rw [hm] at he
    simp only at he
    split at he <;> cases he
  | insert => rw [hm] at he; cases he
  | move => rw [hm] at he; cases he
  | update => rw [hm] at he; cases he
  | none => rw [hm] at he; cases he

theorem forall_of_forall₂ {β γ : Type} {R : β → γ → Prop} {P : β → Prop}
    (h : ∀ x y, R x y → P x) {xs : List β}
    {ys : List γ} (hxy : List.Forall₂ R xs ys) : ∀ x ∈ xs, P x := by
  induction hxy with
  | nil => exact fun x hx => (by cases hx)
  | cons hab _ ih =>
    intro x hx
    rcases List.mem_cons.mp hx with rfl | hx
    · exact h _ _ hab
    · exact ih x hx

end

/-- **The merge in order, replayed.**  The changes come to the edits of the units. -/
theorem replay_ordered (zero : SheetCell) : ∃ r, merge (c.state true false) = .ok r ∧
    c.replay zero false r.rowChanges =
      some (Edit.run (c.orderedEdits {} (c.units true)) (Zipper.atEnd c.locals.rows)).items := by
  refine ⟨_, c.merge_eq true false, ?_⟩
  have hstart : c.LastOk ({} : RowState).cursor := ⟨Int.le_refl _, fun h => absurd h (by decide)⟩
  obtain ⟨rows1, h1, h2, h3, h4⟩ := foldl_reports zero (OrderMerge.remoteUnits c.rows)
    (fun u hu => isUnit_remote hu) {} hstart
  obtain ⟨rows2, h5, -, -, h8⟩ := foldl_reports zero (OrderMerge.deletedUnits c.rows)
    (fun u hu => isUnit_deleted hu) _ (h2 ▸ h3)
  rw [h1, List.nil_append] at h5
  rw [h2] at h8
  have hrows : ((c.units true).foldl (rowStep (c.context true false)) {}).rc = rows1 ++ rows2 := by
    rw [← h5, ← List.foldl_append]
    rfl
  have hedits :
    c.orderedEdits {} (c.units true) = c.orderedEdits {} (OrderMerge.remoteUnits c.rows) ++
      c.orderedEdits ((OrderMerge.remoteUnits c.rows).foldl c.next {})
      (OrderMerge.deletedUnits c.rows) :=
    orderedEdits_append _ _ _
  have hplain1 := forall_of_forall₂ (fun _ _ h => h.plain) h4
  have hplain2 := forall_of_forall₂ (fun _ _ h => h.plain) h8
  have hmode1 := forall_of_forall₂ (fun _ _ h => h.deletes) h4
  have hmode2 := forall_of_forall₂ (fun _ _ h => h.deletes) h8
  have htop1 := forall_of_forall₂ (fun _ _ h => h.top) h4
  rw [report_rowChanges rfl, hrows, hedits]
  show c.replay zero false ((rows1 ++ rows2).map c.report) = _
  rw [replay_eq]
  · rw [List.map_map, List.map_append]
    have halike :
      List.Forall₂ (Edit.Alike c.Wide) (rows1.map (RowChange.edit c.names zero ∘ c.report) ++
        rows2.map (RowChange.edit c.names zero ∘ c.report)) _ :=
      List.rel_append (List.forall₂_map_left_iff.mpr (h4.imp fun _ _ h => h.alike))
        (List.forall₂_map_left_iff.mpr (h8.imp fun _ _ h => h.alike))
    rw [Edit.run_alike halike]
    rw [Zipper.items_atEnd]
    exact local_wide
  · intro change hchange
    obtain ⟨x, hx, rfl⟩ := List.mem_map.mp hchange
    exact (List.mem_append.mp hx).elim (hplain1 x) (hplain2 x)
  · -- a context row is among the changes before the deletions
    intro pre change post heq hmode _
    refine ⟨?_, rfl⟩
    obtain ⟨pre', rest, hsplit, hpre, hrest⟩ := List.map_eq_append_iff.mp heq
    obtain ⟨x, post', hsplit', hx, -⟩ := List.map_eq_cons_iff.mp hrest
    have hxmode : x.mode = .context := by
      rw [← hx] at hmode
      exact hmode
    have hxmem : x ∉ rows2 := fun hmem => by
      have := (hmode2 x hmem).mpr rfl
      rw [hxmode] at this
      cases this
    have hfirst : ∀ y ∈ pre', y ∈ rows1 := by
      rw [hsplit'] at hsplit
      rcases List.append_eq_append_iff.mp hsplit with ⟨a, -, hrows2⟩ | ⟨a, hrows1, -⟩
      · exact absurd (by rw [hrows2]; simp) hxmem
      · intro y hy
        rw [hrows1]
        exact List.mem_append_left _ hy
    have hx1 : x ∈ rows1 := by
      have : x ∈ rows1 ++ rows2 := by
        rw [hsplit, hsplit']
        simp
      exact (List.mem_append.mp this).resolve_right hxmem
    have hlen := Edit.length_run_le (pre.map (RowChange.edit c.names zero)) (fun e he => by
      obtain ⟨d, hd, rfl⟩ := List.mem_map.mp he
      rw [← hpre] at hd
      obtain ⟨y, hy, rfl⟩ := List.mem_map.mp hd
      refine edit_ne_delete fun hdel => ?_
      exact Bool.noConfusion ((hmode1 y (hfirst y hy)).mp hdel)) (Zipper.atEnd c.locals.rows)
    have hpos := htop1 x hx1 hxmode
    intro hnil
    rw [hnil, Zipper.items_atEnd] at hlen
    exact absurd hlen (by
      show ¬c.locals.height ≤ 0
      omega)

end Comparison

end Coopy
