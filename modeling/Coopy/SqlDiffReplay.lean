import Coopy.IndexedReplay
import Coopy.SqlDiffRun

/-!
# A difference of two tables, as a script

The script that is printed for the difference of two tables is run on a table of a database with the
rows of local. What it ends with is the table of remote, up to the order of the rows.

    a unit of the comparison → its statement is about one row, and makes the remote row of it
                                                                                        (meets_unit)
-/

namespace Coopy

open Lib Merger MergeOutputSqlDiff SheetPatcher

namespace Comparison

variable {c : Comparison} {assumeHeader : Bool} {o : MergeOutputSqlDiff} {reserved : String → Bool}

/-! ## What comes through -/

/-- All names and texts of the two tables come through. -/
structure Writable (c : Comparison) (o : MergeOutputSqlDiff) (reserved : String → Bool) : Prop where
  sheet : Readable o.variant reserved o.sheetName
  names : ∀ n ∈ c.names, Readable o.variant reserved n
  cells : ∀ row ∈ c.locals.rows ++ c.remote.rows, ∀ cell ∈ row, Clean cell

theorem Writable.printable (h : c.Writable o reserved) {f : Nat → Option SheetCell}
    {m : AssocMap String SheetCell}
    (hm : Entered c f m) {row : List SheetCell} (hrow : row ∈ c.locals.rows ++ c.remote.rows)
    (hlen : row.length = c.names.length)
    (hf : ∀ i < c.names.length, ∀ cell, f i = some cell → cell = row.getD i SheetCell.null) :
    Printable o.variant reserved m := by
  intro e he
  have hin : e.1 ∈ c.names := hm.names e.1 (List.mem_map_of_mem he)
  obtain ⟨i, hi, hn⟩ := List.mem_iff_getElem.1 hin
  have hget := hm.get i hi
  rw [hn, AssocMap.get?_of_mem hm.nodup he] at hget
  refine ⟨h.names e.1 hin, h.cells row hrow _ ?_⟩
  rw [hf i hi e.2 hget.symm, List.getD_eq_getElem _ _ (by omega)]
  exact List.getElem_mem _

theorem local_mem {l : Nat} (hl : l < c.locals.height) :
    c.locals.row l ∈ c.locals.rows ++ c.remote.rows := by
  rw [c.locals.row_eq_getElem hl]
  exact List.mem_append_left _ (List.getElem_mem hl)

theorem remote_mem {r : Nat} (hr : r < c.remote.height) :
    c.remote.row r ∈ c.locals.rows ++ c.remote.rows := by
  rw [c.remote.row_eq_getElem hr]
  exact List.mem_append_right _ (List.getElem_mem hr)

theorem Writable.cond (h : c.Writable o reserved) {u : MatchUnit} {l : Nat} (hu : u.localUnit = l)
    (hl : l < c.locals.height) :
    Printable o.variant reserved (c.change false assumeHeader u).cond :=
  h.printable (cond_local hu) (local_mem hl) (local_length hl) fun _ _ _ hcell =>
    (Option.some.inj hcell).symm

/-! ## The row of a condition -/

theorem Changed.notMem {l : Nat} (h : c.Changed l) : c.locals.row l ∉ c.remote.rows := by
  intro hin
  obtain ⟨r, hr, heq⟩ := List.mem_iff_getElem.1 hin
  rw [← c.remote.row_eq_getElem hr] at heq
  exact h.ne hr heq

/-- The condition of a local row is true of one row. -/
theorem singlesOut {u : MatchUnit} {l : Nat} (hu : u.localUnit = l) (hl : l < c.locals.height)
    {mode : RowChangeMode} {rows done todo : List (List SheetCell)}
    (hwide : ∀ row ∈ rows, c.Wide row)
    (hrows : rows.Perm (done ++ c.locals.row l :: todo)) (hdone : c.locals.row l ∉ done)
    (htodo : c.locals.row l ∉ todo) :
    RowChange.SinglesOut c.names (c.reported false assumeHeader mode u) rows := by
  refine Or.inr ⟨?_, fun e he => ?_⟩
  · unfold RowChange.found
    have hagrees :
      ∀ row ∈ rows, RowChange.agrees c.names (c.reported false assumeHeader mode u).cond row =
      true ↔
        (row == c.locals.row l) = true := by
      intro row hrow
      rw [show RowChange.agrees c.names (c.reported false assumeHeader mode u).cond row =
        isRow (c.locals.row l) row from
        agrees_cond hu hl (hwide row hrow), beq_iff_eq]
      exact decide_eq_true_iff
    rw [List.countP_congr hagrees]
    show rows.count (c.locals.row l) = 1
    rw [hrows.count_eq, List.count_append, List.count_cons_self,
      List.count_eq_zero_of_not_mem hdone, List.count_eq_zero_of_not_mem htodo]
  · have hcond : Entered c _ (c.change false assumeHeader u).cond := cond_local hu
    obtain ⟨i, hi, hn⟩ := List.mem_iff_getElem.1 (hcond.names e.1 (List.mem_map_of_mem he))
    have hget := hcond.get i hi
    rw [hn, AssocMap.get?_of_mem hcond.nodup he] at hget
    have hcell : e.2 = (c.locals.row l).getD i SheetCell.null := Option.some.inj hget
    have hlen := @local_length c l hl
    have htext : e.2.escaped = false := by
      rw [hcell, List.getD_eq_getElem _ _ (by omega)]
      refine c.local_text _ ?_ _ (List.getElem_mem _)
      rw [c.locals.row_eq_getElem hl]
      exact List.getElem_mem hl
    unfold RowChange.sqlValue
    rw [htext]
    simp

/-! ## A unit -/

/-- What is known of the patcher when the units `us` are still to come. -/
structure Within (c : Comparison) (p : SheetPatcher) (done : List (List SheetCell))
    (us : List MatchUnit) : Prop where
  standing : Standing p c.names
  rows : p.sheet.arr.Perm (done ++ us.filterMap c.oldRow?)
  done : ∀ row ∈ done, row ∈ c.remote.rows
  nodup : (us.filterMap c.oldRow?).Nodup

theorem Within.wide {p : SheetPatcher} {done : List (List SheetCell)} {us : List MatchUnit}
    (h : c.Within p done us) : ∀ row ∈ p.sheet.arr, c.Wide row := h.standing.poised.rect

theorem val_ne_nil {l r : Nat} (hl : l < c.locals.height) (hr : r < c.remote.height)
    (h : c.locals.row l ≠ c.remote.row r) :
    (c.change false assumeHeader (pairUnit l r)).val ≠ [] := mt (val_eq_nil_iff hl hr).1 h

/-- The change of a unit meets its conditions. -/
theorem Writable.meets (hw : c.Writable o reserved) {p : SheetPatcher}
    {done : List (List SheetCell)} {u : MatchUnit}
    {us : List MatchUnit} (h : c.Within p done (u :: us)) (hu : c.IsUnit u) :
    ∀ x ∈ c.unitChanges assumeHeader u, p.MeetsRow o reserved x := by
  have hnames := h.standing.poised.names_eq
  -- a local row that is looked for is among the rows that are still to come, and it is the only one
  have hlone : ∀ {l : Nat} (mode : RowChangeMode), u.localUnit = l →
    c.oldRow? u = some (c.locals.row l) → c.Changed l →
      RowChange.SinglesOut c.names (c.reported false assumeHeader mode u) p.sheet.arr := by
    intro l mode hl hold hch
    have hrows := h.rows
    have hnodup := h.nodup
    rw [List.filterMap_cons_some hold] at hrows hnodup
    exact singlesOut hl hch.1 h.wide hrows (fun hin => hch.notMem (h.done _ hin))
      (List.nodup_cons.1 hnodup).1
  intro x hx
  have hplain : x.Plain c.names := by
    obtain ⟨mode, rfl, -⟩ := mem_unitChanges hx
    exact reported_plain hu mode
  unfold MeetsRow
  rw [hnames]
  refine ⟨hplain, ?_⟩
  cases hu with
  | @pair l r hf =>
    obtain ⟨hl, hr⟩ := fwd_lt hf
    rw [unitChanges_pair hf] at hx
    split at hx
    · cases hx
    · next hne =>
      rw [List.mem_singleton.1 hx]
      have hch : c.Changed l := ⟨hl, fun r' hr' => by
        rw [← Option.some.inj (hf.symm.trans hr')]
        exact hne⟩
      have hval := (@val_pair c false assumeHeader l r).1
      refine ⟨⟨hw.printable hval (remote_mem hr) (remote_length hr) fun i _ cell hcell => ?_,
        val_ne_nil hl hr hne, hval.names⟩,
        hw.cond rfl hl, cond_ne_nil rfl, hlone .update rfl (rows_pair l r).1 hch⟩
      split at hcell
      · cases hcell
      · exact (Option.some.inj hcell).symm
  | @insert r hr hb =>
    rw [unitChanges_insert] at hx
    rw [List.mem_singleton.1 hx]
    have hval := (@val_insert c false assumeHeader r hr).1
    have hkeys :
      ∀ n ∈ c.names, n ∈ (c.change false assumeHeader (OrderMerge.insertUnit r)).val.keys := by
      intro n hn
      obtain ⟨i, hi, rfl⟩ := List.mem_iff_getElem.1 hn
      by_contra hnot
      have hget := hval.get i hi
      rw [AssocMap.get?_eq_none_iff.2 hnot] at hget
      cases hget
    refine ⟨hw.printable hval (remote_mem hr) (remote_length hr) fun _ _ _ hcell =>
      (Option.some.inj hcell).symm, ?_, hval.names, Or.inr hkeys⟩
    intro hnil
    have hkey := hkeys _ (List.getElem_mem c.names_length_pos)
    rw [show (c.change false assumeHeader (OrderMerge.insertUnit r)).val = [] from hnil] at hkey
    cases hkey
  | @delete l hl hf =>
    rw [unitChanges_delete] at hx
    rw [List.mem_singleton.1 hx]
    exact ⟨hw.cond rfl hl, cond_ne_nil rfl,
      hlone .delete rfl (rows_delete l).1 (changed_of_none hl hf)⟩

theorem unitChanges_cases (assumeHeader : Bool) (u : MatchUnit) :
    c.unitChanges assumeHeader u = [] ∨ ∃ x, c.unitChanges assumeHeader u = [x] := by
  unfold unitChanges unorderedRow
  split
  · exact Or.inr ⟨_, rfl⟩
  split
  · split
    · exact Or.inr ⟨_, rfl⟩
    · exact Or.inl rfl
  · split
    · exact Or.inr ⟨_, rfl⟩
    · exact Or.inl rfl

theorem filterMap_cons_toList {α β : Type} (f : α → Option β) (a : α) (as : List α) :
    (a :: as).filterMap f = (f a).toList ++ as.filterMap f := by
  rw [List.filterMap_cons]
  cases f a <;> rfl

/-- The rows when the edits of a unit are made. -/
theorem Within.edited {p : SheetPatcher} {done : List (List SheetCell)} {u : MatchUnit}
    {us : List MatchUnit}
    (h : c.Within p done (u :: us)) (hu : c.IsUnit u) {z : Zipper (List SheetCell)}
    (hz : z.items = p.sheet.arr) :
    (Edit.run ((c.unitChanges assumeHeader u).map (RowChange.edit c.names p.sheet.zero))
      z).items.Perm
        ((done ++ (c.newRow? u).toList) ++ us.filterMap c.oldRow?) := by
  have hstart : z.items.Perm ((done ++ us.filterMap c.oldRow?) ++ [u].filterMap c.oldRow?) := by
    rw [hz, filterMap_cons_toList, List.filterMap_nil, List.append_nil, List.append_assoc]
    refine h.rows.trans (List.Perm.append_left done ?_)
    rw [filterMap_cons_toList]
    exact List.perm_append_comm
  have hend := run_unitEdits_perm [u] z _ hstart
  rw [List.flatMap_singleton, filterMap_cons_toList, List.filterMap_nil, List.append_nil,
    List.append_assoc] at hend
  rw [Edit.run_alike (unitChanges_alike hu) (by rw [hz]; exact h.wide), List.append_assoc]
  exact hend.trans (List.Perm.append_left done List.perm_append_comm)

theorem newRow_mem {u : MatchUnit} (hu : c.IsUnit u) :
    ∀ row ∈ (c.newRow? u).toList, row ∈ c.remote.rows := by
  have hmem : ∀ {r : Nat}, r < c.remote.height → ∀ row ∈ (some (c.remote.row r)).toList, row ∈
    c.remote.rows := by
    intro r hr row hrow
    obtain rfl : row = c.remote.row r := List.mem_singleton.1 hrow
    rw [c.remote.row_eq_getElem hr]
    exact List.getElem_mem hr
  cases hu with
  | @pair l r hf =>
    rw [(rows_pair l r).2]
    exact hmem (fwd_lt hf).2
  | @insert r hr hb =>
    rw [(rows_insert r).2]
    exact hmem hr
  | @delete l hl hf =>
    rw [(rows_delete l).2]
    exact fun row hrow => absurd hrow List.not_mem_nil

/-- **One unit.** -/
theorem Writable.run_unit (hw : c.Writable o reserved) {p : SheetPatcher}
    {done : List (List SheetCell)} {u : MatchUnit}
    {us : List MatchUnit} (h : c.Within p done (u :: us)) (hu : c.IsUnit u) :
    p.MeetsAll o reserved ((c.unitChanges assumeHeader u).map PatchEvent.changeRow) ∧
      ∃ q, ((c.unitChanges assumeHeader u).map PatchEvent.changeRow).foldlM applyEvent p = some q ∧
        c.Within q (done ++ (c.newRow? u).toList) us := by
  have hmeets := @Writable.meets c assumeHeader o reserved hw p done u us h hu
  have hdone : ∀ row ∈ done ++ (c.newRow? u).toList, row ∈ c.remote.rows := fun row hrow =>
    (List.mem_append.1 hrow).elim (h.done row) (newRow_mem hu row)
  have hnodup : (us.filterMap c.oldRow?).Nodup := by
    have hall := h.nodup
    rw [filterMap_cons_toList] at hall
    exact (List.nodup_append.1 hall).2.1
  rcases @unitChanges_cases c assumeHeader u with hnone | ⟨x, hx⟩
  · have hrows :=
      @Within.edited c assumeHeader p done u us h hu (Zipper.atEnd p.sheet.arr)
      (Zipper.items_atEnd _)
    rw [hnone, List.map_nil, Edit.run_nil, Zipper.items_atEnd] at hrows
    rw [hnone]
    exact ⟨trivial, p, rfl, h.standing, hrows, hdone, hnodup⟩
  · have hmeetsx := hmeets x (by rw [hx]; exact List.mem_singleton_self x)
    obtain ⟨hplain, htop⟩ : x.Plain c.names ∧ (x.mode = .context → x.cond = [] → p.HasTop) := by
      have hmode :=
        @mode_unitChanges c assumeHeader u x (by rw [hx]; exact List.mem_singleton_self x)
      unfold MeetsRow at hmeetsx
      rw [h.standing.poised.names_eq] at hmeetsx
      exact ⟨hmeetsx.1, fun hm => absurd hm hmode.1⟩
    obtain ⟨r, z, hr, hz, hstand, -, harr⟩ := h.standing.changeRow hplain htop
    have hrows := @Within.edited c assumeHeader p done u us h hu z hz
    rw [hx, List.map_singleton, Edit.run_cons, Edit.run_nil, ← harr] at hrows
    rw [hx]
    refine ⟨⟨hmeetsx, fun _ _ => trivial⟩, r.1, ?_, hstand, hrows, hdone, hnodup⟩
    show ((p.changeRow x).map fun r => r.1).bind _ = _
    rw [hr]
    rfl

/-- **The units of a comparison.** -/
theorem Writable.run_units (hw : c.Writable o reserved) (us : List MatchUnit)
    (hus : ∀ u ∈ us, c.IsUnit u) :
    ∀ {p : SheetPatcher} {done : List (List SheetCell)}, c.Within p done us →
      p.MeetsAll o reserved ((us.flatMap (c.unitChanges assumeHeader)).map PatchEvent.changeRow) ∧
        ∃ q, ((us.flatMap (c.unitChanges assumeHeader)).map PatchEvent.changeRow).foldlM applyEvent
        p = some q ∧
          c.Within q (done ++ us.filterMap c.newRow?) [] := by
  induction us with
  | nil =>
    intro p done h
    refine ⟨trivial, p, rfl, ?_⟩
    rw [List.filterMap_nil, List.append_nil]
    exact h
  | cons u us ih =>
    intro p done h
    obtain ⟨hmeets, q, hq, hwithin⟩ :=
      @Writable.run_unit c assumeHeader o reserved hw p done u us h (hus u List.mem_cons_self)
    obtain ⟨hmeets', q', hq', hwithin'⟩ :=
      ih (fun w hin => hus w (List.mem_cons_of_mem u hin)) hwithin
    rw [List.flatMap_cons, List.map_append, filterMap_cons_toList, ← List.append_assoc]
    refine ⟨meetsAll_append.2 ⟨hmeets, fun r hr => ?_⟩, q', ?_, hwithin'⟩
    · rw [hq] at hr
      rw [← Option.some.inj hr]
      exact hmeets'
    · rw [List.foldlM_append, hq]
      exact hq'

/-! ## The whole script -/

/-- The calls of the merge. -/
theorem events_unordered (c : Comparison) (assumeHeader : Bool) :
    ∃ r, merge (c.state false assumeHeader) = .ok r ∧
    r.events = .changeName ⟨false, true, c.names⟩ :: .changeName ⟨true, true, c.names⟩ ::
      (((c.units false).flatMap (c.unitChanges assumeHeader)).map PatchEvent.changeRow ++
        [.mergeDone]) := by
  obtain ⟨r, hr, hchanges⟩ := c.merge_unordered assumeHeader
  have hmerge := c.merge_eq false assumeHeader
  refine ⟨r, hr, ?_⟩
  rw [hr] at hmerge
  obtain rfl := Except.ok.inj hmerge
  rw [report_rowChanges rfl] at hchanges
  rw [← hchanges, List.map_map]
  rfl

/-- The rows of a table under the names. -/
def sqlTable (c : Comparison) (rows : List (List SheetCell)) : Sql.Table String String :=
  ⟨c.names, rows.map fun row => row.map RowChange.sqlValue⟩

/-- Local, as the sheet that is patched. -/
def localSheet (c : Comparison) (zero : SheetCell) : NamedSheet where
  sheet := ⟨c.locals.rows, c.names.length, zero⟩
  names := c.names
  nodup := c.names_nodup
  usable := c.usable
  width := rfl
  rect := local_wide

/-- **From local to remote by SQL.**  The merge of two tables prints a text that is read as a
script; and the script, run on the table of local, ends with that of remote, in whatever order the
rows are. -/
theorem sql_replay (c : Comparison) (assumeHeader : Bool) {o : MergeOutputSqlDiff}
    {reserved : String → Bool} (hw : c.Writable o reserved) :
    ∃ r text sts t, merge (c.state false assumeHeader) = .ok r ∧ o.printAll r.events = some text ∧
      (dialect o.variant reserved).script text = some sts ∧
      Sql.runScript o.sheetName sts (c.sqlTable c.locals.rows) = some t ∧
      Sql.Same t (c.sqlTable c.remote.rows) := by
  obtain ⟨r, hr, hevents⟩ := c.events_unordered assumeHeader
  -- no cell of the sheet is ever filled with `zero`
  obtain ⟨p, hattach, hstand, hsheet⟩ := (c.localSheet SheetCell.null).attach_standing
  have hname : ∀ {p : SheetPatcher} (change : NameChange), Standing p c.names →
    change.names = c.names →
      p.Meets o reserved (.changeName change) ∧ ∃ q, p.applyEvent (.changeName change) = some q ∧
        Standing q c.names ∧ q.sheet = p.sheet :=
    fun change hstand hnames => ⟨hnames.trans hstand.poised.names_eq.symm, hstand.changeName hnames⟩
  obtain ⟨hmeets1, p1, hp1, hstand1, hsheet1⟩ := hname ⟨false, true, c.names⟩ hstand rfl
  obtain ⟨hmeets2, p2, hp2, hstand2, hsheet2⟩ := hname ⟨true, true, c.names⟩ hstand1 rfl
  have hwithin : c.Within p2 [] (c.units false) := by
    refine ⟨hstand2, ?_, fun row hrow => absurd hrow List.not_mem_nil,
      c.oldRows_perm.nodup_iff.2 c.local_nodup⟩
    rw [hsheet2, hsheet1, hsheet]
    exact c.oldRows_perm.symm
  obtain ⟨hmeets3, q, hq, hend⟩ := @Writable.run_units c assumeHeader o reserved hw (c.units false)
    (fun u hu => c.isUnit_of_mem hu) p2 [] hwithin
  have hpatch : (c.localSheet SheetCell.null).patch r.events = some q := by
    unfold NamedSheet.patch
    rw [hattach, Option.bind_some, hevents, List.foldlM_cons, hp1, Option.bind_eq_bind,
      Option.bind_some, List.foldlM_cons, hp2,
      Option.bind_eq_bind, Option.bind_some, List.foldlM_append, hq]
    rfl
  have hmeets : (c.localSheet SheetCell.null).Meets o reserved r.events := by
    intro p' hp'
    obtain rfl : p = p' := Option.some.inj (hattach.symm.trans hp')
    rw [hevents]
    refine ⟨hmeets1, fun m hm => ?_⟩
    obtain rfl : p1 = m := Option.some.inj (hp1.symm.trans hm)
    refine ⟨hmeets2, fun m hm => ?_⟩
    obtain rfl : p2 = m := Option.some.inj (hp2.symm.trans hm)
    exact meetsAll_append.2 ⟨hmeets3, fun _ _ => ⟨trivial, fun _ _ => trivial⟩⟩
  obtain ⟨text, sts, t, htext, hscript, hrun, hsame⟩ :=
    (c.localSheet SheetCell.null).sql_mirrors hw.sheet hpatch hmeets
  have hrows : q.sheet.arr.Perm c.remote.rows := by
    have hperm := hend.rows
    rw [List.filterMap_nil, List.append_nil, List.nil_append] at hperm
    exact hperm.trans c.newRows_perm
  refine ⟨r, text, sts, t, hr, htext, hscript, hrun, hsame.trans ?_⟩
  rw [hend.standing.table_eq]
  exact Sql.Same.of_rows (hrows.map _)

theorem writable_addedTwo : addedTwo.Writable ⟨"parts", "access"⟩ fun n =>
    decide (n ∈ ["group", "order"]) := by
  have hclean : ∀ c : SheetCell, '\x00' ∉ c.text.toList → Clean c := fun c hc => Or.inr hc
  refine ⟨⟨by decide, by decide, by decide⟩, ?_, fun row hrow cell hcell => hclean cell ?_⟩
  · exact List.forall_mem_cons.2 ⟨⟨by decide, by decide, by decide⟩,
      List.forall_mem_singleton.2 ⟨by decide, by decide, by decide⟩⟩
  · have hall : ((addedTwo.locals.rows ++ addedTwo.remote.rows).all fun row =>
        row.all fun cell => !cell.text.toList.contains '\x00') = true := by decide
    have hcell := List.all_eq_true.1 (List.all_eq_true.1 hall row hrow) cell hcell
    simpa using hcell

/-- The script updates `1 a`, puts in `2 z`, and deletes `2 b`. -/
theorem sql_replay_addedTwo : ∃ r text sts t, merge (addedTwo.state false false) = .ok r ∧
    MergeOutputSqlDiff.printAll ⟨"parts", "access"⟩ r.events = some text ∧
    (dialect "access" fun n => decide (n ∈ ["group", "order"])).script text = some sts ∧
    Sql.runScript "parts" sts (addedTwo.sqlTable addedTwo.locals.rows) = some t ∧
    Sql.Same t (addedTwo.sqlTable addedTwo.remote.rows) :=
  addedTwo.sql_replay false writable_addedTwo

end Comparison

end Coopy
