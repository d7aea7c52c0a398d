import Coopy.FilePatcher
import Coopy.SearchedReplay
import Coopy.SqlDiffReplay

/-!
# From local to remote by a file

The difference of two tables, printed as a table diff, read from its file and applied to the table
of local, leaves the rows of the remote, in whatever order, exactly if no remote row that stands in
front of a changed local row has the same texts in the columns that are indexed or assigned.  A row
that is deleted is looked for by all its cells, so it is never mistaken.

    merge → MergeOutputCsvDiff → encode → readSheet → applyCsv → a patcher at local
      → rows are a permutation of the remote's ↔ none mistaken                      (csv_replay_iff)
-/

namespace Coopy

open Lib Merger

open CsvDiff (Decoded Emitted Heard RowReport Written matched readCond readVal rowColumns)
open CsvPatch (known known_begins)
open CsvSheet (Kept)
open CsvSheetReaderState (readSheet)

/-! ## What is read, as an edit -/

namespace RowChange

variable {names : List String} {m m' : AssocMap String SheetCell}

theorem agrees_congr (h : ∀ n ∈ names, m.get? n = m'.get? n) :
    agrees names m = agrees names m' := by
  funext row
  unfold agrees
  rw [Bool.eq_iff_iff, List.all_eq_true, List.all_eq_true]
  refine forall₂_congr fun e he => ?_
  rw [h e.1 (List.of_mem_zip he).1]

theorem patched_congr (h : ∀ n ∈ names, m.get? n = m'.get? n) :
    patched names m = patched names m' := by
  funext row
  unfold patched
  induction names generalizing row with
  | nil => rfl
  | cons n names ih =>
    cases row with
    | nil => rfl
    | cons cell row =>
      rw [List.zipWith_cons_cons, List.zipWith_cons_cons, h n List.mem_cons_self,
        ih (fun k hk => h k (List.mem_cons_of_mem _ hk)) row]

/-- An edit is known from what the conditions and the values say of the columns. -/
theorem edit_congr {x y : RowChange} (hmode : x.mode = y.mode) (hcontext : x.mode ≠ .context)
    (hcond : ∀ n ∈ names, x.cond.get? n = y.cond.get? n)
    (hval : ∀ n ∈ names, x.val.get? n = y.val.get? n)
    (zero : SheetCell) : x.edit names zero = y.edit names zero := by
  unfold edit
  rw [← hmode, agrees_congr hcond, patched_congr hval]
  cases hm : x.mode <;> first | rfl | exact absurd hm hcontext

end RowChange

namespace CsvDiff

variable {names : List String} {r r' : RowChange}

theorem known_names (hblank : "" ∉ names) : known names = names :=
  List.takeWhile_eq_self_iff.2 fun _ hn => decide_eq_true fun he => hblank (he ▸ hn)

theorem known_rowColumns (hblank : "" ∉ names) : known (rowColumns names r) = rowColumns names r :=
  known_names fun hin => hblank (List.mem_filter.1 hin).1

/-- The conditions that are read are on columns of the table. -/
theorem Decoded.cond_names (hd : Decoded names r r') : ∀ n ∈ r'.cond.keys, n ∈ names := by
  intro n hn
  by_contra hnot
  have hnone : readCond names r n = none := by
    have hrow : n ∉ known (rowColumns names r) :=
      fun hin => hnot (List.mem_filter.1 ((known_begins _).subset hin)).1
    unfold readCond
    split
    · rfl
    · rw [if_neg fun hin => hnot ((known_begins _).subset hin)]
    · rw [if_neg fun hin => hrow hin.1]
  rw [← hd.cond n] at hnone
  exact AssocMap.get?_eq_none_iff.1 hnone hn

/-- A row that is read is one that the patcher reads as it stands. -/
theorem Decoded.plain (hd : Decoded names r r') (hh : Heard names r') : r'.Plain names :=
  ⟨hh.allNames, hh.sequential, hh.unconflicted, hh.cond_nodup, hd.cond_names, hh.val_nodup⟩

/-- An inserted row with values for all columns. -/
theorem Decoded.edit_insert (hd : Decoded names r r') (hblank : "" ∉ names)
    (hmode : r.mode = .insert)
    (hcond : r.cond = []) (hval : ∀ n ∈ names, (r.val.get? n).isSome) (zero : SheetCell) :
    r'.edit names zero = r.edit names zero := by
  refine RowChange.edit_congr hd.mode (by rw [hd.mode, hmode]; decide) (fun n _ => ?_)
    (fun n hn => ?_) zero
  · rw [hd.cond, hcond]
    unfold readCond
    rw [hmode]
    rfl
  · obtain ⟨c, hc⟩ := Option.isSome_iff_exists.1 (hval n hn)
    rw [hd.val]
    unfold readVal
    rw [hmode, known_names hblank]
    simp only [if_pos hn, hc, Option.getD_some]

/-- A deleted row with conditions on all columns. -/
theorem Decoded.edit_delete (hd : Decoded names r r') (hblank : "" ∉ names)
    (hmode : r.mode = .delete)
    (hval : r.val = []) (hcond : ∀ n ∈ names, (r.cond.get? n).isSome) (zero : SheetCell) :
    r'.edit names zero = r.edit names zero := by
  refine RowChange.edit_congr hd.mode (by rw [hd.mode, hmode]; decide) (fun n hn => ?_)
    (fun n _ => ?_) zero
  · obtain ⟨c, hc⟩ := Option.isSome_iff_exists.1 (hcond n hn)
    rw [hd.cond]
    unfold readCond
    rw [hmode, known_names hblank]
    simp only [if_pos hn, hc, Option.getD_some]
  · rw [hd.val, hval]
    unfold readVal
    rw [hmode]
    rfl

/-- An updated row has the conditions that are kept of it. -/
theorem Decoded.edit_update (hd : Decoded names r r') (hblank : "" ∉ names)
    (hmode : r.mode = .update) (zero : SheetCell) :
    r'.edit names zero = r.cutCond.edit names zero := by
  have hcolumn : ∀ n ∈ names, n ∈ known (rowColumns names r) ↔ matched r n = true ∨
    r.val.contains n = true := by
    intro n hn
    rw [known_rowColumns hblank]
    unfold rowColumns
    rw [List.mem_filter, Bool.or_eq_true, and_iff_right hn]
  refine RowChange.edit_congr (y := r.cutCond) hd.mode (by rw [hd.mode, hmode]; decide)
    (fun n hn => ?_)
    (fun n hn => ?_) zero
  · have hcut : r.cutCond.cond.get? n =
        if decide (r.indexes.get? n = some true) || r.val.contains n then r.cond.get? n else none :=
      AssocMap.get?_filter _ (fun n => decide (r.indexes.get? n = some true) || r.val.contains n) n
    have hread : r'.cond.get? n = if matched r n then r.cond.get? n else none := by
      rw [hd.cond]
      unfold readCond
      rw [hmode]
      simp only [hcolumn n hn]
      by_cases hm : matched r n = true
      · rw [if_pos ⟨Or.inl hm, hm⟩, if_pos hm]
      · rw [if_neg fun h => hm h.2, if_neg hm]
    rw [hread, hcut]
    cases hc : r.cond.get? n with
    | none => rw [ite_self, ite_self]
    | some c =>
      have hm : matched r n = (decide (r.indexes.get? n = some true) || r.val.contains n) := by
        unfold matched AssocMap.holds AssocMap.contains
        rw [hc]
        cases r.indexes.get? n with
        | none => simp
        | some b => cases b <;> simp
      rw [hm]
  · show r'.val.get? n = r.val.get? n
    rw [hd.val]
    unfold readVal
    rw [hmode]
    simp only [hcolumn n hn]
    split
    · rfl
    · next hnot => exact (get?_of_not_contains fun hc => hnot (Or.inr hc)).symm

end CsvDiff

namespace Comparison

variable {c : Comparison} {assumeHeader : Bool} {sheetName : String}

/-! ## What is printed -/

/-- The texts of the two tables come back from a file, and every column has a name. -/
structure Filed (c : Comparison) (sheetName : String) : Prop where
  sheet : Kept (textField sheetName)
  named : "" ∉ c.names
  names : ∀ n ∈ c.names, Kept (textField n)
  cells : ∀ row ∈ c.locals.rows ++ c.remote.rows, ∀ cell ∈ row, Kept cell

/-- What is entered from a row comes back. -/
theorem Filed.entered (h : c.Filed sheetName) {f : Nat → Option SheetCell}
    {m : AssocMap String SheetCell}
    (hm : Entered c f m) {row : List SheetCell} (hrow : row ∈ c.locals.rows ++ c.remote.rows)
    (hlen : row.length = c.names.length)
    (hf : ∀ i < c.names.length, ∀ cell, f i = some cell → cell = row.getD i SheetCell.null) :
    ∀ e ∈ m, Kept e.2 := by
  intro e he
  obtain ⟨i, hi, hn⟩ := List.mem_iff_getElem.1 (hm.names e.1 (List.mem_map_of_mem he))
  have hget := hm.get i hi
  rw [hn, AssocMap.get?_of_mem hm.nodup he] at hget
  have hcell := hf i hi e.2 hget.symm
  rw [List.getD_eq_getElem _ _ (by omega)] at hcell
  exact h.cells row hrow e.2 (hcell ▸ List.getElem_mem _)

/-- What a unit has to say comes back. -/
theorem Filed.change_cells (h : c.Filed sheetName) {u : MatchUnit} (hu : c.IsUnit u) :
    ∀ e ∈ (c.change false assumeHeader u).cond ++ (c.change false assumeHeader u).val,
    Kept e.2 := by
  have hcond : ∀ {u : MatchUnit} {l : Nat}, u.localUnit = l → l < c.locals.height →
      ∀ e ∈ (c.change false assumeHeader u).cond, Kept e.2 := fun hl hlt =>
    h.entered (cond_local hl) (local_mem hlt) (local_length hlt) fun _ _ _ hcell =>
      (Option.some.inj hcell).symm
  intro e he
  cases hu with
  | @pair l r hf =>
    rcases List.mem_append.1 he with he | he
    · exact hcond rfl (fwd_lt hf).1 e he
    · refine h.entered (val_pair l r).1 (remote_mem (fwd_lt hf).2) (remote_length (fwd_lt hf).2)
        (fun i _ cell hcell => ?_) e he
      split at hcell
      · cases hcell
      · exact (Option.some.inj hcell).symm
  | @insert r hr hb =>
    rw [cond_insert, List.nil_append] at he
    exact h.entered (val_insert hr).1 (remote_mem hr) (remote_length hr)
      (fun _ _ _ hcell => (Option.some.inj hcell).symm) e he
  | @delete l hl hf =>
    rw [(val_delete l).1, List.append_nil] at he
    exact hcond rfl hl e he

theorem isSome_entered {f : Nat → Option SheetCell} {m : AssocMap String SheetCell}
    (hm : Entered c f m)
    (hf : ∀ i < c.names.length, (f i).isSome) : ∀ n ∈ c.names, (m.get? n).isSome := by
  intro n hn
  obtain ⟨i, hi, rfl⟩ := List.mem_iff_getElem.1 hn
  rw [hm.get i hi]
  exact hf i hi

theorem val_names {u : MatchUnit} (hu : c.IsUnit u) :
    ∀ n ∈ (c.change false assumeHeader u).val.keys, n ∈ c.names := by
  cases hu with
  | @pair l r hf => exact (val_pair l r).1.names
  | @insert r hr hb => exact (val_insert hr).1.names
  | @delete l hl hf =>
    rw [(val_delete l).1]
    exact fun n hn => absurd hn List.not_mem_nil

theorem noNul_of_kept {cell : SheetCell} (h : Kept cell) : '\x00' ∉ cell.text.toList :=
  CsvDiff.Kept.noNul h

/-- A row of the merge is one that a table diff writes. -/
theorem Filed.emitted (h : c.Filed sheetName) {u : MatchUnit} (hu : c.IsUnit u) {x : RowChange}
    (hx : x ∈ c.unitChanges assumeHeader u) : Emitted c.names x ∧ Written c.names x := by
  have hcells := @Filed.change_cells c assumeHeader sheetName h u hu
  have hfirst : ∃ n, n ∈ c.names := ⟨_, List.getElem_mem c.names_length_pos⟩
  have hplain : ∀ mode, (c.reported false assumeHeader mode u).Plain c.names :=
    fun mode => reported_plain hu mode
  have hval := @val_names c assumeHeader u hu
  have hindexed :
    ∀ n ∈ (c.change false assumeHeader u).cond.keys, n ∈ (c.indexes false assumeHeader).keys := by
    intro n hn
    obtain ⟨i, hi, rfl⟩ := List.mem_iff_getElem.1 ((hplain .update).cond_names n hn)
    by_contra hnot
    have hget := @indexes_get c false assumeHeader i hi
    rw [AssocMap.get?_eq_none_iff.2 hnot] at hget
    cases hget
  have hemitted : ∀ {mode : RowChangeMode}, mode ≠ .none →
    (mode = .insert → (c.change false assumeHeader u).cond = []) →
      (mode = .delete → (c.change false assumeHeader u).val = []) →
      Emitted c.names (c.reported false assumeHeader mode u) := fun hmode hins hdel =>
    ⟨hmode, (hplain _).unconflicted, Or.inl rfl, (hplain _).cond_names, hval, hins, hdel, hindexed,
      fun e he => noNul_of_kept (hcells e he)⟩
  cases hu with
  | @pair l r hf =>
    rw [unitChanges_pair hf] at hx
    split at hx
    · cases hx
    · next hne =>
      rw [List.mem_singleton.1 hx]
      refine ⟨hemitted (by decide) nofun nofun,
        ⟨show RowChangeMode.update ≠ .none by decide, rfl, nofun, ?_, hcells⟩⟩
      obtain ⟨e, he⟩ := List.exists_mem_of_ne_nil _
        (@val_ne_nil c assumeHeader l r (fwd_lt hf).1 (fwd_lt hf).2 hne)
      refine ⟨e.1, hval e.1 (List.mem_map_of_mem he), Or.inr (Or.inr (Or.inr ?_))⟩
      obtain ⟨cell, hcell⟩ := AssocMap.get?_isSome_of_mem he
      show ((c.change false assumeHeader (pairUnit l r)).val.get? e.1).isSome = true
      rw [hcell]
      rfl
  | @insert r hr hb =>
    rw [unitChanges_insert] at hx
    rw [List.mem_singleton.1 hx]
    obtain ⟨n, hn⟩ := hfirst
    exact ⟨hemitted (by decide) (fun _ => cond_insert r) nofun,
      ⟨show RowChangeMode.insert ≠ .none by decide, rfl, nofun, ⟨n, hn, Or.inl rfl⟩, hcells⟩⟩
  | @delete l hl hf =>
    rw [unitChanges_delete] at hx
    rw [List.mem_singleton.1 hx]
    obtain ⟨n, hn⟩ := hfirst
    exact ⟨hemitted (by decide) nofun fun _ => (val_delete l).1,
      ⟨show RowChangeMode.delete ≠
        .none by decide, rfl, nofun, ⟨n, hn, Or.inr (Or.inl rfl)⟩, hcells⟩⟩

/-- What the merge reports. -/
def Filed.report (h : c.Filed sheetName) (assumeHeader : Bool) : RowReport where
  sheetName
  names := c.names
  declared := [⟨false, true, c.names⟩, ⟨true, true, c.names⟩]
  rows := (c.units false).flatMap (c.unitChanges assumeHeader)
  distinct := c.names_nodup
  cStrings := fun n hn => noNul_of_kept (h.names n hn)
  declaredNames := List.forall_mem_cons.2 ⟨rfl, List.forall_mem_singleton.2 rfl⟩
  emitted := fun r hr => by
    obtain ⟨u, hu, hx⟩ := List.mem_flatMap.1 hr
    exact (h.emitted (c.isUnit_of_mem hu) hx).1

theorem Filed.report_filed (h : c.Filed sheetName) (assumeHeader : Bool) :
    CsvDiff.Filed (h.report assumeHeader) where
  named := h.named
  sheet := h.sheet
  names := h.names
  declares := List.cons_ne_nil _ _
  constant := List.forall_mem_cons.2 ⟨rfl, List.forall_mem_singleton.2 rfl⟩
  written := fun r hr => by
    obtain ⟨u, hu, hx⟩ := List.mem_flatMap.1 hr
    exact (h.emitted (c.isUnit_of_mem hu) hx).2

/-! ## How rows are found -/

/-- The search for a local row by what a table diff says of it: all cells if it is deleted, and
those in the indexed and assigned columns if it is updated. -/
def diffSearch (c : Comparison) (l : Nat) (row : List SheetCell) : Bool :=
  match c.rows.fwd l with
  | none => isRow (c.locals.row l) row
  | some _ => c.looksLike l row

/-- No row that stands in front of an updated row looks like it. -/
def UpdatesFound (c : Comparison) : Prop :=
  ∀ l s, c.rows.fwd l = some s → c.locals.row l ≠ c.remote.row s →
    ∀ r < c.remote.height, c.StandsBefore l r → c.looksLike l (c.remote.row r) = false

theorem diffSearch_none {l : Nat} (h : c.rows.fwd l = none) :
    c.diffSearch l = isRow (c.locals.row l) := by
  funext row
  unfold diffSearch
  rw [h]

theorem diffSearch_some {l s : Nat} (h : c.rows.fwd l = some s) :
    c.diffSearch l = c.looksLike l := by
  funext row
  unfold diffSearch
  rw [h]

theorem searches_diffSearch : c.Searches c.diffSearch where
  self := fun l _ => by
    cases hf : c.rows.fwd l with
    | none => rw [diffSearch_none hf, isRow_self]
    | some s => rw [diffSearch_some hf, looksLike_self]
  other := fun l hl j hj hne => by
    cases hf : c.rows.fwd l with
    | none =>
      rw [diffSearch_none hf]
      refine decide_eq_false fun he => hne ?_
      rw [c.locals.row_eq_getElem hl, c.locals.row_eq_getElem hj] at he
      exact c.local_nodup.getElem_inj_iff.1 he
    | some s =>
      rw [diffSearch_some hf]
      exact looksLike_other hl hj hne

/-- A row that is deleted is never mistaken. -/
theorem noneMistaken_iff : c.NoneMistaken c.diffSearch ↔ c.UpdatesFound := by
  constructor
  · intro h l s hf hne r hr hst
    have hch : c.Changed l :=
      ⟨(fwd_lt hf).1, fun r' hr' => by rw [← Option.some.inj (hf.symm.trans hr')]; exact hne⟩
    rw [← diffSearch_some hf]
    exact h l hch r hr hst
  · intro h l hch r hr hst
    cases hf : c.rows.fwd l with
    | none =>
      rw [diffSearch_none hf]
      exact decide_eq_false (hch.ne hr)
    | some s =>
      rw [diffSearch_some hf]
      exact h l s hf (hch.2 s hf) r hr hst

/-! ## The edits that are read -/

/-- What is read of the rows of a unit does what the search says. -/
theorem Filed.reads_unit (h : c.Filed sheetName) {u : MatchUnit} (hu : c.IsUnit u)
    (zero : SheetCell) : List.Forall₂ (fun x e => ∀ x', Decoded c.names x x' →
      Edit.Alike c.Wide (x'.edit c.names zero) e)
      (c.unitChanges assumeHeader u) (c.searchEdits c.diffSearch assumeHeader u) := by
  cases hu with
  | @pair l r hf =>
    have halike := @cutChanges_alike c assumeHeader zero _ (IsUnit.pair hf)
    rw [unitChanges_pair hf, cutEdits_pair] at halike
    rw [unitChanges_pair hf, searchEdits_pair, diffSearch_some hf]
    split
    · exact .nil
    · next hne =>
      rw [if_neg hne, if_neg hne] at halike
      refine .cons (fun x' hd => ?_) .nil
      rw [hd.edit_update h.named rfl]
      exact (List.forall₂_cons.1 halike).1
  | @insert r hr hb =>
    rw [unitChanges_insert, searchEdits_insert]
    refine .cons (fun x' hd => ?_) .nil
    rw [hd.edit_insert h.named rfl (cond_insert r) (isSome_entered (val_insert hr).1 fun _ _ =>
      rfl)]
    exact alike_insert hr
  | @delete l hl hf =>
    rw [unitChanges_delete, searchEdits_delete, diffSearch_none hf]
    refine .cons (fun x' hd => ?_) .nil
    rw [hd.edit_delete h.named rfl (val_delete l).1 (isSome_entered (cond_local rfl) fun _ _ =>
      rfl)]
    exact alike_delete hl

theorem forall₂_through {α β γ : Type} {R : α → β → Prop} {S : β → γ → Prop} {T : α → γ → Prop}
    (hcomp : ∀ a c, T a c → ∀ b, R a b → S b c) {as : List α} {bs : List β} {cs : List γ}
    (hR : List.Forall₂ R as bs) : List.Forall₂ T as cs → List.Forall₂ S bs cs := by
  induction hR generalizing cs with
  | nil =>
    intro hT
    cases hT
    exact .nil
  | cons hab _ ih =>
    intro hT
    cases hT with
    | cons hac htail => exact .cons (hcomp _ _ hac _ hab) (ih htail)

theorem Filed.reads_all (h : c.Filed sheetName) {rows : List RowChange}
    (hd : List.Forall₂ (Decoded c.names) ((c.units false).flatMap (c.unitChanges assumeHeader))
      rows) (zero : SheetCell) :
    List.Forall₂ (Edit.Alike c.Wide) (rows.map (RowChange.edit c.names zero))
      ((c.units false).flatMap (c.searchEdits c.diffSearch assumeHeader)) := by
  have hunits := forall₂_flatMap (c.units false) fun u hu =>
    @Filed.reads_unit c assumeHeader sheetName h u (c.isUnit_of_mem hu) zero
  rw [List.forall₂_map_left_iff]
  exact forall₂_through (fun _ _ hT _ hR => hT _ hR) hd hunits

/-! ## The whole way -/

/-- **From local to remote by a table diff.**  The merge of two tables is printed as a table diff;
the file is read, and the calls that are made are made on a patcher at the table of local.  Its rows
are then those of the remote exactly if no row is taken for an updated one. -/
theorem csv_replay_iff (c : Comparison) {sheetName : String} (h : c.Filed sheetName)
    (assumeHeader : Bool) (zero : SheetCell) (suggest : TypedSheet SheetCell → List String)
    (hsuggest : suggest ⟨c.locals.rows, c.names.length, zero⟩ = c.names) :
    ∃ r sheet sheet' calls b, merge (c.state false assumeHeader) = .ok r ∧
      MergeOutputCsvDiff.run sheetName r.events = some sheet ∧
      readSheet sheet.encode = some sheet' ∧ applyCsv {} sheet' = some calls ∧
      calls.foldlM (FilePatcher.call suggest)
        (FilePatcher.createForApply ⟨c.locals.rows, c.names.length, zero⟩ assumeHeader) = some b ∧
      (b.patcher.sheet.arr.Perm c.remote.rows ↔ c.UpdatesFound) := by
  obtain ⟨r, hr, hevents⟩ := c.events_unordered assumeHeader
  obtain ⟨sheet, sheet', rows, hsheet, hread, hcalls, hrows⟩ :=
    (h.report_filed assumeHeader).read_encode {}
  -- no flag keeps a row away
  have hall : ((h.report assumeHeader).rows.filter fun r => CsvDiff.allows {} r.mode) =
      (c.units false).flatMap (c.unitChanges assumeHeader) := List.filter_eq_self.2 fun r _ => by
        cases r.mode <;> rfl
  rw [hall] at hrows
  have hdecoded := hrows.imp fun _ _ hboth => hboth.1
  have hmem :
    ∀ r' ∈ rows, ∃ x ∈ (c.units false).flatMap (c.unitChanges assumeHeader), Decoded c.names x r' ∧
      Heard c.names r' := by
    intro r' hr'
    obtain ⟨i, hi, rfl⟩ := List.mem_iff_getElem.1 hr'
    have hi' := hi
    rw [← hrows.length_eq] at hi'
    exact ⟨_, List.getElem_mem hi', hrows.get hi' hi⟩
  have hplain : ∀ r' ∈ rows, r'.Plain c.names ∧ r'.mode ≠ .context := by
    intro r' hr'
    obtain ⟨x, hx, hd, hh⟩ := hmem r' hr'
    obtain ⟨u, -, hx⟩ := List.mem_flatMap.1 hx
    exact ⟨hd.plain hh, hd.mode ▸ (mode_unitChanges hx).1⟩
  obtain ⟨b, hb, harr⟩ :=
    FilePatcher.run_spoken c.names_nodup c.usable hsuggest rfl local_wide assumeHeader
      (!(h.report assumeHeader).rows.isEmpty) sheetName (fun r' hr' => (hplain r' hr').1)
      (fun r' hr' => (hplain r' hr').2)
  refine ⟨r, sheet, sheet', _, b, hr, ?_, hread, hcalls, hb, ?_⟩
  · rw [hevents]
    exact hsheet
  · rw [harr,
      Edit.run_alike (h.reads_all hdecoded zero) (by rw [Zipper.items_atEnd]; exact local_wide),
      c.searched_perm_iff searches_diffSearch, noneMistaken_iff]

theorem filed_addedTwo : addedTwo.Filed "sheet" := by
  refine ⟨by decide, by decide, by decide, ?_⟩
  decide

/-- The deletion of `2 b`, by all its cells, does not take `2 z`, which was put in before. -/
theorem csv_replay_addedTwo : ∃ r sheet sheet' calls b, merge (addedTwo.state false false) = .ok r ∧
    MergeOutputCsvDiff.run "sheet" r.events = some sheet ∧ readSheet sheet.encode = some sheet' ∧
    applyCsv {} sheet' = some calls ∧
    calls.foldlM (FilePatcher.call fun _ => addedTwo.names)
      (FilePatcher.createForApply ⟨addedTwo.locals.rows, addedTwo.names.length,
        SheetCell.null⟩ false) = some b ∧
    b.patcher.sheet.arr.Perm addedTwo.remote.rows := by
  obtain ⟨r, sheet, sheet', calls, b, hr, hsheet, hread, hcalls, hb, hiff⟩ :=
    addedTwo.csv_replay_iff filed_addedTwo false SheetCell.null (fun _ => addedTwo.names) rfl
  refine ⟨r, sheet, sheet', calls, b, hr, hsheet, hread, hcalls, hb,
    hiff.2 fun l s hf hne r hr hst => ?_⟩
  -- only the first row is updated
  have hfirst : l = 0 := by
    have hl := (fwd_lt hf).1
    have hpairs : ∀ l < addedTwo.locals.height, ∀ s < addedTwo.remote.height,
      addedTwo.rows.fwd l = some s →
        addedTwo.locals.row l ≠ addedTwo.remote.row s → l = 0 := by decide
    exact hpairs l hl s (fwd_lt hf).2 hf hne
  subst hfirst
  rcases hst with ⟨l₀, hlt, -⟩ | ⟨-, -, l₀, hlt, -⟩ <;> exact absurd hlt (Nat.not_lt_zero _)

end Comparison

end Coopy
