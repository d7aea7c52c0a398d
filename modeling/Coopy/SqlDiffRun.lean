import Coopy.SqlDiffRows

/-!
# The statements do what the patcher does

A patcher and a table of a database are given the same changes, the patcher by calls and the table
by the statements that are printed for them.  Where each call meets its conditions in the state
before it, the two stay the same table: the same columns and the same rows, in whatever order.

    a call that meets its conditions → its statement makes the same table         (Standing.mirrors)
    each call of a run meets its conditions → the script makes the same table
                                                                              (Standing.mirrors_run)
-/

namespace Coopy

open Lib MergeOutputSqlDiff

namespace SheetPatcher

open RowChange

/-! ## The conditions -/

section
variable (o : MergeOutputSqlDiff) (reserved : String → Bool) (p : SheetPatcher)

/-- The statement of a column comes through, and does what the patcher does. -/
def MeetsColumn (change : OrderChange) : Prop :=
  match change.mode with
  | .delete =>
    ∃ c, nameIn change.namesBefore (change.identityToIndex change.subject) = some c ∧
      Readable o.variant reserved c ∧ 1 < p.names.length
  | .insert =>
    ∃ c, nameIn change.namesAfter (change.identityToIndexAfter change.subject) = some c ∧
      Readable o.variant reserved c ∧
      c ≠ "---" ∧ c ∉ p.names ∧ (p.sheet.zero.escaped = true ∨ p.sheet.arr = [])
  | .move => True
  -- the statement has the names the wrong way round
  | .rename => False

/-- The statement of a row comes through, and does what the patcher does. -/
def MeetsRow (change : RowChange) : Prop :=
  change.Plain p.names ∧
    match change.mode with
    | .insert =>
      Printable o.variant reserved change.val ∧ change.val ≠ [] ∧
        (∀ n ∈ change.val.keys, n ∈ p.names) ∧
        (p.sheet.zero.escaped = true ∨ ∀ n ∈ p.names, n ∈ change.val.keys)
    | .delete =>
      Printable o.variant reserved change.cond ∧ change.cond ≠ [] ∧
        SinglesOut p.names change p.sheet.arr
    | .update =>
      (Printable o.variant reserved change.val ∧ change.val ≠ [] ∧
        ∀ n ∈ change.val.keys, n ∈ p.names) ∧
        Printable o.variant reserved change.cond ∧ change.cond ≠ [] ∧
        SinglesOut p.names change p.sheet.arr
    | .move => change.val = [] ∨ found p.names change p.sheet.arr = 0
    | .context => change.cond = [] → p.HasTop
    | .none => True

def Meets : PatchEvent → Prop
  | .changeName change => change.names = p.names
  | .changeColumn change => p.MeetsColumn o reserved change
  | .changeRow change => p.MeetsRow o reserved change
  | .mergeDone => True

/-- What is printed for a call makes the same table as the patcher that the call leads to. -/
def Mirrors (e : PatchEvent) (q : SheetPatcher) : Prop :=
  ∃ sts, o.Prints reserved e sts ∧ ∀ t : Sql.Table String String, t.Proper → Sql.Same t p.table →
    ∃ t', Sql.runScript o.sheetName sts t = some t' ∧ t'.Proper ∧ Sql.Same t' q.table

end

section
variable {o : MergeOutputSqlDiff} {reserved : String → Bool} {p q : SheetPatcher}
    {names : List String} {e : PatchEvent}

theorem Mirrors.silent (hprints : o.Prints reserved e []) (h : Sql.Same p.table q.table) :
    p.Mirrors o reserved e q :=
  ⟨[], hprints, fun t ht hsame => ⟨t, rfl, ht, hsame.trans h⟩⟩

theorem Mirrors.statement {a : Sql.Action String String}
    (hprints : o.Prints reserved e [⟨o.sheetName, a⟩])
    (hp : p.table.Proper) (ha : a.Runs p.table.columns)
    (h : Sql.Same ⟨a.columnsAfter p.table.columns, a.rowsAfter p.table.columns p.table.rows⟩
      q.table) :
    p.Mirrors o reserved e q := by
  refine ⟨_, hprints, fun t ht hsame => ?_⟩
  obtain ⟨t', ht', hproper, hsame'⟩ := hsame.run ht hp ha h
  refine ⟨t', ?_, hproper, hsame'⟩
  unfold Sql.runScript Sql.Statement.run
  rw [List.foldlM_cons, if_pos rfl, ht']
  rfl

/-! ## Columns -/

theorem Standing.proper (h : Standing p names) : p.table.Proper := h.poised.proper h.knows.nodup

theorem Standing.mirrors_deleteCol (h : Standing p names)
    (hsheet : Readable o.variant reserved o.sheetName)
    {change : OrderChange} (hmode : change.mode = .delete)
    (hmeets : p.MeetsColumn o reserved change)
    {r : SheetPatcher × Bool} (hr : p.deleteCol change = some r) :
    (∃ names', Standing r.1 names') ∧ p.Mirrors o reserved (.changeColumn change) r.1 := by
  unfold MeetsColumn at hmeets
  rw [hmode] at hmeets
  obtain ⟨c, hc, hreadable, hmore⟩ := hmeets
  rw [h.poised.names_eq] at hmore
  obtain ⟨c', i, hc', hi, hstand, -, htable⟩ := h.poised.deleteCol hr
  obtain rfl : c' = c := Option.some.inj (hc'.symm.trans hc)
  obtain ⟨hlt, hat⟩ := List.getElem?_eq_some_iff.1 hi
  have hidx : names.idxOf c' = i := by
    rw [← hat]
    exact List.Nodup.idxOf_getElem h.knows.nodup i hlt
  refine ⟨⟨_, hstand h.knows.nodup h.usable⟩,
    Mirrors.statement (prints_dropColumn hsheet hreadable hmode hc) h.proper ?_ ?_⟩
  · show c' ∈ p.names ∧ 1 < p.names.length
    rw [h.poised.names_eq, ← hat]
    exact ⟨List.getElem_mem hlt, hmore⟩
  · rw [htable hmore]
    show Sql.Same ⟨p.names.erase c', p.table.rows.map fun row => row.eraseIdx (p.names.idxOf c')⟩ _
    rw [h.poised.names_eq, hidx, ← List.eraseIdx_idxOf_eq_erase, hidx]
    exact Sql.Same.refl _

theorem Standing.mirrors_insertCol (h : Standing p names)
    (hsheet : Readable o.variant reserved o.sheetName)
    {change : OrderChange} (hmode : change.mode = .insert)
    (hmeets : p.MeetsColumn o reserved change)
    {r : SheetPatcher × Bool} (hr : p.insertCol change = some r) :
    (∃ names', Standing r.1 names') ∧ p.Mirrors o reserved (.changeColumn change) r.1 := by
  unfold MeetsColumn at hmeets
  rw [hmode] at hmeets
  obtain ⟨c, hc, hreadable, husable, hfresh, hzero⟩ := hmeets
  rw [h.poised.names_eq] at hfresh
  obtain ⟨c', k, hc', hk, hstand, -, htable⟩ := h.poised.insertCol hr
  obtain rfl : c' = c := Option.some.inj (hc'.symm.trans hc)
  refine ⟨⟨_, hstand h.knows.nodup h.usable hfresh husable⟩,
    Mirrors.statement (prints_addColumn hsheet hreadable hmode hc) h.proper ?_ ?_⟩
  · show c' ∉ p.names
    rw [h.poised.names_eq]
    exact hfresh
  · rw [htable]
    have hrows : ∀ row ∈ p.table.rows, row.length = names.length := by
      have hrect := h.proper.rect
      rwa [show p.table.columns = names from h.poised.names_eq] at hrect
    show Sql.Same ⟨p.names ++ [c'], p.table.rows.map fun row => row ++ [none]⟩ _
    rw [h.poised.names_eq]
    refine ⟨(List.perm_append_singleton c' names).trans (List.perm_insertIdx c' names hk).symm,
      List.Perm.of_eq ?_⟩
    show (p.table.rows.map _).map _ = (p.table.rows.map _).map _
    rw [List.map_map, List.map_map]
    refine List.map_congr_left fun row hrow => funext fun n => ?_
    rcases hzero with hzero | hnone
    · have hnull : sqlValue p.sheet.zero = none := if_pos hzero
      simp only [Function.comp_apply]
      rw [hnull, Sql.under_snoc (hrows row hrow),
        Sql.under_insertIdx h.knows.nodup (hrows row hrow) hfresh hk]
    · rw [show p.table.rows = p.sheet.arr.map _ from rfl, hnone] at hrow
      cases hrow

theorem Standing.same_moveCol (h : Standing p names) {change : OrderChange}
    {r : SheetPatcher × Bool} (hr : p.moveCol change = some r) : (∃ names', Standing r.1 names') ∧
    Sql.Same p.table r.1.table := by
  obtain ⟨order, horder, hstand, -, htable⟩ := h.poised.moveCol hr
  refine ⟨⟨_, hstand h.knows.nodup h.usable⟩, ?_⟩
  have hcols : p.table.columns = names := h.poised.names_eq
  rw [htable]
  refine ⟨?_, List.Perm.of_eq ?_⟩
  · rw [hcols]
    exact (map_getD_perm _ horder rfl).symm
  · show p.table.rows.map _ = (p.table.rows.map _).map _
    rw [List.map_map]
    refine List.map_congr_left fun row hrow => funext fun n => ?_
    have hlen : row.length = names.length :=
      (h.proper.rect row hrow).trans (congrArg List.length hcols)
    rw [hcols]
    refine (Sql.under_perm h.knows.nodup hlen ?_).symm
    have hzip :
      (order.map fun j => names.getD j p.activeCol.zero).zip
        (order.map fun j => row.getD j (sqlValue p.sheet.zero)) =
        order.map fun j => (names.zip row).getD j (p.activeCol.zero, sqlValue p.sheet.zero) := by
      rw [List.zip_map']
      refine List.map_congr_left fun j hj => ?_
      have hlt : j < names.length := List.mem_range.1 (horder.mem_iff.1 hj)
      rw [List.getD_eq_getElem _ _ hlt, List.getD_eq_getElem _ _ (by omega),
        List.getD_eq_getElem _ _ (by rw [List.length_zip]; omega), List.getElem_zip]
    rw [hzip]
    exact map_getD_perm _ horder (by rw [List.length_zip, hlen, Nat.min_self])

/-- **A change of the columns.** -/
theorem Standing.mirrors_changeColumn (h : Standing p names)
    (hsheet : Readable o.variant reserved o.sheetName)
    {change : OrderChange} (hmeets : p.MeetsColumn o reserved change) {r : SheetPatcher × Bool}
    (hr : p.changeColumn change = some r) :
    (∃ names', Standing r.1 names') ∧ p.Mirrors o reserved (.changeColumn change) r.1 := by
  unfold SheetPatcher.changeColumn at hr
  cases hm : change.mode with
  | delete =>
    rw [hm] at hr
    exact h.mirrors_deleteCol hsheet hm hmeets hr
  | insert =>
    rw [hm] at hr
    exact h.mirrors_insertCol hsheet hm hmeets hr
  | move =>
    rw [hm] at hr
    obtain ⟨hstand, hsame⟩ := h.same_moveCol hr
    exact ⟨hstand, Mirrors.silent (prints_moveColumn hm) hsame⟩
  | rename =>
    unfold MeetsColumn at hmeets
    rw [hm] at hmeets
    exact hmeets.elim

/-! ## Names -/

theorem Standing.changeName (h : Standing p names) {change : NameChange}
    (hnames : change.names = names) :
    ∃ q, p.changeName change = some q ∧ Standing q names ∧ q.sheet = p.sheet := by
  unfold SheetPatcher.changeName
  rw [hnames]
  split
  · have hcell : ∀ i < names.length, names.getD i "" = p.activeCol.cell i 0 := by
      intro i hi
      unfold TypedSheet.cell
      rw [h.poised.active.1, List.getD_eq_getElem names "" hi]
      exact (List.getD_eq_getElem _ _ hi).symm
    have hfold : ∀ ks : List Nat, (∀ k ∈ ks, k < names.length) →
        ks.foldlM (fun (p : SheetPatcher) i =>
          let name := names.getD i ""
          let found := p.activeCol.cell i 0
          if name = found ∨ name.toList.head? = some '[' then some p
          else
            (p.matchCol name).bind fun idx =>
              (p.matchCol found).bind fun idx1 => (p.moveColumn idx idx1).map fun r => r.1) p =
                some p := by
      intro ks
      induction ks with
      | nil => exact fun _ => rfl
      | cons k ks ih =>
        intro hks
        rw [List.foldlM_cons, if_pos (Or.inl (hcell k (hks k List.mem_cons_self)))]
        exact ih fun j hj => hks j (List.mem_cons_of_mem _ hj)
    unfold redeclareNames TypedSheet.width
    rw [if_neg (not_not_intro h.poised.width.symm), hfold _ fun k hk => List.mem_range.1 hk,
      Option.bind_some, updateCols_eq h.poised.active h.poised.width]
    have hknows := updateCols_knows h.knows.nodup h.usable h.poised.active h.poised.no_synonyms.2
    exact ⟨_, rfl,
      ⟨⟨h.poised.active, h.poised.no_synonyms, h.poised.width, h.poised.rect, h.poised.cursor,
      h.poised.unmarked, h.poised.schema, h.poised.header⟩, h.usable, hknows⟩, rfl⟩
  · exact h.declare

/-! ## Rows -/

theorem Standing.table_eq (h : Standing p names) :
    p.table = ⟨names, p.sheet.arr.map fun row => row.map sqlValue⟩ :=
  h.poised.table_eq

theorem Standing.same_rows (h : Standing p names) (hq : Standing q names)
    (hrows : p.sheet.arr.Perm q.sheet.arr) : Sql.Same p.table q.table := by
  rw [h.table_eq, hq.table_eq]
  exact Sql.Same.of_rows (hrows.map _)

/-- The values of the row that is put in. -/
theorem row_inserted {change : RowChange} (hval : change.val.keys.Nodup) {zero : SheetCell}
    (hfull : zero.escaped = true ∨ ∀ n ∈ names, n ∈ change.val.keys) :
    (names.map fun n =>
      (AssocMap.get? ((sqlEntries change.val).keys.zip ((sqlEntries change.val).map Prod.snd))
        n).join) =
      (patched names change.val (List.replicate names.length zero)).map sqlValue := by
  have hzip : (sqlEntries change.val).keys.zip ((sqlEntries change.val).map Prod.snd) =
    sqlEntries change.val := by
    unfold AssocMap.keys
    rw [List.zip_map']
    exact List.map_id _
  rw [hzip, map_patched hval, List.map_replicate]
  unfold Sql.write
  refine List.ext_getElem (by simp) fun i h1 h2 => ?_
  have hi : i < names.length := by rwa [List.length_map] at h1
  rw [List.getElem_map, List.getElem_zipWith, List.getElem_replicate, get?_sqlEntries hval]
  rcases hfull with hzero | hall
  · rw [show sqlValue zero = none from if_pos hzero]
    cases AssocMap.get? change.val names[i] with
    | none => rfl
    | some d => rfl
  · obtain ⟨d, hd⟩ : ∃ d, change.val.get? names[i] = some d :=
      Option.ne_none_iff_exists'.1 fun hnone =>
      AssocMap.get?_eq_none_iff.1 hnone (hall _ (List.getElem_mem hi))
    rw [hd]
    rfl

theorem Standing.mirrors_insert (h : Standing p names)
    (hsheet : Readable o.variant reserved o.sheetName)
    {change : RowChange} (hmode : change.mode = .insert) (hplain : change.Plain names)
    (hval : Printable o.variant reserved change.val) (hne : change.val ≠ [])
    (hnames : ∀ n ∈ change.val.keys, n ∈ names)
    (hfull : p.sheet.zero.escaped = true ∨ ∀ n ∈ names, n ∈ change.val.keys) (hq : Standing q names)
    {z : Zipper (List SheetCell)} (hz : z.items = p.sheet.arr)
    (hrows : q.sheet.arr = ((change.edit names p.sheet.zero).apply z).items) :
    p.Mirrors o reserved (.changeRow change) q := by
  refine Mirrors.statement (prints_insert hsheet hmode hval hne) h.proper ?_ ?_
  · rw [h.table_eq]
    refine ⟨?_, fun n hn => hnames n ((keys_sqlEntries change.val).mem_iff.1 hn)⟩
    unfold AssocMap.keys
    rw [List.length_map, List.length_map]
  · rw [hq.table_eq, h.table_eq]
    refine Sql.Same.of_rows ?_
    show List.Perm (p.sheet.arr.map _ ++ [names.map _]) _
    rw [row_inserted hplain.val_nodup hfull, hrows]
    unfold RowChange.edit
    rw [hmode]
    show List.Perm _ ((z.before ++ [_] ++ z.after).map _)
    rw [← hz, List.append_assoc, List.singleton_append]
    refine (List.perm_append_singleton _ _).trans (List.Perm.trans ?_ (List.perm_middle.symm.map _))
    rw [List.map_cons]
    rfl

theorem Standing.mirrors_delete (h : Standing p names)
    (hsheet : Readable o.variant reserved o.sheetName)
    {change : RowChange} (hmode : change.mode = .delete) (hplain : change.Plain names)
    (hcond : Printable o.variant reserved change.cond) (hne : change.cond ≠ [])
    (hout : SinglesOut names change p.sheet.arr) (hq : Standing q names)
    {z : Zipper (List SheetCell)} (hz : z.items = p.sheet.arr)
    (hrows : q.sheet.arr = ((change.edit names p.sheet.zero).apply z).items) :
    p.Mirrors o reserved (.changeRow change) q := by
  refine Mirrors.statement (prints_delete hsheet hmode hcond hne) h.proper ?_ ?_
  · rw [h.table_eq]
    exact fun n hn => hplain.cond_names n ((keys_sqlEntries change.cond).mem_iff.1 hn)
  · unfold RowChange.edit at hrows
    rw [hmode] at hrows
    rw [hq.table_eq, h.table_eq, hrows]
    refine Sql.Same.of_rows (List.Perm.of_eq ?_)
    show (p.sheet.arr.map _).filter _ = _
    rw [Edit.items_delete (by rw [hz]; exact hout.found_le), hz, List.filter_map]
    refine congrArg _ (List.filter_congr fun row hrow => ?_)
    have hholds := hout.holds_iff hplain h.knows.nodup (h.poised.rect row hrow) hrow
    simp only [Function.comp_apply, hholds, ne_eq, decide_not, Bool.decide_eq_true]

theorem Standing.mirrors_update (h : Standing p names)
    (hsheet : Readable o.variant reserved o.sheetName)
    {change : RowChange} (hmode : change.mode = .update) (hplain : change.Plain names)
    (hval : Printable o.variant reserved change.val) (hvne : change.val ≠ [])
    (hnames : ∀ n ∈ change.val.keys, n ∈ names)
    (hcond : Printable o.variant reserved change.cond) (hcne : change.cond ≠ [])
    (hout : SinglesOut names change p.sheet.arr) (hq : Standing q names)
    {z : Zipper (List SheetCell)} (hz : z.items = p.sheet.arr)
    (hrows : q.sheet.arr = ((change.edit names p.sheet.zero).apply z).items) :
    p.Mirrors o reserved (.changeRow change) q := by
  refine Mirrors.statement (prints_update hsheet hmode hval hvne hcond hcne) h.proper ?_ ?_
  · rw [h.table_eq]
    exact ⟨fun n hn => hnames n ((keys_sqlEntries change.val).mem_iff.1 hn),
      fun n hn => hplain.cond_names n ((keys_sqlEntries change.cond).mem_iff.1 hn)⟩
  · unfold RowChange.edit at hrows
    rw [hmode] at hrows
    rw [hq.table_eq, h.table_eq, hrows]
    refine Sql.Same.of_rows (List.Perm.of_eq ?_)
    show (p.sheet.arr.map _).map _ = _
    rw [Edit.items_update _ (by rw [hz]; exact hout.found_le), hz, List.map_map, List.map_map]
    refine List.map_congr_left fun row hrow => ?_
    have hholds := hout.holds_iff hplain h.knows.nodup (h.poised.rect row hrow) hrow
    simp only [Function.comp_apply, hholds]
    split
    · exact (map_patched hplain.val_nodup names row).symm
    · rfl

/-- **A change of a row.** -/
theorem Standing.mirrors_changeRow (h : Standing p names)
    (hsheet : Readable o.variant reserved o.sheetName)
    {change : RowChange} (hmeets : p.MeetsRow o reserved change) :
    ∃ r, p.changeRow change = some r ∧ Standing r.1 names ∧
    p.Mirrors o reserved (.changeRow change) r.1 := by
  unfold MeetsRow at hmeets
  rw [h.poised.names_eq] at hmeets
  obtain ⟨hplain, hmode⟩ := hmeets
  have htop : change.mode = .context → change.cond = [] → p.HasTop := fun hm => by
    rw [hm] at hmode
    exact hmode
  obtain ⟨r, z, hr, hz, hq, -, hrows⟩ := h.changeRow hplain htop
  refine ⟨r, hr, hq, ?_⟩
  have hstays : p.sheet.arr.Perm r.1.sheet.arr →
    (change.mode = .move ∨ change.mode = .context ∨ change.mode = .none) →
      p.Mirrors o reserved (.changeRow change) r.1 :=
    fun hperm hm => Mirrors.silent (prints_nothing hm) (h.same_rows hq hperm)
  cases hm : change.mode with
  | insert =>
    rw [hm] at hmode
    obtain ⟨hval, hne, hnames, hfull⟩ := hmode
    exact h.mirrors_insert hsheet hm hplain hval hne hnames hfull hq hz hrows
  | delete =>
    rw [hm] at hmode
    obtain ⟨hcond, hne, hout⟩ := hmode
    exact h.mirrors_delete hsheet hm hplain hcond hne hout hq hz hrows
  | update =>
    rw [hm] at hmode
    obtain ⟨⟨hval, hvne, hnames⟩, hcond, hcne, hout⟩ := hmode
    exact h.mirrors_update hsheet hm hplain hval hvne hnames hcond hcne hout hq hz hrows
  | move =>
    refine hstays ?_ (Or.inl hm)
    rw [hm] at hmode
    unfold RowChange.edit at hrows
    rw [hm] at hrows
    rw [hrows, ← hz]
    refine (Edit.items_move_perm ?_).symm
    rcases hmode with hval | hnone
    · refine Or.inl fun row hrow => ?_
      rw [hz] at hrow
      rw [hval]
      unfold patched
      refine List.ext_getElem (by rw [List.length_zipWith, h.poised.rect row hrow, Nat.min_self])
        fun i h1 h2 => ?_
      rw [List.getElem_zipWith]
      rfl
    · rw [hz]
      exact Or.inr hnone
  | context =>
    refine hstays ?_ (Or.inr (Or.inl hm))
    unfold RowChange.edit at hrows
    rw [hm] at hrows
    change _ =
      ((if change.cond = [] then Edit.top else Edit.seek (agrees names change.cond)).apply
        z).items at hrows
    rw [hrows, ← hz]
    split
    · rfl
    · rw [Edit.items_seek]
  | none =>
    refine hstays ?_ (Or.inr (Or.inr hm))
    unfold RowChange.edit at hrows
    rw [hm] at hrows
    rw [hrows, ← hz, Edit.items_seek]

/-! ## A run -/

/-- **One call.** -/
theorem Standing.mirrors (h : Standing p names) (hsheet : Readable o.variant reserved o.sheetName)
    (hmeets : p.Meets o reserved e) (hq : p.applyEvent e = some q) :
    (∃ names', Standing q names') ∧ p.Mirrors o reserved e q := by
  cases e with
  | changeName change =>
    obtain ⟨q', hq', hstand, hsame⟩ := h.changeName (hmeets.trans h.poised.names_eq)
    obtain rfl : q' = q := Option.some.inj (hq'.symm.trans hq)
    exact ⟨⟨names, hstand⟩, Mirrors.silent (Prints.silent rfl) (h.same_rows hstand (by rw [hsame]))⟩
  | changeColumn change =>
    obtain ⟨r, hr, rfl⟩ := Option.map_eq_some_iff.1 hq
    exact h.mirrors_changeColumn hsheet hmeets hr
  | changeRow change =>
    obtain ⟨r, hr, hstand, hmirrors⟩ := h.mirrors_changeRow hsheet hmeets
    obtain ⟨r', hr', rfl⟩ := Option.map_eq_some_iff.1 hq
    obtain rfl : r = r' := Option.some.inj (hr.symm.trans hr')
    exact ⟨⟨names, hstand⟩, hmirrors⟩
  | mergeDone =>
    obtain rfl : p = q := Option.some.inj hq
    exact ⟨⟨names, h⟩, Mirrors.silent (Prints.silent rfl) (Sql.Same.refl _)⟩

end

/-- Each call meets its conditions in the state before it. -/
def MeetsAll (o : MergeOutputSqlDiff) (reserved : String → Bool) : SheetPatcher →
    List PatchEvent → Prop
  | _, [] => True
  | p, e :: es => p.Meets o reserved e ∧ ∀ q, p.applyEvent e = some q → MeetsAll o reserved q es

theorem meetsAll_append {o : MergeOutputSqlDiff} {reserved : String → Bool}
    {es es' : List PatchEvent} : ∀ {p : SheetPatcher}, p.MeetsAll o reserved (es ++ es') ↔
      p.MeetsAll o reserved es ∧ ∀ q, es.foldlM applyEvent p = some q →
      q.MeetsAll o reserved es' := by
  induction es with
  | nil =>
    intro p
    refine ⟨fun h => ⟨trivial, fun q hq => ?_⟩, fun h => h.2 p rfl⟩
    rw [← Option.some.inj hq]
    exact h
  | cons e es ih =>
    intro p
    rw [List.cons_append]
    constructor
    · rintro ⟨hmeets, h⟩
      refine ⟨⟨hmeets, fun m hm => (ih.1 (h m hm)).1⟩, fun q hq => ?_⟩
      rw [List.foldlM_cons] at hq
      obtain ⟨m, hm, hq⟩ := Option.bind_eq_some_iff.1 hq
      exact (ih.1 (h m hm)).2 q hq
    · rintro ⟨⟨hmeets, h⟩, hrest⟩
      refine ⟨hmeets, fun m hm => ih.2 ⟨h m hm, fun q hq => hrest q ?_⟩⟩
      rw [List.foldlM_cons, hm]
      exact hq

theorem runScript_append (n : String) (sts sts' : List (Sql.Statement String String))
    (t : Sql.Table String String) :
    Sql.runScript n (sts ++ sts') t = (Sql.runScript n sts t).bind (Sql.runScript n sts') :=
  List.foldlM_append

/-- **A run.**  The script and the patcher end with the same table. -/
theorem Standing.mirrors_run {o : MergeOutputSqlDiff} {reserved : String → Bool}
    (hsheet : Readable o.variant reserved o.sheetName) :
    ∀ {es : List PatchEvent} {p q : SheetPatcher} {names : List String},
    Standing p names → p.MeetsAll o reserved es → es.foldlM applyEvent p = some q →
    ∃ sts, o.PrintsAll reserved es sts ∧ ∀ t : Sql.Table String String, t.Proper →
    Sql.Same t p.table →
      ∃ t', Sql.runScript o.sheetName sts t = some t' ∧ Sql.Same t' q.table := by
  intro es
  induction es with
  | nil =>
    intro p q names _ _ hq
    obtain rfl : p = q := Option.some.inj hq
    exact ⟨[], PrintsAll.nil, fun t _ hsame => ⟨t, rfl, hsame⟩⟩
  | cons e es ih =>
    intro p q names h hmeets hq
    rw [List.foldlM_cons] at hq
    obtain ⟨m, hm, hq⟩ := Option.bind_eq_some_iff.1 hq
    obtain ⟨⟨names', hstand⟩, sts, hprints, hsts⟩ := h.mirrors hsheet hmeets.1 hm
    obtain ⟨sts', hprints', hsts'⟩ := ih hstand (hmeets.2 m hm) hq
    refine ⟨sts ++ sts', PrintsAll.cons hprints hprints', fun t ht hsame => ?_⟩
    obtain ⟨t1, ht1, hproper, hsame1⟩ := hsts t ht hsame
    obtain ⟨t2, ht2, hsame2⟩ := hsts' t1 hproper hsame1
    refine ⟨t2, ?_, hsame2⟩
    rw [runScript_append, ht1]
    exact ht2

end SheetPatcher

/-- A sheet with a name for each of its columns. -/
structure NamedSheet where
  sheet : TypedSheet SheetCell
  names : List String
  nodup : names.Nodup
  usable : "---" ∉ names
  width : sheet.w = names.length
  rect : ∀ row ∈ sheet.arr, row.length = names.length

namespace NamedSheet

variable (s : NamedSheet)

def table : Sql.Table String String :=
  ⟨s.names, s.sheet.arr.map fun row => row.map RowChange.sqlValue⟩

/-- The calls made on a patcher that is set to the sheet and takes no row of it for a header. -/
def patch (es : List PatchEvent) : Option SheetPatcher :=
  (SheetPatcher.attach s.sheet s.names false).bind (es.foldlM SheetPatcher.applyEvent)

/-- Each call meets its conditions in the state before it. -/
def Meets (o : MergeOutputSqlDiff) (reserved : String → Bool) (es : List PatchEvent) : Prop :=
  ∀ p, SheetPatcher.attach s.sheet s.names false = some p → p.MeetsAll o reserved es

theorem attach_standing : ∃ p, SheetPatcher.attach s.sheet s.names false = some p ∧
    SheetPatcher.Standing p s.names ∧ p.sheet = s.sheet := by
  obtain ⟨p, hp, hfol, -⟩ := SheetPatcher.attach_follows s.nodup s.usable s.width s.rect false
  have hfields : p.syn2name = [] ∧ p.sheet = s.sheet := by
    unfold SheetPatcher.attach at hp
    rw [SheetPatcher.updateCols_eq ⟨rfl, rfl⟩ s.width] at hp
    cases hp
    exact ⟨rfl, rfl⟩
  exact ⟨p, hp, hfol.standing hfields.1, hfields.2⟩

/-- **What the statements do is what the patcher does.**  For calls that meet their conditions the
text that is printed is read as a script; and the script, run on the table of the sheet, ends with
the table of the patcher. -/
theorem sql_mirrors {o : MergeOutputSqlDiff} {reserved : String → Bool}
    (hsheet : Readable o.variant reserved o.sheetName)
    {es : List PatchEvent} {p : SheetPatcher} (hp : s.patch es = some p)
    (hmeets : s.Meets o reserved es) :
    ∃ text sts t, o.printAll es = some text ∧ (dialect o.variant reserved).script text = some sts ∧
      Sql.runScript o.sheetName sts s.table = some t ∧ Sql.Same t p.table := by
  obtain ⟨p0, hattach, hstand, hsame⟩ := s.attach_standing
  unfold patch at hp
  rw [hattach, Option.bind_some] at hp
  obtain ⟨sts, hprints, hsts⟩ := hstand.mirrors_run hsheet (hmeets p0 hattach) hp
  obtain ⟨text, htext, hscript⟩ := hprints.script
  have htable : s.table = p0.table := by
    rw [hstand.table_eq, hsame]
    rfl
  obtain ⟨t, ht, hend⟩ := hsts s.table (htable ▸ hstand.proper) (htable ▸ Sql.Same.refl _)
  exact ⟨text, sts, t, htext, hscript, ht, hend⟩

/-- Two columns and two rows. -/
def bridges : NamedSheet where
  sheet :=
    ⟨[[⟨"1", false⟩, ⟨"Brooklyn", false⟩], [⟨"2", false⟩, ⟨"Bronx", false⟩]], 2, SheetCell.null⟩
  names := ["id", "the name"]
  nodup := by decide
  usable := by decide
  width := rfl
  rect := by decide

/-- A new column, a row updated, and another one deleted. -/
def bridgeCalls : List PatchEvent :=
  [.changeColumn
      { indicesBefore := [0, 1], namesBefore := ["id", "the name"], indicesAfter := [0, 1, -2],
        namesAfter := ["id", "the name", "length"], subject := -2, mode := .insert },
    .changeRow
      { mode := .update, cond := [("id", ⟨"1", false⟩)], val := [("the name", ⟨"Queen's", false⟩)],
        allNames := ["id", "the name", "length"] },
    .changeRow
      { mode := .delete, cond := [("id", ⟨"2", false⟩)], allNames := ["id", "the name", "length"] }]

theorem readable_bridges : Readable "" (fun _ => false) "bridges" ∧
    Readable "" (fun _ => false) "id" ∧
    Readable "" (fun _ => false) "the name" ∧ Readable "" (fun _ => false) "length" :=
  ⟨⟨by decide, by decide, by decide⟩, ⟨by decide, by decide, by decide⟩,
    ⟨by decide, by decide, by decide⟩, ⟨by decide, by decide, by decide⟩⟩

theorem meets_bridges : bridges.Meets ⟨"bridges", ""⟩ (fun _ => false) bridgeCalls := by
  obtain ⟨-, hid, hname, hlength⟩ := readable_bridges
  have hclean : ∀ s : String, '\x00' ∉ s.toList → Clean ⟨s, false⟩ := fun s hs => Or.inr hs
  intro p hp
  obtain rfl := Option.some.inj hp
  refine ⟨⟨"length", rfl, hlength, by decide, by decide, Or.inl rfl⟩, fun q hq => ?_⟩
  obtain rfl := Option.some.inj hq
  refine ⟨⟨⟨rfl, rfl, rfl, by decide, by decide, by decide⟩, ⟨?_, by decide, by decide⟩,
    ?_, by decide, Or.inr ⟨rfl, ?_⟩⟩, fun q hq => ?_⟩
  · exact List.forall_mem_singleton.2 ⟨hname, hclean _ (by decide)⟩
  · exact List.forall_mem_singleton.2 ⟨hid, hclean _ (by decide)⟩
  · exact List.forall_mem_singleton.2 (by decide)
  obtain rfl := Option.some.inj hq
  refine ⟨⟨⟨rfl, rfl, rfl, by decide, by decide, by decide⟩, ?_, by decide, Or.inr ⟨rfl, ?_⟩⟩,
    fun q hq => trivial⟩
  · exact List.forall_mem_singleton.2 ⟨hid, hclean _ (by decide)⟩
  · exact List.forall_mem_singleton.2 (by decide)

/-- `ALTER TABLE bridges ADD COLUMN length`, `UPDATE bridges SET "the name"='Queen''s' WHERE
id='1'`, and `DELETE FROM bridges WHERE id='2'` do what the patcher does. -/
theorem sql_mirrors_bridges : ∃ p text sts t, bridges.patch bridgeCalls = some p ∧
    MergeOutputSqlDiff.printAll ⟨"bridges", ""⟩ bridgeCalls = some text ∧
    (dialect "" fun _ => false).script text = some sts ∧
    Sql.runScript "bridges" sts bridges.table = some t ∧ Sql.Same t p.table := by
  obtain ⟨p, hp⟩ : ∃ p, bridges.patch bridgeCalls = some p := ⟨_, rfl⟩
  obtain ⟨text, sts, t, h⟩ :=
    bridges.sql_mirrors (o := ⟨"bridges", ""⟩) readable_bridges.1 hp meets_bridges
  exact ⟨p, text, sts, t, hp, h⟩

end NamedSheet

end Coopy
