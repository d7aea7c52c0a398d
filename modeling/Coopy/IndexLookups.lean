import Coopy.RowMerge
import Coopy.TdiffText

/-!
# Index lookups

For a column with a condition the outputs ask whether it is an index, and do not look whether the
map has an entry for it.  A merge fills the map with the names local starts with, but its conditions
are under the names the columns end with; the reader of a tdiff fills it for the columns with an
equals sign alone.

    a change of a merge finds its entries  ↔ it is of no local row,
      or each column that is kept ends with a
                                             name of local, and some index is left
                                                                          (mergeChanges_indexed_iff)
    the changes of a tdiff find theirs     ↔ each condition is on a column with an equals sign
                                                                           (lineChanges_indexed_iff)
-/

namespace Coopy

open Lib

namespace RowChange

variable (change : RowChange)

/-- Every column with a condition has an entry, so that `condActive &&
change.indexes.find(name)->second` never reads at the end of the map. -/
def Indexed : Prop := ∀ name ∈ change.cond.keys, name ∈ change.indexes.keys

instance : Decidable change.Indexed :=
  inferInstanceAs (Decidable (∀ name ∈ change.cond.keys, name ∈ change.indexes.keys))

end RowChange

/-! ## The conditions of a merge -/

namespace Merger

/-- The names under which the columns that are kept are compared, as far as they are not
excluded. -/
def keptNames (names excluded : List String) : Nat → List MatchUnit → List String
  | _, [] => []
  | k, unit :: units =>
    let n := nameAt names k
    (if unit.localUnit ≥ 0 ∧ unit.deleted = false ∧ n ∉ excluded then [n] else []) ++
      keptNames names excluded (if unit.deleted then k else k + 1) units

theorem mem_rowCond {ctx : RowContext} {lRow : Int} (hl : 0 ≤ lRow) {name : String}
    (units : List MatchUnit) :
    ∀ (k : Nat) (cond : AssocMap String SheetCell), name ∈ (rowCond ctx lRow k units cond).keys ↔
      name ∈ keptNames ctx.names ctx.flags.excludeColumns k units ∨ name ∈ cond.keys := by
  induction units with
  | nil => exact fun k cond => ⟨Or.inr, fun h => h.resolve_left List.not_mem_nil⟩
  | cons unit units ih =>
    intro k cond
    unfold rowCond keptNames
    simp only
    rw [ih]
    by_cases h : unit.localUnit ≥ 0 ∧ unit.deleted = false ∧
      nameAt ctx.names k ∉ ctx.flags.excludeColumns
    · rw [if_pos (show lRow ≥ 0 ∧ unit.localUnit ≥ 0 ∧ _ from ⟨hl, h⟩), if_pos h,
        AssocMap.mem_keys_set, List.singleton_append, List.mem_cons]
      exact or_left_comm.trans or_assoc.symm
    · rw [if_neg (show ¬(lRow ≥ 0 ∧ unit.localUnit ≥ 0 ∧ _) from fun hall => h hall.2), if_neg h,
        List.nil_append]

/-- The conditions are those of a row of local, or of none. -/
def FromRow (ctx : RowContext) (change : RowChange) : Prop :=
  change.cond = rowCond ctx change.lRow 0 ctx.colAccum []

variable {ctx : RowContext}

theorem FromRow.empty : FromRow ctx {} := (rowCond_of_neg ctx (by decide) _ 0 []).symm

theorem FromRow.contextRow {alt : RowChange} (h : FromRow ctx alt) (wanted : Bool) :
    ∀ change ∈ contextRow ctx wanted alt, FromRow ctx change := by
  unfold Merger.contextRow
  split
  · exact List.forall_mem_singleton.2 h
  · exact fun change hin => absurd hin List.not_mem_nil

/-- What is reported about a row, and what is kept for a context row. -/
theorem emitRow_fromRow {row : MatchUnit} {rowChange : RowChange} {c : Cursor}
    (hrow : FromRow ctx rowChange) (hlast : FromRow ctx c.lastRowChange) :
    FromRow ctx (emitRow ctx row rowChange c).1.lastRowChange ∧
    ∀ change ∈ (emitRow ctx row rowChange c).2, FromRow ctx change := by
  have hmoved :
    ∀ move : Bool,
    ∀ change ∈ (if move then [{ rowChange with mode := RowChangeMode.move }] else []),
      FromRow ctx change := by
    intro move
    split
    · exact List.forall_mem_singleton.2 hrow
    · exact fun change hin => absurd hin List.not_mem_nil
  have hplain : ∀ (wanted move : Bool), ∀ change ∈ contextRow ctx wanted c.lastRowChange ++
      (if move then [{ rowChange with mode := RowChangeMode.move }] else []), FromRow ctx change :=
      fun wanted move =>
    List.forall_mem_append.2 ⟨hlast.contextRow wanted, hmoved move⟩
  have hif : ∀ {q : Prop} [Decidable q] {r r' : Cursor × List RowChange},
      (FromRow ctx r.1.lastRowChange ∧ ∀ change ∈ r.2, FromRow ctx change) →
      (FromRow ctx r'.1.lastRowChange ∧ ∀ change ∈ r'.2, FromRow ctx change) →
      FromRow ctx (if q then r else r').1.lastRowChange ∧
      ∀ change ∈ (if q then r else r').2, FromRow ctx change := by
    intro q _ r r' h h'
    split
    · exact h
    · exact h'
  have hinsert : ∀ (q : Prop) [Decidable q] (wanted wanted' : Bool), ∀ change ∈
      (if q then contextRow ctx wanted c.lastRowChange else contextRow ctx wanted' {}),
      FromRow ctx change := by
    intro q _ wanted wanted'
    split
    · exact hlast.contextRow _
    · exact FromRow.empty.contextRow _
  -- one case for each report
  refine hif (hif ?_ ?_) (hif (hif ?_ ?_) (hif ?_ ?_))
  · exact ⟨hrow, List.forall_mem_append.2 ⟨List.forall_mem_append.2 ⟨hplain _ _, hinsert _ _ _⟩,
      List.forall_mem_singleton.2 hrow⟩⟩
  · exact ⟨hrow, hplain _ _⟩
  · exact ⟨hrow, List.forall_mem_append.2 ⟨hplain _ _, List.forall_mem_singleton.2 hrow⟩⟩
  · exact ⟨hrow, hplain _ _⟩
  · exact ⟨hrow, List.forall_mem_append.2 ⟨hlast.contextRow _, List.forall_mem_singleton.2 hrow⟩⟩
  · exact ⟨hrow, hplain _ _⟩

/-- All of the changes so far, and the one kept. -/
structure FromRows (ctx : RowContext) (s : RowState) : Prop where
  last : FromRow ctx s.cursor.lastRowChange
  all : ∀ change ∈ s.rc, FromRow ctx change

theorem FromRows.mergeRow {row : MatchUnit} {s s' : RowState} (h : FromRows ctx s)
    (hmerge : mergeRow ctx row s = .ok s') : FromRows ctx s' := by
  unfold Merger.mergeRow at hmerge
  cases hv : rowValues ctx row 0 ctx.colAccum {} with
  | error e =>
    rw [hv] at hmerge
    cases hmerge
  | ok v =>
    rw [hv] at hmerge
    cases hmerge
    obtain ⟨hlast, hall⟩ := @emitRow_fromRow ctx row (rowChangeOf ctx row v) s.cursor rfl h.last
    exact ⟨hlast, List.forall_mem_append.2 ⟨h.all, hall⟩⟩

theorem FromRows.mergeRows (units : List MatchUnit) : ∀ {s s' : RowState}, FromRows ctx s →
    mergeRows ctx units s = .ok s' → FromRows ctx s' := by
  induction units with
  | nil =>
    intro s s' h hmerge
    cases hmerge
    exact h
  | cons unit units ih =>
    intro s s' h hmerge
    unfold Merger.mergeRows at hmerge
    simp only at hmerge
    generalize (if ctx.allGone = true then _ else unit) = unit' at hmerge
    split at hmerge
    · cases hrow : Merger.mergeRow ctx unit' s with
      | error e =>
        rw [hrow] at hmerge
        cases hmerge
      | ok next =>
        rw [hrow] at hmerge
        exact ih (h.mergeRow hrow) hmerge
    · exact ih h hmerge

/-! ## The indexes of a merge -/

/-- Without index columns none is deleted. -/
theorem deletePass_constant (units : List MatchUnit) : ∀ {s s' : ColState},
    deletePass [] units s = .ok s' → s'.constantIndex = s.constantIndex := by
  induction units with
  | nil =>
    intro s s' h
    cases h
    rfl
  | cons unit units ih =>
    intro s s' h
    unfold deletePass at h
    simp only at h
    split at h
    · split at h
      · exact (ih h).trans (Bool.and_true _)
      · cases h
    · exact ih h

theorem movePass_constant (shuffled : List Int) (order : List Int) : ∀ {s s' : ColState},
    movePass shuffled order s = .ok s' → s'.constantIndex = s.constantIndex := by
  induction order with
  | nil =>
    intro s s' h
    cases h
    rfl
  | cons a order ih =>
    intro s s' h
    unfold movePass at h
    split at h
    · exact (ih h).trans rfl
    · cases h

theorem shufflePass_constant {units : List MatchUnit} {s s' : ColState}
    (h : shufflePass units s = .ok s') : s'.constantIndex = s.constantIndex := by
  unfold shufflePass at h
  simp only at h
  split at h
  · cases h
  split at h
  · cases h
  · exact movePass_constant _ _ h

theorem insertPass_constant {remoteNames : NameSniffer} (units : List MatchUnit) :
    ∀ {k : Nat} {s s' : ColState},
    insertPass remoteNames k units s = .ok s' → s'.constantIndex = s.constantIndex := by
  induction units with
  | nil =>
    intro k s s' h
    cases h
    rfl
  | cons unit units ih =>
    intro k s s' h
    unfold insertPass at h
    simp only at h
    split at h
    · split at h
      · cases h
      split at h
      · cases h
      · exact (ih h).trans rfl
    · exact ih h

theorem renamePass_constant {localNames remoteNames : NameSniffer} (units : List MatchUnit) :
    ∀ {s s' : ColState},
    renamePass localNames remoteNames units s = .ok s' → s'.constantIndex = s.constantIndex := by
  induction units with
  | nil =>
    intro s s' h
    cases h
    rfl
  | cons unit units ih =>
    intro s s' h
    unfold renamePass at h
    simp only at h
    split at h
    · split at h
      · split at h
        · exact (ih h).trans rfl
        · exact ih h
      · cases h
    · exact ih h

theorem columnPasses_constant {flags : CompareFlags} {localNames remoteNames : NameSniffer}
    {units : List MatchUnit}
    {s s' : ColState} (h : columnPasses flags [] localNames remoteNames units s = .ok s') :
    s'.constantIndex = s.constantIndex := by
  unfold columnPasses at h
  cases h1 : deletePass [] units s with
  | error e =>
    rw [h1] at h
    cases h
  | ok s1 =>
    rw [h1] at h
    change (shufflePass units s1).bind _ = _ at h
    cases h2 : shufflePass units s1 with
    | error e =>
      rw [h2] at h
      cases h
    | ok s2 =>
      rw [h2] at h
      change (insertPass remoteNames 0 units s2).bind _ = _ at h
      cases h3 : insertPass remoteNames 0 units s2 with
      | error e =>
        rw [h3] at h
        cases h
      | ok s3 =>
        rw [h3] at h
        have h4 : s'.constantIndex = s3.constantIndex := by
          change (if flags.assumeHeader = true then renamePass localNames remoteNames units s3
            else .ok s3) = _ at h
          split at h
          · exact renamePass_constant units h
          · cases h
            rfl
        rw [h4, insertPass_constant units h3, shufflePass_constant h2, deletePass_constant units h1]

/-- Some local column is an index: it is included, or sniffed, and not excluded. -/
def HasIndex (flags : CompareFlags) (names : List String) (indexFlags : List Bool) : Prop :=
  ∃ e ∈ names.zip indexFlags, e.1 ∉ flags.excludeColumns ∧ (e.1 ∈ flags.includeColumns ∨ e.2 = true)

variable {flags : CompareFlags} {names : List String} {indexFlags : List Bool}

theorem mem_indexMap (hlen : names.length = indexFlags.length) {name : String} :
    name ∈ (indexMap flags names indexFlags).keys ↔ HasIndex flags names indexFlags ∧
    name ∈ names := by
  have hkeys : ∀ entry : String × Bool → Bool,
      AssocMap.keys ((names.zip indexFlags).map fun e => (e.1, entry e)) = names := fun entry => by
    unfold AssocMap.keys
    rw [List.map_map]
    exact List.map_fst_zip (le_of_eq hlen)
  have hentry : ∀ e : String × Bool,
      (if e.1 ∈ flags.excludeColumns then false else if e.1 ∈ flags.includeColumns then true
        else e.2) = true ↔
        e.1 ∉ flags.excludeColumns ∧ (e.1 ∈ flags.includeColumns ∨ e.2 = true) := fun e => by
    by_cases hx : e.1 ∈ flags.excludeColumns
    · rw [if_pos hx]
      exact iff_of_false Bool.false_ne_true fun h => h.1 hx
    · by_cases hi : e.1 ∈ flags.includeColumns
      · rw [if_neg hx, if_pos hi]
        exact iff_of_true rfl ⟨hx, Or.inl hi⟩
      · rw [if_neg hx, if_neg hi]
        exact ⟨fun h => ⟨hx, Or.inr h⟩, fun h => h.2.resolve_left hi⟩
  have hany : ((names.zip indexFlags).map fun e => (e.1,
      if e.1 ∈ flags.excludeColumns then false else if e.1 ∈ flags.includeColumns then true
        else e.2)).any Prod.snd = true ↔ HasIndex flags names indexFlags := by
    rw [List.any_map, List.any_eq_true]
    exact exists_congr fun e => and_congr_right fun _ => hentry e
  unfold indexMap
  simp only
  by_cases h : HasIndex flags names indexFlags
  · rw [if_pos (hany.2 h), AssocMap.mem_keys_foldl_set, hkeys]
    exact ⟨fun hin => ⟨h, hin.resolve_right List.not_mem_nil⟩, fun hin => Or.inl hin.2⟩
  · rw [if_neg (mt hany.1 h)]
    exact iff_of_false List.not_mem_nil fun hin => h hin.1

/-! ## The changes of a merge -/

/-- The row changes of a merge, if it comes to an end. -/
def mergeChanges (state : MergerState) : List RowChange :=
  match merge state with
  | .ok r => r.rowChanges
  | .error _ => []

/-- Every column that is kept ends with a name that local starts with, and some index is left. -/
def KeptIndexed (state : MergerState) : Prop :=
  ∀ cols original s, colUnits state = some cols → originalColNames state = .ok original →
    columnPasses state.flags
      (indexMap state.flags original (IndexSniffer.sniff state.locals state.flags state.localNames))
        state.localNames
      state.remoteNames cols.accum (ColState.start state.locals.width original) = .ok s →
    ∀ name ∈ keptNames s.localColNames state.flags.excludeColumns 0 cols.accum,
      HasIndex state.flags original (IndexSniffer.sniff state.locals state.flags state.localNames) ∧
      name ∈ original

theorem length_originalColNames {state : MergerState} {original : List String}
    (h : originalColNames state = .ok original) : original.length = state.locals.width := by
  unfold originalColNames at h
  split at h
  · next names hnames =>
    cases h
    exact (length_of_mapM hnames).trans List.length_range
  · cases h

/-- Deleting an index column makes all columns indexes, but only if there are indexes. -/
theorem mem_reportedIndexes {localNames remoteNames : NameSniffer} {units : List MatchUnit}
    {s s' : ColState} (hlen : names.length = indexFlags.length) (hs : s.constantIndex = true)
    (h : columnPasses flags (indexMap flags names indexFlags) localNames remoteNames units s =
      .ok s') {name : String} :
    name ∈ (reportedIndexes names (indexMap flags names indexFlags) s').keys ↔
      HasIndex flags names indexFlags ∧ name ∈ names := by
  unfold reportedIndexes
  split
  · exact mem_indexMap hlen
  · next hconstant =>
    have hsome : HasIndex flags names indexFlags := by
      by_contra hnone
      have hempty : indexMap flags names indexFlags = [] :=
        List.eq_nil_iff_forall_not_mem.2 fun e he =>
          hnone ((mem_indexMap hlen).1 (List.mem_map_of_mem (f := Prod.fst) he)).1
      rw [hempty] at h
      exact hconstant ((columnPasses_constant h).trans hs)
    have hall :
      names.foldl (fun m name => AssocMap.set m name true) (indexMap flags names indexFlags) =
        (names.map fun name => (name, true)).foldl (fun m e => AssocMap.set m e.1 e.2)
        (indexMap flags names indexFlags) := by
      rw [List.foldl_map]
    have hkeys : AssocMap.keys (names.map fun name => (name, true)) = names := by
      unfold AssocMap.keys
      rw [List.map_map]
      exact List.map_id names
    rw [hall, AssocMap.mem_keys_foldl_set, hkeys, mem_indexMap hlen]
    exact ⟨fun hin => ⟨hsome, hin.elim id And.right⟩, fun hin => Or.inl hin.2⟩

/-- What is behind the changes of a merge. -/
theorem mergeChanges_eq {state : MergerState} : mergeChanges state = [] ∨
    ∃ cols original s rows, colUnits state = some cols ∧ originalColNames state = .ok original ∧
      columnPasses state.flags
        (indexMap state.flags original
          (IndexSniffer.sniff state.locals state.flags state.localNames)) state.localNames
        state.remoteNames cols.accum (ColState.start state.locals.width original) = .ok s ∧
      FromRows (rowContext state cols.accum original s) rows ∧
      mergeChanges state = rows.rc.map fun change =>
        { change with
          indexes := reportedIndexes original
            (indexMap state.flags original
              (IndexSniffer.sniff state.locals state.flags state.localNames)) s
          allNames := if state.flags.fixedColumns then original else s.localColNames } := by
  unfold mergeChanges merge
  split
  · next r h =>
    split at h
    · cases h
      exact Or.inl rfl
    split at h
    · cases h
    next cols hcols =>
    split at h
    · cases h
    next units hunits =>
    cases horiginal : originalColNames state with
    | error e =>
      rw [horiginal] at h
      cases h
    | ok original =>
      rw [horiginal] at h
      simp only [Except.bind] at h
      split at h
      · cases h
      next s hs =>
      cases hrows : mergeRows (rowContext state cols.accum original s) units {} with
      | error e =>
        rw [hrows] at h
        cases h
      | ok rows =>
        rw [hrows] at h
        cases h
        have hfrom : FromRows (rowContext state cols.accum original s) {} :=
          ⟨FromRow.empty, fun change hin => absurd hin List.not_mem_nil⟩
        exact Or.inr ⟨cols, original, s, rows, hcols, rfl, hs, hfrom.mergeRows _ hrows,
          rowChanges_report _ _ _ _ _⟩
  · exact Or.inl rfl

/-- **The lookups of a merge**, as its columns are. -/
theorem mergeChanges_indexed_iff (state : MergerState) :
    ∀ change ∈ mergeChanges state, (change.Indexed ↔ change.lRow < 0 ∨ KeptIndexed state) := by
  obtain hnone | ⟨cols, original, s, rows, hcols, horiginal, hs, hrows, hchanges⟩ :=
    @mergeChanges_eq state
  · rw [hnone]
    exact fun change hin => absurd hin List.not_mem_nil
  have hlen :
    original.length = (IndexSniffer.sniff state.locals state.flags state.localNames).length := by
    rw [IndexSniffer.sniff_length, length_originalColNames horiginal]
  have hkept :
    KeptIndexed state ↔ ∀ name ∈ keptNames s.localColNames state.flags.excludeColumns 0 cols.accum,
      HasIndex state.flags original (IndexSniffer.sniff state.locals state.flags state.localNames) ∧
      name ∈ original := by
    refine ⟨fun h => h cols original s hcols horiginal hs,
      fun h cols' original' s' hcols' horiginal' hs' => ?_⟩
    obtain rfl : cols = cols' := Option.some.inj (hcols.symm.trans hcols')
    obtain rfl : original = original' := Except.ok.inj (horiginal.symm.trans horiginal')
    obtain rfl : s = s' := Except.ok.inj (hs.symm.trans hs')
    exact h
  rw [hchanges, List.forall_mem_map]
  intro change hin
  have hcond := hrows.all change hin
  unfold RowChange.Indexed
  rw [hkept]
  show (∀ name ∈ change.cond.keys, _) ↔ _
  simp only [mem_reportedIndexes hlen rfl hs]
  rw [hcond]
  rcases lt_or_ge change.lRow 0 with hl | hl
  · rw [rowCond_of_neg _ hl]
    exact iff_of_true (fun name hname => absurd hname List.not_mem_nil) (Or.inl hl)
  · rw [or_iff_right (not_lt_of_ge hl)]
    refine forall_congr' fun name => imp_congr_left ?_
    rw [mem_rowCond hl]
    exact or_iff_left List.not_mem_nil

end Merger

/-! ## The changes of a tdiff -/

namespace Tdiff

/-- The row changes of the lines, up to a line on which the reader exits. -/
def lineChanges (flags : FilterFlags) : Reading → List (List Char) → List RowChange
  | _, [] => []
  | r, line :: lines =>
    match readLine flags r line with
    | none => []
    | some (r', calls) => calls.filterMap PatcherCall.row? ++ lineChanges flags r' lines

def tdiffChanges (flags : FilterFlags) (text : List Char) : List RowChange :=
  lineChanges flags {} (readLines [] text)

/-- A row line outside of comments: what it does, whether it is in conflict, and its terms. -/
def rowWords (r : Reading) (line : List Char) : Option (RowChangeMode × Bool × List TDiffPart) :=
  if r.inComment then none
  else
    match normalizedMessage line with
    | [] => none
    | word :: rest =>
      if word.head? = some '#' then none
      else (rowMode (if word.head? = some '!' then word.tail else word)).map fun mode =>
        (mode, decide (word.head? = some '!'), rest.map (TDiffPart.apply · false))

/-- Each term on which the row is chosen is in a column with an equals sign, or such a column of the
same name has a value too. -/
def TermsIndexed (mode : RowChangeMode) (cols assign : List TDiffPart) : Prop :=
  ∀ e ∈ cols.zip assign, conded mode e.1 e.2 = true →
    ∃ f ∈ cols.zip assign, cName f.1.name = cName e.1.name ∧ (f.1.isId && f.2.val.isSome) = true

/-- The terms of each row line that is not skipped are so. -/
def LinesIndexed (flags : FilterFlags) : Reading → List (List Char) → Prop
  | _, [] => True
  | r, line :: lines =>
    (∀ mode conflict assign cols, rowWords r line = some (mode, conflict, assign) →
      rowColumns r.cols assign = some cols →
      skipsRow flags mode = false → TermsIndexed mode cols assign) ∧
    match readLine flags r line with
    | none => True
    | some (r', _) => LinesIndexed flags r' lines

theorem addTerm_mode (change : RowChange) (context part : TDiffPart) :
    (addTerm change context part).mode = change.mode := rfl

theorem mem_addTerm_cond {change : RowChange} {context part : TDiffPart} {name : String} :
    name ∈ (addTerm change context part).cond.keys ↔
      (conded change.mode context part = true ∧ name = cName context.name) ∨
      name ∈ change.cond.keys := by
  show name ∈ AssocMap.keys (if conded change.mode context part = true then _ else _) ↔ _
  split
  · next h => rw [AssocMap.mem_keys_set, and_iff_right h]
  · next h => rw [or_iff_right fun hin => h hin.1]

theorem mem_addTerm_indexes {change : RowChange} {context part : TDiffPart} {name : String} :
    name ∈ (addTerm change context part).indexes.keys ↔
      ((context.isId && part.val.isSome) = true ∧ name = cName context.name) ∨
      name ∈ change.indexes.keys := by
  show name ∈ AssocMap.keys (if (context.isId && part.val.isSome) = true then _ else _) ↔ _
  split
  · next h => rw [AssocMap.mem_keys_set, and_iff_right h]
  · next h => rw [or_iff_right fun hin => h hin.1]

/-- The terms of a row, each under the name of its column. -/
theorem mem_addTerms (es : List (TDiffPart × TDiffPart)) {name : String} : ∀ change : RowChange,
    (name ∈ (es.foldl (fun change e => addTerm change e.1 e.2) change).cond.keys ↔
      (∃ e ∈ es, conded change.mode e.1 e.2 = true ∧ name = cName e.1.name) ∨
        name ∈ change.cond.keys) ∧
    (name ∈ (es.foldl (fun change e => addTerm change e.1 e.2) change).indexes.keys ↔
      (∃ e ∈ es, (e.1.isId && e.2.val.isSome) = true ∧ name = cName e.1.name) ∨
        name ∈ change.indexes.keys) := by
  induction es with
  | nil =>
    intro change
    have hnone : ∀ p : TDiffPart × TDiffPart → Prop, ¬ ∃ e ∈ [], p e := fun p h => by
      obtain ⟨e, he, -⟩ := h
      exact absurd he List.not_mem_nil
    exact ⟨(or_iff_right (hnone _)).symm, (or_iff_right (hnone _)).symm⟩
  | cons e es ih =>
    intro change
    obtain ⟨hcond, hindexes⟩ := ih (addTerm change e.1 e.2)
    rw [List.foldl_cons, hcond, hindexes, mem_addTerm_cond, mem_addTerm_indexes, addTerm_mode,
      List.exists_mem_cons_iff, List.exists_mem_cons_iff]
    exact ⟨or_left_comm.trans or_assoc.symm, or_left_comm.trans or_assoc.symm⟩

/-- The change of a row line. -/
theorem rowChange_indexed_iff (mode : RowChangeMode) (conflicted : Bool)
    (cols assign : List TDiffPart) :
    (rowChange mode conflicted cols assign).Indexed ↔ TermsIndexed mode cols assign := by
  have hkeys := fun name => @mem_addTerms (cols.zip assign) name { mode, conflicted }
  unfold RowChange.Indexed TermsIndexed rowChange
  constructor
  · intro h e he hconded
    have hin := h (cName e.1.name) ((hkeys _).1.2 (Or.inl ⟨e, he, hconded, rfl⟩))
    obtain ⟨f, hf, hindex, hname⟩ := ((hkeys _).2.1 hin).resolve_right List.not_mem_nil
    exact ⟨f, hf, hname.symm, hindex⟩
  · intro h name hin
    obtain ⟨e, he, hconded, rfl⟩ := ((hkeys name).1.1 hin).resolve_right List.not_mem_nil
    obtain ⟨f, hf, hname, hindex⟩ := h e he hconded
    exact (hkeys _).2.2 (Or.inl ⟨f, hf, hindex, hname.symm⟩)

/-! ## The rows of a line -/

def rowsOf (next : Reading × List PatcherCall) : List RowChange := next.2.filterMap PatcherCall.row?

/-- The change of a row line, if it is not skipped. -/
def rowReport (flags : FilterFlags) (r : Reading) (mode : RowChangeMode) (conflict : Bool)
    (assign : List TDiffPart) : List RowChange :=
  match rowColumns r.cols assign with
  | none => []
  | some cols =>
    let change := rowChange mode conflict cols assign
    if skipsRow flags mode then []
    else [{ change with
      allNames := if r.allNames.length < change.names.length then change.names else r.allNames }]

section
variable (flags : FilterFlags) (r : Reading)

theorem rowsOf_after (next : Reading × List PatcherCall) :
    rowsOf (after (needTable flags r).2 next) = rowsOf next := by
  have hnone : (needTable flags r).2.filterMap PatcherCall.row? = [] := by
    unfold needTable
    split
    · split <;> rfl
    · rfl
  unfold rowsOf after
  rw [List.filterMap_append, hnone, List.nil_append]

theorem declarePool_rows (tableName : String) (rest : List (List Char)) :
    (declarePool tableName rest).filterMap PatcherCall.row? = [] := by
  cases rest with
  | nil => rfl
  | cons poolName terms =>
    rw [declarePool]
    show List.filterMap _ (if _ = [] then [] else [_]) = _
    split <;> rfl

theorem declareColumns_rows (first : List Char) (terms : List (List Char)) :
    rowsOf (declareColumns r first terms) = [] := by
  unfold rowsOf declareColumns
  show List.filterMap _ (if first = ['@'] then [] else [_]) = _
  split <;> rfl

theorem applyColumns_rows (mode : OrderChangeMode) (terms : List (List Char)) :
    ((applyColumns r mode terms).map rowsOf).getD [] = [] := by
  unfold applyColumns
  cases applyColumnLine r.toTdiffState mode terms with
  | none => rfl
  | some next =>
    show (next.2.map PatcherCall.columns).filterMap PatcherCall.row? = []
    rw [List.filterMap_map]
    exact List.filterMap_eq_nil_iff.2 fun call _ => rfl

theorem applyRow_rows (mode : RowChangeMode) (conflict : Bool) (terms : List (List Char)) :
    ((applyRow flags r mode conflict terms).map rowsOf).getD [] =
      rowReport flags r mode conflict (terms.map (TDiffPart.apply · false)) := by
  unfold applyRow rowReport
  simp only
  cases rowColumns r.cols (terms.map (TDiffPart.apply · false)) with
  | none => rfl
  | some cols =>
    show List.filterMap _ (if skipsRow flags mode = true then [] else [_]) = _
    split <;> rfl

theorem rowMode_of_columnMode {first : List Char} {mode : OrderChangeMode}
    (h : columnMode first = some mode) : rowMode first = none := by
  unfold columnMode at h
  split at h
  · next hfirst => exact hfirst ▸ rfl
  split at h
  · next hfirst => exact hfirst ▸ rfl
  split at h
  · next hfirst => exact hfirst ▸ rfl
  split at h
  · next hfirst => exact hfirst ▸ rfl
  · cases h

theorem applyWords_rows (first : List Char) (conflict : Bool) (rest : List (List Char)) :
    ((applyWords flags r first conflict rest).map rowsOf).getD [] =
      match rowMode first with
      | none => []
      | some mode => rowReport flags r mode conflict (rest.map (TDiffPart.apply · false)) := by
  have hafter : rowsOf ∘ after (needTable flags r).2 = rowsOf :=
    funext fun next => rowsOf_after flags r next
  unfold applyWords
  by_cases hsheet : first = ['@', '@', '@']
  · subst hsheet
    rw [if_pos rfl, Option.map_map]
    cases rest <;> rfl
  rw [if_neg hsheet]
  by_cases hpool : first = ['x']
  · subst hpool
    rw [if_pos rfl]
    exact declarePool_rows _ _
  rw [if_neg hpool]
  by_cases hat : first = ['@']
  · subst hat
    rw [if_pos rfl]
    exact declareColumns_rows _ _ _
  rw [if_neg hat]
  by_cases hnames : first = ['@', '@'] ∨ first = ['@', '@', '=']
  · rw [if_pos hnames]
    have hrows :
      rowsOf (after (needTable flags r).2 (declareColumns (needTable flags r).1 first rest)) = [] :=
      (rowsOf_after flags r _).trans (declareColumns_rows _ _ _)
    rcases hnames with rfl | rfl
    · exact hrows
    · exact hrows
  rw [if_neg hnames]
  cases hmode : columnMode first with
  | some mode =>
    rw [rowMode_of_columnMode hmode]
    show Option.getD
      (((applyColumns (needTable flags r).1 mode rest).map (after (needTable flags r).2)).map
        rowsOf) [] = []
    rw [Option.map_map, hafter]
    exact applyColumns_rows _ _ _
  | none =>
    cases hrow : rowMode first with
    | some mode =>
      show Option.getD
        (((applyRow flags (needTable flags r).1 mode conflict rest).map
          (after (needTable flags r).2)).map rowsOf) [] = _
      have hsame : ∀ assign, rowReport flags (needTable flags r).1 mode conflict assign =
        rowReport flags r mode conflict assign := by
        have hstate := needTable_state flags r
        have hnamesAll : (needTable flags r).1.allNames = r.allNames := by
          unfold needTable
          split
          · split <;> rfl
          · rfl
        intro assign
        unfold rowReport
        rw [hstate, hnamesAll]
      rw [Option.map_map, hafter, applyRow_rows, hsame]
    | none => rfl

/-- The rows of a line are those its words ask for. -/
theorem readLine_rows (line : List Char) : ((readLine flags r line).map rowsOf).getD [] =
    match rowWords r line with
    | none => []
    | some (mode, conflict, assign) => rowReport flags r mode conflict assign := by
  unfold readLine rowWords
  by_cases hin : r.inComment = true
  · rw [if_pos hin, if_pos hin]
    rfl
  rw [if_neg hin, if_neg hin]
  cases normalizedMessage line with
  | nil => rfl
  | cons word rest =>
    simp only [decide_eq_true_eq]
    by_cases hhash : word.head? = some '#'
    · rw [if_pos hhash, if_pos hhash]
      rfl
    rw [if_neg hhash, if_neg hhash]
    generalize (if word.head? = some '!' then word.tail else word) = first
    by_cases hopen : ['/', '*'].isPrefixOf first = true
    · have hnone : rowMode first = none := by
        obtain ⟨tail, rfl⟩ := List.isPrefixOf_iff_prefix.1 hopen
        rfl
      rw [if_pos hopen, hnone]
      rfl
    · rw [if_neg hopen, applyWords_rows]
      cases rowMode first <;> rfl

end

/-- **The lookups of a tdiff**, line by line. -/
theorem lineChanges_indexed_iff (flags : FilterFlags) (lines : List (List Char)) : ∀ r : Reading,
    (∀ change ∈ lineChanges flags r lines, change.Indexed) ↔ LinesIndexed flags r lines := by
  induction lines with
  | nil => exact fun r => iff_of_true (fun change hin => absurd hin List.not_mem_nil) trivial
  | cons line lines ih =>
    intro r
    have hline : (∀ change ∈ ((readLine flags r line).map rowsOf).getD [], change.Indexed) ↔
        ∀ mode conflict assign cols, rowWords r line = some (mode, conflict, assign) →
        rowColumns r.cols assign = some cols →
          skipsRow flags mode = false → TermsIndexed mode cols assign := by
      rw [readLine_rows]
      cases hwords : rowWords r line with
      | none =>
        refine iff_of_true (fun change hin => absurd hin List.not_mem_nil)
          fun mode conflict assign cols h => ?_
        cases h
      | some words =>
        obtain ⟨mode, conflict, assign⟩ := words
        show (∀ change ∈ rowReport flags r mode conflict assign, change.Indexed) ↔ _
        unfold rowReport
        cases hcols : rowColumns r.cols assign with
        | none =>
          refine iff_of_true (fun change hin => absurd hin List.not_mem_nil)
            fun mode' conflict' assign' cols h hcols' => ?_
          cases h
          rw [hcols] at hcols'
          cases hcols'
        | some cols =>
          simp only
          split
          · next hskip =>
            refine iff_of_true (fun change hin => absurd hin List.not_mem_nil)
              fun mode' conflict' assign' cols' h _ hkeep => ?_
            cases h
            rw [hskip] at hkeep
            cases hkeep
          · next hkeep =>
            rw [List.forall_mem_singleton]
            refine (rowChange_indexed_iff mode conflict cols assign).trans
              ⟨fun h => ?_, fun h => ?_⟩
            · intro mode' conflict' assign' cols' hwords' hcols' _
              cases hwords'
              obtain rfl := Option.some.inj (hcols.symm.trans hcols')
              exact h
            · exact h mode conflict assign cols rfl hcols (Bool.eq_false_iff.2 hkeep)
    rw [LinesIndexed, ← hline, lineChanges]
    cases hread : readLine flags r line with
    | none =>
      exact iff_of_true (fun change hin => absurd hin List.not_mem_nil)
        ⟨fun change hin => absurd hin List.not_mem_nil, trivial⟩
    | some next =>
      show (∀ change ∈ rowsOf next ++ lineChanges flags next.1 lines, change.Indexed) ↔ _
      rw [List.forall_mem_append, ih next.1]
      rfl

end Tdiff

/-- **The lookups of both producers.** -/
theorem lookups_iff (state : MergerState) (flags : FilterFlags) (text : List Char) :
    (∀ change ∈ Merger.mergeChanges state,
      (change.Indexed ↔ change.lRow < 0 ∨ Merger.KeptIndexed state)) ∧
    ((∀ change ∈ Tdiff.tdiffChanges flags text, change.Indexed) ↔
      Tdiff.LinesIndexed flags {} (Tdiff.readLines [] text)) :=
  ⟨Merger.mergeChanges_indexed_iff state, Tdiff.lineChanges_indexed_iff flags _ {}⟩

/-- A table of one row. -/
def oneRow (cell : String) : DataSheet where
  width := 2
  rows := [[⟨"1", false⟩, ⟨cell, false⟩]]
  rect := List.forall_mem_singleton.2 rfl
  stored := List.forall_mem_singleton.2 fun c hc => by
    rcases List.mem_pair.1 hc with rfl | rfl <;> exact fun h => absurd h Bool.false_ne_true

/-- The second column is renamed, and its cell changed. -/
def renamedColumn : MergerState where
  pivot := oneRow "x"
  locals := oneRow "x"
  remote := oneRow "y"
  rowLocal := ⟨[0], [0]⟩
  rowRemote := ⟨[0], [0]⟩
  colLocal := ⟨[0, 1], [0, 1]⟩
  colRemote := ⟨[0, 1], [0, 1]⟩
  flags := {}
  localNames := ⟨["id", "a"], []⟩
  remoteNames := ⟨["id", "b"], []⟩

/-- A merge with a renamed column, and a term with a colon. -/
theorem not_lookups : (¬ ∀ state, ∀ change ∈ Merger.mergeChanges state, change.Indexed) ∧
    ¬ ∀ flags text, ∀ change ∈ Tdiff.tdiffChanges flags text, change.Indexed := by
  have hmerge : ∃ change ∈ Merger.mergeChanges renamedColumn, ¬ change.Indexed := by decide +kernel
  have htdiff : ∃ change ∈ Tdiff.tdiffChanges {} "= |a:1->2|\n".toList, ¬ change.Indexed := by
    decide +kernel
  obtain ⟨change, hin, hnot⟩ := hmerge
  obtain ⟨change', hin', hnot'⟩ := htdiff
  exact ⟨fun h => hnot (h renamedColumn change hin), fun h => hnot' (h {} _ change' hin')⟩

end Coopy
