import Coopy.ColumnScript
import Coopy.ColumnTitles
import Coopy.Lib.Renaming

/-!
# Pass 4: columns renamed by name

Pass 4 looks a column up by its local name, in a list in which earlier renames are already made.
The patcher does the same with its own list.  So a column misses its remote name if another one
has been given its local name before and stands further ahead.

    RenamesRight … ↔ ∀ r₁ < r₂ matched with l₁, l₂ and rnames[r₁] = lnames[l₂], l₂ stands before l₁
                                                                              (renames_right_iff)
-/

namespace Coopy

open Lib

namespace SheetPatcher

/-! ## A rename, replayed -/

/-- The columns of the patcher have these names, and two of them may have the same. -/
structure Bears (p : SheetPatcher) (names : List String) : Prop where
  active : p.activeCol.arr = [names] ∧ p.activeCol.w = names.length
  status : ∃ st, p.statusCol.arr = [st] ∧ st.length = names.length ∧ ∀ x ∈ st, x ≠ "---"
  no_synonyms : p.syn2name = []
  sheet_w : p.sheet.w = names.length
  untitled : p.Untitled

theorem Shows.bears {rows : List (List SheetCell)} {p : SheetPatcher} {ids : List Int}
    {names : List String} (h : Shows rows p ids names) : Bears p names :=
  ⟨h.active, h.status.1, h.no_synonyms.1, h.sheet_w.trans h.parallel.symm, h.untitled⟩

/-- A local column that is still there has its cells. -/
theorem Shows.column {p : SheetPatcher} {ids : List Int} {names : List String}
    {sheet : TypedSheet SheetCell} {n l : Nat} (h : Shows sheet.arr p ids names) (hw : sheet.w = n)
    (hrect : ∀ row ∈ sheet.arr, row.length = sheet.w) (hl : l < n) (hmem : (l : Int) ∈ ids) :
    p.sheet.arr.map (fun row => row.getD (ids.idxOf (l : Int)) sheet.zero) =
      sheet.arr.map fun row => row.getD l sheet.zero := by
  obtain ⟨base, hbase, harr⟩ := h.sheet_arr
  have hbase' : base = sheet.arr := by
    rcases hbase with h | h
    · exact h
    · have := h l hmem
      omega
  rw [harr, hbase', List.map_map]
  refine List.map_congr_left fun row hrow => ?_
  show (ids.map (SheetPatcher.cellOf p.sheet.zero row)).getD (ids.idxOf (l : Int)) sheet.zero = _
  rw [List.getD_eq_getElem?_getD, List.getElem?_map, getElem?_idxOf_of_mem hmem, Option.map_some,
    Option.getD_some]
  unfold SheetPatcher.cellOf
  have hlen : l < row.length := by rw [hrect row hrow, hw]; exact hl
  rw [if_neg (by omega), Int.toNat_natCast, List.getD_eq_getElem _ _ hlen,
    List.getD_eq_getElem _ _ hlen]

namespace Bears

variable {p : SheetPatcher} {names : List String} {e : String × String}

theorem cell_activeCol (h : Bears p names) (i : Nat) :
    p.activeCol.cell i 0 = names.getD i p.activeCol.zero := by
  unfold TypedSheet.cell
  rw [h.active.1]
  rfl

theorem matchCol_eq (h : Bears p names) (name : String) : p.matchCol name =
    (List.range names.length).find? fun i =>
      decide (names.getD i p.activeCol.zero = name) && decide (p.statusCol.cell i 0 ≠ "---") := by
  unfold SheetPatcher.matchCol
  rw [h.no_synonyms]
  show (List.range p.activeCol.w).find? (fun i =>
    decide (p.activeCol.cell i 0 = name) && decide (p.statusCol.cell i 0 ≠ "---")) = _
  simp only [h.active.2, h.cell_activeCol]

theorem matchCol (h : Bears p names) {name : String} (hn : name ∈ names) :
    p.matchCol name = some (names.idxOf name) := by
  obtain ⟨st, hst, hlen, hok⟩ := h.status
  have hlt := List.idxOf_lt_length_of_mem hn
  rw [h.matchCol_eq, List.find?_range_eq_some]
  refine ⟨?_, List.mem_range.mpr hlt, fun j hj => ?_⟩
  · rw [Bool.and_eq_true, decide_eq_true_eq, decide_eq_true_eq, List.getD_eq_getElem _ _ hlt,
      List.getElem_idxOf hlt]
    refine ⟨rfl, ?_⟩
    unfold TypedSheet.cell
    rw [hst]
    show st.getD _ _ ≠ _
    rw [List.getD_eq_getElem _ _ (by omega)]
    exact hok _ (List.getElem_mem _)
  · rw [Bool.not_eq_true', Bool.and_eq_false_iff, decide_eq_false_iff_not]
    left
    intro he
    rw [List.getD_eq_getElem _ _ (by omega)] at he
    have hle :=
      idxOf_le_of_getElem? ((List.getElem?_eq_getElem (by omega)).trans (congrArg some he))
    omega

theorem matchCol_none (h : Bears p names) {name : String} (hn : name ∉ names) :
    p.matchCol name = none := by
  rw [h.matchCol_eq, List.find?_eq_none]
  intro i hi
  rw [Bool.and_eq_true, decide_eq_true_eq]
  rintro ⟨he, -⟩
  rw [List.getD_eq_getElem _ _ (List.mem_range.1 hi)] at he
  exact hn (he ▸ List.getElem_mem _)

theorem ne_deleted (x y : String) : x ++ "(" ++ y ++ ")" ≠ "---" := by
  intro h
  have hlist := congrArg String.toList h
  rw [String.toList_append] at hlist
  have hlast := congrArg List.getLast? hlist
  rw [List.getLast?_append] at hlast
  cases hlast

/-- The change says to rename `e.1` to `e.2`. -/
def Says (change : OrderChange) (e : String × String) : Prop :=
  change.mode = .rename ∧ nameIn change.namesBefore (change.identityToIndex change.subject) =
  some e.1 ∧
    nameIn change.namesAfter (change.identityToIndexAfter change.subject) = some e.2

theorem changeColumn (h : Bears p names) {change : OrderChange} (hs : Says change e)
    (hn : e.1 ∈ names) : ∃ r, p.changeColumn change = some r ∧ r.1.sheet = p.sheet ∧
    Bears r.1 (renameFirst names e) := by
  obtain ⟨st, hst, hlen, hok⟩ := h.status
  have hlt := List.idxOf_lt_length_of_mem hn
  unfold SheetPatcher.changeColumn
  rw [hs.1]
  unfold SheetPatcher.renameCol
  simp only [hs.2.1, hs.2.2, Option.bind_some, h.matchCol hn, h.untitled.postApplyInfo]
  have hset : ∀ {row : List String} {s : TypedSheet String} (c : String), s.arr = [row] →
      (s.setCell (names.idxOf e.1) 0 c).arr = [row.set (names.idxOf e.1) c] := by
    intro row s c hs
    unfold TypedSheet.setCell
    rw [hs]
    rfl
  unfold updateCols
  rw [if_neg (by
    show ¬p.activeCol.w ≠ p.sheet.w
    rw [h.active.2, h.sheet_w]
    exact fun hne => hne rfl)]
  refine ⟨_, rfl, rfl, ⟨hset _ h.active.1, ?_⟩, ?_, h.no_synonyms, ?_, h.untitled⟩
  · show p.activeCol.w = _
    rw [h.active.2, length_renameFirst]
  · refine ⟨_, hset _ hst, by rw [List.length_set, hlen, length_renameFirst], fun x hx => ?_⟩
    rcases List.mem_or_eq_of_mem_set hx with hx | rfl
    · exact hok x hx
    · exact ne_deleted _ _
  · show p.sheet.w = _
    rw [h.sheet_w, length_renameFirst]

theorem changeColumn_none (h : Bears p names) {change : OrderChange} (hs : Says change e)
    (hn : e.1 ∉ names) : p.changeColumn change = none := by
  unfold SheetPatcher.changeColumn
  rw [hs.1]
  unfold SheetPatcher.renameCol
  simp only [hs.2.1, hs.2.2, Option.bind_some, h.matchCol_none hn, Option.bind_none]

end Bears

end SheetPatcher

namespace Merger

/-! ## What pass 4 reports -/

/-- The local and the remote name of each matched column, in the order of the units. -/
def namePairs (lnames rnames : List String) (units : List MatchUnit) : List (String × String) :=
  (units.filter fun u => decide (u.pivotUnit ≠ -1 ∧ u.remoteUnit ≠ -1 ∧ u.deleted = false)).map
  fun u =>
    (lnames.getD u.pivotUnit.toNat "", rnames.getD u.remoteUnit.toNat "")

def renameChange (cols : List Int) (names : List String) (e : String × String) : OrderChange :=
  { indicesBefore := cols, namesBefore := names
    indicesAfter := cols, namesAfter := renameFirst names e
    subject := cols.getD (names.idxOf e.1) (-1), mode := .rename }

/-- The renames that are reported, one after the other. -/
def renameScript (cols : List Int) : List (String × String) → List String → List OrderChange
  | [], _ => []
  | e :: es, names =>
    (if e.1 ≠ e.2 ∧ e.1 ∈ names then [renameChange cols names e] else []) ++
      renameScript cols es (renameFirst names e)

theorem mode_renameScript {cols : List Int} (es : List (String × String)) : ∀ names : List String,
    ∀ c ∈ renameScript cols es names, c.mode = .rename := by
  induction es with
  | nil => exact fun names c hc => absurd hc List.not_mem_nil
  | cons e es ih =>
    intro names c hc
    rcases List.mem_append.1 hc with hc | hc
    · split at hc
      · rw [List.mem_singleton.1 hc]
        rfl
      · exact absurd hc List.not_mem_nil
    · exact ih _ c hc

/-- A pair that is not reported changes nothing. -/
theorem renameFirst_of_silent {names : List String} {e : String × String}
    (h : ¬(e.1 ≠ e.2 ∧ e.1 ∈ names)) : renameFirst names e = names := by
  by_cases he : e.1 = e.2
  · obtain ⟨a, b⟩ := e
    obtain rfl : a = b := he
    exact renameFirst_self names a
  · exact renameFirst_of_not_mem fun hm => h ⟨he, hm⟩

theorem renamePass_eq {lnames rnames : List String} (units : List MatchUnit)
    (hread : ∀ u ∈ units, u.pivotUnit ≠ -1 ∧ u.remoteUnit ≠ -1 ∧ u.deleted = false →
      u.pivotUnit.toNat < lnames.length ∧ u.remoteUnit.toNat < rnames.length) : ∀ s : ColState,
    renamePass ⟨lnames, []⟩ ⟨rnames, []⟩ units s = .ok
      { s with
        localColNames := (namePairs lnames rnames units).foldl renameFirst s.localColNames
        cc := s.cc ++ renameScript s.localCols
          (namePairs lnames rnames units) s.localColNames } := by
  induction units with
  | nil =>
    intro s
    unfold renamePass
    rw [show namePairs lnames rnames [] = [] from rfl, renameScript, List.append_nil]
    rfl
  | cons u units ih =>
    intro s
    have hih := ih fun w hw => hread w (List.mem_cons_of_mem _ hw)
    unfold renamePass
    by_cases hu : u.pivotUnit ≠ -1 ∧ u.remoteUnit ≠ -1 ∧ u.deleted = false
    · obtain ⟨h1, h2⟩ := hread u List.mem_cons_self hu
      have hname : ∀ {names : List String} {i : Nat}, i < names.length →
          (⟨names, []⟩ : NameSniffer).suggestColumnName i = some (names.getD i "") := by
        intro names i hi
        unfold NameSniffer.suggestColumnName
        rw [if_pos (by show 0 < names.length; omega), List.getD_eq_getElem _ _ hi,
          List.getElem?_eq_getElem hi]
      have hpairs : namePairs lnames rnames (u :: units) =
          (lnames.getD u.pivotUnit.toNat "", rnames.getD u.remoteUnit.toNat "") ::
          namePairs lnames rnames units := by
        unfold namePairs
        rw [List.filter_cons, if_pos (decide_eq_true hu), List.map_cons]
      rw [if_pos hu, hname h1, hname h2, hpairs, List.foldl_cons, renameScript]
      generalize lnames.getD u.pivotUnit.toNat "" = lName, rnames.getD u.remoteUnit.toNat "" = rName
      simp only
      split
      · rw [hih]
        simp only [List.append_assoc]
        rfl
      · next hsilent =>
        rw [hih, renameFirst_of_silent hsilent, List.nil_append]
    · have hpairs : namePairs lnames rnames (u :: units) = namePairs lnames rnames units := by
        unfold namePairs
        rw [List.filter_cons, if_neg (by simpa using hu)]
      rw [if_neg hu, hih, hpairs]

/-! ## Replays -/

theorem says_renameChange {cols : List Int} (hc : cols.Nodup) {names : List String}
    (hlen : names.length = cols.length) {e : String × String} (he : e.1 ∈ names) :
    SheetPatcher.Bears.Says (renameChange cols names e) e := by
  have hlt := List.idxOf_lt_length_of_mem he
  have hlt' : names.idxOf e.1 < cols.length := by omega
  have hsub : cols.getD (names.idxOf e.1) (-1) = cols[names.idxOf e.1] :=
    List.getD_eq_getElem _ _ hlt'
  have hindex : OrderChange.indexIn cols (cols.getD (names.idxOf e.1) (-1)) = names.idxOf e.1 := by
    unfold OrderChange.indexIn
    rw [hsub, if_pos (List.getElem_mem _), hc.idxOf_getElem]
  refine ⟨rfl, ?_, ?_⟩
  · show SheetPatcher.nameIn names (OrderChange.indexIn cols (cols.getD (names.idxOf e.1) (-1))) = _
    rw [hindex, SheetPatcher.Shows.nameIn_natCast names hlt, List.getElem_idxOf hlt]
  · show SheetPatcher.nameIn (renameFirst names e)
      (OrderChange.indexIn cols (cols.getD (names.idxOf e.1) (-1))) = _
    rw [hindex, SheetPatcher.Shows.nameIn_natCast _ (by rwa [length_renameFirst])]
    unfold renameFirst
    rw [List.getElem_set_self]

section
variable {cols : List Int} (hc : cols.Nodup)
include hc

/-- A patcher with the names that the merge sees keeps up with it. -/
theorem renameScript_replay (es : List (String × String)) :
    ∀ (names : List String) (p : SheetPatcher), names.length = cols.length → p.Bears names →
    ∃ p', SheetPatcher.changeColumns (renameScript cols es names) p = some p' ∧ p'.sheet = p.sheet ∧
      p'.Bears (es.foldl renameFirst names) := by
  induction es with
  | nil => exact fun names p _ hp => ⟨p, rfl, rfl, hp⟩
  | cons e es ih =>
    intro names p hlen hp
    rw [List.foldl_cons, renameScript]
    by_cases he : e.1 ≠ e.2 ∧ e.1 ∈ names
    · obtain ⟨r, hr, hsheet, hbears⟩ := hp.changeColumn (says_renameChange hc hlen he.2) he.2
      obtain ⟨p', hp', hsheet', hbears'⟩ :=
        ih (renameFirst names e) r.1 (by rwa [length_renameFirst]) hbears
      rw [if_pos he, List.singleton_append, SheetPatcher.changeColumns, hr]
      exact ⟨p', hp', hsheet'.trans hsheet, hbears'⟩
    · rw [if_neg he, List.nil_append, renameFirst_of_silent he]
      exact ih names p hlen hp

/-- A patcher with other names: it gets as far as the names are there. -/
theorem renameScript_alone (es : List (String × String)) :
    ∀ (names pnames : List String) (p : SheetPatcher),
    names.length = cols.length → p.Bears pnames →
    (∀ pre e post, es = pre ++ e :: post → e.1 ∈ pre.foldl renameFirst names) →
    (∀ p', SheetPatcher.changeColumns (renameScript cols es names) p = some p' →
      p'.sheet = p.sheet ∧ p'.Bears (es.foldl renameFirst pnames)) ∧
    ((∀ pre e post, es = pre ++ e :: post → e.1 ∈ pre.foldl renameFirst pnames) →
      ∃ p', SheetPatcher.changeColumns (renameScript cols es names) p = some p') := by
  induction es with
  | nil =>
    intro names pnames p _ hp _
    refine ⟨fun p' h => ?_, fun _ => ⟨p, rfl⟩⟩
    cases h
    exact ⟨rfl, hp⟩
  | cons e es ih =>
    intro names pnames p hlen hp hthere
    have hmem : e.1 ∈ names := hthere [] e es rfl
    have hnext := ih (renameFirst names e)
    have hthere' : ∀ pre d post, es = pre ++ d :: post →
      d.1 ∈ pre.foldl renameFirst (renameFirst names e) := by
      intro pre d post h
      exact hthere (e :: pre) d post (by rw [h, List.cons_append])
    rw [List.foldl_cons, renameScript]
    by_cases he : e.1 = e.2
    · have hself : ∀ ns : List String, renameFirst ns e = ns :=
        fun ns => renameFirst_of_silent fun h => h.1 he
      rw [if_neg (fun h => h.1 he), List.nil_append, hself]
      obtain ⟨h1, h2⟩ := hnext pnames p (by rwa [length_renameFirst]) hp hthere'
      rw [hself] at h1 h2
      rw [hself]
      refine ⟨h1, fun h => h2 fun pre d post heq => ?_⟩
      have hd := h (e :: pre) d post (by rw [heq, List.cons_append])
      rwa [List.foldl_cons, hself] at hd
    · have hsays := says_renameChange hc hlen hmem
      rw [if_pos ⟨he, hmem⟩, List.singleton_append, SheetPatcher.changeColumns]
      by_cases hp1 : e.1 ∈ pnames
      · obtain ⟨r, hr, hsheet, hbears⟩ := hp.changeColumn hsays hp1
        obtain ⟨h1, h2⟩ :=
          hnext (renameFirst pnames e) r.1 (by rwa [length_renameFirst]) hbears hthere'
        rw [hr]
        refine ⟨fun p' h => ⟨(h1 p' h).1.trans hsheet, (h1 p' h).2⟩,
          fun h => h2 fun pre d post heq => ?_⟩
        exact h (e :: pre) d post (by rw [heq, List.cons_append])
      · rw [hp.changeColumn_none hsays hp1]
        exact ⟨fun p' h => (by cases h), fun h => absurd (h [] e es rfl) hp1⟩

end

/-! ## The two-way merge, with a header -/

/-- The pairs of names of a matching, in remote order. -/
def matchedNames (lnames rnames : List String) (M : Matching lnames.length rnames.length) :
    List (String × String) :=
  (List.range rnames.length).filterMap fun r => (M.bwd r).map fun l =>
  (lnames.getD l "", rnames.getD r "")

/-- No column is overtaken: if one gets the local name of another that is still to be renamed, it
stands behind it. -/
def InTime (lnames rnames : List String) (M : Matching lnames.length rnames.length)
    (cols : List Int) : Prop :=
  ∀ r₁ r₂ l₁ l₂ : Nat, r₁ < r₂ → M.b2a r₁ = l₁ → M.b2a r₂ = l₂ → rnames[r₁]? = lnames[l₂]? →
    cols.idxOf (l₂ : Int) < cols.idxOf (l₁ : Int)

section
variable (lnames rnames : List String) (M : Matching lnames.length rnames.length)

theorem namePairs_remote :
    namePairs lnames rnames (OrderMerge.remoteUnits M ++ OrderMerge.deletedUnits M) =
    matchedNames lnames rnames M := by
  unfold namePairs
  have hdel : ((OrderMerge.deletedUnits M).filter fun u =>
      decide (u.pivotUnit ≠ -1 ∧ u.remoteUnit ≠ -1 ∧ u.deleted = false)) = [] := by
    rw [List.filter_eq_nil_iff]
    intro u hu
    obtain ⟨p, -, rfl⟩ := List.mem_map.mp hu
    simp
  rw [List.filter_append, hdel, List.append_nil]
  unfold matchedNames OrderMerge.remoteUnits
  induction List.range rnames.length with
  | nil => rfl
  | cons r rs ih =>
    rw [List.map_cons, List.filter_cons, List.filterMap_cons, ← ih]
    unfold OrderMerge.remoteUnitAt
    cases M.bwd r with
    | none => rfl
    | some p =>
      rw [if_pos (decide_eq_true ⟨by simp only []; omega, by simp only []; omega, rfl⟩)]
      rfl

variable {lnames rnames M}

theorem mem_matchedNames {e : String × String} : e ∈ matchedNames lnames rnames M ↔
    ∃ r l : Nat, M.b2a r = l ∧ lnames[l]? = some e.1 ∧ rnames[r]? = some e.2 := by
  unfold matchedNames
  rw [List.mem_filterMap]
  constructor
  · rintro ⟨r, hr, he⟩
    obtain ⟨l, hl, rfl⟩ := Option.map_eq_some_iff.1 he
    obtain ⟨hll, hrr⟩ := M.bwd_lt hl
    refine ⟨r, l, (M.b2a_eq_iff r l).2 hl, ?_, ?_⟩
    · rw [List.getElem?_eq_getElem hll, List.getD_eq_getElem _ _ hll]
    · rw [List.getElem?_eq_getElem hrr, List.getD_eq_getElem _ _ hrr]
  · rintro ⟨r, l, hrl, h1, h2⟩
    have hb := (M.b2a_eq_iff r l).1 hrl
    refine ⟨r, List.mem_range.2 (M.bwd_lt hb).2, ?_⟩
    rw [hb, Option.map_some, List.getD_eq_getElem?_getD, h1, List.getD_eq_getElem?_getD, h2]
    rfl

theorem getElem?_inj {names : List String} (hn : names.Nodup) {i j : Nat} {name : String}
    (hi : names[i]? = some name) (hj : names[j]? = some name) : i = j := by
  obtain ⟨h1, h1'⟩ := List.getElem?_eq_some_iff.1 hi
  obtain ⟨h2, h2'⟩ := List.getElem?_eq_some_iff.1 hj
  exact hn.getElem_inj_iff.1 (h1'.trans h2'.symm)

theorem matchedNames_pairwise {R : String × String → String × String → Prop} :
    (matchedNames lnames rnames M).Pairwise R ↔ ∀ r₁ r₂ l₁ l₂ : Nat, r₁ < r₂ → M.b2a r₁ = l₁ →
    M.b2a r₂ = l₂ →
      R (lnames.getD l₁ "", rnames.getD r₁ "") (lnames.getD l₂ "", rnames.getD r₂ "") := by
  unfold matchedNames
  rw [List.pairwise_filterMap, List.pairwise_iff_getElem]
  constructor
  · intro h r₁ r₂ l₁ l₂ hlt h1 h2
    have hb1 := (M.b2a_eq_iff r₁ l₁).1 h1
    have hb2 := (M.b2a_eq_iff r₂ l₂).1 h2
    have hr1 := (M.bwd_lt hb1).2
    have hr2 := (M.bwd_lt hb2).2
    refine h r₁ r₂ (by rwa [List.length_range]) (by rwa [List.length_range]) hlt _ ?_ _ ?_
    · rw [List.getElem_range, hb1]
      rfl
    · rw [List.getElem_range, hb2]
      rfl
  · intro h r₁ r₂ hr1 hr2 hlt e he e' he'
    rw [List.getElem_range] at he he'
    obtain ⟨l₁, hl1, rfl⟩ := Option.map_eq_some_iff.1 he
    obtain ⟨l₂, hl2, rfl⟩ := Option.map_eq_some_iff.1 he'
    exact h r₁ r₂ l₁ l₂ hlt ((M.b2a_eq_iff r₁ l₁).2 hl1) ((M.b2a_eq_iff r₂ l₂).2 hl2)

theorem matchedNames_old (hl : lnames.Nodup) :
    ((matchedNames lnames rnames M).map Prod.fst).Nodup := by
  rw [List.Nodup, List.pairwise_map, matchedNames_pairwise]
  intro r₁ r₂ l₁ l₂ hlt h1 h2 heq
  have hb1 := (M.b2a_eq_iff r₁ l₁).1 h1
  have hb2 := (M.b2a_eq_iff r₂ l₂).1 h2
  have hll : l₁ = l₂ := by
    simp only [List.getD_eq_getElem _ _ (M.bwd_lt hb1).1,
      List.getD_eq_getElem _ _ (M.bwd_lt hb2).1] at heq
    exact hl.getElem_inj_iff.1 heq
  have := M.bwd_inj hb1 (hll ▸ hb2)
  omega

theorem matchedNames_new (hr : rnames.Nodup) :
    ((matchedNames lnames rnames M).map Prod.snd).Nodup := by
  rw [List.Nodup, List.pairwise_map, matchedNames_pairwise]
  intro r₁ r₂ l₁ l₂ hlt h1 h2 heq
  have hb1 := (M.b2a_eq_iff r₁ l₁).1 h1
  have hb2 := (M.b2a_eq_iff r₂ l₂).1 h2
  simp only [List.getD_eq_getElem _ _ (M.bwd_lt hb1).2,
    List.getD_eq_getElem _ _ (M.bwd_lt hb2).2] at heq
  have := hr.getElem_inj_iff.1 heq
  omega

/-- The columns `cols` have these names, and the local ones their own. -/
def Labels (lnames rnames : List String) (M : Matching lnames.length rnames.length)
    (cols : List Int) (names : List String) : Prop :=
  ∀ r l : Nat, M.b2a r = l → ∃ name ∈ names, lnames[l]? = some name ∧
    names.idxOf name = cols.idxOf (l : Int)

theorem Labels.mem {cols : List Int} {names : List String} (h : Labels lnames rnames M cols names) :
    ∀ e ∈ matchedNames lnames rnames M, e.1 ∈ names := by
  intro e he
  obtain ⟨r, l, hrl, h1, -⟩ := mem_matchedNames.1 he
  obtain ⟨name, hmem, hname, -⟩ := h r l hrl
  rw [hname, Option.some.injEq] at h1
  exact h1 ▸ hmem

theorem Labels.pairwise_iff {cols : List Int} {names : List String}
    (h : Labels lnames rnames M cols names) :
    (matchedNames lnames rnames M).Pairwise (Meets names) ↔ InTime lnames rnames M cols := by
  rw [matchedNames_pairwise]
  have hplace : ∀ r l : Nat, M.b2a r = l →
    names.idxOf (lnames.getD l "") = cols.idxOf (l : Int) := by
    intro r l hrl
    obtain ⟨name, -, hname, hidx⟩ := h r l hrl
    rw [List.getD_eq_getElem?_getD, hname]
    exact hidx
  have hsame : ∀ r₁ r₂ l₁ l₂ : Nat, M.b2a r₁ = l₁ → M.b2a r₂ = l₂ →
      (rnames.getD r₁ "" = lnames.getD l₂ "" ↔ rnames[r₁]? = lnames[l₂]?) := by
    intro r₁ r₂ l₁ l₂ h1 h2
    have hlt1 := (M.bwd_lt ((M.b2a_eq_iff r₁ l₁).1 h1)).2
    have hlt2 := (M.bwd_lt ((M.b2a_eq_iff r₂ l₂).1 h2)).1
    rw [List.getElem?_eq_getElem hlt1, List.getElem?_eq_getElem hlt2, Option.some.injEq,
      List.getD_eq_getElem _ _ hlt1, List.getD_eq_getElem _ _ hlt2]
  constructor
  · intro hp r₁ r₂ l₁ l₂ hlt h1 h2 heq
    have hlt' := hp r₁ r₂ l₁ l₂ hlt h1 h2 ((hsame r₁ r₂ l₁ l₂ h1 h2).2 heq)
    rwa [hplace r₂ l₂ h2, hplace r₁ l₁ h1] at hlt'
  · intro ht r₁ r₂ l₁ l₂ hlt h1 h2 heq
    show names.idxOf (lnames.getD l₂ "") < names.idxOf (lnames.getD l₁ "")
    rw [hplace r₂ l₂ h2, hplace r₁ l₁ h1]
    exact ht r₁ r₂ l₁ l₂ hlt h1 h2 ((hsame r₁ r₂ l₁ l₂ h1 h2).1 heq)

/-- As long as none is overtaken, the name to be changed is there. -/
theorem Labels.present {cols : List Int} {names : List String}
    (h : Labels lnames rnames M cols names)
    (hl : lnames.Nodup) (htime : InTime lnames rnames M cols) {pre post : List (String × String)}
    {e : String × String} (heq : matchedNames lnames rnames M = pre ++ e :: post) :
    e.1 ∈ pre.foldl renameFirst names := by
  have hpair := h.pairwise_iff.2 htime
  have hmem := h.mem
  have hold := @matchedNames_old lnames rnames M hl
  rw [heq] at hpair hmem hold
  exact mem_foldl_renameFirst hmem hold hpair

/-- The columns get their remote names, exactly when none is overtaken. -/
theorem Labels.renamed_iff {cols : List Int} {names : List String}
    (h : Labels lnames rnames M cols names) (hl : lnames.Nodup) (hr : rnames.Nodup) :
    (∀ r l : Nat, M.b2a r = l →
      ((matchedNames lnames rnames M).foldl renameFirst names)[cols.idxOf (l : Int)]? =
        rnames[r]?) ↔
      InTime lnames rnames M cols := by
  rw [← h.pairwise_iff, ← renames_iff h.mem (matchedNames_old hl) (matchedNames_new hr)]
  constructor
  · intro hall e he
    obtain ⟨r, l, hrl, h1, h2⟩ := mem_matchedNames.1 he
    obtain ⟨name, -, hname, hidx⟩ := h r l hrl
    rw [hname, Option.some.injEq] at h1
    rw [← h1, hidx, hall r l hrl, h2]
  · intro hall r l hrl
    obtain ⟨name, -, hname, hidx⟩ := h r l hrl
    have hrr := (M.bwd_lt ((M.b2a_eq_iff r l).1 hrl)).2
    rw [← hidx, List.getElem?_eq_getElem hrr]
    exact hall (name, rnames[r])
      (mem_matchedNames.2 ⟨r, l, hrl, hname, List.getElem?_eq_getElem hrr⟩)

end

/-- After pass 4 every matched column has its remote name in the list, and the whole script gives
the same name to the same column of a sheet with the local columns.  Below the headers that
`headerHeight` finds on the way the column keeps its cells. -/
def RenamesRight (lnames rnames : List String) (M : Matching lnames.length rnames.length)
    (indexes : AssocMap String Bool) (sheet : TypedSheet SheetCell)
    (headerHeight : TypedSheet SheetCell → Nat) (units : List MatchUnit) : Prop :=
  ∃ s p0 p, columnPasses { assumeHeader := true } indexes ⟨lnames, []⟩ ⟨rnames, []⟩ units
      (ColState.start lnames.length lnames) = .ok s ∧
    SheetPatcher.attach sheet lnames true = some p0 ∧
    SheetPatcher.changeColumns s.cc (p0.titled sheet headerHeight) = some p ∧
    ∀ r l : Nat, M.b2a r = l →
      s.localColNames[s.localCols.idxOf (l : Int)]? = rnames[r]? ∧
      p.activeCol.cell (s.localCols.idxOf (l : Int)) 0 = rnames.getD r "" ∧
      ∀ y, SheetPatcher.headerReach s.cc (p0.titled sheet headerHeight) ≤ y →
        (p.sheet.arr[y]?).map (fun row => row.getD (s.localCols.idxOf (l : Int)) sheet.zero) =
          (sheet.arr[y]?).map fun row => row.getD l sheet.zero

/-- The same with a replay of the renames alone, on a sheet whose columns are otherwise left as they
were. -/
def RenamesRightAlone (lnames rnames : List String) (M : Matching lnames.length rnames.length)
    (indexes : AssocMap String Bool) (sheet : TypedSheet SheetCell)
    (headerHeight : TypedSheet SheetCell → Nat) (units : List MatchUnit) : Prop :=
  ∃ s p0 p, columnPasses { assumeHeader := true } indexes ⟨lnames, []⟩ ⟨rnames, []⟩ units
      (ColState.start lnames.length lnames) = .ok s ∧
    SheetPatcher.attach sheet lnames true = some p0 ∧
    SheetPatcher.changeColumns (s.cc.filter fun c => decide (c.mode = .rename))
    (p0.titled sheet headerHeight) = some p ∧
    TypedSheet.SameBelow (SheetPatcher.headerReach (s.cc.filter fun c => decide (c.mode = .rename))
      (p0.titled sheet headerHeight)) p.sheet sheet ∧
    ∀ r l : Nat, M.b2a r = l →
      s.localColNames[s.localCols.idxOf (l : Int)]? = rnames[r]? ∧
      p.activeCol.cell l 0 = rnames.getD r ""

theorem InStep.labels {lnames rnames : List String} {rows : List (List SheetCell)}
    {p : SheetPatcher} {s : ColState}
    (h : InStep lnames rnames rows p s) {M : Matching lnames.length rnames.length}
    (hmem : ∀ r l : Nat, M.b2a r = l → (l : Int) ∈ s.localCols) :
    Labels lnames rnames M s.localCols s.localColNames := by
  intro r l hrl
  obtain ⟨nm, hnm, hcol⟩ := h.named
  have hin := hmem r l hrl
  have hlt := List.idxOf_lt_length_of_mem hin
  have hname : lnames[l]? = some (nm l) := by
    rcases hcol l hin with ⟨l', hll, hname⟩ | ⟨r', j, rName, hneg, -⟩
    · obtain rfl : l = l' := by omega
      exact hname
    · omega
  have hat : s.localColNames[s.localCols.idxOf (l : Int)]? = some (nm l) := by
    rw [hnm, List.getElem?_map, List.getElem?_eq_getElem hlt, List.getElem_idxOf hlt]
    rfl
  have hmem' := List.mem_of_getElem? hat
  exact ⟨nm l, hmem', hname, getElem?_inj h.shows.names_nodup (getElem?_idxOf_of_mem hmem') hat⟩

theorem deletePass_report {indexes : AssocMap String Bool} (units : List MatchUnit) :
    ∀ s s' : ColState, deletePass indexes units s = .ok s' → ∃ dels, s'.cc = s.cc ++ dels ∧
    ∀ c ∈ dels, c.mode = .delete := by
  induction units with
  | nil =>
    intro s s' h
    cases h
    exact ⟨[], (List.append_nil _).symm, fun c hc => absurd hc List.not_mem_nil⟩
  | cons u units ih =>
    intro s s' h
    unfold deletePass at h
    simp only at h
    split at h
    · split at h
      · obtain ⟨dels, hcc, hmode⟩ := ih _ _ h
        refine ⟨_ :: dels, by rw [hcc, List.append_assoc, List.singleton_append], fun c hc => ?_⟩
        rcases List.mem_cons.mp hc with rfl | hc
        · rfl
        · exact hmode c hc
      · cases h
    · exact ih _ _ h

theorem pivotUnit_lt {n m : Nat} (M : Matching n m) :
    ∀ u ∈ OrderMerge.remoteUnits M ++ OrderMerge.deletedUnits M, u.pivotUnit ≠ -1 →
    u.pivotUnit.toNat < n := by
  intro u hu hp
  rcases List.mem_append.mp hu with hu | hu
  · obtain ⟨r, -, rfl⟩ := List.mem_map.mp hu
    unfold OrderMerge.remoteUnitAt at hp ⊢
    cases hb : M.bwd r with
    | none =>
      rw [hb] at hp
      exact absurd rfl hp
    | some p => exact (M.bwd_lt hb).1
  · obtain ⟨p, hp', rfl⟩ := List.mem_map.mp hu
    exact List.mem_range.1 (List.mem_filter.1 hp').1

/-- Passes 1 to 3 rename nothing. -/
theorem Passes.mode {n m : Nat} {M : Matching n m} {indexes : AssocMap String Bool}
    {lnames rnames : List String} {units : List MatchUnit} {order : List Int} {s1 s2 s3 : ColState}
    (h : Passes M indexes lnames rnames units order s1 s2 s3) : ∀ c ∈ s3.cc, c.mode ≠ .rename := by
  obtain ⟨dels, hcc1, hdels⟩ := deletePass_report units _ _ h.deleted
  obtain ⟨-, ins, hcc3, hins, -⟩ := insertPass_report units 0 s2 s3 h.inserted
  have hmoves : ∃ moves, s2.cc = s1.cc ++ moves ∧ ∀ c ∈ moves, c.mode = .move := by
    have hshuffle := h.shuffled
    unfold shufflePass at hshuffle
    simp only at hshuffle
    split at hshuffle
    · cases hshuffle
    split at hshuffle
    · cases hshuffle
    · exact (movePass_report _ s1 s2 hshuffle).2
  obtain ⟨moves, hcc2, hmoves⟩ := hmoves
  intro c hc hmode
  rw [hcc3, hcc2, hcc1] at hc
  simp only [List.mem_append] at hc
  rcases hc with ((hc | hc) | hc) | hc
  · exact absurd hc List.not_mem_nil
  · exact absurd (hmode.symm.trans (hdels c hc)) (by decide)
  · exact absurd (hmode.symm.trans (hmoves c hc)) (by decide)
  · exact absurd (hmode.symm.trans (hins c hc)) (by decide)

/-- Every matched column is there after pass 3. -/
theorem Passes.mem {lnames rnames : List String} {M : Matching lnames.length rnames.length}
    {indexes : AssocMap String Bool} {order : List Int} {s1 s2 s3 : ColState}
    (h : Passes M indexes lnames rnames (OrderMerge.remoteUnits M ++ OrderMerge.deletedUnits M)
      order s1 s2 s3)
    (r l : Nat) (hrl : M.b2a r = l) : (l : Int) ∈ s3.localCols := by
  have hb := (M.b2a_eq_iff r l).1 hrl
  have hkept : (l : Int) ∈ s2.localCols := by
    rw [h.perm.mem_iff]
    refine List.mem_filterMap.2 ⟨r, List.mem_range.2 (M.bwd_lt hb).2, ?_⟩
    rw [hb]
    rfl
  have hfil := insertPass_locals _ (twoWay_units M) 0 s2 s3 h.inserted
  have hin : (l : Int) ∈ s2.localCols.filter fun c => decide (0 ≤ c) :=
    List.mem_filter.2 ⟨hkept, decide_eq_true (Int.natCast_nonneg l)⟩
  rw [← hfil] at hin
  exact (List.mem_filter.1 hin).1

/-- The columns after pass 4. -/
def ColState.renamed (s : ColState) (es : List (String × String)) : ColState :=
  { s with
    localColNames := es.foldl renameFirst s.localColNames
    cc := s.cc ++ renameScript s.localCols es s.localColNames }

section
variable {lnames rnames : List String} {M : Matching lnames.length rnames.length}
    {indexes : AssocMap String Bool}
  {order : List Int} {s1 s2 s3 : ColState}
  (h : Passes M indexes lnames rnames (OrderMerge.remoteUnits M ++ OrderMerge.deletedUnits M) order
    s1 s2 s3)

include h

theorem Passes.eq : columnPasses { assumeHeader := false } indexes ⟨lnames, []⟩ ⟨rnames, []⟩
    (OrderMerge.remoteUnits M ++ OrderMerge.deletedUnits M) (ColState.start lnames.length lnames) =
    .ok s3 := by
  unfold columnPasses
  rw [h.deleted]
  simp only [Except.bind, h.shuffled, h.inserted]
  rfl

theorem Passes.eq_renamed : columnPasses { assumeHeader := true } indexes ⟨lnames, []⟩ ⟨rnames, []⟩
    (OrderMerge.remoteUnits M ++ OrderMerge.deletedUnits M) (ColState.start lnames.length lnames) =
      .ok (s3.renamed (matchedNames lnames rnames M)) := by
  have hpass := @renamePass_eq lnames rnames (OrderMerge.remoteUnits M ++ OrderMerge.deletedUnits M)
    (fun u hu hm => ⟨pivotUnit_lt M u hu hm.1, remoteUnit_lt M u hu hm.2.1⟩) s3
  rw [namePairs_remote] at hpass
  unfold columnPasses
  rw [h.deleted]
  simp only [Except.bind, h.shuffled, h.inserted]
  exact hpass

variable (hl : lnames.Nodup) (hr : rnames.Nodup) {sheet : TypedSheet SheetCell}
    (hw : sheet.w = lnames.length)
  (hrect : ∀ row ∈ sheet.arr, row.length = sheet.w) {f : TypedSheet SheetCell → Nat}
  (hfits : ∀ sheet, f sheet ≤ sheet.height)

include hl hr hw hrect hfits

theorem Passes.renamesRight_iff :
    RenamesRight lnames rnames M indexes sheet f
      (OrderMerge.remoteUnits M ++ OrderMerge.deletedUnits M) ↔
      InTime lnames rnames M s3.localCols := by
  obtain ⟨p0, hp0, hin0⟩ := attach_inStep rnames hl hw hrect true
  obtain ⟨script, p3, hcc, hrun, hin3⟩ := h.leads sheet.arr p0 hin0
  have hnamed := (hin3.labels h.mem).renamed_iff hl hr
  constructor
  · rintro ⟨s, p0', p, hs, -, -, hall⟩
    rw [h.eq_renamed, Except.ok.injEq] at hs
    subst hs
    exact hnamed.1 fun r l hrl => (hall r l hrl).1
  · intro htime
    obtain ⟨p, hp, hsheet, hbears⟩ :=
      renameScript_replay hin3.shows.ids_nodup (matchedNames lnames rnames M)
      s3.localColNames p3 hin3.shows.parallel hin3.shows.bears
    obtain ⟨hsheet0, hun⟩ := SheetPatcher.attach_sheet hp0
    have hplain : SheetPatcher.changeColumns (s3.renamed (matchedNames lnames rnames M)).cc p0 =
      some p := by
      show SheetPatcher.changeColumns (s3.cc ++ _) p0 = _
      rw [show s3.cc = script from hcc, SheetPatcher.changeColumns_append hrun]
      exact hp
    obtain ⟨t, hrun', hbelow⟩ := SheetPatcher.changeColumns_titled hfits
      (s3.renamed (matchedNames lnames rnames M)).cc 0 p0 sheet hun
        (hsheet0 ▸ TypedSheet.SameBelow.refl 0 sheet)
    rw [hplain] at hrun'
    have hsame := hbelow p hplain
    rw [Nat.zero_max] at hsame
    refine ⟨_, p0, p.titled t f, h.eq_renamed, hp0, hrun', fun r l hrl => ?_⟩
    · have hname := hnamed.2 htime r l hrl
      obtain ⟨hll, hrr⟩ := M.bwd_lt ((M.b2a_eq_iff r l).1 hrl)
      refine ⟨hname, ?_, ?_⟩
      · show p.activeCol.cell (s3.localCols.idxOf (l : Int)) 0 = _
        rw [hbears.cell_activeCol, List.getD_eq_getElem?_getD, hname, List.getElem?_eq_getElem hrr,
          List.getD_eq_getElem _ _ hrr]
        rfl
      · intro y hy
        have hcol := hin3.shows.column hw hrect hll (h.mem r l hrl)
        rw [← hsheet] at hcol
        show (t.arr[y]?).map _ = _
        rw [hsame.getElem? hy, ← List.getElem?_map, ← List.getElem?_map]
        exact congrArg (fun cells => cells[y]?) hcol

theorem Passes.renamesRightAlone_iff :
    RenamesRightAlone lnames rnames M indexes sheet f
      (OrderMerge.remoteUnits M ++ OrderMerge.deletedUnits M) ↔
      InTime lnames rnames M s3.localCols ∧
      InTime lnames rnames M (ColState.start lnames.length lnames).localCols := by
  obtain ⟨p0, hp0, hin0⟩ := attach_inStep rnames hl hw hrect true
  obtain ⟨script, p3, -, -, hin3⟩ := h.leads sheet.arr p0 hin0
  have hlabels := hin3.labels h.mem
  have hnamed := hlabels.renamed_iff hl hr
  have hplace : ∀ r l : Nat, M.b2a r = l → (ColState.start lnames.length lnames).localCols[l]? =
    some (l : Int) := by
    intro r l hrl
    show ((List.range lnames.length).map Int.ofNat)[l]? = _
    rw [List.getElem?_map, List.getElem?_range (M.bwd_lt ((M.b2a_eq_iff r l).1 hrl)).1]
    rfl
  have hlabels0 := hin0.labels fun r l hrl => List.mem_of_getElem? (hplace r l hrl)
  have hnamed0 := hlabels0.renamed_iff hl hr
  have hidx : ∀ r l : Nat, M.b2a r = l →
    (ColState.start lnames.length lnames).localCols.idxOf (l : Int) = l := by
    intro r l hrl
    obtain ⟨hlt, hget⟩ := List.getElem?_eq_some_iff.1 (hplace r l hrl)
    have hself := hin0.shows.ids_nodup.idxOf_getElem l hlt
    rwa [hget] at hself
  -- the renames are those of pass 4
  have hscript :
    ((s3.renamed (matchedNames lnames rnames M)).cc.filter fun c => decide (c.mode = .rename)) =
      renameScript s3.localCols (matchedNames lnames rnames M) s3.localColNames := by
    show ((s3.cc ++ _).filter _) = _
    rw [List.filter_append, List.filter_eq_nil_iff.2, List.nil_append, List.filter_eq_self.2]
    · exact fun c hc => decide_eq_true (mode_renameScript _ _ c hc)
    · intro c hc hmode
      exact h.mode c hc (of_decide_eq_true hmode)
  obtain ⟨hsheet0, hun⟩ := SheetPatcher.attach_sheet hp0
  obtain ⟨t, htitled, hbelow⟩ := SheetPatcher.changeColumns_titled hfits
    (renameScript s3.localCols (matchedNames lnames rnames M) s3.localColNames) 0 p0 sheet hun
      (hsheet0 ▸ TypedSheet.SameBelow.refl 0 sheet)
  constructor
  · rintro ⟨s, p0', p', hs, hp0', hrun, -, hall⟩
    rw [h.eq_renamed, Except.ok.injEq] at hs
    subst hs
    rw [hp0, Option.some.injEq] at hp0'
    subst hp0'
    have htime := hnamed.1 fun r l hrl => (hall r l hrl).1
    rw [hscript, htitled] at hrun
    obtain ⟨p, hplain, rfl⟩ := Option.map_eq_some_iff.mp hrun
    obtain ⟨hsheet, hbears⟩ :=
      (renameScript_alone hin3.shows.ids_nodup _ _ _ p0 hin3.shows.parallel hin0.shows.bears
        (fun pre e post heq => hlabels.present hl htime heq)).1 p hplain
    refine ⟨htime, hnamed0.1 fun r l hrl => ?_⟩
    obtain ⟨hll, hrr⟩ := M.bwd_lt ((M.b2a_eq_iff r l).1 hrl)
    have hcell : p.activeCol.cell l 0 = rnames.getD r "" := (hall r l hrl).2
    have hlen := hbears.sheet_w
    rw [hsheet, hsheet0, hw] at hlen
    rw [hbears.cell_activeCol, List.getD_eq_getElem _ _ (by omega),
      List.getD_eq_getElem _ _ hrr] at hcell
    rw [hidx r l hrl, List.getElem?_eq_getElem hrr, ← hcell]
    exact List.getElem?_eq_getElem _
  · rintro ⟨htime, htime0⟩
    have hthere0 : ∀ pre e post, matchedNames lnames rnames M = pre ++ e :: post →
        e.1 ∈ pre.foldl renameFirst lnames := fun pre e post heq => hlabels0.present hl htime0 heq
    obtain ⟨h1, h2⟩ :=
      renameScript_alone hin3.shows.ids_nodup (matchedNames lnames rnames M) s3.localColNames lnames
      p0
      hin3.shows.parallel hin0.shows.bears (fun pre e post heq => hlabels.present hl htime heq)
    obtain ⟨p, hrun⟩ := h2 hthere0
    obtain ⟨hsheet, hbears⟩ := h1 p hrun
    have hsame := hbelow p hrun
    rw [Nat.zero_max, hsheet, hsheet0] at hsame
    rw [hrun] at htitled
    refine ⟨_, p0, p.titled t f, h.eq_renamed,
      hp0, by rw [hscript]; exact htitled, by rw [hscript]; exact hsame,
      fun r l hrl => ⟨hnamed.2 htime r l hrl, ?_⟩⟩
    have hrr := (M.bwd_lt ((M.b2a_eq_iff r l).1 hrl)).2
    have hname := hnamed0.2 htime0 r l hrl
    rw [hidx r l hrl] at hname
    show p.activeCol.cell l 0 = _
    rw [hbears.cell_activeCol, List.getD_eq_getElem?_getD,
      show ((matchedNames lnames rnames M).foldl renameFirst lnames)[l]? = rnames[r]? from hname,
      List.getElem?_eq_getElem hrr, List.getD_eq_getElem _ _ hrr]
    rfl

end

/-- **Column renames.**  The matched columns get their remote names, in the list and on the sheet,
exactly when none is overtaken; if the renames are replayed alone, none may be overtaken among the
local columns as they stood at first either. -/
theorem renames_right_iff (lnames rnames : List String) (hl : lnames.Nodup) (hr : rnames.Nodup)
    (M : Matching lnames.length rnames.length) (indexes : AssocMap String Bool)
    (sheet : TypedSheet SheetCell)
    (hw : sheet.w = lnames.length) (hrect : ∀ row ∈ sheet.arr, row.length = sheet.w)
    (headerHeight : TypedSheet SheetCell → Nat)
    (hfits : ∀ sheet, headerHeight sheet ≤ sheet.height) :
    ∃ cols s, OrderMerge.merge
      (OrderMerge.enough (Matching.identity lnames.length).toOrderResult M.toOrderResult)
        (Matching.identity lnames.length).toOrderResult M.toOrderResult
          { assumeHeader := true } true = some cols ∧
      columnPasses { assumeHeader := false } indexes ⟨lnames, []⟩ ⟨rnames, []⟩ cols.accum
        (ColState.start lnames.length lnames) = .ok s ∧
      (RenamesRight lnames rnames M indexes sheet headerHeight cols.accum ↔
        InTime lnames rnames M s.localCols) ∧
      (RenamesRightAlone lnames rnames M indexes sheet headerHeight cols.accum ↔
        InTime lnames rnames M s.localCols ∧
          InTime lnames rnames M (ColState.start lnames.length lnames).localCols) := by
  obtain ⟨order, s1, s2, s3, h⟩ := passes lnames rnames M indexes
  exact ⟨_, s3, OrderMerge.merge_identity_local rfl rfl M rfl (by
    unfold OrderMerge.enough
    rw [Matching.blen_toOrderResult, Matching.blen_toOrderResult]), h.eq,
      h.renamesRight_iff hl hr hw hrect hfits,
    h.renamesRightAlone_iff hl hr hw hrect hfits⟩

/-- Two columns with their names above the cells. -/
def titledColumns (a b : String) : TypedSheet SheetCell :=
  ⟨[[⟨a, false⟩, ⟨b, false⟩], [⟨"1", false⟩, ⟨"2", false⟩]], 2, ⟨"", false⟩⟩

/-- The header is the first row. -/
def firstRow (sheet : TypedSheet SheetCell) : Nat := min 1 sheet.height

/-- Columns `b`, `a` that the remote has as `c`, `b`. -/
theorem renames_right_iff_chain :
    ∃ cols s, OrderMerge.merge
      (OrderMerge.enough (Matching.identity 2).toOrderResult (Matching.identity 2).toOrderResult)
        (Matching.identity 2).toOrderResult (Matching.identity 2).toOrderResult
          { assumeHeader := true } true = some cols ∧
      columnPasses { assumeHeader := false } [] ⟨["b", "a"], []⟩ ⟨["c", "b"], []⟩ cols.accum
        (ColState.start 2 ["b", "a"]) = .ok s ∧
      (RenamesRight ["b", "a"] ["c", "b"] (Matching.identity 2) []
        (titledColumns "b" "a") firstRow cols.accum ↔
        InTime ["b", "a"] ["c", "b"] (Matching.identity 2) s.localCols) ∧
      (RenamesRightAlone ["b", "a"] ["c", "b"] (Matching.identity 2) []
        (titledColumns "b" "a") firstRow cols.accum ↔
        InTime ["b", "a"] ["c", "b"] (Matching.identity 2) s.localCols ∧
          InTime ["b", "a"] ["c", "b"] (Matching.identity 2)
            (ColState.start 2 ["b", "a"]).localCols) :=
  renames_right_iff ["b", "a"] ["c", "b"] (by decide) (by decide) (Matching.identity 2) []
    (titledColumns "b" "a") rfl
    (by decide) firstRow fun sheet => Nat.min_le_right 1 sheet.height

/-- Columns `a`, `b` that the remote has as `b`, `c`: once the first is `b`, it is the one renamed
to `c`. -/
theorem renames_wrong_chain :
    ∃ cols, OrderMerge.merge
      (OrderMerge.enough (Matching.identity 2).toOrderResult (Matching.identity 2).toOrderResult)
        (Matching.identity 2).toOrderResult (Matching.identity 2).toOrderResult
          { assumeHeader := true } true = some cols ∧
      ¬RenamesRight ["a", "b"] ["b", "c"] (Matching.identity 2) []
        (titledColumns "a" "b") firstRow cols.accum ∧
      ¬RenamesRightAlone ["a", "b"] ["b", "c"] (Matching.identity 2) []
      (titledColumns "a" "b") firstRow cols.accum := by
  have hcols : OrderMerge.merge
      (OrderMerge.enough (Matching.identity 2).toOrderResult (Matching.identity 2).toOrderResult)
      (Matching.identity 2).toOrderResult (Matching.identity 2).toOrderResult
        { assumeHeader := true } true =
      some ⟨OrderMerge.remoteUnits (Matching.identity 2), 2⟩ := by decide +kernel
  have hlist : ∀ s, columnPasses { assumeHeader := true } [] ⟨["a", "b"], []⟩ ⟨["b", "c"], []⟩
      (OrderMerge.remoteUnits (Matching.identity 2)) (ColState.start 2 ["a", "b"]) = .ok s →
      s.localColNames[s.localCols.idxOf (((0 : Nat) : Int))]? = some "c" := by
    have hm : ((columnPasses { assumeHeader := true } [] ⟨["a", "b"], []⟩ ⟨["b", "c"], []⟩
        (OrderMerge.remoteUnits (Matching.identity 2)) (ColState.start 2 ["a", "b"])).toOption.map
          fun s =>
          s.localColNames[s.localCols.idxOf (((0 : Nat) : Int))]?) = some (some "c") := by
            decide +kernel
    intro s hs
    rw [hs] at hm
    exact Option.some.inj hm
  refine ⟨_, hcols, ?_, ?_⟩
  · rintro ⟨s, _, _, hs, _, _, hall⟩
    have hname := (hall 0 0 (by decide)).1
    rw [hlist s hs] at hname
    exact absurd hname (by decide)
  · rintro ⟨s, _, _, hs, _, _, _, hall⟩
    have hname := (hall 0 0 (by decide)).1
    rw [hlist s hs] at hname
    exact absurd hname (by decide)

end Merger

end Coopy
