import Coopy.ColumnScript
import Mathlib.Data.List.InsertIdx

/-!
# Names for the inserted columns

Pass 3 of `merge` gives each column it inserts the remote name, in braces if this starts with a
digit, and appends `_` until no column is called so.  A list has only so many names that are at
least as long, and each `_` leaves one behind.

    the names are distinct → the loop ends at each insertion, the names stay distinct,
      and the earlier ones keep their order                                          (insertedNames)
-/

namespace Coopy

open Lib

namespace Merger

/-- The loop from one name to the name it ends with: as long as a column is called so, `_` is
appended. -/
inductive CollisionLoop (taken : List String) : String → String → Prop
  | free {name : String} : name ∉ taken → CollisionLoop taken name name
  | collision {name name' : String} : name ∈ taken → CollisionLoop taken (name ++ "_") name' →
    CollisionLoop taken name name'

namespace CollisionLoop

variable {taken : List String} {name : String}

theorem unique {x y : String} (hx : CollisionLoop taken name x)
    (hy : CollisionLoop taken name y) : x = y := by
  induction hx with
  | free hfree =>
    cases hy with
    | free => rfl
    | collision hmem => exact absurd hmem hfree
  | collision hmem _ ih =>
    cases hy with
    | free hfree => exact absurd hmem hfree
    | collision _ hy => exact ih hy

theorem not_mem {x : String} (hx : CollisionLoop taken name x) : x ∉ taken := by
  induction hx with
  | free hfree => exact hfree
  | collision _ _ ih => exact ih

theorem of_freeName {fuel : Nat} : ∀ {name x : String}, freeName fuel taken name = some x →
    CollisionLoop taken name x := by
  induction fuel with
  | zero => exact fun h => nomatch h
  | succ fuel ih =>
    intro name x h
    unfold freeName at h
    split at h
    · next hmem => exact collision hmem (ih h)
    · next hfree =>
      cases h
      exact free hfree

/-- The loop ends, and within the fuel of the pass. -/
theorem ends (taken : List String) (name : String) :
    ∃ x, freeName (taken.length + 1) taken name = some x ∧ CollisionLoop taken name x := by
  obtain ⟨x, hx⟩ :=
    freeName_isSome (taken.length + 1) name (Nat.lt_succ_of_le (List.countP_le_length (l := taken)))
  exact ⟨x, hx, of_freeName hx⟩

end CollisionLoop

/-- What passes 1 and 2 leave to pass 3: distinct names, one for each column that is kept, and units
whose remote columns have names. -/
structure InsertionStart where
  state : ColState
  units : List MatchUnit
  remoteNames : NameSniffer
  distinct : state.localColNames.Nodup
  kept : state.localColNames.length = (shuffledCols units).length
  named : ∀ u ∈ units, Inserted u → ∃ rName, remoteNames.suggestColumnName u.remoteUnit.toNat =
    some rName

/-- One insertion, among the names of the columns so far: a remote name goes through the loop, and
is put in its place. -/
structure NamesColumn (units : List MatchUnit) (remoteNames : NameSniffer)
    (c : OrderChange) : Prop where
  named : ∃ u ∈ units, ∃ rName name k, Inserted u ∧
    remoteNames.suggestColumnName u.remoteUnit.toNat = some rName ∧
    CollisionLoop c.namesBefore (braced rName) name ∧ k ≤ c.namesBefore.length ∧
    c.namesAfter = c.namesBefore.insertIdx k name
  distinct : c.namesAfter.Nodup

theorem NamesColumn.cons {units : List MatchUnit} {remoteNames : NameSniffer} {c : OrderChange}
    (h : NamesColumn units remoteNames c) (u : MatchUnit) :
    NamesColumn (u :: units) remoteNames c := by
  obtain ⟨⟨v, hv, hnamed⟩, hdistinct⟩ := h
  exact ⟨⟨v, List.mem_cons_of_mem _ hv, hnamed⟩, hdistinct⟩

theorem insertPass_names {remoteNames : NameSniffer} (units : List MatchUnit)
    (hread : ∀ u ∈ units, Inserted u → ∃ rName, remoteNames.suggestColumnName u.remoteUnit.toNat =
      some rName) :
    ∀ (k : Nat) (s : ColState), s.localColNames.Nodup →
    s.localColNames.length = k + (shuffledCols units).length →
      ∃ s' ins, insertPass remoteNames k units s = .ok s' ∧ s'.cc = s.cc ++ ins ∧
        ins.length = (units.countP fun u => decide (Inserted u)) ∧ s'.localColNames.Nodup ∧
        s.localColNames.Sublist s'.localColNames ∧
        ∀ c ∈ ins, NamesColumn units remoteNames c ∧ c.namesAfter.Sublist s'.localColNames := by
  induction units with
  | nil =>
    exact fun k s hs _ => ⟨s, [], rfl, (List.append_nil _).symm, rfl, hs,
      List.Sublist.refl _, nofun⟩
  | cons u units ih =>
    intro k s hs hlen
    have hrest := ih fun w hw => hread w (List.mem_cons_of_mem _ hw)
    -- a place is passed for each column that is kept
    have hcount : (shuffledCols (u :: units)).length =
        (if u.localUnit ≠ -1 ∧ u.deleted = false then 1 else 0) + (shuffledCols units).length := by
      rw [shuffledCols_cons]
      split
      · rw [List.length_cons, Nat.add_comm]
      · rw [Nat.zero_add]
    rw [hcount] at hlen
    unfold insertPass
    simp only
    generalize (if u.localUnit ≠ -1 ∧ u.deleted = false then 1 else 0) = counted at hlen
    by_cases hu : Inserted u
    · obtain ⟨rName, hr⟩ := hread u List.mem_cons_self hu
      obtain ⟨name, hfree, hloop⟩ := CollisionLoop.ends s.localColNames (braced rName)
      have hk : k ≤ s.localColNames.length := by omega
      have hnodup : (s.localColNames.insertIdx k name).Nodup :=
        (List.perm_insertIdx _ _ hk).nodup_iff.2 (List.nodup_cons.2 ⟨hloop.not_mem, hs⟩)
      rw [if_pos (show u.pivotUnit = -1 ∧ u.remoteUnit ≠ -1 ∧ u.deleted = false from hu), hr]
      simp only [hfree]
      let id := -u.remoteUnit - 1
      let s₁ : ColState :=
        { s with
          localCols := s.localCols.insertIdx k id
          localColNames := s.localColNames.insertIdx k name }
      let change := s.change s₁ .insert id (-1)
      obtain ⟨s', ins, hpass, hcc, hnum, hs', hsub, hins⟩ :=
        hrest (k + 1 + counted) { s₁ with cc := s.cc ++ [change] } hnodup (by
        show (s.localColNames.insertIdx k name).length = _
        rw [List.length_insertIdx_of_le_length hk]
        omega)
      have hchange : NamesColumn (u :: units) remoteNames change :=
        ⟨⟨u, List.mem_cons_self, rName, name, k, hu, hr, hloop, hk, rfl⟩, hnodup⟩
      refine ⟨s', change :: ins, hpass, ?_, ?_, hs', (List.sublist_insertIdx _ k name).trans hsub,
        fun c hc => ?_⟩
      · rw [hcc, List.append_assoc, List.singleton_append]
      · rw [List.length_cons, hnum, List.countP_cons_of_pos (by simpa using hu)]
      · rcases List.mem_cons.1 hc with rfl | hc
        · exact ⟨hchange, hsub⟩
        · exact ⟨(hins c hc).1.cons u, (hins c hc).2⟩
    · rw [if_neg (show ¬(u.pivotUnit = -1 ∧ u.remoteUnit ≠ -1 ∧ u.deleted = false) from hu)]
      obtain ⟨s', ins, hpass, hcc, hnum, hs', hsub, hins⟩ := hrest (k + counted) s hs (by omega)
      refine ⟨s', ins, hpass, hcc, ?_, hs', hsub, fun c hc => ⟨(hins c hc).1.cons u, (hins c hc).2⟩⟩
      rw [hnum, List.countP_cons_of_neg (by simpa using hu)]

/-- **Names of the inserted columns.**  The loop ends for every name and every list of columns, with
one name. -/
theorem insertedNames (p : InsertionStart) :
    (∀ taken name, ∃! name', CollisionLoop taken name name') ∧
      ∃ s' ins, insertPass p.remoteNames 0 p.units p.state = .ok s' ∧ s'.cc = p.state.cc ++ ins ∧
        ins.length = (p.units.countP fun u => decide (Inserted u)) ∧ s'.localColNames.Nodup ∧
        p.state.localColNames.Sublist s'.localColNames ∧
        ∀ c ∈ ins, NamesColumn p.units p.remoteNames c ∧ c.namesAfter.Sublist s'.localColNames := by
  refine ⟨fun taken name => ?_,
    insertPass_names p.units p.named 0 p.state p.distinct (by rw [p.kept, Nat.zero_add])⟩
  obtain ⟨x, -, hx⟩ := CollisionLoop.ends taken name
  exact ⟨x, hx, fun y hy => hy.unique hx⟩

/-- Remote has a column `1` between two others, and local a column that is called `{1}` already. -/
def numberedColumn : InsertionStart where
  state := ColState.start 2 ["\x7b1\x7d", "price"]
  units := [⟨0, 0, 0, false, .preserve⟩, ⟨-1, -1, 1, false, .insert⟩, ⟨1, 1, 2, false, .preserve⟩]
  remoteNames := ⟨["id", "1", "price"], []⟩
  distinct := by decide
  kept := by decide
  named := by
    intro u hu _
    simp only [List.mem_cons, List.not_mem_nil, or_false] at hu
    rcases hu with rfl | rfl | rfl <;> exact ⟨_, rfl⟩

theorem insertedNames_numberedColumn :
    ∃ s' ins, insertPass numberedColumn.remoteNames 0 numberedColumn.units numberedColumn.state =
    .ok s' ∧
      s'.localColNames = ["\x7b1\x7d", "\x7b1\x7d_", "price"] ∧ s'.localColNames.Nodup ∧
      s'.cc = ins ∧ ins.length = 1 := by
  obtain ⟨-, s', ins, hpass, hcc, hnum, hdistinct, -, -⟩ := insertedNames numberedColumn
  have hnames :
    (insertPass numberedColumn.remoteNames 0 numberedColumn.units numberedColumn.state).map
      ColState.localColNames = .ok ["\x7b1\x7d", "\x7b1\x7d_", "price"] := by decide
  rw [hpass] at hnames
  exact ⟨s', ins, hpass, Except.ok.inj hnames, hdistinct, hcc, hnum⟩

/-- A number in braces that is a name already. -/
example : freeName 3 ["\x7b1\x7d", "\x7b1\x7d_"] (braced "1") = some "\x7b1\x7d__" := by decide

end Merger

end Coopy
