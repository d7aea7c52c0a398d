import Coopy.ChainedPatcher

/-!
# What `changeRow` reports

A change should be reported (`true`, one more change counted, the change passed on) when it was
applied, and leave the sheet alone otherwise.  Two of the five modes fall short: an insertion never
sets the result, and in a move the result of `moveRow` hides the one that is returned.  An update
of a row that was found is reported even if none of its values has a column to go to.

    Reachable q → (Right q change ↔ Reports q change)                            (right_iff_reports)
-/

namespace Coopy

open Lib

namespace SheetPatcher

/-- The names are to be looked for in the first row, and there is none. -/
def HeaderMissing (p : SheetPatcher) : Prop :=
  p.checkedHeader = false ∧ p.assumeHeader = true ∧ p.activeCol.width = p.sheet.width ∧
  0 < p.sheet.width ∧
    p.sheet.height = 0

end SheetPatcher

namespace ChainedPatcher

/-! ## Applied changes -/

/-- The patcher that meets a change, once the names are known. -/
def met (q : ChainedPatcher) (change : RowChange) : SheetPatcher :=
  ((q.patcher.named change).getD q.patcher).settle change

/-- The row that a change is about. -/
def found (q : ChainedPatcher) (change : RowChange) : Int :=
  (q.met change).matchRow ((q.met change).byCol change.cond)

/-- The pool of a column has no counterpart for the value that an insertion brings. -/
def Lacks (q : ChainedPatcher) (val : AssocMap Nat (String × SheetCell)) (c : Nat) : Prop :=
  ∃ e link, val.get? c = some e ∧ q.name2pool.get? (q.patcher.activeCol.cell c 0) = some link ∧
    link.invent = false ∧ q.translate link e.2 = none

/-- The insertion has to wait for a pool.  A cursor past the end makes the first write a stray
one. -/
def Waits (q : ChainedPatcher) (change : RowChange) : Prop :=
  ∃ c < (q.met change).sheet.width,
    ({ q with patcher := q.met change } : ChainedPatcher).Lacks
    ((q.met change).byCol change.val) c ∧ ((q.met change).rowCursor < (q.met change).sheet.height ∨
      ∀ c' < c, ((q.met change).byCol change.val).get? c' = none)

/-- What a change in a mode takes to be applied: a row is inserted, deleted or moved, a cell is
assigned, or a context is found. -/
def TakesEffect (q : ChainedPatcher) (change : RowChange) : RowChangeMode → Prop
  | .insert => ¬q.Waits change
  | .delete => 0 ≤ q.found change
  | .move => 0 ≤ q.found change
  | .update => 0 ≤ q.found change ∧ (q.met change).byCol change.val ≠ []
  | .context => (q.met change).byCol change.cond = [] ∨ q.found change = -2 ∨ 0 ≤ q.found change
  | .none => False

/-- Conflicts are refused in apply mode. -/
def Applied (q : ChainedPatcher) (change : RowChange) : Prop :=
  change.conflicted = false ∧ q.TakesEffect change change.mode

/-- The change is reported if it is applied, and has no effect on the sheet if it is not. -/
def Right (q : ChainedPatcher) (change : RowChange) : Prop :=
  ∃ q' result, q.changeRow change = some (q', result) ∧
    (q.Applied change → result = true ∧ q'.changeCount = q.changeCount + 1 ∧
      q'.chained = q.chained ++ [change]) ∧
    (¬q.Applied change → result = false ∧ q'.changeCount = q.changeCount ∧ q'.chained = q.chained ∧
      q'.patcher.sheet = q.patcher.sheet)

/-- Not an insertion that is made, not a move of a row that is there, not an update that has a row
but no value for it, and not a context row without conditions that looks for the header of a sheet
without rows. -/
def ReportsIn (q : ChainedPatcher) (change : RowChange) : RowChangeMode → Prop
  | .insert => q.Waits change
  | .move => q.found change < 0
  | .update => 0 ≤ q.found change → (q.met change).byCol change.val ≠ []
  | .context => (q.met change).byCol change.cond = [] → ¬(q.met change).HeaderMissing
  | _ => True

@[inherit_doc ReportsIn]
def Reports (q : ChainedPatcher) (change : RowChange) : Prop :=
  change.conflicted = true ∨ q.ReportsIn change change.mode

/-! ## Runs -/

/-- As many names as columns. -/
def Aligned (q : ChainedPatcher) : Prop := q.patcher.activeCol.width = q.patcher.sheet.width

/-- `setSheet`: the patcher at a sheet with a schema, with names outside its cells, or with none of
these, whose columns have these names. -/
def atSheet (p : SheetPatcher) (sheet : TypedSheet SheetCell) (names : List String)
    (schema external : Bool) (headerHeight : TypedSheet SheetCell → Nat) : Option SheetPatcher :=
  SheetPatcher.updateCols
    { p with
      sheet, schema, external, headerHeight
      activeCol := ⟨[names], names.length, ""⟩
      statusCol := ⟨[List.replicate names.length ""], names.length, ""⟩
      rowCursor := -1
      declaredNames := false
      checkedHeader := false }

/-- The patchers that a run of changes leads to, from sheet to sheet and with pools coming and
going. -/
inductive Reachable : ChainedPatcher → Prop
  | start {sheet names assumeHeader schema external headerHeight p} :
      atSheet { sheet, assumeHeader, activeCol := ⟨[], 0, ""⟩, statusCol := ⟨[], 0, ""⟩ } sheet
      names schema external
        headerHeight = some p → Reachable { patcher := p }
  | setSheet {q : ChainedPatcher} {sheet names schema external headerHeight p} : Reachable q →
      atSheet q.patcher sheet names schema external headerHeight = some p →
      Reachable { q with patcher := p }
  | pools {q : ChainedPatcher} (name2pool pools scanned) : Reachable q →
      Reachable { q with name2pool := name2pool, pools := pools, scanned := scanned }
  | changeName {q : ChainedPatcher} {change p} :
    Reachable q → q.patcher.changeName change = some p →
      Reachable { q with patcher := p }
  | changeColumn {q : ChainedPatcher} {change r} :
    Reachable q → q.patcher.changeColumn change = some r →
      Reachable { q with patcher := r.1, changeCount := q.changeCount + 1 }
  | changeRow {q : ChainedPatcher} {change r} : Reachable q → q.changeRow change = some r →
    Reachable r.1

end ChainedPatcher

namespace SheetPatcher

/-! ## Names and columns stay -/

theorem aligned_updateCols {p p' : SheetPatcher} (h : p.updateCols = some p') :
    p'.activeCol.width = p'.sheet.width := by
  unfold updateCols at h
  split at h
  · cases h
  · next hw =>
    cases h
    exact Decidable.not_not.1 hw

theorem aligned_map_updateCols {p : SheetPatcher} {b : Bool} {r : SheetPatcher × Bool}
    (h : (p.updateCols.map fun p => (p, b)) = some r) : r.1.activeCol.width = r.1.sheet.width := by
  obtain ⟨p', hp', hr⟩ := Option.map_eq_some_iff.1 h
  rw [← hr]
  exact aligned_updateCols hp'

theorem aligned_changeColumn {p : SheetPatcher} {change : OrderChange} {r : SheetPatcher × Bool}
    (h : p.changeColumn change = some r) : r.1.activeCol.width = r.1.sheet.width := by
  unfold changeColumn at h
  split at h
  · unfold deleteCol at h
    obtain ⟨mover, -, h⟩ := Option.bind_eq_some_iff.1 h
    obtain ⟨idx, -, h⟩ := Option.bind_eq_some_iff.1 h
    exact aligned_map_updateCols h
  · unfold insertCol at h
    obtain ⟨mover, -, h⟩ := Option.bind_eq_some_iff.1 h
    obtain ⟨idx, -, h⟩ := Option.bind_eq_some_iff.1 h
    obtain ⟨sheet, -, h⟩ := Option.bind_eq_some_iff.1 h
    exact aligned_map_updateCols h
  · unfold moveCol at h
    obtain ⟨mover, -, h⟩ := Option.bind_eq_some_iff.1 h
    obtain ⟨idx, -, h⟩ := Option.bind_eq_some_iff.1 h
    obtain ⟨idx2, -, h⟩ := Option.bind_eq_some_iff.1 h
    exact aligned_map_updateCols h
  · unfold renameCol at h
    obtain ⟨target, -, h⟩ := Option.bind_eq_some_iff.1 h
    obtain ⟨newName, -, h⟩ := Option.bind_eq_some_iff.1 h
    obtain ⟨idx, -, h⟩ := Option.bind_eq_some_iff.1 h
    obtain ⟨sheet, -, h⟩ := Option.bind_eq_some_iff.1 h
    exact aligned_map_updateCols h

/-- The loop of `declareNames` writes only the synonyms. -/
theorem foldl_synonyms {P : SheetPatcher → Prop} (hP : ∀ g syn2name name2syn, P g →
    P { g with syn2name := syn2name, name2syn := name2syn }) (names : List String) (is : List Nat) :
    ∀ g, P g → P (is.foldl (fun (g : SheetPatcher) i =>
      if names.getD i "" ≠ g.activeCol.cell i 0 then
        { g with
          syn2name := g.syn2name.set (names.getD i "") (g.activeCol.cell i 0)
          name2syn := g.name2syn.set (g.activeCol.cell i 0) (names.getD i "") }
      else g) g) := by
  induction is with
  | nil => exact fun g h => h
  | cons i is ih =>
    intro g h
    rw [List.foldl_cons]
    split
    · exact ih _ (hP g _ _ h)
    · exact ih g h

/-- What naming the columns leaves as it was. -/
theorem named_eq {p : SheetPatcher} (h : p.activeCol.width = p.sheet.width) (change : RowChange) :
    ∃ p', p.named change = some p' ∧ p'.declaredNames = true ∧ p'.sheet = p.sheet ∧
    p'.activeCol = p.activeCol := by
  unfold named
  cases hd : p.declaredNames with
  | true => exact ⟨p, rfl, hd, rfl, rfl⟩
  | false =>
    rw [if_neg (by decide)]
    unfold declareNames
    simp only
    split
    · exact ⟨_, rfl, rfl, rfl, rfl⟩
    · obtain ⟨h1, h2, h3⟩ := @foldl_synonyms
        (fun g => g.declaredNames = true ∧ g.sheet = p.sheet ∧ g.activeCol = p.activeCol)
          (fun _ _ _ h => h)
        change.allNames (List.range change.allNames.length) { p with declaredNames := true }
          ⟨rfl, rfl, rfl⟩
      unfold updateCols
      rw [if_neg (by rw [h2, h3]; exact not_not_intro h)]
      exact ⟨_, rfl, h1, h2, h3⟩

theorem aligned_changeName {p p' : SheetPatcher} (h : p.activeCol.width = p.sheet.width)
    {change : NameChange}
    (hp : p.changeName change = some p') : p'.activeCol.width = p'.sheet.width := by
  unfold changeName at hp
  split at hp
  · unfold redeclareNames at hp
    split at hp
    · cases hp
      exact h
    · obtain ⟨g, -, hg⟩ := Option.bind_eq_some_iff.1 hp
      exact aligned_updateCols hg
  · unfold declareNames at hp
    simp only at hp
    split at hp
    · cases hp
      exact h
    · exact aligned_updateCols hp

theorem sheet_settle (p : SheetPatcher) (change : RowChange) :
    (p.settle change).sheet = p.sheet := by
  unfold settle
  simp only
  split <;> split <;> rfl

theorem activeCol_settle (p : SheetPatcher) (change : RowChange) :
    (p.settle change).activeCol = p.activeCol := by
  unfold settle
  simp only
  split <;> split <;> rfl

theorem checkHeader_eq_none_iff {p : SheetPatcher} : p.checkHeader = none ↔ p.HeaderMissing := by
  unfold checkHeader HeaderMissing
  split
  · next hc => exact iff_of_false (by simp) fun h => by rw [hc] at h; cases h.1
  · next hc =>
    have hc : p.checkedHeader = false := by simpa using hc
    simp only
    split
    · next ha => exact iff_of_false (by simp) fun h => by rw [ha] at h; cases h.2.1
    · next ha =>
      have ha : p.assumeHeader = true := by simpa using ha
      split
      · next hrow => exact iff_of_true rfl ⟨hc, ha, hrow⟩
      · next hrow => split <;> exact iff_of_false (by simp) fun h => hrow h.2.2

theorem checkHeader_eq {p p' : SheetPatcher} (h : p.checkHeader = some p') :
    ∃ c, p' = { p with rowCursor := c, checkedHeader := true } := by
  unfold checkHeader at h
  split at h
  · next hc =>
    cases h
    exact ⟨p.rowCursor, by rw [← hc]⟩
  simp only at h
  split at h
  · cases h
    exact ⟨p.rowCursor, rfl⟩
  split at h
  · cases h
  split at h
  · cases h
    exact ⟨1, rfl⟩
  · cases h
    exact ⟨p.rowCursor, rfl⟩

/-- A change that meets a patcher with names. -/
theorem changeRow_of_named {p : SheetPatcher} (h : p.declaredNames = true) {change : RowChange}
    (hc : change.conflicted = false) :
    p.changeRow change =
      let p := p.settle change
      let cond := p.byCol change.cond
      let val := p.byCol change.val
      match change.mode with
      | .insert => p.insertChange val
      | .delete => some (p.deleteChange (p.matchRow cond))
      | .context => p.contextChange cond.isEmpty (p.matchRow cond)
      | .move => p.moveChange val (p.matchRow cond)
      | .update => some (p.updateChange val (p.matchRow cond))
      | .none => some (p, false) := by
  unfold changeRow
  rw [h, if_pos rfl, Option.bind_some, hc]
  rfl

theorem changeRow_of_conflicted {p : SheetPatcher} (h : p.declaredNames = true) {change : RowChange}
    (hc : change.conflicted = true) : p.changeRow change = some (p, false) := by
  unfold changeRow
  rw [h, if_pos rfl, Option.bind_some, hc, if_pos rfl]

theorem width_assign (val : AssocMap Nat (String × SheetCell)) (r : Nat) :
    ∀ sheet : TypedSheet SheetCell, (assign sheet val r).width = sheet.width := by
  unfold assign
  induction val with
  | nil => exact fun sheet => rfl
  | cons e val ih =>
    intro sheet
    rw [List.foldl_cons, ih]
    rfl

theorem width_insertRow (s : TypedSheet SheetCell) (base : Int) :
    (s.insertRow base).1.width = s.width := by
  unfold TypedSheet.insertRow
  simp only
  split
  · rfl
  split <;> rfl

theorem width_deleteRow (s : TypedSheet SheetCell) (src : Int) :
    (s.deleteRow src).1.width = s.width := by
  unfold TypedSheet.deleteRow
  split <;> rfl

theorem width_moveRow (s : TypedSheet SheetCell) (src base : Int) :
    (s.moveRow src base).1.width = s.width := by
  unfold TypedSheet.moveRow
  split
  · rfl
  simp only
  split <;> rfl

/-- No row change touches the columns. -/
theorem aligned_changeRow {p : SheetPatcher} (h : p.activeCol.width = p.sheet.width)
    (hd : p.declaredNames = true)
    {change : RowChange} {r : SheetPatcher × Bool} (hr : p.changeRow change = some r) :
    r.1.activeCol.width = r.1.sheet.width := by
  cases hc : change.conflicted with
  | true =>
    rw [changeRow_of_conflicted hd hc] at hr
    cases hr
    exact h
  | false =>
    rw [changeRow_of_named hd hc] at hr
    simp only at hr
    have hs : (p.settle change).activeCol.width = (p.settle change).sheet.width := by
      rw [sheet_settle, activeCol_settle]
      exact h
    generalize p.settle change = p' at hr hs
    cases hm : change.mode with
    | none =>
      rw [hm] at hr
      cases hr
      exact hs
    | insert =>
      rw [hm] at hr
      simp only [insertChange] at hr
      split at hr
      · cases hr
      · cases hr
        show p'.activeCol.width = (assign (p'.sheet.insertRow p'.rowCursor).1 _ _).width
        rw [width_assign, width_insertRow]
        exact hs
    | delete =>
      rw [hm] at hr
      simp only [Option.some.injEq] at hr
      rw [← hr]
      unfold deleteChange
      split
      · exact hs
      · show p'.activeCol.width = (p'.sheet.deleteRow _).1.width
        rw [width_deleteRow]
        exact hs
    | context =>
      rw [hm] at hr
      simp only [contextChange] at hr
      split at hr
      · obtain ⟨p'', hp, rfl⟩ := Option.map_eq_some_iff.1 hr
        obtain ⟨c, rfl⟩ := checkHeader_eq hp
        exact hs
      split at hr
      · cases hr
        exact hs
      split at hr
      · cases hr
        exact hs
      · cases hr
        exact hs
    | move =>
      rw [hm] at hr
      simp only [moveChange] at hr
      split at hr
      · cases hr
        exact hs
      split at hr
      · cases hr
      · cases hr
        show p'.activeCol.width = (assign (p'.sheet.moveRow _ _).1 _ _).width
        rw [width_assign, width_moveRow]
        exact hs
    | update =>
      rw [hm] at hr
      simp only [Option.some.injEq] at hr
      rw [← hr]
      unfold updateChange
      split
      · exact hs
      · show p'.activeCol.width = (assign p'.sheet _ _).width
        rw [width_assign]
        exact hs

end SheetPatcher

namespace ChainedPatcher

/-! ## A row that has to wait -/

/-- The cells of the new row are written, and nothing else. -/
theorem fillRow_frame (q : ChainedPatcher) (val : AssocMap Nat (String × SheetCell)) (y : Int)
    (cs : List Nat) : ∀ (sheet : TypedSheet SheetCell) (inventions : List Invention),
      (∀ sheet' inventions', q.fillRow val y cs sheet inventions = .done sheet' inventions' →
        sheet'.width = sheet.width) ∧
      ∀ sheet', q.fillRow val y cs sheet inventions = .deferred sheet' →
        sheet' = sheet ∨
        (0 ≤ y ∧ ∃ f, sheet' = { sheet with arr := sheet.arr.modify y.toNat f }) := by
  induction cs with
  | nil =>
    intro sheet inventions
    refine ⟨fun sheet' inventions' h => ?_, fun sheet' h => ?_⟩
    · cases h
      rfl
    · cases h
  | cons c cs ih =>
    intro sheet inventions
    have hset : ∀ (x : SheetCell) (inv : List Invention), 0 ≤ y →
        (∀ sheet' inventions', q.fillRow val y cs (sheet.setCell c y.toNat x) inv =
          .done sheet' inventions' → sheet'.width = sheet.width) ∧
        ∀ sheet', q.fillRow val y cs (sheet.setCell c y.toNat x) inv = .deferred sheet' →
          sheet' = sheet ∨
          (0 ≤ y ∧ ∃ f, sheet' = { sheet with arr := sheet.arr.modify y.toNat f }) := by
      intro x inv hy
      obtain ⟨h1, h2⟩ := ih (sheet.setCell c y.toNat x) inv
      refine ⟨fun sheet' inventions' h => h1 sheet' inventions' h, fun sheet' h => Or.inr ⟨hy, ?_⟩⟩
      rcases h2 sheet' h with rfl | ⟨-, f, rfl⟩
      · exact ⟨_, rfl⟩
      · refine ⟨f ∘ fun row => row.set c x, ?_⟩
        show ({ sheet with
          arr := (sheet.arr.modify y.toNat fun row => row.set c x).modify y.toNat f } :
          TypedSheet SheetCell) = _
        rw [List.modify_modify_eq]
    unfold fillRow
    cases val.get? c with
    | none => exact ih sheet inventions
    | some e =>
      simp only
      cases q.name2pool.get? (q.patcher.activeCol.cell c 0) with
      | none =>
        simp only
        split
        · exact ⟨nofun, nofun⟩
        · exact hset _ _ (by omega)
      | some link =>
        simp only
        split
        · split
          · exact ⟨nofun, nofun⟩
          · exact hset _ _ (by omega)
        · cases q.translate link e.2 with
          | none =>
            refine ⟨nofun, fun sheet' h => ?_⟩
            cases h
            exact Or.inl rfl
          | some v =>
            simp only
            split
            · exact ⟨nofun, nofun⟩
            · exact hset _ _ (by omega)

/-- One of the columns lacks its value, and no write strays before it. -/
def PutOff (q : ChainedPatcher) (val : AssocMap Nat (String × SheetCell)) (y : Int)
    (cs : List Nat) : Prop :=
  ∃ pre c post, cs = pre ++ c :: post ∧ q.Lacks val c ∧ (0 ≤ y ∨ ∀ c' ∈ pre, val.get? c' = none)

section
variable {q : ChainedPatcher} {val : AssocMap Nat (String × SheetCell)} {y : Int} {d : Nat}
    {cs : List Nat}

theorem putOff_cons_self (h : q.Lacks val d) : q.PutOff val y (d :: cs) :=
  ⟨[], d, cs, rfl, h, Or.inr fun _ hc' => absurd hc' List.not_mem_nil⟩

theorem putOff_cons (h : ¬q.Lacks val d) :
    q.PutOff val y (d :: cs) ↔ (0 ≤ y ∨ val.get? d = none) ∧ q.PutOff val y cs := by
  constructor
  · rintro ⟨pre, c, post, hcs, hlack, hpre⟩
    cases pre with
    | nil =>
      obtain ⟨rfl, rfl⟩ := List.cons.inj hcs
      exact absurd hlack h
    | cons d' pre =>
      obtain ⟨rfl, rfl⟩ := List.cons.inj hcs
      exact ⟨hpre.imp_right fun hpre => hpre d List.mem_cons_self,
        pre, c, post, rfl, hlack, hpre.imp_right fun hpre c' hc' =>
          hpre c' (List.mem_cons_of_mem _ hc')⟩
  · rintro ⟨hd, pre, c, post, rfl, hlack, hpre⟩
    refine ⟨d :: pre, c, post, rfl, hlack, ?_⟩
    rcases hd with hy | hd
    · exact Or.inl hy
    rcases hpre with hy | hpre
    · exact Or.inl hy
    · exact Or.inr (List.forall_mem_cons.2 ⟨hd, hpre⟩)

end

/-- The first column that lacks its value puts the row off, unless a write strays before. -/
theorem fillRow_deferred_iff (q : ChainedPatcher) (val : AssocMap Nat (String × SheetCell))
    (y : Int) (cs : List Nat) : ∀ (sheet : TypedSheet SheetCell) (inventions : List Invention),
      (∃ sheet', q.fillRow val y cs sheet inventions = .deferred sheet') ↔ q.PutOff val y cs := by
  induction cs with
  | nil =>
    intro sheet inventions
    refine iff_of_false (fun ⟨sheet', h⟩ => by cases h) ?_
    rintro ⟨pre, c, post, h, -⟩
    exact absurd h (by simp)
  | cons d cs ih =>
    intro sheet inventions
    have hset : ∀ (e : String × SheetCell) (x : SheetCell)
      (inv : List Invention), val.get? d = some e →
        ¬q.Lacks val d →
        ((∃ s, (if y < 0 then Filling.outside
          else q.fillRow val y cs (sheet.setCell d y.toNat x) inv) =
          .deferred s) ↔ q.PutOff val y (d :: cs)) := by
      intro e x inv he hnot
      rw [putOff_cons hnot, he]
      by_cases hy : y < 0
      · rw [if_pos hy]
        refine iff_of_false (fun ⟨s, hs⟩ => by cases hs) fun h => ?_
        rcases h.1 with hle | hno
        · omega
        · cases hno
      · rw [if_neg hy, ih]
        exact ⟨fun h => ⟨Or.inl (by omega), h⟩, And.right⟩
    unfold fillRow
    cases he : val.get? d with
    | none =>
      have hnot : ¬q.Lacks val d := fun ⟨e, link, he', _⟩ => by
        rw [he] at he'
        cases he'
      rw [putOff_cons hnot, ih]
      exact ⟨fun h => ⟨Or.inr he, h⟩, And.right⟩
    | some e =>
      simp only
      cases hl : q.name2pool.get? (q.patcher.activeCol.cell d 0) with
      | none =>
        refine hset e e.2 inventions he fun ⟨_, link, _, hl', _⟩ => ?_
        rw [hl] at hl'
        cases hl'
      | some link =>
        simp only
        by_cases hi : link.invent = true
        · rw [if_pos hi]
          refine hset e _ _ he fun ⟨_, link', _, hl', hi', _⟩ => ?_
          rw [hl] at hl'
          cases hl'
          rw [hi] at hi'
          cases hi'
        · rw [if_neg hi]
          cases ht : q.translate link e.2 with
          | none =>
            exact iff_of_true ⟨sheet, rfl⟩
              (putOff_cons_self ⟨e, link, he, hl, by simpa using hi, ht⟩)
          | some v =>
            refine hset e v inventions he fun ⟨e', link', he', hl', _, ht'⟩ => ?_
            rw [he] at he'
            cases he'
            rw [hl] at hl'
            cases hl'
            rw [ht] at ht'
            cases ht'

theorem eraseIdx_modify_self {α : Type} (f : α → α) (l : List α) (i : Nat) :
    (l.modify i f).eraseIdx i = l.eraseIdx i := by
  induction l generalizing i with
  | nil => cases i <;> rfl
  | cons x l ih =>
    cases i with
    | zero => rfl
    | succ i => simp [List.modify_succ_cons, ih]

/-- A row inserted, written to and deleted again. -/
theorem deleteRow_insertRow (s : TypedSheet SheetCell) (base : Int) (f : List SheetCell →
    List SheetCell)
    (h : 0 ≤ (s.insertRow base).2) :
    (({ (s.insertRow base).1 with
      arr := (s.insertRow base).1.arr.modify (s.insertRow base).2.toNat f } :
      TypedSheet SheetCell).deleteRow (s.insertRow base).2).1 = s := by
  unfold TypedSheet.insertRow at h ⊢
  simp only at h ⊢
  by_cases hout : base ≥ s.height
  · rw [if_pos hout] at h
    exact absurd (show (0 : Int) ≤ -1 from h) (by decide)
  rw [if_neg hout]
  unfold TypedSheet.height at hout
  by_cases hb : base < 0
  · rw [if_pos hb]
    unfold TypedSheet.deleteRow TypedSheet.height
    simp only
    rw [if_neg (by rw [List.length_modify, List.length_append, List.length_singleton]; omega),
      eraseIdx_modify_self, Int.toNat_natCast, List.eraseIdx_append_of_length_le (Nat.le_refl _),
        Nat.sub_self]
    simp
  · rw [if_neg hb]
    unfold TypedSheet.deleteRow TypedSheet.height
    simp only
    rw [if_neg (by rw [List.length_modify, List.length_insertIdx_of_le_length (by omega)]; omega),
      eraseIdx_modify_self, List.eraseIdx_insertIdx_self]

theorem deleteRow_of_neg {s : TypedSheet SheetCell} {src : Int} (h : src < 0) :
    (s.deleteRow src).1 = s := by
  unfold TypedSheet.deleteRow
  rw [if_pos (Or.inl h)]

theorem insertRow_neg {s : TypedSheet SheetCell} {base : Int} (h : (s.insertRow base).2 < 0) :
    (s.insertRow base).1 = s := by
  unfold TypedSheet.insertRow at h ⊢
  simp only at h ⊢
  split
  · rfl
  · next hout =>
    rw [if_neg hout] at h
    split at h
    · exact absurd h (by simp)
    · next hb => exact absurd h (by simpa using hb)

/-- **A row that has to wait** leaves the sheet as it was. -/
theorem waits_sheet {q : ChainedPatcher} {val : AssocMap Nat (String × SheetCell)} {base : Int}
    {cs : List Nat} {s sheet' : TypedSheet SheetCell}
    (h : q.fillRow val (s.insertRow base).2 cs (s.insertRow base).1 [] = .deferred sheet') :
    (sheet'.deleteRow (s.insertRow base).2).1 = s := by
  rcases (fillRow_frame q val _ cs _ []).2 sheet' h with rfl | ⟨hy, f, rfl⟩
  · by_cases hy : (s.insertRow base).2 < 0
    · rw [deleteRow_of_neg hy, insertRow_neg hy]
    · have hid := deleteRow_insertRow s base id (by omega)
      rwa [List.modify_id] at hid
  · exact deleteRow_insertRow s base f hy

theorem insertRow_place (s : TypedSheet SheetCell) (base : Int) : 0 ≤ (s.insertRow base).2 ↔
    base < s.height := by
  unfold TypedSheet.insertRow
  simp only
  split
  · exact iff_of_false (by simp) (by omega)
  split
  · exact iff_of_true (Int.natCast_nonneg _) (by omega)
  · exact iff_of_true (by omega) (by omega)

/-- An insertion waits just when the cells of its row are put off. -/
theorem waits_iff (q : ChainedPatcher) (change : RowChange) :
    q.Waits change ↔ ∃ sheet, ({ q with patcher := q.met change } : ChainedPatcher).fillRow
      ((q.met change).byCol change.val) ((q.met change).sheet.insertRow (q.met change).rowCursor).2
        (List.range (q.met change).sheet.width)
        ((q.met change).sheet.insertRow (q.met change).rowCursor).1 [] =
        .deferred sheet := by
  rw [fillRow_deferred_iff, PutOff, insertRow_place]
  constructor
  · rintro ⟨c, hc, hlack, hpre⟩
    refine ⟨List.range c, c, List.range' (c + 1) ((q.met change).sheet.width - (c + 1)), ?_, hlack,
      ?_⟩
    · rw [List.range_eq_range', List.range_eq_range', ← List.range'_succ]
      have hjoin := @List.range'_append_1 0 c ((q.met change).sheet.width - (c + 1) + 1)
      rw [Nat.zero_add] at hjoin
      rw [hjoin]
      congr 1
      omega
    · exact hpre.imp_right fun hpre c' hc' => hpre c' (List.mem_range.1 hc')
  · rintro ⟨pre, c, post, hcs, hlack, hpre⟩
    have hlen : pre.length < (q.met change).sheet.width := by
      have := congrArg List.length hcs
      simp at this
      omega
    have hc : c = pre.length := by
      have hget : (List.range (q.met change).sheet.width)[pre.length]? = some c := by
        rw [hcs]
        simp
      rw [List.getElem?_range hlen] at hget
      exact (Option.some.inj hget).symm
    subst hc
    refine ⟨pre.length, hlen, hlack, hpre.imp_right fun hpre c' hc' => hpre c' ?_⟩
    have hget : (List.range (q.met change).sheet.width)[c']? = pre[c']? := by
      rw [hcs, List.getElem?_append_left hc']
    rw [List.getElem?_range (by omega)] at hget
    exact List.mem_of_getElem? hget.symm

/-! ## Every reachable patcher is aligned -/

theorem aligned_insertRow {q : ChainedPatcher} (h : q.Aligned) {change : RowChange}
    {r : ChainedPatcher × Bool} (hr : q.insertRow change = some r) : r.1.Aligned := by
  unfold insertRow at hr
  simp only at hr
  split at hr
  · cases hr
  · next sheet hfill =>
    cases hr
    show q.patcher.activeCol.width = (sheet.deleteRow _).1.width
    rw [waits_sheet hfill]
    exact h
  · next sheet inventions hfill =>
    split at hr
    · cases hr
    · cases hr
      show q.patcher.activeCol.width = sheet.width
      rw [(fillRow_frame q _ _ _ _ []).1 sheet inventions hfill, SheetPatcher.width_insertRow]
      exact h

theorem aligned_report {q : ChainedPatcher} {change : RowChange} {r : SheetPatcher × Bool}
    (h : r.1.activeCol.width = r.1.sheet.width) : (q.report change r).1.Aligned := by
  unfold report
  split
  · exact h
  · exact h

theorem Reachable.aligned {q : ChainedPatcher} (h : Reachable q) : q.Aligned := by
  induction h with
  | start hp => exact SheetPatcher.aligned_updateCols hp
  | setSheet _ hp _ => exact SheetPatcher.aligned_updateCols hp
  | pools name2pool pools scanned _ ih => exact ih
  | changeName _ hp ih => exact SheetPatcher.aligned_changeName ih hp
  | changeColumn _ hr _ => exact SheetPatcher.aligned_changeColumn hr
  | @changeRow q change r _ hr ih =>
    obtain ⟨p, hp, hd, hsheet, hcol⟩ := SheetPatcher.named_eq ih change
    have hal : p.activeCol.width = p.sheet.width := by
      rw [hsheet, hcol]
      exact ih
    unfold ChainedPatcher.changeRow at hr
    rw [hp, Option.bind_some] at hr
    split at hr
    · refine aligned_insertRow ?_ hr
      show (p.settle change).activeCol.width = (p.settle change).sheet.width
      rw [SheetPatcher.sheet_settle, SheetPatcher.activeCol_settle]
      exact hal
    · obtain ⟨r', hr', rfl⟩ := Option.map_eq_some_iff.1 hr
      exact aligned_report (SheetPatcher.aligned_changeRow hal hd hr')

/-! ## Reported and applied -/

section
variable {q : ChainedPatcher} {change : RowChange}

theorem report_true (p : SheetPatcher) :
    (q.report change (p, true)).2 = true ∧ (q.report change (p, true)).1.changeCount =
    q.changeCount + 1 ∧
      (q.report change (p, true)).1.chained = q.chained ++ [change] := ⟨rfl, rfl, rfl⟩

theorem report_false (p : SheetPatcher) :
    (q.report change (p, false)).2 = false ∧ (q.report change (p, false)).1.changeCount =
    q.changeCount ∧
      (q.report change (p, false)).1.chained = q.chained ∧
      (q.report change (p, false)).1.patcher.sheet = p.sheet :=
  ⟨rfl, rfl, rfl, rfl⟩

/-- An outcome of a change is right. -/
theorem right_of_report {r : SheetPatcher × Bool}
    (h : q.changeRow change = some (q.report change r))
    (happ : q.Applied change ↔ r.2 = true) (hsheet : r.2 = false → r.1.sheet = q.patcher.sheet) :
    q.Right change := by
  obtain ⟨p, result⟩ := r
  refine ⟨_, _, h, fun ha => ?_, fun ha => ?_⟩
  · rw [show result = true from happ.1 ha]
    exact report_true p
  · have hr : result = false := by
      rw [← Bool.not_eq_true]
      exact fun hr => ha (happ.2 hr)
    subst hr
    obtain ⟨h1, h2, h3, h4⟩ := @report_false q change p
    exact ⟨h1, h2, h3, h4.trans (hsheet rfl)⟩

/-- Only a result that says whether the change was applied is right. -/
theorem Right.result {q' : ChainedPatcher} {result : Bool} (h : q.Right change)
    (hr : q.changeRow change = some (q', result)) : q.Applied change ↔ result = true := by
  obtain ⟨q'', result', hr', happ, hnot⟩ := h
  rw [hr, Option.some.injEq, Prod.mk.injEq] at hr'
  obtain ⟨-, rfl⟩ := hr'
  constructor
  · exact fun ha => (happ ha).1
  · exact fun hres => Classical.byContradiction fun ha =>
      Bool.false_ne_true ((hnot ha).1.symm.trans hres)

theorem Right.exists (h : q.Right change) : ∃ r, q.changeRow change = some r := by
  obtain ⟨q', result, hr, -⟩ := h
  exact ⟨_, hr⟩

theorem applied_iff {mode : RowChangeMode} (hm : change.mode = mode)
    (hc : change.conflicted = false) :
    q.Applied change ↔ q.TakesEffect change mode := by
  subst hm
  exact ⟨And.right, fun h => ⟨hc, h⟩⟩

theorem reports_iff {mode : RowChangeMode} (hm : change.mode = mode)
    (hc : change.conflicted = false) :
    q.Reports change ↔ q.ReportsIn change mode := by
  subst hm
  exact ⟨fun h => h.resolve_left (by rw [hc]; decide), Or.inr⟩

/-- The change meets a patcher whose sheet and columns are those there were. -/
theorem met_eq (h : q.Aligned) (change : RowChange) :
    ∃ p, q.patcher.named change = some p ∧ p.declaredNames = true ∧ p.sheet = q.patcher.sheet ∧
      q.met change = p.settle change := by
  obtain ⟨p, hp, hd, hsheet, -⟩ := SheetPatcher.named_eq h change
  refine ⟨p, hp, hd, hsheet, ?_⟩
  unfold met
  rw [hp]
  rfl

theorem sheet_met (h : q.Aligned) (change : RowChange) :
    (q.met change).sheet = q.patcher.sheet := by
  obtain ⟨p, -, -, hsheet, hmet⟩ := met_eq h change
  rw [hmet, SheetPatcher.sheet_settle, hsheet]

/-- What a change that is not an insertion comes to. -/
theorem changeRow_eq (h : q.Aligned) (hc : change.conflicted = false) (hm : change.mode ≠ .insert) :
    q.changeRow change = Option.map (q.report change)
      (match change.mode with
      | .insert => (q.met change).insertChange ((q.met change).byCol change.val)
      | .delete => some ((q.met change).deleteChange (q.found change))
      | .context =>
        (q.met change).contextChange ((q.met change).byCol change.cond).isEmpty (q.found change)
      | .move => (q.met change).moveChange ((q.met change).byCol change.val) (q.found change)
      | .update =>
        some ((q.met change).updateChange ((q.met change).byCol change.val) (q.found change))
      | .none => some (q.met change, false)) := by
  obtain ⟨p, hp, hd, -, hmet⟩ := met_eq h change
  unfold ChainedPatcher.changeRow found
  rw [hp, Option.bind_some, if_neg fun hi => hm hi.2, SheetPatcher.changeRow_of_named hd hc, hmet]

theorem changeRow_insert (h : q.Aligned) (hc : change.conflicted = false)
    (hm : change.mode = .insert) :
    q.changeRow change = ({ q with patcher := q.met change } : ChainedPatcher).insertRow
    change := by
  obtain ⟨p, hp, -, -, hmet⟩ := met_eq h change
  unfold ChainedPatcher.changeRow
  rw [hp, Option.bind_some, if_pos ⟨hc, hm⟩, hmet]

theorem right_conflicted (h : q.Aligned) (hc : change.conflicted = true) : q.Right change := by
  obtain ⟨p, hp, hd, hsheet, -⟩ := met_eq h change
  have hchange : q.changeRow change = some (q.report change (p, false)) := by
    unfold ChainedPatcher.changeRow
    rw [hp, Option.bind_some, if_neg fun hi => by rw [hc] at hi; exact Bool.noConfusion hi.1,
      SheetPatcher.changeRow_of_conflicted hd hc]
    rfl
  refine right_of_report hchange ⟨fun ha => ?_, fun hr => by cases hr⟩ fun _ => hsheet
  exact absurd ha.1 (by rw [hc]; decide)

/-- An insertion is never reported, so it is right only if it is put off. -/
theorem right_insert (h : q.Aligned) (hc : change.conflicted = false) (hm : change.mode = .insert) :
    q.Right change ↔ q.Waits change := by
  have hchange := changeRow_insert h hc hm
  have happ := @applied_iff q change _ hm hc
  have hsheet := sheet_met h change
  unfold ChainedPatcher.insertRow at hchange
  simp only at hchange
  unfold TakesEffect at happ
  rw [waits_iff] at happ ⊢
  cases hfill :
    ({ q with patcher := q.met change } : ChainedPatcher).fillRow ((q.met change).byCol change.val)
    ((q.met change).sheet.insertRow (q.met change).rowCursor).2
      (List.range (q.met change).sheet.width)
    ((q.met change).sheet.insertRow (q.met change).rowCursor).1 [] with
  | outside =>
    rw [hfill] at hchange
    refine ⟨fun hright => ?_, fun ⟨s, hs⟩ => by cases hs⟩
    obtain ⟨r, hr⟩ := hright.exists
    rw [hchange] at hr
    cases hr
  | deferred sheet =>
    rw [hfill] at hchange happ
    refine ⟨fun _ => ⟨sheet, rfl⟩, fun _ => ?_⟩
    refine ⟨_, _, hchange, fun ha => absurd ⟨sheet, rfl⟩ (happ.1 ha), fun _ => ⟨rfl, rfl, rfl, ?_⟩⟩
    show (sheet.deleteRow _).1 = _
    rw [waits_sheet hfill, hsheet]
  | done sheet inventions =>
    rw [hfill] at hchange happ
    refine ⟨fun hright => ?_, fun ⟨s, hs⟩ => by cases hs⟩
    simp only at hchange
    split at hchange
    · obtain ⟨r, hr⟩ := hright.exists
      rw [hchange] at hr
      cases hr
    · have hres := (hright.result hchange).1 (happ.2 fun ⟨s, hs⟩ => by cases hs)
      cases hres

theorem right_move (h : q.Aligned) (hc : change.conflicted = false) (hm : change.mode = .move) :
    q.Right change ↔ q.found change < 0 := by
  have hchange := @changeRow_eq q change h hc (by rw [hm]; decide)
  have happ := @applied_iff q change _ hm hc
  rw [hm] at hchange
  simp only [SheetPatcher.moveChange] at hchange
  by_cases hf : q.found change < 0
  · rw [if_pos hf] at hchange
    refine iff_of_true (right_of_report hchange ⟨fun ha => ?_, fun hr => by cases hr⟩ fun _ =>
      sheet_met h change) hf
    have hle : 0 ≤ q.found change := happ.1 ha
    omega
  · rw [if_neg hf] at hchange
    refine iff_of_false (fun hright => ?_) hf
    split at hchange
    · obtain ⟨r, hr⟩ := hright.exists
      rw [hchange] at hr
      cases hr
    · rw [Option.map_some] at hchange
      have hle : 0 ≤ q.found change := by omega
      have hres := (hright.result hchange).1 (happ.2 hle)
      cases hres

theorem right_update (h : q.Aligned) (hc : change.conflicted = false) (hm : change.mode = .update) :
    q.Right change ↔ (0 ≤ q.found change → (q.met change).byCol change.val ≠ []) := by
  have hchange := @changeRow_eq q change h hc (by rw [hm]; decide)
  have happ := @applied_iff q change _ hm hc
  rw [hm] at hchange
  simp only [SheetPatcher.updateChange] at hchange
  by_cases hf : q.found change < 0
  · rw [if_pos hf] at hchange
    refine iff_of_true (right_of_report hchange ⟨fun ha => ?_, fun hr => by cases hr⟩ fun _ =>
      sheet_met h change)
      fun hle => absurd hle (by omega)
    exact absurd (happ.1 ha).1 (by omega)
  · rw [if_neg hf] at hchange
    constructor
    · intro hright _
      exact (happ.1 ((hright.result hchange).2 rfl)).2
    · intro hval
      exact right_of_report hchange ⟨fun _ => rfl, fun _ => happ.2 ⟨by omega, hval (by omega)⟩⟩
        fun hr => by cases hr

theorem right_delete (h : q.Aligned) (hc : change.conflicted = false) (hm : change.mode = .delete) :
    q.Right change := by
  have hchange := @changeRow_eq q change h hc (by rw [hm]; decide)
  have happ := @applied_iff q change _ hm hc
  rw [hm] at hchange
  simp only [SheetPatcher.deleteChange] at hchange
  by_cases hf : q.found change < 0
  · rw [if_pos hf] at hchange
    refine right_of_report hchange ⟨fun ha => ?_, fun hr => by cases hr⟩ fun _ => sheet_met h change
    have hle : 0 ≤ q.found change := happ.1 ha
    omega
  · rw [if_neg hf] at hchange
    have hle : 0 ≤ q.found change := by omega
    exact right_of_report hchange ⟨fun _ => rfl, fun _ => happ.2 hle⟩ fun hr => by cases hr

theorem right_context (h : q.Aligned) (hc : change.conflicted = false)
    (hm : change.mode = .context) :
    q.Right change ↔ ((q.met change).byCol change.cond = [] → ¬(q.met change).HeaderMissing) := by
  have hchange := @changeRow_eq q change h hc (by rw [hm]; decide)
  have happ := @applied_iff q change _ hm hc
  rw [hm] at hchange
  simp only [SheetPatcher.contextChange] at hchange
  by_cases hblank : (q.met change).byCol change.cond = []
  · rw [if_pos (by rw [hblank]; rfl)] at hchange
    cases hcheck : SheetPatcher.checkHeader { q.met change with rowCursor := 0 } with
    | none =>
      rw [hcheck] at hchange
      have hmissing : SheetPatcher.HeaderMissing { q.met change with rowCursor := 0 } :=
        SheetPatcher.checkHeader_eq_none_iff.1 hcheck
      refine iff_of_false (fun hright => ?_) fun hr => hr hblank hmissing
      obtain ⟨r, hr⟩ := hright.exists
      rw [hr] at hchange
      cases hchange
    | some p' =>
      rw [hcheck] at hchange
      refine iff_of_true
        (right_of_report hchange ⟨fun _ => rfl, fun _ => happ.2 (Or.inl hblank)⟩
          fun hr => by cases hr)
        fun _ hmissing => ?_
      rw [SheetPatcher.checkHeader_eq_none_iff.2
        (show SheetPatcher.HeaderMissing { q.met change with rowCursor := 0 }
        from hmissing)] at hcheck
      cases hcheck
  refine iff_of_true ?_ fun he => absurd he hblank
  rw [if_neg (by rwa [List.isEmpty_iff])] at hchange
  by_cases htop : q.found change = -2
  · rw [if_pos htop] at hchange
    exact right_of_report hchange ⟨fun _ => rfl, fun _ => happ.2 (Or.inr (Or.inl htop))⟩
      fun hr => by cases hr
  rw [if_neg htop] at hchange
  by_cases hf : q.found change < 0
  · rw [if_pos hf] at hchange
    refine right_of_report hchange ⟨fun ha => ?_, fun hr => by cases hr⟩ fun _ => sheet_met h change
    rcases happ.1 ha with h1 | h1 | h1
    · exact absurd h1 hblank
    · exact absurd h1 htop
    · exact absurd h1 (by omega)
  · rw [if_neg hf] at hchange
    exact right_of_report hchange ⟨fun _ => rfl, fun _ => happ.2 (Or.inr (Or.inr (by omega)))⟩
      fun hr => by cases hr

theorem right_none (h : q.Aligned) (hc : change.conflicted = false) (hm : change.mode = .none) :
    q.Right change := by
  have hchange := @changeRow_eq q change h hc (by rw [hm]; decide)
  have happ := @applied_iff q change _ hm hc
  rw [hm] at hchange
  exact right_of_report hchange ⟨fun ha => (happ.1 ha).elim, fun hr => by cases hr⟩ fun _ =>
    sheet_met h change

end

/-- **What `changeRow` reports.**  After any run of changes, the next change is reported exactly
when it is applied, and leaves the sheet alone otherwise, if and only if it is not an insertion that
is made, a move of a row that is there, an update with a row and no value for it, or a context row
without conditions that looks for the header of a sheet without rows. -/
theorem right_iff_reports {q : ChainedPatcher} (h : Reachable q) (change : RowChange) :
    q.Right change ↔ q.Reports change := by
  have hal := h.aligned
  cases hc : change.conflicted with
  | true => exact iff_of_true (right_conflicted hal hc) (Or.inl hc)
  | false =>
    cases hm : change.mode with
    | insert => exact (right_insert hal hc hm).trans (reports_iff hm hc).symm
    | move => exact (right_move hal hc hm).trans (reports_iff hm hc).symm
    | update => exact (right_update hal hc hm).trans (reports_iff hm hc).symm
    | delete => exact iff_of_true (right_delete hal hc hm) ((reports_iff hm hc).2 trivial)
    | context => exact (right_context hal hc hm).trans (reports_iff hm hc).symm
    | none => exact iff_of_true (right_none hal hc hm) ((reports_iff hm hc).2 trivial)

/-- A patcher on a sheet with a column `a` and one row. -/
def fresh : ChainedPatcher :=
  { patcher :=
      { sheet := ⟨[[⟨"1", false⟩]], 1, ⟨"", false⟩⟩
        activeCol := ⟨[["a"]], 1, ""⟩
        statusCol := ⟨[[""]], 1, ""⟩
        name2col := [("a", 0)] } }

theorem reachable_fresh : Reachable fresh :=
  Reachable.start
  (show atSheet _ ⟨[[⟨"1", false⟩]], 1, ⟨"", false⟩⟩ ["a"] false false (fun _ => 0) = _ from rfl)

/-- The row is deleted, and this is reported. -/
theorem right_iff_reports_delete :
    fresh.Right { mode := .delete, cond := [("a", ⟨"1", false⟩)], allNames := ["a"] } :=
  (right_iff_reports reachable_fresh _).2 (Or.inr trivial)

/-- A row is inserted, and the patcher says that nothing was done. -/
theorem insert_not_reported :
    Reachable fresh ∧
      fresh.changeRow { mode := .insert, val := [("a", ⟨"2", false⟩)], allNames := ["a"] } =
        some ({ patcher :=
          { fresh.patcher with
            sheet := ⟨[[⟨"1", false⟩], [⟨"2", false⟩]], 1, ⟨"", false⟩⟩
            activeRow := ⟨[[""], ["+++"]], 1, ""⟩
            declaredNames := true } }, false) ∧
      ¬fresh.Right { mode := .insert, val := [("a", ⟨"2", false⟩)], allNames := ["a"] } := by
  refine ⟨reachable_fresh, rfl, fun h => ?_⟩
  obtain ⟨c, -, ⟨e, link, -, hlink, -⟩, -⟩ := (right_insert reachable_fresh.aligned rfl rfl).1 h
  cases hlink

end ChainedPatcher

end Coopy
