import Coopy.Highlighter
import Coopy.PatcherReport

/-!
# The row cursor of `SheetPatcher`

The cursor is `-1` or the row before which the next row is put.  Each branch of `changeRow` sets it
and takes it back to `-1` at the end of the sheet, but one: a context row without conditions sets it
to the first row, or to the second where the first is taken for the header, and does not look
whether there is such a row.

    the cursor is -1 or a row after every change of a run
      ↔ no blank context row meets a sheet that ends before the row it leads to      (cursorAll_iff)
-/

namespace Coopy

open Lib

namespace SheetPatcher

/-- The cursor is the end of the sheet or one of its rows. -/
def CursorOk (p : SheetPatcher) : Prop :=
  p.rowCursor = -1 ∨ (0 ≤ p.rowCursor ∧ p.rowCursor < p.sheet.height)

instance (p : SheetPatcher) : Decidable p.CursorOk :=
  inferInstanceAs (Decidable (p.rowCursor = -1 ∨ (0 ≤ p.rowCursor ∧ p.rowCursor < p.sheet.height)))

/-- The first row has the names of the columns. -/
def namesFirst (p : SheetPatcher) : Bool :=
  decide (p.activeCol.width = p.sheet.width) &&
      ((List.range p.sheet.width).all fun c =>
        decide ((p.sheet.cell c 0).text = p.activeCol.cell c 0)) ||
    decide (p.sheet.width = 0)

/-- `checkHeader` takes the first row for the header. -/
def headed (p : SheetPatcher) : Bool :=
  !p.checkedHeader && p.assumeHeader && (p.namesFirst && !p.external)

/-- The row that a blank context row leads to is there. -/
def HasTop (p : SheetPatcher) : Prop := if p.headed then 2 ≤ p.sheet.height else 1 ≤ p.sheet.height

/-! ## Each branch -/

section
variable {p : SheetPatcher}

theorem cursorOk_congr {p' : SheetPatcher} (hc : p'.rowCursor = p.rowCursor)
    (hh : p'.sheet.height = p.sheet.height) : p'.CursorOk ↔ p.CursorOk := by
  unfold CursorOk
  rw [hc, hh]

theorem cursorOk_after {r : Int} (h : -1 ≤ r) : CursorOk { p with rowCursor := p.after r } := by
  show p.after r = -1 ∨ (0 ≤ p.after r ∧ p.after r < p.sheet.height)
  unfold after
  split
  · exact Or.inl rfl
  · next hlt => exact Or.inr ⟨by omega, by omega⟩

theorem cursorOk_settle (h : p.CursorOk) (change : RowChange) : (p.settle change).CursorOk := by
  have hheight : (p.settle change).sheet.height = p.sheet.height := by rw [sheet_settle]
  by_cases hs : change.sequential = true
  · refine (cursorOk_congr ?_ hheight).2 h
    unfold settle
    simp only [hs, if_true]
    split
    · rfl
    · rfl
  · refine Or.inl ?_
    unfold settle
    simp only [hs]
    rfl

/-- The names move neither the cursor nor the rows. -/
theorem named_keeps {p' : SheetPatcher} {change : RowChange} (h : p.named change = some p') :
    p'.declaredNames = true ∧ p'.rowCursor = p.rowCursor ∧ p'.sheet = p.sheet := by
  unfold named at h
  split at h
  · next hd =>
    cases h
    exact ⟨hd, rfl, rfl⟩
  · unfold declareNames at h
    simp only at h
    split at h
    · cases h
      exact ⟨rfl, rfl, rfl⟩
    · have hfold :=
        @foldl_synonyms (fun g => g.declaredNames = true ∧ g.rowCursor = p.rowCursor ∧
          g.sheet = p.sheet)
        (fun _ _ _ h => h) change.allNames (List.range change.allNames.length)
          { p with declaredNames := true }
        ⟨rfl, rfl, rfl⟩
      unfold updateCols at h
      split at h
      · cases h
      · cases h
        exact hfold

theorem moveRow_index {T : Type} {s : TypedSheet T} {src base : Int}
    (h : (s.moveRow src base).2 ≠ -1) (hs : 0 ≤ src)
    (hb : base = -1 ∨ 0 ≤ base) : 0 ≤ (s.moveRow src base).2 := by
  unfold TypedSheet.moveRow at h ⊢
  simp only at h ⊢
  split at h
  · exact absurd rfl h
  · next hr =>
    rw [if_neg hr]
    split
    · next hne =>
      show 0 ≤ if base > src then base - 1 else base
      split
      · omega
      · omega
    · show 0 ≤ (s.height : Int) - 1
      omega

theorem cursorOk_insertChange {val : AssocMap Nat (String × SheetCell)} {r : SheetPatcher × Bool}
    (h : p.insertChange val = some r) : r.1.CursorOk := by
  unfold insertChange at h
  simp only at h
  split at h
  · cases h
  · next hi =>
    cases h
    refine cursorOk_after ?_
    by_cases hb : p.rowCursor < p.sheet.height
    · have hidx := (ChainedPatcher.insertRow_place p.sheet p.rowCursor).2 hb
      omega
    · exact absurd (by rw [TypedSheet.insertRow, if_pos (Int.not_lt.1 hb)]) hi

theorem cursorOk_deleteChange (h : p.CursorOk) (r : Int) : (p.deleteChange r).1.CursorOk := by
  unfold deleteChange
  split
  · exact h
  · next hr =>
    show (if r ≥ (p.sheet.deleteRow r).1.height then (-1 : Int) else r) = -1 ∨
      (0 ≤ (if r ≥ (p.sheet.deleteRow r).1.height then (-1 : Int) else r) ∧
        (if r ≥ (p.sheet.deleteRow r).1.height then (-1 : Int) else r) <
          (p.sheet.deleteRow r).1.height)
    split
    · exact Or.inl rfl
    · exact Or.inr ⟨by omega, by omega⟩

theorem cursorOk_moveChange (h : p.CursorOk) {val : AssocMap Nat (String × SheetCell)} {r : Int}
    {r' : SheetPatcher × Bool} (hr : p.moveChange val r = some r') : r'.1.CursorOk := by
  unfold moveChange at hr
  split at hr
  · cases hr
    exact h
  · next h0 =>
    simp only at hr
    split at hr
    · cases hr
    · next hm =>
      cases hr
      have hidx := moveRow_index hm (by omega) (h.imp_right And.left)
      exact cursorOk_after (by omega)

theorem cursorOk_updateChange (val : AssocMap Nat (String × SheetCell)) (r : Int) :
    (p.updateChange val r).1.CursorOk := by
  unfold updateChange
  split
  · exact Or.inl rfl
  · exact cursorOk_after (by omega)

theorem checkHeader_cursor {p p' : SheetPatcher} (h : p.checkHeader = some p') :
    p'.rowCursor = if p.headed then 1 else p.rowCursor := by
  unfold checkHeader at h
  unfold headed
  split at h
  · next hc =>
    cases h
    rw [hc]
    rfl
  · next hc =>
    have hc : p.checkedHeader = false := by simpa using hc
    simp only at h
    split at h
    · next ha =>
      cases h
      rw [show p.assumeHeader = false from ha, hc]
      rfl
    split at h
    · cases h
    · next ha _ =>
      have ha : p.assumeHeader = true := by simpa using ha
      rw [hc, ha, Bool.not_false, Bool.true_and, Bool.true_and]
      split at h
      · next hx =>
        cases h
        exact (if_pos hx).symm
      · next hx =>
        cases h
        exact (if_neg hx).symm

/-- A context row leads to the row behind it, or to the top. -/
theorem cursorOk_contextChange (h : p.CursorOk) {blank : Bool} {r : Int} {r' : SheetPatcher × Bool}
    (hr : p.contextChange blank r = some r') : r'.1.CursorOk ↔ (blank = true → HasTop p) := by
  unfold contextChange at hr
  cases blank with
  | true =>
    rw [if_pos rfl] at hr
    obtain ⟨p', hp, rfl⟩ := Option.map_eq_some_iff.1 hr
    have hcursor : p'.rowCursor = if p.headed then 1 else 0 := checkHeader_cursor hp
    have hsheet : p'.sheet = p.sheet := by
      obtain ⟨c, rfl⟩ := checkHeader_eq hp
      rfl
    unfold CursorOk HasTop
    rw [hsheet, hcursor]
    cases p.headed with
    | true => simp; omega
    | false => simp; omega
  | false =>
    refine iff_of_true ?_ (fun h => absurd h (by decide))
    rw [if_neg (by decide)] at hr
    split at hr
    · cases hr
      show (if p.sheet.height = 0 then (-1 : Int) else 0) = -1 ∨ _
      split
      · exact Or.inl rfl
      · exact Or.inr ⟨le_refl _, by show (0 : Int) < p.sheet.height; omega⟩
    split at hr
    · cases hr
      exact h
    · cases hr
      exact cursorOk_after (by omega)

end

/-! ## Heights -/

theorem height_cellText (s : TypedSheet SheetCell) (x y : Nat) (text : String) :
    (s.cellText x y text).height = s.height :=
  List.length_modify ..

theorem height_insertColumn {T : Type} (s : TypedSheet T) (base : Int) :
    (s.insertColumn base).1.height = s.height := by
  unfold TypedSheet.insertColumn
  split
  · rfl
  · exact List.length_map _

end SheetPatcher

/-! ## The three kinds of patcher -/

/-- Created for apply, for a merge, or for a description. -/
inductive AnyPatcher where
  | apply (q : ChainedPatcher)
  | merge (q : MergingPatcher)
  | describe (q : Highlighter)

namespace AnyPatcher

def patcher : AnyPatcher → SheetPatcher
  | apply q => q.patcher
  | merge q => q.patcher
  | describe q => q.patcher

def changeRow : AnyPatcher → RowChange → Option AnyPatcher
  | apply q, change => (q.changeRow change).map fun r => apply r.1
  | merge q, change => (q.changeRow change).map fun r => merge r.1
  | describe q, change => (q.changeRow change).map fun r => describe r.1

/-- The patcher when the change meets the rows: it knows the names, and conflicts can be written
down. -/
def ready : AnyPatcher → RowChange → Option SheetPatcher
  | apply q, change =>
    if change.conflicted then none else (q.patcher.named change).map fun p => p.settle change
  | merge q, change => (q.patcher.named change).bind fun p =>
      if change.conflicted then
        (MergingPatcher.handleConflicts { q with patcher := p }).bind fun r =>
          if r.2 then some (r.1.patcher.settle change) else none
      else some (p.settle change)
  | describe q, change => (q.named change).map fun q => q.patcher.settle change

/-- A blank context row meets a sheet that has the row it leads to. -/
def Keeps (q : AnyPatcher) (change : RowChange) : Prop :=
  ∀ p, q.ready change = some p → change.mode = .context → (p.byCol change.cond).isEmpty = true →
  p.HasTop

end AnyPatcher

open SheetPatcher

/-- What the modes do to the cursor of a patcher that is ready. -/
theorem cursorOk_modes {p : SheetPatcher} (h : p.CursorOk) {change : RowChange}
    {r : SheetPatcher × Bool} (hr : (match change.mode with
      | .insert => p.insertChange (p.byCol change.val)
      | .delete => some (p.deleteChange (p.matchRow (p.byCol change.cond)))
      | .context => p.contextChange (p.byCol change.cond).isEmpty (p.matchRow (p.byCol change.cond))
      | .move => p.moveChange (p.byCol change.val) (p.matchRow (p.byCol change.cond))
      | .update => some (p.updateChange (p.byCol change.val) (p.matchRow (p.byCol change.cond)))
      | .none => some (p, false)) = some r) :
    r.1.CursorOk ↔ (change.mode = .context → (p.byCol change.cond).isEmpty = true → p.HasTop) := by
  cases hm : change.mode with
  | context =>
    rw [hm] at hr
    rw [cursorOk_contextChange h hr]
    exact ⟨fun hk _ => hk, fun hk => hk rfl⟩
  | insert =>
    rw [hm] at hr
    exact iff_of_true (cursorOk_insertChange hr) (fun he => by cases he)
  | delete =>
    rw [hm] at hr
    cases hr
    exact iff_of_true (cursorOk_deleteChange h _) (fun he => by cases he)
  | move =>
    rw [hm] at hr
    exact iff_of_true (cursorOk_moveChange h hr) (fun he => by cases he)
  | update =>
    rw [hm] at hr
    cases hr
    exact iff_of_true (cursorOk_updateChange _ _) (fun he => by cases he)
  | none =>
    rw [hm] at hr
    cases hr
    exact iff_of_true h (fun he => by cases he)

namespace AnyPatcher

section
variable {change : RowChange}

/-- In apply mode a row may also wait for a pool; then it is taken out again, and the cursor
stays. -/
theorem cursorOk_apply {q : ChainedPatcher} (h : q.patcher.CursorOk) {r : ChainedPatcher × Bool}
    (hr : q.changeRow change = some r) : r.1.patcher.CursorOk ↔ (apply q).Keeps change := by
  unfold ChainedPatcher.changeRow at hr
  obtain ⟨p, hp, hr⟩ := Option.bind_eq_some_iff.1 hr
  obtain ⟨hd, hcursor, hsheet⟩ := named_keeps hp
  have hok : p.CursorOk := (cursorOk_congr hcursor (by rw [hsheet])).2 h
  cases hc : change.conflicted with
  | true =>
    rw [hc, if_neg (by simp), changeRow_of_conflicted hd hc] at hr
    cases hr
    refine iff_of_true hok fun p' hp' => ?_
    rw [ready, hc, if_pos rfl] at hp'
    cases hp'
  | false =>
    have hready : (apply q).ready change = some (p.settle change) := by
      rw [ready, hc, hp]
      rfl
    have hkeeps : (apply q).Keeps change ↔
        (change.mode = .context → ((p.settle change).byCol change.cond).isEmpty = true →
          (p.settle change).HasTop) := by
      unfold Keeps
      rw [hready]
      exact ⟨fun hk => hk _ rfl, fun hk p' hp' => by cases hp'; exact hk⟩
    have hok' := cursorOk_settle hok change
    rw [hkeeps]
    by_cases hm : change.mode = .insert
    · rw [if_pos ⟨hc, hm⟩] at hr
      refine iff_of_true ?_ (fun he => by rw [hm] at he; cases he)
      unfold ChainedPatcher.insertRow at hr
      simp only at hr
      split at hr
      · cases hr
      · next sheet hfill =>
        cases hr
        show SheetPatcher.CursorOk { p.settle change with sheet := (sheet.deleteRow _).1 }
        rw [ChainedPatcher.waits_sheet hfill]
        exact hok'
      · split at hr
        · cases hr
        · cases hr
          exact cursorOk_after (by omega)
    · rw [if_neg (fun hn => hm hn.2)] at hr
      obtain ⟨r', hr', rfl⟩ := Option.map_eq_some_iff.1 hr
      rw [changeRow_of_named hd hc] at hr'
      have hpatcher : (q.report change r').1.patcher = r'.1 := by
        unfold ChainedPatcher.report
        split
        · rfl
        · rfl
      rw [hpatcher]
      exact cursorOk_modes hok' hr'

/-- The column of a merge is put in without touching the rows. -/
theorem handleConflicts_keeps {q : MergingPatcher} {r : MergingPatcher × Bool}
    (hr : q.handleConflicts = some r) : r.1.patcher.rowCursor = q.patcher.rowCursor ∧
    r.1.patcher.sheet.height = q.patcher.sheet.height := by
  unfold MergingPatcher.handleConflicts at hr
  split at hr
  · cases hr
    exact ⟨rfl, rfl⟩
  split at hr
  · cases hr
    exact ⟨rfl, rfl⟩
  · obtain ⟨r', hr', rfl⟩ := Option.map_eq_some_iff.1 hr
    refine ⟨rfl, ?_⟩
    show r'.1.sheet.height = _
    unfold PolySheet.insertColumn at hr'
    simp only at hr'
    split at hr'
    · cases hr'
      exact height_insertColumn _ _
    split at hr'
    · cases hr'
    · obtain ⟨poly, hpoly, rfl⟩ := Option.map_eq_some_iff.1 hr'
      unfold PolySheet.postApplyInfo at hpoly
      split at hpoly
      · split at hpoly
        · cases hpoly
          exact (height_cellText _ _ _ _).trans (height_insertColumn _ _)
        · cases hpoly
      · cases hpoly
        exact height_insertColumn _ _

theorem cursorOk_updateRow {q : MergingPatcher} {r : Int} {r' : MergingPatcher × Bool}
    (hr : q.updateRow change r = some r') : r'.1.patcher.CursorOk := by
  unfold MergingPatcher.updateRow at hr
  split at hr
  · cases hr
    exact Or.inl rfl
  · obtain ⟨q', -, rfl⟩ := Option.map_eq_some_iff.1 hr
    exact cursorOk_after (by omega)

theorem cursorOk_moveRow {q : MergingPatcher} (h : q.patcher.CursorOk) {r : Int}
    {r' : MergingPatcher × Bool} (hr : q.moveRow change r = some r') : r'.1.patcher.CursorOk := by
  unfold MergingPatcher.moveRow at hr
  split at hr
  · cases hr
    exact h
  · simp only at hr
    split at hr
    · cases hr
    · next hmoved =>
      obtain ⟨q', -, rfl⟩ := Option.map_eq_some_iff.1 hr
      have hidx := moveRow_index hmoved (by omega) (h.imp_right And.left)
      exact cursorOk_after (by omega)

theorem cursorOk_merge {q : MergingPatcher} (h : q.patcher.CursorOk) {r : MergingPatcher × Bool}
    (hr : q.changeRow change = some r) : r.1.patcher.CursorOk ↔ (merge q).Keeps change := by
  unfold MergingPatcher.changeRow at hr
  simp only at hr
  obtain ⟨p, hp, hr⟩ := Option.bind_eq_some_iff.1 hr
  obtain ⟨hd, hcursor, hsheet⟩ := named_keeps hp
  have hok : p.CursorOk := (cursorOk_congr hcursor (by rw [hsheet])).2 h
  have hkeeps : ∀ {s : SheetPatcher}, (merge q).ready change = some s → ((merge q).Keeps change ↔
      (change.mode = .context → (s.byCol change.cond).isEmpty = true → s.HasTop)) := by
    intro s hs
    unfold Keeps
    rw [hs]
    exact ⟨fun hk => hk _ rfl, fun hk p' hp' => by cases hp'; exact hk⟩
  cases hc : change.conflicted with
  | false =>
    have hready : (merge q).ready change = some (p.settle change) := by
      rw [ready, hp, hc]
      rfl
    rw [hc, if_pos rfl] at hr
    obtain ⟨r', hr', rfl⟩ := Option.map_eq_some_iff.1 hr
    rw [changeRow_of_named hd hc] at hr'
    rw [hkeeps hready]
    exact cursorOk_modes (cursorOk_settle hok change) hr'
  | true =>
    rw [hc, if_neg (by decide)] at hr
    obtain ⟨r₁, hr₁, hr⟩ := Option.bind_eq_some_iff.1 hr
    obtain ⟨hcursor₁, hheight₁⟩ := handleConflicts_keeps hr₁
    have hok₁ : r₁.1.patcher.CursorOk := (cursorOk_congr hcursor₁ hheight₁).2 hok
    split at hr
    · next hb =>
      cases hr
      refine iff_of_true hok₁ fun p' hp' => ?_
      rw [ready, hp, Option.bind_some, hc, if_pos rfl, hr₁, Option.bind_some, hb,
        if_neg (by decide)] at hp'
      cases hp'
    · next hb =>
      have hb : r₁.2 = true := by simpa using hb
      have hready : (merge q).ready change = some (r₁.1.patcher.settle change) := by
        rw [ready, hp, Option.bind_some, hc, if_pos rfl, hr₁, Option.bind_some, hb, if_pos rfl]
      have hok' := cursorOk_settle hok₁ change
      rw [hkeeps hready]
      generalize r₁.1.patcher.settle change = s at hr hok' ⊢
      cases hm : change.mode with
      | context =>
        rw [hm] at hr
        obtain ⟨r', hr', rfl⟩ := Option.map_eq_some_iff.1 hr
        show r'.1.CursorOk ↔ _
        rw [cursorOk_contextChange hok' hr']
        exact ⟨fun hk _ => hk, fun hk => hk rfl⟩
      | insert =>
        rw [hm] at hr
        obtain ⟨r', hr', rfl⟩ := Option.map_eq_some_iff.1 hr
        exact iff_of_true (cursorOk_insertChange hr') (fun he => by cases he)
      | delete =>
        rw [hm] at hr
        cases hr
        exact iff_of_true (cursorOk_deleteChange hok' _) (fun he => by cases he)
      | none =>
        rw [hm] at hr
        cases hr
        exact iff_of_true hok' (fun he => by cases he)
      | update =>
        rw [hm] at hr
        exact iff_of_true (cursorOk_updateRow hr) (fun he => by cases he)
      | move =>
        rw [hm] at hr
        exact iff_of_true (cursorOk_moveRow hok' hr) (fun he => by cases he)

theorem highlighter_named_keeps {q q' : Highlighter} (h : q.named change = some q') :
    q'.patcher.rowCursor = q.patcher.rowCursor ∧ q'.patcher.sheet = q.patcher.sheet := by
  unfold Highlighter.named at h
  split at h
  · cases h
    exact ⟨rfl, rfl⟩
  · unfold Highlighter.declareNames at h
    simp only at h
    split at h
    · cases h
      exact ⟨rfl, rfl⟩
    split at h
    · cases h
    · obtain ⟨h1, h2⟩ :=
        @foldl_synonyms (fun g => g.rowCursor = q.patcher.rowCursor ∧ g.sheet = q.patcher.sheet)
        (fun _ _ _ h => h) change.allNames (List.range change.allNames.length)
          { q.patcher with declaredNames := true }
        ⟨rfl, rfl⟩
      obtain ⟨p, hp, rfl⟩ := Option.map_eq_some_iff.1 h
      unfold updateCols at hp
      split at hp
      · cases hp
      · cases hp
        exact ⟨h1, h2⟩

/-- A row that is marked as deleted is still there. -/
theorem cursorOk_markDeleted {p : SheetPatcher} (h : p.CursorOk) (r : Int) :
    (Highlighter.deleteChange p r).1.CursorOk := by
  unfold Highlighter.deleteChange
  split
  · exact h
  · next hr =>
    show (if r ≥ p.sheet.height then (-1 : Int) else r) = -1 ∨
      (0 ≤ (if r ≥ p.sheet.height then (-1 : Int) else r) ∧
        (if r ≥ p.sheet.height then (-1 : Int) else r) < p.sheet.height)
    split
    · exact Or.inl rfl
    · exact Or.inr ⟨by omega, by omega⟩

theorem cursorOk_markUpdated {p : SheetPatcher} {r : Int} {r' : SheetPatcher × Bool}
    (hr : Highlighter.updateChange p change r = some r') : r'.1.CursorOk := by
  unfold Highlighter.updateChange at hr
  split at hr
  · cases hr
    exact Or.inl rfl
  · obtain ⟨p', -, rfl⟩ := Option.map_eq_some_iff.1 hr
    exact cursorOk_after (by omega)

theorem cursorOk_markMoved {p : SheetPatcher} (h : p.CursorOk) {r : Int} {r' : SheetPatcher × Bool}
    (hr : Highlighter.moveChange p change r = some r') : r'.1.CursorOk := by
  unfold Highlighter.moveChange at hr
  split at hr
  · cases hr
    exact h
  · simp only at hr
    split at hr
    · cases hr
    · next hmoved =>
      obtain ⟨p', -, rfl⟩ := Option.map_eq_some_iff.1 hr
      have hidx := moveRow_index hmoved (by omega) (h.imp_right And.left)
      exact cursorOk_after (by omega)

theorem cursorOk_describe {q : Highlighter} (h : q.patcher.CursorOk) {r : Highlighter × Bool}
    (hr : q.changeRow change = some r) : r.1.patcher.CursorOk ↔ (describe q).Keeps change := by
  unfold Highlighter.changeRow at hr
  obtain ⟨q', hq, hr⟩ := Option.bind_eq_some_iff.1 hr
  obtain ⟨hcursor, hsheet⟩ := highlighter_named_keeps hq
  have hok : (q'.patcher.settle change).CursorOk :=
    cursorOk_settle ((cursorOk_congr hcursor (by rw [hsheet])).2 h) change
  have hready : (describe q).ready change = some (q'.patcher.settle change) := by
    rw [ready, hq]
    rfl
  have hkeeps : (describe q).Keeps change ↔
      (change.mode = .context → ((q'.patcher.settle change).byCol change.cond).isEmpty = true →
        (q'.patcher.settle change).HasTop) := by
    unfold Keeps
    rw [hready]
    exact ⟨fun hk => hk _ rfl, fun hk p' hp' => by cases hp'; exact hk⟩
  rw [hkeeps]
  generalize q'.patcher.settle change = s at hr hok ⊢
  obtain ⟨r', hr', rfl⟩ := Option.map_eq_some_iff.1 hr
  cases hm : change.mode with
  | context =>
    rw [hm] at hr'
    show r'.1.CursorOk ↔ _
    rw [cursorOk_contextChange hok hr']
    exact ⟨fun hk _ => hk, fun hk => hk rfl⟩
  | insert =>
    rw [hm] at hr'
    exact iff_of_true (cursorOk_insertChange hr') (fun he => by cases he)
  | delete =>
    rw [hm] at hr'
    cases hr'
    exact iff_of_true (cursorOk_markDeleted hok _) (fun he => by cases he)
  | move =>
    rw [hm] at hr'
    exact iff_of_true (cursorOk_markMoved hok hr') (fun he => by cases he)
  | update =>
    rw [hm] at hr'
    exact iff_of_true (cursorOk_markUpdated hr') (fun he => by cases he)
  | none =>
    rw [hm] at hr'
    cases hr'
    exact iff_of_true hok (fun he => by cases he)

end

/-! ## Runs -/

theorem cursorOk_changeRow {q q' : AnyPatcher} (h : q.patcher.CursorOk) {change : RowChange}
    (hr : q.changeRow change = some q') : q'.patcher.CursorOk ↔ q.Keeps change := by
  cases q with
  | apply q =>
    obtain ⟨r, hr', rfl⟩ := Option.map_eq_some_iff.1 hr
    exact cursorOk_apply h hr'
  | merge q =>
    obtain ⟨r, hr', rfl⟩ := Option.map_eq_some_iff.1 hr
    exact cursorOk_merge h hr'
  | describe q =>
    obtain ⟨r, hr', rfl⟩ := Option.map_eq_some_iff.1 hr
    exact cursorOk_describe h hr'

/-- The cursor is the end or a row after each change that the patcher gets through. -/
def CursorAll (q : AnyPatcher) : List RowChange → Prop
  | [] => True
  | change :: changes =>
    ∀ q', q.changeRow change = some q' → q'.patcher.CursorOk ∧ q'.CursorAll changes

def KeepsAll (q : AnyPatcher) : List RowChange → Prop
  | [] => True
  | change :: changes => ∀ q', q.changeRow change = some q' → q.Keeps change ∧ q'.KeepsAll changes

/-- A patcher at the start of its sheet: the cursor is not set. -/
structure Fresh where
  start : AnyPatcher
  cursor : start.patcher.rowCursor = -1

theorem cursorAll_iff_of_ok (changes : List RowChange) : ∀ {q : AnyPatcher}, q.patcher.CursorOk →
    (q.CursorAll changes ↔ q.KeepsAll changes) := by
  induction changes with
  | nil => exact fun _ => Iff.rfl
  | cons change changes ih =>
    intro q h
    refine forall_congr' fun q' => forall_congr' fun hr => ?_
    rw [cursorOk_changeRow h hr]
    refine and_congr_right fun hk => ih ((cursorOk_changeRow h hr).2 hk)

/-- The cursor is the end or a row all through a run exactly when no blank context row meets a sheet
that ends before the row it leads to. -/
theorem cursorAll_iff (f : Fresh) (changes : List RowChange) :
    f.start.CursorAll changes ↔ f.start.KeepsAll changes :=
  cursorAll_iff_of_ok changes (Or.inl f.cursor)

/-! ## The top of a sheet that has none -/

/-- A table with its header only. -/
def headerOnly : Fresh where
  start := apply {
    patcher := {
      sheet := ⟨[[⟨"a", false⟩]], 1, ⟨"", false⟩⟩
      assumeHeader := true
      activeCol := ⟨[["a"]], 1, ""⟩
      statusCol := ⟨[[""]], 1, ""⟩ } }
  cursor := rfl

/-- A table with a column and no rows. -/
def rowless : Fresh where
  start := apply {
    patcher := {
      sheet := ⟨[], 1, ⟨"", false⟩⟩
      activeCol := ⟨[["a"]], 1, ""⟩
      statusCol := ⟨[[""]], 1, ""⟩ } }
  cursor := rfl

/-- A context row without conditions, and a row that is put in after it. -/
def topInsert : List RowChange :=
  [{ mode := .context, allNames := ["a"] },
    { mode := .insert, allNames := ["a"], val := [("a", ⟨"1", false⟩)] }]

/-- The cursor is set to a row that is not there, and the row that comes next has no place to go. -/
theorem not_cursorAll :
    ¬ headerOnly.start.CursorAll topInsert ∧ ¬ rowless.start.CursorAll topInsert ∧
      (topInsert.foldlM AnyPatcher.changeRow headerOnly.start).isNone ∧
      (topInsert.foldlM AnyPatcher.changeRow rowless.start).isNone := by
  refine ⟨fun h => ?_, fun h => ?_, by decide, by decide⟩
  · exact absurd (h _ rfl).1 (by decide)
  · exact absurd (h _ rfl).1 (by decide)

end AnyPatcher

end Coopy
