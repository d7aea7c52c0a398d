import Coopy.ColumnReplay

/-!
# Names written into the header

Under an assumed header a new or renamed column has its name written into the last row of the
header.  A patcher that never does so (`Untitled`) takes the same steps, and what the two have in
their sheets differs in rows of the header only.

    changeColumn of p with titles = changeColumn of p without, up to rows above H
                                                                               (changeColumn_titled)
    changeColumns of a script likewise, with H the highest header met on the way
                                                                              (changeColumns_titled)
-/

namespace Coopy

namespace TypedSheet

/-- Two sheets that differ in their first `h` rows at most. -/
structure SameBelow (h : Nat) (s t : TypedSheet SheetCell) : Prop where
  width : s.w = t.w
  zero : s.zero = t.zero
  height : s.arr.length = t.arr.length
  rows : s.arr.drop h = t.arr.drop h

namespace SameBelow

variable {h : Nat} {s t : TypedSheet SheetCell}

theorem refl (h : Nat) (s : TypedSheet SheetCell) : SameBelow h s s := ⟨rfl, rfl, rfl, rfl⟩

theorem mono (hst : SameBelow h s t) {k : Nat} (hk : h ≤ k) : SameBelow k s t where
  width := hst.width
  zero := hst.zero
  height := hst.height
  rows := by
    obtain ⟨j, rfl⟩ := Nat.exists_eq_add_of_le hk
    rw [← List.drop_drop, ← List.drop_drop, hst.rows]

theorem getElem? (hst : SameBelow h s t) {y : Nat} (hy : h ≤ y) : s.arr[y]? = t.arr[y]? := by
  obtain ⟨k, rfl⟩ := Nat.exists_eq_add_of_le hy
  rw [← List.getElem?_drop, ← List.getElem?_drop, hst.rows]

/-- The same for each row. -/
theorem map {xs ys : List (List SheetCell)} (hlen : xs.length = ys.length)
    (hrows : xs.drop h = ys.drop h) (w : Nat)
    (zero : SheetCell) (f : List SheetCell → List SheetCell) :
    SameBelow h ⟨xs.map f, w, zero⟩ ⟨ys.map f, w, zero⟩ where
  width := rfl
  zero := rfl
  height := by
    show (xs.map f).length = (ys.map f).length
    rw [List.length_map, List.length_map, hlen]
  rows := by
    show (xs.map f).drop h = (ys.map f).drop h
    rw [← List.map_drop, ← List.map_drop, hrows]

theorem deleteData (hst : SameBelow h s t) : SameBelow h s.deleteData t.deleteData :=
  ⟨hst.width, hst.zero, rfl, rfl⟩

theorem deleteColumn (hst : SameBelow h s t) (column : Int) :
    SameBelow h (s.deleteColumn column).1 (t.deleteColumn column).1 ∧
      (s.deleteColumn column).2 = (t.deleteColumn column).2 := by
  unfold TypedSheet.deleteColumn
  rw [hst.width, hst.zero]
  split
  · exact ⟨hst, rfl⟩
  · exact ⟨map hst.height hst.rows _ _ _, rfl⟩

theorem insertColumn (hst : SameBelow h s t) (base : Int) :
    SameBelow h (s.insertColumn base).1 (t.insertColumn base).1 ∧
    (s.insertColumn base).2 = (t.insertColumn base).2 := by
  unfold TypedSheet.insertColumn
  rw [hst.width, hst.zero]
  split
  · exact ⟨hst, rfl⟩
  · exact ⟨map hst.height hst.rows _ _ _, rfl⟩

theorem moveColumn (hst : SameBelow h s t) (src base : Int) :
    SameBelow h (s.moveColumn src base).1 (t.moveColumn src base).1 ∧
      (s.moveColumn src base).2 = (t.moveColumn src base).2 := by
  unfold TypedSheet.moveColumn
  rw [hst.width, hst.zero]
  split
  · exact ⟨hst, rfl⟩
  · exact ⟨map hst.height hst.rows _ _ _, rfl⟩

/-- A text in one of the first rows makes no difference. -/
theorem cellText (hst : SameBelow h s t) (x : Nat) {y : Nat} (hy : y < h) (str : String) :
    SameBelow h (s.cellText x y str) t where
  width := hst.width
  zero := hst.zero
  height := (List.length_modify ..).trans hst.height
  rows := by
    show (s.arr.modify y _).drop h = _
    rw [← hst.rows]
    refine List.ext_getElem? fun i => ?_
    rw [List.getElem?_drop, List.getElem?_drop, List.getElem?_modify]
    simp only [show y ≠ h + i by omega, if_false, Option.map_eq_map, Option.map_id_fun', id_eq]

end SameBelow

end TypedSheet

namespace SheetPatcher

open TypedSheet (SameBelow)

/-- The same patcher on another sheet, with names written into the header. -/
def titled (p : SheetPatcher) (sheet : TypedSheet SheetCell)
    (headerHeight : TypedSheet SheetCell → Nat) :
    SheetPatcher :=
  { p with sheet := sheet, headerHeight := headerHeight }

/-- The highest header met while a script is applied. -/
def headerReach : List OrderChange → SheetPatcher → Nat
  | [], _ => 0
  | change :: changes, p =>
    max (p.headerHeight p.sheet)
      (((p.changeColumn change).map fun r => headerReach changes r.1).getD 0)

section
variable {p : SheetPatcher} {f : TypedSheet SheetCell → Nat}

theorem updateCols_titled {t : TypedSheet SheetCell} (ht : t.w = p.sheet.w) :
    (p.titled t f).updateCols = p.updateCols.map fun q => q.titled t f := by
  unfold updateCols
  have hw : ((p.titled t f).activeCol.width ≠ (p.titled t f).sheet.width) ↔
    p.activeCol.width ≠ p.sheet.width := by
    show (p.activeCol.width ≠ t.w) ↔ (p.activeCol.width ≠ p.sheet.w)
    rw [ht]
  by_cases hd : p.activeCol.width ≠ p.sheet.width
  · rw [if_pos hd, if_pos (hw.mpr hd)]
    rfl
  · rw [if_neg hd, if_neg (mt hw.mp hd)]
    rfl

theorem updateCols_sheet {q : SheetPatcher} (h : p.updateCols = some q) :
    q.sheet = p.sheet ∧ q.headerHeight = p.headerHeight := by
  unfold updateCols at h
  split at h
  · cases h
  · cases h
    exact ⟨rfl, rfl⟩

theorem attach_sheet {sheet : TypedSheet SheetCell} {names : List String} {assumeHeader : Bool}
    (h : attach sheet names assumeHeader = some p) :
    p.sheet = sheet ∧ ∀ s, p.headerHeight s = 0 := by
  obtain ⟨hsheet, hheader⟩ := updateCols_sheet h
  exact ⟨hsheet, fun s => by rw [hheader]⟩

theorem titles_le (p : SheetPatcher) (name : String) : p.titles name ≤ p.headerHeight p.sheet := by
  unfold titles
  split
  · exact Nat.le_refl _
  · exact Nat.zero_le _

end

/-- A patcher set to a sheet writes names where a header is assumed. -/
theorem attach_titles {sheet : TypedSheet SheetCell} {names : List String} {assumeHeader : Bool}
    {p : SheetPatcher}
    (h : attach sheet names assumeHeader = some p) (f : TypedSheet SheetCell → Nat)
    (name : String) : (p.titled sheet f).titles name ≤ if assumeHeader then f sheet else 0 := by
  unfold attach updateCols at h
  split at h
  · cases h
  · cases h
    unfold titles titled
    cases assumeHeader
    · simp
    · simp only [if_true]
      split
      · exact Nat.le_refl _
      · exact Nat.zero_le _

/-- What a step comes to with titles, beside what it comes to without. -/
def Beside (h : Nat) (f : TypedSheet SheetCell → Nat) (x y : Option (SheetPatcher × Bool)) : Prop :=
  ∃ t, x = y.map (fun r => (r.1.titled t f, r.2)) ∧
    ∀ r, y = some r → SameBelow h t r.1.sheet ∧ ∀ sheet, r.1.headerHeight sheet = 0

section
variable {h : Nat} {f : TypedSheet SheetCell → Nat}

theorem Beside.none (t : TypedSheet SheetCell) : Beside h f none none :=
  ⟨t, rfl, fun r hr => by cases hr⟩

theorem Beside.updateCols {x y : SheetPatcher} (hx : x = y.titled x.sheet f)
    (hun : ∀ sheet, y.headerHeight sheet = 0) (hbelow : SameBelow h x.sheet y.sheet) (b : Bool) :
    Beside h f (x.updateCols.map fun q => (q, b)) (y.updateCols.map fun q => (q, b)) := by
  refine ⟨x.sheet, ?_, fun r hr => ?_⟩
  · rw [hx, updateCols_titled hbelow.width, Option.map_map, Option.map_map]
    rfl
  · obtain ⟨q, hq, rfl⟩ := Option.map_eq_some_iff.mp hr
    obtain ⟨hsheet, hheader⟩ := updateCols_sheet hq
    exact ⟨hsheet ▸ hbelow, fun sheet => by rw [hheader]; exact hun sheet⟩

/-- A name that fits the sheet is written into a row above. -/
theorem postApplyInfo_titled {s t : TypedSheet SheetCell} (hbelow : SameBelow h t s) {titles : Nat}
    (hh : titles ≤ h) (hfits : titles ≤ t.height) (idx : Nat) (name : String) :
    ∃ t', postApplyInfo t titles idx name = some t' ∧ SameBelow h t' s := by
  unfold postApplyInfo
  split
  · exact ⟨t, rfl, hbelow⟩
  · rw [if_pos (by omega)]
    exact ⟨_, rfl, hbelow.cellText idx (by omega) name⟩

variable {p : SheetPatcher} (hun : ∀ sheet, p.headerHeight sheet = 0) {t : TypedSheet SheetCell}
  (hbelow : SameBelow h t p.sheet) (hh : ∀ name, (p.titled t f).titles name ≤ h)
    (hfits : f t ≤ t.height)

include hun hbelow

theorem deleteCol_titled (change : OrderChange) :
    Beside h f ((p.titled t f).deleteCol change) (p.deleteCol change) := by
  unfold deleteCol
  cases nameIn change.namesBefore (change.identityToIndex change.subject) with
  | none => exact Beside.none t
  | some mover =>
    simp only [Option.bind_some]
    rw [show (p.titled t f).matchCol mover = p.matchCol mover from rfl]
    cases p.matchCol mover with
    | none => exact Beside.none t
    | some idx =>
      obtain ⟨hdel, hok⟩ := hbelow.deleteColumn idx
      simp only [Option.bind_some]
      rw [show (p.titled t f).sheet = t from rfl, hok]
      have hgone : decide ((t.deleteColumn (idx : Int)).1.width = 0) =
          decide ((p.sheet.deleteColumn (idx : Int)).1.width = 0) := by
        unfold TypedSheet.width
        rw [hdel.width]
      rw [hgone]
      cases decide ((p.sheet.deleteColumn (idx : Int)).1.width = 0) with
      | true =>
        apply Beside.updateCols rfl
        · exact hun
        · exact hdel.deleteData
      | false =>
        apply Beside.updateCols rfl
        · exact hun
        · exact hdel

theorem moveColumn_titled (idx idx2 : Int) :
    Beside h f ((p.titled t f).moveColumn idx idx2) (p.moveColumn idx idx2) := by
  obtain ⟨hmove, hok⟩ := hbelow.moveColumn idx idx2
  unfold moveColumn
  simp only
  rw [show (p.titled t f).sheet = t from rfl, hok]
  apply Beside.updateCols rfl
  · exact hun
  · exact hmove

theorem moveCol_titled (change : OrderChange) :
    Beside h f ((p.titled t f).moveCol change) (p.moveCol change) := by
  unfold moveCol
  simp only
  cases nameIn change.namesAfter (change.identityToIndexAfter change.subject) with
  | none => exact Beside.none t
  | some mover =>
    simp only [Option.bind_some]
    rw [show (p.titled t f).matchCol mover = p.matchCol mover from rfl]
    cases p.matchCol mover with
    | none => exact Beside.none t
    | some idx =>
      simp only [Option.bind_some]
      rw [show (p.titled t f).nextCol change (change.identityToIndexAfter change.subject) =
        p.nextCol change (change.identityToIndexAfter change.subject) from rfl]
      cases p.nextCol change (change.identityToIndexAfter change.subject) with
      | none => exact Beside.none t
      | some idx2 => exact moveColumn_titled hun hbelow idx idx2

include hh hfits

theorem insertCol_titled (change : OrderChange) :
    Beside h f ((p.titled t f).insertCol change) (p.insertCol change) := by
  have huntitled : p.Untitled := fun _ _ sheet => hun sheet
  unfold insertCol
  simp only
  cases nameIn change.namesAfter (change.identityToIndexAfter change.subject) with
  | none => exact Beside.none t
  | some mover =>
    simp only [Option.bind_some]
    rw [show (p.titled t f).nextCol change (change.identityToIndexAfter change.subject) =
      p.nextCol change (change.identityToIndexAfter change.subject) from rfl]
    cases p.nextCol change (change.identityToIndexAfter change.subject) with
    | none => exact Beside.none t
    | some idx =>
      obtain ⟨hins, hok⟩ := hbelow.insertColumn idx
      have hheight : (t.insertColumn idx).1.height = t.height := by
        unfold TypedSheet.insertColumn
        split
        · rfl
        · exact List.length_map ..
      have htitles :
        (if (p.sheet.insertColumn idx).2 = -1 then 0 else (p.titled t f).titles mover) ≤
          (p.titled t f).titles mover := by
        split
        · exact Nat.zero_le _
        · exact Nat.le_refl _
      have hfits' : (p.titled t f).titles mover ≤ (t.insertColumn idx).1.height :=
        (titles_le _ mover).trans (hfits.trans hheight.ge)
      obtain ⟨t', ht', hbelow'⟩ :=
        postApplyInfo_titled hins (htitles.trans (hh mover)) (htitles.trans hfits')
        (p.sheet.insertColumn idx).2.toNat mover
      simp only [Option.bind_some, huntitled.postApplyInfo_if]
      rw [show (p.titled t f).sheet = t from rfl, hok, ht']
      apply Beside.updateCols rfl
      · exact hun
      · exact hbelow'

theorem renameCol_titled (change : OrderChange) :
    Beside h f ((p.titled t f).renameCol change) (p.renameCol change) := by
  have huntitled : p.Untitled := fun _ _ sheet => hun sheet
  unfold renameCol
  cases nameIn change.namesBefore (change.identityToIndex change.subject) with
  | none => exact Beside.none t
  | some target =>
    simp only [Option.bind_some]
    cases nameIn change.namesAfter (change.identityToIndexAfter change.subject) with
    | none => exact Beside.none t
    | some newName =>
      simp only [Option.bind_some]
      rw [show (p.titled t f).matchCol target = p.matchCol target from rfl]
      cases p.matchCol target with
      | none => exact Beside.none t
      | some idx =>
        obtain ⟨t', ht', hbelow'⟩ :=
          postApplyInfo_titled hbelow (hh newName) ((titles_le _ newName).trans hfits) idx
          newName
        simp only [Option.bind_some, huntitled.postApplyInfo]
        rw [show (p.titled t f).sheet = t from rfl, ht']
        apply Beside.updateCols rfl
        · exact hun
        · exact hbelow'

theorem changeColumn_titled (change : OrderChange) :
    Beside h f ((p.titled t f).changeColumn change) (p.changeColumn change) := by
  unfold changeColumn
  cases change.mode with
  | delete => exact deleteCol_titled hun hbelow change
  | insert => exact insertCol_titled hun hbelow hh hfits change
  | move => exact moveCol_titled hun hbelow change
  | rename => exact renameCol_titled hun hbelow hh hfits change

end

/-- **Titles.**  A script with the header found in the sheet is applied as it is without titles, up
to rows that were part of the header at some time. -/
theorem changeColumns_titled {f : TypedSheet SheetCell → Nat}
    (hfits : ∀ sheet, f sheet ≤ sheet.height)
    (changes : List OrderChange) : ∀ (h : Nat) (p : SheetPatcher) (t : TypedSheet SheetCell),
    (∀ sheet, p.headerHeight sheet = 0) → SameBelow h t p.sheet →
    ∃ t', changeColumns changes (p.titled t f) = (changeColumns changes p).map
      (fun q => q.titled t' f) ∧
      ∀ q, changeColumns changes p = some q →
      SameBelow (max h (headerReach changes (p.titled t f))) t' q.sheet := by
  induction changes with
  | nil =>
    intro h p t _ hbelow
    refine ⟨t, rfl, fun q hq => ?_⟩
    cases hq
    exact hbelow.mono (Nat.le_max_left _ _)
  | cons change changes ih =>
    intro h p t hun hbelow
    obtain ⟨t1, hstep, hstep'⟩ := changeColumn_titled hun (hbelow.mono (Nat.le_max_left h (f t)))
      (fun name => (titles_le _ name).trans (Nat.le_max_right h (f t))) (hfits t) change
    unfold changeColumns headerReach
    rw [hstep]
    cases hr : p.changeColumn change with
    | none => exact ⟨t, rfl, fun q hq => by cases hq⟩
    | some r =>
      obtain ⟨hbelow1, hun1⟩ := hstep' r hr
      obtain ⟨t2, hrest, hrest'⟩ := ih _ r.1 t1 hun1 hbelow1
      refine ⟨t2, hrest, fun q hq => ?_⟩
      have := hrest' q hq
      rw [Nat.max_assoc] at this
      exact this

end SheetPatcher

end Coopy
