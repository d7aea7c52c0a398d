import Coopy.Lib.Containers
import Coopy.PolySheet

/-!
# Rows around the changes

At the end of `updateSheet` the rows of a highlighter that are far from a tagged one are taken out.
The loop counts rows as if they were gone while their deletion is still to come; what is in the
sheet is at every time

    rows that are done ++ rows to be deleted ++ rows that are done ++ rows to come           (Trims)

and at the end the rows near a tag, with one row of dots for each run of others.  The dots are
written as texts, so a cell that was NULL stays NULL under them.

    the dots are cells of dots ↔ no run of other rows starts with a row that has a NULL
                                                                                  (contextLines_iff)
-/

namespace Coopy

open Lib

/-- A sheet whose rows all have its width, the first column for the tags. -/
structure HighlighterSheet where
  sheet : TypedSheet SheetCell
  rect : ∀ row ∈ sheet.arr, row.length = sheet.w
  tags : 0 < sheet.w

namespace ContextLines

def clean (s : String) : String := if s ≠ "NULL" then s else ""

/-- A row with a tag. -/
def present (s : TypedSheet SheetCell) (i : Nat) : Bool := clean (s.cell 0 i).text ≠ ""

/-- The rows up to `lines` before and behind row `i` are shown. -/
def mark (lines height i : Nat) (shown : List Bool) : List Bool :=
  (List.range (2 * lines + 1)).foldl (fun shown (j : Nat) =>
    let k : Int := i + ((j : Int) - lines)
    if 0 ≤ k ∧ k < height then shown.set k.toNat true else shown) shown

def shownRows (s : TypedSheet SheetCell) (lines : Nat) : List Bool :=
  (List.range s.height).foldl (fun shown i => if present s i then mark lines s.height i shown
    else shown)
    (List.replicate s.height false)

/-- `deleteRows`: the first row as often as there are rows. -/
def deleteRows (s : TypedSheet SheetCell) (first : Int) : Nat → TypedSheet SheetCell
  | 0 => s
  | n + 1 =>
    if (s.deleteRow first).2 then deleteRows (s.deleteRow first).1 first n
      else (s.deleteRow first).1

def dots : SheetCell := ⟨"...", false⟩

/-- What `cellString` leaves of a row that it writes dots into. -/
def dotted (row : List SheetCell) : List SheetCell := row.map fun c => { c with text := "..." }

structure State where
  sheet : TypedSheet SheetCell
  offset : Int := 0
  addedBreak : Bool := false
  startDelete : Int := -1
  countDelete : Nat := 0

/-- The deletion that is still to come. -/
def State.flush (t : State) : State :=
  if t.startDelete ≠
  -1 then { t with sheet := deleteRows t.sheet t.startDelete t.countDelete, startDelete := -1 }
  else t

/-- One round of the loop, for row `i`. -/
def State.step (shown : List Bool) (t : State) (i : Nat) : State :=
  if shown.getD i false = false then
    let k := i + t.offset
    if t.addedBreak then
      { t with
        startDelete := if t.startDelete = -1 then k else t.startDelete
        countDelete := (if t.startDelete = -1 then 0 else t.countDelete) + 1
        offset := t.offset - 1 }
    else
      let t := t.flush
      { t with
        sheet := (List.range t.sheet.w).foldl (fun s j => s.cellText j k.toNat "...") t.sheet
        addedBreak := true }
  else { t with addedBreak := false }

/-- What the flag `context_lines` leaves of a sheet. -/
def trim (s : TypedSheet SheetCell) (contextLines : Int) : TypedSheet SheetCell :=
  let lines := if contextLines = -2 then 2 else contextLines
  if 0 ≤ lines then
    ((List.range s.height).foldl (State.step (shownRows s lines.toNat)) { sheet := s }).flush.sheet
  else s

/-- A row within a distance of a tagged one. -/
def Near (s : TypedSheet SheetCell) (n i : Nat) : Prop := ∃ t < s.height, present s t = true ∧
    i ≤ t + n ∧ t ≤ i + n

instance (s : TypedSheet SheetCell) (n i : Nat) : Decidable (Near s n i) :=
  inferInstanceAs (Decidable (∃ t < s.height, present s t = true ∧ i ≤ t + n ∧ t ≤ i + n))

/-- What becomes of row `i`: it stays if it is near a tagged one, and dots stand where a run of
others starts. -/
def kept (s : TypedSheet SheetCell) (n i : Nat) : List (List SheetCell) :=
  if Near s n i then [s.arr.getD i []] else if i = 0 ∨
  Near s n (i - 1) then [List.replicate s.w dots] else []

def trimmed (s : TypedSheet SheetCell) (n : Nat) : List (List SheetCell) :=
  (List.range s.height).flatMap (kept s n)

/-- What the loop makes of row `i`. -/
def left (s : TypedSheet SheetCell) (n i : Nat) : List (List SheetCell) :=
  if Near s n i then [s.arr.getD i []] else if i = 0 ∨
  Near s n (i - 1) then [dotted (s.arr.getD i [])] else []

/-! ## The rows that are shown -/

theorem getD_set_true (shown : List Bool) (m k : Nat) :
    (shown.set m true).getD k false = true ↔ shown.getD k false = true ∨
    (k < shown.length ∧ m = k) := by
  rw [List.getD_eq_getElem?_getD, List.getD_eq_getElem?_getD, List.getElem?_set]
  by_cases hmk : m = k
  · subst hmk
    by_cases hlt : m < shown.length
    · simp [hlt]
    · simp [hlt]
  · simp [hmk]

/-- Places that are set under a condition, one after the other. -/
theorem getD_foldl_set (P : Nat → Prop) [DecidablePred P] (g : Nat → Nat) (js : List Nat)
    (k : Nat) : ∀ shown : List Bool,
    (js.foldl (fun shown j => if P j then shown.set (g j) true else shown) shown).length =
    shown.length ∧
      ((js.foldl (fun shown j => if P j then shown.set (g j) true else shown) shown).getD k false =
        true ↔ shown.getD k false = true ∨ (k < shown.length ∧ ∃ j ∈ js, P j ∧ g j = k)) := by
  induction js with
  | nil => exact fun shown => ⟨rfl, by simp⟩
  | cons j js ih =>
    intro shown
    rw [List.foldl_cons]
    obtain ⟨hlen, hget⟩ := ih (if P j then shown.set (g j) true else shown)
    have hsame : (if P j then shown.set (g j) true else shown).length = shown.length := by
      split
      · exact List.length_set
      · rfl
    refine ⟨hlen.trans hsame, ?_⟩
    rw [hget, hsame]
    by_cases hj : P j
    · rw [if_pos hj, getD_set_true, or_assoc, ← and_or_left]
      simp [hj]
    · rw [if_neg hj]
      simp [hj]

theorem mark_spec (lines height i : Nat) {shown : List Bool}
    (hlen : shown.length = height) (k : Nat) :
    (mark lines height i shown).length = height ∧ ((mark lines height i shown).getD k false = true ↔
      shown.getD k false = true ∨ (k < height ∧ k ≤ i + lines ∧ i ≤ k + lines)) := by
  obtain ⟨hlength, hget⟩ :=
    getD_foldl_set (fun j => 0 ≤ (i : Int) + ((j : Int) - lines) ∧
      (i : Int) + ((j : Int) - lines) < height)
    (fun j => ((i : Int) + ((j : Int) - lines)).toNat) (List.range (2 * lines + 1)) k shown
  rw [hlen] at hlength hget
  unfold mark
  refine ⟨hlength, Iff.trans hget ?_⟩
  refine or_congr_right (and_congr_right fun hk => ?_)
  constructor
  · rintro ⟨j, hj, hin, rfl⟩
    rw [List.mem_range] at hj
    omega
  · rintro ⟨hfar, hnear⟩
    exact ⟨k + lines - i, List.mem_range.2 (by omega), by omega, by omega⟩

theorem shownRows_spec (s : TypedSheet SheetCell) (lines : Nat) {k : Nat} (hk : k < s.height)
    (is : List Nat) : ∀ shown : List Bool, shown.length = s.height →
      ((is.foldl (fun shown i => if present s i then mark lines s.height i shown
        else shown) shown).getD k false = true ↔
        shown.getD k false = true ∨ ∃ i ∈ is, present s i = true ∧ k ≤ i + lines ∧
          i ≤ k + lines) := by
  induction is with
  | nil => exact fun shown _ => by simp
  | cons i is ih =>
    intro shown hlen
    rw [List.foldl_cons]
    by_cases hi : present s i = true
    · obtain ⟨hlength, hget⟩ := mark_spec lines s.height i hlen k
      rw [if_pos hi, ih _ hlength, hget, or_assoc]
      simp [hi, hk]
    · rw [if_neg hi, ih _ hlen]
      simp [hi]

/-- **The rows that are shown** are those near a tag. -/
theorem shownRows_iff (s : TypedSheet SheetCell) (lines : Nat) {i : Nat} (hi : i < s.height) :
    (shownRows s lines).getD i false = true ↔ Near s lines i := by
  have hstart : (List.replicate s.height false).getD i false = false := by
    rw [List.getD_eq_getElem?_getD, List.getElem?_replicate, if_pos hi]
    rfl
  unfold shownRows Near
  rw [shownRows_spec s lines hi _ _ List.length_replicate, hstart]
  simp only [Bool.false_eq_true, false_or, List.mem_range]

/-! ## Deletions and dots -/

theorem deleteRow_front {s : TypedSheet SheetCell} {front back : List (List SheetCell)}
    {row : List SheetCell} (h : s.arr = front ++ row :: back) :
    s.deleteRow front.length = ({ s with arr := front ++ back }, true) := by
  have hin : ¬((front.length : Int) < 0 ∨ (front.length : Int) ≥ s.height) := by
    unfold TypedSheet.height
    rw [h, List.length_append, List.length_cons]
    omega
  unfold TypedSheet.deleteRow
  rw [if_neg hin, Int.toNat_natCast, h, eraseIdx_append_cons]

theorem deleteRows_eq (front back pending : List (List SheetCell)) :
    ∀ s : TypedSheet SheetCell, s.arr = front ++ (pending ++ back) →
      deleteRows s front.length pending.length = { s with arr := front ++ back } := by
  induction pending with
  | nil =>
    intro s h
    exact (congrArg (fun arr => ({ s with arr := arr } : TypedSheet SheetCell)) h.symm).symm
  | cons row pending ih =>
    intro s h
    have hfirst := deleteRow_front h
    rw [List.length_cons, deleteRows, hfirst, if_pos rfl]
    exact ih _ rfl

/-- The marks of a hidden run go into its first row. -/
theorem foldl_dots {front back : List (List SheetCell)} (w : Nat) :
    ∀ (s : TypedSheet SheetCell) (row : List SheetCell),
    s.arr = front ++ row :: back →
      (List.range w).foldl (fun s j => s.cellText j front.length "...") s =
        { s with arr := front ++
            ((List.range w).foldl (fun row j => row.modify j fun c => { c with text := "..." })
              row) :: back } := by
  induction w with
  | zero =>
    intro s row h
    exact (congrArg (fun arr => ({ s with arr := arr } : TypedSheet SheetCell)) h.symm).symm
  | succ w ih =>
    intro s row h
    rw [List.range_succ, List.foldl_append, List.foldl_append, ih s row h]
    simp only [List.foldl_cons, List.foldl_nil]
    unfold TypedSheet.cellText
    rw [List.modify_eq_take_cons_drop (by simp), List.take_left,
      List.getElem_append_right (Nat.le_refl _)]
    simp

theorem dotted_eq {s : TypedSheet SheetCell} {front back : List (List SheetCell)}
    {row : List SheetCell} (h : s.arr = front ++ row :: back) (hrow : row.length = s.w) :
    (List.range s.w).foldl (fun s j => s.cellText j front.length "...") s =
      { s with arr := front ++ dotted row :: back } := by
  have hrange :
    (List.range s.w).foldl (fun row j => row.modify j fun c => { c with text := "..." }) row =
    dotted row := by
    have hall := foldl_modify (fun (_ : Nat) (c : SheetCell) => { c with text := "..." }) row s.w
    rw [hall]
    refine List.ext_getElem (by simp [dotted]) fun i hi hi' => ?_
    have hlt : i < s.w := by
      rw [List.length_mapIdx] at hi
      omega
    simp [dotted, hlt]
  rw [foldl_dots s.w s row h, hrange]

/-! ## The loop -/

/-- The state before row `i`: between rows that are done stand those whose deletion is still to
come. -/
structure Trims (s : TypedSheet SheetCell) (n i : Nat) (t : State)
    (front pending behind : List (List SheetCell)) : Prop where
  sheet : t.sheet = { s with arr := front ++ (pending ++ (behind ++ s.arr.drop i)) }
  done : front ++ behind = (List.range i).flatMap (left s n)
  start : t.startDelete = if pending = [] then -1 else (front.length : Int)
  count : pending ≠ [] → t.countDelete = pending.length
  offset : (i : Int) + t.offset = front.length + behind.length
  broken : t.addedBreak = true ↔ 0 < i ∧ ¬Near s n (i - 1)
  open_run : t.addedBreak = true → pending ≠ [] → behind = []

variable {s : TypedSheet SheetCell} {n i : Nat} {t : State}
    {front pending behind : List (List SheetCell)}

/-- With the deletions done, the sheet is the rows that are done and those to come. -/
theorem Trims.flush_eq (h : Trims s n i t front pending behind) :
    t.flush =
    { t with sheet := { s with arr := front ++ (behind ++ s.arr.drop i) }, startDelete := -1 } := by
  unfold State.flush
  by_cases hp : pending = []
  · have hstart : t.startDelete = -1 := by rw [h.start, if_pos hp]
    have hsheet := h.sheet
    rw [hp, List.nil_append] at hsheet
    rw [if_neg (by simp [hstart]), ← hsheet, ← hstart]
  · have hstart : t.startDelete = front.length := by rw [h.start, if_neg hp]
    have hdeleted := deleteRows_eq front (behind ++ s.arr.drop i) pending t.sheet (by rw [h.sheet])
    rw [if_pos (by omega), hstart, h.count hp, hdeleted, h.sheet]

theorem drop_row (hi : i < s.height) : s.arr.drop i = s.arr.getD i [] :: s.arr.drop (i + 1) := by
  rw [List.drop_eq_getElem_cons hi, List.getD_eq_getElem?_getD, List.getElem?_eq_getElem hi]
  rfl

theorem flatMap_left_succ (s : TypedSheet SheetCell) (n i : Nat) :
    (List.range (i + 1)).flatMap (left s n) = (List.range i).flatMap (left s n) ++ left s n i := by
  rw [List.range_succ, List.flatMap_append, List.flatMap_cons, List.flatMap_nil, List.append_nil]

/-- A row that is shown is left where it is. -/
theorem Trims.shown (h : Trims s n i t front pending behind) (hi : i < s.height) {shown : List Bool}
    (hshown : shown.getD i false = true ↔ Near s n i) (hnear : Near s n i) :
    Trims s n (i + 1) (t.step shown i) front pending (behind ++ [s.arr.getD i []]) := by
  have hstep : t.step shown i = { t with addedBreak := false } := by
    unfold State.step
    rw [if_neg (by rw [hshown.2 hnear]; simp)]
  have hleft : left s n i = [s.arr.getD i []] := if_pos hnear
  rw [hstep]
  refine ⟨?_, ?_, h.start, h.count, ?_, ?_, ?_⟩
  · show t.sheet = _
    rw [h.sheet, drop_row hi, List.append_assoc behind, List.singleton_append]
  · rw [flatMap_left_succ, ← h.done, hleft, List.append_assoc]
  · have hoffset := h.offset
    rw [List.length_append, List.length_singleton]
    show ((i + 1 : Nat) : Int) + t.offset = _
    omega
  · simp [hnear]
  · exact fun hbroken => absurd hbroken (by simp)

/-- A hidden row in a run: its deletion is noted. -/
theorem Trims.hidden (h : Trims s n i t front pending behind) (hi : i < s.height)
    {shown : List Bool} (hshown : shown.getD i false = true ↔ Near s n i) (hfar : ¬Near s n i)
    (hbroken : t.addedBreak = true) :
    ∃ front pending behind, Trims s n (i + 1) (t.step shown i) front pending behind := by
  have hoffset := h.offset
  have hprior := h.broken.1 hbroken
  have hleft : left s n i = [] := by
    unfold left
    rw [if_neg hfar, if_neg (by rintro (hzero | hnear); exacts [by omega, hprior.2 hnear])]
  have hstep : t.step shown i = { t with
      startDelete := if t.startDelete = -1 then i + t.offset else t.startDelete
      countDelete := (if t.startDelete = -1 then 0 else t.countDelete) + 1
      offset := t.offset - 1 } := by
    unfold State.step
    rw [if_pos (by rw [← Bool.not_eq_true, hshown]; exact hfar), if_pos hbroken]
  have hnext : (List.range (i + 1)).flatMap (left s n) = front ++ behind := by
    rw [flatMap_left_succ, ← h.done, hleft, List.append_nil]
  rw [hstep]
  by_cases hp : pending = []
  · have hstart : t.startDelete = -1 := by rw [h.start, if_pos hp]
    rw [if_pos hstart, if_pos hstart]
    refine ⟨front ++ behind, [s.arr.getD i []], [], ?_, ?_, ?_, ?_, ?_, ?_, ?_⟩
    · show t.sheet = _
      rw [h.sheet, hp, drop_row hi]
      simp
    · rw [hnext, List.append_nil]
    · rw [if_neg (by simp), List.length_append]
      show (i : Int) + t.offset = _
      omega
    · exact fun _ => rfl
    · rw [List.length_append]
      show ((i + 1 : Nat) : Int) + (t.offset - 1) = _
      rw [List.length_nil]
      omega
    · simp [hbroken, hfar]
    · exact fun _ _ => rfl
  · have hstart : t.startDelete = front.length := by rw [h.start, if_neg hp]
    have hbehind := h.open_run hbroken hp
    rw [if_neg (by omega), if_neg (by omega)]
    refine ⟨front, pending ++ [s.arr.getD i []], [], ?_, ?_, ?_, ?_, ?_, ?_, ?_⟩
    · show t.sheet = _
      rw [h.sheet, hbehind, drop_row hi]
      simp
    · rw [hnext, hbehind]
    · rw [if_neg (by simp)]
      exact hstart
    · intro _
      rw [List.length_append, List.length_singleton]
      exact congrArg (· + 1) (h.count hp)
    · show ((i + 1 : Nat) : Int) + (t.offset - 1) = _
      rw [hbehind, List.length_nil] at hoffset
      rw [List.length_nil]
      omega
    · simp [hbroken, hfar]
    · exact fun _ _ => rfl

/-- The first row of a hidden run: what was noted is deleted, and the row becomes dots. -/
theorem Trims.first (h : Trims s n i t front pending behind) (hi : i < s.height)
    (hrow : (s.arr.getD i []).length = s.w)
    {shown : List Bool} (hshown : shown.getD i false = true ↔ Near s n i) (hfar : ¬Near s n i)
    (hbroken : ¬t.addedBreak = true) :
    Trims s n (i + 1) (t.step shown i) (front ++ behind ++ [dotted (s.arr.getD i [])]) [] [] := by
  have hoffset := h.offset
  have hplace : ((i : Int) + t.offset).toNat = (front ++ behind).length := by
    rw [List.length_append]
    omega
  have hstarts : i = 0 ∨ Near s n (i - 1) := by
    by_contra hnot
    rw [not_or] at hnot
    exact hbroken (h.broken.2 ⟨by omega, hnot.2⟩)
  have hleft : left s n i = [dotted (s.arr.getD i [])] := by
    unfold left
    rw [if_neg hfar, if_pos hstarts]
  have hsheet : ({ s with arr := front ++ (behind ++ s.arr.drop i) } : TypedSheet SheetCell).arr =
      (front ++ behind) ++ s.arr.getD i [] :: s.arr.drop (i + 1) := by
    rw [drop_row hi, List.append_assoc]
  have hstep : t.step shown i = { t with
      sheet := { s with arr := (front ++ behind) ++ dotted (s.arr.getD i []) :: s.arr.drop (i + 1) }
      startDelete := -1
      addedBreak := true } := by
    unfold State.step
    rw [if_pos (by rw [← Bool.not_eq_true, hshown]; exact hfar), if_neg hbroken, h.flush_eq, hplace]
    have hdotted := dotted_eq hsheet hrow
    exact congrArg
      (fun sheet => ({ t with sheet := sheet, startDelete := -1, addedBreak := true } : State))
      hdotted
  rw [hstep]
  refine ⟨?_, ?_, rfl, fun hp => absurd rfl hp, ?_, ?_, fun _ _ => rfl⟩
  · simp
  · rw [flatMap_left_succ, ← h.done, hleft, List.append_nil]
  · rw [List.length_append, List.length_append]
    show ((i + 1 : Nat) : Int) + t.offset = _
    rw [List.length_singleton, List.length_nil]
    omega
  · simp [hfar]

/-- One round keeps the form of the sheet. -/
theorem Trims.step (h : Trims s n i t front pending behind) (hi : i < s.height)
    (hrow : (s.arr.getD i []).length = s.w) :
    ∃ front pending behind, Trims s n (i + 1) (t.step (shownRows s n) i) front pending behind := by
  have hshown := shownRows_iff s n hi
  by_cases hnear : Near s n i
  · exact ⟨_, _, _, h.shown hi hshown hnear⟩
  · by_cases hbroken : t.addedBreak = true
    · exact h.hidden hi hshown hnear hbroken
    · exact ⟨_, _, _, h.first hi hrow hshown hnear hbroken⟩

theorem trims_start (s : TypedSheet SheetCell) (n : Nat) : Trims s n 0 { sheet := s } [] [] [] := by
  refine ⟨?_, rfl, rfl, fun hp => absurd rfl hp, rfl, ?_, fun _ _ => rfl⟩
  · simp
  · simp

theorem trims_run (hrect : ∀ row ∈ s.arr, row.length = s.w) (n : Nat) : ∀ i : Nat, i ≤ s.height →
    ∃ front pending behind, Trims s n i
      ((List.range i).foldl (State.step (shownRows s n)) { sheet := s }) front pending behind := by
  intro i
  induction i with
  | zero => exact fun _ => ⟨[], [], [], trims_start s n⟩
  | succ i ih =>
    intro hi
    obtain ⟨front, pending, behind, h⟩ := ih (by omega)
    have hin : i < s.arr.length := hi
    have hrow : (s.arr.getD i []).length = s.w := by
      rw [List.getD_eq_getElem?_getD, List.getElem?_eq_getElem hin]
      exact hrect _ (List.getElem_mem hin)
    rw [List.range_succ, List.foldl_append]
    exact h.step hi hrow

/-- What the loop leaves: the rows near a tag, and a row with dots for each run of others. -/
theorem trim_eq (t : HighlighterSheet) (n : Nat) :
    trim t.sheet n =
    { t.sheet with arr := (List.range t.sheet.height).flatMap (left t.sheet n) } := by
  obtain ⟨front, pending, behind, h⟩ := trims_run t.rect n t.sheet.height (Nat.le_refl _)
  have hend : t.sheet.arr.drop t.sheet.height = [] := List.drop_of_length_le (Nat.le_refl _)
  have hdone := h.done
  unfold trim
  have hlines : (if (n : Int) = -2 then 2 else (n : Int)) = n := if_neg (by omega)
  simp only [hlines]
  rw [if_pos (by omega), Int.toNat_natCast, h.flush_eq, hend, List.append_nil, hdone]

/-- The first row of a run of rows that are not near a tag. -/
def Starts (s : TypedSheet SheetCell) (n i : Nat) : Prop := ¬Near s n i ∧ (i = 0 ∨ Near s n (i - 1))

theorem dotted_eq_iff (row : List SheetCell) :
    dotted row = List.replicate row.length dots ↔ ∀ c ∈ row, c.escaped = false := by
  rw [List.eq_replicate_iff]
  unfold dotted
  rw [List.length_map, and_iff_right rfl, List.forall_mem_map]
  refine forall₂_congr fun c _ => ?_
  unfold dots
  rw [SheetCell.mk.injEq, and_iff_right rfl]

theorem left_eq_kept_iff {s : TypedSheet SheetCell} {n i : Nat}
    (hrow : (s.arr.getD i []).length = s.w) :
    left s n i = kept s n i ↔ (Starts s n i → ∀ c ∈ s.arr.getD i [], c.escaped = false) := by
  unfold left kept Starts
  by_cases hnear : Near s n i
  · rw [if_pos hnear, if_pos hnear]
    exact iff_of_true rfl fun h => absurd hnear h.1
  · rw [if_neg hnear, if_neg hnear]
    by_cases hstarts : i = 0 ∨ Near s n (i - 1)
    · rw [if_pos hstarts, if_pos hstarts, List.singleton_inj, ← hrow, dotted_eq_iff]
      exact ⟨fun h _ => h, fun h => h ⟨hnear, hstarts⟩⟩
    · rw [if_neg hstarts, if_neg hstarts]
      exact iff_of_true rfl fun h => absurd h.2 hstarts

end ContextLines

open ContextLines in
/-- **Trimming**: the rows within `n` of a tagged one stay, in order and as they are, and each run
of others is one row of dots, if and only if no such run starts with a row that has a NULL. -/
theorem contextLines_iff (t : HighlighterSheet) (n : Nat) :
    trim t.sheet n = { t.sheet with arr := ContextLines.trimmed t.sheet n } ↔
      ∀ i < t.sheet.height, Starts t.sheet n i →
        ∀ c ∈ t.sheet.arr.getD i [], c.escaped = false := by
  have hrow : ∀ i < t.sheet.height, (t.sheet.arr.getD i []).length = t.sheet.w := fun i hi => by
    rw [List.getD_eq_getElem _ _ hi]
    exact t.rect _ (List.getElem_mem hi)
  -- of each row as much is left as is kept
  have hlength : ∀ i ∈ List.range t.sheet.height,
      (ContextLines.left t.sheet n i).length = (ContextLines.kept t.sheet n i).length := fun i _ => by
    unfold ContextLines.left ContextLines.kept
    split
    · rfl
    · split <;> rfl
  have harr : ∀ arr arr' : List (List SheetCell),
      ({ t.sheet with arr := arr } : TypedSheet SheetCell) = { t.sheet with arr := arr' } ↔
      arr = arr' := fun arr arr' => by
    rw [TypedSheet.mk.injEq, and_iff_left ⟨rfl, rfl⟩]
  rw [trim_eq, harr]
  unfold ContextLines.trimmed
  rw [flatMap_eq_flatMap_iff hlength]
  refine forall_congr' fun i => ?_
  rw [List.mem_range]
  exact forall_congr' fun hi => left_eq_kept_iff (hrow i hi)

namespace ContextLines

/-- Four rows with the second one tagged. -/
def fourRows (c : SheetCell) : HighlighterSheet where
  sheet :=
    ⟨[[⟨"", false⟩, ⟨"1", false⟩], [⟨"->", false⟩, ⟨"2", false⟩], [⟨"", false⟩, c],
      [⟨"", false⟩, SheetCell.null]],
    2, ⟨"", false⟩⟩
  rect := by simp
  tags := Nat.zero_lt_two

theorem contextLines_iff_fourRows :
    (trim (fourRows ⟨"3", false⟩).sheet 0).arr = [[dots, dots], [⟨"->", false⟩, ⟨"2", false⟩],
      [dots, dots]] := by
  have hdots := (contextLines_iff (fourRows ⟨"3", false⟩) 0).2 (by
    unfold Starts
    decide)
  exact (congrArg TypedSheet.arr hdots).trans (by decide)

/-- Under the dots the NULL is still one. -/
theorem not_contextLines :
    (trim (fourRows SheetCell.null).sheet 0).arr = [[dots, dots], [⟨"->", false⟩, ⟨"2", false⟩],
      [dots, ⟨"...", true⟩]] ∧
      (trim (fourRows SheetCell.null).sheet 0).arr ≠ trimmed (fourRows SheetCell.null).sheet 0 := by
  decide

end ContextLines

end Coopy
