import Mathlib.Data.List.GetD
import Mathlib.Tactic.Common
import Mathlib.Data.List.TakeWhile

/-!
# Cells, sheets and flags: what a comparison is given

A cell is a text with a flag `escaped` that says it is not text but a null; every
sheet class writes a null as the text `NULL`.  A `DataSheet` here is a rectangle
of such cells.  Of `CompareFlags` the fields that the merge reads are kept, with
the values the constructor gives them.
-/

namespace Coopy

structure SheetCell where
  text : String
  escaped : Bool
deriving DecidableEq, Repr

namespace SheetCell

/-- The cell `mergeRow` uses where a side has none. -/
def blankCell : SheetCell := ⟨"__NOT_SET__CSVCOMPARE_SSFOSSIL", true⟩

def null : SheetCell := ⟨"NULL", true⟩

/-- A cell a sheet can hold: text, or the null. -/
def Stored (c : SheetCell) : Prop := c.escaped = true → c.text = "NULL"

instance (c : SheetCell) : Decidable c.Stored := inferInstanceAs (Decidable (_ → _))

theorem Stored.ne_blankCell {c : SheetCell} (h : c.Stored) : c ≠ blankCell := by
  rintro rfl
  exact absurd (h rfl) (by decide)

end SheetCell

/-! ## Texts as C strings -/

/-- A buffer as a C string: up to the first end mark. -/
def cString (s : List Char) : List Char := s.takeWhile (· != '\x00')

theorem cString_eq_self_iff (t : List Char) : cString t = t ↔ t.contains '\x00' = false := by
  simp only [cString, List.takeWhile_eq_self_iff, bne_iff_ne, ne_eq, List.contains_eq_mem,
    decide_eq_false_iff_not]
  exact ⟨fun h hm => h _ hm rfl, fun h c hc he => h (he ▸ hc)⟩

theorem cString_initial (t : List Char) : cString t <+: t := List.takeWhile_prefix _

theorem nul_not_mem_cString (s : List Char) : '\x00' ∉ cString s := fun h => by
  simpa using List.mem_takeWhile_imp h

theorem cString_of_not_mem {t : List Char} (h : '\x00' ∉ t) : cString t = t :=
  (cString_eq_self_iff t).2 (by simpa using h)

/-- A sheet of `width` columns. -/
structure DataSheet where
  width : Nat
  rows : List (List SheetCell)
  rect : ∀ r ∈ rows, r.length = width
  stored : ∀ r ∈ rows, ∀ c ∈ r, c.Stored

namespace DataSheet

def height (s : DataSheet) : Nat := s.rows.length

def row (s : DataSheet) (y : Nat) : List SheetCell := s.rows.getD y []

def cellSummary (s : DataSheet) (x y : Nat) : SheetCell := (s.row y).getD x SheetCell.null

theorem row_eq_getElem (s : DataSheet) {y : Nat} (h : y < s.rows.length) : s.row y = s.rows[y] :=
  List.getD_eq_getElem _ _ h

theorem row_length (s : DataSheet) {y : Nat} (h : y < s.height) : (s.row y).length = s.width := by
  rw [s.row_eq_getElem h]
  exact s.rect _ (List.getElem_mem h)

theorem cellSummary_stored (s : DataSheet) (x y : Nat) : (s.cellSummary x y).Stored := by
  unfold cellSummary
  by_cases hx : x < (s.row y).length
  · rw [List.getD_eq_getElem _ _ hx]
    have hy : y < s.height := by
      by_contra hy
      have : s.row y = [] := List.getD_eq_default _ _ (by unfold height at hy; omega)
      rw [this] at hx
      simp at hx
    have hmem : s.row y ∈ s.rows := by
      rw [s.row_eq_getElem hy]
      exact List.getElem_mem hy
    exact s.stored _ hmem _ (List.getElem_mem hx)
  · rw [List.getD_eq_default _ _ (by omega)]
    exact fun _ => rfl

end DataSheet

/-- The flags the merge reads. -/
structure CompareFlags where
  headTrimmed : Bool := false
  tailTrimmed : Bool := false
  acts : List String := []
  includeColumns : List String := []
  excludeColumns : List String := []
  biasIds : Bool := false
  useOrder : Bool := true
  fixedColumns : Bool := false
  assumeHeader : Bool := true
  ignoreCase : Bool := false
  resolve : String := ""
deriving DecidableEq, Repr

namespace CompareFlags

/-- The body of `canInsert`, `canDelete` and `canUpdate`. -/
def can (flags : CompareFlags) (act : String) : Bool :=
  flags.acts.isEmpty || flags.acts.contains act

def canInsert (flags : CompareFlags) : Bool := flags.can "insert"

def canDelete (flags : CompareFlags) : Bool := flags.can "delete"

def canUpdate (flags : CompareFlags) : Bool := flags.can "update"

end CompareFlags

end Coopy
