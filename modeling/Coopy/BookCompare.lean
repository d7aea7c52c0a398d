import Coopy.Lib.Containers
import Mathlib.Data.String.Basic

/-!
# `BookCompare`: which sheets of three books go together

`compare` merges the name lists of three books and works through the names in order.  It looks a
name up in each book, but as soon as one of the books has a single sheet it takes the first sheet of
each.  What the books have and lack decides what the output is told; a comparison that fails ends
the run.

    a report is made ↔ its name is in the set and no earlier name ends the run     (mem_compare)
    sheets are paired by name, added and removed sheets reported ↔ `Holds`         (pairs_iff)
-/

namespace Coopy

open Lib

namespace BookCompare

/-- A book whose sheets all have names, no two the same. -/
structure NamedBook (S : Type) where
  sheets : List (String × S)
  distinct : (sheets.map Prod.fst).Nodup

namespace NamedBook

variable {S : Type}

def getNames (b : NamedBook S) : List String := b.sheets.map Prod.fst

/-- The sheet of a name; `none` is a sheet that is not valid. -/
def readSheet (b : NamedBook S) (name : String) : Option (String × S) :=
  b.sheets.find? fun sheet => sheet.1 = name

def readSheetByIndex (b : NamedBook S) (index : Nat) : Option (String × S) :=
  b.getNames[index]?.bind b.readSheet

/-- `sheet` is the one that the book has under `name`. -/
def IsSheet (b : NamedBook S) (name : String) (sheet : String × S) : Prop :=
  sheet ∈ b.sheets ∧ sheet.1 = name

theorem readSheet_eq_some_iff (b : NamedBook S) (name : String) (sheet : String × S) :
    b.readSheet name = some sheet ↔ b.IsSheet name sheet := by
  refine ⟨fun h => ⟨List.mem_of_find?_eq_some h, by simpa using List.find?_some h⟩,
    fun ⟨hm, hn⟩ => ?_⟩
  have hsome : (b.readSheet name).isSome := List.find?_isSome.2 ⟨sheet, hm, by simpa using hn⟩
  obtain ⟨found, hf⟩ := Option.isSome_iff_exists.1 hsome
  have hname : found.1 = sheet.1 :=
    (by simpa using List.find?_some hf : found.1 = name).trans hn.symm
  rw [hf, List.inj_on_of_nodup_map b.distinct (List.mem_of_find?_eq_some hf) hm hname]

theorem readSheet_eq_none_iff (b : NamedBook S) (name : String) : b.readSheet name = none ↔
    name ∉ b.getNames := by
  rw [readSheet, List.find?_eq_none]
  refine ⟨fun h hm => ?_, fun h sheet hm hn => h (List.mem_map.2 ⟨sheet, hm, by simpa using hn⟩)⟩
  obtain ⟨sheet, hs, hn⟩ := List.mem_map.1 hm
  exact h sheet hs (by simpa using hn)

theorem exists_isSheet {b : NamedBook S} {name : String} (h : name ∈ b.getNames) :
    ∃ sheet, b.IsSheet name sheet :=
  let ⟨sheet, hs, hn⟩ := List.mem_map.1 h
  ⟨sheet, hs, hn⟩

theorem readSheetByIndex_zero (b : NamedBook S) : b.readSheetByIndex 0 = b.sheets.head? := by
  cases h : b.sheets with
  | nil => simp [readSheetByIndex, getNames, h]
  | cons sheet rest => simp [readSheetByIndex, getNames, readSheet, h]

/-- A book of one sheet has only that name. -/
theorem eq_of_length_one {b : NamedBook S} (h : b.getNames.length = 1) {name : String}
    (hn : name ∈ b.getNames) : ∃ sheet, b.sheets.head? = some sheet ∧ sheet.1 = name := by
  obtain ⟨sheet, hs⟩ := List.length_eq_one_iff.1 ((List.length_map _).symm.trans h)
  rw [getNames, hs, List.map_singleton, List.mem_singleton] at hn
  exact ⟨sheet, by rw [hs]; rfl, hn.symm⟩

end NamedBook

/-- What the output is told, `SheetCompare::compare` with all it writes counted as one. -/
inductive Event (S : Type)
  | setFlags
  | mergeStart
  | compared (name : String) (pivot locals remote : String × S) (mapping : Option (String × S))
  | addSheet (name : String) (sheet : String × S)
  | removeSheet (name : String)
  | mergeDone
  | mergeAllDone
deriving DecidableEq

/-- The arguments of `compare`, for a remote book that is there.  The code that a comparison of
sheets returns may depend on all that the output has been told before. -/
structure Call (S : Type) where
  pivot : NamedBook S
  locals : NamedBook S
  remote : NamedBook S
  pivotIsLocal : Bool
  pivotIsRemote : Bool
  localIsRemote : Bool
  same_pl : pivotIsLocal = true → pivot = locals
  same_pr : pivotIsRemote = true → pivot = remote
  same_lr : localIsRemote = true → locals = remote
  tables : List String
  mappingBook : Option (NamedBook S)
  sheetCompare : List (Event S) → String → String × S → String × S → String × S →
    Option (String × S) → Int

namespace Call

variable {S : Type} (c : Call S)

/-! ## The names -/

/-- The name is not excluded by the list of tables. -/
def wanted (name : String) : Bool := c.tables.isEmpty || c.tables.contains name

/-- The names that the loop works on. -/
def nameSet : List String :=
  (toSet (c.locals.getNames ++ c.remote.getNames)).filter fun name =>
    c.wanted name &&
      (!c.pivot.getNames.contains name ||
        (c.locals.getNames.contains name && c.remote.getNames.contains name))

theorem mem_nameSet (name : String) :
    name ∈ c.nameSet ↔ c.wanted name = true ∧
    (name ∈ c.locals.getNames ∨ name ∈ c.remote.getNames) ∧
      (name ∉ c.pivot.getNames ∨ name ∈ c.locals.getNames ∧ name ∈ c.remote.getNames) := by
  simp only [nameSet, List.mem_filter, mem_toSet, List.mem_append, Bool.and_eq_true,
    Bool.or_eq_true, Bool.not_eq_true',
    List.contains_eq_mem, decide_eq_false_iff_not, decide_eq_true_eq]
  tauto

theorem nameSet_pairwise : c.nameSet.Pairwise (· < ·) := (toSet_pairwise _).filter _

/-! ## One name -/

/-- One of the books has a single sheet. -/
def positional : Bool :=
  c.pivot.getNames.length == 1 || c.locals.getNames.length == 1 || c.remote.getNames.length == 1

def pick (b : NamedBook S) (name : String) : Option (String × S) :=
  if c.positional then b.readSheetByIndex 0 else b.readSheet name

def pivotSheet (name : String) : Option (String × S) := c.pick c.pivot name

def localSheet (name : String) : Option (String × S) :=
  if c.pivotIsLocal then c.pivotSheet name else c.pick c.locals name

def remoteSheet (name : String) : Option (String × S) :=
  if c.pivotIsRemote then c.pivotSheet name
  else if c.localIsRemote then c.localSheet name
  else c.pick c.remote name

theorem localSheet_eq (name : String) : c.localSheet name = c.pick c.locals name := by
  unfold localSheet
  split
  · next h => rw [pivotSheet, c.same_pl h]
  · rfl

theorem remoteSheet_eq (name : String) : c.remoteSheet name = c.pick c.remote name := by
  unfold remoteSheet
  split
  · next h => rw [pivotSheet, c.same_pr h]
  · split
    · next h => rw [localSheet_eq, c.same_lr h]
    · rfl

def mapping (name : String) : Option (String × S) := c.mappingBook.bind fun b => b.readSheet name

/-- What the output is told of a name, by what the books have; `none` if no branch is for it. -/
def report (name : String) : Option (Event S) :=
  match c.pivotSheet name, c.localSheet name, c.remoteSheet name with
  | some p, some l, some r => some (.compared name p l r (c.mapping name))
  | some _, some _, none => some (.removeSheet name)
  | some _, none, some _ => some (.removeSheet name)
  | none, none, some r => some (.addSheet name r)
  | none, some l, none => some (.addSheet name l)
  | _, _, _ => none

/-- The code that the loop looks at after a report. -/
def code (log : List (Event S)) : Event S → Int
  | .compared name p l r mapping => c.sheetCompare log name p l r mapping
  | _ => 0

/-- One turn of the loop: what is added to the log, and the code if it ends the run. -/
def turn (log : List (Event S)) (name : String) : List (Event S) × Option Int :=
  match c.report name with
  | none => ([], some (-1))
  | some ev => if c.code log ev ≠ 0 then ([ev], some (c.code log ev)) else ([ev, .mergeDone], none)

/-- `BookCompare::compare` from some name on. -/
def work : List (Event S) → List String → List (Event S) × Int
  | log, [] => (log ++ [.mergeAllDone], 0)
  | log, name :: names =>
    match c.turn log name with
    | (told, some code) => (log ++ told, code)
    | (told, none) => work (log ++ told) names

def compare : List (Event S) × Int := c.work [.setFlags, .mergeStart] c.nameSet

/-- What a name whose turn does not end the run adds to the log. -/
def told (name : String) : List (Event S) := (c.report name).toList ++ [.mergeDone]

/-- None of the names, in turn, ends the run: the books have it in one of the ways that are provided
for, and a comparison returns 0. -/
def GoesThrough : List (Event S) → List String → Prop
  | _, [] => True
  | log, name :: names =>
    (∃ ev ∈ c.report name, c.code log ev = 0) ∧ GoesThrough (log ++ c.told name) names

/-- The reports of the loop: not the marks between them. -/
def IsReport : Event S → Prop
  | .compared .. => True
  | .addSheet .. => True
  | .removeSheet .. => True
  | _ => False

theorem turn_of_goes {log : List (Event S)} {name : String}
    (h : ∃ ev ∈ c.report name, c.code log ev = 0) :
    c.turn log name = (c.told name, none) := by
  obtain ⟨ev, hev, hcode⟩ := h
  rw [turn, told, Option.mem_def.1 hev]
  simp [hcode]

theorem turn_of_not_goes {log : List (Event S)} {name : String}
    (h : ¬ ∃ ev ∈ c.report name, c.code log ev = 0) :
    ∃ code, c.turn log name = ((c.report name).toList, some code) := by
  rw [turn]
  cases hr : c.report name with
  | none => exact ⟨-1, rfl⟩
  | some ev =>
    have hcode : c.code log ev ≠ 0 := fun he => h ⟨ev, hr, he⟩
    exact ⟨c.code log ev, by simp [hcode]⟩

/-- What a run from some name on reports. -/
theorem mem_work {ev : Event S} (hev : IsReport ev) (names : List String) : ∀ log : List (Event S),
    ev ∈ (c.work log names).1 ↔
      ev ∈ log ∨ ∃ pre name suf, names = pre ++ name :: suf ∧ c.GoesThrough log pre ∧
      c.report name = some ev := by
  induction names with
  | nil =>
    intro log
    have hne : ev ≠ .mergeAllDone := by rintro rfl; exact hev
    simp [work, hne]
  | cons name names ih =>
    intro log
    have hne : ev ≠ .mergeDone := by rintro rfl; exact hev
    have hhere : ev ∈ (c.report name).toList ↔ c.report name = some ev := by simp [eq_comm]
    rw [work]
    by_cases hgo : ∃ e ∈ c.report name, c.code log e = 0
    · rw [c.turn_of_goes hgo]
      show ev ∈ (c.work (log ++ c.told name) names).1 ↔ _
      rw [ih, List.mem_append, told, List.mem_append, hhere, List.mem_singleton]
      constructor
      · rintro ((h | h | h) | ⟨pre, n, suf, rfl, hpre, h⟩)
        · exact .inl h
        · exact .inr ⟨[], name, names, rfl, trivial, h⟩
        · exact absurd h hne
        · exact .inr ⟨name :: pre, n, suf, rfl, ⟨hgo, hpre⟩, h⟩
      · rintro (h | ⟨pre, n, suf, he, hpre, h⟩)
        · exact .inl (.inl h)
        · cases pre with
          | nil =>
            obtain ⟨rfl, rfl⟩ := List.cons.inj he
            exact .inl (.inr (.inl h))
          | cons m pre =>
            obtain ⟨rfl, rfl⟩ := List.cons.inj he
            exact .inr ⟨pre, n, suf, rfl, hpre.2, h⟩
    · obtain ⟨code, hturn⟩ := c.turn_of_not_goes hgo
      rw [hturn]
      show ev ∈ log ++ (c.report name).toList ↔ _
      rw [List.mem_append, hhere]
      refine or_congr_right ⟨fun h => ⟨[], name, names, rfl, trivial, h⟩, ?_⟩
      rintro ⟨pre, n, suf, he, hpre, h⟩
      cases pre with
      | nil => rwa [(List.cons.inj he).1]
      | cons m pre =>
        rw [← (List.cons.inj he).1] at hpre
        exact absurd hpre.1 hgo

/-- `compare` comes to `name`. -/
def Reaches (name : String) : Prop :=
  c.GoesThrough [.setFlags, .mergeStart] (c.nameSet.filter (· < name))

theorem mem_compare {ev : Event S} (hev : IsReport ev) :
    ev ∈ c.compare.1 ↔ ∃ name ∈ c.nameSet, c.Reaches name ∧ c.report name = some ev := by
  have hlog : ev ∉ [Event.setFlags, Event.mergeStart] := by
    intro h
    rcases List.mem_cons.1 h with rfl | h
    · exact hev
    · rw [List.mem_singleton.1 h] at hev
      exact hev
  rw [compare, c.mem_work hev, or_iff_right hlog]
  constructor
  · rintro ⟨pre, name, suf, he, hpre, h⟩
    refine ⟨name, he ▸ List.mem_append_right _ List.mem_cons_self, ?_, h⟩
    rwa [Reaches, ← eq_filter_lt c.nameSet_pairwise he]
  · rintro ⟨name, hname, hreach, h⟩
    obtain ⟨pre, suf, he⟩ := List.append_of_mem hname
    refine ⟨pre, name, suf, he, ?_, h⟩
    rwa [eq_filter_lt c.nameSet_pairwise he]

/-! ## Pairing by name -/

/-- `name` is in all three books. -/
def Kept (name : String) : Prop :=
  name ∈ c.pivot.getNames ∧ name ∈ c.locals.getNames ∧ name ∈ c.remote.getNames

/-- `name` is in the remote book only. -/
def Added (name : String) : Prop :=
  name ∉ c.pivot.getNames ∧ name ∉ c.locals.getNames ∧ name ∈ c.remote.getNames

/-- The output is told of sheets by their names. -/
structure Pairs (log : List (Event S)) : Prop where
  kept : ∀ name, c.Kept name → ∃ p l r mapping, .compared name p l r mapping ∈ log
  same : ∀ name, c.Kept name → ∀ p l r mapping, .compared name p l r mapping ∈ log →
    c.pivot.IsSheet name p ∧ c.locals.IsSheet name l ∧ c.remote.IsSheet name r
  added : ∀ name, c.Added name → ∃ r, c.remote.IsSheet name r ∧ .addSheet name r ∈ log
  removed : ∀ name, name ∈ c.pivot.getNames → name ∈ c.locals.getNames → name ∉ c.remote.getNames →
    .removeSheet name ∈ log
  oneName : ∀ name p l r mapping, .compared name p l r mapping ∈ log → p.1 = l.1 ∧ p.1 = r.1

/-- No sheet is missing from the remote book only; the names to be reported pass the list of tables
and no name before them ends the run; where first sheets are taken, they have one name, and a sheet
can only be added to books that are empty. -/
structure Holds : Prop where
  noRemoved : ∀ name, name ∈ c.pivot.getNames → name ∈ c.locals.getNames → name ∈ c.remote.getNames
  wanted : ∀ name, c.Kept name ∨ c.Added name → c.wanted name = true
  reached : ∀ name, c.Kept name ∨ c.Added name → c.Reaches name
  firstSheets : c.positional = true → c.nameSet ≠ [] →
    ∀ p ∈ c.pivot.sheets.head?, ∀ l ∈ c.locals.sheets.head?,
    ∀ r ∈ c.remote.sheets.head?, p.1 = l.1 ∧ p.1 = r.1
  addedAlone : c.positional = true → ∀ name, c.Added name → c.pivot.sheets = [] ∧
    c.locals.sheets = []

theorem pick_eq_head? (h : c.positional = true) (b : NamedBook S) (name : String) :
    c.pick b name = b.sheets.head? := by
  rw [pick, if_pos h, b.readSheetByIndex_zero]

theorem pick_eq_readSheet (h : ¬ c.positional = true) (b : NamedBook S) (name : String) :
    c.pick b name = b.readSheet name := by
  rw [pick, if_neg h]

theorem report_eq_compared_iff {name name' : String} {p l r : String × S}
    {mapping : Option (String × S)} :
    c.report name = some (.compared name' p l r mapping) ↔ name = name' ∧ c.mapping name = mapping ∧
      c.pick c.pivot name = some p ∧ c.pick c.locals name = some l ∧
      c.pick c.remote name = some r := by
  rw [report, localSheet_eq, remoteSheet_eq, pivotSheet]
  cases c.pick c.pivot name <;> cases c.pick c.locals name <;> cases c.pick c.remote name <;> simp
  tauto

theorem name_of_report {name name' : String} {sheet : String × S}
    (h : c.report name = some (.addSheet name' sheet)) :
    name = name' ∧ c.pick c.pivot name = none ∧
      (c.pick c.locals name = none ∧ c.pick c.remote name = some sheet ∨
        c.pick c.remote name = none) := by
  rw [report, localSheet_eq, remoteSheet_eq, pivotSheet] at h
  split at h <;> simp_all

theorem name_of_removeSheet {name name' : String} (h : c.report name = some (.removeSheet name')) :
    name = name' := by
  rw [report] at h
  split at h <;> simp_all

theorem mem_nameSet_of_due {name : String} (h : c.Kept name ∨ c.Added name) :
    name ∈ c.nameSet ↔ c.wanted name = true := by
  rw [c.mem_nameSet]
  refine and_iff_left ?_
  rcases h with ⟨-, hl, hr⟩ | ⟨hp, -, hr⟩
  · exact ⟨.inl hl, .inr ⟨hl, hr⟩⟩
  · exact ⟨.inr hr, .inl hp⟩

/-- Where first sheets are taken and one book has only `name`, what the books have first is what
they have under `name`, if the first sheets have one name. -/
theorem isSheet_of_positional (hpos : c.positional = true) {name : String} (hk : c.Kept name)
    (hone : ∀ p ∈ c.pivot.sheets.head?, ∀ l ∈ c.locals.sheets.head?, ∀ r ∈ c.remote.sheets.head?,
      p.1 = l.1 ∧ p.1 = r.1) :
    ∃ p l r, c.pivot.sheets.head? = some p ∧ c.locals.sheets.head? = some l ∧
    c.remote.sheets.head? = some r ∧
      c.pivot.IsSheet name p ∧ c.locals.IsSheet name l ∧ c.remote.IsSheet name r := by
  have hfirst : ∀ b : NamedBook S, name ∈ b.getNames → ∃ sheet, b.sheets.head? = some sheet := by
    intro b hb
    cases hs : b.sheets with
    | nil => simp [NamedBook.getNames, hs] at hb
    | cons sheet rest => exact ⟨sheet, rfl⟩
  obtain ⟨p, hp⟩ := hfirst c.pivot hk.1
  obtain ⟨l, hl⟩ := hfirst c.locals hk.2.1
  obtain ⟨r, hr⟩ := hfirst c.remote hk.2.2
  obtain ⟨hpl, hpr⟩ := hone p hp l hl r hr
  have hname : p.1 = name := by
    have hsingle : c.pivot.getNames.length = 1 ∨ c.locals.getNames.length = 1 ∨
      c.remote.getNames.length = 1 := by
      simpa [positional, or_assoc] using hpos
    rcases hsingle with h | h | h
    · obtain ⟨sheet, hs, hn⟩ := NamedBook.eq_of_length_one h hk.1
      rwa [← Option.some.inj (hs.symm.trans hp)]
    · obtain ⟨sheet, hs, hn⟩ := NamedBook.eq_of_length_one h hk.2.1
      rwa [hpl, ← Option.some.inj (hs.symm.trans hl)]
    · obtain ⟨sheet, hs, hn⟩ := NamedBook.eq_of_length_one h hk.2.2
      rwa [hpr, ← Option.some.inj (hs.symm.trans hr)]
  exact ⟨p, l, r, hp, hl, hr, ⟨List.mem_of_mem_head? hp, hname⟩,
    ⟨List.mem_of_mem_head? hl, hpl ▸ hname⟩, ⟨List.mem_of_mem_head? hr, hpr ▸ hname⟩⟩

variable {c}

namespace Holds

/-- A name in all books is compared with the sheets of that name. -/
theorem report_kept (h : c.Holds) {name : String} (hk : c.Kept name) :
    ∃ p l r, c.report name = some (.compared name p l r (c.mapping name)) ∧
      c.pivot.IsSheet name p ∧ c.locals.IsSheet name l ∧ c.remote.IsSheet name r := by
  by_cases hpos : c.positional = true
  · have hne : c.nameSet ≠ [] :=
      List.ne_nil_of_mem ((c.mem_nameSet_of_due (.inl hk)).2 (h.wanted name (.inl hk)))
    obtain ⟨p, l, r, hp, hl, hr, hsheets⟩ :=
      c.isSheet_of_positional hpos hk (h.firstSheets hpos hne)
    refine ⟨p, l, r, (c.report_eq_compared_iff).2 ⟨rfl, rfl, ?_⟩, hsheets⟩
    rw [c.pick_eq_head? hpos, c.pick_eq_head? hpos, c.pick_eq_head? hpos]
    exact ⟨hp, hl, hr⟩
  · obtain ⟨p, hp⟩ := NamedBook.exists_isSheet hk.1
    obtain ⟨l, hl⟩ := NamedBook.exists_isSheet hk.2.1
    obtain ⟨r, hr⟩ := NamedBook.exists_isSheet hk.2.2
    refine ⟨p, l, r, (c.report_eq_compared_iff).2 ⟨rfl, rfl, ?_⟩, hp, hl, hr⟩
    rw [c.pick_eq_readSheet hpos, c.pick_eq_readSheet hpos, c.pick_eq_readSheet hpos]
    exact ⟨(NamedBook.readSheet_eq_some_iff _ _ _).2 hp,
      (NamedBook.readSheet_eq_some_iff _ _ _).2 hl, (NamedBook.readSheet_eq_some_iff _ _ _).2 hr⟩

/-- A name in the remote book only is added. -/
theorem report_added (h : c.Holds) {name : String} (ha : c.Added name) :
    ∃ r, c.remote.IsSheet name r ∧ c.report name = some (.addSheet name r) := by
  have hsheet : ∃ r, c.remote.IsSheet name r ∧ c.pick c.pivot name = none ∧
    c.pick c.locals name = none ∧
      c.pick c.remote name = some r := by
    by_cases hpos : c.positional = true
    · obtain ⟨hp, hl⟩ := h.addedAlone hpos name ha
      have hsingle : c.remote.getNames.length = 1 := by
        simpa [positional, NamedBook.getNames, hp, hl] using hpos
      obtain ⟨r, hr, hn⟩ := NamedBook.eq_of_length_one hsingle ha.2.2
      refine ⟨r, ⟨List.mem_of_mem_head? hr, hn⟩, ?_⟩
      rw [c.pick_eq_head? hpos, c.pick_eq_head? hpos, c.pick_eq_head? hpos, hp, hl]
      exact ⟨rfl, rfl, hr⟩
    · obtain ⟨r, hr⟩ := NamedBook.exists_isSheet ha.2.2
      refine ⟨r, hr, ?_⟩
      rw [c.pick_eq_readSheet hpos, c.pick_eq_readSheet hpos, c.pick_eq_readSheet hpos]
      exact ⟨(NamedBook.readSheet_eq_none_iff _ _).2 ha.1,
        (NamedBook.readSheet_eq_none_iff _ _).2 ha.2.1,
        (NamedBook.readSheet_eq_some_iff _ _ _).2 hr⟩
  obtain ⟨r, hr, hp, hl, hr'⟩ := hsheet
  refine ⟨r, hr, ?_⟩
  rw [report, pivotSheet, localSheet_eq, remoteSheet_eq, hp, hl, hr']

/-- What is compared has one name. -/
theorem report_oneName (h : c.Holds) {name name' : String} {p l r : String × S}
    {mapping : Option (String × S)}
    (hm : name ∈ c.nameSet) (hr : c.report name = some (.compared name' p l r mapping)) :
    p.1 = l.1 ∧ p.1 = r.1 := by
  obtain ⟨-, -, hp, hl, hr⟩ := c.report_eq_compared_iff.1 hr
  by_cases hpos : c.positional = true
  · rw [c.pick_eq_head? hpos] at hp hl hr
    exact h.firstSheets hpos (List.ne_nil_of_mem hm) p hp l hl r hr
  · rw [c.pick_eq_readSheet hpos, NamedBook.readSheet_eq_some_iff] at hp hl hr
    exact ⟨hp.2.trans hl.2.symm, hp.2.trans hr.2.symm⟩

theorem pairs (h : c.Holds) : c.Pairs c.compare.1 where
  kept := by
    intro name hk
    obtain ⟨p, l, r, hrep, -⟩ := h.report_kept hk
    have hmem := (c.mem_nameSet_of_due (.inl hk)).2 (h.wanted name (.inl hk))
    exact ⟨p, l, r, _, (c.mem_compare (by trivial)).2 ⟨name, hmem, h.reached name (.inl hk), hrep⟩⟩
  same := by
    intro name hk p l r mapping hlog
    obtain ⟨name', -, -, hrep'⟩ := (c.mem_compare (by trivial)).1 hlog
    obtain ⟨p', l', r', hrep, hsheets⟩ := h.report_kept hk
    obtain rfl := (c.report_eq_compared_iff.1 hrep').1
    have he : Event.compared name' p l r mapping = .compared name' p' l' r' (c.mapping name') :=
      Option.some.inj (hrep'.symm.trans hrep)
    cases he
    exact hsheets
  added := by
    intro name ha
    obtain ⟨r, hr, hrep⟩ := h.report_added ha
    have hmem := (c.mem_nameSet_of_due (.inr ha)).2 (h.wanted name (.inr ha))
    exact ⟨r, hr, (c.mem_compare (by trivial)).2 ⟨name, hmem, h.reached name (.inr ha), hrep⟩⟩
  removed := fun name hp hl hr => absurd (h.noRemoved name hp hl) hr
  oneName := by
    intro name p l r mapping hlog
    obtain ⟨name', hm, -, hrep⟩ := (c.mem_compare (by trivial)).1 hlog
    exact h.report_oneName hm hrep

end Holds

namespace Pairs

/-- A name that must be reported is in the set, and the run comes to it. -/
theorem due (h : c.Pairs c.compare.1) {name : String} (hd : c.Kept name ∨ c.Added name) :
    name ∈ c.nameSet ∧ c.Reaches name := by
  rcases hd with hk | ha
  · obtain ⟨p, l, r, mapping, hlog⟩ := h.kept name hk
    obtain ⟨name', hm, hreach, hrep⟩ := (c.mem_compare (by trivial)).1 hlog
    obtain rfl := (c.report_eq_compared_iff.1 hrep).1
    exact ⟨hm, hreach⟩
  · obtain ⟨r, -, hlog⟩ := h.added name ha
    obtain ⟨name', hm, hreach, hrep⟩ := (c.mem_compare (by trivial)).1 hlog
    obtain rfl := (c.name_of_report hrep).1
    exact ⟨hm, hreach⟩

/-- The first name of the set is always reached. -/
theorem reaches_first {c : Call S} (hne : c.nameSet ≠ []) : ∃ name ∈ c.nameSet, c.Reaches name := by
  obtain ⟨name, rest, he⟩ := List.exists_cons_of_ne_nil hne
  have hnone : c.nameSet.filter (· < name) = [] :=
    (eq_filter_lt c.nameSet_pairwise (show c.nameSet = [] ++ name :: rest from he)).symm
  refine ⟨name, he ▸ List.mem_cons_self, ?_⟩
  rw [Reaches, hnone]
  trivial

theorem holds (h : c.Pairs c.compare.1) : c.Holds where
  noRemoved := by
    intro name hp hl
    by_contra hr
    obtain ⟨name', hm, -, hrep⟩ := (c.mem_compare (by trivial)).1 (h.removed name hp hl hr)
    obtain rfl := c.name_of_removeSheet hrep
    rcases ((c.mem_nameSet _).1 hm).2.2 with hnp | hlr
    · exact hnp hp
    · exact hr hlr.2
  wanted := fun name hd => (c.mem_nameSet_of_due hd).1 (h.due hd).1
  reached := fun name hd => (h.due hd).2
  firstSheets := by
    intro hpos hne p hp l hl r hr
    obtain ⟨name, hm, hreach⟩ := reaches_first hne
    have hrep : c.report name = some (.compared name p l r (c.mapping name)) := by
      rw [c.report_eq_compared_iff, c.pick_eq_head? hpos, c.pick_eq_head? hpos,
        c.pick_eq_head? hpos]
      exact ⟨rfl, rfl, hp, hl, hr⟩
    exact h.oneName name p l r _ ((c.mem_compare (by trivial)).2 ⟨name, hm, hreach, hrep⟩)
  addedAlone := by
    intro hpos name ha
    obtain ⟨r, -, hlog⟩ := h.added name ha
    obtain ⟨name', -, -, hrep⟩ := (c.mem_compare (by trivial)).1 hlog
    obtain ⟨rfl, hp, hlr⟩ := c.name_of_report hrep
    rw [c.pick_eq_head? hpos] at hp hlr
    rw [c.pick_eq_head? hpos] at hlr
    have hremote : c.remote.sheets ≠ [] := by
      intro he
      have := ha.2.2
      simp [NamedBook.getNames, he] at this
    refine ⟨List.head?_eq_none_iff.1 hp, ?_⟩
    rcases hlr with hl | hr
    · exact List.head?_eq_none_iff.1 hl.1
    · exact absurd (List.head?_eq_none_iff.1 hr) hremote

end Pairs

/-- Sheets are paired by name, and what only one side has is reported, exactly under `Holds`. -/
theorem pairs_iff (c : Call S) : c.Pairs c.compare.1 ↔ c.Holds := ⟨Pairs.holds, Holds.pairs⟩

/-- A sheet that the remote book no longer has. -/
def dropped : Call Nat where
  pivot := ⟨[("places", 0), ("people", 1)], by decide⟩
  locals := ⟨[("places", 0), ("people", 1)], by decide⟩
  remote := ⟨[("places", 0), ("plants", 2)], by decide⟩
  pivotIsLocal := false
  pivotIsRemote := false
  localIsRemote := false
  same_pl := nofun
  same_pr := nofun
  same_lr := nofun
  tables := []
  mappingBook := none
  sheetCompare := fun _ _ _ _ _ _ => 0

example : dropped.compare =
    ([.setFlags, .mergeStart, .compared "places" ("places", 0) ("places", 0) ("places", 0) none,
      .mergeDone, .addSheet "plants" ("plants", 2), .mergeDone, .mergeAllDone], 0) := by decide

theorem dropped_unreported : ¬ dropped.Pairs dropped.compare.1 := fun h =>
  absurd (h.removed "people" (by decide) (by decide) (by decide)) (by decide)

end Call

end BookCompare

end Coopy
