import Coopy.PolySheet
import Coopy.Sniffers

/-!
# `NameSniffer`: where the names of columns come from

Names come from a schema that has one for each column, else from a header row, which is refused when
a name is repeated or blank; else they are those of a spreadsheet.  Only the names of a schema are
taken as they are:

    the names of the columns are distinct ↔ a schema that names all columns does not repeat a name
                                                                                      (distinct_iff)

`subset` looks up the columns that are asked for by a name or by a letter, and stops at the first
letter.
-/

namespace Coopy

open Lib

/-- What a sniffer asks a schema for. -/
structure SheetSchema where
  columnCount : Int
  columnInfo : Nat → ColumnInfo
  headerHeight : Int := 0
  guess : Bool := false

/-- What sniffing leaves. -/
structure Sniffing where
  names : List String := []
  ct : List ColumnType := []
  embed : Bool := false
  fake : Bool := false
  canUseTop : Bool := false
  div : Int
deriving DecidableEq

def Sniffing.sniffer (s : Sniffing) : NameSniffer := ⟨s.names, []⟩

namespace DataSheet

variable (sheet : DataSheet)

def cellString (x y : Nat) : String := (sheet.cellSummary x y).text

/-- The characters of a kind in a row. -/
def countInRow (kind : Char → Bool) (y : Nat) : Nat :=
  ((List.range sheet.width).flatMap fun i => (sheet.cellString i y).toList).countP kind

/-- Two rows, of which the first is all in capitals. -/
def twoLiner : Bool :=
  let low := sheet.countInRow fun ch => 'a' ≤ ch && ch ≤ 'z'
  let high := sheet.countInRow fun ch => 'A' ≤ ch && ch ≤ 'Z'
  sheet.height = 2 && low 0 = 0 && 0 < high 0 && 0 < low 1

/-- The loop over a header row; `none` is a header that is refused. -/
def headerNames (adiv : Nat) : List Nat → String → List String → Option (List String)
  | [], _, names => some names
  | i :: is, lastName, names =>
    let cell := sheet.cellString i adiv
    if cell = "" ∧ adiv + 1 < sheet.height ∧ sheet.cellString i (adiv + 1) ≠ "" then none
    else
      let name := if cell = "" then lastName ++ "_" else cell
      if name ∈ names then none else headerNames adiv is name (names ++ [name])

end DataSheet

namespace SheetSchema

variable (schema : SheetSchema) (width : Nat)

/-- The loop over the columns of the schema; a column without a name clears what there is. -/
def columns : List ColumnInfo :=
  if schema.columnCount = width then
    ((List.range width).mapM fun i => if (schema.columnInfo i).nameSet then some
      (schema.columnInfo i) else none).getD []
  else []

/-- The schema has a name for each column of the sheet. -/
def NamesAll : Prop := schema.columnCount = width ∧ ∀ i < width,
    (schema.columnInfo i).nameSet = true

end SheetSchema

namespace NameSniffer

/-- Types for columns that have none yet. -/
def padded (ct : List ColumnType) (names : List String) : List ColumnType :=
  ct ++ List.replicate (names.length - ct.length) ({} : ColumnType)

/-- `sniff` without names in a schema; `stat` is what `DataStat` finds: a row divider, and types. -/
def sniffRows (sheet : DataSheet) (stat : Int × List ColumnType) (div : Int)
    (fake : Bool) : Sniffing :=
  let ct := if div < 0 then stat.2 else []
  let div := if div < 0 then stat.1 else div
  let div := if div < 0 ∧ sheet.twoLiner = true then 0 else div
  if div < 0 then { ct, fake := true, canUseTop := decide (1 ≤ sheet.height), div }
  else
    match sheet.headerNames div.toNat (List.range sheet.width) "" [] with
    | none => { fake := true, div }
    | some names => { names, ct := padded ct names, embed := true, fake, div }

def sniff (sheet : DataSheet) (database : Bool) (schema : Option SheetSchema)
    (stat : Int × List ColumnType) (suggest : Int) : Sniffing :=
  match schema with
  | none => sniffRows sheet stat suggest false
  | some schema =>
    let div := schema.headerHeight - 1
    if schema.columnCount = 0 ∧ schema.headerHeight > 0 then sniffRows sheet stat div schema.guess
    else
      let infos := schema.columns sheet.width
      let names := infos.map ColumnInfo.name
      if names.length > 0 then
        -- the header can be a row of the sheet as well
        let embed := decide (1 ≤ sheet.height) && !database &&
          (List.range names.length).all fun i => sheet.cellString i 0 = names.getD i ""
        { names
          ct := infos.map ColumnInfo.columnType
          embed
          fake := schema.guess
          div := if embed then 0 else div }
      else sniffRows sheet stat div schema.guess

end NameSniffer

/-! ## Names of a spreadsheet -/

/-- The number of a column, read off its letters. -/
def columnNumber (name : List Char) : Nat := name.foldl (fun n c => 26 * n + (c.toNat - 65)) 0

theorem toNat_letter : ∀ n < 26, (Char.ofNat (65 + n)).toNat = 65 + n := by decide

/-- The digits are written from the last one on. -/
theorem foldl_spreadsheetDigits (fuel : Nat) : ∀ (rem : Nat) (current : List Char), rem < fuel →
    (spreadsheetDigits fuel rem current).foldl (fun n c => 26 * n + (c.toNat - 65)) 0 =
      current.foldl (fun n c => 26 * n + (c.toNat - 65)) rem := by
  induction fuel with
  | zero => exact fun rem current h => absurd h (Nat.not_lt_zero _)
  | succ fuel ih =>
    intro rem current h
    have hdigit := toNat_letter (rem % 26) (Nat.mod_lt rem (by decide))
    have hrem := Nat.div_add_mod rem 26
    unfold spreadsheetDigits
    simp only
    split
    · rw [ih _ _ (by omega), List.foldl_cons, hdigit, Nat.add_sub_cancel_left, hrem]
    · next hlast =>
      rw [List.foldl_cons, hdigit, Nat.add_sub_cancel_left, Nat.mul_zero, Nat.zero_add]
      congr 1
      omega

theorem columnNumber_name (x : Nat) : columnNumber (getSpreadsheetColumnName x).toList = x := by
  unfold columnNumber getSpreadsheetColumnName
  rw [String.toList_ofList, foldl_spreadsheetDigits _ _ _ (Nat.lt_succ_self x)]
  rfl

theorem getSpreadsheetColumnName_injective {x y : Nat}
    (h : getSpreadsheetColumnName x = getSpreadsheetColumnName y) :
    x = y := by
  rw [← columnNumber_name x, h, columnNumber_name]

/-! ## Names of a header row -/

theorem headerNames_nodup (sheet : DataSheet) (adiv : Nat) (is : List Nat) :
    ∀ (lastName : String) (names out : List String),
    names.Nodup → sheet.headerNames adiv is lastName names = some out → out.Nodup ∧
    out.length = names.length + is.length := by
  induction is with
  | nil =>
    intro lastName names out hd h
    cases h
    exact ⟨hd, rfl⟩
  | cons i is ih =>
    intro lastName names out hd h
    unfold DataSheet.headerNames at h
    simp only at h
    generalize (if sheet.cellString i adiv = "" then lastName ++ "_" else sheet.cellString i adiv) =
      name at h
    split at h
    · cases h
    · split at h
      · cases h
      · next hnew =>
        obtain ⟨hd', hlen⟩ :=
          ih _ _ out (List.nodup_append.2 ⟨hd, List.nodup_singleton _, fun a ha b hb hab => by
          rw [List.mem_singleton.1 hb] at hab
          exact hnew (hab ▸ ha)⟩) h
        refine ⟨hd', ?_⟩
        rw [hlen, List.length_append, List.length_singleton, List.length_cons]
        omega

namespace NameSniffer

theorem sniffRows_names (sheet : DataSheet) (stat : Int × List ColumnType) (div : Int)
    (fake : Bool) : (sniffRows sheet stat div fake).names.Nodup ∧
    (sniffRows sheet stat div fake).sniffer.Fits sheet.width := by
  unfold sniffRows
  simp only
  generalize (if div < 0 then stat.2 else []) = ct
  generalize (if div < 0 then stat.1 else div) = div
  generalize (if div < 0 ∧ sheet.twoLiner = true then 0 else div) = div
  split
  · exact ⟨List.nodup_nil, Or.inl rfl⟩
  · split
    · exact ⟨List.nodup_nil, Or.inl rfl⟩
    · next names hnames =>
      obtain ⟨hd, hlen⟩ := headerNames_nodup sheet _ _ _ _ names List.nodup_nil hnames
      rw [List.length_range, List.length_nil, Nat.zero_add] at hlen
      exact ⟨hd, Or.inr hlen⟩

end NameSniffer

namespace SheetSchema

variable {schema : SheetSchema} {width : Nat}

theorem columns_of_namesAll (h : schema.NamesAll width) :
    schema.columns width = (List.range width).map schema.columnInfo := by
  have hall :
    (List.range width).mapM
      (fun i => if (schema.columnInfo i).nameSet then some (schema.columnInfo i) else none) =
      some ((List.range width).map schema.columnInfo) :=
    mapM_eq_some_map fun i hi => if_pos (h.2 i (List.mem_range.1 hi))
  unfold columns
  rw [if_pos h.1, hall]
  rfl

theorem columns_of_not_namesAll (h : ¬ schema.NamesAll width) : schema.columns width = [] := by
  unfold columns
  split
  · next hcount =>
    cases hm :
      (List.range width).mapM
        (fun i => if (schema.columnInfo i).nameSet then some (schema.columnInfo i) else none) with
    | none => rfl
    | some infos =>
      refine absurd ⟨hcount, fun i hi => ?_⟩ h
      obtain ⟨info, hinfo⟩ := exists_of_mapM hm i (List.mem_range.2 hi)
      by_contra hnot
      rw [if_neg hnot] at hinfo
      cases hinfo
  · rfl

end SheetSchema

/-! ## All names -/

namespace NameSniffer

theorem columnNames_nodup_iff {sniffer : NameSniffer} {width : Nat} (h : sniffer.Fits width) :
    (sniffer.columnNames width).Nodup ↔ sniffer.names.Nodup := by
  unfold columnNames suggestColumnName
  by_cases hnames : sniffer.names.length > 0
  · have hwidth : sniffer.names.length = width := by
      rcases h with h | h
      · rw [h] at hnames
        exact absurd hnames (by decide)
      · exact h
    have hself : (List.range width).map (fun col => (sniffer.names[col]?).getD "") =
      sniffer.names :=
      List.ext_getElem (by rw [List.length_map, List.length_range, hwidth]) fun i hi hi' => by
        rw [List.getElem_map, List.getElem_range, List.getElem?_eq_getElem hi']
        rfl
    simp only [if_pos hnames, hself]
  · have hnil : sniffer.names = [] := List.eq_nil_of_length_eq_zero (Nat.eq_zero_of_not_pos hnames)
    simp only [hnil]
    refine iff_of_true ?_ List.nodup_nil
    exact List.nodup_range.map fun x y h => getSpreadsheetColumnName_injective h

section
variable {sheet : DataSheet} {database : Bool} {schema : SheetSchema} {stat : Int × List ColumnType}
    {suggest : Int}

theorem sniffRows_empty (hw : sheet.width = 0) (div : Int) (fake : Bool) :
    (sniffRows sheet stat div fake).names = [] := by
  rcases (sniffRows_names sheet stat div fake).2 with h | h
  · exact h
  · exact List.eq_nil_of_length_eq_zero (h.trans hw)

theorem sniff_of_columns_nil (h : schema.columns sheet.width = []) :
    ∃ div fake, sniff sheet database (some schema) stat suggest =
    sniffRows sheet stat div fake := by
  unfold sniff
  simp only [h, List.map_nil, List.length_nil, Nat.lt_irrefl, if_false, ite_self]
  exact ⟨_, _, rfl⟩

/-- A schema that names all columns is taken at its word. -/
theorem sniff_of_namesAll (h : schema.NamesAll sheet.width) :
    (sniff sheet database (some schema) stat suggest).names =
      (List.range sheet.width).map fun i => (schema.columnInfo i).name := by
  have hcolumns := SheetSchema.columns_of_namesAll h
  by_cases hw : sheet.width = 0
  · rw [hw, List.range_zero, List.map_nil, ← hw] at hcolumns
    obtain ⟨div, fake, hsniff⟩ := @sniff_of_columns_nil sheet database schema stat suggest hcolumns
    rw [hsniff, sniffRows_empty hw, hw]
    rfl
  · have hcount : ¬ (schema.columnCount = 0 ∧ schema.headerHeight > 0) := by
      rw [h.1]
      exact fun hc => hw (Int.ofNat.inj hc.1)
    unfold sniff
    simp only [hcolumns, if_neg hcount, List.length_map, List.length_range,
      if_pos (Nat.pos_of_ne_zero hw), List.map_map]
    rfl

/-- Else the names come from the rows. -/
theorem sniff_of_not_namesAll {schema : Option SheetSchema} (h : ∀ s, schema = some s →
    ¬ s.NamesAll sheet.width) :
    ∃ div fake, sniff sheet database schema stat suggest = sniffRows sheet stat div fake := by
  cases schema with
  | none => exact ⟨_, _, rfl⟩
  | some s => exact sniff_of_columns_nil (SheetSchema.columns_of_not_namesAll (h s rfl))

end

theorem sniff_fits (sheet : DataSheet) (database : Bool) (schema : Option SheetSchema)
    (stat : Int × List ColumnType)
    (suggest : Int) : (sniff sheet database schema stat suggest).sniffer.Fits sheet.width := by
  by_cases h : ∃ s, schema = some s ∧ s.NamesAll sheet.width
  · obtain ⟨s, rfl, hs⟩ := h
    refine Or.inr ?_
    show (sniff sheet database (some s) stat suggest).names.length = sheet.width
    rw [sniff_of_namesAll hs, List.length_map, List.length_range]
  · have hnone : ∀ s, schema = some s → ¬ s.NamesAll sheet.width := fun s hs hall => h ⟨s, hs, hall⟩
    obtain ⟨div, fake, hsniff⟩ := @sniff_of_not_namesAll sheet database stat suggest schema hnone
    rw [hsniff]
    exact (sniffRows_names sheet stat div fake).2

/-- **The names of the columns are distinct** unless a schema repeats one. -/
theorem distinct_iff (sheet : DataSheet) (database : Bool) (schema : Option SheetSchema)
    (stat : Int × List ColumnType) (suggest : Int) :
    ((sniff sheet database schema stat suggest).sniffer.columnNames sheet.width).Nodup ↔
      ∀ s, schema = some s → s.NamesAll sheet.width →
        ((List.range sheet.width).map fun i => (s.columnInfo i).name).Nodup := by
  rw [columnNames_nodup_iff (sniff_fits sheet database schema stat suggest)]
  show (sniff sheet database schema stat suggest).names.Nodup ↔ _
  by_cases h : ∃ s, schema = some s ∧ s.NamesAll sheet.width
  · obtain ⟨s, rfl, hs⟩ := h
    rw [sniff_of_namesAll hs]
    exact ⟨fun hd s' hs' _ => Option.some.inj hs' ▸ hd, fun hd => hd s rfl hs⟩
  · have hnone : ∀ s, schema = some s → ¬ s.NamesAll sheet.width := fun s hs hall => h ⟨s, hs, hall⟩
    obtain ⟨div, fake, hsniff⟩ := @sniff_of_not_namesAll sheet database stat suggest schema hnone
    rw [hsniff]
    exact iff_of_true (sniffRows_names sheet stat div fake).1 fun s hs hall =>
      absurd hall (hnone s hs)

/-- A schema with a name for two columns. -/
def repeating : SheetSchema where
  columnCount := 2
  columnInfo := fun _ => ColumnInfo.named "a"

def twoColumns : DataSheet where
  width := 2
  rows := [[⟨"1", false⟩, ⟨"2", false⟩]]
  rect := by decide
  stored := by decide

theorem not_distinct : ¬ ∀ (sheet : DataSheet) (database : Bool) (schema : Option SheetSchema)
    (stat : Int × List ColumnType) (suggest : Int),
      ((sniff sheet database schema stat suggest).sniffer.columnNames sheet.width).Nodup :=
  fun h => absurd (h twoColumns false (some repeating) (-1, []) (-1)) (by decide +kernel)

/-! ## Columns that are asked for -/

/-- The column of a single character: the test lets `[` pass as the 27th letter. -/
def letterIndex (id : String) : Option Nat :=
  match id.toList with
  | [c] => if 'A' ≤ c ∧ c ≤ '[' then some (c.toNat - 65) else none
  | _ => none

/-- The two loops of `subset`: behind a letter the outer one is left. -/
def subsetIndices (names : List String) : List String → List Nat
  | [] => []
  | id :: ext =>
    (names.findIdx? (· == id)).toList ++
      match letterIndex id with
      | some j => [j]
      | none => subsetIndices names ext

def subset (sniffer : NameSniffer) (ext : List String) : NameSniffer × Bool :=
  let index := subsetIndices sniffer.names ext
  ({ sniffer with subsetIndex := index }, decide (index.length = ext.length))

/-- The column that an id denotes: the one of that name, else the one of that letter. -/
def denoted (sniffer : NameSniffer) (width : Nat) (id : String) : Option Nat :=
  (sniffer.names.findIdx? (· == id)).or ((letterIndex id).filter fun j => j < 26 && j < width)

/-- The columns that are asked for are found just when each id denotes one, and in order. -/
def Selects (sniffer : NameSniffer) (width : Nat) (ext : List String) : Prop :=
  ((sniffer.subset ext).2 = true ↔ ∀ id ∈ ext, (sniffer.denoted width id).isSome = true) ∧
    ((sniffer.subset ext).2 = true → (sniffer.subset ext).1.subsetIndex.map some =
      ext.map (sniffer.denoted width) ∧ ∀ j ∈ (sniffer.subset ext).1.subsetIndex, j < width)

/-- The first letter does no harm: where the count comes out right, the ids in front of it are
names, and it stands for the last id; else an id denotes nothing. -/
def Harmless (sniffer : NameSniffer) (width : Nat) (ext : List String) : Prop :=
  let front := ext.takeWhile fun id => (letterIndex id).isNone
  let unnamed := front.countP fun id => id ∉ sniffer.names
  match ext.dropWhile fun id => (letterIndex id).isNone with
  | [] => True
  | id :: behind =>
    if unnamed + behind.length = if id ∈ sniffer.names then 1 else 0 then
      unnamed = 0 ∧ (ext.getLast?.bind (sniffer.denoted width)) = letterIndex id
    else ∃ x ∈ ext, sniffer.denoted width x = none

section
variable {sniffer : NameSniffer} {width : Nat}

theorem findIdx?_isSome_iff (names : List String) (id : String) :
    (names.findIdx? (· == id)).isSome = true ↔ id ∈ names := by
  rw [List.findIdx?_isSome, List.any_eq_true]
  constructor
  · rintro ⟨x, hx, he⟩
    exact beq_iff_eq.1 he ▸ hx
  · exact fun h => ⟨id, h, beq_self_eq_true id⟩

/-- What is found in front of the first letter. -/
theorem subsetIndices_append (names : List String) (front rest : List String)
    (h : ∀ id ∈ front, letterIndex id = none) :
    subsetIndices names (front ++ rest) =
      front.filterMap (fun id => names.findIdx? (· == id)) ++ subsetIndices names rest := by
  induction front with
  | nil => rfl
  | cons id front ih =>
    have hnone := h id (by simp)
    have hrest := ih fun x hx => h x (List.mem_cons_of_mem _ hx)
    rw [List.cons_append, subsetIndices, hnone]
    simp only
    rw [hrest, List.filterMap_cons]
    cases names.findIdx? (· == id) <;> rfl

theorem denoted_of_mem {id : String} (h : id ∈ sniffer.names) :
    sniffer.denoted width id = sniffer.names.findIdx? (· == id) := by
  obtain ⟨j, hj⟩ := Option.isSome_iff_exists.1 ((findIdx?_isSome_iff sniffer.names id).2 h)
  unfold denoted
  rw [hj]
  rfl

theorem denoted_of_not_mem {id : String} (h : id ∉ sniffer.names) :
    sniffer.denoted width id = (letterIndex id).filter fun j => j < 26 && j < width := by
  have hnone : sniffer.names.findIdx? (· == id) = none := by
    rw [← Option.not_isSome_iff_eq_none, findIdx?_isSome_iff]
    exact h
  unfold denoted
  rw [hnone]
  rfl

/-- Where no id is a letter, ids denote by their names only. -/
theorem denoted_of_no_letter {id : String} (h : letterIndex id = none) :
    sniffer.denoted width id = sniffer.names.findIdx? (· == id) := by
  unfold denoted
  rw [h]
  exact Option.or_none

theorem denoted_lt (hfits : sniffer.Fits width) {id : String} {j : Nat}
    (h : sniffer.denoted width id = some j) : j < width := by
  by_cases hmem : id ∈ sniffer.names
  · rw [denoted_of_mem hmem] at h
    obtain ⟨hlt, -⟩ := List.findIdx?_eq_some_iff_getElem.1 h
    rcases hfits with hnil | hlen
    · rw [hnil] at hlt
      exact absurd hlt (Nat.not_lt_zero _)
    · omega
  · rw [denoted_of_not_mem hmem] at h
    obtain ⟨-, hj⟩ := Option.filter_eq_some_iff.1 h
    simp only [Bool.and_eq_true, decide_eq_true_eq] at hj
    exact hj.2

/-- Each id in front is found, or counted as one that is no name. -/
theorem length_found (names front : List String) :
    (front.filterMap fun id => names.findIdx? (· == id)).length +
    front.countP (fun id => id ∉ names) = front.length := by
  induction front with
  | nil => rfl
  | cons id front ih =>
    rw [List.filterMap_cons, List.countP_cons, List.length_cons]
    by_cases hmem : id ∈ names
    · obtain ⟨j, hj⟩ := Option.isSome_iff_exists.1 ((findIdx?_isSome_iff names id).2 hmem)
      rw [hj, if_neg (by simpa using hmem)]
      simp only [List.length_cons]
      omega
    · have hnone : names.findIdx? (· == id) = none := by
        rw [← Option.not_isSome_iff_eq_none, findIdx?_isSome_iff]
        exact hmem
      rw [hnone, if_pos (by simpa using hmem)]
      simp only
      omega

/-- Ids that are all names are found in order. -/
theorem map_found {front : List String} (hfront : ∀ id ∈ front, letterIndex id = none)
    (h : front.countP (fun id => id ∉ sniffer.names) = 0) :
    (front.filterMap fun id => sniffer.names.findIdx? (· == id)).map some =
    front.map (sniffer.denoted width) := by
  induction front with
  | nil => rfl
  | cons id front ih =>
    rw [List.countP_cons] at h
    have hmem : id ∈ sniffer.names := by
      by_contra hnot
      rw [if_pos (by simpa using hnot)] at h
      omega
    obtain ⟨j, hj⟩ := Option.isSome_iff_exists.1 ((findIdx?_isSome_iff sniffer.names id).2 hmem)
    rw [List.filterMap_cons, hj]
    simp only [List.map_cons]
    rw [ih (fun x hx => hfront x (List.mem_cons_of_mem _ hx)) (by omega), denoted_of_mem hmem, hj]

theorem exists_unnamed {front : List String} (hfront : ∀ id ∈ front, letterIndex id = none)
    (h : front.countP (fun id => id ∉ sniffer.names) ≠ 0) :
    ∃ id ∈ front, sniffer.denoted width id = none := by
  obtain ⟨id, hid, hnot⟩ := List.countP_pos_iff.1 (Nat.pos_of_ne_zero h)
  refine ⟨id, hid, ?_⟩
  rw [denoted_of_no_letter (hfront id hid), ← Option.not_isSome_iff_eq_none, findIdx?_isSome_iff]
  simpa using hnot

/-- Ids of which one denotes nothing are not selected, and must not be. -/
theorem selects_of_missing {ext : List String}
    (hlen : (subsetIndices sniffer.names ext).length ≠ ext.length) :
    sniffer.Selects width ext ↔ ∃ id ∈ ext, sniffer.denoted width id = none := by
  have hfalse : (sniffer.subset ext).2 = false := decide_eq_false hlen
  unfold Selects
  rw [hfalse]
  constructor
  · rintro ⟨hall, -⟩
    by_contra hnone
    refine absurd (hall.2 fun id hid => ?_) Bool.false_ne_true
    rw [Option.isSome_iff_ne_none]
    exact fun he => hnone ⟨id, hid, he⟩
  · rintro ⟨id, hid, he⟩
    refine ⟨iff_of_false Bool.false_ne_true fun hall => ?_, fun hc => absurd hc Bool.false_ne_true⟩
    have hsome := hall id hid
    rw [he] at hsome
    cases hsome

/-- Where the count comes out right, each id must have its own entry. -/
theorem selects_of_count (hfits : sniffer.Fits width) {ext : List String}
    (hlen : (subsetIndices sniffer.names ext).length = ext.length) :
    sniffer.Selects width ext ↔ (subsetIndices sniffer.names ext).map some =
    ext.map (sniffer.denoted width) := by
  have htrue : (sniffer.subset ext).2 = true := decide_eq_true hlen
  have hindex : (sniffer.subset ext).1.subsetIndex = subsetIndices sniffer.names ext := rfl
  unfold Selects
  rw [htrue, hindex]
  constructor
  · exact fun h => (h.2 rfl).1
  · intro h
    have hmem : ∀ id ∈ ext, ∃ j ∈ subsetIndices sniffer.names ext,
      sniffer.denoted width id = some j := by
      intro id hid
      have hin : sniffer.denoted width id ∈ (subsetIndices sniffer.names ext).map some :=
        h ▸ List.mem_map_of_mem hid
      obtain ⟨j, hj, he⟩ := List.mem_map.1 hin
      exact ⟨j, hj, he.symm⟩
    refine ⟨iff_of_true rfl fun id hid => ?_, fun _ => ⟨h, fun j hj => ?_⟩⟩
    · obtain ⟨j, -, he⟩ := hmem id hid
      rw [he]
      rfl
    · have hin : some j ∈ ext.map (sniffer.denoted width) := h ▸ List.mem_map_of_mem hj
      obtain ⟨id, -, he⟩ := List.mem_map.1 hin
      exact denoted_lt hfits he

/-- Ids none of which is a letter are selected as they should. -/
theorem selects_of_no_letter (hfits : sniffer.Fits width) {ext : List String}
    (h : ∀ id ∈ ext, letterIndex id = none) : sniffer.Selects width ext := by
  have hindex := subsetIndices_append sniffer.names ext [] h
  rw [List.append_nil, subsetIndices, List.append_nil] at hindex
  have hfound := length_found sniffer.names ext
  by_cases hall : ext.countP (fun id => id ∉ sniffer.names) = 0
  · rw [selects_of_count hfits (by rw [hindex]; omega), hindex]
    exact map_found h hall
  · rw [selects_of_missing (by rw [hindex]; omega)]
    exact exists_unnamed h hall

theorem selects_of_letter (hfits : sniffer.Fits width) {front behind : List String}
    {id : String} {j : Nat}
    (hfront : ∀ x ∈ front, letterIndex x = none) (hid : letterIndex id = some j) :
    sniffer.Selects width (front ++ id :: behind) ↔
      if front.countP (fun x => x ∉ sniffer.names) + behind.length = if id ∈ sniffer.names then 1
      else 0 then
        front.countP (fun x => x ∉ sniffer.names) = 0 ∧
          (front ++ id :: behind).getLast?.bind (sniffer.denoted width) = some j
      else ∃ x ∈ front ++ id :: behind, sniffer.denoted width x = none := by
  have hindex := subsetIndices_append sniffer.names front (id :: behind) hfront
  rw [subsetIndices, hid] at hindex
  simp only at hindex
  have hfound := length_found sniffer.names front
  have hown : (sniffer.names.findIdx? (· == id)).toList.length =
    if id ∈ sniffer.names then 1 else 0 := by
    by_cases hmem : id ∈ sniffer.names
    · obtain ⟨i, hi⟩ := Option.isSome_iff_exists.1 ((findIdx?_isSome_iff sniffer.names id).2 hmem)
      rw [hi, if_pos hmem]
      rfl
    · have hnone : sniffer.names.findIdx? (· == id) = none := by
        rw [← Option.not_isSome_iff_eq_none, findIdx?_isSome_iff]
        exact hmem
      rw [hnone, if_neg hmem]
      rfl
  have hcount : (subsetIndices sniffer.names (front ++ id :: behind)).length =
    (front ++ id :: behind).length ↔
      front.countP (fun x => x ∉ sniffer.names) + behind.length = if id ∈ sniffer.names then 1
      else 0 := by
    rw [hindex, List.length_append, List.length_append, hown, List.length_append, List.length_cons,
      List.length_cons, List.length_nil]
    omega
  by_cases hright : front.countP (fun x => x ∉ sniffer.names) + behind.length = if id ∈
    sniffer.names then 1 else 0
  · rw [if_pos hright, selects_of_count hfits (hcount.2 hright), hindex, List.map_append,
      List.map_append (f := sniffer.denoted width)]
    by_cases hzero : front.countP (fun x => x ∉ sniffer.names) = 0
    · rw [@map_found sniffer width front hfront hzero, List.append_cancel_left_eq,
        and_iff_right hzero]
      rw [hzero, Nat.zero_add] at hright
      by_cases hmem : id ∈ sniffer.names
      · -- the letter takes the place of the id behind it
        rw [if_pos hmem] at hright
        obtain ⟨d, rfl⟩ := List.length_eq_one_iff.1 hright
        obtain ⟨i, hi⟩ := Option.isSome_iff_exists.1 ((findIdx?_isSome_iff sniffer.names id).2 hmem)
        have hlast : (front ++ [id, d]).getLast? = some d := by
          rw [List.getLast?_append_of_ne_nil _ (by simp)]
          rfl
        rw [hi, hlast, Option.bind_some, List.map_cons, denoted_of_mem hmem, hi]
        simp [eq_comm]
      · rw [if_neg hmem] at hright
        obtain rfl := List.eq_nil_of_length_eq_zero hright
        have hnone : sniffer.names.findIdx? (· == id) = none := by
          rw [← Option.not_isSome_iff_eq_none, findIdx?_isSome_iff]
          exact hmem
        rw [hnone, List.getLast?_concat, Option.bind_some]
        simp [eq_comm]
    · refine iff_of_false (fun hsame => ?_) fun h => hzero h.1
      obtain ⟨x, hx, hnone⟩ := @exists_unnamed sniffer width front hfront hzero
      have hin : none ∈ (front.filterMap fun id => sniffer.names.findIdx? (· == id)).map some ++
          ((sniffer.names.findIdx? (· == id)).toList ++ [j]).map some := by
        rw [hsame]
        exact List.mem_append_left _ (hnone ▸ List.mem_map_of_mem hx)
      simp at hin
  · rw [if_neg hright]
    exact selects_of_missing (mt hcount.1 hright)

/-- The ids up to the first letter, and from it on. -/
theorem selects_iff_harmless (hfits : sniffer.Fits width) (ext : List String) :
    sniffer.Selects width ext ↔ sniffer.Harmless width ext := by
  have hsplit := List.takeWhile_append_dropWhile (p := fun id => (letterIndex id).isNone) (l := ext)
  have hfront : ∀ x ∈ ext.takeWhile (fun id => (letterIndex id).isNone), letterIndex x = none := by
    intro x hx
    have hnone := List.mem_takeWhile_imp hx
    exact Option.isNone_iff_eq_none.1 hnone
  unfold Harmless
  simp only
  cases hdrop : ext.dropWhile (fun id => (letterIndex id).isNone) with
  | nil =>
    rw [hdrop, List.append_nil] at hsplit
    rw [hsplit] at hfront
    exact iff_of_true (selects_of_no_letter hfits hfront) trivial
  | cons id behind =>
    have hid : (letterIndex id).isNone = false := by
      have hhead := List.head?_dropWhile_not (fun id => (letterIndex id).isNone) ext
      rw [hdrop] at hhead
      exact hhead
    obtain ⟨j, hj⟩ :=
      Option.isSome_iff_exists.1 (show (letterIndex id).isSome = true by simpa using hid)
    rw [hdrop] at hsplit
    have hletter := @selects_of_letter sniffer width hfits _ behind id j hfront hj
    rw [hsplit] at hletter
    simp only [hletter, hj]

end

/-- **Key columns** are selected right unless a letter is in the way. -/
theorem selects_iff (sheet : DataSheet) (database : Bool) (schema : Option SheetSchema)
    (stat : Int × List ColumnType) (suggest : Int) (ext : List String) :
    (sniff sheet database schema stat suggest).sniffer.Selects sheet.width ext ↔
      (sniff sheet database schema stat suggest).sniffer.Harmless sheet.width ext :=
  selects_iff_harmless (sniff_fits sheet database schema stat suggest) ext

/-- Both ids denote a column, and the second is not looked at. -/
theorem not_selects : ¬ ∀ (sheet : DataSheet) (database : Bool) (schema : Option SheetSchema)
    (stat : Int × List ColumnType) (suggest : Int) (ext : List String),
      (sniff sheet database schema stat suggest).sniffer.Selects sheet.width ext := by
  intro h
  have hselects := h twoColumns false none (-1, []) (-1) ["A", "B"]
  exact absurd (hselects.1.2 (by decide +kernel)) (by decide +kernel)

end NameSniffer

end Coopy
