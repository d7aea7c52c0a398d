import Coopy.JsonBook
import Mathlib.Tactic.IntervalCases

/-!
# A book rendered to JSON and read back

A cell of an integer column goes through `atoi` and `%d`, all others come back as they are.  A book
with a sheet `names` and a sheet `tables` is read as if it were of the other layout, and has no
sheets then.

    the text of an integer comes back ↔ it is how a number of 32 bits is written    (asInt32_eq_iff)
    the book comes back ↔ `Holds`                                                      (returns_iff)
-/

namespace Coopy

open Lib

/-! ## Numbers as texts -/

namespace SheetCell

theorem leadingNat_append {xs : List Char} (h : ∀ c ∈ xs, c.isDigit = true) (ys : List Char)
    (n : Nat) : leadingNat n (xs ++ ys) = leadingNat (leadingNat n xs) ys := by
  induction xs generalizing n with
  | nil => rfl
  | cons c xs ih =>
    have hc : '0' ≤ c ∧ c ≤ '9' := by simpa [Char.isDigit, Char.le_def] using h c List.mem_cons_self
    rw [List.cons_append, leadingNat, if_pos hc, leadingNat, if_pos hc]
    exact ih (fun d hd => h d (List.mem_cons_of_mem _ hd)) _

theorem leadingNat_digit : ∀ d < 10, ∀ n, leadingNat n [Nat.digitChar d] = 10 * n + d := by
  intro d hd n
  interval_cases d <;> simp [leadingNat, Nat.digitChar]

theorem leadingNat_toDigits (n : Nat) : leadingNat 0 (Nat.toDigits 10 n) = n := by
  induction n using Nat.strong_induction_on with
  | _ n ih =>
    by_cases hn : n < 10
    · rw [Nat.toDigits_of_lt_base hn, leadingNat_digit n hn]
      omega
    · rw [Nat.toDigits_of_base_le (by decide) (by omega), leadingNat_append, ih (n / 10) (by omega),
        leadingNat_digit _ (Nat.mod_lt _ (by decide))]
      · omega
      · exact fun c hc => Nat.isDigit_of_mem_toDigits (by decide) (by decide) hc

theorem toList_repr (n : Nat) : n.repr.toList = Nat.toDigits 10 n := by
  rw [Nat.repr_eq_ofList_toDigits, String.toList_ofList]

/-- The head of a number's text is a digit. -/
theorem toDigits_head (n : Nat) : ∃ c cs, Nat.toDigits 10 n = c :: cs ∧ c.isDigit = true := by
  obtain ⟨c, cs, hcs⟩ := List.exists_cons_of_ne_nil (Nat.toDigits_ne_nil (n := n) (b := 10))
  exact ⟨c, cs, hcs, Nat.isDigit_of_mem_toDigits (by decide) (by decide) (hcs ▸ List.mem_cons_self)⟩

theorem atoi_repr (n : Nat) : atoi n.repr = n := by
  obtain ⟨c, cs, hcs, hc⟩ := toDigits_head n
  have hspace : c ∉ [' ', '\t', '\n', '\x0b', '\x0c', '\r'] := by
    intro hm
    simp only [List.mem_cons, List.not_mem_nil, or_false] at hm
    rcases hm with rfl | rfl | rfl | rfl | rfl | rfl <;> cases hc
  have hdrop : (c :: cs).dropWhile (fun c => decide (c ∈ [' ', '\t', '\n', '\x0b', '\x0c', '\r'])) =
    c :: cs := List.dropWhile_cons_of_neg (by simpa using hspace)
  rw [atoi, toList_repr, hcs, hdrop]
  split
  · next h =>
    cases h
    cases hc
  · next h =>
    cases h
    cases hc
  · rw [← hcs, leadingNat_toDigits]

theorem atoi_neg (n : Nat) : atoi ("-" ++ n.repr) = -(n : Int) := by
  have htext : ("-" ++ n.repr).toList = '-' :: Nat.toDigits 10 n := by
    rw [String.toList_append, toList_repr]
    rfl
  have hdrop :
    ('-' :: Nat.toDigits 10 n).dropWhile
      (fun c => decide (c ∈ [' ', '\t', '\n', '\x0b', '\x0c', '\r'])) =
      '-' :: Nat.toDigits 10 n := List.dropWhile_cons_of_neg (by decide)
  rw [atoi, htext, hdrop]
  simp [leadingNat_toDigits]

/-- A number is read as it is written. -/
theorem atoi_toString (n : Int) : atoi (ToString.toString n) = n := by
  rw [Int.toString_eq_repr, Int.repr_eq_if]
  split
  · rw [atoi_repr]
    omega
  · rw [atoi_neg]
    omega

end SheetCell

/-- The numbers of 32 bits. -/
def IsInt32 (n : Int) : Prop := -2 ^ 31 ≤ n ∧ n < 2 ^ 31

theorem isInt32_wrapInt (n : Int) : IsInt32 (wrapInt n) := by
  have hlow := Int.le_bmod (x := max (-2 ^ 63) (min n (2 ^ 63 - 1))) (m := 2 ^ 32) (by decide)
  have hhigh := Int.bmod_lt (x := max (-2 ^ 63) (min n (2 ^ 63 - 1))) (m := 2 ^ 32) (by decide)
  unfold IsInt32 wrapInt
  omega

theorem wrapInt_of_isInt32 {n : Int} (h : IsInt32 n) : wrapInt n = n := by
  obtain ⟨hlow, hhigh⟩ := h
  have hclamp : max (-2 ^ 63) (min n (2 ^ 63 - 1)) = n := by omega
  rw [wrapInt, hclamp]
  exact Int.bmod_eq_of_le (by omega) (by omega)

/-- A text is how a number of 32 bits is written. -/
def IsIntText (text : String) : Prop := ∃ n, IsInt32 n ∧ text = toString n

/-- **A text as a number and back.** -/
theorem asInt32_eq_iff {c : SheetCell} (h : c.escaped = false) : toString c.asInt32 = c.text ↔
    IsIntText c.text := by
  have hint : c.asInt32 = wrapInt (SheetCell.atoi c.text) := by
    rw [SheetCell.asInt32, SheetCell.asInt, h]
    rfl
  rw [hint]
  constructor
  · exact fun he => ⟨_, isInt32_wrapInt _, he.symm⟩
  · rintro ⟨n, hn, htext⟩
    rw [htext, SheetCell.atoi_toString, wrapInt_of_isInt32 hn]

/-! ## Rows -/

namespace JsonBook

/-- The value of a cell in a row. -/
def cellValue (hasNames : Bool) (info : JsonColumn) (c : SheetCell) : Json :=
  if c.escaped then .null else if hasNames then cellToJson c info else .string c.text

/-- A cell comes back. -/
def CellHolds (hasNames : Bool) (info : JsonColumn) (c : SheetCell) : Prop :=
  hasNames = true → info.family = .integer → c.escaped = false → IsIntText c.text

theorem value?_readCell (hasNames : Bool) (info : JsonColumn) (c : SheetCell) :
    (readCell (cellValue hasNames info c)).value? = some c.value? ↔ CellHolds hasNames info c := by
  unfold cellValue CellHolds
  cases hc : c.escaped with
  | true => simp [readCell, FoldedCell.value?, SheetCell.value?, hc]
  | false =>
    cases hasNames with
    | false => simp [readCell, FoldedCell.value?, SheetCell.value?, hc]
    | true =>
      unfold cellToJson
      by_cases hf : info.family = .integer
      · have hiff := asInt32_eq_iff hc
        simp only [Bool.false_eq_true, if_false, if_true, hf, readCell, FoldedCell.value?,
          SheetCell.value?, hc, Option.some.injEq, forall_const]
        exact hiff
      · simp [readCell, FoldedCell.value?, SheetCell.value?, hc, hf]

/-- **A row**, as its values in the order of the columns. -/
theorem rowItems_writeRow {cols : List JsonColumn} (hd : (cols.map (·.name)).Nodup)
    {row : List SheetCell} (hlen : row.length = cols.length) (hasNames : Bool) :
    rowItems (some (cols.map (·.name))) (writeRow hasNames cols row) =
      some ((cols.zip row).map fun e => cellValue hasNames e.1 e.2) := by
  unfold writeRow
  cases hasNames with
  | false =>
    have hrow : (cols.zip row).map Prod.snd = row := by rw [List.map_snd_zip (by omega)]
    conv_lhs => rw [← hrow, List.map_map]
    rfl
  | true =>
    let entries : AssocMap String Json :=
      (cols.zip row).map fun e => (e.1.name, cellValue true e.1 e.2)
    have hcols : (cols.zip row).map Prod.fst = cols := List.map_fst_zip (by omega)
    have hkeys : (AssocMap.keys entries).Nodup := by
      have hfst : AssocMap.keys entries = ((cols.zip row).map Prod.fst).map (·.name) := by
        rw [AssocMap.keys, List.map_map, List.map_map]
        rfl
      rwa [hfst, hcols]
    have hfold : (cols.zip row).foldl (fun (m : AssocMap String Json) e =>
        m.set e.1.name (if e.2.escaped then .null else cellToJson e.2 e.1)) [] = entries := by
      have := AssocMap.foldl_set entries [] hkeys (by simp [AssocMap.keys])
      rw [List.foldl_map] at this
      exact this
    have hitems : (cols.map (·.name)).map (Json.member entries) = (cols.zip row).map fun e =>
      cellValue true e.1 e.2 := by
      conv_lhs => rw [← hcols, List.map_map, List.map_map]
      refine List.map_congr_left fun e he => ?_
      show Json.member entries e.1.name = _
      rw [Json.member, AssocMap.get?_of_mem hkeys (List.mem_map.2 ⟨e, he, rfl⟩)]
      rfl
    rw [if_pos rfl, hfold]
    exact congrArg some hitems

theorem modify_last {α : Type} (pre : List α) (r : α) (f : α → α) :
    (pre ++ [r]).modify pre.length f = pre ++ [f r] := by
  induction pre with
  | nil => rfl
  | cons a pre ih => exact congrArg (a :: ·) ih

/-- The cells of a row, put in from the left. -/
theorem foldl_setCell (items : List Json) (k : Nat) (sheet : TypedSheet FoldedCell)
    {pre : List (List FoldedCell)} {before todo : List FoldedCell} (hk : before.length = k)
    (harr : sheet.arr = pre ++ [before ++ todo]) (hlen : todo.length = items.length) :
    (items.zipIdx k).foldl (fun sheet e => sheet.setCell e.2 pre.length (readCell e.1)) sheet =
      { sheet with arr := pre ++ [before ++ items.map readCell] } := by
  induction items generalizing k sheet before todo with
  | nil =>
    rw [List.length_eq_zero_iff.1 hlen] at harr
    rw [List.zipIdx_nil, List.foldl_nil, List.map_nil, ← harr]
  | cons j items ih =>
    cases todo with
    | nil => cases hlen
    | cons c todo =>
      have hset :
        (sheet.setCell k pre.length (readCell j)).arr = pre ++
        [(before ++ [readCell j]) ++ todo] := by
        rw [TypedSheet.setCell, harr, modify_last]
        simp [← hk]
      have hrest :=
        ih (k + 1) (sheet.setCell k pre.length (readCell j)) (by simp [hk]) hset
          (by simpa using hlen)
      rw [List.zipIdx_cons, List.foldl_cons, hrest]
      simp [TypedSheet.setCell]

/-- **All rows.** -/
theorem readPart_rows {schema : Option (List String)} {rows : List Json} {w : Nat}
    {items : List (List Json)}
    (hrows : rows.map (rowItems schema) = items.map some) (hw : ∀ r ∈ items, r.length = w) :
    (readPart schema rows).arr = items.map (List.map readCell) := by
  -- after some rows the sheet has these, and is as wide as the first of them
  have hgen :
    ∀ (n : Nat) (rows : List Json) (items : List (List Json)) (sheet : TypedSheet FoldedCell),
      rows.map (rowItems schema) = items.map some → (∀ r ∈ items, r.length = w) →
      sheet.arr.length = n → (0 < n → sheet.w = w) →
      (rows.foldl (readRow schema) (sheet, n)).1.arr = sheet.arr ++
      items.map (List.map readCell) := by
    intro n rows
    induction rows generalizing n with
    | nil =>
      intro items sheet hrows _ _ _
      rw [List.map_eq_nil_iff.1 hrows.symm]
      simp
    | cons row rows ih =>
      intro items sheet hrows hw hlen hwidth
      cases items with
      | nil => cases hrows
      | cons cols items =>
        obtain ⟨hrow, hrest⟩ := List.cons.inj hrows
        have hcols := hw cols List.mem_cons_self
        have hstep : ∃ sheet' : TypedSheet FoldedCell, readRow schema (sheet, n) row =
          (sheet', n + 1) ∧
            sheet'.arr = sheet.arr ++ [cols.map readCell] ∧ sheet'.w = w := by
          unfold readRow
          rw [hrow]
          by_cases hn : n = 0
          · subst hn
            have harr : sheet.arr = [] := List.length_eq_zero_iff.1 hlen
            have hcells : cols.zipIdx.foldl (fun sheet e => sheet.setCell e.2 0 (readCell e.1))
                ({ sheet with zero := zero }.resize cols.length 1) =
                  ⟨[cols.map readCell], cols.length, zero⟩ :=
              @foldl_setCell cols 0 ({ sheet with zero := zero }.resize cols.length 1) [] []
                (List.replicate cols.length zero)
                rfl rfl (by simp)
            refine ⟨_, rfl, ?_, ?_⟩
            · rw [if_pos rfl, hcells, harr]
              rfl
            · rw [if_pos rfl, hcells]
              exact hcols
          · have hw' := hwidth (by omega)
            have hins :
              (sheet.insertRow (-1)).1 =
              { sheet with arr := sheet.arr ++ [List.replicate sheet.w sheet.zero] } := by
              unfold TypedSheet.insertRow TypedSheet.height
              rw [if_neg (by omega), if_pos (by decide)]
            have hcells :=
              @foldl_setCell cols 0 (sheet.insertRow (-1)).1 sheet.arr []
              (List.replicate sheet.w sheet.zero)
              rfl (by rw [hins]; rfl) (by simp [hw', hcols])
            rw [hlen] at hcells
            refine ⟨_, rfl, ?_, ?_⟩
            · rw [if_neg hn, hcells]
              rfl
            · rw [if_neg hn, hcells, hins]
              exact hw'
        obtain ⟨sheet', hread, harr, hw'⟩ := hstep
        rw [List.foldl_cons, hread,
          ih (n + 1) items sheet' hrest (fun r hr => hw r (List.mem_cons_of_mem _ hr))
          (by rw [harr]; simp [hlen]) (fun _ => hw'), harr]
        simp
  have := hgen 0 rows items ⟨[], 0, zero⟩ hrows hw rfl (fun h => absurd h (by decide))
  simpa [readPart] using this

/-! ## Sheets -/

/-- The names of the columns are C strings, and the cells come back. -/
structure SheetHolds (s : JsonSheet) (hasNames : Bool) : Prop where
  columns : ∀ n ∈ s.columnNames, '\x00' ∉ n.toList
  cells : ∀ row ∈ s.rows, ∀ e ∈ s.columns.zip row, CellHolds hasNames e.1 e.2

theorem asName_of_not_mem {n : String} (h : '\x00' ∉ n.toList) : asName n = n := by
  rw [asName, cString_of_not_mem h, String.ofList_toList]

theorem not_mem_asName (n : String) : '\x00' ∉ (asName n).toList := by
  rw [asName, String.toList_ofList]
  exact nul_not_mem_cString _

/-- The sheet that is read for a sheet. -/
def readBack (s : JsonSheet) (nestSchema : Bool) : Sheet :=
  ⟨some (s.columnNames.map asName), readPart (some (s.columnNames.map asName))
    (s.rows.map (writeRow (nestSchema && !s.columns.isEmpty) s.columns))⟩

theorem readTable_writePart (s : JsonSheet) (nestSchema : Bool) :
    readTable (writePart s nestSchema) = some (readBack s nestSchema) := by
  have hnames : (s.columns.map fun info => Json.string info.name).map (fun c => asName c.asString) =
    s.columnNames.map asName := by
    rw [JsonSheet.columnNames, List.map_map, List.map_map]
    rfl
  show some
    (Sheet.mk
      (some ((s.columns.map fun info => Json.string info.name).map fun c => asName c.asString))
    (readPart
      (some ((s.columns.map fun info => Json.string info.name).map fun c => asName c.asString))
        _)) = _
  rw [hnames]
  rfl

theorem values_readBack {s : JsonSheet} (nestSchema : Bool)
    (hcols : ∀ n ∈ s.columnNames, '\x00' ∉ n.toList) :
    (readBack s nestSchema).values = s.values.map (List.map some) ↔
      ∀ row ∈ s.rows, ∀ e ∈ s.columns.zip row, CellHolds
        (nestSchema && !s.columns.isEmpty) e.1 e.2 := by
  have hnames : s.columnNames.map asName = s.columns.map (·.name) :=
    map_eq_self_iff.2 fun n hn => asName_of_not_mem (hcols n hn)
  let items : List (List Json) := s.rows.map fun row =>
    (s.columns.zip row).map fun e => cellValue (nestSchema && !s.columns.isEmpty) e.1 e.2
  have hread : (readBack s nestSchema).sheet.arr = items.map (List.map readCell) := by
    refine @readPart_rows _ _ s.columns.length items ?_ ?_
    · rw [hnames, List.map_map, List.map_map]
      exact List.map_congr_left fun row hrow => rowItems_writeRow s.distinct (s.rect row hrow) _
    · intro r hr
      obtain ⟨row, hrow, rfl⟩ := List.mem_map.1 hr
      rw [List.length_map, List.length_zip, s.rect row hrow, Nat.min_self]
  have hrow : ∀ row ∈ s.rows, ((s.columns.zip row).map fun e =>
      (readCell (cellValue (nestSchema && !s.columns.isEmpty) e.1 e.2)).value?) =
        row.map (fun c => some c.value?) ↔
        ∀ e ∈ s.columns.zip row, CellHolds (nestSchema && !s.columns.isEmpty) e.1 e.2 := by
    intro row hrow
    have hsnd : row.map (fun c => some c.value?) = (s.columns.zip row).map fun e =>
      some e.2.value? := by
      have hzip : (s.columns.zip row).map Prod.snd = row :=
        List.map_snd_zip (by rw [s.rect row hrow])
      conv_lhs => rw [← hzip, List.map_map]
      rfl
    rw [hsnd, List.map_inj_left]
    exact forall₂_congr fun e _ => value?_readCell _ e.1 e.2
  have hvalues : s.values.map (List.map some) = s.rows.map fun row => row.map fun c =>
    some c.value? := by
    rw [JsonSheet.values, List.map_map]
    exact List.map_congr_left fun row _ => List.map_map
  have hback : (readBack s nestSchema).values = s.rows.map fun row =>
    (s.columns.zip row).map fun e =>
      (readCell (cellValue (nestSchema && !s.columns.isEmpty) e.1 e.2)).value? := by
    rw [Sheet.values, hread, List.map_map, List.map_map]
    refine List.map_congr_left fun row _ => ?_
    simp only [Function.comp_def, List.map_map]
  rw [hvalues, hback, List.map_inj_left]
  exact forall₂_congr hrow

/-- **A sheet comes back.** -/
theorem readBack_iff (s : JsonSheet) (nestSchema : Bool) :
    ((readBack s nestSchema).schema = some s.columnNames ∧
      (readBack s nestSchema).values = s.values.map (List.map some)) ↔
      SheetHolds s (nestSchema && !s.columns.isEmpty) := by
  have hschema : (readBack s nestSchema).schema = some s.columnNames ↔
    ∀ n ∈ s.columnNames, '\x00' ∉ n.toList := by
    show some (s.columnNames.map asName) = some s.columnNames ↔ _
    rw [Option.some.injEq, map_eq_self_iff]
    exact forall₂_congr fun n _ => ⟨fun h => h ▸ not_mem_asName n, asName_of_not_mem⟩
  rw [hschema]
  constructor
  · exact fun h => ⟨h.1, (values_readBack nestSchema h.1).1 h.2⟩
  · exact fun h => ⟨h.columns, (values_readBack nestSchema h.columns).2 h.cells⟩

end JsonBook

/-! ## Books -/

open JsonBook

namespace Book

variable (book : Book) (hash : Option Int)

/-- Rows are written as objects. -/
def nests : Bool := match hash with
  | none => true
  | some h => decide (0 < h)

/-- When the book comes back. -/
structure Holds : Prop where
  layout : ¬ ("names" ∈ book.sheets.map (·.name) ∧ "tables" ∈ book.sheets.map (·.name))
  names : ∀ n ∈ book.sheets.map (·.name), '\x00' ∉ n.toList
  sheets : ∀ s ∈ book.sheets, SheetHolds s (nests hash && !s.columns.isEmpty)

theorem render_eq : render book hash = book.sheets.map fun s =>
    (s.name, writePart s (nests hash)) := by
  let entries : AssocMap String Json := book.sheets.map fun s => (s.name, writePart s (nests hash))
  have hkeys : (AssocMap.keys entries).Nodup := by
    rw [AssocMap.keys, List.map_map]
    exact book.distinct
  have := AssocMap.foldl_set entries [] hkeys (by simp [AssocMap.keys])
  rw [List.foldl_map] at this
  exact this

theorem contains_render (n : String) : (render book hash).contains n = true ↔
    n ∈ book.sheets.map (·.name) := by
  rw [AssocMap.contains, Option.isSome_iff_ne_none, Ne, AssocMap.get?_eq_none_iff, not_not,
    render_eq, AssocMap.keys, List.map_map]
  rfl

/-- The sheets in the order they are read in. -/
def inOrder : List JsonSheet := book.sheets.mergeSort fun s t => decide (s.name ≤ t.name)

theorem inOrder_perm : book.inOrder.Perm book.sheets := List.mergeSort_perm _ _

theorem read_render
    (h : ¬ ("names" ∈ book.sheets.map (·.name) ∧ "tables" ∈ book.sheets.map (·.name))) :
    JsonBook.read (render book hash) = book.inOrder.map fun s =>
    (asName s.name, readBack s (nests hash)) := by
  have hcontains : ((render book hash).contains "names" && (render book hash).contains "tables") =
    false := by
    rw [Bool.and_eq_false_iff]
    by_contra hboth
    rw [not_or, Bool.not_eq_false, Bool.not_eq_false, contains_render, contains_render] at hboth
    exact h hboth
  have horder : Json.inOrder (render book hash) = book.inOrder.map fun s =>
    (s.name, writePart s (nests hash)) := by
    rw [Json.inOrder, render_eq, inOrder, List.map_mergeSort]
    exact fun _ _ _ _ => rfl
  unfold JsonBook.read
  rw [hcontains, if_neg Bool.false_ne_true, horder, List.filterMap_map]
  simp only [Function.comp_def, readTable_writePart, Option.map_some]
  exact congrFun List.filterMap_eq_map book.inOrder

/-- With both names there, no sheet is found. -/
theorem read_otherLayout (h : "names" ∈ book.sheets.map (·.name) ∧
    "tables" ∈ book.sheets.map (·.name)) : JsonBook.read (render book hash) = [] := by
  obtain ⟨s, hs, hname⟩ := List.mem_map.1 h.1
  have hmember : Json.member (render book hash) "names" = writePart s (nests hash) := by
    have hkeys : ((render book hash).keys).Nodup := by
      rw [render_eq, AssocMap.keys, List.map_map]
      exact book.distinct
    have hmem : ("names", writePart s (nests hash)) ∈ render book hash := by
      rw [render_eq]
      exact List.mem_map.2 ⟨s, hs, by rw [hname]⟩
    rw [Json.member, AssocMap.get?_of_mem hkeys hmem]
    rfl
  have hcontains : ((render book hash).contains "names" && (render book hash).contains "tables") =
    true := by
    rw [Bool.and_eq_true, contains_render, contains_render]
    exact h
  unfold JsonBook.read
  rw [hcontains, if_pos rfl, hmember]
  rfl

/-- Under each name its sheet. -/
theorem readSheet_read
    (hlayout : ¬ ("names" ∈ book.sheets.map (·.name) ∧ "tables" ∈ book.sheets.map (·.name)))
    (hnames : ∀ n ∈ book.sheets.map (·.name), '\x00' ∉ n.toList) :
    ∀ s ∈ book.sheets, readSheet (JsonBook.read (render book hash)) s.name =
    some (readBack s (nests hash)) := by
  intro s hs
  have hback : JsonBook.read (render book hash) = book.inOrder.map fun s =>
    (s.name, readBack s (nests hash)) := by
    rw [read_render book hash hlayout]
    refine List.map_congr_left fun s hs => ?_
    rw [asName_of_not_mem (hnames _ (List.mem_map_of_mem (book.inOrder_perm.mem_iff.1 hs)))]
  have hkeys :
    (AssocMap.keys (book.inOrder.map fun s => (s.name, readBack s (nests hash)))).Nodup := by
    rw [AssocMap.keys, List.map_map]
    exact (book.inOrder_perm.map _).nodup_iff.2 book.distinct
  rw [readSheet, hback, AssocMap.get?_foldl_set _ _ _ hkeys,
    AssocMap.get?_of_mem hkeys (List.mem_map.2 ⟨s, book.inOrder_perm.mem_iff.2 hs, rfl⟩)]
  rfl

/-- **When the book comes back.** -/
theorem returns_iff (book : Book) (hash : Option Int) : book.Returns hash ↔ book.Holds hash := by
  have hempty : ("names" ∈ book.sheets.map (·.name) ∧ "tables" ∈ book.sheets.map (·.name)) →
    ¬ book.Returns hash := by
    rintro h ⟨hperm, -⟩
    rw [read_otherLayout book hash h] at hperm
    rw [List.map_nil, List.nil_perm] at hperm
    rw [hperm] at h
    cases h.1
  constructor
  · intro h
    have hlayout := mt (hempty ·) (not_not.2 h)
    have hnames : ∀ n ∈ book.sheets.map (·.name), '\x00' ∉ n.toList := by
      -- what is read has no end mark in a name
      intro n hn
      have hmem := h.1.mem_iff.2 hn
      rw [read_render book hash hlayout, List.map_map] at hmem
      obtain ⟨s, -, rfl⟩ := List.mem_map.1 hmem
      exact not_mem_asName s.name
    refine ⟨hlayout, hnames, fun s hs => (readBack_iff s (nests hash)).1 ?_⟩
    obtain ⟨r, hr, hschema, hvalues⟩ := h.2 s hs
    rw [readSheet_read book hash hlayout hnames s hs, Option.some.injEq] at hr
    subst hr
    exact ⟨hschema, hvalues⟩
  · intro h
    refine ⟨?_, fun s hs => ⟨_, readSheet_read book hash h.layout h.names s hs,
      (readBack_iff s (nests hash)).2 (h.sheets s hs)⟩⟩
    have hnames : (JsonBook.read (render book hash)).map (·.1) = book.inOrder.map (·.name) := by
      rw [read_render book hash h.layout, List.map_map]
      exact List.map_congr_left fun s hs =>
        asName_of_not_mem (h.names _ (List.mem_map_of_mem (book.inOrder_perm.mem_iff.1 hs)))
    rw [hnames]
    exact book.inOrder_perm.map _

/-- A sheet with a number of more than 32 bits in a column of integers. -/
def largeInteger : Book where
  sheets := [{ name := "t", columns := [⟨"population", some "INTEGER"⟩], rows := [[⟨"3000000000", false⟩]]
               distinct := by decide, rect := by decide, hasRows := by decide }]
  distinct := by decide

/-- Another number comes back. -/
theorem largeInteger_wrapped :
    (readSheet (JsonBook.read (render largeInteger none)) "t").map Sheet.values =
        some [[some (some "-1294967296")]] ∧
      ¬ largeInteger.Returns none := by
  have hread : (readSheet (JsonBook.read (render largeInteger none)) "t").map Sheet.values =
        some [[some (some "-1294967296")]] := by
    decide +kernel
  refine ⟨hread, fun h => ?_⟩
  obtain ⟨r, hr, -, hvalues⟩ := h.2 _ (by exact List.mem_singleton_self _)
  rw [show readSheet _ _ = some r from hr, Option.map_some, hvalues] at hread
  revert hread
  decide +kernel

end Book

end Coopy
