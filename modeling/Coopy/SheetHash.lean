import Coopy.PolySheet
import Mathlib.Data.List.Basic
import Mathlib.Logic.Equiv.Basic

/-!
# The hash of a sheet

`DataSheet::getHash` feeds a digest with one text: the cells row by row, each behind an `X`, with
nothing between rows.  An `X` inside a cell reads the same.  What the text keeps is therefore the
list of pieces between the `X`s:

    hashText a = hashText b ↔ pieces a = pieces b                                  (hashText_eq_iff)

Two sheets with the same pieces are the same only if they also have the same size and each cell as
many `X`s as its counterpart (`getHash_sound_iff`).
-/

namespace Coopy

namespace TypedSheet

/-! ## The text that is hashed -/

/-- One row, from `dh` rows down. -/
def hashRow (s : TypedSheet SheetCell) (dh y : Nat) : String :=
  (List.range s.width).foldl (fun txt x =>
    let cell := s.cell x (y + dh)
    if cell.escaped then txt ++ "N" else txt ++ "X" ++ cell.text) ""

/-- All that `getHash` gives to the digest, in a view from `dh` rows down. -/
def hashText (s : TypedSheet SheetCell) (dh : Nat) : String :=
  (List.range (s.height - dh)).foldl (fun txt y => txt ++ s.hashRow dh y) ""

/-- No cell is NULL. -/
def NullFree (s : TypedSheet SheetCell) : Prop :=
  ∀ x < s.width, ∀ y < s.height, (s.cell x y).escaped = false

instance (s : TypedSheet SheetCell) : Decidable s.NullFree := by
  unfold NullFree
  infer_instance

/-- Equal sizes, and equal cells everywhere. -/
def Same (a b : TypedSheet SheetCell) : Prop :=
  a.width = b.width ∧ a.height = b.height ∧ ∀ x < a.width, ∀ y < a.height, a.cell x y = b.cell x y

instance (a b : TypedSheet SheetCell) : Decidable (Same a b) := by
  unfold Same
  infer_instance

/-- The text of a cell. -/
def chars (s : TypedSheet SheetCell) (x y : Nat) : List Char := (s.cell x y).text.toList

/-- The texts of the cells, row by row. -/
def texts (s : TypedSheet SheetCell) : List (List Char) :=
  (List.range s.height).flatMap fun y => (List.range s.width).map fun x => s.chars x y

/-- The texts of the cells, cut at every `X`. -/
def pieces (s : TypedSheet SheetCell) : List (List Char) := s.texts.flatMap (List.splitOn 'X')

theorem toList_foldl_append {β : Type} (g : β → String) (acc : String) (l : List β) :
    (l.foldl (fun txt b => txt ++ g b) acc).toList = acc.toList ++ l.flatMap fun b =>
    (g b).toList := by
  induction l generalizing acc with
  | nil => simp
  | cons b l ih =>
    rw [List.foldl_cons, ih, String.toList_append, List.flatMap_cons, List.append_assoc]

section
variable {s : TypedSheet SheetCell} (hs : s.NullFree)

include hs

theorem toList_hashRow {y : Nat} (hy : y < s.height) :
    (s.hashRow 0 y).toList = (List.range s.width).flatMap fun x => 'X' :: s.chars x y := by
  have hfold :
    s.hashRow 0 y = (List.range s.width).foldl (fun txt x => txt ++ ("X" ++ (s.cell x y).text))
    "" := by
    unfold hashRow
    apply List.foldl_ext
    intro txt x hx
    simp only [Nat.add_zero]
    rw [if_neg (by rw [hs x (List.mem_range.1 hx) y hy]; exact Bool.false_ne_true),
      String.append_assoc]
  rw [hfold, toList_foldl_append]
  simp [chars, String.toList_append]

theorem toList_hashText : (s.hashText 0).toList = s.texts.flatMap (List.cons 'X') := by
  unfold hashText texts
  rw [toList_foldl_append, List.flatMap_assoc]
  simp only [String.toList_empty, List.nil_append, Nat.sub_zero]
  apply List.flatMap_congr
  intro y hy
  rw [toList_hashRow hs (List.mem_range.1 hy), List.flatMap_map]

end

/-! ## Pieces -/

theorem splitOn_append_marked (m : Char) (p : List Char) (ts : List (List Char)) :
    (p ++ ts.flatMap (List.cons m)).splitOn m = p.splitOn m ++ ts.flatMap (List.splitOn m) := by
  induction ts generalizing p with
  | nil => simp
  | cons t ts ih =>
    rw [List.flatMap_cons, List.cons_append, List.splitOn_append_cons_self, ih, List.flatMap_cons]

theorem splitOn_injective (m : Char) : Function.Injective (List.splitOn m) :=
  Function.LeftInverse.injective fun _ => List.intercalate_splitOn m

theorem length_splitOn (m : Char) (t : List Char) : (t.splitOn m).length = t.count m + 1 := by
  induction t with
  | nil => rfl
  | cons c t ih =>
    rw [List.splitOn_cons_eq_if_modifyHead, List.count_cons]
    split
    · rw [List.length_cons, ih]
    · rw [List.length_modifyHead, ih]

/-- The pieces of several texts tell the texts, once it is known how many pieces each has. -/
theorem eq_of_flatMap_splitOn {m : Char} {ts us : List (List Char)}
    (hcount : ts.map (List.count m) = us.map (List.count m))
    (h : ts.flatMap (List.splitOn m) = us.flatMap (List.splitOn m)) : ts = us := by
  induction ts generalizing us with
  | nil =>
    rw [List.map_nil, eq_comm, List.map_eq_nil_iff] at hcount
    exact hcount.symm
  | cons t ts ih =>
    cases us with
    | nil => simp at hcount
    | cons u us =>
      simp only [List.map_cons, List.cons.injEq] at hcount
      rw [List.flatMap_cons, List.flatMap_cons] at h
      have hlen : (t.splitOn m).length = (u.splitOn m).length := by
        rw [length_splitOn, length_splitOn, hcount.1]
      obtain ⟨h1, h2⟩ := List.append_inj h hlen
      rw [splitOn_injective m h1, ih hcount.2 h2]

theorem forall_eq_of_flatMap_eq {β γ : Type} {f g : β → List γ} {l : List β}
    (hlen : ∀ b ∈ l, (f b).length = (g b).length) (h : l.flatMap f = l.flatMap g) :
    ∀ b ∈ l, f b = g b := by
  induction l with
  | nil => simp
  | cons b l ih =>
    rw [List.flatMap_cons, List.flatMap_cons] at h
    obtain ⟨h1, h2⟩ := List.append_inj h (hlen b List.mem_cons_self)
    intro c hc
    rcases List.mem_cons.1 hc with rfl | hc
    · exact h1
    · exact ih (fun d hd => hlen d (List.mem_cons_of_mem b hd)) h2 c hc

/-- **What the hashed text keeps**: the pieces between the marks. -/
theorem hashText_eq_iff {a b : TypedSheet SheetCell} (ha : a.NullFree) (hb : b.NullFree) :
    a.hashText 0 = b.hashText 0 ↔ a.pieces = b.pieces := by
  rw [← String.toList_inj, toList_hashText ha, toList_hashText hb, ← (splitOn_injective 'X').eq_iff,
    ← List.nil_append (List.flatMap _ a.texts), ← List.nil_append (List.flatMap _ b.texts),
    splitOn_append_marked, splitOn_append_marked, List.append_cancel_left_eq]
  rfl

/-- As many marks in each cell as in its counterpart. -/
def SameMarks (a b : TypedSheet SheetCell) : Prop :=
  ∀ x < a.width, ∀ y < a.height, (a.chars x y).count 'X' = (b.chars x y).count 'X'

instance (a b : TypedSheet SheetCell) : Decidable (SameMarks a b) := by
  unfold SameMarks
  infer_instance

theorem map_texts_congr {β : Type} {a b : TypedSheet SheetCell} (hw : a.width = b.width)
    (hh : a.height = b.height)
    {f : List Char → β} (h : ∀ x < a.width, ∀ y < a.height, f (a.chars x y) = f (b.chars x y)) :
    a.texts.map f = b.texts.map f := by
  unfold texts
  rw [List.map_flatMap, List.map_flatMap, ← hw, ← hh]
  apply List.flatMap_congr
  intro y hy
  rw [List.map_map, List.map_map]
  apply List.map_congr_left
  intro x hx
  exact h x (List.mem_range.1 hx) y (List.mem_range.1 hy)

theorem chars_eq_of_texts_eq {a b : TypedSheet SheetCell} (hw : a.width = b.width)
    (hh : a.height = b.height)
    (h : a.texts = b.texts) {x y : Nat} (hx : x < a.width) (hy : y < a.height) :
    a.chars x y = b.chars x y := by
  unfold texts at h
  rw [← hw, ← hh] at h
  have hrow := forall_eq_of_flatMap_eq (fun y _ => by rw [List.length_map, List.length_map]) h y
    (List.mem_range.2 hy)
  exact List.map_inj_left.1 hrow x (List.mem_range.2 hx)

/-- **Equal pieces, sizes and marks**: the sheets are the same. -/
theorem same_of_pieces {a b : TypedSheet SheetCell} (ha : a.NullFree) (hb : b.NullFree)
    (hpieces : a.pieces = b.pieces) (hw : a.width = b.width) (hh : a.height = b.height)
    (hm : SameMarks a b) : Same a b := by
  have htexts : a.texts = b.texts := eq_of_flatMap_splitOn (map_texts_congr hw hh hm) hpieces
  refine ⟨hw, hh, fun x hx y hy => ?_⟩
  have hchars := chars_eq_of_texts_eq hw hh htexts hx hy
  have htext : (a.cell x y).text = (b.cell x y).text := String.toList_inj.1 hchars
  have hea := ha x hx y hy
  have heb := hb x (hw ▸ hx) y (hh ▸ hy)
  cases hca : a.cell x y with
  | mk ta ea =>
    cases hcb : b.cell x y with
    | mk tb eb =>
      rw [hca] at htext hea
      rw [hcb] at htext heb
      simp only at htext hea heb
      rw [htext, hea, heb]

/-! ## Sheets that show the same pieces -/

/-- One column, and one row, with the given texts. -/
def ofColumn (ts : List (List Char)) : TypedSheet SheetCell where
  arr := ts.map fun t => [⟨String.ofList t, false⟩]
  w := 1
  zero := ⟨"", false⟩

@[inherit_doc ofColumn]
def ofRow (ts : List (List Char)) : TypedSheet SheetCell where
  arr := [ts.map fun t => ⟨String.ofList t, false⟩]
  w := ts.length
  zero := ⟨"", false⟩

theorem cell_ofColumn (ts : List (List Char)) (y : Nat) :
    (ofColumn ts).cell 0 y = ⟨String.ofList (ts.getD y []), false⟩ := by
  unfold ofColumn cell
  simp only [List.getD_eq_getElem?_getD, List.getElem?_map]
  cases ts[y]? <;> rfl

theorem cell_ofRow (ts : List (List Char)) (x : Nat) :
    (ofRow ts).cell x 0 = ⟨String.ofList (ts.getD x []), false⟩ := by
  unfold ofRow cell
  simp only [List.getD_eq_getElem?_getD, List.getElem?_cons_zero, Option.getD_some,
    List.getElem?_map]
  cases ts[x]? <;> rfl

theorem nullFree_ofColumn (ts : List (List Char)) : (ofColumn ts).NullFree := by
  intro x hx y _
  have hx0 : x = 0 := Nat.lt_one_iff.1 hx
  rw [hx0, cell_ofColumn]

theorem nullFree_ofRow (ts : List (List Char)) : (ofRow ts).NullFree := by
  intro x _ y hy
  have hy0 : y = 0 := Nat.lt_one_iff.1 hy
  rw [hy0, cell_ofRow]

theorem map_getD_range (ts : List (List Char)) :
    (List.range ts.length).map (fun y => ts.getD y []) = ts := by
  apply List.ext_getElem
  · rw [List.length_map, List.length_range]
  · intro i h1 h2
    rw [List.getElem_map, List.getElem_range, List.getD_eq_getElem _ _ h2]

theorem texts_ofColumn (ts : List (List Char)) : (ofColumn ts).texts = ts := by
  have hh : (ofColumn ts).height = ts.length := List.length_map _
  have hrow : ∀ y, ((List.range (ofColumn ts).width).map fun x => (ofColumn ts).chars x y) =
    [ts.getD y []] := by
    intro y
    show [(ofColumn ts).chars 0 y] = _
    rw [chars, cell_ofColumn, String.toList_ofList]
  unfold texts
  simp only [hrow]
  rw [hh, ← List.map_eq_flatMap, map_getD_range]

theorem texts_ofRow (ts : List (List Char)) : (ofRow ts).texts = ts := by
  have hcell : ∀ x, (ofRow ts).chars x 0 = ts.getD x [] := by
    intro x
    rw [chars, cell_ofRow, String.toList_ofList]
  show ((List.range ts.length).map fun x => (ofRow ts).chars x 0) ++ [] = ts
  simp only [hcell]
  rw [List.append_nil, map_getD_range]

/-- One cell, and no mark in it. -/
def Single (a : TypedSheet SheetCell) : Prop := a.width = 1 ∧ a.height = 1 ∧ 'X' ∉ a.chars 0 0

theorem texts_of_size_one {a : TypedSheet SheetCell} (hw : a.width = 1) (hh : a.height = 1) :
    a.texts = [a.chars 0 0] := by
  unfold texts
  rw [hw, hh]
  rfl

theorem length_texts (a : TypedSheet SheetCell) : a.texts.length = a.height * a.width := by
  unfold texts
  rw [List.length_flatMap]
  simp

theorem length_texts_le_pieces (a : TypedSheet SheetCell) : a.texts.length ≤ a.pieces.length := by
  unfold pieces
  induction a.texts with
  | nil => simp
  | cons t ts ih =>
    rw [List.flatMap_cons, List.length_append, List.length_cons, length_splitOn]
    omega

/-- A single cell without a mark shares its pieces with no other sheet. -/
theorem Single.unique {a b : TypedSheet SheetCell} (h : Single a) (hb : a.pieces = b.pieces) :
    b.width = 1 ∧ b.height = 1 ∧ 'X' ∉ b.chars 0 0 := by
  obtain ⟨hw, hh, hx⟩ := h
  have hone : b.pieces.length = 1 := by
    rw [← hb, pieces, texts_of_size_one hw hh, List.flatMap_singleton, List.splitOn_eq_singleton hx]
    rfl
  have hne : b.texts ≠ [] := by
    intro hnil
    rw [pieces, hnil] at hone
    exact Nat.zero_ne_one hone
  have hpos : 0 < b.texts.length := List.length_pos_iff.2 hne
  have hle := length_texts_le_pieces b
  have hmul : b.height * b.width = 1 := by
    rw [← length_texts]
    omega
  have hbh : b.height = 1 := Nat.eq_one_of_mul_eq_one_right hmul
  have hbw : b.width = 1 := Nat.eq_one_of_mul_eq_one_left hmul
  refine ⟨hbw, hbh, ?_⟩
  rw [pieces, texts_of_size_one hbw hbh, List.flatMap_singleton, length_splitOn] at hone
  exact List.count_eq_zero.1 (by omega)

/-- **Only a single cell** without a mark is told from every other sheet. -/
theorem single_iff {a : TypedSheet SheetCell} (ha : a.NullFree) :
    (∀ b : TypedSheet SheetCell, b.NullFree → a.pieces = b.pieces → Same a b) ↔ Single a := by
  constructor
  · intro h
    obtain ⟨hw, _, _⟩ :=
      h (ofColumn a.texts) (nullFree_ofColumn _) (by rw [pieces, pieces, texts_ofColumn])
    obtain ⟨_, hh, _⟩ := h (ofRow a.texts) (nullFree_ofRow _) (by rw [pieces, pieces, texts_ofRow])
    have hw : a.width = 1 := hw
    have hh : a.height = 1 := hh
    refine ⟨hw, hh, fun hx => ?_⟩
    -- cut at the mark, the cell is two cells
    obtain ⟨p, q, hpq⟩ := List.append_of_mem hx
    have hsplit : a.pieces = (ofRow [p, q]).pieces := by
      rw [pieces, pieces, texts_ofRow, texts_of_size_one hw hh, hpq]
      simp only [List.flatMap_cons, List.flatMap_nil, List.append_nil]
      rw [List.splitOn_append_cons_self]
    obtain ⟨hw2, _, _⟩ := h (ofRow [p, q]) (nullFree_ofRow _) hsplit
    have htwo : a.width = 2 := hw2
    omega
  · intro hs b hb hpieces
    obtain ⟨hbw, hbh, hbx⟩ := hs.unique hpieces
    refine same_of_pieces ha hb hpieces (hs.1.trans hbw.symm) (hs.2.1.trans hbh.symm) ?_
    intro x hx y hy
    rw [hs.1] at hx
    rw [hs.2.1] at hy
    obtain ⟨rfl, rfl⟩ : x = 0 ∧ y = 0 := by omega
    rw [List.count_eq_zero.2 hs.2.2, List.count_eq_zero.2 hbx]

/-! ## `getHash` -/

/-- `DataSheet::getRawHash`. -/
def getRawHash (_ : TypedSheet SheetCell) : String := ""

section
variable (sha1 : String → String)

/-- `DataSheet::getHash`, in a view from `dh` rows down: the hash, and the cache after it. -/
def getHash (s : TypedSheet SheetCell) (dh : Nat) (hashCache : String) (cache : Bool) :
    String × String :=
  let hashCache := if cache then hashCache else ""
  if hashCache ≠ "" then (hashCache, hashCache)
  else
    let hashCache := s.getRawHash
    if hashCache ≠ "" then (hashCache, hashCache)
    else
      let key := sha1 (s.hashText dh)
      (key, if cache then key else hashCache)

theorem getHash_fresh (s : TypedSheet SheetCell) (dh : Nat) (cache : Bool) :
    (s.getHash sha1 dh "" cache).1 = sha1 (s.hashText dh) := by
  cases cache <;> rfl

/-- Equal hashes mean equal sheets. -/
def HashSound (cache : Bool) (a b : TypedSheet SheetCell) : Prop :=
  (a.getHash sha1 0 "" cache).1 = (b.getHash sha1 0 "" cache).1 → Same a b

/-- **What equal hashes say.**  With a digest that tells all texts apart, two sheets are told apart
by their hashes exactly when equal pieces come with equal sizes and marks.  So a sheet is told from
all others only if it has one cell and no mark in it. -/
theorem getHash_sound_iff (hsha1 : Function.Injective sha1) (cache : Bool)
    (a : TypedSheet SheetCell) (ha : a.NullFree) :
    (∀ b : TypedSheet SheetCell, b.NullFree →
      (HashSound sha1 cache a b ↔
        (a.pieces = b.pieces → a.width = b.width ∧ a.height = b.height ∧ SameMarks a b))) ∧
    ((∀ b : TypedSheet SheetCell, b.NullFree → HashSound sha1 cache a b) ↔ Single a) := by
  have hpieces : ∀ b : TypedSheet SheetCell, b.NullFree →
      (HashSound sha1 cache a b ↔ (a.pieces = b.pieces → Same a b)) := by
    intro b hb
    unfold HashSound
    rw [getHash_fresh, getHash_fresh, hsha1.eq_iff, hashText_eq_iff ha hb]
  constructor
  · intro b hb
    rw [hpieces b hb]
    constructor
    · intro h hp
      obtain ⟨hw, hh, hcell⟩ := h hp
      refine ⟨hw, hh, fun x hx y hy => ?_⟩
      rw [chars, chars, hcell x hx y hy]
    · intro h hp
      obtain ⟨hw, hh, hm⟩ := h hp
      exact same_of_pieces ha hb hp hw hh hm
  · rw [← single_iff ha]
    exact forall_congr' fun b =>
      ⟨fun h hb => (hpieces b hb).1 (h hb), fun h hb => (hpieces b hb).2 (h hb)⟩

end

/-- The one cell `a`, with its digest. -/
theorem getHash_sound_iff_cell :
    (ofRow [['a']]).NullFree ∧ ∀ b : TypedSheet SheetCell, b.NullFree →
      HashSound (Equiv.swap "Xa" "36aecfb10b92898886fd60af83ab02f154effa37") true
        (ofRow [['a']]) b := by
  have ha : (ofRow [['a']]).NullFree := by decide
  exact ⟨ha, (getHash_sound_iff _ (Equiv.injective _) true (ofRow [['a']]) ha).2.2
    (by unfold Single; decide)⟩

/-- Cells `aXb`, `c` and `a`, `bXc`: one row of two columns each, the same hash, and no cell the
same. -/
theorem getHash_not_sound :
    (ofRow ["aXb".toList, "c".toList]).NullFree ∧ (ofRow ["a".toList, "bXc".toList]).NullFree ∧
    (∀ sha1 cache, ((ofRow ["aXb".toList, "c".toList]).getHash sha1 0 "" cache).1 =
      ((ofRow ["a".toList, "bXc".toList]).getHash sha1 0 "" cache).1) ∧
    ¬Same (ofRow ["aXb".toList, "c".toList]) (ofRow ["a".toList, "bXc".toList]) := by
  refine ⟨by decide, by decide, fun sha1 cache => ?_, by decide⟩
  rw [getHash_fresh, getHash_fresh]
  congr 1

end TypedSheet

end Coopy
