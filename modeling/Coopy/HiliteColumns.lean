import Coopy.ColumnScript
import Coopy.Highlighter
import Coopy.PolyColumns
import Coopy.TdiffReader

/-!
# Columns in a highlighted sheet

The first row of a highlighted sheet has a mark for each column that came, went, moved or changed
its name; the second has the names.  A column that moved has one arrow for each place between it and
where it was.  The reader works the old places out from the arrows, and asks `Mover` for the moves,
but from the old order to the new one; it then makes the moves by putting each column at its final
index.

    the moves turn the old order into the new one
      ↔ each name is read as it is, and the placements of the moves agree         (movesBack_iff)
-/

namespace Coopy

open Lib Merger Tdiff

namespace Hilite

/-! ## Reading the columns -/

/-- The text of a cell of the header: its new value, if it has one. -/
def headerName (text : String) : String :=
  let p := TDiffPart.apply text.toList false
  ((p.nval.or p.val).map SheetCell.text).getD ""

def isArrow (ch : Char) : Bool := ch == '<' || ch == '>'

/-- A column as the first two rows have it; `former` is the name in parentheses. -/
structure Column where
  name : String
  former : Option String := none
  status : String := ""
  offset : Int := 0
deriving DecidableEq, Repr

/-- A column by the mark above it; `none` is a failed assertion. -/
def readColumn (act name : String) : Option Column :=
  let haveName := decide ('(' ∈ act.toList)
  let rem := act.toList.dropWhile isArrow
  let arrows := if haveName then act.toList.takeWhile isArrow else act.toList
  if haveName && rem.head? != some '(' then none
  else
    some
      { name
        former := if haveName then some (String.ofList ((rem.drop 1).take (rem.length - 2)))
          else none
        status :=
          if arrows.head? = some '<' ∨ arrows.head? = some '>' then "<>"
          else if act = "+++" ∨ act = "---" then act else ""
        offset :=
          if arrows.head? = some '>' then -arrows.length
            else if arrows.head? = some '<' then arrows.length else 0 }

namespace Column

/-- The name before the patch. -/
def original (c : Column) : String := c.former.getD c.name

/-- `=` for a column with another name, as `nameCol` has it in the end. -/
def edit (c : Column) : String := if c.former.getD "" ≠ "" then "=" else c.status

end Column

/-- The columns that are not new, in the order of the sheet. -/
def present (cols : List Column) : List Column := cols.filter fun c => c.status != "+++"

/-- One round of the loop over the arrows: the column at `root` comes from `offset` places on. -/
def trace (map : List Int) (root : Nat) (c : Column) : Option (List Int) :=
  if c.status ≠ "<>" then some map
  else
    let source := (root : Int) + c.offset
    if 0 ≤ source ∧ source < map.length then
      let moved := map.set source.toNat root
      some (if moved.getD root (-1) = root then moved.set root (map.getD source.toNat (-1))
        else moved)
    else none

/-- The new place of each old one. -/
def indexMap (cols : List Column) : Option (List Int) :=
  (List.range cols.length).foldlM
  (fun map root => trace map root (cols.getD root ⟨"", none, "", 0⟩))
    ((List.range cols.length).map Int.ofNat)

/-- The columns there are when those before `cut` are edited: their names and identities. -/
def editedColumns (cols : List Column) (cut : Nat) : List (String × Int) :=
  (List.range cols.length).filterMap fun k =>
    let c := cols.getD k ⟨"", none, "", 0⟩
    if c.edit = "+++" then if k < cut then some (c.name, -(k + 1 : Int)) else none
    else if c.edit = "---" then if k < cut then none else some (c.name, (k : Int))
    else some (if c.edit = "=" ∧ cut ≤ k then c.original else c.name, (k : Int))

/-- The insertion, deletion or renaming of a column. -/
def editColumn (cols : List Column) (j : Nat) : Option OrderChange :=
  let edit := (cols.getD j ⟨"", none, "", 0⟩).edit
  let mode : Option OrderChangeMode :=
    if edit = "+++" then some .insert else if edit = "---" then some .delete
    else if edit = "=" then some .rename else none
  mode.map fun mode =>
    { indicesBefore := (editedColumns cols j).map Prod.snd
      namesBefore := (editedColumns cols j).map Prod.fst
      indicesAfter := (editedColumns cols (j + 1)).map Prod.snd
      namesAfter := (editedColumns cols (j + 1)).map Prod.fst
      subject := if edit = "+++" then -(j + 1 : Int) else j
      mode }

/-- What the patcher is told of the columns: the old names, if there are marks, the changes, and the
new names. -/
structure ColumnReport where
  declared : Option (List String)
  changes : List OrderChange
  final : List String
deriving DecidableEq, Repr

/-- The marks of the columns and their names; `none` is a failed assertion, a read outside of a
vector, or a call of `exit`. -/
def readColumns (acts : Option (List String)) (header : List String) : Option ColumnReport :=
  match acts with
  | none => some { declared := none, changes := [], final := header.map headerName }
  | some acts =>
    ((acts.zip header).mapM fun e => readColumn e.1 (headerName e.2)).bind fun cols =>
      let old := present cols
      (indexMap old).bind fun map =>
        let base := (List.range old.length).map Int.ofNat
        let names := map.map fun i => (old.getD i.toNat ⟨"", none, "", 0⟩).original
        (moveOrder base map).bind fun order =>
          match movePass base order { localCols := map, localColNames := names } with
          | .error _ => none
          | .ok s =>
            some
              { declared := some names
                changes := s.cc ++ (List.range cols.length).filterMap (editColumn cols)
                final := (cols.filter fun c => c.status != "---").map Column.name }

/-! ## Moves -/

/-- A move of a column before another, or to the end. -/
structure ColumnMove (n : Nat) where
  src : Int
  base : Int
  src_in : 0 ≤ src ∧ src < n
  base_in : -1 ≤ base ∧ base < n

/-- The order of names that moves lead to. -/
def movedNames {n : Nat} (names : List String) (moves : List (ColumnMove n)) : List String :=
  moves.foldl (fun names m => TypedSheet.moveInRow "" names m.src.toNat m.base) names

/-- Distinct names of a sheet, and moves of its columns. -/
structure MovedColumns where
  names : List String
  distinct : names.Nodup
  sheet : TypedSheet SheetCell
  wide : sheet.w = names.length
  moves : List (ColumnMove names.length)

/-- The order that moves lead to, each from where the one before has left off. -/
def leadsTo (names : List String) : List OrderChange → Option (List String)
  | [] => some names
  | change :: changes =>
    if change.mode = .move ∧ change.namesBefore = names then leadsTo change.namesAfter changes
      else none

/-- The report has the old names, and moves from their order to the new one. -/
structure Restores (report : ColumnReport) (old new : List String) : Prop where
  declared : report.declared.getD report.final = old
  moves : leadsTo old report.changes = some new

end Hilite

namespace Highlighter

/-- The first row of the sheet, if a column has a mark. -/
def actionRow (q : Highlighter) : Option (List String) :=
  let marks := (List.range q.patcher.statusCol.width).map fun c => q.patcher.statusCol.cell c 0
  if marks.any (· != "") then some marks else none

def headerRow (q : Highlighter) : List String :=
  (List.range q.patcher.activeCol.width).map fun c => q.patcher.activeCol.cell c 0

/-- A highlighter at work on a sheet, told the names of its columns. -/
def start (sheet : TypedSheet SheetCell) (names : List String) : Option Highlighter :=
  (SheetPatcher.attach sheet names true).bind fun p => declareNames { patcher := p } names

def moveColumns {n : Nat} : List (Hilite.ColumnMove n) → Highlighter → Option Highlighter
  | [], q => some q
  | m :: moves, q => (q.moveColumn m.src m.base).bind fun r => moveColumns moves r.1

end Highlighter

namespace Hilite

namespace MovedColumns

variable (t : MovedColumns)

def permuted : List String := movedNames t.names t.moves

/-- The new place of each old column. -/
def places : List Int := t.names.map fun name => (t.permuted.idxOf name : Int)

def inOrder : List Int := (List.range t.names.length).map Int.ofNat

/-- The marks and names that the highlighter leaves are read as moves from the old order to the new
one. -/
def ReadBack : Prop :=
  ∃ q0 q report, Highlighter.start t.sheet t.names = some q0 ∧ q0.moveColumns t.moves = some q ∧
    readColumns q.actionRow q.headerRow = some report ∧ Restores report t.names t.permuted

end MovedColumns

/-! ## Arrows -/

open Highlighter

/-- What the arrows of a column look like. -/
theorem arrows_eq (k first : Nat) : (arrows k first).toList =
    if first < k then List.replicate (k - first) '>' else List.replicate (first - k) '<' := by
  unfold arrows
  split <;> rw [String.toList_ofList]

theorem arrows_self (k : Nat) : arrows k k = "" := by
  rw [← String.toList_inj, arrows_eq, if_neg (Nat.lt_irrefl k), Nat.sub_self]
  rfl

theorem arrows_eq_empty_iff {k first : Nat} : arrows k first = "" ↔ first = k := by
  refine ⟨fun h => ?_, fun h => h ▸ arrows_self k⟩
  have htext := congrArg String.toList h
  rw [arrows_eq] at htext
  by_contra hne
  split at htext
  · next hlt => exact absurd ((List.replicate_eq_nil_iff _).1 htext) (Nat.sub_ne_zero_of_lt hlt)
  · next hge =>
    have hlt : k < first := by omega
    exact absurd ((List.replicate_eq_nil_iff _).1 htext) (Nat.sub_ne_zero_of_lt hlt)

theorem mem_arrows {k first : Nat} {ch : Char} (h : ch ∈ (arrows k first).toList) :
    ch = '<' ∨ ch = '>' := by
  rw [arrows_eq] at h
  split at h
  · exact Or.inr (List.eq_of_mem_replicate h)
  · exact Or.inl (List.eq_of_mem_replicate h)

theorem readColumn_plain {act : String} (hname : '(' ∉ act.toList) (hadd : act ≠ "+++")
    (hdel : act ≠ "---")
    (name : String) : readColumn act name =
      some
        { name
          status := if act.toList.head? = some '<' ∨ act.toList.head? = some '>' then "<>" else ""
          offset :=
            if act.toList.head? = some '>' then -act.toList.length
            else if act.toList.head? = some '<' then act.toList.length else 0 } := by
  unfold readColumn
  simp only [hname, hadd, hdel, decide_false, Bool.false_and, Bool.false_eq_true, if_false, or_self]

/-- The mark of a column that moved is read as the way back. -/
theorem readColumn_arrows (k first : Nat) (name : String) : readColumn (arrows k first) name =
    some { name, status := if first = k then "" else "<>", offset := (first : Int) - k } := by
  have hname : '(' ∉ (arrows k first).toList := fun h => (mem_arrows h).elim (by decide) (by decide)
  have hadd : arrows k first ≠ "+++" := fun h => by
    have hmem : '+' ∈ (arrows k first).toList := by rw [h]; decide
    exact (mem_arrows hmem).elim (by decide) (by decide)
  have hdel : arrows k first ≠ "---" := fun h => by
    have hmem : '-' ∈ (arrows k first).toList := by rw [h]; decide
    exact (mem_arrows hmem).elim (by decide) (by decide)
  rw [readColumn_plain hname hadd hdel, arrows_eq]
  rcases Nat.lt_trichotomy first k with h | h | h
  · obtain ⟨d, hd⟩ : ∃ d, k - first = d + 1 := ⟨k - first - 1, by omega⟩
    have hlen : (first : Int) - k = -((d + 1 : Nat) : Int) := by omega
    rw [if_pos h, hd, List.length_replicate, List.replicate_succ, List.head?_cons,
      if_pos (Or.inr rfl), if_pos rfl, if_neg (Nat.ne_of_lt h), hlen]
  · subst h
    rw [if_neg (Nat.lt_irrefl first), Nat.sub_self, List.replicate_zero, List.head?_nil,
      if_neg (by decide), if_neg (by decide), if_neg (by decide), if_pos rfl, sub_self]
  · obtain ⟨d, hd⟩ : ∃ d, first - k = d + 1 := ⟨first - k - 1, by omega⟩
    have hlen : (first : Int) - k = ((d + 1 : Nat) : Int) := by omega
    rw [if_neg (Nat.lt_asymm h), hd, List.length_replicate, List.replicate_succ, List.head?_cons,
      if_pos (Or.inl rfl), if_neg (by decide), if_pos rfl, if_neg (Nat.ne_of_gt h), hlen]

/-! ## Places from arrows -/

section
variable {cols : List Column} {f p : Nat → Nat}

/-- The column at `k` comes from `f k`, and `p` is the way back. -/
structure Arrowed (cols : List Column) (f p : Nat → Nat) : Prop where
  status : ∀ k < cols.length, (cols.getD k ⟨"", none, "", 0⟩).status = if f k = k then "" else "<>"
  offset : ∀ k < cols.length, (cols.getD k ⟨"", none, "", 0⟩).offset = (f k : Int) - k
  source_lt : ∀ k < cols.length, f k < cols.length
  place_lt : ∀ i < cols.length, p i < cols.length
  place_source : ∀ k < cols.length, p (f k) = k
  source_place : ∀ i < cols.length, f (p i) = i

/-- The map behind the first `m` columns: it has the place of each column that is among them, and of
each that has not moved. -/
structure PlacedUpTo (n : Nat) (p : Nat → Nat) (m : Nat) (map : List Int) : Prop where
  length : map.length = n
  placed : ∀ i < n, p i < m → map.getD i (-1) = p i
  still : ∀ i < n, p i = i → map.getD i (-1) = i

theorem Arrowed.trace (h : Arrowed cols f p) {m : Nat} (hm : m < cols.length) {map : List Int}
    (hmap : PlacedUpTo cols.length p m map) :
    ∃ map', trace map m (cols.getD m ⟨"", none, "", 0⟩) = some map' ∧
    PlacedUpTo cols.length p (m + 1) map' := by
  have hsource := h.source_lt m hm
  have hplace := h.place_source m hm
  unfold Hilite.trace
  rw [h.status m hm, h.offset m hm]
  by_cases hstay : f m = m
  · rw [if_pos hstay]
    refine ⟨map, rfl, hmap.length, fun i hi hlt => ?_, hmap.still⟩
    rcases Nat.lt_succ_iff_lt_or_eq.1 hlt with hlt | heq
    · exact hmap.placed i hi hlt
    · have him : i = m := (h.source_place i hi).symm.trans ((congrArg f heq).trans hstay)
      rw [him, hmap.still m hm (him ▸ heq)]
      exact congrArg _ (him ▸ heq).symm
  · rw [if_neg hstay, if_neg (by decide)]
    have hto : (m : Int) + ((f m : Int) - m) = f m := by omega
    simp only [hto, Int.toNat_natCast]
    rw [if_pos ⟨Int.natCast_nonneg _, by rw [hmap.length]; exact Int.ofNat_lt.2 hsource⟩]
    have hmoved : ∀ i < cols.length, i ≠ f m → i ≠ m →
        (if (map.set (f m) m).getD m (-1) = m then (map.set (f m) (m : Int)).set m
          (map.getD (f m) (-1))
          else map.set (f m) m).getD i (-1) = map.getD i (-1) := by
      intro i hi hif him
      split
      · rw [getD_set, if_neg fun hc => him hc.1.symm, getD_set, if_neg fun hc => hif hc.1.symm]
      · rw [getD_set, if_neg fun hc => hif hc.1.symm]
    refine ⟨_, rfl, ?_, fun i hi hlt => ?_, fun i hi hpi => ?_⟩
    · split <;> simp only [List.length_set, hmap.length]
    · by_cases hif : i = f m
      · subst hif
        rw [hplace]
        split
        · rw [getD_set, if_neg fun hc => hstay hc.1.symm, getD_set,
            if_pos ⟨rfl, by rw [hmap.length]; exact hi⟩]
        · rw [getD_set, if_pos ⟨rfl, by rw [hmap.length]; exact hi⟩]
      · have hpi : p i < m := by
          rcases Nat.lt_succ_iff_lt_or_eq.1 hlt with hlt | heq
          · exact hlt
          · exact absurd ((h.source_place i hi).symm.trans (congrArg f heq)) hif
        by_cases him : i = m
        · subst him
          -- the place of this column is known, so that it is not taken back
          have hset : (map.set (f i) (i : Int)).getD i (-1) = p i := by
            rw [getD_set, if_neg fun hc => hif hc.1.symm]
            exact hmap.placed i hi hpi
          rw [hset, if_neg fun hc => absurd (Int.ofNat_inj.1 hc) (Nat.ne_of_lt hpi), hset]
        · rw [hmoved i hi hif him]
          exact hmap.placed i hi hpi
    · have hif : i ≠ f m := fun hc => hstay (by rw [← hc, ← hpi, hc, hplace])
      have hfi : f i = i := (congrArg f hpi).symm.trans (h.source_place i hi)
      have him : i ≠ m := fun hc => hstay (hc ▸ hfi)
      rw [hmoved i hi hif him]
      exact hmap.still i hi hpi

/-- **The arrows** give the new place of each old column. -/
theorem Arrowed.indexMap_eq (h : Arrowed cols f p) :
    indexMap cols = some ((List.range cols.length).map fun i => (p i : Int)) := by
  have hrounds : ∀ m ≤ cols.length, ∃ map, (List.range m).foldlM
      (fun map root => Hilite.trace map root (cols.getD root ⟨"", none, "", 0⟩))
      ((List.range cols.length).map Int.ofNat) = some map ∧ PlacedUpTo cols.length p m map := by
    intro m
    induction m with
    | zero =>
      intro _
      refine ⟨_, rfl, ?_, fun i _ hlt => absurd hlt (Nat.not_lt_zero _), fun i hi _ => ?_⟩
      · rw [List.length_map, List.length_range]
      · rw [List.getD_eq_getElem?_getD, List.getElem?_map, List.getElem?_range hi]
        rfl
    | succ m ih =>
      intro hm
      obtain ⟨map, hmap, hplaced⟩ := ih (Nat.le_of_succ_le hm)
      obtain ⟨map', hmap', hplaced'⟩ := h.trace (Nat.lt_of_succ_le hm) hplaced
      refine ⟨map', ?_, hplaced'⟩
      rw [List.range_succ, List.foldlM_append, hmap]
      show (Hilite.trace map m _).bind some = _
      rw [hmap', Option.bind_some]
  obtain ⟨map, hmap, hplaced⟩ := hrounds cols.length le_rfl
  unfold indexMap
  rw [hmap]
  refine congrArg some (List.ext_getElem ?_ fun i hi hi' => ?_)
  · rw [hplaced.length, List.length_map, List.length_range]
  · have hin : i < cols.length := hplaced.length ▸ hi
    rw [List.getElem_map, List.getElem_range, ← hplaced.placed i hin (h.place_lt i hin),
      List.getD_eq_getElem _ _ hi]

end

/-! ## The moves -/

/-- The moves that are reported lead from the first order of the names to the last, and each column
keeps its name. -/
theorem movePass_leads {shuffled : List Int} {g : Int → String} (order : List Int) :
    ∀ {s s' : ColState}, movePass shuffled order s = .ok s' → s.localColNames = s.localCols.map g →
      s'.localColNames = s'.localCols.map g ∧
        ∃ moves, s'.cc = s.cc ++ moves ∧ leadsTo s.localColNames moves = some s'.localColNames := by
  induction order with
  | nil =>
    intro s s' h hnames
    cases h
    exact ⟨hnames, [], (List.append_nil _).symm, rfl⟩
  | cons a order ih =>
    intro s s' h hnames
    unfold movePass at h
    split at h
    · next hmem =>
      have hlt := List.idxOf_lt_length_of_mem hmem.1
      have hname : nameAt s.localColNames (s.localCols.idxOf a) = g a := by
        unfold nameAt
        rw [hnames, List.getD_eq_getElem _ _ (by rwa [List.length_map]), List.getElem_map,
          List.getElem_idxOf hlt]
      have hnames' : (s.localColNames.eraseIdx (s.localCols.idxOf a)).insertIdx (shuffled.idxOf a)
          (nameAt s.localColNames (s.localCols.idxOf a)) =
            ((s.localCols.eraseIdx (s.localCols.idxOf a)).insertIdx (shuffled.idxOf a) a).map
            g := by
        rw [hname, hnames, List.eraseIdx_map, List.map_insertIdx]
      obtain ⟨hfinal, moves, hcc, hmoves⟩ := ih h hnames'
      refine ⟨hfinal, ?_⟩
      simp only at hcc hmoves
      split at hcc
      · refine ⟨_ :: moves, hcc.trans (List.append_assoc _ [_] _), ?_⟩
        rw [leadsTo, if_pos ⟨rfl, rfl⟩]
        exact hmoves
      · next hsame =>
        refine ⟨moves, hcc, ?_⟩
        rw [← not_not.1 hsame] at hmoves
        exact hmoves
    · cases h

/-- The moves of `Mover` from one order to another, made the other way around by placing columns. -/
theorem exists_movePass {n : Nat} {map : List Int} {names : List String}
    (hmap : map.Perm ((List.range n).map Int.ofNat)) :
    ∃ order s, moveOrder ((List.range n).map Int.ofNat) map = some order ∧
      (∀ a ∈ order, a ∈ (List.range n).map Int.ofNat) ∧
      movePass ((List.range n).map Int.ofNat) order { localCols := map, localColNames := names } =
      .ok s ∧ s.localCols.Perm ((List.range n).map Int.ofNat) ∧
      (s.localCols = (List.range n).map Int.ofNat ↔
        PlacementAgrees ((List.range n).map Int.ofNat) map order) := by
  have hbase : ((List.range n).map Int.ofNat).Nodup :=
    List.nodup_range.map fun i j h => Int.ofNat.inj h
  obtain ⟨mover, order, hmove, hsol⟩ :=
    Mover.move_spec (hmap.nodup_iff.2 hbase) hmap.symm (Nat.lt_succ_self map.length)
  have hsub : ∀ a ∈ order, a ∈ (List.range n).map Int.ofNat :=
    fun a ha => hmap.mem_iff.1 (hsol.subset a ha)
  obtain ⟨s, hs, hcols⟩ := movePass_ok order { localCols := map, localColNames := names } hmap hsub
  refine ⟨order, s, ?_, hsub, hs, ?_, ?_⟩
  · unfold moveOrder
    rw [hmove]
    rfl
  · rw [hcols]
    exact foldl_placeAt_perm order _ hmap hsub
  · rw [hcols]
    exact foldl_placeAt_eq_iff hbase order map hmap hsol.nodup hsub hsol.filter_eq.symm

end Hilite

/-! ## The highlighter -/

namespace TypedSheet

variable {T : Type}

theorem moveInRow_perm (zero : T) {row : List T} {src : Nat} {base : Int} (hs : src < row.length)
    (hb : -1 ≤ base) (hb' : base < row.length) : (moveInRow zero row src base).Perm row := by
  rw [moveInRow_eq_insertIdx zero hs hb]
  have hplace : ColumnOp.place (row.length - 1) (if base > src then base - 1 else base) ≤
    (row.eraseIdx src).length := by
    rw [List.length_eraseIdx_of_lt hs]
    refine ColumnOp.place_le ?_
    split <;> omega
  exact (List.perm_insertIdx _ _ hplace).trans (List.getElem_cons_eraseIdx_perm hs)

theorem moveColumn_row (row : List T) (zero : T) {w : Nat} {src base : Int} (hs : 0 ≤ src ∧ src < w)
    (hb : base < w) :
    (moveColumn ⟨[row], w, zero⟩ src base).1 = ⟨[moveInRow zero row src.toNat base], w, zero⟩ := by
  unfold moveColumn
  rw [if_neg (by
    simp only [not_or]
    omega)]
  rfl

theorem w_moveColumn (s : TypedSheet T) (src base : Int) : (s.moveColumn src base).1.w = s.w := by
  unfold moveColumn
  split <;> rfl

end TypedSheet

namespace Highlighter

open Hilite

/-- The marks of columns in an order, each one of arrows. -/
def marks (names cur : List String) : List String :=
  (List.range cur.length).map fun k => arrows k (names.idxOf (cur.getD k ""))

theorem length_marks (names cur : List String) : (marks names cur).length = cur.length := by
  unfold marks
  rw [List.length_map, List.length_range]

theorem getElem_marks {names cur : List String} {k : Nat} (h : k < (marks names cur).length) :
    (marks names cur)[k] = arrows k (names.idxOf (cur.getD k "")) := by
  simp only [marks, List.getElem_map, List.getElem_range]

/-- The highlighter knows where each column was at first, and has the way back as its mark. -/
structure Traced (names cur : List String) (q : Highlighter) : Prop where
  index : q.originalIndex = indexNames names
  active : q.patcher.activeCol = ⟨[cur], cur.length, ""⟩
  status : q.patcher.statusCol = ⟨[marks names cur], cur.length, ""⟩
  wide : q.patcher.sheet.w = cur.length
  perm : cur.Perm names

theorem get?_indexNames {names : List String} (hd : names.Nodup) {name : String}
    (h : name ∈ names) : (indexNames names).get? name = some (names.idxOf name) := by
  have hlt := List.idxOf_lt_length_of_mem h
  have hkeys : AssocMap.keys ((List.range names.length).map fun i => (names.getD i "", i)) =
    names := by
    unfold AssocMap.keys
    rw [List.map_map]
    refine List.ext_getElem (by rw [List.length_map, List.length_range]) fun i hi hi' => ?_
    rw [List.getElem_map, List.getElem_range]
    exact List.getD_eq_getElem _ _ hi'
  have hfold : indexNames names =
      ((List.range names.length).map fun i => (names.getD i "", i)).foldl
        (fun m e => AssocMap.set m e.1 e.2) [] := by
    unfold indexNames
    rw [List.foldl_map]
  have hentry : (name, names.idxOf name) ∈ (List.range names.length).map fun i =>
    (names.getD i "", i) := by
    refine List.mem_map.2 ⟨names.idxOf name, List.mem_range.2 hlt, ?_⟩
    rw [List.getD_eq_getElem _ _ hlt, List.getElem_idxOf hlt]
  have hget := AssocMap.get?_of_mem (by rw [hkeys]; exact hd) hentry
  rw [hfold, AssocMap.get?_foldl_set _ _ _ (by rw [hkeys]; exact hd), hget]
  rfl

/-- The loop over the columns gives each its arrows. -/
theorem foldl_traceColumn {q : Highlighter} {names cur st : List String} (hd : names.Nodup)
    (hindex : q.originalIndex = indexNames names)
    (hactive : q.patcher.activeCol = ⟨[cur], cur.length, ""⟩) (hperm : cur.Perm names)
    (hlen : st.length = cur.length)
    (hst : ∀ mark ∈ st, mark.toList.head? ≠ some '-' ∧ mark.toList.head? ≠ some '+') :
    (List.range cur.length).foldl q.traceColumn ⟨[st], cur.length, ""⟩ =
    ⟨[marks names cur], cur.length, ""⟩ := by
  have hrounds : ∀ m ≤ cur.length, (List.range m).foldl q.traceColumn ⟨[st], cur.length, ""⟩ =
      ⟨[(marks names cur).take m ++ st.drop m], cur.length, ""⟩ := by
    intro m
    induction m with
    | zero => exact fun _ => rfl
    | succ m ih =>
      intro hm
      have hlt : m < st.length := by omega
      have hmarks : m < (marks names cur).length := by
        rw [length_marks]
        exact hm
      have hdrop := List.drop_eq_getElem_cons hlt
      have htake : ((marks names cur).take m).length = m :=
        List.length_take_of_le (Nat.le_of_lt hmarks)
      have hcell : ((marks names cur).take m ++ st.drop m).getD m "" = st[m] := by
        rw [hdrop, List.getD_append_right _ _ _ _ (le_of_eq htake), htake, Nat.sub_self]
        rfl
      have hname : cur.getD m "" ∈ names := by
        rw [List.getD_eq_getElem _ _ (Nat.lt_of_succ_le hm)]
        exact hperm.mem_iff.1 (List.getElem_mem _)
      rw [List.range_succ, List.foldl_append, ih (Nat.le_of_succ_le hm), List.foldl_cons,
        List.foldl_nil]
      unfold traceColumn
      simp only [hactive, hindex, TypedSheet.cell, List.getD_cons_zero, hcell,
        get?_indexNames hd hname]
      rw [if_neg fun h => h.elim (hst _ (List.getElem_mem hlt)).1 (hst _ (List.getElem_mem hlt)).2]
      unfold TypedSheet.setCell
      simp only [List.modify_zero_cons]
      congr 2
      rw [List.set_append_right _ _ (le_of_eq htake), htake, Nat.sub_self, hdrop,
        List.set_cons_zero,
        ← List.take_append_getElem hmarks, getElem_marks, List.append_assoc, List.singleton_append]
  have hall := hrounds cur.length le_rfl
  have htake : (marks names cur).take cur.length = marks names cur :=
    List.take_of_length_le (le_of_eq (length_marks names cur))
  rw [hall, htake, ← hlen, List.drop_length, List.append_nil]

theorem head_marks {names cur : List String} {mark : String} (h : mark ∈ marks names cur) :
    mark.toList.head? ≠ some '-' ∧ mark.toList.head? ≠ some '+' := by
  obtain ⟨k, -, rfl⟩ := List.mem_map.1 h
  exact ⟨fun hc => (mem_arrows (List.mem_of_mem_head? hc)).elim (by decide) (by decide),
    fun hc => (mem_arrows (List.mem_of_mem_head? hc)).elim (by decide) (by decide)⟩

theorem Traced.moveColumn {names cur : List String} {q : Highlighter} (h : Traced names cur q)
    (hd : names.Nodup) (m : ColumnMove names.length) : ∃ r, q.moveColumn m.src m.base = some r ∧
      Traced names (TypedSheet.moveInRow "" cur m.src.toNat m.base) r.1 := by
  have hlen := h.perm.length_eq
  have hsrc := m.src_in
  have hbase := m.base_in
  have hcur := @TypedSheet.moveInRow_perm _ "" cur m.src.toNat m.base (by omega) hbase.1 (by omega)
  have hmarks := @TypedSheet.moveInRow_perm _ "" (marks names cur) m.src.toNat m.base
    (by rw [length_marks]; omega) hbase.1 (by rw [length_marks]; omega)
  generalize hnew : TypedSheet.moveInRow "" cur m.src.toNat m.base = cur' at hcur
  have hwidth : cur'.length = cur.length := hcur.length_eq
  have hactive : (q.patcher.activeCol.moveColumn m.src m.base).1 = ⟨[cur'], cur'.length, ""⟩ := by
    rw [h.active, TypedSheet.moveColumn_row cur "" (by omega) (by omega), hnew, hwidth]
  have hstatus : (q.patcher.statusCol.moveColumn m.src m.base).1 =
      ⟨[TypedSheet.moveInRow "" (marks names cur) m.src.toNat m.base], cur'.length, ""⟩ := by
    rw [h.status, TypedSheet.moveColumn_row (marks names cur) "" (by omega) (by omega), hwidth]
  have hperm : cur'.Perm names := hcur.trans h.perm
  have hwide : (q.patcher.sheet.moveColumn m.src m.base).1.w = cur'.length := by
    rw [TypedSheet.w_moveColumn, h.wide, hwidth]
  unfold Highlighter.moveColumn
  simp only
  rw [hactive, hstatus]
  have htraced := @foldl_traceColumn { q with patcher := { q.patcher with
      sheet := (q.patcher.sheet.moveColumn m.src m.base).1
      activeCol := ⟨[cur'], cur'.length, ""⟩
      statusCol :=
        ⟨[TypedSheet.moveInRow "" (marks names cur) m.src.toNat m.base], cur'.length, ""⟩ } }
    names cur' (TypedSheet.moveInRow "" (marks names cur) m.src.toNat m.base) hd h.index rfl hperm
      (by rw [hmarks.length_eq, length_marks, hwidth])
    (fun mark hmark => head_marks (hmarks.mem_iff.1 hmark))
  have hfold : (List.range (TypedSheet.width ⟨[cur'], cur'.length, ""⟩)).foldl _ _ = _ := htraced
  rw [hfold]
  unfold SheetPatcher.updateCols
  rw [if_neg (by
    show ¬ cur'.length ≠ (q.patcher.sheet.moveColumn m.src m.base).1.w
    rw [hwide]
    exact fun hne => hne rfl)]
  exact ⟨_, rfl, h.index, rfl, rfl, hwide, hperm⟩

theorem Traced.moveColumns {names : List String} (hd : names.Nodup)
    (moves : List (ColumnMove names.length)) :
    ∀ {cur : List String} {q : Highlighter}, Traced names cur q →
      ∃ q', q.moveColumns moves = some q' ∧ Traced names (movedNames cur moves) q' := by
  induction moves with
  | nil => exact fun h => ⟨_, rfl, h⟩
  | cons m moves ih =>
    intro cur q h
    obtain ⟨r, hr, htraced⟩ := h.moveColumn hd m
    obtain ⟨q', hq', hfinal⟩ := ih htraced
    refine ⟨q', ?_, hfinal⟩
    rw [Highlighter.moveColumns, hr]
    exact hq'

/-- At first no column has a mark. -/
theorem exists_start {sheet : TypedSheet SheetCell} {names : List String} (hd : names.Nodup)
    (hw : sheet.w = names.length) : ∃ q, start sheet names = some q ∧ Traced names names q := by
  have hmarks : List.replicate names.length "" = marks names names := by
    refine List.ext_getElem (by rw [List.length_replicate, length_marks]) fun k hk hk' => ?_
    have hlt : k < names.length := by rwa [length_marks] at hk'
    rw [List.getElem_replicate, getElem_marks, List.getD_eq_getElem _ _ hlt,
      hd.idxOf_getElem, arrows_self]
  have hsame : ∀ (p : SheetPatcher) (xs : List Nat), (∀ i ∈ xs, i < names.length) →
      p.activeCol = ⟨[names], names.length, ""⟩ →
      xs.foldl (fun (p : SheetPatcher) i =>
        if names.getD i "" ≠ p.activeCol.cell i 0 then
          { p with
            syn2name := p.syn2name.set (names.getD i "") (p.activeCol.cell i 0)
            name2syn := p.name2syn.set (p.activeCol.cell i 0) (names.getD i "") }
        else p) p = p := by
    intro p xs
    induction xs with
    | nil => exact fun _ _ => rfl
    | cons i xs ih =>
      intro hxs hp
      rw [List.foldl_cons, if_neg (by rw [hp]; exact fun hne => hne rfl)]
      exact ih (fun j hj => hxs j (List.mem_cons_of_mem _ hj)) hp
  unfold start SheetPatcher.attach SheetPatcher.updateCols
  rw [if_neg (by
    show ¬ names.length ≠ sheet.w
    rw [hw]
    exact fun hne => hne rfl)]
  rw [Option.bind_some]
  unfold declareNames
  simp only [Bool.false_eq_true, if_false]
  rw [if_neg (by exact Nat.lt_irrefl _), hsame _ _ (fun i hi => List.mem_range.1 hi) rfl]
  unfold SheetPatcher.updateCols
  rw [if_neg (by
    show ¬ names.length ≠ sheet.w
    rw [hw]
    exact fun hne => hne rfl)]
  refine ⟨_, rfl, rfl, rfl, ?_, hw, List.Perm.refl _⟩
  show TypedSheet.mk [List.replicate names.length ""] names.length "" = _
  rw [hmarks]

/-- A row of one line, cell by cell. -/
theorem map_cell (row : List String) :
    ((List.range (TypedSheet.width ⟨[row], row.length, ""⟩)).map fun c =>
      TypedSheet.cell ⟨[row], row.length, ""⟩ c 0) =
      row := by
  refine List.ext_getElem ?_ fun k hk hk' => ?_
  · rw [List.length_map, List.length_range]
    rfl
  · rw [List.getElem_map, List.getElem_range]
    exact List.getD_eq_getElem _ _ hk'

theorem Traced.headerRow_eq {names cur : List String} {q : Highlighter} (h : Traced names cur q) :
    q.headerRow = cur := by
  unfold Highlighter.headerRow
  rw [h.active]
  exact map_cell cur

theorem Traced.actionRow_eq {names cur : List String} {q : Highlighter} (h : Traced names cur q) :
    q.actionRow = if (marks names cur).any (· != "") then some (marks names cur) else none := by
  have hrow := map_cell (marks names cur)
  rw [length_marks] at hrow
  unfold Highlighter.actionRow
  rw [h.status]
  simp only [hrow]

/-- Without a mark no column has moved. -/
theorem eq_of_no_mark {names cur : List String} (hp : cur.Perm names)
    (h : ¬ (marks names cur).any (· != "") = true) : cur = names := by
  refine List.ext_getElem hp.length_eq fun k hk hk' => ?_
  have hlt : k < (marks names cur).length := by rwa [length_marks]
  have hmark : (marks names cur)[k] = "" := by
    by_contra hne
    exact h (List.any_eq_true.2 ⟨_, List.getElem_mem _, bne_iff_ne.2 hne⟩)
  rw [getElem_marks, arrows_eq_empty_iff, List.getD_eq_getElem _ _ hk] at hmark
  have hget := List.getElem_idxOf (List.idxOf_lt_length_of_mem (hp.mem_iff.1 (List.getElem_mem hk)))
  simp only [hmark] at hget
  exact hget.symm

end Highlighter

namespace Hilite

/-! ## From the marks to the moves -/

open Highlighter

/-- An order that is already right stays as it is, whatever is placed. -/
theorem placementAgrees_self {dest : List Int} (order : List Int) (h : ∀ a ∈ order, a ∈ dest) :
    PlacementAgrees dest dest order := by
  induction order with
  | nil => exact trivial
  | cons a order ih =>
    have hlt := List.idxOf_lt_length_of_mem (h a (by simp))
    have hplace : placeAt dest dest a = dest := by
      have hback := List.insertIdx_eraseIdx_getElem hlt
      rwa [List.getElem_idxOf hlt] at hback
    have htake : (dest.erase a).take (dest.idxOf a) = dest.take (dest.idxOf a) := by
      rw [← List.eraseIdx_idxOf_eq_erase, List.take_eraseIdx_eq_take_of_le _ _ _ le_rfl]
    refine ⟨by rw [htake], ?_⟩
    rw [hplace]
    exact ih fun b hb => h b (List.mem_cons_of_mem _ hb)

/-- The columns as the marks and the names have them. -/
def tracedColumns (names cur : List String) : List Column :=
  (List.range cur.length).map fun k =>
    { name := headerName (cur.getD k "")
      status := if names.idxOf (cur.getD k "") = k then "" else "<>"
      offset := (names.idxOf (cur.getD k "") : Int) - k }

section
variable {names cur : List String}

theorem length_tracedColumns : (tracedColumns names cur).length = cur.length := by
  unfold tracedColumns
  rw [List.length_map, List.length_range]

theorem getD_tracedColumns {k : Nat} (hk : k < cur.length) (d : Column) :
    (tracedColumns names cur).getD k d =
      { name := headerName (cur.getD k "")
        status := if names.idxOf (cur.getD k "") = k then "" else "<>"
        offset := (names.idxOf (cur.getD k "") : Int) - k } := by
  unfold tracedColumns
  rw [List.getD_eq_getElem?_getD, List.getElem?_map, List.getElem?_range hk]
  rfl

theorem status_tracedColumns {c : Column} (h : c ∈ tracedColumns names cur) :
    (c.status = "" ∨ c.status = "<>") ∧ c.former = none := by
  obtain ⟨k, -, rfl⟩ := List.mem_map.1 h
  refine ⟨?_, rfl⟩
  simp only
  split
  · exact Or.inl rfl
  · exact Or.inr rfl

theorem mapM_readColumn :
    (((marks names cur).zip cur).mapM fun e => readColumn e.1 (headerName e.2)) =
    some (tracedColumns names cur) := by
  have hzip : (marks names cur).zip cur =
      (List.range cur.length).map fun k =>
      (arrows k (names.idxOf (cur.getD k "")), cur.getD k "") := by
    refine List.ext_getElem ?_ fun k hk hk' => ?_
    · rw [List.length_zip, length_marks, Nat.min_self, List.length_map, List.length_range]
    · have hlt : k < cur.length := by rwa [List.length_map, List.length_range] at hk'
      rw [List.getElem_zip, getElem_marks, List.getElem_map, List.getElem_range,
        List.getD_eq_getElem _ _ hlt]
  rw [hzip, List.mapM_map]
  exact mapM_eq_some_map fun k _ => readColumn_arrows k _ _

theorem present_tracedColumns : present (tracedColumns names cur) = tracedColumns names cur := by
  refine List.filter_eq_self.2 fun c hc => ?_
  rcases (status_tracedColumns hc).1 with h | h <;> rw [h] <;> rfl

theorem edit_tracedColumns {c : Column} (h : c ∈ tracedColumns names cur) :
    c.edit = "" ∨ c.edit = "<>" := by
  obtain ⟨hstatus, hformer⟩ := status_tracedColumns h
  unfold Column.edit
  rw [hformer, if_neg (fun hne => hne rfl)]
  exact hstatus

/-- No column came, went or changed its name. -/
theorem editColumn_tracedColumns :
    (List.range (tracedColumns names cur).length).filterMap (editColumn (tracedColumns names cur)) =
    [] := by
  refine List.filterMap_eq_nil_iff.2 fun j hj => ?_
  have hlt := List.mem_range.1 hj
  have hedit : ((tracedColumns names cur).getD j ⟨"", none, "", 0⟩).edit = "" ∨
      ((tracedColumns names cur).getD j ⟨"", none, "", 0⟩).edit = "<>" := by
    rw [List.getD_eq_getElem _ _ hlt]
    exact edit_tracedColumns (List.getElem_mem hlt)
  unfold editColumn
  rcases hedit with h | h <;> rw [h] <;> rfl

theorem final_tracedColumns :
    ((tracedColumns names cur).filter fun c => c.status != "---").map Column.name =
    cur.map headerName := by
  have hall : ((tracedColumns names cur).filter fun c => c.status != "---") =
    tracedColumns names cur := by
    refine List.filter_eq_self.2 fun c hc => ?_
    rcases (status_tracedColumns hc).1 with h | h <;> rw [h] <;> rfl
  rw [hall]
  refine List.ext_getElem (by rw [List.length_map, List.length_map, length_tracedColumns])
    fun k hk hk' => ?_
  have hlt : k < cur.length := by rwa [List.length_map] at hk'
  have hget := @getD_tracedColumns names cur k hlt ⟨"", none, "", 0⟩
  rw [List.getD_eq_getElem _ _ (by rwa [length_tracedColumns])] at hget
  rw [List.getElem_map, hget, List.getElem_map, List.getD_eq_getElem _ _ hlt]

theorem arrowed_tracedColumns (hd : names.Nodup) (hp : cur.Perm names) :
    Arrowed (tracedColumns names cur) (fun k => names.idxOf (cur.getD k ""))
    (fun i => cur.idxOf (names.getD i "")) := by
  have hlen := hp.length_eq
  have hdc : cur.Nodup := hp.nodup_iff.2 hd
  refine ⟨fun k hk => ?_, fun k hk => ?_, fun k hk => ?_, fun i hi => ?_, fun k hk => ?_,
    fun i hi => ?_⟩ <;> rw [length_tracedColumns] at *
  · rw [getD_tracedColumns hk]
  · rw [getD_tracedColumns hk]
  · rw [List.getD_eq_getElem _ _ hk, hlen]
    exact List.idxOf_lt_length_of_mem (hp.mem_iff.1 (List.getElem_mem hk))
  · have hi' : i < names.length := hlen ▸ hi
    rw [List.getD_eq_getElem _ _ hi']
    exact List.idxOf_lt_length_of_mem (hp.mem_iff.2 (List.getElem_mem hi'))
  · have hlt := List.idxOf_lt_length_of_mem (hp.mem_iff.1 (List.getElem_mem hk))
    rw [List.getD_eq_getElem _ _ hk, List.getD_eq_getElem _ _ hlt, List.getElem_idxOf hlt,
      hdc.idxOf_getElem]
  · have hi' : i < names.length := hlen ▸ hi
    have hlt := List.idxOf_lt_length_of_mem (hp.mem_iff.2 (List.getElem_mem hi'))
    rw [List.getD_eq_getElem _ _ hi', List.getD_eq_getElem _ _ hlt, List.getElem_idxOf hlt,
      hd.idxOf_getElem]

/-- The places of the names in another order of them. -/
def placesIn (names cur : List String) : List Int := names.map fun name => (cur.idxOf name : Int)

theorem indexMap_tracedColumns (hd : names.Nodup) (hp : cur.Perm names) :
    indexMap (tracedColumns names cur) = some (placesIn names cur) := by
  rw [(arrowed_tracedColumns hd hp).indexMap_eq]
  refine congrArg some (List.ext_getElem ?_ fun i hi hi' => ?_)
  · rw [List.length_map, List.length_range, length_tracedColumns, hp.length_eq, placesIn,
      List.length_map]
  · have hlt : i < names.length := by rwa [placesIn, List.length_map] at hi'
    simp only [placesIn, List.getElem_map, List.getElem_range, List.getD_eq_getElem _ _ hlt]

theorem placesIn_perm (hd : names.Nodup) (hp : cur.Perm names) :
    (placesIn names cur).Perm ((List.range names.length).map Int.ofNat) := by
  have hmap :
    cur.map (fun name => (cur.idxOf name : Int)) = (List.range names.length).map Int.ofNat := by
    refine List.ext_getElem
      (by rw [List.length_map, List.length_map, List.length_range, hp.length_eq]) fun k hk hk' => ?_
    rw [List.getElem_map, List.getElem_map, List.getElem_range, (hp.nodup_iff.2 hd).idxOf_getElem]
    rfl
  rw [← hmap]
  exact hp.symm.map _

/-- The names of the columns at their places are the old names, as they are read. -/
theorem map_original (hp : cur.Perm names) :
    ((placesIn names cur).map fun i =>
      ((tracedColumns names cur).getD i.toNat ⟨"", none, "", 0⟩).original) =
      names.map headerName := by
  unfold placesIn
  rw [List.map_map]
  refine List.map_congr_left fun name hname => ?_
  have hlt := List.idxOf_lt_length_of_mem (hp.mem_iff.2 hname)
  show ((tracedColumns names cur).getD (Int.toNat (cur.idxOf name : Int))
    ⟨"", none, "", 0⟩).original = _
  rw [Int.toNat_natCast, getD_tracedColumns hlt, List.getD_eq_getElem _ _ hlt,
    List.getElem_idxOf hlt]
  rfl

end

/-! ## Reading back -/

/-- What the reader makes of marks. -/
theorem readColumns_marks {names cur : List String} (hd : names.Nodup) (hp : cur.Perm names) :
    ∃ order s report, moveOrder ((List.range names.length).map Int.ofNat) (placesIn names cur) =
    some order ∧
      readColumns (some (marks names cur)) cur = some report ∧
      report.declared = some (names.map headerName) ∧
      leadsTo (names.map headerName) report.changes =
      some (s.map fun i => headerName (cur.getD (Int.toNat i) "")) ∧
      s.Perm ((List.range names.length).map Int.ofNat) ∧
      (s = (List.range names.length).map Int.ofNat ↔
        PlacementAgrees ((List.range names.length).map Int.ofNat) (placesIn names cur) order) := by
  obtain ⟨order, s, horder, -, hpass, hsp, hiff⟩ :=
    @exists_movePass names.length (placesIn names cur)
    (names.map headerName) (placesIn_perm hd hp)
  have hnames : names.map headerName =
      (placesIn names cur).map fun i => headerName (cur.getD (Int.toNat i) "") := by
    unfold placesIn
    rw [List.map_map]
    refine List.map_congr_left fun name hname => ?_
    have hlt := List.idxOf_lt_length_of_mem (hp.mem_iff.2 hname)
    show _ = headerName (cur.getD (Int.toNat (cur.idxOf name : Int)) "")
    rw [Int.toNat_natCast, List.getD_eq_getElem _ _ hlt, List.getElem_idxOf hlt]
  obtain ⟨hfinal, moves, hcc, hmoves⟩ := movePass_leads order hpass hnames
  have hlen : (tracedColumns names cur).length = names.length :=
    length_tracedColumns.trans hp.length_eq
  have hedits := @editColumn_tracedColumns names cur
  rw [hlen] at hedits
  refine ⟨order, s.localCols, ⟨some (names.map headerName), s.cc, cur.map headerName⟩, horder, ?_,
    rfl, ?_, hsp, hiff⟩
  · unfold readColumns
    simp only [mapM_readColumn, Option.bind_some, present_tracedColumns,
      indexMap_tracedColumns hd hp, map_original hp,
      final_tracedColumns, hedits, hlen, horder, hpass, List.append_nil]
  · rw [← hfinal, hcc]
    exact hmoves

/-- Names that are taken by their places, are in order when the places are. -/
theorem map_getD_eq_iff {cur : List String} (hd : cur.Nodup) {s : List Int}
    (hs : s.Perm ((List.range cur.length).map Int.ofNat)) :
    (s.map fun i => cur.getD (Int.toNat i) "") = cur ↔
    s = (List.range cur.length).map Int.ofNat := by
  have hlen : s.length = cur.length := by rw [hs.length_eq, List.length_map, List.length_range]
  refine ⟨fun h => List.ext_getElem hs.length_eq fun k hk hk' => ?_, fun h => ?_⟩
  · obtain ⟨i, hi, hik⟩ := List.mem_map.1 (hs.mem_iff.1 (List.getElem_mem hk))
    have hlt := List.mem_range.1 hi
    have hkc : k < cur.length := hlen ▸ hk
    have hget : (s.map fun i => cur.getD (Int.toNat i) "").getD k "" = cur.getD k "" :=
      congrArg (fun row => row.getD k "") h
    rw [List.getD_eq_getElem _ _ (by rwa [List.length_map]), List.getElem_map, ← hik,
      List.getD_eq_getElem _ _ hkc] at hget
    have hname : cur[i] = cur[k] := (List.getD_eq_getElem _ _ hlt).symm.trans hget
    rw [List.getElem_map, List.getElem_range, ← hik, (hd.getElem_inj_iff).1 hname]
  · rw [h, List.map_map]
    refine List.ext_getElem (by rw [List.length_map, List.length_range]) fun k hk hk' => ?_
    rw [List.getElem_map, List.getElem_range]
    exact List.getD_eq_getElem _ _ hk'

/-- Marks are read as moves to the new order if and only if every name is read as it is, and the
placements agree. -/
theorem movesBack_iff (t : MovedColumns) : t.ReadBack ↔
    (∀ name ∈ t.names, headerName name = name) ∧
      ∀ order, moveOrder t.inOrder t.places = some order →
      PlacementAgrees t.inOrder t.places order := by
  obtain ⟨q0, hq0, htraced0⟩ := exists_start t.distinct t.wide
  obtain ⟨q, hq, htraced⟩ := Traced.moveColumns t.distinct t.moves htraced0
  change Traced t.names t.permuted q at htraced
  have hp : t.permuted.Perm t.names := htraced.perm
  have hback : t.ReadBack ↔ ∃ report, readColumns q.actionRow q.headerRow = some report ∧
      Restores report t.names t.permuted := by
    refine ⟨fun ⟨q0', q', report, hq0', hq', hread, hrestores⟩ => ?_,
      fun ⟨report, hread, hrestores⟩ =>
      ⟨q0, q, report, hq0, hq, hread, hrestores⟩⟩
    obtain rfl := Option.some.inj (hq0.symm.trans hq0')
    obtain rfl := Option.some.inj (hq.symm.trans hq')
    exact ⟨report, hread, hrestores⟩
  have hid : t.names.map headerName = t.names ↔ ∀ name ∈ t.names, headerName name = name := by
    rw [← List.map_inj_left, List.map_id']
  rw [hback, htraced.headerRow_eq, htraced.actionRow_eq]
  by_cases hmark : (marks t.names t.permuted).any (· != "") = true
  · obtain ⟨order, s, report, horder, hread, hdeclared, hmoves, hsp, hiff⟩ :=
      readColumns_marks t.distinct hp
    rw [if_pos hmark]
    have hrestores : Restores report t.names t.permuted ↔ t.names.map headerName = t.names ∧
      s = t.inOrder := by
      have hlen : t.names.length = t.permuted.length := hp.length_eq.symm
      have hread : t.names.map headerName = t.names →
          (s.map fun i => headerName (t.permuted.getD (Int.toNat i) "")) = s.map fun i =>
          t.permuted.getD (Int.toNat i) "" := by
        refine fun hsame => List.map_congr_left fun i hi => ?_
        obtain ⟨k, hk, rfl⟩ := List.mem_map.1 (hsp.mem_iff.1 hi)
        have hlt : k < t.permuted.length := hlen ▸ List.mem_range.1 hk
        show headerName (t.permuted.getD k "") = t.permuted.getD k ""
        rw [List.getD_eq_getElem _ _ hlt]
        exact hid.1 hsame _ (hp.mem_iff.1 (List.getElem_mem hlt))
      have horder := map_getD_eq_iff (hp.nodup_iff.2 t.distinct) (hlen ▸ hsp)
      rw [← hlen] at horder
      refine ⟨fun ⟨hold, hnew⟩ => ?_, fun ⟨hsame, hs⟩ => ⟨?_, ?_⟩⟩
      · have hsame : t.names.map headerName = t.names := by
          rw [hdeclared] at hold
          exact hold
        rw [hsame, hnew] at hmoves
        exact ⟨hsame, horder.1 ((hread hsame).symm.trans (Option.some.inj hmoves).symm)⟩
      · rw [hdeclared]
        exact hsame
      · have hnew := hmoves
        rw [hread hsame, horder.2 hs, hsame] at hnew
        exact hnew
    have horders :
      (∀ order', moveOrder t.inOrder t.places = some order' →
        PlacementAgrees t.inOrder t.places order') ↔ s = t.inOrder := by
      refine ⟨fun h => hiff.2 (h order horder), fun h order' horder' => ?_⟩
      obtain rfl := Option.some.inj (horder.symm.trans horder')
      exact hiff.1 h
    rw [horders, ← hid, ← hrestores]
    refine ⟨fun ⟨report', hread', h⟩ => ?_, fun h => ⟨report, hread, h⟩⟩
    obtain rfl := Option.some.inj (hread.symm.trans hread')
    exact h
  · have hsame := eq_of_no_mark hp hmark
    have hplaces : t.places = t.inOrder := by
      show placesIn t.names t.permuted = _
      rw [hsame]
      refine List.ext_getElem ?_ fun k hk hk' => ?_
      · rw [placesIn, MovedColumns.inOrder, List.length_map, List.length_map, List.length_range]
      · simp only [placesIn, MovedColumns.inOrder, List.getElem_map, List.getElem_range,
          t.distinct.idxOf_getElem]
        rfl
    have horders : ∀ order, moveOrder t.inOrder t.places = some order →
      PlacementAgrees t.inOrder t.places order := by
      intro order' horder'
      obtain ⟨order, -, horder, hsub, -⟩ :=
        @exists_movePass t.names.length t.inOrder t.names (List.Perm.refl _)
      rw [hplaces] at horder' ⊢
      obtain rfl := Option.some.inj (horder.symm.trans horder')
      exact placementAgrees_self order hsub
    rw [if_neg hmark, hsame, ← hid]
    refine ⟨fun ⟨report, hread, hrestores⟩ => ⟨?_, horders⟩, fun ⟨h, _⟩ => ⟨_, rfl, h, rfl⟩⟩
    obtain rfl := Option.some.inj hread
    exact hrestores.declared

/-- `c` is moved before `a`, and then `d` before `a`. -/
def twoMoves : MovedColumns where
  names := ["a", "b", "c", "d"]
  distinct := by decide
  sheet := ⟨[], 4, SheetCell.null⟩
  wide := rfl
  moves := [⟨2, 0, by decide, by decide⟩, ⟨3, 1, by decide, by decide⟩]

/-- The reader puts `c` last, and then `d`, which takes the place before `b`: it ends at `c`, `a`,
`d`, `b`. -/
theorem not_movesBack : ¬ twoMoves.ReadBack := by
  rintro ⟨q0, q, report, hq0, hq, hread, hrestores⟩
  have hreading : ((Highlighter.start twoMoves.sheet twoMoves.names).bind fun q0 =>
      (q0.moveColumns twoMoves.moves).bind fun q => readColumns q.actionRow q.headerRow).map
        (fun report => leadsTo twoMoves.names report.changes) =
          some (some ["c", "a", "d", "b"]) := by
    decide +kernel
  rw [hq0, Option.bind_some, hq, Option.bind_some, hread, Option.map_some,
    hrestores.moves] at hreading
  exact absurd hreading (by decide +kernel)

end Hilite

end Coopy
