import Coopy.Lib.Marks
import Coopy.OccupiedSheet
import Coopy.OrderResult
import Coopy.Table
import Coopy.Viterbi
import Mathlib.Algebra.Order.Ring.Rat

/-!
# `MeasureMan`: units matched through a lattice

A pass scores the units of two sheets against each other and lets a lattice pick, for each unit of
the shorter sheet, a unit of the longer one.  A lattice state is a column (a unit of the longer
sheet, or none) under a history, whose bits are the columns that were wanted twice and may be
entered once.  The pass is repeated with one bit more for each column that turns out to be wanted
twice, until no such column is met or there are four.

The scores of a pass are what the measures put in `match`, and are arbitrary here; so is `bend`, the
logarithm that a change of column costs.

    after each pass the selection is a partial bijection that keeps the one before
                                                                               (compareCore_chained)
    every state is declared, and a path enters a tracked column at most once        (sound_of_valid)
-/

namespace Coopy

open Lib Lib.Trellis

namespace SparseSheet

variable {α : Type}

/-- The set columns of a row, in order. -/
def getCellsInRow (s : SparseSheet α) (y : Nat) : List Nat :=
  (List.range s.w).filter fun x => (s.pcell x y).isSome

/-- The set rows of a column, in order. -/
def getCellsInCol (s : SparseSheet α) (x : Nat) : List Nat :=
  (List.range s.h).filter fun y => (s.pcell x y).isSome

end SparseSheet

namespace OccupiedSheet

variable {α : Type} {s : OccupiedSheet α} {m : Cells α}

end OccupiedSheet

/-- What the measures give a pass over `n` and `m` units: the sheet `match` of `main_pass`, and the
first columns of the other two. -/
structure Scores (n m : Nat) where
  sheet : SparseSheet ℚ
  w_eq : sheet.w = n
  h_eq : sheet.h = m
  anorm : Int → ℚ
  bnorm : Int → ℚ

namespace Scores

variable {n m : Nat} (s : Scores n m)

/-- The second sheet is the longer one: the two change roles. -/
def flip : Bool := decide (s.sheet.w < s.sheet.h)

def matchWidth : Nat := if s.flip then s.sheet.h else s.sheet.w

def matchHeight : Nat := if s.flip then s.sheet.w else s.sheet.h

def cellsAt (i : Nat) : List Nat := if s.flip then s.sheet.getCellsInCol i
    else s.sheet.getCellsInRow i

/-- The cells of row `i - 1`. -/
def cellsBefore : Nat → List Nat
  | 0 => []
  | i + 1 => s.cellsAt i

def score (i i1 : Nat) : ℚ := if s.flip then s.sheet.cell i i1 else s.sheet.cell i1 i

/-- The smaller of the two norms. -/
def ref (y : Nat) (bestIndex : Int) : ℚ :=
  let ref := s.bnorm (if s.flip then bestIndex else y)
  let ref2 := s.anorm (if s.flip then y else bestIndex)
  if ref2 < ref then ref2 else ref

end Scores

structure MeasureMan where
  a : DataSheet
  b : DataSheet
  rowLike : Bool
  trustIds : Bool
  sampled : Bool
  ctrlMax : Int

namespace MeasureMan

/-! ## The lattice -/

/-- The columns wanted twice so far, each with the bit that stands for it. -/
structure History where
  stateNode : AssocMap Nat Nat
  stateNodeCount : Nat
  stateNodePower : Nat

namespace History

def initial : History := ⟨[], 0, 1⟩

/-- `history_offset`: zero for a column that is not tracked. -/
def offset (h : History) (i : Nat) : Nat := (h.stateNode.get? i).getD 0

def track (h : History) (bestIndex : Nat) : History :=
  ⟨h.stateNode.set bestIndex h.stateNodePower, h.stateNodeCount + 1, h.stateNodePower * 2⟩

end History

variable {n m : Nat}

def costify (x : ℚ) : ℚ := -x

/-- The edges of one stage that leave the history `k`. -/
def transitionsFrom (bend : Int → ℚ) (s : Scores n m) (h : History) (i k : Nat) : Stage ℚ :=
  let columnStride := s.matchWidth + 1
  let ksrc := k * columnStride
  ((s.cellsAt i).flatMap fun i1 =>
      -- cannot transition here: was there already
      if h.offset i1 &&& k ≠ 0 then []
      else
        let kdest := (k + h.offset i1) * columnStride
        let c := costify (s.score i i1)
        ((s.cellsBefore i).filter fun i0 => i0 ≠ i1).map
            (fun i0 => ⟨ksrc + i0 + 1, kdest + i1 + 1, c + bend ((i : Int) - i1)⟩) ++
          [⟨ksrc, kdest + i1 + 1, c⟩]) ++
    ((s.cellsBefore i).map fun i0 => ⟨ksrc + i0 + 1, ksrc, 0⟩) ++ [⟨ksrc, ksrc, 0⟩]

def transitions (bend : Int → ℚ) (s : Scores n m) (h : History) (i : Nat) : Stage ℚ :=
  (List.range h.stateNodePower).flatMap (transitionsFrom bend s h i)

def stages (bend : Int → ℚ) (s : Scores n m) (h : History) : List (Stage ℚ) :=
  (List.range s.matchHeight).map (transitions bend s h)

def lattice (bend : Int → ℚ) (s : Scores n m) (h : History) : Viterbi ℚ :=
  Viterbi.runStages
  (Viterbi.setSize Viterbi.fresh ((s.matchWidth + 1) * h.stateNodePower) s.matchHeight)
    (stages bend s h)

/-! ## Taking matches from the path -/

def cellLength (man : MeasureMan) (a : DataSheet) : Nat := if man.rowLike then a.width else a.height

def cellExists (man : MeasureMan) (a : DataSheet) (x y : Int) : Bool :=
  if x < 0 ∨ y < 0 then false
  else if man.rowLike then decide (x < a.width ∧ y < a.height)
  else decide (y < a.width ∧ x < a.height)

def cell (man : MeasureMan) (a : DataSheet) (x y : Int) : String :=
  if man.cellExists a x y = false then "(no-cell)"
  else if man.rowLike then (a.cellSummary x.toNat y.toNat).text
  else (a.cellSummary y.toNat x.toNat).text

/-- The detail check: two units that agree in every cell. -/
def perfect (man : MeasureMan) (s : Scores n m) (y : Nat) (bestIndex : Int) : Bool :=
  let a := if s.flip then man.b else man.a
  let b := if s.flip then man.a else man.b
  if man.cellLength a = man.cellLength b then
    let misses := (List.range (man.cellLength a)).countP fun kk => man.cell a kk bestIndex ≠
      man.cell b kk y
    decide (misses = 0)
  else false

def accepts (man : MeasureMan) (s : Scores n m) (y : Nat) (bestIndex : Int) : Bool :=
  let bestValue := if bestIndex ≥ 0 then s.score y bestIndex.toNat else 0
  let ref := s.ref y bestIndex
  if bestValue > ref / 4 ∧ bestIndex ≥ 0 ∧ ref > 1 / 100 then true
  else if bestIndex ≥ 0 then man.perfect s y bestIndex
  else false

/-- The variables of the loop over `y`, with the lattice that was built. -/
structure Pass where
  v : Viterbi ℚ
  asel : List Int
  bsel : List Int
  history : History
  repeatNeeded : Bool

/-- The match is taken, unless `bestIndex` has another partner: then it is tracked from now on. -/
def place (p : Pass) (y bestIndex : Nat) : Pass :=
  if p.asel.getD bestIndex (-1) ≠ -1 ∧ p.asel.getD bestIndex (-1) ≠ y then
    if (p.history.stateNode.get? bestIndex).isNone then
      let history := p.history.track bestIndex
      { p with history := history, repeatNeeded := decide (history.stateNodeCount < 4) }
    else p
  else { p with bsel := p.bsel.set y bestIndex, asel := p.asel.set bestIndex y }

/-- The body of the loop over `y`. -/
def tryUnit (man : MeasureMan) (s : Scores n m) (p : Pass) (y : Nat) : Option Pass :=
  if p.bsel.getD y (-1) = -1 then
    (p.v.getPath y).map fun (v, state) =>
      let bestIndex := state.tmod (s.matchWidth + 1) - 1
      if man.accepts s y bestIndex then place { p with v := v } y bestIndex.toNat
        else { p with v := v }
  else some p

/-- The body of the do-while. -/
def onePass (man : MeasureMan) (bend : Int → ℚ) (s : Scores n m) (sel : OrderResult)
    (h : History) : Option Pass :=
  (List.range s.matchHeight).foldlM (man.tryUnit s)
    { v := lattice bend s h
      asel := if s.flip then sel.b2aSheet else sel.a2bSheet
      bsel := if s.flip then sel.a2bSheet else sel.b2aSheet
      history := h
      repeatNeeded := false }

/-- The do-while, run at most `fuel` times. -/
def repeatPass (man : MeasureMan) (bend : Int → ℚ) (s : Scores n m) (sel : OrderResult) :
    Nat → History → Option Pass
  | 0, _ => none
  | fuel + 1, h => (man.onePass bend s sel h).bind fun p =>
    if p.repeatNeeded then repeatPass man bend s sel fuel p.history else some p

/-- `compare1`, from the point where the scores are there. -/
def compare1 (man : MeasureMan) (bend : Int → ℚ) (s : Scores n m) (sel : OrderResult) (fuel : Nat) :
    Option OrderResult :=
  (man.repeatPass bend s sel fuel History.initial).map fun p =>
    ⟨if s.flip then p.bsel else p.asel, if s.flip then p.asel else p.bsel⟩

/-! ## The passes -/

def remaining (sel : OrderResult) : Nat := sel.b2aSheet.countP (· == -1)

def processed (sel : OrderResult) : Nat := sel.b2aSheet.countP (· != -1)

/-- The loop of `compareCore` from pass `i`, of which `left` may still be made.  The selections
after each pass are listed; the last one is what `main_pass` is left with. -/
def passes (man : MeasureMan) (bend : Int → ℚ) (measure : Nat → OrderResult → Int → Scores n m)
    (fuel : Nat) : Nat → Nat → Int → Int → OrderResult → Option (List OrderResult)
  | 0, _, _, _, _ => some []
  | left + 1, i, rem, ctrl, sel =>
    (man.compare1 bend (measure i sel ctrl) sel fuel).bind fun sel' =>
      if remaining sel' = 0 then some [sel']
      else if (remaining sel' : Int) ≤ (sel'.blen : Int) - sel'.alen then some [sel']
      else if processed sel' > remaining sel' ∧ man.sampled then some [sel']
      else if rem = remaining sel' then
        if ctrl < man.ctrlMax then
          if man.trustIds && man.rowLike then some [sel']
          else (passes man bend measure fuel left (i + 1) (remaining sel')
            (min (ctrl + 1) man.ctrlMax) sel').map
              (sel' :: ·)
        else some [sel']
      else (passes man bend measure fuel left (i + 1) (remaining sel') ctrl sel').map (sel' :: ·)

def compareCore (man : MeasureMan) (bend : Int → ℚ)
    (measure : Nat → OrderResult → Int → Scores n m) (fuel : Nat)
    (sel : OrderResult) : Option (List OrderResult) :=
  if remaining sel = 0 then some [] else man.passes bend measure fuel 20 0 (-1) 0 sel

/-! ## The states of the lattice -/

variable {s : Scores n m} {h : History} {bend : Int → ℚ} {e : Edge ℚ}

theorem lt_of_mem_cellsAt {i i1 : Nat} (hi : i1 ∈ s.cellsAt i) : i1 < s.matchWidth := by
  unfold Scores.cellsAt SparseSheet.getCellsInCol SparseSheet.getCellsInRow at hi
  unfold Scores.matchWidth
  cases hf : s.flip with
  | true =>
    rw [hf, if_pos rfl] at hi
    rw [if_pos rfl]
    exact List.mem_range.1 (List.mem_filter.1 hi).1
  | false =>
    rw [hf, if_neg Bool.false_ne_true] at hi
    rw [if_neg Bool.false_ne_true]
    exact List.mem_range.1 (List.mem_filter.1 hi).1

theorem lt_of_mem_cellsBefore {i i0 : Nat} (hi : i0 ∈ s.cellsBefore i) : i0 < s.matchWidth := by
  cases i with
  | zero => cases hi
  | succ i => exact lt_of_mem_cellsAt hi

/-- The columns and histories at the two ends of an edge: it leaves all columns, or enters one whose
bit is not in the history it comes from. -/
inductive Crosses (s : Scores n m) (h : History) (e : Edge ℚ) : Prop
  | leaves (same : e.dst / (s.matchWidth + 1) = e.src / (s.matchWidth + 1))
    (column : e.dst % (s.matchWidth + 1) = 0)
  | enters (i1 : Nat) (unseen : h.offset i1 &&& e.src / (s.matchWidth + 1) = 0)
      (adds : e.dst / (s.matchWidth + 1) = e.src / (s.matchWidth + 1) + h.offset i1)
      (column : e.dst % (s.matchWidth + 1) = i1 + 1)

theorem pack_div {W k j : Nat} (hj : j ≤ W) : (k * (W + 1) + j) / (W + 1) = k := by
  rw [Nat.add_comm, Nat.add_mul_div_right _ _ W.succ_pos,
    Nat.div_eq_of_lt (Nat.lt_succ_of_le hj), Nat.zero_add]

theorem pack_mod {W k j : Nat} (hj : j ≤ W) : (k * (W + 1) + j) % (W + 1) = j := by
  rw [Nat.add_comm, Nat.add_mul_mod_self_right, Nat.mod_eq_of_lt (Nat.lt_succ_of_le hj)]

theorem mem_transitionsFrom {i k : Nat} (he : e ∈ transitionsFrom bend s h i k) :
    e.src / (s.matchWidth + 1) = k ∧ Crosses s h e := by
  have leaving : ∀ {j : Nat} {c : ℚ}, j ≤ s.matchWidth →
      e = ⟨k * (s.matchWidth + 1) + j, k * (s.matchWidth + 1), c⟩ →
      e.src / (s.matchWidth + 1) = k ∧ Crosses s h e := by
    rintro j c hj rfl
    exact ⟨pack_div hj, .leaves ((pack_div (Nat.zero_le _)).trans (pack_div hj).symm)
      (pack_mod (Nat.zero_le _))⟩
  have entering : ∀ {i1 j : Nat} {c : ℚ}, i1 < s.matchWidth → j ≤ s.matchWidth →
    h.offset i1 &&& k = 0 →
      e = ⟨k * (s.matchWidth + 1) + j, (k + h.offset i1) * (s.matchWidth + 1) + i1 + 1, c⟩ →
      e.src / (s.matchWidth + 1) = k ∧ Crosses s h e := by
    rintro i1 j c hi1 hj hbit rfl
    have hsrc : (k * (s.matchWidth + 1) + j) / (s.matchWidth + 1) = k := pack_div hj
    refine ⟨hsrc, .enters i1 ?_ ?_ (pack_mod hi1)⟩
    · rw [hsrc]
      exact hbit
    · rw [hsrc]
      exact pack_div hi1
  unfold transitionsFrom at he
  rw [List.mem_append, List.mem_append] at he
  rcases he with (he | he) | he
  · obtain ⟨i1, hi1, he⟩ := List.mem_flatMap.1 he
    have hlt := lt_of_mem_cellsAt hi1
    split at he
    · cases he
    · next hbit =>
      have hbit : h.offset i1 &&& k = 0 := not_not.1 hbit
      rcases List.mem_append.1 he with he | he
      · obtain ⟨i0, hi0, rfl⟩ := List.mem_map.1 he
        have hlt0 := lt_of_mem_cellsBefore (List.mem_filter.1 hi0).1
        exact entering hlt hlt0 hbit rfl
      · exact entering (j := 0) hlt (Nat.zero_le _) hbit (List.mem_singleton.1 he)
  · obtain ⟨i0, hi0, rfl⟩ := List.mem_map.1 he
    exact leaving (lt_of_mem_cellsBefore hi0) rfl
  · exact leaving (j := 0) (Nat.zero_le _) (List.mem_singleton.1 he)

theorem mem_stages {st : Stage ℚ} (hst : st ∈ stages bend s h) (he : e ∈ st) :
    e.src / (s.matchWidth + 1) < h.stateNodePower ∧ Crosses s h e := by
  obtain ⟨i, -, rfl⟩ := List.mem_map.1 hst
  obtain ⟨k, hk, he⟩ := List.mem_flatMap.1 he
  obtain ⟨hsrc, hcross⟩ := mem_transitionsFrom he
  exact ⟨hsrc ▸ List.mem_range.1 hk, hcross⟩

/-- The bits are single, and the histories are the sets of them. -/
structure History.Valid (h : History) : Prop where
  power : h.stateNodePower = 2 ^ h.stateNodeCount
  single : ∀ c o, h.stateNode.get? c = some o → ∃ j < h.stateNodeCount, o = 2 ^ j

theorem History.valid_initial : History.initial.Valid := ⟨rfl, fun _ _ h => nomatch h⟩

theorem History.Valid.track (hv : h.Valid) (c : Nat) : (h.track c).Valid where
  power := by
    show h.stateNodePower * 2 = 2 ^ (h.stateNodeCount + 1)
    rw [hv.power, Nat.pow_succ]
  single := fun c' o hget => by
    have hget : (h.stateNode.set c h.stateNodePower).get? c' = some o := hget
    rw [AssocMap.get?_set] at hget
    split at hget
    · exact ⟨h.stateNodeCount, Nat.lt_succ_self _, (Option.some.inj hget).symm.trans hv.power⟩
    · obtain ⟨j, hj, ho⟩ := hv.single c' o hget
      exact ⟨j, Nat.lt_succ_of_lt hj, ho⟩

theorem History.Valid.offset_lt (hv : h.Valid) (c : Nat) : h.offset c < 2 ^ h.stateNodeCount := by
  unfold History.offset
  cases hget : h.stateNode.get? c with
  | none => exact Nat.two_pow_pos _
  | some o =>
    obtain ⟨j, hj, rfl⟩ := hv.single c o hget
    exact Nat.pow_lt_pow_right Nat.one_lt_two hj

/-- What the lattice of a history keeps to. -/
structure Sound (s : Scores n m) (h : History) (stages : List (Stage ℚ)) : Prop where
  /-- Every state passed to it was declared. -/
  below : ∀ st ∈ stages, ∀ e ∈ st,
    e.src < (s.matchWidth + 1) * h.stateNodePower ∧ e.dst < (s.matchWidth + 1) * h.stateNodePower
  /-- A path enters a tracked column at most once. -/
  once : ∀ es, IsPath stages es →
    ∀ c ∈ h.stateNode.keys, es.countP (fun e => e.dst % (s.matchWidth + 1) == c + 1) ≤ 1

theorem lt_of_div_lt {W x K : Nat} (hx : x / (W + 1) < K) : x < (W + 1) * K := by
  rw [Nat.mul_comm]
  exact (Nat.div_lt_iff_lt_mul W.succ_pos).1 hx

theorem below_of_valid (hv : h.Valid) {st : Stage ℚ} (hst : st ∈ stages bend s h) (he : e ∈ st) :
    e.src < (s.matchWidth + 1) * h.stateNodePower ∧
    e.dst < (s.matchWidth + 1) * h.stateNodePower := by
  obtain ⟨hsrc, hcross⟩ := mem_stages hst he
  refine ⟨lt_of_div_lt hsrc, lt_of_div_lt ?_⟩
  cases hcross with
  | leaves same column => exact same ▸ hsrc
  | enters i1 unseen adds column =>
    rw [hv.power] at hsrc ⊢
    rw [adds]
    exact add_lt_two_pow (by rwa [Nat.and_comm] at unseen) hsrc (hv.offset_lt i1)

/-- The lattice of a valid history is sound: the bit of a column is set by the edge that enters it,
and stays. -/
theorem sound_of_valid (hv : h.Valid) : Sound s h (stages bend s h) where
  below := fun st hst e he => below_of_valid hv hst he
  once := fun es hes c hc => by
    obtain ⟨o, ho⟩ := Option.ne_none_iff_exists'.1 fun hnone => AssocMap.get?_eq_none_iff.1 hnone hc
    obtain ⟨j, hj, rfl⟩ := hv.single c o ho
    have hoff : h.offset c = 2 ^ j := by
      unfold History.offset
      rw [ho]
      rfl
    refine @IsPath.countP_le_one ℚ _ (fun x => (x / (s.matchWidth + 1)).testBit j = true) _ _ hes ?_
      ?_
    · intro st hst e he hmark
      cases (mem_stages hst he).2 with
      | leaves same column => rwa [same]
      | enters i1 unseen adds column =>
        rw [adds]
        exact testBit_add_of_testBit (by rwa [Nat.and_comm] at unseen) hmark
    · intro st hst e he henter
      have henter : e.dst % (s.matchWidth + 1) = c + 1 := by simpa using henter
      cases (mem_stages hst he).2 with
      | leaves same column => omega
      | enters i1 unseen adds column =>
        obtain rfl : i1 = c := by omega
        rw [hoff] at unseen adds
        obtain ⟨hno, hyes⟩ := testBit_add_two_pow (by rwa [Nat.and_comm] at unseen)
        rw [hno, adds]
        exact ⟨Bool.false_ne_true, hyes⟩

end MeasureMan

/-! ## Selections -/

namespace Matching

variable {n m : Nat}

/-- The same pairs, read from the other side. -/
def swap (M : Matching n m) : Matching m n where
  a2bSheet := M.b2aSheet
  b2aSheet := M.a2bSheet
  alen_eq := M.blen_eq
  blen_eq := M.alen_eq
  a2b_range := M.b2a_range
  b2a_range := M.a2b_range
  paired := fun j hj i hi => (M.paired i hi j hj).symm

theorem swap_fwd (M : Matching n m) (j : Nat) : M.swap.fwd j = M.bwd j := rfl

/-- Two indices without a partner, joined. -/
def join (M : Matching n m) {i j : Nat} (hi : i < n) (hj : j < m) (ha : M.a2bSheet.getD i (-1) = -1)
    (hb : M.b2aSheet.getD j (-1) = -1) : Matching n m where
  a2bSheet := M.a2bSheet.set i j
  b2aSheet := M.b2aSheet.set j i
  alen_eq := by rw [List.length_set, M.alen_eq]
  blen_eq := by rw [List.length_set, M.blen_eq]
  a2b_range := fun x hx => by
    rcases List.mem_or_eq_of_mem_set hx with hx | rfl
    · exact M.a2b_range x hx
    · right
      omega
  b2a_range := fun x hx => by
    rcases List.mem_or_eq_of_mem_set hx with hx | rfl
    · exact M.b2a_range x hx
    · right
      omega
  paired := fun i' hi' j' hj' => by
    have hold := M.paired i' hi' j' hj'
    rw [getD_set, getD_set, M.alen_eq, M.blen_eq]
    by_cases hii : i = i'
    · subst hii
      rw [if_pos ⟨rfl, hi⟩]
      by_cases hjj : j = j'
      · subst hjj
        rw [if_pos ⟨rfl, hj⟩]
        exact iff_of_true rfl rfl
      · rw [if_neg fun h => hjj h.1]
        rw [ha] at hold
        exact iff_of_false (by omega) fun h => by have := hold.2 h; omega
    · rw [if_neg fun h => hii h.1]
      by_cases hjj : j = j'
      · subst hjj
        rw [if_pos ⟨rfl, hj⟩]
        rw [hb] at hold
        exact iff_of_false (fun h => by have := hold.1 h; omega) (by omega)
      · rw [if_neg fun h => hjj h.1]
        exact hold

/-- Every pair of `M` is a pair of `M'`. -/
def KeptBy (M M' : Matching n m) : Prop := ∀ i j, M.fwd i = some j → M'.fwd i = some j

theorem KeptBy.refl (M : Matching n m) : M.KeptBy M := fun _ _ h => h

theorem KeptBy.trans {M M' M'' : Matching n m} (h : M.KeptBy M') (h' : M'.KeptBy M'') :
    M.KeptBy M'' :=
  fun i j hij => h' i j (h i j hij)

theorem KeptBy.swap {M M' : Matching n m} (h : M.KeptBy M') : M.swap.KeptBy M'.swap :=
    fun j i hji => by
  rw [swap_fwd, ← fwd_eq_some_iff] at hji ⊢
  exact h i j hji

theorem keptBy_join (M : Matching n m) {i j : Nat} (hi : i < n) (hj : j < m)
    (ha : M.a2bSheet.getD i (-1) = -1)
    (hb : M.b2aSheet.getD j (-1) = -1) : M.KeptBy (M.join hi hj ha hb) := fun i' j' hij => by
  have hold := (M.a2b_eq_iff i' j').2 hij
  rw [← a2b_eq_iff]
  unfold OrderResult.a2b at hold ⊢
  rw [OrderResult.lookup_natCast] at hold ⊢
  show (M.a2bSheet.set i j).getD i' (-1) = j'
  have hne : ¬ (i = i' ∧ i' < M.a2bSheet.length) := by
    rintro ⟨rfl, -⟩
    omega
  rw [getD_set, if_neg hne]
  exact hold

end Matching

namespace MeasureMan

/-! ## One pass -/

variable {n m W H : Nat} {s : Scores n m} {h : History} {bend : Int → ℚ} {man : MeasureMan}

/-- The state of having no match loops through every stage. -/
theorem exists_chain (hv : h.Valid) (hheight : 0 < s.matchHeight) :
    ∃ p c, Chain (stages bend s h).reverse p c := by
  have hloop : ∀ st ∈ (stages bend s h).reverse, ∃ e ∈ st, e.src = 0 ∧ e.dst = 0 := by
    intro st hst
    obtain ⟨i, -, rfl⟩ := List.mem_map.1 (List.mem_reverse.1 hst)
    have hpow : 0 < h.stateNodePower := hv.power ▸ Nat.two_pow_pos _
    refine ⟨⟨0 * (s.matchWidth + 1), 0 * (s.matchWidth + 1), 0⟩, ?_, Nat.zero_mul _, Nat.zero_mul _⟩
    refine List.mem_flatMap.2 ⟨0, List.mem_range.2 hpow, ?_⟩
    exact List.mem_append_right _ (List.mem_singleton.2 rfl)
  have hne : (stages bend s h).reverse ≠ [] := by
    rw [ne_eq, List.reverse_eq_nil_iff, ← List.length_eq_zero_iff, stages, List.length_map,
      List.length_range]
    omega
  obtain ⟨q, c, hc⟩ := exists_chain_of_loop 0 _ hne hloop
  exact ⟨_, c, hc⟩

/-- A lattice whose path can be read at each of its stages. -/
structure Readable (v : Viterbi ℚ) (height : Nat) (v' : Viterbi ℚ) : Prop where
  path : v.calculatePath = some v'
  again : v'.calculatePath = some v'
  length : v'.index = height
  nonneg : ∀ y, y < height → ∃ state : Nat, v'.path.cell 0 y = state

theorem Readable.getPath {v v' : Viterbi ℚ} {height y : Nat} (hr : Readable v height v')
    (hy : y < height) : ∃ state : Nat, v.getPath y = some (v', (state : Int)) := by
  obtain ⟨state, hstate⟩ := hr.nonneg y hy
  refine ⟨state, ?_⟩
  unfold Viterbi.getPath
  rw [hr.path, Option.bind_some, if_pos (by rw [hr.length]; exact hy), hstate]

theorem readable_lattice (hv : h.Valid) (hheight : 0 < s.matchHeight) :
    ∃ v', Readable (lattice bend s h) s.matchHeight v' := by
  have hlen : (stages bend s h).length = s.matchHeight := by
    rw [stages, List.length_map, List.length_range]
  obtain ⟨v', c, j, hpath, hidx, hvalid, -, -, -, -, hcell⟩ := Viterbi.runStages_path
    ((s.matchWidth + 1) * h.stateNodePower) s.matchHeight Viterbi.fresh (stages bend s h)
    (fun st hst e he => below_of_valid hv hst he) (exists_chain hv hheight)
  refine ⟨v', hpath, ?_, hidx.trans hlen, fun y hy => ⟨_, hcell y (by rw [hlen]; exact hy)⟩⟩
  unfold Viterbi.calculatePath
  exact if_pos hvalid

/-- What the loop over `y` keeps, from the history `h` and the pairs of `M` on. -/
structure Keeps (h : History) (M : Matching W H) (p : Pass) : Prop where
  pairs : ∃ M' : Matching W H, M.KeptBy M' ∧ p.asel = M'.a2bSheet ∧ p.bsel = M'.b2aSheet
  readable : 0 < H → ∃ v', Readable p.v H v'
  valid : p.history.Valid
  grown : h.stateNodeCount ≤ p.history.stateNodeCount
  again : p.repeatNeeded = true → h.stateNodeCount < p.history.stateNodeCount ∧
    p.history.stateNodeCount < 4

theorem Keeps.place {M : Matching W H} {p : Pass} (hp : Keeps h M p)
    {y bestIndex : Nat} (hy : y < H) (hbest : bestIndex < W) (hfree : p.bsel.getD y (-1) = -1) :
    Keeps h M (place p y bestIndex) := by
  obtain ⟨M', hkept, ha, hb⟩ := hp.pairs
  have hgrown := hp.grown
  unfold MeasureMan.place
  by_cases hcollision : p.asel.getD bestIndex (-1) ≠ -1 ∧ p.asel.getD bestIndex (-1) ≠ y
  · rw [if_pos hcollision]
    by_cases hnew : (p.history.stateNode.get? bestIndex).isNone
    · rw [if_pos hnew]
      have hcount : (p.history.track bestIndex).stateNodeCount = p.history.stateNodeCount + 1 := rfl
      refine ⟨hp.pairs, hp.readable, hp.valid.track bestIndex, ?_, fun hagain => ?_⟩
      · show h.stateNodeCount ≤ (p.history.track bestIndex).stateNodeCount
        omega
      · have hlt : (p.history.track bestIndex).stateNodeCount < 4 := of_decide_eq_true hagain
        exact ⟨by show h.stateNodeCount < (p.history.track bestIndex).stateNodeCount; omega, hlt⟩
    · rw [if_neg hnew]
      exact hp
  · rw [if_neg hcollision]
    -- the column is free: were it `y`'s, `y` would be its partner
    have hfreeA : M'.a2bSheet.getD bestIndex (-1) = -1 := by
      by_contra hne
      rw [ha] at hcollision
      have hy' : M'.a2bSheet.getD bestIndex (-1) = y := not_not.1 fun hne' => hcollision ⟨hne, hne'⟩
      have hback := (M'.paired bestIndex hbest y hy).1 hy'
      rw [hb] at hfree
      omega
    have hfreeB : M'.b2aSheet.getD y (-1) = -1 := hb ▸ hfree
    refine ⟨⟨M'.join hbest hy hfreeA hfreeB, hkept.trans (M'.keptBy_join hbest hy hfreeA hfreeB),
      ?_, ?_⟩, hp.readable, hp.valid, hp.grown, hp.again⟩
    · show p.asel.set bestIndex y = M'.a2bSheet.set bestIndex y
      rw [ha]
    · show p.bsel.set y bestIndex = M'.b2aSheet.set y bestIndex
      rw [hb]

theorem nonneg_of_accepts {y : Nat} {bestIndex : Int} (hok : man.accepts s y bestIndex = true) :
    0 ≤ bestIndex := by
  unfold accepts at hok
  by_contra hneg
  have hlt : ¬ bestIndex ≥ 0 := hneg
  simp [hlt] at hok

theorem Keeps.tryUnit {M : Matching W H} {p : Pass} (hp : Keeps h M p) (hW : s.matchWidth = W)
    {y : Nat} (hy : y < H) : ∃ p', man.tryUnit s p y = some p' ∧ Keeps h M p' := by
  unfold MeasureMan.tryUnit
  by_cases hfree : p.bsel.getD y (-1) = -1
  · rw [if_pos hfree]
    obtain ⟨v', hr⟩ := hp.readable (Nat.zero_lt_of_lt hy)
    obtain ⟨state, hstate⟩ := hr.getPath hy
    have hp' : Keeps h M { p with v := v' } :=
      ⟨hp.pairs, fun _ => ⟨v', hr.again, hr.again, hr.length, hr.nonneg⟩, hp.valid,
        hp.grown, hp.again⟩
    rw [hstate]
    refine ⟨_, rfl, ?_⟩
    show Keeps h M (if man.accepts s y ((state : Int).tmod (s.matchWidth + 1) - 1) then _ else _)
    split
    · next hok =>
      have hnn := nonneg_of_accepts hok
      have hmod :
        (state : Int).tmod ((s.matchWidth : Int) + 1) =
        ((state % (s.matchWidth + 1) : Nat) : Int) := by
        rw [Int.tmod_eq_emod_of_nonneg (Int.natCast_nonneg _), Int.natCast_emod]
        rfl
      have hlt : state % (s.matchWidth + 1) < s.matchWidth + 1 :=
        Nat.mod_lt state s.matchWidth.succ_pos
      exact hp'.place hy (by omega) hfree
    · exact hp'
  · rw [if_neg hfree]
    exact ⟨p, rfl, hp⟩

/-- `R` is `M` in the roles of the pass: from the longer side to the shorter one. -/
structure Roles (s : Scores n m) (M : Matching n m) (R : Matching W H) : Prop where
  width : s.matchWidth = W
  height : s.matchHeight = H
  asel : (if s.flip then M.b2aSheet else M.a2bSheet) = R.a2bSheet
  bsel : (if s.flip then M.a2bSheet else M.b2aSheet) = R.b2aSheet
  back : ∀ R' : Matching W H, R.KeptBy R' → ∃ M' : Matching n m, M.KeptBy M' ∧
    M'.toOrderResult = ⟨if s.flip then R'.b2aSheet else R'.a2bSheet, if s.flip then R'.a2bSheet
      else R'.b2aSheet⟩

theorem exists_roles (s : Scores n m) (M : Matching n m) :
    ∃ (W H : Nat) (R : Matching W H), Roles s M R := by
  cases hf : s.flip with
  | true =>
    have hW : s.matchWidth = m := by rw [Scores.matchWidth, hf, if_pos rfl, s.h_eq]
    have hH : s.matchHeight = n := by rw [Scores.matchHeight, hf, if_pos rfl, s.w_eq]
    refine ⟨m, n, M.swap, hW,
      hH, by rw [hf]; rfl, by rw [hf]; rfl, fun R' hkept => ⟨R'.swap, hkept.swap, ?_⟩⟩
    rw [hf]
    rfl
  | false =>
    have hW : s.matchWidth = n := by rw [Scores.matchWidth, hf, if_neg Bool.false_ne_true, s.w_eq]
    have hH : s.matchHeight = m := by rw [Scores.matchHeight, hf, if_neg Bool.false_ne_true, s.h_eq]
    refine ⟨n, m, M, hW, hH, by rw [hf]; rfl, by rw [hf]; rfl, fun R' hkept => ⟨R', hkept, ?_⟩⟩
    rw [hf]
    rfl

/-- **One pass** over the shorter side succeeds, and keeps the pairs it was given. -/
theorem onePass_keeps {M : Matching n m} {R : Matching W H} (hroles : Roles s M R) (hv : h.Valid) :
    ∃ p, man.onePass bend s M.toOrderResult h = some p ∧ Keeps h R p := by
  have hread : 0 < H → ∃ v', Readable (lattice bend s h) H v' := fun hpos => by
    have hr : ∃ v', Readable (lattice bend s h) s.matchHeight v' :=
      readable_lattice hv (hroles.height ▸ hpos)
    rwa [hroles.height] at hr
  unfold onePass
  rw [hroles.height]
  exact foldlM_invariant (Keeps h R) (List.range H)
    (fun p hp y hy => hp.tryUnit hroles.width (List.mem_range.1 hy))
    ⟨⟨R, .refl R, hroles.asel, hroles.bsel⟩, hread, hv, le_refl _, fun h => nomatch h⟩

/-- **The do-while ends**: a pass that is repeated has tracked one more column, and the fourth ends
it. -/
theorem repeatPass_keeps {M : Matching n m} {R : Matching W H} (hroles : Roles s M R)
    (fuel : Nat) {h : History}
    (hv : h.Valid) (hfuel : 4 ≤ fuel + h.stateNodeCount) (hpos : 0 < fuel) :
    ∃ p, man.repeatPass bend s M.toOrderResult fuel h = some p ∧
      ∃ R' : Matching W H, R.KeptBy R' ∧ p.asel = R'.a2bSheet ∧ p.bsel = R'.b2aSheet := by
  induction fuel generalizing h with
  | zero => exact absurd hpos (Nat.lt_irrefl 0)
  | succ fuel ih =>
    obtain ⟨p, hpass, hp⟩ : ∃ p, man.onePass bend s M.toOrderResult h = some p ∧ Keeps h R p :=
      onePass_keeps hroles hv
    unfold repeatPass
    rw [hpass, Option.bind_some]
    by_cases hagain : p.repeatNeeded = true
    · obtain ⟨hgrown, hlt⟩ := hp.again hagain
      rw [if_pos hagain]
      exact ih hp.valid (by omega) (by omega)
    · rw [if_neg hagain]
      exact ⟨p, rfl, hp.pairs⟩

/-- **One call of `compare1`**, whichever side is the longer one. -/
theorem compare1_keeps (s : Scores n m) (M : Matching n m) (fuel : Nat) :
    ∃ M' : Matching n m, man.compare1 bend s M.toOrderResult (fuel + 4) = some M'.toOrderResult ∧
    M.KeptBy M' := by
  obtain ⟨W, H, R, hroles⟩ := exists_roles s M
  obtain ⟨p, hp, R', hkept, ha, hb⟩ :
    ∃ p, man.repeatPass bend s M.toOrderResult (fuel + 4) History.initial = some p ∧
      ∃ R' : Matching W H, R.KeptBy R' ∧ p.asel = R'.a2bSheet ∧ p.bsel = R'.b2aSheet :=
    repeatPass_keeps hroles (fuel + 4) History.valid_initial (Nat.le_add_left 4 _) (Nat.succ_pos _)
  obtain ⟨M', hkept', hM'⟩ := hroles.back R' hkept
  refine ⟨M', ?_, hkept'⟩
  unfold compare1
  rw [hp, Option.map_some, ha, hb, hM']

/-! ## All passes -/

/-- The selections `sels` are partial bijections, the first keeping the pairs of `M` and each next
one those before. -/
def Chained (M : Matching n m) (sels : List OrderResult) : Prop :=
  ∃ Ms : List (Matching n m), sels = Ms.map Matching.toOrderResult ∧
  (M :: Ms).IsChain Matching.KeptBy

theorem Chained.one {M M' : Matching n m} (hkept : M.KeptBy M') : Chained M [M'.toOrderResult] :=
  ⟨[M'], rfl, .cons_cons hkept (.singleton _)⟩

theorem Chained.cons {M M' : Matching n m} {sels : List OrderResult} (hkept : M.KeptBy M')
    (hc : Chained M' sels) : Chained M (M'.toOrderResult :: sels) := by
  obtain ⟨Ms, rfl, hchain⟩ := hc
  exact ⟨M' :: Ms, rfl, .cons_cons hkept hchain⟩

theorem passes_chained (measure : Nat → OrderResult → Int → Scores n m) (fuel left : Nat) :
    ∀ (i : Nat) (rem ctrl : Int) (M : Matching n m),
      ∃ sels, man.passes bend measure (fuel + 4) left i rem ctrl M.toOrderResult = some sels ∧
      Chained M sels := by
  induction left with
  | zero => exact fun _ _ _ M => ⟨[], rfl, [], rfl, .singleton _⟩
  | succ left ih =>
    intro i rem ctrl M
    obtain ⟨M', hcompare, hkept⟩ : ∃ M' : Matching n m,
        man.compare1 bend (measure i M.toOrderResult ctrl) M.toOrderResult (fuel + 4) =
        some M'.toOrderResult ∧ M.KeptBy M' :=
      compare1_keeps (measure i M.toOrderResult ctrl) M fuel
    have hstop : ∃ sels, some [M'.toOrderResult] = some sels ∧ Chained M sels :=
      ⟨_, rfl, .one hkept⟩
    have hgo :
      ∀ rem ctrl, ∃ sels,
      (man.passes bend measure (fuel + 4) left (i + 1) rem ctrl M'.toOrderResult).map
        (M'.toOrderResult :: ·) = some sels ∧ Chained M sels := fun rem ctrl => by
      obtain ⟨sels, hsels, hc⟩ := ih (i + 1) rem ctrl M'
      exact ⟨_, by rw [hsels]; rfl, hc.cons hkept⟩
    unfold passes
    rw [hcompare, Option.bind_some]
    split
    · exact hstop
    · split
      · exact hstop
      · split
        · exact hstop
        · split
          · split
            · split
              · exact hstop
              · exact hgo _ _
            · exact hstop
          · exact hgo _ _

theorem compareCore_chained (measure : Nat → OrderResult → Int → Scores n m) (M : Matching n m)
    (fuel : Nat) : ∃ sels, man.compareCore bend measure (fuel + 4) M.toOrderResult = some sels ∧
    Chained M sels := by
  unfold compareCore
  split
  · exact ⟨[], rfl, [], rfl, .singleton _⟩
  · exact passes_chained measure fuel 20 0 (-1) 0 M

/-- The histories that the do-while builds a lattice for. -/
inductive Built (man : MeasureMan) (bend : Int → ℚ) (s : Scores n m)
    (sel : OrderResult) : History → Prop
  | first : Built man bend s sel History.initial
  | again {h : History} {p : Pass} (built : Built man bend s sel h)
    (pass : man.onePass bend s sel h = some p)
      (repeatNeeded : p.repeatNeeded = true) : Built man bend s sel p.history

theorem Built.valid {M : Matching n m} (hb : Built man bend s M.toOrderResult h) : h.Valid := by
  induction hb with
  | first => exact History.valid_initial
  | again _ hpass _ ih =>
    obtain ⟨W, H, R, hroles⟩ := exists_roles s M
    obtain ⟨p', hpass', hp'⟩ : ∃ p, man.onePass bend s M.toOrderResult _ = some p ∧ Keeps _ R p :=
      onePass_keeps hroles ih
    rw [hpass] at hpass'
    cases hpass'
    exact hp'.valid

/-- A lattice of a pass. -/
structure Round (man : MeasureMan) (bend : Int → ℚ) (s : Scores n m) (sel : OrderResult) where
  history : History
  built : Built man bend s sel history

/-- **The matching of two sheets** ends with partial bijections, whatever the scores, each pass
keeping the pairs before it; and its lattices hold only declared states and enter a tracked column
at most once. -/
theorem compareCore_matchings (man : MeasureMan) (bend : Int → ℚ) (measure : Nat → OrderResult →
    Int → Scores n m)
    (M : Matching n m) (fuel : Nat) :
    (∃ sels, man.compareCore bend measure (fuel + 4) M.toOrderResult = some sels ∧ Chained M sels) ∧
      ∀ (s : Scores n m) (M' : Matching n m) (r : Round man bend s M'.toOrderResult),
        Sound s r.history (stages bend s r.history) :=
  ⟨compareCore_chained measure M fuel, fun _ _ r => sound_of_valid r.built.valid⟩

/-- The first and the last of three units want the same one. -/
def wantedTwice : Scores 3 3 where
  sheet := (((((SparseSheet.empty 0).resize 3 3 0).write 0 0 1).write 1 1 1).write 0 2 1).write 2 2
    (1 / 2)
  w_eq := rfl
  h_eq := rfl
  anorm := fun _ => 1
  bnorm := fun _ => 1

def nothingMatched : Matching 3 3 :=
  ⟨⟨[-1, -1, -1], [-1, -1, -1]⟩, rfl, rfl, by decide, by decide, by decide⟩

def threeRows : DataSheet :=
  ⟨1, [[⟨"a", false⟩], [⟨"b", false⟩], [⟨"c", false⟩]], by decide, by decide⟩

def byRows : MeasureMan := ⟨threeRows, threeRows, true, false, false, 0⟩

/-- The unit that is wanted twice is tracked in a second round. -/
theorem compareCore_matchings_wantedTwice :
    (∃ sels,
      byRows.compareCore (fun d => d.natAbs / 10)
      (fun _ _ _ => wantedTwice) 4 nothingMatched.toOrderResult =
        some sels ∧ Chained nothingMatched sels) ∧
      ∃ r : Round byRows (fun d => d.natAbs / 10) wantedTwice nothingMatched.toOrderResult,
        r.history.stateNode = [(0, 1)] ∧
          Sound wantedTwice r.history (stages (fun d => d.natAbs / 10) wantedTwice r.history) := by
  obtain ⟨hends, hsound⟩ :=
    compareCore_matchings byRows (fun d => d.natAbs / 10)
    (fun _ _ _ => wantedTwice) nothingMatched 0
  have hpass :
    (byRows.onePass (fun d => d.natAbs / 10) wantedTwice nothingMatched.toOrderResult
      History.initial).map
      (fun p => (p.history.stateNode, p.repeatNeeded)) = some ([(0, 1)], true) := by decide +kernel
  obtain ⟨p, hp, hround⟩ := Option.map_eq_some_iff.1 hpass
  exact ⟨hends, ⟨p.history, .again .first hp (congrArg Prod.snd hround)⟩, congrArg Prod.fst hround,
    hsound wantedTwice nothingMatched _⟩

end MeasureMan

end Coopy
