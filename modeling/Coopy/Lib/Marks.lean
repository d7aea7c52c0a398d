import Coopy.Lib.Trellis
import Mathlib.Algebra.Group.Nat.Defs

/-!
# Marks along the paths of a trellis

A set of marks kept in a number, one bit each, is carried along a path.  An edge may set a mark that
is not there yet; no edge clears one.

    edges keep the mark → edges that enter set it → a path enters at most once
                                                                              (IsPath.countP_le_one)
    x &&& y = 0 → x + y = x ||| y                                                        (add_eq_or)
-/

namespace Coopy.Lib.Trellis

section
variable {κ : Type} {enters : Edge κ → Bool} {marked : Nat → Prop}

/-- A marked path is never entered. -/
theorem countP_eq_zero_of_marked {es : List (Edge κ)} (keep : ∀ e ∈ es, marked e.src → marked e.dst)
    (fresh : ∀ e ∈ es, enters e = true → ¬ marked e.src)
    (hchain : es.IsChain fun e f => e.dst = f.src)
    (hstart : ∀ e ∈ es.head?, marked e.src) : es.countP enters = 0 := by
  induction es with
  | nil => rfl
  | cons e es ih =>
    have hmark : marked e.src := hstart e rfl
    have hnot : ¬ enters e = true := fun h => fresh e List.mem_cons_self h hmark
    rw [List.countP_cons_of_neg hnot]
    refine ih (fun f hf => keep f (List.mem_cons_of_mem _ hf))
      (fun f hf => fresh f (List.mem_cons_of_mem _ hf))
      hchain.of_cons fun f hf => ?_
    obtain ⟨es', rfl⟩ : ∃ es', es = f :: es' := List.head?_eq_some_iff.1 hf
    rw [← (List.isChain_cons_cons.1 hchain).1]
    exact keep e List.mem_cons_self hmark

theorem countP_le_one_of_chain {es : List (Edge κ)} (keep : ∀ e ∈ es, marked e.src → marked e.dst)
    (sets : ∀ e ∈ es, enters e = true → ¬ marked e.src ∧ marked e.dst)
    (hchain : es.IsChain fun e f => e.dst = f.src) : es.countP enters ≤ 1 := by
  induction es with
  | nil => exact Nat.zero_le _
  | cons e es ih =>
    have keep' : ∀ f ∈ es, marked f.src → marked f.dst :=
      fun f hf => keep f (List.mem_cons_of_mem _ hf)
    have sets' := fun f hf => sets f (List.mem_cons_of_mem e hf)
    cases he : enters e with
    | false =>
      rw [List.countP_cons_of_neg (by rw [he]; exact Bool.false_ne_true)]
      exact ih keep' sets' hchain.of_cons
    | true =>
      have hdst : marked e.dst := (sets e List.mem_cons_self he).2
      -- what follows starts marked
      have hrest : es.countP enters = 0 := by
        refine countP_eq_zero_of_marked keep' (fun f hf h => (sets' f hf h).1) hchain.of_cons
          fun f hf => ?_
        obtain ⟨es', rfl⟩ : ∃ es', es = f :: es' := List.head?_eq_some_iff.1 hf
        rw [← (List.isChain_cons_cons.1 hchain).1]
        exact hdst
      rw [List.countP_cons_of_pos he, hrest]

/-- **Entered at most once.**  Where every edge keeps a mark, and an edge that enters leaves from an
unmarked state for a marked one, a path enters at most once. -/
theorem IsPath.countP_le_one {stages : List (Stage κ)} {es : List (Edge κ)} (h : IsPath stages es)
    (keep : ∀ st ∈ stages, ∀ e ∈ st, marked e.src → marked e.dst)
    (sets : ∀ st ∈ stages, ∀ e ∈ st, enters e = true → ¬ marked e.src ∧ marked e.dst) :
    es.countP enters ≤ 1 := by
  have hmem : ∀ e ∈ es, ∃ st ∈ stages, e ∈ st := fun e he => by
    obtain ⟨i, hi, rfl⟩ := List.getElem_of_mem he
    have hi' : i < stages.length := h.edges.length_eq ▸ hi
    exact ⟨stages[i], List.getElem_mem hi', h.edges.get hi hi'⟩
  refine @countP_le_one_of_chain κ enters marked es (fun e he => ?_) (fun e he => ?_) h.chained
  · obtain ⟨st, hst, hes⟩ := hmem e he
    exact keep st hst e hes
  · obtain ⟨st, hst, hes⟩ := hmem e he
    exact sets st hst e hes

end

/-! ## Bits -/

/-- Where no bit is in both there is no carry. -/
theorem add_eq_or {x y : Nat} (h : x &&& y = 0) : x + y = x ||| y := by
  have hlt : x + y < 2 ^ (x + y + 1) := by
    have := Nat.lt_two_pow_self (n := x + y + 1)
    omega
  have hb : BitVec.ofNat (x + y + 1) x &&& BitVec.ofNat (x + y + 1) y = 0#(x + y + 1) := by
    rw [← BitVec.ofNat_and, h]
  have hadd := congrArg BitVec.toNat (BitVec.add_eq_or_of_and_eq_zero _ _ hb)
  rw [BitVec.toNat_add, BitVec.toNat_or, BitVec.toNat_ofNat, BitVec.toNat_ofNat,
    Nat.mod_eq_of_lt (by omega : x < _),
    Nat.mod_eq_of_lt (by omega : y < _), Nat.mod_eq_of_lt hlt] at hadd
  exact hadd

/-- A bit that is not there is added below the same bound. -/
theorem add_lt_two_pow {x y n : Nat} (h : x &&& y = 0) (hx : x < 2 ^ n) (hy : y < 2 ^ n) :
    x + y < 2 ^ n := by
  rw [add_eq_or h]
  exact Nat.or_lt_two_pow hx hy

theorem testBit_add_of_testBit {x y i : Nat} (h : x &&& y = 0) (hx : x.testBit i = true) :
    (x + y).testBit i = true := by
  rw [add_eq_or h, Nat.testBit_or, hx, Bool.true_or]

theorem testBit_add_two_pow {x j : Nat} (h : x &&& 2 ^ j = 0) :
    x.testBit j = false ∧ (x + 2 ^ j).testBit j = true := by
  constructor
  · have hand := congrArg (Nat.testBit · j) h
    simpa [Nat.testBit_and, Nat.testBit_two_pow_self] using hand
  · rw [add_eq_or h, Nat.testBit_or, Nat.testBit_two_pow_self, Bool.or_true]

end Coopy.Lib.Trellis
