import Mathlib.Algebra.Group.Int.Defs
import Mathlib.Algebra.Group.Nat.Defs
import Mathlib.Algebra.Order.Monoid.Unbundled.Defs
import Mathlib.Data.Int.Order.Basic
import Mathlib.Data.Nat.Log
import Mathlib.Order.Lattice

/-!
# Binary floating-point numbers

The numbers of a format as whole multiples of its smallest positive one.  A sum of two is then exact
up to the rounding to `precision` significant bits, to the nearest with ties to even, and to the
infinities past the bound. There is one zero and no NaN: a finite number added to any number gives
none.

    m ≤ n → roundBits p m ≤ roundBits p n              (roundBits_mono)
    x ≤ y → z + x ≤ z + y                                     (add_mono)
-/

namespace Coopy.Lib.Rounding

/-! ## Natural numbers -/

/-- `n / 2 ^ s`, rounded to the nearest, ties to even. -/
def halfEven (n s : Nat) : Nat :=
  let q := n / 2 ^ s
  let r := n % 2 ^ s
  if 2 * r < 2 ^ s ∨ 2 * r = 2 ^ s ∧ q % 2 = 0 then q else q + 1

theorem halfEven_mono {m n : Nat} (h : m ≤ n) (s : Nat) : halfEven m s ≤ halfEven n s := by
  have hq : m / 2 ^ s ≤ n / 2 ^ s := Nat.div_le_div_right h
  unfold halfEven
  simp only
  rcases Nat.lt_or_eq_of_le hq with hlt | heq
  · split <;> split <;> omega
  · -- in the same step the remainders decide
    have hm := Nat.div_add_mod m (2 ^ s)
    have hn := Nat.div_add_mod n (2 ^ s)
    rw [heq] at hm ⊢
    split <;> split <;> omega

theorem halfEven_mul (k s : Nat) : halfEven (k * 2 ^ s) s = k := by
  have hpos : 0 < 2 ^ s := Nat.two_pow_pos s
  unfold halfEven
  simp only [Nat.mul_div_cancel k hpos, Nat.mul_mod_left, Nat.mul_zero]
  rw [if_pos (Or.inl hpos)]

/-- The bits past the first `p` significant ones. -/
def excess (p n : Nat) : Nat := Nat.log2 n + 1 - p

theorem excess_mono (p : Nat) {m n : Nat} (h : m ≤ n) : excess p m ≤ excess p n := by
  unfold excess
  rcases Nat.eq_zero_or_pos m with rfl | hm
  · rw [Nat.log2_zero]
    omega
  · have : Nat.log2 m ≤ Nat.log2 n :=
      (Nat.le_log2 (by omega)).2 ((Nat.log2_self_le (by omega)).trans h)
    omega

/-- `n` rounded to `p` significant bits. -/
def roundNat (p n : Nat) : Nat := halfEven n (excess p n) * 2 ^ excess p n

/-- `n` has at most `p` significant bits. -/
def Short (p n : Nat) : Prop := 2 ^ excess p n ∣ n

theorem roundNat_of_short {p n : Nat} (h : Short p n) : roundNat p n = n := by
  obtain ⟨k, hk⟩ := h
  have hn : n = k * 2 ^ excess p n := hk.trans (Nat.mul_comm _ _)
  unfold roundNat
  generalize excess p n = s at hn ⊢
  rw [hn, halfEven_mul]

theorem short_zero (p : Nat) : Short p 0 := Nat.dvd_zero _

section
variable {p : Nat} (hp : 0 < p)

include hp

theorem excess_le_log2 (n : Nat) : excess p n ≤ Nat.log2 n := by
  unfold excess
  omega

theorem roundNat_le_pow {n k : Nat} (h : n ≤ 2 ^ k) : roundNat p n ≤ 2 ^ k := by
  have hs : excess p n ≤ k := by
    refine (excess_mono p h).trans ((excess_le_log2 hp _).trans ?_)
    rw [Nat.log2_two_pow]
  have hpow : 2 ^ k = 2 ^ (k - excess p n) * 2 ^ excess p n := by
    rw [← Nat.pow_add, Nat.sub_add_cancel hs]
  unfold roundNat
  have := halfEven_mono h (excess p n)
  rw [hpow, halfEven_mul] at this
  rw [hpow]
  exact Nat.mul_le_mul_right _ this

theorem pow_log2_le_roundNat {n : Nat} (hn : n ≠ 0) : 2 ^ Nat.log2 n ≤ roundNat p n := by
  have hs := excess_le_log2 hp n
  have hpow : 2 ^ Nat.log2 n = 2 ^ (Nat.log2 n - excess p n) * 2 ^ excess p n := by
    rw [← Nat.pow_add, Nat.sub_add_cancel hs]
  have := halfEven_mono (Nat.log2_self_le hn) (excess p n)
  rw [hpow, halfEven_mul] at this
  unfold roundNat
  rw [hpow]
  exact Nat.mul_le_mul_right _ this

theorem roundNat_mono {m n : Nat} (h : m ≤ n) : roundNat p m ≤ roundNat p n := by
  rcases Nat.lt_or_eq_of_le (excess_mono p h) with hlt | heq
  · -- a power of two lies between the two
    have hn : n ≠ 0 := by
      rintro rfl
      obtain rfl : m = 0 := Nat.le_zero.1 h
      exact absurd hlt (lt_irrefl _)
    have hlog : Nat.log2 m < Nat.log2 n := by
      unfold excess at hlt
      omega
    have hm : m ≤ 2 ^ Nat.log2 n :=
      (Nat.lt_log2_self (n := m)).le.trans (Nat.pow_le_pow_right (by decide) hlog)
    exact (roundNat_le_pow hp hm).trans (pow_log2_le_roundNat hp hn)
  · unfold roundNat
    rw [heq]
    exact Nat.mul_le_mul_right _ (halfEven_mono h _)

theorem short_two_pow (k : Nat) : Short p (2 ^ k) := by
  refine Nat.pow_dvd_pow 2 ((excess_le_log2 hp _).trans ?_)
  rw [Nat.log2_two_pow]

theorem short_roundNat (n : Nat) : Short p (roundNat p n) := by
  rcases Nat.eq_zero_or_pos (excess p n) with hs | hs
  · -- short already
    have h : Short p n := by
      unfold Short
      rw [hs]
      exact ⟨n, (Nat.one_mul n).symm⟩
    rw [roundNat_of_short h]
    exact h
  · have hle : roundNat p n ≤ 2 ^ (Nat.log2 n + 1) :=
      roundNat_le_pow hp (Nat.lt_log2_self (n := n)).le
    rcases Nat.lt_or_eq_of_le hle with hlt | heq
    · refine Nat.dvd_trans (Nat.pow_dvd_pow 2 ?_)
        (Nat.dvd_mul_left (2 ^ excess p n) (halfEven n (excess p n)))
      have hlog : Nat.log2 (roundNat p n) ≤ Nat.log2 n := by
        rcases Nat.eq_zero_or_pos (roundNat p n) with h0 | hpos
        · rw [h0, Nat.log2_zero]
          exact Nat.zero_le _
        · exact Nat.lt_succ_iff.1 ((Nat.log2_lt (by omega)).2 hlt)
      unfold excess
      omega
    · rw [heq]
      exact short_two_pow hp _

end

/-! ## Integers -/

/-- `n` rounded to `p` significant bits. -/
def roundBits (p : Nat) (n : Int) : Int :=
  if 0 ≤ n then roundNat p n.natAbs else -roundNat p n.natAbs

theorem natAbs_roundBits (p : Nat) (n : Int) : (roundBits p n).natAbs = roundNat p n.natAbs := by
  unfold roundBits
  split <;> simp

theorem roundBits_of_short {p : Nat} {n : Int} (h : Short p n.natAbs) : roundBits p n = n := by
  unfold roundBits
  rw [roundNat_of_short h]
  split <;> omega

/-- **Rounding is monotone.** -/
theorem roundBits_mono {p : Nat} (hp : 0 < p) {m n : Int} (h : m ≤ n) :
    roundBits p m ≤ roundBits p n := by
  unfold roundBits
  split <;> split
  · exact Int.ofNat_le.2 (roundNat_mono hp (by omega))
  · omega
  · omega
  · have := roundNat_mono hp (show n.natAbs ≤ m.natAbs by omega)
    omega

/-! ## The numbers of a format -/

/-- `precision` significant bits; the finite numbers are below `2 ^ range` of the smallest positive
one. -/
structure Format where
  precision : Nat
  range : Nat
  precise : 0 < precision

/-- A number that is not NaN.  The infinities are the two numbers at the bound. -/
structure Number (f : Format) where
  units : Int
  short : Short f.precision units.natAbs
  bounded : units.natAbs ≤ 2 ^ f.range

namespace Number

variable {f : Format}

theorem ext_units {x y : Number f} (h : x.units = y.units) : x = y := by
  cases x
  cases y
  cases h
  rfl

instance : DecidableEq (Number f) := fun x y =>
  decidable_of_iff (x.units = y.units) ⟨ext_units, fun h => congrArg units h⟩

instance : LinearOrder (Number f) := LinearOrder.lift' units fun _ _ h => ext_units h

theorem le_def {x y : Number f} : x ≤ y ↔ x.units ≤ y.units := Iff.rfl

instance : Zero (Number f) := ⟨⟨0, short_zero _, Nat.zero_le _⟩⟩

theorem zero_units : (0 : Number f).units = 0 := rfl

def Finite (x : Number f) : Prop := x.units.natAbs < 2 ^ f.range

instance (x : Number f) : Decidable x.Finite := inferInstanceAs (Decidable (_ < _))

/-- `n`, no further out than the infinities. -/
def clamp (f : Format) (n : Int) : Int := max (-2 ^ f.range) (min (2 ^ f.range) n)

theorem clamp_mono {m n : Int} (h : m ≤ n) : clamp f m ≤ clamp f n := by
  unfold clamp
  omega

theorem clamp_of_le {n : Int} (h : n.natAbs ≤ 2 ^ f.range) : clamp f n = n := by
  have h' : (n.natAbs : Int) ≤ 2 ^ f.range := by exact_mod_cast h
  unfold clamp
  omega

theorem natAbs_clamp (n : Int) : (clamp f n).natAbs ≤ 2 ^ f.range := by
  have hpos : (0 : Int) < 2 ^ f.range := Int.pow_pos (by decide)
  have : ((clamp f n).natAbs : Int) ≤ 2 ^ f.range := by
    unfold clamp
    omega
  exact_mod_cast this

theorem clamp_cases (n : Int) : clamp f n = n ∨ (clamp f n).natAbs = 2 ^ f.range := by
  have hpos : (0 : Int) < 2 ^ f.range := Int.pow_pos (by decide)
  by_cases h : clamp f n = n
  · exact Or.inl h
  · right
    have : ((clamp f n).natAbs : Int) = 2 ^ f.range := by
      unfold clamp at h ⊢
      omega
    exact_mod_cast this

/-- The number closest to `n` multiples of the smallest one. -/
def ofUnits (f : Format) (n : Int) : Number f where
  units := clamp f (roundBits f.precision n)
  short := by
    rcases clamp_cases (f := f) (roundBits f.precision n) with h | h
    · rw [h, natAbs_roundBits]
      exact short_roundNat f.precise _
    · rw [h]
      exact short_two_pow f.precise _
  bounded := natAbs_clamp _

theorem ofUnits_units (x : Number f) : ofUnits f x.units = x := by
  refine ext_units ?_
  unfold ofUnits
  simp only
  rw [roundBits_of_short x.short, clamp_of_le x.bounded]

theorem ofUnits_mono {m n : Int} (h : m ≤ n) : ofUnits f m ≤ ofUnits f n :=
  clamp_mono (roundBits_mono f.precise h)

/-- The rounded sum; an infinity stays. -/
instance : Add (Number f) :=
  ⟨fun x y => if x.Finite then if y.Finite then ofUnits f (x.units + y.units) else y else x⟩

theorem add_def (x y : Number f) :
    x + y = if x.Finite then if y.Finite then ofUnits f (x.units + y.units) else y else x := rfl

theorem zero_finite : (0 : Number f).Finite := Nat.two_pow_pos _

instance : AddZeroClass (Number f) where
  zero_add x := by
    rw [add_def, if_pos zero_finite, zero_units, Int.zero_add, ofUnits_units]
    exact ite_self x
  add_zero x := by
    rw [add_def, if_pos zero_finite, zero_units, Int.add_zero, ofUnits_units]
    exact ite_self x

theorem units_cases (x : Number f) : x.Finite ∨ x.units = 2 ^ f.range ∨ x.units = -2 ^ f.range := by
  have hb := x.bounded
  by_cases h : x.Finite
  · exact Or.inl h
  · unfold Finite at h
    have habs : (x.units.natAbs : Int) = 2 ^ f.range := by
      exact_mod_cast (show x.units.natAbs = 2 ^ f.range by omega)
    omega

theorem le_top {x y : Number f} (h : y.units = 2 ^ f.range) : x ≤ y := by
  have hb : (x.units.natAbs : Int) ≤ 2 ^ f.range := by exact_mod_cast x.bounded
  rw [le_def, h]
  omega

theorem bot_le {x y : Number f} (h : x.units = -2 ^ f.range) : x ≤ y := by
  have hb : (y.units.natAbs : Int) ≤ 2 ^ f.range := by exact_mod_cast y.bounded
  rw [le_def, h]
  omega

/-- **Rounded addition is monotone.** -/
theorem add_mono (z : Number f) {x y : Number f} (h : x ≤ y) : z + x ≤ z + y := by
  rw [add_def, add_def]
  by_cases hz : z.Finite
  · rw [if_pos hz, if_pos hz]
    rcases units_cases x with hx | hx | hx
    · rw [if_pos hx]
      rcases units_cases y with hy | hy | hy
      · rw [if_pos hy]
        exact ofUnits_mono (Int.add_le_add_left h _)
      · split
        · exact ofUnits_mono (Int.add_le_add_left h _)
        · exact le_top hy
      · rw [← le_antisymm h (bot_le hy), if_pos hx]
    · rw [le_antisymm h (le_top hx)]
    · split
      · next hfin =>
        have habs : (x.units.natAbs : Int) < 2 ^ f.range := by exact_mod_cast hfin
        omega
      · exact bot_le hx
  · rw [if_neg hz, if_neg hz]

instance : AddLeftMono (Number f) := ⟨fun z _ _ h => add_mono z h⟩

end Number

/-- `float`: 24 significant bits, multiples of `2 ^ -149` below `2 ^ 128`. -/
def single : Format := ⟨24, 277, by decide⟩

abbrev Single := Number single

/-- `m * 2 ^ (k - 149)`. -/
def Single.scaled (m : Int) (k : Nat) : Single := Number.ofUnits single (m * 2 ^ k)

-- the largest finite number and half its last bit more
example : Single.scaled 16777215 253 + Single.scaled 1 252 = Number.ofUnits single (2 ^ 277) := by
  decide +kernel

end Coopy.Lib.Rounding
