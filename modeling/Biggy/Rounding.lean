import Mathlib.Algebra.Order.Floor.Ring
import Mathlib.Data.Int.Log
import Mathlib.Tactic.Linarith
import Mathlib.Tactic.Positivity
import Mathlib.Tactic.Ring

/-!
# Rounding to a binary format

`nearest t low x` is the number with `t` binary digits behind the leading one, and exponents from `low` on, that is nearest
to `x`; a tie goes to the even digit. Rounding keeps the order of numbers.
-/
namespace Biggy
namespace Rounding

variable {K : Type*} [Field K] [LinearOrder K] [FloorRing K]

/-- The nearest integer, and the even one of two. -/
def roundEven (x : K) : ℤ :=
  if x-⌊x⌋ < 1/2 then ⌊x⌋ else if 1/2 < x-⌊x⌋ then ⌊x⌋+1 else if Even ⌊x⌋ then ⌊x⌋ else ⌊x⌋+1

/-- The exponent of a positive number; small ones share the least exponent. -/
def exponent (low : ℤ) (x : K) : ℤ := max low (Int.log 2 x)

/-- The distance between two numbers of the format around a positive number. -/
def ulp (t : ℕ) (low : ℤ) (x : K) : K := 2^(exponent low x-t)

def nearestPos (t : ℕ) (low : ℤ) (x : K) : K := roundEven (x/ulp t low x)*ulp t low x

def nearest (t : ℕ) (low : ℤ) (x : K) : K := if x < 0 then -nearestPos t low (-x) else nearestPos t low x

section Integers

variable {x y : K}

theorem floor_le_roundEven (x : K) : ⌊x⌋ ≤ roundEven x := by
  simp only [roundEven]
  split_ifs <;> omega

theorem roundEven_le_floor (x : K) : roundEven x ≤ ⌊x⌋+1 := by
  simp only [roundEven]
  split_ifs <;> omega

variable [IsStrictOrderedRing K]

theorem roundEven_intCast (n : ℤ) : roundEven (n : K) = n := by
  rw [roundEven,Int.floor_intCast,sub_self,if_pos (by norm_num)]

theorem roundEven_mono (h : x ≤ y) : roundEven x ≤ roundEven y := by
  rcases lt_or_eq_of_le (Int.floor_le_floor h) with hlt | heq
  · calc roundEven x ≤ ⌊x⌋+1 := roundEven_le_floor x
      _ ≤ ⌊y⌋ := hlt
      _ ≤ roundEven y := floor_le_roundEven y
  · have hsub : x-⌊x⌋ ≤ y-⌊x⌋ := sub_le_sub_right h _
    simp only [roundEven,← heq]
    -- a smaller fraction is not rounded up where a greater one is rounded down
    split_ifs <;> first | omega | (exfalso; linarith)

theorem le_roundEven {n : ℤ} (h : (n : K) ≤ x) : n ≤ roundEven x := by
  rw [← @roundEven_intCast K _ _ _ _ n]
  exact roundEven_mono h

theorem roundEven_le {n : ℤ} (h : x ≤ (n : K)) : roundEven x ≤ n := by
  rw [← @roundEven_intCast K _ _ _ _ n]
  exact roundEven_mono h

end Integers

section Format

variable [IsStrictOrderedRing K] {t : ℕ} {low : ℤ} {x y : K}

theorem ulp_pos (t : ℕ) (low : ℤ) (x : K) : 0 < ulp t low x := by
  exact zpow_pos (by norm_num) _

omit [IsStrictOrderedRing K] in
theorem pow_mul_ulp (t : ℕ) (low : ℤ) (x : K) : (2:K)^t*ulp t low x = 2^exponent low x := by
  rw [ulp,← zpow_natCast,← zpow_add₀ (by norm_num)]
  congr 1
  omega

theorem exponent_mono (hx : 0 < x) (h : x ≤ y) : exponent low x ≤ exponent low y :=
  max_le_max le_rfl (Int.log_mono_right hx h)

theorem nearestPos_nonneg (hx : 0 ≤ x) : 0 ≤ nearestPos t low x := by
  have hround : 0 ≤ roundEven (x/ulp t low x) := by
    refine le_roundEven ?_
    rw [Int.cast_zero]
    exact div_nonneg hx (ulp_pos t low x).le
  exact mul_nonneg (by exact_mod_cast hround) (ulp_pos t low x).le

/-- Rounding does not leave the binade of a number upwards. -/
theorem nearestPos_le : nearestPos t low x ≤ 2^(exponent low x+1) := by
  have hpos := ulp_pos t low x
  have htop : (2:K)^(exponent low x+1) = ((2^(t+1) : ℤ) : K)*ulp t low x := by
    have hpow := pow_mul_ulp t low x
    push_cast
    rw [zpow_add_one₀ (by norm_num),pow_succ,← hpow]
    ring
  have hlog : x < (2:K)^(exponent low x+1) := by
    have hlt := Int.lt_zpow_succ_log_self (b := 2) (by norm_num) x
    refine hlt.trans_le (zpow_le_zpow_right₀ (by norm_num) ?_)
    exact Int.add_le_add_right (le_max_right _ _) 1
  rw [htop] at hlog ⊢
  have hround : roundEven (x/ulp t low x) ≤ 2^(t+1) := roundEven_le ((div_le_iff₀ hpos).mpr hlog.le)
  exact mul_le_mul_of_nonneg_right (by exact_mod_cast hround) hpos.le

/-- Nor downwards. -/
theorem le_nearestPos (hx : 0 < x) (h : low < exponent low x) : 2^exponent low x ≤ nearestPos t low x := by
  have hpos := ulp_pos t low x
  have hexponent : exponent low x = Int.log 2 x := by
    rcases max_choice low (Int.log 2 x) with hmax | hmax
    · exact absurd hmax h.ne'
    · exact hmax
  have hle : (2:K)^exponent low x ≤ x := by
    rw [hexponent]
    exact_mod_cast Int.zpow_log_le_self (b := 2) (by norm_num) hx
  have hbottom : (2:K)^exponent low x = ((2^t : ℤ) : K)*ulp t low x := by
    push_cast
    exact (pow_mul_ulp t low x).symm
  rw [hbottom] at hle ⊢
  have hround : 2^t ≤ roundEven (x/ulp t low x) := le_roundEven ((le_div_iff₀ hpos).mpr hle)
  exact mul_le_mul_of_nonneg_right (by exact_mod_cast hround) hpos.le

theorem nearestPos_zero : nearestPos t low (0:K) = 0 := by
  have hround := @roundEven_intCast K _ _ _ _ 0
  rw [Int.cast_zero] at hround
  rw [nearestPos,zero_div,hround,Int.cast_zero,zero_mul]

theorem nearestPos_mono (hx : 0 ≤ x) (h : x ≤ y) : nearestPos t low x ≤ nearestPos t low y := by
  rcases hx.eq_or_lt with rfl | hx
  · rw [nearestPos_zero]
    exact nearestPos_nonneg h
  have hy : 0 < y := hx.trans_le h
  rcases (exponent_mono hx h : exponent low x ≤ exponent low y).eq_or_lt with heq | hlt
  · have hulp : ulp t low x = ulp t low y := by rw [ulp,ulp,heq]
    have hpos := ulp_pos t low y
    have hround : roundEven (x/ulp t low y) ≤ roundEven (y/ulp t low y) := roundEven_mono (by gcongr)
    rw [nearestPos,nearestPos,hulp]
    exact mul_le_mul_of_nonneg_right (by exact_mod_cast hround) hpos.le
  · have hlow : low < exponent low y := (le_max_left _ _).trans_lt hlt
    calc nearestPos t low x ≤ 2^(exponent low x+1) := nearestPos_le
      _ ≤ 2^exponent low y := zpow_le_zpow_right₀ (by norm_num) hlt
      _ ≤ nearestPos t low y := le_nearestPos hy hlow

/-- Rounding keeps the order. -/
theorem nearest_mono (h : x ≤ y) : nearest t low x ≤ nearest t low y := by
  rw [nearest,nearest]
  by_cases hy : y < 0
  · rw [if_pos hy,if_pos (h.trans_lt hy)]
    exact neg_le_neg (nearestPos_mono (neg_nonneg.mpr hy.le) (neg_le_neg h))
  · rw [if_neg hy]
    have hy : 0 ≤ nearestPos t low y := nearestPos_nonneg (not_lt.mp hy)
    by_cases hx : x < 0
    · rw [if_pos hx]
      exact (neg_nonpos.mpr (nearestPos_nonneg (neg_nonneg.mpr hx.le))).trans hy
    · rw [if_neg hx]
      exact nearestPos_mono (not_lt.mp hx) h

end Format
end Rounding
end Biggy
