import Mathlib.Data.Int.Log
import Mathlib.Data.Rat.Floor
import Mathlib.Tactic.Linarith
import Mathlib.Tactic.NormNum
import Mathlib.Tactic.Positivity
import Mathlib.Tactic.Ring

/-!
# Double precision numbers

A finite double is the rational number that it stands for. The operations are the exact ones followed by
`double`, which rounds to the nearest double, and to the even one of two. Results are meant to stay within
the range of doubles.

* `le_double`, `double_le`: a result is not on the other side of an integer, and close to the exact one;
* `toInt_double`: what is left of it when it is truncated;
* `IsDouble.le_double`, `double_mono`: rounding keeps the order.
-/

namespace JavaDouble

/-- The nearest integer, where a tie goes to the even one. -/
def roundEven (x : ℚ) : ℤ :=
  if x - ⌊x⌋ < 1 / 2 then ⌊x⌋
  else if 1 / 2 < x - ⌊x⌋ then ⌊x⌋ + 1
  else ⌊x⌋ + ⌊x⌋ % 2

/-- The distance of one double to the next one. -/
def ulp (x : ℚ) : ℚ :=
  2 ^ (max (Int.log 2 |x|) (-1022) - 52)

/-- The double that stands for `x`. -/
def double (x : ℚ) : ℚ :=
  roundEven (x / ulp x) * ulp x

/-- The integer part, or the limit of the 32-bit type that is next to it. -/
def toInt (x : ℚ) : ℤ :=
  max (-2147483648) (min 2147483647 (if 0 ≤ x then ⌊x⌋ else ⌈x⌉))

theorem le_roundEven {x : ℚ} {m : ℤ} (below : m ≤ x) : m ≤ roundEven x := by
  have floor : m ≤ ⌊x⌋ := Int.le_floor.mpr below
  unfold roundEven
  split_ifs <;> omega

theorem roundEven_le (x : ℚ) : (roundEven x : ℚ) ≤ x + 1 / 2 := by
  have floor : (⌊x⌋ : ℚ) ≤ x := Int.floor_le x
  have odd : ((⌊x⌋ % 2 : ℤ) : ℚ) ≤ 1 := by
    have : ⌊x⌋ % 2 ≤ 1 := by omega
    exact_mod_cast this
  unfold roundEven
  split_ifs with low high
  · linarith
  · push_cast
    linarith
  · rw [Int.cast_add]
    linarith

theorem ulp_pos (x : ℚ) : 0 < ulp x :=
  zpow_pos two_pos _

theorem ulp_le {x : ℚ} {k : ℕ} (small : |x| < 2 ^ (k + 1)) : ulp x ≤ 2 ^ ((k : ℤ) - 52) := by
  have exponent : Int.log 2 |x| ≤ k := by
    rcases (abs_nonneg x).eq_or_lt with zero | positive
    · rw [← zero, Int.log_zero_right]
      exact Int.natCast_nonneg k
    · exact Int.lt_add_one_iff.mp
        ((Int.lt_zpow_iff_log_lt one_lt_two positive).mp (by exact_mod_cast small))
  exact zpow_le_zpow_right₀ one_le_two (by omega)

/-- The integers are doubles up to a limit. -/
theorem exists_mul_ulp {x : ℚ} (small : |x| < 2 ^ 53) (m : ℤ) : ∃ k : ℤ, (m : ℚ) = k * ulp x := by
  have exponent : Int.log 2 |x| ≤ 52 := by
    rcases (abs_nonneg x).eq_or_lt with zero | positive
    · rw [← zero, Int.log_zero_right]
      decide
    · exact Int.lt_add_one_iff.mp
        ((Int.lt_zpow_iff_log_lt one_lt_two positive).mp (by exact_mod_cast small))
  obtain ⟨n, same⟩ := Int.eq_ofNat_of_zero_le
    (show 0 ≤ 52 - max (Int.log 2 |x|) (-1022) by omega)
  refine ⟨m * 2 ^ n, ?_⟩
  have inverse : ulp x = (2 ^ n)⁻¹ := by
    rw [ulp, ← neg_sub, same, zpow_neg, zpow_natCast]
  rw [inverse, Int.cast_mul, Int.cast_pow, Int.cast_ofNat, mul_assoc, mul_inv_cancel₀ (by positivity),
    mul_one]

/-- A result is not below an integer that the exact result is not below of. -/
theorem le_double {x : ℚ} (small : |x| < 2 ^ 53) {m : ℤ} (below : m ≤ x) : m ≤ double x := by
  obtain ⟨k, same⟩ := exists_mul_ulp small m
  rw [same] at below ⊢
  have rounded : k ≤ roundEven (x / ulp x) :=
    le_roundEven ((le_div_iff₀ (ulp_pos x)).mpr below)
  exact mul_le_mul_of_nonneg_right (Int.cast_le.mpr rounded) (ulp_pos x).le

theorem double_le (x : ℚ) : double x ≤ x + ulp x / 2 := by
  have positive := ulp_pos x
  calc double x ≤ (x / ulp x + 1 / 2) * ulp x :=
        mul_le_mul_of_nonneg_right (roundEven_le _) positive.le
    _ = x + ulp x / 2 := by
        rw [add_mul, div_mul_cancel₀ x positive.ne']
        ring

theorem double_zero : double 0 = 0 := by
  have zero : roundEven 0 = 0 := by decide +kernel
  rw [double, zero_div, zero, Int.cast_zero, zero_mul]

/-- Rounding does not lead beyond the integers that are doubles. -/
theorem double_le_add_one {x : ℚ} (small : |x| < 2 ^ 53) : double x ≤ x + 1 := by
  have close := double_le x
  have narrow := ulp_le (k := 52) small
  norm_num at narrow
  linarith

theorem toInt_of_nonneg {x : ℚ} (nonneg : 0 ≤ x) (small : x < 2 ^ 31) : toInt x = ⌊x⌋ := by
  have low : 0 ≤ ⌊x⌋ := Int.floor_nonneg.mpr nonneg
  have high : ⌊x⌋ < 2147483648 := Int.floor_lt.mpr (by exact_mod_cast small)
  rw [toInt, if_pos nonneg]
  omega

/-- Where the exact result is not too close to the next integer, it does not matter for the integer part
that the result was rounded. -/
theorem toInt_double {x : ℚ} {m : ℕ} (below : m ≤ x) (above : x ≤ m + 1 - 1 / 2 ^ 20)
    (small : m < 2 ^ 31 - 1) : toInt (double x) = m := by
  have nonneg : 0 ≤ x := (Nat.cast_nonneg m).trans below
  have small' : (m : ℚ) + 1 < 2 ^ 31 := by
    have : m + 1 < 2 ^ 31 := by omega
    exact_mod_cast this
  have size : |x| < 2 ^ (30 + 1) := by
    rw [abs_of_nonneg nonneg]
    show x < 2 ^ 31
    linarith
  have low : (m : ℚ) ≤ double x := le_double (size.trans (by norm_num)) (m := m) (by exact_mod_cast below)
  have high : double x < m + 1 := by
    have close := double_le x
    have narrow := ulp_le size
    norm_num at narrow
    linarith
  rw [toInt_of_nonneg ((Nat.cast_nonneg m).trans low) (high.trans small')]
  exact Int.floor_eq_iff.mpr ⟨low, by exact_mod_cast high⟩

/-- A number of at most 53 binary digits, none below the last place of doubles. -/
def IsDouble (x : ℚ) : Prop :=
  ∃ m e : ℤ, x = m * 2 ^ e ∧ |m| ≤ 2 ^ 53 ∧ -1074 ≤ e

theorem isDouble_zero : IsDouble 0 :=
  ⟨0, 0, by norm_num⟩

theorem roundEven_le_int {x : ℚ} {m : ℤ} (above : x ≤ m) : roundEven x ≤ m := by
  have close := roundEven_le x
  have below : (roundEven x : ℚ) < m + 1 := by linarith
  exact Int.lt_add_one_iff.mp (by exact_mod_cast below)

theorem roundEven_mono {x y : ℚ} (order : x ≤ y) : roundEven x ≤ roundEven y := by
  rcases (Int.floor_mono order).eq_or_lt with same | less
  · unfold roundEven
    rw [← same]
    split_ifs <;> first | omega | (exfalso; linarith)
  · calc roundEven x ≤ ⌊x⌋ + 1 := roundEven_le_int (by exact_mod_cast (Int.lt_floor_add_one x).le)
      _ ≤ ⌊y⌋ := less
      _ ≤ roundEven y := le_roundEven (Int.floor_le y)

/-- The exponent of the last place. -/
def lastPlace (x : ℚ) : ℤ :=
  max (Int.log 2 |x|) (-1022) - 52

theorem ulp_eq (x : ℚ) : ulp x = 2 ^ lastPlace x := rfl

theorem isDouble_double {x : ℚ} : IsDouble (double x) := by
  refine ⟨roundEven (x / ulp x), lastPlace x, by rw [double, ulp_eq], ?_, by unfold lastPlace; omega⟩
  have bound : |x / ulp x| ≤ 2 ^ 53 := by
    rw [abs_div, abs_of_pos (ulp_pos x), div_le_iff₀ (ulp_pos x), ulp_eq]
    calc |x| ≤ 2 ^ (Int.log 2 |x| + 1) := (Int.lt_zpow_succ_log_self one_lt_two _).le
      _ ≤ 2 ^ (53 + lastPlace x) := zpow_le_zpow_right₀ one_le_two (by unfold lastPlace; omega)
      _ = 2 ^ 53 * 2 ^ lastPlace x := by
          rw [zpow_add₀ two_ne_zero]
          norm_num
  rw [abs_le] at bound ⊢
  constructor
  · exact le_roundEven (by push_cast; linarith [bound.1])
  · exact roundEven_le_int (by push_cast; linarith [bound.2])

/-- A double that is not above `x` is a multiple of the last place of `x`, or there is such a multiple
between them. -/
theorem exists_multiple {x z : ℚ} (isDouble : IsDouble z) (nonneg : 0 ≤ x) (below : z ≤ x) :
    ∃ k : ℤ, z ≤ k * ulp x ∧ k * ulp x ≤ x := by
  obtain ⟨m, e, rfl, small, last⟩ := isDouble
  rcases le_or_gt (lastPlace x) e with coarse | fine
  · obtain ⟨n, same⟩ := Int.eq_ofNat_of_zero_le (show 0 ≤ e - lastPlace x by omega)
    have multiple : (m : ℚ) * 2 ^ e = (m * 2 ^ n : ℤ) * ulp x := by
      rw [ulp_eq, show e = n + lastPlace x by omega, zpow_add₀ two_ne_zero]
      push_cast
      rw [zpow_natCast, mul_assoc]
    exact ⟨m * 2 ^ n, multiple.le, multiple ▸ below⟩
  · have normal : lastPlace x = Int.log 2 |x| - 52 := by
      unfold lastPlace at fine ⊢
      omega
    have exponent : Int.log 2 |x| = 52 + lastPlace x := by omega
    have power : ((2 ^ 52 : ℤ) : ℚ) * ulp x = 2 ^ Int.log 2 |x| := by
      rw [ulp_eq, exponent, zpow_add₀ two_ne_zero]
      norm_num
    rcases nonneg.eq_or_lt with rfl | positive
    · exact ⟨0, by simpa using below, by simp⟩
    refine ⟨2 ^ 52, ?_, ?_⟩
    · have digits : (m : ℚ) ≤ 2 ^ 53 := by exact_mod_cast (le_abs_self m).trans small
      calc (m : ℚ) * 2 ^ e ≤ 2 ^ 53 * 2 ^ e := mul_le_mul_of_nonneg_right digits (zpow_pos two_pos e).le
        _ = 2 ^ (53 + e) := by
            rw [zpow_add₀ two_ne_zero]
            norm_num
        _ ≤ 2 ^ Int.log 2 |x| := zpow_le_zpow_right₀ one_le_two (by omega)
        _ = _ := power.symm
    · rw [power]
      calc (2 : ℚ) ^ Int.log 2 |x| ≤ |x| := Int.zpow_log_le_self one_lt_two (abs_pos_of_pos positive)
        _ = x := abs_of_nonneg nonneg

/-- A result is not below a double that the exact result is not below of. -/
theorem IsDouble.le_double {x z : ℚ} (isDouble : IsDouble z) (nonneg : 0 ≤ x) (below : z ≤ x) :
    z ≤ double x := by
  obtain ⟨k, first, second⟩ := exists_multiple isDouble nonneg below
  have rounded : k ≤ roundEven (x / ulp x) := le_roundEven ((le_div_iff₀ (ulp_pos x)).mpr second)
  exact first.trans (mul_le_mul_of_nonneg_right (Int.cast_le.mpr rounded) (ulp_pos x).le)

theorem double_mono {x y : ℚ} (nonneg : 0 ≤ x) (order : x ≤ y) : double x ≤ double y := by
  rcases nonneg.eq_or_lt with rfl | positive
  · rw [double_zero]
    exact isDouble_zero.le_double order order
  have logs : Int.log 2 |x| ≤ Int.log 2 |y| :=
    Int.log_mono_right (abs_pos_of_pos positive) (abs_le_abs_of_nonneg nonneg order)
  rcases (show lastPlace x ≤ lastPlace y by unfold lastPlace; omega).eq_or_lt with same | finer
  · have ulps : ulp x = ulp y := by rw [ulp_eq, ulp_eq, same]
    have rounded := roundEven_mono (div_le_div_of_nonneg_right order (ulp_pos y).le)
    rw [double, double, ulps]
    exact mul_le_mul_of_nonneg_right (Int.cast_le.mpr rounded) (ulp_pos y).le
  · -- there is a power of two between them, which is a multiple of the last place of `x`
    have normal : lastPlace y = Int.log 2 |y| - 52 := by
      unfold lastPlace at finer ⊢
      omega
    have less : Int.log 2 |x| < Int.log 2 |y| := by
      unfold lastPlace at finer
      omega
    have above : x ≤ 2 ^ Int.log 2 |y| := by
      rw [← abs_of_nonneg nonneg]
      exact ((Int.lt_zpow_iff_log_lt one_lt_two (abs_pos_of_pos positive)).mpr less).le
    have below : (2 : ℚ) ^ Int.log 2 |y| ≤ y := by
      have positive' := positive.trans_le order
      calc (2 : ℚ) ^ Int.log 2 |y| ≤ |y| := Int.zpow_log_le_self one_lt_two (abs_pos_of_pos positive')
        _ = y := abs_of_pos positive'
    obtain ⟨n, exponent⟩ := Int.eq_ofNat_of_zero_le (show 0 ≤ Int.log 2 |y| - lastPlace x by omega)
    have multiple : (2 : ℚ) ^ Int.log 2 |y| = (2 ^ n : ℤ) * ulp x := by
      rw [ulp_eq, show Int.log 2 |y| = n + lastPlace x by omega, zpow_add₀ two_ne_zero]
      push_cast
      rw [zpow_natCast]
    have rounded : roundEven (x / ulp x) ≤ 2 ^ n :=
      roundEven_le_int ((div_le_iff₀ (ulp_pos x)).mpr (multiple ▸ above))
    calc double x ≤ (2 ^ n : ℤ) * ulp x :=
          mul_le_mul_of_nonneg_right (Int.cast_le.mpr rounded) (ulp_pos x).le
      _ = 2 ^ Int.log 2 |y| := multiple.symm
      _ ≤ double y := by
          refine IsDouble.le_double ⟨1, Int.log 2 |y|, by norm_num, by norm_num, ?_⟩
            (nonneg.trans order) below
          unfold lastPlace at normal
          omega

end JavaDouble
