import Mathlib.Algebra.Group.Nat.Defs
import Mathlib.Algebra.Order.Group.Unbundled.Int
import Mathlib.Data.List.Nodup
import Mathlib.Tactic.Push

/-!
# Two's complement integers

A machine integer of width `w` is the representative in `[-2^(w-1), 2^(w-1))` of an integer modulo
`2^w`. The operations are the exact ones followed by `wrap`, so an overflow is visible, and
`wrap_eq_self` says that nothing happens while the exact result is in range.
-/

namespace JavaInt

/-- The `w`-bit two's complement representative of `x`. -/
def wrap (w : Nat) (x : Int) : Int :=
  x.bmod (2 ^ w)

/-- A value of the 32-bit type. -/
abbrev int (x : Int) : Int :=
  wrap 32 x

/-- A value of the 64-bit type. -/
abbrev long (x : Int) : Int :=
  wrap 64 x

/-- The bitwise and of two 32-bit values. -/
def and (x y : Int) : Int :=
  (BitVec.ofInt 32 x &&& BitVec.ofInt 32 y).toInt

/-- The quotient of two 32-bit values is rounded towards zero. There is none for the divisor 0. -/
def div (x y : Int) : Option Int :=
  if y = 0 then none else some (int (x.tdiv y))

/-- `x << n` for 32-bit values. The lowest five bits of the other operand count. -/
def shiftLeft (x n : Int) : Int :=
  int (x * 2 ^ (n % 32).toNat)

/-- `x >> n` for 32-bit values, which keeps the sign. -/
def shiftRight (x n : Int) : Int :=
  x / 2 ^ (n % 32).toNat

theorem wrap_eq_self {w : Nat} {x : Int} (low : -(2 ^ w : Int) ≤ 2 * x) (high : 2 * x < 2 ^ w) :
    wrap w x = x := by
  have cast : ((2 ^ w : Nat) : Int) = (2 : Int) ^ w := by push_cast; rfl
  refine Int.bmod_eq_of_le ?_ ?_
  · rw [cast]; omega
  · rw [cast]; omega

theorem int_eq_self {x : Int} (low : -2147483648 ≤ x) (high : x < 2147483648) : int x = x :=
  wrap_eq_self (by omega) (by omega)

theorem long_eq_self {x : Int} (low : -9223372036854775808 ≤ x) (high : x < 9223372036854775808) :
    long x = x :=
  wrap_eq_self (by omega) (by omega)

theorem long_of_ge {x : Int} (low : 9223372036854775808 ≤ x) (high : x < 27670116110564327424) :
    long x = x - 18446744073709551616 := by
  have period : long (x - 18446744073709551616) = long x := Int.sub_bmod_right x (2 ^ 64)
  rw [← period, long_eq_self (by omega) (by omega)]

theorem long_of_lt {x : Int} (low : -27670116110564327424 ≤ x) (high : x < -9223372036854775808) :
    long x = x + 18446744073709551616 := by
  have period : long (x + 18446744073709551616) = long x := Int.add_bmod_right x (2 ^ 64)
  rw [← period, long_eq_self (by omega) (by omega)]

theorem two_mul_tdiv_two (x : Int) : x - 1 ≤ 2 * x.tdiv 2 ∧ 2 * x.tdiv 2 ≤ x + 1 := by
  rcases Int.le_total 0 x with nonneg | nonpos
  · rw [Int.tdiv_eq_ediv_of_nonneg nonneg]
    omega
  · rw [← Int.neg_neg x, Int.neg_tdiv, Int.tdiv_eq_ediv_of_nonneg (by omega)]
    omega

/-- The mask of the `k` low bits tests for divisibility by `2^k`. -/
theorem and_mask_eq_zero_iff {n k : Nat} (fits : n < 2147483648) (bits : k < 31) :
    and n (2 ^ k - 1) = 0 ↔ 2 ^ k ∣ n := by
  have small : 2 ^ k < 2147483648 := Nat.pow_lt_pow_right (by omega) bits
  have positive : 0 < 2 ^ k := Nat.two_pow_pos k
  have mask : (2 ^ k - 1 : Int) = ((2 ^ k - 1 : Nat) : Int) := by
    rw [Int.natCast_sub (by omega)]
    push_cast
    rfl
  have value : (BitVec.ofInt 32 n &&& BitVec.ofInt 32 (2 ^ k - 1 : Int)).toNat = n % 2 ^ k := by
    rw [mask, BitVec.ofInt_natCast, BitVec.ofInt_natCast, BitVec.toNat_and, BitVec.toNat_ofNat,
      BitVec.toNat_ofNat, Nat.mod_eq_of_lt (by omega), Nat.mod_eq_of_lt (a := 2 ^ k - 1) (by omega),
      Nat.and_two_pow_sub_one_eq_mod]
  rw [and, ← BitVec.toInt_zero (w := 32), BitVec.toInt_inj, ← BitVec.toNat_inj, value, Nat.dvd_iff_mod_eq_zero]
  rfl

/-- Wrapping an operand first does not change a wrapped sum. -/
theorem wrap_wrap_add (w : Nat) (x y : Int) : wrap w (wrap w x + y) = wrap w (x + y) :=
  Int.bmod_add_bmod

/-- Wrapping the other operand first does not change it either. -/
theorem wrap_add_wrap (w : Nat) (x y : Int) : wrap w (x + wrap w y) = wrap w (x + y) :=
  Int.add_bmod_bmod

/-- The value of a counter after `k + 1` increments. -/
theorem int_succ (k : Nat) : int (int (k : Int) + 1) = int ((k + 1 : Nat) : Int) := by
  rw [int, wrap_wrap_add]
  push_cast
  rfl

/-- Two integers closer than `2^w` have the same representative only if they are equal. -/
theorem wrap_inj_of_near {w : Nat} {x y : Int} (near : |x - y| < 2 ^ w)
    (same : wrap w x = wrap w y) : x = y := by
  have divides : ((2 ^ w : Nat) : Int) ∣ x - y :=
    Int.dvd_iff_bmod_eq_zero.mpr (Int.bmod_eq_bmod_iff_bmod_sub_eq_zero.mp same)
  have zero : x - y = 0 := Int.eq_zero_of_abs_lt_dvd divides (by push_cast; exact near)
  omega

/-- Consecutive values are distinct exactly as long as the type has enough of them. -/
theorem nodup_wrap_range (w n : Nat) :
    ((List.range n).map fun i : Nat => wrap w i).Nodup ↔ n ≤ 2 ^ w := by
  constructor
  · intro distinct
    by_contra more
    have positive : 0 < 2 ^ w := Nat.two_pow_pos w
    have again : wrap w ((2 ^ w : Nat) : Int) = wrap w ((0 : Nat) : Int) := by
      rw [wrap, wrap, Int.bmod_self, Int.natCast_zero, Int.zero_bmod]
    have same := List.inj_on_of_nodup_map distinct (List.mem_range.mpr (show 2 ^ w < n by omega))
      (List.mem_range.mpr (show 0 < n by omega)) again
    omega
  · intro enough
    refine List.Nodup.map_on (fun i hi j hj same => ?_) List.nodup_range
    have near : |(i : Int) - j| < 2 ^ w := by
      have hi' := List.mem_range.mp hi
      have hj' := List.mem_range.mp hj
      have : ((2 ^ w : Nat) : Int) = (2 : Int) ^ w := by push_cast; rfl
      rw [← this, abs_lt]
      omega
    exact_mod_cast wrap_inj_of_near near same

end JavaInt
