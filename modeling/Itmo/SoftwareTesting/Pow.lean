import Mathlib.Algebra.Field.Basic

/-! The powers of `software_testing`, of which the series of its functions are built. -/

namespace Itmo.SoftwareTesting

structure Pow where
  n : Int32
  isRev : Bool

structure PowTriplet where
  power : Int32
  sign : Int32
  pow : Pow

namespace Pow

def new (n : Int32) : Pow :=
  let isRev := decide (n < 0)
  ⟨n * (if isRev then -1 else 1), isRev⟩

variable {K : Type*} [Field K]

def apply (pow : Pow) (x : K) : K :=
  let ans := (fun ans : K => ans * x)^[pow.n.toInt.toNat] 1
  if pow.isRev then 1 / ans else ans

theorem iterate_mul (x : K) (n : ℕ) : (fun ans : K => ans * x)^[n] 1 = x ^ n := by
  induction n with
  | zero => exact (pow_zero x).symm
  | succ n ih => rw [Function.iterate_succ_apply', ih, pow_succ]

/-- The least `int` has no opposite. -/
theorem apply_new {n : Int32} (hn : n ≠ Int32.minValue) (x : K) :
    (new n).apply x = x ^ n.toInt := by
  rw [apply, iterate_mul, new]
  by_cases h : n < 0
  · have hneg : (n * -1).toInt = -n.toInt := by
      have hle := n.le_toInt
      have hlt := n.toInt_lt
      have hmin : n.toInt ≠ -2 ^ 31 := fun h => hn (Int32.toInt_inj.mp h)
      rw [Int32.mul_neg, Int32.mul_one, Int32.toInt_neg, Int.bmod_eq_of_le (by omega) (by omega)]
    have hlt : n.toInt < 0 := Int32.lt_iff_toInt_lt.mp h
    rw [if_pos (decide_eq_true h)]
    simp only [decide_eq_true h, if_true]
    rw [hneg, one_div, ← zpow_natCast, Int.toNat_of_nonneg (by omega), zpow_neg, inv_inv]
  · have hle : 0 ≤ n.toInt := Int32.le_iff_toInt_le.mp (Int32.not_lt.mp h)
    simp only [decide_eq_false h, if_false, Bool.false_eq_true, Int32.mul_one]
    rw [← zpow_natCast, Int.toNat_of_nonneg hle]

end Pow

end Itmo.SoftwareTesting
