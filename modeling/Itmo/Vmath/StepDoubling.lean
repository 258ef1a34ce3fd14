import Itmo.Lib.Loop
import Itmo.Vmath.Integrate
import Mathlib.Analysis.SpecialFunctions.Log.Base

/-! The loop of `vmath3` that doubles the number of steps until two results are close enough.
The number is a machine integer and the precision is not looked at, so the number stays positive
just if one of the first twenty-eight tests ends the loop; with a precision that is not positive
none does in exact arithmetic. -/

namespace Itmo.Vmath

open Lib Polynomial

section Definitions

variable {D : Type*} [Add D] [Sub D] [Mul D] [Div D] [IntCast D] [LE D] [DecidableLE D]

/-- What the program uses of `java.lang.Math`. -/
structure MathLibrary (D : Type*) where
  pow : D → D → D
  log10 : D → D

/-- `Math.abs` -/
def MathLibrary.abs (a : D) : D := if a ≤ ((0 : ℤ) : D) then ((0 : ℤ) : D) - a else a

namespace StepDoubling

/-- The functions of the menu. -/
def function (math : MathLibrary D) : String → Option (D → D)
  | "1" => some fun arg => math.pow arg ((3 : ℤ) : D) - ((3 : ℤ) : D) * math.pow arg ((2 : ℤ) : D) +
      ((7 : ℤ) : D) * arg - ((10 : ℤ) : D)
  | "2" => some fun arg => ((2 : ℤ) : D) * math.pow arg ((3 : ℤ) : D) -
      ((5 : ℤ) : D) * math.pow arg ((2 : ℤ) : D) - ((3 : ℤ) : D) * arg + ((21 : ℤ) : D)
  | "3" => some fun arg => ((7 : ℤ) : D) * math.pow arg ((3 : ℤ) : D) -
      ((2 : ℤ) : D) * math.pow arg ((2 : ℤ) : D) - ((9 : ℤ) : D) * arg + ((36 : ℤ) : D)
  | "4" => some fun arg => math.log10 arg / math.log10 ((2 : ℤ) : D)
  | _ => none

def integrate : String → Option ((D → D) → D → D → ℤ → D)
  | "1" => some Rectangle.left
  | "2" => some Rectangle.center
  | "3" => some Rectangle.right
  | "4" => some Trapezoid.trapezoid
  | "5" => some Simpson.simpson
  | _ => none

variable (integrate : (D → D) → D → D → ℤ → D) (function : D → D) (left right precision : D)

/-- How far the results for a number of steps and for its double are from each other. -/
def difference (steps : BitVec 32) : D :=
  MathLibrary.abs (integrate function left right steps.toInt -
    integrate function left right (steps * 2).toInt)

def doubling (turns : ℕ) : Option (BitVec 32) :=
  whileLoop (fun steps => precision ≤ difference integrate function left right steps)
    (fun steps => steps * 2) turns 4

inductive Printed (D : Type*) where
  | incorrect
  | answer (value : D) (steps : BitVec 32)

/-- `Main.main`, with the lines it reads. -/
def main (math : MathLibrary D) (turns : ℕ) (choice : String) (left right precision : D)
    (method : String) : Option (Printed D) :=
  match StepDoubling.function math choice, StepDoubling.integrate method with
  | some function, some integrate =>
    (doubling integrate function left right precision turns).map fun steps =>
      .answer (integrate function left right (steps * 2).toInt) (steps * 2)
  | _, _ => some .incorrect

/-- Whenever the test is made, both numbers of steps are positive; and the loop ends, with an
answer that is closer to the result before it than the precision. -/
def Safe [LT D] : Prop :=
  (∀ steps, Visits (fun steps => precision ≤ difference integrate function left right steps)
    (fun steps => steps * 2) 4 steps → 0 < steps.toInt ∧ 0 < (steps * 2).toInt) ∧
  ∃ turns steps, doubling integrate function left right precision turns = some steps ∧
    difference integrate function left right steps < precision

/-- How far the results are from each other after a number of doublings. -/
def gap (k : ℕ) : D :=
  MathLibrary.abs (integrate function left right (4 * 2 ^ k) -
    integrate function left right (4 * 2 ^ (k + 1)))

end StepDoubling

end Definitions

namespace StepDoubling

/-! ### The number of steps -/

theorem iterate_double (k : ℕ) :
    (fun steps : BitVec 32 => steps * 2)^[k] 4 = BitVec.ofNat 32 (4 * 2 ^ k) := by
  induction k with
  | zero => rfl
  | succ k ih =>
    rw [Function.iterate_succ_apply', ih, pow_succ, ← mul_assoc, BitVec.ofNat_mul _ 2]
    rfl

theorem toInt_double : ∀ k < 28, (BitVec.ofNat 32 (4 * 2 ^ k)).toInt = 4 * 2 ^ k ∧
    (BitVec.ofNat 32 (4 * 2 ^ k) * 2).toInt = 4 * 2 ^ (k + 1) := by
  decide

theorem toInt_overflow : (BitVec.ofNat 32 (4 * 2 ^ 28) * 2).toInt < 0 := by decide

/-! ### The loop -/

section Loop

variable {D : Type*} [Sub D] [IntCast D] [LE D] [DecidableLE D]
  {integrate : (D → D) → D → D → ℤ → D} {function : D → D} {left right precision : D}

theorem difference_iterate {k : ℕ} (hk : k < 28) :
    difference integrate function left right ((fun steps : BitVec 32 => steps * 2)^[k] 4) =
      gap integrate function left right k := by
  obtain ⟨hsteps, hdouble⟩ := toInt_double k hk
  rw [iterate_double, difference, gap, hsteps, hdouble]

theorem Safe.exists_gap [LT D] (h : Safe integrate function left right precision) :
    ∃ k ≤ 27, (∀ j < k, precision ≤ gap integrate function left right j) ∧
      ¬ precision ≤ gap integrate function left right k ∧
      gap integrate function left right k < precision := by
  obtain ⟨hpositive, turns, steps, hloop, hclose⟩ := h
  obtain ⟨n, -, htests, htest, rfl⟩ := whileLoop_eq_some_iff.mp hloop
  have hn : n ≤ 27 := by
    -- at the twenty-ninth test the double would be too large
    by_contra hn
    have hlast := hpositive _ ⟨28, fun k hk => htests k (by omega), rfl⟩
    rw [iterate_double] at hlast
    exact absurd hlast.2 (not_lt.mpr toInt_overflow.le)
  rw [difference_iterate (by omega)] at htest hclose
  refine ⟨n, hn, fun j hj => ?_, htest, hclose⟩
  rw [← difference_iterate (by omega)]
  exact htests j hj

theorem safe_of_gap [LT D] {k : ℕ} (hk : k ≤ 27)
    (htests : ∀ j < k, precision ≤ gap integrate function left right j)
    (htest : ¬ precision ≤ gap integrate function left right k)
    (hclose : gap integrate function left right k < precision) :
    Safe integrate function left right precision := by
  rw [← difference_iterate (by omega)] at htest hclose
  have hends : ∀ j < k, precision ≤ difference integrate function left right
      ((fun steps : BitVec 32 => steps * 2)^[j] 4) := by
    intro j hj
    rw [difference_iterate (by omega)]
    exact htests j hj
  refine ⟨?_, k + 1, _, whileLoop_eq_some_iff.mpr ⟨k, by omega, hends, htest, rfl⟩, hclose⟩
  rintro steps ⟨n, hvisited, rfl⟩
  have hn : n ≤ k := by
    by_contra hn
    exact htest (hvisited k (by omega))
  obtain ⟨hsteps, hdouble⟩ := toInt_double n (by omega)
  rw [iterate_double, hsteps, hdouble]
  constructor <;> positivity

/-- The number of steps stays positive and the answer meets the precision just if one of the
first twenty-eight tests ends the loop with results that close. -/
theorem safe_iff [LT D] : Safe integrate function left right precision ↔
    ∃ k ≤ 27, (∀ j < k, precision ≤ gap integrate function left right j) ∧
      ¬ precision ≤ gap integrate function left right k ∧
      gap integrate function left right k < precision := by
  constructor
  · exact Safe.exists_gap
  · rintro ⟨k, hk, htests, htest, hclose⟩
    exact safe_of_gap hk htests htest hclose

end Loop

/-- What the program prints then. -/
theorem Safe.main_eq {D : Type*} [Add D] [Sub D] [Mul D] [Div D] [IntCast D] [LE D]
    [DecidableLE D] [LT D] {math : MathLibrary D} {choice method : String} {f : D → D}
    {rule : (D → D) → D → D → ℤ → D} {left right precision : D}
    (hf : StepDoubling.function math choice = some f)
    (hrule : StepDoubling.integrate method = some rule) (h : Safe rule f left right precision) :
    ∃ turns steps, main math turns choice left right precision method =
        some (.answer (rule f left right (steps * 2).toInt) (steps * 2)) ∧
      0 < (steps * 2).toInt ∧ difference rule f left right steps < precision := by
  obtain ⟨hpositive, turns, steps, hloop, hclose⟩ := h
  refine ⟨turns, steps, ?_, (hpositive steps (whileLoop_some hloop).1).2, hclose⟩
  simp only [main, hf, hrule, hloop, Option.map_some]

/-! ### Exact arithmetic -/

section Exact

variable {K : Type*} [Field K] [LinearOrder K] [IsStrictOrderedRing K]
  {integrate : (K → K) → K → K → ℤ → K} {function : K → K} {left right precision : K}

theorem abs_eq (a : K) : MathLibrary.abs a = |a| := by
  rw [MathLibrary.abs, Int.cast_zero, zero_sub]
  split_ifs with h
  · exact (abs_of_nonpos h).symm
  · exact (abs_of_nonneg (not_le.mp h).le).symm

/-- A precision that is not positive is never met. -/
theorem not_safe_of_nonpos (hprecision : precision ≤ 0) :
    ¬ Safe integrate function left right precision := by
  rintro ⟨-, turns, steps, -, hclose⟩
  rw [difference, abs_eq] at hclose
  exact absurd (hclose.trans_le hprecision) (not_lt.mpr (abs_nonneg _))

/-- With Simpson's rule for a cubic, the first test ends the loop for every other precision. -/
theorem safe_simpson {P : K[X]} (hP : (derivative P).natDegree ≤ 3) (hprecision : 0 < precision) :
    Safe Simpson.simpson (fun x => (derivative P).eval x) left right precision := by
  have hfour := Simpson_eq hP left right 1
  have height := Simpson_eq hP left right 3
  have hgap : gap Simpson.simpson (fun x => (derivative P).eval x) left right 0 = 0 := by
    rw [gap, abs_eq]
    norm_num at hfour height ⊢
    rw [hfour, height, sub_self]
  refine safe_of_gap (Nat.zero_le 27) (by simp) ?_ ?_
  · rw [hgap]
    exact not_le.mpr hprecision
  · rw [hgap]
    exact hprecision

end Exact

noncomputable def realMath : MathLibrary ℝ := ⟨fun x y => x ^ y, Real.logb 10⟩

/-- The first function and Simpson's rule from zero to one, with a precision of zero. -/
theorem zero_precision_not_safe :
    ¬ ∀ (choice method : String) (left right precision : ℝ),
      ∀ f ∈ StepDoubling.function realMath choice, ∀ rule ∈ StepDoubling.integrate method,
        Safe rule f left right precision := by
  intro hall
  exact not_safe_of_nonpos le_rfl (hall "1" "5" 0 1 0 _ rfl _ rfl)

end StepDoubling

end Itmo.Vmath
