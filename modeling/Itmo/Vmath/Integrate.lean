import Itmo.Vmath.Differential
import Mathlib.Analysis.Calculus.Deriv.Polynomial
import Mathlib.MeasureTheory.Integral.IntervalIntegral.FundThmCalculus
import Mathlib.Topology.Algebra.Polynomial

/-! The rules of `vmath3` for definite integrals. The numbers are any that can be added,
multiplied and divided and that integers are converted to, so that the same definitions are
those of machine numbers and of exact ones. Simpson's rule is exact for cubics. The central
rectangles take the mean of the values at the two ends of a step and not the value in its
middle, which makes them the trapezoids. -/

namespace Itmo.Vmath

open Polynomial

section Definitions

variable {D : Type*} [Add D] [Sub D] [Mul D] [Div D] [IntCast D]

namespace Simpson

/-- The loop of `simpson`, for a number of turns. -/
def sum (function : D → D) (left step : D) (turns : ℕ) : D :=
  (List.range' 1 turns).foldl (fun sum (i : ℕ) =>
    if i % 2 = 1 then sum + ((4 : ℤ) : D) * function (left + step * ((i : ℤ) : D))
    else sum + ((2 : ℤ) : D) * function (left + step * ((i : ℤ) : D))) ((0 : ℤ) : D)

def simpson (function : D → D) (left right : D) (steps : ℤ) : D :=
  let step := (right - left) / (steps : D)
  let sum := sum function left step (steps - 1).toNat + (function left + function right)
  sum * (step / ((3 : ℤ) : D))

end Simpson

namespace Rectangle

def rectangle (borderSelector : D → D → D) (function : D → D) (left right : D) (steps : ℤ) : D :=
  let step := (right - left) / (steps : D)
  let sum := (List.range steps.toNat).foldl (fun sum (i : ℕ) =>
    sum + borderSelector (function (left + step * ((i : ℤ) : D)))
      (function (left + step * ((i + 1 : ℤ) : D)))) ((0 : ℤ) : D)
  sum * step

def left : (D → D) → D → D → ℤ → D := rectangle fun left _ => left

def center : (D → D) → D → D → ℤ → D := rectangle fun left right => (left + right) / ((2 : ℤ) : D)

def right : (D → D) → D → D → ℤ → D := rectangle fun _ right => right

end Rectangle

def Trapezoid.trapezoid (function : D → D) (left right : D) (steps : ℤ) : D :=
  let step := (right - left) / (steps : D)
  let sum := (List.range' 1 (steps - 1).toNat).foldl (fun sum (i : ℕ) =>
    sum + function (left + step * ((i : ℤ) : D))) ((0 : ℤ) : D)
  let sum := sum + (function left + function right) / ((2 : ℤ) : D)
  sum * step

/-- The rule that takes the value in the middle of each step. -/
def midpoint {K : Type*} [Field K] (function : K → K) (left right : K) (steps : ℕ) : K :=
  let step := (right - left) / steps
  step * ∑ i ∈ Finset.range steps, function (left + step * (i + 1 / (2 : ℕ)))

end Definitions

/-! ### Simpson's rule -/

section Simpson

variable {K : Type*} [Field K] {function : K → K} {left step : K}

theorem Simpson_sum_odd (n : ℕ) : Simpson.sum function left step (2 * n + 1) =
    Simpson.sum function left step (2 * n) + 4 * function (left + step * (2 * n + 1)) := by
  have hlast : 1 + 2 * n = 2 * n + 1 := Nat.add_comm 1 (2 * n)
  rw [Simpson.sum, List.range'_1_concat, List.foldl_concat, ← Simpson.sum,
    if_pos (by omega), hlast]
  push_cast
  rfl

theorem Simpson_sum_even (n : ℕ) : Simpson.sum function left step (2 * n + 2) =
    Simpson.sum function left step (2 * n + 1) + 2 * function (left + step * (2 * n + 2)) := by
  have hlast : 1 + (2 * n + 1) = 2 * n + 2 := by omega
  rw [Simpson.sum, List.range'_1_concat, List.foldl_concat, ← Simpson.sum, if_neg (by omega), hlast]
  push_cast
  rfl

variable [CharZero K] {P : K[X]}

/-- Two turns of the loop at a time: with the two ends, the sum is the integral up to a point of
the grid. -/
theorem Simpson_sum_eq (hP : (derivative P).natDegree ≤ 3) (left step : K) (n : ℕ) :
    (Simpson.sum (fun x => (derivative P).eval x) left step (2 * n + 1) +
      ((derivative P).eval left + (derivative P).eval (left + step * (2 * n + 2)))) * (step / 3) =
      P.eval (left + step * (2 * n + 2)) - P.eval left := by
  have hturn := fun x => simpson hP x (2 * step)
  rw [mul_div_cancel_left₀ step two_ne_zero] at hturn
  induction n with
  | zero =>
    have hsum : Simpson.sum (fun x => (derivative P).eval x) left step (2 * 0 + 1) =
        4 * (derivative P).eval (left + step) := by
      rw [Simpson_sum_odd]
      simp [Simpson.sum]
    have hlast : left + step * (2 * ((0 : ℕ) : K) + 2) = left + 2 * step := by
      rw [Nat.cast_zero]
      ring
    rw [hsum, hlast, hturn left]
    ring
  | succ n ih =>
    have hmiddle : left + step * (2 * ((n + 1 : ℕ) : K) + 1) =
        left + step * (2 * n + 2) + step := by
      push_cast
      ring
    have hlast : left + step * (2 * ((n + 1 : ℕ) : K) + 2) =
        left + step * (2 * n + 2) + 2 * step := by
      push_cast
      ring
    rw [Simpson_sum_odd, show 2 * (n + 1) = 2 * n + 2 by omega, Simpson_sum_even, hmiddle, hlast,
      hturn (left + step * (2 * n + 2))]
    linear_combination ih

theorem Simpson_eq (hP : (derivative P).natDegree ≤ 3) (left right : K) (n : ℕ) :
    Simpson.simpson (fun x => (derivative P).eval x) left right (2 * n + 2 : ℤ) =
      P.eval right - P.eval left := by
  have hsteps : (2 * n + 2 : K) ≠ 0 := by
    exact_mod_cast (show 2 * n + 2 ≠ 0 by omega)
  have hturns : ((2 * n + 2 : ℤ) - 1).toNat = 2 * n + 1 := by omega
  have hright : left + (right - left) / (2 * n + 2) * (2 * n + 2) = right := by
    rw [div_mul_cancel₀ _ hsteps, add_sub_cancel]
  have hsum := Simpson_sum_eq hP left ((right - left) / (2 * n + 2)) n
  rw [hright] at hsum
  rw [Simpson.simpson, hturns]
  push_cast
  exact hsum

end Simpson

/-- Every polynomial is a derivative. -/
theorem exists_derivative_eq {K : Type*} [Field K] [CharZero K] (p : K[X]) :
    ∃ P : K[X], derivative P = p := by
  induction p using Polynomial.induction_on' with
  | add p q hp hq =>
    obtain ⟨P, rfl⟩ := hp
    obtain ⟨Q, rfl⟩ := hq
    exact ⟨P + Q, derivative_add⟩
  | monomial n a =>
    refine ⟨monomial (n + 1) (a / (n + 1)), ?_⟩
    rw [derivative_monomial, Nat.add_sub_cancel, Nat.cast_succ,
      div_mul_cancel₀ _ (Nat.cast_add_one_ne_zero n)]

/-- The integral of a cubic, for an even number of steps and the bounds in either order. -/
theorem simpson_exact (p : ℚ[X]) (hp : p.natDegree ≤ 3) (left right : ℚ) (steps : ℤ)
    (heven : Even steps) (hsteps : 2 ≤ steps) :
    ((Simpson.simpson (fun x => p.eval x) left right steps : ℚ) : ℝ) =
      ∫ x in (left : ℝ)..right, (p.map (algebraMap ℚ ℝ)).eval x := by
  obtain ⟨P, rfl⟩ := exists_derivative_eq p
  obtain ⟨n, hn⟩ : ∃ n : ℕ, steps = 2 * n + 2 := by
    obtain ⟨k, hk⟩ := heven
    exact ⟨(k - 1).toNat, by omega⟩
  have hderivative : ∀ x : ℝ, HasDerivAt (fun x => (P.map (algebraMap ℚ ℝ)).eval x)
      (((derivative P).map (algebraMap ℚ ℝ)).eval x) x := by
    intro x
    rw [← derivative_map]
    exact (P.map (algebraMap ℚ ℝ)).hasDerivAt x
  have hvalue : ∀ x : ℚ, (P.map (algebraMap ℚ ℝ)).eval (x : ℝ) = ((P.eval x : ℚ) : ℝ) := by
    intro x
    rw [eval_map]
    exact eval₂_at_apply (algebraMap ℚ ℝ) x
  rw [hn, Simpson_eq hp, intervalIntegral.integral_eq_sub_of_hasDerivAt
    (fun x _ => hderivative x) ((Polynomial.continuous _).intervalIntegrable _ _), hvalue, hvalue,
    Rat.cast_sub]

/-- Backwards over two steps. -/
theorem simpson_exact_square :
    ((Simpson.simpson (fun x => (X ^ 2 : ℚ[X]).eval x) 3 0 2 : ℚ) : ℝ) =
      ∫ x in ((3 : ℚ) : ℝ)..((0 : ℚ) : ℝ), ((X ^ 2 : ℚ[X]).map (algebraMap ℚ ℝ)).eval x :=
  simpson_exact (X ^ 2) (by rw [natDegree_X_pow]; omega) 3 0 2 (by decide) le_rfl

/-! ### Rectangles -/

section Rectangle

variable {K : Type*} [Field K]

theorem foldl_add_range (g : ℕ → K) (n : ℕ) :
    (List.range n).foldl (fun sum i => sum + g i) 0 = ∑ i ∈ Finset.range n, g i := by
  induction n with
  | zero => rfl
  | succ n ih => rw [List.range_succ, List.foldl_concat, ih, Finset.sum_range_succ]

theorem rectangle_eq (borderSelector : K → K → K) (function : K → K) (left right : K) (n : ℕ) :
    Rectangle.rectangle borderSelector function left right n =
      (∑ i ∈ Finset.range n, borderSelector (function (left + (right - left) / n * i))
        (function (left + (right - left) / n * (i + 1)))) * ((right - left) / n) := by
  rw [Rectangle.rectangle, Int.toNat_natCast]
  push_cast
  rw [foldl_add_range]

variable [CharZero K] {function : K → K} {left right : K} {n : ℕ}

/-- The last point of the grid is the right bound. -/
theorem grid_last (hn : 0 < n) : left + (right - left) / n * n = right := by
  rw [div_mul_cancel₀ _ (Nat.cast_ne_zero.mpr hn.ne'), add_sub_cancel]

/-- The rule is the one of the trapezoids. -/
theorem center_eq_trapezoid (hn : 0 < n) :
    Rectangle.center function left right n = Trapezoid.trapezoid function left right n := by
  obtain ⟨n, rfl⟩ := Nat.exists_eq_add_of_le' hn
  have hinner : (List.range' 1 n).foldl (fun sum (i : ℕ) =>
      sum + function (left + (right - left) / (n + 1 : ℕ) * i)) 0 =
      ∑ i ∈ Finset.range n, function (left + (right - left) / (n + 1 : ℕ) * (i + 1 : ℕ)) := by
    rw [List.range'_eq_map_range, List.foldl_map, foldl_add_range]
    simp only [Nat.add_comm 1]
  have hturns : ((n + 1 : ℕ) - 1 : ℤ).toNat = n := by omega
  have hlast : left + (right - left) / (n + 1 : ℕ) * ((n + 1 : ℕ) : K) = right := grid_last hn
  -- every inner point is the end of one step and the start of the next
  have hleft := Finset.sum_range_succ'
    (fun i : ℕ => function (left + (right - left) / (n + 1 : ℕ) * i)) n
  have hright := Finset.sum_range_succ
    (fun i : ℕ => function (left + (right - left) / (n + 1 : ℕ) * (i + 1 : ℕ))) n
  rw [hlast] at hright
  rw [Nat.cast_zero, mul_zero, add_zero] at hleft
  rw [Rectangle.center, rectangle_eq, Trapezoid.trapezoid, hturns]
  simp only [Int.cast_natCast, Int.cast_zero, hinner, ← Finset.sum_div, Finset.sum_add_distrib,
    ← Nat.cast_succ, hleft, hright]
  push_cast
  ring

theorem center_sub_midpoint (function : K → K) (left right : K) (n : ℕ) :
    Rectangle.center function left right n - midpoint function left right n =
      (right - left) / n / 2 * ∑ i ∈ Finset.range n, (function (left + (right - left) / n * i) +
        function (left + (right - left) / n * (i + 1)) -
        2 * function (left + (right - left) / n * (i + 1 / 2))) := by
  rw [Rectangle.center, rectangle_eq, midpoint]
  simp only [Finset.sum_sub_distrib, ← Finset.mul_sum, ← Finset.sum_div]
  push_cast
  ring

/-- The central rectangles are the rule of the middles for a function just if they leave no
deviation, and for all bounds and steps just if the function takes in every middle the mean of
its values at the ends. -/
theorem center_eq_midpoint_iff :
    (∀ left right : K, ∀ n : ℕ, 0 < n →
      (Rectangle.center function left right n = midpoint function left right n ↔
        left = right ∨ ∑ i ∈ Finset.range n, (function (left + (right - left) / n * i) +
          function (left + (right - left) / n * (i + 1)) -
          2 * function (left + (right - left) / n * (i + 1 / 2))) = 0)) ∧
      ((∀ left right : K, ∀ n : ℕ, 0 < n →
        Rectangle.center function left right n = midpoint function left right n) ↔
        ∀ x y, function ((x + y) / 2) = (function x + function y) / 2) := by
  have hiff : ∀ left right : K, ∀ n : ℕ, 0 < n →
      (Rectangle.center function left right n = midpoint function left right n ↔
        left = right ∨ ∑ i ∈ Finset.range n, (function (left + (right - left) / n * i) +
          function (left + (right - left) / n * (i + 1)) -
          2 * function (left + (right - left) / n * (i + 1 / 2))) = 0) := by
    intro left right n hn
    have hn0 : (n : K) ≠ 0 := Nat.cast_ne_zero.mpr hn.ne'
    rw [← sub_eq_zero, center_sub_midpoint, mul_eq_zero, div_eq_zero_iff, div_eq_zero_iff,
      or_iff_left two_ne_zero, or_iff_left hn0, sub_eq_zero, eq_comm (a := right)]
  refine ⟨hiff, ?_⟩
  constructor
  · intro hall x y
    rcases (hiff x y 1 one_pos).mp (hall x y 1 one_pos) with rfl | hsum
    · rw [add_self_div_two, add_self_div_two]
    · rw [Finset.sum_range_one, Nat.cast_zero, Nat.cast_one, div_one, mul_zero, add_zero, zero_add,
        zero_add, mul_one, add_sub_cancel] at hsum
      have hmiddle : x + (y - x) * (1 / 2) = (x + y) / 2 := by ring
      rw [hmiddle, sub_eq_zero] at hsum
      rw [hsum, mul_div_cancel_left₀ _ two_ne_zero]
  · intro hmean left right n hn
    refine (hiff left right n hn).mpr (Or.inr (Finset.sum_eq_zero fun i _ => ?_))
    have hmiddle : left + (right - left) / n * (i + 1 / 2) =
        (left + (right - left) / n * i + (left + (right - left) / n * (i + 1))) / 2 := by ring
    rw [hmiddle, hmean, mul_div_cancel₀ _ two_ne_zero, sub_self]

/-- A line. -/
theorem center_eq_midpoint_line :
    Rectangle.center (fun x : ℚ => 3 * x + 1) 0 2 (4 : ℕ) = midpoint (fun x => 3 * x + 1) 0 2 4 := by
  refine center_eq_midpoint_iff.2.mpr (fun x y => ?_) 0 2 4 (by omega)
  ring

/-- The square over one step from zero to two: 4 for 2. -/
theorem center_ne_midpoint_square :
    ¬ ∀ (function : ℚ → ℚ) (left right : ℚ) (n : ℕ), 0 < n →
      Rectangle.center function left right n = midpoint function left right n := by
  intro hall
  have h := hall (fun x => x * x) 0 2 1 one_pos
  revert h
  decide +kernel

end Rectangle

end Itmo.Vmath
