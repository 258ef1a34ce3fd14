import Mathlib.Algebra.Polynomial.Derivative
import Mathlib.Algebra.Polynomial.Eval.Degree
import Mathlib.Tactic.FieldSimp

/-! The Runge-Kutta and the corrected Adams method of `differential.py`, in exact arithmetic,
for a right side that does not depend on the unknown function. On a uniform grid each of their
three steps is a quadrature rule that is exact for cubics, so the list of values is that of an
antiderivative after every turn of every loop, and the correcting pass writes back what is
there. -/

namespace Itmo.Vmath

open Polynomial

section Definitions

variable {K : Type*} [Field K]

/-- One turn of the loop of `RK`. -/
def RK.step (x : List K) (f : K → K → K) (y : List K) (i : ℕ) : List K :=
  let x' := x.getD (i - 1) 0
  let y' := y.getD (i - 1) 0
  let h := x.getD i 0 - x'
  let k1 := h * f x' y'
  let k2 := h * f (x' + h / (2 : ℕ)) (y' + k1 / (2 : ℕ))
  let k3 := h * f (x' + h / (2 : ℕ)) (y' + k2 / (2 : ℕ))
  let k4 := h * f (x' + h) (y' + k3)
  y ++ [y' + (k1 + (2 : ℕ) * (k2 + k3) + k4) / (6 : ℕ)]

def RK (y0 : K) (x : List K) (f : K → K → K) : List K :=
  (List.range' 1 (x.length - 1)).foldl (RK.step x f) [y0]

namespace AdamsCorrected

/-- One turn of the first loop. -/
def predict (x : List K) (f : K → K → K) (y : List K) (i : ℕ) : List K :=
  let fi := f (x.getD (i - 1) 0) (y.getD (i - 1) 0)
  let fim1 := f (x.getD (i - 2) 0) (y.getD (i - 2) 0)
  let fim2 := f (x.getD (i - 3) 0) (y.getD (i - 3) 0)
  let fim3 := f (x.getD (i - 4) 0) (y.getD (i - 4) 0)
  let h := x.getD i 0 - x.getD (i - 1) 0
  y ++ [y.getD (i - 1) 0 + h *
    ((55 : ℕ) * fi - (59 : ℕ) * fim1 + (37 : ℕ) * fim2 - (9 : ℕ) * fim3) / (24 : ℕ)]

/-- The step after the first loop: that of its last turn. -/
def h (x : List K) : K := x.getD (x.length - 1) 0 - x.getD (x.length - 1 - 1) 0

/-- One turn of the second loop. -/
def correct (x : List K) (f : K → K → K) (y : List K) (i : ℕ) : List K :=
  let fip1 := f (x.getD i 0) (y.getD i 0)
  let fi := f (x.getD (i - 1) 0) (y.getD (i - 1) 0)
  let fim1 := f (x.getD (i - 2) 0) (y.getD (i - 2) 0)
  let fim2 := f (x.getD (i - 3) 0) (y.getD (i - 3) 0)
  y.set i (y.getD (i - 1) 0 + h x *
    ((9 : ℕ) * fip1 + (19 : ℕ) * fi - (5 : ℕ) * fim1 + fim2) / (24 : ℕ))

end AdamsCorrected

def AdamsCorrected (y0 : K) (x : List K) (f : K → K → K) : List K :=
  let y := RK y0 (x.take 4) f
  let y := (List.range' 4 (x.length - 4)).foldl (AdamsCorrected.predict x f) y
  (List.range' 4 (x.length - 4)).foldl (AdamsCorrected.correct x f) y

end Definitions

/-! ### The rules -/

section Rules

variable {K : Type*} [Field K] [CharZero K] {P : K[X]}

theorem eval_of_derivative_le (hP : (derivative P).natDegree ≤ 3) :
    ∃ a b c d e : K, (∀ x, P.eval x = a + b * x + c * x ^ 2 + d * x ^ 3 + e * x ^ 4) ∧
      ∀ x, (derivative P).eval x = b + 2 * c * x + 3 * d * x ^ 2 + 4 * e * x ^ 3 := by
  have hdegree : P.natDegree < 5 := by
    rw [natDegree_derivative] at hP
    omega
  refine ⟨P.coeff 0, P.coeff 1, P.coeff 2, P.coeff 3, P.coeff 4, fun x => ?_, fun x => ?_⟩
  · rw [eval_eq_sum_range' hdegree]
    simp [Finset.sum_range_succ]
  · rw [eval_eq_sum_range' (Nat.lt_succ_of_le hP)]
    simp only [Finset.sum_range_succ, Finset.sum_range_zero, coeff_derivative]
    push_cast
    ring

theorem simpson (hP : (derivative P).natDegree ≤ 3) (x h : K) :
    P.eval (x + h) = P.eval x + h * ((derivative P).eval x +
      4 * (derivative P).eval (x + h / 2) + (derivative P).eval (x + h)) / 6 := by
  obtain ⟨a, b, c, d, e, heval, hderivative⟩ := eval_of_derivative_le hP
  simp only [heval, hderivative]
  field_simp
  ring

/-- The explicit formula. -/
theorem adams_explicit (hP : (derivative P).natDegree ≤ 3) (x h : K) :
    P.eval (x + 4 * h) = P.eval (x + 3 * h) + h * (55 * (derivative P).eval (x + 3 * h) -
      59 * (derivative P).eval (x + 2 * h) + 37 * (derivative P).eval (x + h) -
      9 * (derivative P).eval x) / 24 := by
  obtain ⟨a, b, c, d, e, heval, hderivative⟩ := eval_of_derivative_le hP
  simp only [heval, hderivative]
  field_simp
  ring

/-- The implicit formula. -/
theorem adams_implicit (hP : (derivative P).natDegree ≤ 3) (x h : K) :
    P.eval (x + 3 * h) = P.eval (x + 2 * h) + h * (9 * (derivative P).eval (x + 3 * h) +
      19 * (derivative P).eval (x + 2 * h) - 5 * (derivative P).eval (x + h) +
      (derivative P).eval x) / 24 := by
  obtain ⟨a, b, c, d, e, heval, hderivative⟩ := eval_of_derivative_le hP
  simp only [heval, hderivative]
  field_simp
  ring

end Rules

/-! ### The loops -/

section Loops

variable {K : Type*} [Field K] {P : K[X]} {x : List K} {x0 h' : K}

/-- Every entry is the same step behind the one before it. -/
def Uniform (x : List K) (x0 h : K) : Prop :=
  ∀ i < x.length, x.getD i 0 = x0 + i * h

theorem Uniform.take (hx : Uniform x x0 h') (n : ℕ) : Uniform (x.take n) x0 h' := by
  intro i hi
  rw [List.length_take] at hi
  rw [← hx i (by omega), List.getD_eq_getElem?_getD, List.getD_eq_getElem?_getD,
    List.getElem?_take_of_lt (by omega)]

/-- The list of values up to a turn of a loop. -/
noncomputable def valuesTo (P : K[X]) (x : List K) (i : ℕ) : List K :=
  (x.take i).map fun x => P.eval x

theorem valuesTo_getD {i j : ℕ} (hj : j < i) (hi : i ≤ x.length) :
    (valuesTo P x i).getD j 0 = P.eval (x.getD j 0) := by
  have hlength : j < x.length := by omega
  rw [valuesTo, List.getD_eq_getElem?_getD, List.getD_eq_getElem?_getD, List.getElem?_map,
    List.getElem?_take_of_lt hj, List.getElem?_eq_getElem hlength, Option.map_some,
    Option.getD_some, Option.getD_some]

theorem valuesTo_append {i : ℕ} (hi : i < x.length) :
    valuesTo P x i ++ [P.eval (x.getD i 0)] = valuesTo P x (i + 1) := by
  rw [valuesTo, valuesTo, List.take_add_one, List.map_append, List.getElem?_eq_getElem hi,
    List.getD_eq_getElem?_getD, List.getElem?_eq_getElem hi]
  rfl

/-- A loop that appends the next value in every turn. -/
theorem foldl_append_values {step : List K → ℕ → List K} {first turns : ℕ}
    (hturns : first + turns ≤ x.length)
    (hstep : ∀ i, first ≤ i → i < x.length →
      step (valuesTo P x i) i = valuesTo P x i ++ [P.eval (x.getD i 0)]) :
    (List.range' first turns).foldl step (valuesTo P x first) = valuesTo P x (first + turns) := by
  induction turns with
  | zero => rfl
  | succ turns ih =>
    rw [List.range'_1_concat, List.foldl_append, ih (by omega), List.foldl_cons, List.foldl_nil,
      hstep _ (by omega) (by omega), valuesTo_append (by omega), Nat.add_assoc]

variable [CharZero K]

theorem RK_step_eq (hP : (derivative P).natDegree ≤ 3) {i : ℕ} (hi : 1 ≤ i)
    (hx : i < x.length) :
    RK.step x (fun x _ => (derivative P).eval x) (valuesTo P x i) i =
      valuesTo P x i ++ [P.eval (x.getD i 0)] := by
  have hrule := simpson hP (x.getD (i - 1) 0) (x.getD i 0 - x.getD (i - 1) 0)
  rw [add_sub_cancel] at hrule
  rw [RK.step, valuesTo_getD (by omega) hx.le, hrule, add_sub_cancel]
  simp only [Nat.cast_ofNat]
  congr 3
  ring

theorem RK_eq (hP : (derivative P).natDegree ≤ 3) (hx : x ≠ []) :
    RK (P.eval (x.getD 0 0)) x (fun x _ => (derivative P).eval x) = x.map fun x => P.eval x := by
  have hlength : 1 ≤ x.length := List.length_pos_iff.mpr hx
  have hfirst : [P.eval (x.getD 0 0)] = valuesTo P x 1 := valuesTo_append (P := P) hlength
  rw [RK, hfirst, foldl_append_values (by omega) fun i => RK_step_eq hP, valuesTo,
    Nat.add_sub_cancel' hlength, List.take_length]

omit [CharZero K] in
theorem Uniform.getD_add (hx : Uniform x x0 h') {i k : ℕ} (hik : i + k < x.length) :
    x.getD (i + k) 0 = x.getD i 0 + k * h' := by
  rw [hx (i + k) hik, hx i (by omega), Nat.cast_add]
  ring

theorem predict_eq (hP : (derivative P).natDegree ≤ 3) (hx : Uniform x x0 h') {i : ℕ}
    (hi : 4 ≤ i) (hlt : i < x.length) :
    AdamsCorrected.predict x (fun x _ => (derivative P).eval x) (valuesTo P x i) i =
      valuesTo P x i ++ [P.eval (x.getD i 0)] := by
  obtain ⟨j, rfl⟩ := Nat.exists_eq_add_of_le' hi
  have h1 : x.getD (j + 4 - 3) 0 = x.getD j 0 + (1 : ℕ) * h' := hx.getD_add (by omega)
  have h2 : x.getD (j + 4 - 2) 0 = x.getD j 0 + (2 : ℕ) * h' := hx.getD_add (by omega)
  have h3 : x.getD (j + 4 - 1) 0 = x.getD j 0 + (3 : ℕ) * h' := hx.getD_add (by omega)
  have h4 : x.getD (j + 4) 0 = x.getD j 0 + (4 : ℕ) * h' := hx.getD_add (by omega)
  have hrule := adams_explicit hP (x.getD j 0) h'
  rw [AdamsCorrected.predict, valuesTo_getD (by omega) hlt.le, Nat.add_sub_cancel, h1, h2, h3, h4]
  push_cast
  rw [hrule, add_sub_add_left_eq_sub, ← sub_mul, one_mul]
  norm_num

/-- The correcting pass finds every value as it leaves it. -/
theorem correct_eq (hP : (derivative P).natDegree ≤ 3) (hx : Uniform x x0 h') {i : ℕ}
    (hi : 4 ≤ i) (hlt : i < x.length) :
    AdamsCorrected.correct x (fun x _ => (derivative P).eval x) (valuesTo P x x.length) i =
      valuesTo P x x.length := by
  obtain ⟨j, rfl⟩ := Nat.exists_eq_add_of_le' (show 3 ≤ i by omega)
  have h1 : x.getD (j + 3 - 2) 0 = x.getD j 0 + (1 : ℕ) * h' := hx.getD_add (by omega)
  have h2 : x.getD (j + 3 - 1) 0 = x.getD j 0 + (2 : ℕ) * h' := hx.getD_add (by omega)
  have h3 : x.getD (j + 3) 0 = x.getD j 0 + (3 : ℕ) * h' := hx.getD_add (by omega)
  have hh : AdamsCorrected.h x = h' := by
    have hlast : x.length - 1 = x.length - 1 - 1 + 1 := by omega
    rw [AdamsCorrected.h]
    nth_rewrite 1 [hlast]
    rw [hx.getD_add (by omega), Nat.cast_one, one_mul, add_sub_cancel_left]
  have hrule := adams_implicit hP (x.getD j 0) h'
  have hlength : j + 3 < (valuesTo P x x.length).length := by
    rwa [valuesTo, List.take_length, List.length_map]
  have hvalue : (valuesTo P x x.length)[j + 3] = P.eval (x.getD (j + 3) 0) := by
    rw [← valuesTo_getD hlt le_rfl, List.getD_eq_getElem?_getD, List.getElem?_eq_getElem hlength,
      Option.getD_some]
  have hnew : (valuesTo P x x.length).getD (j + 3 - 1) 0 + AdamsCorrected.h x *
      (9 * (derivative P).eval (x.getD (j + 3) 0) +
        19 * (derivative P).eval (x.getD (j + 3 - 1) 0) -
        5 * (derivative P).eval (x.getD (j + 3 - 2) 0) +
        (derivative P).eval (x.getD (j + 3 - 3) 0)) / 24 = (valuesTo P x x.length)[j + 3] := by
    rw [hvalue, valuesTo_getD (by omega) le_rfl, hh, Nat.add_sub_cancel, h1, h2, h3]
    push_cast
    rw [hrule, one_mul]
  rw [AdamsCorrected.correct]
  simp only [Nat.cast_ofNat, hnew]
  exact List.set_getElem_self hlength

theorem AdamsCorrected_eq (hP : (derivative P).natDegree ≤ 3) (hx : Uniform x x0 h')
    (hne : x ≠ []) :
    AdamsCorrected (P.eval (x.getD 0 0)) x (fun x _ => (derivative P).eval x) =
      x.map fun x => P.eval x := by
  have hpos : 0 < x.length := List.length_pos_iff.mpr hne
  have hfirst : (x.take 4).getD 0 0 = x.getD 0 0 := by
    rw [List.getD_eq_getElem?_getD, List.getD_eq_getElem?_getD,
      List.getElem?_take_of_lt (by omega)]
  have hstart := RK_eq hP (x := x.take 4) (by simp [hne])
  rw [hfirst] at hstart
  rw [AdamsCorrected, hstart]
  rcases Nat.lt_or_ge x.length 4 with hlt | hge
  · rw [Nat.sub_eq_zero_of_le hlt.le, List.take_of_length_le hlt.le]
    rfl
  · have hpredict : (List.range' 4 (x.length - 4)).foldl
        (AdamsCorrected.predict x fun x _ => (derivative P).eval x)
        ((x.take 4).map fun x => P.eval x) = valuesTo P x x.length := by
      refine (foldl_append_values (by omega) fun i => predict_eq hP hx).trans ?_
      rw [Nat.add_sub_cancel' hge]
    have hcorrect : (List.range' 4 (x.length - 4)).foldl
        (AdamsCorrected.correct x fun x _ => (derivative P).eval x) (valuesTo P x x.length) =
        valuesTo P x x.length := by
      refine List.foldlRecOn (motive := fun y => y = valuesTo P x x.length) _ _ rfl ?_
      rintro y rfl i hi
      rw [List.mem_range'_1] at hi
      exact correct_eq hP hx hi.1 (by omega)
    rw [hpredict, hcorrect, valuesTo, List.take_length]

/-- Both methods give the values of any antiderivative of a cubic on a uniform grid. -/
theorem solvers_exact (p P : K[X]) (hp : p.natDegree ≤ 3) (hP : derivative P = p)
    (hx : Uniform x x0 h') (hne : x ≠ []) :
    RK (P.eval (x.getD 0 0)) x (fun x _ => p.eval x) = x.map (fun x => P.eval x) ∧
      AdamsCorrected (P.eval (x.getD 0 0)) x (fun x _ => p.eval x) =
        x.map fun x => P.eval x := by
  subst hP
  exact ⟨RK_eq hp hne, AdamsCorrected_eq hp hx hne⟩

theorem solvers_exact_fourth_power :
    RK (0 : ℚ) [0, 1, 2, 3, 4, 5] (fun x _ => 4 * x ^ 3) = [0, 1, 16, 81, 256, 625] ∧
      AdamsCorrected (0 : ℚ) [0, 1, 2, 3, 4, 5] (fun x _ => 4 * x ^ 3) =
        [0, 1, 16, 81, 256, 625] := by
  have hp : (C 4 * X ^ 3 : ℚ[X]).natDegree ≤ 3 := natDegree_C_mul_X_pow_le 4 3
  have hP : derivative (X ^ 4 : ℚ[X]) = C 4 * X ^ 3 := by
    rw [derivative_X_pow]
    rfl
  have hx : Uniform ([0, 1, 2, 3, 4, 5] : List ℚ) 0 1 := by
    rw [Uniform]
    decide +kernel
  have h := solvers_exact (C 4 * X ^ 3) (X ^ 4) hp hP hx (by simp)
  simp only [eval_mul, eval_C, eval_pow, eval_X] at h
  norm_num at h
  exact h

end Loops

end Itmo.Vmath
