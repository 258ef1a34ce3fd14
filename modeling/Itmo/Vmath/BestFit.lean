import Itmo.Vmath.Approximation
import Mathlib.Analysis.SpecialFunctions.Log.Basic
import Mathlib.Analysis.SpecialFunctions.Pow.Real

/-! The other approximations of `approximation.py`, what its object tells about a fit, and the
choice of the best one in `computing.py`, in exact arithmetic. What a polynomial leaves over is
orthogonal to all polynomials of the degree. So a higher degree is never farther from the points,
the square of the correlation is the part of the variance that the line explains, and the number
called R^2 is two less the inverse of that part, for any degree. -/

namespace Itmo.Vmath

open Lib Matrix Finset

namespace LeastSquares

section Definitions

variable {K : Type*} [Field K] {n m : ℕ}

def R2 (self : LeastSquares K n m) : K :=
  1 - self.S / (∑ i, self.x_aprx i ^ 2 - (∑ i, self.x_aprx i) ^ 2 / n)

noncomputable def stddev (self : LeastSquares ℝ n m) : ℝ := √(self.S / n)

variable (solve : Solve ℝ) (x y : Fin n → ℝ)

/-- The line through the logarithms of both coordinates, if there are any. -/
noncomputable def power : Option (Option (LeastSquares ℝ n 1)) :=
  if (∃ i, y i ≤ 0) ∨ ∃ i, x i ≤ 0 then some none
  else (polynomial solve (fun i => Real.log (x i)) (fun i => Real.log (y i)) 1).map fun line =>
    let a := ![Real.exp (line.a 1), line.a 0]
    some { x, y, a, f := fun t => a 0 * t ^ a 1, x_aprx := fun i => a 0 * x i ^ a 1 }

/-- The line through the logarithms of the values. -/
noncomputable def exp : Option (Option (LeastSquares ℝ n 1)) :=
  if ∃ i, y i ≤ 0 then some none
  else (polynomial solve x (fun i => Real.log (y i)) 1).map fun line =>
    let a := ![Real.exp (line.a 1), line.a 0]
    some {
      x, y, a
      f := fun t => a 0 * Real.exp (a 1 * t)
      x_aprx := fun i => a 0 * Real.exp (a 1 * x i) }

/-- The line through the logarithms of the abscissas. -/
noncomputable def log : Option (Option (LeastSquares ℝ n 1)) :=
  if ∃ i, x i ≤ 0 then some none
  else (polynomial solve (fun i => Real.log (x i)) y 1).map fun line =>
    let a := ![line.a 1, line.a 0]
    some {
      x, y, a
      f := fun t => a 1 * Real.log t + a 0
      x_aprx := fun i => a 1 * Real.log (x i) + a 0 }

end Definitions

/-- The correlation of the coordinates. -/
noncomputable def pearson_corr_coef {n : ℕ} (x y : Fin n → ℝ) : ℝ :=
  let x_avg := (∑ i, x i) / n
  let y_avg := (∑ i, y i) / n
  (∑ i, (x i - x_avg) * (y i - y_avg)) /
    √((∑ i, (x i - x_avg) ^ 2) * ∑ i, (y i - y_avg) ^ 2)

end LeastSquares

/-! ### What a polynomial leaves over -/

namespace LeastSquares

section Residual

variable {K : Type*} [Field K] [LinearOrder K] [IsStrictOrderedRing K] {n m : ℕ}
  {solve : Solve K} {x y : Fin n → K}

/-- A polynomial of the degree whose residuals are orthogonal to every polynomial of the degree. -/
structure Fits (fit : LeastSquares K n m) (x y : Fin n → K) : Prop where
  y_eq : fit.y = y
  value : ∃ p : Polynomial K, p.natDegree ≤ m ∧ ∀ i, fit.x_aprx i = p.eval (x i)
  orthogonal : ∀ q : Polynomial K, q.natDegree ≤ m →
    ∑ i, (fit.x_aprx i - y i) * q.eval (x i) = 0

theorem polynomial_fits (hsolve : Exact solve) (y : Fin n → K) (hx : m + 1 ≤ #(univ.image x)) :
    ∃ self, polynomial solve x y m = some self ∧ Fits self x y := by
  have hdet : (x_matrix x m).det ≠ 0 := by
    rw [x_matrix_eq]
    exact det_transpose_mul_self_ne_zero (powers_mulVec_injective x hx)
  obtain ⟨solution, hsolution, hnormal⟩ := hsolve _ _ (xy_sums x y m) hdet
  rw [x_matrix_eq, xy_sums_eq] at hnormal
  obtain ⟨p, hp, rfl⟩ := exists_coeff_eq solution
  refine ⟨_, by rw [polynomial, hsolution, Option.map_some], rfl,
    ⟨p, hp, fun i => sum_rev_eq hp (x i)⟩, fun q hq => ?_⟩
  have horthogonal := residual_dotProduct_eq_zero hnormal fun j => q.coeff j
  rw [dotProduct] at horthogonal
  refine (sum_congr rfl fun i _ => ?_).trans horthogonal
  rw [Pi.sub_apply, powers_mulVec_coeff x hq, powers_mulVec_coeff x hp]
  exact congrArg (fun v => (v - y i) * q.eval (x i)) (sum_rev_eq hp (x i))

variable {self : LeastSquares K n m}

theorem S_nonneg (self : LeastSquares K n m) : 0 ≤ self.S :=
  sum_nonneg fun _ _ => sq_nonneg _

/-- A fit of a higher degree is no farther from the points. -/
theorem Fits.S_le {m' : ℕ} {self' : LeastSquares K n m'} (h : Fits self x y) (h' : Fits self' x y)
    (hm : m ≤ m') : self'.S ≤ self.S := by
  obtain ⟨p, hp, hvalue⟩ := h.value
  obtain ⟨p', hp', hvalue'⟩ := h'.value
  have hdegree : (p - p').natDegree ≤ m' :=
    (Polynomial.natDegree_sub_le p p').trans (max_le (hp.trans hm) hp')
  have hcross : ∑ i, (self'.x_aprx i - y i) * (self.x_aprx i - self'.x_aprx i) = 0 := by
    simpa only [Polynomial.eval_sub, ← hvalue, ← hvalue'] using h'.orthogonal _ hdegree
  have hsplit : self.S = self'.S + ∑ i, (self.x_aprx i - self'.x_aprx i) ^ 2 := by
    have hexpand : self.S = self'.S + ∑ i, (self.x_aprx i - self'.x_aprx i) ^ 2 +
        2 * ∑ i, (self'.x_aprx i - y i) * (self.x_aprx i - self'.x_aprx i) := by
      rw [S, S, h.y_eq, h'.y_eq, mul_sum, ← sum_add_distrib, ← sum_add_distrib]
      exact sum_congr rfl fun i _ => by ring
    rw [hexpand, hcross, mul_zero, add_zero]
  rw [hsplit]
  exact le_add_of_nonneg_right (sum_nonneg fun i _ => sq_nonneg _)

/-- The sum of the squared distances from the mean. -/
def total (y : Fin n → K) : K := ∑ i, (y i - (∑ i, y i) / n) ^ 2

omit [LinearOrder K] [IsStrictOrderedRing K] in
theorem total_eq [CharZero K] (hn : n ≠ 0) (y : Fin n → K) :
    total y = ∑ i, y i ^ 2 - (∑ i, y i) ^ 2 / n := by
  have hn : (n : K) ≠ 0 := Nat.cast_ne_zero.mpr hn
  simp only [total, sub_sq, sum_add_distrib, sum_sub_distrib, ← sum_mul, ← mul_sum, sum_const,
    card_univ, Fintype.card_fin, nsmul_eq_mul]
  field_simp
  ring

omit [LinearOrder K] [IsStrictOrderedRing K] in
/-- The mean of the residuals is zero. -/
theorem Fits.sum_eq (h : Fits self x y) : ∑ i, self.x_aprx i = ∑ i, y i := by
  have hone := h.orthogonal 1 (by simp)
  simpa [sum_sub_distrib, sub_eq_zero] using hone

/-- What the denominator of `R2` is: the part of the variance that the fit explains. -/
theorem Fits.explained (h : Fits self x y) (hn : n ≠ 0) :
    ∑ i, self.x_aprx i ^ 2 - (∑ i, self.x_aprx i) ^ 2 / n = total y - self.S := by
  obtain ⟨p, hp, hvalue⟩ := h.value
  have hsquare : ∑ i, self.x_aprx i ^ 2 = ∑ i, y i * self.x_aprx i := by
    have hself := h.orthogonal p hp
    simp only [← hvalue, sub_mul, sum_sub_distrib, sub_eq_zero, ← sq] at hself
    exact hself
  have hS : self.S = ∑ i, y i ^ 2 - ∑ i, self.x_aprx i ^ 2 := by
    have hexpand : self.S = ∑ i, self.x_aprx i ^ 2 - 2 * ∑ i, y i * self.x_aprx i +
        ∑ i, y i ^ 2 := by
      rw [S, h.y_eq, mul_sum, ← sum_sub_distrib, ← sum_add_distrib]
      exact sum_congr rfl fun i _ => by ring
    rw [hexpand, ← hsquare]
    ring
  rw [total_eq hn, hS, h.sum_eq]
  ring

/-- The part of the variance of the values that a fit explains. -/
def determination (self : LeastSquares K n m) (y : Fin n → K) : K := 1 - self.S / total y

theorem Fits.total_x_aprx (h : Fits self x y) (hn : n ≠ 0) :
    total self.x_aprx = total y - self.S := by
  rw [total_eq hn self.x_aprx, h.explained hn]

theorem Fits.S_le_total (h : Fits self x y) (hn : n ≠ 0) : self.S ≤ total y := by
  rw [← sub_nonneg, ← h.total_x_aprx hn]
  exact sum_nonneg fun i _ => sq_nonneg _

/-- What is called R^2 is smaller than the part of the variance that is explained, unless the fit
goes through all points. -/
theorem R2_eq_two_sub (hsolve : Exact solve) (x y : Fin n → K) (hx : m + 1 ≤ #(univ.image x)) :
    ∃ self, polynomial solve x y m = some self ∧ self.S ≤ total y ∧
      (self.S < total y → self.R2 = 2 - 1 / self.determination y ∧
        self.R2 ≤ self.determination y ∧ (self.R2 = self.determination y ↔ self.S = 0)) := by
  have hn : n ≠ 0 := by
    rintro rfl
    simp at hx
  obtain ⟨self, hself, hfits⟩ := polynomial_fits hsolve y hx
  refine ⟨self, hself, hfits.S_le_total hn, fun hlt => ?_⟩
  have htotal : 0 < total y := (S_nonneg self).trans_lt hlt
  have hexplained : 0 < total y - self.S := sub_pos.mpr hlt
  have hR2 : self.R2 = 1 - self.S / (total y - self.S) := by rw [R2, hfits.explained hn]
  have hdifference : self.determination y - self.R2 =
      self.S ^ 2 / (total y * (total y - self.S)) := by
    rw [hR2, determination]
    field_simp
    ring
  refine ⟨?_, ?_, ?_⟩
  · rw [hR2, determination]
    field_simp
    ring
  · rw [← sub_nonneg, hdifference]
    positivity
  · rw [eq_comm, ← sub_eq_zero, hdifference, div_eq_zero_iff, or_iff_left (by positivity),
      sq_eq_zero_iff]

/-- The line next to three points of a parabola explains twelve thirteenths of the variance. -/
theorem R2_eq_two_sub_line :
    ∃ self, polynomial cramer (![0, 1, 2] : Fin 3 → ℚ) ![0, 1, 4] 1 = some self ∧
      self.S ≤ total ![0, 1, 4] ∧
      (self.S < total ![0, 1, 4] → self.R2 = 2 - 1 / self.determination ![0, 1, 4] ∧
        self.R2 ≤ self.determination ![0, 1, 4] ∧
        (self.R2 = self.determination ![0, 1, 4] ↔ self.S = 0)) :=
  R2_eq_two_sub cramer_exact ![0, 1, 2] ![0, 1, 4] (by decide +kernel)

end Residual

/-! ### The correlation -/

section Correlation

variable {n : ℕ} {solve : Solve ℝ}

theorem total_pos_of_ne {y : Fin n → ℝ} (hy : ∃ i j, y i ≠ y j) : 0 < total y := by
  refine (sum_nonneg fun i _ => sq_nonneg _).lt_of_ne' fun hzero => ?_
  obtain ⟨i, j, hne⟩ := hy
  have hmean : ∀ i, y i = (∑ i, y i) / n := fun i =>
    sub_eq_zero.mp (pow_eq_zero_iff two_ne_zero |>.mp
      ((sum_eq_zero_iff_of_nonneg fun i _ => sq_nonneg _).mp hzero i (mem_univ i)))
  exact hne ((hmean i).trans (hmean j).symm)

/-- Along the line the values differ from their mean as the abscissas do, times the slope. -/
theorem Fits.line_slope {line : LeastSquares ℝ n 1} {x y : Fin n → ℝ} (h : Fits line x y)
    (hn : n ≠ 0) : ∃ b, b * total x =
      ∑ i, (x i - (∑ i, x i) / n) * (y i - (∑ i, y i) / n) ∧
      total y - line.S = b ^ 2 * total x := by
  obtain ⟨p, hp, hvalue⟩ := h.value
  obtain ⟨b, c, rfl⟩ := Polynomial.exists_eq_X_add_C_of_natDegree_le_one hp
  have hvalue : ∀ i, line.x_aprx i = b * x i + c := by simpa using hvalue
  have hcentred : ∀ i, line.x_aprx i - (∑ i, y i) / n = b * (x i - (∑ i, x i) / n) := by
    intro i
    have hn : (n : ℝ) ≠ 0 := Nat.cast_ne_zero.mpr hn
    rw [← h.sum_eq]
    simp only [hvalue, sum_add_distrib, ← mul_sum, sum_const, card_univ, Fintype.card_fin,
      nsmul_eq_mul]
    field_simp
    ring
  refine ⟨b, ?_, ?_⟩
  · have horthogonal := h.orthogonal (Polynomial.X - Polynomial.C ((∑ i, x i) / n))
      (Polynomial.natDegree_X_sub_C_le _)
    simp only [Polynomial.eval_sub, Polynomial.eval_X, Polynomial.eval_C] at horthogonal
    rw [total, mul_sum, ← sub_eq_zero, ← sum_sub_distrib, ← horthogonal]
    refine sum_congr rfl fun i _ => ?_
    rw [sq, ← mul_assoc, ← hcentred]
    ring
  · rw [← h.total_x_aprx hn, total, total, mul_sum, h.sum_eq]
    refine sum_congr rfl fun i _ => ?_
    rw [hcentred, mul_pow]

/-- The square of the correlation is the part of the variance that the line explains. -/
theorem pearson_sq_eq (hsolve : Exact solve) {x y : Fin n → ℝ} (hx : ∃ i j, x i ≠ x j)
    (hy : ∃ i j, y i ≠ y j) :
    ∃ line, polynomial solve x y 1 = some line ∧
      pearson_corr_coef x y ^ 2 = line.determination y ∧
      |pearson_corr_coef x y| ≤ 1 ∧ (|pearson_corr_coef x y| = 1 ↔ line.S = 0) := by
  have hn : n ≠ 0 := by
    rintro rfl
    exact hx.elim fun i _ => i.elim0
  have hcard : 1 + 1 ≤ #(univ.image x) := by
    obtain ⟨i, j, hne⟩ := hx
    exact one_lt_card.mpr ⟨x i, mem_image_of_mem x (mem_univ i), x j,
      mem_image_of_mem x (mem_univ j), hne⟩
  obtain ⟨line, hline, hfits⟩ := polynomial_fits hsolve y hcard
  obtain ⟨b, hslope, hexplained⟩ := hfits.line_slope hn
  have hxpos : 0 < total x := total_pos_of_ne hx
  have hypos : 0 < total y := total_pos_of_ne hy
  have hsquare : pearson_corr_coef x y ^ 2 = line.determination y := by
    have hpearson : pearson_corr_coef x y = b * total x / √(total x * total y) := by
      rw [hslope]
      rfl
    rw [hpearson, div_pow, Real.sq_sqrt (by positivity), determination]
    have hS : line.S = total y - b ^ 2 * total x := by linarith
    rw [hS]
    field_simp
    ring
  refine ⟨line, hline, hsquare, ?_, ?_⟩
  · rw [← sq_le_one_iff_abs_le_one, hsquare, determination, sub_le_self_iff]
    exact div_nonneg (S_nonneg line) hypos.le
  · rw [← pow_eq_one_iff_of_nonneg (abs_nonneg _) two_ne_zero, sq_abs, hsquare, determination,
      sub_eq_self, div_eq_zero_iff, or_iff_left hypos.ne']

/-- Cramer's rule again. -/
noncomputable def realCramer : Solve ℝ := fun _ A b =>
  if A.det = 0 then none else some (A.det⁻¹ • Matrix.cramer A b)

theorem realCramer_exact : Exact realCramer := by
  intro k A b hdet
  refine ⟨A.det⁻¹ • Matrix.cramer A b, if_neg hdet, ?_⟩
  rw [Matrix.mulVec_smul, Matrix.mulVec_cramer, smul_smul, inv_mul_cancel₀ hdet, one_smul]

theorem pearson_sq_eq_line :
    ∃ line, polynomial realCramer (![0, 1, 2] : Fin 3 → ℝ) ![0, 1, 4] 1 = some line ∧
      pearson_corr_coef ![0, 1, 2] ![0, 1, 4] ^ 2 = line.determination ![0, 1, 4] ∧
      |pearson_corr_coef ![0, 1, 2] ![0, 1, 4]| ≤ 1 ∧
      (|pearson_corr_coef ![0, 1, 2] ![0, 1, 4]| = 1 ↔ line.S = 0) :=
  pearson_sq_eq realCramer_exact ⟨0, 1, by simp⟩ ⟨0, 1, by simp⟩

end Correlation

end LeastSquares

/-! ### The choice -/

section Computing

open LeastSquares

variable {n : ℕ} (solve : Solve ℝ) (x y : Fin n → ℝ)

/-- What is kept after the next approximation. -/
noncomputable def compared (max_precision next : ℝ × String) : ℝ × String :=
  if max_precision.1 > next.1 then next else max_precision

/-- The same if there may be no next one. -/
noncomputable def comparedWith {m : ℕ} (max_precision : ℝ × String)
    (fit : Option (LeastSquares ℝ n m)) (name : String) : ℝ × String :=
  match fit with
  | some fit => compared max_precision (fit.stddev, name)
  | none => max_precision

/-- The name that is printed at the end. -/
noncomputable def computing : Option String := do
  let line ← polynomial solve x y 1
  let max_precision := (line.stddev, "линейная")
  let quadratic ← polynomial solve x y 2
  let max_precision := compared max_precision (quadratic.stddev, "квадратичная")
  let cubic ← polynomial solve x y 3
  let max_precision := compared max_precision (cubic.stddev, "кубическая")
  let exponential ← exp solve x y
  let max_precision := comparedWith max_precision exponential "экспоненциальная"
  let logarithmic ← log solve x y
  let max_precision := comparedWith max_precision logarithmic "логарифмическая"
  let power ← power solve x y
  let max_precision := comparedWith max_precision power "степенная"
  return max_precision.2

/-- The approximations that are made, in their order. -/
noncomputable def made : Option (List (ℝ × String)) := do
  let line ← polynomial solve x y 1
  let quadratic ← polynomial solve x y 2
  let cubic ← polynomial solve x y 3
  let exponential ← exp solve x y
  let logarithmic ← log solve x y
  let power ← power solve x y
  return (line.stddev, "линейная") :: (quadratic.stddev, "квадратичная") ::
    (cubic.stddev, "кубическая") :: (exponential.toList.map (·.stddev, "экспоненциальная") ++
      logarithmic.toList.map (·.stddev, "логарифмическая") ++
      power.toList.map (·.stddev, "степенная"))

variable {solve x y}

theorem compared_spec (best next : ℝ × String) :
    (compared best next = best ∨ compared best next = next) ∧
      (compared best next).1 ≤ best.1 ∧ (compared best next).1 ≤ next.1 := by
  unfold compared
  split_ifs with h
  · exact ⟨Or.inr rfl, h.le, le_rfl⟩
  · exact ⟨Or.inl rfl, le_rfl, not_lt.mp h⟩

theorem foldl_compared_spec (best : ℝ × String) (fits : List (ℝ × String)) :
    fits.foldl compared best ∈ best :: fits ∧
      ∀ fit ∈ best :: fits, (fits.foldl compared best).1 ≤ fit.1 := by
  induction fits generalizing best with
  | nil => simp
  | cons next fits ih =>
    obtain ⟨hmem, hleast⟩ := ih (compared best next)
    obtain ⟨heither, hbest, hnext⟩ := compared_spec best next
    have hfirst := hleast _ List.mem_cons_self
    refine ⟨?_, ?_⟩
    · rw [List.foldl_cons]
      rcases List.mem_cons.mp hmem with heq | hmem
      · rw [heq]
        rcases heither with h | h
        · rw [h]
          exact List.mem_cons_self
        · rw [h]
          exact List.mem_cons_of_mem _ List.mem_cons_self
      · exact List.mem_cons_of_mem _ (List.mem_cons_of_mem _ hmem)
    · intro fit hfit
      rw [List.foldl_cons]
      rcases List.mem_cons.mp hfit with rfl | hfit
      · exact hfirst.trans hbest
      · rcases List.mem_cons.mp hfit with rfl | hfit
        · exact hfirst.trans hnext
        · exact hleast fit (List.mem_cons_of_mem _ hfit)

theorem comparedWith_eq {m : ℕ} (best : ℝ × String) (fit : Option (LeastSquares ℝ n m))
    (name : String) :
    comparedWith best fit name = (fit.toList.map (·.stddev, name)).foldl compared best := by
  cases fit <;> rfl

/-- An approximation that can be made does not raise. -/
theorem exp_some (hsolve : Exact solve) (hx : 2 ≤ #(univ.image x)) (y : Fin n → ℝ) :
    ∃ fit, exp solve x y = some fit := by
  unfold exp
  split_ifs with hy
  · exact ⟨none, rfl⟩
  · obtain ⟨line, hline, -⟩ := polynomial_fits hsolve (fun i => Real.log (y i)) hx
    rw [hline]
    exact ⟨_, rfl⟩

theorem card_image_log (hpos : ∀ i, 0 < x i) :
    #(univ.image fun i => Real.log (x i)) = #(univ.image x) := by
  have himage : univ.image (fun i => Real.log (x i)) = (univ.image x).image Real.log := by
    rw [image_image]
    rfl
  rw [himage, card_image_iff]
  intro s hs t ht heq
  obtain ⟨i, -, rfl⟩ := mem_image.mp hs
  obtain ⟨j, -, rfl⟩ := mem_image.mp ht
  exact Real.log_injOn_pos (hpos i) (hpos j) heq

theorem log_some (hsolve : Exact solve) (hx : 2 ≤ #(univ.image x)) (y : Fin n → ℝ) :
    ∃ fit, log solve x y = some fit := by
  unfold log
  split_ifs with hnone
  · exact ⟨none, rfl⟩
  · simp only [not_exists, not_le] at hnone
    obtain ⟨line, hline, -⟩ := polynomial_fits hsolve y ((card_image_log hnone).symm ▸ hx)
    rw [hline]
    exact ⟨_, rfl⟩

theorem power_some (hsolve : Exact solve) (hx : 2 ≤ #(univ.image x)) (y : Fin n → ℝ) :
    ∃ fit, power solve x y = some fit := by
  unfold power
  split_ifs with hnone
  · exact ⟨none, rfl⟩
  · simp only [not_or, not_exists, not_le] at hnone
    obtain ⟨line, hline, -⟩ := polynomial_fits hsolve (fun i => Real.log (y i))
      ((card_image_log hnone.2).symm ▸ hx)
    rw [hline]
    exact ⟨_, rfl⟩

theorem S_le_of_stddev_le (hn : n ≠ 0) {m m' : ℕ} {fit : LeastSquares ℝ n m}
    {fit' : LeastSquares ℝ n m'} (h : fit.stddev ≤ fit'.stddev) : fit.S ≤ fit'.S := by
  have hn : (0 : ℝ) < n := by positivity
  rw [stddev, stddev, Real.sqrt_le_sqrt_iff (div_nonneg (S_nonneg fit') hn.le)] at h
  exact (div_le_div_iff_of_pos_right hn).mp h

/-- The last name is that of an approximation with the least deviation of those that were made.
It is that of a polynomial of lower degree only if the higher degrees come no closer. -/
theorem computing_best (hsolve : Exact solve) (hx : 4 ≤ #(univ.image x)) :
    ∃ fits line quadratic cubic, made solve x y = some fits ∧
      polynomial solve x y 1 = some line ∧ polynomial solve x y 2 = some quadratic ∧
      polynomial solve x y 3 = some cubic ∧
      ∃ fit ∈ fits, computing solve x y = some fit.2 ∧ (∀ other ∈ fits, fit.1 ≤ other.1) ∧
        (fit.2 = "линейная" → line.S = quadratic.S ∧ line.S = cubic.S) ∧
        (fit.2 = "квадратичная" → quadratic.S = cubic.S) := by
  have hn : n ≠ 0 := by
    rintro rfl
    simp at hx
  have hx1 : 1 + 1 ≤ #(univ.image x) := by omega
  have hx2 : 2 + 1 ≤ #(univ.image x) := by omega
  obtain ⟨line, hline, hlinefits⟩ := polynomial_fits hsolve y hx1
  obtain ⟨quadratic, hquadratic, hquadraticfits⟩ := polynomial_fits hsolve y hx2
  obtain ⟨cubic, hcubic, hcubicfits⟩ := polynomial_fits hsolve y hx
  obtain ⟨exponential, hexponential⟩ := exp_some hsolve hx1 y
  obtain ⟨logarithmic, hlogarithmic⟩ := log_some hsolve hx1 y
  obtain ⟨power, hpower⟩ := power_some hsolve hx1 y
  have hmade : made solve x y = some ((line.stddev, "линейная") ::
      (quadratic.stddev, "квадратичная") :: (cubic.stddev, "кубическая") ::
      (exponential.toList.map (·.stddev, "экспоненциальная") ++
        logarithmic.toList.map (·.stddev, "логарифмическая") ++
        power.toList.map (·.stddev, "степенная"))) := by
    simp only [made, hline, hquadratic, hcubic, hexponential, hlogarithmic, hpower]
    rfl
  set rest := (quadratic.stddev, "квадратичная") :: (cubic.stddev, "кубическая") ::
      (exponential.toList.map (·.stddev, "экспоненциальная") ++
        logarithmic.toList.map (·.stddev, "логарифмическая") ++
        power.toList.map (·.stddev, "степенная")) with hrest
  have hcomputing : computing solve x y =
      some (rest.foldl compared (line.stddev, "линейная")).2 := by
    simp only [computing, hline, hquadratic, hcubic, hexponential, hlogarithmic, hpower,
      comparedWith_eq, hrest, List.foldl_cons, List.foldl_append]
    rfl
  obtain ⟨hmem, hleast⟩ := foldl_compared_spec (line.stddev, "линейная") rest
  have hnames : ∀ fit ∈ (line.stddev, "линейная") :: rest,
      (fit.2 = "линейная" → fit = (line.stddev, "линейная")) ∧
        (fit.2 = "квадратичная" → fit = (quadratic.stddev, "квадратичная")) := by
    intro fit hfit
    simp only [hrest, List.mem_cons, List.mem_append, List.mem_map] at hfit
    rcases hfit with rfl | rfl | rfl | (⟨_, -, rfl⟩ | ⟨_, -, rfl⟩) | ⟨_, -, rfl⟩ <;> simp
  have hquadraticmem : (quadratic.stddev, "квадратичная") ∈ (line.stddev, "линейная") :: rest := by
    simp [hrest]
  have hcubicmem : (cubic.stddev, "кубическая") ∈ (line.stddev, "линейная") :: rest := by
    simp [hrest]
  refine ⟨_, line, quadratic, cubic, hmade, hline, hquadratic, hcubic, _, hmem, hcomputing, hleast,
    fun hname => ?_, fun hname => ?_⟩
  · rw [(hnames _ hmem).1 hname] at hleast
    exact ⟨(S_le_of_stddev_le hn (hleast _ hquadraticmem)).antisymm
      (hlinefits.S_le hquadraticfits (by norm_num)),
      (S_le_of_stddev_le hn (hleast _ hcubicmem)).antisymm
        (hlinefits.S_le hcubicfits (by norm_num))⟩
  · rw [(hnames _ hmem).2 hname] at hleast
    exact (S_le_of_stddev_le hn (hleast _ hcubicmem)).antisymm
      (hquadraticfits.S_le hcubicfits (by norm_num))

/-- Four points of a parabola. -/
theorem computing_best_parabola :
    ∃ fits line quadratic cubic,
      made realCramer (![1, 2, 3, 4] : Fin 4 → ℝ) ![1, 4, 9, 16] = some fits ∧
      polynomial realCramer ![1, 2, 3, 4] ![1, 4, 9, 16] 1 = some line ∧
      polynomial realCramer ![1, 2, 3, 4] ![1, 4, 9, 16] 2 = some quadratic ∧
      polynomial realCramer ![1, 2, 3, 4] ![1, 4, 9, 16] 3 = some cubic ∧
      ∃ fit ∈ fits, computing realCramer ![1, 2, 3, 4] ![1, 4, 9, 16] = some fit.2 ∧
        (∀ other ∈ fits, fit.1 ≤ other.1) ∧
        (fit.2 = "линейная" → line.S = quadratic.S ∧ line.S = cubic.S) ∧
        (fit.2 = "квадратичная" → quadratic.S = cubic.S) := by
  have hinjective : Function.Injective (![1, 2, 3, 4] : Fin 4 → ℝ) := by
    intro i j hij
    fin_cases i <;> fin_cases j <;> simp at hij ⊢
  refine computing_best realCramer_exact ?_
  rw [card_image_of_injective _ hinjective]
  rfl

end Computing

end Itmo.Vmath
