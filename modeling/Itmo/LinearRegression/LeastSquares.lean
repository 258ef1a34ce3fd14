import Itmo.Lib.NormalEquations
import Mathlib.LinearAlgebra.Matrix.Notation

/-! The linear regression of `linear_regression/main.py`, in exact arithmetic. An array of one
dimension is extended by a column of ones, and the regression then finds every affine target.
For a matrix the array with the ones is dropped, so there is no intercept, and an affine target
is found just if it is linear. -/

namespace Itmo.LinearRegression

open Lib Matrix

section Definitions

variable {K : Type*} [Field K] {n d : ℕ}

/-- What `x` can be, with the number of weights it takes. -/
inductive Samples (K : Type*) (n : ℕ) : ℕ → Type _
  | vector (x : Fin n → K) : Samples K n 2
  | matrix {d : ℕ} (x : Matrix (Fin n) (Fin d) K) : Samples K n d

/-- `np.insert(x, 0, 1, 1)` -/
def insert_ones (x : Matrix (Fin n) (Fin d) K) : Matrix (Fin n) (Fin (d + 1)) K :=
  Matrix.of fun i => Fin.cons 1 (x i)

/-- What both methods make of their array: `np.insert` leaves its argument as it is. -/
def Samples.extend : Samples K n d → Matrix (Fin n) (Fin d) K
  | .vector x => Matrix.of fun i => ![1, x i]
  | .matrix x =>
    let _ := insert_ones x
    x

/-- An inversion of matrices gives nothing where it raises. -/
abbrev Inverse (K : Type*) :=
  (k : ℕ) → Matrix (Fin k) (Fin k) K → Option (Matrix (Fin k) (Fin k) K)

/-- The weights. -/
def LeastSquares (inv : Inverse K) (x : Samples K n d) (y : Fin n → K) : Option (Fin d → K) :=
  let x := x.extend
  (inv d (xᵀ * x)).map fun inverse => (inverse * xᵀ) *ᵥ y

def fit (w : Fin d → K) (x : Samples K n d) : Fin n → K :=
  x.extend *ᵥ w

/-- The function next to the class, which never extends. -/
def least_squares (inv : Inverse K) (x : Matrix (Fin n) (Fin d) K) (y : Fin n → K) :
    Option (Fin d → K) :=
  (inv d (xᵀ * x)).map fun inverse => (inverse * xᵀ) *ᵥ y

/-- The inverse of every nonsingular matrix. -/
def Exact (inv : Inverse K) : Prop :=
  ∀ k (A : Matrix (Fin k) (Fin k) K), A.det ≠ 0 → ∃ B, inv k A = some B ∧ A * B = 1

/-- An array of one dimension as a matrix of one column. -/
def column (x : Fin n → K) : Matrix (Fin n) (Fin 1) K :=
  Matrix.of fun i _ => x i

end Definitions

section Affine

variable {K : Type*} [Field K] {n d : ℕ}

theorem LeastSquares_matrix (inv : Inverse K) (x : Matrix (Fin n) (Fin d) K) (y : Fin n → K) :
    LeastSquares inv (.matrix x) y = least_squares inv x y := rfl

theorem insert_ones_mulVec (x : Matrix (Fin n) (Fin d) K) (c : K) (w : Fin d → K) :
    insert_ones x *ᵥ Fin.cons c w = (fun _ => c) + x *ᵥ w := by
  funext i
  rw [Matrix.mulVec, dotProduct, Fin.sum_univ_succ, insert_ones, Matrix.of_apply, Fin.cons_zero,
    Fin.cons_zero, one_mul]
  rfl

/-- Without the column of ones, the others stay independent. -/
theorem mulVec_injective_of_insert_ones {x : Matrix (Fin n) (Fin d) K}
    (hx : (insert_ones x).rank = d + 1) : Function.Injective x.mulVec := by
  have hinjective : Function.Injective (insert_ones x).mulVec :=
    mulVec_injective_of_rank (hx.trans (Fintype.card_fin (d + 1)).symm)
  intro v w hvw
  have heq : insert_ones x *ᵥ Fin.cons 0 v = insert_ones x *ᵥ Fin.cons 0 w := by
    rw [insert_ones_mulVec, insert_ones_mulVec]
    exact congrArg _ hvw
  exact (Fin.cons_inj.mp (hinjective heq)).2

theorem extend_vector_eq (x : Fin n → K) :
    (Samples.vector x).extend = insert_ones (column x) := by
  ext i j
  cases j using Fin.cases <;> simp [Samples.extend, insert_ones, column]

variable [LinearOrder K] [IsStrictOrderedRing K] {inv : Inverse K}

/-- A target that the weights can reach is reached. -/
theorem LeastSquares_mulVec (hinv : Exact inv) (x : Samples K n d)
    (hx : Function.Injective x.extend.mulVec) (v : Fin d → K) :
    LeastSquares inv x (x.extend *ᵥ v) = some v := by
  obtain ⟨B, hB, hinverse⟩ := hinv d _ (det_transpose_mul_self_ne_zero hx)
  have hnormal : (x.extendᵀ * x.extend) *ᵥ ((B * x.extendᵀ) *ᵥ (x.extend *ᵥ v)) =
      x.extendᵀ *ᵥ (x.extend *ᵥ v) := by
    rw [mulVec_mulVec _ _ (B * x.extendᵀ), ← Matrix.mul_assoc, hinverse, Matrix.one_mul]
  rw [LeastSquares, hB, Option.map_some, eq_of_normal_equations hx hnormal]

/-- A regression of independent columns does not raise. -/
theorem LeastSquares_isSome (hinv : Exact inv) (x : Samples K n d)
    (hx : Function.Injective x.extend.mulVec) (y : Fin n → K) :
    ∃ weights, LeastSquares inv x y = some weights := by
  obtain ⟨B, hB, -⟩ := hinv d _ (det_transpose_mul_self_ne_zero hx)
  rw [LeastSquares, hB]
  exact ⟨_, rfl⟩

/-- An array of one dimension has its intercept. -/
theorem LeastSquares_vector (hinv : Exact inv) {x : Fin n → K}
    (hx : (insert_ones (column x)).rank = 2) (w c : K) :
    LeastSquares inv (.vector x) (fun i => x i * w + c) = some ![c, w] := by
  have hinjective : Function.Injective (Samples.vector x).extend.mulVec := by
    rw [extend_vector_eq]
    exact mulVec_injective_of_rank (hx.trans (Fintype.card_fin 2).symm)
  have htarget : (fun i => x i * w + c) = (Samples.vector x).extend *ᵥ ![c, w] := by
    funext i
    simp [Samples.extend, Matrix.mulVec, dotProduct, Fin.sum_univ_two, add_comm]
  rw [htarget, LeastSquares_mulVec hinv _ hinjective]

omit [LinearOrder K] [IsStrictOrderedRing K] in
theorem fit_vector (w c : K) (z : Fin n → K) :
    fit ![c, w] (.vector z) = fun i => z i * w + c := by
  funext i
  simp [fit, Samples.extend, Matrix.mulVec, dotProduct, Fin.sum_univ_two, add_comm]

/-- A matrix has an affine target right for all arguments just if the target is linear. -/
theorem fit_matrix_iff (hinv : Exact inv) {x : Matrix (Fin n) (Fin d) K}
    (hx : (insert_ones x).rank = d + 1) (w : Fin d → K) (c : K) {weights : Fin d → K}
    (hweights : LeastSquares inv (.matrix x) (x *ᵥ w + fun _ => c) = some weights) :
    (∀ k (z : Matrix (Fin k) (Fin d) K), fit weights (.matrix z) = z *ᵥ w + fun _ => c) ↔
      c = 0 := by
  constructor
  · intro hall
    have h := congrFun (hall 1 0) 0
    rw [fit, Samples.extend, Matrix.zero_mulVec, Matrix.zero_mulVec, zero_add] at h
    exact h.symm
  · rintro rfl k z
    have hlinear := LeastSquares_mulVec hinv (.matrix x) (mulVec_injective_of_insert_ones hx) w
    have hzero : (x *ᵥ w + fun _ => (0 : K)) = x *ᵥ w := add_zero (x *ᵥ w)
    rw [hzero] at hweights
    obtain rfl : w = weights := Option.some.inj (hlinear.symm.trans hweights)
    exact (add_zero (z *ᵥ w)).symm

/-- An affine target is found from a matrix just if it is linear, and from an array of one
dimension always. Only then do both shapes predict the same. -/
theorem fit_eq_affine_iff (hinv : Exact inv) :
    (∀ n d (x : Matrix (Fin n) (Fin d) K) (w : Fin d → K) (c : K),
      (insert_ones x).rank = d + 1 →
      ∃ weights, LeastSquares inv (.matrix x) (x *ᵥ w + fun _ => c) = some weights ∧
        ((∀ k (z : Matrix (Fin k) (Fin d) K),
          fit weights (.matrix z) = z *ᵥ w + fun _ => c) ↔ c = 0)) ∧
    ∀ n (x : Fin n → K) (w c : K), (insert_ones (column x)).rank = 2 →
      ∃ weights weights', LeastSquares inv (.vector x) (fun i => x i * w + c) = some weights ∧
        LeastSquares inv (.matrix (column x)) (fun i => x i * w + c) = some weights' ∧
        (∀ k (z : Fin k → K), fit weights (.vector z) = fun i => z i * w + c) ∧
        ((∀ k (z : Fin k → K), fit weights' (.matrix (column z)) = fit weights (.vector z)) ↔
          c = 0) := by
  refine ⟨fun n d x w c hx => ?_, fun n x w c hx => ?_⟩
  · obtain ⟨weights, hweights⟩ := LeastSquares_isSome hinv (.matrix x)
      (mulVec_injective_of_insert_ones hx) (x *ᵥ w + fun _ => c)
    exact ⟨weights, hweights, fit_matrix_iff hinv hx w c hweights⟩
  · obtain ⟨weights', hweights'⟩ := LeastSquares_isSome hinv (.matrix (column x))
      (mulVec_injective_of_insert_ones hx) (fun i => x i * w + c)
    refine ⟨![c, w], weights', LeastSquares_vector hinv hx w c, hweights',
      fun k z => fit_vector w c z, ?_⟩
    have hcolumn : ∀ {k : ℕ} (z : Fin k → K),
        (fun i => z i * w + c) = column z *ᵥ ![w] + fun _ => c := by
      intro k z
      funext i
      simp [column, mul_comm]
    rw [hcolumn x] at hweights'
    constructor
    · intro hall
      have h := congrFun (hall 1 fun _ => 0) 0
      have hzero : column (fun _ : Fin 1 => (0 : K)) = 0 := rfl
      rw [fit_vector, fit, Samples.extend, hzero, Matrix.zero_mulVec, zero_mul, zero_add] at h
      exact h.symm
    · rintro hc k z
      rw [fit_vector, (fit_matrix_iff hinv hx ![w] c hweights').mpr hc, hcolumn]

end Affine

/-! ### A line through two points -/

/-- Inversion by the adjugate. -/
def adjugate : Inverse ℚ := fun _ A =>
  if A.det = 0 then none else some (A.det⁻¹ • A.adjugate)

theorem adjugate_exact : Exact adjugate := by
  intro k A hdet
  refine ⟨A.det⁻¹ • A.adjugate, if_neg hdet, ?_⟩
  rw [Matrix.mul_smul, Matrix.mul_adjugate, smul_smul, inv_mul_cancel₀ hdet, one_smul]

theorem rank_line : (insert_ones (column (![0, 1] : Fin 2 → ℚ))).rank = 2 := by
  have hdet : IsUnit (insert_ones (column (![0, 1] : Fin 2 → ℚ))).det := by
    rw [Matrix.det_fin_two]
    simp [insert_ones, column]
  exact (Matrix.rank_of_isUnit _ ((Matrix.isUnit_iff_isUnit_det _).mpr hdet)).trans
    (Fintype.card_fin 2)

/-- The constant target one, at zero. -/
theorem fit_ne_affine : (insert_ones (column (![0, 1] : Fin 2 → ℚ))).rank = 2 ∧
    ∃ weights, LeastSquares adjugate (.matrix (column ![0, 1]))
        (column ![0, 1] *ᵥ ![0] + fun _ => 1) = some weights ∧
      fit weights (.matrix (column (![0] : Fin 1 → ℚ))) ≠ column ![0] *ᵥ ![0] + fun _ => 1 := by
  obtain ⟨weights, hweights⟩ := LeastSquares_isSome adjugate_exact
    (.matrix (column (![0, 1] : Fin 2 → ℚ))) (mulVec_injective_of_insert_ones rank_line)
    (column ![0, 1] *ᵥ ![0] + fun _ => 1)
  refine ⟨rank_line, weights, hweights, fun h => ?_⟩
  have hzero := congrFun h 0
  simp [fit, Samples.extend, column, Matrix.mulVec, dotProduct] at hzero

/-- A target through the origin, from both shapes. -/
theorem fit_eq_line : ∃ weights weights',
    LeastSquares adjugate (.vector ![0, 1]) (fun i => ![0, 1] i * 3 + 0) = some weights ∧
      LeastSquares adjugate (.matrix (column ![0, 1])) (fun i => ![0, 1] i * 3 + 0) =
        some weights' ∧
      ∀ k (z : Fin k → ℚ), fit weights' (.matrix (column z)) = fit weights (.vector z) := by
  obtain ⟨weights, weights', hweights, hweights', -, hsame⟩ :=
    (fit_eq_affine_iff adjugate_exact).2 2 ![0, 1] 3 0 rank_line
  exact ⟨weights, weights', hweights, hweights', hsame.mpr rfl⟩

end Itmo.LinearRegression
