import Itmo.Lib.NormalEquations
import Mathlib.Algebra.Polynomial.Roots

/-! The polynomial least squares of `approximation.py`, in exact arithmetic. The matrix of
sliding power sums is that of the normal equations for the powers of the abscissas, and it is
nonsingular where more abscissas than the degree differ. What the reversed solution gives at
the nodes then has the least sum of squared residuals of all polynomials of the degree. -/

namespace Itmo.Vmath

open Lib Matrix Finset

/-- The object after a call of `polynomial`. -/
structure LeastSquares (K : Type*) (n m : ℕ) where
  x : Fin n → K
  y : Fin n → K
  a : Fin (m + 1) → K
  f : K → K
  x_aprx : Fin n → K

namespace LeastSquares

section Definitions

variable {K : Type*} [Field K] {n m : ℕ}

/-- The power sums up to twice the degree, behind the number of points. -/
def x_sums (x : Fin n → K) (m : ℕ) : List K :=
  (n : K) :: (List.range' 1 (2 * m)).map fun i => ∑ k, x k ^ i

def xy_sums (x y : Fin n → K) (m : ℕ) : Fin (m + 1) → K :=
  fun i => ∑ k, x k ^ (i : ℕ) * y k

/-- Every row is a slice of the power sums. -/
def x_matrix (x : Fin n → K) (m : ℕ) : Matrix (Fin (m + 1)) (Fin (m + 1)) K :=
  Matrix.of fun i j => (((x_sums x m).take (m + 1 + i)).drop i).getD j 0

/-- A solver of linear systems gives nothing where it raises. -/
abbrev Solve (K : Type*) :=
  (k : ℕ) → Matrix (Fin k) (Fin k) K → (Fin k → K) → Option (Fin k → K)

def polynomial (solve : Solve K) (x y : Fin n → K) (m : ℕ) : Option (LeastSquares K n m) :=
  (solve (m + 1) (x_matrix x m) (xy_sums x y m)).map fun solution =>
    let a := fun j : Fin (m + 1) => solution j.rev
    { x
      y
      a
      f := fun x => ∑ j : Fin (m + 1), x ^ (m - j : ℕ) * a j
      x_aprx := fun i => ∑ j : Fin (m + 1), x i ^ (m - j : ℕ) * a j }

def S (self : LeastSquares K n m) : K :=
  ∑ i, (self.x_aprx i - self.y i) ^ 2

end Definitions

/-! ### The normal equations -/

section Powers

variable {K : Type*} [Field K] {n : ℕ}

/-- The powers of the abscissas. -/
def powers (x : Fin n → K) (m : ℕ) : Matrix (Fin n) (Fin (m + 1)) K :=
  Matrix.of fun i j => x i ^ (j : ℕ)

theorem x_sums_getElem (x : Fin n → K) {m k : ℕ} (hk : k ≤ 2 * m) :
    (x_sums x m)[k]? = some (∑ i, x i ^ k) := by
  cases k with
  | zero => simp [x_sums]
  | succ k =>
    rw [x_sums, List.getElem?_cons_succ, List.getElem?_map, List.getElem?_range' (by omega)]
    simp [Nat.add_comm]

theorem x_matrix_eq (x : Fin n → K) (m : ℕ) : x_matrix x m = (powers x m)ᵀ * powers x m := by
  ext i j
  have hij : (i : ℕ) + j < m + 1 + i := by omega
  rw [x_matrix, Matrix.of_apply, List.getD_eq_getElem?_getD, List.getElem?_drop,
    List.getElem?_take_of_lt hij, x_sums_getElem x (by omega), Option.getD_some, Matrix.mul_apply]
  refine sum_congr rfl fun k _ => ?_
  rw [Matrix.transpose_apply, powers, Matrix.of_apply, Matrix.of_apply, pow_add]

theorem xy_sums_eq (x y : Fin n → K) (m : ℕ) : xy_sums x y m = (powers x m)ᵀ *ᵥ y := rfl

/-- A polynomial at the nodes, from its coefficients. -/
theorem powers_mulVec_coeff (x : Fin n → K) {m : ℕ} {p : Polynomial K} (hp : p.natDegree ≤ m)
    (i : Fin n) : (powers x m *ᵥ fun j => p.coeff j) i = p.eval (x i) := by
  rw [Polynomial.eval_eq_sum_range' (Nat.lt_succ_of_le hp), ← Fin.sum_univ_eq_sum_range
    (fun j => p.coeff j * x i ^ j), Matrix.mulVec, dotProduct]
  exact sum_congr rfl fun j _ => mul_comm (powers x m i j) (p.coeff j)

/-- Every vector of coefficients is that of a polynomial. -/
theorem exists_coeff_eq {m : ℕ} (c : Fin (m + 1) → K) :
    ∃ p : Polynomial K, p.natDegree ≤ m ∧ (fun j : Fin (m + 1) => p.coeff j) = c := by
  refine ⟨∑ j : Fin (m + 1), Polynomial.C (c j) * Polynomial.X ^ (j : ℕ), ?_, ?_⟩
  · refine Polynomial.natDegree_sum_le_of_forall_le _ _ fun j _ => ?_
    exact (Polynomial.natDegree_C_mul_X_pow_le _ _).trans (Nat.lt_succ_iff.mp j.isLt)
  · funext i
    rw [Polynomial.finsetSum_coeff, sum_eq_single i]
    · rw [Polynomial.coeff_C_mul_X_pow, if_pos rfl]
    · intro j _ hj
      rw [Polynomial.coeff_C_mul_X_pow, if_neg fun h => hj (Fin.ext h.symm)]
    · intro hi
      exact absurd (mem_univ i) hi

variable [DecidableEq K]

theorem powers_mulVec_injective (x : Fin n → K) {m : ℕ} (hx : m + 1 ≤ #(univ.image x)) :
    Function.Injective (powers x m).mulVec := by
  intro c d hcd
  obtain ⟨p, hp, hcoeff⟩ := exists_coeff_eq (c - d)
  have hroots : ∀ z ∈ univ.image x, p.eval z = 0 := by
    intro z hz
    obtain ⟨i, -, rfl⟩ := mem_image.mp hz
    have hzero : powers x m *ᵥ (c - d) = 0 := by
      rw [Matrix.mulVec_sub, sub_eq_zero]
      exact hcd
    rw [← powers_mulVec_coeff x hp, hcoeff, hzero, Pi.zero_apply]
  have hzero : p = 0 := Polynomial.eq_zero_of_natDegree_lt_card_of_eval_eq_zero' p _ hroots
    (by omega)
  rw [← sub_eq_zero, ← hcoeff, hzero]
  rfl

end Powers

/-! ### The least sum of squares -/

section Optimal

variable {K : Type*} [Field K] [LinearOrder K] {n : ℕ}

/-- The exact solution of every nonsingular system. -/
def Exact (solve : Solve K) : Prop :=
  ∀ k (A : Matrix (Fin k) (Fin k) K) b, A.det ≠ 0 → ∃ s, solve k A b = some s ∧ A *ᵥ s = b

omit [LinearOrder K] in
/-- The reversed solution, with the highest power first. -/
theorem sum_rev_eq {m : ℕ} {p : Polynomial K} (hp : p.natDegree ≤ m) (z : K) :
    ∑ j : Fin (m + 1), z ^ (m - j : ℕ) * p.coeff (j.rev : ℕ) = p.eval z := by
  have hrev : ∀ j : Fin (m + 1), (m - j : ℕ) = (j.rev : ℕ) := by
    intro j
    rw [Fin.val_rev]
    omega
  simp only [hrev]
  exact (Equiv.sum_comp Fin.revPerm fun j : Fin (m + 1) => z ^ (j : ℕ) * p.coeff j).trans
    (powers_mulVec_coeff (fun _ : Fin 1 => z) hp 0)

variable [IsStrictOrderedRing K]

/-- The matrix is nonsingular, and no polynomial of the degree is nearer to the points. -/
theorem polynomial_optimal {solve : Solve K} (hsolve : Exact solve) (x y : Fin n → K) {m : ℕ}
    (hx : m + 1 ≤ #(univ.image x)) :
    (x_matrix x m).det ≠ 0 ∧ ∃ self, polynomial solve x y m = some self ∧
      (∀ i, self.x_aprx i = self.f (x i)) ∧
      (∃ p : Polynomial K, p.natDegree ≤ m ∧ ∀ z, self.f z = p.eval z) ∧
      ∀ q : Polynomial K, q.natDegree ≤ m → self.S ≤ ∑ i, (q.eval (x i) - y i) ^ 2 := by
  have hinjective := powers_mulVec_injective x hx
  have hdet : (x_matrix x m).det ≠ 0 := by
    rw [x_matrix_eq]
    exact det_transpose_mul_self_ne_zero hinjective
  obtain ⟨solution, hsolution, hnormal⟩ := hsolve _ _ (xy_sums x y m) hdet
  rw [x_matrix_eq, xy_sums_eq] at hnormal
  obtain ⟨p, hp, rfl⟩ := exists_coeff_eq solution
  have heval : ∀ z, ∑ j : Fin (m + 1), z ^ (m - j : ℕ) * p.coeff (j.rev : ℕ) = p.eval z :=
    sum_rev_eq hp
  refine ⟨hdet, _, by rw [polynomial, hsolution, Option.map_some], fun _ => rfl,
    ⟨p, hp, heval⟩, fun q hq => ?_⟩
  have hleast := sum_sq_residual_le hnormal fun j => q.coeff j
  simp only [powers_mulVec_coeff x hp, powers_mulVec_coeff x hq] at hleast
  simp only [S, heval]
  exact hleast

end Optimal

/-- A solver by Cramer's rule. -/
def cramer : Solve ℚ := fun _ A b =>
  if A.det = 0 then none else some (A.det⁻¹ • Matrix.cramer A b)

theorem cramer_exact : Exact cramer := by
  intro k A b hdet
  refine ⟨A.det⁻¹ • Matrix.cramer A b, if_neg hdet, ?_⟩
  rw [Matrix.mulVec_smul, Matrix.mulVec_cramer, smul_smul, inv_mul_cancel₀ hdet, one_smul]

/-- A straight line next to three points of a parabola. -/
theorem polynomial_optimal_line :
    (x_matrix (![0, 1, 2] : Fin 3 → ℚ) 1).det ≠ 0 ∧
      ∃ self, polynomial cramer (![0, 1, 2] : Fin 3 → ℚ) ![0, 1, 4] 1 = some self ∧
        (∀ i, self.x_aprx i = self.f (![0, 1, 2] i)) ∧
        (∃ p : Polynomial ℚ, p.natDegree ≤ 1 ∧ ∀ z, self.f z = p.eval z) ∧
        ∀ q : Polynomial ℚ, q.natDegree ≤ 1 →
          self.S ≤ ∑ i, (q.eval (![0, 1, 2] i) - ![0, 1, 4] i) ^ 2 :=
  polynomial_optimal cramer_exact ![0, 1, 2] ![0, 1, 4] (by decide +kernel)

end LeastSquares

end Itmo.Vmath
