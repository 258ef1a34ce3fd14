import Mathlib.LinearAlgebra.Matrix.NonsingularInverse
import Mathlib.LinearAlgebra.Matrix.Rank

/-! Least squares by the normal equations. For a matrix with independent columns they have
one solution, and the sum of the squared residuals of a solution is the least of all. A right
side that the matrix can reach is reached. -/

namespace Itmo.Lib

open Matrix

section NormalEquations

variable {ι κ R : Type*} [Fintype ι] [Fintype κ] [Field R] {A : Matrix ι κ R}

omit [Fintype ι] in
/-- Independent columns, by the dimension of what they span. -/
theorem mulVec_injective_of_rank (hA : A.rank = Fintype.card κ) :
    Function.Injective A.mulVec := by
  rw [Matrix.mulVec_injective_iff, linearIndependent_iff_card_eq_finrank_span, ← hA,
    A.rank_eq_finrank_span_cols]
  rfl

theorem residual_dotProduct_eq_zero {w : κ → R} {y : ι → R} (hw : (Aᵀ * A) *ᵥ w = Aᵀ *ᵥ y)
    (v : κ → R) : (A *ᵥ w - y) ⬝ᵥ A *ᵥ v = 0 := by
  rw [dotProduct_mulVec, ← mulVec_transpose, mulVec_sub, mulVec_mulVec, hw, sub_self,
    zero_dotProduct]

variable [LinearOrder R] [IsStrictOrderedRing R]

theorem transpose_mul_self_mulVec_eq_zero {v : κ → R} (hv : (Aᵀ * A) *ᵥ v = 0) :
    A *ᵥ v = 0 := by
  have hker : v ∈ LinearMap.ker (Aᵀ * A).mulVecLin := hv
  rw [ker_mulVecLin_transpose_mul_self] at hker
  exact hker

/-- What a solution leaves over is orthogonal to all that the matrix can reach. -/
theorem sum_sq_residual_le {w : κ → R} {y : ι → R} (hw : (Aᵀ * A) *ᵥ w = Aᵀ *ᵥ y)
    (v : κ → R) : ∑ i, ((A *ᵥ w) i - y i) ^ 2 ≤ ∑ i, ((A *ᵥ v) i - y i) ^ 2 := by
  have horthogonal : A *ᵥ (v - w) ⬝ᵥ (A *ᵥ w - y) = 0 := by
    rw [dotProduct_comm, dotProduct_mulVec, ← mulVec_transpose, mulVec_sub, mulVec_mulVec, hw,
      sub_self, zero_dotProduct]
  have horthogonal' : (A *ᵥ w - y) ⬝ᵥ A *ᵥ (v - w) = 0 := by
    rw [dotProduct_comm, horthogonal]
  have hsum : ∀ u : ι → R, ∑ i, u i ^ 2 = u ⬝ᵥ u := by
    intro u
    exact Finset.sum_congr rfl fun i _ => sq (u i)
  have hsplit : A *ᵥ v - y = A *ᵥ (v - w) + (A *ᵥ w - y) := by
    rw [mulVec_sub, sub_add_sub_cancel]
  calc ∑ i, ((A *ᵥ w) i - y i) ^ 2
      = (A *ᵥ w - y) ⬝ᵥ (A *ᵥ w - y) := hsum (A *ᵥ w - y)
    _ ≤ A *ᵥ (v - w) ⬝ᵥ A *ᵥ (v - w) + (A *ᵥ w - y) ⬝ᵥ (A *ᵥ w - y) := by
      rw [← hsum (A *ᵥ (v - w))]
      exact le_add_of_nonneg_left (Finset.sum_nonneg fun i _ => sq_nonneg _)
    _ = (A *ᵥ v - y) ⬝ᵥ (A *ᵥ v - y) := by
      rw [hsplit, dotProduct_add, add_dotProduct, add_dotProduct, horthogonal, horthogonal',
        add_zero, zero_add]
    _ = ∑ i, ((A *ᵥ v) i - y i) ^ 2 := (hsum (A *ᵥ v - y)).symm

/-- A right side that the matrix can reach is reached. -/
theorem eq_of_normal_equations (hA : Function.Injective A.mulVec) {w v : κ → R}
    (hw : (Aᵀ * A) *ᵥ w = Aᵀ *ᵥ (A *ᵥ v)) : w = v := by
  have hdiff : (Aᵀ * A) *ᵥ (w - v) = 0 := by
    rw [mulVec_sub, hw, mulVec_mulVec, sub_self]
  have hzero := transpose_mul_self_mulVec_eq_zero hdiff
  rw [mulVec_sub, sub_eq_zero] at hzero
  exact hA hzero

variable [DecidableEq κ]

theorem det_transpose_mul_self_ne_zero (hA : Function.Injective A.mulVec) :
    (Aᵀ * A).det ≠ 0 := by
  intro hdet
  obtain ⟨v, hv, hzero⟩ := Matrix.exists_mulVec_eq_zero_iff.mpr hdet
  refine hv (hA ?_)
  rw [transpose_mul_self_mulVec_eq_zero hzero, mulVec_zero]

end NormalEquations

end Itmo.Lib
