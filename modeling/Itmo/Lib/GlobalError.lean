import Mathlib.Analysis.Asymptotics.Lemmas
import Mathlib.Analysis.Calculus.Deriv.Pow
import Mathlib.Analysis.Calculus.IteratedDeriv.Defs
import Mathlib.Analysis.Calculus.MeanValue
import Mathlib.Analysis.InnerProductSpace.Basic
import Mathlib.Analysis.ODE.DiscreteGronwall
import Mathlib.Data.List.GetD
import Mathlib.Order.PartialSups
import Mathlib.Topology.Algebra.Module.ModuleTopology

/-! Values that are computed point by point along a grid, and how far they get from a function.
What a step adds to the error is the defect of its formula, which an expansion of the function
around one of the points bounds; how the errors accumulate is Grönwall's inequality. -/

namespace Itmo.Lib

open Set Filter Asymptotics Finset

/-! ### Expansions -/

section Expansion

/-- A point and a step, so that `c` steps further on is in the interval as well. -/
def steps (a b c : ℝ) : Set (ℝ × ℝ) := {p | p.1 ∈ Icc a b ∧ p.1 + c * p.2 ∈ Icc a b}

variable {a b c : ℝ}

theorem steps_mem {p : ℝ × ℝ} (hp : p ∈ steps a b c) {θ : ℝ} (h0 : 0 ≤ θ) (hc : θ ≤ c) :
    p.1 + θ * p.2 ∈ Icc a b := by
  obtain ⟨⟨ha, hb⟩, ha', hb'⟩ := hp
  rcases le_total 0 p.2 with h | h
  · have hθ : 0 ≤ θ * p.2 := mul_nonneg h0 h
    have hle : θ * p.2 ≤ c * p.2 := mul_le_mul_of_nonneg_right hc h
    constructor <;> linarith
  · have hθ : θ * p.2 ≤ 0 := mul_nonpos_of_nonneg_of_nonpos h0 h
    have hle : c * p.2 ≤ θ * p.2 := mul_le_mul_of_nonpos_right hc h
    constructor <;> linarith

/-- A function and its first derivatives on an interval, all of them bounded. -/
structure Derivatives (a b : ℝ) (n : ℕ) (D : ℕ → ℝ → ℝ) : Prop where
  hasDeriv : ∀ k < n, ∀ t ∈ Icc a b, HasDerivWithinAt (D k) (D (k + 1) t) (Icc a b) t
  bounded : ∀ k ≤ n, ∃ M, ∀ t ∈ Icc a b, |D k t| ≤ M

theorem derivatives_of_contDiffOn (hab : a < b) {n : ℕ} {g : ℝ → ℝ}
    (hg : ContDiffOn ℝ n g (Icc a b)) :
    Derivatives a b n fun k => iteratedDerivWithin k g (Icc a b) where
  hasDeriv k hk t ht := by
    rw [iteratedDerivWithin_succ]
    exact (hg.differentiableOn_iteratedDerivWithin (mod_cast hk) (uniqueDiffOn_Icc hab) t
      ht).hasDerivWithinAt
  bounded k hk := isCompact_Icc.exists_bound_of_continuousOn
    (hg.continuousOn_iteratedDerivWithin (mod_cast hk) (uniqueDiffOn_Icc hab))

variable {n : ℕ} {D : ℕ → ℝ → ℝ}

/-- The expansion of a derivative around any point, to either side. -/
theorem Derivatives.taylor_le (hD : Derivatives a b n D) {M x : ℝ} (hx : x ∈ Icc a b) {k m : ℕ}
    (hkm : k + m ≤ n) (hM : ∀ t ∈ Icc a b, |D (k + m) t| ≤ M) {t : ℝ} (ht : t ∈ Icc a b) :
    |D k t - ∑ j ∈ range m, D (k + j) x * (t - x) ^ j / j.factorial| ≤ M * |t - x| ^ m := by
  induction m generalizing k t with
  | zero => simpa using hM t ht
  | succ m ih =>
    -- the derivative of the remainder is the remainder of the derivative
    have hderiv : ∀ τ ∈ Icc a b, HasDerivWithinAt
        (fun t => D k t - ∑ j ∈ range (m + 1), D (k + j) x * (t - x) ^ j / j.factorial)
        (D (k + 1) τ - ∑ j ∈ range m, D (k + 1 + j) x * (τ - x) ^ j / j.factorial)
        (Icc a b) τ := by
      intro τ hτ
      have hterm : ∀ j, HasDerivWithinAt
          (fun t => D (k + (j + 1)) x * (t - x) ^ (j + 1) / (j + 1).factorial)
          (D (k + 1 + j) x * (τ - x) ^ j / j.factorial) (Icc a b) τ := by
        intro j
        have hpow := ((((hasDerivWithinAt_id τ (Icc a b)).sub_const x).pow (j + 1)).const_mul
          (D (k + (j + 1)) x)).div_const ((j + 1).factorial : ℝ)
        refine hpow.congr_deriv ?_
        rw [Nat.factorial_succ, Nat.add_sub_cancel, Nat.add_right_comm k 1 j, Nat.add_assoc]
        push_cast
        field_simp
        simp
      have hsum := (HasDerivWithinAt.fun_sum (u := range m) fun j _ => hterm j).add_const
        (D (k + 0) x * 1 / (Nat.factorial 0))
      simp only [sum_range_succ', pow_zero]
      exact (hD.hasDeriv k (by omega) τ hτ).fun_sub hsum
    have hsub : uIcc x t ⊆ Icc a b := uIcc_subset_Icc hx ht
    have hbound : ∀ τ ∈ uIcc x t,
        ‖D (k + 1) τ - ∑ j ∈ range m, D (k + 1 + j) x * (τ - x) ^ j / j.factorial‖ ≤
          M * |t - x| ^ m := by
      intro τ hτ
      have hM0 : 0 ≤ M := (abs_nonneg _).trans (hM x hx)
      have hdist : |τ - x| ≤ |t - x| := abs_sub_left_of_mem_uIcc hτ
      rw [Real.norm_eq_abs]
      refine (ih (by omega) (fun t ht => ?_) (hsub hτ)).trans (by gcongr)
      rw [Nat.add_right_comm]
      exact hM t ht
    have hmean := Convex.norm_image_sub_le_of_norm_hasDerivWithin_le
      (fun τ hτ => (hderiv τ (hsub hτ)).mono hsub) hbound (convex_uIcc x t) left_mem_uIcc
      right_mem_uIcc
    have hzero : D k x - ∑ j ∈ range (m + 1), D (k + j) x * (x - x) ^ j / j.factorial = 0 := by
      simp [sum_range_succ']
    rw [hzero, sub_zero, Real.norm_eq_abs, Real.norm_eq_abs] at hmean
    rwa [pow_succ, ← mul_assoc]

/-- The same for a part of a step, for all points and steps at once. -/
theorem Derivatives.taylor (hD : Derivatives a b n D) {k m : ℕ} (hkm : k + m ≤ n) {θ : ℝ}
    (h0 : 0 ≤ θ) (hc : θ ≤ c) :
    (fun p : ℝ × ℝ => D k (p.1 + θ * p.2) -
      ∑ j ∈ range m, D (k + j) p.1 * (θ * p.2) ^ j / j.factorial)
      =O[𝓟 (steps a b c)] fun p => p.2 ^ m := by
  obtain ⟨M, hM⟩ := hD.bounded (k + m) hkm
  refine isBigO_principal.mpr ⟨M * |θ| ^ m, fun p hp => ?_⟩
  have htaylor := hD.taylor_le hp.1 hkm hM (steps_mem hp h0 hc)
  rwa [add_sub_cancel_left, abs_mul, mul_pow, ← mul_assoc, ← abs_pow p.2] at htaylor

theorem pow_isBigO_pow (a b : ℝ) {m k : ℕ} (hmk : m ≤ k) :
    (fun p : ℝ × ℝ => p.2 ^ k) =O[𝓟 (steps a b 1)] fun p => p.2 ^ m := by
  refine isBigO_principal.mpr ⟨|b - a| ^ (k - m), fun p hp => ?_⟩
  have hstep : |p.2| ≤ |b - a| := by
    obtain ⟨⟨ha, hb⟩, ha', hb'⟩ := hp
    rw [one_mul] at ha' hb'
    exact (abs_le.mpr ⟨by linarith, by linarith⟩).trans (le_abs_self _)
  rw [← Nat.sub_add_cancel hmk, pow_add, norm_mul, Nat.add_sub_cancel, norm_pow]
  exact mul_le_mul_of_nonneg_right (pow_le_pow_left₀ (norm_nonneg _) hstep _) (norm_nonneg _)

end Expansion

/-! ### Accumulation -/

/-- Points of an interval in one direction, neighbours no further apart than `h`. -/
structure Grid (a b h : ℝ) (x : List ℝ) : Prop where
  nonneg : 0 ≤ h
  mem : ∀ t ∈ x, t ∈ Icc a b
  oneWay : x.Pairwise (· ≤ ·) ∨ x.Pairwise (· ≥ ·)
  near : ∀ i, i + 1 < x.length → |x.getD (i + 1) 0 - x.getD i 0| ≤ h

section Accumulation

variable {a b h : ℝ} {x : List ℝ}

theorem Grid.getD_mem (hx : Grid a b h x) {i : ℕ} (hi : i < x.length) :
    x.getD i 0 ∈ Icc a b := by
  rw [List.getD_eq_getElem _ _ hi]
  exact hx.mem _ (List.getElem_mem hi)

theorem Grid.steps_mem (hx : Grid a b h x) {i : ℕ} (hi : i + 1 < x.length) :
    (x.getD i 0, x.getD (i + 1) 0 - x.getD i 0) ∈ steps a b 1 := by
  refine ⟨hx.getD_mem (Nat.lt_of_succ_lt hi), ?_⟩
  rw [one_mul, add_sub_cancel]
  exact hx.getD_mem hi

theorem Grid.take (hx : Grid a b h x) (n : ℕ) : Grid a b h (x.take n) where
  nonneg := hx.nonneg
  mem t ht := hx.mem t (List.mem_of_mem_take ht)
  oneWay := hx.oneWay.imp (fun h => h.sublist (x.take_sublist n)) fun h =>
    h.sublist (x.take_sublist n)
  near i hi := by
    rw [List.length_take] at hi
    have hget : ∀ j, j < n → (x.take n).getD j 0 = x.getD j 0 := by
      intro j hj
      rw [List.getD_eq_getElem?_getD, List.getD_eq_getElem?_getD, List.getElem?_take_of_lt hj]
    rw [hget (i + 1) (by omega), hget i (by omega)]
    exact hx.near i (by omega)

/-- How far the neighbour of a point is; nothing comes after the last one. -/
noncomputable def width (x : List ℝ) (i : ℕ) : ℝ :=
  if i + 1 < x.length then |x.getD (i + 1) 0 - x.getD i 0| else 0

theorem width_nonneg (x : List ℝ) (i : ℕ) : 0 ≤ width x i := by
  rw [width]
  split_ifs
  · exact abs_nonneg _
  · exact le_rfl

theorem Grid.width_eq (hx : Grid a b h x) : ∃ s : ℝ, |s| = 1 ∧
    ∀ j, j + 1 < x.length → width x j = s * (x.getD (j + 1) 0 - x.getD j 0) := by
  rcases hx.oneWay with hup | hdown
  · refine ⟨1, abs_one, fun j hj => ?_⟩
    have hle : x.getD j 0 ≤ x.getD (j + 1) 0 := by
      rw [List.getD_eq_getElem _ _ (Nat.lt_of_succ_lt hj), List.getD_eq_getElem _ _ hj]
      exact List.pairwise_iff_getElem.mp hup j (j + 1) _ hj (Nat.lt_succ_self j)
    rw [width, if_pos hj, abs_of_nonneg (sub_nonneg.mpr hle), one_mul]
  · refine ⟨-1, by simp, fun j hj => ?_⟩
    have hle : x.getD (j + 1) 0 ≤ x.getD j 0 := by
      rw [List.getD_eq_getElem _ _ (Nat.lt_of_succ_lt hj), List.getD_eq_getElem _ _ hj]
      exact List.pairwise_iff_getElem.mp hdown j (j + 1) _ hj (Nat.lt_succ_self j)
    rw [width, if_pos hj, abs_of_nonpos (sub_nonpos.mpr hle), neg_one_mul]

theorem Grid.sum_width_le (hx : Grid a b h x) {i : ℕ} (hi : i < x.length) :
    ∑ j ∈ range i, width x j ≤ b - a := by
  obtain ⟨s, hs, hwidth⟩ := hx.width_eq
  obtain ⟨ha, hb⟩ := hx.getD_mem hi
  obtain ⟨ha', hb'⟩ := hx.getD_mem (Nat.zero_lt_of_lt hi)
  have hsum : ∑ j ∈ range i, width x j = s * (x.getD i 0 - x.getD 0 0) := by
    rw [← sum_range_sub fun j => x.getD j 0, mul_sum]
    refine sum_congr rfl fun j hj => hwidth j ?_
    rw [Finset.mem_range] at hj
    omega
  calc ∑ j ∈ range i, width x j
      ≤ |s * (x.getD i 0 - x.getD 0 0)| := hsum ▸ le_abs_self _
    _ = |x.getD i 0 - x.getD 0 0| := by rw [abs_mul, hs, one_mul]
    _ ≤ b - a := abs_le.mpr ⟨by linarith, by linarith⟩

/-- An error that grows in every step by at most a multiple of the largest one so far, and a
defect, both in proportion to the width of the step. -/
theorem Grid.error_le (hx : Grid a b h x) {e : ℕ → ℝ} {k : ℕ} {Λ δ ε : ℝ} (he : ∀ i, 0 ≤ e i)
    (hΛ : 0 ≤ Λ) (hδ : 0 ≤ δ) (hstart : ∀ i ≤ k, e i ≤ ε)
    (hstep : ∀ i, k ≤ i → i + 1 < x.length → ∀ E, (∀ j ≤ i, e j ≤ E) →
      e (i + 1) ≤ (1 + Λ * width x i) * E + δ * width x i) {i : ℕ} (hi : i < x.length) :
    e i ≤ (ε + δ * (b - a)) * Real.exp (Λ * (b - a)) := by
  have hsum : ∑ j ∈ Finset.Ico k i, width x j ≤ b - a :=
    (sum_le_sum_of_subset_of_nonneg (fun j hj => Finset.mem_range.mpr (Finset.mem_Ico.mp hj).2)
      fun j _ _ => width_nonneg x j).trans (hx.sum_width_le hi)
  have hε : 0 ≤ ε := (he 0).trans (hstart 0 (Nat.zero_le k))
  -- the largest error so far; none comes after the last point
  let u : ℕ → ℝ := fun i => partialSups (fun i => if i < x.length then e i else 0) i
  have hle : ∀ {j i}, j ≤ i → j < x.length → e j ≤ u i := by
    intro j i hji hj
    have hsup := le_partialSups_of_le (fun i => if i < x.length then e i else 0) hji
    simpa only [hj, if_true] using hsup
  have hfirst : u k ≤ ε := by
    refine partialSups_le _ _ _ fun j hj => ?_
    split_ifs
    · exact hstart j hj
    · exact hε
  have hnonneg : ∀ i, 0 ≤ u i := fun i => (he 0).trans (hle (Nat.zero_le i) (by omega))
  have hgrows : ∀ n ≥ k, u (n + 1) ≤ (1 + Λ * width x n) * u n + δ * width x n := by
    intro n hn
    have hΛw : 0 ≤ Λ * width x n := mul_nonneg hΛ (width_nonneg x n)
    have hδw : 0 ≤ δ * width x n := mul_nonneg hδ (width_nonneg x n)
    have hprev : u n ≤ (1 + Λ * width x n) * u n + δ * width x n := by
      nlinarith [mul_nonneg hΛw (hnonneg n)]
    refine (partialSups_succ _ n).trans_le (sup_le hprev ?_)
    simp only [Order.succ_eq_add_one]
    split_ifs with hlt
    · exact hstep n hn hlt (u n) fun j hj => hle hj (by omega)
    · exact (hnonneg n).trans hprev
  have hlength : 0 ≤ b - a := (sum_nonneg fun j _ => width_nonneg x j).trans hsum
  have htotal : 0 ≤ ε + δ * (b - a) := add_nonneg hε (mul_nonneg hδ hlength)
  rcases Nat.le_total i k with hik | hki
  · calc e i ≤ ε := hstart i hik
      _ ≤ ε + δ * (b - a) := le_add_of_nonneg_right (mul_nonneg hδ hlength)
      _ ≤ (ε + δ * (b - a)) * Real.exp (Λ * (b - a)) :=
        le_mul_of_one_le_right htotal (Real.one_le_exp (mul_nonneg hΛ hlength))
  · have hgronwall := discrete_gronwall (hnonneg k) hgrows
      (fun n _ => mul_nonneg hΛ (width_nonneg x n)) (fun n _ => mul_nonneg hδ (width_nonneg x n)) hki
    rw [← mul_sum, ← mul_sum] at hgronwall
    refine (hle le_rfl hi).trans (hgronwall.trans ?_)
    gcongr

/-- A method that makes every value from the one before it, with an increment that is Lipschitz
in proportion to the step: of the order of its defect, less one. -/
theorem one_step_order {ψ : ℝ → ℝ → ℝ → ℝ} {Λ : ℝ} (hΛ : 0 ≤ Λ)
    (hψ : ∀ p ∈ steps a b 1, ∀ y z, |ψ p.1 p.2 y - ψ p.1 p.2 z| ≤ Λ * |p.2| * |y - z|)
    {Y : ℝ → ℝ} {k : ℕ}
    (hdefect : (fun p : ℝ × ℝ => Y (p.1 + p.2) - Y p.1 - ψ p.1 p.2 (Y p.1))
      =O[𝓟 (steps a b 1)] fun p => p.2 ^ (k + 1)) :
    ∃ C, ∀ (h : ℝ) (x y : List ℝ), Grid a b h x → y.getD 0 0 = Y (x.getD 0 0) →
      (∀ i, i + 1 < x.length → y.getD (i + 1) 0 =
        y.getD i 0 + ψ (x.getD i 0) (x.getD (i + 1) 0 - x.getD i 0) (y.getD i 0)) →
      ∀ i < x.length, |y.getD i 0 - Y (x.getD i 0)| ≤ C * h ^ k := by
  obtain ⟨C, hC, hdefect⟩ := hdefect.exists_nonneg
  have hdefect := isBigOWith_principal.mp hdefect
  refine ⟨C * (b - a) * Real.exp (Λ * (b - a)), fun h x y hx hfirst hnext i hi => ?_⟩
  have hδ : 0 ≤ C * h ^ k := mul_nonneg hC (pow_nonneg hx.nonneg k)
  have hstart : ∀ i ≤ 0, |y.getD i 0 - Y (x.getD i 0)| ≤ 0 := by
    intro i hi
    rw [Nat.le_zero.mp hi, hfirst, sub_self, abs_zero]
  have hstep : ∀ i, 0 ≤ i → i + 1 < x.length → ∀ E,
      (∀ j ≤ i, |y.getD j 0 - Y (x.getD j 0)| ≤ E) →
      |y.getD (i + 1) 0 - Y (x.getD (i + 1) 0)| ≤
        (1 + Λ * width x i) * E + C * h ^ k * width x i := by
    intro i _ hlt E hE
    have hlocal := hdefect _ (hx.steps_mem hlt)
    have hlipschitz := hψ _ (hx.steps_mem hlt) (y.getD i 0) (Y (x.getD i 0))
    have hnear := hx.near i hlt
    rw [width, if_pos hlt, hnext i hlt]
    simp only [Real.norm_eq_abs, add_sub_cancel] at hlocal hlipschitz
    generalize x.getD (i + 1) 0 - x.getD i 0 = w at *
    have hsplit : y.getD i 0 + ψ (x.getD i 0) w (y.getD i 0) - Y (x.getD (i + 1) 0) =
        (y.getD i 0 - Y (x.getD i 0)) +
        (ψ (x.getD i 0) w (y.getD i 0) - ψ (x.getD i 0) w (Y (x.getD i 0))) -
        (Y (x.getD (i + 1) 0) - Y (x.getD i 0) - ψ (x.getD i 0) w (Y (x.getD i 0))) := by
      ring
    have hpow : C * |w ^ (k + 1)| ≤ C * h ^ k * |w| := by
      rw [abs_pow, pow_succ, ← mul_assoc]
      gcongr
    calc _ ≤ |y.getD i 0 - Y (x.getD i 0)| + Λ * |w| * |y.getD i 0 - Y (x.getD i 0)| +
          C * |w ^ (k + 1)| := by
          rw [hsplit]
          exact (abs_sub _ _).trans (add_le_add ((abs_add_le _ _).trans
            (add_le_add_right hlipschitz _)) hlocal)
      _ ≤ E + Λ * |w| * E + C * h ^ k * |w| := by
          gcongr
          · exact hE i le_rfl
          · exact hE i le_rfl
      _ = (1 + Λ * |w|) * E + C * h ^ k * |w| := by ring
  have herror := hx.error_le (e := fun i => |y.getD i 0 - Y (x.getD i 0)|) (fun i => abs_nonneg _)
    hΛ hδ hstart hstep hi
  exact herror.trans_eq (by ring)

end Accumulation

end Itmo.Lib
