import Itmo.Vmath.AdamsOrder
import Mathlib.Analysis.SpecialFunctions.Log.Deriv
import Mathlib.Analysis.SpecialFunctions.Pow.Deriv
import Mathlib.Analysis.SpecialFunctions.Trigonometric.Deriv

/-! What `program.py` of `vmath6` draws: the values of the methods over the points from `x0` to
`xn`, next to the curve that is to be the solution. For the three equations that the program
offers the curve is the solution, and the values of each method approach it with the step that
was asked for as fast as the method's order promises. For any other answer the program takes a
fourth equation, which its curve solves on no interval. The curve is scaled to the initial value
by a division, so there is none for the initial value zero. -/

namespace Itmo.Vmath

open Lib Set

/-! ### The program -/

section Definitions

/-- The right side of an equation and the curve through the initial value. -/
noncomputable def f1 (y0 x0 : ℝ) : (ℝ → ℝ → ℝ) × (ℝ → ℝ) :=
  let c := y0 * Real.exp (Real.cos x0)
  (fun x y => Real.sin x * y, fun x => c * Real.exp (-Real.cos x))

noncomputable def f2 (y0 x0 : ℝ) : (ℝ → ℝ → ℝ) × (ℝ → ℝ) :=
  let c := y0 * Real.exp x0 / x0 ^ x0
  (fun x y => y * Real.log x, fun x => c * Real.exp (-x) * x ^ x)

noncomputable def f3 (y0 x0 : ℝ) : (ℝ → ℝ → ℝ) × (ℝ → ℝ) :=
  let c := (y0 - x0 ^ 2 - (2 : ℕ) * x0 - (2 : ℕ)) * Real.exp (-x0)
  (fun x y => y - x ^ 2, fun x => c * Real.exp x + x ^ 2 + (2 : ℕ) * x + (2 : ℕ))

noncomputable def f4 (y0 x0 : ℝ) : (ℝ → ℝ → ℝ) × (ℝ → ℝ) :=
  let c := 1 / (y0 - 1 / (2 : ℕ)) + x0
  (fun x y => y ^ 2 + x ^ 2 - (y + x), fun x => 1 / (c - x) + 1 / (2 : ℕ))

noncomputable def chosen (choice : String) (y0 x0 : ℝ) : (ℝ → ℝ → ℝ) × (ℝ → ℝ) :=
  if choice = "1" then f1 y0 x0
  else if choice = "2" then f2 y0 x0
  else if choice = "3" then f3 y0 x0
  else f4 y0 x0

/-- The conversion of a number to an `int` drops its fraction. -/
noncomputable def toInt (q : ℝ) : ℤ := if 0 ≤ q then ⌊q⌋ else ⌈q⌉

/-- The points in exact arithmetic. A single point is the first one. -/
noncomputable def linspace (start stop : ℝ) (num : ℕ) : List ℝ :=
  (List.range num).map fun i : ℕ => start + i * ((stop - start) / (num - 1))

/-- The points, where there is something to draw: a step of zero cannot be divided by, the number
of points may not be negative, and no curve is computed over none. -/
noncomputable def points (x0 xn h : ℝ) : Option (List ℝ) :=
  let num := toInt ((xn - x0) / h + 1)
  if h = 0 ∨ num ≤ 0 then none else some (linspace x0 xn num.toNat)

/-- The curve that is called the exact solution. -/
noncomputable def exactAt (F : ℝ → ℝ) (y0 x0 t : ℝ) : ℝ := F t / F x0 * y0

/-- What is drawn of it beside every method. -/
noncomputable def exact (F : ℝ → ℝ) (y0 x0 : ℝ) (x : List ℝ) : List ℝ := x.map (exactAt F y0 x0)

end Definitions

/-! ### The curves -/

section Curves

variable {a b y0 x0 : ℝ} {n : ℕ}

theorem f1_solves (hab : a < b) : Solves a b n (f1 y0 x0).1 (f1 y0 x0).2 where
  lt := hab
  smooth := by
    have hsmooth : ContDiff ℝ n fun p : ℝ × ℝ => Real.sin p.1 * p.2 := by fun_prop
    exact hsmooth.contDiffOn
  lipschitz := ⟨1, fun t _ => LipschitzWith.of_dist_le_mul fun y z => by
    rw [f1, Real.dist_eq, Real.dist_eq, ← mul_sub, abs_mul]
    exact mul_le_mul_of_nonneg_right (Real.abs_sin_le_one t) (abs_nonneg _)⟩
  hasDeriv t _ := by
    have hexp := (((Real.hasDerivAt_cos t).fun_neg).exp).const_mul (y0 * Real.exp (Real.cos x0))
    refine hexp.hasDerivWithinAt.congr_deriv ?_
    simp only [f1]
    ring

theorem f2_solves (hab : a < b) (ha : 0 < a) : Solves a b n (f2 y0 x0).1 (f2 y0 x0).2 where
  lt := hab
  smooth := by
    have hlog : ContDiffOn ℝ n (fun p : ℝ × ℝ => Real.log p.1) (Icc a b ×ˢ univ) :=
      contDiffOn_fst.log fun p hp => (ha.trans_le hp.1.1).ne'
    exact contDiffOn_snd.mul hlog
  lipschitz := by
    obtain ⟨L, hL⟩ := isCompact_Icc.exists_bound_of_continuousOn (f := Real.log) (s := Icc a b)
      (Real.continuousOn_log.mono fun t ht => (ha.trans_le ht.1).ne')
    refine ⟨L.toNNReal, fun t ht => LipschitzWith.of_dist_le_mul fun y z => ?_⟩
    rw [f2, Real.dist_eq, Real.dist_eq, ← sub_mul, abs_mul, mul_comm]
    exact mul_le_mul_of_nonneg_right ((hL t ht).trans (Real.le_coe_toNNReal L)) (abs_nonneg _)
  hasDeriv t ht := by
    have hpos : 0 < t := ha.trans_le ht.1
    have hpow := (hasDerivAt_id t).rpow (hasDerivAt_id t) hpos
    have hexp := (((hasDerivAt_id t).fun_neg).exp).const_mul (y0 * Real.exp x0 / x0 ^ x0)
    refine (hexp.fun_mul hpow).hasDerivWithinAt.congr_deriv ?_
    simp only [f2, id_eq, Real.rpow_sub_one hpos.ne']
    field_simp
    ring

theorem f3_solves (hab : a < b) : Solves a b n (f3 y0 x0).1 (f3 y0 x0).2 where
  lt := hab
  smooth := by
    have hsmooth : ContDiff ℝ n fun p : ℝ × ℝ => p.2 - p.1 ^ 2 := by fun_prop
    exact hsmooth.contDiffOn
  lipschitz := ⟨1, fun t _ => LipschitzWith.of_dist_le_mul fun y z => by simp [f3]⟩
  hasDeriv t _ := by
    have hexp := (Real.hasDerivAt_exp t).const_mul
      ((y0 - x0 ^ 2 - (2 : ℕ) * x0 - (2 : ℕ)) * Real.exp (-x0))
    have hsum := ((hexp.fun_add ((hasDerivAt_id t).fun_pow 2)).fun_add
      ((hasDerivAt_id t).const_mul ((2 : ℕ) : ℝ))).add_const ((2 : ℕ) : ℝ)
    refine hsum.hasDerivWithinAt.congr_deriv ?_
    simp only [f3, id_eq]
    push_cast
    ring

theorem f1_initial : (f1 y0 x0).2 x0 = y0 := by
  simp only [f1]
  rw [mul_assoc, ← Real.exp_add, add_neg_cancel, Real.exp_zero, mul_one]

theorem f2_initial (h0 : 0 < x0) : (f2 y0 x0).2 x0 = y0 := by
  simp only [f2]
  have hpow : x0 ^ x0 ≠ 0 := (Real.rpow_pos_of_pos h0 x0).ne'
  rw [mul_right_comm, div_mul_cancel₀ _ hpow, mul_assoc, ← Real.exp_add, add_neg_cancel,
    Real.exp_zero, mul_one]

theorem f3_initial : (f3 y0 x0).2 x0 = y0 := by
  simp only [f3]
  rw [mul_assoc, ← Real.exp_add, neg_add_cancel, Real.exp_zero]
  push_cast
  ring

/-- The three equations that are offered. -/
def Offered (choice : String) : Prop := choice = "1" ∨ choice = "2" ∨ choice = "3"

theorem chosen_solves {choice : String} (hchoice : Offered choice) (hab : a < b)
    (ha : choice = "2" → 0 < a) :
    Solves a b n (chosen choice y0 x0).1 (chosen choice y0 x0).2 := by
  rcases hchoice with rfl | rfl | rfl
  · exact f1_solves hab
  · exact f2_solves hab (ha rfl)
  · exact f3_solves hab

theorem chosen_initial {choice : String} (hchoice : Offered choice)
    (h0 : choice = "2" → 0 < x0) : (chosen choice y0 x0).2 x0 = y0 := by
  rcases hchoice with rfl | rfl | rfl
  · exact f1_initial
  · exact f2_initial (h0 rfl)
  · exact f3_initial

/-- At one half the fourth constant divides by zero. -/
theorem f4_initial (hhalf : y0 ≠ 1 / 2) : (f4 y0 x0).2 x0 = y0 := by
  have hne : y0 - 1 / 2 ≠ 0 := sub_ne_zero.mpr hhalf
  have hpole : y0 - 1 / 2 = 1 / (1 / (y0 - 1 / 2)) :=
    eq_div_of_mul_eq (one_div_ne_zero hne) (mul_one_div_cancel hne)
  simp only [f4, Nat.cast_ofNat, add_sub_cancel_right]
  rw [← hpole, sub_add_cancel]

/-- Through the initial value, if it is not zero, the curve needs no scaling. -/
theorem exactAt_eq {F : ℝ → ℝ} (hF : F x0 = y0) (hy : y0 ≠ 0) : exactAt F y0 x0 = F := by
  funext t
  rw [exactAt, hF, div_mul_cancel₀ _ hy]

end Curves

/-! ### The points -/

section Points

variable {x0 xn h : ℝ} {x : List ℝ}

theorem linspace_getD (start stop : ℝ) {num i : ℕ} (hi : i < num) :
    (linspace start stop num).getD i 0 = start + i * ((stop - start) / (num - 1)) := by
  have hlength : i < (linspace start stop num).length := by simpa [linspace] using hi
  rw [List.getD_eq_getElem _ _ hlength]
  simp [linspace]

theorem points_some (hx : points x0 xn h = some x) : ∃ num : ℕ, 0 < num ∧
    toInt ((xn - x0) / h + 1) = num ∧ h ≠ 0 ∧ x = linspace x0 xn num := by
  rw [points] at hx
  split_ifs at hx with hnone
  rw [not_or, not_le] at hnone
  obtain ⟨num, hnum⟩ := Int.eq_ofNat_of_zero_le hnone.2.le
  have hx := Option.some.inj hx
  rw [hnum, Int.toNat_natCast] at hx
  exact ⟨num, by omega, hnum, hnone.1, hx.symm⟩

/-- The points are no further apart than twice the step that was asked for. -/
theorem width_le {q : ℝ} {num : ℕ} (hnum : toInt (q + 1) = num) (h2 : 2 ≤ num) :
    |q / (num - 1)| ≤ 2 := by
  have hge : (2 : ℝ) ≤ num := mod_cast h2
  rw [toInt] at hnum
  split_ifs at hnum with hq
  · obtain ⟨hle, hlt⟩ := Int.floor_eq_iff.mp hnum
    push_cast at hle hlt
    have hpos : (0 : ℝ) < num - 1 := by linarith
    rw [abs_of_nonneg (div_nonneg (by linarith) hpos.le), div_le_iff₀ hpos]
    linarith
  · have hceil : ⌈q + 1⌉ ≤ 0 := Int.ceil_le.mpr (by push_cast; linarith)
    omega

theorem between_mem {s : ℝ} (h0 : 0 ≤ s) (h1 : s ≤ 1) :
    x0 + s * (xn - x0) ∈ Icc (min x0 xn) (max x0 xn) := by
  rcases le_total x0 xn with hle | hle
  · rw [min_eq_left hle, max_eq_right hle]
    constructor <;> nlinarith
  · rw [min_eq_right hle, max_eq_left hle]
    constructor <;> nlinarith

/-- The points lie on the way, the same width apart. -/
theorem points_uniform (hx : points x0 xn h = some x) : x ≠ [] ∧ x.getD 0 0 = x0 ∧
    (∀ t ∈ x, t ∈ Icc (min x0 xn) (max x0 xn)) ∧ ∃ h', |h'| ≤ 2 * |h| ∧ Uniform x x0 h' := by
  obtain ⟨num, hpos, hnum, hh, rfl⟩ := points_some hx
  have hlength : (linspace x0 xn num).length = num := by simp [linspace]
  refine ⟨?_, ?_, ?_, ?_⟩
  · rw [← List.length_pos_iff, hlength]
    exact hpos
  · rw [linspace_getD x0 xn hpos, Nat.cast_zero, zero_mul, add_zero]
  · intro t ht
    rw [linspace, List.mem_map] at ht
    obtain ⟨i, hi, rfl⟩ := ht
    rw [List.mem_range] at hi
    have hle : (i : ℝ) ≤ num - 1 := by
      rw [le_sub_iff_add_le]
      exact_mod_cast hi
    rw [← mul_div_assoc, mul_div_right_comm]
    exact between_mem (div_nonneg i.cast_nonneg (i.cast_nonneg.trans hle))
      (div_le_one_of_le₀ hle (i.cast_nonneg.trans hle))
  · rcases Nat.lt_or_ge num 2 with hlt | h2
    · refine ⟨0, by simp, fun i hi => ?_⟩
      obtain rfl : i = 0 := by omega
      rw [linspace_getD x0 xn hpos]
      simp
    · refine ⟨(xn - x0) / (num - 1), ?_, fun i hi => linspace_getD x0 xn (hlength ▸ hi)⟩
      have hstep : (xn - x0) / (num - 1) = (xn - x0) / h / (num - 1) * h := by
        field_simp
      rw [hstep, abs_mul]
      exact mul_le_mul_of_nonneg_right (width_le hnum h2) (abs_nonneg h)

end Points

/-! ### What is drawn -/

section Drawn

/-- From the width of the points to the step that was asked for. -/
theorem approach {C C' h h' : ℝ} {k : ℕ} {F : ℝ → ℝ} {y x : List ℝ} (hh : |h'| ≤ 2 * |h|)
    (hk : k ≤ 4) (hC : |C| ≤ C')
    (horder : List.Forall₂ (fun y t => |y - F t| ≤ C * |h'| ^ k) y x) :
    List.Forall₂ (fun y Y => |y - Y| ≤ 16 * C' * |h| ^ k) y (x.map F) := by
  rw [List.forall₂_map_right_iff]
  refine horder.imp fun y t herror => herror.trans ?_
  have hC0 : 0 ≤ C' := (abs_nonneg C).trans hC
  have hpow : (2 : ℝ) ^ k ≤ 16 := (pow_le_pow_right₀ one_le_two hk).trans_eq (by norm_num)
  calc C * |h'| ^ k ≤ C' * (2 * |h|) ^ k := by
        gcongr
        exact (le_abs_self C).trans hC
    _ = 2 ^ k * C' * |h| ^ k := by rw [mul_pow, ← mul_assoc, mul_comm C']
    _ ≤ 16 * C' * |h| ^ k := by
        gcongr

/-- For the equations that are offered, what is drawn for the methods comes as close to the curve
drawn beside it as the orders of the methods promise for the step that was asked for. -/
theorem curves_approach {choice : String} (hchoice : Offered choice) {y0 x0 xn : ℝ} (hy : y0 ≠ 0)
    (h2 : choice = "2" → 0 < x0 ∧ 0 < xn) :
    let f := (chosen choice y0 x0).1
    let F := (chosen choice y0 x0).2
    ∃ C, ∀ h x, points x0 xn h = some x →
      List.Forall₂ (fun y Y => |y - Y| ≤ C * |h|) (Euler y0 x f) (exact F y0 x0 x) ∧
      List.Forall₂ (fun y Y => |y - Y| ≤ C * |h| ^ 2) (Euler2 y0 x f) (exact F y0 x0 x) ∧
      List.Forall₂ (fun y Y => |y - Y| ≤ C * |h| ^ 4) (RK y0 x f) (exact F y0 x0 x) ∧
      List.Forall₂ (fun y Y => |y - Y| ≤ C * |h| ^ 4) (AdamsCorrected y0 x f)
        (exact F y0 x0 x) := by
  intro f F
  have hab : min x0 xn < max x0 xn + 1 := (min_le_max).trans_lt (lt_add_one _)
  have ha : choice = "2" → 0 < min x0 xn := fun h => lt_min (h2 h).1 (h2 h).2
  have hF : F x0 = y0 := chosen_initial hchoice fun h => (h2 h).1
  have hsolves : ∀ n, Solves (min x0 xn) (max x0 xn + 1) n f F := fun n =>
    chosen_solves hchoice hab ha
  obtain ⟨C₁, hEuler⟩ := oneStep_order (Euler_slope (hsolves 1))
    ((hsolves 1).Euler_defect le_rfl)
  obtain ⟨C₂, hEuler2⟩ := oneStep_order (Euler2_slope (hsolves 2))
    ((hsolves 2).Euler2_defect le_rfl)
  obtain ⟨C₃, hRK⟩ := oneStep_order (RK_slope (hsolves 4)) ((hsolves 4).RK_defect le_rfl)
  obtain ⟨C₄, hAdams⟩ := adams_close (hsolves 4)
  let C := max (max |C₁| |C₂|) (max |C₃| |C₄|)
  refine ⟨16 * C, fun h x hx => ?_⟩
  obtain ⟨hne, hfirst, hmem, h', hh, huniform⟩ := points_uniform hx
  have hmem : ∀ t ∈ x, t ∈ Icc (min x0 xn) (max x0 xn + 1) := fun t ht =>
    Icc_subset_Icc_right (le_add_of_nonneg_right zero_le_one) (hmem t ht)
  have hgrid := huniform.grid hmem
  have hy0 : F (x.getD 0 0) = y0 := by rw [hfirst, hF]
  have hC₁ : |C₁| ≤ C := (le_max_left _ _).trans (le_max_left _ _)
  have hC₂ : |C₂| ≤ C := (le_max_right _ _).trans (le_max_left _ _)
  have hC₃ : |C₃| ≤ C := (le_max_left _ _).trans (le_max_right _ _)
  have hC₄ : |C₄| ≤ C := (le_max_right _ _).trans (le_max_right _ _)
  have hEuler := approach hh (by norm_num) hC₁ (hEuler |h'| x hgrid hne)
  have hEuler2 := approach hh (by norm_num) hC₂ (hEuler2 |h'| x hgrid hne)
  have hRK := approach hh le_rfl hC₃ (hRK |h'| x hgrid hne)
  have hAdams := approach hh le_rfl hC₄ (forall₂_of_getD (AdamsCorrected_length _ hne)
    (hAdams x x0 h' huniform hmem hne))
  rw [hy0] at hEuler hEuler2 hRK hAdams
  rw [exact, exactAt_eq hF hy, Euler2_eq]
  rw [pow_one] at hEuler
  exact ⟨hEuler, hEuler2, hRK, hAdams⟩

theorem curves_approach_parabola : ∃ C, ∀ h x, points 0 1 h = some x →
    List.Forall₂ (fun y Y => |y - Y| ≤ C * |h|) (Euler 1 x (chosen "3" 1 0).1)
      (exact (chosen "3" 1 0).2 1 0 x) ∧
    List.Forall₂ (fun y Y => |y - Y| ≤ C * |h| ^ 2) (Euler2 1 x (chosen "3" 1 0).1)
      (exact (chosen "3" 1 0).2 1 0 x) ∧
    List.Forall₂ (fun y Y => |y - Y| ≤ C * |h| ^ 4) (RK 1 x (chosen "3" 1 0).1)
      (exact (chosen "3" 1 0).2 1 0 x) ∧
    List.Forall₂ (fun y Y => |y - Y| ≤ C * |h| ^ 4) (AdamsCorrected 1 x (chosen "3" 1 0).1)
      (exact (chosen "3" 1 0).2 1 0 x) :=
  curves_approach (Or.inr (Or.inr rfl)) one_ne_zero (by decide)

/-- A part of an interval that misses a point. -/
theorem exists_missing {a b : ℝ} (hab : a < b) (c : ℝ) :
    ∃ u v, u < v ∧ a ≤ u ∧ v ≤ b ∧ ∀ t, u ≤ t → t ≤ v → t ≠ c := by
  rcases le_or_gt c ((a + b) / 2) with hle | hgt
  · refine ⟨(a + 3 * b) / 4, b, by linarith, by linarith, le_rfl, fun t hu _ => ?_⟩
    linarith
  · refine ⟨a, (3 * a + b) / 4, by linarith, le_rfl, by linarith, fun t _ hv => ?_⟩
    linarith

/-- The equation that is taken for any other answer is not the one its curve solves: away from the
pole of the curve the two slopes differ by a polynomial of the second degree. -/
theorem f4_unsolved {a b y0 x0 : ℝ} (hab : a < b) :
    ¬ ∀ t ∈ Icc a b, HasDerivWithinAt (f4 y0 x0).2 ((f4 y0 x0).1 t ((f4 y0 x0).2 t)) (Icc a b) t := by
  intro hsolves
  let c := 1 / (y0 - 1 / (2 : ℕ)) + x0
  have hroot : ∀ t ∈ Icc a b, t ≠ c → t ^ 2 - t = 1 / 4 := by
    intro t ht hne
    have hpole : c - t ≠ 0 := sub_ne_zero.mpr hne.symm
    have hderiv : HasDerivWithinAt (f4 y0 x0).2 (1 / (c - t) ^ 2) (Icc a b) t := by
      have hinv := (((hasDerivAt_id t).const_sub c).fun_inv hpole).add_const (1 / ((2 : ℕ) : ℝ))
      refine (hinv.congr_deriv (by simp)).hasDerivWithinAt.congr (fun x _ => ?_) ?_
      · simp only [f4, one_div, id, c]
      · simp only [f4, one_div, id, c]
    have hslope := (uniqueDiffOn_Icc hab t ht).eq_deriv _ hderiv (hsolves t ht)
    have hvalue : (f4 y0 x0).2 t = 1 / (c - t) + 1 / 2 := by simp only [f4, Nat.cast_ofNat, c]
    rw [hvalue, ← one_div_pow] at hslope
    simp only [f4] at hslope
    linear_combination -hslope
  obtain ⟨u, v, huv, ha, hb, hmiss⟩ := exists_missing hab c
  have hu := hroot u ⟨ha, by linarith⟩ (hmiss u le_rfl huv.le)
  have hv := hroot v ⟨by linarith, hb⟩ (hmiss v huv.le le_rfl)
  have hw := hroot ((u + v) / 2) ⟨by linarith, by linarith⟩
    (hmiss ((u + v) / 2) (by linarith) (by linarith))
  -- a polynomial of the second degree does not take one value three times
  nlinarith [sq_pos_of_pos (sub_pos.mpr huv)]

/-- The curve that is drawn solves the equation on an interval just for the answers that are
offered. -/
theorem curve_solves_iff {choice : String} {a b y0 x0 : ℝ} (hab : a < b) (hy : y0 ≠ 0)
    (h2 : choice = "2" → 0 < a ∧ 0 < x0) (h4 : ¬ Offered choice → y0 ≠ 1 / 2) :
    let f := (chosen choice y0 x0).1
    let Y := exactAt (chosen choice y0 x0).2 y0 x0
    (∀ t ∈ Icc a b, HasDerivWithinAt Y (f t (Y t)) (Icc a b) t) ↔ Offered choice := by
  intro f Y
  constructor
  · intro hsolves
    by_contra hother
    have hchosen : chosen choice y0 x0 = f4 y0 x0 := by
      rw [Offered, not_or, not_or] at hother
      rw [chosen, if_neg hother.1, if_neg hother.2.1, if_neg hother.2.2]
    have hY : Y = (f4 y0 x0).2 := by
      show exactAt (chosen choice y0 x0).2 y0 x0 = _
      rw [hchosen, exactAt_eq (f4_initial (h4 hother)) hy]
    have hf : f = (f4 y0 x0).1 := by
      show (chosen choice y0 x0).1 = _
      rw [hchosen]
    rw [hY, hf] at hsolves
    exact f4_unsolved hab hsolves
  · intro hchoice
    have hF : (chosen choice y0 x0).2 x0 = y0 := chosen_initial hchoice fun h => (h2 h).2
    have hY : Y = (chosen choice y0 x0).2 := exactAt_eq hF hy
    rw [hY]
    exact (chosen_solves (n := 0) hchoice hab fun h => (h2 h).1).hasDeriv

/-- The fourth equation with its curve through the initial value one at zero. -/
theorem curve_solves_iff_other :
    (∀ t ∈ Icc (0 : ℝ) 1, HasDerivWithinAt (exactAt (chosen "4" 1 0).2 1 0)
      ((chosen "4" 1 0).1 t (exactAt (chosen "4" 1 0).2 1 0 t)) (Icc 0 1) t) ↔ Offered "4" :=
  curve_solves_iff one_pos one_ne_zero (by decide) fun _ => by norm_num

end Drawn

end Itmo.Vmath
