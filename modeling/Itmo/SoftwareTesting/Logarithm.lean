import Itmo.SoftwareTesting.Ln
import Mathlib.Analysis.Complex.ExponentialBounds

/-! How close the logarithm of `software_testing` comes in exact arithmetic. The series is cut off
after 65 powers, which makes the logarithm of a mantissa too large, most for the mantissa of a
power of ten. Still no two decades overlap, so the order of two numbers is that of their computed
logarithms. -/

namespace Itmo.SoftwareTesting.Ln

open Lib Finset

/-! ### The series -/

/-- The first powers in the series of the logarithm about one. -/
def logSum {K : Type*} [Field K] (x : K) (n : ℕ) : K := ∑ i ∈ range n, x ^ (i + 1) / (i + 1)

theorem lnSeriesAtZero_eq {K : Type*} [Field K] (x : K) :
    lnSeriesAtZero x = -logSum (1 - x) 65 := by
  have hpows : pows = (List.range 65).map fun i => ⟨Int32.ofNat (i + 1),
      if (i + 1) % 2 = 0 then 1 else -1, Pow.new (Int32.ofNat (i + 1))⟩ := rfl
  rw [lnSeriesAtZero, hpows, List.map_map, logSum]
  refine congrArg _ (congrArg List.sum (List.map_congr_left fun i hi => ?_))
  have hlt := List.mem_range.mp hi
  have htoInt : (Int32.ofNat (i + 1)).toInt = (i + 1 : ℕ) := Int32.toInt_ofNat_of_lt (by omega)
  have hne : Int32.ofNat (i + 1) ≠ Int32.minValue := by
    intro heq
    rw [heq] at htoInt
    have hmin : Int32.minValue.toInt = -2 ^ 31 := by decide
    omega
  have hsign : (((if (i + 1) % 2 = 0 then 1 else -1 : Int32).toInt : ℤ) : K) = (-1) ^ (i + 1) := by
    split_ifs with h
    · rw [Even.neg_one_pow (Nat.even_iff.mpr h)]
      exact Int.cast_one
    · rw [Odd.neg_one_pow (Nat.odd_iff.mpr (by omega))]
      exact (Int.cast_neg 1).trans (congrArg _ Int.cast_one)
  show _ * Pow.apply _ _ / _ = _
  rw [hsign, Pow.apply_new hne, htoInt, zpow_natCast, ← mul_pow, Int.cast_natCast, neg_one_mul,
    neg_sub, Nat.cast_add_one]

section Series

variable {x y : ℝ}

theorem hasSum_log (hx : 0 ≤ x) (hx' : x < 1) :
    HasSum (fun i : ℕ => x ^ (i + 1) / (i + 1)) (-Real.log (1 - x)) :=
  Real.hasSum_pow_div_log_of_abs_lt_one ((abs_of_nonneg hx).trans_lt hx')

theorem logSum_le (hx : 0 ≤ x) (hx' : x < 1) (n : ℕ) : logSum x n ≤ -Real.log (1 - x) :=
  sum_le_hasSum _ (fun i _ => by positivity) (hasSum_log hx hx')

/-- The powers that are left out are less than a geometric series. -/
theorem le_logSum_add (hx : 0 ≤ x) (hx' : x < 1) (n : ℕ) :
    -Real.log (1 - x) ≤ logSum x n + x ^ (n + 1) / (n + 1) * (1 - x)⁻¹ := by
  have htail := (hasSum_nat_add_iff' n).mpr (hasSum_log hx hx')
  have hgeometric := (hasSum_geometric_of_lt_one hx hx').mul_left (x ^ (n + 1) / (n + 1))
  have hle := hasSum_le (fun i => ?_) htail hgeometric
  · rw [logSum]
    linarith
  · have hpow : x ^ (i + n + 1) = x ^ (n + 1) * x ^ i := by ring
    rw [hpow, div_mul_eq_mul_div]
    gcongr
    linarith

theorem logSum_lt (hx : 0 ≤ x) (hxy : x < y) {n : ℕ} (hn : 0 < n) : logSum x n < logSum y n := by
  refine sum_lt_sum_of_nonempty (nonempty_range_iff.mpr hn.ne') fun i _ => ?_
  have hpow : x ^ (i + 1) < y ^ (i + 1) := pow_lt_pow_left₀ hxy hx i.succ_ne_zero
  gcongr

end Series

/-! ### The constant -/

theorem abs_ln10_sub_log_le : |ln10 - Real.log 10| ≤ 2.1e-10 := by
  have htwo := abs_le.mp Real.log_two_near_10
  have hfive := abs_le.mp Real.log_five_near_10
  rw [Real.log_ten_eq, ln10, abs_le]
  norm_num at htwo hfive ⊢
  constructor <;> linarith

theorem ln10_pos : (0 : ℝ) < ln10 := by
  rw [ln10]
  norm_num

/-- Even at a tenth the cut series is less than a decade away from zero. -/
theorem logSum_lt_ln10 : logSum (0.9 : ℝ) 65 < ln10 := by
  have hlast : logSum (0.9 : ℝ) 66 = logSum 0.9 65 + 0.9 ^ 66 / 66 := by
    rw [logSum, sum_range_succ]
    norm_num [logSum]
  have hle := logSum_le (show (0 : ℝ) ≤ 0.9 by norm_num) (by norm_num) 66
  have hlog : -Real.log (1 - 0.9) = Real.log 10 := by
    rw [← Real.log_inv]
    norm_num
  have hten := abs_le.mp abs_ln10_sub_log_le
  have hpow : (1e-9 : ℝ) < 0.9 ^ 66 / 66 := by norm_num
  rw [hlast, hlog] at hle
  linarith

/-! ### Mantissa and exponent -/

/-- What is computed, with the exponent as an integer. -/
noncomputable def ln (x : ℝ) : ℝ :=
  if x = 1 then 0
  else lnSeriesAtZero (x / ((10 : ℕ) : ℝ) ^ (Int.log 10 x + 1)) + ((Int.log 10 x + 1 : ℤ) : ℝ) * ln10

section Value

variable {x y m : ℝ} {e : ℤ}

theorem Normalised.ln_eq (hx : 0 < x) (hone : x ≠ 1) (h : Normalised x m e) :
    ln x = lnSeriesAtZero m + (e : ℝ) * ln10 := by
  have hm : x / 10 ^ e = m := by
    rw [div_eq_iff (by positivity)]
    exact h.mul_zpow.symm
  rw [ln, if_neg hone, ← h.exponent_eq hx, Nat.cast_ofNat, hm]

theorem exists_normalised (hx : 0 < x) : ∃ m, Normalised x m (Int.log 10 x + 1) := by
  obtain ⟨_, s, -, h⟩ := exists_scale hx
  rw [← h.exponent_eq hx]
  exact ⟨s.1, h⟩

/-- The series is summed over what the mantissa is less than one. -/
theorem Normalised.rest_mem (h : Normalised x m e) : 0 < 1 - m ∧ 1 - m ≤ 0.9 := by
  have hle := h.le_mantissa
  have hlt := h.mantissa_lt
  norm_num at hle ⊢
  exact ⟨hlt, by linarith⟩

theorem Normalised.lnSeries_neg (h : Normalised x m e) : lnSeriesAtZero m < 0 := by
  rw [lnSeriesAtZero_eq, neg_lt_zero]
  have hzero : logSum (0 : ℝ) 65 = 0 := sum_eq_zero fun i _ => by simp
  rw [← hzero]
  exact logSum_lt le_rfl h.rest_mem.1 (by norm_num)

theorem Normalised.neg_ln10_lt (h : Normalised x m e) : -ln10 < lnSeriesAtZero m := by
  rw [lnSeriesAtZero_eq, neg_lt_neg_iff]
  refine lt_of_le_of_lt ?_ logSum_lt_ln10
  rcases h.rest_mem.2.lt_or_eq with hlt | heq
  · exact (logSum_lt h.rest_mem.1.le hlt (by norm_num)).le
  · rw [heq]

/-- A number of a decade has its logarithm between those of the two powers of ten. -/
theorem ln_lt (hx : 0 < x) : ln x < ((Int.log 10 x + 1 : ℤ) : ℝ) * ln10 := by
  by_cases hone : x = 1
  · rw [hone, Int.log_one_right, ln, if_pos rfl]
    norm_num
    exact ln10_pos
  · obtain ⟨m, h⟩ := exists_normalised hx
    rw [h.ln_eq hx hone]
    linarith [h.lnSeries_neg]

theorem lt_ln (hx : 0 < x) (hone : x ≠ 1) : (Int.log 10 x : ℝ) * ln10 < ln x := by
  obtain ⟨m, h⟩ := exists_normalised hx
  rw [h.ln_eq hx hone]
  push_cast
  linarith [h.neg_ln10_lt]

theorem le_ln (hx : 0 < x) : (Int.log 10 x : ℝ) * ln10 ≤ ln x := by
  by_cases hone : x = 1
  · rw [hone, Int.log_one_right, ln, if_pos rfl, Int.cast_zero, zero_mul]
  · exact (lt_ln hx hone).le

theorem ln_lt_ln (hx : 0 < x) (hxy : x < y) : ln x < ln y := by
  have hy := hx.trans hxy
  rcases (Int.log_mono_right hx hxy.le : Int.log 10 x ≤ Int.log 10 y).lt_or_eq with hlt | heq
  · have hdecade : ((Int.log 10 x + 1 : ℤ) : ℝ) ≤ Int.log 10 y := Int.cast_le.mpr hlt
    calc ln x < ((Int.log 10 x + 1 : ℤ) : ℝ) * ln10 := ln_lt hx
      _ ≤ (Int.log 10 y : ℝ) * ln10 := mul_le_mul_of_nonneg_right hdecade ln10_pos.le
      _ ≤ ln y := le_ln hy
  · obtain ⟨m, h⟩ := exists_normalised hx
    obtain ⟨m', h'⟩ := exists_normalised hy
    rw [← heq] at h'
    by_cases hone : x = 1
    · have hlt := lt_ln hy (by rw [← hone]; exact hxy.ne')
      rw [← heq, hone, Int.log_one_right, Int.cast_zero, zero_mul] at hlt
      rwa [hone, ln, if_pos rfl]
    · have hone' : y ≠ 1 := by
        rintro rfl
        rw [heq, Int.log_one_right] at h
        have hten : x = m * 10 := by simpa using h.mul_zpow.symm
        have hle := h.le_mantissa
        norm_num at hle
        linarith
      have hmantissa : m < m' := by
        have hpos : (0 : ℝ) < 10 ^ (Int.log 10 x + 1) := by positivity
        refine lt_of_mul_lt_mul_right ?_ hpos.le
        rw [h.mul_zpow, h'.mul_zpow]
        exact hxy
      rw [h.ln_eq hx hone, h'.ln_eq hy hone', lnSeriesAtZero_eq, lnSeriesAtZero_eq]
      have hsum := logSum_lt h'.rest_mem.1.le (sub_lt_sub_left hmantissa 1) (show 0 < 65 by norm_num)
      linarith

/-! ### The error -/

theorem Normalised.abs_lnSeries_sub_log (h : Normalised x m e) :
    Real.log m ≤ lnSeriesAtZero m ∧ lnSeriesAtZero m ≤ Real.log m + 1.45e-4 := by
  obtain ⟨hpos, hle⟩ := h.rest_mem
  have hlt : 1 - m < 1 := hle.trans_lt (by norm_num)
  have hlower := logSum_le hpos.le hlt 65
  have hupper := le_logSum_add hpos.le hlt 65
  have hrest : (1 - m) ^ (65 + 1) / ((65 : ℕ) + 1) * (1 - (1 - m))⁻¹ ≤ 1.45e-4 := by
    have hpow : (1 - m) ^ 66 ≤ 0.9 ^ 66 := pow_le_pow_left₀ hpos.le hle 66
    have hinv : (1 - (1 - m))⁻¹ ≤ 10 := by
      rw [sub_sub_cancel]
      refine inv_le_of_inv_le₀ (by norm_num) ?_
      have hm := h.le_mantissa
      norm_num at hm ⊢
      exact hm
    have hnonneg : 0 ≤ (1 - (1 - m))⁻¹ := by
      rw [inv_nonneg]
      linarith
    calc (1 - m) ^ (65 + 1) / ((65 : ℕ) + 1) * (1 - (1 - m))⁻¹
        ≤ 0.9 ^ 66 / ((65 : ℕ) + 1) * 10 := by gcongr
      _ ≤ 1.45e-4 := by norm_num
  rw [sub_sub_cancel] at hlower hupper
  rw [sub_sub_cancel] at hrest
  rw [lnSeriesAtZero_eq]
  constructor <;> linarith

theorem ln_mem_Icc (hmin : 1 / 2 ^ 1074 ≤ x) (hmax : x < 2 ^ 1024) :
    ln x ∈ Set.Icc (Real.log x - 3e-7) (Real.log x + 1.5e-4) := by
  have hx : 0 < x := lt_of_lt_of_le (by positivity) hmin
  by_cases hone : x = 1
  · rw [hone, ln, if_pos rfl, Real.log_one]
    constructor <;> norm_num
  · obtain ⟨m, h⟩ := exists_normalised hx
    obtain ⟨hlower, hupper⟩ := h.abs_lnSeries_sub_log
    obtain ⟨hexponent, hexponent'⟩ := h.exponent_double hmin hmax
    rw [h.ln_eq hx hone]
    generalize Int.log 10 x + 1 = e at h hexponent hexponent'
    have hm : 0 < m := lt_of_lt_of_le (by norm_num) h.le_mantissa
    have hlog : Real.log x = Real.log m + e * Real.log 10 := by
      rw [← h.mul_zpow, Real.log_mul hm.ne' (by positivity), Real.log_zpow]
    have hbound : |(e : ℝ)| ≤ 1074 := by
      rw [abs_le]
      constructor
      · exact_mod_cast hexponent.le
      · exact_mod_cast hexponent'.trans (by norm_num)
    have hproduct : |(e : ℝ) * (ln10 - Real.log 10)| ≤ 1074 * 2.1e-10 := by
      rw [abs_mul]
      exact mul_le_mul hbound abs_ln10_sub_log_le (abs_nonneg _) (by norm_num)
    obtain ⟨hproduct, hproduct'⟩ := abs_le.mp hproduct
    rw [hlog]
    norm_num at hproduct hproduct' ⊢
    constructor <;> linarith

end Value

/-! ### The program -/

theorem scale_mono {K : Type*} [Field K] [LinearOrder K] {turns turns' : ℕ} {x : K}
    {s : K × Int32} (hle : turns ≤ turns') (h : scale turns x = some s) :
    scale turns' x = some s := by
  obtain ⟨t, hdown, hup⟩ := Option.bind_eq_some_iff.mp h
  have hdown' : scaleDown turns' (x, (0 : Int32)) = some t := whileLoop_mono hle hdown
  rw [scale, hdown']
  exact whileLoop_mono hle hup

theorem apply_mono {K : Type*} [Field K] [LinearOrder K] {turns turns' : ℕ} {x y : Double K}
    (hle : turns ≤ turns') (h : apply turns x = some y) : apply turns' x = some y := by
  cases x with
  | nan => exact h
  | infinite positive => exact h
  | finite x =>
    rw [apply] at h ⊢
    split_ifs at h ⊢
    · exact h
    · exact h
    · exact h
    · obtain ⟨repr, hnew, rfl⟩ := Option.map_eq_some_iff.mp h
      obtain ⟨s, hscale, rfl⟩ := Option.map_eq_some_iff.mp hnew
      rw [DoubleRepresentation.new, scale_mono hle hscale]
      rfl

theorem exists_apply_eq_ln {x : ℝ} (hmin : 1 / 2 ^ 1074 ≤ x) (hmax : x < 2 ^ 1024) :
    ∃ turns, apply turns (.finite x) = some (.finite (ln x)) := by
  have hx : 0 < x := lt_of_lt_of_le (by positivity) hmin
  by_cases hone : x = 1
  · exact ⟨0, by rw [apply, if_neg hx.not_gt, if_neg hx.ne', if_pos hone, ln, if_pos hone]⟩
  · obtain ⟨turns, m, e, h, happly⟩ := exists_apply hx hone
    refine ⟨turns, ?_⟩
    rw [happly, h.toInt_exponent hmin hmax, h.ln_eq hx hone]

/-- The logarithms of positive numbers of the format `double` are in the order of the numbers, and
none is wrong by as much as two in ten thousand. -/
theorem apply_increasing {x y : ℝ} (hmin : 1 / 2 ^ 1074 ≤ x) (hxy : x < y) (hmax : y < 2 ^ 1024) :
    ∃ turns a b, apply turns (.finite x) = some (.finite a) ∧
      apply turns (.finite y) = some (.finite b) ∧ a < b ∧
      a ∈ Set.Icc (Real.log x - 3e-7) (Real.log x + 1.5e-4) ∧
      b ∈ Set.Icc (Real.log y - 3e-7) (Real.log y + 1.5e-4) := by
  have hx : 0 < x := lt_of_lt_of_le (by positivity) hmin
  obtain ⟨turns, happly⟩ := exists_apply_eq_ln hmin (hxy.trans hmax)
  obtain ⟨turns', happly'⟩ := exists_apply_eq_ln (hmin.trans hxy.le) hmax
  exact ⟨max turns turns', ln x, ln y, apply_mono (le_max_left _ _) happly,
    apply_mono (le_max_right _ _) happly', ln_lt_ln hx hxy, ln_mem_Icc hmin (hxy.trans hmax),
    ln_mem_Icc (hmin.trans hxy.le) hmax⟩

theorem apply_increasing_nine_ten :
    ∃ turns a b, apply turns (.finite 9) = some (.finite a) ∧
      apply turns (.finite 10) = some (.finite b) ∧ a < b ∧
      a ∈ Set.Icc (Real.log 9 - 3e-7) (Real.log 9 + 1.5e-4) ∧
      b ∈ Set.Icc (Real.log 10 - 3e-7) (Real.log 10 + 1.5e-4) := by
  refine apply_increasing ?_ (by norm_num) ?_
  · exact (div_le_one (by positivity)).mpr (one_le_pow₀ one_le_two) |>.trans (by norm_num)
  · calc (10 : ℝ) < 2 ^ 4 := by norm_num
      _ ≤ 2 ^ 1024 := pow_le_pow_right₀ one_le_two (by norm_num)

end Itmo.SoftwareTesting.Ln
