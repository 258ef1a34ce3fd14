import Itmo.SoftwareTesting.Sin
import Mathlib.Analysis.Real.Pi.Bounds
import Mathlib.Analysis.Complex.Trigonometric

/-! How close the trigonometric functions of `software_testing` come in exact arithmetic. The
series is that of the sine about the eighth of a turn, up to the tenth power, and half of the
length of the first quarter is the most it is away from there. The rational half turn moves the
argument by a part of each of the quarters that are taken off, of which an `int` counts less
than `2 ^ 31`. -/

namespace Itmo.SoftwareTesting

open Lib Finset

namespace Sin

/-! ### The series -/

/-- The signs of the powers in the sum of the sine and the cosine. -/
def seriesSign (m : ℕ) : ℝ := if m / 2 % 2 = 0 then 1 else -1

noncomputable def partialSum (t : ℝ) (n : ℕ) : ℝ :=
  ∑ m ∈ range n, seriesSign m * t ^ m / m.factorial

/-- The element of `pows` for a power. -/
def triplet (i : ℕ) : PowTriplet :=
  ⟨Int32.ofNat i, if i / 2 % 2 = 0 then 1 else -1, Pow.new (Int32.ofNat i)⟩

theorem toInt_sign (i : ℕ) : (((triplet i).sign.toInt : ℤ) : ℝ) = seriesSign i := by
  unfold triplet seriesSign
  dsimp only
  split_ifs
  · exact Int.cast_one
  · exact (Int.cast_neg 1).trans (congrArg _ Int.cast_one)

theorem apply_triplet {i : ℕ} (hi : i < 2 ^ 31) (t : ℝ) : (triplet i).pow.apply t = t ^ i := by
  have htoInt : (Int32.ofNat i).toInt = i := Int32.toInt_ofNat_of_lt hi
  have hne : Int32.ofNat i ≠ Int32.minValue := by
    intro heq
    rw [heq] at htoInt
    have hmin : Int32.minValue.toInt = -2 ^ 31 := by decide
    omega
  unfold triplet
  dsimp only
  rw [Pow.apply_new hne, htoInt, zpow_natCast]

/-- After each power its factorial is the divider, as long as an `int` holds it. -/
theorem foldl_triplets (t : ℝ) {n : ℕ} (hn : n ≤ 13) :
    ((List.range n).map triplet).foldl (addTerm t) (1, 0) =
      (Int32.ofNat (n - 1).factorial, oneDivSqrtTwo * partialSum t n) := by
  induction n with
  | zero => simp [partialSum]
  | succ n ih =>
    have hfactorial : n.factorial < 2 ^ 31 := by
      have hle := Nat.factorial_le (show n ≤ 12 by omega)
      have htwelve : Nat.factorial 12 = 479001600 := by decide
      omega
    have hdivider : (if (triplet n).power ≠ 0 then
        Int32.ofNat (n - 1).factorial * (triplet n).power else Int32.ofNat (n - 1).factorial) =
        Int32.ofNat n.factorial := by
      cases n with
      | zero => rfl
      | succ n =>
        have hpower : (triplet (n + 1)).power ≠ 0 := by
          intro heq
          have htoInt : (Int32.ofNat (n + 1)).toInt = (n + 1 : ℕ) :=
            Int32.toInt_ofNat_of_lt (by omega)
          have hzero : (Int32.ofNat (n + 1)).toInt = 0 := congrArg Int32.toInt heq
          omega
        rw [if_pos hpower, Nat.factorial_succ, mul_comm (n + 1), Int32.ofNat_mul]
        rfl
    rw [List.range_succ, List.map_append, List.foldl_append, ih (by omega)]
    show addTerm t _ (triplet n) = _
    unfold addTerm
    dsimp only
    rw [hdivider, toInt_sign, apply_triplet (by omega), Int32.toInt_ofNat_of_lt hfactorial,
      Nat.add_sub_cancel, partialSum, partialSum, sum_range_succ, Int.cast_natCast]
    refine Prod.ext rfl ?_
    dsimp only
    ring

theorem I_pow_re_add_im (m : ℕ) : (Complex.I ^ m).re + (Complex.I ^ m).im = seriesSign m := by
  have hmod : Complex.I ^ m = Complex.I ^ (m % 4) := Complex.I_pow_eq_pow_mod m
  have hsign : seriesSign m = seriesSign (m % 4) := by
    unfold seriesSign
    congr 2
    omega
  rw [hmod, hsign]
  obtain h | h | h | h : m % 4 = 0 ∨ m % 4 = 1 ∨ m % 4 = 2 ∨ m % 4 = 3 := by omega
  all_goals
    rw [h]
    simp [seriesSign, pow_succ]

/-- The sum comes within twice the bound of the exponential series. -/
theorem abs_partialSum_sub_le {t : ℝ} (ht : |t| ≤ 1) {n : ℕ} (hn : 0 < n) :
    |partialSum t n - (Real.cos t + Real.sin t)| ≤
      2 * (|t| ^ n * (n.succ * (n.factorial * n : ℝ)⁻¹)) := by
  have hnorm : ‖(t : ℂ) * Complex.I‖ = |t| := by
    rw [norm_mul, Complex.norm_I, mul_one, Complex.norm_real, Real.norm_eq_abs]
  have hbound := Complex.exp_bound (hnorm.trans_le ht) hn
  rw [hnorm] at hbound
  generalize hz : Complex.exp (t * Complex.I) -
    ∑ m ∈ range n, (t * Complex.I) ^ m / m.factorial = z at hbound
  have hterm : ∀ m : ℕ, ((t : ℂ) * Complex.I) ^ m / m.factorial =
      ((t ^ m / m.factorial : ℝ) : ℂ) * Complex.I ^ m := by
    intro m
    push_cast
    rw [mul_pow]
    ring
  have hsum : partialSum t n - (Real.cos t + Real.sin t) = -(z.re + z.im) := by
    have hseries : partialSum t n = ∑ m ∈ range n, (t ^ m / m.factorial * (Complex.I ^ m).re) +
        ∑ m ∈ range n, (t ^ m / m.factorial * (Complex.I ^ m).im) := by
      rw [← sum_add_distrib, partialSum]
      refine sum_congr rfl fun m _ => ?_
      rw [← mul_add, I_pow_re_add_im]
      ring
    rw [hseries, ← hz, Complex.sub_re, Complex.sub_im, Complex.exp_ofReal_mul_I_re,
      Complex.exp_ofReal_mul_I_im, Complex.re_sum, Complex.im_sum]
    simp only [hterm, Complex.re_ofReal_mul, Complex.im_ofReal_mul]
    ring
  have hre := Complex.abs_re_le_norm z
  have him := Complex.abs_im_le_norm z
  rw [hsum, abs_neg]
  calc |z.re + z.im| ≤ |z.re| + |z.im| := abs_add_le _ _
    _ ≤ 2 * ‖z‖ := by linarith
    _ ≤ _ := by linarith

/-! ### The constants -/

/-- The half turn of the program, among the real numbers. -/
noncomputable def PI : ℝ := (Constants.PI : ℚ)

theorem abs_PI_sub_pi_le : |PI - Real.pi| ≤ 1e-20 := by
  have hlower := Real.pi_gt_d20
  have hupper := Real.pi_lt_d20
  have hPI : PI = 3.1415926535897932384626433832795028841971693993751058209749445923 := by
    unfold PI Constants.PI
    norm_num
  rw [hPI, abs_le]
  constructor <;> linarith

theorem PI_pos : 0 < PI := by
  have h := abs_le.mp abs_PI_sub_pi_le
  linarith [Real.pi_gt_three]

theorem PI_lt : PI < 3.1416 := by
  have h := abs_le.mp abs_PI_sub_pi_le
  linarith [Real.pi_lt_d20]

theorem abs_oneDivSqrtTwo_sub_le : |(oneDivSqrtTwo : ℝ) - √2 / 2| ≤ 1e-20 := by
  have hsq : √2 ^ 2 = 2 := Real.sq_sqrt zero_le_two
  have hpos := Real.sqrt_nonneg (2 : ℝ)
  have hlower : 1.41421356237309504880168 ≤ √2 := Real.le_sqrt_of_sq_le (by norm_num)
  have hupper : √2 ≤ 1.41421356237309504880169 :=
    Real.sqrt_le_iff.mpr ⟨by norm_num, by norm_num⟩
  unfold oneDivSqrtTwo
  rw [abs_le]
  constructor <;> linarith

/-! ### The sine -/

/-- The sine of an angle about the eighth of a turn. -/
theorem sin_eighth_add (t : ℝ) :
    Real.sin (Real.pi / 4 + t) = √2 / 2 * (Real.cos t + Real.sin t) := by
  rw [Real.sin_add, Real.sin_pi_div_four, Real.cos_pi_div_four]
  ring

theorem sinPart_eq {a : ℝ} (ha : a ∈ Set.Icc 0 (PI / 2)) :
    sinPart PI a = .ok (oneDivSqrtTwo * partialSum (a - PI / 4) 11) := by
  have hpows : pows = (List.range 11).map triplet := rfl
  have hrange : ¬ (a < 0 ∨ PI / (2 : ℕ) < a) := by
    rw [Nat.cast_ofNat, not_or, not_lt, not_lt]
    exact ha
  rw [sinPart, if_neg hrange, hpows, foldl_triplets _ (by norm_num), Nat.cast_ofNat]

theorem abs_sinPart_sub_le {a : ℝ} (ha : a ∈ Set.Icc 0 (PI / 2)) :
    |oneDivSqrtTwo * partialSum (a - PI / 4) 11 - Real.sin a| ≤ 2.8e-9 := by
  have hshift : |a - PI / 4| ≤ 0.7854 := by
    have hPI := PI_lt
    rw [abs_le]
    constructor <;> linarith [ha.1, ha.2]
  generalize ht : a - PI / 4 = t at hshift
  have hseries := abs_partialSum_sub_le (hshift.trans (by norm_num)) (show 0 < 11 by norm_num)
  have hpow : |t| ^ 11 ≤ 0.7854 ^ 11 := pow_le_pow_left₀ (abs_nonneg t) hshift 11
  have hfactorial : (Nat.factorial 11 : ℝ) = 39916800 := by
    rw [show Nat.factorial 11 = 39916800 by decide]
    norm_num
  rw [hfactorial] at hseries
  have hsmall : |partialSum t 11 - (Real.cos t + Real.sin t)| ≤ 3.9e-9 := by
    refine hseries.trans ?_
    norm_num at hpow ⊢
    linarith
  have hmove : |Real.sin (Real.pi / 4 + t) - Real.sin a| ≤ 1e-20 := by
    refine (Real.abs_sin_sub_sin_le _ _).trans ?_
    have hdistance : Real.pi / 4 + t - a = -(PI - Real.pi) / 4 := by
      rw [← ht]
      ring
    rw [hdistance, abs_div, abs_neg, abs_of_pos (show (0 : ℝ) < 4 by norm_num)]
    linarith [abs_PI_sub_pi_le, abs_nonneg (PI - Real.pi)]
  have hconstant := abs_oneDivSqrtTwo_sub_le
  have hroot : √2 / 2 ≤ 0.7072 := by
    have hupper : √2 ≤ 1.4144 := Real.sqrt_le_iff.mpr ⟨by norm_num, by norm_num⟩
    linarith
  have hsum : |Real.cos t + Real.sin t| ≤ 2 :=
    (abs_add_le _ _).trans (by linarith [Real.abs_cos_le_one t, Real.abs_sin_le_one t])
  have hpartial : |partialSum t 11| ≤ 3 := by
    have htriangle := abs_sub_abs_le_abs_sub (partialSum t 11) (Real.cos t + Real.sin t)
    linarith
  have hsplit : oneDivSqrtTwo * partialSum t 11 - Real.sin a =
      (oneDivSqrtTwo - √2 / 2) * partialSum t 11 +
        √2 / 2 * (partialSum t 11 - (Real.cos t + Real.sin t)) +
        (Real.sin (Real.pi / 4 + t) - Real.sin a) := by
    rw [sin_eighth_add]
    ring
  have hfirst : |(oneDivSqrtTwo - √2 / 2) * partialSum t 11| ≤ 1e-20 * 3 := by
    rw [abs_mul]
    exact mul_le_mul hconstant hpartial (abs_nonneg _) (by norm_num)
  have hsecond : |√2 / 2 * (partialSum t 11 - (Real.cos t + Real.sin t))| ≤ 0.7072 * 3.9e-9 := by
    rw [abs_mul, abs_of_nonneg (show 0 ≤ √2 / 2 by positivity)]
    exact mul_le_mul hroot hsmall (abs_nonneg _) (by norm_num)
  rw [hsplit]
  refine (abs_add_three _ _ _).trans ?_
  norm_num at hfirst hsecond hmove ⊢
  linarith

/-- Taking off quarters of the rational turn moves the angle by a part of each of them. -/
theorem abs_factor_mul_sub_le (x : ℝ) :
    |factor PI x * Real.sin (argument PI x) - Real.sin x| ≤ 2e-11 := by
  have hclose := abs_PI_sub_pi_le
  have hn := index_nonneg PI_pos (abs_nonneg x)
  have hn' : (index PI |x|).toInt < 2 ^ 31 := Int32.toInt_lt _
  unfold factor argument
  generalize (index PI |x|).toInt = n at hn hn'
  have hcast : (n : ℝ) ≤ 2 ^ 31 := by exact_mod_cast hn'.le
  have hcast' : (0 : ℝ) ≤ n := by exact_mod_cast hn
  dsimp only
  generalize hrest : |x| - (n : ℝ) * PI / (2 : ℕ) = rest
  rw [Nat.cast_ofNat] at hrest ⊢
  have hsign : Real.sin x = (if 0 ≤ x then 1 else -1) * Real.sin |x| := by
    split_ifs with h
    · rw [abs_of_nonneg h, one_mul]
    · rw [abs_of_neg (not_le.mp h), Real.sin_neg, neg_one_mul, neg_neg]
  have hturns : |Real.sin (rest + n * Real.pi / 2) - Real.sin (|x|)| ≤ 1.1e-11 := by
    refine (Real.abs_sin_sub_sin_le _ _).trans ?_
    have hdistance : rest + n * Real.pi / 2 - |x| = -(n * (PI - Real.pi) / 2) := by
      rw [← hrest]
      ring
    rw [hdistance, abs_neg, abs_div, abs_mul, abs_of_nonneg hcast',
      abs_of_pos (show (0 : ℝ) < 2 by norm_num)]
    have hproduct : (n : ℝ) * |PI - Real.pi| ≤ 2 ^ 31 * 1e-20 :=
      mul_le_mul hcast hclose (abs_nonneg _) (by norm_num)
    norm_num at hproduct ⊢
    linarith
  have hquarter : |Real.sin (if n % 2 = 0 then rest else PI / 2 - rest) -
      Real.sin (if n % 2 = 0 then rest else Real.pi / 2 - rest)| ≤ 1e-20 := by
    split_ifs
    · rw [sub_self, abs_zero]
      norm_num
    · refine (Real.abs_sin_sub_sin_le _ _).trans ?_
      have hdistance : PI / 2 - rest - (Real.pi / 2 - rest) = (PI - Real.pi) / 2 := by ring
      rw [hdistance, abs_div, abs_of_pos (show (0 : ℝ) < 2 by norm_num)]
      linarith [abs_nonneg (PI - Real.pi)]
  rw [sin_add_quarters] at hturns
  have hunit : ∀ p : Prop, [Decidable p] → |(if p then 1 else -1 : ℝ)| = 1 := by
    intro p _
    split_ifs <;> norm_num
  have hsplit : (if 0 ≤ x then 1 else -1) * (if n % 4 < 2 then 1 else -1) *
      Real.sin (if n % 2 = 0 then rest else PI / 2 - rest) - Real.sin x =
      (if 0 ≤ x then 1 else -1) * ((if n % 4 < 2 then 1 else -1) *
        (Real.sin (if n % 2 = 0 then rest else PI / 2 - rest) -
          Real.sin (if n % 2 = 0 then rest else Real.pi / 2 - rest))) +
      (if 0 ≤ x then 1 else -1) * ((if n % 4 < 2 then 1 else -1) *
        Real.sin (if n % 2 = 0 then rest else Real.pi / 2 - rest) - Real.sin |x|) := by
    rw [hsign]
    ring
  rw [hsplit]
  refine (abs_add_le _ _).trans ?_
  rw [abs_mul, abs_mul, abs_mul, hunit, hunit, one_mul, one_mul, one_mul]
  norm_num at hturns hquarter ⊢
  linarith

theorem exists_apply {x : ℝ} (hx : |x| ≤ 2 ^ 30 * PI) :
    ∃ y, apply PI (.finite x) = .ok (.finite y) ∧ |y - Real.sin x| ≤ 2.9e-9 := by
  by_cases hzero : x = 0
  · refine ⟨x, by rw [apply, if_pos hzero], ?_⟩
    rw [hzero, Real.sin_zero, sub_zero, abs_zero]
    norm_num
  · have hmem := (argument_mem_iff PI_pos).mpr hx
    refine ⟨_, by rw [apply_eq PI_pos hzero, sinPart_eq hmem]; rfl, ?_⟩
    have hpart := abs_sinPart_sub_le hmem
    have hturns := abs_factor_mul_sub_le x
    have hfactor : |factor PI x| = 1 := by
      unfold factor
      rw [abs_mul]
      split_ifs <;> norm_num
    generalize oneDivSqrtTwo * partialSum (argument PI x - PI / 4) 11 = part at hpart
    have hsplit : factor PI x * part - Real.sin x =
        factor PI x * (part - Real.sin (argument PI x)) +
          (factor PI x * Real.sin (argument PI x) - Real.sin x) := by ring
    rw [hsplit]
    refine (abs_add_le _ _).trans ?_
    rw [abs_mul, hfactor, one_mul]
    norm_num at hpart hturns ⊢
    linarith

end Sin

end Itmo.SoftwareTesting
