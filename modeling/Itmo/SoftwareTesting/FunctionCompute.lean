import Itmo.SoftwareTesting.Logarithm
import Itmo.SoftwareTesting.Trigonometry
import Mathlib.Analysis.SpecialFunctions.Log.Base

/-! The function that `software_testing` is about, which goes step by step through the trigonometric
functions up to zero and through the logarithms after it. Up to zero the steps come to an infinity
next to every quarter turn and to no NaN; after zero they come to NaN at one, where the logarithms
are divided by one another. -/

namespace Itmo.SoftwareTesting

open Lib

section Definitions

variable {K : Type*} [Field K]

def Constants.EPSILON : K := 0.00001

variable [LinearOrder K]

/-- `Pow` on the values that are no numbers too. -/
def Pow.applyDouble (pow : Pow) (x : Double K) : Double K :=
  let ans := (fun ans : Double K => ans * x)^[pow.n.toInt.toNat] (.finite 1)
  if pow.isRev then .finite 1 / ans else ans

def Log.apply (turns : ℕ) (n : K) (x : Double K) : Option (Double K) :=
  if x.eq (.finite 0) then some (.infinite false)
  else if x.lt (.finite 0) ∨ n ≤ 0 then some .nan
  else if n = 1 then some (.infinite true)
  else do
    let numerator ← Ln.apply turns x
    let denominator ← Ln.apply turns (.finite n)
    return numerator / denominator

/-- `Sec` and `Cosec`: one by another function, away from its zeros. -/
def reciprocal {ε : Type*} (f : Double K → Except ε (Double K)) :
    Double K → Except ε (Double K)
  | .nan | .infinite _ => .ok .nan
  | .finite x => do
    let y ← f (.finite x)
    if y.abs.lt (.finite Constants.EPSILON) then return .infinite true
    else do
      let y ← f (.finite x)
      return .finite 1 / y

variable [FloorRing K] (PI : K)

def Cos.apply (x : Double K) : Except (Sin.Thrown K) (Double K) :=
  if x.eq (.finite 0) then .ok (.finite 1) else Sin.apply PI (x + .finite (PI / (2 : ℕ)))

def Sec.apply : Double K → Except (Sin.Thrown K) (Double K) := reciprocal (Cos.apply PI)

def Cosec.apply : Double K → Except (Sin.Thrown K) (Double K) := reciprocal (Sin.apply PI)

def Tg.apply : Double K → Except (Sin.Thrown K) (Double K)
  | .nan | .infinite _ => .ok .nan
  | .finite x =>
    if x = 0 then .ok (.finite x)
    else do
      let cos ← Cos.apply PI (.finite x)
      if cos.abs.lt (.finite Constants.EPSILON) then return .infinite true
      else do
        let sin ← Sin.apply PI (.finite x)
        let cos ← Cos.apply PI (.finite x)
        return sin / cos

/-- A call that may throw, or run out of turns. -/
abbrev Call (K : Type*) := ExceptT (Sin.Thrown K) Option

structure FunctionCompute (K : Type*) where
  pow3 : Double K → Call K (Double K)
  tg : Double K → Call K (Double K)
  cosec : Double K → Call K (Double K)
  sec : Double K → Call K (Double K)
  ln : Double K → Call K (Double K)
  log3 : Double K → Call K (Double K)
  log5 : Double K → Call K (Double K)

namespace FunctionCompute

def apply (f : FunctionCompute K) (x : Double K) : Call K (Double K) :=
  if x.le (.finite 0) then do
    let tgRes ← f.tg x
    let cosecRes ← f.cosec x
    let secRes ← f.sec x
    let s1 := tgRes - cosecRes
    return s1 * secRes
  else do
    let lnRes ← f.ln x
    let log3Res ← f.log3 x
    let log5Res ← f.log5 x
    let rel := log5Res / lnRes
    let s2 := rel + log3Res
    let p1 ← f.pow3 (s2 / log3Res)
    return p1 + log3Res + -rel

/-- The function as its tests build it. -/
def function (turns : ℕ) : FunctionCompute K where
  pow3 x := pure ((Pow.new 3).applyDouble x)
  tg x := ExceptT.mk (some (Tg.apply PI x))
  cosec x := ExceptT.mk (some (Cosec.apply PI x))
  sec x := ExceptT.mk (some (Sec.apply PI x))
  ln x := ExceptT.lift (Ln.apply turns x)
  log3 x := ExceptT.lift (Log.apply turns (3 : ℕ) x)
  log5 x := ExceptT.lift (Log.apply turns (5 : ℕ) x)

end FunctionCompute

end Definitions

/-! ### The trigonometric functions -/

section Quotients

variable {K : Type*} [Field K] [LinearOrder K]

/-- A quotient by a value that counts as zero below `EPSILON`. -/
def quotient (a b : K) : Double K :=
  if |b| < Constants.EPSILON then .infinite true else .finite (a / b)

variable [IsStrictOrderedRing K]

theorem EPSILON_pos : (0 : K) < Constants.EPSILON := by
  rw [Constants.EPSILON]
  norm_num

theorem ne_zero_of_not_lt {b : K} (h : ¬ |b| < Constants.EPSILON) : b ≠ 0 := by
  rintro rfl
  rw [abs_zero] at h
  exact h EPSILON_pos

theorem guarded_eq {ε : Type*} (a b : K) :
    (if (Double.finite b).abs.lt (.finite Constants.EPSILON) then .ok (.infinite true)
      else .ok (.finite a / .finite b) : Except ε (Double K)) = .ok (quotient a b) := by
  rw [Double.abs_finite, Double.lt_finite, quotient]
  by_cases hb : |b| < Constants.EPSILON
  · rw [if_pos (decide_eq_true hb), if_pos hb]
  · rw [if_neg (by rw [decide_eq_true_eq]; exact hb), if_neg hb,
      Double.finite_div_finite (ne_zero_of_not_lt hb)]

theorem reciprocal_of_ok {ε : Type*} {f : Double K → Except ε (Double K)} {x y : K}
    (h : f (.finite x) = .ok (.finite y)) : reciprocal f (.finite x) = .ok (quotient 1 y) := by
  rw [reciprocal, h]
  exact guarded_eq 1 y

variable [FloorRing K]

theorem Tg.apply_of_ok {PI x s c : K} (hs : Sin.apply PI (.finite x) = .ok (.finite s))
    (hc : Cos.apply PI (.finite x) = .ok (.finite c)) :
    Tg.apply PI (.finite x) = .ok (quotient s c) := by
  by_cases hx : x = 0
  · rw [Sin.apply, if_pos hx] at hs
    rw [Cos.apply, Double.eq_finite, if_pos (decide_eq_true hx)] at hc
    cases hs
    cases hc
    have hone : ¬ |(1 : K)| < Constants.EPSILON := by
      rw [abs_one, Constants.EPSILON]
      norm_num
    rw [Tg.apply, if_pos hx, quotient, if_neg hone, div_one]
  · rw [Tg.apply, if_neg hx, hc, hs]
    exact guarded_eq s c

namespace FunctionCompute

theorem function_of_ok {PI x s c : K} (hx : x ≤ 0)
    (hs : Sin.apply PI (.finite x) = .ok (.finite s))
    (hc : Cos.apply PI (.finite x) = .ok (.finite c)) (turns : ℕ) :
    (function PI turns).apply (.finite x) =
      some (.ok ((quotient s c - quotient 1 s) * quotient 1 c)) := by
  have htg : Tg.apply PI (.finite x) = .ok (quotient s c) := Tg.apply_of_ok hs hc
  have hcosec : Cosec.apply PI (.finite x) = .ok (quotient 1 s) := reciprocal_of_ok hs
  have hsec : Sec.apply PI (.finite x) = .ok (quotient 1 c) := reciprocal_of_ok hc
  rw [apply, Double.le_finite, if_pos (decide_eq_true hx)]
  simp only [function, htg, hcosec, hsec]
  rfl

end FunctionCompute

end Quotients

/-! ### Up to zero -/

theorem Cos.exists_apply {x : ℝ} (hx : |x + Sin.PI / 2| ≤ 2 ^ 30 * Sin.PI) :
    ∃ y, Cos.apply Sin.PI (.finite x) = .ok (.finite y) ∧ |y - Real.cos x| ≤ 3e-9 := by
  rw [Cos.apply, Double.eq_finite, Double.finite_add_finite, Nat.cast_ofNat]
  by_cases hzero : x = 0
  · refine ⟨1, if_pos (decide_eq_true hzero), ?_⟩
    rw [hzero, Real.cos_zero, sub_self, abs_zero]
    norm_num
  · obtain ⟨y, happly, hy⟩ := Sin.exists_apply hx
    refine ⟨y, by rw [if_neg (by rw [decide_eq_true_eq]; exact hzero), happly], ?_⟩
    have hmove : |Real.sin (x + Sin.PI / 2) - Real.cos x| ≤ 1e-20 := by
      rw [← Real.sin_add_pi_div_two]
      refine (Real.abs_sin_sub_sin_le _ _).trans ?_
      have hdistance : x + Sin.PI / 2 - (x + Real.pi / 2) = (Sin.PI - Real.pi) / 2 := by ring
      rw [hdistance, abs_div, abs_of_pos (show (0 : ℝ) < 2 by norm_num)]
      linarith [Sin.abs_PI_sub_pi_le, abs_nonneg (Sin.PI - Real.pi)]
    refine (abs_sub_le y _ _).trans ((add_le_add hy hmove).trans ?_)
    norm_num

/-- What a small relative error in each of two factors does to quotients of them. -/
theorem abs_factors_sub_one_le {e f : ℝ} (he : |e| ≤ 3e-4) (hf : |f| ≤ 3e-4) :
    |(1 + e) / (1 + f) ^ 2 - 1| ≤ 3 * (|e| + |f|) ∧
      |1 / ((1 + e) * (1 + f)) - 1| ≤ 3 * (|e| + |f|) := by
  obtain ⟨he₁, he₂⟩ := abs_le.mp he
  obtain ⟨hf₁, hf₂⟩ := abs_le.mp hf
  norm_num at he he₁ hf hf₁
  have hproduct : |e * f| ≤ 0.001 * |f| := by
    rw [abs_mul]
    exact mul_le_mul_of_nonneg_right (he.trans (by norm_num)) (abs_nonneg f)
  have hsquare : |f ^ 2| ≤ 0.001 * |f| := by
    rw [sq, abs_mul]
    exact mul_le_mul_of_nonneg_right (hf.trans (by norm_num)) (abs_nonneg f)
  have hdivider : 0.99 ≤ (1 + f) ^ 2 := by nlinarith
  have hdivider' : 0.99 ≤ (1 + e) * (1 + f) := by nlinarith
  have hnonneg : 0 ≤ |e| + |f| := by positivity
  constructor
  · have hquotient : (1 + e) / (1 + f) ^ 2 - 1 = (e - 2 * f - f ^ 2) / (1 + f) ^ 2 := by
      rw [div_sub_one (by linarith)]
      ring
    have hnumerator : |e - 2 * f - f ^ 2| ≤ |e| + 2 * |f| + 0.001 * |f| := by
      refine (abs_sub _ _).trans (add_le_add ((abs_sub _ _).trans ?_) hsquare)
      rw [abs_mul, abs_two]
    rw [hquotient, abs_div, abs_of_pos (show 0 < (1 + f) ^ 2 by linarith),
      div_le_iff₀ (by linarith)]
    nlinarith [abs_nonneg e, abs_nonneg f]
  · have hquotient : 1 / ((1 + e) * (1 + f)) - 1 = -(e + f + e * f) / ((1 + e) * (1 + f)) := by
      rw [div_sub_one (by linarith)]
      ring
    have hnumerator : |e + f + e * f| ≤ |e| + |f| + 0.001 * |f| :=
      (abs_add_le _ _).trans (add_le_add (abs_add_le _ _) hproduct)
    rw [hquotient, abs_div, abs_neg, abs_of_pos (show 0 < (1 + e) * (1 + f) by linarith),
      div_le_iff₀ (by linarith)]
    nlinarith [abs_nonneg e, abs_nonneg f]

theorem abs_relative_le {a a' : ℝ} (h : |a' - a| ≤ 3e-9) (ha : 1.0003e-5 ≤ |a|) :
    |(a' - a) / a| ≤ 3e-9 * (1 / |a|) ∧ |(a' - a) / a| ≤ 3e-4 := by
  have hpos : 0 < |a| := lt_of_lt_of_le (by norm_num) ha
  rw [abs_div]
  constructor
  · rw [mul_one_div]
    exact div_le_div_of_nonneg_right h hpos.le
  · rw [div_le_iff₀ hpos]
    norm_num at h ha ⊢
    linarith

/-- Away from the zeros of both, sine and cosine may be replaced by close values. -/
theorem abs_trigonometric_sub_le {s c s' c' : ℝ} (hs : |s' - s| ≤ 3e-9) (hc : |c' - c| ≤ 3e-9)
    (hs₁ : 1.0003e-5 ≤ |s|) (hc₁ : 1.0003e-5 ≤ |c|) :
    |(s' / c' - 1 / s') * (1 / c') - (s / c - 1 / s) / c| ≤
      1e-8 * (1 / |s| + 1 / |c|) * (|s| / c ^ 2 + 1 / |s * c|) := by
  have hs₀ : 0 < |s| := lt_of_lt_of_le (by norm_num) hs₁
  have hc₀ : 0 < |c| := lt_of_lt_of_le (by norm_num) hc₁
  have hs_ne := abs_pos.mp hs₀
  have hc_ne := abs_pos.mp hc₀
  obtain ⟨he, he'⟩ := abs_relative_le hs hs₁
  obtain ⟨hf, hf'⟩ := abs_relative_le hc hc₁
  have hs' : s' = s * (1 + (s' - s) / s) := by
    field_simp
    ring
  have hc' : c' = c * (1 + (c' - c) / c) := by
    field_simp
    ring
  generalize (s' - s) / s = e at he he' hs'
  generalize (c' - c) / c = f at hf hf' hc'
  obtain ⟨hfirst, hsecond⟩ := abs_factors_sub_one_le he' hf'
  have he_ne : 1 + e ≠ 0 := by
    have := abs_le.mp he'
    norm_num at this
    linarith
  have hf_ne : 1 + f ≠ 0 := by
    have := abs_le.mp hf'
    norm_num at this
    linarith
  have hsplit : (s' / c' - 1 / s') * (1 / c') - (s / c - 1 / s) / c =
      s / c ^ 2 * ((1 + e) / (1 + f) ^ 2 - 1) -
        1 / (s * c) * (1 / ((1 + e) * (1 + f)) - 1) := by
    rw [hs', hc']
    field_simp
    ring
  have herror : 3 * (|e| + |f|) ≤ 1e-8 * (1 / |s| + 1 / |c|) := by
    have hinv : 0 < |s|⁻¹ := inv_pos.mpr hs₀
    have hinv' : 0 < |c|⁻¹ := inv_pos.mpr hc₀
    norm_num at he hf ⊢
    linarith
  rw [hsplit]
  refine (abs_sub _ _).trans ?_
  rw [abs_mul, abs_mul, abs_div, abs_div, abs_one, abs_of_nonneg (sq_nonneg c)]
  calc |s| / c ^ 2 * |(1 + e) / (1 + f) ^ 2 - 1| + 1 / |s * c| * |1 / ((1 + e) * (1 + f)) - 1|
      ≤ |s| / c ^ 2 * (3 * (|e| + |f|)) + 1 / |s * c| * (3 * (|e| + |f|)) := by gcongr
    _ = 3 * (|e| + |f|) * (|s| / c ^ 2 + 1 / |s * c|) := by ring
    _ ≤ _ := by gcongr

namespace FunctionCompute

/-- What the program has for the function at a point up to zero. -/
structure Trigonometric (x : ℝ) (y : Double ℝ) : Prop where
  ne_nan : y ≠ .nan
  at_cos_zero : |Real.cos x| < 9.997e-6 → y = .infinite true
  at_sin_zero : |Real.sin x| < 9.997e-6 → y = .infinite (decide (Real.cos x < 0))
  elsewhere : 1.0003e-5 ≤ |Real.cos x| → 1.0003e-5 ≤ |Real.sin x| → ∃ v, y = .finite v ∧
    |v - (Real.sin x / Real.cos x - 1 / Real.sin x) / Real.cos x| ≤
      1e-8 * (1 / |Real.sin x| + 1 / |Real.cos x|) *
        (|Real.sin x| / Real.cos x ^ 2 + 1 / |Real.sin x * Real.cos x|)

theorem quotients_trigonometric {x s c : ℝ} (hs : |s - Real.sin x| ≤ 3e-9)
    (hc : |c - Real.cos x| ≤ 3e-9) :
    Trigonometric x ((quotient s c - quotient 1 s) * quotient 1 c) := by
  have hEPSILON : Constants.EPSILON = (1e-5 : ℝ) := by rw [Constants.EPSILON]
  have hsin := abs_le.mp ((abs_abs_sub_abs_le s (Real.sin x)).trans hs)
  have hcos := abs_le.mp ((abs_abs_sub_abs_le c (Real.cos x)).trans hc)
  have hsum : 1 ≤ |Real.sin x| + |Real.cos x| := by
    have hsquares := Real.sin_sq_add_cos_sq x
    rw [← sq_abs (Real.sin x), ← sq_abs (Real.cos x)] at hsquares
    nlinarith [abs_nonneg (Real.sin x), abs_nonneg (Real.cos x)]
  norm_num at hsin hcos
  by_cases hc₀ : |c| < Constants.EPSILON
  · -- next to a zero of the cosine
    have hs₀ : ¬ |s| < Constants.EPSILON := by
      rw [hEPSILON] at hc₀ ⊢
      norm_num at hc₀ ⊢
      linarith
    have hvalue : (quotient s c - quotient 1 s) * quotient 1 c = .infinite true := by
      rw [quotient, quotient, quotient, if_pos hc₀, if_neg hs₀, if_pos hc₀,
        Double.infinite_sub_finite, Double.infinite_mul_infinite]
      rfl
    rw [hvalue]
    rw [hEPSILON] at hc₀
    refine ⟨nofun, fun _ => rfl, fun h => ?_, fun h => ?_⟩
    · norm_num at h hc₀
      linarith
    · norm_num at h hc₀
      linarith
  have hc_ne := ne_zero_of_not_lt hc₀
  by_cases hs₀ : |s| < Constants.EPSILON
  · -- next to a zero of the sine
    have hcosecant : quotient 1 s = .infinite true := if_pos hs₀
    have hproduct : (quotient s c - quotient 1 s) * quotient 1 c =
        .infinite (false == decide (0 < 1 / c)) := by
      rw [hcosecant, quotient, quotient, if_neg hc₀, if_neg hc₀]
      exact Double.infinite_mul_finite false (one_div_ne_zero hc_ne)
    have hsign : (false == decide (0 < 1 / c)) = decide (Real.cos x < 0) := by
      rw [hEPSILON] at hs₀
      norm_num at hs₀
      rcases lt_or_ge (Real.cos x) 0 with hneg | hpos
      · rw [abs_of_neg hneg] at hcos hsum
        have hc' : ¬ 0 < c := fun hc' => by
          rw [abs_of_pos hc'] at hcos
          have hdistance := abs_le.mp hc
          norm_num at hdistance
          linarith
        rw [decide_eq_false (mt one_div_pos.mp hc'), decide_eq_true hneg]
        rfl
      · rw [abs_of_nonneg hpos] at hcos hsum
        have hc' : 0 < c := by
          have hdistance := abs_le.mp hc
          norm_num at hdistance
          linarith
        rw [decide_eq_true (one_div_pos.mpr hc'), decide_eq_false hpos.not_gt]
        rfl
    rw [hproduct, hsign]
    rw [hEPSILON] at hs₀ hc₀
    refine ⟨nofun, fun h => ?_, fun _ => rfl, fun _ h => ?_⟩
    · norm_num at h hs₀
      linarith
    · norm_num at h hs₀
      linarith
  · have hvalue : (quotient s c - quotient 1 s) * quotient 1 c =
        .finite ((s / c - 1 / s) * (1 / c)) := by
      rw [quotient, quotient, quotient, if_neg hc₀, if_neg hs₀, if_neg hc₀,
        Double.finite_sub_finite, Double.finite_mul_finite]
    rw [hvalue]
    rw [hEPSILON] at hs₀ hc₀
    refine ⟨nofun, fun h => ?_, fun h => ?_, fun h h' => ⟨_, rfl, ?_⟩⟩
    · norm_num at h hc₀
      linarith
    · norm_num at h hs₀
      linarith
    · exact abs_trigonometric_sub_le hs hc h' h

/-- In exact arithmetic the function has a value everywhere up to zero, as far as the number of
quarter turns fits into an `int`. -/
theorem function_trigonometric (turns : ℕ) {x : ℝ} (hx : x ≤ 0) (hrange : -(2 ^ 30 * Sin.PI) ≤ x) :
    ∃ y, (function Sin.PI turns).apply (.finite x) = some (.ok y) ∧ Trigonometric x y := by
  have hPI := Sin.PI_pos
  obtain ⟨s, hsin, hs⟩ := Sin.exists_apply (abs_le.mpr ⟨hrange, by linarith⟩)
  have hshift : |x + Sin.PI / 2| ≤ 2 ^ 30 * Sin.PI := abs_le.mpr ⟨by linarith, by linarith⟩
  obtain ⟨c, hcos, hc⟩ := Cos.exists_apply hshift
  have hs' : |s - Real.sin x| ≤ 3e-9 := hs.trans (by norm_num)
  exact ⟨_, function_of_ok hx hsin hcos turns, quotients_trigonometric hs' hc⟩

theorem function_trigonometric_neg_one :
    ∃ y, (function Sin.PI 0).apply (.finite (-1)) = some (.ok y) ∧ Trigonometric (-1) y := by
  refine function_trigonometric 0 (by norm_num) ?_
  have hlower := abs_le.mp Sin.abs_PI_sub_pi_le
  linarith [Real.pi_gt_three]

/-! ### After zero -/

section Logarithms

variable {K : Type*} [Field K] [LinearOrder K]

/-- The value that is made of the logarithms of the argument, of three and of five. -/
def logarithmic (l l₃ l₅ : K) : K :=
  let log3 := l / l₃
  let rel := l / l₅ / l
  ((rel + log3) / log3) ^ 3 + log3 - rel

end Logarithms

theorem applyDouble_three {K : Type*} [Field K] [LinearOrder K] (x : K) :
    (Pow.new 3).applyDouble (.finite x) = .finite (x ^ 3) := by
  have hcube : x ^ 3 = 1 * x * x * x := by ring
  rw [hcube]
  rfl

theorem Log_apply_of_ln {K : Type*} [Field K] [LinearOrder K] {turns : ℕ} {n x l lₙ : K}
    (hx : 0 < x) (hn : 0 < n) (hone : n ≠ 1) (hl : Ln.apply turns (.finite x) = some (.finite l))
    (hlₙ : Ln.apply turns (.finite n) = some (.finite lₙ)) (hne : lₙ ≠ 0) :
    Log.apply turns n (.finite x) = some (.finite (l / lₙ)) := by
  have hrange : ¬ ((Double.finite x).lt (.finite 0) = true ∨ n ≤ 0) := by
    rw [Double.lt_finite, decide_eq_true_eq, not_or]
    exact ⟨hx.not_gt, hn.not_ge⟩
  rw [Log.apply, Double.eq_finite, if_neg (by rw [decide_eq_true_eq]; exact hx.ne'),
    if_neg hrange, if_neg hone, hl, hlₙ]
  exact congrArg some (Double.finite_div_finite hne)

theorem function_of_ln {K : Type*} [Field K] [LinearOrder K] [IsStrictOrderedRing K] [FloorRing K]
    {PI x l l₃ l₅ : K} {turns : ℕ} (hx : 0 < x)
    (hl : Ln.apply turns (.finite x) = some (.finite l))
    (hl₃ : Ln.apply turns (.finite 3) = some (.finite l₃))
    (hl₅ : Ln.apply turns (.finite 5) = some (.finite l₅)) (hne₃ : l₃ ≠ 0) (hne₅ : l₅ ≠ 0) :
    (function PI turns).apply (.finite x) =
      some (.ok (if l = 0 then .nan else .finite (logarithmic l l₃ l₅))) := by
  rw [apply, Double.le_finite, if_neg (by rw [decide_eq_true_eq]; exact hx.not_ge)]
  have hln : (function PI turns).ln (.finite x) = pure (.finite l) := congrArg ExceptT.lift hl
  have hlog3 : (function PI turns).log3 (.finite x) = pure (.finite (l / l₃)) :=
    congrArg ExceptT.lift (Log_apply_of_ln hx (by norm_num) (by norm_num) hl hl₃ hne₃)
  have hlog5 : (function PI turns).log5 (.finite x) = pure (.finite (l / l₅)) :=
    congrArg ExceptT.lift (Log_apply_of_ln hx (by norm_num) (by norm_num) hl hl₅ hne₅)
  have hpow3 : ∀ y, (function PI turns).pow3 y = pure ((Pow.new 3).applyDouble y) := fun _ => rfl
  rw [hln, pure_bind, hlog3, pure_bind, hlog5, pure_bind]
  dsimp only
  rw [hpow3, pure_bind]
  refine congrArg (fun y => some (Except.ok y)) ?_
  split_ifs with hzero
  · rw [hzero, zero_div, zero_div, Double.zero_div_zero]
    rfl
  · rw [Double.finite_div_finite hzero, Double.finite_add_finite,
      Double.finite_div_finite (div_ne_zero hzero hne₃), applyDouble_three, Double.neg_finite,
      Double.finite_add_finite, Double.finite_add_finite, logarithmic, sub_eq_add_neg]

/-- What an error of the logarithms does to the function, with the quotient of two of them. -/
theorem abs_logarithmic_sub_le {u u' r r' : ℝ} (hu : 1e-3 ≤ |u|)
    (hu' : |u' - u| ≤ 1.4e-4 * (1 + |u|)) (hr : |r| ≤ 0.622) (hr' : |r' - r| ≤ 6e-5) :
    |((r' + u') / u') ^ 3 + u' - r' - (((r + u) / u) ^ 3 + u - r)| ≤
      2e-3 * (1 + |u|) ^ 3 / u ^ 4 + 2e-4 * (1 + |u|) := by
  have hpos : 0 < |u| := lt_of_lt_of_le (by norm_num) hu
  have hhalf : |u| / 2 ≤ |u'| := by
    have htriangle := abs_sub_abs_le_abs_sub u u'
    rw [abs_sub_comm] at htriangle
    norm_num at hu hu'
    linarith
  have hne := abs_pos.mp hpos
  have hne' : u' ≠ 0 := abs_pos.mp (by linarith)
  have hdistance : |r' / u' - r / u| ≤ 2.96e-4 * (1 + |u|) / u ^ 2 := by
    have hquotient : r' / u' - r / u = ((r' - r) * u - r * (u' - u)) / (u' * u) := by
      field_simp
      ring
    have hnumerator : |(r' - r) * u - r * (u' - u)| ≤ 1.48e-4 * (1 + |u|) := by
      refine (abs_sub _ _).trans ?_
      rw [abs_mul, abs_mul]
      have hfirst := mul_le_mul_of_nonneg_right hr' hpos.le
      have hsecond := mul_le_mul hr hu' (abs_nonneg _) (by norm_num)
      norm_num at hfirst hsecond ⊢
      linarith
    have hdenominator : |u| / 2 * |u| ≤ |u' * u| := by
      rw [abs_mul]
      exact mul_le_mul_of_nonneg_right hhalf hpos.le
    rw [hquotient, abs_div]
    calc |(r' - r) * u - r * (u' - u)| / |u' * u|
        ≤ 1.48e-4 * (1 + |u|) / (|u| / 2 * |u|) := by gcongr
      _ = 2.96e-4 * (1 + |u|) / u ^ 2 := by
        rw [← sq_abs u]
        field_simp
        norm_num
  have hfactor : ∀ {v s : ℝ}, |u| / 2 ≤ |v| → |s| ≤ 0.6221 →
      |1 + s / v| ≤ 1.25 * (1 + |u|) / |u| := by
    intro v s hv hs
    have hquotient : |s / v| ≤ 0.6221 / (|u| / 2) := by
      rw [abs_div]
      exact div_le_div₀ (by norm_num) hs (by linarith) hv
    refine (abs_add_le _ _).trans ((add_le_add_right hquotient _).trans ?_)
    rw [abs_one, div_div_eq_mul_div, le_div_iff₀ hpos, add_mul, div_mul_cancel₀ _ hpos.ne']
    norm_num
    linarith
  have hsum : (r' + u') / u' = 1 + r' / u' := by
    rw [add_div, div_self hne', add_comm]
  have hsum' : (r + u) / u = 1 + r / u := by
    rw [add_div, div_self hne, add_comm]
  have hA : |1 + r' / u'| ≤ 1.25 * (1 + |u|) / |u| := by
    refine hfactor hhalf ?_
    have htriangle := abs_sub_abs_le_abs_sub r' r
    norm_num at hr hr' ⊢
    linarith
  have hB : |1 + r / u| ≤ 1.25 * (1 + |u|) / |u| :=
    hfactor (by linarith) (hr.trans (by norm_num))
  have hAB : r' / u' - r / u = (1 + r' / u') - (1 + r / u) := by ring
  rw [hAB] at hdistance
  rw [hsum, hsum']
  generalize 1 + r' / u' = A at hA hdistance
  generalize 1 + r / u = B at hB hdistance
  have hsquares : |A ^ 2 + A * B + B ^ 2| ≤ 3 * (1.25 * (1 + |u|) / |u|) ^ 2 := by
    refine (abs_add_three _ _ _).trans ?_
    rw [abs_pow, abs_mul, abs_pow]
    have hnonneg := (abs_nonneg A).trans hA
    nlinarith [pow_le_pow_left₀ (abs_nonneg A) hA 2, pow_le_pow_left₀ (abs_nonneg B) hB 2,
      mul_le_mul hA hB (abs_nonneg B) hnonneg]
  have hcubes : |A ^ 3 - B ^ 3| ≤ 2e-3 * (1 + |u|) ^ 3 / u ^ 4 := by
    have hproduct : A ^ 3 - B ^ 3 = (A - B) * (A ^ 2 + A * B + B ^ 2) := by ring
    rw [hproduct, abs_mul]
    calc |A - B| * |A ^ 2 + A * B + B ^ 2|
        ≤ 2.96e-4 * (1 + |u|) / u ^ 2 * (3 * (1.25 * (1 + |u|) / |u|) ^ 2) := by gcongr
      _ = 1.3875e-3 * (1 + |u|) ^ 3 / u ^ 4 := by
        rw [div_pow, sq_abs]
        field_simp
        norm_num
      _ ≤ 2e-3 * (1 + |u|) ^ 3 / u ^ 4 := by
        gcongr
        norm_num
  have hsplit : A ^ 3 + u' - r' - (B ^ 3 + u - r) = A ^ 3 - B ^ 3 + ((u' - u) - (r' - r)) := by
    ring
  rw [hsplit]
  refine (abs_add_le _ _).trans (add_le_add hcubes ((abs_sub _ _).trans ?_))
  norm_num at hu' hr' ⊢
  linarith

/-- What the program has for the function at a point after zero. -/
structure Logarithmic (x : ℝ) (y : Double ℝ) : Prop where
  nan_iff : y = .nan ↔ x = 1
  elsewhere : x ≠ 1 → ∃ v, y = .finite v ∧ (1e-3 ≤ |Real.logb 3 x| →
    |v - (((Real.logb 5 x / Real.log x + Real.logb 3 x) / Real.logb 3 x) ^ 3 +
      Real.logb 3 x - Real.logb 5 x / Real.log x)| ≤
      2e-3 * (1 + |Real.logb 3 x|) ^ 3 / Real.logb 3 x ^ 4 + 2e-4 * (1 + |Real.logb 3 x|))

theorem abs_ln_sub_log_le {x : ℝ} (hmin : 1 / 2 ^ 1074 ≤ x) (hmax : x < 2 ^ 1024) :
    |Ln.ln x - Real.log x| ≤ 1.5e-4 := by
  obtain ⟨hlower, hupper⟩ := Ln.ln_mem_Icc hmin hmax
  rw [abs_le]
  norm_num at hlower hupper ⊢
  constructor <;> linarith

theorem ln_one : Ln.ln 1 = 0 := if_pos rfl

theorem ln_eq_zero_iff {x : ℝ} (hx : 0 < x) : Ln.ln x = 0 ↔ x = 1 := by
  constructor
  · intro hzero
    rcases lt_trichotomy x 1 with hlt | heq | hgt
    · have hneg := Ln.ln_lt_ln hx hlt
      rw [ln_one, hzero] at hneg
      exact absurd hneg (lt_irrefl 0)
    · exact heq
    · have hpos := Ln.ln_lt_ln one_pos hgt
      rw [ln_one, hzero] at hpos
      exact absurd hpos (lt_irrefl 0)
  · rintro rfl
    exact ln_one

/-- The numbers of one digit are far within the format `double`. -/
theorem digit_double {n : ℕ} (hn : n ∈ Set.Icc 1 9) :
    1 / 2 ^ 1074 ≤ (n : ℝ) ∧ (n : ℝ) < 2 ^ 1024 := by
  have hone : (1 : ℝ) ≤ n := Nat.one_le_cast.mpr hn.1
  have hnine : (n : ℝ) ≤ 9 := by exact_mod_cast hn.2
  constructor
  · exact ((div_le_one (by positivity)).mpr (one_le_pow₀ one_le_two)).trans hone
  · calc (n : ℝ) < 2 ^ 4 := by linarith
      _ ≤ 2 ^ 1024 := pow_le_pow_right₀ one_le_two (by norm_num)

theorem logarithmic_near {x : ℝ} (hmin : 1 / 2 ^ 1074 ≤ x) (hmax : x < 2 ^ 1024) (hone : x ≠ 1)
    (hlog : 1e-3 ≤ |Real.logb 3 x|) :
    |logarithmic (Ln.ln x) (Ln.ln 3) (Ln.ln 5) -
      (((Real.logb 5 x / Real.log x + Real.logb 3 x) / Real.logb 3 x) ^ 3 +
        Real.logb 3 x - Real.logb 5 x / Real.log x)| ≤
      2e-3 * (1 + |Real.logb 3 x|) ^ 3 / Real.logb 3 x ^ 4 + 2e-4 * (1 + |Real.logb 3 x|) := by
  have hx : 0 < x := lt_of_lt_of_le (by positivity) hmin
  have hl := abs_ln_sub_log_le hmin hmax
  have hl_ne := (ln_eq_zero_iff hx).not.mpr hone
  have hlog_ne : Real.log x ≠ 0 := Real.log_ne_zero_of_pos_of_ne_one hx hone
  have hl₃ : |Ln.ln 3 - Real.log 3| ≤ 1.5e-4 := by
    have hdouble := digit_double (show 3 ∈ Set.Icc 1 9 by decide)
    exact abs_ln_sub_log_le (by exact_mod_cast hdouble.1) (by exact_mod_cast hdouble.2)
  have hl₅ : |Ln.ln 5 - Real.log 5| ≤ 1.5e-4 := by
    have hdouble := digit_double (show 5 ∈ Set.Icc 1 9 by decide)
    exact abs_ln_sub_log_le (by exact_mod_cast hdouble.1) (by exact_mod_cast hdouble.2)
  have hthree := Real.log_three_gt_d9
  have hfive : 1.609 < Real.log 5 := lt_trans (by norm_num) Real.log_five_gt_d9
  have hlower₃ : 1.098 < Ln.ln 3 := by
    have hnear := abs_le.mp hl₃
    norm_num at hthree hnear ⊢
    linarith
  have hlower₅ : 1.608 < Ln.ln 5 := by
    have hnear := abs_le.mp hl₅
    norm_num at hfive hnear ⊢
    linarith
  have hlog₃ : 0 < Real.log 3 := lt_trans (by norm_num) hthree
  have hlog₅ : 0 < Real.log 5 := lt_trans (by norm_num) hfive
  have hln₃ : 0 < Ln.ln 3 := lt_trans (by norm_num) hlower₃
  have hln₅ : 0 < Ln.ln 5 := lt_trans (by norm_num) hlower₅
  have hrel : Ln.ln x / Ln.ln 5 / Ln.ln x = 1 / Ln.ln 5 := by
    rw [div_right_comm, div_self hl_ne]
  have hrel' : Real.logb 5 x / Real.log x = 1 / Real.log 5 := by
    rw [Real.logb, div_right_comm, div_self hlog_ne]
  rw [logarithmic, hrel, hrel']
  refine abs_logarithmic_sub_le hlog ?_ ?_ ?_
  · have hquotient : Ln.ln x / Ln.ln 3 - Real.logb 3 x =
        (Ln.ln x - Real.log x - Real.logb 3 x * (Ln.ln 3 - Real.log 3)) / Ln.ln 3 := by
      rw [Real.logb]
      field_simp
      ring
    have hproduct := mul_le_mul_of_nonneg_left hl₃ (abs_nonneg (Real.logb 3 x))
    have hnumerator := (abs_sub (Ln.ln x - Real.log x)
      (Real.logb 3 x * (Ln.ln 3 - Real.log 3))).trans (add_le_add hl (abs_mul _ _).le)
    rw [hquotient, abs_div, abs_of_pos hln₃, div_le_iff₀ hln₃]
    refine hnumerator.trans ?_
    norm_num at hproduct hlower₃ ⊢
    nlinarith [abs_nonneg (Real.logb 3 x)]
  · rw [abs_of_pos (one_div_pos.mpr hlog₅), div_le_iff₀ hlog₅]
    norm_num at hfive ⊢
    linarith
  · have hquotient : 1 / Ln.ln 5 - 1 / Real.log 5 =
        -(Ln.ln 5 - Real.log 5) / (Ln.ln 5 * Real.log 5) := by
      field_simp
      ring
    have hproduct : 1.608 * 1.609 ≤ Ln.ln 5 * Real.log 5 :=
      mul_le_mul hlower₅.le hfive.le (by norm_num) hln₅.le
    rw [hquotient, abs_div, abs_neg, abs_of_pos (mul_pos hln₅ hlog₅),
      div_le_iff₀ (mul_pos hln₅ hlog₅)]
    norm_num at hl₅ hproduct ⊢
    linarith

/-- After zero the function has a value at every number of the format but at one. -/
theorem function_logarithmic {x : ℝ} (hmin : 1 / 2 ^ 1074 ≤ x) (hmax : x < 2 ^ 1024) :
    ∃ turns y, (function Sin.PI turns).apply (.finite x) = some (.ok y) ∧ Logarithmic x y := by
  have hx : 0 < x := lt_of_lt_of_le (by positivity) hmin
  have hthree := digit_double (show 3 ∈ Set.Icc 1 9 by decide)
  have hfive := digit_double (show 5 ∈ Set.Icc 1 9 by decide)
  rw [Nat.cast_ofNat] at hthree hfive
  obtain ⟨n, hl⟩ := Ln.exists_apply_eq_ln hmin hmax
  obtain ⟨n₃, hl₃⟩ := Ln.exists_apply_eq_ln hthree.1 hthree.2
  obtain ⟨n₅, hl₅⟩ := Ln.exists_apply_eq_ln hfive.1 hfive.2
  have hvalue : (function Sin.PI (n + n₃ + n₅)).apply (.finite x) = _ := function_of_ln hx
    (Ln.apply_mono (show n ≤ n + n₃ + n₅ by omega) hl)
    (Ln.apply_mono (show n₃ ≤ n + n₃ + n₅ by omega) hl₃)
    (Ln.apply_mono (show n₅ ≤ n + n₃ + n₅ by omega) hl₅)
    ((ln_eq_zero_iff (by norm_num)).not.mpr (by norm_num))
    ((ln_eq_zero_iff (by norm_num)).not.mpr (by norm_num))
  refine ⟨_, _, hvalue, ?_, fun hone => ?_⟩
  · rw [← ln_eq_zero_iff hx]
    split_ifs with hzero
    · exact iff_of_true rfl hzero
    · exact iff_of_false nofun hzero
  · rw [if_neg ((ln_eq_zero_iff hx).not.mpr hone)]
    exact ⟨_, rfl, logarithmic_near hmin hmax hone⟩

theorem function_logarithmic_nine :
    ∃ turns y, (function Sin.PI turns).apply (.finite 9) = some (.ok y) ∧ Logarithmic 9 y := by
  have hnine := digit_double (show 9 ∈ Set.Icc 1 9 by decide)
  rw [Nat.cast_ofNat] at hnine
  exact function_logarithmic hnine.1 hnine.2

end FunctionCompute

end Itmo.SoftwareTesting
