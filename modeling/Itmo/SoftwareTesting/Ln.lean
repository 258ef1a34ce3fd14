import Itmo.Lib.Double
import Itmo.Lib.Loop
import Itmo.SoftwareTesting.Pow
import Mathlib.Algebra.Order.Archimedean.Basic
import Mathlib.Algebra.Order.Field.Power
import Mathlib.Data.Int.Log

/-! The logarithm of `software_testing` in exact arithmetic. A number is brought between a tenth and
one by two loops, which count the divisions by ten and the multiplications. The count is kept in an
`int`, which has room for that of every number of the format `double`. -/

namespace Itmo.SoftwareTesting.Ln

open Lib

section Definitions

variable {K : Type*} [Field K]

def pows : List PowTriplet :=
  (List.range' 1 65).map fun i =>
    ⟨Int32.ofNat i, if i % 2 = 0 then 1 else -1, Pow.new (Int32.ofNat i)⟩

def ln10 : K := 2.3025850929940456840179914546843642076011014886287729760333279009

structure DoubleRepresentation (K : Type*) where
  isPositive : Bool
  exponent : Int32
  mantissa : K
  pow : Pow

variable [LinearOrder K]

section Loops

/-! The exponent is an `int` in the code; as an integer it has no bounds. -/

variable {E : Type*} [OfNat E 0] [OfNat E 1] [Add E] [Sub E]

def scaleDown (turns : ℕ) : K × E → Option (K × E) :=
  whileLoop (fun s => 1 ≤ s.1) (fun s => (s.1 / (10 : ℕ), s.2 + 1)) turns

def scaleUp (turns : ℕ) : K × E → Option (K × E) :=
  whileLoop (fun s => s.1 < 0.1 ∧ s.1 ≠ 0) (fun s => (s.1 * (10 : ℕ), s.2 - 1)) turns

def scale (turns : ℕ) (x : K) : Option (K × E) := (scaleDown turns (x, 0)).bind (scaleUp turns)

end Loops

namespace DoubleRepresentation

def new (turns : ℕ) (x : K) : Option (DoubleRepresentation K) :=
  let isPositive := decide (0 ≤ x)
  let x := if isPositive then x else x * -1
  (scale turns x).map fun (x, exponent) => ⟨isPositive, exponent, x, Pow.new exponent⟩

def reconstruct (repr : DoubleRepresentation K) : K :=
  (if repr.isPositive then 1 else -1) * repr.mantissa * repr.pow.apply ((10 : ℕ) : K)

end DoubleRepresentation

def lnSeriesAtZero (x : K) : K :=
  -(pows.map fun triplet =>
    (triplet.sign.toInt : K) * triplet.pow.apply (x - 1) / (triplet.power.toInt : K)).sum

def apply (turns : ℕ) : Double K → Option (Double K)
  | .nan => some .nan
  | .infinite positive => some (if positive then .infinite true else .nan)
  | .finite x =>
    if x < 0 then some .nan
    else if x = 0 then some (.infinite false)
    else if x = 1 then some (.finite 0)
    else (DoubleRepresentation.new turns x).map fun repr =>
      .finite (lnSeriesAtZero repr.mantissa + (repr.exponent.toInt : K) * ln10)

/-- The mantissa has no zero behind the point, and makes up the number with the exponent. -/
structure Normalised (x mantissa : K) (exponent : ℤ) : Prop where
  le_mantissa : 0.1 ≤ mantissa
  mantissa_lt : mantissa < 1
  mul_zpow : mantissa * 10 ^ exponent = x

end Definitions

/-! ### The loops -/

section Scale

variable {K : Type*} [Field K] [LinearOrder K] [IsStrictOrderedRing K] {x : K}

/-- Both loops leave the number that mantissa and exponent make up. -/
structure Represents (x : K) (s : K × ℤ) : Prop where
  pos : 0 < s.1
  mul_zpow : s.1 * 10 ^ s.2 = x

theorem Represents.down {s : K × ℤ} (h : Represents x s) :
    Represents x (s.1 / (10 : ℕ), s.2 + 1) := by
  rw [Nat.cast_ofNat]
  refine ⟨div_pos h.pos (by norm_num), ?_⟩
  rw [zpow_add_one₀ (by norm_num), div_mul_eq_mul_div, mul_div_assoc, mul_div_cancel_right₀]
  · exact h.mul_zpow
  · norm_num

theorem Represents.up {s : K × ℤ} (h : Represents x s) :
    Represents x (s.1 * (10 : ℕ), s.2 - 1) := by
  rw [Nat.cast_ofNat]
  refine ⟨mul_pos h.pos (by norm_num), ?_⟩
  rw [zpow_sub_one₀ (by norm_num), mul_mul_mul_comm, mul_inv_cancel₀ (by norm_num), mul_one]
  exact h.mul_zpow

variable [Archimedean K]

theorem scaleDown_spec {s : K × ℤ} (h : Represents x s) :
    ∃ turns t, scaleDown turns s = some t ∧ Represents x t ∧ t.1 < 1 := by
  have hiterate : ∀ n, ((fun s : K × ℤ => (s.1 / (10 : ℕ), s.2 + 1))^[n] s).1 = s.1 / 10 ^ n := by
    intro n
    induction n with
    | zero => simp
    | succ n ih => rw [Function.iterate_succ_apply', ih, pow_succ, div_div, Nat.cast_ofNat]
  obtain ⟨n, hn⟩ := pow_unbounded_of_one_lt s.1 (show (1 : K) < 10 by norm_num)
  have hends : ∃ turns t, scaleDown turns s = some t := by
    refine whileLoop_ends_iff.mpr ⟨n, ?_⟩
    rw [hiterate, not_le, div_lt_one (by positivity)]
    exact hn
  obtain ⟨turns, t, ht⟩ := hends
  obtain ⟨hvisits, htest⟩ := whileLoop_some ht
  exact ⟨turns, t, ht, hvisits.invariant h fun t _ _ ht => ht.down, not_le.mp htest⟩

/-- The second loop does not leave the bound that the first one has reached. -/
theorem scaleUp_spec {s : K × ℤ} (h : Represents x s) (hs : s.1 < 1) :
    ∃ turns t, scaleUp turns s = some t ∧ Represents x t ∧ t.1 < 1 ∧ 0.1 ≤ t.1 := by
  have hiterate : ∀ n, ((fun s : K × ℤ => (s.1 * (10 : ℕ), s.2 - 1))^[n] s).1 = s.1 * 10 ^ n := by
    intro n
    induction n with
    | zero => simp
    | succ n ih => rw [Function.iterate_succ_apply', ih, pow_succ, mul_assoc, Nat.cast_ofNat]
  obtain ⟨n, hn⟩ := pow_unbounded_of_one_lt (1 / s.1) (show (1 : K) < 10 by norm_num)
  have hends : ∃ turns t, scaleUp turns s = some t := by
    refine whileLoop_ends_iff.mpr ⟨n, fun htest => ?_⟩
    rw [hiterate] at htest
    rw [div_lt_iff₀' h.pos] at hn
    norm_num at htest
    linarith [htest.1]
  obtain ⟨turns, t, ht⟩ := hends
  obtain ⟨hvisits, htest⟩ := whileLoop_some ht
  have hinvariant : Represents x t ∧ t.1 < 1 := by
    refine @Visits.invariant _ _ _ _ _ (fun t => Represents x t ∧ t.1 < 1) ⟨h, hs⟩ ?_ hvisits
    rintro t - htest ⟨ht, -⟩
    refine ⟨ht.up, ?_⟩
    have hlt := htest.1
    norm_num at hlt
    show t.1 * (10 : ℕ) < 1
    push_cast
    linarith
  refine ⟨turns, t, ht, hinvariant.1, hinvariant.2, ?_⟩
  by_contra hlt
  exact htest ⟨not_le.mp hlt, hinvariant.1.pos.ne'⟩

theorem exists_scale (hx : 0 < x) :
    ∃ (turns : ℕ) (s : K × ℤ), scale turns x = some s ∧ Normalised x s.1 s.2 := by
  have hstart : Represents x (x, 0) := ⟨hx, by rw [zpow_zero, mul_one]⟩
  obtain ⟨turns, t, hdown, ht, hlt⟩ := scaleDown_spec hstart
  obtain ⟨turns', s, hup, hs, hlt', hle⟩ := scaleUp_spec ht hlt
  refine ⟨max turns turns', s, ?_, hle, hlt', hs.mul_zpow⟩
  have hdown' : scaleDown (max turns turns') (x, (0 : ℤ)) = some t :=
    whileLoop_mono (le_max_left _ _) hdown
  rw [scale, hdown']
  exact whileLoop_mono (le_max_right _ _) hup

end Scale

/-! ### The exponent -/

section Exponent

variable {K : Type*} [Field K] [LinearOrder K]

/-- With an `int` the loops do the same. -/
theorem scale_int32 (turns : ℕ) (x : K) :
    (scale turns x : Option (K × Int32)) =
      (scale turns x : Option (K × ℤ)).map fun s => (s.1, Int32.ofInt s.2) := by
  have hdown : (scaleDown turns (x, 0) : Option (K × Int32)) =
      (scaleDown turns (x, (0 : ℤ))).map fun s => (s.1, Int32.ofInt s.2) :=
    whileLoop_map (fun s : K × ℤ => (s.1, Int32.ofInt s.2)) (fun _ => Iff.rfl)
      (fun s => Prod.ext rfl (Int32.ofInt_add s.2 1).symm) turns (x, 0)
  have hup : ∀ s : K × ℤ, scaleUp turns (s.1, Int32.ofInt s.2) =
      (scaleUp turns s).map fun s => (s.1, Int32.ofInt s.2) :=
    whileLoop_map (fun s : K × ℤ => (s.1, Int32.ofInt s.2)) (fun _ => Iff.rfl)
      (fun s => Prod.ext rfl (Int32.ofInt_sub s.2 1).symm) turns
  rw [scale, scale, hdown]
  cases scaleDown turns (x, (0 : ℤ)) with
  | none => rfl
  | some s => exact hup s

variable [IsStrictOrderedRing K] {x mantissa : K} {exponent : ℤ}

theorem new_eq (turns : ℕ) (x : K) :
    DoubleRepresentation.new turns x = (scale turns |x| : Option (K × ℤ)).map fun s =>
      ⟨decide (0 ≤ x), Int32.ofInt s.2, s.1, Pow.new (Int32.ofInt s.2)⟩ := by
  have habs : (if 0 ≤ x then x else x * -1) = |x| := by
    split_ifs with h
    · exact (abs_of_nonneg h).symm
    · rw [mul_neg_one, abs_of_neg (not_le.mp h)]
  rw [DoubleRepresentation.new]
  simp only [decide_eq_true_eq, habs, scale_int32, Option.map_map]
  rfl

theorem Normalised.zpow_le (h : Normalised x mantissa exponent) : 10 ^ (exponent - 1) ≤ x := by
  have hpos : (0 : K) < 10 ^ exponent := by positivity
  have hle := h.le_mantissa
  norm_num at hle
  rw [zpow_sub_one₀ (by norm_num), ← h.mul_zpow, mul_comm, ← one_div]
  exact mul_le_mul_of_nonneg_right hle hpos.le

theorem Normalised.lt_zpow (h : Normalised x mantissa exponent) : x < 10 ^ exponent := by
  have hpos : (0 : K) < 10 ^ exponent := by positivity
  rw [← h.mul_zpow]
  exact mul_lt_of_lt_one_left hpos h.mantissa_lt

/-- The exponent is that of the number written with one digit before the point, and one more. -/
theorem Normalised.exponent_eq [FloorSemiring K] (hx : 0 < x)
    (h : Normalised x mantissa exponent) : exponent = Int.log 10 x + 1 := by
  have hlower := (Int.zpow_le_iff_le_log (b := 10) (by decide) hx).mp
    (by exact_mod_cast h.zpow_le)
  have hupper := (Int.lt_zpow_iff_log_lt (b := 10) (by decide) hx).mp
    (by exact_mod_cast h.lt_zpow)
  omega

/-- Positive numbers of the format `double` have exponents far within the range of an `int`. -/
theorem Normalised.exponent_double (h : Normalised x mantissa exponent) (hmin : 1 / 2 ^ 1074 ≤ x)
    (hmax : x < 2 ^ 1024) : -1074 < exponent ∧ exponent ≤ 1024 := by
  have hten : (1 : K) < 10 := by norm_num
  constructor
  · rw [← zpow_lt_zpow_iff_right₀ hten]
    calc (10 : K) ^ (-1074 : ℤ) = 1 / 10 ^ 1074 := by rw [zpow_neg, zpow_ofNat, one_div]
      _ ≤ 1 / 2 ^ 1074 := by
        refine one_div_le_one_div_of_le (by positivity) ?_
        exact pow_le_pow_left₀ (by norm_num) (by norm_num) 1074
      _ < 10 ^ exponent := hmin.trans_lt h.lt_zpow
  · have hlt : (10 : K) ^ (exponent - 1) < 10 ^ (1024 : ℤ) := by
      calc (10 : K) ^ (exponent - 1) < 2 ^ 1024 := h.zpow_le.trans_lt hmax
        _ ≤ 10 ^ 1024 := pow_le_pow_left₀ (by norm_num) (by norm_num) 1024
        _ = 10 ^ (1024 : ℤ) := (zpow_ofNat 10 1024).symm
    have := (zpow_lt_zpow_iff_right₀ hten).mp hlt
    omega

theorem Normalised.toInt_exponent (h : Normalised x mantissa exponent) (hmin : 1 / 2 ^ 1074 ≤ x)
    (hmax : x < 2 ^ 1024) : (Int32.ofInt exponent).toInt = exponent := by
  obtain ⟨hlower, hupper⟩ := h.exponent_double hmin hmax
  exact Int32.toInt_ofInt_of_le (by omega) (by omega)

end Exponent

/-! ### The representation -/

/-- The loops end for every positive number, with a normalised mantissa; the `int` is the exponent
for every positive number of the format `double`. -/
theorem new_normalises {x : ℚ} (hx : 0 < x) :
    ∃ (turns : ℕ) (repr : DoubleRepresentation ℚ) (exponent : ℤ),
      DoubleRepresentation.new turns x = some repr ∧
      scale turns x = some (repr.mantissa, exponent) ∧
      Normalised x repr.mantissa exponent ∧ repr.exponent = Int32.ofInt exponent ∧
      (1 / 2 ^ 1074 ≤ x → x < 2 ^ 1024 → Normalised x repr.mantissa repr.exponent.toInt) := by
  obtain ⟨turns, s, hscale, h⟩ := exists_scale hx
  refine ⟨turns, ⟨decide (0 ≤ x), Int32.ofInt s.2, s.1, Pow.new (Int32.ofInt s.2)⟩, s.2, ?_, hscale,
    h, rfl, fun hmin hmax => ?_⟩
  · rw [new_eq, abs_of_pos hx, hscale]
    rfl
  · show Normalised x s.1 (Int32.ofInt s.2).toInt
    rw [h.toInt_exponent hmin hmax]
    exact h

theorem new_normalises_fraction :
    ∃ (turns : ℕ) (repr : DoubleRepresentation ℚ) (exponent : ℤ),
      DoubleRepresentation.new turns (7 / 30000) = some repr ∧
      scale turns (7 / 30000) = some (repr.mantissa, exponent) ∧
      Normalised (7 / 30000) repr.mantissa exponent ∧ repr.exponent = Int32.ofInt exponent ∧
      (1 / 2 ^ 1074 ≤ (7 / 30000 : ℚ) → (7 / 30000 : ℚ) < 2 ^ 1024 →
        Normalised (7 / 30000) repr.mantissa repr.exponent.toInt) :=
  new_normalises (by norm_num)

section Representation

variable {K : Type*} [Field K] [LinearOrder K] [IsStrictOrderedRing K] [Archimedean K] {x : K}

/-- What is taken apart can be put together again. -/
theorem exists_reconstruct (hmin : 1 / 2 ^ 1074 ≤ |x|) (hmax : |x| < 2 ^ 1024) :
    ∃ turns repr, DoubleRepresentation.new turns x = some repr ∧ repr.reconstruct = x := by
  have hpos : 0 < |x| := lt_of_lt_of_le (by positivity) hmin
  obtain ⟨turns, s, hscale, h⟩ := exists_scale hpos
  refine ⟨turns, _, by rw [new_eq, hscale]; rfl, ?_⟩
  have htoInt := h.toInt_exponent hmin hmax
  have hne : Int32.ofInt s.2 ≠ Int32.minValue := by
    intro heq
    have hexponent := h.exponent_double hmin hmax
    rw [heq] at htoInt
    have hvalue : Int32.minValue.toInt = -2 ^ 31 := by decide
    omega
  have hpow : s.1 * (Pow.new (Int32.ofInt s.2)).apply ((10 : ℕ) : K) = |x| := by
    rw [Pow.apply_new hne, htoInt, Nat.cast_ofNat]
    exact h.mul_zpow
  rw [DoubleRepresentation.reconstruct, mul_assoc]
  by_cases hx : 0 ≤ x
  · rw [if_pos (decide_eq_true hx), one_mul]
    exact hpow.trans (abs_of_nonneg hx)
  · rw [if_neg (by rw [decide_eq_true_eq]; exact hx), neg_one_mul]
    rw [neg_eq_iff_eq_neg, ← abs_of_neg (not_le.mp hx)]
    exact hpow

/-- The logarithm is that of the mantissa and that of the power of ten. -/
theorem exists_apply (hx : 0 < x) (hone : x ≠ 1) : ∃ (turns : ℕ) (mantissa : K) (exponent : ℤ),
    Normalised x mantissa exponent ∧ apply turns (.finite x) = some (.finite
      (lnSeriesAtZero mantissa + ((Int32.ofInt exponent).toInt : K) * ln10)) := by
  obtain ⟨turns, s, hscale, h⟩ := exists_scale hx
  refine ⟨turns, s.1, s.2, h, ?_⟩
  rw [apply, if_neg hx.not_gt, if_neg hx.ne', if_neg hone, new_eq, abs_of_pos hx, hscale]
  rfl

theorem apply_ends (x : Double K) : ∃ turns y, apply turns x = some y := by
  cases x with
  | nan => exact ⟨0, _, rfl⟩
  | infinite positive => exact ⟨0, _, rfl⟩
  | finite x =>
    rcases lt_trichotomy x 0 with hneg | rfl | hpos
    · exact ⟨0, _, if_pos hneg⟩
    · exact ⟨0, _, by rw [apply, if_neg (lt_irrefl 0), if_pos rfl]⟩
    · by_cases hone : x = 1
      · exact ⟨0, _, by rw [apply, if_neg hpos.not_gt, if_neg hpos.ne', if_pos hone]⟩
      · obtain ⟨turns, mantissa, exponent, -, h⟩ := exists_apply hpos hone
        exact ⟨turns, _, h⟩

end Representation

end Itmo.SoftwareTesting.Ln
