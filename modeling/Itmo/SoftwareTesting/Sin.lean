import Itmo.Lib.Double
import Itmo.SoftwareTesting.Pow
import Mathlib.Algebra.Order.Floor.Ring
import Mathlib.Analysis.SpecialFunctions.Trigonometric.Basic
import Mathlib.Data.Rat.Floor

/-! The sine of `software_testing` in exact arithmetic. The number of quarter turns in the argument
is cast to an `int`, so beyond `2 ^ 31` quarter turns more than one of them is left, and the series
refuses what is left. -/

namespace Itmo.SoftwareTesting

open Lib

namespace Constants

def PI : ℚ := 3.1415926535897932384626433832795028841971693993751058209749445923

end Constants

namespace Sin

section Definitions

variable {K : Type*} [Field K]

def pows : List PowTriplet :=
  (List.range 11).map fun i =>
    ⟨Int32.ofNat i, if i / 2 % 2 = 0 then 1 else -1, Pow.new (Int32.ofNat i)⟩

def oneDivSqrtTwo : K := 0.7071067811865475244008443621048490392848359376884740365883398689

inductive Thrown (K : Type*) where
  | illegalState (message : String)
  | illegalArgument (message : String) (x : K)

/-- One turn of the loop over `pows`, which changes `divider` and `ans`. -/
def addTerm (argShift : K) (s : Int32 × K) (pair : PowTriplet) : Int32 × K :=
  let divider := if pair.power ≠ 0 then s.1 * pair.power else s.1
  (divider, s.2 + oneDivSqrtTwo * (pair.sign.toInt : K) * pair.pow.apply argShift /
    (divider.toInt : K))

variable [LinearOrder K] (PI : K)

def sinPart (x : K) : Except (Thrown K) K :=
  if x < 0 ∨ PI / (2 : ℕ) < x then
    .error (.illegalArgument "Internal intermediate value should be in [0; pi/2], but it is " x)
  else .ok (pows.foldl (addTerm (x - PI / (4 : ℕ))) (1, 0)).2

variable [FloorRing K]

def index (x : K) : Int32 := toInt32 ((2 : ℕ) * x / PI)

/-- The value of the `switch`. -/
def quarter (group : Int32) (x : K) : Except (Thrown K) K :=
  match group.toInt with
  | 0 => sinPart PI x
  | 1 => sinPart PI (PI / (2 : ℕ) - x)
  | 2 => (sinPart PI x).map fun part => -part
  | 3 => (sinPart PI (PI / (2 : ℕ) - x)).map fun part => -part
  | _ => .error (.illegalState s!"Unexpected value: {group}")

def apply : Double K → Except (Thrown K) (Double K)
  | .nan | .infinite _ => .ok .nan
  | .finite x =>
    if x = 0 then .ok (.finite x)
    else do
      let sign : Int32 := if 0 ≤ x then 1 else -1
      let x := x * (sign.toInt : K)
      let group := index PI x % 4
      let part ← quarter PI group (x - ((index PI x).toInt : K) * PI / (2 : ℕ))
      return .finite ((sign.toInt : K) * part)

/-- What the quarter of `|x|` hands to `sinPart`. -/
def argument (x : K) : K :=
  let rest := |x| - ((index PI |x|).toInt : K) * PI / (2 : ℕ)
  if (index PI |x|).toInt % 2 = 0 then rest else PI / (2 : ℕ) - rest

/-- The factor in front of `sinPart`. -/
def factor (x : K) : K :=
  (if 0 ≤ x then 1 else -1) * (if (index PI |x|).toInt % 4 < 2 then 1 else -1)

/-- The argument is reduced to the first quarter, and nothing is thrown. -/
structure Reduces (x : K) : Prop where
  mem_quarter : argument PI x ∈ Set.Icc 0 (PI / 2)
  returns : ∃ y, apply PI (.finite x) = .ok y

end Definitions

section Reduction

variable {K : Type*} [Field K] [LinearOrder K] [IsStrictOrderedRing K] [FloorRing K] {PI x : K}

omit [IsStrictOrderedRing K] [FloorRing K] in
theorem sinPart_isOk_iff : (∃ y, sinPart PI x = .ok y) ↔ x ∈ Set.Icc 0 (PI / 2) := by
  have hrange : x ∈ Set.Icc 0 (PI / 2) ↔ ¬ (x < 0 ∨ PI / 2 < x) := by
    rw [Set.mem_Icc, not_or, not_lt, not_lt]
  rw [hrange, sinPart]
  split_ifs with h
  · exact iff_of_false (fun ⟨_, hy⟩ => by cases hy) (not_not.mpr h)
  · exact iff_of_true ⟨_, rfl⟩ h

/-! ### The quarters -/

theorem index_nonneg (hPI : 0 < PI) (hx : 0 ≤ x) : 0 ≤ (index PI x).toInt :=
  toInt32_nonneg (by positivity)

theorem quarter_eq (hPI : 0 < PI) (hx : 0 ≤ x) (rest : K) :
    quarter PI (index PI x % 4) rest =
      (sinPart PI (if (index PI x).toInt % 2 = 0 then rest else PI / 2 - rest)).map fun part =>
        (if (index PI x).toInt % 4 < 2 then 1 else -1) * part := by
  have hgroup : (index PI x % 4).toInt = (index PI x).toInt % 4 := by
    rw [Int32.toInt_mod]
    exact Int.tmod_eq_emod_of_nonneg (index_nonneg hPI hx)
  have hone : ∀ result : Except (Thrown K) K, result = result.map fun part => 1 * part := by
    rintro (e | part)
    · rfl
    · exact congrArg Except.ok (one_mul part).symm
  have hneg : ∀ result : Except (Thrown K) K,
      (result.map fun part => -part) = result.map fun part => -1 * part := by
    intro result
    simp only [neg_one_mul]
  rw [quarter, hgroup]
  generalize (index PI x).toInt = n
  obtain h | h | h | h : n % 4 = 0 ∨ n % 4 = 1 ∨ n % 4 = 2 ∨ n % 4 = 3 := by omega
  · rw [h, if_pos (show n % 2 = 0 by omega)]
    exact hone _
  · rw [h, if_neg (show ¬ n % 2 = 0 by omega)]
    exact hone _
  · rw [h, if_pos (show n % 2 = 0 by omega)]
    exact hneg _
  · rw [h, if_neg (show ¬ n % 2 = 0 by omega)]
    exact hneg _

/-- The series is summed at the argument of the quarter. -/
theorem apply_eq (hPI : 0 < PI) (hx : x ≠ 0) :
    apply PI (.finite x) =
      (sinPart PI (argument PI x)).map fun part => .finite (factor PI x * part) := by
  have hsign : (((if 0 ≤ x then 1 else -1 : Int32).toInt : ℤ) : K) = if 0 ≤ x then 1 else -1 := by
    split_ifs
    · exact Int.cast_one
    · exact (Int.cast_neg 1).trans (congrArg _ Int.cast_one)
  have habs : x * (if 0 ≤ x then 1 else -1) = |x| := by
    split_ifs with h
    · rw [mul_one, abs_of_nonneg h]
    · rw [mul_neg_one, abs_of_neg (not_le.mp h)]
  rw [apply, if_neg hx]
  simp only [hsign, habs, quarter_eq hPI (abs_nonneg x)]
  rw [argument, factor]
  cases sinPart PI _ with
  | error e => rfl
  | ok part => exact congrArg (fun y => Except.ok (Double.finite y)) (mul_assoc _ _ _).symm

/-! ### The range -/

theorem rest_nonneg (hPI : 0 < PI) (hx : 0 ≤ x) : 0 ≤ x - ((index PI x).toInt : K) * PI / 2 := by
  have hle : ((index PI x).toInt : K) ≤ 2 * x / PI := toInt32_le (by positivity)
  rw [le_div_iff₀ hPI] at hle
  linarith

/-- The rest is more than a quarter just if the number of quarters was out of range. -/
theorem rest_le_iff (hPI : 0 < PI) (hx : 0 ≤ x) :
    x - ((index PI x).toInt : K) * PI / 2 ≤ PI / 2 ↔ x ≤ 2 ^ 30 * PI := by
  have hiff : 2 * x / PI - ((index PI x).toInt : K) ≤ 1 ↔ 2 * x / PI ≤ 2 ^ 31 :=
    sub_toInt32_le_one_iff (by positivity)
  rw [sub_le_iff_le_add, div_le_iff₀ hPI, div_le_iff₀ hPI] at hiff
  constructor
  · intro h
    linarith [hiff.mp (by linarith)]
  · intro h
    linarith [hiff.mpr (by linarith)]

theorem argument_mem_iff (hPI : 0 < PI) :
    argument PI x ∈ Set.Icc 0 (PI / 2) ↔ |x| ≤ 2 ^ 30 * PI := by
  have hnonneg := rest_nonneg hPI (abs_nonneg x)
  rw [← rest_le_iff hPI (abs_nonneg x), argument, Set.mem_Icc]
  split_ifs
  · exact and_iff_right hnonneg
  · rw [sub_nonneg]
    exact and_iff_left (sub_le_self _ hnonneg)

/-- The reduction succeeds up to `2 ^ 31` quarter turns. -/
theorem reduces_iff_of_pos (hPI : 0 < PI) : Reduces PI x ↔ |x| ≤ 2 ^ 30 * PI := by
  rw [← argument_mem_iff hPI]
  refine ⟨Reduces.mem_quarter, fun h => ⟨h, ?_⟩⟩
  by_cases hx : x = 0
  · exact ⟨.finite x, by rw [apply, if_pos hx]⟩
  · obtain ⟨part, hpart⟩ := sinPart_isOk_iff.mpr h
    exact ⟨_, by rw [apply_eq hPI hx, hpart]; rfl⟩

theorem reduces_iff (x : ℚ) : Reduces Constants.PI x ↔ |x| ≤ 2 ^ 30 * Constants.PI :=
  reduces_iff_of_pos (by norm_num [Constants.PI])

/-- More than `2 ^ 32` quarter turns, of which the cast leaves one less than `2 ^ 31`. -/
theorem not_reduces_large : ¬ ∀ x : ℚ, Reduces Constants.PI x := by
  intro hall
  have h := (reduces_iff_of_pos (by norm_num [Constants.PI])).mp (hall (10 ^ 10))
  norm_num [Constants.PI] at h

end Reduction

/-! ### The sine -/

open Real in
theorem sin_add_quarters (rest : ℝ) (n : ℤ) :
    sin (rest + n * π / 2) =
      (if n % 4 < 2 then 1 else -1) * sin (if n % 2 = 0 then rest else π / 2 - rest) := by
  have hn : (n : ℝ) = 4 * (n / 4 : ℤ) + (n % 4 : ℤ) := by
    exact_mod_cast (Int.mul_ediv_add_emod n 4).symm
  have hturns : rest + n * π / 2 = rest + (n % 4 : ℤ) * π / 2 + (n / 4 : ℤ) * (2 * π) := by
    rw [hn]
    ring
  rw [hturns, sin_add_int_mul_two_pi]
  obtain h | h | h | h : n % 4 = 0 ∨ n % 4 = 1 ∨ n % 4 = 2 ∨ n % 4 = 3 := by omega
  · rw [h, if_pos (show (0 : ℤ) < 2 by decide), if_pos (show n % 2 = 0 by omega)]
    norm_num
  · rw [h, if_pos (show (1 : ℤ) < 2 by decide), if_neg (show ¬ n % 2 = 0 by omega),
      sin_pi_div_two_sub, ← sin_add_pi_div_two]
    norm_num
  · rw [h, if_neg (show ¬ (2 : ℤ) < 2 by decide), if_pos (show n % 2 = 0 by omega), neg_one_mul,
      ← sin_add_pi]
    congr 1
    push_cast
    ring
  · rw [h, if_neg (show ¬ (3 : ℤ) < 2 by decide), if_neg (show ¬ n % 2 = 0 by omega),
      sin_pi_div_two_sub, neg_one_mul, ← cos_add_pi, ← sin_add_pi_div_two]
    congr 1
    push_cast
    ring

/-- With the half turn itself for `PI`, the sine of what is handed to `sinPart` gives the sine. -/
theorem sin_eq_factor_mul (x : ℝ) :
    Real.sin x = factor Real.pi x * Real.sin (argument Real.pi x) := by
  have habs : Real.sin x = (if 0 ≤ x then 1 else -1) * Real.sin |x| := by
    split_ifs with h
    · rw [abs_of_nonneg h, one_mul]
    · rw [abs_of_neg (not_le.mp h), Real.sin_neg, neg_one_mul, neg_neg]
  have hrest := sin_add_quarters (|x| - (index Real.pi |x|).toInt * Real.pi / 2)
    (index Real.pi |x|).toInt
  rw [sub_add_cancel] at hrest
  rw [habs, hrest, factor, argument, mul_assoc, Nat.cast_ofNat]

end Sin

end Itmo.SoftwareTesting
