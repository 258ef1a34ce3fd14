import Itmo.SoftwareTesting.Table
import Mathlib.Analysis.Real.Pi.Irrational
import Mathlib.Analysis.SpecialFunctions.Log.Base
import Mathlib.Analysis.SpecialFunctions.Trigonometric.Complex

/-! The nine tables that the program computes, from -50 to 50 in steps of a tenth. With the numbers
and functions of analysis for those of the machine the table of the cosecant is never completed, as
zero is a point and a discontinuity; in the other tables no point is one. -/

namespace Itmo.SoftwareTesting.Table

open Lib

section Definitions

variable {K : Type} [Field K] [LinearOrder K] [FloorRing K]

/-- What the program uses of `f64`. -/
structure F64 (K : Type) where
  PI : K
  sin : K → K
  cos : K → K
  tan : K → K
  ln : K → Double K
  log : K → K → Double K

/-- `1f64 / x` -/
def reciprocal (x : K) : Double K := if x = 0 then .infinite true else .finite (1 / x)

/-- The multiples of `PI` in the range, shifted by a part of it. -/
def multiples (PI shift : K) (range : RangeInclusive K) : List K :=
  let l := toInt32 ((⌈range.start / PI - shift⌉ : ℤ) : K)
  let r := toInt32 ((⌊range.stop / PI - shift⌋ : ℤ) : K)
  (Int.range l.toInt (r.toInt + 1)).map fun n : ℤ => ((n : K) + shift) * PI

def tgSecDisc (PI : K) : RangeInclusive K → List K := multiples PI 0.5

def cosecDisc (PI : K) : RangeInclusive K → List K := multiples PI 0

def functions (f64 : F64 K) : List (Function K) :=
  [⟨"pow3", fun x => .finite (x ^ 3), fun _ => [], .unbounded, .unbounded⟩,
    ⟨"sin", fun x => .finite (f64.sin x), fun _ => [], .unbounded, .unbounded⟩,
    ⟨"cos", fun x => .finite (f64.cos x), fun _ => [], .unbounded, .unbounded⟩,
    ⟨"tg", fun x => .finite (f64.tan x), tgSecDisc f64.PI, .unbounded, .unbounded⟩,
    ⟨"sec", fun x => reciprocal (f64.cos x), tgSecDisc f64.PI, .unbounded, .unbounded⟩,
    ⟨"cosec", fun x => reciprocal (f64.sin x), cosecDisc f64.PI, .unbounded, .unbounded⟩,
    ⟨"ln", f64.ln, fun _ => [], .included 0.0001, .unbounded⟩,
    ⟨"log3", fun x => f64.log x (3 : ℕ), fun _ => [], .included 0.0001, .unbounded⟩,
    ⟨"log5", fun x => f64.log x (5 : ℕ), fun _ => [], .included 0.0001, .unbounded⟩]

def mainRange : RangeInclusive K := ⟨-(50 : ℕ), (50 : ℕ)⟩

end Definitions

/-! ### The discontinuities -/

section Multiples

variable {K : Type} [Field K] [LinearOrder K] [IsStrictOrderedRing K] [FloorRing K]

/-- The discontinuities are the shifted multiples in the range, unless a cast saturates. -/
theorem mem_multiples_iff {PI shift x : K} {range : RangeInclusive K} (hPI : 0 < PI)
    (hstart : |range.start / PI - shift| ≤ 2 ^ 30) (hstop : |range.stop / PI - shift| ≤ 2 ^ 30) :
    x ∈ multiples PI shift range ↔
      ∃ n : ℤ, x = (n + shift) * PI ∧ range.start ≤ x ∧ x ≤ range.stop := by
  have hpower : ((2 ^ 30 : ℤ) : K) = 2 ^ 30 := by norm_num
  rw [abs_le, ← hpower, ← Int.cast_neg] at hstart hstop
  have hl : ⌈range.start / PI - shift⌉ ≤ 2 ^ 30 := Int.ceil_le.mpr hstart.2
  have hl' : -2 ^ 30 ≤ ⌈range.start / PI - shift⌉ :=
    Int.cast_le.mp (hstart.1.trans (Int.le_ceil _))
  have hr : ⌊range.stop / PI - shift⌋ ≤ 2 ^ 30 :=
    Int.cast_le.mp ((Int.floor_le _).trans hstop.2)
  have hr' : -2 ^ 30 ≤ ⌊range.stop / PI - shift⌋ := Int.le_floor.mpr hstop.1
  rw [multiples, toInt_toInt32_intCast (by omega) (by omega),
    toInt_toInt32_intCast (by omega) (by omega), List.mem_map]
  refine exists_congr fun n => ?_
  rw [Int.mem_range_iff, Int.lt_add_one_iff, Int.ceil_le, Int.le_floor, sub_le_iff_le_add,
    le_sub_iff_add_le, div_le_iff₀ hPI, le_div_iff₀ hPI]
  constructor
  · rintro ⟨hrange, rfl⟩
    exact ⟨rfl, hrange⟩
  · rintro ⟨rfl, hrange⟩
    exact ⟨hrange, rfl⟩

end Multiples

/-! ### The tables -/

section Analysis

noncomputable def analysis : F64 ℝ where
  PI := Real.pi
  sin := Real.sin
  cos := Real.cos
  tan := Real.tan
  ln x := if 0 < x then .finite (Real.log x) else if x = 0 then .infinite false else .nan
  log x base :=
    if 0 < x then .finite (Real.logb base x) else if x = 0 then .infinite false else .nan

theorem mem_disc_iff {shift x : ℝ} (hshift : |shift| ≤ 1) :
    x ∈ multiples Real.pi shift mainRange ↔
      ∃ n : ℤ, x = (n + shift) * Real.pi ∧ -50 ≤ x ∧ x ≤ 50 := by
  have hbound : ∀ a : ℝ, |a| ≤ 50 → |a / Real.pi - shift| ≤ 2 ^ 30 := by
    intro a ha
    calc |a / Real.pi - shift| ≤ |a / Real.pi| + |shift| := abs_sub _ _
      _ ≤ 50 + 1 := by
        refine add_le_add ?_ hshift
        rw [abs_div, abs_of_pos Real.pi_pos, div_le_iff₀ Real.pi_pos]
        linarith [Real.two_le_pi]
      _ ≤ 2 ^ 30 := by norm_num
  exact mem_multiples_iff Real.pi_pos (hbound _ (by norm_num [mainRange]))
    (hbound _ (by norm_num [mainRange]))

theorem hasValues_reciprocal {name : String} {g : ℝ → ℝ} {disc : RangeInclusive ℝ → List ℝ}
    (h : ∀ x, -50 ≤ x → x ≤ 50 → g x = 0 → x ∈ disc mainRange) :
    Function.HasValues ⟨name, fun x => reciprocal (g x), disc, .unbounded, .unbounded⟩
      mainRange := by
  intro x hleft hright hx
  refine ⟨1 / g x, ?_⟩
  exact if_neg fun hzero => hx (h x hleft hright hzero)

/-- A point is a rational number, the half multiples of the half turn are not. -/
theorem point_not_mem_tgSecDisc (i : ℕ) :
    -50 + (i : ℝ) * (1 / 10) ∉ tgSecDisc Real.pi mainRange := by
  intro hmem
  obtain ⟨n, hn, -⟩ := (mem_disc_iff (by norm_num)).mp hmem
  have hne : ((n : ℚ) + 1 / 2) ≠ 0 := by
    intro hzero
    have hodd : ((2 * n + 1 : ℤ) : ℚ) = (0 : ℤ) := by
      push_cast
      linarith
    have := Int.cast_inj.mp hodd
    omega
  have hirrational : Irrational ((((n : ℚ) + 1 / 2 : ℚ) : ℝ) * Real.pi) :=
    irrational_pi.ratCast_mul hne
  refine hirrational ⟨-50 + i * (1 / 10), ?_⟩
  push_cast
  rw [hn]
  norm_num

theorem completes_of_no_discontinuities {f : Function ℝ} {display : Display ℝ}
    (hvalues : f.HasValues mainRange) (hdisc : f.discontinuitier mainRange = []) :
    f.Completes mainRange display (1 / 10) := by
  refine (Function.completes_iff_of_hasValues (by norm_num) hvalues).mpr fun i _ => ?_
  rw [hdisc]
  exact List.not_mem_nil

theorem hasValues_ln {name : String} {g : ℝ → Double ℝ} {disc : RangeInclusive ℝ → List ℝ}
    (h : ∀ x, 0 < x → ∃ y, g x = .finite y) :
    Function.HasValues ⟨name, g, disc, .included 0.0001, .unbounded⟩ mainRange := by
  intro x hleft _ _
  have hbound : (0.0001 : ℝ) ≤ x := by
    refine le_trans ?_ hleft
    norm_num [Function.left, mainRange]
  exact h x (by linarith)

/-- Zero is the point after five hundred steps. -/
theorem not_completes_cosec (name : String) (display : Display ℝ) :
    ¬ Function.Completes ⟨name, fun x => reciprocal (Real.sin x), cosecDisc Real.pi, .unbounded,
      .unbounded⟩ mainRange display (1 / 10) := by
  intro hcompletes
  refine (Function.completes_iff_of_hasValues (by norm_num) ?_).mp hcompletes 500 ?_ ?_
  · refine hasValues_reciprocal fun x hleft hright hzero => ?_
    obtain ⟨n, rfl⟩ := Real.sin_eq_zero_iff.mp hzero
    exact (mem_disc_iff (by norm_num)).mpr ⟨n, by rw [add_zero], hleft, hright⟩
  · norm_num [Function.left, Function.right, mainRange]
  · refine (mem_disc_iff (by norm_num)).mpr ⟨0, ?_, ?_, ?_⟩
    · norm_num [Function.left, mainRange]
    · norm_num [Function.left, mainRange]
    · norm_num [Function.left, mainRange]

/-- Of the tables that the program computes, only that of the cosecant is never completed. -/
theorem main_completes_iff (display : Display ℝ) :
    ∀ f ∈ functions analysis, f.Completes mainRange display (1 / 10) ↔ f.name ≠ "cosec" := by
  have hlog : ∀ x base : ℝ, 0 < x → ∃ y, analysis.log x base = .finite y := fun x base hx =>
    ⟨Real.logb base x, if_pos hx⟩
  have htgSec : ∀ f : Function ℝ, f.HasValues mainRange → f.discontinuitier = tgSecDisc Real.pi →
      f.left mainRange = -50 → f.Completes mainRange display (1 / 10) := by
    intro f hvalues hdisc hleft
    refine (Function.completes_iff_of_hasValues (by norm_num) hvalues).mpr fun i _ => ?_
    rw [hdisc, hleft]
    exact point_not_mem_tgSecDisc i
  simp only [functions, List.forall_mem_cons, List.not_mem_nil, false_imp_iff, implies_true,
    and_true]
  refine ⟨iff_of_true ?_ (by decide), iff_of_true ?_ (by decide), iff_of_true ?_ (by decide),
    iff_of_true ?_ (by decide), iff_of_true ?_ (by decide), iff_of_false ?_ (by decide),
    iff_of_true ?_ (by decide), iff_of_true ?_ (by decide), iff_of_true ?_ (by decide)⟩
  · exact completes_of_no_discontinuities (fun _ _ _ _ => ⟨_, rfl⟩) rfl
  · exact completes_of_no_discontinuities (fun _ _ _ _ => ⟨_, rfl⟩) rfl
  · exact completes_of_no_discontinuities (fun _ _ _ _ => ⟨_, rfl⟩) rfl
  · exact htgSec _ (fun _ _ _ _ => ⟨_, rfl⟩) rfl rfl
  · refine htgSec _ (hasValues_reciprocal fun x hleft hright hzero => ?_) rfl rfl
    obtain ⟨n, hn⟩ := Real.cos_eq_zero_iff.mp hzero
    refine (mem_disc_iff (by norm_num)).mpr ⟨n, ?_, hleft, hright⟩
    rw [hn]
    ring
  · exact not_completes_cosec "cosec" display
  · exact completes_of_no_discontinuities (hasValues_ln fun x hx => ⟨_, if_pos hx⟩) rfl
  · exact completes_of_no_discontinuities (hasValues_ln fun x hx => hlog x 3 hx) rfl
  · exact completes_of_no_discontinuities (hasValues_ln fun x hx => hlog x 5 hx) rfl

end Analysis

end Itmo.SoftwareTesting.Table
