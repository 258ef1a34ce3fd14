import Itmo.Vmath.HalfDivide
import Itmo.Vmath.SystemNewton
import Mathlib.Analysis.Calculus.Deriv.MeanValue
import Mathlib.Analysis.Calculus.Deriv.Polynomial
import Mathlib.Analysis.Convex.Slope
import Mathlib.Analysis.Convex.SpecificFunctions.Deriv
import Mathlib.Analysis.Polynomial.Basic
import Mathlib.Topology.Algebra.Polynomial
import Mathlib.Topology.Sequences

/-! The simple iteration of `vmath2` in exact arithmetic. The function `phi` subtracts the value of
the function over the greatest slope at the ends, also when the function falls and the value
should be added, and a slope of `phi` is refused only when it is greater than those at the ends,
also when these are above one. So iterates that run away from the root, or around it, can go on
for ever. -/

namespace Itmo.Vmath

open Lib Filter Topology Polynomial Set

section Definitions

variable {K : Type} [Field K] [LinearOrder K]

/-- `Util.getDerivative` of a function of one argument. -/
def getDerivative (f : K → K) : ℕ → K → K
  | 0 => f
  | level + 1 => fun arg =>
    (getDerivative f level (arg + epsilon) - getDerivative f level arg) / epsilon

namespace SimpleIteration

structure State (K : Type) where
  x : K
  x1 : K
  actions : Actions K

def addAction (x xOld : K) (function : K → K) (actions : Actions K) : Actions K :=
  actions ++ [[("x_k", xOld), ("x_k+1", x), ("f(x_k+1)", function x),
    ("|x_k+1 - x_k|", |x - xOld|)]]

variable (left right : K) (function : K → K)

/-- The number that `l` divides by. -/
def divisor : K := max |getDerivative function 1 left| |getDerivative function 1 right|

def phi (arg : K) : K := arg + -1 / divisor left right function * function arg

def q : K :=
  max |getDerivative (phi left right function) 1 left|
    |getDerivative (phi left right function) 1 right|

/-- The end that the iterates start from. -/
def first : K := if 0 < function left * getDerivative function 2 left then left else right

def start : State K :=
  let x := first left right function
  let x1 := phi left right function x
  ⟨x, x1, addAction x1 x function []⟩

/-- One turn of the loop. -/
def turn (s : State K) : Except String (State K) :=
  if q left right function < |getDerivative (phi left right function) 1 s.x1| then
    .error "Не сходится по достаточному условию сходимости"
  else
    let x := s.x1
    let x1 := phi left right function x
    .ok ⟨x, x1, addAction x1 x function s.actions⟩

def loop (turns : ℕ) (precision : K) : Option (Except String (State K)) :=
  tryLoop (fun s : State K => precision < |s.x - s.x1|) (turn left right function) turns
    (start left right function)

def solve (turns : ℕ) (precision : K) : Option (Except String (K × Actions K)) :=
  match checkSigns left right function with
  | .error e => some (.error e)
  | .ok () => (loop left right function turns precision).map
    (Except.map fun s => (s.x1, s.actions))

/-- The loop returns or throws. -/
def Ends (precision : K) : Prop :=
  ∃ turns answer, solve left right function turns precision = some answer

end SimpleIteration

end Definitions

namespace SimpleIteration

variable {left right precision : ℝ} {function : ℝ → ℝ}

/-- The iterates, if the loop went on for ever. -/
noncomputable def orbit (left right : ℝ) (function : ℝ → ℝ) (n : ℕ) : ℝ :=
  (phi left right function)^[n] (first left right function)

theorem phi_eq (x : ℝ) :
    phi left right function x = x - function x / divisor left right function := by
  rw [phi]
  ring

theorem orbit_succ (n : ℕ) : orbit left right function (n + 1) =
    phi left right function (orbit left right function n) :=
  Function.iterate_succ_apply' _ n _

/-- The next state of the loop, if it does not throw. -/
noncomputable def next (left right : ℝ) (function : ℝ → ℝ) (s : State ℝ) : State ℝ :=
  ⟨s.x1, phi left right function s.x1,
    addAction (phi left right function s.x1) s.x1 function s.actions⟩

theorem turn_eq (s : State ℝ) : turn left right function s =
    if q left right function < |getDerivative (phi left right function) 1 s.x1| then
      .error "Не сходится по достаточному условию сходимости"
    else .ok (next left right function s) := rfl

theorem iterate_next (n : ℕ) :
    ((next left right function)^[n] (start left right function)).x = orbit left right function n ∧
      ((next left right function)^[n] (start left right function)).x1 =
        orbit left right function (n + 1) := by
  induction n with
  | zero => exact ⟨rfl, rfl⟩
  | succ n ih =>
    rw [Function.iterate_succ_apply', next, orbit_succ (n + 1), ih.2]
    exact ⟨rfl, rfl⟩

theorem ends_iff_orbit (hsign : function left * function right ≤ 0) :
    Ends left right function precision ↔
      ∃ n, |orbit left right function n - orbit left right function (n + 1)| ≤ precision ∨
        q left right function <
          |getDerivative (phi left right function) 1 (orbit left right function (n + 1))| := by
  have hloop : Ends left right function precision ↔
      ∃ turns r, loop left right function turns precision = some r := by
    simp only [Ends, solve, checkSigns_ok hsign, Option.map_eq_some_iff]
    constructor
    · rintro ⟨turns, _, r, hr, -⟩
      exact ⟨turns, r, hr⟩
    · rintro ⟨turns, r, hr⟩
      exact ⟨turns, _, r, hr, rfl⟩
  rw [hloop]
  refine (tryLoop_ends_iff turn_eq).trans ?_
  refine exists_congr fun n => ?_
  rw [(iterate_next n).1, (iterate_next n).2, not_lt]

/-- The distance of two iterates is the value of the function over the divisor. -/
theorem distance_orbit (n : ℕ) : |orbit left right function n - orbit left right function (n + 1)| =
    |function (orbit left right function n)| / divisor left right function := by
  have hdivisor : 0 ≤ divisor left right function := le_max_of_le_left (abs_nonneg _)
  rw [orbit_succ, phi_eq, sub_sub_cancel, abs_div, abs_of_nonneg hdivisor]

theorem ends_iff_value (hsign : function left * function right ≤ 0)
    (hdivisor : divisor left right function ≠ 0) :
    Ends left right function precision ↔
      ∃ n, |function (orbit left right function n)| ≤ precision * divisor left right function ∨
        q left right function <
          |getDerivative (phi left right function) 1 (orbit left right function (n + 1))| := by
  have hpos : 0 < divisor left right function :=
    lt_of_le_of_ne (le_max_of_le_left (abs_nonneg _)) hdivisor.symm
  rw [ends_iff_orbit hsign]
  simp only [distance_orbit, div_le_iff₀ hpos]

/-! ### Iterates that come back to a root -/

/-- A sequence that stays in roots, on which the function takes values as small as one likes,
takes them again and again. -/
theorem frequently_small {x : ℕ → ℝ} (hroots : ∀ n, function (x n) = 0 → function (x (n + 1)) = 0)
    (hsmall : ∀ p > 0, ∃ n, |function (x n)| ≤ p) (p : ℝ) (hp : 0 < p) :
    ∃ᶠ n in atTop, |function (x n)| ≤ p := by
  rw [frequently_atTop]
  intro N
  induction N generalizing p with
  | zero =>
    obtain ⟨n, hn⟩ := hsmall p hp
    exact ⟨n, Nat.zero_le n, hn⟩
  | succ N ih =>
    rcases eq_or_ne (function (x N)) 0 with hzero | hne
    · refine ⟨N + 1, le_rfl, ?_⟩
      rw [hroots N hzero, abs_zero]
      exact hp.le
    · -- a value below the one at the last index comes later
      have hpos : 0 < |function (x N)| / 2 := half_pos (abs_pos.mpr hne)
      obtain ⟨n, hn, hvalue⟩ := ih (min p (|function (x N)| / 2)) (lt_min hp hpos)
      have hother : n ≠ N := by
        rintro rfl
        linarith [hvalue.trans (min_le_right _ _)]
      exact ⟨n, by omega, hvalue.trans (min_le_left _ _)⟩

/-- Small values mean a root that the sequence comes back to. -/
theorem small_iff_cluster (hproper : IsProperMap function) {x : ℕ → ℝ}
    (hroots : ∀ n, function (x n) = 0 → function (x (n + 1)) = 0) :
    (∀ p > 0, ∃ n, |function (x n)| ≤ p) ↔ ∃ ξ, function ξ = 0 ∧ MapClusterPt ξ atTop x := by
  have hcontinuous := hproper.continuous
  constructor
  · intro hsmall
    obtain ⟨φ, hφ, hvalues⟩ := extraction_forall_of_frequently fun n : ℕ =>
      frequently_small hroots hsmall (1 / ((n : ℝ) + 1)) (by positivity)
    have hcompact : IsCompact (Set.preimage function (Icc (-1) 1)) :=
      hproper.isCompact_preimage isCompact_Icc
    have hmem : ∀ n, (x ∘ φ) n ∈ Set.preimage function (Icc (-1) 1) := by
      intro n
      have hone : 1 / ((n : ℝ) + 1) ≤ 1 := by
        rw [div_le_one (by positivity)]
        linarith [(Nat.cast_nonneg n : (0 : ℝ) ≤ n)]
      exact abs_le.mp ((hvalues n).trans hone)
    obtain ⟨ξ, -, ψ, hψ, hξ⟩ := hcompact.tendsto_subseq hmem
    refine ⟨ξ, ?_, (hξ.mapClusterPt).of_comp (hφ.comp hψ).tendsto_atTop⟩
    have hvalue : Tendsto (fun n => |function (x (φ (ψ n)))|) atTop (𝓝 |function ξ|) :=
      ((hcontinuous.tendsto ξ).comp hξ).abs
    have hzero : Tendsto (fun n : ℕ => 1 / ((ψ n : ℝ) + 1)) atTop (𝓝 0) :=
      tendsto_one_div_add_atTop_nhds_zero_nat.comp hψ.tendsto_atTop
    have hle : |function ξ| ≤ 0 := le_of_tendsto_of_tendsto' hvalue hzero fun n => hvalues (ψ n)
    exact abs_eq_zero.mp (le_antisymm hle (abs_nonneg _))
  · rintro ⟨ξ, hroot, hcluster⟩ p hp
    have hnear : ∀ᶠ y in 𝓝 ξ, |function y| < p := by
      have hlimit := (hcontinuous.tendsto ξ).abs
      rw [hroot, abs_zero] at hlimit
      exact (tendsto_order.1 hlimit).2 p hp
    obtain ⟨n, hn⟩ := (hcluster.frequently hnear).exists
    exact ⟨n, hn.le⟩

/-- The loop ends for every precision just if the check refuses an iterate or the iterates come
back to a root. -/
theorem forall_ends_iff (hproper : IsProperMap function)
    (hsign : function left * function right ≤ 0) (hdivisor : 0 < divisor left right function) :
    (∀ precision > 0, Ends left right function precision) ↔
      (∃ n, q left right function <
        |getDerivative (phi left right function) 1 (orbit left right function (n + 1))|) ∨
      ∃ ξ, function ξ = 0 ∧ MapClusterPt ξ atTop (orbit left right function) := by
  have hroots : ∀ n, function (orbit left right function n) = 0 →
      function (orbit left right function (n + 1)) = 0 := by
    intro n hn
    rw [orbit_succ, phi_eq, hn, zero_div, sub_zero, hn]
  rw [← small_iff_cluster hproper hroots]
  constructor
  · intro hends
    by_contra hnot
    rw [not_or] at hnot
    refine hnot.2 fun p hp => ?_
    obtain ⟨n, hn⟩ := (ends_iff_value hsign hdivisor.ne').mp (hends _ (div_pos hp hdivisor))
    rw [div_mul_cancel₀ _ hdivisor.ne'] at hn
    exact ⟨n, hn.resolve_right fun hrefused => hnot.1 ⟨n, hrefused⟩⟩
  · rintro (⟨n, hn⟩ | hsmall) precision hprecision
    · exact (ends_iff_value hsign hdivisor.ne').mpr ⟨n, Or.inr hn⟩
    · obtain ⟨n, hn⟩ := hsmall _ (mul_pos hprecision hdivisor)
      exact (ends_iff_value hsign hdivisor.ne').mpr ⟨n, Or.inl hn⟩

/-! ### Lines -/

theorem epsilon_pos : (0 : ℝ) < epsilon := by
  norm_num [epsilon]

theorem getDerivative_succ (level : ℕ) (x : ℝ) : getDerivative function (level + 1) x =
    (getDerivative function level (x + epsilon) - getDerivative function level x) / epsilon :=
  rfl

theorem getDerivative_line {a b : ℝ} (hline : ∀ x, function x = a * x + b) (x : ℝ) :
    getDerivative function 1 x = a := by
  rw [getDerivative_succ, getDerivative, hline, hline, div_eq_iff epsilon_pos.ne']
  ring

theorem first_line {a b : ℝ} (hline : ∀ x, function x = a * x + b) :
    first left right function = right := by
  have hsecond : getDerivative function 2 left = 0 := by
    rw [getDerivative_succ, getDerivative_line hline, getDerivative_line hline, sub_self, zero_div]
  rw [first, hsecond, mul_zero, if_neg (lt_irrefl 0)]

theorem divisor_line {a b : ℝ} (hline : ∀ x, function x = a * x + b) :
    divisor left right function = |a| := by
  rw [divisor, getDerivative_line hline, getDerivative_line hline, max_self]

theorem phi_line {a b : ℝ} (hline : ∀ x, function x = a * x + b) (x : ℝ) :
    phi left right function x = x + -1 / |a| * (a * x + b) := by
  rw [phi, divisor_line hline, hline]

theorem phi_falling {a b : ℝ} (hline : ∀ x, function x = a * x + b) (ha : a < 0) (x : ℝ) :
    phi left right function x = 2 * x + b / a := by
  have hne : a ≠ 0 := ha.ne
  rw [phi_line hline, abs_of_neg ha]
  field_simp
  ring

theorem orbit_falling {a b : ℝ} (hline : ∀ x, function x = a * x + b) (ha : a < 0) (n : ℕ) :
    function (orbit left right function n) = 2 ^ n * function right := by
  have hne : a ≠ 0 := ha.ne
  induction n with
  | zero => rw [orbit, Function.iterate_zero_apply, first_line hline, pow_zero, one_mul]
  | succ n ih =>
    rw [orbit_succ, phi_falling hline ha, hline, pow_succ, mul_right_comm, ← ih, hline]
    field_simp
    ring

/-- A rising line is solved in one turn; on a falling one, every turn doubles the distance from
the root and passes the check. -/
theorem ends_line_iff {a b : ℝ} (hline : ∀ x, function x = a * x + b) (ha : a ≠ 0)
    (hsign : function left * function right ≤ 0) (hprecision : 0 < precision) :
    Ends left right function precision ↔ 0 < a ∨ |function right| ≤ precision * |a| := by
  have hdivisor : divisor left right function = |a| := divisor_line hline
  rw [ends_iff_value hsign (by rw [hdivisor]; exact abs_ne_zero.mpr ha), hdivisor]
  rcases lt_or_gt_of_ne ha with hneg | hpos
  · have hpasses : ∀ x, ¬ q left right function <
        |getDerivative (phi left right function) 1 x| := by
      intro x
      rw [q, getDerivative_line (phi_falling hline hneg),
        getDerivative_line (phi_falling hline hneg), getDerivative_line (phi_falling hline hneg),
        max_self]
      exact lt_irrefl _
    have hvalue : ∀ n, |function (orbit left right function n)| = 2 ^ n * |function right| := by
      intro n
      rw [orbit_falling hline hneg, abs_mul, abs_of_pos (pow_pos two_pos n)]
    rw [or_iff_right (not_lt.mpr hneg.le)]
    simp only [hpasses, or_false, hvalue]
    constructor
    · rintro ⟨n, hn⟩
      exact (le_mul_of_one_le_left (abs_nonneg _) (one_le_pow₀ one_le_two)).trans hn
    · intro h
      exact ⟨0, by rwa [pow_zero, one_mul]⟩
  · refine iff_of_true ⟨1, Or.inl ?_⟩ (Or.inl hpos)
    have hzero : function (orbit left right function 1) = 0 := by
      rw [orbit_succ, phi_line hline, hline, abs_of_pos hpos]
      field_simp
      ring
    rw [hzero, abs_zero]
    exact mul_nonneg hprecision.le (abs_nonneg a)

/-! ### Iterates that go to a root from one side -/

/-- As long as the value lies between zero and the line of the divisor's slope, an iterate lies
between the root and the one before it. -/
theorem phi_mem_uIcc (hdivisor : 0 < divisor left right function) {ξ x : ℝ}
    (hvalue : function x ∈ uIcc 0 (divisor left right function * (x - ξ))) :
    phi left right function x ∈ uIcc ξ x := by
  rw [phi_eq]
  rcases mem_uIcc.mp hvalue with ⟨hlow, hhigh⟩ | ⟨hlow, hhigh⟩
  · have hle : function x / divisor left right function ≤ x - ξ :=
      (div_le_iff₀' hdivisor).mpr hhigh
    have hnonneg := div_nonneg hlow hdivisor.le
    exact mem_uIcc.mpr (Or.inl ⟨by linarith, by linarith⟩)
  · have hle : x - ξ ≤ function x / divisor left right function :=
      (le_div_iff₀' hdivisor).mpr hlow
    have hnonpos := div_nonpos_of_nonpos_of_nonneg hhigh hdivisor.le
    exact mem_uIcc.mpr (Or.inr ⟨by linarith, by linarith⟩)

/-- Then the distance from the root falls by the distance of the iterates, which so comes down to
every precision. -/
theorem ends_toward (hsign : function left * function right ≤ 0) (hprecision : 0 < precision)
    (hdivisor : 0 < divisor left right function) {ξ : ℝ}
    (hvalues : ∀ x ∈ uIcc ξ (first left right function),
      function x ∈ uIcc 0 (divisor left right function * (x - ξ))) :
    Ends left right function precision := by
  have horbit : ∀ n, orbit left right function n ∈ uIcc ξ (first left right function) := by
    intro n
    induction n with
    | zero => exact right_mem_uIcc
    | succ n ih =>
      rw [orbit_succ]
      exact uIcc_subset_uIcc_left ih (phi_mem_uIcc hdivisor (hvalues _ ih))
  have hfall : ∀ n, |orbit left right function (n + 1) - ξ| +
      |orbit left right function n - orbit left right function (n + 1)| =
      |orbit left right function n - ξ| := by
    intro n
    have hbetween := phi_mem_uIcc hdivisor (hvalues _ (horbit n))
    rw [← orbit_succ] at hbetween
    rcases mem_uIcc.mp hbetween with ⟨hlow, hhigh⟩ | ⟨hlow, hhigh⟩
    · rw [abs_of_nonneg (by linarith), abs_of_nonneg (by linarith), abs_of_nonneg (by linarith)]
      ring
    · rw [abs_of_nonpos (by linarith), abs_of_nonpos (by linarith), abs_of_nonpos (by linarith)]
      ring
  have hanti : Antitone fun n => |orbit left right function n - ξ| := by
    refine antitone_nat_of_succ_le fun n => ?_
    rw [← hfall n]
    exact le_add_of_nonneg_right (abs_nonneg _)
  have hlimit := tendsto_atTop_ciInf hanti ⟨0, by rintro _ ⟨n, rfl⟩; exact abs_nonneg _⟩
  have hstep := hlimit.sub (hlimit.comp (tendsto_add_atTop_nat 1))
  rw [sub_self] at hstep
  obtain ⟨n, hn⟩ := ((tendsto_order.1 hstep).2 _ hprecision).exists
  rw [Function.comp_apply, ← hfall n, add_sub_cancel_left] at hn
  exact (ends_iff_orbit hsign).mpr ⟨n, Or.inl hn.le⟩

theorem first_mem (hlr : left ≤ right) : first left right function ∈ Icc left right := by
  rw [first]
  split_ifs
  · exact left_mem_Icc.mpr hlr
  · exact right_mem_Icc.mpr hlr

/-- The function rises between the ends, and nowhere by more than the divisor. -/
theorem ends_of_slopes (hcontinuous : Continuous function) (hlr : left ≤ right)
    (hsign : function left * function right ≤ 0) (hdivisor : 0 < divisor left right function)
    (hslopes : ∀ x ∈ Icc left right, ∀ y ∈ Icc left right, x ≤ y → 0 ≤ function y - function x ∧
      function y - function x ≤ divisor left right function * (y - x))
    (hprecision : 0 < precision) : Ends left right function precision := by
  obtain ⟨ξ, hξ, hroot⟩ := exists_root hcontinuous hlr hsign
  refine ends_toward hsign hprecision hdivisor (ξ := ξ) fun x hx => ?_
  have hmem : x ∈ Icc left right := uIcc_subset_Icc hξ (first_mem hlr) hx
  rcases le_total ξ x with hle | hle
  · have hrise := hslopes ξ hξ x hmem hle
    rw [hroot, sub_zero] at hrise
    exact mem_uIcc.mpr (Or.inl hrise)
  · have hrise := hslopes x hmem ξ hξ hle
    rw [hroot, zero_sub, neg_nonneg, neg_le, ← mul_neg, neg_sub] at hrise
    exact mem_uIcc.mpr (Or.inr hrise.symm)

/-! ### Iterates that go away -/

theorem getDerivative_phi (x : ℝ) : getDerivative (phi left right function) 1 x =
    1 - getDerivative function 1 x / divisor left right function := by
  have hepsilon := epsilon_pos.ne'
  simp only [getDerivative, phi_eq]
  field_simp
  ring

/-- The check refuses an iterate where the function falls more steeply than at both ends. -/
theorem q_lt_of_steeper (hdivisor : 0 < divisor left right function) {x : ℝ}
    (hleft : getDerivative function 1 x < getDerivative function 1 left)
    (hright : getDerivative function 1 x < getDerivative function 1 right) :
    q left right function < |getDerivative (phi left right function) 1 x| := by
  have hend : ∀ y, |getDerivative function 1 y| ≤ divisor left right function →
      getDerivative function 1 x < getDerivative function 1 y →
      |getDerivative (phi left right function) 1 y| <
        |getDerivative (phi left right function) 1 x| := by
    intro y hy hlt
    have hone : getDerivative function 1 y / divisor left right function ≤ 1 :=
      (div_le_one hdivisor).mpr ((le_abs_self _).trans hy)
    have hquotient := div_lt_div_of_pos_right hlt hdivisor
    rw [getDerivative_phi y, abs_of_nonneg (sub_nonneg.mpr hone)]
    refine lt_of_lt_of_le ?_ (le_abs_self _)
    rw [getDerivative_phi x]
    linarith
  exact max_lt (hend left (le_max_left _ _) hleft) (hend right (le_max_right _ _) hright)

theorem ends_of_steeper (hsign : function left * function right ≤ 0)
    (hdivisor : 0 < divisor left right function)
    (hleft : getDerivative function 1 (orbit left right function 1) <
      getDerivative function 1 left)
    (hright : getDerivative function 1 (orbit left right function 1) <
      getDerivative function 1 right) : Ends left right function precision :=
  (ends_iff_orbit hsign).mpr ⟨0, Or.inr (q_lt_of_steeper hdivisor hleft hright)⟩

/-! ### Convex and concave functions -/

/-- Of two segments, the slope is greater over the one whose ends both lie to the right. -/
theorem slope_lt_slope (hconvex : StrictConvexOn ℝ univ function) {a b c d : ℝ} (hab : a < b)
    (hcd : c < d) (hac : a ≤ c) (hbd : b < d) :
    (function b - function a) / (b - a) < (function d - function c) / (d - c) := by
  have had : a < d := hab.trans hbd
  calc (function b - function a) / (b - a)
      < (function d - function a) / (d - a) :=
        hconvex.secant_strict_mono (mem_univ a) (mem_univ b) (mem_univ d) hab.ne' had.ne' hbd
    _ = (function a - function d) / (a - d) := by rw [← neg_div_neg_eq, neg_sub, neg_sub]
    _ ≤ (function c - function d) / (c - d) :=
        hconvex.convexOn.secant_mono (mem_univ d) (mem_univ a) (mem_univ c) had.ne hcd.ne hac
    _ = (function d - function c) / (d - c) := by rw [← neg_div_neg_eq, neg_sub, neg_sub]

theorem getDerivative_strictMono (hconvex : StrictConvexOn ℝ univ function) :
    StrictMono (getDerivative function 1) := by
  intro x y hxy
  have hslope := slope_lt_slope hconvex (lt_add_of_pos_right x epsilon_pos)
    (lt_add_of_pos_right y epsilon_pos) hxy.le (add_lt_add_left hxy epsilon)
  rwa [add_sub_cancel_left, add_sub_cancel_left] at hslope

theorem getDerivative_two_pos (hconvex : StrictConvexOn ℝ univ function) (x : ℝ) :
    0 < getDerivative function 2 x := by
  have hlt := getDerivative_strictMono hconvex (lt_add_of_pos_right x epsilon_pos)
  rw [getDerivative_succ]
  exact div_pos (sub_pos.mpr hlt) epsilon_pos

theorem getDerivative_neg (level : ℕ) (x : ℝ) :
    getDerivative (-function) level x = -getDerivative function level x := by
  induction level generalizing x with
  | zero => rfl
  | succ level ih =>
    rw [getDerivative_succ, getDerivative_succ, ih, ih]
    ring

theorem getDerivative_strictAnti (hconcave : StrictConcaveOn ℝ univ function) :
    StrictAnti (getDerivative function 1) := by
  intro x y hxy
  have hlt := getDerivative_strictMono hconcave.neg hxy
  rw [getDerivative_neg, getDerivative_neg] at hlt
  exact neg_lt_neg_iff.mp hlt

theorem getDerivative_two_neg (hconcave : StrictConcaveOn ℝ univ function) (x : ℝ) :
    getDerivative function 2 x < 0 := by
  have hpos := getDerivative_two_pos hconcave.neg x
  rw [getDerivative_neg] at hpos
  exact neg_pos.mp hpos

/-- After the last root the function keeps the sign of the right end. -/
theorem exists_last_root (hcontinuous : Continuous function) (hlr : left ≤ right)
    (hleft : function left ≤ 0) (hright : 0 < function right) :
    ∃ ξ ∈ Icc left right, function ξ = 0 ∧ ∀ x ∈ Icc ξ right, 0 ≤ function x := by
  have hcompact : IsCompact (Icc left right ∩ Set.preimage function (Iic 0)) :=
    isCompact_Icc.inter_right (isClosed_Iic.preimage hcontinuous)
  obtain ⟨ξ, ⟨hξ, hnonpos⟩, hgreatest⟩ :=
    hcompact.exists_isGreatest ⟨left, left_mem_Icc.mpr hlr, hleft⟩
  have hafter : ∀ x ∈ Icc left right, ξ < x → 0 < function x := by
    intro x hx hlt
    by_contra hle
    exact absurd (hgreatest ⟨hx, not_lt.mp hle⟩) (not_le.mpr hlt)
  have hroot : function ξ = 0 := by
    obtain ⟨η, hη, hroot⟩ := exists_root hcontinuous hξ.2
      (mul_nonpos_of_nonpos_of_nonneg hnonpos hright.le)
    rcases eq_or_lt_of_le hη.1 with rfl | hlt
    · exact hroot
    · exact absurd hroot (hafter η ⟨hξ.1.trans hη.1, hη.2⟩ hlt).ne'
  refine ⟨ξ, hξ, hroot, fun x hx => ?_⟩
  rcases eq_or_lt_of_le hx.1 with rfl | hlt
  · exact hroot.ge
  · exact (hafter x ⟨hξ.1.trans hx.1, hx.2⟩ hlt).le

/-- And before the first one that of the left end. -/
theorem exists_first_root (hcontinuous : Continuous function) (hlr : left ≤ right)
    (hleft : function left < 0) (hright : 0 ≤ function right) :
    ∃ ξ ∈ Icc left right, function ξ = 0 ∧ ∀ x ∈ Icc left ξ, function x ≤ 0 := by
  -- the last root of the function turned around the origin
  have hlast : ∃ ξ ∈ Icc (-right) (-left), -function (-ξ) = 0 ∧
      ∀ x ∈ Icc ξ (-left), 0 ≤ -function (-x) :=
    exists_last_root (hcontinuous.comp continuous_neg).neg (neg_le_neg hlr)
      (by simpa using hright) (by simpa using hleft)
  obtain ⟨ξ, hξ, hroot, hafter⟩ := hlast
  refine ⟨-ξ, ⟨le_neg.mp hξ.2, neg_le.mp hξ.1⟩, neg_eq_zero.mp hroot, fun x hx => ?_⟩
  have hvalue := hafter (-x) ⟨le_neg.mp hx.2, neg_le_neg hx.1⟩
  rwa [neg_neg, neg_nonneg] at hvalue

theorem ends_of_first_root (hsign : function left * function right ≤ 0)
    (hprecision : 0 < precision) (hdivisor : 0 < divisor left right function)
    (hroot : function (first left right function) = 0) : Ends left right function precision := by
  refine (ends_iff_value hsign hdivisor.ne').mpr ⟨0, Or.inl ?_⟩
  rw [orbit, Function.iterate_zero_apply, hroot, abs_zero]
  exact mul_nonneg hprecision.le hdivisor.le

/-- On a convex function the iterates start at the end with the positive value: at the right one
they go to the root, at the left one they go away from it and are refused. -/
theorem ends_of_convex (hcontinuous : Continuous function)
    (hconvex : StrictConvexOn ℝ univ function) (hlr : left < right)
    (hsign : function left * function right ≤ 0) (hdivisor : 0 < divisor left right function)
    (hpositive : 0 < function left ∨ 0 ≤ function right) (hprecision : 0 < precision) :
    Ends left right function precision := by
  have htwo := getDerivative_two_pos hconvex left
  rcases lt_or_ge 0 (function left) with hleft | hleft
  · have hfirst : first left right function = left := if_pos (mul_pos hleft htwo)
    have haway : orbit left right function 1 < left := by
      rw [orbit_succ, orbit, Function.iterate_zero_apply, hfirst, phi_eq]
      exact sub_lt_self _ (div_pos hleft hdivisor)
    exact ends_of_steeper hsign hdivisor (getDerivative_strictMono hconvex haway)
      (getDerivative_strictMono hconvex (haway.trans hlr))
  · have hfirst : first left right function = right :=
      if_neg (not_lt.mpr (mul_nonpos_of_nonpos_of_nonneg hleft htwo.le))
    rcases eq_or_lt_of_le (hpositive.resolve_left (not_lt.mpr hleft)) with hzero | hright
    · exact ends_of_first_root hsign hprecision hdivisor (by rw [hfirst, ← hzero])
    obtain ⟨ξ, hξ, hroot, hafter⟩ := exists_last_root hcontinuous hlr.le hleft hright
    refine ends_toward hsign hprecision hdivisor (ξ := ξ) fun x hx => ?_
    rw [hfirst, uIcc_of_le hξ.2] at hx
    refine mem_uIcc.mpr (Or.inl ⟨hafter x hx, ?_⟩)
    rcases eq_or_lt_of_le hx.1 with rfl | hlt
    · rw [hroot, sub_self, mul_zero]
    · have hslope := slope_lt_slope hconvex hlt (lt_add_of_pos_right right epsilon_pos) hξ.2
        (hx.2.trans_lt (lt_add_of_pos_right right epsilon_pos))
      rw [hroot, sub_zero, add_sub_cancel_left] at hslope
      have hbound : function x / (x - ξ) ≤ divisor left right function :=
        hslope.le.trans ((le_abs_self _).trans (le_max_right _ _))
      exact (div_le_iff₀ (sub_pos.mpr hlt)).mp hbound

/-- On a concave function that falls to the root, the iterates start at the right end, go away and
are refused. -/
theorem ends_of_concave_falling (hconcave : StrictConcaveOn ℝ univ function) (hlr : left < right)
    (hsign : function left * function right ≤ 0) (hdivisor : 0 < divisor left right function)
    (hleft : 0 ≤ function left) (hright : function right ≤ 0) (hprecision : 0 < precision) :
    Ends left right function precision := by
  have hanti := getDerivative_strictAnti hconcave
  have hfirst : first left right function = right := if_neg (not_lt.mpr
    (mul_nonpos_of_nonneg_of_nonpos hleft (getDerivative_two_neg hconcave left).le))
  rcases eq_or_lt_of_le hright with hzero | hneg
  · exact ends_of_first_root hsign hprecision hdivisor (by rw [hfirst, hzero])
  · have haway : right < orbit left right function 1 := by
      rw [orbit_succ, orbit, Function.iterate_zero_apply, hfirst, phi_eq]
      have hquotient := div_neg_of_neg_of_pos hneg hdivisor
      linarith
    exact ends_of_steeper hsign hdivisor (hanti (hlr.trans haway)) (hanti haway)

/-- On one that rises they start at the left end, and go to the root if it is not within the step
of the finite difference. -/
theorem ends_of_concave_rising (hcontinuous : Continuous function)
    (hconcave : StrictConcaveOn ℝ univ function)
    (hsign : function left * function right ≤ 0) (hdivisor : 0 < divisor left right function)
    (hleft : function left < 0) (hwide : left + epsilon ≤ right)
    (hnear : function (left + epsilon) < 0) (hprecision : 0 < precision) :
    Ends left right function precision := by
  have hright : 0 ≤ function right := nonneg_of_mul_nonpos_right hsign hleft
  have hlr : left ≤ right := (le_add_of_nonneg_right epsilon_pos.le).trans hwide
  have hfirst : first left right function = left :=
    if_pos (mul_pos_of_neg_of_neg hleft (getDerivative_two_neg hconcave left))
  obtain ⟨ξ, hξ, hroot, hbefore⟩ := exists_first_root hcontinuous hlr hleft hright
  have hfar : left + epsilon < ξ := by
    by_contra hle
    have hmin := hconcave.concaveOn.min_le_of_mem_Icc (mem_univ ξ) (mem_univ right)
      ⟨not_lt.mp hle, hwide⟩
    rw [hroot, min_eq_left hright] at hmin
    exact absurd hnear (not_lt.mpr hmin)
  refine ends_toward hsign hprecision hdivisor (ξ := ξ) fun x hx => ?_
  rw [hfirst, uIcc_of_ge hξ.1] at hx
  refine mem_uIcc.mpr (Or.inr ⟨?_, hbefore x hx⟩)
  rcases eq_or_lt_of_le hx.2 with rfl | hlt
  · rw [hroot, sub_self, mul_zero]
  · have hslope : getDerivative (-function) 1 left < (-function ξ - -function x) / (ξ - x) := by
      have h := slope_lt_slope hconcave.neg (lt_add_of_pos_right left epsilon_pos) hlt hx.1 hfar
      rwa [add_sub_cancel_left] at h
    rw [getDerivative_neg, hroot, neg_zero, zero_sub, neg_neg, lt_div_iff₀ (sub_pos.mpr hlt)]
      at hslope
    have hbound : getDerivative function 1 left ≤ divisor left right function :=
      (le_abs_self _).trans (le_max_left _ _)
    calc divisor left right function * (x - ξ)
        = -divisor left right function * (ξ - x) := by ring
      _ ≤ -getDerivative function 1 left * (ξ - x) :=
          mul_le_mul_of_nonneg_right (neg_le_neg hbound) (sub_nonneg.mpr hx.2)
      _ ≤ function x := hslope.le

/-! ### Polynomials -/

variable {f : ℝ[X]}

theorem eval_line (hdegree : f.natDegree ≤ 1) (x : ℝ) : f.eval x = f.coeff 1 * x + f.coeff 0 := by
  conv_lhs => rw [eq_X_add_C_of_natDegree_le_one hdegree]
  simp only [eval_add, eval_mul, eval_C, eval_X]

theorem degree_pos_of_divisor (hdivisor : divisor left right f.eval ≠ 0) : 0 < f.degree := by
  rw [← natDegree_pos_iff_degree_pos]
  by_contra hzero
  have hdegree : f.natDegree = 0 := Nat.eq_zero_of_not_pos hzero
  refine hdivisor ?_
  rw [divisor_line (eval_line (by omega)), coeff_eq_zero_of_natDegree_lt (by omega), abs_zero]

theorem slopes_of_derivative {d : ℝ}
    (hslopes : ∀ x ∈ Icc left right, f.derivative.eval x ∈ Icc 0 d) :
    ∀ x ∈ Icc left right, ∀ y ∈ Icc left right, x ≤ y →
      0 ≤ f.eval y - f.eval x ∧ f.eval y - f.eval x ≤ d * (y - x) := by
  intro x hx y hy hxy
  have hinterior : ∀ z ∈ interior (Icc left right), deriv f.eval z ∈ Icc 0 d := by
    intro z hz
    rw [Polynomial.deriv]
    exact hslopes z (interior_subset hz)
  have hlow := (convex_Icc left right).mul_sub_le_image_sub_of_le_deriv f.continuousOn
    f.differentiableOn (fun z hz => (hinterior z hz).1) x hx y hy hxy
  rw [zero_mul] at hlow
  exact ⟨hlow, (convex_Icc left right).image_sub_le_mul_sub_of_deriv_le f.continuousOn
    f.differentiableOn (fun z hz => (hinterior z hz).2) x hx y hy hxy⟩

/-- Polynomials whose iterates go to a root from one side, or go away where the function falls
more steeply. -/
inductive Favourable (left right : ℝ) (f : ℝ[X]) : Prop
  | slopes (h : ∀ x ∈ Icc left right, f.derivative.eval x ∈ Icc 0 (divisor left right f.eval))
  | convex (h : StrictConvexOn ℝ univ f.eval) (hpositive : 0 < f.eval left ∨ 0 ≤ f.eval right)
  | falling (h : StrictConcaveOn ℝ univ f.eval) (hleft : 0 ≤ f.eval left)
    (hright : f.eval right ≤ 0)
  | rising (h : StrictConcaveOn ℝ univ f.eval) (hleft : f.eval left < 0)
    (hwide : left + epsilon ≤ right) (hnear : f.eval (left + epsilon) < 0)

/-- The loop ends for every precision just if the check refuses an iterate or the iterates come
back to a root. Of the lines, those that fall go on unless the right end is close enough; for
favourable polynomials it always ends. -/
theorem returns_or_refuses_iff (hlr : left < right) (hsign : f.eval left * f.eval right ≤ 0)
    (hdivisor : divisor left right f.eval ≠ 0) :
    ((∀ precision > 0, Ends left right f.eval precision) ↔
      (∃ n, q left right f.eval <
        |getDerivative (phi left right f.eval) 1 (orbit left right f.eval (n + 1))|) ∨
      ∃ ξ, f.eval ξ = 0 ∧ MapClusterPt ξ atTop (orbit left right f.eval)) ∧
    (f.natDegree ≤ 1 → ∀ precision > 0, (Ends left right f.eval precision ↔
      0 < f.coeff 1 ∨ |f.eval right| ≤ precision * |f.coeff 1|)) ∧
    (Favourable left right f → ∀ precision > 0, Ends left right f.eval precision) := by
  have hpos : 0 < divisor left right f.eval :=
    lt_of_le_of_ne (le_max_of_le_left (abs_nonneg _)) hdivisor.symm
  refine ⟨forall_ends_iff (isProperMap_eval f (degree_pos_of_divisor hdivisor)) hsign hpos, ?_, ?_⟩
  · intro hdegree precision hprecision
    have hline := eval_line hdegree
    have hcoeff : f.coeff 1 ≠ 0 := by
      rw [divisor_line hline] at hdivisor
      exact abs_ne_zero.mp hdivisor
    exact ends_line_iff hline hcoeff hsign hprecision
  · intro hfavourable precision hprecision
    cases hfavourable with
    | slopes h =>
      exact ends_of_slopes f.continuous hlr.le hsign hpos (slopes_of_derivative h) hprecision
    | convex h hpositive =>
      exact ends_of_convex f.continuous h hlr hsign hpos hpositive hprecision
    | falling h hleft hright => exact ends_of_concave_falling h hlr hsign hpos hleft hright hprecision
    | rising h hleft hwide hnear =>
      exact ends_of_concave_rising f.continuous h hsign hpos hleft hwide hnear hprecision

/-- The square root of two. -/
theorem solve_ends_square_root : Ends 1 2 (X ^ 2 - C 2 : ℝ[X]).eval (1 / 1000) := by
  have heval : ∀ x, (X ^ 2 - C 2 : ℝ[X]).eval x = x ^ 2 - 2 := fun x => by
    rw [eval_sub, eval_pow, eval_X, eval_C]
  have hslope : getDerivative (X ^ 2 - C 2 : ℝ[X]).eval 1 1 ≠ 0 := by
    rw [getDerivative_succ, getDerivative, heval, heval]
    norm_num [epsilon]
  refine (returns_or_refuses_iff (f := X ^ 2 - C 2) one_lt_two (by rw [heval, heval]; norm_num)
    ?_).2.2 (.convex ?_ ?_) _ (by norm_num)
  · exact (lt_max_of_lt_left (abs_pos.mpr hslope)).ne'
  · have hconvex : StrictConvexOn ℝ univ fun x : ℝ => x ^ 2 + -2 :=
      (even_two.strictConvexOn_pow two_ne_zero).add_const (-2)
    rwa [show (X ^ 2 - C 2 : ℝ[X]).eval = fun x : ℝ => x ^ 2 + -2 from funext fun x => by
      rw [heval, sub_eq_add_neg]]
  · rw [heval, heval]
    norm_num

/-- The falling line through the origin: the iterates are 1, 2, 4, … -/
theorem not_ends_falling_line :
    ¬ ∀ (f : ℝ[X]) (left right precision : ℝ), left < right → f.eval left * f.eval right ≤ 0 →
      divisor left right f.eval ≠ 0 → 0 < precision → Ends left right f.eval precision := by
  intro hall
  have hline : ∀ x, (-X : ℝ[X]).eval x = -1 * x + 0 := fun x => by
    rw [eval_neg, eval_X]
    ring
  have hsign : (-X : ℝ[X]).eval (-1) * (-X : ℝ[X]).eval 1 ≤ 0 := by
    rw [hline, hline]
    norm_num
  have hdivisor : divisor (-1) 1 (-X : ℝ[X]).eval ≠ 0 := by
    rw [divisor_line hline]
    norm_num
  have hends := hall (-X) (-1) 1 (1 / 2) (by norm_num) hsign hdivisor (by norm_num)
  rw [ends_line_iff hline (by norm_num) hsign (by norm_num), hline] at hends
  norm_num at hends

end SimpleIteration

end Itmo.Vmath
