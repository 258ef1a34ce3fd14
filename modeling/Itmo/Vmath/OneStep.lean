import Itmo.Lib.GlobalError
import Itmo.Vmath.Differential
import Mathlib.Analysis.Calculus.ContDiff.Operations
import Mathlib.Analysis.Calculus.ContDiff.RCLike
import Mathlib.Analysis.Calculus.Deriv.Prod
import Mathlib.Analysis.Calculus.TangentCone.Prod
import Mathlib.Topology.Algebra.MetricSpace.Lipschitz

/-! The methods of `differential.py` that look one step back only, for a right side that depends
on both arguments and over any grid. The increment of each is Lipschitz, so that its error
accumulates no faster than the solutions of the equation come apart; what is left is the defect
of one step that starts on the solution. It is of the second order for `Euler`, of the third for
`Euler2` and of the fifth for `RK`, where the slopes of the second and third stage are wrong by
opposite amounts. -/

namespace Itmo.Vmath

open Lib Set Filter Asymptotics

section Definitions

variable {K : Type*} [Field K]

/-- One turn of the loop of `Euler`. -/
def Euler.step (x : List K) (f : K → K → K) (y : List K) (i : ℕ) : List K :=
  y ++ [y.getD (i - 1) 0 +
    (x.getD i 0 - x.getD (i - 1) 0) * f (x.getD (i - 1) 0) (y.getD (i - 1) 0)]

def Euler (y0 : K) (x : List K) (f : K → K → K) : List K :=
  (List.range' 1 (x.length - 1)).foldl (Euler.step x f) [y0]

/-- One turn of the loop of `Euler2`. -/
def Euler2.step (x : List K) (f : K → K → K) (y : List K) (i : ℕ) : List K :=
  let h := x.getD i 0 - x.getD (i - 1) 0
  y ++ [y.getD (i - 1) 0 + h / (2 : ℕ) * (f (x.getD (i - 1) 0) (y.getD (i - 1) 0) +
    f (x.getD i 0) (y.getD (i - 1) 0 + h * f (x.getD (i - 1) 0) (y.getD (i - 1) 0)))]

def Euler2 (y0 : K) (x : List K) (f : K → K → K) : List K :=
  (List.range' 1 (x.length - 1)).foldl (Euler2.step x f) [y0]

end Definitions

/-! ### The loops -/

section Loops

/-- The loop of a method, by what a turn adds to the value before: of a point, a step and that
value. -/
def oneStep {K : Type*} [Field K] (ψ : K → K → K → K) (y0 : K) (x : List K) : List K :=
  (List.range' 1 (x.length - 1)).foldl (fun y i => y ++ [y.getD (i - 1) 0 +
    ψ (x.getD (i - 1) 0) (x.getD i 0 - x.getD (i - 1) 0) (y.getD (i - 1) 0)]) [y0]

/-- What a loop appends it reads off what is there, and leaves it. -/
theorem foldl_append_getD {α : Type*} (g : List α → ℕ → α) {start : List α} {first : ℕ}
    (hstart : start.length = first) (d : α) (turns : ℕ) :
    let y := (List.range' first turns).foldl (fun y i => y ++ [g y i]) start
    y.length = first + turns ∧ (∀ i < first, y.getD i d = start.getD i d) ∧
      ∀ i, first ≤ i → i < first + turns → y.getD i d = g (y.take i) i := by
  induction turns with
  | zero =>
    refine ⟨hstart, fun _ _ => rfl, fun i hge hlt => ?_⟩
    omega
  | succ turns ih =>
    obtain ⟨hlength, hbefore, hturn⟩ := ih
    rw [List.range'_1_concat, List.foldl_append, List.foldl_cons, List.foldl_nil]
    set y := (List.range' first turns).foldl (fun y i => y ++ [g y i]) start
    have hget : ∀ i < first + turns, ∀ e, (y ++ [e]).getD i d = y.getD i d := by
      intro i hi e
      exact List.getD_append _ _ _ _ (hlength ▸ hi)
    refine ⟨?_, fun i hi => ?_, fun i hge hlt => ?_⟩
    · rw [List.length_append, hlength, List.length_singleton, Nat.add_assoc]
    · rw [hget i (by omega), hbefore i hi]
    · rcases Nat.lt_or_ge i (first + turns) with hlt | hge
      · rw [hget i hlt, hturn i hge hlt, List.take_append_of_le_length (by omega)]
      · obtain rfl : i = first + turns := by omega
        rw [List.getD_append_right _ _ _ _ (by omega), hlength, Nat.sub_self,
          List.take_append_of_le_length hlength.ge, List.take_of_length_le hlength.le]
        rfl

theorem getD_take {α : Type*} {y : List α} {i j : ℕ} (h : j < i) (d : α) :
    (y.take i).getD j d = y.getD j d := by
  rw [List.getD_eq_getElem?_getD, List.getD_eq_getElem?_getD, List.getElem?_take_of_lt h]

variable {K : Type*} [Field K] {ψ : K → K → K → K} {y0 : K} {x : List K}

theorem oneStep_length (hx : x ≠ []) : (oneStep ψ y0 x).length = x.length := by
  have hpos : 0 < x.length := List.length_pos_iff.mpr hx
  rw [oneStep, (foldl_append_getD _ (by rfl) 0 _).1]
  omega

theorem oneStep_zero : (oneStep ψ y0 x).getD 0 0 = y0 :=
  (foldl_append_getD _ (by rfl) 0 _).2.1 0 Nat.one_pos

theorem oneStep_succ {i : ℕ} (hi : i + 1 < x.length) :
    (oneStep ψ y0 x).getD (i + 1) 0 = (oneStep ψ y0 x).getD i 0 +
      ψ (x.getD i 0) (x.getD (i + 1) 0 - x.getD i 0) ((oneStep ψ y0 x).getD i 0) := by
  have hturn := (foldl_append_getD (fun (y : List K) i => y.getD (i - 1) 0 +
    ψ (x.getD (i - 1) 0) (x.getD i 0 - x.getD (i - 1) 0) (y.getD (i - 1) 0))
    (List.length_singleton (a := y0)) 0 (x.length - 1)).2.2 (i + 1) (by omega) (by omega)
  rw [Nat.add_sub_cancel, getD_take (Nat.lt_succ_self i)] at hturn
  exact hturn

/-! What the three methods add. -/

def Euler.increment (f : K → K → K) (x h y : K) : K := h * f x y

def Euler2.increment (f : K → K → K) (x h y : K) : K :=
  h / (2 : ℕ) * (f x y + f (x + h) (y + h * f x y))

def RK.increment (f : K → K → K) (x h y : K) : K :=
  let k1 := h * f x y
  let k2 := h * f (x + h / (2 : ℕ)) (y + k1 / (2 : ℕ))
  let k3 := h * f (x + h / (2 : ℕ)) (y + k2 / (2 : ℕ))
  let k4 := h * f (x + h) (y + k3)
  (k1 + (2 : ℕ) * (k2 + k3) + k4) / (6 : ℕ)

theorem Euler_eq (f : K → K → K) : Euler y0 x f = oneStep (Euler.increment f) y0 x := rfl

theorem Euler2_eq (f : K → K → K) : Euler2 y0 x f = oneStep (Euler2.increment f) y0 x := by
  rw [Euler2, oneStep]
  congr
  funext y i
  rw [Euler2.step, Euler2.increment, add_sub_cancel]

theorem RK_eq_oneStep (f : K → K → K) : RK y0 x f = oneStep (RK.increment f) y0 x := rfl

end Loops

/-! ### How errors grow -/

/-- An equation on an interval, with a right side that has `n` derivatives and is Lipschitz in the
second argument, and a solution. -/
structure Solves (a b : ℝ) (n : ℕ) (f : ℝ → ℝ → ℝ) (Y : ℝ → ℝ) : Prop where
  lt : a < b
  smooth : ContDiffOn ℝ n (fun p : ℝ × ℝ => f p.1 p.2) (Icc a b ×ˢ univ)
  lipschitz : ∃ L : NNReal, ∀ t ∈ Icc a b, LipschitzWith L (f t)
  hasDeriv : ∀ t ∈ Icc a b, HasDerivWithinAt Y (f t (Y t)) (Icc a b) t

/-- A slope that a method takes, Lipschitz in the value it starts from. -/
def LipschitzSlope (a b : ℝ) (κ : ℝ → ℝ → ℝ → ℝ) : Prop :=
  ∃ Λ, 0 ≤ Λ ∧ ∀ p ∈ steps a b 1, ∀ y z, |κ p.1 p.2 y - κ p.1 p.2 z| ≤ Λ * |y - z|

section Lipschitz

variable {a b : ℝ} {n : ℕ} {f : ℝ → ℝ → ℝ} {Y : ℝ → ℝ} {κ κ' : ℝ → ℝ → ℝ → ℝ}

theorem Solves.abs_sub_le (hf : Solves a b n f Y) :
    ∃ L, 0 ≤ L ∧ ∀ t ∈ Icc a b, ∀ y z, |f t y - f t z| ≤ L * |y - z| := by
  obtain ⟨L, hL⟩ := hf.lipschitz
  exact ⟨L, L.coe_nonneg, fun t ht y z => (hL t ht).dist_le_mul y z⟩

/-- The slope at a point that another slope leads to. -/
theorem LipschitzSlope.stage (hf : Solves a b n f Y) (hκ : LipschitzSlope a b κ) {θ : ℝ}
    (h0 : 0 ≤ θ) (h1 : θ ≤ 1) :
    LipschitzSlope a b fun x h y => f (x + θ * h) (y + θ * h * κ x h y) := by
  obtain ⟨L, hL0, hL⟩ := hf.abs_sub_le
  obtain ⟨Λ, hΛ0, hΛ⟩ := hκ
  have hab : 0 ≤ b - a := sub_nonneg.mpr hf.lt.le
  refine ⟨L * (1 + (b - a) * Λ), by positivity, fun p hp y z => ?_⟩
  refine (hL _ (steps_mem hp h0 h1) _ _).trans ?_
  rw [mul_assoc L]
  have hθ : |θ * p.2| ≤ b - a := by
    obtain ⟨ha, hb⟩ := steps_mem hp h0 h1
    obtain ⟨ha', hb'⟩ := hp.1
    exact abs_le.mpr ⟨by linarith, by linarith⟩
  have hsplit : y + θ * p.2 * κ p.1 p.2 y - (z + θ * p.2 * κ p.1 p.2 z) =
      (y - z) + θ * p.2 * (κ p.1 p.2 y - κ p.1 p.2 z) := by ring
  refine mul_le_mul_of_nonneg_left ?_ hL0
  calc |y + θ * p.2 * κ p.1 p.2 y - (z + θ * p.2 * κ p.1 p.2 z)|
      ≤ |y - z| + |θ * p.2| * |κ p.1 p.2 y - κ p.1 p.2 z| := by
        rw [hsplit, ← abs_mul]
        exact abs_add_le _ _
    _ ≤ |y - z| + (b - a) * (Λ * |y - z|) := by
        gcongr
        exact hΛ p hp y z
    _ = (1 + (b - a) * Λ) * |y - z| := by ring

theorem LipschitzSlope.first (hf : Solves a b n f Y) : LipschitzSlope a b fun x _ y => f x y := by
  obtain ⟨L, hL0, hL⟩ := hf.abs_sub_le
  exact ⟨L, hL0, fun p hp y z => hL p.1 hp.1 y z⟩

theorem LipschitzSlope.add (hκ : LipschitzSlope a b κ) (hκ' : LipschitzSlope a b κ') :
    LipschitzSlope a b fun x h y => κ x h y + κ' x h y := by
  obtain ⟨Λ, hΛ0, hΛ⟩ := hκ
  obtain ⟨Λ', hΛ0', hΛ'⟩ := hκ'
  refine ⟨Λ + Λ', add_nonneg hΛ0 hΛ0', fun p hp y z => ?_⟩
  rw [add_sub_add_comm, add_mul]
  exact (abs_add_le _ _).trans (add_le_add (hΛ p hp y z) (hΛ' p hp y z))

theorem LipschitzSlope.const_mul (c : ℝ) (hκ : LipschitzSlope a b κ) :
    LipschitzSlope a b fun x h y => c * κ x h y := by
  obtain ⟨Λ, hΛ0, hΛ⟩ := hκ
  refine ⟨|c| * Λ, by positivity, fun p hp y z => ?_⟩
  rw [← mul_sub, abs_mul, mul_assoc]
  exact mul_le_mul_of_nonneg_left (hΛ p hp y z) (abs_nonneg c)

theorem Euler_slope (hf : Solves a b n f Y) :
    ∃ κ, LipschitzSlope a b κ ∧ ∀ x h y, Euler.increment f x h y = h * κ x h y :=
  ⟨_, LipschitzSlope.first hf, fun _ _ _ => rfl⟩

/-- The mean of the slopes at both ends. -/
theorem Euler2_slope (hf : Solves a b n f Y) :
    ∃ κ, LipschitzSlope a b κ ∧ ∀ x h y, Euler2.increment f x h y = h * κ x h y := by
  have hfirst := LipschitzSlope.first hf
  have hsecond := hfirst.stage hf zero_le_one le_rfl
  refine ⟨_, (hfirst.add hsecond).const_mul (1 / 2), fun x h y => ?_⟩
  rw [Euler2.increment, one_mul]
  push_cast
  ring

/-- The weighted mean of the slopes of the four stages. -/
theorem RK_slope (hf : Solves a b n f Y) :
    ∃ κ, LipschitzSlope a b κ ∧ ∀ x h y, RK.increment f x h y = h * κ x h y := by
  have h1 := LipschitzSlope.first hf
  have h2 := h1.stage hf one_half_pos.le one_half_lt_one.le
  have h3 := h2.stage hf one_half_pos.le one_half_lt_one.le
  have h4 := h3.stage hf zero_le_one le_rfl
  refine ⟨_, ((h1.add ((h2.add h3).const_mul 2)).add h4).const_mul (1 / 6), fun x h y => ?_⟩
  have hhalf : ∀ u : ℝ, h * u / (2 : ℕ) = 1 / 2 * h * u := by
    intro u
    push_cast
    ring
  have hmiddle : x + h / (2 : ℕ) = x + 1 / 2 * h := by
    push_cast
    ring
  simp only [RK.increment, hhalf, hmiddle, one_mul]
  push_cast
  ring

end Lipschitz

/-! ### The solution -/

section Solution

variable {a b : ℝ} {n : ℕ} {f : ℝ → ℝ → ℝ} {Y : ℝ → ℝ}

/-- The slope of the solution. -/
def slopeAlong (f : ℝ → ℝ → ℝ) (Y : ℝ → ℝ) (t : ℝ) : ℝ := f t (Y t)

/-- The solution and its derivatives. -/
noncomputable def derivatives (a b : ℝ) (f : ℝ → ℝ → ℝ) (Y : ℝ → ℝ) : ℕ → ℝ → ℝ
  | 0 => Y
  | k + 1 => iteratedDerivWithin k (slopeAlong f Y) (Icc a b)

theorem Solves.slope_contDiffOn (hf : Solves a b n f Y) {m : ℕ} (hm : m ≤ n)
    (hY : ContDiffOn ℝ m Y (Icc a b)) : ContDiffOn ℝ m (slopeAlong f Y) (Icc a b) :=
  (hf.smooth.of_le (mod_cast hm)).comp (contDiffOn_id.prodMk hY) fun _ ht => ⟨ht, mem_univ _⟩

/-- A solution has one derivative more than the right side. -/
theorem Solves.contDiffOn (hf : Solves a b n f Y) {m : ℕ} (hm : m ≤ n + 1) :
    ContDiffOn ℝ m Y (Icc a b) := by
  have hdifferentiable : DifferentiableOn ℝ Y (Icc a b) :=
    fun t ht => (hf.hasDeriv t ht).differentiableWithinAt
  have hunique : UniqueDiffOn ℝ (Icc a b) := uniqueDiffOn_Icc hf.lt
  induction m with
  | zero => exact contDiffOn_zero.mpr hdifferentiable.continuousOn
  | succ m ih =>
    push_cast
    refine (contDiffOn_succ_iff_derivWithin hunique).mpr ⟨hdifferentiable, by simp, ?_⟩
    exact (hf.slope_contDiffOn (by omega) (ih (by omega))).congr fun t ht =>
      (hf.hasDeriv t ht).derivWithin (hunique t ht)

theorem Solves.derivatives (hf : Solves a b n f Y) :
    Derivatives a b (n + 1) (derivatives a b f Y) := by
  have hslope := derivatives_of_contDiffOn hf.lt
    (hf.slope_contDiffOn le_rfl (hf.contDiffOn (Nat.le_succ n)))
  constructor
  · rintro (_ | k) hk t ht
    · rw [Vmath.derivatives, Vmath.derivatives, iteratedDerivWithin_zero]
      exact hf.hasDeriv t ht
    · exact hslope.hasDeriv k (by omega) t ht
  · rintro (_ | k) hk
    · exact isCompact_Icc.exists_bound_of_continuousOn (hf.contDiffOn (Nat.zero_le _)).continuousOn
    · exact hslope.bounded k (by omega)

/-- The derivative of the right side in the second argument. -/
noncomputable def partialDeriv (a b : ℝ) (f : ℝ → ℝ → ℝ) (p : ℝ × ℝ) : ℝ :=
  fderivWithin ℝ (fun p : ℝ × ℝ => f p.1 p.2) (Icc a b ×ˢ univ) p (0, 1)

theorem Solves.hasDerivAt_partial (hf : Solves a b n f Y) (hn : 1 ≤ n) {t : ℝ} (ht : t ∈ Icc a b)
    (y : ℝ) : HasDerivAt (f t) (partialDeriv a b f (t, y)) y := by
  have hmem : (t, y) ∈ Icc a b ×ˢ univ := ⟨ht, mem_univ y⟩
  have hdiff := ((hf.smooth.differentiableOn (by simp; omega)) (t, y) hmem).hasFDerivWithinAt
  have hline : HasDerivWithinAt (fun y => (t, y)) (0, 1) univ y :=
    (hasDerivWithinAt_const y univ t).prodMk (hasDerivWithinAt_id y univ)
  have hcomp := hdiff.comp_hasDerivWithinAt y hline fun y _ => ⟨ht, mem_univ y⟩
  rwa [hasDerivWithinAt_univ] at hcomp

/-- On a bounded part of the strip the partial derivative is Lipschitz. -/
theorem Solves.partial_lipschitz (hf : Solves a b n f Y) (hn : 2 ≤ n) (R : ℝ) :
    ∃ K, LipschitzOnWith K (partialDeriv a b f) (Icc a b ×ˢ Icc (-R) R) := by
  have hunique : UniqueDiffOn ℝ (Icc a b ×ˢ (univ : Set ℝ)) :=
    (uniqueDiffOn_Icc hf.lt).prod uniqueDiffOn_univ
  have hsmooth : ContDiffOn ℝ 1 (partialDeriv a b f) (Icc a b ×ˢ univ) :=
    (hf.smooth.fderivWithin hunique (m := 1) (by norm_cast)).clm_apply contDiffOn_const
  have hsub : Icc a b ×ˢ Icc (-R) R ⊆ Icc a b ×ˢ univ := prod_mono le_rfl (subset_univ _)
  exact ((hsmooth.mono hsub).locallyLipschitzOn
    ((convex_Icc a b).prod (convex_Icc (-R) R))).exists_lipschitzOnWith_of_compact
    (isCompact_Icc.prod isCompact_Icc)

/-- Next to the solution the right side is linear in the second argument up to a square, with a
coefficient that changes no faster than in proportion to the first argument. -/
structure Coefficient (a b : ℝ) (f : ℝ → ℝ → ℝ) (Y α : ℝ → ℝ) : Prop where
  slow : ∃ C, ∀ s ∈ Icc a b, ∀ t ∈ Icc a b, |α s - α t| ≤ C * |s - t|
  linear : ∃ C, ∀ t ∈ Icc a b, ∀ δ, |f t (Y t + δ) - f t (Y t) - α t * δ| ≤ C * δ ^ 2

theorem Solves.coefficient (hf : Solves a b n f Y) (hn : 2 ≤ n) :
    Coefficient a b f Y fun t => partialDeriv a b f (t, Y t) := by
  obtain ⟨M, hM⟩ := hf.derivatives.bounded 0 (Nat.zero_le _)
  obtain ⟨K, hK⟩ := hf.partial_lipschitz hn (M + 1)
  obtain ⟨L, hL⟩ := hf.lipschitz
  have hY : ContDiffOn ℝ 1 Y (Icc a b) := hf.contDiffOn (m := 1) (by omega)
  obtain ⟨B, hB⟩ := (hY.locallyLipschitzOn (convex_Icc a b)).exists_lipschitzOnWith_of_compact
    isCompact_Icc
  have htube : ∀ t ∈ Icc a b, ∀ u, |u| ≤ 1 → (t, Y t + u) ∈ Icc a b ×ˢ Icc (-(M + 1)) (M + 1) := by
    intro t ht u hu
    have hYt : |Y t| ≤ M := hM t ht
    exact ⟨ht, abs_le.mp ((abs_add_le _ _).trans (add_le_add hYt hu))⟩
  have halong : LipschitzOnWith (K * max 1 B) (fun t => partialDeriv a b f (t, Y t)) (Icc a b) := by
    refine hK.comp (LipschitzWith.id.lipschitzOnWith.prodMk hB) fun t ht => ?_
    simpa using htube t ht 0 (by simp)
  have hcoeff : ∀ t ∈ Icc a b, |partialDeriv a b f (t, Y t)| ≤ L := by
    intro t ht
    have hnorm : ‖deriv (f t) (Y t)‖ ≤ L := norm_deriv_le_of_lipschitz (hL t ht)
    rwa [(hf.hasDerivAt_partial (by omega) ht (Y t)).deriv] at hnorm
  refine ⟨⟨(K * max 1 B : NNReal), halong.dist_le_mul⟩, ⟨K + 2 * L, fun t ht δ => ?_⟩⟩
  · rcases le_or_gt |δ| 1 with hδ | hδ
    · have hderiv : ∀ u ∈ uIcc 0 δ, HasDerivWithinAt
          (fun u => f t (Y t + u) - partialDeriv a b f (t, Y t) * u)
          (partialDeriv a b f (t, Y t + u) - partialDeriv a b f (t, Y t)) (uIcc 0 δ) u := by
        intro u _
        have hshift := (hf.hasDerivAt_partial (by omega) ht (Y t + u)).comp_const_add (Y t) u
        have hline := (hasDerivAt_id u).const_mul (partialDeriv a b f (t, Y t))
        rw [mul_one] at hline
        exact (hshift.sub hline).hasDerivWithinAt
      have hbound : ∀ u ∈ uIcc 0 δ,
          ‖partialDeriv a b f (t, Y t + u) - partialDeriv a b f (t, Y t)‖ ≤ K * |δ| := by
        intro u hu
        have hu : |u| ≤ |δ| := by simpa using abs_sub_left_of_mem_uIcc hu
        have hdist := hK.dist_le_mul _ (htube t ht u (hu.trans hδ)) _ (htube t ht 0 (by simp))
        rw [add_zero, dist_prod_same_left, dist_self_add_left, Real.norm_eq_abs] at hdist
        exact hdist.trans (mul_le_mul_of_nonneg_left hu K.coe_nonneg)
      have hmean := Convex.norm_image_sub_le_of_norm_hasDerivWithin_le hderiv hbound
        (convex_uIcc 0 δ) left_mem_uIcc right_mem_uIcc
      simp only [add_zero, mul_zero, sub_zero, Real.norm_eq_abs] at hmean
      rw [sub_right_comm, mul_assoc, abs_mul_abs_self, ← sq] at hmean
      exact hmean.trans (mul_le_mul_of_nonneg_right (le_add_of_nonneg_right (by positivity))
        (sq_nonneg δ))
    · have hfar : |f t (Y t + δ) - f t (Y t)| ≤ L * |δ| := by
        simpa [Real.dist_eq] using (hL t ht).dist_le_mul (Y t + δ) (Y t)
      have hline : |partialDeriv a b f (t, Y t) * δ| ≤ L * |δ| := by
        rw [abs_mul]
        exact mul_le_mul_of_nonneg_right (hcoeff t ht) (abs_nonneg δ)
      have hsquare : |δ| ≤ δ ^ 2 := by
        rw [← sq_abs]
        exact le_self_pow₀ hδ.le two_ne_zero
      calc |f t (Y t + δ) - f t (Y t) - partialDeriv a b f (t, Y t) * δ|
          ≤ L * |δ| + L * |δ| := (abs_sub _ _).trans (add_le_add hfar hline)
        _ = 2 * L * |δ| := by ring
        _ ≤ 2 * L * δ ^ 2 := by gcongr
        _ ≤ (K + 2 * L) * δ ^ 2 := by
          gcongr
          exact le_add_of_nonneg_left K.coe_nonneg

end Solution

/-! ### Defects -/

section Defects

variable {a b : ℝ} {n : ℕ} {f : ℝ → ℝ → ℝ} {Y : ℝ → ℝ} {q : ℝ × ℝ → ℝ} {k : ℕ}

@[simp] theorem derivatives_zero : derivatives a b f Y 0 = Y := rfl

@[simp] theorem derivatives_one : derivatives a b f Y 1 = slopeAlong f Y := iteratedDerivWithin_zero

theorem step_mul {c : ℝ} (hq : q =O[𝓟 (steps a b c)] fun p => p.2 ^ k) :
    (fun p => p.2 * q p) =O[𝓟 (steps a b c)] fun p => p.2 ^ (k + 1) :=
  ((isBigO_refl Prod.snd _).mul hq).congr_right fun p => (pow_succ' p.2 k).symm

/-- The error of the slope at a part of a step, at a point that misses the solution by `gap`. -/
def slip (f : ℝ → ℝ → ℝ) (Y : ℝ → ℝ) (θ : ℝ) (gap : ℝ × ℝ → ℝ) (p : ℝ × ℝ) : ℝ :=
  f (p.1 + θ * p.2) (Y (p.1 + θ * p.2) + gap p) - slopeAlong f Y (p.1 + θ * p.2)

variable {θ : ℝ} {gap : ℝ × ℝ → ℝ}

theorem Solves.slip_isBigO (hf : Solves a b n f Y) (h0 : 0 ≤ θ) (h1 : θ ≤ 1)
    (hgap : gap =O[𝓟 (steps a b 1)] fun p => p.2 ^ k) :
    slip f Y θ gap =O[𝓟 (steps a b 1)] fun p => p.2 ^ k := by
  obtain ⟨L, -, hL⟩ := hf.abs_sub_le
  refine IsBigO.trans (isBigO_principal.mpr ⟨L, fun p hp => ?_⟩) hgap
  have hlipschitz := hL _ (steps_mem hp h0 h1) (Y (p.1 + θ * p.2) + gap p) (Y (p.1 + θ * p.2))
  rwa [add_sub_cancel_left] at hlipschitz

/-- A step of `Euler` follows the tangent. -/
theorem Solves.Euler_defect (hf : Solves a b n f Y) (hn : 1 ≤ n) :
    (fun p : ℝ × ℝ => Y (p.1 + p.2) - Y p.1 - Euler.increment f p.1 p.2 (Y p.1))
      =O[𝓟 (steps a b 1)] fun p => p.2 ^ 2 := by
  have htaylor := hf.derivatives.taylor (k := 0) (m := 2) (by omega) zero_le_one le_rfl
  refine htaylor.congr_left fun p => ?_
  simp [Finset.sum_range_succ, Euler.increment, slopeAlong]
  ring

/-- How far the tangent misses the solution after a part of a step. -/
def tangentGap (f : ℝ → ℝ → ℝ) (Y : ℝ → ℝ) (θ : ℝ) (p : ℝ × ℝ) : ℝ :=
  Y p.1 + θ * p.2 * slopeAlong f Y p.1 - Y (p.1 + θ * p.2)

theorem Solves.tangentGap_isBigO (hf : Solves a b n f Y) (hn : 1 ≤ n) (h0 : 0 ≤ θ)
    (h1 : θ ≤ 1) : tangentGap f Y θ =O[𝓟 (steps a b 1)] fun p => p.2 ^ 2 := by
  have htaylor := hf.derivatives.taylor (k := 0) (m := 2) (by omega) h0 h1
  refine htaylor.neg_left.congr_left fun p => ?_
  simp [Finset.sum_range_succ, tangentGap]
  ring

/-- A step of `Euler2` is the trapezoidal rule, with the slope at its end taken on the tangent. -/
theorem Solves.Euler2_defect (hf : Solves a b n f Y) (hn : 2 ≤ n) :
    (fun p : ℝ × ℝ => Y (p.1 + p.2) - Y p.1 - Euler2.increment f p.1 p.2 (Y p.1))
      =O[𝓟 (steps a b 1)] fun p => p.2 ^ 3 := by
  have hvalue := hf.derivatives.taylor (k := 0) (m := 3) (by omega) zero_le_one le_rfl
  have hslope := hf.derivatives.taylor (k := 1) (m := 2) (by omega) zero_le_one le_rfl
  have hslip := hf.slip_isBigO zero_le_one le_rfl
    (hf.tangentGap_isBigO (by omega) zero_le_one le_rfl)
  have hsum := (hvalue.sub ((step_mul hslope).const_mul_left (1 / 2))).sub
    ((step_mul hslip).const_mul_left (1 / 2))
  refine hsum.congr_left fun p => ?_
  simp [Finset.sum_range_succ, Euler2.increment, slip, tangentGap, slopeAlong]
  ring

variable {α : ℝ → ℝ}

theorem Coefficient.slip (hα : Coefficient a b f Y α) (h0 : 0 ≤ θ) (h1 : θ ≤ 1)
    (hgap : gap =O[𝓟 (steps a b 1)] fun p => p.2 ^ k) :
    (fun p => Vmath.slip f Y θ gap p - α (p.1 + θ * p.2) * gap p)
      =O[𝓟 (steps a b 1)] fun p => p.2 ^ (k + k) := by
  obtain ⟨C, hC⟩ := hα.linear
  have hsquare := (hgap.mul hgap).congr_right fun p => (pow_add p.2 k k).symm
  refine IsBigO.trans (isBigO_principal.mpr ⟨C, fun p hp => ?_⟩) hsquare
  have hlinear := hC _ (steps_mem hp h0 h1) (gap p)
  rwa [← abs_sq, sq] at hlinear

theorem Coefficient.mul (hα : Coefficient a b f Y α) (h0 : 0 ≤ θ) (h1 : θ ≤ 1)
    (hq : q =O[𝓟 (steps a b 1)] fun p => p.2 ^ k) :
    (fun p => α (p.1 + θ * p.2) * q p) =O[𝓟 (steps a b 1)] fun p => p.2 ^ k := by
  obtain ⟨C, hC⟩ := hα.slow
  refine IsBigO.trans (isBigO_principal.mpr ⟨|α a| + |C| * (b - a), fun p hp => ?_⟩) hq
  have hmem := steps_mem hp h0 h1
  have hslow := hC _ hmem a ⟨le_rfl, hmem.1.trans hmem.2⟩
  have hdist : |p.1 + θ * p.2 - a| ≤ b - a := by
    rw [abs_of_nonneg (sub_nonneg.mpr hmem.1)]
    exact sub_le_sub_right hmem.2 a
  rw [norm_mul]
  refine mul_le_mul_of_nonneg_right ?_ (norm_nonneg _)
  calc |α (p.1 + θ * p.2)| = |α a + (α (p.1 + θ * p.2) - α a)| := by rw [add_sub_cancel]
    _ ≤ |α a| + C * |p.1 + θ * p.2 - a| := (abs_add_le _ _).trans (by gcongr)
    _ ≤ |α a| + |C| * (b - a) := by
      gcongr
      exact le_abs_self C

/-- From the middle of a step to its end the coefficient changes little. -/
theorem Coefficient.change_mul (hα : Coefficient a b f Y α)
    (hq : q =O[𝓟 (steps a b 1)] fun p => p.2 ^ k) :
    (fun p => (α (p.1 + 1 * p.2) - α (p.1 + 1 / 2 * p.2)) * q p)
      =O[𝓟 (steps a b 1)] fun p => p.2 ^ (k + 1) := by
  obtain ⟨C, hC⟩ := hα.slow
  refine IsBigO.trans (isBigO_principal.mpr ⟨C * (1 / 2), fun p hp => ?_⟩) (step_mul hq)
  have hslow := hC _ (steps_mem hp zero_le_one le_rfl) _
    (steps_mem hp one_half_pos.le one_half_lt_one.le)
  have hhalf : p.1 + 1 * p.2 - (p.1 + 1 / 2 * p.2) = 1 / 2 * p.2 := by ring
  rw [hhalf, abs_mul (1 / 2), abs_of_pos (one_half_pos : (0 : ℝ) < 1 / 2), ← mul_assoc] at hslow
  rw [norm_mul, norm_mul, ← mul_assoc]
  exact mul_le_mul_of_nonneg_right hslow (norm_nonneg _)

namespace RK

/-- What the points of the second, third and fourth stage miss the solution by, when the step
starts on it. The first two are taken after the part `θ` of the step. -/
def gap2 (θ : ℝ) (f : ℝ → ℝ → ℝ) (Y : ℝ → ℝ) (p : ℝ × ℝ) : ℝ := tangentGap f Y θ p

def gap3 (θ : ℝ) (f : ℝ → ℝ → ℝ) (Y : ℝ → ℝ) (p : ℝ × ℝ) : ℝ :=
  Y p.1 + θ * p.2 * (slopeAlong f Y (p.1 + θ * p.2) + slip f Y θ (gap2 θ f Y) p) -
    Y (p.1 + θ * p.2)

def gap4 (θ : ℝ) (f : ℝ → ℝ → ℝ) (Y : ℝ → ℝ) (p : ℝ × ℝ) : ℝ :=
  Y p.1 + p.2 * (slopeAlong f Y (p.1 + θ * p.2) + slip f Y θ (gap3 θ f Y) p) -
    Y (p.1 + 1 * p.2)

theorem increment_eq (f : ℝ → ℝ → ℝ) (Y : ℝ → ℝ) (p : ℝ × ℝ) :
    increment f p.1 p.2 (Y p.1) = p.2 * (slopeAlong f Y p.1 +
      4 * slopeAlong f Y (p.1 + 1 / 2 * p.2) + slopeAlong f Y (p.1 + 1 * p.2) + (2 * slip f Y (1 / 2) (gap2 (1 / 2) f Y) p +
        2 * slip f Y (1 / 2) (gap3 (1 / 2) f Y) p + slip f Y 1 (gap4 (1 / 2) f Y) p)) / 6 := by
  have hhalf : ∀ u : ℝ, p.2 * u / (2 : ℕ) = 1 / 2 * p.2 * u := by
    intro u
    push_cast
    ring
  have hmiddle : p.1 + p.2 / (2 : ℕ) = p.1 + 1 / 2 * p.2 := by
    push_cast
    ring
  simp only [increment, hhalf, hmiddle, slip, gap2, gap3, gap4, tangentGap, slopeAlong,
    add_sub_cancel, one_mul]
  push_cast
  ring

theorem gap2_isBigO (hf : Solves a b n f Y) (hn : 1 ≤ n) :
    gap2 (1 / 2) f Y =O[𝓟 (steps a b 1)] fun p => p.2 ^ 2 :=
  hf.tangentGap_isBigO hn one_half_pos.le one_half_lt_one.le

/-- The points of the second and third stage lie on opposite sides of the solution. -/
theorem gap_add_isBigO (hf : Solves a b n f Y) (hn : 2 ≤ n) :
    (fun p => gap2 (1 / 2) f Y p + gap3 (1 / 2) f Y p) =O[𝓟 (steps a b 1)] fun p => p.2 ^ 3 := by
  have hvalue := hf.derivatives.taylor (k := 0) (m := 3) (by omega) one_half_pos.le
    one_half_lt_one.le
  have hslope := hf.derivatives.taylor (k := 1) (m := 2) (by omega) one_half_pos.le
    one_half_lt_one.le
  have hslip := hf.slip_isBigO one_half_pos.le one_half_lt_one.le (gap2_isBigO hf (by omega))
  have hsum := (((step_mul hslope).const_mul_left (1 / 2)).add
    ((step_mul hslip).const_mul_left (1 / 2))).sub (hvalue.const_mul_left 2)
  refine hsum.congr_left fun p => ?_
  simp [Finset.sum_range_succ, gap3, gap2, tangentGap]
  ring

theorem gap3_isBigO (hf : Solves a b n f Y) (hn : 2 ≤ n) :
    gap3 (1 / 2) f Y =O[𝓟 (steps a b 1)] fun p => p.2 ^ 2 :=
  (((gap_add_isBigO hf hn).trans (pow_isBigO_pow a b (by norm_num))).sub
    (gap2_isBigO hf (by omega))).congr_left fun p => add_sub_cancel_left _ _

/-- The fourth stage goes a whole step from the slope in the middle. -/
theorem gap4_isBigO (hf : Solves a b n f Y) (hn : 2 ≤ n) :
    gap4 (1 / 2) f Y =O[𝓟 (steps a b 1)] fun p => p.2 ^ 3 := by
  have hvalue := hf.derivatives.taylor (k := 0) (m := 3) (by omega) zero_le_one le_rfl
  have hslope := hf.derivatives.taylor (k := 1) (m := 2) (by omega) one_half_pos.le
    one_half_lt_one.le
  have hslip := hf.slip_isBigO one_half_pos.le one_half_lt_one.le (gap3_isBigO hf hn)
  have hsum := ((step_mul hslope).add (step_mul hslip)).sub hvalue
  refine hsum.congr_left fun p => ?_
  simp [Finset.sum_range_succ, gap4]
  ring

/-- In the weights of the method the gaps cancel once more. -/
theorem gaps_isBigO (hf : Solves a b n f Y) (hn : 3 ≤ n) (hα : Coefficient a b f Y α) :
    (fun p => 2 * gap2 (1 / 2) f Y p + 2 * gap3 (1 / 2) f Y p + gap4 (1 / 2) f Y p)
      =O[𝓟 (steps a b 1)] fun p => p.2 ^ 4 := by
  have hmiddle := hf.derivatives.taylor (k := 0) (m := 4) (by omega) one_half_pos.le
    one_half_lt_one.le
  have hvalue := hf.derivatives.taylor (k := 0) (m := 4) (by omega) zero_le_one le_rfl
  have hslope := hf.derivatives.taylor (k := 1) (m := 3) (by omega) one_half_pos.le
    one_half_lt_one.le
  have hslip2 := hα.slip one_half_pos.le one_half_lt_one.le (gap2_isBigO hf (by omega))
  have hslip3 := hα.slip one_half_pos.le one_half_lt_one.le (gap3_isBigO hf (by omega))
  have hslips : (fun p => Vmath.slip f Y (1 / 2) (gap2 (1 / 2) f Y) p +
      Vmath.slip f Y (1 / 2) (gap3 (1 / 2) f Y) p) =O[𝓟 (steps a b 1)] fun p => p.2 ^ 3 := by
    have hgaps := hα.mul one_half_pos.le one_half_lt_one.le (gap_add_isBigO hf (by omega))
    refine (((hslip2.add hslip3).trans (pow_isBigO_pow a b (by norm_num))).add
      hgaps).congr_left fun p => ?_
    ring
  have hsum := (((step_mul hslope).const_mul_left 2).sub (hmiddle.const_mul_left 4)).sub hvalue
    |>.add (step_mul hslips)
  refine hsum.congr_left fun p => ?_
  simp [Finset.sum_range_succ, gap2, gap3, gap4, tangentGap, Nat.factorial]
  ring

/-- So the slopes do as a whole what the solution's slopes at the same places do. -/
theorem slips_isBigO (hf : Solves a b n f Y) (hn : 3 ≤ n) (hα : Coefficient a b f Y α) :
    (fun p => 2 * Vmath.slip f Y (1 / 2) (gap2 (1 / 2) f Y) p +
      2 * Vmath.slip f Y (1 / 2) (gap3 (1 / 2) f Y) p + Vmath.slip f Y 1 (gap4 (1 / 2) f Y) p)
      =O[𝓟 (steps a b 1)] fun p => p.2 ^ 4 := by
  have hslip2 := hα.slip one_half_pos.le one_half_lt_one.le (gap2_isBigO hf (by omega))
  have hslip3 := hα.slip one_half_pos.le one_half_lt_one.le (gap3_isBigO hf (by omega))
  have hslip4 := (hα.slip zero_le_one le_rfl (gap4_isBigO hf (by omega))).trans
    (pow_isBigO_pow a b (show 4 ≤ 6 by norm_num))
  have hgaps := hα.mul one_half_pos.le one_half_lt_one.le (gaps_isBigO hf hn hα)
  have hsum := ((((hslip2.const_mul_left 2).add (hslip3.const_mul_left 2)).add hslip4).add
    hgaps).add (hα.change_mul (gap4_isBigO hf (by omega)))
  refine hsum.congr_left fun p => ?_
  ring

theorem simpson_isBigO (hf : Solves a b n f Y) (hn : 4 ≤ n) :
    (fun p : ℝ × ℝ => Y (p.1 + 1 * p.2) - Y p.1 - p.2 * (slopeAlong f Y p.1 +
      4 * slopeAlong f Y (p.1 + 1 / 2 * p.2) + slopeAlong f Y (p.1 + 1 * p.2)) / 6)
      =O[𝓟 (steps a b 1)] fun p => p.2 ^ 5 := by
  have hvalue := hf.derivatives.taylor (k := 0) (m := 5) (by omega) zero_le_one le_rfl
  have hmiddle := hf.derivatives.taylor (k := 1) (m := 4) (by omega) one_half_pos.le
    one_half_lt_one.le
  have hslope := hf.derivatives.taylor (k := 1) (m := 4) (by omega) zero_le_one le_rfl
  have hsum := (hvalue.sub ((step_mul hmiddle).const_mul_left (4 / 6))).sub
    ((step_mul hslope).const_mul_left (1 / 6))
  refine hsum.congr_left fun p => ?_
  simp [Finset.sum_range_succ, Nat.factorial]
  ring

end RK

theorem Solves.RK_defect (hf : Solves a b n f Y) (hn : 4 ≤ n) :
    (fun p : ℝ × ℝ => Y (p.1 + p.2) - Y p.1 - RK.increment f p.1 p.2 (Y p.1))
      =O[𝓟 (steps a b 1)] fun p => p.2 ^ 5 := by
  have hslips := step_mul (RK.slips_isBigO hf (by omega) (hf.coefficient (by omega)))
  refine ((RK.simpson_isBigO hf hn).sub (hslips.const_mul_left (1 / 6))).congr_left fun p => ?_
  rw [RK.increment_eq, one_mul]
  ring

end Defects

/-! ### Orders -/

section Orders

variable {a b : ℝ} {n : ℕ} {f : ℝ → ℝ → ℝ} {Y : ℝ → ℝ}

theorem forall₂_of_getD {R : ℝ → ℝ → Prop} {y x : List ℝ} (hlength : y.length = x.length)
    (h : ∀ i < x.length, R (y.getD i 0) (x.getD i 0)) : List.Forall₂ R y x := by
  rw [List.forall₂_iff_get]
  refine ⟨hlength, fun i hy hx => ?_⟩
  have hi := h i hx
  rwa [List.getD_eq_getElem _ _ hy, List.getD_eq_getElem _ _ hx] at hi

theorem oneStep_order {ψ : ℝ → ℝ → ℝ → ℝ} {k : ℕ}
    (hslope : ∃ κ, LipschitzSlope a b κ ∧ ∀ x h y, ψ x h y = h * κ x h y)
    (hdefect : (fun p : ℝ × ℝ => Y (p.1 + p.2) - Y p.1 - ψ p.1 p.2 (Y p.1))
      =O[𝓟 (steps a b 1)] fun p => p.2 ^ (k + 1)) :
    ∃ C, ∀ h x, Grid a b h x → x ≠ [] →
      List.Forall₂ (fun y t => |y - Y t| ≤ C * h ^ k) (oneStep ψ (Y (x.getD 0 0)) x) x := by
  obtain ⟨κ, ⟨Λ, hΛ0, hΛ⟩, hκ⟩ := hslope
  have hψ : ∀ p ∈ steps a b 1, ∀ y z, |ψ p.1 p.2 y - ψ p.1 p.2 z| ≤ Λ * |p.2| * |y - z| := by
    intro p hp y z
    rw [hκ, hκ, ← mul_sub, abs_mul, mul_right_comm, mul_comm]
    exact mul_le_mul_of_nonneg_right (hΛ p hp y z) (abs_nonneg _)
  obtain ⟨C, hC⟩ := one_step_order hΛ0 hψ hdefect
  refine ⟨C, fun h x hx hne => forall₂_of_getD (oneStep_length hne) ?_⟩
  exact hC h x _ hx oneStep_zero fun i hi => oneStep_succ hi

/-- `Euler` is of the first order and `Euler2` of the second: over every grid of an interval they
stay as close to the solution. -/
theorem Euler_order (hf : Solves a b 2 f Y) :
    ∃ C, ∀ h x, Grid a b h x → x ≠ [] →
      List.Forall₂ (fun y t => |y - Y t| ≤ C * h) (Euler (Y (x.getD 0 0)) x f) x ∧
      List.Forall₂ (fun y t => |y - Y t| ≤ C * h ^ 2) (Euler2 (Y (x.getD 0 0)) x f) x := by
  obtain ⟨C, hC⟩ := oneStep_order (Euler_slope hf) (hf.Euler_defect one_le_two)
  obtain ⟨C', hC'⟩ := oneStep_order (Euler2_slope hf) (hf.Euler2_defect le_rfl)
  refine ⟨max C C', fun h x hx hne => ⟨(hC h x hx hne).imp fun y t herror => ?_, ?_⟩⟩
  · rw [pow_one] at herror
    exact herror.trans (mul_le_mul_of_nonneg_right (le_max_left C C') hx.nonneg)
  · rw [Euler2_eq]
    refine (hC' h x hx hne).imp fun y t herror => ?_
    exact herror.trans (mul_le_mul_of_nonneg_right (le_max_right C C') (pow_nonneg hx.nonneg 2))

/-- A right side and one of its solutions. -/
theorem parabola_solves (n : ℕ) :
    Solves 0 1 n (fun x y => y - x ^ 2) fun x => x ^ 2 + 2 * x + 2 where
  lt := one_pos
  smooth := ContDiff.contDiffOn (by fun_prop)
  lipschitz := ⟨1, fun t _ => LipschitzWith.of_dist_le_mul fun y z => by simp⟩
  hasDeriv t _ := by
    have hsum := (((hasDerivWithinAt_id t (Icc 0 1)).fun_pow 2).fun_add
      ((hasDerivWithinAt_id t (Icc 0 1)).const_mul 2)).add_const 2
    refine hsum.congr_deriv ?_
    simp only [id_eq, Nat.cast_ofNat]
    ring

theorem Euler_order_parabola : ∃ C, ∀ h x, Grid 0 1 h x → x ≠ [] →
    List.Forall₂ (fun y t => |y - (t ^ 2 + 2 * t + 2)| ≤ C * h)
      (Euler (x.getD 0 0 ^ 2 + 2 * x.getD 0 0 + 2) x fun x y => y - x ^ 2) x ∧
    List.Forall₂ (fun y t => |y - (t ^ 2 + 2 * t + 2)| ≤ C * h ^ 2)
      (Euler2 (x.getD 0 0 ^ 2 + 2 * x.getD 0 0 + 2) x fun x y => y - x ^ 2) x :=
  Euler_order (parabola_solves 2)

/-- `RK` is of the fourth order. -/
theorem RK_order (hf : Solves a b 4 f Y) :
    ∃ C, ∀ h x, Grid a b h x → x ≠ [] →
      List.Forall₂ (fun y t => |y - Y t| ≤ C * h ^ 4) (RK (Y (x.getD 0 0)) x f) x :=
  oneStep_order (RK_slope hf) (hf.RK_defect le_rfl)

theorem RK_order_parabola : ∃ C, ∀ h x, Grid 0 1 h x → x ≠ [] →
    List.Forall₂ (fun y t => |y - (t ^ 2 + 2 * t + 2)| ≤ C * h ^ 4)
      (RK (x.getD 0 0 ^ 2 + 2 * x.getD 0 0 + 2) x fun x y => y - x ^ 2) x :=
  RK_order (parabola_solves 4)

end Orders

end Itmo.Vmath
