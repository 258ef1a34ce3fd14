import Itmo.Lib.Loop
import Mathlib.Analysis.Convex.Slope
import Mathlib.Analysis.Normed.Group.AddTorsor
import Mathlib.Analysis.Normed.Ring.Basic
import Mathlib.LinearAlgebra.AffineSpace.Slope
import Mathlib.Tactic.FieldSimp
import Mathlib.Tactic.Linarith
import Mathlib.Data.Real.Basic

/-! Going down to the root of a convex function from the right. A step along any chord that
starts at the point and goes to the right ends at or before the point and not before the root,
and a loop of such steps ends since each of them, while the value is above a bound, uses up a
part of the way. -/

namespace Itmo.Lib

open Set

/-! ### Loops with a budget -/

/-- A loop that throws in no state it comes to and whose turns each use up at least a fixed part
of what is left ends within as many turns as there are parts. -/
theorem tryLoop_budget {σ ε : Type*} {test : σ → Prop} [DecidablePred test]
    {body : σ → Except ε σ} {Inv : σ → Prop} {budget : σ → ℝ} {part : ℝ} (hpart : 0 < part)
    (hnonneg : ∀ s, Inv s → 0 ≤ budget s)
    (hbody : ∀ s, Inv s → test s →
      ∃ s', body s = .ok s' ∧ Inv s' ∧ part ≤ budget s - budget s')
    {s : σ} (hs : Inv s) {turns : ℕ} (hturns : budget s / part < turns) :
    ∃ t, tryLoop test body turns s = some (.ok t) ∧ Inv t ∧ ¬ test t := by
  induction turns generalizing s with
  | zero =>
    have hpos := div_nonneg (hnonneg s hs) hpart.le
    rw [Nat.cast_zero] at hturns
    exact absurd hturns (not_lt.mpr hpos)
  | succ turns ih =>
    rw [tryLoop]
    by_cases htest : test s
    · obtain ⟨s', hok, hs', hpartial⟩ := hbody s hs htest
      rw [if_pos htest, hok]
      refine ih hs' ?_
      rw [div_lt_iff₀ hpart, Nat.cast_succ] at *
      linarith
    · exact ⟨s, if_neg htest, hs, htest⟩

/-! ### Chords -/

variable {s : Set ℝ} {f : ℝ → ℝ} {a x y x' y' : ℝ}

/-- Of two chords of a convex function, the one further to the right is the steeper one. -/
theorem slope_le_slope (hf : ConvexOn ℝ s f) (hx : x ∈ s) (hy : y ∈ s) (hx' : x' ∈ s) (hy' : y' ∈ s)
    (hxy : x < y) (hxy' : x' < y') (hle : x ≤ x') (hle' : y ≤ y') :
    slope f x y ≤ slope f x' y' := by
  have hright : slope f x y ≤ slope f x y' := by
    rw [slope_def_field, slope_def_field]
    exact hf.secant_mono hx hy hy' hxy.ne' (hxy.trans_le hle').ne' hle'
  have hleft : slope f x y' ≤ slope f x' y' := by
    rw [slope_comm f x, slope_comm f x', slope_def_field, slope_def_field]
    exact hf.secant_mono hy' hx hx' (hxy.trans_le hle').ne hxy'.ne hle
  exact hright.trans hleft

theorem slope_mul_sub (f : ℝ → ℝ) (x y : ℝ) : slope f x y * (y - x) = f y - f x := by
  rw [mul_comm]
  exact sub_smul_slope f x y

/-- Where the chord from one point to another is zero. -/
noncomputable def chordZero (f : ℝ → ℝ) (x y : ℝ) : ℝ := x - f x / slope f x y

section Step

variable (hf : ConvexOn ℝ s f) (ha : a ∈ s) (hy : y ∈ s) (hax : a < x) (hxy : x < y)
  (hfa : f a < 0) (hfx : 0 ≤ f x)

include hf ha hy hax hxy hfa hfx

/-- A chord to the right of a point where the function has risen rises. -/
theorem slope_pos_of_rise : 0 < slope f x y := by
  have hx : x ∈ s := hf.1.ordConnected.out ha hy ⟨hax.le, hxy.le⟩
  refine lt_of_lt_of_le ?_ (slope_le_slope hf ha hx hx hy hax hxy hax.le hxy.le)
  rw [slope_def_field]
  exact div_pos (by linarith) (sub_pos.mpr hax)

theorem chordZero_le : chordZero f x y ≤ x :=
  sub_le_self x (div_nonneg hfx (slope_pos_of_rise hf ha hy hax hxy hfa hfx).le)

theorem lt_chordZero : a < chordZero f x y := by
  have hx : x ∈ s := hf.1.ordConnected.out ha hy ⟨hax.le, hxy.le⟩
  have hpos := slope_pos_of_rise hf ha hy hax hxy hfa hfx
  have hchords := slope_le_slope hf ha hx hx hy hax hxy hax.le hxy.le
  have hmul := mul_le_mul_of_nonneg_right hchords (sub_pos.mpr hax).le
  rw [slope_mul_sub] at hmul
  have hless : f x / slope f x y < x - a := by
    rw [div_lt_iff₀' hpos]
    linarith
  unfold chordZero
  linarith

/-- The function is not negative where a chord on its right is zero. -/
theorem chordZero_nonneg : 0 ≤ f (chordZero f x y) := by
  have hx : x ∈ s := hf.1.ordConnected.out ha hy ⟨hax.le, hxy.le⟩
  have hpos := slope_pos_of_rise hf ha hy hax hxy hfa hfx
  have hafter := lt_chordZero hf ha hy hax hxy hfa hfx
  rcases (chordZero_le hf ha hy hax hxy hfa hfx).eq_or_lt with heq | hlt
  · rw [heq]
    exact hfx
  · have hmem : chordZero f x y ∈ s := hf.1.ordConnected.out ha hx ⟨hafter.le, hlt.le⟩
    have hchords := slope_le_slope hf hmem hx hx hy hlt hxy hlt.le hxy.le
    have hmul := mul_le_mul_of_nonneg_right hchords (sub_pos.mpr hlt).le
    have hstep : slope f x y * (x - chordZero f x y) = f x := by
      unfold chordZero
      rw [sub_sub_cancel, mul_div_cancel₀ _ hpos.ne']
    rw [slope_mul_sub, hstep] at hmul
    linarith

end Step

/-! ### The root -/

variable {ξ : ℝ}

/-- A point where the function is not negative is not before a root, and it is the closer to it
the smaller the value is. -/
theorem root_le_of_nonneg (hf : ConvexOn ℝ s f) (ha : a ∈ s) (hx : x ∈ s) (hfa : f a < 0)
    (hax : a < x) (hfx : 0 ≤ f x) (hξ : ξ ∈ s) (haξ : a < ξ) (hroot : f ξ = 0) :
    ξ ≤ x ∧ (x - ξ) * -f a ≤ f x * (ξ - a) := by
  have hle : ξ ≤ x := by
    by_contra hlt
    rw [not_le] at hlt
    have hchords := slope_le_slope hf ha hx hx hξ hax hlt hax.le hlt.le
    have hrise : 0 < slope f a x := by
      rw [slope_def_field]
      exact div_pos (by linarith) (sub_pos.mpr hax)
    have hfall : slope f x ξ ≤ 0 := by
      rw [slope_def_field, hroot]
      exact div_nonpos_of_nonpos_of_nonneg (by linarith) (sub_pos.mpr hlt).le
    linarith
  refine ⟨hle, ?_⟩
  rcases hle.eq_or_lt with rfl | hlt
  · rw [sub_self, zero_mul, hroot, zero_mul]
  · have hchords := slope_le_slope hf ha hξ hξ hx haξ hlt haξ.le hlt.le
    rw [slope_def_field, slope_def_field, hroot, div_le_div_iff₀ (sub_pos.mpr haξ)
      (sub_pos.mpr hlt)] at hchords
    linarith

end Itmo.Lib
