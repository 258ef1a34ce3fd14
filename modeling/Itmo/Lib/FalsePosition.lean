import Mathlib.Analysis.Convex.Function
import Mathlib.Topology.Order.Compact
import Mathlib.Topology.Order.IntermediateValue
import Mathlib.Topology.MetricSpace.Basic
import Mathlib.Topology.Instances.Real.Lemmas
import Mathlib.Order.Filter.AtTopBot.Basic
import Mathlib.Tactic.FieldSimp
import Mathlib.Tactic.Linarith
import Mathlib.Tactic.LinearCombination

/-! The method of false position for a continuous function: a bracket is cut where the chord
over it is zero, and the part with the change of sign is kept. Either the brackets shrink to a
root, or from some cut on one end stays where it is and the other one tends to a root. Which
end moves is a race of the values at the ends: an end can only move when its own value is the
smaller one, and when the other end takes over the values have doubled. -/

namespace Itmo.Lib

open Filter Topology Set

section Definitions

variable {K : Type*} [Field K] [LinearOrder K]

/-- Where the line through two points of the graph is zero. -/
def chord (f : K → K) (a b : K) : K := a - (b - a) * f a / (f b - f a)

/-- The next bracket. -/
def cut (f : K → K) (s : K × K) : K × K :=
  if f s.1 * f (chord f s.1 s.2) < 0 then (s.1, chord f s.1 s.2) else (chord f s.1 s.2, s.2)

end Definitions

/-- The function goes from a value that is not positive to a positive one. -/
structure Rises (f : ℝ → ℝ) (s : ℝ × ℝ) : Prop where
  lt : s.1 < s.2
  left : f s.1 ≤ 0
  right : 0 < f s.2

/-- The right end is the one that moves. -/
def MovesRight (f : ℝ → ℝ) (s : ℝ × ℝ) : Prop := 0 < f (chord f s.1 s.2)

/-- One end stays where it is and the other one tends to a root that is out of reach. -/
def LeftBehind (f : ℝ → ℝ) (p : ℝ) (fixed moving : ℕ → ℝ) : Prop :=
  ∃ N ξ, f ξ = 0 ∧ (∀ n ≥ N, fixed n = fixed N) ∧ Tendsto moving atTop (𝓝 ξ) ∧
    (p < |fixed N - ξ| ∨ p = |fixed N - ξ| ∧ ∀ n, moving n ≠ ξ)

/-! ### One cut -/

section Cut

variable {f : ℝ → ℝ} {s : ℝ × ℝ}

/-- How far along the bracket the chord is zero. -/
noncomputable def share (f : ℝ → ℝ) (s : ℝ × ℝ) : ℝ := -f s.1 / (f s.2 - f s.1)

theorem chord_eq (f : ℝ → ℝ) (s : ℝ × ℝ) : chord f s.1 s.2 = s.1 + share f s * (s.2 - s.1) := by
  rw [chord, share]
  ring

theorem Rises.value_sub_pos (h : Rises f s) : 0 < f s.2 - f s.1 := by
  linarith [h.left, h.right]

theorem Rises.share_nonneg (h : Rises f s) : 0 ≤ share f s :=
  div_nonneg (neg_nonneg.mpr h.left) h.value_sub_pos.le

theorem Rises.share_lt_one (h : Rises f s) : share f s < 1 := by
  rw [share, div_lt_one h.value_sub_pos]
  linarith [h.right]

theorem Rises.le_chord (h : Rises f s) : s.1 ≤ chord f s.1 s.2 := by
  rw [chord_eq]
  exact le_add_of_nonneg_right (mul_nonneg h.share_nonneg (sub_nonneg.mpr h.lt.le))

theorem Rises.chord_lt (h : Rises f s) : chord f s.1 s.2 < s.2 := by
  have hshare := mul_lt_mul_of_pos_right h.share_lt_one (sub_pos.mpr h.lt)
  rw [chord_eq]
  linarith

theorem MovesRight.left_neg (h : Rises f s) (hright : MovesRight f s) : f s.1 < 0 := by
  refine lt_of_le_of_ne h.left fun hzero => ?_
  rw [MovesRight, chord, hzero, mul_zero, zero_div, sub_zero, hzero] at hright
  exact lt_irrefl 0 hright

theorem cut_of_movesRight (h : Rises f s) (hright : MovesRight f s) :
    cut f s = (s.1, chord f s.1 s.2) :=
  if_pos (mul_neg_of_neg_of_pos (hright.left_neg h) hright)

theorem cut_of_not_movesRight (h : Rises f s) (hleft : ¬ MovesRight f s) :
    cut f s = (chord f s.1 s.2, s.2) :=
  if_neg (not_lt.mpr (mul_nonneg_of_nonpos_of_nonpos h.left (not_lt.mp hleft)))

theorem Rises.next (h : Rises f s) : Rises f (cut f s) := by
  by_cases hright : MovesRight f s
  · rw [cut_of_movesRight h hright]
    have hne : s.1 ≠ chord f s.1 s.2 := by
      intro heq
      rw [MovesRight, ← heq] at hright
      exact absurd hright (not_lt.mpr h.left)
    exact ⟨lt_of_le_of_ne h.le_chord hne, h.left, hright⟩
  · rw [cut_of_not_movesRight h hright]
    exact ⟨h.chord_lt, not_lt.mp hright, h.right⟩

theorem Rises.left_le_cut (h : Rises f s) : s.1 ≤ (cut f s).1 := by
  by_cases hright : MovesRight f s
  · rw [cut_of_movesRight h hright]
  · rw [cut_of_not_movesRight h hright]
    exact h.le_chord

theorem Rises.cut_le_right (h : Rises f s) : (cut f s).2 ≤ s.2 := by
  by_cases hright : MovesRight f s
  · rw [cut_of_movesRight h hright]
    exact h.chord_lt.le
  · rw [cut_of_not_movesRight h hright]

/-- The cut takes less than a third of the bracket off, at either end. -/
structure Slow (f : ℝ → ℝ) (s : ℝ × ℝ) : Prop where
  left : (cut f s).1 - s.1 < (s.2 - s.1) / 3
  right : s.2 - (cut f s).2 < (s.2 - s.1) / 3

/-- An end that moves slowly has by far the smaller value. -/
theorem Slow.value_left (h : Rises f s) (hslow : Slow f s) (hleft : ¬ MovesRight f s) :
    2 * -f s.1 < f s.2 := by
  have hsmall := hslow.left
  have hshare : share f s < 1 / 3 := by
    rw [cut_of_not_movesRight h hleft, chord_eq] at hsmall
    refine lt_of_mul_lt_mul_right ?_ (sub_nonneg.mpr h.lt.le)
    linarith
  rw [share, div_lt_iff₀ h.value_sub_pos] at hshare
  linarith

theorem Slow.value_right (h : Rises f s) (hslow : Slow f s) (hright : MovesRight f s) :
    2 * f s.2 < -f s.1 := by
  have hsmall := hslow.right
  have hshare : 2 / 3 < share f s := by
    rw [cut_of_movesRight h hright, chord_eq] at hsmall
    refine lt_of_mul_lt_mul_right ?_ (sub_nonneg.mpr h.lt.le)
    linarith
  rw [share, lt_div_iff₀ h.value_sub_pos] at hshare
  linarith

/-- The greater of the two values, without their signs. -/
noncomputable def size (f : ℝ → ℝ) (s : ℝ × ℝ) : ℝ := max (-f s.1) (f s.2)

/-- A slow cut leaves the greater value alone. -/
theorem Slow.size_le (h : Rises f s) (hslow : Slow f s) : size f s ≤ size f (cut f s) := by
  by_cases hright : MovesRight f s
  · have hvalue := hslow.value_right h hright
    rw [cut_of_movesRight h hright, size, size, max_eq_left (by linarith [h.right])]
    exact le_max_left _ _
  · have hvalue := hslow.value_left h hright
    rw [cut_of_not_movesRight h hright, size, size, max_eq_right (by linarith [h.left])]
    exact le_max_right _ _

/-- When the right end takes over from the left one, the greater value has doubled. -/
theorem Slow.size_double (h : Rises f s) (hslow : Slow f s) (hnext : Slow f (cut f s))
    (hleft : ¬ MovesRight f s) (hright : MovesRight f (cut f s)) :
    2 * size f s < size f (cut f s) := by
  have hvalue := hslow.value_left h hleft
  have hdouble := hnext.value_right h.next hright
  have hsame : (cut f s).2 = s.2 := by rw [cut_of_not_movesRight h hleft]
  rw [hsame] at hdouble
  calc 2 * size f s = 2 * f s.2 := by rw [size, max_eq_right (by linarith [h.left])]
    _ < -f (cut f s).1 := hdouble
    _ ≤ size f (cut f s) := le_max_left _ _

end Cut

/-! ### All cuts -/

section Cuts

variable {f : ℝ → ℝ} {s : ℝ × ℝ}

theorem Rises.iterate (h : Rises f s) (n : ℕ) : Rises f ((cut f)^[n] s) := by
  induction n with
  | zero => exact h
  | succ n ih =>
    rw [Function.iterate_succ_apply']
    exact ih.next

theorem Rises.monotone (h : Rises f s) : Monotone fun n => ((cut f)^[n] s).1 := by
  refine monotone_nat_of_le_succ fun n => ?_
  rw [Function.iterate_succ_apply']
  exact (h.iterate n).left_le_cut

theorem Rises.antitone (h : Rises f s) : Antitone fun n => ((cut f)^[n] s).2 := by
  refine antitone_nat_of_succ_le fun n => ?_
  rw [Function.iterate_succ_apply']
  exact (h.iterate n).cut_le_right

theorem Rises.left_lt_right (h : Rises f s) (m n : ℕ) :
    ((cut f)^[m] s).1 < ((cut f)^[n] s).2 :=
  calc ((cut f)^[m] s).1 ≤ ((cut f)^[max m n] s).1 := h.monotone (le_max_left m n)
    _ < ((cut f)^[max m n] s).2 := (h.iterate _).lt
    _ ≤ ((cut f)^[n] s).2 := h.antitone (le_max_right m n)

theorem Rises.tendsto (h : Rises f s) : ∃ A B, A ≤ B ∧
    Tendsto (fun n => ((cut f)^[n] s).1) atTop (𝓝 A) ∧
    Tendsto (fun n => ((cut f)^[n] s).2) atTop (𝓝 B) := by
  have hA := tendsto_atTop_ciSup h.monotone
    ⟨s.2, by rintro _ ⟨n, rfl⟩; exact (h.left_lt_right n 0).le⟩
  have hB := tendsto_atTop_ciInf h.antitone
    ⟨s.1, by rintro _ ⟨n, rfl⟩; exact (h.left_lt_right 0 n).le⟩
  exact ⟨_, _, le_of_tendsto_of_tendsto' hA hB fun n => (h.left_lt_right n n).le, hA, hB⟩

/-- If the brackets do not shrink to a point, the cuts become slow. -/
theorem Rises.eventually_slow (h : Rises f s) {A B : ℝ} (hAB : A < B)
    (hA : Tendsto (fun n => ((cut f)^[n] s).1) atTop (𝓝 A))
    (hB : Tendsto (fun n => ((cut f)^[n] s).2) atTop (𝓝 B)) :
    ∀ᶠ n in atTop, Slow f ((cut f)^[n] s) := by
  have hleft : Tendsto (fun n => ((cut f)^[n + 1] s).1 - ((cut f)^[n] s).1) atTop (𝓝 (A - A)) :=
    (hA.comp (tendsto_add_atTop_nat 1)).sub hA
  have hright : Tendsto (fun n => ((cut f)^[n] s).2 - ((cut f)^[n + 1] s).2) atTop (𝓝 (B - B)) :=
    hB.sub (hB.comp (tendsto_add_atTop_nat 1))
  have hgap : 0 < (B - A) / 3 := by linarith
  rw [sub_self] at hleft hright
  filter_upwards [(tendsto_order.1 hleft).2 _ hgap, (tendsto_order.1 hright).2 _ hgap]
    with n hl hr
  have hle := h.monotone.ge_of_tendsto hA n
  have hge := h.antitone.le_of_tendsto hB n
  rw [Function.iterate_succ_apply'] at hl hr
  exact ⟨by linarith, by linarith⟩

/-- Then from some cut on only one end moves: the greater value cannot double for ever. -/
theorem Rises.one_end_moves (h : Rises f s) (hf : Continuous f) {A B : ℝ} (hAB : A < B)
    (hA : Tendsto (fun n => ((cut f)^[n] s).1) atTop (𝓝 A))
    (hB : Tendsto (fun n => ((cut f)^[n] s).2) atTop (𝓝 B)) :
    (∀ᶠ n in atTop, ¬ MovesRight f ((cut f)^[n] s)) ∨
      ∀ᶠ n in atTop, MovesRight f ((cut f)^[n] s) := by
  obtain ⟨N, hslow⟩ := eventually_atTop.mp (h.eventually_slow hAB hA hB)
  have hsize : Tendsto (fun n => size f ((cut f)^[n] s)) atTop (𝓝 (size f (A, B))) :=
    ((hf.tendsto A).comp hA).neg.max ((hf.tendsto B).comp hB)
  have hpos : 0 < size f (A, B) := by
    have hfirst : ∀ n ≥ N, size f ((cut f)^[N] s) ≤ size f ((cut f)^[n] s) := by
      intro n hn
      induction n, hn using Nat.le_induction with
      | base => exact le_rfl
      | succ n hn ih =>
        rw [Function.iterate_succ_apply']
        exact ih.trans ((hslow n hn).size_le (h.iterate n))
    calc 0 < f ((cut f)^[N] s).2 := (h.iterate N).right
      _ ≤ size f ((cut f)^[N] s) := le_max_right _ _
      _ ≤ size f (A, B) := ge_of_tendsto hsize (eventually_atTop.mpr ⟨N, hfirst⟩)
  have hdouble : ∀ᶠ n in atTop, size f ((cut f)^[n + 1] s) < 2 * size f ((cut f)^[n] s) :=
    (hsize.comp (tendsto_add_atTop_nat 1)).eventually_lt (hsize.const_mul 2) (by linarith)
  obtain ⟨N', hdouble⟩ := eventually_atTop.mp hdouble
  by_cases hleft : ∃ m ≥ max N N', ¬ MovesRight f ((cut f)^[m] s)
  · obtain ⟨m, hm, hleft⟩ := hleft
    refine Or.inl (eventually_atTop.mpr ⟨m, fun n hn => ?_⟩)
    induction n, hn using Nat.le_induction with
    | base => exact hleft
    | succ n hn ih =>
      intro hright
      have := hdouble n (by omega)
      have hslow' := hslow (n + 1) (by omega)
      rw [Function.iterate_succ_apply'] at *
      exact absurd ((hslow n (by omega)).size_double (h.iterate n) hslow' ih hright) (by linarith)
  · push Not at hleft
    exact Or.inr (eventually_atTop.mpr ⟨_, hleft⟩)

theorem tendsto_chord (hf : Continuous f) {u v : ℕ → ℝ} {A B : ℝ} (hu : Tendsto u atTop (𝓝 A))
    (hv : Tendsto v atTop (𝓝 B)) (hAB : f A ≠ f B) :
    Tendsto (fun n => chord f (u n) (v n)) atTop (𝓝 (chord f A B)) := by
  have hfu := (hf.tendsto A).comp hu
  have hfv := (hf.tendsto B).comp hv
  exact hu.sub (((hv.sub hu).mul hfu).div (hfv.sub hfu) (sub_ne_zero.mpr hAB.symm))

/-- A chord that is zero at one of its ends ends in a root. -/
theorem root_of_chord_eq_left {a b : ℝ} (hab : f a ≠ f b) (h : chord f a b = a) : f a = 0 := by
  have hne : b - a ≠ 0 := sub_ne_zero.mpr fun heq => hab (by rw [heq])
  rw [chord, sub_eq_self, div_eq_zero_iff, mul_eq_zero, or_iff_right hne] at h
  exact h.resolve_right (sub_ne_zero.mpr hab.symm)

theorem root_of_chord_eq_right {a b : ℝ} (hab : f a ≠ f b) (h : chord f a b = b) : f b = 0 := by
  have hne : b - a ≠ 0 := sub_ne_zero.mpr fun heq => hab (by rw [heq])
  have hvalues : f b - f a ≠ 0 := sub_ne_zero.mpr hab.symm
  rw [chord] at h
  field_simp at h
  refine (mul_eq_zero.mp ?_).resolve_left hne
  linear_combination -h

/-- The chords over the limit of the moving end are zero there. -/
theorem Rises.root_of_left_moves (h : Rises f s) (hf : Continuous f) {A : ℝ}
    (hA : Tendsto (fun n => ((cut f)^[n] s).1) atTop (𝓝 A)) {N : ℕ}
    (hleft : ∀ n ≥ N, ¬ MovesRight f ((cut f)^[n] s)) :
    f A = 0 ∧ ∀ n ≥ N, ((cut f)^[n] s).2 = ((cut f)^[N] s).2 := by
  have hfixed : ∀ n ≥ N, ((cut f)^[n] s).2 = ((cut f)^[N] s).2 := by
    intro n hn
    induction n, hn using Nat.le_induction with
    | base => rfl
    | succ n hn ih =>
      rw [Function.iterate_succ_apply', cut_of_not_movesRight (h.iterate n) (hleft n hn)]
      exact ih
  refine ⟨?_, hfixed⟩
  have hvalue : f A ≤ 0 := le_of_tendsto' ((hf.tendsto A).comp hA) fun n => (h.iterate n).left
  have hne : f A ≠ f ((cut f)^[N] s).2 := (hvalue.trans_lt (h.iterate N).right).ne
  have hnext : ∀ᶠ n in atTop, chord f ((cut f)^[n] s).1 ((cut f)^[N] s).2 =
      ((cut f)^[n + 1] s).1 := by
    refine eventually_atTop.mpr ⟨N, fun n hn => ?_⟩
    rw [Function.iterate_succ_apply', cut_of_not_movesRight (h.iterate n) (hleft n hn), hfixed n hn]
  have hchord := tendsto_chord hf hA tendsto_const_nhds hne
  exact root_of_chord_eq_left hne
    (tendsto_nhds_unique (hchord.congr' hnext) (hA.comp (tendsto_add_atTop_nat 1)))

theorem Rises.root_of_right_moves (h : Rises f s) (hf : Continuous f) {B : ℝ}
    (hB : Tendsto (fun n => ((cut f)^[n] s).2) atTop (𝓝 B)) {N : ℕ}
    (hright : ∀ n ≥ N, MovesRight f ((cut f)^[n] s)) :
    f B = 0 ∧ ∀ n ≥ N, ((cut f)^[n] s).1 = ((cut f)^[N] s).1 := by
  have hfixed : ∀ n ≥ N, ((cut f)^[n] s).1 = ((cut f)^[N] s).1 := by
    intro n hn
    induction n, hn using Nat.le_induction with
    | base => rfl
    | succ n hn ih =>
      rw [Function.iterate_succ_apply', cut_of_movesRight (h.iterate n) (hright n hn)]
      exact ih
  refine ⟨?_, hfixed⟩
  have hvalue : 0 ≤ f B := ge_of_tendsto' ((hf.tendsto B).comp hB) fun n => (h.iterate n).right.le
  have hne : f ((cut f)^[N] s).1 ≠ f B :=
    (((hright N le_rfl).left_neg (h.iterate N)).trans_le hvalue).ne
  have hnext : ∀ᶠ n in atTop, chord f ((cut f)^[N] s).1 ((cut f)^[n] s).2 =
      ((cut f)^[n + 1] s).2 := by
    refine eventually_atTop.mpr ⟨N, fun n hn => ?_⟩
    rw [Function.iterate_succ_apply', cut_of_movesRight (h.iterate n) (hright n hn), hfixed n hn]
  have hchord := tendsto_chord hf tendsto_const_nhds hB hne
  exact root_of_chord_eq_right hne
    (tendsto_nhds_unique (hchord.congr' hnext) (hB.comp (tendsto_add_atTop_nat 1)))

theorem Rises.width_antitone (h : Rises f s) {m n : ℕ} (hmn : m ≤ n) :
    ((cut f)^[n] s).2 - ((cut f)^[n] s).1 ≤ ((cut f)^[m] s).2 - ((cut f)^[m] s).1 :=
  sub_le_sub (h.antitone hmn) (h.monotone hmn)

/-- Brackets with an end that is left behind stay wide. -/
theorem Rises.lt_width_of_leftBehind (h : Rises f s) {p : ℝ}
    (hbehind : LeftBehind f p (fun n => ((cut f)^[n] s).2) (fun n => ((cut f)^[n] s).1) ∨
      LeftBehind f p (fun n => ((cut f)^[n] s).1) fun n => ((cut f)^[n] s).2) (n : ℕ) :
    p < ((cut f)^[n] s).2 - ((cut f)^[n] s).1 := by
  rcases hbehind with ⟨N, ξ, -, hfixed, hξ, hfar⟩ | ⟨N, ξ, -, hfixed, hξ, hfar⟩ <;>
    beta_reduce at hfixed hfar
  · have hle := h.monotone.ge_of_tendsto hξ (max n N)
    have hlt : ξ ≤ ((cut f)^[N] s).2 :=
      le_of_tendsto' hξ fun n => (h.left_lt_right n N).le
    refine lt_of_lt_of_le ?_ (h.width_antitone (le_max_left n N))
    rw [hfixed _ (le_max_right n N)]
    rw [abs_of_nonneg (sub_nonneg.mpr hlt)] at hfar
    rcases hfar with hfar | ⟨hfar, hne⟩
    · linarith
    · linarith [lt_of_le_of_ne hle (hne _)]
  · have hge := h.antitone.le_of_tendsto hξ (max n N)
    have hlt : ((cut f)^[N] s).1 ≤ ξ :=
      ge_of_tendsto' hξ fun n => (h.left_lt_right N n).le
    refine lt_of_lt_of_le ?_ (h.width_antitone (le_max_left n N))
    rw [hfixed _ (le_max_right n N)]
    rw [abs_of_nonpos (sub_nonpos.mpr hlt)] at hfar
    rcases hfar with hfar | ⟨hfar, hne⟩
    · linarith
    · linarith [lt_of_le_of_ne hge (hne _).symm]

/-- In brackets that stay wide, one end is left behind. -/
theorem Rises.leftBehind_of_lt_width (h : Rises f s) (hf : Continuous f) {p : ℝ} (hp : 0 < p)
    (hwide : ∀ n, p < ((cut f)^[n] s).2 - ((cut f)^[n] s).1) :
    LeftBehind f p (fun n => ((cut f)^[n] s).2) (fun n => ((cut f)^[n] s).1) ∨
      LeftBehind f p (fun n => ((cut f)^[n] s).1) fun n => ((cut f)^[n] s).2 := by
  obtain ⟨A, B, -, hA, hB⟩ := h.tendsto
  have hgap : p ≤ B - A := ge_of_tendsto' (hB.sub hA) fun n => (hwide n).le
  rcases h.one_end_moves hf (by linarith) hA hB with hmoves | hmoves
  · obtain ⟨N, hmoves⟩ := eventually_atTop.mp hmoves
    obtain ⟨hroot, hfixed⟩ := h.root_of_left_moves hf hA hmoves
    have hle : B ≤ ((cut f)^[N] s).2 := h.antitone.le_of_tendsto hB N
    refine Or.inl ⟨N, A, hroot, hfixed, hA, ?_⟩
    rw [abs_of_nonneg (by linarith)]
    rcases (hgap.trans (sub_le_sub_right hle A)).lt_or_eq with hlt | heq
    · exact Or.inl hlt
    · refine Or.inr ⟨heq, fun n hn => ?_⟩
      have hlater := h.monotone (le_max_left n N)
      have hwide := hwide (max n N)
      rw [hfixed _ (le_max_right n N)] at hwide
      linarith
  · obtain ⟨N, hmoves⟩ := eventually_atTop.mp hmoves
    obtain ⟨hroot, hfixed⟩ := h.root_of_right_moves hf hB hmoves
    have hle : ((cut f)^[N] s).1 ≤ A := h.monotone.ge_of_tendsto hA N
    refine Or.inr ⟨N, B, hroot, hfixed, hB, ?_⟩
    rw [abs_of_nonpos (by linarith), neg_sub]
    rcases (hgap.trans (sub_le_sub_left hle B)).lt_or_eq with hlt | heq
    · exact Or.inl hlt
    · refine Or.inr ⟨heq, fun n hn => ?_⟩
      have hlater := h.antitone (le_max_left n N)
      have hwide := hwide (max n N)
      rw [hfixed _ (le_max_right n N)] at hwide
      linarith

end Cuts

/-! ### Convex and concave functions -/

section Convex

variable {f : ℝ → ℝ} {s : ℝ × ℝ} {ξ p : ℝ}

theorem Rises.share_pos (h : Rises f s) (hleft : f s.1 < 0) : 0 < share f s :=
  div_pos (neg_pos.mpr hleft) h.value_sub_pos

/-- The chord is zero where its share of the two values is. -/
theorem Rises.share_combination (h : Rises f s) :
    (1 - share f s) • s.1 + share f s • s.2 = chord f s.1 s.2 ∧
      (1 - share f s) • f s.1 + share f s • f s.2 = 0 := by
  have hne := h.value_sub_pos.ne'
  constructor
  · rw [chord_eq, smul_eq_mul, smul_eq_mul]
    ring
  · rw [share, smul_eq_mul, smul_eq_mul]
    field_simp
    ring

/-- There a strictly convex function is negative. -/
theorem Rises.chord_neg (h : Rises f s) (hleft : f s.1 < 0)
    (hconvex : StrictConvexOn ℝ (Icc s.1 s.2) f) : f (chord f s.1 s.2) < 0 := by
  have hbelow := hconvex.2 (left_mem_Icc.mpr h.lt.le) (right_mem_Icc.mpr h.lt.le) h.lt.ne
    (sub_pos.mpr h.share_lt_one) (h.share_pos hleft) (sub_add_cancel 1 (share f s))
  rwa [h.share_combination.1, h.share_combination.2] at hbelow

theorem Rises.chord_pos (h : Rises f s) (hleft : f s.1 < 0)
    (hconcave : StrictConcaveOn ℝ (Icc s.1 s.2) f) : 0 < f (chord f s.1 s.2) := by
  have habove := hconcave.2 (left_mem_Icc.mpr h.lt.le) (right_mem_Icc.mpr h.lt.le) h.lt.ne
    (sub_pos.mpr h.share_lt_one) (h.share_pos hleft) (sub_add_cancel 1 (share f s))
  rwa [h.share_combination.1, h.share_combination.2] at habove

/-- Of a strictly convex function the right end stays. -/
theorem Rises.iterate_convex (h : Rises f s) (hleft : f s.1 < 0)
    (hconvex : StrictConvexOn ℝ (Icc s.1 s.2) f) (n : ℕ) :
    ((cut f)^[n] s).2 = s.2 ∧ f ((cut f)^[n] s).1 < 0 ∧ ¬ MovesRight f ((cut f)^[n] s) := by
  have hcut : ∀ n, f ((cut f)^[n] s).1 < 0 → f (chord f ((cut f)^[n] s).1 ((cut f)^[n] s).2) < 0 :=
    fun n hn => (h.iterate n).chord_neg hn (hconvex.subset
      (Icc_subset_Icc (h.monotone (Nat.zero_le n)) (h.antitone (Nat.zero_le n))) (convex_Icc _ _))
  induction n with
  | zero => exact ⟨rfl, hleft, not_lt.mpr (hcut 0 hleft).le⟩
  | succ n ih =>
    obtain ⟨hfixed, hneg, hmoves⟩ := ih
    have hnext : f ((cut f)^[n + 1] s).1 < 0 := by
      rw [Function.iterate_succ_apply', cut_of_not_movesRight (h.iterate n) hmoves]
      exact hcut n hneg
    refine ⟨?_, hnext, not_lt.mpr (hcut (n + 1) hnext).le⟩
    rw [Function.iterate_succ_apply', cut_of_not_movesRight (h.iterate n) hmoves]
    exact hfixed

/-- Of a strictly concave function the left end stays. -/
theorem Rises.iterate_concave (h : Rises f s) (hleft : f s.1 < 0)
    (hconcave : StrictConcaveOn ℝ (Icc s.1 s.2) f) (n : ℕ) :
    ((cut f)^[n] s).1 = s.1 ∧ MovesRight f ((cut f)^[n] s) := by
  have hcut : ∀ n, ((cut f)^[n] s).1 = s.1 → MovesRight f ((cut f)^[n] s) := by
    intro n hn
    refine (h.iterate n).chord_pos (by rwa [hn]) (hconcave.subset ?_ (convex_Icc _ _))
    exact Icc_subset_Icc (h.monotone (Nat.zero_le n)) (h.antitone (Nat.zero_le n))
  induction n with
  | zero => exact ⟨rfl, hcut 0 rfl⟩
  | succ n ih =>
    obtain ⟨hfixed, hmoves⟩ := ih
    have hnext : ((cut f)^[n + 1] s).1 = s.1 := by
      rw [Function.iterate_succ_apply', cut_of_movesRight (h.iterate n) hmoves]
      exact hfixed
    exact ⟨hnext, hcut (n + 1) hnext⟩

/-- A strictly convex function that rises has one root. -/
theorem Rises.root_unique_convex (h : Rises f s) (hleft : f s.1 < 0)
    (hconvex : StrictConvexOn ℝ (Icc s.1 s.2) f) {x y : ℝ} (hx : x ∈ Icc s.1 s.2)
    (hy : y ∈ Icc s.1 s.2) (hfx : f x = 0) (hfy : f y = 0) : x = y := by
  wlog hxy : x ≤ y generalizing x y
  · exact (this hy hx hfy hfx (le_of_not_ge hxy)).symm
  refine hxy.eq_of_not_lt fun hlt => ?_
  have hstart : s.1 < x := lt_of_le_of_ne hx.1 fun heq => by
    rw [heq, hfx] at hleft
    exact lt_irrefl 0 hleft
  have hbelow := hconvex.lt_on_openSegment (left_mem_Icc.mpr h.lt.le) hy (hstart.trans hlt).ne
    (by rw [openSegment_eq_Ioo (hstart.trans hlt)]; exact ⟨hstart, hlt⟩)
  rw [hfx, hfy, max_eq_right hleft.le] at hbelow
  exact lt_irrefl 0 hbelow

theorem Rises.root_unique_concave (h : Rises f s)
    (hconcave : StrictConcaveOn ℝ (Icc s.1 s.2) f) {x y : ℝ} (hx : x ∈ Icc s.1 s.2)
    (hy : y ∈ Icc s.1 s.2) (hfx : f x = 0) (hfy : f y = 0) : x = y := by
  wlog hxy : x ≤ y generalizing x y
  · exact (this hy hx hfy hfx (le_of_not_ge hxy)).symm
  refine hxy.eq_of_not_lt fun hlt => ?_
  have hright := h.right
  have hend : y < s.2 := lt_of_le_of_ne hy.2 fun heq => by
    rw [← heq, hfy] at hright
    exact lt_irrefl 0 hright
  have habove := hconcave.lt_on_openSegment hx (right_mem_Icc.mpr h.lt.le) (hlt.trans hend).ne
    (by rw [openSegment_eq_Ioo (hlt.trans hend)]; exact ⟨hlt, hend⟩)
  rw [hfx, hfy, min_eq_left hright.le] at habove
  exact lt_irrefl 0 habove

theorem Rises.shrinks_convex_iff (h : Rises f s) (hf : Continuous f) (hleft : f s.1 < 0)
    (hconvex : StrictConvexOn ℝ (Icc s.1 s.2) f) (hξ : ξ ∈ Icc s.1 s.2) (hroot : f ξ = 0) :
    (∃ n, ((cut f)^[n] s).2 - ((cut f)^[n] s).1 ≤ p) ↔ s.2 - ξ < p := by
  obtain ⟨A, B, hAB, hA, hB⟩ := h.tendsto
  have hcuts := h.iterate_convex hleft hconvex
  obtain ⟨hfA, -⟩ := h.root_of_left_moves hf hA fun n (_ : n ≥ 0) => (hcuts n).2.2
  have hbounds : A ∈ Icc s.1 s.2 :=
    ⟨h.monotone.ge_of_tendsto hA 0, hAB.trans (h.antitone.le_of_tendsto hB 0)⟩
  obtain rfl := h.root_unique_convex hleft hconvex hbounds hξ hfA hroot
  simp only [(hcuts _).1]
  constructor
  · rintro ⟨n, hn⟩
    have hne : ((cut f)^[n] s).1 ≠ A := fun heq => (hcuts n).2.1.ne (by rw [heq, hfA])
    linarith [lt_of_le_of_ne (h.monotone.ge_of_tendsto hA n) hne]
  · intro hlt
    obtain ⟨n, hn⟩ := ((tendsto_order.1 (hA.const_sub s.2)).2 _ hlt).exists
    exact ⟨n, hn.le⟩

theorem Rises.shrinks_concave_iff (h : Rises f s) (hf : Continuous f) (hleft : f s.1 < 0)
    (hconcave : StrictConcaveOn ℝ (Icc s.1 s.2) f) (hξ : ξ ∈ Icc s.1 s.2) (hroot : f ξ = 0) :
    (∃ n, ((cut f)^[n] s).2 - ((cut f)^[n] s).1 ≤ p) ↔ ξ - s.1 < p := by
  obtain ⟨A, B, hAB, hA, hB⟩ := h.tendsto
  have hcuts := h.iterate_concave hleft hconcave
  obtain ⟨hfB, -⟩ := h.root_of_right_moves hf hB fun n (_ : n ≥ 0) => (hcuts n).2
  have hbounds : B ∈ Icc s.1 s.2 :=
    ⟨(h.monotone.ge_of_tendsto hA 0).trans hAB, h.antitone.le_of_tendsto hB 0⟩
  obtain rfl := h.root_unique_concave hconcave hbounds hξ hfB hroot
  simp only [(hcuts _).1]
  constructor
  · rintro ⟨n, hn⟩
    have hne : B ≠ ((cut f)^[n] s).2 := fun heq => (h.iterate n).right.ne' (by rw [← heq, hfB])
    linarith [lt_of_le_of_ne (h.antitone.le_of_tendsto hB n) hne]
  · intro hlt
    obtain ⟨n, hn⟩ := ((tendsto_order.1 (hB.sub_const s.1)).2 _ hlt).exists
    exact ⟨n, hn.le⟩

end Convex

/-! ### Other coordinates -/

section Coordinates

variable {f : ℝ → ℝ} {l c σ : ℝ}

/-- The function in coordinates along a segment, and up to its sign. -/
def onSegment (f : ℝ → ℝ) (l c σ : ℝ) (t : ℝ) : ℝ := σ * f (l + c * t)

theorem continuous_onSegment (hf : Continuous f) : Continuous (onSegment f l c σ) := by
  unfold onSegment
  fun_prop

theorem chord_onSegment (hσ : σ ≠ 0) (a b : ℝ) :
    chord f (l + c * a) (l + c * b) = l + c * chord (onSegment f l c σ) a b := by
  rw [chord, chord, onSegment, onSegment, ← mul_sub, mul_left_comm, mul_div_mul_left _ _ hσ]
  ring

theorem cut_onSegment (hσ : σ ≠ 0) (s : ℝ × ℝ) :
    cut f (l + c * s.1, l + c * s.2) =
      (l + c * (cut (onSegment f l c σ) s).1, l + c * (cut (onSegment f l c σ) s).2) := by
  have hsign : onSegment f l c σ s.1 * onSegment f l c σ (chord (onSegment f l c σ) s.1 s.2) < 0 ↔
      f (l + c * s.1) * f (chord f (l + c * s.1) (l + c * s.2)) < 0 := by
    rw [chord_onSegment hσ, onSegment, onSegment, mul_mul_mul_comm]
    constructor
    · exact fun h => neg_of_mul_neg_right h (mul_self_pos.mpr hσ).le
    · exact mul_neg_of_pos_of_neg (mul_self_pos.mpr hσ)
  by_cases h : f (l + c * s.1) * f (chord f (l + c * s.1) (l + c * s.2)) < 0
  · rw [cut, cut, if_pos h, if_pos (hsign.mpr h), chord_onSegment hσ]
  · rw [cut, cut, if_neg h, if_neg (mt hsign.mp h), chord_onSegment hσ]

theorem iterate_onSegment (hσ : σ ≠ 0) (s : ℝ × ℝ) (n : ℕ) :
    (cut f)^[n] (l + c * s.1, l + c * s.2) =
      (l + c * ((cut (onSegment f l c σ))^[n] s).1,
        l + c * ((cut (onSegment f l c σ))^[n] s).2) := by
  induction n with
  | zero => rfl
  | succ n ih =>
    rw [Function.iterate_succ_apply', Function.iterate_succ_apply', ih, cut_onSegment hσ]

theorem leftBehind_onSegment (hσ : σ ≠ 0) (hc : c ≠ 0) {p : ℝ} (fixed moving : ℕ → ℝ) :
    LeftBehind f p (fun n => l + c * fixed n) (fun n => l + c * moving n) ↔
      LeftBehind (onSegment f l c σ) (p / |c|) fixed moving := by
  have hpos : 0 < |c| := abs_pos.mpr hc
  have hsurjective : Function.Surjective fun η => l + c * η := by
    intro ξ
    refine ⟨(ξ - l) / c, ?_⟩
    beta_reduce
    rw [mul_div_cancel₀ _ hc, add_sub_cancel]
  have hinducing : Topology.IsInducing fun η => l + c * η :=
    ((Homeomorph.mulLeft₀ c hc).trans (Homeomorph.addLeft l)).isInducing
  have hdistance : ∀ x η, |l + c * x - (l + c * η)| = |c| * |x - η| := by
    intro x η
    rw [add_sub_add_left_eq_sub, ← mul_sub, abs_mul]
  refine exists_congr fun N => ?_
  rw [hsurjective.exists]
  refine exists_congr fun η => and_congr ?_ (and_congr ?_ (and_congr ?_ ?_))
  · rw [onSegment, mul_eq_zero, or_iff_right hσ]
  · simp only [add_right_inj, mul_right_inj' hc]
  · exact hinducing.tendsto_nhds_iff.symm
  · simp only [hdistance, div_lt_iff₀' hpos, div_eq_iff hpos.ne', mul_comm |c|, ne_eq, add_right_inj,
      mul_right_inj' hc]

end Coordinates

/-! ### Any bracket -/

section Bracket

variable {f : ℝ → ℝ} {l r σ p ξ : ℝ}

theorem ne_of_change_of_sign (hsign : f l * f r < 0) : l ≠ r := by
  rintro rfl
  exact absurd hsign (not_lt.mpr (mul_self_nonneg _))

theorem mem_uIcc_iff_onSegment : ξ ∈ uIcc l r ↔ ∃ t ∈ Icc (0 : ℝ) 1, l + (r - l) * t = ξ := by
  rw [← segment_eq_uIcc, segment_eq_image', mem_image]
  refine exists_congr fun t => and_congr_right fun _ => ?_
  rw [smul_eq_mul, mul_comm]

theorem rises_onSegment (hl : σ * f l < 0) (hr : 0 < σ * f r) :
    Rises (onSegment f l (r - l) σ) (0, 1) := by
  refine ⟨one_pos, ?_, ?_⟩
  · rw [onSegment, mul_zero, add_zero]
    exact hl.le
  · rw [onSegment, mul_one, add_sub_cancel]
    exact hr

theorem iterate_bracket (hσ : σ ≠ 0) (n : ℕ) : (cut f)^[n] (l, r) =
    (l + (r - l) * ((cut (onSegment f l (r - l) σ))^[n] (0, 1)).1,
      l + (r - l) * ((cut (onSegment f l (r - l) σ))^[n] (0, 1)).2) := by
  rw [← iterate_onSegment hσ, mul_zero, add_zero, mul_one, add_sub_cancel]

theorem shrinks_onSegment (hσ : σ ≠ 0) (hlr : l ≠ r)
    (hrises : Rises (onSegment f l (r - l) σ) (0, 1)) :
    (∃ n, |((cut f)^[n] (l, r)).2 - ((cut f)^[n] (l, r)).1| ≤ p) ↔
      ∃ n, ((cut (onSegment f l (r - l) σ))^[n] (0, 1)).2 -
        ((cut (onSegment f l (r - l) σ))^[n] (0, 1)).1 ≤ p / |r - l| := by
  refine exists_congr fun n => ?_
  rw [iterate_bracket hσ, add_sub_add_left_eq_sub, ← mul_sub, abs_mul,
    abs_of_pos (sub_pos.mpr (hrises.iterate n).lt),
    le_div_iff₀' (abs_pos.mpr (sub_ne_zero.mpr hlr.symm))]

/-- The brackets come down to a width just if no end is left behind out of reach of the root
that the other end tends to. -/
theorem shrinks_iff (hf : Continuous f) (hsign : f l * f r < 0) (hp : 0 < p) :
    (∃ n, |((cut f)^[n] (l, r)).2 - ((cut f)^[n] (l, r)).1| ≤ p) ↔
      ¬ (LeftBehind f p (fun n => ((cut f)^[n] (l, r)).2) (fun n => ((cut f)^[n] (l, r)).1) ∨
        LeftBehind f p (fun n => ((cut f)^[n] (l, r)).1) fun n => ((cut f)^[n] (l, r)).2) := by
  -- the sign that makes the function rise along the segment
  have hl : f l ≠ 0 := left_ne_zero_of_mul hsign.ne
  have hσ : -f l ≠ 0 := neg_ne_zero.mpr hl
  have hrises : Rises (onSegment f l (r - l) (-f l)) (0, 1) := by
    refine rises_onSegment ?_ ?_
    · rw [neg_mul, neg_lt_zero]
      exact mul_self_pos.mpr hl
    · rw [neg_mul, neg_pos]
      exact hsign
  have hlr : l ≠ r := ne_of_change_of_sign hsign
  have hc : r - l ≠ 0 := sub_ne_zero.mpr hlr.symm
  have hcontinuous : Continuous (onSegment f l (r - l) (-f l)) := continuous_onSegment hf
  have hbracket := fun n => iterate_bracket (f := f) (l := l) (r := r) hσ n
  rw [shrinks_onSegment hσ hlr hrises]
  simp only [hbracket, leftBehind_onSegment hσ hc]
  constructor
  · rintro ⟨n, hn⟩ hbehind
    exact absurd hn (not_le.mpr (hrises.lt_width_of_leftBehind hbehind n))
  · intro hbehind
    by_contra! hwide
    exact hbehind (hrises.leftBehind_of_lt_width hcontinuous (div_pos hp (abs_pos.mpr hc)) hwide)

theorem strictConvexOn_onSegment (hlr : l ≠ r) (hconvex : StrictConvexOn ℝ (uIcc l r) f) :
    StrictConvexOn ℝ (Icc 0 1) (onSegment f l (r - l) 1) := by
  have hmem : ∀ t ∈ Icc (0 : ℝ) 1, l + (r - l) * t ∈ uIcc l r := fun t ht =>
    mem_uIcc_iff_onSegment.mpr ⟨t, ht, rfl⟩
  refine ⟨convex_Icc 0 1, fun x hx y hy hxy a b ha hb hab => ?_⟩
  have hne : l + (r - l) * x ≠ l + (r - l) * y := by
    rw [ne_eq, add_right_inj, mul_right_inj' (sub_ne_zero.mpr hlr.symm)]
    exact hxy
  have hbelow := hconvex.2 (hmem x hx) (hmem y hy) hne ha hb hab
  have hpoint : a • (l + (r - l) * x) + b • (l + (r - l) * y) =
      l + (r - l) * (a • x + b • y) := by
    simp only [smul_eq_mul]
    linear_combination l * hab
  rw [hpoint] at hbelow
  simpa only [onSegment, one_mul] using hbelow

/-- The brackets of a strictly convex function come down to a width just if the root is nearer
to the end with the positive value. -/
theorem shrinks_convex_iff (hf : Continuous f) (hsign : f l * f r < 0)
    (hconvex : StrictConvexOn ℝ (uIcc l r) f) (hξ : ξ ∈ uIcc l r) (hroot : f ξ = 0) :
    (0 < f r → ((∃ n, |((cut f)^[n] (l, r)).2 - ((cut f)^[n] (l, r)).1| ≤ p) ↔ |r - ξ| < p)) ∧
      (0 < f l → ((∃ n, |((cut f)^[n] (l, r)).2 - ((cut f)^[n] (l, r)).1| ≤ p) ↔
        |l - ξ| < p)) := by
  have hlr : l ≠ r := ne_of_change_of_sign hsign
  have hpos : 0 < |r - l| := abs_pos.mpr (sub_ne_zero.mpr hlr.symm)
  have hcontinuous : ∀ σ, Continuous (onSegment f l (r - l) σ) := fun _ => continuous_onSegment hf
  obtain ⟨t, ht, rfl⟩ := mem_uIcc_iff_onSegment.mp hξ
  have hvalue : ∀ σ, onSegment f l (r - l) σ t = 0 := fun σ => by rw [onSegment, hroot, mul_zero]
  have hstart : ∀ σ, onSegment f l (r - l) σ 0 = σ * f l := fun σ => by
    rw [onSegment, mul_zero, add_zero]
  constructor
  · intro hr
    have hl : 1 * f l < 0 := by
      rw [one_mul]
      exact neg_of_mul_neg_left hsign hr.le
    have hrises : Rises (onSegment f l (r - l) 1) (0, 1) := rises_onSegment hl (by rwa [one_mul])
    have hdistance : |r - (l + (r - l) * t)| = |r - l| * (1 - t) := by
      rw [← abs_of_nonneg (sub_nonneg.mpr ht.2), ← abs_mul]
      congr 1
      ring
    rw [shrinks_onSegment one_ne_zero hlr hrises, hrises.shrinks_convex_iff (hcontinuous 1)
      (by rwa [hstart]) (strictConvexOn_onSegment hlr hconvex) ht (hvalue 1), hdistance,
      lt_div_iff₀' hpos]
  · intro hl
    have hr : f r < 0 := neg_of_mul_neg_right hsign hl.le
    have hrises : Rises (onSegment f l (r - l) (-1)) (0, 1) :=
      rises_onSegment (by linarith) (by linarith)
    have hnegative : onSegment f l (r - l) (-1) = -onSegment f l (r - l) 1 := by
      funext x
      rw [Pi.neg_apply, onSegment, onSegment, neg_one_mul, one_mul]
    have hconcave : StrictConcaveOn ℝ (Icc 0 1) (onSegment f l (r - l) (-1)) := by
      rw [hnegative]
      exact (strictConvexOn_onSegment hlr hconvex).neg
    have hdistance : |l - (l + (r - l) * t)| = |r - l| * (t - 0) := by
      rw [sub_add_cancel_left, abs_neg, abs_mul, sub_zero, abs_of_nonneg ht.1]
    rw [shrinks_onSegment (neg_ne_zero.mpr one_ne_zero) hlr hrises, hrises.shrinks_concave_iff
      (hcontinuous (-1)) (by rw [hstart]; linarith) hconcave ht (hvalue (-1)), hdistance,
      lt_div_iff₀' hpos]

/-- The sign of the function does not matter. -/
theorem cut_neg (f : ℝ → ℝ) : cut (-f) = cut f := by
  funext s
  have hchord : chord (-f) s.1 s.2 = chord f s.1 s.2 := by
    rw [chord, chord, Pi.neg_apply, Pi.neg_apply, neg_sub_neg, mul_neg, ← neg_sub (f s.2), div_neg,
      neg_div, neg_neg]
  rw [cut, cut, hchord, Pi.neg_apply, Pi.neg_apply, neg_mul_neg]

theorem shrinks_concave_iff (hf : Continuous f) (hsign : f l * f r < 0)
    (hconcave : StrictConcaveOn ℝ (uIcc l r) f) (hξ : ξ ∈ uIcc l r) (hroot : f ξ = 0) :
    (f r < 0 → ((∃ n, |((cut f)^[n] (l, r)).2 - ((cut f)^[n] (l, r)).1| ≤ p) ↔ |r - ξ| < p)) ∧
      (f l < 0 → ((∃ n, |((cut f)^[n] (l, r)).2 - ((cut f)^[n] (l, r)).1| ≤ p) ↔
        |l - ξ| < p)) := by
  have h := shrinks_convex_iff (f := -f) (l := l) (r := r) (ξ := ξ) (p := p) hf.neg
    (by rwa [Pi.neg_apply, Pi.neg_apply, neg_mul_neg]) hconcave.neg hξ
    (by rw [Pi.neg_apply, hroot, neg_zero])
  rwa [cut_neg, Pi.neg_apply, Pi.neg_apply, neg_pos, neg_pos] at h

end Bracket

end Itmo.Lib
