import Itmo.Vmath.OneStep

/-! The corrected Adams method of `differential.py` for a right side that depends on both
arguments. On a uniform grid both passes are of the fourth order: what a turn adds is a weighted
sum of slopes at the points before it, so an error grows with the largest of the errors so far,
and the errors of the first pass count in the second only in proportion to a step. -/

namespace Itmo.Vmath

open Lib Set Filter Asymptotics

/-! ### The correcting loop -/

/-- A loop that writes to one place after another reads there what was written at the places
before, and what has been at the others. -/
theorem foldl_set_getD {α : Type*} (g : List α → ℕ → α) (start : List α) (d : α)
    {first turns : ℕ} (hturns : first + turns ≤ start.length) :
    let y := (List.range' first turns).foldl (fun y i => y.set i (g y i)) start
    y.take first = start.take first ∧ y.drop (first + turns) = start.drop (first + turns) ∧
      y.length = start.length ∧ ∀ i, first ≤ i → i < first + turns →
        y.getD i d = g (y.take i ++ start.drop i) i := by
  induction turns with
  | zero =>
    refine ⟨rfl, rfl, rfl, fun i hge hlt => ?_⟩
    omega
  | succ turns ih =>
    obtain ⟨htake, hdrop, hlength, hturn⟩ := ih (by omega)
    rw [List.range'_1_concat, List.foldl_append, List.foldl_cons, List.foldl_nil]
    set y := (List.range' first turns).foldl (fun y i => y.set i (g y i)) start
    refine ⟨?_, ?_, ?_, fun i hge hlt => ?_⟩
    · rw [List.take_set_of_le (Nat.le_add_right first turns), htake]
    · rw [List.drop_set_of_lt (by omega), ← Nat.add_assoc, ← List.drop_drop, hdrop, List.drop_drop]
    · rw [List.length_set, hlength]
    · rcases Nat.lt_or_ge i (first + turns) with hlt | hge'
      · rw [List.getD_eq_getElem?_getD, List.getElem?_set_ne (by omega),
          ← List.getD_eq_getElem?_getD, List.take_set_of_le hlt.le, hturn i hge hlt]
      · obtain rfl : i = first + turns := by omega
        rw [List.getD_eq_getElem?_getD, List.getElem?_set_self (by omega), Option.getD_some,
          List.take_set_of_le le_rfl, ← hdrop, List.take_append_drop]

/-! ### What the two passes leave -/

section Formulas

variable {K : Type*} [Field K] (x : List K) (f : K → K → K) (y : List K) (i : ℕ)

/-- The value that a turn of the first loop appends. -/
def AdamsCorrected.explicit : K :=
  y.getD (i - 1) 0 + (x.getD i 0 - x.getD (i - 1) 0) *
    ((55 : ℕ) * f (x.getD (i - 1) 0) (y.getD (i - 1) 0) -
      (59 : ℕ) * f (x.getD (i - 2) 0) (y.getD (i - 2) 0) +
      (37 : ℕ) * f (x.getD (i - 3) 0) (y.getD (i - 3) 0) -
      (9 : ℕ) * f (x.getD (i - 4) 0) (y.getD (i - 4) 0)) / (24 : ℕ)

/-- The value that a turn of the second loop writes. -/
def AdamsCorrected.implicit : K :=
  y.getD (i - 1) 0 + AdamsCorrected.h x *
    ((9 : ℕ) * f (x.getD i 0) (y.getD i 0) +
      (19 : ℕ) * f (x.getD (i - 1) 0) (y.getD (i - 1) 0) -
      (5 : ℕ) * f (x.getD (i - 2) 0) (y.getD (i - 2) 0) +
      f (x.getD (i - 3) 0) (y.getD (i - 3) 0)) / (24 : ℕ)

end Formulas

section Passes

variable {x : List ℝ} {x0 h y0 : ℝ} {f : ℝ → ℝ → ℝ}

/-- The values after the first loop. -/
noncomputable def predicted (y0 : ℝ) (x : List ℝ) (f : ℝ → ℝ → ℝ) : List ℝ :=
  (List.range' 4 (x.length - 4)).foldl (AdamsCorrected.predict x f) (RK y0 (x.take 4) f)

theorem RK_take_length (y0 : ℝ) (hlength : 4 ≤ x.length) : (RK y0 (x.take 4) f).length = 4 := by
  have hne : x.take 4 ≠ [] := by
    rw [← List.length_pos_iff, List.length_take]
    omega
  rw [RK_eq_oneStep, oneStep_length hne, List.length_take, Nat.min_eq_left hlength]

theorem predicted_spec (y0 : ℝ) (hlength : 4 ≤ x.length) :
    let y := predicted y0 x f
    y.length = x.length ∧ (∀ i < 4, y.getD i 0 = (RK y0 (x.take 4) f).getD i 0) ∧
      ∀ i, 4 ≤ i → i < x.length → y.getD i 0 = AdamsCorrected.explicit x f (y.take i) i := by
  have hspec := foldl_append_getD (AdamsCorrected.explicit x f)
    (RK_take_length y0 (f := f) hlength) 0 (x.length - 4)
  rwa [Nat.add_sub_cancel' hlength] at hspec

theorem predicted_turn (hx : Uniform x x0 h) {i : ℕ} (hi : i + 4 < x.length) :
    let y := predicted y0 x f
    y.getD (i + 4) 0 = y.getD (i + 3) 0 + h * (55 * f (x.getD (i + 3) 0) (y.getD (i + 3) 0) -
      59 * f (x.getD (i + 2) 0) (y.getD (i + 2) 0) + 37 * f (x.getD (i + 1) 0) (y.getD (i + 1) 0) -
      9 * f (x.getD i 0) (y.getD i 0)) / 24 := by
  have hstep : x.getD (i + 4) 0 - x.getD (i + 3) 0 = h := by
    rw [hx.getD_add hi, hx.getD_add (by omega)]
    push_cast
    ring
  intro y
  rw [(predicted_spec y0 (by omega)).2.2 (i + 4) (by omega) hi, AdamsCorrected.explicit]
  simp only [Nat.add_sub_cancel, Nat.reduceSubDiff, Nat.cast_ofNat]
  rw [getD_take (by omega), getD_take (by omega), getD_take (by omega), getD_take (by omega), hstep]

theorem Uniform.h_eq (hx : Uniform x x0 h) (hlength : 2 ≤ x.length) : AdamsCorrected.h x = h := by
  have hlast : x.length - 1 = x.length - 1 - 1 + 1 := by omega
  rw [AdamsCorrected.h]
  nth_rewrite 1 [hlast]
  rw [hx.getD_add (by omega), Nat.cast_one, one_mul, add_sub_cancel_left]

theorem corrected_spec (y0 : ℝ) (hlength : 4 ≤ x.length) :
    let y := AdamsCorrected y0 x f
    (∀ i < 4, y.getD i 0 = (RK y0 (x.take 4) f).getD i 0) ∧ y.length = x.length ∧
      ∀ i, 4 ≤ i → i < x.length → y.getD i 0 =
        AdamsCorrected.implicit x f (y.take i ++ (predicted y0 x f).drop i) i := by
  obtain ⟨hpredicted, hstart, -⟩ := predicted_spec y0 (f := f) hlength
  obtain ⟨htake, -, hcorrected, hturn⟩ := foldl_set_getD (AdamsCorrected.implicit x f)
    (predicted y0 x f) 0 (show 4 + (x.length - 4) ≤ (predicted y0 x f).length by omega)
  rw [Nat.add_sub_cancel' hlength] at hturn
  refine ⟨fun i hi => ?_, hcorrected.trans hpredicted, hturn⟩
  have hsame : ((AdamsCorrected y0 x f).take 4).getD i 0 = ((predicted y0 x f).take 4).getD i 0 :=
    congrArg (·.getD i 0) htake
  rw [getD_take hi, getD_take hi] at hsame
  rw [hsame, hstart i hi]

theorem corrected_turn (hx : Uniform x x0 h) {i : ℕ} (hi : i + 4 < x.length) :
    let y := AdamsCorrected y0 x f
    y.getD (i + 4) 0 = y.getD (i + 3) 0 + h *
      (9 * f (x.getD (i + 4) 0) ((predicted y0 x f).getD (i + 4) 0) +
        19 * f (x.getD (i + 3) 0) (y.getD (i + 3) 0) -
        5 * f (x.getD (i + 2) 0) (y.getD (i + 2) 0) +
        f (x.getD (i + 1) 0) (y.getD (i + 1) 0)) / 24 := by
  intro y
  have hlength : 4 ≤ x.length := by omega
  obtain ⟨-, hcorrected, hturn⟩ := corrected_spec y0 (f := f) hlength
  have hbefore : ∀ j < i + 4, (y.take (i + 4) ++ (predicted y0 x f).drop (i + 4)).getD j 0 =
      y.getD j 0 := by
    intro j hj
    rw [List.getD_append _ _ _ _ (by rw [List.length_take, hcorrected]; omega), getD_take hj]
  have hhere : (y.take (i + 4) ++ (predicted y0 x f).drop (i + 4)).getD (i + 4) 0 =
      (predicted y0 x f).getD (i + 4) 0 := by
    have htake : (y.take (i + 4)).length = i + 4 := by
      rw [List.length_take, hcorrected]
      omega
    rw [List.getD_append_right _ _ _ _ htake.le, htake, Nat.sub_self, List.getD_eq_getElem?_getD,
      List.getElem?_drop, Nat.add_zero, List.getD_eq_getElem?_getD]
  rw [hturn (i + 4) (by omega) hi, AdamsCorrected.implicit]
  simp only [Nat.reduceSubDiff, Nat.cast_ofNat]
  rw [hhere, hbefore _ (by omega), hbefore _ (by omega), hbefore _ (by omega),
    hx.h_eq (by omega)]

end Passes

/-! ### Defects -/

section Defects

variable {a b : ℝ} {n : ℕ} {f : ℝ → ℝ → ℝ} {Y : ℝ → ℝ}

theorem Solves.explicit_defect (hf : Solves a b n f Y) (hn : 4 ≤ n) :
    (fun p : ℝ × ℝ => Y (p.1 + 4 * p.2) - Y (p.1 + 3 * p.2) - p.2 *
      (55 * slopeAlong f Y (p.1 + 3 * p.2) - 59 * slopeAlong f Y (p.1 + 2 * p.2) +
        37 * slopeAlong f Y (p.1 + 1 * p.2) - 9 * slopeAlong f Y p.1) / 24)
      =O[𝓟 (steps a b 4)] fun p => p.2 ^ 5 := by
  have hvalue : ∀ θ : ℝ, 0 ≤ θ → θ ≤ 4 → _ := fun θ h0 h4 =>
    hf.derivatives.taylor (k := 0) (m := 5) (by omega) h0 h4
  have hslope : ∀ θ : ℝ, 0 ≤ θ → θ ≤ 4 → _ := fun θ h0 h4 =>
    step_mul (hf.derivatives.taylor (k := 1) (m := 4) (by omega) h0 h4)
  have hsum := ((hvalue 4 (by norm_num) (by norm_num)).sub
    (hvalue 3 (by norm_num) (by norm_num))).sub
    ((((hslope 3 (by norm_num) (by norm_num)).const_mul_left (55 / 24)).sub
      ((hslope 2 (by norm_num) (by norm_num)).const_mul_left (59 / 24))).add
      ((hslope 1 (by norm_num) (by norm_num)).const_mul_left (37 / 24)))
  refine hsum.congr_left fun p => ?_
  simp [Finset.sum_range_succ, Nat.factorial]
  ring

theorem Solves.implicit_defect (hf : Solves a b n f Y) (hn : 4 ≤ n) :
    (fun p : ℝ × ℝ => Y (p.1 + 3 * p.2) - Y (p.1 + 2 * p.2) - p.2 *
      (9 * slopeAlong f Y (p.1 + 3 * p.2) + 19 * slopeAlong f Y (p.1 + 2 * p.2) -
        5 * slopeAlong f Y (p.1 + 1 * p.2) + slopeAlong f Y p.1) / 24)
      =O[𝓟 (steps a b 3)] fun p => p.2 ^ 5 := by
  have hvalue : ∀ θ : ℝ, 0 ≤ θ → θ ≤ 3 → _ := fun θ h0 h3 =>
    hf.derivatives.taylor (k := 0) (m := 5) (by omega) h0 h3
  have hslope : ∀ θ : ℝ, 0 ≤ θ → θ ≤ 3 → _ := fun θ h0 h3 =>
    step_mul (hf.derivatives.taylor (k := 1) (m := 4) (by omega) h0 h3)
  have hsum := ((hvalue 3 (by norm_num) le_rfl).sub (hvalue 2 (by norm_num) (by norm_num))).sub
    ((((hslope 3 (by norm_num) le_rfl).const_mul_left (9 / 24)).add
      ((hslope 2 (by norm_num) (by norm_num)).const_mul_left (19 / 24))).sub
      ((hslope 1 (by norm_num) (by norm_num)).const_mul_left (5 / 24)))
  refine hsum.congr_left fun p => ?_
  simp [Finset.sum_range_succ, Nat.factorial]
  ring

end Defects

/-! ### Orders -/

section Orders

variable {a b : ℝ} {n : ℕ} {f : ℝ → ℝ → ℝ} {Y : ℝ → ℝ} {x : List ℝ} {x0 h : ℝ}

theorem Uniform.sub_succ (hx : Uniform x x0 h) {i : ℕ} (hi : i + 1 < x.length) :
    x.getD (i + 1) 0 - x.getD i 0 = h := by
  rw [hx.getD_add hi, Nat.cast_one, one_mul, add_sub_cancel_left]

theorem Uniform.grid (hx : Uniform x x0 h) (hmem : ∀ t ∈ x, t ∈ Icc a b) : Grid a b |h| x where
  nonneg := abs_nonneg h
  mem := hmem
  near i hi := (congrArg abs (hx.sub_succ hi)).le
  oneWay := by
    have hget : ∀ i (hi : i < x.length), x[i] = x0 + i * h := by
      intro i hi
      rw [← hx i hi, List.getD_eq_getElem _ _ hi]
    rcases le_total 0 h with h0 | h0
    · refine Or.inl (List.pairwise_iff_getElem.mpr fun i j hi hj hij => ?_)
      rw [hget i hi, hget j hj]
      gcongr
    · refine Or.inr (List.pairwise_iff_getElem.mpr fun i j hi hj hij => ?_)
      rw [hget i hi, hget j hj, ge_iff_le, add_le_add_iff_left]
      exact mul_le_mul_of_nonpos_right (mod_cast hij.le) h0

/-- A turn of either loop: `S` is the sum of the slopes it takes, `G` that of the solution's. -/
theorem turn_error {y y' v v' S G C D E : ℝ} (hturn : y' = y + h * S / 24)
    (hdefect : |v' - v - h * G / 24| ≤ C * |h ^ 5|) (hE : |y - v| ≤ E) (hS : |S - G| ≤ D) :
    |y' - v'| ≤ E + |h| * D / 24 + C * |h| ^ 4 * |h| := by
  have hsplit : y' - v' = (y - v) + h * (S - G) / 24 - (v' - v - h * G / 24) := by
    rw [hturn]
    ring
  rw [abs_pow, pow_succ, ← mul_assoc] at hdefect
  calc |y' - v'| ≤ |y - v| + |h * (S - G) / 24| + |v' - v - h * G / 24| := by
        rw [hsplit]
        exact (abs_sub _ _).trans (add_le_add_left (abs_add_le _ _) _)
    _ ≤ E + |h| * D / 24 + C * |h| ^ 4 * |h| := by
        rw [abs_div, abs_mul, abs_of_pos (by norm_num : (0 : ℝ) < 24)]
        gcongr

theorem getD_of_forall₂ {R : ℝ → ℝ → Prop} {y : List ℝ} (hR : List.Forall₂ R y x) {i : ℕ}
    (hi : i < x.length) : R (y.getD i 0) (x.getD i 0) := by
  have hy : i < y.length := hR.length_eq ▸ hi
  rw [List.getD_eq_getElem _ _ hy, List.getD_eq_getElem _ _ hi]
  exact (List.forall₂_iff_get.mp hR).2 i hy hi

/-- Both passes start from the first values of `RK`. -/
theorem start_order (hf : Solves a b 4 f Y) :
    ∃ C, 0 ≤ C ∧ ∀ x x0 h, Uniform x x0 h → (∀ t ∈ x, t ∈ Icc a b) → 4 ≤ x.length →
      ∀ i ≤ 3, |(RK (Y (x.getD 0 0)) (x.take 4) f).getD i 0 - Y (x.getD i 0)| ≤ C * |h| ^ 4 := by
  obtain ⟨C, hC⟩ := oneStep_order (RK_slope hf) (hf.RK_defect le_rfl)
  refine ⟨|C|, abs_nonneg C, fun x x0 h hx hmem hlength i hi => ?_⟩
  have hne : x.take 4 ≠ [] := by
    rw [← List.length_pos_iff, List.length_take]
    omega
  have hi4 : i < (x.take 4).length := by
    rw [List.length_take]
    omega
  have herror := getD_of_forall₂ (hC |h| (x.take 4) ((hx.grid hmem).take 4) hne) hi4
  rw [getD_take (by norm_num), getD_take (by omega)] at herror
  exact herror.trans (mul_le_mul_of_nonneg_right (le_abs_self C) (by positivity))

/-- The nodes of a turn. -/
theorem Uniform.nodes (hx : Uniform x x0 h) {i : ℕ} (hi : i + 3 < x.length) :
    x.getD i 0 + 1 * h = x.getD (i + 1) 0 ∧ x.getD i 0 + 2 * h = x.getD (i + 2) 0 ∧
      x.getD i 0 + 3 * h = x.getD (i + 3) 0 := by
  rw [hx.getD_add (k := 1) (by omega), hx.getD_add (k := 2) (by omega), hx.getD_add hi]
  norm_num

/-- The first pass alone is of the fourth order. -/
theorem predicted_order (hf : Solves a b 4 f Y) :
    ∃ C, 0 ≤ C ∧ ∀ x x0 h, Uniform x x0 h → (∀ t ∈ x, t ∈ Icc a b) → 4 ≤ x.length →
      ∀ i < x.length,
        |(predicted (Y (x.getD 0 0)) x f).getD i 0 - Y (x.getD i 0)| ≤ C * |h| ^ 4 := by
  obtain ⟨C₁, hC₁, hstart⟩ := start_order hf
  obtain ⟨C₂, hC₂, hdefect⟩ := (hf.explicit_defect le_rfl).exists_nonneg
  have hdefect := isBigOWith_principal.mp hdefect
  obtain ⟨L, hL0, hL⟩ := hf.abs_sub_le
  have hab : 0 ≤ b - a := sub_nonneg.mpr hf.lt.le
  refine ⟨(C₁ + C₂ * (b - a)) * Real.exp (160 * L / 24 * (b - a)), by positivity,
    fun x x0 h hx hmem hlength i hi => ?_⟩
  have hgrid := hx.grid hmem
  set y := predicted (Y (x.getD 0 0)) x f
  have hfirst : ∀ i ≤ 3, |y.getD i 0 - Y (x.getD i 0)| ≤ C₁ * |h| ^ 4 := by
    intro i hi
    rw [(predicted_spec _ hlength).2.1 i (by omega)]
    exact hstart x x0 h hx hmem hlength i hi
  have hstep : ∀ i, 3 ≤ i → i + 1 < x.length → ∀ E, (∀ j ≤ i, |y.getD j 0 - Y (x.getD j 0)| ≤ E) →
      |y.getD (i + 1) 0 - Y (x.getD (i + 1) 0)| ≤
        (1 + 160 * L / 24 * width x i) * E + C₂ * |h| ^ 4 * width x i := by
    intro i hi hlt E hE
    obtain ⟨j, rfl⟩ := Nat.exists_eq_add_of_le' hi
    obtain ⟨h1, h2, h3⟩ := hx.nodes (i := j) (by omega)
    have h4 : x.getD j 0 + 4 * h = x.getD (j + 4) 0 := by
      rw [hx.getD_add (k := 4) hlt, Nat.cast_ofNat]
    have hlocal := hdefect (x.getD j 0, h) ⟨hgrid.getD_mem (by omega), h4 ▸ hgrid.getD_mem hlt⟩
    simp only [Real.norm_eq_abs, h1, h2, h3, h4] at hlocal
    have hslope : ∀ k ≤ j + 3,
        |f (x.getD k 0) (y.getD k 0) - slopeAlong f Y (x.getD k 0)| ≤ L * E := fun k hk =>
      (hL _ (hgrid.getD_mem (by omega)) _ _).trans (mul_le_mul_of_nonneg_left (hE k hk) hL0)
    have hS := turn_error (D := 160 * (L * E)) (predicted_turn hx hlt) hlocal (hE _ le_rfl) ?_
    · rw [width, if_pos hlt, hx.sub_succ hlt]
      refine hS.trans_eq ?_
      ring
    · obtain ⟨hl3, hu3⟩ := abs_le.mp (hslope (j + 3) le_rfl)
      obtain ⟨hl2, hu2⟩ := abs_le.mp (hslope (j + 2) (by omega))
      obtain ⟨hl1, hu1⟩ := abs_le.mp (hslope (j + 1) (by omega))
      obtain ⟨hl0, hu0⟩ := abs_le.mp (hslope j (by omega))
      exact abs_le.mpr ⟨by linarith, by linarith⟩
  have herror := hgrid.error_le (e := fun i => |y.getD i 0 - Y (x.getD i 0)|)
    (fun i => abs_nonneg _) (by positivity) (by positivity) hfirst hstep hi
  refine herror.trans_eq ?_
  ring

/-- So is the second pass, where there are points enough for a turn. -/
theorem corrected_order (hf : Solves a b 4 f Y) :
    ∃ C, 0 ≤ C ∧ ∀ x x0 h, Uniform x x0 h → (∀ t ∈ x, t ∈ Icc a b) → 4 ≤ x.length →
      ∀ i < x.length,
        |(AdamsCorrected (Y (x.getD 0 0)) x f).getD i 0 - Y (x.getD i 0)| ≤ C * |h| ^ 4 := by
  obtain ⟨C₁, hC₁, hstart⟩ := start_order hf
  obtain ⟨C₂, hC₂, hpredicted⟩ := predicted_order hf
  obtain ⟨C₃, hC₃, hdefect⟩ := (hf.implicit_defect le_rfl).exists_nonneg
  have hdefect := isBigOWith_principal.mp hdefect
  obtain ⟨L, hL0, hL⟩ := hf.abs_sub_le
  have hab : 0 ≤ b - a := sub_nonneg.mpr hf.lt.le
  refine ⟨(C₁ + (9 * L * C₂ / 24 + C₃) * (b - a)) * Real.exp (25 * L / 24 * (b - a)),
    by positivity, fun x x0 h hx hmem hlength i hi => ?_⟩
  have hgrid := hx.grid hmem
  set y := AdamsCorrected (Y (x.getD 0 0)) x f
  have hfirst : ∀ i ≤ 3, |y.getD i 0 - Y (x.getD i 0)| ≤ C₁ * |h| ^ 4 := by
    intro i hi
    rw [(corrected_spec _ hlength).1 i (by omega)]
    exact hstart x x0 h hx hmem hlength i hi
  have hstep : ∀ i, 3 ≤ i → i + 1 < x.length → ∀ E, (∀ j ≤ i, |y.getD j 0 - Y (x.getD j 0)| ≤ E) →
      |y.getD (i + 1) 0 - Y (x.getD (i + 1) 0)| ≤
        (1 + 25 * L / 24 * width x i) * E + (9 * L * C₂ / 24 + C₃) * |h| ^ 4 * width x i := by
    intro i hi hlt E hE
    obtain ⟨j, rfl⟩ := Nat.exists_eq_add_of_le' hi
    obtain ⟨h1, h2, h3⟩ := hx.nodes (i := j + 1) (by omega)
    have hlocal := hdefect (x.getD (j + 1) 0, h)
      ⟨hgrid.getD_mem (by omega), h3 ▸ hgrid.getD_mem hlt⟩
    simp only [Real.norm_eq_abs, h1, h2, h3] at hlocal
    have hslope : ∀ k ≤ j + 3,
        |f (x.getD k 0) (y.getD k 0) - slopeAlong f Y (x.getD k 0)| ≤ L * E := fun k hk =>
      (hL _ (hgrid.getD_mem (by omega)) _ _).trans (mul_le_mul_of_nonneg_left (hE k hk) hL0)
    have hahead : |f (x.getD (j + 4) 0) ((predicted (Y (x.getD 0 0)) x f).getD (j + 4) 0) -
        slopeAlong f Y (x.getD (j + 4) 0)| ≤ L * (C₂ * |h| ^ 4) :=
      (hL _ (hgrid.getD_mem hlt) _ _).trans
        (mul_le_mul_of_nonneg_left (hpredicted x x0 h hx hmem hlength _ hlt) hL0)
    have hS := turn_error (D := 9 * (L * (C₂ * |h| ^ 4)) + 25 * (L * E)) (corrected_turn hx hlt)
      hlocal (hE _ le_rfl) ?_
    · rw [width, if_pos hlt, hx.sub_succ hlt]
      refine hS.trans_eq ?_
      ring
    · obtain ⟨hl4, hu4⟩ := abs_le.mp hahead
      obtain ⟨hl3, hu3⟩ := abs_le.mp (hslope (j + 3) le_rfl)
      obtain ⟨hl2, hu2⟩ := abs_le.mp (hslope (j + 2) (by omega))
      obtain ⟨hl1, hu1⟩ := abs_le.mp (hslope (j + 1) (by omega))
      exact abs_le.mpr ⟨by linarith, by linarith⟩
  have herror := hgrid.error_le (e := fun i => |y.getD i 0 - Y (x.getD i 0)|)
    (fun i => abs_nonneg _) (by positivity) (by positivity) hfirst hstep hi
  refine herror.trans_eq ?_
  ring

/-- With fewer points the method is `RK` alone. -/
theorem AdamsCorrected_short (y0 : ℝ) (hlength : x.length ≤ 4) :
    AdamsCorrected y0 x f = RK y0 x f := by
  rw [AdamsCorrected, Nat.sub_eq_zero_of_le hlength, List.take_of_length_le hlength]
  rfl

theorem adams_close (hf : Solves a b 4 f Y) :
    ∃ C, ∀ x x0 h, Uniform x x0 h → (∀ t ∈ x, t ∈ Icc a b) → x ≠ [] →
      ∀ i < x.length,
        |(AdamsCorrected (Y (x.getD 0 0)) x f).getD i 0 - Y (x.getD i 0)| ≤ C * |h| ^ 4 := by
  obtain ⟨C₁, hshort⟩ := oneStep_order (RK_slope hf) (hf.RK_defect le_rfl)
  obtain ⟨C₂, -, hlong⟩ := corrected_order hf
  refine ⟨max C₁ C₂, fun x x0 h hx hmem hne i hi => ?_⟩
  rcases Nat.lt_or_ge x.length 4 with hlt | hlength
  · rw [AdamsCorrected_short _ hlt.le]
    refine (getD_of_forall₂ (hshort |h| x (hx.grid hmem) hne) hi).trans ?_
    exact mul_le_mul_of_nonneg_right (le_max_left _ _) (by positivity)
  · refine (hlong x x0 h hx hmem hlength i hi).trans ?_
    exact mul_le_mul_of_nonneg_right (le_max_right _ _) (by positivity)

theorem AdamsCorrected_length (y0 : ℝ) (hne : x ≠ []) :
    (AdamsCorrected y0 x f).length = x.length := by
  rcases Nat.lt_or_ge x.length 4 with hlt | hlength
  · rw [AdamsCorrected_short _ hlt.le, RK_eq_oneStep, oneStep_length hne]
  · exact (corrected_spec _ hlength).2.1

/-- `AdamsCorrected` is of the fourth order. -/
theorem AdamsCorrected_order (hf : Solves a b 4 f Y) :
    ∃ C, ∀ x x0 h, Uniform x x0 h → (∀ t ∈ x, t ∈ Icc a b) → x ≠ [] →
      List.Forall₂ (fun y t => |y - Y t| ≤ C * |h| ^ 4)
        (AdamsCorrected (Y (x.getD 0 0)) x f) x := by
  obtain ⟨C, hC⟩ := adams_close hf
  refine ⟨C, fun x x0 h hx hmem hne => ?_⟩
  exact forall₂_of_getD (AdamsCorrected_length _ hne) (hC x x0 h hx hmem hne)

theorem AdamsCorrected_order_parabola :
    ∃ C, ∀ x x0 h, Uniform x x0 h → (∀ t ∈ x, t ∈ Icc (0 : ℝ) 1) → x ≠ [] →
      List.Forall₂ (fun y t => |y - (t ^ 2 + 2 * t + 2)| ≤ C * |h| ^ 4)
        (AdamsCorrected (x.getD 0 0 ^ 2 + 2 * x.getD 0 0 + 2) x fun x y => y - x ^ 2) x :=
  AdamsCorrected_order (parabola_solves 4)

end Orders

end Itmo.Vmath
