import Mathlib.Analysis.Convex.Combination
import Mathlib.Analysis.Convex.Join
import Mathlib.Analysis.SpecialFunctions.Trigonometric.Inverse

/-! Figures that are drawn by their outline, in a plane whose second axis points down. The
figure of an outline that is seen from its first point is the fan of segments from there.
The fan over the edges of a triangle is its convex hull, and the fan over an arc of a
quarter turn is a quarter of a disc, once the flags of the arc have settled its centre. -/

namespace Itmo.Lib

open Set Real

abbrev Point := ℝ × ℝ

/-! ### Fans -/

/-- The segments from a point to those of an outline. -/
def fan (p : Point) (outline : Set Point) : Set Point := convexJoin ℝ {p} outline

theorem mem_fan {p q : Point} {outline : Set Point} :
    q ∈ fan p outline ↔ ∃ b ∈ outline, ∃ t ∈ Icc (0 : ℝ) 1,
      q = (p.1 + t * (b.1 - p.1), p.2 + t * (b.2 - p.2)) := by
  unfold fan
  rw [mem_convexJoin]
  constructor
  · rintro ⟨a, ha, b, hb, hq⟩
    rw [mem_singleton_iff.mp ha, segment_eq_image'] at hq
    obtain ⟨t, ht, rfl⟩ := hq
    exact ⟨b, hb, t, ht, rfl⟩
  · rintro ⟨b, hb, t, ht, rfl⟩
    refine ⟨p, mem_singleton p, b, hb, ?_⟩
    rw [segment_eq_image']
    exact ⟨t, ht, rfl⟩

/-- The first and the last edge of an outline add nothing to the fan over the rest. -/
theorem fan_edges {p b c : Point} {outline : Set Point} (hb : b ∈ outline) (hc : c ∈ outline) :
    fan p (segment ℝ p b ∪ outline ∪ segment ℝ c p) = fan p outline := by
  have hedge : ∀ d ∈ outline, fan p (segment ℝ p d) ⊆ fan p outline := by
    intro d hd
    unfold fan
    rw [convexJoin_singleton_segment, insert_eq_of_mem (mem_insert p {d}), convexHull_pair]
    exact segment_subset_convexJoin (mem_singleton p) hd
  refine subset_antisymm ?_ ?_
  · unfold fan
    rw [convexJoin_union_right, convexJoin_union_right, segment_symm ℝ c p]
    exact union_subset (union_subset (hedge b hb) subset_rfl) (hedge c hc)
  · exact convexJoin_mono_right (subset_union_of_subset_left subset_union_right _)

theorem fan_triangle (p b c : Point) :
    fan p (segment ℝ p b ∪ segment ℝ b c ∪ segment ℝ c p) = convexHull ℝ {p, b, c} := by
  rw [fan_edges (left_mem_segment ℝ b c) (right_mem_segment ℝ b c)]
  exact convexJoin_singleton_segment p b c

/-- A triangle with its right angle at the upper right. -/
theorem mem_fan_triangle {a q : Point} {l : ℝ} (hl : 0 < l) :
    q ∈ fan (a.1 - l, a.2) (segment ℝ (a.1 - l, a.2) a ∪ segment ℝ a (a.1, a.2 + l) ∪
        segment ℝ (a.1, a.2 + l) (a.1 - l, a.2)) ↔
      q.1 ≤ a.1 ∧ a.2 ≤ q.2 ∧ q.2 - a.2 ≤ q.1 - a.1 + l := by
  rw [fan_triangle, ← convexJoin_singleton_segment]
  show q ∈ fan (a.1 - l, a.2) (segment ℝ a (a.1, a.2 + l)) ↔ _
  rw [mem_fan]
  constructor
  · rintro ⟨b, hb, t, ht, rfl⟩
    rw [segment_eq_image'] at hb
    obtain ⟨u, hu, rfl⟩ := hb
    have htl : t * l ≤ 1 * l := mul_le_mul_of_nonneg_right ht.2 hl.le
    have hul : u * l ≤ 1 * l := mul_le_mul_of_nonneg_right hu.2 hl.le
    have htul : 0 ≤ t * (u * l) := mul_nonneg ht.1 (mul_nonneg hu.1 hl.le)
    have htul' : t * (u * l) ≤ t * (1 * l) := mul_le_mul_of_nonneg_left hul ht.1
    simp only [Prod.fst_add, Prod.snd_add, Prod.smul_fst, Prod.smul_snd, Prod.fst_sub,
      Prod.snd_sub, smul_eq_mul]
    refine ⟨?_, ?_, ?_⟩ <;> linarith
  · rintro ⟨hright, hupper, hlower⟩
    -- the width of the triangle at the point, of which it divides the height
    set w := q.1 - a.1 + l with hw
    set h := q.2 - a.2 with hh
    have hw0 : 0 ≤ w := by linarith
    have hquotient : h / w * w = h := by
      rcases hw0.eq_or_lt with hzero | hpos
      · have hh0 : h = 0 := by linarith
        rw [hh0, zero_div, zero_mul]
      · exact div_mul_cancel₀ h hpos.ne'
    refine ⟨(a.1, a.2 + h / w * l), ?_, w / l, ⟨div_nonneg hw0 hl.le, ?_⟩, ?_⟩
    · rw [segment_eq_image']
      refine ⟨h / w, ⟨div_nonneg (by linarith) hw0, div_le_one_of_le₀ hlower hw0⟩, ?_⟩
      ext <;> simp
    · rw [div_le_one hl]
      linarith
    · have hfirst : w / l * l = w := div_mul_cancel₀ w hl.ne'
      ext
      · show q.1 = a.1 - l + w / l * (a.1 - (a.1 - l))
        linarith
      · show q.2 = a.2 + w / l * (a.2 + h / w * l - a.2)
        have hsecond : w / l * (h / w * l) = h := by
          calc w / l * (h / w * l) = (h / w * (w / l * l)) := by ring
            _ = h := by rw [hfirst, hquotient]
        linarith

/-! ### Arcs -/

/-- The point of an ellipse at an angle, before which the ellipse is turned by another. -/
noncomputable def ellipse (centre radii : Point) (rotation angle : ℝ) : Point :=
  (centre.1 + (cos rotation * (radii.1 * cos angle) - sin rotation * (radii.2 * sin angle)),
    centre.2 + (sin rotation * (radii.1 * cos angle) + cos rotation * (radii.2 * sin angle)))

/-- The arc of an ellipse between two points, which a flag for more than half a turn and one
for growing angles tell from the three others. -/
def arc (radii : Point) (rotation : ℝ) (large sweep : Bool) (start stop : Point) : Set Point :=
  {p | ∃ centre angle turn, ellipse centre radii rotation angle = start ∧
    ellipse centre radii rotation (angle + turn) = stop ∧ |turn| < 2 * π ∧
    (large = true ↔ π < |turn|) ∧ (sweep = true ↔ 0 < turn) ∧
    ∃ t ∈ Icc (0 : ℝ) 1, p = ellipse centre radii rotation (angle + t * turn)}

/-- A circle looks the same turned. -/
theorem ellipse_circle (centre : Point) (r rotation angle : ℝ) :
    ellipse centre (r, r) rotation angle =
      (centre.1 + r * cos (rotation + angle), centre.2 + r * sin (rotation + angle)) := by
  unfold ellipse
  rw [cos_add, sin_add]
  ext <;> dsimp only <;> ring

/-- The upper right quarter of a circle. -/
def quarterCircle (c : Point) (r : ℝ) : Set Point :=
  {p | ∃ u ∈ Icc 0 (π / 2), p = (c.1 + r * sin u, c.2 - r * cos u)}

/-- Between the ends of two perpendicular radii, the flags leave a quarter turn around the
centre of these. -/
theorem turn_eq {α turn : ℝ} (hcos : cos (α + turn) - cos α = 1)
    (hsin : sin (α + turn) - sin α = 1) (hpos : 0 < turn) (hle : turn ≤ π) :
    turn = π / 2 ∧ cos α = 0 ∧ sin α = -1 := by
  have hturn : cos turn = 0 := by
    have hdiff : cos turn = cos (α + turn) * cos α + sin (α + turn) * sin α := by
      rw [← cos_sub, add_sub_cancel_left]
    have hsq := congrArg₂ (· ^ 2 + · ^ 2) hcos hsin
    have hone := sin_sq_add_cos_sq α
    have hone' := sin_sq_add_cos_sq (α + turn)
    nlinarith only [hdiff, hsq, hone, hone']
  have hhalf : turn = π / 2 := by
    refine injOn_cos ⟨hpos.le, hle⟩ ⟨by positivity, half_le_self pi_pos.le⟩ ?_
    rw [hturn, cos_pi_div_two]
  rw [hhalf, cos_add_pi_div_two] at hcos
  rw [hhalf, sin_add_pi_div_two] at hsin
  exact ⟨hhalf, by linarith, by linarith⟩

theorem arc_quarter (c : Point) {r : ℝ} (hr : 0 < r) (rotation : ℝ) :
    arc (r, r) rotation false true (c.1, c.2 - r) (c.1 + r, c.2) = quarterCircle c r := by
  ext p
  constructor
  · rintro ⟨centre, angle, turn, hstart, hstop, -, hlarge, hsweep, t, ht, rfl⟩
    rw [ellipse_circle, Prod.mk.injEq] at hstart hstop
    rw [← add_assoc] at hstop
    have hcos : cos (rotation + angle + turn) - cos (rotation + angle) = 1 := by
      apply mul_left_cancel₀ hr.ne'
      linarith [hstart.1, hstop.1]
    have hsin : sin (rotation + angle + turn) - sin (rotation + angle) = 1 := by
      apply mul_left_cancel₀ hr.ne'
      linarith [hstart.2, hstop.2]
    have hpos : 0 < turn := hsweep.mp rfl
    have hle : turn ≤ π := by
      rw [abs_of_pos hpos] at hlarge
      exact not_lt.mp fun h => Bool.noConfusion (hlarge.mpr h)
    obtain ⟨rfl, hcos0, hsin0⟩ := turn_eq hcos hsin hpos hle
    rw [hcos0, hsin0] at hstart
    refine ⟨t * (π / 2), ⟨mul_nonneg ht.1 hpos.le, mul_le_of_le_one_left hpos.le ht.2⟩, ?_⟩
    rw [ellipse_circle, ← add_assoc, cos_add (rotation + angle), sin_add (rotation + angle),
      hcos0, hsin0]
    ext
    · dsimp only
      linarith [hstart.1]
    · dsimp only
      linarith [hstart.2]
  · rintro ⟨u, hu, rfl⟩
    have hhalf : 0 < π / 2 := half_pos pi_pos
    refine ⟨c, -(π / 2) - rotation, π / 2, ?_, ?_, ?_, ?_, ?_, u / (π / 2),
      ⟨div_nonneg hu.1 hhalf.le, (div_le_one hhalf).mpr hu.2⟩, ?_⟩
    · rw [ellipse_circle, add_sub_cancel, cos_neg, sin_neg, cos_pi_div_two, sin_pi_div_two]
      ext <;> dsimp only <;> ring
    · rw [ellipse_circle, show rotation + (-(π / 2) - rotation + π / 2) = 0 by ring, cos_zero,
        sin_zero]
      ext <;> dsimp only <;> ring
    · rw [abs_of_pos hhalf]
      linarith
    · rw [abs_of_pos hhalf]
      exact ⟨Bool.noConfusion, fun h => by linarith⟩
    · exact ⟨fun _ => hhalf, fun _ => rfl⟩
    · have hangle : rotation + (-(π / 2) - rotation + u / (π / 2) * (π / 2)) = u - π / 2 := by
        rw [div_mul_cancel₀ u hhalf.ne']
        ring
      rw [ellipse_circle, hangle, cos_sub_pi_div_two, sin_sub_pi_div_two, mul_neg]
      rfl

/-- The polar coordinates of a point between two axes. -/
theorem exists_polar {a b : ℝ} (ha : 0 ≤ a) (hb : 0 ≤ b) :
    ∃ u ∈ Icc 0 (π / 2), a = √(a ^ 2 + b ^ 2) * sin u ∧ b = √(a ^ 2 + b ^ 2) * cos u := by
  set s := √(a ^ 2 + b ^ 2) with hs
  have hsq : s ^ 2 = a ^ 2 + b ^ 2 := sq_sqrt (by positivity)
  have hs0 : 0 ≤ s := sqrt_nonneg _
  rcases hs0.eq_or_lt with hzero | hpos
  · have hab : a = 0 ∧ b = 0 := by
      rw [← hzero] at hsq
      exact ⟨by nlinarith, by nlinarith⟩
    exact ⟨0, ⟨le_rfl, by positivity⟩, by rw [← hzero, zero_mul, hab.1], by
      rw [← hzero, zero_mul, hab.2]⟩
  · have hbs : b ≤ s := abs_le_of_sq_le_sq' (by nlinarith) hs0 |>.2
    have hquotient : b / s ≤ 1 := (div_le_one hpos).mpr hbs
    have hquotient0 : 0 ≤ b / s := div_nonneg hb hs0
    refine ⟨arccos (b / s), ⟨arccos_nonneg _, arccos_le_pi_div_two.mpr hquotient0⟩, ?_, ?_⟩
    · have hsine : s * √(1 - (b / s) ^ 2) = √(a ^ 2) := by
        rw [← sqrt_sq hs0, ← sqrt_mul (sq_nonneg _), sqrt_sq hs0]
        congr 1
        field_simp
        linarith
      rw [sin_arccos, hsine, sqrt_sq ha]
    · rw [cos_arccos (by linarith) hquotient, mul_div_cancel₀ b hpos.ne']

/-- The fan over a quarter of a circle from its centre is a quarter of the disc. -/
theorem mem_fan_quarterCircle {c q : Point} {r : ℝ} (hr : 0 < r) :
    q ∈ fan c (quarterCircle c r) ↔
      c.1 ≤ q.1 ∧ q.2 ≤ c.2 ∧ (q.1 - c.1) ^ 2 + (q.2 - c.2) ^ 2 ≤ r ^ 2 := by
  rw [mem_fan]
  constructor
  · rintro ⟨b, ⟨u, hu, rfl⟩, t, ht, rfl⟩
    have hsin : 0 ≤ sin u := sin_nonneg_of_nonneg_of_le_pi hu.1 (by linarith [hu.2, pi_pos])
    have hcos : 0 ≤ cos u := cos_nonneg_of_neg_pi_div_two_le_of_le (by linarith [hu.1, pi_pos]) hu.2
    have htr : 0 ≤ t * r := mul_nonneg ht.1 hr.le
    refine ⟨?_, ?_, ?_⟩
    · linarith [mul_nonneg htr hsin]
    · linarith [mul_nonneg htr hcos]
    · have hlength : t * r ≤ r := mul_le_of_le_one_left hr.le ht.2
      calc (c.1 + t * (c.1 + r * sin u - c.1) - c.1) ^ 2 +
            (c.2 + t * (c.2 - r * cos u - c.2) - c.2) ^ 2
          = (t * r) ^ 2 * (sin u ^ 2 + cos u ^ 2) := by ring
        _ = (t * r) ^ 2 := by rw [sin_sq_add_cos_sq, mul_one]
        _ ≤ r ^ 2 := pow_le_pow_left₀ htr hlength 2
  · rintro ⟨hright, hupper, hdisc⟩
    obtain ⟨u, hu, hsin, hcos⟩ := exists_polar (sub_nonneg.mpr hright) (sub_nonneg.mpr hupper)
    set s := √((q.1 - c.1) ^ 2 + (c.2 - q.2) ^ 2) with hs
    have hsr : s ≤ r := by
      rw [hs, sqrt_le_left hr.le]
      linarith [sub_sq_comm q.2 c.2]
    have hscale : s / r * r = s := div_mul_cancel₀ s hr.ne'
    refine ⟨_, ⟨u, hu, rfl⟩, s / r, ⟨div_nonneg (sqrt_nonneg _) hr.le, (div_le_one hr).mpr hsr⟩, ?_⟩
    ext
    · calc q.1 = c.1 + s * sin u := by linarith
        _ = c.1 + s / r * r * sin u := by rw [hscale]
        _ = c.1 + s / r * (c.1 + r * sin u - c.1) := by ring
    · calc q.2 = c.2 - s * cos u := by linarith
        _ = c.2 - s / r * r * cos u := by rw [hscale]
        _ = c.2 + s / r * (c.2 - r * cos u - c.2) := by ring

end Itmo.Lib
