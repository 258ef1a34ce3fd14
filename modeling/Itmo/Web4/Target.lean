import Itmo.Lib.Figure

/-! The hit test of the server and the target that the browser draws. The server compares the
coordinates of a shot with its radius; the browser scales them to a picture of 600 by 600
and draws a rectangle, a polygon and a path there. In exact arithmetic both mean the same
figure, with its edges. -/

namespace Itmo.Web4

open Lib Set

/-! ### The server -/

namespace ShotHandler

variable {K : Type*} [Field K] [LinearOrder K]

def isInRectangle (x y r : K) : Bool :=
  if x > 0 ∨ y < 0 then false else y ≤ r ∧ x ≥ -0.5 * r

def isInTriangle (x y r : K) : Bool :=
  if x > 0 ∨ y > 0 then false else y ≥ -x - r

def isInQuartersphere (x y r : K) : Bool :=
  if x < 0 ∨ y < 0 then false else x * x + y * y ≤ r * r / 4

/-- A test behind one that says no. -/
theorem guarded_iff {p q : Prop} [Decidable p] [Decidable q] :
    (if p then false else decide q) = true ↔ ¬ p ∧ q := by
  split_ifs with h <;> simp [h]

theorem isInRectangle_iff {x y r : K} :
    isInRectangle x y r = true ↔ x ≤ 0 ∧ 0 ≤ y ∧ y ≤ r ∧ -0.5 * r ≤ x := by
  unfold isInRectangle
  rw [guarded_iff, not_or, not_lt, not_lt, and_assoc]

theorem isInTriangle_iff {x y r : K} :
    isInTriangle x y r = true ↔ x ≤ 0 ∧ y ≤ 0 ∧ -x - r ≤ y := by
  unfold isInTriangle
  rw [guarded_iff, not_or, not_lt, not_lt, and_assoc]

theorem isInQuartersphere_iff {x y r : K} :
    isInQuartersphere x y r = true ↔ 0 ≤ x ∧ 0 ≤ y ∧ x * x + y * y ≤ r * r / 4 := by
  unfold isInQuartersphere
  rw [guarded_iff, not_or, not_lt, not_lt, and_assoc]

end ShotHandler

open ShotHandler

/-- The result that `process` stores with a shot. -/
def result {K : Type*} [Field K] [LinearOrder K] (x y r : K) : Bool :=
  isInRectangle x y r || isInTriangle x y r || isInQuartersphere x y r

/-- A shot on the slanted edge of the triangle, and one behind it. -/
example : result (-1 : ℚ) (-1) 2 = true ∧ result (-1 : ℚ) (-1.5) 2 = false := by decide +kernel

/-! ### The target -/

namespace TargetComponent

section Attributes

variable {K : Type*} [Field K]

def cxAttribute (x r : K) : K := x * 200 / r + 300

def cyAttribute (y r : K) : K := 300 - y * 200 / r

end Attributes

/-- The centre of the circle that a shot is drawn as. -/
noncomputable def pixel (x y r : ℝ) : Point := (cxAttribute x r, cyAttribute y r)

/-- `<rect x="200" y="100" width="100" height="200" />` -/
def rect : Set Point := Icc (200, 100) (200 + 100, 100 + 200)

/-- `<polygon points="100,300 300,300 300,500" />` -/
def polygon : Set Point :=
  fan (100, 300) (segment ℝ (100, 300) (300, 300) ∪ segment ℝ (300, 300) (300, 500) ∪
    segment ℝ (300, 500) (100, 300))

/-- `<path d="M300,300 L300,200 A100,100 1 0,1 400,300 z" />` -/
def path : Set Point :=
  fan (300, 300) (segment ℝ (300, 300) (300, 200) ∪
    arc (100, 100) (Real.pi / 180) false true (300, 200) (400, 300) ∪
    segment ℝ (400, 300) (300, 300))

def drawn : Set Point := rect ∪ polygon ∪ path

end TargetComponent

open TargetComponent

/-! ### Both mean the same -/

section Shapes

variable {x y r : ℝ}

theorem cx_le_iff (hr : 0 < r) (t : ℝ) : cxAttribute x r ≤ 300 + 200 * t ↔ x ≤ t * r := by
  unfold cxAttribute
  rw [add_comm, add_le_add_iff_left, div_le_iff₀ hr]
  constructor <;> intro h <;> linarith

theorem le_cx_iff (hr : 0 < r) (t : ℝ) : 300 + 200 * t ≤ cxAttribute x r ↔ t * r ≤ x := by
  unfold cxAttribute
  rw [add_comm (x * 200 / r), add_le_add_iff_left, le_div_iff₀ hr]
  constructor <;> intro h <;> linarith

theorem cy_le_iff (hr : 0 < r) (t : ℝ) : cyAttribute y r ≤ 300 - 200 * t ↔ t * r ≤ y := by
  unfold cyAttribute
  rw [sub_le_sub_iff_left, le_div_iff₀ hr]
  constructor <;> intro h <;> linarith

theorem le_cy_iff (hr : 0 < r) (t : ℝ) : 300 - 200 * t ≤ cyAttribute y r ↔ y ≤ t * r := by
  unfold cyAttribute
  rw [sub_le_sub_iff_left, div_le_iff₀ hr]
  constructor <;> intro h <;> linarith

theorem pixel_mem_rect (hr : 0 < r) : pixel x y r ∈ rect ↔ isInRectangle x y r = true := by
  have hmem : pixel x y r ∈ rect ↔ (200 ≤ cxAttribute x r ∧ 100 ≤ cyAttribute y r) ∧
      cxAttribute x r ≤ 200 + 100 ∧ cyAttribute y r ≤ 100 + 200 := Iff.rfl
  have hleft := le_cx_iff (x := x) hr (-0.5)
  have hright := cx_le_iff (x := x) hr 0
  have htop := le_cy_iff (y := y) hr 1
  have hbottom := cy_le_iff (y := y) hr 0
  norm_num at hmem hleft hright htop hbottom
  rw [hmem, hleft, hright, htop, hbottom, isInRectangle_iff]
  norm_num
  tauto

theorem pixel_mem_polygon (hr : 0 < r) : pixel x y r ∈ polygon ↔ isInTriangle x y r = true := by
  have hmem := mem_fan_triangle (a := (300, 300)) (q := pixel x y r) (l := 200) (by norm_num)
  have hright := cx_le_iff (x := x) hr 0
  have htop := le_cy_iff (y := y) hr 0
  have hslanted : cyAttribute y r - 300 ≤ cxAttribute x r - 300 + 200 ↔ -x - r ≤ y := by
    unfold cxAttribute cyAttribute
    rw [← sub_nonneg, ← sub_nonneg (b := -x - r)]
    have hscale : x * 200 / r + 300 - 300 + 200 - (300 - y * 200 / r - 300) =
        200 / r * (y - (-x - r)) := by
      field_simp
      ring
    rw [hscale, mul_nonneg_iff_of_pos_left (by positivity)]
  norm_num only at hmem
  norm_num at hright htop
  unfold polygon
  rw [hmem]
  show cxAttribute x r ≤ 300 ∧ 300 ≤ cyAttribute y r ∧
    cyAttribute y r - 300 ≤ cxAttribute x r - 300 + 200 ↔ _
  rw [hright, htop, hslanted, isInTriangle_iff]

theorem path_eq : path = fan (300, 300) (quarterCircle (300, 300) 100) := by
  have harc := arc_quarter (300, 300) (r := 100) (by norm_num) (Real.pi / 180)
  have hstart : ((300, 200) : Point) ∈ quarterCircle (300, 300) 100 := by
    refine ⟨0, ⟨le_rfl, by positivity⟩, ?_⟩
    rw [Real.sin_zero, Real.cos_zero]
    norm_num
  have hstop : ((400, 300) : Point) ∈ quarterCircle (300, 300) 100 := by
    refine ⟨Real.pi / 2, ⟨by positivity, le_rfl⟩, ?_⟩
    rw [Real.sin_pi_div_two, Real.cos_pi_div_two]
    norm_num
  norm_num only at harc
  unfold path
  rw [harc, fan_edges hstart hstop]

theorem pixel_mem_path (hr : 0 < r) :
    pixel x y r ∈ path ↔ isInQuartersphere x y r = true := by
  have hleft := le_cx_iff (x := x) hr 0
  have hbottom := cy_le_iff (y := y) hr 0
  have hround : (cxAttribute x r - 300) ^ 2 + (cyAttribute y r - 300) ^ 2 ≤ 100 ^ 2 ↔
      x * x + y * y ≤ r * r / 4 := by
    unfold cxAttribute cyAttribute
    rw [← sub_nonneg, ← sub_nonneg (b := x * x + y * y)]
    have hscale : (100 : ℝ) ^ 2 - ((x * 200 / r + 300 - 300) ^ 2 +
        (300 - y * 200 / r - 300) ^ 2) = (200 / r) ^ 2 * (r * r / 4 - (x * x + y * y)) := by
      field_simp
      ring
    rw [hscale, mul_nonneg_iff_of_pos_left (by positivity)]
  norm_num at hleft hbottom
  rw [path_eq, mem_fan_quarterCircle (by norm_num)]
  show 300 ≤ cxAttribute x r ∧ cyAttribute y r ≤ 300 ∧
    (cxAttribute x r - 300) ^ 2 + (cyAttribute y r - 300) ^ 2 ≤ 100 ^ 2 ↔ _
  rw [hleft, hbottom, hround, isInQuartersphere_iff]

/-- A shot is a hit if and only if it is drawn within the target. -/
theorem result_iff_drawn (x y : ℝ) (hr : 0 < r) :
    result x y r = true ↔ pixel x y r ∈ drawn := by
  unfold result drawn
  rw [mem_union, mem_union, pixel_mem_rect hr, pixel_mem_polygon hr, pixel_mem_path hr,
    Bool.or_eq_true, Bool.or_eq_true]

/-- The corner of the rectangle. -/
theorem drawn_corner : pixel (-1) 2 2 ∈ drawn := by
  refine (result_iff_drawn (-1) 2 two_pos).mp ?_
  have hcorner : isInRectangle (-1 : ℝ) 2 2 = true := by
    rw [isInRectangle_iff]
    norm_num
  rw [result, hcorner, Bool.true_or, Bool.true_or]

end Shapes

end Itmo.Web4
