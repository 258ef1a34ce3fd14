import Itmo.Lib.ConvexRoot
import Itmo.Vmath.Chord
import Itmo.Vmath.SimpleIteration

/-! Newton's method and the method of secants of `vmath2` in exact arithmetic. Both take steps
along chords: Newton's method in place of the tangent, since its derivative is a difference to
the right. For a convex function that rises to its root, or the negative of one, they start at
the right end, come down to the root without passing it and end within a number of turns that
is known in advance. -/

namespace Itmo.Vmath

open Lib Set

section Definitions

variable {K : Type} [Field K] [LinearOrder K]

namespace Newton

structure State (K : Type) where
  x : K
  xOld : K
  actions : Actions K

def addAction (x xOld : K) (function functionDer1 : K → K) (actions : Actions K) : Actions K :=
  actions ++ [[("x_k", xOld), ("f(x_k)", function xOld), ("f'(x_k)", functionDer1 xOld),
    ("x_k+1", x), ("|x_k+1 - x_k|", |x - xOld|)]]

variable (left right : K) (function : K → K)

def start : State K :=
  let x := SimpleIteration.first left right function
  ⟨x, x, addAction x x function (getDerivative function 1) []⟩

/-- One turn of the loop. -/
def turn (s : State K) : Except Undefined (State K) :=
  let functionDer1 := getDerivative function 1
  if functionDer1 s.xOld = 0 then .error .divisionByZero
  else
    let x := s.xOld - function s.xOld / functionDer1 s.xOld
    .ok ⟨x, x, addAction x s.xOld function functionDer1 s.actions⟩

def solve (turns : ℕ) (precision : K) :
    Except String (Option (Except Undefined (K × Actions K))) := do
  checkSigns left right function
  return (tryLoop (fun s : State K => precision < |function s.x|) (turn function) turns
    (start left right function)).map (Except.map fun s => (s.x, s.actions))

end Newton

namespace Secant

structure State (K : Type) where
  x0 : K
  x1 : K
  x2 : K
  actions : Actions K

def addAction (x2 x1 x0 : K) (function : K → K) (actions : Actions K) : Actions K :=
  actions ++ [[("x_k-1", x0), ("x_k", x1), ("x_k+1", x2), ("f(x_k+1)", function x2),
    ("|x_k+1 - x_k|", |x2 - x1|)]]

variable (left right : K) (function : K → K)

/-- Where the chord over two points is zero, and the row of the action. -/
def advance (x0 x1 : K) (actions : Actions K) : Except Undefined (State K) :=
  if function x1 - function x0 = 0 then .error .divisionByZero
  else
    let x2 := x1 - (x1 - x0) * function x1 / (function x1 - function x0)
    .ok ⟨x0, x1, x2, addAction x2 x1 x0 function actions⟩

def start (precision : K) : Except Undefined (State K) :=
  if 0 < function left * getDerivative function 2 left then
    advance function left (left + precision) []
  else advance function right (right - precision) []

/-- One turn of the loop. -/
def turn (s : State K) : Except Undefined (State K) := advance function s.x1 s.x2 s.actions

def solve (turns : ℕ) (precision : K) :
    Except String (Option (Except Undefined (K × Actions K))) := do
  checkSigns left right function
  return match start left right function precision with
    | .error e => some (.error e)
    | .ok s => (tryLoop (fun s : State K => precision < |function s.x2|) (turn function) turns
        s).map (Except.map fun s => (s.x2, s.actions))

end Secant

end Definitions

/-! ### Functions that rise to their root -/

/-- The function is convex as far as its differences are taken, and it is negative at the left
end and not at the right one. -/
structure RisesTo (left right : ℝ) (function : ℝ → ℝ) : Prop where
  lt : left < right
  convex : ConvexOn ℝ (Icc left (right + 2 * epsilon)) function
  left_neg : function left < 0
  right_nonneg : 0 ≤ function right

/-- The function or its negative. -/
def Signed (sign : ℝ) (g function : ℝ → ℝ) : Prop :=
  (sign = 1 ∨ sign = -1) ∧ ∀ x, function x = sign * g x

theorem epsilon_pos : (0 : ℝ) < epsilon := by
  unfold epsilon
  positivity

variable {left right precision sign : ℝ} {function g : ℝ → ℝ}

theorem Signed.mul_self (h : Signed sign g function) : sign * sign = 1 := by
  rcases h.1 with rfl | rfl <;> norm_num

theorem Signed.abs_eq (h : Signed sign g function) (x : ℝ) : |function x| = |g x| := by
  rw [h.2, abs_mul]
  rcases h.1 with rfl | rfl <;> norm_num

theorem getDerivative_one (f : ℝ → ℝ) (x : ℝ) :
    getDerivative f 1 x = slope f x (x + epsilon) := by
  rw [slope_def_field, add_sub_cancel_left]
  rfl

theorem Signed.slope_eq (h : Signed sign g function) (x y : ℝ) :
    slope function x y = sign * slope g x y := by
  rw [slope_def_field, slope_def_field, h.2, h.2]
  ring

theorem Signed.derivative_two (h : Signed sign g function) (x : ℝ) :
    getDerivative function 2 x = sign * getDerivative g 2 x := by
  simp only [getDerivative, h.2]
  ring

theorem Signed.ne_zero (h : Signed sign g function) : sign ≠ 0 := by
  rcases h.1 with rfl | rfl <;> norm_num

/-- A chord is zero where the chord of the negative is. -/
theorem Signed.chordZero_eq (h : Signed sign g function) (x y : ℝ) :
    x - function x / slope function x y = chordZero g x y := by
  rw [h.slope_eq, h.2, mul_div_mul_left _ _ h.ne_zero]
  rfl

namespace RisesTo

variable (h : RisesTo left right g)

include h

theorem left_mem : left ∈ Icc left (right + 2 * epsilon) :=
  ⟨le_rfl, by linarith [h.lt, epsilon_pos]⟩

/-- The iterates start at the right end. -/
theorem first_eq (hsigned : Signed sign g function) :
    ¬ 0 < function left * getDerivative function 2 left := by
  have hε := epsilon_pos
  have hconvex : 0 ≤ getDerivative g 2 left := by
    have hmiddle : left + epsilon ∈ Icc left (right + 2 * epsilon) :=
      ⟨by linarith, by linarith [h.lt]⟩
    have hchords : slope g left (left + epsilon) ≤
        slope g (left + epsilon) (left + epsilon + epsilon) :=
      slope_le_slope h.convex h.left_mem hmiddle hmiddle ⟨by linarith, by linarith [h.lt]⟩
        (by linarith) (by linarith) (by linarith) (by linarith)
    have heq : getDerivative g 2 left =
        (slope g (left + epsilon) (left + epsilon + epsilon) - slope g left (left + epsilon)) /
          epsilon := by
      rw [← getDerivative_one, ← getDerivative_one]
      rfl
    rw [heq]
    exact div_nonneg (sub_nonneg.mpr hchords) hε.le
  have hproduct : function left * getDerivative function 2 left =
      g left * getDerivative g 2 left := by
    rw [hsigned.derivative_two, hsigned.2]
    linear_combination g left * getDerivative g 2 left * hsigned.mul_self
  rw [hproduct, not_lt]
  exact mul_nonpos_of_nonpos_of_nonneg h.left_neg.le hconvex

theorem checkSigns_ok (hsigned : Signed sign g function) :
    checkSigns left right function = .ok () := by
  refine Vmath.checkSigns_ok ?_
  have hproduct : function left * function right = g left * g right := by
    rw [hsigned.2, hsigned.2]
    linear_combination g left * g right * hsigned.mul_self
  rw [hproduct]
  exact mul_nonpos_of_nonpos_of_nonneg h.left_neg.le h.right_nonneg

end RisesTo

/-- What a solver returns is not before a root, within the precision of zero, and the closer to
the root the steeper the function comes up to it. -/
structure Found (left right precision : ℝ) (function : ℝ → ℝ) (x : ℝ) : Prop where
  left_lt : left < x
  le_right : x ≤ right
  small : |function x| ≤ precision
  root : ∀ ξ ∈ Icc left right, function ξ = 0 →
    ξ ≤ x ∧ (x - ξ) * |function left| ≤ precision * (ξ - left)

theorem RisesTo.found (h : RisesTo left right g) (hsigned : Signed sign g function) {x : ℝ}
    (hleft : left < x) (hright : x ≤ right) (hx : 0 ≤ g x) (hsmall : ¬ precision < |function x|) :
    Found left right precision function x := by
  have hε := epsilon_pos
  refine ⟨hleft, hright, not_lt.mp hsmall, fun ξ hξ hroot => ?_⟩
  have hgroot : g ξ = 0 := by
    rw [hsigned.2] at hroot
    exact (mul_eq_zero.mp hroot).resolve_left hsigned.ne_zero
  have hne : left ≠ ξ := by
    rintro rfl
    exact h.left_neg.ne hgroot
  have hlt : left < ξ := lt_of_le_of_ne hξ.1 hne
  obtain ⟨hle, hclose⟩ := root_le_of_nonneg h.convex h.left_mem
    ⟨hleft.le, by linarith⟩ h.left_neg hleft hx ⟨hξ.1, by linarith [hξ.2]⟩ hlt hgroot
  refine ⟨hle, ?_⟩
  rw [hsigned.abs_eq, not_lt, abs_of_nonneg hx] at hsmall
  rw [hsigned.abs_eq, abs_of_neg h.left_neg]
  exact hclose.trans (mul_le_mul_of_nonneg_right hsmall (sub_nonneg.mpr hξ.1))

namespace Newton

/-- The loop is at a point not before the root. -/
structure Above (left right : ℝ) (g : ℝ → ℝ) (s : State ℝ) : Prop where
  same : s.xOld = s.x
  left_lt : left < s.x
  le_right : s.x ≤ right
  nonneg : 0 ≤ g s.x

/-- A turn goes down by the value over the slope, which is at most the slope at the end. -/
theorem turn_above (h : RisesTo left right g) (hsigned : Signed sign g function) {s : State ℝ}
    (hs : Above left right g s) :
    ∃ s', turn function s = .ok s' ∧ Above left right g s' ∧
      |function s.x| ≤ getDerivative g 1 right * (s.x - left) -
        getDerivative g 1 right * (s'.x - left) := by
  have hε := epsilon_pos
  obtain ⟨hsame, hleft, hright, hnonneg⟩ := hs
  have hy : s.x + epsilon ∈ Icc left (right + 2 * epsilon) := ⟨by linarith, by linarith⟩
  have hlt : s.x < s.x + epsilon := by linarith
  have hpos := slope_pos_of_rise h.convex h.left_mem hy hleft hlt h.left_neg hnonneg
  have hne : getDerivative function 1 s.xOld ≠ 0 := by
    rw [getDerivative_one, hsame, hsigned.slope_eq]
    exact mul_ne_zero hsigned.ne_zero hpos.ne'
  have hstep : s.xOld - function s.xOld / getDerivative function 1 s.xOld =
      chordZero g s.x (s.x + epsilon) := by
    rw [getDerivative_one, hsame, hsigned.chordZero_eq]
  refine ⟨_, if_neg hne, ⟨rfl, ?_, ?_, ?_⟩, ?_⟩
  · rw [hstep]
    exact lt_chordZero h.convex h.left_mem hy hleft hlt h.left_neg hnonneg
  · rw [hstep]
    exact (chordZero_le h.convex h.left_mem hy hleft hlt h.left_neg hnonneg).trans hright
  · dsimp only
    rw [hstep]
    exact chordZero_nonneg h.convex h.left_mem hy hleft hlt h.left_neg hnonneg
  · have hsteep : slope g s.x (s.x + epsilon) ≤ slope g right (right + epsilon) :=
      slope_le_slope h.convex ⟨hleft.le, by linarith⟩ hy ⟨h.lt.le, by linarith⟩
        ⟨by linarith [h.lt], by linarith⟩ hlt (by linarith) hright (by linarith)
    dsimp only
    rw [hstep, hsigned.abs_eq, abs_of_nonneg hnonneg, getDerivative_one, chordZero]
    calc g s.x = slope g s.x (s.x + epsilon) * (g s.x / slope g s.x (s.x + epsilon)) :=
          (mul_div_cancel₀ _ hpos.ne').symm
      _ ≤ slope g right (right + epsilon) * (g s.x / slope g s.x (s.x + epsilon)) :=
          mul_le_mul_of_nonneg_right hsteep (div_nonneg hnonneg hpos.le)
      _ = _ := by ring

theorem loop_found (h : RisesTo left right g) (hsigned : Signed sign g function)
    (hprecision : 0 < precision) {turns : ℕ}
    (hturns : |getDerivative function 1 right| * (right - left) / precision < turns) :
    ∃ x actions, solve left right function turns precision = .ok (some (.ok (x, actions))) ∧
      Found left right precision function x := by
  have hε := epsilon_pos
  have hslope : 0 ≤ slope g right (right + epsilon) :=
    (slope_pos_of_rise h.convex h.left_mem ⟨by linarith [h.lt], by linarith⟩ h.lt (by linarith)
      h.left_neg h.right_nonneg).le
  have habs : |getDerivative function 1 right| = getDerivative g 1 right := by
    rw [getDerivative_one, getDerivative_one, hsigned.slope_eq, abs_mul, abs_of_nonneg hslope]
    rcases hsigned.1 with rfl | rfl <;> norm_num
  have hfirst : SimpleIteration.first left right function = right :=
    if_neg (h.first_eq hsigned)
  have hstart : Above left right g (start left right function) := by
    refine ⟨rfl, ?_, ?_, ?_⟩
    · exact lt_of_lt_of_eq h.lt hfirst.symm
    · exact hfirst.le
    · exact le_of_le_of_eq h.right_nonneg (congrArg g hfirst.symm)
  have hnonneg : ∀ s, Above left right g s → 0 ≤ getDerivative g 1 right * (s.x - left) := by
    intro s hs
    rw [getDerivative_one]
    exact mul_nonneg hslope (sub_nonneg.mpr hs.left_lt.le)
  have hbody : ∀ s, Above left right g s → precision < |function s.x| →
      ∃ s', turn function s = .ok s' ∧ Above left right g s' ∧
        precision ≤ getDerivative g 1 right * (s.x - left) -
          getDerivative g 1 right * (s'.x - left) := by
    intro s hs htest
    obtain ⟨s', hok, hs', hdown⟩ := turn_above h hsigned hs
    exact ⟨s', hok, hs', htest.le.trans hdown⟩
  have henough : getDerivative g 1 right * ((start left right function).x - left) / precision <
      turns := by
    have hx : (start left right function).x = right := hfirst
    rw [hx, ← habs]
    exact hturns
  obtain ⟨t, hloop, ht, htest⟩ := tryLoop_budget hprecision hnonneg hbody hstart henough
  refine ⟨t.x, t.actions, ?_, h.found hsigned ht.left_lt ht.le_right ht.nonneg htest⟩
  unfold solve
  rw [h.checkSigns_ok hsigned, hloop]
  rfl

/-- For a convex function that rises from a negative value at the left end, or the negative of
one, Newton's method divides by no zero, ends within the turns that the slope at the right end
makes for the interval, and returns a value that is found. -/
theorem solve_found (h : RisesTo left right function ∨ RisesTo left right fun x => -function x)
    (hprecision : 0 < precision) {turns : ℕ}
    (hturns : |getDerivative function 1 right| * (right - left) / precision < turns) :
    ∃ x actions, solve left right function turns precision = .ok (some (.ok (x, actions))) ∧
      Found left right precision function x := by
  rcases h with h | h
  · exact loop_found h ⟨Or.inl rfl, fun x => (one_mul _).symm⟩ hprecision hturns
  · exact loop_found h ⟨Or.inr rfl, fun x => by ring⟩ hprecision hturns

/-- The first equation of the menu rises from zero to two. -/
theorem risesTo_firstEquation : RisesTo 0 2 Chord.firstEquation where
  lt := two_pos
  convex := (Chord.strictConvexOn_firstEquation _ (convex_Icc _ _)).convexOn
  left_neg := by norm_num [Chord.firstEquation]
  right_nonneg := by norm_num [Chord.firstEquation]

theorem solve_found_firstEquation : ∃ x actions,
    solve 0 2 Chord.firstEquation 29 (1 / 2) = .ok (some (.ok (x, actions))) ∧
      Found 0 2 (1 / 2) Chord.firstEquation x :=
  solve_found (Or.inl risesTo_firstEquation) (by norm_num)
    (by norm_num [getDerivative, Chord.firstEquation, epsilon])

end Newton

/-! ### Secants -/

namespace Secant

/-- The last two points of the loop, which are not before the root. -/
structure Above (left last : ℝ) (g : ℝ → ℝ) (s : State ℝ) : Prop where
  left_lt : left < s.x2
  nonneg : 0 ≤ g s.x2
  le : s.x2 ≤ s.x1
  lt : 0 < g s.x2 → s.x2 < s.x1
  le_last : s.x1 ≤ last

/-- The point after two others, of which the later one is the lower one. -/
theorem advance_above (h : RisesTo left right g) (hsigned : Signed sign g function) {x0 x1 : ℝ}
    (hleft : left < x1) (hlt : x1 < x0) (hright : x0 ≤ right) (hnonneg : 0 ≤ g x1)
    (actions : Actions ℝ) :
    ∃ s, advance function x0 x1 actions = .ok s ∧ s.x1 = x1 ∧ s.x2 = chordZero g x1 x0 ∧
      left < s.x2 ∧ s.x2 ≤ x1 ∧ 0 ≤ g s.x2 := by
  have hε := epsilon_pos
  have hy : x0 ∈ Icc left (right + 2 * epsilon) := ⟨by linarith, by linarith⟩
  have hpos := slope_pos_of_rise h.convex h.left_mem hy hleft hlt h.left_neg hnonneg
  have hdifference : function x1 - function x0 ≠ 0 := by
    have hslope := slope_mul_sub function x1 x0
    rw [hsigned.slope_eq] at hslope
    intro hzero
    have hproduct : sign * slope g x1 x0 * (x0 - x1) = 0 := by
      rw [hslope]
      linarith
    have hne : sign * slope g x1 x0 ≠ 0 := mul_ne_zero hsigned.ne_zero hpos.ne'
    exact hlt.ne' (sub_eq_zero.mp ((mul_eq_zero.mp hproduct).resolve_left hne))
  have hstep : x1 - (x1 - x0) * function x1 / (function x1 - function x0) = chordZero g x1 x0 := by
    rw [← hsigned.chordZero_eq, slope_comm, slope_def_field, div_div_eq_mul_div, mul_comm]
  refine ⟨_, if_neg hdifference, rfl, hstep, ?_, ?_, ?_⟩
  · dsimp only
    rw [hstep]
    exact lt_chordZero h.convex h.left_mem hy hleft hlt h.left_neg hnonneg
  · dsimp only
    rw [hstep]
    exact chordZero_le h.convex h.left_mem hy hleft hlt h.left_neg hnonneg
  · dsimp only
    rw [hstep]
    exact chordZero_nonneg h.convex h.left_mem hy hleft hlt h.left_neg hnonneg

/-- A turn goes down by the value over the slope, which is at most that of the first chord. -/
theorem turn_above (h : RisesTo left right g) (hsigned : Signed sign g function)
    {last : ℝ} (hlast : last < right) {s : State ℝ} (hs : Above left last g s)
    (hvalue : 0 < g s.x2) :
    ∃ s', turn function s = .ok s' ∧ Above left last g s' ∧
      g s.x2 ≤ slope g last right * (s.x2 - left) - slope g last right * (s'.x2 - left) := by
  have hε := epsilon_pos
  have hlt := hs.lt hvalue
  have hright : s.x1 ≤ right := hs.le_last.trans hlast.le
  obtain ⟨s', hok, hx1, hx2, hleft, hle, hnonneg⟩ :=
    advance_above h hsigned hs.left_lt hlt hright hs.nonneg s.actions
  have hy : s.x1 ∈ Icc left (right + 2 * epsilon) :=
    ⟨by linarith [hs.left_lt], by linarith⟩
  have hx : s.x2 ∈ Icc left (right + 2 * epsilon) := ⟨hs.left_lt.le, by linarith⟩
  have hpos := slope_pos_of_rise h.convex h.left_mem hy hs.left_lt hlt h.left_neg hs.nonneg
  have hdown : s'.x2 = s.x2 - g s.x2 / slope g s.x2 s.x1 := hx2
  have hlower : s'.x2 < s'.x1 := by
    rw [hx1, hdown]
    exact sub_lt_self _ (div_pos hvalue hpos)
  refine ⟨s', hok, ⟨hleft, hnonneg, hlower.le, fun _ => hlower, ?_⟩, ?_⟩
  · rw [hx1]
    exact hlt.le.trans hs.le_last
  · have hsteep : slope g s.x2 s.x1 ≤ slope g last right :=
      slope_le_slope h.convex hx hy ⟨by linarith [hs.left_lt, hs.le_last], by linarith⟩
        ⟨h.lt.le, by linarith⟩ hlt hlast (hlt.le.trans hs.le_last) hright
    rw [hdown]
    calc g s.x2 = slope g s.x2 s.x1 * (g s.x2 / slope g s.x2 s.x1) :=
          (mul_div_cancel₀ _ hpos.ne').symm
      _ ≤ slope g last right * (g s.x2 / slope g s.x2 s.x1) :=
          mul_le_mul_of_nonneg_right hsteep (div_nonneg hs.nonneg hpos.le)
      _ = _ := by ring

theorem loop_found (h : RisesTo left right g) (hsigned : Signed sign g function)
    (hprecision : 0 < precision) (hfar : left ≤ right - precision)
    (hlast : 0 ≤ g (right - precision)) {turns : ℕ}
    (hturns : |slope function (right - precision) right| * (right - left) / precision < turns) :
    ∃ x actions, solve left right function turns precision = .ok (some (.ok (x, actions))) ∧
      Found left right precision function x := by
  have hε := epsilon_pos
  have hbefore : right - precision < right := sub_lt_self right hprecision
  have hleft : left < right - precision := by
    refine lt_of_le_of_ne hfar fun heq => ?_
    rw [← heq] at hlast
    exact absurd hlast (not_le.mpr h.left_neg)
  have hslope : 0 < slope g (right - precision) right :=
    slope_pos_of_rise h.convex h.left_mem ⟨h.lt.le, by linarith⟩ hleft hbefore h.left_neg hlast
  have habs : |slope function (right - precision) right| = slope g (right - precision) right := by
    rw [hsigned.slope_eq, abs_mul, abs_of_pos hslope]
    rcases hsigned.1 with rfl | rfl <;> norm_num
  obtain ⟨s, hok, hx1, hx2, hs, hle, hnonneg⟩ :=
    advance_above h hsigned hleft hbefore le_rfl hlast []
  have hstart : start left right function precision = .ok s := by
    unfold start
    rw [if_neg (h.first_eq hsigned), hok]
  have habove : Above left (right - precision) g s := by
    refine ⟨hs, hnonneg, hle.trans hx1.ge, fun hvalue => ?_, hx1.le⟩
    rw [hx1]
    refine lt_of_le_of_ne hle fun heq => ?_
    -- the chord is zero at its end only if the function is
    rw [hx2, chordZero, sub_eq_self, div_eq_zero_iff] at heq
    have hzero := heq.resolve_right hslope.ne'
    rw [hx2, chordZero, hzero, zero_div, sub_zero, hzero] at hvalue
    exact lt_irrefl 0 hvalue
  have hbudget : ∀ s, Above left (right - precision) g s →
      0 ≤ slope g (right - precision) right * (s.x2 - left) := fun s hs =>
    mul_nonneg hslope.le (sub_nonneg.mpr hs.left_lt.le)
  have hbody : ∀ s, Above left (right - precision) g s → precision < |function s.x2| →
      ∃ s', turn function s = .ok s' ∧ Above left (right - precision) g s' ∧
        precision ≤ slope g (right - precision) right * (s.x2 - left) -
          slope g (right - precision) right * (s'.x2 - left) := by
    intro s hs htest
    rw [hsigned.abs_eq, abs_of_nonneg hs.nonneg] at htest
    obtain ⟨s', hok, hs', hdown⟩ := turn_above h hsigned hbefore hs (hprecision.trans htest)
    exact ⟨s', hok, hs', htest.le.trans hdown⟩
  have henough : slope g (right - precision) right * (s.x2 - left) / precision < turns := by
    rw [habs] at hturns
    refine lt_of_le_of_lt (div_le_div_of_nonneg_right ?_ hprecision.le) hturns
    exact mul_le_mul_of_nonneg_left (by linarith) hslope.le
  obtain ⟨t, hloop, ht, htest⟩ := tryLoop_budget hprecision hbudget hbody habove henough
  have hright : t.x2 ≤ right := (ht.le.trans ht.le_last).trans hbefore.le
  refine ⟨t.x2, t.actions, ?_, h.found hsigned ht.left_lt hright ht.nonneg htest⟩
  unfold solve
  rw [h.checkSigns_ok hsigned, hstart]
  show Except.ok (Option.map _ (tryLoop _ _ turns s)) = _
  rw [hloop]
  rfl

/-- For the same functions the method of secants divides by no zero, ends within the turns that
the slope of the first chord makes for the interval, and returns a value that is found, if the
second point, which is the precision away from the end, is not past the root. -/
theorem solve_secant_found
    (h : RisesTo left right function ∨ RisesTo left right fun x => -function x)
    (hprecision : 0 < precision) (hfar : left ≤ right - precision)
    (hsecond : function left * function (right - precision) ≤ 0) {turns : ℕ}
    (hturns : |slope function (right - precision) right| * (right - left) / precision < turns) :
    ∃ x actions, solve left right function turns precision = .ok (some (.ok (x, actions))) ∧
      Found left right precision function x := by
  rcases h with h | h
  · have hlast : 0 ≤ function (right - precision) :=
      nonneg_of_mul_nonpos_right hsecond h.left_neg
    exact loop_found h ⟨Or.inl rfl, fun x => (one_mul _).symm⟩ hprecision hfar hlast hturns
  · have hlast : 0 ≤ -function (right - precision) :=
      nonneg_of_mul_nonpos_right (by linarith) h.left_neg
    exact loop_found h ⟨Or.inr rfl, fun x => by ring⟩ hprecision hfar hlast hturns

theorem solve_secant_found_firstEquation : ∃ x actions,
    solve 0 2 Chord.firstEquation 27 (1 / 2) = .ok (some (.ok (x, actions))) ∧
      Found 0 2 (1 / 2) Chord.firstEquation x :=
  solve_secant_found (Or.inl Newton.risesTo_firstEquation) (by norm_num) (by norm_num)
    (by norm_num [Chord.firstEquation]) (by norm_num [slope_def_field, Chord.firstEquation])

end Secant

end Itmo.Vmath
