import Itmo.Lib.FalsePosition
import Itmo.Vmath.HalfDivide

/-! The method of chords of `vmath2` in exact arithmetic. The loop waits for the bracket to become
narrow, and the brackets of this method need not: for a convex function one end never moves. So
the loop ends just if the end that stays, if one does, is closer than the precision to the root
that the other one tends to. -/

namespace Itmo.Vmath

open Lib Filter Topology Set

section Definitions

variable {K : Type} [Field K] [LinearOrder K]

namespace Chord

structure State (K : Type) where
  left : K
  right : K
  x : K
  xOld : K
  actions : Actions K

def addAction (left right x xOld : K) (function : K → K) (actions : Actions K) : Actions K :=
  actions ++ [[("a", left), ("b", right), ("x", x), ("f(a)", function left),
    ("f(b)", function right), ("f(x)", function x), ("|x_(k+1)-x_k|", |x - xOld|)]]

/-- One turn of the loop of `solvedUnfixed`. -/
def turn (function : K → K) (s : State K) : State K :=
  let x := s.left - (s.right - s.left) * function s.left / (function s.right - function s.left)
  let actions := addAction s.left s.right x s.xOld function s.actions
  if function s.left * function x < 0 then ⟨s.left, x, x, x, actions⟩
  else ⟨x, s.right, x, x, actions⟩

def start (left right : K) (function : K → K) : State K :=
  let x := left - (right - left) * function left / (function right - function left)
  ⟨left, right, x, x, []⟩

def loop (turns : ℕ) (left right precision : K) (function : K → K) : Option (State K) :=
  whileLoop (fun s : State K => precision < |s.right - s.left|) (turn function) turns
    (start left right function)

def solve (turns : ℕ) (left right precision : K) (function : K → K) :
    Except String (Option (K × Actions K)) := do
  checkSigns left right function
  return (loop turns left right precision function).map fun s =>
    (s.x, addAction s.left s.right s.x s.xOld function s.actions)

def Ends (left right precision : K) (function : K → K) : Prop :=
  ∃ turns answer, solve turns left right precision function = .ok (some answer)

/-- The left ends of the brackets, if the loop went on for ever. -/
def lefts (left right : K) (function : K → K) (n : ℕ) : K :=
  ((turn function)^[n] (start left right function)).left

def rights (left right : K) (function : K → K) (n : ℕ) : K :=
  ((turn function)^[n] (start left right function)).right

end Chord

end Definitions

namespace Chord

variable {left right precision : ℝ} {function : ℝ → ℝ}

theorem turn_eq_cut (s : State ℝ) :
    ((turn function s).left, (turn function s).right) = cut function (s.left, s.right) := by
  by_cases h : function s.left * function (chord function s.left s.right) < 0
  · have hcut : cut function (s.left, s.right) = (s.left, chord function s.left s.right) :=
      if_pos h
    rw [hcut, turn]
    exact congrArg (fun t : State ℝ => (t.left, t.right)) (if_pos h)
  · have hcut : cut function (s.left, s.right) = (chord function s.left s.right, s.right) :=
      if_neg h
    rw [hcut, turn]
    exact congrArg (fun t : State ℝ => (t.left, t.right)) (if_neg h)

/-- The brackets of the loop are those of the method of false position. -/
theorem iterate_turn (n : ℕ) : (lefts left right function n, rights left right function n) =
    (cut function)^[n] (left, right) := by
  induction n with
  | zero => rfl
  | succ n ih =>
    rw [Function.iterate_succ_apply', ← ih, lefts, rights, lefts, rights,
      Function.iterate_succ_apply', turn_eq_cut]

theorem ends_iff_shrinks (hsign : function left * function right < 0) :
    Ends left right precision function ↔
      ∃ n, |((cut function)^[n] (left, right)).2 - ((cut function)^[n] (left, right)).1| ≤
        precision := by
  have hsolve : ∀ turns, solve turns left right precision function =
      .ok ((loop turns left right precision function).map fun s =>
        (s.x, addAction s.left s.right s.x s.xOld function s.actions)) := by
    intro turns
    rw [solve, checkSigns_ok hsign.le]
    rfl
  have hloop : Ends left right precision function ↔
      ∃ turns s, loop turns left right precision function = some s := by
    simp only [Ends, hsolve, Except.ok.injEq, Option.map_eq_some_iff]
    constructor
    · rintro ⟨turns, _, s, hs, rfl⟩
      exact ⟨turns, s, hs⟩
    · rintro ⟨turns, s, hs⟩
      exact ⟨turns, _, s, hs, rfl⟩
  rw [hloop]
  refine whileLoop_ends_iff.trans (exists_congr fun n => ?_)
  rw [not_lt, ← iterate_turn]
  rfl

/-- The loop ends just if no end of the bracket stays behind out of reach of the root that the
other end tends to. Of a strictly convex function the end with the positive value stays, of a
strictly concave one the end with the negative value. -/
theorem solve_ends_iff (hcontinuous : Continuous function)
    (hsign : function left * function right < 0) (hprecision : 0 < precision) :
    (Ends left right precision function ↔
      ¬ (LeftBehind function precision (rights left right function) (lefts left right function) ∨
        LeftBehind function precision (lefts left right function) (rights left right function))) ∧
      (StrictConvexOn ℝ (uIcc left right) function → ∀ ξ ∈ uIcc left right, function ξ = 0 →
        (0 < function right → (Ends left right precision function ↔ |right - ξ| < precision)) ∧
          (0 < function left → (Ends left right precision function ↔ |left - ξ| < precision))) ∧
      (StrictConcaveOn ℝ (uIcc left right) function → ∀ ξ ∈ uIcc left right, function ξ = 0 →
        (function right < 0 → (Ends left right precision function ↔ |right - ξ| < precision)) ∧
          (function left < 0 → (Ends left right precision function ↔ |left - ξ| < precision))) := by
  have hlefts : (fun n => ((cut function)^[n] (left, right)).1) = lefts left right function := by
    funext n
    rw [← iterate_turn]
  have hrights : (fun n => ((cut function)^[n] (left, right)).2) = rights left right function := by
    funext n
    rw [← iterate_turn]
  have hgeneral := shrinks_iff hcontinuous hsign hprecision
  rw [hlefts, hrights] at hgeneral
  rw [ends_iff_shrinks hsign]
  refine ⟨hgeneral, ?_, ?_⟩
  · intro hconvex ξ hξ hroot
    exact shrinks_convex_iff hcontinuous hsign hconvex hξ hroot
  · intro hconcave ξ hξ hroot
    exact shrinks_concave_iff hcontinuous hsign hconcave hξ hroot

/-! ### The first equation of the menu -/

noncomputable def firstEquation (x : ℝ) : ℝ := x ^ 2 + (3 : ℕ) * x - (5 : ℕ)

theorem strictConvexOn_firstEquation (s : Set ℝ) (hs : Convex ℝ s) :
    StrictConvexOn ℝ s firstEquation := by
  refine ⟨hs, fun x _ y _ hxy a b ha hb hab => ?_⟩
  have hdifference : a • firstEquation x + b • firstEquation y - firstEquation (a • x + b • y) =
      a * b * (x - y) ^ 2 := by
    obtain rfl : b = 1 - a := by linarith
    simp only [firstEquation, smul_eq_mul]
    push_cast
    ring
  have hpos : 0 < a * b * (x - y) ^ 2 :=
    mul_pos (mul_pos ha hb) (sq_pos_of_ne_zero (sub_ne_zero.mpr hxy))
  linarith

theorem continuous_firstEquation : Continuous firstEquation := by
  unfold firstEquation
  fun_prop

theorem exists_root_firstEquation : ∃ ξ ∈ Icc (11 / 10 : ℝ) (14 / 10), firstEquation ξ = 0 :=
  exists_root continuous_firstEquation (by norm_num) (by norm_num [firstEquation])

/-- From zero to two the root is closer to the right end than one. -/
theorem ends_firstEquation : Ends 0 2 1 firstEquation := by
  obtain ⟨ξ, ⟨hle, hge⟩, hroot⟩ := exists_root_firstEquation
  have hξ : ξ ∈ uIcc (0 : ℝ) 2 := by
    rw [uIcc_of_le zero_le_two]
    constructor <;> linarith
  refine ((solve_ends_iff continuous_firstEquation (by norm_num [firstEquation])
    one_pos).2.1 (strictConvexOn_firstEquation _ (convex_uIcc 0 2)) ξ hξ hroot).1
    (by norm_num [firstEquation]) |>.mpr ?_
  rw [abs_of_pos (by linarith)]
  linarith

/-- But not than a half, and the right end never moves. -/
theorem not_ends_firstEquation :
    ¬ ∀ (left right precision : ℝ) (function : ℝ → ℝ), Continuous function →
      function left * function right < 0 → 0 < precision → Ends left right precision function := by
  intro hall
  have hsign : firstEquation 0 * firstEquation 2 < 0 := by norm_num [firstEquation]
  obtain ⟨ξ, ⟨hle, hge⟩, hroot⟩ := exists_root_firstEquation
  have hξ : ξ ∈ uIcc (0 : ℝ) 2 := by
    rw [uIcc_of_le zero_le_two]
    constructor <;> linarith
  have hends := hall 0 2 (1 / 2) firstEquation continuous_firstEquation hsign (by norm_num)
  rw [ends_iff_shrinks hsign, (shrinks_convex_iff continuous_firstEquation hsign
    (strictConvexOn_firstEquation _ (convex_uIcc 0 2)) hξ hroot).1 (by norm_num [firstEquation]),
    abs_of_pos (by linarith)] at hends
  linarith

end Chord

end Itmo.Vmath
