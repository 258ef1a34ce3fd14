import Itmo.Lib.Loop
import Mathlib.Analysis.SpecificLimits.Basic
import Mathlib.Topology.Order.IntermediateValue

/-! The bisection of `vmath2` in exact arithmetic. Each turn keeps the half with a change of sign,
except when the function is zero at the left end: then the product with the value in the middle
is never negative, the left end moves on, and the root at it is lost if the right half has no
change of sign. -/

namespace Itmo.Vmath

open Lib

section Definitions

variable {K : Type} [Field K] [LinearOrder K]

/-- The rows that a solver of `vmath2` records. -/
abbrev Actions (K : Type) := List (List (String × K))

/-- The check that every solver of `vmath2` starts with. -/
def checkSigns (left right : K) (function : K → K) : Except String Unit :=
  if 0 < function left * function right then .error "На границах интервала одинаковые знаки"
  else .ok ()

namespace HalfDivide

structure State (K : Type) where
  left : K
  right : K
  center : K
  actions : Actions K

def addAction (left right center : K) (function : K → K) (actions : Actions K) : Actions K :=
  actions ++ [[("a", left), ("b", right), ("x", center), ("f(a)", function left),
    ("f(b)", function right), ("f(x)", function center), ("|a-b|", |right - left|)]]

/-- One turn of the loop. -/
def turn (function : K → K) (s : State K) : State K :=
  let center := (s.left + s.right) / (2 : ℕ)
  let actions := addAction s.left s.right center function s.actions
  if function s.left * function center < 0 then ⟨s.left, center, center, actions⟩
  else ⟨center, s.right, center, actions⟩

def start (left right : K) : State K := ⟨left, right, (left + right) / (2 : ℕ), []⟩

def loop (turns : ℕ) (left right precision : K) (function : K → K) : Option (State K) :=
  whileLoop (fun s : State K => precision < |s.right - s.left|) (turn function) turns
    (start left right)

def solve (turns : ℕ) (left right precision : K) (function : K → K) :
    Except String (Option (K × Actions K)) := do
  checkSigns left right function
  return (loop turns left right precision function).map fun s =>
    (s.center, addAction s.left s.right s.center function s.actions)

/-- The state comes up in the loop. -/
def Reached (left right precision : K) (function : K → K) (s : State K) : Prop :=
  Visits (fun s : State K => precision < |s.right - s.left|) (turn function) (start left right) s

end HalfDivide

end Definitions

/-! ### Changes of sign -/

/-- What has the sign of the one end, or none, is on the other side of the other end. -/
theorem mul_nonpos_of_same_sign {a b c : ℝ} (ha : a ≠ 0) (hab : a * b ≤ 0) (hac : 0 ≤ a * c) :
    c * b ≤ 0 := by
  have hproduct : a ^ 2 * (c * b) ≤ 0 := by
    calc a ^ 2 * (c * b) = a * c * (a * b) := by ring
      _ ≤ 0 := mul_nonpos_of_nonneg_of_nonpos hac hab
  exact nonpos_of_mul_nonpos_right hproduct (by positivity)

theorem exists_root {function : ℝ → ℝ} (hcontinuous : Continuous function) {a b : ℝ} (hab : a ≤ b)
    (hsign : function a * function b ≤ 0) : ∃ ξ ∈ Set.Icc a b, function ξ = 0 := by
  rcases mul_nonpos_iff.mp hsign with ⟨ha, hb⟩ | ⟨ha, hb⟩
  · exact intermediate_value_Icc' hab hcontinuous.continuousOn ⟨hb, ha⟩
  · exact intermediate_value_Icc hab hcontinuous.continuousOn ⟨ha, hb⟩

theorem checkSigns_ok {left right : ℝ} {function : ℝ → ℝ}
    (hsign : function left * function right ≤ 0) : checkSigns left right function = .ok () :=
  if_neg (not_lt.mpr hsign)

namespace HalfDivide

/-- The loop ends, keeps a bracket at every turn, and returns a value that is within the
precision of both ends of the last bracket and, for a continuous function, of a root. -/
structure Correct (left right precision : ℝ) (function : ℝ → ℝ) : Prop where
  ends : ∃ turns answer, solve turns left right precision function = .ok (some answer)
  bracket : ∀ s, Reached left right precision function s → function s.left * function s.right ≤ 0
  close : ∀ turns x actions, solve turns left right precision function = .ok (some (x, actions)) →
    ∃ s, Reached left right precision function s ∧ |s.right - s.left| ≤ precision ∧
      |x - s.left| ≤ precision ∧ |x - s.right| ≤ precision
  root : Continuous function → ∀ turns x actions,
    solve turns left right precision function = .ok (some (x, actions)) →
    ∃ ξ, function ξ = 0 ∧ |x - ξ| ≤ precision

/-! ### The bracket -/

section Bracket

variable {left right precision : ℝ} {function : ℝ → ℝ} {s : State ℝ}

theorem turn_width (function : ℝ → ℝ) (s : State ℝ) :
    (turn function s).right - (turn function s).left = (s.right - s.left) / 2 := by
  rw [turn]
  split_ifs <;> push_cast <;> ring

theorem iterate_width (function : ℝ → ℝ) (s : State ℝ) (n : ℕ) :
    ((turn function)^[n] s).right - ((turn function)^[n] s).left =
      (s.right - s.left) / 2 ^ n := by
  induction n with
  | zero => simp
  | succ n ih => rw [Function.iterate_succ_apply', turn_width, ih, pow_succ, div_div]

/-- The width falls below every precision. -/
theorem loop_ends (hprecision : 0 < precision) :
    ∃ turns s, loop turns left right precision function = some s := by
  refine whileLoop_ends_iff.mpr ?_
  obtain ⟨n, hn⟩ := pow_unbounded_of_one_lt (|right - left| / precision) one_lt_two
  refine ⟨n, not_lt.mpr ?_⟩
  have hpos : (0 : ℝ) < 2 ^ n := by positivity
  rw [iterate_width, start, abs_div, abs_of_pos hpos, div_le_iff₀ hpos]
  exact ((div_lt_iff₀' hprecision).mp hn).le

/-- The value between the ends is what is returned. -/
structure Ordered (s : State ℝ) : Prop where
  left_le : s.left ≤ s.center
  le_right : s.center ≤ s.right

theorem Ordered.turn (h : Ordered s) : Ordered (turn function s) := by
  have hcenter := h.left_le.trans h.le_right
  have hleft : s.left ≤ (s.left + s.right) / (2 : ℕ) := by
    push_cast
    linarith
  have hright : (s.left + s.right) / (2 : ℕ) ≤ s.right := by
    push_cast
    linarith
  rw [HalfDivide.turn]
  split_ifs
  · exact ⟨hleft, le_rfl⟩
  · exact ⟨le_rfl, hright⟩

theorem Reached.ordered (hlr : left ≤ right) (h : Reached left right precision function s) :
    Ordered s := by
  refine h.invariant ?_ fun t _ _ ht => ht.turn
  rw [start]
  constructor <;> push_cast <;> linarith

/-- A turn keeps the change of sign just if there is no root at the left end or the right half
has one of its own. -/
theorem turn_bracket_iff (h : function s.left * function s.right ≤ 0) :
    function (turn function s).left * function (turn function s).right ≤ 0 ↔
      (function s.left = 0 → function ((s.left + s.right) / 2) * function s.right ≤ 0) := by
  rw [turn]
  push_cast
  split_ifs with hsign
  · refine iff_of_true hsign.le fun hzero => ?_
    rw [hzero, zero_mul] at hsign
    exact absurd hsign (lt_irrefl 0)
  · refine ⟨fun h _ => h, fun hroot => ?_⟩
    rw [not_lt] at hsign
    rcases eq_or_ne (function s.left) 0 with hzero | hne
    · exact hroot hzero
    · -- the value in the middle has the sign of the one at the left end, or is zero
      exact mul_nonpos_of_same_sign hne h hsign

theorem solve_eq (turns : ℕ) (precision : ℝ) (hsign : function left * function right ≤ 0) :
    solve turns left right precision function =
      .ok ((loop turns left right precision function).map fun s =>
        (s.center, addAction s.left s.right s.center function s.actions)) := by
  rw [solve, checkSigns_ok hsign]
  rfl

theorem reached_of_solve {turns : ℕ} {x : ℝ} {actions : Actions ℝ}
    (hsign : function left * function right ≤ 0)
    (h : solve turns left right precision function = .ok (some (x, actions))) :
    ∃ s, Reached left right precision function s ∧ |s.right - s.left| ≤ precision ∧
      s.center = x := by
  rw [solve_eq turns precision hsign, Except.ok.injEq, Option.map_eq_some_iff] at h
  obtain ⟨s, hloop, hs⟩ := h
  obtain ⟨hreached, htest⟩ := whileLoop_some hloop
  exact ⟨s, hreached, not_lt.mp htest, congrArg Prod.fst hs⟩

/-- The bisection does what it is for just if the loop goes on from no bracket with a root at its
left end and no change of sign in its right half. -/
theorem correct_iff (hlr : left < right) (hsign : function left * function right ≤ 0)
    (hprecision : 0 < precision) :
    Correct left right precision function ↔
      ∀ s, Reached left right precision function s → precision < |s.right - s.left| →
        function s.left = 0 → function ((s.left + s.right) / 2) * function s.right ≤ 0 := by
  have hbracket : (∀ s, Reached left right precision function s →
      function s.left * function s.right ≤ 0) ↔
      ∀ s, Reached left right precision function s → precision < |s.right - s.left| →
        (function s.left = 0 → function ((s.left + s.right) / 2) * function s.right ≤ 0) :=
    forall_visits_iff hsign
      fun s _ hs => turn_bracket_iff hs
  rw [← hbracket]
  refine ⟨Correct.bracket, fun hall => ⟨?_, hall, ?_, ?_⟩⟩
  · have hends : ∃ turns s, loop turns left right precision function = some s :=
      loop_ends hprecision
    obtain ⟨turns, s, hloop⟩ := hends
    refine ⟨turns, (s.center, addAction s.left s.right s.center function s.actions), ?_⟩
    rw [solve_eq turns precision hsign, hloop, Option.map_some]
  · intro turns x actions h
    obtain ⟨s, hreached, hwidth, rfl⟩ := reached_of_solve hsign h
    have hordered := hreached.ordered hlr.le
    have hle := abs_le.mp hwidth
    refine ⟨s, hreached, hwidth, abs_le.mpr ?_, abs_le.mpr ?_⟩
    · constructor <;> linarith [hordered.left_le, hordered.le_right]
    · constructor <;> linarith [hordered.left_le, hordered.le_right]
  · intro hcontinuous turns x actions h
    obtain ⟨s, hreached, hwidth, rfl⟩ := reached_of_solve hsign h
    have hordered := hreached.ordered hlr.le
    have hle := abs_le.mp hwidth
    obtain ⟨ξ, hξ, hroot⟩ := exists_root hcontinuous (hordered.left_le.trans hordered.le_right)
      (hall s hreached)
    refine ⟨ξ, hroot, abs_le.mpr ?_⟩
    constructor <;> linarith [hordered.left_le, hordered.le_right, hξ.1, hξ.2]

/-- A precision of half the interval, which leaves one turn. -/
theorem correct_third : Correct 0 1 (1 / 2) fun x => x - 1 / 3 := by
  refine (correct_iff one_pos (by norm_num) (by norm_num)).mpr ?_
  rintro s ⟨n, -, rfl⟩ hwide hroot
  cases n with
  | zero => norm_num [start] at hroot
  | succ n =>
    rw [iterate_width, start, sub_zero, abs_of_pos (by positivity)] at hwide
    have hpower : (2 : ℝ) ≤ 2 ^ (n + 1) := le_self_pow₀ one_le_two (Nat.succ_ne_zero n)
    exact absurd hwide (not_lt.mpr (one_div_le_one_div_of_le two_pos hpower))

/-- A root in the first middle, and the loop goes on in the half without a change of sign. -/
theorem not_correct_identity :
    ¬ ∀ (left right precision : ℝ) (function : ℝ → ℝ), left < right →
      function left * function right ≤ 0 → 0 < precision →
      Correct left right precision function := by
  intro hall
  have h := hall (-1) 1 (1 / 4) id (by norm_num) (by norm_num) (by norm_num)
  have hleft : (turn id (start (-1 : ℝ) 1)).left = 0 := by norm_num [turn, start]
  have hright : (turn id (start (-1 : ℝ) 1)).right = 1 := by norm_num [turn, start]
  have hstart : Reached (-1) 1 (1 / 4) id (turn id (start (-1 : ℝ) 1)) := by
    refine Visits.refl.next ?_
    norm_num [start]
  have hnext := hstart.next (by norm_num [hleft, hright])
  have hsecond := (turn_bracket_iff (h.bracket _ hstart)).mp (h.bracket _ hnext) hleft
  rw [hleft, hright] at hsecond
  norm_num at hsecond

end Bracket

end HalfDivide

end Itmo.Vmath
