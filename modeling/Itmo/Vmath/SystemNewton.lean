import Itmo.Lib.Action
import Mathlib.Algebra.Order.Field.Rat
import Mathlib.Tactic.FieldSimp
import Mathlib.Tactic.LinearCombination
import Mathlib.Tactic.Ring

/-! The elimination of `Matrix2D.solve`, and the matrices that Newton's method for systems hands
to it. The only pivot is the entry in the corner: there is no exchange of rows, so a regular
system with a zero there is divided by zero. -/

namespace Itmo.Vmath

open Lib Action

section Definitions

variable {K : Type} [Field K] [DecidableEq K]

/-- A division by zero, which leaves no number. -/
inductive Undefined where
  | divisionByZero
  deriving DecidableEq

def divide {σ : Type} (a b : K) : Action σ Undefined K :=
  if b = 0 then throw .divisionByZero else pure (a / b)

namespace Matrix2D

/-- The field of the object, and the arrays that `solve` makes. -/
structure Arrays (K : Type) where
  matrix : List (List K)
  copy : List (List K)

def entry (a : List (List K)) (i j : ℕ) : K := (a.getD i []).getD j 0

/-- `copy[1][j] += da * copy[0][j]` -/
def addRow (da : K) (j : ℕ) (s : Arrays K) : Arrays K :=
  { s with copy := s.copy.set 1 ((s.copy.getD 1 []).set j
      (entry s.copy 1 j + da * entry s.copy 0 j)) }

def solve : Action (Arrays K) Undefined (Option (List K)) := do
  let s ← get
  if s.matrix.length ≠ 2 ∨ (s.matrix.getD 0 []).length ≠ 3 ∨ (s.matrix.getD 1 []).length ≠ 3 then
    return none
  modify fun s => { s with copy := [[], []] }
  modify fun s => { s with copy := s.copy.set 0 (s.matrix.getD 0 []) }
  modify fun s => { s with copy := s.copy.set 1 (s.matrix.getD 1 []) }
  let da ← divide (-entry s.matrix 1 0) (entry s.matrix 0 0)
  modify (addRow da 0)
  modify (addRow da 1)
  modify (addRow da 2)
  let s ← get
  let answer1 ← divide (entry s.copy 1 2) (entry s.copy 1 1)
  let answer0 ← divide (entry s.copy 0 2 - entry s.copy 0 1 * answer1) (entry s.copy 0 0)
  return some [answer0, answer1]

/-- The call divides by no zero, returns the only solution of the two equations and leaves the
matrix as it was. -/
def Solves (s : Arrays K) : Prop :=
  ∃ x y, (exec solve s).1 = .ok (some [x, y]) ∧ (exec solve s).2.matrix = s.matrix ∧
    ∀ u v, (entry s.matrix 0 0 * u + entry s.matrix 0 1 * v = entry s.matrix 0 2 ∧
      entry s.matrix 1 0 * u + entry s.matrix 1 1 * v = entry s.matrix 1 2) ↔ u = x ∧ v = y

end Matrix2D

/-! ### Newton's method for systems -/

def epsilon : K := 1 / (10000 : ℕ)

/-- `Util.getDerivative` by the first or by the second argument. -/
def derivativeX (f : K → K → K) (x y : K) : K := (f (x + epsilon) y - f x y) / epsilon

def derivativeY (f : K → K → K) (x y : K) : K := (f x (y + epsilon) - f x y) / epsilon

/-- The matrix of one turn of `SystemNewton.solve`. -/
def SystemNewton.matrix (functionF functionS : K → K → K) (x1 y1 : K) : List (List K) :=
  [[derivativeX functionF x1 y1, derivativeY functionF x1 y1, -1 * functionF x1 y1],
    [derivativeX functionS x1 y1, derivativeY functionS x1 y1, -1 * functionS x1 y1]]

end Definitions

/-! ### Elimination -/

section Elimination

variable {K : Type} [Field K] [DecidableEq K]

namespace Matrix2D

variable {a b c d e g : K} {copy : List (List K)}

theorem exec_solve_zero (h : a = 0) :
    exec solve ⟨[[a, b, e], [c, d, g]], copy⟩ =
      (.error .divisionByZero, ⟨[[a, b, e], [c, d, g]], [[a, b, e], [c, d, g]]⟩) := by
  subst h
  simp [solve, exec_bind, divide, entry]

theorem exec_solve (ha : a ≠ 0) (hd : d + -c / a * b ≠ 0) :
    exec solve ⟨[[a, b, e], [c, d, g]], copy⟩ =
      (.ok (some [(e - b * ((g + -c / a * e) / (d + -c / a * b))) / a,
        (g + -c / a * e) / (d + -c / a * b)]),
        ⟨[[a, b, e], [c, d, g]],
          [[a, b, e], [c + -c / a * a, d + -c / a * b, g + -c / a * e]]⟩) := by
  simp [solve, exec_bind, divide, entry, addRow, ha, hd]

theorem solves_iff (hdet : a * d - b * c ≠ 0) :
    Solves ⟨[[a, b, e], [c, d, g]], copy⟩ ↔ a ≠ 0 := by
  constructor
  · rintro ⟨x, y, hresult, -⟩ ha
    rw [exec_solve_zero ha] at hresult
    cases hresult
  · intro ha
    have hcorner : d + -c / a * b = (a * d - b * c) / a := by
      field_simp
      ring
    have hd : d + -c / a * b ≠ 0 := by
      rw [hcorner]
      exact div_ne_zero hdet ha
    -- Cramer's rule for what elimination and substitution give
    have hy : (g + -c / a * e) / (d + -c / a * b) = (a * g - c * e) / (a * d - b * c) := by
      rw [hcorner]
      field_simp
      ring
    have hx : (e - b * ((a * g - c * e) / (a * d - b * c))) / a =
        (d * e - b * g) / (a * d - b * c) := by
      field_simp
      ring
    refine ⟨(d * e - b * g) / (a * d - b * c), (a * g - c * e) / (a * d - b * c), ?_, ?_, ?_⟩
    · rw [exec_solve ha hd, hy, hx]
    · rw [exec_solve ha hd]
    · intro u v
      simp only [entry, List.getD_cons_zero, List.getD_cons_succ]
      rw [eq_div_iff hdet, eq_div_iff hdet]
      constructor
      · rintro ⟨hfirst, hsecond⟩
        exact ⟨by linear_combination d * hfirst - b * hsecond,
          by linear_combination a * hsecond - c * hfirst⟩
      · rintro ⟨hu, hv⟩
        refine ⟨mul_right_cancel₀ hdet ?_, mul_right_cancel₀ hdet ?_⟩
        · linear_combination a * hu + b * hv
        · linear_combination c * hu + d * hv

/-- Two rows of three numbers. -/
def Augmented (matrix : List (List K)) : Prop :=
  matrix.length = 2 ∧ (matrix.getD 0 []).length = 3 ∧ (matrix.getD 1 []).length = 3

/-- A regular system is solved just if there is no zero in the corner, also the system of a
turn of Newton's method. -/
theorem solves_regular_iff :
    (∀ s : Arrays K, Augmented s.matrix →
      entry s.matrix 0 0 * entry s.matrix 1 1 - entry s.matrix 0 1 * entry s.matrix 1 0 ≠ 0 →
      (Solves s ↔ entry s.matrix 0 0 ≠ 0)) ∧
    ∀ (functionF functionS : K → K → K) (x1 y1 : K) (copy : List (List K)),
      derivativeX functionF x1 y1 * derivativeY functionS x1 y1 -
        derivativeY functionF x1 y1 * derivativeX functionS x1 y1 ≠ 0 →
      (Solves ⟨SystemNewton.matrix functionF functionS x1 y1, copy⟩ ↔
        derivativeX functionF x1 y1 ≠ 0) := by
  constructor
  · rintro ⟨matrix, copy⟩ ⟨hrows, hfirst, hsecond⟩ hdet
    obtain ⟨row0, row1, rfl⟩ := List.length_eq_two.mp hrows
    obtain ⟨a, b, e, rfl⟩ := List.length_eq_three.mp hfirst
    obtain ⟨c, d, g, rfl⟩ := List.length_eq_three.mp hsecond
    exact solves_iff hdet
  · intro functionF functionS x1 y1 copy hdet
    rw [SystemNewton.matrix, solves_iff hdet]

/-- A triangular system. -/
theorem solves_regular_triangular : Solves (⟨[[2, 3, 8], [0, 5, 10]], []⟩ : Arrays ℚ) :=
  (solves_regular_iff.1 ⟨[[2, 3, 8], [0, 5, 10]], []⟩ ⟨rfl, rfl, rfl⟩ (by decide +kernel)).mpr
    (by decide +kernel)

/-- The two equations `y = 1` and `x = 1`. -/
theorem exchanged_rows_not_solved :
    ¬ ∀ s : Arrays ℚ, Augmented s.matrix →
      entry s.matrix 0 0 * entry s.matrix 1 1 - entry s.matrix 0 1 * entry s.matrix 1 0 ≠ 0 →
      Solves s := by
  intro hall
  obtain ⟨x, y, hresult, -⟩ := hall ⟨[[0, 1, 1], [1, 0, 1]], []⟩ ⟨rfl, rfl, rfl⟩ (by decide +kernel)
  rw [exec_solve_zero rfl] at hresult
  cases hresult

end Matrix2D

end Elimination

end Itmo.Vmath
