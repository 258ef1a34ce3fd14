import Itmo.Lib.Loop
import Itmo.Lib.System
import Itmo.Vmath.Differential
import Mathlib.Algebra.Order.Field.Rat
import Mathlib.Tactic.LinearCombination

/-! The methods of Adams and Milne of `differential.py`, for a right side that depends on both
arguments. Each turn appends a value that is to be the one of a formula over the four values
before it. `Adams` has the powers of the step of a Taylor expansion in front of differences that
already are of the size of the step, so it appends the value of the formula for steps of zero
and one only. In `Miln` a bracket that closes too late puts the last term of the formula into the
argument of another one. -/

namespace Itmo.Vmath

open Lib

section Definitions

variable {K : Type*} [Field K]

/-- One turn of the loop of `Adams`. -/
def Adams.step (x : List K) (f : K → K → K) (y : List K) (i : ℕ) : List K :=
  let fi := f (x.getD (i - 1) 0) (y.getD (i - 1) 0)
  let fim1 := f (x.getD (i - 2) 0) (y.getD (i - 2) 0)
  let fim2 := f (x.getD (i - 3) 0) (y.getD (i - 3) 0)
  let fim3 := f (x.getD (i - 4) 0) (y.getD (i - 4) 0)
  let df := fi - fim1
  let d2f := fi - (2 : ℕ) * fim1 + fim2
  let d3f := fi + (3 : ℕ) * (-fim1 + fim2) - fim3
  let h := x.getD i 0 - x.getD (i - 1) 0
  y ++ [y.getD (i - 1) 0 + h * fi + h ^ 2 / (2 : ℕ) * df + (5 : ℕ) * h ^ 3 / (12 : ℕ) * d2f +
    (3 : ℕ) * h ^ 4 / (8 : ℕ) * d3f]

def Adams (y0 : K) (x : List K) (f : K → K → K) : List K :=
  run (Adams.step x f) (RK y0 (x.take 4) f) (List.range' 4 (x.length - 4))

/-- Whether the weights of a turn do not matter: the differences of the right side, weighted by
how far the powers of the step are from the step. -/
def Adams.Balanced (x : List K) (f : K → K → K) (h : K) (y : List K) (i : ℕ) : Prop :=
  let fi := f (x.getD (i - 1) 0) (y.getD (i - 1) 0)
  let fim1 := f (x.getD (i - 2) 0) (y.getD (i - 2) 0)
  let fim2 := f (x.getD (i - 3) 0) (y.getD (i - 3) 0)
  let fim3 := f (x.getD (i - 4) 0) (y.getD (i - 4) 0)
  (12 : ℕ) * (fi - fim1) + (10 : ℕ) * (h + 1) * (fi - (2 : ℕ) * fim1 + fim2) +
    (9 : ℕ) * (h ^ 2 + h + 1) * (fi - (3 : ℕ) * fim1 + (3 : ℕ) * fim2 - fim3) = 0

instance [DecidableEq K] (x : List K) (f : K → K → K) (h : K) (y : List K) (i : ℕ) :
    Decidable (Adams.Balanced x f h y i) := inferInstanceAs (Decidable (_ = _))

section Correction

variable [LinearOrder K]

/-- The value that a turn of the loop of `Miln` appends before the correction. -/
def Miln.predict (x : List K) (f : K → K → K) (y : List K) (i : ℕ) : List K :=
  let h := x.getD i 0 - x.getD (i - 1) 0
  y ++ [y.getD (i - 4) 0 + (4 : ℕ) * h *
    ((2 : ℕ) * f (x.getD (i - 3) 0) (y.getD (i - 3) 0) -
      f (x.getD (i - 2) 0) (y.getD (i - 1) 0 +
        (2 : ℕ) * f (x.getD (i - 1) 0) (y.getD (i - 1) 0))) / (3 : ℕ)]

def Miln.corrected (x : List K) (f : K → K → K) (y : List K) (i : ℕ) : K :=
  let h := x.getD i 0 - x.getD (i - 1) 0
  y.getD (i - 2) 0 + h * (f (x.getD (i - 2) 0) (y.getD (i - 2) 0) +
    (4 : ℕ) * f (x.getD (i - 1) 0) (y.getD (i - 1) 0) + f (x.getD i 0) (y.getD i 0)) / (3 : ℕ)

/-- The `while` loop of a turn, on `y` and `y_corrected`, and what comes after it. -/
def Miln.correct (turns : ℕ) (x : List K) (f : K → K → K) (y : List K) (i : ℕ) :
    Option (List K) :=
  let e : K := 1 / (100000 : ℕ)
  (whileLoop (fun s : List K × K => e ≤ |s.1.getD i 0 - s.2|)
    (fun s => (s.1.set i s.2, Miln.corrected x f (s.1.set i s.2) i)) turns
    (y, Miln.corrected x f y i)).map fun s => s.1.set i s.2

/-- One turn of the loop of `Miln`. -/
def Miln.step (turns : ℕ) (x : List K) (f : K → K → K) (y : Option (List K)) (i : ℕ) :
    Option (List K) :=
  y.bind fun y => Miln.correct turns x f (Miln.predict x f y i) i

def Miln (turns : ℕ) (y0 : K) (x : List K) (f : K → K → K) : Option (List K) :=
  run (Miln.step turns x f) (some (RK y0 (x.take 4) f)) (List.range' 4 (x.length - 4))

end Correction

/-- Milne's predictor. -/
def milne (x : List K) (f : K → K → K) (h : K) (y : List K) (i : ℕ) : K :=
  y.getD (i - 4) 0 + (4 : ℕ) * h / (3 : ℕ) *
    ((2 : ℕ) * f (x.getD (i - 3) 0) (y.getD (i - 3) 0) -
      f (x.getD (i - 2) 0) (y.getD (i - 2) 0) +
      (2 : ℕ) * f (x.getD (i - 1) 0) (y.getD (i - 1) 0))

/-- What the misplaced bracket makes of the two terms is what they are. -/
def Miln.Harmless (x : List K) (f : K → K → K) (y : List K) (i : ℕ) : Prop :=
  let fim1 := f (x.getD (i - 1) 0) (y.getD (i - 1) 0)
  f (x.getD (i - 2) 0) (y.getD (i - 1) 0 + (2 : ℕ) * fim1) =
    f (x.getD (i - 2) 0) (y.getD (i - 2) 0) - (2 : ℕ) * fim1

instance [DecidableEq K] (x : List K) (f : K → K → K) (y : List K) (i : ℕ) :
    Decidable (Miln.Harmless x f y i) := inferInstanceAs (Decidable (_ = _))

end Definitions

/-! ### Along a uniform grid -/

section Grid

variable {K : Type*} [Field K] {x : List K} {x0 h : K}

theorem Uniform.sub_eq (hx : Uniform x x0 h) {i : ℕ} (hi : 1 ≤ i) (hlt : i < x.length) :
    x.getD i 0 - x.getD (i - 1) 0 = h := by
  obtain ⟨j, rfl⟩ := Nat.exists_eq_add_of_le' hi
  rw [hx.getD_add hlt, Nat.add_sub_cancel, Nat.cast_one, one_mul, add_sub_cancel_left]

omit [Field K] in
/-- Two properties of the turns that agree at every index of the loop. -/
theorem along_turns_congr {σ : Type*} {step : σ → ℕ → σ} {P Q : σ → ℕ → Prop}
    (hPQ : ∀ s i, 4 ≤ i → i < x.length → (P s i ↔ Q s i)) (s : σ) :
    Along step P s (List.range' 4 (x.length - 4)) ↔
      Along step Q s (List.range' 4 (x.length - 4)) := by
  refine along_iff_along (C := fun _ i => 4 ≤ i ∧ i < x.length) (fun _ => True)
    (fun s i _ hi => hPQ s i hi.1 hi.2) (fun _ _ _ _ _ => trivial) trivial ?_
  refine along_of_forall_mem (fun i hi _ => ?_) s
  rw [List.mem_range'_1] at hi
  omega

omit [Field K] in
/-- A grid without a fifth point leaves no turn; with one, the first turn is made. -/
theorem turns_eq : List.range' 4 (x.length - 4) = [] ∧ x.length ≤ 4 ∨
    ∃ turns, List.range' 4 (x.length - 4) = 4 :: turns ∧ 4 < x.length := by
  rcases Nat.lt_or_ge 4 x.length with hlt | hle
  · obtain ⟨n, hn⟩ := Nat.exists_eq_add_of_lt hlt
    refine Or.inr ⟨List.range' 5 n, ?_, hlt⟩
    rw [show x.length - 4 = n + 1 by omega, List.range'_succ]
  · exact Or.inl ⟨by rw [Nat.sub_eq_zero_of_le hle, List.range'_zero], hle⟩

end Grid

/-! ### Adams -/

section Adams

variable {K : Type*} [Field K] [CharZero K] {x : List K} {x0 h : K} {f : K → K → K}

theorem Adams_step_eq_iff {y : List K} {i : ℕ} (hx : x.getD i 0 - x.getD (i - 1) 0 = h) :
    Adams.step x f y i = AdamsCorrected.predict x f y i ↔
      h = 0 ∨ h = 1 ∨ Adams.Balanced x f h y i := by
  rw [Adams.step, AdamsCorrected.predict, Adams.Balanced, hx]
  generalize f (x.getD (i - 1) 0) (y.getD (i - 1) 0) = fi
  generalize f (x.getD (i - 2) 0) (y.getD (i - 2) 0) = fim1
  generalize f (x.getD (i - 3) 0) (y.getD (i - 3) 0) = fim2
  generalize f (x.getD (i - 4) 0) (y.getD (i - 4) 0) = fim3
  simp only [List.append_cancel_left_eq, List.cons.injEq, and_true, Nat.cast_ofNat]
  have hdifference : y.getD (i - 1) 0 + h * fi + h ^ 2 / 2 * (fi - fim1) +
      5 * h ^ 3 / 12 * (fi - 2 * fim1 + fim2) +
      3 * h ^ 4 / 8 * (fi + 3 * (-fim1 + fim2) - fim3) -
      (y.getD (i - 1) 0 + h * (55 * fi - 59 * fim1 + 37 * fim2 - 9 * fim3) / 24) =
      h * ((h - 1) * (12 * (fi - fim1) + 10 * (h + 1) * (fi - 2 * fim1 + fim2) +
        9 * (h ^ 2 + h + 1) * (fi - 3 * fim1 + 3 * fim2 - fim3))) / 24 := by
    field_simp
    ring
  rw [← sub_eq_zero, hdifference, div_eq_zero_iff, or_iff_left (by norm_num), mul_eq_zero,
    mul_eq_zero, sub_eq_zero]

/-- Of a right side that grows with the first argument only the first differences count. -/
theorem Uniform.eq_zero_of_balanced (hx : Uniform x x0 h) (hlt : 4 < x.length)
    {y : List K} (hbalanced : Adams.Balanced x (fun x _ => x) h y 4) : h = 0 := by
  have h1 : x.getD (4 - 3) 0 = x.getD 0 0 + (1 : ℕ) * h :=
    hx.getD_add (i := 0) (k := 1) (by omega)
  have h2 : x.getD (4 - 2) 0 = x.getD 0 0 + (2 : ℕ) * h :=
    hx.getD_add (i := 0) (k := 2) (by omega)
  have h3 : x.getD (4 - 1) 0 = x.getD 0 0 + (3 : ℕ) * h :=
    hx.getD_add (i := 0) (k := 3) (by omega)
  have hvalue : (12 : K) * h = 0 := by
    rw [Adams.Balanced, h1, h2, h3, Nat.sub_self] at hbalanced
    push_cast at hbalanced
    linear_combination hbalanced
  exact (mul_eq_zero.mp hvalue).resolve_left (by norm_num)

/-- `Adams` appends the values of the formula just if at every turn the weights do not matter,
and for every right side and initial value only with a step of zero or one. -/
theorem Adams_eq_predict_iff (hx : Uniform x x0 h) :
    (∀ y0 f, Along (Adams.step x f)
        (fun y i => Adams.step x f y i = AdamsCorrected.predict x f y i)
        (RK y0 (x.take 4) f) (List.range' 4 (x.length - 4)) ↔
      Along (Adams.step x f) (fun y i => h = 0 ∨ h = 1 ∨ Adams.Balanced x f h y i)
        (RK y0 (x.take 4) f) (List.range' 4 (x.length - 4))) ∧
      ((∀ y0 f, Along (Adams.step x f)
        (fun y i => Adams.step x f y i = AdamsCorrected.predict x f y i)
        (RK y0 (x.take 4) f) (List.range' 4 (x.length - 4))) ↔
      h = 0 ∨ h = 1 ∨ x.length ≤ 4) := by
  have hturn : ∀ f y i, 4 ≤ i → i < x.length →
      (Adams.step x f y i = AdamsCorrected.predict x f y i ↔
        h = 0 ∨ h = 1 ∨ Adams.Balanced x f h y i) := fun f y i hi hlt =>
    Adams_step_eq_iff (hx.sub_eq (by omega) hlt)
  refine ⟨fun y0 f => along_turns_congr (hturn f) _, ?_⟩
  constructor
  · intro hall
    obtain ⟨-, hle⟩ | ⟨turns, hturns, hlt⟩ := turns_eq (x := x)
    · exact Or.inr (Or.inr hle)
    · have hfirst := hall 0 fun x _ => x
      rw [hturns, along_cons] at hfirst
      obtain hzero | hone | hbalanced := (hturn _ _ 4 le_rfl hlt).mp hfirst.1
      · exact Or.inl hzero
      · exact Or.inr (Or.inl hone)
      · exact Or.inl (hx.eq_zero_of_balanced hlt hbalanced)
  · intro hcondition y0 f
    rcases Nat.lt_or_ge 4 x.length with hlt | hle
    · rw [along_turns_congr (hturn f)]
      refine along_of_forall_mem (fun i _ y => ?_) _
      rcases hcondition with hzero | hone | hle
      · exact Or.inl hzero
      · exact Or.inr (Or.inl hone)
      · omega
    · rw [Nat.sub_eq_zero_of_le hle]
      exact along_nil _

/-- With a step of one. -/
theorem Adams_eq_predict_one :
    Along (Adams.step [0, 1, 2, 3, 4, 5] fun x y => x * y)
      (fun y i => Adams.step [0, 1, 2, 3, 4, 5] (fun x y => x * y) y i =
        AdamsCorrected.predict [0, 1, 2, 3, 4, 5] (fun x y => x * y) y i)
      (RK (1 : ℚ) ([0, 1, 2, 3, 4, 5].take 4) fun x y => x * y)
      (List.range' 4 (([0, 1, 2, 3, 4, 5] : List ℚ).length - 4)) := by
  have hx : Uniform ([0, 1, 2, 3, 4, 5] : List ℚ) 0 1 := by
    rw [Uniform]
    decide +kernel
  exact (Adams_eq_predict_iff hx).2.mpr (Or.inr (Or.inl rfl)) 1 fun x y => x * y

/-- With a step of two and a right side without the second argument: 34 for 32. -/
theorem Adams_ne_predict_two :
    ¬ ∀ (x : List ℚ) (x0 h y0 : ℚ) (f : ℚ → ℚ → ℚ), Uniform x x0 h →
      Along (Adams.step x f) (fun y i => Adams.step x f y i = AdamsCorrected.predict x f y i)
        (RK y0 (x.take 4) f) (List.range' 4 (x.length - 4)) := by
  intro hall
  have hx : Uniform ([0, 2, 4, 6, 8] : List ℚ) 0 2 := by
    rw [Uniform]
    decide +kernel
  have hfirst := hall [0, 2, 4, 6, 8] 0 2 0 (fun x _ => x) hx
  revert hfirst
  decide +kernel

end Adams

/-! ### Milne -/

section Milne

variable {K : Type*} [Field K] [CharZero K] {x : List K} {x0 h : K} {f : K → K → K}

theorem Miln_predict_eq_iff {y : List K} {i : ℕ} (hx : x.getD i 0 - x.getD (i - 1) 0 = h) :
    Miln.predict x f y i = y ++ [milne x f h y i] ↔ h = 0 ∨ Miln.Harmless x f y i := by
  rw [Miln.predict, milne, Miln.Harmless, hx]
  generalize f (x.getD (i - 1) 0) (y.getD (i - 1) 0) = fim1
  generalize f (x.getD (i - 2) 0) (y.getD (i - 2) 0) = fim2
  generalize f (x.getD (i - 3) 0) (y.getD (i - 3) 0) = fim3
  generalize f (x.getD (i - 2) 0) (y.getD (i - 1) 0 + (2 : ℕ) * fim1) = nested
  simp only [List.append_cancel_left_eq, List.cons.injEq, and_true, Nat.cast_ofNat]
  have hdifference : y.getD (i - 4) 0 + 4 * h * (2 * fim3 - nested) / 3 -
      (y.getD (i - 4) 0 + 4 * h / 3 * (2 * fim3 - fim2 + 2 * fim1)) =
      -4 / 3 * (h * (nested - (fim2 - 2 * fim1))) := by
    ring
  rw [← sub_eq_zero, hdifference, mul_eq_zero, or_iff_right (by norm_num), mul_eq_zero, sub_eq_zero]

variable [LinearOrder K]

/-- `Miln` appends the values of Milne's formula just if at every turn the misplaced bracket does
no harm, and for every right side and initial value only with a step of zero. -/
theorem Miln_predict_iff (hx : Uniform x x0 h) :
    (∀ turns y0 f, Along (Miln.step turns x f)
        (fun y i => ∀ y' ∈ y, Miln.predict x f y' i = y' ++ [milne x f h y' i])
        (some (RK y0 (x.take 4) f)) (List.range' 4 (x.length - 4)) ↔
      Along (Miln.step turns x f) (fun y i => ∀ y' ∈ y, h = 0 ∨ Miln.Harmless x f y' i)
        (some (RK y0 (x.take 4) f)) (List.range' 4 (x.length - 4))) ∧
      ((∀ turns y0 f, Along (Miln.step turns x f)
        (fun y i => ∀ y' ∈ y, Miln.predict x f y' i = y' ++ [milne x f h y' i])
        (some (RK y0 (x.take 4) f)) (List.range' 4 (x.length - 4))) ↔
      h = 0 ∨ x.length ≤ 4) := by
  have hturn : ∀ f (y : Option (List K)) i, 4 ≤ i → i < x.length →
      ((∀ y' ∈ y, Miln.predict x f y' i = y' ++ [milne x f h y' i]) ↔
        ∀ y' ∈ y, h = 0 ∨ Miln.Harmless x f y' i) := fun f y i hi hlt =>
    forall₂_congr fun y' _ => Miln_predict_eq_iff (hx.sub_eq (by omega) hlt)
  refine ⟨fun turns y0 f => along_turns_congr (hturn f) _, ?_⟩
  constructor
  · intro hall
    obtain ⟨-, hle⟩ | ⟨indices, hindices, hlt⟩ := turns_eq (x := x)
    · exact Or.inr hle
    · -- with a constant right side the three terms of the formula do not cancel
      have hfirst := hall 0 0 fun _ _ => 1
      rw [hindices, along_cons] at hfirst
      refine Or.inl (((hturn _ _ 4 le_rfl hlt).mp hfirst.1 _ rfl).resolve_right fun hharmless => ?_)
      rw [Miln.Harmless, Nat.cast_ofNat] at hharmless
      norm_num at hharmless
  · intro hcondition turns y0 f
    rcases Nat.lt_or_ge 4 x.length with hlt | hle
    · rw [along_turns_congr (hturn f)]
      refine along_of_forall_mem (fun i _ y y' _ => ?_) _
      exact Or.inl (hcondition.resolve_right (by omega))
    · rw [Nat.sub_eq_zero_of_le hle]
      exact along_nil _

/-- A right side that is zero at the last point before the new one. -/
theorem Miln_predict_zero :
    Along (Miln.step 5 [0, 1, 2, 3, 4] fun x _ => 3 - x)
      (fun y i => ∀ y' ∈ y, Miln.predict [0, 1, 2, 3, 4] (fun x _ => 3 - x) y' i =
        y' ++ [milne [0, 1, 2, 3, 4] (fun x _ => 3 - x) 1 y' i])
      (some (RK (0 : ℚ) ([0, 1, 2, 3, 4].take 4) fun x _ => 3 - x))
      (List.range' 4 (([0, 1, 2, 3, 4] : List ℚ).length - 4)) := by
  have hx : Uniform ([0, 1, 2, 3, 4] : List ℚ) 0 1 := by
    rw [Uniform]
    decide +kernel
  refine ((Miln_predict_iff hx).1 5 0 fun x _ => 3 - x).mpr ?_
  decide +kernel

/-- With the right side one: a third of the value that lies on the line. -/
theorem Miln_predict_one :
    ¬ ∀ (turns : ℕ) (x : List ℚ) (x0 h y0 : ℚ) (f : ℚ → ℚ → ℚ), Uniform x x0 h →
      Along (Miln.step turns x f)
        (fun y i => ∀ y' ∈ y, Miln.predict x f y' i = y' ++ [milne x f h y' i])
        (some (RK y0 (x.take 4) f)) (List.range' 4 (x.length - 4)) := by
  intro hall
  have hx : Uniform ([0, 1, 2, 3, 4] : List ℚ) 0 1 := by
    rw [Uniform]
    decide +kernel
  have hfirst := hall 5 [0, 1, 2, 3, 4] 0 1 0 (fun _ _ => 1) hx
  revert hfirst
  decide +kernel

end Milne

end Itmo.Vmath
