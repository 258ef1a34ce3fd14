import Mathlib.Algebra.Order.Floor.Ring
import Mathlib.Tactic.NormNum

/-! Floating numbers with exact arithmetic in the place of rounding, and their cast to a machine
integer, which rounds towards zero and takes the nearest integer where the number is out of
range. -/

namespace Itmo.Lib

/-- A number, or one of the values that are none. -/
inductive Double (K : Type*) where
  | nan
  | infinite (positive : Bool)
  | finite (x : K)

namespace Double

/-! ### Comparison -/

section Comparison

variable {K : Type*} [LinearOrder K]

def eq : Double K → Double K → Bool
  | .finite x, .finite y => decide (x = y)
  | .infinite p, .infinite q => p == q
  | _, _ => false

def lt : Double K → Double K → Bool
  | .finite x, .finite y => decide (x < y)
  | .finite _, .infinite positive => positive
  | .infinite positive, .finite _ => !positive
  | .infinite p, .infinite q => !p && q
  | .nan, _ | _, .nan => false

def le (x y : Double K) : Bool := x.lt y || x.eq y

def abs [AddGroup K] : Double K → Double K
  | .nan => .nan
  | .infinite _ => .infinite true
  | .finite x => .finite |x|

variable (x y : K)

@[simp] theorem eq_finite : (finite x).eq (finite y) = decide (x = y) := rfl

@[simp] theorem lt_finite : (finite x).lt (finite y) = decide (x < y) := rfl

@[simp] theorem le_finite : (finite x).le (finite y) = decide (x ≤ y) := by
  rw [le, lt_finite, eq_finite, ← Bool.decide_or, decide_eq_decide]
  exact le_iff_lt_or_eq.symm

@[simp] theorem abs_finite [AddGroup K] : (finite x).abs = finite |x| := rfl

end Comparison

/-! ### Arithmetic

There is one zero, with the sign of the positive numbers. -/

section Arithmetic

variable {K : Type*} [Field K]

def neg : Double K → Double K
  | .nan => .nan
  | .infinite positive => .infinite !positive
  | .finite x => .finite (-x)

def add : Double K → Double K → Double K
  | .finite x, .finite y => .finite (x + y)
  | .finite _, .infinite positive | .infinite positive, .finite _ => .infinite positive
  | .infinite p, .infinite q => if p = q then .infinite p else .nan
  | .nan, _ | _, .nan => .nan

instance : Neg (Double K) := ⟨neg⟩
instance : Add (Double K) := ⟨add⟩
instance : Sub (Double K) := ⟨fun x y => x + -y⟩

variable (x y : K) (positive : Bool)

@[simp] theorem neg_finite : -finite x = finite (-x) := rfl

@[simp] theorem finite_add_finite : finite x + finite y = finite (x + y) := rfl

@[simp] theorem finite_sub_finite : finite x - finite y = finite (x - y) :=
  congrArg finite (sub_eq_add_neg x y).symm

@[simp] theorem infinite_sub_finite : infinite positive - finite x = infinite positive := rfl

@[simp] theorem finite_sub_infinite : finite x - infinite positive = infinite !positive := rfl

variable [LinearOrder K]

def mul : Double K → Double K → Double K
  | .finite x, .finite y => .finite (x * y)
  | .finite x, .infinite positive | .infinite positive, .finite x =>
    if x = 0 then .nan else .infinite (positive == decide (0 < x))
  | .infinite p, .infinite q => .infinite (p == q)
  | .nan, _ | _, .nan => .nan

def div : Double K → Double K → Double K
  | .finite x, .finite y =>
    if y ≠ 0 then .finite (x / y) else if x = 0 then .nan else .infinite (decide (0 < x))
  | .finite _, .infinite _ => .finite 0
  | .infinite positive, .finite x => .infinite (positive == decide (0 ≤ x))
  | .infinite _, .infinite _ => .nan
  | .nan, _ | _, .nan => .nan

instance : Mul (Double K) := ⟨mul⟩
instance : Div (Double K) := ⟨div⟩

@[simp] theorem finite_mul_finite : finite x * finite y = finite (x * y) := rfl

variable {x y}

theorem finite_div_finite (hy : y ≠ 0) : finite x / finite y = finite (x / y) := if_pos hy

theorem zero_div_zero : (finite 0 / finite 0 : Double K) = nan :=
  (if_neg (not_not.mpr rfl)).trans (if_pos rfl)

theorem infinite_mul_finite (hx : x ≠ 0) :
    infinite positive * finite x = infinite (positive == decide (0 < x)) := if_neg hx

@[simp] theorem infinite_mul_infinite (p q : Bool) :
    (infinite p * infinite q : Double K) = infinite (p == q) := rfl

end Arithmetic

end Double

variable {K : Type*} [Field K] [LinearOrder K] [FloorRing K]

/-- Rounding towards zero. -/
def truncate (a : K) : ℤ := if 0 ≤ a then ⌊a⌋ else ⌈a⌉

/-- The cast to `int`. -/
def toInt32 (a : K) : Int32 := Int32.ofIntClamp (truncate a)

variable {a : K}

theorem toInt_toInt32 (ha : 0 ≤ a) : (toInt32 a).toInt = min ⌊a⌋ (2 ^ 31 - 1) := by
  have hfloor : 0 ≤ ⌊a⌋ := Int.floor_nonneg.mpr ha
  have hmin : Int32.minValue.toInt = -2 ^ 31 := by decide
  have hmax : Int32.maxValue.toInt = 2 ^ 31 - 1 := by decide
  rw [toInt32, truncate, if_pos ha]
  by_cases hle : ⌊a⌋ ≤ 2 ^ 31 - 1
  · rw [min_eq_left hle]
    exact Int32.toInt_ofIntClamp (by omega) (by omega)
  · rw [min_eq_right (by omega), Int32.ofIntClamp, dif_pos (by omega), dif_neg (by omega), hmax]

theorem toInt32_nonneg (ha : 0 ≤ a) : 0 ≤ (toInt32 a).toInt := by
  have hfloor : 0 ≤ ⌊a⌋ := Int.floor_nonneg.mpr ha
  rw [toInt_toInt32 ha]
  omega

variable [IsStrictOrderedRing K]

theorem truncate_intCast (n : ℤ) : truncate (n : K) = n := by
  rw [truncate, Int.floor_intCast, Int.ceil_intCast, ite_self]

theorem toInt_toInt32_intCast {n : ℤ} (hn : -2 ^ 31 ≤ n) (hn' : n < 2 ^ 31) :
    (toInt32 (n : K)).toInt = n := by
  have hmin : Int32.minValue.toInt = -2 ^ 31 := by decide
  have hmax : Int32.maxValue.toInt = 2 ^ 31 - 1 := by decide
  rw [toInt32, truncate_intCast]
  exact Int32.toInt_ofIntClamp (by omega) (by omega)

theorem toInt32_le (ha : 0 ≤ a) : ((toInt32 a).toInt : K) ≤ a := by
  rw [toInt_toInt32 ha]
  exact (Int.cast_le.mpr (min_le_left _ _)).trans (Int.floor_le a)

/-- The cast leaves at most one just if the number is not beyond the integer after the last. -/
theorem sub_toInt32_le_one_iff (ha : 0 ≤ a) : a - (toInt32 a).toInt ≤ 1 ↔ a ≤ 2 ^ 31 := by
  have hlast : (((2 ^ 31 - 1 : ℤ) : K)) + 1 = 2 ^ 31 := by norm_num
  rw [toInt_toInt32 ha, sub_le_iff_le_add', ← hlast]
  constructor
  · intro h
    exact h.trans (add_le_add_left (Int.cast_le.mpr (min_le_right _ _)) 1)
  · intro h
    rcases le_total ⌊a⌋ (2 ^ 31 - 1) with hle | hle
    · rw [min_eq_left hle]
      exact (Int.lt_floor_add_one a).le
    · rwa [min_eq_right hle]

end Itmo.Lib
