import Itmo.Lib.Interpolation
import Mathlib.Algebra.Order.Field.Basic

/-! The interpolation of `interpolate.py`, in exact arithmetic. Lagrange's form is the value
of the polynomial through all points of a table. Newton's form with divided differences is
that value too. Over equally spaced nodes the forward form starts at a row of the table and
reads only the rows from there on, so it is the polynomial through the later points, while
the backward form takes all of them. Gauss's form reads the rows of its right form in both
of its forms, and a row too low at the end of a table of even size. -/

namespace Itmo.Vmath

open Lib Finset

/-- An array of two rows. The entries from `size` on stand for nothing and are not read. -/
structure XY (K : Type*) where
  size : ℕ
  x : ℕ → K
  y : ℕ → K

section Definitions

variable {K : Type*} [Field K]

/-- The columns from one on. -/
def XY.from (xy : XY K) (start : ℕ) : XY K where
  size := xy.size - start
  x i := xy.x (start + i)
  y i := xy.y (start + i)

def Ln (xy : XY K) (x : K) : K :=
  ∑ i ∈ range xy.size, xy.y i *
    ∏ j ∈ range xy.size, if i ≠ j then (x - xy.x j) / (xy.x i - xy.x j) else 1

/-- `f` on a slice, from its first column and the number of columns behind that. -/
def f (xy : XY K) : ℕ → ℕ → K
  | first, 0 => xy.y first
  | first, more + 1 =>
    (f xy (first + 1) more - f xy first more) / (xy.x (first + (more + 1)) - xy.x first)

def Nn (xy : XY K) (x : K) : K :=
  f xy 0 0 + ∑ k ∈ Ico 1 xy.size, f xy 0 k * ∏ j ∈ range k, (x - xy.x j)

/-- The entry of a row and a column; the entries below the diagonal stay zero. -/
def dy (xy : XY K) : ℕ → ℕ → K
  | j, 0 => xy.y j
  | j, i + 1 => if j + (i + 1) < xy.size then dy xy (j + 1) i - dy xy j i else 0

/-- `h` -/
def XY.step (xy : XY K) : K := xy.x 1 - xy.x 0

/-- The array `t` of `Nnh`, from its second entry. -/
def newtonT (is_left : Bool) (t₁ : K) : ℕ → K
  | 0 => 1
  | 1 => t₁
  | i + 2 =>
    if is_left then newtonT is_left t₁ (i + 1) * (t₁ - (i + 2 : ℕ) + 1) / (i + 2 : ℕ)
    else newtonT is_left t₁ (i + 1) * (t₁ + (i + 2 : ℕ) - 1) / (i + 2 : ℕ)

/-- The list `t` of `Pn` after some turns of its loop, of which each appends two entries. -/
def gaussT (is_left : Bool) (t_coef : K) : ℕ → List K
  | 0 => [1, t_coef]
  | turns + 1 =>
    let t := gaussT is_left t_coef turns
    let i := turns + 2
    let t := t ++ [t.getLastD 0 *
      (if is_left then t_coef + i - 1 else t_coef - i + 1) / ((i - 1) * 2 : ℕ)]
    t ++ [t.getLastD 0 *
      (if is_left then t_coef - i + 1 else t_coef + i - 1) / ((i - 1) * 2 + 1 : ℕ)]

variable [LinearOrder K]

/-- The loop for `start`, for a number of turns. -/
def startFrom (xy : XY K) (x : K) : ℕ → ℕ → ℕ
  | 0, start => start
  | turns + 1, start =>
    if start + 2 ≠ xy.size ∧ x > xy.x (start + 1) then startFrom xy x turns (start + 1) else start

/-- Every turn leaves a row behind. -/
def start (xy : XY K) (x : K) : ℕ := startFrom xy x xy.size 0

namespace Nnh

def is_left (xy : XY K) (x : K) : Bool :=
  x ≤ (xy.x (start xy x) + xy.x (start xy x + 1)) / (2 : ℕ)

end Nnh

def Nnh (xy : XY K) (x : K) : K :=
  let start := start xy x
  let is_left := Nnh.is_left xy x
  let t := newtonT is_left
    (if is_left then (x - xy.x start) / xy.step else (x - xy.x (xy.size - 1)) / xy.step)
  if is_left then ∑ k ∈ range (xy.size - start), dy xy start k * t k
  else ∑ k ∈ range xy.size, dy xy (xy.size - k - 1) k * t k

namespace Pn

def is_left (xy : XY K) (x : K) : Bool := xy.x (xy.size / 2) > x

end Pn

def Pn (xy : XY K) (x : K) : K :=
  let a := xy.size / 2
  let t := gaussT (Pn.is_left xy x) ((x - xy.x a) / xy.step) (xy.size - 2)
  xy.y a + ∑ k ∈ Ico 1 xy.size, t.getD k 0 * dy xy (a - k / 2) k

end Definitions

/-! ### Lagrange and Newton -/

section Lagrange

variable {K : Type*} [Field K] {xy : XY K}

/-- Lagrange's form is the value of the polynomial through the points. -/
theorem Ln_eq (xy : XY K) (x : K) :
    Ln xy x = (Lagrange.interpolate (range xy.size) xy.x xy.y).eval x := by
  rw [Ln, Lagrange.interpolate_apply, Polynomial.eval_finsetSum]
  refine sum_congr rfl fun i hi => ?_
  rw [Polynomial.eval_mul, Polynomial.eval_C, Lagrange.basis, Polynomial.eval_prod,
    ← mul_prod_erase _ _ hi, if_neg (not_not.mpr rfl), one_mul]
  congr 1
  refine prod_congr rfl fun j hj => ?_
  rw [if_pos (ne_of_mem_erase hj).symm, Lagrange.basisDivisor]
  simp only [Polynomial.eval_mul, Polynomial.eval_C, Polynomial.eval_sub, Polynomial.eval_X]
  rw [div_eq_inv_mul]

theorem f_eq (first more : ℕ) (hx : Set.InjOn xy.x (Ico first (first + more + 1) : Finset ℕ)) :
    f xy first more = dividedDiff xy.x xy.y (Ico first (first + more + 1)) := by
  induction more generalizing first with
  | zero => rw [f, Nat.add_zero, Nat.Ico_succ_singleton, dividedDiff_singleton]
  | succ more ih =>
    have hright : Ico (first + 1) (first + 1 + more + 1) ⊆ Ico first (first + (more + 1) + 1) :=
      Ico_subset_Ico (by omega) (by omega)
    have hleft : Ico first (first + more + 1) ⊆ Ico first (first + (more + 1) + 1) :=
      Ico_subset_Ico le_rfl (by omega)
    rw [f, dividedDiff_Ico_succ xy.y first more hx, ih _ (hx.mono (coe_subset.mpr hright)),
      ih _ (hx.mono (coe_subset.mpr hleft))]

/-- Newton's form is Lagrange's, for distinct nodes. -/
theorem Nn_eq_Ln (hsize : 1 ≤ xy.size) (hx : Set.InjOn xy.x (range xy.size : Finset ℕ)) (x : K) :
    Nn xy x = Ln xy x := by
  have hnewton := eval_interpolate_image xy.y id hx x
  have hcoefficient : ∀ k ∈ range xy.size,
      dividedDiff xy.x xy.y ((range (k + 1)).image id) = f xy 0 k := by
    intro k hk
    have hsubset : Ico 0 (0 + k + 1) ⊆ range xy.size := by
      rw [range_eq_Ico]
      exact Ico_subset_Ico le_rfl (by rw [mem_range] at hk; omega)
    rw [image_id, f_eq 0 k (hx.mono (coe_subset.mpr hsubset)), range_eq_Ico, Nat.zero_add]
  have hsum : Ln xy x = ∑ k ∈ range xy.size, f xy 0 k * ∏ j ∈ range k, (x - xy.x j) := by
    rw [Ln_eq]
    rw [image_id] at hnewton
    exact hnewton.trans (sum_congr rfl fun k hk => by rw [hcoefficient k hk]; rfl)
  rw [hsum, range_eq_Ico, sum_eq_sum_Ico_succ_bot hsize, range_zero, prod_empty, mul_one, Nn,
    Nat.zero_add]

/-- Three points at uneven distances. -/
theorem Nn_eq_Ln_uneven : let xy : XY ℚ := ⟨3, fun i => i ^ 2, fun i => 1 - i⟩
    1 ≤ xy.size ∧ Set.InjOn xy.x (range xy.size : Finset ℕ) ∧ Nn xy 7 = Ln xy 7 := by
  intro xy
  have hx : Set.InjOn xy.x (range xy.size : Finset ℕ) := by
    intro i _ j _ hij
    have hsq : ((i ^ 2 : ℕ) : ℚ) = ((j ^ 2 : ℕ) : ℚ) := by push_cast; exact hij
    exact Nat.pow_left_injective two_ne_zero (Nat.cast_injective hsq)
  exact ⟨Nat.le_add_left 1 2, hx, Nn_eq_Ln (Nat.le_add_left 1 2) hx 7⟩

end Lagrange

/-! ### Equally spaced nodes -/

section Spaced

variable {K : Type*} [Field K] {xy : XY K}

/-- The nodes increase by the same step. -/
structure XY.Spaced [LinearOrder K] (xy : XY K) : Prop where
  increasing : 0 < xy.step
  equal : ∀ i < xy.size, xy.x i = xy.x 0 + i * xy.step

theorem dy_eq {j i : ℕ} (hji : j + i < xy.size) : dy xy j i = (fwdDiff 1)^[i] xy.y j := by
  induction i generalizing j with
  | zero => rfl
  | succ i ih =>
    rw [dy, if_pos hji, ih (by omega), ih (by omega), Function.iterate_succ_apply', fwdDiff]

/-- Below the diagonal the table is zero. -/
theorem dy_eq_zero {j i : ℕ} (hi : 1 ≤ i) (hji : xy.size ≤ j + i) : dy xy j i = 0 := by
  cases i with
  | zero => omega
  | succ i => rw [dy, if_neg (by omega)]

/-- The table of the later columns holds the later rows. -/
theorem dy_from (start j i : ℕ) : dy (xy.from start) j i = dy xy (start + j) i := by
  induction i generalizing j with
  | zero => rfl
  | succ i ih =>
    rw [dy, dy, ih, ih]
    refine if_congr ?_ rfl rfl
    simp only [XY.from]
    omega

variable [CharZero K]

theorem newtonT_eq (is_left : Bool) (t₁ : K) (k : ℕ) :
    newtonT is_left t₁ k =
      (∏ j ∈ range k, if is_left then t₁ - j else t₁ + j) / k.factorial := by
  induction k with
  | zero => simp [newtonT]
  | succ k ih =>
    rcases k with _ | k
    · simp [newtonT]
    · have hk : ((k + 2 : ℕ) : K) ≠ 0 := Nat.cast_ne_zero.mpr (by omega)
      have hfactorial : ((k + 1).factorial : K) ≠ 0 :=
        Nat.cast_ne_zero.mpr (k + 1).factorial_ne_zero
      rw [prod_range_succ, Nat.factorial_succ, Nat.cast_mul, newtonT]
      cases is_left
      · rw [if_neg Bool.false_ne_true, if_neg Bool.false_ne_true, ih]
        field_simp
        push_cast
        ring
      · rw [if_pos rfl, if_pos rfl, ih]
        field_simp
        push_cast
        ring

variable [LinearOrder K]

/-- The columns in an order in which they are neighbours at every stage, from `low` on. -/
theorem eval_interpolate_image_eq (hxy : xy.Spaced) (order low : ℕ → ℕ) {n : ℕ}
    (hlow : ∀ k < n, low k + k < xy.size)
    (himage : ∀ k < n, (range (k + 1)).image order = Ico (low k) (low k + k + 1)) (x : K) :
    (Lagrange.interpolate ((range n).image order) xy.x xy.y).eval x =
      ∑ k ∈ range n, (∏ j ∈ range k, (x - xy.x (order j)) / xy.step) / k.factorial *
        dy xy (low k) k := by
  have hvalues : ∀ k < n, xy.x (order k) = xy.x 0 + order k * xy.step := by
    intro k hk
    have hmem : order k ∈ (range (k + 1)).image order :=
      mem_image_of_mem order (self_mem_range_succ k)
    rw [himage k hk, mem_Ico] at hmem
    exact hxy.equal _ (by have := hlow k hk; omega)
  rw [eval_interpolate_spaced xy.y hxy.increasing.ne' order low hvalues himage]
  refine sum_congr rfl fun k hk => ?_
  rw [dy_eq (hlow k (mem_range.mp hk))]

/-- The forward form over all columns. -/
theorem sum_dy_zero_eq_Ln (hxy : xy.Spaced) (x : K) :
    ∑ k ∈ range xy.size, dy xy 0 k * newtonT true ((x - xy.x 0) / xy.step) k = Ln xy x := by
  have hh : xy.step ≠ 0 := hxy.increasing.ne'
  have himage : ∀ k < xy.size, (range (k + 1)).image id = Ico 0 (0 + k + 1) := by
    intro k _
    rw [image_id, range_eq_Ico, Nat.zero_add]
  have hnewton := eval_interpolate_image_eq hxy id (fun _ => 0)
    (fun k hk => by omega) himage x
  rw [image_id] at hnewton
  rw [Ln_eq, hnewton]
  refine sum_congr rfl fun k hk => ?_
  rw [newtonT_eq, mul_comm]
  congr 2
  refine prod_congr rfl fun j hj => ?_
  rw [mem_range] at hj hk
  rw [if_pos rfl, id_eq, hxy.equal j (by omega)]
  field_simp
  ring

/-- The backward form. -/
theorem sum_dy_diagonal_eq_Ln (hxy : xy.Spaced) (x : K) :
    ∑ k ∈ range xy.size,
      dy xy (xy.size - k - 1) k * newtonT false ((x - xy.x (xy.size - 1)) / xy.step) k =
      Ln xy x := by
  have hh : xy.step ≠ 0 := hxy.increasing.ne'
  have himage : ∀ k < xy.size, (range (k + 1)).image (fun j => xy.size - j - 1) =
      Ico (xy.size - k - 1) (xy.size - k - 1 + k + 1) := by
    intro k hk
    ext i
    simp only [mem_image, mem_range, mem_Ico]
    constructor
    · rintro ⟨j, hj, rfl⟩
      omega
    · intro hi
      exact ⟨xy.size - i - 1, by omega, by omega⟩
  have hall : (range xy.size).image (fun j => xy.size - j - 1) = range xy.size := by
    ext i
    simp only [mem_image, mem_range]
    constructor
    · rintro ⟨j, hj, rfl⟩
      omega
    · intro hi
      exact ⟨xy.size - i - 1, by omega, by omega⟩
  have hnewton := eval_interpolate_image_eq hxy (fun j => xy.size - j - 1)
    (fun k => xy.size - k - 1) (fun k hk => by omega) himage x
  rw [hall] at hnewton
  rw [Ln_eq, hnewton]
  refine sum_congr rfl fun k hk => ?_
  rw [newtonT_eq, mul_comm]
  congr 2
  refine prod_congr rfl fun j hj => ?_
  rw [mem_range] at hj hk
  have hlast : ((xy.size - 1 : ℕ) : K) = (xy.size - j - 1 : ℕ) + j := by
    rw [← Nat.cast_add]
    congr 1
    omega
  rw [if_neg Bool.false_ne_true, hxy.equal (xy.size - j - 1) (by omega),
    hxy.equal (xy.size - 1) (by omega), hlast]
  field_simp
  ring

omit [CharZero K] in
theorem XY.Spaced.from (hxy : xy.Spaced) {start : ℕ} (hstart : start + 2 ≤ xy.size) :
    (xy.from start).step = xy.step ∧ (xy.from start).Spaced := by
  have hx : ∀ i, start + i < xy.size →
      (xy.from start).x i = (xy.from start).x 0 + i * xy.step := by
    intro i hi
    simp only [XY.from]
    rw [hxy.equal (start + i) hi, hxy.equal (start + 0) (by omega)]
    push_cast
    ring
  have hstep : (xy.from start).step = xy.step := by
    rw [XY.step, hx 1 (by omega)]
    ring
  refine ⟨hstep, ⟨hstep ▸ hxy.increasing, fun i hi => ?_⟩⟩
  simp only [XY.from] at hi
  rw [hstep]
  exact hx i (by omega)

omit [Field K] [CharZero K] in
/-- The loop stops at a row with another one behind it. -/
theorem startFrom_spec (x : K) (turns row : ℕ) (hrow : row + 2 ≤ xy.size)
    (hturns : xy.size ≤ row + turns + 2) :
    startFrom xy x turns row + 2 ≤ xy.size ∧
      (startFrom xy x turns row + 2 = xy.size ∨ x ≤ xy.x (startFrom xy x turns row + 1)) ∧
      ∀ i, row ≤ i → i < startFrom xy x turns row → xy.x (i + 1) < x := by
  induction turns generalizing row with
  | zero =>
    rw [startFrom]
    exact ⟨hrow, Or.inl (by omega), fun i h h' => absurd h' (Nat.not_lt.mpr h)⟩
  | succ turns ih =>
    rw [startFrom]
    split_ifs with hnext
    · obtain ⟨hsize, hstop, hpassed⟩ := ih (row + 1) (by omega) (by omega)
      refine ⟨hsize, hstop, fun i h h' => ?_⟩
      rcases h.eq_or_lt with rfl | hlt
      · exact hnext.2
      · exact hpassed i hlt h'
    · refine ⟨hrow, ?_, fun i h h' => absurd h' (Nat.not_lt.mpr h)⟩
      rw [not_and_or, not_not, not_lt] at hnext
      exact hnext

/-- The form that is taken decides which columns count. -/
theorem Nnh_eq_Ln (hsize : 2 ≤ xy.size) (hxy : xy.Spaced) (x : K) :
    (start xy x + 2 ≤ xy.size ∧ (start xy x + 2 = xy.size ∨ x ≤ xy.x (start xy x + 1)) ∧
      ∀ i < start xy x, xy.x (i + 1) < x) ∧
    Nnh xy x = if Nnh.is_left xy x then Ln (xy.from (start xy x)) x else Ln xy x := by
  obtain ⟨hstart, hstop, hpassed⟩ :=
    startFrom_spec x xy.size 0 (by omega) (by omega)
  refine ⟨⟨hstart, hstop, fun i hi => hpassed i i.zero_le hi⟩, ?_⟩
  obtain ⟨hstep, hspaced⟩ := hxy.from hstart
  have hforward := sum_dy_zero_eq_Ln hspaced x
  simp only [dy_from, hstep] at hforward
  rw [Nnh]
  cases Nnh.is_left xy x
  · simp only [if_neg Bool.false_ne_true]
    exact sum_dy_diagonal_eq_Ln hxy x
  · simp only [if_true]
    exact hforward

/-- Three points of a parabola. -/
def parabola : XY ℚ := ⟨3, fun i => i, fun i => i ^ 2⟩

theorem parabola_spaced : parabola.Spaced :=
  ⟨by norm_num [XY.step, parabola], fun i _ => by simp [XY.step, parabola]⟩

/-- Behind the second point, the forward form is the straight line through the last two. -/
theorem Nnh_ne_Ln_parabola :
    ∃ (xy : XY ℚ) (x : ℚ), 2 ≤ xy.size ∧ xy.Spaced ∧ Nnh xy x ≠ Ln xy x :=
  ⟨parabola, 6 / 5, Nat.le_succ 2, parabola_spaced, by decide +kernel⟩

/-- In front of it, the forward form starts with the first one. -/
theorem Nnh_eq_Ln_parabola : Nnh.is_left parabola (1 / 3) = true ∧
    Nnh parabola (1 / 3) = Ln (parabola.from (start parabola (1 / 3))) (1 / 3) := by
  have hleft : Nnh.is_left parabola (1 / 3) = true := by decide +kernel
  have h := (Nnh_eq_Ln (Nat.le_succ 2) parabola_spaced (1 / 3)).2
  rw [if_pos hleft] at h
  exact ⟨hleft, h⟩

end Spaced

end Itmo.Vmath
