import Itmo.Vmath.Interpolate

/-! Gauss's form of `interpolate.py`. Its coefficients are the products over the nodes to
the right and to the left of the central one in turn, beginning with a different side in the
two forms, and the rows it reads are those of the right form. The right form leaves out the
first point of a table of even size, and the left form takes every odd difference from a row
too low. -/

namespace Itmo.Vmath

open Lib Finset

namespace Pn

/-- How far the columns are from the central one, in the order in which a form takes them. -/
def distance (is_left : Bool) (j : ℕ) : ℤ :=
  if (decide (j % 2 = 1)).xor is_left then ((j + 1) / 2 : ℕ) else -((j + 1) / 2 : ℕ)

theorem distance_odd (is_left : Bool) (turns : ℕ) :
    distance is_left (2 * turns + 1) = if is_left then -(turns + 1 : ℤ) else turns + 1 := by
  have hmod : (2 * turns + 1) % 2 = 1 := by omega
  have hdiv : (2 * turns + 1 + 1) / 2 = turns + 1 := by omega
  rw [distance, hmod, hdiv]
  cases is_left <;> simp

theorem distance_even (is_left : Bool) (turns : ℕ) :
    distance is_left (2 * turns + 2) = if is_left then (turns + 1 : ℤ) else -(turns + 1) := by
  have hmod : (2 * turns + 2) % 2 = 0 := by omega
  have hdiv : (2 * turns + 2 + 1) / 2 = turns + 1 := by omega
  rw [distance, hmod, hdiv]
  cases is_left <;> simp

def order (is_left : Bool) (a j : ℕ) : ℕ :=
  if (decide (j % 2 = 1)).xor is_left then a + (j + 1) / 2 else a - (j + 1) / 2

/-- The first of the columns that a form has taken. -/
def low (is_left : Bool) (a k : ℕ) : ℕ :=
  if is_left then a - (k + 1) / 2 else a - k / 2

end Pn

section Gauss

variable {K : Type*} [Field K] {xy : XY K}

theorem image_order (is_left : Bool) {a k : ℕ} (hk : k ≤ 2 * a) :
    (range (k + 1)).image (Pn.order is_left a) =
      Ico (Pn.low is_left a k) (Pn.low is_left a k + k + 1) := by
  ext i
  simp only [mem_image, mem_range, mem_Ico, Pn.low, Pn.order]
  cases is_left
  · simp only [Bool.xor_false, decide_eq_true_eq, if_neg Bool.false_ne_true]
    constructor
    · rintro ⟨j, hj, rfl⟩
      split_ifs <;> omega
    · rintro ⟨hlow, hhigh⟩
      rcases Nat.lt_or_ge a i with hi | hi
      · exact ⟨2 * (i - a) - 1, by omega, by rw [if_pos] <;> omega⟩
      · exact ⟨2 * (a - i), by omega, by rw [if_neg] <;> omega⟩
  · simp only [Bool.xor_true, Bool.not_eq_true', decide_eq_false_iff_not, if_true]
    constructor
    · rintro ⟨j, hj, rfl⟩
      split_ifs <;> omega
    · rintro ⟨hlow, hhigh⟩
      rcases Nat.lt_or_ge i a with hi | hi
      · exact ⟨2 * (a - i) - 1, by omega, by rw [if_neg] <;> omega⟩
      · exact ⟨2 * (i - a), by omega, by rw [if_pos] <;> omega⟩

/-- The product over the columns that a form takes before a difference. -/
def Pn.coefficient (is_left : Bool) (t_coef : K) (k : ℕ) : K :=
  (∏ j ∈ range k, (t_coef - Pn.distance is_left j)) / k.factorial

variable [CharZero K]

theorem Pn.coefficient_succ (is_left : Bool) (t_coef : K) (k : ℕ) :
    Pn.coefficient is_left t_coef (k + 1) =
      Pn.coefficient is_left t_coef k * (t_coef - Pn.distance is_left k) / (k + 1 : ℕ) := by
  have hk : ((k + 1 : ℕ) : K) ≠ 0 := Nat.cast_ne_zero.mpr k.succ_ne_zero
  have hfactorial : (k.factorial : K) ≠ 0 := Nat.cast_ne_zero.mpr k.factorial_ne_zero
  rw [coefficient, coefficient, prod_range_succ, Nat.factorial_succ, Nat.cast_mul]
  field_simp

theorem gaussT_eq (is_left : Bool) (t_coef : K) (turns : ℕ) :
    gaussT is_left t_coef turns =
      (List.range (2 * turns + 2)).map (Pn.coefficient is_left t_coef) := by
  induction turns with
  | zero => simp [gaussT, List.range_succ, Pn.coefficient, Pn.distance]
  | succ turns ih =>
    have hlast : ∀ k, ((List.range (k + 1)).map (Pn.coefficient is_left t_coef)).getLastD 0 =
        Pn.coefficient is_left t_coef k := by
      intro k
      rw [List.range_succ, List.map_append, List.map_singleton, List.getLastD_concat]
    have hodd : Pn.coefficient is_left t_coef (2 * turns + 1) *
        (if is_left then t_coef + (turns + 2 : ℕ) - 1 else t_coef - (turns + 2 : ℕ) + 1) /
          ((turns + 2 - 1) * 2 : ℕ) = Pn.coefficient is_left t_coef (2 * turns + 2) := by
      have hdivisor : (turns + 2 - 1) * 2 = 2 * turns + 1 + 1 := by omega
      rw [Pn.coefficient_succ is_left t_coef (2 * turns + 1), Pn.distance_odd, hdivisor]
      cases is_left
      · simp only [if_neg Bool.false_ne_true]
        push_cast
        ring
      · simp only [if_true]
        push_cast
        ring
    have heven : Pn.coefficient is_left t_coef (2 * turns + 2) *
        (if is_left then t_coef - (turns + 2 : ℕ) + 1 else t_coef + (turns + 2 : ℕ) - 1) /
          ((turns + 2 - 1) * 2 + 1 : ℕ) = Pn.coefficient is_left t_coef (2 * turns + 3) := by
      have hdivisor : (turns + 2 - 1) * 2 + 1 = 2 * turns + 2 + 1 := by omega
      rw [Pn.coefficient_succ is_left t_coef (2 * turns + 2), Pn.distance_even, hdivisor]
      cases is_left
      · simp only [if_neg Bool.false_ne_true]
        push_cast
        ring
      · simp only [if_true]
        push_cast
        ring
    have hrange : List.range (2 * (turns + 1) + 2) =
        List.range (2 * turns + 2) ++ [2 * turns + 2] ++ [2 * turns + 3] := by
      rw [← List.range_succ, ← List.range_succ]
      rfl
    rw [gaussT, ih, hlast, hodd, List.getLastD_concat, heven, hrange, List.map_append,
      List.map_append, List.map_singleton, List.map_singleton]

variable [LinearOrder K]

theorem Pn_eq_sum (hsize : 2 ≤ xy.size) (x : K) :
    Pn xy x = ∑ k ∈ range xy.size,
      Pn.coefficient (Pn.is_left xy x) ((x - xy.x (xy.size / 2)) / xy.step) k *
        dy xy (xy.size / 2 - k / 2) k := by
  have hfirst : ∀ g : ℕ → K, ∑ k ∈ range xy.size, g k = g 0 + ∑ k ∈ Ico 1 xy.size, g k := by
    intro g
    rw [range_eq_Ico, sum_eq_sum_Ico_succ_bot (by omega)]
  rw [Pn, hfirst]
  congr 1
  · simp [Pn.coefficient, dy]
  · refine sum_congr rfl fun k hk => ?_
    rw [mem_Ico] at hk
    rw [gaussT_eq, List.getD_eq_getElem?_getD, List.getElem?_map, List.getElem?_range (by omega),
      Option.map_some, Option.getD_some]

omit [CharZero K] in
theorem sub_order_div_step (hxy : xy.Spaced) (is_left : Bool) {j : ℕ}
    (hj : Pn.low is_left (xy.size / 2) j + j < xy.size) (x : K) :
    (x - xy.x (Pn.order is_left (xy.size / 2) j)) / xy.step =
      (x - xy.x (xy.size / 2)) / xy.step - Pn.distance is_left j := by
  have hh : xy.step ≠ 0 := hxy.increasing.ne'
  have hmem : Pn.order is_left (xy.size / 2) j ∈
      (range (j + 1)).image (Pn.order is_left (xy.size / 2)) :=
    mem_image_of_mem _ (self_mem_range_succ j)
  rw [image_order is_left (by omega), mem_Ico] at hmem
  have hcast : ((Pn.order is_left (xy.size / 2) j : ℕ) : K) =
      (xy.size / 2 : ℕ) + Pn.distance is_left j := by
    rw [Pn.order, Pn.distance]
    split_ifs
    · rw [Nat.cast_add, Int.cast_natCast]
    · rw [Nat.cast_sub (by omega), Int.cast_neg, Int.cast_natCast, sub_eq_add_neg]
  rw [hxy.equal _ (by omega), hcast, hxy.equal (xy.size / 2) (by omega)]
  field_simp
  ring

/-- The polynomial through the columns that a form has taken. -/
theorem eval_interpolate_order (hxy : xy.Spaced) (is_left : Bool) {m : ℕ} (hm : m ≤ xy.size)
    (hlow : ∀ k < m, Pn.low is_left (xy.size / 2) k + k < xy.size) (x : K) :
    (Lagrange.interpolate ((range m).image (Pn.order is_left (xy.size / 2))) xy.x xy.y).eval x =
      ∑ k ∈ range m, Pn.coefficient is_left ((x - xy.x (xy.size / 2)) / xy.step) k *
        dy xy (Pn.low is_left (xy.size / 2) k) k := by
  rw [eval_interpolate_image_eq hxy _ _ hlow fun k hk => image_order is_left (by omega)]
  refine sum_congr rfl fun k hk => ?_
  rw [mem_range] at hk
  rw [Pn.coefficient]
  congr 2
  refine prod_congr rfl fun j hj => ?_
  rw [mem_range] at hj
  exact sub_order_div_step hxy is_left (hlow j (by omega)) x

/-- What Lagrange's form is in terms of the differences that the left form is meant to read. -/
theorem Ln_eq_sum_left (hsize : 2 ≤ xy.size) (hxy : xy.Spaced) (x : K) :
    Ln xy x = ∑ k ∈ range xy.size,
      Pn.coefficient true ((x - xy.x (xy.size / 2)) / xy.step) k *
        dy xy (xy.size / 2 - (k + 1) / 2) k := by
  have himage : (range xy.size).image (Pn.order true (xy.size / 2)) = range xy.size := by
    have h := image_order true (a := xy.size / 2) (k := xy.size - 1) (by omega)
    have hlow : Pn.low true (xy.size / 2) (xy.size - 1) = 0 := by
      rw [Pn.low, if_pos rfl]
      omega
    have hpred : xy.size - 1 + 1 = xy.size := by omega
    rwa [hlow, Nat.zero_add, hpred, ← range_eq_Ico] at h
  have hsum := eval_interpolate_order hxy true le_rfl
    (fun k hk => by rw [Pn.low, if_pos rfl]; omega) x
  rw [himage] at hsum
  simp only [Pn.low, if_true] at hsum
  rw [Ln_eq, hsum]

/-- What the right form computes, with the first column left out of a table of even size. -/
theorem eval_interpolate_right (hsize : 2 ≤ xy.size) (hxy : xy.Spaced) (x : K) :
    (Lagrange.interpolate (Ico (1 - xy.size % 2) xy.size) xy.x xy.y).eval x =
      ∑ k ∈ range xy.size, Pn.coefficient false ((x - xy.x (xy.size / 2)) / xy.step) k *
        dy xy (xy.size / 2 - k / 2) k := by
  -- the last difference of a table of even size is below the diagonal
  have hlast : ∑ k ∈ range xy.size, Pn.coefficient false ((x - xy.x (xy.size / 2)) / xy.step) k *
      dy xy (xy.size / 2 - k / 2) k = ∑ k ∈ range (xy.size - (1 - xy.size % 2)),
        Pn.coefficient false ((x - xy.x (xy.size / 2)) / xy.step) k *
          dy xy (xy.size / 2 - k / 2) k := by
    refine (sum_subset (range_subset_range.mpr (Nat.sub_le _ _)) fun k hk hnot => ?_).symm
    rw [mem_range] at hk hnot
    rw [dy_eq_zero (by omega) (by omega), mul_zero]
  have himage : (range (xy.size - (1 - xy.size % 2))).image (Pn.order false (xy.size / 2)) =
      Ico (1 - xy.size % 2) xy.size := by
    have h := image_order false (a := xy.size / 2) (k := xy.size - (1 - xy.size % 2) - 1)
      (by omega)
    have hlow : Pn.low false (xy.size / 2) (xy.size - (1 - xy.size % 2) - 1) =
        1 - xy.size % 2 := by
      rw [Pn.low, if_neg Bool.false_ne_true]
      omega
    have hpred : xy.size - (1 - xy.size % 2) - 1 + 1 = xy.size - (1 - xy.size % 2) := by omega
    have hend : 1 - xy.size % 2 + (xy.size - (1 - xy.size % 2) - 1) + 1 = xy.size := by omega
    rwa [hlow, hpred, hend] at h
  have hsum := eval_interpolate_order hxy false (Nat.sub_le xy.size (1 - xy.size % 2))
    (fun k hk => by rw [Pn.low, if_neg Bool.false_ne_true]; omega) x
  rw [himage] at hsum
  simp only [Pn.low, if_neg Bool.false_ne_true] at hsum
  rw [hlast, hsum]

/-! ### Where the forms are right -/

theorem Pn_right_eq_Ln_iff (hsize : 2 ≤ xy.size) (hxy : xy.Spaced) {x : K}
    (hx : Pn.is_left xy x = false) :
    Pn xy x = Ln xy x ↔
      Odd xy.size ∨ dy xy 0 (xy.size - 1) = 0 ∨ ∃ i ∈ Ico 1 xy.size, x = xy.x i := by
  have hright : Pn xy x =
      (Lagrange.interpolate (Ico (1 - xy.size % 2) xy.size) xy.x xy.y).eval x := by
    rw [Pn_eq_sum hsize, hx, eval_interpolate_right hsize hxy]
  rcases Nat.even_or_odd xy.size with heven | hodd
  · have hh : xy.step ≠ 0 := hxy.increasing.ne'
    have hvalues : ∀ i ∈ Ico 0 (0 + (xy.size - 1) + 1), xy.x i = xy.x 0 + i * xy.step :=
      fun i hi => hxy.equal i (by rw [mem_Ico] at hi; omega)
    have hall : insert 0 (Ico 1 xy.size) = Ico 0 (0 + (xy.size - 1) + 1) := by
      ext i
      simp only [mem_insert, mem_Ico]
      omega
    have hrange : range xy.size = insert 0 (Ico 1 xy.size) := by
      rw [hall, range_eq_Ico]
      congr 1
      omega
    have hinj : Set.InjOn xy.x (insert 0 (Ico 1 xy.size) : Finset ℕ) := by
      rw [hall]
      exact injOn_of_spaced hh fun i hi => hvalues i (mem_coe.mp hi)
    have hdenominator : ((xy.size - 1).factorial : K) * xy.step ^ (xy.size - 1) ≠ 0 :=
      mul_ne_zero (Nat.cast_ne_zero.mpr (Nat.factorial_ne_zero _)) (pow_ne_zero _ hh)
    have hmod : 1 - xy.size % 2 = 1 := by
      rw [Nat.even_iff.mp heven]
    rw [hright, hmod, Ln_eq, hrange, interpolate_insert xy.y (by simp) hinj, Polynomial.eval_add,
      left_eq_add, Polynomial.eval_mul, Polynomial.eval_C, mul_eq_zero, Lagrange.eval_nodal,
      prod_eq_zero_iff, hall, dividedDiff_Ico xy.y hh 0 (xy.size - 1) hvalues,
      ← dy_eq (by omega), div_eq_zero_iff, or_iff_left hdenominator,
      or_iff_right (Nat.not_odd_iff_even.mpr heven)]
    simp only [sub_eq_zero]
  · have hmod : 1 - xy.size % 2 = 0 := by
      rw [Nat.odd_iff.mp hodd]
    rw [hright, hmod, Ln_eq, range_eq_Ico]
    exact iff_of_true rfl (Or.inl hodd)

/-- What the left form reads, less what it is meant to read. -/
theorem Pn_left_sub_Ln (hsize : 2 ≤ xy.size) (hxy : xy.Spaced) {x : K}
    (hx : Pn.is_left xy x = true) :
    Pn xy x - Ln xy x = ∑ m ∈ range (xy.size / 2),
      Pn.coefficient true ((x - xy.x (xy.size / 2)) / xy.step) (2 * m + 1) *
        (dy xy (xy.size / 2 - m) (2 * m + 1) - dy xy (xy.size / 2 - (m + 1)) (2 * m + 1)) := by
  have hsub : Pn xy x - Ln xy x = ∑ k ∈ range xy.size,
      Pn.coefficient true ((x - xy.x (xy.size / 2)) / xy.step) k *
        (dy xy (xy.size / 2 - k / 2) k - dy xy (xy.size / 2 - (k + 1) / 2) k) := by
    rw [Pn_eq_sum hsize, hx, Ln_eq_sum_left hsize hxy, ← sum_sub_distrib]
    refine sum_congr rfl fun k _ => ?_
    rw [mul_sub]
  have hodd : (range (xy.size / 2)).image (fun m => 2 * m + 1) ⊆ range xy.size := by
    intro k hk
    obtain ⟨m, hm, rfl⟩ := mem_image.mp hk
    rw [mem_range] at hm ⊢
    omega
  rw [hsub, ← sum_subset hodd, sum_image fun _ _ _ _ h => by omega]
  · refine sum_congr rfl fun m _ => ?_
    have hread : (2 * m + 1) / 2 = m := by omega
    have hmeant : (2 * m + 1 + 1) / 2 = m + 1 := by omega
    rw [hread, hmeant]
  · -- both rows are the same in an even column
    intro k hk hnot
    have heven : k / 2 = (k + 1) / 2 := by
      by_contra hne
      rw [mem_range] at hk
      exact hnot (mem_image.mpr ⟨k / 2, mem_range.mpr (by omega), by omega⟩)
    rw [heven, sub_self, mul_zero]

omit [CharZero K] in
/-- The coefficient of an odd difference is the product over the columns at most half as far
from the central one. -/
theorem coefficient_left_odd (hxy : xy.Spaced) {m : ℕ} (hm : m < xy.size / 2) (x : K) :
    Pn.coefficient true ((x - xy.x (xy.size / 2)) / xy.step) (2 * m + 1) =
      (∏ i ∈ Icc (xy.size / 2 - m) (xy.size / 2 + m), (x - xy.x i) / xy.step) /
        (2 * m + 1).factorial := by
  have himage : (range (2 * m + 1)).image (Pn.order true (xy.size / 2)) =
      Icc (xy.size / 2 - m) (xy.size / 2 + m) := by
    rw [image_order true (by omega), Pn.low, if_pos rfl]
    ext i
    simp only [mem_Ico, mem_Icc]
    omega
  have hinj : Set.InjOn (Pn.order true (xy.size / 2)) (range (2 * m + 1) : Finset ℕ) := by
    rw [← card_image_iff, himage, Nat.card_Icc, card_range]
    omega
  rw [Pn.coefficient, ← himage, prod_image hinj]
  congr 1
  refine prod_congr rfl fun j hj => ?_
  rw [mem_range] at hj
  rw [sub_order_div_step hxy true (by rw [Pn.low, if_pos rfl]; omega)]

/-- At the nodes to the left of the central one, from there outwards, one more coefficient at
a time is not zero. -/
theorem coefficient_left_node (hxy : xy.Spaced) {m i : ℕ} (hm : m < xy.size / 2)
    (hi : 1 ≤ i) (hia : i ≤ xy.size / 2) :
    Pn.coefficient true ((xy.x (xy.size / 2 - i) - xy.x (xy.size / 2)) / xy.step) (2 * m + 1) = 0 ↔
      i ≤ m := by
  have hh : xy.step ≠ 0 := hxy.increasing.ne'
  have hfactorial : ((2 * m + 1).factorial : K) ≠ 0 :=
    Nat.cast_ne_zero.mpr (2 * m + 1).factorial_ne_zero
  rw [coefficient_left_odd hxy hm, div_eq_zero_iff, or_iff_left hfactorial, prod_eq_zero_iff]
  constructor
  · rintro ⟨j, hj, hzero⟩
    rw [mem_Icc] at hj
    rw [div_eq_zero_iff, or_iff_left hh, sub_eq_zero] at hzero
    have hinj := injOn_of_spaced (s := (range xy.size : Finset ℕ)) hh
      fun k hk => hxy.equal k (mem_range.mp (mem_coe.mp hk))
    have heq : xy.size / 2 - i = j := hinj (mem_coe.mpr (mem_range.mpr (by omega)))
      (mem_coe.mpr (mem_range.mpr (by omega))) hzero
    omega
  · intro him
    refine ⟨xy.size / 2 - i, mem_Icc.mpr ⟨by omega, by omega⟩, ?_⟩
    rw [sub_self, zero_div]

variable [IsStrictOrderedRing K]

omit [CharZero K] in
theorem XY.Spaced.lt (hxy : xy.Spaced) {i j : ℕ} (hij : i < j) (hj : j < xy.size) :
    xy.x i < xy.x j := by
  rw [hxy.equal i (by omega), hxy.equal j hj]
  exact add_lt_add_right (mul_lt_mul_of_pos_right (Nat.cast_lt.mpr hij) hxy.increasing) _

/-- The left form at all nodes to the left. -/
theorem rows_eq_of_forall_left (hsize : 2 ≤ xy.size) (hxy : xy.Spaced)
    (hall : ∀ x, Pn.is_left xy x = true → Pn xy x = Ln xy x) {m : ℕ} (hm : m < xy.size / 2) :
    dy xy (xy.size / 2 - m) (2 * m + 1) = dy xy (xy.size / 2 - (m + 1)) (2 * m + 1) := by
  induction m using Nat.strong_induction_on with
  | _ m ih =>
    have hleft : Pn.is_left xy (xy.x (xy.size / 2 - (m + 1))) = true :=
      decide_eq_true (hxy.lt (by omega) (by omega))
    have hsum := Pn_left_sub_Ln hsize hxy hleft
    have hcoefficient := mt (coefficient_left_node hxy hm (i := m + 1) (by omega) (by omega)).mp
      (by omega)
    rw [hall _ hleft, sub_self, sum_eq_single_of_mem m (mem_range.mpr hm)] at hsum
    · exact sub_eq_zero.mp ((mul_eq_zero.mp hsum.symm).resolve_left hcoefficient)
    · intro m' hm' hne
      rw [mem_range] at hm'
      rcases Nat.lt_or_gt_of_ne hne with hlt | hgt
      · rw [ih m' hlt hm', sub_self, mul_zero]
      · rw [(coefficient_left_node hxy hm' (by omega) (by omega)).mpr (by omega), zero_mul]

/-- To the right, a table of odd size, a last difference of zero and the later nodes. To the
left, a sum of zero over what the odd differences miss. Everywhere, no odd difference that
misses anything. -/
theorem Pn_eq_Ln_iff (hsize : 2 ≤ xy.size) (hxy : xy.Spaced) :
    (∀ x, xy.x (xy.size / 2) ≤ x → (Pn xy x = Ln xy x ↔
      Odd xy.size ∨ dy xy 0 (xy.size - 1) = 0 ∨ ∃ i ∈ Ico 1 xy.size, x = xy.x i)) ∧
    (∀ x < xy.x (xy.size / 2), (Pn xy x = Ln xy x ↔
      ∑ m ∈ range (xy.size / 2),
        (∏ i ∈ Icc (xy.size / 2 - m) (xy.size / 2 + m), (x - xy.x i) / xy.step) /
          (2 * m + 1).factorial *
          (dy xy (xy.size / 2 - m) (2 * m + 1) - dy xy (xy.size / 2 - (m + 1)) (2 * m + 1)) =
        0)) ∧
    ((∀ x, Pn xy x = Ln xy x) ↔ ∀ m < xy.size / 2,
      dy xy (xy.size / 2 - m) (2 * m + 1) = dy xy (xy.size / 2 - (m + 1)) (2 * m + 1)) := by
  refine ⟨fun x hx => Pn_right_eq_Ln_iff hsize hxy (decide_eq_false hx.not_gt), fun x hx => ?_,
    fun hall m hm => rows_eq_of_forall_left hsize hxy (fun x _ => hall x) hm, fun hrows x => ?_⟩
  · rw [← sub_eq_zero, Pn_left_sub_Ln hsize hxy (decide_eq_true hx)]
    refine Eq.congr_left (sum_congr rfl fun m hm => ?_)
    rw [coefficient_left_odd hxy (mem_range.mp hm)]
  · cases hx : Pn.is_left xy x
    · rw [Pn_right_eq_Ln_iff hsize hxy hx]
      rcases Nat.even_or_odd xy.size with heven | hodd
      · -- the last row that is read is below the diagonal
        have hmod := Nat.even_iff.mp heven
        have hlast := hrows (xy.size / 2 - 1) (by omega)
        have hcolumn : 2 * (xy.size / 2 - 1) + 1 = xy.size - 1 := by omega
        have hfirst : xy.size / 2 - (xy.size / 2 - 1 + 1) = 0 := by omega
        rw [hcolumn, hfirst, dy_eq_zero (by omega) (by omega)] at hlast
        exact Or.inr (Or.inl hlast.symm)
      · exact Or.inl hodd
    · rw [← sub_eq_zero, Pn_left_sub_Ln hsize hxy hx]
      refine sum_eq_zero fun m hm => ?_
      rw [hrows m (mem_range.mp hm), sub_self, mul_zero]

/-- Left of the central point, the parabola is not met even at a node. -/
theorem Pn_ne_Ln_parabola :
    ∃ (xy : XY ℚ) (x : ℚ), 2 ≤ xy.size ∧ xy.Spaced ∧ Pn xy x ≠ Ln xy x :=
  ⟨parabola, 0, Nat.le_succ 2, parabola_spaced, by decide +kernel⟩

/-- Right of it, it is met. -/
theorem Pn_eq_Ln_parabola : Pn parabola (5 / 3) = Ln parabola (5 / 3) := by
  have hx : parabola.x (parabola.size / 2) ≤ 5 / 3 := by decide +kernel
  exact ((Pn_eq_Ln_iff (Nat.le_succ 2) parabola_spaced).1 (5 / 3) hx).mpr (Or.inl (by decide))

end Gauss

end Itmo.Vmath
