import Mathlib.Algebra.Group.ForwardDiff
import Mathlib.LinearAlgebra.Lagrange

/-! The polynomial through given points, point by point. A point that is added brings a
multiple of the product of the linear factors of the points before it, by the divided
difference of all of them, so Newton's formula holds for the points in any order. Over
equally spaced nodes the divided differences are finite differences. -/

namespace Itmo.Lib

open Polynomial Finset

section Points

variable {ι F : Type*} [DecidableEq ι] [Field F] {s : Finset ι} {v : ι → F}

/-- The coefficient of the highest power that the polynomial through the points can have. -/
noncomputable def dividedDiff (v r : ι → F) (s : Finset ι) : F :=
  (Lagrange.interpolate s v r).coeff (#s - 1)

theorem dividedDiff_singleton (v r : ι → F) (i : ι) : dividedDiff v r {i} = r i := by
  rw [dividedDiff, Lagrange.interpolate_singleton, card_singleton, Nat.sub_self, coeff_C_zero]

/-- A point more. -/
theorem interpolate_insert (r : ι → F) {i : ι} (hi : i ∉ s)
    (hv : Set.InjOn v (insert i s : Finset ι)) :
    Lagrange.interpolate (insert i s) v r = Lagrange.interpolate s v r +
      C (dividedDiff v r (insert i s)) * Lagrange.nodal s v := by
  have hcard : #(insert i s) = #s + 1 := card_insert_of_notMem hi
  have hmono : Set.InjOn v s := hv.mono (coe_subset.mpr (subset_insert i s))
  have hmonic : (Lagrange.nodal s v).coeff #s = 1 := by
    have h := Lagrange.nodal_monic (s := s) (v := v)
    rwa [Monic, leadingCoeff, Lagrange.natDegree_nodal] at h
  rw [← sub_eq_iff_eq_add]
  refine Lagrange.eq_interpolate_of_eval_eq r hmono ?_ fun j hj => ?_
  · -- the coefficients at the size of the set cancel
    refine (degree_lt_iff_coeff_zero _ _).mpr fun m hm => ?_
    rw [coeff_sub, coeff_C_mul]
    rcases hm.eq_or_lt with rfl | hlt
    · rw [hmonic, mul_one, dividedDiff, hcard, Nat.add_sub_cancel, sub_self]
    · have hinterpolate : (Lagrange.interpolate (insert i s) v r).coeff m = 0 := by
        refine coeff_eq_zero_of_degree_lt ((Lagrange.degree_interpolate_lt r hv).trans_le ?_)
        rw [hcard]
        exact Nat.cast_le.mpr hlt
      have hnodal : (Lagrange.nodal s v).coeff m = 0 := by
        refine coeff_eq_zero_of_degree_lt ?_
        rw [Lagrange.degree_nodal]
        exact Nat.cast_lt.mpr hlt
      rw [hinterpolate, hnodal, mul_zero, sub_zero]
  · rw [eval_sub, eval_mul, Lagrange.eval_nodal_at_node hj, mul_zero, sub_zero,
      Lagrange.eval_interpolate_at_node r hv (mem_insert_of_mem hj)]

/-- Newton's formula, with the points in any order. -/
theorem eval_interpolate_image (r : ι → F) (order : ℕ → ι) {n : ℕ}
    (hv : Set.InjOn (v ∘ order) (range n : Finset ℕ)) (x : F) :
    (Lagrange.interpolate ((range n).image order) v r).eval x =
      ∑ k ∈ range n, dividedDiff v r ((range (k + 1)).image order) *
        ∏ j ∈ range k, (x - v (order j)) := by
  induction n with
  | zero => simp
  | succ n ih =>
    have hmono : Set.InjOn (v ∘ order) (range n : Finset ℕ) :=
      hv.mono (coe_subset.mpr (range_subset_range.mpr n.le_succ))
    have horder : Set.InjOn order (range (n + 1) : Finset ℕ) := hv.of_comp
    have hnew : order n ∉ (range n).image order := by
      intro hmem
      obtain ⟨j, hj, hjn⟩ := mem_image.mp hmem
      have hlt := mem_range.mp hj
      have heq : j = n := horder (mem_coe.mpr (mem_range.mpr (by omega)))
        (mem_coe.mpr (self_mem_range_succ n)) hjn
      omega
    have hnodes : Set.InjOn v ((range (n + 1)).image order : Finset ι) := by
      rw [coe_image]
      exact hv.image_of_comp
    have himage : (range (n + 1)).image order = insert (order n) ((range n).image order) := by
      rw [range_add_one, image_insert]
    have hprod : (Lagrange.nodal ((range n).image order) v).eval x =
        ∏ j ∈ range n, (x - v (order j)) := by
      rw [Lagrange.eval_nodal, prod_image]
      exact horder.mono (coe_subset.mpr (range_subset_range.mpr n.le_succ))
    rw [himage] at hnodes
    rw [sum_range_succ, ← ih hmono, himage, interpolate_insert r hnew hnodes, eval_add, eval_mul,
      eval_C, hprod]

/-- The recursion of the divided differences, on any two of the points. -/
theorem dividedDiff_eq_div (r : ι → F) (hv : Set.InjOn v s) {i j : ι} (hi : i ∈ s) (hj : j ∈ s)
    (hij : i ≠ j) :
    dividedDiff v r s =
      (dividedDiff v r (s.erase i) - dividedDiff v r (s.erase j)) / (v j - v i) := by
  have hcard : 2 ≤ #s := by
    rw [← Finset.card_pair hij]
    exact card_le_card (insert_subset_iff.mpr ⟨hi, singleton_subset_iff.mpr hj⟩)
  have hv' : v i ≠ v j := fun h => hij (hv hi hj h)
  have hne : v j - v i ≠ 0 := sub_ne_zero.mpr hv'.symm
  have hne' : v i - v j ≠ 0 := sub_ne_zero.mpr hv'
  -- the coefficient of a product with the linear factor of a point that was left out
  have hcoeff : ∀ (k : ι) (_ : k ∈ s) (x y : F),
      (Lagrange.interpolate (s.erase k) v r * Lagrange.basisDivisor x y).coeff (#s - 1) =
        (x - y)⁻¹ * dividedDiff v r (s.erase k) := by
    intro k hk x y
    have herase : #(s.erase k) = #s - 1 := card_erase_of_mem hk
    have htop : (Lagrange.interpolate (s.erase k) v r).coeff (#s - 1) = 0 := by
      refine coeff_eq_zero_of_degree_lt ?_
      rw [← herase]
      exact Lagrange.degree_interpolate_lt r (hv.mono (coe_subset.mpr (erase_subset k s)))
    have hstep : #s - 1 = #(s.erase k) - 1 + 1 := by omega
    rw [Lagrange.basisDivisor, mul_left_comm, coeff_C_mul, mul_sub, coeff_sub, coeff_mul_C, htop,
      zero_mul, sub_zero, hstep, coeff_mul_X, dividedDiff]
  rw [dividedDiff, Lagrange.interpolate_eq_add_interpolate_erase r hv hi hj hij, coeff_add,
    hcoeff j hj, hcoeff i hi]
  field_simp
  ring

/-- Over neighbours, the first and the last are left out in turn. -/
theorem dividedDiff_Ico_succ {v : ℕ → F} (r : ℕ → F) (a k : ℕ)
    (hv : Set.InjOn v (Ico a (a + (k + 1) + 1) : Finset ℕ)) :
    dividedDiff v r (Ico a (a + (k + 1) + 1)) =
      (dividedDiff v r (Ico (a + 1) (a + 1 + k + 1)) - dividedDiff v r (Ico a (a + k + 1))) /
        (v (a + (k + 1)) - v a) := by
  have hfirst : a ∈ Ico a (a + (k + 1) + 1) := mem_Ico.mpr ⟨le_rfl, by omega⟩
  have hlast : a + (k + 1) ∈ Ico a (a + (k + 1) + 1) := mem_Ico.mpr ⟨by omega, by omega⟩
  have herase : (Ico a (a + (k + 1) + 1)).erase a = Ico (a + 1) (a + 1 + k + 1) := by
    ext i
    simp only [mem_erase, mem_Ico]
    omega
  have herase' : (Ico a (a + (k + 1) + 1)).erase (a + (k + 1)) = Ico a (a + k + 1) := by
    ext i
    simp only [mem_erase, mem_Ico]
    omega
  rw [dividedDiff_eq_div r hv hfirst hlast (by omega), herase, herase']

end Points

/-! ### Equally spaced nodes -/

section Spaced

variable {F : Type*} [Field F] [CharZero F] {v : ℕ → F} {c h : F}

theorem injOn_of_spaced {s : Set ℕ} (hh : h ≠ 0) (hv : ∀ i ∈ s, v i = c + i * h) :
    Set.InjOn v s := by
  intro i hi j hj hij
  rw [hv i hi, hv j hj, add_right_inj] at hij
  exact Nat.cast_injective (mul_right_cancel₀ hh hij)

/-- A divided difference over neighbours is a finite difference. -/
theorem dividedDiff_Ico (r : ℕ → F) (hh : h ≠ 0) (a k : ℕ)
    (hv : ∀ i ∈ Ico a (a + k + 1), v i = c + i * h) :
    dividedDiff v r (Ico a (a + k + 1)) = (fwdDiff 1)^[k] r a / (k.factorial * h ^ k) := by
  induction k generalizing a with
  | zero =>
    rw [Nat.add_zero, Nat.Ico_succ_singleton, dividedDiff_singleton]
    simp
  | succ k ih =>
    have hinj : Set.InjOn v (Ico a (a + (k + 1) + 1) : Finset ℕ) :=
      injOn_of_spaced hh fun i hi => hv i (mem_coe.mp hi)
    have hspan : v (a + (k + 1)) - v a = ((k + 1 : ℕ) : F) * h := by
      rw [hv (a + (k + 1)) (mem_Ico.mpr ⟨by omega, by omega⟩),
        hv a (mem_Ico.mpr ⟨le_rfl, by omega⟩)]
      push_cast
      ring
    have hright := ih (a + 1) fun i hi => hv i (by rw [mem_Ico] at hi ⊢; omega)
    have hleft := ih a fun i hi => hv i (by rw [mem_Ico] at hi ⊢; omega)
    have hk : ((k + 1 : ℕ) : F) ≠ 0 := Nat.cast_ne_zero.mpr k.succ_ne_zero
    have hfactorial : (k.factorial : F) ≠ 0 := Nat.cast_ne_zero.mpr k.factorial_ne_zero
    rw [dividedDiff_Ico_succ r a k hinj, hright, hleft, hspan, Function.iterate_succ_apply',
      fwdDiff, Nat.factorial_succ, Nat.cast_mul]
    field_simp
    ring

/-- Newton's formula with finite differences: the points are neighbours at every stage, and
`low` is the first of them. -/
theorem eval_interpolate_spaced (r : ℕ → F) (hh : h ≠ 0) (order low : ℕ → ℕ) {n : ℕ}
    (hvalues : ∀ k < n, v (order k) = c + order k * h)
    (himage : ∀ k < n, (range (k + 1)).image order = Ico (low k) (low k + k + 1)) (x : F) :
    (Lagrange.interpolate ((range n).image order) v r).eval x =
      ∑ k ∈ range n, (∏ j ∈ range k, (x - v (order j)) / h) / k.factorial *
        (fwdDiff 1)^[k] r (low k) := by
  have horder : Set.InjOn order (range n : Finset ℕ) := by
    cases n with
    | zero => simp
    | succ n =>
      rw [← card_image_iff, himage n n.lt_succ_self, Nat.card_Ico, card_range]
      omega
  have hv : Set.InjOn (v ∘ order) (range n : Finset ℕ) := by
    intro i hi j hj hij
    refine horder hi hj ?_
    rw [Function.comp_apply, Function.comp_apply, hvalues i (mem_range.mp (mem_coe.mp hi)),
      hvalues j (mem_range.mp (mem_coe.mp hj)), add_right_inj] at hij
    exact Nat.cast_injective (mul_right_cancel₀ hh hij)
  rw [eval_interpolate_image r order hv]
  refine sum_congr rfl fun k hk => ?_
  have hlt := mem_range.mp hk
  have hnodes : ∀ i ∈ Ico (low k) (low k + k + 1), v i = c + i * h := by
    intro i hi
    rw [← himage k hlt] at hi
    obtain ⟨j, hj, rfl⟩ := mem_image.mp hi
    exact hvalues j (by rw [mem_range] at hj; omega)
  have hfactorial : (k.factorial : F) ≠ 0 := Nat.cast_ne_zero.mpr k.factorial_ne_zero
  have hpow : h ^ k ≠ 0 := pow_ne_zero k hh
  rw [himage k hlt, dividedDiff_Ico r hh _ _ hnodes, prod_div_distrib, prod_const, card_range]
  field_simp

end Spaced

end Itmo.Lib
