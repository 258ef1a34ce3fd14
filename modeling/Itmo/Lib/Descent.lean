import Mathlib.Algebra.BigOperators.Fin
import Mathlib.Data.Real.Basic
import Mathlib.Data.Set.Finite.Basic
import Mathlib.Logic.Function.Iterate
import Mathlib.Order.Iterate
import Mathlib.Tactic

/-! The parts of a descent argument. A sequence that decreases a cost at every step
at which it moves, and that has finitely many values, comes to rest. The sum of the
squared deviations from a point is least at the mean and only there. A sum over a
list is the sum of the sums over its classes, and the first minimum of a list is
minimal. -/

namespace Itmo.Lib

/-! ### Coming to rest -/

/-- A step that lowers the cost wherever it moves, with finitely many values, moves
only finitely often. -/
theorem exists_iterate_fixed {α β : Type*} [Preorder β] (f : α → α) (cost : α → β) (a : α)
    (hcost : ∀ n, f (f^[n] a) ≠ f^[n] a → cost (f (f^[n] a)) < cost (f^[n] a))
    (hfinite : (Set.range f).Finite) : ∃ n, f (f^[n] a) = f^[n] a := by
  by_contra hmoves
  rw [not_exists] at hmoves
  have hanti : StrictAnti fun n => cost (f^[n] a) := by
    refine strictAnti_nat_of_succ_lt fun n => ?_
    rw [Function.iterate_succ_apply']
    exact hcost n (hmoves n)
  have hinj : Function.Injective fun n => f^[n + 1] a := by
    intro m n h
    have hcosts : cost (f^[m + 1] a) = cost (f^[n + 1] a) := congrArg cost h
    exact Nat.succ_injective (hanti.injective hcosts)
  refine Set.infinite_range_of_injective hinj (hfinite.subset ?_)
  rintro _ ⟨n, rfl⟩
  exact ⟨f^[n] a, (Function.iterate_succ_apply' f n a).symm⟩

/-! ### The mean -/

/-- The squared deviations from a point are those from the mean, and the deviation
of the point from the mean once for each value. -/
theorem sum_sub_sq (l : List ℝ) (hl : l ≠ []) (y : ℝ) :
    (l.map fun x => (x - y) ^ 2).sum =
      (l.map fun x => (x - l.sum / l.length) ^ 2).sum +
        l.length * (l.sum / l.length - y) ^ 2 := by
  have hexpand : ∀ (l : List ℝ) (z : ℝ), (l.map fun x => (x - z) ^ 2).sum =
      (l.map fun x => x ^ 2).sum - 2 * z * l.sum + l.length * z ^ 2 := by
    intro l z
    induction l with
    | nil => simp
    | cons x l ih =>
      simp only [List.map_cons, List.sum_cons, ih, List.length_cons, Nat.cast_succ]
      ring
  have hlength : (l.length : ℝ) ≠ 0 := by
    rw [Nat.cast_ne_zero]
    exact fun h => hl (List.length_eq_zero_iff.mp h)
  rw [hexpand, hexpand]
  field_simp
  ring

/-! ### Sums over classes -/

theorem sum_map_filter {α ι : Type*} [Fintype ι] [DecidableEq ι] (l : List α) (c : α → ι)
    (g : α → ℝ) : (l.map g).sum = ∑ j, ((l.filter (c · = j)).map g).sum := by
  induction l with
  | nil => simp
  | cons a l ih =>
    have hclass : ∀ j, (((a :: l).filter (c · = j)).map g).sum =
        (if c a = j then g a else 0) + ((l.filter (c · = j)).map g).sum := by
      intro j
      by_cases h : c a = j
      · rw [List.filter_cons_of_pos (by simpa using h), if_pos h, List.map_cons, List.sum_cons]
      · rw [List.filter_cons_of_neg (by simpa using h), if_neg h, zero_add]
    rw [List.map_cons, List.sum_cons, ih]
    simp only [hclass]
    rw [Finset.sum_add_distrib, Finset.sum_ite_eq]
    simp

theorem sum_map_comm {α ι : Type*} [Fintype ι] (l : List α) (g : α → ι → ℝ) :
    (l.map fun a => ∑ i, g a i).sum = ∑ i, (l.map fun a => g a i).sum := by
  induction l with
  | nil => simp
  | cons a l ih =>
    simp only [List.map_cons, List.sum_cons, ih]
    rw [Finset.sum_add_distrib]

/-! ### The first minimum -/

/-- `min` of a nonempty list by a key, as Python computes it. -/
def firstMin {α K : Type*} [LT K] [DecidableLT K] (key : α → K) : α → List α → α
  | best, [] => best
  | best, a :: rest => if key a < key best then firstMin key a rest else firstMin key best rest

theorem firstMin_mem {α K : Type*} [LT K] [DecidableLT K] (key : α → K) (best : α) (l : List α) :
    firstMin key best l ∈ best :: l := by
  induction l generalizing best with
  | nil => exact List.mem_singleton_self best
  | cons a rest ih =>
    unfold firstMin
    split_ifs
    · exact List.mem_cons_of_mem best (ih a)
    · rcases List.mem_cons.mp (ih best) with h | h
      · rw [h]
        exact List.mem_cons_self
      · exact List.mem_cons_of_mem best (List.mem_cons_of_mem a h)

theorem firstMin_le {α K : Type*} [LinearOrder K] (key : α → K) (best : α) (l : List α) :
    ∀ b ∈ best :: l, key (firstMin key best l) ≤ key b := by
  induction l generalizing best with
  | nil =>
    intro b hb
    rw [List.mem_singleton.mp hb]
    exact le_rfl
  | cons a rest ih =>
    intro b hb
    unfold firstMin
    split_ifs with h
    · rcases List.mem_cons.mp hb with rfl | hb
      · exact (ih a a List.mem_cons_self).trans h.le
      · exact ih a b hb
    · rcases List.mem_cons.mp hb with rfl | hb
      · exact ih b b List.mem_cons_self
      · rcases List.mem_cons.mp hb with rfl | hb
        · exact (ih best best List.mem_cons_self).trans (not_lt.mp h)
        · exact ih best b (List.mem_cons_of_mem _ hb)

end Itmo.Lib
