import Mathlib.Data.List.Basic
import Mathlib.Data.Nat.ModEq

/-! Sorting by distribution. A pass puts each element at the end of the bucket its key names and
then lines the buckets up. It is stable: elements of one bucket keep their order. So passes over
the digits of a number, from the least one on, leave the elements in the order of the number. -/

namespace Itmo.Lib.Buckets

variable {α : Type*}

/-- Adds at the end of one bucket. -/
def put (buckets : List (List α)) (j : ℕ) (a : α) : List (List α) :=
  buckets.modify j fun bucket => bucket ++ [a]

section Pass

variable (key : α → ℕ) (n : ℕ) (l : List α)

def distribute : List (List α) := (List.range n).map fun j => l.filter fun a => key a = j

def pass : List α := (distribute key n l).flatten

@[simp] theorem length_distribute : (distribute key n l).length = n := by
  rw [distribute, List.length_map, List.length_range]

theorem distribute_nil : distribute key n [] = List.replicate n [] := by
  simp [distribute, List.map_const']

/-- The next element goes to its own bucket. -/
theorem put_distribute (a : α) :
    put (distribute key n l) (key a) a = distribute key n (l ++ [a]) := by
  rw [put, distribute, distribute]
  refine List.ext_getElem (by rw [List.length_modify, List.length_map, List.length_map])
    fun j hj _ => ?_
  rw [List.getElem_modify, List.getElem_map, List.getElem_map, List.getElem_range,
    List.filter_append]
  by_cases h : key a = j
  · rw [if_pos h, List.filter_singleton, decide_eq_true h]
    rfl
  · rw [if_neg h, List.filter_singleton, decide_eq_false h]
    exact (List.append_nil _).symm

variable {key n l}

theorem pass_succ : pass key (n + 1) l = pass key n l ++ l.filter fun a => key a = n := by
  simp [pass, distribute, List.range_succ]

/-- Elements whose key names no bucket are left out. -/
theorem pass_perm_filter : (pass key n l).Perm (l.filter fun a => key a < n) := by
  induction n with
  | zero => simp [pass, distribute]
  | succ n ih =>
    rw [pass_succ]
    have hsplit := List.filter_append_perm (fun a => decide (key a < n))
      (l.filter fun a => key a < n + 1)
    rw [List.filter_filter, List.filter_filter] at hsplit
    have hbelow : (l.filter fun a => key a < n) =
        l.filter fun a => decide (key a < n) && decide (key a < n + 1) := by
      refine List.filter_congr fun a _ => ?_
      rw [← Bool.decide_and, decide_eq_decide]
      omega
    have hlast : (l.filter fun a => key a = n) =
        l.filter fun a => !decide (key a < n) && decide (key a < n + 1) := by
      refine List.filter_congr fun a _ => ?_
      rw [← decide_not, ← Bool.decide_and, decide_eq_decide]
      omega
    rw [← hbelow, ← hlast] at hsplit
    exact (ih.append_right _).trans hsplit

theorem pass_perm (hkey : ∀ a ∈ l, key a < n) : (pass key n l).Perm l := by
  refine pass_perm_filter.trans (List.Perm.of_eq ?_)
  exact List.filter_eq_self.mpr fun a ha => decide_eq_true (hkey a ha)

/-- After a pass the keys decide, and where they agree, the order before. -/
theorem pass_pairwise {r : α → α → Prop} (hl : l.Pairwise r) :
    (pass key n l).Pairwise fun a b => key a < key b ∨ key a = key b ∧ r a b := by
  induction n with
  | zero => simp [pass, distribute]
  | succ n ih =>
    rw [pass_succ, List.pairwise_append]
    refine ⟨ih, ?_, ?_⟩
    · refine (hl.filter _).imp_of_mem fun ha hb hab => Or.inr ⟨?_, hab⟩
      rw [of_decide_eq_true (List.mem_filter.mp ha).2, of_decide_eq_true (List.mem_filter.mp hb).2]
    · intro a ha b hb
      have hmem := List.mem_filter.mp (pass_perm_filter.mem_iff.mp ha)
      have hlt : key a < n := of_decide_eq_true hmem.2
      rw [of_decide_eq_true (List.mem_filter.mp hb).2]
      exact Or.inl hlt

/-- Elements of one key keep their order. -/
theorem pass_filter {p : α → Bool} {j : ℕ} (hj : j < n) (hp : ∀ a ∈ l, p a → key a = j) :
    (pass key n l).filter p = l.filter p := by
  induction n with
  | zero => omega
  | succ n ih =>
    rw [pass_succ, List.filter_append, List.filter_filter]
    rcases Nat.lt_succ_iff_lt_or_eq.mp hj with hlt | rfl
    · have hlast : (l.filter fun a => p a && decide (key a = n)) = [] := by
        rw [List.filter_eq_nil_iff]
        intro a ha hpa
        rw [Bool.and_eq_true, decide_eq_true_eq] at hpa
        have hkey := hp a ha hpa.1
        omega
      rw [ih hlt, hlast, List.append_nil]
    · have hbefore : (pass key j l).filter p = [] := by
        rw [List.filter_eq_nil_iff]
        intro a ha hpa
        have hmem := List.mem_filter.mp (pass_perm_filter.mem_iff.mp ha)
        have hkey := hp a hmem.1 hpa
        exact absurd (of_decide_eq_true hmem.2) (by omega)
      rw [hbefore, List.nil_append]
      refine List.filter_congr fun a ha => ?_
      by_cases hpa : p a
      · rw [hp a ha hpa, decide_eq_true rfl, Bool.and_true]
      · rw [Bool.eq_false_iff.mpr hpa, Bool.false_and]

end Pass

section Passes

variable (value : α → ℕ) (base : ℕ)

def digit (i : ℕ) (a : α) : ℕ := value a / base ^ i % base

/-- Passes over the digits, from the least one on. -/
def passes : ℕ → List α → List α
  | 0, l => l
  | i + 1, l => pass (digit value base i) base (passes i l)

variable {value base} {l : List α}

theorem passes_perm (hbase : 0 < base) (i : ℕ) : (passes value base i l).Perm l := by
  induction i with
  | zero => exact List.Perm.refl l
  | succ i ih => exact (pass_perm fun a _ => Nat.mod_lt _ hbase).trans ih

/-- Elements of one value keep their order. -/
theorem passes_filter {p : α → Bool} {v : ℕ} (hbase : 0 < base) (hp : ∀ a ∈ l, p a → value a = v)
    (i : ℕ) : (passes value base i l).filter p = l.filter p := by
  induction i with
  | zero => rfl
  | succ i ih =>
    have hdigit : ∀ a ∈ passes value base i l, p a →
        digit value base i a = v / base ^ i % base := by
      intro a ha hpa
      rw [digit, hp a ((passes_perm hbase i).mem_iff.mp ha) hpa]
    rw [passes, pass_filter (Nat.mod_lt _ hbase) hdigit, ih]

/-- Of two numbers, the next digit decides, and where they agree in it, the digits before. -/
theorem mod_pow_succ_le {m n i : ℕ} (hbase : 0 < base)
    (h : m / base ^ i % base < n / base ^ i % base ∨
      m / base ^ i % base = n / base ^ i % base ∧ m % base ^ i ≤ n % base ^ i) :
    m % base ^ (i + 1) ≤ n % base ^ (i + 1) := by
  rw [Nat.mod_pow_succ, Nat.mod_pow_succ]
  rcases h with hlt | ⟨heq, hle⟩
  · have hrest : m % base ^ i < base ^ i := Nat.mod_lt _ (Nat.pow_pos hbase)
    calc m % base ^ i + base ^ i * (m / base ^ i % base)
        ≤ base ^ i * (m / base ^ i % base + 1) := by
          rw [mul_add_one]
          omega
      _ ≤ base ^ i * (n / base ^ i % base) := Nat.mul_le_mul_left _ hlt
      _ ≤ n % base ^ i + base ^ i * (n / base ^ i % base) := Nat.le_add_left _ _
  · rw [heq]
    exact Nat.add_le_add_right hle _

theorem passes_pairwise (hbase : 0 < base) (i : ℕ) : (passes value base i l).Pairwise fun a b =>
    value a % base ^ i ≤ value b % base ^ i := by
  induction i with
  | zero => simp [Nat.mod_one, List.pairwise_of_forall]
  | succ i ih => exact (pass_pairwise ih).imp fun h => mod_pow_succ_le hbase h

/-- As many passes as the numbers have digits sort. -/
theorem passes_sorted {i : ℕ} (hbase : 0 < base) (hvalue : ∀ a ∈ l, value a < base ^ i) :
    (passes value base i l).Pairwise fun a b => value a ≤ value b := by
  refine (passes_pairwise hbase i).imp_of_mem fun ha hb hab => ?_
  rwa [Nat.mod_eq_of_lt (hvalue _ ((passes_perm hbase i).mem_iff.mp ha)),
    Nat.mod_eq_of_lt (hvalue _ ((passes_perm hbase i).mem_iff.mp hb))] at hab

end Passes

end Itmo.Lib.Buckets
