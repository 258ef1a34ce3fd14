import Mathlib.Data.List.Induction

/-! Removals from a list. A loop over the positions from the last down to the first
moves, when it removes an element, only positions that were visited before, so it leaves
what a filter keeps; and a list without the first element that meets a test is put
together from two filters. -/

namespace Itmo.Lib

variable {α : Type*}

/-- The loop for `i` from `n - 1` down to 0 that removes the element at `i` if it meets `p`. -/
def removeDownFrom (p : α → Bool) : ℕ → List α → List α
  | 0, l => l
  | n + 1, l => removeDownFrom p n (if l[n]?.any p then l.eraseIdx n else l)

theorem removeDownFrom_append (p : α → Bool) (visited l : List α) :
    removeDownFrom p l.length (l ++ visited) = l.filter (fun a => !p a) ++ visited := by
  induction l using List.reverseRecOn generalizing visited with
  | nil => rfl
  | append_singleton l a ih =>
    have hget : (l ++ [a] ++ visited)[l.length]? = some a := by simp
    have herase : (l ++ [a] ++ visited).eraseIdx l.length = l ++ visited := by
      rw [List.append_assoc, List.eraseIdx_append_of_length_le (Nat.le_refl _), Nat.sub_self,
        List.singleton_append, List.eraseIdx_cons_zero]
    rw [List.length_append, List.length_singleton, removeDownFrom, hget, Option.any_some, herase]
    by_cases ha : p a
    · rw [if_pos ha, ih visited]
      simp [ha]
    · rw [if_neg ha, List.append_assoc, ih ([a] ++ visited)]
      simp [ha]

theorem removeDownFrom_length (p : α → Bool) (l : List α) :
    removeDownFrom p l.length l = l.filter fun a => !p a := by
  have h := removeDownFrom_append p [] l
  rwa [List.append_nil, List.append_nil] at h

/-- Two filters leave the same if and only if their tests agree on the elements. -/
theorem filter_eq_filter_iff {p q : α → Bool} {l : List α} :
    l.filter p = l.filter q ↔ ∀ a ∈ l, p a = q a := by
  constructor
  · intro h a ha
    have hmem : a ∈ l.filter p ↔ a ∈ l.filter q := by rw [h]
    rw [List.mem_filter, List.mem_filter] at hmem
    rw [Bool.eq_iff_iff]
    exact ⟨fun hp => (hmem.mp ⟨ha, hp⟩).2, fun hq => (hmem.mpr ⟨ha, hq⟩).2⟩
  · exact List.filter_congr

/-- What does not meet a test, and after it what meets it without the first, is the list
without the first element that meets it, in another order. -/
theorem filter_append_drop_perm (p : α → Bool) (l : List α) :
    (l.filter (fun a => !p a) ++ (l.filter p).drop 1).Perm (l.eraseP p) := by
  induction l with
  | nil => exact List.Perm.refl _
  | cons a l ih =>
    by_cases ha : p a
    · rw [List.eraseP_cons_of_pos ha, List.filter_cons_of_neg (by simp [ha]),
        List.filter_cons_of_pos ha, List.drop_one, List.tail_cons]
      refine List.perm_append_comm.trans ?_
      exact List.filter_append_perm p l
    · rw [List.eraseP_cons_of_neg ha, List.filter_cons_of_pos (by simp [ha]),
        List.filter_cons_of_neg ha, List.cons_append]
      exact ih.cons a

end Itmo.Lib
