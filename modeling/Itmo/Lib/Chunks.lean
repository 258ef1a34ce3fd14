import Mathlib.Data.List.Basic

/-! Cutting a list into pieces of a fixed length, the last one possibly
shorter, and gluing pieces of a fixed length together again, both described
position by position. -/

namespace Itmo.Lib

variable {α β : Type*}

/-- Consecutive pieces of length `n`; the last piece holds what is left. -/
def chunks (n : ℕ) (l : List α) : List (List α) :=
  (List.range ((l.length + n - 1) / n)).map fun i => (l.drop (n * i)).take n

theorem chunks_length (n : ℕ) (l : List α) : (chunks n l).length = (l.length + n - 1) / n := by
  simp [chunks]

/-- Piece `i` exists exactly when the list reaches position `n * i`. -/
theorem lt_chunks_length {n : ℕ} (hn : 0 < n) (l : List α) (i : ℕ) :
    i < (chunks n l).length ↔ n * i < l.length := by
  rw [chunks_length, Nat.lt_iff_add_one_le, Nat.le_div_iff_mul_le hn, Nat.add_mul, Nat.mul_comm i n]
  omega

theorem getElem?_chunks {n : ℕ} (hn : 0 < n) (l : List α) (i : ℕ) :
    (chunks n l)[i]? = if n * i < l.length then some ((l.drop (n * i)).take n) else none := by
  have hi := lt_chunks_length hn l i
  split_ifs with h
  · rw [List.getElem?_eq_getElem (hi.mpr h)]
    simp [chunks]
  · exact List.getElem?_eq_none (by omega)

/-- Pieces of equal length glued together: position `n * i + k` is position `k`
of piece `i`. -/
theorem getElem?_flatMap_of_length {n : ℕ} {f : α → List β} (hf : ∀ x, (f x).length = n)
    (l : List α) (i : ℕ) {k : ℕ} (hk : k < n) :
    (l.flatMap f)[n * i + k]? = l[i]?.bind fun x => (f x)[k]? := by
  induction l generalizing i with
  | nil => simp
  | cons x l ih =>
    rw [List.flatMap_cons]
    cases i with
    | zero => simp [List.getElem?_append_left, hf, hk]
    | succ i =>
      rw [List.getElem?_append_right (by rw [hf, Nat.mul_succ]; omega), hf,
        show n * (i + 1) + k - n = n * i + k by rw [Nat.mul_succ]; omega, ih]
      simp

end Itmo.Lib
