import Mathlib.Data.BitVec

/-! Bit vectors as machine words: rotations by any amount undo each other, and
the little-endian bytes of a 32-bit word determine it. -/

namespace Itmo.Lib

/-! ### Rotations -/

@[simp] theorem rotateRight_rotateLeft {w : ℕ} (x : BitVec w) (r : ℕ) :
    (x.rotateLeft r).rotateRight r = x := by
  ext i hi
  have hr : r % w < w := Nat.mod_lt _ (by omega)
  rw [BitVec.getElem_rotateRight]
  split_ifs with h <;> grind

@[simp] theorem rotateLeft_rotateRight {w : ℕ} (x : BitVec w) (r : ℕ) :
    (x.rotateRight r).rotateLeft r = x := by
  ext i hi
  have hr : r % w < w := Nat.mod_lt _ (by omega)
  rw [BitVec.getElem_rotateLeft]
  split_ifs with h <;> grind

/-! ### Little-endian bytes of a 32-bit word -/

/-- Byte `i` of a word, byte 0 the least significant. -/
def byteLE (x : BitVec 32) (i : ℕ) : BitVec 8 := x.extractLsb' (8 * i) 8

/-- The word with the given bytes, the least significant first. -/
def wordLE (a b c d : BitVec 8) : BitVec 32 := d ++ c ++ b ++ a

theorem byteLE_xor (x y : BitVec 32) (i : ℕ) : byteLE (x ^^^ y) i = byteLE x i ^^^ byteLE y i := by
  ext j hj
  simp [byteLE]

theorem byteLE_wordLE (f : ℕ → BitVec 8) {i : ℕ} (hi : i < 4) :
    byteLE (wordLE (f 0) (f 1) (f 2) (f 3)) i = f i := by
  obtain rfl | rfl | rfl | rfl : i = 0 ∨ i = 1 ∨ i = 2 ∨ i = 3 := by omega
  all_goals
    ext j hj
    simp only [byteLE, wordLE, BitVec.getElem_extractLsb', BitVec.getLsbD_append]
    grind

end Itmo.Lib
