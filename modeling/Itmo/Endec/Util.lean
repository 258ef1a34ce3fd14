import Itmo.Lib.Bits
import Itmo.Lib.Chunks

/-! Bytes, words and blocks: the packing functions of `util.rs` and the types
of `block/mod.rs` they work on. Packing and unpacking are described position by
position, so that the last, partly filled word and block need no case of their
own later. -/

namespace Itmo.Endec

open Lib

abbrev Byte := BitVec 8

abbrev Word := BitVec 32

/-- `Block = [u32; 4]`. -/
abbrev Block := Vector Word 4

/-- What fills the unused end of a last word or block. -/
inductive ExtendPolicy where
  | random
  | fill (v : ℕ)

/-- The random arm draws a value of the unit type and stores nothing, so the
zero of the freshly built array stays. -/
def ExtendPolicy.byte : ExtendPolicy → Byte
  | .random => 0
  | .fill v => BitVec.ofNat 8 v

def ExtendPolicy.word : ExtendPolicy → Word
  | .random => 0
  | .fill v => BitVec.ofNat 32 v

/-- A full chunk is taken as it is, a shorter one is copied and then filled. -/
def toU32Extended (bytes : List Byte) (extendPolicy : ExtendPolicy) : List Word :=
  (chunks 4 bytes).map fun v =>
    match v with
    | [a, b, c, d] => wordLE a b c d
    | v =>
      let word i := v.getD i extendPolicy.byte
      wordLE (word 0) (word 1) (word 2) (word 3)

def blockify (words : List Word) (extendPolicy : ExtendPolicy) : List Block :=
  (chunks 4 words).map fun v =>
    match v with
    | [a, b, c, d] => #v[a, b, c, d]
    | v =>
      let block i := v.getD i extendPolicy.word
      #v[block 0, block 1, block 2, block 3]

/-- `u32::to_le_bytes`. -/
def toLeBytes (v : Word) : List Byte := (List.range 4).map (byteLE v)

@[simp] theorem toLeBytes_length (v : Word) : (toLeBytes v).length = 4 := by simp [toLeBytes]

theorem getElem?_toLeBytes (v : Word) {k : ℕ} (hk : k < 4) :
    (toLeBytes v)[k]? = some (byteLE v k) := by
  simp [toLeBytes, hk]

/-! ### Packing, position by position -/

theorem getD_take_drop {α : Type*} (l : List α) (n i : ℕ) {k : ℕ} (hk : k < n) (d : α) :
    ((l.drop i).take n).getD k d = l.getD (i + k) d := by
  simp [List.getD_eq_getElem?_getD, hk, List.getElem?_drop]

/-- Word `j` is made of bytes `4 j` to `4 j + 3`, the missing ones filled in. -/
theorem getElem?_toU32Extended (bytes : List Byte) (p : ExtendPolicy) (j : ℕ) :
    (toU32Extended bytes p)[j]? = if 4 * j < bytes.length then
      some (wordLE (bytes.getD (4 * j) p.byte) (bytes.getD (4 * j + 1) p.byte)
        (bytes.getD (4 * j + 2) p.byte) (bytes.getD (4 * j + 3) p.byte)) else none := by
  have hmatch : ∀ v : List Byte, (match v with
      | [a, b, c, d] => wordLE a b c d
      | v => wordLE (v.getD 0 p.byte) (v.getD 1 p.byte) (v.getD 2 p.byte) (v.getD 3 p.byte)) =
      wordLE (v.getD 0 p.byte) (v.getD 1 p.byte) (v.getD 2 p.byte) (v.getD 3 p.byte) := by
    intro v
    split <;> rfl
  simp only [toU32Extended, List.getElem?_map, getElem?_chunks (show 0 < 4 by omega), hmatch]
  split_ifs with h
  · simp only [Option.map_some, getD_take_drop _ 4 (4 * j) (show 0 < 4 by omega),
      getD_take_drop _ 4 (4 * j) (show 1 < 4 by omega),
      getD_take_drop _ 4 (4 * j) (show 2 < 4 by omega),
      getD_take_drop _ 4 (4 * j) (show 3 < 4 by omega), Nat.add_zero]
  · rfl

/-- Block `i` is made of words `4 i` to `4 i + 3`, the missing ones filled in. -/
theorem getElem?_blockify (words : List Word) (p : ExtendPolicy) (i : ℕ) :
    (blockify words p)[i]? = if 4 * i < words.length then
      some #v[words.getD (4 * i) p.word, words.getD (4 * i + 1) p.word,
        words.getD (4 * i + 2) p.word, words.getD (4 * i + 3) p.word] else none := by
  have hmatch : ∀ v : List Word, (match v with
      | [a, b, c, d] => (#v[a, b, c, d] : Block)
      | v => #v[v.getD 0 p.word, v.getD 1 p.word, v.getD 2 p.word, v.getD 3 p.word]) =
      #v[v.getD 0 p.word, v.getD 1 p.word, v.getD 2 p.word, v.getD 3 p.word] := by
    intro v
    split <;> rfl
  simp only [blockify, List.getElem?_map, getElem?_chunks (show 0 < 4 by omega), hmatch]
  split_ifs with h
  · simp only [Option.map_some, getD_take_drop _ 4 (4 * i) (show 0 < 4 by omega),
      getD_take_drop _ 4 (4 * i) (show 1 < 4 by omega),
      getD_take_drop _ 4 (4 * i) (show 2 < 4 by omega),
      getD_take_drop _ 4 (4 * i) (show 3 < 4 by omega), Nat.add_zero]
  · rfl

theorem lt_toU32Extended_length (bytes : List Byte) (p : ExtendPolicy) (j : ℕ) :
    j < (toU32Extended bytes p).length ↔ 4 * j < bytes.length := by
  simp only [toU32Extended, List.length_map]
  exact lt_chunks_length (by omega) bytes j

end Itmo.Endec
