import Itmo.Lib.InverseFold
import Itmo.Endec.Util

/-! The RC6 block cipher of `block/algorithm/rc6.rs`: the key schedule, and the
two block functions. Every round of `decodeBlock` undoes the round of
`encodeBlock` with the same index, and the rounds run in the opposite order, so
the two functions are inverse to each other for every key array. -/

namespace Itmo.Endec

open Lib

/-- A block cipher, the trait of `block/mod.rs`. -/
structure BlockEndec where
  encodeBlock : Block → Block
  decodeBlock : Block → Block

abbrev LOG_W : ℕ := 5
abbrev P32 : Word := 3084996963
abbrev Q32 : Word := 2654435769
abbrev ROUNDS : ℕ := 20
abbrev ROUNDS_EXTENDED : ℕ := 2 * ROUNDS + 4

structure RC6 where
  keys : Vector Word ROUNDS_EXTENDED

namespace RC6

/-! ### Key schedule -/

/-- `keys[i] = P32 + i * Q32`, by the running sum of the source. -/
def initialKeys : Vector Word ROUNDS_EXTENDED :=
  (List.range' 1 (ROUNDS_EXTENDED - 1)).foldl
    (fun keys i => keys.set! i (keys[i - 1]! + Q32))
    ((Vector.replicate ROUNDS_EXTENDED 0).set! 0 P32)

/-- The variables of the mixing loop. -/
structure Mix where
  keys : Vector Word ROUNDS_EXTENDED
  mainKey : List Word
  a : Word
  b : Word
  i : ℕ
  j : ℕ

/-- One turn of the mixing loop. `none` is a panic: an index out of range, or
the remainder by the length of an empty key. -/
def Mix.step (s : Mix) : Option Mix := do
  let k ← s.keys[s.i]?
  let a := (k + s.a + s.b).rotateLeft 3
  let m ← s.mainKey[s.j]?
  let b := (m + a + s.b).rotateLeft (a + s.b).toNat
  if s.mainKey.length = 0 then none
  else some {
    keys := s.keys.set! s.i a
    mainKey := s.mainKey.set s.j b
    a := a
    b := b
    i := (s.i + 1) % ROUNDS_EXTENDED
    j := (s.j + 1) % s.mainKey.length }

def Mix.run : ℕ → Mix → Option Mix
  | 0, s => some s
  | n + 1, s => s.step.bind (Mix.run n)

/-- `RC6::new`. -/
def new (mainKey : List Byte) : Option RC6 :=
  let mainKey := toU32Extended mainKey (.fill 0)
  let start : Mix := ⟨initialKeys, mainKey, 0, 0, 0, 0⟩
  (Mix.run (3 * max mainKey.length ROUNDS_EXTENDED) start).map fun s => ⟨s.keys⟩

/-! ### Blocks -/

/-- The four locals of the block functions. -/
structure Regs where
  a : Word
  b : Word
  c : Word
  d : Word

def Regs.ofBlock (block : Block) : Regs := ⟨block[0], block[1], block[2], block[3]⟩

def Regs.toBlock (s : Regs) : Block := #v[s.a, s.b, s.c, s.d]

/-- The mixed word: a quadratic function of `x`, rotated by `LOG_W`. -/
def mixed (x : Word) : Word := (x * (x * 2 + 1)).rotateLeft LOG_W

theorem roundKey_lt (i : Fin ROUNDS) : 2 * (i.val + 1) + 1 < ROUNDS_EXTENDED := by
  have hi : i.val < 20 := i.isLt
  show 2 * (i.val + 1) + 1 < 44
  omega

/-- `keys[2 * i]`; round `i` of the source is index `i - 1` here. -/
def evenKey (rc6 : RC6) (i : Fin ROUNDS) : Word :=
  rc6.keys.get ⟨2 * (i.val + 1), Nat.lt_of_succ_lt (roundKey_lt i)⟩

/-- `keys[2 * i + 1]`. -/
def oddKey (rc6 : RC6) (i : Fin ROUNDS) : Word :=
  rc6.keys.get ⟨2 * (i.val + 1) + 1, roundKey_lt i⟩

def encodeRound (rc6 : RC6) (i : Fin ROUNDS) (s : Regs) : Regs :=
  let t := mixed s.b
  let u := mixed s.d
  let a := (s.a ^^^ t).rotateLeft u.toNat + rc6.evenKey i
  let c := (s.c ^^^ u).rotateLeft t.toNat + rc6.oddKey i
  ⟨s.b, c, s.d, a⟩

def decodeRound (rc6 : RC6) (i : Fin ROUNDS) (s : Regs) : Regs :=
  let s : Regs := ⟨s.d, s.a, s.b, s.c⟩
  let u := mixed s.d
  let t := mixed s.b
  let c := (s.c - rc6.oddKey i).rotateRight t.toNat ^^^ u
  let a := (s.a - rc6.evenKey i).rotateRight u.toNat ^^^ t
  ⟨a, s.b, c, s.d⟩

def encodeBlock (rc6 : RC6) (block : Block) : Block :=
  let s := Regs.ofBlock block
  let s := { s with b := s.b + rc6.keys[0], d := s.d + rc6.keys[1] }
  let s := (List.finRange ROUNDS).foldl (fun s i => rc6.encodeRound i s) s
  let s := { s with
    a := s.a + rc6.keys[ROUNDS_EXTENDED - 2], c := s.c + rc6.keys[ROUNDS_EXTENDED - 1] }
  s.toBlock

def decodeBlock (rc6 : RC6) (block : Block) : Block :=
  let s := Regs.ofBlock block
  let s := { s with
    c := s.c - rc6.keys[ROUNDS_EXTENDED - 1], a := s.a - rc6.keys[ROUNDS_EXTENDED - 2] }
  let s := (List.finRange ROUNDS).reverse.foldl (fun s i => rc6.decodeRound i s) s
  let s := { s with d := s.d - rc6.keys[1], b := s.b - rc6.keys[0] }
  s.toBlock

def blockEndec (rc6 : RC6) : BlockEndec := ⟨rc6.encodeBlock, rc6.decodeBlock⟩

/-! ### Inversion -/

@[simp] theorem ofBlock_toBlock (s : Regs) : Regs.ofBlock s.toBlock = s := rfl

@[simp] theorem toBlock_ofBlock (block : Block) : (Regs.ofBlock block).toBlock = block := by
  apply Vector.ext
  intro i hi
  obtain rfl | rfl | rfl | rfl : i = 0 ∨ i = 1 ∨ i = 2 ∨ i = 3 := by omega
  all_goals rfl

theorem xor_cancel (x y : Word) : x ^^^ y ^^^ y = x := by
  rw [BitVec.xor_assoc, BitVec.xor_self, BitVec.xor_zero]

/-- The two words a round mixes are still there afterwards, in the places where
the inverse round reads them. -/
theorem decodeRound_encodeRound (rc6 : RC6) (i : Fin ROUNDS) :
    Function.LeftInverse (rc6.decodeRound i) (rc6.encodeRound i) := by
  intro s
  simp only [encodeRound, decodeRound, BitVec.add_sub_cancel, rotateRight_rotateLeft, xor_cancel]

theorem encodeRound_decodeRound (rc6 : RC6) (i : Fin ROUNDS) :
    Function.RightInverse (rc6.decodeRound i) (rc6.encodeRound i) := by
  intro s
  simp only [encodeRound, decodeRound, BitVec.sub_add_cancel, rotateLeft_rotateRight, xor_cancel]

theorem decodeBlock_encodeBlock (rc6 : RC6) (block : Block) :
    rc6.decodeBlock (rc6.encodeBlock block) = block := by
  simp only [encodeBlock, decodeBlock, ofBlock_toBlock, BitVec.add_sub_cancel]
  rw [foldl_leftInverse rc6.decodeRound_encodeRound]
  simp only [BitVec.add_sub_cancel]
  exact toBlock_ofBlock block

theorem encodeBlock_decodeBlock (rc6 : RC6) (block : Block) :
    rc6.encodeBlock (rc6.decodeBlock block) = block := by
  simp only [encodeBlock, decodeBlock, ofBlock_toBlock, BitVec.sub_add_cancel]
  rw [foldl_rightInverse rc6.encodeRound_decodeRound]
  simp only [BitVec.sub_add_cancel]
  exact toBlock_ofBlock block

/-- For every array of round keys the block functions undo each other. -/
theorem block_cycle (keys : Vector Word ROUNDS_EXTENDED) (block : Block) :
    (RC6.mk keys).decodeBlock ((RC6.mk keys).encodeBlock block) = block ∧
      (RC6.mk keys).encodeBlock ((RC6.mk keys).decodeBlock block) = block :=
  ⟨decodeBlock_encodeBlock _ block, encodeBlock_decodeBlock _ block⟩

end RC6

end Itmo.Endec
