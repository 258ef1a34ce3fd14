import Itmo.Endec.RC6
import Mathlib.Logic.Function.Iterate

/-! Output feedback mode of `block/mode/ofb.rs`, and the `Mode` and `Algorithm`
of `block/mod.rs` that select it. The keystream does not depend on the message,
so the mode is described by one equation per output byte; that the lengths
agree, that encoding twice gives the message back and that the encoding of a
prefix is a prefix all follow from it. -/

namespace Itmo.Endec

open Lib

namespace OFB

/-- The closure of `encode` over `endec_input`, run over the input blocks. -/
def encodeBlocks (blockEndec : BlockEndec) : Block → List Block → List Block
  | _, [] => []
  | endecInput, blockInput :: rest =>
    let endecOutput := blockEndec.encodeBlock endecInput
    #v[blockInput[0] ^^^ endecOutput[0], blockInput[1] ^^^ endecOutput[1],
      blockInput[2] ^^^ endecOutput[2], blockInput[3] ^^^ endecOutput[3]] ::
      encodeBlocks blockEndec endecOutput rest

def encode (input : List Byte) (blockEndec : BlockEndec) (iv : Block) : List Byte :=
  let blocksInput := blockify (toU32Extended input (.fill 0)) (.fill 0)
  (((encodeBlocks blockEndec iv blocksInput).flatMap Vector.toList).flatMap toLeBytes).take
    input.length

/-- Byte `i` of the keystream: byte `i % 16`, in little-endian word order, of
the `i / 16 + 1`-fold application of the cipher to the initialization vector. -/
def keystream (E : Block → Block) (iv : Block) (i : ℕ) : Byte :=
  byteLE ((E^[i / 16 + 1] iv).get ⟨i % 16 / 4, by omega⟩) (i % 4)

/-! ### Blocks -/

/-- Word `k` of output block `i` is word `k` of the input block, mixed with word
`k` of the `i + 1`-fold application of the cipher. -/
theorem getElem?_encodeBlocks (e : BlockEndec) (iv : Block) (bs : List Block) (i : ℕ) {k : ℕ}
    (hk : k < 4) : (encodeBlocks e iv bs)[i]?.map (·.get ⟨k, hk⟩) =
      bs[i]?.map fun b => b.get ⟨k, hk⟩ ^^^ (e.encodeBlock^[i + 1] iv).get ⟨k, hk⟩ := by
  induction bs generalizing iv i with
  | nil => rfl
  | cons b bs ih =>
    cases i with
    | zero =>
      obtain rfl | rfl | rfl | rfl : k = 0 ∨ k = 1 ∨ k = 2 ∨ k = 3 := by omega
      all_goals rfl
    | succ i =>
      show (encodeBlocks e (e.encodeBlock iv) bs)[i]?.map _ = bs[i]?.map _
      rw [ih, Function.iterate_succ_apply e.encodeBlock (i + 1)]

/-! ### Bytes -/

/-- Byte `i` of the zero-extended input, in its block and word. -/
theorem byteLE_blockify (input : List Byte) {i : ℕ} (hi : i < input.length) :
    (blockify (toU32Extended input (.fill 0)) (.fill 0))[i / 16]?.map
      (fun b => byteLE (b.get ⟨i % 16 / 4, by omega⟩) (i % 4)) = input[i]? := by
  have hword : ∀ j, 4 * j < input.length → ∀ k < 4,
      byteLE ((toU32Extended input (.fill 0)).getD j 0) k = input.getD (4 * j + k) 0 := by
    intro j hj k hk
    rw [List.getD_eq_getElem?_getD, getElem?_toU32Extended, if_pos hj, Option.getD_some]
    exact byteLE_wordLE (fun k => input.getD (4 * j + k) 0) hk
  rw [getElem?_blockify, if_pos ((lt_toU32Extended_length _ _ _).mpr (by omega)), Option.map_some]
  have hblock : ∀ (ws : List Word) (n : ℕ) (k : ℕ) (hk : k < 4),
      (#v[ws.getD (4 * n) 0, ws.getD (4 * n + 1) 0, ws.getD (4 * n + 2) 0, ws.getD (4 * n + 3) 0] :
        Block).get ⟨k, hk⟩ = ws.getD (4 * n + k) 0 := by
    intro ws n k hk
    obtain rfl | rfl | rfl | rfl : k = 0 ∨ k = 1 ∨ k = 2 ∨ k = 3 := by omega
    all_goals rfl
  have hfill : (ExtendPolicy.fill 0).word = 0 := rfl
  rw [hfill, hblock, show 4 * (i / 16) + i % 16 / 4 = i / 4 by omega,
    hword (i / 4) (by omega) (i % 4) (by omega), show 4 * (i / 4) + i % 4 = i by omega,
    List.getD_eq_getElem?_getD, List.getElem?_eq_getElem hi, Option.getD_some]

/-- The output before truncation: byte `i` is in block `i / 16`. -/
theorem getElem?_bytes (bs : List Block) (i : ℕ) :
    ((bs.flatMap Vector.toList).flatMap toLeBytes)[i]? =
      bs[i / 16]?.map fun b => byteLE (b.get ⟨i % 16 / 4, by omega⟩) (i % 4) := by
  have h4 := getElem?_flatMap_of_length toLeBytes_length (bs.flatMap Vector.toList) (i / 4)
    (show i % 4 < 4 by omega)
  have h16 := getElem?_flatMap_of_length (f := Vector.toList) (n := 4) (fun b : Block => by simp)
    bs (i / 16) (show i % 16 / 4 < 4 by omega)
  rw [show 4 * (i / 4) + i % 4 = i by omega] at h4
  rw [show 4 * (i / 16) + i % 16 / 4 = i / 4 by omega] at h16
  rw [h4, h16]
  cases bs[i / 16]? with
  | none => rfl
  | some b =>
    simp only [Option.bind_some, Option.map_some, Vector.getElem?_toList]
    rw [Vector.getElem?_eq_getElem (by omega), Option.bind_some, getElem?_toLeBytes _ (by omega)]
    rfl

/-- Every output byte is the input byte at its place mixed with the keystream. -/
theorem getElem?_encode (input : List Byte) (e : BlockEndec) (iv : Block) (i : ℕ) :
    (encode input e iv)[i]? = input[i]?.map (· ^^^ keystream e.encodeBlock iv i) := by
  simp only [encode, List.getElem?_take, getElem?_bytes]
  split_ifs with hi
  · have hk : i % 16 / 4 < 4 := by omega
    have h := congrArg (Option.map (byteLE · (i % 4))) (getElem?_encodeBlocks e iv
      (blockify (toU32Extended input (.fill 0)) (.fill 0)) (i / 16) hk)
    simp only [Option.map_map, Function.comp_def, byteLE_xor] at h
    rw [h, ← byteLE_blockify input hi, Option.map_map]
    rfl
  · rw [List.getElem?_eq_none (by omega), Option.map_none]

theorem encode_length (input : List Byte) (e : BlockEndec) (iv : Block) :
    (encode input e iv).length = input.length := by
  have h : ∀ i, (encode input e iv).length ≤ i ↔ input.length ≤ i := fun i => by
    rw [← List.getElem?_eq_none_iff, getElem?_encode, Option.map_eq_none_iff,
      List.getElem?_eq_none_iff]
  have h1 := h (encode input e iv).length
  have h2 := h input.length
  omega

/-- Encoding is its own inverse. -/
theorem encode_encode (input : List Byte) (e : BlockEndec) (iv : Block) :
    encode (encode input e iv) e iv = input := by
  apply List.ext_getElem?
  intro i
  rw [getElem?_encode, getElem?_encode, Option.map_map]
  have hid : (· ^^^ keystream e.encodeBlock iv i) ∘ (· ^^^ keystream e.encodeBlock iv i) = id := by
    funext x
    simp only [Function.comp_apply, BitVec.xor_assoc, BitVec.xor_self, BitVec.xor_zero, id]
  rw [hid, Option.map_id_fun, id]

theorem encode_take (input : List Byte) (e : BlockEndec) (iv : Block) (n : ℕ) :
    encode (input.take n) e iv = (encode input e iv).take n := by
  apply List.ext_getElem?
  intro i
  rw [getElem?_encode, List.getElem?_take, List.getElem?_take]
  split_ifs with h
  · rw [getElem?_encode]
  · rfl

end OFB

/-! ### Modes and algorithms -/

/-- The stable hash of the external hashing crate, on the two types it is
applied to. -/
structure StableHash where
  ofStr : List Byte → BitVec 128
  ofU128 : BitVec 128 → BitVec 128

/-- The shifts of the source are left shifts. -/
def createInitializationVector (stableHash : StableHash) (hash : BitVec 128) : Block :=
  let iv := stableHash.ofU128 hash
  #v[iv.setWidth 32, (iv <<< 32).setWidth 32, (iv <<< 64).setWidth 32, (iv <<< 96).setWidth 32]

inductive Algorithm where
  | RC6

/-- `none` is the panic of `RC6::new`. -/
def Algorithm.buildBlockEndec : Algorithm → List Byte → Option BlockEndec
  | .RC6, secretKey => (Endec.RC6.new secretKey).map RC6.blockEndec

inductive Mode where
  | OFB

def Mode.encode (stableHash : StableHash) (mode : Mode) (input secretKey : List Byte)
    (algorithm : Algorithm) : Option (List Byte) :=
  let iv := createInitializationVector stableHash (stableHash.ofStr secretKey)
  (algorithm.buildBlockEndec secretKey).map fun blockEndec =>
    match mode with
    | .OFB => Endec.OFB.encode input blockEndec iv

def Mode.decode (stableHash : StableHash) (mode : Mode) (input secretKey : List Byte)
    (algorithm : Algorithm) : Option (List Byte) :=
  let iv := createInitializationVector stableHash (stableHash.ofStr secretKey)
  (algorithm.buildBlockEndec secretKey).map fun blockEndec =>
    match mode with
    | .OFB => Endec.OFB.encode input blockEndec iv

/-- Decoding what a mode encoded with the same key gives the message back,
whenever the cipher can be built from that key at all. -/
theorem Mode.decode_encode (stableHash : StableHash) (mode : Mode) (m secretKey : List Byte)
    (algorithm : Algorithm) :
    (mode.encode stableHash m secretKey algorithm).bind
        (fun c => mode.decode stableHash c secretKey algorithm) =
      (algorithm.buildBlockEndec secretKey).map fun _ => m := by
  cases mode
  simp only [Mode.encode, Mode.decode]
  cases algorithm.buildBlockEndec secretKey with
  | none => rfl
  | some e => simp [OFB.encode_encode]

/-- The whole mode, for any cipher: length, every byte, inversion (for the mode
function and for the two entry points that call it), and prefixes. -/
theorem OFB.encode_spec (e : BlockEndec) (iv : Block) (m : List Byte) :
    (OFB.encode m e iv).length = m.length ∧
      (∀ i, (OFB.encode m e iv)[i]? = m[i]?.map (· ^^^ OFB.keystream e.encodeBlock iv i)) ∧
      OFB.encode (OFB.encode m e iv) e iv = m ∧
      (∀ (h : StableHash) (mode : Mode) (key : List Byte) (a : Algorithm),
        (mode.encode h m key a).bind (fun c => mode.decode h c key a) =
          (a.buildBlockEndec key).map fun _ => m) ∧
      ∀ n, OFB.encode (m.take n) e iv = (OFB.encode m e iv).take n :=
  ⟨encode_length m e iv, getElem?_encode m e iv, encode_encode m e iv,
    fun h mode key a => Mode.decode_encode h mode m key a, encode_take m e iv⟩

/-! ### The initialization vector -/

/-- What a left shift by at least the width of a word leaves in the low word. -/
theorem setWidth_shiftLeft_eq_zero (v : BitVec 128) {n : ℕ} (hn : 32 ≤ n) :
    (v <<< n).setWidth 32 = 0#32 := by
  apply BitVec.eq_of_getLsbD_eq
  intro i hi
  have hlt : i < n := by omega
  simp [BitVec.getLsbD_setWidth, BitVec.getLsbD_shiftLeft, hlt]

/-- Only the low word of the hash gets into the vector. -/
theorem createInitializationVector_eq (stableHash : StableHash) (hash : BitVec 128) :
    createInitializationVector stableHash hash =
      #v[(stableHash.ofU128 hash).setWidth 32, 0, 0, 0] := by
  have h32 := setWidth_shiftLeft_eq_zero (stableHash.ofU128 hash) (show 32 ≤ 32 by omega)
  have h64 := setWidth_shiftLeft_eq_zero (stableHash.ofU128 hash) (show 32 ≤ 64 by omega)
  have h96 := setWidth_shiftLeft_eq_zero (stableHash.ofU128 hash) (show 32 ≤ 96 by omega)
  simp only [createInitializationVector, h32, h64, h96]
  rfl

theorem createInitializationVector_eq_iff (stableHash : StableHash) (hash hash' : BitVec 128) :
    createInitializationVector stableHash hash = createInitializationVector stableHash hash' ↔
      (stableHash.ofU128 hash).setWidth 32 = (stableHash.ofU128 hash').setWidth 32 := by
  rw [createInitializationVector_eq, createInitializationVector_eq]
  constructor
  · intro h
    have hlist := congrArg Vector.toList h
    exact (List.cons.inj hlist).1
  · intro h
    rw [h]

/-- Two keys get different vectors for different hashes exactly when already the low
words of the hashes differ. -/
theorem initializationVectors_differ_iff (stableHash : StableHash) (key key' : List Byte) :
    (stableHash.ofU128 (stableHash.ofStr key) ≠ stableHash.ofU128 (stableHash.ofStr key') →
        createInitializationVector stableHash (stableHash.ofStr key) ≠
          createInitializationVector stableHash (stableHash.ofStr key')) ↔
      (stableHash.ofU128 (stableHash.ofStr key)).setWidth 32 ≠
          (stableHash.ofU128 (stableHash.ofStr key')).setWidth 32 ∨
        stableHash.ofU128 (stableHash.ofStr key) = stableHash.ofU128 (stableHash.ofStr key') := by
  rw [Ne, Ne, createInitializationVector_eq_iff, Ne]
  constructor
  · intro h
    by_cases heq : stableHash.ofU128 (stableHash.ofStr key) =
        stableHash.ofU128 (stableHash.ofStr key')
    · exact .inr heq
    · exact .inl (h heq)
  · rintro (h | h) hne
    · exact h
    · exact absurd h hne

/-- Hashes that differ above the low word only. -/
theorem initializationVectors_coincide : ¬ ∀ (stableHash : StableHash) (key key' : List Byte),
    stableHash.ofU128 (stableHash.ofStr key) ≠ stableHash.ofU128 (stableHash.ofStr key') →
      createInitializationVector stableHash (stableHash.ofStr key) ≠
        createInitializationVector stableHash (stableHash.ofStr key') := by
  intro h
  have hne := h ⟨fun key => BitVec.ofNat 128 key.length, fun hash => hash <<< 32⟩ [] [0]
  exact hne (by decide) (by decide)

end Itmo.Endec
