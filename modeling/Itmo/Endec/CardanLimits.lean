import Itmo.Endec.Cardan

/-! What the Cardan grille of `classic/cardan.rs` does not keep. The number that the
grille is cut from comes from a hash by a remainder and a subtraction, which overflows
for one remainder, and gives no opening at all for others; encoding a message that is
not empty ends exactly when neither happens. Decoding reads one more block than the
message has, of random symbols when the length is a multiple of sixteen, so that its
end depends on them as soon as there is an opening. -/

namespace Itmo.Endec

open Lib

namespace Cardan

/-! ### The number of a grille -/

/-- The four quarters of a number below `4096`, of three bits each. -/
def Grille.ofValue (value : ℕ) : Grille where
  topLeft := .new (BitVec.ofNat 16 value)
  topRight := .new (BitVec.ofNat 16 value >>> 3)
  bottomLeft := .new (BitVec.ofNat 16 value >>> 6)
  bottomRight := .new (BitVec.ofNat 16 value >>> 9)

theorem toNat_umod_4097 (hash : BitVec 128) :
    (hash % (1 <<< 12 + 1)).toNat = hash.toNat % 4097 :=
  BitVec.toNat_umod

theorem Grille.new_eq_none {stableHash : StableHash} {secretKey : List Byte}
    (h : (stableHash.ofStr secretKey).toNat % 4097 = 0) : new stableHash secretKey = none := by
  have hzero : stableHash.ofStr secretKey % (1 <<< 12 + 1) = 0 := by
    apply BitVec.eq_of_toNat_eq
    rw [toNat_umod_4097, h]
    rfl
  unfold new
  dsimp only
  rw [if_pos hzero]

theorem Grille.new_eq_some {stableHash : StableHash} {secretKey : List Byte} {value : ℕ}
    (h : (stableHash.ofStr secretKey).toNat % 4097 = value + 1) :
    new stableHash secretKey = some (.ofValue value) := by
  have hhash : stableHash.ofStr secretKey % (1 <<< 12 + 1) = BitVec.ofNat 128 (value + 1) := by
    apply BitVec.eq_of_toNat_eq
    rw [toNat_umod_4097, h, BitVec.toNat_ofNat, Nat.mod_eq_of_lt (by omega)]
  have hne : stableHash.ofStr secretKey % (1 <<< 12 + 1) ≠ 0 := by
    intro hzero
    have hnat := congrArg BitVec.toNat hzero
    rw [hhash, BitVec.toNat_ofNat, Nat.mod_eq_of_lt (by omega)] at hnat
    exact absurd hnat (Nat.succ_ne_zero value)
  have hvalue : (stableHash.ofStr secretKey % (1 <<< 12 + 1) - 1).setWidth 16 =
      BitVec.ofNat 16 value := by
    apply BitVec.eq_of_toNat_eq
    rw [hhash, BitVec.ofNat_add, BitVec.toNat_setWidth]
    have hcancel : BitVec.ofNat 128 value + BitVec.ofNat 128 1 - 1 = BitVec.ofNat 128 value :=
      BitVec.add_sub_cancel _ _
    rw [hcancel, BitVec.toNat_ofNat, BitVec.toNat_ofNat]
    omega
  unfold new
  dsimp only
  rw [if_neg hne, hvalue]
  rfl

/-- A quarter is open when the highest of its three bits is set. -/
theorem Quarter.new_ne_none_iff (value : BitVec 16) :
    Quarter.new value ≠ .None ↔ value.getLsbD 2 = true := by
  have hmask : (value &&& THREE_LOWER_BITS_MASK).toNat = value.toNat % 8 := by
    rw [BitVec.toNat_and]
    exact Nat.and_two_pow_sub_one_eq_mod value.toNat 3
  have hbit : value.getLsbD 2 = decide (value.toNat / 4 % 2 = 1) := by
    rw [BitVec.getLsbD, Nat.testBit_eq_decide_div_mod_eq]
  have hlt : value.toNat % 8 < 8 := Nat.mod_lt _ (by omega)
  rw [hbit, decide_eq_true_iff, Quarter.new, hmask]
  split
  all_goals
    constructor
    · intro _
      grind
    · intro _
      grind

theorem Grille.hasOpening_ofValue (value : ℕ) : (ofValue value).HasOpening ↔
    value.testBit 2 ∨ value.testBit 5 ∨ value.testBit 8 ∨ value.testBit 11 := by
  unfold HasOpening ofValue
  simp only [Quarter.new_ne_none_iff, BitVec.getLsbD_ushiftRight, BitVec.getLsbD_ofNat]
  simp

/-! ### Progress -/

/-- A block takes a character of a remainder exactly when there is an opening. -/
theorem Grille.cypherBlock_progress_iff (g : Grille) {chars : List Char} (h : chars ≠ []) :
    (g.cypherBlock chars).2.length < chars.length ↔ g.HasOpening := by
  have hlength := List.length_pos_iff.mpr h
  rw [g.cypherBlock_eq, List.length_drop]
  constructor
  · intro hlt
    by_contra hg
    rw [slots_eq_nil hg, List.length_nil] at hlt
    omega
  · intro hg
    have hpos := slots_pos hg
    omega

/-- What a run of `encode` needs to end: the number of the grille is one of the `4096`,
the loop ends, and each block of it takes a character of what remains. -/
structure Finishes (stableHash : StableHash) (randomSymbol : ℕ → Char) (input : List Char)
    (secretKey : List Byte) (value : ℕ) : Prop where
  value_lt : value < 4096
  no_underflow : (stableHash.ofStr secretKey).toNat % (2 ^ 12 + 1) = value + 1
  grille : Grille.new stableHash secretKey = some (.ofValue value)
  ends : ∃ fuel c, (Grille.ofValue value).encodeLoop randomSymbol fuel 0 input = some c
  progress : ∀ chars, chars ≠ [] → chars <:+ input →
    ((Grille.ofValue value).cypherBlock chars).2.length < chars.length

/-- The remainder of the hash that gives the number of the grille. -/
def remainder (stableHash : StableHash) (secretKey : List Byte) : ℕ :=
  (stableHash.ofStr secretKey).toNat % (2 ^ 12 + 1)

/-- Encoding ends exactly for a hash that leaves a remainder, if there is anything to
encode one with an opening among the twelve bits of the number. -/
theorem encode_finishes_iff (stableHash : StableHash) (randomSymbol : ℕ → Char)
    (input : List Char) (secretKey : List Byte) :
    (∃ value, Finishes stableHash randomSymbol input secretKey value) ↔
      remainder stableHash secretKey ≠ 0 ∧ (input = [] ∨
        ∃ i ∈ [2, 5, 8, 11], (remainder stableHash secretKey - 1).testBit i) := by
  have hopening : ∀ value, (Grille.ofValue value).HasOpening ↔
      ∃ i ∈ [2, 5, 8, 11], value.testBit i := by
    intro value
    rw [Grille.hasOpening_ofValue]
    simp
  constructor
  · rintro ⟨value, h⟩
    have hremainder : remainder stableHash secretKey = value + 1 := h.no_underflow
    rw [hremainder, Nat.add_sub_cancel, ← hopening]
    refine ⟨Nat.succ_ne_zero value, ?_⟩
    by_cases hinput : input = []
    · exact .inl hinput
    · have hprogress := h.progress input hinput List.suffix_rfl
      exact .inr (((Grille.ofValue value).cypherBlock_progress_iff hinput).mp hprogress)
  · rintro ⟨hne, hinput⟩
    obtain ⟨value, hvalue⟩ := Nat.exists_eq_succ_of_ne_zero hne
    rw [hvalue, Nat.succ_sub_one, ← hopening] at hinput
    have hlt : remainder stableHash secretKey < 2 ^ 12 + 1 := Nat.mod_lt _ (by omega)
    refine ⟨value, by omega, hvalue, Grille.new_eq_some hvalue, ?_, ?_⟩
    · rcases hinput with rfl | hg
      · exact ⟨0, [], rfl⟩
      · obtain ⟨c, hc, -⟩ := Grille.encodeLoop_spec hg randomSymbol randomSymbol 0
          (Nat.le_refl input.length)
        exact ⟨input.length, c, hc⟩
    · intro chars hchars hsuffix
      rw [(Grille.ofValue value).cypherBlock_progress_iff hchars]
      rcases hinput with rfl | hg
      · exact absurd (List.suffix_nil.mp hsuffix) hchars
      · exact hg

/-- A hash that the modulus divides. -/
theorem encode_hangs : ¬ ∀ (stableHash : StableHash) (randomSymbol : ℕ → Char)
    (input : List Char) (secretKey : List Byte),
    ∃ value, Finishes stableHash randomSymbol input secretKey value := by
  intro h
  obtain ⟨value, hvalue⟩ := h ⟨fun _ => 4097, id⟩ (fun _ => 'x') ['K'] []
  exact absurd hvalue.no_underflow (Nat.succ_ne_zero value).symm

/-! ### The alphabet -/

/-- The characters of a range, the last one among them. -/
def charRange (first last : Char) : List Char :=
  (List.range' first.toNat (last.toNat + 1 - first.toNat)).map Char.ofNat

def ALPHABET : List Char :=
  charRange 'a' 'z' ++ charRange 'A' 'Z' ++ charRange 'а' 'я' ++ charRange 'А' 'Я' ++
    ".,-+_—%;:?!@#&()*~\"' \n".toList

/-- What the random generator may give: every symbol is one of the alphabet. -/
def RandomSource : Type := ℕ → {c : Char // c ∈ ALPHABET}

def RandomSource.symbol (source : RandomSource) (n : ℕ) : Char := (source n).val

/-! ### Decoding and the random symbols -/

/-- The quarters with an opening. -/
def Grille.openings (g : Grille) : ℕ :=
  [g.topLeft, g.topRight, g.bottomLeft, g.bottomRight].countP (· ≠ .None)

theorem Grille.slots_length (g : Grille) : g.slots.length = g.openings := by
  have hall : ∀ a b c d : Quarter,
      (Grille.mk a b c d).slots.length = (Grille.mk a b c d).openings := by decide +kernel
  exact hall g.topLeft g.topRight g.bottomLeft g.bottomRight

theorem Grille.decypherBlock_length (g : Grille) {block : List Char} (h : block.length = 16) :
    (g.decypherBlock block).length = g.openings := by
  rw [g.decypherBlock_eq, gather_length, slots_length]
  intro slot hslot
  rw [h]
  exact g.slots_lt slot hslot

/-- Induction on the whole blocks: their text does not depend on the random symbols,
and after it comes the text of a block that holds nothing else. -/
theorem Grille.decode_eq (g : Grille) {n : ℕ} {input : List Char} (h : input.length = 16 * n) :
    ∃ text, text.length = g.openings * n ∧ ∀ randomSymbol : ℕ → Char,
      g.decode randomSymbol input =
        text ++ g.decypherBlock ((List.range 16).map randomSymbol) := by
  induction n generalizing input with
  | zero =>
    obtain rfl := List.length_eq_zero_iff.mp h
    refine ⟨[], rfl, ?_⟩
    intro randomSymbol
    rw [decode, if_neg (by decide)]
    rfl
  | succ n ih =>
    have hdrop : (input.drop 16).length = 16 * n := by
      rw [List.length_drop]
      omega
    have htake : (input.take 16).length = 16 := by
      rw [List.length_take]
      omega
    obtain ⟨text, hlength, htext⟩ := ih hdrop
    refine ⟨g.decypherBlock (input.take 16) ++ text, ?_, ?_⟩
    · rw [List.length_append, hlength, g.decypherBlock_length htake, Nat.mul_succ, Nat.add_comm]
    · intro randomSymbol
      have happend := g.decode_append randomSymbol htake (input.drop 16)
      rw [List.take_append_drop] at happend
      rw [happend, htext, List.append_assoc]

/-- As many characters too many as there are openings. -/
theorem Grille.decode_length (g : Grille) (randomSymbol : ℕ → Char) {input : List Char}
    (h : 16 ∣ input.length) :
    (g.decode randomSymbol input).length = g.openings * (input.length / 16) + g.openings := by
  obtain ⟨text, hlength, htext⟩ := g.decode_eq (Nat.mul_div_cancel' h).symm
  rw [htext, List.length_append, hlength, g.decypherBlock_length (by simp)]

theorem Grille.decypherBlock_replicate (g : Grille) (c : Char) :
    g.decypherBlock (List.replicate 16 c) = List.replicate g.openings c := by
  rw [List.eq_replicate_iff]
  constructor
  · exact g.decypherBlock_length List.length_replicate
  · intro x hx
    rw [g.decypherBlock_eq, gather, List.mem_filterMap] at hx
    obtain ⟨slot, -, hslot⟩ := hx
    exact List.eq_of_mem_replicate (List.mem_of_getElem? hslot)

/-- Two sources that repeat one symbol each give different texts as soon as there is an
opening. -/
theorem Grille.decode_sameText_iff (g : Grille) {input : List Char} (h : 16 ∣ input.length) :
    (∀ source source' : RandomSource,
      g.decode source.symbol input = g.decode source'.symbol input) ↔ g.openings = 0 := by
  obtain ⟨text, -, htext⟩ := g.decode_eq (Nat.mul_div_cancel' h).symm
  constructor
  · intro hsame
    have ha : 'a' ∈ ALPHABET := by decide
    have hb : 'b' ∈ ALPHABET := by decide
    have heq := hsame (fun _ => ⟨'a', ha⟩) (fun _ => ⟨'b', hb⟩)
    rw [htext, htext, List.append_cancel_left_eq] at heq
    have hconst : ∀ (c : Char) (hc : c ∈ ALPHABET),
        (List.range 16).map (RandomSource.symbol fun _ => ⟨c, hc⟩) = List.replicate 16 c := by
      intro c hc
      rfl
    rw [hconst, hconst, g.decypherBlock_replicate, g.decypherBlock_replicate] at heq
    by_contra hne
    have hhead := List.eq_of_mem_replicate
      (heq ▸ List.mem_replicate.mpr ⟨hne, rfl⟩ : 'a' ∈ List.replicate g.openings 'b')
    exact absurd hhead (by decide)
  · intro hzero source source'
    have hlength : ∀ source : RandomSource,
        g.decypherBlock ((List.range 16).map source.symbol) = [] := by
      intro source
      apply List.eq_nil_of_length_eq_zero
      rw [g.decypherBlock_length (by simp), hzero]
    rw [htext, htext, hlength, hlength]

/-- Decoding is independent of the random symbols, and its text as long as the openings
of the blocks are many, exactly for a grille without openings. -/
theorem Grille.decode_deterministic_iff (g : Grille) {input : List Char}
    (h : 16 ∣ input.length) :
    (∀ source source' : RandomSource,
      g.decode source.symbol input = g.decode source'.symbol input ∧
        (g.decode source.symbol input).length = g.openings * (input.length / 16)) ↔
      g.openings = 0 := by
  constructor
  · intro hall
    exact (g.decode_sameText_iff h).mp fun source source' => (hall source source').1
  · intro hzero source source'
    refine ⟨(g.decode_sameText_iff h).mpr hzero source source', ?_⟩
    rw [g.decode_length source.symbol h, hzero, Nat.add_zero]

theorem Grille.decode_deterministic_one :
    (∀ source source' : RandomSource,
      (Grille.mk .First .None .None .None).decode source.symbol (List.replicate 16 'K') =
          (Grille.mk .First .None .None .None).decode source'.symbol (List.replicate 16 'K') ∧
        ((Grille.mk .First .None .None .None).decode source.symbol
          (List.replicate 16 'K')).length =
            (Grille.mk .First .None .None .None).openings * ((List.replicate 16 'K').length / 16)) ↔
      (Grille.mk .First .None .None .None).openings = 0 :=
  decode_deterministic_iff _ (by decide)

/-- One opening, and one block. -/
theorem decode_depends_on_source : ¬ ∀ (g : Grille) (input : List Char), 16 ∣ input.length →
    ∀ source source' : RandomSource,
      g.decode source.symbol input = g.decode source'.symbol input ∧
        (g.decode source.symbol input).length = g.openings * (input.length / 16) := by
  intro h
  have ha : 'a' ∈ ALPHABET := by decide
  have hlength := (h ⟨.First, .None, .None, .None⟩ (List.replicate 16 'K') (by decide)
    (fun _ => ⟨'a', ha⟩) (fun _ => ⟨'a', ha⟩)).2
  rw [Grille.decode_length _ _ (by decide)] at hlength
  exact absurd hlength (by decide)

end Cardan

end Itmo.Endec
