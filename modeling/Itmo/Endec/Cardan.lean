import Itmo.Endec.OFB
import Itmo.Lib.Slots
import Mathlib.Data.Fintype.Basic

/-! The Cardan grille of `classic/cardan.rs`. A grille has at most one opening in
each quarter of a block of sixteen characters; a block takes the next characters of
the message through the openings, and random symbols everywhere else. The slot
numbers stand twice in the source, once for writing and once for reading. What the
random generator gives is a sequence of characters and a position in it. -/

namespace Itmo.Endec

open Lib

namespace Cardan

/-! ### The grille -/

inductive Quarter where
  | None
  | First
  | Second
  | Third
  | Fourth
  deriving DecidableEq

instance : Fintype Quarter :=
  ⟨{.None, .First, .Second, .Third, .Fourth}, by intro q; cases q <;> simp⟩

def THREE_LOWER_BITS_MASK : BitVec 16 := 0x0007

def Quarter.new (value : BitVec 16) : Quarter :=
  match (value &&& THREE_LOWER_BITS_MASK).toNat with
  | 0b100 => .First
  | 0b101 => .Second
  | 0b110 => .Third
  | 0b111 => .Fourth
  | _ => .None

structure Grille where
  topLeft : Quarter
  topRight : Quarter
  bottomLeft : Quarter
  bottomRight : Quarter

/-- `none` is the overflow of the subtraction. -/
def Grille.new (stableHash : StableHash) (secretKey : List Byte) : Option Grille :=
  let hash := stableHash.ofStr secretKey % (1 <<< 12 + 1)
  if hash = 0 then none
  else
    let hash := (hash - 1).setWidth 16
    some
      { topLeft := .new hash
        topRight := .new (hash >>> 3)
        bottomLeft := .new (hash >>> 6)
        bottomRight := .new (hash >>> 9) }

/-! ### Blocks -/

/-- The next character of the message goes to the slot of the opening. -/
def Quarter.write (q : Quarter) (first second third fourth : ℕ) :
    List (Option Char) × List Char → List (Option Char) × List Char
  | (block, chars) =>
    match q with
    | .First => (block.set first chars.head?, chars.tail)
    | .Second => (block.set second chars.head?, chars.tail)
    | .Third => (block.set third chars.head?, chars.tail)
    | .Fourth => (block.set fourth chars.head?, chars.tail)
    | .None => (block, chars)

def Quarter.read (q : Quarter) (first second third fourth : ℕ) (block : List Char) : Option Char :=
  match q with
  | .First => block[first]?
  | .Second => block[second]?
  | .Third => block[third]?
  | .Fourth => block[fourth]?
  | .None => none

/-- The block before it is filled up, and the rest of the message. -/
def Grille.cypherBlock (g : Grille) (chars : List Char) : List (Option Char) × List Char :=
  (g.bottomRight.write 5 6 10 9 ∘ g.bottomLeft.write 4 2 11 13 ∘ g.topRight.write 1 7 14 8 ∘
    g.topLeft.write 0 3 15 12) (List.replicate 16 none, chars)

def Grille.decypherBlock (g : Grille) (block : List Char) : List Char :=
  [g.topLeft.read 0 3 15 12 block, g.topRight.read 1 7 14 8 block,
    g.bottomLeft.read 4 2 11 13 block, g.bottomRight.read 5 6 10 9 block].filterMap id

/-! ### Messages -/

/-- The loop of `encode` from the `n`-th random symbol on. Without openings it takes
nothing from the message and never ends. -/
def Grille.encodeLoop (g : Grille) (randomSymbol : ℕ → Char) :
    ℕ → ℕ → List Char → Option (List Char)
  | _, _, [] => some []
  | 0, _, _ :: _ => none
  | fuel + 1, n, chars =>
    let (block, rest) := g.cypherBlock chars
    let (block, n) := fill randomSymbol n block
    (g.encodeLoop randomSymbol fuel n rest).map (block ++ ·)

/-- Each round of the loop takes a character or is the first of infinitely many. -/
def Grille.encode (g : Grille) (randomSymbol : ℕ → Char) (input : List Char) :
    Option (List Char) :=
  g.encodeLoop randomSymbol input.length 0 input

/-- The blocks of sixteen characters, and the remainder filled up to one. -/
def Grille.decode (g : Grille) (randomSymbol : ℕ → Char) (input : List Char) : List Char :=
  if 16 ≤ input.length then
    g.decypherBlock (input.take 16) ++ g.decode randomSymbol (input.drop 16)
  else g.decypherBlock (input ++ (List.range (16 - input.length)).map randomSymbol)
termination_by input.length
decreasing_by
  rw [List.length_drop]
  omega

def encode (stableHash : StableHash) (randomSymbol : ℕ → Char) (input : List Char)
    (secretKey : List Byte) : Option (List Char) :=
  (Grille.new stableHash secretKey).bind (·.encode randomSymbol input)

def decode (stableHash : StableHash) (randomSymbol : ℕ → Char) (input : List Char)
    (secretKey : List Byte) : Option (List Char) :=
  (Grille.new stableHash secretKey).map (·.decode randomSymbol input)

/-! ### Slots -/

/-- The slot of the opening in a quarter. -/
def Quarter.slot (q : Quarter) (first second third fourth : ℕ) : Option ℕ :=
  match q with
  | .First => some first
  | .Second => some second
  | .Third => some third
  | .Fourth => some fourth
  | .None => none

/-- The slots of a grille, in the order in which they are written. -/
def Grille.slots (g : Grille) : List ℕ :=
  (g.topLeft.slot 0 3 15 12).toList ++ ((g.topRight.slot 1 7 14 8).toList ++
    ((g.bottomLeft.slot 4 2 11 13).toList ++ (g.bottomRight.slot 5 6 10 9).toList))

/-- No two quarters share a slot. -/
theorem Grille.slots_nodup (g : Grille) : g.slots.Nodup := by
  have h : ∀ a b c d : Quarter, (Grille.mk a b c d).slots.Nodup := by decide +kernel
  exact h g.topLeft g.topRight g.bottomLeft g.bottomRight

theorem Grille.slots_lt (g : Grille) : ∀ slot ∈ g.slots, slot < 16 := by
  have h : ∀ a b c d : Quarter, ∀ slot ∈ (Grille.mk a b c d).slots, slot < 16 := by
    decide +kernel
  exact h g.topLeft g.topRight g.bottomLeft g.bottomRight

theorem Quarter.write_eq (q : Quarter) (first second third fourth : ℕ)
    (block : List (Option Char)) (chars : List Char) :
    q.write first second third fourth (block, chars) =
      (scatter (q.slot first second third fourth).toList chars block,
        chars.drop (q.slot first second third fourth).toList.length) := by
  cases q <;> simp [Quarter.write, Quarter.slot, scatter]

theorem Quarter.read_eq (q : Quarter) (first second third fourth : ℕ) (block : List Char) :
    (q.read first second third fourth block).toList =
      gather (q.slot first second third fourth).toList block := by
  cases q <;> simp [Quarter.read, Quarter.slot, gather, List.filterMap_cons] <;>
    split <;> simp_all

theorem Grille.cypherBlock_eq (g : Grille) (chars : List Char) :
    g.cypherBlock chars =
      (scatter g.slots chars (List.replicate 16 none), chars.drop g.slots.length) := by
  simp only [cypherBlock, Function.comp_apply, Quarter.write_eq, slots, scatter_append,
    List.drop_drop, List.length_append, Nat.add_assoc]

theorem Grille.decypherBlock_eq (g : Grille) (block : List Char) :
    g.decypherBlock block = gather g.slots block := by
  have hfilterMap : ∀ a b c d : Option Char,
      [a, b, c, d].filterMap id = a.toList ++ (b.toList ++ (c.toList ++ d.toList)) := by
    intro a b c d
    cases a <;> cases b <;> cases c <;> cases d <;> rfl
  rw [decypherBlock, hfilterMap]
  simp only [Quarter.read_eq, slots, gather_append]

/-! ### Round trip -/

/-- A quarter with an opening. -/
def Grille.HasOpening (g : Grille) : Prop :=
  g.topLeft ≠ .None ∨ g.topRight ≠ .None ∨ g.bottomLeft ≠ .None ∨ g.bottomRight ≠ .None

instance (g : Grille) : Decidable g.HasOpening := inferInstanceAs (Decidable (_ ∨ _ ∨ _ ∨ _))

theorem Grille.slots_pos {g : Grille} (h : g.HasOpening) : 0 < g.slots.length := by
  have hall : ∀ a b c d : Quarter, (Grille.mk a b c d).HasOpening →
      0 < (Grille.mk a b c d).slots.length := by decide +kernel
  exact hall g.topLeft g.topRight g.bottomLeft g.bottomRight h

theorem Grille.slots_eq_nil {g : Grille} (h : ¬ g.HasOpening) : g.slots = [] := by
  have hall : ∀ a b c d : Quarter, ¬ (Grille.mk a b c d).HasOpening →
      (Grille.mk a b c d).slots = [] := by decide +kernel
  exact hall g.topLeft g.topRight g.bottomLeft g.bottomRight h

/-- A filled block gives back the characters that went into it, and as many as there
are openings. -/
theorem Grille.decypherBlock_fill (g : Grille) (randomSymbol : ℕ → Char) (n : ℕ)
    (chars : List Char) :
    let block := (fill randomSymbol n (g.cypherBlock chars).1).1
    block.length = 16 ∧ (g.decypherBlock block).length = g.slots.length ∧
      chars.take g.slots.length <+: g.decypherBlock block := by
  intro block
  have hlength : block.length = 16 := by
    rw [fill_length, g.cypherBlock_eq, scatter_length, List.length_replicate]
  refine ⟨hlength, ?_, ?_⟩
  · rw [g.decypherBlock_eq, gather_length]
    intro slot hslot
    rw [hlength]
    exact g.slots_lt slot hslot
  · have hlt : ∀ slot ∈ g.slots, slot < (List.replicate 16 (none : Option Char)).length := by
      intro slot hslot
      rw [List.length_replicate]
      exact g.slots_lt slot hslot
    have hwritten : ∀ (i : ℕ) (x : Char),
        (scatter g.slots chars (List.replicate 16 none))[i]? = some (some x) →
          block[i]? = some x := by
      intro i x h
      apply getElem?_fill
      rw [g.cypherBlock_eq]
      exact h
    rw [g.decypherBlock_eq]
    exact take_prefix_gather g.slots_nodup hlt hwritten (by rw [hlength, List.length_replicate])

theorem Grille.decode_append (g : Grille) (randomSymbol : ℕ → Char) {block : List Char}
    (h : block.length = 16) (rest : List Char) : g.decode randomSymbol (block ++ rest) =
      g.decypherBlock block ++ g.decode randomSymbol rest := by
  have hlength : 16 ≤ (block ++ rest).length := by
    rw [List.length_append]
    omega
  rw [decode, if_pos hlength, List.take_left' h, List.drop_left' h]

/-- Induction on the rounds: every round but the last takes as many characters as
there are openings, so what its block gives back is exactly what it took. -/
theorem Grille.encodeLoop_spec {g : Grille} (hg : g.HasOpening)
    (randomSymbol randomSymbol' : ℕ → Char) {fuel : ℕ} (n : ℕ) {chars : List Char}
    (hfuel : chars.length ≤ fuel) : ∃ c, g.encodeLoop randomSymbol fuel n chars = some c ∧
      16 ∣ c.length ∧ chars <+: g.decode randomSymbol' c := by
  induction fuel generalizing n chars with
  | zero =>
    obtain rfl : chars = [] := List.length_eq_zero_iff.mp (by omega)
    exact ⟨[], rfl, by simp, List.nil_prefix⟩
  | succ fuel ih =>
    cases chars with
    | nil => exact ⟨[], rfl, by simp, List.nil_prefix⟩
    | cons x xs =>
      have hpos := slots_pos hg
      have hspec := g.decypherBlock_fill randomSymbol n (x :: xs)
      have hdrop : ((x :: xs).drop g.slots.length).length ≤ fuel := by
        rw [List.length_drop]
        omega
      obtain ⟨hlength, hcount, hprefix⟩ := hspec
      obtain ⟨c, hc, hdvd, hrest⟩ := ih (fill randomSymbol n (g.cypherBlock (x :: xs)).1).2 hdrop
      have hloop : g.encodeLoop randomSymbol (fuel + 1) n (x :: xs) =
          some ((fill randomSymbol n (g.cypherBlock (x :: xs)).1).1 ++ c) := by
        have hsnd : (g.cypherBlock (x :: xs)).2 = (x :: xs).drop g.slots.length := by
          rw [g.cypherBlock_eq]
        simp only [encodeLoop]
        rw [hsnd, hc]
        rfl
      refine ⟨_, hloop, ?_, ?_⟩
      · rw [List.length_append, hlength]
        omega
      · rw [g.decode_append randomSymbol' hlength]
        by_cases hlast : g.slots.length ≤ (x :: xs).length
        · have htake : (x :: xs).take g.slots.length = g.decypherBlock
              (fill randomSymbol n (g.cypherBlock (x :: xs)).1).1 := by
            apply hprefix.eq_of_length
            rw [hcount, List.length_take]
            omega
          have happend := (List.prefix_append_right_inj ((x :: xs).take g.slots.length)).mpr hrest
          rw [List.take_append_drop] at happend
          rw [← htake]
          exact happend
        · rw [List.take_of_length_le (by omega)] at hprefix
          exact hprefix.trans (List.prefix_append _ _)

/-- A grille with an opening: whatever fills the blocks, encoding ends with whole
blocks, and decoding gives the message back, followed by fillers. -/
theorem Grille.message_prefix_decode {g : Grille} (hg : g.HasOpening)
    (randomSymbol randomSymbol' : ℕ → Char) (message : List Char) :
    ∃ c, g.encode randomSymbol message = some c ∧ 16 ∣ c.length ∧
      message <+: g.decode randomSymbol' c :=
  encodeLoop_spec hg randomSymbol randomSymbol' 0 (Nat.le_refl _)

/-- Openings in two of the quarters, and a message of one character more than they
take in a block. -/
theorem Grille.message_prefix_decode_two :
    let g : Grille := ⟨.First, .None, .None, .Third⟩
    ∃ c, g.encode (fun _ => 'x') ['K', 'E', 'Y'] = some c ∧ 16 ∣ c.length ∧
      ['K', 'E', 'Y'] <+: g.decode (fun _ => 'y') c :=
  message_prefix_decode (by decide) _ _ _

/-- With the key: the two functions make the same grille of it. -/
theorem prefix_decode_of_key {stableHash : StableHash} {secretKey : List Byte} {g : Grille}
    (h : Grille.new stableHash secretKey = some g) (hg : g.HasOpening)
    (randomSymbol randomSymbol' : ℕ → Char) (message : List Char) :
    ∃ c, encode stableHash randomSymbol message secretKey = some c ∧
      ∃ p, decode stableHash randomSymbol' c secretKey = some p ∧ message <+: p := by
  obtain ⟨c, hc, -, hprefix⟩ :=
    Grille.encodeLoop_spec hg randomSymbol randomSymbol' 0 (Nat.le_refl message.length)
  refine ⟨c, ?_, g.decode randomSymbol' c, ?_, hprefix⟩
  · rw [encode, h, Option.bind_some, Grille.encode, hc]
  · rw [decode, h, Option.map_some]

/-- The loop never ends without an opening. -/
theorem Grille.encode_eq_none {g : Grille} (hg : ¬ g.HasOpening) (randomSymbol : ℕ → Char)
    (fuel n : ℕ) {chars : List Char} (h : chars ≠ []) :
    g.encodeLoop randomSymbol fuel n chars = none := by
  have hslots := slots_eq_nil hg
  have hsnd : (g.cypherBlock chars).2 = chars := by
    rw [g.cypherBlock_eq, hslots]
    rfl
  induction fuel generalizing n with
  | zero =>
    cases chars with
    | nil => exact absurd rfl h
    | cons x xs => rfl
  | succ fuel ih =>
    cases chars with
    | nil => exact absurd rfl h
    | cons x xs =>
      simp only [encodeLoop]
      rw [hsnd, ih]
      rfl

end Cardan

end Itmo.Endec
