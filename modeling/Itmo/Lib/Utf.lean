import Mathlib.Data.List.Basic
import Mathlib.Data.Nat.Notation
import Mathlib.Tactic.SplitIfs

/-! Characters in UTF-8 and UTF-16. Octets are natural numbers. The decoder never fails: a
malformed sequence becomes the replacement character U+FFFD and ends where a well-formed
one could still start, and a sequence that the input ends within is one such character. So
what is decoded from a part of an encoded text are the characters that the part holds, and
a replacement character if it ends within one. -/

namespace Itmo.Lib.Utf

/-- The replacement character. -/
def replacement : Char := Char.ofNat 0xFFFD

theorem toNat_cases (c : Char) : c.toNat < 0xD800 ∨ 0xDFFF < c.toNat ∧ c.toNat < 0x110000 := c.valid

/-! ### UTF-8 -/

def encodeChar (c : Char) : List ℕ :=
  let n := c.toNat
  if n < 0x80 then [n]
  else if n < 0x800 then [0xC0 + n / 64, 0x80 + n % 64]
  else if n < 0x10000 then [0xE0 + n / 4096, 0x80 + n / 64 % 64, 0x80 + n % 64]
  else [0xF0 + n / 262144, 0x80 + n / 4096 % 64, 0x80 + n / 64 % 64, 0x80 + n % 64]

def encode (cs : List Char) : List ℕ := cs.flatMap encodeChar

/-- An octet within a sequence. -/
def isContinuation (b : ℕ) : Bool := 0x80 ≤ b && b ≤ 0xBF

/-- The second octet of a sequence of three; after `0xE0` only the upper half. -/
def isSecondOfThree (b₁ b₂ : ℕ) : Bool := isContinuation b₂ && (b₁ ≠ 0xE0 || 0xA0 ≤ b₂)

/-- The second octet of a sequence of four, for numbers from 0x10000 to 0x10FFFF. -/
def isSecondOfFour (b₁ b₂ : ℕ) : Bool :=
  isContinuation b₂ && b₁ ≤ 0xF4 && (b₁ ≠ 0xF0 || 0x90 ≤ b₂) && (b₁ ≠ 0xF4 || b₂ ≤ 0x8F)

def isSurrogate (n : ℕ) : Bool := 0xD800 ≤ n && n ≤ 0xDFFF

/-- The character that an octet starts, and how many of the octets behind it belong to it. -/
def decodeChar (b₁ : ℕ) (rest : List ℕ) : Char × ℕ :=
  if b₁ < 0x80 then (Char.ofNat b₁, 0)
  else if 0xC2 ≤ b₁ ∧ b₁ ≤ 0xDF then
    match rest with
    | [] => (replacement, 0)
    | b₂ :: _ =>
      if isContinuation b₂ then (Char.ofNat ((b₁ - 0xC0) * 64 + (b₂ - 0x80)), 1)
      else (replacement, 0)
  else if 0xE0 ≤ b₁ ∧ b₁ ≤ 0xEF then
    match rest with
    | [] => (replacement, 0)
    | [b₂] => (replacement, if isSecondOfThree b₁ b₂ then 1 else 0)
    | b₂ :: b₃ :: _ =>
      if !isSecondOfThree b₁ b₂ then (replacement, 0)
      else if !isContinuation b₃ then (replacement, 1)
      else
        let n := (b₁ - 0xE0) * 4096 + (b₂ - 0x80) * 64 + (b₃ - 0x80)
        (if isSurrogate n then replacement else Char.ofNat n, 2)
  else if 0xF0 ≤ b₁ ∧ b₁ ≤ 0xF7 then
    match rest with
    | [] => (replacement, 0)
    | [b₂] => (replacement, if isSecondOfFour b₁ b₂ then 1 else 0)
    | [b₂, b₃] =>
      (replacement, if !isSecondOfFour b₁ b₂ then 0 else if isContinuation b₃ then 2 else 1)
    | b₂ :: b₃ :: b₄ :: _ =>
      if !isSecondOfFour b₁ b₂ then (replacement, 0)
      else if !isContinuation b₃ then (replacement, 1)
      else if !isContinuation b₄ then (replacement, 2)
      else (Char.ofNat
        ((b₁ - 0xF0) * 262144 + (b₂ - 0x80) * 4096 + (b₃ - 0x80) * 64 + (b₄ - 0x80)), 3)
  else (replacement, 0)

/-- At most `n` characters. -/
def decodeUpTo : ℕ → List ℕ → List Char
  | 0, _ => []
  | _ + 1, [] => []
  | n + 1, b :: rest =>
    let (c, k) := decodeChar b rest
    c :: decodeUpTo n (rest.drop k)

/-- Every character takes an octet, so there are no more of them. -/
def decode (bytes : List ℕ) : List Char := decodeUpTo bytes.length bytes

/-! ### Single characters -/

theorem encodeChar_ne_nil (c : Char) : encodeChar c ≠ [] := by
  unfold encodeChar
  dsimp only
  split_ifs <;> exact List.cons_ne_nil _ _

theorem isContinuation_add {d : ℕ} (h : d < 64) : isContinuation (0x80 + d) = true := by
  unfold isContinuation
  simp only [Bool.and_eq_true, decide_eq_true_eq]
  omega

theorem isSecondOfThree_div {n : ℕ} (h : 0x800 ≤ n) (hlt : n < 0x10000) :
    isSecondOfThree (0xE0 + n / 4096) (0x80 + n / 64 % 64) = true := by
  unfold isSecondOfThree
  rw [isContinuation_add (by omega)]
  simp only [Bool.true_and, Bool.or_eq_true, decide_eq_true_eq]
  omega

theorem isSecondOfFour_div {n : ℕ} (h : 0x10000 ≤ n) (hlt : n < 0x110000) :
    isSecondOfFour (0xF0 + n / 262144) (0x80 + n / 4096 % 64) = true := by
  unfold isSecondOfFour
  rw [isContinuation_add (by omega)]
  simp only [Bool.true_and, Bool.and_eq_true, Bool.or_eq_true, decide_eq_true_eq]
  omega

/-- An encoded character is decoded, whatever stands behind it. -/
theorem decodeChar_encodeChar (c : Char) (rest : List ℕ) :
    ∃ b bs, encodeChar c = b :: bs ∧ decodeChar b (bs ++ rest) = (c, bs.length) := by
  have hvalid := toNat_cases c
  have hc : Char.ofNat c.toNat = c := Char.ofNat_toNat c
  unfold encodeChar
  dsimp only
  generalize c.toNat = n at *
  split_ifs with h₁ h₂ h₃
  · refine ⟨n, [], rfl, ?_⟩
    unfold decodeChar
    rw [if_pos h₁, hc]
    rfl
  · refine ⟨_, _, rfl, ?_⟩
    unfold decodeChar
    rw [if_neg (by omega), if_pos (by omega)]
    simp only [List.cons_append, isContinuation_add (d := n % 64) (by omega), if_true]
    rw [show (0xC0 + n / 64 - 0xC0) * 64 + (0x80 + n % 64 - 0x80) = n by omega, hc]
    rfl
  · refine ⟨_, _, rfl, ?_⟩
    have hsurrogate : isSurrogate n = false := by
      unfold isSurrogate
      simp only [Bool.and_eq_false_iff, decide_eq_false_iff_not]
      omega
    unfold decodeChar
    rw [if_neg (by omega), if_neg (by omega), if_pos (by omega)]
    simp only [List.cons_append, isSecondOfThree_div (by omega : 0x800 ≤ n) h₃,
      isContinuation_add (d := n % 64) (by omega), Bool.not_true, Bool.false_eq_true, if_false]
    rw [show (0xE0 + n / 4096 - 0xE0) * 4096 + (0x80 + n / 64 % 64 - 0x80) * 64 +
      (0x80 + n % 64 - 0x80) = n by omega, hsurrogate, hc]
    rfl
  · refine ⟨_, _, rfl, ?_⟩
    unfold decodeChar
    rw [if_neg (by omega), if_neg (by omega), if_neg (by omega), if_pos (by omega)]
    simp only [List.cons_append, isSecondOfFour_div (by omega : 0x10000 ≤ n) (by omega),
      isContinuation_add (d := n / 64 % 64) (by omega), isContinuation_add (d := n % 64) (by omega),
      Bool.not_true, Bool.false_eq_true, if_false]
    rw [show (0xF0 + n / 262144 - 0xF0) * 262144 + (0x80 + n / 4096 % 64 - 0x80) * 4096 +
      (0x80 + n / 64 % 64 - 0x80) * 64 + (0x80 + n % 64 - 0x80) = n by omega, hc]
    rfl

theorem eq_take_of_prefix {α : Type*} {l l' : List α} (h : l <+: l') (hne : l ≠ l') :
    ∃ k, k < l'.length ∧ l = l'.take k := by
  refine ⟨l.length, ?_, List.prefix_iff_eq_take.mp h⟩
  exact Nat.lt_of_le_of_ne h.length_le fun hlen => hne (h.eq_of_length hlen)

/-- A part of an encoded character is one replacement character. -/
theorem decodeChar_part {c : Char} {b : ℕ} {bs : List ℕ} (h : b :: bs <+: encodeChar c)
    (hne : b :: bs ≠ encodeChar c) : decodeChar b bs = (replacement, bs.length) := by
  have hvalid := toNat_cases c
  unfold encodeChar at h hne
  dsimp only at h hne
  generalize c.toNat = n at *
  have hsplit : ∀ x xs, b :: bs <+: x :: xs → b :: bs ≠ x :: xs →
      b = x ∧ ∃ k, k < xs.length ∧ bs = xs.take k := by
    intro x xs hpre hstrict
    obtain ⟨rfl, htail⟩ := List.cons_prefix_cons.mp hpre
    exact ⟨rfl, eq_take_of_prefix htail fun heq => hstrict (by rw [heq])⟩
  split_ifs at h hne with h₁ h₂ h₃
  · obtain ⟨-, k, hk, -⟩ := hsplit _ _ h hne
    exact absurd hk (Nat.not_lt_zero k)
  · obtain ⟨rfl, k, hk, rfl⟩ := hsplit _ _ h hne
    unfold decodeChar
    rw [if_neg (by omega), if_pos (by omega)]
    match k, hk with
    | 0, _ => rfl
  · obtain ⟨rfl, k, hk, rfl⟩ := hsplit _ _ h hne
    unfold decodeChar
    rw [if_neg (by omega), if_neg (by omega), if_pos (by omega)]
    match k, hk with
    | 0, _ => rfl
    | 1, _ =>
      simp only [List.take_succ_cons, List.take_zero,
        isSecondOfThree_div (by omega : 0x800 ≤ n) h₃, if_true]
      rfl
  · obtain ⟨rfl, k, hk, rfl⟩ := hsplit _ _ h hne
    unfold decodeChar
    rw [if_neg (by omega), if_neg (by omega), if_neg (by omega), if_pos (by omega)]
    match k, hk with
    | 0, _ => rfl
    | 1, _ =>
      simp only [List.take_succ_cons, List.take_zero,
        isSecondOfFour_div (by omega : 0x10000 ≤ n) (by omega), if_true]
      rfl
    | 2, _ =>
      simp only [List.take_succ_cons, List.take_zero,
        isSecondOfFour_div (by omega : 0x10000 ≤ n) (by omega), Bool.not_true,
        Bool.false_eq_true, if_false, isContinuation_add (d := n / 64 % 64) (by omega), if_true]
      rfl

/-! ### Texts -/

theorem encode_singleton (c : Char) : encode [c] = encodeChar c :=
  List.flatMap_singleton encodeChar c

theorem encode_cons (c : Char) (cs : List Char) : encode (c :: cs) = encodeChar c ++ encode cs :=
  List.flatMap_cons

theorem encode_append (cs ds : List Char) : encode (cs ++ ds) = encode cs ++ encode ds :=
  List.flatMap_append

theorem decodeUpTo_encode_append (cs : List Char) (rest : List ℕ) {n : ℕ}
    (h : (encode cs ++ rest).length ≤ n) :
    decodeUpTo n (encode cs ++ rest) = cs ++ decodeUpTo (n - cs.length) rest := by
  induction cs generalizing n with
  | nil => rfl
  | cons c cs ih =>
    obtain ⟨b, bs, hencode, hdecode⟩ := decodeChar_encodeChar c (encode cs ++ rest)
    have hbytes : encode (c :: cs) ++ rest = b :: (bs ++ (encode cs ++ rest)) := by
      rw [encode_cons, hencode, List.append_assoc, List.cons_append]
    rw [hbytes] at h ⊢
    cases n with
    | zero => exact absurd h (Nat.not_succ_le_zero _)
    | succ n =>
      rw [List.length_cons, List.length_append] at h
      rw [decodeUpTo, hdecode]
      dsimp only
      rw [List.drop_left, ih (by omega), List.length_cons, Nat.add_sub_add_right, List.cons_append]

theorem length_le_encode (cs : List Char) : cs.length ≤ (encode cs).length := by
  induction cs with
  | nil => exact Nat.le_refl _
  | cons c cs ih =>
    have hc := List.length_pos_of_ne_nil (encodeChar_ne_nil c)
    rw [encode_cons, List.length_append, List.length_cons]
    omega

theorem decode_encode (cs : List Char) : decode (encode cs) = cs := by
  have h := decodeUpTo_encode_append cs [] (n := (encode cs ++ []).length) (Nat.le_refl _)
  rw [List.append_nil] at h
  unfold decode
  rw [h]
  cases (encode cs).length - cs.length <;> exact List.append_nil cs

/-- A text that ends within a character. -/
theorem decode_encode_part (cs : List Char) {c : Char} {part : List ℕ} (h : part <+: encodeChar c)
    (hnil : part ≠ []) (hne : part ≠ encodeChar c) :
    decode (encode cs ++ part) = cs ++ [replacement] := by
  cases part with
  | nil => exact absurd rfl hnil
  | cons b bs =>
    have hfuel : ∃ n, (encode cs ++ b :: bs).length - cs.length = n + 1 := by
      have hle := length_le_encode cs
      rw [List.length_append, List.length_cons]
      exact ⟨(encode cs).length + bs.length - cs.length, by omega⟩
    obtain ⟨n, hn⟩ := hfuel
    unfold decode
    rw [decodeUpTo_encode_append cs _ (Nat.le_refl _), hn, decodeUpTo, decodeChar_part h hne]
    dsimp only
    rw [List.drop_length]
    cases n <;> rfl

/-- What a part of an encoded text holds: whole characters, and perhaps a part of the
next one. -/
theorem prefix_encode {cs : List Char} {bytes : List ℕ} (h : bytes <+: encode cs) :
    (∃ before after, cs = before ++ after ∧ bytes = encode before) ∨
      ∃ before c after part, cs = before ++ c :: after ∧ bytes = encode before ++ part ∧
        part <+: encodeChar c ∧ part ≠ [] ∧ part ≠ encodeChar c := by
  induction cs generalizing bytes with
  | nil => exact .inl ⟨[], [], rfl, List.prefix_nil.mp h⟩
  | cons c cs ih =>
    rw [encode_cons] at h
    rcases List.prefix_or_prefix_of_prefix h (List.prefix_append _ _) with hpart | ⟨t, rfl⟩
    · by_cases hnil : bytes = []
      · exact .inl ⟨[], c :: cs, rfl, hnil⟩
      · by_cases hall : bytes = encodeChar c
        · exact .inl ⟨[c], cs, rfl, hall.trans (encode_singleton c).symm⟩
        · exact .inr ⟨[], c, cs, bytes, rfl, rfl, hpart, hnil, hall⟩
    · rcases ih ((List.prefix_append_right_inj _).mp h) with ⟨before, after, rfl, rfl⟩ |
        ⟨before, c', after, part, rfl, rfl, hpart⟩
      · exact .inl ⟨c :: before, after, rfl, (encode_cons c before).symm⟩
      · exact .inr ⟨c :: before, c', after, part, rfl,
          by rw [encode_cons, List.append_assoc], hpart⟩

/-- The octets that may be missing at the end: without up to two of its three, a replacement
character is decoded as one. -/
def spare (cs : List Char) : ℕ := if cs.getLast? = some replacement then 2 else 0

/-- What is missing is more than may be, if it is a character or more. -/
theorem spare_lt (before : List Char) {after : List Char} (h : after ≠ []) :
    spare (before ++ after) < (encode after).length := by
  obtain ⟨ds, d, rfl⟩ := (List.eq_nil_or_concat' after).resolve_left h
  unfold spare
  rw [encode_append, List.length_append, ← List.append_assoc, List.getLast?_concat]
  split_ifs with hd
  · rw [Option.some_inj] at hd
    have hlength : (encode [d]).length = 3 := by rw [hd]; rfl
    omega
  · have hd := List.length_pos_of_ne_nil (encodeChar_ne_nil d)
    rw [encode_singleton]
    omega

/-- A part of an encoded text is decoded as the whole if and only if nothing is missing,
but for the end of a replacement character. -/
theorem decode_prefix_eq_iff {cs : List Char} {bytes : List ℕ} (h : bytes <+: encode cs) :
    decode bytes = cs ↔ (encode cs).length ≤ bytes.length + spare cs := by
  rcases prefix_encode h with ⟨before, after, rfl, rfl⟩ | ⟨before, c, after, part, rfl, rfl, hpart⟩
  · rw [decode_encode, encode_append, List.length_append]
    by_cases hafter : after = []
    · simp [hafter, encode]
    · have hlt := spare_lt before hafter
      simp only [List.self_eq_append_right, hafter, false_iff]
      omega
  · obtain ⟨hpre, hnil, hne⟩ := hpart
    have hlt := Nat.lt_of_le_of_ne hpre.length_le fun hlen => hne (hpre.eq_of_length hlen)
    have hpos := List.length_pos_of_ne_nil hnil
    have hencode : (encode (before ++ c :: after)).length =
        (encode before).length + (encodeChar c).length + (encode after).length := by
      rw [encode_append, encode_cons, List.length_append, List.length_append, Nat.add_assoc]
    rw [decode_encode_part before hpre hnil hne, hencode, List.length_append,
      List.append_cancel_left_eq, List.cons.injEq]
    by_cases hafter : after = []
    · subst hafter
      have hspare : spare (before ++ [c]) = if c = replacement then 2 else 0 := by
        unfold spare
        rw [List.getLast?_concat]
        simp only [Option.some_inj]
      have hnone : (encode []).length = 0 := rfl
      rw [hspare, hnone]
      split_ifs with hc
      · have hlength : (encodeChar c).length = 3 := by rw [hc]; rfl
        exact ⟨fun _ => by omega, fun _ => ⟨hc.symm, rfl⟩⟩
      · simp only [Ne.symm hc, false_and, false_iff]
        omega
    · have hspare := spare_lt (before ++ [c]) hafter
      rw [List.append_assoc, List.singleton_append] at hspare
      simp only [Ne.symm hafter, and_false, false_iff]
      omega

/-! ### UTF-16 -/

/-- The one or two units of a character. -/
def units (c : Char) : List UInt16 :=
  if c.toNat < 0x10000 then [UInt16.ofNat c.toNat]
  else [UInt16.ofNat (0xD800 + (c.toNat - 0x10000) / 1024),
    UInt16.ofNat (0xDC00 + (c.toNat - 0x10000) % 1024)]

def toUnits (cs : List Char) : List UInt16 := cs.flatMap units

def isHigh (u : UInt16) : Bool := 0xD800 ≤ u.toNat && u.toNat ≤ 0xDBFF

def isLow (u : UInt16) : Bool := 0xDC00 ≤ u.toNat && u.toNat ≤ 0xDFFF

/-- The characters of units. A unit of a pair that stands alone becomes a question mark, and
one that could begin a pair waits at the end for the other one, which does not come. -/
def ofUnits : List UInt16 → List Char
  | [] => []
  | u :: us =>
    if isHigh u then
      match us with
      | [] => []
      | v :: vs =>
        if isLow v then
          Char.ofNat (0x10000 + (u.toNat - 0xD800) * 1024 + (v.toNat - 0xDC00)) :: ofUnits vs
        else '?' :: ofUnits (v :: vs)
    else if isLow u then '?' :: ofUnits us
    else Char.ofNat u.toNat :: ofUnits us

theorem ofUnits_units_append (c : Char) (us : List UInt16) :
    ofUnits (units c ++ us) = c :: ofUnits us := by
  have hvalid := toNat_cases c
  have hc : Char.ofNat c.toNat = c := Char.ofNat_toNat c
  unfold units
  split_ifs with h
  · have hunit : (UInt16.ofNat c.toNat).toNat = c.toNat := by
      rw [UInt16.toNat_ofNat', Nat.mod_eq_of_lt (by omega)]
    have hhigh : isHigh (UInt16.ofNat c.toNat) = false := by
      unfold isHigh
      rw [hunit]
      simp only [Bool.and_eq_false_iff, decide_eq_false_iff_not]
      omega
    have hlow : isLow (UInt16.ofNat c.toNat) = false := by
      unfold isLow
      rw [hunit]
      simp only [Bool.and_eq_false_iff, decide_eq_false_iff_not]
      omega
    rw [List.singleton_append, ofUnits.eq_def]
    dsimp only
    rw [hhigh, hlow, hunit, hc]
    rfl
  · have hu : (UInt16.ofNat (0xD800 + (c.toNat - 0x10000) / 1024)).toNat =
        0xD800 + (c.toNat - 0x10000) / 1024 := by
      rw [UInt16.toNat_ofNat', Nat.mod_eq_of_lt (by omega)]
    have hv : (UInt16.ofNat (0xDC00 + (c.toNat - 0x10000) % 1024)).toNat =
        0xDC00 + (c.toNat - 0x10000) % 1024 := by
      rw [UInt16.toNat_ofNat', Nat.mod_eq_of_lt (by omega)]
    have hhigh : isHigh (UInt16.ofNat (0xD800 + (c.toNat - 0x10000) / 1024)) = true := by
      unfold isHigh
      rw [hu]
      simp only [Bool.and_eq_true, decide_eq_true_eq]
      omega
    have hlow : isLow (UInt16.ofNat (0xDC00 + (c.toNat - 0x10000) % 1024)) = true := by
      unfold isLow
      rw [hv]
      simp only [Bool.and_eq_true, decide_eq_true_eq]
      omega
    have hvalue : 0x10000 + (0xD800 + (c.toNat - 0x10000) / 1024 - 0xD800) * 1024 +
        (0xDC00 + (c.toNat - 0x10000) % 1024 - 0xDC00) = c.toNat := by omega
    rw [List.cons_append, List.singleton_append, ofUnits, if_pos hhigh, if_pos hlow, hu, hv,
      hvalue, hc]

theorem ofUnits_toUnits (cs : List Char) : ofUnits (toUnits cs) = cs := by
  induction cs with
  | nil => rfl
  | cons c cs ih =>
    have hcons : toUnits (c :: cs) = units c ++ toUnits cs := List.flatMap_cons
    rw [hcons, ofUnits_units_append, ih]

/-- Units that are those of characters. -/
def WellFormed (us : List UInt16) : Prop := toUnits (ofUnits us) = us

instance : DecidablePred WellFormed := fun us => inferInstanceAs (Decidable (_ = us))

theorem toUnits_eq_iff {cs : List Char} {us : List UInt16} :
    toUnits cs = us ↔ WellFormed us ∧ cs = ofUnits us := by
  constructor
  · rintro rfl
    unfold WellFormed
    rw [ofUnits_toUnits]
    exact ⟨rfl, rfl⟩
  · rintro ⟨h, rfl⟩
    exact h

theorem units_ne_nil (c : Char) : units c ≠ [] := by
  unfold units
  split_ifs <;> exact List.cons_ne_nil _ _

theorem getLast_units (c : Char) : (units c).getLast? = some 0xFFFD ↔ c = replacement := by
  have hvalid := toNat_cases c
  have hc : Char.ofNat c.toNat = c := Char.ofNat_toNat c
  constructor
  · intro hlast
    unfold units at hlast
    split_ifs at hlast with h
    · have hunit : (UInt16.ofNat c.toNat).toNat = 0xFFFD :=
        congrArg UInt16.toNat (Option.some_inj.mp hlast)
      rw [UInt16.toNat_ofNat', Nat.mod_eq_of_lt (by omega)] at hunit
      rw [← hc, hunit]
      rfl
    · have hunit : (UInt16.ofNat (0xDC00 + (c.toNat - 0x10000) % 1024)).toNat = 0xFFFD :=
        congrArg UInt16.toNat (Option.some_inj.mp hlast)
      rw [UInt16.toNat_ofNat', Nat.mod_eq_of_lt (by omega)] at hunit
      omega
  · rintro rfl
    rfl

theorem getLast_toUnits (cs : List Char) :
    (toUnits cs).getLast? = some 0xFFFD ↔ cs.getLast? = some replacement := by
  rcases List.eq_nil_or_concat' cs with rfl | ⟨ds, d, rfl⟩
  · simp [toUnits]
  · have hlast : toUnits (ds ++ [d]) = toUnits ds ++ units d := by
      unfold toUnits
      rw [List.flatMap_append, List.flatMap_singleton]
    rw [hlast, List.getLast?_append_of_ne_nil _ (units_ne_nil d), List.getLast?_concat,
      getLast_units, Option.some_inj]

end Itmo.Lib.Utf
