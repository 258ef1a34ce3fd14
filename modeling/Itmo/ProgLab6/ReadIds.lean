import Itmo.ProgLab6.Commands
import Mathlib.Data.List.Induction
import Mathlib.Data.Nat.Digits.Defs

/-! Ids on their way from the client to the server. The client lets a text pass that is
an unsigned decimal number and sends the text; the server decodes it, for which a zero
in front of other digits starts an octal number and the upper half of the unsigned
range is too large. -/

namespace Itmo.ProgLab6

open Lib ProgLab8

/-- The decimal value of digits. -/
def decimalValue (digits : JString) : ℕ :=
  Nat.ofDigits 10 (digits.reverse.map fun c => (Character.digit c 10).getD 0)

/-- A zero that other characters follow. -/
def LeadingZero (digits : JString) : Prop := [0x30] <+: digits ∧ 1 < digits.length

instance : DecidablePred LeadingZero := fun digits =>
  inferInstanceAs (Decidable ([0x30] <+: digits ∧ 1 < digits.length))

/-! ### Digits in two radices -/

/-- The value of digits, possibly none. -/
def foldDigits (radix : ℕ) (s : JString) : Option ℕ :=
  s.foldlM (fun v c => (Character.digit c radix).map (v * radix + ·)) 0

theorem parseDigits_eq {radix : ℕ} {s : JString} (h : s ≠ []) :
    parseDigits radix s = foldDigits radix s := by
  cases s with
  | nil => exact absurd rfl h
  | cons c s => rfl

theorem foldDigits_concat (radix : ℕ) (s : JString) (c : UInt16) :
    foldDigits radix (s ++ [c]) = (foldDigits radix s).bind fun v =>
      (Character.digit c radix).map (v * radix + ·) := by
  unfold foldDigits
  rw [List.foldlM_append]
  congr 1
  funext v
  rw [List.foldlM_cons]
  exact bind_pure _

/-- What the last digit adds. -/
theorem foldDigits_concat_some {radix : ℕ} {s : JString} {c : UInt16} {v : ℕ} :
    foldDigits radix (s ++ [c]) = some v ↔ ∃ u, foldDigits radix s = some u ∧
      ∃ d, Character.digit c radix = some d ∧ u * radix + d = v := by
  rw [foldDigits_concat, Option.bind_eq_some_iff]
  simp only [Option.map_eq_some_iff]

theorem digit_octal (c : UInt16) :
    Character.digit c 8 = (Character.digit c 10).filter (· < 8) := by
  unfold Character.digit
  dsimp only
  rw [Option.filter_filter]
  congr 1
  funext d
  rw [Bool.eq_iff_iff, Bool.and_eq_true]
  simp only [decide_eq_true_eq]
  omega

theorem digit_octal_iff {c : UInt16} {d e : ℕ} (h : Character.digit c 10 = some d) :
    Character.digit c 8 = some e ↔ d = e ∧ d < 8 := by
  rw [digit_octal, h, Option.filter_some]
  split_ifs with hd
  · rw [decide_eq_true_eq] at hd
    rw [Option.some_inj]
    exact ⟨fun he => ⟨he, hd⟩, fun he => he.1⟩
  · rw [decide_eq_true_eq] at hd
    simp [hd]

theorem foldDigits_decimal {s : JString} {v : ℕ} (h : foldDigits 10 s = some v) :
    v = decimalValue s := by
  induction s using List.reverseRecOn generalizing v with
  | nil =>
    cases h
    rfl
  | append_singleton s c ih =>
    obtain ⟨u, hu, d, hd, rfl⟩ := foldDigits_concat_some.mp h
    unfold decimalValue
    rw [List.reverse_append, List.reverse_singleton, List.singleton_append, List.map_cons,
      Nat.ofDigits_cons, hd, Option.getD_some]
    have hvalue := ih hu
    unfold decimalValue at hvalue
    omega

/-- Read as an octal number, digits have at most their decimal value. -/
theorem foldDigits_octal_le {s : JString} {v w : ℕ} (hv : foldDigits 10 s = some v)
    (hw : foldDigits 8 s = some w) : w ≤ v := by
  induction s using List.reverseRecOn generalizing v w with
  | nil =>
    cases hv
    cases hw
    exact le_refl _
  | append_singleton s c ih =>
    obtain ⟨v', hv', d, hd, rfl⟩ := foldDigits_concat_some.mp hv
    obtain ⟨w', hw', e, he, rfl⟩ := foldDigits_concat_some.mp hw
    have hle := ih hv' hw'
    rw [digit_octal_iff hd] at he
    omega

theorem foldDigits_zero {s : JString} (h : foldDigits 10 s = some 0) :
    foldDigits 8 s = some 0 := by
  induction s using List.reverseRecOn with
  | nil => rfl
  | append_singleton s c ih =>
    obtain ⟨u, hu, d, hd, hzero⟩ := foldDigits_concat_some.mp h
    obtain rfl : u = 0 := by omega
    obtain rfl : d = 0 := by omega
    exact foldDigits_concat_some.mpr
      ⟨0, ih hu, 0, (digit_octal_iff hd).mpr ⟨rfl, by decide⟩, rfl⟩

/-- Both radices read the same number only if it has one digit that is an octal one. -/
theorem foldDigits_octal_iff {s : JString} {v : ℕ} (h : foldDigits 10 s = some v) :
    foldDigits 8 s = some v ↔ v < 8 := by
  rcases List.eq_nil_or_concat' s with rfl | ⟨t, c, rfl⟩
  · cases h
    decide
  · obtain ⟨u, hu, d, hd, rfl⟩ := foldDigits_concat_some.mp h
    constructor
    · intro hoctal
      obtain ⟨w, hw, e, he, hsame⟩ := foldDigits_concat_some.mp hoctal
      have hle := foldDigits_octal_le hu hw
      rw [digit_octal_iff hd] at he
      omega
    · intro hlt
      obtain rfl : u = 0 := by omega
      exact foldDigits_concat_some.mpr
        ⟨0, foldDigits_zero hu, d, (digit_octal_iff hd).mpr ⟨rfl, by omega⟩, by omega⟩

/-! ### The two readers -/

theorem digit_of_mem {s : JString} {v : ℕ} (h : foldDigits 10 s = some v) {c : UInt16}
    (hc : c ∈ s) : ∃ d, Character.digit c 10 = some d := by
  induction s using List.reverseRecOn generalizing v with
  | nil => cases hc
  | append_singleton s c' ih =>
    obtain ⟨u, hu, d, hd, -⟩ := foldDigits_concat_some.mp h
    rcases List.mem_append.mp hc with hc | hc
    · exact ih hu hc
    · rw [List.mem_singleton] at hc
      exact ⟨d, hc ▸ hd⟩

/-- Decimal digits do not start like a hexadecimal number. -/
theorem splitRadix_digits {digits : JString} {v : ℕ} (h : foldDigits 10 digits = some v) :
    splitRadix digits = if LeadingZero digits then (8, digits.drop 1) else (10, digits) := by
  have hnot : ∀ c : UInt16, Character.digit c 10 = none → c ∉ digits := by
    intro c hc hmem
    obtain ⟨d, hd⟩ := digit_of_mem h hmem
    rw [hc] at hd
    cases hd
  have hx : ¬ ([0x30, 0x78] <+: digits ∨ [0x30, 0x58] <+: digits) := by
    rintro (hpre | hpre)
    · exact hnot 0x78 (by decide) (hpre.subset (by decide))
    · exact hnot 0x58 (by decide) (hpre.subset (by decide))
  have hsharp : ¬ [0x23] <+: digits := fun hpre =>
    hnot 0x23 (by decide) (hpre.subset (by decide))
  unfold splitRadix
  rw [if_neg hx, if_neg hsharp]
  rfl

/-- A number that starts with a zero has the value of the digits behind it. -/
theorem foldDigits_drop {digits : JString} (h : [0x30] <+: digits) :
    foldDigits 10 (digits.drop 1) = foldDigits 10 digits := by
  obtain ⟨rest, rfl⟩ := h
  rfl

theorem LeadingZero.drop_ne_nil {digits : JString} (h : LeadingZero digits) :
    digits.drop 1 ≠ [] := by
  intro hnil
  have hlength := congrArg List.length hnil
  have hlong := h.2
  rw [List.length_drop, List.length_nil] at hlength
  omega

theorem inRange_iff (n : ℕ) (id : ℤ) :
    (if -2 ^ 31 ≤ signed false n ∧ signed false n < 2 ^ 31 then some (signed false n) else none) =
      some id ↔ n < 2 ^ 31 ∧ (n : ℤ) = id := by
  unfold signed
  rw [if_neg Bool.false_ne_true]
  split_ifs with hrange
  · rw [Option.some_inj]
    omega
  · simp only [false_iff]
    omega

/-- The client has the number itself or, from 2^31 on, a negative one. -/
theorem parseUnsignedInt_some {text : JString} {id : ℤ}
    (h : Integer.parseUnsignedInt text = some id) :
    (splitSign text).1 = false ∧ ∃ v, parseDigits 10 (splitSign text).2 = some v ∧
      ((v : ℤ) = id ∨ 2 ^ 31 ≤ v ∧ id < 0) := by
  unfold Integer.parseUnsignedInt at h
  generalize splitSign text = split at h ⊢
  obtain ⟨negative, digits⟩ := split
  dsimp only at h ⊢
  cases negative with
  | true => cases h
  | false =>
    rw [if_neg Bool.false_ne_true, Option.bind_eq_some_iff] at h
    obtain ⟨v, hparse, hid⟩ := h
    refine ⟨rfl, v, hparse, ?_⟩
    split_ifs at hid with hsmall hlarge
    · exact .inl (Option.some_inj.mp hid)
    · have hid := Option.some_inj.mp hid
      omega

/-- The client and the server read the same id, exactly if the number is below 2^31 and
below 8 where a zero stands in front of it. -/
theorem decode_eq_parseUnsignedInt_iff {text : JString} {id : ℤ}
    (h : Integer.parseUnsignedInt text = some id) :
    Integer.decode text = some id ↔
      decimalValue (splitSign text).2 < 2 ^ 31 ∧
        (LeadingZero (splitSign text).2 → decimalValue (splitSign text).2 < 8) := by
  obtain ⟨hsign, v, hparse, hvalue⟩ := parseUnsignedInt_some h
  unfold Integer.decode
  generalize splitSign text = split at hsign hparse ⊢
  obtain ⟨negative, digits⟩ := split
  obtain rfl : negative = false := hsign
  dsimp only at hparse ⊢
  have hne : digits ≠ [] := by
    rintro rfl
    cases hparse
  rw [parseDigits_eq hne] at hparse
  rw [splitRadix_digits hparse, ← foldDigits_decimal hparse, Option.bind_eq_some_iff]
  simp only [inRange_iff]
  split_ifs with hzero
  · have hdrop := (foldDigits_drop hzero.1).trans hparse
    dsimp only
    rw [parseDigits_eq hzero.drop_ne_nil]
    constructor
    · rintro ⟨w, hw, hrange, hwid⟩
      obtain rfl : w = v := by omega
      exact ⟨hrange, fun _ => (foldDigits_octal_iff hdrop).mp hw⟩
    · rintro ⟨hrange, hlt⟩
      exact ⟨v, (foldDigits_octal_iff hdrop).mpr (hlt hzero), hrange, by omega⟩
  · dsimp only
    rw [parseDigits_eq hne, hparse]
    constructor
    · rintro ⟨w, hw, hrange, -⟩
      cases hw
      exact ⟨hrange, fun hlead => absurd hlead hzero⟩
    · rintro ⟨hrange, -⟩
      exact ⟨v, rfl, hrange, by omega⟩

theorem decode_eq_parseUnsignedInt_seven : Integer.decode (.ofString "007") = some 7 := by
  have hparse : Integer.parseUnsignedInt (.ofString "007") = some 7 := by decide
  exact (decode_eq_parseUnsignedInt_iff hparse).mpr (by decide)

/-- The id ten, written with a zero in front, is eight on the server. -/
theorem decode_ne_parseUnsignedInt :
    ¬ ∀ text id, Integer.parseUnsignedInt text = some id → Integer.decode text = some id := by
  intro h
  have hten := h (.ofString "010") 10 (by decide)
  revert hten
  decide

end Itmo.ProgLab6
