import Itmo.ProgLab8.Java
import Mathlib.Tactic.SplitIfs
import Mathlib.Algebra.Order.Group.Int

/-! Numbers as texts. `Double.toString` writes a number from a thousandth up to ten
million with a point and any other with an exponent; what the platform decides is
which digits it writes. Its laws here are that the digits read back as the number,
and that the digits before an exponent, read alone, are another number. -/

namespace Itmo.ProgLab6

open ProgLab8

/-! ### Digits -/

def digit (d : Fin 10) : UInt16 := 0x30 + d.val.toUInt16

def isDigit (c : UInt16) : Bool := 0x30 ≤ c && c ≤ 0x39

/-- The decimal digits of a natural number, the highest first. -/
def decimal (n : ℕ) : List (Fin 10) :=
  if n < 10 then [Fin.ofNat 10 n] else decimal (n / 10) ++ [Fin.ofNat 10 n]

def sign (negative : Bool) : JString := if negative then [0x2D] else []

/-- `Integer.toString` and `Long.toString` -/
def Integer.toString (n : ℤ) : JString := sign (n < 0) ++ (decimal n.natAbs).map digit

/-- A number written with a point, with a digit on either side of it. -/
structure Decimal where
  negative : Bool
  int : List (Fin 10)
  frac : List (Fin 10)
  int_ne : int ≠ []
  frac_ne : frac ≠ []

def Decimal.text (d : Decimal) : JString :=
  sign d.negative ++ d.int.map digit ++ 0x2E :: d.frac.map digit

/-- What `Double.toString` and `Float.toString` write. -/
inductive Form where
  | plain (digits : Decimal)
  | scientific (mantissa : Decimal) (exponent : ℤ)
  | infinity (negative : Bool)
  | nan

def Form.text : Form → JString
  | plain d => d.text
  | scientific m e => m.text ++ 0x45 :: Integer.toString e
  | infinity negative => sign negative ++ .ofString "Infinity"
  | nan => .ofString "NaN"

def Form.Plain : Form → Prop
  | plain _ => True
  | _ => False

instance : DecidablePred Form.Plain
  | .plain _ => isTrue trivial
  | .scientific _ _ => isFalse id
  | .infinity _ => isFalse id
  | .nan => isFalse id

/-! ### The platform -/

/-- The numbers of the platform. A `float` is a `double` that `floatValue` keeps. -/
class Numbers (D : Type) extends Platform D where
  /-- `Double.toString` -/
  form : D → Form
  /-- `Float.toString` -/
  floatForm : D → Form
  intValue : D → ℤ
  longValue : D → ℤ
  floatValue : D → D
  intValue_bounds : ∀ x, -2 ^ 31 ≤ intValue x ∧ intValue x < 2 ^ 31
  parse_plain : ∀ x d, form x = .plain d → parseDouble d.text = some x
  parse_mantissa : ∀ x m e, form x = .scientific m e → ∃ y, parseDouble m.text = some y ∧ y ≠ x
  parse_floatPlain : ∀ x d, floatForm (floatValue x) = .plain d →
    ∃ y, parseDouble d.text = some y ∧ floatValue y = floatValue x
  parse_floatMantissa : ∀ x m e, floatForm (floatValue x) = .scientific m e →
    ∃ y, parseDouble m.text = some y ∧ floatValue y ≠ floatValue x
  parse_int : ∀ n : ℤ, -2 ^ 31 ≤ n → n < 2 ^ 31 →
    ∃ y, parseDouble (Integer.toString n) = some y ∧ intValue y = n
  parse_long : ∀ x, ∃ y, parseDouble (Integer.toString (longValue x)) = some y ∧
    longValue y = longValue x

/-! ### Reading digits -/

theorem decimal_ne_nil (n : ℕ) : decimal n ≠ [] := by
  unfold decimal
  split_ifs
  · exact List.cons_ne_nil _ _
  · exact List.append_ne_nil_of_right_ne_nil _ (List.cons_ne_nil _ _)

theorem isDigit_digit (d : Fin 10) : isDigit (digit d) = true := by
  revert d
  decide

theorem digit_ne {c : UInt16} (h : isDigit c = false) (d : Fin 10) : digit d ≠ c := by
  rintro rfl
  rw [isDigit_digit] at h
  cases h

/-- The text of a whole number is made of digits and a sign. -/
theorem Integer.not_mem_toString {c : UInt16} (hdigit : isDigit c = false) (hsign : c ≠ 0x2D)
    (n : ℤ) : c ∉ Integer.toString n := by
  intro hc
  rcases List.mem_append.mp hc with h | h
  · unfold sign at h
    split_ifs at h
    · exact hsign (List.mem_singleton.mp h)
    · cases h
  · obtain ⟨d, -, hd⟩ := List.mem_map.mp h
    exact digit_ne hdigit d hd

theorem digit_value (d : Fin 10) : Character.digit (digit d) 10 = some d.val := by
  revert d
  decide

/-- The step of the reader of digits. -/
theorem parseDigits_concat {s : JString} {n : ℕ} (h : parseDigits 10 s = some n) (d : Fin 10) :
    parseDigits 10 (s ++ [digit d]) = some (n * 10 + d.val) := by
  cases s with
  | nil => cases h
  | cons c s =>
    unfold parseDigits at h ⊢
    rw [List.cons_append]
    dsimp only at h ⊢
    rw [← List.cons_append, List.foldlM_append, h]
    simp [digit_value]

theorem parseDigits_decimal (n : ℕ) : parseDigits 10 ((decimal n).map digit) = some n := by
  induction n using Nat.strong_induction_on with
  | _ n ih =>
    unfold decimal
    split_ifs with h
    · simp [parseDigits, digit_value, Nat.mod_eq_of_lt h]
    · rw [List.map_append, List.map_singleton, parseDigits_concat (ih (n / 10) (by omega))]
      simp only [Fin.val_ofNat]
      rw [Nat.div_add_mod' n 10]

/-! ### Whole numbers -/

/-- The `double` values that are integers, for concrete runs. -/
structure Whole where
  val : ℤ
  deriving DecidableEq

namespace Whole

/-- The closest value of a range, as the narrowing conversions choose it. -/
def clamp (bits : ℕ) (n : ℤ) : ℤ := max (-2 ^ bits) (min n (2 ^ bits - 1))

/-- The digits before the point. -/
def parse (s : JString) : Option Whole :=
  let (negative, rest) := splitSign s
  (parseDigits 10 (rest.takeWhile (· ≠ 0x2E))).map fun n => ⟨signed negative n⟩

/-- The digits after the first, without zeros at the end. -/
def fraction (digits : List (Fin 10)) : List (Fin 10) :=
  match (digits.reverse.dropWhile (· = 0)).reverse with
  | [] => [0]
  | d :: ds => d :: ds

theorem fraction_ne_nil (digits : List (Fin 10)) : fraction digits ≠ [] := by
  unfold fraction
  split <;> exact List.cons_ne_nil _ _

def form (x : Whole) : Form :=
  if x.val.natAbs < 10 ^ 7 then
    .plain ⟨x.val < 0, decimal x.val.natAbs, [0], decimal_ne_nil _, List.cons_ne_nil _ _⟩
  else
    let digits := decimal x.val.natAbs
    .scientific ⟨x.val < 0, [digits.headD 0], fraction digits.tail, List.cons_ne_nil _ _,
      fraction_ne_nil _⟩ (digits.length - 1)

theorem takeWhile_digits (ds : List (Fin 10)) (rest : JString) :
    (ds.map digit ++ rest).takeWhile (· ≠ 0x2E) =
      ds.map digit ++ rest.takeWhile (· ≠ 0x2E) := by
  apply List.takeWhile_append_of_pos
  intro c hc
  obtain ⟨d, -, rfl⟩ := List.mem_map.mp hc
  exact decide_eq_true (digit_ne (by decide) d)

theorem splitSign_digits {ds : List (Fin 10)} (h : ds ≠ []) (negative : Bool) (rest : JString) :
    splitSign (sign negative ++ ds.map digit ++ rest) = (negative, ds.map digit ++ rest) := by
  cases negative with
  | true => rfl
  | false =>
    cases ds with
    | nil => exact absurd rfl h
    | cons d ds =>
      have hminus : digit d ≠ 0x2D := digit_ne (by decide) d
      have hplus : digit d ≠ 0x2B := digit_ne (by decide) d
      simp [sign, splitSign, hminus, hplus]

theorem signed_natAbs (n : ℤ) : signed (n < 0) n.natAbs = n := by
  unfold signed
  split_ifs with h
  · rw [decide_eq_true_eq] at h
    omega
  · rw [decide_eq_true_eq] at h
    omega

/-- A whole number is read from its own digits, whatever follows the point. -/
theorem parse_digits (n : ℤ) (rest : JString) (h : rest.takeWhile (· ≠ 0x2E) = []) :
    parse (sign (n < 0) ++ (decimal n.natAbs).map digit ++ rest) = some ⟨n⟩ := by
  unfold parse
  rw [splitSign_digits (decimal_ne_nil _)]
  dsimp only
  rw [takeWhile_digits, h, List.append_nil, parseDigits_decimal, Option.map_some, signed_natAbs]

theorem parse_toString (n : ℤ) : parse (Integer.toString n) = some ⟨n⟩ := by
  have h := parse_digits n [] rfl
  rwa [List.append_nil] at h

theorem parse_text {x : Whole} {d : Decimal} (h : x.form = .plain d) : parse d.text = some x := by
  unfold form at h
  split_ifs at h
  cases h
  exact parse_digits x.val _ rfl

/-- The digit before an exponent is a smaller number. -/
theorem parse_mantissa {x : Whole} {m : Decimal} {e : ℤ} (h : x.form = .scientific m e) :
    ∃ y, parse m.text = some y ∧ y ≠ x := by
  unfold form at h
  dsimp only at h
  split_ifs at h with hsmall
  cases h
  have hsign := splitSign_digits (List.cons_ne_nil ((decimal x.val.natAbs).headD 0) [])
    (x.val < 0) (0x2E :: (fraction (decimal x.val.natAbs).tail).map digit)
  refine ⟨⟨signed (x.val < 0) ((decimal x.val.natAbs).headD 0).val⟩, ?_, ?_⟩
  · unfold parse Decimal.text
    dsimp only
    rw [hsign]
    dsimp only
    rw [takeWhile_digits]
    simp [parseDigits, digit_value]
  · intro hx
    have hval := congrArg Whole.val hx
    have hdigit := ((decimal x.val.natAbs).headD 0).isLt
    dsimp only [signed] at hval
    split_ifs at hval <;> omega

theorem clamp_eq {bits : ℕ} {n : ℤ} (hl : -2 ^ bits ≤ n) (hu : n < 2 ^ bits) :
    clamp bits n = n := by
  unfold clamp
  omega

theorem clamp_bounds (bits : ℕ) (n : ℤ) : -2 ^ bits ≤ clamp bits n ∧ clamp bits n < 2 ^ bits := by
  have h : (0 : ℤ) < 2 ^ bits := Int.pow_pos (by decide)
  unfold clamp
  omega

end Whole

instance : Platform Whole where
  lt a b := a.val < b.val
  le a b := a.val ≤ b.val
  add a b := ⟨a.val + b.val⟩
  square a := ⟨a.val ^ 2⟩
  sqrt a := ⟨isqrt a.val.toNat⟩
  ofInt n := ⟨n⟩
  floatOfLong n := ⟨n⟩
  equals a b := a = b
  parseDouble := Whole.parse
  getLong a := some a.val
  getDate t := t - t % 86400000
  hash256 s := (digests.lookup s).getD []
  lt_asymm a b h := by
    rw [decide_eq_true_eq] at h
    rw [decide_eq_false_iff_not]
    omega

/-- The numbers that are integers and that a `float` can hold. -/
instance : Numbers Whole where
  form := Whole.form
  floatForm := Whole.form
  intValue x := Whole.clamp 31 x.val
  longValue x := Whole.clamp 63 x.val
  floatValue x := x
  intValue_bounds x := Whole.clamp_bounds 31 x.val
  parse_plain _ _ h := Whole.parse_text h
  parse_mantissa _ _ _ h := Whole.parse_mantissa h
  parse_floatPlain x _ h := ⟨x, Whole.parse_text h, rfl⟩
  parse_floatMantissa _ _ _ h := Whole.parse_mantissa h
  parse_int n hl hu := ⟨⟨n⟩, Whole.parse_toString n, Whole.clamp_eq hl hu⟩
  parse_long x := by
    obtain ⟨hl, hu⟩ := Whole.clamp_bounds 63 x.val
    exact ⟨⟨Whole.clamp 63 x.val⟩, Whole.parse_toString _, Whole.clamp_eq hl hu⟩

end Itmo.ProgLab6
