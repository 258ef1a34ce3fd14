import Itmo.Lib.Compare
import Mathlib.Algebra.Group.Int.Defs
import Mathlib.Algebra.Group.Nat.Defs
import Mathlib.Data.Nat.Notation

/-! The parts of the Java platform under the route server: strings as sequences
of UTF-16 units, the readers of `Integer`, and the operations on `double` values
that the code uses. Java's `double` itself stays a parameter; a `float` is a
`double` here, since widening one loses nothing. -/

namespace Itmo.ProgLab8

open Lib

/-! ### Strings -/

abbrev JString := List UInt16

/-- A text of the Basic Multilingual Plane. -/
def JString.ofString (s : String) : JString := s.toList.map fun c => c.toNat.toUInt16

/-- `String.compareTo`: the difference of the first different units, or of the lengths. -/
def JString.compareTo : JString → JString → ℤ
  | a :: as, b :: bs => if a ≠ b then (a.toNat : ℤ) - b.toNat else JString.compareTo as bs
  | as, bs => (as.length : ℤ) - bs.length

theorem JString.swapNeg_compareTo : SwapNeg JString.compareTo := by
  intro as
  induction as with
  | nil => intro bs; cases bs <;> simp [JString.compareTo]
  | cons a as ih =>
    intro bs
    cases bs with
    | nil => simp [JString.compareTo]
    | cons b bs =>
      unfold JString.compareTo
      by_cases h : a = b
      · simpa [h] using ih bs
      · rw [if_pos h, if_pos (Ne.symm h)]
        omega

theorem JString.compareTo_cons_nonneg (a b : UInt16) (as bs : JString) :
    0 ≤ JString.compareTo (a :: as) (b :: bs) ↔
      b.toNat < a.toNat ∨ a = b ∧ 0 ≤ JString.compareTo as bs := by
  have hc : JString.compareTo (a :: as) (b :: bs) =
      if a ≠ b then (a.toNat : ℤ) - b.toNat else JString.compareTo as bs := by
    rw [JString.compareTo]
  rw [hc]
  by_cases h : a = b
  · simp [h]
  · have hne : a.toNat ≠ b.toNat := fun he => h (UInt16.toNat_inj.mp he)
    rw [if_pos h]
    simp only [h, false_and, or_false]
    omega

theorem JString.transGE_compareTo : TransGE JString.compareTo := by
  intro as
  induction as with
  | nil =>
    intro bs ds hab hbd
    cases bs with
    | nil => exact hbd
    | cons b bs =>
      simp only [JString.compareTo, List.length_nil, List.length_cons] at hab
      omega
  | cons a as ih =>
    intro bs ds hab hbd
    cases ds with
    | nil =>
      simp only [JString.compareTo, List.length_nil, List.length_cons]
      omega
    | cons d ds =>
      cases bs with
      | nil =>
        simp only [JString.compareTo, List.length_nil, List.length_cons] at hbd
        omega
      | cons b bs =>
        rw [JString.compareTo_cons_nonneg] at hab hbd ⊢
        rcases hab with hab | ⟨rfl, hab⟩
        · left
          rcases hbd with hbd | ⟨rfl, -⟩
          · omega
          · exact hab
        · rcases hbd with hbd | ⟨rfl, hbd⟩
          · exact .inl hbd
          · exact .inr ⟨rfl, ih bs ds hab hbd⟩

/-! ### Integers -/

/-- The zeros of the blocks of ten decimal digits. -/
def digitZeros : List ℕ :=
  [0x0030, 0x0660, 0x06F0, 0x07C0, 0x0966, 0x09E6, 0x0A66, 0x0AE6, 0x0B66, 0x0BE6, 0x0C66, 0x0CE6,
    0x0D66, 0x0DE6, 0x0E50, 0x0ED0, 0x0F20, 0x1040, 0x1090, 0x17E0, 0x1810, 0x1946, 0x19D0, 0x1A80,
    0x1A90, 0x1B50, 0x1BB0, 0x1C40, 0x1C50, 0xA620, 0xA8D0, 0xA900, 0xA9D0, 0xA9F0, 0xAA50, 0xABF0,
    0xFF10]

/-- The Latin letters, plain and fullwidth, that are digits in larger radices. -/
def letterBlocks : List ℕ := [0x0041, 0x0061, 0xFF21, 0xFF41]

/-- `Character.digit`. -/
def Character.digit (c : UInt16) (radix : ℕ) : Option ℕ :=
  let n := c.toNat
  let value := match digitZeros.find? (fun z => z ≤ n ∧ n < z + 10) with
    | some z => some (n - z)
    | none => (letterBlocks.find? fun a => a ≤ n ∧ n < a + 26).map (n - · + 10)
  value.filter (· < radix)

/-- The value of a nonempty string of digits. -/
def parseDigits (radix : ℕ) : JString → Option ℕ
  | [] => none
  | s => s.foldlM (fun v c => (Character.digit c radix).map (v * radix + ·)) 0

/-- An optional sign, and the rest. -/
def splitSign : JString → Bool × JString
  | [] => (false, [])
  | c :: s => if c = 0x2D then (true, s) else if c = 0x2B then (false, s) else (false, c :: s)

def signed (negative : Bool) (n : ℕ) : ℤ := if negative then -n else n

/-- `Integer.parseUnsignedInt`: from 2^31 on the result is a negative `int`. -/
def Integer.parseUnsignedInt (s : JString) : Option ℤ :=
  let (negative, digits) := splitSign s
  if negative then none
  else (parseDigits 10 digits).bind fun n =>
    if n < 2 ^ 31 then some n else if n < 2 ^ 32 then some (n - 2 ^ 32) else none

/-- The radix a number is written in, and its digits: `0x`, `0X` and `#` start a
hexadecimal number, another leading zero an octal one. -/
def splitRadix (s : JString) : ℕ × JString :=
  if [0x30, 0x78] <+: s ∨ [0x30, 0x58] <+: s then (16, s.drop 2)
  else if [0x23] <+: s then (16, s.drop 1)
  else if [0x30] <+: s ∧ 1 < s.length then (8, s.drop 1)
  else (10, s)

/-- `Integer.decode`. A second sign is no digit. -/
def Integer.decode (nm : JString) : Option ℤ :=
  let (negative, rest) := splitSign nm
  let (radix, digits) := splitRadix rest
  (parseDigits radix digits).bind fun n =>
    if -2 ^ 31 ≤ signed negative n ∧ signed negative n < 2 ^ 31 then some (signed negative n)
    else none

/-- The two readers disagree on a leading zero and on the upper half of the range. -/
example :
    Integer.parseUnsignedInt (.ofString "08") = some 8 ∧ Integer.decode (.ofString "08") = none ∧
      Integer.parseUnsignedInt (.ofString "010") = some 10 ∧
      Integer.decode (.ofString "010") = some 8 ∧
      Integer.parseUnsignedInt (.ofString "4294967295") = some (-1) ∧
      Integer.decode (.ofString "4294967295") = none := by decide

/-! ### Exceptions -/

/-- How a call ends that does not return a value: with an exception, with
`System.exit`, or not at all because a lock it waits for is never released. -/
inductive Throwable where
  | SQLException
  | NumberFormatException
  | IllegalArgumentException
  | NullPointerException
  | ClassCastException
  | IndexOutOfBoundsException
  | exit
  | blocked
  deriving DecidableEq, Repr

/-! ### The rest of the platform -/

/-- What the code takes from the platform: `double` arithmetic, the conversions
of the database driver, the reader of decimal numbers and the SHA-256 digest.
The one law is that of a strict comparison; a NaN is not less than anything. -/
class Platform (D : Type) where
  lt : D → D → Bool
  le : D → D → Bool
  add : D → D → D
  /-- `Math.pow` with exponent 2 -/
  square : D → D
  sqrt : D → D
  /-- an `int` or a `long` as a `double` -/
  ofInt : ℤ → D
  /-- a `long` as a `float` -/
  floatOfLong : ℤ → D
  /-- `Double.equals`, which compares the representations -/
  equals : D → D → Bool
  parseDouble : JString → Option D
  /-- `ResultSet.getLong` on a column of real numbers -/
  getLong : D → Option ℤ
  /-- `ResultSet.getDate` on a timestamp -/
  getDate : ℤ → ℤ
  /-- the hexadecimal SHA-256 digest of a string in UTF-8 -/
  hash256 : JString → JString
  lt_asymm : ∀ a b, lt a b → lt b a = false

/-- The comparison by `>` and `<` that the classes of the route repeat. -/
def compareDouble {D : Type} [Platform D] : D → D → ℤ := compareByLt Platform.lt

theorem swapNeg_compareDouble {D : Type} [Platform D] :
    SwapNeg (compareDouble : D → D → ℤ) := swapNeg_compareByLt Platform.lt_asymm

/-- The values are those of a linear order: a NaN is not among them, which would
lie between two numbers without being comparable with either. -/
def LinearValues (D : Type) [Platform D] : Prop :=
  ∀ a b d : D, Platform.lt a d → Platform.lt a b ∨ Platform.lt b d

theorem transGE_compareDouble {D : Type} [Platform D] (h : LinearValues D) :
    TransGE (compareDouble : D → D → ℤ) := transGE_compareByLt Platform.lt_asymm h

/-! ### Integral values -/

/-- The integral part of the square root. -/
def isqrt : ℕ → ℕ
  | 0 => 0
  | n + 1 => if (isqrt n + 1) ^ 2 ≤ n + 1 then isqrt n + 1 else isqrt n

/-- The digests of the passwords of concrete runs. -/
def digests : List (JString × JString) :=
  [(.ofString "qwerty",
      .ofString "65e84be33532fb784c48129675f9eff3a682b27168c0ea744b2cf58ee02337c5"),
    (.ofString "123456",
      .ofString "8d969eef6ecad3c29a3a629280e686cf0c3f5d5a86aff3ca12020c923adc6c92")]

/-- The platform on `double` values that are integers, for concrete runs in which
every root is a root of a square. -/
instance : Platform ℤ where
  lt a b := a < b
  le a b := a ≤ b
  add a b := a + b
  square a := a ^ 2
  sqrt a := isqrt a.toNat
  ofInt n := n
  floatOfLong n := n
  equals a b := a = b
  parseDouble s := (parseDigits 10 s).map Int.ofNat
  getLong a := some a
  getDate t := t - t % 86400000
  hash256 s := (digests.lookup s).getD []
  lt_asymm a b h := by
    rw [decide_eq_true_eq] at h
    rw [decide_eq_false_iff_not]
    omega

theorem linearValues_int : LinearValues ℤ := by
  intro a b d h
  simp only [Platform.lt, decide_eq_true_eq] at h ⊢
  omega

end Itmo.ProgLab8
