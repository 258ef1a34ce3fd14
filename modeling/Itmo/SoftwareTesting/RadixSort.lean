import Itmo.Lib.Buckets
import Itmo.Lib.Except
import Mathlib.Algebra.Order.Ring.Int
import Mathlib.Data.Nat.Find

/-! The radix sort of `software_testing`. Every pass puts the numbers into ten buckets by one
decimal digit, from the last one on, and as many passes are made as the text of the maximum has
characters. A digit of a negative number names no bucket, unless it is zero: a number whose digits
are zero in all passes stays in its place among those that are not positive. -/

namespace Itmo.SoftwareTesting.RadixSort

open Lib

def tenPower : List Int32 :=
  [1, 10, 100, 1000, 10000, 100000, 1000000, 10000000, 100000000, 1000000000]

/-- What both exceptions say that an index out of range throws. -/
def outOfBounds (index : ℤ) (length : ℕ) : String :=
  s!"Index {index} out of bounds for length {length}"

/-- `tenPower[i]`. -/
def power (i : ℕ) : Except String Int32 :=
  match tenPower[i]? with
  | some p => .ok p
  | none => .error (outOfBounds i tenPower.length)

/-- `radix.get(index).add(num)`. -/
def add (radix : List (List Int32)) (index num : Int32) : Except String (List (List Int32)) :=
  if 0 ≤ index.toInt ∧ index.toInt < radix.length then
    .ok (Buckets.put radix index.toInt.toNat num)
  else .error (outOfBounds index.toInt radix.length)

/-- The body of the loop over the numbers. -/
def place (i : ℕ) (radix : List (List Int32)) (num : Int32) :
    Except String (List (List Int32)) := do
  let p ← power i
  add radix (num / p % 10) num

/-- The body of the loop over the digits. -/
def pass (sorted : List Int32) (i : ℕ) : Except String (List Int32) := do
  let radix ← sorted.foldlM (place i) (List.replicate 10 [])
  return radix.flatten

def maxDigits (source : List Int32) : ℕ := (toString (source.max?.getD 0).toInt).length

def sort (source : List Int32) : Except String (List Int32) :=
  (List.range (maxDigits source)).foldlM pass source

/-! ### The digits of a number -/

/-- The number that a non-negative `int` stands for. -/
def value (num : Int32) : ℕ := num.toInt.toNat

theorem value_eq {num : Int32} (h : 0 ≤ num) : (value num : ℤ) = num.toInt :=
  Int.toNat_of_nonneg (Int32.le_iff_toInt_le.mp h)

theorem value_eq_zero_iff {num : Int32} : value num = 0 ↔ num ≤ 0 := by
  rw [value, Int.toNat_eq_zero, Int32.le_iff_toInt_le]
  rfl

theorem power_eq {i : ℕ} (hi : i < 10) : ∃ p, power i = .ok p ∧ p.toInt = ((10 ^ i : ℕ) : ℤ) := by
  have htable : ∀ i < 10, tenPower[i]?.map Int32.toInt = some ((10 ^ i : ℕ) : ℤ) := by decide
  obtain ⟨p, hp, hvalue⟩ := Option.map_eq_some_iff.mp (htable i hi)
  exact ⟨p, by rw [power, hp], hvalue⟩

theorem toInt_index (num : Int32) {p : Int32} {i : ℕ} (hp : p.toInt = ((10 ^ i : ℕ) : ℤ)) :
    (num / p % 10).toInt = (num.toInt.tdiv ((10 ^ i : ℕ) : ℤ)).tmod ((10 : ℕ) : ℤ) := by
  have hne : p ≠ -1 := by
    rintro rfl
    exact absurd hp (by
      have hpos : 0 < 10 ^ i := Nat.pow_pos (by decide)
      have hone : (-1 : Int32).toInt = -1 := by decide
      omega)
  have hten : (10 : Int32).toInt = ((10 : ℕ) : ℤ) := by decide
  rw [Int32.toInt_mod, Int32.toInt_div_of_ne_right _ _ hne, hp, hten]

/-- No digit among the last ones gives a negative index. -/
def Fits (i : ℕ) (num : Int32) : Prop := 0 ≤ num ∨ ((10 ^ i : ℕ) : ℤ) ∣ num.toInt

theorem Fits.mono {i j : ℕ} (hij : i ≤ j) {num : Int32} (h : Fits j num) : Fits i num := by
  rcases h with h | h
  · exact Or.inl h
  · exact Or.inr ((Int.natCast_dvd_natCast.mpr (Nat.pow_dvd_pow 10 hij)).trans h)

/-- The index is a digit of the value; that of a negative number is zero, as is its value. -/
theorem toInt_digit {num p : Int32} {i : ℕ} (h : Fits (i + 1) num)
    (hp : p.toInt = ((10 ^ i : ℕ) : ℤ)) :
    (num / p % 10).toInt = (Buckets.digit value 10 i num : ℕ) := by
  rw [toInt_index num hp, Buckets.digit]
  by_cases hnum : 0 ≤ num
  · rw [← value_eq hnum, ← Int.ofNat_tdiv, ← Int.ofNat_tmod]
  · obtain ⟨m, hm⟩ := h.resolve_left hnum
    have hpos : ((10 ^ i : ℕ) : ℤ) ≠ 0 := Int.natCast_ne_zero.mpr (Nat.pow_pos (by decide)).ne'
    rw [value_eq_zero_iff.mpr (Int32.le_of_lt (Int32.not_le.mp hnum)), Nat.zero_div, Nat.zero_mod,
      hm, pow_succ, Int.natCast_mul, mul_assoc, Int.mul_tdiv_cancel_left _ hpos, Int.mul_tmod_right]
    rfl

/-- The first digit of a negative number that is not zero. -/
theorem toInt_index_neg {num p : Int32} {i : ℕ} (h : Fits i num) (hnext : ¬ Fits (i + 1) num)
    (hp : p.toInt = ((10 ^ i : ℕ) : ℤ)) : (num / p % 10).toInt < 0 := by
  have hnum : ¬ 0 ≤ num := fun hnum => hnext (Or.inl hnum)
  obtain ⟨m, hm⟩ := h.resolve_left hnum
  have hpos : (0 : ℤ) < ((10 ^ i : ℕ) : ℤ) := Int.natCast_pos.mpr (Nat.pow_pos (by decide))
  have hneg : m < 0 := by
    by_contra hm'
    refine hnum (Int32.le_iff_toInt_le.mpr ?_)
    rw [hm]
    exact mul_nonneg hpos.le (not_lt.mp hm')
  have hdigit : ¬ (10 : ℤ) ∣ m := by
    rintro ⟨k, rfl⟩
    exact hnext (Or.inr ⟨k, by rw [hm, pow_succ, Int.natCast_mul, mul_assoc]; rfl⟩)
  rw [toInt_index num hp, hm, Int.mul_tdiv_cancel_left _ hpos.ne']
  have hnonpos : m.tmod 10 ≤ 0 := by
    have hneg' := Int.tmod_nonneg 10 (Int.neg_nonneg_of_nonpos hneg.le)
    rw [Int.neg_tmod] at hneg'
    exact Int.nonpos_of_neg_nonneg hneg'
  have hne : m.tmod 10 ≠ 0 := fun hzero => hdigit (Int.dvd_of_tmod_eq_zero hzero)
  exact lt_of_le_of_ne hnonpos hne

theorem add_digit {radix : List (List Int32)} {num index : Int32} {j : ℕ} (hindex : index.toInt = j)
    (hj : j < radix.length) : add radix index num = .ok (Buckets.put radix j num) := by
  rw [add, if_pos (by omega), hindex, Int.toNat_natCast]

/-! ### The passes -/

/-- One number goes to the bucket of its digit. -/
theorem place_distribute {i : ℕ} (hi : i < 10) {num : Int32} (h : Fits (i + 1) num)
    (l : List Int32) :
    place i (Buckets.distribute (Buckets.digit value 10 i) 10 l) num =
      .ok (Buckets.distribute (Buckets.digit value 10 i) 10 (l ++ [num])) := by
  obtain ⟨p, hpower, hp⟩ := power_eq hi
  rw [place, hpower, ok_bind, add_digit (toInt_digit h hp), Buckets.put_distribute]
  rw [Buckets.length_distribute]
  exact Nat.mod_lt _ (by decide)

theorem foldlM_place {i : ℕ} (hi : i < 10) {m : List Int32} (hm : ∀ num ∈ m, Fits (i + 1) num)
    (l : List Int32) :
    m.foldlM (place i) (Buckets.distribute (Buckets.digit value 10 i) 10 l) =
      .ok (Buckets.distribute (Buckets.digit value 10 i) 10 (l ++ m)) := by
  induction m generalizing l with
  | nil => rw [List.append_nil]; rfl
  | cons num m ih =>
    rw [List.forall_mem_cons] at hm
    rw [List.foldlM_cons, place_distribute hi hm.1, ok_bind, ih hm.2, List.append_assoc,
      List.singleton_append]

theorem pass_eq {i : ℕ} (hi : i < 10) {sorted : List Int32}
    (h : ∀ num ∈ sorted, Fits (i + 1) num) :
    pass sorted i = .ok (Buckets.pass (Buckets.digit value 10 i) 10 sorted) := by
  rw [pass, ← Buckets.distribute_nil (Buckets.digit value 10 i), foldlM_place hi h, ok_bind]
  rfl

/-- The passes of the code are those of the library. -/
theorem foldlM_pass {i : ℕ} (hi : i ≤ 10) {source : List Int32} (h : ∀ num ∈ source, Fits i num) :
    (List.range i).foldlM pass source = .ok (Buckets.passes value 10 i source) := by
  induction i with
  | zero => rfl
  | succ i ih =>
    have hfits : ∀ num ∈ Buckets.passes value 10 i source, Fits (i + 1) num := fun num hnum =>
      h num ((Buckets.passes_perm (by decide) i).mem_iff.mp hnum)
    rw [List.range_succ, List.foldlM_append,
      ih (by omega) fun num hnum => (h num hnum).mono (Nat.le_succ i), ok_bind, List.foldlM_cons,
      pass_eq (by omega) hfits]
    rfl

theorem pass_error {i : ℕ} (hi : i < 10) {num : Int32} (h : Fits i num)
    (hnext : ¬ Fits (i + 1) num) {sorted : List Int32} (hnum : num ∈ sorted) :
    ∃ e, pass sorted i = .error e := by
  obtain ⟨p, hpower, hp⟩ := power_eq hi
  have hplace : ∀ radix, ∃ e, place i radix num = .error e := by
    intro radix
    have hneg : ¬ (0 ≤ (num / p % 10).toInt ∧ (num / p % 10).toInt < radix.length) :=
      fun hindex => absurd (toInt_index_neg h hnext hp) (not_lt.mpr hindex.1)
    refine ⟨outOfBounds (num / p % 10).toInt radix.length, ?_⟩
    rw [place, hpower, ok_bind, add, if_neg hneg]
  obtain ⟨e, he⟩ := foldlM_error hplace hnum (List.replicate 10 [])
  exact ⟨e, by rw [pass, he]; rfl⟩

/-- Ten digits are more than an `int` has. -/
theorem not_fits_ten {num : Int32} (h : num < 0) : ¬ Fits 10 num := by
  rintro (hnum | ⟨m, hm⟩)
  · exact absurd h (Int32.not_lt.mpr hnum)
  · have hneg : num.toInt < 0 := Int32.lt_iff_toInt_lt.mp h
    have hle := num.le_toInt
    omega

theorem foldlM_pass_error {n : ℕ} {source : List Int32} (h : ∃ num ∈ source, ¬ Fits n num) :
    ∃ e, (List.range n).foldlM pass source = .error e := by
  classical
  -- the first pass in which a number has a digit that is not zero
  have hlast : ∃ i, ∃ num ∈ source, ¬ Fits i num := ⟨n, h⟩
  obtain ⟨num, hnum, hnot⟩ := Nat.find_spec hlast
  have hbefore : ∀ j < Nat.find hlast, ∀ num ∈ source, Fits j num := by
    intro j hj num hnum
    by_contra hnot
    exact Nat.find_min hlast hj ⟨num, hnum, hnot⟩
  have hn : Nat.find hlast ≤ n := Nat.find_min' hlast h
  have hneg : num < 0 := Int32.not_le.mp fun hnonneg => hnot (Or.inl hnonneg)
  have hten : Nat.find hlast ≤ 10 := Nat.find_min' hlast ⟨num, hnum, not_fits_ten hneg⟩
  cases hi : Nat.find hlast with
  | zero => exact absurd (Or.inr (by rw [hi]; exact one_dvd _)) hnot
  | succ i =>
    rw [hi] at hnot hbefore hn hten
    have hfits := hbefore i (Nat.lt_succ_self i)
    have hperm : (Buckets.passes value 10 i source).Perm source :=
      Buckets.passes_perm (by decide) i
    obtain ⟨e, he⟩ := pass_error (by omega) (hfits num hnum) hnot (hperm.mem_iff.mpr hnum)
    refine ⟨e, ?_⟩
    rw [show n = i + 1 + (n - (i + 1)) by omega, List.range_add, List.foldlM_append,
      List.range_succ, List.foldlM_append, foldlM_pass (by omega) hfits, ok_bind, List.foldlM_cons,
      he]
    rfl

/-! ### The number of passes -/

theorem toString_length_le_iff {num : Int32} (h : 0 ≤ num) {k : ℕ} (hk : 0 < k) :
    (toString num.toInt).length ≤ k ↔ value num < 10 ^ k := by
  rw [← value_eq h]
  exact Nat.length_repr_le_iff hk

theorem value_lt (num : Int32) : value num < 10 ^ 10 := by
  have hlt := num.toInt_lt
  rw [value]
  omega

theorem max_def (m n : Int32) : max m n = if m ≤ n then n else m := rfl

instance lawfulOrderMax : Std.LawfulOrderMax Int32 where
  max_le_iff m n k := by
    rw [max_def]
    split_ifs with h <;> grind
  max_eq_or m n := by
    rw [max_def]
    split_ifs
    · exact Or.inr rfl
    · exact Or.inl rfl

theorem le_max {source : List Int32} {num : Int32} (h : num ∈ source) :
    num ≤ source.max?.getD 0 := by
  cases hsome : source.max? with
  | none =>
    rw [List.max?_eq_none_iff.mp hsome] at h
    exact absurd h List.not_mem_nil
  | some largest => exact (List.max?_eq_some_iff.mp hsome).2 num h

/-- No text of a non-negative `int` is longer than the table of powers, and the text of the maximum
has place for every number. -/
theorem maxDigits_spec {source : List Int32} (hmax : 0 ≤ source.max?.getD 0) :
    maxDigits source ≤ 10 ∧ ∀ num ∈ source, value num < 10 ^ maxDigits source := by
  have hpos : 0 < maxDigits source := by
    rw [maxDigits, ← value_eq hmax]
    exact Nat.length_repr_pos
  refine ⟨(toString_length_le_iff hmax (by decide)).mpr (value_lt _), fun num hnum => ?_⟩
  have hvalue : value num ≤ value (source.max?.getD 0) :=
    Int.toNat_le_toNat (Int32.le_iff_toInt_le.mp (le_max hnum))
  exact hvalue.trans_lt ((toString_length_le_iff hmax hpos).mp le_rfl)

/-- The text of a negative number is longer than the number has digits. -/
theorem not_fits_length {num : Int32} (h : num < 0) : ¬ Fits (toString num.toInt).length num := by
  rintro (hnum | hdvd)
  · exact absurd h (Int32.not_lt.mpr hnum)
  · obtain ⟨k, hk⟩ := Int.eq_negSucc_of_lt_zero (Int32.lt_iff_toInt_lt.mp h)
    have hdigits : k + 1 < 10 ^ (k + 1).repr.length :=
      (Nat.length_repr_le_iff Nat.length_repr_pos).mp le_rfl
    have hlength : (k + 1).repr.length ≤ (toString num.toInt).length := by
      have htext : toString num.toInt = "-" ++ (k + 1).repr := by
        rw [hk]
        rfl
      rw [htext, String.length_append]
      exact Nat.le_add_left _ _
    generalize (toString num.toInt).length = length at hdvd hlength
    rw [hk, Int.negSucc_eq, Int.dvd_neg, ← Int.natCast_succ, Int.natCast_dvd_natCast] at hdvd
    exact absurd (Nat.le_of_dvd k.succ_pos hdvd)
      (not_le.mpr (hdigits.trans_le (Nat.pow_le_pow_right (by decide) hlength)))

theorem max_nonneg {source : List Int32} (h : ∀ num ∈ source, Fits (maxDigits source) num) :
    0 ≤ source.max?.getD 0 := by
  cases hsome : source.max? with
  | none => exact Int32.le_refl 0
  | some largest =>
    have hfits := h largest (List.max?_eq_some_iff.mp hsome).1
    rw [maxDigits, hsome] at hfits
    exact Int32.not_lt.mp fun hneg => not_fits_length hneg hfits

/-! ### Sorting -/

/-- Non-negative numbers are sorted. -/
theorem sort_sorts {source : List Int32} (h : ∀ num ∈ source, 0 ≤ num) :
    ∃ sorted, sort source = .ok sorted ∧ sorted.Perm source ∧ sorted.Pairwise (· ≤ ·) := by
  have hfits : ∀ num ∈ source, Fits (maxDigits source) num := fun num hnum => Or.inl (h num hnum)
  obtain ⟨hlength, hvalues⟩ := maxDigits_spec (max_nonneg hfits)
  have hperm : (Buckets.passes value 10 (maxDigits source) source).Perm source :=
    Buckets.passes_perm (by decide) _
  refine ⟨_, foldlM_pass hlength hfits, hperm, ?_⟩
  refine (Buckets.passes_sorted (by decide) hvalues).imp_of_mem fun ha hb hab => ?_
  rw [Int32.le_iff_toInt_le, ← value_eq (h _ (hperm.mem_iff.mp ha)),
    ← value_eq (h _ (hperm.mem_iff.mp hb))]
  exact Int.ofNat_le.mpr hab

/-- The greatest number has as many digits as there are powers. -/
theorem sort_sorts_maximum : ∃ sorted, sort [2147483647, 40, 7, 1000000000, 7] = .ok sorted ∧
    sorted.Perm [2147483647, 40, 7, 1000000000, 7] ∧ sorted.Pairwise (· ≤ ·) := by
  have hnonneg : ([2147483647, 40, 7, 1000000000, 7] : List Int32).all (0 ≤ ·) = true := by decide
  exact sort_sorts fun num hnum => of_decide_eq_true (List.all_eq_true.mp hnonneg num hnum)

/-- The result is the source in ascending order, or there is none. -/
def SortsOrThrows (source : List Int32) : Prop :=
  (∃ e, sort source = .error e) ∨
    ∃ sorted, sort source = .ok sorted ∧ sorted.Perm source ∧ sorted.Pairwise (· ≤ ·)

/-- The values say nothing about the order of the numbers that are not positive. -/
theorem le_iff_of_value_le {a b : Int32} (h : value a ≤ value b) :
    a ≤ b ↔ (decide (a ≤ 0) = true → decide (b ≤ 0) = true → a ≤ b) := by
  refine ⟨fun hab _ _ => hab, fun hab => ?_⟩
  by_cases hb : b ≤ 0
  · have ha : value a = 0 := by
      rw [value_eq_zero_iff.mpr hb] at h
      exact Nat.le_zero.mp h
    exact hab (decide_eq_true (value_eq_zero_iff.mp ha)) (decide_eq_true hb)
  · have hpos : 0 ≤ b := Int32.le_of_lt (Int32.not_le.mp hb)
    rw [Int32.le_iff_toInt_le, ← value_eq hpos]
    exact (Int.self_le_toNat _).trans (Int.ofNat_le.mpr h)

/-- The passes sort just if the numbers that are not positive stand in order already. -/
theorem passes_sorted_iff {i : ℕ} {source : List Int32} (hvalues : ∀ num ∈ source,
    value num < 10 ^ i) : (Buckets.passes value 10 i source).Pairwise (· ≤ ·) ↔
      (source.filter (· ≤ 0)).Pairwise (· ≤ ·) := by
  have hkept : (Buckets.passes value 10 i source).filter (· ≤ 0) = source.filter (· ≤ 0) :=
    Buckets.passes_filter (by decide)
      (fun num _ hnum => value_eq_zero_iff.mpr (of_decide_eq_true hnum)) i
  rw [← hkept, List.pairwise_filter]
  have hsorted : (Buckets.passes value 10 i source).Pairwise fun a b => value a ≤ value b :=
    Buckets.passes_sorted (by decide) hvalues
  constructor
  · exact fun h => h.imp fun hab _ _ => hab
  · exact fun h => (hsorted.and h).imp fun hab => (le_iff_of_value_le hab.1).mpr hab.2

/-- No wrong result is returned just if a pass meets a digit of a negative number that is not
zero, or the numbers that are not positive stand in order in the source. -/
theorem sortsOrThrows_iff (source : List Int32) :
    SortsOrThrows source ↔
      (∃ num ∈ source, num < 0 ∧ ¬ ((10 ^ maxDigits source : ℕ) : ℤ) ∣ num.toInt) ∨
        (source.filter (· ≤ 0)).Pairwise (· ≤ ·) := by
  by_cases hbad : ∃ num ∈ source, num < 0 ∧ ¬ ((10 ^ maxDigits source : ℕ) : ℤ) ∣ num.toInt
  · refine iff_of_true (Or.inl (foldlM_pass_error ?_)) (Or.inl hbad)
    obtain ⟨num, hnum, hneg, hdvd⟩ := hbad
    exact ⟨num, hnum, not_or.mpr ⟨Int32.not_le.mpr hneg, hdvd⟩⟩
  · have hfits : ∀ num ∈ source, Fits (maxDigits source) num := by
      intro num hnum
      by_contra hnot
      rw [Fits, not_or] at hnot
      exact hbad ⟨num, hnum, Int32.not_le.mp hnot.1, hnot.2⟩
    obtain ⟨hlength, hvalues⟩ := maxDigits_spec (max_nonneg hfits)
    have hsort : sort source = .ok (Buckets.passes value 10 (maxDigits source) source) :=
      foldlM_pass hlength hfits
    rw [or_iff_right hbad, ← passes_sorted_iff hvalues]
    constructor
    · rintro (⟨e, he⟩ | ⟨sorted, hok, -, hsorted⟩)
      · rw [hsort] at he
        cases he
      · rw [hsort, Except.ok.injEq] at hok
        rwa [hok]
    · exact fun hsorted => Or.inr ⟨_, hsort, Buckets.passes_perm (by decide) _, hsorted⟩

/-- The maximum has one digit, and in the last digit the two numbers do not differ. -/
theorem returns_unsorted : ¬ ∀ source, SortsOrThrows source := by
  intro hall
  have hresult : sort [0, -10] = .ok [0, -10] := by decide
  rcases hall [0, -10] with ⟨e, he⟩ | ⟨sorted, hok, -, hsorted⟩
  · rw [hresult] at he
    cases he
  · rw [hresult, Except.ok.injEq] at hok
    rw [← hok] at hsorted
    exact absurd hsorted (by decide)

end Itmo.SoftwareTesting.RadixSort
