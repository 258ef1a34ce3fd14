import Itmo.Lib.Double
import Itmo.Lib.Except
import Itmo.Lib.Loop
import Mathlib.Algebra.Order.Archimedean.Basic
import Mathlib.Data.Int.Range
import Mathlib.Data.List.AList

/-! The tables that `table` of `software_testing` computes, in exact arithmetic. The loop goes from
the left bound to the right one by the step, but at a discontinuity it starts its next turn
without having moved: it ends just if no point it comes to is one. -/

namespace Itmo.SoftwareTesting.Table

open Lib

section Definitions

variable (K : Type)

inductive Bound where
  | included (x : K)
  | excluded (x : K)
  | unbounded

structure RangeInclusive where
  start : K
  stop : K

structure Function where
  name : String
  function : K → Double K
  discontinuitier : RangeInclusive K → List K
  leftBound : Bound K
  rightBound : Bound K

/-- The texts of numbers: as they are, and with five digits after the point. -/
structure Display where
  number : K → String
  fiveDigits : Double K → String

variable [LinearOrder K]

/-- The map `xy`. -/
abbrev Points := AList fun _ : K => Double K

/-- The variables of the loop. -/
structure State where
  left : K
  xy : Points K

variable {K}

namespace Function

variable (f : Function K) (range : RangeInclusive K)

def left : K :=
  match f.leftBound with
  | .included x | .excluded x => if range.start < x then x else range.start
  | .unbounded => range.start

def right : K :=
  match f.rightBound with
  | .included x | .excluded x => if x < range.stop then x else range.stop
  | .unbounded => range.stop

def markDiscontinuities (discontinuities : List K) : Points K :=
  discontinuities.foldl (fun xy discontinuity => xy.insert discontinuity .nan) ∅

def start : State K := ⟨f.left range, markDiscontinuities (f.discontinuitier range)⟩

variable [Add K] (display : Display K) (step : K)

/-- The body of the loop. -/
def visit (discontinuities : List K) (s : State K) : Except String (State K) :=
  if s.left ∈ discontinuities then .ok s
  else
    match f.function s.left with
    | .finite value => .ok ⟨s.left + step, s.xy.insert s.left (.finite value)⟩
    | value =>
      let x := display.fiveDigits (.finite s.left)
      let y := display.fiveDigits value
      .error s!"{f.name}: x = {x}, y = {y}"

def tabulate (turns : ℕ) : Option (Except String (State K)) :=
  tryLoop (fun s : State K => s.left ≤ f.right range)
    (f.visit display step (f.discontinuitier range)) turns (f.start range)

def line (display : Display K) : (Σ _ : K, Double K) → Except String String
  | ⟨x, .nan⟩ => .ok s!"{display.number x},NaN\n"
  | ⟨x, .finite y⟩ => .ok s!"{display.number x},{display.number y}\n"
  | ⟨x, y⟩ =>
    let x := display.fiveDigits (.finite x)
    let y := display.fiveDigits y
    .error s!"Result must be nan or finite. {f.name}, x = {x}, y = {y}"

/-- The path of the file and its lines, in the order in which the map is gone through. -/
def compute (order : Points K → List (Σ _ : K, Double K)) (turns : ℕ) :
    Option (Except String (String × List String)) :=
  (f.tabulate range display step turns).map fun result : Except String (State K) => do
    let s ← result
    let lines ← (order s.xy).mapM (f.line display)
    return (s!"../src/test/resources/{f.name}.csv", lines)

end Function

end Definitions

namespace Function

/-! ### The loop -/

section Loop

variable {K : Type} [Field K] [LinearOrder K] {f : Function K} {range : RangeInclusive K}
  {display : Display K} {step : K}

omit [Field K] in
theorem lookup_foldl_insert (discontinuities : List K) (xy : Points K) (x : K) :
    (discontinuities.foldl (fun xy discontinuity => xy.insert discontinuity .nan) xy).lookup x =
      if x ∈ discontinuities then some .nan else xy.lookup x := by
  induction discontinuities generalizing xy with
  | nil => rfl
  | cons discontinuity rest ih =>
    rw [List.foldl_cons, ih]
    by_cases hrest : x ∈ rest
    · rw [if_pos hrest, if_pos (List.mem_cons_of_mem _ hrest)]
    · by_cases hx : x = discontinuity
      · rw [if_neg hrest, hx, AList.lookup_insert, if_pos List.mem_cons_self]
      · rw [if_neg hrest, AList.lookup_insert_ne hx, if_neg (by simp [hx, hrest])]

/-- The state after a number of turns that have moved. -/
structure Reached (f : Function K) (range : RangeInclusive K) (step : K) (n : ℕ) (s : State K) :
    Prop where
  left_eq : s.left = f.left range + n * step
  visited : ∀ i < n, f.left range + i * step ≤ f.right range ∧
    f.left range + i * step ∉ f.discontinuitier range
  discontinuity : ∀ x ∈ f.discontinuitier range, s.xy.lookup x = some .nan
  point : ∀ i < n, s.xy.lookup (f.left range + i * step) =
    some (f.function (f.left range + i * step))
  other : ∀ x ∉ f.discontinuitier range, (∀ i < n, x ≠ f.left range + i * step) →
    s.xy.lookup x = none

/-- A turn for a function that has a finite value everywhere. -/
def move (f : Function K) (step : K) (discontinuities : List K) (s : State K) : State K :=
  if s.left ∈ discontinuities then s
  else ⟨s.left + step, s.xy.insert s.left (f.function s.left)⟩

/-- The table holds the discontinuities and the points between the bounds that are none. -/
structure Tabulated (f : Function K) (range : RangeInclusive K) (step : K) (xy : Points K) :
    Prop where
  discontinuity : ∀ x ∈ f.discontinuitier range, xy.lookup x = some .nan
  point : ∀ i : ℕ, f.left range + i * step ≤ f.right range →
    f.left range + i * step ∉ f.discontinuitier range →
    xy.lookup (f.left range + i * step) = some (f.function (f.left range + i * step))
  other : ∀ x ∉ f.discontinuitier range,
    (∀ i : ℕ, f.left range + i * step ≤ f.right range → x ≠ f.left range + i * step) →
    xy.lookup x = none

/-- The loop ends, with such a table. -/
def Completes (f : Function K) (range : RangeInclusive K) (display : Display K) (step : K) : Prop :=
  ∃ turns s, f.tabulate range display step turns = some (.ok s) ∧ Tabulated f range step s.xy

theorem reached_start (f : Function K) (range : RangeInclusive K) (step : K) :
    Reached f range step 0 (f.start range) := by
  refine ⟨?_, by simp, fun x hx => ?_, by simp, fun x hx _ => ?_⟩
  · rw [Nat.cast_zero, zero_mul, add_zero]
    rfl
  · exact (lookup_foldl_insert _ _ _).trans (if_pos hx)
  · exact (lookup_foldl_insert _ _ _).trans (if_neg hx)

variable [IsStrictOrderedRing K]

/-- One turn that moves puts one more point into the table. -/
theorem Reached.next {n : ℕ} {s : State K} (hstep : 0 < step) (h : Reached f range step n s)
    (htest : s.left ≤ f.right range) (hleft : s.left ∉ f.discontinuitier range) :
    Reached f range step (n + 1) ⟨s.left + step, s.xy.insert s.left (f.function s.left)⟩ := by
  have hcases : ∀ i < n + 1, i < n ∨ f.left range + i * step = s.left := by
    intro i hi
    rcases Nat.lt_succ_iff_lt_or_eq.mp hi with hlt | rfl
    · exact Or.inl hlt
    · exact Or.inr h.left_eq.symm
  have hne : ∀ i < n, f.left range + i * step ≠ s.left := by
    intro i hi heq
    rw [h.left_eq, add_right_inj, mul_left_inj' hstep.ne', Nat.cast_inj] at heq
    omega
  refine ⟨?_, fun i hi => ?_, fun x hx => ?_, fun i hi => ?_, fun x hx hother => ?_⟩
  · show s.left + step = _
    rw [h.left_eq]
    push_cast
    ring
  · rcases hcases i hi with hlt | heq
    · exact h.visited i hlt
    · rw [heq]
      exact ⟨htest, hleft⟩
  · have hx' : x ≠ s.left := fun heq => hleft (heq ▸ hx)
    exact (AList.lookup_insert_ne hx').trans (h.discontinuity x hx)
  · rcases hcases i hi with hlt | heq
    · exact (AList.lookup_insert_ne (hne i hlt)).trans (h.point i hlt)
    · rw [heq]
      exact AList.lookup_insert _
  · have hx' : x ≠ s.left := by
      rw [h.left_eq]
      exact hother n (Nat.lt_succ_self n)
    exact (AList.lookup_insert_ne hx').trans
      (h.other x hx fun i hi => hother i (Nat.lt_succ_of_lt hi))

/-- A state in which the loop ends has been at every point up to the right bound. -/
theorem Reached.lt_of_le {n i : ℕ} {s : State K} (hstep : 0 < step)
    (h : Reached f range step n s) (htest : ¬ s.left ≤ f.right range)
    (hi : f.left range + i * step ≤ f.right range) : i < n := by
  by_contra hn
  rw [h.left_eq] at htest
  have hle : (n : K) * step ≤ i * step :=
    mul_le_mul_of_nonneg_right (Nat.cast_le.mpr (not_lt.mp hn)) hstep.le
  exact htest (by linarith)

theorem Reached.tabulated {n : ℕ} {s : State K} (hstep : 0 < step)
    (h : Reached f range step n s) (htest : ¬ s.left ≤ f.right range) :
    Tabulated f range step s.xy where
  discontinuity := h.discontinuity
  point i hi _ := h.point i (h.lt_of_le hstep htest hi)
  other x hx hother := h.other x hx fun i hi => hother i (h.visited i hi).1

theorem Reached.move {n : ℕ} {s : State K} (hstep : 0 < step) (h : Reached f range step n s)
    (htest : s.left ≤ f.right range) :
    ∃ n, Reached f range step n (f.move step (f.discontinuitier range) s) := by
  rw [Function.move]
  split_ifs with hleft
  · exact ⟨n, h⟩
  · exact ⟨n + 1, h.next hstep htest hleft⟩

/-- At each test the loop has moved by a number of steps, or stands at a discontinuity. -/
theorem exists_reached (hstep : 0 < step) {s : State K}
    (h : Visits (fun s : State K => s.left ≤ f.right range)
      (f.move step (f.discontinuitier range)) (f.start range) s) :
    ∃ n, Reached f range step n s := by
  refine @Visits.invariant _ _ _ _ _ (fun s => ∃ n, Reached f range step n s)
    ⟨0, reached_start f range step⟩ ?_ h
  rintro t - htest ⟨n, hn⟩
  exact hn.move hstep htest

/-- The function has a value at each point between the bounds that is no discontinuity. -/
def HasValues (f : Function K) (range : RangeInclusive K) : Prop :=
  ∀ x, f.left range ≤ x → x ≤ f.right range → x ∉ f.discontinuitier range →
    ∃ y, f.function x = .finite y

theorem tabulate_eq (hstep : 0 < step) (hvalues : HasValues f range) (turns : ℕ) :
    f.tabulate range display step turns =
      (whileLoop (fun s : State K => s.left ≤ f.right range)
        (f.move step (f.discontinuitier range)) turns (f.start range)).map .ok := by
  refine @tryLoop_eq_whileLoop _ _ _ _ _ _ _ (fun s => ∃ n, Reached f range step n s)
    ⟨0, reached_start f range step⟩ ?_ turns
  rintro s ⟨n, hn⟩ htest
  refine ⟨?_, hn.move hstep htest⟩
  rw [visit, move]
  split_ifs with hleft
  · rfl
  · have hle : f.left range ≤ s.left := by
      rw [hn.left_eq]
      exact le_add_of_nonneg_right (mul_nonneg n.cast_nonneg hstep.le)
    obtain ⟨y, hy⟩ := hvalues s.left hle htest hleft
    rw [hy]

/-- A completed table is written to the file. -/
theorem Completes.compute_ok (hstep : 0 < step) (hvalues : HasValues f range)
    {order : Points K → List (Σ _ : K, Double K)} (horder : ∀ xy, (order xy).Perm xy.entries)
    (h : Completes f range display step) :
    ∃ turns file, f.compute range display step order turns = some (.ok file) := by
  obtain ⟨turns, s, htabulate, htable⟩ := h
  have hline : ∀ point ∈ order s.xy, ∃ text, f.line display point = .ok text := by
    rintro ⟨x, y⟩ hmem
    have hlookup : s.xy.lookup x = some y :=
      AList.mem_lookup_iff.mpr ((horder s.xy).mem_iff.mp hmem)
    by_cases hx : x ∈ f.discontinuitier range
    · rw [htable.discontinuity x hx] at hlookup
      cases hlookup
      exact ⟨_, rfl⟩
    · by_cases hpoint : ∃ i : ℕ, f.left range + i * step ≤ f.right range ∧
          x = f.left range + i * step
      · obtain ⟨i, hi, rfl⟩ := hpoint
        have hle : f.left range ≤ f.left range + i * step :=
          le_add_of_nonneg_right (mul_nonneg i.cast_nonneg hstep.le)
        obtain ⟨value, hvalue⟩ := hvalues _ hle hi hx
        rw [htable.point i hi hx, hvalue] at hlookup
        cases hlookup
        exact ⟨_, rfl⟩
      · have hnone := htable.other x hx fun i hi heq => hpoint ⟨i, hi, heq⟩
        rw [hnone] at hlookup
        cases hlookup
  obtain ⟨lines, hlines⟩ := mapM_isOk_iff.mpr hline
  refine ⟨turns, (s!"../src/test/resources/{f.name}.csv", lines), ?_⟩
  rw [compute, htabulate, Option.map_some, ok_bind, hlines]
  rfl

variable [Archimedean K]

/-- Where no point is a discontinuity, the loop moves until it is beyond the right bound. -/
theorem exists_beyond (hstep : 0 < step)
    (h : ∀ i : ℕ, f.left range + i * step ≤ f.right range →
      f.left range + i * step ∉ f.discontinuitier range) :
    ∃ n, ¬ ((f.move step (f.discontinuitier range))^[n] (f.start range)).left ≤ f.right range := by
  by_contra! hall
  have hreached : ∀ n, Reached f range step n
      ((f.move step (f.discontinuitier range))^[n] (f.start range)) := by
    intro n
    induction n with
    | zero => exact reached_start f range step
    | succ n ih =>
      have htest := hall n
      have hleft := h n (ih.left_eq ▸ htest)
      rw [← ih.left_eq] at hleft
      rw [Function.iterate_succ_apply', move, if_neg hleft]
      exact ih.next hstep htest hleft
  obtain ⟨n, hn⟩ := Archimedean.arch (f.right range - f.left range + step) hstep
  have htest := hall n
  rw [(hreached n).left_eq] at htest
  rw [nsmul_eq_mul] at hn
  linarith

theorem completes_iff_of_hasValues (hstep : 0 < step) (hvalues : HasValues f range) :
    Completes f range display step ↔
      ∀ i : ℕ, f.left range + i * step ≤ f.right range →
        f.left range + i * step ∉ f.discontinuitier range := by
  constructor
  · rintro ⟨turns, s, htabulate, -⟩ i hi
    rw [tabulate_eq hstep hvalues, Option.map_eq_some_iff] at htabulate
    obtain ⟨t, hloop, ht⟩ := htabulate
    cases ht
    obtain ⟨hvisits, htest⟩ := whileLoop_some hloop
    obtain ⟨n, hn⟩ := exists_reached hstep hvisits
    exact (hn.visited i (hn.lt_of_le hstep htest hi)).2
  · intro h
    have hends : ∃ turns s, whileLoop (fun s : State K => s.left ≤ f.right range)
        (f.move step (f.discontinuitier range)) turns (f.start range) = some s :=
      whileLoop_ends_iff.mpr (exists_beyond hstep h)
    obtain ⟨turns, s, hloop⟩ := hends
    obtain ⟨hvisits, htest⟩ := whileLoop_some hloop
    obtain ⟨n, hn⟩ := exists_reached hstep hvisits
    refine ⟨turns, s, ?_, hn.tabulated hstep htest⟩
    rw [tabulate_eq hstep hvalues, hloop]
    rfl

/-- The table of a total function is completed just if no point between the bounds is a
discontinuity. -/
theorem completes_iff (hstep : 0 < step) (htotal : ∀ x, ∃ y, f.function x = .finite y) :
    Completes f range display step ↔
      ∀ i : ℕ, f.left range + i * step ≤ f.right range →
        f.left range + i * step ∉ f.discontinuitier range :=
  completes_iff_of_hasValues hstep fun x _ _ _ => htotal x

end Loop

/-! ### The identity -/

def identity (discontinuities : List ℚ) : Function ℚ :=
  ⟨"identity", .finite, fun _ => discontinuities, .unbounded, .unbounded⟩

/-- Without the five digits. -/
def plain : Display ℚ where
  number := toString
  fiveDigits
    | .nan => "NaN"
    | .infinite positive => if positive then "inf" else "-inf"
    | .finite x => toString x

/-- A discontinuity between two points. -/
theorem completes_identity : Completes (identity [1 / 4]) ⟨0, 1⟩ plain (1 / 2) := by
  refine (completes_iff (by norm_num) fun x => ⟨x, rfl⟩).mpr fun i _ hmem => ?_
  have heq : (0 : ℚ) + i * (1 / 2) = 1 / 4 := List.mem_singleton.mp hmem
  have htwo : ((2 * i : ℕ) : ℚ) = (1 : ℕ) := by
    push_cast
    linarith
  have hparity := Nat.cast_inj.mp htwo
  omega

/-- The first point is a discontinuity, and the loop stays at it. -/
theorem not_completes_identity :
    ¬ ∀ (f : Function ℚ) (range : RangeInclusive ℚ) (display : Display ℚ) (step : ℚ), 0 < step →
      (∀ x, ∃ y, f.function x = .finite y) → Completes f range display step := by
  intro hall
  have hstep : (0 : ℚ) < 1 / 2 := by norm_num
  have h := hall (identity [0]) ⟨0, 1⟩ plain (1 / 2) hstep fun x => ⟨x, rfl⟩
  have hpoint := (completes_iff_of_hasValues hstep fun x _ _ _ => ⟨x, rfl⟩).mp h 0
  have hleft : (identity [0]).left ⟨0, 1⟩ + ((0 : ℕ) : ℚ) * (1 / 2) = 0 := by
    rw [Nat.cast_zero, zero_mul, add_zero]
    rfl
  rw [hleft] at hpoint
  exact hpoint zero_le_one List.mem_cons_self

end Function

end Itmo.SoftwareTesting.Table
