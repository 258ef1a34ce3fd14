import Itmo.Endec.LFSR
import Itmo.Lib.Cycle

/-! The run of the register and the key stream made of two of them. A call of `tact`
loses no information once the bits above `N` are gone: the bit it drops can be
recovered from the feedback, so the states are a cycle from there on, and none of
them is zero. A byte of the key stream is eight passes of a loop that shifts bits
in at the low end and reverses the byte at the end, so the first pass makes bit
zero. -/

namespace Itmo.Endec.Stream

open Lib

namespace LFSR

variable {T : Taps}

/-! ### States other than zero -/

theorem ext_getLsbD {l l' : LFSR T} (h : ∀ i, l.register.getLsbD i = l'.register.getLsbD i) :
    l = l' := by
  have hregister : l.register = l'.register := BitVec.eq_of_getLsbD_eq fun i _ => h i
  cases l
  cases l'
  exact congrArg LFSR.mk hregister

theorem register_eq_zero {l : LFSR T} (h : ∀ i, l.register.getLsbD i = false) : l.register = 0 :=
  BitVec.eq_of_getLsbD_eq fun i _ => (h i).trans BitVec.getLsbD_zero.symm

/-- The dropped bit comes back as the feedback when all the others are zero. -/
theorem tact_ne_zero {l : LFSR T} (h : l.register ≠ 0) : l.tact.register ≠ 0 := by
  intro hzero
  have hC := T.C_pos
  have hB := T.C_lt
  have hA := T.B_lt
  have hN := T.A_lt
  have hbits : ∀ i, (l.register.getLsbD (i + 1) || decide (i = T.N) && l.feedback) = false := by
    intro i
    rw [← getLsbD_tact, hzero]
    exact BitVec.getLsbD_zero
  have hupper : ∀ i, 0 < i → l.register.getLsbD i = false := by
    intro i hi
    obtain ⟨j, rfl⟩ := Nat.exists_eq_add_of_le' hi
    exact (Bool.or_eq_false_iff.mp (hbits j)).1
  have hfeedback : l.feedback = false := by
    have hlast := (Bool.or_eq_false_iff.mp (hbits T.N)).2
    rwa [decide_eq_true rfl, Bool.true_and] at hlast
  rw [feedback, hupper T.N (by omega), hupper T.A (by omega), hupper T.B (by omega),
    hupper T.C hC] at hfeedback
  apply h
  apply register_eq_zero
  intro i
  cases i with
  | zero => simpa using hfeedback
  | succ i => exact hupper (i + 1) i.succ_pos

theorem iterate_ne_zero {l : LFSR T} (h : l.register ≠ 0) (n : ℕ) :
    (tact^[n] l).register ≠ 0 := by
  induction n with
  | zero => exact h
  | succ n ih =>
    rw [Function.iterate_succ_apply']
    exact tact_ne_zero ih

/-! ### The cycle -/

/-- The states without bits above `N`. -/
def Settled (T : Taps) : Set (LFSR T) := {l | l.getState.toNat < 2 ^ (T.N + 1)}

theorem settled_finite : (Settled T).Finite := by
  have hfinite : Finite (LFSR T) := Finite.of_injective (fun l => l.register.toFin) <| by
    intro l l' h
    cases l
    cases l'
    exact congrArg LFSR.mk (BitVec.toFin_inj.mp h)
  exact Set.toFinite _

theorem mapsTo_settled : Set.MapsTo tact (Settled T) (Settled T) :=
  fun l hl => iterate_lt l (Nat.lt_succ_self _) hl 1

/-- Bit `i + 1` is bit `i` of the next state, and bit 0 is what the feedback and the
other taps leave for it. -/
theorem injOn_settled : Set.InjOn tact (Settled T) := by
  intro l hl l' hl' h
  have hC := T.C_pos
  have hB := T.C_lt
  have hA := T.B_lt
  have hN := T.A_lt
  have hhigh := (lt_iff_getLsbD l _).mp hl
  have hhigh' := (lt_iff_getLsbD l' _).mp hl'
  have hlow : ∀ i, 0 < i → l.register.getLsbD i = l'.register.getLsbD i := by
    intro i hi
    obtain ⟨j, rfl⟩ := Nat.exists_eq_add_of_le' hi
    by_cases hj : j < T.N
    · rw [← getLsbD_tact_of_lt l hj, ← getLsbD_tact_of_lt l' hj, h]
    · rw [hhigh (j + 1) (by omega), hhigh' (j + 1) (by omega)]
  have hfeedback : l.feedback = l'.feedback := by
    have hbit := getLsbD_tact_N l
    have hbit' := getLsbD_tact_N l'
    rw [hhigh _ le_rfl, Bool.false_or] at hbit
    rw [hhigh' _ le_rfl, Bool.false_or] at hbit'
    rw [← hbit, ← hbit', h]
  rw [feedback, feedback, hlow T.N (by omega), hlow T.A (by omega), hlow T.B (by omega),
    hlow T.C hC, Bool.xor_right_inj] at hfeedback
  apply ext_getLsbD
  intro i
  cases i with
  | zero => exact hfeedback
  | succ i => exact hlow (i + 1) i.succ_pos

/-- The register never becomes zero, it is without bits above `N` from call
`127 - N` on, `tact` is injective on such states, and from there on they are a
cycle. -/
theorem never_zero_and_periodic (T : Taps) (startState : {s : BitVec 128 // s ≠ 0}) :
    (∀ n, (tact^[n] (new T startState)).getState ≠ 0) ∧
    (∀ n, 127 - T.N ≤ n → (tact^[n] (new T startState)).getState.toNat < 2 ^ (T.N + 1)) ∧
    Set.InjOn tact {l : LFSR T | l.getState.toNat < 2 ^ (T.N + 1)} ∧
    ∃ p, 0 < p ∧ ∀ n, 127 - T.N ≤ n →
      tact^[n + p] (new T startState) = tact^[n] (new T startState) := by
  have hsettled : ∀ n, 127 - T.N ≤ n →
      (tact^[n] (new T startState)).getState.toNat < 2 ^ (T.N + 1) := by
    intro n hn
    exact iterate_lt_of_le _ (by omega)
  refine ⟨iterate_ne_zero startState.property, hsettled, injOn_settled, ?_⟩
  exact exists_cycle settled_finite mapsTo_settled injOn_settled (hsettled _ le_rfl)

end LFSR

/-! ### The key stream -/

namespace Var

/-- The combining function of the two states. -/
def combine (r1 r2 : BitVec 128) : Bool :=
  (r1.getLsbD 77 && r2.getLsbD 52) ^^ (r1.getLsbD 3 && r2.getLsbD 41)

/-- The bit that pass `n` shifts in, counted from zero. -/
def passBit (v : Var) (n : ℕ) : Bool :=
  combine (LFSR.tact^[n + 1] v.l1).getState (LFSR.tact^[F * (n + 1)] v.l2).getState

theorem gammaStep_getLsbD (s : Var × BitVec 8) {k : ℕ} (hk : k < 8) :
    (gammaStep s).2.getLsbD k = if k = 0 then
      combine (gammaStep s).1.l1.getState (gammaStep s).1.l2.getState
    else s.2.getLsbD (k - 1) := by
  cases k with
  | zero => simp [gammaStep, combine]
  | succ k =>
    have hk' : k < 8 := by omega
    simp [gammaStep, hk, BitVec.getLsbD_eq_getElem hk']

/-- The passes so far stand in the byte with the last one lowest. -/
theorem gammaStep_iterate_getLsbD (v : Var) (n : ℕ) {k : ℕ} (hk : k < 8) :
    (gammaStep^[n] (v, 0)).2.getLsbD k = (decide (k < n) && v.passBit (n - 1 - k)) := by
  induction n generalizing k with
  | zero => simp
  | succ n ih =>
    rw [Function.iterate_succ_apply', gammaStep_getLsbD _ hk,
      ← Function.iterate_succ_apply' gammaStep, (gammaStep_iterate (v, 0) (n + 1)).1,
      (gammaStep_iterate (v, 0) (n + 1)).2]
    cases k with
    | zero => simp [passBit]
    | succ k =>
      have hshift : n + 1 - 1 - (k + 1) = n - 1 - k := by omega
      rw [if_neg k.succ_ne_zero, Nat.add_sub_cancel, ih (by omega), hshift]
      simp

theorem nextGamma_getLsbD (v : Var) {j : ℕ} (hj : j < 8) :
    v.nextGamma.2.getLsbD j = v.passBit j := by
  have hpass := gammaStep_iterate_getLsbD v 8 (k := 7 - j) (by omega)
  have hshift : 8 - 1 - (7 - j) = j := by omega
  rw [hshift, decide_eq_true (by omega), Bool.true_and] at hpass
  rw [← hpass, nextGamma, BitVec.getLsbD_reverse, BitVec.getMsbD_eq_getLsbD, decide_eq_true hj,
    Bool.true_and]

/-- The registers after the passes of whole bytes. -/
theorem passBit_iterate (v : Var) (i j : ℕ) :
    ((fun v => (nextGamma v).1)^[i] v).passBit j = v.passBit (8 * i + j) := by
  obtain ⟨h1, h2⟩ := nextGamma_iterate v i
  have hclock : F * (8 * i + j + 1) = F * (j + 1) + 24 * i := by
    show 3 * (8 * i + j + 1) = 3 * (j + 1) + 24 * i
    omega
  have hcount : 8 * i + j + 1 = j + 1 + 8 * i := by omega
  rw [passBit, passBit, h1, h2, hclock, hcount, Function.iterate_add_apply _ (j + 1),
    Function.iterate_add_apply _ (F * (j + 1))]

/-- Byte `i` of the key stream. -/
def gamma (v : Var) (i : ℕ) : BitVec 8 := ((fun v => (nextGamma v).1)^[i] v).nextGamma.2

theorem gamma_getLsbD (v : Var) (i : ℕ) {j : ℕ} (hj : j < 8) :
    (v.gamma i).getLsbD j = v.passBit (8 * i + j) := by
  rw [gamma, nextGamma_getLsbD _ hj, passBit_iterate]

theorem getElem?_stream (v : Var) (input : List (BitVec 8)) (i : ℕ) :
    (v.stream input)[i]? = input[i]?.map (· ^^^ v.gamma i) := by
  induction input generalizing v i with
  | nil => rfl
  | cons sym rest ih =>
    cases i with
    | zero => rfl
    | succ i => exact ih v.nextGamma.1 i

/-- Every output byte is the input byte mixed with a byte that depends on its place
only, whose bits are the combinations of the two registers at their clocks. -/
theorem stream_bytes : ∃ g : ℕ → BitVec 8,
    (∀ i j, j < 8 → (g i).getLsbD j =
      combine (LFSR.tact^[8 * i + j + 1] (LFSR.new taps₁ startState₁)).getState
        (LFSR.tact^[3 * (8 * i + j + 1)] (LFSR.new taps₂ startState₂)).getState) ∧
    ∀ input : List (BitVec 8),
      (∀ i, (new.stream input)[i]? = input[i]?.map (· ^^^ g i)) ∧
        new.stream (new.stream input) = input :=
  ⟨new.gamma, fun i _ hj => gamma_getLsbD new i hj,
    fun input => ⟨getElem?_stream new input, stream_stream new input⟩⟩

end Var

end Itmo.Endec.Stream
