import Mathlib.Data.BitVec
import Mathlib.Logic.Function.Iterate
import Mathlib.Tactic

/-! The shift register of `stream/lfsr.rs` and the two registers of
`stream/mod.rs` that make the key stream. The register lives in 128 bits and the
feedback bit is joined by `|` to whatever the shift brings into position `N`, so
a start state with bits above `N` pollutes the sequence. Bit `i` of the state
after `n` calls is bit `0` of the state after `n + i` calls, which turns the law
of the sequence into a statement about one step: the bit above `N` may be set
only where the feedback is. -/

namespace Itmo.Endec.Stream

/-- The constant parameters of `LFSR` with the assertions of `new`. -/
structure Taps where
  N : ℕ
  A : ℕ
  B : ℕ
  C : ℕ
  N_lt : N < 128
  A_lt : A < N
  B_lt : B < A
  C_lt : C < B
  C_pos : 0 < C

structure LFSR (T : Taps) where
  register : BitVec 128

namespace LFSR

variable {T : Taps}

/-- `LFSR::new` with its `NonZeroU128`. -/
def new (T : Taps) (startState : {s : BitVec 128 // s ≠ 0}) : LFSR T := ⟨startState⟩

/-- The local `bit` of `tact`. -/
def bit (l : LFSR T) : BitVec 128 :=
  (l.register >>> T.N ^^^ l.register >>> T.A ^^^ l.register >>> T.B ^^^ l.register >>> T.C ^^^
    l.register) &&& 1#128

def tact (l : LFSR T) : LFSR T := ⟨l.register >>> 1 ||| l.bit <<< T.N⟩

def getState (l : LFSR T) : BitVec 128 := l.register

/-- The sum modulo two of the taps. -/
def feedback (l : LFSR T) : Bool :=
  l.register.getLsbD T.N ^^ l.register.getLsbD T.A ^^ l.register.getLsbD T.B ^^
    l.register.getLsbD T.C ^^ l.register.getLsbD 0

/-- The bit that call `n` shifts out, counted from zero. -/
def shiftedOut (l : LFSR T) (n : ℕ) : Bool := (tact^[n] l).register.getLsbD 0

/-! ### One call -/

theorem getLsbD_bit (l : LFSR T) (i : ℕ) :
    l.bit.getLsbD i = (decide (i = 0) && l.feedback) := by
  cases i with
  | zero => simp [bit, feedback]
  | succ i => simp [bit]

theorem getLsbD_tact (l : LFSR T) (i : ℕ) : l.tact.register.getLsbD i =
    (l.register.getLsbD (i + 1) || decide (i = T.N) && l.feedback) := by
  have hN := T.N_lt
  simp only [tact, BitVec.getLsbD_or, BitVec.getLsbD_ushiftRight, BitVec.getLsbD_shiftLeft,
    getLsbD_bit, Nat.add_comm 1 i]
  by_cases h : i = T.N
  · subst h
    simp [hN]
  · have hi : i < T.N ∨ i - T.N ≠ 0 := by omega
    rcases hi with hi | hi <;> simp [hi, h]

/-- Below position `N` a call only shifts. -/
theorem getLsbD_tact_of_lt (l : LFSR T) {i : ℕ} (hi : i < T.N) :
    l.tact.register.getLsbD i = l.register.getLsbD (i + 1) := by
  rw [getLsbD_tact, decide_eq_false hi.ne, Bool.false_and, Bool.or_false]

theorem getLsbD_tact_N (l : LFSR T) :
    l.tact.register.getLsbD T.N = (l.register.getLsbD (T.N + 1) || l.feedback) := by
  rw [getLsbD_tact, decide_eq_true rfl, Bool.true_and]

/-! ### The bits of a state come out in order -/

theorem getLsbD_iterate (l : LFSR T) (k : ℕ) {i : ℕ} (hi : i + k ≤ T.N) :
    (tact^[k] l).register.getLsbD i = l.register.getLsbD (i + k) := by
  induction k generalizing l with
  | zero => rfl
  | succ k ih =>
    rw [Function.iterate_succ_apply, ih l.tact (by omega), getLsbD_tact_of_lt l (by omega)]
    rfl

theorem shiftedOut_add (l : LFSR T) (n i : ℕ) :
    l.shiftedOut (n + i) = (tact^[n] l).shiftedOut i := by
  rw [shiftedOut, shiftedOut, Nat.add_comm n i, Function.iterate_add_apply]

theorem shiftedOut_of_le (l : LFSR T) {i : ℕ} (hi : i ≤ T.N) :
    l.shiftedOut i = l.register.getLsbD i := by
  rw [shiftedOut, getLsbD_iterate l i (by omega), Nat.zero_add]

theorem shiftedOut_succ_N (l : LFSR T) :
    l.shiftedOut (T.N + 1) = (l.register.getLsbD (T.N + 1) || l.feedback) := by
  rw [Nat.add_comm T.N 1, shiftedOut_add, shiftedOut_of_le _ le_rfl, Nat.add_comm 1 T.N]
  exact getLsbD_tact_N l

/-- The law of the feedback polynomial at position `n` of the sequence. -/
def LawAt (l : LFSR T) (n : ℕ) : Prop :=
  l.shiftedOut (n + T.N + 1) = (l.shiftedOut (n + T.N) ^^ l.shiftedOut (n + T.A) ^^
    l.shiftedOut (n + T.B) ^^ l.shiftedOut (n + T.C) ^^ l.shiftedOut n)

/-- The law holds at `n` unless the state there brings a set bit down to
position `N` and the feedback is zero. -/
theorem lawAt_iff (l : LFSR T) (n : ℕ) : l.LawAt n ↔
    ((tact^[n] l).register.getLsbD (T.N + 1) = true → (tact^[n] l).feedback = true) := by
  have hA := T.A_lt
  have hB := T.B_lt
  have hC := T.C_lt
  have hzero : l.shiftedOut n = (tact^[n] l).register.getLsbD 0 := rfl
  have hfeedback : (l.shiftedOut (n + T.N) ^^ l.shiftedOut (n + T.A) ^^ l.shiftedOut (n + T.B) ^^
      l.shiftedOut (n + T.C) ^^ l.shiftedOut n) = (tact^[n] l).feedback := by
    rw [shiftedOut_add l n T.N, shiftedOut_add l n T.A, shiftedOut_add l n T.B,
      shiftedOut_add l n T.C, shiftedOut_of_le _ le_rfl, shiftedOut_of_le _ (by omega),
      shiftedOut_of_le _ (by omega), shiftedOut_of_le _ (by omega), hzero, feedback]
  rw [LawAt, hfeedback, Nat.add_assoc, shiftedOut_add, shiftedOut_succ_N]
  cases (tact^[n] l).register.getLsbD (T.N + 1) <;> simp

/-! ### States without bits above `N` -/

theorem lt_iff_getLsbD (l : LFSR T) (k : ℕ) :
    l.getState.toNat < 2 ^ k ↔ ∀ i, k ≤ i → l.register.getLsbD i = false := by
  constructor
  · intro h i hi
    exact Nat.testBit_lt_two_pow (h.trans_le (Nat.pow_le_pow_right (by omega) hi))
  · intro h
    exact Nat.lt_pow_two_of_testBit _ fun i hi => h i hi

/-- A call takes one bit off the part of the state above `N`. -/
theorem tact_lt_iff (l : LFSR T) {k : ℕ} (hk : T.N < k) :
    l.tact.getState.toNat < 2 ^ k ↔ l.getState.toNat < 2 ^ (k + 1) := by
  have hstep : ∀ i, k ≤ i → l.tact.register.getLsbD i = l.register.getLsbD (i + 1) := by
    intro i hi
    rw [getLsbD_tact, decide_eq_false (by omega), Bool.false_and, Bool.or_false]
  rw [lt_iff_getLsbD, lt_iff_getLsbD]
  constructor
  · intro h i hi
    obtain ⟨j, rfl⟩ : ∃ j, i = j + 1 := ⟨i - 1, by omega⟩
    rw [← hstep j (by omega)]
    exact h j (by omega)
  · intro h i hi
    rw [hstep i hi]
    exact h (i + 1) (by omega)

theorem iterate_lt (l : LFSR T) {k : ℕ} (hk : T.N < k) (h : l.getState.toNat < 2 ^ k) (n : ℕ) :
    (tact^[n] l).getState.toNat < 2 ^ k := by
  induction n with
  | zero => exact h
  | succ n ih =>
    rw [Function.iterate_succ_apply', tact_lt_iff _ hk]
    exact ih.trans (Nat.pow_lt_pow_right (by omega) (by omega))

theorem lawAt_of_lt (l : LFSR T) {n : ℕ}
    (h : (tact^[n] l).getState.toNat < 2 ^ (T.N + 1)) : l.LawAt n := by
  rw [lawAt_iff, (lt_iff_getLsbD _ _).mp h _ le_rfl]
  intro hfalse
  cases hfalse

/-! ### The whole sequence -/

section

variable (T : Taps) (startState : {s : BitVec 128 // s ≠ 0})

/-- The bound after the first call, and with it after every call, is a bound on
the start state. -/
theorem bounded_iff :
    (∀ n, (tact^[n + 1] (new T startState)).getState.toNat < 2 ^ (T.N + 1)) ↔
      (new T startState).getState.toNat < 2 ^ (T.N + 2) := by
  rw [← tact_lt_iff (new T startState) (k := T.N + 1) (by omega)]
  constructor
  · intro h
    exact h 0
  · intro h n
    rw [Function.iterate_succ_apply]
    exact iterate_lt _ (by omega) h n

/-- With a bounded register the law can only fail at the first call. -/
theorem law_iff (hstart : (new T startState).getState.toNat < 2 ^ (T.N + 2)) :
    (∀ n, (new T startState).LawAt n) ↔ (new T startState).LawAt 0 := by
  constructor
  · intro h
    exact h 0
  · intro h n
    cases n with
    | zero => exact h
    | succ n => exact lawAt_of_lt _ ((bounded_iff T startState).mpr hstart n)

/-- The sequence follows the feedback polynomial and the register stays below
`2 ^ (N + 1)` after every call exactly when the start state has no bit above
`N`, or only the bit `N + 1` and a feedback that is set too. -/
theorem follows_polynomial_iff :
    ((∀ n, (new T startState).LawAt n) ∧
      ∀ n, (tact^[n + 1] (new T startState)).getState.toNat < 2 ^ (T.N + 1)) ↔
    (startState.val.toNat < 2 ^ (T.N + 1) ∨
      startState.val.toNat < 2 ^ (T.N + 2) ∧
        (startState.val.getLsbD T.N ^^ startState.val.getLsbD T.A ^^ startState.val.getLsbD T.B ^^
          startState.val.getLsbD T.C ^^ startState.val.getLsbD 0) = true) := by
  have hstate : startState.val = (new T startState).getState := rfl
  have hfeedback : (startState.val.getLsbD T.N ^^ startState.val.getLsbD T.A ^^
      startState.val.getLsbD T.B ^^ startState.val.getLsbD T.C ^^ startState.val.getLsbD 0) =
      (new T startState).feedback := rfl
  rw [hfeedback, hstate, bounded_iff]
  constructor
  · rintro ⟨hlaw, hlt⟩
    have hzero := (lawAt_iff _ 0).mp (hlaw 0)
    by_cases hbit : (new T startState).register.getLsbD (T.N + 1) = true
    · exact Or.inr ⟨hlt, hzero hbit⟩
    · left
      refine (lt_iff_getLsbD _ _).mpr fun i hi => ?_
      rcases hi.eq_or_lt with rfl | hi
      · exact Bool.eq_false_iff.mpr hbit
      · exact (lt_iff_getLsbD _ _).mp hlt i hi
  · rintro (hlt | ⟨hlt, hset⟩)
    · have hlt' := hlt.trans (Nat.pow_lt_pow_right (m := T.N + 1) (n := T.N + 2) one_lt_two
        (by omega))
      exact ⟨(law_iff T startState hlt').mpr (lawAt_of_lt _ hlt), hlt'⟩
    · exact ⟨(law_iff T startState hlt).mpr ((lawAt_iff _ 0).mpr fun _ => hset), hlt⟩

end

/-- The bits above `N` are gone after `127 - N` calls, whatever the start state. -/
theorem iterate_lt_of_le (l : LFSR T) {n : ℕ} (hn : 127 ≤ T.N + n) :
    (tact^[n] l).getState.toNat < 2 ^ (T.N + 1) := by
  have hwindow : ∀ (m : ℕ) (l : LFSR T), l.getState.toNat < 2 ^ (T.N + 1 + m) →
      (tact^[m] l).getState.toNat < 2 ^ (T.N + 1) := by
    intro m
    induction m with
    | zero =>
      intro l h
      exact h
    | succ m ih =>
      intro l h
      rw [Function.iterate_succ_apply]
      exact ih l.tact ((tact_lt_iff l (by omega)).mpr h)
  refine hwindow n l (l.getState.isLt.trans_le (Nat.pow_le_pow_right (by omega) ?_))
  omega

/-- From call `127 - N` on every register follows its polynomial. -/
theorem lawAt_of_le (l : LFSR T) {n : ℕ} (hn : 127 ≤ T.N + n) : l.LawAt n :=
  lawAt_of_lt l (iterate_lt_of_le l hn)

end LFSR

/-! ### The two registers of the key stream -/

def taps₁ : Taps := ⟨77, 6, 5, 2, by decide, by decide, by decide, by decide, by decide⟩

def taps₂ : Taps := ⟨53, 6, 2, 1, by decide, by decide, by decide, by decide, by decide⟩

def startState₁ : {s : BitVec 128 // s ≠ 0} := ⟨0xABBAABBAABBAABBAABBAABBAABBAABBA, by decide⟩

def startState₂ : {s : BitVec 128 // s ≠ 0} := ⟨0xDEADDEADDEADDEADDEADDEADDEADDEAD, by decide⟩

/-- The first register of the program has bits above 78, so it is not below
`2 ^ 78` after the first call. -/
theorem start_state_leaks : ¬ ∀ (T : Taps) (startState : {s : BitVec 128 // s ≠ 0}),
    (∀ n, (LFSR.new T startState).LawAt n) ∧
      ∀ n, (LFSR.tact^[n + 1] (LFSR.new T startState)).getState.toNat < 2 ^ (T.N + 1) := by
  intro h
  have hfirst := (h taps₁ startState₁).2 0
  revert hfirst
  decide

structure Var where
  l1 : LFSR taps₁
  l2 : LFSR taps₂

namespace Var

def F : ℕ := 3

def new : Var := ⟨LFSR.new taps₁ startState₁, LFSR.new taps₂ startState₂⟩

/-- One pass of the loop of `next_gamma`, on the registers and `gamma`. -/
def gammaStep (s : Var × BitVec 8) : Var × BitVec 8 :=
  let var : Var := ⟨s.1.l1.tact, LFSR.tact^[F] s.1.l2⟩
  let r1 := var.l1.getState
  let r2 := var.l2.getState
  (var, s.2 <<< 1 |||
    ((r1 >>> 77 &&& r2 >>> 52) ^^^ (r1 >>> 3 &&& r2 >>> 41)).setWidth 8 &&& 1#8)

def nextGamma (v : Var) : Var × BitVec 8 :=
  let s := gammaStep^[8] (v, 0)
  (s.1, s.2.reverse)

/-- The loop of `stream` over the bytes it reads. -/
def stream : Var → List (BitVec 8) → List (BitVec 8)
  | _, [] => []
  | v, sym :: rest => (sym ^^^ v.nextGamma.2) :: stream v.nextGamma.1 rest

theorem gammaStep_iterate (s : Var × BitVec 8) (n : ℕ) :
    (gammaStep^[n] s).1.l1 = LFSR.tact^[n] s.1.l1 ∧
      (gammaStep^[n] s).1.l2 = LFSR.tact^[F * n] s.1.l2 := by
  induction n generalizing s with
  | zero => exact ⟨rfl, rfl⟩
  | succ n ih =>
    have hstep := ih (gammaStep s)
    rw [Function.iterate_succ_apply, Function.iterate_succ_apply, Nat.mul_succ,
      Function.iterate_add_apply]
    exact hstep

/-- The registers after `n` bytes of the key stream. -/
theorem nextGamma_iterate (v : Var) (n : ℕ) :
    ((fun v => (nextGamma v).1)^[n] v).l1 = LFSR.tact^[8 * n] v.l1 ∧
      ((fun v => (nextGamma v).1)^[n] v).l2 = LFSR.tact^[24 * n] v.l2 := by
  induction n generalizing v with
  | zero => exact ⟨rfl, rfl⟩
  | succ n ih =>
    have hbyte := gammaStep_iterate (v, 0) 8
    have hrest := ih (nextGamma v).1
    rw [Function.iterate_succ_apply, Nat.mul_succ, Nat.mul_succ, Function.iterate_add_apply,
      Function.iterate_add_apply]
    exact ⟨hrest.1.trans (congrArg _ hbyte.1), hrest.2.trans (congrArg _ hbyte.2)⟩

/-- After seven bytes of key stream the start states have left no bit above `N`
in either register. -/
theorem registers_settled (v : Var) {n : ℕ} (hn : 7 ≤ n) :
    ((fun v => (nextGamma v).1)^[n] v).l1.getState.toNat < 2 ^ 78 ∧
      ((fun v => (nextGamma v).1)^[n] v).l2.getState.toNat < 2 ^ 54 := by
  rw [(nextGamma_iterate v n).1, (nextGamma_iterate v n).2]
  have h1 : 127 ≤ taps₁.N + 8 * n := by
    show 127 ≤ 77 + 8 * n
    omega
  have h2 : 127 ≤ taps₂.N + 24 * n := by
    show 127 ≤ 53 + 24 * n
    omega
  exact ⟨LFSR.iterate_lt_of_le v.l1 h1, LFSR.iterate_lt_of_le v.l2 h2⟩

/-- Ciphering is its own inverse. -/
theorem stream_stream (v : Var) (input : List (BitVec 8)) : v.stream (v.stream input) = input := by
  induction input generalizing v with
  | nil => rfl
  | cons sym rest ih =>
    rw [stream, stream, ih, BitVec.xor_assoc, BitVec.xor_self, BitVec.xor_zero]

end Var

end Itmo.Endec.Stream
