import Mathlib.Data.Nat.Find
import Mathlib.Logic.Function.Iterate
import Mathlib.Tactic.SplitIfs

/-! `while` loops whose body changes a state. The states at which the test is made are
iterates of the body, so whether a loop ends, in which state it ends and what holds whenever
its test is made are questions about iterates. -/

namespace Itmo.Lib

variable {σ : Type*} (test : σ → Prop) (body : σ → σ)

/-- The loop, for fewer turns than the number. -/
def whileLoop [DecidablePred test] : ℕ → σ → Option σ
  | 0, _ => none
  | turns + 1, s => if test s then whileLoop turns (body s) else some s

/-- The loop comes to make its test in the state. -/
def Visits (s t : σ) : Prop := ∃ n, (∀ k < n, test (body^[k] s)) ∧ body^[n] s = t

variable {test body} {s t : σ}

theorem whileLoop_eq_some_iff [DecidablePred test] {turns : ℕ} :
    whileLoop test body turns s = some t ↔
      ∃ n < turns, (∀ k < n, test (body^[k] s)) ∧ ¬ test t ∧ body^[n] s = t := by
  induction turns generalizing s with
  | zero => simp [whileLoop]
  | succ turns ih =>
    rw [whileLoop]
    split_ifs with hs
    · rw [ih]
      constructor
      · rintro ⟨n, hn, htests, ht, rfl⟩
        refine ⟨n + 1, by omega, fun k hk => ?_, ht, rfl⟩
        cases k with
        | zero => exact hs
        | succ k => exact htests k (by omega)
      · rintro ⟨n, hn, htests, ht, rfl⟩
        cases n with
        | zero => exact absurd hs ht
        | succ n => exact ⟨n, by omega, fun k hk => htests (k + 1) (by omega), ht, rfl⟩
    · constructor
      · intro h
        cases h
        exact ⟨0, by omega, by simp, hs, rfl⟩
      · rintro ⟨n, -, htests, -, rfl⟩
        cases n with
        | zero => rfl
        | succ n => exact absurd (htests 0 (by omega)) hs

/-- Where the loop ends. -/
theorem whileLoop_some [DecidablePred test] {turns : ℕ} (h : whileLoop test body turns s = some t) :
    Visits test body s t ∧ ¬ test t := by
  obtain ⟨n, -, htests, ht, hn⟩ := whileLoop_eq_some_iff.mp h
  exact ⟨⟨n, htests, hn⟩, ht⟩

/-- A loop ends just if its test fails at some iterate of the body. -/
theorem whileLoop_ends_iff [DecidablePred test] :
    (∃ turns t, whileLoop test body turns s = some t) ↔ ∃ n, ¬ test (body^[n] s) := by
  constructor
  · rintro ⟨turns, t, h⟩
    obtain ⟨n, -, -, ht, rfl⟩ := whileLoop_eq_some_iff.mp h
    exact ⟨n, ht⟩
  · intro h
    classical
    refine ⟨Nat.find h + 1, _, whileLoop_eq_some_iff.mpr
      ⟨Nat.find h, by omega, fun k hk => ?_, Nat.find_spec h, rfl⟩⟩
    exact not_not.mp (Nat.find_min h hk)

theorem whileLoop_mono [DecidablePred test] {turns turns' : ℕ} (hle : turns ≤ turns')
    (h : whileLoop test body turns s = some t) : whileLoop test body turns' s = some t := by
  obtain ⟨n, hn, hends⟩ := whileLoop_eq_some_iff.mp h
  exact whileLoop_eq_some_iff.mpr ⟨n, by omega, hends⟩

/-- A loop on images follows the loop on the states. -/
theorem whileLoop_map {τ : Type*} {test' : τ → Prop} {body' : τ → τ} [DecidablePred test]
    [DecidablePred test'] (g : σ → τ) (htest : ∀ s, test' (g s) ↔ test s)
    (hbody : ∀ s, body' (g s) = g (body s)) (turns : ℕ) (s : σ) :
    whileLoop test' body' turns (g s) = (whileLoop test body turns s).map g := by
  induction turns generalizing s with
  | zero => rfl
  | succ turns ih =>
    rw [whileLoop, whileLoop]
    by_cases hs : test s
    · rw [if_pos ((htest s).mpr hs), if_pos hs, hbody, ih]
    · rw [if_neg (mt (htest s).mp hs), if_neg hs]
      rfl

theorem Visits.refl : Visits test body s s := ⟨0, by simp, rfl⟩

theorem Visits.next (h : Visits test body s t) (ht : test t) : Visits test body s (body t) := by
  obtain ⟨n, htests, rfl⟩ := h
  refine ⟨n + 1, fun k hk => ?_, Function.iterate_succ_apply' body n s⟩
  rcases Nat.lt_succ_iff_lt_or_eq.mp hk with hlt | rfl
  · exact htests k hlt
  · exact ht

/-- What holds at first and survives each turn holds whenever the test is made. -/
theorem Visits.invariant {Inv : σ → Prop} (hs : Inv s)
    (hbody : ∀ t, Visits test body s t → test t → Inv t → Inv (body t))
    (h : Visits test body s t) : Inv t := by
  obtain ⟨n, htests, rfl⟩ := h
  induction n with
  | zero => exact hs
  | succ n ih =>
    rw [Function.iterate_succ_apply']
    have hbefore : ∀ k < n, test (body^[k] s) := fun k hk => htests k (by omega)
    exact hbody _ ⟨n, hbefore, rfl⟩ (htests n (by omega)) (ih hbefore)

/-- If an invariant survives exactly the turns from states with a property, it holds whenever
the test is made just if every turn is from such a state. -/
theorem forall_visits_iff {Inv P : σ → Prop} (hs : Inv s)
    (hbody : ∀ t, test t → Inv t → (Inv (body t) ↔ P t)) :
    (∀ t, Visits test body s t → Inv t) ↔ ∀ t, Visits test body s t → test t → P t := by
  constructor
  · intro hall t hvisits ht
    exact (hbody t ht (hall t hvisits)).mp (hall _ (hvisits.next ht))
  · intro hall t hvisits
    refine hvisits.invariant hs fun t hvisits ht hinv => ?_
    exact (hbody t ht hinv).mpr (hall t hvisits ht)

/-! ### Bodies that may throw -/

/-- The loop, for fewer turns than the number; an exception ends it. -/
def tryLoop {ε : Type*} (test : σ → Prop) [DecidablePred test] (body : σ → Except ε σ) :
    ℕ → σ → Option (Except ε σ)
  | 0, _ => none
  | turns + 1, s =>
    if test s then
      match body s with
      | .ok s' => tryLoop test body turns s'
      | .error e => some (.error e)
    else some (.ok s)

/-- A loop whose body throws in no state that it comes to. -/
theorem tryLoop_eq_whileLoop {ε : Type*} [DecidablePred test] {tryBody : σ → Except ε σ}
    {Inv : σ → Prop} (hs : Inv s)
    (hbody : ∀ s, Inv s → test s → tryBody s = .ok (body s) ∧ Inv (body s)) (turns : ℕ) :
    tryLoop test tryBody turns s = (whileLoop test body turns s).map .ok := by
  induction turns generalizing s with
  | zero => rfl
  | succ turns ih =>
    rw [tryLoop, whileLoop]
    by_cases ht : test s
    · obtain ⟨hok, hnext⟩ := hbody s hs ht
      rw [if_pos ht, if_pos ht, hok]
      exact ih hnext
    · rw [if_neg ht, if_neg ht]
      rfl

/-- A loop whose body throws in some states ends just if some iterate of the body is such a
state or fails the test. -/
theorem tryLoop_ends_iff {ε : Type*} {refused : σ → Prop} [DecidablePred test]
    [DecidablePred refused] {e : ε} {tryBody : σ → Except ε σ}
    (hbody : ∀ s, tryBody s = if refused s then .error e else .ok (body s)) :
    (∃ turns r, tryLoop test tryBody turns s = some r) ↔
      ∃ n, ¬ test (body^[n] s) ∨ refused (body^[n] s) := by
  have hstep : ∀ turns s, tryLoop test tryBody (turns + 1) s =
      if test s then if refused s then some (.error e) else tryLoop test tryBody turns (body s)
      else some (.ok s) := by
    intro turns s
    rw [tryLoop, hbody]
    by_cases href : refused s
    · rw [if_pos href, if_pos href]
    · rw [if_neg href, if_neg href]
  constructor
  · rintro ⟨turns, r, h⟩
    induction turns generalizing s with
    | zero => cases h
    | succ turns ih =>
      rw [hstep] at h
      by_cases ht : test s
      · by_cases href : refused s
        · exact ⟨0, Or.inr href⟩
        · rw [if_pos ht, if_neg href] at h
          obtain ⟨n, hn⟩ := ih h
          exact ⟨n + 1, hn⟩
      · exact ⟨0, Or.inl ht⟩
  · rintro ⟨n, hn⟩
    induction n generalizing s with
    | zero =>
      refine ⟨1, ?_⟩
      rw [hstep]
      by_cases ht : test s
      · have href : refused s := hn.resolve_left (not_not.mpr ht)
        exact ⟨_, by rw [if_pos ht, if_pos href]⟩
      · exact ⟨_, by rw [if_neg ht]⟩
    | succ n ih =>
      by_cases ht : test s
      · by_cases href : refused s
        · exact ⟨1, _, by rw [hstep, if_pos ht, if_pos href]⟩
        · obtain ⟨turns, r, h⟩ := ih hn
          exact ⟨turns + 1, r, by rw [hstep, if_pos ht, if_neg href, h]⟩
      · exact ⟨1, _, by rw [hstep, if_neg ht]⟩

end Itmo.Lib
