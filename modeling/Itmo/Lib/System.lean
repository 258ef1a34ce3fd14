import Mathlib.Data.List.Basic
import Mathlib.Data.List.Pairwise

/-! Systems that take one step per event. Everything a step does not decide by
itself (the order of requests, the clock, a failing connection) is part of the
event, so a step is a function and a run is a fold; a claim about every
interleaving is a claim about every list of events. -/

namespace Itmo.Lib

variable {σ ε : Type*} {step : σ → ε → σ} {P Q : σ → ε → Prop}

/-- The state after a list of events. -/
def run (step : σ → ε → σ) (s : σ) (es : List ε) : σ := es.foldl step s

/-- One more event. -/
theorem run_concat (s : σ) (es : List ε) (e : ε) :
    run step s (es ++ [e]) = step (run step s es) e := by
  rw [run, List.foldl_concat]
  rfl

/-- What every step preserves holds after every run. -/
theorem run_invariant (Inv : σ → Prop) (h : ∀ s e, Inv s → Inv (step s e)) {s : σ} (hs : Inv s)
    (es : List ε) : Inv (run step s es) := by
  induction es generalizing s with
  | nil => exact hs
  | cons e es ih => exact ih (h s e hs)

/-- `P` holds of every state of the run together with the event that happens in it. -/
def Along (step : σ → ε → σ) (P : σ → ε → Prop) : σ → List ε → Prop
  | _, [] => True
  | s, e :: es => P s e ∧ Along step P (step s e) es

instance decidableAlong [∀ s e, Decidable (P s e)] : ∀ s es, Decidable (Along step P s es)
  | _, [] => inferInstanceAs (Decidable True)
  | s, e :: es =>
    have := decidableAlong (step s e) es
    inferInstanceAs (Decidable (P s e ∧ Along step P (step s e) es))

@[simp] theorem along_nil (s : σ) : Along step P s [] := trivial

@[simp] theorem along_cons (s : σ) (e : ε) (es : List ε) :
    Along step P s (e :: es) ↔ P s e ∧ Along step P (step s e) es := Iff.rfl

theorem along_congr (h : ∀ s e, P s e ↔ Q s e) (s : σ) (es : List ε) :
    Along step P s es ↔ Along step Q s es := by
  induction es generalizing s with
  | nil => rfl
  | cons e es ih => rw [along_cons, along_cons, h, ih]

/-- Along a run whose steps meet `P`, an invariant that `P`-steps preserve holds
at every step, and with it what the invariant and `P` imply together. -/
theorem Along.mono (Inv : σ → Prop) (hinv : ∀ s e, Inv s → P s e → Inv (step s e))
    (h : ∀ s e, Inv s → P s e → Q s e) {s : σ} {es : List ε} (hp : Along step P s es)
    (hs : Inv s) : Along step Q s es := by
  induction es generalizing s with
  | nil => trivial
  | cons e es ih => exact ⟨h s e hs hp.1, ih hp.2 (hinv s e hs hp.1)⟩

/-- Along a run whose steps meet `C`, two properties of steps that agree while an
invariant holds, which the steps of the one keep. -/
theorem along_iff_along {C : σ → ε → Prop} (Inv : σ → Prop)
    (h : ∀ s e, Inv s → C s e → (P s e ↔ Q s e))
    (hinv : ∀ s e, Inv s → C s e → Q s e → Inv (step s e)) {s : σ} (hs : Inv s) {es : List ε}
    (hc : Along step C s es) : Along step P s es ↔ Along step Q s es := by
  induction es generalizing s with
  | nil => rfl
  | cons e es ih =>
    rw [along_cons] at hc
    rw [along_cons, along_cons, h s e hs hc.1]
    refine and_congr_right fun hq => ?_
    exact ih (hinv s e hs hc.1 hq) hc.2

/-- What holds of the events holds along the run. -/
theorem along_of_forall_mem {es : List ε} (h : ∀ e ∈ es, ∀ s, P s e) (s : σ) :
    Along step P s es := by
  induction es generalizing s with
  | nil => trivial
  | cons e es ih =>
    rw [List.forall_mem_cons] at h
    exact ⟨h.1 s, ih h.2 (step s e)⟩

/-- If an invariant survives exactly the steps that meet `P`, it holds all along
the runs whose steps do. -/
theorem along_preserved_iff (Inv : σ → Prop) (h : ∀ s e, Inv s → (Inv (step s e) ↔ P s e)) {s : σ}
    (hs : Inv s) (es : List ε) :
    Along step (fun s e => Inv (step s e)) s es ↔ Along step P s es :=
  along_iff_along Inv (fun s e hs _ => h s e hs) (fun s e hs _ hp => (h s e hs).mpr hp) hs
    (along_of_forall_mem (fun _ _ _ => trivial) s)

/-- Without a condition on the steps: every step of every run. -/
theorem along_of_invariant (Inv : σ → Prop) (hinv : ∀ s e, Inv s → Inv (step s e))
    (h : ∀ s e, Inv s → Q s e) {s : σ} (hs : Inv s) (es : List ε) : Along step Q s es := by
  induction es generalizing s with
  | nil => trivial
  | cons e es ih => exact ⟨h s e hs, ih (hinv s e hs)⟩

/-! ### Records that get one more entry -/

section Records

variable {α : Type*} {record : List α} {new : α}

theorem pairwise_concat {R : α → α → Prop} (h : record.Pairwise R) (hnew : ∀ a ∈ record, R a new) :
    (record ++ [new]).Pairwise R := by
  refine List.pairwise_append.mpr ⟨h, List.pairwise_singleton _ _, fun a ha b hb => ?_⟩
  rw [List.mem_singleton.mp hb]
  exact hnew a ha

theorem forall_mem_concat {p : α → Prop} (h : ∀ a ∈ record, p a) (hnew : p new) :
    ∀ a ∈ record ++ [new], p a :=
  List.forall_mem_append.mpr ⟨h, List.forall_mem_singleton.mpr hnew⟩

end Records

end Itmo.Lib
