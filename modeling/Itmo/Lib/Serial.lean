import Mathlib.Data.List.Basic

/-! Operations on a state that are served one after the other, each for a caller and
with the answer it gave. An operation may fail, and then it is not served. -/

namespace Itmo.Lib

variable {σ ω α ε κ : Type*} {exec : ω → σ → Except ε (α × σ)} {s s' : σ}
  {before later : List (κ × ω × α)}

/-- From one state to another, the operations gave these answers in this order. -/
def Serial (exec : ω → σ → Except ε (α × σ)) : σ → List (κ × ω × α) → σ → Prop
  | s, [], s' => s = s'
  | s, (_, operation, answer) :: later, s' =>
    ∃ t, exec operation s = .ok (answer, t) ∧ Serial exec t later s'

theorem serial_append : Serial exec s (before ++ later) s' ↔
    ∃ t, Serial exec s before t ∧ Serial exec t later s' := by
  induction before generalizing s with
  | nil => simp [Serial]
  | cons entry before ih =>
    obtain ⟨caller, operation, answer⟩ := entry
    simp only [List.cons_append, Serial, ih]
    constructor
    · rintro ⟨t, hexec, u, hbefore, hlater⟩
      exact ⟨u, ⟨t, hexec, hbefore⟩, hlater⟩
    · rintro ⟨u, ⟨t, hexec, hbefore⟩, hlater⟩
      exact ⟨t, hexec, u, hbefore, hlater⟩

/-- One more operation. -/
theorem Serial.concat {t : σ} {operation : ω} {answer : α} (h : Serial exec s before t)
    (hexec : exec operation t = .ok (answer, s')) (caller : κ) :
    Serial exec s (before ++ [(caller, operation, answer)]) s' :=
  serial_append.mpr ⟨t, h, s', hexec, rfl⟩

end Itmo.Lib
