import Mathlib.Logic.Function.Basic
import Mathlib.Data.List.Basic

/-! Undoing a sequence of state changes. If every step has a left inverse, a
left fold of the steps is undone by folding the inverses over the reversed
list. -/

namespace Itmo.Lib

variable {ι σ : Type*}

/-- Inverses applied in the opposite order undo a left fold of steps. -/
theorem foldl_leftInverse {f g : ι → σ → σ} (h : ∀ i, Function.LeftInverse (g i) (f i))
    (l : List ι) (s : σ) :
    l.reverse.foldl (fun s i => g i s) (l.foldl (fun s i => f i s) s) = s := by
  induction l generalizing s with
  | nil => rfl
  | cons i l ih =>
    simp only [List.foldl_cons, List.reverse_cons, List.foldl_append, List.foldl_nil]
    rw [ih, h i]

/-- The mirror image: the fold over the reversed list comes first. -/
theorem foldl_rightInverse {f g : ι → σ → σ} (h : ∀ i, Function.RightInverse (g i) (f i))
    (l : List ι) (s : σ) :
    l.foldl (fun s i => f i s) (l.reverse.foldl (fun s i => g i s) s) = s := by
  have hl := foldl_leftInverse (f := g) (g := f) h l.reverse s
  rwa [List.reverse_reverse] at hl

end Itmo.Lib
