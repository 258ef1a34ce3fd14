import Mathlib.Dynamics.PeriodicPts.Lemmas
import Mathlib.Data.Set.Finite.Basic

/-! Runs in a finite set. A step that keeps such a set and is injective on it comes
back to every state of it, so the run of states is a cycle from its first visit on. -/

namespace Itmo.Lib

variable {α : Type*} {f : α → α} {s : Set α}

/-- Every point of the set is periodic. -/
theorem exists_period (hs : s.Finite) (hmaps : Set.MapsTo f s s) (hinj : Set.InjOn f s) {x : α}
    (hx : x ∈ s) : ∃ p, 0 < p ∧ f^[p] x = x := by
  have hfinite : Finite s := hs
  have hrestrict : Function.Injective (hmaps.restrict f s s) := hmaps.restrict_inj.mpr hinj
  obtain ⟨p, hpos, hp⟩ := hrestrict.mem_periodicPts ⟨x, hx⟩
  refine ⟨p, hpos, ?_⟩
  have hval := congrArg Subtype.val hp
  rwa [Set.MapsTo.iterate_restrict] at hval

/-- A run that enters the set repeats itself from there on. -/
theorem exists_cycle (hs : s.Finite) (hmaps : Set.MapsTo f s s) (hinj : Set.InjOn f s) {x : α}
    {m : ℕ} (hx : f^[m] x ∈ s) : ∃ p, 0 < p ∧ ∀ n, m ≤ n → f^[n + p] x = f^[n] x := by
  obtain ⟨p, hpos, hp⟩ := exists_period hs hmaps hinj hx
  refine ⟨p, hpos, fun n hn => ?_⟩
  obtain ⟨k, rfl⟩ := Nat.exists_eq_add_of_le' hn
  have hshift : k + m + p = k + (p + m) := by omega
  rw [hshift, Function.iterate_add_apply, Function.iterate_add_apply f p m, hp,
    ← Function.iterate_add_apply]

end Itmo.Lib
