import Mathlib.Data.List.Forall2
import Itmo.ProgLab8.Route

/-! The cached collection of the server. A list read from the database replaces
the cached one when the two differ in length or a pair of routes at the same
position compares as different. Routes that compare as equal need not be equal,
so the cache can keep routes that the database no longer has. -/

namespace Itmo.ProgLab8

open Lib

variable {D : Type} [Platform D]

/-- The cached routes and the time of their last replacement in milliseconds. -/
structure RouteCollection (D : Type) [Platform D] where
  data : List (Route D)
  lastUpdate : ℤ

namespace RouteCollection

/-- The change detection of `updateData`. -/
def changed (data newData : List (Route D)) : Bool :=
  data.length ≠ newData.length || (List.zipWith Route.compareTo data newData).any (· ≠ 0)

/-- `now` is what the clock shows if the list is replaced. -/
def updateData (now : ℤ) (newData : List (Route D)) (c : RouteCollection D) : RouteCollection D :=
  if changed c.data newData then ⟨newData, now⟩ else c

/-- Two lists count as unchanged when they compare as equal position by position. -/
theorem changed_eq_false_iff (data newData : List (Route D)) :
    changed data newData = false ↔ List.Forall₂ (fun a b => a.compareTo b = 0) data newData := by
  induction data generalizing newData with
  | nil => cases newData <;> simp [changed]
  | cons a data ih =>
    cases newData with
    | nil => simp [changed]
    | cons b newData =>
      rw [List.forall₂_cons, ← ih]
      simp [changed, and_left_comm]

theorem updateData_of_changed {now : ℤ} {newData : List (Route D)} {c : RouteCollection D}
    (h : changed c.data newData) : c.updateData now newData = ⟨newData, now⟩ := if_pos h

theorem updateData_of_not_changed {now : ℤ} {newData : List (Route D)} {c : RouteCollection D}
    (h : changed c.data newData = false) : c.updateData now newData = c := by
  unfold updateData
  rw [h]
  rfl

/-- The cache holds exactly the new routes if the update noticed a change, or if
it held exactly these routes before. -/
theorem updateData_perm_iff (now : ℤ) (c : RouteCollection D) (newData : List (Route D)) :
    (c.updateData now newData).data.Perm newData ↔
      ¬ List.Forall₂ (fun a b => a.compareTo b = 0) c.data newData ∨ c.data.Perm newData := by
  rw [← changed_eq_false_iff, Bool.not_eq_false]
  by_cases h : changed c.data newData
  · rw [updateData_of_changed h]
    exact ⟨fun _ => .inl h, fun _ => .refl newData⟩
  · rw [Bool.not_eq_true] at h
    rw [updateData_of_not_changed h, h]
    simp

/-- An update of a route moves it on a circle around the origin. -/
theorem updateData_misses_equal_norm :
    ¬ ((RouteCollection.mk [.atPoint 1 3 4] 0).updateData 1 [.atPoint 1 4 3]).data.Perm
      [.atPoint 1 4 3] := by decide +kernel

end RouteCollection

end Itmo.ProgLab8
