import Itmo.ProgLab6.RouteOrder
import Itmo.Lib.RemoveLoop
import Mathlib.Data.List.Infix

/-! The commands of the console program, which the first server repeats, on the same
routes. Here they go over the positions of the collection, and the removals by a route
take away what is greater or lower; the server keeps what is lower or greater instead.
The two differ on the routes that are neither. -/

namespace Itmo.ProgLab5

open Lib ProgLab6
open ProgLab8 (JString Throwable Platform)

/-- The test of a distance, by a difference below 0.00000001. -/
class Distances (D : Type) extends Numbers D where
  near : D → D → Bool

instance : Distances ProgLab6.Whole where
  near a b := a = b

/-! ### Removals by a route -/

namespace Commands

section Removals

variable {D : Type} [Numbers D]

def removeGreater (forComparison : Route D) (data : List (Route D)) : List (Route D) :=
  removeDownFrom (fun n => forComparison.compareTo n < 0) data.length data

def removeLower (forComparison : Route D) (data : List (Route D)) : List (Route D) :=
  removeDownFrom (fun n => 0 < forComparison.compareTo n) data.length data

/-- `updateValues` leaves the id, and refuses no values of a route. -/
def updateValues (r toCopyValuesFrom : Route D) : Route D := { toCopyValuesFrom with id := r.id }

/-- `Collections.max(data)`: of two that compare as equal, the first. -/
def max : List (Route D) → Option (Route D)
  | [] => none
  | r :: rest => some <| rest.foldl
      (fun candidate next => if 0 < next.compareTo candidate then next else candidate) r

/-- The routes that are not greater than one, in their order. -/
def notGreater (x : Route D) (data : List (Route D)) : List (Route D) :=
  data.filter fun n => n.compareTo x ≤ 0

def notLower (x : Route D) (data : List (Route D)) : List (Route D) :=
  data.filter fun n => 0 ≤ n.compareTo x

theorem removeGreater_eq (x : Route D) (data : List (Route D)) :
    removeGreater x data = notGreater x data := by
  unfold removeGreater notGreater
  rw [removeDownFrom_length]
  refine List.filter_congr fun n _ => ?_
  rw [← decide_not, decide_eq_decide, ← Route.swapNeg_compareTo.pos_iff, not_lt]

theorem removeLower_eq (x : Route D) (data : List (Route D)) :
    removeLower x data = notLower x data := by
  unfold removeLower notLower
  rw [removeDownFrom_length]
  refine List.filter_congr fun n _ => ?_
  rw [← decide_not, decide_eq_decide, Route.swapNeg_compareTo.pos_iff, not_lt]

theorem after_removeGreater_iff (x : Route D) (s : Server D) :
    (s.after (.removeGreater x)).data = notGreater x s.data ↔
      ∀ n ∈ s.data, n.compareTo x ≠ 0 := by
  have hdata : (s.after (.removeGreater x)).data =
      s.data.filter fun n => 0 < x.compareTo n := rfl
  rw [hdata, notGreater, filter_eq_filter_iff]
  refine forall₂_congr fun n _ => ?_
  rw [decide_eq_decide, Route.swapNeg_compareTo.pos_iff]
  omega

theorem after_removeLower_iff (x : Route D) (s : Server D) :
    (s.after (.removeLower x)).data = notLower x s.data ↔ ∀ n ∈ s.data, n.compareTo x ≠ 0 := by
  have hdata : (s.after (.removeLower x)).data =
      s.data.filter fun n => x.compareTo n < 0 := rfl
  rw [hdata, notLower, filter_eq_filter_iff]
  refine forall₂_congr fun n _ => ?_
  rw [decide_eq_decide, ← Route.swapNeg_compareTo.pos_iff]
  omega

/-- The removals of the server: what they leave, and that the console program leaves the
same. -/
def RemovesAsBefore (x : Route D) (s : Server D) : Prop :=
  (s.after (.removeGreater x)).data = notGreater x s.data ∧
    (s.after (.removeLower x)).data = notLower x s.data ∧
    (s.after (.removeGreater x)).data = removeGreater x s.data ∧
    (s.after (.removeLower x)).data = removeLower x s.data

/-- That is so exactly where nothing in the collection compares as equal to the route. -/
theorem removesAsBefore_iff (x : Route D) (s : Server D) :
    RemovesAsBefore x s ↔ ∀ n ∈ s.data, n.compareTo x ≠ 0 := by
  unfold RemovesAsBefore
  rw [removeGreater_eq, removeLower_eq, after_removeGreater_iff, after_removeLower_iff]
  simp only [and_self]

/-- A route that is compared with itself goes on the server and stays in the console
program. -/
theorem not_removesAsBefore_self :
    ¬ ∀ (x : Route Whole) (s : Server Whole), RemovesAsBefore x s := by
  intro h
  have hsame := (h (.atOrigin 2 5 "A") { data := [.atOrigin 1 5 "A"], instances := 1 }).1
  revert hsame
  decide

end Removals

end Commands

end Itmo.ProgLab5
