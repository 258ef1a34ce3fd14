import Itmo.ProgLab6.Commands

/-! The order of routes: by distance, then by the norms of the three positions, where
locations of one norm are ordered by name, then by the name of the route. On values
that are linearly ordered it is a total preorder, and the maximum that `addIfMax` asks
the stream for is a maximum of that order. -/

namespace Itmo.ProgLab6

open Lib ProgLab8

variable {D : Type} [Numbers D]

namespace Route

theorem swapNeg_compareTo : SwapNeg (compareTo (D := D)) :=
  (swapNeg_compareDouble.comp distance).then <|
    (Coordinates.swapNeg_compareTo.comp coordinates).then <|
      (First.Location.swapNeg_compareTo.comp from_).then <|
        (Second.Location.swapNeg_compareTo.comp to_).then (JString.swapNeg_compareTo.comp name)

theorem transGE_compareTo (h : LinearValues D) : TransGE (compareTo (D := D)) :=
  ((transGE_compareDouble h).comp distance).then
    (((Coordinates.transGE_compareTo h).comp coordinates).then
      (((First.Location.transGE_compareTo h).comp from_).then
        (((Second.Location.transGE_compareTo h).comp to_).then
          (JString.transGE_compareTo.comp name) (Second.Location.swapNeg_compareTo.comp to_))
        (First.Location.swapNeg_compareTo.comp from_))
      (Coordinates.swapNeg_compareTo.comp coordinates))
    (swapNeg_compareDouble.comp distance)

end Route

/-- The route of `addIfMax` is compared with an element that none exceeds. -/
theorem Commands.isMax_iff (h : LinearValues D) (route : Route D) {data : List (Route D)}
    (hdata : data ≠ []) : isMax route data ↔ ∀ n ∈ data, 0 < route.compareTo n := by
  cases data with
  | nil => exact absurd rfl hdata
  | cons n rest =>
    unfold isMax maxRoute
    rw [Option.any_some, decide_eq_true_iff]
    exact (Route.transGE_compareTo h).pos_foldl_iff Route.swapNeg_compareTo route rest n

/-- The comparison of routes is a total preorder, and a route is added as a new maximum
if and only if it exceeds every element. -/
theorem Route.compareTo_preorder (h : LinearValues D) :
    (∀ a b : Route D, (a.compareTo b).sign = -(b.compareTo a).sign) ∧
      (∀ a b c : Route D, a.compareTo b ≤ 0 → b.compareTo c ≤ 0 → a.compareTo c ≤ 0) ∧
      (∀ a b : Route D, a.compareTo b = 0 → ∀ x : Route D,
        (x.compareTo a).sign = (x.compareTo b).sign ∧
          (a.compareTo x).sign = (b.compareTo x).sign) ∧
      ∀ (s : Server D) (r : Route D), s.data ≠ [] →
        s.after (.addIfMax r) =
          if ∀ n ∈ s.data, 0 < r.compareTo n then { s with data := s.data ++ [r] } else s := by
  have hswap : SwapNeg (compareTo (D := D)) := swapNeg_compareTo
  have htrans : TransGE (compareTo (D := D)) := transGE_compareTo h
  refine ⟨hswap.sign_swap, fun a b c => htrans.nonpos_trans hswap,
    fun a b hab => htrans.sign_congr hswap hab, ?_⟩
  intro s r hs
  rw [Server.after_addIfMax]
  exact if_congr (Commands.isMax_iff h r hs) rfl rfl

theorem linearValues_whole : LinearValues Whole := by
  intro a b d h
  simp only [Platform.lt, decide_eq_true_eq] at h ⊢
  omega

theorem location_ne_nil : JString.ofString "B" ≠ [] := by decide

/-- A route of whole numbers, of a distance and a name. -/
def Route.atOrigin (id distance : ℤ) (name : String)
    (h : name.toList ≠ [] ∧ (1 : ℤ) < distance := by decide) : Route Whole where
  id := id
  name := .ofString name
  coordinates := ⟨⟨0⟩, 0, by decide⟩
  from_ := ⟨⟨0⟩, 0, ⟨0⟩, .ofString "B", location_ne_nil⟩
  to_ := ⟨0, 0, ⟨0⟩⟩
  distance := ⟨distance⟩
  validName := fun hname => h.1 (List.map_eq_nil_iff.mp hname)
  validDistance := decide_eq_false (Int.not_le.mpr h.2)

theorem Route.compareTo_preorder_whole :
    (∀ a b : Route Whole, (a.compareTo b).sign = -(b.compareTo a).sign) ∧
      ({ data := [atOrigin 1 5 "A"], instances := 1 } : Server Whole).after
        (.addIfMax (atOrigin 2 6 "A")) =
        { data := [atOrigin 1 5 "A", atOrigin 2 6 "A"], instances := 1 } := by
  obtain ⟨hsign, -, -, hadd⟩ := compareTo_preorder linearValues_whole
  refine ⟨hsign, ?_⟩
  rw [hadd _ _ (by decide), if_pos (by decide)]
  rfl

end Itmo.ProgLab6
