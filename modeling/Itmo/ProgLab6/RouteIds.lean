import Itmo.ProgLab6.Commands
import Mathlib.Data.List.Nodup

/-! The ids of the collection. Every process counts its own routes, and only `add`
numbers a route anew on the server; `addIfMax` and `update` store the object of the
client with the id it got there. The ids stay positive and distinct, and an updated
route keeps its id, exactly along the runs in which every id that is stored fits. -/

namespace Itmo.ProgLab6

open Lib ProgLab8

variable {D : Type} [Numbers D]

def ids (data : List (Route D)) : List ℤ := data.map Route.id

/-- The ids are positive and pairwise distinct. -/
def Numbered (data : List (Route D)) : Prop := (∀ id ∈ ids data, 0 < id) ∧ (ids data).Nodup

instance (data : List (Route D)) : Decidable (Numbered data) :=
  inferInstanceAs (Decidable (_ ∧ _))

/-- An id that a new route can have. -/
def Free (data : List (Route D)) (id : ℤ) : Prop := 0 < id ∧ id ∉ ids data

/-- `update id` leaves the route at the place of this id under it. -/
def KeepsId (data data' : List (Route D)) : Request D → Prop
  | .update _ text => ∀ id, Integer.decode text = some id →
      ∀ p ∈ data.zip data', p.1.id = id → p.2.id = id
  | _ => True

/-- The id that a request stores fits: the next one of the server for `add`, the
client's own for a route that `addIfMax` inserts, and the updated one for `update`. -/
def Fits (s : Server D) : Request D → Prop
  | .add _ => Free s.data (nextId s.instances)
  | .addIfMax route => Commands.isMax route s.data → Free s.data route.id
  | .update route text => ∀ id, Integer.decode text = some id → id ∈ ids s.data → route.id = id
  | _ => True

/-! ### One request -/

theorem ids_append (data : List (Route D)) (r : Route D) : ids (data ++ [r]) = ids data ++ [r.id] := by
  simp [ids]

theorem numbered_nil : Numbered ([] : List (Route D)) :=
  ⟨fun _ hid => absurd hid List.not_mem_nil, List.nodup_nil⟩

theorem numbered_append {data : List (Route D)} (h : Numbered data) (r : Route D) :
    Numbered (data ++ [r]) ↔ Free data r.id := by
  obtain ⟨hpos, hnodup⟩ := h
  unfold Numbered Free
  rw [ids_append, List.nodup_append]
  simp only [List.mem_append, List.mem_singleton]
  constructor
  · rintro ⟨hall, -, -, hne⟩
    exact ⟨hall r.id (.inr rfl), fun hmem => hne r.id hmem r.id rfl rfl⟩
  · rintro ⟨hid, hfree⟩
    refine ⟨?_, hnodup, List.nodup_singleton _, ?_⟩
    · rintro id (hmem | rfl)
      · exact hpos id hmem
      · exact hid
    · rintro a ha b rfl rfl
      exact hfree ha

/-- Routes that are left, in any order. -/
theorem numbered_of_subperm {data data' : List (Route D)} (h : Numbered data)
    (hsub : data'.Subperm data) : Numbered data' := by
  obtain ⟨l, hperm, hl⟩ := hsub
  have hids : (ids data').Perm (ids l) := (hperm.map Route.id).symm
  have hsublist : (ids l).Sublist (ids data) := hl.map Route.id
  constructor
  · intro id hid
    exact h.1 id (hsublist.subset (hids.subset hid))
  · exact hids.nodup_iff.mpr (hsublist.nodup h.2)

theorem withoutDistance_subperm (distance : D) (data : List (Route D)) :
    (Commands.withoutDistance distance data).Subperm data := by
  have hsplit := List.filter_append_perm
    (fun n : Route D => !Platform.equals n.distance distance) data
  simp only [Bool.not_not] at hsplit
  have hdrop : (data.filter (fun n => !Platform.equals n.distance distance) ++
      (data.filter fun n => Platform.equals n.distance distance).drop 1).Subperm data :=
    ((List.Sublist.refl _).append (List.drop_sublist 1 _)).subperm.trans hsplit.subperm
  exact (List.perm_insertionSort _ _).subperm.trans hdrop

theorem ids_replace {data : List (Route D)} {route : Route D} {id : Option ℤ}
    (h : ∀ q ∈ data, some q.id = id → route.id = q.id) :
    ids (data.map fun r => if some r.id = id then route else r) = ids data := by
  unfold ids
  rw [List.map_map]
  apply List.map_congr_left
  intro q hq
  dsimp only [Function.comp_apply]
  split_ifs with hid
  · exact h q hq hid
  · rfl

/-- An updated collection is numbered with the id kept when the stored id is it. -/
theorem update_iff {data : List (Route D)} (h : Numbered data) (route : Route D) (text : JString) :
    let data' := data.map fun r => if some r.id = Integer.decode text then route else r
    Numbered data' ∧ KeepsId data data' (.update route text) ↔
      ∀ id, Integer.decode text = some id → id ∈ ids data → route.id = id := by
  dsimp only
  constructor
  · rintro ⟨-, hkeeps⟩ id hid hmem
    obtain ⟨q, hq, rfl⟩ := List.mem_map.mp hmem
    apply hkeeps q.id hid (q, route) ?_ rfl
    rw [← List.map_prod_left_eq_zip]
    exact List.mem_map.mpr ⟨q, hq, by rw [if_pos hid.symm]⟩
  · intro hfits
    have hids : ids (data.map fun r => if some r.id = Integer.decode text then route else r) =
        ids data := by
      apply ids_replace
      intro q hq hid
      exact hfits q.id hid.symm (List.mem_map_of_mem hq)
    constructor
    · unfold Numbered
      rw [hids]
      exact h
    · intro id hid p hp hpid
      rw [← List.map_prod_left_eq_zip] at hp
      obtain ⟨q, hq, rfl⟩ := List.mem_map.mp hp
      dsimp only at hpid ⊢
      rw [if_pos (by rw [hid, hpid])]
      exact hfits id hid (hpid ▸ List.mem_map_of_mem hq)

/-- A request keeps the ids in order exactly when the id it stores fits. -/
theorem after_iff {s : Server D} (h : Numbered s.data) (request : Request D) :
    Numbered (s.after request).data ∧ KeepsId s.data (s.after request).data request ↔
      Fits s request := by
  cases request with
  | add route =>
    rw [Server.after_add]
    exact (and_iff_left trivial).trans (numbered_append h _)
  | update route text =>
    rw [Server.after_update]
    exact update_iff h route text
  | removeById text =>
    rw [Server.after_removeById]
    exact iff_of_true ⟨numbered_of_subperm h List.filter_sublist.subperm, trivial⟩ trivial
  | clear => exact iff_of_true ⟨numbered_nil, trivial⟩ trivial
  | addIfMax route =>
    rw [Server.after_addIfMax]
    by_cases hmax : Commands.isMax route s.data
    · have hfits : Fits s (.addIfMax route) ↔ Free s.data route.id := forall_prop_of_true hmax
      rw [if_pos hmax, hfits]
      exact (and_iff_left trivial).trans (numbered_append h route)
    · rw [if_neg hmax]
      exact iff_of_true ⟨h, trivial⟩ fun hmax' => absurd hmax' hmax
  | removeGreater route =>
    exact iff_of_true ⟨numbered_of_subperm h List.filter_sublist.subperm, trivial⟩ trivial
  | removeLower route =>
    exact iff_of_true ⟨numbered_of_subperm h List.filter_sublist.subperm, trivial⟩ trivial
  | removeAnyByDistance text =>
    refine iff_of_true ⟨?_, trivial⟩ trivial
    rcases Server.after_removeAnyByDistance s text with hs | ⟨distance, hs⟩
    · rw [hs]
      exact h
    · rw [hs]
      exact numbered_of_subperm h (withoutDistance_subperm distance s.data)

/-! ### Runs -/

/-- The request that a running server executes at an event. -/
def executed (s : State D) (e : Event) : Option (Request D) :=
  if s.running then (arrives s e).1 else none

theorem step_server (s : State D) (e : Event) :
    (s.step e).server = match executed s e with
      | some request => s.server.after request
      | none => s.server := by
  unfold State.step executed
  cases arrives s e with
  | mk request clients => cases request <;> cases s.running <;> rfl

/-- What the step at an event has to satisfy. -/
def IdsKept (s : State D) (e : Event) : Prop :=
  Numbered (s.step e).server.data ∧
    ∀ request ∈ executed s e, KeepsId s.server.data (s.step e).server.data request

def IdFits (s : State D) (e : Event) : Prop := ∀ request ∈ executed s e, Fits s.server request

theorem idsKept_iff {s : State D} (h : Numbered s.server.data) (e : Event) :
    IdsKept s e ↔ IdFits s e := by
  unfold IdsKept IdFits
  rw [step_server]
  cases executed s e with
  | none => simp [h]
  | some request => simpa using after_iff h request

/-- In a run from an empty collection, the ids are positive and distinct after every
event and every update keeps its id, exactly when every id that is stored fits. -/
theorem ids_kept_iff (instances : ℤ) (clients : ℕ → ℤ) (events : List Event) :
    Along State.step IdsKept (State.empty (D := D) instances clients) events ↔
      Along State.step IdFits (State.empty (D := D) instances clients) events := by
  apply along_iff_along (fun s : State D => Numbered s.server.data) (C := fun _ _ => True)
  · intro s e hs _
    exact idsKept_iff hs e
  · intro s e hs _ hfits
    exact ((idsKept_iff hs e).mpr hfits).1
  · exact numbered_nil
  · exact along_of_forall_mem (fun _ _ _ => trivial) _

/-! ### The client's ids -/

/-- The lines of a route of some distance. -/
def linesOf (distance : String) : Lines where
  rName := .ofString "A"
  rDistance := .ofString distance
  cX := .ofString "0"
  cY := .ofString "0"
  flX := .ofString "0"
  flY := .ofString "0"
  flZ := .ofString "0"
  flName := .ofString "B"
  slX := .ofString "0"
  slY := .ofString "0"
  slZ := .ofString "0"

/-- The first routes of two clients get one id, and the second route of a client
replaces the first under its own id. -/
theorem ids_collide :
    ids (run State.step (State.empty (D := Whole) 0 fun _ => 0)
        [.route 0 (linesOf "2") .ADD true, .route 1 (linesOf "3") .ADD_IF_MAX true]).server.data =
      [1, 1] ∧
    ids (run State.step (State.empty (D := Whole) 0 fun _ => 0)
        [.route 0 (linesOf "2") .ADD true,
          .route 0 (linesOf "3") (.UPDATE (.ofString "1")) true]).server.data = [2] := by
  decide +kernel

end Itmo.ProgLab6
