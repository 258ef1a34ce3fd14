import Itmo.Lib.System
import Itmo.Soa.Filters
import Mathlib.Data.List.Induction

/-! The order of a table of vehicles. The dialogue offers only the columns that are not in
the order yet, so it makes the orders in which each column stands at most once, and all of
them. The service writes an order into one text, which the server reads back as its
documentation says where no coordinate is in it. -/

namespace Itmo.Soa

open Lib
open ProgLab8 (JString)

namespace Sorting

/-! ### The dialogue -/

/-- The buttons of the dialogue. -/
inductive Event where
  | add (key : Key)
  | deleteByIndex (idx : ℕ)
  | changeDirection (idx : ℕ)
  | up (idx : ℕ)
  | down (idx : ℕ)

/-- The columns that the dialogue offers. -/
def columnHeaders (sorting : List VehicleSort) : List Key :=
  vehicleFlattenedKeys.filter fun key => (sorting.find? fun sort => sort.key = key).isNone

def changeDirection (sorting : List VehicleSort) (idx : ℕ) : List VehicleSort :=
  sorting.modify idx fun sort => { sort with isAsc := !sort.isAsc }

/-- `[sorting[i], sorting[j]] = [sorting[j], sorting[i]]` -/
def swap (sorting : List VehicleSort) (i j : ℕ) : List VehicleSort :=
  match sorting[i]?, sorting[j]? with
  | some a, some b => (sorting.set i b).set j a
  | _, _ => sorting

def up (sorting : List VehicleSort) (idx : ℕ) : List VehicleSort :=
  if idx = 0 then sorting else swap sorting idx (idx - 1)

def down (sorting : List VehicleSort) (idx : ℕ) : List VehicleSort :=
  if idx + 1 = sorting.length then sorting else swap sorting idx (idx + 1)

/-- There is a button for each offered column and for each line of the order. -/
def step (sorting : List VehicleSort) : Event → List VehicleSort
  | .add key => if key ∈ columnHeaders sorting then sorting ++ [⟨key, true⟩] else sorting
  | .deleteByIndex idx => sorting.eraseIdx idx
  | .changeDirection idx => changeDirection sorting idx
  | .up idx => up sorting idx
  | .down idx => down sorting idx

/-! ### The orders it makes -/

variable {sorting : List VehicleSort}

theorem mem_columnHeaders {key : Key} :
    key ∈ columnHeaders sorting ↔ key ∉ sorting.map VehicleSort.key := by
  unfold columnHeaders
  rw [List.mem_filter, Option.isNone_iff_eq_none, List.find?_eq_none, List.mem_map]
  constructor
  · rintro ⟨-, hnone⟩ ⟨sort, hsort, hkey⟩
    exact hnone sort hsort (decide_eq_true hkey)
  · intro hnot
    exact ⟨key.mem_all, fun sort hsort hkey => hnot ⟨sort, hsort, of_decide_eq_true hkey⟩⟩

theorem swap_perm (sorting : List VehicleSort) (i j : ℕ) : (swap sorting i j).Perm sorting := by
  unfold swap
  split
  · next a b ha hb =>
    obtain ⟨hi, rfl⟩ := List.getElem?_eq_some_iff.mp ha
    obtain ⟨hj, rfl⟩ := List.getElem?_eq_some_iff.mp hb
    exact List.set_set_perm hi hj
  · exact List.Perm.refl _

theorem keys_changeDirection (sorting : List VehicleSort) (idx : ℕ) :
    (changeDirection sorting idx).map VehicleSort.key = sorting.map VehicleSort.key := by
  unfold changeDirection
  induction sorting generalizing idx with
  | nil => simp
  | cons sort sorting ih =>
    cases idx with
    | zero => simp
    | succ idx => simpa using ih idx

theorem nodup_step (h : (sorting.map VehicleSort.key).Nodup) (e : Event) :
    ((step sorting e).map VehicleSort.key).Nodup := by
  have hswap : ∀ i j, ((swap sorting i j).map VehicleSort.key).Nodup := fun i j =>
    ((swap_perm sorting i j).map VehicleSort.key).nodup_iff.mpr h
  cases e with
  | add key =>
    unfold step
    dsimp only
    split_ifs with hkey
    · rw [List.map_append]
      refine h.append (List.nodup_singleton _) ?_
      exact List.disjoint_singleton.mpr (mem_columnHeaders.mp hkey)
    · exact h
  | deleteByIndex idx => exact h.sublist ((List.eraseIdx_sublist _ _).map _)
  | changeDirection idx =>
    unfold step
    dsimp only
    rw [keys_changeDirection]
    exact h
  | up idx =>
    unfold step up
    dsimp only
    split_ifs
    · exact h
    · exact hswap _ _
  | down idx =>
    unfold step down
    dsimp only
    split_ifs
    · exact h
    · exact hswap _ _

/-- A column that is not in the order yet, in either direction. -/
theorem reaches_concat {es : List Event} {sort : VehicleSort} (hes : run step [] es = sorting)
    (hnew : sort.key ∉ sorting.map VehicleSort.key) :
    ∃ es, run step [] es = sorting ++ [sort] := by
  have hadd : run step [] (es ++ [.add sort.key]) = sorting ++ [⟨sort.key, true⟩] := by
    unfold run at hes ⊢
    rw [List.foldl_append, hes, List.foldl_cons, List.foldl_nil]
    exact if_pos (mem_columnHeaders.mpr hnew)
  obtain ⟨key, isAsc⟩ := sort
  cases isAsc with
  | true => exact ⟨_, hadd⟩
  | false =>
    refine ⟨es ++ [.add key] ++ [.changeDirection sorting.length], ?_⟩
    unfold run at hadd ⊢
    rw [List.foldl_append, hadd, List.foldl_cons, List.foldl_nil]
    simp [step, changeDirection, List.modify_eq_take_cons_drop]

/-- The dialogue makes an order if and only if no column is in it twice. -/
theorem reachable_iff (sorting : List VehicleSort) :
    (∃ es, run step [] es = sorting) ↔ (sorting.map VehicleSort.key).Nodup := by
  constructor
  · rintro ⟨es, rfl⟩
    have hnil : (([] : List VehicleSort).map VehicleSort.key).Nodup := List.nodup_nil
    exact run_invariant (fun sorting : List VehicleSort => (sorting.map VehicleSort.key).Nodup)
      (fun _ e h => nodup_step h e) hnil es
  · intro h
    induction sorting using List.reverseRecOn with
    | nil => exact ⟨[], rfl⟩
    | append_singleton sorting sort ih =>
      rw [List.map_append, List.map_singleton, List.nodup_append] at h
      obtain ⟨hnodup, -, hdisjoint⟩ := h
      obtain ⟨es, hes⟩ := ih hnodup
      refine reaches_concat hes fun hmem => ?_
      exact hdisjoint _ hmem _ (List.mem_singleton_self _) rfl

/-! ### The text of an order -/

/-- An item of the parameter. -/
def sortText (sort : VehicleSort) : JString :=
  if sort.isAsc then sort.key.text else 0x2D :: sort.key.text

/-- A field by its name in the documentation. -/
def readField (name : JString) : Option Key :=
  vehicleFlattenedKeys.find? fun key => key.documented = name

/-- "-field" is descending and "field" ascending. -/
def readSortItem : JString → Option VehicleSort
  | [] => none
  | c :: name =>
    if c = 0x2D then (readField name).map fun key => ⟨key, false⟩
    else (readField (c :: name)).map fun key => ⟨key, true⟩

/-- The order of the parameter, which is left out for none. -/
def readSort : Option JString → Option (List VehicleSort)
  | none => some []
  | some text => (text.splitOn 0x2C).mapM readSortItem

theorem readSortItem_sortText (sort : VehicleSort) :
    readSortItem (sortText sort) = if sort.key = .x ∨ sort.key = .y then none else some sort := by
  obtain ⟨key, isAsc⟩ := sort
  cases key <;> cases isAsc <;> rfl

theorem sortText_ne_nil (sort : VehicleSort) : sortText sort ≠ [] := by
  obtain ⟨key, isAsc⟩ := sort
  cases key <;> cases isAsc <;> decide

theorem comma_not_mem_sortText (sort : VehicleSort) : 0x2C ∉ sortText sort := by
  obtain ⟨key, isAsc⟩ := sort
  cases key <;> cases isAsc <;> decide

variable {N : Type} [JsNumber N]

theorem pullVehicles_sort (page size : ℕ) (sorting : List VehicleSort) (filters : FilterMap N) :
    (pullVehicles page size sorting filters).sort =
      if sorting = [] then none else some (join (sorting.map sortText)) := by
  by_cases hnil : sorting = []
  · rw [if_pos hnil, hnil]
    rfl
  · have hjoin : join (sorting.map sortText) ≠ [] := by
      refine intercalate_ne_nil (fun h => hnil (List.map_eq_nil_iff.mp h)) fun item hitem => ?_
      obtain ⟨sort, -, rfl⟩ := List.mem_map.mp hitem
      exact sortText_ne_nil sort
    rw [if_neg hnil]
    exact if_pos fun h => hjoin (List.length_eq_zero_iff.mp h)

/-- Whatever is chosen in the dialogue, the order that is sent is read back if no coordinate
is in it, and otherwise nothing is read. -/
theorem readSort_pullVehicles (page size : ℕ) (filters : FilterMap N) (es : List Event) :
    let sorting := run step [] es
    readSort (pullVehicles page size sorting filters).sort =
      if ∃ sort ∈ sorting, sort.key = .x ∨ sort.key = .y then none else some sorting := by
  intro sorting
  rw [pullVehicles_sort]
  by_cases hnil : sorting = []
  · rw [if_pos hnil, hnil, if_neg (by simp)]
    rfl
  · have hcomma : ∀ item ∈ sorting.map sortText, 0x2C ∉ item :=
      List.forall_mem_map.mpr fun sort _ => comma_not_mem_sortText sort
    have hitems : (join (sorting.map sortText)).splitOn 0x2C = sorting.map sortText := by
      rw [join, splitOn_intercalate_flatMap fun h => hnil (List.map_eq_nil_iff.mp h),
        flatMap_splitOn_eq hcomma]
    rw [if_neg hnil, readSort, hitems]
    split_ifs with hcoordinate
    · obtain ⟨sort, hsort, hkey⟩ := hcoordinate
      rw [Option.eq_none_iff_forall_ne_some]
      intro read hread
      obtain ⟨read, hread⟩ := exists_of_mapM_eq_some hread _ (List.mem_map_of_mem hsort)
      rw [readSortItem_sortText, if_pos hkey] at hread
      cases hread
    · rw [mapM_eq_some_iff, List.forall₂_map_left_iff, List.forall₂_same]
      intro sort hsort
      rw [readSortItem_sortText, if_neg fun hkey => hcoordinate ⟨sort, hsort, hkey⟩]

end Sorting

end Itmo.Soa
