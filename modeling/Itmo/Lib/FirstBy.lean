import Mathlib.Data.List.Induction
import Mathlib.Data.List.Nodup
import Mathlib.Data.List.Perm.Basic

/-! Sets of objects that compare by a key only. Adding an object whose key is
there does nothing, so a set filled from a list keeps the first object of every
key; whether it has all of them, and whether the order of the list matters, is
the same question: do objects with one key agree. -/

namespace Itmo.Lib

variable {α β κ : Type*} [DecidableEq κ] (key : α → κ)

/-- `add` of a set whose elements are equal when their keys are. -/
def addBy (l : List α) (a : α) : List α := if l.any (key · = key a) then l else l ++ [a]

/-- The set filled from a list. -/
def firstBy (l : List α) : List α := l.foldl (addBy key) []

/-- Objects with one key are the same. -/
def Agree (l : List α) : Prop := ∀ a ∈ l, ∀ b ∈ l, key a = key b → a = b

instance [DecidableEq α] (l : List α) : Decidable (Agree key l) :=
  inferInstanceAs (Decidable (∀ a ∈ l, ∀ b ∈ l, key a = key b → a = b))

variable {key} {l : List α} {a : α}

theorem addBy_of_mem (h : key a ∈ l.map key) : addBy key l a = l := by
  obtain ⟨b, hb, hkey⟩ := List.mem_map.mp h
  unfold addBy
  rw [if_pos (List.any_eq_true.mpr ⟨b, hb, decide_eq_true hkey⟩)]

theorem addBy_of_not_mem (h : key a ∉ l.map key) : addBy key l a = l ++ [a] := by
  unfold addBy
  rw [if_neg]
  intro hany
  obtain ⟨b, hb, hkey⟩ := List.any_eq_true.mp hany
  exact h (List.mem_map.mpr ⟨b, hb, of_decide_eq_true hkey⟩)

theorem firstBy_concat (l : List α) (a : α) :
    firstBy key (l ++ [a]) = addBy key (firstBy key l) a := by
  unfold firstBy
  rw [List.foldl_append]
  rfl

/-- Adding maps through a function that keeps the key. -/
theorem addBy_map {key' : β → κ} {f : α → β} (hf : ∀ a, key' (f a) = key a) (l : List α) (a : α) :
    addBy key' (l.map f) (f a) = (addBy key l a).map f := by
  have hkeys : (l.map f).map key' = l.map key := by
    rw [List.map_map]
    exact List.map_congr_left fun a _ => hf a
  by_cases h : key a ∈ l.map key
  · rw [addBy_of_mem h, addBy_of_mem (by rw [hkeys, hf]; exact h)]
  · rw [addBy_of_not_mem h, addBy_of_not_mem (by rw [hkeys, hf]; exact h), List.map_append]
    rfl

/-! ### The elements -/

theorem mem_firstBy_mem (h : a ∈ firstBy key l) : a ∈ l := by
  induction l using List.reverseRecOn with
  | nil => cases h
  | append_singleton l b ih =>
    rw [firstBy_concat] at h
    by_cases hb : key b ∈ (firstBy key l).map key
    · rw [addBy_of_mem hb] at h
      exact List.mem_append_left _ (ih h)
    · rw [addBy_of_not_mem hb] at h
      rcases List.mem_append.mp h with h | h
      · exact List.mem_append_left _ (ih h)
      · exact List.mem_append_right _ h

/-- Every key has one object. -/
theorem mem_map_firstBy (l : List α) (k : κ) : k ∈ (firstBy key l).map key ↔ k ∈ l.map key := by
  induction l using List.reverseRecOn with
  | nil => rfl
  | append_singleton l b ih =>
    rw [firstBy_concat, List.map_append, List.mem_append, ← ih]
    by_cases hb : key b ∈ (firstBy key l).map key
    · rw [addBy_of_mem hb]
      constructor
      · exact Or.inl
      · rintro (h | h)
        · exact h
        · rw [List.mem_singleton.mp h]
          exact hb
    · rw [addBy_of_not_mem hb, List.map_append, List.mem_append]

theorem nodup_firstBy (l : List α) : ((firstBy key l).map key).Nodup := by
  induction l using List.reverseRecOn with
  | nil => exact List.nodup_nil
  | append_singleton l b ih =>
    rw [firstBy_concat]
    by_cases hb : key b ∈ (firstBy key l).map key
    · rw [addBy_of_mem hb]
      exact ih
    · rw [addBy_of_not_mem hb, List.map_append]
      exact List.nodup_append_comm.mp (List.nodup_cons.mpr ⟨hb, ih⟩)

/-- The first object of the list is the one its key keeps. -/
theorem head_mem_firstBy (a : α) (l : List α) : a ∈ firstBy key (a :: l) := by
  induction l using List.reverseRecOn with
  | nil => exact List.mem_singleton_self a
  | append_singleton l b ih =>
    rw [← List.cons_append, firstBy_concat]
    by_cases hb : key b ∈ (firstBy key (a :: l)).map key
    · rw [addBy_of_mem hb]
      exact ih
    · rw [addBy_of_not_mem hb]
      exact List.mem_append_left _ ih

/-- The set has every object of the list exactly when they agree. -/
theorem mem_firstBy_iff_mem : (∀ a ∈ l, a ∈ firstBy key l) ↔ Agree key l := by
  constructor
  · intro h a ha b hb hkey
    exact List.inj_on_of_nodup_map (nodup_firstBy l) (h a ha) (h b hb) hkey
  · intro h a ha
    have hkey : key a ∈ (firstBy key l).map key :=
      (mem_map_firstBy l (key a)).mpr (List.mem_map_of_mem ha)
    obtain ⟨b, hb, hkey⟩ := List.mem_map.mp hkey
    rw [← h b (mem_firstBy_mem hb) a ha hkey]
    exact hb

theorem mem_firstBy_id [DecidableEq α] {l : List α} {a : α} (h : a ∈ l) : a ∈ firstBy id l :=
  mem_firstBy_iff_mem.mpr (fun _ _ _ _ hkey => hkey) a h

theorem Agree.mem_firstBy (h : Agree key l) (a : α) : a ∈ firstBy key l ↔ a ∈ l :=
  ⟨mem_firstBy_mem, mem_firstBy_iff_mem.mpr h a⟩

omit [DecidableEq κ] in
/-- The objects of a list agree when they agree in another with the same ones. -/
theorem Agree.of_subset (h : Agree key l) {l' : List α} (hl : l' ⊆ l) : Agree key l' :=
  fun a ha b hb hkey => h a (hl ha) b (hl hb) hkey

/-- Any object of a list can come first. -/
theorem exists_perm_cons (h : a ∈ l) : ∃ l', (a :: l').Perm l := by
  obtain ⟨s, t, rfl⟩ := List.append_of_mem h
  exact ⟨s ++ t, List.perm_middle.symm⟩

end Itmo.Lib
