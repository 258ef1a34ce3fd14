import Mathlib.Data.List.Basic
import Mathlib.Data.List.Forall2
import Mathlib.Data.List.Nodup

/-! Texts put together from items with a separator, and tables of lists by key. Splitting such
a text gives the pieces of the items, so it gives the items back where none of them holds
the separator. A key is found at the start of an item if no key starts another one. -/

namespace Itmo.Lib

/-! ### Items -/

section Items

variable {α : Type*} [BEq α] [LawfulBEq α]

theorem splitOn_intercalate_flatMap {a : α} {items : List (List α)} (h : items ≠ []) :
    ([a].intercalate items).splitOn a = items.flatMap (List.splitOn a) := by
  induction items with
  | nil => exact absurd rfl h
  | cons item rest ih =>
    cases rest with
    | nil => rw [List.intercalate_singleton, List.flatMap_singleton]
    | cons item' rest =>
      rw [List.intercalate_cons_cons, List.append_assoc, List.singleton_append,
        List.splitOn_append_cons_self, ih (List.cons_ne_nil _ _)]
      rfl

/-- A separator in an item makes more than one piece of it. -/
theorem length_splitOn_eq_one_iff {a : α} {item : List α} :
    (item.splitOn a).length = 1 ↔ a ∉ item := by
  constructor
  · intro h ha
    obtain ⟨x, y, rfl⟩ := List.append_of_mem ha
    rw [List.splitOn_append_cons_self, List.length_append] at h
    have hx := List.length_pos_iff.mpr (List.splitOn_ne_nil a x)
    have hy := List.length_pos_iff.mpr (List.splitOn_ne_nil a y)
    omega
  · intro h
    rw [List.splitOn_eq_singleton h, List.length_singleton]

theorem flatMap_splitOn_eq {a : α} {items : List (List α)} (h : ∀ item ∈ items, a ∉ item) :
    items.flatMap (List.splitOn a) = items := by
  induction items with
  | nil => rfl
  | cons item rest ih =>
    rw [List.forall_mem_cons] at h
    rw [List.flatMap_cons, List.splitOn_eq_singleton h.1, ih h.2, List.singleton_append]

omit [LawfulBEq α] in
theorem length_le_length_flatMap_splitOn (a : α) (items : List (List α)) :
    items.length ≤ (items.flatMap (List.splitOn a)).length := by
  induction items with
  | nil => exact Nat.le_refl 0
  | cons item rest ih =>
    have hpos := List.length_pos_iff.mpr (List.splitOn_ne_nil a item)
    rw [List.flatMap_cons, List.length_append, List.length_cons]
    omega

/-- Where there are as many pieces as items, no item holds the separator. -/
theorem not_mem_of_length_flatMap_splitOn {a : α} {items : List (List α)}
    (h : (items.flatMap (List.splitOn a)).length ≤ items.length) : ∀ item ∈ items, a ∉ item := by
  induction items with
  | nil => exact List.forall_mem_nil _
  | cons item rest ih =>
    have hrest := length_le_length_flatMap_splitOn a rest
    have hpos := List.length_pos_iff.mpr (List.splitOn_ne_nil a item)
    rw [List.flatMap_cons, List.length_append, List.length_cons] at h
    rw [List.forall_mem_cons]
    exact ⟨length_splitOn_eq_one_iff.mp (by omega), ih (by omega)⟩

end Items

section Groups

variable {α : Type*} {sep : List α}

theorem intercalate_append {x y : List (List α)} (hx : x ≠ []) (hy : y ≠ []) :
    sep.intercalate (x ++ y) = sep.intercalate x ++ sep ++ sep.intercalate y := by
  induction x with
  | nil => exact absurd rfl hx
  | cons item rest ih =>
    cases rest with
    | nil =>
      rw [List.singleton_append, List.intercalate_cons_of_ne_nil hy, List.intercalate_singleton]
    | cons item' rest =>
      rw [List.cons_append, List.cons_append, List.intercalate_cons_cons, ← List.cons_append,
        ih (List.cons_ne_nil _ _), List.intercalate_cons_cons]
      simp only [List.append_assoc]

theorem intercalate_ne_nil {items : List (List α)} (h : items ≠ [])
    (hitems : ∀ item ∈ items, item ≠ []) : sep.intercalate items ≠ [] := by
  cases items with
  | nil => exact absurd rfl h
  | cons item rest =>
    have hitem := (List.forall_mem_cons.mp hitems).1
    cases rest with
    | nil => rwa [List.intercalate_singleton]
    | cons item' rest =>
      rw [List.intercalate_cons_cons, List.append_assoc]
      exact List.append_ne_nil_of_left_ne_nil hitem _

/-- Groups of items, of which the empty ones are left out, make the text of all items. -/
theorem intercalate_groups (sep : List α) {groups : List (List (List α))}
    (h : ∀ items ∈ groups, ∀ item ∈ items, item ≠ []) :
    sep.intercalate ((groups.map sep.intercalate).filter fun text => !text.isEmpty) =
      sep.intercalate groups.flatten := by
  induction groups with
  | nil => rfl
  | cons items groups ih =>
    rw [List.forall_mem_cons] at h
    rw [List.map_cons, List.flatten_cons]
    by_cases hitems : items = []
    · rw [hitems, List.intercalate_nil, List.filter_cons_of_neg (by simp), List.nil_append, ih h.2]
    · have hne : ¬ (sep.intercalate items).isEmpty := by
        rw [List.isEmpty_iff]
        exact intercalate_ne_nil hitems h.1
      rw [List.filter_cons_of_pos (by simpa using hne)]
      by_cases hgroups : groups.flatten = []
      · have hall : ∀ text ∈ groups.map sep.intercalate, ¬ (!text.isEmpty) = true := by
          intro text htext
          obtain ⟨items', hmem, rfl⟩ := List.mem_map.mp htext
          rw [List.flatten_eq_nil_iff.mp hgroups items' hmem]
          exact Bool.noConfusion
        rw [List.filter_eq_nil_iff.mpr hall, hgroups, List.append_nil, List.intercalate_singleton]
      · have hrest : (groups.map sep.intercalate).filter (fun text => !text.isEmpty) ≠ [] := by
          intro hnil
          have htext := ih h.2
          rw [hnil, List.intercalate_nil] at htext
          refine intercalate_ne_nil hgroups ?_ htext.symm
          intro item hitem
          obtain ⟨items', hmem, hitem'⟩ := List.mem_flatten.mp hitem
          exact h.2 items' hmem item hitem'
        rw [List.intercalate_cons_of_ne_nil hrest, ih h.2, intercalate_append hitems hgroups]

end Groups

/-! ### Reading -/

theorem mapM_eq_some_iff {α β : Type*} {f : α → Option β} {l : List α} {bs : List β} :
    l.mapM f = some bs ↔ List.Forall₂ (fun a b => f a = some b) l bs := by
  induction l generalizing bs with
  | nil =>
    rw [List.mapM_nil, List.forall₂_nil_left_iff]
    exact ⟨fun h => (Option.some.inj h).symm, fun h => congrArg some h.symm⟩
  | cons a l ih =>
    rw [List.mapM_cons, List.forall₂_cons_left_iff]
    constructor
    · intro h
      obtain ⟨b, hb, h⟩ := Option.bind_eq_some_iff.mp h
      obtain ⟨bs', hbs, h⟩ := Option.bind_eq_some_iff.mp h
      cases h
      exact ⟨b, bs', hb, ih.mp hbs, rfl⟩
    · rintro ⟨b, bs', hb, hbs, rfl⟩
      rw [hb, ih.mpr hbs]
      rfl

theorem exists_of_mapM_eq_some {α β : Type*} {f : α → Option β} {l : List α} {bs : List β}
    (h : l.mapM f = some bs) : ∀ a ∈ l, ∃ b, f a = some b := by
  have hboth : List.Forall₂ (fun a b => (∃ b', f a = some b') ∧ f a = some b) l bs :=
    (mapM_eq_some_iff.mp h).imp fun _ b hb => ⟨⟨b, hb⟩, hb⟩
  exact ((List.forall₂_and_left _ _).mp hboth).1

/-! ### Tables -/

section Tables

variable {κ : Type*} [DecidableEq κ] {β : κ → Type*}

/-- The lists of a table, one after the other. -/
def entries (keys : List κ) (table : ∀ k, List (β k)) : List (Σ k, β k) :=
  keys.flatMap fun k => (table k).map (Sigma.mk k)

/-- The table of entries, each list in the order of the entries. -/
def collect (es : List (Σ k, β k)) : ∀ k, List (β k) := fun k =>
  es.filterMap fun e => if h : e.1 = k then some (h ▸ e.2) else none

theorem collect_cons_self {k : κ} (b : β k) (es : List (Σ k, β k)) :
    collect (⟨k, b⟩ :: es) k = b :: collect es k := by
  unfold collect
  rw [List.filterMap_cons_some (b := b) (dif_pos rfl)]

theorem collect_cons_of_ne {k k' : κ} (h : k' ≠ k) (b : β k') (es : List (Σ k, β k)) :
    collect (⟨k', b⟩ :: es) k = collect es k := by
  unfold collect
  rw [List.filterMap_cons_none (dif_neg h)]

theorem collect_map_append_self {k : κ} (l : List (β k)) (es : List (Σ k, β k)) :
    collect (l.map (Sigma.mk k) ++ es) k = l ++ collect es k := by
  induction l with
  | nil => rfl
  | cons b l ih => rw [List.map_cons, List.cons_append, collect_cons_self, ih, List.cons_append]

theorem collect_map_append_of_ne {k k' : κ} (h : k' ≠ k) (l : List (β k'))
    (es : List (Σ k, β k)) : collect (l.map (Sigma.mk k') ++ es) k = collect es k := by
  induction l with
  | nil => rfl
  | cons b l ih => rw [List.map_cons, List.cons_append, collect_cons_of_ne h, ih]

theorem collect_entries_of_not_mem {keys : List κ} (table : ∀ k, List (β k)) {k : κ}
    (hk : k ∉ keys) : collect (entries keys table) k = [] := by
  induction keys with
  | nil => rfl
  | cons k' keys ih =>
    rw [List.mem_cons, not_or] at hk
    rw [entries, List.flatMap_cons, collect_map_append_of_ne (Ne.symm hk.1)]
    exact ih hk.2

/-- The table can be got back from its entries. -/
theorem collect_entries {keys : List κ} (hnodup : keys.Nodup) (table : ∀ k, List (β k)) {k : κ}
    (hk : k ∈ keys) : collect (entries keys table) k = table k := by
  induction keys with
  | nil => cases hk
  | cons k' keys ih =>
    rw [List.nodup_cons] at hnodup
    rw [entries, List.flatMap_cons]
    by_cases h : k' = k
    · subst h
      have hrest := collect_entries_of_not_mem table hnodup.1
      rw [entries] at hrest
      rw [collect_map_append_self, hrest, List.append_nil]
    · rw [collect_map_append_of_ne h]
      exact ih hnodup.2 ((List.mem_cons.mp hk).resolve_left (Ne.symm h))

theorem length_entries_collect_cons {keys : List κ} (hnodup : keys.Nodup) {k : κ} (b : β k)
    (es : List (Σ k, β k)) :
    (entries keys (collect (⟨k, b⟩ :: es))).length =
      (entries keys (collect es)).length + if k ∈ keys then 1 else 0 := by
  induction keys with
  | nil => rfl
  | cons k' keys ih =>
    rw [List.nodup_cons] at hnodup
    have hrest := ih hnodup.2
    unfold entries at hrest ⊢
    rw [List.flatMap_cons, List.flatMap_cons, List.length_append, List.length_append, hrest,
      List.length_map, List.length_map]
    by_cases h : k = k'
    · subst h
      rw [collect_cons_self, List.length_cons, if_neg hnodup.1, if_pos List.mem_cons_self]
      omega
    · rw [collect_cons_of_ne h, Nat.add_assoc]
      simp only [List.mem_cons, h, false_or]

/-- No entry is lost in a table. -/
theorem length_entries_collect {keys : List κ} (hnodup : keys.Nodup) (hall : ∀ k, k ∈ keys)
    (es : List (Σ k, β k)) : (entries keys (collect es)).length = es.length := by
  induction es with
  | nil =>
    have hnil : entries keys (collect ([] : List (Σ k, β k))) = [] := by
      rw [entries, List.flatMap_eq_nil_iff]
      exact fun _ _ => rfl
    rw [hnil]
  | cons e es ih =>
    rw [length_entries_collect_cons hnodup, if_pos (hall e.1), ih, List.length_cons]

end Tables

/-! ### Keys -/

/-- The key that an item starts with, among names of which none starts another. -/
theorem find?_prefix {κ α : Type*} [BEq α] [LawfulBEq α] {keys : List κ} (name : κ → List α)
    (hnames : ∀ k ∈ keys, ∀ k' ∈ keys, name k <+: name k' → k = k') {k : κ} (hk : k ∈ keys)
    (rest : List α) :
    keys.find? (fun k' => (name k').isPrefixOf (name k ++ rest)) = some k := by
  have hstarts : (name k).isPrefixOf (name k ++ rest) = true :=
    List.isPrefixOf_iff_prefix.mpr (List.prefix_append _ _)
  have hsome : (keys.find? fun k' => (name k').isPrefixOf (name k ++ rest)).isSome :=
    List.find?_isSome.mpr ⟨k, hk, hstarts⟩
  obtain ⟨k', hfind⟩ := Option.isSome_iff_exists.mp hsome
  have hmem := List.mem_of_find?_eq_some hfind
  have htest : (name k').isPrefixOf (name k ++ rest) = true := by
    simpa using List.find?_some hfind
  have hprefix := List.isPrefixOf_iff_prefix.mp htest
  rw [hfind]
  rcases List.prefix_or_prefix_of_prefix hprefix (List.prefix_append _ _) with h | h
  · rw [hnames k' hmem k hk h]
  · rw [hnames k hk k' hmem h]

end Itmo.Lib
