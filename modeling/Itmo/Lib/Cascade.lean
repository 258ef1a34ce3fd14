import Itmo.Lib.Table

/-! Statements on a table that other tables refer to. What a statement does is
given row by row: the new version of each row, if it stays, and the rows that are
inserted. A reference is followed from the old key of a row to the key of its new
version, and is lost with the row. -/

namespace Itmo.Lib

variable {ρ κ : Type*}

/-- A row that was not updated stays as it is or is gone. -/
structure Effect (ρ : Type*) where
  version : ρ → Option ρ
  updated : ρ → Bool
  inserted : List ρ
  kept : ∀ r r', version r = some r' → updated r = false → r' = r

/-- The three kinds of statements. -/
inductive Modification (ρ : Type*) where
  | insert (new : List ρ)
  | update (p : ρ → Bool) (f : ρ → ρ)
  | delete (p : ρ → Bool)

namespace Effect

/-- The table is not touched. -/
def none : Effect ρ where
  version := some
  updated _ := false
  inserted := []
  kept _ _ h _ := (Option.some.inj h).symm

/-- The table after the statement. -/
def rows (e : Effect ρ) (l : List ρ) : List ρ := l.filterMap e.version ++ e.inserted

/-- The rows that were inserted and the new versions of those that were updated. -/
def new (e : Effect ρ) (l : List ρ) : List ρ :=
  (l.filter e.updated).filterMap e.version ++ e.inserted

/-- The old versions of the rows that were updated. -/
def old (e : Effect ρ) (l : List ρ) : List ρ := l.filter e.updated

/-- Where a reference to the row with a key leads after the statement. -/
def follow [DecidableEq κ] (e : Effect ρ) (key : ρ → κ) (l : List ρ) (k : κ) : Option κ :=
  match l.find? (key · = k) with
  | some r => (e.version r).map key
  | .none => some k

/-- After the statement itself, the references of the rows are followed; a row
counts as updated if one of them has changed. -/
def cascade [DecidableEq ρ] (e : Effect ρ) (g : ρ → Option ρ) : Effect ρ where
  version r := (e.version r).bind g
  updated r := e.updated r || (e.version r).any fun r' => (g r').any (· ≠ r')
  inserted := e.inserted
  kept r r' h hupdated := by
    obtain ⟨r'', hr, hg⟩ := Option.bind_eq_some_iff.mp h
    rw [Bool.or_eq_false_iff, hr, Option.any_some, hg, Option.any_some,
      decide_eq_false_iff_not, not_not] at hupdated
    rw [hupdated.2]
    exact e.kept r r'' hr hupdated.1

end Effect

def Modification.effect : Modification ρ → Effect ρ
  | .insert new => { Effect.none with inserted := new }
  | .update p f =>
    { version := fun r => some (if p r then f r else r)
      updated := p
      inserted := []
      kept := fun r r' h hp => by
        rw [hp] at h
        exact (Option.some.inj h).symm }
  | .delete p =>
    { version := fun r => if p r then none else some r
      updated := fun _ => false
      inserted := []
      kept := fun r r' h _ => by
        by_cases hp : p r
        · simp [hp] at h
        · simpa [hp, eq_comm] using h }

namespace Effect

variable {e : Effect ρ} {l : List ρ} {r r' : ρ}

theorem mem_rows : r' ∈ e.rows l ↔ (∃ r ∈ l, e.version r = some r') ∨ r' ∈ e.inserted := by
  rw [rows, List.mem_append, List.mem_filterMap]

theorem mem_new : r' ∈ e.new l ↔
    (∃ r ∈ l, e.updated r ∧ e.version r = some r') ∨ r' ∈ e.inserted := by
  simp [new, and_assoc]

theorem version_mem_rows (hr : r ∈ l) (h : e.version r = some r') : r' ∈ e.rows l :=
  mem_rows.mpr (.inl ⟨r, hr, h⟩)

/-- A row of the table is new or was there before. -/
theorem new_or_old (h : r' ∈ e.rows l) : r' ∈ e.new l ∨ r' ∈ l ∧ e.version r' = some r' := by
  rw [mem_rows] at h
  rw [mem_new]
  rcases h with ⟨r, hr, hversion⟩ | hinserted
  · cases hupdated : e.updated r with
    | true => exact .inl (.inl ⟨r, hr, hupdated, hversion⟩)
    | false =>
      obtain rfl := e.kept r r' hversion hupdated
      exact .inr ⟨hr, hversion⟩
  · exact .inl (.inr hinserted)

theorem new_subset (h : r' ∈ e.new l) : r' ∈ e.rows l := by
  rw [mem_new] at h
  rw [mem_rows]
  rcases h with ⟨r, hr, -, hversion⟩ | hinserted
  · exact .inl ⟨r, hr, hversion⟩
  · exact .inr hinserted

@[simp] theorem none_version (r : ρ) : (none : Effect ρ).version r = some r := rfl

@[simp] theorem none_rows : (none : Effect ρ).rows l = l := by
  simp [rows, none]

section References

variable [DecidableEq ρ] {g : ρ → Option ρ}

/-- References that all stay change nothing. -/
theorem cascade_self (h : ∀ r, g r = some r) : e.cascade g = e := by
  have hversion : (fun r => (e.version r).bind g) = e.version := by
    funext r
    cases e.version r with
    | none => rfl
    | some r' => exact h r'
  have hupdated : (fun r => e.updated r || (e.version r).any fun r' => (g r').any (· ≠ r')) =
      e.updated := by
    funext r
    cases e.version r <;> simp [h]
  cases e
  simp only [cascade] at hversion hupdated ⊢
  simp only [hversion, hupdated]

/-- A row of the table is new, or was there before with references that stay. -/
theorem cascade_new_or_old (h : r' ∈ (e.cascade g).rows l) :
    r' ∈ (e.cascade g).new l ∨ r' ∈ l ∧ g r' = some r' := by
  rw [mem_rows] at h
  rw [mem_new]
  rcases h with ⟨r, hr, hversion⟩ | hinserted
  · cases hupdated : (e.cascade g).updated r with
    | true => exact .inl (.inl ⟨r, hr, hupdated, hversion⟩)
    | false =>
      obtain rfl := (e.cascade g).kept r r' hversion hupdated
      obtain ⟨r'', hown, hg⟩ := Option.bind_eq_some_iff.mp hversion
      have hown' : e.updated r' = false := (Bool.or_eq_false_iff.mp hupdated).1
      obtain rfl := e.kept r' r'' hown hown'
      exact .inr ⟨hr, hg⟩
  · exact .inl (.inr hinserted)

/-- The rows of a table that is only reached by references. -/
theorem mem_rows_cascade : r' ∈ (none.cascade g).rows l ↔ ∃ r ∈ l, g r = some r' := by
  rw [mem_rows]
  exact or_iff_left List.not_mem_nil

end References

variable [DecidableEq κ] {key : ρ → κ}

/-- A reference to a row of the table leads to its new version. -/
theorem follow_mem (h : (l.map key).Nodup) (hr : r ∈ l) :
    e.follow key l (key r) = (e.version r).map key := by
  have hfind : l.find? (fun x => decide (key x = key r)) = some r := by
    rw [← List.head?_filter, filter_key_eq h hr]
    rfl
  rw [follow, hfind]

/-- A reference that is not lost leads to the new version of its row. -/
theorem follow_eq_some (h : (l.map key).Nodup) (hr : r ∈ l) {k : κ} :
    e.follow key l (key r) = some k ↔ ∃ r', e.version r = some r' ∧ key r' = k := by
  rw [follow_mem h hr, Option.map_eq_some_iff]

theorem eq_of_nodup_filterMap {β : Type*} {f : ρ → Option β} (h : (l.filterMap f).Nodup)
    {r₁ r₂ : ρ} (h₁ : r₁ ∈ l) (h₂ : r₂ ∈ l) {b : β} (hb₁ : f r₁ = some b) (hb₂ : f r₂ = some b) :
    r₁ = r₂ := by
  induction l with
  | nil => cases h₁
  | cons r l ih =>
    rw [List.mem_cons] at h₁ h₂
    have hmem : ∀ {x}, x ∈ l → f x = some b → b ∈ l.filterMap f := fun hx hfx =>
      List.mem_filterMap.mpr ⟨_, hx, hfx⟩
    cases hr : f r with
    | none =>
      rw [List.filterMap_cons_none hr] at h
      rcases h₁ with rfl | h₁
      · rw [hr] at hb₁
        cases hb₁
      rcases h₂ with rfl | h₂
      · rw [hr] at hb₂
        cases hb₂
      exact ih h h₁ h₂
    | some b' =>
      rw [List.filterMap_cons_some hr, List.nodup_cons] at h
      rcases h₁ with rfl | h₁ <;> rcases h₂ with rfl | h₂
      · rfl
      · obtain rfl := Option.some.inj (hr.symm.trans hb₁)
        exact absurd (hmem h₂ hb₂) h.1
      · obtain rfl := Option.some.inj (hr.symm.trans hb₂)
        exact absurd (hmem h₁ hb₁) h.1
      · exact ih h.2 h₁ h₂

/-- References to two rows do not come together when the keys stay unique. -/
theorem follow_inj (h : (l.map key).Nodup) (h' : ((e.rows l).map key).Nodup) {r₁ r₂ : ρ}
    (h₁ : r₁ ∈ l) (h₂ : r₂ ∈ l) {k : κ} (hk₁ : e.follow key l (key r₁) = some k)
    (hk₂ : e.follow key l (key r₂) = some k) : r₁ = r₂ := by
  rw [follow_mem h h₁] at hk₁
  rw [follow_mem h h₂] at hk₂
  have hkeys : (l.filterMap fun r => (e.version r).map key).Nodup := by
    rw [rows, List.map_append, List.map_filterMap] at h'
    exact h'.of_append_left
  exact eq_of_nodup_filterMap hkeys h₁ h₂ hk₁ hk₂

/-- References to a table that is not touched stay. -/
@[simp] theorem none_follow (k : κ) : (none : Effect ρ).follow key l k = some k := by
  unfold follow
  cases hfind : l.find? (fun x => decide (key x = k)) with
  | none => rfl
  | some r => simpa [none] using List.find?_some hfind

end Effect

end Itmo.Lib
