import Itmo.Lib.Except
import Mathlib.Data.List.Forall2
import Mathlib.Data.List.Nodup

/-! Tables of a relational database as lists of rows: the row-producing parts of
a query, and the two statements that write, with their uniqueness constraint and
their row triggers. A statement either is carried out as a whole or leaves the
database as it was. -/

namespace Itmo.Lib

variable {α β ρ Db ε : Type*}

/-! ### Queries -/

/-- The rows a left join contributes: the matching ones, or one missing row. -/
def leftJoin (l : List α) (p : α → Bool) : List (Option α) :=
  match l.filter p with
  | [] => [none]
  | ys => ys.map some

theorem some_mem_leftJoin {l : List α} {p : α → Bool} {x : α} (h : some x ∈ leftJoin l p) :
    x ∈ l ∧ p x := by
  unfold leftJoin at h
  split at h
  · simp at h
  · rename_i ys _
    simp only [List.mem_map, Option.some.injEq, exists_eq_right] at h
    simpa [List.mem_filter] using h

theorem some_mem_leftJoin_iff {l : List α} {p : α → Bool} {x : α} :
    some x ∈ leftJoin l p ↔ x ∈ l ∧ p x := by
  refine ⟨some_mem_leftJoin, fun ⟨hx, hp⟩ => ?_⟩
  have hmem : x ∈ l.filter p := List.mem_filter.mpr ⟨hx, hp⟩
  unfold leftJoin
  split
  · next hnil =>
    rw [hnil] at hmem
    cases hmem
  · exact List.mem_map_of_mem hmem

theorem exists_mem_leftJoin (l : List α) (p : α → Bool) : ∃ x, x ∈ leftJoin l p := by
  unfold leftJoin
  split
  · exact ⟨none, List.mem_singleton_self none⟩
  · next hnil =>
    obtain ⟨x, hx⟩ := List.exists_mem_of_ne_nil _ hnil
    exact ⟨some x, List.mem_map_of_mem hx⟩

theorem none_mem_leftJoin {l : List α} {p : α → Bool} (h : none ∈ leftJoin l p) :
    ∀ x ∈ l, ¬ p x := by
  unfold leftJoin at h
  split at h
  · rename_i he
    simpa [List.filter_eq_nil_iff] using he
  · simp at h

theorem leftJoin_eq_none {l : List α} {p : α → Bool} (h : ∀ x ∈ l, ¬ p x) :
    leftJoin l p = [none] := by
  have hnil : l.filter p = [] := by simpa [List.filter_eq_nil_iff] using h
  rw [leftJoin, hnil]

theorem leftJoin_eq_some {l : List α} {p : α → Bool} {x : α} (h : l.filter p = [x]) :
    leftJoin l p = [some x] := by
  rw [leftJoin, h]
  rfl

/-- Selecting by a unique key gives the one row that has it. -/
theorem filter_key_eq {κ : Type*} [DecidableEq κ] {key : α → κ} {l : List α}
    (h : (l.map key).Nodup) {x : α} (hx : x ∈ l) : (l.filter fun y => key y = key x) = [x] := by
  induction l with
  | nil => cases hx
  | cons y l ih =>
    rw [List.map_cons, List.nodup_cons] at h
    rcases List.mem_cons.mp hx with rfl | hx
    · have hl : (l.filter fun y => key y = key x) = [] := by
        rw [List.filter_eq_nil_iff]
        intro y hy hk
        exact h.1 (of_decide_eq_true hk ▸ List.mem_map_of_mem hy)
      simp only [List.filter_cons, decide_true, if_true, hl]
    · have hne : key y ≠ key x := fun he => h.1 (he ▸ List.mem_map_of_mem hx)
      rw [List.filter_cons_of_neg (by simpa using hne), ih h.2 hx]

/-- The same for a key that is compared with a nullable value. -/
theorem filter_some_key_eq {κ : Type*} [DecidableEq κ] {key : α → κ} {l : List α}
    (h : (l.map key).Nodup) {x : α} (hx : x ∈ l) :
    (l.filter fun y => some (key y) = some (key x)) = [x] := by
  simp only [Option.some.injEq]
  exact filter_key_eq h hx

/-- A new row keeps a key unique if no row has its key. -/
theorem nodup_map_concat {κ : Type*} {key : α → κ} {l : List α} (h : (l.map key).Nodup) {x : α} :
    ((l ++ [x]).map key).Nodup ↔ ∀ y ∈ l, key y ≠ key x := by
  simp [List.nodup_append, h]

theorem filter_key_eq_nil {κ : Type*} [DecidableEq κ] {key : α → κ} {l : List α} {k : κ}
    (h : ∀ x ∈ l, key x ≠ k) : (l.filter fun y => key y = k) = [] := by
  simpa [List.filter_eq_nil_iff] using h

/-- Joining on a unique key contributes one row, the one found if there is one. -/
theorem leftJoin_key {κ : Type*} [DecidableEq κ] {key : α → κ} {l : List α}
    (h : (l.map key).Nodup) {p : α → Bool} {k : κ} (hp : ∀ x, p x → key x = k) :
    leftJoin l p = [l.find? p] := by
  cases hf : l.find? p with
  | none => exact leftJoin_eq_none (by simpa [List.find?_eq_none] using hf)
  | some x =>
    have hx := List.find?_some hf
    apply leftJoin_eq_some
    have hfilter : l.filter p = (l.filter fun y => key y = key x).filter p := by
      rw [List.filter_filter]
      refine List.filter_congr fun y _ => ?_
      cases hy : p y with
      | false => rfl
      | true => simp [hp y hy, hp x hx]
    rw [hfilter, filter_key_eq h (List.mem_of_find?_eq_some hf)]
    simp [hx]

/-- Reading rows one by one: each row has its result. -/
theorem exists_mem_of_forall₂ {R : α → β → Prop} {l : List α} {l' : List β}
    (h : List.Forall₂ R l l') {a : α} (ha : a ∈ l) : ∃ b ∈ l', R a b := by
  induction h with
  | nil => cases ha
  | cons hab _ ih =>
    rw [List.mem_cons] at ha
    rcases ha with rfl | ha
    · exact ⟨_, List.mem_cons_self, hab⟩
    · obtain ⟨b, hb, hab⟩ := ih ha
      exact ⟨b, List.mem_cons_of_mem _ hb, hab⟩

/-- A query of one row: the row, if there is exactly one. -/
def exactlyOne (empty many : ε) : List α → Except ε α
  | [] => .error empty
  | [x] => .ok x
  | _ => .error many

/-- A query of at most one row. -/
def atMostOne (many : ε) : List α → Except ε (Option α)
  | [] => .ok none
  | [x] => .ok (some x)
  | _ => .error many

theorem atMostOne_mem {many : ε} {l : List α} {x : α} (h : atMostOne many l = .ok (some x)) :
    x ∈ l := by
  unfold atMostOne at h
  split at h <;> simp_all

theorem atMostOne_ok {many : ε} {l : List α} {x : α} :
    atMostOne many l = .ok (some x) ↔ l = [x] := by
  unfold atMostOne
  split <;> simp_all

/-- One row out of a left join: there is at most one match. -/
theorem map_leftJoin_eq {l : List α} {p : α → Bool} {f : Option α → β} {y : β} :
    (leftJoin l p).map f = [y] ↔
      (l.filter p = [] ∧ f none = y) ∨ ∃ x, l.filter p = [x] ∧ f (some x) = y := by
  rw [leftJoin]
  match l.filter p with
  | [] => simp
  | [x] => simp
  | x :: x' :: l => simp

/-! ### Results of statements -/

/-- One check after the other. -/
theorem except_seq_ok {x : Except ε PUnit} {f : PUnit → Except ε PUnit} :
    (x >>= f) = .ok ⟨⟩ ↔ x = .ok ⟨⟩ ∧ f ⟨⟩ = .ok ⟨⟩ := by
  constructor
  · intro h
    obtain ⟨_, hx, hf⟩ := bind_ok h
    exact ⟨hx, hf⟩
  · rintro ⟨rfl, hf⟩
    exact hf

/-- Run a check on every row, stopping at the first error. -/
def checkAll (check : ρ → Except ε Unit) : List ρ → Except ε Unit
  | [] => .ok ()
  | r :: rs => (check r).bind fun _ => checkAll check rs

theorem checkAll_ok {check : ρ → Except ε Unit} {rs : List ρ} (h : checkAll check rs = .ok ()) :
    ∀ r ∈ rs, check r = .ok () := by
  induction rs with
  | nil => simp
  | cons r rs ih =>
    obtain ⟨u, hr, hrs⟩ := bind_ok h
    rw [List.forall_mem_cons]
    exact ⟨hr, ih hrs⟩

theorem checkAll_ok_iff {check : ρ → Except ε Unit} {rs : List ρ} :
    checkAll check rs = .ok () ↔ ∀ r ∈ rs, check r = .ok () := by
  refine ⟨checkAll_ok, fun h => ?_⟩
  induction rs with
  | nil => rfl
  | cons r rs ih =>
    rw [List.forall_mem_cons] at h
    exact except_seq_ok.mpr ⟨h.1, ih h.2⟩

/-! ### Tables -/

/-- A table of a database `Db` with rows of type `ρ`: where its rows are, its
uniqueness constraint over all rows, and the row triggers that fire after an
insert and after an update (foreign keys are checked by such triggers too). -/
structure Table (Db ρ ε : Type*) where
  rows : Db → List ρ
  setRows : List ρ → Db → Db
  rows_setRows : ∀ l db, rows (setRows l db) = l
  unique : List ρ → Except ε Unit
  afterInsert : Db → ρ → Except ε Unit
  afterUpdate : Db → ρ → ρ → Except ε Unit

namespace Table

variable (t : Table Db ρ ε)

/-- The rows after an update of the rows that satisfy `p`. -/
def updated (p : ρ → Bool) (f : ρ → ρ) (l : List ρ) : List ρ :=
  l.map fun r => if p r then f r else r

def insert (row : ρ) (db : Db) : Except ε Db :=
  let db' := t.setRows (t.rows db ++ [row]) db
  (t.unique (t.rows db')).bind fun _ => (t.afterInsert db' row).bind fun _ => .ok db'

def update (p : ρ → Bool) (f : ρ → ρ) (db : Db) : Except ε Db :=
  let db' := t.setRows (updated p f (t.rows db)) db
  (t.unique (t.rows db')).bind fun _ =>
    (checkAll (fun r => t.afterUpdate db' r (f r)) ((t.rows db).filter p)).bind fun _ => .ok db'

/-- What an accepted insert did, and what it was checked against. -/
theorem insert_ok {row : ρ} {db db' : Db} (h : t.insert row db = .ok db') :
    db' = t.setRows (t.rows db ++ [row]) db ∧ t.unique (t.rows db ++ [row]) = .ok () ∧
      t.afterInsert db' row = .ok () := by
  obtain ⟨_, hu, h⟩ := bind_ok h
  obtain ⟨_, ha, h⟩ := bind_ok h
  cases h
  rw [t.rows_setRows] at hu
  exact ⟨rfl, hu, ha⟩

/-- What an accepted update did, and that every trigger let its row pass. -/
theorem update_ok {p : ρ → Bool} {f : ρ → ρ} {db db' : Db} (h : t.update p f db = .ok db') :
    db' = t.setRows (updated p f (t.rows db)) db ∧
      t.unique (updated p f (t.rows db)) = .ok () ∧
      ∀ r ∈ t.rows db, p r → t.afterUpdate db' r (f r) = .ok () := by
  obtain ⟨_, hu, h⟩ := bind_ok h
  obtain ⟨_, ha, h⟩ := bind_ok h
  cases h
  rw [t.rows_setRows] at hu
  refine ⟨rfl, hu, fun r hr hp => ?_⟩
  exact checkAll_ok ha r (List.mem_filter.mpr ⟨hr, hp⟩)

/-- When an insert is accepted. -/
theorem insert_accepted {row : ρ} {db : Db} : (∃ db', t.insert row db = .ok db') ↔
    t.unique (t.rows db ++ [row]) = .ok () ∧
      t.afterInsert (t.setRows (t.rows db ++ [row]) db) row = .ok () := by
  constructor
  · rintro ⟨db', h⟩
    obtain ⟨rfl, hu, ha⟩ := t.insert_ok h
    exact ⟨hu, ha⟩
  · rintro ⟨hu, ha⟩
    rw [← t.rows_setRows (t.rows db ++ [row]) db] at hu
    simp only [insert, hu, ha, Except.bind]
    exact ⟨_, rfl⟩

/-- When an update is accepted. -/
theorem update_accepted {p : ρ → Bool} {f : ρ → ρ} {db : Db} : (∃ db', t.update p f db = .ok db') ↔
    t.unique (updated p f (t.rows db)) = .ok () ∧
      ∀ r ∈ t.rows db, p r →
        t.afterUpdate (t.setRows (updated p f (t.rows db)) db) r (f r) = .ok () := by
  constructor
  · rintro ⟨db', h⟩
    obtain ⟨rfl, hu, ha⟩ := t.update_ok h
    exact ⟨hu, ha⟩
  · rintro ⟨hu, ha⟩
    have hall : checkAll (fun r => t.afterUpdate (t.setRows (updated p f (t.rows db)) db) r (f r))
        ((t.rows db).filter p) = .ok () := by
      rw [checkAll_ok_iff]
      intro r hr
      rw [List.mem_filter] at hr
      exact ha r hr.1 hr.2
    rw [← t.rows_setRows (updated p f (t.rows db)) db] at hu
    simp only [update, hu, hall, Except.bind]
    exact ⟨_, rfl⟩

end Table

/-- An update leaves alone the rows of a property that none of its rows has. -/
theorem Table.filter_updated {p q : ρ → Bool} {f : ρ → ρ} (hf : ∀ r, q (f r) = q r)
    (hpq : ∀ r, p r → q r = false) (l : List ρ) :
    (Table.updated p f l).filter q = l.filter q := by
  unfold Table.updated
  induction l with
  | nil => rfl
  | cons r l ih =>
    rw [List.map_cons, List.filter_cons, List.filter_cons, ih]
    by_cases hp : p r
    · simp [hp, hf, hpq r hp]
    · simp [hp]

/-- An update that keeps a key does not change the list of keys. -/
theorem Table.map_updated {κ : Type*} {key : ρ → κ} {p : ρ → Bool} {f : ρ → ρ}
    (hf : ∀ r, key (f r) = key r) (l : List ρ) : (Table.updated p f l).map key = l.map key := by
  unfold Table.updated
  rw [List.map_map]
  refine List.map_congr_left fun r _ => ?_
  by_cases hp : p r <;> simp [hp, hf]

/-- An update that keeps a key keeps it unique. -/
theorem Table.nodup_map_updated {κ : Type*} {key : ρ → κ} {p : ρ → Bool} {f : ρ → ρ} {l : List ρ}
    (h : (l.map key).Nodup) (hf : ∀ r, key (f r) = key r) :
    ((Table.updated p f l).map key).Nodup := by
  rw [Table.map_updated hf]
  exact h

/-! ### Rows with an owner -/

section Owned

variable {κ ω γ : Type*} (key : ρ → κ) (owner : ρ → ω) (content : ρ → γ) (auth : ω → Prop)

/-- From one state of a table to another, told apart by their keys, rows stay
and keep their owner, and the content of a row changes only where `auth` holds
of its owner. -/
def OwnedChange (l l' : List ρ) : Prop :=
  ∀ r ∈ l, (∃ r' ∈ l', key r' = key r) ∧
    ∀ r' ∈ l', key r' = key r → owner r' = owner r ∧ (content r' ≠ content r → auth (owner r))

variable {key owner content auth}

/-- Inserting rows whose keys are new changes no other row. -/
theorem ownedChange_append {l l' : List ρ} (h : ((l ++ l').map key).Nodup) :
    OwnedChange key owner content auth l (l ++ l') := by
  intro r hr
  refine ⟨⟨r, List.mem_append_left l' hr, rfl⟩, fun r' hr' hk => ?_⟩
  obtain rfl := List.inj_on_of_nodup_map h hr' (List.mem_append_left l' hr) hk
  exact ⟨rfl, fun hne => absurd rfl hne⟩

theorem ownedChange_refl {l : List ρ} (h : (l.map key).Nodup) :
    OwnedChange key owner content auth l l := by
  have h' : OwnedChange key owner content auth l (l ++ []) :=
    ownedChange_append (by rwa [List.append_nil])
  rwa [List.append_nil] at h'

/-- An update of the row with one key, whose owner is authorised. -/
theorem ownedChange_updated {l : List ρ} (h : (l.map key).Nodup) {p : ρ → Bool} {f : ρ → ρ}
    (hkey : ∀ r, key (f r) = key r) (howner : ∀ r, owner (f r) = owner r) {row : ρ}
    (hrow : row ∈ l) (hp : ∀ r, p r → key r = key row) (hauth : auth (owner row)) :
    OwnedChange key owner content auth l (Table.updated p f l) := by
  intro r hr
  have hmem : ∀ r' ∈ Table.updated p f l, ∃ x ∈ l, r' = if p x then f x else x := by
    intro r' hr'
    obtain ⟨x, hx, rfl⟩ := List.mem_map.mp hr'
    exact ⟨x, hx, rfl⟩
  constructor
  · refine ⟨if p r then f r else r, List.mem_map_of_mem hr, ?_⟩
    split_ifs <;> simp [hkey]
  · intro r' hr' hk
    obtain ⟨x, hx, rfl⟩ := hmem r' hr'
    split_ifs at hk ⊢ with hpx
    · obtain rfl := List.inj_on_of_nodup_map h hx hr (by rw [← hkey x, hk])
      obtain rfl := List.inj_on_of_nodup_map h hx hrow (hp x hpx)
      exact ⟨howner x, fun _ => hauth⟩
    · obtain rfl := List.inj_on_of_nodup_map h hx hr hk
      exact ⟨rfl, fun hne => absurd rfl hne⟩

end Owned

end Itmo.Lib
