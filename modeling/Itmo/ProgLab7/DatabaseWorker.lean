import Itmo.Lib.Table
import Itmo.ProgLab8.DatabaseWorker

/-! The statements of the earlier server that change stored routes. Its rows, routes
and users are those of the later one. Each statement asks for the owner of a row and
for a password that is stored for him; `userdata` stores digests. The update and the
removal bind the digest of the password of the request, `clear` binds the password
itself. So a user clears his rows exactly when his password is stored as it is. -/

namespace Itmo.ProgLab7

open Lib ProgLab8

variable {D : Type} [Platform D]

/-- The tables of the database. -/
structure Tables (D : Type) where
  routes : List (Row D)
  userdata : List UserRow

/-- `? IN (SELECT userdata.password FROM userdata WHERE owner=?)` -/
def Tables.isPassword (t : Tables D) (password owner : JString) : Bool :=
  t.userdata.any fun u => u.owner = owner ∧ u.password = password

/-- The password of the user is the one he has registered with. -/
def Tables.registered (t : Tables D) (user : User) : Bool :=
  t.isPassword (Platform.hash256 D user.password) user.user

namespace DatabaseWorker

/-! ### Statements

`fails` says whether the statement raises an `SQLException`, which is caught. -/

def updateById (fails : Bool) (route : Option (Route D)) (id : Option ℤ) (user : User)
    (t : Tables D) : Except Throwable Bool × Tables D :=
  match route, id with
  | some route, some id =>
    if fails then (.ok false, t)
    else
      let found := fun row : Row D =>
        t.isPassword (Platform.hash256 D user.password) user.user && row.id = id &&
          row.owner = user.user
      (.ok (t.routes.any found), { t with routes := Table.updated found (Row.update route) t.routes })
  | _, _ => (.error .NullPointerException, t)

def removeById (fails : Bool) (id : ℤ) (user : User) (t : Tables D) : Bool × Tables D :=
  if fails then (false, t)
  else (true, { t with routes := t.routes.filter fun row =>
    !(row.id = id && t.isPassword (Platform.hash256 D user.password) user.user &&
      row.owner = user.user) })

/-- The password is bound without its digest. -/
def clear (fails : Bool) (user : User) (t : Tables D) : Bool × Tables D :=
  if fails then (false, t)
  else (true, { t with routes := t.routes.filter fun row =>
    !(t.isPassword user.password user.user && row.owner = user.user) })

/-! ### Acceptance -/

/-- The update of a row by its id finds a row. -/
def Updates (t : Tables D) (user : User) (route : Route D) (row : Row D) : Prop :=
  (updateById false (some route) (some row.id) user t).1.toOption = some true

/-- The row is gone after it was removed by its id. -/
def Removes (t : Tables D) (user : User) (row : Row D) : Prop :=
  row ∉ (removeById false row.id user t).2.routes

/-- The row is gone after `clear`. -/
def Clears (t : Tables D) (user : User) (row : Row D) : Prop :=
  row ∉ (clear false user t).2.routes

variable {t : Tables D} {user : User} {row : Row D}

theorem updates_iff (route : Route D) (hrow : row ∈ t.routes) (howner : row.owner = user.user) :
    Updates t user route row ↔ t.registered user := by
  have hresult : (updateById false (some route) (some row.id) user t).1 =
      .ok (t.routes.any fun r => t.registered user && r.id = row.id && r.owner = user.user) := rfl
  unfold Updates
  rw [hresult]
  simp only [Except.toOption, Option.some.injEq, List.any_eq_true, Bool.and_eq_true]
  constructor
  · rintro ⟨r, -, ⟨hregistered, -⟩, -⟩
    exact hregistered
  · intro hregistered
    exact ⟨row, hrow, ⟨hregistered, by simp⟩, by simpa using howner⟩

theorem removes_iff (hrow : row ∈ t.routes) (howner : row.owner = user.user) :
    Removes t user row ↔ t.registered user := by
  have hresult : (removeById false row.id user t).2.routes =
      t.routes.filter fun r => !(r.id = row.id && t.registered user && r.owner = user.user) := rfl
  unfold Removes
  rw [hresult, List.mem_filter]
  simp [hrow, howner]

omit [Platform D] in
theorem clears_iff (hrow : row ∈ t.routes) (howner : row.owner = user.user) :
    Clears t user row ↔ t.isPassword user.password user.user := by
  have hresult : (clear false user t).2.routes =
      t.routes.filter fun r => !(t.isPassword user.password user.user && r.owner = user.user) := rfl
  unfold Clears
  rw [hresult, List.mem_filter]
  simp [hrow, howner]

/-- The update and the removal accept the same users. -/
theorem updates_iff_removes (route : Route D) (hrow : row ∈ t.routes)
    (howner : row.owner = user.user) : Updates t user route row ↔ Removes t user row := by
  rw [updates_iff route hrow howner, removes_iff hrow howner]

omit [Platform D] in
/-- Rows of other owners stay, whatever the password. -/
theorem clear_foreign (fails : Bool) (hrow : row ∈ t.routes) (howner : row.owner ≠ user.user) :
    row ∈ (clear fails user t).2.routes := by
  cases fails with
  | true => exact hrow
  | false =>
    have hresult : (clear false user t).2.routes = t.routes.filter fun r =>
      !(t.isPassword user.password user.user && r.owner = user.user) := rfl
    rw [hresult, List.mem_filter]
    simp [hrow, howner]

omit [Platform D] in
/-- `clear` deletes either all rows of the user or none. -/
theorem clear_routes (user : User) (t : Tables D) : (clear false user t).2.routes =
    if t.isPassword user.password user.user then t.routes.filter (·.owner ≠ user.user)
    else t.routes := by
  have hresult : (clear false user t).2.routes = t.routes.filter fun r =>
    !(t.isPassword user.password user.user && r.owner = user.user) := rfl
  rw [hresult]
  split_ifs with h
  · simp [h]
  · simp [h]

/-! ### The same credentials -/

/-- With the registered password `clear` deletes the rows of the user and no others, and
on each row of the user the three statements accept the same passwords. -/
structure SameCredentials (t : Tables D) (user : User) : Prop where
  clear : t.registered user →
    (clear false user t).2.routes = t.routes.filter (·.owner ≠ user.user)
  update_remove : ∀ (route : Route D), ∀ row ∈ t.routes, row.owner = user.user →
    (Updates t user route row ↔ Removes t user row)
  remove_clear : ∀ row ∈ t.routes, row.owner = user.user → (Removes t user row ↔ Clears t user row)

/-- The three statements agree on a user exactly when he has no rows, or his password
is stored as it is if and only if its digest is. -/
theorem sameCredentials_iff (t : Tables D) (user : User) :
    SameCredentials t user ↔ (∀ row ∈ t.routes, row.owner ≠ user.user) ∨
      (t.registered user ↔ t.isPassword user.password user.user) := by
  constructor
  · intro h
    by_cases hrows : ∀ row ∈ t.routes, row.owner ≠ user.user
    · exact .inl hrows
    · push Not at hrows
      obtain ⟨row, hrow, howner⟩ := hrows
      have hsame := h.remove_clear row hrow howner
      rw [removes_iff hrow howner, clears_iff hrow howner] at hsame
      exact .inr hsame
  · intro h
    constructor
    · intro hregistered
      rw [clear_routes]
      rcases h with hrows | hsame
      · have hall : t.routes.filter (·.owner ≠ user.user) = t.routes := by
          rw [List.filter_eq_self]
          intro row hrow
          exact decide_eq_true (hrows row hrow)
        rw [hall, ite_self]
      · rw [if_pos (hsame.mp hregistered)]
    · intro route row hrow howner
      exact updates_iff_removes route hrow howner
    · intro row hrow howner
      rcases h with hrows | hsame
      · exact absurd howner (hrows row hrow)
      · rw [removes_iff hrow howner, clears_iff hrow howner, hsame]

/-- A row of the user `egg`, who is logged in with his password, outlives `clear`. -/
theorem clear_keeps_own_rows : ¬ ∀ (t : Tables ℤ) (user : User), SameCredentials t user := by
  intro h
  have hclear := (h
    { routes := [.ofRoute 1 (.atPoint 1 0 0) (.ofString "egg")]
      userdata := [⟨.ofString "egg", Platform.hash256 ℤ (.ofString "qwerty")⟩] }
    ⟨.ofString "egg", .ofString "qwerty"⟩).clear (by decide)
  exact absurd hclear (by decide)

end DatabaseWorker

end Itmo.ProgLab7
