import Itmo.ProgLab8.Session

/-! Who can change a stored route. Deleting and updating statements ask for the
owner and his password, and a user can touch no row of another owner. The
inserting statement asks for nothing: it stores a route for whatever user the
request names. -/

namespace Itmo.ProgLab8

open Lib Action Session

variable {D : Type} [Platform D]

/-- The rows of one owner. -/
def rowsOf (s : Server D) (owner : JString) : List (Row D) := s.routes.filter (·.owner = owner)

/-- The rows of an owner change only in a request with his name and password. -/
def Authorised (s : Server D) (e : Event D) : Prop :=
  ∀ owner, rowsOf (step s e) owner ≠ rowsOf s owner →
    ∃ r, e = .request r ∧ r.user.user = owner ∧ s.credentials r.user

/-- The row that a request inserts: `add` one for its route, `add_if_max` if the
route is greater than the greatest cached one. -/
def inserted (s : Server D) (r : Request D) : Option (Row D) :=
  if s.halted || s.locked || s.world.fails s.tick then none
  else match r.command, r.arguments with
    | .ADD, .route route :: _ => some (.ofRoute s.serial route r.user.user)
    | .ADD_IF_MAX, .route route :: _ =>
      (Commands.maxRoute s.cache.data).bind fun max =>
        if 0 < route.compareTo max then some (.ofRoute s.serial route r.user.user) else none
    | _, _ => none

/-- Nothing is inserted for a user without his password. -/
def InsertsAuthorised (s : Server D) : Event D → Prop
  | .request r => (inserted s r).isSome → s.credentials r.user
  | _ => True

/-! ### Rows of other owners -/

theorem change_foreign {user : User} {inserts : Prop} {s s' : Server D} {owner : JString}
    (hne : owner ≠ user.user) (h : Change user inserts s s') :
    rowsOf s' owner = rowsOf s owner := by
  cases h with
  | quiet _ h => rw [rowsOf, h.1, rowsOf]
  | insert route serial _ =>
    simp [rowsOf, Row.ofRoute, hne.symm]
  | update route p hp _ =>
    apply Table.filter_updated
    · intro row
      rfl
    · intro row hrow
      simp [hp row hrow, hne.symm]
  | delete p hp _ =>
    unfold rowsOf
    rw [List.filter_filter]
    apply List.filter_congr
    intro row _
    by_cases hrow : p row
    · simp [hp row hrow, hne.symm]
    · simp [hrow]

theorem execute_foreign (s : Server D) (r : Request D) {owner : JString}
    (hne : owner ≠ r.user.user) : rowsOf (exec r.execute s).2 owner = rowsOf s owner := by
  have hR : ∀ s₁ s₂ : Server D, Change r.user (r.command = .ADD ∨ r.command = .ADD_IF_MAX) s₁ s₂ →
      rowsOf s₁ owner = rowsOf s owner → rowsOf s₂ owner = rowsOf s owner := by
    intro s₁ s₂ h h₁
    rw [change_foreign hne h, h₁]
  exact (does_execute r).preserves hR rfl

/-! ### Without the password -/

/-- Without the password only an insertion changes the table. -/
theorem change_without_password {user : User} {inserts : Prop} {s s' : Server D}
    (hc : s.credentials user = false) (hi : ¬ inserts) (h : Change user inserts s s') :
    Quiet s s' := by
  cases h with
  | quiet _ h => exact h
  | insert route serial h => exact absurd h hi
  | update route p _ hc' => rw [hc] at hc'; cases hc'
  | delete p _ hc' => rw [hc] at hc'; cases hc'

theorem execute_without_password {s : Server D} {r : Request D}
    (hc : s.credentials r.user = false) (hi : ¬ (r.command = .ADD ∨ r.command = .ADD_IF_MAX)) :
    (exec r.execute s).2.routes = s.routes := by
  have hR : ∀ s₁ s₂ : Server D, Change r.user (r.command = .ADD ∨ r.command = .ADD_IF_MAX) s₁ s₂ →
      Quiet s s₁ → Quiet s s₂ := by
    intro s₁ s₂ h h₁
    have hc₁ : s₁.credentials r.user = false := by
      unfold Server.credentials
      rw [h₁.2]
      exact hc
    exact h₁.trans (change_without_password hc₁ hi h)
  have hq : Quiet s (exec r.execute s).2 := (does_execute r).preserves hR (.refl s)
  exact hq.1

/-! ### Insertions -/

/-- What follows the statement of a command leaves the table as it is. -/
theorem finish_routes (statement : ServerAction D Bool) (a b : String) (s : Server D) :
    (exec (finish statement a b) s).2.routes = (exec statement s).2.routes := by
  have hunlock : Does Quiet (unlock : ServerAction D Unit) := does_unlock fun _ _ h => h
  have hupdate : Does Quiet (updateCollection : ServerAction D Unit) :=
    does_updateCollection fun _ _ h => h
  unfold finish
  rw [exec_bind]
  rcases exec statement s with ⟨ok, s'⟩
  cases ok with
  | error e => rfl
  | ok ok =>
    dsimp only
    split_ifs
    · exact (quiet_exec (hupdate.bind fun _ => hunlock.bind fun _ => does_pure _) s').1
    · exact (quiet_exec (hunlock.bind fun _ => does_pure _) s').1

theorem addNewRoute_routes (route : Route D) (user : User) (s : Server D) :
    (exec (DatabaseWorker.addNewRoute (some route) user) s).2.routes =
      if s.world.fails s.tick then s.routes
      else s.routes ++ [.ofRoute s.serial route user.user] := by
  rw [DatabaseWorker.exec_addNewRoute]
  split_ifs <;> rfl

theorem add_routes (arguments : List (Object D)) (user : User) (s : Server D)
    (hh : s.halted = false) :
    (exec (Commands.add arguments user) s).2.routes =
      s.routes ++ (inserted s ⟨.ADD, arguments, user⟩).toList := by
  unfold Commands.add inserted
  by_cases hl : s.locked
  · rw [exec_bind_error (exec_lock_held hl)]
    simp [hl]
  · rw [Bool.not_eq_true] at hl
    rw [exec_bind_ok (exec_lock_free hl)]
    cases arguments with
    | nil => simp [argument]
    | cons o arguments =>
      cases o with
      | route route =>
        by_cases hf : s.world.fails s.tick
        · simp [argument, castRoute, finish_routes, addNewRoute_routes, hf]
        · simp [argument, castRoute, finish_routes, addNewRoute_routes, hf, hl, hh]
      | null =>
        simp [argument, castRoute, finish_routes, DatabaseWorker.exec_addNewRoute_none]
      | string _ => simp [argument, castRoute]
      | integer _ => simp [argument, castRoute]
      | other => simp [argument, castRoute]

/-- The branches of `add_if_max` that hold the lock and insert nothing. -/
theorem unlock_routes (a : Answer D) (s : Server D) :
    (exec (unlock >>= fun _ => pure a) s).2.routes = s.routes := rfl

theorem addIfMax_routes (arguments : List (Object D)) (user : User) (s : Server D)
    (hh : s.halted = false) :
    (exec (Commands.addIfMax arguments user) s).2.routes =
      s.routes ++ (inserted s ⟨.ADD_IF_MAX, arguments, user⟩).toList := by
  unfold Commands.addIfMax inserted
  cases arguments with
  | nil => simp [argument]
  | cons o arguments =>
    cases o with
    | string _ => simp [argument, castRoute]
    | integer _ => simp [argument, castRoute]
    | other => simp [argument, castRoute]
    | null =>
      simp only [argument, castRoute, List.getElem?_cons_zero, pure_bind]
      by_cases hl : s.locked
      · rw [exec_bind_error (exec_lock_held hl)]
        simp
      · rw [Bool.not_eq_true] at hl
        rw [exec_bind_ok (exec_lock_free hl), exec_bind_ok (exec_get _)]
        cases Commands.maxRoute s.cache.data with
        | none =>
          dsimp only
          rw [unlock_routes]
          simp
        | some max => simp [deref]
    | route route =>
      simp only [argument, castRoute, List.getElem?_cons_zero, pure_bind]
      by_cases hl : s.locked
      · rw [exec_bind_error (exec_lock_held hl)]
        simp [hl]
      · rw [Bool.not_eq_true] at hl
        rw [exec_bind_ok (exec_lock_free hl), exec_bind_ok (exec_get _)]
        cases Commands.maxRoute s.cache.data with
        | none =>
          dsimp only
          rw [unlock_routes]
          simp
        | some max =>
          simp only [deref, pure_bind, Option.bind_some]
          by_cases hc : 0 < route.compareTo max
          · by_cases hf : s.world.fails s.tick
            · simp [finish_routes, addNewRoute_routes, hf, hc]
            · simp [finish_routes, addNewRoute_routes, hf, hc, hl, hh]
          · rw [if_neg hc, unlock_routes]
            simp [hc]

/-! ### Requests -/

/-- The table after a request of one of the two commands that insert. -/
theorem execute_inserts {s : Server D} {r : Request D} (hh : s.halted = false)
    (hi : r.command = .ADD ∨ r.command = .ADD_IF_MAX) :
    (exec r.execute s).2.routes = s.routes ++ (inserted s r).toList := by
  obtain ⟨command, arguments, user⟩ := r
  rcases hi with rfl | rfl
  · exact add_routes arguments user s hh
  · exact addIfMax_routes arguments user s hh

theorem inserted_eq_none {s : Server D} {r : Request D}
    (hi : ¬ (r.command = .ADD ∨ r.command = .ADD_IF_MAX)) : inserted s r = none := by
  obtain ⟨command, arguments, user⟩ := r
  unfold inserted
  cases command <;> simp at hi ⊢

theorem inserted_owner {s : Server D} {r : Request D} {row : Row D} (h : inserted s r = some row) :
    row.owner = r.user.user := by
  unfold inserted at h
  split_ifs at h
  split at h
  · cases h
    rfl
  · obtain ⟨max, -, h⟩ := Option.bind_eq_some_iff.mp h
    split_ifs at h
    cases h
    rfl
  · cases h

/-- A request touches rows of an owner without his password only by inserting one. -/
theorem request_authorised_iff (s : Server D) (r : Request D) :
    Authorised s (.request r) ↔ InsertsAuthorised s (.request r) := by
  by_cases hh : s.halted
  · simp [Authorised, InsertsAuthorised, step, inserted, hh]
  rw [Bool.not_eq_true] at hh
  have hstep := step_request hh r
  constructor
  · intro h hins
    obtain ⟨row, hrow⟩ := Option.isSome_iff_exists.mp hins
    have hi : r.command = .ADD ∨ r.command = .ADD_IF_MAX := by
      by_contra hi
      rw [inserted_eq_none hi] at hrow
      cases hrow
    have hne : rowsOf (step s (.request r)) r.user.user ≠ rowsOf s r.user.user := by
      rw [hstep, rowsOf, execute_inserts hh hi, hrow]
      simp [rowsOf, inserted_owner hrow]
    obtain ⟨r', hr', -, hc⟩ := h r.user.user hne
    cases hr'
    exact hc
  · intro h owner hne
    have howner : owner = r.user.user := by
      by_contra howner
      apply hne
      rw [hstep]
      exact execute_foreign s r howner
    refine ⟨r, rfl, howner.symm, ?_⟩
    by_contra hc
    rw [Bool.not_eq_true] at hc
    have hroutes : (exec r.execute s).2.routes = s.routes := by
      by_cases hi : r.command = .ADD ∨ r.command = .ADD_IF_MAX
      · have hnone : inserted s r = none := by
          rw [← Option.not_isSome_iff_eq_none]
          intro hins
          have := h hins
          rw [hc] at this
          cases this
        rw [execute_inserts hh hi, hnone]
        simp
      · exact execute_without_password hc hi
    apply hne
    rw [hstep, rowsOf, hroutes, rowsOf]

theorem authorised_iff (s : Server D) (e : Event D) : Authorised s e ↔ InsertsAuthorised s e := by
  cases e with
  | request r => exact request_authorised_iff s r
  | reload =>
    refine ⟨fun _ => trivial, fun _ owner hne => absurd ?_ hne⟩
    unfold step
    split_ifs
    · rfl
    · have hq : Quiet s (exec reload s).2 := quiet_exec (does_reload fun _ _ h => h) s
      rw [rowsOf, hq.1, rowsOf]
  | accounts userdata => exact ⟨fun _ => trivial, fun _ owner hne => absurd rfl hne⟩

/-- In a run, rows of an owner change only in requests with his name and password,
exactly if nothing is ever inserted without the password. -/
theorem run_authorised_iff (s : Server D) (es : List (Event D)) :
    Along step Authorised s es ↔ Along step InsertsAuthorised s es :=
  along_congr authorised_iff s es

/-- A route is stored for `egg` with a wrong password. -/
theorem add_without_password :
    ¬ Along step Authorised (eggServer [])
      [.request ⟨.ADD, [.route (.atPoint 0 3 4)], ⟨.ofString "egg", .ofString "123456"⟩⟩] := by
  intro h
  have hc := (request_authorised_iff _ _).mp h.1
  simp only [InsertsAuthorised] at hc
  revert hc
  decide +kernel

end Itmo.ProgLab8
