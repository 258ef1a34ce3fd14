import Itmo.ProgLab8.Session

/-! The lock of the commands. Statements that fail are caught and rows of the table
can be read back, so the only exception that can leave a command while it holds
the lock, for a request of the client, is the one of `Integer.decode`: the client
checks an id with `Integer.parseUnsignedInt`, which lets more texts pass. -/

namespace Itmo.ProgLab8

open Lib Action Session

variable {D : Type} [Platform D]

/-! ### Rows that can be read back -/

/-- What the constructors of a route ask of a row. -/
structure Row.Valid (row : Row D) : Prop where
  cX : Platform.le row.cX (Platform.ofInt (-140)) = false
  fromName : row.fromName ≠ []
  name : row.name ≠ []
  distance : Platform.le row.distance (Platform.ofInt 1) = false

theorem Row.valid_ofRoute (id : ℤ) (route : Route D) (owner : JString) :
    (Row.ofRoute id route owner).Valid :=
  ⟨route.coordinates.valid, route.from_.valid, route.validName, route.validDistance⟩

theorem getLong_error {x : D} {e : Throwable} (h : getLong x = .error e) : e = .SQLException := by
  unfold getLong at h
  split at h <;> cases h
  rfl

/-- A valid row can be read, or the driver refuses to convert a column. -/
theorem Row.toRoute_error {row : Row D} (hv : row.Valid) {e : Throwable}
    (h : row.toRoute = .error e) : e = .SQLException := by
  unfold toRoute Coordinates.new First.Location.new Route.new at h
  simp only [hv.cX, hv.fromName, hv.name, hv.distance, ne_eq, not_false_eq_true, and_self,
    dite_true, Except.bind] at h
  cases hz : getLong row.fromZ with
  | error e' =>
    rw [hz] at h
    cases h
    exact getLong_error hz
  | ok fromZ =>
    cases hz' : getLong row.toZ with
    | error e' =>
      rw [hz, hz'] at h
      cases h
      exact getLong_error hz'
    | ok toZ =>
      rw [hz, hz'] at h
      cases h

theorem Row.valid_of_toRoute {row : Row D} {route : Route D} (h : row.toRoute = .ok route) :
    row.Valid := by
  obtain ⟨coordinates, hc, h⟩ := bind_ok h
  obtain ⟨fromZ, -, h⟩ := bind_ok h
  obtain ⟨from_, hf, h⟩ := bind_ok h
  obtain ⟨toZ, -, h⟩ := bind_ok h
  unfold Coordinates.new at hc
  unfold First.Location.new at hf
  unfold Route.new at h
  split_ifs at hc hf h with h₁ h₂ h₃
  exact ⟨h₁, h₂, h₃.1, h₃.2⟩

theorem getRoutes_error {rows : List (Row D)} (hv : ∀ row ∈ rows, row.Valid) {e : Throwable}
    (h : getRoutes rows = .error e) : e = .SQLException := by
  induction rows with
  | nil => cases h
  | cons row rows ih =>
    rw [List.forall_mem_cons] at hv
    unfold getRoutes at h
    cases hr : row.toRoute with
    | error e' =>
      rw [hr] at h
      cases h
      exact Row.toRoute_error hv.1 hr
    | ok route =>
      cases hrs : getRoutes rows with
      | error e' =>
        rw [hr, hrs] at h
        cases h
        exact ih hv.2 hrs
      | ok data =>
        rw [hr, hrs] at h
        cases h

theorem valid_of_getRoutes {rows : List (Row D)} {data : List (Route D)}
    (h : getRoutes rows = .ok data) : ∀ row ∈ rows, row.Valid := by
  induction rows generalizing data with
  | nil => simp
  | cons row rows ih =>
    obtain ⟨route, hr, h⟩ := bind_ok h
    obtain ⟨data', hrs, -⟩ := bind_ok h
    rw [List.forall_mem_cons]
    exact ⟨Row.valid_of_toRoute hr, ih hrs⟩

/-! ### Normal returns -/

/-- The server runs, can read its table, and the lock is held or not. -/
structure Ready (held : Bool) (s : Server D) : Prop where
  locked : s.locked = held
  halted : s.halted = false
  valid : ∀ row ∈ s.routes, row.Valid

theorem returns_lock : Returns (Ready false) (Ready true) (lock : ServerAction D Unit) :=
  fun _ h => ⟨(), _, exec_lock_free h.locked, rfl, h.halted, h.valid⟩

theorem returns_unlock {held : Bool} :
    Returns (Ready held) (Ready false) (unlock : ServerAction D Unit) :=
  returns_modify fun _ h => ⟨rfl, h.halted, h.valid⟩

theorem returns_updateCollection {held : Bool} :
    Returns (Ready held) (Ready held) (updateCollection : ServerAction D Unit) := by
  intro s h
  have hnext : Ready held s.next := ⟨h.locked, h.halted, h.valid⟩
  unfold updateCollection
  have hexec := DatabaseWorker.exec_getAllRoutes s
  by_cases hf : s.world.fails s.tick
  · rw [if_pos hf] at hexec
    exact ⟨(), s.next, exec_orOnSQLException_error (exec_bind_error hexec), hnext⟩
  · rw [if_neg hf] at hexec
    cases hr : getRoutes s.routes with
    | error e =>
      obtain rfl := getRoutes_error h.valid hr
      rw [hr] at hexec
      exact ⟨(), s.next, exec_orOnSQLException_error (exec_bind_error hexec), hnext⟩
    | ok data =>
      rw [hr] at hexec
      exact ⟨(), _, exec_orOnSQLException_ok (exec_bind_ok hexec), h.locked, h.halted, h.valid⟩

theorem returns_addNewRoute {held : Bool} (route : Route D) (user : User) :
    Returns (Ready held) (Ready held) (DatabaseWorker.addNewRoute (some route) user) := by
  intro s h
  rw [DatabaseWorker.exec_addNewRoute]
  split_ifs
  · exact ⟨_, _, rfl, h.locked, h.halted, h.valid⟩
  · refine ⟨_, _, rfl, h.locked, h.halted, ?_⟩
    intro row hrow
    rcases List.mem_append.mp hrow with hrow | hrow
    · exact h.valid row hrow
    · rw [List.mem_singleton.mp hrow]
      exact Row.valid_ofRoute _ _ _

theorem returns_updateById {held : Bool} (route : Route D) (id : ℤ) (user : User) :
    Returns (Ready held) (Ready held) (DatabaseWorker.updateById (some route) (some id) user) := by
  intro s h
  rw [DatabaseWorker.exec_updateById]
  dsimp only
  split_ifs
  · exact ⟨_, _, rfl, h.locked, h.halted, h.valid⟩
  · refine ⟨_, _, rfl, h.locked, h.halted, ?_⟩
    intro row hrow
    obtain ⟨old, hold, rfl⟩ := List.mem_map.mp hrow
    split_ifs
    · exact Row.valid_ofRoute _ _ _
    · exact h.valid old hold

theorem returns_deleteWhere {held : Bool} (p : Row D → Bool) (user : User) :
    Returns (Ready held) (Ready held) (DatabaseWorker.deleteWhere p user) := by
  intro s h
  rw [DatabaseWorker.exec_deleteWhere]
  split_ifs
  · exact ⟨_, _, rfl, h.locked, h.halted, h.valid⟩
  · exact ⟨_, _, rfl, h.locked, h.halted, fun row hrow => h.valid row (List.mem_of_mem_filter hrow)⟩

/-- A statement that returns, and what follows it: the lock is free again. -/
theorem returns_finish {statement : ServerAction D Bool}
    (h : Returns (Ready true) (Ready true) statement) (a b : String) :
    Returns (Ready true) (Ready false) (finish statement a b) := by
  refine h.bind fun ok => ?_
  cases ok with
  | false => exact returns_unlock.bind fun _ => returns_pure _
  | true => exact returns_updateCollection.bind fun _ => returns_unlock.bind fun _ => returns_pure _

theorem returns_removeAll (newData : List (Route D)) (user : User) :
    Returns (Ready true) (Ready true) (Commands.removeAll newData user) := by
  refine returns_forM (fun route => ?_) newData
  refine (returns_deleteWhere _ user).bind fun ok => ?_
  cases ok with
  | false => exact returns_pure _
  | true => exact returns_updateCollection

/-! ### Requests of the client -/

/-- The requests that `CommandWorker.createRequest` and the windows of the client
make: routes come from a constructor, ids and distances have passed a reader. -/
inductive Validated : CommandList → List (Object D) → Prop
  | plain (c : CommandList)
      (h : c ∈ [.HELP, .INFO, .SHOW, .CLEAR, .GET_LAST_UPDATE, .GET_DATA]) : Validated c []
  | route (c : CommandList) (h : c ∈ [.ADD, .ADD_IF_MAX, .REMOVE_GREATER, .REMOVE_LOWER])
      (route : Route D) : Validated c [.route route]
  | update (route : Route D) (id : ℤ) : Validated .UPDATE [.route route, .integer id]
  | removeById (id : JString) (rest : List JString) (h : (Integer.parseUnsignedInt id).isSome) :
      Validated .REMOVE_BY_ID (.string id :: rest.map .string)
  | removeAnyByDistance (distance : JString) (rest : List JString)
      (h : (Platform.parseDouble distance : Option D).isSome) :
      Validated .REMOVE_ANY_BY_DISTANCE (.string distance :: rest.map .string)
  | filter (c : CommandList) (h : c ∈ [.FILTER_CONTAINS_NAME, .FILTER_STARTS_WITH_NAME])
      (name : JString) (rest : List JString) : Validated c (.string name :: rest.map .string)
  | checkId (id : ℤ) : Validated .CHECK_ID [.integer id]

section Commands

variable {user : User}

theorem argument_route (route : Route D) (rest : List (Object D)) :
    (argument (.route route :: rest) 0 >>= castRoute) = pure (some route) := rfl

theorem argument_string (s : JString) (rest : List (Object D)) :
    (argument (.string s :: rest) 0 >>= castString >>= deref) = pure s := rfl

theorem returns_add (route : Route D) :
    Returns (Ready false) (Ready false) (Commands.add [.route route] user) := by
  unfold Commands.add
  simp only [argument_route, pure_bind]
  exact returns_lock.bind fun _ => returns_finish (returns_addNewRoute route user) _ _

theorem returns_update (route : Route D) (id : ℤ) :
    Returns (Ready false) (Ready false) (Commands.update [.route route, .integer id] user) := by
  have harg : (argument [.route route, .integer id] 1 >>= castInteger) =
      (pure (some id) : ServerAction D (Option ℤ)) := rfl
  unfold Commands.update
  simp only [argument_route, harg, pure_bind]
  exact returns_lock.bind fun _ => returns_finish (returns_updateById route id user) _ _

theorem returns_removeById {nm : JString} {id : ℤ} (rest : List (Object D))
    (h : Integer.decode nm = some id) :
    Returns (Ready false) (Ready false) (Commands.removeById (.string nm :: rest) user) := by
  unfold Commands.removeById
  simp only [argument_string, h, orNumberFormatException, pure_bind]
  exact returns_lock.bind fun _ => returns_finish (returns_deleteWhere _ user) _ _

theorem returns_clear :
    Returns (Ready false) (Ready false) (Commands.clear user : ServerAction D (Answer D)) :=
  returns_lock.bind fun _ => returns_finish (returns_deleteWhere _ user) _ _

theorem returns_addIfMax (route : Route D) :
    Returns (Ready false) (Ready false) (Commands.addIfMax [.route route] user) := by
  unfold Commands.addIfMax
  simp only [argument_route, deref, pure_bind]
  refine returns_lock.bind fun _ => returns_get.bind fun s => ?_
  split
  · split_ifs
    · exact returns_finish (returns_addNewRoute route user) _ _
    · exact returns_unlock.bind fun _ => returns_pure _
  · exact returns_unlock.bind fun _ => returns_pure _

theorem returns_removeCompared (select : ℤ → Bool) (answer : String) (route : Route D) :
    Returns (Ready false) (Ready false)
      (Commands.removeCompared select answer [.route route] user) := by
  unfold Commands.removeCompared
  simp only [argument_route, Commands.compared, pure_bind]
  exact returns_get.bind fun s => returns_lock.bind fun _ =>
    (returns_removeAll _ user).bind fun _ => returns_unlock.bind fun _ => returns_pure _

theorem returns_removeAnyByDistance {distance : JString} {d : D} (rest : List (Object D))
    (h : Platform.parseDouble distance = some d) :
    Returns (Ready false) (Ready false)
      (Commands.removeAnyByDistance (.string distance :: rest) user) := by
  unfold Commands.removeAnyByDistance
  simp only [argument_string, h, orNumberFormatException, pure_bind]
  refine returns_get.bind fun s => returns_lock.bind fun _ => ?_
  split
  · exact returns_finish (returns_deleteWhere _ user) _ _
  · exact returns_unlock.bind fun _ => returns_pure _

theorem returns_filterName (p : JString → JString → Bool) (name : JString)
    (rest : List (Object D)) :
    Returns (Ready false) (Ready false) (Commands.filterName p (.string name :: rest)) := by
  unfold Commands.filterName
  simp only [argument_string, pure_bind]
  refine returns_get.bind fun s => ?_
  split_ifs <;> exact returns_pure _

/-- `checkId` never takes the lock, whatever it answers. -/
theorem exec_checkId (id : ℤ) (s : Server D) :
    (exec (Commands.checkId [.integer id] user) s).1 ≠ .error .blocked ∧
      (exec (Commands.checkId [.integer id] user) s).2 = s := by
  unfold Commands.checkId
  rw [exec_bind_ok (exec_get s)]
  split_ifs
  · simp
  · simp only [argument, List.getElem?_cons_zero, pure_bind]
    split_ifs <;> simp

/-- The exception of `Integer.decode` leaves the lock held. -/
theorem exec_removeById_undecodable {nm : JString} (rest : List (Object D)) {s : Server D}
    (hs : s.locked = false) (h : Integer.decode nm = none) :
    exec (Commands.removeById (.string nm :: rest) user) s =
      (.error .NumberFormatException, { s with locked := true }) := by
  unfold Commands.removeById
  rw [exec_bind_ok (exec_lock_free hs)]
  simp only [argument_string, h, orNumberFormatException, pure_bind]
  exact exec_bind_error (exec_throw _ _)

end Commands

/-- The request ends, and the lock is free. -/
def Handled (s : Server D) (r : Request D) : Prop :=
  (exec r.execute s).1 ≠ .error .blocked ∧ Ready false (exec r.execute s).2

theorem handled_of_returns {s : Server D} {r : Request D} (hs : Ready false s)
    (h : Returns (Ready false) (Ready false) r.execute) : Handled s r := by
  obtain ⟨a, s', hexec, hs'⟩ := h s hs
  unfold Handled
  rw [hexec]
  exact ⟨by simp, hs'⟩

/-- The id of a `remove_by_id`, if there is one, is one that the server can read. -/
def Decodes : Event D → Prop
  | .request ⟨.REMOVE_BY_ID, .string id :: _, _⟩ => (Integer.decode id).isSome
  | _ => True

/-- A request of the client that the server can read. -/
theorem handled_of_validated {s : Server D} (hs : Ready false s) {command : CommandList}
    {arguments : List (Object D)} {user : User} (hv : Validated command arguments)
    (hd : Decodes (.request ⟨command, arguments, user⟩)) :
    Handled s ⟨command, arguments, user⟩ := by
  cases hv with
  | plain _ h =>
    apply handled_of_returns hs
    unfold Request.execute CommandList.getExecutableCommand
    simp only [List.mem_cons, List.not_mem_nil, or_false] at h
    rcases h with rfl | rfl | rfl | rfl | rfl | rfl
    · exact returns_pure (Answer.text "help")
    · exact returns_get.bind fun _ => returns_pure _
    · exact returns_get.bind fun _ => returns_pure _
    · exact returns_clear
    · exact returns_get.bind fun _ => returns_pure _
    · exact returns_get.bind fun _ => returns_pure _
  | route _ h route =>
    apply handled_of_returns hs
    unfold Request.execute CommandList.getExecutableCommand
    simp only [List.mem_cons, List.not_mem_nil, or_false] at h
    rcases h with rfl | rfl | rfl | rfl
    · exact returns_add route
    · exact returns_addIfMax route
    · exact returns_removeCompared _ _ route
    · exact returns_removeCompared _ _ route
  | update route id => exact handled_of_returns hs (returns_update route id)
  | removeById nm rest h =>
    obtain ⟨id, hid⟩ := Option.isSome_iff_exists.mp hd
    exact handled_of_returns hs (returns_removeById _ hid)
  | removeAnyByDistance distance rest h =>
    obtain ⟨d, hd⟩ := Option.isSome_iff_exists.mp h
    exact handled_of_returns hs (returns_removeAnyByDistance _ hd)
  | filter _ h name rest =>
    apply handled_of_returns hs
    unfold Request.execute CommandList.getExecutableCommand
    simp only [List.mem_cons, List.not_mem_nil, or_false] at h
    rcases h with rfl | rfl
    · exact returns_filterName _ name _
    · exact returns_filterName _ name _
  | checkId id =>
    refine ⟨(exec_checkId id s).1, ?_⟩
    have hs' : (exec (Request.execute ⟨.CHECK_ID, [.integer id], user⟩) s).2 = s :=
      (exec_checkId id s).2
    rw [hs']
    exact hs

/-! ### Runs -/

/-- Events whose requests are made by the client. -/
def FromClient : Event D → Prop
  | .request r => Validated r.command r.arguments
  | _ => True

/-- The event does not wait for the lock forever, and leaves it free. -/
def LockFree (s : Server D) (e : Event D) : Prop :=
  (∀ r, e = .request r → (exec r.execute s).1 ≠ .error .blocked) ∧ (step s e).locked = false

/-- A server that has started has read all its rows. -/
theorem ready_start {world : World} {routes : List (Row D)} {serial : ℤ}
    {userdata : List UserRow} {s : Server D} (h : start world routes serial userdata = .ok s) :
    Ready false s := by
  unfold start reload at h
  dsimp only at h
  rw [exec_bind, DatabaseWorker.exec_getAllRoutes] at h
  split_ifs at h
  cases hr : getRoutes routes with
  | error e =>
    rw [hr] at h
    cases h
  | ok data =>
    rw [hr] at h
    cases h
    exact ⟨rfl, rfl, valid_of_getRoutes hr⟩

theorem ready_reload {s : Server D} (hs : Ready false s) : Ready false (exec reload s).2 := by
  unfold reload
  rw [exec_bind, DatabaseWorker.exec_getAllRoutes]
  split_ifs
  · exact ⟨hs.locked, hs.halted, hs.valid⟩
  · cases getRoutes s.routes with
    | error e => exact ⟨hs.locked, hs.halted, hs.valid⟩
    | ok data => exact ⟨hs.locked, hs.halted, hs.valid⟩

theorem step_ready {s : Server D} (hs : Ready false s) {e : Event D} (hv : FromClient e)
    (hd : Decodes e) : LockFree s e ∧ Ready false (step s e) := by
  cases e with
  | request r =>
    have h : Handled s r := handled_of_validated hs hv hd
    have hstep := step_request hs.halted r
    refine ⟨⟨?_, ?_⟩, ?_⟩
    · intro r' hr'
      cases hr'
      exact h.1
    · rw [hstep]
      exact h.2.locked
    · rw [hstep]
      exact h.2
  | reload =>
    have h := ready_reload hs
    rw [← step_reload hs.halted] at h
    exact ⟨⟨nofun, h.locked⟩, h⟩
  | accounts userdata =>
    exact ⟨⟨nofun, hs.locked⟩, hs.locked, hs.halted, hs.valid⟩

/-- An id that only the client can read. -/
theorem step_locked {s : Server D} (hs : Ready false s) {e : Event D} (hd : ¬ Decodes e) :
    (step s e).locked = true := by
  unfold Decodes at hd
  split at hd
  · rename_i id rest user
    rw [Option.not_isSome_iff_eq_none] at hd
    have hexec : exec (Request.execute ⟨.REMOVE_BY_ID, .string id :: rest, user⟩) s = _ :=
      exec_removeById_undecodable rest hs.locked hd
    rw [step_request hs.halted, hexec]
  · exact absurd trivial hd

/-- In every run of client requests on a server that has started, the lock is free
after each of them, exactly if the server can read every id. -/
theorem lock_free_iff {world : World} {routes : List (Row D)} {serial : ℤ}
    {userdata : List UserRow} {s : Server D} (h : start world routes serial userdata = .ok s)
    (es : List (Event D)) (hv : ∀ e ∈ es, FromClient e) :
    Along step LockFree s es ↔ ∀ e ∈ es, Decodes e := by
  have hs : Ready false s := ready_start h
  clear h
  induction es generalizing s with
  | nil => simp
  | cons e es ih =>
    rw [List.forall_mem_cons] at hv
    rw [along_cons, List.forall_mem_cons]
    by_cases hd : Decodes e
    · have hstep := step_ready hs hv.1 hd
      have htail : Along step LockFree (step s e) es ↔ ∀ e ∈ es, Decodes e := ih hv.2 hstep.2
      rw [htail]
      simp [hd, hstep.1]
    · have hlocked : ¬ LockFree s e := by
        intro hfree
        have hl := hfree.2
        rw [step_locked hs hd] at hl
        cases hl
      simp [hd, hlocked]

/-- A route is added, removed by its id, and the user's routes are cleared. -/
theorem lock_free_iff_run :
    ∃ s : Server ℤ, start ⟨fun _ => false, fun n => n⟩ [] 1 [] = .ok s ∧
      Along step LockFree s [.request ⟨.ADD, [.route (.atPoint 0 3 4)], egg⟩,
        .request ⟨.REMOVE_BY_ID, [.string (.ofString "1")], egg⟩, .reload,
        .request ⟨.CLEAR, [], egg⟩] := by
  obtain ⟨s, hs⟩ : ∃ s : Server ℤ, start ⟨fun _ => false, fun n => n⟩ [] 1 [] = .ok s := ⟨_, rfl⟩
  refine ⟨s, hs, (lock_free_iff hs _ ?_).mpr ?_⟩
  · simp only [List.forall_mem_cons, List.not_mem_nil, false_implies, implies_true, and_true]
    exact ⟨.route _ (by decide) _, .removeById _ [] (by decide), trivial, .plain _ (by decide)⟩
  · simp only [List.forall_mem_cons, List.not_mem_nil, false_implies, implies_true, and_true]
    have hid : (Integer.decode (.ofString "1")).isSome := by decide
    exact ⟨trivial, hid, trivial, trivial⟩

/-- `08` is an id for the client and not for the server. -/
theorem lock_leaks :
    FromClient (.request ⟨.REMOVE_BY_ID, [.string (.ofString "08")], egg⟩ : Event ℤ) ∧
      ∃ s : Server ℤ, start ⟨fun _ => false, fun n => n⟩ [] 1 [] = .ok s ∧
        ¬ Along step LockFree s [.request ⟨.REMOVE_BY_ID, [.string (.ofString "08")], egg⟩] := by
  obtain ⟨s, hs⟩ : ∃ s : Server ℤ, start ⟨fun _ => false, fun n => n⟩ [] 1 [] = .ok s := ⟨_, rfl⟩
  refine ⟨.removeById _ [] (by decide), s, hs, ?_⟩
  intro h
  have hl := h.1.2
  rw [step_locked (ready_start hs) (by unfold Decodes; decide)] at hl
  cases hl

end Itmo.ProgLab8
