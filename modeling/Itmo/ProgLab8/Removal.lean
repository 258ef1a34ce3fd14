import Itmo.ProgLab8.CommandLock
import Itmo.ProgLab8.Credentials

/-! What the answer of a removal is worth. A deletion counts as successful when the
statement did not fail, however many rows it deleted; the update of a route, for
comparison, looks at their number. And the route to remove by distance is the
first cached one, whoever owns it. -/

namespace Itmo.ProgLab8

open Lib Action Session

variable {D : Type}

/-! ### Deleting rows -/

/-- From one list of rows to the other exactly one row is gone, one of the user. -/
def RemovedOne (user : User) (rows rows' : List (Row D)) : Prop :=
  ∃ before row after, rows = before ++ row :: after ∧ row.owner = user.user ∧
    rows' = before ++ after

/-- The user has a row with this property. -/
def Owns (rows : List (Row D)) (user : User) (p : Row D → Prop) : Prop :=
  ∃ row ∈ rows, row.owner = user.user ∧ p row

instance (rows : List (Row D)) (user : User) (p : Row D → Prop) [DecidablePred p] :
    Decidable (Owns rows user p) := inferInstanceAs (Decidable (∃ row ∈ rows, _))

/-- What the deletion of an id leaves, with the right password. -/
def remaining (user : User) (id : ℤ) (rows : List (Row D)) : List (Row D) :=
  rows.filter fun row => !(decide (row.id = id) && decide (row.owner = user.user))

variable {user : User} {id : ℤ} {rows : List (Row D)}

theorem not_removedOne_refl : ¬ RemovedOne user rows rows := by
  rintro ⟨before, row, after, h, -, h'⟩
  have hlen := congrArg List.length (h.symm.trans h')
  simp only [List.length_append, List.length_cons] at hlen
  omega

theorem remaining_eq_self (h : ¬ Owns rows user (·.id = id)) : remaining user id rows = rows := by
  rw [remaining, List.filter_eq_self]
  intro row hrow
  have hother : ¬ (row.id = id ∧ row.owner = user.user) := fun hp => h ⟨row, hrow, hp.2, hp.1⟩
  rw [← Bool.decide_and, Bool.not_eq_true', decide_eq_false_iff_not]
  exact hother

/-- Ids are unique, so it deletes the one row with the id, if it is the user's. -/
theorem removedOne_remaining (hids : (rows.map (·.id)).Nodup) (h : Owns rows user (·.id = id)) :
    RemovedOne user rows (remaining user id rows) := by
  obtain ⟨row, hrow, howner, rfl⟩ := h
  obtain ⟨before, after, rfl⟩ := List.append_of_mem hrow
  refine ⟨before, row, after, rfl, howner, ?_⟩
  have hkeep : ∀ rest : List (Row D), (∀ r ∈ rest, r.id ≠ row.id) →
      remaining user row.id rest = rest := by
    intro rest hrest
    apply remaining_eq_self
    rintro ⟨r, hr, -, hid⟩
    exact hrest r hr hid
  rw [List.map_append, List.map_cons, List.nodup_append, List.nodup_cons] at hids
  obtain ⟨-, ⟨hafter, -⟩, hbefore⟩ := hids
  have h₁ := hkeep before fun r hr => hbefore _ (List.mem_map_of_mem hr) _ List.mem_cons_self
  have h₂ := hkeep after fun r hr he => hafter (he ▸ List.mem_map_of_mem hr)
  rw [remaining] at h₁ h₂ ⊢
  rw [List.filter_append, List.filter_cons_of_neg (by simp [howner]), h₁, h₂]

theorem removedOne_remaining_iff (hids : (rows.map (·.id)).Nodup) :
    RemovedOne user rows (remaining user id rows) ↔ Owns rows user (·.id = id) := by
  refine ⟨fun h => ?_, removedOne_remaining hids⟩
  by_contra hno
  rw [remaining_eq_self hno] at h
  exact not_removedOne_refl h

/-! ### The two commands -/

variable [Platform D]

/-- The id that `remove_by_id` reads from its arguments. -/
def idArgument : List (Object D) → Option ℤ
  | .string nm :: _ => Integer.decode nm
  | _ => none

/-- The distance that `remove_any_by_distance` reads from its arguments. -/
def distanceArgument : List (Object D) → Option D
  | .string text :: _ => Platform.parseDouble text
  | _ => none

/-- The cached route that `remove_any_by_distance` chooses. -/
def candidate (s : Server D) (d : D) : Option (Route D) :=
  s.cache.data.find? fun n => Platform.equals d n.distance

/-- The request is answered with this text. -/
def AnswersText (s : Server D) (r : Request D) (text : String) : Prop :=
  (exec r.execute s).1 = .ok (.text text)

/-- The row of the user with this id is deleted if the statement does not fail. -/
theorem delete_routes {s : Server D} (hc : s.credentials user) (id : ℤ) (a b : String) :
    (exec (finish (DatabaseWorker.removeById id user) a b) s).2.routes =
      if s.world.fails s.tick then s.routes else remaining user id s.routes := by
  rw [finish_routes, DatabaseWorker.removeById, DatabaseWorker.exec_deleteWhere]
  split_ifs
  · rfl
  · simp only [hc, Bool.and_true, remaining]

/-- Success is the absence of an exception. -/
theorem delete_answer {held : Bool} {s : Server D} (hs : Ready held s) (user : User) (id : ℤ)
    (a b : String) : (exec (finish (DatabaseWorker.removeById id user) a b) s).1 =
      .ok (.text (if s.world.fails s.tick then b else a)) := by
  obtain ⟨removed, s', hexec, hs'⟩ := returns_deleteWhere (fun row => row.id = id) user s hs
  have hremoved : removed = !s.world.fails s.tick := by
    rw [DatabaseWorker.exec_deleteWhere] at hexec
    cases hf : s.world.fails s.tick <;> rw [hf] at hexec <;> cases hexec <;> rfl
  unfold finish
  rw [DatabaseWorker.removeById, exec_bind_ok hexec]
  cases hf : s.world.fails s.tick with
  | true =>
    rw [hremoved, hf]
    rfl
  | false =>
    obtain ⟨_, s'', hupdate, -⟩ := returns_updateCollection s' hs'
    rw [hremoved, hf, Bool.not_false, if_pos rfl, exec_bind_ok hupdate]
    rfl

/-- With an id the command goes to its statement, without one it ends with an
exception before. -/
theorem exec_removeById {s : Server D} (hl : s.locked = false) {arguments : List (Object D)}
    (h : idArgument arguments = some id) : exec (Commands.removeById arguments user) s =
      exec (finish (DatabaseWorker.removeById id user) "removeIdSuccessful" "removeUnsuccessful")
        { s with locked := true } := by
  unfold idArgument at h
  split at h
  · unfold Commands.removeById
    rw [exec_bind_ok (exec_lock_free hl)]
    simp only [argument_string, h, orNumberFormatException, pure_bind]
  · cases h

theorem exec_removeById_none {s : Server D} (hl : s.locked = false) {arguments : List (Object D)}
    (h : idArgument arguments = none) (user : User) :
    ∃ e, exec (Commands.removeById arguments user) s = (.error e, { s with locked := true }) := by
  unfold Commands.removeById
  rw [exec_bind_ok (exec_lock_free hl)]
  match arguments, h with
  | [], _ => exact ⟨_, rfl⟩
  | .route _ :: _, _ => exact ⟨_, rfl⟩
  | .integer _ :: _, _ => exact ⟨_, rfl⟩
  | .null :: _, _ => exact ⟨_, rfl⟩
  | .other :: _, _ => exact ⟨_, rfl⟩
  | .string nm :: rest, h =>
    have h : Integer.decode nm = none := h
    simp only [argument_string, h, orNumberFormatException, pure_bind]
    exact ⟨_, rfl⟩

/-- With a distance the command deletes the route it chose, if it found one. -/
theorem exec_removeAnyByDistance {s : Server D} (hl : s.locked = false)
    {arguments : List (Object D)} {d : D} (h : distanceArgument arguments = some d) :
    exec (Commands.removeAnyByDistance arguments user) s =
      match candidate s d with
      | some n => exec (finish (DatabaseWorker.removeById n.id user) "removeDistanceSuccessful"
          "removeUnsuccessful") { s with locked := true }
      | none => (.ok (.text "elementNotFound"), { s with locked := false }) := by
  unfold distanceArgument at h
  split at h
  · unfold Commands.removeAnyByDistance candidate
    simp only [argument_string, h, orNumberFormatException, pure_bind]
    rw [exec_bind_ok (exec_get s), exec_bind_ok (exec_lock_free hl)]
    cases s.cache.data.find? fun n => Platform.equals d n.distance <;> rfl
  · cases h

/-! ### What the answers say -/

section Requests

variable (s : Server D) (user : User) (arguments : List (Object D)) (d : D)

/-- `remove_by_id` reports a removal exactly if one row of the user was removed. -/
def RemoveByIdTruthful : Prop :=
  AnswersText s ⟨.REMOVE_BY_ID, arguments, user⟩ "removeIdSuccessful" ↔
    RemovedOne user s.routes (step s (.request ⟨.REMOVE_BY_ID, arguments, user⟩)).routes

/-- `remove_any_by_distance` does so too, and it removes a row exactly if the user
has a route with this distance. -/
def RemoveAnyTruthful : Prop :=
  let rows := (step s (.request ⟨.REMOVE_ANY_BY_DISTANCE, arguments, user⟩)).routes
  (AnswersText s ⟨.REMOVE_ANY_BY_DISTANCE, arguments, user⟩ "removeDistanceSuccessful" ↔
    RemovedOne user s.routes rows) ∧
  (Owns s.routes user (fun row => Platform.equals d row.distance) →
    RemovedOne user s.routes rows) ∧
  (¬ Owns s.routes user (fun row => Platform.equals d row.distance) → rows = s.routes)

/-- The user has the row with the id, or the statement fails. -/
def IdOwned : Prop :=
  ∀ id ∈ idArgument arguments, s.world.fails s.tick = true ∨ Owns s.routes user (·.id = id)

/-- The chosen route is the user's, and he has one with the distance; or nothing is
deleted, and he has none. -/
def DistanceOwned : Prop :=
  match candidate s d, s.world.fails s.tick with
  | some n, false => Owns s.routes user (·.id = n.id) ∧
      Owns s.routes user (fun row => Platform.equals d row.distance)
  | _, _ => ¬ Owns s.routes user (fun row => Platform.equals d row.distance)

end Requests

variable {s : Server D} {arguments : List (Object D)}

theorem removeById_truthful_iff (hs : Ready false s) (hids : (s.routes.map (·.id)).Nodup)
    (hc : s.credentials user) : RemoveByIdTruthful s user arguments ↔ IdOwned s user arguments := by
  have hlocked : Ready true { s with locked := true } := ⟨rfl, hs.halted, hs.valid⟩
  unfold RemoveByIdTruthful AnswersText IdOwned
  rw [step_request hs.halted]
  simp only [Request.execute, CommandList.getExecutableCommand]
  cases hid : idArgument arguments with
  | none =>
    obtain ⟨e, hexec⟩ := exec_removeById_none hs.locked hid user
    rw [hexec]
    refine iff_of_true (iff_of_false nofun not_removedOne_refl) ?_
    intro id hmem
    cases hmem
  | some id =>
    have hroutes := delete_routes (s := { s with locked := true }) hc id "removeIdSuccessful"
      "removeUnsuccessful"
    have hanswer := delete_answer hlocked user id "removeIdSuccessful" "removeUnsuccessful"
    rw [exec_removeById hs.locked hid, hroutes, hanswer]
    dsimp only
    cases hf : s.world.fails s.tick with
    | true =>
      simp [not_removedOne_refl]
    | false =>
      simp [removedOne_remaining_iff hids]

theorem removeAny_truthful_iff (hs : Ready false s) (hids : (s.routes.map (·.id)).Nodup)
    (hc : s.credentials user) {d : D} (hd : distanceArgument arguments = some d) :
    RemoveAnyTruthful s user arguments d ↔ DistanceOwned s user d := by
  have hlocked : Ready true { s with locked := true } := ⟨rfl, hs.halted, hs.valid⟩
  unfold RemoveAnyTruthful AnswersText DistanceOwned
  rw [step_request hs.halted]
  simp only [Request.execute, CommandList.getExecutableCommand]
  rw [exec_removeAnyByDistance hs.locked hd]
  cases candidate s d with
  | none => simp [not_removedOne_refl]
  | some n =>
    have hroutes := delete_routes (s := { s with locked := true }) hc n.id
      "removeDistanceSuccessful" "removeUnsuccessful"
    have hanswer := delete_answer hlocked user n.id "removeDistanceSuccessful"
      "removeUnsuccessful"
    dsimp only
    rw [hroutes, hanswer]
    dsimp only
    cases hf : s.world.fails s.tick with
    | true => simp [not_removedOne_refl]
    | false =>
      by_cases hown : Owns s.routes user (·.id = n.id)
      · have hone := removedOne_remaining hids hown
        have hne : remaining user n.id s.routes ≠ s.routes := by
          intro he
          rw [he] at hone
          exact not_removedOne_refl hone
        simp [hone, hown, hne]
      · simp [remaining_eq_self hown, not_removedOne_refl, hown]

/-- With the right password: when the answer of a removal tells the truth. -/
theorem removal_truthful_iff (hs : Ready false s) (hids : (s.routes.map (·.id)).Nodup)
    (hc : s.credentials user) (arguments : List (Object D)) :
    (RemoveByIdTruthful s user arguments ↔ IdOwned s user arguments) ∧
      ∀ d ∈ distanceArgument arguments,
        (RemoveAnyTruthful s user arguments d ↔ DistanceOwned s user d) :=
  ⟨removeById_truthful_iff hs hids hc, fun _ hd => removeAny_truthful_iff hs hids hc hd⟩

/-- A route of another user and one of `egg`, both of distance 2. -/
def mixedServer : Server ℤ :=
  eggServer [{ Route.atPoint 1 3 4 with owner := some (.ofString "other") }, .atPoint 2 6 8]

theorem mixedServer_ready : Ready false mixedServer :=
  ⟨rfl, rfl, valid_of_getRoutes (rfl : getRoutes mixedServer.routes = .ok mixedServer.cache.data)⟩

/-- The removal of the route `egg` owns is reported as it happens. -/
theorem removal_truthful_own :
    RemoveByIdTruthful mixedServer egg [.string (.ofString "2")] := by
  refine ((removal_truthful_iff mixedServer_ready (by decide) (by decide) _).1).mpr ?_
  intro id hid
  obtain rfl := Option.some.inj hid
  exact .inr ⟨.ofRoute 2 (.atPoint 2 6 8) egg.user, by decide +kernel, by decide, by decide⟩

/-- The removal of a route that does not exist is reported too, and so is that of
the other user's route, while the one of `egg` stays. -/
theorem removal_reported_wrongly : Ready false mixedServer ∧ mixedServer.credentials egg ∧
    ¬ RemoveByIdTruthful mixedServer egg [.string (.ofString "7")] ∧
    ¬ RemoveAnyTruthful mixedServer egg [.string (.ofString "2")] 2 := by
  have hids : (mixedServer.routes.map (·.id)).Nodup := by decide
  have hc : mixedServer.credentials egg = true := by decide
  refine ⟨mixedServer_ready, hc, ?_, ?_⟩
  · rw [removeById_truthful_iff mixedServer_ready hids hc]
    intro h
    exact absurd (h 7 (by decide)) (by decide +kernel)
  · rw [removeAny_truthful_iff mixedServer_ready hids hc (by decide)]
    have hforeign : ¬ Owns mixedServer.routes egg (·.id = 1) := by decide +kernel
    exact fun h => hforeign h.1

end Itmo.ProgLab8
