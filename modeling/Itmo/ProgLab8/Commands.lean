import Itmo.ProgLab8.DatabaseWorker
import Mathlib.Data.List.Infix

/-! The commands of `Commands`. Each mutating command takes and releases one lock
by hand around its statements; an exception between the two leaves the lock held.
Commands that differ only in a statement and their answers are one definition
here, applied to the values of each of them. -/

namespace Itmo.ProgLab8

open Lib Action

variable {D : Type} [Platform D]

/-! ### Arguments and answers -/

/-- What a request can carry as an argument. -/
inductive Object (D : Type) [Platform D] where
  | route (route : Route D)
  | string (s : JString)
  | integer (n : ℤ)
  | null
  | other

/-- What a command returns. A text that lists routes is given by these routes. -/
inductive Answer (D : Type) [Platform D] where
  | text (s : String)
  | shown (routes : List (Route D))
  | data (routes : List (Route D))
  | stamp (lastUpdate : ℤ)

/-- `arguments.get(i)` -/
def argument (arguments : List (Object D)) (i : ℕ) : ServerAction D (Object D) :=
  match arguments[i]? with
  | some o => pure o
  | none => throw .IndexOutOfBoundsException

def castRoute : Object D → ServerAction D (Option (Route D))
  | .route route => pure (some route)
  | .null => pure none
  | _ => throw .ClassCastException

def castInteger : Object D → ServerAction D (Option ℤ)
  | .integer n => pure (some n)
  | .null => pure none
  | _ => throw .ClassCastException

def castString : Object D → ServerAction D (Option JString)
  | .string s => pure (some s)
  | .null => pure none
  | _ => throw .ClassCastException

/-- The result of a reader of numbers. -/
def orNumberFormatException {α : Type} : Option α → ServerAction D α
  | some a => pure a
  | none => throw .NumberFormatException

/-! ### The lock and the cache -/

/-- A lock that is held is never released by another session's thread. -/
def lock : ServerAction D Unit := do
  let s ← get
  if s.locked then throw .blocked else modify fun s => { s with locked := true }

def unlock : ServerAction D Unit := modify fun s => { s with locked := false }

def updateData (newData : List (Route D)) : ServerAction D Unit :=
  modify fun s => { s with cache := s.cache.updateData (s.world.now s.tick) newData }

/-- Bring the cache up to date, if the database answers. -/
def updateCollection : ServerAction D Unit :=
  orOnSQLException () do
    let routes ← DatabaseWorker.getAllRoutes
    updateData routes

/-- The end of a command that holds the lock: the statement, the cache, the lock. -/
def finish (statement : ServerAction D Bool) (successful unsuccessful : String) :
    ServerAction D (Answer D) := do
  if ← statement then
    updateCollection
    unlock
    return .text successful
  else
    unlock
    return .text unsuccessful

namespace Commands

def help : ServerAction D (Answer D) := return .text "help"

def info : ServerAction D (Answer D) := do
  let s ← get
  return .text ("Collection type: java.util.LinkedList\nData type: general.route.Route\n" ++
    "Number of items in the collection: " ++ toString s.cache.data.length)

def «show» : ServerAction D (Answer D) := do
  let s ← get
  return .shown s.cache.data

def add (arguments : List (Object D)) (user : User) : ServerAction D (Answer D) := do
  lock
  let route ← argument arguments 0 >>= castRoute
  finish (DatabaseWorker.addNewRoute route user) "addSuccessful" "addUnsuccessful"

def update (arguments : List (Object D)) (user : User) : ServerAction D (Answer D) := do
  lock
  let route ← argument arguments 0 >>= castRoute
  let id ← argument arguments 1 >>= castInteger
  finish (DatabaseWorker.updateById route id user) "updateIdSuccessful" "updateIdUnsuccessful"

def removeById (arguments : List (Object D)) (user : User) : ServerAction D (Answer D) := do
  lock
  let nm ← argument arguments 0 >>= castString >>= deref
  let id ← orNumberFormatException (Integer.decode nm)
  finish (DatabaseWorker.removeById id user) "removeIdSuccessful" "removeUnsuccessful"

def clear (user : User) : ServerAction D (Answer D) := do
  lock
  finish (DatabaseWorker.clear user) "yourDataRemoved" "removeUnsuccessful"

def exit : ServerAction D (Answer D) := do
  modify fun s => { s with halted := true }
  throw .exit

/-- `stream().max(Route::compareTo)`: of two that compare as equal, the first. -/
def maxRoute : List (Route D) → Option (Route D)
  | [] => none
  | r :: rs => some (rs.foldl (fun a b => if 0 ≤ a.compareTo b then a else b) r)

def addIfMax (arguments : List (Object D)) (user : User) : ServerAction D (Answer D) := do
  let toAddIfMax ← argument arguments 0 >>= castRoute
  lock
  let s ← get
  match maxRoute s.cache.data with
  | some max =>
    let route ← deref toAddIfMax
    if 0 < route.compareTo max then
      finish (DatabaseWorker.addNewRoute route user) "addSuccessful" "addUnsuccessful"
    else
      unlock
      return .text "isNotMax"
  | none =>
    unlock
    return .text "isNotMax"

/-- The cached routes for which a comparison of the argument with them is selected. -/
def compared (select : ℤ → Bool) (forComparison : Option (Route D)) (data : List (Route D)) :
    ServerAction D (List (Route D)) :=
  match forComparison with
  | some route => pure (data.filter fun n => select (route.compareTo n))
  | none => if data.isEmpty then pure [] else throw .NullPointerException

/-- Remove the selected routes one by one. -/
def removeAll (newData : List (Route D)) (user : User) : ServerAction D Unit :=
  newData.forM fun route => do
    if ← DatabaseWorker.removeById route.id user then
      updateCollection

/-- `removeGreater` and `removeLower` -/
def removeCompared (select : ℤ → Bool) (answer : String) (arguments : List (Object D))
    (user : User) : ServerAction D (Answer D) := do
  let forComparison ← argument arguments 0 >>= castRoute
  let s ← get
  let newData ← compared select forComparison s.cache.data
  lock
  removeAll newData user
  unlock
  return .text answer

def removeGreater (arguments : List (Object D)) (user : User) : ServerAction D (Answer D) :=
  removeCompared (0 < ·) "removedGreater" arguments user

def removeLower (arguments : List (Object D)) (user : User) : ServerAction D (Answer D) :=
  removeCompared (· < 0) "removedLower" arguments user

def removeAnyByDistance (arguments : List (Object D)) (user : User) :
    ServerAction D (Answer D) := do
  let text ← argument arguments 0 >>= castString >>= deref
  let distance ← orNumberFormatException (Platform.parseDouble text)
  let s ← get
  let toRemove := s.cache.data.find? fun n => Platform.equals distance n.distance
  lock
  match toRemove with
  | some route =>
    finish (DatabaseWorker.removeById route.id user) "removeDistanceSuccessful" "removeUnsuccessful"
  | none =>
    unlock
    return .text "elementNotFound"

/-- `filterContainsName` and `filterStartsWithName`: the argument is looked at
once for each route, so not at all without routes. -/
def filterName (p : JString → JString → Bool) (arguments : List (Object D)) :
    ServerAction D (Answer D) := do
  let s ← get
  if s.cache.data.isEmpty then
    return .shown []
  else
    let text ← argument arguments 0 >>= castString >>= deref
    return .shown (s.cache.data.filter fun n => p n.name text)

def filterContainsName (arguments : List (Object D)) : ServerAction D (Answer D) :=
  filterName (fun name text => text <:+: name) arguments

def filterStartsWithName (arguments : List (Object D)) : ServerAction D (Answer D) :=
  filterName (fun name text => text <+: name) arguments

def doNothing : ServerAction D (Answer D) := return .text ""

def checkId (arguments : List (Object D)) (user : User) : ServerAction D (Answer D) := do
  let s ← get
  if s.cache.data.isEmpty then
    return .text "FALSE"
  else
    match ← argument arguments 0 with
    | .integer id =>
      let found := s.cache.data.filter (·.id = id)
      if found.any (·.owner.isNone) then
        throw .NullPointerException
      else if found.any (·.owner = some user.user) then
        return .text "TRUE"
      else
        return .text "FALSE"
    | _ => return .text "FALSE"

def getData : ServerAction D (Answer D) := do
  let s ← get
  return .data s.cache.data

def getLastUpdate : ServerAction D (Answer D) := do
  let s ← get
  return .stamp s.cache.lastUpdate

end Commands

/-! ### The table of commands -/

inductive CommandList where
  | HELP
  | INFO
  | SHOW
  | ADD
  | UPDATE
  | REMOVE_BY_ID
  | CLEAR
  | EXECUTE_SCRIPT
  | EXIT
  | ADD_IF_MAX
  | REMOVE_GREATER
  | REMOVE_LOWER
  | REMOVE_ANY_BY_DISTANCE
  | FILTER_CONTAINS_NAME
  | FILTER_STARTS_WITH_NAME
  | NO_COMMAND
  | NEW_USER
  | LOG_IN
  | GET_LAST_UPDATE
  | CHECK_ID
  | GET_DATA
  deriving DecidableEq, Repr

def CommandList.getExecutableCommand (command : CommandList) (arguments : List (Object D))
    (user : User) : ServerAction D (Answer D) :=
  match command with
  | .HELP => Commands.help
  | .INFO => Commands.info
  | .SHOW => Commands.show
  | .ADD => Commands.add arguments user
  | .UPDATE => Commands.update arguments user
  | .REMOVE_BY_ID => Commands.removeById arguments user
  | .CLEAR => Commands.clear user
  | .EXECUTE_SCRIPT | .NO_COMMAND | .NEW_USER | .LOG_IN => Commands.doNothing
  | .EXIT => Commands.exit
  | .ADD_IF_MAX => Commands.addIfMax arguments user
  | .REMOVE_GREATER => Commands.removeGreater arguments user
  | .REMOVE_LOWER => Commands.removeLower arguments user
  | .REMOVE_ANY_BY_DISTANCE => Commands.removeAnyByDistance arguments user
  | .FILTER_CONTAINS_NAME => Commands.filterContainsName arguments
  | .FILTER_STARTS_WITH_NAME => Commands.filterStartsWithName arguments
  | .GET_LAST_UPDATE => Commands.getLastUpdate
  | .CHECK_ID => Commands.checkId arguments user
  | .GET_DATA => Commands.getData

/-! ### Results -/

theorem exec_lock_free {s : Server D} (h : s.locked = false) :
    exec lock s = (.ok (), { s with locked := true }) := by
  unfold lock
  rw [exec_bind_ok (exec_get s), h]
  rfl

theorem exec_lock_held {s : Server D} (h : s.locked = true) :
    exec lock s = (.error .blocked, s) := by
  unfold lock
  rw [exec_bind_ok (exec_get s), h]
  rfl

theorem exec_updateCollection {s : Server D} {data : List (Route D)}
    (hf : s.world.fails s.tick = false) (h : getRoutes s.routes = .ok data) :
    exec updateCollection s =
      (.ok (), { s.next with cache := s.cache.updateData (s.world.now (s.tick + 1)) data }) := by
  have hexec := DatabaseWorker.exec_getAllRoutes s
  rw [hf, h] at hexec
  exact exec_orOnSQLException_ok (exec_bind_ok hexec)

/-! ### Changes -/

section Does

variable {R : Server D → Server D → Prop} {α : Type}

theorem does_argument (arguments : List (Object D)) (i : ℕ) : Does R (argument arguments i) := by
  unfold argument
  split
  · exact does_pure _
  · exact does_throw _

theorem does_castRoute (o : Object D) : Does R (castRoute o) := by
  cases o <;> first | exact does_pure _ | exact does_throw _

theorem does_castInteger (o : Object D) : Does R (castInteger o) := by
  cases o <;> first | exact does_pure _ | exact does_throw _

theorem does_castString (o : Object D) : Does R (castString o) := by
  cases o <;> first | exact does_pure _ | exact does_throw _

theorem does_orNumberFormatException (x : Option α) :
    Does R (orNumberFormatException x : ServerAction D α) := by
  cases x with
  | none => exact does_throw _
  | some a => exact does_pure a

theorem does_compared (select : ℤ → Bool) (forComparison : Option (Route D))
    (data : List (Route D)) : Does R (Commands.compared select forComparison data) := by
  cases forComparison with
  | some route => exact does_pure _
  | none =>
    unfold Commands.compared
    split_ifs
    · exact does_pure _
    · exact does_throw _

variable (hR : ∀ s s', Quiet s s' → R s s')

include hR

theorem does_lock : Does R (lock : ServerAction D Unit) := by
  refine does_get.bind fun s => ?_
  split_ifs
  · exact does_throw _
  · exact does_modify fun _ => hR _ _ ⟨rfl, rfl⟩

theorem does_unlock : Does R (unlock : ServerAction D Unit) :=
  does_modify fun _ => hR _ _ ⟨rfl, rfl⟩

theorem does_updateCollection : Does R (updateCollection : ServerAction D Unit) :=
  does_orOnSQLException <| (DatabaseWorker.does_getAllRoutes hR).bind fun _ =>
    does_modify fun _ => hR _ _ ⟨rfl, rfl⟩

theorem does_finish {statement : ServerAction D Bool} (h : Does R statement) (a b : String) :
    Does R (finish statement a b) := by
  refine h.bind fun ok => ?_
  cases ok with
  | false => exact (does_unlock hR).bind fun _ => does_pure _
  | true =>
    exact (does_updateCollection hR).bind fun _ => (does_unlock hR).bind fun _ => does_pure _

end Does

/-- What the commands of a user are made of, and may do; `inserts` says whether
one of them inserts a row. -/
structure Parts (R : Server D → Server D → Prop) (user : User) (inserts : Prop) : Prop where
  lock : Does R (lock : ServerAction D Unit)
  unlock : Does R (unlock : ServerAction D Unit)
  halt : ∀ s : Server D, R s { s with halted := true }
  add : inserts → ∀ route a b, Does R (finish (DatabaseWorker.addNewRoute route user) a b)
  update : ∀ route id a b, Does R (finish (DatabaseWorker.updateById route id user) a b)
  delete : ∀ p a b, Does R (finish (DatabaseWorker.deleteWhere p user) a b)
  remove : ∀ route : Route D, Does R (DatabaseWorker.removeById route.id user >>= fun removed =>
    if removed then updateCollection else pure ())

namespace Parts

variable {R : Server D → Server D → Prop} {user : User} {inserts : Prop}

theorem does_add (h : Parts R user inserts) (hi : inserts) (arguments : List (Object D)) :
    Does R (Commands.add arguments user) :=
  h.lock.bind fun _ => ((does_argument _ _).bind does_castRoute).bind fun _ => h.add hi _ _ _

theorem does_update (h : Parts R user inserts) (arguments : List (Object D)) :
    Does R (Commands.update arguments user) :=
  h.lock.bind fun _ => ((does_argument _ _).bind does_castRoute).bind fun _ =>
    ((does_argument _ _).bind does_castInteger).bind fun _ => h.update _ _ _ _

theorem does_removeById (h : Parts R user inserts) (arguments : List (Object D)) :
    Does R (Commands.removeById arguments user) :=
  h.lock.bind fun _ => (((does_argument _ _).bind does_castString).bind does_deref).bind fun _ =>
    (does_orNumberFormatException _).bind fun _ => h.delete _ _ _

theorem does_clear (h : Parts R user inserts) :
    Does R (Commands.clear user : ServerAction D (Answer D)) :=
  h.lock.bind fun _ => h.delete _ _ _

theorem does_exit (h : Parts R user inserts) : Does R (Commands.exit : ServerAction D (Answer D)) :=
  Does.bind (does_modify h.halt) fun _ => does_throw _

theorem does_addIfMax (h : Parts R user inserts) (hi : inserts) (arguments : List (Object D)) :
    Does R (Commands.addIfMax arguments user) := by
  refine ((does_argument _ _).bind does_castRoute).bind fun toAddIfMax =>
    h.lock.bind fun _ => does_get.bind fun s => ?_
  cases Commands.maxRoute s.cache.data with
  | none => exact h.unlock.bind fun _ => does_pure _
  | some max =>
    refine (does_deref toAddIfMax).bind fun route => ?_
    split_ifs
    · exact h.add hi _ _ _
    · exact h.unlock.bind fun _ => does_pure _

theorem does_removeCompared (h : Parts R user inserts) (select : ℤ → Bool) (answer : String)
    (arguments : List (Object D)) :
    Does R (Commands.removeCompared select answer arguments user) :=
  ((does_argument _ _).bind does_castRoute).bind fun _ => does_get.bind fun _ =>
    (does_compared _ _ _).bind fun _ => h.lock.bind fun _ =>
      (does_forM _ fun route _ => h.remove route).bind fun _ => h.unlock.bind fun _ => does_pure _

theorem does_removeAnyByDistance (h : Parts R user inserts) (arguments : List (Object D)) :
    Does R (Commands.removeAnyByDistance arguments user) := by
  refine (((does_argument _ _).bind does_castString).bind does_deref).bind fun _ =>
    (does_orNumberFormatException _).bind fun _ => does_get.bind fun s =>
      h.lock.bind fun _ => ?_
  split
  · exact h.delete _ _ _
  · exact h.unlock.bind fun _ => does_pure _

theorem does_filterName (p : JString → JString → Bool) (arguments : List (Object D)) :
    Does R (Commands.filterName p arguments) := by
  refine does_get.bind fun s => ?_
  split_ifs
  · exact does_pure _
  · exact (((does_argument _ _).bind does_castString).bind does_deref).bind fun _ => does_pure _

theorem does_checkId (arguments : List (Object D)) :
    Does R (Commands.checkId arguments user) := by
  refine does_get.bind fun s => ?_
  split_ifs
  · exact does_pure _
  · refine (does_argument _ _).bind fun o => ?_
    split
    · dsimp only
      split_ifs
      · exact does_throw _
      · exact does_pure _
      · exact does_pure _
    · exact does_pure _

theorem does_read (f : Server D → Answer D) :
    Does R (get >>= fun s => pure (f s) : ServerAction D (Answer D)) :=
  does_get.bind fun _ => does_pure _

/-- Every command does only what its parts do. -/
theorem does_getExecutableCommand {command : CommandList}
    (h : Parts R user (command = .ADD ∨ command = .ADD_IF_MAX)) (arguments : List (Object D)) :
    Does R (command.getExecutableCommand arguments user) := by
  unfold CommandList.getExecutableCommand
  cases command with
  | ADD => exact h.does_add (.inl rfl) arguments
  | UPDATE => exact h.does_update arguments
  | REMOVE_BY_ID => exact h.does_removeById arguments
  | CLEAR => exact h.does_clear
  | EXIT => exact h.does_exit
  | ADD_IF_MAX => exact h.does_addIfMax (.inr rfl) arguments
  | REMOVE_GREATER => exact h.does_removeCompared _ _ arguments
  | REMOVE_LOWER => exact h.does_removeCompared _ _ arguments
  | REMOVE_ANY_BY_DISTANCE => exact h.does_removeAnyByDistance arguments
  | FILTER_CONTAINS_NAME => exact does_filterName _ arguments
  | FILTER_STARTS_WITH_NAME => exact does_filterName _ arguments
  | CHECK_ID => exact does_checkId arguments
  | INFO => exact does_read _
  | SHOW => exact does_read _
  | GET_LAST_UPDATE => exact does_read _
  | GET_DATA => exact does_read _
  | HELP => exact does_pure (Answer.text "help")
  | EXECUTE_SCRIPT | NO_COMMAND | NEW_USER | LOG_IN => exact does_pure (Answer.text "")

end Parts

/-- The parts change the tables for their user only. -/
theorem parts_change (user : User) (inserts : Prop) :
    Parts (D := D) (Change user inserts) user inserts where
  lock := does_lock .quiet
  unlock := does_unlock .quiet
  halt _ := .quiet _ _ ⟨rfl, rfl⟩
  add h _ _ _ := does_finish .quiet (DatabaseWorker.does_addNewRoute h _) _ _
  update _ _ _ _ := does_finish .quiet (DatabaseWorker.does_updateById _ _) _ _
  delete _ _ _ := does_finish .quiet (DatabaseWorker.does_deleteWhere _) _ _
  remove _ := by
    refine (DatabaseWorker.does_deleteWhere _).bind fun removed => ?_
    split_ifs
    · exact does_updateCollection .quiet
    · exact does_pure _

/-- Every command changes the tables by changes for its user only, and inserts
rows only if it is one of the two that add. -/
theorem CommandList.does_getExecutableCommand (command : CommandList)
    (arguments : List (Object D)) (user : User) :
    Does (Change user (command = .ADD ∨ command = .ADD_IF_MAX))
      (command.getExecutableCommand arguments user) :=
  (parts_change user _).does_getExecutableCommand arguments

end Itmo.ProgLab8
