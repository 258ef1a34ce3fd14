import Itmo.Lib.Action
import Itmo.Lib.Table
import Itmo.ProgLab8.RouteCollection

/-! The state of the server and the statements it sends to its database. Every
statement may fail, and then does nothing; which of them fail, and what the clock
shows, is fixed in advance by a `World` and indexed by a running number, so that
a computation is a function and a claim about every failure is one about every
world. -/

namespace Itmo.ProgLab8

open Lib

/-! ### State -/

/-- The name and the password that come with a request. -/
structure User where
  user : JString
  password : JString
  deriving DecidableEq

/-- A row of `routes`. -/
structure Row (D : Type) where
  id : ℤ
  name : JString
  cX : D
  cY : ℤ
  creationDate : ℤ
  fromX : D
  fromY : ℤ
  fromZ : D
  fromName : JString
  toX : ℤ
  toY : ℤ
  toZ : D
  distance : D
  owner : JString
  deriving DecidableEq

/-- A row of `userdata`; its password is a digest. -/
structure UserRow where
  owner : JString
  password : JString
  deriving DecidableEq

/-- Which statements fail, and what the clock shows, at each running number. -/
structure World where
  fails : ℕ → Bool
  now : ℕ → ℤ

/-- The database, the cached collection, and whether `Commands.lock` is held. -/
structure Server (D : Type) [Platform D] where
  routes : List (Row D)
  serial : ℤ
  userdata : List UserRow
  cache : RouteCollection D
  locked : Bool
  halted : Bool
  world : World
  tick : ℕ

abbrev ServerAction (D : Type) [Platform D] (α : Type) := Action (Server D) Throwable α

variable {D : Type} [Platform D]

/-- `? IN (SELECT password FROM userdata WHERE owner=?)` -/
def Server.credentials (s : Server D) (user : User) : Bool :=
  s.userdata.any fun u => u.owner = user.user ∧ u.password = Platform.hash256 D user.password

/-! ### Rows and routes -/

/-- The columns of a new row. -/
def Row.ofRoute (id : ℤ) (route : Route D) (owner : JString) : Row D where
  id := id
  name := route.name
  cX := route.coordinates.x
  cY := route.coordinates.y
  creationDate := route.creationDate
  fromX := route.from_.x
  fromY := route.from_.y
  fromZ := route.from_.z
  fromName := route.from_.name
  toX := route.to_.x
  toY := route.to_.y
  toZ := route.to_.z
  distance := route.distance
  owner := owner

/-- An update sets every column but `id` and `owner`. -/
def Row.update (route : Route D) (row : Row D) : Row D := .ofRoute row.id route row.owner

/-- `ResultSet.getLong` on a column of real numbers. -/
def getLong (x : D) : Except Throwable ℤ :=
  match Platform.getLong x with
  | some n => .ok n
  | none => .error .SQLException

def Row.toRoute (row : Row D) : Except Throwable (Route D) :=
  (Coordinates.new row.cX row.cY).bind fun coordinates =>
    (getLong row.fromZ).bind fun fromZ =>
      (First.Location.new row.fromX row.fromY (Platform.ofInt fromZ) row.fromName).bind fun from_ =>
        (getLong row.toZ).bind fun toZ =>
          Route.new row.name (Platform.getDate D row.creationDate) coordinates from_
            ⟨row.toX, row.toY, Platform.floatOfLong toZ⟩ row.distance row.id (some row.owner)

def getRoutes : List (Row D) → Except Throwable (List (Route D))
  | [] => .ok []
  | row :: rows =>
    row.toRoute.bind fun route => (getRoutes rows).bind fun data => .ok (route :: data)

theorem Row.toRoute_id {row : Row D} {route : Route D} (h : row.toRoute = .ok route) :
    route.id = row.id := by
  obtain ⟨coordinates, -, h⟩ := bind_ok h
  obtain ⟨fromZ, -, h⟩ := bind_ok h
  obtain ⟨from_, -, h⟩ := bind_ok h
  obtain ⟨toZ, -, h⟩ := bind_ok h
  unfold Route.new at h
  split_ifs at h
  cases h
  rfl

/-- A list of routes read from a table is one of the routes of its rows. -/
theorem getRoutes_ok {rows : List (Row D)} {data : List (Route D)} (h : getRoutes rows = .ok data) :
    List.Forall₂ (fun row route => row.toRoute = .ok route) rows data := by
  induction rows generalizing data with
  | nil =>
    cases h
    exact .nil
  | cons row rows ih =>
    obtain ⟨route, hr, h⟩ := bind_ok h
    obtain ⟨data', hrs, h⟩ := bind_ok h
    cases h
    exact .cons hr (ih hrs)

/-! ### Statements -/

/-- Send a statement, or throw. -/
def executeStatement : ServerAction D Unit := do
  let s ← get
  modify fun s => { s with tick := s.tick + 1 }
  if s.world.fails s.tick then throw .SQLException

/-- A caught `SQLException`; the other exceptions go on. -/
def orOnSQLException {α : Type} (a : α) (x : ServerAction D α) : ServerAction D α :=
  tryCatch x fun e => if e = .SQLException then pure a else throw e

def liftExcept {α : Type} : Except Throwable α → ServerAction D α
  | .ok a => pure a
  | .error e => throw e

/-- An object that a method is called on. -/
def deref {α : Type} : Option α → ServerAction D α
  | some a => pure a
  | none => throw .NullPointerException

namespace DatabaseWorker

def getAllRoutes : ServerAction D (List (Route D)) := do
  executeStatement
  let s ← get
  liftExcept (getRoutes s.routes)

/-- The one statement that does not ask for the password. -/
def addNewRoute (route : Option (Route D)) (user : User) : ServerAction D Bool :=
  orOnSQLException false do
    let route ← deref route
    executeStatement
    modify fun s =>
      { s with routes := s.routes ++ [.ofRoute s.serial route user.user], serial := s.serial + 1 }
    return true

def updateById (route : Option (Route D)) (id : Option ℤ) (user : User) : ServerAction D Bool :=
  orOnSQLException false do
    let route ← deref route
    let id ← deref id
    executeStatement
    let s ← get
    let found := fun row : Row D => s.credentials user && row.id = id && row.owner = user.user
    modify fun s => { s with routes := Table.updated found (Row.update route) s.routes }
    return s.routes.any found

/-- Rows of the user that satisfy `p` are deleted, if the password is right. -/
def deleteWhere (p : Row D → Bool) (user : User) : ServerAction D Bool :=
  orOnSQLException false do
    executeStatement
    modify fun s => { s with
      routes := s.routes.filter fun row => !(p row && s.credentials user && row.owner = user.user) }
    return true

def removeById (id : ℤ) (user : User) : ServerAction D Bool := deleteWhere (·.id = id) user

def clear (user : User) : ServerAction D Bool := deleteWhere (fun _ => true) user

end DatabaseWorker

/-! ### Results -/

open Action

/-- A statement has been sent. -/
def Server.next (s : Server D) : Server D := { s with tick := s.tick + 1 }

theorem exec_executeStatement (s : Server D) :
    exec executeStatement s =
      if s.world.fails s.tick then (.error .SQLException, s.next) else (.ok (), s.next) := by
  unfold executeStatement
  rw [exec_bind_ok (exec_get s), exec_bind_ok (exec_modify _ s)]
  split_ifs <;> rfl

theorem exec_liftExcept {α : Type} (x : Except Throwable α) (s : Server D) :
    exec (liftExcept x) s = (x, s) := by
  cases x <;> rfl

theorem exec_orOnSQLException_ok {α : Type} {a b : α} {x : ServerAction D α} {s s' : Server D}
    (h : exec x s = (.ok b, s')) : exec (orOnSQLException a x) s = (.ok b, s') := by
  unfold orOnSQLException
  exact exec_tryCatch_ok h

theorem exec_orOnSQLException_error {α : Type} {a : α} {x : ServerAction D α} {e : Throwable}
    {s s' : Server D} (h : exec x s = (.error e, s')) :
    exec (orOnSQLException a x) s = (if e = .SQLException then .ok a else .error e, s') := by
  unfold orOnSQLException
  rw [exec_tryCatch_error h]
  split_ifs <;> rfl

theorem exec_orOnSQLException_snd {α : Type} (a : α) (x : ServerAction D α) (s : Server D) :
    (exec (orOnSQLException a x) s).2 = (exec x s).2 := by
  rcases hx : exec x s with ⟨r, s'⟩
  cases r with
  | ok b => rw [exec_orOnSQLException_ok hx]
  | error e => rw [exec_orOnSQLException_error hx]

/-- What is done behind a statement, if it does not fail. -/
theorem exec_orOnSQLException_statement {α : Type} {a b : α} {x : ServerAction D α}
    {s s' : Server D} (h : exec x s.next = (.ok b, s')) :
    exec (orOnSQLException a (executeStatement >>= fun _ => x)) s =
      if s.world.fails s.tick then (.ok a, s.next) else (.ok b, s') := by
  have hx := exec_executeStatement s
  by_cases hf : s.world.fails s.tick
  · rw [if_pos hf] at hx ⊢
    exact exec_orOnSQLException_error (exec_bind_error hx)
  · rw [if_neg hf] at hx ⊢
    exact exec_orOnSQLException_ok ((exec_bind_ok hx).trans h)

namespace DatabaseWorker

theorem exec_getAllRoutes (s : Server D) :
    exec getAllRoutes s =
      (if s.world.fails s.tick then .error .SQLException else getRoutes s.routes, s.next) := by
  unfold getAllRoutes
  rw [exec_bind, exec_executeStatement]
  split_ifs
  · rfl
  · dsimp only
    rw [exec_bind_ok (exec_get _), exec_liftExcept]
    rfl

theorem exec_addNewRoute_none (user : User) (s : Server D) :
    exec (addNewRoute none user) s = (.error .NullPointerException, s) :=
  exec_orOnSQLException_error rfl

theorem exec_addNewRoute (route : Route D) (user : User) (s : Server D) :
    exec (addNewRoute (some route) user) s =
      if s.world.fails s.tick then (.ok false, s.next)
      else (.ok true, { s.next with
        routes := s.routes ++ [.ofRoute s.serial route user.user], serial := s.serial + 1 }) :=
  exec_orOnSQLException_statement rfl

theorem exec_updateById (route : Route D) (id : ℤ) (user : User) (s : Server D) :
    exec (updateById (some route) (some id) user) s =
      let found := fun row : Row D => s.credentials user && row.id = id && row.owner = user.user
      if s.world.fails s.tick then (.ok false, s.next)
      else (.ok (s.routes.any found),
        { s.next with routes := Table.updated found (Row.update route) s.routes }) :=
  exec_orOnSQLException_statement rfl

theorem exec_deleteWhere (p : Row D → Bool) (user : User) (s : Server D) :
    exec (deleteWhere p user) s =
      if s.world.fails s.tick then (.ok false, s.next)
      else (.ok true, { s.next with
        routes := s.routes.filter fun row =>
          !(p row && s.credentials user && row.owner = user.user) }) :=
  exec_orOnSQLException_statement rfl

end DatabaseWorker

/-! ### Changes -/

/-- Nothing happens to the tables. -/
def Quiet (s s' : Server D) : Prop := s'.routes = s.routes ∧ s'.userdata = s.userdata

/-- What a computation for a user can do to the server at a time; `inserts` says
whether it may insert a row. -/
inductive Change (user : User) (inserts : Prop) : Server D → Server D → Prop
  | quiet (s s' : Server D) (h : Quiet s s') : Change user inserts s s'
  | insert (s : Server D) (route : Route D) (serial : ℤ) (h : inserts) :
      Change user inserts s { s with
        routes := s.routes ++ [.ofRoute s.serial route user.user], serial := serial }
  | update (s : Server D) (route : Route D) (p : Row D → Bool)
      (hp : ∀ row, p row → row.owner = user.user) (hc : s.credentials user) :
      Change user inserts s { s with routes := Table.updated p (Row.update route) s.routes }
  | delete (s : Server D) (p : Row D → Bool) (hp : ∀ row, p row → row.owner = user.user)
      (hc : s.credentials user) :
      Change user inserts s { s with routes := s.routes.filter fun row => !p row }

theorem Quiet.refl (s : Server D) : Quiet s s := ⟨rfl, rfl⟩

theorem Quiet.trans {s₁ s₂ s₃ : Server D} (h : Quiet s₁ s₂) (h' : Quiet s₂ s₃) : Quiet s₁ s₃ :=
  ⟨h'.1.trans h.1, h'.2.trans h.2⟩

/-- Quiet changes, one after the other, are a quiet change. -/
theorem quiet_exec {α : Type} {x : ServerAction D α} (hx : Does Quiet x) (s : Server D) :
    Quiet s (exec x s).2 := hx.preserves (fun _ _ h h₁ => h₁.trans h) (.refl s)

section Does

variable {R : Server D → Server D → Prop} {α : Type}

theorem does_executeStatement (hR : ∀ s s', Quiet s s' → R s s') :
    Does R (executeStatement : ServerAction D Unit) := by
  refine does_get.bind fun s => Does.bind (does_modify fun _ => hR _ _ ⟨rfl, rfl⟩) fun _ => ?_
  split_ifs
  · exact does_throw _
  · exact does_pure _

theorem does_liftExcept (x : Except Throwable α) : Does R (liftExcept x : ServerAction D α) := by
  cases x with
  | ok a => exact does_pure a
  | error e => exact does_throw e

theorem does_deref (x : Option α) : Does R (deref x : ServerAction D α) := by
  cases x with
  | none => exact does_throw _
  | some a => exact does_pure a

theorem does_orOnSQLException {a : α} {x : ServerAction D α} (hx : Does R x) :
    Does R (orOnSQLException a x) := by
  refine hx.tryCatch fun e => ?_
  split_ifs
  · exact does_pure a
  · exact does_throw e

theorem DatabaseWorker.does_getAllRoutes (hR : ∀ s s', Quiet s s' → R s s') :
    Does R (getAllRoutes : ServerAction D (List (Route D))) :=
  (does_executeStatement hR).bind fun _ => does_get.bind fun _ => does_liftExcept _

end Does

namespace DatabaseWorker

variable {user : User} {inserts : Prop}

theorem does_addNewRoute (h : inserts) (route : Option (Route D)) :
    Does (Change user inserts) (addNewRoute route user) :=
  does_orOnSQLException <| (does_deref route).bind fun route =>
    (does_executeStatement .quiet).bind fun _ =>
      (does_modify fun s => .insert s route _ h).bind fun _ => does_pure _

/-- Without the password the statement finds no row. -/
theorem does_updateById (route : Option (Route D)) (id : Option ℤ) :
    Does (Change user inserts) (updateById route id user) := by
  refine does_orOnSQLException <| (does_deref route).bind fun route =>
    (does_deref id).bind fun id => (does_executeStatement .quiet).bind fun _ => ?_
  intro s
  rw [exec_bind_ok (exec_get s), exec_bind_ok (exec_modify _ s), exec_pure]
  apply Relation.ReflTransGen.single
  by_cases hc : s.credentials user
  · exact .update s route _ (fun row h => by simp at h; exact h.2) hc
  · refine .quiet _ _ ⟨?_, rfl⟩
    simp [Table.updated, hc]

theorem does_deleteWhere (p : Row D → Bool) :
    Does (Change user inserts) (deleteWhere p user) := by
  refine does_orOnSQLException <| (does_executeStatement .quiet).bind fun _ =>
    Does.bind (does_modify fun s => ?_) fun _ => does_pure _
  by_cases hc : s.credentials user
  · exact .delete s _ (fun row h => by simp at h; exact h.2) hc
  · refine .quiet _ _ ⟨?_, rfl⟩
    simp [hc]

end DatabaseWorker

end Itmo.ProgLab8
