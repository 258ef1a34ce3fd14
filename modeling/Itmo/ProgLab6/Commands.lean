import Itmo.ProgLab6.Route
import Itmo.Lib.System
import Mathlib.Data.List.Sort
import Mathlib.Logic.Function.Basic

/-! The commands of the first server and its runs. The server keeps the collection
in memory and executes one request after the other; an exception of a command ends
it. Every client counts the routes it makes, also those whose request is lost on
the way. -/

namespace Itmo.ProgLab6

open Lib ProgLab8

variable {D : Type} [Numbers D]

/-- The collection and the counter of the class `Route` on the server. -/
structure Server (D : Type) [Numbers D] where
  data : List (Route D)
  instances : ℤ

/-! ### Commands -/

namespace Commands

def add (newRoute : Route D) (s : Server D) : Except Throwable (JString × Server D) := do
  let (route, instances) ← Route.new newRoute.name newRoute.coordinates newRoute.from_
    newRoute.to_ newRoute.distance s.instances
  return (.ofString "Новый экземпляр класса успешно добавлен в коллекцию",
    { data := s.data ++ [route], instances })

/-- The id of a text, which is decoded once for each route and so not at all
without routes. -/
def decodeFor (data : List (Route D)) (text : JString) : Except Throwable (Option ℤ) :=
  if data.isEmpty then .ok none
  else match Integer.decode text with
    | none => .error .NumberFormatException
    | some id => .ok (some id)

/-- The old and the new list are compared by identity, and the route of a request
is a new object. -/
def update (newRoute : Route D) (text : JString) (s : Server D) :
    Except Throwable (JString × Server D) := do
  let id ← decodeFor s.data text
  let newData := s.data.map fun r => if some r.id = id then newRoute else r
  let answer :=
    if s.data.all fun r => some r.id ≠ id then .ofString "Объекта с таким id нет"
    else .ofString "Объект с id " ++ text ++ .ofString " успешно изменен"
  return (answer, { s with data := newData })

def removeById (text : JString) (s : Server D) : Except Throwable (JString × Server D) := do
  let id ← decodeFor s.data text
  let newData := s.data.filter fun n => some n.id ≠ id
  let answer :=
    if s.data.length = newData.length then .ofString "Объекта с таким id нет"
    else .ofString "Объект с id " ++ text ++ .ofString " успешно удален"
  return (answer, { s with data := newData })

def clear (s : Server D) : Except Throwable (JString × Server D) :=
  return (.ofString "Коллекция успешно очищена", { s with data := [] })

/-- `stream().max(Route::compareTo)`: of two that compare as equal, the first. -/
def maxRoute : List (Route D) → Option (Route D)
  | [] => none
  | r :: rs => some (rs.foldl (fun a b => if 0 ≤ a.compareTo b then a else b) r)

/-- The test of `addIfMax`. -/
def isMax (route : Route D) (data : List (Route D)) : Bool :=
  (maxRoute data).any fun max => 0 < route.compareTo max

/-- The route of the request itself is added, with the id it brings along. -/
def addIfMax (toAddIfMax : Route D) (s : Server D) : Except Throwable (JString × Server D) :=
  if isMax toAddIfMax s.data then
    return (.ofString "Новый объект успешно добавлен", { s with data := s.data ++ [toAddIfMax] })
  else
    return (.ofString ("Новый объект не больше максимального элемента коллекции, " ++
      "потому не был добавлен"), s)

/-- Keep the routes for which a comparison of the argument with them is selected. -/
def keepCompared (select : ℤ → Bool) (answer : JString) (forComparison : Route D) (s : Server D) :
    Except Throwable (JString × Server D) :=
  return (answer, { s with data := s.data.filter fun n => select (forComparison.compareTo n) })

def removeGreater (forComparison : Route D) (s : Server D) :
    Except Throwable (JString × Server D) :=
  keepCompared (0 < ·) (.ofString "Элементы коллекции, превышающие заданный, успешно удалены")
    forComparison s

def removeLower (forComparison : Route D) (s : Server D) : Except Throwable (JString × Server D) :=
  keepCompared (· < 0) (.ofString "Элементы коллекции, которые меньше заданного, успешно удалены")
    forComparison s

/-- The collection without the first route of a distance, sorted by id. -/
def withoutDistance (distance : D) (data : List (Route D)) : List (Route D) :=
  let predicate (n : Route D) : Bool := Platform.equals n.distance distance
  (data.filter (fun n => !predicate n) ++ (data.filter predicate).drop 1).insertionSort
    fun a b => a.id ≤ b.id

def removeAnyByDistance (text : JString) (s : Server D) : Except Throwable (JString × Server D) :=
  let answer := .ofString ("Первый встречный элемент в коллекции, " ++
    "значение distance которого равно заданному, если таковой был найден, удален")
  if s.data.isEmpty then return (answer, s)
  else match Platform.parseDouble text with
    | none => .error .NumberFormatException
    | some distance => return (answer, { s with data := withoutDistance distance s.data })

end Commands

/-! ### Requests -/

inductive Request (D : Type) [Numbers D] where
  | add (route : Route D)
  | update (route : Route D) (id : JString)
  | removeById (id : JString)
  | clear
  | addIfMax (route : Route D)
  | removeGreater (route : Route D)
  | removeLower (route : Route D)
  | removeAnyByDistance (distance : JString)

def Request.execute : Request D → Server D → Except Throwable (JString × Server D)
  | add route => Commands.add route
  | update route id => Commands.update route id
  | removeById id => Commands.removeById id
  | clear => Commands.clear
  | addIfMax route => Commands.addIfMax route
  | removeGreater route => Commands.removeGreater route
  | removeLower route => Commands.removeLower route
  | removeAnyByDistance distance => Commands.removeAnyByDistance distance

/-- The server after a request; an exception leaves the collection as it was. -/
def Server.after (s : Server D) (request : Request D) : Server D :=
  match request.execute s with
  | .ok (_, s') => s'
  | .error _ => s

/-- The commands for which a client makes a route. -/
inductive RouteCommand where
  | ADD
  | UPDATE (id : JString)
  | ADD_IF_MAX
  | REMOVE_GREATER
  | REMOVE_LOWER

/-- The other commands that change the collection. -/
inductive PlainCommand where
  | REMOVE_BY_ID (id : JString)
  | CLEAR
  | REMOVE_ANY_BY_DISTANCE (distance : JString)

def RouteCommand.request (route : Route D) : RouteCommand → Request D
  | ADD => .add route
  | UPDATE id => .update route id
  | ADD_IF_MAX => .addIfMax route
  | REMOVE_GREATER => .removeGreater route
  | REMOVE_LOWER => .removeLower route

def PlainCommand.request : PlainCommand → Request D
  | REMOVE_BY_ID id => .removeById id
  | CLEAR => .clear
  | REMOVE_ANY_BY_DISTANCE distance => .removeAnyByDistance distance

/-! ### Runs -/

/-- The server and the counters of the clients. -/
structure State (D : Type) [Numbers D] where
  server : Server D
  running : Bool
  clients : ℕ → ℤ

/-- An empty collection, with any counters. -/
def State.empty (instances : ℤ) (clients : ℕ → ℤ) : State D where
  server := { data := [], instances }
  running := true
  clients := clients

inductive Event where
  /-- A client makes a route for a command; its request may not reach the server. -/
  | route (client : ℕ) (lines : Lines) (command : RouteCommand) (sent : Bool)
  | plain (command : PlainCommand)

/-- The request that reaches the server, and the counters after it was made. -/
def arrives (s : State D) : Event → Option (Request D) × (ℕ → ℤ)
  | .route client lines command sent =>
    match CreatingNewInstance.createNewRouteInstance lines (s.clients client) with
    | none => (none, s.clients)
    | some (route, instances) =>
      (if sent then some (command.request route) else none,
        Function.update s.clients client instances)
  | .plain command => (some command.request, s.clients)

/-- A server that an exception has ended executes nothing. -/
def State.step (s : State D) (e : Event) : State D :=
  let (request, clients) := arrives s e
  match request with
  | none => { s with clients }
  | some request =>
    if s.running then
      { server := s.server.after request, running := (request.execute s.server).toBool, clients }
    else { s with clients }

/-! ### The collection after a request -/

namespace Server

theorem after_add (s : Server D) (route : Route D) :
    s.after (.add route) = { data := s.data ++ [{ route with id := nextId s.instances }],
                             instances := nextId s.instances } := by
  unfold after Request.execute Commands.add
  dsimp only
  rw [Route.new_self]
  rfl

theorem after_update (s : Server D) (route : Route D) (text : JString) :
    s.after (.update route text) = { s with
      data := s.data.map fun r => if some r.id = Integer.decode text then route else r } := by
  unfold after Request.execute Commands.update Commands.decodeFor
  obtain ⟨data, instances⟩ := s
  cases data with
  | nil => rfl
  | cons r rs =>
    dsimp only
    cases Integer.decode text with
    | none =>
      -- nothing is replaced, as after the exception
      simp only [reduceCtorEq, if_false, List.map_id']
      rfl
    | some id => rfl

theorem after_removeById (s : Server D) (text : JString) :
    s.after (.removeById text) = { s with
      data := s.data.filter fun n => some n.id ≠ Integer.decode text } := by
  unfold after Request.execute Commands.removeById Commands.decodeFor
  obtain ⟨data, instances⟩ := s
  cases data with
  | nil => rfl
  | cons r rs =>
    dsimp only
    cases Integer.decode text with
    | none =>
      simp only [reduceCtorEq, ne_eq, not_false_eq_true, decide_true, List.filter_true]
      rfl
    | some id => rfl

theorem after_addIfMax (s : Server D) (route : Route D) :
    s.after (.addIfMax route) =
      if Commands.isMax route s.data then { s with data := s.data ++ [route] } else s := by
  unfold after Request.execute Commands.addIfMax
  dsimp only
  split_ifs <;> rfl

/-- What is left after a removal of any distance was there. -/
theorem after_removeAnyByDistance (s : Server D) (text : JString) :
    s.after (.removeAnyByDistance text) = s ∨
      ∃ distance, s.after (.removeAnyByDistance text) =
        { s with data := Commands.withoutDistance distance s.data } := by
  unfold after Request.execute Commands.removeAnyByDistance
  dsimp only
  split_ifs
  · exact Or.inl rfl
  · cases Platform.parseDouble (D := D) text with
    | none => exact Or.inl rfl
    | some distance => exact Or.inr ⟨distance, rfl⟩

end Server

end Itmo.ProgLab6
