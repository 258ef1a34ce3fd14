import Itmo.ProgLab6.RouteOrder
import Itmo.Lib.Action
import Itmo.Lib.Except
import Itmo.Lib.RemoveLoop
import Mathlib.Data.Set.List

/-! The commands of the first server on the list they change in place, with the objects
a request brings along. What a command computes from the list it computes before it
clears it, and what it does after that cannot fail, so an exception leaves the list as it
was. On requests with the arguments of a client the commands are those on values. -/

namespace Itmo.ProgLab6

open Lib ProgLab8 Action

variable {D : Type} [Numbers D]

/-! ### The list and the arguments -/

/-- The list of the server, which may hold null, and the counter of the class `Route`. -/
structure Memory (D : Type) [Numbers D] where
  data : List (Option (Route D))
  instances : ℤ

abbrev MemoryAction (D : Type) [Numbers D] (α : Type) := Action (Memory D) Throwable α

/-- What an argument list can hold. -/
inductive Argument (D : Type) [Numbers D] where
  | route (route : Route D)
  | string (s : JString)
  | null
  | other

/-- `arguments.get(i)` -/
def getArgument (arguments : List (Argument D)) (i : ℕ) : Except Throwable (Argument D) :=
  match arguments[i]? with
  | some o => .ok o
  | none => .error .IndexOutOfBoundsException

/-- `(Route) arguments.get(i)` -/
def getRoute (arguments : List (Argument D)) (i : ℕ) : Except Throwable (Option (Route D)) := do
  match ← getArgument arguments i with
  | .route route => return some route
  | .null => return none
  | _ => .error .ClassCastException

/-- `(String) arguments.get(i)` -/
def getString (arguments : List (Argument D)) (i : ℕ) : Except Throwable (Option JString) := do
  match ← getArgument arguments i with
  | .string s => return some s
  | .null => return none
  | _ => .error .ClassCastException

def orNumberFormat {α : Type} : Option α → Except Throwable α
  | some a => .ok a
  | none => .error .NumberFormatException

/-- `Integer.decode((String) arguments.get(i))` -/
def decodeArgument (arguments : List (Argument D)) (i : ℕ) : Except Throwable ℤ := do
  orNumberFormat (Integer.decode (← nonNull (← getString arguments i)))

@[simp] theorem getRoute_route (route : Route D) (more : List (Argument D)) :
    getRoute (.route route :: more) 0 = .ok (some route) := rfl

@[simp] theorem nonNull_some {α : Type} (a : α) : nonNull (some a) = .ok a := rfl

theorem orNumberFormat_ok {α : Type} {o : Option α} {a : α} (h : orNumberFormat o = .ok a) :
    o = some a := by
  cases o with
  | none => cases h
  | some b =>
    cases h
    rfl

section Texts

variable {arguments : List (Argument D)} {i : ℕ} {text : JString}

theorem getString_string (h : arguments[i]? = some (.string text)) :
    getString arguments i = .ok (some text) := by
  unfold getString getArgument
  rw [h]
  rfl

theorem getString_ok (h : getString arguments i = .ok (some text)) :
    arguments[i]? = some (.string text) := by
  unfold getString getArgument at h
  cases hget : arguments[i]? with
  | none =>
    rw [hget] at h
    cases h
  | some o =>
    rw [hget] at h
    cases o with
    | string s =>
      cases h
      rfl
    | null | route | other => cases h

theorem decodeArgument_string (h : arguments[i]? = some (.string text)) :
    decodeArgument arguments i = orNumberFormat (Integer.decode text) := by
  unfold decodeArgument
  rw [getString_string h]
  rfl

end Texts

def clearData : MemoryAction D Unit := modify fun s => { s with data := [] }

def addAll (routes : List (Option (Route D))) : MemoryAction D Unit :=
  modify fun s => { s with data := s.data ++ routes }

/-! ### Commands -/

namespace MemoryCommands

def add (arguments : List (Argument D)) : MemoryAction D JString := do
  let newRoute ← ofResult (getRoute arguments 0)
  let newRoute ← ofResult (nonNull newRoute)
  let s ← get
  let (route, instances) ← ofResult (Route.new newRoute.name newRoute.coordinates
    newRoute.from_ newRoute.to_ newRoute.distance s.instances)
  modify fun s => { s with instances }
  addAll [some route]
  return .ofString "Новый экземпляр класса успешно добавлен в коллекцию"

/-- An entry of the new list, and whether it is the new route. -/
def replaced (arguments : List (Argument D)) (newRoute : Option (Route D))
    (r : Option (Route D)) : Except Throwable (Bool × Option (Route D)) := do
  let route ← nonNull r
  if route.id = (← decodeArgument arguments 1) then return (true, newRoute)
  else return (false, r)

/-- The answer of a command for an id, whose text is looked up once more. -/
def idAnswer (arguments : List (Argument D)) (i : ℕ) (found : Bool) (done : String) :
    Except Throwable JString := do
  if found then
    let id ← getString arguments i
    return .ofString "Объект с id " ++ id.getD (.ofString "null") ++ .ofString done
  else return .ofString "Объекта с таким id нет"

def update (arguments : List (Argument D)) : MemoryAction D JString := do
  let newRoute ← ofResult (getRoute arguments 0)
  let s ← get
  let newData ← ofResult (s.data.mapM (replaced arguments newRoute))
  let answer ← ofResult (idAnswer arguments 1 (newData.any Prod.fst) " успешно изменен")
  clearData
  addAll (newData.map Prod.snd)
  return answer

/-- The test of `removeById`, for the entries that stay. -/
def otherId (arguments : List (Argument D)) (n : Option (Route D)) : Except Throwable Bool := do
  let route ← nonNull n
  return route.id ≠ (← decodeArgument arguments 0)

def removeById (arguments : List (Argument D)) : MemoryAction D JString := do
  let s ← get
  let newData ← ofResult (filterE (otherId arguments) s.data)
  let answer ← ofResult (idAnswer arguments 0 (s.data.length ≠ newData.length) " успешно удален")
  clearData
  addAll newData
  return answer

def clear : MemoryAction D JString := do
  clearData
  return .ofString "Коллекция успешно очищена"

/-- `data.stream().max(Route::compareTo)` -/
def maxRoute (data : List (Option (Route D))) : Except Throwable (Option (Route D)) := do
  return Commands.maxRoute (← data.mapM nonNull)

def addIfMax (arguments : List (Argument D)) : MemoryAction D JString := do
  let toAddIfMax ← ofResult (getRoute arguments 0)
  let s ← get
  match ← ofResult (maxRoute s.data) with
  | none =>
    return .ofString ("Новый объект не больше максимального элемента коллекции, " ++
      "потому не был добавлен")
  | some max =>
    let route ← ofResult (nonNull toAddIfMax)
    if 0 < route.compareTo max then
      addAll [some route]
      return .ofString "Новый объект успешно добавлен"
    else
      return .ofString ("Новый объект не больше максимального элемента коллекции, " ++
        "потому не был добавлен")

/-- The test of the two removals by a route. -/
def compared (select : ℤ → Bool) (forComparison n : Option (Route D)) :
    Except Throwable Bool := do
  let route ← nonNull forComparison
  return select (route.compareTo (← nonNull n))

def keepCompared (select : ℤ → Bool) (answer : JString) (arguments : List (Argument D)) :
    MemoryAction D JString := do
  let forComparison ← ofResult (getRoute arguments 0)
  let s ← get
  let newData ← ofResult (filterE (compared select forComparison) s.data)
  clearData
  addAll newData
  return answer

def removeGreater (arguments : List (Argument D)) : MemoryAction D JString :=
  keepCompared (0 < ·) (.ofString "Элементы коллекции, превышающие заданный, успешно удалены")
    arguments

def removeLower (arguments : List (Argument D)) : MemoryAction D JString :=
  keepCompared (· < 0) (.ofString "Элементы коллекции, которые меньше заданного, успешно удалены")
    arguments

def predicate (arguments : List (Argument D)) (n : Option (Route D)) : Except Throwable Bool := do
  let route ← nonNull n
  let distance ← orNumberFormat (Platform.parseDouble (← nonNull (← getString arguments 0)))
  return Platform.equals route.distance distance

/-- `sorted(Comparator.comparingInt(Route::getId))`, which compares from two entries on. -/
def sortedById (data : List (Option (Route D))) : Except Throwable (List (Option (Route D))) := do
  if data.length ≤ 1 then return data
  let routes ← data.mapM nonNull
  return (routes.insertionSort fun a b => a.id ≤ b.id).map some

def removeAnyByDistance (arguments : List (Argument D)) : MemoryAction D JString := do
  let s ← get
  let dataWithoutEqualDistances ←
    ofResult (filterE (fun n => do return !(← predicate arguments n)) s.data)
  let dataWithEqualDistances ← ofResult (filterE (predicate arguments) s.data)
  clearData
  addAll dataWithoutEqualDistances
  addAll (dataWithEqualDistances.drop 1)
  let s ← get
  let newData ← ofResult (sortedById s.data)
  clearData
  addAll newData
  return .ofString ("Первый встречный элемент в коллекции, " ++
    "значение distance которого равно заданному, если таковой был найден, удален")

end MemoryCommands

/-- The commands that change the collection. -/
inductive ChangingCommand where
  | ADD
  | UPDATE
  | REMOVE_BY_ID
  | CLEAR
  | ADD_IF_MAX
  | REMOVE_GREATER
  | REMOVE_LOWER
  | REMOVE_ANY_BY_DISTANCE

def ChangingCommand.execute (arguments : List (Argument D)) :
    ChangingCommand → MemoryAction D JString
  | ADD => MemoryCommands.add arguments
  | UPDATE => MemoryCommands.update arguments
  | REMOVE_BY_ID => MemoryCommands.removeById arguments
  | CLEAR => MemoryCommands.clear
  | ADD_IF_MAX => MemoryCommands.addIfMax arguments
  | REMOVE_GREATER => MemoryCommands.removeGreater arguments
  | REMOVE_LOWER => MemoryCommands.removeLower arguments
  | REMOVE_ANY_BY_DISTANCE => MemoryCommands.removeAnyByDistance arguments

/-! ### Failures -/

section Failures

variable {α : Type} {data : List (Option (Route D))} {I : Memory D → Prop}
  {Q : α → Memory D → Prop} {E : Throwable → Memory D → Prop}

/-- What is computed without the list leaves it, and is known from there on. -/
theorem ends_compute_bind {β : Type} {x : Except Throwable β} {f : β → MemoryAction D α}
    (hf : ∀ b, x = .ok b → Ends (fun s => s.data = data) (f b) Q fun _ s => s.data = data) :
    Ends (fun s : Memory D => s.data = data) (ofResult x >>= f) Q fun _ s => s.data = data := by
  cases x with
  | error e => exact fun _ hs => hs
  | ok b => exact hf b rfl

theorem ends_read {f : Memory D → MemoryAction D α}
    (hf : ∀ s, s.data = data → Ends (fun s => s.data = data) (f s) Q E) :
    Ends (fun s : Memory D => s.data = data) (get >>= f) Q E :=
  ends_get_bind fun s hs =>
    (hf s hs).weaken (fun _ h => h ▸ hs) (fun _ _ h => h) fun _ _ h => h

/-- The list is replaced, which does not fail. -/
theorem ends_replace {newData : List (Option (Route D))} {answer : α}
    (hQ : ∀ s, s.data = newData → Q answer s) :
    Ends I (do clearData; addAll newData; return answer : MemoryAction D α) Q E :=
  fun _ _ => hQ _ rfl

/-- A command that leaves the list as it was whenever it fails. -/
def Atomic (x : MemoryAction D α) : Prop :=
  ∀ data, Ends (fun s => s.data = data) x (fun _ _ => True) fun _ s => s.data = data

end Failures

namespace MemoryCommands

theorem add_atomic (arguments : List (Argument D)) : Atomic (add arguments) := by
  intro data
  refine ends_compute_bind fun newRoute _ => ends_compute_bind fun newRoute _ => ?_
  refine ends_read fun s hs => ends_compute_bind fun made _ => ?_
  exact fun _ _ => trivial

theorem update_atomic (arguments : List (Argument D)) : Atomic (update arguments) := by
  intro data
  refine ends_compute_bind fun newRoute _ => ends_read fun s hs => ?_
  refine ends_compute_bind fun newData _ => ends_compute_bind fun answer _ => ?_
  exact ends_replace fun _ _ => trivial

theorem removeById_atomic (arguments : List (Argument D)) : Atomic (removeById arguments) := by
  intro data
  refine ends_read fun s hs => ends_compute_bind fun newData _ => ?_
  refine ends_compute_bind fun answer _ => ?_
  exact ends_replace fun _ _ => trivial

theorem addIfMax_atomic (arguments : List (Argument D)) : Atomic (addIfMax arguments) := by
  intro data
  refine ends_compute_bind fun toAddIfMax _ => ends_read fun s hs => ?_
  refine ends_compute_bind fun max _ => ?_
  cases max with
  | none => exact ends_pure fun _ _ => trivial
  | some max =>
    refine ends_compute_bind fun route _ => ?_
    split
    · exact fun _ _ => trivial
    · exact ends_pure fun _ _ => trivial

theorem keepCompared_atomic (select : ℤ → Bool) (answer : JString)
    (arguments : List (Argument D)) : Atomic (keepCompared select answer arguments) := by
  intro data
  refine ends_compute_bind fun forComparison _ => ends_read fun s hs => ?_
  refine ends_compute_bind fun newData _ => ?_
  exact ends_replace fun _ _ => trivial

/-! ### A removal by distance -/

section Distance

variable {arguments : List (Argument D)}

theorem predicate_string {text : JString} (h : arguments[0]? = some (.string text))
    (r : Route D) : predicate arguments (some r) =
      (orNumberFormat (Platform.parseDouble text)).map fun distance =>
        Platform.equals r.distance distance := by
  unfold predicate
  rw [getString_string h]
  rfl

theorem predicate_some {text : JString} {distance : D}
    (hargument : arguments[0]? = some (.string text))
    (hparse : Platform.parseDouble text = some distance) (r : Route D) :
    predicate arguments (some r) = .ok (Platform.equals r.distance distance) := by
  rw [predicate_string hargument, hparse]
  rfl

/-- A test that does not fail is that of a route, and its argument is a distance. -/
theorem predicate_ok {n : Option (Route D)} {b : Bool} (h : predicate arguments n = .ok b) :
    (∃ r, n = some r) ∧ ∃ text, arguments[0]? = some (.string text) ∧
      ∃ distance, Platform.parseDouble (D := D) text = some distance := by
  unfold predicate at h
  obtain ⟨r, hr, h⟩ := bind_ok h
  obtain ⟨text, htext, h⟩ := bind_ok h
  obtain ⟨text', htext', h⟩ := bind_ok h
  obtain ⟨distance, hdistance, -⟩ := bind_ok h
  rw [nonNull_ok htext'] at htext
  exact ⟨⟨r, nonNull_ok hr⟩, text', getString_ok htext, distance, orNumberFormat_ok hdistance⟩

theorem sortedById_map (routes : List (Route D)) :
    sortedById (routes.map some) =
      .ok ((routes.insertionSort fun a b => a.id ≤ b.id).map some) := by
  unfold sortedById
  rw [List.length_map]
  split_ifs with hlength
  · match routes, hlength with
    | [], _ => rfl
    | [r], _ => rfl
  · have hroutes : (routes.map some).mapM (nonNull (α := Route D)) = .ok routes := by
      have hpass := mapM_eq_ok (f := nonNull ∘ some) (g := id) (l := routes) fun _ _ => rfl
      rw [List.mapM_map, hpass, List.map_id]
    show ((routes.map some).mapM nonNull).bind _ = _
    rw [hroutes]
    rfl

/-- The tests of a list without failure: it holds routes, and the argument is a distance
if there are any. -/
theorem tested {data : List (Option (Route D))}
    (h : ∀ n ∈ data, ∃ b, predicate arguments n = .ok b) :
    ∃ (routes : List (Route D)) (equals : Route D → Bool), data = routes.map some ∧
      (∀ r ∈ routes, predicate arguments (some r) = .ok (equals r)) ∧
      (routes = [] ∨ ∃ text, arguments[0]? = some (.string text) ∧
        ∃ distance, Platform.parseDouble (D := D) text = some distance ∧
          equals = fun r => Platform.equals r.distance distance) := by
  have hsome : data ∈ Set.range (List.map (some : Route D → Option (Route D))) := by
    rw [Set.range_list_map]
    intro n hn
    obtain ⟨b, hb⟩ := h n hn
    obtain ⟨⟨r, rfl⟩, -⟩ := predicate_ok hb
    exact Set.mem_range_self r
  obtain ⟨routes, rfl⟩ := hsome
  cases routes with
  | nil => exact ⟨[], fun _ => false, rfl, fun r hr => absurd hr List.not_mem_nil, .inl rfl⟩
  | cons r rest =>
    obtain ⟨b, hb⟩ := h (some r) List.mem_cons_self
    obtain ⟨-, text, htext, distance, hdistance⟩ := predicate_ok hb
    exact ⟨r :: rest, fun r => Platform.equals r.distance distance, rfl,
      fun r _ => predicate_some htext hdistance r, .inr ⟨text, htext, distance, hdistance, rfl⟩⟩

theorem filterE_map_some {p : Option (Route D) → Except Throwable Bool} {q : Route D → Bool}
    {routes : List (Route D)} (h : ∀ r ∈ routes, p (some r) = .ok (q r)) :
    filterE p (routes.map some) = .ok ((routes.filter q).map some) := by
  have hfilter := filterE_eq_ok (p := p) (q := fun n => n.any q) (l := routes.map some) <| by
    intro n hn
    obtain ⟨r, hr, rfl⟩ := List.mem_map.mp hn
    exact h r hr
  rw [hfilter, List.filter_map]
  rfl

/-- A collection and what is left of it: the routes without the first of the distance
that the argument gives, by their ids. -/
def WithoutFirst (arguments : List (Argument D)) (data data' : List (Option (Route D))) : Prop :=
  ∃ routes routes' : List (Route D), data = routes.map some ∧ data' = routes'.map some ∧
    routes'.Pairwise (fun a b => a.id ≤ b.id) ∧
      (routes = [] ∧ routes' = [] ∨ ∃ text, arguments[0]? = some (.string text) ∧
        ∃ distance, Platform.parseDouble text = some distance ∧
          routes'.Perm (routes.eraseP fun n => Platform.equals n.distance distance))

theorem pairwise_sorted (routes : List (Route D)) :
    (routes.insertionSort fun a b => a.id ≤ b.id).Pairwise fun a b => a.id ≤ b.id := by
  have htotal : Std.Total fun a b : Route D => a.id ≤ b.id := ⟨fun a b => le_total a.id b.id⟩
  have htrans : IsTrans (Route D) fun a b => a.id ≤ b.id := ⟨fun _ _ _ hab hbc => hab.trans hbc⟩
  exact List.pairwise_insertionSort _ routes

theorem removeAnyByDistance_ends (arguments : List (Argument D))
    (data : List (Option (Route D))) :
    Ends (fun s => s.data = data) (removeAnyByDistance arguments)
      (fun _ s => WithoutFirst arguments data s.data) fun _ s => s.data = data := by
  refine ends_read fun s hs => ?_
  rw [hs]
  refine ends_compute_bind fun kept hkept => ends_compute_bind fun equal hequal => ?_
  -- both filters went through, so the list holds routes and the argument is a distance
  obtain ⟨routes, equals, rfl, htest, hargument⟩ := tested (filterE_ok hequal)
  rw [filterE_map_some htest] at hequal
  rw [filterE_map_some (q := fun r => !equals r) fun r hr => by rw [htest r hr]; rfl] at hkept
  cases hequal
  cases hkept
  refine Ends.bind (P := fun _ s => s.data = []) (ends_modify fun _ _ => rfl) fun _ => ?_
  refine Ends.bind (P := fun _ s => s.data = (routes.filter fun r => !equals r).map some)
    (ends_modify fun s hs => by rw [hs, List.nil_append]) fun _ => ?_
  refine Ends.bind (P := fun _ s => s.data =
      (routes.filter (fun r => !equals r) ++ (routes.filter equals).drop 1).map some)
    (ends_modify fun s hs => by rw [hs, ← List.map_drop, ← List.map_append]) fun _ => ?_
  refine ends_get_bind fun s hs => ?_
  rw [hs, sortedById_map]
  -- from here on nothing can fail
  refine ends_replace fun s hs => ?_
  refine ⟨routes, _, rfl, hs, pairwise_sorted _, ?_⟩
  rcases hargument with rfl | ⟨text, htext, distance, hdistance, rfl⟩
  · exact .inl ⟨rfl, rfl⟩
  · refine .inr ⟨text, htext, distance, hdistance, ?_⟩
    exact (List.perm_insertionSort _ _).trans (filter_append_drop_perm _ routes)

end Distance

end MemoryCommands

theorem ChangingCommand.atomic (command : ChangingCommand) (arguments : List (Argument D)) :
    Atomic (command.execute arguments) := by
  cases command with
  | ADD => exact MemoryCommands.add_atomic arguments
  | UPDATE => exact MemoryCommands.update_atomic arguments
  | REMOVE_BY_ID => exact MemoryCommands.removeById_atomic arguments
  | CLEAR => exact fun _ _ _ => trivial
  | ADD_IF_MAX => exact MemoryCommands.addIfMax_atomic arguments
  | REMOVE_GREATER => exact MemoryCommands.keepCompared_atomic _ _ arguments
  | REMOVE_LOWER => exact MemoryCommands.keepCompared_atomic _ _ arguments
  | REMOVE_ANY_BY_DISTANCE =>
    intro data
    exact (MemoryCommands.removeAnyByDistance_ends arguments data).weaken (fun _ h => h)
      (fun _ _ _ => trivial) fun _ _ h => h

/-- A command that throws leaves the collection as it was, and a removal by distance that
does not throw takes one route of the distance away, if there is one. -/
theorem commands_fail_atomically (arguments : List (Argument D)) (s s' : Memory D) :
    (∀ (command : ChangingCommand) (e : Throwable),
      exec (command.execute arguments) s = (.error e, s') → s'.data = s.data) ∧
      ∀ answer, exec (MemoryCommands.removeAnyByDistance arguments) s = (.ok answer, s') →
        MemoryCommands.WithoutFirst arguments s.data s'.data := by
  constructor
  · intro command e h
    have hends := command.atomic arguments s.data s rfl
    rw [h] at hends
    exact hends
  · intro answer h
    have hends := MemoryCommands.removeAnyByDistance_ends arguments s.data s rfl
    rw [h] at hends
    exact hends

theorem commands_fail_atomically_whole :
    MemoryCommands.WithoutFirst [.string (.ofString "6")]
      [some (Route.atOrigin 2 6 "A"), some (.atOrigin 3 6 "A"), some (.atOrigin 1 5 "A")]
      [some (Route.atOrigin 1 5 "A"), some (.atOrigin 3 6 "A")] :=
  (commands_fail_atomically [.string (.ofString "6")]
    ⟨[some (.atOrigin 2 6 "A"), some (.atOrigin 3 6 "A"), some (.atOrigin 1 5 "A")], 3⟩
    ⟨[some (.atOrigin 1 5 "A"), some (.atOrigin 3 6 "A")], 3⟩).2 _ rfl

/-! ### Requests of a client -/

def Server.memory (s : Server D) : Memory D where
  data := s.data.map some
  instances := s.instances

def Request.command : Request D → ChangingCommand
  | add _ => .ADD
  | update _ _ => .UPDATE
  | removeById _ => .REMOVE_BY_ID
  | clear => .CLEAR
  | addIfMax _ => .ADD_IF_MAX
  | removeGreater _ => .REMOVE_GREATER
  | removeLower _ => .REMOVE_LOWER
  | removeAnyByDistance _ => .REMOVE_ANY_BY_DISTANCE

def Request.arguments : Request D → List (Argument D)
  | add route => [.route route]
  | update route id => [.route route, .string id]
  | removeById id => [.string id]
  | clear => []
  | addIfMax route => [.route route]
  | removeGreater route => [.route route]
  | removeLower route => [.route route]
  | removeAnyByDistance distance => [.string distance]

/-- How a command on values ends, on the memory. -/
def Server.ended (s : Server D) :
    Except Throwable (JString × Server D) → Except Throwable JString × Memory D
  | .ok (answer, s') => (.ok answer, s'.memory)
  | .error e => (.error e, s.memory)

theorem memory_append (s : Server D) (route : Route D) (instances : ℤ) :
    ({ data := s.data ++ [route], instances } : Server D).memory =
      { data := s.memory.data ++ [some route], instances } := by
  unfold Server.memory
  rw [List.map_append]
  rfl

theorem mapM_memory {β : Type} {f : Option (Route D) → Except Throwable β} {g : Route D → β}
    {s : Server D} (h : ∀ r ∈ s.data, f (some r) = .ok (g r)) :
    s.memory.data.mapM f = .ok (s.data.map g) := by
  rw [Server.memory, List.mapM_map]
  exact mapM_eq_ok h

theorem exec_keepCompared (select : ℤ → Bool) (answer : JString) (route : Route D)
    (s : Server D) : exec (MemoryCommands.keepCompared select answer [.route route]) s.memory =
      s.ended (Commands.keepCompared select answer route s) := by
  have hfilter : filterE (MemoryCommands.compared select (some route)) s.memory.data =
      .ok ((s.data.filter fun n => select (route.compareTo n)).map some) :=
    MemoryCommands.filterE_map_some fun _ _ => rfl
  unfold MemoryCommands.keepCompared
  rw [exec_ofResult_bind (getRoute_route route []), exec_bind_ok (exec_get _),
    exec_ofResult_bind hfilter]
  rfl

theorem exec_add (route : Route D) (s : Server D) :
    exec (MemoryCommands.add [.route route]) s.memory = s.ended (Commands.add route s) := by
  unfold MemoryCommands.add Commands.add
  rw [exec_ofResult_bind (getRoute_route route []), exec_ofResult_bind (nonNull_some route),
    exec_bind_ok (exec_get _), exec_ofResult_bind (Route.new_self route s.memory.instances),
    Route.new_self]
  show (_, _) = (_, _)
  rw [memory_append]
  rfl

theorem exec_addIfMax (route : Route D) (s : Server D) :
    exec (MemoryCommands.addIfMax [.route route]) s.memory =
      s.ended (Commands.addIfMax route s) := by
  have hmax : MemoryCommands.maxRoute s.memory.data = .ok (Commands.maxRoute s.data) := by
    unfold MemoryCommands.maxRoute
    rw [mapM_memory (g := id) fun _ _ => rfl, List.map_id]
    rfl
  unfold MemoryCommands.addIfMax Commands.addIfMax Commands.isMax
  rw [exec_ofResult_bind (getRoute_route route []), exec_bind_ok (exec_get _),
    exec_ofResult_bind hmax]
  cases Commands.maxRoute s.data with
  | none => rfl
  | some max =>
    dsimp only
    rw [exec_ofResult_bind (nonNull_some route), Option.any_some]
    by_cases hgreater : 0 < route.compareTo max
    · rw [if_pos hgreater, if_pos (decide_eq_true hgreater)]
      show (_, _) = (_, _)
      rw [memory_append]
      rfl
    · rw [if_neg hgreater, if_neg (by rw [decide_eq_true_eq]; exact hgreater)]
      rfl

section Ids

variable {arguments : List (Argument D)} {i : ℕ} {text : JString}

theorem idAnswer_string (h : arguments[i]? = some (.string text)) (found : Bool)
    (done : String) :
    MemoryCommands.idAnswer arguments i found done = .ok
      (if found then .ofString "Объект с id " ++ text ++ .ofString done
        else .ofString "Объекта с таким id нет") := by
  unfold MemoryCommands.idAnswer
  rw [getString_string h]
  cases found <;> rfl

/-- The id of a text is decoded anew for every route. -/
theorem replaced_string (h : arguments[1]? = some (.string text)) (newRoute : Option (Route D))
    (r : Route D) : MemoryCommands.replaced arguments newRoute (some r) =
      (orNumberFormat (Integer.decode text)).map fun id =>
        if r.id = id then (true, newRoute) else (false, some r) := by
  unfold MemoryCommands.replaced
  rw [decodeArgument_string h]
  cases Integer.decode text with
  | none => rfl
  | some id =>
    show (if r.id = id then pure (true, newRoute) else pure (false, some r)) =
      Except.ok (if r.id = id then (true, newRoute) else (false, some r))
    split_ifs <;> rfl

theorem otherId_string (h : arguments[0]? = some (.string text)) (r : Route D) :
    MemoryCommands.otherId arguments (some r) =
      (orNumberFormat (Integer.decode text)).map fun id => decide (r.id ≠ id) := by
  unfold MemoryCommands.otherId
  rw [decodeArgument_string h]
  rfl

end Ids

/-- The last steps of a command that replaces the list. -/
theorem exec_replace {α : Type} (newData : List (Option (Route D))) (answer : α) (s : Memory D) :
    exec (do clearData; addAll newData; return answer : MemoryAction D α) s =
      (.ok answer, { s with data := newData }) := rfl

theorem exec_update (route : Route D) (text : JString) (s : Server D) :
    exec (MemoryCommands.update [.route route, .string text]) s.memory =
      s.ended (Commands.update route text s) := by
  have htest : ∀ r, MemoryCommands.replaced [.route route, .string text] (some route) (some r) =
      _ := replaced_string rfl (some route)
  unfold MemoryCommands.update
  rw [exec_ofResult_bind (getRoute_route route _), exec_bind_ok (exec_get _)]
  obtain ⟨data, instances⟩ := s
  cases data with
  | nil => rfl
  | cons r rest =>
    unfold Commands.update Commands.decodeFor
    cases hdecode : Integer.decode text with
    | none =>
      rw [hdecode] at htest
      have hpass := mapM_cons_error (htest r) (rest.map some)
      exact exec_ofResult_bind_error hpass _
    | some id =>
      rw [hdecode] at htest
      have hpass := mapM_memory (s := ⟨r :: rest, instances⟩) fun r _ => htest r
      have hfound : ((r :: rest).map fun r =>
          if r.id = id then (true, some route) else (false, some r)).any Prod.fst =
          !(r :: rest).all fun r => some r.id ≠ some id := by
        rw [List.any_map, List.all_eq_not_any_not, Bool.not_not]
        congr 1
        funext r
        by_cases hr : r.id = id <;> simp [hr]
      have hdata : ((r :: rest).map fun r =>
          if r.id = id then (true, some route) else (false, some r)).map Prod.snd =
          ((r :: rest).map fun r => if some r.id = some id then route else r).map some := by
        rw [List.map_map, List.map_map]
        congr 1
        funext r
        by_cases hr : r.id = id <;> simp [hr]
      rw [exec_ofResult_bind hpass, exec_ofResult_bind (idAnswer_string rfl _ _), exec_replace,
        hfound, hdata]
      show (Except.ok _, _) = (Except.ok (if ((r :: rest).all fun r => some r.id ≠ some id) = true
        then _ else _), _)
      cases (r :: rest).all fun r => decide (some r.id ≠ some id) <;> rfl

theorem exec_removeById (text : JString) (s : Server D) :
    exec (MemoryCommands.removeById [.string text]) s.memory =
      s.ended (Commands.removeById text s) := by
  have htest : ∀ r : Route D, MemoryCommands.otherId [.string text] (some r) = _ :=
    otherId_string rfl
  unfold MemoryCommands.removeById
  rw [exec_bind_ok (exec_get _)]
  obtain ⟨data, instances⟩ := s
  cases data with
  | nil => rfl
  | cons r rest =>
    unfold Commands.removeById Commands.decodeFor
    cases hdecode : Integer.decode text with
    | none =>
      rw [hdecode] at htest
      have hpass := filterE_cons_error (htest r) (rest.map some)
      exact exec_ofResult_bind_error hpass _
    | some id =>
      rw [hdecode] at htest
      have hpass : filterE (MemoryCommands.otherId [.string text])
          (Server.memory ⟨r :: rest, instances⟩).data =
          .ok (((r :: rest).filter fun n => some n.id ≠ some id).map some) := by
        refine MemoryCommands.filterE_map_some fun r _ => (htest r).trans ?_
        show Except.ok _ = Except.ok _
        simp
      rw [exec_ofResult_bind hpass, exec_ofResult_bind (idAnswer_string rfl _ _), exec_replace,
        Server.memory, List.length_map, List.length_map]
      show (Except.ok _, _) = (Except.ok (if (r :: rest).length =
        ((r :: rest).filter fun n => some n.id ≠ some id).length then _ else _), _)
      by_cases hlength :
          (r :: rest).length = ((r :: rest).filter fun n => some n.id ≠ some id).length
      · rw [if_pos hlength, if_neg (by rw [decide_eq_true_eq]; exact fun hne => hne hlength)]
        rfl
      · rw [if_neg hlength, if_pos (decide_eq_true hlength)]
        rfl

theorem exec_removeAnyByDistance (text : JString) (s : Server D) :
    exec (MemoryCommands.removeAnyByDistance [.string text]) s.memory =
      s.ended (Commands.removeAnyByDistance text s) := by
  unfold MemoryCommands.removeAnyByDistance
  rw [exec_bind_ok (exec_get _)]
  obtain ⟨data, instances⟩ := s
  cases data with
  | nil => rfl
  | cons r rest =>
    unfold Commands.removeAnyByDistance
    cases hparse : Platform.parseDouble (D := D) text with
    | none =>
      have hfails : MemoryCommands.predicate [.string text] (some r) =
          .error .NumberFormatException := by
        rw [MemoryCommands.predicate_string rfl, hparse]
        rfl
      have hpass : filterE (fun n => do return !(← MemoryCommands.predicate [.string text] n))
          (some r :: rest.map some) = .error .NumberFormatException :=
        filterE_cons_error (by rw [hfails]; rfl) _
      exact exec_ofResult_bind_error hpass _
    | some distance =>
      have hargument : ([.string text] : List (Argument D))[0]? = some (.string text) := rfl
      have htest := MemoryCommands.predicate_some hargument hparse
      have hequal : filterE (MemoryCommands.predicate [.string text])
          (Server.memory ⟨r :: rest, instances⟩).data = _ :=
        MemoryCommands.filterE_map_some fun r _ => htest r
      have hkept : filterE (fun n => do return !(← MemoryCommands.predicate [.string text] n))
          (Server.memory ⟨r :: rest, instances⟩).data = _ :=
        MemoryCommands.filterE_map_some (q := fun r => !Platform.equals r.distance distance)
          fun r _ => by rw [htest r]; rfl
      rw [exec_ofResult_bind hkept, exec_ofResult_bind hequal, ← List.map_drop]
      have hsorted := MemoryCommands.sortedById_map
        ((r :: rest).filter (fun r => !Platform.equals r.distance distance) ++
          ((r :: rest).filter fun r => Platform.equals r.distance distance).drop 1)
      rw [List.map_append] at hsorted
      exact (exec_ofResult_bind hsorted _).trans rfl

/-- A request does to the memory what it does to the values. -/
theorem exec_execute (request : Request D) (s : Server D) :
    exec (request.command.execute request.arguments) s.memory =
      s.ended (request.execute s) := by
  cases request with
  | add route => exact exec_add route s
  | update route id => exact exec_update route id s
  | removeById id => exact exec_removeById id s
  | clear => rfl
  | addIfMax route => exact exec_addIfMax route s
  | removeGreater route => exact exec_keepCompared _ _ route s
  | removeLower route => exact exec_keepCompared _ _ route s
  | removeAnyByDistance distance => exact exec_removeAnyByDistance distance s

theorem exec_after (request : Request D) (s : Server D) :
    (exec (request.command.execute request.arguments) s.memory).2 = (s.after request).memory := by
  rw [exec_execute]
  unfold Server.after
  cases request.execute s with
  | error e => rfl
  | ok ended => rfl

end Itmo.ProgLab6
