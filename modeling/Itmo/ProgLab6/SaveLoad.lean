import Itmo.ProgLab6.Loading
import Itmo.ProgLab6.RouteIds

/-! Saving and loading a collection that requests have filled. Every route of such a
collection was typed by a client, so its file is read as its trees, and a fresh
process makes from these exactly the routes that are readable and in order. -/

namespace Itmo.ProgLab6

open Lib ProgLab8

variable {D : Type} [Numbers D]

/-! ### What clients type -/

theorem word_some {input x : JString} (h : ValuesChecking.word input = some x) :
    ∀ c ∈ x, isNameChar c = true := by
  unfold ValuesChecking.word at h
  split at h
  · cases h
  · next c s hword =>
    cases h
    rw [← hword]
    exact fun c hc => List.mem_takeWhile_imp hc

theorem nextId_bounds (instances : ℤ) : -2 ^ 31 ≤ nextId instances ∧ nextId instances < 2 ^ 31 := by
  unfold nextId
  have hl := Int.le_bmod (x := instances + 1) (m := 2 ^ 32) (by decide)
  have hu := Int.bmod_lt (x := instances + 1) (m := 2 ^ 32) (by decide)
  omega

theorem toOption_some {ε α : Type} {x : Except ε α} {a : α} (h : x.toOption = some a) :
    x = .ok a := by
  cases x with
  | error e => cases h
  | ok b =>
    cases h
    rfl

theorem Route.new_ok {name : JString} {coordinates : Coordinates D} {from_ : First.Location D}
    {to_ : Second.Location D} {distance : D} {instances instances' : ℤ} {r : Route D}
    (h : Route.new name coordinates from_ to_ distance instances = .ok (r, instances')) :
    r.id = nextId instances ∧ r.name = name ∧ r.coordinates = coordinates ∧ r.from_ = from_ ∧
      r.to_ = to_ := by
  unfold Route.new at h
  split_ifs at h
  cases h
  exact ⟨rfl, rfl, rfl, rfl, rfl⟩

theorem createNewRouteInstance_entered {lines : Lines} {instances instances' : ℤ} {r : Route D}
    (h : CreatingNewInstance.createNewRouteInstance lines instances = some (r, instances')) :
    r.Entered := by
  unfold CreatingNewInstance.createNewRouteInstance at h
  obtain ⟨rName, hrName, h⟩ := Option.bind_eq_some_iff.mp h
  obtain ⟨rDistance, -, h⟩ := Option.bind_eq_some_iff.mp h
  obtain ⟨cX, -, h⟩ := Option.bind_eq_some_iff.mp h
  obtain ⟨cY, -, h⟩ := Option.bind_eq_some_iff.mp h
  obtain ⟨flX, -, h⟩ := Option.bind_eq_some_iff.mp h
  obtain ⟨flY, -, h⟩ := Option.bind_eq_some_iff.mp h
  obtain ⟨flZ, -, h⟩ := Option.bind_eq_some_iff.mp h
  obtain ⟨flName, hflName, h⟩ := Option.bind_eq_some_iff.mp h
  obtain ⟨slX, -, h⟩ := Option.bind_eq_some_iff.mp h
  obtain ⟨slY, -, h⟩ := Option.bind_eq_some_iff.mp h
  obtain ⟨slZ, -, h⟩ := Option.bind_eq_some_iff.mp h
  obtain ⟨c, hc, h⟩ := Option.bind_eq_some_iff.mp h
  obtain ⟨l, hl, h⟩ := Option.bind_eq_some_iff.mp h
  obtain ⟨hid, rfl, rfl, rfl, hto⟩ := Route.new_ok (toOption_some h)
  have hy := (Coordinates.new_ok (toOption_some hc)).2
  have hnew : First.Location.newOrNull flX (Numbers.longValue flY) flZ (some flName) =
      .ok r.from_ := toOption_some hl
  obtain ⟨-, hly, -, hname⟩ := First.Location.newOrNull_ok hnew
  cases hname
  exact { named := ⟨word_some hrName, word_some hflName⟩, id := hid ▸ nextId_bounds instances,
          coordinates := ⟨cY, hy⟩, from_ := ⟨flY, hly⟩, to_ := ⟨slX, slY, slZ, hto⟩ }

/-- The route a request carries, if any, was typed by a client. -/
def Request.Entered : Request D → Prop
  | .add route => route.Entered
  | .update route _ => route.Entered
  | .addIfMax route => route.Entered
  | _ => True

theorem arrives_entered {s : State D} {e : Event} {request : Request D}
    (h : (arrives s e).1 = some request) : request.Entered := by
  unfold arrives at h
  cases e with
  | plain command =>
    cases command <;> cases h <;> trivial
  | route client lines command sent =>
    dsimp only at h
    cases hroute : CreatingNewInstance.createNewRouteInstance (D := D) lines (s.clients client) with
    | none => simp [hroute] at h
    | some made =>
      obtain ⟨route, instances⟩ := made
      have hentered := createNewRouteInstance_entered hroute
      simp only [hroute] at h
      split_ifs at h
      cases command <;> cases h
      · exact hentered
      · exact hentered
      · exact hentered
      · trivial
      · trivial

theorem after_entered {s : Server D} (hs : ∀ r ∈ s.data, r.Entered) {request : Request D}
    (h : request.Entered) : ∀ r ∈ (s.after request).data, r.Entered := by
  intro r hr
  cases request with
  | add route =>
    rw [Server.after_add] at hr
    rcases List.mem_append.mp hr with hr | hr
    · exact hs r hr
    · rw [List.mem_singleton.mp hr]
      exact { h with id := nextId_bounds s.instances }
  | update route text =>
    rw [Server.after_update] at hr
    obtain ⟨q, hq, rfl⟩ := List.mem_map.mp hr
    split_ifs
    · exact h
    · exact hs q hq
  | removeById text =>
    rw [Server.after_removeById] at hr
    exact hs r (List.mem_of_mem_filter hr)
  | clear => cases hr
  | addIfMax route =>
    rw [Server.after_addIfMax] at hr
    split_ifs at hr
    · rcases List.mem_append.mp hr with hr | hr
      · exact hs r hr
      · rw [List.mem_singleton.mp hr]
        exact h
    · exact hs r hr
  | removeGreater route => exact hs r (List.mem_of_mem_filter hr)
  | removeLower route => exact hs r (List.mem_of_mem_filter hr)
  | removeAnyByDistance text =>
    rcases Server.after_removeAnyByDistance s text with hafter | ⟨distance, hafter⟩
    · rw [hafter] at hr
      exact hs r hr
    · rw [hafter] at hr
      exact hs r ((withoutDistance_subperm distance s.data).subset hr)

/-- Every route of the server was typed by a client, after any run. -/
theorem run_entered (instances : ℤ) (clients : ℕ → ℤ) (events : List Event) :
    ∀ r ∈ (run State.step (State.empty (D := D) instances clients) events).server.data,
      r.Entered := by
  refine run_invariant (fun s : State D => ∀ r ∈ s.server.data, r.Entered) ?_ ?_ events
  · intro s e hs
    rw [step_server]
    cases hexecuted : executed s e with
    | none => exact hs
    | some request =>
      apply after_entered hs
      unfold executed at hexecuted
      split_ifs at hexecuted
      exact arrives_entered hexecuted
  · intro r hr
    cases hr

/-! ### The list of routes -/

def trees (ps : List (Scalars D)) : List (Parsed D) := ps.map fun p => .map p.tree

omit [Numbers D] in
theorem trees_cons (p : Scalars D) (ps : List (Scalars D)) :
    trees (p :: ps) = .map p.tree :: trees ps := rfl

theorem convertRoutes_ok {parsed : Parsed D} {instances instances' : ℤ} {r : Route D}
    (h : extractRouteObject parsed instances = .ok (r, instances')) (l : List (Parsed D)) :
    convertRoutes (parsed :: l) instances = r :: convertRoutes l instances' := by
  rw [convertRoutes, h]

theorem convertRoutes_error {parsed : Parsed D} {instances : ℤ} {e : Throwable}
    (h : extractRouteObject parsed instances = .error e) (l : List (Parsed D)) :
    convertRoutes (parsed :: l) instances = convertRoutes l instances := by
  rw [convertRoutes, h]

theorem convertRoutes_length (l : List (Parsed D)) (instances : ℤ) :
    (convertRoutes l instances).length ≤ l.length := by
  induction l generalizing instances with
  | nil => exact le_rfl
  | cons parsed l ih =>
    cases hextract : extractRouteObject parsed instances with
    | error e =>
      rw [convertRoutes_error hextract]
      exact (ih instances).trans (Nat.le_succ _)
    | ok made =>
      rw [convertRoutes_ok hextract]
      exact Nat.succ_le_succ (ih made.2)

/-- The constructor lets through increasing ids only. -/
theorem convertRoutes_increasing (ps : List (Scalars D)) (instances : ℤ) :
    (instances :: ids (convertRoutes (trees ps) instances)).IsChain (· < ·) := by
  induction ps generalizing instances with
  | nil => exact List.IsChain.singleton _
  | cons p ps ih =>
    rw [trees_cons]
    cases hextract : extractRouteObject (.map p.tree) instances with
    | error e =>
      rw [convertRoutes_error hextract]
      exact ih instances
    | ok made =>
      obtain ⟨r, instances'⟩ := made
      obtain ⟨-, rfl, hlt⟩ := extract_ok hextract
      rw [convertRoutes_ok hextract]
      exact List.isChain_cons_cons.mpr ⟨hlt, ih r.id⟩

theorem sort_convertRoutes (ps : List (Scalars D)) (instances : ℤ) :
    (convertRoutes (trees ps) instances).insertionSort (fun a b => a.id ≤ b.id) =
      convertRoutes (trees ps) instances := by
  apply List.Pairwise.insertionSort_eq
  have hpairwise := List.isChain_iff_pairwise.mp (convertRoutes_increasing ps instances)
  have hids := (List.pairwise_cons.mp hpairwise).2
  exact (List.pairwise_map.mp hids).imp fun hlt => hlt.le

/-- The routes come back in their order when all are readable and the ids increase. -/
theorem convertRoutes_iff {ps : List (Scalars D)} {data : List (Route D)}
    (h : List.Forall₂ Scalars.Of ps data) (instances : ℤ) :
    convertRoutes (trees ps) instances = data ↔
      (∀ r ∈ data, r.Readable) ∧ (instances :: ids data).IsChain (· < ·) := by
  induction h generalizing instances with
  | nil => exact iff_of_true rfl ⟨by simp, List.IsChain.singleton _⟩
  | @cons p r ps data hp hps ih =>
    have hcons : ids (r :: data) = r.id :: ids data := rfl
    rw [hcons, List.forall_mem_cons, List.isChain_cons_cons, trees_cons]
    constructor
    · intro heq
      cases hextract : extractRouteObject (.map p.tree) instances with
      | error e =>
        -- a dropped route leaves fewer routes than there were
        have hle := convertRoutes_length (trees ps) instances
        rw [← convertRoutes_error hextract, heq, trees, List.length_map, hps.length_eq] at hle
        exact absurd hle (Nat.not_succ_le_self _)
      | ok made =>
        obtain ⟨r', instances'⟩ := made
        obtain ⟨-, rfl, -⟩ := extract_ok hextract
        rw [convertRoutes_ok hextract] at heq
        obtain ⟨rfl, htail⟩ := List.cons.inj heq
        obtain ⟨hr, hlt⟩ := (extract_iff hp instances).mp hextract
        obtain ⟨hdata, hchain⟩ := (ih r'.id).mp htail
        exact ⟨⟨hr, hdata⟩, hlt, hchain⟩
    · rintro ⟨⟨hr, hdata⟩, hlt, hchain⟩
      rw [convertRoutes_ok ((extract_iff hp instances).mpr ⟨hr, hlt⟩),
        (ih r.id).mpr ⟨hdata, hchain⟩]

/-! ### The file -/

theorem exists_scalars {data : List (Route D)} (h : ∀ r ∈ data, r.Entered) :
    ∃ ps : List (Scalars D), List.Forall₂ Scalars.Of ps data ∧
      List.Forall₂ (fun r p => r.json.decode = .ok (.map p.tree)) data ps := by
  induction data with
  | nil => exact ⟨[], .nil, .nil⟩
  | cons r data ih =>
    rw [List.forall_mem_cons] at h
    obtain ⟨p, hp, hdecode⟩ := decode_route h.1
    obtain ⟨ps, hps, hdecodes⟩ := ih h.2
    exact ⟨p :: ps, .cons hp hps, .cons hdecode hdecodes⟩

/-- The file of a collection is parsed as the trees of its routes. -/
theorem parseFile_saveInFile {data : List (Route D)} (h : ∀ r ∈ data, r.Entered)
    {ps : List (Scalars D)}
    (hps : List.Forall₂ (fun r p => r.json.decode = .ok (.map p.tree)) data ps) :
    parseFile (saveInFile data) = .ok (.list (trees ps)) := by
  have hfields : List.Forall₂ (fun fields m => Fields.decode fields = .ok m)
      (data.map fun r => Fields.ofList [("Route", r.fields)]) (ps.map Scalars.tree) := by
    rw [List.forall₂_map_left_iff, List.forall₂_map_right_iff]
    refine hps.imp fun r p hp => ?_
    obtain ⟨m, hm, hp⟩ := bind_ok hp
    cases hp
    exact hm
  have hparse : ∀ n, (data.flatMap (fun r : Route D => r.json.blocks) ++ [[0x5D]]).length ≤ n →
      parseList n (data.flatMap (fun r => r.json.blocks) ++ [[0x5D]]) =
        .ok (trees ps, [[0x5D]]) := by
    intro n hn
    have hlist := parseList_blocks hfields (n := n) (by rwa [List.flatMap_map])
    rwa [List.flatMap_map, List.map_map] at hlist
  unfold parseFile
  rw [fileBlocks_saveInFile fun r hr => (h r hr).named]
  dsimp only [List.tail_cons]
  rw [List.length_cons, hparse _ (Nat.le_succ _)]
  rfl

/-- What is saved is loaded again exactly when it is readable and in order. -/
theorem load_saveInFile_iff {data : List (Route D)} (h : ∀ r ∈ data, r.Entered) :
    load (saveInFile data) = .ok data ↔
      (∀ r ∈ data, r.Readable) ∧ (0 :: ids data).Pairwise (· < ·) := by
  obtain ⟨ps, hof, hdecode⟩ := exists_scalars h
  have hload : load (saveInFile data) = .ok (convertRoutes (trees ps) 0) := by
    unfold load
    rw [parseFile_saveInFile h hdecode]
    have hconvert : convertToListRoute (.list (trees ps)) 0 =
        .ok ((convertRoutes (trees ps) 0).insertionSort fun a b => a.id ≤ b.id) := rfl
    rw [sort_convertRoutes] at hconvert
    exact hconvert
  rw [hload, Except.ok.injEq, convertRoutes_iff hof, List.isChain_iff_pairwise]

/-- For every run of requests from an empty collection, the collection is loaded from
its own file as it was saved exactly when it is readable and its ids increase. -/
theorem load_run_iff (instances : ℤ) (clients : ℕ → ℤ) (events : List Event) :
    let data := (run State.step (State.empty (D := D) instances clients) events).server.data
    load (saveInFile data) = .ok data ↔
      (∀ r ∈ data, r.Readable) ∧ (0 :: ids data).Pairwise (· < ·) :=
  load_saveInFile_iff (run_entered instances clients events)

/-! ### What is lost -/

/-- The collection after requests of clients that have made no routes before. -/
def collection (events : List Event) : List (Route Whole) :=
  (run State.step (State.empty 0 fun _ => 0) events).server.data

/-- A route with the name `null`, one with a distance of ten million, and two routes
after the update of the first one. -/
theorem file_loses_routes :
    let named := collection
      [.route 0 { linesOf "2" with rName := .ofString "null" } .ADD true]
    let distant := collection [.route 0 (linesOf "10000000") .ADD true]
    let updated := collection [.route 0 (linesOf "2") .ADD true, .route 0 (linesOf "3") .ADD true,
      .route 0 (linesOf "4") (.UPDATE (.ofString "1")) true]
    load (saveInFile named) ≠ .ok named ∧ load (saveInFile distant) ≠ .ok distant ∧
      load (saveInFile updated) ≠ .ok updated := by
  have hiff := fun events => load_saveInFile_iff (run_entered (D := Whole) 0 (fun _ => 0) events)
  exact ⟨(hiff _).not.mpr (by decide +kernel), (hiff _).not.mpr (by decide +kernel),
    (hiff _).not.mpr (by decide +kernel)⟩

end Itmo.ProgLab6
