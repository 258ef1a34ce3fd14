import Itmo.ProgLab8.Credentials

/-! The cache and the table in the eyes of the order. A refresh is skipped when
the lists compare as equal position by position, so the cache need not hold the
routes of the table; what it holds at each position compares as equal with the
route of the table, and for a comparison with the greatest route that is enough. -/

namespace Itmo.ProgLab8

open Lib Action Session

variable {D : Type} [Platform D]

/-- Whatever the database returns, the cache has as many routes, and the two at
the same position compare as equal. -/
def OrderSynced (s : Server D) : Prop :=
  ∀ data, getRoutes s.routes = .ok data →
    List.Forall₂ (fun a b => a.compareTo b = 0) s.cache.data data

/-- No statement fails. -/
def Reliable (s : Server D) : Prop := ∀ n, s.world.fails n = false

/-! ### What the commands keep -/

/-- The database answers and the cache is in order. -/
def Kept (s : Server D) : Prop := Reliable s ∧ OrderSynced s

/-- After an update with the routes of the table the cache is in order, whether
the update noticed a difference or not. -/
theorem forall₂_updateData (now : ℤ) (data : List (Route D)) (c : RouteCollection D) :
    List.Forall₂ (fun a b => a.compareTo b = 0) (c.updateData now data).data data := by
  cases h : RouteCollection.changed c.data data with
  | false =>
    rw [RouteCollection.updateData_of_not_changed h]
    exact (RouteCollection.changed_eq_false_iff _ _).mp h
  | true =>
    rw [RouteCollection.updateData_of_changed h]
    exact List.forall₂_same.mpr fun route _ => Route.swapNeg_compareTo.refl route

/-- Reading the table brings the cache in order, also if it was not before. -/
theorem kept_reload {s : Server D} (h : Reliable s) : Kept (exec reload s).2 := by
  have hread := DatabaseWorker.exec_getAllRoutes s
  rw [h, if_neg (by simp)] at hread
  cases hdata : getRoutes s.routes with
  | ok data =>
    rw [hdata] at hread
    unfold reload
    rw [exec_bind_ok hread]
    refine ⟨h, fun data' hdata' => ?_⟩
    obtain rfl := Except.ok.inj (hdata.symm.trans hdata')
    exact forall₂_updateData _ _ _
  | error e =>
    rw [hdata] at hread
    unfold reload
    rw [exec_bind_error hread]
    refine ⟨h, fun data hok => ?_⟩
    cases hdata.symm.trans hok

theorem kept_updateCollection {s : Server D} (h : Reliable s) :
    Kept (exec updateCollection s).2 := by
  have hreload : (exec updateCollection s).2 = (exec reload s).2 := exec_orOnSQLException_snd _ _ _
  rw [hreload]
  exact kept_reload h

/-- The end of a command keeps the cache in order if the statement does so
whenever it does not report a change. -/
theorem does_finish_kept {statement : ServerAction D Bool}
    (h : ∀ s, Kept s → Reliable (exec statement s).2 ∧
      ((exec statement s).1 = .ok true ∨ OrderSynced (exec statement s).2)) (a b : String) :
    Does (fun s s' => Kept s → Kept s') (finish statement a b) := by
  intro s
  apply Relation.ReflTransGen.single
  intro hs
  obtain ⟨hw, hr⟩ := h s hs
  unfold finish
  rw [exec_bind]
  rcases hexec : exec statement s with ⟨r, s'⟩
  rw [hexec] at hw hr
  rcases r with e | changed
  · exact ⟨hw, hr.resolve_left nofun⟩
  · cases changed with
    | false => exact ⟨hw, hr.resolve_left nofun⟩
    | true =>
      have hk : Kept (exec updateCollection s').2 := kept_updateCollection hw
      dsimp only
      rw [if_pos rfl, exec_bind]
      rcases hupdate : exec updateCollection s' with ⟨r, s''⟩
      rw [hupdate] at hk
      cases r with
      | error e => exact hk
      | ok u => exact hk

/-- A statement that reports no change made none. -/
theorem addNewRoute_kept (route : Option (Route D)) (user : User) {s : Server D} (hs : Kept s) :
    Reliable (exec (DatabaseWorker.addNewRoute route user) s).2 ∧
      ((exec (DatabaseWorker.addNewRoute route user) s).1 = .ok true ∨
        OrderSynced (exec (DatabaseWorker.addNewRoute route user) s).2) := by
  cases route with
  | none =>
    rw [DatabaseWorker.exec_addNewRoute_none]
    exact ⟨hs.1, .inr hs.2⟩
  | some route =>
    rw [DatabaseWorker.exec_addNewRoute, if_neg (by simp [hs.1 s.tick])]
    exact ⟨hs.1, .inl rfl⟩

theorem updateById_kept (route : Option (Route D)) (id : Option ℤ) (user : User) {s : Server D}
    (hs : Kept s) : Reliable (exec (DatabaseWorker.updateById route id user) s).2 ∧
      ((exec (DatabaseWorker.updateById route id user) s).1 = .ok true ∨
        OrderSynced (exec (DatabaseWorker.updateById route id user) s).2) := by
  have hnull : exec (DatabaseWorker.updateById route id user) s = (.error .NullPointerException, s) ∨
      ∃ route' id', route = some route' ∧ id = some id' := by
    rcases route with _ | route
    · exact .inl (exec_orOnSQLException_error rfl)
    · rcases id with _ | id
      · exact .inl (exec_orOnSQLException_error rfl)
      · exact .inr ⟨route, id, rfl, rfl⟩
  rcases hnull with hnull | ⟨route, id, rfl, rfl⟩
  · rw [hnull]
    exact ⟨hs.1, .inr hs.2⟩
  · rw [DatabaseWorker.exec_updateById]
    dsimp only
    rw [if_neg (by simp [hs.1 s.tick])]
    refine ⟨hs.1, ?_⟩
    cases hfound : s.routes.any fun row =>
      s.credentials user && row.id = id && row.owner = user.user with
    | true => exact .inl rfl
    | false =>
      right
      have hrows : Table.updated (fun row : Row D =>
          s.credentials user && row.id = id && row.owner = user.user) (Row.update route) s.routes =
          s.routes := by
        rw [List.any_eq_false] at hfound
        unfold Table.updated
        rw [List.map_congr_left fun row hrow => if_neg (hfound row hrow), List.map_id']
      intro data hdata
      dsimp only at hdata
      rw [hrows] at hdata
      exact hs.2 data hdata

theorem deleteWhere_kept (p : Row D → Bool) (user : User) {s : Server D} (hs : Kept s) :
    Reliable (exec (DatabaseWorker.deleteWhere p user) s).2 ∧
      (exec (DatabaseWorker.deleteWhere p user) s).1 = .ok true := by
  rw [DatabaseWorker.exec_deleteWhere, if_neg (by simp [hs.1 s.tick])]
  exact ⟨hs.1, rfl⟩

/-- Whatever part of a command changes the table ends with a refresh. -/
theorem parts_kept (user : User) (inserts : Prop) :
    Parts (D := D) (fun s s' => Kept s → Kept s') user inserts where
  lock := by
    intro s
    apply Relation.ReflTransGen.single
    intro hs
    cases hl : s.locked with
    | true =>
      rw [exec_lock_held hl]
      exact hs
    | false =>
      rw [exec_lock_free hl]
      exact hs
  unlock := does_modify fun _ hs => hs
  halt _ hs := hs
  add _ route a b := does_finish_kept (fun _ hs => addNewRoute_kept route user hs) a b
  update route id a b := does_finish_kept (fun _ hs => updateById_kept route id user hs) a b
  delete p a b := by
    refine does_finish_kept (fun s hs => ?_) a b
    have h := deleteWhere_kept p user hs
    exact ⟨h.1, .inl h.2⟩
  remove route := by
    intro s
    apply Relation.ReflTransGen.single
    intro hs
    have h := deleteWhere_kept (fun row : Row D => row.id = route.id) user hs
    rw [DatabaseWorker.removeById, exec_bind]
    rcases hexec : exec (DatabaseWorker.deleteWhere (fun row : Row D => row.id = route.id) user) s
      with ⟨r, s'⟩
    rw [hexec] at h
    obtain ⟨hw, rfl⟩ := h
    exact kept_updateCollection hw

/-- A request, a round of the background thread or a login keeps the cache in order. -/
theorem step_kept (s : Server D) (e : Event D) (hs : Kept s) : Kept (step s e) := by
  by_cases hh : s.halted
  · cases e with
    | request r =>
      have hstep : step s (.request r) = s := if_pos hh
      rwa [hstep]
    | reload =>
      have hstep : step s .reload = s := if_pos hh
      rwa [hstep]
    | accounts userdata => exact hs
  · rw [Bool.not_eq_true] at hh
    cases e with
    | request r =>
      rw [step_request hh]
      have hdoes : Does (fun s s' : Server D => Kept s → Kept s') r.execute :=
        (parts_kept r.user _).does_getExecutableCommand r.arguments
      exact hdoes.preserves (fun _ _ h => h) hs
    | reload =>
      rw [step_reload hh]
      exact kept_reload hs.1
    | accounts userdata => exact hs

/-! ### The greatest route -/

/-- No cached route is greater than the one found. -/
theorem maxRoute_spec (hlt : LinearValues D) {data : List (Route D)} {max : Route D}
    (h : Commands.maxRoute data = some max) : max ∈ data ∧ ∀ n ∈ data, 0 ≤ max.compareTo n := by
  cases data with
  | nil => cases h
  | cons r rs =>
    obtain rfl := Option.some.inj h
    exact (Route.transGE_compareTo hlt).foldl_greatest Route.swapNeg_compareTo rs r

/-- Being greater than the greatest cached route is being greater than every route
of the table, if there is one. -/
theorem greater_max_iff (hlt : LinearValues D) {cached data : List (Route D)}
    (h : List.Forall₂ (fun a b => a.compareTo b = 0) cached data) (r : Route D) :
    (∃ max, Commands.maxRoute cached = some max ∧ 0 < r.compareTo max) ↔
      data ≠ [] ∧ ∀ n ∈ data, 0 < r.compareTo n := by
  have htrans := Route.transGE_compareTo hlt
  have hswap := Route.swapNeg_compareTo (D := D)
  constructor
  · rintro ⟨max, hmax, hr⟩
    obtain ⟨hmem, hall⟩ := maxRoute_spec hlt hmax
    constructor
    · rintro rfl
      cases h
      cases hmem
    · intro n hn
      obtain ⟨n', hn', heq⟩ := exists_mem_of_forall₂ h.flip hn
      exact (htrans.pos_congr hswap heq r).mp (htrans.pos_trans hswap hr (hall n' hn'))
  · rintro ⟨hne, hall⟩
    cases hmax : Commands.maxRoute cached with
    | none =>
      cases h with
      | nil => exact absurd rfl hne
      | cons => cases hmax
    | some max =>
      obtain ⟨hmem, -⟩ := maxRoute_spec hlt hmax
      obtain ⟨n, hn, heq⟩ := exists_mem_of_forall₂ h hmem
      exact ⟨max, rfl, (htrans.pos_congr hswap heq r).mpr (hall n hn)⟩

/-- The server runs, and the request ends with an answer. -/
def Served (s : Server D) (r : Request D) : Prop :=
  s.halted = false ∧ ∃ answer, (exec r.execute s).1 = .ok answer

theorem served_of_isOk {s : Server D} {r : Request D} (hh : s.halted = false)
    (h : (exec r.execute s).1.isOk = true) : Served s r := by
  refine ⟨hh, ?_⟩
  cases hx : (exec r.execute s).1 with
  | ok answer => exact ⟨answer, rfl⟩
  | error e =>
    rw [hx] at h
    cases h

/-- Without the lock there is no answer. -/
theorem Served.locked {s : Server D} {r : Route D} {rest : List (Object D)} {user : User}
    (h : Served s ⟨.ADD_IF_MAX, .route r :: rest, user⟩) : s.locked = false := by
  obtain ⟨-, answer, hanswer⟩ := h
  by_contra hl
  rw [Bool.not_eq_false] at hl
  simp only [Request.execute, CommandList.getExecutableCommand, Commands.addIfMax, argument,
    castRoute, List.getElem?_cons_zero, pure_bind] at hanswer
  rw [exec_bind_error (exec_lock_held hl)] at hanswer
  cases hanswer

theorem addIfMax_inserts_iff (hlt : LinearValues D) {s : Server D} (hs : Kept s) {user : User}
    {r : Route D} {rest : List (Object D)}
    (hserved : Served s ⟨.ADD_IF_MAX, .route r :: rest, user⟩) {data : List (Route D)}
    (hdata : getRoutes s.routes = .ok data) :
    (step s (.request ⟨.ADD_IF_MAX, .route r :: rest, user⟩)).routes =
        s.routes ++ [.ofRoute s.serial r user.user] ↔
      s.routes ≠ [] ∧ ∀ n ∈ data, 0 < r.compareTo n := by
  have hh := hserved.1
  have hl := hserved.locked
  have hempty : s.routes ≠ [] ↔ data ≠ [] := by
    rw [← List.length_pos_iff, ← List.length_pos_iff, (getRoutes_ok hdata).length_eq]
  rw [hempty, ← greater_max_iff hlt (hs.2 data hdata), step_request hh, Request.execute]
  have hroutes := addIfMax_routes (.route r :: rest) user s hh
  simp only [CommandList.getExecutableCommand]
  rw [hroutes, List.append_cancel_left_eq]
  unfold inserted
  rw [hh, hl, hs.1 s.tick]
  cases Commands.maxRoute s.cache.data with
  | none => simp
  | some max =>
    by_cases hr : 0 < r.compareTo max <;> simp [hr]

/-- In every run whose statements do not fail, from a cache in order: the cache
stays in order, and an `add_if_max` that is served inserts its route exactly if the
table has one and the new one is greater than all of them. -/
theorem cache_order (hlt : LinearValues D) {s : Server D} (hw : Reliable s) (hs : OrderSynced s)
    (es : List (Event D)) :
    Along step (fun s e => OrderSynced (step s e)) s es ∧
      ∀ (user : User) (r : Route D) (rest : List (Object D)) (data : List (Route D)),
        Served (run step s es) ⟨.ADD_IF_MAX, .route r :: rest, user⟩ →
        getRoutes (run step s es).routes = .ok data →
        ((step (run step s es) (.request ⟨.ADD_IF_MAX, .route r :: rest, user⟩)).routes =
            (run step s es).routes ++ [.ofRoute (run step s es).serial r user.user] ↔
          (run step s es).routes ≠ [] ∧ ∀ n ∈ data, 0 < r.compareTo n) := by
  have hk : Kept s := ⟨hw, hs⟩
  constructor
  · exact along_of_invariant Kept step_kept (fun s e h => (step_kept s e h).2) hk es
  · intro user r rest data hserved hdata
    exact addIfMax_inserts_iff hlt (run_invariant Kept step_kept hk es) hserved hdata

/-- The table has moved the route on a circle, which the cache has not noticed; a
route farther out is inserted. -/
theorem cache_order_moved :
    let s := eggServer [.atPoint 1 3 4]
    let moved := run step s [.request ⟨.UPDATE, [.route (.atPoint 0 4 3), .integer 1], egg⟩]
    moved.routes = [.ofRoute 1 (.atPoint 0 4 3) egg.user] ∧
      moved.cache.data = [.atPoint 1 3 4] ∧
      (step moved (.request ⟨.ADD_IF_MAX, [.route (.atPoint 0 6 8)], egg⟩)).routes =
        moved.routes ++ [.ofRoute 2 (.atPoint 0 6 8) egg.user] := by
  have hs : OrderSynced (eggServer [.atPoint 1 3 4]) := by
    intro data hdata
    obtain rfl : [.atPoint 1 3 4] = data := Except.ok.inj hdata
    exact List.forall₂_same.mpr fun route _ => Route.swapNeg_compareTo.refl route
  refine ⟨by decide +kernel, by decide +kernel, ?_⟩
  exact ((cache_order linearValues_int (fun _ => rfl) hs
    [.request ⟨.UPDATE, [.route (.atPoint 0 4 3), .integer 1], egg⟩]).2 egg (.atPoint 0 6 8) []
      [.atPoint 1 4 3] (served_of_isOk (by decide +kernel) (by decide +kernel))
      (by rfl)).mpr (by decide +kernel)

end Itmo.ProgLab8
