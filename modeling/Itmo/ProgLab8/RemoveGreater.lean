import Itmo.ProgLab8.Session

/-! What `remove_greater` and `remove_lower` remove. The code compares the argument
with each route, `forComparison.compareTo(n)`, so a positive result selects the
routes that are lower than the argument, and the two commands do the work of one
another. -/

namespace Itmo.ProgLab8

open Lib Action Session

variable {D : Type} [Platform D]

/-- The row holds a route with this property. -/
def Row.holds (p : Route D → Bool) (row : Row D) : Bool :=
  match row.toRoute with
  | .ok route => p route
  | .error _ => false

/-- Between the two states exactly the user's rows with the property have gone. -/
def RemovesExactly (s s' : Server D) (user : User) (p : Route D → Bool) : Prop :=
  s'.routes = s.routes.filter fun row => !(row.owner = user.user && row.holds p)

/-- One collection of routes, in the table and in the cache, told apart by their
ids. -/
structure Synced (s : Server D) : Prop where
  data : getRoutes s.routes = .ok s.cache.data
  ids : (s.routes.map (·.id)).Nodup

/-! ### What can be removed -/

/-- From one state to the other, only selected rows of the user have gone. -/
def RemovesOnly (user : User) (p : Row D → Bool) (s s' : Server D) : Prop :=
  ∃ gone : Row D → Bool, (∀ row, gone row → row.owner = user.user ∧ p row) ∧
    s'.routes = s.routes.filter fun row => !gone row

variable {user : User} {p : Row D → Bool} {s₁ s₂ s₃ : Server D}

theorem removesOnly_of_quiet (h : Quiet s₁ s₂) : RemovesOnly user p s₁ s₂ :=
  ⟨fun _ => false, by simp, by simp [h.1]⟩

theorem RemovesOnly.trans (h : RemovesOnly user p s₁ s₂) (h' : RemovesOnly user p s₂ s₃) :
    RemovesOnly user p s₁ s₃ := by
  obtain ⟨gone, hgone, hs⟩ := h
  obtain ⟨gone', hgone', hs'⟩ := h'
  refine ⟨fun row => gone row || gone' row, ?_, ?_⟩
  · intro row hrow
    rw [Bool.or_eq_true] at hrow
    rcases hrow with hrow | hrow
    · exact hgone row hrow
    · exact hgone' row hrow
  · rw [hs', hs, List.filter_filter]
    apply List.filter_congr
    intro row _
    rw [Bool.not_or, Bool.and_comm]

theorem does_deleteWhere_removesOnly (q : Row D → Bool) (hq : ∀ row, q row → p row) :
    Does (RemovesOnly user p) (DatabaseWorker.deleteWhere q user) := by
  intro s
  apply Relation.ReflTransGen.single
  rw [DatabaseWorker.exec_deleteWhere]
  split_ifs
  · exact removesOnly_of_quiet ⟨rfl, rfl⟩
  · refine ⟨fun row => q row && s.credentials user && row.owner = user.user, ?_, rfl⟩
    intro row hrow
    simp only [Bool.and_eq_true, decide_eq_true_eq] at hrow
    exact ⟨hrow.2, hq row hrow.1.1⟩

theorem does_removeAll_removesOnly (newData : List (Route D)) :
    Does (RemovesOnly user fun row => newData.any fun n => row.id = n.id)
      (Commands.removeAll newData user) := by
  refine does_forM newData fun n hn => ?_
  refine Does.bind (does_deleteWhere_removesOnly _ ?_) fun ok => ?_
  · intro row hrow
    exact List.any_eq_true.mpr ⟨n, hn, hrow⟩
  · split_ifs
    · exact does_updateCollection fun _ _ h => removesOnly_of_quiet h
    · exact does_pure _

/-- However the statements end, a command removes only rows of the user with the
ids of the cached routes it selects. -/
theorem removeCompared_removesOnly (s : Server D) (select : ℤ → Bool) (answer : String)
    (x : Route D) :
    RemovesOnly user
      (fun row => (s.cache.data.filter fun n => select (x.compareTo n)).any fun n => row.id = n.id)
      s (exec (Commands.removeCompared select answer [.route x] user) s).2 := by
  have harg : (argument [.route x] 0 >>= castRoute) =
      (pure (some x) : ServerAction D (Option (Route D))) := rfl
  unfold Commands.removeCompared
  simp only [harg, Commands.compared, pure_bind]
  rw [exec_bind_ok (exec_get s)]
  have hquiet : ∀ s₁ s₂ : Server D, Quiet s₁ s₂ → RemovesOnly user
      (fun row => (s.cache.data.filter fun n => select (x.compareTo n)).any fun n => row.id = n.id)
      s₁ s₂ := fun _ _ h => removesOnly_of_quiet h
  refine Does.preserves (I := RemovesOnly user _ s) ?_ (fun _ _ h h₁ => h₁.trans h)
    (removesOnly_of_quiet (.refl s))
  exact (does_lock hquiet).bind fun _ => (does_removeAll_removesOnly _).bind fun _ =>
    (does_unlock hquiet).bind fun _ => does_pure _

/-- The ids of the selected routes are those of the rows that hold them. -/
theorem any_id_eq_holds {s : Server D} (hs : Synced s) (p : Route D → Bool) {row : Row D}
    (hrow : row ∈ s.routes) :
    ((s.cache.data.filter p).any fun n => row.id = n.id) = row.holds p := by
  have hdata := getRoutes_ok hs.data
  obtain ⟨route, hroute, hread⟩ := exists_mem_of_forall₂ hdata hrow
  unfold Row.holds
  rw [hread, Bool.eq_iff_iff, List.any_eq_true]
  constructor
  · rintro ⟨n, hn, hid⟩
    rw [List.mem_filter] at hn
    obtain ⟨row', hrow', hread'⟩ := exists_mem_of_forall₂ hdata.flip hn.1
    have hids : row'.id = row.id := by
      rw [← Row.toRoute_id hread', ← of_decide_eq_true hid]
    obtain rfl := List.inj_on_of_nodup_map hs.ids hrow' hrow hids
    rw [hread, Except.ok.injEq] at hread'
    rw [hread']
    exact hn.2
  · intro hp
    exact ⟨route, List.mem_filter.mpr ⟨hroute, hp⟩, by simp [Row.toRoute_id hread]⟩

/-- The same for a whole request, in terms of the routes the rows hold. -/
theorem step_removesOnly {s : Server D} (hs : Synced s) (command : CommandList)
    (select : ℤ → Bool) (answer : String) (x : Route D)
    (hc : command.getExecutableCommand [.route x] user =
      Commands.removeCompared select answer [.route x] user) :
    ∃ p : Row D → Bool,
      (∀ row ∈ s.routes, p row = row.holds fun n => select (x.compareTo n)) ∧
        RemovesOnly user p s (step s (.request ⟨command, [.route x], user⟩)) := by
  refine ⟨_, fun row hrow => any_id_eq_holds hs _ hrow, ?_⟩
  by_cases hh : s.halted
  · have hstep : step s (.request ⟨command, [.route x], user⟩) = s := if_pos hh
    rw [hstep]
    exact removesOnly_of_quiet (.refl s)
  · rw [Bool.not_eq_true] at hh
    rw [step_request hh, Request.execute, hc]
    exact removeCompared_removesOnly s select answer x

/-! ### Greater and lower -/

theorem Row.holds_of_disjoint {q r : Route D → Bool} (hqr : ∀ n, q n → r n = false) {row : Row D}
    (h : row.holds q) : row.holds r = false := by
  unfold Row.holds at h ⊢
  cases hread : row.toRoute with
  | error e => rfl
  | ok route =>
    rw [hread] at h
    exact hqr route h

/-- Where the selected routes are not those that should go, none should go. -/
theorem RemovesOnly.not_holds {s s' : Server D} (h : RemovesOnly user p s s')
    {q r : Route D → Bool} (hp : ∀ row ∈ s.routes, p row = row.holds q)
    (hqr : ∀ n, q n → r n = false) (hexact : RemovesExactly s s' user r) {row : Row D}
    (hrow : row ∈ s.routes) (howner : row.owner = user.user) : row.holds r = false := by
  obtain ⟨gone, hgone, hs'⟩ := h
  by_contra hr
  have hstays : gone row = false := by
    by_contra hg
    rw [Bool.not_eq_false] at hg
    have hq := (hgone row hg).2
    rw [hp row hrow] at hq
    exact hr (Row.holds_of_disjoint hqr hq)
  have hmem : row ∈ s'.routes := by
    rw [hs', List.mem_filter]
    exact ⟨hrow, by rw [hstays]; rfl⟩
  rw [hexact, List.mem_filter] at hmem
  simp [howner, hr] at hmem

/-- Where nothing is selected and nothing should go, nothing goes. -/
theorem RemovesOnly.removesExactly {s s' : Server D} (h : RemovesOnly user p s s')
    {r : Route D → Bool} (hnone : ∀ row ∈ s.routes, row.owner = user.user →
      p row = false ∧ row.holds r = false) : RemovesExactly s s' user r := by
  obtain ⟨gone, hgone, hs'⟩ := h
  unfold RemovesExactly
  rw [hs']
  apply List.filter_congr
  intro row hrow
  have hstays : gone row = false := by
    by_contra hg
    rw [Bool.not_eq_false] at hg
    obtain ⟨howner, hp⟩ := hgone row hg
    rw [(hnone row hrow howner).1] at hp
    cases hp
  by_cases howner : row.owner = user.user
  · simp [hstays, (hnone row hrow howner).2]
  · simp [hstays, howner]

/-- Neither greater nor lower. -/
theorem holds_compareTo_eq_zero {s : Server D} (hs : Synced s) (x : Route D) {row : Row D}
    (hrow : row ∈ s.routes) :
    (row.holds fun n => n.compareTo x = 0) = true ↔
      (row.holds fun n => n.compareTo x < 0) = false ∧
        (row.holds fun n => 0 < n.compareTo x) = false := by
  obtain ⟨route, -, hread⟩ := exists_mem_of_forall₂ (getRoutes_ok hs.data) hrow
  unfold Row.holds
  rw [hread]
  simp only [decide_eq_true_eq, decide_eq_false_iff_not]
  omega

/-- `remove_greater x` removes exactly the user's routes that are greater than
`x`, and `remove_lower x` exactly the lower ones, only if the user has no route
that compares as different from `x`. -/
theorem removeGreater_removeLower_iff {s : Server D} (hs : Synced s) (user : User) (x : Route D) :
    (RemovesExactly s (step s (.request ⟨.REMOVE_GREATER, [.route x], user⟩)) user
        (fun n => 0 < n.compareTo x) ∧
      RemovesExactly s (step s (.request ⟨.REMOVE_LOWER, [.route x], user⟩)) user
        (fun n => n.compareTo x < 0)) ↔
      ∀ row ∈ s.routes, row.owner = user.user → row.holds fun n => n.compareTo x = 0 := by
  obtain ⟨p, hp, hgreater⟩ := step_removesOnly hs .REMOVE_GREATER (0 < ·) "removedGreater" x
    (rfl : _ = Commands.removeGreater [.route x] user)
  obtain ⟨q, hq, hlower⟩ := step_removesOnly hs .REMOVE_LOWER (· < 0) "removedLower" x
    (rfl : _ = Commands.removeLower [.route x] user)
  simp only [Route.swapNeg_compareTo.pos_iff] at hp
  simp only [← Route.swapNeg_compareTo.pos_iff] at hq
  constructor
  · rintro ⟨hg, hl⟩ row hrow howner
    rw [holds_compareTo_eq_zero hs x hrow]
    constructor
    · apply hlower.not_holds hq ?_ hl hrow howner
      intro n hn
      rw [decide_eq_true_eq] at hn
      rw [decide_eq_false_iff_not]
      omega
    · apply hgreater.not_holds hp ?_ hg hrow howner
      intro n hn
      rw [decide_eq_true_eq] at hn
      rw [decide_eq_false_iff_not]
      omega
  · intro h
    have hboth := fun row hrow howner => (holds_compareTo_eq_zero hs x hrow).mp (h row hrow howner)
    constructor
    · apply hgreater.removesExactly
      intro row hrow howner
      rw [hp row hrow]
      exact hboth row hrow howner
    · apply hlower.removesExactly
      intro row hrow howner
      rw [hq row hrow]
      exact (hboth row hrow howner).symm

/-- A route with the norm of the argument: neither command removes it. -/
theorem removeGreater_removeLower_iff_equal :
    let s := eggServer [.atPoint 1 3 4]
    let x : Route ℤ := .atPoint 0 4 3
    RemovesExactly s (step s (.request ⟨.REMOVE_GREATER, [.route x], egg⟩)) egg
        (fun n => 0 < n.compareTo x) ∧
      RemovesExactly s (step s (.request ⟨.REMOVE_LOWER, [.route x], egg⟩)) egg
        (fun n => n.compareTo x < 0) := by
  refine (removeGreater_removeLower_iff ⟨rfl, by decide⟩ egg _).mpr ?_
  decide +kernel

/-- With a lower and a greater route in the table, each command removes the one
that the other should. -/
theorem removeGreater_removes_wrong_route :
    let s := eggServer [.atPoint 1 3 4, .atPoint 2 12 16]
    let x : Route ℤ := .atPoint 0 6 8
    ¬ RemovesExactly s (step s (.request ⟨.REMOVE_GREATER, [.route x], egg⟩)) egg
        (fun n => 0 < n.compareTo x) ∧
      ¬ RemovesExactly s (step s (.request ⟨.REMOVE_LOWER, [.route x], egg⟩)) egg
        (fun n => n.compareTo x < 0) := by
  unfold RemovesExactly
  decide +kernel

/-! ### What is removed -/

theorem getRoutes_filter {rows : List (Row D)} {data : List (Route D)}
    (h : getRoutes rows = .ok data) (p : Row D → Bool) :
    ∃ data', getRoutes (rows.filter p) = .ok data' := by
  induction rows generalizing data with
  | nil => exact ⟨[], rfl⟩
  | cons row rows ih =>
    obtain ⟨route, hr, h⟩ := bind_ok h
    obtain ⟨data', hrs, -⟩ := bind_ok h
    obtain ⟨data'', hf⟩ := ih hrs
    by_cases hp : p row
    · rw [List.filter_cons_of_pos hp]
      refine ⟨route :: data'', ?_⟩
      unfold getRoutes
      rw [hr, hf]
      rfl
    · rw [List.filter_cons_of_neg hp]
      exact ⟨data'', hf⟩

/-- The database answers, accepts the password, and has rows that can be read. -/
structure Working (user : User) (s : Server D) : Prop where
  fails : ∀ n, s.world.fails n = false
  credentials : s.credentials user = true
  readable : ∃ data, getRoutes s.routes = .ok data

/-- One round: the row of the user with this id is gone. -/
theorem exec_removeOne {s : Server D} (hs : Working user s) (id : ℤ) :
    ∃ s', exec (DatabaseWorker.removeById id user >>= fun removed =>
        if removed then updateCollection else pure ()) s = (.ok (), s') ∧ Working user s' ∧
      s'.routes = s.routes.filter fun row => !(row.owner = user.user && row.id = id) := by
  have hrows : (s.routes.filter fun row =>
      !(decide (row.id = id) && s.credentials user && decide (row.owner = user.user))) =
      s.routes.filter fun row => !(row.owner = user.user && row.id = id) := by
    apply List.filter_congr
    intro row _
    rw [hs.credentials, Bool.and_true, Bool.and_comm]
  have hdelete := DatabaseWorker.exec_deleteWhere (fun row : Row D => row.id = id) user s
  rw [if_neg (by simp [hs.fails]), hrows] at hdelete
  obtain ⟨data, hdata⟩ := hs.readable
  obtain ⟨data', hdata'⟩ := getRoutes_filter hdata fun row =>
    !(row.owner = user.user && row.id = id)
  refine ⟨_, (exec_bind_ok hdelete).trans (exec_updateCollection (hs.fails _) hdata'), ?_, rfl⟩
  exact ⟨hs.fails, hs.credentials, data', hdata'⟩

/-- All rounds: the rows of the user with one of the ids are gone. -/
theorem exec_removeAll {s : Server D} (hs : Working user s)
    (newData : List (Route D)) :
    ∃ s', exec (Commands.removeAll newData user) s = (.ok (), s') ∧
      s'.routes = s.routes.filter fun row =>
        !(row.owner = user.user && newData.any fun n => row.id = n.id) := by
  induction newData generalizing s with
  | nil =>
    refine ⟨s, rfl, ?_⟩
    simp
  | cons route newData ih =>
    obtain ⟨s₁, hone, hs₁, hr₁⟩ := exec_removeOne hs route.id
    obtain ⟨s₂, hall, hr₂⟩ := ih hs₁
    refine ⟨s₂, (exec_bind_ok hone).trans hall, ?_⟩
    rw [hr₂, hr₁, List.filter_filter]
    apply List.filter_congr
    intro row _
    rw [List.any_cons, Bool.and_or_distrib_left, Bool.not_or, Bool.and_comm]

/-- If the database answers, either command removes the user's rows for which the
comparison of the argument with their route is selected. -/
theorem removeCompared_removesExactly {s : Server D} (hs : Synced s) (hw : Working user s)
    (hl : s.locked = false) (select : ℤ → Bool) (answer : String) (x : Route D) :
    RemovesExactly s (exec (Commands.removeCompared select answer [.route x] user) s).2 user
      fun n => select (x.compareTo n) := by
  have harg : (argument [.route x] 0 >>= castRoute) =
      (pure (some x) : ServerAction D (Option (Route D))) := rfl
  have hw' : Working user { s with locked := true } := ⟨hw.fails, hw.credentials, hw.readable⟩
  obtain ⟨s', hall, hr⟩ := exec_removeAll hw' (s.cache.data.filter fun n => select (x.compareTo n))
  unfold Commands.removeCompared
  simp only [harg, Commands.compared, pure_bind]
  rw [exec_bind_ok (exec_get s), exec_bind_ok (exec_lock_free hl), exec_bind_ok hall]
  have hunlock : (exec (unlock >>= fun _ => (pure (.text answer) : ServerAction D (Answer D)))
      s').2.routes = s'.routes := rfl
  unfold RemovesExactly
  rw [hunlock, hr]
  apply List.filter_congr
  intro row hrow
  rw [any_id_eq_holds hs _ hrow]

/-- What `remove_greater` removes are the user's routes that are lower. -/
theorem removeGreater_removes_lower {s : Server D} (hs : Synced s) (hw : Working user s)
    (hl : s.locked = false) (hh : s.halted = false) (x : Route D) :
    RemovesExactly s (step s (.request ⟨.REMOVE_GREATER, [.route x], user⟩)) user
      fun n => n.compareTo x < 0 := by
  have h := removeCompared_removesExactly hs hw hl (0 < ·) "removedGreater" x
  simp only [Route.swapNeg_compareTo.pos_iff] at h
  rw [step_request hh]
  exact h

/-- What `remove_lower` removes are the user's routes that are greater. -/
theorem removeLower_removes_greater {s : Server D} (hs : Synced s) (hw : Working user s)
    (hl : s.locked = false) (hh : s.halted = false) (x : Route D) :
    RemovesExactly s (step s (.request ⟨.REMOVE_LOWER, [.route x], user⟩)) user
      fun n => 0 < n.compareTo x := by
  have h := removeCompared_removesExactly hs hw hl (· < 0) "removedLower" x
  simp only [← Route.swapNeg_compareTo.pos_iff] at h
  rw [step_request hh]
  exact h

end Itmo.ProgLab8
