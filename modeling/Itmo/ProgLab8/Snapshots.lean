import Itmo.Lib.System
import Itmo.ProgLab8.Session

/-! The polling thread and the commands. Both read the table and bring the cache
up to date with what they have read, in two steps. The commands wait for each
other, but the polling thread waits for nobody between its two steps, so what it
has read can be older than what the cache holds by then. -/

namespace Itmo.ProgLab8

open Lib Action

namespace Snapshots

/-! ### State -/

section State

variable (D : Type) [Platform D]

/-- Where the command is that holds the lock, if there is one. If its statement has
changed the table, it keeps the snapshots that were taken before. -/
inductive Command where
  | idle
  | executed (before : Option (List (List (Route D))))
  | read (before : Option (List (List (Route D)))) (data : List (Route D))

/-- The server, the command that runs, what the polling thread has read, all
snapshots so far, those that were taken before the last change whose command has
brought the cache up to date, and the contents of the table since then. -/
structure State where
  server : Server D
  command : Command D
  polled : Option (List (Route D))
  taken : List (List (Route D))
  before : List (List (Route D))
  since : List (List (Row D))

/-- The statements of the mutating commands. -/
inductive Statement where
  | addNewRoute (route : Route D) (user : User)
  | updateById (route : Route D) (id : ℤ) (user : User)
  | removeById (id : ℤ) (user : User)
  | clear (user : User)

/-- The three steps of a command that holds the lock, and the two of the polling
thread. -/
inductive Event where
  | execute (statement : Statement D)
  | getAllRoutes
  | updateData
  | poll
  | pollUpdate

end State

variable {D : Type} [Platform D]

def Statement.execute : Statement D → ServerAction D Bool
  | .addNewRoute route user => DatabaseWorker.addNewRoute (some route) user
  | .updateById route id user => DatabaseWorker.updateById (some route) (some id) user
  | .removeById id user => DatabaseWorker.removeById id user
  | .clear user => DatabaseWorker.clear user

def step [DecidableEq D] (s : State D) : Event D → State D
  | .execute statement =>
    match s.command with
    | .idle =>
      match exec statement.execute s.server with
      | (.ok true, server) =>
        { s with
          server := server
          command := .executed (if server.routes = s.server.routes then none else some s.taken)
          since := server.routes :: s.since }
      | (_, server) => { s with server := server, since := server.routes :: s.since }
    | _ => s
  | .getAllRoutes =>
    match s.command with
    | .executed before =>
      match exec DatabaseWorker.getAllRoutes s.server with
      | (.ok data, server) =>
        { s with server := server, command := .read before data, taken := data :: s.taken }
      | (.error _, server) => { s with server := server, command := .idle }
    | _ => s
  | .updateData =>
    match s.command with
    | .read before data =>
      let server := (exec (updateData data) s.server).2
      match before with
      | some before =>
        { s with server := server, command := .idle, before := before, since := [server.routes] }
      | none => { s with server := server, command := .idle }
    | _ => s
  | .poll =>
    match s.polled with
    | none =>
      match exec DatabaseWorker.getAllRoutes s.server with
      | (.ok data, server) =>
        { s with server := server, polled := some data, taken := data :: s.taken }
      | (.error _, server) => { s with server := server }
    | some _ => s
  | .pollUpdate =>
    match s.polled with
    | some data => { s with server := (exec (updateData data) s.server).2, polled := none }
    | none => s

/-- A server on which no command has run yet. -/
def start (server : Server D) : State D where
  server := server
  command := .idle
  polled := none
  taken := [server.cache.data]
  before := []
  since := [server.routes]

/-! ### Properties -/

/-- If the cache is a snapshot from before the last change that has arrived in it,
the table has had that content again since then. -/
def Settled (s : State D) : Prop :=
  s.server.cache.data ∈ s.before → ∃ rows ∈ s.since, getRoutes rows = .ok s.server.cache.data

/-- A command that has changed the table finds a difference to the cache, or finds
it up to date; and what the polling thread puts into the cache is no snapshot from
before the last change, unless the table has had that content again since then. -/
def InOrder (s : State D) : Event D → Prop
  | .updateData => ∀ before data, s.command = .read (some before) data →
      RouteCollection.changed s.server.cache.data data ∨ s.server.cache.data = data
  | .pollUpdate => ∀ data ∈ s.polled, RouteCollection.changed s.server.cache.data data →
      data ∈ s.before → ∃ rows ∈ s.since, getRoutes rows = .ok data
  | _ => True

/-! ### The steps of the server -/

theorem exec_execute_cache (statement : Statement D) (s : Server D) :
    (exec statement.execute s).2.cache = s.cache := by
  cases statement with
  | addNewRoute route user =>
    rw [Statement.execute, DatabaseWorker.exec_addNewRoute]
    split_ifs <;> rfl
  | updateById route id user =>
    rw [Statement.execute, DatabaseWorker.exec_updateById]
    dsimp only
    split_ifs <;> rfl
  | removeById id user =>
    rw [Statement.execute, DatabaseWorker.removeById, DatabaseWorker.exec_deleteWhere]
    split_ifs <;> rfl
  | clear user =>
    rw [Statement.execute, DatabaseWorker.clear, DatabaseWorker.exec_deleteWhere]
    split_ifs <;> rfl

theorem exec_getAllRoutes_snd (s : Server D) : (exec DatabaseWorker.getAllRoutes s).2 = s.next := by
  rw [DatabaseWorker.exec_getAllRoutes]

theorem exec_getAllRoutes_ok {s s' : Server D} {data : List (Route D)}
    (h : exec DatabaseWorker.getAllRoutes s = (.ok data, s')) : getRoutes s.routes = .ok data := by
  rw [DatabaseWorker.exec_getAllRoutes] at h
  have hfst := (Prod.mk.inj h).1
  split_ifs at hfst
  exact hfst

theorem exec_updateData_snd (data : List (Route D)) (s : Server D) :
    (exec (updateData data) s).2 =
      { s with cache := s.cache.updateData (s.world.now s.tick) data } := rfl

/-- The cache holds the new routes, or nothing has changed. -/
theorem updateData_data (now : ℤ) (data : List (Route D)) (c : RouteCollection D) :
    (c.updateData now data).data =
      if RouteCollection.changed c.data data then data else c.data := by
  unfold RouteCollection.updateData
  split_ifs <;> rfl

/-! ### The invariant -/

/-- The snapshots from before the change of the running command. -/
def Command.before : Command D → Option (List (List (Route D)))
  | .idle => none
  | .executed before => before
  | .read before _ => before

/-- The table is as the running command has left it: what was not read before its
change is what can be read now. -/
structure Inv (s : State D) : Prop where
  settled : Settled s
  cached : s.server.cache.data ∈ s.taken
  current : s.server.routes ∈ s.since
  polled : ∀ data ∈ s.polled, data ∈ s.taken
  read : ∀ before data, s.command = .read before data →
    data ∈ s.taken ∧ getRoutes s.server.routes = .ok data
  changed : ∀ before ∈ s.command.before, ∀ data ∈ s.taken,
    data ∈ before ∨ getRoutes s.server.routes = .ok data

theorem inv_start (server : Server D) : Inv (start server) where
  settled := by simp [Settled, start]
  cached := by simp [start]
  current := by simp [start]
  polled := by simp [start]
  read := by simp [start]
  changed := by simp [start, Command.before]

variable {s : State D}

/-- The statement of a command. -/
theorem Inv.execute (h : Inv s) {server : Server D} (hcache : server.cache = s.server.cache)
    (command : Command D) (hread : ∀ before data, command ≠ .read before data)
    (hbefore : ∀ before ∈ command.before, before = s.taken) :
    Inv { s with server := server, since := server.routes :: s.since, command := command } where
  settled := by
    intro hmem
    rw [hcache] at hmem
    obtain ⟨rows, hrows, hdata⟩ := h.settled hmem
    refine ⟨rows, List.mem_cons_of_mem _ hrows, ?_⟩
    rw [hdata, ← hcache]
  cached := by
    rw [hcache]
    exact h.cached
  current := List.mem_cons_self
  polled := h.polled
  read before data hcommand := absurd hcommand (hread before data)
  changed before hmem data hdata := by
    rw [hbefore before hmem]
    exact .inl hdata

/-- The table is read, by the command or by the polling thread. -/
theorem Inv.take (h : Inv s) {data : List (Route D)} (hdata : getRoutes s.server.routes = .ok data) :
    Inv { s with server := s.server.next, taken := data :: s.taken } where
  settled := h.settled
  cached := List.mem_cons_of_mem _ h.cached
  current := h.current
  polled data' hdata' := List.mem_cons_of_mem _ (h.polled data' hdata')
  read before data' hcommand :=
    ⟨List.mem_cons_of_mem _ (h.read before data' hcommand).1, (h.read before data' hcommand).2⟩
  changed before hmem := by
    rw [List.forall_mem_cons]
    exact ⟨.inr hdata, h.changed before hmem⟩

/-- Something is put into the cache that has been read, and the cache stays settled. -/
theorem Inv.update (h : Inv s) {server : Server D} (hroutes : server.routes = s.server.routes)
    {data : List (Route D)} (hdata : data ∈ s.taken) {now : ℤ}
    (hcache : server.cache = s.server.cache.updateData now data)
    (hsettled : Settled { s with server := server }) : Inv { s with server := server } where
  settled := hsettled
  cached := by
    rw [hcache, updateData_data]
    split_ifs
    · exact hdata
    · exact h.cached
  current := by
    rw [hroutes]
    exact h.current
  polled := h.polled
  read before data' hcommand := by
    rw [hroutes]
    exact h.read before data' hcommand
  changed before hmem := by
    rw [hroutes]
    exact h.changed before hmem

theorem Inv.next (h : Inv s) : Inv { s with server := s.server.next } :=
  ⟨h.settled, h.cached, h.current, h.polled, h.read, h.changed⟩

theorem Inv.setPolled (h : Inv s) {polled : Option (List (Route D))}
    (hpolled : ∀ data ∈ polled, data ∈ s.taken) : Inv { s with polled := polled } :=
  ⟨h.settled, h.cached, h.current, hpolled, h.read, h.changed⟩

theorem Inv.setCommand (h : Inv s) {command : Command D}
    (hread : ∀ before data, command = .read before data →
      data ∈ s.taken ∧ getRoutes s.server.routes = .ok data)
    (hbefore : ∀ before ∈ command.before, before ∈ s.command.before) :
    Inv { s with command := command } :=
  ⟨h.settled, h.cached, h.current, h.polled, hread, fun before hmem =>
    h.changed before (hbefore before hmem)⟩

theorem Inv.setIdle (h : Inv s) : Inv { s with command := .idle } :=
  h.setCommand nofun nofun

/-! ### Updates of the cache -/

/-- The cache after an update is settled if the new snapshot may be there. -/
theorem settled_update_iff (h : Inv s) {server : Server D} {now : ℤ} {data : List (Route D)}
    (hcache : server.cache = s.server.cache.updateData now data) :
    Settled { s with server := server } ↔ (RouteCollection.changed s.server.cache.data data →
      data ∈ s.before → ∃ rows ∈ s.since, getRoutes rows = .ok data) := by
  have hsettled := h.settled
  unfold Settled at hsettled ⊢
  dsimp only
  rw [hcache, updateData_data]
  cases RouteCollection.changed s.server.cache.data data
  · simpa using hsettled
  · simp

/-- The cache after the update of a command that has changed the table. -/
theorem settled_change_iff (h : Inv s) {before : List (List (Route D))} {data : List (Route D)}
    (hcommand : s.command = .read (some before) data) {server : Server D} {now : ℤ}
    (hroutes : server.routes = s.server.routes)
    (hcache : server.cache = s.server.cache.updateData now data) :
    Settled { s with
        server := server, command := .idle, before := before, since := [server.routes] } ↔
      RouteCollection.changed s.server.cache.data data ∨ s.server.cache.data = data := by
  have hdata := (h.read _ _ hcommand).2
  have hold := h.changed before (by rw [hcommand]; rfl) _ h.cached
  unfold Settled
  simp only [List.mem_singleton, exists_eq_left, hroutes, hcache, updateData_data, hdata]
  cases hchanged : RouteCollection.changed s.server.cache.data data with
  | true => simp
  | false =>
    simp only [Bool.false_eq_true, if_false, false_or, Except.ok.injEq]
    constructor
    · intro hsettled
      rcases hold with hmem | hread
      · exact (hsettled hmem).symm
      · exact Except.ok.inj (hread.symm.trans hdata)
    · intro he _
      exact he.symm

/-! ### Steps -/

variable [DecidableEq D]

theorem step_execute (h : Inv s) (statement : Statement D) :
    Inv (step s (.execute statement)) := by
  cases hcommand : s.command with
  | executed => simpa only [step, hcommand] using h
  | read => simpa only [step, hcommand] using h
  | idle =>
    have hcache := exec_execute_cache statement s.server
    simp only [step, hcommand]
    rcases hexec : exec statement.execute s.server with ⟨result, server⟩
    rw [hexec] at hcache
    have hidle := h.execute hcache .idle nofun nofun
    match result with
    | .error _ => exact hidle
    | .ok false => exact hidle
    | .ok true =>
      refine h.execute hcache _ nofun fun before hmem => ?_
      rw [Command.before] at hmem
      split_ifs at hmem
      · cases hmem
      · exact (Option.some.inj hmem).symm

theorem step_getAllRoutes (h : Inv s) : Inv (step s .getAllRoutes) := by
  cases hcommand : s.command with
  | idle => simpa only [step, hcommand] using h
  | read => simpa only [step, hcommand] using h
  | executed before =>
    simp only [step, hcommand]
    rcases hexec : exec DatabaseWorker.getAllRoutes s.server with ⟨result, server⟩
    have hserver := exec_getAllRoutes_snd s.server
    rw [hexec] at hserver
    obtain rfl : server = s.server.next := hserver
    cases result with
    | error e => exact h.next.setIdle
    | ok data =>
      have hdata := exec_getAllRoutes_ok hexec
      refine (h.take hdata).setCommand (fun before' data' he => ?_) fun before' hmem => ?_
      · cases he
        exact ⟨List.mem_cons_self, hdata⟩
      · rw [hcommand]
        exact hmem

theorem step_poll (h : Inv s) : Inv (step s .poll) := by
  cases hpolled : s.polled with
  | some data => simpa only [step, hpolled] using h
  | none =>
    simp only [step, hpolled]
    rcases hexec : exec DatabaseWorker.getAllRoutes s.server with ⟨result, server⟩
    have hserver := exec_getAllRoutes_snd s.server
    rw [hexec] at hserver
    obtain rfl : server = s.server.next := hserver
    cases result with
    | error e =>
      dsimp only
      rw [← hpolled]
      exact h.next
    | ok data =>
      refine (h.take (exec_getAllRoutes_ok hexec)).setPolled ?_
      rintro data' ⟨rfl⟩
      exact List.mem_cons_self

/-- A step keeps the cache settled exactly if it is in order. -/
theorem step_settled_iff (h : Inv s) (e : Event D) : Settled (step s e) ↔ InOrder s e := by
  cases e with
  | execute statement => exact iff_of_true (step_execute h statement).settled trivial
  | getAllRoutes => exact iff_of_true (step_getAllRoutes h).settled trivial
  | poll => exact iff_of_true (step_poll h).settled trivial
  | updateData =>
    cases hcommand : s.command with
    | idle => simpa [step, InOrder, hcommand] using h.settled
    | executed => simpa [step, InOrder, hcommand] using h.settled
    | read before data =>
      cases before with
      | none =>
        have hdata := (h.read _ _ hcommand).2
        have hsettled := (settled_update_iff h
          (congrArg Server.cache (exec_updateData_snd data s.server))).mpr
          fun _ _ => ⟨_, h.current, hdata⟩
        simp only [step, InOrder, hcommand]
        exact iff_of_true hsettled nofun
      | some before =>
        have hsettled := settled_change_iff h hcommand (by rw [exec_updateData_snd])
          (congrArg Server.cache (exec_updateData_snd data s.server))
        simp only [step, InOrder, hcommand]
        rw [hsettled]
        simp
  | pollUpdate =>
    cases hpolled : s.polled with
    | none => simpa [step, InOrder, hpolled] using h.settled
    | some data =>
      simp only [step, InOrder, hpolled, Option.mem_def, Option.some.injEq, forall_eq']
      exact settled_update_iff h (congrArg Server.cache (exec_updateData_snd data s.server))

theorem step_inv (h : Inv s) {e : Event D} (hsettled : Settled (step s e)) : Inv (step s e) := by
  cases e with
  | execute statement => exact step_execute h statement
  | getAllRoutes => exact step_getAllRoutes h
  | poll => exact step_poll h
  | updateData =>
    cases hcommand : s.command with
    | idle => simpa only [step, hcommand] using h
    | executed => simpa only [step, hcommand] using h
    | read before data =>
      have hupdate := exec_updateData_snd data s.server
      have hdata := h.read _ _ hcommand
      cases before with
      | none =>
        simp only [step, hcommand] at hsettled ⊢
        exact (h.update (by rw [hupdate]) hdata.1 (congrArg Server.cache hupdate) hsettled).setIdle
      | some before =>
        simp only [step, hcommand] at hsettled ⊢
        refine ⟨hsettled, ?_, List.mem_singleton_self _, h.polled, nofun, nofun⟩
        dsimp only
        rw [hupdate]
        dsimp only
        rw [updateData_data]
        split_ifs
        · exact hdata.1
        · exact h.cached
  | pollUpdate =>
    cases hpolled : s.polled with
    | none => simpa only [step, hpolled] using h
    | some data =>
      have hupdate := exec_updateData_snd data s.server
      simp only [step, hpolled] at hsettled ⊢
      exact (h.update (by rw [hupdate]) (h.polled data hpolled) (congrArg Server.cache hupdate)
        hsettled).setPolled nofun

/-- For every interleaving of the polling thread with the commands: the cache never
goes back exactly if every update of it is in order. -/
theorem snapshots_in_order_iff (server : Server D) (es : List (Event D)) :
    Along step (fun s e => Settled (step s e)) (start server) es ↔
      Along step InOrder (start server) es :=
  along_iff_along Inv (fun _ e h _ => step_settled_iff h e)
    (fun _ e h _ horder => step_inv h ((step_settled_iff h e).mpr horder)) (inv_start server)
    (along_of_forall_mem (fun _ _ _ => trivial) _)

instance (s : State ℤ) : Decidable (Settled s) :=
  inferInstanceAs (Decidable (_ ∈ _ → ∃ rows ∈ _, _))

/-- The polling thread reads the table, `egg` adds a route, and then the thread
updates the cache: the route is gone again, while it is still in the table. -/
theorem stale_snapshot_arrives :
    let es : List (Event ℤ) := [.poll, .execute (.addNewRoute (.atPoint 0 6 8) egg), .getAllRoutes,
      .updateData, .pollUpdate]
    let s := run step (start (eggServer [.atPoint 1 3 4])) es
    s.server.cache.data = [.atPoint 1 3 4] ∧
      s.server.routes = [.ofRoute 1 (.atPoint 1 3 4) egg.user, .ofRoute 2 (.atPoint 0 6 8) egg.user] ∧
      ¬ Along step (fun s e => Settled (step s e)) (start (eggServer [.atPoint 1 3 4])) es := by
  decide +kernel

end Snapshots

end Itmo.ProgLab8
