import Itmo.Lib.System
import Itmo.Web4.Users
import Mathlib.Logic.Function.Basic

/-! Sign-ups and sign-ins that run at the same time. A call looks for the name,
draws tokens until one is free, and saves; each query sees what is committed at its
moment, and the entity `User` declares no constraint but its key, so a save goes
through whatever has been saved since the look. Without interleaving the steps are
the methods of `UserService`. -/

namespace Itmo.Web4

open Lib

namespace SignUps

/-! ### State -/

/-- Where a call is: `addUser` or `signIn` after the look for the name, and after a
token was drawn. -/
inductive Phase where
  | idle
  | adding (username password : String)
  | signing (user : User)
  | inserting (username password : String) (token : Int64)
  | updating (user : User) (token : Int64)

structure State where
  db : Users
  phase : ℕ → Phase

/-- The look of a new call, one pass of the loop of `getToken`, or the save; the
database may refuse the statement for a reason of its own. -/
inductive Event where
  | addUser (call : ℕ) (username password : String)
  | signIn (call : ℕ) (username password : String)
  | draw (call : ℕ) (token : Int64)
  | save (call : ℕ) (salt : ℕ) (fails : Bool)

def State.setPhase (s : State) (call : ℕ) (phase : Phase) : State :=
  { s with phase := Function.update s.phase call phase }

/-- A call whose loop has ended with the token. -/
def Phase.drawn (token : Int64) : Phase → Phase
  | .adding username password => .inserting username password token
  | .signing user => .updating user token
  | phase => phase

/-- The call is in the loop of `getToken`. -/
def Phase.isDrawing : Phase → Bool
  | .adding .. => true
  | .signing .. => true
  | _ => false

variable (encoder : Encoder) (boxed : Int64 → Bool)

/-- The table after the save of a call. -/
def saved (db : Users) (salt : ℕ) : Phase → Users
  | .inserting username password token =>
    db.insert username (encoder.encode password salt) token
  | .updating user token => db.update user token
  | _ => db

def step (s : State) : Event → State
  | .addUser i username password =>
    match s.phase i, s.db.findUserByUsername username with
    | .idle, .ok none => s.setPhase i (.adding username password)
    | _, _ => s
  | .signIn i username password =>
    match s.phase i, authenticate encoder s.db username password with
    | .idle, .ok user => s.setPhase i (.signing user)
    | _, _ => s
  | .draw i token =>
    if (s.phase i).isDrawing then
      match s.db.findToken boxed token with
      | .ok found =>
        if found.isSome || token == 0 then s else s.setPhase i ((s.phase i).drawn token)
      | .error _ => s.setPhase i .idle
    else s
  | .save i salt fails =>
    if (s.phase i).isDrawing then s
    else if fails then s.setPhase i .idle
    else { s.setPhase i .idle with db := saved encoder s.db salt (s.phase i) }

/-- No call is running. -/
def start (db : Users) : State := ⟨db, fun _ => .idle⟩

/-! ### Properties -/

/-- What a save may not meet: a stored user with the name or the token of the new
one, another user with the token of the loaded one. -/
def Phase.Fresh (db : Users) : Phase → Prop
  | .inserting username _ token => ∀ u ∈ db.rows, u.username ≠ username ∧ u.token ≠ token
  | .updating user token => token = user.token ∨ ∀ v ∈ db.rows, v.id ≠ user.id → v.token ≠ token
  | _ => True

instance (db : Users) : DecidablePred (Phase.Fresh db)
  | .idle => inferInstanceAs (Decidable True)
  | .adding .. => inferInstanceAs (Decidable True)
  | .signing _ => inferInstanceAs (Decidable True)
  | .inserting username _ token =>
    inferInstanceAs (Decidable (∀ u ∈ db.rows, u.username ≠ username ∧ u.token ≠ token))
  | .updating user token =>
    inferInstanceAs (Decidable (token = user.token ∨ ∀ v ∈ db.rows, v.id ≠ user.id → v.token ≠ token))

/-- A save that the database carries out is fresh at its moment. -/
def Proper (s : State) : Event → Prop
  | .save i _ false => (s.phase i).Fresh s.db
  | _ => True

instance (s : State) : DecidablePred (Proper s)
  | .save i _ false => inferInstanceAs (Decidable ((s.phase i).Fresh s.db))
  | .save _ _ true => inferInstanceAs (Decidable True)
  | .addUser .. => inferInstanceAs (Decidable True)
  | .signIn .. => inferInstanceAs (Decidable True)
  | .draw .. => inferInstanceAs (Decidable True)

/-- The row of a loaded entity is still there under its name. -/
def Stored (db : Users) (user : User) : Prop :=
  ∃ r ∈ db.rows, r.id = user.id ∧ r.username = user.username

def Phase.Sane (db : Users) : Phase → Prop
  | .signing user => Stored db user
  | .updating user token => Stored db user ∧ token ≠ 0
  | .inserting _ _ token => token ≠ 0
  | _ => True

structure Sane (s : State) : Prop where
  keyed : Keyed s.db
  calls : ∀ i, (s.phase i).Sane s.db

/-! ### Stored rows stay stored -/

variable {encoder boxed} {db : Users} {user : User}

theorem Stored.insert (h : Stored db user) (username password : String) (token : Int64) :
    Stored (db.insert username password token) user := by
  obtain ⟨r, hr, hkey⟩ := h
  exact ⟨r, List.mem_append_left _ hr, hkey⟩

theorem Stored.update (hkeyed : Keyed db) (h : Stored db user) {loaded : User}
    (hloaded : Stored db loaded) (token : Int64) : Stored (db.update loaded token) user := by
  by_cases hne : token = loaded.token
  · have hsame : db.update loaded token = db := if_pos hne
    rw [hsame]
    exact h
  · obtain ⟨r, hr, hid, hname⟩ := h
    by_cases hrow : r.id = loaded.id
    · obtain ⟨r', hr', hid', hname'⟩ := hloaded
      have heq := eq_of_key hkeyed.ids hr hr' (hrow.trans hid'.symm)
      refine ⟨_, (mem_update hne).mpr (Or.inl ⟨rfl, r, hr, hrow⟩), hrow.symm.trans hid, ?_⟩
      rw [← hname, heq]
      exact hname'.symm
    · exact ⟨r, (mem_update hne).mpr (Or.inr ⟨hr, hrow⟩), hid, hname⟩

/-- A call stays sane through the save of another one. -/
theorem Phase.Sane.saved (hkeyed : Keyed db) {other : Phase} (hother : other.Sane db)
    {phase : Phase} (h : phase.Sane db) (salt : ℕ) : phase.Sane (saved encoder db salt other) := by
  have hstored : ∀ u, Stored db u → Stored (SignUps.saved encoder db salt other) u := by
    intro u hu
    cases other with
    | inserting => exact hu.insert _ _ _
    | updating => exact hu.update hkeyed hother.1 _
    | idle => exact hu
    | adding => exact hu
    | signing => exact hu
  cases phase with
  | signing user => exact hstored user h
  | updating user token => exact ⟨hstored user h.1, h.2⟩
  | inserting => exact h
  | idle => trivial
  | adding => trivial

theorem keyed_saved (hkeyed : Keyed db) (phase : Phase) (salt : ℕ) :
    Keyed (saved encoder db salt phase) := by
  cases phase with
  | inserting => exact keyed_insert hkeyed
  | updating user => exact keyed_update hkeyed user
  | idle => exact hkeyed
  | adding => exact hkeyed
  | signing => exact hkeyed

variable (encoder) in
/-- A save keeps names and tokens distinct exactly when it is fresh. -/
theorem distinct_saved_iff (hkeyed : Keyed db) (h : Distinct db.rows) {phase : Phase}
    (hphase : phase.Sane db) (salt : ℕ) :
    Distinct (saved encoder db salt phase).rows ↔ phase.Fresh db := by
  cases phase with
  | inserting username password token =>
    refine (distinct_insert_iff h).trans (forall₂_congr fun u hu => and_congr_right fun _ => ?_)
    constructor
    · intro hzero heq
      exact hphase (heq.symm.trans (hzero heq))
    · intro hne heq
      exact absurd heq hne
  | updating user token => exact distinct_update_iff hkeyed h hphase.1 hphase.2
  | idle => exact iff_of_true h trivial
  | adding => exact iff_of_true h trivial
  | signing => exact iff_of_true h trivial

/-! ### Steps -/

variable {s : State}

theorem Sane.setPhase (h : Sane s) (i : ℕ) {phase : Phase} (hphase : phase.Sane s.db) :
    Sane (s.setPhase i phase) := by
  refine ⟨h.keyed, fun j => ?_⟩
  show (Function.update s.phase i phase j).Sane s.db
  by_cases hj : j = i
  · subst hj
    rw [Function.update_self]
    exact hphase
  · rw [Function.update_of_ne hj]
    exact h.calls j

theorem Phase.Sane.drawn {phase : Phase} (h : phase.Sane db) {token : Int64}
    (hzero : token ≠ 0) : (phase.drawn token).Sane db := by
  cases phase with
  | adding => exact hzero
  | signing => exact ⟨h, hzero⟩
  | idle => trivial
  | inserting => exact h
  | updating => exact h

variable (encoder boxed) in
/-- A step leaves the table alone, or it is a save that goes through. -/
theorem step_db (s : State) (e : Event) : (step encoder boxed s e).db = s.db ∨
    ∃ i salt, e = .save i salt false ∧
      (step encoder boxed s e).db = saved encoder s.db salt (s.phase i) := by
  cases e with
  | addUser i username password =>
    left
    unfold step
    dsimp only
    split <;> rfl
  | signIn i username password =>
    left
    unfold step
    dsimp only
    split <;> rfl
  | draw i token =>
    left
    unfold step
    dsimp only
    split_ifs
    · split
      · split_ifs <;> rfl
      · rfl
    · rfl
  | save i salt fails =>
    unfold step
    dsimp only
    split_ifs
    · exact Or.inl rfl
    · exact Or.inl rfl
    · right
      cases fails with
      | true => contradiction
      | false => exact ⟨i, salt, rfl, rfl⟩

theorem saved_of_isDrawing {phase : Phase} (h : phase.isDrawing = true) (salt : ℕ) :
    saved encoder db salt phase = db := by
  cases phase with
  | adding => rfl
  | signing => rfl
  | idle => cases h
  | inserting => cases h
  | updating => cases h

variable (encoder boxed) in
theorem step_save (s : State) (i salt : ℕ) : (step encoder boxed s (.save i salt false)).db =
    saved encoder s.db salt (s.phase i) := by
  unfold step
  dsimp only
  split_ifs with hdrawing
  · exact (saved_of_isDrawing hdrawing salt).symm
  · contradiction
  · rfl

theorem sane_step (s : State) (e : Event) (h : Sane s) : Sane (step encoder boxed s e) := by
  cases e with
  | addUser i username password =>
    unfold step
    dsimp only
    split
    · exact h.setPhase i trivial
    · exact h
  | signIn i username password =>
    unfold step
    dsimp only
    split
    next user _ huser =>
      exact h.setPhase i ⟨user, (authenticate_ok huser).1, rfl, rfl⟩
    next => exact h
  | draw i token =>
    unfold step
    dsimp only
    split_ifs
    · split
      · split_ifs with hdrawn
        · exact h
        · refine h.setPhase i ((h.calls i).drawn fun hzero => hdrawn ?_)
          rw [hzero, beq_self_eq_true, Bool.or_true]
      · exact h.setPhase i trivial
    · exact h
  | save i salt fails =>
    unfold step
    dsimp only
    split_ifs
    · exact h
    · exact h.setPhase i trivial
    · have hidle : Sane (s.setPhase i .idle) := h.setPhase i trivial
      refine ⟨keyed_saved h.keyed _ salt, fun j => ?_⟩
      exact Phase.Sane.saved h.keyed (h.calls i) (hidle.calls j) salt

/-- The step lemma: the step keeps names and tokens distinct exactly when it is
proper. -/
theorem distinct_step_iff (h : Sane s) (hdistinct : Distinct s.db.rows) (e : Event) :
    Distinct (step encoder boxed s e).db.rows ↔ Proper s e := by
  rcases step_db encoder boxed s e with hdb | ⟨i, salt, rfl, hdb⟩
  · rw [hdb]
    refine iff_of_true hdistinct ?_
    cases e with
    | addUser => trivial
    | signIn => trivial
    | draw => trivial
    | save i salt fails =>
      cases fails with
      | true => trivial
      | false =>
        refine (distinct_saved_iff encoder h.keyed hdistinct (h.calls i) salt).mp ?_
        rw [← step_save encoder boxed, hdb]
        exact hdistinct
  · rw [hdb]
    exact distinct_saved_iff encoder h.keyed hdistinct (h.calls i) salt

/-! ### A call without interleaving -/

@[simp] theorem setPhase_self (s : State) (i : ℕ) (phase : Phase) :
    (s.setPhase i phase).phase i = phase :=
  Function.update_self _ _ _

theorem isDrawing_drawn (phase : Phase) (token : Int64) :
    (phase.drawn token).isDrawing = false := by
  cases phase <;> rfl

theorem step_draw (s : State) (i : ℕ) (token : Int64) (h : (s.phase i).isDrawing = true) :
    step encoder boxed s (.draw i token) =
      match s.db.findToken boxed token with
      | .ok found =>
        if found.isSome || token == 0 then s else s.setPhase i ((s.phase i).drawn token)
      | .error _ => s.setPhase i .idle := by
  unfold step
  dsimp only
  rw [if_pos h]

theorem run_draws_of_not_isDrawing (s : State) (i : ℕ) (draws : List Int64)
    (h : (s.phase i).isDrawing = false) :
    run (step encoder boxed) s (draws.map (.draw i)) = s := by
  induction draws with
  | nil => rfl
  | cons token draws ih =>
    have hstep : step encoder boxed s (.draw i token) = s := by
      unfold step
      dsimp only
      rw [h]
      rfl
    show run _ (step encoder boxed s (.draw i token)) _ = s
    rw [hstep, ih]

variable (encoder boxed) in
/-- The draws of a call in the loop, as far as a save can tell, are `getToken`. -/
theorem run_draws (s : State) (i : ℕ) (draws : List Int64) (salt : ℕ)
    (h : (s.phase i).isDrawing = true) :
    (run (step encoder boxed) s (draws.map (.draw i))).db = s.db ∧
      saved encoder s.db salt ((run (step encoder boxed) s (draws.map (.draw i))).phase i) =
        match getToken boxed s.db draws with
        | .ok token => saved encoder s.db salt ((s.phase i).drawn token)
        | .error _ => s.db := by
  induction draws with
  | nil => exact ⟨rfl, saved_of_isDrawing h salt⟩
  | cons token draws ih =>
    have hrun : run (step encoder boxed) s ((token :: draws).map (.draw i)) =
        run (step encoder boxed) (step encoder boxed s (.draw i token)) (draws.map (.draw i)) := rfl
    rw [hrun, step_draw s i token h]
    unfold getToken
    cases hfound : s.db.findToken boxed token with
    | error e =>
      dsimp only
      rw [run_draws_of_not_isDrawing _ i draws (by rw [setPhase_self]; rfl), setPhase_self]
      exact ⟨rfl, rfl⟩
    | ok found =>
      show _ ∧ _ = (match (if (found.isSome || token == 0) = true then getToken boxed s.db draws
        else pure token) with
        | .ok token => saved encoder s.db salt ((s.phase i).drawn token)
        | .error _ => s.db)
      dsimp only
      split_ifs with hdrawn
      · exact ih
      · rw [run_draws_of_not_isDrawing _ i draws (by rw [setPhase_self, isDrawing_drawn]),
          setPhase_self]
        exact ⟨rfl, rfl⟩

theorem run_call (s : State) (i : ℕ) (look : Event) (draws : List Int64) (salt : ℕ) :
    (run (step encoder boxed) s (look :: draws.map (.draw i) ++ [.save i salt false])).db =
      saved encoder (run (step encoder boxed) (step encoder boxed s look) (draws.map (.draw i))).db
        salt ((run (step encoder boxed) (step encoder boxed s look) (draws.map (.draw i))).phase i) := by
  rw [← step_save encoder boxed, run, List.cons_append, List.foldl_cons, List.foldl_append]
  rfl

/-- A call that is refused at the look saves nothing. -/
theorem saved_of_refused {s : State} {i : ℕ} {look : Event}
    (hlook : step encoder boxed s look = s) (h : s.phase i = .idle) (draws : List Int64)
    (salt : ℕ) :
    saved encoder (run (step encoder boxed) (step encoder boxed s look) (draws.map (.draw i))).db
      salt ((run (step encoder boxed) (step encoder boxed s look)
        (draws.map (.draw i))).phase i) = s.db := by
  rw [hlook, run_draws_of_not_isDrawing s i draws (by rw [h]; rfl), h]
  rfl

/-- `addUser` of `UserService` is the steps of a call that nobody interrupts. -/
theorem addUser_alone (s : State) (i : ℕ) (username password : String) (draws : List Int64)
    (salt : ℕ) (h : s.phase i = .idle) :
    (run (step encoder boxed) s
      (.addUser i username password :: draws.map (.draw i) ++ [.save i salt false])).db =
      match addUser encoder boxed s.db username password draws salt false with
      | .ok (_, db) => db
      | .error _ => s.db := by
  rw [run_call]
  unfold addUser
  cases hfound : s.db.findUserByUsername username with
  | error e =>
    have hlook : step encoder boxed s (.addUser i username password) = s := by
      unfold step
      dsimp only
      rw [h, hfound]
    exact saved_of_refused hlook h draws salt
  | ok found =>
    cases found with
    | some user =>
      have hlook : step encoder boxed s (.addUser i username password) = s := by
        unfold step
        dsimp only
        rw [h, hfound]
      exact saved_of_refused hlook h draws salt
    | none =>
      have hlook : step encoder boxed s (.addUser i username password) =
          s.setPhase i (.adding username password) := by
        unfold step
        dsimp only
        rw [h, hfound]
      have hdraws := run_draws encoder boxed
        (s.setPhase i (.adding username password)) i draws salt (by rw [setPhase_self]; rfl)
      rw [hlook, hdraws.1, hdraws.2, setPhase_self]
      show (match getToken boxed s.db draws with
        | .ok token => _
        | .error _ => s.db) = _
      cases hdrawn : getToken boxed s.db draws with
      | error e => rfl
      | ok token => rfl

/-- So is `signIn`. -/
theorem signIn_alone (s : State) (i : ℕ) (username password : String) (draws : List Int64)
    (salt : ℕ) (h : s.phase i = .idle) :
    (run (step encoder boxed) s
      (.signIn i username password :: draws.map (.draw i) ++ [.save i salt false])).db =
      match signIn encoder boxed s.db username password draws false with
      | .ok (_, db) => db
      | .error _ => s.db := by
  have hlook : step encoder boxed s (.signIn i username password) =
      match authenticate encoder s.db username password with
      | .ok user => s.setPhase i (.signing user)
      | .error _ => s := by
    unfold step
    dsimp only
    rw [h]
    rcases authenticate encoder s.db username password with e | user <;> rfl
  rw [run_call]
  unfold signIn
  cases huser : authenticate encoder s.db username password with
  | error e =>
    rw [huser] at hlook
    exact saved_of_refused hlook h draws salt
  | ok user =>
    rw [hlook, huser]
    dsimp only
    have hdraws := run_draws encoder boxed (s.setPhase i (.signing user)) i
      draws salt (by rw [setPhase_self]; rfl)
    rw [hdraws.1, hdraws.2, setPhase_self]
    show (match getToken boxed s.db draws with
      | .ok token => _
      | .error _ => s.db) = _
    cases hdrawn : getToken boxed s.db draws with
    | error e => rfl
    | ok token => rfl

/-! ### Runs -/

theorem sane_start (h : Keyed db) : Sane (start db) := ⟨h, fun _ => trivial⟩

/-- Names and tokens stay distinct all along a run exactly when every save that
goes through is fresh at its moment. -/
theorem unique_users_iff (encoder : Encoder) (boxed : Int64 → Bool) (db : Users)
    (hkeyed : Keyed db) (hdistinct : Distinct db.rows) (events : List Event) :
    Along (step encoder boxed) (fun s e => Distinct (step encoder boxed s e).db.rows) (start db)
      events ↔ Along (step encoder boxed) Proper (start db) events := by
  refine along_iff_along (C := fun _ _ => True) (fun s => Sane s ∧ Distinct s.db.rows) ?_ ?_
    ⟨sane_start hkeyed, hdistinct⟩ (along_of_forall_mem (fun _ _ _ => trivial) _)
  · rintro s e ⟨hs, hs'⟩ -
    exact distinct_step_iff hs hs' e
  · rintro s e ⟨hs, hs'⟩ - hproper
    exact ⟨sane_step s e hs, (distinct_step_iff hs hs' e).mpr hproper⟩

theorem unique_users_two : Along (step ⟨fun p _ => p, fun p h => p == h⟩ fun _ => false)
    (fun s e => Distinct (step ⟨fun p _ => p, fun p h => p == h⟩ (fun _ => false) s e).db.rows)
    (start ⟨[], 1⟩) [.addUser 0 "ann" "a", .addUser 1 "bob" "b", .draw 0 5, .draw 1 6,
      .save 1 0 false, .save 0 0 false] := by
  refine (unique_users_iff _ _ ⟨[], 1⟩ ⟨List.Pairwise.nil, fun u hu => absurd hu List.not_mem_nil⟩
    ⟨List.Pairwise.nil, List.Pairwise.nil⟩ _).mpr ?_
  decide

/-- Two calls for one name look for it before either has saved. -/
theorem name_taken_twice : ¬ ∀ (encoder : Encoder) (boxed : Int64 → Bool) (events : List Event),
    Along (step encoder boxed) (fun s e => Distinct (step encoder boxed s e).db.rows)
      (start ⟨[], 1⟩) events := by
  intro h
  have hrun := h ⟨fun p _ => p, fun p h => p == h⟩ (fun _ => false)
    [.addUser 0 "ann" "a", .addUser 1 "ann" "b", .draw 0 5, .draw 1 6, .save 1 0 false,
      .save 0 0 false]
  revert hrun
  decide

/-- With two rows under one name every later look for it throws, so nobody can sign
in under that name any more. -/
theorem locked_out {u v : User} (hu : u ∈ db.rows) (hv : v ∈ db.rows) (hne : u ≠ v)
    (hname : u.username = v.username) (password : String) (draws : List Int64) (fails : Bool) :
    signIn encoder boxed db u.username password draws fails = .error .incorrectResultSize := by
  have hlook : db.findUserByUsername u.username = .error .incorrectResultSize :=
    optional_of_ne (List.mem_filter.mpr ⟨hu, decide_eq_true rfl⟩)
      (List.mem_filter.mpr ⟨hv, decide_eq_true hname.symm⟩) hne
  unfold signIn authenticate
  rw [hlook]
  rfl

end SignUps

end Itmo.Web4
