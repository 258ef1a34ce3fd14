import Itmo.Lib.System
import Itmo.ProgLab8.LoginText

/-! Registrations that run at the same time. A call of `newUser` looks for the
name, takes the lock of the accounts, and inserts the name: three steps, between
which the other sessions take theirs. The look is not under the lock, and an insert
that throws does not give the lock back. -/

namespace Itmo.ProgLab8

open Lib

namespace Registration

/-! ### State -/

/-- Where a session is in its call of `newUser`. -/
inductive Phase where
  | idle
  | selected (user password : JString)
  | inserting (user password : JString)
  deriving DecidableEq

/-- A `ReentrantLock`: its holder, and how often he holds it. -/
abbrev Lock := Option (ℕ × ℕ)

/-- The lock after `lock` by a session; `none` if the session has to wait. -/
def acquire (session : ℕ) : Lock → Option Lock
  | none => some (some (session, 1))
  | some (holder, n) => if holder = session then some (some (holder, n + 1)) else none

/-- The lock after `unlock` by its holder. -/
def release : Lock → Lock
  | some (holder, n + 2) => some (holder, n + 1)
  | _ => none

/-- The table, the calls of the sessions, the lock, and the names that `newUser`
has reported as registered. -/
structure State where
  rows : List UserRow
  phase : ℕ → Phase
  lock : Lock
  registered : List JString

/-- The `SELECT` of a new call, the `lock` of `addUser`, or its `INSERT` and what
comes after it; a statement may fail for a reason of its own. -/
inductive Event where
  | select (session : ℕ) (user password : JString) (fails : Bool)
  | lock (session : ℕ)
  | insert (session : ℕ) (fails : Bool)

variable (engine : Engine) (digest : JString → List UInt8)

/-- The `INSERT`, in a world where it may fail. -/
def inserted (s : State) (user password : JString) (fails : Bool) : Option (List UserRow) :=
  if fails then none else Account.insertUser engine digest s.rows user password

def State.setPhase (s : State) (session : ℕ) (phase : Phase) : State :=
  { s with phase := Function.update s.phase session phase }

def step (s : State) : Event → State
  | .select i user password fails =>
    match s.phase i with
    | .idle =>
      if !fails && Account.mayAdd engine s.rows user then s.setPhase i (.selected user password)
      else s
    | _ => s
  | .lock i =>
    match s.phase i with
    | .selected user password =>
      match acquire i s.lock with
      | some lock => { s.setPhase i (.inserting user password) with lock := lock }
      | none => s
    | _ => s
  | .insert i fails =>
    match s.phase i with
    | .inserting user password =>
      match inserted engine digest s user password fails with
      | some rows =>
        { s.setPhase i .idle with
          rows := rows, lock := release s.lock, registered := user :: s.registered }
      | none => s.setPhase i .idle  -- the exception passes by `lock.unlock()`
    | _ => s

/-- Nobody is registering. -/
def start (rows : List UserRow) : State := ⟨rows, fun _ => .idle, none, []⟩

/-! ### Properties -/

/-- The name and the password that a session is inserting. -/
def Phase.insertion : Phase → Option (JString × JString)
  | .inserting user password => some (user, password)
  | _ => none

/-- The name that a session is registering. -/
def Phase.user : Phase → Option JString
  | .idle => none
  | .selected user _ => some user
  | .inserting user _ => some user

/-- No name has been registered twice, and the lock is held only while an `INSERT`
is running. -/
structure Safe (s : State) : Prop where
  unique : s.registered.Nodup
  lock : s.lock.isSome → ∃ i, (s.phase i).insertion.isSome

def owners (rows : List UserRow) : List JString := rows.map (·.owner)

/-- The `INSERT` of a session does not throw, and the table still has no row with
the name. -/
def Proper (s : State) : Event → Prop
  | .insert i fails => ∀ call ∈ (s.phase i).insertion, call.1 ∉ owners s.rows ∧
      (inserted engine digest s call.1 call.2 fails).isSome
  | _ => True

instance (s : State) : ∀ e, Decidable (Proper engine digest s e)
  | .insert i _ => inferInstanceAs (Decidable (∀ call ∈ (s.phase i).insertion, _))
  | .select .. => inferInstanceAs (Decidable True)
  | .lock _ => inferInstanceAs (Decidable True)

/-- The name of a new call is data in the texts. -/
def Plain : Event → Prop
  | .select _ user _ _ => quote ∉ user
  | _ => True

instance : DecidablePred Plain
  | .select _ user _ _ => inferInstanceAs (Decidable (quote ∉ user))
  | .lock _ => inferInstanceAs (Decidable True)
  | .insert _ _ => inferInstanceAs (Decidable True)

/-! ### Statements -/

variable {engine digest} {s : State} {user password : JString}

theorem mayAdd_fresh (hengine : engine.Lawful) (hu : quote ∉ user) {rows : List UserRow}
    (h : Account.mayAdd engine rows user = true) : user ∉ owners rows := by
  unfold Account.mayAdd at h
  cases hquery : engine.executeQuery (Account.newUserText user) rows with
  | none =>
    rw [hquery] at h
    cases h
  | some values =>
    rw [hquery, hengine.select (Account.lex_newUserText hu) hquery] at h
    simpa [owners] using h

theorem inserted_rows (hengine : engine.Lawful) (hu : quote ∉ user) {fails : Bool}
    {rows : List UserRow} (h : inserted engine digest s user password fails = some rows) :
    rows = s.rows ++ [⟨user, Account.hash256 digest password⟩] := by
  unfold inserted at h
  split at h
  · cases h
  · exact hengine.insert (Account.lex_addUserText digest hu password) h

/-! ### The invariant -/

/-- Registered names have rows; a name that is being registered has a row only if
another call has registered it; the lock is held once, by the session that inserts. -/
structure Inv (s : State) : Prop where
  unique : s.registered.Nodup
  rows : ∀ user ∈ s.registered, user ∈ owners s.rows
  plain : ∀ i, ∀ user ∈ (s.phase i).user, quote ∉ user
  fresh : ∀ i, ∀ user ∈ (s.phase i).user, user ∈ owners s.rows → user ∈ s.registered
  holder : ∀ i, (s.phase i).insertion.isSome ↔ s.lock = some (i, 1)
  once : ∀ i n, s.lock = some (i, n) → n = 1

theorem inv_start (rows : List UserRow) : Inv (start rows) where
  unique := List.nodup_nil
  rows := by simp [start]
  plain := by simp [start, Phase.user]
  fresh := by simp [start, Phase.user]
  holder := by simp [start, Phase.insertion]
  once := by simp [start]

theorem Inv.safe (h : Inv s) : Safe s := by
  refine ⟨h.unique, fun hlock => ?_⟩
  obtain ⟨⟨i, n⟩, hlock⟩ := Option.isSome_iff_exists.mp hlock
  obtain rfl := h.once i n hlock
  exact ⟨i, (h.holder i).mpr hlock⟩

/-- A property of all phases after one of them has changed. -/
theorem forall_setPhase {i : ℕ} {phase : Phase} {p : ℕ → Phase → Prop} (hi : p i phase)
    (hp : ∀ j, p j (s.phase j)) : ∀ j, p j ((s.setPhase i phase).phase j) :=
  (Function.forall_update_iff s.phase p).mpr ⟨hi, fun j _ => hp j⟩

/-- A new call: there was no row with its name. -/
theorem Inv.select (h : Inv s) {i : ℕ} (hi : s.phase i = .idle) (hu : quote ∉ user)
    (hfresh : user ∉ owners s.rows) : Inv (s.setPhase i (.selected user password)) where
  unique := h.unique
  rows := h.rows
  plain := by
    refine forall_setPhase (p := fun _ phase => ∀ v ∈ phase.user, quote ∉ v) ?_ h.plain
    rintro v ⟨rfl⟩
    exact hu
  fresh := by
    refine forall_setPhase (p := fun _ phase => ∀ v ∈ phase.user, v ∈ owners s.rows →
      v ∈ s.registered) ?_ h.fresh
    rintro v ⟨rfl⟩ hmem
    exact absurd hmem hfresh
  holder := by
    refine forall_setPhase (p := fun j phase => phase.insertion.isSome ↔ s.lock = some (j, 1)) ?_
      h.holder
    rw [← h.holder i, hi]
    rfl
  once := h.once

/-- The lock is free, and a session takes it. -/
theorem Inv.lock (h : Inv s) {i : ℕ} (hi : s.phase i = .selected user password)
    (hlock : s.lock = none) :
    Inv { s.setPhase i (.inserting user password) with lock := some (i, 1) } where
  unique := h.unique
  rows := h.rows
  plain := by
    refine forall_setPhase (p := fun _ phase => ∀ v ∈ phase.user, quote ∉ v) ?_ h.plain
    rintro v ⟨rfl⟩
    exact h.plain i _ (by rw [hi]; rfl)
  fresh := by
    refine forall_setPhase (p := fun _ phase => ∀ v ∈ phase.user, v ∈ owners s.rows →
      v ∈ s.registered) ?_ h.fresh
    rintro v ⟨rfl⟩
    exact h.fresh i _ (by rw [hi]; rfl)
  holder := by
    refine (Function.forall_update_iff s.phase fun j phase =>
      phase.insertion.isSome ↔ some (i, 1) = some (j, 1)).mpr ⟨?_, fun j hj => ?_⟩
    · simp [Phase.insertion]
    · rw [h.holder j, hlock]
      simp [Ne.symm hj]
  once := by simp

/-- An insert of a name that had no row. -/
theorem Inv.insert (h : Inv s) {i : ℕ} (hi : s.phase i = .inserting user password)
    (hnew : user ∉ owners s.rows) (stored : JString) :
    Inv { s.setPhase i .idle with
      rows := s.rows ++ [⟨user, stored⟩], lock := none, registered := user :: s.registered } where
  unique := by
    rw [List.nodup_cons]
    exact ⟨fun hmem => hnew (h.rows user hmem), h.unique⟩
  rows := by
    simp only [owners, List.map_append, List.map_singleton, List.mem_append, List.mem_singleton,
      List.forall_mem_cons]
    exact ⟨.inr trivial, fun v hv => .inl (h.rows v hv)⟩
  plain := by
    refine forall_setPhase (p := fun _ phase => ∀ v ∈ phase.user, quote ∉ v) ?_ h.plain
    exact nofun
  fresh := by
    refine forall_setPhase (p := fun _ phase => ∀ v ∈ phase.user,
      v ∈ owners (s.rows ++ [⟨user, stored⟩]) → v ∈ user :: s.registered) ?_ fun j v hv hmem => ?_
    · rintro v ⟨⟩
    · rw [owners, List.map_append, List.mem_append, List.map_singleton, List.mem_singleton] at hmem
      rcases hmem with hmem | rfl
      · exact List.mem_cons_of_mem _ (h.fresh j v hv hmem)
      · exact List.mem_cons_self
  holder := by
    refine (Function.forall_update_iff s.phase fun j phase =>
      phase.insertion.isSome ↔ none = some (j, 1)).mpr ⟨?_, fun j hj => ?_⟩
    · simp [Phase.insertion]
    · have hheld : s.lock = some (i, 1) := (h.holder i).mp (by rw [hi]; rfl)
      rw [h.holder j, hheld]
      simp [Ne.symm hj]
  once := by simp

/-! ### Steps -/

theorem step_select (hengine : engine.Lawful) (h : Inv s) (i : ℕ) (hu : quote ∉ user)
    (fails : Bool) : Inv (step engine digest s (.select i user password fails)) := by
  cases hi : s.phase i with
  | idle =>
    simp only [step, hi]
    split
    · rename_i hadd
      rw [Bool.and_eq_true] at hadd
      exact h.select hi hu (mayAdd_fresh hengine hu hadd.2)
    · exact h
  | selected => simpa only [step, hi] using h
  | inserting => simpa only [step, hi] using h

theorem step_lock (h : Inv s) (i : ℕ) : Inv (step engine digest s (.lock i)) := by
  cases hi : s.phase i with
  | idle => simpa only [step, hi] using h
  | inserting => simpa only [step, hi] using h
  | selected user password =>
    simp only [step, hi]
    cases hlock : s.lock with
    | none => exact h.lock hi hlock
    | some held =>
      obtain ⟨holder, n⟩ := held
      have hother : holder ≠ i := by
        rintro rfl
        obtain rfl := h.once holder n hlock
        have hinserting := (h.holder holder).mpr hlock
        rw [hi] at hinserting
        cases hinserting
      simp only [acquire, if_neg hother]
      exact h

/-- Without the row an insert that succeeds is the first one of its name. -/
theorem step_inserted (hengine : engine.Lawful) (h : Inv s) {i : ℕ}
    (hi : s.phase i = .inserting user password) {fails : Bool} {rows : List UserRow}
    (hrows : inserted engine digest s user password fails = some rows) :
    step engine digest s (.insert i fails) =
      { s.setPhase i .idle with
        rows := s.rows ++ [⟨user, Account.hash256 digest password⟩], lock := none,
        registered := user :: s.registered } := by
  have hplain := h.plain i user (by rw [hi]; rfl)
  have hheld : s.lock = some (i, 1) := (h.holder i).mp (by rw [hi]; rfl)
  simp only [step, hi, hrows, hheld, release]
  rw [inserted_rows hengine hplain hrows]

/-- After an insert that throws the lock is held, and nobody inserts. -/
theorem not_safe_of_throws (h : Inv s) {i : ℕ} (hi : s.phase i = .inserting user password)
    {fails : Bool} (hrows : inserted engine digest s user password fails = none) :
    ¬ Safe (step engine digest s (.insert i fails)) := by
  have hheld : s.lock = some (i, 1) := (h.holder i).mp (by rw [hi]; rfl)
  simp only [step, hi, hrows]
  intro hsafe
  obtain ⟨j, hj⟩ := hsafe.lock (by rw [State.setPhase, hheld]; rfl)
  by_cases hji : j = i
  · subst hji
    simp [State.setPhase, Phase.insertion] at hj
  · simp only [State.setPhase, Function.update_of_ne hji] at hj
    have hother := (h.holder j).mp hj
    rw [hheld] at hother
    simp [Ne.symm hji] at hother

theorem step_inv (hengine : engine.Lawful) (h : Inv s) {e : Event} (hplain : Plain e)
    (hproper : Proper engine digest s e) : Inv (step engine digest s e) := by
  cases e with
  | select i user password fails => exact step_select hengine h i hplain fails
  | lock i => exact step_lock h i
  | insert i fails =>
    cases hi : s.phase i with
    | idle => simpa only [step, hi] using h
    | selected => simpa only [step, hi] using h
    | inserting user password =>
      obtain ⟨hnew, hsome⟩ := hproper (user, password) (by rw [hi]; rfl)
      obtain ⟨rows, hrows⟩ := Option.isSome_iff_exists.mp hsome
      rw [step_inserted hengine h hi hrows]
      exact h.insert hi hnew _

/-- One step keeps the names unique and the lock free exactly if it is proper. -/
theorem step_safe_iff (hengine : engine.Lawful) (h : Inv s) {e : Event} (hplain : Plain e) :
    Safe (step engine digest s e) ↔ Proper engine digest s e := by
  refine ⟨fun hsafe => ?_, fun hproper => (step_inv hengine h hplain hproper).safe⟩
  cases e with
  | select => trivial
  | lock => trivial
  | insert i fails =>
    intro call hcall
    cases hi : s.phase i with
    | idle =>
      rw [hi] at hcall
      cases hcall
    | selected =>
      rw [hi] at hcall
      cases hcall
    | inserting user password =>
      rw [hi] at hcall
      obtain rfl := Option.some.inj hcall
      cases hrows : inserted engine digest s user password fails with
      | none => exact absurd hsafe (not_safe_of_throws h hi hrows)
      | some rows =>
        rw [step_inserted hengine h hi hrows] at hsafe
        refine ⟨fun hmem => ?_, rfl⟩
        have hagain := h.fresh i user (by rw [hi]; rfl) hmem
        exact (List.nodup_cons.mp hsafe.unique).1 hagain

/-! ### Runs -/

theorem along_safe_iff (hengine : engine.Lawful) (h : Inv s) {es : List Event}
    (hplain : ∀ e ∈ es, Plain e) :
    Along (step engine digest) (fun s e => Safe (step engine digest s e)) s es ↔
      Along (step engine digest) (Proper engine digest) s es :=
  along_iff_along Inv (fun _ _ h hp => step_safe_iff hengine h hp)
    (fun _ _ h hp hproper => step_inv hengine h hp hproper) h
    (along_of_forall_mem (fun e he _ => hplain e he) s)

/-- For every interleaving of registrations: names stay unique and the lock is free
between the inserts exactly if no insert throws and none is late. -/
theorem registration_safe_iff (hengine : engine.Lawful) (digest : JString → List UInt8)
    (rows : List UserRow) {es : List Event} (hplain : ∀ e ∈ es, Plain e) :
    Along (step engine digest) (fun s e => Safe (step engine digest s e)) (start rows) es ↔
      Along (step engine digest) (Proper engine digest) (start rows) es :=
  along_safe_iff hengine (inv_start rows) hplain

section Runs

open Account

/-- The `SELECT` of a session that registers the name `egg`. -/
def selectEgg (session : ℕ) : Event := .select session (.ofString "egg") (.ofString "qwerty") false

/-- One registration after the other: the second one finds the name. -/
theorem registration_safe_sequential :
    Along (step unionEngine qwertyDigest) (fun s e => Safe (step unionEngine qwertyDigest s e))
      (start []) [selectEgg 0, .lock 0, .insert 0 false, selectEgg 1, .lock 1, .insert 1 false] :=
  (registration_safe_iff unionEngine_lawful qwertyDigest [] (by decide)).mpr (by decide +kernel)

/-- Both look first: the name is registered twice. And after an insert that throws
nobody is registering, and the lock is held. -/
theorem registered_twice : unionEngine.Lawful ∧
    (run (step unionEngine qwertyDigest) (start [])
      [selectEgg 0, selectEgg 1, .lock 0, .insert 0 false, .lock 1, .insert 1 false]).registered =
        [.ofString "egg", .ofString "egg"] ∧
    ¬ Along (step unionEngine qwertyDigest) (fun s e => Safe (step unionEngine qwertyDigest s e))
      (start []) [selectEgg 0, selectEgg 1, .lock 0, .insert 0 false, .lock 1, .insert 1 false] ∧
    ¬ Along (step unionEngine qwertyDigest) (fun s e => Safe (step unionEngine qwertyDigest s e))
      (start []) [selectEgg 0, .lock 0, .insert 0 true] := by
  refine ⟨unionEngine_lawful, by decide +kernel, ?_, ?_⟩
  · rw [along_safe_iff unionEngine_lawful (inv_start []) (by decide)]
    decide +kernel
  · rw [along_safe_iff unionEngine_lawful (inv_start []) (by decide)]
    decide +kernel

end Runs

end Registration

end Itmo.ProgLab8
