import Itmo.Lib.System
import Itmo.Web4.Users

/-! What a token means. Requests come one after the other, and the history records
which tokens were issued to whom and which tokens were used to exit. A token is
somebody's as long as it is the last one issued to him and nobody has exited with
it; these are exactly the tokens of the table other than zero, in every state of
every run. -/

namespace Itmo.Web4

open Lib

/-! ### Requests -/

/-- The methods of `UserService`, with the draws of the random source for the call,
the salt, and whether the database refuses the statement. -/
inductive Request where
  | addUser (username password : String) (draws : List Int64) (salt : ℕ) (fails : Bool)
  | signIn (username password : String) (draws : List Int64) (fails : Bool)
  | throwIfTokenInvalid (token : Int64)
  | getUsernameByToken (token : Int64)
  | makeTokenNull (token : Int64)

inductive Entry where
  | issued (username : String) (token : Int64)
  | exited (token : Int64)
  deriving DecidableEq

/-- The table, and the history with the latest entry first. -/
structure State where
  db : Users
  history : List Entry

section

variable (encoder : Encoder) (boxed : Int64 → Bool)

def step (s : State) : Request → State
  | .addUser username password draws salt fails =>
    match addUser encoder boxed s.db username password draws salt fails with
    | .ok (token, db) => ⟨db, .issued username token :: s.history⟩
    | .error _ => s
  | .signIn username password draws fails =>
    match signIn encoder boxed s.db username password draws fails with
    | .ok (token, db) => ⟨db, .issued username token :: s.history⟩
    | .error _ => s
  | .makeTokenNull token =>
    match makeTokenNull boxed s.db token with
    | .ok db => ⟨db, .exited token :: s.history⟩
    | .error _ => s
  | .throwIfTokenInvalid _ => s
  | .getUsernameByToken _ => s

end

def State.empty : State := ⟨⟨[], 1⟩, []⟩

/-! ### Whose token it is -/

/-- The token was issued to the user; nothing has been issued to him since, and
nobody has exited with it since. -/
def Holds (history : List Entry) (username : String) (token : Int64) : Prop :=
  ∃ later earlier, history = later ++ .issued username token :: earlier ∧
    ∀ e ∈ later, e ≠ .exited token ∧ ∀ token', e ≠ .issued username token'

theorem not_holds_nil (username : String) (token : Int64) : ¬ Holds [] username token := by
  rintro ⟨later, earlier, heq, -⟩
  cases later <;> cases heq

/-- A new entry is the issue in question, or it leaves the matter as it was. -/
theorem holds_cons (e : Entry) (history : List Entry) (username : String) (token : Int64) :
    Holds (e :: history) username token ↔ e = .issued username token ∨
      (e ≠ .exited token ∧ ∀ token', e ≠ .issued username token') ∧
        Holds history username token := by
  constructor
  · rintro ⟨later, earlier, heq, hlater⟩
    cases later with
    | nil =>
      cases heq
      exact Or.inl rfl
    | cons e' later =>
      cases heq
      rw [List.forall_mem_cons] at hlater
      exact Or.inr ⟨hlater.1, later, earlier, rfl, hlater.2⟩
  · rintro (rfl | ⟨he, later, earlier, rfl, hlater⟩)
    · exact ⟨[], history, rfl, fun e he => absurd he List.not_mem_nil⟩
    · refine ⟨e :: later, earlier, rfl, ?_⟩
      rw [List.forall_mem_cons]
      exact ⟨he, hlater⟩

theorem holds_issued (history : List Entry) (name username : String) (issued token : Int64) :
    Holds (.issued name issued :: history) username token ↔
      if name = username then issued = token else Holds history username token := by
  rw [holds_cons]
  by_cases hname : name = username
  · subst hname
    simp
  · simp [hname]

theorem holds_exited (history : List Entry) (username : String) (gone token : Int64) :
    Holds (.exited gone :: history) username token ↔
      gone ≠ token ∧ Holds history username token := by
  rw [holds_cons]
  simp

/-! ### The invariant -/

structure Sound (s : State) : Prop where
  keyed : Keyed s.db
  distinct : Distinct s.db.rows
  holds : ∀ username token, Holds s.history username token ↔
    token ≠ 0 ∧ ∃ u ∈ s.db.rows, u.username = username ∧ u.token = token

theorem sound_empty : Sound State.empty := by
  refine ⟨⟨List.Pairwise.nil, fun u hu => absurd hu List.not_mem_nil⟩,
    ⟨List.Pairwise.nil, List.Pairwise.nil⟩, fun username token => ?_⟩
  constructor
  · intro h
    exact absurd h (not_holds_nil username token)
  · rintro ⟨-, u, hu, -⟩
    exact absurd hu List.not_mem_nil

section

variable {s : State} {username password : String} {token : Int64}

/-- A new user under a new token. -/
theorem sound_insert (h : Sound s) (hname : ∀ u ∈ s.db.rows, u.username ≠ username)
    (htoken : token ≠ 0 ∧ ∀ u ∈ s.db.rows, u.token ≠ token) :
    Sound ⟨s.db.insert username password token, .issued username token :: s.history⟩ := by
  refine ⟨keyed_insert h.keyed, ?_, fun name t => ?_⟩
  · exact (distinct_insert_iff h.distinct).mpr fun u hu =>
      ⟨hname u hu, fun heq => absurd heq (htoken.2 u hu)⟩
  · rw [holds_issued]
    have hrows : (∃ u ∈ (s.db.insert username password token).rows,
        u.username = name ∧ u.token = t) ↔
        (∃ u ∈ s.db.rows, u.username = name ∧ u.token = t) ∨ username = name ∧ token = t := by
      simp only [Users.insert, List.mem_append, List.mem_singleton, or_and_right, exists_or,
        exists_eq_left]
    rw [hrows]
    split_ifs with heq
    · subst heq
      constructor
      · rintro rfl
        exact ⟨htoken.1, Or.inr ⟨rfl, rfl⟩⟩
      · rintro ⟨-, ⟨u, hu, huname, -⟩ | ⟨-, rfl⟩⟩
        · exact absurd huname (hname u hu)
        · rfl
    · rw [h.holds]
      simp [heq]

/-- A stored user under a new token. -/
theorem sound_update (h : Sound s) {user : User} (huser : user ∈ s.db.rows)
    (hname : user.username = username)
    (htoken : token ≠ 0 ∧ ∀ u ∈ s.db.rows, u.token ≠ token) :
    Sound ⟨s.db.update user token, .issued username token :: s.history⟩ := by
  have hne : token ≠ user.token := (htoken.2 user huser).symm
  refine ⟨keyed_update h.keyed user, ?_, fun name t => ?_⟩
  · refine (distinct_update_iff h.keyed h.distinct ⟨user, huser, rfl, rfl⟩ htoken.1).mpr ?_
    exact Or.inr fun v hv _ => htoken.2 v hv
  · rw [holds_issued]
    have hother : ∀ u ∈ s.db.rows, u.id ≠ user.id ↔ u.username ≠ username := by
      intro u hu
      rw [← hname, not_iff_not]
      constructor
      · intro hid
        rw [eq_of_key h.keyed.ids hu huser hid]
      · intro huname
        rw [h.distinct.eq_of_username hu huser huname]
    split_ifs with heq
    · subst heq
      constructor
      · rintro rfl
        exact ⟨htoken.1, _, (mem_update hne).mpr (Or.inl ⟨rfl, user, huser, rfl⟩), hname, rfl⟩
      · rintro ⟨-, u, hu, huname, rfl⟩
        rcases (mem_update hne).mp hu with ⟨rfl, -⟩ | ⟨hu, hid⟩
        · rfl
        · exact absurd huname ((hother u hu).mp hid)
    · rw [h.holds]
      refine and_congr_right fun _ => ?_
      constructor
      · rintro ⟨u, hu, rfl, rfl⟩
        exact ⟨u, (mem_update hne).mpr (Or.inr ⟨hu, (hother u hu).mpr fun huname => heq huname.symm⟩),
          rfl, rfl⟩
      · rintro ⟨u, hu, rfl, rfl⟩
        rcases (mem_update hne).mp hu with ⟨rfl, -⟩ | ⟨hu, -⟩
        · exact absurd hname.symm heq
        · exact ⟨u, hu, rfl, rfl⟩

theorem sound_makeTokenNull (h : Sound s) (token : Int64) :
    Sound ⟨s.db.makeTokenNull token, .exited token :: s.history⟩ := by
  refine ⟨keyed_makeTokenNull h.keyed, distinct_makeTokenNull h.distinct, fun name t => ?_⟩
  rw [holds_exited, h.holds]
  constructor
  · rintro ⟨hgone, hzero, u, hu, rfl, rfl⟩
    refine ⟨hzero, u, List.mem_map.mpr ⟨u, hu, ?_⟩, rfl, rfl⟩
    exact if_neg hgone.symm
  · rintro ⟨hzero, v, hv, rfl, rfl⟩
    obtain ⟨u, hu, rfl⟩ := List.mem_map.mp hv
    by_cases hgone : u.token = token
    · rw [if_pos hgone] at hzero
      exact absurd rfl hzero
    · rw [if_neg hgone] at hzero ⊢
      exact ⟨fun heq => hgone heq.symm, hzero, u, hu, rfl, rfl⟩

end

section

variable (encoder : Encoder) (boxed : Int64 → Bool)

theorem sound_step (s : State) (r : Request) (h : Sound s) : Sound (step encoder boxed s r) := by
  cases r with
  | addUser username password draws salt fails =>
    unfold step
    dsimp only
    split
    next token db hok =>
      obtain ⟨hname, htoken, rfl⟩ := addUser_ok hok
      exact sound_insert h hname (getToken_ok htoken)
    next => exact h
  | signIn username password draws fails =>
    unfold step
    dsimp only
    split
    next token db hok =>
      obtain ⟨user, huser, hname, htoken, rfl⟩ := signIn_ok hok
      exact sound_update h huser hname (getToken_ok htoken)
    next => exact h
  | makeTokenNull token =>
    unfold step
    dsimp only
    split
    next db hok =>
      obtain ⟨-, rfl⟩ := makeTokenNull_ok hok
      exact sound_makeTokenNull h token
    next => exact h
  | throwIfTokenInvalid => exact h
  | getUsernameByToken => exact h

/-- In every state of every run names and tokens are distinct, and a token is
accepted, with the name of its owner, exactly as long as somebody holds it; zero
never is. -/
theorem token_discipline (requests : List Request) :
    let s := run (step encoder boxed) State.empty requests
    (s.db.rows.Pairwise fun u v => u.username ≠ v.username) ∧
    (s.db.rows.Pairwise fun u v => u.token = v.token → u.token = 0) ∧
    (∀ token, token ≠ 0 → (throwIfTokenInvalid boxed s.db token = .ok () ↔
      ∃ username, Holds s.history username token)) ∧
    (∀ username token, Holds s.history username token →
      getUsernameByToken boxed s.db token = .ok username) ∧
    throwIfTokenInvalid boxed s.db 0 ≠ .ok () := by
  intro s
  have hs : Sound s := run_invariant Sound (sound_step encoder boxed) sound_empty requests
  refine ⟨hs.distinct.names, hs.distinct.tokens, fun token hzero => ?_, fun username token h => ?_,
    fun h => (throwIfTokenInvalid_ok h).1 rfl⟩
  · rw [throwIfTokenInvalid_iff hs.distinct]
    constructor
    · rintro ⟨-, u, hu, htoken⟩
      exact ⟨u.username, (hs.holds _ _).mpr ⟨hzero, u, hu, rfl, htoken⟩⟩
    · rintro ⟨username, h⟩
      obtain ⟨-, u, hu, -, htoken⟩ := (hs.holds _ _).mp h
      exact ⟨hzero, u, hu, htoken⟩
  · obtain ⟨hzero, u, hu, rfl, rfl⟩ := (hs.holds _ _).mp h
    exact getUsernameByToken_of_mem hs.distinct hu hzero

end

end Itmo.Web4
