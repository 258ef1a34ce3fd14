import Itmo.Lib.Except
import Mathlib.Data.List.Pairwise
import Mathlib.Data.List.Nodup
import Mathlib.Tactic

/-! The users of the backend of `web4`: the entity, its repository, the tokens of
`PasswordProcessor` and the methods of `UserService`. A transaction that throws
leaves the table as it was, so a method is a function from the table to its
result and the table after it. The rows are told apart by their id only; that
names and tokens are distinct too is left to the methods. -/

namespace Itmo.Web4

open Lib

/-! ### The table -/

structure User where
  id : ℕ
  username : String
  password : String
  token : Int64
  deriving DecidableEq

/-- The table and the sequence of its ids. -/
structure Users where
  rows : List User
  nextId : ℕ

inductive HttpStatus where
  | conflict
  | unauthorized
  | forbidden
  deriving DecidableEq

inductive Failure where
  | responseStatus (status : HttpStatus) (reason : String)
  | incorrectResultSize
  | dataAccess
  | noSuchElement
  | running  -- the loop of `getToken` is still drawing, in an open transaction
  deriving DecidableEq

/-- `BCryptPasswordEncoder`, with the salt of the call. -/
structure Encoder where
  encode : String → ℕ → String
  matchesHash : String → String → Bool

/-- A query with an `Optional` result. Several rows are an error, unless they are
one and the same object, as boxed small numbers are. -/
def optional {α : Type} (shared : Bool) : List α → Except Failure (Option α)
  | [] => .ok none
  | [a] => .ok (some a)
  | a :: _ :: _ => if shared then .ok (some a) else .error .incorrectResultSize

namespace Users

def findUserByUsername (db : Users) (username : String) : Except Failure (Option User) :=
  optional false (db.rows.filter (·.username = username))

def getUsernameByToken (db : Users) (token : Int64) : Except Failure (Option String) :=
  optional false ((db.rows.filter (·.token = token)).map (·.username))

/-- `findToken`; `boxed` are the values that `Long.valueOf` keeps one object for. -/
def findToken (boxed : Int64 → Bool) (db : Users) (token : Int64) :
    Except Failure (Option Int64) :=
  optional (boxed token) ((db.rows.filter (·.token = token)).map (·.token))

def makeTokenNull (db : Users) (token : Int64) : Users :=
  { db with rows := db.rows.map fun u => if u.token = token then { u with token := 0 } else u }

/-- `save` of a new entity. -/
def insert (db : Users) (username password : String) (token : Int64) : Users :=
  ⟨db.rows ++ [⟨db.nextId, username, password, token⟩], db.nextId + 1⟩

/-- `save` of a loaded entity after `setToken`: nothing is written if the value is
the loaded one, otherwise all columns of the row are. -/
def update (db : Users) (user : User) (token : Int64) : Users :=
  if token = user.token then db
  else { db with rows := db.rows.map fun u =>
    if u.id = user.id then { user with token := token } else u }

end Users

/-! ### `PasswordProcessor` and `UserService` -/

section

variable (encoder : Encoder) (boxed : Int64 → Bool)

/-- The loop of `getToken`, on the numbers that the random source delivers. -/
def getToken (db : Users) : List Int64 → Except Failure Int64
  | [] => .error .running
  | token :: draws => do
    if (← db.findToken boxed token).isSome || token == 0 then getToken db draws
    else return token

/-- A statement that the database refuses for a reason of its own. -/
def commit {α : Type} (fails : Bool) (a : α) : Except Failure α :=
  if fails then .error .dataAccess else .ok a

def addUser (db : Users) (username password : String) (draws : List Int64) (salt : ℕ)
    (fails : Bool) : Except Failure (Int64 × Users) := do
  if (← db.findUserByUsername username).isSome then
    throw (.responseStatus .conflict "Такой пользователь уже существует")
  let token ← getToken boxed db draws
  commit fails (token, db.insert username (encoder.encode password salt) token)

/-- `signIn` up to the token. -/
def authenticate (db : Users) (username password : String) : Except Failure User := do
  match ← db.findUserByUsername username with
  | none =>
    throw (.responseStatus .unauthorized "Пользователя с таким именем пользователя нет")
  | some user =>
    if !encoder.matchesHash password user.password then
      throw (.responseStatus .forbidden "Неверный пароль")
    return user

def signIn (db : Users) (username password : String) (draws : List Int64) (fails : Bool) :
    Except Failure (Int64 × Users) := do
  let user ← authenticate encoder db username password
  let token ← getToken boxed db draws
  commit fails (token, db.update user token)

def throwIfTokenInvalid (db : Users) (token : Int64) : Except Failure Unit := do
  match ← db.findToken boxed token with
  | none => throw (.responseStatus .unauthorized "Ошибочный токен")
  | some found =>
    if found == 0 then throw (.responseStatus .unauthorized "Ошибочный токен")

def getUsernameByToken (db : Users) (token : Int64) : Except Failure String := do
  throwIfTokenInvalid boxed db token
  match ← db.getUsernameByToken token with
  | none => throw .noSuchElement
  | some username => return username

def makeTokenNull (db : Users) (token : Int64) : Except Failure Users := do
  throwIfTokenInvalid boxed db token
  return db.makeTokenNull token

end

/-! ### Rows told apart by name and by token -/

/-- No two users share a name, and no two share a token other than zero. -/
structure Distinct (rows : List User) : Prop where
  names : rows.Pairwise fun u v => u.username ≠ v.username
  tokens : rows.Pairwise fun u v => u.token = v.token → u.token = 0

/-- The id tells the rows apart, and the sequence has not reached a used one. -/
structure Keyed (db : Users) : Prop where
  ids : db.rows.Pairwise fun u v => u.id ≠ v.id
  lt : ∀ u ∈ db.rows, u.id < db.nextId

instance (rows : List User) : Decidable (Distinct rows) :=
  decidable_of_iff (rows.Pairwise (fun u v => u.username ≠ v.username) ∧
      rows.Pairwise fun u v => u.token = v.token → u.token = 0)
    ⟨fun h => ⟨h.1, h.2⟩, fun h => ⟨h.1, h.2⟩⟩

/-- In a list without two elements of one key, equal keys mean equal elements. -/
theorem eq_of_key {α β : Type} {key : α → β} {l : List α}
    (h : l.Pairwise fun a b => key a ≠ key b) {a b : α} (ha : a ∈ l) (hb : b ∈ l)
    (hkey : key a = key b) : a = b := by
  have hnodup : (l.map key).Nodup := List.pairwise_map.mpr h
  exact List.inj_on_of_nodup_map hnodup ha hb hkey

theorem Distinct.eq_of_username {rows : List User} (h : Distinct rows) {u v : User}
    (hu : u ∈ rows) (hv : v ∈ rows) (hname : u.username = v.username) : u = v :=
  eq_of_key h.names hu hv hname

theorem Distinct.eq_of_token {rows : List User} (h : Distinct rows) {u v : User}
    (hu : u ∈ rows) (hv : v ∈ rows) (htoken : u.token = v.token) (hzero : u.token ≠ 0) :
    u = v := by
  by_contra hne
  have hsymm : Std.Symm fun u v : User => u.token = v.token → u.token = 0 :=
    ⟨fun u v h heq => heq.trans (h heq.symm)⟩
  exact hzero (h.tokens.forall hu hv hne htoken)

theorem Distinct.nodup {rows : List User} (h : Distinct rows) : rows.Nodup :=
  h.names.imp fun hne heq => hne (congrArg User.username heq)

/-- A filter that only one row of the table passes. -/
theorem Distinct.filter_eq {rows : List User} (h : Distinct rows) {u : User} (hu : u ∈ rows)
    {p : User → Bool} (hp : ∀ v ∈ rows, p v = true ↔ v = u) : rows.filter p = [u] := by
  have hcongr : rows.filter p = rows.filter (· = u) := by
    refine List.filter_congr fun v hv => ?_
    rw [Bool.eq_iff_iff, hp v hv, decide_eq_true_iff]
  rw [hcongr, List.filter_eq, List.count_eq_one_of_mem h.nodup hu]
  rfl

/-! ### Queries -/

section

variable {α : Type} {shared : Bool} {l : List α}

theorem optional_none (h : optional shared l = .ok none) : l = [] := by
  match l with
  | [] => rfl
  | [a] => cases h
  | a :: b :: l => cases shared <;> cases h

theorem optional_some {a : α} (h : optional shared l = .ok (some a)) : a ∈ l := by
  match l with
  | [] => cases h
  | [b] =>
    cases h
    exact List.mem_singleton_self a
  | b :: c :: l =>
    cases shared <;> cases h
    exact List.mem_cons_self

theorem optional_of_ne {a b : α} (ha : a ∈ l) (hb : b ∈ l) (hne : a ≠ b) :
    optional false l = .error .incorrectResultSize := by
  match l with
  | [] => cases ha
  | [c] => exact absurd ((List.mem_singleton.mp ha).trans (List.mem_singleton.mp hb).symm) hne
  | _ :: _ :: _ => rfl

end

section

variable {encoder : Encoder} {boxed : Int64 → Bool} {db : Users} {username password : String}
  {token : Int64} {user : User}

theorem findUserByUsername_none (h : db.findUserByUsername username = .ok none) :
    ∀ u ∈ db.rows, u.username ≠ username := by
  intro u hu hname
  have hempty := List.filter_eq_nil_iff.mp (optional_none h) u hu
  exact hempty (decide_eq_true hname)

theorem findUserByUsername_some (h : db.findUserByUsername username = .ok (some user)) :
    user ∈ db.rows ∧ user.username = username := by
  have hmem := List.mem_filter.mp (optional_some h)
  exact ⟨hmem.1, of_decide_eq_true hmem.2⟩

theorem findToken_none (h : db.findToken boxed token = .ok none) :
    ∀ u ∈ db.rows, u.token ≠ token := by
  intro u hu htoken
  have hempty := List.filter_eq_nil_iff.mp (List.map_eq_nil_iff.mp (optional_none h)) u hu
  exact hempty (decide_eq_true htoken)

theorem findToken_some {found : Int64} (h : db.findToken boxed token = .ok (some found)) :
    found = token ∧ ∃ u ∈ db.rows, u.token = token := by
  obtain ⟨u, hu, rfl⟩ := List.mem_map.mp (optional_some h)
  have hmem := List.mem_filter.mp hu
  have htoken : u.token = token := of_decide_eq_true hmem.2
  exact ⟨htoken, u, hmem.1, htoken⟩

/-- The row with a token that is not zero is the only one with it. -/
theorem filter_token (h : Distinct db.rows) (hu : user ∈ db.rows) (hzero : user.token ≠ 0) :
    db.rows.filter (·.token = user.token) = [user] := by
  refine h.filter_eq hu fun v hv => ?_
  rw [decide_eq_true_iff]
  constructor
  · intro htoken
    exact (h.eq_of_token hu hv htoken.symm hzero).symm
  · rintro rfl
    rfl

theorem findToken_of_mem (h : Distinct db.rows) (hu : user ∈ db.rows) (hzero : user.token ≠ 0) :
    db.findToken boxed user.token = .ok (some user.token) := by
  unfold Users.findToken
  rw [filter_token h hu hzero]
  rfl

/-! ### Methods -/

theorem commit_ok {α : Type} {fails : Bool} {a b : α} (h : commit fails a = .ok b) : b = a := by
  cases fails with
  | true => cases h
  | false =>
    cases h
    rfl

/-- A token that the loop returns is new and not zero. -/
theorem getToken_ok {draws : List Int64} (h : getToken boxed db draws = .ok token) :
    token ≠ 0 ∧ ∀ u ∈ db.rows, u.token ≠ token := by
  induction draws with
  | nil => cases h
  | cons drawn draws ih =>
    unfold getToken at h
    obtain ⟨found, hfound, h⟩ := bind_ok h
    split at h
    next => exact ih h
    next hdrawn =>
      cases h
      rw [Bool.or_eq_true, not_or, beq_iff_eq, Bool.not_eq_true, Option.isSome_eq_false_iff,
        Option.isNone_iff_eq_none] at hdrawn
      rw [hdrawn.1] at hfound
      exact ⟨hdrawn.2, findToken_none hfound⟩

theorem addUser_ok {draws : List Int64} {salt : ℕ} {fails : Bool} {db' : Users}
    (h : addUser encoder boxed db username password draws salt fails = .ok (token, db')) :
    (∀ u ∈ db.rows, u.username ≠ username) ∧ getToken boxed db draws = .ok token ∧
      db' = db.insert username (encoder.encode password salt) token := by
  obtain ⟨found, hfound, h⟩ := bind_ok h
  cases found with
  | some user => cases h
  | none =>
    obtain ⟨drawn, hdrawn, h⟩ := bind_ok h
    cases commit_ok h
    exact ⟨findUserByUsername_none hfound, hdrawn, rfl⟩

theorem authenticate_ok (h : authenticate encoder db username password = .ok user) :
    user ∈ db.rows ∧ user.username = username := by
  obtain ⟨found, hfound, h⟩ := bind_ok h
  cases found with
  | none => cases h
  | some u =>
    dsimp only at h
    split at h
    next => cases h
    next =>
      cases h
      exact findUserByUsername_some hfound

theorem signIn_ok {draws : List Int64} {fails : Bool} {db' : Users}
    (h : signIn encoder boxed db username password draws fails = .ok (token, db')) :
    ∃ user ∈ db.rows, user.username = username ∧ getToken boxed db draws = .ok token ∧
      db' = db.update user token := by
  obtain ⟨user, huser, h⟩ := bind_ok h
  obtain ⟨drawn, hdrawn, h⟩ := bind_ok h
  cases commit_ok h
  obtain ⟨hmem, hname⟩ := authenticate_ok huser
  exact ⟨user, hmem, hname, hdrawn, rfl⟩

theorem throwIfTokenInvalid_ok (h : throwIfTokenInvalid boxed db token = .ok ()) :
    token ≠ 0 ∧ ∃ u ∈ db.rows, u.token = token := by
  obtain ⟨found, hfound, hrest⟩ := bind_ok h
  cases found with
  | none => cases hrest
  | some found =>
    obtain ⟨rfl, hmem⟩ := findToken_some hfound
    dsimp only at hrest
    split at hrest
    next => cases hrest
    next hzero => exact ⟨fun heq => hzero (beq_iff_eq.mpr heq), hmem⟩

/-- `throwIfTokenInvalid` accepts the tokens of the table, zero apart. -/
theorem throwIfTokenInvalid_iff (hdistinct : Distinct db.rows) :
    throwIfTokenInvalid boxed db token = .ok () ↔ token ≠ 0 ∧ ∃ u ∈ db.rows, u.token = token := by
  refine ⟨throwIfTokenInvalid_ok, ?_⟩
  rintro ⟨hzero, u, hu, rfl⟩
  unfold throwIfTokenInvalid
  rw [findToken_of_mem hdistinct hu hzero]
  show (if (u.token == 0) = true then _ else _) = _
  rw [if_neg fun heq => hzero (beq_iff_eq.mp heq)]
  rfl

theorem getUsernameByToken_of_mem (h : Distinct db.rows) (hu : user ∈ db.rows)
    (hzero : user.token ≠ 0) :
    getUsernameByToken boxed db user.token = .ok user.username := by
  unfold getUsernameByToken
  rw [(throwIfTokenInvalid_iff h).mpr ⟨hzero, user, hu, rfl⟩]
  unfold Users.getUsernameByToken
  rw [filter_token h hu hzero]
  rfl

theorem makeTokenNull_ok {db' : Users} (h : makeTokenNull boxed db token = .ok db') :
    (token ≠ 0 ∧ ∃ u ∈ db.rows, u.token = token) ∧ db' = db.makeTokenNull token := by
  obtain ⟨⟨⟩, hvalid, h⟩ := bind_ok h
  cases h
  exact ⟨throwIfTokenInvalid_ok hvalid, rfl⟩

/-! ### Writes -/

theorem keyed_insert (h : Keyed db) : Keyed (db.insert username password token) := by
  constructor
  · refine List.pairwise_append.mpr ⟨h.ids, List.pairwise_singleton _ _, ?_⟩
    intro u hu v hv
    rw [List.mem_singleton] at hv
    subst hv
    exact (h.lt u hu).ne
  · intro u hu
    show u.id < db.nextId + 1
    rcases List.mem_append.mp hu with hu | hu
    · exact Nat.lt_succ_of_lt (h.lt u hu)
    · rw [List.mem_singleton.mp hu]
      exact Nat.lt_succ_self _

theorem distinct_insert_iff (h : Distinct db.rows) :
    Distinct (db.insert username password token).rows ↔
      ∀ u ∈ db.rows, u.username ≠ username ∧ (u.token = token → u.token = 0) := by
  constructor
  · intro hinsert u hu
    have hname := (List.pairwise_append.mp hinsert.names).2.2 u hu
    have htoken := (List.pairwise_append.mp hinsert.tokens).2.2 u hu
    exact ⟨hname _ (List.mem_singleton_self _), htoken _ (List.mem_singleton_self _)⟩
  · intro hnew
    constructor
    · refine List.pairwise_append.mpr ⟨h.names, List.pairwise_singleton _ _, ?_⟩
      intro u hu v hv
      rw [List.mem_singleton.mp hv]
      exact (hnew u hu).1
    · refine List.pairwise_append.mpr ⟨h.tokens, List.pairwise_singleton _ _, ?_⟩
      intro u hu v hv
      rw [List.mem_singleton.mp hv]
      exact (hnew u hu).2

theorem update_of_ne (h : token ≠ user.token) : (db.update user token).rows =
    db.rows.map fun u => if u.id = user.id then { user with token := token } else u := by
  unfold Users.update
  rw [if_neg h]

/-- The rows after an update that writes: those with another id, and the entity. -/
theorem mem_update (h : token ≠ user.token) {v : User} : v ∈ (db.update user token).rows ↔
    v = { user with token := token } ∧ (∃ u ∈ db.rows, u.id = user.id) ∨
      v ∈ db.rows ∧ v.id ≠ user.id := by
  rw [update_of_ne h, List.mem_map]
  constructor
  · rintro ⟨u, hu, rfl⟩
    by_cases hid : u.id = user.id
    · rw [if_pos hid]
      exact Or.inl ⟨rfl, u, hu, hid⟩
    · rw [if_neg hid]
      exact Or.inr ⟨hu, hid⟩
  · rintro (⟨rfl, u, hu, hid⟩ | ⟨hv, hid⟩)
    · exact ⟨u, hu, if_pos hid⟩
    · exact ⟨v, hv, if_neg hid⟩

theorem keyed_update (h : Keyed db) (user : User) : Keyed (db.update user token) := by
  by_cases hne : token = user.token
  · unfold Users.update
    rw [if_pos hne]
    exact h
  · have hid : ∀ u : User, (if u.id = user.id then { user with token := token } else u).id = u.id := by
      intro u
      split_ifs with hid
      · exact hid.symm
      · rfl
    have hnext : (db.update user token).nextId = db.nextId := by
      unfold Users.update
      rw [if_neg hne]
    constructor
    · rw [update_of_ne hne, List.pairwise_map]
      refine h.ids.imp fun {u v} huv => ?_
      rw [hid, hid]
      exact huv
    · intro v hv
      rw [update_of_ne hne] at hv
      obtain ⟨u, hu, rfl⟩ := List.mem_map.mp hv
      rw [hid, hnext]
      exact h.lt u hu

/-- Saving a loaded user under a token keeps the rows distinct if no other user
has the token, or nothing is written; and only then. -/
theorem distinct_update_iff (hkeyed : Keyed db) (h : Distinct db.rows)
    (hrow : ∃ r ∈ db.rows, r.id = user.id ∧ r.username = user.username) (hzero : token ≠ 0) :
    Distinct (db.update user token).rows ↔
      token = user.token ∨ ∀ v ∈ db.rows, v.id ≠ user.id → v.token ≠ token := by
  obtain ⟨r, hr, hrid, hrname⟩ := hrow
  by_cases hne : token = user.token
  · have hsame : db.update user token = db := if_pos hne
    rw [hsame]
    exact ⟨fun _ => Or.inl hne, fun _ => h⟩
  · constructor
    · intro hupdate
      right
      intro v hv hid htoken
      have hentity := (mem_update hne).mpr (Or.inl ⟨rfl, r, hr, hrid⟩)
      have hother := (mem_update hne).mpr (Or.inr ⟨hv, hid⟩)
      have heq := hupdate.eq_of_token hentity hother htoken.symm hzero
      exact hid (congrArg User.id heq).symm
    · intro hfresh
      have hfresh := hfresh.resolve_left hne
      rw [update_of_ne hne]
      constructor
      · rw [List.pairwise_map]
        refine h.names.imp_of_mem fun {u v} hu hv huv => ?_
        have hname : ∀ u ∈ db.rows,
            (if u.id = user.id then { user with token := token } else u).username = u.username := by
          intro u hu
          split_ifs with hid
          · rw [eq_of_key hkeyed.ids hu hr (hid.trans hrid.symm)]
            exact hrname.symm
          · rfl
        rw [hname u hu, hname v hv]
        exact huv
      · rw [List.pairwise_map]
        have hids := hkeyed.ids.and h.tokens
        refine hids.imp_of_mem fun {u v} hu hv huv => ?_
        split_ifs with hu' hv' hv'
        · exact fun _ => absurd (hu'.trans hv'.symm) huv.1
        · exact fun heq => absurd heq.symm (hfresh v hv hv')
        · exact fun heq => absurd heq (hfresh u hu hu')
        · exact huv.2

theorem keyed_makeTokenNull (h : Keyed db) : Keyed (db.makeTokenNull token) := by
  have hid : ∀ u : User, (if u.token = token then { u with token := 0 } else u).id = u.id := by
    intro u
    split_ifs <;> rfl
  constructor
  · refine List.pairwise_map.mpr (h.ids.imp fun {u v} huv => ?_)
    rw [hid, hid]
    exact huv
  · intro v hv
    obtain ⟨u, hu, rfl⟩ := List.mem_map.mp hv
    rw [hid]
    exact h.lt u hu

theorem distinct_makeTokenNull (h : Distinct db.rows) :
    Distinct (db.makeTokenNull token).rows := by
  have hname : ∀ u : User,
      (if u.token = token then { u with token := 0 } else u).username = u.username := by
    intro u
    split_ifs <;> rfl
  constructor
  · refine List.pairwise_map.mpr (h.names.imp fun {u v} huv => ?_)
    rw [hname, hname]
    exact huv
  · refine List.pairwise_map.mpr (h.tokens.imp fun {u v} huv => ?_)
    split_ifs with hu hv hv
    · exact fun _ => rfl
    · exact fun _ => rfl
    · exact id
    · exact huv

end

end Itmo.Web4
