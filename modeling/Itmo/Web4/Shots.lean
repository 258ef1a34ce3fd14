import Itmo.Web4.Target
import Itmo.Web4.Tokens

/-! Shots on their way from a page to the table and back. A request is checked in one
transaction and carried out in another, and its answer comes when it comes, so that the
requests of all pages interleave in every way. A page shows what the last answered update
has brought and, after that, every shot that was answered since. -/

namespace Itmo.Web4

open Lib

namespace Shots

variable {K : Type*} [Field K] [LinearOrder K]

/-! ### The server -/

/-- The entity, without the date and the time taken, which are only shown. -/
structure Shot (K : Type*) where
  id : ℕ
  x : K
  y : K
  r : K
  result : Bool
  username : String

/-- The bounds of `ShotHandler.validateOrThrow`. -/
def InBounds (x y r : K) : Prop := ¬ (x < -5 ∨ x > 5 ∨ y < -5 ∨ y > 3 ∨ r < 0 ∨ r > 5)

instance (x y r : K) : Decidable (InBounds x y r) :=
  inferInstanceAs (Decidable (¬ (x < -5 ∨ x > 5 ∨ y < -5 ∨ y > 3 ∨ r < 0 ∨ r > 5)))

/-- `/api/shots/get` and `/api/shots/send` -/
inductive Kind (K : Type*) where
  | get
  | send (x y r : K)

inductive Failed where
  | badRequest (reason : String)
  | user (failure : Failure)

def outOfBounds : Failed := .badRequest "Укажите значения чисел в необходимых пределах"

/-- What a request has to pass before it is carried out, up to the name of the user. -/
def authorise (boxed : Int64 → Bool) (db : Users) (token : Int64) : Kind K → Except Failed String
  | .get => (getUsernameByToken boxed db token).mapError .user
  | .send x y r =>
    if InBounds x y r then (getUsernameByToken boxed db token).mapError .user
    else .error outOfBounds

/-- The answer to a request; that of an update with its user and the number of shots in the
table at its moment. -/
inductive Response (K : Type*) where
  | found (username : String) (stored : ℕ) (shots : List (Shot K))
  | saved (shot : Shot K)
  | failed (failure : Failed)

/-- Where a request is. After the check its token and the history up to the check are kept
along with the name. -/
inductive Phase (K : Type*) where
  | idle
  | sent (page : ℕ) (token : Int64) (kind : Kind K)
  | authorised (page : ℕ) (token : Int64) (history : List Entry) (username : String)
      (kind : Kind K)
  | answered (page : ℕ) (response : Response K)

/-- A row of the table, with the token of its request and the history up to its check. -/
structure Stored (K : Type*) where
  shot : Shot K
  token : Int64
  history : List Entry

/-- `DataService` of a page: the shots that it shows; and, of the update that it has
installed last, the user and the number of shots in the table, and the shots that were
answered since. -/
structure Page (K : Type*) where
  shots : List (Shot K)
  installed : Option (String × ℕ)
  since : List (Shot K)

def Page.empty : Page K where
  shots := []
  installed := none
  since := []

/-- The callbacks of `updateShots` and `sendShot`. -/
def Page.receive (page : Page K) : Response K → Page K
  | .found username stored shots => { shots, installed := some (username, stored), since := [] }
  | .saved shot => { page with shots := page.shots ++ [shot], since := page.since ++ [shot] }
  | .failed _ => page

/-! ### Steps -/

/-- The users, the table of shots with the sequence of its ids, the requests and the pages. -/
structure State (K : Type*) where
  users : Web4.State
  table : List (Stored K)
  nextId : ℕ
  requests : ℕ → Phase K
  pages : ℕ → Page K

/-- A page that is opened again is another page. -/
inductive Event (K : Type*) where
  | user (request : Request)
  | ask (request page : ℕ) (token : Int64) (kind : Kind K)
  | check (request : ℕ)
  /-- The transaction of a checked request; the database may refuse to save. -/
  | carryOut (request : ℕ) (fails : Bool)
  | receive (request : ℕ)

/-- `getShotsByUsername` -/
def getShotsByUsername (table : List (Stored K)) (username : String) : List (Shot K) :=
  (table.map Stored.shot).filter (·.username = username)

/-- The row that `addShot` saves. -/
def row (s : State K) (username : String) (x y r : K) : Shot K where
  id := s.nextId
  x
  y
  r
  result := Web4.result x y r
  username

def State.setRequest (s : State K) (request : ℕ) (phase : Phase K) : State K :=
  { s with requests := Function.update s.requests request phase }

variable (encoder : Encoder) (boxed : Int64 → Bool)

def step (s : State K) : Event K → State K
  | .user request => { s with users := Web4.step encoder boxed s.users request }
  | .ask i page token kind =>
    match s.requests i with
    | .idle => s.setRequest i (.sent page token kind)
    | _ => s
  | .check i =>
    match s.requests i with
    | .sent page token kind =>
      match authorise boxed s.users.db token kind with
      | .ok username => s.setRequest i (.authorised page token s.users.history username kind)
      | .error failure => s.setRequest i (.answered page (.failed failure))
    | _ => s
  | .carryOut i fails =>
    match s.requests i with
    | .authorised page _ _ username .get =>
      s.setRequest i (.answered page
        (.found username s.table.length (getShotsByUsername s.table username)))
    | .authorised page token history username (.send x y r) =>
      if fails then
        { s.setRequest i (.answered page (.failed (.user .dataAccess))) with
          nextId := s.nextId + 1 }
      else
        { s.setRequest i (.answered page (.saved (row s username x y r))) with
          table := s.table ++ [⟨row s username x y r, token, history⟩]
          nextId := s.nextId + 1 }
    | _ => s
  | .receive i =>
    match s.requests i with
    | .answered page response =>
      { s.setRequest i .idle with
        pages := Function.update s.pages page ((s.pages page).receive response) }
    | _ => s

/-- No user, no shot and no request. -/
def start : State K where
  users := Web4.State.empty
  table := []
  nextId := 1
  requests _ := .idle
  pages _ := .empty

/-! ### Whose shots are stored and shown -/

/-- The user held the token at the check, at some moment of the history. -/
def Held (history : List Entry) (username : String) (token : Int64) (moment : List Entry) : Prop :=
  Holds moment username token ∧ moment <:+ history

/-- What is stored was sent by the user whose token it came with. -/
structure Stored.Proper (history : List Entry) (stored : Stored K) : Prop where
  held : Held history stored.shot.username stored.token stored.history
  inBounds : InBounds stored.shot.x stored.shot.y stored.shot.r
  result : stored.shot.result = Web4.result stored.shot.x stored.shot.y stored.shot.r

/-- The shots of the user among the first of the table. -/
def snapshot (table : List (Stored K)) (username : String) (stored : ℕ) : List (Shot K) :=
  getShotsByUsername (table.take stored) username

/-- What an answer says is in the table. -/
def Response.Proper (table : List (Stored K)) : Response K → Prop
  | .found username stored shots => stored ≤ table.length ∧ shots = snapshot table username stored
  | .saved shot => shot ∈ table.map Stored.shot
  | .failed _ => True

def Phase.Proper (history : List Entry) (table : List (Stored K)) : Phase K → Prop
  | .idle => True
  | .sent _ _ _ => True
  | .authorised _ token moment username kind =>
    Held history username token moment ∧
      ∀ x y r, kind = .send x y r → InBounds x y r
  | .answered _ response => response.Proper table

/-- What an installed update has brought. -/
def Page.base (table : List (Stored K)) (page : Page K) : List (Shot K) :=
  match page.installed with
  | none => []
  | some (username, stored) => snapshot table username stored

structure Page.Proper (table : List (Stored K)) (page : Page K) : Prop where
  shots : page.shots = page.base table ++ page.since
  installed : ∀ username stored, page.installed = some (username, stored) → stored ≤ table.length
  since : ∀ shot ∈ page.since, shot ∈ table.map Stored.shot
  nodup : page.since.Nodup

/-- The answer to a saved shot is on its way. -/
def Phase.Brings (shot : Shot K) : Phase K → Prop
  | .answered _ (.saved brought) => brought = shot
  | _ => False

structure Consistent (s : State K) : Prop where
  users : Sound s.users
  ids : s.table.Pairwise fun a b => a.shot.id < b.shot.id
  nextId : ∀ stored ∈ s.table, stored.shot.id < s.nextId
  stored : ∀ stored ∈ s.table, stored.Proper s.users.history
  requests : ∀ i, (s.requests i).Proper s.users.history s.table
  pages : ∀ i, (s.pages i).Proper s.table
  once : ∀ i j shot, (s.requests i).Brings shot → (s.requests j).Brings shot → i = j
  fresh : ∀ i page shot, (s.requests i).Brings shot → shot ∉ (s.pages page).since

/-! ### Growing histories and tables -/

section Grow

variable {history history' : List Entry} {table : List (Stored K)} {new : Stored K}

theorem Held.grow {username : String} {token : Int64} {moment : List Entry}
    (h : Held history username token moment) (hgrow : history <:+ history') :
    Held history' username token moment :=
  ⟨h.1, h.2.trans hgrow⟩

theorem Phase.Proper.grow {phase : Phase K} (h : phase.Proper history table)
    (hgrow : history <:+ history') : phase.Proper history' table := by
  cases phase with
  | idle => trivial
  | sent => trivial
  | authorised page token moment username kind => exact ⟨h.1.grow hgrow, h.2⟩
  | answered page response => exact h

omit [Field K] [LinearOrder K] in
theorem snapshot_concat {username : String} {stored : ℕ} (h : stored ≤ table.length) :
    snapshot (table ++ [new]) username stored = snapshot table username stored := by
  unfold snapshot
  rw [List.take_append_of_le_length h]

omit [Field K] [LinearOrder K] in
theorem mem_map_concat {shot : Shot K} (h : shot ∈ table.map Stored.shot) :
    shot ∈ (table ++ [new]).map Stored.shot := by
  rw [List.map_append]
  exact List.mem_append_left _ h

omit [Field K] [LinearOrder K] in
theorem Response.Proper.concat {response : Response K} (h : response.Proper table) :
    response.Proper (table ++ [new]) := by
  cases response with
  | found username stored shots =>
    obtain ⟨hle, rfl⟩ := h
    exact ⟨hle.trans (by simp), (snapshot_concat hle).symm⟩
  | saved shot => exact mem_map_concat h
  | failed => trivial

theorem Phase.Proper.concat {phase : Phase K} (h : phase.Proper history table) :
    phase.Proper history (table ++ [new]) := by
  cases phase with
  | idle => trivial
  | sent => trivial
  | authorised page token moment username kind => exact h
  | answered page response => exact Response.Proper.concat h

omit [Field K] [LinearOrder K] in
theorem Page.Proper.concat {page : Page K} (h : page.Proper table) :
    page.Proper (table ++ [new]) where
  shots := by
    have hbase : page.base (table ++ [new]) = page.base table := by
      unfold Page.base
      split
      · rfl
      · next username stored hinstalled => exact snapshot_concat (h.installed _ _ hinstalled)
    rw [hbase]
    exact h.shots
  installed username stored hinstalled := (h.installed _ _ hinstalled).trans (by simp)
  since shot hshot := mem_map_concat (h.since shot hshot)
  nodup := h.nodup

end Grow

/-! ### Steps -/

variable {encoder boxed} {s : State K}

theorem history_step (t : Web4.State) (request : Request) :
    t.history <:+ (Web4.step encoder boxed t request).history := by
  cases request with
  | addUser =>
    unfold Web4.step
    dsimp only
    split
    · exact List.suffix_cons _ _
    · exact List.suffix_refl _
  | signIn =>
    unfold Web4.step
    dsimp only
    split
    · exact List.suffix_cons _ _
    · exact List.suffix_refl _
  | makeTokenNull =>
    unfold Web4.step
    dsimp only
    split
    · exact List.suffix_cons _ _
    · exact List.suffix_refl _
  | throwIfTokenInvalid => exact List.suffix_refl _
  | getUsernameByToken => exact List.suffix_refl _

theorem mapError_ok {ε ε' α : Type} {f : ε → ε'} {x : Except ε α} {a : α}
    (h : x.mapError f = .ok a) : x = .ok a := by
  cases x with
  | error => cases h
  | ok =>
    cases h
    rfl

/-- A checked request came with a token that its user holds, and is in bounds. -/
theorem authorise_ok (h : Sound s.users) {token : Int64} {kind : Kind K} {username : String}
    (hok : authorise boxed s.users.db token kind = .ok username) :
    Held s.users.history username token s.users.history ∧
      ∀ x y r, kind = .send x y r → InBounds x y r := by
  have huser : getUsernameByToken boxed s.users.db token = .ok username ∧
      ∀ x y r, kind = .send x y r → InBounds x y r := by
    cases kind with
    | get => exact ⟨mapError_ok hok, nofun⟩
    | send x y r =>
      unfold authorise at hok
      dsimp only at hok
      split_ifs at hok with hbounds
      exact ⟨mapError_ok hok, fun _ _ _ heq => by cases heq; exact hbounds⟩
  refine ⟨⟨?_, List.suffix_refl _⟩, huser.2⟩
  obtain ⟨⟨⟩, hvalid, hname⟩ := bind_ok huser.1
  obtain ⟨hzero, -⟩ := throwIfTokenInvalid_ok hvalid
  obtain ⟨found, hfound, hname⟩ := bind_ok hname
  cases found with
  | none => cases hname
  | some found =>
    cases hname
    obtain ⟨u, hu, rfl⟩ := List.mem_map.mp (optional_some hfound)
    have hmem := List.mem_filter.mp hu
    exact (h.holds _ _).mpr ⟨hzero, u, hmem.1, rfl, of_decide_eq_true hmem.2⟩

/-- A request that changes its phase to one that brings nothing. -/
theorem Consistent.setRequest (h : Consistent s) {i : ℕ} (phase : Phase K)
    (hphase : phase.Proper s.users.history s.table) (hbrings : ∀ shot, ¬ phase.Brings shot) :
    Consistent (s.setRequest i phase) where
  users := h.users
  ids := h.ids
  nextId := h.nextId
  stored := h.stored
  requests j := by
    unfold State.setRequest
    dsimp only
    rw [Function.update_apply]
    split_ifs
    · exact hphase
    · exact h.requests j
  pages := h.pages
  once j k shot hj hk := by
    unfold State.setRequest at hj hk
    dsimp only at hj hk
    rw [Function.update_apply] at hj hk
    split_ifs at hj hk
    · exact (hbrings shot hj).elim
    · exact (hbrings shot hj).elim
    · exact (hbrings shot hk).elim
    · exact h.once j k shot hj hk
  fresh j page shot hj := by
    unfold State.setRequest at hj
    dsimp only at hj
    rw [Function.update_apply] at hj
    split_ifs at hj
    · exact (hbrings shot hj).elim
    · exact h.fresh j page shot hj

theorem Consistent.user (h : Consistent s) (request : Request) :
    Consistent (step encoder boxed s (.user request)) where
  users := sound_step encoder boxed s.users request h.users
  ids := h.ids
  nextId := h.nextId
  stored stored hstored :=
    have hproper := h.stored stored hstored
    ⟨hproper.held.grow (history_step s.users request), hproper.inBounds, hproper.result⟩
  requests i := (h.requests i).grow (history_step s.users request)
  pages := h.pages
  once := h.once
  fresh := h.fresh

/-- A save that fails has used up an id. -/
theorem Consistent.skip (h : Consistent s) : Consistent { s with nextId := s.nextId + 1 } where
  users := h.users
  ids := h.ids
  nextId stored hstored := Nat.lt_succ_of_lt (h.nextId stored hstored)
  stored := h.stored
  requests := h.requests
  pages := h.pages
  once := h.once
  fresh := h.fresh

/-- What an answer on its way brings is in the table. -/
theorem Consistent.brings_mem (h : Consistent s) {i : ℕ} {shot : Shot K}
    (hbrings : (s.requests i).Brings shot) : shot ∈ s.table.map Stored.shot := by
  have hproper := h.requests i
  unfold Phase.Brings at hbrings
  split at hbrings
  · next page brought hphase =>
    rw [hphase] at hproper
    exact hbrings ▸ hproper
  · exact hbrings.elim

/-- The shot of a request that is saved is no other one. -/
theorem Consistent.ne_new (h : Consistent s) {shot : Shot K}
    (hshot : shot ∈ s.table.map Stored.shot) (username : String) (x y r : K) :
    shot ≠ row s username x y r := by
  rintro rfl
  obtain ⟨stored, hstored, heq⟩ := List.mem_map.mp hshot
  have hlt := h.nextId stored hstored
  rw [heq] at hlt
  exact hlt.ne rfl

theorem Consistent.save (h : Consistent s) {i page : ℕ} {token : Int64} {history : List Entry}
    {username : String} {x y r : K}
    (hphase : s.requests i = .authorised page token history username (.send x y r)) :
    Consistent { s.setRequest i (.answered page (.saved (row s username x y r))) with
      table := s.table ++ [⟨row s username x y r, token, history⟩]
      nextId := s.nextId + 1 } := by
  have hauthorised : (s.requests i).Proper s.users.history s.table := h.requests i
  rw [hphase] at hauthorised
  have hbrings : ∀ j shot, (Function.update s.requests i
      (.answered page (.saved (row s username x y r))) j).Brings shot →
      (j = i ∧ shot = row s username x y r) ∨
        (j ≠ i ∧ (s.requests j).Brings shot ∧ shot ∈ s.table.map Stored.shot) := by
    intro j shot hj
    rw [Function.update_apply] at hj
    split_ifs at hj with heq
    · exact Or.inl ⟨heq, hj.symm⟩
    · exact Or.inr ⟨heq, hj, h.brings_mem hj⟩
  refine ⟨h.users, ?_, ?_, ?_, ?_, fun page => (h.pages page).concat, ?_, ?_⟩
  · exact pairwise_concat h.ids h.nextId
  · refine forall_mem_concat (fun stored hstored => ?_) (Nat.lt_succ_self _)
    exact Nat.lt_succ_of_lt (h.nextId stored hstored)
  · exact forall_mem_concat h.stored ⟨hauthorised.1, hauthorised.2 x y r rfl, rfl⟩
  · intro j
    unfold State.setRequest
    dsimp only
    rw [Function.update_apply]
    split_ifs
    · show row s username x y r ∈ _
      rw [List.map_append]
      exact List.mem_append_right _ (List.mem_singleton_self _)
    · exact (h.requests j).concat
  · intro j k shot hj hk
    rcases hbrings j shot hj with ⟨rfl, rfl⟩ | ⟨-, hj, hmem⟩
    · rcases hbrings k _ hk with ⟨rfl, -⟩ | ⟨-, -, hmem⟩
      · rfl
      · exact (h.ne_new hmem username x y r rfl).elim
    · rcases hbrings k shot hk with ⟨rfl, rfl⟩ | ⟨-, hk, -⟩
      · exact (h.ne_new hmem username x y r rfl).elim
      · exact h.once j k shot hj hk
  · intro j page shot hj hsince
    rcases hbrings j shot hj with ⟨rfl, rfl⟩ | ⟨-, hj, -⟩
    · exact h.ne_new ((h.pages page).since _ hsince) username x y r rfl
    · exact h.fresh j page shot hj hsince

omit [Field K] [LinearOrder K] in
/-- The callback of an answer that is proper, and not shown yet if it is a shot. -/
theorem Page.Proper.receive {table : List (Stored K)} {page : Page K} (h : page.Proper table)
    {response : Response K} (hresponse : response.Proper table)
    (hfresh : ∀ shot, response = .saved shot → shot ∉ page.since) :
    (page.receive response).Proper table := by
  cases response with
  | found username stored shots =>
    obtain ⟨hle, rfl⟩ := hresponse
    refine ⟨(List.append_nil _).symm, ?_, nofun, List.nodup_nil⟩
    intro username' stored' heq
    cases heq
    exact hle
  | saved shot =>
    refine ⟨?_, h.installed, ?_, ?_⟩
    · show page.shots ++ [shot] = page.base table ++ (page.since ++ [shot])
      rw [h.shots, List.append_assoc]
    · intro shot' hmem
      rcases List.mem_append.mp hmem with hmem | hmem
      · exact h.since shot' hmem
      · rw [List.mem_singleton.mp hmem]
        exact hresponse
    · refine List.nodup_append.mpr ⟨h.nodup, List.nodup_singleton _, ?_⟩
      rintro shot' hmem _ hnew rfl
      rw [List.mem_singleton] at hnew
      exact hfresh shot rfl (hnew ▸ hmem)
  | failed failure => exact h

theorem Consistent.receive (h : Consistent s) {i page : ℕ} {response : Response K}
    (hphase : s.requests i = .answered page response) :
    Consistent { s.setRequest i .idle with
      pages := Function.update s.pages page ((s.pages page).receive response) } := by
  have hproper : response.Proper s.table := by
    have hrequest := h.requests i
    rw [hphase] at hrequest
    exact hrequest
  have hbrings : ∀ shot, response = .saved shot → (s.requests i).Brings shot := by
    rintro shot rfl
    rw [hphase]
    rfl
  have hset := h.setRequest (i := i) .idle trivial fun _ => id
  refine ⟨hset.users, hset.ids, hset.nextId, hset.stored, hset.requests, ?_, hset.once, ?_⟩
  · intro other
    dsimp only
    rw [Function.update_apply]
    split_ifs
    · exact (h.pages page).receive hproper fun shot heq => h.fresh i page shot (hbrings shot heq)
    · exact h.pages other
  · intro j other shot hj hsince
    dsimp only at hsince
    rw [Function.update_apply] at hsince
    split_ifs at hsince
    · cases response with
      | found username stored shots => exact List.not_mem_nil hsince
      | saved brought =>
        rcases List.mem_append.mp hsince with hmem | hmem
        · exact hset.fresh j page shot hj hmem
        · -- only the answered request brought this shot, and it is over
          obtain rfl := List.mem_singleton.mp hmem
          have hji : j ≠ i := by
            rintro rfl
            unfold State.setRequest at hj
            dsimp only at hj
            rw [Function.update_self] at hj
            exact hj
          unfold State.setRequest at hj
          dsimp only at hj
          rw [Function.update_of_ne hji] at hj
          exact hji (h.once j i shot hj (hbrings shot rfl))
      | failed failure => exact hset.fresh j page shot hj hsince
    · exact hset.fresh j other shot hj hsince

theorem consistent_start : Consistent (start : State K) where
  users := sound_empty
  ids := List.Pairwise.nil
  nextId _ h := by cases h
  stored _ h := by cases h
  requests _ := trivial
  pages _ := ⟨rfl, nofun, nofun, List.nodup_nil⟩
  once _ _ _ h := h.elim
  fresh _ _ _ h := h.elim

theorem Consistent.step (h : Consistent s) (e : Event K) :
    Consistent (step encoder boxed s e) := by
  cases e with
  | user request => exact h.user request
  | ask i page token kind =>
    unfold Shots.step
    dsimp only
    split
    · exact h.setRequest _ trivial fun _ => id
    · exact h
  | check i =>
    unfold Shots.step
    dsimp only
    split
    · next page token kind hphase =>
      split
      · next username hok => exact h.setRequest _ (authorise_ok h.users hok) fun _ => id
      · next failure _ =>
        exact h.setRequest (.answered page (.failed failure)) trivial fun _ => id
    · exact h
  | carryOut i fails =>
    unfold Shots.step
    dsimp only
    split
    · next page token history username hphase =>
      refine h.setRequest _ ⟨le_rfl, ?_⟩ fun _ => id
      unfold snapshot
      rw [List.take_length]
    · next page token history username x y r hphase =>
      split_ifs
      · exact (h.setRequest (.answered page (.failed (.user .dataAccess))) trivial
          fun _ => id).skip
      · exact h.save hphase
    · exact h
  | receive i =>
    unfold Shots.step
    dsimp only
    split
    · next page response hphase => exact h.receive hphase
    · exact h

theorem Consistent.run (h : Consistent s) (es : List (Event K)) :
    Consistent (run (Shots.step encoder boxed) s es) :=
  run_invariant Consistent (fun _ e h => h.step e) h es

/-! ### Where a row comes from -/

/-- A request is authorised in a step only by its check. -/
theorem step_authorised {e : Event K} {i page : ℕ} {token : Int64} {history : List Entry}
    {username : String} {kind : Kind K}
    (h : (step encoder boxed s e).requests i = .authorised page token history username kind) :
    s.requests i = .authorised page token history username kind ∨
      e = .check i ∧ s.requests i = .sent page token kind ∧ history = s.users.history := by
  have hset : ∀ {t : State K} {j : ℕ} {phase : Phase K},
      t.requests i = .authorised page token history username kind →
      t.requests = Function.update s.requests j phase →
      phase ≠ .authorised page token history username kind →
      s.requests i = .authorised page token history username kind := by
    intro t j phase hupdate hrequests hphase
    rw [hrequests, Function.update_apply] at hupdate
    split_ifs at hupdate
    · exact (hphase hupdate).elim
    · exact hupdate
  cases e with
  | user request => exact Or.inl h
  | ask j page token kind =>
    unfold step at h
    dsimp only at h
    split at h
    · exact Or.inl (hset h rfl nofun)
    · exact Or.inl h
  | check j =>
    unfold step at h
    dsimp only at h
    split at h
    · next page' token' kind' hsent =>
      split at h
      · next username' _ =>
        unfold State.setRequest at h
        dsimp only at h
        rw [Function.update_apply] at h
        split_ifs at h with hij
        · cases h
          exact Or.inr ⟨by rw [hij], hij ▸ hsent, rfl⟩
        · exact Or.inl h
      · exact Or.inl (hset h rfl nofun)
    · exact Or.inl h
  | carryOut j fails =>
    unfold step at h
    dsimp only at h
    split at h
    · exact Or.inl (hset h rfl nofun)
    · split_ifs at h
      · exact Or.inl (hset h rfl nofun)
      · exact Or.inl (hset h rfl nofun)
    · exact Or.inl h
  | receive j =>
    unfold step at h
    dsimp only at h
    split at h
    · exact Or.inl (hset h rfl nofun)
    · exact Or.inl h

/-- A row comes into the table only from a request that is authorised. -/
theorem step_table {e : Event K} {stored : Stored K}
    (h : stored ∈ (step encoder boxed s e).table) : stored ∈ s.table ∨
      ∃ i page history username x y r, e = .carryOut i false ∧
        s.requests i = .authorised page stored.token history username (.send x y r) ∧
        stored.shot = row s username x y r := by
  cases e with
  | user request => exact Or.inl h
  | ask i page token kind =>
    unfold step at h
    dsimp only at h
    split at h <;> exact Or.inl h
  | check i =>
    unfold step at h
    dsimp only at h
    split at h
    · split at h <;> exact Or.inl h
    · exact Or.inl h
  | carryOut i fails =>
    unfold step at h
    dsimp only at h
    split at h
    · exact Or.inl h
    · next page token history username x y r hphase =>
      split_ifs at h with hfails
      · exact Or.inl h
      · rcases List.mem_append.mp h with hmem | hmem
        · exact Or.inl hmem
        · obtain rfl := List.mem_singleton.mp hmem
          obtain rfl : fails = false := Bool.eq_false_of_not_eq_true hfails
          exact Or.inr ⟨i, page, history, username, x, y, r, rfl, hphase, rfl⟩
    · exact Or.inl h
  | receive i =>
    unfold step at h
    dsimp only at h
    split at h <;> exact Or.inl h

variable (encoder boxed)

/-- The state after a run from the start. -/
def after (es : List (Event K)) : State K := run (step encoder boxed) start es

theorem consistent_after (es : List (Event K)) : Consistent (after encoder boxed es) :=
  consistent_start.run es

variable {encoder boxed}

theorem after_concat (es : List (Event K)) (e : Event K) :
    after encoder boxed (es ++ [e]) = step encoder boxed (after encoder boxed es) e :=
  run_concat _ es e

/-- An authorised request was checked at the moment whose history is kept with it. -/
theorem authorised_checked {es : List (Event K)} {i page : ℕ} {token : Int64}
    {history : List Entry} {username : String} {kind : Kind K}
    (h : (after encoder boxed es).requests i = .authorised page token history username kind) :
    ∃ before between, es = before ++ .check i :: between ∧
      (after encoder boxed before).requests i = .sent page token kind ∧
      history = (after encoder boxed before).users.history := by
  induction es using List.reverseRecOn with
  | nil => cases h
  | append_singleton es e ih =>
    rw [after_concat] at h
    rcases step_authorised h with hbefore | ⟨rfl, hsent, hhistory⟩
    · obtain ⟨before, between, rfl, hchecked⟩ := ih hbefore
      exact ⟨before, between ++ [e], by simp, hchecked⟩
    · exact ⟨es, [], rfl, hsent, hhistory⟩

/-- The row that carrying out a checked request has put into the table. -/
theorem stored_authorised {es : List (Event K)} {stored : Stored K}
    (h : stored ∈ (after encoder boxed es).table) :
    ∃ earlier i later page history username x y r, es = earlier ++ .carryOut i false :: later ∧
      (after encoder boxed earlier).requests i =
        .authorised page stored.token history username (.send x y r) ∧
      stored.shot = row (after encoder boxed earlier) username x y r := by
  induction es using List.reverseRecOn with
  | nil => cases h
  | append_singleton es e ih =>
    rw [after_concat] at h
    rcases step_table h with hbefore | ⟨i, page, history, username, x, y, r, rfl, hrow⟩
    · obtain ⟨earlier, i, later, page, history, username, x, y, r, rfl, hrow⟩ := ih hbefore
      exact ⟨earlier, i, later ++ [e], page, history, username, x, y, r, by simp, hrow⟩
    · exact ⟨es, i, [], page, history, username, x, y, r, rfl, hrow⟩

/-! ### Results -/

variable (encoder boxed)

/-- The request of a row was checked and later carried out. When it was checked its user held the
token it came with. -/
def Checked (es : List (Event K)) (stored : Stored K) : Prop :=
  ∃ before i between later page,
    es = before ++ .check i :: (between ++ .carryOut i false :: later) ∧
    let checked := after encoder boxed before
    let authorised := after encoder boxed (before ++ .check i :: between)
    let kind := Kind.send stored.shot.x stored.shot.y stored.shot.r
    checked.requests i = .sent page stored.token kind ∧
    Holds checked.users.history stored.shot.username stored.token ∧
    authorised.requests i = .authorised page stored.token checked.users.history
      stored.shot.username kind ∧
    stored.shot.id = authorised.nextId

/-- However the requests interleave, every shot of the table comes from a request that was checked
when its user held its token; it is in bounds, and its result is that of the handler. -/
theorem stored_by_holder (es : List (Event K)) : ∀ stored ∈ (after encoder boxed es).table,
    Checked encoder boxed es stored ∧ InBounds stored.shot.x stored.shot.y stored.shot.r ∧
      stored.shot.result = result stored.shot.x stored.shot.y stored.shot.r := by
  intro stored hstored
  have hproper := (consistent_after encoder boxed es).stored stored hstored
  refine ⟨?_, hproper.inBounds, hproper.result⟩
  obtain ⟨earlier, i, later, page, history, username, x, y, r, rfl, hauthorised, hrow⟩ :=
    stored_authorised hstored
  obtain ⟨before, between, rfl, hsent, rfl⟩ := authorised_checked hauthorised
  have hheld := (consistent_after encoder boxed (before ++ .check i :: between)).requests i
  rw [hauthorised] at hheld
  refine ⟨before, i, between, later, page, by simp, ?_⟩
  rw [hrow]
  exact ⟨hsent, hheld.1.1, hauthorised, rfl⟩

/-- The salt in front of the password. -/
def salted : Encoder where
  encode password salt := toString salt ++ " " ++ password
  matchesHash password hash := (hash.splitOn " ").tail = password.splitOn " "

/-- A shot whose user gives the token up between the check and the saving. -/
theorem stored_by_holder_late :
    let es : List (Event ℚ) := [.user (.addUser "user" "password" [5] 0 false),
      .ask 0 0 5 (.send 0 0 2), .check 0, .user (.makeTokenNull 5), .carryOut 0 false]
    ∃ stored ∈ (after salted (fun _ => false) es).table,
      stored.shot.username = "user" ∧ stored.token = 5 ∧
      Checked salted (fun _ => false) es stored ∧
      InBounds stored.shot.x stored.shot.y stored.shot.r ∧
      stored.shot.result = result stored.shot.x stored.shot.y stored.shot.r := by
  intro es
  let stored : Stored ℚ := ⟨row start "user" 0 0 2, 5, [.issued "user" 5]⟩
  have hmem : stored ∈ (after salted (fun _ => false) es).table := List.mem_singleton_self stored
  exact ⟨_, hmem, rfl, rfl, stored_by_holder salted (fun _ => false) es _ hmem⟩

omit [Field K] [LinearOrder K] in
theorem getShotsByUsername_split (table : List (Stored K)) (username : String) (stored : ℕ) :
    getShotsByUsername table username =
      snapshot table username stored ++ getShotsByUsername (table.drop stored) username := by
  unfold snapshot getShotsByUsername
  rw [← List.filter_append, ← List.map_append, List.take_append_drop]

/-- The rows of a table of distinct shots are distinct. -/
theorem Consistent.nodup_snapshot (h : Consistent s) (username : String) (stored : ℕ) :
    (snapshot s.table username stored).Nodup := by
  have hids : (s.table.map Stored.shot).Pairwise fun a b => a.id < b.id :=
    List.pairwise_map.mpr h.ids
  have hnodup : (s.table.map Stored.shot).Nodup :=
    hids.imp fun hlt heq => hlt.ne (congrArg Shot.id heq)
  unfold snapshot getShotsByUsername
  exact (hnodup.sublist ((List.take_sublist _ _).map _)).filter _

/-- A page that has installed an update shows the shots of its user exactly if those that were
answered since are those that he had saved since the update was read; and it shows a shot
twice exactly if one of those that were answered since was saved before. -/
theorem shows_table_iff (es : List (Event K)) (page : ℕ) (username : String) (stored : ℕ) :
    let s := run (step encoder boxed) (start : State K) es
    (s.pages page).installed = some (username, stored) →
      ((s.pages page).shots.Perm (getShotsByUsername s.table username) ↔
        (s.pages page).since.Perm (getShotsByUsername (s.table.drop stored) username)) ∧
      (¬ (s.pages page).shots.Nodup ↔
        ∃ shot ∈ (s.pages page).since, shot ∈ getShotsByUsername (s.table.take stored) username) := by
  intro s hinstalled
  have h : Consistent s := consistent_start.run es
  have hpage := h.pages page
  have hbase : (s.pages page).base s.table = snapshot s.table username stored := by
    unfold Page.base
    rw [hinstalled]
  rw [hpage.shots, hbase]
  constructor
  · rw [getShotsByUsername_split s.table username stored, List.perm_append_left_iff]
  · rw [List.nodup_append]
    constructor
    · intro hnot
      by_contra hnone
      push Not at hnone
      refine hnot ⟨h.nodup_snapshot username stored, hpage.nodup, ?_⟩
      rintro shot hbefore _ hsince rfl
      exact hnone shot hsince hbefore
    · rintro ⟨shot, hsince, hbefore⟩ ⟨-, -, hne⟩
      exact hne shot hbefore shot hsince rfl

/-- A shot that is saved before the update is read, and answered after it is installed. -/
theorem shows_table_late : ¬ ((run (step ⟨fun password _ => password, fun _ _ => true⟩ fun _ => false)
    (start : State ℚ)
    [.user (.addUser "user" "password" [5] 0 false), .ask 0 0 5 (.send 0 0 2), .check 0,
      .carryOut 0 false, .ask 1 0 5 .get, .check 1, .carryOut 1 false, .receive 1,
      .receive 0]).pages 0).shots.Nodup :=
  (shows_table_iff _ _ _ 0 "user" 1 rfl).2.mpr ⟨_, List.mem_singleton_self _, List.mem_singleton_self _⟩

end Shots

end Itmo.Web4
