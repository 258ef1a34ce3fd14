import Itmo.Lib.Serial
import Itmo.Lib.System
import Itmo.ProgLab6.Commands
import Mathlib.Data.List.Infix

/-! The main loop of the first server. Its one socket for a client is used until reading
from it fails, which it does after each answer since the answer closes it; then the
listening socket is closed, with the connections that wait in it, and opened anew. So of
the clients that connect while the socket listens, the first is served and the others are
dropped. Any other failure of a request ends the server. -/

namespace Itmo.ProgLab6

open Lib ProgLab8

variable {D : Type} [Numbers D]

/-! ### Requests and answers -/

/-- The commands that only look at the collection. -/
inductive Query where
  | HELP
  | INFO
  | SHOW
  | FILTER_CONTAINS_NAME (name : JString)
  | FILTER_STARTS_WITH_NAME (name : JString)
  | NO_COMMAND

/-- A text, or the texts of routes with blank lines between them. The text of a route has
its creation date in it. -/
inductive Answer (D : Type) [Numbers D] where
  | text (answer : JString)
  | routes (shown : List (Route D))

namespace Commands

def help : JString := .ofString <|
  "help: вывести справку по доступным командам\n" ++
  "info: вывести в стандартный поток вывода информацию о коллекции (тип, дата инициализации, " ++
    "количество элементов и т.д.)\n" ++
  "show: вывести в стандартный поток вывода все элементы коллекции в строковом представлении\n" ++
  "add \x7belement\x7d: добавить новый элемент в коллекцию\n" ++
  "update id: обновить значение элемента коллекции, id которого равен заданному\n" ++
  "remove_by_id id: удалить элемент из коллекции по его id\n" ++
  "clear: очистить коллекцию\n" ++
  "execute_script file_name: считать и исполнить скрипт из указанного файла. В скрипте " ++
    "содержатся команды в таком же виде, в котором их вводит пользователь в интерактивном " ++
    "режиме.\n" ++
  "add_if_max \x7belement\x7d: добавить новый элемент в коллекцию, если его значение превышает " ++
    "значение наибольшего элемента этой коллекции\n" ++
  "remove_greater \x7belement\x7d: удалить из коллекции все элементы, превышающие заданный\n" ++
  "remove_lower \x7belement\x7d: удалить из коллекции все элементы, меньшие, чем заданный\n" ++
  "remove_any_by_distance distance: удалить из коллекции один элемент, значение поля distance " ++
    "которого эквивалентно заданному\n" ++
  "filter_contains_name name: вывести элементы, значение поля name которых содержит заданную " ++
    "подстроку\n" ++
  "filter_starts_with_name name: вывести элементы, значение поля name которых начинается с " ++
    "заданной подстроки"

def info (data : List (Route D)) : JString :=
  .ofString ("Тип коллекции: java.util.LinkedList\n" ++
    "Тип данных, хранимых в коллекции: general.route.Route\n" ++
    "Количество элементов в коллекции: ") ++ Integer.toString data.length

def filterContainsName (name : JString) (data : List (Route D)) : List (Route D) :=
  data.filter fun n => name <:+: n.name

def filterStartsWithName (name : JString) (data : List (Route D)) : List (Route D) :=
  data.filter fun n => name <+: n.name

end Commands

def Query.answer (data : List (Route D)) : Query → Answer D
  | HELP => .text Commands.help
  | INFO => .text (Commands.info data)
  | SHOW => .routes data
  | FILTER_CONTAINS_NAME name => .routes (Commands.filterContainsName name data)
  | FILTER_STARTS_WITH_NAME name => .routes (Commands.filterStartsWithName name data)
  | NO_COMMAND => .text []

/-- What a client asks for. No client sends the commands that save the collection. -/
inductive Asked (D : Type) [Numbers D] where
  | change (request : Request D)
  | query (query : Query)

def Asked.execute : Asked D → Server D → Except Throwable (Answer D × Server D)
  | change request, s => (request.execute s).map fun r => (.text r.1, r.2)
  | query asked, s => .ok (asked.answer s.data, s)

/-- What the first reading from a connection brings. -/
inductive Incoming (D : Type) [Numbers D] where
  | request (asked : Asked D)
  /-- The client has left. -/
  | endOfStream
  /-- Something that is not a request. -/
  | unreadable
  /-- The connection is lost: the `SocketException` of reading. -/
  | reset

/-! ### The loop -/

/-- Where the loop is. -/
inductive Phase where
  /-- In `accept`. -/
  | accepting
  /-- A connection is accepted and its request not read yet. -/
  | reading (connection : ℕ)
  /-- The socket of the client is closed or lost, on which reading throws. -/
  | closing
  /-- The listening socket is closed. -/
  | reopening
  | ended
  deriving DecidableEq

/-- The listening socket is open. -/
def Phase.Listening : Phase → Prop
  | accepting | reading _ | closing => True
  | reopening | ended => False

instance : DecidablePred Phase.Listening
  | .accepting => isTrue trivial
  | .reading _ => isTrue trivial
  | .closing => isTrue trivial
  | .reopening => isFalse id
  | .ended => isFalse id

/-- The queue of a `ServerSocket`. -/
def queueLength : ℕ := 50

/-- The loop, the connections that wait in the listening socket, the number of connections
that were tried, those that were accepted, the requests that were executed with their
answers, and the answers that got onto their connections. -/
structure ServerLoop (D : Type) [Numbers D] where
  server : Server D
  phase : Phase
  backlog : List ℕ
  connections : ℕ
  accepted : List ℕ
  served : List (ℕ × Asked D × Answer D)
  answers : List (ℕ × Answer D)

namespace ServerLoop

/-- The socket has just been opened for the first time. -/
def start (server : Server D) : ServerLoop D where
  server
  phase := .accepting
  backlog := []
  connections := 0
  accepted := []
  served := []
  answers := []

/-- A client connects; `accept` returns; a request is read and executed, and writing its
answer succeeds or throws; the listening socket is closed; it is opened if the port is
free. -/
inductive Event where
  | connect
  | accept
  | read (writes : Bool)
  | close
  | reopen (free : Bool)

def finish (s : ServerLoop D) : ServerLoop D := { s with phase := .ended, backlog := [] }

/-- The answer of a connection whose request is executed. -/
def serve (s : ServerLoop D) (connection : ℕ) (asked : Asked D) (writes : Bool) : ServerLoop D :=
  match asked.execute s.server with
  | .error _ => s.finish
  | .ok (answer, server) =>
    { s with
      server
      phase := .closing
      served := s.served ++ [(connection, asked, answer)]
      answers := if writes then s.answers ++ [(connection, answer)] else s.answers }

/-- Reading from an accepted connection, of which `sent` says what comes. -/
def readRequest (sent : ℕ → Incoming D) (s : ServerLoop D) (connection : ℕ) (writes : Bool) :
    ServerLoop D :=
  match sent connection with
  | .request asked => s.serve connection asked writes
  | .reset => { s with phase := .closing }
  | .endOfStream => s.finish
  | .unreadable => s.finish

/-- A connection is refused when nothing listens or the queue is full. -/
def step (sent : ℕ → Incoming D) (s : ServerLoop D) : Event → ServerLoop D
  | .connect =>
    { s with
      connections := s.connections + 1
      backlog := if s.phase.Listening ∧ s.backlog.length < queueLength then
        s.backlog ++ [s.connections] else s.backlog }
  | .accept => match s.phase, s.backlog with
    | .accepting, connection :: backlog =>
      { s with phase := .reading connection, backlog, accepted := s.accepted ++ [connection] }
    | _, _ => s
  | .read writes => match s.phase with
    | .reading connection => s.readRequest sent connection writes
    | _ => s
  | .close => if s.phase = .closing then { s with phase := .reopening, backlog := [] } else s
  | .reopen free => if s.phase = .reopening ∧ free then { s with phase := .accepting } else s

/-! ### Service -/

/-- The accepted connections whose turn is over. The last one is left out while its request
is to be read, and when it is the one that has ended the server. -/
def settled (s : ServerLoop D) : List ℕ :=
  match s.phase with
  | .reading _ | .ended => s.accepted.dropLast
  | .accepting | .closing | .reopening => s.accepted

/-- The request that a connection brings, if it brings one. -/
def requested (sent : ℕ → Incoming D) (connection : ℕ) : Option (ℕ × Asked D) :=
  match sent connection with
  | .request asked => some (connection, asked)
  | .reset | .endOfStream | .unreadable => none

/-- What holds between the requests, the connections and the collection. -/
structure Consistent (server : Server D) (sent : ℕ → Incoming D) (s : ServerLoop D) : Prop where
  serial : Serial Asked.execute server s.served s.server
  answers : s.answers.Sublist (s.served.map fun entry => (entry.1, entry.2.2))
  served : (s.served.map fun entry => (entry.1, entry.2.1)) = s.settled.filterMap (requested sent)
  last : ∀ connection, s.phase = .reading connection →
    s.accepted = s.accepted.dropLast ++ [connection]
  ordered : (s.accepted ++ s.backlog).Pairwise (· < ·)
  tried : ∀ connection ∈ s.accepted ++ s.backlog, connection < s.connections
  closed : ¬ s.phase.Listening → s.backlog = []

variable {server : Server D} {sent : ℕ → Incoming D} {s : ServerLoop D}

theorem settled_of_reading {connection : ℕ} (hphase : s.phase = .reading connection) :
    s.settled = s.accepted.dropLast := by
  unfold settled
  rw [hphase]

theorem filterMap_concat (before : List ℕ) (connection : ℕ) :
    (before ++ [connection]).filterMap (requested sent) =
      before.filterMap (requested sent) ++ (requested sent connection).toList := by
  rw [List.filterMap_append]
  cases h : requested sent connection <;> simp [h]

theorem consistent_start (server : Server D) (sent : ℕ → Incoming D) :
    Consistent server sent (start server) where
  serial := rfl
  answers := List.Sublist.refl _
  served := rfl
  last _ h := by cases h
  ordered := List.Pairwise.nil
  tried _ h := by cases h
  closed _ := rfl

/-- Giving up the connections that wait, when no other request becomes one to be executed. -/
theorem Consistent.leave (h : Consistent server sent s) {phase : Phase} {backlog : List ℕ}
    (hphase : ∀ connection, phase ≠ .reading connection)
    (hsettled : { s with phase, backlog }.settled.filterMap (requested sent) =
      s.settled.filterMap (requested sent))
    (hbacklog : backlog.Sublist s.backlog) (hclosed : ¬ phase.Listening → backlog = []) :
    Consistent server sent { s with phase, backlog } where
  serial := h.serial
  answers := h.answers
  served := h.served.trans hsettled.symm
  last connection hreading := (hphase connection hreading).elim
  ordered := h.ordered.sublist (hbacklog.append_left _)
  tried connection hmem := h.tried connection ((hbacklog.append_left _).subset hmem)
  closed := hclosed

theorem Consistent.finish (h : Consistent server sent s) {connection : ℕ}
    (hphase : s.phase = .reading connection) : Consistent server sent s.finish := by
  refine h.leave nofun ?_ (List.nil_sublist _) fun _ => rfl
  rw [settled_of_reading hphase]
  rfl

theorem Consistent.connect (h : Consistent server sent s) :
    Consistent server sent (s.step sent .connect) where
  serial := h.serial
  answers := h.answers
  served := h.served
  last := h.last
  ordered := by
    unfold step
    dsimp only
    split_ifs
    · rw [← List.append_assoc]
      exact pairwise_concat h.ordered h.tried
    · exact h.ordered
  tried := by
    have hbefore : ∀ connection ∈ s.accepted ++ s.backlog, connection < s.connections + 1 :=
      fun connection hmem => Nat.lt_succ_of_lt (h.tried connection hmem)
    unfold step
    dsimp only
    split_ifs
    · rw [← List.append_assoc]
      exact forall_mem_concat hbefore (Nat.lt_succ_self _)
    · exact hbefore
  closed hphase := by
    unfold step
    dsimp only
    rw [if_neg fun hlistening => hphase hlistening.1]
    exact h.closed hphase

theorem Consistent.accept (h : Consistent server sent s) :
    Consistent server sent (s.step sent .accept) := by
  unfold step
  dsimp only
  split
  · next connection backlog hphase hbacklog =>
    have hsplit : s.accepted ++ [connection] ++ backlog = s.accepted ++ s.backlog := by
      rw [hbacklog, List.append_assoc, List.singleton_append]
    refine ⟨h.serial, h.answers, ?_, ?_, ?_, ?_, fun hclosed => (hclosed trivial).elim⟩
    · -- the new one is left out, and none was before
      have hserved := h.served
      unfold settled at hserved ⊢
      rw [hphase] at hserved
      dsimp only at hserved ⊢
      rw [List.dropLast_concat]
      exact hserved
    · intro other hother
      obtain rfl : connection = other := by
        cases hother
        rfl
      dsimp only
      rw [List.dropLast_concat]
    · dsimp only
      rw [hsplit]
      exact h.ordered
    · dsimp only
      rw [hsplit]
      exact h.tried
  · exact h

/-- A request that is executed is the next one in the order. -/
theorem Consistent.serve (h : Consistent server sent s) {connection : ℕ}
    (hphase : s.phase = .reading connection) {asked : Asked D}
    (hsent : sent connection = .request asked) (writes : Bool) :
    Consistent server sent (s.serve connection asked writes) := by
  unfold ServerLoop.serve
  split
  · exact h.finish hphase
  · next answer server' hexec =>
    refine ⟨h.serial.concat hexec connection, ?_, ?_, nofun, h.ordered, h.tried,
      fun hclosed => (hclosed trivial).elim⟩
    · dsimp only
      rw [List.map_append]
      split_ifs
      · exact h.answers.append (List.Sublist.refl _)
      · exact h.answers.trans (List.sublist_append_left _ _)
    · have hserved := h.served
      rw [settled_of_reading hphase] at hserved
      show List.map _ (s.served ++ _) = s.accepted.filterMap (requested sent)
      rw [h.last connection hphase, filterMap_concat, List.map_append, hserved, requested, hsent]
      rfl

theorem Consistent.readRequest (h : Consistent server sent s) {connection : ℕ}
    (hphase : s.phase = .reading connection) (writes : Bool) :
    Consistent server sent (s.readRequest sent connection writes) := by
  unfold ServerLoop.readRequest
  split
  · next asked hsent => exact h.serve hphase hsent writes
  · next hsent =>
    refine h.leave nofun ?_ (List.Sublist.refl _) fun hclosed => (hclosed trivial).elim
    rw [settled_of_reading hphase]
    show s.accepted.filterMap (requested sent) = _
    rw [h.last connection hphase, filterMap_concat, List.dropLast_concat, requested, hsent]
    exact List.append_nil _
  · exact h.finish hphase
  · exact h.finish hphase

theorem Consistent.step (h : Consistent server sent s) (e : Event) :
    Consistent server sent (s.step sent e) := by
  cases e with
  | connect => exact h.connect
  | accept => exact h.accept
  | read writes =>
    unfold ServerLoop.step
    dsimp only
    split
    · next connection hphase => exact h.readRequest hphase writes
    · exact h
  | close =>
    unfold ServerLoop.step
    dsimp only
    split_ifs with hphase
    · refine h.leave nofun ?_ (List.nil_sublist _) fun _ => rfl
      unfold settled
      rw [hphase]
    · exact h
  | reopen free =>
    unfold ServerLoop.step
    dsimp only
    split_ifs with hphase
    · refine h.leave nofun ?_ (List.Sublist.refl _) fun hclosed => (hclosed trivial).elim
      unfold settled
      rw [hphase.1]
    · exact h

theorem Consistent.run (h : Consistent server sent s) (es : List Event) :
    Consistent server sent (run (ServerLoop.step sent) s es) :=
  run_invariant (Consistent server sent) (fun _ e h => h.step e) h es

/-- Whatever the clients do, the requests of the accepted connections, but of the one that is
to be read or has ended the server, were executed each once, one after the other in the order
in which their clients connected. The collection and the answers are those of this order, and
what a client is sent is the answer of its own request. -/
theorem served_in_order (server : Server D) (sent : ℕ → Incoming D) (es : List Event) :
    let s := run (ServerLoop.step sent) (start server) es
    Serial Asked.execute server s.served s.server ∧
      (s.served.map fun entry => (entry.1, entry.2.1)) = s.settled.filterMap (requested sent) ∧
      s.accepted.Pairwise (· < ·) ∧
      s.answers.Sublist (s.served.map fun entry => (entry.1, entry.2.2)) := by
  intro s
  have h : Consistent server sent s := (consistent_start server sent).run es
  exact ⟨h.serial, h.served, h.ordered.sublist (List.sublist_append_left _ _), h.answers⟩

/-! ### Which connections are accepted -/

/-- The connection waits for `accept` with no other before it, or is accepted. -/
def First (connection : ℕ) (s : ServerLoop D) : Prop :=
  s.phase = .accepting ∧ s.backlog.head? = some connection ∨ connection ∈ s.accepted

/-- The connection is not the next one. -/
structure Behind (connection : ℕ) (s : ServerLoop D) : Prop where
  notAccepted : connection ∉ s.accepted
  tried : connection < s.connections
  notNext : s.phase = .accepting → s.backlog.head? ≠ some connection

theorem readRequest_phase (sent : ℕ → Incoming D) (s : ServerLoop D) (connection : ℕ)
    (writes : Bool) : (s.readRequest sent connection writes).accepted = s.accepted ∧
      (s.readRequest sent connection writes).connections = s.connections ∧
      (s.readRequest sent connection writes).phase ≠ .accepting := by
  unfold readRequest serve
  split
  · split
    · exact ⟨rfl, rfl, nofun⟩
    · exact ⟨rfl, rfl, nofun⟩
  · exact ⟨rfl, rfl, nofun⟩
  · exact ⟨rfl, rfl, nofun⟩
  · exact ⟨rfl, rfl, nofun⟩

theorem First.step {connection : ℕ} (h : First connection s) (e : Event) :
    First connection (s.step sent e) := by
  rcases h with ⟨hphase, hhead⟩ | hmem
  · obtain ⟨backlog, hbacklog⟩ := List.head?_eq_some_iff.mp hhead
    cases e with
    | connect =>
      refine Or.inl ⟨hphase, ?_⟩
      unfold ServerLoop.step
      dsimp only
      rw [hbacklog]
      split_ifs <;> rfl
    | accept =>
      refine Or.inr ?_
      unfold ServerLoop.step
      rw [hphase, hbacklog]
      exact List.mem_append_right _ (List.mem_singleton_self _)
    | read writes =>
      unfold ServerLoop.step
      rw [hphase]
      exact Or.inl ⟨hphase, hhead⟩
    | close =>
      unfold ServerLoop.step
      dsimp only
      rw [if_neg (by rw [hphase]; nofun)]
      exact Or.inl ⟨hphase, hhead⟩
    | reopen free =>
      unfold ServerLoop.step
      dsimp only
      rw [if_neg (by rw [hphase]; rintro ⟨⟨⟩, -⟩)]
      exact Or.inl ⟨hphase, hhead⟩
  · refine Or.inr ?_
    cases e with
    | connect => exact hmem
    | accept =>
      unfold ServerLoop.step
      dsimp only
      split
      · exact List.mem_append_left _ hmem
      · exact hmem
    | read writes =>
      unfold ServerLoop.step
      dsimp only
      split
      · rw [(readRequest_phase sent s _ writes).1]
        exact hmem
      · exact hmem
    | close =>
      unfold ServerLoop.step
      dsimp only
      split_ifs <;> exact hmem
    | reopen free =>
      unfold ServerLoop.step
      dsimp only
      split_ifs <;> exact hmem

theorem Behind.step {connection : ℕ} (h : Behind connection s) (hs : Consistent server sent s)
    (e : Event) : Behind connection (s.step sent e) := by
  cases e with
  | connect =>
    refine ⟨h.notAccepted, Nat.lt_succ_of_lt h.tried, fun hphase => ?_⟩
    have hnext := h.notNext hphase
    unfold ServerLoop.step
    dsimp only
    split_ifs
    · cases hbacklog : s.backlog with
      | nil => simpa using h.tried.ne'
      | cons head backlog => rwa [hbacklog] at hnext
    · exact hnext
  | accept =>
    unfold ServerLoop.step
    dsimp only
    split
    · next head backlog hphase hbacklog =>
      refine ⟨?_, h.tried, nofun⟩
      have hnext := h.notNext hphase
      rw [hbacklog] at hnext
      rw [List.mem_append, List.mem_singleton]
      rintro (hmem | rfl)
      · exact h.notAccepted hmem
      · exact hnext rfl
    · exact h
  | read writes =>
    unfold ServerLoop.step
    dsimp only
    split
    · next other _ =>
      obtain ⟨haccepted, hconnections, hphase⟩ := readRequest_phase sent s other writes
      exact ⟨haccepted ▸ h.notAccepted, hconnections ▸ h.tried, fun h => (hphase h).elim⟩
    · exact h
  | close =>
    unfold ServerLoop.step
    dsimp only
    split_ifs
    · exact ⟨h.notAccepted, h.tried, nofun⟩
    · exact h
  | reopen free =>
    unfold ServerLoop.step
    dsimp only
    split_ifs with hphase
    · refine ⟨h.notAccepted, h.tried, fun _ => ?_⟩
      -- nothing waits in the closed socket
      dsimp only
      rw [hs.closed (by rw [hphase.1]; exact id)]
      nofun
    · exact h

/-- A client is accepted if and only if the loop waited in `accept`, with no other client in
the queue, when it connected, and does not still wait there. -/
theorem accepted_iff_first (server : Server D) (sent : ℕ → Incoming D) (before later : List Event) :
    let s := run (ServerLoop.step sent) (start server) before
    let s' := run (ServerLoop.step sent) s (.connect :: later)
    s.connections ∈ s'.accepted ↔
      s.phase = .accepting ∧ s.backlog = [] ∧ s.connections ∉ s'.backlog := by
  intro s s'
  have hs : Consistent server sent s := (consistent_start server sent).run before
  have hs' : Consistent server sent s' := hs.run (.connect :: later)
  have hnew : ∀ connection ∈ s.accepted ++ s.backlog, connection ≠ s.connections :=
    fun connection hmem => (hs.tried connection hmem).ne
  constructor
  · intro hmem
    have hnotBacklog : s.connections ∉ s'.backlog := fun hbacklog =>
      (List.pairwise_append.mp hs'.ordered).2.2 _ hmem _ hbacklog |>.ne rfl
    by_contra hfirst
    have hbehind : Behind s.connections (s.step sent .connect) := by
      refine ⟨fun h => hnew _ (List.mem_append_left _ h) rfl, Nat.lt_succ_self _, fun hphase => ?_⟩
      have hne : s.backlog ≠ [] := fun h => hfirst ⟨hphase, h, hnotBacklog⟩
      obtain ⟨head, backlog, hbacklog⟩ := List.exists_cons_of_ne_nil hne
      have hhead := hnew head (List.mem_append_right _ (hbacklog ▸ List.mem_cons_self))
      unfold ServerLoop.step
      dsimp only
      rw [hbacklog]
      split_ifs <;> simpa using hhead
    have hrun : Consistent server sent s' ∧ Behind s.connections s' :=
      run_invariant (fun t => Consistent server sent t ∧ Behind s.connections t)
        (fun t e ht => ⟨ht.1.step e, ht.2.step ht.1 e⟩) ⟨hs.step .connect, hbehind⟩ later
    exact hrun.2.notAccepted hmem
  · rintro ⟨hphase, hbacklog, hnotBacklog⟩
    have hfirst : First s.connections (s.step sent .connect) := by
      refine Or.inl ⟨hphase, ?_⟩
      unfold ServerLoop.step
      dsimp only
      rw [hphase, hbacklog, if_pos ⟨trivial, by decide⟩]
      rfl
    have hrun : First s.connections s' :=
      run_invariant (First s.connections) (fun t e ht => ht.step e) hfirst later
    rcases hrun with ⟨-, hhead⟩ | hmem
    · exact (hnotBacklog (List.mem_of_head? hhead)).elim
    · exact hmem

/-! ### What ends the server -/

/-- The request can be executed on the collection: an id, or a distance, is read if there
is any route to compare it with. -/
def Executable (data : List (Route D)) : Asked D → Prop
  | .change (.update _ id) => data = [] ∨ (Integer.decode id).isSome
  | .change (.removeById id) => data = [] ∨ (Integer.decode id).isSome
  | .change (.removeAnyByDistance distance) =>
    data = [] ∨ (Platform.parseDouble (D := D) distance).isSome
  | _ => True

theorem toBool_decodeFor (data : List (Route D)) (text : JString) :
    (Commands.decodeFor data text).toBool ↔ data = [] ∨ (Integer.decode text).isSome := by
  unfold Commands.decodeFor
  cases data with
  | nil => simp [Except.toBool]
  | cons r data => cases Integer.decode text <;> simp [Except.toBool]

theorem toBool_removeAnyByDistance (text : JString) (s : Server D) :
    (Commands.removeAnyByDistance text s).toBool ↔
      s.data = [] ∨ (Platform.parseDouble (D := D) text).isSome := by
  unfold Commands.removeAnyByDistance
  obtain ⟨data, instances⟩ := s
  cases data with
  | nil => simp [Except.toBool, pure, Except.pure]
  | cons r data =>
    cases Platform.parseDouble (D := D) text <;> simp [Except.toBool, pure, Except.pure]

/-- A request is executed or throws as its texts are read or not. -/
theorem toBool_execute (asked : Asked D) (s : Server D) :
    (asked.execute s).toBool ↔ Executable s.data asked := by
  cases asked with
  | query query => simp [Asked.execute, Executable, Except.toBool]
  | change request =>
    have hmap : ∀ x : Except Throwable (JString × Server D),
        (x.map fun r => (Answer.text (D := D) r.1, r.2)).toBool = x.toBool := by
      intro x
      cases x <;> rfl
    unfold Asked.execute
    dsimp only
    rw [hmap]
    cases request with
    | update route id =>
      refine Iff.trans ?_ (toBool_decodeFor s.data id)
      unfold Request.execute Commands.update
      dsimp only
      cases Commands.decodeFor s.data id <;> simp [Except.toBool, bind, Except.bind, pure, Except.pure]
    | removeById id =>
      refine Iff.trans ?_ (toBool_decodeFor s.data id)
      unfold Request.execute Commands.removeById
      dsimp only
      cases Commands.decodeFor s.data id <;> simp [Except.toBool, bind, Except.bind, pure, Except.pure]
    | removeAnyByDistance distance => exact toBool_removeAnyByDistance distance s
    | add route =>
      unfold Request.execute Commands.add
      dsimp only
      rw [Route.new_self]
      simp [Except.toBool, bind, Except.bind, pure, Except.pure, Executable]
    | addIfMax route =>
      unfold Request.execute Commands.addIfMax
      dsimp only
      split_ifs <;> simp [Except.toBool, pure, Except.pure, Executable]
    | clear => simp [Request.execute, Commands.clear, Except.toBool, pure, Except.pure, Executable]
    | removeGreater route =>
      simp [Request.execute, Commands.removeGreater, Commands.keepCompared, Except.toBool, pure,
        Except.pure, Executable]
    | removeLower route =>
      simp [Request.execute, Commands.removeLower, Commands.keepCompared, Except.toBool, pure,
        Except.pure, Executable]

/-- What a reading brings does not end the server. -/
def Harmless (data : List (Route D)) : Incoming D → Prop
  | .request asked => Executable data asked
  | .reset => True
  | .endOfStream | .unreadable => False

/-- The event is no reading of something that ends the server. -/
def Survives (sent : ℕ → Incoming D) (s : ServerLoop D) : Event → Prop
  | .read _ => ∀ connection, s.phase = .reading connection → Harmless s.server.data (sent connection)
  | _ => True

theorem readRequest_up_iff (sent : ℕ → Incoming D) (s : ServerLoop D) (connection : ℕ)
    (writes : Bool) : (s.readRequest sent connection writes).phase ≠ .ended ↔
      Harmless s.server.data (sent connection) := by
  unfold readRequest
  cases sent connection with
  | request asked =>
    dsimp only [Harmless]
    rw [← toBool_execute]
    unfold serve
    cases asked.execute s.server <;> simp [Except.toBool, finish]
  | endOfStream => simp [Harmless, finish]
  | unreadable => simp [Harmless, finish]
  | reset => simp [Harmless]

theorem step_up_iff (sent : ℕ → Incoming D) (s : ServerLoop D) (e : Event)
    (hs : s.phase ≠ .ended) : (s.step sent e).phase ≠ .ended ↔ Survives sent s e := by
  cases e with
  | connect => simpa [ServerLoop.step, Survives] using hs
  | accept =>
    unfold ServerLoop.step
    dsimp only
    split
    · simp [Survives]
    · simpa [Survives] using hs
  | read writes =>
    unfold ServerLoop.step Survives
    dsimp only
    split
    · next connection hphase =>
      rw [readRequest_up_iff, hphase]
      simp
    · next hnot => simpa [hs] using fun connection hphase => (hnot connection hphase).elim
  | close =>
    unfold ServerLoop.step
    dsimp only
    split_ifs
    · simp [Survives]
    · simpa [Survives] using hs
  | reopen free =>
    unfold ServerLoop.step
    dsimp only
    split_ifs
    · simp [Survives]
    · simpa [Survives] using hs

/-- The server keeps running if and only if no reading brings the end of the stream,
something unreadable, or a request with an id or a distance that cannot be read while there
are routes. -/
theorem stays_up_iff (server : Server D) (sent : ℕ → Incoming D) (es : List Event) :
    Along (ServerLoop.step sent) (fun s e => (s.step sent e).phase ≠ .ended) (start server) es ↔
      Along (ServerLoop.step sent) (Survives sent) (start server) es :=
  along_preserved_iff (fun s => s.phase ≠ .ended) (fun s e hs => step_up_iff sent s e hs)
    (by unfold start; nofun) es

end ServerLoop

end Itmo.ProgLab6
