import Itmo.Lib.System
import Itmo.ProgLab8.Commands

/-! The server as a whole. Requests of all sessions are executed one after the
other, each for the user it names itself; between them the background thread
reads the table, and sessions that log in change who is registered. -/

namespace Itmo.ProgLab8

open Lib Action

variable {D : Type} [Platform D]

structure Request (D : Type) [Platform D] where
  command : CommandList
  arguments : List (Object D)
  user : User

def Request.execute (r : Request D) : ServerAction D (Answer D) :=
  r.command.getExecutableCommand r.arguments r.user

namespace Session

/-- A request, a round of the background thread, or a change of `userdata`. -/
inductive Event (D : Type) [Platform D] where
  | request (r : Request D)
  | reload
  | accounts (userdata : List UserRow)

def reload : ServerAction D Unit := do
  let routes ← DatabaseWorker.getAllRoutes
  updateData routes

def step (s : Server D) : Event D → Server D
  | .request r => if s.halted then s else (exec r.execute s).2
  | .reload => if s.halted then s else (exec reload s).2
  | .accounts userdata => { s with userdata := userdata }

/-- A new collection, filled from the database; without the database the server
does not start. -/
def start (world : World) (routes : List (Row D)) (serial : ℤ) (userdata : List UserRow) :
    Except Throwable (Server D) :=
  let s : Server D := {
    routes := routes
    serial := serial
    userdata := userdata
    cache := ⟨[], world.now 0⟩
    locked := false
    halted := false
    world := world
    tick := 0 }
  match exec reload s with
  | (.ok (), s) => .ok s
  | (.error e, _) => .error e

theorem step_request {s : Server D} (h : s.halted = false) (r : Request D) :
    step s (.request r) = (exec r.execute s).2 := by
  simp [step, h]

theorem step_reload {s : Server D} (h : s.halted = false) :
    step s .reload = (exec reload s).2 := by
  simp [step, h]

theorem does_reload {R : Server D → Server D → Prop} (hR : ∀ s s', Quiet s s' → R s s') :
    Does R (reload : ServerAction D Unit) :=
  (DatabaseWorker.does_getAllRoutes hR).bind fun _ => does_modify fun _ => hR _ _ ⟨rfl, rfl⟩

theorem does_execute (r : Request D) :
    Does (Change r.user (r.command = .ADD ∨ r.command = .ADD_IF_MAX)) r.execute :=
  r.command.does_getExecutableCommand r.arguments r.user

end Session

/-- A server with the user `egg`, whose password is `qwerty`, and these routes,
for concrete runs. -/
def eggServer (data : List (Route ℤ)) : Server ℤ where
  routes := data.map fun route => .ofRoute route.id route (route.owner.getD [])
  serial := data.length + 1
  userdata := [⟨.ofString "egg", Platform.hash256 ℤ (.ofString "qwerty")⟩]
  cache := ⟨data, 0⟩
  locked := false
  halted := false
  world := ⟨fun _ => false, fun n => n⟩
  tick := 0

def egg : User := ⟨.ofString "egg", .ofString "qwerty"⟩

end Itmo.ProgLab8
