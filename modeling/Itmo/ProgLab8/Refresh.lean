import Itmo.Lib.System
import Itmo.ProgLab8.RouteCollection

/-! The client's copy of the collection. A refresh asks for the time of the last
update, and only if that is news for the collection itself; the two requests are
separate steps, and between them, or instead of an answer, anything may happen.
The client remembers the time before it has the data, and the time is not a
version: two updates can carry the same one. -/

namespace Itmo.ProgLab8

open Lib

variable {D : Type} [Platform D]

/-- The fields of a route, as the client shows them. -/
structure RouteProperty (D : Type) where
  id : ℤ
  name : JString
  creationDate : ℤ
  distance : D
  owner : Option JString
  x : D
  y : ℤ
  fromX : D
  fromY : ℤ
  fromZ : D
  fromName : JString
  toX : ℤ
  toY : ℤ
  toZ : D
  deriving DecidableEq

def RouteProperty.new (route : Route D) : RouteProperty D where
  id := route.id
  name := route.name
  creationDate := route.creationDate
  distance := route.distance
  owner := route.owner
  x := route.coordinates.x
  y := route.coordinates.y
  fromX := route.from_.x
  fromY := route.from_.y
  fromZ := route.from_.z
  fromName := route.from_.name
  toX := route.to_.x
  toY := route.to_.y
  toZ := route.to_.z

/-- Nothing of a route is lost on the client. -/
theorem RouteProperty.new_injective {a b : Route D} (h : RouteProperty.new a = .new b) : a = b := by
  obtain ⟨id, name, ⟨x, y, _⟩, creationDate, ⟨fromX, fromY, fromZ, fromName, _⟩, ⟨toX, toY, toZ⟩,
    distance, owner, _, _⟩ := a
  obtain ⟨id', name', ⟨x', y', _⟩, creationDate', ⟨fromX', fromY', fromZ', fromName', _⟩,
    ⟨toX', toY', toZ'⟩, distance', owner', _, _⟩ := b
  simp only [RouteProperty.new, RouteProperty.mk.injEq] at h
  simp [h]

namespace Refresh

/-- The server's collection, and the state of `BackendInteractions`; `awaitingData`
holds between the two requests of one `refreshData`. -/
structure State (D : Type) [Platform D] where
  server : RouteCollection D
  data : List (RouteProperty D)
  lastUpdatedOnServer : ℤ
  awaitingData : Bool

/-- A new server, and a client that has not asked for anything. -/
def init (now : ℤ) : State D := ⟨⟨[], now⟩, [], 0, false⟩

/-- An update of the server, or the next request of the client, whose answer
arrives or does not. -/
inductive Event (D : Type) [Platform D] where
  | updateData (now : ℤ) (newData : List (Route D))
  | getLastUpdate (answered : Bool)
  | getData (answered : Bool)

def step (s : State D) : Event D → State D
  | .updateData now newData => { s with server := s.server.updateData now newData }
  | .getLastUpdate answered =>
    if s.awaitingData || !answered || s.lastUpdatedOnServer = s.server.lastUpdate then s
    else { s with lastUpdatedOnServer := s.server.lastUpdate, awaitingData := true }
  | .getData answered =>
    if !s.awaitingData then s
    else if answered then
      { s with data := s.server.data.map RouteProperty.new, awaitingData := false }
    else { s with awaitingData := false }

/-- The client shows what the server has. -/
def UpToDate (s : State D) : Prop := s.data = s.server.data.map RouteProperty.new

/-- Between refreshes, a client that has heard of the last update shows it. -/
def Coherent (s : State D) : Prop :=
  s.awaitingData = false → s.lastUpdatedOnServer = s.server.lastUpdate → UpToDate s

/-- A refresh that finds the stamp it has stored, and therefore does nothing, has
nothing to do. -/
def RightToSkip (s : State D) : Event D → Prop
  | .getLastUpdate true =>
    s.awaitingData = false → s.lastUpdatedOnServer = s.server.lastUpdate → UpToDate s
  | _ => True

/-- What must not happen: between refreshes, a replacement of the collection by
another one under the stamp the client has stored; and a failure to fetch the
data while the server still is at this stamp. -/
def Harmless (s : State D) : Event D → Prop
  | .updateData now newData =>
    s.awaitingData = false → RouteCollection.changed s.server.data newData →
      now = s.lastUpdatedOnServer → s.data = newData.map RouteProperty.new
  | .getData false =>
    s.awaitingData = true → s.lastUpdatedOnServer = s.server.lastUpdate → UpToDate s
  | _ => True

/-- Exactly the harmless steps keep a coherent state coherent. -/
theorem coherent_step_iff {s : State D} (h : Coherent s) (e : Event D) :
    Coherent (step s e) ↔ Harmless s e := by
  cases e with
  | updateData now newData =>
    by_cases hc : RouteCollection.changed s.server.data newData
    · simp only [Coherent, step, Harmless, UpToDate, RouteCollection.updateData_of_changed hc]
      constructor
      · intro h' ha _ hn
        exact h' ha hn.symm
      · intro h' ha hn
        exact h' ha hc hn.symm
    · rw [Bool.not_eq_true] at hc
      have hs : step s (.updateData now newData) = s := by
        simp only [step, RouteCollection.updateData_of_not_changed hc]
      rw [hs]
      simp [Harmless, hc, h]
  | getLastUpdate answered =>
    refine ⟨fun _ => trivial, fun _ => ?_⟩
    by_cases hskip : s.awaitingData || !answered || s.lastUpdatedOnServer = s.server.lastUpdate
    · have hs : step s (.getLastUpdate answered) = s := if_pos hskip
      rwa [hs]
    · have hs : (step s (.getLastUpdate answered)).awaitingData = true := by
        simp only [step, hskip, Bool.false_eq_true, if_false]
      intro ha
      rw [hs] at ha
      cases ha
  | getData answered =>
    by_cases ha : s.awaitingData = true
    · cases answered with
      | false => simp [Coherent, step, Harmless, UpToDate, ha]
      | true => simp [Coherent, step, Harmless, UpToDate, ha]
    · rw [Bool.not_eq_true] at ha
      have hs : step s (.getData answered) = s := by simp [step, ha]
      rw [hs]
      cases answered <;> simp [Harmless, ha, h]

theorem coherent_init (now : ℤ) : Coherent (init now : State D) := fun _ _ => rfl

/-- In every run without a harmful step, every refresh that does nothing is right
to do nothing. -/
theorem right_to_skip (now : ℤ) (es : List (Event D))
    (h : Along step Harmless (init now : State D) es) :
    Along step RightToSkip (init now : State D) es := by
  refine Along.mono Coherent ?_ ?_ h (coherent_init now)
  · intro s e hs he
    exact (coherent_step_iff hs e).mpr he
  · intro s e hs _
    cases e with
    | updateData now newData => trivial
    | getLastUpdate answered =>
      cases answered with
      | false => trivial
      | true => exact hs
    | getData answered => trivial

instance [DecidableEq D] (s : State D) : ∀ e, Decidable (RightToSkip s e)
  | .getLastUpdate true => inferInstanceAs (Decidable (_ → _ → s.data = _))
  | .getLastUpdate false => .isTrue trivial
  | .updateData _ _ => .isTrue trivial
  | .getData _ => .isTrue trivial

instance [DecidableEq D] (s : State D) : ∀ e, Decidable (Harmless s e)
  | .updateData _ newData => inferInstanceAs (Decidable (_ → _ → _ → s.data = newData.map _))
  | .getData false => inferInstanceAs (Decidable (_ → _ → s.data = _))
  | .getData true => .isTrue trivial
  | .getLastUpdate _ => .isTrue trivial

/-- A failed request for the data, an update between the two requests of a
refresh, and a second update in the same millisecond during a refresh: all
harmless here. -/
theorem right_to_skip_run :
    Along step RightToSkip (init 5 : State ℤ)
      [.updateData 7 [.atPoint 1 3 4], .getLastUpdate true, .updateData 8 [], .getData false,
        .getLastUpdate true, .updateData 8 [.atPoint 2 6 8], .getData true, .getLastUpdate true] :=
  right_to_skip 5 _ (by decide +kernel)

/-- One failed request for the data, or two updates in one millisecond with a
refresh between them, and the client stays behind. -/
theorem skips_wrongly :
    ¬ Along step RightToSkip (init 5 : State ℤ)
        [.updateData 7 [.atPoint 1 3 4], .getLastUpdate true, .getData false,
          .getLastUpdate true] ∧
      ¬ Along step RightToSkip (init 5 : State ℤ)
        [.updateData 7 [.atPoint 1 3 4], .getLastUpdate true, .getData true,
          .updateData 7 [.atPoint 2 6 8], .getLastUpdate true] := by
  decide +kernel

end Refresh

end Itmo.ProgLab8
