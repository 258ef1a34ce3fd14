import Itmo.Lib.System
import Mathlib.Data.List.Pairwise
import Mathlib.Order.Nat
import Mathlib.Tactic.SplitIfs

/-! The notifications of the page of vehicles. Each is shown with a timer that takes the
first one away, and the fifth takes the first one away at once but not its timer. The timers
run off in the order in which they were set, so that the first timer is the timer of the
first notification as long as no timer is left over; from then on each notification is taken
away by an earlier one's timer, until a timer finds nothing to take. -/

namespace Itmo.Soa.Notifications

open Lib

def lifetimeMs : ℕ := 5000

def maxNotifications : ℕ := 4

/-- The interface `Notification`, without its texts, and the moment it was sent. -/
structure Notification where
  id : ℕ
  sentAt : ℕ

structure Timer where
  timeoutID : ℕ
  due : ℕ

/-- The clock, the counters of the service and of the browser, what is shown, each with the
timer set for it, and the timers that are set, the next one first. What the limit has pushed
out is kept as a record. -/
structure State where
  now : ℕ
  idGenerator : ℕ
  nextTimeout : ℕ
  notifications : List (Notification × ℕ)
  timers : List Timer
  pushedOut : List (Notification × ℕ)

inductive Event where
  | send
  | deleteNotification (idx : ℕ)
  /-- Time passes. -/
  | wait (ms : ℕ)
  /-- The browser runs the next timer, if it is due. -/
  | timeout

/-- How many notifications the next one pushes out: the first of four, or none. -/
def overflow (s : State) : ℕ := if maxNotifications ≤ s.notifications.length then 1 else 0

def send (s : State) : State :=
  { s with
    idGenerator := s.idGenerator + 1
    nextTimeout := s.nextTimeout + 1
    timers := s.timers ++ [⟨s.nextTimeout, s.now + lifetimeMs⟩]
    notifications := s.notifications.drop (overflow s) ++
      [(⟨s.idGenerator, s.now⟩, s.nextTimeout)]
    pushedOut := s.pushedOut ++ s.notifications.take (overflow s) }

/-- `splice(idx, 1)`, and `clearTimeout` for what it has removed. -/
def deleteNotification (s : State) (idx : ℕ) : State :=
  match s.notifications[idx]? with
  | none => s
  | some (_, timeoutID) =>
    { s with
      notifications := s.notifications.eraseIdx idx
      timers := s.timers.filter (·.timeoutID ≠ timeoutID) }

def step (s : State) : Event → State
  | .send => send s
  | .deleteNotification idx => deleteNotification s idx
  | .wait ms => { s with now := s.now + ms }
  | .timeout =>
    match s.timers with
    | [] => s
    | timer :: timers =>
      if timer.due ≤ s.now then { s with timers, notifications := s.notifications.tail } else s

def start : State where
  now := 0
  idGenerator := 0
  nextTimeout := 0
  notifications := []
  timers := []
  pushedOut := []

/-! ### The timers and what is shown -/

/-- The timer that was set for a notification. -/
def timerOf (shown : Notification × ℕ) : Timer := ⟨shown.2, shown.1.sentAt + lifetimeMs⟩

/-- The timers are some that are left over, and then those of what is shown. -/
def LeftOver (s : State) (stale : List Timer) : Prop :=
  s.timers = stale ++ s.notifications.map timerOf

structure Consistent (s : State) : Prop where
  timers : ∃ stale, LeftOver s stale
  timeouts : s.timers.Pairwise fun a b => a.timeoutID < b.timeoutID
  nextTimeout : ∀ timer ∈ s.timers, timer.timeoutID < s.nextTimeout
  dues : s.timers.Pairwise fun a b => a.due ≤ b.due
  due : ∀ timer ∈ s.timers, timer.due ≤ s.now + lifetimeMs
  ids : s.notifications.Pairwise fun a b => a.1.id < b.1.id
  idGenerator : ∀ shown ∈ s.notifications, shown.1.id < s.idGenerator
  few : s.notifications.length ≤ maxNotifications
  pushedOut : ∀ pushed ∈ s.pushedOut, pushed.2 < s.nextTimeout
  pushedBefore : ∀ pushed ∈ s.pushedOut, ∀ shown ∈ s.notifications, pushed.2 < shown.2

variable {s : State} {stale : List Timer}

theorem consistent_start : Consistent start where
  timers := ⟨[], rfl⟩
  timeouts := List.Pairwise.nil
  nextTimeout _ h := by cases h
  dues := List.Pairwise.nil
  due _ h := by cases h
  ids := List.Pairwise.nil
  idGenerator _ h := by cases h
  few := Nat.zero_le _
  pushedOut _ h := by cases h
  pushedBefore _ h := by cases h

/-- The numbers of the timers of what is shown. -/
theorem Consistent.shown_lt (h : Consistent s) {shown : Notification × ℕ}
    (hshown : shown ∈ s.notifications) : shown.2 < s.nextTimeout := by
  obtain ⟨stale, hstale⟩ := h.timers
  refine h.nextTimeout (timerOf shown) ?_
  rw [hstale]
  exact List.mem_append_right _ (List.mem_map_of_mem hshown)

theorem Consistent.shown_pairwise (h : Consistent s) :
    s.notifications.Pairwise fun a b => a.2 < b.2 := by
  obtain ⟨stale, hstale⟩ := h.timers
  have htimeouts := h.timeouts
  rw [hstale, List.pairwise_append, List.pairwise_map] at htimeouts
  exact htimeouts.2.1

/-- The timers of what is pushed out are left over as well. -/
theorem LeftOver.send (h : LeftOver s stale) :
    LeftOver (send s) (stale ++ (s.notifications.take (overflow s)).map timerOf) := by
  unfold LeftOver Notifications.send
  dsimp only
  rw [List.append_assoc, ← List.map_append, ← List.append_assoc, List.take_append_drop,
    List.map_append, ← List.append_assoc, ← h]
  rfl

theorem Consistent.send (h : Consistent s) : Consistent (send s) := by
  have hkept : (s.notifications.drop (overflow s)).Sublist s.notifications :=
    List.drop_sublist _ _
  have hgone : ∀ pushed ∈ s.notifications.take (overflow s), pushed.2 < s.nextTimeout :=
    fun pushed hmem => h.shown_lt (List.mem_of_mem_take hmem)
  refine ⟨h.timers.imp' _ fun _ => LeftOver.send, ?_, ?_, ?_, ?_, ?_, ?_, ?_, ?_, ?_⟩
  · exact pairwise_concat h.timeouts h.nextTimeout
  · refine forall_mem_concat (fun timer htimer => ?_) (Nat.lt_succ_self _)
    exact Nat.lt_succ_of_lt (h.nextTimeout timer htimer)
  · exact pairwise_concat h.dues h.due
  · exact forall_mem_concat h.due (le_refl (s.now + lifetimeMs))
  · exact pairwise_concat (h.ids.sublist hkept) fun shown hshown =>
      h.idGenerator shown (hkept.subset hshown)
  · refine forall_mem_concat (fun shown hshown => ?_) (Nat.lt_succ_self _)
    exact Nat.lt_succ_of_lt (h.idGenerator shown (hkept.subset hshown))
  · have hfew := h.few
    unfold Notifications.send overflow
    dsimp only
    rw [List.length_append, List.length_drop, List.length_singleton]
    unfold maxNotifications at hfew ⊢
    split_ifs <;> omega
  · intro pushed hpushed
    rcases List.mem_append.mp hpushed with hmem | hmem
    · exact Nat.lt_succ_of_lt (h.pushedOut pushed hmem)
    · exact Nat.lt_succ_of_lt (hgone pushed hmem)
  · intro pushed hpushed shown hshown
    rcases List.mem_append.mp hshown with hshown | hshown
    · rcases List.mem_append.mp hpushed with hmem | hmem
      · exact h.pushedBefore pushed hmem shown (hkept.subset hshown)
      · -- what is pushed out stood before what is kept
        have hpairwise := h.shown_pairwise
        rw [← List.take_append_drop (overflow s) s.notifications] at hpairwise
        exact (List.pairwise_append.mp hpairwise).2.2 pushed hmem shown hshown
    · rw [List.mem_singleton.mp hshown]
      rcases List.mem_append.mp hpushed with hmem | hmem
      · exact h.pushedOut pushed hmem
      · exact hgone pushed hmem

/-- Of the timers, only that of the deleted notification has its number. -/
theorem filter_timers {stale : List Timer} {shown : List (Notification × ℕ)} {idx : ℕ}
    (hpairwise : (stale ++ shown.map timerOf).Pairwise fun a b => a.timeoutID < b.timeoutID)
    (hidx : idx < shown.length) :
    (stale ++ shown.map timerOf).filter (·.timeoutID ≠ (shown[idx]).2) =
      stale ++ (shown.eraseIdx idx).map timerOf := by
  have hsplit : shown = shown.take idx ++ shown[idx] :: shown.drop (idx + 1) := by
    rw [← List.drop_eq_getElem_cons hidx, List.take_append_drop]
  have hkeep : ∀ l : List Timer, (∀ timer ∈ l, timer.timeoutID ≠ (shown[idx]).2) →
      l.filter (·.timeoutID ≠ (shown[idx]).2) = l := by
    intro l hl
    exact List.filter_eq_self.mpr fun timer htimer => decide_eq_true (hl timer htimer)
  generalize hremoved : shown[idx] = removed at *
  rw [List.eraseIdx_eq_take_drop_succ]
  rw [hsplit, List.map_append, List.map_cons, ← List.append_assoc] at hpairwise
  obtain ⟨-, hafter, hacross⟩ := List.pairwise_append.mp hpairwise
  have hbefore : ∀ timer ∈ stale ++ (shown.take idx).map timerOf, timer.timeoutID ≠ removed.2 :=
    fun timer htimer => (hacross timer htimer _ List.mem_cons_self).ne
  have hlater : ∀ timer ∈ (shown.drop (idx + 1)).map timerOf, timer.timeoutID ≠ removed.2 :=
    fun timer htimer => ((List.pairwise_cons.mp hafter).1 timer htimer).ne'
  conv_lhs => rw [hsplit]
  rw [List.map_append, List.map_cons, ← List.append_assoc, List.filter_append, hkeep _ hbefore,
    List.filter_cons_of_neg (by simp [timerOf]), hkeep _ hlater, List.map_append, List.append_assoc]

/-- Taking some timers and some notifications away. -/
theorem Consistent.fewer (h : Consistent s) {timers : List Timer}
    {notifications : List (Notification × ℕ)} (htimers : timers.Sublist s.timers)
    (hshown : notifications.Sublist s.notifications)
    (hleft : ∃ stale, LeftOver { s with timers, notifications } stale) :
    Consistent { s with timers, notifications } where
  timers := hleft
  timeouts := h.timeouts.sublist htimers
  nextTimeout timer hmem := h.nextTimeout timer (htimers.subset hmem)
  dues := h.dues.sublist htimers
  due timer hmem := h.due timer (htimers.subset hmem)
  ids := h.ids.sublist hshown
  idGenerator shown hmem := h.idGenerator shown (hshown.subset hmem)
  few := hshown.length_le.trans h.few
  pushedOut := h.pushedOut
  pushedBefore pushed hpushed shown hmem :=
    h.pushedBefore pushed hpushed shown (hshown.subset hmem)

theorem LeftOver.deleteNotification (h : LeftOver s stale) (hs : Consistent s) (idx : ℕ) :
    LeftOver (deleteNotification s idx) stale := by
  unfold Notifications.deleteNotification
  split
  · exact h
  · next removed timeoutID hremoved =>
    obtain ⟨hidx, hget⟩ := List.getElem?_eq_some_iff.mp hremoved
    have hfilter := filter_timers (h ▸ hs.timeouts) hidx
    rw [hget, ← h] at hfilter
    exact hfilter

theorem Consistent.deleteNotification (h : Consistent s) (idx : ℕ) :
    Consistent (deleteNotification s idx) := by
  obtain ⟨stale, hstale⟩ := h.timers
  have hleft := hstale.deleteNotification h idx
  unfold Notifications.deleteNotification at hleft ⊢
  split
  · exact h
  · next removed timeoutID hremoved =>
    rw [hremoved] at hleft
    exact h.fewer List.filter_sublist (List.eraseIdx_sublist _ _) ⟨stale, hleft⟩

/-- The next timer takes the first notification away, its own or not. -/
theorem LeftOver.fire (h : LeftOver s stale) {timer : Timer} {timers : List Timer}
    (htimers : s.timers = timer :: timers) :
    ∃ stale, LeftOver { s with timers, notifications := s.notifications.tail } stale := by
  unfold LeftOver at h ⊢
  rw [htimers] at h
  dsimp only
  cases stale with
  | nil =>
    cases hnotifications : s.notifications with
    | nil => rw [hnotifications] at h; cases h
    | cons shown rest =>
      rw [hnotifications] at h
      exact ⟨[], (List.cons.inj h).2⟩
  | cons first stale =>
    obtain ⟨-, hrest⟩ := List.cons.inj h
    cases hnotifications : s.notifications with
    | nil => exact ⟨stale, by rw [hrest, hnotifications]; rfl⟩
    | cons shown rest =>
      -- the notification goes before its timer, which is now one more that is left over
      exact ⟨stale ++ [timerOf shown], by rw [hrest, hnotifications]; simp⟩

theorem Consistent.fire (h : Consistent s) {timer : Timer} {timers : List Timer}
    (htimers : s.timers = timer :: timers) :
    Consistent { s with timers, notifications := s.notifications.tail } := by
  have hsublist : timers.Sublist s.timers := htimers ▸ List.sublist_cons_self _ _
  obtain ⟨stale, hstale⟩ := h.timers
  exact h.fewer hsublist (List.tail_sublist _) (hstale.fire htimers)

theorem Consistent.step (h : Consistent s) (e : Event) : Consistent (step s e) := by
  cases e with
  | send => exact h.send
  | deleteNotification idx => exact h.deleteNotification idx
  | wait ms =>
    refine ⟨h.timers, h.timeouts, h.nextTimeout, h.dues, ?_, h.ids, h.idGenerator, h.few,
      h.pushedOut, h.pushedBefore⟩
    intro timer htimer
    exact (h.due timer htimer).trans (Nat.add_le_add_right (Nat.le_add_right _ _) _)
  | timeout =>
    unfold Notifications.step
    dsimp only
    split
    · exact h
    · next timer timers htimers =>
      split_ifs
      · exact h.fire htimers
      · exact h

theorem Consistent.run (h : Consistent s) (es : List Event) : Consistent (run Notifications.step s es) :=
  run_invariant Consistent (fun _ e h => h.step e) h es

/-! ### Results -/

/-- At most four notifications are shown, each once and in the order they were sent. The timer
of whatever is shown is still set, so none is shown any longer when its timer has run. -/
theorem shown_in_time (es : List Event) :
    let s := run step start es
    s.notifications.length ≤ maxNotifications ∧
      (s.notifications.Pairwise fun a b => a.1.id < b.1.id) ∧
      (∀ shown ∈ s.notifications, timerOf shown ∈ s.timers) ∧
      ((∀ timer ∈ s.timers, s.now < timer.due) →
        ∀ shown ∈ s.notifications, s.now < shown.1.sentAt + lifetimeMs) := by
  intro s
  have h : Consistent s := consistent_start.run es
  have hset : ∀ shown ∈ s.notifications, timerOf shown ∈ s.timers := by
    intro shown hshown
    obtain ⟨stale, hstale⟩ := h.timers
    rw [hstale]
    exact List.mem_append_right _ (List.mem_map_of_mem hshown)
  exact ⟨h.few, h.ids, hset, fun hrun shown hshown => hrun (timerOf shown) (hset shown hshown)⟩

/-- A timer that runs takes away the notification that it was set for. -/
def TakesOwn (s : State) : Event → Prop
  | .timeout => ∀ timer ∈ s.timers.head?, timer.due ≤ s.now →
      ∀ shown ∈ s.notifications.head?, timerOf shown = timer
  | _ => True

/-- A timer that runs while something is shown is not that of a notification that the limit has
pushed out. -/
def NotPushedOut (s : State) : Event → Prop
  | .timeout => ∀ timer ∈ s.timers.head?, timer.due ≤ s.now → s.notifications ≠ [] →
      ∀ pushed ∈ s.pushedOut, timerOf pushed ≠ timer
  | _ => True

/-- Only timers of what the limit has pushed out are left over. -/
def OnlyPushedOut (s : State) : Prop :=
  ∃ stale, LeftOver s stale ∧ ∀ timer ∈ stale, timer ∈ s.pushedOut.map timerOf

theorem takesOwn_iff (h : Consistent s) (honly : OnlyPushedOut s) (e : Event) :
    TakesOwn s e ↔ NotPushedOut s e := by
  cases e with
  | timeout =>
    obtain ⟨stale, hstale, hpushed⟩ := honly
    have htimeouts := h.timeouts
    have hbefore := h.pushedBefore
    refine forall_congr' fun timer => forall_congr' fun hhead => forall_congr' fun _ => ?_
    rw [hstale] at hhead htimeouts
    cases hnotifications : s.notifications with
    | nil => simp
    | cons shown rest =>
      rw [hnotifications] at hhead htimeouts hbefore
      cases stale with
      | nil =>
        obtain rfl : timerOf shown = timer := by simpa using hhead
        refine iff_of_true (fun _ h => by cases h; rfl) fun _ pushed hmem heq => ?_
        exact (hbefore pushed hmem shown List.mem_cons_self).ne (congrArg Timer.timeoutID heq)
      | cons first stale =>
        obtain rfl : first = timer := by simpa using hhead
        -- the timer of what is shown comes after the one that is left over
        have hlt : first.timeoutID < (timerOf shown).timeoutID :=
          (List.pairwise_cons.mp htimeouts).1 _ (List.mem_append_right _ (List.mem_cons_self))
        obtain ⟨pushed, hmem, hfirst⟩ := List.mem_map.mp (hpushed first List.mem_cons_self)
        refine iff_of_false (fun hown => ?_) fun hnot => hnot (List.cons_ne_nil _ _) pushed hmem hfirst
        rw [hown shown rfl] at hlt
        exact lt_irrefl _ hlt
  | _ => exact Iff.rfl

/-- A timer that is not that of something pushed out leaves no other timer over. -/
theorem OnlyPushedOut.fire (honly : OnlyPushedOut s) {timer : Timer} {timers : List Timer}
    (htimers : s.timers = timer :: timers)
    (hnot : s.notifications ≠ [] → ∀ pushed ∈ s.pushedOut, timerOf pushed ≠ timer) :
    OnlyPushedOut { s with timers, notifications := s.notifications.tail } := by
  obtain ⟨stale, hstale, hpushed⟩ := honly
  unfold LeftOver at hstale
  rw [htimers] at hstale
  cases stale with
  | nil =>
    cases hnotifications : s.notifications with
    | nil => rw [hnotifications] at hstale; cases hstale
    | cons shown rest =>
      rw [hnotifications] at hstale
      exact ⟨[], (List.cons.inj hstale).2, fun _ h => by cases h⟩
  | cons first stale =>
    obtain ⟨rfl, hrest⟩ := List.cons.inj hstale
    obtain ⟨pushed, hmem, hfirst⟩ := List.mem_map.mp (hpushed timer List.mem_cons_self)
    have hnil : s.notifications = [] := by
      by_contra hne
      exact hnot hne pushed hmem hfirst
    refine ⟨stale, ?_, fun other hother => hpushed other (List.mem_cons_of_mem _ hother)⟩
    unfold LeftOver
    dsimp only
    rw [hrest, hnil]
    rfl

theorem OnlyPushedOut.step (honly : OnlyPushedOut s) (h : Consistent s) (e : Event)
    (hnot : NotPushedOut s e) : OnlyPushedOut (step s e) := by
  cases e with
  | send =>
    obtain ⟨stale, hstale, hpushed⟩ := honly
    refine ⟨_, hstale.send, fun timer htimer => ?_⟩
    show timer ∈ (s.pushedOut ++ s.notifications.take (overflow s)).map timerOf
    rw [List.map_append]
    rcases List.mem_append.mp htimer with hmem | hmem
    · exact List.mem_append_left _ (hpushed timer hmem)
    · exact List.mem_append_right _ hmem
  | deleteNotification idx =>
    obtain ⟨stale, hstale, hpushed⟩ := honly
    refine ⟨stale, hstale.deleteNotification h idx, ?_⟩
    have hkept : (deleteNotification s idx).pushedOut = s.pushedOut := by
      unfold deleteNotification
      split <;> rfl
    rw [Notifications.step, hkept]
    exact hpushed
  | wait ms => exact honly
  | timeout =>
    unfold Notifications.step
    dsimp only
    split
    · exact honly
    · next timer timers htimers =>
      split_ifs with hdue
      · exact honly.fire htimers (hnot timer (by rw [htimers]; rfl) hdue)
      · exact honly

/-- Every timer takes away its own notification if and only if no timer of a notification that
the limit has pushed out runs while something is shown. -/
theorem takesOwn_along_iff (es : List Event) :
    Along step TakesOwn start es ↔ Along step NotPushedOut start es :=
  along_iff_along (fun s => Consistent s ∧ OnlyPushedOut s)
    (fun _ e h (_ : True) => takesOwn_iff h.1 h.2 e)
    (fun _ e h _ hnot => ⟨h.1.step e, h.2.step h.1 e hnot⟩)
    ⟨consistent_start, [], rfl, fun _ h => by cases h⟩
    (along_of_forall_mem (fun _ _ _ => trivial) start)

end Itmo.Soa.Notifications
