import Itmo.ProgLab5.MainInterface

/-! What the lines typed at the prompt mean for the collection: a command changes it, asks
for a route first, saves it or ends the program. The program does what they mean, so a
script, of which no line is executed, has the effect of its typed lines exactly where they
mean no change. -/

namespace Itmo.ProgLab5

open Lib Action ProgLab6 MainInterface
open ProgLab8 (JString Platform RouteValues)

/-! ### The meaning of lines -/

/-- The collection, with the counter of routes. -/
structure Collection (D : Type) [Numbers D] where
  data : List (Route D)
  instances : ℤ

/-- What a line does: a change, one that depends on a route that is asked for and may fail, a
save, or the end of the program. -/
inductive Meaning (D : Type) [Numbers D] where
  | change (f : List (Route D) → List (Route D))
  | dialogue (f : Route D → List (Route D) → Option (List (Route D)))
  | save
  | stop

/-- What is left after a command, with the lines behind it if the program reads on. -/
inductive Next (D : Type) [Numbers D] where
  | goesOn (c : Collection D) (lines : List JString)
  | ends (c : Collection D)

variable {D : Type} [Distances D]

def Meaning.next (disk : Disk) (c : Collection D) (lines : List JString) : Meaning D → Next D
  | change f => .goesOn { c with data := f c.data } lines
  | dialogue f =>
    match ProgLab8.CreatingNewInstance.readValues.run lines with
    | none => .ends c
    | some (v, lines) =>
      match CreatingNewInstance.build v c.instances with
      | .error _ => .ends c
      | .ok (route, instances) =>
        match f route c.data with
        | none => .ends { c with instances }
        | some data => .goesOn ⟨data, instances⟩ lines
  | save =>
    if disk.environment lines.length then .goesOn c lines
    else
      match chooseDirectory disk .console lines with
      | (.ok _, lines) => .goesOn c lines
      | (.error e, lines) => if e = .IOException then .goesOn c lines else .ends c
  | stop => .ends c

namespace Commands

/-- The first route with an id gets the values of another one. -/
def updateFirst (id : ℤ) (route : Route D) (data : List (Route D)) : List (Route D) :=
  data.modify (data.findIdx fun r => r.id = id) fun r => updateValues r route

def addGreater (route : Route D) (data : List (Route D)) : Option (List (Route D)) :=
  (max data).map fun m => if 0 < route.compareTo m then data ++ [route] else data

/-- A command that asks for a route if it is given the word for it. -/
def routeMeaning (arguments : List JString)
    (f : Route D → List (Route D) → Option (List (Route D))) : Meaning D :=
  if arguments.head? = some (.ofString "Route") then .dialogue f else .change id

/-- A change for the first route with an id, if there is one. -/
def updateMeaning (data : List (Route D)) : Option ℤ → Meaning D
  | none => .change id
  | some n =>
    if data.any fun r => r.id = n then
      .dialogue fun route data => some (updateFirst n route data)
    else .change id

/-- A removal of the first route for which a test with a number of the argument holds. -/
def removeMeaning {α : Type} (parsed : Option α) (p : α → Route D → Bool) : Meaning D :=
  match parsed with
  | none => .change id
  | some a => .change (List.eraseP (p a))

def meaning (data : List (Route D)) (arguments : List JString) : Commands → Meaning D
  | ADD => routeMeaning arguments fun route data => some (data ++ [route])
  | UPDATE => updateMeaning data (arguments.head?.bind ProgLab8.Integer.decode)
  | REMOVE_BY_ID =>
    removeMeaning (arguments.head?.bind ProgLab8.Integer.decode) fun n r => r.id = n
  | CLEAR => .change fun _ => []
  | SAVE => .save
  | EXIT => .stop
  | ADD_IF_MAX => routeMeaning arguments addGreater
  | REMOVE_GREATER => routeMeaning arguments fun route data => some (notGreater route data)
  | REMOVE_LOWER => routeMeaning arguments fun route data => some (notLower route data)
  | REMOVE_ANY_BY_DISTANCE =>
    removeMeaning (arguments.head?.bind Platform.parseDouble) fun d r =>
      Distances.near r.distance d
  | HELP | INFO | SHOW | EXECUTE_SCRIPT | FILTER_CONTAINS_NAME | FILTER_STARTS_WITH_NAME =>
    .change id

end Commands

namespace Collection

def meaning (c : Collection D) (line : JString) : Meaning D :=
  match splitCommand line with
  | .error e => if caught e then .change id else .stop
  | .ok (name, arguments) =>
    match Commands.ofText name with
    | none => .change id
    | some command => command.meaning c.data arguments

/-- The collection after at most `n` commands of the lines. -/
def enter (disk : Disk) : ℕ → Collection D → List JString → Collection D
  | 0, c, _ => c
  | _ + 1, c, [] => c
  | n + 1, c, line :: lines =>
    match (c.meaning line).next disk c lines with
    | .goesOn c lines => enter disk n c lines
    | .ends c => c

end Collection

/-! ### The program does what the lines mean -/

def Console.collection (s : Console D) : Collection D := ⟨s.data, s.instances⟩

namespace MainInterface

/-- How a turn ends with a command. -/
def resume (r : Except ConsoleException Unit × Console D) :
    Except ConsoleException Bool × Console D :=
  match r with
  | (.ok _, s) => (.ok true, s)
  | (.error e, s) => (if caught e then .ok true else .error e, s)

/-- The end of a turn at the prompt, as the meaning of its line has it. -/
inductive Follows : Except ConsoleException Bool × Console D → Next D → Prop where
  | goesOn {s : Console D} (hlevel : s.nestingLevel = 1) :
      Follows (.ok true, s) (.goesOn s.collection s.lines)
  | ends {e : ConsoleException} {s : Console D} (he : e ≠ .unfinished) :
      Follows (.error e, s) (.ends s.collection)

section Commands

variable {disk : Disk} {s : Console D}

theorem exec_createNewRouteInstance_none
    (h : (ProgLab8.CreatingNewInstance.readValues (D := D)).run s.lines = none) :
    exec (createNewRouteInstance (D := D) .console) s =
      (.error .waiting, { s with lines := [] }) := by
  unfold createNewRouteInstance
  rw [exec_bind_ok (exec_get s), exec_bind_ok (exec_modify _ s),
    exec_ofResult_bind_error (readValues_of_none h)]
  rfl

theorem exec_createNewRouteInstance_error {v : RouteValues D} {lines : List JString}
    {e : ProgLab8.Throwable}
    (h : ProgLab8.CreatingNewInstance.readValues.run s.lines = some (v, lines))
    (hbuild : CreatingNewInstance.build v s.instances = .error e) :
    exec (createNewRouteInstance (D := D) .console) s =
      (.error .IllegalArgumentException, { s with lines }) := by
  unfold createNewRouteInstance
  rw [exec_bind_ok (exec_get s), exec_bind_ok (exec_modify _ s),
    exec_ofResult_bind (readValues_of_some h)]
  dsimp only
  rw [exec_bind_ok (exec_modify _ _), hbuild]
  rfl

theorem exec_createNewRouteInstance_ok {v : RouteValues D} {lines : List JString}
    {route : Route D} {instances : ℤ}
    (h : ProgLab8.CreatingNewInstance.readValues.run s.lines = some (v, lines))
    (hbuild : CreatingNewInstance.build v s.instances = .ok (route, instances)) :
    exec (createNewRouteInstance (D := D) .console) s =
      (.ok route, { s with lines, instances }) := by
  unfold createNewRouteInstance
  rw [exec_bind_ok (exec_get s), exec_bind_ok (exec_modify _ s),
    exec_ofResult_bind (readValues_of_some h)]
  dsimp only
  rw [exec_bind_ok (exec_modify _ _), hbuild]
  rfl

/-- A command that asks for a route and goes on with the collection. -/
theorem follows_dialogue {x : Route D → ConsoleAction D Unit}
    {f : Route D → List (Route D) → Option (List (Route D))}
    (hok : ∀ route s' data, s'.data = s.data → f route s.data = some data →
      exec (x route) s' = (.ok ⟨⟩, { s' with data }))
    (herror : ∀ route s', s'.data = s.data → f route s.data = none →
      exec (x route) s' = (.error .NoSuchElementException, s'))
    (hlevel : s.nestingLevel = 1) :
    Follows (resume (exec (createNewRouteInstance .console >>= x) s))
      ((Meaning.dialogue f).next disk s.collection s.lines) := by
  unfold Meaning.next
  cases hrun : (ProgLab8.CreatingNewInstance.readValues (D := D)).run s.lines with
  | none =>
    rw [exec_bind_error (exec_createNewRouteInstance_none hrun)]
    exact .ends ConsoleException.noConfusion
  | some read =>
    obtain ⟨v, lines⟩ := read
    dsimp only
    cases hbuild : CreatingNewInstance.build v s.collection.instances with
    | error e =>
      rw [exec_bind_error (exec_createNewRouteInstance_error hrun hbuild)]
      exact Follows.ends (s := { s with lines }) ConsoleException.noConfusion
    | ok made =>
      obtain ⟨route, instances⟩ := made
      dsimp only
      rw [exec_bind_ok (exec_createNewRouteInstance_ok hrun hbuild)]
      cases hf : f route s.collection.data with
      | none =>
        rw [herror route { s with lines, instances } rfl hf]
        exact Follows.ends (s := { s with lines, instances }) ConsoleException.noConfusion
      | some data =>
        rw [hok route { s with lines, instances } data rfl hf]
        exact Follows.goesOn (s := { s with lines, data, instances }) hlevel

theorem follows_change {x : ConsoleAction D Unit} {f : List (Route D) → List (Route D)}
    (h : exec x s = (.ok ⟨⟩, { s with data := f s.data })) (hlevel : s.nestingLevel = 1) :
    Follows (resume (exec x s)) ((Meaning.change f).next disk s.collection s.lines) := by
  rw [h]
  exact Follows.goesOn (s := { s with data := f s.data }) hlevel

/-- A command that fails and leaves the state as it was. -/
theorem follows_caught {x : ConsoleAction D Unit} {e : ConsoleException}
    (h : exec x s = (.error e, s)) (he : caught e = true) (hlevel : s.nestingLevel = 1) :
    Follows (resume (exec x s)) ((Meaning.change id).next disk s.collection s.lines) := by
  rw [h, resume, if_pos he]
  exact .goesOn hlevel

/-- The outcome of the search for the element that a number stands for. -/
theorem position_cases {α : Type} (parsed : Option α) (p : α → Route D → Bool)
    (data : List (Route D)) :
    (data = [] ∧ position parsed p data = .ok none) ∨
      (parsed = none ∧ position parsed p data = .error .NumberFormatException) ∨
      ∃ a, parsed = some a ∧ position parsed p data = .ok (data.findIdx? (p a)) := by
  unfold position
  cases data with
  | nil => exact .inl ⟨rfl, rfl⟩
  | cons r rest =>
    cases parsed with
    | none => exact .inr (.inl ⟨rfl, rfl⟩)
    | some a => exact .inr (.inr ⟨a, rfl, rfl⟩)

theorem follows_remove {α : Type} (parsed : Option α) (p : α → Route D → Bool)
    (hlevel : s.nestingLevel = 1) :
    Follows (resume (exec (do
        let s ← get
        match ← ofResult (position parsed p s.data) with
        | none => return
        | some i => modify fun s => { s with data := s.data.eraseIdx i } : ConsoleAction D Unit) s))
      ((Commands.removeMeaning parsed p).next disk s.collection s.lines) := by
  rcases position_cases parsed p s.data with ⟨hdata, hp⟩ | ⟨hparsed, hp⟩ | ⟨a, hparsed, hp⟩
  · have hnext : (Commands.removeMeaning parsed p).next disk s.collection s.lines =
        .goesOn s.collection s.lines := by
      cases parsed with
      | none => rfl
      | some a =>
        show Next.goesOn ⟨s.data.eraseP (p a), s.instances⟩ s.lines = _
        rw [hdata, List.eraseP_nil, ← hdata]
        rfl
    rw [exec_bind_ok (exec_get s), exec_ofResult_bind hp, hnext]
    exact .goesOn hlevel
  · rw [hparsed]
    refine follows_caught (e := .NumberFormatException) ?_ rfl hlevel
    rw [exec_bind_ok (exec_get s), ← hparsed, exec_ofResult_bind_error hp]
  · rw [hparsed]
    refine follows_change ?_ hlevel
    rw [exec_bind_ok (exec_get s), ← hparsed, exec_ofResult_bind hp, List.eraseP_eq_eraseIdx]
    cases s.data.findIdx? (p a) with
    | none => rfl
    | some i => rfl

theorem follows_update (text : JString) (hlevel : s.nestingLevel = 1) :
    Follows (resume (exec (update (D := D) text .console) s))
      ((Commands.updateMeaning s.data (ProgLab8.Integer.decode text)).next disk s.collection
        s.lines) := by
  unfold update
  rw [exec_bind_ok (exec_get s)]
  rcases position_cases (ProgLab8.Integer.decode text) (fun n r => r.id = n) s.data with
    ⟨hdata, hp⟩ | ⟨hparsed, hp⟩ | ⟨n, hparsed, hp⟩
  · have hmeaning : Commands.updateMeaning s.data (ProgLab8.Integer.decode text) = .change id := by
      rw [hdata]
      cases ProgLab8.Integer.decode text <;> rfl
    rw [hmeaning, exec_ofResult_bind hp]
    exact Follows.goesOn hlevel
  · rw [hparsed]
    refine follows_caught (e := .NumberFormatException) ?_ rfl hlevel
    rw [← hparsed, exec_ofResult_bind_error hp]
  · rw [exec_ofResult_bind hp, hparsed, Commands.updateMeaning]
    cases hfind : s.data.findIdx? fun r => decide (r.id = n) with
    | none =>
      have hnone := List.findIdx?_eq_none_iff.mp hfind
      have hany : ¬ (s.data.any fun r => r.id = n) = true := by
        rw [List.any_eq_true]
        rintro ⟨r, hr, hid⟩
        exact Bool.noConfusion ((hnone r hr).symm.trans hid)
      rw [if_neg hany]
      exact Follows.goesOn hlevel
    | some i =>
      obtain ⟨hlength, hi⟩ := List.findIdx?_eq_some_iff_findIdx_eq.mp hfind
      have hfound := (List.findIdx?_eq_some_iff_getElem.mp hfind).2.1
      have hany : (s.data.any fun r => r.id = n) = true := by
        rw [List.any_eq_true]
        exact ⟨s.data[i], List.getElem_mem hlength, hfound⟩
      rw [if_pos hany]
      refine follows_dialogue (fun route s' data hdata hf => ?_) ?_ hlevel
      · cases hf
        rw [Commands.updateFirst, hi, ← hdata]
        rfl
      · intro route s' _ hf
        cases hf

variable (disk) in
/-- A command that asks for a route and changes the collection with it. -/
theorem follows_modify (f : Route D → List (Route D) → List (Route D))
    (hlevel : s.nestingLevel = 1) :
    Follows (resume (exec (do
        let route ← createNewRouteInstance .console
        modify fun s => { s with data := f route s.data } : ConsoleAction D Unit) s))
      ((Meaning.dialogue fun route data => some (f route data)).next disk s.collection
        s.lines) := by
  refine follows_dialogue (fun route s' data hdata hf => ?_) ?_ hlevel
  · cases hf
    rw [exec_modify, hdata]
  · intro route s' _ hf
    cases hf

theorem follows_removeGreater (hlevel : s.nestingLevel = 1) :
    Follows (resume (exec (removeGreater (D := D) .console) s))
      ((Meaning.dialogue fun route data => some (Commands.notGreater route data)).next disk
        s.collection s.lines) := by
  have h := follows_modify disk Commands.removeGreater hlevel
  simp only [Commands.removeGreater_eq] at h
  unfold removeGreater
  simp only [Commands.removeGreater_eq]
  exact h

theorem follows_removeLower (hlevel : s.nestingLevel = 1) :
    Follows (resume (exec (removeLower (D := D) .console) s))
      ((Meaning.dialogue fun route data => some (Commands.notLower route data)).next disk
        s.collection s.lines) := by
  have h := follows_modify disk Commands.removeLower hlevel
  simp only [Commands.removeLower_eq] at h
  unfold removeLower
  simp only [Commands.removeLower_eq]
  exact h

theorem follows_addIfMax (hlevel : s.nestingLevel = 1) :
    Follows (resume (exec (addIfMax (D := D) .console) s))
      ((Meaning.dialogue Commands.addGreater).next disk s.collection s.lines) := by
  refine follows_dialogue (fun route s' data hdata hf => ?_) (fun route s' hdata hf => ?_) hlevel
  · obtain ⟨m, hmax, rfl⟩ := Option.map_eq_some_iff.mp hf
    rw [exec_bind_ok (exec_get s'), hdata, hmax]
    dsimp only
    split_ifs
    · rw [exec_modify, hdata]
    · rw [← hdata]
      rfl
  · have hmax := Option.map_eq_none_iff.mp hf
    rw [exec_bind_ok (exec_get s'), hdata, hmax]
    rfl

theorem follows_route {command otherwise : ConsoleAction D Unit}
    {f : Route D → List (Route D) → Option (List (Route D))}
    (hcommand : Follows (resume (exec command s))
      ((Meaning.dialogue f).next disk s.collection s.lines))
    (hotherwise : Follows (resume (exec otherwise s))
      ((Meaning.change id).next disk s.collection s.lines)) (arguments : List JString) :
    Follows (resume (exec (withRoute command otherwise arguments) s))
      ((Commands.routeMeaning arguments f).next disk s.collection s.lines) := by
  unfold withRoute Commands.routeMeaning
  split_ifs
  · exact hcommand
  · exact hotherwise

/-- Without its argument, a command is a wrong one. -/
theorem follows_withArgument {command : JString → ConsoleAction D Unit}
    {m : Option JString → Meaning D}
    (hcommand : ∀ a, Follows (resume (exec (command a) s))
      ((m (some a)).next disk s.collection s.lines))
    (hnone : m none = .change id) (hlevel : s.nestingLevel = 1) (arguments : List JString) :
    Follows (resume (exec (withArgument command arguments) s))
      ((m arguments.head?).next disk s.collection s.lines) := by
  cases arguments with
  | nil =>
    rw [List.head?_nil, hnone]
    exact follows_caught (x := throw wrongCommand) rfl rfl hlevel
  | cons a rest => exact hcommand a

theorem chooseDirectory_error {lines lines' : List JString} {e : ConsoleException}
    (h : chooseDirectory disk .console lines = (.error e, lines')) (he : e ≠ .IOException) :
    e = .waiting := by
  induction lines with
  | nil =>
    cases h
    rfl
  | cons path lines ih =>
    unfold chooseDirectory at h
    split at h
    · exact ih h
    · cases h
      exact absurd rfl he
    · cases h

theorem follows_save (hlevel : s.nestingLevel = 1) :
    Follows (resume (exec (tryCatch (save disk .console) fun e =>
        if e = .IOException then return else throw e : ConsoleAction D Unit) s))
      (Meaning.save.next disk s.collection s.lines) := by
  unfold Meaning.next
  dsimp only
  split_ifs with henvironment
  · have hsave : exec (save (D := D) disk .console) s = (.ok ⟨⟩, s) := by
      unfold save
      rw [exec_bind_ok (exec_get s), if_pos henvironment]
      rfl
    rw [exec_tryCatch_ok hsave]
    exact .goesOn hlevel
  · rcases hchoose : chooseDirectory disk .console s.lines with ⟨r, lines⟩
    have hsave : exec (save (D := D) disk .console) s = (r, { s with lines }) := by
      unfold save
      rw [exec_bind_ok (exec_get s), if_neg henvironment, hchoose]
      rfl
    cases r with
    | ok _ =>
      rw [exec_tryCatch_ok hsave]
      exact Follows.goesOn (s := { s with lines }) hlevel
    | error e =>
      rw [exec_tryCatch_error hsave]
      dsimp only
      split_ifs with he
      · exact Follows.goesOn (s := { s with lines }) hlevel
      · obtain rfl := chooseDirectory_error hchoose he
        exact Follows.ends (s := { s with lines }) ConsoleException.noConfusion

variable (disk) in
/-- At the prompt no script is executed, whether it can be opened or not. -/
theorem exec_executeScript (depth : ℕ) (fileName : JString) (hlevel : s.nestingLevel = 1) :
    exec (executeScript disk (startMainInterface (D := D) disk (depth + 1)) fileName) s =
      (if (disk.fileReader s.lines.length fileName).isSome then .ok ⟨⟩ else .error .IOException,
        s) := by
  unfold executeScript
  rw [exec_bind_ok (exec_get s)]
  cases disk.fileReader s.lines.length fileName with
  | none => rfl
  | some file =>
    obtain ⟨lines, broken⟩ := file
    have hstart : exec (startMainInterface (D := D) disk (depth + 1) (.script broken))
        { s with lines, nestingLevel := 2 } = (.ok ⟨⟩, { s with lines, nestingLevel := 1 }) := by
      unfold startMainInterface
      rw [exec_bind_ok (exec_get _), if_pos rfl]
      rfl
    dsimp only
    rw [exec_bind_ok (exec_modify _ s), hlevel]
    show exec (startMainInterface disk (depth + 1) (.script broken) >>= _)
      { s with lines, nestingLevel := 2 } = _
    rw [exec_bind_ok hstart, exec_modify, Option.isSome_some, if_pos rfl, ← hlevel]

theorem follows_executeScript (depth : ℕ) (fileName : JString) (hlevel : s.nestingLevel = 1) :
    Follows (resume (exec (executeScript disk (startMainInterface (D := D) disk (depth + 1))
        fileName) s))
      ((Meaning.change id).next disk s.collection s.lines) := by
  have hexec := exec_executeScript disk depth fileName hlevel
  split_ifs at hexec
  · exact follows_change hexec hlevel
  · exact follows_caught hexec rfl hlevel

theorem follows_execCommand (depth : ℕ) (line : JString) (hlevel : s.nestingLevel = 1) :
    Follows (resume (exec (execCommand (D := D) disk (startMainInterface disk (depth + 1)) line
        .console) s))
      ((s.collection.meaning line).next disk s.collection s.lines) := by
  unfold execCommand Collection.meaning
  cases hsplit : splitCommand line with
  | error e =>
    rw [exec_ofResult_bind_error rfl]
    dsimp only
    split_ifs with he
    · exact follows_caught (x := throw e) rfl he hlevel
    · rw [resume, if_neg he]
      exact .ends (splitCommand_ne_unfinished hsplit)
  | ok split =>
    obtain ⟨name, arguments⟩ := split
    rw [exec_ofResult_bind rfl]
    dsimp only
    cases Commands.ofText name with
    | none => exact follows_caught (x := throw wrongCommand) rfl rfl hlevel
    | some command =>
      dsimp only
      cases command with
      | HELP | INFO | SHOW => exact follows_change (x := pure ⟨⟩) rfl hlevel
      | ADD =>
        exact follows_route (follows_modify disk (fun route data => data ++ [route]) hlevel)
          (follows_caught (x := throw _) rfl rfl hlevel) _
      | UPDATE =>
        exact follows_withArgument
          (m := fun a => Commands.updateMeaning s.data (a.bind ProgLab8.Integer.decode))
          (fun a => follows_update a hlevel) rfl hlevel arguments
      | REMOVE_BY_ID =>
        exact follows_withArgument
          (m := fun a => Commands.removeMeaning (a.bind ProgLab8.Integer.decode)
            fun n r => r.id = n)
          (fun _ => follows_remove _ _ hlevel) rfl hlevel arguments
      | CLEAR => exact follows_change (x := clear) rfl hlevel
      | SAVE => exact follows_save hlevel
      | EXECUTE_SCRIPT =>
        exact follows_withArgument (m := fun _ => .change id)
          (fun fileName => follows_executeScript depth fileName hlevel) rfl hlevel arguments
      | EXIT => exact Follows.ends ConsoleException.noConfusion
      | ADD_IF_MAX => exact follows_route (follows_addIfMax hlevel) (follows_change rfl hlevel) _
      | REMOVE_GREATER =>
        exact follows_route (follows_removeGreater hlevel) (follows_change rfl hlevel) _
      | REMOVE_LOWER =>
        exact follows_route (follows_removeLower hlevel) (follows_change rfl hlevel) _
      | REMOVE_ANY_BY_DISTANCE =>
        exact follows_withArgument
          (m := fun a => Commands.removeMeaning (a.bind Platform.parseDouble)
            fun d r => Distances.near r.distance d)
          (fun _ => follows_remove _ _ hlevel) rfl hlevel arguments
      | FILTER_CONTAINS_NAME | FILTER_STARTS_WITH_NAME =>
        exact follows_withArgument (m := fun _ => .change id)
          (fun _ => follows_change (x := pure ⟨⟩) rfl hlevel) rfl hlevel arguments

/-! ### Lines that are typed -/

theorem exec_turn_nil (start : Input → ConsoleAction D Unit) (h : s.lines = []) :
    exec (turn disk start .console) s = (.error .waiting, s) := by
  have hline : Input.console.nextLine s.lines = .error .waiting := by
    rw [h]
    rfl
  have hnext : exec (nextLine (D := D) .console) s = (.error .waiting, s) := by
    unfold nextLine
    rw [exec_bind_ok (exec_get s), exec_ofResult_bind_error hline]
  unfold turn
  rw [exec_bind, exec_tryCatch_error (exec_map_error hnext)]
  rfl

theorem exec_turn_cons (start : Input → ConsoleAction D Unit) {line : JString}
    {rest : List JString} (h : s.lines = line :: rest) :
    exec (turn disk start .console) s =
      resume (exec (execCommand disk start line .console) { s with lines := rest }) := by
  have hline : Input.console.nextLine s.lines = .ok (some (line, rest)) := by
    rw [h]
    rfl
  have hnext : exec (nextLine (D := D) .console) s =
      (.ok (some line), { s with lines := rest }) := by
    unfold nextLine
    rw [exec_bind_ok (exec_get s), exec_ofResult_bind hline]
    rfl
  unfold turn
  rw [exec_bind_ok (exec_tryCatch_ok (exec_map_ok hnext))]
  dsimp only
  rcases hexec : exec (execCommand disk start line .console) { s with lines := rest } with ⟨r, s'⟩
  cases r with
  | ok _ => rw [exec_tryCatch_ok (exec_map_ok hexec), resume]
  | error e =>
    rw [exec_tryCatch_error (exec_map_error hexec), resume]
    split_ifs <;> rfl

variable (disk) in
theorem follows_turn (depth : ℕ) {line : JString} {rest : List JString}
    (h : s.lines = line :: rest) (hlevel : s.nestingLevel = 1) :
    Follows (exec (turn (D := D) disk (startMainInterface disk (depth + 1)) .console) s)
      ((s.collection.meaning line).next disk s.collection rest) := by
  rw [exec_turn_cons _ h]
  exact follows_execCommand (s := { s with lines := rest }) depth line hlevel

variable (disk) in
/-- The loop leaves the collection that the lines mean. -/
theorem loop_collection (depth n : ℕ) (hlevel : s.nestingLevel = 1) :
    (exec (loop (D := D) disk (startMainInterface disk (depth + 1)) .console n) s).2.collection =
      s.collection.enter disk n s.lines := by
  induction n generalizing s with
  | zero => rfl
  | succ n ih =>
    unfold loop
    cases hlines : s.lines with
    | nil =>
      rw [exec_bind_error (exec_turn_nil _ hlines)]
      rfl
    | cons line rest =>
      have hturn := follows_turn disk depth hlines hlevel
      rw [Collection.enter]
      generalize hr : exec (turn disk (startMainInterface disk (depth + 1)) .console) s = r at hturn
      generalize (s.collection.meaning line).next disk s.collection rest = m at hturn
      cases hturn with
      | goesOn hlevel' =>
        rw [exec_bind_ok hr]
        exact ih hlevel'
      | ends he => rw [exec_bind_error hr]

end Commands

end MainInterface

/-! ### The lines behind a command -/

theorem chooseDirectory_suffix (disk : Disk) (input : Input) (lines : List JString) :
    (chooseDirectory disk input lines).2 <:+ lines := by
  induction lines with
  | nil => exact List.suffix_rfl
  | cons path lines ih =>
    unfold chooseDirectory
    split
    · exact ih.trans (List.suffix_cons path lines)
    · exact List.suffix_cons path lines
    · exact List.suffix_cons path lines

theorem Meaning.next_suffix {disk : Disk} {c c' : Collection D} {lines lines' : List JString}
    {m : Meaning D} (h : m.next disk c lines = .goesOn c' lines') : lines' <:+ lines := by
  cases m with
  | change f =>
    cases h
    exact List.suffix_rfl
  | dialogue f =>
    unfold next at h
    dsimp only at h
    split at h
    · cases h
    · next v lines₁ hrun =>
      have hsuffix := (ProgLab8.CreatingNewInstance.reads_readValues _ _ _ hrun).1
      split at h
      · cases h
      · split at h
        · cases h
        · cases h
          exact hsuffix
  | save =>
    unfold next at h
    dsimp only at h
    have hsuffix := chooseDirectory_suffix disk .console lines
    split_ifs at h
    · cases h
      exact List.suffix_rfl
    · split at h
      · next hchoose =>
        cases h
        rw [hchoose] at hsuffix
        exact hsuffix
      · next hchoose =>
        split_ifs at h
        cases h
        rw [hchoose] at hsuffix
        exact hsuffix
  | stop => cases h

namespace Collection

/-- There are no more commands than lines. -/
theorem enter_congr (disk : Disk) (c : Collection D) {n m : ℕ} {lines : List JString}
    (hn : lines.length ≤ n) (hm : lines.length ≤ m) :
    c.enter disk n lines = c.enter disk m lines := by
  induction n generalizing c m lines with
  | zero =>
    rw [List.length_eq_zero_iff.mp (Nat.le_zero.mp hn)]
    cases m <;> rfl
  | succ n ih =>
    cases lines with
    | nil => cases m <;> rfl
    | cons line rest =>
      cases m with
      | zero => exact absurd hm (Nat.not_succ_le_zero _)
      | succ m =>
        rw [enter, enter]
        cases hnext : (c.meaning line).next disk c rest with
        | goesOn c' lines =>
          have hlength := (Meaning.next_suffix hnext).length_le
          exact ih c' (hlength.trans (Nat.le_of_succ_le_succ hn))
            (hlength.trans (Nat.le_of_succ_le_succ hm))
        | ends c' => rfl

end Collection

namespace MainInterface

variable {disk : Disk} {s : Console D}

/-- The loop at the prompt stops where it waits, or with the program. -/
theorem loop_ne_unfinished (depth : ℕ) {n : ℕ} (hn : s.lines.length < n)
    (hlevel : s.nestingLevel = 1) :
    (exec (loop (D := D) disk (startMainInterface disk (depth + 1)) .console n) s).1 ≠
      .error .unfinished := by
  induction n generalizing s with
  | zero => exact absurd hn (Nat.not_lt_zero _)
  | succ n ih =>
    unfold loop
    cases hlines : s.lines with
    | nil =>
      rw [exec_bind_error (exec_turn_nil _ hlines)]
      exact fun h => ConsoleException.noConfusion (Except.error.inj h)
    | cons line rest =>
      have hturn := follows_turn disk depth hlines hlevel
      generalize hr : exec (turn disk (startMainInterface disk (depth + 1)) .console) s = r at hturn
      generalize hm : (s.collection.meaning line).next disk s.collection rest = m at hturn
      cases hturn with
      | goesOn hlevel' =>
        rw [exec_bind_ok hr]
        refine ih ?_ hlevel'
        have hlength := (Meaning.next_suffix hm).length_le
        rw [hlines, List.length_cons] at hn
        omega
      | ends he =>
        rw [exec_bind_error hr]
        exact fun h => he (Except.error.inj h)

end MainInterface

/-! ### Scripts -/

/-- The program at the prompt, as `main` starts it, with lines to come. -/
def Collection.prompt (c : Collection D) (lines : List JString) : Console D :=
  ⟨lines, c.data, c.instances, 1⟩

/-- The collection when the lines have been entered at the prompt. -/
def typed (disk : Disk) (c : Collection D) (lines : List JString) : List (Route D) :=
  (exec (startMainInterface disk 2 .console) (c.prompt lines)).2.data

/-- The file that a line names for a script. -/
def scriptFile (line : JString) : Option JString :=
  match splitCommand line with
  | .ok (name, fileName :: _) =>
    if Commands.ofText name = some .EXECUTE_SCRIPT then some fileName else none
  | _ => none

/-- Entering lines does to the collection what they mean. -/
theorem typed_eq (disk : Disk) (c : Collection D) (lines : List JString) :
    typed disk c lines = (c.enter disk lines.length lines).data := by
  have hloop := MainInterface.loop_collection disk (s := c.prompt lines) 0 (lines.length + 1) rfl
  have hstart : exec (startMainInterface disk 2 .console) (c.prompt lines) =
      exec (loop disk (startMainInterface disk 1) .console (lines.length + 1))
        (c.prompt lines) := by
    have hlevel : (c.prompt lines).nestingLevel ≠ 2 := show (1 : ℤ) ≠ 2 by decide
    rw [startMainInterface, exec_bind_ok (exec_get _), if_neg hlevel]
    rfl
  rw [typed, hstart, c.enter_congr disk le_rfl (Nat.le_succ lines.length)]
  exact congrArg Collection.data hloop

theorem meaning_script {line file : JString} (h : scriptFile line = some file)
    (c : Collection D) : c.meaning line = .change id := by
  unfold scriptFile at h
  unfold Collection.meaning
  split at h
  · next name fileName rest hsplit =>
    split_ifs at h with hname
    rw [hsplit]
    dsimp only
    rw [hname]
    rfl
  · cases h

/-- The command that a line names. -/
def commandOf (line : JString) : Option Commands :=
  match splitCommand line with
  | .ok (name, _) => Commands.ofText name
  | .error _ => none

/-- A line names a script that can be read and has these lines, none of them a script. -/
def Executes (disk : Disk) (line : JString) (lines : List JString) : Prop :=
  ∃ file, scriptFile line = some file ∧ disk.fileReader 0 file = some (lines, false) ∧
    ∀ line ∈ lines, commandOf line ≠ some .EXECUTE_SCRIPT

/-- Entering the line of a script has the effect of entering the lines of the script. -/
def SameAsTyped (disk : Disk) (c : Collection D) (line : JString) : Prop :=
  ∀ lines, Executes disk line lines → typed disk c [line] = typed disk c lines

/-- That is so if and only if the lines mean no change of the collection. -/
theorem sameAsTyped_iff (disk : Disk) (c : Collection D) (line : JString) :
    SameAsTyped disk c line ↔
      ∀ lines, Executes disk line lines → (c.enter disk lines.length lines).data = c.data := by
  refine forall₂_congr fun lines hexecutes => ?_
  obtain ⟨file, hline, -⟩ := hexecutes
  have hscript : typed disk c [line] = c.data := by
    rw [typed_eq]
    show (c.enter disk 1 [line]).data = c.data
    rw [Collection.enter, meaning_script hline]
    rfl
  rw [hscript, typed_eq]
  exact eq_comm

/-- A script that clears the collection, with a route in it. -/
theorem not_sameAsTyped_clear :
    ¬ ∀ (disk : Disk) (c : Collection Whole) (line : JString), SameAsTyped disk c line := by
  intro h
  have hsame := h ⟨fun _ _ => some ([.ofString "clear"], false), fun _ => true, fun _ _ => .saved⟩
    ⟨[.atOrigin 1 5 "A"], 1⟩ (.ofString "execute_script script") [.ofString "clear"]
    ⟨.ofString "script", by decide, rfl, List.forall_mem_singleton.mpr (by decide)⟩
  revert hsame
  decide

/-! ### Lines without a change -/

/-- The commands that may change the collection. -/
def Commands.changing : Commands → Bool
  | ADD | UPDATE | REMOVE_BY_ID | CLEAR | ADD_IF_MAX | REMOVE_GREATER | REMOVE_LOWER
  | REMOVE_ANY_BY_DISTANCE => true
  | _ => false

theorem meaning_of_not_changing {line : JString}
    (h : ∀ command, commandOf line = some command → command.changing = false)
    (c : Collection D) :
    c.meaning line = .change id ∨ c.meaning line = .save ∨ c.meaning line = .stop := by
  unfold commandOf at h
  unfold Collection.meaning
  cases hsplit : splitCommand line with
  | error e =>
    dsimp only
    split_ifs
    · exact .inl rfl
    · exact .inr (.inr rfl)
  | ok split =>
    obtain ⟨name, arguments⟩ := split
    rw [hsplit] at h
    dsimp only at h ⊢
    cases hname : Commands.ofText name with
    | none => exact .inl rfl
    | some command =>
      have hcommand := h command hname
      cases command with
      | HELP | INFO | SHOW | EXECUTE_SCRIPT | FILTER_CONTAINS_NAME | FILTER_STARTS_WITH_NAME =>
        exact .inl rfl
      | SAVE => exact .inr (.inl rfl)
      | EXIT => exact .inr (.inr rfl)
      | ADD | UPDATE | REMOVE_BY_ID | CLEAR | ADD_IF_MAX | REMOVE_GREATER | REMOVE_LOWER
      | REMOVE_ANY_BY_DISTANCE => cases hcommand

theorem next_save (disk : Disk) (c : Collection D) (lines : List JString) :
    (∃ lines', Meaning.save.next disk c lines = .goesOn c lines') ∨
      Meaning.save.next disk c lines = .ends c := by
  unfold Meaning.next
  dsimp only
  split_ifs
  · exact .inl ⟨lines, rfl⟩
  · split
    · exact .inl ⟨_, rfl⟩
    · split_ifs
      · exact .inl ⟨_, rfl⟩
      · exact .inr rfl

/-- Lines without such a command leave the collection as it was. -/
theorem enter_of_not_changing (disk : Disk) (c : Collection D) (n : ℕ) {lines : List JString}
    (h : ∀ line ∈ lines, ∀ command, commandOf line = some command → command.changing = false) :
    c.enter disk n lines = c := by
  induction n generalizing lines with
  | zero => rfl
  | succ n ih =>
    cases lines with
    | nil => rfl
    | cons line rest =>
      rw [List.forall_mem_cons] at h
      rw [Collection.enter]
      have hstep : (∃ lines', (c.meaning line).next disk c rest = .goesOn c lines') ∨
          (c.meaning line).next disk c rest = .ends c := by
        rcases meaning_of_not_changing h.1 c with hm | hm | hm
        · rw [hm]
          exact .inl ⟨rest, rfl⟩
        · rw [hm]
          exact next_save disk c rest
        · rw [hm]
          exact .inr rfl
      rcases hstep with ⟨lines', hnext⟩ | hnext
      · have hsuffix := Meaning.next_suffix hnext
        rw [hnext]
        exact ih fun line hline => h.2 line (hsuffix.subset hline)
      · rw [hnext]

end Itmo.ProgLab5
