import Itmo.ProgLab6.CommandEffects
import Itmo.ProgLab6.ConsoleInput
import Itmo.Lib.System

/-! The interface of a client and its scripts. The level of nesting is counted up before a
script is opened and down after its last line, and a script is refused where the level says
that one is being read. So a file that passes the test for being readable and cannot be
opened, as a directory, leaves the level up, and no script is executed any more. -/

namespace Itmo.ProgLab6

open Lib Action
open ProgLab8 (JString Platform)

/-! ### Requests and surroundings -/

inductive CommandList where
  | HELP
  | INFO
  | SHOW
  | ADD
  | UPDATE
  | REMOVE_BY_ID
  | CLEAR
  | SAVE
  | EXECUTE_SCRIPT
  | EXIT
  | ADD_IF_MAX
  | REMOVE_GREATER
  | REMOVE_LOWER
  | REMOVE_ANY_BY_DISTANCE
  | FILTER_CONTAINS_NAME
  | FILTER_STARTS_WITH_NAME
  | NO_COMMAND
  deriving DecidableEq

namespace CommandList

/-- The commands in the order of the enumeration, with their names. -/
def names : List (CommandList × String) :=
  [(.HELP, "help"), (.INFO, "info"), (.SHOW, "show"), (.ADD, "add"), (.UPDATE, "update"),
    (.REMOVE_BY_ID, "remove_by_id"), (.CLEAR, "clear"), (.SAVE, "save"),
    (.EXECUTE_SCRIPT, "execute_script"), (.EXIT, "exit"), (.ADD_IF_MAX, "add_if_max"),
    (.REMOVE_GREATER, "remove_greater"), (.REMOVE_LOWER, "remove_lower"),
    (.REMOVE_ANY_BY_DISTANCE, "remove_any_by_distance"),
    (.FILTER_CONTAINS_NAME, "filter_contains_name"),
    (.FILTER_STARTS_WITH_NAME, "filter_starts_with_name"), (.NO_COMMAND, "no_command")]

def getCommandList (commandName : JString) : CommandList :=
  match names.find? fun n => commandName = .ofString n.2 with
  | some n => n.1
  | none => .NO_COMMAND

end CommandList

/-- The class `Request`, with a command for the server. -/
structure ClientRequest (D : Type) [Numbers D] where
  command : CommandList
  arguments : List (Argument D)

/-- What a path stands for: nothing that exists and can be read, something that passes this
test and cannot be opened, or a file with its lines, which may be broken behind them. -/
inductive ScriptFile where
  | unavailable
  | unopened
  | script (lines : List JString) (broken : Bool)

/-- How the exchange of a request and its answer ends. -/
inductive Exchange where
  | answered
  | ioException
  | bufferOverflow
  | waiting

/-- The files and the server, at each running number. -/
structure World (D : Type) [Numbers D] where
  files : ℕ → JString → ScriptFile
  exchange : ℕ → ClientRequest D → Exchange

/-- The client: the lines that are not read yet, the static fields of `ConsoleInterface` and
`Route`, and the running number. -/
structure Client (D : Type) [Numbers D] where
  lines : List JString
  nestingLevel : ℤ
  instances : ℤ
  tick : ℕ

abbrev ClientAction (D : Type) [Numbers D] (α : Type) := Action (Client D) ConsoleException α

variable {D : Type} [Numbers D]

/-! ### The interface -/

namespace ConsoleInterface

def nextLine (input : Input) : ClientAction D (Option JString) := do
  let s ← get
  match ← ofResult (input.nextLine s.lines) with
  | none => return none
  | some (line, lines) =>
    modify fun s => { s with lines }
    return some line

def createNewRouteInstance (input : Input) : ClientAction D (Route D) := do
  let s ← get
  modify fun s => { s with lines := [] }
  let (v, lines) ← ofResult (readValues input s.lines)
  modify fun s => { s with lines }
  match CreatingNewInstance.build v s.instances with
  | .error _ => throw .IllegalArgumentException
  | .ok (route, instances) =>
    modify fun s => { s with instances }
    return route

/-- A command with a route, whose first argument must be the word `Route`. -/
def routeRequest (input : Input) (command : CommandList) (message : String)
    (arguments : List JString) : ClientAction D (ClientRequest D) :=
  if arguments.head? = some (.ofString "Route") then do
    let route ← createNewRouteInstance input
    return ⟨command, [.route route]⟩
  else throw (.WrongCommandException message)

/-- A command with its arguments as they are, of which the first is checked. -/
def argumentsRequest (command : CommandList) (check : JString → Bool) (message : String) :
    List JString → ClientAction D (ClientRequest D)
  | [] => throw wrongCommand
  | first :: rest =>
    if check first then pure ⟨command, (first :: rest).map .string⟩
    else throw (.WrongCommandException message)

def idMessage : String := "В качестве id должно быть введено целое положительное число"

def updateRequest (input : Input) : List JString → ClientAction D (ClientRequest D)
  | [] => throw wrongCommand
  | first :: rest =>
    if (ProgLab8.Integer.parseUnsignedInt first).isSome then do
      let route ← createNewRouteInstance input
      return ⟨.UPDATE, .route route :: (first :: rest).map .string⟩
    else throw (.WrongCommandException idMessage)

/-- A nested interface reads the lines of a script with `startInterface`. -/
def executeScript (world : World D) (startInterface : List JString → Bool → ClientAction D Unit)
    (arguments : List JString) : ClientAction D Unit := do
  let s ← get
  if s.nestingLevel = 2 then return
  match arguments with
  | [] => throw wrongCommand
  | path :: _ =>
    modify fun s => { s with tick := s.tick + 1 }
    match world.files s.tick path with
    | .unavailable => throw wrongCommand
    | .unopened =>
      modify fun s => { s with nestingLevel := s.nestingLevel + 1 }
      throw .IOException
    | .script lines broken =>
      modify fun s => { s with nestingLevel := s.nestingLevel + 1 }
      startInterface lines broken
      modify fun s => { s with nestingLevel := s.nestingLevel - 1 }

/-- A request for the server, or none. -/
def createRequest (world : World D) (startInterface : List JString → Bool → ClientAction D Unit)
    (command : JString) (input : Input) : ClientAction D (Option (ClientRequest D)) := do
  let (name, arguments) ← ofResult (splitCommand command)
  match CommandList.getCommandList name with
  | .HELP => return some ⟨.HELP, []⟩
  | .INFO => return some ⟨.INFO, []⟩
  | .SHOW => return some ⟨.SHOW, []⟩
  | .ADD =>
    some <$> routeRequest input .ADD "В коллекцию можно добавить только объект класса Route"
      arguments
  | .UPDATE => some <$> updateRequest input arguments
  | .REMOVE_BY_ID =>
    some <$> argumentsRequest .REMOVE_BY_ID
      (fun s => (ProgLab8.Integer.parseUnsignedInt s).isSome) idMessage arguments
  | .CLEAR => return some ⟨.CLEAR, []⟩
  | .EXECUTE_SCRIPT =>
    executeScript world startInterface arguments
    return none
  | .EXIT => throw .exit
  | .ADD_IF_MAX =>
    some <$> routeRequest input .ADD_IF_MAX "Программа поддерживает только работу с Route" arguments
  | .REMOVE_GREATER =>
    some <$> routeRequest input .REMOVE_GREATER "Программа поддерживает только работу с Route"
      arguments
  | .REMOVE_LOWER =>
    some <$> routeRequest input .REMOVE_LOWER "Программа поддерживает только работу с Route"
      arguments
  | .REMOVE_ANY_BY_DISTANCE =>
    some <$> argumentsRequest .REMOVE_ANY_BY_DISTANCE
      (fun s => (Platform.parseDouble (D := D) s).isSome)
      "Введите корректную дистанцию в виде вещественного числа" arguments
  | .FILTER_CONTAINS_NAME =>
    some <$> argumentsRequest .FILTER_CONTAINS_NAME (fun _ => true) "" arguments
  | .FILTER_STARTS_WITH_NAME =>
    some <$> argumentsRequest .FILTER_STARTS_WITH_NAME (fun _ => true) "" arguments
  | .SAVE | .NO_COMMAND => throw wrongCommand

/-- The exchange with the server, and whether the loop goes on after it. -/
def exchange (world : World D) (request : ClientRequest D) : ClientAction D Bool := do
  let s ← get
  modify fun s => { s with tick := s.tick + 1 }
  match world.exchange s.tick request with
  | .answered => return true
  | .ioException => return false
  | .bufferOverflow => throw .BufferOverflowException
  | .waiting => throw .waiting

/-- The second half of a turn, in the `try` block. -/
def executeCommand (world : World D) (startInterface : List JString → Bool → ClientAction D Unit)
    (inputLine : JString) (input : Input) : ClientAction D Bool := do
  match ← createRequest world startInterface inputLine input with
  | none => return true
  | some request => exchange world request

/-- What the `try` block of a turn catches. -/
def caught : ConsoleException → Bool
  | .WrongCommandException _ => true
  | .IOException => true
  | _ => false

/-- A turn of the loop, and whether another one follows. -/
def turn (world : World D) (startInterface : List JString → Bool → ClientAction D Unit)
    (input : Input) : ClientAction D Bool := do
  let line ← tryCatch (some <$> nextLine input) fun e =>
    -- `Такого файла нет`
    if e = .IOException then return none else throw e
  match line with
  | none | some none => return false
  | some (some inputLine) =>
    tryCatch (executeCommand world startInterface inputLine input) fun e =>
      if caught e then return true else throw e

/-- At most `n` turns, of which every one but the last takes a line. -/
def loop (world : World D) (startInterface : List JString → Bool → ClientAction D Unit)
    (input : Input) : ℕ → ClientAction D Unit
  | 0 => throw .unfinished
  | n + 1 => do
    if ← turn world startInterface input then loop world startInterface input n

/-- `startInterface` on the lines of a script, which may nest others down to a depth. -/
def runScript (world : World D) : ℕ → List JString → Bool → ClientAction D Unit
  | 0, _, _ => throw .unfinished
  | depth + 1, lines, broken => do
    let s ← get
    modify fun s => { s with lines }
    loop world (runScript world depth) (.script broken) (lines.length + 1)
    modify fun s' => { s' with lines := s.lines }

/-! ### The level during a script -/

section Levels

variable {level : ℤ} {n : ℕ}

/-- A level, and at most some number of lines to read. -/
def At (level : ℤ) (n : ℕ) (s : Client D) : Prop := s.nestingLevel = level ∧ s.lines.length ≤ n

/-- An exception out of a command leaves the level as it was. -/
def Thrown (level : ℤ) (n : ℕ) (e : ConsoleException) (s : Client D) : Prop :=
  At level n s ∧ e ≠ .unfinished

theorem ends_throw_at {α : Type} {e : ConsoleException} (he : e ≠ .unfinished)
    (P : α → Client D → Prop) : Ends (At level n) (throw e : ClientAction D α) P (Thrown level n) :=
  ends_throw fun _ hs => ⟨hs, he⟩

theorem ends_createNewRouteInstance (input : Input) :
    Ends (At level n) (createNewRouteInstance (D := D) input) (fun _ => At level n)
      (Thrown level n) := by
  refine ends_get_bind fun s hs => ?_
  refine Ends.bind (P := fun _ s' => s'.nestingLevel = level ∧ s'.lines = [])
    (ends_modify fun s' hs' => ⟨hs'.symm ▸ hs.1, rfl⟩) fun _ => ?_
  have hempty : ∀ s' : Client D, s'.nestingLevel = level ∧ s'.lines = [] → At level n s' := by
    rintro s' ⟨hlevel, hlines⟩
    exact ⟨hlevel, by rw [hlines]; exact Nat.zero_le n⟩
  refine Ends.bind (P := fun v s' => s'.nestingLevel = level ∧ v.2 <:+ s.lines)
    (ends_ofResult (fun v hv s' hs' => ⟨hs'.1, readValues_suffix hv⟩) fun e he s' hs' =>
      ⟨hempty s' hs', ?_⟩) fun v => ?_
  · unfold readValues at he
    split at he
    · cases he
    · cases he
      cases input with
      | console => decide
      | script broken => cases broken <;> decide
  · refine Ends.bind (P := fun _ => At level n)
      (ends_modify fun s' hs' => ⟨hs'.1, hs'.2.length_le.trans hs.2⟩) fun _ => ?_
    cases CreatingNewInstance.build v.1 s.instances with
    | error e => exact ends_throw_at (by decide) _
    | ok made =>
      exact Ends.bind (P := fun _ => At level n) (ends_modify fun _ hs' => hs') fun _ =>
        ends_pure fun _ hs' => hs'

theorem ends_routeRequest (input : Input) (command : CommandList) (message : String)
    (arguments : List JString) :
    Ends (At level n) (routeRequest (D := D) input command message arguments)
      (fun _ => At level n) (Thrown level n) := by
  unfold routeRequest
  split_ifs
  · exact (ends_createNewRouteInstance input).bind fun _ => ends_pure fun _ hs => hs
  · exact ends_throw_at (by simp) _

theorem ends_argumentsRequest (command : CommandList) (check : JString → Bool) (message : String)
    (arguments : List JString) :
    Ends (At level n) (argumentsRequest (D := D) command check message arguments)
      (fun _ => At level n) (Thrown level n) := by
  unfold argumentsRequest
  split
  · exact ends_throw_at (by decide) _
  · split_ifs
    · exact ends_pure fun _ hs => hs
    · exact ends_throw_at (by simp) _

theorem ends_updateRequest (input : Input) (arguments : List JString) :
    Ends (At level n) (updateRequest (D := D) input arguments) (fun _ => At level n)
      (Thrown level n) := by
  unfold updateRequest
  split
  · exact ends_throw_at (by decide) _
  · split_ifs
    · exact (ends_createNewRouteInstance input).bind fun _ => ends_pure fun _ hs => hs
    · exact ends_throw_at (by decide) _

/-- In a script, another one is not even looked for. -/
theorem ends_executeScript (world : World D)
    (startInterface : List JString → Bool → ClientAction D Unit) (arguments : List JString) :
    Ends (At 2 n) (executeScript world startInterface arguments) (fun _ => At 2 n)
      (Thrown 2 n) := by
  refine ends_get_bind fun s hs => ?_
  rw [if_pos hs.1]
  exact ends_pure fun s' hs' => hs'.symm ▸ hs

/-- A command leaves the level as it was, unless it starts a script. -/
theorem ends_createRequest (world : World D)
    (startInterface : List JString → Bool → ClientAction D Unit) {command : JString}
    (h : level = 2 ∨ ∀ name arguments, splitCommand command = .ok (name, arguments) →
      CommandList.getCommandList name ≠ .EXECUTE_SCRIPT) (input : Input) :
    Ends (At level n) (createRequest world startInterface command input) (fun _ => At level n)
      (Thrown level n) := by
  unfold createRequest
  refine Ends.bind (P := fun split s => splitCommand command = .ok split ∧ At level n s)
    (ends_ofResult (fun split hsplit s hs => ⟨hsplit, hs⟩) fun e he s hs =>
      ⟨hs, splitCommand_ne_unfinished he⟩) fun split => ?_
  obtain ⟨name, arguments⟩ := split
  intro s ⟨hsplit, hs⟩
  revert s hs
  show Ends (At level n) _ _ _
  dsimp only
  cases hcommand : CommandList.getCommandList name with
  | HELP | INFO | SHOW | CLEAR => exact ends_pure fun _ hs => hs
  | ADD | ADD_IF_MAX | REMOVE_GREATER | REMOVE_LOWER =>
    exact Ends.map (Q := fun _ => At level n) (ends_routeRequest input _ _ arguments)
  | UPDATE => exact Ends.map (Q := fun _ => At level n) (ends_updateRequest input arguments)
  | REMOVE_BY_ID | REMOVE_ANY_BY_DISTANCE | FILTER_CONTAINS_NAME | FILTER_STARTS_WITH_NAME =>
    exact Ends.map (Q := fun _ => At level n) (ends_argumentsRequest _ _ _ arguments)
  | EXECUTE_SCRIPT =>
    rcases h with rfl | h
    · exact (ends_executeScript world startInterface arguments).bind fun _ =>
        ends_pure fun _ hs => hs
    · exact absurd hcommand (h name arguments hsplit)
  | EXIT => exact ends_throw_at (by decide) _
  | SAVE | NO_COMMAND => exact ends_throw_at (by decide) _

theorem ends_exchange (world : World D) (request : ClientRequest D) :
    Ends (At level n) (exchange world request) (fun _ => At level n) (Thrown level n) := by
  refine ends_get_bind fun s hs => ?_
  refine Ends.bind (P := fun _ => At level n) (ends_modify fun s' hs' => hs'.symm ▸ hs) fun _ => ?_
  cases world.exchange s.tick request with
  | answered | ioException => exact ends_pure fun _ hs => hs
  | bufferOverflow | waiting => exact ends_throw_at (by decide) _

theorem ends_executeCommand (world : World D)
    (startInterface : List JString → Bool → ClientAction D Unit) {inputLine : JString}
    (h : level = 2 ∨ ∀ name arguments, splitCommand inputLine = .ok (name, arguments) →
      CommandList.getCommandList name ≠ .EXECUTE_SCRIPT) (input : Input) :
    Ends (At level n) (executeCommand world startInterface inputLine input) (fun _ => At level n)
      (Thrown level n) := by
  refine (ends_createRequest world startInterface h input).bind fun request => ?_
  cases request with
  | none => exact ends_pure fun _ hs => hs
  | some request => exact ends_exchange world request

end Levels

/-! ### Turns and scripts -/

variable {world : World D} {startInterface : List JString → Bool → ClientAction D Unit}
  {s : Client D}

theorem exec_nextLine (input : Input) {line : Option (JString × List JString)}
    (h : input.nextLine s.lines = .ok line) :
    exec (nextLine (D := D) input) s =
      (.ok (line.map (·.1)), { s with lines := (line.map (·.2)).getD s.lines }) := by
  unfold nextLine
  rw [exec_bind_ok (exec_get s), exec_ofResult_bind h]
  cases line with
  | none => rfl
  | some line => rfl

theorem exec_nextLine_error (input : Input) {e : ConsoleException}
    (h : input.nextLine s.lines = .error e) :
    exec (nextLine (D := D) input) s = (.error e, s) := by
  unfold nextLine
  rw [exec_bind_ok (exec_get s), exec_ofResult_bind_error h]

theorem exec_turn_cons (input : Input) {line : JString} {rest : List JString}
    (h : s.lines = line :: rest) :
    exec (turn world startInterface input) s =
      exec (tryCatch (executeCommand world startInterface line input) fun e =>
        if caught e then return true else throw e) { s with lines := rest } := by
  have hline : input.nextLine s.lines = .ok (some (line, rest)) := by
    rw [h]
    rfl
  unfold turn
  rw [exec_bind_ok (exec_tryCatch_ok (exec_map_ok (exec_nextLine input hline)))]
  rfl

/-- A script that is at its end, or cannot be read on, ends its loop. -/
theorem exec_turn_nil (broken : Bool) (h : s.lines = []) :
    exec (turn world startInterface (.script broken)) s = (.ok false, s) := by
  unfold turn
  cases broken with
  | false =>
    have hline : (Input.script false).nextLine s.lines = .ok none := by
      rw [h]
      rfl
    rw [exec_bind_ok (exec_tryCatch_ok (exec_map_ok (exec_nextLine _ hline)))]
    rfl
  | true =>
    have hline : (Input.script true).nextLine s.lines = .error .IOException := by
      rw [h]
      rfl
    have hcatch := exec_map_error (f := some) (exec_nextLine_error _ hline)
    rw [exec_bind, exec_tryCatch_error hcatch]
    rfl

/-- What a loop does not catch ends the program. -/
def Escaped (e : ConsoleException) : Prop := caught e = false ∧ e ≠ .unfinished

theorem ends_turn (broken : Bool) (n : ℕ) :
    Ends (At 2 n) (turn world startInterface (.script broken))
      (fun goesOn s => s.nestingLevel = 2 ∧ (goesOn = true → s.lines.length < n))
      (fun e _ => Escaped e) := by
  intro s hs
  cases hlines : s.lines with
  | nil =>
    rw [exec_turn_nil broken hlines]
    exact ⟨hs.1, Bool.noConfusion⟩
  | cons line rest =>
    have hrest : rest.length < n := by
      have hlength := hs.2
      rw [hlines, List.length_cons] at hlength
      omega
    rw [exec_turn_cons _ hlines]
    refine Ends.tryCatch (I := At 2 rest.length) (E := Thrown 2 rest.length) ?_ ?_ _
      ⟨hs.1, le_rfl⟩
    · refine (ends_executeCommand world startInterface (.inl rfl) _).weaken (fun _ h => h) ?_
        fun _ _ h => h
      exact fun _ s' hs' => ⟨hs'.1, fun _ => hs'.2.trans_lt hrest⟩
    · intro e
      cases hcaught : caught e with
      | true => exact ends_pure fun s' hs' => ⟨hs'.1.1, fun _ => hs'.1.2.trans_lt hrest⟩
      | false => exact ends_throw fun s' hs' => ⟨hcaught, hs'.2⟩

theorem ends_loop (broken : Bool) (n : ℕ) :
    Ends (At 2 n) (loop world startInterface (.script broken) (n + 1))
      (fun _ s => s.nestingLevel = 2) (fun e _ => Escaped e) := by
  induction n with
  | zero =>
    refine (ends_turn broken 0).bind fun goesOn => ?_
    cases goesOn with
    | false => exact ends_pure fun _ hs => hs.1
    | true => exact fun s hs => absurd (hs.2 rfl) (Nat.not_lt_zero _)
  | succ n ih =>
    refine (ends_turn broken (n + 1)).bind fun goesOn => ?_
    cases goesOn with
    | false => exact ends_pure fun _ hs => hs.1
    | true =>
      exact ih.weaken (fun s hs => ⟨hs.1, Nat.le_of_lt_succ (hs.2 rfl)⟩) (fun _ _ h => h)
        fun _ _ h => h

/-- A script comes to its end, whatever its lines do, or ends the program. -/
theorem ends_runScript (depth : ℕ) (lines : List JString) (broken : Bool) :
    Ends (·.nestingLevel = 2) (runScript world (depth + 1) lines broken)
      (fun _ s => s.nestingLevel = 2) (fun e _ => Escaped e) := by
  refine ends_get_bind fun s hs => ?_
  refine Ends.bind (P := fun _ => At 2 lines.length)
    (ends_modify fun s' hs' => ⟨hs'.symm ▸ hs, le_rfl⟩) fun _ => ?_
  exact (ends_loop broken lines.length).bind fun _ => ends_modify fun _ hs' => hs'

/-! ### The prompt -/

/-- The path of a line that names a script. -/
def scriptPath (line : JString) : Option JString :=
  match splitCommand line with
  | .ok (name, path :: _) =>
    if CommandList.getCommandList name = .EXECUTE_SCRIPT then some path else none
  | _ => none

/-- What gets out of a command at the prompt and is caught there leaves the level at one. -/
def ThrownAtPrompt (e : ConsoleException) (s : Client D) : Prop :=
  (caught e = true → s.nestingLevel = 1) ∧ e ≠ .unfinished

theorem ends_executeScript_prompt (depth : ℕ) (arguments : List JString) {tick : ℕ}
    (h : ∀ path rest, arguments = path :: rest → world.files tick path ≠ .unopened) :
    Ends (fun s => s.nestingLevel = 1 ∧ s.tick = tick)
      (executeScript world (runScript world (depth + 1)) arguments)
      (fun _ s => s.nestingLevel = 1) ThrownAtPrompt := by
  refine ends_get_bind fun s hs => ?_
  rw [if_neg (by rw [hs.1]; decide)]
  cases arguments with
  | nil => exact ends_throw fun s' hs' => ⟨fun _ => hs'.symm ▸ hs.1, by decide⟩
  | cons path rest =>
    refine Ends.bind (P := fun _ s' => s'.nestingLevel = 1)
      (ends_modify fun s' hs' => hs'.symm ▸ hs.1) fun _ => ?_
    rw [hs.2]
    cases hfile : world.files tick path with
    | unavailable => exact ends_throw fun s' hs' => ⟨fun _ => hs', by decide⟩
    | unopened => exact absurd hfile (h path rest rfl)
    | script lines broken =>
      refine Ends.bind (P := fun _ s' => s'.nestingLevel = 2)
        (ends_modify fun s' hs' => by rw [hs']; rfl) fun _ => ?_
      refine Ends.bind (P := fun _ s' => s'.nestingLevel = 2)
        ((ends_runScript depth lines broken).weaken (fun _ h => h) (fun _ _ h => h) ?_)
        fun _ => ends_modify fun s' hs' => by rw [hs']; rfl
      intro e s' he
      exact ⟨fun hcaught => absurd (he.1.symm.trans hcaught) Bool.noConfusion, he.2⟩

theorem exec_turn_waiting (h : s.lines = []) :
    exec (turn world startInterface .console) s = (.error .waiting, s) := by
  have hline : Input.console.nextLine s.lines = .error .waiting := by
    rw [h]
    rfl
  have hcatch := exec_map_error (f := some) (exec_nextLine_error _ hline)
  unfold turn
  rw [exec_bind, exec_tryCatch_error hcatch]
  rfl

theorem exec_executeCommand_script {line name : JString} {arguments : List JString}
    (hsplit : splitCommand line = .ok (name, arguments))
    (hname : CommandList.getCommandList name = .EXECUTE_SCRIPT) (input : Input) :
    exec (executeCommand world startInterface line input) s =
      exec (do executeScript world startInterface arguments; return true) s := by
  have hrequest : exec (createRequest world startInterface line input) s =
      exec (do executeScript world startInterface arguments; return none) s := by
    unfold createRequest
    rw [exec_ofResult_bind hsplit]
    dsimp only
    rw [hname]
  unfold executeCommand
  rw [exec_bind, hrequest, exec_bind, exec_bind]
  rcases exec (executeScript world startInterface arguments) s with ⟨r, s'⟩
  cases r <;> rfl

theorem scriptPath_eq_some_iff {line path : JString} :
    scriptPath line = some path ↔ ∃ name rest, splitCommand line = .ok (name, path :: rest) ∧
      CommandList.getCommandList name = .EXECUTE_SCRIPT := by
  unfold scriptPath
  constructor
  · intro h
    split at h
    · next name path' rest hsplit =>
      split_ifs at h with hname
      cases h
      exact ⟨name, rest, hsplit, hname⟩
    · cases h
  · rintro ⟨name, rest, hsplit, hname⟩
    rw [hsplit]
    exact if_pos hname

/-- From the prompt at level one, a line that does not name a script that cannot be opened
leads back to it at level one, if at all. -/
theorem ends_turn_prompt (depth : ℕ)
    (h : ∀ line rest path, s.lines = line :: rest → scriptPath line = some path →
      world.files s.tick path ≠ .unopened) (hlevel : s.nestingLevel = 1) :
    Ends (· = s) (turn world (runScript world (depth + 1)) .console)
      (fun _ s => s.nestingLevel = 1) (fun e _ => e ≠ .unfinished) := by
  rintro s' rfl
  cases hlines : s'.lines with
  | nil =>
    rw [exec_turn_waiting hlines]
    exact ConsoleException.noConfusion
  | cons line rest =>
    rw [exec_turn_cons _ hlines]
    refine Ends.tryCatch (I := fun s => At 1 rest.length s ∧ s.tick = s'.tick)
      (E := ThrownAtPrompt) ?_ ?_ _ ⟨⟨hlevel, le_rfl⟩, rfl⟩
    · by_cases hscript : ∃ name arguments, splitCommand line = .ok (name, arguments) ∧
          CommandList.getCommandList name = .EXECUTE_SCRIPT
      · obtain ⟨name, arguments, hsplit, hname⟩ := hscript
        have hopens : ∀ path rest, arguments = path :: rest →
            world.files s'.tick path ≠ .unopened := by
          rintro path rest' rfl
          exact h line rest path hlines (scriptPath_eq_some_iff.mpr ⟨name, rest', hsplit, hname⟩)
        have hrun := (ends_executeScript_prompt depth arguments hopens).bind
          (f := fun _ => pure true) (Q := fun _ s => s.nestingLevel = 1)
          fun _ => ends_pure fun _ hs => hs
        intro s hs
        rw [exec_executeCommand_script hsplit hname]
        exact hrun s ⟨hs.1.1, hs.2⟩
      · have hother : ∀ name arguments, splitCommand line = .ok (name, arguments) →
            CommandList.getCommandList name ≠ .EXECUTE_SCRIPT := fun name arguments hsplit hname =>
          hscript ⟨name, arguments, hsplit, hname⟩
        refine (ends_executeCommand world _ (.inr hother) _).weaken (fun _ h => h.1)
          (fun _ _ hs => hs.1) ?_
        exact fun e s hs => ⟨fun _ => hs.1.1, hs.2⟩
    · intro e
      cases hcaught : caught e with
      | true => exact ends_pure fun s hs => hs.1 hcaught
      | false => exact ends_throw fun s hs => hs.2

/-- A file that cannot be opened leaves the level counted up. -/
theorem exec_turn_unopened (depth : ℕ) {line path : JString} {rest : List JString}
    (hlines : s.lines = line :: rest) (hpath : scriptPath line = some path)
    (hfile : world.files s.tick path = .unopened) (hlevel : s.nestingLevel = 1) :
    exec (turn world (runScript world (depth + 1)) .console) s =
      (.ok true, { s with lines := rest, tick := s.tick + 1, nestingLevel := 2 }) := by
  obtain ⟨name, arguments, hsplit, hname⟩ := scriptPath_eq_some_iff.mp hpath
  have hscript : exec (executeScript world (runScript world (depth + 1)) (path :: arguments))
      { s with lines := rest } =
      (.error .IOException, { s with lines := rest, tick := s.tick + 1, nestingLevel := 2 }) := by
    unfold executeScript
    rw [exec_bind_ok (exec_get _), if_neg (by rw [hlevel]; decide)]
    dsimp only
    rw [exec_bind_ok (exec_modify _ _), hfile]
    dsimp only
    rw [exec_bind_ok (exec_modify _ _), hlevel]
    rfl
  rw [exec_turn_cons _ hlines]
  have hexec : exec (executeCommand world (runScript world (depth + 1)) line .console)
      { s with lines := rest } = _ := exec_executeCommand_script hsplit hname .console
  rw [exec_bind_error hscript] at hexec
  rw [exec_tryCatch_error hexec]
  rfl

/-- A script that can be read is executed where none is being read, and refused elsewhere. -/
theorem exec_executeScript_script {path : JString} {arguments lines : List JString}
    {broken : Bool} (hfile : world.files s.tick path = .script lines broken) :
    exec (executeScript world startInterface (path :: arguments)) s =
      if s.nestingLevel = 2 then (.ok ⟨⟩, s) else
        exec (do
          startInterface lines broken
          modify fun s => { s with nestingLevel := s.nestingLevel - 1 })
          { s with tick := s.tick + 1, nestingLevel := s.nestingLevel + 1 } := by
  unfold executeScript
  rw [exec_bind_ok (exec_get s)]
  split_ifs
  · rfl
  · dsimp only
    rw [exec_bind_ok (exec_modify _ _), hfile]
    dsimp only
    rw [exec_bind_ok (exec_modify _ _)]

end ConsoleInterface

/-! ### Sessions -/

open ConsoleInterface

/-- A client that is waiting for a command, or is not any more. -/
structure Session (D : Type) [Numbers D] where
  console : Client D
  atPrompt : Bool

namespace Session

/-- The lines that are typed, behind those that a command has left. -/
def typing (s : Session D) (typed : List JString) : Client D :=
  { s.console with lines := s.console.lines ++ typed }

/-- What happens with the lines that are typed for a command: a turn at the prompt. `main`
starts the loop anew when it ends. -/
def step (world : World D) (s : Session D) (typed : List JString) : Session D :=
  if s.atPrompt then
    match exec (turn world (runScript world 1) .console) (s.typing typed) with
    | (.ok _, console) => ⟨console, true⟩
    | (.error _, console) => ⟨console, false⟩
  else s

/-- The level of nesting at the prompt. -/
def Restored (s : Session D) : Prop := s.atPrompt = true → s.console.nestingLevel = 1

/-- The command at the prompt does not name a file that passes for a script and cannot be
opened. -/
def Opens (world : World D) (s : Session D) (typed : List JString) : Prop :=
  s.atPrompt = true → ∀ line rest path, (s.typing typed).lines = line :: rest →
    scriptPath line = some path → world.files s.console.tick path ≠ .unopened

theorem restored_step_iff (world : World D) (s : Session D) (typed : List JString)
    (hs : s.Restored) : (s.step world typed).Restored ↔ s.Opens world typed := by
  unfold step
  split_ifs with hprompt
  · have hlevel := hs hprompt
    constructor
    · intro h _ line rest path hlines hpath hfile
      have hturn := exec_turn_unopened (s := s.typing typed) 0 hlines hpath hfile hlevel
      rw [hturn] at h
      have htwo : (2 : ℤ) = 1 := h rfl
      exact absurd htwo (by decide)
    · intro h
      have hturn := ends_turn_prompt (s := s.typing typed) 0 (h hprompt) hlevel _ rfl
      rcases hexec : exec (turn world (runScript world 1) .console) (s.typing typed)
        with ⟨r, console⟩
      rw [hexec] at hturn
      cases r with
      | ok _ => exact fun _ => hturn
      | error e => exact fun h => Bool.noConfusion h
  · exact ⟨fun _ h => absurd h hprompt, fun _ => hs⟩

/-- In every session, control is back at the prompt with the level of before after exactly
those commands that name no script that cannot be opened. -/
theorem restored_iff (world : World D) {s : Session D} (hs : s.Restored)
    (commands : List (List JString)) :
    Along (step world) (fun s typed => (s.step world typed).Restored) s commands ↔
      Along (step world) (Opens world) s commands :=
  along_preserved_iff Restored (restored_step_iff world) hs commands

theorem restored_script :
    Along (step ⟨fun _ _ => .script [.ofString "clear"] false, fun _ _ => .answered⟩)
      (fun s typed => (s.step ⟨fun _ _ => .script [.ofString "clear"] false,
        fun _ _ => .answered⟩ typed).Restored)
      (⟨⟨[], 1, 1, 0⟩, true⟩ : Session Whole)
      [[.ofString "execute_script clear"], [.ofString "help"]] :=
  (restored_iff _ (fun _ => rfl) _).mpr
    (along_of_forall_mem (fun _ _ _ _ _ _ _ _ _ => ScriptFile.noConfusion) _)

/-- A script that is a directory leaves the level at two. -/
theorem not_restored_directory : ¬ ∀ (world : World Whole) (s : Session Whole)
    (commands : List (List JString)), s.Restored →
      Along (step world) (fun s typed => (s.step world typed).Restored) s commands := by
  intro h
  have hrun := h ⟨fun _ _ => .unopened, fun _ _ => .answered⟩ ⟨⟨[], 1, 1, 0⟩, true⟩
    [[.ofString "execute_script scripts"]] fun _ => rfl
  have hlevel := hrun.1 (by decide)
  exact absurd hlevel (by decide)

end Session

end Itmo.ProgLab6
