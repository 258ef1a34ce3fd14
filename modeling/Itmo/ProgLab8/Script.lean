import Itmo.ProgLab6.Route
import Itmo.ProgLab8.GetAnswer
import Itmo.ProgLab8.Session
import Mathlib.Data.List.DropRight

/-! Scripts of a client, read by `CommandWorker`. A line is cut into pieces at its
white space, and the first piece names a command; a command that takes a route reads
the lines behind it until eleven of them have given the values of one. Requests and
answers go over a connection, which is a parameter, as are the texts of the language
and the files. The state keeps besides the lines that are not read yet what the run
has come to: its command lines, the values of its routes and its requests. -/

namespace Itmo.ProgLab8

open Lib Action
open ProgLab6 (Numbers isSpace)

/-! ### Pieces of a line -/

/-- The pieces between runs of white space: the first one, and the others. -/
def spacePieces : JString → JString × List JString
  | [] => ([], [])
  | c :: s =>
    let (piece, rest) := spacePieces s
    if isSpace c then
      if s.head?.any isSpace then (piece, rest) else ([], piece :: rest)
    else (c :: piece, rest)

/-- `split("\\s+")`: without a match the text itself, else the pieces without the empty
ones at the end. -/
def splitSpaces (s : JString) : List JString :=
  if s.any isSpace then ((spacePieces s).1 :: (spacePieces s).2).rdropWhile List.isEmpty
  else [s]

/-- An empty piece stays at the front, and none at the end. -/
example :
    splitSpaces (.ofString "  add  Route ") =
        [[], JString.ofString "add", JString.ofString "Route"] ∧
      splitSpaces (.ofString "   ") = [] ∧ splitSpaces [] = [[]] := by decide

namespace CommandList

/-- The commands in the order of the enumeration, with their names. -/
def names : List (CommandList × String) :=
  [(.HELP, "help"), (.INFO, "info"), (.SHOW, "show"), (.ADD, "add"), (.UPDATE, "update"),
    (.REMOVE_BY_ID, "remove_by_id"), (.CLEAR, "clear"), (.EXECUTE_SCRIPT, "execute_script"),
    (.EXIT, "exit"), (.ADD_IF_MAX, "add_if_max"), (.REMOVE_GREATER, "remove_greater"),
    (.REMOVE_LOWER, "remove_lower"), (.REMOVE_ANY_BY_DISTANCE, "remove_any_by_distance"),
    (.FILTER_CONTAINS_NAME, "filter_contains_name"),
    (.FILTER_STARTS_WITH_NAME, "filter_starts_with_name"), (.NO_COMMAND, "no_command"),
    (.NEW_USER, "new_user"), (.LOG_IN, "log_in"), (.GET_LAST_UPDATE, ""), (.CHECK_ID, ""),
    (.GET_DATA, "")]

def getCommandList (commandName : JString) : CommandList :=
  match names.find? fun n => commandName = .ofString n.2 with
  | some n => n.1
  | none => .NO_COMMAND

end CommandList

/-! ### The connection -/

/-- An object that comes over the connection, or how reading it fails: `noAnswer` keeps
`getAnswer` waiting, `closed` makes it return null, and an object of another class does
not pass its cast. -/
inductive Reply (D : Type) [Platform D] where
  | ioException
  | noAnswer
  | closed
  | notAnswer
  | answer (o : Object D)

/-- What the exchanges of a client meet, at each running number, and the number of bytes
that a request takes. -/
structure Connection (D : Type) [Platform D] where
  writeFails : ℕ → Bool
  reply : ℕ → Reply D
  now : ℕ → ℤ
  size : Request D → ℕ

/-- The strings of the current language. -/
abbrev Resources := JString → Option JString

/-- How `executeScript` can come to no text; `unfinished` is a loop that goes on. -/
inductive ScriptException where
  | WrongCommandException (message : String)
  | IOException
  | FileNotFoundException
  | NoSuchElementException
  | IndexOutOfBoundsException
  | IllegalArgumentException
  | NullPointerException
  | ClassCastException
  | BufferOverflowException
  | unfinished
  deriving DecidableEq

variable {D : Type} [Numbers D]

/-- The values of the lines of a route. -/
structure RouteValues (D : Type) where
  rName : JString
  rDistance : D
  cX : D
  cY : D
  flX : D
  flY : D
  flZ : D
  flName : JString
  slX : D
  slY : D
  slZ : D

/-- The reader of a script with what it has come to. -/
structure Client (D : Type) [Platform D] where
  lines : List JString
  tick : ℕ
  commands : List JString
  values : List (RouteValues D)
  requests : List (Request D)

abbrev ScriptAction (D : Type) [Platform D] (α : Type) := Action (Client D) ScriptException α

/-! ### Routes -/

namespace CreatingNewInstance

/-- Lines are read until one is accepted; without one the reader is at its end. -/
def readUntil {α : Type} (accept : JString → Option α) : StateT (List JString) Option α
  | [] => none
  | line :: lines =>
    match accept line with
    | some a => some (a, lines)
    | none => readUntil accept lines

def inputString : StateT (List JString) Option JString :=
  readUntil ProgLab6.CreatingNewInstance.inputString

def inputNumber (condition : D → Bool) : StateT (List JString) Option D :=
  readUntil (ProgLab6.CreatingNewInstance.inputNumber condition)

def readValues : StateT (List JString) Option (RouteValues D) := do
  let rName ← inputString
  let rDistance ← inputNumber (Platform.lt (Platform.ofInt 1))
  let cX ← inputNumber (Platform.le (Platform.ofInt (-140)))
  let cY ← inputNumber fun _ => true
  let flX ← inputNumber fun _ => true
  let flY ← inputNumber fun _ => true
  let flZ ← inputNumber fun _ => true
  let flName ← inputString
  let slX ← inputNumber fun _ => true
  let slY ← inputNumber fun _ => true
  let slZ ← inputNumber fun _ => true
  return { rName, rDistance, cX, cY, flX, flY, flZ, flName, slX, slY, slZ }

/-- The constructors on the values. -/
def build (v : RouteValues D) (now : ℤ) : Except Throwable (Route D) :=
  (Coordinates.new v.cX (Numbers.intValue v.cY)).bind fun coordinates =>
    (First.Location.new v.flX (Numbers.longValue v.flY) v.flZ v.flName).bind fun from_ =>
      Route.new v.rName now coordinates from_
        ⟨Numbers.intValue v.slX, Numbers.intValue v.slY, Numbers.floatValue v.slZ⟩
        v.rDistance 0 none

def createNewRouteInstance (conn : Connection D) : ScriptAction D (Route D) := do
  let s ← get
  match readValues.run s.lines with
  | none =>
    modify fun s => { s with lines := [] }
    throw .NoSuchElementException
  | some (v, lines) =>
    modify fun s => { s with lines := lines, values := s.values ++ [v] }
    match build v (conn.now s.tick) with
    | .ok route => return route
    | .error _ => throw .IllegalArgumentException

end CreatingNewInstance

/-! ### Exchanges -/

def sendRequest (conn : Connection D) (request : Request D) : ScriptAction D Unit := do
  modify fun s => { s with requests := s.requests ++ [request] }
  if BUFFER_SIZE < conn.size request then throw .BufferOverflowException
  let s ← get
  if conn.writeFails s.tick then throw .IOException

/-- `(String) getAnswer(socketChannel).getAnswer()`, a reference that may be null. -/
def getAnswerText (conn : Connection D) : ScriptAction D (Option JString) := do
  let s ← get
  modify fun s => { s with tick := s.tick + 1 }
  match conn.reply s.tick with
  | .ioException => throw .IOException
  | .noAnswer => throw .unfinished
  | .closed => throw .NullPointerException
  | .notAnswer => throw .ClassCastException
  | .answer (.string text) => return some text
  | .answer .null => return none
  | .answer _ => throw .ClassCastException

/-- A string that a method is called on. -/
def nonNullText : Option JString → ScriptAction D JString
  | some text => pure text
  | none => throw .NullPointerException

namespace LocaleManager

/-- A key without a text is shown as it is. -/
def getString (resources : Resources) (key : JString) : JString := (resources key).getD key

end LocaleManager

/-! ### Commands -/

namespace CommandWorker

/-- `get(0)`, after an empty piece at the front is removed. -/
def dropEmptyFirst (splittedCommand : List JString) : ScriptAction D (JString × List JString) :=
  match splittedCommand with
  | [] => throw .IndexOutOfBoundsException
  | first :: rest =>
    if first = [] then
      match rest with
      | [] => throw .IndexOutOfBoundsException
      | name :: arguments => pure (name, arguments)
    else pure (first, rest)

/-- A command with a route, whose first argument must be the word `Route`. -/
def routeRequest (conn : Connection D) (user : User) (command : CommandList)
    (arguments : List JString) : ScriptAction D (Request D) :=
  if arguments.head? = some (.ofString "Route") then do
    let route ← CreatingNewInstance.createNewRouteInstance conn
    return ⟨command, [.route route], user⟩
  else throw (.WrongCommandException "onlyRoute")

/-- A command with its arguments as they are, of which the first is checked. -/
def argumentsRequest (user : User) (command : CommandList) (check : JString → Bool)
    (message : String) : List JString → ScriptAction D (Request D)
  | [] => throw (.WrongCommandException "wrongCommand")
  | first :: rest =>
    if check first then pure ⟨command, (first :: rest).map .string, user⟩
    else throw (.WrongCommandException message)

def updateRequest (conn : Connection D) (user : User) :
    List JString → ScriptAction D (Request D)
  | [] => throw (.WrongCommandException "wrongCommand")
  | first :: _ =>
    match Integer.parseUnsignedInt first with
    | none => throw (.WrongCommandException "onlyPositiveInt")
    | some id => do
      sendRequest conn ⟨.CHECK_ID, [.integer id], user⟩
      let isIdAvaliable ← getAnswerText conn >>= nonNullText
      if isIdAvaliable = .ofString "TRUE" then
        let route ← CreatingNewInstance.createNewRouteInstance conn
        return ⟨.UPDATE, [.route route, .integer id], user⟩
      else throw (.WrongCommandException "unavailableId")

/-- `nested` is `executeScript` on another file. -/
def createRequest (nested : JString → ScriptAction D Unit) (readable : JString → Bool)
    (conn : Connection D) (command : JString) (user : User) : ScriptAction D (Request D) := do
  let splittedCommand := splitSpaces command
  if command = [] ∨ splittedCommand.length = 0 then throw (.WrongCommandException "emptyInput")
  let (name, arguments) ← dropEmptyFirst splittedCommand
  match CommandList.getCommandList name with
  | .HELP => return ⟨.HELP, [], user⟩
  | .INFO => return ⟨.INFO, [], user⟩
  | .SHOW => return ⟨.SHOW, [], user⟩
  | .ADD => routeRequest conn user .ADD arguments
  | .UPDATE => updateRequest conn user arguments
  | .REMOVE_BY_ID =>
    argumentsRequest user .REMOVE_BY_ID (fun s => (Integer.parseUnsignedInt s).isSome)
      "onlyPositiveInt" arguments
  | .CLEAR => return ⟨.CLEAR, [], user⟩
  | .EXECUTE_SCRIPT =>
    match arguments with
    | [] => throw (.WrongCommandException "wrongCommand")
    | path :: _ =>
      if readable path then
        nested path
        return ⟨.NO_COMMAND, [], user⟩
      else throw (.WrongCommandException "wrongCommand")
  | .EXIT => throw (.WrongCommandException "noExitInScript")
  | .ADD_IF_MAX => routeRequest conn user .ADD_IF_MAX arguments
  | .REMOVE_GREATER => routeRequest conn user .REMOVE_GREATER arguments
  | .REMOVE_LOWER => routeRequest conn user .REMOVE_LOWER arguments
  | .REMOVE_ANY_BY_DISTANCE =>
    argumentsRequest user .REMOVE_ANY_BY_DISTANCE
      (fun s => (Platform.parseDouble (D := D) s).isSome) "correctDistance" arguments
  | .FILTER_CONTAINS_NAME =>
    argumentsRequest user .FILTER_CONTAINS_NAME (fun _ => true) "wrongCommand" arguments
  | .FILTER_STARTS_WITH_NAME =>
    argumentsRequest user .FILTER_STARTS_WITH_NAME (fun _ => true) "wrongCommand" arguments
  | _ => throw (.WrongCommandException "wrongCommand")

/-- What a turn of the loop appends to the answer. -/
def paragraph (text : JString) : JString := text ++ .ofString "\n\n"

/-- The second half of a turn, in the `try` block. -/
def executeCommand (nested : JString → ScriptAction D Unit) (readable : JString → Bool)
    (conn : Connection D) (resources : Resources) (user : User) (inputLine : JString) :
    ScriptAction D JString := do
  let request ← createRequest nested readable conn inputLine user
  if request.command = .NO_COMMAND then return []
  else
    sendRequest conn request
    let answer ← getAnswerText conn >>= nonNullText
    return paragraph (LocaleManager.getString resources answer)

/-- A turn of the loop, which ends it when there is no line. -/
def turn (nested : JString → ScriptAction D Unit) (readable : JString → Bool)
    (conn : Connection D) (resources : Resources) (user : User) :
    ScriptAction D (Option JString) := do
  let s ← get
  match s.lines with
  | [] => return none
  | inputLine :: lines =>
    modify fun s => { s with lines := lines, commands := s.commands ++ [inputLine] }
    let (name, _) ← dropEmptyFirst (splitSpaces inputLine)
    if name = .ofString "execute_script" then
      return some (paragraph (LocaleManager.getString resources (.ofString "noScriptInScript")))
    else
      let text ← tryCatch
        (executeCommand nested readable conn resources user inputLine) fun e =>
          match e with
          | .WrongCommandException message =>
            return paragraph (LocaleManager.getString resources (.ofString message))
          | .IOException | .FileNotFoundException =>
            return paragraph (LocaleManager.getString resources (.ofString "noFileScript"))
          | e => throw e
      return some text

def loop (nested : JString → ScriptAction D Unit) (readable : JString → Bool)
    (conn : Connection D) (resources : Resources) (user : User) :
    ℕ → JString → ScriptAction D JString
  | 0, _ => throw .unfinished
  | n + 1, answer => do
    match ← turn nested readable conn resources user with
    | none => return answer
    | some text => loop nested readable conn resources user n (answer ++ text)

/-- `files` gives the lines of a file that can be opened. Every turn takes a line. -/
def executeScript (nested : JString → ScriptAction D Unit) (files : JString → Option (List JString))
    (conn : Connection D) (resources : Resources) (destination : JString) (user : User) :
    ScriptAction D JString :=
  match files destination with
  | none => throw .FileNotFoundException
  | some lines => do
    modify fun s => { s with lines := lines }
    loop nested (fun path => (files path).isSome) conn resources user (lines.length + 1) []

end CommandWorker

end Itmo.ProgLab8
