import Itmo.ProgLab5.Commands
import Itmo.ProgLab6.ConsoleInput

/-! The interface of the console program. Its constructor counts the level of nesting up,
and the interface of a script starts at level two, where it ends at once. -/

namespace Itmo.ProgLab5

open Lib Action ProgLab6
open ProgLab8 (JString Platform RouteValues)

/-! ### Commands and surroundings -/

inductive Commands where
  | HELP
  | INFO
  | SHOW
  | ADD
  | UPDATE
  | REMOVE_BY_ID
  | CLEAR
  | SAVE
  | EXECUTE_SCRIPT
  | EXIT
  | ADD_IF_MAX
  | REMOVE_GREATER
  | REMOVE_LOWER
  | REMOVE_ANY_BY_DISTANCE
  | FILTER_CONTAINS_NAME
  | FILTER_STARTS_WITH_NAME
  deriving DecidableEq

namespace Commands

/-- The commands with their texts. -/
def texts : List (Commands × String) :=
  [(.HELP, "help"), (.INFO, "info"), (.SHOW, "show"), (.ADD, "add"), (.UPDATE, "update"),
    (.REMOVE_BY_ID, "remove_by_id"), (.CLEAR, "clear"), (.SAVE, "save"),
    (.EXECUTE_SCRIPT, "execute_script"), (.EXIT, "exit"), (.ADD_IF_MAX, "add_if_max"),
    (.REMOVE_GREATER, "remove_greater"), (.REMOVE_LOWER, "remove_lower"),
    (.REMOVE_ANY_BY_DISTANCE, "remove_any_by_distance"),
    (.FILTER_CONTAINS_NAME, "filter_contains_name"),
    (.FILTER_STARTS_WITH_NAME, "filter_starts_with_name")]

/-- The case of the `switch` for a text, or none for its default. -/
def ofText (text : JString) : Option Commands :=
  (texts.find? fun c => text = .ofString c.2).map (·.1)

end Commands

/-- What becomes of the collection in a directory that is typed: the path is asked for again,
the writing fails, or it is saved. -/
inductive Directory where
  | refused
  | ioException
  | saved

/-- The disk, as it is with some number of lines still to come: what a `FileReader` opens, with
its lines, which may be broken behind them; whether the file of the environment takes the
collection; and the directories. -/
structure Disk where
  fileReader : ℕ → JString → Option (List JString × Bool)
  environment : ℕ → Bool
  directory : ℕ → JString → Directory

/-- The program: the lines that are not read yet, the collection, and the static fields of
`Route` and `MainInterface`. -/
structure Console (D : Type) [Numbers D] where
  lines : List JString
  data : List (Route D)
  instances : ℤ
  nestingLevel : ℤ

abbrev ConsoleAction (D : Type) [Numbers D] (α : Type) := Action (Console D) ConsoleException α

variable {D : Type} [Distances D]

/-! ### The interface -/

namespace MainInterface

def nextLine (input : Input) : ConsoleAction D (Option JString) := do
  let s ← get
  match ← ofResult (input.nextLine s.lines) with
  | none => return none
  | some (line, lines) =>
    modify fun s => { s with lines }
    return some line

def createNewRouteInstance (input : Input) : ConsoleAction D (Route D) := do
  let s ← get
  modify fun s => { s with lines := [] }
  let (v, lines) ← ofResult (readValues input s.lines)
  modify fun s => { s with lines }
  match CreatingNewInstance.build v s.instances with
  | .error _ => throw .IllegalArgumentException
  | .ok (route, instances) =>
    modify fun s => { s with instances }
    return route

/-- The text of a number is read for every element up to the one that is found. -/
def position {α : Type} (parsed : Option α) (p : α → Route D → Bool) (data : List (Route D)) :
    Except ConsoleException (Option ℕ) :=
  if data.isEmpty then .ok none
  else match parsed with
    | none => .error .NumberFormatException
    | some a => .ok (data.findIdx? (p a))

def add (input : Input) : ConsoleAction D Unit := do
  let route ← createNewRouteInstance input
  modify fun s => { s with data := s.data ++ [route] }

def update (id : JString) (input : Input) : ConsoleAction D Unit := do
  let s ← get
  match ← ofResult (position (ProgLab8.Integer.decode id) (fun n r => r.id = n) s.data) with
  | none => return
  | some i =>
    let route ← createNewRouteInstance input
    modify fun s => { s with data := s.data.modify i fun r => Commands.updateValues r route }

def removeById (id : JString) : ConsoleAction D Unit := do
  let s ← get
  match ← ofResult (position (ProgLab8.Integer.decode id) (fun n r => r.id = n) s.data) with
  | none => return
  | some i => modify fun s => { s with data := s.data.eraseIdx i }

def clear : ConsoleAction D Unit := modify fun s => { s with data := [] }

/-- Directories are asked for until one takes the collection or fails. -/
def chooseDirectory (disk : Disk) (input : Input) :
    List JString → Except ConsoleException Unit × List JString
  | [] => (.error input.dialogueEnd, [])
  | path :: lines =>
    match disk.directory lines.length path with
    | .refused => chooseDirectory disk input lines
    | .ioException => (.error .IOException, lines)
    | .saved => (.ok (), lines)

def save (disk : Disk) (input : Input) : ConsoleAction D Unit := do
  let s ← get
  if disk.environment s.lines.length then return
  else
    let (result, lines) := chooseDirectory disk input s.lines
    modify fun s => { s with lines }
    ofResult result

/-- The interface of the script starts with the level that its constructor has counted up. -/
def executeScript (disk : Disk) (startMainInterface : Input → ConsoleAction D Unit)
    (fileName : JString) : ConsoleAction D Unit := do
  let s ← get
  match disk.fileReader s.lines.length fileName with
  | none => throw .IOException
  | some (lines, broken) =>
    modify fun s => { s with lines, nestingLevel := s.nestingLevel + 1 }
    startMainInterface (.script broken)
    modify fun s' => { s' with lines := s.lines }

def addIfMax (input : Input) : ConsoleAction D Unit := do
  let toAddIfMax ← createNewRouteInstance input
  let s ← get
  match Commands.max s.data with
  | none => throw .NoSuchElementException
  | some max =>
    if 0 < toAddIfMax.compareTo max then
      modify fun s => { s with data := s.data ++ [toAddIfMax] }

def removeGreater (input : Input) : ConsoleAction D Unit := do
  let forComparison ← createNewRouteInstance input
  modify fun s => { s with data := Commands.removeGreater forComparison s.data }

def removeLower (input : Input) : ConsoleAction D Unit := do
  let forComparison ← createNewRouteInstance input
  modify fun s => { s with data := Commands.removeLower forComparison s.data }

def removeAnyByDistance (dist : JString) : ConsoleAction D Unit := do
  let s ← get
  match ← ofResult (position (Platform.parseDouble dist)
      (fun d r => Distances.near r.distance d) s.data) with
  | none => return
  | some i => modify fun s => { s with data := s.data.eraseIdx i }

/-- A command whose first argument must be there. -/
def withArgument (exec : JString → ConsoleAction D Unit) : List JString → ConsoleAction D Unit
  | [] => throw wrongCommand
  | first :: _ => exec first

/-- A command with a route, whose first argument must be the word `Route`. -/
def withRoute (exec otherwise : ConsoleAction D Unit) (arguments : List JString) :
    ConsoleAction D Unit :=
  if arguments.head? = some (.ofString "Route") then exec else otherwise

def execCommand (disk : Disk) (startMainInterface : Input → ConsoleAction D Unit)
    (command : JString) (input : Input) : ConsoleAction D Unit := do
  let (name, arguments) ← ofResult (splitCommand command)
  match Commands.ofText name with
  | some .HELP | some .INFO | some .SHOW => return
  | some .ADD =>
    withRoute (add input)
      (throw (.WrongCommandException "В коллекцию можно дабовить только объект класса Route"))
      arguments
  | some .UPDATE => withArgument (fun id => update id input) arguments
  | some .REMOVE_BY_ID => withArgument removeById arguments
  | some .CLEAR => clear
  | some .SAVE =>
    tryCatch (save disk input) fun e => if e = .IOException then return else throw e
  | some .EXECUTE_SCRIPT => withArgument (executeScript disk startMainInterface) arguments
  | some .EXIT => throw .exit
  | some .ADD_IF_MAX => withRoute (addIfMax input) (return) arguments
  | some .REMOVE_GREATER => withRoute (removeGreater input) (return) arguments
  | some .REMOVE_LOWER => withRoute (removeLower input) (return) arguments
  | some .REMOVE_ANY_BY_DISTANCE => withArgument removeAnyByDistance arguments
  | some .FILTER_CONTAINS_NAME => withArgument (fun _ => return) arguments
  | some .FILTER_STARTS_WITH_NAME => withArgument (fun _ => return) arguments
  | none => throw wrongCommand

/-- What a turn of the loop catches. -/
def caught : ConsoleException → Bool
  | .WrongCommandException _ => true
  | .NumberFormatException => true
  | .IOException => true
  | _ => false

/-- A turn of the loop, and whether another one follows. -/
def turn (disk : Disk) (startMainInterface : Input → ConsoleAction D Unit) (input : Input) :
    ConsoleAction D Bool := do
  let line ← tryCatch (some <$> nextLine input) fun e =>
    if e = .IOException then return none else throw e
  match line with
  | none | some none =>
    modify fun s => { s with nestingLevel := s.nestingLevel - 1 }
    return false
  | some (some inputLine) =>
    tryCatch ((fun _ => true) <$> execCommand disk startMainInterface inputLine input) fun e =>
      if caught e then return true else throw e

/-- At most `n` turns, of which every one but the last takes a line. -/
def loop (disk : Disk) (startMainInterface : Input → ConsoleAction D Unit) (input : Input) :
    ℕ → ConsoleAction D Unit
  | 0 => throw .unfinished
  | n + 1 => do
    if ← turn disk startMainInterface input then loop disk startMainInterface input n

/-- An interface under which scripts may nest down to a depth. -/
def startMainInterface (disk : Disk) : ℕ → Input → ConsoleAction D Unit
  | 0, _ => throw .unfinished
  | depth + 1, input => do
    let s ← get
    if s.nestingLevel = 2 then modify fun s => { s with nestingLevel := s.nestingLevel - 1 }
    else loop disk (startMainInterface disk depth) input (s.lines.length + 1)

end MainInterface

end Itmo.ProgLab5
