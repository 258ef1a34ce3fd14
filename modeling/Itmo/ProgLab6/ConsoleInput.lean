import Itmo.ProgLab6.Validation
import Itmo.ProgLab8.ScriptRuns

/-! What the console programs read: lines that are typed or come from a script, commands
that are the pieces of a line, and the dialogue that takes further lines for the values of
a route. Typed lines are never at an end, the program waits for more; a script ends with
null or, if it cannot be read on, with an exception. -/

namespace Itmo.ProgLab6

open Lib
open ProgLab8 (JString RouteValues splitSpaces)

/-- How a call ends that does not return. `waiting` is a call that waits for a line or for an
answer, and `unfinished` one that the bound on the turns of a loop has cut off. -/
inductive ConsoleException where
  | WrongCommandException (message : String)
  | IOException
  | NumberFormatException
  | NullPointerException
  | IllegalArgumentException
  | IndexOutOfBoundsException
  | NoSuchElementException
  | BufferOverflowException
  | exit
  | waiting
  | unfinished
  deriving DecidableEq

/-- Where lines come from; a broken script cannot be read to its end. -/
inductive Input where
  | console
  | script (broken : Bool)
  deriving DecidableEq

/-- The next line and those behind it, or null. -/
def Input.nextLine (input : Input) :
    List JString → Except ConsoleException (Option (JString × List JString))
  | line :: lines => .ok (some (line, lines))
  | [] =>
    match input with
    | .console => .error .waiting
    | .script false => .ok none
    | .script true => .error .IOException

/-- What the dialogue meets behind the last line, where null is no text to check. -/
def Input.dialogueEnd : Input → ConsoleException
  | console => .waiting
  | script false => .NullPointerException
  | script true => .IOException

def wrongCommand : ConsoleException := .WrongCommandException "Такой команды нет"

/-- The name of the command and its arguments. -/
def splitCommand (command : JString) : Except ConsoleException (JString × List JString) :=
  if command = [] ∨ (splitSpaces command).length = 0 then
    .error (.WrongCommandException "Введена пустая строка")
  else match splitSpaces command with
    | [] => .error .IndexOutOfBoundsException
    | first :: rest =>
      if first = [] then
        match rest with
        | [] => .error .IndexOutOfBoundsException
        | name :: arguments => .ok (name, arguments)
      else .ok (first, rest)

theorem splitCommand_ne_unfinished {command : JString} {e : ConsoleException}
    (h : splitCommand command = .error e) : e ≠ .unfinished := by
  unfold splitCommand at h
  split_ifs at h
  · cases h
    exact ConsoleException.noConfusion
  · split at h
    · cases h
      exact ConsoleException.noConfusion
    · split_ifs at h
      split at h
      · cases h
        exact ConsoleException.noConfusion
      · cases h

variable {D : Type} [Numbers D]

/-- The values of a route, and the lines behind them. -/
def readValues (input : Input) (lines : List JString) :
    Except ConsoleException (RouteValues D × List JString) :=
  match ProgLab8.CreatingNewInstance.readValues.run lines with
  | some values => .ok values
  | none => .error input.dialogueEnd

theorem readValues_of_some {input : Input} {lines : List JString}
    {values : RouteValues D × List JString}
    (h : ProgLab8.CreatingNewInstance.readValues.run lines = some values) :
    readValues input lines = .ok values := by
  unfold readValues
  rw [h]

theorem readValues_of_none {input : Input} {lines : List JString}
    (h : (ProgLab8.CreatingNewInstance.readValues (D := D)).run lines = none) :
    readValues (D := D) input lines = .error input.dialogueEnd := by
  unfold readValues
  rw [h]

/-- What is left are lines at the end. -/
theorem readValues_suffix {input : Input} {lines lines' : List JString} {v : RouteValues D}
    (h : readValues input lines = .ok (v, lines')) : lines' <:+ lines := by
  unfold readValues at h
  split at h
  · next values hrun =>
    cases h
    exact (ProgLab8.CreatingNewInstance.reads_readValues _ _ _ hrun).1
  · cases h

end Itmo.ProgLab6
