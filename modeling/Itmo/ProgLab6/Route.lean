import Itmo.ProgLab6.Numbers
import Itmo.ProgLab8.Route

/-! Routes of the first server, whose positions are those of the later one. A route
takes its id from a counter of the process it is made in; one that is read from the
file brings its id along and must be ahead of that counter. A client makes a route
from eleven lines, and asks again for a line that a pattern does not find a value
in. -/

namespace Itmo.ProgLab6

open Lib ProgLab8

variable {D : Type} [Numbers D]

/-- A route; its creation date is only shown. -/
structure Route (D : Type) [Numbers D] where
  id : ℤ
  name : JString
  coordinates : Coordinates D
  from_ : First.Location D
  to_ : Second.Location D
  distance : D
  validName : name ≠ []
  validDistance : Platform.le distance (Platform.ofInt 1) = false

instance [DecidableEq D] : DecidableEq (Route D) := fun r r' =>
  decidable_of_iff (r.id = r'.id ∧ r.name = r'.name ∧ r.coordinates = r'.coordinates ∧
      r.from_ = r'.from_ ∧ r.to_ = r'.to_ ∧ r.distance = r'.distance) <| by
    cases r
    cases r'
    simp

/-- A reference that is used; null is an exception. -/
def nonNull {α : Type} : Option α → Except Throwable α
  | some a => .ok a
  | none => .error .NullPointerException

theorem nonNull_ok {α : Type} {o : Option α} {a : α} (h : nonNull o = .ok a) : o = some a := by
  cases o with
  | none => cases h
  | some b =>
    cases h
    rfl

/-- `instances + 1` of an `int`. -/
def nextId (instances : ℤ) : ℤ := Int.bmod (instances + 1) (2 ^ 32)

namespace Route

/-- The constructor without an id, with the counter before and after it. -/
def new (name : JString) (coordinates : Coordinates D) (from_ : First.Location D)
    (to_ : Second.Location D) (distance : D) (instances : ℤ) : Except Throwable (Route D × ℤ) :=
  if h : name ≠ [] ∧ Platform.le distance (Platform.ofInt 1) = false then
    .ok ({ id := nextId instances, name, coordinates, from_, to_, distance,
           validName := h.1, validDistance := h.2 }, nextId instances)
  else .error .IllegalArgumentException

/-- The constructor with an id; the name may be null. -/
def withId (name : Option JString) (coordinates : Coordinates D) (from_ : First.Location D)
    (to_ : Second.Location D) (distance : D) (id instances : ℤ) :
    Except Throwable (Route D × ℤ) :=
  match name with
  | none => .error .IllegalArgumentException
  | some name =>
    if h : name ≠ [] ∧ Platform.le distance (Platform.ofInt 1) = false then
      if id ≤ instances then .error .IllegalArgumentException
      else .ok ({ id, name, coordinates, from_, to_, distance,
                  validName := h.1, validDistance := h.2 }, id)
    else .error .IllegalArgumentException

def compareTo (a b : Route D) : ℤ :=
  thenCompare (compareDouble a.distance b.distance) <|
    thenCompare (a.coordinates.compareTo b.coordinates) <|
      thenCompare (a.from_.compareTo b.from_) <|
        thenCompare (a.to_.compareTo b.to_) (a.name.compareTo b.name)

/-- A route can be made again from its own values. -/
theorem new_self (r : Route D) (instances : ℤ) :
    new r.name r.coordinates r.from_ r.to_ r.distance instances =
      .ok ({ r with id := nextId instances }, nextId instances) :=
  dif_pos ⟨r.validName, r.validDistance⟩

theorem withId_self (r : Route D) (instances : ℤ) :
    withId (some r.name) r.coordinates r.from_ r.to_ r.distance r.id instances =
      if r.id ≤ instances then .error .IllegalArgumentException else .ok (r, r.id) :=
  dif_pos ⟨r.validName, r.validDistance⟩

theorem withId_ok {name : Option JString} {coordinates : Coordinates D} {from_ : First.Location D}
    {to_ : Second.Location D} {distance : D} {id instances instances' : ℤ} {r : Route D}
    (h : withId name coordinates from_ to_ distance id instances = .ok (r, instances')) :
    name = some r.name ∧ r.coordinates = coordinates ∧ r.from_ = from_ ∧ r.to_ = to_ ∧
      r.distance = distance ∧ r.id = id ∧ instances < id ∧ instances' = id := by
  cases name with
  | none => cases h
  | some name =>
    unfold withId at h
    dsimp only at h
    split_ifs at h with hvalid hid
    cases h
    exact ⟨rfl, rfl, rfl, rfl, rfl, rfl, not_le.mp hid, rfl⟩

end Route

/-! ### The input of a client -/

/-- The white space of patterns. -/
def isSpace (c : UInt16) : Bool := c = 0x20 || 0x09 ≤ c && c ≤ 0x0D

/-- The class `[a-z0-9A-Z.-]`. -/
def isNameChar (c : UInt16) : Bool :=
  0x61 ≤ c && c ≤ 0x7A || isDigit c || 0x41 ≤ c && c ≤ 0x5A || c = 0x2E || c = 0x2D

namespace ValuesChecking

/-- What the pattern of names finds: the first run of its characters. -/
def word (input : JString) : Option JString :=
  match (input.dropWhile fun c => !isNameChar c).takeWhile isNameChar with
  | [] => none
  | c :: s => some (c :: s)

theorem word_ne_nil {input text : JString} (h : word input = some text) : text ≠ [] := by
  unfold word at h
  split at h
  · cases h
  · cases h
    exact List.cons_ne_nil _ _

/-- What follows the first digit of a number: digits, and points before a digit. -/
def numberTail : JString → JString
  | [] => []
  | c :: s =>
    if isDigit c then c :: numberTail s
    else match s with
      | [] => []
      | d :: _ => if c = 0x2E ∧ isDigit d then c :: numberTail s else []

/-- What the pattern of numbers finds at the start of a line. -/
def number (input : JString) : Option JString :=
  let s := input.dropWhile isSpace
  let (minus, rest) := if [0x2D] <+: s then ([0x2D], s.tail) else ([], s)
  match rest with
  | [] => none
  | d :: r => if isDigit d then some (minus ++ d :: numberTail r) else none

end ValuesChecking

/-- The lines a client is asked for. -/
structure Lines where
  rName : JString
  rDistance : JString
  cX : JString
  cY : JString
  flX : JString
  flY : JString
  flZ : JString
  flName : JString
  slX : JString
  slY : JString
  slZ : JString

namespace CreatingNewInstance

def inputString (line : JString) : Option JString := ValuesChecking.word line

/-- A number with its condition; without a value the line is asked for again. -/
def inputNumber (condition : D → Bool) (line : JString) : Option D := do
  let text ← ValuesChecking.number line
  let value ← Platform.parseDouble text
  if condition value then some value else none

theorem inputNumber_condition {condition : D → Bool} {line : JString} {x : D}
    (h : inputNumber condition line = some x) : condition x := by
  unfold inputNumber at h
  obtain ⟨text, -, h⟩ := Option.bind_eq_some_iff.mp h
  obtain ⟨value, -, h⟩ := Option.bind_eq_some_iff.mp h
  split_ifs at h with hvalue
  cases h
  exact hvalue

/-- The route of the lines and the counter after it, if all lines are accepted and
no constructor refuses their values. -/
def createNewRouteInstance (lines : Lines) (instances : ℤ) : Option (Route D × ℤ) := do
  let rName ← inputString lines.rName
  let rDistance : D ← inputNumber (Platform.lt (Platform.ofInt 1)) lines.rDistance
  let cX : D ← inputNumber (Platform.le (Platform.ofInt (-140))) lines.cX
  let cY : D ← inputNumber (fun _ => true) lines.cY
  let flX : D ← inputNumber (fun _ => true) lines.flX
  let flY : D ← inputNumber (fun _ => true) lines.flY
  let flZ : D ← inputNumber (fun _ => true) lines.flZ
  let flName ← inputString lines.flName
  let slX : D ← inputNumber (fun _ => true) lines.slX
  let slY : D ← inputNumber (fun _ => true) lines.slY
  let slZ : D ← inputNumber (fun _ => true) lines.slZ
  let coordinates ← (Coordinates.new cX (Numbers.intValue cY)).toOption
  let from_ ← (First.Location.new flX (Numbers.longValue flY) flZ flName).toOption
  let to_ := ⟨Numbers.intValue slX, Numbers.intValue slY, Numbers.floatValue slZ⟩
  (Route.new rName coordinates from_ to_ rDistance instances).toOption

end CreatingNewInstance

end Itmo.ProgLab6
