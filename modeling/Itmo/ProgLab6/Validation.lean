import Itmo.ProgLab6.RouteIds
import Itmo.ProgLab8.Script

/-! The checks of the creation dialogue of a client against the constructors. The
checker reads a line for a field and says what is wrong with it; the values of eleven
accepted lines go to the constructors, which check once more. Both agree everywhere but
at the lower bound of an x, which the checker lets through. -/

namespace Itmo.ProgLab6

open Lib
open ProgLab8 (JString Throwable Platform Coordinates RouteValues)

variable {D : Type} [Numbers D]

/-! ### The checker -/

inductive RouteFields where
  | R_NAME
  | R_DISTANCE
  | C_X
  | C_Y
  | FL_X
  | FL_Y
  | FL_Z
  | FL_NAME
  | SL_X
  | SL_Y
  | SL_Z
  deriving DecidableEq

/-- Why a line is asked for again. -/
inductive Refusal where
  | NumberFormatException
  | IllegalArgumentException (message : String)

namespace ValuesChecking

/-- A line without any character of a name stands for null. -/
def isInputNull (input : JString) : Bool := (word input).isNone

def nonNullMessage : String := "Значение не может быть null"

/-- A number in the line, with the condition on it and the message when it fails. -/
def checkBounded (condition : D → Bool) (message : String) (text : JString) :
    Except Refusal JString :=
  match Platform.parseDouble (D := D) text with
  | none => .error .NumberFormatException
  | some value => if condition value then .ok text else .error (.IllegalArgumentException message)

def checkCondition (D : Type) [Numbers D] (input : JString) (field : RouteFields) :
    Except Refusal JString :=
  match field with
  | .R_NAME | .FL_NAME =>
    match word input with
    | none => .error (.IllegalArgumentException nonNullMessage)
    | some text => .ok text
  | .R_DISTANCE =>
    match number input with
    | some text => checkBounded (D := D) (Platform.lt (Platform.ofInt 1))
        "Значение должно превышать 1" text
    | none =>
      if isInputNull input then .error (.IllegalArgumentException nonNullMessage)
      else .error .NumberFormatException
  | .C_X =>
    if isInputNull input then .error (.IllegalArgumentException nonNullMessage)
    else match number input with
      | some text => checkBounded (D := D) (Platform.le (Platform.ofInt (-140)))
          "Значение должно превышать -140" text
      | none => .error .NumberFormatException
  | .C_Y | .FL_X | .FL_Y | .FL_Z | .SL_X | .SL_Y | .SL_Z =>
    if isInputNull input then .error (.IllegalArgumentException nonNullMessage)
    else match number input with
      | some text => .ok text
      | none => .error .NumberFormatException

end ValuesChecking

namespace CreatingNewInstance

open ValuesChecking

/-- One turn of the loop for a number. -/
def acceptNumber (field : RouteFields) (line : JString) : Option D :=
  (checkCondition D line field).toOption.bind Platform.parseDouble

def acceptString (D : Type) [Numbers D] (field : RouteFields) (line : JString) :
    Option JString := (checkCondition D line field).toOption

/-- The values of the lines, if each is accepted for its field. -/
def acceptedValues (lines : Lines) : Option (RouteValues D) := do
  let rName ← acceptString D .R_NAME lines.rName
  let rDistance ← acceptNumber .R_DISTANCE lines.rDistance
  let cX ← acceptNumber .C_X lines.cX
  let cY ← acceptNumber .C_Y lines.cY
  let flX ← acceptNumber .FL_X lines.flX
  let flY ← acceptNumber .FL_Y lines.flY
  let flZ ← acceptNumber .FL_Z lines.flZ
  let flName ← acceptString D .FL_NAME lines.flName
  let slX ← acceptNumber .SL_X lines.slX
  let slY ← acceptNumber .SL_Y lines.slY
  let slZ ← acceptNumber .SL_Z lines.slZ
  return { rName, rDistance, cX, cY, flX, flY, flZ, flName, slX, slY, slZ }

/-- The constructors on the values, with the counter of routes. -/
def build (v : RouteValues D) (instances : ℤ) : Except Throwable (Route D × ℤ) := do
  let coordinates ← Coordinates.new v.cX (Numbers.intValue v.cY)
  let from_ ← ProgLab8.First.Location.new v.flX (Numbers.longValue v.flY) v.flZ v.flName
  Route.new v.rName coordinates from_
    ⟨Numbers.intValue v.slX, Numbers.intValue v.slY, Numbers.floatValue v.slZ⟩ v.rDistance
    instances

end CreatingNewInstance

/-! ### What the checker accepts -/

namespace ValuesChecking

theorem word_of_mem {input : JString} {c : UInt16} (hc : c ∈ input) (hname : isNameChar c) :
    ∃ text, word input = some text := by
  unfold word
  cases hdrop : input.dropWhile fun c => !isNameChar c with
  | nil =>
    have hall := List.dropWhile_eq_nil_iff.mp hdrop c hc
    rw [hname] at hall
    cases hall
  | cons d rest =>
    have hd : isNameChar d := by
      have hhead := List.head_dropWhile_not (fun c => !isNameChar c) (l := input)
        (by rw [hdrop]; exact List.cons_ne_nil d rest)
      simp only [hdrop, List.head_cons, Bool.not_eq_false'] at hhead
      exact hhead
    rw [List.takeWhile_cons_of_pos hd]
    exact ⟨_, rfl⟩

/-- A number starts with a digit of the line. -/
theorem digit_of_number {input text : JString} (h : number input = some text) :
    ∃ d ∈ input, isDigit d := by
  have hsub : ∀ c ∈ input.dropWhile isSpace, c ∈ input := fun c hc =>
    (List.dropWhile_sublist isSpace).subset hc
  unfold number at h
  dsimp only at h
  generalize input.dropWhile isSpace = s at h hsub
  have hrest : ∃ minus rest : JString,
      (if [0x2D] <+: s then ([0x2D], s.tail) else ([], s)) = (minus, rest) ∧ ∀ c ∈ rest, c ∈ s := by
    split_ifs with hminus
    · exact ⟨_, _, rfl, fun c hc => List.mem_of_mem_tail hc⟩
    · exact ⟨_, _, rfl, fun c hc => hc⟩
  obtain ⟨minus, rest, hsplit, hmem⟩ := hrest
  rw [hsplit] at h
  cases rest with
  | nil => cases h
  | cons d r =>
    dsimp only at h
    split_ifs at h with hdigit
    exact ⟨d, hsub d (hmem d List.mem_cons_self), hdigit⟩

theorem isInputNull_of_number {input text : JString} (h : number input = some text) :
    isInputNull input = false := by
  obtain ⟨d, hd, hdigit⟩ := digit_of_number h
  have hname : isNameChar d := by
    unfold isNameChar
    rw [hdigit]
    simp
  obtain ⟨text, htext⟩ := word_of_mem hd hname
  unfold isInputNull
  rw [htext]
  rfl

end ValuesChecking

namespace CreatingNewInstance

open ValuesChecking

theorem acceptString_eq {field : RouteFields} (h : field = .R_NAME ∨ field = .FL_NAME)
    (line : JString) : acceptString D field line = inputString line := by
  unfold acceptString inputString
  rcases h with rfl | rfl
  · unfold checkCondition
    cases word line <;> rfl
  · unfold checkCondition
    cases word line <;> rfl

theorem checkBounded_bind (condition : D → Bool) (message : String) (text : JString) :
    (checkBounded condition message text).toOption.bind Platform.parseDouble =
      (Platform.parseDouble text).bind fun value =>
        if condition value then some value else none := by
  unfold checkBounded
  cases hparse : Platform.parseDouble (D := D) text with
  | none => rfl
  | some value =>
    dsimp only [Option.bind_some]
    split_ifs
    · exact hparse
    · rfl

theorem acceptNumber_distance (line : JString) :
    acceptNumber .R_DISTANCE line = inputNumber (D := D) (Platform.lt (Platform.ofInt 1)) line := by
  unfold acceptNumber checkCondition inputNumber
  dsimp only
  cases number line with
  | none =>
    dsimp only
    split_ifs <;> rfl
  | some text => exact checkBounded_bind _ _ text

theorem acceptNumber_x (line : JString) :
    acceptNumber .C_X line = inputNumber (D := D) (Platform.le (Platform.ofInt (-140))) line := by
  unfold acceptNumber checkCondition inputNumber
  dsimp only
  cases hnumber : number line with
  | none =>
    dsimp only
    split_ifs <;> rfl
  | some text =>
    rw [if_neg (by rw [isInputNull_of_number hnumber]; exact Bool.false_ne_true)]
    exact checkBounded_bind _ _ text

/-- The other numbers are under no condition. -/
theorem acceptNumber_free (field : RouteFields)
    (h : field ∈ [.C_Y, .FL_X, .FL_Y, .FL_Z, .SL_X, .SL_Y, .SL_Z]) (line : JString) :
    acceptNumber field line = inputNumber (D := D) (fun _ => true) line := by
  have hcheck : checkCondition D line field =
      if isInputNull line then .error (.IllegalArgumentException nonNullMessage)
      else match number line with
        | some text => .ok text
        | none => .error .NumberFormatException := by
    simp only [List.mem_cons, List.not_mem_nil, or_false] at h
    rcases h with rfl | rfl | rfl | rfl | rfl | rfl | rfl <;> rfl
  unfold acceptNumber inputNumber
  rw [hcheck]
  cases hnumber : number line with
  | none =>
    dsimp only
    split_ifs <;> rfl
  | some text =>
    rw [if_neg (by rw [isInputNull_of_number hnumber]; exact Bool.false_ne_true)]
    show Platform.parseDouble text = (Platform.parseDouble text).bind _
    cases Platform.parseDouble (D := D) text <;> rfl

theorem toOption_bind {α β : Type} (x : Except Throwable α) (f : α → Except Throwable β) :
    (x >>= f).toOption = x.toOption.bind fun a => (f a).toOption := by
  cases x <;> rfl

theorem bind_step {α β γ : Type} {o : Option α} {f : α → Option β} {g : α → Option γ}
    {k : γ → Option β} (h : ∀ a, f a = (g a).bind k) : o.bind f = (o.bind g).bind k := by
  rw [Option.bind_assoc]
  exact congrArg o.bind (funext h)

/-- The dialogue takes the values of the accepted lines to the constructors. -/
theorem createNewRouteInstance_eq (lines : Lines) (instances : ℤ) :
    createNewRouteInstance (D := D) lines instances =
      (acceptedValues lines).bind fun v => (build v instances).toOption := by
  unfold createNewRouteInstance acceptedValues build
  rw [acceptString_eq (.inl rfl), acceptString_eq (.inr rfl), acceptNumber_distance,
    acceptNumber_x, acceptNumber_free .C_Y (by decide), acceptNumber_free .FL_X (by decide),
    acceptNumber_free .FL_Y (by decide), acceptNumber_free .FL_Z (by decide),
    acceptNumber_free .SL_X (by decide), acceptNumber_free .SL_Y (by decide),
    acceptNumber_free .SL_Z (by decide)]
  refine bind_step fun rName => bind_step fun rDistance => bind_step fun cX => bind_step fun cY =>
    bind_step fun flX => bind_step fun flY => bind_step fun flZ => bind_step fun flName =>
    bind_step fun slX => bind_step fun slY => bind_step fun slZ => ?_
  rw [Option.pure_def, Option.bind_some, toOption_bind]
  refine congrArg (Option.bind _) (funext fun coordinates => ?_)
  rw [toOption_bind]
  rfl

/-! ### Accepted values and the constructors -/

/-- What the checker has made sure of. -/
theorem acceptedValues_some {lines : Lines} {v : RouteValues D}
    (h : acceptedValues lines = some v) :
    v.rName ≠ [] ∧ Platform.lt (Platform.ofInt 1) v.rDistance ∧
      Platform.le (Platform.ofInt (-140)) v.cX ∧ v.flName ≠ [] := by
  unfold acceptedValues at h
  rw [acceptString_eq (.inl rfl), acceptString_eq (.inr rfl), acceptNumber_distance,
    acceptNumber_x] at h
  simp only [Option.bind_eq_bind, Option.bind_eq_some_iff] at h
  obtain ⟨rName, hrName, rDistance, hrDistance, cX, hcX, _, -, _, -, _, -, _, -, flName, hflName,
    _, -, _, -, _, -, h⟩ := h
  cases h
  exact ⟨word_ne_nil hrName, inputNumber_condition hrDistance, inputNumber_condition hcX,
    word_ne_nil hflName⟩

/-- A number that is less than another is not at least it. -/
def StrictComparison (D : Type) [Platform D] : Prop :=
  ∀ a b : D, Platform.lt a b → Platform.le b a = false

/-- Neither of two numbers is greater. -/
def sameNumber (a b : D) : Bool := Platform.le a b && Platform.le b a

/-- The constructors take the values of accepted lines unless the x of the coordinates is
the bound itself. -/
theorem build_ok_iff (hstrict : StrictComparison D) {lines : Lines} {v : RouteValues D}
    (h : acceptedValues lines = some v) (instances : ℤ) :
    (∃ made, build v instances = .ok made) ↔ ¬ sameNumber v.cX (Platform.ofInt (-140)) := by
  obtain ⟨hrName, hrDistance, hcX, hflName⟩ := acceptedValues_some h
  have hbound : sameNumber v.cX (Platform.ofInt (-140)) =
      Platform.le v.cX (Platform.ofInt (-140)) := by
    unfold sameNumber
    rw [hcX, Bool.and_true]
  rw [hbound, Bool.not_eq_true]
  constructor
  · rintro ⟨made, hmade⟩
    obtain ⟨coordinates, hcoordinates, -⟩ := bind_ok hmade
    unfold Coordinates.new at hcoordinates
    split_ifs at hcoordinates with hx
    exact hx
  · intro hx
    have hcoordinates : Coordinates.new v.cX (Numbers.intValue v.cY) = .ok ⟨_, _, hx⟩ := dif_pos hx
    have hfrom : ProgLab8.First.Location.new v.flX (Numbers.longValue v.flY) v.flZ v.flName =
        .ok ⟨_, _, _, _, hflName⟩ := dif_pos hflName
    unfold build
    rw [hcoordinates, hfrom]
    exact ⟨_, dif_pos ⟨hrName, hstrict _ _ hrDistance⟩⟩

theorem strictComparison_whole : StrictComparison Whole := by
  intro a b h
  simp only [Platform.lt, Platform.le, decide_eq_true_eq, decide_eq_false_iff_not] at h ⊢
  omega

theorem build_ok_whole : ∃ v made,
    acceptedValues (D := Whole) (linesOf "5") = some v ∧ build v 0 = .ok made := by
  have h : acceptedValues (D := Whole) (linesOf "5") = some _ := rfl
  obtain ⟨made, hmade⟩ := (build_ok_iff strictComparison_whole h 0).mpr (by decide)
  exact ⟨_, made, h, hmade⟩

/-- An x of -140 is accepted and then refused. -/
theorem accepted_not_built : ¬ ∀ (lines : Lines) (v : RouteValues Whole) (instances : ℤ),
    acceptedValues lines = some v → ∃ made, build v instances = .ok made := by
  intro h
  obtain ⟨made, hmade⟩ := h { linesOf "5" with cX := .ofString "-140" } _ 0 rfl
  cases hmade

end CreatingNewInstance

end Itmo.ProgLab6
