import Itmo.ProgLab6.Parsing
import Mathlib.Data.List.Sort

/-! Loading the collection. A route is taken from the tree field by field and made
with the constructor that wants its id ahead of the counter; an object that is not
there or a value that a constructor refuses drops the route. Every route of the
server comes back, with the ids in order, exactly when no name has the letters
`null` in it, no number is written with an exponent or as infinity, and every id is
greater than the one before. -/

namespace Itmo.ProgLab6

open Lib ProgLab8

variable {D : Type} [Numbers D]

/-! ### The source -/

/-- `asMap().get(name)`, with the last value that was put under the name, for an
object of which a method is called. -/
def Parsed.get (parsed : Parsed D) (name : String) : Except Throwable (Parsed D) := do
  let m ← nonNull parsed.asMap
  nonNull (m.reverse.lookup (.ofString name))

def Parsed.getNumber (parsed : Parsed D) (name : String) : Except Throwable D := do
  nonNull (← parsed.get name).asNumber

/-- The constructor of a location, whose name may be null. -/
def First.Location.newOrNull (x : D) (y : ℤ) (z : D) (name : Option JString) :
    Except Throwable (First.Location D) :=
  match name with
  | none => .error .IllegalArgumentException
  | some name => First.Location.new x y z name

def extractRouteObject (parsed : Parsed D) (instances : ℤ) : Except Throwable (Route D × ℤ) := do
  let route ← parsed.get "Route"
  let c ← route.get "coordinates"
  let coordinates ← Coordinates.new (← c.getNumber "x") (Numbers.intValue (← c.getNumber "y"))
  let l ← (← route.get "first_location").get "Location"
  let from_ ← First.Location.newOrNull (← l.getNumber "x")
    (Numbers.longValue (← l.getNumber "y")) (← l.getNumber "z") (← l.get "name").asString
  let l ← (← route.get "second_location").get "Location"
  let to_ : Second.Location D := ⟨Numbers.intValue (← l.getNumber "x"),
    Numbers.intValue (← l.getNumber "y"), Numbers.floatValue (← l.getNumber "z")⟩
  let id := Numbers.intValue (← route.getNumber "id")
  Route.withId (← route.get "name").asString coordinates from_ to_
    (← route.getNumber "distance") id instances

/-- The loop of `convertToListRoute`; both exceptions of the extraction are caught. -/
def convertRoutes : List (Parsed D) → ℤ → List (Route D)
  | [], _ => []
  | parsed :: rest, instances =>
    match extractRouteObject parsed instances with
    | .ok (route, instances) => route :: convertRoutes rest instances
    | .error _ => convertRoutes rest instances

def convertToListRoute (parsed : Parsed D) (instances : ℤ) : Except Throwable (List (Route D)) := do
  let l ← nonNull parsed.asList
  return (convertRoutes l instances).insertionSort fun a b => a.id ≤ b.id

/-- What a fresh process reads from the text of the file. -/
def load (text : JString) : Except Throwable (List (Route D)) := do
  convertToListRoute (← parseFile text) 0

/-! ### Scalars -/

theorem endsIn_of_wordy {s : JString} (h : Wordy s) {c : UInt16} (hc : isPlain c = false) :
    endsIn c s = false := by
  apply endsIn_eq_false
  rintro d hlast rfl
  rw [(h d (List.mem_of_getLast? hlast)).1] at hc
  cases hc

theorem decode_wordy {s : JString} (h : Wordy s) :
    (Json.scalar s).decode = parseObject (D := D) s := by
  unfold Json.decode
  rw [endsIn_of_wordy h (by decide), endsIn_of_wordy h (by decide)]
  rfl

theorem decode_quoted (x : JString) :
    (Json.scalar (quoted x)).decode = parseObject (D := D) (quoted x) := by
  unfold Json.decode
  rw [endsIn_quoted x (by decide), endsIn_quoted x (by decide)]
  rfl

theorem findQuoted_eq_none {s : JString} (h : ∀ c ∈ s, c ≠ 0x22) : findQuoted s = none := by
  induction s with
  | nil => rfl
  | cons c s ih =>
    rw [List.forall_mem_cons] at h
    have hat : quotedAt (c :: s) = none := by simp [quotedAt, h.1]
    rw [findQuoted, hat, ih h.2]
    rfl

/-- The digits at the start of a text, and the digits behind a point after them. -/
theorem numberAt_digits (negative : Bool) {ds : List (Fin 10)} (hds : ds ≠ []) {rest : JString}
    (hrest : ∀ c ∈ rest.head?, isDigit c = false) :
    numberAt (sign negative ++ ds.map digit ++ rest) =
      some (sign negative ++ ds.map digit ++
        if [0x2E] <+: rest then 0x2E :: rest.tail.takeWhile isDigit else []) := by
  have hall : ∀ c ∈ ds.map digit, isDigit c = true := by
    intro c hc
    obtain ⟨d, -, rfl⟩ := List.mem_map.mp hc
    exact isDigit_digit d
  have hstop : rest.takeWhile isDigit = [] ∧ rest.dropWhile isDigit = rest := by
    cases rest with
    | nil => exact ⟨rfl, rfl⟩
    | cons c rest => simp [hrest c rfl]
  have htake : (ds.map digit ++ rest).takeWhile isDigit = ds.map digit := by
    rw [List.takeWhile_append_of_pos hall, hstop.1, List.append_nil]
  have hdrop : (ds.map digit ++ rest).dropWhile isDigit = rest := by
    rw [List.dropWhile_append_of_pos hall, hstop.2]
  cases ds with
  | nil => exact absurd rfl hds
  | cons d ds =>
    cases negative with
    | true =>
      unfold numberAt
      have hminus : [0x2D] <+: sign true ++ (d :: ds).map digit ++ rest := ⟨_, rfl⟩
      rw [if_pos hminus]
      have htail : (sign true ++ (d :: ds).map digit ++ rest).tail =
          (d :: ds).map digit ++ rest := rfl
      dsimp only
      rw [htail, htake, hdrop]
      rfl
    | false =>
      unfold numberAt
      have hminus : ¬ [0x2D] <+: sign false ++ (d :: ds).map digit ++ rest := by
        rintro ⟨t, ht⟩
        exact digit_ne (by decide) d (List.cons.inj ht).1.symm
      rw [if_neg hminus]
      have hempty : sign false ++ (d :: ds).map digit ++ rest = (d :: ds).map digit ++ rest := rfl
      dsimp only
      rw [hempty, htake, hdrop]
      rfl

theorem findNumber_of_numberAt {s t : JString} (h : numberAt s = some t) :
    findNumber s = some t := by
  cases s with
  | nil => cases h
  | cons c s =>
    rw [findNumber, h]
    rfl

/-- A decimal is found in front of anything that is not a digit. -/
theorem findNumber_decimal (d : Decimal) {rest : JString}
    (hrest : ∀ c ∈ rest.head?, isDigit c = false) : findNumber (d.text ++ rest) = some d.text := by
  apply findNumber_of_numberAt
  have hstop : rest.takeWhile isDigit = [] := by
    cases rest with
    | nil => rfl
    | cons c rest => simp [hrest c rfl]
  have hfrac : (d.frac.map digit ++ rest).takeWhile isDigit = d.frac.map digit := by
    rw [List.takeWhile_append_of_pos, hstop, List.append_nil]
    intro c hc
    obtain ⟨d, -, rfl⟩ := List.mem_map.mp hc
    exact isDigit_digit d
  have hshape : d.text ++ rest =
      sign d.negative ++ d.int.map digit ++ (0x2E :: (d.frac.map digit ++ rest)) := by
    simp [Decimal.text]
  rw [hshape, numberAt_digits d.negative d.int_ne (by simp [isDigit]), if_pos ⟨_, rfl⟩,
    List.tail_cons, hfrac]
  rfl

theorem findNumber_toString (n : ℤ) :
    findNumber (Integer.toString n) = some (Integer.toString n) := by
  apply findNumber_of_numberAt
  have hstop : ∀ c ∈ ([] : JString).head?, isDigit c = false := by simp
  have hnumber := numberAt_digits (n < 0) (decimal_ne_nil n.natAbs) hstop
  rw [List.append_nil] at hnumber
  rw [Integer.toString, hnumber, if_neg (by decide), List.append_nil]

/-- The text of a number is read as the first number in it. -/
theorem decode_units {s : JString} (hs : s ⊆ numberUnits) :
    (Json.scalar s).decode (D := D) = match findNumber s with
      | some text => match Platform.parseDouble text with
        | some x => .ok (.number x)
        | none => .error .NumberFormatException
      | none => .ok .object := by
  have hwordy := wordy_of_subset hs
  have hnull : ¬ JString.ofString "null" <:+: s := by
    intro hnull
    have hu : (0x75 : UInt16) ∈ numberUnits := hs (hnull.subset (by decide))
    revert hu
    decide
  rw [decode_wordy hwordy]
  unfold parseObject
  rw [if_neg hnull]
  cases hquoted : findQuoted s with
  | some x =>
    rw [findQuoted_eq_none fun c hc => (hwordy c hc).2.1] at hquoted
    cases hquoted
  | none => rfl

theorem decode_number {s t : JString} {x : D} (hs : s ⊆ numberUnits) (ht : findNumber s = some t)
    (hx : Platform.parseDouble t = some x) : (Json.scalar s).decode = .ok (.number x) := by
  rw [decode_units hs, ht]
  dsimp only
  rw [hx]

/-- The reader finds the digits of a form and stops at an exponent. -/
theorem findNumber_form (form : Form) : findNumber form.text = match form with
    | .plain d => some d.text
    | .scientific m _ => some m.text
    | .infinity _ => none
    | .nan => none := by
  cases form with
  | plain d =>
    have hstop : ∀ c ∈ ([] : JString).head?, isDigit c = false := by simp
    have hfind := findNumber_decimal d hstop
    rwa [List.append_nil] at hfind
  | scientific m e => exact findNumber_decimal m (by simp [isDigit])
  | infinity negative => cases negative <;> rfl
  | nan => rfl

/-- A value comes back from a form without an exponent, and only from one. -/
theorem decode_text {form : Form} {p : D → Prop}
    (hplain : ∀ d, form = .plain d → ∃ y, Platform.parseDouble d.text = some y ∧ p y)
    (hmantissa : ∀ m e, form = .scientific m e →
      ∃ y, Platform.parseDouble m.text = some y ∧ ¬ p y) :
    ∃ o : Parsed D, (Json.scalar form.text).decode = .ok o ∧
      ((∃ y, o.asNumber = some y ∧ p y) ↔ form.Plain) := by
  have hunits := form_subset form
  have hfind := findNumber_form form
  have hword : findNumber form.text = none → ¬ form.Plain →
      ∃ o : Parsed D, (Json.scalar form.text).decode = .ok o ∧
        ((∃ y, o.asNumber = some y ∧ p y) ↔ form.Plain) := by
    intro hnone hform
    refine ⟨.object, ?_, iff_of_false (by simp [Parsed.asNumber]) hform⟩
    rw [decode_units hunits, hnone]
  cases form with
  | plain d =>
    obtain ⟨y, hparse, hy⟩ := hplain d rfl
    exact ⟨.number y, decode_number hunits hfind hparse, iff_of_true ⟨y, rfl, hy⟩ trivial⟩
  | scientific m e =>
    obtain ⟨y, hparse, hy⟩ := hmantissa m e rfl
    refine ⟨.number y, decode_number hunits hfind hparse, iff_of_false ?_ id⟩
    rintro ⟨z, hz, hp⟩
    exact hy (Option.some.inj hz ▸ hp)
  | infinity negative => exact hword hfind id
  | nan => exact hword hfind id

theorem decode_form (x : D) : ∃ o : Parsed D, (Json.scalar (Numbers.form x).text).decode = .ok o ∧
    (o.asNumber = some x ↔ (Numbers.form x).Plain) := by
  have hparse : ∀ d, Numbers.form x = .plain d → ∃ y, Platform.parseDouble d.text = some y ∧ y = x :=
    fun d hform => ⟨x, Numbers.parse_plain x d hform, rfl⟩
  obtain ⟨o, ho, hplain⟩ := decode_text hparse (Numbers.parse_mantissa x)
  refine ⟨o, ho, Iff.trans ?_ hplain⟩
  simp

/-- A `float` is read as a `double` first. -/
theorem decode_floatForm (x : D) :
    ∃ o : Parsed D, (Json.scalar (Numbers.floatForm (Numbers.floatValue x)).text).decode = .ok o ∧
      (o.asNumber.map Numbers.floatValue = some (Numbers.floatValue x) ↔
        (Numbers.floatForm (Numbers.floatValue x)).Plain) := by
  obtain ⟨o, ho, hplain⟩ := decode_text (p := fun y : D => Numbers.floatValue y = Numbers.floatValue x)
    (Numbers.parse_floatPlain x) (Numbers.parse_floatMantissa x)
  exact ⟨o, ho, Option.map_eq_some_iff.trans hplain⟩

theorem decode_int {n : ℤ} (hl : -2 ^ 31 ≤ n) (hu : n < 2 ^ 31) :
    ∃ y : D, (Json.scalar (Integer.toString n)).decode = .ok (.number y) ∧
      Numbers.intValue y = n := by
  obtain ⟨y, hparse, hy⟩ := Numbers.parse_int (D := D) n hl hu
  exact ⟨y, decode_number (toString_subset n) (findNumber_toString n) hparse, hy⟩

theorem decode_long (x : D) :
    ∃ y : D, (Json.scalar (Integer.toString (Numbers.longValue x))).decode = .ok (.number y) ∧
      Numbers.longValue y = Numbers.longValue x := by
  obtain ⟨y, hparse, hy⟩ := Numbers.parse_long x
  exact ⟨y, decode_number (toString_subset _) (findNumber_toString _) hparse, hy⟩

theorem null_infix_quoted (x : JString) :
    JString.ofString "null" <:+: quoted x ↔ JString.ofString "null" <:+: x := by
  have hletters : JString.ofString "null" = [0x6E, 0x75, 0x6C, 0x6C] := by decide
  unfold quoted
  rw [hletters, List.cons_append, List.infix_cons_iff, List.infix_concat_iff]
  constructor
  · rintro (⟨t, ht⟩ | ⟨s, hs⟩ | hx)
    · cases (List.cons.inj ht).1
    · have hlast := congrArg List.getLast? hs
      simp at hlast
    · exact hx
  · exact fun hx => Or.inr (Or.inr hx)

theorem isTerminator_eq_false {c : UInt16} (h : isNameChar c = true) : isTerminator c = false := by
  have hne : ∀ d, isNameChar d = false → c ≠ d := by
    rintro d hd rfl
    rw [hd] at h
    cases h
  simp [isTerminator, isLineEnd, hne 0x0A (by decide), hne 0x0D (by decide),
    hne 0x85 (by decide), hne 0x2028 (by decide), hne 0x2029 (by decide)]

theorem findQuoted_quoted {x : JString} (h : ∀ c ∈ x, isNameChar c = true) :
    findQuoted (quoted x) = some x := by
  have hline : (x ++ [0x22]).takeWhile (fun c => !isTerminator c) = x ++ [0x22] := by
    rw [List.takeWhile_eq_self_iff]
    intro c hc
    rcases List.mem_append.mp hc with hc | hc
    · rw [isTerminator_eq_false (h c hc)]
      rfl
    · rw [List.mem_singleton.mp hc]
      decide
  have hat : quotedAt (quoted x) = some x := by
    unfold quoted quotedAt
    rw [List.cons_append]
    dsimp only
    rw [if_pos rfl, hline]
    simp
  unfold quoted at hat ⊢
  rw [List.cons_append] at hat ⊢
  rw [findQuoted, hat]
  rfl

/-- A name comes back if the letters of null are not in it. -/
theorem decode_name {x : JString} (h : ∀ c ∈ x, isNameChar c = true) :
    (Json.scalar (quoted x)).decode (D := D) =
      .ok (if JString.ofString "null" <:+: x then .null else .string x) := by
  have hnull := null_infix_quoted x
  have hfind := findQuoted_quoted h
  rw [decode_quoted]
  unfold parseObject
  by_cases hx : JString.ofString "null" <:+: x
  · rw [if_pos (hnull.mpr hx), if_pos hx]
  · rw [if_neg (mt hnull.mp hx), if_neg hx, hfind]

/-! ### One route -/

/-- What the values of a route on the server have in common: a client typed them. -/
structure Route.Entered (r : Route D) : Prop where
  named : r.Named
  id : -2 ^ 31 ≤ r.id ∧ r.id < 2 ^ 31
  coordinates : ∃ d : D, r.coordinates.y = Numbers.intValue d
  from_ : ∃ d : D, r.from_.y = Numbers.longValue d
  to_ : ∃ d e f : D, r.to_ = ⟨Numbers.intValue d, Numbers.intValue e, Numbers.floatValue f⟩

/-- The names and numbers that the reader of the file reads as they are. -/
structure Route.Readable (r : Route D) : Prop where
  name : ¬ JString.ofString "null" <:+: r.name
  fromName : ¬ JString.ofString "null" <:+: r.from_.name
  x : (Numbers.form r.coordinates.x).Plain
  fromX : (Numbers.form r.from_.x).Plain
  fromZ : (Numbers.form r.from_.z).Plain
  toZ : (Numbers.floatForm r.to_.z).Plain
  distance : (Numbers.form r.distance).Plain

theorem Route.readable_iff (r : Route D) :
    r.Readable ↔ ¬ JString.ofString "null" <:+: r.name ∧
      ¬ JString.ofString "null" <:+: r.from_.name ∧ (Numbers.form r.coordinates.x).Plain ∧
      (Numbers.form r.from_.x).Plain ∧ (Numbers.form r.from_.z).Plain ∧
      (Numbers.floatForm r.to_.z).Plain ∧ (Numbers.form r.distance).Plain :=
  ⟨fun ⟨h₁, h₂, h₃, h₄, h₅, h₆, h₇⟩ => ⟨h₁, h₂, h₃, h₄, h₅, h₆, h₇⟩,
    fun ⟨h₁, h₂, h₃, h₄, h₅, h₆, h₇⟩ => ⟨h₁, h₂, h₃, h₄, h₅, h₆, h₇⟩⟩

instance (r : Route D) : Decidable r.Readable := decidable_of_iff _ r.readable_iff.symm

theorem Coordinates.new_ok {x : D} {y : ℤ} {c : Coordinates D} (h : Coordinates.new x y = .ok c) :
    c.x = x ∧ c.y = y := by
  unfold Coordinates.new at h
  split_ifs at h
  cases h
  exact ⟨rfl, rfl⟩

omit [Numbers D] in
theorem First.Location.newOrNull_ok {x : D} {y : ℤ} {z : D} {name : Option JString}
    {l : First.Location D} (h : First.Location.newOrNull x y z name = .ok l) :
    l.x = x ∧ l.y = y ∧ l.z = z ∧ name = some l.name := by
  cases name with
  | none => cases h
  | some name =>
    unfold First.Location.newOrNull First.Location.new at h
    dsimp only at h
    split_ifs at h
    cases h
    exact ⟨rfl, rfl, rfl, rfl⟩

theorem Coordinates.new_self (c : Coordinates D) : Coordinates.new c.x c.y = .ok c :=
  dif_pos c.valid

omit [Numbers D] in
theorem First.Location.newOrNull_self (l : First.Location D) :
    First.Location.newOrNull l.x l.y l.z (some l.name) = .ok l :=
  dif_pos l.valid

/-- What the scalars of a route are read as. -/
structure Scalars (D : Type) where
  id : Parsed D
  name : Parsed D
  x : Parsed D
  y : Parsed D
  distance : Parsed D
  fromX : Parsed D
  fromY : Parsed D
  fromZ : Parsed D
  fromName : Parsed D
  toX : Parsed D
  toY : Parsed D
  toZ : Parsed D

def Scalars.tree (p : Scalars D) : List (JString × Parsed D) :=
  [(.ofString "Route", .map
    [(.ofString "id", p.id), (.ofString "name", p.name),
      (.ofString "coordinates", .map [(.ofString "x", p.x), (.ofString "y", p.y)]),
      (.ofString "distance", p.distance),
      (.ofString "first_location", .map [(.ofString "Location", .map
        [(.ofString "x", p.fromX), (.ofString "y", p.fromY), (.ofString "z", p.fromZ),
          (.ofString "name", p.fromName)])]),
      (.ofString "second_location", .map [(.ofString "Location", .map
        [(.ofString "x", p.toX), (.ofString "y", p.toY), (.ofString "z", p.toZ)])])])]

/-- Integers come back; names and other numbers do when they are readable. -/
structure Scalars.Of (p : Scalars D) (r : Route D) : Prop where
  id : ∃ v, p.id.asNumber = some v ∧ Numbers.intValue v = r.id
  name : p.name.asString = some r.name ↔ ¬ JString.ofString "null" <:+: r.name
  x : p.x.asNumber = some r.coordinates.x ↔ (Numbers.form r.coordinates.x).Plain
  y : ∃ v, p.y.asNumber = some v ∧ Numbers.intValue v = r.coordinates.y
  distance : p.distance.asNumber = some r.distance ↔ (Numbers.form r.distance).Plain
  fromX : p.fromX.asNumber = some r.from_.x ↔ (Numbers.form r.from_.x).Plain
  fromY : ∃ v, p.fromY.asNumber = some v ∧ Numbers.longValue v = r.from_.y
  fromZ : p.fromZ.asNumber = some r.from_.z ↔ (Numbers.form r.from_.z).Plain
  fromName : p.fromName.asString = some r.from_.name ↔
    ¬ JString.ofString "null" <:+: r.from_.name
  toX : ∃ v, p.toX.asNumber = some v ∧ Numbers.intValue v = r.to_.x
  toY : ∃ v, p.toY.asNumber = some v ∧ Numbers.intValue v = r.to_.y
  toZ : p.toZ.asNumber.map Numbers.floatValue = some r.to_.z ↔ (Numbers.floatForm r.to_.z).Plain

theorem decode_object {l : List (String × Json)} {m : List (JString × Parsed D)}
    (h : (Fields.ofList l).decode = .ok m) : (Json.object (.ofList l)).decode = .ok (.map m) := by
  rw [Json.decode, h]
  rfl

theorem decode_cons {name : String} {value : Json} {o : Parsed D} {l : List (String × Json)}
    {m : List (JString × Parsed D)} (hvalue : value.decode = .ok o)
    (hl : (Fields.ofList l).decode = .ok m)
    (hname : parseString (key (.ofString name)) = .ofString name) :
    (Fields.ofList ((name, value) :: l)).decode = .ok ((.ofString name, o) :: m) := by
  rw [Fields.ofList, Fields.decode, hvalue, hl, hname]
  rfl

theorem decode_nil : (Fields.ofList []).decode (D := D) = .ok [] := rfl

/-- The tree of a route that a client has typed. -/
theorem decode_route {r : Route D} (h : r.Entered) :
    ∃ p : Scalars D, p.Of r ∧ r.json.decode = .ok (.map p.tree) := by
  obtain ⟨⟨hname, hfromName⟩, hid, ⟨dy, hy⟩, ⟨dl, hl⟩, ⟨d, e, f, hto⟩⟩ := h
  obtain ⟨id, hid, hid'⟩ := decode_int (D := D) hid.1 hid.2
  have hbounds := Numbers.intValue_bounds (D := D)
  obtain ⟨y, hyd, hy'⟩ := decode_int (D := D) (hbounds dy).1 (hbounds dy).2
  obtain ⟨fromY, hld, hl'⟩ := decode_long dl
  obtain ⟨toX, hxd, hx'⟩ := decode_int (D := D) (hbounds d).1 (hbounds d).2
  obtain ⟨toY, hed, he'⟩ := decode_int (D := D) (hbounds e).1 (hbounds e).2
  obtain ⟨x, hxdec, hxiff⟩ := decode_form r.coordinates.x
  obtain ⟨distance, hddec, hdiff⟩ := decode_form r.distance
  obtain ⟨fromX, hfxdec, hfxiff⟩ := decode_form r.from_.x
  obtain ⟨fromZ, hfzdec, hfziff⟩ := decode_form r.from_.z
  obtain ⟨toZ, htzdec, htziff⟩ := decode_floatForm f
  have hnull : ∀ s : JString, (if JString.ofString "null" <:+: s then Parsed.null
      else Parsed.string s : Parsed D).asString = some s ↔ ¬ JString.ofString "null" <:+: s := by
    intro s
    split_ifs with hs <;> simp [Parsed.asString, hs]
  refine ⟨⟨.number id, if JString.ofString "null" <:+: r.name then .null else .string r.name, x,
    .number y, distance, fromX, .number fromY, fromZ,
    if JString.ofString "null" <:+: r.from_.name then .null else .string r.from_.name,
    .number toX, .number toY, toZ⟩, ?_, ?_⟩
  · exact { id := ⟨id, rfl, hid'⟩, name := hnull _, x := hxiff, y := ⟨y, rfl, hy'.trans hy.symm⟩,
            distance := hdiff, fromX := hfxiff, fromY := ⟨fromY, rfl, hl'.trans hl.symm⟩,
            fromZ := hfziff, fromName := hnull _, toX := ⟨toX, rfl, hto ▸ hx'⟩,
            toY := ⟨toY, rfl, hto ▸ he'⟩, toZ := by rw [hto]; exact htziff }
  · rw [← hy] at hyd
    rw [← hl] at hld
    have hcoordinates : (Coordinates.json r.coordinates).decode =
        .ok (.map [(.ofString "x", x), (.ofString "y", .number y)]) :=
      decode_object (decode_cons hxdec (decode_cons hyd decode_nil rfl) rfl)
    have hfrom : (First.Location.json r.from_).decode = .ok (.map [(.ofString "Location", .map
        [(.ofString "x", fromX), (.ofString "y", .number fromY), (.ofString "z", fromZ),
          (.ofString "name",
            if JString.ofString "null" <:+: r.from_.name then .null else .string r.from_.name)])]) :=
      decode_object (decode_cons (decode_object (decode_cons hfxdec (decode_cons hld
        (decode_cons hfzdec (decode_cons (decode_name hfromName) decode_nil rfl) rfl) rfl) rfl))
        decode_nil rfl)
    have hto' : (Second.Location.json r.to_).decode = .ok (.map [(.ofString "Location", .map
        [(.ofString "x", .number toX), (.ofString "y", .number toY), (.ofString "z", toZ)])]) := by
      rw [hto]
      exact decode_object (decode_cons (decode_object (decode_cons hxd (decode_cons hed
        (decode_cons htzdec decode_nil rfl) rfl) rfl)) decode_nil rfl)
    exact decode_object (decode_cons (decode_object (decode_cons hid (decode_cons
      (decode_name hname) (decode_cons hcoordinates (decode_cons hddec (decode_cons hfrom
        (decode_cons hto' decode_nil rfl) rfl) rfl) rfl) rfl) rfl)) decode_nil rfl)

theorem extract_tree (p : Scalars D) (instances : ℤ) :
    extractRouteObject (.map p.tree) instances = (do
      let coordinates ← Coordinates.new (← nonNull p.x.asNumber)
        (Numbers.intValue (← nonNull p.y.asNumber))
      let from_ ← First.Location.newOrNull (← nonNull p.fromX.asNumber)
        (Numbers.longValue (← nonNull p.fromY.asNumber)) (← nonNull p.fromZ.asNumber)
        p.fromName.asString
      let to_ : Second.Location D := ⟨Numbers.intValue (← nonNull p.toX.asNumber),
        Numbers.intValue (← nonNull p.toY.asNumber),
        Numbers.floatValue (← nonNull p.toZ.asNumber)⟩
      let id := Numbers.intValue (← nonNull p.id.asNumber)
      Route.withId p.name.asString coordinates from_ to_ (← nonNull p.distance.asNumber) id
        instances) := rfl

/-- The scalars that a route which was made has its values from. -/
structure Scalars.Makes (p : Scalars D) (r : Route D) : Prop where
  name : p.name.asString = some r.name
  x : p.x.asNumber = some r.coordinates.x
  distance : p.distance.asNumber = some r.distance
  fromX : p.fromX.asNumber = some r.from_.x
  fromZ : p.fromZ.asNumber = some r.from_.z
  fromName : p.fromName.asString = some r.from_.name
  toZ : p.toZ.asNumber.map Numbers.floatValue = some r.to_.z

/-- A route that is made has an id ahead of the counter, which it moves. -/
theorem extract_ok {p : Scalars D} {instances instances' : ℤ} {r : Route D}
    (h : extractRouteObject (.map p.tree) instances = .ok (r, instances')) :
    p.Makes r ∧ instances' = r.id ∧ instances < r.id := by
  rw [extract_tree] at h
  obtain ⟨x, hx, h⟩ := bind_ok h
  obtain ⟨y, -, h⟩ := bind_ok h
  obtain ⟨c, hc, h⟩ := bind_ok h
  obtain ⟨fromX, hfromX, h⟩ := bind_ok h
  obtain ⟨fromY, -, h⟩ := bind_ok h
  obtain ⟨fromZ, hfromZ, h⟩ := bind_ok h
  obtain ⟨l, hl, h⟩ := bind_ok h
  obtain ⟨toX, -, h⟩ := bind_ok h
  obtain ⟨toY, -, h⟩ := bind_ok h
  obtain ⟨toZ, htoZ, h⟩ := bind_ok h
  obtain ⟨id, -, h⟩ := bind_ok h
  obtain ⟨distance, hdistance, h⟩ := bind_ok h
  obtain ⟨hname, rfl, rfl, hto, rfl, hid, hlt, hinstances⟩ := Route.withId_ok h
  obtain ⟨rfl, -⟩ := Coordinates.new_ok hc
  obtain ⟨rfl, -, rfl, hfromName⟩ := First.Location.newOrNull_ok hl
  refine ⟨?_, hinstances.trans hid.symm, hid ▸ hlt⟩
  exact { name := hname, x := nonNull_ok hx, distance := nonNull_ok hdistance,
          fromX := nonNull_ok hfromX, fromZ := nonNull_ok hfromZ, fromName := hfromName,
          toZ := by rw [nonNull_ok htoZ, hto]; rfl }

/-- A route comes back when it is readable and its id is ahead of the counter. -/
theorem extract_iff {p : Scalars D} {r : Route D} (h : p.Of r) (instances : ℤ) :
    extractRouteObject (.map p.tree) instances = .ok (r, r.id) ↔
      r.Readable ∧ instances < r.id := by
  constructor
  · intro hextract
    obtain ⟨hmakes, -, hlt⟩ := extract_ok hextract
    refine ⟨?_, hlt⟩
    exact { name := h.name.mp hmakes.name, fromName := h.fromName.mp hmakes.fromName,
            x := h.x.mp hmakes.x, fromX := h.fromX.mp hmakes.fromX,
            fromZ := h.fromZ.mp hmakes.fromZ, toZ := h.toZ.mp hmakes.toZ,
            distance := h.distance.mp hmakes.distance }
  · rintro ⟨hr, hlt⟩
    obtain ⟨id, hid, hid'⟩ := h.id
    obtain ⟨y, hy, hy'⟩ := h.y
    obtain ⟨fromY, hfromY, hfromY'⟩ := h.fromY
    obtain ⟨toX, htoX, htoX'⟩ := h.toX
    obtain ⟨toY, htoY, htoY'⟩ := h.toY
    obtain ⟨toZ, htoZ, htoZ'⟩ := Option.map_eq_some_iff.mp (h.toZ.mpr hr.toZ)
    have hto : (⟨Numbers.intValue toX, Numbers.intValue toY, Numbers.floatValue toZ⟩ :
        Second.Location D) = r.to_ := by
      rw [htoX', htoY', htoZ']
    rw [extract_tree, hid, hy, hfromY, htoX, htoY, htoZ, h.x.mpr hr.x, h.fromX.mpr hr.fromX,
      h.fromZ.mpr hr.fromZ, h.distance.mpr hr.distance, h.name.mpr hr.name,
      h.fromName.mpr hr.fromName]
    simp only [nonNull, bind, Except.bind, hy', hfromY', Coordinates.new_self,
      First.Location.newOrNull_self, hto, hid', Route.withId_self, if_neg (not_le.mpr hlt)]

end Itmo.ProgLab6
