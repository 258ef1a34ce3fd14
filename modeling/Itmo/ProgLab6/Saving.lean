import Itmo.ProgLab6.Blocks

/-! Writing the collection. A route is printed as an object of objects, line by line
with its indentation; names stand in quotes as they are, numbers as the platform
writes them. The blocks of what is printed are those of a tree of values, because
a name of a client has no quote or comma and every number ends at white space or
at a comma. -/

namespace Itmo.ProgLab6

open ProgLab8

variable {D : Type} [Numbers D]

/-! ### The source -/

/-- `new String(new char[deep]).replace("\0", " ")` -/
def spaces (deep : ℕ) : JString := List.replicate deep 0x20

def Coordinates.toJSON (c : Coordinates D) (deep : ℕ) : JString :=
  .ofString "\"coordinates\": \n" ++
    spaces deep ++ .ofString "\x7b\n" ++
    spaces (deep + 2) ++ .ofString "\"x\": " ++ (Numbers.form c.x).text ++ .ofString ",\n" ++
    spaces (deep + 2) ++ .ofString "\"y\": " ++ Integer.toString c.y ++ .ofString "\n" ++
    spaces deep ++ .ofString "\x7d"

def First.Location.toJSON (l : First.Location D) (deep : ℕ) : JString :=
  .ofString "\"first_location\": \n " ++
    spaces deep ++ .ofString "\x7b\n" ++
    spaces (deep + 2) ++ .ofString "\"Location\":\n" ++
    spaces (deep + 2) ++ .ofString "\x7b\n" ++
    spaces (deep + 4) ++ .ofString "\"x\": " ++ (Numbers.form l.x).text ++ .ofString ",\n" ++
    spaces (deep + 4) ++ .ofString "\"y\": " ++ Integer.toString l.y ++ .ofString ",\n" ++
    spaces (deep + 4) ++ .ofString "\"z\": " ++ (Numbers.form l.z).text ++ .ofString ",\n" ++
    spaces (deep + 4) ++ .ofString "\"name\": \"" ++ l.name ++ .ofString "\"\n" ++
    spaces (deep + 2) ++ .ofString "\x7d\n" ++
    spaces deep ++ .ofString "\x7d"

def Second.Location.toJSON (l : Second.Location D) (deep : ℕ) : JString :=
  .ofString "\"second_location\": \n " ++
    spaces deep ++ .ofString "\x7b\n" ++
    spaces (deep + 2) ++ .ofString "\"Location\":\n" ++
    spaces (deep + 2) ++ .ofString "\x7b\n" ++
    spaces (deep + 4) ++ .ofString "\"x\": " ++ Integer.toString l.x ++ .ofString ",\n" ++
    spaces (deep + 4) ++ .ofString "\"y\": " ++ Integer.toString l.y ++ .ofString ",\n" ++
    spaces (deep + 4) ++ .ofString "\"z\": " ++ (Numbers.floatForm l.z).text ++ .ofString "\n" ++
    spaces (deep + 2) ++ .ofString "\x7d\n" ++
    spaces deep ++ .ofString "\x7d"

def Route.toJSON (r : Route D) (deep : ℕ) : JString :=
  spaces deep ++ .ofString "\"Route\":\n" ++
    spaces (deep + 2) ++ .ofString "\x7b\n" ++
    spaces (deep + 2) ++ .ofString "\"id\": " ++ Integer.toString r.id ++ .ofString ",\n" ++
    spaces (deep + 2) ++ .ofString "\"name\": \"" ++ r.name ++ .ofString "\",\n" ++
    spaces (deep + 2) ++ Coordinates.toJSON r.coordinates (deep + 2) ++ .ofString ",\n" ++
    spaces (deep + 2) ++ .ofString "\"distance\": " ++ (Numbers.form r.distance).text ++
    .ofString ",\n" ++
    spaces (deep + 2) ++ First.Location.toJSON r.from_ (deep + 2) ++ .ofString ",\n" ++
    spaces (deep + 2) ++ Second.Location.toJSON r.to_ (deep + 2) ++ .ofString "\n" ++
    spaces deep ++ .ofString "\x7d"

/-- The routes in the loop of `saveInFile`. -/
def savedRoutes : List (Route D) → JString
  | [] => []
  | [r] => .ofString "  \x7b\n" ++ r.toJSON 4 ++ .ofString "\n  \x7d\n"
  | r :: rs => .ofString "  \x7b\n" ++ r.toJSON 4 ++ .ofString "\n  \x7d,\n" ++ savedRoutes rs

/-- The text that `saveInFile` writes. -/
def saveInFile (data : List (Route D)) : JString :=
  .ofString "[\n" ++ savedRoutes data ++ .ofString "]"

/-! ### Trees of values -/

mutual

inductive Json where
  | scalar (block : JString)
  | object (fields : Fields)

/-- The fields of an object. -/
inductive Fields where
  | nil
  | cons (name : JString) (value : Json) (rest : Fields)

end

mutual

def Json.blocks : Json → List JString
  | .scalar block => [block]
  | .object fields => [0x7B] :: (fields.blocks ++ [[0x7D]])

def Fields.blocks : Fields → List JString
  | .nil => []
  | .cons name value rest => key name :: (value.blocks ++ rest.blocks)

end

/-- The fields of a list of names and values. -/
def Fields.ofList : List (String × Json) → Fields
  | [] => .nil
  | (name, value) :: rest => .cons (.ofString name) value (.ofList rest)

def Coordinates.json (c : Coordinates D) : Json :=
  .object <| .ofList
    [("x", .scalar (Numbers.form c.x).text), ("y", .scalar (Integer.toString c.y))]

def First.Location.json (l : First.Location D) : Json :=
  .object <| .ofList [("Location", .object <| .ofList
    [("x", .scalar (Numbers.form l.x).text), ("y", .scalar (Integer.toString l.y)),
      ("z", .scalar (Numbers.form l.z).text), ("name", .scalar (quoted l.name))])]

def Second.Location.json (l : Second.Location D) : Json :=
  .object <| .ofList [("Location", .object <| .ofList
    [("x", .scalar (Integer.toString l.x)), ("y", .scalar (Integer.toString l.y)),
      ("z", .scalar (Numbers.floatForm l.z).text)])]

def Route.fields (r : Route D) : Json :=
  .object <| .ofList
    [("id", .scalar (Integer.toString r.id)), ("name", .scalar (quoted r.name)),
      ("coordinates", Coordinates.json r.coordinates),
      ("distance", .scalar (Numbers.form r.distance).text),
      ("first_location", First.Location.json r.from_),
      ("second_location", Second.Location.json r.to_)]

/-- The value of a route, under the name of its class. -/
def Route.json (r : Route D) : Json := .object <| .ofList [("Route", r.fields)]

/-! ### Words -/

/-- The texts that can be part of a word. -/
def Wordy (s : JString) : Prop := ∀ c ∈ s, isPlain c = true ∧ c ≠ 0x22 ∧ c ≠ 0x2C

/-- The units of the texts of numbers. -/
def numberUnits : JString := .ofString "0123456789-.EInfinityNaN"

theorem digits_subset (ds : List (Fin 10)) : ds.map digit ⊆ numberUnits := by
  intro c hc
  obtain ⟨d, -, rfl⟩ := List.mem_map.mp hc
  clear hc
  revert d
  decide

theorem sign_subset (negative : Bool) : sign negative ⊆ numberUnits := by
  cases negative <;> decide

theorem toString_subset (n : ℤ) : Integer.toString n ⊆ numberUnits :=
  List.append_subset.mpr ⟨sign_subset _, digits_subset _⟩

theorem decimal_subset (d : Decimal) : d.text ⊆ numberUnits := by
  refine List.append_subset.mpr ⟨List.append_subset.mpr ⟨sign_subset _, digits_subset _⟩, ?_⟩
  exact List.cons_subset.mpr ⟨by decide, digits_subset _⟩

theorem form_subset (form : Form) : form.text ⊆ numberUnits := by
  cases form with
  | plain d => exact decimal_subset d
  | scientific m e =>
    refine List.append_subset.mpr ⟨decimal_subset m, ?_⟩
    exact List.cons_subset.mpr ⟨by decide, toString_subset e⟩
  | infinity negative => exact List.append_subset.mpr ⟨sign_subset negative, by decide⟩
  | nan => decide

theorem wordy_of_subset {s : JString} (h : s ⊆ numberUnits) : Wordy s := by
  have hunits : numberUnits.all (fun c => isPlain c && c != 0x22 && c != 0x2C) = true := rfl
  intro c hc
  have hunit := List.all_eq_true.mp hunits c (h hc)
  rw [Bool.and_eq_true, Bool.and_eq_true, bne_iff_ne, bne_iff_ne, and_assoc] at hunit
  exact hunit

theorem wordy_name {x : JString} (h : ∀ c ∈ x, isNameChar c = true) : Wordy x := by
  intro c hc
  have hname := h c hc
  unfold isNameChar isDigit at hname
  unfold isPlain isSpace isPunct
  simp only [Bool.or_eq_true, Bool.and_eq_true, decide_eq_true_eq, UInt16.le_iff_toNat_le,
    ← UInt16.toNat_inj, Bool.not_eq_true', Bool.or_eq_false_iff, Bool.and_eq_false_iff,
    decide_eq_false_iff_not, ne_eq, UInt16.reduceToNat] at hname ⊢
  omega

theorem toString_ne_nil (n : ℤ) : Integer.toString n ≠ [] :=
  List.append_ne_nil_of_right_ne_nil _ (by simpa using decimal_ne_nil n.natAbs)

theorem text_ne_nil (form : Form) : form.text ≠ [] := by
  have hdecimal : ∀ d : Decimal, d.text ≠ [] := by
    intro d
    exact List.append_ne_nil_of_right_ne_nil _ (List.cons_ne_nil _ _)
  cases form with
  | plain d => exact hdecimal d
  | scientific m e => exact List.append_ne_nil_of_left_ne_nil (hdecimal m) _
  | infinity negative => exact List.append_ne_nil_of_right_ne_nil _ (by decide)
  | nan => unfold Form.text; decide

/-! ### Reading what is printed -/

theorem scan_spaces (n : ℕ) : scan .between (spaces n) = some ([], .between) := by
  induction n with
  | zero => rfl
  | succ n ih =>
    have hstep : scan .between (0x20 :: spaces n) =
        (scan .between (spaces n)).map fun q => ([] ++ q.1, q.2) := rfl
    have hspaces : spaces (n + 1) = 0x20 :: spaces n := rfl
    rw [hspaces, hstep, ih]
    rfl

theorem scan_open : scan .between (.ofString "\x7b\n") = some ([[0x7B]], .between) := rfl

theorem scan_close : scan .between (.ofString "\x7d") = some ([[0x7D]], .between) := rfl

theorem scan_closeLine : scan .between (.ofString "\x7d\n") = some ([[0x7D]], .between) := rfl

theorem scan_x : scan .between (.ofString "\"x\": ") = some ([key (.ofString "x")], .between) := rfl

theorem scan_y : scan .between (.ofString "\"y\": ") = some ([key (.ofString "y")], .between) := rfl

theorem scan_z : scan .between (.ofString "\"z\": ") = some ([key (.ofString "z")], .between) := rfl

theorem scan_Location :
    scan .between (.ofString "\"Location\":\n") = some ([key (.ofString "Location")], .between) :=
  rfl

theorem scan_nameKey :
    scan .between (.ofString "\"name\": \"") = some ([key (.ofString "name")], .inside []) :=
  rfl

theorem scan_word_comma (w : JString) :
    scan (.word w) (.ofString ",\n") = some ([w], .between) := rfl

theorem scan_word_line (w : JString) : scan (.word w) (.ofString "\n") = some ([], .word w) := rfl

theorem scan_word_spaces (w : JString) (n : ℕ) :
    scan (.word w) (spaces (n + 1)) = some ([w], .between) := by
  have hstep : scan (.word w) (spaces (n + 1)) =
      (scan .between (spaces n)).map fun q => ([w] ++ q.1, q.2) := rfl
  rw [hstep, scan_spaces]
  rfl

theorem scan_inside_comma (x : JString) :
    scan (.inside x) (.ofString "\",\n") = some ([quoted x], .between) := rfl

theorem scan_inside_line (x : JString) :
    scan (.inside x) (.ofString "\"\n") = some ([], .after x) := rfl

theorem scan_after_spaces (x : JString) (n : ℕ) :
    scan (.after x) (spaces (n + 1)) = some ([quoted x], .between) := by
  have hstep : scan (.after x) (spaces (n + 1)) =
      (scan .between (spaces n)).map fun q => ([quoted x] ++ q.1, q.2) := rfl
  rw [hstep, scan_spaces]
  rfl

theorem scan_form (form : Form) : scan .between form.text = some ([], .word form.text) :=
  scan_word ⟨text_ne_nil form, wordy_of_subset (form_subset form)⟩

theorem scan_int (n : ℤ) :
    scan .between (Integer.toString n) = some ([], .word (Integer.toString n)) :=
  scan_word ⟨toString_ne_nil n, wordy_of_subset (toString_subset n)⟩

theorem scan_coordinates (c : Coordinates D) (deep : ℕ) :
    scan .between (Coordinates.toJSON c (deep + 1)) =
      some (key (.ofString "coordinates") :: (Coordinates.json c).blocks, .between) := by
  have hkey : scan .between (.ofString "\"coordinates\": \n") =
      some ([key (.ofString "coordinates")], .between) := rfl
  unfold Coordinates.toJSON
  simp only [scan_append, hkey, scan_spaces, scan_open, scan_x, scan_y, scan_form, scan_int,
    scan_word_comma, scan_word_line, scan_word_spaces, scan_close, Option.bind_some,
    Option.map_some]
  simp [Coordinates.json, Fields.ofList, Json.blocks, Fields.blocks]

theorem scan_from {l : First.Location D} (h : ∀ c ∈ l.name, isNameChar c = true) (deep : ℕ) :
    scan .between (First.Location.toJSON l deep) =
      some (key (.ofString "first_location") :: (First.Location.json l).blocks, .between) := by
  have hkey : scan .between (.ofString "\"first_location\": \n ") =
      some ([key (.ofString "first_location")], .between) := rfl
  have hname := scan_inside (wordy_name h) []
  unfold First.Location.toJSON
  simp only [scan_append, hkey, hname, scan_spaces, scan_open, scan_Location, scan_x, scan_y,
    scan_z, scan_nameKey, scan_form, scan_int, scan_word_comma, scan_inside_line,
    scan_after_spaces, scan_closeLine, scan_close, Option.bind_some, Option.map_some,
    List.nil_append]
  simp [First.Location.json, Fields.ofList, Json.blocks, Fields.blocks]

theorem scan_to (l : Second.Location D) (deep : ℕ) :
    scan .between (Second.Location.toJSON l deep) =
      some (key (.ofString "second_location") :: (Second.Location.json l).blocks, .between) := by
  have hkey : scan .between (.ofString "\"second_location\": \n ") =
      some ([key (.ofString "second_location")], .between) := rfl
  unfold Second.Location.toJSON
  simp only [scan_append, hkey, scan_spaces, scan_open, scan_Location, scan_x, scan_y, scan_z,
    scan_form, scan_int, scan_word_comma, scan_word_line, scan_word_spaces, scan_closeLine,
    scan_close, Option.bind_some, Option.map_some]
  simp [Second.Location.json, Fields.ofList, Json.blocks, Fields.blocks]

/-- The names of a route are made of the units that a client may type. -/
def Route.Named (r : Route D) : Prop :=
  (∀ c ∈ r.name, isNameChar c = true) ∧ ∀ c ∈ r.from_.name, isNameChar c = true

theorem scan_route {r : Route D} (h : r.Named) (deep : ℕ) :
    scan .between (r.toJSON deep) =
      some (key (.ofString "Route") :: r.fields.blocks, .between) := by
  have hroute : scan .between (.ofString "\"Route\":\n") =
      some ([key (.ofString "Route")], .between) := rfl
  have hid : scan .between (.ofString "\"id\": ") =
      some ([key (.ofString "id")], .between) := rfl
  have hdistance : scan .between (.ofString "\"distance\": ") =
      some ([key (.ofString "distance")], .between) := rfl
  have hcomma : scan .between (.ofString ",\n") = some ([], .between) := rfl
  have hline : scan .between (.ofString "\n") = some ([], .between) := rfl
  have hname := scan_inside (wordy_name h.1) []
  have hfrom := scan_from h.2 (deep + 2)
  unfold Route.toJSON
  simp only [scan_append, hroute, hid, hdistance, hcomma, hline, hname, hfrom, scan_spaces,
    scan_open, scan_nameKey, scan_coordinates, scan_to, scan_form, scan_int, scan_word_comma,
    scan_inside_comma, scan_close, Option.bind_some, Option.map_some, List.nil_append]
  simp [Route.fields, Fields.ofList, Json.blocks, Fields.blocks]

/-- Every object of the file, with the comma between two of them. -/
theorem scan_savedRoutes {data : List (Route D)} (h : ∀ r ∈ data, r.Named) :
    scan .between (savedRoutes data) =
      some (data.flatMap fun r => r.json.blocks, .between) := by
  have hopen : scan .between (.ofString "  \x7b\n") = some ([[0x7B]], .between) := rfl
  have hlast : scan .between (.ofString "\n  \x7d\n") = some ([[0x7D]], .between) := rfl
  have hnext : scan .between (.ofString "\n  \x7d,\n") = some ([[0x7D]], .between) := rfl
  induction data with
  | nil => rfl
  | cons r rs ih =>
    rw [List.forall_mem_cons] at h
    have hroute := scan_route h.1 4
    have hblocks : r.json.blocks = [0x7B] :: key (.ofString "Route") :: r.fields.blocks ++ [[0x7D]] := by
      simp [Route.json, Fields.ofList, Json.blocks, Fields.blocks]
    cases rs with
    | nil =>
      unfold savedRoutes
      simp only [scan_append, hopen, hroute, hlast, Option.bind_some, Option.map_some]
      simp [hblocks]
    | cons r' rs =>
      unfold savedRoutes
      simp only [scan_append, hopen, hroute, hnext, ih h.2, Option.bind_some, Option.map_some]
      simp [hblocks]

/-- The blocks of the file that is written. -/
theorem fileBlocks_saveInFile {data : List (Route D)} (h : ∀ r ∈ data, r.Named) :
    fileBlocks (saveInFile data) =
      [0x5B] :: (data.flatMap (fun r => r.json.blocks) ++ [[0x5D]]) := by
  have hopen : scan .between (.ofString "[\n") = some ([[0x5B]], .between) := rfl
  have hclose : scan .between (.ofString "]") = some ([[0x5D]], .between) := rfl
  apply fileBlocks_of_scan
  unfold saveInFile
  simp only [scan_append, hopen, hclose, scan_savedRoutes h, Option.bind_some, Option.map_some]
  simp

end Itmo.ProgLab6
