import Itmo.Lib.Separated
import Itmo.ProgLab6.Numbers
import Mathlib.Algebra.Order.Ring.Rat

/-! The filters of a table of vehicles. The dialogue of a column saves its filters, and the
service writes all of them into one text, with a comma between two of them, for the server,
which takes it apart again as its documentation says. That fails for the coordinates, whose
fields go by other names there, and for names with a comma. -/

namespace Itmo.Soa

open Lib
open ProgLab8 (JString)

/-! ### Vehicles -/

inductive VehicleType where
  | HELICOPTER
  | DRONE
  | SHIP
  | BICYCLE
  | CHOPPER
  deriving DecidableEq

namespace VehicleType

def values : List VehicleType := [HELICOPTER, DRONE, SHIP, BICYCLE, CHOPPER]

def text : VehicleType → JString
  | HELICOPTER => .ofString "HELICOPTER"
  | DRONE => .ofString "DRONE"
  | SHIP => .ofString "SHIP"
  | BICYCLE => .ofString "BICYCLE"
  | CHOPPER => .ofString "CHOPPER"

end VehicleType

/-- The keys of `VehicleFlattened`. -/
inductive Key where
  | id
  | name
  | creationDate
  | enginePower
  | numberOfWheels
  | distanceTravelled
  | type
  | x
  | y
  deriving DecidableEq

def vehicleFlattenedKeys : List Key :=
  [.id, .name, .creationDate, .enginePower, .numberOfWheels, .distanceTravelled, .type, .x, .y]

namespace Key

def text : Key → JString
  | id => .ofString "id"
  | name => .ofString "name"
  | creationDate => .ofString "creationDate"
  | enginePower => .ofString "enginePower"
  | numberOfWheels => .ofString "numberOfWheels"
  | distanceTravelled => .ofString "distanceTravelled"
  | type => .ofString "type"
  | x => .ofString "x"
  | y => .ofString "y"

/-- The name of the field in the documentation of the server. -/
def documented : Key → JString
  | x => .ofString "coordinateX"
  | y => .ofString "coordinateY"
  | key => key.text

theorem mem_all (key : Key) : key ∈ vehicleFlattenedKeys := by
  cases key <;> decide

end Key

/-- The types of the fields of `VehicleFlattened`. -/
inductive FieldType where
  | number
  | string
  | Date
  | VehicleType

def Key.fieldType : Key → FieldType
  | name => .string
  | creationDate => .Date
  | type => .VehicleType
  | id | enginePower | numberOfWheels | distanceTravelled | x | y => .number

/-- The finite numbers of the browser: their values, and their texts, which `Number` reads
back and which are made of digits, a sign, a point and an exponent. -/
class JsNumber (N : Type) where
  value : N → ℚ
  text : N → JString
  ofText : JString → Option N
  ofText_text : ∀ n, ofText (text n) = some n
  comma_not_mem : ∀ n, 0x2C ∉ text n
  head_ne_equals : ∀ n, (text n).head? ≠ some 0x3D

/-- The values in a filter; a date stays the text that is typed for it. -/
def FieldType.Value (N : Type) : FieldType → Type
  | number => N
  | string => JString
  | Date => JString
  | VehicleType => Soa.VehicleType

/-! ### Filters -/

/-- `FilterCmpOp`, `FilterEqOp` and `FilterInOp`. -/
inductive FilterOp where
  | GT
  | GE
  | LT
  | LE
  | EQ
  | NE
  | CONTAINS
  deriving DecidableEq

def FilterCmpOp : List FilterOp := [.GT, .GE, .LT, .LE]

def FilterEqOp : List FilterOp := [.EQ, .NE]

def FilterInOp : List FilterOp := [.CONTAINS]

def filterOpOperators : FilterOp → JString
  | .GT => .ofString ">"
  | .GE => .ofString ">="
  | .LT => .ofString "<"
  | .LE => .ofString "<="
  | .EQ => .ofString "="
  | .NE => .ofString "!="
  | .CONTAINS => .ofString "~"

def supportedFilters : Key → List FilterOp
  | .name => FilterEqOp ++ FilterInOp
  | .type => FilterEqOp
  | _ => FilterEqOp ++ FilterCmpOp

structure Filter (N : Type) (key : Key) where
  op : FilterOp
  value : key.fieldType.Value N

abbrev FilterMap (N : Type) := ∀ key, List (Filter N key)

/-! ### What the dialogue saves -/

/-- The characters that `trim` takes away. -/
def isTrimmed (c : UInt16) : Bool :=
  0x09 ≤ c && c ≤ 0x0D || c = 0x20 || c = 0xA0 || c = 0x1680 || 0x2000 ≤ c && c ≤ 0x200A ||
    c = 0x2028 || c = 0x2029 || c = 0x202F || c = 0x205F || c = 0x3000 || c = 0xFEFF

def notEmptyValidator (s : JString) : Bool := s.any fun c => !isTrimmed c

def isDigit (c : UInt16) : Bool := 0x30 ≤ c && c ≤ 0x39

/-- What the forms take from their libraries: whether `DateTime.fromFormat` finds a date in a text
of the format `yyyy-LL-dd`, which only digits and signs make up, and `Validators.min` and
`Validators.max`. -/
class FormLibraries (N : Type) where
  fromFormat : JString → Bool
  min : ℚ → N → Bool
  max : ℚ → N → Bool
  fromFormat_chars : ∀ s, fromFormat s = true → ∀ c ∈ s, isDigit c = true ∨ c = 0x2D

section Validators

variable {N : Type} [JsNumber N] [FormLibraries N]

/-- The finite numbers are whole or not, and in the bounds or not. -/
def wholeWithin (lower upper : ℚ) (n : N) : Bool :=
  (JsNumber.value n).den = 1 && !(upper < JsNumber.value n || JsNumber.value n < lower)

def integerValidator (n : N) : Bool := wholeWithin (-2147483648) 2147483647 n

/-- The literal for the upper bound is rounded up to a power of two. -/
def longValidator (n : N) : Bool := wholeWithin (-9223372036854775808) 9223372036854775808 n

def dateValidator (N : Type) [FormLibraries N] (s : JString) : Bool :=
  FormLibraries.fromFormat N s

open FormLibraries (min max)

/-- The validators of a field. -/
def validators : (key : Key) → key.fieldType.Value N → Bool
  | .id, n => min (N := N) 1 n && integerValidator (N := N) n
  | .name, s => notEmptyValidator s
  | .creationDate, s => dateValidator N s
  | .enginePower, n => min (N := N) 1 n
  | .numberOfWheels, n => min (N := N) 1 n && longValidator (N := N) n
  | .distanceTravelled, n => min (N := N) 1 n
  | .type, _ => true
  | .x, n => longValidator (N := N) n
  | .y, n => max (N := N) 126 n && longValidator (N := N) n

/-- The dialogue offers the operation, and its form is valid. -/
def Valid {key : Key} (f : Filter N key) : Prop :=
  f.op ∈ supportedFilters key ∧ validators key f.value = true

/-- Filters that the dialogue can save for each column. -/
def Savable (filters : FilterMap N) : Prop := ∀ key, ∀ f ∈ filters key, Valid f

end Validators

/-! ### The query -/

section Query

variable {N : Type} [JsNumber N]

/-- The class `Sort`. -/
structure VehicleSort where
  key : Key
  isAsc : Bool

structure GetVehiclesParams where
  page : ℕ
  size : ℕ
  sort : Option JString
  filter : Option JString

def valueText : (type : FieldType) → type.Value N → JString
  | .number, n => JsNumber.text (N := N) n
  | .string, s => s
  | .Date, s => s
  | .VehicleType, t => VehicleType.text t

def filterText {key : Key} (f : Filter N key) : JString :=
  key.text ++ filterOpOperators f.op ++ valueText key.fieldType f.value

/-- `join(",")` -/
def join (items : List JString) : JString := [0x2C].intercalate items

/-- The parameters that `pullVehicles` sends. -/
def pullVehicles (page size : ℕ) (sorting : List VehicleSort) (filters : FilterMap N) :
    GetVehiclesParams :=
  let sort := join (sorting.map fun s => if s.isAsc then s.key.text else 0x2D :: s.key.text)
  let filter := join <| (vehicleFlattenedKeys.map fun key =>
    join ((filters key).map filterText)).filter fun f => !f.isEmpty
  { page, size, sort := if sort.length ≠ 0 then some sort else none,
    filter := if filter.length ≠ 0 then some filter else none }

end Query

/-! ### The documented grammar -/

section Grammar

variable {N : Type} [JsNumber N]

/-- The operations, with those of two characters before their parts. -/
def operations : List FilterOp := [.NE, .GE, .LE, .GT, .LT, .EQ, .CONTAINS]

def readValue : (type : FieldType) → JString → Option (type.Value N)
  | .number, s => JsNumber.ofText (N := N) s
  | .string, s => some s
  | .Date, s => some s
  | .VehicleType, s => VehicleType.values.find? fun t => t.text = s

/-- `field[op]value` -/
def readItem (item : JString) : Option (Σ key, Filter N key) := do
  let key ← vehicleFlattenedKeys.find? fun key => key.documented.isPrefixOf item
  let rest := item.drop key.documented.length
  let op ← operations.find? fun op => (filterOpOperators op).isPrefixOf rest
  let value ← readValue key.fieldType (rest.drop (filterOpOperators op).length)
  return ⟨key, op, value⟩

/-- The filters of the parameter, which is left out for none. -/
def readFilters : Option JString → Option (FilterMap N)
  | none => some (collect [])
  | some text => ((text.splitOn 0x2C).mapM readItem).map collect

end Grammar

/-! ### Items -/

section Items

variable {N : Type} [JsNumber N] {key : Key}

theorem eq_of_documented_prefix (k k' : Key) (h : k.documented <+: k'.documented) : k = k' := by
  revert h
  cases k <;> cases k' <;> decide

theorem readValue_valueText : ∀ (type : FieldType) (v : type.Value N),
    readValue type (valueText type v) = some v
  | .number, n => JsNumber.ofText_text (N := N) n
  | .string, _ => rfl
  | .Date, _ => rfl
  | .VehicleType, t => by cases t <;> rfl

/-- An operation is found, if the value behind it does not make it another one. -/
theorem find?_operations {op : FilterOp} {v : JString}
    (h : op = .GT ∨ op = .LT → v.head? ≠ some 0x3D) :
    operations.find? (fun op' => (filterOpOperators op').isPrefixOf (filterOpOperators op ++ v)) =
      some op := by
  cases op with
  | GE | LE | EQ | NE | CONTAINS => rfl
  | GT | LT =>
    cases v with
    | nil => rfl
    | cons c v =>
      have hc : (0x3D == c) = false := by
        have hne : c ≠ 0x3D := by simpa using h
        exact beq_eq_false_iff_ne.mpr hne.symm
      simp [operations, filterOpOperators, JString.ofString, List.isPrefixOf_cons_cons, hc]

theorem readItem_coordinate {f : Filter N key} (hkey : key = .x ∨ key = .y) :
    readItem (N := N) (filterText f) = none := by
  have hfind : vehicleFlattenedKeys.find? (fun k => k.documented.isPrefixOf (filterText f)) =
      none := by
    rcases hkey with rfl | rfl <;> rfl
  unfold readItem
  rw [hfind]
  rfl

variable [FormLibraries N]

theorem Valid.head_ne_equals {f : Filter N key} (hf : Valid f) (hop : f.op = .GT ∨ f.op = .LT) :
    (valueText key.fieldType f.value).head? ≠ some 0x3D := by
  obtain ⟨op, value⟩ := f
  obtain ⟨hsupported, hvalid⟩ := hf
  cases key with
  | name =>
    have hname : FilterOp.GT ∉ supportedFilters .name ∧ FilterOp.LT ∉ supportedFilters .name := by
      decide
    exact absurd hsupported (hop.elim (fun h => h ▸ hname.1) fun h => h ▸ hname.2)
  | type =>
    have htype : FilterOp.GT ∉ supportedFilters .type ∧ FilterOp.LT ∉ supportedFilters .type := by
      decide
    exact absurd hsupported (hop.elim (fun h => h ▸ htype.1) fun h => h ▸ htype.2)
  | creationDate =>
    intro hhead
    have hmem : 0x3D ∈ valueText (N := N) .Date value := List.mem_of_mem_head? hhead
    rcases FormLibraries.fromFormat_chars _ hvalid _ hmem with h | h <;>
      exact absurd h (by decide)
  | id | enginePower | numberOfWheels | distanceTravelled | x | y =>
    exact JsNumber.head_ne_equals (N := N) value

theorem readItem_filterText {f : Filter N key} (hf : Valid f) (hkey : key.documented = key.text) :
    readItem (filterText f) = some ⟨key, f⟩ := by
  have hfind := find?_prefix Key.documented (fun k _ k' _ => eq_of_documented_prefix k k')
    key.mem_all (filterOpOperators f.op ++ valueText key.fieldType f.value)
  unfold readItem filterText
  rw [List.append_assoc, ← hkey, hfind]
  show (operations.find? _).bind _ = _
  rw [List.drop_left, find?_operations hf.head_ne_equals]
  show (readValue _ _).bind _ = _
  rw [List.drop_left, readValue_valueText]
  rfl

/-- Only a name brings a comma into its item. -/
theorem comma_mem_filterText {f : Filter N key} (hf : Valid f) :
    0x2C ∈ filterText f ↔ key = .name ∧ 0x2C ∈ valueText key.fieldType f.value := by
  have hkey : 0x2C ∉ key.text := by cases key <;> decide
  have hop : 0x2C ∉ filterOpOperators f.op := by cases f.op <;> decide
  unfold filterText
  simp only [List.mem_append, hkey, hop, false_or]
  refine ⟨fun hcomma => ⟨?_, hcomma⟩, fun h => h.2⟩
  obtain ⟨op, value⟩ := f
  cases key with
  | name => rfl
  | type =>
    have htype : ∀ t : VehicleType, 0x2C ∉ t.text := by
      intro t
      cases t <;> decide
    exact absurd hcomma (htype value)
  | creationDate =>
    rcases FormLibraries.fromFormat_chars _ hf.2 _ hcomma with h | h <;>
      exact absurd h (by decide)
  | id | enginePower | numberOfWheels | distanceTravelled | x | y =>
    exact absurd hcomma (JsNumber.comma_not_mem (N := N) value)

end Items

/-! ### Dates and whole numbers -/

section Dates

/-- The value of digits. -/
def digitsValue (s : JString) : ℕ := s.foldl (fun v c => 10 * v + (c.toNat - 0x30)) 0

def isLeapYear (year : ℕ) : Bool := year % 4 = 0 && (year % 100 ≠ 0 || year % 400 = 0)

def daysInMonth (year month : ℕ) : ℕ :=
  if month = 2 then if isLeapYear year then 29 else 28
  else if month = 4 ∨ month = 6 ∨ month = 9 ∨ month = 11 then 30 else 31

/-- The text is that of a date that exists. -/
def isDate : JString → Bool
  | [y₁, y₂, y₃, y₄, h₁, m₁, m₂, h₂, d₁, d₂] =>
    let month := digitsValue [m₁, m₂]
    let day := digitsValue [d₁, d₂]
    h₁ = 0x2D && h₂ = 0x2D && [y₁, y₂, y₃, y₄, m₁, m₂, d₁, d₂].all isDigit &&
      1 ≤ month && month ≤ 12 && 1 ≤ day && day ≤ daysInMonth (digitsValue [y₁, y₂, y₃, y₄]) month
  | _ => false

/-- A date is made of digits and two signs. -/
theorem isDate_chars {s : JString} (h : isDate s = true) :
    ∀ c ∈ s, isDigit c = true ∨ c = 0x2D := by
  unfold isDate at h
  split at h
  · next y₁ y₂ y₃ y₄ h₁ m₁ m₂ h₂ d₁ d₂ =>
    simp only [Bool.and_eq_true, decide_eq_true_eq, List.all_eq_true] at h
    obtain ⟨⟨⟨⟨⟨⟨hminus, hminus'⟩, hdigits⟩, -⟩, -⟩, -⟩, -⟩ := h
    intro c hc
    by_cases hsign : c = 0x2D
    · exact .inr hsign
    · refine .inl (hdigits c ?_)
      rw [hminus, hminus'] at hc
      simp only [List.mem_cons, hsign, false_or] at hc ⊢
      exact hc
  · cases h

end Dates

section Whole

open ProgLab6 (Whole)

theorem comma_not_mem_toString (n : ℤ) : 0x2C ∉ ProgLab6.Integer.toString n :=
  ProgLab6.Integer.not_mem_toString (by decide) (by decide) n

theorem head_toString_ne_equals (n : ℤ) : (ProgLab6.Integer.toString n).head? ≠ some 0x3D :=
  fun h => ProgLab6.Integer.not_mem_toString (by decide) (by decide) n (List.mem_of_mem_head? h)

instance : JsNumber Whole where
  value n := n.val
  text n := ProgLab6.Integer.toString n.val
  ofText := Whole.parse
  ofText_text n := Whole.parse_toString n.val
  comma_not_mem n := comma_not_mem_toString n.val
  head_ne_equals n := head_toString_ne_equals n.val

instance : FormLibraries Whole where
  fromFormat := isDate
  min m n := m ≤ n.val
  max m n := n.val ≤ m
  fromFormat_chars _ := isDate_chars

/-- Filters for equal names, and for identifiers from some numbers on. -/
def namesAndIds (names : List JString) (ids : List ℤ) : FilterMap Whole
  | .name => names.map fun s => ⟨.EQ, s⟩
  | .id => ids.map fun n => ⟨.GE, Whole.mk n⟩
  | _ => []

theorem savable_namesAndIds {names : List JString} {ids : List ℤ}
    (hnames : ∀ s ∈ names, notEmptyValidator s = true)
    (hids : ∀ n ∈ ids, validators (N := Whole) .id (Whole.mk n) = true) :
    Savable (namesAndIds names ids) := by
  intro key f hf
  cases key with
  | name =>
    obtain ⟨s, hs, rfl⟩ := List.mem_map.mp hf
    have hop : FilterOp.EQ ∈ supportedFilters .name := by decide
    exact ⟨hop, hnames s hs⟩
  | id =>
    obtain ⟨n, hn, rfl⟩ := List.mem_map.mp hf
    have hop : FilterOp.GE ∈ supportedFilters .id := by decide
    exact ⟨hop, hids n hn⟩
  | _ => cases hf

end Whole

/-! ### Queries -/

section Queries

variable {N : Type}

/-- All filters, in the order of the keys. -/
def allFilters (filters : FilterMap N) : List (Σ key, Filter N key) :=
  entries vehicleFlattenedKeys filters

theorem collect_allFilters (filters : FilterMap N) : collect (allFilters filters) = filters := by
  funext key
  exact collect_entries (by decide) filters key.mem_all

theorem mem_allFilters {filters : FilterMap N} {e : Σ key, Filter N key} :
    e ∈ allFilters filters ↔ e.2 ∈ filters e.1 := by
  unfold allFilters entries
  simp only [List.mem_flatMap, List.mem_map]
  constructor
  · rintro ⟨key, -, f, hf, rfl⟩
    exact hf
  · exact fun he => ⟨e.1, e.1.mem_all, e.2, he, rfl⟩

variable [JsNumber N]

theorem filterText_ne_nil {key : Key} (f : Filter N key) : filterText f ≠ [] := by
  unfold filterText
  rw [List.append_assoc]
  apply List.append_ne_nil_of_left_ne_nil
  cases key <;> decide

def itemText (e : Σ key, Filter N key) : JString := filterText e.2

/-- The parameter is the text of all filters, if there are any. -/
theorem pullVehicles_filter (page size : ℕ) (sorting : List VehicleSort) (filters : FilterMap N) :
    (pullVehicles page size sorting filters).filter =
      if allFilters filters = [] then none
      else some (join ((allFilters filters).map itemText)) := by
  have hne : ∀ items ∈ vehicleFlattenedKeys.map fun key => (filters key).map filterText,
      ∀ item ∈ items, item ≠ [] := by
    intro items hitems item hitem
    obtain ⟨key, -, rfl⟩ := List.mem_map.mp hitems
    obtain ⟨f, -, rfl⟩ := List.mem_map.mp hitem
    exact filterText_ne_nil f
  have hitems : (vehicleFlattenedKeys.map fun key => (filters key).map filterText).flatten =
      (allFilters filters).map itemText := by
    unfold allFilters entries
    rw [List.map_flatMap, List.flatMap_def]
    simp only [List.map_map]
    rfl
  have htext : join ((vehicleFlattenedKeys.map fun key =>
      join ((filters key).map filterText)).filter fun f => !f.isEmpty) =
      join ((allFilters filters).map itemText) := by
    have hgroups := intercalate_groups [0x2C] hne
    rw [List.map_map, hitems] at hgroups
    exact hgroups
  unfold pullVehicles
  dsimp only
  rw [htext]
  by_cases hnil : allFilters filters = []
  · rw [hnil, if_pos rfl]
    rfl
  · have hjoin : join ((allFilters filters).map itemText) ≠ [] := by
      refine intercalate_ne_nil (fun h => hnil (List.map_eq_nil_iff.mp h)) fun item hitem => ?_
      obtain ⟨e, -, rfl⟩ := List.mem_map.mp hitem
      exact filterText_ne_nil e.2
    rw [if_neg hnil, if_pos (fun h => hjoin (List.length_eq_zero_iff.mp h))]

theorem splitOn_join {es : List (Σ key, Filter N key)} (hne : es ≠ []) :
    (join (es.map itemText)).splitOn 0x2C = (es.map itemText).flatMap (List.splitOn 0x2C) :=
  splitOn_intercalate_flatMap fun h => hne (List.map_eq_nil_iff.mp h)

/-- An item that can be read back. -/
def Plain (e : Σ key, Filter N key) : Prop := e.1 ≠ .x ∧ e.1 ≠ .y ∧ 0x2C ∉ itemText e

/-- Nothing more than the items is read only if all of them are plain. -/
theorem plain_of_mapM_readItem {es es' : List (Σ key, Filter N key)} (hne : es ≠ [])
    (hread : ((join (es.map itemText)).splitOn 0x2C).mapM (readItem (N := N)) = some es')
    (hlength : es'.length = es.length) : ∀ e ∈ es, Plain e := by
  rw [splitOn_join hne] at hread
  have hcomma : ∀ item ∈ es.map itemText, 0x2C ∉ item := by
    apply not_mem_of_length_flatMap_splitOn
    rw [(mapM_eq_some_iff.mp hread).length_eq, hlength, List.length_map]
  rw [flatMap_splitOn_eq hcomma] at hread
  intro e he
  have hitem := List.mem_map_of_mem (f := itemText) he
  obtain ⟨e', he'⟩ := exists_of_mapM_eq_some hread _ hitem
  have hkey : ¬ (e.1 = .x ∨ e.1 = .y) := by
    intro hkey
    have hnone : readItem (N := N) (itemText e) = none := readItem_coordinate hkey
    rw [hnone] at he'
    cases he'
  rw [not_or] at hkey
  exact ⟨hkey.1, hkey.2, hcomma _ hitem⟩

/-- Filters that are read back are plain. -/
theorem plain_of_readFilters {page size : ℕ} {sorting : List VehicleSort} {filters : FilterMap N}
    (hread : readFilters (pullVehicles page size sorting filters).filter = some filters) :
    ∀ e ∈ allFilters filters, Plain e := by
  rw [pullVehicles_filter] at hread
  by_cases hnil : allFilters filters = []
  · rw [hnil]
    exact List.forall_mem_nil _
  · rw [if_neg hnil, readFilters, Option.map_eq_some_iff] at hread
    obtain ⟨es, hread, hes⟩ := hread
    refine plain_of_mapM_readItem hnil hread ?_
    rw [← hes]
    exact (length_entries_collect (by decide) Key.mem_all es).symm

section Saved

variable [FormLibraries N]

theorem readItem_itemText {e : Σ key, Filter N key} (hvalid : Valid e.2) (hplain : Plain e) :
    readItem (itemText e) = some e := by
  refine readItem_filterText hvalid ?_
  obtain ⟨key, f⟩ := e
  cases key with
  | x => exact absurd rfl hplain.1
  | y => exact absurd rfl hplain.2.1
  | _ => rfl

theorem mapM_readItem {es : List (Σ key, Filter N key)} (hne : es ≠ [])
    (hvalid : ∀ e ∈ es, Valid e.2) (hplain : ∀ e ∈ es, Plain e) :
    ((join (es.map itemText)).splitOn 0x2C).mapM (readItem (N := N)) = some es := by
  have hcomma : ∀ item ∈ es.map itemText, 0x2C ∉ item :=
    List.forall_mem_map.mpr fun e he => (hplain e he).2.2
  rw [splitOn_join hne, flatMap_splitOn_eq hcomma, mapM_eq_some_iff, List.forall₂_map_left_iff,
    List.forall₂_same]
  exact fun e he => readItem_itemText (hvalid e he) (hplain e he)

theorem forall_plain_iff {filters : FilterMap N} (h : Savable filters) :
    (∀ e ∈ allFilters filters, Plain e) ↔ filters .x = [] ∧ filters .y = [] ∧
      ∀ f ∈ filters .name, 0x2C ∉ valueText .string f.value := by
  constructor
  · intro hplain
    have hmem : ∀ key, ∀ f ∈ filters key, Plain ⟨key, f⟩ := fun key f hf =>
      hplain ⟨key, f⟩ (mem_allFilters.mpr hf)
    refine ⟨?_, ?_, ?_⟩
    · exact List.eq_nil_iff_forall_not_mem.mpr fun f hf => (hmem .x f hf).1 rfl
    · exact List.eq_nil_iff_forall_not_mem.mpr fun f hf => (hmem .y f hf).2.1 rfl
    · intro f hf hcomma
      exact (hmem .name f hf).2.2 ((comma_mem_filterText (h .name f hf)).mpr ⟨rfl, hcomma⟩)
  · rintro ⟨hx, hy, hname⟩ ⟨key, f⟩ he
    have hf : f ∈ filters key := mem_allFilters.mp he
    refine ⟨?_, ?_, ?_⟩
    · rintro rfl
      rw [hx] at hf
      cases hf
    · rintro rfl
      rw [hy] at hf
      cases hf
    · intro hcomma
      obtain ⟨rfl, hcomma⟩ := (comma_mem_filterText (h key f hf)).mp hcomma
      exact hname f hf hcomma

/-- Plain filters are read back. -/
theorem readFilters_pullVehicles (page size : ℕ) (sorting : List VehicleSort)
    {filters : FilterMap N} (h : Savable filters)
    (hplain : ∀ e ∈ allFilters filters, Plain e) :
    readFilters (pullVehicles page size sorting filters).filter = some filters := by
  rw [pullVehicles_filter]
  by_cases hnil : allFilters filters = []
  · rw [if_pos hnil, readFilters, ← hnil, collect_allFilters]
  · have hvalid : ∀ e ∈ allFilters filters, Valid e.2 := fun e he =>
      h e.1 e.2 (mem_allFilters.mp he)
    rw [if_neg hnil, readFilters, mapM_readItem hnil hvalid hplain, Option.map_some,
      collect_allFilters]

/-- Two maps of plain filters make the same query only if they are the same. -/
theorem eq_of_pullVehicles_eq {page size : ℕ} {sorting : List VehicleSort}
    {filters filters' : FilterMap N} (h : Savable filters) (h' : Savable filters')
    (hplain : ∀ e ∈ allFilters filters, Plain e) (hplain' : ∀ e ∈ allFilters filters', Plain e)
    (heq : (pullVehicles page size sorting filters).filter =
      (pullVehicles page size sorting filters').filter) : filters = filters' := by
  have hread := readFilters_pullVehicles page size sorting h hplain
  rw [heq, readFilters_pullVehicles page size sorting h' hplain'] at hread
  exact (Option.some.inj hread).symm

/-- The filters of a query are read back if and only if there are none on the coordinates and
no name among them has a comma. -/
theorem readFilters_pullVehicles_iff (page size : ℕ) (sorting : List VehicleSort)
    {filters : FilterMap N} (h : Savable filters) :
    readFilters (pullVehicles page size sorting filters).filter = some filters ↔
      filters .x = [] ∧ filters .y = [] ∧
        ∀ f ∈ filters .name, 0x2C ∉ valueText .string f.value := by
  rw [← forall_plain_iff h]
  exact ⟨plain_of_readFilters, readFilters_pullVehicles page size sorting h⟩

end Saved

theorem readFilters_name_and_id :
    readFilters (pullVehicles 1 10 [] (namesAndIds [.ofString "a"] [5])).filter =
      some (namesAndIds [.ofString "a"] [5]) :=
  (readFilters_pullVehicles_iff 1 10 [] (savable_namesAndIds (by decide) (by decide))).mpr
    ⟨rfl, rfl, by decide⟩

/-- The name with a comma and the two names make the same query. -/
theorem pullVehicles_comma :
    pullVehicles 1 10 [] (namesAndIds [.ofString "a,name=b"] []) =
      pullVehicles 1 10 [] (namesAndIds [.ofString "a", .ofString "b"] []) := rfl

theorem not_readFilters_comma : ¬ ∀ filters : FilterMap ProgLab6.Whole, Savable filters →
    readFilters (pullVehicles 1 10 [] filters).filter = some filters := by
  intro h
  have hone := h (namesAndIds [.ofString "a,name=b"] [])
    (savable_namesAndIds (by decide) (List.forall_mem_nil _))
  have htwo := h (namesAndIds [.ofString "a", .ofString "b"] [])
    (savable_namesAndIds (by decide) (List.forall_mem_nil _))
  rw [pullVehicles_comma, htwo] at hone
  have hlength := congrArg (fun filters => (filters Key.name).length) (Option.some.inj hone)
  cases hlength

end Queries

end Itmo.Soa
