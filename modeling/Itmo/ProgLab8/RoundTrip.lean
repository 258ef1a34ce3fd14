import Itmo.ProgLab8.CommandLock
import Itmo.ProgLab8.Credentials
import Mathlib.Algebra.Order.Ring.Rat

/-! What the table of routes gives back. A route is written column by column and
read the same way, but the two heights are written as real numbers and read with
`getLong`, so only their integral parts come back: a route survives exactly if
its heights are whole numbers in the range of a `long`. -/

namespace Itmo.ProgLab8

open Lib Action

variable {D : Type} [Platform D]

/-! ### Reading a row -/

/-- The route in a row, with these integral parts of its heights. -/
def Row.read (row : Row D) (hv : row.Valid) (fromZ toZ : ℤ) : Route D where
  id := row.id
  name := row.name
  coordinates := ⟨row.cX, row.cY, hv.cX⟩
  creationDate := Platform.getDate D row.creationDate
  from_ := ⟨row.fromX, row.fromY, Platform.ofInt fromZ, row.fromName, hv.fromName⟩
  to_ := ⟨row.toX, row.toY, Platform.floatOfLong toZ⟩
  distance := row.distance
  owner := some row.owner
  validName := hv.name
  validDistance := hv.distance

/-- The columns of a row are within what the constructors and the driver accept. -/
structure Row.Readable (row : Row D) : Prop where
  valid : row.Valid
  fromZ : (Platform.getLong row.fromZ).isSome
  toZ : (Platform.getLong row.toZ).isSome

theorem getLong_ok_iff {x : D} {n : ℤ} : getLong x = .ok n ↔ Platform.getLong x = some n := by
  unfold getLong
  cases Platform.getLong x <;> simp

theorem Row.toRoute_read {row : Row D} (hv : row.Valid) {fromZ toZ : ℤ}
    (hf : Platform.getLong row.fromZ = some fromZ) (ht : Platform.getLong row.toZ = some toZ) :
    row.toRoute = .ok (row.read hv fromZ toZ) := by
  unfold toRoute Coordinates.new First.Location.new Route.new
  rw [getLong_ok_iff.mpr hf, getLong_ok_iff.mpr ht, dif_pos hv.cX]
  simp only [Except.bind, dif_pos hv.fromName, dif_pos (And.intro hv.name hv.distance)]
  rfl

/-- Reading a row is the only way to a route. -/
theorem Row.toRoute_ok {row : Row D} {route : Route D} (h : row.toRoute = .ok route) :
    ∃ hv fromZ toZ, Platform.getLong row.fromZ = some fromZ ∧
      Platform.getLong row.toZ = some toZ ∧ route = row.read hv fromZ toZ := by
  have hv := Row.valid_of_toRoute h
  have hx := h
  obtain ⟨_, -, hx⟩ := bind_ok hx
  obtain ⟨fromZ, hf, hx⟩ := bind_ok hx
  obtain ⟨_, -, hx⟩ := bind_ok hx
  obtain ⟨toZ, ht, -⟩ := bind_ok hx
  rw [getLong_ok_iff] at hf ht
  rw [Row.toRoute_read hv hf ht] at h
  exact ⟨hv, fromZ, toZ, hf, ht, (Except.ok.inj h).symm⟩

theorem Row.readable_of_toRoute {row : Row D} {route : Route D} (h : row.toRoute = .ok route) :
    row.Readable := by
  obtain ⟨hv, fromZ, toZ, hf, ht, -⟩ := Row.toRoute_ok h
  exact ⟨hv, by rw [hf]; rfl, by rw [ht]; rfl⟩

theorem Row.Readable.toRoute {row : Row D} (h : row.Readable) :
    ∃ route, row.toRoute = .ok route := by
  obtain ⟨fromZ, hf⟩ := Option.isSome_iff_exists.mp h.fromZ
  obtain ⟨toZ, ht⟩ := Option.isSome_iff_exists.mp h.toZ
  exact ⟨_, Row.toRoute_read h.valid hf ht⟩

/-- A list of routes comes back exactly if every row can be read. -/
theorem getRoutes_ok_iff {rows : List (Row D)} :
    (∃ data, getRoutes rows = .ok data) ↔ ∀ row ∈ rows, row.Readable := by
  constructor
  · rintro ⟨data, h⟩ row hrow
    obtain ⟨route, -, hr⟩ := exists_mem_of_forall₂ (getRoutes_ok h) hrow
    exact Row.readable_of_toRoute hr
  · intro h
    induction rows with
    | nil => exact ⟨[], rfl⟩
    | cons row rows ih =>
      rw [List.forall_mem_cons] at h
      obtain ⟨route, hr⟩ := h.1.toRoute
      obtain ⟨data, hd⟩ := ih h.2
      exact ⟨route :: data, by rw [getRoutes, hr, hd]; rfl⟩

/-! ### Heights -/

/-- A whole number, in the range of a `long`. -/
def Whole (z : D) : Prop := ∃ n, Platform.getLong z = some n ∧ Platform.ofInt n = z

/-- A whole number that is a `float`, in the range of a `long`. -/
def WholeFloat (z : D) : Prop := ∃ n, Platform.getLong z = some n ∧ Platform.floatOfLong n = z

/-- The integral part of a whole number is the number. -/
structure IntegralPart (D : Type) [Platform D] : Prop where
  ofInt : ∀ m n, Platform.getLong (Platform.ofInt m : D) = some n →
    (Platform.ofInt n : D) = Platform.ofInt m
  floatOfLong : ∀ m n, Platform.getLong (Platform.floatOfLong m : D) = some n →
    (Platform.floatOfLong n : D) = Platform.floatOfLong m

variable {rows : List (Row D)} {data : List (Route D)}

/-- Every height that is read is a whole number. -/
theorem heights_of_getRoutes (h : getRoutes rows = .ok data) {n : Route D} (hn : n ∈ data) :
    (∃ a, n.from_.z = Platform.ofInt a) ∧ ∃ b, n.to_.z = Platform.floatOfLong b := by
  obtain ⟨row, -, hread⟩ := exists_mem_of_forall₂ (getRoutes_ok h).flip hn
  obtain ⟨hv, fromZ, toZ, -, -, rfl⟩ := Row.toRoute_ok hread
  exact ⟨⟨fromZ, rfl⟩, toZ, rfl⟩

/-! ### Writing and reading -/

/-- The route `n` has what the client has said about `r`, and its owner is the user. -/
def SameData (r : Route D) (user : User) (n : Route D) : Prop :=
  n.name = r.name ∧ n.coordinates = r.coordinates ∧ n.from_ = r.from_ ∧ n.to_ = r.to_ ∧
    n.distance = r.distance ∧ n.owner = some user.user

/-- `getAllRoutes` returns the route. -/
def ReadsBack (s : Server D) (r : Route D) (user : User) : Prop :=
  ∃ data s', exec DatabaseWorker.getAllRoutes s = (.ok data, s') ∧ ∃ n ∈ data, SameData r user n

/-- The heights are whole, the other rows can be read, and the second statement,
which reads them, does not fail. -/
structure Survives (s : Server D) (r : Route D) : Prop where
  fromZ : Whole r.from_.z
  toZ : WholeFloat r.to_.z
  rows : ∀ row ∈ s.routes, row.Readable
  answered : s.world.fails (s.tick + 1) = false

theorem readsBack_iff (s : Server D) (r : Route D) (user : User) :
    ReadsBack s r user ↔ s.world.fails s.tick = false ∧
      ∃ data, getRoutes s.routes = .ok data ∧ ∃ n ∈ data, SameData r user n := by
  unfold ReadsBack
  rw [DatabaseWorker.exec_getAllRoutes]
  cases s.world.fails s.tick <;> simp

/-- The new row holds the route, with the integral parts of its heights. -/
theorem sameData_read (r : Route D) (user : User) (id : ℤ) {fromZ toZ : ℤ}
    (hf : Platform.ofInt fromZ = r.from_.z) (ht : Platform.floatOfLong toZ = r.to_.z) :
    SameData r user ((Row.ofRoute id r user.user).read (Row.valid_ofRoute _ _ _) fromZ toZ) := by
  refine ⟨rfl, rfl, ?_, ?_, rfl, rfl⟩
  · simp only [Row.read, Row.ofRoute, hf]
  · simp only [Row.read, Row.ofRoute, ht]

/-- A successful insertion adds one row. -/
theorem eq_of_addNewRoute {r : Route D} {user : User} {s s' : Server D}
    (h : exec (DatabaseWorker.addNewRoute (some r) user) s = (.ok true, s')) :
    s' = { s.next with
      routes := s.routes ++ [.ofRoute s.serial r user.user], serial := s.serial + 1 } := by
  rw [DatabaseWorker.exec_addNewRoute] at h
  cases hf : s.world.fails s.tick with
  | true =>
    rw [hf] at h
    cases h
  | false =>
    rw [hf] at h
    cases h
    rfl

/-- A route that was added comes back unchanged exactly if its heights are whole. -/
theorem round_trip_iff (hD : IntegralPart D) (r : Route D) (user : User) {s s' : Server D}
    (h : exec (DatabaseWorker.addNewRoute (some r) user) s = (.ok true, s')) :
    ReadsBack s' r user ↔ Survives s r := by
  obtain rfl := eq_of_addNewRoute h
  rw [readsBack_iff]
  dsimp only [Server.next]
  constructor
  · rintro ⟨hanswered, data, hdata, n, hn, -, -, hfrom, hto, -⟩
    have hreadable := getRoutes_ok_iff.mp ⟨data, hdata⟩
    rw [List.forall_mem_append, List.forall_mem_singleton] at hreadable
    obtain ⟨⟨a, ha⟩, b, hb⟩ := heights_of_getRoutes hdata hn
    have hnew := hreadable.2
    obtain ⟨fromZ, hfromZ⟩ := Option.isSome_iff_exists.mp hnew.fromZ
    obtain ⟨toZ, htoZ⟩ := Option.isSome_iff_exists.mp hnew.toZ
    have ha' : r.from_.z = Platform.ofInt a := by rw [← hfrom, ha]
    have hb' : r.to_.z = Platform.floatOfLong b := by rw [← hto, hb]
    simp only [Row.ofRoute] at hfromZ htoZ
    refine ⟨⟨fromZ, hfromZ, ?_⟩, ⟨toZ, htoZ, ?_⟩, hreadable.1, hanswered⟩
    · rw [ha'] at hfromZ ⊢
      exact hD.ofInt a fromZ hfromZ
    · rw [hb'] at htoZ ⊢
      exact hD.floatOfLong b toZ htoZ
  · rintro ⟨⟨fromZ, hfromZ, hfrom⟩, ⟨toZ, htoZ, hto⟩, hrows, hanswered⟩
    refine ⟨hanswered, ?_⟩
    have hread := Row.toRoute_read (Row.valid_ofRoute s.serial r user.user) hfromZ htoZ
    have hall : ∀ row ∈ s.routes ++ [.ofRoute s.serial r user.user], row.Readable := by
      rw [List.forall_mem_append, List.forall_mem_singleton]
      exact ⟨hrows, Row.readable_of_toRoute hread⟩
    obtain ⟨data, hdata⟩ := getRoutes_ok_iff.mpr hall
    obtain ⟨n, hn, hn'⟩ := exists_mem_of_forall₂ (getRoutes_ok hdata)
      (List.mem_append_right s.routes (List.mem_singleton_self _))
    rw [hread] at hn'
    cases hn'
    exact ⟨data, hdata, _, hn, sameData_read r user _ hfrom hto⟩

/-! ### Fractions -/

/-- The platform on `double` values that are rational, for concrete runs in which
every root is a root of a square. -/
instance : Platform ℚ where
  lt a b := a < b
  le a b := a ≤ b
  add a b := a + b
  square a := a ^ 2
  sqrt a := mkRat (isqrt a.num.toNat) (isqrt a.den)
  ofInt n := n
  floatOfLong n := n
  equals a b := a = b
  parseDouble s := (parseDigits 10 s).map fun n => (n : ℚ)
  getLong a :=
    let n := a.num.tdiv a.den
    if -2 ^ 63 ≤ n ∧ n < 2 ^ 63 then some n else none
  getDate t := t - t % 86400000
  hash256 s := (digests.lookup s).getD []
  lt_asymm a b h := by
    rw [decide_eq_true_eq] at h
    rw [decide_eq_false_iff_not]
    exact lt_asymm h

theorem integralPart_rat : IntegralPart ℚ := by
  have hwhole : ∀ m n : ℤ, Platform.getLong (m : ℚ) = some n → (n : ℚ) = m := by
    intro m n h
    simp only [Platform.getLong, Rat.num_intCast, Rat.den_intCast, Nat.cast_one,
      Int.tdiv_one] at h
    split_ifs at h
    rw [Option.some.inj h]
  exact ⟨hwhole, hwhole⟩

theorem ofString_A_ne_nil : JString.ofString "A" ≠ [] := by decide

theorem ofString_B_ne_nil : JString.ofString "B" ≠ [] := by decide

/-- A route from a place of this height. -/
def Route.atHeight (z : ℚ) : Route ℚ where
  id := 0
  name := .ofString "A"
  coordinates := ⟨0, 0, by decide +kernel⟩
  creationDate := 0
  from_ := ⟨0, 0, z, .ofString "B", ofString_B_ne_nil⟩
  to_ := ⟨0, 0, 0⟩
  distance := 2
  owner := none
  validName := ofString_A_ne_nil
  validDistance := by decide +kernel

/-- A server without routes, whose statements all succeed. -/
def rationalServer : Server ℚ where
  routes := []
  serial := 1
  userdata := []
  cache := ⟨[], 0⟩
  locked := false
  halted := false
  world := ⟨fun _ => false, fun _ => 0⟩
  tick := 0

/-- The server after `addNewRoute` of a route of this height. -/
def addedAtHeight (z : ℚ) : Server ℚ :=
  (exec (DatabaseWorker.addNewRoute (some (.atHeight z)) egg) rationalServer).2

/-- The height 7 comes back. -/
theorem round_trip_seven : ReadsBack (addedAtHeight 7) (.atHeight 7) egg := by
  have hsurvives : Survives rationalServer (.atHeight 7) :=
    { fromZ := ⟨7, by decide +kernel, rfl⟩
      toZ := ⟨0, by decide +kernel, rfl⟩
      rows := List.forall_mem_nil _
      answered := rfl }
  exact (round_trip_iff integralPart_rat (.atHeight 7) egg rfl).mpr hsurvives

/-- The height 1/2 does not. -/
theorem fraction_lost :
    (exec (DatabaseWorker.addNewRoute (some (.atHeight (1 / 2))) egg) rationalServer).1 = .ok true ∧
      ¬ ReadsBack (addedAtHeight (1 / 2)) (.atHeight (1 / 2)) egg := by
  refine ⟨rfl, fun h => ?_⟩
  obtain ⟨-, data, hdata, n, hn, -, -, hfrom, -⟩ := (readsBack_iff _ _ _).mp h
  obtain ⟨⟨a, ha⟩, -⟩ := heights_of_getRoutes hdata hn
  have hhalf : (a : ℚ) = 1 / 2 := by
    rw [hfrom] at ha
    exact ha.symm
  have hden := congrArg Rat.den hhalf
  rw [Rat.den_intCast] at hden
  revert hden
  decide +kernel

end Itmo.ProgLab8
