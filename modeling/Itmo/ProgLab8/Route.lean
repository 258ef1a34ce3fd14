import Itmo.ProgLab8.Java

/-! Routes. The constructors of `Coordinates`, `first.Location` and `Route`
refuse some values, and what they refuse is a field of the structures here, so
every route of the model is one a constructor has let through. Routes are ordered
by distance, then by the norms of their three positions, then by name. -/

namespace Itmo.ProgLab8

open Lib

/-! ### Positions -/

structure Coordinates (D : Type) [Platform D] where
  x : D
  y : ℤ
  valid : Platform.le x (Platform.ofInt (-140)) = false
  deriving DecidableEq

namespace First

structure Location (D : Type) where
  x : D
  y : ℤ
  z : D
  name : JString
  valid : name ≠ []
  deriving DecidableEq

end First

namespace Second

structure Location (D : Type) where
  x : ℤ
  y : ℤ
  z : D
  deriving DecidableEq

end Second

variable {D : Type} [Platform D]

def Coordinates.new (x : D) (y : ℤ) : Except Throwable (Coordinates D) :=
  if h : Platform.le x (Platform.ofInt (-140)) = false then .ok ⟨x, y, h⟩
  else .error .IllegalArgumentException

def First.Location.new (x : D) (y : ℤ) (z : D) (name : JString) :
    Except Throwable (First.Location D) :=
  if h : name ≠ [] then .ok ⟨x, y, z, name, h⟩ else .error .IllegalArgumentException

def Coordinates.norm (c : Coordinates D) : D :=
  Platform.sqrt (Platform.add (Platform.square c.x) (Platform.square (Platform.ofInt c.y)))

def First.Location.norm (l : First.Location D) : D :=
  Platform.sqrt (Platform.add
    (Platform.add (Platform.square l.x) (Platform.square (Platform.ofInt l.y)))
    (Platform.square l.z))

def Second.Location.norm (l : Second.Location D) : D :=
  Platform.sqrt (Platform.add
    (Platform.add (Platform.square (Platform.ofInt l.x)) (Platform.square (Platform.ofInt l.y)))
    (Platform.square l.z))

def Coordinates.compareTo (a b : Coordinates D) : ℤ := compareDouble a.norm b.norm

def First.Location.compareTo (a b : First.Location D) : ℤ :=
  thenCompare (compareDouble a.norm b.norm) (a.name.compareTo b.name)

def Second.Location.compareTo (a b : Second.Location D) : ℤ := compareDouble a.norm b.norm

theorem Coordinates.swapNeg_compareTo : SwapNeg (Coordinates.compareTo (D := D)) :=
  swapNeg_compareDouble.comp Coordinates.norm

theorem First.Location.swapNeg_compareTo : SwapNeg (First.Location.compareTo (D := D)) :=
  (swapNeg_compareDouble.comp First.Location.norm).then
    (JString.swapNeg_compareTo.comp First.Location.name)

theorem Second.Location.swapNeg_compareTo : SwapNeg (Second.Location.compareTo (D := D)) :=
  swapNeg_compareDouble.comp Second.Location.norm

section Linear

variable (h : LinearValues D)

include h

theorem Coordinates.transGE_compareTo : TransGE (Coordinates.compareTo (D := D)) :=
  (transGE_compareDouble h).comp Coordinates.norm

theorem First.Location.transGE_compareTo : TransGE (First.Location.compareTo (D := D)) :=
  ((transGE_compareDouble h).comp First.Location.norm).then
    (JString.transGE_compareTo.comp First.Location.name)
    (swapNeg_compareDouble.comp First.Location.norm)

theorem Second.Location.transGE_compareTo : TransGE (Second.Location.compareTo (D := D)) :=
  (transGE_compareDouble h).comp Second.Location.norm

end Linear

/-! ### Routes -/

/-- A route; one that a client has made has id 0 and no owner. -/
structure Route (D : Type) [Platform D] where
  id : ℤ
  name : JString
  coordinates : Coordinates D
  creationDate : ℤ
  from_ : First.Location D
  to_ : Second.Location D
  distance : D
  owner : Option JString
  validName : name ≠ []
  validDistance : Platform.le distance (Platform.ofInt 1) = false
  deriving DecidableEq

namespace Route

def new (name : JString) (creationDate : ℤ) (coordinates : Coordinates D)
    (from_ : First.Location D) (to_ : Second.Location D) (distance : D) (id : ℤ)
    (owner : Option JString) : Except Throwable (Route D) :=
  if h : name ≠ [] ∧ Platform.le distance (Platform.ofInt 1) = false then
    .ok { id, name, coordinates, creationDate, from_, to_, distance, owner,
          validName := h.1, validDistance := h.2 }
  else .error .IllegalArgumentException

def compareTo (a b : Route D) : ℤ :=
  thenCompare (compareDouble a.distance b.distance) <|
    thenCompare (a.coordinates.compareTo b.coordinates) <|
      thenCompare (a.from_.compareTo b.from_) <|
        thenCompare (a.to_.compareTo b.to_) (a.name.compareTo b.name)

/-- Which of two routes is the greater does not depend on which one is asked. -/
theorem swapNeg_compareTo : SwapNeg (compareTo (D := D)) :=
  (swapNeg_compareDouble.comp distance).then <|
    (Coordinates.swapNeg_compareTo.comp coordinates).then <|
      (First.Location.swapNeg_compareTo.comp from_).then <|
        (Second.Location.swapNeg_compareTo.comp to_).then (JString.swapNeg_compareTo.comp name)

/-- The order of routes is one: what is not greater is transitive. -/
theorem transGE_compareTo (h : LinearValues D) : TransGE (compareTo (D := D)) :=
  ((transGE_compareDouble h).comp distance).then
    (((Coordinates.transGE_compareTo h).comp coordinates).then
      (((First.Location.transGE_compareTo h).comp from_).then
        (((Second.Location.transGE_compareTo h).comp to_).then
          (JString.transGE_compareTo.comp name) (Second.Location.swapNeg_compareTo.comp to_))
        (First.Location.swapNeg_compareTo.comp from_))
      (Coordinates.swapNeg_compareTo.comp coordinates))
    (swapNeg_compareDouble.comp distance)

/-- A route of the owner `egg` at a point, for concrete runs. -/
def atPoint (id x y : ℤ) (h : Platform.le x (-140) = false := by decide) : Route ℤ where
  id := id
  name := .ofString "A"
  coordinates := ⟨x, y, h⟩
  creationDate := 0
  from_ := ⟨0, 0, 0, .ofString "B", by decide⟩
  to_ := ⟨0, 0, 0⟩
  distance := 2
  owner := some (.ofString "egg")
  validName := by decide
  validDistance := by decide

end Route

end Itmo.ProgLab8
