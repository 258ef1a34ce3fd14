import Itmo.Lib.Table
import Mathlib.Data.Int.Notation

/-! The police database of `create.sql`: its tables, the trigger functions, and
the tables the service writes to, each with its keys, its foreign keys and its
triggers. Nullable columns are options, and a comparison with a null is decided
the way SQL decides it. Columns that no query, constraint or trigger reads
(dates, the race of a person, the type of a crime) are left out. -/

namespace Itmo.Police

open Lib

/-! ### Enumerations -/

inductive PersonRelation where
  | WITNESS
  | SUSPECT
  deriving DecidableEq, Repr

inductive CaseState where
  | ON_WORK
  | FREEZE
  | CLOSE
  deriving DecidableEq, Repr

inductive PoliceRank where
  | MAJOR
  | MINOR
  deriving DecidableEq, Repr

inductive PolicemanCaseStatus where
  | ASSIGNED
  | REMOVED
  deriving DecidableEq, Repr

/-! ### Rows -/

structure Precinct where
  number : ℤ
  deriving DecidableEq, Repr

structure Person where
  id : ℤ
  name : Option String
  deriving DecidableEq, Repr

structure Policeman where
  id : ℤ
  rank : PoliceRank
  series : String
  fkPerson : ℤ
  fkPrecinct : ℤ
  deriving DecidableEq, Repr

structure District where
  id : ℤ
  name : String
  deriving DecidableEq, Repr

structure PrecinctDistrict where
  fkDistrict : ℤ
  fkPrecinct : ℤ
  deriving DecidableEq, Repr

structure Crime where
  id : ℤ
  fkDistrict : Option ℤ
  deriving DecidableEq, Repr

structure CrimeCase where
  fkCrime : ℤ
  state : CaseState
  fkPolicemanMajor : ℤ
  deriving DecidableEq, Repr

structure PolicemanCase where
  fkPolicemanMajor : Option ℤ
  fkPolicemanMinor : ℤ
  fkCrime : ℤ
  status : PolicemanCaseStatus
  deriving DecidableEq, Repr

structure Note where
  id : ℤ
  fkPoliceman : ℤ
  fkCrime : ℤ
  note : String
  deriving DecidableEq, Repr

structure PersonRelevantToCase where
  fkCrime : ℤ
  fkPerson : ℤ
  fkPoliceman : ℤ
  relation : PersonRelation
  note : Option String
  deriving DecidableEq, Repr

/-- The tables, and the next value of the identity column of `note`. -/
structure Db where
  precinct : List Precinct
  person : List Person
  policeman : List Policeman
  district : List District
  precinctDistrict : List PrecinctDistrict
  crime : List Crime
  crimeCase : List CrimeCase
  policemanCase : List PolicemanCase
  note : List Note
  personRelevantToCase : List PersonRelevantToCase
  nextNoteId : ℤ
  deriving DecidableEq, Repr

/-- Why the database rejects a statement. -/
inductive DbError where
  | notNull
  | unique
  | foreignKey
  | noDataFound
  | tooManyRows
  | cardinality
  | raised (message : String)
  deriving DecidableEq, Repr

/-! ### Trigger functions -/

def raiseIf (b : Bool) (message : String) : Except DbError Unit :=
  if b then .error (.raised message) else .ok ()

/-- `SELECT ... INTO STRICT`. -/
def strict {α : Type*} (rows : List α) : Except DbError α :=
  exactlyOne .noDataFound .tooManyRows rows

/-- A scalar subquery: null without a row, an error with several. -/
def scalar {α : Type*} (rows : List α) : Except DbError (Option α) := atMostOne .cardinality rows

def checkHasName (db : Db) (new : Policeman) : Except DbError Unit := do
  let name ← strict ((db.person.filter (·.id = new.fkPerson)).map (·.name))
  raiseIf name.isNone "A policeman must be a person with name"

def checkClosed (old : CrimeCase) : Except DbError Unit :=
  raiseIf (old.state = .CLOSE) "The case can not be modified after closing"

def checkMajor (db : Db) (new : CrimeCase) : Except DbError Unit := do
  let rank ← strict ((db.policeman.filter (·.id = new.fkPolicemanMajor)).map (·.rank))
  raiseIf (rank ≠ .MAJOR) "Only major policeman can open a case"

/-- The districts of the precinct in which a policeman with this id works. -/
def districtsOf (db : Db) (policeman : ℤ) : List ℤ :=
  (db.policeman.filter (·.id = policeman)).flatMap fun p =>
    (db.precinctDistrict.filter (·.fkPrecinct = p.fkPrecinct)).map (·.fkDistrict)

/-- `x = ANY(l)` for an array without nulls: null when `x` is null and the array
is not empty. -/
def eqAny (x : Option ℤ) (l : List ℤ) : Option Bool :=
  match x with
  | some x => some (l.contains x)
  | none => if l.isEmpty then some false else none

def checkDistrict (db : Db) (new : CrimeCase) : Except DbError Unit := do
  let districtPoliceman := districtsOf db new.fkPolicemanMajor
  let districtCrime ← strict ((db.crime.filter (·.id = new.fkCrime)).map (·.fkDistrict))
  -- the branch is taken only when the negated comparison is true, not when it is null
  raiseIf ((eqAny districtCrime districtPoliceman).map (!·) = some true)
    "Policeman can not create a case because crime happened in different district"

def precinctOf (db : Db) (policeman : Option ℤ) : Except DbError (Option ℤ) :=
  scalar ((db.policeman.filter (some ·.id = policeman)).map (·.fkPrecinct))

def checkRanksAndPrecinct (db : Db) (new : PolicemanCase) : Except DbError Unit := do
  match new.fkPolicemanMajor with
  | some major =>
    let majorRank ← strict ((db.policeman.filter (·.id = major)).map (·.rank))
    raiseIf (majorRank = .MINOR) "Major policeman is not really one"
  | none => pure ()
  let minorRank ← strict ((db.policeman.filter (·.id = new.fkPolicemanMinor)).map (·.rank))
  raiseIf (minorRank ≠ .MINOR) "Minor policeman is not really one"
  let majorPrecinct ← precinctOf db new.fkPolicemanMajor
  let minorPrecinct ← precinctOf db (some new.fkPolicemanMinor)
  raiseIf (majorPrecinct.isSome && minorPrecinct.isSome && majorPrecinct ≠ minorPrecinct)
    "Major and minor are from different precincts"

def checkOpenedCase (db : Db) (fkCrime : ℤ) : Except DbError Unit :=
  raiseIf (!db.crimeCase.any (·.fkCrime = fkCrime)) "There is no case opened on such crime"

/-- The `%sd` of the message is filled with the state. -/
def CaseState.name : CaseState → String
  | .ON_WORK => "ON_WORK"
  | .FREEZE => "FREEZE"
  | .CLOSE => "CLOSE"

def checkCaseAndPoliceman (db : Db) (fkPoliceman fkCrime : ℤ) : Except DbError Unit := do
  let assignments := db.policemanCase.filter fun p =>
    p.fkPolicemanMinor = fkPoliceman ∧ p.fkCrime = fkCrime
  raiseIf assignments.isEmpty "A policeman is not assigned to this case"
  let status ← strict (assignments.map (·.status))
  raiseIf (status = .REMOVED) "A policeman is removed from this case"
  let state ← strict ((db.crimeCase.filter (·.fkCrime = fkCrime)).map (·.state))
  raiseIf (state ≠ .ON_WORK)
    ("Policeman can not make this action because case is " ++ state.name ++ "sd")

/-- The select of this function is not strict: the first row, or null. -/
def checkSelfAssign (db : Db) (new : PersonRelevantToCase) : Except DbError Unit :=
  let policemanPerson := ((db.policeman.filter (·.id = new.fkPoliceman)).map (·.fkPerson)).head?
  raiseIf (policemanPerson = some new.fkPerson)
    "A policeman cannot appoint himself as a person relevant to the case"

/-! ### Constraints -/

def noDuplicates {α κ : Type*} [DecidableEq κ] (key : α → κ) (rows : List α) :
    Except DbError Unit :=
  if (rows.map key).Nodup then .ok () else .error .unique

def references {α : Type*} (rows : List α) (key : α → ℤ) (fk : ℤ) : Except DbError Unit :=
  if rows.any (key · = fk) then .ok () else .error .foreignKey

def referencesOrNull {α : Type*} (rows : List α) (key : α → ℤ) :
    Option ℤ → Except DbError Unit
  | none => .ok ()
  | some fk => references rows key fk

/-- A foreign key of an updated row is looked up again only if it was changed. -/
def ifChanged {κ : Type*} [DecidableEq κ] (old new : κ) (check : Except DbError Unit) :
    Except DbError Unit :=
  if old = new then .ok () else check

/-! ### Tables

The after-row triggers of one event fire in the order of their names; those of
the foreign keys come first. -/

def crimeCaseTable : Table Db CrimeCase DbError where
  rows := Db.crimeCase
  setRows l db := { db with crimeCase := l }
  rows_setRows _ _ := rfl
  unique := noDuplicates CrimeCase.fkCrime
  afterInsert db new := do
    references db.crime Crime.id new.fkCrime
    references db.policeman Policeman.id new.fkPolicemanMajor
    checkDistrict db new
    checkMajor db new
  afterUpdate db old new := do
    ifChanged old.fkCrime new.fkCrime (references db.crime Crime.id new.fkCrime)
    ifChanged old.fkPolicemanMajor new.fkPolicemanMajor
      (references db.policeman Policeman.id new.fkPolicemanMajor)
    checkClosed old
    checkDistrict db new
    checkMajor db new

def policemanCaseTable : Table Db PolicemanCase DbError where
  rows := Db.policemanCase
  setRows l db := { db with policemanCase := l }
  rows_setRows _ _ := rfl
  unique _ := .ok ()
  afterInsert db new := do
    referencesOrNull db.policeman Policeman.id new.fkPolicemanMajor
    references db.policeman Policeman.id new.fkPolicemanMinor
    references db.crime Crime.id new.fkCrime
    checkOpenedCase db new.fkCrime
    checkRanksAndPrecinct db new
  afterUpdate db old new := do
    ifChanged old.fkPolicemanMajor new.fkPolicemanMajor
      (referencesOrNull db.policeman Policeman.id new.fkPolicemanMajor)
    ifChanged old.fkPolicemanMinor new.fkPolicemanMinor
      (references db.policeman Policeman.id new.fkPolicemanMinor)
    ifChanged old.fkCrime new.fkCrime (references db.crime Crime.id new.fkCrime)
    checkOpenedCase db new.fkCrime
    checkRanksAndPrecinct db new

def noteTable : Table Db Note DbError where
  rows := Db.note
  setRows l db := { db with note := l }
  rows_setRows _ _ := rfl
  unique := noDuplicates Note.id
  afterInsert db new := do
    references db.policeman Policeman.id new.fkPoliceman
    references db.crime Crime.id new.fkCrime
    checkCaseAndPoliceman db new.fkPoliceman new.fkCrime
    checkOpenedCase db new.fkCrime
  afterUpdate db old new := do
    ifChanged old.fkPoliceman new.fkPoliceman
      (references db.policeman Policeman.id new.fkPoliceman)
    ifChanged old.fkCrime new.fkCrime (references db.crime Crime.id new.fkCrime)
    checkCaseAndPoliceman db new.fkPoliceman new.fkCrime
    checkOpenedCase db new.fkCrime

def personRelevantToCaseTable : Table Db PersonRelevantToCase DbError where
  rows := Db.personRelevantToCase
  setRows l db := { db with personRelevantToCase := l }
  rows_setRows _ _ := rfl
  unique := noDuplicates fun r => (r.fkCrime, r.fkPerson)
  afterInsert db new := do
    references db.crime Crime.id new.fkCrime
    references db.person Person.id new.fkPerson
    references db.policeman Policeman.id new.fkPoliceman
    checkCaseAndPoliceman db new.fkPoliceman new.fkCrime
    checkOpenedCase db new.fkCrime
    checkSelfAssign db new
  afterUpdate db old new := do
    ifChanged old.fkCrime new.fkCrime (references db.crime Crime.id new.fkCrime)
    ifChanged old.fkPerson new.fkPerson (references db.person Person.id new.fkPerson)
    ifChanged old.fkPoliceman new.fkPoliceman
      (references db.policeman Policeman.id new.fkPoliceman)
    checkCaseAndPoliceman db new.fkPoliceman new.fkCrime
    checkOpenedCase db new.fkCrime
    checkSelfAssign db new

theorem noDuplicates_ok {α κ : Type*} [DecidableEq κ] {key : α → κ} {rows : List α}
    (h : noDuplicates key rows = .ok ()) : (rows.map key).Nodup := by
  unfold noDuplicates at h
  split at h
  · assumption
  · cases h

end Itmo.Police
