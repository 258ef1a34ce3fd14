import Itmo.Police.Schema

/-! The queries of the repositories of `policeback`. A query that returns an
`Optional` fails when it finds several rows; the scalar subqueries of its select
list are evaluated for the one row it found. The writing queries are the
statements of the tables they name. -/

namespace Itmo.Police

open Lib

/-- What ends a request without an answer: an error of the database, a query
with too many results, or an unboxed null. -/
inductive Failure where
  | database (e : DbError)
  | incorrectResultSize
  | nullPointer
  deriving DecidableEq, Repr

def ofDb {α : Type*} : Except DbError α → Except Failure α
  | .ok x => .ok x
  | .error e => .error (.database e)

/-- A repository method returning an `Optional`. -/
def optional {α : Type*} (rows : List α) : Except Failure (Option α) :=
  atMostOne .incorrectResultSize rows

theorem optional_mem {α : Type*} {rows : List α} {x : α} (h : optional rows = .ok (some x)) :
    x ∈ rows := atMostOne_mem h

theorem ofDb_ok {α : Type*} {x : Except DbError α} {y : α} (h : ofDb x = .ok y) : x = .ok y := by
  cases x with
  | error e => cases h
  | ok x => cases h; rfl

/-- `=` of SQL: null if either side is. -/
def sqlEq {α : Type*} [DecidableEq α] (x y : Option α) : Option Bool :=
  x.bind fun x => y.map fun y => decide (x = y)

/-- `SELECT id FROM policeman WHERE series = :series`. -/
def policemanIdBySeries (db : Db) (series : String) : Except DbError (Option ℤ) :=
  scalar ((db.policeman.filter (·.series = series)).map (·.id))

/-- The subquery finds the policeman of a series if he is the only one. -/
theorem policemanIdBySeries_mem {db : Db} {series : String} {self : Option ℤ}
    (h : policemanIdBySeries db series = .ok self) {p : Policeman} (hp : p ∈ db.policeman)
    (hseries : p.series = series) :
    db.policeman.filter (·.series = series) = [p] ∧ self = some p.id := by
  have hmem : p ∈ db.policeman.filter (·.series = series) :=
    List.mem_filter.mpr ⟨hp, decide_eq_true hseries⟩
  unfold policemanIdBySeries scalar at h
  match hlist : db.policeman.filter (·.series = series) with
  | [] =>
    rw [hlist] at hmem
    cases hmem
  | [q] =>
    rw [hlist] at hmem h
    cases h
    rw [List.mem_singleton.mp hmem]
    exact ⟨hlist, rfl⟩
  | _ :: _ :: _ =>
    rw [hlist] at h
    cases h

def hasSeries (db : Db) (series : String) (policeman : ℤ) : Bool :=
  db.policeman.any fun p => p.id = policeman ∧ p.series = series

theorem hasSeries_iff {db : Db} {series : String} {policeman : ℤ} : hasSeries db series policeman ↔
    ∃ p ∈ db.policeman, p.id = policeman ∧ p.series = series := by
  simp [hasSeries]

theorem policemanIdBySeries_some {db : Db} {series : String} {id : ℤ}
    (h : policemanIdBySeries db series = .ok (some id)) : hasSeries db series id := by
  have hmem := atMostOne_mem h
  simp only [List.mem_map, List.mem_filter, decide_eq_true_eq] at hmem
  obtain ⟨p, ⟨hp, hs⟩, hid⟩ := hmem
  exact hasSeries_iff.mpr ⟨p, hp, hid, hs⟩

/-- A column that must not be null. -/
def notNull {α : Type*} : Option α → Except DbError α
  | some x => .ok x
  | none => .error .notNull

theorem notNull_ok {α : Type*} {x : Option α} {y : α} (h : notNull x = .ok y) : x = some y := by
  cases x with
  | none => cases h
  | some x => cases h; rfl

/-! ### Crime cases -/

namespace CrimeCaseRepository

structure InfoBeforeCreation where
  crimeCaseExists : Bool
  districtId : Option ℤ

def getInfoBeforeCreation (db : Db) (crimeId : Option ℤ) :
    Except Failure (Option InfoBeforeCreation) :=
  optional ((db.crime.filter (some ·.id = crimeId)).flatMap fun cr =>
    (leftJoin db.crimeCase (·.fkCrime = cr.id)).map fun crC => ⟨crC.isSome, cr.fkDistrict⟩)

structure InfoBeforeStateUpdate where
  crimeCaseExists : Bool
  caseState : Option CaseState
  ownerSeries : Option String

/-- The path `cr_c.policemanMajor.series` is an inner join with the policeman, so
a crime without a case gives no row. -/
def getInfoBeforeStateUpdate (db : Db) (crimeId : ℤ) :
    Except Failure (Option InfoBeforeStateUpdate) :=
  optional ((db.crime.filter (·.id = crimeId)).flatMap fun cr =>
    (leftJoin db.crimeCase (·.fkCrime = cr.id)).flatMap fun crC =>
      (db.policeman.filter (fun p => crC.map (·.fkPolicemanMajor) = some p.id)).map fun p =>
        ⟨crC.isSome, crC.map (·.state), some p.series⟩)

/-- The row it found comes from a case of the crime and the policeman it names. -/
theorem getInfoBeforeStateUpdate_some {db : Db} {crimeId : ℤ} {info : InfoBeforeStateUpdate}
    (h : getInfoBeforeStateUpdate db crimeId = .ok (some info)) :
    ∃ crC ∈ db.crimeCase, ∃ p ∈ db.policeman, crC.fkCrime = crimeId ∧
      p.id = crC.fkPolicemanMajor ∧ info = ⟨true, some crC.state, some p.series⟩ := by
  have hmem := optional_mem h
  simp only [List.mem_flatMap, List.mem_map, List.mem_filter, decide_eq_true_eq] at hmem
  obtain ⟨cr, ⟨-, rfl⟩, crC, hcrC, p, ⟨hp, hmajor⟩, rfl⟩ := hmem
  cases crC with
  | none => cases hmajor
  | some crC =>
    obtain ⟨hmem, hcrime⟩ := some_mem_leftJoin hcrC
    simp only [Option.map_some, Option.some.injEq] at hmajor
    exact ⟨crC, hmem, p, hp, by simpa using hcrime, hmajor.symm, rfl⟩

def create (crimeId : Option ℤ) (series : String) (db : Db) : Except DbError Db := do
  let major ← notNull (← policemanIdBySeries db series)
  let crime ← notNull crimeId
  crimeCaseTable.insert ⟨crime, .ON_WORK, major⟩ db

theorem create_ok {crimeId : Option ℤ} {series : String} {db db' : Db}
    (h : create crimeId series db = .ok db') : ∃ major crime,
      policemanIdBySeries db series = .ok (some major) ∧ crimeId = some crime ∧
      crimeCaseTable.insert ⟨crime, .ON_WORK, major⟩ db = .ok db' := by
  obtain ⟨id, hid, h⟩ := bind_ok h
  obtain ⟨major, hmajor, h⟩ := bind_ok h
  obtain ⟨crime, hcrime, h⟩ := bind_ok h
  exact ⟨major, crime, by rw [hid, notNull_ok hmajor], notNull_ok hcrime, h⟩

def updateState (crimeId : ℤ) (state : CaseState) : Db → Except DbError Db :=
  crimeCaseTable.update (·.fkCrime = crimeId) fun r => { r with state := state }

end CrimeCaseRepository

/-- `PolicemanRepository.getDistrictIds`. -/
def getDistrictIds (db : Db) (series : String) : List ℤ :=
  (db.policeman.filter (·.series = series)).flatMap fun pol =>
    (db.precinct.filter (·.number = pol.fkPrecinct)).flatMap fun pr =>
      (db.precinctDistrict.filter (·.fkPrecinct = pr.number)).flatMap fun pd =>
        (db.district.filter (·.id = pd.fkDistrict)).map (·.id)

/-! ### Assignments -/

namespace PolicemanCaseRepository

structure InfoBeforePut where
  crimeCaseExists : Bool
  caseState : Option CaseState
  policemanCaseExists : Bool
  ownerSeries : Option String
  slaveExists : Bool

/-- The joined rows of `getInfoBeforePut`. -/
def infoBeforePutRows (db : Db) (crimeId slaveId : Option ℤ) :
    List (Option CrimeCase × Option PolicemanCase × Option Policeman) :=
  (db.crime.filter (some ·.id = crimeId)).flatMap fun cr =>
    (leftJoin db.crimeCase (·.fkCrime = cr.id)).flatMap fun crC =>
      (leftJoin db.policemanCase fun polC =>
          polC.fkCrime = cr.id ∧ some polC.fkPolicemanMinor = slaveId).flatMap fun polC =>
        (leftJoin db.policeman (some ·.id = slaveId)).map fun pol => (crC, polC, pol)

/-- The series of the policeman who made an assignment. -/
def ownerSeries (db : Db) (polC : Option PolicemanCase) : Except DbError (Option String) :=
  scalar ((db.policeman.filter fun p => polC.bind (·.fkPolicemanMajor) = some p.id).map (·.series))

def getInfoBeforePut (db : Db) (crimeId slaveId : Option ℤ) :
    Except Failure (Option InfoBeforePut) := do
  match ← optional (infoBeforePutRows db crimeId slaveId) with
  | none => return none
  | some (crC, polC, pol) =>
    let owner ← ofDb (ownerSeries db polC)
    return some ⟨crC.isSome, crC.map (·.state), polC.isSome, owner, pol.isSome⟩

theorem mem_infoBeforePutRows {db : Db} {crimeId slaveId : Option ℤ} {crC : Option CrimeCase}
    {polC : Option PolicemanCase} {pol : Option Policeman}
    (h : (crC, polC, pol) ∈ infoBeforePutRows db crimeId slaveId) : ∃ cr ∈ db.crime,
      some cr.id = crimeId ∧ crC ∈ leftJoin db.crimeCase (·.fkCrime = cr.id) ∧
      (polC ∈ leftJoin db.policemanCase fun polC =>
        polC.fkCrime = cr.id ∧ some polC.fkPolicemanMinor = slaveId) ∧
      pol ∈ leftJoin db.policeman (some ·.id = slaveId) := by
  simp only [infoBeforePutRows, List.mem_flatMap, List.mem_map, List.mem_filter,
    decide_eq_true_eq] at h
  obtain ⟨cr, ⟨hcr, hid⟩, _, hcrC, _, hpolC, _, hpol, h⟩ := h
  cases h
  exact ⟨cr, hcr, hid, hcrC, hpolC, hpol⟩

theorem getInfoBeforePut_some {db : Db} {crimeId slaveId : Option ℤ} {info : InfoBeforePut}
    (h : getInfoBeforePut db crimeId slaveId = .ok (some info)) : ∃ crC polC pol owner,
      (crC, polC, pol) ∈ infoBeforePutRows db crimeId slaveId ∧
      ownerSeries db polC = .ok owner ∧
      info = ⟨crC.isSome, crC.map (·.state), polC.isSome, owner, pol.isSome⟩ := by
  obtain ⟨row, hrow, h⟩ := bind_ok h
  cases row with
  | none => cases h
  | some row =>
    obtain ⟨crC, polC, pol⟩ := row
    obtain ⟨owner, howner, h⟩ := bind_ok h
    cases h
    exact ⟨crC, polC, pol, owner, optional_mem hrow, ofDb_ok howner, rfl⟩

/-- The series it gives is that of the policeman the assignment names. -/
theorem ownerSeries_some {db : Db} {polC : Option PolicemanCase} {series : String}
    (h : ownerSeries db polC = .ok (some series)) :
    ∃ major, polC.bind (·.fkPolicemanMajor) = some major ∧ hasSeries db series major := by
  have hmem := atMostOne_mem h
  simp only [List.mem_map, List.mem_filter, decide_eq_true_eq] at hmem
  obtain ⟨p, ⟨hp, hmajor⟩, hs⟩ := hmem
  exact ⟨p.id, hmajor, hasSeries_iff.mpr ⟨p, hp, rfl, hs⟩⟩

def addOnCase (crimeId slaveId : Option ℤ) (onCaseStatus : PolicemanCaseStatus)
    (series : String) (db : Db) : Except DbError Db := do
  let major ← policemanIdBySeries db series
  let crime ← notNull crimeId
  let minor ← notNull slaveId
  policemanCaseTable.insert ⟨major, minor, crime, onCaseStatus⟩ db

theorem addOnCase_ok {crimeId slaveId : Option ℤ} {status : PolicemanCaseStatus} {series : String}
    {db db' : Db} (h : addOnCase crimeId slaveId status series db = .ok db') :
    ∃ major crime minor, policemanIdBySeries db series = .ok major ∧ crimeId = some crime ∧
      slaveId = some minor ∧
      policemanCaseTable.insert ⟨major, minor, crime, status⟩ db = .ok db' := by
  obtain ⟨major, hmajor, h⟩ := bind_ok h
  obtain ⟨crime, hcrime, h⟩ := bind_ok h
  obtain ⟨minor, hminor, h⟩ := bind_ok h
  exact ⟨major, crime, minor, hmajor, notNull_ok hcrime, notNull_ok hminor, h⟩

def update (crimeId slaveId : Option ℤ) (newOnCaseStatus : PolicemanCaseStatus) :
    Db → Except DbError Db :=
  policemanCaseTable.update (fun r => some r.fkCrime = crimeId ∧ some r.fkPolicemanMinor = slaveId)
    fun r => { r with status := newOnCaseStatus }

end PolicemanCaseRepository

/-! ### Notes -/

namespace NoteRepository

structure InfoBeforeCreation where
  crimeCaseExists : Bool
  caseState : Option CaseState
  policemanCaseExists : Bool
  onCaseStatus : Option PolicemanCaseStatus

/-- The case of a crime, and the assignments to it of the policemen with a
series; shared by the queries of notes and of relevant persons. -/
def caseAndAssignment (db : Db) (cr : Crime) (series : String) :
    List (Option CrimeCase × Option PolicemanCase) :=
  (leftJoin db.crimeCase (·.fkCrime = cr.id)).flatMap fun crC =>
    (leftJoin db.policemanCase fun polC =>
      polC.fkCrime = cr.id ∧ hasSeries db series polC.fkPolicemanMinor).map fun polC => (crC, polC)

def getInfoBeforeCreation (db : Db) (series : String) (crimeId : Option ℤ) :
    Except Failure (Option InfoBeforeCreation) :=
  optional ((db.crime.filter (some ·.id = crimeId)).flatMap fun cr =>
    (caseAndAssignment db cr series).map fun (crC, polC) =>
      ⟨crC.isSome, crC.map (·.state), polC.isSome, polC.map (·.status)⟩)

/-- The identity column takes the next value of its sequence, which stays taken
even if the row is rejected; only the accepted case is the state here. -/
def create (crimeId : Option ℤ) (series : String) (text : Option String) (db : Db) :
    Except DbError Db := do
  let policeman ← notNull (← policemanIdBySeries db series)
  let crime ← notNull crimeId
  let note ← notNull text
  noteTable.insert ⟨db.nextNoteId, policeman, crime, note⟩
    { db with nextNoteId := db.nextNoteId + 1 }

theorem create_ok {crimeId : Option ℤ} {series : String} {text : Option String} {db db' : Db}
    (h : create crimeId series text db = .ok db') : ∃ policeman crime note,
      policemanIdBySeries db series = .ok (some policeman) ∧ crimeId = some crime ∧
      text = some note ∧ noteTable.insert ⟨db.nextNoteId, policeman, crime, note⟩
        { db with nextNoteId := db.nextNoteId + 1 } = .ok db' := by
  obtain ⟨id, hid, h⟩ := bind_ok h
  obtain ⟨policeman, hpoliceman, h⟩ := bind_ok h
  obtain ⟨crime, hcrime, h⟩ := bind_ok h
  obtain ⟨note, hnote, h⟩ := bind_ok h
  exact ⟨policeman, crime, note, by rw [hid, notNull_ok hpoliceman], notNull_ok hcrime,
    notNull_ok hnote, h⟩

end NoteRepository

/-! ### Relevant persons -/

namespace PersonRelevantToCaseRepository

structure InfoBeforePut where
  crimeCaseExists : Bool
  caseState : Option CaseState
  policemanCaseExists : Bool
  onCaseStatus : Option PolicemanCaseStatus
  personExists : Bool
  hasRecord : Bool
  isOwner : Option Bool
  isSelfRecording : Option Bool

/-- The joined rows of `getInfoBeforePut`. -/
def infoBeforePutRows (db : Db) (crimeId personId : Option ℤ) (series : String) :
    List (Option CrimeCase × Option PolicemanCase × Option PersonRelevantToCase × Option Person) :=
  (db.crime.filter (some ·.id = crimeId)).flatMap fun cr =>
    (NoteRepository.caseAndAssignment db cr series).flatMap fun (crC, polC) =>
      (leftJoin db.personRelevantToCase fun r =>
          r.fkCrime = cr.id ∧ some r.fkPerson = personId).flatMap fun perCR =>
        (leftJoin db.person (some ·.id = personId)).map fun per => (crC, polC, perCR, per)

def getInfoBeforePut (db : Db) (crimeId personId : Option ℤ) (series : String) :
    Except Failure (Option InfoBeforePut) := do
  match ← optional (infoBeforePutRows db crimeId personId series) with
  | none => return none
  | some (crC, polC, perCR, per) =>
    let self ← ofDb (policemanIdBySeries db series)
    let selfPerson ← ofDb (scalar ((db.policeman.filter (·.series = series)).map (·.fkPerson)))
    return some {
      crimeCaseExists := crC.isSome
      caseState := crC.map (·.state)
      policemanCaseExists := polC.isSome
      onCaseStatus := polC.map (·.status)
      personExists := per.isSome
      hasRecord := perCR.isSome
      isOwner := sqlEq (perCR.map (·.fkPoliceman)) self
      isSelfRecording := sqlEq (per.map (·.id)) selfPerson }

theorem mem_infoBeforePutRows {db : Db} {crimeId personId : Option ℤ} {series : String}
    {crC : Option CrimeCase} {polC : Option PolicemanCase} {perCR : Option PersonRelevantToCase}
    {per : Option Person}
    (h : (crC, polC, perCR, per) ∈ infoBeforePutRows db crimeId personId series) :
    ∃ cr ∈ db.crime, some cr.id = crimeId ∧
      (crC, polC) ∈ NoteRepository.caseAndAssignment db cr series ∧
      (perCR ∈ leftJoin db.personRelevantToCase fun r =>
        r.fkCrime = cr.id ∧ some r.fkPerson = personId) ∧
      per ∈ leftJoin db.person (some ·.id = personId) := by
  simp only [infoBeforePutRows, List.mem_flatMap, List.mem_map, List.mem_filter,
    decide_eq_true_eq] at h
  obtain ⟨cr, ⟨hcr, hid⟩, ⟨_, _⟩, hcase, _, hperCR, _, hper, h⟩ := h
  cases h
  exact ⟨cr, hcr, hid, hcase, hperCR, hper⟩

theorem getInfoBeforePut_some {db : Db} {crimeId personId : Option ℤ} {series : String}
    {info : InfoBeforePut} (h : getInfoBeforePut db crimeId personId series = .ok (some info)) :
    ∃ crC polC perCR per self selfPerson,
      (crC, polC, perCR, per) ∈ infoBeforePutRows db crimeId personId series ∧
      policemanIdBySeries db series = .ok self ∧
      scalar ((db.policeman.filter (·.series = series)).map (·.fkPerson)) = .ok selfPerson ∧
      info = {
        crimeCaseExists := crC.isSome
        caseState := crC.map (·.state)
        policemanCaseExists := polC.isSome
        onCaseStatus := polC.map (·.status)
        personExists := per.isSome
        hasRecord := perCR.isSome
        isOwner := sqlEq (perCR.map (·.fkPoliceman)) self
        isSelfRecording := sqlEq (per.map (·.id)) selfPerson } := by
  obtain ⟨row, hrow, h⟩ := bind_ok h
  cases row with
  | none => cases h
  | some row =>
    obtain ⟨crC, polC, perCR, per⟩ := row
    obtain ⟨self, hself, h⟩ := bind_ok h
    obtain ⟨selfPerson, hperson, h⟩ := bind_ok h
    cases h
    exact ⟨crC, polC, perCR, per, self, selfPerson, optional_mem hrow, ofDb_ok hself,
      ofDb_ok hperson, rfl⟩

def addCaseRelation (crimeId personId : Option ℤ) (relation : PersonRelation) (note : String)
    (series : String) (db : Db) : Except DbError Db := do
  let policeman ← notNull (← policemanIdBySeries db series)
  let crime ← notNull crimeId
  let person ← notNull personId
  personRelevantToCaseTable.insert ⟨crime, person, policeman, relation, some note⟩ db

theorem addCaseRelation_ok {crimeId personId : Option ℤ} {relation : PersonRelation}
    {note series : String} {db db' : Db}
    (h : addCaseRelation crimeId personId relation note series db = .ok db') :
    ∃ policeman crime person, policemanIdBySeries db series = .ok (some policeman) ∧
      crimeId = some crime ∧ personId = some person ∧
      personRelevantToCaseTable.insert ⟨crime, person, policeman, relation, some note⟩ db =
        .ok db' := by
  obtain ⟨id, hid, h⟩ := bind_ok h
  obtain ⟨policeman, hpoliceman, h⟩ := bind_ok h
  obtain ⟨crime, hcrime, h⟩ := bind_ok h
  obtain ⟨person, hperson, h⟩ := bind_ok h
  exact ⟨policeman, crime, person, by rw [hid, notNull_ok hpoliceman], notNull_ok hcrime,
    notNull_ok hperson, h⟩

def updateCaseRelation (crimeId personId : Option ℤ) (relation : PersonRelation)
    (note : Option String) : Db → Except DbError Db :=
  personRelevantToCaseTable.update
    (fun r => some r.fkCrime = crimeId ∧ some r.fkPerson = personId)
    fun r => { r with relation := relation, note := note }

end PersonRelevantToCaseRepository

end Itmo.Police
