import Itmo.Lib.System
import Itmo.Police.Repositories

/-! The services and controllers of `policeback` that write. A request is first
checked against the database; the check ends with an answer or with one write
and the answer to give if the write goes through. The write is a separate step,
so that other requests may come between the two. A request is one transaction
under read committed, whose write the others see when it is committed, so a write
step stands for its commit. -/

namespace Itmo.Police

open Lib

/-! ### Converters of `EnumConverters` -/

def convertToCrimeCaseState : String → Option CaseState
  | "on_work" => some .ON_WORK
  | "freeze" => some .FREEZE
  | "close" => some .CLOSE
  | _ => none

def convertToPersonCaseRelation : String → Option PersonRelation
  | "witness" => some .WITNESS
  | "suspect" => some .SUSPECT
  | _ => none

def convertToPolicemanOnCaseStatus : String → Option PolicemanCaseStatus
  | "assigned" => some .ASSIGNED
  | "removed" => some .REMOVED
  | _ => none

/-- An unboxed `Boolean`. -/
def unbox : Option Bool → Except Failure Bool
  | some b => .ok b
  | none => .error .nullPointer

/-! ### Services -/

namespace CrimeCaseService

inductive StateBeforeCreation where
  | OK
  | CASE_EXISTS
  | WRONG_DISTRICT
  | NO_CRIME
  deriving DecidableEq

def getStateBeforeCreation (db : Db) (crimeId : Option ℤ) (series : String) :
    Except Failure StateBeforeCreation := do
  let caseInfoBeforeCreation ← CrimeCaseRepository.getInfoBeforeCreation db crimeId
  let creatorDistrictIds := getDistrictIds db series
  match caseInfoBeforeCreation with
  | none => return .NO_CRIME
  | some info =>
    if info.crimeCaseExists then return .CASE_EXISTS
    if !(creatorDistrictIds.any fun d => info.districtId = some d) then return .WRONG_DISTRICT
    return .OK

inductive StateBeforeUpdate where
  | OK
  | CANT_CHANGE_CLOSED
  | NO_CRIME
  | NO_CASE
  | ANOTHER_OWNER
  deriving DecidableEq

def getStateBeforeUpdate (db : Db) (crimeId : ℤ) (series : String) :
    Except Failure StateBeforeUpdate := do
  match ← CrimeCaseRepository.getInfoBeforeStateUpdate db crimeId with
  | none => return .NO_CRIME
  | some info =>
    if !info.crimeCaseExists then return .NO_CASE
    match info.ownerSeries with
    | none => throw .nullPointer
    | some ownerSeries =>
      if ownerSeries ≠ series then return .ANOTHER_OWNER
      if info.caseState = some .CLOSE then return .CANT_CHANGE_CLOSED
      return .OK

end CrimeCaseService

namespace PolicemanCaseService

inductive StateBeforePut where
  | TO_ADD
  | TO_UPDATE
  | CASE_NOT_ON_WORK
  | DOES_NOT_OWN
  | NO_CRIME
  | NO_CASE
  | NO_SLAVE
  deriving DecidableEq

def getStateBeforePut (db : Db) (crimeId slaveId : Option ℤ) (ownerSeries : String) :
    Except Failure StateBeforePut := do
  match ← PolicemanCaseRepository.getInfoBeforePut db crimeId slaveId with
  | none => return .NO_CRIME
  | some info =>
    if !info.crimeCaseExists then return .NO_CASE
    if !info.slaveExists then return .NO_SLAVE
    if info.caseState ≠ some .ON_WORK then return .CASE_NOT_ON_WORK
    if info.policemanCaseExists then
      if some ownerSeries ≠ info.ownerSeries then return .DOES_NOT_OWN
      return .TO_UPDATE
    return .TO_ADD

end PolicemanCaseService

namespace NoteService

inductive StateBeforeCreation where
  | OK
  | NO_POLICEMAN_CASE
  | NOT_ASSIGNED_STATE
  | NO_CRIME
  | NO_CASE
  deriving DecidableEq

def getStateBeforeCreation (db : Db) (series : String) (crimeId : Option ℤ) :
    Except Failure StateBeforeCreation := do
  match ← NoteRepository.getInfoBeforeCreation db series crimeId with
  | none => return .NO_CRIME
  | some info =>
    if !info.crimeCaseExists then return .NO_CASE
    if !info.policemanCaseExists then return .NO_POLICEMAN_CASE
    if info.onCaseStatus ≠ some .ASSIGNED then return .NOT_ASSIGNED_STATE
    return .OK

end NoteService

namespace PersonRelevantToCaseService

inductive StateBeforePut where
  | TO_ADD
  | TO_UPDATE
  | CASE_NOT_ON_WORK
  | ABOUT_SELF
  | NO_POLICEMAN_CASE
  | NOT_ASSIGNED_STATE
  | NOT_OWNING_IF_UPDATE
  | NO_CRIME
  | NO_CASE
  deriving DecidableEq

def getStateBeforePut (db : Db) (crimeId personId : Option ℤ) (series : String) :
    Except Failure StateBeforePut := do
  match ← PersonRelevantToCaseRepository.getInfoBeforePut db crimeId personId series with
  | none => return .NO_CRIME
  | some info =>
    if !info.crimeCaseExists then return .NO_CASE
    if info.caseState ≠ some .ON_WORK then return .CASE_NOT_ON_WORK
    if !info.policemanCaseExists then return .NO_POLICEMAN_CASE
    if info.hasRecord then
      if !(← unbox info.isOwner) then return .NOT_OWNING_IF_UPDATE
      return .TO_UPDATE
    if ← unbox info.isSelfRecording then return .ABOUT_SELF
    return .TO_ADD

end PersonRelevantToCaseService

/-! ### Requests -/

/-- A logged-in policeman: his series and the rank that gives his role. -/
structure Session where
  series : String
  role : PoliceRank

/-- The requests that write, and one for all those that only read. -/
inductive Request where
  | createCrimeCase (crimeId : Option ℤ)
  | updateCrimeCaseState (crimeId : ℤ) (stateName : String)
  | policemanOnCasePut (crimeId policemanId : Option ℤ) (onCaseStatus : Option String)
  | createCrimeNote (crimeId : Option ℤ) (text : Option String)
  | putPersonToCase (crimeId personId : Option ℤ) (relation note : Option String)
  | get

inductive HttpStatus where
  | OK
  | CREATED
  | NO_CONTENT
  | BAD_REQUEST
  | FORBIDDEN
  | NOT_FOUND
  deriving DecidableEq

/-- The writing statements, with the values bound to their parameters. -/
inductive Write where
  | createCrimeCase (crimeId : Option ℤ) (series : String)
  | updateState (crimeId : ℤ) (state : CaseState)
  | addOnCase (crimeId slaveId : Option ℤ) (status : PolicemanCaseStatus) (series : String)
  | updateOnCase (crimeId slaveId : Option ℤ) (status : PolicemanCaseStatus)
  | createNote (crimeId : Option ℤ) (series : String) (text : Option String)
  | addCaseRelation (crimeId personId : Option ℤ) (relation : PersonRelation) (note series : String)
  | updateCaseRelation (crimeId personId : Option ℤ) (relation : PersonRelation)
      (note : Option String)
  deriving DecidableEq

def Write.exec : Write → Db → Except DbError Db
  | .createCrimeCase crimeId series => CrimeCaseRepository.create crimeId series
  | .updateState crimeId state => CrimeCaseRepository.updateState crimeId state
  | .addOnCase crimeId slaveId status series =>
    PolicemanCaseRepository.addOnCase crimeId slaveId status series
  | .updateOnCase crimeId slaveId status => PolicemanCaseRepository.update crimeId slaveId status
  | .createNote crimeId series text => NoteRepository.create crimeId series text
  | .addCaseRelation crimeId personId relation note series =>
    PersonRelevantToCaseRepository.addCaseRelation crimeId personId relation note series
  | .updateCaseRelation crimeId personId relation note =>
    PersonRelevantToCaseRepository.updateCaseRelation crimeId personId relation note

/-- How a check ends. -/
inductive Plan where
  | respond (status : HttpStatus)
  | write (w : Write) (status : HttpStatus)

/-- The role an endpoint is restricted to. -/
def Request.role : Request → Option PoliceRank
  | .createCrimeCase _ | .updateCrimeCaseState _ _ | .policemanOnCasePut _ _ _ => some .MAJOR
  | .createCrimeNote _ _ | .putPersonToCase _ _ _ _ => some .MINOR
  | .get => none

/-! ### Controllers, up to the write -/

def createCrimeCase (db : Db) (series : String) (crimeId : Option ℤ) : Except Failure Plan := do
  match ← CrimeCaseService.getStateBeforeCreation db crimeId series with
  | .OK => return .write (.createCrimeCase crimeId series) .CREATED
  | .CASE_EXISTS => return .respond .BAD_REQUEST
  | .WRONG_DISTRICT => return .respond .FORBIDDEN
  | .NO_CRIME => return .respond .NOT_FOUND

def updateCrimeCaseState (db : Db) (series : String) (crimeId : ℤ) (stateName : String) :
    Except Failure Plan := do
  match convertToCrimeCaseState stateName with
  | none => return .respond .BAD_REQUEST
  | some state =>
    match ← CrimeCaseService.getStateBeforeUpdate db crimeId series with
    | .OK => return .write (.updateState crimeId state) .OK
    | .CANT_CHANGE_CLOSED | .NO_CASE => return .respond .BAD_REQUEST
    | .NO_CRIME => return .respond .NOT_FOUND
    | .ANOTHER_OWNER => return .respond .FORBIDDEN

def policemanOnCasePut (db : Db) (ownerSeries : String) (crimeId slaveId : Option ℤ)
    (onCaseStatus : Option String) : Except Failure Plan := do
  let status := match onCaseStatus with
    | some name => convertToPolicemanOnCaseStatus name
    | none => some .ASSIGNED
  match status with
  | none => return .respond .BAD_REQUEST
  | some status =>
    match ← PolicemanCaseService.getStateBeforePut db crimeId slaveId ownerSeries with
    | .TO_ADD => return .write (.addOnCase crimeId slaveId status ownerSeries) .CREATED
    | .TO_UPDATE => return .write (.updateOnCase crimeId slaveId status) .NO_CONTENT
    | .CASE_NOT_ON_WORK => return .respond .BAD_REQUEST
    | .DOES_NOT_OWN => return .respond .FORBIDDEN
    | .NO_CRIME | .NO_SLAVE | .NO_CASE => return .respond .NOT_FOUND

def createCrimeNote (db : Db) (series : String) (crimeId : Option ℤ) (text : Option String) :
    Except Failure Plan := do
  match ← NoteService.getStateBeforeCreation db series crimeId with
  | .OK => return .write (.createNote crimeId series text) .CREATED
  | .NO_POLICEMAN_CASE | .NOT_ASSIGNED_STATE => return .respond .FORBIDDEN
  | .NO_CRIME | .NO_CASE => return .respond .NOT_FOUND

/-- An unknown relation is refused before the check; a missing one only when a
record is added, and it ends an update with an exception. -/
def putPersonToCase (db : Db) (series : String) (crimeId personId : Option ℤ)
    (relation note : Option String) : Except Failure Plan := do
  match relation.map convertToPersonCaseRelation with
  | some none => return .respond .BAD_REQUEST
  | relation =>
    let relation := relation.join
    match ← PersonRelevantToCaseService.getStateBeforePut db crimeId personId series with
    | .TO_ADD =>
      match relation, note with
      | some relation, some note =>
        return .write (.addCaseRelation crimeId personId relation note series) .CREATED
      | _, _ => return .respond .BAD_REQUEST
    | .TO_UPDATE =>
      match relation with
      | some relation =>
        return .write (.updateCaseRelation crimeId personId relation note) .NO_CONTENT
      | none => throw .nullPointer
    | .CASE_NOT_ON_WORK | .ABOUT_SELF => return .respond .BAD_REQUEST
    | .NO_POLICEMAN_CASE | .NOT_OWNING_IF_UPDATE | .NOT_ASSIGNED_STATE => return .respond .FORBIDDEN
    | .NO_CRIME | .NO_CASE => return .respond .NOT_FOUND

/-- A request from the security filter to its write. -/
def check (db : Db) (session : Session) (request : Request) : Except Failure Plan :=
  if request.role.any (· ≠ session.role) then .ok (.respond .FORBIDDEN)
  else match request with
    | .createCrimeCase crimeId => createCrimeCase db session.series crimeId
    | .updateCrimeCaseState crimeId stateName =>
      updateCrimeCaseState db session.series crimeId stateName
    | .policemanOnCasePut crimeId policemanId onCaseStatus =>
      policemanOnCasePut db session.series crimeId policemanId onCaseStatus
    | .createCrimeNote crimeId text => createCrimeNote db session.series crimeId text
    | .putPersonToCase crimeId personId relation note =>
      putPersonToCase db session.series crimeId personId relation note
    | .get => .ok (.respond .OK)

/-! ### Whole requests -/

/-- A request alone: check, write, answer. A rejected write leaves the database
as it was. -/
def handle (db : Db) (session : Session) (request : Request) : Except Failure HttpStatus × Db :=
  match check db session request with
  | .error e => (.error e, db)
  | .ok (.respond status) => (.ok status, db)
  | .ok (.write w status) =>
    match w.exec db with
    | .error e => (.error (.database e), db)
    | .ok db' => (.ok status, db')

/-- One authenticated request after the other. -/
def step (db : Db) (e : Session × Request) : Db := (handle db e.1 e.2).2

/-- What a step does: nothing, or the write its check planned. -/
theorem step_cases (db : Db) (e : Session × Request) :
    step db e = db ∨ ∃ w status, check db e.1 e.2 = .ok (.write w status) ∧
      w.exec db = .ok (step db e) := by
  unfold step handle
  split
  · exact .inl rfl
  · exact .inl rfl
  · rename_i w status hc
    split
    · exact .inl rfl
    · rename_i db' hw
      exact .inr ⟨w, status, hc, hw⟩

/-! ### Interleaved requests -/

/-- The database and the writes of requests that have passed their check. -/
structure Config where
  db : Db
  pending : List Write

/-- A request is checked, or a pending write is carried out. -/
inductive Event where
  | check (session : Session) (request : Request)
  | write (i : ℕ)

def interleavedStep (c : Config) : Event → Config
  | .check session request =>
    match Police.check c.db session request with
    | .ok (.write w _) => { c with pending := c.pending ++ [w] }
    | _ => c
  | .write i =>
    match c.pending[i]? with
    | none => c
    | some w =>
      match w.exec c.db with
      | .ok db => ⟨db, c.pending.eraseIdx i⟩
      | .error _ => { c with pending := c.pending.eraseIdx i }

/-- The database changes only by an accepted write. -/
theorem interleavedStep_cases (c : Config) (e : Event) :
    (interleavedStep c e).db = c.db ∨
      ∃ w ∈ c.pending, w.exec c.db = .ok (interleavedStep c e).db := by
  cases e with
  | check session request =>
    left
    simp only [interleavedStep]
    split <;> rfl
  | write i =>
    simp only [interleavedStep]
    split
    · exact .inl rfl
    · rename_i w hw
      have hmem : w ∈ c.pending := List.mem_of_getElem? hw
      split
      · rename_i db hdb
        exact .inr ⟨w, hmem, hdb⟩
      · exact .inl rfl

end Itmo.Police
