import Itmo.Lib.Cascade
import Itmo.Police.Constraints

/-! Any statement on any table, with the actions of the foreign keys: what refers
to a row that is deleted is deleted, set to null or forbids it, and what refers to
a row whose key is changed is changed. All triggers fire when this is done, for
every row that was inserted or updated, by the statement itself or by a foreign key,
and for its last version only; the database also looks at a version that a later
action replaces or deletes, so it may reject a statement that is accepted here. The
tables `crime_type` and `auth` are referred to by nothing in the model. -/

namespace Itmo.Police

open Lib

/-! ### Statements -/

inductive Statement where
  | precinct (m : Modification Precinct)
  | person (m : Modification Person)
  | policeman (m : Modification Policeman)
  | district (m : Modification District)
  | precinctDistrict (m : Modification PrecinctDistrict)
  | crime (m : Modification Crime)
  | crimeCase (m : Modification CrimeCase)
  | policemanCase (m : Modification PolicemanCase)
  | note (m : Modification Note)
  | personRelevantToCase (m : Modification PersonRelevantToCase)
  | other

/-- What happens to each of the tables. -/
structure Effects where
  precinct : Effect Precinct := .none
  person : Effect Person := .none
  policeman : Effect Policeman := .none
  district : Effect District := .none
  precinctDistrict : Effect PrecinctDistrict := .none
  crime : Effect Crime := .none
  crimeCase : Effect CrimeCase := .none
  policemanCase : Effect PolicemanCase := .none
  note : Effect Note := .none
  personRelevantToCase : Effect PersonRelevantToCase := .none

/-- What the statement itself does. -/
def Statement.own : Statement → Effects
  | .precinct m => { precinct := m.effect }
  | .person m => { person := m.effect }
  | .policeman m => { policeman := m.effect }
  | .district m => { district := m.effect }
  | .precinctDistrict m => { precinctDistrict := m.effect }
  | .crime m => { crime := m.effect }
  | .crimeCase m => { crimeCase := m.effect }
  | .policemanCase m => { policemanCase := m.effect }
  | .note m => { note := m.effect }
  | .personRelevantToCase m => { personRelevantToCase := m.effect }
  | .other => {}

namespace Effects

variable (e : Effects) (db : Db)

/-! ### References after the statement -/

def toPrecinct : ℤ → Option ℤ := e.precinct.follow Precinct.number db.precinct

def toPerson : ℤ → Option ℤ := e.person.follow Person.id db.person

def toPoliceman : ℤ → Option ℤ := e.policeman.follow Policeman.id db.policeman

def toDistrict : ℤ → Option ℤ := e.district.follow District.id db.district

def toCrime : ℤ → Option ℤ := e.crime.follow Crime.id db.crime

/-! ### The actions of the foreign keys -/

/-- `ON DELETE CASCADE ON UPDATE CASCADE`, twice. -/
def followPoliceman (r : Policeman) : Option Policeman :=
  (e.toPerson db r.fkPerson).bind fun person => (e.toPrecinct db r.fkPrecinct).map fun precinct =>
    { r with fkPerson := person, fkPrecinct := precinct }

def followPrecinctDistrict (r : PrecinctDistrict) : Option PrecinctDistrict :=
  (e.toDistrict db r.fkDistrict).bind fun district =>
    (e.toPrecinct db r.fkPrecinct).map fun precinct => ⟨district, precinct⟩

/-- `ON DELETE SET NULL ON UPDATE CASCADE` -/
def followCrime (r : Crime) : Option Crime :=
  some { r with fkDistrict := r.fkDistrict.bind (e.toDistrict db) }

/-- `ON DELETE CASCADE` for the crime, `ON DELETE RESTRICT` for the major; without
the major the statement is rejected. -/
def followCrimeCase (r : CrimeCase) : Option CrimeCase :=
  (e.toCrime db r.fkCrime).bind fun crime =>
    (e.toPoliceman db r.fkPolicemanMajor).map fun major =>
      { r with fkCrime := crime, fkPolicemanMajor := major }

/-- `ON DELETE SET NULL` for the major, `ON DELETE CASCADE` for the minor and the
crime. -/
def followPolicemanCase (r : PolicemanCase) : Option PolicemanCase :=
  (e.toPoliceman db r.fkPolicemanMinor).bind fun minor =>
    (e.toCrime db r.fkCrime).map fun crime =>
      { r with
        fkPolicemanMajor := r.fkPolicemanMajor.bind (e.toPoliceman db)
        fkPolicemanMinor := minor
        fkCrime := crime }

def followNote (r : Note) : Option Note :=
  (e.toPoliceman db r.fkPoliceman).bind fun policeman =>
    (e.toCrime db r.fkCrime).map fun crime =>
      { r with fkPoliceman := policeman, fkCrime := crime }

def followPersonRelevantToCase (r : PersonRelevantToCase) : Option PersonRelevantToCase :=
  (e.toCrime db r.fkCrime).bind fun crime =>
    (e.toPerson db r.fkPerson).bind fun person =>
      (e.toPoliceman db r.fkPoliceman).map fun policeman =>
        { r with fkCrime := crime, fkPerson := person, fkPoliceman := policeman }

/-- The tables that others refer to come first. -/
def cascadePolicemen : Effects :=
  { e with policeman := e.policeman.cascade (e.followPoliceman db) }

def cascadeCrimes : Effects := { e with crime := e.crime.cascade (e.followCrime db) }

def cascadeRest : Effects :=
  { e with
    precinctDistrict := e.precinctDistrict.cascade (e.followPrecinctDistrict db)
    crimeCase := e.crimeCase.cascade (e.followCrimeCase db)
    policemanCase := e.policemanCase.cascade (e.followPolicemanCase db)
    note := e.note.cascade (e.followNote db)
    personRelevantToCase := e.personRelevantToCase.cascade (e.followPersonRelevantToCase db) }

/-- The database after all this. -/
def apply : Db where
  precinct := e.precinct.rows db.precinct
  person := e.person.rows db.person
  policeman := e.policeman.rows db.policeman
  district := e.district.rows db.district
  precinctDistrict := e.precinctDistrict.rows db.precinctDistrict
  crime := e.crime.rows db.crime
  crimeCase := e.crimeCase.rows db.crimeCase
  policemanCase := e.policemanCase.rows db.policemanCase
  note := e.note.rows db.note
  personRelevantToCase := e.personRelevantToCase.rows db.personRelevantToCase
  nextNoteId := db.nextNoteId

end Effects

/-- What the statement does to each of the tables. -/
def Statement.effects (s : Statement) (db : Db) : Effects :=
  (((s.own.cascadePolicemen db).cascadeCrimes db).cascadeRest db)

/-! ### Checks -/

/-- The primary keys are unique, and the foreign keys refer to rows. -/
def checkConstraints (db : Db) : Except DbError Unit := do
  noDuplicates Precinct.number db.precinct
  noDuplicates Person.id db.person
  noDuplicates Policeman.id db.policeman
  noDuplicates District.id db.district
  noDuplicates Crime.id db.crime
  noDuplicates CrimeCase.fkCrime db.crimeCase
  noDuplicates Note.id db.note
  noDuplicates (fun r => (r.fkCrime, r.fkPerson)) db.personRelevantToCase
  checkAll (fun r => do
    references db.person Person.id r.fkPerson
    references db.precinct Precinct.number r.fkPrecinct) db.policeman
  checkAll (fun r => do
    references db.district District.id r.fkDistrict
    references db.precinct Precinct.number r.fkPrecinct) db.precinctDistrict
  checkAll (fun r => referencesOrNull db.district District.id r.fkDistrict) db.crime
  checkAll (fun r => do
    references db.crime Crime.id r.fkCrime
    references db.policeman Policeman.id r.fkPolicemanMajor) db.crimeCase
  checkAll (fun r => do
    referencesOrNull db.policeman Policeman.id r.fkPolicemanMajor
    references db.policeman Policeman.id r.fkPolicemanMinor
    references db.crime Crime.id r.fkCrime) db.policemanCase
  checkAll (fun r => do
    references db.policeman Policeman.id r.fkPoliceman
    references db.crime Crime.id r.fkCrime) db.note
  checkAll (fun r => do
    references db.crime Crime.id r.fkCrime
    references db.person Person.id r.fkPerson
    references db.policeman Policeman.id r.fkPoliceman) db.personRelevantToCase

/-- `ON DELETE RESTRICT` -/
def checkRestrict (e : Effects) (db : Db) : Except DbError Unit :=
  checkAll (fun r => if (e.toPoliceman db r.fkPolicemanMajor).isSome then .ok ()
    else .error .foreignKey) db.crimeCase

/-- The triggers of the rows that were inserted or updated. -/
def fireTriggers (e : Effects) (db db' : Db) : Except DbError Unit := do
  checkAll (checkHasName db') (e.policeman.new db.policeman)
  checkAll checkClosed (e.crimeCase.old db.crimeCase)
  checkAll (fun r => do
    checkDistrict db' r
    checkMajor db' r) (e.crimeCase.new db.crimeCase)
  checkAll (fun r => do
    checkOpenedCase db' r.fkCrime
    checkRanksAndPrecinct db' r) (e.policemanCase.new db.policemanCase)
  checkAll (fun r => do
    checkCaseAndPoliceman db' r.fkPoliceman r.fkCrime
    checkOpenedCase db' r.fkCrime) (e.note.new db.note)
  checkAll (fun r => do
    checkCaseAndPoliceman db' r.fkPoliceman r.fkCrime
    checkOpenedCase db' r.fkCrime
    checkSelfAssign db' r) (e.personRelevantToCase.new db.personRelevantToCase)

def Statement.execute (s : Statement) (db : Db) : Except DbError Db := do
  let e := s.effects db
  let db' := e.apply db
  checkRestrict e db
  checkConstraints db'
  fireTriggers e db db'
  return db'

/-! ### Accepted statements -/

variable {db : Db}

theorem checkConstraints_ok : checkConstraints db = .ok () ↔ Constraints db := by
  simp only [checkConstraints, except_seq_ok, noDuplicates_ok_iff, checkAll_ok_iff, references_ok,
    referencesOrNull_ok]
  constructor
  · rintro ⟨h₁, h₂, h₃, h₄, h₅, h₆, h₇, h₈, hpoliceman, hjoin, hcrime, hcase, hassignment, hnote,
      hrelevant⟩
    exact
      { precinct := h₁
        person := h₂
        policeman := h₃
        district := h₄
        crime := h₅
        crimeCase := h₆
        note := h₇
        personRelevantToCase := h₈
        policemanPerson := fun r hr => (hpoliceman r hr).1
        policemanPrecinct := fun r hr => (hpoliceman r hr).2
        precinctDistrictDistrict := fun r hr => (hjoin r hr).1
        precinctDistrictPrecinct := fun r hr => (hjoin r hr).2
        crimeDistrict := hcrime
        caseCrime := fun r hr => (hcase r hr).1
        caseMajor := fun r hr => (hcase r hr).2
        assignmentMajor := fun r hr => (hassignment r hr).1
        assignmentMinor := fun r hr => (hassignment r hr).2.1
        assignmentCrime := fun r hr => (hassignment r hr).2.2
        notePoliceman := fun r hr => (hnote r hr).1
        noteCrime := fun r hr => (hnote r hr).2
        relevantCrime := fun r hr => (hrelevant r hr).1
        relevantPerson := fun r hr => (hrelevant r hr).2.1
        relevantPoliceman := fun r hr => (hrelevant r hr).2.2 }
  · intro h
    exact ⟨h.precinct, h.person, h.policeman, h.district, h.crime, h.crimeCase, h.note,
      h.personRelevantToCase, fun r hr => ⟨h.policemanPerson r hr, h.policemanPrecinct r hr⟩,
      fun r hr => ⟨h.precinctDistrictDistrict r hr, h.precinctDistrictPrecinct r hr⟩,
      h.crimeDistrict, fun r hr => ⟨h.caseCrime r hr, h.caseMajor r hr⟩,
      fun r hr => ⟨h.assignmentMajor r hr, h.assignmentMinor r hr, h.assignmentCrime r hr⟩,
      fun r hr => ⟨h.notePoliceman r hr, h.noteCrime r hr⟩,
      fun r hr => ⟨h.relevantCrime r hr, h.relevantPerson r hr, h.relevantPoliceman r hr⟩⟩

/-- What the constraints and the triggers have checked when a statement is accepted. -/
structure Accepted (e : Effects) (db : Db) : Prop where
  constraints : Constraints (e.apply db)
  restrict : ∀ r ∈ db.crimeCase, (e.toPoliceman db r.fkPolicemanMajor).isSome
  hasName : ∀ r ∈ e.policeman.new db.policeman,
    ∃ q ∈ (e.apply db).person, q.id = r.fkPerson ∧ q.name ≠ none
  district : ∀ r ∈ e.crimeCase.new db.crimeCase, ∃ c ∈ (e.apply db).crime, c.id = r.fkCrime ∧
    ∀ d, c.fkDistrict = some d → d ∈ districtsOf (e.apply db) r.fkPolicemanMajor
  major : ∀ r ∈ e.crimeCase.new db.crimeCase,
    ∃ p ∈ (e.apply db).policeman, p.id = r.fkPolicemanMajor ∧ p.rank = .MAJOR
  ranks : ∀ r ∈ e.policemanCase.new db.policemanCase,
    ∃ m ∈ (e.apply db).policeman, m.id = r.fkPolicemanMinor ∧ m.rank = .MINOR ∧
      ∀ j, r.fkPolicemanMajor = some j →
        ∃ p ∈ (e.apply db).policeman, p.id = j ∧ p.rank = .MAJOR ∧ p.fkPrecinct = m.fkPrecinct
  opened : ∀ crime, (∃ r ∈ e.policemanCase.new db.policemanCase, r.fkCrime = crime) ∨
    (∃ r ∈ e.note.new db.note, r.fkCrime = crime) ∨
    (∃ r ∈ e.personRelevantToCase.new db.personRelevantToCase, r.fkCrime = crime) →
    ∃ c ∈ (e.apply db).crimeCase, c.fkCrime = crime
  selfAssign : ∀ r ∈ e.personRelevantToCase.new db.personRelevantToCase,
    ∀ p ∈ (e.apply db).policeman, p.id = r.fkPoliceman → p.fkPerson ≠ r.fkPerson

/-- An accepted statement has its effects, and they have passed the checks. -/
theorem Statement.execute_ok {s : Statement} {db' : Db} (h : s.execute db = .ok db') :
    db' = (s.effects db).apply db ∧ Accepted (s.effects db) db := by
  unfold Statement.execute at h
  obtain ⟨⟨⟩, hrestrict, h⟩ := bind_ok h
  obtain ⟨⟨⟩, hconstraints, h⟩ := bind_ok h
  obtain ⟨⟨⟩, htriggers, h⟩ := bind_ok h
  cases h
  have hdb := checkConstraints_ok.mp hconstraints
  simp only [fireTriggers, except_seq_ok, checkAll_ok_iff, checkHasName_ok hdb.person,
    checkDistrict_ok hdb.crime, checkMajor_ok hdb.policeman, checkOpenedCase_ok,
    checkRanksAndPrecinct_ok hdb.policeman, checkSelfAssign_ok hdb.policeman] at htriggers
  obtain ⟨hname, -, hcase, hassignment, hnote, hrelevant⟩ := htriggers
  refine ⟨rfl, hdb, ?_, hname, ?_, fun r hr => (hcase r hr).2, fun r hr => (hassignment r hr).2,
    ?_, fun r hr => (hrelevant r hr).2.2⟩
  · intro r hr
    have hr' := checkAll_ok hrestrict r hr
    by_contra hnone
    rw [if_neg hnone] at hr'
    cases hr'
  · intro r hr
    obtain ⟨c, hc, hid, -, hd⟩ := (hcase r hr).1
    exact ⟨c, hc, hid, hd⟩
  · rintro crime (⟨r, hr, rfl⟩ | ⟨r, hr, rfl⟩ | ⟨r, hr, rfl⟩)
    · exact (hassignment r hr).1
    · exact (hnote r hr).2
    · exact (hrelevant r hr).2.1

end Itmo.Police
