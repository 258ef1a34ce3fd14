import Itmo.Police.Assignments
import Itmo.Police.CaseCreation
import Itmo.Police.CaseOverview
import Itmo.Police.MinorRequests
import Itmo.Police.PutAssignment

/-! The lists a policeman works from. A major is shown the crimes in the districts of his
precinct, his subordinates and his cases, and a minor the cases he can work on; each list is
made by a query of its own, apart from the checks of the requests that are made from it. After
any interleaving of requests a list has what the next such request is accepted for. -/

namespace Itmo.Police

open Lib

/-! ### Queries -/

section Queries

-- the name of the type of a crime, if it has a type, and when a series was issued
variable (db : Db) (typeOf : ℤ → Option (Option String)) (dateOfIssue : ℤ → LocalDate)
  (series : String)

structure BaseCrimeResponse where
  id : ℤ
  type : Option String
  district : String
  caseOpened : Bool
  deriving DecidableEq, Repr

/-- A crime without a type or a district is joined to nothing. -/
def CrimeRepository.getBaseByPrecinctDistricts : List BaseCrimeResponse :=
  (db.policeman.filter (·.series = series)).flatMap fun pol =>
    (db.precinct.filter (·.number = pol.fkPrecinct)).flatMap fun pr =>
      (db.precinctDistrict.filter (·.fkPrecinct = pr.number)).flatMap fun pd =>
        (db.district.filter (·.id = pd.fkDistrict)).flatMap fun dis =>
          (db.crime.filter (·.fkDistrict = some dis.id)).flatMap fun cr =>
            (typeOf cr.id).toList.map fun type =>
              ⟨cr.id, type, dis.name, db.crimeCase.any (·.fkCrime = cr.id)⟩

structure NoContextNoRankPolicemanResponse where
  id : ℤ
  name : Option String
  series : String
  seriesDateOfIssue : LocalDate
  deriving DecidableEq, Repr

/-- The precinct is that of the one policeman with the series. -/
def PolicemanRepository.getSlavesOf : Except DbError (List NoContextNoRankPolicemanResponse) := do
  let precinct ← scalar ((db.policeman.filter (·.series = series)).map (·.fkPrecinct))
  return (db.precinct.filter (some ·.number = precinct)).flatMap fun pr =>
    (db.policeman.filter fun pol => pol.fkPrecinct = pr.number ∧ pol.rank ≠ .MAJOR).flatMap
      fun pol => (db.person.filter (·.id = pol.fkPerson)).map fun per =>
        ⟨pol.id, per.name, pol.series, dateOfIssue pol.id⟩

structure BaseCrimeCaseNoStateResponse where
  id : ℤ
  type : Option String
  district : Option String
  deriving DecidableEq, Repr

def CrimeCaseRepository.getOpenedCasesOnWhichMinorStatusAssigned :
    List BaseCrimeCaseNoStateResponse :=
  db.crime.flatMap fun cr =>
    (leftJoin db.crimeCase (·.fkCrime = cr.id)).flatMap fun crC =>
      (leftJoin db.policemanCase (·.fkCrime = cr.id)).flatMap fun polC =>
        ((leftJoin db.policeman fun sl => polC.map (·.fkPolicemanMinor) = some sl.id).filter
          fun sl => crC.map (·.state) = some .ON_WORK ∧ sl.map (·.series) = some series ∧
            polC.map (·.status) = some .ASSIGNED).map fun _ =>
              ⟨cr.id, (typeOf cr.id).join,
                (db.district.find? fun dis => cr.fkDistrict = some dis.id).map (·.name)⟩

/-! The endpoints under `major` and `minor` are for their roles only. -/

def withRole {α : Type} (role : PoliceRank) (session : Session) (answer : α) :
    Except HttpStatus α :=
  if session.role = role then .ok answer else .error .FORBIDDEN

def getMyPrecinctDistrictsCrimes (session : Session) : Except HttpStatus (List BaseCrimeResponse) :=
  withRole .MAJOR session (CrimeRepository.getBaseByPrecinctDistricts db typeOf session.series)

def getMySlaves (session : Session) :
    Except HttpStatus (Except DbError (List NoContextNoRankPolicemanResponse)) :=
  withRole .MAJOR session (PolicemanRepository.getSlavesOf db dateOfIssue session.series)

/-- The records are those of the query, in the order in which the database returns them. -/
def getPrecinctCases (records : List CaseWithSlaveRecord) (session : Session) :
    Except HttpStatus CasesWithMinPolicemenAndUniqueFullResponse :=
  withRole .MAJOR session (getCasesWithMinPolicemanAndUniqueFull records)

def getAvailableCases (session : Session) :
    Except HttpStatus (List BaseCrimeCaseNoStateResponse) :=
  withRole .MINOR session
    (CrimeCaseRepository.getOpenedCasesOnWhichMinorStatusAssigned db typeOf session.series)

end Queries

theorem exists_withRole {α : Type} {role : PoliceRank} {session : Session} {answer : α}
    {P : α → Prop} :
    (∃ a, withRole role session answer = .ok a ∧ P a) ↔ session.role = role ∧ P answer := by
  unfold withRole
  split_ifs with h <;> simp [h]

/-! ### What is kept

The checks of the service do not matter here: the database keeps these facts by itself. -/

/-- The declared constraints, the series being different, what the triggers of `crime_case`
demand of each of its rows, and the sequence being ahead of the notes. -/
structure Kept (db : Db) : Prop where
  constraints : Constraints db
  series : UniqueSeries db
  districts : ∀ c ∈ db.crimeCase, checkDistrict db c = .ok ()
  majors : ∀ c ∈ db.crimeCase, checkMajor db c = .ok ()
  notes : ∀ n ∈ db.note, n.id < db.nextNoteId

variable {db db' : Db}

theorem forall_mem_concat {α : Type*} {P : α → Prop} {rows : List α} {row : α}
    (h : ∀ r ∈ rows, P r) (hrow : P row) : ∀ r ∈ rows ++ [row], P r := by
  intro r hr
  rcases List.mem_append.mp hr with hr | hr
  · exact h r hr
  · rwa [List.mem_singleton.mp hr]

/-- What an update does not touch holds of the updated rows. -/
theorem forall_mem_updated {α : Type*} {P : α → Prop} {p : α → Bool} {f : α → α} {rows : List α}
    (h : ∀ r ∈ rows, P r) (hf : ∀ r, P r → P (f r)) : ∀ r ∈ Table.updated p f rows, P r := by
  intro r hr
  obtain ⟨r, hmem, rfl⟩ := List.mem_map.mp hr
  split
  · exact hf r (h r hmem)
  · exact h r hmem

theorem crimeCase_insert_kept (h : Kept db) {row : CrimeCase}
    (hinsert : crimeCaseTable.insert row db = .ok db') : Kept db' := by
  obtain ⟨rfl, hunique, htriggers⟩ := Table.insert_ok crimeCaseTable hinsert
  simp only [crimeCaseTable, except_seq_ok, references_ok] at htriggers
  obtain ⟨hcrime, hmajor, hdistrict, hrank⟩ := htriggers
  exact {
    constraints := { h.constraints with
      crimeCase := noDuplicates_ok hunique
      caseCrime := forall_mem_concat h.constraints.caseCrime hcrime
      caseMajor := forall_mem_concat h.constraints.caseMajor hmajor }
    series := h.series
    districts := forall_mem_concat h.districts hdistrict
    majors := forall_mem_concat h.majors hrank
    notes := h.notes }

/-- No trigger looks at the state of the new row. -/
theorem updateState_kept (h : Kept db) {crimeId : ℤ} {state : CaseState}
    (hupdate : CrimeCaseRepository.updateState crimeId state db = .ok db') : Kept db' := by
  obtain ⟨rfl, -, -⟩ := Table.update_ok crimeCaseTable hupdate
  exact {
    constraints := { h.constraints with
      crimeCase := Table.nodup_map_updated h.constraints.crimeCase fun _ => rfl
      caseCrime := forall_mem_updated h.constraints.caseCrime fun _ => id
      caseMajor := forall_mem_updated h.constraints.caseMajor fun _ => id }
    series := h.series
    districts := forall_mem_updated h.districts fun _ => id
    majors := forall_mem_updated h.majors fun _ => id
    notes := h.notes }

theorem policemanCase_insert_kept (h : Kept db) {row : PolicemanCase}
    (hinsert : policemanCaseTable.insert row db = .ok db') : Kept db' := by
  obtain ⟨rfl, -, htriggers⟩ := Table.insert_ok policemanCaseTable hinsert
  simp only [policemanCaseTable, except_seq_ok, references_ok, referencesOrNull_ok] at htriggers
  obtain ⟨hmajor, hminor, hcrime, -⟩ := htriggers
  exact {
    constraints := { h.constraints with
      assignmentMajor := forall_mem_concat h.constraints.assignmentMajor hmajor
      assignmentMinor := forall_mem_concat h.constraints.assignmentMinor hminor
      assignmentCrime := forall_mem_concat h.constraints.assignmentCrime hcrime }
    series := h.series
    districts := h.districts
    majors := h.majors
    notes := h.notes }

theorem updateOnCase_kept (h : Kept db) {crimeId slaveId : Option ℤ} {status : PolicemanCaseStatus}
    (hupdate : PolicemanCaseRepository.update crimeId slaveId status db = .ok db') : Kept db' := by
  obtain ⟨rfl, -, -⟩ := Table.update_ok policemanCaseTable hupdate
  exact {
    constraints := { h.constraints with
      assignmentMajor := forall_mem_updated h.constraints.assignmentMajor fun _ => id
      assignmentMinor := forall_mem_updated h.constraints.assignmentMinor fun _ => id
      assignmentCrime := forall_mem_updated h.constraints.assignmentCrime fun _ => id }
    series := h.series
    districts := h.districts
    majors := h.majors
    notes := h.notes }

theorem createNote_kept (h : Kept db) {crimeId : Option ℤ} {series : String} {text : Option String}
    (hcreate : NoteRepository.create crimeId series text db = .ok db') : Kept db' := by
  obtain ⟨policeman, crime, note, -, -, -, hinsert⟩ := NoteRepository.create_ok hcreate
  obtain ⟨rfl, hunique, htriggers⟩ := Table.insert_ok noteTable hinsert
  simp only [noteTable, except_seq_ok, references_ok] at htriggers
  obtain ⟨hpoliceman, hcrime, -⟩ := htriggers
  exact {
    constraints := { h.constraints with
      note := noDuplicates_ok hunique
      notePoliceman := forall_mem_concat h.constraints.notePoliceman hpoliceman
      noteCrime := forall_mem_concat h.constraints.noteCrime hcrime }
    series := h.series
    districts := h.districts
    majors := h.majors
    notes := forall_mem_concat (fun n hn => (h.notes n hn).trans (Int.lt_succ _)) (Int.lt_succ _) }

theorem addCaseRelation_kept (h : Kept db) {row : PersonRelevantToCase}
    (hinsert : personRelevantToCaseTable.insert row db = .ok db') : Kept db' := by
  obtain ⟨rfl, hunique, htriggers⟩ := Table.insert_ok personRelevantToCaseTable hinsert
  simp only [personRelevantToCaseTable, except_seq_ok, references_ok] at htriggers
  obtain ⟨hcrime, hperson, hpoliceman, -⟩ := htriggers
  exact {
    constraints := { h.constraints with
      personRelevantToCase := noDuplicates_ok hunique
      relevantCrime := forall_mem_concat h.constraints.relevantCrime hcrime
      relevantPerson := forall_mem_concat h.constraints.relevantPerson hperson
      relevantPoliceman := forall_mem_concat h.constraints.relevantPoliceman hpoliceman }
    series := h.series
    districts := h.districts
    majors := h.majors
    notes := h.notes }

theorem updateCaseRelation_kept (h : Kept db) {crimeId personId : Option ℤ}
    {relation : PersonRelation} {note : Option String}
    (hupdate : PersonRelevantToCaseRepository.updateCaseRelation crimeId personId relation note db =
      .ok db') : Kept db' := by
  obtain ⟨rfl, -, -⟩ := Table.update_ok personRelevantToCaseTable hupdate
  exact {
    constraints := { h.constraints with
      personRelevantToCase :=
        Table.nodup_map_updated h.constraints.personRelevantToCase fun _ => rfl
      relevantCrime := forall_mem_updated h.constraints.relevantCrime fun _ => id
      relevantPerson := forall_mem_updated h.constraints.relevantPerson fun _ => id
      relevantPoliceman := forall_mem_updated h.constraints.relevantPoliceman fun _ => id }
    series := h.series
    districts := h.districts
    majors := h.majors
    notes := h.notes }

theorem Write.exec_kept {w : Write} (h : Kept db) (hexec : w.exec db = .ok db') : Kept db' := by
  cases w with
  | createCrimeCase crimeId series =>
    obtain ⟨_, _, _, _, hinsert⟩ := CrimeCaseRepository.create_ok hexec
    exact crimeCase_insert_kept h hinsert
  | updateState crimeId state => exact updateState_kept h hexec
  | addOnCase crimeId slaveId status series =>
    obtain ⟨_, _, _, _, _, _, hinsert⟩ := PolicemanCaseRepository.addOnCase_ok hexec
    exact policemanCase_insert_kept h hinsert
  | updateOnCase crimeId slaveId status => exact updateOnCase_kept h hexec
  | createNote crimeId series text => exact createNote_kept h hexec
  | addCaseRelation crimeId personId relation note series =>
    obtain ⟨_, _, _, _, _, _, hinsert⟩ := PersonRelevantToCaseRepository.addCaseRelation_ok hexec
    exact addCaseRelation_kept h hinsert
  | updateCaseRelation crimeId personId relation note => exact updateCaseRelation_kept h hexec

theorem run_kept {c : Config} (h : Kept c.db) (es : List Event) :
    Kept (run interleavedStep c es).db := by
  refine run_invariant (fun c : Config => Kept c.db) (fun c e hc => ?_) h es
  obtain heq | ⟨w, -, hexec⟩ := interleavedStep_cases c e
  · rwa [heq]
  · exact Write.exec_kept hc hexec

/-! ### What the lists have -/

section Rows

variable (typeOf : ℤ → Option (Option String)) {p : Policeman}

/-- A crime is listed as not opened if it has a type, a district of the policeman and no case. -/
theorem crime_listed_iff (hdb : Kept db) (hp : p ∈ db.policeman) (crime : ℤ) :
    (∃ r ∈ CrimeRepository.getBaseByPrecinctDistricts db typeOf p.series,
      r.id = crime ∧ r.caseOpened = false) ↔
    (typeOf crime).isSome ∧ ∃ cr ∈ db.crime, cr.id = crime ∧ Unopened db crime ∧
      ∃ d, cr.fkDistrict = some d ∧ WorksIn db p d := by
  have hopened : ∀ crime, db.crimeCase.any (·.fkCrime = crime) = false ↔ Unopened db crime := by
    intro crime
    simp [Unopened]
  rw [CrimeRepository.getBaseByPrecinctDistricts, filter_key_eq hdb.series hp]
  simp only [List.flatMap_singleton, List.mem_flatMap, List.mem_filter, List.mem_map,
    Option.mem_toList, decide_eq_true_eq]
  constructor
  · rintro ⟨_, ⟨pr, ⟨-, hnumber⟩, pd, ⟨hpd, hprecinct⟩, dis, ⟨-, hdis⟩, cr, ⟨hcr, hdistrict⟩, type,
      htype, rfl⟩, rfl, hcase⟩
    refine ⟨Option.isSome_of_mem htype, cr, hcr, rfl, (hopened _).mp hcase, dis.id, hdistrict, pd,
      hpd, hprecinct.trans hnumber, hdis.symm⟩
  · rintro ⟨htype, cr, hcr, rfl, hcase, d, hdistrict, pd, hpd, hprecinct, rfl⟩
    obtain ⟨type, htype⟩ := Option.isSome_iff_exists.mp htype
    obtain ⟨pr, hpr, hnumber⟩ := hdb.constraints.policemanPrecinct p hp
    obtain ⟨dis, hdis, hid⟩ := hdb.constraints.precinctDistrictDistrict pd hpd
    refine ⟨_, ⟨pr, ⟨hpr, hnumber⟩, pd, ⟨hpd, hprecinct.trans hnumber.symm⟩, dis, ⟨hdis, hid⟩, cr,
      ⟨hcr, by rw [hdistrict, hid]⟩, type, htype, rfl⟩, rfl, (hopened _).mpr hcase⟩

theorem slave_listed_iff (hdb : Kept db) (hp : p ∈ db.policeman) (dateOfIssue : ℤ → LocalDate)
    (slave : ℤ) :
    (∃ slaves, PolicemanRepository.getSlavesOf db dateOfIssue p.series = .ok slaves ∧
      ∃ r ∈ slaves, r.id = slave) ↔
    ∃ q ∈ db.policeman, q.id = slave ∧ q.rank = .MINOR ∧ q.fkPrecinct = p.fkPrecinct := by
  have hminor : ∀ {r : PoliceRank}, r ≠ .MAJOR ↔ r = .MINOR := by
    intro r
    cases r <;> simp
  obtain ⟨pr, hpr, hnumber⟩ := hdb.constraints.policemanPrecinct p hp
  rw [PolicemanRepository.getSlavesOf, filter_key_eq hdb.series hp, List.map_singleton, ← hnumber]
  simp only [scalar, atMostOne, bind, Except.bind, pure, Except.pure, Except.ok.injEq,
    exists_eq_left', filter_some_key_eq hdb.constraints.precinct hpr, List.flatMap_singleton,
    List.mem_flatMap, List.mem_filter, List.mem_map, decide_eq_true_eq, hminor]
  constructor
  · rintro ⟨_, ⟨q, ⟨hq, hprecinct, hrank⟩, per, -, rfl⟩, rfl⟩
    exact ⟨q, hq, rfl, hrank, hprecinct⟩
  · rintro ⟨q, hq, rfl, hrank, hprecinct⟩
    obtain ⟨per, hper, hid⟩ := hdb.constraints.policemanPerson q hq
    exact ⟨_, ⟨q, ⟨hq, hprecinct, hrank⟩, per, ⟨hper, hid⟩, rfl⟩, rfl⟩

theorem case_listed_iff {series : String} {crime : ℤ} :
    (∃ r ∈ CrimeCaseRepository.getOpenedCasesOnWhichMinorStatusAssigned db typeOf series,
      r.id = crime) ↔
    ∃ cr ∈ db.crime, cr.id = crime ∧ (∃ c ∈ db.crimeCase, c.fkCrime = crime ∧ c.state = .ON_WORK) ∧
      ∃ a ∈ assignments db series crime, a.status = .ASSIGNED := by
  simp only [CrimeCaseRepository.getOpenedCasesOnWhichMinorStatusAssigned, assignments,
    List.mem_flatMap, List.mem_map, List.mem_filter, decide_eq_true_eq, hasSeries_iff]
  constructor
  · rintro ⟨_, ⟨cr, hcr, crC, hcrC, polC, hpolC, sl, ⟨hsl, hstate, hseries, hstatus⟩, rfl⟩, rfl⟩
    obtain ⟨c, rfl, hstate'⟩ := Option.map_eq_some_iff.mp hstate
    obtain ⟨a, rfl, hstatus'⟩ := Option.map_eq_some_iff.mp hstatus
    obtain ⟨q, rfl, hseries'⟩ := Option.map_eq_some_iff.mp hseries
    simp only [some_mem_leftJoin_iff, decide_eq_true_eq, Option.map_some, Option.some.injEq]
      at hcrC hpolC hsl
    exact ⟨cr, hcr, rfl, ⟨c, hcrC.1, hcrC.2, hstate'⟩, a, ⟨hpolC.1, hpolC.2, q, hsl.1, hsl.2.symm,
      hseries'⟩, hstatus'⟩
  · rintro ⟨cr, hcr, rfl, ⟨c, hc, hcrime, hstate⟩, a, ⟨ha, hacrime, q, hq, hid, hseries⟩, hstatus⟩
    refine ⟨_, ⟨cr, hcr, some c, some_mem_leftJoin_iff.mpr ⟨hc, decide_eq_true hcrime⟩, some a,
      some_mem_leftJoin_iff.mpr ⟨ha, decide_eq_true hacrime⟩, some q,
      ⟨some_mem_leftJoin_iff.mpr ⟨hq, ?_⟩, ?_⟩, rfl⟩, rfl⟩
    · simp [hid]
    · simp [hstate, hseries, hstatus]

/-- A record is about the one case of its crime, for the one major of the series. -/
theorem record_case (hdb : Kept db) (hp : p ∈ db.policeman) {details : Details}
    {r : CaseWithSlaveRecord} (hr : r ∈ getCasesWithPolicemenRecords db details p.series) :
    r.caseState = (db.crimeCase.find? (·.fkCrime = r.crimeId)).map (·.state) ∧
      r.ownsCase =
        sqlEq ((db.crimeCase.find? (·.fkCrime = r.crimeId)).map (·.fkPolicemanMajor)) (some p.id) := by
  simp only [getCasesWithPolicemenRecords, List.mem_flatMap, List.mem_map, List.mem_filter] at hr
  obtain ⟨cr, -, crC, hcrC, polC, -, sl, -, major, ⟨hmajor, -⟩, rfl⟩ := hr
  rw [leftJoin_key hdb.constraints.crimeCase (k := cr.id) fun c hc => of_decide_eq_true hc,
    List.mem_singleton] at hcrC
  rw [leftJoin_eq_some (filter_key_eq hdb.series hp), List.mem_singleton] at hmajor
  rw [hcrC, hmajor]
  exact ⟨rfl, rfl⟩

theorem exists_record (hdb : Kept db) (hp : p ∈ db.policeman) (details : Details) {c : CrimeCase}
    (hc : c ∈ db.crimeCase) (howner : c.fkPolicemanMajor = p.id) :
    ∃ r ∈ getCasesWithPolicemenRecords db details p.series, r.crimeId = c.fkCrime := by
  obtain ⟨cr, hcr, hid⟩ := hdb.constraints.caseCrime c hc
  obtain ⟨polC, hpolC⟩ := exists_mem_leftJoin db.policemanCase (·.fkCrime = cr.id)
  obtain ⟨sl, hsl⟩ := exists_mem_leftJoin db.policeman fun sl =>
    polC.map (·.fkPolicemanMinor) = some sl.id
  simp only [getCasesWithPolicemenRecords, List.mem_flatMap, List.mem_map, List.mem_filter]
  refine ⟨_, ⟨cr, hcr, some c, some_mem_leftJoin_iff.mpr ⟨hc, decide_eq_true hid.symm⟩, polC, hpolC,
    sl, hsl, some p, ⟨some_mem_leftJoin_iff.mpr ⟨hp, decide_eq_true rfl⟩, ?_⟩, rfl⟩, hid⟩
  simp [sqlEq, howner]

/-- Whatever the order of the records, a case is shown as his own and not closed if it is so. -/
theorem case_owned_iff (hdb : Kept db) (hp : p ∈ db.policeman) {details : Details}
    {records : List CaseWithSlaveRecord}
    (hrecords : records.Perm (getCasesWithPolicemenRecords db details p.series)) {crime : ℤ} :
    (∃ c ∈ (getCasesWithMinPolicemanAndUniqueFull records).crimeCases,
      c.id = crime ∧ c.owns = some true ∧ c.state ≠ some "close") ↔
    ∃ c ∈ db.crimeCase, c.fkCrime = crime ∧ c.fkPolicemanMajor = p.id ∧ c.state ≠ .CLOSE := by
  have hshown : ∀ {r : CaseWithSlaveRecord}, r ∈ records → ∀ {c : CrimeCase}, c ∈ db.crimeCase →
      c.fkCrime = r.crimeId →
      r.caseState = some c.state ∧ (r.ownsCase = some true ↔ c.fkPolicemanMajor = p.id) := by
    intro r hr c hc hcrime
    obtain ⟨hstate, howns⟩ := record_case hdb hp (hrecords.mem_iff.mp hr)
    rw [← hcrime, case_find hdb.constraints hc] at hstate howns
    rw [hstate, howns]
    simp [sqlEq]
  have hclose : ∀ {state : CaseState}, some state.toLowerCase ≠ some "close" ↔ state ≠ .CLOSE := by
    intro state
    cases state <;> simp [CaseState.toLowerCase]
  rw [overview_eq]
  constructor
  · rintro ⟨_, hmem, rfl, howns, hstate⟩
    obtain ⟨response, hresponse, rfl⟩ := List.mem_map.mp hmem
    obtain ⟨r, hr, rfl⟩ := List.mem_map.mp (mem_firstBy_mem hresponse)
    have howns : r.ownsCase = some true := howns
    have hstate : r.caseState.map (·.toLowerCase) ≠ some "close" := hstate
    obtain ⟨-, howns'⟩ := record_case hdb hp (hrecords.mem_iff.mp hr)
    cases hc : db.crimeCase.find? (·.fkCrime = r.crimeId) with
    | none =>
      rw [howns', hc] at howns
      cases howns
    | some c =>
      have hmem := List.mem_of_find?_eq_some hc
      have hcrime : c.fkCrime = r.crimeId := by simpa using List.find?_some hc
      obtain ⟨hcase, howner⟩ := hshown hr hmem hcrime
      rw [hcase] at hstate
      exact ⟨c, hmem, hcrime, howner.mp howns, hclose.mp hstate⟩
  · rintro ⟨c, hc, rfl, howner, hopen⟩
    obtain ⟨r, hr, hid⟩ := exists_record hdb hp details hc howner
    have hcrimes : c.fkCrime ∈ records.map (·.crimeId) :=
      List.mem_map.mpr ⟨r, hrecords.mem_iff.mpr hr, hid⟩
    obtain ⟨response, hresponse, hrid⟩ := List.mem_map.mp (mem_crimes.mpr hcrimes)
    obtain ⟨r', hr', rfl⟩ := List.mem_map.mp (mem_firstBy_mem hresponse)
    obtain ⟨hcase, howns⟩ := hshown hr' hc hrid.symm
    refine ⟨_, List.mem_map_of_mem hresponse, hrid, howns.mpr howner, ?_⟩
    change r'.caseState.map (·.toLowerCase) ≠ some "close"
    rw [hcase]
    exact hclose.mpr hopen

end Rows

/-! ### What the requests are accepted for -/

section Requests

variable {p : Policeman}

@[simp] def Plan.status : Plan → HttpStatus
  | .respond status => status
  | .write _ status => status

/-- A request that is answered so in one state of its check only, in which it writes. -/
theorem handle_iff {σ : Type} {session : Session} {request : Request} {state : Except Failure σ}
    {plan : σ → Except Failure Plan} (hcheck : check db session request = state >>= plan) {s : σ}
    {w : Write} {status : HttpStatus} (hplan : plan s = .ok (.write w status))
    (hother : ∀ s', s' ≠ s → ∀ p, plan s' = .ok p → p.status ≠ status) :
    (handle db session request).1 = .ok status ↔ state = .ok s ∧ ∃ db', w.exec db = .ok db' := by
  cases hstate : state with
  | error e =>
    rw [hstate] at hcheck
    rw [handle, hcheck]
    simp [bind, Except.bind]
  | ok s' =>
    rw [hstate] at hcheck
    have hcheck : check db session request = plan s' := hcheck
    by_cases hs : s' = s
    · rw [hs, hplan] at hcheck
      rw [handle, hcheck]
      cases hw : w.exec db <;> simp [hs, hw]
    · have hne : ∀ p, plan s' = .ok p → p.status ≠ status := hother s' hs
      have hs : ¬ (Except.ok s' : Except Failure σ) = .ok s := fun h => hs (Except.ok.inj h)
      refine iff_of_false ?_ fun h => hs h.1
      rw [handle, hcheck]
      cases hp : plan s' with
      | error e => simp
      | ok p =>
        have hne := hne p hp
        cases p with
        | respond other => simpa using hne
        | write w' other =>
          dsimp only
          cases w'.exec db
          · simp
          · simpa using hne

/-- The session of a policeman has the role of his rank. -/
def Policeman.session (p : Policeman) : Session := ⟨p.series, p.rank⟩

@[simp] theorem Policeman.session_series (p : Policeman) : p.session.series = p.series := rfl

@[simp] theorem Policeman.session_role (p : Policeman) : p.session.role = p.rank := rfl

theorem handle_of_role {request : Request} {role : PoliceRank} (hrole : request.role = some role)
    (h : p.rank ≠ role) : (handle db p.session request).1 = .ok .FORBIDDEN := by
  have hcheck : check db p.session request = .ok (.respond .FORBIDDEN) := by
    unfold check
    rw [hrole]
    exact if_pos (decide_eq_true h.symm)
  rw [handle, hcheck]

/-- What the service lets through here the database accepts. -/
theorem case_created_iff (hdb : Kept db) (hp : p ∈ db.policeman) {crime : ℤ} :
    (handle db p.session (.createCrimeCase (some crime))).1 = .ok .CREATED ↔
      p.rank = .MAJOR ∧ ∃ cr ∈ db.crime, cr.id = crime ∧ Unopened db crime ∧
        ∃ d, cr.fkDistrict = some d ∧ WorksIn db p d := by
  by_cases hrank : p.rank = .MAJOR
  · have hcheck : check db p.session (.createCrimeCase (some crime)) =
        createCrimeCase db p.series (some crime) := by
      simp [check, Request.role, hrank]
    rw [handle_iff hcheck (s := .OK) (w := .createCrimeCase (some crime) p.series) rfl,
      getStateBeforeCreation_OK_iff hdb.constraints hdb.series hp]
    · have haccepted : (∃ db', CrimeCaseRepository.create (some crime) p.series db = .ok db') ↔ _ :=
        create_accepted_iff hdb.constraints hdb.series hp hrank
      constructor
      · rintro ⟨⟨cr, hcr, hid, hnew, hd⟩, -⟩
        obtain rfl := Option.some.inj hid
        exact ⟨hrank, cr, hcr, rfl, hnew, hd⟩
      · rintro ⟨-, cr, hcr, rfl, hnew, d, hdistrict, hd⟩
        refine ⟨⟨cr, hcr, rfl, hnew, d, hdistrict, hd⟩, haccepted.mpr ⟨cr, hcr, rfl, hnew, ?_, ?_⟩⟩
        · rw [hdistrict]
          exact fun hnone => absurd hnone (Option.some_ne_none d)
        · intro d' hd'
          rw [hdistrict] at hd'
          cases hd'
          exact hd
    · rintro (_ | _ | _ | _) hne plan hplan
      · exact absurd rfl hne
      all_goals
        cases hplan
        simp
  · rw [handle_of_role rfl hrank]
    simp [hrank]

/-- An assignment is added and accepted if there is none and the policemen fit. -/
theorem assignment_added_iff (hdb : Kept db) (hp : p ∈ db.policeman) (hrank : p.rank = .MAJOR)
    {c : CrimeCase} (hc : c ∈ db.crimeCase) {slave : ℤ} (status : PolicemanCaseStatus) :
    (PolicemanCaseService.getStateBeforePut db (some c.fkCrime) (some slave) p.series =
        .ok .TO_ADD ∧
      ∃ db', PolicemanCaseRepository.addOnCase (some c.fkCrime) (some slave) status p.series db =
        .ok db') ↔
    c.state = .ON_WORK ∧ onCase db c.fkCrime slave = [] ∧
      ∃ q ∈ db.policeman, q.id = slave ∧ q.rank = .MINOR ∧ q.fkPrecinct = p.fkPrecinct := by
  constructor
  · rintro ⟨hstate, haccepted⟩
    obtain ⟨-, q, hq, hid⟩ := putCheck_passes (.inl rfl) hstate
    obtain rfl := Option.some.inj hid
    obtain ⟨hwork, hnone⟩ := (toAdd_iff hdb.constraints hc hq p.series).mp hstate
    obtain ⟨-, hminor, hprecinct⟩ :=
      (addOnCase_accepted hdb.constraints hc hq hp hrank status).mp haccepted
    exact ⟨hwork, hnone, q, hq, rfl, hminor, hprecinct⟩
  · rintro ⟨hwork, hnone, q, hq, rfl, hminor, hprecinct⟩
    exact ⟨(toAdd_iff hdb.constraints hc hq p.series).mpr ⟨hwork, hnone⟩,
      (addOnCase_accepted hdb.constraints hc hq hp hrank status).mpr
        ⟨filter_key_eq hdb.series hp, hminor, hprecinct⟩⟩

/-- Without a status the request is the one with `assigned`. -/
theorem put_default (db : Db) {series : String} {crimeId slaveId : Option ℤ} :
    policemanOnCasePut db series crimeId slaveId none =
      policemanOnCasePut db series crimeId slaveId (some "assigned") := rfl

theorem put_created_iff {session : Session} {request : Request} {series name : String}
    {crimeId slaveId : Option ℤ} {status : PolicemanCaseStatus}
    (hcheck : check db session request =
      policemanOnCasePut db series crimeId slaveId (some name))
    (hname : convertToPolicemanOnCaseStatus name = some status) :
    (handle db session request).1 = .ok .CREATED ↔
      PolicemanCaseService.getStateBeforePut db crimeId slaveId series = .ok .TO_ADD ∧
        ∃ db', PolicemanCaseRepository.addOnCase crimeId slaveId status series db = .ok db' := by
  simp only [policemanOnCasePut, hname] at hcheck
  refine handle_iff hcheck (s := PolicemanCaseService.StateBeforePut.TO_ADD)
    (w := .addOnCase crimeId slaveId status series) rfl ?_
  rintro (_ | _ | _ | _ | _ | _ | _) hne plan hplan
  · exact absurd rfl hne
  all_goals
    cases hplan
    simp

theorem slave_assigned_iff (hdb : Kept db) (hp : p ∈ db.policeman) {c : CrimeCase}
    (hc : c ∈ db.crimeCase) {slave : ℤ} {status : Option String} :
    (handle db p.session (.policemanOnCasePut (some c.fkCrime) (some slave) status)).1 =
        .ok .CREATED ↔
      p.rank = .MAJOR ∧ (∀ name ∈ status, convertToPolicemanOnCaseStatus name ≠ none) ∧
        c.state = .ON_WORK ∧ onCase db c.fkCrime slave = [] ∧
        ∃ q ∈ db.policeman, q.id = slave ∧ q.rank = .MINOR ∧ q.fkPrecinct = p.fkPrecinct := by
  by_cases hrank : p.rank = .MAJOR
  · have hcheck : check db p.session (.policemanOnCasePut (some c.fkCrime) (some slave) status) =
        policemanOnCasePut db p.series (some c.fkCrime) (some slave) status := by
      simp [check, Request.role, hrank]
    cases status with
    | none =>
      rw [put_created_iff (hcheck.trans (put_default db)) rfl,
        assignment_added_iff hdb hp hrank hc]
      simp [hrank]
    | some name =>
      cases hname : convertToPolicemanOnCaseStatus name with
      | none =>
        have hrespond : check db p.session (.policemanOnCasePut (some c.fkCrime) (some slave)
            (some name)) = .ok (.respond .BAD_REQUEST) := by
          rw [hcheck]
          simp only [policemanOnCasePut, hname]
          rfl
        rw [handle, hrespond]
        simp [hname]
      | some status =>
        rw [put_created_iff hcheck hname, assignment_added_iff hdb hp hrank hc]
        simp [hrank, hname]
  · rw [handle_of_role rfl hrank]
    simp [hrank]

theorem updateCheck_OK_iff (hdb : Kept db) (hp : p ∈ db.policeman) {crime : ℤ} :
    CrimeCaseService.getStateBeforeUpdate db crime p.series = .ok .OK ↔
      ∃ c ∈ db.crimeCase, c.fkCrime = crime ∧ c.fkPolicemanMajor = p.id ∧ c.state ≠ .CLOSE := by
  constructor
  · intro h
    obtain ⟨info, hinfo, h⟩ := bind_ok h
    cases info with
    | none => cases h
    | some info =>
      obtain ⟨c, hc, q, hq, hcrime, hmajor, rfl⟩ :=
        CrimeCaseRepository.getInfoBeforeStateUpdate_some hinfo
      have hseries : q.series = p.series := by
        by_contra hne
        simp [hne, pure, Except.pure] at h
      obtain rfl := List.inj_on_of_nodup_map hdb.series hq hp hseries
      refine ⟨c, hc, hcrime, hmajor.symm, fun hclose => ?_⟩
      simp [hclose, pure, Except.pure] at h
  · rintro ⟨c, hc, rfl, hmajor, hopen⟩
    obtain ⟨cr, hcr, hid⟩ := hdb.constraints.caseCrime c hc
    have hpoliceman : (db.policeman.filter fun q =>
        (some c).map (·.fkPolicemanMajor) = some q.id) = [p] := by
      simp only [Option.map_some, hmajor, Option.some.injEq]
      rw [← filter_key_eq hdb.constraints.policeman hp]
      exact List.filter_congr fun q _ => decide_eq_decide.mpr eq_comm
    have hinfo : CrimeCaseRepository.getInfoBeforeStateUpdate db c.fkCrime =
        .ok (some ⟨true, some c.state, some p.series⟩) := by
      rw [← hid, CrimeCaseRepository.getInfoBeforeStateUpdate, filter_key_eq hdb.constraints.crime hcr,
        List.flatMap_singleton, hid, leftJoin_eq_some (filter_key_eq hdb.constraints.crimeCase hc),
        List.flatMap_singleton, hpoliceman]
      rfl
    rw [CrimeCaseService.getStateBeforeUpdate, hinfo]
    simp [bind, Except.bind, hopen, pure, Except.pure]

/-- The triggers look again at what was demanded of the case when it was opened. -/
theorem updateState_accepted (hdb : Kept db) {c : CrimeCase} (hc : c ∈ db.crimeCase)
    (hopen : c.state ≠ .CLOSE) (state : CaseState) :
    ∃ db', CrimeCaseRepository.updateState c.fkCrime state db = .ok db' := by
  have hunique : (Table.updated (fun r => decide (r.fkCrime = c.fkCrime))
      (fun r => { r with state := state }) db.crimeCase |>.map CrimeCase.fkCrime).Nodup :=
    Table.nodup_map_updated hdb.constraints.crimeCase fun _ => rfl
  refine (Table.update_accepted crimeCaseTable).mpr ⟨noDuplicates_ok_iff.mpr hunique, ?_⟩
  intro r hr hcrime
  obtain rfl := List.inj_on_of_nodup_map hdb.constraints.crimeCase hr hc (of_decide_eq_true hcrime)
  simp only [crimeCaseTable, except_seq_ok, ifChanged_ok, true_or, true_and,
    checkDistrict_setCases, checkMajor_setCases]
  exact ⟨raiseIf_ok.mpr (decide_eq_false hopen), hdb.districts r hr, hdb.majors r hr⟩

theorem state_updated_iff (hdb : Kept db) (hp : p ∈ db.policeman) {crime : ℤ} {name : String} :
    (handle db p.session (.updateCrimeCaseState crime name)).1 = .ok .OK ↔
      p.rank = .MAJOR ∧ convertToCrimeCaseState name ≠ none ∧
        ∃ c ∈ db.crimeCase, c.fkCrime = crime ∧ c.fkPolicemanMajor = p.id ∧ c.state ≠ .CLOSE := by
  by_cases hrank : p.rank = .MAJOR
  · have hcheck : check db p.session (.updateCrimeCaseState crime name) =
        updateCrimeCaseState db p.series crime name := by
      simp [check, Request.role, hrank]
    cases hname : convertToCrimeCaseState name with
    | none =>
      have hrespond : check db p.session (.updateCrimeCaseState crime name) =
          .ok (.respond .BAD_REQUEST) := by
        rw [hcheck]
        simp only [updateCrimeCaseState, hname]
        rfl
      rw [handle, hrespond]
      simp
    | some state =>
      simp only [updateCrimeCaseState, hname] at hcheck
      rw [handle_iff hcheck (s := CrimeCaseService.StateBeforeUpdate.OK)
        (w := .updateState crime state) rfl, updateCheck_OK_iff hdb hp]
      · constructor
        · rintro ⟨hcase, -⟩
          exact ⟨hrank, Option.some_ne_none _, hcase⟩
        · rintro ⟨-, -, c, hc, rfl, hmajor, hopen⟩
          exact ⟨⟨c, hc, rfl, hmajor, hopen⟩, updateState_accepted hdb hc hopen state⟩
      · rintro (_ | _ | _ | _ | _) hne plan hplan
        · exact absurd rfl hne
        all_goals
          cases hplan
          simp
  · rw [handle_of_role rfl hrank]
    simp [hrank]

theorem assignments_eq_onCase (hdb : Kept db) (hp : p ∈ db.policeman) (crime : ℤ) :
    assignments db p.series crime = onCase db crime p.id := by
  rw [assignments_eq (p := p) (filter_key_eq hdb.series hp), onCase]
  exact List.filter_congr fun a _ => decide_eq_decide.mpr and_comm

/-- The policeman is assigned to the crime once. -/
theorem note_created_iff (hdb : Kept db) (hp : p ∈ db.policeman) {crime : ℤ}
    {text : Option String} :
    (handle db p.session (.createCrimeNote (some crime) text)).1 = .ok .CREATED ↔
      p.rank = .MINOR ∧ text ≠ none ∧
        (∃ c ∈ db.crimeCase, c.fkCrime = crime ∧ c.state = .ON_WORK) ∧
        ∃ a, assignments db p.series crime = [a] ∧ a.status = .ASSIGNED := by
  have hbearer : bearers db p.series = [p] := filter_key_eq hdb.series hp
  by_cases hrank : p.rank = .MINOR
  · have hcheck : check db p.session (.createCrimeNote (some crime) text) =
        createCrimeNote db p.series (some crime) text := by
      simp [check, Request.role, hrank]
    rw [handle_iff hcheck (s := NoteService.StateBeforeCreation.OK)
      (w := .createNote (some crime) p.series text) rfl, noteCheck_OK_iff hdb.constraints]
    · have haccepted : (∃ db', NoteRepository.create (some crime) p.series text db = .ok db') ↔ _ :=
        note_create_accepted hdb.constraints
      constructor
      · rintro ⟨⟨c, hc, hid, a, ha, hstatus⟩, hwrite⟩
        obtain rfl := Option.some.inj hid
        obtain ⟨p', crime, hp', hcrime, htext, -, hact⟩ := haccepted.mp hwrite
        cases hcrime
        rw [mayAct_iff hdb.constraints hp' hc ha] at hact
        exact ⟨hrank, htext, ⟨c, hc, rfl, hact.2⟩, a, ha, hstatus⟩
      · rintro ⟨-, htext, ⟨c, hc, rfl, hstate⟩, a, ha, hstatus⟩
        have hassigned : a.status ≠ .REMOVED := by simp [hstatus]
        have hact := (mayAct_iff hdb.constraints hbearer hc ha).mpr ⟨hassigned, hstate⟩
        exact ⟨⟨c, hc, rfl, a, ha, hstatus⟩, haccepted.mpr
          ⟨p, c.fkCrime, hbearer, rfl, htext, fun n hn => (hdb.notes n hn).ne, hact⟩⟩
    · rintro (_ | _ | _ | _ | _) hne plan hplan
      · exact absurd rfl hne
      all_goals
        cases hplan
        simp
  · rw [handle_of_role rfl hrank]
    simp [hrank]

end Requests

/-! ### A frozen case -/

theorem assignedCase_kept : Kept assignedCase where
  constraints := by constructor <;> decide
  series := by decide
  districts := by decide
  majors := by decide
  notes := by decide

/-- The owner of the case freezes it. -/
def frozenBy : List Event :=
  [.check ⟨"PTO41", .MAJOR⟩ (.updateCrimeCaseState 1 "freeze"), .write 0]

/-! ### Lists and requests -/

variable {c : Config}

/-- A crime with a type is listed to a major as not opened exactly if he can open a case. -/
theorem crime_listed_iff_opened (h : Kept c.db) (es : List Event)
    (typeOf : ℤ → Option (Option String)) :
    let db := (run interleavedStep c es).db
    ∀ p ∈ db.policeman, ∀ crime,
      (∃ crimes, getMyPrecinctDistrictsCrimes db typeOf p.session = .ok crimes ∧
        ∃ r ∈ crimes, r.id = crime ∧ r.caseOpened = false) ↔
      (typeOf crime).isSome ∧
        (handle db p.session (.createCrimeCase (some crime))).1 = .ok .CREATED := by
  intro db p hp crime
  have hdb : Kept db := run_kept h es
  have hlisted := crime_listed_iff typeOf hdb hp crime
  unfold getMyPrecinctDistrictsCrimes
  rw [exists_withRole, case_created_iff hdb hp]
  exact (and_congr_right fun _ => hlisted).trans and_left_comm

/-- The other major has the crime in his districts, and it has a case. -/
theorem crime_listed_iff_opened_frozen :
    let db := (run interleavedStep ⟨assignedCase, []⟩ frozenBy).db
    (∃ crimes, getMyPrecinctDistrictsCrimes db (fun _ => some none) ⟨"NIX57", .MAJOR⟩ =
        .ok crimes ∧ ∃ r ∈ crimes, r.id = 1 ∧ r.caseOpened = false) ↔
      (some (none : Option String)).isSome ∧
        (handle db ⟨"NIX57", .MAJOR⟩ (.createCrimeCase (some 1))).1 = .ok .CREATED :=
  crime_listed_iff_opened (c := ⟨assignedCase, []⟩) assignedCase_kept frozenBy (fun _ => some none)
    ⟨2, .MAJOR, "NIX57", 8, 57⟩ (by decide) 1

/-- A subordinate can be put on a case exactly if he is listed, the case is on work and he is
not on it yet. -/
theorem slave_listed_iff_assigned (h : Kept c.db) (es : List Event)
    (dateOfIssue : ℤ → LocalDate) :
    let db := (run interleavedStep c es).db
    ∀ p ∈ db.policeman, ∀ cr ∈ db.crimeCase, ∀ slave, ∀ status : Option String,
      (handle db p.session (.policemanOnCasePut (some cr.fkCrime) (some slave) status)).1 =
          .ok .CREATED ↔
        (∃ slaves, getMySlaves db dateOfIssue p.session = .ok (.ok slaves) ∧
          ∃ r ∈ slaves, r.id = slave) ∧
        cr.state = .ON_WORK ∧ onCase db cr.fkCrime slave = [] ∧
        ∀ name ∈ status, convertToPolicemanOnCaseStatus name ≠ none := by
  intro db p hp cr hcr slave status
  have hdb : Kept db := run_kept h es
  have hlisted := slave_listed_iff hdb hp dateOfIssue slave
  have hrole : (∃ slaves, getMySlaves db dateOfIssue p.session = .ok (.ok slaves) ∧
      ∃ r ∈ slaves, r.id = slave) ↔ p.rank = .MAJOR ∧ ∃ q ∈ db.policeman, q.id = slave ∧
        q.rank = .MINOR ∧ q.fkPrecinct = p.fkPrecinct := by
    rw [← hlisted, ← p.session_role]
    refine Iff.trans ?_ (exists_withRole
      (P := fun answer : Except DbError (List NoContextNoRankPolicemanResponse) =>
        ∃ slaves, answer = .ok slaves ∧ ∃ r ∈ slaves, r.id = slave))
    constructor
    · rintro ⟨slaves, hslaves, hmem⟩
      exact ⟨.ok slaves, hslaves, slaves, rfl, hmem⟩
    · rintro ⟨_, hslaves, slaves, rfl, hmem⟩
      exact ⟨slaves, hslaves, hmem⟩
  rw [slave_assigned_iff hdb hp hcr, hrole]
  constructor
  · rintro ⟨hrank, hstatus, hwork, hnone, hslave⟩
    exact ⟨⟨hrank, hslave⟩, hwork, hnone, hstatus⟩
  · rintro ⟨⟨hrank, hslave⟩, hwork, hnone, hstatus⟩
    exact ⟨hrank, hstatus, hwork, hnone, hslave⟩

theorem slave_listed_iff_assigned_frozen :
    let db := (run interleavedStep ⟨assignedCase, []⟩ frozenBy).db
    (handle db ⟨"PTO41", .MAJOR⟩ (.policemanOnCasePut (some 1) (some 3) none)).1 = .ok .CREATED ↔
      (∃ slaves, getMySlaves db (fun _ => ⟨2000, 1, 1⟩) ⟨"PTO41", .MAJOR⟩ = .ok (.ok slaves) ∧
        ∃ r ∈ slaves, r.id = 3) ∧
      CaseState.FREEZE = .ON_WORK ∧ onCase db 1 3 = [] ∧
      ∀ name ∈ (none : Option String), convertToPolicemanOnCaseStatus name ≠ none :=
  slave_listed_iff_assigned (c := ⟨assignedCase, []⟩) assignedCase_kept frozenBy
    (fun _ => ⟨2000, 1, 1⟩) ⟨1, .MAJOR, "PTO41", 7, 41⟩ (by decide) ⟨1, .FREEZE, 1⟩ (by decide) 3 none

/-- A case is shown to a major as his own and not closed exactly if he can set its state. -/
theorem case_owned_iff_updated (h : Kept c.db) (es : List Event)
    (details : Details) :
    let db := (run interleavedStep c es).db
    ∀ p ∈ db.policeman, ∀ records,
      records.Perm (getCasesWithPolicemenRecords db details p.series) → ∀ crime name,
      (handle db p.session (.updateCrimeCaseState crime name)).1 = .ok .OK ↔
        convertToCrimeCaseState name ≠ none ∧
        ∃ overview, getPrecinctCases records p.session = .ok overview ∧
          ∃ c ∈ overview.crimeCases, c.id = crime ∧ c.owns = some true ∧
            c.state ≠ some "close" := by
  intro db p hp records hrecords crime name
  have hdb : Kept db := run_kept h es
  unfold getPrecinctCases
  rw [exists_withRole, state_updated_iff hdb hp, case_owned_iff hdb hp hrecords]
  exact and_left_comm

theorem case_owned_iff_updated_frozen :
    let db := (run interleavedStep ⟨assignedCase, []⟩ frozenBy).db
    (handle db ⟨"PTO41", .MAJOR⟩ (.updateCrimeCaseState 1 "on_work")).1 = .ok .OK ↔
      convertToCrimeCaseState "on_work" ≠ none ∧
      ∃ overview, getPrecinctCases (getCasesWithPolicemenRecords db noDetails "PTO41")
          ⟨"PTO41", .MAJOR⟩ = .ok overview ∧
        ∃ c ∈ overview.crimeCases, c.id = 1 ∧ c.owns = some true ∧ c.state ≠ some "close" :=
  case_owned_iff_updated (c := ⟨assignedCase, []⟩) assignedCase_kept frozenBy noDetails
    ⟨1, .MAJOR, "PTO41", 7, 41⟩ (by decide) _ (List.Perm.refl _) 1 "on_work"

/-- A minor can write a note about a crime exactly if its case is available to him and he was
put on it once only. -/
theorem case_available_iff_noted (h : Kept c.db) (es : List Event)
    (typeOf : ℤ → Option (Option String)) :
    let db := (run interleavedStep c es).db
    ∀ p ∈ db.policeman, ∀ crime, ∀ text : Option String,
      (handle db p.session (.createCrimeNote (some crime) text)).1 = .ok .CREATED ↔
        text ≠ none ∧ (onCase db crime p.id).length = 1 ∧
        ∃ cases, getAvailableCases db typeOf p.session = .ok cases ∧ ∃ r ∈ cases, r.id = crime := by
  intro db p hp crime text
  have hdb : Kept db := run_kept h es
  unfold getAvailableCases
  rw [exists_withRole, note_created_iff hdb hp, case_listed_iff, p.session_series, p.session_role,
    assignments_eq_onCase hdb hp, List.length_eq_one_iff]
  constructor
  · rintro ⟨hrank, htext, ⟨c, hc, rfl, hstate⟩, a, ha, hstatus⟩
    obtain ⟨cr, hcr, hid⟩ := hdb.constraints.caseCrime c hc
    refine ⟨htext, ⟨a, ha⟩, hrank, cr, hcr, hid, ⟨c, hc, rfl, hstate⟩, a, ?_, hstatus⟩
    rw [ha]
    exact List.mem_singleton_self a
  · rintro ⟨htext, ⟨a, ha⟩, hrank, -, -, -, hcase, a', ha', hstatus⟩
    rw [ha, List.mem_singleton] at ha'
    rw [ha'] at hstatus
    exact ⟨hrank, htext, hcase, a, ha, hstatus⟩

theorem case_available_iff_noted_frozen :
    let db := (run interleavedStep ⟨assignedCase, []⟩ frozenBy).db
    (handle db ⟨"JUD41", .MINOR⟩ (.createCrimeNote (some 1) (some "no witnesses"))).1 =
        .ok .CREATED ↔
      some "no witnesses" ≠ none ∧ (onCase db 1 3).length = 1 ∧
      ∃ cases, getAvailableCases db (fun _ => none) ⟨"JUD41", .MINOR⟩ = .ok cases ∧
        ∃ r ∈ cases, r.id = 1 :=
  case_available_iff_noted (c := ⟨assignedCase, []⟩) assignedCase_kept frozenBy (fun _ => none)
    ⟨3, .MINOR, "JUD41", 9, 41⟩ (by decide) 1 (some "no witnesses")

end Itmo.Police
