import Itmo.Police.Schema

/-! The states that satisfy the declared constraints, and what each trigger
function decides in such a state: a strict select by a primary key finds the row
with that key, so every check comes down to the existence of a row. -/

namespace Itmo.Police

open Lib

/-- The primary and foreign keys of `create.sql`; that a column is not null is
part of its type. -/
structure Constraints (db : Db) : Prop where
  precinct : (db.precinct.map (·.number)).Nodup
  person : (db.person.map (·.id)).Nodup
  policeman : (db.policeman.map (·.id)).Nodup
  district : (db.district.map (·.id)).Nodup
  crime : (db.crime.map (·.id)).Nodup
  crimeCase : (db.crimeCase.map (·.fkCrime)).Nodup
  note : (db.note.map (·.id)).Nodup
  personRelevantToCase : (db.personRelevantToCase.map fun r => (r.fkCrime, r.fkPerson)).Nodup
  policemanPerson : ∀ p ∈ db.policeman, ∃ q ∈ db.person, q.id = p.fkPerson
  policemanPrecinct : ∀ p ∈ db.policeman, ∃ q ∈ db.precinct, q.number = p.fkPrecinct
  precinctDistrictDistrict : ∀ r ∈ db.precinctDistrict, ∃ d ∈ db.district, d.id = r.fkDistrict
  precinctDistrictPrecinct : ∀ r ∈ db.precinctDistrict, ∃ p ∈ db.precinct, p.number = r.fkPrecinct
  crimeDistrict : ∀ r ∈ db.crime, ∀ fk, r.fkDistrict = some fk → ∃ d ∈ db.district, d.id = fk
  caseCrime : ∀ r ∈ db.crimeCase, ∃ c ∈ db.crime, c.id = r.fkCrime
  caseMajor : ∀ r ∈ db.crimeCase, ∃ p ∈ db.policeman, p.id = r.fkPolicemanMajor
  assignmentMajor : ∀ r ∈ db.policemanCase, ∀ fk, r.fkPolicemanMajor = some fk →
    ∃ p ∈ db.policeman, p.id = fk
  assignmentMinor : ∀ r ∈ db.policemanCase, ∃ p ∈ db.policeman, p.id = r.fkPolicemanMinor
  assignmentCrime : ∀ r ∈ db.policemanCase, ∃ c ∈ db.crime, c.id = r.fkCrime
  notePoliceman : ∀ r ∈ db.note, ∃ p ∈ db.policeman, p.id = r.fkPoliceman
  noteCrime : ∀ r ∈ db.note, ∃ c ∈ db.crime, c.id = r.fkCrime
  relevantCrime : ∀ r ∈ db.personRelevantToCase, ∃ c ∈ db.crime, c.id = r.fkCrime
  relevantPerson : ∀ r ∈ db.personRelevantToCase, ∃ p ∈ db.person, p.id = r.fkPerson
  relevantPoliceman : ∀ r ∈ db.personRelevantToCase, ∃ p ∈ db.policeman, p.id = r.fkPoliceman

/-! ### Single checks -/

theorem raiseIf_ok {b : Bool} {message : String} : raiseIf b message = .ok () ↔ b = false := by
  cases b <;> simp [raiseIf]

theorem references_ok {α : Type*} {rows : List α} {key : α → ℤ} {fk : ℤ} :
    references rows key fk = .ok () ↔ ∃ r ∈ rows, key r = fk := by
  simp [references]

theorem referencesOrNull_ok {α : Type*} {rows : List α} {key : α → ℤ} {fk : Option ℤ} :
    referencesOrNull rows key fk = .ok () ↔ ∀ k, fk = some k → ∃ r ∈ rows, key r = k := by
  cases fk with
  | none => simp [referencesOrNull]
  | some k => simp [referencesOrNull, references_ok]

theorem noDuplicates_ok_iff {α κ : Type*} [DecidableEq κ] {key : α → κ} {rows : List α} :
    noDuplicates key rows = .ok () ↔ (rows.map key).Nodup := by
  simp [noDuplicates]

theorem ifChanged_ok {κ : Type*} [DecidableEq κ] {old new : κ} {check : Except DbError Unit} :
    ifChanged old new check = .ok () ↔ old = new ∨ check = .ok () := by
  unfold ifChanged
  split <;> simp_all

/-- A strict select of a column, followed by a check of the value. -/
theorem strict_map_ok {α β : Type} {rows : List α} {f : α → β}
    {check : β → Except DbError Unit} : (strict (rows.map f) >>= check) = .ok () ↔
      ∃ r, rows = [r] ∧ check (f r) = .ok () := by
  match rows with
  | [] => simp [strict, exactlyOne, bind, Except.bind]
  | [r] => simp [strict, exactlyOne, bind, Except.bind]
  | r :: r' :: rows => simp [strict, exactlyOne, bind, Except.bind]

/-- A strict select of a column by a unique key, followed by a check of the value. -/
theorem strict_key_ok {α β κ : Type} [DecidableEq κ] {key : α → κ} {rows : List α}
    (h : (rows.map key).Nodup) {k : κ} {f : α → β} {check : β → Except DbError Unit} :
    (strict ((rows.filter (key · = k)).map f) >>= check) = .ok () ↔
      ∃ r ∈ rows, key r = k ∧ check (f r) = .ok () := by
  rw [strict_map_ok]
  constructor
  · rintro ⟨r, hr, hc⟩
    have hmem : r ∈ rows.filter (key · = k) := by rw [hr]; exact List.mem_singleton_self r
    rw [List.mem_filter, decide_eq_true_eq] at hmem
    exact ⟨r, hmem.1, hmem.2, hc⟩
  · rintro ⟨r, hmem, rfl, hc⟩
    exact ⟨r, filter_key_eq h hmem, hc⟩

/-! ### Trigger functions -/

variable {db : Db}

theorem checkHasName_ok (hp : (db.person.map (·.id)).Nodup) {new : Policeman} :
    checkHasName db new = .ok () ↔ ∃ q ∈ db.person, q.id = new.fkPerson ∧ q.name ≠ none := by
  rw [checkHasName, strict_key_ok hp]
  simp [raiseIf_ok, Option.isNone_eq_false_iff, Option.isSome_iff_ne_none]

theorem checkMajor_ok (hp : (db.policeman.map (·.id)).Nodup) {new : CrimeCase} :
    checkMajor db new = .ok () ↔
      ∃ p ∈ db.policeman, p.id = new.fkPolicemanMajor ∧ p.rank = .MAJOR := by
  rw [checkMajor, strict_key_ok hp]
  simp [raiseIf_ok]

/-- A null district passes unless the precinct has no district at all. -/
theorem checkDistrict_ok (hc : (db.crime.map (·.id)).Nodup) {new : CrimeCase} :
    checkDistrict db new = .ok () ↔ ∃ c ∈ db.crime, c.id = new.fkCrime ∧
      (c.fkDistrict = none → districtsOf db new.fkPolicemanMajor ≠ []) ∧
      ∀ d, c.fkDistrict = some d → d ∈ districtsOf db new.fkPolicemanMajor := by
  have hcheck : ∀ c : Crime, raiseIf ((eqAny c.fkDistrict
      (districtsOf db new.fkPolicemanMajor)).map (!·) = some true)
        "Policeman can not create a case because crime happened in different district" = .ok () ↔
      (c.fkDistrict = none → districtsOf db new.fkPolicemanMajor ≠ []) ∧
        ∀ d, c.fkDistrict = some d → d ∈ districtsOf db new.fkPolicemanMajor := by
    intro c
    rw [raiseIf_ok]
    cases c.fkDistrict with
    | none => cases districtsOf db new.fkPolicemanMajor <;> simp [eqAny]
    | some d => simp [eqAny]
  simp only [checkDistrict]
  rw [strict_key_ok hc]
  simp only [hcheck]

/-- The districts of a policeman are those joined to his precinct. -/
theorem mem_districtsOf (hp : (db.policeman.map (·.id)).Nodup) {p : Policeman}
    (hmem : p ∈ db.policeman) {d : ℤ} : d ∈ districtsOf db p.id ↔
      ∃ r ∈ db.precinctDistrict, r.fkPrecinct = p.fkPrecinct ∧ r.fkDistrict = d := by
  rw [districtsOf, filter_key_eq hp hmem]
  simp [and_assoc]

/-- The precinct of a policeman, who is unique. -/
theorem precinctOf_some (hp : (db.policeman.map (·.id)).Nodup) {p : Policeman}
    (hmem : p ∈ db.policeman) : precinctOf db (some p.id) = .ok (some p.fkPrecinct) := by
  rw [precinctOf, filter_some_key_eq hp hmem]
  rfl

theorem precinctOf_none : precinctOf db none = .ok none := by
  have hfilter : (db.policeman.filter fun q => decide (some q.id = none)) = [] := by simp
  rw [precinctOf, hfilter]
  rfl

theorem checkRanksAndPrecinct_ok (hp : (db.policeman.map (·.id)).Nodup) {new : PolicemanCase} :
    checkRanksAndPrecinct db new = .ok () ↔
      ∃ m ∈ db.policeman, m.id = new.fkPolicemanMinor ∧ m.rank = .MINOR ∧
        ∀ j, new.fkPolicemanMajor = some j →
          ∃ p ∈ db.policeman, p.id = j ∧ p.rank = .MAJOR ∧ p.fkPrecinct = m.fkPrecinct := by
  have hmajor : ∀ {r : PoliceRank}, r ≠ .MINOR ↔ r = .MAJOR := by
    intro r
    cases r <;> simp
  cases hj : new.fkPolicemanMajor with
  | none =>
    simp only [checkRanksAndPrecinct, hj]
    rw [strict_key_ok hp]
    constructor
    · rintro ⟨m, hm, hid, h⟩
      rw [except_seq_ok, raiseIf_ok] at h
      exact ⟨m, hm, hid, by simpa using h.1, nofun⟩
    · rintro ⟨m, hm, hid, hrank, -⟩
      refine ⟨m, hm, hid, ?_⟩
      rw [except_seq_ok, raiseIf_ok, ← hid, precinctOf_none, precinctOf_some hp hm]
      simp [hrank, bind, Except.bind, raiseIf]
  | some j =>
    simp only [checkRanksAndPrecinct, hj]
    rw [strict_key_ok hp]
    simp only [except_seq_ok, strict_key_ok hp, raiseIf_ok, decide_eq_false_iff_not, ne_eq,
      not_not]
    constructor
    · rintro ⟨p, hpmem, rfl, hrank, m, hm, hid, hminor, hprecinct⟩
      refine ⟨m, hm, hid, hminor, fun j' hj' => ⟨p, hpmem, Option.some.inj hj', hmajor.mp hrank, ?_⟩⟩
      rw [← hid, precinctOf_some hp hpmem, precinctOf_some hp hm] at hprecinct
      simpa [bind, Except.bind, raiseIf_ok] using hprecinct
    · rintro ⟨m, hm, hid, hminor, hall⟩
      obtain ⟨p, hpmem, rfl, hrank, hprecinct⟩ := hall j rfl
      refine ⟨p, hpmem, rfl, hmajor.mpr hrank, m, hm, hid, hminor, ?_⟩
      rw [← hid, precinctOf_some hp hpmem, precinctOf_some hp hm]
      simpa [bind, Except.bind, raiseIf_ok] using hprecinct

theorem checkOpenedCase_ok {fkCrime : ℤ} :
    checkOpenedCase db fkCrime = .ok () ↔ ∃ c ∈ db.crimeCase, c.fkCrime = fkCrime := by
  simp [checkOpenedCase, raiseIf_ok]

/-- What `check_ranks_and_precinct` demands of an assignment. -/
def RanksFit (db : Db) (r : PolicemanCase) : Prop :=
  ∃ m ∈ db.policeman, m.id = r.fkPolicemanMinor ∧ m.rank = .MINOR ∧
    ∀ j, r.fkPolicemanMajor = some j →
      ∃ p ∈ db.policeman, p.id = j ∧ p.rank = .MAJOR ∧ p.fkPrecinct = m.fkPrecinct

/-- The one assignment of the policeman to the crime is in force, and the case is
being worked on. -/
def MayAct (db : Db) (fkPoliceman fkCrime : ℤ) : Prop :=
  (∃ a, (db.policemanCase.filter fun p =>
    p.fkPolicemanMinor = fkPoliceman ∧ p.fkCrime = fkCrime) = [a] ∧ a.status ≠ .REMOVED) ∧
  ∃ c ∈ db.crimeCase, c.fkCrime = fkCrime ∧ c.state = .ON_WORK

theorem checkCaseAndPoliceman_ok (hc : (db.crimeCase.map (·.fkCrime)).Nodup)
    {fkPoliceman fkCrime : ℤ} :
    checkCaseAndPoliceman db fkPoliceman fkCrime = .ok () ↔ MayAct db fkPoliceman fkCrime := by
  rw [checkCaseAndPoliceman, except_seq_ok, strict_map_ok, raiseIf_ok]
  simp only [except_seq_ok, strict_key_ok hc, raiseIf_ok, decide_eq_false_iff_not, ne_eq, not_not]
  constructor
  · rintro ⟨-, a, ha, hstatus, hcase⟩
    exact ⟨⟨a, ha, hstatus⟩, hcase⟩
  · rintro ⟨⟨a, ha, hstatus⟩, hcase⟩
    exact ⟨by rw [ha]; rfl, a, ha, hstatus, hcase⟩

theorem checkSelfAssign_ok (hp : (db.policeman.map (·.id)).Nodup) {new : PersonRelevantToCase} :
    checkSelfAssign db new = .ok () ↔
      ∀ p ∈ db.policeman, p.id = new.fkPoliceman → p.fkPerson ≠ new.fkPerson := by
  rw [checkSelfAssign, raiseIf_ok]
  by_cases hk : ∃ p ∈ db.policeman, p.id = new.fkPoliceman
  · obtain ⟨p, hmem, hid⟩ := hk
    rw [← hid, filter_key_eq hp hmem]
    simp only [List.map_singleton, List.head?_cons, Option.some.injEq, decide_eq_false_iff_not]
    constructor
    · intro hne p' hp' hk
      rwa [List.inj_on_of_nodup_map hp hp' hmem hk]
    · intro hall
      exact hall p hmem rfl
  · have hnil : (db.policeman.filter (·.id = new.fkPoliceman)) = [] :=
      filter_key_eq_nil fun p hmem he => hk ⟨p, hmem, he⟩
    rw [hnil]
    simp only [List.map_nil, List.head?_nil, reduceCtorEq, decide_false, true_iff]
    intro p hmem hid
    exact absurd ⟨p, hmem, hid⟩ hk

/-! ### Accepted inserts

No trigger of a table reads the table itself, so the checks after an insert are
those of the state before it. -/

section Frame

variable (cases : List CrimeCase) (onCase : List PolicemanCase) (notes : List Note) (relevant : List PersonRelevantToCase)
  (id policeman crime : ℤ)

@[simp] theorem checkDistrict_setCases (new : CrimeCase) :
    checkDistrict { db with crimeCase := cases } new = checkDistrict db new := rfl

@[simp] theorem checkMajor_setCases (new : CrimeCase) :
    checkMajor { db with crimeCase := cases } new = checkMajor db new := rfl

@[simp] theorem checkRanksAndPrecinct_setAssignments (new : PolicemanCase) :
    checkRanksAndPrecinct { db with policemanCase := onCase } new =
      checkRanksAndPrecinct db new := rfl

@[simp] theorem checkOpenedCase_setAssignments :
    checkOpenedCase { db with policemanCase := onCase } crime = checkOpenedCase db crime := rfl

@[simp] theorem checkCaseAndPoliceman_setNotes :
    checkCaseAndPoliceman { db with note := notes, nextNoteId := id } policeman crime =
      checkCaseAndPoliceman db policeman crime := rfl

@[simp] theorem checkOpenedCase_setNotes :
    checkOpenedCase { db with note := notes, nextNoteId := id } crime =
      checkOpenedCase db crime := rfl

@[simp] theorem checkCaseAndPoliceman_setRelevant :
    checkCaseAndPoliceman { db with personRelevantToCase := relevant } policeman crime =
      checkCaseAndPoliceman db policeman crime := rfl

@[simp] theorem checkOpenedCase_setRelevant :
    checkOpenedCase { db with personRelevantToCase := relevant } crime =
      checkOpenedCase db crime := rfl

@[simp] theorem checkSelfAssign_setRelevant (new : PersonRelevantToCase) :
    checkSelfAssign { db with personRelevantToCase := relevant } new = checkSelfAssign db new := rfl

end Frame

/-- Who may act on a crime satisfies the foreign keys of what he writes. -/
theorem MayAct.references (hdb : Constraints db) {policeman crime : ℤ}
    (h : MayAct db policeman crime) : (∃ p ∈ db.policeman, p.id = policeman) ∧
      (∃ c ∈ db.crime, c.id = crime) ∧ ∃ c ∈ db.crimeCase, c.fkCrime = crime := by
  obtain ⟨⟨a, ha, -⟩, c, hc, rfl, -⟩ := h
  have hmem : a ∈ db.policemanCase.filter fun p =>
      p.fkPolicemanMinor = policeman ∧ p.fkCrime = c.fkCrime := by
    rw [ha]
    exact List.mem_singleton_self a
  simp only [List.mem_filter, decide_eq_true_eq] at hmem
  obtain ⟨hmem, hminor, -⟩ := hmem
  rw [← hminor]
  exact ⟨hdb.assignmentMinor a hmem, hdb.caseCrime c hc, c, hc, rfl⟩

theorem crimeCase_insert_accepted (hdb : Constraints db) {new : CrimeCase} :
    (∃ db', crimeCaseTable.insert new db = .ok db') ↔
      (∀ c ∈ db.crimeCase, c.fkCrime ≠ new.fkCrime) ∧
      (∃ p ∈ db.policeman, p.id = new.fkPolicemanMajor ∧ p.rank = .MAJOR) ∧
      ∃ c ∈ db.crime, c.id = new.fkCrime ∧
        (c.fkDistrict = none → districtsOf db new.fkPolicemanMajor ≠ []) ∧
        ∀ d, c.fkDistrict = some d → d ∈ districtsOf db new.fkPolicemanMajor := by
  rw [Table.insert_accepted]
  simp only [crimeCaseTable, noDuplicates_ok_iff, nodup_map_concat hdb.crimeCase, except_seq_ok,
    references_ok, checkDistrict_setCases, checkMajor_setCases, checkDistrict_ok hdb.crime,
    checkMajor_ok hdb.policeman]
  constructor
  · rintro ⟨hnew, -, -, hdistrict, hmajor⟩
    exact ⟨hnew, hmajor, hdistrict⟩
  · rintro ⟨hnew, ⟨p, hp, hid, hmajor⟩, c, hc, hcid, hdistrict⟩
    exact ⟨hnew, ⟨c, hc, hcid⟩, ⟨p, hp, hid⟩, ⟨c, hc, hcid, hdistrict⟩, p, hp, hid, hmajor⟩

/-- The foreign keys of an assignment follow from what its triggers demand. -/
theorem policemanCase_insert_accepted (hdb : Constraints db) {new : PolicemanCase} :
    (∃ db', policemanCaseTable.insert new db = .ok db') ↔
      (∃ c ∈ db.crimeCase, c.fkCrime = new.fkCrime) ∧ RanksFit db new := by
  rw [Table.insert_accepted]
  simp only [policemanCaseTable, true_and, except_seq_ok, referencesOrNull_ok, references_ok,
    checkOpenedCase_setAssignments, checkRanksAndPrecinct_setAssignments, checkOpenedCase_ok,
    checkRanksAndPrecinct_ok hdb.policeman]
  constructor
  · rintro ⟨-, -, -, hcase, hranks⟩
    exact ⟨hcase, hranks⟩
  · rintro ⟨⟨c, hc, hid⟩, hranks⟩
    refine ⟨?_, ?_, ?_, ⟨c, hc, hid⟩, hranks⟩
    · intro j hj
      obtain ⟨m, -, -, -, hmajor⟩ := hranks
      obtain ⟨p, hp, hpid, -⟩ := hmajor j hj
      exact ⟨p, hp, hpid⟩
    · obtain ⟨m, hm, hmid, -⟩ := hranks
      exact ⟨m, hm, hmid⟩
    · rw [← hid]
      exact hdb.caseCrime c hc

/-- An update of assignments that keeps all keys. -/
theorem policemanCase_update_accepted (hdb : Constraints db) {p : PolicemanCase → Bool}
    {f : PolicemanCase → PolicemanCase}
    (hmajor : ∀ r, (f r).fkPolicemanMajor = r.fkPolicemanMajor)
    (hminor : ∀ r, (f r).fkPolicemanMinor = r.fkPolicemanMinor)
    (hcrime : ∀ r, (f r).fkCrime = r.fkCrime) :
    (∃ db', policemanCaseTable.update p f db = .ok db') ↔
      ∀ r ∈ db.policemanCase, p r →
        (∃ c ∈ db.crimeCase, c.fkCrime = r.fkCrime) ∧ RanksFit db r := by
  rw [Table.update_accepted]
  simp only [policemanCaseTable, true_and, except_seq_ok, ifChanged_ok, hmajor, hminor, hcrime,
    true_or, checkOpenedCase_setAssignments, checkRanksAndPrecinct_setAssignments,
    checkOpenedCase_ok, checkRanksAndPrecinct_ok hdb.policeman, RanksFit]

theorem note_insert_accepted (hdb : Constraints db) {new : Note} {id : ℤ} :
    (∃ db', noteTable.insert new { db with nextNoteId := id } = .ok db') ↔
      (∀ n ∈ db.note, n.id ≠ new.id) ∧ MayAct db new.fkPoliceman new.fkCrime := by
  rw [Table.insert_accepted]
  simp only [noteTable, noDuplicates_ok_iff, nodup_map_concat hdb.note, except_seq_ok,
    references_ok, checkCaseAndPoliceman_setNotes, checkOpenedCase_setNotes,
    checkCaseAndPoliceman_ok hdb.crimeCase, checkOpenedCase_ok]
  constructor
  · rintro ⟨hnew, -, -, hact, -⟩
    exact ⟨hnew, hact⟩
  · rintro ⟨hnew, hact⟩
    obtain ⟨hp, hc, hcase⟩ := hact.references hdb
    exact ⟨hnew, hp, hc, hact, hcase⟩

theorem relevant_insert_accepted (hdb : Constraints db) {new : PersonRelevantToCase} :
    (∃ db', personRelevantToCaseTable.insert new db = .ok db') ↔
      (∀ r ∈ db.personRelevantToCase, ¬ (r.fkCrime = new.fkCrime ∧ r.fkPerson = new.fkPerson)) ∧
      (∃ q ∈ db.person, q.id = new.fkPerson) ∧ MayAct db new.fkPoliceman new.fkCrime ∧
      ∀ p ∈ db.policeman, p.id = new.fkPoliceman → p.fkPerson ≠ new.fkPerson := by
  rw [Table.insert_accepted]
  simp only [personRelevantToCaseTable, noDuplicates_ok_iff,
    nodup_map_concat hdb.personRelevantToCase, except_seq_ok, references_ok,
    checkCaseAndPoliceman_setRelevant, checkOpenedCase_setRelevant, checkSelfAssign_setRelevant,
    checkCaseAndPoliceman_ok hdb.crimeCase, checkOpenedCase_ok, checkSelfAssign_ok hdb.policeman,
    ne_eq, Prod.mk.injEq]
  constructor
  · rintro ⟨hnew, -, hperson, -, hact, -, hself⟩
    exact ⟨hnew, hperson, hact, hself⟩
  · rintro ⟨hnew, hperson, hact, hself⟩
    obtain ⟨hp, hc, hcase⟩ := hact.references hdb
    exact ⟨hnew, hc, hperson, hp, hact, hcase, hself⟩

/-- An update of relevant persons that keeps all keys. -/
theorem relevant_update_accepted (hdb : Constraints db) {p : PersonRelevantToCase → Bool}
    {f : PersonRelevantToCase → PersonRelevantToCase} (hcrime : ∀ r, (f r).fkCrime = r.fkCrime)
    (hperson : ∀ r, (f r).fkPerson = r.fkPerson)
    (hpoliceman : ∀ r, (f r).fkPoliceman = r.fkPoliceman) :
    (∃ db', personRelevantToCaseTable.update p f db = .ok db') ↔
      ∀ r ∈ db.personRelevantToCase, p r → MayAct db r.fkPoliceman r.fkCrime ∧
        ∀ q ∈ db.policeman, q.id = r.fkPoliceman → q.fkPerson ≠ r.fkPerson := by
  have hunique : (Table.updated p f db.personRelevantToCase |>.map
      fun r => (r.fkCrime, r.fkPerson)).Nodup :=
    Table.nodup_map_updated hdb.personRelevantToCase fun r => by rw [hcrime, hperson]
  rw [Table.update_accepted]
  simp only [personRelevantToCaseTable, noDuplicates_ok_iff, hunique, true_and, except_seq_ok,
    ifChanged_ok, hcrime, hperson, hpoliceman, true_or, checkCaseAndPoliceman_setRelevant,
    checkOpenedCase_setRelevant, checkSelfAssign_setRelevant,
    checkCaseAndPoliceman_ok hdb.crimeCase, checkOpenedCase_ok, checkSelfAssign_ok hdb.policeman]
  refine forall_congr' fun r => forall_congr' fun _ => forall_congr' fun _ => ?_
  constructor
  · rintro ⟨hact, -, hself⟩
    exact ⟨hact, hself⟩
  · rintro ⟨hact, hself⟩
    exact ⟨hact, (hact.references hdb).2.2, hself⟩

end Itmo.Police
