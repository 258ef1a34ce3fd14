import Itmo.Police.Constraints
import Itmo.Police.Controllers
import Mathlib.Data.Option.Basic
import Mathlib.Data.Prod.Basic

/-! The requests of minors. What a service checks before a note or a relevant
person is written is not what the trigger checks: the service of notes does not
look at the state of the case, that of relevant persons does not look at the
status of the assignment, and neither looks at everything the write needs. -/

namespace Itmo.Police

open Lib

/-- The policemen with a series. -/
def bearers (db : Db) (series : String) : List Policeman := db.policeman.filter (·.series = series)

/-- The assignments to a crime of the policemen with a series. -/
def assignments (db : Db) (series : String) (crime : ℤ) : List PolicemanCase :=
  db.policemanCase.filter fun a => a.fkCrime = crime ∧ hasSeries db series a.fkPolicemanMinor

/-- The record of a person in a case. -/
def recordOf (db : Db) (crime : ℤ) (personId : Option ℤ) : Option PersonRelevantToCase :=
  db.personRelevantToCase.find? fun r => r.fkCrime = crime ∧ some r.fkPerson = personId

def personOf (db : Db) (personId : Option ℤ) : Option Person :=
  db.person.find? (some ·.id = personId)

variable {db : Db} {series : String}

/-! ### Queries -/

theorem case_find (hdb : Constraints db) {c : CrimeCase} (hc : c ∈ db.crimeCase) :
    db.crimeCase.find? (·.fkCrime = c.fkCrime) = some c := by
  rw [← List.head?_filter, filter_key_eq hdb.crimeCase hc]
  rfl

theorem caseAndAssignment_eq (hdb : Constraints db) (cr : Crime) :
    NoteRepository.caseAndAssignment db cr series =
      (leftJoin db.policemanCase fun a =>
        a.fkCrime = cr.id ∧ hasSeries db series a.fkPolicemanMinor).map fun a =>
          (db.crimeCase.find? (·.fkCrime = cr.id), a) := by
  rw [NoteRepository.caseAndAssignment,
    leftJoin_key hdb.crimeCase (k := cr.id) fun c hc => of_decide_eq_true hc, List.flatMap_singleton]

/-- The joined rows about a crime: one for each assignment, or one without. -/
theorem personRows_eq (hdb : Constraints db) {cr : Crime} (hcr : cr ∈ db.crime)
    (personId : Option ℤ) :
    PersonRelevantToCaseRepository.infoBeforePutRows db (some cr.id) personId series =
      (leftJoin db.policemanCase fun a =>
        a.fkCrime = cr.id ∧ hasSeries db series a.fkPolicemanMinor).map fun a =>
          (db.crimeCase.find? (·.fkCrime = cr.id), a, recordOf db cr.id personId,
            personOf db personId) := by
  have hrecord : (leftJoin db.personRelevantToCase fun r =>
      r.fkCrime = cr.id ∧ some r.fkPerson = personId) = [recordOf db cr.id personId] := by
    have hkey : (db.personRelevantToCase.map fun r => (r.fkCrime, some r.fkPerson)).Nodup := by
      have hinj : Function.Injective (Prod.map id some : ℤ × ℤ → ℤ × Option ℤ) :=
        Function.injective_id.prodMap (Option.some_injective ℤ)
      have h := hdb.personRelevantToCase.map hinj
      rwa [List.map_map] at h
    exact leftJoin_key hkey (k := (cr.id, personId)) fun r hr => by simpa using hr
  have hperson : leftJoin db.person (some ·.id = personId) = [personOf db personId] := by
    have hkey : (db.person.map fun q => some q.id).Nodup := by
      have h := hdb.person.map (Option.some_injective ℤ)
      rwa [List.map_map] at h
    exact leftJoin_key hkey (k := personId) fun q hq => of_decide_eq_true hq
  rw [PersonRelevantToCaseRepository.infoBeforePutRows, filter_some_key_eq hdb.crime hcr,
    List.flatMap_singleton, caseAndAssignment_eq hdb, hperson]
  simp only [hrecord, List.flatMap_singleton, List.map_singleton, List.flatMap_map]
  rw [List.map_eq_flatMap]

/-- The rows of a left join with the assignments, read as at most one row. -/
theorem optional_map_assignments {β : Type} {crime : ℤ} {f : Option PolicemanCase → β} {y : β} :
    optional ((leftJoin db.policemanCase fun a =>
        a.fkCrime = crime ∧ hasSeries db series a.fkPolicemanMinor).map f) = .ok (some y) ↔
      (assignments db series crime = [] ∧ f none = y) ∨
        ∃ a, assignments db series crime = [a] ∧ f (some a) = y := by
  rw [optional, atMostOne_ok, map_leftJoin_eq]
  rfl

/-! ### Notes -/

theorem noteInfo_eq (hdb : Constraints db) {cr : Crime} (hcr : cr ∈ db.crime) :
    NoteRepository.getInfoBeforeCreation db series (some cr.id) =
      optional ((leftJoin db.policemanCase fun a =>
        a.fkCrime = cr.id ∧ hasSeries db series a.fkPolicemanMinor).map fun a =>
          ⟨(db.crimeCase.find? (·.fkCrime = cr.id)).isSome,
            (db.crimeCase.find? (·.fkCrime = cr.id)).map (·.state), a.isSome,
            a.map (·.status)⟩) := by
  rw [NoteRepository.getInfoBeforeCreation, filter_some_key_eq hdb.crime hcr, List.flatMap_singleton,
    caseAndAssignment_eq hdb, List.map_map]
  rfl

/-- The check of a note lets it through when the crime has a case to which
exactly one policeman with the series is assigned. -/
theorem noteCheck_OK_iff (hdb : Constraints db) {crimeId : Option ℤ} :
    NoteService.getStateBeforeCreation db series crimeId = .ok .OK ↔
      ∃ c ∈ db.crimeCase, some c.fkCrime = crimeId ∧
        ∃ a, assignments db series c.fkCrime = [a] ∧ a.status = .ASSIGNED := by
  constructor
  · intro h
    obtain ⟨info, hinfo, h⟩ := bind_ok h
    cases info with
    | none => cases h
    | some info =>
      have hmem := optional_mem hinfo
      simp only [List.mem_flatMap, List.mem_filter, decide_eq_true_eq] at hmem
      obtain ⟨cr, ⟨hcr, rfl⟩, -⟩ := hmem
      rw [noteInfo_eq hdb hcr, optional_map_assignments] at hinfo
      rcases hinfo with ⟨-, rfl⟩ | ⟨a, ha, rfl⟩
      · simp only [Option.isSome_none, Bool.not_false, if_true] at h
        split_ifs at h <;> cases h
      · cases hc : db.crimeCase.find? (·.fkCrime = cr.id) with
        | none =>
          rw [hc] at h
          cases h
        | some c =>
          have hcid : c.fkCrime = cr.id := by simpa using List.find?_some hc
          refine ⟨c, List.mem_of_find?_eq_some hc, by rw [hcid], a, by rw [hcid, ha], ?_⟩
          by_contra hstatus
          simp [hc, hstatus, pure, Except.pure] at h
  · rintro ⟨c, hc, rfl, a, ha, hstatus⟩
    obtain ⟨cr, hcr, hid⟩ := hdb.caseCrime c hc
    rw [← hid] at ha ⊢
    have hinfo := (noteInfo_eq hdb hcr).trans
      (optional_map_assignments.mpr (.inr ⟨a, ha, rfl⟩))
    rw [hid, case_find hdb hc, ← hid] at hinfo
    rw [NoteService.getStateBeforeCreation, hinfo]
    simp [bind, Except.bind, hstatus, pure, Except.pure]

/-! ### Writes -/

theorem policemanIdBySeries_some_iff {id : ℤ} : policemanIdBySeries db series = .ok (some id) ↔
    ∃ p, bearers db series = [p] ∧ p.id = id := by
  rw [policemanIdBySeries, scalar, atMostOne_ok, List.map_eq_singleton_iff]
  rfl

theorem bearer_mem {p : Policeman} (hp : bearers db series = [p]) :
    p ∈ db.policeman ∧ p.series = series := by
  have hmem : p ∈ bearers db series := by
    rw [hp]
    exact List.mem_singleton_self p
  rwa [bearers, List.mem_filter, decide_eq_true_eq] at hmem

/-- With one policeman of the series, his assignments are those of the series. -/
theorem assignments_eq {p : Policeman} (hp : bearers db series = [p]) (crime : ℤ) :
    assignments db series crime =
      db.policemanCase.filter fun a => a.fkPolicemanMinor = p.id ∧ a.fkCrime = crime := by
  have hseries : ∀ id, hasSeries db series id ↔ id = p.id := by
    intro id
    rw [hasSeries_iff]
    constructor
    · rintro ⟨q, hq, rfl, hs⟩
      have hq : q ∈ bearers db series := List.mem_filter.mpr ⟨hq, decide_eq_true hs⟩
      rw [hp, List.mem_singleton] at hq
      rw [hq]
    · rintro rfl
      exact ⟨p, (bearer_mem hp).1, rfl, (bearer_mem hp).2⟩
  refine List.filter_congr fun a _ => ?_
  rw [Bool.eq_iff_iff]
  simp only [decide_eq_true_eq, hseries, and_comm]

/-- The policeman may act on the crime of a case he is assigned to once. -/
theorem mayAct_iff (hdb : Constraints db) {p : Policeman} (hp : bearers db series = [p])
    {c : CrimeCase} (hc : c ∈ db.crimeCase) {a : PolicemanCase}
    (ha : assignments db series c.fkCrime = [a]) :
    MayAct db p.id c.fkCrime ↔ a.status ≠ .REMOVED ∧ c.state = .ON_WORK := by
  rw [assignments_eq hp] at ha
  rw [MayAct, ha]
  constructor
  · rintro ⟨⟨a', ha', hstatus⟩, c', hc', hid, hstate⟩
    obtain rfl := List.inj_on_of_nodup_map hdb.crimeCase hc' hc hid
    obtain rfl := List.singleton_inj.mp ha'
    exact ⟨hstatus, hstate⟩
  · rintro ⟨hstatus, hstate⟩
    exact ⟨⟨a, rfl, hstatus⟩, c, hc, rfl, hstate⟩

theorem note_create_accepted (hdb : Constraints db) {crimeId : Option ℤ} {text : Option String} :
    (∃ db', NoteRepository.create crimeId series text db = .ok db') ↔
      ∃ p crime, bearers db series = [p] ∧ crimeId = some crime ∧ text ≠ none ∧
        (∀ n ∈ db.note, n.id ≠ db.nextNoteId) ∧ MayAct db p.id crime := by
  constructor
  · rintro ⟨db', h⟩
    obtain ⟨policeman, crime, note, hid, rfl, rfl, h⟩ := NoteRepository.create_ok h
    obtain ⟨p, hp, rfl⟩ := policemanIdBySeries_some_iff.mp hid
    obtain ⟨hnew, hact⟩ := (note_insert_accepted hdb).mp ⟨db', h⟩
    exact ⟨p, crime, hp, rfl, nofun, hnew, hact⟩
  · rintro ⟨p, crime, hp, rfl, htext, hnew, hact⟩
    obtain ⟨note, rfl⟩ := Option.ne_none_iff_exists'.mp htext
    have hid := policemanIdBySeries_some_iff.mpr ⟨p, hp, rfl⟩
    have hinsert : ∃ db', noteTable.insert ⟨db.nextNoteId, p.id, crime, note⟩
        { db with nextNoteId := db.nextNoteId + 1 } = .ok db' :=
      (note_insert_accepted hdb).mpr ⟨hnew, hact⟩
    rw [NoteRepository.create, hid]
    exact hinsert

theorem addCaseRelation_accepted (hdb : Constraints db) {crimeId personId : Option ℤ}
    {relation : PersonRelation} {note : String} :
    (∃ db', PersonRelevantToCaseRepository.addCaseRelation crimeId personId relation note series db =
      .ok db') ↔
    ∃ p crime q, bearers db series = [p] ∧ crimeId = some crime ∧
      q ∈ db.person ∧ personId = some q.id ∧
      (∀ r ∈ db.personRelevantToCase, ¬ (r.fkCrime = crime ∧ r.fkPerson = q.id)) ∧
      MayAct db p.id crime ∧ p.fkPerson ≠ q.id := by
  constructor
  · rintro ⟨db', h⟩
    obtain ⟨policeman, crime, person, hid, rfl, rfl, h⟩ :=
      PersonRelevantToCaseRepository.addCaseRelation_ok h
    obtain ⟨p, hp, rfl⟩ := policemanIdBySeries_some_iff.mp hid
    obtain ⟨hnew, ⟨q, hq, rfl⟩, hact, hself⟩ := (relevant_insert_accepted hdb).mp ⟨db', h⟩
    exact ⟨p, crime, q, hp, rfl, hq, rfl, hnew, hact, hself p (bearer_mem hp).1 rfl⟩
  · rintro ⟨p, crime, q, hp, rfl, hq, rfl, hnew, hact, hself⟩
    have hid := policemanIdBySeries_some_iff.mpr ⟨p, hp, rfl⟩
    have hinsert : ∃ db', personRelevantToCaseTable.insert ⟨crime, q.id, p.id, relation, some note⟩
        db = .ok db' := by
      refine (relevant_insert_accepted hdb).mpr ⟨hnew, ⟨q, hq, rfl⟩, hact, fun p' hp' hk => ?_⟩
      rwa [List.inj_on_of_nodup_map hdb.policeman hp' (bearer_mem hp).1 hk]
    rw [PersonRelevantToCaseRepository.addCaseRelation, hid]
    exact hinsert

/-- The update reaches the one record of the person in the case. -/
theorem updateCaseRelation_accepted (hdb : Constraints db) {r : PersonRelevantToCase}
    (hr : r ∈ db.personRelevantToCase) {p : Policeman} (hp : bearers db series = [p])
    (howner : r.fkPoliceman = p.id) {relation : PersonRelation} {note : Option String} :
    (∃ db', PersonRelevantToCaseRepository.updateCaseRelation (some r.fkCrime) (some r.fkPerson)
      relation note db = .ok db') ↔ MayAct db p.id r.fkCrime ∧ p.fkPerson ≠ r.fkPerson := by
  rw [PersonRelevantToCaseRepository.updateCaseRelation,
    relevant_update_accepted hdb (f := fun r => { r with relation := relation, note := note })
      (fun _ => rfl) (fun _ => rfl) fun _ => rfl]
  simp only [Option.some.injEq, decide_eq_true_eq]
  constructor
  · intro h
    obtain ⟨hact, hself⟩ := h r hr ⟨rfl, rfl⟩
    rw [howner] at hact
    exact ⟨hact, hself p (bearer_mem hp).1 howner.symm⟩
  · rintro ⟨hact, hself⟩ r' hr' ⟨hcrime, hperson⟩
    obtain rfl := List.inj_on_of_nodup_map hdb.personRelevantToCase hr' hr
      (Prod.ext hcrime hperson)
    rw [howner]
    refine ⟨hact, fun p' hp' hk => ?_⟩
    rwa [List.inj_on_of_nodup_map hdb.policeman hp' (bearer_mem hp).1 hk]

/-! ### Relevant persons -/

theorem relevantInfo_iff (hdb : Constraints db) {crimeId : Option ℤ} (personId : Option ℤ)
    {info : PersonRelevantToCaseRepository.InfoBeforePut} :
    PersonRelevantToCaseRepository.getInfoBeforePut db crimeId personId series = .ok (some info) ↔
      ∃ cr ∈ db.crime, some cr.id = crimeId ∧ ∃ polC self selfPerson,
        ((assignments db series cr.id = [] ∧ polC = none) ∨
          ∃ a, assignments db series cr.id = [a] ∧ polC = some a) ∧
        policemanIdBySeries db series = .ok self ∧
        scalar ((bearers db series).map (·.fkPerson)) = .ok selfPerson ∧
        info = {
          crimeCaseExists := (db.crimeCase.find? (·.fkCrime = cr.id)).isSome
          caseState := (db.crimeCase.find? (·.fkCrime = cr.id)).map (·.state)
          policemanCaseExists := polC.isSome
          onCaseStatus := polC.map (·.status)
          personExists := (personOf db personId).isSome
          hasRecord := (recordOf db cr.id personId).isSome
          isOwner := sqlEq ((recordOf db cr.id personId).map (·.fkPoliceman)) self
          isSelfRecording := sqlEq ((personOf db personId).map (·.id)) selfPerson } := by
  constructor
  · intro h
    obtain ⟨row, hrow, h⟩ := bind_ok h
    cases row with
    | none => cases h
    | some row =>
      obtain ⟨crC, polC, perCR, per⟩ := row
      obtain ⟨self, hself, h⟩ := bind_ok h
      obtain ⟨selfPerson, hperson, h⟩ := bind_ok h
      cases h
      obtain ⟨cr, hcr, rfl, -⟩ :=
        PersonRelevantToCaseRepository.mem_infoBeforePutRows (optional_mem hrow)
      rw [personRows_eq hdb hcr, optional_map_assignments] at hrow
      refine ⟨cr, hcr, rfl, polC, self, selfPerson, ?_, ofDb_ok hself, ofDb_ok hperson, ?_⟩
      · rcases hrow with ⟨hnil, heq⟩ | ⟨a, ha, heq⟩
        · cases heq
          exact .inl ⟨hnil, rfl⟩
        · cases heq
          exact .inr ⟨a, ha, rfl⟩
      · rcases hrow with ⟨-, heq⟩ | ⟨a, -, heq⟩ <;> cases heq <;> rfl
  · rintro ⟨cr, hcr, rfl, polC, self, selfPerson, hpolC, hself, hperson, rfl⟩
    have hrow : optional (PersonRelevantToCaseRepository.infoBeforePutRows db (some cr.id) personId
        series) = .ok (some (db.crimeCase.find? (·.fkCrime = cr.id), polC,
          recordOf db cr.id personId, personOf db personId)) := by
      rw [personRows_eq hdb hcr, optional_map_assignments]
      rcases hpolC with ⟨hnil, rfl⟩ | ⟨a, ha, rfl⟩
      · exact .inl ⟨hnil, rfl⟩
      · exact .inr ⟨a, ha, rfl⟩
    rw [bearers] at hperson
    rw [PersonRelevantToCaseRepository.getInfoBeforePut, hrow, hself, hperson]
    rfl

theorem exists_bearer {crime : ℤ} {a : PolicemanCase} (ha : assignments db series crime = [a])
    {self : Option ℤ} (hself : policemanIdBySeries db series = .ok self) :
    ∃ p, bearers db series = [p] ∧ self = some p.id := by
  have hmem : a ∈ assignments db series crime := by
    rw [ha]
    exact List.mem_singleton_self a
  simp only [assignments, List.mem_filter, decide_eq_true_eq, hasSeries_iff] at hmem
  obtain ⟨-, -, p, hp, -, hs⟩ := hmem
  exact ⟨p, policemanIdBySeries_mem hself hp hs⟩

/-- The check when the case is on work and exactly one policeman with the series
is assigned: the status of the assignment is not looked at. -/
theorem relevantCheck_eq (hdb : Constraints db) {c : CrimeCase} (hc : c ∈ db.crimeCase)
    (hstate : c.state = .ON_WORK) {a : PolicemanCase} (ha : assignments db series c.fkCrime = [a])
    {p : Policeman} (hp : bearers db series = [p]) (personId : Option ℤ) :
    PersonRelevantToCaseService.getStateBeforePut db (some c.fkCrime) personId series =
      match recordOf db c.fkCrime personId with
      | some r => .ok (if r.fkPoliceman = p.id then .TO_UPDATE else .NOT_OWNING_IF_UPDATE)
      | none => match personOf db personId with
        | some q => .ok (if q.id = p.fkPerson then .ABOUT_SELF else .TO_ADD)
        | none => .error .nullPointer := by
  obtain ⟨cr, hcr, hid⟩ := hdb.caseCrime c hc
  have hself := policemanIdBySeries_some_iff.mpr ⟨p, hp, rfl⟩
  have hperson : scalar ((bearers db series).map (·.fkPerson)) = .ok (some p.fkPerson) := by
    rw [hp]
    rfl
  have ha' : assignments db series cr.id = [a] := by rw [hid, ha]
  have hinfo := (relevantInfo_iff hdb personId).mpr
    ⟨cr, hcr, rfl, some a, some p.id, some p.fkPerson, .inr ⟨a, ha', rfl⟩, hself, hperson, rfl⟩
  rw [hid, case_find hdb hc] at hinfo
  rw [PersonRelevantToCaseService.getStateBeforePut, hinfo]
  cases recordOf db c.fkCrime personId with
  | some r =>
    by_cases howner : r.fkPoliceman = p.id <;>
      simp [bind, Except.bind, pure, Except.pure, hstate, sqlEq, unbox, howner]
  | none =>
    cases personOf db personId with
    | none => simp [bind, Except.bind, hstate, sqlEq, unbox]
    | some q =>
      by_cases hself : q.id = p.fkPerson <;>
        simp [bind, Except.bind, pure, Except.pure, hstate, sqlEq, unbox, hself]

/-- The check answers `TO_ADD` or `TO_UPDATE` in no other case. -/
theorem relevantCheck_assigned (hdb : Constraints db) {crimeId personId : Option ℤ}
    {s : PersonRelevantToCaseService.StateBeforePut} (hs : s = .TO_ADD ∨ s = .TO_UPDATE)
    (h : PersonRelevantToCaseService.getStateBeforePut db crimeId personId series = .ok s) :
    ∃ c ∈ db.crimeCase, some c.fkCrime = crimeId ∧ c.state = .ON_WORK ∧
      ∃ a p, assignments db series c.fkCrime = [a] ∧ bearers db series = [p] := by
  obtain ⟨info, hinfo, h⟩ := bind_ok h
  cases info with
  | none => rcases hs with rfl | rfl <;> cases h
  | some info =>
    obtain ⟨cr, hcr, rfl, polC, self, selfPerson, hpolC, hself, -, rfl⟩ :=
      (relevantInfo_iff hdb personId).mp hinfo
    cases hc : db.crimeCase.find? (·.fkCrime = cr.id) with
    | none =>
      rw [hc] at h
      rcases hs with rfl | rfl <;> cases h
    | some c =>
      have hcid : c.fkCrime = cr.id := by simpa using List.find?_some hc
      rw [hc] at h
      by_cases hstate : c.state = .ON_WORK
      · rcases hpolC with ⟨-, rfl⟩ | ⟨a, ha, rfl⟩
        · simp only [Option.map_some, hstate] at h
          rcases hs with rfl | rfl <;> cases h
        · obtain ⟨p, hp, -⟩ := exists_bearer ha hself
          exact ⟨c, List.mem_of_find?_eq_some hc, by rw [hcid], hstate, a, p, by rw [hcid, ha], hp⟩
      · simp only [Option.isSome_some, Option.map_some, ne_eq, Option.some.injEq, hstate] at h
        rcases hs with rfl | rfl <;> cases h

/-! ### Whole requests -/

/-- The check of the service answers that the request may write. -/
def PreCheckPasses (db : Db) (series : String) : Request → Prop
  | .createCrimeNote crimeId _ => NoteService.getStateBeforeCreation db series crimeId = .ok .OK
  | .putPersonToCase crimeId personId _ _ => ∃ s, (s = .TO_ADD ∨ s = .TO_UPDATE) ∧
      PersonRelevantToCaseService.getStateBeforePut db crimeId personId series = .ok s
  | _ => False

/-- A request of a minor is answered, not ended by an exception. -/
def Answered (db : Db) (series : String) (request : Request) : Prop :=
  ∃ status, (handle db ⟨series, .MINOR⟩ request).1 = .ok status

/-- The one policeman assigned may write a note: it has a text, its number is
free, the series is his alone and the case is on work. -/
def NoteFails (db : Db) (series : String) (crimeId : Option ℤ) (text : Option String) : Prop :=
  ∃ c ∈ db.crimeCase, some c.fkCrime = crimeId ∧
    ∃ a, assignments db series c.fkCrime = [a] ∧ a.status = .ASSIGNED ∧
      (c.state ≠ .ON_WORK ∨ text = none ∨ (bearers db series).length ≠ 1 ∨
        ∃ n ∈ db.note, n.id = db.nextNoteId)

/-- A person is added by a policeman who was removed from the case, or his record
of a person is updated after that, without a relation, or is about himself. -/
def RefusedRecord (db : Db) (c : CrimeCase) (a : PolicemanCase) (p : Policeman)
    (personId : Option ℤ) (relation note : Option String) : Prop :=
  match recordOf db c.fkCrime personId with
  | none => (∃ q, personOf db personId = some q ∧ q.id ≠ p.fkPerson) ∧
      (∃ name ∈ relation, convertToPersonCaseRelation name ≠ none) ∧ note ≠ none ∧
      a.status = .REMOVED
  | some r => r.fkPoliceman = p.id ∧
      (relation = none ∨ (∃ name ∈ relation, convertToPersonCaseRelation name ≠ none) ∧
        (a.status = .REMOVED ∨ r.fkPerson = p.fkPerson))

/-- Such a request on a case on work, of the one policeman assigned. -/
def RelevantFails (db : Db) (series : String) (crimeId personId : Option ℤ)
    (relation note : Option String) : Prop :=
  ∃ c ∈ db.crimeCase, some c.fkCrime = crimeId ∧ c.state = .ON_WORK ∧
    ∃ a p, assignments db series c.fkCrime = [a] ∧ bearers db series = [p] ∧
      RefusedRecord db c a p personId relation note

def Fails (db : Db) (series : String) : Request → Prop
  | .createCrimeNote crimeId text => NoteFails db series crimeId text
  | .putPersonToCase crimeId personId relation note =>
    RelevantFails db series crimeId personId relation note
  | _ => False

/-- A request that reaches its write is answered if the write is accepted. -/
theorem answered_of_write {request : Request} {w : Write} {status : HttpStatus}
    (h : check db ⟨series, .MINOR⟩ request = .ok (.write w status)) :
    Answered db series request ↔ ∃ db', w.exec db = .ok db' := by
  cases hw : w.exec db with
  | error e => simp [Answered, handle, h, hw]
  | ok db' => simp [Answered, handle, h, hw]

theorem note_answered_iff (hdb : Constraints db) (crimeId : Option ℤ) (text : Option String) :
    (PreCheckPasses db series (.createCrimeNote crimeId text) →
      Answered db series (.createCrimeNote crimeId text)) ↔
      ¬ NoteFails db series crimeId text := by
  have hwrite : NoteService.getStateBeforeCreation db series crimeId = .ok .OK →
      (Answered db series (.createCrimeNote crimeId text) ↔
        ∃ db', NoteRepository.create crimeId series text db = .ok db') := by
    intro hcheck
    have hplan : check db ⟨series, .MINOR⟩ (.createCrimeNote crimeId text) =
        .ok (.write (.createNote crimeId series text) .CREATED) := by
      simp only [check, Request.role, Option.any_some, ne_eq, not_true_eq_false, decide_false,
        Bool.false_eq_true, if_false, createCrimeNote, hcheck]
      rfl
    exact answered_of_write hplan
  constructor
  · rintro h ⟨c, hc, hid, a, ha, hstatus, hfails⟩
    have hcheck := (noteCheck_OK_iff hdb).mpr ⟨c, hc, hid, a, ha, hstatus⟩
    obtain ⟨p, crime, hp, rfl, htext, hnew, hact⟩ :=
      (note_create_accepted hdb).mp ((hwrite hcheck).mp (h hcheck))
    obtain rfl := Option.some.inj hid
    rw [mayAct_iff hdb hp hc ha] at hact
    rcases hfails with hstate | hnull | hmany | ⟨n, hn, hnid⟩
    · exact hstate hact.2
    · exact htext hnull
    · exact hmany (by rw [hp]; rfl)
    · exact hnew n hn hnid
  · intro h hcheck
    obtain ⟨c, hc, rfl, a, ha, hstatus⟩ := (noteCheck_OK_iff hdb).mp hcheck
    rw [hwrite hcheck, note_create_accepted hdb]
    by_contra hnot
    refine h ⟨c, hc, rfl, a, ha, hstatus, ?_⟩
    by_contra hok
    simp only [not_or, not_not, ne_eq, not_exists, not_and] at hok
    obtain ⟨hstate, htext, hone, hnew⟩ := hok
    obtain ⟨p, hp⟩ := List.length_eq_one_iff.mp hone
    refine hnot ⟨p, c.fkCrime, hp, rfl, htext, hnew, ?_⟩
    rw [mayAct_iff hdb hp hc ha]
    exact ⟨by rw [hstatus]; nofun, hstate⟩

theorem answered_of_respond {request : Request} {status : HttpStatus}
    (h : check db ⟨series, .MINOR⟩ request = .ok (.respond status)) :
    Answered db series request := by
  simp [Answered, handle, h]

section PutPerson

variable {crimeId personId : Option ℤ}

theorem check_putPersonToCase (relation note : Option String) :
    check db ⟨series, .MINOR⟩ (.putPersonToCase crimeId personId relation note) =
      putPersonToCase db series crimeId personId relation note := by
  simp [check, Request.role]

theorem answered_unknown_relation {name : String} (h : convertToPersonCaseRelation name = none)
    (note : Option String) :
    Answered db series (.putPersonToCase crimeId personId (some name) note) := by
  have hcheck : check db ⟨series, .MINOR⟩ (.putPersonToCase crimeId personId (some name) note) =
      .ok (.respond .BAD_REQUEST) := by
    rw [check_putPersonToCase, putPersonToCase, Option.map_some, h]
    rfl
  exact answered_of_respond hcheck

/-- A request to add is refused without a relation or a note, and otherwise
answered if the database accepts the row. -/
theorem answered_TO_ADD (relation note : Option String)
    (h : PersonRelevantToCaseService.getStateBeforePut db crimeId personId series = .ok .TO_ADD) :
    Answered db series (.putPersonToCase crimeId personId relation note) ↔
      ∀ name ∈ relation, ∀ r, convertToPersonCaseRelation name = some r → ∀ text ∈ note,
        ∃ db', PersonRelevantToCaseRepository.addCaseRelation crimeId personId r text series db =
          .ok db' := by
  have hcheck : check db ⟨series, .MINOR⟩ (.putPersonToCase crimeId personId relation note) = _ :=
    check_putPersonToCase relation note
  cases relation with
  | none =>
    simp only [putPersonToCase, h] at hcheck
    simp [answered_of_respond hcheck]
  | some name =>
    cases hr : convertToPersonCaseRelation name with
    | none => simp [answered_unknown_relation hr, hr]
    | some r =>
      simp only [putPersonToCase, Option.map_some, hr, h] at hcheck
      cases note with
      | none => simp [answered_of_respond hcheck]
      | some text =>
        rw [answered_of_write hcheck]
        simp [Write.exec, hr]

/-- A request to update ends with an exception without a relation, and otherwise
is answered if the database accepts the update. -/
theorem answered_TO_UPDATE (relation note : Option String)
    (h : PersonRelevantToCaseService.getStateBeforePut db crimeId personId series =
      .ok .TO_UPDATE) :
    Answered db series (.putPersonToCase crimeId personId relation note) ↔
      ∃ name ∈ relation, ∀ r, convertToPersonCaseRelation name = some r →
        ∃ db', PersonRelevantToCaseRepository.updateCaseRelation crimeId personId r note db =
          .ok db' := by
  have hcheck : check db ⟨series, .MINOR⟩ (.putPersonToCase crimeId personId relation note) = _ :=
    check_putPersonToCase relation note
  cases relation with
  | none =>
    simp only [putPersonToCase, h] at hcheck
    have herror : check db ⟨series, .MINOR⟩ (.putPersonToCase crimeId personId none note) =
      .error .nullPointer := hcheck
    simp [Answered, handle, herror]
  | some name =>
    cases hr : convertToPersonCaseRelation name with
    | none => simp [answered_unknown_relation hr, hr]
    | some r =>
      simp only [putPersonToCase, Option.map_some, hr, h] at hcheck
      rw [answered_of_write hcheck]
      simp [Write.exec, hr]

end PutPerson

section Assigned

variable {c : CrimeCase} {a : PolicemanCase} {p : Policeman} {personId : Option ℤ}

/-- The trigger refuses a new record of a policeman who was removed from the case. -/
theorem addCaseRelation_accepted_iff (hdb : Constraints db) (hc : c ∈ db.crimeCase)
    (hstate : c.state = .ON_WORK) (ha : assignments db series c.fkCrime = [a])
    (hp : bearers db series = [p]) (hr : recordOf db c.fkCrime personId = none) {q : Person}
    (hq : personOf db personId = some q) (hne : q.id ≠ p.fkPerson) {relation : PersonRelation}
    {note : String} :
    (∃ db', PersonRelevantToCaseRepository.addCaseRelation (some c.fkCrime) personId relation note
      series db = .ok db') ↔ a.status ≠ .REMOVED := by
  have hqid : some q.id = personId := by simpa using List.find?_some hq
  rw [addCaseRelation_accepted hdb]
  constructor
  · rintro ⟨p', crime, -, hp', hid, -, -, -, hact, -⟩
    cases hid
    rw [mayAct_iff hdb hp' hc ha] at hact
    exact hact.1
  · intro hstatus
    refine ⟨p, c.fkCrime, q, hp, rfl, List.mem_of_find?_eq_some hq, hqid.symm, ?_,
      (mayAct_iff hdb hp hc ha).mpr ⟨hstatus, hstate⟩, hne.symm⟩
    rintro r hmem ⟨hcrime, hperson⟩
    have hnone := List.find?_eq_none.mp hr r hmem
    simp [hcrime, hperson, hqid] at hnone

/-- It refuses an update by him too, and one of a record about the policeman himself. -/
theorem updateCaseRelation_accepted_iff (hdb : Constraints db) (hc : c ∈ db.crimeCase)
    (hstate : c.state = .ON_WORK) (ha : assignments db series c.fkCrime = [a])
    (hp : bearers db series = [p]) {r : PersonRelevantToCase}
    (hr : recordOf db c.fkCrime personId = some r) (howner : r.fkPoliceman = p.id)
    {relation : PersonRelation} {note : Option String} :
    (∃ db', PersonRelevantToCaseRepository.updateCaseRelation (some c.fkCrime) personId relation note
      db = .ok db') ↔ ¬ (a.status = .REMOVED ∨ r.fkPerson = p.fkPerson) := by
  have hkey : r.fkCrime = c.fkCrime ∧ some r.fkPerson = personId := by
    simpa using List.find?_some hr
  rw [← hkey.2, ← hkey.1, updateCaseRelation_accepted hdb (List.mem_of_find?_eq_some hr) hp howner,
    hkey.1, mayAct_iff hdb hp hc ha, not_or]
  simp only [hstate, and_true, ne_eq, eq_comm]

/-- With one assignment and one policeman of the series, on a case on work. -/
theorem relevant_answered_of_assigned (hdb : Constraints db) (hc : c ∈ db.crimeCase)
    (hstate : c.state = .ON_WORK) (ha : assignments db series c.fkCrime = [a])
    (hp : bearers db series = [p]) (relation note : Option String) :
    (PreCheckPasses db series (.putPersonToCase (some c.fkCrime) personId relation note) →
      Answered db series (.putPersonToCase (some c.fkCrime) personId relation note)) ↔
    ¬ RefusedRecord db c a p personId relation note := by
  have hcheck := relevantCheck_eq hdb hc hstate ha hp personId
  unfold RefusedRecord
  cases hr : recordOf db c.fkCrime personId with
  | none =>
    cases hq : personOf db personId with
    | none =>
      simp only [hr, hq] at hcheck
      simp [PreCheckPasses, hcheck]
    | some q =>
      by_cases hne : q.id = p.fkPerson
      · simp only [hr, hq, hne, if_true] at hcheck
        simp [PreCheckPasses, hcheck, hne]
      · simp only [hr, hq, hne, if_false] at hcheck
        have hpass : PreCheckPasses db series
            (.putPersonToCase (some c.fkCrime) personId relation note) :=
          ⟨.TO_ADD, .inl rfl, hcheck⟩
        simp only [hpass, true_imp_iff, answered_TO_ADD relation note hcheck,
          addCaseRelation_accepted_iff hdb hc hstate ha hp hr hq hne]
        cases relation with
        | none => simp
        | some name =>
          cases note with
          | none => simp
          | some text => cases hrel : convertToPersonCaseRelation name <;> simp [hne, hrel]
  | some r =>
    by_cases howner : r.fkPoliceman = p.id
    · simp only [hr, howner, if_true] at hcheck
      have hpass : PreCheckPasses db series
          (.putPersonToCase (some c.fkCrime) personId relation note) :=
        ⟨.TO_UPDATE, .inr rfl, hcheck⟩
      simp only [hpass, true_imp_iff, answered_TO_UPDATE relation note hcheck,
        updateCaseRelation_accepted_iff hdb hc hstate ha hp hr howner]
      cases relation with
      | none => simp [howner]
      | some name => cases hrel : convertToPersonCaseRelation name <;> simp [howner, hrel]
    · simp only [hr, howner, if_false] at hcheck
      simp [PreCheckPasses, hcheck, howner]

end Assigned

theorem relevant_answered_iff (hdb : Constraints db) (crimeId personId : Option ℤ)
    (relation note : Option String) :
    (PreCheckPasses db series (.putPersonToCase crimeId personId relation note) →
      Answered db series (.putPersonToCase crimeId personId relation note)) ↔
      ¬ RelevantFails db series crimeId personId relation note := by
  constructor
  · rintro h ⟨c, hc, rfl, hstate, a, p, ha, hp, hrefused⟩
    exact (relevant_answered_of_assigned hdb hc hstate ha hp relation note).mp h hrefused
  · intro h hpass
    obtain ⟨s, hs, hcheck⟩ := hpass
    obtain ⟨c, hc, rfl, hstate, a, p, ha, hp⟩ := relevantCheck_assigned hdb hs hcheck
    refine (relevant_answered_of_assigned hdb hc hstate ha hp relation note).mpr ?_ ⟨s, hs, hcheck⟩
    intro hrefused
    exact h ⟨c, hc, rfl, hstate, a, p, ha, hp, hrefused⟩

/-- A note or relevant-person request whose check passes is answered, unless it
is one of those that reach a write the database refuses. -/
theorem passed_requests_answered_iff (hdb : Constraints db) (series : String) (request : Request) :
    (PreCheckPasses db series request → Answered db series request) ↔ ¬ Fails db series request := by
  cases request with
  | createCrimeNote crimeId text => exact note_answered_iff hdb crimeId text
  | putPersonToCase crimeId personId relation note =>
    exact relevant_answered_iff hdb crimeId personId relation note
  | createCrimeCase crimeId => exact iff_of_true nofun not_false
  | updateCrimeCaseState crimeId stateName => exact iff_of_true nofun not_false
  | policemanOnCasePut crimeId policemanId onCaseStatus => exact iff_of_true nofun not_false
  | get => exact iff_of_true nofun not_false

/-- A frozen case with one minor assigned. -/
def frozenDb : Db where
  precinct := [⟨1⟩]
  person := [⟨1, some "Jean"⟩, ⟨2, some "Kim"⟩, ⟨3, some "Klaasje"⟩]
  policeman := [⟨1, .MAJOR, "A1", 1, 1⟩, ⟨2, .MINOR, "A2", 2, 1⟩]
  district := [⟨1, "Martinaise"⟩]
  precinctDistrict := [⟨1, 1⟩]
  crime := [⟨1, some 1⟩]
  crimeCase := [⟨1, .FREEZE, 1⟩]
  policemanCase := [⟨some 1, 2, 1, .ASSIGNED⟩]
  note := []
  personRelevantToCase := []
  nextNoteId := 1

theorem frozenDb_constraints : Constraints frozenDb := by
  constructor <;> decide

theorem passed_requests_answered_without_text :
    ¬ (PreCheckPasses frozenDb "A2" (.createCrimeNote (some 1) none) →
      Answered frozenDb "A2" (.createCrimeNote (some 1) none)) := by
  rw [passed_requests_answered_iff frozenDb_constraints, not_not]
  exact ⟨⟨1, .FREEZE, 1⟩, by decide, rfl, ⟨some 1, 2, 1, .ASSIGNED⟩, by decide, rfl, .inr (.inl rfl)⟩

/-- A note about the frozen case passes the check and ends with an exception. -/
theorem note_on_frozen_case : Constraints frozenDb ∧
    ¬ (PreCheckPasses frozenDb "A2" (.createCrimeNote (some 1) (some "met a suspect")) →
      Answered frozenDb "A2" (.createCrimeNote (some 1) (some "met a suspect"))) := by
  have hcheck : NoteService.getStateBeforeCreation frozenDb "A2" (some 1) = .ok .OK := by decide
  have hend : (handle frozenDb ⟨"A2", .MINOR⟩ (.createCrimeNote (some 1) (some "met a suspect"))).1 =
      .error (.database (.raised "Policeman can not make this action because case is FREEZEsd")) := by
    decide
  refine ⟨frozenDb_constraints, fun h => ?_⟩
  obtain ⟨status, hstatus⟩ := h hcheck
  rw [hend] at hstatus
  cases hstatus

end Itmo.Police
