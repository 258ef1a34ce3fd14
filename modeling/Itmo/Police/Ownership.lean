import Itmo.Police.Controllers

/-! Only the owner changes a record. None of the updating statements mentions an
owner: what ties a write to the policeman who sent it is the check before it,
read together with the keys that make the checked row the only one the statement
can reach. -/

namespace Itmo.Police

open Lib

/-- The keys declared by the schema, and at most one assignment per crime and
minor, which the schema does not declare. -/
structure UniqueKeys (db : Db) : Prop where
  crimeCase : (db.crimeCase.map (·.fkCrime)).Nodup
  policemanCase : (db.policemanCase.map fun r => (r.fkCrime, r.fkPolicemanMinor)).Nodup
  personRelevantToCase : (db.personRelevantToCase.map fun r => (r.fkCrime, r.fkPerson)).Nodup

/-- What the check of a write established about the rows the write is for. -/
def Write.Allowed (db : Db) (series : String) : Write → Prop
  | .updateState crimeId _ =>
    ∃ r ∈ db.crimeCase, r.fkCrime = crimeId ∧ hasSeries db series r.fkPolicemanMajor
  | .addOnCase crimeId slaveId _ _ =>
    ∀ r ∈ db.policemanCase, ¬ (some r.fkCrime = crimeId ∧ some r.fkPolicemanMinor = slaveId)
  | .updateOnCase crimeId slaveId _ =>
    ∃ r ∈ db.policemanCase, some r.fkCrime = crimeId ∧ some r.fkPolicemanMinor = slaveId ∧
      r.fkPolicemanMajor.any (hasSeries db series)
  | .updateCaseRelation crimeId personId _ _ =>
    ∃ r ∈ db.personRelevantToCase, some r.fkCrime = crimeId ∧ some r.fkPerson = personId ∧
      hasSeries db series r.fkPoliceman
  | .createCrimeCase _ _ | .createNote _ _ _ | .addCaseRelation _ _ _ _ _ => True

/-! ### What the checks establish -/

theorem getStateBeforeUpdate_OK {db : Db} {crimeId : ℤ} {series : String}
    (h : CrimeCaseService.getStateBeforeUpdate db crimeId series = .ok .OK) :
    ∃ r ∈ db.crimeCase, r.fkCrime = crimeId ∧ hasSeries db series r.fkPolicemanMajor := by
  obtain ⟨info, hinfo, h⟩ := bind_ok h
  cases info with
  | none => cases h
  | some info =>
    obtain ⟨r, hr, p, hp, hcrime, hmajor, rfl⟩ :=
      CrimeCaseRepository.getInfoBeforeStateUpdate_some hinfo
    have hs : p.series = series := by
      by_contra hne
      simp [hne, pure, Except.pure] at h
    exact ⟨r, hr, hcrime, hasSeries_iff.mpr ⟨p, hp, hmajor, hs⟩⟩

theorem getStateBeforePut_TO_ADD {db : Db} {crimeId slaveId : Option ℤ} {series : String}
    (h : PolicemanCaseService.getStateBeforePut db crimeId slaveId series = .ok .TO_ADD) :
    ∀ r ∈ db.policemanCase, ¬ (some r.fkCrime = crimeId ∧ some r.fkPolicemanMinor = slaveId) := by
  obtain ⟨info, hinfo, h⟩ := bind_ok h
  cases info with
  | none => cases h
  | some info =>
    obtain ⟨crC, polC, pol, owner, hmem, -, rfl⟩ :=
      PolicemanCaseRepository.getInfoBeforePut_some hinfo
    obtain ⟨cr, -, hid, -, hpolC, -⟩ := PolicemanCaseRepository.mem_infoBeforePutRows hmem
    cases polC with
    | none =>
      intro r hr ⟨hcrime, hminor⟩
      rw [← hid, Option.some.injEq] at hcrime
      exact none_mem_leftJoin hpolC r hr (by simp [hcrime, hminor])
    | some polC =>
      simp only [Option.isSome_some, if_true] at h
      split_ifs at h <;> cases h

theorem getStateBeforePut_TO_UPDATE {db : Db} {crimeId slaveId : Option ℤ} {series : String}
    (h : PolicemanCaseService.getStateBeforePut db crimeId slaveId series = .ok .TO_UPDATE) :
    ∃ r ∈ db.policemanCase, some r.fkCrime = crimeId ∧ some r.fkPolicemanMinor = slaveId ∧
      r.fkPolicemanMajor.any (hasSeries db series) := by
  obtain ⟨info, hinfo, h⟩ := bind_ok h
  cases info with
  | none => cases h
  | some info =>
    obtain ⟨crC, polC, pol, owner, hmem, howner, rfl⟩ :=
      PolicemanCaseRepository.getInfoBeforePut_some hinfo
    obtain ⟨cr, -, hid, -, hpolC, -⟩ := PolicemanCaseRepository.mem_infoBeforePutRows hmem
    cases polC with
    | none =>
      simp only [Option.isSome_none, Bool.false_eq_true, if_false] at h
      split_ifs at h <;> cases h
    | some r =>
      obtain ⟨hr, hkey⟩ := some_mem_leftJoin hpolC
      simp only [Bool.decide_and, Bool.and_eq_true, decide_eq_true_eq] at hkey
      have hs : some series = owner := by
        by_contra hne
        simp only [Option.isSome_some, if_true, ne_eq, hne, not_false_eq_true] at h
        split_ifs at h <;> cases h
      obtain ⟨major, hmajor, hseries⟩ :=
        PolicemanCaseRepository.ownerSeries_some (howner.trans (by rw [← hs]))
      simp only [Option.bind_some] at hmajor
      exact ⟨r, hr, by rw [hkey.1, hid], hkey.2, by rw [hmajor]; exact hseries⟩

theorem getStateBeforePut_person_TO_UPDATE {db : Db} {crimeId personId : Option ℤ}
    {series : String}
    (h : PersonRelevantToCaseService.getStateBeforePut db crimeId personId series =
      .ok .TO_UPDATE) :
    ∃ r ∈ db.personRelevantToCase, some r.fkCrime = crimeId ∧ some r.fkPerson = personId ∧
      hasSeries db series r.fkPoliceman := by
  obtain ⟨info, hinfo, h⟩ := bind_ok h
  cases info with
  | none => cases h
  | some info =>
    obtain ⟨crC, polC, perCR, per, self, selfPerson, hmem, hself, -, rfl⟩ :=
      PersonRelevantToCaseRepository.getInfoBeforePut_some hinfo
    obtain ⟨cr, -, hid, -, hperCR, -⟩ := PersonRelevantToCaseRepository.mem_infoBeforePutRows hmem
    cases perCR with
    | none =>
      simp only [Option.isSome_none, Bool.false_eq_true, if_false] at h
      split_ifs at h
      all_goals try cases h
      obtain ⟨b, -, h⟩ := bind_ok h
      cases b <;> cases h
    | some r =>
      obtain ⟨hr, hkey⟩ := some_mem_leftJoin hperCR
      simp only [Bool.decide_and, Bool.and_eq_true, decide_eq_true_eq] at hkey
      have hself : self = some r.fkPoliceman := by
        simp only [Option.isSome_some, if_true, Option.map_some] at h
        split_ifs at h
        all_goals try cases h
        obtain ⟨b, hb, h⟩ := bind_ok h
        cases b with
        | false => cases h
        | true =>
          cases self with
          | none => cases hb
          | some self =>
            simp only [sqlEq, Option.bind_some, Option.map_some, unbox, Except.ok.injEq,
              decide_eq_true_eq] at hb
            rw [hb]
      subst hself
      exact ⟨r, hr, by rw [hkey.1, hid], hkey.2, policemanIdBySeries_some ‹_›⟩

/-- Every write a check plans is one it has established the owner for. -/
theorem check_allowed {db : Db} {session : Session} {request : Request} {w : Write}
    {status : HttpStatus} (h : check db session request = .ok (.write w status)) :
    w.Allowed db session.series := by
  unfold check at h
  split_ifs at h
  · cases h
  cases request with
  | createCrimeCase crimeId =>
    obtain ⟨state, -, h⟩ := bind_ok h
    cases state <;> cases h
    trivial
  | updateCrimeCaseState crimeId stateName =>
    simp only [updateCrimeCaseState] at h
    split at h
    · cases h
    · obtain ⟨state, hstate, h⟩ := bind_ok h
      cases state <;> cases h
      exact getStateBeforeUpdate_OK hstate
  | policemanOnCasePut crimeId policemanId onCaseStatus =>
    simp only [policemanOnCasePut] at h
    split at h
    · cases h
    · obtain ⟨state, hstate, h⟩ := bind_ok h
      cases state <;> cases h
      · exact getStateBeforePut_TO_ADD hstate
      · exact getStateBeforePut_TO_UPDATE hstate
  | createCrimeNote crimeId text =>
    obtain ⟨state, -, h⟩ := bind_ok h
    cases state <;> cases h
    trivial
  | putPersonToCase crimeId personId relation note =>
    simp only [putPersonToCase] at h
    split at h
    · cases h
    · obtain ⟨state, hstate, h⟩ := bind_ok h
      cases state <;> try cases h
      · simp only at h
        split at h <;> cases h
        trivial
      · simp only at h
        split at h <;> cases h
        exact getStateBeforePut_person_TO_UPDATE hstate
  | get => cases h

/-! ### What the writes do -/

/-- Between two states of the database no owner changes, and what a record says
changes only if its owner is the policeman with this series. -/
structure OwnerOnly (series : String) (db db' : Db) : Prop where
  crimeCase : OwnedChange (·.fkCrime) (·.fkPolicemanMajor) (·.state) (hasSeries db series ·)
    db.crimeCase db'.crimeCase
  policemanCase : OwnedChange (fun r => (r.fkCrime, r.fkPolicemanMinor)) (·.fkPolicemanMajor)
    (·.status) (·.any (hasSeries db series)) db.policemanCase db'.policemanCase
  personRelevantToCase : OwnedChange (fun r => (r.fkCrime, r.fkPerson)) (·.fkPoliceman)
    (fun r => (r.relation, r.note)) (hasSeries db series ·)
    db.personRelevantToCase db'.personRelevantToCase

variable {series : String} {db db' : Db}

/-- A state in which the three tables are the same. -/
theorem ownerOnly_of_eq (hk : UniqueKeys db) (h₁ : db'.crimeCase = db.crimeCase)
    (h₂ : db'.policemanCase = db.policemanCase)
    (h₃ : db'.personRelevantToCase = db.personRelevantToCase) :
    OwnerOnly series db db' ∧ UniqueKeys db' := by
  constructor
  · constructor
    · rw [h₁]; exact ownedChange_refl hk.crimeCase
    · rw [h₂]; exact ownedChange_refl hk.policemanCase
    · rw [h₃]; exact ownedChange_refl hk.personRelevantToCase
  · constructor
    · rw [h₁]; exact hk.crimeCase
    · rw [h₂]; exact hk.policemanCase
    · rw [h₃]; exact hk.personRelevantToCase

theorem crimeCase_insert_ownerOnly {row : CrimeCase} (hk : UniqueKeys db)
    (h : crimeCaseTable.insert row db = .ok db') :
    OwnerOnly series db db' ∧ UniqueKeys db' := by
  obtain ⟨rfl, hu, -⟩ := Table.insert_ok crimeCaseTable h
  have hn := noDuplicates_ok hu
  exact ⟨⟨ownedChange_append hn, ownedChange_refl hk.policemanCase,
    ownedChange_refl hk.personRelevantToCase⟩, hn, hk.policemanCase, hk.personRelevantToCase⟩

theorem updateState_ownerOnly {crimeId : ℤ} {state : CaseState} (hk : UniqueKeys db)
    (ha : (Write.updateState crimeId state).Allowed db series)
    (h : CrimeCaseRepository.updateState crimeId state db = .ok db') :
    OwnerOnly series db db' ∧ UniqueKeys db' := by
  obtain ⟨rfl, -⟩ := Table.update_ok crimeCaseTable h
  obtain ⟨r, hr, hcrime, hs⟩ := ha
  constructor
  · refine ⟨ownedChange_updated hk.crimeCase (fun _ => rfl) (fun _ => rfl) hr ?_ hs,
      ownedChange_refl hk.policemanCase, ownedChange_refl hk.personRelevantToCase⟩
    intro x hp
    rw [hcrime]
    simpa using hp
  · refine ⟨?_, hk.policemanCase, hk.personRelevantToCase⟩
    apply Table.nodup_map_updated hk.crimeCase
    intro x
    rfl

/-- The check found no assignment with this crime and minor, so the inserted one
is the first. -/
theorem addOnCase_ownerOnly {crimeId slaveId : Option ℤ} {status : PolicemanCaseStatus}
    {s : String} (hk : UniqueKeys db)
    (ha : (Write.addOnCase crimeId slaveId status s).Allowed db series)
    (h : PolicemanCaseRepository.addOnCase crimeId slaveId status s db = .ok db') :
    OwnerOnly series db db' ∧ UniqueKeys db' := by
  obtain ⟨major, crime, minor, -, rfl, rfl, hi⟩ := PolicemanCaseRepository.addOnCase_ok h
  obtain ⟨rfl, -⟩ := Table.insert_ok policemanCaseTable hi
  let row : PolicemanCase := ⟨major, minor, crime, status⟩
  have hn : ((db.policemanCase ++ [row]).map fun r => (r.fkCrime, r.fkPolicemanMinor)).Nodup := by
    rw [List.map_append, List.nodup_append]
    refine ⟨hk.policemanCase, by simp, ?_⟩
    intro x hx y hy
    obtain ⟨r, hr, rfl⟩ := List.mem_map.mp hx
    rw [List.map_singleton, List.mem_singleton] at hy
    rintro rfl
    rw [Prod.mk.injEq] at hy
    exact ha r hr ⟨by rw [hy.1], by rw [hy.2]⟩
  exact ⟨⟨ownedChange_refl hk.crimeCase, ownedChange_append hn,
    ownedChange_refl hk.personRelevantToCase⟩, hk.crimeCase, hn, hk.personRelevantToCase⟩

theorem updateOnCase_ownerOnly {crimeId slaveId : Option ℤ} {status : PolicemanCaseStatus}
    (hk : UniqueKeys db) (ha : (Write.updateOnCase crimeId slaveId status).Allowed db series)
    (h : PolicemanCaseRepository.update crimeId slaveId status db = .ok db') :
    OwnerOnly series db db' ∧ UniqueKeys db' := by
  obtain ⟨rfl, -⟩ := Table.update_ok policemanCaseTable h
  obtain ⟨r, hr, rfl, rfl, hs⟩ := ha
  constructor
  · refine ⟨ownedChange_refl hk.crimeCase,
      ownedChange_updated hk.policemanCase (fun _ => rfl) (fun _ => rfl) hr ?_ hs,
      ownedChange_refl hk.personRelevantToCase⟩
    intro x hp
    simp only [Option.some.injEq, Bool.decide_and, Bool.and_eq_true, decide_eq_true_eq] at hp
    rw [hp.1, hp.2]
  · refine ⟨hk.crimeCase, ?_, hk.personRelevantToCase⟩
    apply Table.nodup_map_updated hk.policemanCase
    intro x
    rfl

theorem addCaseRelation_ownerOnly {row : PersonRelevantToCase} (hk : UniqueKeys db)
    (h : personRelevantToCaseTable.insert row db = .ok db') :
    OwnerOnly series db db' ∧ UniqueKeys db' := by
  obtain ⟨rfl, hu, -⟩ := Table.insert_ok personRelevantToCaseTable h
  have hn := noDuplicates_ok hu
  exact ⟨⟨ownedChange_refl hk.crimeCase, ownedChange_refl hk.policemanCase,
    ownedChange_append hn⟩, hk.crimeCase, hk.policemanCase, hn⟩

theorem updateCaseRelation_ownerOnly {crimeId personId : Option ℤ} {relation : PersonRelation}
    {note : Option String} (hk : UniqueKeys db)
    (ha : (Write.updateCaseRelation crimeId personId relation note).Allowed db series)
    (h : PersonRelevantToCaseRepository.updateCaseRelation crimeId personId relation note db =
      .ok db') : OwnerOnly series db db' ∧ UniqueKeys db' := by
  obtain ⟨rfl, -⟩ := Table.update_ok personRelevantToCaseTable h
  obtain ⟨r, hr, rfl, rfl, hs⟩ := ha
  constructor
  · refine ⟨ownedChange_refl hk.crimeCase, ownedChange_refl hk.policemanCase,
      ownedChange_updated hk.personRelevantToCase (fun _ => rfl) (fun _ => rfl) hr ?_ hs⟩
    intro x hp
    simp only [Option.some.injEq, Bool.decide_and, Bool.and_eq_true, decide_eq_true_eq] at hp
    rw [hp.1, hp.2]
  · refine ⟨hk.crimeCase, hk.policemanCase, ?_⟩
    apply Table.nodup_map_updated hk.personRelevantToCase
    intro x
    rfl

/-- A write that its check allowed. -/
theorem Write.exec_ownerOnly {w : Write} (hk : UniqueKeys db) (ha : w.Allowed db series)
    (h : w.exec db = .ok db') : OwnerOnly series db db' ∧ UniqueKeys db' := by
  cases w with
  | createCrimeCase crimeId s =>
    obtain ⟨_, _, _, _, h⟩ := CrimeCaseRepository.create_ok h
    exact crimeCase_insert_ownerOnly hk h
  | updateState crimeId state => exact updateState_ownerOnly hk ha h
  | addOnCase crimeId slaveId status s => exact addOnCase_ownerOnly hk ha h
  | updateOnCase crimeId slaveId status => exact updateOnCase_ownerOnly hk ha h
  | createNote crimeId s text =>
    obtain ⟨_, _, _, _, _, _, h⟩ := NoteRepository.create_ok h
    obtain ⟨rfl, -⟩ := Table.insert_ok noteTable h
    exact ownerOnly_of_eq hk rfl rfl rfl
  | addCaseRelation crimeId personId relation note s =>
    obtain ⟨_, _, _, _, _, _, h⟩ := PersonRelevantToCaseRepository.addCaseRelation_ok h
    exact addCaseRelation_ownerOnly hk h
  | updateCaseRelation crimeId personId relation note =>
    exact updateCaseRelation_ownerOnly hk ha h

/-- One authenticated request. -/
theorem step_ownerOnly (hk : UniqueKeys db) (e : Session × Request) :
    OwnerOnly e.1.series db (step db e) ∧ UniqueKeys (step db e) := by
  obtain h | ⟨w, status, hcheck, hexec⟩ := step_cases db e
  · rw [h]
    exact ownerOnly_of_eq hk rfl rfl rfl
  · exact Write.exec_ownerOnly hk (check_allowed hcheck) hexec

/-- In every sequence of requests, each request changes only records of the
policeman who sent it, and no record changes its owner. -/
theorem only_owner_changes (db : Db) (hk : UniqueKeys db) (es : List (Session × Request)) :
    Along step (fun db e => OwnerOnly e.1.series db (step db e)) db es ∧
      UniqueKeys (run step db es) :=
  ⟨along_of_invariant UniqueKeys (fun _ e h => (step_ownerOnly h e).2)
    (fun _ e h => (step_ownerOnly h e).1) hk es,
   run_invariant UniqueKeys (fun _ e h => (step_ownerOnly h e).2) hk es⟩

/-- A case on work, the major who owns it, another major, and a minor. -/
def assignedCase : Db where
  precinct := [⟨41⟩, ⟨57⟩]
  person := [⟨7, some "Ptolemaios Pryce"⟩, ⟨8, some "Nix Gottlieb"⟩, ⟨9, some "Judit Minot"⟩]
  policeman := [⟨1, .MAJOR, "PTO41", 7, 41⟩, ⟨2, .MAJOR, "NIX57", 8, 57⟩,
    ⟨3, .MINOR, "JUD41", 9, 41⟩]
  district := [⟨1, "Martinaise"⟩]
  precinctDistrict := [⟨1, 41⟩, ⟨1, 57⟩]
  crime := [⟨1, some 1⟩]
  crimeCase := [⟨1, .ON_WORK, 1⟩]
  policemanCase := [⟨some 1, 3, 1, .ASSIGNED⟩]
  note := []
  personRelevantToCase := [⟨1, 8, 3, .WITNESS, none⟩]
  nextNoteId := 1

/-- The other major changes nothing; the minor rewrites his own record and the
owner freezes the case. -/
theorem only_owner_changes_assigned :
    let other : Session := ⟨"NIX57", .MAJOR⟩
    let owner : Session := ⟨"PTO41", .MAJOR⟩
    let minor : Session := ⟨"JUD41", .MINOR⟩
    let requests : List (Session × Request) :=
      [(other, .updateCrimeCaseState 1 "close"),
        (other, .policemanOnCasePut (some 1) (some 3) (some "removed")),
        (minor, .putPersonToCase (some 1) (some 8) (some "suspect") none),
        (owner, .updateCrimeCaseState 1 "freeze")]
    (run step assignedCase requests).crimeCase = [⟨1, .FREEZE, 1⟩] ∧
      (run step assignedCase requests).policemanCase = [⟨some 1, 3, 1, .ASSIGNED⟩] ∧
      (run step assignedCase requests).personRelevantToCase = [⟨1, 8, 3, .SUSPECT, none⟩] ∧
      UniqueKeys (run step assignedCase requests) := by
  refine ⟨by decide, by decide, by decide, ?_⟩
  exact (only_owner_changes assignedCase ⟨by decide, by decide, by decide⟩ _).2

end Itmo.Police
