import Itmo.Police.Constraints
import Itmo.Police.Controllers

/-! Opening a case: the rule that a case is opened by a major of a precinct of
the crime's district is written twice, in the service over two queries and in
the triggers. The two agree except on a crime without a district, which the
service refuses and the comparison with a null lets through. -/

namespace Itmo.Police

open Lib

/-- No two policemen have the same series. -/
def UniqueSeries (db : Db) : Prop := (db.policeman.map (·.series)).Nodup

instance (db : Db) : Decidable (UniqueSeries db) :=
  inferInstanceAs (Decidable (db.policeman.map (·.series)).Nodup)

/-- The precinct of the policeman is attached to the district. -/
def WorksIn (db : Db) (p : Policeman) (district : ℤ) : Prop :=
  ∃ r ∈ db.precinctDistrict, r.fkPrecinct = p.fkPrecinct ∧ r.fkDistrict = district

/-- The crime has no case yet. -/
def Unopened (db : Db) (crime : ℤ) : Prop := ∀ c ∈ db.crimeCase, c.fkCrime ≠ crime

/-- A crime without a case and without a district, for a policeman whose precinct
has a district. -/
def Unlocated (db : Db) (p : Policeman) (crimeId : Option ℤ) : Prop :=
  ∃ cr ∈ db.crime, some cr.id = crimeId ∧ Unopened db cr.id ∧ cr.fkDistrict = none ∧
    ∃ d, WorksIn db p d

variable {db : Db} {p : Policeman}

/-! ### Queries by series -/

theorem policemanIdBySeries_eq (hs : UniqueSeries db) (hp : p ∈ db.policeman) :
    policemanIdBySeries db p.series = .ok (some p.id) := by
  rw [policemanIdBySeries, filter_key_eq hs hp]
  rfl

theorem mem_getDistrictIds (hdb : Constraints db) (hs : UniqueSeries db) (hp : p ∈ db.policeman)
    {d : ℤ} : d ∈ getDistrictIds db p.series ↔ WorksIn db p d := by
  rw [getDistrictIds, filter_key_eq hs hp]
  simp only [List.flatMap_singleton, List.mem_flatMap, List.mem_filter, List.mem_map,
    decide_eq_true_eq]
  constructor
  · rintro ⟨pr, ⟨-, hpr⟩, r, ⟨hr, hpd⟩, di, ⟨-, hdi⟩, rfl⟩
    exact ⟨r, hr, hpd.trans hpr, hdi.symm⟩
  · rintro ⟨r, hr, hpd, rfl⟩
    obtain ⟨pr, hpr, hnumber⟩ := hdb.policemanPrecinct p hp
    obtain ⟨di, hdi, hid⟩ := hdb.precinctDistrictDistrict r hr
    exact ⟨pr, ⟨hpr, hnumber⟩, r, ⟨hr, hpd.trans hnumber.symm⟩, di, ⟨hdi, hid⟩, hid⟩

/-! ### The check and the insert -/

theorem getInfoBeforeCreation_eq_none {crimeId : Option ℤ}
    (h : ∀ cr ∈ db.crime, some cr.id ≠ crimeId) :
    CrimeCaseRepository.getInfoBeforeCreation db crimeId = .ok none := by
  have hnil : (db.crime.filter (some ·.id = crimeId)) = [] := by
    simpa [List.filter_eq_nil_iff] using h
  rw [CrimeCaseRepository.getInfoBeforeCreation, hnil]
  rfl

theorem getInfoBeforeCreation_eq (hdb : Constraints db) {cr : Crime} (hcr : cr ∈ db.crime) :
    CrimeCaseRepository.getInfoBeforeCreation db (some cr.id) =
      .ok (some ⟨db.crimeCase.any (·.fkCrime = cr.id), cr.fkDistrict⟩) := by
  have hjoin : leftJoin db.crimeCase (fun c => decide (c.fkCrime = cr.id)) =
      [db.crimeCase.find? (·.fkCrime = cr.id)] :=
    leftJoin_key hdb.crimeCase (k := cr.id) fun c hc => of_decide_eq_true hc
  rw [CrimeCaseRepository.getInfoBeforeCreation, filter_some_key_eq hdb.crime hcr,
    List.flatMap_singleton, hjoin, ← List.isSome_find?]
  rfl

/-- The service answers OK for a crime without a case in a district of the policeman. -/
theorem getStateBeforeCreation_OK_iff (hdb : Constraints db) (hs : UniqueSeries db)
    (hp : p ∈ db.policeman) {crimeId : Option ℤ} :
    CrimeCaseService.getStateBeforeCreation db crimeId p.series = .ok .OK ↔
      ∃ cr ∈ db.crime, some cr.id = crimeId ∧ Unopened db cr.id ∧
        ∃ d, cr.fkDistrict = some d ∧ WorksIn db p d := by
  by_cases hid : ∃ cr ∈ db.crime, some cr.id = crimeId
  · obtain ⟨cr, hcr, rfl⟩ := hid
    have hone : (∃ c ∈ db.crime, some c.id = some cr.id ∧ Unopened db c.id ∧
        ∃ d, c.fkDistrict = some d ∧ WorksIn db p d) ↔
        Unopened db cr.id ∧ ∃ d, cr.fkDistrict = some d ∧ WorksIn db p d := by
      constructor
      · rintro ⟨c, hc, hcid, h⟩
        obtain rfl := List.inj_on_of_nodup_map hdb.crime hc hcr (Option.some.inj hcid)
        exact h
      · intro h
        exact ⟨cr, hcr, rfl, h⟩
    have hdistrict : (getDistrictIds db p.series).any (fun d => cr.fkDistrict = some d) = true ↔
        ∃ d, cr.fkDistrict = some d ∧ WorksIn db p d := by
      simp only [List.any_eq_true, decide_eq_true_eq, mem_getDistrictIds hdb hs hp, and_comm]
    have hopen : db.crimeCase.any (·.fkCrime = cr.id) = false ↔ Unopened db cr.id := by
      simp [Unopened]
    rw [hone, ← hdistrict, ← hopen, CrimeCaseService.getStateBeforeCreation,
      getInfoBeforeCreation_eq hdb hcr]
    simp only [bind, Except.bind]
    cases db.crimeCase.any (·.fkCrime = cr.id) <;>
      cases (getDistrictIds db p.series).any (fun d => cr.fkDistrict = some d) <;>
      simp [pure, Except.pure]
  · have hnone : ∀ cr ∈ db.crime, some cr.id ≠ crimeId := fun cr hcr he => hid ⟨cr, hcr, he⟩
    rw [CrimeCaseService.getStateBeforeCreation, getInfoBeforeCreation_eq_none hnone]
    constructor
    · intro h
      cases h
    · rintro ⟨cr, hcr, he, -⟩
      exact absurd he (hnone cr hcr)

/-- The database accepts the case of a major for a crime without a case in a
district of the policeman, and also for one whose district is null. -/
theorem create_accepted_iff (hdb : Constraints db) (hs : UniqueSeries db)
    (hp : p ∈ db.policeman) (hmajor : p.rank = .MAJOR) {crimeId : Option ℤ} :
    (∃ db', CrimeCaseRepository.create crimeId p.series db = .ok db') ↔
      ∃ cr ∈ db.crime, some cr.id = crimeId ∧ Unopened db cr.id ∧
        (cr.fkDistrict = none → ∃ d, WorksIn db p d) ∧
        ∀ d, cr.fkDistrict = some d → WorksIn db p d := by
  have hdistricts : ∀ d, d ∈ districtsOf db p.id ↔ WorksIn db p d := fun d =>
    mem_districtsOf hdb.policeman hp
  have hsome : districtsOf db p.id ≠ [] ↔ ∃ d, WorksIn db p d := by
    rw [ne_eq, List.eq_nil_iff_forall_not_mem]
    simp [hdistricts]
  cases crimeId with
  | none =>
    constructor
    · rintro ⟨db', h⟩
      obtain ⟨_, _, _, h, _⟩ := CrimeCaseRepository.create_ok h
      cases h
    · rintro ⟨cr, -, h, -⟩
      cases h
  | some crime =>
    have hcreate : CrimeCaseRepository.create (some crime) p.series db =
        crimeCaseTable.insert ⟨crime, .ON_WORK, p.id⟩ db := by
      rw [CrimeCaseRepository.create, policemanIdBySeries_eq hs hp]
      rfl
    rw [hcreate, crimeCase_insert_accepted hdb]
    simp only [hdistricts, hsome]
    constructor
    · rintro ⟨hnew, -, cr, hcr, rfl, hnull, hd⟩
      exact ⟨cr, hcr, rfl, hnew, hnull, hd⟩
    · rintro ⟨cr, hcr, hid, hnew, hnull, hd⟩
      obtain rfl := Option.some.inj hid
      exact ⟨hnew, ⟨p, hp, rfl, hmajor⟩, cr, hcr, rfl, hnull, hd⟩

/-! ### Agreement -/

/-- The check and the database agree unless the crime has no case and no
district, while the policeman's precinct has one. -/
theorem getStateBeforeCreation_agrees_iff (hdb : Constraints db) (hs : UniqueSeries db)
    (hp : p ∈ db.policeman) (hmajor : p.rank = .MAJOR) (crimeId : Option ℤ) :
    (CrimeCaseService.getStateBeforeCreation db crimeId p.series = .ok .OK ↔
      ∃ db', CrimeCaseRepository.create crimeId p.series db = .ok db') ↔
    ¬ Unlocated db p crimeId := by
  rw [getStateBeforeCreation_OK_iff hdb hs hp, create_accepted_iff hdb hs hp hmajor]
  constructor
  · rintro hagree ⟨cr, hcr, hid, hnew, hnull, hd⟩
    obtain ⟨cr', hcr', hid', -, d, hsome, -⟩ := hagree.mpr
      ⟨cr, hcr, hid, hnew, fun _ => hd, fun d hsome => by rw [hnull] at hsome; cases hsome⟩
    obtain rfl := List.inj_on_of_nodup_map hdb.crime hcr' hcr (Option.some.inj (hid'.trans hid.symm))
    rw [hnull] at hsome
    cases hsome
  · intro hlocated
    constructor
    · rintro ⟨cr, hcr, hid, hnew, d, hsome, hd⟩
      refine ⟨cr, hcr, hid, hnew, fun _ => ⟨d, hd⟩, fun d' hsome' => ?_⟩
      rw [hsome] at hsome'
      cases hsome'
      exact hd
    · rintro ⟨cr, hcr, hid, hnew, hnull, hd⟩
      cases hdistrict : cr.fkDistrict with
      | none => exact absurd ⟨cr, hcr, hid, hnew, hdistrict, hnull hdistrict⟩ hlocated
      | some d => exact ⟨cr, hcr, hid, hnew, d, hdistrict, hd d hdistrict⟩

/-- One precinct with a district, a major in it, a crime in the district and a
crime without one. -/
def unlocatedDb : Db where
  precinct := [⟨1⟩]
  person := [⟨1, some "Jean"⟩]
  policeman := [⟨1, .MAJOR, "A1", 1, 1⟩]
  district := [⟨1, "Martinaise"⟩]
  precinctDistrict := [⟨1, 1⟩]
  crime := [⟨1, some 1⟩, ⟨2, none⟩]
  crimeCase := []
  policemanCase := []
  note := []
  personRelevantToCase := []
  nextNoteId := 1

theorem unlocatedDb_constraints : Constraints unlocatedDb := by
  constructor <;> decide

theorem getStateBeforeCreation_agrees_located :
    CrimeCaseService.getStateBeforeCreation unlocatedDb (some 1) "A1" = .ok .OK ↔
      ∃ db', CrimeCaseRepository.create (some 1) "A1" unlocatedDb = .ok db' := by
  refine (getStateBeforeCreation_agrees_iff unlocatedDb_constraints (by decide)
    (p := ⟨1, .MAJOR, "A1", 1, 1⟩) (by decide) rfl (some 1)).mpr ?_
  rintro ⟨cr, hcr, hid, -, hnull, -⟩
  simp only [unlocatedDb, List.mem_cons, List.not_mem_nil, or_false] at hcr
  rcases hcr with rfl | rfl
  · cases hnull
  · cases hid

/-- The database opens a case on the crime without a district, which the service
answers with `WRONG_DISTRICT`. -/
theorem database_opens_unlocated :
    Constraints unlocatedDb ∧ UniqueSeries unlocatedDb ∧
      ⟨1, .MAJOR, "A1", 1, 1⟩ ∈ unlocatedDb.policeman ∧
      ¬ (CrimeCaseService.getStateBeforeCreation unlocatedDb (some 2) "A1" = .ok .OK ↔
        ∃ db', CrimeCaseRepository.create (some 2) "A1" unlocatedDb = .ok db') := by
  refine ⟨unlocatedDb_constraints, by decide, by decide, fun hagree => ?_⟩
  cases hagree.mpr ⟨{ unlocatedDb with crimeCase := [⟨2, .ON_WORK, 1⟩] }, by decide⟩

end Itmo.Police
