import Itmo.Police.Constraints
import Itmo.Police.Controllers
import Mathlib.Data.Prod.Basic

/-! Putting a subordinate on a case. The service looks whether the crime, its case
and the policeman exist, at the state of the case, and for an existing assignment
at the series of its owner; the trigger looks at the ranks and precincts of both
policemen, and the insert needs the series to be that of one policeman. A request
whose check passes is therefore carried out exactly when the policemen fit. -/

namespace Itmo.Police

open Lib

variable {db : Db}

/-- The assignments of a policeman to a crime. -/
def onCase (db : Db) (crime minor : ℤ) : List PolicemanCase :=
  db.policemanCase.filter fun a => a.fkCrime = crime ∧ a.fkPolicemanMinor = minor

/-- The series of the policeman who made the assignment. -/
def ownerOf (db : Db) (a : PolicemanCase) : Option String :=
  (a.fkPolicemanMajor.bind fun j => db.policeman.find? (·.id = j)).map (·.series)

/-! ### The check -/

theorem ownerSeries_none : PolicemanCaseRepository.ownerSeries db none = .ok none := by
  have hfilter : (db.policeman.filter fun p =>
      (none : Option PolicemanCase).bind (·.fkPolicemanMajor) = some p.id) = [] := by simp
  rw [PolicemanCaseRepository.ownerSeries, hfilter]
  rfl

theorem ownerSeries_eq (hdb : Constraints db) {a : PolicemanCase} (ha : a ∈ db.policemanCase) :
    PolicemanCaseRepository.ownerSeries db (some a) = .ok (ownerOf db a) := by
  unfold PolicemanCaseRepository.ownerSeries ownerOf
  cases hmajor : a.fkPolicemanMajor with
  | none =>
    have hfilter : (db.policeman.filter fun p =>
        (some a).bind (·.fkPolicemanMajor) = some p.id) = [] := by simp [hmajor]
    rw [hfilter]
    rfl
  | some j =>
    obtain ⟨p, hp, rfl⟩ := hdb.assignmentMajor a ha j hmajor
    have hfilter : (db.policeman.filter fun q =>
        (some a).bind (·.fkPolicemanMajor) = some q.id) = [p] := by
      simp only [Option.bind_some, hmajor, Option.some.injEq]
      rw [← filter_key_eq hdb.policeman hp]
      exact List.filter_congr fun q _ => decide_eq_decide.mpr eq_comm
    have hfind : db.policeman.find? (·.id = p.id) = some p := by
      rw [← List.head?_filter, filter_key_eq hdb.policeman hp]
      rfl
    rw [hfilter, Option.bind_some, hfind]
    rfl

/-- The joined rows about a crime with a case and a known policeman. -/
theorem putRows_eq (hdb : Constraints db) {c : CrimeCase} (hc : c ∈ db.crimeCase) {q : Policeman}
    (hq : q ∈ db.policeman) :
    PolicemanCaseRepository.infoBeforePutRows db (some c.fkCrime) (some q.id) =
      (leftJoin db.policemanCase fun a =>
        a.fkCrime = c.fkCrime ∧ a.fkPolicemanMinor = q.id).map fun a => (some c, a, some q) := by
  obtain ⟨cr, hcr, hid⟩ := hdb.caseCrime c hc
  rw [← hid, PolicemanCaseRepository.infoBeforePutRows, filter_some_key_eq hdb.crime hcr,
    List.flatMap_singleton, hid, leftJoin_eq_some (filter_key_eq hdb.crimeCase hc),
    List.flatMap_singleton, leftJoin_eq_some (filter_some_key_eq hdb.policeman hq)]
  simp only [List.map_singleton, Option.some.injEq]
  rw [List.map_eq_flatMap]

/-- The check of a request about a crime with a case and a known policeman. -/
theorem putCheck_eq (hdb : Constraints db) {c : CrimeCase} (hc : c ∈ db.crimeCase) {q : Policeman}
    (hq : q ∈ db.policeman) (ownerSeries : String) :
    PolicemanCaseService.getStateBeforePut db (some c.fkCrime) (some q.id) ownerSeries =
      match onCase db c.fkCrime q.id with
      | [] => .ok (if c.state = .ON_WORK then .TO_ADD else .CASE_NOT_ON_WORK)
      | [a] => .ok (if c.state = .ON_WORK then
          if some ownerSeries = ownerOf db a then .TO_UPDATE else .DOES_NOT_OWN
        else .CASE_NOT_ON_WORK)
      | _ => .error .incorrectResultSize := by
  have hrows := putRows_eq hdb hc hq
  have hfilter : (db.policemanCase.filter fun a =>
      a.fkCrime = c.fkCrime ∧ a.fkPolicemanMinor = q.id) = onCase db c.fkCrime q.id := rfl
  unfold PolicemanCaseService.getStateBeforePut PolicemanCaseRepository.getInfoBeforePut
  match honCase : onCase db c.fkCrime q.id with
  | [] =>
    rw [leftJoin, hfilter, honCase] at hrows
    rw [hrows]
    by_cases hstate : c.state = .ON_WORK <;>
      simp [optional, atMostOne, ownerSeries_none, ofDb, bind, Except.bind, pure, Except.pure, hstate]
  | [a] =>
    have ha : a ∈ db.policemanCase := by
      have hmem : a ∈ onCase db c.fkCrime q.id := by
        rw [honCase]
        exact List.mem_singleton_self a
      exact List.mem_of_mem_filter hmem
    rw [leftJoin, hfilter, honCase] at hrows
    rw [hrows]
    by_cases hstate : c.state = .ON_WORK <;>
      by_cases howner : some ownerSeries = ownerOf db a <;>
      simp [optional, atMostOne, ownerSeries_eq hdb ha, ofDb, bind, Except.bind, pure, Except.pure,
        hstate, howner]
  | a :: a' :: l =>
    rw [leftJoin, hfilter, honCase] at hrows
    rw [hrows]
    rfl

/-- The check passes only for a crime with a case and a known policeman. -/
theorem putCheck_passes {crimeId slaveId : Option ℤ} {ownerSeries : String}
    {s : PolicemanCaseService.StateBeforePut} (hs : s = .TO_ADD ∨ s = .TO_UPDATE)
    (h : PolicemanCaseService.getStateBeforePut db crimeId slaveId ownerSeries = .ok s) :
    (∃ c ∈ db.crimeCase, crimeId = some c.fkCrime) ∧ ∃ q ∈ db.policeman, slaveId = some q.id := by
  obtain ⟨info, hinfo, h⟩ := bind_ok h
  cases info with
  | none => rcases hs with rfl | rfl <;> cases h
  | some info =>
    obtain ⟨crC, polC, pol, owner, hrow, -, rfl⟩ := PolicemanCaseRepository.getInfoBeforePut_some hinfo
    obtain ⟨cr, -, rfl, hcrC, -, hpol⟩ := PolicemanCaseRepository.mem_infoBeforePutRows hrow
    cases crC with
    | none => rcases hs with rfl | rfl <;> cases h
    | some c =>
      cases pol with
      | none => rcases hs with rfl | rfl <;> cases h
      | some q =>
        obtain ⟨hc, hid⟩ := some_mem_leftJoin hcrC
        obtain ⟨hq, hslave⟩ := some_mem_leftJoin hpol
        exact ⟨⟨c, hc, by rw [of_decide_eq_true hid]⟩, q, hq, (of_decide_eq_true hslave).symm⟩

theorem toAdd_iff (hdb : Constraints db) {c : CrimeCase} (hc : c ∈ db.crimeCase) {q : Policeman}
    (hq : q ∈ db.policeman) (ownerSeries : String) :
    PolicemanCaseService.getStateBeforePut db (some c.fkCrime) (some q.id) ownerSeries =
        .ok .TO_ADD ↔
      c.state = .ON_WORK ∧ onCase db c.fkCrime q.id = [] := by
  rw [putCheck_eq hdb hc hq]
  match onCase db c.fkCrime q.id with
  | [] => by_cases hstate : c.state = .ON_WORK <;> simp [hstate]
  | [a] =>
    by_cases hstate : c.state = .ON_WORK <;>
      by_cases howner : some ownerSeries = ownerOf db a <;> simp [hstate, howner]
  | _ :: _ :: _ => simp

theorem toUpdate_iff (hdb : Constraints db) {c : CrimeCase} (hc : c ∈ db.crimeCase) {q : Policeman}
    (hq : q ∈ db.policeman) (ownerSeries : String) :
    PolicemanCaseService.getStateBeforePut db (some c.fkCrime) (some q.id) ownerSeries =
        .ok .TO_UPDATE ↔
      c.state = .ON_WORK ∧
        ∃ a, onCase db c.fkCrime q.id = [a] ∧ some ownerSeries = ownerOf db a := by
  rw [putCheck_eq hdb hc hq]
  match onCase db c.fkCrime q.id with
  | [] => by_cases hstate : c.state = .ON_WORK <;> simp [hstate]
  | [a] =>
    by_cases hstate : c.state = .ON_WORK <;>
      by_cases howner : some ownerSeries = ownerOf db a <;> simp [hstate, howner]
  | _ :: _ :: _ => simp

/-! ### The writes -/

/-- The policemen of an assignment of a major fit when the other one is a minor of his
precinct. -/
theorem ranksFit_iff (hdb : Constraints db) {q p : Policeman} (hq : q ∈ db.policeman)
    (hp : p ∈ db.policeman) (hrank : p.rank = .MAJOR) {r : PolicemanCase}
    (hminor : r.fkPolicemanMinor = q.id) (hmajor : r.fkPolicemanMajor = some p.id) :
    RanksFit db r ↔ q.rank = .MINOR ∧ q.fkPrecinct = p.fkPrecinct := by
  unfold RanksFit
  rw [hminor, hmajor]
  constructor
  · rintro ⟨m, hm, hmid, hmrank, hfit⟩
    obtain rfl := List.inj_on_of_nodup_map hdb.policeman hm hq hmid
    obtain ⟨p', hp', hpid, -, hprecinct⟩ := hfit p.id rfl
    obtain rfl := List.inj_on_of_nodup_map hdb.policeman hp' hp hpid
    exact ⟨hmrank, hprecinct.symm⟩
  · rintro ⟨hqrank, hprecinct⟩
    refine ⟨q, hq, rfl, hqrank, fun j hj => ⟨p, hp, Option.some.inj hj, hrank, hprecinct.symm⟩⟩

/-- The insert is carried out when the series is one policeman's, and he and the
subordinate fit. -/
theorem addOnCase_accepted (hdb : Constraints db) {c : CrimeCase} (hc : c ∈ db.crimeCase)
    {q p : Policeman} (hq : q ∈ db.policeman) (hp : p ∈ db.policeman) (hrank : p.rank = .MAJOR)
    (status : PolicemanCaseStatus) :
    (∃ db', PolicemanCaseRepository.addOnCase (some c.fkCrime) (some q.id) status p.series db =
      .ok db') ↔
      db.policeman.filter (·.series = p.series) = [p] ∧ q.rank = .MINOR ∧
        q.fkPrecinct = p.fkPrecinct := by
  constructor
  · rintro ⟨db', h⟩
    obtain ⟨major, crime, minor, hmajor, hcrime, hminor, h⟩ := PolicemanCaseRepository.addOnCase_ok h
    obtain rfl := Option.some.inj hcrime
    obtain rfl := Option.some.inj hminor
    obtain ⟨hbearer, rfl⟩ := policemanIdBySeries_mem hmajor hp rfl
    have hfit := ((policemanCase_insert_accepted hdb).mp ⟨db', h⟩).2
    exact ⟨hbearer, (ranksFit_iff hdb hq hp hrank rfl rfl).mp hfit⟩
  · rintro ⟨hbearer, hfit⟩
    have hmajor : policemanIdBySeries db p.series = .ok (some p.id) := by
      rw [policemanIdBySeries, hbearer]
      rfl
    have hinsert : ∃ db', policemanCaseTable.insert ⟨some p.id, q.id, c.fkCrime, status⟩ db =
        .ok db' :=
      (policemanCase_insert_accepted hdb).mpr
        ⟨⟨c, hc, rfl⟩, (ranksFit_iff hdb hq hp hrank rfl rfl).mpr hfit⟩
    rw [PolicemanCaseRepository.addOnCase, hmajor]
    exact hinsert

/-- The update is carried out when the policemen of the one assignment still fit. -/
theorem update_accepted (hdb : Constraints db) {c : CrimeCase} (hc : c ∈ db.crimeCase)
    {q : Policeman} {a : PolicemanCase} (ha : onCase db c.fkCrime q.id = [a])
    (status : PolicemanCaseStatus) :
    (∃ db', PolicemanCaseRepository.update (some c.fkCrime) (some q.id) status db = .ok db') ↔
      RanksFit db a := by
  have hmem : ∀ r, r ∈ onCase db c.fkCrime q.id ↔ r = a := by
    intro r
    rw [ha, List.mem_singleton]
  simp only [onCase, List.mem_filter, decide_eq_true_eq] at hmem
  rw [PolicemanCaseRepository.update, policemanCase_update_accepted hdb
    (f := fun r => { r with status := status }) (fun _ => rfl) (fun _ => rfl) fun _ => rfl]
  simp only [Option.some.injEq, decide_eq_true_eq]
  constructor
  · intro h
    obtain ⟨hmem, hkey⟩ := (hmem a).mpr rfl
    exact (h a hmem hkey).2
  · intro h r hr hkey
    obtain rfl := (hmem r).mp ⟨hr, hkey⟩
    exact ⟨⟨c, hc, hkey.1.symm⟩, h⟩

/-! ### Whole requests -/

/-- The check passes, and the policemen do not fit: a new subordinate who is not a
minor of the precinct of the policeman who asks, or that policeman is not the only
one of his series; an assignment whose policemen are not a major and a minor of
one precinct any more. -/
def RefusedPut (db : Db) (p : Policeman) (crimeId slaveId : Option ℤ) : Prop :=
  ∃ c ∈ db.crimeCase, crimeId = some c.fkCrime ∧ c.state = .ON_WORK ∧
    ∃ q ∈ db.policeman, slaveId = some q.id ∧
      match onCase db c.fkCrime q.id with
      | [] => ¬ (db.policeman.filter (·.series = p.series) = [p] ∧ q.rank = .MINOR ∧
          q.fkPrecinct = p.fkPrecinct)
      | [a] => some p.series = ownerOf db a ∧ ¬ RanksFit db a
      | _ => False

/-- What the check promises about the write. -/
def PutAccepted (db : Db) (p : Policeman) (crimeId slaveId : Option ℤ)
    (status : PolicemanCaseStatus) : Prop :=
  (PolicemanCaseService.getStateBeforePut db crimeId slaveId p.series = .ok .TO_ADD →
    ∃ db', PolicemanCaseRepository.addOnCase crimeId slaveId status p.series db = .ok db') ∧
  (PolicemanCaseService.getStateBeforePut db crimeId slaveId p.series = .ok .TO_UPDATE →
    ∃ db', PolicemanCaseRepository.update crimeId slaveId status db = .ok db')

/-- A request of a major whose check passes is carried out, unless the policemen
do not fit. -/
theorem put_accepted_iff (hdb : Constraints db) {p : Policeman} (hp : p ∈ db.policeman)
    (hrank : p.rank = .MAJOR) (crimeId slaveId : Option ℤ) (status : PolicemanCaseStatus) :
    PutAccepted db p crimeId slaveId status ↔ ¬ RefusedPut db p crimeId slaveId := by
  constructor
  · rintro ⟨hadd, hupdate⟩ ⟨c, hc, rfl, hstate, q, hq, rfl, hrefused⟩
    match honCase : onCase db c.fkCrime q.id with
    | [] =>
      rw [honCase] at hrefused
      have hcheck := (toAdd_iff hdb hc hq p.series).mpr ⟨hstate, honCase⟩
      exact hrefused ((addOnCase_accepted hdb hc hq hp hrank status).mp (hadd hcheck))
    | [a] =>
      rw [honCase] at hrefused
      have hcheck := (toUpdate_iff hdb hc hq p.series).mpr ⟨hstate, a, honCase, hrefused.1⟩
      exact hrefused.2 ((update_accepted hdb hc honCase status).mp (hupdate hcheck))
    | _ :: _ :: _ =>
      rw [honCase] at hrefused
      exact hrefused
  · intro h
    constructor
    · intro hcheck
      obtain ⟨⟨c, hc, rfl⟩, q, hq, rfl⟩ := putCheck_passes (.inl rfl) hcheck
      obtain ⟨hstate, honCase⟩ := (toAdd_iff hdb hc hq p.series).mp hcheck
      rw [addOnCase_accepted hdb hc hq hp hrank]
      by_contra hnot
      exact h ⟨c, hc, rfl, hstate, q, hq, rfl, by rw [honCase]; exact hnot⟩
    · intro hcheck
      obtain ⟨⟨c, hc, rfl⟩, q, hq, rfl⟩ := putCheck_passes (.inr rfl) hcheck
      obtain ⟨hstate, a, honCase, howner⟩ := (toUpdate_iff hdb hc hq p.series).mp hcheck
      rw [update_accepted hdb hc honCase]
      by_contra hnot
      exact h ⟨c, hc, rfl, hstate, q, hq, rfl, by rw [honCase]; exact ⟨howner, hnot⟩⟩

/-- A case on work of a major, with a minor of his precinct and one of another. -/
def twoPrecincts : Db where
  precinct := [⟨1⟩, ⟨2⟩]
  person := [⟨1, some "Jean"⟩, ⟨2, some "Kim"⟩, ⟨3, some "Judit"⟩]
  policeman := [⟨1, .MAJOR, "A1", 1, 1⟩, ⟨2, .MINOR, "A2", 2, 1⟩, ⟨3, .MINOR, "A3", 3, 2⟩]
  district := [⟨1, "Martinaise"⟩]
  precinctDistrict := [⟨1, 1⟩, ⟨1, 2⟩]
  crime := [⟨1, some 1⟩]
  crimeCase := [⟨1, .ON_WORK, 1⟩]
  policemanCase := []
  note := []
  personRelevantToCase := []
  nextNoteId := 1

theorem twoPrecincts_constraints : Constraints twoPrecincts := by
  constructor <;> decide

theorem put_accepted_same_precinct :
    PutAccepted twoPrecincts ⟨1, .MAJOR, "A1", 1, 1⟩ (some 1) (some 2) .ASSIGNED := by
  rw [put_accepted_iff twoPrecincts_constraints (by decide) rfl]
  rintro ⟨c, hc, -, -, q, hq, hid, hrefused⟩
  have hq2 : q = ⟨2, .MINOR, "A2", 2, 1⟩ := by
    simp only [twoPrecincts, List.mem_cons, List.not_mem_nil, or_false] at hq
    rcases hq with rfl | rfl | rfl
    · cases hid
    · rfl
    · cases hid
  rw [hq2] at hrefused
  exact hrefused (by decide)

/-- The minor of the other precinct passes the check, and the trigger ends the
request with an exception. -/
theorem put_from_other_precinct : Constraints twoPrecincts ∧
    ¬ PutAccepted twoPrecincts ⟨1, .MAJOR, "A1", 1, 1⟩ (some 1) (some 3) .ASSIGNED := by
  have hcheck : PolicemanCaseService.getStateBeforePut twoPrecincts (some 1) (some 3) "A1" =
      .ok .TO_ADD := by decide
  have hend : PolicemanCaseRepository.addOnCase (some 1) (some 3) .ASSIGNED "A1" twoPrecincts =
      .error (.raised "Major and minor are from different precincts") := by decide
  refine ⟨twoPrecincts_constraints, fun h => ?_⟩
  obtain ⟨db', hdb'⟩ := h.1 hcheck
  rw [hend] at hdb'
  cases hdb'

end Itmo.Police
