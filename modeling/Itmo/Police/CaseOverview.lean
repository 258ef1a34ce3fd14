import Itmo.Lib.FirstBy
import Itmo.Police.Constraints
import Itmo.Police.Repositories
import Mathlib.Data.Set.Basic
import Mathlib.Data.Option.Basic

/-! The overview of cases for a major. The records of one flat join are folded into
a set of crimes, a set of subordinates for each crime and one set of all
subordinates. The elements of these sets are equal when their ids are, so each set
keeps the first record it sees: the overview is complete, and the same for every
order of the records, exactly when records about one crime or one subordinate
agree in the fields that go with an assignment and not with the id. -/

namespace Itmo.Police

open Lib

/-! ### The query -/

structure LocalDate where
  year : ℤ
  month : ℕ
  day : ℕ
  deriving DecidableEq, Repr

/-- The columns that only this query reads: the name of the type of a crime, and
when the series of a policeman was issued. -/
structure Details where
  caseTypeName : ℤ → Option String
  dateOfIssue : ℤ → LocalDate

structure CaseWithSlaveRecord where
  crimeId : ℤ
  caseTypeName : Option String
  districtName : Option String
  caseState : Option CaseState
  ownsCase : Option Bool
  ownsSlave : Option Bool
  slaveId : Option ℤ
  name : Option String
  series : Option String
  dateOfIssue : Option LocalDate
  onCaseStatus : Option PolicemanCaseStatus
  deriving DecidableEq, Repr

/-- The select list for a joined row; the subselects are by primary key. -/
def caseWithSlaveRecord (db : Db) (details : Details) (cr : Crime) (crC : Option CrimeCase)
    (polC : Option PolicemanCase) (sl : Option Policeman) (major : Option Policeman) :
    CaseWithSlaveRecord where
  crimeId := cr.id
  caseTypeName := details.caseTypeName cr.id
  districtName := (db.district.find? fun dis => cr.fkDistrict = some dis.id).map (·.name)
  caseState := crC.map (·.state)
  ownsCase := sqlEq (crC.map (·.fkPolicemanMajor)) (major.map (·.id))
  ownsSlave := sqlEq (polC.bind (·.fkPolicemanMajor)) (major.map (·.id))
  slaveId := sl.map (·.id)
  name := (sl.bind fun sl => db.person.find? (·.id = sl.fkPerson)).bind (·.name)
  series := sl.map (·.series)
  dateOfIssue := sl.map fun sl => details.dateOfIssue sl.id
  onCaseStatus := polC.map (·.status)

/-- A row passes the `WHERE` when one of the comparisons is true, not when it is null. -/
def getCasesWithPolicemenRecords (db : Db) (details : Details) (series : String) :
    List CaseWithSlaveRecord :=
  db.crime.flatMap fun cr =>
    (leftJoin db.crimeCase (·.fkCrime = cr.id)).flatMap fun crC =>
      (leftJoin db.policemanCase (·.fkCrime = cr.id)).flatMap fun polC =>
        (leftJoin db.policeman fun sl => polC.map (·.fkPolicemanMinor) = some sl.id).flatMap
          fun sl =>
            ((leftJoin db.policeman (·.series = series)).filter fun major =>
              sqlEq (polC.bind (·.fkPolicemanMajor)) (major.map (·.id)) = some true ∨
                sqlEq (crC.map (·.fkPolicemanMajor)) (major.map (·.id)) = some true).map
              fun major => caseWithSlaveRecord db details cr crC polC sl major

/-! ### The service -/

/-- `EnumConverters.toString`. -/
def CaseState.toLowerCase : CaseState → String
  | .ON_WORK => "on_work"
  | .FREEZE => "freeze"
  | .CLOSE => "close"

def PolicemanCaseStatus.toLowerCase : PolicemanCaseStatus → String
  | .ASSIGNED => "assigned"
  | .REMOVED => "removed"

structure MinPolicemanOnCaseResponse where
  id : ℤ
  status : Option String
  deriving DecidableEq, Repr

structure SlaveResponse where
  id : ℤ
  name : Option String
  series : Option String
  owns : Option Bool
  seriesDateOfIssue : Option LocalDate
  deriving DecidableEq, Repr

structure CaseWithMinPolicemenResponse where
  id : ℤ
  type : Option String
  district : Option String
  state : Option String
  owns : Option Bool
  slavesOnCase : List MinPolicemanOnCaseResponse
  deriving DecidableEq, Repr

structure CasesWithMinPolicemenAndUniqueFullResponse where
  crimeCases : List CaseWithMinPolicemenResponse
  uniquePolicemen : List SlaveResponse

namespace CaseWithSlaveRecord

def caseResponse (r : CaseWithSlaveRecord) : CaseWithMinPolicemenResponse where
  id := r.crimeId
  type := r.caseTypeName
  district := r.districtName
  state := r.caseState.map (·.toLowerCase)
  owns := r.ownsCase
  slavesOnCase := []

def minPolicemanOnCase (r : CaseWithSlaveRecord) : Option MinPolicemanOnCaseResponse :=
  r.slaveId.map fun id => ⟨id, r.onCaseStatus.map (·.toLowerCase)⟩

def slaveResponse (r : CaseWithSlaveRecord) : Option SlaveResponse :=
  r.slaveId.map fun id => ⟨id, r.name, r.series, r.ownsSlave, r.dateOfIssue⟩

end CaseWithSlaveRecord

/-- One pass of the loop. The map of crime ids to sets of subordinates shares these
sets with the responses, so it is not kept beside them. -/
def overviewStep (acc : CasesWithMinPolicemenAndUniqueFullResponse) (r : CaseWithSlaveRecord) :
    CasesWithMinPolicemenAndUniqueFullResponse :=
  let crimeCases := addBy CaseWithMinPolicemenResponse.id acc.crimeCases r.caseResponse
  match r.minPolicemanOnCase, r.slaveResponse with
  | some slaveOnCase, some slave =>
    ⟨crimeCases.map fun c =>
        if c.id = r.crimeId then
          { c with slavesOnCase := addBy MinPolicemanOnCaseResponse.id c.slavesOnCase slaveOnCase }
        else c,
      addBy SlaveResponse.id acc.uniquePolicemen slave⟩
  | _, _ => ⟨crimeCases, acc.uniquePolicemen⟩

def getCasesWithMinPolicemanAndUniqueFull (records : List CaseWithSlaveRecord) :
    CasesWithMinPolicemenAndUniqueFullResponse :=
  records.foldl overviewStep ⟨[], []⟩

/-! ### What the fold computes -/

/-- The subordinates of the records about a crime. -/
def slavesOn (records : List CaseWithSlaveRecord) (crime : ℤ) : List MinPolicemanOnCaseResponse :=
  records.filterMap fun r => if r.crimeId = crime then r.minPolicemanOnCase else none

theorem slavesOn_concat (records : List CaseWithSlaveRecord) (r : CaseWithSlaveRecord) (crime : ℤ) :
    slavesOn (records ++ [r]) crime = slavesOn records crime ++
      (if r.crimeId = crime then r.minPolicemanOnCase else none).toList := by
  unfold slavesOn
  rw [List.filterMap_append]
  rfl

/-- The response about a crime, with the subordinates of the records. -/
def withSlaves (records : List CaseWithSlaveRecord) (c : CaseWithMinPolicemenResponse) :
    CaseWithMinPolicemenResponse :=
  { c with slavesOnCase := firstBy MinPolicemanOnCaseResponse.id (slavesOn records c.id) }

theorem slavesOn_eq_nil {records : List CaseWithSlaveRecord} {crime : ℤ}
    (h : crime ∉ records.map (·.crimeId)) : slavesOn records crime = [] := by
  unfold slavesOn
  rw [List.filterMap_eq_nil_iff]
  intro r hr
  exact if_neg fun heq => h (List.mem_map.mpr ⟨r, hr, heq⟩)

namespace CaseWithSlaveRecord

theorem minPolicemanOnCase_of_slaveId {r : CaseWithSlaveRecord} {slave : ℤ}
    (h : r.slaveId = some slave) :
    r.minPolicemanOnCase = some ⟨slave, r.onCaseStatus.map (·.toLowerCase)⟩ := by
  rw [minPolicemanOnCase, h]
  rfl

theorem slaveResponse_of_slaveId {r : CaseWithSlaveRecord} {slave : ℤ}
    (h : r.slaveId = some slave) :
    r.slaveResponse = some ⟨slave, r.name, r.series, r.ownsSlave, r.dateOfIssue⟩ := by
  rw [slaveResponse, h]
  rfl

end CaseWithSlaveRecord

/-- A crime that is already there keeps its response, and a new one has no subordinates
in the records before. -/
theorem addBy_caseResponse (records : List CaseWithSlaveRecord) (r : CaseWithSlaveRecord) :
    addBy CaseWithMinPolicemenResponse.id
        ((firstBy CaseWithMinPolicemenResponse.id
          (records.map CaseWithSlaveRecord.caseResponse)).map (withSlaves records))
        r.caseResponse =
      (firstBy CaseWithMinPolicemenResponse.id
        ((records ++ [r]).map CaseWithSlaveRecord.caseResponse)).map (withSlaves records) := by
  have hid : ∀ c, CaseWithMinPolicemenResponse.id (withSlaves records c) =
      CaseWithMinPolicemenResponse.id c := fun _ => rfl
  rw [List.map_append, List.map_singleton, firstBy_concat, ← addBy_map hid]
  by_cases hnew : r.crimeId ∈ records.map (·.crimeId)
  · have hmem : r.caseResponse.id ∈ ((firstBy CaseWithMinPolicemenResponse.id
        (records.map CaseWithSlaveRecord.caseResponse)).map (withSlaves records)).map
        CaseWithMinPolicemenResponse.id := by
      rw [List.map_map]
      show _ ∈ (firstBy CaseWithMinPolicemenResponse.id
        (records.map CaseWithSlaveRecord.caseResponse)).map CaseWithMinPolicemenResponse.id
      rw [mem_map_firstBy, List.map_map]
      exact hnew
    have hmem' : (withSlaves records r.caseResponse).id ∈ _ := hmem
    rw [addBy_of_mem hmem]
    exact (addBy_of_mem hmem').symm
  · congr 1
    unfold withSlaves
    rw [show slavesOn records r.caseResponse.id = [] from slavesOn_eq_nil hnew]
    rfl

/-- A record without a subordinate leaves the responses as they are. -/
theorem withSlaves_of_none (records : List CaseWithSlaveRecord) {r : CaseWithSlaveRecord}
    (h : r.minPolicemanOnCase = none) : withSlaves (records ++ [r]) = withSlaves records := by
  funext c
  unfold withSlaves
  rw [slavesOn_concat, h, ite_self, Option.toList_none, List.append_nil]

/-- A record with one adds it to its crime. -/
theorem withSlaves_of_some (records : List CaseWithSlaveRecord) {r : CaseWithSlaveRecord}
    {slaveOnCase : MinPolicemanOnCaseResponse} (h : r.minPolicemanOnCase = some slaveOnCase)
    (c : CaseWithMinPolicemenResponse) :
    withSlaves (records ++ [r]) c =
      if c.id = r.crimeId then
        { (withSlaves records c) with
          slavesOnCase :=
            addBy MinPolicemanOnCaseResponse.id (withSlaves records c).slavesOnCase slaveOnCase }
      else withSlaves records c := by
  unfold withSlaves
  rw [slavesOn_concat, h]
  by_cases hcrime : r.crimeId = c.id
  · rw [if_pos hcrime.symm, if_pos hcrime, Option.toList_some, firstBy_concat]
  · have hcrime' : ¬ c.id = r.crimeId := fun h => hcrime h.symm
    rw [if_neg hcrime, if_neg hcrime', Option.toList_none, List.append_nil]

/-- Every set keeps the first object of each id. -/
theorem overview_eq (records : List CaseWithSlaveRecord) :
    getCasesWithMinPolicemanAndUniqueFull records =
      ⟨(firstBy CaseWithMinPolicemenResponse.id
          (records.map CaseWithSlaveRecord.caseResponse)).map (withSlaves records),
        firstBy SlaveResponse.id (records.filterMap CaseWithSlaveRecord.slaveResponse)⟩ := by
  induction records using List.reverseRecOn with
  | nil => rfl
  | append_singleton records r ih =>
    have hfold : getCasesWithMinPolicemanAndUniqueFull (records ++ [r]) =
        overviewStep (getCasesWithMinPolicemanAndUniqueFull records) r := by
      unfold getCasesWithMinPolicemanAndUniqueFull
      rw [List.foldl_append]
      rfl
    rw [hfold, ih, overviewStep]
    dsimp only
    rw [addBy_caseResponse]
    cases hslave : r.slaveId with
    | none =>
      have hmin : r.minPolicemanOnCase = none := by
        rw [CaseWithSlaveRecord.minPolicemanOnCase, hslave]
        rfl
      have hresponse : r.slaveResponse = none := by
        rw [CaseWithSlaveRecord.slaveResponse, hslave]
        rfl
      rw [hmin, hresponse, withSlaves_of_none records hmin, List.filterMap_append,
        List.filterMap_cons_none hresponse, List.filterMap_nil, List.append_nil]
    | some slave =>
      have hmin := CaseWithSlaveRecord.minPolicemanOnCase_of_slaveId hslave
      have hresponse := CaseWithSlaveRecord.slaveResponse_of_slaveId hslave
      rw [hmin, hresponse, List.filterMap_append, List.filterMap_cons_some hresponse,
        List.filterMap_nil, firstBy_concat]
      dsimp only
      rw [List.map_map]
      congr 1
      exact List.map_congr_left fun c _ => (withSlaves_of_some records hmin c).symm

/-! ### Complete overviews -/

/-- Each crime once, each subordinate once, with the fields of one of its records,
and under each crime the pairs of its records. -/
structure Complete (records : List CaseWithSlaveRecord)
    (o : CasesWithMinPolicemenAndUniqueFullResponse) : Prop where
  crimesOnce : (o.crimeCases.map (·.id)).Nodup
  crimes : ∀ k, k ∈ o.crimeCases.map (·.id) ↔ k ∈ records.map (·.crimeId)
  crimeFields : ∀ c ∈ o.crimeCases, { c with slavesOnCase := [] } ∈
    records.map CaseWithSlaveRecord.caseResponse
  slavesOnce : (o.uniquePolicemen.map (·.id)).Nodup
  slaves : ∀ k, k ∈ o.uniquePolicemen.map (·.id) ↔ some k ∈ records.map (·.slaveId)
  slaveFields : ∀ p ∈ o.uniquePolicemen, p ∈ records.filterMap CaseWithSlaveRecord.slaveResponse
  pairs : ∀ c ∈ o.crimeCases, ∀ p, p ∈ c.slavesOnCase ↔
    ∃ r ∈ records, r.crimeId = c.id ∧ r.minPolicemanOnCase = some p

/-- A response about a crime as data, with its subordinates as a set. -/
def CaseWithMinPolicemenResponse.content (c : CaseWithMinPolicemenResponse) :
    CaseWithMinPolicemenResponse × Set MinPolicemanOnCaseResponse :=
  ({ c with slavesOnCase := [] }, {p | p ∈ c.slavesOnCase})

/-- What an overview says, whatever the order in which its sets are listed. -/
def CasesWithMinPolicemenAndUniqueFullResponse.contents
    (o : CasesWithMinPolicemenAndUniqueFullResponse) :
    Set (CaseWithMinPolicemenResponse × Set MinPolicemanOnCaseResponse) × Set SlaveResponse :=
  ({d | ∃ c ∈ o.crimeCases, c.content = d}, {p | p ∈ o.uniquePolicemen})

variable {records : List CaseWithSlaveRecord}

theorem mem_slavesOn {crime : ℤ} {p : MinPolicemanOnCaseResponse} : p ∈ slavesOn records crime ↔
    ∃ r ∈ records, r.crimeId = crime ∧ r.minPolicemanOnCase = some p := by
  unfold slavesOn
  rw [List.mem_filterMap]
  refine exists_congr fun r => and_congr_right fun _ => ?_
  split_ifs with h <;> simp [h]

theorem mem_crimes {k : ℤ} : k ∈ (firstBy CaseWithMinPolicemenResponse.id
    (records.map CaseWithSlaveRecord.caseResponse)).map (·.id) ↔ k ∈ records.map (·.crimeId) := by
  rw [mem_map_firstBy, List.map_map]
  rfl

theorem mem_uniqueSlaves {k : ℤ} : k ∈ (firstBy SlaveResponse.id
    (records.filterMap CaseWithSlaveRecord.slaveResponse)).map (·.id) ↔
      some k ∈ records.map (·.slaveId) := by
  rw [mem_map_firstBy, List.mem_map, List.mem_map]
  constructor
  · rintro ⟨p, hp, rfl⟩
    obtain ⟨r, hr, hresponse⟩ := List.mem_filterMap.mp hp
    obtain ⟨id, hslave, rfl⟩ := Option.map_eq_some_iff.mp hresponse
    exact ⟨r, hr, hslave⟩
  · rintro ⟨r, hr, hslave⟩
    exact ⟨⟨k, r.name, r.series, r.ownsSlave, r.dateOfIssue⟩, List.mem_filterMap.mpr
      ⟨r, hr, CaseWithSlaveRecord.slaveResponse_of_slaveId hslave⟩, rfl⟩

/-- The crimes and the subordinates are there once in any case. -/
theorem complete_of_pairs
    (h : ∀ c ∈ (getCasesWithMinPolicemanAndUniqueFull records).crimeCases, ∀ p,
      p ∈ c.slavesOnCase ↔ ∃ r ∈ records, r.crimeId = c.id ∧ r.minPolicemanOnCase = some p) :
    Complete records (getCasesWithMinPolicemanAndUniqueFull records) := by
  have hid : ∀ l : List CaseWithMinPolicemenResponse,
      (l.map (withSlaves records)).map (·.id) = l.map (·.id) := by
    intro l
    rw [List.map_map]
    rfl
  rw [overview_eq] at h ⊢
  constructor
  · rw [hid]
    exact nodup_firstBy _
  · intro k
    rw [hid]
    exact mem_crimes
  · intro c hc
    obtain ⟨base, hbase, rfl⟩ := List.mem_map.mp hc
    obtain ⟨r, hr, rfl⟩ := List.mem_map.mp (mem_firstBy_mem hbase)
    exact List.mem_map.mpr ⟨r, hr, rfl⟩
  · exact nodup_firstBy _
  · exact fun k => mem_uniqueSlaves
  · exact fun p hp => mem_firstBy_mem hp
  · exact h

/-- Only the pairs need the records to agree. -/
theorem complete_iff : Complete records (getCasesWithMinPolicemanAndUniqueFull records) ↔
    ∀ crime, Agree MinPolicemanOnCaseResponse.id (slavesOn records crime) := by
  constructor
  · intro h crime
    rw [overview_eq] at h
    by_cases hcrime : crime ∈ records.map (·.crimeId)
    · obtain ⟨c, hc, rfl⟩ := List.mem_map.mp (mem_crimes.mpr hcrime)
      rw [← mem_firstBy_iff_mem]
      intro p hp
      have hpairs := h.pairs (withSlaves records c) (List.mem_map_of_mem hc) p
      exact hpairs.mpr (mem_slavesOn.mp hp)
    · rw [slavesOn_eq_nil hcrime]
      exact fun a ha => absurd ha List.not_mem_nil
  · intro h
    apply complete_of_pairs
    intro c hc p
    rw [overview_eq] at hc
    obtain ⟨c, -, rfl⟩ := List.mem_map.mp hc
    show p ∈ firstBy MinPolicemanOnCaseResponse.id (slavesOn records c.id) ↔ _
    rw [(h c.id).mem_firstBy]
    exact mem_slavesOn

/-! ### The order of the records -/

/-- Records about one crime, about one subordinate, and about both agree in what
the overview says of them. -/
structure Consistent (records : List CaseWithSlaveRecord) : Prop where
  crimes : Agree CaseWithMinPolicemenResponse.id (records.map CaseWithSlaveRecord.caseResponse)
  slaves : Agree SlaveResponse.id (records.filterMap CaseWithSlaveRecord.slaveResponse)
  pairs : ∀ crime, Agree MinPolicemanOnCaseResponse.id (slavesOn records crime)

/-- The contents of the overview of consistent records, without an order. -/
theorem contents_of_consistent (h : Consistent records) :
    (getCasesWithMinPolicemanAndUniqueFull records).contents =
      ({d | ∃ r ∈ records, d = (r.caseResponse, {p | ∃ r' ∈ records, r'.crimeId = r.crimeId ∧
          r'.minPolicemanOnCase = some p})},
        {p | ∃ r ∈ records, r.slaveResponse = some p}) := by
  rw [overview_eq]
  refine Prod.ext ?_ ?_
  · ext d
    show (∃ c ∈ List.map _ _, CaseWithMinPolicemenResponse.content c = d) ↔ ∃ r ∈ records, _
    have hcontent : ∀ r ∈ records, (withSlaves records r.caseResponse).content =
        (r.caseResponse, {p | ∃ r' ∈ records, r'.crimeId = r.crimeId ∧
          r'.minPolicemanOnCase = some p}) := by
      intro r _
      refine Prod.ext rfl ?_
      ext p
      show p ∈ firstBy MinPolicemanOnCaseResponse.id (slavesOn records r.crimeId) ↔ _
      rw [(h.pairs r.crimeId).mem_firstBy]
      exact mem_slavesOn
    constructor
    · rintro ⟨c, hc, rfl⟩
      obtain ⟨base, hbase, rfl⟩ := List.mem_map.mp hc
      obtain ⟨r, hr, rfl⟩ := List.mem_map.mp (mem_firstBy_mem hbase)
      exact ⟨r, hr, hcontent r hr⟩
    · rintro ⟨r, hr, rfl⟩
      refine ⟨withSlaves records r.caseResponse, List.mem_map_of_mem ?_, hcontent r hr⟩
      exact (h.crimes.mem_firstBy _).mpr (List.mem_map_of_mem hr)
  · ext p
    show p ∈ firstBy SlaveResponse.id _ ↔ _
    rw [h.slaves.mem_firstBy]
    exact List.mem_filterMap

theorem Consistent.of_perm (h : Consistent records) {l : List CaseWithSlaveRecord}
    (hl : l.Perm records) : Consistent l := by
  refine ⟨h.crimes.of_subset (hl.map _).subset, h.slaves.of_subset (hl.filterMap _).subset, ?_⟩
  intro crime
  exact (h.pairs crime).of_subset (hl.filterMap _).subset

/-- The overview is complete and does not depend on the order of the records
exactly when these are consistent. -/
theorem overview_correct_iff :
    ((∀ l, l.Perm records → Complete l (getCasesWithMinPolicemanAndUniqueFull l)) ∧
      ∀ l l', l.Perm records → l'.Perm records →
        (getCasesWithMinPolicemanAndUniqueFull l).contents =
          (getCasesWithMinPolicemanAndUniqueFull l').contents) ↔ Consistent records := by
  constructor
  · rintro ⟨hcomplete, horder⟩
    refine ⟨?_, ?_, complete_iff.mp (hcomplete records (List.Perm.refl _))⟩
    · rw [← mem_firstBy_iff_mem]
      intro c hc
      obtain ⟨r, hr, rfl⟩ := List.mem_map.mp hc
      obtain ⟨l, hl⟩ := exists_perm_cons hr
      have hsame := congrArg Prod.fst (horder (r :: l) records hl (List.Perm.refl _))
      have hmem : (withSlaves (r :: l) r.caseResponse).content ∈
          (getCasesWithMinPolicemanAndUniqueFull (r :: l)).contents.1 := by
        refine ⟨withSlaves (r :: l) r.caseResponse, ?_, rfl⟩
        rw [overview_eq]
        exact List.mem_map_of_mem (head_mem_firstBy _ _)
      rw [hsame, overview_eq] at hmem
      obtain ⟨c', hc', hcontent⟩ := hmem
      obtain ⟨base, hbase, rfl⟩ := List.mem_map.mp hc'
      have hfields := congrArg Prod.fst hcontent
      obtain ⟨r', hr', rfl⟩ := List.mem_map.mp (mem_firstBy_mem hbase)
      have heq : r'.caseResponse = r.caseResponse := hfields
      rw [← heq]
      exact hbase
    · rw [← mem_firstBy_iff_mem]
      intro p hp
      obtain ⟨r, hr, hresponse⟩ := List.mem_filterMap.mp hp
      obtain ⟨l, hl⟩ := exists_perm_cons hr
      have hsame := congrArg Prod.snd (horder (r :: l) records hl (List.Perm.refl _))
      have hmem : p ∈ (getCasesWithMinPolicemanAndUniqueFull (r :: l)).contents.2 := by
        rw [overview_eq]
        show p ∈ firstBy SlaveResponse.id (List.filterMap _ (r :: l))
        rw [List.filterMap_cons_some hresponse]
        exact head_mem_firstBy _ _
      rw [hsame, overview_eq] at hmem
      exact hmem
  · intro h
    refine ⟨fun l hl => complete_iff.mpr (h.of_perm hl).pairs, fun l l' hl hl' => ?_⟩
    rw [contents_of_consistent (h.of_perm hl), contents_of_consistent (h.of_perm hl')]
    simp only [hl.mem_iff, hl'.mem_iff]

/-! ### The records of the query -/

/-- The fields that go with an assignment agree: who owns the case, who owns the
subordinate, and the status on the case. -/
def FlagsAgree (records : List CaseWithSlaveRecord) : Prop :=
  ∀ r ∈ records, ∀ r' ∈ records,
    (r.crimeId = r'.crimeId → r.ownsCase = r'.ownsCase) ∧
    (r.slaveId ≠ none ∧ r.slaveId = r'.slaveId → r.ownsSlave = r'.ownsSlave ∧
      (r.crimeId = r'.crimeId → r.onCaseStatus = r'.onCaseStatus))

instance (records : List CaseWithSlaveRecord) : Decidable (FlagsAgree records) :=
  inferInstanceAs (Decidable (∀ r ∈ records, ∀ r' ∈ records, _))

variable {db : Db} {details : Details} {series : String}

/-- The joined rows behind two records about one crime have its crime and case in
common. -/
theorem record_crime (hdb : Constraints db) {r r' : CaseWithSlaveRecord}
    (hr : r ∈ getCasesWithPolicemenRecords db details series)
    (hr' : r' ∈ getCasesWithPolicemenRecords db details series) (h : r.crimeId = r'.crimeId) :
    r.caseTypeName = r'.caseTypeName ∧ r.districtName = r'.districtName ∧
      r.caseState = r'.caseState := by
  simp only [getCasesWithPolicemenRecords, List.mem_flatMap, List.mem_map] at hr hr'
  obtain ⟨cr, hcr, crC, hcrC, polC, -, sl, -, major, -, rfl⟩ := hr
  obtain ⟨cr', hcr', crC', hcrC', polC', -, sl', -, major', -, rfl⟩ := hr'
  obtain rfl := List.inj_on_of_nodup_map hdb.crime hcr hcr' h
  rw [leftJoin_key hdb.crimeCase (k := cr.id) fun c hc => of_decide_eq_true hc,
    List.mem_singleton] at hcrC hcrC'
  rw [hcrC, hcrC']
  exact ⟨rfl, rfl, rfl⟩

/-- Two records about one subordinate have the policeman in common. -/
theorem record_slave (hdb : Constraints db) {r r' : CaseWithSlaveRecord}
    (hr : r ∈ getCasesWithPolicemenRecords db details series)
    (hr' : r' ∈ getCasesWithPolicemenRecords db details series) (hslave : r.slaveId ≠ none)
    (h : r.slaveId = r'.slaveId) :
    r.name = r'.name ∧ r.series = r'.series ∧ r.dateOfIssue = r'.dateOfIssue := by
  simp only [getCasesWithPolicemenRecords, List.mem_flatMap, List.mem_map] at hr hr'
  obtain ⟨cr, -, crC, -, polC, -, sl, hsl, major, -, rfl⟩ := hr
  obtain ⟨cr', -, crC', -, polC', -, sl', hsl', major', -, rfl⟩ := hr'
  have hsame : sl = sl' := by
    cases sl with
    | none => exact absurd rfl hslave
    | some p =>
      cases sl' with
      | none => cases h
      | some p' =>
        have hid : p.id = p'.id := Option.some.inj h
        rw [List.inj_on_of_nodup_map hdb.policeman (some_mem_leftJoin hsl).1
          (some_mem_leftJoin hsl').1 hid]
  rw [hsame]
  exact ⟨rfl, rfl, rfl⟩

theorem toLowerCase_injective : Function.Injective PolicemanCaseStatus.toLowerCase := by
  intro s t h
  cases s <;> cases t <;> first | rfl | exact absurd h (by decide)

/-- What two responses have in common, their records have. -/
theorem Consistent.flagsAgree {records : List CaseWithSlaveRecord} (h : Consistent records) :
    FlagsAgree records := by
  intro r hr r' hr'
  refine ⟨fun hcrime => ?_, ?_⟩
  · have heq := h.crimes _ (List.mem_map_of_mem hr) _ (List.mem_map_of_mem hr') hcrime
    exact congrArg CaseWithMinPolicemenResponse.owns heq
  · rintro ⟨hnull, hslave⟩
    obtain ⟨k, hk⟩ := Option.ne_none_iff_exists'.mp hnull
    have hk' : r'.slaveId = some k := hslave.symm.trans hk
    refine ⟨?_, fun hcrime => ?_⟩
    · have hresponse := CaseWithSlaveRecord.slaveResponse_of_slaveId hk
      have hresponse' := CaseWithSlaveRecord.slaveResponse_of_slaveId hk'
      have heq := h.slaves _ (List.mem_filterMap.mpr ⟨r, hr, hresponse⟩) _
        (List.mem_filterMap.mpr ⟨r', hr', hresponse'⟩) rfl
      exact congrArg SlaveResponse.owns heq
    · have hmin := CaseWithSlaveRecord.minPolicemanOnCase_of_slaveId hk
      have hmin' := CaseWithSlaveRecord.minPolicemanOnCase_of_slaveId hk'
      have heq := h.pairs r'.crimeId _ (mem_slavesOn.mpr ⟨r, hr, hcrime, hmin⟩) _
        (mem_slavesOn.mpr ⟨r', hr', rfl, hmin'⟩) rfl
      exact Option.map_injective toLowerCase_injective
        (congrArg MinPolicemanOnCaseResponse.status heq)

/-- The other fields of a record are those of its crime and its subordinate. -/
theorem FlagsAgree.consistent (hdb : Constraints db)
    (h : FlagsAgree (getCasesWithPolicemenRecords db details series)) :
    Consistent (getCasesWithPolicemenRecords db details series) := by
  refine ⟨?_, ?_, fun crime => ?_⟩
  · intro c hc c' hc' hid
    obtain ⟨r, hr, rfl⟩ := List.mem_map.mp hc
    obtain ⟨r', hr', rfl⟩ := List.mem_map.mp hc'
    obtain ⟨htype, hdistrict, hstate⟩ := record_crime hdb hr hr' hid
    have howns := (h r hr r' hr').1 hid
    have hid : r.crimeId = r'.crimeId := hid
    unfold CaseWithSlaveRecord.caseResponse
    rw [hid, htype, hdistrict, hstate, howns]
  · intro p hp p' hp' hid
    obtain ⟨r, hr, hresponse⟩ := List.mem_filterMap.mp hp
    obtain ⟨r', hr', hresponse'⟩ := List.mem_filterMap.mp hp'
    obtain ⟨k, hk, rfl⟩ := Option.map_eq_some_iff.mp hresponse
    obtain ⟨k', hk', rfl⟩ := Option.map_eq_some_iff.mp hresponse'
    obtain rfl : k = k' := hid
    have hnull : r.slaveId ≠ none := Option.ne_none_iff_exists'.mpr ⟨k, hk⟩
    have hslave : r.slaveId = r'.slaveId := hk.trans hk'.symm
    obtain ⟨hname, hseries, hdate⟩ := record_slave hdb hr hr' hnull hslave
    rw [hname, hseries, hdate, ((h r hr r' hr').2 ⟨hnull, hslave⟩).1]
  · intro p hp p' hp' hid
    obtain ⟨r, hr, rfl, hresponse⟩ := mem_slavesOn.mp hp
    obtain ⟨r', hr', hcrime, hresponse'⟩ := mem_slavesOn.mp hp'
    obtain ⟨k, hk, rfl⟩ := Option.map_eq_some_iff.mp hresponse
    obtain ⟨k', hk', rfl⟩ := Option.map_eq_some_iff.mp hresponse'
    obtain rfl : k = k' := hid
    have hnull : r.slaveId ≠ none := Option.ne_none_iff_exists'.mpr ⟨k, hk⟩
    rw [((h r hr r' hr').2 ⟨hnull, hk.trans hk'.symm⟩).2 hcrime.symm]

theorem consistent_iff (hdb : Constraints db) :
    Consistent (getCasesWithPolicemenRecords db details series) ↔
      FlagsAgree (getCasesWithPolicemenRecords db details series) :=
  ⟨Consistent.flagsAgree, FlagsAgree.consistent hdb⟩

/-- For every order in which the database can return the records of a major: the
overview is complete and says the same exactly when the records agree in what goes
with an assignment. -/
theorem case_overview_iff (db : Db) (hdb : Constraints db) (details : Details) (series : String) :
    ((∀ l, l.Perm (getCasesWithPolicemenRecords db details series) →
        Complete l (getCasesWithMinPolicemanAndUniqueFull l)) ∧
      ∀ l l', l.Perm (getCasesWithPolicemenRecords db details series) →
        l'.Perm (getCasesWithPolicemenRecords db details series) →
        (getCasesWithMinPolicemanAndUniqueFull l).contents =
          (getCasesWithMinPolicemanAndUniqueFull l').contents) ↔
      FlagsAgree (getCasesWithPolicemenRecords db details series) :=
  overview_correct_iff.trans (consistent_iff hdb)

/-- Two majors of one precinct, two cases of the first, and a minor whom the first
assigned to the one and the second to the other. -/
def sharedMinor : Db where
  precinct := [⟨1⟩]
  person := [⟨1, some "Jean"⟩, ⟨2, some "Judit"⟩, ⟨3, some "Kim"⟩]
  policeman := [⟨1, .MAJOR, "A1", 1, 1⟩, ⟨2, .MAJOR, "A2", 2, 1⟩, ⟨3, .MINOR, "A3", 3, 1⟩]
  district := [⟨1, "Martinaise"⟩]
  precinctDistrict := [⟨1, 1⟩]
  crime := [⟨1, some 1⟩, ⟨2, some 1⟩]
  crimeCase := [⟨1, .ON_WORK, 1⟩, ⟨2, .ON_WORK, 1⟩]
  policemanCase := [⟨some 1, 3, 1, .ASSIGNED⟩, ⟨some 2, 3, 2, .ASSIGNED⟩]
  note := []
  personRelevantToCase := []
  nextNoteId := 1

def noDetails : Details := ⟨fun _ => none, fun _ => ⟨2000, 1, 1⟩⟩

theorem sharedMinor_constraints : Constraints sharedMinor := by
  constructor <;> decide

/-- The first major has put two minors on his cases, one of them on both. -/
def ownMinors : Db :=
  { sharedMinor with
    person := sharedMinor.person ++ [⟨4, some "Titus"⟩]
    policeman := sharedMinor.policeman ++ [⟨4, .MINOR, "A4", 4, 1⟩]
    policemanCase :=
      [⟨some 1, 3, 1, .ASSIGNED⟩, ⟨some 1, 4, 1, .ASSIGNED⟩, ⟨some 1, 3, 2, .REMOVED⟩] }

theorem ownMinors_constraints : Constraints ownMinors := by
  constructor <;> decide

/-- The three records agree. -/
theorem case_overview_own :
    (∀ l, l.Perm (getCasesWithPolicemenRecords ownMinors noDetails "A1") →
      Complete l (getCasesWithMinPolicemanAndUniqueFull l)) ∧
    ∀ l l', l.Perm (getCasesWithPolicemenRecords ownMinors noDetails "A1") →
      l'.Perm (getCasesWithPolicemenRecords ownMinors noDetails "A1") →
      (getCasesWithMinPolicemanAndUniqueFull l).contents =
        (getCasesWithMinPolicemanAndUniqueFull l').contents :=
  (case_overview_iff ownMinors ownMinors_constraints noDetails "A1").mpr (by decide)

/-- For the first major the minor is his own or not, as the order of the two
records has it. -/
theorem ownership_by_order : Constraints sharedMinor ∧
    ¬ ∀ l l', l.Perm (getCasesWithPolicemenRecords sharedMinor noDetails "A1") →
      l'.Perm (getCasesWithPolicemenRecords sharedMinor noDetails "A1") →
      (getCasesWithMinPolicemanAndUniqueFull l).contents =
        (getCasesWithMinPolicemanAndUniqueFull l').contents := by
  refine ⟨sharedMinor_constraints, fun h => ?_⟩
  have hsame := congrArg Prod.snd (h (getCasesWithPolicemenRecords sharedMinor noDetails "A1")
    (getCasesWithPolicemenRecords sharedMinor noDetails "A1").reverse (List.Perm.refl _)
    (List.reverse_perm _))
  have hmem : (⟨3, some "Kim", some "A3", some true, some ⟨2000, 1, 1⟩⟩ : SlaveResponse) ∈
      (getCasesWithMinPolicemanAndUniqueFull
        (getCasesWithPolicemenRecords sharedMinor noDetails "A1")).uniquePolicemen := by decide
  have hnot : (⟨3, some "Kim", some "A3", some true, some ⟨2000, 1, 1⟩⟩ : SlaveResponse) ∉
      (getCasesWithMinPolicemanAndUniqueFull
        (getCasesWithPolicemenRecords sharedMinor noDetails "A1").reverse).uniquePolicemen := by decide
  exact hnot (Set.ext_iff.mp hsame _ |>.mp hmem)

end Itmo.Police
