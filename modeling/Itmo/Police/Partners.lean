import Itmo.Police.Lists

/-! The partners of a policeman in a case. The first record of his own decides whether he is
answered, and is taken out of the list. So the list is that of the others exactly if he is on the
case once, which is also what the trigger of a note demands of him. -/

namespace Itmo.Police

open Lib

section Definitions

structure CaseSlavesQueryProjection where
  caseExists : Bool
  id : Option ℤ
  name : Option String
  series : Option String
  dateOfIssue : Option LocalDate
  onCaseStatus : Option PolicemanCaseStatus
  deriving DecidableEq, Repr

/-- The name is that of the person the policeman is, which is joined to the row. -/
def PolicemanRepository.caseSlavesQuery (db : Db) (dateOfIssue : ℤ → LocalDate) (crimeId : ℤ) :
    List CaseSlavesQueryProjection :=
  (db.crime.filter (·.id = crimeId)).flatMap fun cr =>
    (leftJoin db.crimeCase (·.fkCrime = cr.id)).flatMap fun crC =>
      (leftJoin db.policemanCase (·.fkCrime = cr.id)).flatMap fun pC =>
        (leftJoin db.policeman fun sl => pC.map (·.fkPolicemanMinor) = some sl.id).flatMap fun sl =>
          (db.person.filter fun per => sl.map (·.fkPerson) = some per.id).map fun per => {
            caseExists := crC.isSome
            id := sl.map (·.id)
            name := per.name
            series := sl.map (·.series)
            dateOfIssue := sl.map fun sl => dateOfIssue sl.id
            onCaseStatus := pC.map (·.status) }

structure CasePolicemanResponse where
  id : Option ℤ
  name : Option String
  series : Option String
  seriesDateOfIssue : Option LocalDate
  onCaseStatus : Option String
  deriving DecidableEq, Repr

def CasePolicemanResponse.init (projection : CaseSlavesQueryProjection) : CasePolicemanResponse :=
  ⟨projection.id, projection.name, projection.series, projection.dateOfIssue,
    projection.onCaseStatus.map (·.toLowerCase)⟩

inductive CasePartnersResponse where
  | OK (okResponse : List CasePolicemanResponse)
  | NOT_ASSIGNED
  | REMOVED
  | NO_CRIME
  deriving DecidableEq, Repr

namespace PolicemanService

/-- The loop over the records, with those it has passed by. A record of nobody stops it. -/
def findSelf (series : String) (passed : List CaseSlavesQueryProjection) :
    List CaseSlavesQueryProjection → Except Failure CasePartnersResponse
  | [] => .ok .NOT_ASSIGNED
  | current :: rest =>
    match current.series with
    | none => .error .nullPointer
    | some s =>
      if s = series then
        if current.onCaseStatus = some .REMOVED then .ok .REMOVED
        else .ok (.OK ((passed ++ rest).map CasePolicemanResponse.init))
      else findSelf series (passed ++ [current]) rest

/-- The records are those of the query, in the order in which the database returns them. -/
def getCasePartners (projectionsList : List CaseSlavesQueryProjection) (series : String) :
    Except Failure CasePartnersResponse :=
  match projectionsList with
  | [] => .ok .NO_CRIME
  | first :: _ => if !first.caseExists then .ok .NO_CRIME else findSelf series [] projectionsList

end PolicemanService

def getCasePartners (projectionsList : List CaseSlavesQueryProjection) (session : Session) :
    Except Failure (Except HttpStatus (List CasePolicemanResponse)) :=
  if session.role = .MINOR then do
    match ← PolicemanService.getCasePartners projectionsList session.series with
    | .OK okResponse => return .ok okResponse
    | .NOT_ASSIGNED | .REMOVED => return .error .FORBIDDEN
    | .NO_CRIME => return .error .NOT_FOUND
  else return .error .FORBIDDEN

/-- The assignments to a crime of the other policemen. -/
def partnersOf (db : Db) (crime minor : ℤ) : List PolicemanCase :=
  db.policemanCase.filter fun a => a.fkCrime = crime ∧ a.fkPolicemanMinor ≠ minor

end Definitions

/-! ### The records -/

section Records

variable {db : Db} {p : Policeman} {dateOfIssue : ℤ → LocalDate} {crime : ℤ}

/-- The columns of a record that come from the assignment. -/
def CaseSlavesQueryProjection.assigned (r : CaseSlavesQueryProjection) :
    Option ℤ × Option PolicemanCaseStatus := (r.id, r.onCaseStatus)

def PolicemanCase.assigned (a : PolicemanCase) : Option ℤ × Option PolicemanCaseStatus :=
  (some a.fkPolicemanMinor, some a.status)

/-- There is one record for each assignment to the crime. -/
theorem caseSlavesQuery_map (hdb : Kept db) (dateOfIssue : ℤ → LocalDate) (crime : ℤ) :
    (PolicemanRepository.caseSlavesQuery db dateOfIssue crime).map (·.assigned) =
      (db.policemanCase.filter (·.fkCrime = crime)).map (·.assigned) := by
  by_cases hcrime : ∃ cr ∈ db.crime, cr.id = crime
  · obtain ⟨cr, hcr, rfl⟩ := hcrime
    rw [PolicemanRepository.caseSlavesQuery, filter_key_eq hdb.constraints.crime hcr,
      List.flatMap_singleton, leftJoin_key hdb.constraints.crimeCase (k := cr.id)
        fun c hc => of_decide_eq_true hc, List.flatMap_singleton, List.map_flatMap, leftJoin]
    have hmem : ∀ a ∈ db.policemanCase.filter (·.fkCrime = cr.id), a ∈ db.policemanCase :=
      fun a ha => (List.mem_filter.mp ha).1
    cases hrows : db.policemanCase.filter (·.fkCrime = cr.id) with
    | nil => simp [leftJoin]
    | cons a rows =>
      rw [hrows] at hmem
      rw [List.flatMap_map, List.map_eq_flatMap]
      refine List.flatMap_congr fun a ha => ?_
      obtain ⟨sl, hsl, hid⟩ := hdb.constraints.assignmentMinor a (hmem a ha)
      obtain ⟨per, hper, hperson⟩ := hdb.constraints.policemanPerson sl hsl
      have hminor : (db.policeman.filter fun q =>
          (some a).map (·.fkPolicemanMinor) = some q.id) = [sl] := by
        rw [← filter_key_eq hdb.constraints.policeman hsl]
        exact List.filter_congr fun q _ => decide_eq_decide.mpr (by simp [hid, eq_comm])
      have hname : (db.person.filter fun q => (some sl).map (·.fkPerson) = some q.id) = [per] := by
        rw [← filter_key_eq hdb.constraints.person hper]
        exact List.filter_congr fun q _ => decide_eq_decide.mpr (by simp [hperson, eq_comm])
      rw [leftJoin_eq_some hminor, List.flatMap_singleton, hname]
      simp [CaseSlavesQueryProjection.assigned, PolicemanCase.assigned, hid]
  · rw [not_exists] at hcrime
    have hnone : db.policemanCase.filter (·.fkCrime = crime) = [] := by
      refine filter_key_eq_nil fun a ha hid => ?_
      obtain ⟨cr, hcr, hcrid⟩ := hdb.constraints.assignmentCrime a ha
      exact hcrime cr ⟨hcr, hcrid.trans hid⟩
    rw [PolicemanRepository.caseSlavesQuery, filter_key_eq_nil fun cr hcr hid => hcrime cr ⟨hcr, hid⟩,
      hnone]
    rfl

/-- Each record is of a policeman and says whether there is a case. -/
theorem caseSlavesQuery_mem {r : CaseSlavesQueryProjection}
    (hr : r ∈ PolicemanRepository.caseSlavesQuery db dateOfIssue crime) :
    (r.caseExists = true ↔ ∃ c ∈ db.crimeCase, c.fkCrime = crime) ∧
      ∃ sl ∈ db.policeman, r.id = some sl.id ∧ r.series = some sl.series := by
  simp only [PolicemanRepository.caseSlavesQuery, List.mem_flatMap, List.mem_map, List.mem_filter,
    decide_eq_true_eq] at hr
  obtain ⟨cr, ⟨-, rfl⟩, crC, hcrC, pC, -, sl, hsl, per, ⟨-, hper⟩, rfl⟩ := hr
  refine ⟨?_, ?_⟩
  · cases crC with
    | none =>
      have hnone := none_mem_leftJoin hcrC
      simpa using hnone
    | some c =>
      obtain ⟨hc, hid⟩ := some_mem_leftJoin hcrC
      simpa using ⟨c, hc, of_decide_eq_true hid⟩
  · cases sl with
    | none => cases hper
    | some sl => exact ⟨sl, (some_mem_leftJoin hsl).1, rfl, rfl⟩

end Records

/-! ### The answer -/

section Answer

variable {db : Db} {p : Policeman} {dateOfIssue : ℤ → LocalDate} {crime : ℤ}

/-- The first record with the series is taken out, if it is not of one who was removed. -/
theorem findSelf_spec (series : String) {records : List CaseSlavesQueryProjection}
    (hseries : ∀ r ∈ records, ∃ s, r.series = some s) (passed : List CaseSlavesQueryProjection) :
    (PolicemanService.findSelf series passed records = .ok .NOT_ASSIGNED ∧
      ∀ r ∈ records, r.series ≠ some series) ∨
    ∃ before own after, records = before ++ own :: after ∧ own.series = some series ∧
      PolicemanService.findSelf series passed records =
        .ok (if own.onCaseStatus = some .REMOVED then .REMOVED
          else .OK ((passed ++ before ++ after).map CasePolicemanResponse.init)) := by
  induction records generalizing passed with
  | nil =>
    refine Or.inl ⟨rfl, fun r hr => ?_⟩
    cases hr
  | cons r records ih =>
    rw [List.forall_mem_cons] at hseries
    obtain ⟨⟨s, hs⟩, hrest⟩ := hseries
    by_cases hself : s = series
    · refine Or.inr ⟨[], r, records, rfl, hself ▸ hs, ?_⟩
      rw [PolicemanService.findSelf, hs]
      simp only [if_pos hself, List.append_nil]
      split_ifs <;> rfl
    · have hturn : PolicemanService.findSelf series passed (r :: records) =
          PolicemanService.findSelf series (passed ++ [r]) records := by
        rw [PolicemanService.findSelf, hs]
        exact if_neg hself
      rw [hturn]
      rcases ih hrest (passed ++ [r]) with ⟨hnone, hother⟩ | ⟨before, own, after, rfl, hown, hok⟩
      · refine Or.inl ⟨hnone, List.forall_mem_cons.mpr ⟨?_, hother⟩⟩
        rw [hs, ne_eq, Option.some.injEq]
        exact hself
      · refine Or.inr ⟨r :: before, own, after, rfl, hown, ?_⟩
        rw [hok, List.append_assoc passed [r], List.singleton_append]

/-- The assignments to the crime are his own and those of the others. -/
theorem records_perm (hdb : Kept db) {records : List CaseSlavesQueryProjection}
    (hrecords : records.Perm (PolicemanRepository.caseSlavesQuery db dateOfIssue crime)) :
    (records.map (·.assigned)).Perm ((onCase db crime p.id).map (·.assigned) ++
      (partnersOf db crime p.id).map (·.assigned)) := by
  have hsplit : (onCase db crime p.id ++ partnersOf db crime p.id).Perm
      (db.policemanCase.filter (·.fkCrime = crime)) := by
    refine List.Perm.trans (List.Perm.of_eq ?_)
      (List.filter_append_perm (fun a => decide (a.fkPolicemanMinor = p.id)) _)
    rw [List.filter_filter, List.filter_filter, onCase, partnersOf]
    congr 1
    · exact List.filter_congr fun a _ => by simp [and_comm]
    · exact List.filter_congr fun a _ => by simp [Bool.and_comm]
  rw [← List.map_append]
  refine (hrecords.map _).trans ?_
  rw [caseSlavesQuery_map hdb]
  exact (hsplit.map _).symm

/-- The series tells the policeman. -/
theorem own_iff (hdb : Kept db) (hp : p ∈ db.policeman) {r : CaseSlavesQueryProjection}
    (hr : r ∈ PolicemanRepository.caseSlavesQuery db dateOfIssue crime) :
    r.series = some p.series ↔ r.id = some p.id := by
  obtain ⟨-, sl, hsl, hid, hseries⟩ := caseSlavesQuery_mem hr
  rw [hid, hseries, Option.some.injEq, Option.some.injEq]
  constructor
  · intro h
    rw [List.inj_on_of_nodup_map hdb.series hsl hp h]
  · intro h
    rw [List.inj_on_of_nodup_map hdb.constraints.policeman hsl hp h]

/-- Where the loop does not answer there is no case, or there are no records to find him in. -/
theorem getCasePartners_spec (series : String) {records : List CaseSlavesQueryProjection}
    (hrecords : records.Perm (PolicemanRepository.caseSlavesQuery db dateOfIssue crime)) :
    PolicemanService.getCasePartners records series = .ok .NO_CRIME ∧
        (records = [] ∨ ¬ ∃ c ∈ db.crimeCase, c.fkCrime = crime) ∨
      PolicemanService.getCasePartners records series =
          PolicemanService.findSelf series [] records ∧
        ∃ c ∈ db.crimeCase, c.fkCrime = crime := by
  cases records with
  | nil => exact Or.inl ⟨rfl, Or.inl rfl⟩
  | cons first rest =>
    obtain ⟨hexists, -⟩ := caseSlavesQuery_mem (hrecords.mem_iff.mp List.mem_cons_self)
    by_cases hcase : ∃ c ∈ db.crimeCase, c.fkCrime = crime
    · refine Or.inr ⟨?_, hcase⟩
      rw [PolicemanService.getCasePartners, hexists.mpr hcase]
      rfl
    · refine Or.inl ⟨?_, Or.inr hcase⟩
      rw [PolicemanService.getCasePartners, Bool.eq_false_iff.mpr (mt hexists.mp hcase)]
      rfl

/-- Either he is not on a case, and gets no list, or one of his own records is taken out. -/
theorem service_cases (hdb : Kept db) (hp : p ∈ db.policeman)
    {records : List CaseSlavesQueryProjection}
    (hrecords : records.Perm (PolicemanRepository.caseSlavesQuery db dateOfIssue crime)) :
    (∃ response, PolicemanService.getCasePartners records p.series = .ok response ∧
      (∀ partners, response ≠ .OK partners) ∧
        (onCase db crime p.id = [] ∨ ¬ ∃ c ∈ db.crimeCase, c.fkCrime = crime)) ∨
    (∃ c ∈ db.crimeCase, c.fkCrime = crime) ∧
      ∃ (own : CaseSlavesQueryProjection) (others : List CaseSlavesQueryProjection),
        own.id = some p.id ∧
        (own.assigned :: others.map (·.assigned)).Perm ((onCase db crime p.id).map (·.assigned) ++
          (partnersOf db crime p.id).map (·.assigned)) ∧
        PolicemanService.getCasePartners records p.series =
          .ok (if own.onCaseStatus = some .REMOVED then .REMOVED
            else .OK (others.map CasePolicemanResponse.init)) := by
  have hperm := records_perm (p := p) hdb hrecords
  have hmem : ∀ r ∈ records, r ∈ PolicemanRepository.caseSlavesQuery db dateOfIssue crime :=
    fun r hr => hrecords.mem_iff.mp hr
  have hseries : ∀ r ∈ records, ∃ s, r.series = some s := by
    intro r hr
    obtain ⟨-, sl, -, -, hs⟩ := caseSlavesQuery_mem (hmem r hr)
    exact ⟨sl.series, hs⟩
  have hlisted : (∀ r ∈ records, r.series ≠ some p.series) → onCase db crime p.id = [] := by
    intro hother
    refine List.eq_nil_iff_forall_not_mem.mpr fun a ha => ?_
    have hassigned : a.assigned ∈ records.map (·.assigned) :=
      hperm.mem_iff.mpr (List.mem_append_left _ (List.mem_map_of_mem ha))
    obtain ⟨r, hr, hra⟩ := List.mem_map.mp hassigned
    have hid : a.fkPolicemanMinor = p.id := (of_decide_eq_true (List.mem_filter.mp ha).2).2
    refine hother r hr ((own_iff hdb hp (hmem r hr)).mpr ?_)
    exact (congrArg Prod.fst hra).trans (congrArg some hid)
  rcases getCasePartners_spec p.series hrecords with ⟨hservice, hnone⟩ | ⟨hservice, hcase⟩
  · refine Or.inl ⟨_, hservice, ?_, hnone.imp_left ?_⟩
    · rintro partners ⟨⟩
    · rintro rfl
      exact hlisted (List.forall_mem_nil _)
  rcases findSelf_spec p.series hseries [] with
    ⟨hfind, hother⟩ | ⟨before, own, after, rfl, hown, hfind⟩
  · refine Or.inl ⟨_, hservice.trans hfind, ?_, Or.inl (hlisted hother)⟩
    rintro partners ⟨⟩
  · refine Or.inr ⟨hcase, own, before ++ after, ?_, ?_, hservice.trans hfind⟩
    · exact (own_iff hdb hp (hmem own (List.mem_append_right _ List.mem_cons_self))).mp hown
    · rw [List.map_append]
      rw [List.map_append, List.map_cons] at hperm
      exact List.perm_middle.symm.trans hperm

theorem getCasePartners_ok {records : List CaseSlavesQueryProjection} (session : Session)
    {response : CasePartnersResponse} (partners : List CasePolicemanResponse)
    (hservice : PolicemanService.getCasePartners records session.series = .ok response) :
    getCasePartners records session = .ok (.ok partners) ↔
      session.role = .MINOR ∧ response = .OK partners := by
  rw [getCasePartners, hservice]
  split_ifs with hrole
  · cases response <;> simp [hrole, bind, Except.bind, pure, Except.pure]
  · simp [hrole, pure, Except.pure]

/-- What is shown of an assignment. -/
def shown (assigned : Option ℤ × Option PolicemanCaseStatus) : Option ℤ × Option String :=
  (assigned.1, assigned.2.map (·.toLowerCase))

theorem shown_injective : Function.Injective shown := by
  rintro a b h
  obtain ⟨hid, hstatus⟩ := Prod.mk.inj h
  exact Prod.ext hid (Option.map_injective toLowerCase_injective hstatus)

/-- Once a record of his own is taken out, the others are left if it was the only one. -/
theorem shown_perm_iff {own : CaseSlavesQueryProjection} {others : List CaseSlavesQueryProjection}
    (hperm : (own.assigned :: others.map (·.assigned)).Perm
      ((onCase db crime p.id).map (·.assigned) ++ (partnersOf db crime p.id).map (·.assigned))) :
    ((others.map CasePolicemanResponse.init).map fun r => (r.id, r.onCaseStatus)).Perm
        ((partnersOf db crime p.id).map fun a =>
          (some a.fkPolicemanMinor, some a.status.toLowerCase)) ↔
      (onCase db crime p.id).map (·.assigned) = [own.assigned] := by
  have hothers : (others.map CasePolicemanResponse.init).map (fun r => (r.id, r.onCaseStatus)) =
      (others.map (·.assigned)).map shown := by
    rw [List.map_map, List.map_map]
    rfl
  have hpartners : (partnersOf db crime p.id).map (fun a =>
      (some a.fkPolicemanMinor, some a.status.toLowerCase)) =
      ((partnersOf db crime p.id).map (·.assigned)).map shown := by
    rw [List.map_map]
    rfl
  rw [hothers, hpartners, List.map_perm_map_iff shown_injective, ← List.perm_cons own.assigned]
  refine Iff.trans (Iff.trans ⟨hperm.symm.trans, hperm.trans⟩ ?_) List.perm_singleton
  exact @List.perm_append_right_iff _ _ [own.assigned] _

/-- The record with his id is that of an assignment of his. -/
theorem exists_own {own : CaseSlavesQueryProjection} {others : List CaseSlavesQueryProjection}
    (hid : own.id = some p.id) (hperm : (own.assigned :: others.map (·.assigned)).Perm
      ((onCase db crime p.id).map (·.assigned) ++ (partnersOf db crime p.id).map (·.assigned))) :
    ∃ a ∈ onCase db crime p.id, a.assigned = own.assigned := by
  rcases List.mem_append.mp (hperm.mem_iff.mp List.mem_cons_self) with hmem | hmem
  · exact List.mem_map.mp hmem
  · obtain ⟨a, ha, hown⟩ := List.mem_map.mp hmem
    have hother : a.fkPolicemanMinor ≠ p.id := (of_decide_eq_true (List.mem_filter.mp ha).2).2
    exact absurd (Option.some.inj ((congrArg Prod.fst hown).trans hid)) hother

/-- A policeman is shown exactly the assignments of the others if the case exists and he is on it
by one assignment, which stands. -/
theorem partners_iff (hdb : Kept db) (hp : p ∈ db.policeman)
    {records : List CaseSlavesQueryProjection}
    (hrecords : records.Perm (PolicemanRepository.caseSlavesQuery db dateOfIssue crime)) :
    (∃ partners, getCasePartners records p.session = .ok (.ok partners) ∧
      (partners.map fun r => (r.id, r.onCaseStatus)).Perm
        ((partnersOf db crime p.id).map fun a =>
          (some a.fkPolicemanMinor, some a.status.toLowerCase))) ↔
    p.rank = .MINOR ∧ (∃ c ∈ db.crimeCase, c.fkCrime = crime) ∧
      ∃ a, onCase db crime p.id = [a] ∧ a.status = .ASSIGNED := by
  rcases service_cases hdb hp hrecords with
    ⟨response, hservice, hrefused, hnone⟩ | ⟨hcase, own, others, hid, hperm, hservice⟩
  · constructor
    · rintro ⟨partners, hanswer, -⟩
      exact absurd ((getCasePartners_ok p.session partners hservice).mp hanswer).2
        (hrefused partners)
    · rintro ⟨-, hcase, a, ha, -⟩
      rcases hnone with hnone | hnone
      · rw [hnone] at ha
        cases ha
      · exact absurd hcase hnone
  · obtain ⟨a, ha, hown⟩ := exists_own hid hperm
    have hstatus : own.onCaseStatus = some a.status := (congrArg Prod.snd hown).symm
    simp only [getCasePartners_ok p.session _ hservice, p.session_role]
    constructor
    · rintro ⟨partners, ⟨hrank, hresponse⟩, hshown⟩
      split_ifs at hresponse with hremoved
      cases hresponse
      rw [shown_perm_iff hperm] at hshown
      obtain ⟨a', ha', -⟩ := List.map_eq_singleton_iff.mp hshown
      rw [ha', List.mem_singleton] at ha
      refine ⟨hrank, hcase, a, by rw [ha', ha], ?_⟩
      rw [hstatus] at hremoved
      cases hassigned : a.status with
      | ASSIGNED => rfl
      | REMOVED => exact absurd (congrArg some hassigned) hremoved
    · rintro ⟨hrank, -, a', ha', hassigned⟩
      obtain rfl : a = a' := List.mem_singleton.mp (ha' ▸ ha)
      refine ⟨_, ⟨hrank, if_neg ?_⟩, (shown_perm_iff hperm).mpr ?_⟩
      · rw [hstatus, hassigned]
        decide
      · rw [ha', List.map_singleton, hown]

end Answer

/-! ### Partners and notes -/

/-- A minor is shown exactly the other assignments of a case on work if he can write notes
about it. -/
theorem partners_listed_iff_noted {c : Config} (h : Kept c.db) (es : List Event)
    (dateOfIssue : ℤ → LocalDate) :
    let db := (run interleavedStep c es).db
    ∀ p ∈ db.policeman, ∀ crime, ∀ records,
      records.Perm (PolicemanRepository.caseSlavesQuery db dateOfIssue crime) →
      ∀ text : Option String,
        (handle db p.session (.createCrimeNote (some crime) text)).1 = .ok .CREATED ↔
          text ≠ none ∧ (∃ c ∈ db.crimeCase, c.fkCrime = crime ∧ c.state = .ON_WORK) ∧
            ∃ partners, getCasePartners records p.session = .ok (.ok partners) ∧
              (partners.map fun r => (r.id, r.onCaseStatus)).Perm
                ((partnersOf db crime p.id).map fun a =>
                  (some a.fkPolicemanMinor, some a.status.toLowerCase)) := by
  intro db p hp crime records hrecords text
  have hdb : Kept db := run_kept h es
  rw [note_created_iff hdb hp, partners_iff hdb hp hrecords, assignments_eq_onCase hdb hp]
  constructor
  · rintro ⟨hrank, htext, ⟨c, hc, hcrime, hstate⟩, hassigned⟩
    exact ⟨htext, ⟨c, hc, hcrime, hstate⟩, hrank, ⟨c, hc, hcrime⟩, hassigned⟩
  · rintro ⟨htext, hwork, hrank, -, hassigned⟩
    exact ⟨hrank, htext, hwork, hassigned⟩

/-- Of a frozen case too he is shown who is on it, but he cannot write notes. -/
theorem partners_listed_iff_noted_frozen :
    let db := (run interleavedStep ⟨assignedCase, []⟩ frozenBy).db
    (handle db ⟨"JUD41", .MINOR⟩ (.createCrimeNote (some 1) (some "no witnesses"))).1 =
        .ok .CREATED ↔
      some "no witnesses" ≠ none ∧
        (∃ c ∈ db.crimeCase, c.fkCrime = 1 ∧ c.state = .ON_WORK) ∧
        ∃ partners, getCasePartners
            (PolicemanRepository.caseSlavesQuery db (fun _ => ⟨2000, 1, 1⟩) 1) ⟨"JUD41", .MINOR⟩ =
              .ok (.ok partners) ∧
          (partners.map fun r => (r.id, r.onCaseStatus)).Perm
            ((partnersOf db 1 3).map fun a =>
              (some a.fkPolicemanMinor, some a.status.toLowerCase)) :=
  partners_listed_iff_noted (c := ⟨assignedCase, []⟩) assignedCase_kept frozenBy
    (fun _ => ⟨2000, 1, 1⟩) ⟨3, .MINOR, "JUD41", 9, 41⟩ (by decide) 1 _ (List.Perm.refl _)
    (some "no witnesses")

end Itmo.Police
