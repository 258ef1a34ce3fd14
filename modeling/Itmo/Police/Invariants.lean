import Itmo.Police.CaseCreation
import Itmo.Police.Statements

/-! What the triggers are to keep true, each of them by looking at one table while
the statement may be on another. A reference and the row it leads to move together,
so what a row needs of the rows it refers to is asked of their new versions. -/

namespace Itmo.Police

open Lib

/-! ### The invariants -/

section Invariants

variable (db : Db)

/-- Every policeman refers to a person with a name. -/
def Named : Prop := ∀ p ∈ db.policeman, ∃ q ∈ db.person, q.id = p.fkPerson ∧ q.name ≠ none

/-- The policeman may open a case on the crime: a major, and the crime happened in
a district of his. -/
def MayOpen (p : Policeman) (cr : Crime) : Prop :=
  p.rank = .MAJOR ∧ ∃ d, cr.fkDistrict = some d ∧ WorksIn db p d

/-- Every case was opened by somebody who may. -/
def Opened : Prop := ∀ c ∈ db.crimeCase, ∃ p ∈ db.policeman, p.id = c.fkPolicemanMajor ∧
  ∃ cr ∈ db.crime, cr.id = c.fkCrime ∧ MayOpen db p cr

/-- The major and the crime of every case. -/
def EveryCase (P : Policeman → Crime → Prop) : Prop := ∀ c ∈ db.crimeCase,
  ∀ p ∈ db.policeman, p.id = c.fkPolicemanMajor → ∀ cr ∈ db.crime, cr.id = c.fkCrime → P p cr

/-- Every assignment joins a minor and, if it names one, a major from his precinct. -/
def Joined : Prop := ∀ a ∈ db.policemanCase,
  ∃ m ∈ db.policeman, m.id = a.fkPolicemanMinor ∧ m.rank = .MINOR ∧
    ∀ j, a.fkPolicemanMajor = some j →
      ∃ p ∈ db.policeman, p.id = j ∧ p.rank = .MAJOR ∧ p.fkPrecinct = m.fkPrecinct

/-- An assignment, a note or a relevant person belongs to the crime. -/
def Dependent (crime : ℤ) : Prop :=
  (∃ r ∈ db.policemanCase, r.fkCrime = crime) ∨ (∃ r ∈ db.note, r.fkCrime = crime) ∨
    ∃ r ∈ db.personRelevantToCase, r.fkCrime = crime

/-- Such a crime has a case. -/
def HasCase : Prop := ∀ crime, Dependent db crime → ∃ c ∈ db.crimeCase, c.fkCrime = crime

/-- Nobody was recorded as a relevant person by himself. -/
def NotSelf : Prop := ∀ r ∈ db.personRelevantToCase, ∀ p ∈ db.policeman, p.id = r.fkPoliceman →
  p.fkPerson ≠ r.fkPerson

instance : Decidable (Named db) :=
  inferInstanceAs (Decidable (∀ p ∈ db.policeman, ∃ q ∈ db.person,
    q.id = p.fkPerson ∧ q.name ≠ none))

instance : Decidable (NotSelf db) :=
  inferInstanceAs (Decidable (∀ r ∈ db.personRelevantToCase, ∀ p ∈ db.policeman,
    p.id = r.fkPoliceman → p.fkPerson ≠ r.fkPerson))

structure Invariants : Prop where
  named : Named db
  opened : Opened db
  joined : Joined db
  hasCase : HasCase db
  notSelf : NotSelf db

end Invariants

variable {e : Effects} {db : Db}

/-! ### What the new versions have to satisfy -/

section Versions

variable (e db)

def NamedVersions : Prop := ∀ p ∈ db.policeman, ∀ q ∈ db.person, q.id = p.fkPerson →
  ∀ p' ∈ e.policeman.version p, ∀ q' ∈ e.person.version q, q'.name ≠ none

def OpenedVersions : Prop := EveryCase db fun p cr =>
  ∀ p' ∈ e.policeman.version p, ∀ cr' ∈ e.crime.version cr, MayOpen (e.apply db) p' cr'

def JoinedVersions : Prop := ∀ a ∈ db.policemanCase, (e.toCrime db a.fkCrime).isSome →
  ∀ m ∈ db.policeman, m.id = a.fkPolicemanMinor → ∀ m' ∈ e.policeman.version m,
    m'.rank = .MINOR ∧ ∀ p ∈ db.policeman, a.fkPolicemanMajor = some p.id →
      ∀ p' ∈ e.policeman.version p, p'.rank = .MAJOR ∧ p'.fkPrecinct = m'.fkPrecinct

def NotSelfVersions : Prop := ∀ r ∈ db.personRelevantToCase, (e.toCrime db r.fkCrime).isSome →
  ∀ p ∈ db.policeman, p.id = r.fkPoliceman → ∀ p' ∈ e.policeman.version p,
    ∀ person ∈ e.toPerson db r.fkPerson, p'.fkPerson ≠ person

end Versions

theorem followPoliceman_eq_some {p p' : Policeman} : e.followPoliceman db p = some p' ↔
    ∃ person precinct, e.toPerson db p.fkPerson = some person ∧
      e.toPrecinct db p.fkPrecinct = some precinct ∧
      p' = { p with fkPerson := person, fkPrecinct := precinct } := by
  simp only [Effects.followPoliceman, Option.bind_eq_some_iff, Option.map_eq_some_iff]
  constructor
  · rintro ⟨person, hperson, precinct, hprecinct, rfl⟩
    exact ⟨person, precinct, hperson, hprecinct, rfl⟩
  · rintro ⟨person, precinct, hperson, hprecinct, rfl⟩
    exact ⟨person, hperson, precinct, hprecinct, rfl⟩

/-- The person of a policeman moves with him. -/
theorem named_iff (hdb : Constraints db) (hdb' : Constraints (e.apply db))
    (h : e.policeman = Effect.none.cascade (e.followPoliceman db)) :
    Named (e.apply db) ↔ NamedVersions e db := by
  have hversion : e.policeman.version = e.followPoliceman db := by rw [h]; rfl
  constructor
  · intro hnamed p hp q hq hid p' hp' q' hq'
    obtain ⟨q'', hq'', hid', hname⟩ := hnamed p' (Effect.version_mem_rows hp hp')
    rw [Option.mem_def, hversion, followPoliceman_eq_some] at hp'
    obtain ⟨person, precinct, hperson, -, rfl⟩ := hp'
    rw [← hid, Effects.toPerson, Effect.follow_eq_some hdb.person hq] at hperson
    obtain ⟨q₁, hq₁, rfl⟩ := hperson
    obtain rfl := Option.some.inj (hq₁.symm.trans hq')
    rwa [← List.inj_on_of_nodup_map hdb'.person hq'' (Effect.version_mem_rows hq hq') hid']
  · intro hversions p' hp'
    have hmem : p' ∈ e.policeman.rows db.policeman := hp'
    rw [h, Effect.mem_rows_cascade] at hmem
    obtain ⟨p, hp, hfollow⟩ := hmem
    have hp₁ : e.policeman.version p = some p' := by rw [hversion, hfollow]
    obtain ⟨q, hq, hid⟩ := hdb.policemanPerson p hp
    obtain ⟨person, precinct, hperson, -, rfl⟩ := followPoliceman_eq_some.mp hfollow
    rw [← hid, Effects.toPerson, Effect.follow_eq_some hdb.person hq] at hperson
    obtain ⟨q', hq', rfl⟩ := hperson
    exact ⟨q', Effect.version_mem_rows hq hq', rfl, hversions p hp q hq hid _ hp₁ q' hq'⟩

theorem followCrimeCase_eq_some {c c' : CrimeCase} : e.followCrimeCase db c = some c' ↔
    ∃ crime major, e.toCrime db c.fkCrime = some crime ∧
      e.toPoliceman db c.fkPolicemanMajor = some major ∧
      c' = { c with fkCrime := crime, fkPolicemanMajor := major } := by
  simp only [Effects.followCrimeCase, Option.bind_eq_some_iff, Option.map_eq_some_iff]
  constructor
  · rintro ⟨crime, hcrime, major, hmajor, rfl⟩
    exact ⟨crime, major, hcrime, hmajor, rfl⟩
  · rintro ⟨crime, major, hcrime, hmajor, rfl⟩
    exact ⟨crime, hcrime, major, hmajor, rfl⟩

/-- The major and the crime of a case move with it. -/
theorem opened_iff (hdb : Constraints db) (hdb' : Constraints (e.apply db))
    (h : e.crimeCase = Effect.none.cascade (e.followCrimeCase db)) :
    Opened (e.apply db) ↔ OpenedVersions e db := by
  have hrows : ∀ c', c' ∈ (e.apply db).crimeCase ↔
      ∃ c ∈ db.crimeCase, e.followCrimeCase db c = some c' := by
    intro c'
    change c' ∈ e.crimeCase.rows db.crimeCase ↔ _
    rw [h, Effect.mem_rows_cascade]
  constructor
  · intro hopened c hc p hp hpid cr hcr hcrid p' hp' cr' hcr'
    have hmajor : e.toPoliceman db c.fkPolicemanMajor = some p'.id := by
      rw [← hpid, Effects.toPoliceman, Effect.follow_eq_some hdb.policeman hp]
      exact ⟨p', hp', rfl⟩
    have hcrime : e.toCrime db c.fkCrime = some cr'.id := by
      rw [← hcrid, Effects.toCrime, Effect.follow_eq_some hdb.crime hcr]
      exact ⟨cr', hcr', rfl⟩
    obtain ⟨p'', hp'', hpid', cr'', hcr'', hcrid', hmay⟩ := hopened _ ((hrows _).mpr
      ⟨c, hc, followCrimeCase_eq_some.mpr ⟨_, _, hcrime, hmajor, rfl⟩⟩)
    obtain rfl := List.inj_on_of_nodup_map hdb'.policeman hp'' (Effect.version_mem_rows hp hp') hpid'
    obtain rfl := List.inj_on_of_nodup_map hdb'.crime hcr'' (Effect.version_mem_rows hcr hcr') hcrid'
    exact hmay
  · intro hversions c' hc'
    obtain ⟨c, hc, hfollow⟩ := (hrows c').mp hc'
    obtain ⟨p, hp, hpid⟩ := hdb.caseMajor c hc
    obtain ⟨cr, hcr, hcrid⟩ := hdb.caseCrime c hc
    obtain ⟨crime, major, hcrime, hmajor, rfl⟩ := followCrimeCase_eq_some.mp hfollow
    rw [← hcrid, Effects.toCrime, Effect.follow_eq_some hdb.crime hcr] at hcrime
    rw [← hpid, Effects.toPoliceman, Effect.follow_eq_some hdb.policeman hp] at hmajor
    obtain ⟨cr', hcr', rfl⟩ := hcrime
    obtain ⟨p', hp', rfl⟩ := hmajor
    exact ⟨p', Effect.version_mem_rows hp hp', rfl, cr', Effect.version_mem_rows hcr hcr', rfl,
      hversions c hc p hp hpid cr hcr hcrid p' hp' cr' hcr'⟩

theorem followPolicemanCase_eq_some {a a' : PolicemanCase} :
    e.followPolicemanCase db a = some a' ↔ ∃ minor crime,
      e.toPoliceman db a.fkPolicemanMinor = some minor ∧ e.toCrime db a.fkCrime = some crime ∧
      a' = { a with
        fkPolicemanMajor := a.fkPolicemanMajor.bind (e.toPoliceman db)
        fkPolicemanMinor := minor
        fkCrime := crime } := by
  simp only [Effects.followPolicemanCase, Option.bind_eq_some_iff, Option.map_eq_some_iff]
  constructor
  · rintro ⟨minor, hminor, crime, hcrime, rfl⟩
    exact ⟨minor, crime, hminor, hcrime, rfl⟩
  · rintro ⟨minor, crime, hminor, hcrime, rfl⟩
    exact ⟨minor, hminor, crime, hcrime, rfl⟩

/-- The minor and the major of an assignment move with it. -/
theorem joined_iff (hdb : Constraints db) (hdb' : Constraints (e.apply db))
    (h : e.policemanCase = Effect.none.cascade (e.followPolicemanCase db)) :
    Joined (e.apply db) ↔ JoinedVersions e db := by
  have hrows : ∀ a', a' ∈ (e.apply db).policemanCase ↔
      ∃ a ∈ db.policemanCase, e.followPolicemanCase db a = some a' := by
    intro a'
    change a' ∈ e.policemanCase.rows db.policemanCase ↔ _
    rw [h, Effect.mem_rows_cascade]
  constructor
  · intro hjoined a ha hcrime m hm hmid m' hm'
    obtain ⟨crime, hcrime⟩ := Option.isSome_iff_exists.mp hcrime
    have hminor : e.toPoliceman db a.fkPolicemanMinor = some m'.id := by
      rw [← hmid, Effects.toPoliceman, Effect.follow_eq_some hdb.policeman hm]
      exact ⟨m', hm', rfl⟩
    obtain ⟨m'', hm'', hmid', hrank, hmajor⟩ := hjoined _ ((hrows _).mpr
      ⟨a, ha, followPolicemanCase_eq_some.mpr ⟨_, _, hminor, hcrime, rfl⟩⟩)
    obtain rfl := List.inj_on_of_nodup_map hdb'.policeman hm'' (Effect.version_mem_rows hm hm') hmid'
    refine ⟨hrank, fun p hp hpid p' hp' => ?_⟩
    have hmajor' : a.fkPolicemanMajor.bind (e.toPoliceman db) = some p'.id := by
      rw [hpid, Option.bind_some, Effects.toPoliceman, Effect.follow_eq_some hdb.policeman hp]
      exact ⟨p', hp', rfl⟩
    obtain ⟨p'', hp'', hpid', hrank', hprecinct⟩ := hmajor p'.id hmajor'
    obtain rfl := List.inj_on_of_nodup_map hdb'.policeman hp'' (Effect.version_mem_rows hp hp') hpid'
    exact ⟨hrank', hprecinct⟩
  · intro hversions a' ha'
    obtain ⟨a, ha, hfollow⟩ := (hrows a').mp ha'
    obtain ⟨m, hm, hmid⟩ := hdb.assignmentMinor a ha
    obtain ⟨minor, crime, hminor, hcrime, rfl⟩ := followPolicemanCase_eq_some.mp hfollow
    rw [← hmid, Effects.toPoliceman, Effect.follow_eq_some hdb.policeman hm] at hminor
    obtain ⟨m', hm', rfl⟩ := hminor
    obtain ⟨hrank, hmajor⟩ := hversions a ha (by rw [hcrime]; rfl) m hm hmid m' hm'
    refine ⟨m', Effect.version_mem_rows hm hm', rfl, hrank, fun j hj => ?_⟩
    obtain ⟨k, hk, hj⟩ := Option.bind_eq_some_iff.mp hj
    obtain ⟨p, hp, rfl⟩ := hdb.assignmentMajor a ha k hk
    obtain ⟨p', hp', rfl⟩ := (Effect.follow_eq_some hdb.policeman hp).mp hj
    exact ⟨p', Effect.version_mem_rows hp hp', rfl, hmajor p hp hk p' hp'⟩

theorem followPersonRelevantToCase_eq_some {r r' : PersonRelevantToCase} :
    e.followPersonRelevantToCase db r = some r' ↔ ∃ crime person policeman,
      e.toCrime db r.fkCrime = some crime ∧ e.toPerson db r.fkPerson = some person ∧
      e.toPoliceman db r.fkPoliceman = some policeman ∧
      r' = { r with fkCrime := crime, fkPerson := person, fkPoliceman := policeman } := by
  simp only [Effects.followPersonRelevantToCase, Option.bind_eq_some_iff, Option.map_eq_some_iff]
  constructor
  · rintro ⟨crime, hcrime, person, hperson, policeman, hpoliceman, rfl⟩
    exact ⟨crime, person, policeman, hcrime, hperson, hpoliceman, rfl⟩
  · rintro ⟨crime, person, policeman, hcrime, hperson, hpoliceman, rfl⟩
    exact ⟨crime, hcrime, person, hperson, policeman, hpoliceman, rfl⟩

/-- The person and the policeman of a record move with it. -/
theorem notSelf_iff (hdb : Constraints db) (hdb' : Constraints (e.apply db))
    (h : e.personRelevantToCase = Effect.none.cascade (e.followPersonRelevantToCase db)) :
    NotSelf (e.apply db) ↔ NotSelfVersions e db := by
  have hrows : ∀ r', r' ∈ (e.apply db).personRelevantToCase ↔
      ∃ r ∈ db.personRelevantToCase, e.followPersonRelevantToCase db r = some r' := by
    intro r'
    change r' ∈ e.personRelevantToCase.rows db.personRelevantToCase ↔ _
    rw [h, Effect.mem_rows_cascade]
  constructor
  · intro hself r hr hcrime p hp hpid p' hp' person hperson
    obtain ⟨crime, hcrime⟩ := Option.isSome_iff_exists.mp hcrime
    have hpoliceman : e.toPoliceman db r.fkPoliceman = some p'.id := by
      rw [← hpid, Effects.toPoliceman, Effect.follow_eq_some hdb.policeman hp]
      exact ⟨p', hp', rfl⟩
    exact hself _ ((hrows _).mpr ⟨r, hr, followPersonRelevantToCase_eq_some.mpr
      ⟨crime, person, _, hcrime, hperson, hpoliceman, rfl⟩⟩) p' (Effect.version_mem_rows hp hp') rfl
  · intro hversions r' hr' p'' hp'' hpid'
    obtain ⟨r, hr, hfollow⟩ := (hrows r').mp hr'
    obtain ⟨p, hp, hpid⟩ := hdb.relevantPoliceman r hr
    obtain ⟨crime, person, policeman, hcrime, hperson, hpoliceman, rfl⟩ :=
      followPersonRelevantToCase_eq_some.mp hfollow
    rw [← hpid, Effects.toPoliceman, Effect.follow_eq_some hdb.policeman hp] at hpoliceman
    obtain ⟨p', hp', rfl⟩ := hpoliceman
    obtain rfl := List.inj_on_of_nodup_map hdb'.policeman hp'' (Effect.version_mem_rows hp hp') hpid'
    exact hversions r hr (by rw [hcrime]; rfl) p hp hpid p'' hp' person hperson

end Itmo.Police
