import Itmo.Police.Invariants
import Itmo.Police.Ownership

/-! Which statements keep the invariants. The rows of a table that triggers look at
keep their invariant when the statement is on that table; a statement on a table
that those rows refer to is looked at by no trigger, and has to take care itself. -/

namespace Itmo.Police

open Lib

variable {e : Effects} {db : Db} {s : Statement}

/-! ### References that stay -/

namespace Effects

section Self

variable (hprecinct : e.precinct = .none) (hperson : e.person = .none)
  (hdistrict : e.district = .none) (hpoliceman : e.policeman = .none) (hcrime : e.crime = .none)

include hperson in
theorem toPerson_self (k : ℤ) : e.toPerson db k = some k := by
  rw [toPerson, hperson, Effect.none_follow]

include hprecinct in
theorem toPrecinct_self (k : ℤ) : e.toPrecinct db k = some k := by
  rw [toPrecinct, hprecinct, Effect.none_follow]

include hdistrict in
theorem toDistrict_self (k : ℤ) : e.toDistrict db k = some k := by
  rw [toDistrict, hdistrict, Effect.none_follow]

include hpoliceman in
theorem toPoliceman_self (k : ℤ) : e.toPoliceman db k = some k := by
  rw [toPoliceman, hpoliceman, Effect.none_follow]

include hcrime in
theorem toCrime_self (k : ℤ) : e.toCrime db k = some k := by
  rw [toCrime, hcrime, Effect.none_follow]

include hprecinct hperson in
theorem followPoliceman_self (r : Policeman) : e.followPoliceman db r = some r := by
  simp [followPoliceman, toPerson_self hperson, toPrecinct_self hprecinct]

include hprecinct hdistrict in
theorem followPrecinctDistrict_self (r : PrecinctDistrict) :
    e.followPrecinctDistrict db r = some r := by
  simp [followPrecinctDistrict, toDistrict_self hdistrict, toPrecinct_self hprecinct]

include hdistrict in
theorem followCrime_self (r : Crime) : e.followCrime db r = some r := by
  have hto : e.toDistrict db = some := funext (toDistrict_self hdistrict)
  simp [followCrime, hto]

include hpoliceman hcrime in
theorem followCrimeCase_self (r : CrimeCase) : e.followCrimeCase db r = some r := by
  simp [followCrimeCase, toCrime_self hcrime, toPoliceman_self hpoliceman]

include hpoliceman hcrime in
theorem followPolicemanCase_self (r : PolicemanCase) : e.followPolicemanCase db r = some r := by
  have hto : e.toPoliceman db = some := funext (toPoliceman_self hpoliceman)
  simp [followPolicemanCase, toCrime_self hcrime, hto]

include hpoliceman hcrime in
theorem followNote_self (r : Note) : e.followNote db r = some r := by
  simp [followNote, toCrime_self hcrime, toPoliceman_self hpoliceman]

include hperson hpoliceman hcrime in
theorem followPersonRelevantToCase_self (r : PersonRelevantToCase) :
    e.followPersonRelevantToCase db r = some r := by
  simp [followPersonRelevantToCase, toCrime_self hcrime, toPerson_self hperson,
    toPoliceman_self hpoliceman]

end Self

end Effects

/-- A statement on a table without references to it does what it says. -/
theorem Statement.effects_own (hprecinct : s.own.precinct = .none)
    (hperson : s.own.person = .none) (hdistrict : s.own.district = .none)
    (hpoliceman : s.own.policeman = .none) (hcrime : s.own.crime = .none) :
    s.effects db = s.own := by
  have h₁ : s.own.cascadePolicemen db = s.own := by
    rw [Effects.cascadePolicemen, Effect.cascade_self
      (Effects.followPoliceman_self hprecinct hperson)]
  have h₂ : s.own.cascadeCrimes db = s.own := by
    rw [Effects.cascadeCrimes, Effect.cascade_self (Effects.followCrime_self hdistrict)]
  rw [Statement.effects, h₁, h₂, Effects.cascadeRest,
    Effect.cascade_self (Effects.followPrecinctDistrict_self hprecinct hdistrict),
    Effect.cascade_self (Effects.followCrimeCase_self hpoliceman hcrime),
    Effect.cascade_self (Effects.followPolicemanCase_self hpoliceman hcrime),
    Effect.cascade_self (Effects.followNote_self hpoliceman hcrime),
    Effect.cascade_self (Effects.followPersonRelevantToCase_self hperson hpoliceman hcrime)]

/-! ### What the triggers keep -/

/-- Whoever was inserted or updated has been looked at. -/
theorem named_of_accepted (hacc : Accepted e db) (hnamed : Named db) (h : e.person = .none) :
    Named (e.apply db) := by
  intro p hp
  rcases Effect.new_or_old hp with hnew | ⟨hold, -⟩
  · exact hacc.hasName p hnew
  · have hperson : (e.apply db).person = db.person := by
      change e.person.rows db.person = db.person
      rw [h, Effect.none_rows]
    rw [hperson]
    exact hnamed p hold

theorem joined_of_accepted (hacc : Accepted e db) (hjoined : Joined db)
    (h : e.policeman = .none) : Joined (e.apply db) := by
  intro a ha
  rcases Effect.new_or_old ha with hnew | ⟨hold, -⟩
  · exact hacc.ranks a hnew
  · have hpoliceman : (e.apply db).policeman = db.policeman := by
      change e.policeman.rows db.policeman = db.policeman
      rw [h, Effect.none_rows]
    rw [hpoliceman]
    exact hjoined a hold

theorem notSelf_of_accepted (hacc : Accepted e db) (hself : NotSelf db)
    (h : e.policeman = .none) : NotSelf (e.apply db) := by
  intro r hr
  rcases Effect.new_or_old hr with hnew | ⟨hold, -⟩
  · exact hacc.selfAssign r hnew
  · have hpoliceman : (e.apply db).policeman = db.policeman := by
      change e.policeman.rows db.policeman = db.policeman
      rw [h, Effect.none_rows]
    rw [hpoliceman]
    exact hself r hold

theorem followNote_eq_some {r r' : Note} : e.followNote db r = some r' ↔ ∃ policeman crime,
    e.toPoliceman db r.fkPoliceman = some policeman ∧ e.toCrime db r.fkCrime = some crime ∧
      r' = { r with fkPoliceman := policeman, fkCrime := crime } := by
  simp only [Effects.followNote, Option.bind_eq_some_iff, Option.map_eq_some_iff]
  constructor
  · rintro ⟨policeman, hpoliceman, crime, hcrime, rfl⟩
    exact ⟨policeman, crime, hpoliceman, hcrime, rfl⟩
  · rintro ⟨policeman, crime, hpoliceman, hcrime, rfl⟩
    exact ⟨policeman, hpoliceman, crime, hcrime, rfl⟩

/-- A crime that something belongs to has been looked at, or something belonged to it
before and it keeps its key. -/
theorem dependent_of_accepted (hacc : Accepted (s.effects db) db) {crime : ℤ}
    (h : Dependent ((s.effects db).apply db) crime) :
    (∃ c ∈ ((s.effects db).apply db).crimeCase, c.fkCrime = crime) ∨
      Dependent db crime ∧ (s.effects db).toCrime db crime = some crime := by
  rcases h with ⟨r, hr, rfl⟩ | ⟨r, hr, rfl⟩ | ⟨r, hr, rfl⟩
  · rcases Effect.cascade_new_or_old hr with hnew | ⟨hold, hfollow⟩
    · exact .inl (hacc.opened _ (.inl ⟨r, hnew, rfl⟩))
    · obtain ⟨minor, crime, -, hcrime, hkept⟩ := followPolicemanCase_eq_some.mp hfollow
      obtain rfl : r.fkCrime = crime := congrArg PolicemanCase.fkCrime hkept
      exact .inr ⟨.inl ⟨r, hold, rfl⟩, hcrime⟩
  · rcases Effect.cascade_new_or_old hr with hnew | ⟨hold, hfollow⟩
    · exact .inl (hacc.opened _ (.inr (.inl ⟨r, hnew, rfl⟩)))
    · obtain ⟨policeman, crime, -, hcrime, hkept⟩ := followNote_eq_some.mp hfollow
      obtain rfl : r.fkCrime = crime := congrArg Note.fkCrime hkept
      exact .inr ⟨.inr (.inl ⟨r, hold, rfl⟩), hcrime⟩
  · rcases Effect.cascade_new_or_old hr with hnew | ⟨hold, hfollow⟩
    · exact .inl (hacc.opened _ (.inr (.inr ⟨r, hnew, rfl⟩)))
    · obtain ⟨crime, person, policeman, hcrime, -, -, hkept⟩ :=
        followPersonRelevantToCase_eq_some.mp hfollow
      obtain rfl : r.fkCrime = crime := congrArg PersonRelevantToCase.fkCrime hkept
      exact .inr ⟨.inr (.inr ⟨r, hold, rfl⟩), hcrime⟩

/-- Cases go with their crimes only, since nobody who opened one can be deleted. -/
theorem hasCase_of_accepted (hacc : Accepted (s.effects db) db) (hcase : HasCase db)
    (h : s.own.crimeCase = .none) : HasCase ((s.effects db).apply db) := by
  intro crime hdependent
  rcases dependent_of_accepted hacc hdependent with hopened | ⟨hold, hcrime⟩
  · exact hopened
  · obtain ⟨c, hc, rfl⟩ := hcase crime hold
    obtain ⟨major, hmajor⟩ := Option.isSome_iff_exists.mp (hacc.restrict c hc)
    refine ⟨{ c with fkCrime := c.fkCrime, fkPolicemanMajor := major }, ?_, rfl⟩
    have hrows : ((s.effects db).apply db).crimeCase =
        (Effect.none.cascade ((s.effects db).followCrimeCase db)).rows db.crimeCase := by
      rw [← h]
      rfl
    rw [hrows, Effect.mem_rows_cascade]
    exact ⟨c, hc, followCrimeCase_eq_some.mpr ⟨c.fkCrime, major, hcrime, hmajor, rfl⟩⟩

/-! ### What follows the rows -/

section Followed

variable (hdb : Constraints db) (hpoliceman : s.own.policeman = .none)

include hpoliceman in
theorem policeman_followed :
    (s.effects db).policeman = Effect.none.cascade ((s.effects db).followPoliceman db) := by
  rw [← hpoliceman]
  rfl

include hpoliceman in
theorem policeman_version {p p' : Policeman} (h : (s.effects db).policeman.version p = some p') :
    ∃ person precinct, (s.effects db).toPerson db p.fkPerson = some person ∧
      (s.effects db).toPrecinct db p.fkPrecinct = some precinct ∧
      p' = { p with fkPerson := person, fkPrecinct := precinct } := by
  rw [policeman_followed hpoliceman] at h
  exact followPoliceman_eq_some.mp h

/-- A precinct keeps its districts as long as they exist. -/
theorem worksIn_followed (hjoin : s.own.precinctDistrict = .none) {p p' : Policeman} {d d' : ℤ}
    (hp : (s.effects db).toPrecinct db p.fkPrecinct = some p'.fkPrecinct)
    (hd : (s.effects db).toDistrict db d = some d') (h : WorksIn db p d) :
    WorksIn ((s.effects db).apply db) p' d' := by
  obtain ⟨r, hr, hprecinct, rfl⟩ := h
  have hrows : ((s.effects db).apply db).precinctDistrict =
      (Effect.none.cascade ((s.effects db).followPrecinctDistrict db)).rows
        db.precinctDistrict := by
    rw [← hjoin]
    rfl
  refine ⟨⟨d', p'.fkPrecinct⟩, ?_, rfl, rfl⟩
  rw [hrows, Effect.mem_rows_cascade]
  refine ⟨r, hr, ?_⟩
  rw [Effects.followPrecinctDistrict, hd, hprecinct, hp]
  rfl

include hdb hpoliceman in
/-- A case stays with a major who may open it as long as its crime has its district. -/
theorem opened_followed_iff (hacc : Accepted (s.effects db) db) (hopened : Opened db)
    (hcrime : s.own.crime = .none) (hjoin : s.own.precinctDistrict = .none)
    (hcase : s.own.crimeCase = .none) :
    Opened ((s.effects db).apply db) ↔ EveryCase db fun _ cr =>
      ∀ d, cr.fkDistrict = some d → ((s.effects db).toDistrict db d).isSome := by
  have hcases : (s.effects db).crimeCase =
      Effect.none.cascade ((s.effects db).followCrimeCase db) := by
    rw [← hcase]
    rfl
  have hcrimes : ∀ cr : Crime, (s.effects db).crime.version cr =
      some { cr with fkDistrict := cr.fkDistrict.bind ((s.effects db).toDistrict db) } := by
    intro cr
    change (s.own.crime.cascade ((s.effects db).followCrime db)).version cr = _
    rw [hcrime]
    rfl
  rw [opened_iff hdb hacc.constraints hcases]
  constructor
  · intro hversions c hc p hp hpid cr hcr hcrid d hd
    have hmajor := hacc.restrict c hc
    rw [← hpid, Effects.toPoliceman, Effect.follow_mem hdb.policeman hp, Option.isSome_map] at hmajor
    obtain ⟨p', hp'⟩ := Option.isSome_iff_exists.mp hmajor
    obtain ⟨-, d', hd', -⟩ := hversions c hc p hp hpid cr hcr hcrid p' hp' _ (hcrimes cr)
    have hto : (s.effects db).toDistrict db d = some d' := by
      rwa [hd] at hd'
    rw [hto]
    rfl
  · intro hdistricts c hc p hp hpid cr hcr hcrid p' hp' cr' hcr'
    obtain ⟨p₁, hp₁, hpid₁, cr₁, hcr₁, hcrid₁, hrank, d, hd, hworks⟩ := hopened c hc
    obtain rfl := List.inj_on_of_nodup_map hdb.policeman hp hp₁ (hpid.trans hpid₁.symm)
    obtain rfl := List.inj_on_of_nodup_map hdb.crime hcr hcr₁ (hcrid.trans hcrid₁.symm)
    obtain ⟨d', hd'⟩ := Option.isSome_iff_exists.mp (hdistricts c hc p hp hpid cr hcr hcrid d hd)
    obtain ⟨person, precinct, -, hprecinct, rfl⟩ := policeman_version hpoliceman hp'
    rw [Option.mem_def, hcrimes] at hcr'
    cases hcr'
    refine ⟨hrank, d', ?_, worksIn_followed hjoin hprecinct hd' hworks⟩
    rw [hd, Option.bind_some, hd']

include hdb hpoliceman in
theorem opened_followed (hacc : Accepted (s.effects db) db) (hopened : Opened db)
    (hdistrict : s.own.district = .none) (hcrime : s.own.crime = .none)
    (hjoin : s.own.precinctDistrict = .none) (hcase : s.own.crimeCase = .none) :
    Opened ((s.effects db).apply db) := by
  rw [opened_followed_iff hdb hpoliceman hacc hopened hcrime hjoin hcase]
  intro c _ p _ _ cr _ _ d _
  have hd : (s.effects db).toDistrict db d = some d := Effects.toDistrict_self hdistrict d
  rw [hd]
  rfl

include hdb hpoliceman in
/-- Two policemen of one precinct stay in one precinct. -/
theorem joined_followed (hacc : Accepted (s.effects db) db) (hjoined : Joined db)
    (hassignment : s.own.policemanCase = .none) : Joined ((s.effects db).apply db) := by
  have hassignments : (s.effects db).policemanCase =
      Effect.none.cascade ((s.effects db).followPolicemanCase db) := by
    rw [← hassignment]
    rfl
  rw [joined_iff hdb hacc.constraints hassignments]
  intro a ha _ m hm hmid m' hm'
  obtain ⟨m₁, hm₁, hmid₁, hrank, hmajor⟩ := hjoined a ha
  obtain rfl := List.inj_on_of_nodup_map hdb.policeman hm hm₁ (hmid.trans hmid₁.symm)
  obtain ⟨-, precinct, -, hprecinct, rfl⟩ := policeman_version hpoliceman hm'
  refine ⟨hrank, fun p hp hj p' hp' => ?_⟩
  obtain ⟨p₁, hp₁, hpid₁, hrank', hsame⟩ := hmajor p.id hj
  obtain rfl := List.inj_on_of_nodup_map hdb.policeman hp hp₁ hpid₁.symm
  obtain ⟨-, precinct', -, hprecinct', rfl⟩ := policeman_version hpoliceman hp'
  rw [hsame, hprecinct] at hprecinct'
  exact ⟨hrank', (Option.some.inj hprecinct').symm⟩

include hdb hpoliceman in
/-- Two persons stay two. -/
theorem notSelf_followed (hacc : Accepted (s.effects db) db) (hself : NotSelf db)
    (hrelevant : s.own.personRelevantToCase = .none) : NotSelf ((s.effects db).apply db) := by
  have hrecords : (s.effects db).personRelevantToCase =
      Effect.none.cascade ((s.effects db).followPersonRelevantToCase db) := by
    rw [← hrelevant]
    rfl
  rw [notSelf_iff hdb hacc.constraints hrecords]
  intro r hr _ p hp hpid p' hp' person hperson heq
  obtain ⟨person', precinct, hperson', -, rfl⟩ := policeman_version hpoliceman hp'
  obtain rfl : person' = person := heq
  obtain ⟨q, hq, hqid⟩ := hdb.policemanPerson p hp
  obtain ⟨q₁, hq₁, hqid₁⟩ := hdb.relevantPerson r hr
  rw [← hqid] at hperson'
  rw [← hqid₁] at hperson
  obtain rfl : q = q₁ := Effect.follow_inj hdb.person hacc.constraints.person hq hq₁ hperson' hperson
  exact hself r hr p hp hpid (hqid.symm.trans hqid₁)

end Followed

/-! ### Careful statements -/

/-- What the triggers have looked at and the statement must not change: the names of
policemen, who may open a case, who is joined to whom, who recorded whom, and the
case of a crime. -/
def Statement.Careful (s : Statement) (db : Db) : Prop :=
  match s with
  | .person m => ∀ p ∈ db.policeman, ∀ q ∈ db.person, q.id = p.fkPerson →
      ∀ q' ∈ m.effect.version q, q'.name ≠ none
  | .policeman m =>
    (EveryCase db fun p cr => ∀ p' ∈ m.effect.version p, MayOpen db p' cr) ∧
      (∀ a ∈ db.policemanCase, ∀ minor ∈ db.policeman, minor.id = a.fkPolicemanMinor →
        ∀ minor' ∈ m.effect.version minor, minor'.rank = .MINOR ∧
          ∀ p ∈ db.policeman, a.fkPolicemanMajor = some p.id →
            ∀ p' ∈ m.effect.version p, p'.rank = .MAJOR ∧ p'.fkPrecinct = minor'.fkPrecinct) ∧
      ∀ r ∈ db.personRelevantToCase, ∀ p ∈ db.policeman, p.id = r.fkPoliceman →
        ∀ p' ∈ m.effect.version p, p'.fkPerson ≠ r.fkPerson
  | .district m => EveryCase db fun _ cr =>
      ∀ d ∈ db.district, cr.fkDistrict = some d.id → (m.effect.version d).isSome
  | .precinctDistrict m =>
    EveryCase db (MayOpen { db with precinctDistrict := m.effect.rows db.precinctDistrict })
  | .crime m => EveryCase db fun p cr => ∀ cr' ∈ m.effect.version cr, MayOpen db p cr'
  | .crimeCase m =>
    (∀ c ∈ m.effect.new db.crimeCase, ∀ cr ∈ db.crime, cr.id = c.fkCrime →
      cr.fkDistrict ≠ none) ∧
    ∀ c ∈ db.crimeCase, Dependent db c.fkCrime →
      ∃ c' ∈ m.effect.rows db.crimeCase, c'.fkCrime = c.fkCrime
  | .precinct _ | .policemanCase _ | .note _ | .personRelevantToCase _ | .other => True

theorem mayOpen_congr {db' : Db} (h : db'.precinctDistrict = db.precinctDistrict)
    {p : Policeman} {cr : Crime} : MayOpen db' p cr ↔ MayOpen db p cr := by
  simp only [MayOpen, WorksIn, h]

/-- When cases, policemen and crimes stay. -/
theorem opened_iff_everyCase (hdb : Constraints db) {db' : Db}
    (hcases : db'.crimeCase = db.crimeCase) (hpoliceman : db'.policeman = db.policeman)
    (hcrime : db'.crime = db.crime) : Opened db' ↔ EveryCase db (MayOpen db') := by
  rw [Opened, hcases, hpoliceman, hcrime]
  constructor
  · intro hopened c hc p hp hpid cr hcr hcrid
    obtain ⟨p₁, hp₁, hpid₁, cr₁, hcr₁, hcrid₁, hmay⟩ := hopened c hc
    obtain rfl := List.inj_on_of_nodup_map hdb.policeman hp hp₁ (hpid.trans hpid₁.symm)
    obtain rfl := List.inj_on_of_nodup_map hdb.crime hcr hcr₁ (hcrid.trans hcrid₁.symm)
    exact hmay
  · intro hcase c hc
    obtain ⟨p, hp, hpid⟩ := hdb.caseMajor c hc
    obtain ⟨cr, hcr, hcrid⟩ := hdb.caseCrime c hc
    exact ⟨p, hp, hpid, cr, hcr, hcrid, hcase c hc p hp hpid cr hcr hcrid⟩

theorem precinctDistrict_eq (hprecinct : s.own.precinct = .none)
    (hdistrict : s.own.district = .none) (hjoin : s.own.precinctDistrict = .none) :
    ((s.effects db).apply db).precinctDistrict = db.precinctDistrict := by
  have hself : ∀ r, (s.effects db).followPrecinctDistrict db r = some r :=
    Effects.followPrecinctDistrict_self hprecinct hdistrict
  have heffect : (s.effects db).precinctDistrict = .none := by
    change s.own.precinctDistrict.cascade ((s.effects db).followPrecinctDistrict db) = _
    rw [hjoin, Effect.cascade_self hself]
  change (s.effects db).precinctDistrict.rows db.precinctDistrict = db.precinctDistrict
  rw [heffect, Effect.none_rows]

section Tables

variable (hdb : Constraints db) (hinv : Invariants db)

include hdb hinv

theorem precinct_keeps {m : Modification Precinct}
    (hacc : Accepted ((Statement.precinct m).effects db) db) :
    Invariants (((Statement.precinct m).effects db).apply db) where
  named := named_of_accepted hacc hinv.named rfl
  opened := opened_followed hdb rfl hacc hinv.opened rfl rfl rfl rfl
  joined := joined_followed hdb rfl hacc hinv.joined rfl
  hasCase := hasCase_of_accepted hacc hinv.hasCase rfl
  notSelf := notSelf_followed hdb rfl hacc hinv.notSelf rfl

theorem person_keeps_iff {m : Modification Person}
    (hacc : Accepted ((Statement.person m).effects db) db) :
    Invariants (((Statement.person m).effects db).apply db) ↔ (Statement.person m).Careful db := by
  have hnamed : Named (((Statement.person m).effects db).apply db) ↔
      (Statement.person m).Careful db := by
    rw [named_iff hdb hacc.constraints (policeman_followed rfl)]
    constructor
    · intro hversions p hp q hq hqid q' hq'
      refine hversions p hp q hq hqid { p with fkPerson := q'.id, fkPrecinct := p.fkPrecinct } ?_
        q' hq'
      rw [Option.mem_def, policeman_followed rfl]
      refine followPoliceman_eq_some.mpr ⟨q'.id, p.fkPrecinct, ?_, Effects.toPrecinct_self rfl _,
        rfl⟩
      rw [← hqid, Effects.toPerson, Effect.follow_eq_some hdb.person hq]
      exact ⟨q', hq', rfl⟩
    · intro hcareful p hp q hq hqid _ _ q' hq'
      exact hcareful p hp q hq hqid q' hq'
  rw [← hnamed]
  constructor
  · exact Invariants.named
  · intro h
    exact ⟨h, opened_followed hdb rfl hacc hinv.opened rfl rfl rfl rfl,
      joined_followed hdb rfl hacc hinv.joined rfl, hasCase_of_accepted hacc hinv.hasCase rfl,
      notSelf_followed hdb rfl hacc hinv.notSelf rfl⟩

theorem policeman_keeps_iff {m : Modification Policeman}
    (hacc : Accepted ((Statement.policeman m).effects db) db) :
    Invariants (((Statement.policeman m).effects db).apply db) ↔
      (Statement.policeman m).Careful db := by
  have hpoliceman : ((Statement.policeman m).effects db).policeman = m.effect :=
    Effect.cascade_self (Effects.followPoliceman_self rfl rfl)
  have hcrime : ((Statement.policeman m).effects db).crime = .none :=
    Effect.cascade_self (Effects.followCrime_self rfl)
  have hjoin : (((Statement.policeman m).effects db).apply db).precinctDistrict =
      db.precinctDistrict := precinctDistrict_eq rfl rfl rfl
  have hopened : Opened (((Statement.policeman m).effects db).apply db) ↔
      EveryCase db fun p cr => ∀ p' ∈ m.effect.version p, MayOpen db p' cr := by
    rw [opened_iff hdb hacc.constraints rfl, OpenedVersions, hpoliceman, hcrime]
    simp only [mayOpen_congr hjoin, Effect.none_version, Option.mem_some_iff, forall_eq']
  have hjoined : Joined (((Statement.policeman m).effects db).apply db) ↔
      ∀ a ∈ db.policemanCase, ∀ minor ∈ db.policeman, minor.id = a.fkPolicemanMinor →
        ∀ minor' ∈ m.effect.version minor, minor'.rank = .MINOR ∧
          ∀ p ∈ db.policeman, a.fkPolicemanMajor = some p.id →
            ∀ p' ∈ m.effect.version p, p'.rank = .MAJOR ∧ p'.fkPrecinct = minor'.fkPrecinct := by
    rw [joined_iff hdb hacc.constraints rfl, JoinedVersions, hpoliceman]
    simp only [Effects.toCrime_self hcrime, Option.isSome_some, true_implies]
  have hself : NotSelf (((Statement.policeman m).effects db).apply db) ↔
      ∀ r ∈ db.personRelevantToCase, ∀ p ∈ db.policeman, p.id = r.fkPoliceman →
        ∀ p' ∈ m.effect.version p, p'.fkPerson ≠ r.fkPerson := by
    have hperson : ∀ k, ((Statement.policeman m).effects db).toPerson db k = some k :=
      Effects.toPerson_self rfl
    rw [notSelf_iff hdb hacc.constraints rfl, NotSelfVersions, hpoliceman]
    simp only [Effects.toCrime_self hcrime, Option.isSome_some, true_implies, hperson,
      Option.mem_some_iff, forall_eq']
  rw [Statement.Careful, ← hopened, ← hjoined, ← hself]
  constructor
  · intro h
    exact ⟨h.opened, h.joined, h.notSelf⟩
  · rintro ⟨hopened, hjoined, hself⟩
    exact ⟨named_of_accepted hacc hinv.named rfl, hopened, hjoined,
      hasCase_of_accepted hacc hinv.hasCase rfl, hself⟩

omit hdb in
/-- Where policemen, persons and precincts stay. -/
theorem invariants_iff_opened (hacc : Accepted (s.effects db) db)
    (hpoliceman : (s.effects db).policeman = .none) (hperson : s.own.person = .none)
    (hcase : s.own.crimeCase = .none) :
    Invariants ((s.effects db).apply db) ↔ Opened ((s.effects db).apply db) := by
  constructor
  · exact Invariants.opened
  · intro hopened
    exact ⟨named_of_accepted hacc hinv.named hperson, hopened,
      joined_of_accepted hacc hinv.joined hpoliceman, hasCase_of_accepted hacc hinv.hasCase hcase,
      notSelf_of_accepted hacc hinv.notSelf hpoliceman⟩

theorem district_keeps_iff {m : Modification District}
    (hacc : Accepted ((Statement.district m).effects db) db) :
    Invariants (((Statement.district m).effects db).apply db) ↔
      (Statement.district m).Careful db := by
  have hpoliceman : ((Statement.district m).effects db).policeman = .none :=
    Effect.cascade_self (Effects.followPoliceman_self rfl rfl)
  rw [invariants_iff_opened hinv hacc hpoliceman rfl rfl,
    opened_followed_iff hdb rfl hacc hinv.opened rfl rfl rfl]
  constructor
  · intro h c hc p hp hpid cr hcr hcrid d hd hdistrict
    have hto := h c hc p hp hpid cr hcr hcrid d.id hdistrict
    rwa [Effects.toDistrict, Effect.follow_mem hdb.district hd, Option.isSome_map] at hto
  · intro h c hc p hp hpid cr hcr hcrid k hdistrict
    obtain ⟨d, hd, rfl⟩ := hdb.crimeDistrict cr hcr k hdistrict
    rw [Effects.toDistrict, Effect.follow_mem hdb.district hd, Option.isSome_map]
    exact h c hc p hp hpid cr hcr hcrid d hd hdistrict

theorem crime_keeps_iff {m : Modification Crime}
    (hacc : Accepted ((Statement.crime m).effects db) db) :
    Invariants (((Statement.crime m).effects db).apply db) ↔ (Statement.crime m).Careful db := by
  have hpoliceman : ((Statement.crime m).effects db).policeman = .none :=
    Effect.cascade_self (Effects.followPoliceman_self rfl rfl)
  have hcrime : ((Statement.crime m).effects db).crime = m.effect :=
    Effect.cascade_self (Effects.followCrime_self rfl)
  have hjoin : (((Statement.crime m).effects db).apply db).precinctDistrict =
      db.precinctDistrict := precinctDistrict_eq rfl rfl rfl
  rw [invariants_iff_opened hinv hacc hpoliceman rfl rfl, opened_iff hdb hacc.constraints rfl,
    OpenedVersions, hpoliceman, hcrime]
  simp only [mayOpen_congr hjoin, Effect.none_version, Option.mem_some_iff, forall_eq']
  rfl

theorem precinctDistrict_keeps_iff {m : Modification PrecinctDistrict}
    (hacc : Accepted ((Statement.precinctDistrict m).effects db) db) :
    Invariants (((Statement.precinctDistrict m).effects db).apply db) ↔
      (Statement.precinctDistrict m).Careful db := by
  have hown : (Statement.precinctDistrict m).effects db = (Statement.precinctDistrict m).own :=
    Statement.effects_own rfl rfl rfl rfl rfl
  have hmay : ∀ p cr, MayOpen ((Statement.precinctDistrict m).own.apply db) p cr ↔
      MayOpen { db with precinctDistrict := m.effect.rows db.precinctDistrict } p cr :=
    fun p cr => mayOpen_congr rfl
  rw [invariants_iff_opened hinv hacc (by rw [hown]; rfl) rfl rfl, hown,
    opened_iff_everyCase hdb Effect.none_rows Effect.none_rows Effect.none_rows]
  simp only [EveryCase, hmay]
  rfl

omit hdb in
/-- Nothing that a case is opened on is touched. -/
theorem keeps_of_own (hacc : Accepted (s.effects db) db) (hprecinct : s.own.precinct = .none)
    (hperson : s.own.person = .none) (hdistrict : s.own.district = .none)
    (hpoliceman : s.own.policeman = .none) (hjoin : s.own.precinctDistrict = .none)
    (hcrime : s.own.crime = .none) (hcase : s.own.crimeCase = .none) :
    Invariants ((s.effects db).apply db) := by
  have hown : s.effects db = s.own :=
    Statement.effects_own hprecinct hperson hdistrict hpoliceman hcrime
  have hopened : Opened (s.own.apply db) ↔ Opened db := by
    simp only [Opened, MayOpen, WorksIn, Effects.apply, hpoliceman, hjoin, hcrime, hcase,
      Effect.none_rows]
  rw [invariants_iff_opened hinv hacc (by rw [hown, hpoliceman]) hperson hcase, hown, hopened]
  exact hinv.opened

/-- A new case passes the check of its district also without one. -/
theorem crimeCase_opened_iff {m : Modification CrimeCase}
    (hacc : Accepted (Statement.crimeCase m).own db) :
    Opened ((Statement.crimeCase m).own.apply db) ↔
      ∀ c ∈ m.effect.new db.crimeCase, ∀ cr ∈ db.crime, cr.id = c.fkCrime →
        cr.fkDistrict ≠ none := by
  have hpoliceman : ((Statement.crimeCase m).own.apply db).policeman = db.policeman :=
    Effect.none_rows
  have hcrime : ((Statement.crimeCase m).own.apply db).crime = db.crime := Effect.none_rows
  have hjoin : ((Statement.crimeCase m).own.apply db).precinctDistrict = db.precinctDistrict :=
    Effect.none_rows
  constructor
  · intro h c hc cr hcr hcrid
    obtain ⟨-, -, -, cr', hcr', hcrid', -, d, hd, -⟩ := h c (Effect.new_subset hc)
    rw [hcrime] at hcr'
    obtain rfl := List.inj_on_of_nodup_map hdb.crime hcr hcr' (hcrid.trans hcrid'.symm)
    rw [hd]
    exact Option.some_ne_none d
  · intro h c hc
    rcases Effect.new_or_old hc with hnew | ⟨hold, -⟩
    · obtain ⟨p, hp, hpid, hrank⟩ := hacc.major c hnew
      obtain ⟨cr, hcr, hcrid, hdistrict⟩ := hacc.district c hnew
      obtain ⟨d, hd⟩ := Option.ne_none_iff_exists'.mp (h c hnew cr (hcrime ▸ hcr) hcrid)
      have hmem := hdistrict d hd
      rw [← hpid, mem_districtsOf hacc.constraints.policeman hp] at hmem
      exact ⟨p, hp, hpid, cr, hcr, hcrid, hrank, d, hd, hmem⟩
    · rw [hpoliceman, hcrime]
      simp only [mayOpen_congr hjoin]
      exact hinv.opened c hold

omit hdb in
/-- No trigger looks at what belongs to a case. -/
theorem crimeCase_hasCase_iff {m : Modification CrimeCase} :
    HasCase ((Statement.crimeCase m).own.apply db) ↔
      ∀ c ∈ db.crimeCase, Dependent db c.fkCrime →
        ∃ c' ∈ m.effect.rows db.crimeCase, c'.fkCrime = c.fkCrime := by
  have hdependent : ∀ crime, Dependent ((Statement.crimeCase m).own.apply db) crime ↔
      Dependent db crime := by
    intro crime
    simp only [Dependent, Effects.apply, Statement.own, Effect.none_rows]
  simp only [HasCase, hdependent]
  constructor
  · intro h c _ hc
    exact h c.fkCrime hc
  · intro h crime hcrime
    obtain ⟨c, hc, rfl⟩ := hinv.hasCase crime hcrime
    exact h c hc hcrime

theorem crimeCase_keeps_iff {m : Modification CrimeCase}
    (hacc : Accepted ((Statement.crimeCase m).effects db) db) :
    Invariants (((Statement.crimeCase m).effects db).apply db) ↔
      (Statement.crimeCase m).Careful db := by
  have hown : (Statement.crimeCase m).effects db = (Statement.crimeCase m).own :=
    Statement.effects_own rfl rfl rfl rfl rfl
  rw [hown] at hacc ⊢
  rw [Statement.Careful, ← crimeCase_opened_iff hdb hinv hacc, ← crimeCase_hasCase_iff hinv]
  constructor
  · intro h
    exact ⟨h.opened, h.hasCase⟩
  · rintro ⟨hopened, hcase⟩
    exact ⟨named_of_accepted hacc hinv.named rfl, hopened, joined_of_accepted hacc hinv.joined rfl,
      hcase, notSelf_of_accepted hacc hinv.notSelf rfl⟩

/-- An accepted statement keeps the invariants if and only if it is careful. -/
theorem execute_invariants_iff {db' : Db} (h : s.execute db = .ok db') :
    Invariants db' ↔ s.Careful db := by
  obtain ⟨rfl, hacc⟩ := Statement.execute_ok h
  cases s with
  | precinct m => exact iff_of_true (precinct_keeps hdb hinv hacc) trivial
  | person m => exact person_keeps_iff hdb hinv hacc
  | policeman m => exact policeman_keeps_iff hdb hinv hacc
  | district m => exact district_keeps_iff hdb hinv hacc
  | precinctDistrict m => exact precinctDistrict_keeps_iff hdb hinv hacc
  | crime m => exact crime_keeps_iff hdb hinv hacc
  | crimeCase m => exact crimeCase_keeps_iff hdb hinv hacc
  | policemanCase m =>
    exact iff_of_true (keeps_of_own hinv hacc rfl rfl rfl rfl rfl rfl rfl) trivial
  | note m => exact iff_of_true (keeps_of_own hinv hacc rfl rfl rfl rfl rfl rfl rfl) trivial
  | personRelevantToCase m =>
    exact iff_of_true (keeps_of_own hinv hacc rfl rfl rfl rfl rfl rfl rfl) trivial
  | other => exact iff_of_true (keeps_of_own hinv hacc rfl rfl rfl rfl rfl rfl rfl) trivial

end Tables

/-! ### Any number of statements -/

/-- A rejected statement changes nothing. -/
def Statement.step (db : Db) (s : Statement) : Db :=
  match s.execute db with
  | .ok db' => db'
  | .error _ => db

theorem Statement.step_constraints (hdb : Constraints db) : Constraints (Statement.step db s) := by
  unfold Statement.step
  cases h : s.execute db with
  | error e => exact hdb
  | ok db' =>
    obtain ⟨rfl, hacc⟩ := Statement.execute_ok h
    exact hacc.constraints

theorem Statement.step_invariants_iff (hdb : Constraints db) (hinv : Invariants db) :
    Invariants (Statement.step db s) ↔ ((∃ db', s.execute db = .ok db') → s.Careful db) := by
  unfold Statement.step
  cases h : s.execute db with
  | error e =>
    constructor
    · rintro - ⟨db', h'⟩
      cases h'
    · intro
      exact hinv
  | ok db' =>
    rw [execute_invariants_iff hdb hinv h]
    constructor
    · intro hcareful _
      exact hcareful
    · intro hcareful
      exact hcareful ⟨db', rfl⟩

/-- From a state with the constraints and the invariants, the invariants hold after each
of any statements if and only if those the database accepts are careful. -/
theorem statements_keep_invariants_iff (hdb : Constraints db) (hinv : Invariants db)
    (ss : List Statement) :
    Along Statement.step (fun db s => Invariants (Statement.step db s)) db ss ↔
      Along Statement.step (fun db s => (∃ db', s.execute db = .ok db') → s.Careful db) db ss :=
  along_iff_along (fun db => Constraints db ∧ Invariants db)
    (fun _ _ h _ => Statement.step_invariants_iff h.1 h.2)
    (fun _ _ h _ hcareful =>
      ⟨Statement.step_constraints h.1, (Statement.step_invariants_iff h.1 h.2).mpr hcareful⟩)
    ⟨hdb, hinv⟩ (along_of_forall_mem (fun _ _ _ => trivial) db)

theorem assignedCase_constraints : Constraints assignedCase := by
  constructor <;> decide

theorem assignedCase_invariants : Invariants assignedCase := by
  have hcase : ∀ c ∈ assignedCase.crimeCase, c = ⟨1, .ON_WORK, 1⟩ := by decide
  have hassignment : ∀ a ∈ assignedCase.policemanCase, a = ⟨some 1, 3, 1, .ASSIGNED⟩ := by decide
  have hrelevant : ∀ r ∈ assignedCase.personRelevantToCase, r = ⟨1, 8, 3, .WITNESS, none⟩ := by
    decide
  refine ⟨by decide, ?_, ?_, ?_, by decide⟩
  · intro c hc
    obtain rfl := hcase c hc
    exact ⟨⟨1, .MAJOR, "PTO41", 7, 41⟩, by decide, rfl, ⟨1, some 1⟩, by decide, rfl, rfl, 1, rfl,
      ⟨1, 41⟩, by decide, rfl, rfl⟩
  · intro a ha
    obtain rfl := hassignment a ha
    refine ⟨⟨3, .MINOR, "JUD41", 9, 41⟩, by decide, rfl, rfl, fun j hj => ?_⟩
    obtain rfl := Option.some.inj hj
    exact ⟨⟨1, .MAJOR, "PTO41", 7, 41⟩, by decide, rfl, rfl, rfl⟩
  · rintro crime (⟨r, hr, rfl⟩ | ⟨r, hr, rfl⟩ | ⟨r, hr, rfl⟩)
    · obtain rfl := hassignment r hr
      exact ⟨⟨1, .ON_WORK, 1⟩, by decide, rfl⟩
    · cases hr
    · obtain rfl := hrelevant r hr
      exact ⟨⟨1, .ON_WORK, 1⟩, by decide, rfl⟩

/-- A note, and another name for a policeman. -/
theorem statements_keep_invariants_renamed :
    let rename : Statement := .person (.update (·.id = 9) fun q => { q with name := some "Minot" })
    Along Statement.step (fun db s => Invariants (Statement.step db s)) assignedCase
      [.note (.insert [⟨1, 3, 1, "hanged man"⟩]), rename] := by
  refine (statements_keep_invariants_iff assignedCase_constraints assignedCase_invariants _).mpr ?_
  refine ⟨fun _ => trivial, fun _ => ?_, trivial⟩
  have hnames : ∀ q ∈ assignedCase.person, q.name ≠ none := by decide
  intro p _ q hq _ q' hq'
  obtain rfl := Option.some.inj hq'
  by_cases hid : q.id = 9
  · simp [hid]
  · simpa [hid] using hnames q hq

/-- The name of a policeman can be taken from the person he refers to. -/
theorem policeman_loses_name :
    let erase : Statement := .person (.update (·.id = 9) fun q => { q with name := none })
    Constraints assignedCase ∧ Invariants assignedCase ∧
      ∃ db', erase.execute assignedCase = .ok db' ∧ ¬ Named db' :=
  ⟨assignedCase_constraints, assignedCase_invariants, { assignedCase with
    person := [⟨7, some "Ptolemaios Pryce"⟩, ⟨8, some "Nix Gottlieb"⟩, ⟨9, none⟩] },
    by decide, by decide⟩

end Itmo.Police
