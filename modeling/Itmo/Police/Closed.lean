import Itmo.Police.Controllers

/-! A closed case stays closed. Requests check the state of a case and write it
in two steps, so a request may have passed its check before another one closed
the case; what stops its write is the trigger, which looks at the row as it is
when the update happens. -/

namespace Itmo.Police

open Lib

/-- The rows of `crime_case` about one crime. -/
def casesOf (db : Db) (crimeId : ℤ) : List CrimeCase :=
  db.crimeCase.filter (·.fkCrime = crimeId)

def Closed (db : Db) (crimeId : ℤ) : Prop :=
  ∃ r ∈ db.crimeCase, r.fkCrime = crimeId ∧ r.state = .CLOSE

instance (db : Db) (crimeId : ℤ) : Decidable (Closed db crimeId) :=
  inferInstanceAs (Decidable (∃ r ∈ db.crimeCase, _))

theorem checkClosed_ok {old : CrimeCase} (h : checkClosed old = .ok ()) : old.state ≠ .CLOSE := by
  intro hc
  simp [checkClosed, raiseIf, hc] at h

/-- No update of a closed row passes the trigger, whatever it sets. -/
theorem crimeCase_afterUpdate_ok {db : Db} {old new : CrimeCase}
    (h : crimeCaseTable.afterUpdate db old new = .ok ()) : old.state ≠ .CLOSE := by
  obtain ⟨_, _, h⟩ := bind_ok h
  obtain ⟨_, _, h⟩ := bind_ok h
  obtain ⟨_, hc, _⟩ := bind_ok h
  exact checkClosed_ok hc

/-- A second case of a crime that has one is not accepted. -/
theorem crimeCase_insert_rows {row : CrimeCase} {db db' : Db} {c : ℤ}
    (h : crimeCaseTable.insert row db = .ok db') (hc : Closed db c) :
    casesOf db' c = casesOf db c := by
  obtain ⟨rfl, hu, -⟩ := Table.insert_ok _ h
  obtain ⟨r, hr, rfl, -⟩ := hc
  have hn := noDuplicates_ok hu
  rw [List.map_append, List.nodup_append] at hn
  have hne : row.fkCrime ≠ r.fkCrime := fun he =>
    hn.2.2 _ (List.mem_map_of_mem hr) _ (by simp) he.symm
  simp [casesOf, crimeCaseTable, hne]

theorem crimeCase_updateState_rows {crimeId : ℤ} {state : CaseState} {db db' : Db} {c : ℤ}
    (h : CrimeCaseRepository.updateState crimeId state db = .ok db') (hc : Closed db c) :
    casesOf db' c = casesOf db c := by
  obtain ⟨rfl, -, ht⟩ := Table.update_ok crimeCaseTable h
  obtain ⟨r, hr, rfl, hclose⟩ := hc
  -- had the update reached the closed row, its trigger would have rejected the statement
  have hne : r.fkCrime ≠ crimeId := fun he =>
    crimeCase_afterUpdate_ok (ht r hr (by simpa using he)) hclose
  apply Table.filter_updated
  · intro x
    rfl
  · intro x hx
    have hx : x.fkCrime = crimeId := by simpa using hx
    simp [hx, hne.symm]

/-- An accepted write leaves every row of a closed case as it was. -/
theorem Write.exec_closed {w : Write} {db db' : Db} {c : ℤ} (h : w.exec db = .ok db')
    (hc : Closed db c) : casesOf db' c = casesOf db c := by
  cases w with
  | createCrimeCase crimeId series =>
    obtain ⟨_, _, _, _, h⟩ := CrimeCaseRepository.create_ok h
    exact crimeCase_insert_rows h hc
  | updateState crimeId state => exact crimeCase_updateState_rows h hc
  -- the other statements write to other tables
  | addOnCase crimeId slaveId status series =>
    obtain ⟨_, _, _, _, _, _, h⟩ := PolicemanCaseRepository.addOnCase_ok h
    obtain ⟨rfl, -⟩ := Table.insert_ok _ h
    rfl
  | updateOnCase crimeId slaveId status =>
    obtain ⟨rfl, -⟩ := Table.update_ok policemanCaseTable h
    rfl
  | createNote crimeId series text =>
    obtain ⟨_, _, _, _, _, _, h⟩ := NoteRepository.create_ok h
    obtain ⟨rfl, -⟩ := Table.insert_ok _ h
    rfl
  | addCaseRelation crimeId personId relation note series =>
    obtain ⟨_, _, _, _, _, _, h⟩ := PersonRelevantToCaseRepository.addCaseRelation_ok h
    obtain ⟨rfl, -⟩ := Table.insert_ok _ h
    rfl
  | updateCaseRelation crimeId personId relation note =>
    obtain ⟨rfl, -⟩ := Table.update_ok personRelevantToCaseTable h
    rfl

/-- One step of the interleaved system, whichever request it belongs to. -/
theorem interleavedStep_closed {s : Config} (e : Event) {c : ℤ} (hc : Closed s.db c) :
    casesOf (interleavedStep s e).db c = casesOf s.db c := by
  obtain h | ⟨w, -, h⟩ := interleavedStep_cases s e
  · rw [h]
  · exact Write.exec_closed h hc

theorem closed_iff_casesOf (db : Db) (c : ℤ) :
    Closed db c ↔ ∃ r ∈ casesOf db c, r.state = .CLOSE := by
  simp [Closed, casesOf, and_assoc]

/-- Whatever the database was at the start and whatever requests came before,
the rows of a case that is closed at some moment are the same at every later
moment. -/
theorem closed_case_unchanged (db : Db) (es fs : List Event) (c : ℤ)
    (hc : Closed (run interleavedStep ⟨db, []⟩ es).db c) :
    casesOf (run interleavedStep (run interleavedStep ⟨db, []⟩ es) fs).db c =
      casesOf (run interleavedStep ⟨db, []⟩ es).db c := by
  generalize run interleavedStep ⟨db, []⟩ es = s at hc ⊢
  have hinv : ∀ s' e, casesOf s'.db c = casesOf s.db c →
      casesOf (interleavedStep s' e).db c = casesOf s.db c := by
    intro s' e h
    have hc' : Closed s'.db c := by
      rw [closed_iff_casesOf] at hc ⊢
      rwa [h]
    rw [interleavedStep_closed e hc', h]
  exact run_invariant (fun s' : Config => casesOf s'.db c = casesOf s.db c) hinv rfl fs

/-- One crime, its case on work, and the major who owns it. -/
def oneCase : Db where
  precinct := [⟨41⟩]
  person := [⟨7, some "Ptolemaios Pryce"⟩]
  policeman := [⟨1, .MAJOR, "JAM41", 7, 41⟩]
  district := [⟨1, "Martinaise"⟩]
  precinctDistrict := [⟨1, 41⟩]
  crime := [⟨1, some 1⟩]
  crimeCase := [⟨1, .ON_WORK, 1⟩]
  policemanCase := []
  note := []
  personRelevantToCase := []
  nextNoteId := 1

/-- The owner's two requests both pass their check; the first closes the case,
and the second comes too late. -/
theorem closed_case_unchanged_race :
    let major : Session := ⟨"JAM41", .MAJOR⟩
    let before := run interleavedStep ⟨oneCase, []⟩
      [.check major (.updateCrimeCaseState 1 "close"),
        .check major (.updateCrimeCaseState 1 "on_work"), .write 0]
    before.pending = [.updateState 1 .ON_WORK] ∧
      casesOf (run interleavedStep before [.write 0]).db 1 = [⟨1, .CLOSE, 1⟩] := by
  refine ⟨by decide, ?_⟩
  exact (closed_case_unchanged oneCase _ [.write 0] 1 (by decide)).trans (by decide)

end Itmo.Police
