import Itmo.Police.Ownership
import Mathlib.Data.List.Perm.Basic

/-! One assignment per subordinate and case. No key of `policeman_case` says so:
the service looks for an assignment before it inserts one, and two requests that
both look before either commits its insert get two rows. -/

namespace Itmo.Police

open Lib

/-- Crime and minor of every assignment. -/
def assignmentKeys (db : Db) : List (ℤ × ℤ) :=
  db.policemanCase.map fun r => (r.fkCrime, r.fkPolicemanMinor)

/-- At most one row for a crime and a minor. -/
def UniqueAssignments (db : Db) : Prop := (assignmentKeys db).Nodup

instance (db : Db) : Decidable (UniqueAssignments db) :=
  inferInstanceAs (Decidable (assignmentKeys db).Nodup)

/-- The crime and the minor for which a write inserts an assignment. -/
def Write.insertKey : Write → Option (ℤ × ℤ)
  | .addOnCase (some crime) (some minor) _ _ => some (crime, minor)
  | _ => none

/-- A pending insert that the database accepts is carried out for a crime and a
minor that have a row by now. -/
def LateInsert (c : Config) : Event → Prop
  | .check _ _ => False
  | .write i => ∃ w ∈ c.pending[i]?, (∃ key ∈ w.insertKey, key ∈ assignmentKeys c.db) ∧
      ∃ db', w.exec c.db = .ok db'

variable {db db' : Db} {c : Config}

/-- Only an insert of assignments changes the keys, and it adds one. -/
theorem exec_assignmentKeys {w : Write} (h : w.exec db = .ok db') :
    assignmentKeys db' = assignmentKeys db ++ w.insertKey.toList := by
  cases w with
  | createCrimeCase crimeId series =>
    obtain ⟨_, _, _, _, h⟩ := CrimeCaseRepository.create_ok h
    obtain ⟨rfl, -⟩ := Table.insert_ok crimeCaseTable h
    exact (List.append_nil _).symm
  | updateState crimeId state =>
    obtain ⟨rfl, -⟩ := Table.update_ok crimeCaseTable h
    exact (List.append_nil _).symm
  | addOnCase crimeId slaveId status series =>
    obtain ⟨major, crime, minor, -, rfl, rfl, hinsert⟩ := PolicemanCaseRepository.addOnCase_ok h
    obtain ⟨rfl, -⟩ := Table.insert_ok policemanCaseTable hinsert
    simp [assignmentKeys, policemanCaseTable, Write.insertKey]
  | updateOnCase crimeId slaveId status =>
    obtain ⟨rfl, -⟩ := Table.update_ok policemanCaseTable h
    rw [show (Write.updateOnCase crimeId slaveId status).insertKey.toList = [] from rfl,
      List.append_nil]
    apply Table.map_updated
    intro r
    rfl
  | createNote crimeId series text =>
    obtain ⟨_, _, _, _, _, _, h⟩ := NoteRepository.create_ok h
    obtain ⟨rfl, -⟩ := Table.insert_ok noteTable h
    exact (List.append_nil _).symm
  | addCaseRelation crimeId personId relation note series =>
    obtain ⟨_, _, _, _, _, _, h⟩ := PersonRelevantToCaseRepository.addCaseRelation_ok h
    obtain ⟨rfl, -⟩ := Table.insert_ok personRelevantToCaseTable h
    exact (List.append_nil _).symm
  | updateCaseRelation crimeId personId relation note =>
    obtain ⟨rfl, -⟩ := Table.update_ok personRelevantToCaseTable h
    exact (List.append_nil _).symm

theorem interleavedStep_check_db (session : Session) (request : Request) :
    (interleavedStep c (.check session request)).db = c.db := by
  simp only [interleavedStep]
  split <;> rfl

theorem interleavedStep_write_ok {i : ℕ} {w : Write} (hw : c.pending[i]? = some w)
    (h : w.exec c.db = .ok db') : interleavedStep c (.write i) = ⟨db', c.pending.eraseIdx i⟩ := by
  simp only [interleavedStep, hw, h]

theorem interleavedStep_write_error {i : ℕ} {w : Write} (hw : c.pending[i]? = some w) {e : DbError}
    (h : w.exec c.db = .error e) : (interleavedStep c (.write i)).db = c.db := by
  simp only [interleavedStep, hw, h]

theorem interleavedStep_write_none {i : ℕ} (hw : c.pending[i]? = none) :
    interleavedStep c (.write i) = c := by
  simp only [interleavedStep, hw]

/-- An insert keeps the assignments unique unless it is late. -/
theorem interleavedStep_unique_iff (c : Config) (e : Event) (h : UniqueAssignments c.db) :
    UniqueAssignments (interleavedStep c e).db ↔ ¬ LateInsert c e := by
  cases e with
  | check session request =>
    rw [interleavedStep_check_db]
    exact iff_of_true h not_false
  | write i =>
    cases hw : c.pending[i]? with
    | none =>
      rw [interleavedStep_write_none hw]
      refine iff_of_true h ?_
      rintro ⟨w, hmem, -⟩
      rw [hw] at hmem
      cases hmem
    | some w =>
      cases hexec : w.exec c.db with
      | error e =>
        rw [interleavedStep_write_error hw hexec]
        refine iff_of_true h ?_
        rintro ⟨w', hmem, -, db', hok⟩
        obtain rfl := Option.some.inj (hw.symm.trans hmem)
        rw [hexec] at hok
        cases hok
      | ok db' =>
        have hlate : LateInsert c (.write i) ↔ ∃ key ∈ w.insertKey, key ∈ assignmentKeys c.db := by
          constructor
          · rintro ⟨w', hmem, hkey, -⟩
            obtain rfl := Option.some.inj (hw.symm.trans hmem)
            exact hkey
          · intro hkey
            exact ⟨w, hw, hkey, db', hexec⟩
        have hnodup : (assignmentKeys c.db).Nodup := h
        rw [hlate, interleavedStep_write_ok hw hexec, UniqueAssignments, exec_assignmentKeys hexec]
        cases w.insertKey with
        | none => simp [hnodup]
        | some key =>
          rw [Option.toList_some, ← List.concat_eq_append, List.nodup_concat]
          simp [hnodup]

/-- For every interleaving of checks and writes: the assignments stay unique as
long as no insert comes after another one for the same crime and minor. -/
theorem unique_assignments_iff (c : Config) (h : UniqueAssignments c.db) (es : List Event) :
    Along interleavedStep (fun c e => UniqueAssignments (interleavedStep c e).db) c es ↔
      Along interleavedStep (fun c e => ¬ LateInsert c e) c es :=
  along_preserved_iff (fun c : Config => UniqueAssignments c.db) interleavedStep_unique_iff h es

/-- A case on work and its owner, who assigns the minor in two requests. -/
def unassigned : Config := ⟨{ assignedCase with policemanCase := [] }, []⟩

def assign : Event := .check ⟨"PTO41", .MAJOR⟩ (.policemanOnCasePut (some 1) (some 3) none)

/-- One request after the other: the second one finds the row of the first. -/
theorem unique_assignments_sequential :
    Along interleavedStep (fun c e => ¬ LateInsert c e) unassigned
      [assign, .write 0, assign, .write 0] :=
  (unique_assignments_iff unassigned (by decide) _).mp (by decide)

/-- Both look first: the minor is assigned twice. -/
theorem assigned_twice : UniqueAssignments unassigned.db ∧ unassigned.pending = [] ∧
    assignmentKeys (run interleavedStep unassigned [assign, assign, .write 0, .write 0]).db =
      [(1, 3), (1, 3)] ∧
    ¬ Along interleavedStep (fun c e => UniqueAssignments (interleavedStep c e).db) unassigned
      [assign, assign, .write 0, .write 0] := by
  refine ⟨by decide, rfl, by decide, by decide⟩

/-! ### Requests that do not overlap -/

/-- The crime and the minor of every insert that is waiting. -/
def pendingKeys (c : Config) : List (ℤ × ℤ) := c.pending.filterMap Write.insertKey

/-- A request is about to insert an assignment for which an insert is waiting. -/
def Overlaps (c : Config) : Event → Prop
  | .check session request => ∃ w status, check c.db session request = .ok (.write w status) ∧
      ∃ key ∈ w.insertKey, key ∈ pendingKeys c
  | .write _ => False

/-- Rows and waiting inserts all have different keys. -/
def Distinct (c : Config) : Prop := (assignmentKeys c.db ++ pendingKeys c).Nodup

theorem insertKey_fresh {w : Write} {series : String} (h : w.Allowed db series) {key : ℤ × ℤ}
    (hkey : key ∈ w.insertKey) : key ∉ assignmentKeys db := by
  intro hmem
  obtain ⟨r, hr, rfl⟩ := List.mem_map.mp hmem
  unfold Write.insertKey at hkey
  split at hkey
  · obtain ⟨hcrime, hminor⟩ := Prod.mk.inj (Option.some.inj hkey)
    exact h r hr ⟨by rw [hcrime], by rw [hminor]⟩
  · cases hkey

/-- A write takes its key from the waiting ones to the rows. -/
theorem pendingKeys_perm {i : ℕ} {w : Write} (hw : c.pending[i]? = some w) :
    (pendingKeys c).Perm (w.insertKey.toList ++ (c.pending.eraseIdx i).filterMap Write.insertKey) := by
  obtain ⟨hi, rfl⟩ := List.getElem?_eq_some_iff.mp hw
  have hperm := (List.getElem_cons_eraseIdx_perm hi).symm.filterMap Write.insertKey
  refine hperm.trans (List.Perm.of_eq ?_)
  cases h : c.pending[i].insertKey <;> simp [h]

theorem interleavedStep_distinct (c : Config) (e : Event) (h : Distinct c) (ho : ¬ Overlaps c e) :
    Distinct (interleavedStep c e) := by
  cases e with
  | check session request =>
    simp only [interleavedStep]
    split
    · rename_i w status hcheck
      cases hkey : w.insertKey with
      | none => simpa [Distinct, pendingKeys, hkey] using h
      | some key =>
        have hrow : key ∉ assignmentKeys c.db := insertKey_fresh (check_allowed hcheck) hkey
        have hpending : key ∉ pendingKeys c := fun hmem => ho ⟨w, status, hcheck, key, hkey, hmem⟩
        have hconcat : ((assignmentKeys c.db ++ pendingKeys c).concat key).Nodup :=
          h.concat (by simp [hrow, hpending])
        simpa [Distinct, pendingKeys, hkey] using hconcat
    · exact h
  | write i =>
    cases hw : c.pending[i]? with
    | none =>
      rw [interleavedStep_write_none hw]
      exact h
    | some w =>
      have hperm := (pendingKeys_perm hw).append_left (assignmentKeys c.db)
      have hnodup := hperm.nodup_iff.mp h
      cases hexec : w.exec c.db with
      | error e =>
        have hstep : interleavedStep c (.write i) = ⟨c.db, c.pending.eraseIdx i⟩ := by
          simp only [interleavedStep, hw, hexec]
        rw [hstep]
        exact hnodup.sublist ((List.sublist_append_right _ _).append_left _)
      | ok db' =>
        rw [interleavedStep_write_ok hw hexec, Distinct, exec_assignmentKeys hexec,
          List.append_assoc]
        exact hnodup

/-- Requests that do not overlap keep the assignments unique. -/
theorem unique_of_no_overlap (c : Config) (h : Distinct c) (es : List Event)
    (ho : Along interleavedStep (fun c e => ¬ Overlaps c e) c es) :
    Along interleavedStep (fun c e => UniqueAssignments (interleavedStep c e).db) c es := by
  refine ho.mono Distinct interleavedStep_distinct (fun c e hc he => ?_) h
  exact (List.nodup_append.mp (interleavedStep_distinct c e hc he)).1

end Itmo.Police
