import Itmo.Endec.RC6
import Mathlib.Logic.Function.Basic

/-! The key schedule of RC6 against the standard one. The standard mixes two arrays of
words, given here as functions, with one running number that is reduced modulo the
length of either array; the source keeps two cursors instead. An empty key has no
word to mix, and the source then panics at its first access. -/

namespace Itmo.Endec

open Lib

/-! ### The standard -/

/-- The variables of the standard schedule. -/
structure Schedule where
  S : ℕ → Word
  L : ℕ → Word
  A : Word
  B : Word

namespace Schedule

/-- The constants of 32-bit words, and the words `L` of the key. -/
def start (L : ℕ → Word) : Schedule where
  S i := 0xB7E15163#32 + BitVec.ofNat 32 i * 0x9E3779B9#32
  L := L
  A := 0
  B := 0

/-- Step `s` of a schedule with `c` words of key; a rotation is by the low five bits. -/
def step (c : ℕ) (t : Schedule) (s : ℕ) : Schedule :=
  let A := (t.S (s % 44) + t.A + t.B).rotateLeft 3
  let B := (t.L (s % c) + A + t.B).rotateLeft ((A + t.B).toNat % 32)
  { S := Function.update t.S (s % 44) A, L := Function.update t.L (s % c) B, A := A, B := B }

def run (L : ℕ → Word) (c : ℕ) : ℕ → Schedule
  | 0 => start L
  | n + 1 => (run L c n).step c n

end Schedule

/-- Word `j` of a key, little-endian and padded with zeros. -/
def keyWord (key : List Byte) (j : ℕ) : Word :=
  wordLE (key.getD (4 * j) 0) (key.getD (4 * j + 1) 0) (key.getD (4 * j + 2) 0)
    (key.getD (4 * j + 3) 0)

/-- The number of words of a key, the last of which may be partly filled. -/
def keyWords (key : List Byte) : ℕ := (key.length + 3) / 4

/-- The round keys of the standard schedule for 32-bit words and 20 rounds. -/
def standardKey (key : List Byte) (i : ℕ) : Word :=
  (Schedule.run (keyWord key) (keyWords key) (3 * max 44 (keyWords key))).S i

namespace RC6

/-! ### The cursors -/

/-- The variables of the source at step `n` are those of the standard. -/
structure Represents (c n : ℕ) (s : Mix) (t : Schedule) : Prop where
  keys : ∀ i (h : i < ROUNDS_EXTENDED), s.keys[i] = t.S i
  length : s.mainKey.length = c
  mainKey : ∀ j, j < c → s.mainKey[j]? = some (t.L j)
  a : s.a = t.A
  b : s.b = t.B
  i : s.i = n % ROUNDS_EXTENDED
  j : s.j = n % c

/-- No index is out of range, and the words are mixed as in the standard. -/
theorem step_eq {c n : ℕ} {s : Mix} {t : Schedule} (hc : 0 < c) (h : Represents c n s t) :
    s.step = some
      { keys := s.keys.set! s.i (t.step c n).A
        mainKey := s.mainKey.set s.j (t.step c n).B
        a := (t.step c n).A
        b := (t.step c n).B
        i := (s.i + 1) % ROUNDS_EXTENDED
        j := (s.j + 1) % s.mainKey.length } := by
  have hi : s.i < ROUNDS_EXTENDED := h.i ▸ Nat.mod_lt n (by decide)
  have hi' : s.i = n % 44 := h.i
  have hj : s.j < c := h.j ▸ Nat.mod_lt n hc
  have hkey : s.keys[s.i]? = some (t.S s.i) := by
    rw [Vector.getElem?_eq_getElem hi, h.keys _ hi]
  have hword := h.mainKey s.j hj
  have hne : ¬ s.mainKey.length = 0 := by
    rw [h.length]
    omega
  unfold Mix.step Schedule.step
  rw [hkey, Option.bind_eq_bind, Option.bind_some]
  dsimp only
  rw [hword, Option.bind_some, if_neg hne, BitVec.rotateLeft_mod_eq_rotateLeft, ← hi', ← h.j,
    h.a, h.b]

theorem step_represents {c n : ℕ} {s : Mix} {t : Schedule} (hc : 0 < c)
    (h : Represents c n s t) : ∃ s', s.step = some s' ∧ Represents c (n + 1) s' (t.step c n) := by
  have hi : s.i = n % 44 := h.i
  have hj : s.j < c := h.j ▸ Nat.mod_lt n hc
  refine ⟨_, step_eq hc h, ?_⟩
  constructor
  · intro i hlt
    dsimp only
    rw [Vector.getElem_set!, Schedule.step, ← hi]
    dsimp only
    rw [Function.update_apply]
    split_ifs with heq heq' heq'
    · rfl
    · exact absurd heq.symm heq'
    · exact absurd heq'.symm heq
    · exact h.keys i hlt
  · rw [List.length_set]
    exact h.length
  · intro j hlt
    dsimp only
    rw [List.getElem?_set, Schedule.step, ← h.j]
    dsimp only
    rw [Function.update_apply]
    split_ifs with heq hlt' heq' heq'
    · rfl
    · exact absurd heq.symm heq'
    · exact absurd (h.length ▸ hj) hlt'
    · exact absurd heq'.symm heq
    · exact h.mainKey j hlt
  · rfl
  · rfl
  · dsimp only
    rw [h.i, Nat.mod_add_mod]
  · dsimp only
    rw [h.j, h.length, Nat.mod_add_mod]

theorem run_represents {L : ℕ → Word} {c : ℕ} (hc : 0 < c) (m : ℕ) {n : ℕ} {s : Mix}
    (h : Represents c n s (.run L c n)) :
    ∃ s', Mix.run m s = some s' ∧ Represents c (n + m) s' (.run L c (n + m)) := by
  induction m generalizing n s with
  | zero => exact ⟨s, rfl, h⟩
  | succ m ih =>
    obtain ⟨s', hstep, hs'⟩ := step_represents hc h
    obtain ⟨s'', hrun, hs''⟩ := ih hs'
    refine ⟨s'', ?_, ?_⟩
    · rw [Mix.run, hstep]
      exact hrun
    · rwa [Nat.add_right_comm] at hs''

/-! ### Whole schedules -/

theorem initialKeys_fin : ∀ i : Fin ROUNDS_EXTENDED,
    initialKeys[i.val] = 0xB7E15163#32 + BitVec.ofNat 32 i * 0x9E3779B9#32 := by
  decide +kernel

theorem initialKeys_eq (i : ℕ) (h : i < ROUNDS_EXTENDED) :
    initialKeys[i] = 0xB7E15163#32 + BitVec.ofNat 32 i * 0x9E3779B9#32 :=
  initialKeys_fin ⟨i, h⟩

theorem toU32Extended_length (bytes : List Byte) (p : ExtendPolicy) :
    (toU32Extended bytes p).length = keyWords bytes := by
  rw [toU32Extended, List.length_map, chunks_length, keyWords]
  rfl

theorem start_represents (mainKey : List Byte) :
    Represents (keyWords mainKey) 0 ⟨initialKeys, toU32Extended mainKey (.fill 0), 0, 0, 0, 0⟩
      (.start (keyWord mainKey)) := by
  constructor
  · exact initialKeys_eq
  · exact toU32Extended_length mainKey _
  · intro j hj
    have hlt : 4 * j < mainKey.length := by
      rw [← lt_toU32Extended_length mainKey (.fill 0), toU32Extended_length]
      exact hj
    dsimp only
    rw [getElem?_toU32Extended, if_pos hlt]
    rfl
  · rfl
  · rfl
  · rfl
  · exact (Nat.zero_mod _).symm

/-- A key with at least one byte: no index is out of range, and the round keys are
those of the standard. -/
theorem new_eq {mainKey : List Byte} (h : mainKey ≠ []) : ∃ rc6, new mainKey = some rc6 ∧
    ∀ i (hi : i < ROUNDS_EXTENDED), rc6.keys[i] = standardKey mainKey i := by
  have hlength := List.length_pos_iff.mpr h
  have hc : 0 < keyWords mainKey := by
    unfold keyWords
    omega
  obtain ⟨s, hrun, hs⟩ := run_represents hc (3 * max 44 (keyWords mainKey))
    (start_represents mainKey)
  refine ⟨⟨s.keys⟩, ?_, ?_⟩
  · unfold new
    dsimp only
    rw [toU32Extended_length, max_comm]
    exact congrArg (Option.map fun s : Mix => RC6.mk s.keys) hrun
  · intro i hi
    have hkeys := hs.keys i hi
    rwa [Nat.zero_add] at hkeys

/-- An empty key panics. -/
theorem new_nil : new [] = none := by decide

/-- The key schedule ends, with the keys of the standard, exactly for a key that is
not empty. -/
theorem new_standard_iff (mainKey : List Byte) :
    (∃ rc6, new mainKey = some rc6 ∧
      ∀ i (hi : i < ROUNDS_EXTENDED), rc6.keys[i] = standardKey mainKey i) ↔ mainKey ≠ [] := by
  constructor
  · rintro ⟨rc6, hnew, -⟩ rfl
    rw [new_nil] at hnew
    cases hnew
  · exact new_eq

/-- The empty key has no schedule. -/
theorem empty_key_panics : ¬ ∀ mainKey : List Byte, ∃ rc6, new mainKey = some rc6 ∧
    ∀ i (hi : i < ROUNDS_EXTENDED), rc6.keys[i] = standardKey mainKey i := by
  intro h
  obtain ⟨rc6, hnew, -⟩ := h []
  rw [new_nil] at hnew
  cases hnew

end RC6

end Itmo.Endec
