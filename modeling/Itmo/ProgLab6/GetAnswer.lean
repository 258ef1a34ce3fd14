import Itmo.Lib.Utf
import Itmo.ProgLab8.Java

/-! The answer of the first server on its way to a client. The server writes the characters
of the answer as UTF-8 (the charset of the platform, of an output stream writer that is not
closed) and closes the socket; the client reads into a cleared buffer until a read has
brought something and takes that for the whole answer. -/

namespace Itmo.ProgLab6

open Lib
open ProgLab8 (JString)

/-- `BufferSize.BUFFER_SIZE` -/
def BUFFER_SIZE : ℕ := 32 * 1024

/-- The bytes that `SendAnswer` gets onto the connection. -/
def sendAnswer (answer : JString) : List ℕ := Utf.encode (Utf.ofUnits answer)

namespace GetAnswer

/-- One `read` into the cleared buffer: the bytes it brings, and what later reads find. When
nothing has come it brings nothing, and so it does at the end of the stream. -/
def read : List (List ℕ) → List ℕ × List (List ℕ)
  | [] => ([], [])
  | chunk :: chunks => (chunk.take BUFFER_SIZE,
      if chunk.length ≤ BUFFER_SIZE then chunks else chunk.drop BUFFER_SIZE :: chunks)

/-- At most `n` turns of the loop, and the text of the bytes that the last one has read. -/
def getAnswer : ℕ → List (List ℕ) → Option JString
  | 0, _ => none
  | n + 1, chunks =>
    let (byteBuffer, chunks) := read chunks
    if byteBuffer.isEmpty then getAnswer n chunks else some (Utf.toUnits (Utf.decode byteBuffer))

/-- The bytes of the first read that brings any. -/
def firstRead : List (List ℕ) → List ℕ
  | [] => []
  | chunk :: chunks => if chunk.isEmpty then firstRead chunks else chunk.take BUFFER_SIZE

/-- Bytes of the answer that may be missing. -/
def spare (answer : JString) : ℕ := if answer.getLast? = some 0xFFFD then 2 else 0

/-! ### One answer -/

theorem take_isEmpty (chunk : List ℕ) : (chunk.take BUFFER_SIZE).isEmpty = chunk.isEmpty := by
  cases chunk <;> rfl

theorem getAnswer_nil (n : ℕ) : getAnswer n [] = none := by
  induction n with
  | zero => rfl
  | succ n ih => exact ih

/-- The loop returns the text of the first read that brings something, and does not end
without one. -/
theorem getAnswer_eq_iff (chunks : List (List ℕ)) (text : JString) :
    (∃ n, getAnswer n chunks = some text) ↔
      firstRead chunks ≠ [] ∧ Utf.toUnits (Utf.decode (firstRead chunks)) = text := by
  induction chunks with
  | nil =>
    simp only [getAnswer_nil, firstRead, ne_eq, not_true, false_and, reduceCtorEq, exists_false]
  | cons chunk chunks ih =>
    have hturn : ∀ n, getAnswer (n + 1) (chunk :: chunks) =
        if chunk.isEmpty then getAnswer n (read (chunk :: chunks)).2
        else some (Utf.toUnits (Utf.decode (chunk.take BUFFER_SIZE))) := by
      intro n
      rw [← take_isEmpty]
      rfl
    rw [firstRead]
    by_cases hempty : chunk.isEmpty
    · -- nothing has come, and the loop goes on
      rw [if_pos hempty, ← ih]
      obtain rfl := List.isEmpty_iff.mp hempty
      constructor
      · rintro ⟨n, hn⟩
        cases n with
        | zero => cases hn
        | succ n => exact ⟨n, hn⟩
      · rintro ⟨n, hn⟩
        exact ⟨n + 1, hn⟩
    · rw [if_neg hempty]
      have hne : chunk.take BUFFER_SIZE ≠ [] := by
        rw [Ne, ← List.isEmpty_iff, take_isEmpty]
        exact hempty
      constructor
      · rintro ⟨n, hn⟩
        cases n with
        | zero => cases hn
        | succ n =>
          rw [hturn, if_neg hempty] at hn
          exact ⟨hne, Option.some_inj.mp hn⟩
      · rintro ⟨-, htext⟩
        exact ⟨1, by rw [hturn, if_neg hempty, htext]⟩

theorem firstRead_prefix (chunks : List (List ℕ)) : firstRead chunks <+: chunks.flatten := by
  induction chunks with
  | nil => exact List.prefix_refl _
  | cons chunk chunks ih =>
    rw [firstRead, List.flatten_cons]
    split_ifs with h
    · rw [List.isEmpty_iff.mp h, List.nil_append]
      exact ih
    · exact (List.take_prefix _ _).trans (List.prefix_append _ _)

theorem firstRead_eq_nil_iff (chunks : List (List ℕ)) :
    firstRead chunks = [] ↔ chunks.flatten = [] := by
  induction chunks with
  | nil => rfl
  | cons chunk chunks ih =>
    rw [firstRead, List.flatten_cons, List.append_eq_nil_iff]
    split_ifs with h
    · rw [ih, List.isEmpty_iff.mp h]
      simp
    · rw [← List.isEmpty_iff, take_isEmpty, ← List.isEmpty_iff]
      simp [h]

theorem spare_eq {answer : JString} (h : Utf.WellFormed answer) :
    spare answer = Utf.spare (Utf.ofUnits answer) := by
  have hlast := Utf.getLast_toUnits (Utf.ofUnits answer)
  unfold Utf.WellFormed at h
  rw [h] at hlast
  exact if_congr hlast rfl rfl

/-- The client gets exactly the answer if and only if there is something in it, no half of
a pair of units stands alone, and the first read that brings anything brings all of it but
for the end of a replacement character. -/
theorem getAnswer_iff {answer : JString} {chunks : List (List ℕ)}
    (h : chunks.flatten = sendAnswer answer) :
    (∃ n, getAnswer n chunks = some answer) ↔
      answer ≠ [] ∧ Utf.WellFormed answer ∧
        (sendAnswer answer).length ≤ (firstRead chunks).length + spare answer := by
  have hprefix : firstRead chunks <+: Utf.encode (Utf.ofUnits answer) := by
    have hpre := firstRead_prefix chunks
    rwa [h] at hpre
  rw [getAnswer_eq_iff, Utf.toUnits_eq_iff, Utf.decode_prefix_eq_iff hprefix, Ne,
    firstRead_eq_nil_iff, h]
  constructor
  · rintro ⟨hne, hwell, hlength⟩
    refine ⟨?_, hwell, ?_⟩
    · rintro rfl
      exact hne rfl
    · rw [spare_eq hwell]
      exact hlength
  · rintro ⟨hne, hwell, hlength⟩
    refine ⟨?_, hwell, ?_⟩
    · intro hnil
      have hlen := Utf.length_le_encode (Utf.ofUnits answer)
      have hbytes : (Utf.encode (Utf.ofUnits answer)).length = 0 := congrArg List.length hnil
      have hchars : Utf.ofUnits answer = [] := List.length_eq_zero_iff.mp (by omega)
      unfold Utf.WellFormed at hwell
      rw [hchars] at hwell
      exact hne hwell.symm
    · rw [spare_eq hwell] at hlength
      exact hlength

theorem getAnswer_one : ∃ n,
    getAnswer n [[], [0xD0, 0xB4, 0xD0, 0xB0], []] = some (.ofString "да") := by
  have hchunks : [[], [0xD0, 0xB4, 0xD0, 0xB0], []].flatten = sendAnswer (.ofString "да") := by
    decide
  exact (getAnswer_iff hchunks).mpr (by decide)

/-- The answer to `show` on an empty collection is empty, and the client waits forever. -/
theorem getAnswer_empty : ¬ ∀ (answer : JString) (chunks : List (List ℕ)),
    chunks.flatten = sendAnswer answer → ∃ n, getAnswer n chunks = some answer := by
  intro h
  obtain ⟨n, hn⟩ := h [] [] rfl
  rw [getAnswer_nil] at hn
  cases hn

end GetAnswer

end Itmo.ProgLab6
