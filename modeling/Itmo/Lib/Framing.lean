import Mathlib.Data.List.Infix
import Mathlib.Data.Nat.Notation

/-! Messages on a byte stream without length prefixes. A codec reads the first
message of a buffer and fails on a part of one; the transport cuts the stream
into chunks of its own choice, and a position where a chunk ends is a boundary. -/

namespace Itmo.Lib

variable {α β : Type*}

/-! ### Codecs -/

/-- Why a buffer holds no message: it is part of one, or it starts with none. -/
inductive DecodeError where
  | incomplete
  | corrupt
  deriving DecidableEq

/-- A buffer decodes to the message it starts with, and part of a message is
recognised as such. -/
structure Codec (α β : Type*) where
  encode : α → List β
  decode : List β → Except DecodeError α
  encode_ne_nil : ∀ a, encode a ≠ []
  decode_eq_ok : ∀ bs a, decode bs = .ok a ↔ encode a <+: bs
  decode_incomplete : ∀ bs a, bs <+: encode a → bs ≠ encode a → decode bs = .error .incomplete

namespace Codec

variable (codec : Codec α β)

theorem encode_length_pos (a : α) : 0 < (codec.encode a).length :=
  List.length_pos_of_ne_nil (codec.encode_ne_nil a)

theorem flatMap_encode_length_pos {as : List α} (h : as ≠ []) :
    0 < (as.flatMap codec.encode).length := by
  cases as with
  | nil => exact absurd rfl h
  | cons a as =>
    have ha := codec.encode_length_pos a
    rw [List.flatMap_cons, List.length_append]
    omega

variable [DecidableEq α] [DecidableEq β]

/-- Messages as words of one length. -/
def ofWords (all : List α) (encode : α → List β) (n : ℕ) (hall : ∀ a, a ∈ all)
    (hlength : ∀ a, (encode a).length = n + 1) (hinj : ∀ a b, encode a = encode b → a = b) :
    Codec α β where
  encode := encode
  decode bs := match all.find? fun a => encode a <+: bs with
    | some a => .ok a
    | none => .error (if all.any fun a => bs <+: encode a then .incomplete else .corrupt)
  encode_ne_nil a h := by simpa [h] using hlength a
  decode_eq_ok bs a := by
    cases hf : all.find? fun a => encode a <+: bs with
    | some b =>
      have hb : encode b <+: bs := by simpa using List.find?_some hf
      simp only [Except.ok.injEq]
      constructor
      · rintro rfl
        exact hb
      · intro ha
        have hl : (encode b).length = (encode a).length := by rw [hlength, hlength]
        exact hinj _ _ ((List.prefix_of_prefix_length_le hb ha hl.le).eq_of_length hl)
    | none =>
      have hn : ¬ encode a <+: bs := by simpa using List.find?_eq_none.mp hf a (hall a)
      simp [hn]
  decode_incomplete bs a ha hne := by
    have hlt : bs.length < n + 1 := by
      have hle := ha.length_le
      have hneq : bs.length ≠ (encode a).length := fun h => hne (ha.eq_of_length h)
      rw [hlength] at hle hneq
      omega
    have hf : all.find? (fun a => encode a <+: bs) = none := by
      rw [List.find?_eq_none]
      intro b _ hb
      have hle := (of_decide_eq_true hb).length_le
      rw [hlength] at hle
      omega
    have hany : (all.any fun a => bs <+: encode a) = true :=
      List.any_eq_true.mpr ⟨a, hall a, by simpa using ha⟩
    simp only [hf, hany, if_true]

end Codec

/-! ### Boundaries -/

/-- Some of the chunks are `n` bytes together, from the first one on. -/
def Boundary (chunks : List (List β)) (n : ℕ) : Prop :=
  ∃ read, read <+: chunks ∧ read.flatten.length = n

theorem boundary_cons_iff {c : List β} {cs : List (List β)} {n : ℕ} (h : 0 < n) :
    Boundary (c :: cs) n ↔ c.length ≤ n ∧ Boundary cs (n - c.length) := by
  constructor
  · rintro ⟨read, hread, hn⟩
    cases read with
    | nil =>
      simp at hn
      omega
    | cons c' read =>
      rw [List.cons_prefix_cons] at hread
      obtain ⟨rfl, hread⟩ := hread
      rw [List.flatten_cons, List.length_append] at hn
      exact ⟨by omega, read, hread, by omega⟩
  · rintro ⟨hc, read, hread, hn⟩
    refine ⟨c :: read, ?_, ?_⟩
    · rw [List.cons_prefix_cons]
      exact ⟨rfl, hread⟩
    · rw [List.flatten_cons, List.length_append]
      omega

/-- Within the first chunk, only its end is a boundary. -/
theorem boundary_cons_iff_of_le {c : List β} {cs : List (List β)} {n : ℕ} (h : 0 < n)
    (hc : n ≤ c.length) : Boundary (c :: cs) n ↔ n = c.length := by
  rw [boundary_cons_iff h]
  constructor
  · rintro ⟨hle, -⟩
    omega
  · rintro rfl
    exact ⟨le_rfl, [], List.nil_prefix, by simp⟩

/-- Reading part of a chunk, or all of it, moves the boundaries. -/
theorem boundary_drop_iff {c : List β} {cs : List (List β)} {k n : ℕ} (hk : k ≤ c.length)
    (h : 0 < n) : Boundary (c.drop k :: cs) n ↔ Boundary (c :: cs) (k + n) := by
  rw [boundary_cons_iff h, boundary_cons_iff (by omega), List.length_drop]
  have h₁ : c.length - k ≤ n ↔ c.length ≤ k + n := by omega
  have h₂ : n - (c.length - k) = k + n - c.length := by omega
  rw [h₁, h₂]

end Itmo.Lib
