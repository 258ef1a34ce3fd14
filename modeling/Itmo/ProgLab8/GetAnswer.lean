import Itmo.Lib.Framing

/-! The client's side of an answer. `getAnswer` fills a fresh buffer read by read
and tries to deserialize it after each read, so an answer ends where the first
object in the buffer does; whatever the last read brought beyond that object is
dropped with the buffer. -/

namespace Itmo.ProgLab8

open Lib

/-- `BufferSize.BUFFER_SIZE` -/
def BUFFER_SIZE : ℕ := 32 * 1024

variable {α β : Type} (codec : Codec α β)

/-! ### The server's side -/

/-- `Serializer.serialize`: a longer object overflows the buffer. -/
def serialize (a : α) : Option (List β) :=
  if (codec.encode a).length ≤ BUFFER_SIZE then some (codec.encode a) else none

/-- The answers that `SendAnswer` gets onto the connection. -/
def sent (answers : List α) : List α := answers.filter fun a => (serialize codec a).isSome

/-- The bytes on the connection. -/
def stream (answers : List α) : List β := (answers.filterMap (serialize codec)).flatten

/-! ### The client's side -/

/-- How a call of `getAnswer` ends: with an answer, with an `IOException` other
than the end of the buffer, or without an answer, because it reads no more bytes. -/
inductive Outcome (α : Type) where
  | answer (a : α)
  | exception
  | noAnswer
  deriving DecidableEq

/-- The loop of `getAnswer` with the bytes read so far, and the chunks that are
left for later reads. A read takes what is there of one chunk, as far as it fits;
a full buffer reads nothing, again and again. -/
def getAnswerFrom (byteBuffer : List β) : List (List β) → Outcome α × List (List β)
  | [] => (.noAnswer, [])
  | c :: cs =>
    let remaining := BUFFER_SIZE - byteBuffer.length
    let left := if c.length ≤ remaining then cs else c.drop remaining :: cs
    match codec.decode (byteBuffer ++ c.take remaining) with
    | .ok a => (.answer a, left)
    | .error .corrupt => (.exception, left)
    | .error .incomplete =>
      if c.length ≤ remaining then getAnswerFrom (byteBuffer ++ c) cs else (.noAnswer, left)

def getAnswer (chunks : List (List β)) : Outcome α × List (List β) := getAnswerFrom codec [] chunks

/-- The outcomes of `n` calls, one after the other. -/
def getAnswers : ℕ → List (List β) → List (Outcome α)
  | 0, _ => []
  | n + 1, chunks => (getAnswer codec chunks).1 :: getAnswers n (getAnswer codec chunks).2

/-- Every answer but the last ends where a read ends: at a boundary of the
chunks, or where the buffer is full. -/
def EndsWithRead (chunks : List (List β)) (answers : List α) : Prop :=
  ∀ before a next after, answers = before ++ a :: next :: after →
    Boundary chunks ((before ++ [a]).flatMap codec.encode).length ∨
      (codec.encode a).length = BUFFER_SIZE

/-! ### One call -/

variable {codec}

/-- What `left` holds. -/
theorem flatten_left (c : List β) (cs : List (List β)) (n : ℕ) :
    (if c.length ≤ n then cs else c.drop n :: cs).flatten =
      (c :: cs).flatten.drop (c.take n).length := by
  by_cases h : c.length ≤ n
  · rw [if_pos h, List.take_of_length_le h, List.flatten_cons, List.drop_left]
  · rw [if_neg h, List.flatten_cons, List.flatten_cons, List.length_take,
      List.drop_append_of_le_length (by omega), Nat.min_eq_left (by omega)]

/-- A call that returns `a` has taken at least the bytes of `a`. -/
theorem getAnswerFrom_length_le {buf : List β} {chunks left : List (List β)} {a : α}
    (h : getAnswerFrom codec buf chunks = (.answer a, left)) :
    (codec.encode a).length + left.flatten.length ≤ buf.length + chunks.flatten.length := by
  induction chunks generalizing buf with
  | nil => cases h
  | cons c cs ih =>
    unfold getAnswerFrom at h
    simp only at h
    split at h
    · rename_i b hb
      obtain ⟨rfl, rfl⟩ : b = a ∧ _ = left := by simpa using h
      have hle := ((codec.decode_eq_ok _ _).mp hb).length_le
      have hc := List.length_take_le' (BUFFER_SIZE - buf.length) c
      rw [List.length_append] at hle
      rw [flatten_left, List.length_drop]
      rw [List.flatten_cons, List.length_append]
      omega
    · cases h
    · split_ifs at h
      · have := ih h
        simp only [List.flatten_cons, List.length_append] at this ⊢
        omega
      · cases h

/-- A read that stays within the answer: the loop goes on. -/
theorem getAnswerFrom_cons_of_lt {a : α} {buf c rest : List β} {cs : List (List β)}
    (ha : (codec.encode a).length ≤ BUFFER_SIZE) (h : buf ++ c ++ rest = codec.encode a)
    (hr : rest ≠ []) : getAnswerFrom codec buf (c :: cs) = getAnswerFrom codec (buf ++ c) cs := by
  have hlen := congrArg List.length h
  rw [List.length_append, List.length_append] at hlen
  have hc : c.length ≤ BUFFER_SIZE - buf.length := by omega
  have hdec : codec.decode (buf ++ c) = .error .incomplete := by
    apply codec.decode_incomplete _ a
    · rw [← h]
      exact List.prefix_append _ _
    · rw [← h]
      simpa using hr
  rw [getAnswerFrom]
  simp only [List.take_of_length_le hc, hdec, hc, if_true]

/-- A read that completes the answer, and may go beyond it. -/
theorem getAnswerFrom_cons_of_le {a : α} {buf c : List β} {cs : List (List β)}
    (h : codec.encode a <+: buf ++ c.take (BUFFER_SIZE - buf.length)) :
    getAnswerFrom codec buf (c :: cs) = (.answer a,
      if c.length ≤ BUFFER_SIZE - buf.length then cs
      else c.drop (BUFFER_SIZE - buf.length) :: cs) := by
  rw [getAnswerFrom]
  simp only [(codec.decode_eq_ok _ a).mpr h]

variable (codec) in
/-- A call with `rest`, the missing part of `a`, and `tail` in front of it: it
returns `a`, and of `tail` it drops the first `d` bytes, none exactly if the answer
ends with a read. -/
structure Call (buf : List β) (chunks : List (List β)) (a : α) (rest tail : List β)
    (left : List (List β)) (d : ℕ) : Prop where
  returns : getAnswerFrom codec buf chunks = (.answer a, left)
  flatten : left.flatten = tail.drop d
  dropped_le : d ≤ tail.length
  dropped_iff : d = 0 ↔ Boundary chunks rest.length ∨ (codec.encode a).length = BUFFER_SIZE
  boundary_iff : d = 0 → ∀ n, 0 < n → (Boundary left n ↔ Boundary chunks (rest.length + n))

/-- A read that stays within the answer leaves the rest to the following reads. -/
theorem Call.cons {a : α} {buf c rest tail : List β} {cs left : List (List β)} {d : ℕ}
    (h : Call codec (buf ++ c) cs a rest tail left d)
    (ha : (codec.encode a).length ≤ BUFFER_SIZE) (hbuf : buf ++ c ++ rest = codec.encode a)
    (hrest : rest ≠ []) : Call codec buf (c :: cs) a (c ++ rest) tail left d := by
  have hpos : 0 < rest.length := List.length_pos_of_ne_nil hrest
  refine ⟨?_, h.flatten, h.dropped_le, ?_, ?_⟩
  · rw [getAnswerFrom_cons_of_lt ha hbuf hrest, h.returns]
  · rw [h.dropped_iff, List.length_append, boundary_cons_iff (by omega), Nat.add_sub_cancel_left]
    simp
  · intro h0 n hn
    rw [h.boundary_iff h0 n hn, List.length_append, boundary_cons_iff (by omega)]
    simp [Nat.add_assoc]

/-- A read that reaches the end of the answer drops what it got beyond it. -/
theorem Call.last {a : α} {buf c rest tail : List β} {cs : List (List β)}
    (ha : (codec.encode a).length ≤ BUFFER_SIZE) (hbuf : buf ++ rest = codec.encode a)
    (hrest : rest ≠ []) (h : c ++ cs.flatten = rest ++ tail) (hc : rest.length ≤ c.length) :
    ∃ left d, Call codec buf (c :: cs) a rest tail left d := by
  have hpos : 0 < rest.length := List.length_pos_of_ne_nil hrest
  have hlen : buf.length + rest.length = (codec.encode a).length := by
    rw [← hbuf, List.length_append]
  have hlen' := congrArg List.length h
  rw [List.length_append, List.length_append] at hlen'
  have hgot : (c.take (BUFFER_SIZE - buf.length)).length =
      min (BUFFER_SIZE - buf.length) c.length := List.length_take
  have hpre : rest <+: c.take (BUFFER_SIZE - buf.length) := by
    have h₁ : rest <+: c ++ cs.flatten := by
      rw [h]
      exact List.prefix_append _ _
    have h₂ : c.take (BUFFER_SIZE - buf.length) <+: c ++ cs.flatten :=
      (List.take_prefix _ _).trans (List.prefix_append _ _)
    exact List.prefix_of_prefix_length_le h₁ h₂ (by omega)
  have hcall : codec.encode a <+: buf ++ c.take (BUFFER_SIZE - buf.length) := by
    rw [← hbuf, List.prefix_append_right_inj]
    exact hpre
  refine ⟨_, (c.take (BUFFER_SIZE - buf.length)).length - rest.length,
    getAnswerFrom_cons_of_le hcall, ?_, ?_, ?_, ?_⟩
  · rw [flatten_left, List.flatten_cons, h, List.drop_append,
      List.drop_of_length_le (by omega), List.nil_append]
  · omega
  · rw [boundary_cons_iff_of_le hpos (by omega)]
    omega
  · intro h0 n hn
    by_cases hfit : c.length ≤ BUFFER_SIZE - buf.length
    · rw [if_pos hfit, boundary_cons_iff (by omega)]
      have hn' : rest.length + n - c.length = n := by omega
      rw [hn']
      constructor
      · intro hb
        exact ⟨by omega, hb⟩
      · exact fun hb => hb.2
    · rw [if_neg hfit, boundary_drop_iff (by omega) hn]
      have hroom : BUFFER_SIZE - buf.length = rest.length := by omega
      rw [hroom]

/-- Whenever the missing part of an answer comes next, the call is such a call. -/
theorem exists_call {a : α} {tail : List β} (ha : (codec.encode a).length ≤ BUFFER_SIZE)
    {buf rest : List β} {chunks : List (List β)} (hbuf : buf ++ rest = codec.encode a)
    (hrest : rest ≠ []) (h : chunks.flatten = rest ++ tail) :
    ∃ left d, Call codec buf chunks a rest tail left d := by
  induction chunks generalizing buf rest with
  | nil => simp [hrest] at h
  | cons c cs ih =>
    rw [List.flatten_cons] at h
    by_cases hc : c.length < rest.length
    · obtain ⟨rest', rfl⟩ : c <+: rest :=
        List.prefix_of_prefix_length_le (List.prefix_append c _) ⟨tail, h.symm⟩ hc.le
      rw [List.length_append] at hc
      have hrest' : rest' ≠ [] := List.ne_nil_of_length_pos (by omega)
      rw [← List.append_assoc] at hbuf
      rw [List.append_assoc, List.append_cancel_left_eq] at h
      obtain ⟨left, d, hcall⟩ := ih hbuf hrest' h
      exact ⟨left, d, hcall.cons ha hbuf hrest'⟩
    · exact Call.last ha hbuf hrest h (Nat.le_of_not_lt hc)

/-! ### All calls -/

theorem mem_sent {answers : List α} {a : α} (h : a ∈ sent codec answers) :
    (codec.encode a).length ≤ BUFFER_SIZE := by
  have hs := (List.mem_filter.mp h).2
  unfold serialize at hs
  by_contra hlt
  simp [hlt] at hs

theorem stream_eq (answers : List α) :
    stream codec answers = (sent codec answers).flatMap codec.encode := by
  unfold stream sent
  induction answers with
  | nil => rfl
  | cons a answers ih =>
    by_cases h : (codec.encode a).length ≤ BUFFER_SIZE
    · have hs : serialize codec a = some (codec.encode a) := if_pos h
      simp [hs, ih]
    · have hs : serialize codec a = none := if_neg h
      simp [hs, ih]

/-- Calls that return these answers have taken at least their bytes. -/
theorem getAnswers_length_le {as : List α} {chunks : List (List β)}
    (h : getAnswers codec as.length chunks = as.map .answer) :
    (as.flatMap codec.encode).length ≤ chunks.flatten.length := by
  induction as generalizing chunks with
  | nil => simp
  | cons a as ih =>
    rw [List.length_cons, getAnswers, List.map_cons, List.cons.injEq] at h
    have htail := ih h.2
    have hcall : getAnswer codec chunks = (.answer a, (getAnswer codec chunks).2) :=
      Prod.ext h.1 rfl
    have hhead := getAnswerFrom_length_le hcall
    rw [List.flatMap_cons, List.length_append]
    simp only [List.length_nil] at hhead
    omega

theorem endsWithRead_singleton (chunks : List (List β)) (a : α) :
    EndsWithRead codec chunks [a] := by
  intro before b next after h
  have hl := congrArg List.length h
  simp at hl
  omega

/-- The first answer, and the others on the chunks that are left. -/
theorem endsWithRead_cons_iff {chunks left : List (List β)} {a b : α} {as : List α}
    (hfirst : Boundary chunks (codec.encode a).length ∨ (codec.encode a).length = BUFFER_SIZE)
    (hleft : ∀ n, 0 < n → (Boundary left n ↔ Boundary chunks ((codec.encode a).length + n))) :
    EndsWithRead codec left (b :: as) ↔ EndsWithRead codec chunks (a :: b :: as) := by
  have hshift : ∀ before x, Boundary left ((before ++ [x]).flatMap codec.encode).length ↔
      Boundary chunks ((a :: before ++ [x]).flatMap codec.encode).length := by
    intro before x
    have hpos : 0 < ((before ++ [x]).flatMap codec.encode).length :=
      codec.flatMap_encode_length_pos (by simp)
    rw [hleft _ hpos, List.cons_append, List.flatMap_cons, List.length_append]
  constructor
  · intro h before x next after he
    cases before with
    | nil =>
      simp only [List.nil_append, List.cons.injEq] at he
      obtain ⟨rfl, -⟩ := he
      simpa using hfirst
    | cons a' before =>
      simp only [List.cons_append, List.cons.injEq] at he
      obtain ⟨rfl, he⟩ := he
      rw [← hshift]
      exact h before x next after he
  · intro h before x next after he
    rw [hshift]
    exact h (a :: before) x next after (by rw [he]; rfl)

theorem getAnswers_eq_iff_of_le {as : List α}
    (hsize : ∀ a ∈ as, (codec.encode a).length ≤ BUFFER_SIZE) {chunks : List (List β)}
    (h : chunks.flatten = as.flatMap codec.encode) :
    getAnswers codec as.length chunks = as.map .answer ↔ EndsWithRead codec chunks as := by
  induction as generalizing chunks with
  | nil =>
    refine ⟨fun _ before a next after he => ?_, fun _ => rfl⟩
    simp at he
  | cons a as ih =>
    rw [List.forall_mem_cons] at hsize
    rw [List.flatMap_cons] at h
    obtain ⟨left, d, hcall⟩ := exists_call hsize.1 (List.nil_append _) (codec.encode_ne_nil a) h
    have hreturns : getAnswer codec chunks = (.answer a, left) := hcall.returns
    have hrest : getAnswers codec (a :: as).length chunks = (a :: as).map .answer ↔
        getAnswers codec as.length left = as.map .answer := by
      rw [List.length_cons, getAnswers, hreturns, List.map_cons, List.cons.injEq]
      simp
    rw [hrest]
    cases as with
    | nil =>
      refine ⟨fun _ => endsWithRead_singleton chunks a, fun _ => rfl⟩
    | cons b as =>
      by_cases h0 : d = 0
      · rw [ih hsize.2 (by rw [hcall.flatten, h0, List.drop_zero])]
        exact endsWithRead_cons_iff (hcall.dropped_iff.mp h0) (hcall.boundary_iff h0)
      · -- the call has dropped bytes of the next answers: too few are left for all of them
        constructor
        · intro hcalls
          have hle := getAnswers_length_le hcalls
          rw [hcall.flatten, List.length_drop] at hle
          have hd := hcall.dropped_le
          omega
        · intro hread
          have hfirst := hread [] a b as rfl
          simp only [List.nil_append, List.flatMap_singleton] at hfirst
          exact absurd (hcall.dropped_iff.mpr hfirst) h0

/-- However the bytes of the answers arrive, the calls return the answers one by
one exactly if each answer but the last ends with a read. -/
theorem getAnswers_eq_iff (answers : List α) (chunks : List (List β))
    (h : chunks.flatten = stream codec answers) :
    getAnswers codec (sent codec answers).length chunks = (sent codec answers).map .answer ↔
      EndsWithRead codec chunks (sent codec answers) := by
  rw [stream_eq] at h
  exact getAnswers_eq_iff_of_le (fun _ ha => mem_sent ha) h

/-! ### The answers to a login -/

/-- `Account.logIn` sends both of them when the password is right. -/
inductive LogInAnswer where
  | TRUE
  | user
  deriving DecidableEq

/-- Objects after the header of a serialization stream. -/
def logInCodec : Codec LogInAnswer UInt8 :=
  .ofWords [.TRUE, .user]
    (fun
      | .TRUE => [0xAC, 0xED, 0x00, 0x05, 0x01]
      | .user => [0xAC, 0xED, 0x00, 0x05, 0x02])
    4 (by intro a; cases a <;> decide) (by intro a; cases a <;> rfl)
    (by intro a b; cases a <;> cases b <;> decide)

/-- Two reads for each of the answers. -/
theorem getAnswers_eq_iff_logIn :
    let chunks := [[0xAC, 0xED], [0x00, 0x05, 0x01], [0xAC, 0xED, 0x00, 0x05], [0x02]]
    EndsWithRead logInCodec chunks (sent logInCodec [.TRUE, .user]) :=
  (getAnswers_eq_iff [LogInAnswer.TRUE, .user] _ (by decide +kernel)).mp (by decide +kernel)

/-- Both answers in one read: the second one is lost. -/
theorem getAnswers_loses_coalesced :
    ¬ ∀ chunks : List (List UInt8), chunks.flatten = stream logInCodec [.TRUE, .user] →
      getAnswers logInCodec (sent logInCodec [.TRUE, .user]).length chunks =
        (sent logInCodec [.TRUE, .user]).map .answer := by
  intro h
  have hone := h [stream logInCodec [.TRUE, .user]] (List.flatten_singleton)
  revert hone
  decide +kernel

end Itmo.ProgLab8
