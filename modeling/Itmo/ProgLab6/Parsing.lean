import Itmo.Lib.Except
import Itmo.ProgLab6.Saving
import Mathlib.Data.List.Infix

/-! Reading the blocks. A list, a map and a value call each other and move one index
along the blocks; a block that is neither punctuation nor a key is null if it
contains these letters, else a string if it has quotes, else the first number in it.
The blocks of a tree of values are read as that tree. -/

namespace Itmo.ProgLab6

open Lib ProgLab8

/-! ### The source -/

inductive Parsed (D : Type) where
  | list (l : List (Parsed D))
  | map (m : List (JString × Parsed D))
  | string (s : JString)
  | number (x : D)
  | null
  | object

namespace Parsed

variable {D : Type}

def asList : Parsed D → Option (List (Parsed D))
  | list l => some l
  | _ => none

/-- The entries of the map, in the order they were put in. -/
def asMap : Parsed D → Option (List (JString × Parsed D))
  | map m => some m
  | _ => none

def asString : Parsed D → Option JString
  | string s => some s
  | _ => none

def asNumber : Parsed D → Option D
  | number x => some x
  | _ => none

end Parsed

/-- The ends of lines that the point of a pattern does not match. -/
def isTerminator (c : UInt16) : Bool := isLineEnd c || c = 0x85 || c = 0x2028 || c = 0x2029

/-- The group of the pattern `"(.*)"` at the start of a text: up to the last quote
of the line. -/
def quotedAt (s : JString) : Option JString :=
  match s with
  | [] => none
  | c :: s =>
    if c = 0x22 then
      match (s.takeWhile fun c => !isTerminator c).reverse.dropWhile (· ≠ 0x22) with
      | [] => none
      | _ :: inside => some inside.reverse
    else none

def findQuoted : JString → Option JString
  | [] => none
  | c :: s => (quotedAt (c :: s)).or (findQuoted s)

/-- The pattern `-?\d+\.?\d*` at the start of a text. -/
def numberAt (s : JString) : Option JString :=
  let (minus, rest) := if [0x2D] <+: s then ([0x2D], s.tail) else ([], s)
  let point := rest.dropWhile isDigit
  match rest.takeWhile isDigit with
  | [] => none
  | d :: ds =>
    some (minus ++ d :: ds ++
      if [0x2E] <+: point then 0x2E :: point.tail.takeWhile isDigit else [])

def findNumber : JString → Option JString
  | [] => none
  | c :: s => (numberAt (c :: s)).or (findNumber s)

variable {D : Type} [Numbers D]

def parseObject (block : JString) : Except Throwable (Parsed D) :=
  if JString.ofString "null" <:+: block then .ok .null
  else match findQuoted block with
    | some s => .ok (.string s)
    | none =>
      match findNumber block with
      | some text =>
        match Platform.parseDouble text with
        | some x => .ok (.number x)
        | none => .error .NumberFormatException
      | none => .ok .object

/-- The white space of the pattern at either side of a key is part of the key. -/
def parseString (block : JString) : JString := (findQuoted block).getD []

/-- Whether a block ends in a unit. -/
def endsIn (c : UInt16) (block : JString) : Bool := block.getLast? = some c

mutual

/-- The blocks from the index on. The number is at least that of these blocks, and
every call leaves one of them behind. -/
def parseList : ℕ → List JString → Except Throwable (List (Parsed D) × List JString)
  | 0, blocks => .ok ([], blocks)
  | _ + 1, [] => .ok ([], [])
  | n + 1, block :: blocks =>
    if endsIn 0x5B block then do
      let (l, rest) ← parseList n blocks
      let (more, rest) ← parseList n rest.tail
      return (.list l :: more, rest)
    else if endsIn 0x5D block then .ok ([], block :: blocks)
    else if endsIn 0x7B block then do
      let (m, rest) ← parseMap n blocks
      let (more, rest) ← parseList n rest.tail
      return (.map m :: more, rest)
    else do
      let parsed ← parseObject block
      let (more, rest) ← parseList n blocks
      return (parsed :: more, rest)

/-- The last block is left alone. -/
def parseMap : ℕ → List JString → Except Throwable (List (JString × Parsed D) × List JString)
  | 0, blocks => .ok ([], blocks)
  | _ + 1, [] => .ok ([], [])
  | _ + 1, [block] => .ok ([], [block])
  | n + 1, block :: next :: blocks =>
    if endsIn 0x3A block then do
      let (value, rest) ← parseValue n (next :: blocks)
      let (more, rest) ← parseMap n rest.tail
      return ((parseString block, value) :: more, rest)
    else if endsIn 0x7D block then .ok ([], block :: next :: blocks)
    else parseMap n (next :: blocks)

def parseValue : ℕ → List JString → Except Throwable (Parsed D × List JString)
  | 0, _ => .error .IndexOutOfBoundsException
  | _ + 1, [] => .error .IndexOutOfBoundsException
  | n + 1, block :: blocks =>
    if endsIn 0x7B block then do
      let (m, rest) ← parseMap n blocks
      return (.map m, rest)
    else if endsIn 0x5B block then do
      let (l, rest) ← parseList n blocks
      return (.list l, rest)
    else do
      let parsed ← parseObject block
      return (parsed, block :: blocks)

end

/-- `parseFile` on the text of the file: the index starts behind the first block. -/
def parseFile (text : JString) : Except Throwable (Parsed D) := do
  let blocks := fileBlocks text
  let (l, _) ← parseList blocks.length blocks.tail
  return .list l

/-! ### Ends of blocks -/

theorem endsIn_eq_false {block : JString} {c : UInt16} (h : ∀ d ∈ block.getLast?, d ≠ c) :
    endsIn c block = false := by
  unfold endsIn
  rw [decide_eq_false_iff_not]
  intro hlast
  exact h c hlast rfl

theorem endsIn_of_ne {block : JString} {c d : UInt16} (h : endsIn c block = true) (hne : c ≠ d) :
    endsIn d block = false := by
  apply endsIn_eq_false
  rintro _ hlast rfl
  exact hne (Option.some.inj ((of_decide_eq_true h).symm.trans hlast))

theorem not_endsIn {block : JString} (h : ∀ c ∈ block.getLast?, isPunct c = false) {c : UInt16}
    (hc : isPunct c = true) : ¬ endsIn c block = true := by
  rw [endsIn_eq_false]
  · exact Bool.false_ne_true
  · rintro d hlast rfl
    rw [h d hlast] at hc
    cases hc

theorem endsIn_key (x : JString) : endsIn 0x3A (key x) = true := by
  simp [endsIn, key]

theorem endsIn_quoted (x : JString) {c : UInt16} (hc : 0x22 ≠ c) : endsIn c (quoted x) = false := by
  have hquote : endsIn 0x22 (quoted x) = true := decide_eq_true List.getLast?_concat
  exact endsIn_of_ne hquote hc

/-! ### One step of the parser -/

theorem parseList_close {block : JString} (h : endsIn 0x5D block = true) (n : ℕ)
    (blocks : List JString) :
    parseList (D := D) (n + 1) (block :: blocks) = .ok ([], block :: blocks) := by
  have hopen := endsIn_of_ne h (d := 0x5B) (by decide)
  rw [parseList, if_neg (by rw [hopen]; exact Bool.false_ne_true), if_pos h]

theorem parseList_list (n : ℕ) (blocks : List JString) :
    parseList (D := D) (n + 1) ([0x5B] :: blocks) = (parseList n blocks).bind fun p =>
      (parseList n p.2.tail).bind fun q => .ok (.list p.1 :: q.1, q.2) := by
  rw [parseList, if_pos (by decide)]
  rfl

theorem parseList_map (n : ℕ) (blocks : List JString) :
    parseList (D := D) (n + 1) ([0x7B] :: blocks) = (parseMap n blocks).bind fun p =>
      (parseList n p.2.tail).bind fun q => .ok (.map p.1 :: q.1, q.2) := by
  rw [parseList, if_neg (by decide), if_neg (by decide), if_pos (by decide)]
  rfl

theorem parseList_scalar {block : JString} (h : ∀ c ∈ block.getLast?, isPunct c = false) (n : ℕ)
    (blocks : List JString) :
    parseList (D := D) (n + 1) (block :: blocks) = (parseObject block).bind fun o =>
      (parseList n blocks).bind fun q => .ok (o :: q.1, q.2) := by
  rw [parseList, if_neg (not_endsIn h (by decide)), if_neg (not_endsIn h (by decide)),
    if_neg (not_endsIn h (by decide))]
  rfl

theorem parseMap_close {block : JString} (h : endsIn 0x7D block = true) (n : ℕ)
    (blocks : List JString) :
    parseMap (D := D) (n + 1) (block :: blocks) = .ok ([], block :: blocks) := by
  have hcolon := endsIn_of_ne h (d := 0x3A) (by decide)
  cases blocks with
  | nil => rfl
  | cons next blocks =>
    rw [parseMap, if_neg (by rw [hcolon]; exact Bool.false_ne_true), if_pos h]

theorem parseMap_skip {block : JString} (hcolon : endsIn 0x3A block = false)
    (hbrace : endsIn 0x7D block = false) (n : ℕ) (next : JString) (blocks : List JString) :
    parseMap (D := D) (n + 1) (block :: next :: blocks) = parseMap n (next :: blocks) := by
  rw [parseMap, if_neg (by rw [hcolon]; exact Bool.false_ne_true),
    if_neg (by rw [hbrace]; exact Bool.false_ne_true)]

theorem parseMap_entry {block : JString} (h : endsIn 0x3A block = true) (n : ℕ) (next : JString)
    (blocks : List JString) :
    parseMap (D := D) (n + 1) (block :: next :: blocks) =
      (parseValue n (next :: blocks)).bind fun p =>
        (parseMap n p.2.tail).bind fun q => .ok ((parseString block, p.1) :: q.1, q.2) := by
  rw [parseMap, if_pos h]
  rfl

theorem parseValue_list (n : ℕ) (blocks : List JString) :
    parseValue (D := D) (n + 1) ([0x5B] :: blocks) =
      (parseList n blocks).bind fun p => .ok (.list p.1, p.2) := by
  rw [parseValue, if_neg (by decide), if_pos (by decide)]
  rfl

theorem parseValue_map (n : ℕ) (blocks : List JString) :
    parseValue (D := D) (n + 1) ([0x7B] :: blocks) =
      (parseMap n blocks).bind fun p => .ok (.map p.1, p.2) := by
  rw [parseValue, if_pos (by decide)]
  rfl

theorem parseValue_scalar {block : JString} (h : ∀ c ∈ block.getLast?, isPunct c = false) (n : ℕ)
    (blocks : List JString) :
    parseValue (D := D) (n + 1) (block :: blocks) =
      (parseObject block).bind fun o => .ok (o, block :: blocks) := by
  rw [parseValue, if_neg (not_endsIn h (by decide)), if_neg (not_endsIn h (by decide))]
  rfl

/-! ### The tree that is read -/

mutual

/-- What the blocks of a tree are read as. -/
def Json.decode : Json → Except Throwable (Parsed D)
  | .scalar block =>
    if endsIn 0x7B block || endsIn 0x5B block then .error .ClassCastException
    else parseObject block
  | .object fields => do return .map (← fields.decode)

def Fields.decode : Fields → Except Throwable (List (JString × Parsed D))
  | .nil => .ok []
  | .cons name value rest => do
    let parsed ← value.decode
    let more ← rest.decode
    return (parseString (key name), parsed) :: more

end

theorem Json.blocks_ne_nil (j : Json) : ∃ b bs, j.blocks = b :: bs := by
  cases j with
  | scalar block => exact ⟨block, [], rfl⟩
  | object fields => exact ⟨_, _, rfl⟩

theorem Json.object_blocks_append (fields : Fields) (rest : List JString) :
    (Json.object fields).blocks ++ rest = [0x7B] :: (fields.blocks ++ [0x7D] :: rest) := by
  unfold Json.blocks
  rw [List.cons_append, List.append_assoc, List.singleton_append]

mutual

/-- The index is left on the last block of the value. -/
theorem parseValue_blocks (j : Json) {o : Parsed D} (h : j.decode = .ok o) (rest : List JString)
    {n : ℕ} (hn : (j.blocks ++ rest).length ≤ n) :
    ∃ last, parseValue n (j.blocks ++ rest) = .ok (o, last :: rest) := by
  cases j with
  | scalar block =>
    unfold Json.decode at h
    unfold Json.blocks at hn ⊢
    cases n with
    | zero => simp at hn
    | succ n =>
      split_ifs at h with hends
      rw [Bool.or_eq_true, not_or] at hends
      refine ⟨block, ?_⟩
      rw [List.singleton_append, parseValue, if_neg hends.1, if_neg hends.2, h]
      rfl
  | object fields =>
    unfold Json.decode at h
    obtain ⟨m, hm, h⟩ := bind_ok h
    cases h
    rw [Json.object_blocks_append] at hn ⊢
    cases n with
    | zero => simp at hn
    | succ n =>
      refine ⟨[0x7D], ?_⟩
      have hfields := parseMap_blocks fields hm rest (Nat.le_of_succ_le_succ hn)
      rw [parseValue_map, hfields]
      rfl

/-- The fields of an object and the brace behind them. -/
theorem parseMap_blocks (fields : Fields) {m : List (JString × Parsed D)}
    (h : fields.decode = .ok m) (rest : List JString) {n : ℕ}
    (hn : (fields.blocks ++ [0x7D] :: rest).length ≤ n) :
    parseMap n (fields.blocks ++ [0x7D] :: rest) = .ok (m, [0x7D] :: rest) := by
  cases fields with
  | nil =>
    cases h
    unfold Fields.blocks at hn ⊢
    cases n with
    | zero => simp at hn
    | succ n => exact parseMap_close (by decide) n rest
  | cons name value fields =>
    unfold Fields.decode at h
    obtain ⟨o, ho, h⟩ := bind_ok h
    obtain ⟨more, hmore, h⟩ := bind_ok h
    cases h
    unfold Fields.blocks at hn ⊢
    cases n with
    | zero => simp at hn
    | succ n =>
      simp only [List.cons_append, List.append_assoc, List.length_cons, List.length_append] at hn ⊢
      obtain ⟨last, hvalue⟩ := parseValue_blocks value ho
        (fields.blocks ++ [0x7D] :: rest) (n := n) (by simp; omega)
      have hfields := parseMap_blocks fields hmore rest (n := n) (by simp; omega)
      obtain ⟨b, bs, hb⟩ := value.blocks_ne_nil
      rw [hb, List.cons_append] at hvalue ⊢
      rw [parseMap_entry (endsIn_key name), hvalue]
      simp only [Except.bind, List.tail_cons]
      rw [hfields]

end

/-- The objects of a list and the bracket behind them. -/
theorem parseList_blocks {l : List Fields} {ms : List (List (JString × Parsed D))}
    (h : List.Forall₂ (fun fields m => fields.decode = .ok m) l ms) {n : ℕ}
    (hn : (l.flatMap (fun fields => (Json.object fields).blocks) ++ [[0x5D]]).length ≤ n) :
    parseList n (l.flatMap (fun fields => (Json.object fields).blocks) ++ [[0x5D]]) =
      .ok (ms.map .map, [[0x5D]]) := by
  induction h generalizing n with
  | nil =>
    cases n with
    | zero => simp at hn
    | succ n =>
      rw [List.flatMap_nil, List.nil_append, parseList_close (by decide)]
      rfl
  | @cons fields m l ms hm _ ih =>
    cases n with
    | zero => simp at hn
    | succ n =>
      rw [List.flatMap_cons, List.append_assoc, Json.object_blocks_append] at hn ⊢
      have hfields := parseMap_blocks fields hm _ (Nat.le_of_succ_le_succ hn)
      have htail := ih (n := n) <| by
        rw [List.length_cons, List.length_append, List.length_cons] at hn
        omega
      rw [parseList_map, hfields]
      simp only [Except.bind, List.tail_cons]
      rw [htail]
      rfl

end Itmo.ProgLab6
