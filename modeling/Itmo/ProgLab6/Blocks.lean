import Itmo.ProgLab6.Route
import Mathlib.Data.List.TakeWhile
import Mathlib.Data.List.DropRight

/-! The blocks of the file. The lines are joined without their ends, the text is cut
at every comma, and a pattern takes blocks from each piece until it finds an empty
one. A text whose strings have no commas and whose words end at white space or a
comma can be read by an automaton that looks at one unit after the other; its
blocks are those of the file, and it reads a text printed in parts part by part. -/

namespace Itmo.ProgLab6

open ProgLab8

/-! ### The source -/

/-- The units that end a word and belong to it: a colon, brackets and braces. -/
def isPunct (c : UInt16) : Bool := c = 0x3A || c = 0x5B || c = 0x5D || c = 0x7B || c = 0x7D

def isPlain (c : UInt16) : Bool := !isSpace c && !isPunct c

def isLineEnd (c : UInt16) : Bool := c = 0x0A || c = 0x0D

/-- The lines of a reader, one after the other. -/
def joinLines (text : JString) : JString := text.filter fun c => !isLineEnd c

/-- The piece up to the first comma, and the others. -/
def pieces : JString → JString × List JString
  | [] => ([], [])
  | c :: s =>
    let (piece, rest) := pieces s
    if c = 0x2C then ([], piece :: rest) else (c :: piece, rest)

/-- `split(",")`, which drops empty pieces at the end. -/
def split (s : JString) : List JString :=
  let (piece, rest) := pieces s
  if rest.isEmpty then [piece] else (piece :: rest).rdropWhile List.isEmpty

/-- The alternatives of the pattern that start with a quote: a string with a colon
after it, or one without. -/
def quotedGroup (s : JString) : Option (JString × JString) :=
  match s with
  | [] => none
  | c :: s =>
    if c = 0x22 then
      match s.dropWhile (· ≠ 0x22) with
      | [] => none
      | q :: rest =>
        let group := c :: s.takeWhile (· ≠ 0x22) ++ [q]
        match rest with
        | [] => some (group, [])
        | d :: rest' => if d = 0x3A then some (group ++ [d], rest') else some (group, d :: rest')
    else none

/-- The last alternative, which always matches: a run of other units and the
punctuation after it. -/
def bareGroup (s : JString) : JString × JString :=
  match s.dropWhile isPlain with
  | [] => (s.takeWhile isPlain, [])
  | c :: rest =>
    if isPunct c then (s.takeWhile isPlain ++ [c], rest) else (s.takeWhile isPlain, c :: rest)

/-- `matcher.find()`: its group and what is left after the optional line end. -/
def find (piece : JString) : JString × JString :=
  let s := piece.dropWhile isSpace
  let (group, rest) := (quotedGroup s).getD (bareGroup s)
  (group, if [0x0A] <+: rest then rest.tail else rest)

/-! ### Termination -/

theorem quotedGroup_length {s group rest : JString} (h : quotedGroup s = some (group, rest)) :
    group.length + rest.length = s.length := by
  unfold quotedGroup at h
  cases s with
  | nil => cases h
  | cons c s =>
    dsimp only at h
    have hsplit := congrArg List.length (List.takeWhile_append_dropWhile (p := (· ≠ 0x22)) (l := s))
    split_ifs at h
    cases hdrop : s.dropWhile (· ≠ 0x22) with
    | nil =>
      rw [hdrop] at h
      cases h
    | cons q rest' =>
      rw [hdrop] at h hsplit
      cases rest' with
      | nil =>
        cases h
        simp at hsplit ⊢
        omega
      | cons d rest'' =>
        dsimp only at h
        split_ifs at h
        · cases h
          simp at hsplit ⊢
          omega
        · cases h
          simp at hsplit ⊢
          omega

theorem bareGroup_length (s : JString) :
    (bareGroup s).1.length + (bareGroup s).2.length = s.length := by
  have hsplit := congrArg List.length (List.takeWhile_append_dropWhile (p := isPlain) (l := s))
  unfold bareGroup
  cases hdrop : s.dropWhile isPlain with
  | nil =>
    rw [hdrop] at hsplit
    simpa using hsplit
  | cons c rest =>
    rw [hdrop] at hsplit
    dsimp only
    split_ifs <;> simp at hsplit ⊢ <;> omega

theorem find_length {piece : JString} (h : (find piece).1 ≠ []) :
    (find piece).2.length < piece.length := by
  have hspace := List.length_dropWhile_le isSpace piece
  have hgroup : 0 < (find piece).1.length := List.length_pos_iff.mpr h
  have htail : ∀ rest : JString,
      (if [0x0A] <+: rest then rest.tail else rest).length ≤ rest.length := by
    intro rest
    split_ifs
    · rw [List.length_tail]
      omega
    · exact le_rfl
  unfold find at hgroup ⊢
  dsimp only at hgroup ⊢
  cases hquoted : quotedGroup (piece.dropWhile isSpace) with
  | none =>
    rw [hquoted, Option.getD_none] at hgroup
    rw [Option.getD_none]
    have hlength := bareGroup_length (piece.dropWhile isSpace)
    have hle := htail (bareGroup (piece.dropWhile isSpace)).2
    omega
  | some found =>
    rw [hquoted, Option.getD_some] at hgroup
    rw [Option.getD_some]
    have hlength := quotedGroup_length hquoted
    have hle := htail found.2
    omega

/-- The blocks of a piece, up to the first empty one. -/
def blocks (piece : JString) : List JString :=
  if _h : (find piece).1 = [] then [] else (find piece).1 :: blocks (find piece).2
termination_by piece.length
decreasing_by exact find_length _h

def textBlocks (text : JString) : List JString := (split text).flatMap blocks

/-- The blocks of a file. -/
def fileBlocks (text : JString) : List JString := textBlocks (joinLines text)

/-! ### One block -/

theorem blocks_space {c : UInt16} (h : isSpace c = true) (s : JString) :
    blocks (c :: s) = blocks s := by
  have hfind : find (c :: s) = find s := by
    unfold find
    rw [List.dropWhile_cons_of_pos h]
  rw [blocks, hfind, ← blocks]

theorem blocks_nil : blocks [] = [] := by
  rw [blocks]
  rfl

/-- The group of a match and what is left after it. -/
def group (s : JString) : JString × JString :=
  let s := s.dropWhile isSpace
  (quotedGroup s).getD (bareGroup s)

theorem blocks_group {s b rest : JString} (h : group s = (b, rest)) (hb : b ≠ []) :
    blocks s = b :: blocks rest := by
  have hfind : find s = (b, if [0x0A] <+: rest then rest.tail else rest) := by
    have hsplit : find s = ((group s).1,
        if [0x0A] <+: (group s).2 then (group s).2.tail else (group s).2) := rfl
    rw [hsplit, h]
  have hrest : blocks (if [0x0A] <+: rest then rest.tail else rest) = blocks rest := by
    split_ifs with hend
    · obtain ⟨tail, rfl⟩ := hend
      exact (blocks_space (by decide) tail).symm
    · rfl
  rw [blocks, hfind, dif_neg hb, hrest]

theorem group_cons {c : UInt16} (hc : isSpace c = false) (s : JString) :
    group (c :: s) = (quotedGroup (c :: s)).getD (bareGroup (c :: s)) := by
  unfold group
  rw [List.dropWhile_cons_of_neg (by rw [hc]; exact Bool.false_ne_true)]

theorem isSpace_of_isPunct {c : UInt16} (h : isPunct c = true) : isSpace c = false ∧ c ≠ 0x22 := by
  unfold isPunct at h
  simp only [Bool.or_eq_true, decide_eq_true_eq] at h
  rcases h with (((rfl | rfl) | rfl) | rfl) | rfl <;> decide

theorem isSpace_of_isPlain {c : UInt16} (h : isPlain c = true) : isSpace c = false := by
  unfold isPlain at h
  rw [Bool.and_eq_true, Bool.not_eq_true'] at h
  exact h.1

theorem isPunct_of_isPlain {c : UInt16} (h : isPlain c = true) : isPunct c = false := by
  unfold isPlain at h
  rw [Bool.and_eq_true, Bool.not_eq_true', Bool.not_eq_true'] at h
  exact h.2

/-- Punctuation is a block of its own. -/
theorem blocks_punct {c : UInt16} (h : isPunct c = true) (s : JString) :
    blocks (c :: s) = [c] :: blocks s := by
  obtain ⟨hspace, hquote⟩ := isSpace_of_isPunct h
  refine blocks_group ?_ (List.cons_ne_nil _ _)
  rw [group_cons hspace]
  have hplain : isPlain c = false := by simp [isPlain, h]
  simp [quotedGroup, hquote, bareGroup, hplain, h]

/-- A string in quotes. -/
def quoted (x : JString) : JString := 0x22 :: x ++ [0x22]

/-- A string in quotes with a colon after it. -/
def key (x : JString) : JString := quoted x ++ [0x3A]

theorem quotedGroup_quoted {x : JString} (hx : ∀ c ∈ x, c ≠ 0x22) (rest : JString) :
    quotedGroup (quoted x ++ rest) =
      if [0x3A] <+: rest then some (key x, rest.tail) else some (quoted x, rest) := by
  have htake : (x ++ 0x22 :: rest).takeWhile (· ≠ 0x22) = x := by
    rw [List.takeWhile_append_of_pos fun c hc => decide_eq_true (hx c hc)]
    simp
  have hdrop : (x ++ 0x22 :: rest).dropWhile (· ≠ 0x22) = 0x22 :: rest := by
    rw [List.dropWhile_append_of_pos fun c hc => decide_eq_true (hx c hc)]
    simp
  have hshape : quoted x ++ rest = 0x22 :: (x ++ 0x22 :: rest) := by simp [quoted]
  rw [hshape]
  unfold quotedGroup
  dsimp only
  rw [if_pos rfl, hdrop, htake]
  cases rest with
  | nil => rfl
  | cons d rest =>
    by_cases hd : d = 0x3A
    · subst hd
      simp [key, quoted]
    · have hd' : ¬ (0x3A : UInt16) = d := fun h => hd h.symm
      simp [hd, hd', quoted]

theorem group_quoted {x : JString} (hx : ∀ c ∈ x, c ≠ 0x22) (rest : JString) :
    group (quoted x ++ rest) =
      if [0x3A] <+: rest then (key x, rest.tail) else (quoted x, rest) := by
  have hshape : group (quoted x ++ rest) =
      (quotedGroup (quoted x ++ rest)).getD (bareGroup (quoted x ++ rest)) :=
    group_cons (by decide) _
  rw [hshape, quotedGroup_quoted hx]
  split_ifs <;> rfl

theorem blocks_key {x : JString} (hx : ∀ c ∈ x, c ≠ 0x22) (s : JString) :
    blocks (key x ++ s) = key x :: blocks s := by
  refine blocks_group ?_ (by simp [key])
  unfold key
  rw [List.append_assoc, group_quoted hx, if_pos ⟨s, rfl⟩]
  rfl

theorem blocks_quoted {x : JString} (hx : ∀ c ∈ x, c ≠ 0x22) {s : JString} (hs : ¬ [0x3A] <+: s) :
    blocks (quoted x ++ s) = quoted x :: blocks s := by
  refine blocks_group ?_ (List.cons_ne_nil _ _)
  rw [group_quoted hx, if_neg hs]

/-- A word that starts with no quote and ends at white space or with the text. -/
theorem blocks_word {a : UInt16} {w s : JString} (ha : a ≠ 0x22)
    (hw : ∀ c ∈ a :: w, isPlain c = true) (hs : ∀ c ∈ s.head?, isSpace c = true) :
    blocks (a :: w ++ s) = (a :: w) :: blocks s := by
  have hspace := isSpace_of_isPlain (hw a List.mem_cons_self)
  have hstop : s.takeWhile isPlain = [] ∧ s.dropWhile isPlain = s := by
    cases s with
    | nil => exact ⟨rfl, rfl⟩
    | cons c s =>
      have hc : isPlain c = false := by simp [isPlain, hs c rfl]
      simp [hc]
  have htake : (a :: w ++ s).takeWhile isPlain = a :: w := by
    rw [List.takeWhile_append_of_pos hw, hstop.1, List.append_nil]
  have hdrop : (a :: w ++ s).dropWhile isPlain = s := by
    rw [List.dropWhile_append_of_pos hw, hstop.2]
  refine blocks_group ?_ (List.cons_ne_nil _ _)
  rw [List.cons_append, group_cons hspace, ← List.cons_append]
  have hquoted : quotedGroup (a :: w ++ s) = none := by simp [quotedGroup, ha]
  rw [hquoted, Option.getD_none]
  unfold bareGroup
  rw [hdrop, htake]
  cases s with
  | nil => rfl
  | cons c s =>
    have hend := hs c rfl
    have hc : isPunct c = false := by
      cases hp : isPunct c with
      | false => rfl
      | true =>
        rw [(isSpace_of_isPunct hp).1] at hend
        cases hend
    simp [hc]

/-! ### The blocks of a text -/

theorem flatMap_rdropWhile (l : List JString) :
    (l.rdropWhile List.isEmpty).flatMap blocks = l.flatMap blocks := by
  induction l using List.reverseRecOn with
  | nil => rfl
  | append_singleton l s ih =>
    rw [List.rdropWhile_concat]
    split_ifs with hs
    · rw [ih, List.flatMap_append, List.isEmpty_iff.mp hs]
      simp [blocks_nil]
    · rfl

theorem textBlocks_eq (s : JString) :
    textBlocks s = blocks (pieces s).1 ++ (pieces s).2.flatMap blocks := by
  unfold textBlocks split
  dsimp only
  split_ifs with h
  · rw [List.isEmpty_iff.mp h]
    simp
  · rw [flatMap_rdropWhile, List.flatMap_cons]

theorem pieces_cons (c : UInt16) (s : JString) :
    pieces (c :: s) = if c = 0x2C then ([], (pieces s).1 :: (pieces s).2)
      else (c :: (pieces s).1, (pieces s).2) := rfl

theorem pieces_append {x : JString} (hx : ∀ c ∈ x, c ≠ 0x2C) (s : JString) :
    pieces (x ++ s) = (x ++ (pieces s).1, (pieces s).2) := by
  induction x with
  | nil => rfl
  | cons c x ih =>
    rw [List.forall_mem_cons] at hx
    rw [List.cons_append, pieces_cons, if_neg hx.1, ih hx.2]
    rfl

theorem textBlocks_nil : textBlocks [] = [] := by
  rw [textBlocks_eq]
  simp [pieces, blocks_nil]

theorem textBlocks_comma (s : JString) : textBlocks (0x2C :: s) = textBlocks s := by
  have hpieces : pieces (0x2C :: s) = ([], (pieces s).1 :: (pieces s).2) := by simp [pieces]
  rw [textBlocks_eq, textBlocks_eq, hpieces, List.flatMap_cons, blocks_nil, List.nil_append]

/-- A part without commas whose blocks do not depend on what follows. -/
theorem textBlocks_append {x : JString} (bs : List JString) (hx : ∀ c ∈ x, c ≠ 0x2C)
    {s : JString} (hblocks : blocks (x ++ (pieces s).1) = bs ++ blocks (pieces s).1) :
    textBlocks (x ++ s) = bs ++ textBlocks s := by
  rw [textBlocks_eq, textBlocks_eq, pieces_append hx, hblocks, List.append_assoc]

theorem isLineEnd_eq_false {c : UInt16} (h : isSpace c = false) : isLineEnd c = false := by
  unfold isLineEnd
  rw [Bool.or_eq_false_iff, decide_eq_false_iff_not, decide_eq_false_iff_not]
  constructor
  · rintro rfl
    cases h
  · rintro rfl
    cases h

/-! ### The automaton -/

/-- Where the automaton is: between blocks, inside quotes, after them or in a word. -/
inductive Mode where
  | between
  | inside (x : JString)
  | after (x : JString)
  | word (w : JString)

/-- What has been read of the next block. -/
def Mode.pending : Mode → JString
  | between => []
  | inside x => 0x22 :: x
  | after x => quoted x
  | word w => w

/-- What the modes know of the units they have read. -/
def Mode.Valid : Mode → Prop
  | between => True
  | inside x => ∀ c ∈ x, c ≠ 0x22 ∧ c ≠ 0x2C
  | after x => ∀ c ∈ x, c ≠ 0x22 ∧ c ≠ 0x2C
  | word w => w ≠ [] ∧ ∀ c ∈ w, isPlain c = true ∧ c ≠ 0x22 ∧ c ≠ 0x2C

/-- The blocks that one unit completes, and the mode after it. -/
def Mode.step (m : Mode) (c : UInt16) : Option (List JString × Mode) :=
  if isLineEnd c then some ([], m)
  else match m with
    | between =>
      if isSpace c ∨ c = 0x2C then some ([], between)
      else if isPunct c then some ([[c]], between)
      else if c = 0x22 then some ([], inside [])
      else some ([], word [c])
    | inside x =>
      if c = 0x22 then some ([], after x)
      else if c = 0x2C then none
      else some ([], inside (x ++ [c]))
    | after x =>
      if c = 0x3A then some ([key x], between)
      else if isSpace c ∨ c = 0x2C then some ([quoted x], between)
      else none
    | word w =>
      if isSpace c ∨ c = 0x2C then some ([w], between)
      else if isPlain c ∧ c ≠ 0x22 then some ([], word (w ++ [c]))
      else none

def scan : Mode → JString → Option (List JString × Mode)
  | m, [] => some ([], m)
  | m, c :: s => (m.step c).bind fun p => (scan p.2 s).map fun q => (p.1 ++ q.1, q.2)

theorem scan_append (m : Mode) (s t : JString) :
    scan m (s ++ t) = (scan m s).bind fun p => (scan p.2 t).map fun q => (p.1 ++ q.1, q.2) := by
  induction s generalizing m with
  | nil => simp [scan]
  | cons c s ih =>
    rw [List.cons_append, scan, scan]
    simp only [ih]
    cases m.step c with
    | none => rfl
    | some p =>
      cases hs : scan p.2 s with
      | none => simp [hs]
      | some q => simp [hs, Function.comp_def]

/-- Words and the insides of strings grow unit by unit. -/
theorem scan_grow {mode : JString → Mode} {w : JString}
    (hstep : ∀ c ∈ w, ∀ u, (mode u).step c = some ([], mode (u ++ [c]))) (u : JString) :
    scan (mode u) w = some ([], mode (u ++ w)) := by
  induction w generalizing u with
  | nil => simp [scan]
  | cons c w ih =>
    rw [List.forall_mem_cons] at hstep
    rw [scan, hstep.1 u, Option.bind_some, ih hstep.2]
    simp

theorem scan_word_append {w : JString} (h : ∀ c ∈ w, isPlain c = true ∧ c ≠ 0x22 ∧ c ≠ 0x2C)
    (u : JString) : scan (.word u) w = some ([], .word (u ++ w)) := by
  refine scan_grow (fun c hc u => ?_) u
  obtain ⟨hplain, hquote, hcomma⟩ := h c hc
  have hspace := isSpace_of_isPlain hplain
  simp [Mode.step, isLineEnd_eq_false hspace, hspace, hplain, hquote, hcomma]

theorem scan_word {w : JString} (h : (Mode.word w).Valid) :
    scan .between w = some ([], .word w) := by
  obtain ⟨hne, hw⟩ := h
  cases w with
  | nil => exact absurd rfl hne
  | cons c w =>
    have hall := scan_word_append (fun d hd => hw d (List.mem_cons_of_mem c hd)) [c]
    obtain ⟨hplain, hquote, hcomma⟩ := hw c List.mem_cons_self
    have hspace := isSpace_of_isPlain hplain
    have hpunct := isPunct_of_isPlain hplain
    have hstep : Mode.between.step c = some ([], .word [c]) := by
      simp [Mode.step, isLineEnd_eq_false hspace, hspace, hpunct, hquote, hcomma]
    rw [scan, hstep, Option.bind_some, hall]
    rfl

theorem scan_inside {x : JString} (h : ∀ c ∈ x, isPlain c = true ∧ c ≠ 0x22 ∧ c ≠ 0x2C)
    (u : JString) : scan (.inside u) x = some ([], .inside (u ++ x)) := by
  refine scan_grow (fun c hc u => ?_) u
  obtain ⟨hplain, hquote, hcomma⟩ := h c hc
  have hend := isLineEnd_eq_false (isSpace_of_isPlain hplain)
  simp [Mode.step, hend, hquote, hcomma]

/-- What is left of a unit when the lines are joined. -/
theorem joinLines_cons (c : UInt16) (s : JString) :
    joinLines (c :: s) = if isLineEnd c then joinLines s else c :: joinLines s := by
  unfold joinLines
  cases h : isLineEnd c <;> simp [h]

theorem textBlocks_space {c : UInt16} (h : isSpace c = true) (s : JString) :
    textBlocks (c :: s) = textBlocks s := by
  have hcomma : c ≠ 0x2C := by
    rintro rfl
    cases h
  exact textBlocks_append (x := [c]) [] (by simpa using hcomma) (blocks_space h _)

theorem textBlocks_separator {c : UInt16} (h : isSpace c = true ∨ c = 0x2C) (s : JString) :
    textBlocks (c :: s) = textBlocks s := by
  rcases h with h | rfl
  · exact textBlocks_space h s
  · exact textBlocks_comma s

theorem textBlocks_punct {c : UInt16} (h : isPunct c = true) (s : JString) :
    textBlocks (c :: s) = [c] :: textBlocks s := by
  have hcomma : c ≠ 0x2C := by
    rintro rfl
    cases h
  exact textBlocks_append (x := [c]) [[c]] (by simpa using hcomma) (blocks_punct h _)

theorem textBlocks_key {x : JString} (hx : ∀ c ∈ x, c ≠ 0x22 ∧ c ≠ 0x2C) (s : JString) :
    textBlocks (key x ++ s) = key x :: textBlocks s := by
  refine textBlocks_append [key x] ?_ (blocks_key (fun c hc => (hx c hc).1) _)
  intro c hc
  simp only [key, quoted, List.cons_append, List.mem_cons, List.mem_append, List.not_mem_nil,
    or_false] at hc
  rcases hc with rfl | (hc | rfl) | rfl
  · decide
  · exact (hx c hc).2
  · decide
  · decide

/-- The piece of a text that starts with white space or a comma. -/
theorem pieces_separator {c : UInt16} (h : isSpace c = true ∨ c = 0x2C) (s : JString) :
    ∀ d ∈ (pieces (c :: s)).1.head?, isSpace d = true := by
  rw [pieces_cons]
  split_ifs with hcomma
  · intro d hd
    cases hd
  · intro d hd
    cases hd
    exact h.resolve_right hcomma

/-- A string in front of anything but a colon. -/
theorem textBlocks_string {x : JString} (hx : ∀ c ∈ x, c ≠ 0x22 ∧ c ≠ 0x2C) {s : JString}
    (hs : ∀ c ∈ s.head?, c ≠ 0x3A) : textBlocks (quoted x ++ s) = quoted x :: textBlocks s := by
  refine textBlocks_append [quoted x] ?_ (blocks_quoted (fun c hc => (hx c hc).1) ?_)
  · intro d hd
    simp only [quoted, List.cons_append, List.mem_cons, List.mem_append, List.not_mem_nil,
      or_false] at hd
    rcases hd with rfl | hd | rfl
    · decide
    · exact (hx d hd).2
    · decide
  · rintro ⟨rest, hrest⟩
    cases s with
    | nil => cases hrest
    | cons c s =>
      rw [pieces_cons] at hrest
      split_ifs at hrest
      · cases hrest
      · exact hs c rfl (List.cons.inj hrest).1.symm

theorem textBlocks_quoted {x : JString} (hx : ∀ c ∈ x, c ≠ 0x22 ∧ c ≠ 0x2C) {c : UInt16}
    (hc : isSpace c = true ∨ c = 0x2C) (s : JString) :
    textBlocks (quoted x ++ c :: s) = quoted x :: textBlocks s := by
  have hcolon : c ≠ 0x3A := by
    rintro rfl
    exact absurd hc (by decide)
  rw [textBlocks_string hx (by simpa using hcolon), textBlocks_separator hc s]

theorem textBlocks_word {w : JString} (hne : w ≠ [])
    (hw : ∀ c ∈ w, isPlain c = true ∧ c ≠ 0x22 ∧ c ≠ 0x2C) {c : UInt16}
    (hc : isSpace c = true ∨ c = 0x2C) (s : JString) :
    textBlocks (w ++ c :: s) = w :: textBlocks s := by
  rw [← textBlocks_separator hc s]
  refine textBlocks_append [w] (fun d hd => (hw d hd).2.2) ?_
  cases w with
  | nil => exact absurd rfl hne
  | cons a w =>
    exact blocks_word (hw a List.mem_cons_self).2.1 (fun d hd => (hw d hd).1)
      (pieces_separator hc s)

/-- One unit: the blocks it completes come first, whatever follows. -/
theorem step_blocks {m m' : Mode} {c : UInt16} {bs : List JString} (hm : m.Valid)
    (h : m.step c = some (bs, m')) (s : JString) :
    m'.Valid ∧ textBlocks (m.pending ++ joinLines (c :: s)) =
      bs ++ textBlocks (m'.pending ++ joinLines s) := by
  rw [joinLines_cons]
  unfold Mode.step at h
  by_cases hend : isLineEnd c
  · rw [if_pos hend] at h ⊢
    cases h
    exact ⟨hm, rfl⟩
  rw [if_neg hend] at h ⊢
  cases m with
  | between =>
    dsimp only at h
    split_ifs at h with hsep hpunct hquote
    · cases h
      exact ⟨trivial, textBlocks_separator hsep _⟩
    · cases h
      exact ⟨trivial, textBlocks_punct hpunct _⟩
    · cases h
      exact ⟨fun d hd => absurd hd List.not_mem_nil, by rw [hquote]; rfl⟩
    · cases h
      refine ⟨⟨List.cons_ne_nil _ _, ?_⟩, rfl⟩
      rw [not_or] at hsep
      simp [isPlain, hsep, hpunct, hquote]
  | inside x =>
    dsimp only at h
    split_ifs at h with hquote hcomma
    · cases h
      refine ⟨hm, ?_⟩
      simp [Mode.pending, quoted, hquote]
    · cases h
      refine ⟨?_, by simp [Mode.pending]⟩
      intro d hd
      rcases List.mem_append.mp hd with hd | hd
      · exact hm d hd
      · rw [List.mem_singleton.mp hd]
        exact ⟨hquote, hcomma⟩
  | after x =>
    dsimp only at h
    split_ifs at h with hcolon hsep
    · cases h
      refine ⟨trivial, ?_⟩
      have hkey := textBlocks_key hm (joinLines s)
      rw [key, List.append_assoc] at hkey
      rw [hcolon]
      exact hkey
    · cases h
      exact ⟨trivial, textBlocks_quoted hm hsep _⟩
  | word w =>
    dsimp only at h
    split_ifs at h with hsep hplain
    · cases h
      exact ⟨trivial, textBlocks_word hm.1 hm.2 hsep _⟩
    · cases h
      refine ⟨⟨List.append_ne_nil_of_right_ne_nil _ (List.cons_ne_nil _ _), ?_⟩,
        by simp [Mode.pending]⟩
      intro d hd
      rcases List.mem_append.mp hd with hd | hd
      · exact hm.2 d hd
      · rw [List.mem_singleton.mp hd]
        exact ⟨hplain.1, hplain.2, fun hcomma => hsep (Or.inr hcomma)⟩

/-- A text that the automaton reads to the end of a block has its blocks. -/
theorem scan_blocks {m : Mode} {s : JString} {bs : List JString} (hm : m.Valid)
    (h : scan m s = some (bs, .between)) : textBlocks (m.pending ++ joinLines s) = bs := by
  induction s generalizing m bs with
  | nil =>
    cases h
    exact textBlocks_nil
  | cons c s ih =>
    unfold scan at h
    cases hstep : m.step c with
    | none => simp [hstep] at h
    | some found =>
      obtain ⟨b, m₁⟩ := found
      cases hscan : scan m₁ s with
      | none => simp [hstep, hscan] at h
      | some found =>
        obtain ⟨b₁, m₂⟩ := found
        simp only [hstep, hscan, Option.bind_some, Option.map_some, Option.some.injEq,
          Prod.mk.injEq] at h
        obtain ⟨rfl, rfl⟩ := h
        obtain ⟨hm₁, hblocks⟩ := step_blocks hm hstep s
        rw [hblocks, ih hm₁ hscan]

theorem fileBlocks_of_scan {s : JString} {bs : List JString}
    (h : scan .between s = some (bs, .between)) : fileBlocks s = bs :=
  scan_blocks (m := .between) trivial h

end Itmo.ProgLab6
