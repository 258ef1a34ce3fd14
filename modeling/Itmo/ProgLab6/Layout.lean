import Itmo.ProgLab6.TokenTrees

/-! White space between the elements of a file. The lines are joined without their ends
and a block ends at white space, at punctuation or with its piece, so white space decides
about the blocks in two places: a name is apart from its colon when there is any left
between them, and a word is glued to a bracket or brace when there is none. A text is a
tree with its gaps, and its blocks are those of the cut that these places give. -/

namespace Itmo.ProgLab6

open Lib ProgLab8

/-! ### Texts -/

/-- White space between two elements. -/
abbrev Gap := {g : JString // ∀ c ∈ g, isSpace c = true}

/-- Something is left of the gap when the lines are joined. -/
def Gap.spaced (g : Gap) : Bool := g.val.any fun c => !isLineEnd c

/-- A scalar that is no string. -/
structure Word where
  text : JString
  ne_nil : text ≠ []
  wordy : Wordy text

/-- The inside of a string, without commas, colons, quotes, brackets and braces. -/
structure Inside where
  text : JString
  valid : ∀ c ∈ text, isPunct c = false ∧ c ≠ 0x22 ∧ c ≠ 0x2C ∧ isLineEnd c = false

mutual

inductive Laid where
  | word (w : Word)
  | string (x : Inside)
  | emptyList (gap : Gap)
  | list (items : LaidItems)
  | emptyMap (gap : Gap)
  | map (entries : LaidEntries)

/-- The items of a list, each with the gaps around it. -/
inductive LaidItems where
  | last (before : Gap) (value : Laid) (after : Gap)
  | cons (before : Gap) (value : Laid) (after : Gap) (rest : LaidItems)

inductive LaidEntries where
  | last (before : Gap) (name : Inside) (afterName beforeValue : Gap) (value : Laid) (after : Gap)
  | cons (before : Gap) (name : Inside) (afterName beforeValue : Gap) (value : Laid) (after : Gap)
      (rest : LaidEntries)

end

mutual

def Laid.text : Laid → JString
  | .word w => w.text
  | .string x => quoted x.text
  | .emptyList gap => 0x5B :: (gap.val ++ [0x5D])
  | .list items => 0x5B :: (items.text ++ [0x5D])
  | .emptyMap gap => 0x7B :: (gap.val ++ [0x7D])
  | .map entries => 0x7B :: (entries.text ++ [0x7D])

def LaidItems.text : LaidItems → JString
  | .last before value after => before.val ++ (value.text ++ after.val)
  | .cons before value after rest =>
    before.val ++ (value.text ++ (after.val ++ 0x2C :: rest.text))

def LaidEntries.text : LaidEntries → JString
  | .last before name afterName beforeValue value after =>
    before.val ++ (quoted name.text ++ (afterName.val ++ 0x3A :: (beforeValue.val ++
      (value.text ++ after.val))))
  | .cons before name afterName beforeValue value after rest =>
    before.val ++ (quoted name.text ++ (afterName.val ++ 0x3A :: (beforeValue.val ++
      (value.text ++ (after.val ++ 0x2C :: rest.text)))))

end

def Gap.none : Gap := ⟨[], by simp⟩

mutual

/-- The text without its gaps, which is the sequence of its elements. -/
def Laid.compact : Laid → Laid
  | .word w => .word w
  | .string x => .string x
  | .emptyList _ => .emptyList .none
  | .list items => .list items.compact
  | .emptyMap _ => .emptyMap .none
  | .map entries => .map entries.compact

def LaidItems.compact : LaidItems → LaidItems
  | .last _ value _ => .last .none value.compact .none
  | .cons _ value _ rest => .cons .none value.compact .none rest.compact

def LaidEntries.compact : LaidEntries → LaidEntries
  | .last _ name _ _ value _ => .last .none name .none .none value.compact .none
  | .cons _ name _ _ value _ rest => .cons .none name .none .none value.compact .none rest.compact

end

/-! ### Cuts -/

def Word.scalar (w : Word) : Scalar where
  block := w.text
  ne_nil := w.ne_nil
  plainEnd c hc := isPunct_of_isPlain (w.wordy c (List.mem_of_getLast? hc)).1

def Inside.scalar (x : Inside) : Scalar where
  block := quoted x.text
  ne_nil := List.cons_ne_nil _ _
  plainEnd c hc := by
    unfold quoted at hc
    rw [List.getLast?_concat] at hc
    cases hc
    rfl

/-- A word with nothing between it and the bracket behind it is glued to it. -/
def Laid.closeItems (value : Laid) (cut : Cut) (after : Gap) : CutItems :=
  match value with
  | .word w => if after.spaced then .cons cut .close else .glued w.scalar
  | _ => .cons cut .close

def Laid.closeEntries (value : Laid) (name : JString) (apart : Bool) (cut : Cut) (after : Gap) :
    CutEntries :=
  match value with
  | .word w => if after.spaced then .cons name apart cut .close else .glued name apart w.scalar
  | _ => .cons name apart cut .close

mutual

/-- How a text is cut: where a name is apart from its colon, and where a word is glued to a
bracket or a brace. -/
def Laid.cut : Laid → Cut
  | .word w => .scalar w.scalar
  | .string x => .scalar x.scalar
  | .emptyList _ => .list .close
  | .list items => .list items.cut
  | .emptyMap _ => .map .close
  | .map entries => .map entries.cut

def LaidItems.cut : LaidItems → CutItems
  | .last _ value after => value.closeItems value.cut after
  | .cons _ value _ rest => .cons value.cut rest.cut

def LaidEntries.cut : LaidEntries → CutEntries
  | .last _ name afterName _ value after =>
    value.closeEntries name.text afterName.spaced value.cut after
  | .cons _ name afterName _ value _ rest => .cons name.text afterName.spaced value.cut rest.cut

end

/-! ### Gaps -/

theorem joinLines_append (s t : JString) : joinLines (s ++ t) = joinLines s ++ joinLines t :=
  List.filter_append s t

theorem joinLines_eq_self {s : JString} (h : ∀ c ∈ s, isLineEnd c = false) : joinLines s = s := by
  unfold joinLines
  rw [List.filter_eq_self]
  intro c hc
  rw [h c hc]
  rfl

theorem joinLines_cons_of_ne {c : UInt16} (h : isLineEnd c = false) (s : JString) :
    joinLines (c :: s) = c :: joinLines s := by
  rw [joinLines_cons, h]
  rfl

theorem joinLines_gap (g : Gap) : ∀ c ∈ joinLines g.val, isSpace c = true := by
  intro c hc
  exact g.property c (List.mem_of_mem_filter hc)

theorem joinLines_of_not_spaced {g : Gap} (h : g.spaced = false) : joinLines g.val = [] := by
  unfold Gap.spaced at h
  unfold joinLines
  rw [List.filter_eq_nil_iff]
  intro c hc
  rw [List.any_eq_false] at h
  exact h c hc

theorem joinLines_of_spaced {g : Gap} (h : g.spaced = true) :
    ∃ c s, joinLines g.val = c :: s ∧ isSpace c = true := by
  unfold Gap.spaced at h
  rw [List.any_eq_true] at h
  obtain ⟨d, hd, hend⟩ := h
  have hmem : d ∈ joinLines g.val := List.mem_filter.mpr ⟨hd, hend⟩
  cases hjoin : joinLines g.val with
  | nil =>
    rw [hjoin] at hmem
    cases hmem
  | cons c s =>
    refine ⟨c, s, rfl, joinLines_gap g c ?_⟩
    rw [hjoin]
    exact List.mem_cons_self

theorem textBlocks_spaces {g : JString} (h : ∀ c ∈ g, isSpace c = true) (s : JString) :
    textBlocks (g ++ s) = textBlocks s := by
  induction g with
  | nil => rfl
  | cons c g ih =>
    rw [List.forall_mem_cons] at h
    rw [List.cons_append, textBlocks_space h.1, ih h.2]

theorem textBlocks_gap (g : Gap) (s : JString) :
    textBlocks (joinLines g.val ++ s) = textBlocks s :=
  textBlocks_spaces (joinLines_gap g) s

/-! ### Blocks -/

/-- A word that ends at punctuation: the punctuation is the end of its block. -/
theorem blocks_glued {a : UInt16} {w : JString} (ha : a ≠ 0x22)
    (hw : ∀ c ∈ a :: w, isPlain c = true) {c : UInt16} (hc : isPunct c = true) (s : JString) :
    blocks (a :: w ++ c :: s) = (a :: w ++ [c]) :: blocks s := by
  have hspace := isSpace_of_isPlain (hw a List.mem_cons_self)
  have hplain : isPlain c = false := by simp [isPlain, hc]
  have htake : (a :: w ++ c :: s).takeWhile isPlain = a :: w := by
    rw [List.takeWhile_append_of_pos hw, List.takeWhile_cons_of_neg (by simp [hplain]),
      List.append_nil]
  have hdrop : (a :: w ++ c :: s).dropWhile isPlain = c :: s := by
    rw [List.dropWhile_append_of_pos hw, List.dropWhile_cons_of_neg (by simp [hplain])]
  refine blocks_group ?_ (List.cons_ne_nil _ _)
  rw [List.cons_append, group_cons hspace, ← List.cons_append]
  have hquoted : quotedGroup (a :: w ++ c :: s) = none := by simp [quotedGroup, ha]
  rw [hquoted, Option.getD_none]
  unfold bareGroup
  rw [hdrop, htake]
  simp [hc]

theorem textBlocks_glued (w : Word) {c : UInt16} (hc : isPunct c = true) (s : JString) :
    textBlocks (w.text ++ c :: s) = (w.text ++ [c]) :: textBlocks s := by
  have hcomma : c ≠ 0x2C := by
    rintro rfl
    cases hc
  have hall : ∀ d ∈ w.text ++ [c], d ≠ 0x2C := by
    intro d hd
    rcases List.mem_append.mp hd with hd | hd
    · exact (w.wordy d hd).2.2
    · rw [List.mem_singleton.mp hd]
      exact hcomma
  have happend := textBlocks_append (s := s) [w.text ++ [c]] hall <| by
    obtain ⟨a, u, hw⟩ := List.exists_cons_of_ne_nil w.ne_nil
    have hwordy := w.wordy
    rw [hw] at hwordy ⊢
    rw [List.append_assoc]
    exact blocks_glued (hwordy a List.mem_cons_self).2.1 (fun d hd => (hwordy d hd).1) hc _
  rwa [List.append_assoc] at happend

/-- What may come behind a value without an effect on its blocks. -/
def Laid.Free (value : Laid) (s : JString) : Prop :=
  match value with
  | .word _ => ∃ c t, s = c :: t ∧ (isSpace c = true ∨ c = 0x2C)
  | _ => ∀ c ∈ s.head?, c ≠ 0x3A

theorem Laid.free_comma (value : Laid) (g : Gap) (s : JString) :
    value.Free (joinLines g.val ++ 0x2C :: s) := by
  have hhead : ∃ c t, joinLines g.val ++ 0x2C :: s = c :: t ∧ (isSpace c = true ∨ c = 0x2C) := by
    cases hspaced : g.spaced with
    | true =>
      obtain ⟨c, t, hjoin, hc⟩ := joinLines_of_spaced hspaced
      exact ⟨c, t ++ 0x2C :: s, by rw [hjoin, List.cons_append], .inl hc⟩
    | false => exact ⟨0x2C, s, by rw [joinLines_of_not_spaced hspaced, List.nil_append], .inr rfl⟩
  obtain ⟨c, t, heq, hc⟩ := hhead
  have hcolon : ∀ d ∈ (joinLines g.val ++ 0x2C :: s).head?, d ≠ 0x3A := by
    rw [heq]
    intro d hd
    cases hd
    rcases hc with hc | rfl
    · rintro rfl
      cases hc
    · decide
  cases value with
  | word w => exact ⟨c, t, heq, hc⟩
  | _ => exact hcolon

theorem Laid.free_close {value : Laid} {g : Gap} {c : UInt16} (hc : c ≠ 0x3A)
    (h : (∃ w, value = .word w) → g.spaced = true) (s : JString) :
    value.Free (joinLines g.val ++ c :: s) := by
  have hcolon : ∀ d ∈ (joinLines g.val ++ c :: s).head?, d ≠ 0x3A := by
    cases hspaced : g.spaced with
    | true =>
      obtain ⟨b, t, hjoin, hb⟩ := joinLines_of_spaced hspaced
      rw [hjoin]
      intro d hd
      cases hd
      rintro rfl
      cases hb
    | false =>
      rw [joinLines_of_not_spaced hspaced]
      intro d hd
      cases hd
      exact hc
  cases value with
  | word w =>
    obtain ⟨b, t, hjoin, hb⟩ := joinLines_of_spaced (h ⟨w, rfl⟩)
    exact ⟨b, t ++ c :: s, by rw [hjoin, List.cons_append], .inl hb⟩
  | _ => exact hcolon

/-- A name and its colon. -/
theorem textBlocks_name (name : Inside) (g : Gap) (s : JString) :
    textBlocks (quoted name.text ++ (joinLines g.val ++ 0x3A :: s)) =
      nameBlocks name.text g.spaced ++ textBlocks s := by
  have hvalid : ∀ c ∈ name.text, c ≠ 0x22 ∧ c ≠ 0x2C := by
    intro c hc
    exact ⟨(name.valid c hc).2.1, (name.valid c hc).2.2.1⟩
  cases hspaced : g.spaced with
  | true =>
    obtain ⟨c, t, hjoin, hc⟩ := joinLines_of_spaced hspaced
    have hhead : ∀ d ∈ (joinLines g.val ++ 0x3A :: s).head?, d ≠ 0x3A := by
      rw [hjoin]
      intro d hd
      cases hd
      rintro rfl
      cases hc
    rw [textBlocks_string hvalid hhead, textBlocks_gap, textBlocks_punct (by decide)]
    rfl
  | false =>
    have hkey := textBlocks_key hvalid s
    rw [key, List.append_assoc] at hkey
    rw [joinLines_of_not_spaced hspaced, List.nil_append]
    exact hkey

/-! ### Whole texts -/

theorem joinLines_word (w : Word) : joinLines w.text = w.text :=
  joinLines_eq_self fun c hc => isLineEnd_eq_false (isSpace_of_isPlain (w.wordy c hc).1)

theorem joinLines_quoted (x : Inside) : joinLines (quoted x.text) = quoted x.text := by
  apply joinLines_eq_self
  intro c hc
  simp only [quoted, List.cons_append, List.mem_cons, List.mem_append, List.not_mem_nil,
    or_false] at hc
  rcases hc with rfl | hc | rfl
  · decide
  · exact (x.valid c hc).2.2.2
  · decide

/-- The blocks of the last value of a list or a map, with those of the value itself. -/
def Laid.closeBlocks (value : Laid) (blocks : List JString) (after : Gap) (c : UInt16) :
    List JString :=
  match value with
  | .word w => if after.spaced then blocks ++ [[c]] else [w.text ++ [c]]
  | _ => blocks ++ [[c]]

theorem Laid.closeItems_blocks (value : Laid) (cut : Cut) (after : Gap) :
    (value.closeItems cut after).blocks = value.closeBlocks cut.blocks after 0x5D := by
  cases value with
  | word w =>
    unfold closeItems closeBlocks
    dsimp only
    split_ifs <;> rfl
  | _ => rfl

theorem Laid.closeEntries_blocks (value : Laid) (name : JString) (apart : Bool) (cut : Cut)
    (after : Gap) : (value.closeEntries name apart cut after).blocks =
      nameBlocks name apart ++ value.closeBlocks cut.blocks after 0x7D := by
  cases value with
  | word w =>
    unfold closeEntries closeBlocks
    dsimp only
    split_ifs <;> rfl
  | _ => rfl

theorem textBlocks_close {value : Laid} {blocks : List JString}
    (hvalue : ∀ s, value.Free s →
      textBlocks (joinLines value.text ++ s) = blocks ++ textBlocks s)
    (after : Gap) {c : UInt16} (hc : isPunct c = true) (hcolon : c ≠ 0x3A) (s : JString) :
    textBlocks (joinLines value.text ++ (joinLines after.val ++ c :: s)) =
      value.closeBlocks blocks after c ++ textBlocks s := by
  have hfree : ((∃ w, value = .word w) → after.spaced = true) →
      textBlocks (joinLines value.text ++ (joinLines after.val ++ c :: s)) =
        blocks ++ [[c]] ++ textBlocks s := by
    intro h
    rw [hvalue _ (Laid.free_close hcolon h s), textBlocks_gap, textBlocks_punct hc,
      List.append_assoc]
    rfl
  cases value with
  | word w =>
    cases hspaced : after.spaced with
    | true =>
      have hclose : (Laid.word w).closeBlocks blocks after c = blocks ++ [[c]] := by
        simp [Laid.closeBlocks, hspaced]
      rw [hclose]
      exact hfree fun _ => hspaced
    | false =>
      have hclose : (Laid.word w).closeBlocks blocks after c = [w.text ++ [c]] := by
        simp [Laid.closeBlocks, hspaced]
      rw [hclose, joinLines_of_not_spaced hspaced, Laid.text, joinLines_word, List.nil_append]
      exact textBlocks_glued w hc s
  | _ =>
    apply hfree
    rintro ⟨w, hw⟩
    cases hw

mutual

/-- The blocks of a value, in front of what has no effect on them. -/
theorem textBlocks_laid (value : Laid) (s : JString) (hs : value.Free s) :
    textBlocks (joinLines value.text ++ s) = value.cut.blocks ++ textBlocks s := by
  cases value with
  | word w =>
    obtain ⟨c, t, rfl, hc⟩ := hs
    rw [Laid.text, joinLines_word, textBlocks_word w.ne_nil w.wordy hc, textBlocks_separator hc]
    rfl
  | string x =>
    have hvalid : ∀ c ∈ x.text, c ≠ 0x22 ∧ c ≠ 0x2C := by
      intro c hc
      exact ⟨(x.valid c hc).2.1, (x.valid c hc).2.2.1⟩
    rw [Laid.text, joinLines_quoted, textBlocks_string hvalid hs]
    rfl
  | emptyList gap =>
    rw [Laid.text, joinLines_cons_of_ne (by decide), joinLines_append, List.cons_append,
      List.append_assoc, textBlocks_punct (by decide), textBlocks_gap]
    exact congrArg ([0x5B] :: ·) (textBlocks_punct (by decide) s)
  | list items =>
    rw [Laid.text, joinLines_cons_of_ne (by decide), joinLines_append, List.cons_append,
      List.append_assoc, textBlocks_punct (by decide)]
    exact congrArg ([0x5B] :: ·) (textBlocks_laidItems items s)
  | emptyMap gap =>
    rw [Laid.text, joinLines_cons_of_ne (by decide), joinLines_append, List.cons_append,
      List.append_assoc, textBlocks_punct (by decide), textBlocks_gap]
    exact congrArg ([0x7B] :: ·) (textBlocks_punct (by decide) s)
  | map entries =>
    rw [Laid.text, joinLines_cons_of_ne (by decide), joinLines_append, List.cons_append,
      List.append_assoc, textBlocks_punct (by decide)]
    exact congrArg ([0x7B] :: ·) (textBlocks_laidEntries entries s)

/-- The items of a list and its bracket. -/
theorem textBlocks_laidItems (items : LaidItems) (s : JString) :
    textBlocks (joinLines items.text ++ 0x5D :: s) = items.cut.blocks ++ textBlocks s := by
  cases items with
  | last before value after =>
    have hclose := textBlocks_close (textBlocks_laid value) after (c := 0x5D) (by decide)
      (by decide) s
    rw [LaidItems.text, joinLines_append, joinLines_append, List.append_assoc, List.append_assoc,
      textBlocks_gap, hclose, LaidItems.cut, value.closeItems_blocks]
  | cons before value after rest =>
    have hcomma := value.free_comma after (joinLines rest.text ++ 0x5D :: s)
    rw [LaidItems.text, joinLines_append, joinLines_append, joinLines_append,
      joinLines_cons_of_ne (by decide), List.append_assoc, List.append_assoc, List.append_assoc,
      List.cons_append, textBlocks_gap, textBlocks_laid value _ hcomma, textBlocks_gap,
      textBlocks_comma, textBlocks_laidItems rest s, LaidItems.cut, CutItems.blocks,
      List.append_assoc]

/-- The entries of a map and its brace. -/
theorem textBlocks_laidEntries (entries : LaidEntries) (s : JString) :
    textBlocks (joinLines entries.text ++ 0x7D :: s) = entries.cut.blocks ++ textBlocks s := by
  cases entries with
  | last before name afterName beforeValue value after =>
    have hclose := textBlocks_close (textBlocks_laid value) after (c := 0x7D) (by decide)
      (by decide) s
    simp only [LaidEntries.text, joinLines_append, joinLines_quoted,
      joinLines_cons_of_ne (show isLineEnd 0x3A = false by decide), List.append_assoc,
      List.cons_append]
    rw [textBlocks_gap, textBlocks_name, textBlocks_gap, hclose, LaidEntries.cut,
      value.closeEntries_blocks, List.append_assoc]
  | cons before name afterName beforeValue value after rest =>
    have hcomma := value.free_comma after (joinLines rest.text ++ 0x7D :: s)
    simp only [LaidEntries.text, joinLines_append, joinLines_quoted,
      joinLines_cons_of_ne (show isLineEnd 0x3A = false by decide),
      joinLines_cons_of_ne (show isLineEnd 0x2C = false by decide), List.append_assoc,
      List.cons_append]
    rw [textBlocks_gap, textBlocks_name, textBlocks_gap, textBlocks_laid value _ hcomma,
      textBlocks_gap, textBlocks_comma, textBlocks_laidEntries rest s, LaidEntries.cut,
      CutEntries.blocks, List.append_assoc, List.append_assoc]

end

end Itmo.ProgLab6
