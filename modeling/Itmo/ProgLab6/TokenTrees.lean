import Itmo.ProgLab6.Parsing
import Mathlib.Data.List.Nodup

/-! Trees of lists, maps and scalars as sequences of blocks, and the parser on them.
A list, a map and a value move one index along the blocks: a list stops at a bracket, a
map at a brace or at the last block, and whoever called them steps over the block they
stopped at. The induction is on the tree: each function reads the blocks of its own part
and leaves the index on the last of them, whatever comes behind. It is made once, for
blocks as a text may be cut into them: a bracket stops a list also when a scalar is glued
to it, and a name is skipped when its colon is a block of its own. -/

namespace Itmo.ProgLab6

open Lib ProgLab8

/-! ### Trees -/

/-- A block of a scalar. -/
structure Scalar where
  block : JString
  ne_nil : block ≠ []
  plainEnd : ∀ c ∈ block.getLast?, isPunct c = false

/-- The name of an entry of a map. -/
structure Name where
  text : JString
  valid : ∀ c ∈ text, c ≠ 0x22 ∧ isTerminator c = false

mutual

inductive Tree where
  | scalar (s : Scalar)
  | list (items : Items)
  | map (entries : Entries)

/-- The items of a list. -/
inductive Items where
  | nil
  | cons (item : Tree) (rest : Items)

/-- The entries of a map. -/
inductive Entries where
  | nil
  | cons (name : Name) (value : Tree) (rest : Entries)

end

mutual

def Tree.blocks : Tree → List JString
  | .scalar s => [s.block]
  | .list items => [0x5B] :: (items.blocks ++ [[0x5D]])
  | .map entries => [0x7B] :: (entries.blocks ++ [[0x7D]])

def Items.blocks : Items → List JString
  | .nil => []
  | .cons item rest => item.blocks ++ rest.blocks

def Entries.blocks : Entries → List JString
  | .nil => []
  | .cons name value rest => key name.text :: (value.blocks ++ rest.blocks)

end

/-- The names of a map, in its order. -/
def Entries.names : Entries → List JString
  | .nil => []
  | .cons name _ rest => name.text :: rest.names

section

variable {D : Type} [Numbers D]

mutual

/-- The value of a tree, the leaves read one by one in their order. -/
def Tree.value : Tree → Except Throwable (Parsed D)
  | .scalar s => parseObject s.block
  | .list items => items.values.map .list
  | .map entries => entries.values.map .map

def Items.values : Items → Except Throwable (List (Parsed D))
  | .nil => .ok []
  | .cons item rest => item.value.bind fun o => rest.values.map (o :: ·)

def Entries.values : Entries → Except Throwable (List (JString × Parsed D))
  | .nil => .ok []
  | .cons name value rest => value.value.bind fun o => rest.values.map ((name.text, o) :: ·)

end

end

/-! ### Trees as they are cut -/

mutual

/-- The blocks of a tree as the pattern may cut them. -/
inductive Cut where
  | scalar (s : Scalar)
  | list (items : CutItems)
  | map (entries : CutEntries)

/-- The items of a list, and the bracket with the last of them or without. -/
inductive CutItems where
  | close
  | glued (s : Scalar)
  | cons (item : Cut) (rest : CutItems)

/-- The entries of a map, and the brace with the last value or without; a name may be
apart from its colon. -/
inductive CutEntries where
  | close
  | glued (name : JString) (apart : Bool) (s : Scalar)
  | cons (name : JString) (apart : Bool) (value : Cut) (rest : CutEntries)

end

def nameBlocks (name : JString) (apart : Bool) : List JString :=
  if apart then [quoted name, [0x3A]] else [key name]

/-- The name that is read. -/
def nameRead (name : JString) (apart : Bool) : JString :=
  if apart then [] else parseString (key name)

mutual

def Cut.blocks : Cut → List JString
  | .scalar s => [s.block]
  | .list items => [0x5B] :: items.blocks
  | .map entries => [0x7B] :: entries.blocks

def CutItems.blocks : CutItems → List JString
  | .close => [[0x5D]]
  | .glued s => [s.block ++ [0x5D]]
  | .cons item rest => item.blocks ++ rest.blocks

def CutEntries.blocks : CutEntries → List JString
  | .close => [[0x7D]]
  | .glued name apart s => nameBlocks name apart ++ [s.block ++ [0x7D]]
  | .cons name apart value rest => nameBlocks name apart ++ (value.blocks ++ rest.blocks)

end

mutual

/-- No scalar is glued to a brace. -/
def Cut.Braced : Cut → Prop
  | .scalar _ => True
  | .list items => items.Braced
  | .map entries => entries.Braced

def CutItems.Braced : CutItems → Prop
  | .close => True
  | .glued _ => True
  | .cons item rest => item.Braced ∧ rest.Braced

def CutEntries.Braced : CutEntries → Prop
  | .close => True
  | .glued _ _ _ => False
  | .cons _ _ value rest => value.Braced ∧ rest.Braced

end

/-- The block on which the index is left. -/
def CutItems.last : CutItems → JString
  | .close => [0x5D]
  | .glued s => s.block ++ [0x5D]
  | .cons _ rest => rest.last

def Cut.last : Cut → JString
  | .scalar s => s.block
  | .list items => items.last
  | .map _ => [0x7D]

mutual

def Tree.cut : Tree → Cut
  | .scalar s => .scalar s
  | .list items => .list items.cut
  | .map entries => .map entries.cut

def Items.cut : Items → CutItems
  | .nil => .close
  | .cons item rest => .cons item.cut rest.cut

def Entries.cut : Entries → CutEntries
  | .nil => .close
  | .cons name value rest => .cons name.text false value.cut rest.cut

end

mutual

theorem Tree.cut_blocks (t : Tree) : t.cut.blocks = t.blocks := by
  cases t with
  | scalar s => rfl
  | list items => rw [Tree.cut, Cut.blocks, items.cut_blocks, Tree.blocks]
  | map entries => rw [Tree.cut, Cut.blocks, entries.cut_blocks, Tree.blocks]

theorem Items.cut_blocks (items : Items) : items.cut.blocks = items.blocks ++ [[0x5D]] := by
  cases items with
  | nil => rfl
  | cons item rest =>
    rw [Items.cut, CutItems.blocks, item.cut_blocks, rest.cut_blocks, Items.blocks,
      List.append_assoc]

theorem Entries.cut_blocks (entries : Entries) :
    entries.cut.blocks = entries.blocks ++ [[0x7D]] := by
  cases entries with
  | nil => rfl
  | cons name value rest =>
    rw [Entries.cut, CutEntries.blocks, value.cut_blocks, rest.cut_blocks, Entries.blocks,
      List.cons_append, List.append_assoc]
    rfl

end

mutual

theorem Tree.cut_braced (t : Tree) : t.cut.Braced := by
  cases t with
  | scalar s => exact trivial
  | list items => exact items.cut_braced
  | map entries => exact entries.cut_braced

theorem Items.cut_braced (items : Items) : items.cut.Braced := by
  cases items with
  | nil => exact trivial
  | cons item rest => exact ⟨item.cut_braced, rest.cut_braced⟩

theorem Entries.cut_braced (entries : Entries) : entries.cut.Braced := by
  cases entries with
  | nil => exact trivial
  | cons name value rest => exact ⟨value.cut_braced, rest.cut_braced⟩

end

theorem Items.cut_last (items : Items) : items.cut.last = [0x5D] := by
  cases items with
  | nil => rfl
  | cons item rest => exact rest.cut_last

variable {D : Type} [Numbers D]

mutual

/-- What is read of a cut in which no scalar is glued to a brace: a scalar at a bracket
is lost, and so is a name apart from its colon. -/
def Cut.value : Cut → Except Throwable (Parsed D)
  | .scalar s => parseObject s.block
  | .list items => items.values.map .list
  | .map entries => entries.values.map .map

def CutItems.values : CutItems → Except Throwable (List (Parsed D))
  | .close => .ok []
  | .glued _ => .ok []
  | .cons item rest => item.value.bind fun o => rest.values.map (o :: ·)

def CutEntries.values : CutEntries → Except Throwable (List (JString × Parsed D))
  | .close => .ok []
  | .glued _ _ _ => .ok []
  | .cons name apart value rest => value.value.bind fun o =>
    rest.values.map ((nameRead name apart, o) :: ·)

end

/-- The name of an entry is what stands between the quotes of its block. -/
theorem parseString_key (name : Name) : parseString (key name.text) = name.text := by
  have hall : ∀ c ∈ name.text ++ [0x22, 0x3A], (!isTerminator c) = true := by
    intro c hc
    rw [List.mem_append] at hc
    rcases hc with hc | hc
    · rw [(name.valid c hc).2]
      rfl
    · simp only [List.mem_cons, List.not_mem_nil, or_false] at hc
      rcases hc with rfl | rfl <;> decide
  have hat : quotedAt (key name.text) = some name.text := by
    have hshape : key name.text = 0x22 :: (name.text ++ [0x22, 0x3A]) := by simp [key, quoted]
    have htake : (name.text ++ [0x22, 0x3A]).takeWhile (fun c => !isTerminator c) =
        name.text ++ [0x22, 0x3A] := List.takeWhile_eq_self_iff.mpr hall
    rw [hshape]
    unfold quotedAt
    dsimp only
    rw [if_pos rfl, htake]
    simp
  have hfind : findQuoted (key name.text) = some name.text := by
    have hcons : key name.text = 0x22 :: (name.text ++ [0x22] ++ [0x3A]) := rfl
    rw [hcons] at hat ⊢
    rw [findQuoted, hat]
    rfl
  rw [parseString, hfind]
  rfl

mutual

theorem Tree.cut_value (t : Tree) : t.cut.value (D := D) = t.value := by
  cases t with
  | scalar s => rfl
  | list items => rw [Tree.cut, Cut.value, items.cut_values, Tree.value]
  | map entries => rw [Tree.cut, Cut.value, entries.cut_values, Tree.value]

theorem Items.cut_values (items : Items) : items.cut.values (D := D) = items.values := by
  cases items with
  | nil => rfl
  | cons item rest => rw [Items.cut, CutItems.values, item.cut_value, rest.cut_values, Items.values]

theorem Entries.cut_values (entries : Entries) : entries.cut.values (D := D) = entries.values := by
  cases entries with
  | nil => rfl
  | cons name value rest =>
    have hname : nameRead name.text false = name.text := parseString_key name
    rw [Entries.cut, CutEntries.values, value.cut_value, rest.cut_values, Entries.values, hname]

end

/-! ### Whole trees -/

theorem Cut.blocks_ne_nil (t : Cut) : ∃ b bs, t.blocks = b :: bs := by
  cases t with
  | scalar s => exact ⟨s.block, [], rfl⟩
  | list items => exact ⟨_, _, rfl⟩
  | map entries => exact ⟨_, _, rfl⟩

/-- The blocks of a name and of its value; a name apart from its colon is skipped. -/
theorem parseMap_name (name : JString) (apart : Bool) {blocks : List JString} (hb : blocks ≠ [])
    {n : ℕ} (hn : (nameBlocks name apart ++ blocks).length ≤ n) :
    ∃ m, blocks.length ≤ m ∧ parseMap (D := D) n (nameBlocks name apart ++ blocks) =
      (parseValue m blocks).bind fun p => (parseMap m p.2.tail).bind fun q =>
        .ok ((nameRead name apart, p.1) :: q.1, q.2) := by
  obtain ⟨next, rest, rfl⟩ := List.exists_cons_of_ne_nil hb
  cases apart with
  | false =>
    cases n with
    | zero => simp [nameBlocks] at hn
    | succ n =>
      refine ⟨n, Nat.le_of_succ_le_succ hn, ?_⟩
      exact parseMap_entry (endsIn_key name) n next rest
  | true =>
    match n with
    | 0 => simp [nameBlocks] at hn
    | 1 => simp [nameBlocks] at hn
    | n + 2 =>
      refine ⟨n, Nat.le_of_succ_le_succ (Nat.le_of_succ_le_succ hn), ?_⟩
      have hskip := parseMap_skip (D := D) (endsIn_quoted name (by decide))
        (endsIn_quoted name (by decide)) (n + 1) [0x3A] (next :: rest)
      have hcolon : endsIn 0x3A [0x3A] = true := by decide
      have hentry := parseMap_entry (D := D) hcolon n next rest
      exact hskip.trans hentry

mutual

theorem parseValue_cut (t : Cut) (ht : t.Braced) (rest : List JString) {n : ℕ}
    (hn : (t.blocks ++ rest).length ≤ n) :
    parseValue (D := D) n (t.blocks ++ rest) = t.value.map fun o => (o, t.last :: rest) := by
  cases n with
  | zero =>
    obtain ⟨b, bs, hb⟩ := t.blocks_ne_nil
    simp [hb] at hn
  | succ n =>
    cases t with
    | scalar s =>
      unfold Cut.blocks Cut.value
      rw [List.singleton_append, parseValue_scalar s.plainEnd]
      rfl
    | list items =>
      unfold Cut.blocks at hn ⊢
      rw [List.cons_append] at hn ⊢
      rw [parseValue_list, parseList_cut items ht rest (Nat.le_of_succ_le_succ hn)]
      unfold Cut.value
      cases items.values (D := D) <;> rfl
    | map entries =>
      unfold Cut.blocks at hn ⊢
      rw [List.cons_append] at hn ⊢
      rw [parseValue_map, parseMap_cut entries ht rest (Nat.le_of_succ_le_succ hn)]
      unfold Cut.value
      cases entries.values (D := D) <;> rfl

/-- The items of a list and the block of the bracket. -/
theorem parseList_cut (items : CutItems) (hitems : items.Braced) (rest : List JString) {n : ℕ}
    (hn : (items.blocks ++ rest).length ≤ n) :
    parseList (D := D) n (items.blocks ++ rest) =
      items.values.map fun l => (l, items.last :: rest) := by
  cases items with
  | close =>
    cases n with
    | zero => simp [CutItems.blocks] at hn
    | succ n => exact parseList_close (by decide) n rest
  | glued s =>
    cases n with
    | zero => simp [CutItems.blocks] at hn
    | succ n => exact parseList_close (by simp [endsIn]) n rest
  | cons item items =>
    unfold CutItems.blocks at hn ⊢
    rw [List.append_assoc] at hn ⊢
    obtain ⟨b, bs, hb⟩ := item.blocks_ne_nil
    cases n with
    | zero => simp [hb] at hn
    | succ n =>
      have hrest := parseList_cut items hitems.2 rest (n := n) <| by
        simp only [hb, List.length_append, List.length_cons] at hn ⊢
        omega
      unfold CutItems.values
      cases item with
      | scalar s =>
        unfold Cut.blocks Cut.value
        rw [List.singleton_append, parseList_scalar s.plainEnd, hrest]
        cases parseObject (D := D) s.block with
        | error e => rfl
        | ok o => cases items.values (D := D) <;> rfl
      | list inner =>
        unfold Cut.blocks at hn ⊢
        rw [List.cons_append] at hn ⊢
        rw [parseList_list, parseList_cut inner hitems.1 _ (Nat.le_of_succ_le_succ hn)]
        unfold Cut.value
        cases inner.values (D := D) with
        | error e => rfl
        | ok l =>
          simp only [Except.map, Except.bind, List.tail_cons]
          rw [hrest]
          cases items.values (D := D) <;> rfl
      | map entries =>
        unfold Cut.blocks at hn ⊢
        rw [List.cons_append] at hn ⊢
        rw [parseList_map, parseMap_cut entries hitems.1 _ (Nat.le_of_succ_le_succ hn)]
        unfold Cut.value
        cases entries.values (D := D) with
        | error e => rfl
        | ok m =>
          simp only [Except.map, Except.bind, List.tail_cons]
          rw [hrest]
          cases items.values (D := D) <;> rfl

/-- The entries of a map and the block of the brace. -/
theorem parseMap_cut (entries : CutEntries) (hentries : entries.Braced) (rest : List JString)
    {n : ℕ} (hn : (entries.blocks ++ rest).length ≤ n) :
    parseMap (D := D) n (entries.blocks ++ rest) =
      entries.values.map fun m => (m, [0x7D] :: rest) := by
  cases entries with
  | close =>
    cases n with
    | zero => simp [CutEntries.blocks] at hn
    | succ n => exact parseMap_close (by decide) n rest
  | glued name apart s => exact hentries.elim
  | cons name apart value entries =>
    unfold CutEntries.blocks at hn ⊢
    rw [List.append_assoc, List.append_assoc] at hn ⊢
    obtain ⟨b, bs, hb⟩ := value.blocks_ne_nil
    obtain ⟨m, hm, hname⟩ := parseMap_name (D := D) name apart
      (List.append_ne_nil_of_left_ne_nil (by simp [hb]) (entries.blocks ++ rest)) hn
    have hvalue := parseValue_cut value hentries.1 (entries.blocks ++ rest) hm
    have hrest := parseMap_cut entries hentries.2 rest (n := m) <| by
      rw [List.length_append] at hm
      omega
    rw [hname, hvalue]
    unfold CutEntries.values
    cases value.value (D := D) with
    | error e => rfl
    | ok o =>
      simp only [Except.map, Except.bind, List.tail_cons]
      rw [hrest]
      cases entries.values (D := D) <;> rfl

end

/-- A file whose blocks are those of a list in which no scalar is glued to a brace. -/
theorem parseFile_cut {text : JString} {items : CutItems} (hitems : items.Braced)
    (h : fileBlocks text = (Cut.list items).blocks) :
    parseFile (D := D) text = (Cut.list items).value := by
  have hlist := parseList_cut (D := D) items hitems [] (n := items.blocks.length + 1) (by simp)
  rw [List.append_nil] at hlist
  unfold parseFile
  dsimp only
  rw [h, Cut.blocks, List.tail_cons, List.length_cons, hlist]
  unfold Cut.value
  cases items.values (D := D) <;> rfl

/-! ### The tree of a file -/

theorem Tree.list_blocks_append (items : Items) (rest : List JString) :
    (Tree.list items).blocks ++ rest = [0x5B] :: (items.blocks ++ [0x5D] :: rest) := by
  unfold Tree.blocks
  rw [List.cons_append, List.append_assoc, List.singleton_append]

theorem parseList_items (items : Items) (rest : List JString) {n : ℕ}
    (hn : (items.blocks ++ [0x5D] :: rest).length ≤ n) :
    parseList (D := D) n (items.blocks ++ [0x5D] :: rest) =
      items.values.map fun l => (l, [0x5D] :: rest) := by
  have hblocks : items.blocks ++ [0x5D] :: rest = items.cut.blocks ++ rest := by
    rw [items.cut_blocks, List.append_assoc, List.singleton_append]
  rw [hblocks] at hn ⊢
  rw [parseList_cut items.cut items.cut_braced rest hn, items.cut_values, items.cut_last]

/-- Wherever the blocks of a list stand, `parseList` with the index behind the opening
bracket gives the list, or the error of the first leaf that has one, and leaves the index
on the closing bracket. -/
theorem parseList_tree (before : List JString) (items : Items) (after : List JString) (k : ℕ) :
    let blocks := before ++ (Tree.list items).blocks ++ after
    let index := before.length + 1
    let closing := index + items.blocks.length
    parseList (D := D) ((blocks.drop index).length + k) (blocks.drop index) =
        items.values.map (fun l => (l, blocks.drop closing)) ∧
      blocks[closing]? = some [0x5D] := by
  intro blocks index closing
  have hblocks : blocks = before ++ [0x5B] :: (items.blocks ++ [0x5D] :: after) := by
    rw [← Tree.list_blocks_append, ← List.append_assoc]
  have hindex : blocks.drop index = items.blocks ++ [0x5D] :: after := by
    have hopen : blocks = before ++ [[0x5B]] ++ (items.blocks ++ [0x5D] :: after) := by
      rw [hblocks, List.append_assoc, List.singleton_append]
    rw [hopen]
    exact List.drop_left' (List.length_append)
  have hclosing : blocks.drop closing = [0x5D] :: after := by
    rw [← List.drop_drop, hindex, List.drop_left]
  constructor
  · rw [hclosing, hindex]
    exact parseList_items items after (Nat.le_add_right _ _)
  · rw [← List.head?_drop, hclosing]
    rfl

/-- A file whose blocks are those of a list. -/
theorem parseFile_tree {text : JString} {items : Items}
    (h : fileBlocks text = (Tree.list items).blocks) :
    parseFile (D := D) text = (Tree.list items).value := by
  rw [← Tree.cut_blocks] at h
  rw [parseFile_cut items.cut_braced h, ← Tree.cut_value]
  rfl

theorem Entries.map_fst_values (entries : Entries) {m : List (JString × Parsed D)}
    (h : entries.values = .ok m) : m.map Prod.fst = entries.names := by
  cases entries with
  | nil =>
    cases h
    rfl
  | cons name value rest =>
    unfold Entries.values at h
    obtain ⟨o, -, h⟩ := bind_ok h
    cases hrest : rest.values (D := D) with
    | error e =>
      rw [hrest] at h
      cases h
    | ok m' =>
      rw [hrest] at h
      cases h
      rw [List.map_cons, rest.map_fst_values hrest, Entries.names]

/-- In a map whose names differ every name has its own value. -/
theorem Entries.lookup_values {entries : Entries} (hnames : entries.names.Nodup)
    {m : List (JString × Parsed D)} (h : entries.values = .ok m) :
    m.map Prod.fst = entries.names ∧ ∀ p ∈ m, m.reverse.lookup p.1 = some p.2 := by
  have hfst := entries.map_fst_values h
  refine ⟨hfst, ?_⟩
  intro p hp
  obtain ⟨m₁, m₂, hm⟩ := List.append_of_mem (List.mem_reverse.mpr hp)
  have hnodup : (m.reverse.map Prod.fst).Nodup := by
    rw [List.map_reverse, List.nodup_reverse, hfst]
    exact hnames
  rw [hm, List.map_append, List.map_cons, List.nodup_middle, List.nodup_cons,
    ← List.map_append] at hnodup
  rw [List.lookup_eq_some_iff]
  refine ⟨m₁, m₂, hm, ?_⟩
  intro q hq
  rw [bne_iff_ne]
  intro heq
  exact hnodup.1 (heq ▸ List.mem_map_of_mem (List.mem_append_left m₂ hq))

end Itmo.ProgLab6
