import Itmo.ProgLab6.Layout

/-! When white space does not matter. Texts that are cut alike are read alike; where no
word stands at a brace and no name is empty, the reading tells two cuts of the same
elements apart, so that only such texts are read alike. A list that ends in a number is
read without it when nothing stands in front of the bracket. -/

namespace Itmo.ProgLab6

open Lib ProgLab8

/-! ### Files -/

def Laid.IsList : Laid → Prop
  | .emptyList _ => True
  | .list _ => True
  | _ => False

/-- A text with a list at its root. -/
structure File where
  before : Gap
  root : Laid
  after : Gap
  isList : root.IsList

def File.text (f : File) : JString := f.before.val ++ (f.root.text ++ f.after.val)

def File.cut (f : File) : Cut := f.root.cut

section

variable {D : Type} [Numbers D]

end

/-! ### Elements and cuts -/

mutual

/-- The cut of a text with a space wherever one has an effect, and none at a colon. -/
def Cut.tidy : Cut → Cut
  | .scalar s => .scalar s
  | .list items => .list items.tidy
  | .map entries => .map entries.tidy

def CutItems.tidy : CutItems → CutItems
  | .close => .close
  | .glued s => .cons (.scalar s) .close
  | .cons item rest => .cons item.tidy rest.tidy

def CutEntries.tidy : CutEntries → CutEntries
  | .close => .close
  | .glued name _ s => .cons name false (.scalar s) .close
  | .cons name _ value rest => .cons name false value.tidy rest.tidy

end

theorem Laid.closeItems_tidy (value : Laid) (after : Gap) :
    (value.closeItems value.cut after).tidy = .cons value.cut.tidy .close := by
  cases value with
  | word w =>
    unfold closeItems
    dsimp only
    split_ifs <;> rfl
  | _ => rfl

theorem Laid.closeEntries_tidy (value : Laid) (name : JString) (apart : Bool) (after : Gap) :
    (value.closeEntries name apart value.cut after).tidy =
      .cons name false value.cut.tidy .close := by
  cases value with
  | word w =>
    unfold closeEntries
    dsimp only
    split_ifs <;> rfl
  | _ => rfl

mutual

theorem Laid.tidy_compact (value : Laid) : value.compact.cut.tidy = value.cut.tidy := by
  cases value with
  | list items =>
    simp only [Laid.compact, Laid.cut, Cut.tidy]
    rw [items.tidy_compact]
  | map entries =>
    simp only [Laid.compact, Laid.cut, Cut.tidy]
    rw [entries.tidy_compact]
  | _ => rfl

theorem LaidItems.tidy_compact (items : LaidItems) :
    items.compact.cut.tidy = items.cut.tidy := by
  cases items with
  | last before value after =>
    rw [LaidItems.compact, LaidItems.cut, LaidItems.cut, Laid.closeItems_tidy,
      Laid.closeItems_tidy, value.tidy_compact]
  | cons before value after rest =>
    rw [LaidItems.compact, LaidItems.cut, LaidItems.cut, CutItems.tidy, CutItems.tidy,
      value.tidy_compact, rest.tidy_compact]

theorem LaidEntries.tidy_compact (entries : LaidEntries) :
    entries.compact.cut.tidy = entries.cut.tidy := by
  cases entries with
  | last before name afterName beforeValue value after =>
    rw [LaidEntries.compact, LaidEntries.cut, LaidEntries.cut, Laid.closeEntries_tidy,
      Laid.closeEntries_tidy, value.tidy_compact]
  | cons before name afterName beforeValue value after rest =>
    rw [LaidEntries.compact, LaidEntries.cut, LaidEntries.cut, CutEntries.tidy, CutEntries.tidy,
      value.tidy_compact, rest.tidy_compact]

end

mutual

/-- No name is read as the empty one. -/
def Cut.Named : Cut → Prop
  | .scalar _ => True
  | .list items => items.Named
  | .map entries => entries.Named

def CutItems.Named : CutItems → Prop
  | .close => True
  | .glued _ => True
  | .cons item rest => item.Named ∧ rest.Named

def CutEntries.Named : CutEntries → Prop
  | .close => True
  | .glued name _ _ => parseString (key name) ≠ []
  | .cons name _ value rest => parseString (key name) ≠ [] ∧ value.Named ∧ rest.Named

end

theorem nameRead_inj {name : JString} (h : parseString (key name) ≠ []) {apart apart' : Bool}
    (heq : nameRead name apart = nameRead name apart') : apart = apart' := by
  cases apart <;> cases apart'
  · rfl
  · exact absurd heq h
  · exact absurd heq.symm h
  · rfl

section

variable {D : Type} [Numbers D]

theorem map_ok {ε α β : Type} {x : Except ε α} {f : α → β} {b : β} (h : x.map f = .ok b) :
    ∃ a, x = .ok a ∧ f a = b := by
  cases x with
  | error e => cases h
  | ok a => exact ⟨a, rfl, Except.ok.inj h⟩

mutual

/-- The reading tells two cuts of the same elements apart. -/
theorem Cut.eq_of_value {t t' : Cut} (h : t.tidy = t'.tidy) (ht : t.Braced) (ht' : t'.Braced)
    (hn : t.Named) {o : Parsed D} (ho : t.value = .ok o) (ho' : t'.value = .ok o) : t = t' := by
  cases t with
  | scalar s =>
    cases t' with
    | scalar s' => exact h
    | list items' => cases h
    | map entries' => cases h
  | list items =>
    cases t' with
    | scalar s' => cases h
    | list items' =>
      obtain ⟨l, hl, rfl⟩ := map_ok ho
      obtain ⟨l', hl', heq⟩ := map_ok ho'
      rw [Parsed.list.inj heq] at hl'
      rw [CutItems.eq_of_values (Cut.list.inj h) ht ht' hn hl hl']
    | map entries' => cases h
  | map entries =>
    cases t' with
    | scalar s' => cases h
    | list items' => cases h
    | map entries' =>
      obtain ⟨m, hm, rfl⟩ := map_ok ho
      obtain ⟨m', hm', heq⟩ := map_ok ho'
      rw [Parsed.map.inj heq] at hm'
      rw [CutEntries.eq_of_values (Cut.map.inj h) ht ht' hn hm hm']

theorem CutItems.eq_of_values {items items' : CutItems} (h : items.tidy = items'.tidy)
    (ht : items.Braced) (ht' : items'.Braced) (hn : items.Named) {l : List (Parsed D)}
    (hl : items.values = .ok l) (hl' : items'.values = .ok l) : items = items' := by
  cases items with
  | close =>
    cases items' with
    | close => rfl
    | glued s' => cases h
    | cons item' rest' => cases h
  | glued s =>
    cases items' with
    | close => cases h
    | glued s' =>
      cases h
      rfl
    | cons item' rest' =>
      cases hl
      obtain ⟨o, -, hrest⟩ := bind_ok hl'
      obtain ⟨l, -, hcons⟩ := map_ok hrest
      cases hcons
  | cons item rest =>
    cases items' with
    | close => cases h
    | glued s' =>
      cases hl'
      obtain ⟨o, -, hrest⟩ := bind_ok hl
      obtain ⟨l, -, hcons⟩ := map_ok hrest
      cases hcons
    | cons item' rest' =>
      obtain ⟨hitem, hrest⟩ := CutItems.cons.inj h
      obtain ⟨o, ho, hl⟩ := bind_ok hl
      obtain ⟨l, hvalues, rfl⟩ := map_ok hl
      obtain ⟨o', ho', hl'⟩ := bind_ok hl'
      obtain ⟨l', hvalues', hcons⟩ := map_ok hl'
      obtain ⟨rfl, rfl⟩ := List.cons.inj hcons
      rw [Cut.eq_of_value hitem ht.1 ht'.1 hn.1 ho ho',
        CutItems.eq_of_values hrest ht.2 ht'.2 hn.2 hvalues hvalues']

theorem CutEntries.eq_of_values {entries entries' : CutEntries} (h : entries.tidy = entries'.tidy)
    (ht : entries.Braced) (ht' : entries'.Braced) (hn : entries.Named)
    {m : List (JString × Parsed D)} (hm : entries.values = .ok m)
    (hm' : entries'.values = .ok m) : entries = entries' := by
  cases entries with
  | close =>
    cases entries' with
    | close => rfl
    | glued name' apart' s' => cases h
    | cons name' apart' value' rest' => cases h
  | glued name apart s => exact ht.elim
  | cons name apart value rest =>
    cases entries' with
    | close => cases h
    | glued name' apart' s' => exact ht'.elim
    | cons name' apart' value' rest' =>
      obtain ⟨hname, -, hvalue, hrest⟩ := CutEntries.cons.inj h
      obtain ⟨o, ho, hm⟩ := bind_ok hm
      obtain ⟨m, hvalues, rfl⟩ := map_ok hm
      obtain ⟨o', ho', hm'⟩ := bind_ok hm'
      obtain ⟨m', hvalues', hcons⟩ := map_ok hm'
      obtain ⟨hpair, rfl⟩ := List.cons.inj hcons
      obtain ⟨hread, rfl⟩ := Prod.mk.inj hpair
      subst hname
      rw [nameRead_inj hn.1 hread, Cut.eq_of_value hvalue ht.1 ht'.1 hn.2.1 ho ho',
        CutEntries.eq_of_values hrest ht.2 ht'.2 hn.2.2 hvalues hvalues']

end

end

/-! ### Spaces -/

def Gap.space : Gap := ⟨[0x20], List.forall_mem_singleton.mpr (by decide)⟩

/-- The number `1`. -/
def Laid.one : Laid := .word ⟨[0x31], by decide, List.forall_mem_singleton.mpr (by decide)⟩

/-- The name `n`. -/
def Inside.n : Inside := ⟨[0x6E], List.forall_mem_singleton.mpr (by decide)⟩

/-- A name with the list of one number, `afterName` in front of its colon, and `gap` wherever a
space has no effect. -/
def named (gap afterName : Gap) : File where
  before := gap
  root := .list (.last gap (.map (.last gap .n afterName gap
    (.list (.last gap .one .space)) gap)) gap)
  after := gap
  isList := trivial

end Itmo.ProgLab6
