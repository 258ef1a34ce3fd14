import Mathlib.Data.List.Basic

/-! Taking apart computations that may fail, from a result they returned. -/

namespace Itmo.Lib

universe u v w

variable {ε : Type u} {α : Type v}

section bind

variable {β : Type w}

theorem bind_ok {x : Except ε α} {f : α → Except ε β} {b : β} (h : x.bind f = .ok b) :
    ∃ a, x = .ok a ∧ f a = .ok b := by
  cases x with
  | error e => cases h
  | ok a => exact ⟨a, rfl, h⟩

theorem bind_error {x : Except ε α} {f : α → Except ε β} {e : ε} (h : x.bind f = .error e) :
    x = .error e ∨ ∃ a, x = .ok a ∧ f a = .error e := by
  cases x with
  | error e =>
    cases h
    exact Or.inl rfl
  | ok a => exact Or.inr ⟨a, rfl, h⟩

end bind

/-- A result goes on to the next step. -/
theorem ok_bind {β : Type v} (a : α) (f : α → Except ε β) : (Except.ok a >>= f) = f a := rfl

variable {β : Type v}

/-- Every result of a pass that did not fail is that of an element. -/
theorem mapM_ok {f : α → Except ε β} {l : List α} {bs : List β} (h : l.mapM f = .ok bs) :
    ∀ b ∈ bs, ∃ a ∈ l, f a = .ok b := by
  induction l generalizing bs with
  | nil =>
    cases h
    intro b hb
    cases hb
  | cons a l ih =>
    rw [List.mapM_cons] at h
    obtain ⟨b, hb, h⟩ := bind_ok h
    obtain ⟨bs, hbs, h⟩ := bind_ok h
    cases h
    intro c hc
    rcases List.mem_cons.mp hc with rfl | hc
    · exact ⟨a, List.mem_cons_self, hb⟩
    · obtain ⟨a', ha', h⟩ := ih hbs c hc
      exact ⟨a', List.mem_cons_of_mem a ha', h⟩

/-- A pass that fails does so at one of its elements. -/
theorem mapM_error {f : α → Except ε β} {l : List α} {e : ε} (h : l.mapM f = .error e) :
    ∃ a ∈ l, f a = .error e := by
  induction l with
  | nil => cases h
  | cons a l ih =>
    rw [List.mapM_cons] at h
    rcases bind_error h with h | ⟨b, hb, h⟩
    · exact ⟨a, List.mem_cons_self, h⟩
    · rcases bind_error h with h | ⟨bs, hbs, h⟩
      · obtain ⟨c, hc, hfails⟩ := ih h
        exact ⟨c, List.mem_cons_of_mem a hc, hfails⟩
      · cases h

/-- What a pass returns in each element is what it returns in the list. -/
theorem mapM_eq_ok {f : α → Except ε β} {g : α → β} {l : List α} (h : ∀ a ∈ l, f a = .ok (g a)) :
    l.mapM f = .ok (l.map g) := by
  induction l with
  | nil => rfl
  | cons a l ih =>
    rw [List.forall_mem_cons] at h
    rw [List.mapM_cons, h.1, ih h.2]
    rfl

theorem mapM_length {f : α → Except ε β} {l : List α} {bs : List β} (h : l.mapM f = .ok bs) :
    bs.length = l.length := by
  induction l generalizing bs with
  | nil =>
    cases h
    rfl
  | cons a l ih =>
    rw [List.mapM_cons] at h
    obtain ⟨b, -, h⟩ := bind_ok h
    obtain ⟨bs, hbs, h⟩ := bind_ok h
    cases h
    rw [List.length_cons, List.length_cons, ih hbs]

/-- A pass does not fail just if it fails at no element. -/
theorem mapM_isOk_iff {f : α → Except ε β} {l : List α} :
    (∃ bs, l.mapM f = .ok bs) ↔ ∀ a ∈ l, ∃ b, f a = .ok b := by
  induction l with
  | nil => exact iff_of_true ⟨[], rfl⟩ fun a ha => by cases ha
  | cons a l ih =>
    rw [List.forall_mem_cons, ← ih, List.mapM_cons]
    constructor
    · rintro ⟨bs, h⟩
      obtain ⟨b, hb, h⟩ := bind_ok h
      obtain ⟨bs, hbs, -⟩ := bind_ok h
      exact ⟨⟨b, hb⟩, ⟨bs, hbs⟩⟩
    · rintro ⟨⟨b, hb⟩, ⟨bs, hbs⟩⟩
      refine ⟨b :: bs, ?_⟩
      rw [hb, hbs]
      rfl

/-- A pass ends at a first element that fails. -/
theorem mapM_cons_error {f : α → Except ε β} {a : α} {e : ε} (h : f a = .error e) (l : List α) :
    (a :: l).mapM f = .error e := by
  rw [List.mapM_cons, h]
  rfl

/-- A loop fails that fails at one of its elements, whatever it has done before. -/
theorem foldlM_error {σ : Type v} {α : Type w} {f : σ → α → Except ε σ} {a : α}
    (h : ∀ s, ∃ e, f s a = .error e) {l : List α} (ha : a ∈ l) (s : σ) :
    ∃ e, l.foldlM f s = .error e := by
  induction l generalizing s with
  | nil => cases ha
  | cons b l ih =>
    rw [List.foldlM_cons]
    cases hb : f s b with
    | error e => exact ⟨e, rfl⟩
    | ok t =>
      rcases List.mem_cons.mp ha with rfl | ha
      · obtain ⟨e, he⟩ := h s
        rw [he] at hb
        cases hb
      · exact ih ha t

/-! ### Filters -/

/-- Keep the elements for which a test that may fail holds. -/
def filterE (p : α → Except ε Bool) : List α → Except ε (List α)
  | [] => .ok []
  | a :: l => (p a).bind fun keep =>
    (filterE p l).bind fun rest => .ok (if keep then a :: rest else rest)

theorem filterE_eq_ok {p : α → Except ε Bool} {q : α → Bool} {l : List α}
    (h : ∀ a ∈ l, p a = .ok (q a)) : filterE p l = .ok (l.filter q) := by
  induction l with
  | nil => rfl
  | cons a l ih =>
    rw [List.forall_mem_cons] at h
    rw [filterE, h.1, ih h.2, List.filter_cons]
    rfl

theorem filterE_cons_error {p : α → Except ε Bool} {a : α} {e : ε} (h : p a = .error e)
    (l : List α) : filterE p (a :: l) = .error e := by
  rw [filterE, h]
  rfl

/-- A filter that does not fail tests every element. -/
theorem filterE_ok {p : α → Except ε Bool} {l l' : List α} (h : filterE p l = .ok l') :
    ∀ a ∈ l, ∃ b, p a = .ok b := by
  induction l generalizing l' with
  | nil =>
    intro a ha
    cases ha
  | cons a l ih =>
    rw [filterE] at h
    obtain ⟨keep, hkeep, h⟩ := bind_ok h
    obtain ⟨rest, hrest, -⟩ := bind_ok h
    rw [List.forall_mem_cons]
    exact ⟨⟨keep, hkeep⟩, ih hrest⟩

end Itmo.Lib
