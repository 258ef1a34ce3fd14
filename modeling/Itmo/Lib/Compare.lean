import Mathlib.Data.Int.Notation
import Mathlib.Logic.Function.Defs

/-! Three-way comparisons with an integer result, whose sign says which argument
is the greater one. Comparisons are built from strict relations and chained, and
both ways of building keep the law that a swap of the arguments negates the
result. No totality and no transitivity is asked of the relations, so the law
also covers numbers that are not comparable with anything. -/

namespace Itmo.Lib

variable {α β : Type*}

/-- Swapping the arguments negates the result. -/
def SwapNeg (c : α → α → ℤ) : Prop := ∀ a b, c a b = -c b a

/-- The comparison by a strict relation: equal when neither is the greater one. -/
def compareByLt (lt : α → α → Bool) (a b : α) : ℤ :=
  if lt b a then 1 else if lt a b then -1 else 0

theorem swapNeg_compareByLt {lt : α → α → Bool} (h : ∀ a b, lt a b → lt b a = false) :
    SwapNeg (compareByLt lt) := by
  intro a b
  unfold compareByLt
  by_cases hab : lt a b
  · simp [hab, h a b hab]
  · by_cases hba : lt b a
    · simp [hab, hba]
    · simp [hab, hba]

/-- The second comparison decides where the first finds no difference. -/
def thenCompare (first second : ℤ) : ℤ := if first ≠ 0 then first else second

theorem SwapNeg.comp {c : β → β → ℤ} (h : SwapNeg c) (f : α → β) :
    SwapNeg fun a b => c (f a) (f b) := fun a b => h (f a) (f b)

theorem SwapNeg.then {c d : α → α → ℤ} (hc : SwapNeg c) (hd : SwapNeg d) :
    SwapNeg fun a b => thenCompare (c a b) (d a b) := by
  intro a b
  have h₁ : c a b = -c b a := hc a b
  have h₂ : d a b = -d b a := hd a b
  unfold thenCompare
  by_cases h : c b a = 0
  · simp [h₁, h₂, h]
  · simp [h₁, h]

/-! ### Total preorders -/

/-- Not being the smaller one is transitive. -/
def TransGE (c : α → α → ℤ) : Prop := ∀ a b d, 0 ≤ c a b → 0 ≤ c b d → 0 ≤ c a d

/-- A relation for which whatever lies between two elements is comparable with one
of them, as in a linear order. -/
theorem transGE_compareByLt {lt : α → α → Bool} (hasymm : ∀ a b, lt a b → lt b a = false)
    (hlt : ∀ a b d, lt a d → lt a b ∨ lt b d) : TransGE (compareByLt lt) := by
  have hge : ∀ a b, 0 ≤ compareByLt lt a b ↔ ¬ lt a b := by
    intro a b
    unfold compareByLt
    by_cases hba : lt b a
    · simp [hba, hasymm b a hba]
    · by_cases hab : lt a b <;> simp [hba, hab]
  intro a b d hab hbd
  rw [hge] at hab hbd ⊢
  intro had
  rcases hlt a b d had with h | h
  · exact hab h
  · exact hbd h

theorem TransGE.comp {c : β → β → ℤ} (h : TransGE c) (f : α → β) :
    TransGE fun a b => c (f a) (f b) := fun a b d => h (f a) (f b) (f d)

theorem TransGE.then {c d : α → α → ℤ} (hc : TransGE c) (hd : TransGE d) (hsc : SwapNeg c) :
    TransGE fun a b => thenCompare (c a b) (d a b) := by
  have hge : ∀ x y : ℤ, 0 ≤ thenCompare x y ↔ 0 < x ∨ x = 0 ∧ 0 ≤ y := by
    intro x y
    unfold thenCompare
    split <;> omega
  intro a b e hab hbe
  rw [hge] at hab hbe ⊢
  have hae : 0 ≤ c a e := hc a b e (by omega) (by omega)
  by_cases hzero : c a e = 0
  · -- a tie of the ends is one of the middle too, so the second comparison decides throughout
    have hea := hsc e a
    have hba : 0 ≤ c b a := hc b e a (by omega) (by omega)
    have heb : 0 ≤ c e b := hc e a b (by omega) (by omega)
    have h₁ := hsc b a
    have h₂ := hsc e b
    have hae : 0 ≤ d a e := hd a b e (by omega) (by omega)
    exact .inr ⟨hzero, hae⟩
  · left
    omega

/-- What is greater than an element is greater than whatever that is not smaller than. -/
theorem TransGE.pos_trans {c : α → α → ℤ} (h : TransGE c) (hs : SwapNeg c) {x a b : α}
    (hx : 0 < c x a) (hab : 0 ≤ c a b) : 0 < c x b := by
  have hxb := hs x b
  have hxa := hs x a
  by_cases hbx : 0 ≤ c b x
  · have hax := h a b x hab hbx
    omega
  · omega

/-- Elements that compare as equal compare alike with any other. -/
theorem TransGE.pos_congr {c : α → α → ℤ} (h : TransGE c) (hs : SwapNeg c) {a b : α}
    (hab : c a b = 0) (x : α) : 0 < c x a ↔ 0 < c x b := by
  have hba := hs b a
  constructor
  · intro hx
    exact h.pos_trans hs hx (by omega)
  · intro hx
    exact h.pos_trans hs hx (by omega)

theorem SwapNeg.refl {c : α → α → ℤ} (h : SwapNeg c) (a : α) : c a a = 0 := by
  have haa := h a a
  omega

/-- Keeping the greater of two, and the first of equal ones, along a list ends with
an element that is not smaller than any. -/
theorem TransGE.foldl_greatest {c : α → α → ℤ} (h : TransGE c) (hs : SwapNeg c) (l : List α)
    (a : α) : l.foldl (fun a b => if 0 ≤ c a b then a else b) a ∈ a :: l ∧
      ∀ b ∈ a :: l, 0 ≤ c (l.foldl (fun a b => if 0 ≤ c a b then a else b) a) b := by
  induction l generalizing a with
  | nil =>
    refine ⟨List.mem_singleton_self a, fun b hb => ?_⟩
    rw [List.mem_singleton] at hb
    rw [hb, List.foldl_nil]
    exact Int.le_of_eq (hs.refl a).symm
  | cons x l ih =>
    rw [List.foldl_cons]
    have hcases : ∃ g, (if 0 ≤ c a x then a else x) = g ∧ (g = a ∨ g = x) ∧ 0 ≤ c g a ∧
        0 ≤ c g x := by
      have hax := hs a x
      have haa := hs.refl a
      have hxx := hs.refl x
      by_cases hge : 0 ≤ c a x
      · exact ⟨a, if_pos hge, .inl rfl, by omega, hge⟩
      · exact ⟨x, if_neg hge, .inr rfl, by omega, by omega⟩
    obtain ⟨g, hg, hmem, hga, hgx⟩ := hcases
    rw [hg]
    obtain ⟨hin, hall⟩ := ih g
    have hfirst := hall g List.mem_cons_self
    constructor
    · rcases List.mem_cons.mp hin with hin | hin
      · rw [hin]
        rcases hmem with rfl | rfl
        · exact List.mem_cons_self
        · exact List.mem_cons_of_mem _ List.mem_cons_self
      · exact List.mem_cons_of_mem _ (List.mem_cons_of_mem _ hin)
    · intro b hb
      rcases List.mem_cons.mp hb with rfl | hb
      · exact h _ g b hfirst hga
      · rcases List.mem_cons.mp hb with rfl | hb
        · exact h _ g b hfirst hgx
        · exact hall b (List.mem_cons_of_mem _ hb)

/-- What is greater than the greatest element is greater than every one. -/
theorem TransGE.pos_foldl_iff {c : α → α → ℤ} (h : TransGE c) (hs : SwapNeg c) (x : α)
    (l : List α) (a : α) : 0 < c x (l.foldl (fun a b => if 0 ≤ c a b then a else b) a) ↔
      ∀ b ∈ a :: l, 0 < c x b := by
  obtain ⟨hmem, hge⟩ := h.foldl_greatest hs l a
  constructor
  · intro hx b hb
    exact h.pos_trans hs hx (hge b hb)
  · intro hx
    exact hx _ hmem

theorem TransGE.nonpos_trans {c : α → α → ℤ} (h : TransGE c) (hs : SwapNeg c) {a b d : α}
    (hab : c a b ≤ 0) (hbd : c b d ≤ 0) : c a d ≤ 0 := by
  have hba := hs a b
  have hdb := hs b d
  have hda := hs a d
  have hge : 0 ≤ c d a := h d b a (by omega) (by omega)
  omega

theorem SwapNeg.sign_swap {c : α → α → ℤ} (h : SwapNeg c) (a b : α) :
    (c a b).sign = -(c b a).sign := by
  rw [h a b, Int.sign_neg]

/-- What is not smaller than a greater element is a greater one. -/
theorem TransGE.trans_pos {c : α → α → ℤ} (h : TransGE c) (hs : SwapNeg c) {a b x : α}
    (hab : 0 ≤ c a b) (hx : 0 < c b x) : 0 < c a x := by
  have hbx := hs b x
  have hax := hs a x
  by_cases hxa : 0 ≤ c x a
  · have hxb := h x a b hxa hab
    omega
  · omega

/-- Elements that compare as equal can be put for one another, on either side. -/
theorem TransGE.sign_congr {c : α → α → ℤ} (h : TransGE c) (hs : SwapNeg c) {a b : α}
    (hab : c a b = 0) (x : α) : (c x a).sign = (c x b).sign ∧ (c a x).sign = (c b x).sign := by
  have hba := hs b a
  have hsign : (c a x).sign = (c b x).sign := by
    have hpos : 0 < c a x ↔ 0 < c b x :=
      ⟨fun hx => h.trans_pos hs (by omega) hx, fun hx => h.trans_pos hs (by omega) hx⟩
    have hneg := h.pos_congr hs hab x
    have hax := hs a x
    have hbx := hs b x
    rcases Int.lt_trichotomy (c a x) 0 with ha | ha | ha
    · rw [Int.sign_eq_neg_one_of_neg ha, Int.sign_eq_neg_one_of_neg (by omega)]
    · rw [ha, show c b x = 0 by omega]
    · rw [Int.sign_eq_one_of_pos ha, Int.sign_eq_one_of_pos (by omega)]
  refine ⟨?_, hsign⟩
  rw [hs.sign_swap x a, hs.sign_swap x b, hsign]

theorem SwapNeg.pos_iff {c : α → α → ℤ} (h : SwapNeg c) (a b : α) : 0 < c a b ↔ c b a < 0 := by
  have hab : c a b = -c b a := h a b
  omega

end Itmo.Lib
