import Mathlib.Data.List.Nodup

/-! Hiding a message in a block. The elements of the message go to chosen slots,
one after the other, and what is left empty is filled from elsewhere. Reading the
same slots gives the elements back, whatever the filling was; when the message was
shorter than the slots are many, something of the filling comes after it. -/

namespace Itmo.Lib

variable {α : Type*}

/-- Each slot takes the next element, or nothing when there is none. -/
def scatter : List ℕ → List α → List (Option α) → List (Option α)
  | [], _, block => block
  | slot :: slots, xs, block => scatter slots xs.tail (block.set slot xs.head?)

/-- The empty places take what the source gives next; the number is how often it
was asked. -/
def fill (source : ℕ → α) : ℕ → List (Option α) → List α × ℕ
  | n, [] => ([], n)
  | n, some x :: block =>
    let (rest, n') := fill source n block
    (x :: rest, n')
  | n, none :: block =>
    let (rest, n') := fill source (n + 1) block
    (source n :: rest, n')

def gather (slots : List ℕ) (block : List α) : List α := slots.filterMap (block[·]?)

/-- Writing to some slots, and then what is left of the message to others. -/
theorem scatter_append (slots slots' : List ℕ) (xs : List α) (block : List (Option α)) :
    scatter (slots ++ slots') xs block =
      scatter slots' (xs.drop slots.length) (scatter slots xs block) := by
  induction slots generalizing xs block with
  | nil => rfl
  | cons slot slots ih =>
    rw [List.cons_append, scatter, ih, scatter, List.length_cons, ← List.drop_one, List.drop_drop,
      Nat.add_comm 1]

theorem gather_append (slots slots' : List ℕ) (block : List α) :
    gather (slots ++ slots') block = gather slots block ++ gather slots' block :=
  List.filterMap_append

@[simp] theorem scatter_length (slots : List ℕ) (xs : List α) (block : List (Option α)) :
    (scatter slots xs block).length = block.length := by
  induction slots generalizing xs block with
  | nil => rfl
  | cons slot slots ih => rw [scatter, ih, List.length_set]

@[simp] theorem fill_length (source : ℕ → α) (n : ℕ) (block : List (Option α)) :
    (fill source n block).1.length = block.length := by
  induction block generalizing n with
  | nil => rfl
  | cons x block ih =>
    cases x with
    | none => simp [fill, ih]
    | some x => simp [fill, ih]

/-- What is in the block stays. -/
theorem getElem?_fill (source : ℕ → α) (n : ℕ) {block : List (Option α)} {i : ℕ} {x : α}
    (h : block[i]? = some (some x)) : (fill source n block).1[i]? = some x := by
  induction block generalizing n i with
  | nil => cases h
  | cons y block ih =>
    cases i with
    | zero =>
      obtain rfl : y = some x := by simpa using h
      rfl
    | succ i =>
      rw [List.getElem?_cons_succ] at h
      cases y with
      | none => simpa [fill] using ih (n + 1) h
      | some y => simpa [fill] using ih n h

/-- Other slots are not written to. -/
theorem getElem?_scatter {slots : List ℕ} {slot : ℕ} (h : slot ∉ slots) (xs : List α)
    (block : List (Option α)) : (scatter slots xs block)[slot]? = block[slot]? := by
  induction slots generalizing xs block with
  | nil => rfl
  | cons s slots ih =>
    rw [List.mem_cons, not_or] at h
    rw [scatter, ih h.2, List.getElem?_set_ne (Ne.symm h.1)]

theorem gather_length {slots : List ℕ} {block : List α} (h : ∀ slot ∈ slots, slot < block.length) :
    (gather slots block).length = slots.length := by
  induction slots with
  | nil => rfl
  | cons slot slots ih =>
    rw [List.forall_mem_cons] at h
    rw [gather, List.filterMap_cons_some (List.getElem?_eq_getElem h.1), List.length_cons,
      List.length_cons, ← ih h.2]
    rfl

/-- The slots of a block that agrees with what was written begin with the message. -/
theorem take_prefix_gather {slots : List ℕ} (hslots : slots.Nodup) {xs : List α}
    {block : List (Option α)} {out : List α} (hlt : ∀ slot ∈ slots, slot < block.length)
    (hout : ∀ (i : ℕ) (x : α), (scatter slots xs block)[i]? = some (some x) → out[i]? = some x)
    (hlen : out.length = block.length) : xs.take slots.length <+: gather slots out := by
  induction slots generalizing xs block with
  | nil => exact List.nil_prefix
  | cons slot slots ih =>
    rw [List.forall_mem_cons] at hlt
    rw [List.nodup_cons] at hslots
    cases xs with
    | nil => exact List.nil_prefix
    | cons x xs =>
      have hslot : out[slot]? = some x := by
        apply hout
        rw [scatter, getElem?_scatter hslots.1]
        exact List.getElem?_set_self hlt.1
      have hlt' : ∀ s ∈ slots, s < (block.set slot (some x)).length := by
        intro s hs
        rw [List.length_set]
        exact hlt.2 s hs
      have hrest : xs.take slots.length <+: gather slots out :=
        ih hslots.2 hlt' hout (by rw [List.length_set, hlen])
      have hgather : gather (slot :: slots) out = x :: gather slots out := by
        rw [gather, List.filterMap_cons_some hslot]
        rfl
      rw [hgather, List.length_cons, List.take_succ_cons]
      exact List.cons_prefix_cons.mpr ⟨rfl, hrest⟩

end Itmo.Lib
