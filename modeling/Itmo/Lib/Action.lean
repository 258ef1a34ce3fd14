import Mathlib.Logic.Relation

/-! Computations on a state that may end with an exception. What such a
computation has done to the state before the exception stays done, so there are
three kinds of rules: which changes it can make, however it ends, when it returns
normally from one condition on the state to another, and what holds at either kind
of end. -/

namespace Itmo.Lib

abbrev Action (σ ε α : Type) := ExceptT ε (StateM σ) α

namespace Action

variable {σ ε α β : Type}

/-- How the computation ends, and the state it leaves. -/
def exec (x : Action σ ε α) (s : σ) : Except ε α × σ := StateT.run (ExceptT.run x) s

@[simp] theorem exec_pure (a : α) (s : σ) : exec (pure a : Action σ ε α) s = (.ok a, s) := rfl

@[simp] theorem exec_throw (e : ε) (s : σ) : exec (throw e : Action σ ε α) s = (.error e, s) := rfl

@[simp] theorem exec_get (s : σ) : exec (get : Action σ ε σ) s = (.ok s, s) := rfl

@[simp] theorem exec_modify (f : σ → σ) (s : σ) :
    exec (modify f : Action σ ε PUnit) s = (.ok ⟨⟩, f s) := rfl

theorem exec_bind (x : Action σ ε α) (f : α → Action σ ε β) (s : σ) :
    exec (x >>= f) s = match exec x s with
      | (.ok a, s') => exec (f a) s'
      | (.error e, s') => (.error e, s') := by
  have h : exec (x >>= f) s = (match exec x s with
    | (r, s') => StateT.run (ExceptT.bindCont f r) s') := rfl
  rw [h]
  rcases exec x s with ⟨r, s'⟩
  cases r <;> rfl

theorem exec_bind_ok {x : Action σ ε α} {f : α → Action σ ε β} {s s' : σ} {a : α}
    (h : exec x s = (.ok a, s')) : exec (x >>= f) s = exec (f a) s' := by
  rw [exec_bind, h]

theorem exec_bind_error {x : Action σ ε α} {f : α → Action σ ε β} {s s' : σ} {e : ε}
    (h : exec x s = (.error e, s')) : exec (x >>= f) s = (.error e, s') := by
  rw [exec_bind, h]

theorem exec_tryCatch (x : Action σ ε α) (f : ε → Action σ ε α) (s : σ) :
    exec (tryCatch x f) s = match exec x s with
      | (.ok a, s') => (.ok a, s')
      | (.error e, s') => exec (f e) s' := by
  have h : exec (tryCatch x f) s = (match exec x s with
    | (r, s') => StateT.run (match r with
      | Except.ok a => (pure (Except.ok a) : StateM σ (Except ε α))
      | Except.error e => ExceptT.run (f e)) s') := rfl
  rw [h]
  rcases exec x s with ⟨r, s'⟩
  cases r <;> rfl

theorem exec_tryCatch_ok {x : Action σ ε α} {f : ε → Action σ ε α} {s s' : σ} {a : α}
    (h : exec x s = (.ok a, s')) : exec (tryCatch x f) s = (.ok a, s') := by
  rw [exec_tryCatch, h]

theorem exec_tryCatch_error {x : Action σ ε α} {f : ε → Action σ ε α} {s s' : σ} {e : ε}
    (h : exec x s = (.error e, s')) : exec (tryCatch x f) s = exec (f e) s' := by
  rw [exec_tryCatch, h]

theorem exec_map_ok {x : Action σ ε α} {f : α → β} {s s' : σ} {a : α}
    (h : exec x s = (.ok a, s')) : exec (f <$> x) s = (.ok (f a), s') := by
  rw [map_eq_pure_bind, exec_bind_ok h, exec_pure]

theorem exec_map_error {x : Action σ ε α} {f : α → β} {s s' : σ} {e : ε}
    (h : exec x s = (.error e, s')) : exec (f <$> x) s = (.error e, s') := by
  rw [map_eq_pure_bind, exec_bind_error h]

/-- A computation that does not look at the state. -/
def ofResult (x : Except ε α) : Action σ ε α := ExceptT.mk (pure x)

@[simp] theorem exec_ofResult (x : Except ε α) (s : σ) : exec (ofResult x) s = (x, s) := rfl

theorem exec_ofResult_bind {x : Except ε α} {f : α → Action σ ε β} {a : α} (h : x = .ok a)
    (s : σ) : exec (ofResult x >>= f) s = exec (f a) s := by
  rw [h]
  exact exec_bind_ok rfl

theorem exec_ofResult_bind_error {x : Except ε α} {f : α → Action σ ε β} {e : ε}
    (h : x = .error e) (s : σ) : exec (ofResult x >>= f) s = (.error e, s) := by
  rw [h]
  exact exec_bind_error rfl

/-! ### Changes -/

/-- Every change the computation makes to the state is a sequence of `R`-steps. -/
def Does (R : σ → σ → Prop) (x : Action σ ε α) : Prop :=
  ∀ s, Relation.ReflTransGen R s (exec x s).2

variable {R : σ → σ → Prop}

theorem does_pure (a : α) : Does R (pure a : Action σ ε α) := fun _ => .refl

theorem does_throw (e : ε) : Does R (throw e : Action σ ε α) := fun _ => .refl

theorem does_get : Does R (get : Action σ ε σ) := fun _ => .refl

theorem does_modify {f : σ → σ} (h : ∀ s, R s (f s)) : Does R (modify f : Action σ ε PUnit) :=
  fun s => .single (h s)

theorem Does.bind {x : Action σ ε α} {f : α → Action σ ε β} (hx : Does R x)
    (hf : ∀ a, Does R (f a)) : Does R (x >>= f) := by
  intro s
  have hs := hx s
  rw [exec_bind]
  rcases h : exec x s with ⟨r, s'⟩
  rw [h] at hs
  cases r with
  | ok a => exact hs.trans (hf a s')
  | error e => exact hs

theorem Does.tryCatch {x : Action σ ε α} {f : ε → Action σ ε α} (hx : Does R x)
    (hf : ∀ e, Does R (f e)) : Does R (tryCatch x f) := by
  intro s
  have hs := hx s
  rw [exec_tryCatch]
  rcases h : exec x s with ⟨r, s'⟩
  rw [h] at hs
  cases r with
  | ok a => exact hs
  | error e => exact hs.trans (hf e s')

theorem does_forM {f : β → Action σ ε PUnit} (l : List β) (h : ∀ b ∈ l, Does R (f b)) :
    Does R (l.forM f) := by
  induction l with
  | nil => exact does_pure _
  | cons b l ih =>
    rw [List.forall_mem_cons] at h
    exact h.1.bind fun _ => ih h.2

/-- A property that every step keeps is kept by the computation. -/
theorem Does.preserves {x : Action σ ε α} (hx : Does R x) {I : σ → Prop}
    (hR : ∀ s s', R s s' → I s → I s') {s : σ} (hs : I s) : I (exec x s).2 := by
  have h := hx s
  generalize (exec x s).2 = s' at h
  induction h with
  | refl => exact hs
  | tail _ hstep ih => exact hR _ _ hstep ih

/-! ### Normal returns -/

/-- From a state with `I` the computation returns a value, to a state with `J`. -/
def Returns (I J : σ → Prop) (x : Action σ ε α) : Prop :=
  ∀ s, I s → ∃ a s', exec x s = (.ok a, s') ∧ J s'

variable {I J K : σ → Prop}

theorem returns_pure (a : α) : Returns I I (pure a : Action σ ε α) := fun s hs => ⟨a, s, rfl, hs⟩

theorem returns_get : Returns I I (get : Action σ ε σ) := fun s hs => ⟨s, s, rfl, hs⟩

theorem returns_modify {f : σ → σ} (h : ∀ s, I s → J (f s)) :
    Returns I J (modify f : Action σ ε PUnit) := fun s hs => ⟨⟨⟩, f s, rfl, h s hs⟩

theorem Returns.bind {x : Action σ ε α} {f : α → Action σ ε β} (hx : Returns I J x)
    (hf : ∀ a, Returns J K (f a)) : Returns I K (x >>= f) := by
  intro s hs
  obtain ⟨a, s', hexec, hs'⟩ := hx s hs
  obtain ⟨b, s'', hexec', hs''⟩ := hf a s' hs'
  exact ⟨b, s'', by rw [exec_bind_ok hexec, hexec'], hs''⟩

theorem returns_forM {f : β → Action σ ε PUnit} (h : ∀ b, Returns I I (f b)) (l : List β) :
    Returns I I (l.forM f) := by
  induction l with
  | nil => exact returns_pure _
  | cons b l ih => exact (h b).bind fun _ => ih

/-! ### Both ends -/

/-- From a state with `I`, what holds of a value that is returned and the state then,
and what holds of an exception and the state it leaves. -/
def Ends (I : σ → Prop) (x : Action σ ε α) (Q : α → σ → Prop) (E : ε → σ → Prop) : Prop :=
  ∀ s, I s → match exec x s with
    | (.ok a, s') => Q a s'
    | (.error e, s') => E e s'

variable {E F : ε → σ → Prop} {P : α → σ → Prop} {Q : β → σ → Prop}

theorem ends_pure {a : α} (h : ∀ s, I s → P a s) : Ends I (pure a : Action σ ε α) P E := h

theorem ends_throw {e : ε} (h : ∀ s, I s → E e s) : Ends I (throw e : Action σ ε α) P E := h

theorem ends_modify {f : σ → σ} {P : PUnit → σ → Prop} (h : ∀ s, I s → P ⟨⟩ (f s)) :
    Ends I (modify f : Action σ ε PUnit) P E := h

theorem ends_ofResult {x : Except ε α} (hok : ∀ a, x = .ok a → ∀ s, I s → P a s)
    (herror : ∀ e, x = .error e → ∀ s, I s → E e s) : Ends I (ofResult x) P E := by
  intro s hs
  rw [exec_ofResult]
  cases x with
  | ok a => exact hok a rfl s hs
  | error e => exact herror e rfl s hs

theorem Ends.bind {x : Action σ ε α} {f : α → Action σ ε β} (hx : Ends I x P E)
    (hf : ∀ a, Ends (P a) (f a) Q E) : Ends I (x >>= f) Q E := by
  intro s hs
  have h := hx s hs
  rw [exec_bind]
  rcases hexec : exec x s with ⟨r, s'⟩
  rw [hexec] at h
  cases r with
  | ok a => exact hf a s' h
  | error e => exact h

theorem Ends.map {x : Action σ ε α} {f : α → β} (hx : Ends I x (fun a => Q (f a)) E) :
    Ends I (f <$> x) Q E := by
  rw [map_eq_pure_bind]
  exact hx.bind fun _ => ends_pure fun _ hs => hs

/-- After `get` the state is known. -/
theorem ends_get_bind {f : σ → Action σ ε β} (hf : ∀ s, I s → Ends (· = s) (f s) Q E) :
    Ends I (get >>= f) Q E := by
  intro s hs
  rw [exec_bind_ok (exec_get s)]
  exact hf s hs s rfl

theorem Ends.tryCatch {x : Action σ ε α} {f : ε → Action σ ε α} (hx : Ends I x P E)
    (hf : ∀ e, Ends (E e) (f e) P F) : Ends I (tryCatch x f) P F := by
  intro s hs
  have h := hx s hs
  rw [exec_tryCatch]
  rcases hexec : exec x s with ⟨r, s'⟩
  rw [hexec] at h
  cases r with
  | ok a => exact h
  | error e => exact hf e s' h

theorem Ends.weaken {x : Action σ ε α} {P' : α → σ → Prop} (hx : Ends I x P E)
    (hJ : ∀ s, J s → I s) (hP : ∀ a s, P a s → P' a s) (hE : ∀ e s, E e s → F e s) :
    Ends J x P' F := by
  intro s hs
  have h := hx s (hJ s hs)
  rcases hexec : exec x s with ⟨r, s'⟩
  rw [hexec] at h
  cases r with
  | ok a => exact hP a s' h
  | error e => exact hE e s' h

end Action

end Itmo.Lib
