import Mathlib.Tactic.Common

/-!
# Calls with a status and storage requests

A C function that works on a state, asks the allocator for storage and reports
a status. The allocator's answers are fixed for a run and numbered by the
requests made; what is proved for all of them is proved for every allocation
outcome. A state change made before a failure stays, so that a call leaves its
state alone on failure is something to prove.
-/

namespace Call

inductive Result (ε σ α : Type) where
  | ok (value : α) (state : σ) (made : ℕ)
  | error (status : ε) (state : σ) (made : ℕ)
deriving DecidableEq, Repr

@[simp] def Result.state {ε σ α : Type} : Result ε σ α → σ
  | .ok _ s _ => s
  | .error _ s _ => s

/-- What a run has returned. -/
def Result.toOption {ε σ α : Type} : Result ε σ α → Option α
  | .ok a _ _ => some a
  | .error _ _ _ => none

theorem Result.toOption_eq_some_iff {ε σ α : Type} {r : Result ε σ α} {a : α} :
    r.toOption = some a ↔ ∃ s n, r = .ok a s n := by
  cases r <;> simp [toOption]

end Call

def Call (ε σ α : Type) : Type := (ℕ → Bool) → σ → ℕ → Call.Result ε σ α

namespace Call

variable {ε ε' σ τ α β : Type}

def andThen (x : Call ε σ α) (f : α → Call ε σ β) : Call ε σ β := fun answers s n =>
  match x answers s n with
  | .ok a s' n' => f a answers s' n'
  | .error e s' n' => .error e s' n'

instance : Monad (Call ε σ) where
  pure a := fun _ s n => .ok a s n
  bind := andThen

def fail (e : ε) : Call ε σ α := fun _ s n => .error e s n

/-- `if (!(p)) return e;` -/
def require (p : Prop) [Decidable p] (e : ε) : Call ε σ Unit := fun _ s n =>
  if p then .ok () s n else .error e s n

def ofExcept (r : Except ε α) : Call ε σ α := fun _ s n =>
  match r with
  | .ok a => .ok a s n
  | .error e => .error e s n

/-- One allocation, and what the caller reports when it is denied. -/
def request (e : ε) : Call ε σ Unit := fun answers s n =>
  if answers n then .ok () s (n + 1) else .error e s (n + 1)

def current : Call ε σ σ := fun _ s n => .ok s s n

def replace (s' : σ) : Call ε σ Unit := fun _ _ n => .ok () s' n

def modify (f : σ → σ) : Call ε σ Unit := fun _ s n => .ok () (f s) n

/-- A call on a local value, which a failure disposes of. -/
def within (t : τ) (x : Call ε τ α) : Call ε σ (α × τ) := fun answers s n =>
  match x answers t n with
  | .ok a t' n' => .ok (a, t') s n'
  | .error e _ n' => .error e s n'

/-- A call on a local value whose failure is reported with what it left there. -/
def enclosed (t : τ) (x : Call ε τ α) (f : ε → τ → ε') : Call ε' σ (α × τ) :=
  fun answers s n =>
    match x answers t n with
    | .ok a t' n' => .ok (a, t') s n'
    | .error e t' n' => .error (f e t') s n'

def ofOption (e : ε) (o : Option α) : Call ε σ α := fun _ s n =>
  match o with
  | some a => .ok a s n
  | none => .error e s n

def relabel (f : ε → ε') (x : Call ε σ α) : Call ε' σ α := fun answers s n =>
  match x answers s n with
  | .ok a s' n' => .ok a s' n'
  | .error e s' n' => .error (f e) s' n'

/-- What to do instead when the call fails. -/
def recover (x : Call ε σ α) (f : ε → Call ε' σ α) : Call ε' σ α := fun answers s n =>
  match x answers s n with
  | .ok a s' n' => .ok a s' n'
  | .error e s' n' => f e answers s' n'

def forEach : List α → (α → Call ε σ Unit) → Call ε σ Unit
  | [], _ => pure ()
  | a :: as, f => do
      f a
      forEach as f

def replicate : ℕ → Call ε σ α → Call ε σ (List α)
  | 0, _ => pure []
  | count + 1, x => do
      let a ← x
      let as ← replicate count x
      return a :: as

/-- A loop over `count` ordinals from `start` on. -/
def collect (f : ℕ → Call ε σ α) : ℕ → ℕ → Call ε σ (List α)
  | _, 0 => pure []
  | start, count + 1 => do
      let a ← f start
      let as ← collect f (start + 1) count
      return a :: as

/-- The allocator that denies nothing. -/
def granted : ℕ → Bool := fun _ => true

/-! ## What a successful call went through -/

section Inversion

variable {answers : ℕ → Bool} {s s' : σ} {n n' : ℕ}

theorem bind_apply (x : Call ε σ α) (f : α → Call ε σ β) :
    (x >>= f) answers s n = andThen x f answers s n := rfl

theorem pure_bind (a : α) (f : α → Call ε σ β) : (pure a >>= f) = f a := rfl

theorem bind_assoc {γ : Type} (x : Call ε σ α) (f : α → Call ε σ β) (g : β → Call ε σ γ) :
    ((x >>= f) >>= g) = (x >>= fun a => f a >>= g) := by
  funext answers s n
  simp only [bind_apply, andThen]
  cases x answers s n <;> rfl

theorem bind_eq_ok {x : Call ε σ α} {f : α → Call ε σ β} {b : β} :
    (x >>= f) answers s n = .ok b s' n' ↔
      ∃ a s₁ n₁, x answers s n = .ok a s₁ n₁ ∧ f a answers s₁ n₁ = .ok b s' n' := by
  rw [bind_apply, andThen]
  cases x answers s n with
  | ok a s₁ n₁ =>
      constructor
      · intro h
        exact ⟨a, s₁, n₁, rfl, h⟩
      · rintro ⟨a, s₁, n₁, h, hf⟩
        cases h
        exact hf
  | error e s₁ n₁ => simp

theorem bind_eq_error {x : Call ε σ α} {f : α → Call ε σ β} {e : ε} :
    (x >>= f) answers s n = .error e s' n' ↔
      x answers s n = .error e s' n' ∨
        ∃ a s₁ n₁, x answers s n = .ok a s₁ n₁ ∧ f a answers s₁ n₁ = .error e s' n' := by
  rw [bind_apply, andThen]
  cases x answers s n with
  | ok a s₁ n₁ =>
      constructor
      · intro h
        exact Or.inr ⟨a, s₁, n₁, rfl, h⟩
      · rintro (h | ⟨a, s₁, n₁, h, hf⟩)
        · cases h
        · cases h
          exact hf
  | error e₁ s₁ n₁ => simp

@[simp] theorem pure_eq_ok {a b : α} :
    (pure a : Call ε σ α) answers s n = .ok b s' n' ↔ a = b ∧ s = s' ∧ n = n' := by
  show Result.ok a s n = _ ↔ _
  simp

@[simp] theorem require_eq_ok {p : Prop} [Decidable p] {e : ε} {u : Unit} :
    require (σ := σ) p e answers s n = .ok u s' n' ↔ p ∧ s = s' ∧ n = n' := by
  unfold require
  split <;> simp [*]

@[simp] theorem ofExcept_eq_ok {r : Except ε α} {a : α} :
    ofExcept (σ := σ) r answers s n = .ok a s' n' ↔ r = .ok a ∧ s = s' ∧ n = n' := by
  unfold ofExcept
  cases r <;> simp

theorem ofOption_eq_ok {e : ε} {o : Option α} {a : α} :
    ofOption e o answers s n = .ok a s' n' ↔ o = some a ∧ s = s' ∧ n = n' := by
  unfold ofOption
  cases o <;> simp

@[simp] theorem request_eq_ok {e : ε} {u : Unit} :
    request (σ := σ) e answers s n = .ok u s' n' ↔ answers n = true ∧ s = s' ∧ n + 1 = n' := by
  unfold request
  split <;> simp [*]

@[simp] theorem replace_eq_ok {t : σ} {u : Unit} :
    replace (ε := ε) t answers s n = .ok u s' n' ↔ t = s' ∧ n = n' := by
  unfold replace
  simp

@[simp] theorem fail_eq_ok {e : ε} {a : α} : fail e answers s n = .ok a s' n' ↔ False := by
  unfold fail
  simp

@[simp] theorem within_eq_ok {t : τ} {x : Call ε τ α} {a : α × τ} :
    within t x answers s n = .ok a s' n' ↔ x answers t n = .ok a.1 a.2 n' ∧ s = s' := by
  obtain ⟨a, t'⟩ := a
  unfold within
  cases x answers t n with
  | ok b t₁ n₁ =>
      simp only [Result.ok.injEq, Prod.mk.injEq]
      tauto
  | error e t₁ n₁ => simp

@[simp] theorem relabel_eq_ok {f : ε → ε'} {x : Call ε σ α} {a : α} :
    relabel f x answers s n = .ok a s' n' ↔ x answers s n = .ok a s' n' := by
  unfold relabel
  cases x answers s n <;> simp

/-! A step that leaves the state alone, followed by the rest of the call. -/

theorem require_bind_eq_ok {p : Prop} [Decidable p] {e : ε} {f : Unit → Call ε σ β} {b : β} :
    (require p e >>= f) answers s n = .ok b s' n' ↔ p ∧ f () answers s n = .ok b s' n' := by
  rw [bind_eq_ok]
  constructor
  · rintro ⟨_, _, _, h, hf⟩
    obtain ⟨hp, rfl, rfl⟩ := require_eq_ok.mp h
    exact ⟨hp, hf⟩
  · rintro ⟨hp, hf⟩
    exact ⟨(), s, n, require_eq_ok.mpr ⟨hp, rfl, rfl⟩, hf⟩

theorem ofOption_some_bind (e : ε) (a : α) (f : α → Call ε σ β) :
    (ofOption e (some a) >>= f) = f a := rfl

theorem ofOption_bind_eq_ok {e : ε} {o : Option α} {f : α → Call ε σ β} {b : β} :
    (ofOption e o >>= f) answers s n = .ok b s' n' ↔
      ∃ a, o = some a ∧ f a answers s n = .ok b s' n' := by
  rw [bind_eq_ok]
  constructor
  · rintro ⟨a, s₁, n₁, ho, hf⟩
    obtain ⟨hsome, rfl, rfl⟩ := ofOption_eq_ok.mp ho
    exact ⟨a, hsome, hf⟩
  · rintro ⟨a, hsome, hf⟩
    exact ⟨a, s, n, ofOption_eq_ok.mpr ⟨hsome, rfl, rfl⟩, hf⟩

theorem ofExcept_bind_eq_ok {r : Except ε α} {f : α → Call ε σ β} {b : β} :
    (ofExcept r >>= f) answers s n = .ok b s' n' ↔
      ∃ a, r = .ok a ∧ f a answers s n = .ok b s' n' := by
  rw [bind_eq_ok]
  constructor
  · rintro ⟨a, _, _, h, hf⟩
    obtain ⟨hr, rfl, rfl⟩ := ofExcept_eq_ok.mp h
    exact ⟨a, hr, hf⟩
  · rintro ⟨a, hr, hf⟩
    exact ⟨a, s, n, ofExcept_eq_ok.mpr ⟨hr, rfl, rfl⟩, hf⟩

theorem request_bind_eq_ok {e : ε} {f : Unit → Call ε σ β} {b : β} :
    (request e >>= f) answers s n = .ok b s' n' ↔
      answers n = true ∧ f () answers s (n + 1) = .ok b s' n' := by
  rw [bind_eq_ok]
  constructor
  · rintro ⟨_, _, _, h, hf⟩
    obtain ⟨ha, rfl, rfl⟩ := request_eq_ok.mp h
    exact ⟨ha, hf⟩
  · rintro ⟨ha, hf⟩
    exact ⟨(), s, n + 1, request_eq_ok.mpr ⟨ha, rfl, rfl⟩, hf⟩

theorem current_bind_eq_ok {f : σ → Call ε σ β} {b : β} :
    (current >>= f) answers s n = .ok b s' n' ↔ f s answers s n = .ok b s' n' := Iff.rfl

theorem within_bind_eq_ok {t : τ} {x : Call ε τ α} {f : α × τ → Call ε σ β} {b : β} :
    (within t x >>= f) answers s n = .ok b s' n' ↔
      ∃ a t' n₁, x answers t n = .ok a t' n₁ ∧ f (a, t') answers s n₁ = .ok b s' n' := by
  rw [bind_eq_ok]
  constructor
  · rintro ⟨a, _, n₁, h, hf⟩
    obtain ⟨hx, rfl⟩ := within_eq_ok.mp h
    exact ⟨a.1, a.2, n₁, hx, hf⟩
  · rintro ⟨a, t', n₁, hx, hf⟩
    exact ⟨(a, t'), s, n₁, within_eq_ok.mpr ⟨hx, rfl⟩, hf⟩

end Inversion

/-! ## Calls that leave the state alone -/

/-- The call does not write its state, whatever it reports. -/
def Keeps (x : Call ε σ α) : Prop := ∀ answers s n, (x answers s n).state = s

/-- **All or nothing.** A call that fails leaves its state as it was. -/
def Atomic (x : Call ε σ α) : Prop :=
  ∀ answers s n e s' n', x answers s n = .error e s' n' → s' = s

theorem Keeps.atomic {x : Call ε σ α} (hx : Keeps x) : Atomic x := by
  intro answers s n e s' n' h
  have hs := hx answers s n
  rw [h] at hs
  exact hs

theorem Keeps.ok {x : Call ε σ α} (hx : Keeps x) {answers s n a s' n'}
    (h : x answers s n = .ok a s' n') : s' = s := by
  have hs := hx answers s n
  rw [h] at hs
  exact hs

theorem Keeps.bind {x : Call ε σ α} {f : α → Call ε σ β} (hx : Keeps x)
    (hf : ∀ a, Keeps (f a)) : Keeps (x >>= f) := by
  intro answers s n
  have hs := hx answers s n
  rw [bind_apply, andThen]
  cases h : x answers s n with
  | ok a s₁ n₁ =>
      rw [h] at hs
      cases hs
      exact hf a answers _ n₁
  | error e s₁ n₁ =>
      rw [h] at hs
      exact hs

theorem Atomic.bind {x : Call ε σ α} {f : α → Call ε σ β} (hx : Keeps x)
    (hf : ∀ a, Atomic (f a)) : Atomic (x >>= f) := by
  intro answers s n e s' n' h
  rcases bind_eq_error.mp h with h | ⟨a, s₁, n₁, hok, herr⟩
  · exact hx.atomic answers s n e s' n' h
  · rw [hf a answers s₁ n₁ e s' n' herr]
    exact hx.ok hok

/-- A last write that cannot fail may follow any atomic call. -/
theorem Atomic.bind_total {x : Call ε σ α} {f : α → Call ε σ β} (hx : Atomic x)
    (hf : ∀ a answers s n e s' n', f a answers s n ≠ .error e s' n') : Atomic (x >>= f) := by
  intro answers s n e s' n' h
  rcases bind_eq_error.mp h with h | ⟨a, s₁, n₁, -, herr⟩
  · exact hx answers s n e s' n' h
  · exact absurd herr (hf a answers s₁ n₁ e s' n')

theorem keeps_pure (a : α) : Keeps (pure a : Call ε σ α) := fun _ _ _ => rfl

theorem keeps_fail (e : ε) : Keeps (fail e : Call ε σ α) := fun _ _ _ => rfl

theorem keeps_current : Keeps (current : Call ε σ σ) := fun _ _ _ => rfl

theorem keeps_require (p : Prop) [Decidable p] (e : ε) : Keeps (require (σ := σ) p e) := by
  intro answers s n
  unfold require
  split <;> rfl

theorem keeps_ofOption (e : ε) (o : Option α) : Keeps (ofOption (σ := σ) e o) := by
  intro answers s n
  cases o <;> rfl

theorem keeps_ofExcept (r : Except ε α) : Keeps (ofExcept (σ := σ) r) := by
  intro answers s n
  unfold ofExcept
  cases r <;> rfl

theorem keeps_request (e : ε) : Keeps (request (σ := σ) e) := by
  intro answers s n
  unfold request
  split <;> rfl

theorem keeps_within (t : τ) (x : Call ε τ α) : Keeps (within (σ := σ) t x) := by
  intro answers s n
  unfold within
  cases x answers t n <;> rfl

theorem keeps_relabel {f : ε → ε'} {x : Call ε σ α} (hx : Keeps x) : Keeps (relabel f x) := by
  intro answers s n
  have hs := hx answers s n
  unfold relabel
  cases h : x answers s n with
  | ok => rw [h] at hs; exact hs
  | error => rw [h] at hs; exact hs

theorem replace_ne_error (t : σ) (answers : ℕ → Bool) (s : σ) (n : ℕ) (e : ε) (s' : σ) (n' : ℕ) :
    replace t answers s n ≠ .error e s' n' := by
  unfold replace
  simp

/-! ## Calls whose result does not depend on the allocator -/

/-- From `s` the call returns `a` and leaves `s'`, unless a request is denied,
which it reports as `denied`. -/
def Yields (denied : ε) (x : Call ε σ α) (s : σ) (a : α) (s' : σ) : Prop :=
  ∀ answers n, (∃ n', x answers s n = .ok a s' n') ∨
    (∃ i, answers i = false) ∧ ∃ s₁ n₁, x answers s n = .error denied s₁ n₁

section Yields

variable {denied : ε} {s s' s'' : σ}

theorem Yields.granted {x : Call ε σ α} {a : α} (h : Yields denied x s a s') (n : ℕ) :
    ∃ n', x granted s n = .ok a s' n' := by
  rcases h Call.granted n with h | ⟨⟨i, hi⟩, -⟩
  · exact h
  · cases hi

/-- **The result is unique.** -/
theorem Yields.unique {x : Call ε σ α} {a b : α} {t : σ} {answers : ℕ → Bool} {n n' : ℕ}
    (h : Yields denied x s a s') (hok : x answers s n = .ok b t n') : b = a ∧ t = s' := by
  rcases h answers n with ⟨n₁, h⟩ | ⟨-, s₁, n₁, h⟩
  · rw [hok] at h
    cases h
    exact ⟨rfl, rfl⟩
  · rw [hok] at h
    cases h

theorem Yields.bind {x : Call ε σ α} {f : α → Call ε σ β} {a : α} {b : β}
    (hx : Yields denied x s a s') (hf : Yields denied (f a) s' b s'') :
    Yields denied (x >>= f) s b s'' := by
  intro answers n
  rcases hx answers n with ⟨n₁, h⟩ | ⟨hden, s₁, n₁, h⟩
  · have happly : (x >>= f) answers s n = f a answers s' n₁ := by
      rw [bind_apply, andThen, h]
    rw [happly]
    exact hf answers n₁
  · refine Or.inr ⟨hden, s₁, n₁, ?_⟩
    rw [bind_apply, andThen, h]

theorem yields_pure (a : α) : Yields denied (pure a) s a s := fun _ n => Or.inl ⟨n, rfl⟩

theorem yields_require {p : Prop} [Decidable p] {e : ε} (hp : p) :
    Yields denied (require p e) s () s := by
  intro answers n
  exact Or.inl ⟨n, require_eq_ok.mpr ⟨hp, rfl, rfl⟩⟩

theorem yields_ofExcept {r : Except ε α} {a : α} (h : r = .ok a) :
    Yields denied (ofExcept r) s a s := by
  intro answers n
  exact Or.inl ⟨n, ofExcept_eq_ok.mpr ⟨h, rfl, rfl⟩⟩

theorem yields_request : Yields denied (request denied) s () s := by
  intro answers n
  unfold request
  cases h : answers n with
  | true => exact Or.inl ⟨n + 1, rfl⟩
  | false => exact Or.inr ⟨⟨n, h⟩, s, n + 1, rfl⟩

theorem yields_current : Yields denied current s s s := fun _ n => Or.inl ⟨n, rfl⟩

theorem yields_replace : Yields denied (replace s') s () s' := fun _ n => Or.inl ⟨n, rfl⟩

theorem yields_within {x : Call ε τ α} {t t' : τ} {a : α} (hx : Yields denied x t a t') :
    Yields denied (within t x) s (a, t') s := by
  intro answers n
  rcases hx answers n with ⟨n₁, h⟩ | ⟨hden, s₁, n₁, h⟩
  · refine Or.inl ⟨n₁, ?_⟩
    rw [within, h]
  · refine Or.inr ⟨hden, s, n₁, ?_⟩
    rw [within, h]

end Yields

end Call
