import Mathlib.Tactic.Common
import Mathlib.Data.Nat.Notation

/-!
# Computations that sample a changing world

A process works in a world that others change while it runs. The history of the
world is fixed for a run; each operation meets the world of its own instant, and
the clock moves on by one. What is proved for every history is proved for
everything the others may do.

A loop that the world can keep going is given fuel, and a run that uses it up
reports nothing.
-/

namespace Sampled

inductive Outcome (ε α : Type) where
  | ok (value : α) (later : ℕ)
  | error (status : ε) (later : ℕ)
  | running
deriving DecidableEq, Repr

/-- An outcome is not earlier than the start. -/
def Outcome.Since {ε α : Type} (now : ℕ) : Outcome ε α → Prop
  | .ok _ later => now ≤ later
  | .error _ later => now ≤ later
  | .running => True

end Sampled

structure Sampled (ε W α : Type) where
  run : (ℕ → W) → ℕ → Sampled.Outcome ε α
  forward : ∀ history now, (run history now).Since now

namespace Sampled

variable {ε ε' W α β γ : Type}

/-- The rest of a computation, from the outcome of its first part. -/
def Outcome.continue (outcome : Outcome ε α) (f : α → ℕ → Outcome ε β) : Outcome ε β :=
  match outcome with
  | .ok a later => f a later
  | .error e later => .error e later
  | .running => .running

theorem Outcome.Since.continue {now : ℕ} {outcome : Outcome ε α} {f : α → ℕ → Outcome ε β}
    (h : outcome.Since now) (hf : ∀ a later, (f a later).Since later) :
    (outcome.continue f).Since now := by
  cases outcome with
  | ok a later =>
      have hrest := hf a later
      cases hout : f a later with
      | ok b last =>
          rw [hout] at hrest
          rw [Outcome.continue, hout]
          exact Nat.le_trans h hrest
      | error e last =>
          rw [hout] at hrest
          rw [Outcome.continue, hout]
          exact Nat.le_trans h hrest
      | running =>
          rw [Outcome.continue, hout]
          trivial
  | error e later => exact h
  | running => trivial

instance : Monad (Sampled ε W) where
  pure a := ⟨fun _ now => .ok a now, fun _ now => Nat.le_refl now⟩
  bind x f := ⟨fun history now => (x.run history now).continue fun a => (f a).run history,
    fun history now => (x.forward history now).continue fun a => (f a).forward history⟩

/-- One operation: the world of the instant. -/
def sample : Sampled ε W W :=
  ⟨fun history now => .ok (history now) (now + 1), fun _ now => Nat.le_succ now⟩

def fail (e : ε) : Sampled ε W α :=
  ⟨fun _ now => .error e now, fun _ now => Nat.le_refl now⟩

/-- A loop without fuel. -/
def exhausted : Sampled ε W α := ⟨fun _ _ => .running, fun _ _ => trivial⟩

/-- `if (!(p)) return e;` -/
def require (p : Prop) [Decidable p] (e : ε) : Sampled ε W Unit :=
  if p then pure () else fail e

def ofExcept (r : Except ε α) : Sampled ε W α :=
  match r with
  | .ok a => pure a
  | .error e => fail e

/-- The outcome with its failure as a value. -/
def Outcome.settled : Outcome ε α → Outcome ε' (Except ε α)
  | .ok a later => .ok (.ok a) later
  | .error e later => .ok (.error e) later
  | .running => .running

/-- A computation whose failure is a value for what follows. -/
def attempt (x : Sampled ε W α) : Sampled ε' W (Except ε α) where
  run history now := (x.run history now).settled
  forward history now := by
    have h := x.forward history now
    cases hx : x.run history now with
    | ok a later => rwa [hx] at h
    | error e later => rwa [hx] at h
    | running => trivial

/-- A computation whose failures are reported under another status. -/
def relabel (f : ε → ε') (x : Sampled ε W α) : Sampled ε' W α := do
  match ← attempt x with
  | .ok a => pure a
  | .error e => fail (f e)

/-! ## What a successful computation went through -/

section Inversion

variable {history : ℕ → W} {now later : ℕ}

theorem bind_eq_ok {x : Sampled ε W α} {f : α → Sampled ε W β} {b : β} :
    (x >>= f).run history now = .ok b later ↔
      ∃ a mid, x.run history now = .ok a mid ∧ (f a).run history mid = .ok b later := by
  show (x.run history now).continue _ = _ ↔ _
  cases x.run history now with
  | ok a mid =>
      constructor
      · intro h
        exact ⟨a, mid, rfl, h⟩
      · rintro ⟨a, mid, h, hf⟩
        cases h
        exact hf
  | error e mid => simp [Outcome.continue]
  | running => simp [Outcome.continue]

@[simp] theorem pure_eq_ok {a b : α} :
    (pure a : Sampled ε W α).run history now = .ok b later ↔ a = b ∧ now = later := by
  show Outcome.ok a now = _ ↔ _
  simp

@[simp] theorem sample_eq_ok {w : W} :
    (sample : Sampled ε W W).run history now = .ok w later ↔
      history now = w ∧ now + 1 = later := by
  show Outcome.ok (history now) (now + 1) = _ ↔ _
  simp

@[simp] theorem fail_eq_ok {e : ε} {a : α} :
    (fail e : Sampled ε W α).run history now = .ok a later ↔ False := by
  show Outcome.error e now = _ ↔ _
  simp

@[simp] theorem exhausted_eq_ok {a : α} :
    (exhausted : Sampled ε W α).run history now = .ok a later ↔ False := by
  show Outcome.running = _ ↔ _
  simp

@[simp] theorem require_eq_ok {p : Prop} [Decidable p] {e : ε} {u : Unit} :
    (require p e : Sampled ε W Unit).run history now = .ok u later ↔ p ∧ now = later := by
  unfold require
  split <;> simp [*]

@[simp] theorem ofExcept_eq_ok {r : Except ε α} {a : α} :
    (ofExcept r : Sampled ε W α).run history now = .ok a later ↔ r = .ok a ∧ now = later := by
  unfold ofExcept
  cases r <;> simp

theorem attempt_eq_ok {x : Sampled ε W α} {r : Except ε α} :
    (attempt x : Sampled ε' W (Except ε α)).run history now = .ok r later ↔
      (∃ a, r = .ok a ∧ x.run history now = .ok a later) ∨
        ∃ e, r = .error e ∧ x.run history now = .error e later := by
  show (x.run history now).settled = _ ↔ _
  cases x.run history now with
  | ok a mid =>
      simp only [Outcome.settled, Outcome.ok.injEq, reduceCtorEq, and_false, exists_false, or_false]
      constructor
      · rintro ⟨rfl, rfl⟩
        exact ⟨a, rfl, rfl, rfl⟩
      · rintro ⟨b, rfl, rfl, rfl⟩
        exact ⟨rfl, rfl⟩
  | error e mid =>
      simp only [Outcome.settled, Outcome.ok.injEq, Outcome.error.injEq, reduceCtorEq, and_false,
        exists_false, false_or]
      constructor
      · rintro ⟨rfl, rfl⟩
        exact ⟨e, rfl, rfl, rfl⟩
      · rintro ⟨b, rfl, rfl, rfl⟩
        exact ⟨rfl, rfl⟩
  | running => simp [Outcome.settled]

/-- What follows an attempt is given its answer, or its failure. -/
theorem attempt_bind_eq_ok {x : Sampled ε W α} {f : Except ε α → Sampled ε' W β} {b : β} :
    (attempt x >>= f).run history now = .ok b later ↔
      (∃ a mid, x.run history now = .ok a mid ∧ (f (.ok a)).run history mid = .ok b later) ∨
        ∃ e mid, x.run history now = .error e mid ∧
          (f (.error e)).run history mid = .ok b later := by
  rw [bind_eq_ok]
  constructor
  · rintro ⟨r, mid, hattempt, hf⟩
    obtain ⟨a, rfl, hx⟩ | ⟨e, rfl, hx⟩ := attempt_eq_ok.mp hattempt
    · exact Or.inl ⟨a, mid, hx, hf⟩
    · exact Or.inr ⟨e, mid, hx, hf⟩
  · rintro (⟨a, mid, hx, hf⟩ | ⟨e, mid, hx, hf⟩)
    · exact ⟨.ok a, mid, attempt_eq_ok.mpr (Or.inl ⟨a, rfl, hx⟩), hf⟩
    · exact ⟨.error e, mid, attempt_eq_ok.mpr (Or.inr ⟨e, rfl, hx⟩), hf⟩

theorem relabel_eq_ok {f : ε → ε'} {x : Sampled ε W α} {a : α} :
    (relabel f x).run history now = .ok a later ↔ x.run history now = .ok a later := by
  rw [relabel, attempt_bind_eq_ok]
  constructor
  · rintro (⟨b, mid, hx, h⟩ | ⟨e, mid, -, h⟩)
    · obtain ⟨rfl, rfl⟩ := pure_eq_ok.mp h
      exact hx
    · exact (fail_eq_ok.mp h).elim
  · intro hx
    exact Or.inl ⟨a, later, hx, pure_eq_ok.mpr ⟨rfl, rfl⟩⟩

/-- A computation ends no earlier than it starts. -/
theorem le_of_ok {x : Sampled ε W α} {a : α} (h : x.run history now = .ok a later) :
    now ≤ later := by
  have hforward := x.forward history now
  rwa [h] at hforward

end Inversion

/-! ## What a computation gives whenever it is started -/

/-- From the instant on, every start ends with the result. -/
def Gives (x : Sampled ε W α) (history : ℕ → W) (start : ℕ) (r : Except ε α) : Prop :=
  ∀ now, start ≤ now → ∃ later, x.run history now = r.casesOn (.error · later) (.ok · later)

section Gives

variable {history : ℕ → W} {start : ℕ}

theorem gives_pure (a : α) : Gives (pure a : Sampled ε W α) history start (.ok a) :=
  fun now _ => ⟨now, rfl⟩

theorem gives_fail (e : ε) : Gives (fail e : Sampled ε W α) history start (.error e) :=
  fun now _ => ⟨now, rfl⟩

theorem gives_require {p : Prop} [Decidable p] (e : ε) (hp : p) :
    Gives (require p e : Sampled ε W Unit) history start (.ok ()) := by
  rw [require, if_pos hp]
  exact gives_pure ()

theorem gives_ofExcept (r : Except ε α) :
    Gives (ofExcept r : Sampled ε W α) history start r := by
  cases r with
  | ok a => exact gives_pure a
  | error e => exact gives_fail e

/-- **A computation and what follows it.** -/
theorem Gives.bind {x : Sampled ε W α} {f : α → Sampled ε W β} {a : α} {r : Except ε β}
    (hx : Gives x history start (.ok a)) (hf : Gives (f a) history start r) :
    Gives (x >>= f) history start r := by
  intro now hnow
  obtain ⟨mid, hmid⟩ := hx now hnow
  obtain ⟨later, hlater⟩ := hf mid (Nat.le_trans hnow (le_of_ok hmid))
  refine ⟨later, ?_⟩
  show (x.run history now).continue _ = _
  rw [hmid]
  exact hlater

theorem Gives.attempt {x : Sampled ε W α} {r : Except ε α} (hx : Gives x history start r) :
    Gives (Sampled.attempt x : Sampled ε' W (Except ε α)) history start (.ok r) := by
  intro now hnow
  obtain ⟨later, hlater⟩ := hx now hnow
  refine ⟨later, ?_⟩
  show (x.run history now).settled = _
  rw [hlater]
  cases r <;> rfl

theorem Gives.relabel {x : Sampled ε W α} {r : Except ε α} (f : ε → ε')
    (hx : Gives x history start r) :
    Gives (Sampled.relabel f x) history start (r.mapError f) := by
  apply hx.attempt.bind
  cases r with
  | ok a => exact gives_pure a
  | error e => exact gives_fail (f e)

/-- An operation that answers the same at every instant. -/
theorem gives_sample {f : W → Sampled ε W α} {r : Except ε α}
    (hf : ∀ now, start ≤ now → Gives (f (history now)) history start r) :
    Gives (sample >>= f) history start r := by
  intro now hnow
  exact hf now hnow (now + 1) (by omega)

end Gives

end Sampled
