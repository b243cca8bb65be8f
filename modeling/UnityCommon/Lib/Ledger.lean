import Mathlib.Data.Nat.Notation
import Mathlib.Logic.Function.Basic
import Mathlib.Order.Basic
import Mathlib.Tactic.Common

/-!
# Ledgers

What a program requests from an allocator and releases again, each by an owner.
A bound on the bytes held is a property of every beginning of the trace.
-/

namespace Ledger

inductive Event (κ : Type) where
  | request (owner : κ) (bytes : ℕ)
  | release (owner : κ) (bytes : ℕ)
deriving DecidableEq, Repr

variable {κ : Type} [DecidableEq κ]

def Event.apply (held : κ → ℕ) : Event κ → κ → ℕ
  | request owner bytes => Function.update held owner (held owner + bytes)
  | release owner bytes => Function.update held owner (held owner - bytes)

def heldFrom (start : κ → ℕ) (events : List (Event κ)) : κ → ℕ := events.foldl Event.apply start

/-- The bytes that each owner holds after the events. -/
def held (events : List (Event κ)) : κ → ℕ := heldFrom (fun _ => 0) events

/-- The property holds wherever the trace may be cut. -/
def Throughout (p : (κ → ℕ) → Prop) (events : List (Event κ)) : Prop :=
  ∀ t, t <+: events → p (held t)

/-- Cuts from a given holding on. -/
def ThroughoutFrom (p : (κ → ℕ) → Prop) : (κ → ℕ) → List (Event κ) → Prop
  | start, [] => p start
  | start, e :: events => p start ∧ ThroughoutFrom p (e.apply start) events

@[simp] theorem apply_request_self (start : κ → ℕ) (owner : κ) (bytes : ℕ) :
    Event.apply start (.request owner bytes) owner = start owner + bytes :=
  Function.update_self ..

@[simp] theorem apply_request_of_ne (start : κ → ℕ) {owner other : κ} (bytes : ℕ)
    (h : other ≠ owner) : Event.apply start (.request owner bytes) other = start other :=
  Function.update_of_ne h ..

@[simp] theorem apply_release_self (start : κ → ℕ) (owner : κ) (bytes : ℕ) :
    Event.apply start (.release owner bytes) owner = start owner - bytes :=
  Function.update_self ..

@[simp] theorem apply_release_of_ne (start : κ → ℕ) {owner other : κ} (bytes : ℕ)
    (h : other ≠ owner) : Event.apply start (.release owner bytes) other = start other :=
  Function.update_of_ne h ..

theorem heldFrom_cons (start : κ → ℕ) (e : Event κ) (events : List (Event κ)) :
    heldFrom start (e :: events) = heldFrom (e.apply start) events := rfl

theorem held_append (events more : List (Event κ)) :
    held (events ++ more) = heldFrom (held events) more := List.foldl_append

theorem ThroughoutFrom.start {p : (κ → ℕ) → Prop} {start : κ → ℕ} {events : List (Event κ)}
    (h : ThroughoutFrom p start events) : p start := by
  cases events with
  | nil => exact h
  | cons e events => exact h.1

theorem throughoutFrom_iff {p : (κ → ℕ) → Prop} {events : List (Event κ)} (start : κ → ℕ) :
    ThroughoutFrom p start events ↔ ∀ t, t <+: events → p (heldFrom start t) := by
  induction events generalizing start with
  | nil =>
      constructor
      · intro h t ht
        rw [List.prefix_nil.mp ht]
        exact h
      · intro h
        exact h [] (List.prefix_refl _)
  | cons e events ih =>
      constructor
      · intro h t ht
        cases t with
        | nil => exact h.1
        | cons a t =>
            obtain ⟨rfl, hrest⟩ := List.cons_prefix_cons.mp ht
            exact (ih _).mp h.2 t hrest
      · intro h
        refine ⟨h [] List.nil_prefix, (ih _).mpr fun t ht => ?_⟩
        exact h (e :: t) (List.cons_prefix_cons.mpr ⟨rfl, ht⟩)

theorem throughout_iff {p : (κ → ℕ) → Prop} {events : List (Event κ)} :
    Throughout p events ↔ ThroughoutFrom p (fun _ => 0) events :=
  (throughoutFrom_iff _).symm

theorem throughoutFrom_append {p : (κ → ℕ) → Prop} {start : κ → ℕ}
    {events more : List (Event κ)} :
    ThroughoutFrom p start (events ++ more) ↔
      ThroughoutFrom p start events ∧ ThroughoutFrom p (heldFrom start events) more := by
  induction events generalizing start with
  | nil =>
      constructor
      · intro h
        exact ⟨h.start, h⟩
      · exact fun h => h.2
  | cons e events ih =>
      rw [List.cons_append, ThroughoutFrom, ThroughoutFrom, ih, and_assoc, heldFrom_cons]

/-- **A trace goes on** from what it holds. -/
theorem throughout_append {p : (κ → ℕ) → Prop} {events more : List (Event κ)} :
    Throughout p (events ++ more) ↔
      Throughout p events ∧ ThroughoutFrom p (held events) more := by
  rw [throughout_iff, throughout_iff, throughoutFrom_append]
  rfl

theorem Throughout.mono {p q : (κ → ℕ) → Prop} {events : List (Event κ)}
    (h : Throughout p events) (hpq : ∀ at_, p at_ → q at_) : Throughout q events :=
  fun t ht => hpq _ (h t ht)

theorem throughout_nil {p : (κ → ℕ) → Prop} (h : p fun _ => 0) : Throughout p [] := by
  intro t ht
  rw [List.prefix_nil.mp ht]
  exact h

/-! ## Releasing -/

def Event.Releases : Event κ → Prop
  | request _ _ => False
  | release _ _ => True

omit [DecidableEq κ] in
@[simp] theorem releases_release (owner : κ) (bytes : ℕ) :
    (Event.release owner bytes).Releases := trivial

theorem apply_le_of_releases {e : Event κ} (h : e.Releases) (start : κ → ℕ) :
    e.apply start ≤ start := by
  cases e with
  | request owner bytes => exact h.elim
  | release owner bytes =>
      intro other
      by_cases hother : other = owner
      · rw [hother, apply_release_self]
        exact Nat.sub_le _ _
      · exact Nat.le_of_eq (apply_release_of_ne _ _ hother)

/-- A bound outlasts what is released. -/
theorem throughoutFrom_of_releases {p : (κ → ℕ) → Prop} {start : κ → ℕ} {events : List (Event κ)}
    (hdown : ∀ more less, less ≤ more → p more → p less) (hreleases : ∀ e ∈ events, e.Releases)
    (hstart : p start) : ThroughoutFrom p start events := by
  induction events generalizing start with
  | nil => exact hstart
  | cons e events ih =>
      obtain ⟨he, hrest⟩ := List.forall_mem_cons.mp hreleases
      exact ⟨hstart, ih hrest (hdown _ _ (apply_le_of_releases he start) hstart)⟩

end Ledger
