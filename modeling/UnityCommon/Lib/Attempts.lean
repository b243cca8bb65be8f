import Mathlib.Data.List.Induction
import UnityCommon.Lib.Triple

/-!
# Calls one after another

A list of calls on one state, each made whatever the ones before reported. The
history says what each reported. An invariant of the state and of the calls that
returned holds behind the list where every call keeps it, the failing ones with no
call more.
-/

namespace Call

variable {ε σ α : Type}

structure Attempts (ε σ α : Type) where
  history : List (α × Option ε)
  state : σ
  made : ℕ
deriving DecidableEq, Repr

/-- The calls that returned. -/
def Attempts.accepted (run : Attempts ε σ α) : List α :=
  run.history.filterMap fun (a, status) => if status.isNone then some a else none

def attempt (f : α → Call ε σ Unit) (answers : ℕ → Bool) (run : Attempts ε σ α) (a : α) :
    Attempts ε σ α :=
  match f a answers run.state run.made with
  | .ok _ s n => ⟨run.history ++ [(a, none)], s, n⟩
  | .error e s n => ⟨run.history ++ [(a, some e)], s, n⟩

def attemptAll (f : α → Call ε σ Unit) (answers : ℕ → Bool) (calls : List α) (s : σ) (n : ℕ) :
    Attempts ε σ α :=
  calls.foldl (attempt f answers) ⟨[], s, n⟩

variable {f : α → Call ε σ Unit} {answers : ℕ → Bool} {s : σ} {n : ℕ}

theorem attemptAll_concat (calls : List α) (a : α) :
    attemptAll f answers (calls ++ [a]) s n =
      attempt f answers (attemptAll f answers calls s n) a :=
  List.foldl_append ..

theorem accepted_returned (history : List (α × Option ε)) (a : α) :
    Attempts.accepted ⟨history ++ [(a, none)], s, n⟩ = Attempts.accepted ⟨history, s, n⟩ ++ [a] := by
  simp [Attempts.accepted]

theorem accepted_failed (history : List (α × Option ε)) (a : α) (e : ε) :
    Attempts.accepted ⟨history ++ [(a, some e)], s, n⟩ = Attempts.accepted ⟨history, s, n⟩ := by
  simp [Attempts.accepted]

/-- Every call is in the history. -/
theorem history_attemptAll (calls : List α) :
    (attemptAll f answers calls s n).history.map Prod.fst = calls := by
  induction calls using List.reverseRecOn with
  | nil => rfl
  | append_singleton calls a ih =>
      rw [attemptAll_concat]
      unfold attempt
      split <;> simp [ih]

/-- **An invariant that every call keeps** holds behind all of them. -/
theorem attemptAll_invariant {I : List α → σ → Prop} (hstart : I [] s)
    (hstep : ∀ accepted a,
      Triple answers (I accepted) (f a) (fun _ => I (accepted ++ [a])) fun _ => I accepted)
    (calls : List α) (n : ℕ) :
    I (attemptAll f answers calls s n).accepted (attemptAll f answers calls s n).state := by
  induction calls using List.reverseRecOn with
  | nil => exact hstart
  | append_singleton calls a ih =>
      rw [attemptAll_concat]
      have hends := hstep _ a _ (attemptAll f answers calls s n).made ih
      unfold attempt
      cases hresult : f a answers (attemptAll f answers calls s n).state
          (attemptAll f answers calls s n).made with
      | ok _ s' n' =>
          rw [hresult] at hends
          rw [accepted_returned]
          exact hends
      | error e s' n' =>
          rw [hresult] at hends
          rw [accepted_failed]
          exact hends

end Call
