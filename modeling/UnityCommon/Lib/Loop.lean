import Mathlib.Order.Defs.LinearOrder
import Mathlib.Tactic.Common

/-!
# Loops with fuel

A loop is a step function that either finishes with a result or continues from
a new state. `run` bounds the number of steps; `Reaches` is the set of states
at the loop head, with no bound. A variant that drops on every continued step
gives the fuel a run needs, and a set of states that continue into each other
gives a run that no fuel ends.
-/

namespace Loop

variable {σ ρ : Type*}

inductive Outcome (σ ρ : Type*) where
  | done (result : ρ)
  | again (state : σ)
deriving DecidableEq, Repr

def run (step : σ → Outcome σ ρ) : ℕ → σ → Option ρ
  | 0, _ => none
  | fuel + 1, s =>
      match step s with
      | .done result => some result
      | .again s' => run step fuel s'

/-- The outcome with its result renamed. -/
def Outcome.mapResult {ρ' : Type*} (f : ρ → ρ') : Outcome σ ρ → Outcome σ ρ'
  | .done result => .done (f result)
  | .again state => .again state

/-- The states at the loop head, from `start` on. -/
inductive Reaches (step : σ → Outcome σ ρ) (start : σ) : σ → Prop
  | refl : Reaches step start start
  | again {s s'} : Reaches step start s → step s = .again s' → Reaches step start s'

theorem Reaches.head {step : σ → Outcome σ ρ} {start s t : σ}
    (hs : step start = .again s) (h : Reaches step s t) : Reaches step start t := by
  induction h with
  | refl => exact Reaches.refl.again hs
  | again _ hstep ih => exact ih.again hstep

/-- **The invariant rule.** -/
theorem Reaches.invariant {step : σ → Outcome σ ρ} {start t : σ} (Inv : σ → Prop)
    (hstart : Inv start) (hstep : ∀ s s', Inv s → step s = .again s' → Inv s')
    (h : Reaches step start t) : Inv t := by
  induction h with
  | refl => exact hstart
  | again _ hs ih => exact hstep _ _ ih hs

/-- A run that ends takes its result from a reached state. -/
theorem run_some {step : σ → Outcome σ ρ} : ∀ {fuel : ℕ} {start : σ} {result : ρ},
    run step fuel start = some result →
      ∃ s, Reaches step start s ∧ step s = .done result := by
  intro fuel
  induction fuel with
  | zero =>
      intro start result h
      cases h
  | succ fuel ih =>
      intro start result h
      unfold run at h
      cases hs : step start with
      | done r =>
          simp only [hs, Option.some.injEq] at h
          exact ⟨start, Reaches.refl, h ▸ hs⟩
      | again s =>
          simp only [hs] at h
          obtain ⟨t, ht, hdone⟩ := ih h
          exact ⟨t, ht.head hs, hdone⟩

/-- **The variant rule.** A measure that drops on every continued step from a
reached state bounds the fuel. -/
theorem run_of_variant {step : σ → Outcome σ ρ} (measure : σ → ℕ) {start : σ}
    (hdrop : ∀ s s', Reaches step start s → step s = .again s' → measure s' < measure s) :
    ∃ result, run step (measure start + 1) start = some result := by
  suffices go : ∀ fuel s, Reaches step start s → measure s < fuel →
      ∃ result, run step fuel s = some result from
    go _ start Reaches.refl (Nat.lt_succ_self _)
  intro fuel
  induction fuel with
  | zero =>
      intro s _ hlt
      exact absurd hlt (Nat.not_lt_zero _)
  | succ fuel ih =>
      intro s hs hlt
      unfold run
      cases h : step s with
      | done r => exact ⟨r, rfl⟩
      | again s' =>
          have hd := hdrop s s' hs h
          exact ih s' (hs.again h) (by omega)

/-- A state that continues into itself is never left. -/
theorem run_of_fixed {step : σ → Outcome σ ρ} {s : σ} (h : step s = .again s) :
    ∀ fuel, run step fuel s = none := by
  intro fuel
  induction fuel with
  | zero => rfl
  | succ fuel ih =>
      unfold run
      rw [h]
      exact ih

theorem run_mono {step : σ → Outcome σ ρ} {fuel fuel' : ℕ} (hle : fuel ≤ fuel') :
    ∀ {s : σ} {result : ρ}, run step fuel s = some result →
      run step fuel' s = some result := by
  induction fuel generalizing fuel' with
  | zero =>
      intro s result h
      cases h
  | succ fuel ih =>
      intro s result h
      obtain ⟨more, rfl⟩ : ∃ more, fuel' = more + 1 := ⟨fuel' - 1, by omega⟩
      unfold run at h ⊢
      cases hs : step s with
      | done r => simpa [hs] using h
      | again s' =>
          simp only [hs] at h ⊢
          exact ih (by omega) h

theorem run_again {step : σ → Outcome σ ρ} {s s' : σ} (h : step s = .again s') (fuel : ℕ) :
    run step (fuel + 1) s = run step fuel s' := by
  rw [run, h]

theorem run_done {step : σ → Outcome σ ρ} {s : σ} {result : ρ} (h : step s = .done result)
    (fuel : ℕ) : run step (fuel + 1) s = some result := by
  rw [run, h]

/-- A run from a reached state is the end of a run from the start. -/
theorem run_of_reaches {step : σ → Outcome σ ρ} {start s : σ} {fuel : ℕ} {result : ρ}
    (h : Reaches step start s) (hrun : run step fuel s = some result) :
    ∃ more, run step more start = some result := by
  induction h generalizing fuel with
  | refl => exact ⟨fuel, hrun⟩
  | again _ hstep ih =>
      refine @ih (fuel + 1) ?_
      rwa [run_again hstep]

/-- Two runs that end, end alike. -/
theorem run_unique {step : σ → Outcome σ ρ} {fuel fuel' : ℕ} {s : σ} {result result' : ρ}
    (h : run step fuel s = some result) (h' : run step fuel' s = some result') :
    result = result' := by
  have hm := run_mono (Nat.le_max_left fuel fuel') h
  rw [run_mono (Nat.le_max_right fuel fuel') h', Option.some.injEq] at hm
  exact hm.symm

/-- Renaming the results of every step renames the result of a run. -/
theorem run_map {ρ' : Type*} {step : σ → Outcome σ ρ} {step' : σ → Outcome σ ρ'} (f : ρ → ρ')
    (h : ∀ s, step' s = (step s).mapResult f) :
    ∀ fuel s, run step' fuel s = (run step fuel s).map f := by
  intro fuel
  induction fuel with
  | zero => exact fun _ => rfl
  | succ fuel ih =>
      intro s
      unfold run
      rw [h s]
      cases step s with
      | done result => rfl
      | again s' => exact ih s'

/-- A step that may stop where another goes on: what it returns otherwise, the
other returns too. -/
theorem run_of_stops {step step' : σ → Outcome σ ρ} {stop : ρ}
    (h : ∀ s, step s = step' s ∨ step s = .done stop) : ∀ {fuel : ℕ} {s : σ} {result : ρ},
      run step fuel s = some result → result ≠ stop → run step' fuel s = some result := by
  intro fuel
  induction fuel with
  | zero =>
      intro s result hrun
      cases hrun
  | succ fuel ih =>
      intro s result hrun hne
      rcases h s with hs | hs
      · unfold run at hrun ⊢
        rw [← hs]
        cases hstep : step s with
        | done r => simpa [hstep] using hrun
        | again s' =>
            simp only [hstep] at hrun ⊢
            exact ih hrun hne
      · rw [run_done hs, Option.some.injEq] at hrun
        exact absurd hrun.symm hne

end Loop
