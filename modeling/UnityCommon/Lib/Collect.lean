import Mathlib.Tactic.Common
import Mathlib.Data.Nat.Notation

/-!
# Collecting cells that change

A reader takes a row of cells one after another while others write to them. One
pass proves little: the cells need never have held these values together. Two
passes with the same values pin the row down to every instant between them, as
long as no cell leaves a value and comes back to it.
-/

namespace Collect

variable {β : Type}

/-- Each value stood in its cell at some instant of the interval. -/
def Collected (cell : ℕ → ℕ → Option β) (start stop : ℕ) (values : List β) : Prop :=
  ∀ i < values.length, ∃ t, start ≤ t ∧ t < stop ∧ cell t i = values[i]?

/-- The values stand in their cells together. -/
def Holds (cell : ℕ → ℕ → Option β) (t : ℕ) (values : List β) : Prop :=
  ∀ i < values.length, cell t i = values[i]?

/-- No cell leaves a value and comes back to it. -/
def NeverReturns (cell : ℕ → ℕ → Option β) (start stop : ℕ) : Prop :=
  ∀ i s t u, start ≤ s → s ≤ t → t ≤ u → u < stop → cell s i = cell u i → cell t i = cell s i

variable {cell : ℕ → ℕ → Option β} {start mid stop : ℕ} {values more : List β}

theorem collected_nil : Collected cell start stop ([] : List β) :=
  fun _ hi => absurd hi (Nat.not_lt_zero _)

theorem Collected.mono {start' stop' : ℕ} (h : Collected cell start stop values)
    (hstart : start' ≤ start) (hstop : stop ≤ stop') : Collected cell start' stop' values := by
  intro i hi
  obtain ⟨t, hlow, hhigh, hcell⟩ := h i hi
  exact ⟨t, by omega, by omega, hcell⟩

/-- **The next values of a pass**, taken together at an instant. -/
theorem Collected.append {t : ℕ} (h : Collected cell start mid values) (hstart : start ≤ t)
    (hmid : mid ≤ stop) (ht : t < stop)
    (hmore : ∀ j < more.length, cell t (values.length + j) = more[j]?) :
    Collected cell start stop (values ++ more) := by
  intro i hi
  by_cases hold : i < values.length
  · obtain ⟨s, hlow, hhigh, hcell⟩ := h i hold
    refine ⟨s, hlow, by omega, ?_⟩
    rw [hcell, List.getElem?_append_left hold]
  · rw [List.length_append] at hi
    refine ⟨t, hstart, ht, ?_⟩
    rw [List.getElem?_append_right (by omega), ← hmore _ (by omega)]
    congr 1
    omega

/-- **Two passes with the same values.** -/
theorem Collected.holds {start' stop' t : ℕ} (hfirst : Collected cell start stop values)
    (hsecond : Collected cell start' stop' values) (hreturn : NeverReturns cell start stop')
    (hstop : stop ≤ t + 1) (hstart : t ≤ start') : Holds cell t values := by
  intro i hi
  obtain ⟨s, hlow, hs, hcell⟩ := hfirst i hi
  obtain ⟨u, hu, hhigh, hcell'⟩ := hsecond i hi
  rw [hreturn i s t u hlow (by omega) (by omega) hhigh (by rw [hcell, hcell']), hcell]

/-- Places of a list that hold the values hold them as its front. -/
theorem take_of_getElem? {whole : List β} (h : ∀ i < values.length, whole[i]? = values[i]?) :
    whole.take values.length = values := by
  apply List.ext_getElem?
  intro i
  rw [List.getElem?_take]
  split
  · exact h i ‹_›
  · rw [List.getElem?_eq_none (by omega)]

end Collect
