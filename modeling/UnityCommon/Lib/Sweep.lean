import Mathlib.Data.List.Sort
import Mathlib.Order.CompletePartialOrder
import Mathlib.Order.Interval.Set.Disjoint

/-!
# Pairwise facts of a sorted list, tested on neighbours

What a sort and one sweep decide: that keys are distinct, by comparing
neighbours; that half-open ranges are disjoint, by remembering where the last
one stopped.
-/

namespace Sweep

variable {ι α : Type} [LinearOrder α]

/-! ## Distinct keys -/

section Distinct

variable (key : ι → α)

/-- No row has the key of the row after it. -/
def NeighboursDiffer (rows : List ι) : Prop := rows.IsChain fun a b => key a ≠ key b

theorem neighboursDiffer_iff {rows : List ι}
    (hsorted : rows.Pairwise fun a b => key a ≤ key b) :
    NeighboursDiffer key rows ↔ rows.Pairwise fun a b => key a ≠ key b := by
  constructor
  · intro hchain
    have hstrict : rows.IsChain fun a b => key a < key b := by
      refine List.isChain_iff_getElem.mpr fun i hi => ?_
      exact lt_of_le_of_ne (List.pairwise_iff_getElem.mp hsorted i (i + 1) (by omega) hi (by omega))
        (List.isChain_iff_getElem.mp hchain i hi)
    have : IsTrans ι fun a b => key a < key b := ⟨fun _ _ _ => lt_trans⟩
    exact hstrict.pairwise.imp ne_of_lt
  · intro hpairwise
    exact hpairwise.isChain

end Distinct

/-! ## Disjoint ranges -/

section Ranges

variable (start stop : ι → α)

def range (a : ι) : Set α := Set.Ico (start a) (stop a)

/-- The sweep: each range starts where the one before it stopped, or later. -/
def follows : List ι → Option α → Bool
  | [], _ => true
  | a :: ranges, previous =>
      previous.all (· ≤ start a) && follows ranges (some (stop a))

variable {start stop}

theorem disjoint_iff_stop_le {a b : ι} (hb : start b < stop b)
    (hab : start a ≤ start b) :
    Disjoint (range start stop a) (range start stop b) ↔ stop a ≤ start b := by
  rw [range, range, Set.Ico_disjoint_Ico, max_eq_right hab, min_le_iff]
  constructor
  · rintro (hle | hle)
    · exact hle
    · exact absurd hle (not_le_of_gt hb)
  · exact Or.inl

/-- The sweep remembers one stop, and that one bounds every earlier stop. -/
theorem follows_iff {ranges : List ι} (hproper : ∀ a ∈ ranges, start a < stop a)
    {previous : Option α} :
    follows start stop ranges previous = true ↔
      (∀ bound ∈ previous, ∀ a ∈ ranges, bound ≤ start a) ∧
        ranges.Pairwise fun a b => stop a ≤ start b := by
  induction ranges generalizing previous with
  | nil => simp [follows]
  | cons a ranges ih =>
      have ha : start a < stop a := hproper a List.mem_cons_self
      rw [follows, Bool.and_eq_true, ih fun b hb => hproper b (List.mem_cons_of_mem a hb),
        List.pairwise_cons, Option.all_eq_true]
      simp only [decide_eq_true_eq, Option.mem_some_iff, forall_eq', List.forall_mem_cons]
      constructor
      · rintro ⟨hfirst, hrest, hpairwise⟩
        refine ⟨fun bound hbound => ⟨hfirst bound hbound, fun b hb => ?_⟩, hrest, hpairwise⟩
        exact (hfirst bound hbound).trans (ha.le.trans (hrest b hb))
      · rintro ⟨hbounds, hrest, hpairwise⟩
        exact ⟨fun bound hbound => (hbounds bound hbound).1, hrest, hpairwise⟩

/-- **One sweep decides disjointness**, of nonempty ranges sorted by their
starts. -/
theorem follows_iff_disjoint {ranges : List ι} (hproper : ∀ a ∈ ranges, start a < stop a)
    (hsorted : ranges.Pairwise fun a b => start a ≤ start b) :
    follows start stop ranges none = true ↔
      ranges.Pairwise fun a b => Disjoint (range start stop a) (range start stop b) := by
  rw [follows_iff hproper]
  simp only [Option.not_mem_none, false_implies, implies_true, true_and]
  constructor
  · intro hpairwise
    refine (hpairwise.and hsorted).imp_of_mem fun _ hb h => ?_
    exact (disjoint_iff_stop_le (hproper _ hb) h.2).mpr h.1
  · intro hpairwise
    refine (hpairwise.and hsorted).imp_of_mem fun _ hb h => ?_
    exact (disjoint_iff_stop_le (hproper _ hb) h.2).mp h.1

end Ranges

end Sweep
