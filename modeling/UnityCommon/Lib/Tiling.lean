import Mathlib.Algebra.Order.Ring.Nat
import Mathlib.Data.List.Basic

/-!
# Tilings

A run of extents, offset and size, that covers a range of offsets from end to
end: each extent starts where the one before it stops.
-/

def Tiles : ℕ → List (ℕ × ℕ) → ℕ → Prop
  | lo, [], hi => lo = hi
  | lo, extent :: extents, hi => extent.1 = lo ∧ Tiles (lo + extent.2) extents hi

namespace Tiles

theorem append {a b c : ℕ} : ∀ {l m : List (ℕ × ℕ)}, Tiles a l b → Tiles b m c →
    Tiles a (l ++ m) c
  | [], _, hl, hm => by
      obtain rfl : a = b := hl
      exact hm
  | _ :: _, _, ⟨hoffset, hl⟩, hm => ⟨hoffset, append hl hm⟩

theorem single (a n : ℕ) : Tiles a [(a, n)] (a + n) := ⟨rfl, rfl⟩

theorem cons {a n b : ℕ} {l : List (ℕ × ℕ)} (h : Tiles (a + n) l b) :
    Tiles a ((a, n) :: l) b := ⟨rfl, h⟩

theorem le {a b : ℕ} : ∀ {l : List (ℕ × ℕ)}, Tiles a l b → a ≤ b
  | [], h => Nat.le_of_eq h
  | _ :: _, ⟨_, h⟩ => Nat.le_trans (Nat.le_add_right _ _) (le h)

/-- No extent goes past the end. -/
theorem le_of_mem {a b : ℕ} : ∀ {l : List (ℕ × ℕ)}, Tiles a l b → ∀ t ∈ l, t.1 + t.2 ≤ b
  | [], _, t, ht => by cases ht
  | extent :: extents, ⟨hoffset, h⟩, t, ht => by
      rcases List.mem_cons.mp ht with rfl | ht
      · rw [hoffset]
        exact le h
      · exact le_of_mem h t ht

theorem split {a c : ℕ} : ∀ {l m : List (ℕ × ℕ)}, Tiles a (l ++ m) c →
    ∃ b, Tiles a l b ∧ Tiles b m c
  | [], _, h => ⟨a, rfl, h⟩
  | _ :: _, _, ⟨hoffset, h⟩ =>
      let ⟨b, hl, hm⟩ := split h
      ⟨b, ⟨hoffset, hl⟩, hm⟩

/-- An extent may be replaced by its parts. -/
theorem expand {a b : ℕ} {l m parts : List (ℕ × ℕ)} {extent : ℕ × ℕ}
    (h : Tiles a (l ++ extent :: m) b)
    (hparts : Tiles extent.1 parts (extent.1 + extent.2)) : Tiles a (l ++ (parts ++ m)) b := by
  obtain ⟨c, hl, hoffset, hm⟩ := split h
  rw [hoffset] at hparts
  exact hl.append (hparts.append hm)

theorem sum {a b : ℕ} : ∀ {l : List (ℕ × ℕ)}, Tiles a l b → a + (l.map Prod.snd).sum = b
  | [], h => h
  | extent :: extents, ⟨_, h⟩ => by
      have := sum h
      rw [List.map_cons, List.sum_cons]
      omega

/-- **No offset is in two extents.** -/
theorem pairwise {a b : ℕ} : ∀ {l : List (ℕ × ℕ)}, Tiles a l b →
    l.Pairwise fun s t => s.1 + s.2 ≤ t.1
  | [], _ => List.Pairwise.nil
  | extent :: extents, ⟨hoffset, h⟩ => by
      refine List.Pairwise.cons (fun t ht => ?_) (pairwise h)
      rw [hoffset]
      exact lower h t ht
where
  lower {a b : ℕ} : ∀ {l : List (ℕ × ℕ)}, Tiles a l b → ∀ t ∈ l, a ≤ t.1
    | [], _, t, ht => by cases ht
    | extent :: extents, ⟨hoffset, h⟩, t, ht => by
        rcases List.mem_cons.mp ht with rfl | ht
        · exact Nat.le_of_eq hoffset.symm
        · exact Nat.le_trans (Nat.le_add_right _ _) (lower h t ht)

/-- **Every offset of the range is in an extent, and no other is.** -/
theorem covers {a b : ℕ} (i : ℕ) : ∀ {l : List (ℕ × ℕ)}, Tiles a l b →
    ((∃ s ∈ l, s.1 ≤ i ∧ i < s.1 + s.2) ↔ a ≤ i ∧ i < b)
  | [], h => by
      obtain rfl : a = b := h
      simp
  | extent :: extents, ⟨hoffset, h⟩ => by
      have hle := le h
      have ih := covers i h
      rw [List.exists_mem_cons_iff, ih, hoffset]
      omega

/-- Runs of consecutive parts, each tiled on its own. -/
theorem flatMap {α : Type} {parts : α → List (ℕ × ℕ)} {extent : α → ℕ × ℕ} {a b : ℕ} :
    ∀ {l : List α}, (∀ x ∈ l, Tiles (extent x).1 (parts x) ((extent x).1 + (extent x).2)) →
      Tiles a (l.map extent) b → Tiles a (l.flatMap parts) b
  | [], _, h => h
  | x :: l, hparts, ⟨hoffset, h⟩ => by
      have hx := hparts x List.mem_cons_self
      rw [hoffset] at hx
      rw [List.flatMap_cons]
      exact hx.append (flatMap (fun y hy => hparts y (List.mem_cons_of_mem _ hy)) h)

end Tiles
