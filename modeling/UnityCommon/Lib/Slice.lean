import Mathlib.Data.Nat.Notation

/-!
# Slices of a list

The elements of a list from one position to another. Neighbouring slices join,
which is how a chain of positions accounts for a whole list.
-/

namespace Slice

variable {α : Type}

def slice (l : List α) (start stop : ℕ) : List α := (l.drop start).take (stop - start)

variable {l : List α} {a b c : ℕ}

theorem length_slice (h : b ≤ l.length) : (slice l a b).length = b - a := by
  rw [slice, List.length_take, List.length_drop]
  omega

theorem slice_take (count : ℕ) : slice l a (a + count) = (l.drop a).take count := by
  rw [slice, Nat.add_sub_cancel_left]

@[simp] theorem slice_self (a : ℕ) : slice l a a = [] := by
  rw [slice, Nat.sub_self, List.take_zero]

/-- **Neighbouring slices join.** -/
theorem slice_append (hab : a ≤ b) (hbc : b ≤ c) : slice l a b ++ slice l b c = slice l a c := by
  have hdrop : l.drop b = (l.drop a).drop (b - a) := by
    rw [List.drop_drop, Nat.add_sub_cancel' hab]
  have hsum : c - a = (b - a) + (c - b) := by omega
  rw [slice, slice, slice, hdrop, hsum, List.take_add]

end Slice
