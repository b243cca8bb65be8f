import Mathlib.Data.List.Basic
import Mathlib.Algebra.Order.Ring.Nat
import Mathlib.Tactic.Ring

/-!
# Whole blocks and what is left over

A byte string cut into blocks of one size, and the bytes behind the last whole
block. Whoever keeps only these bytes can go on with the next bytes as if it had
kept them all.
-/

namespace Blocks

variable {β : Type} (size : ℕ)

/-- The whole blocks, in order. -/
def blocks (l : List β) : List (List β) :=
  (List.range (l.length / size)).map fun i => (l.drop (size * i)).take size

/-- What is left over. -/
def rest (l : List β) : List β := l.drop (size * (l.length / size))

variable {size}

theorem length_rest (l : List β) : (rest size l).length = l.length % size := by
  rw [rest, List.length_drop]
  have := Nat.div_add_mod l.length size
  omega

theorem blocks_of_lt {l : List β} (h : l.length < size) : blocks size l = [] := by
  simp [blocks, Nat.div_eq_of_lt h]

theorem rest_of_lt {l : List β} (h : l.length < size) : rest size l = l := by
  simp [rest, Nat.div_eq_of_lt h]

/-- The first block, where there is one. -/
theorem blocks_append_of_length {block l : List β} (hsize : 0 < size) (h : block.length = size) :
    blocks size (block ++ l) = block :: blocks size l := by
  have hcount : (block ++ l).length / size = l.length / size + 1 := by
    rw [List.length_append, h, Nat.add_comm, Nat.add_div_right _ hsize]
  rw [blocks, hcount, List.range_succ_eq_map, List.map_cons, List.map_map]
  congr 1
  · rw [Nat.mul_zero, List.drop_zero, ← h, List.take_left]
  · refine List.map_congr_left fun i _ => ?_
    have hskip : size * (i + 1) = block.length + size * i := by rw [h]; ring
    rw [Function.comp_apply, Nat.succ_eq_add_one, hskip, ← List.drop_drop, List.drop_left]

theorem rest_append_of_length {block l : List β} (hsize : 0 < size) (h : block.length = size) :
    rest size (block ++ l) = rest size l := by
  have hskip : size * ((block ++ l).length / size) = block.length + size * (l.length / size) := by
    rw [List.length_append, h, Nat.add_comm, Nat.add_div_right _ hsize]
    ring
  rw [rest, hskip, ← List.drop_drop, List.drop_left, rest]

/-- **Only what is left over has to be kept.** -/
theorem blocks_append (hsize : 0 < size) (l m : List β) :
    blocks size (l ++ m) = blocks size l ++ blocks size (rest size l ++ m) ∧
      rest size (l ++ m) = rest size (rest size l ++ m) := by
  induction hlength : l.length using Nat.strong_induction_on generalizing l with
  | _ length ih =>
      by_cases hshort : l.length < size
      · rw [blocks_of_lt hshort, rest_of_lt hshort, List.nil_append]
        exact ⟨rfl, rfl⟩
      · have htake : (l.take size).length = size := by
          rw [List.length_take]
          omega
        have hless : (l.drop size).length < length := by
          rw [List.length_drop]
          omega
        obtain ⟨hblocks, hrest⟩ := ih _ hless (l.drop size) rfl
        rw [← List.take_append_drop size l, List.append_assoc,
          blocks_append_of_length hsize htake, blocks_append_of_length hsize htake,
          rest_append_of_length hsize htake, rest_append_of_length hsize htake, hblocks, hrest]
        exact ⟨rfl, rfl⟩

/-- A string of whole blocks leaves nothing over. -/
theorem blocks_self {block : List β} (hsize : 0 < size) (h : block.length = size) :
    blocks size block = [block] ∧ rest size block = [] := by
  have hblocks := blocks_append_of_length (l := []) hsize h
  have hrest := rest_append_of_length (l := []) hsize h
  rw [List.append_nil] at hblocks hrest
  rw [hblocks, hrest, blocks_of_lt (by simpa using hsize), rest_of_lt (by simpa using hsize)]
  exact ⟨rfl, rfl⟩

end Blocks
