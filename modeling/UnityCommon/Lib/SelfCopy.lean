import Mathlib.Data.List.Basic

/-!
# Self-referential copies

The copy of a sliding-window decoder: each new element is the element `offset`
positions before it, and elements just written are copied again when the copy
overlaps itself. `copy` is the element-by-element loop; `Copied` says what the
extended list is, without saying in which order it was written.
-/

namespace SelfCopy

variable {α : Type*}

/-- Append `n` elements, each read `offset` positions back; `default` stands for
reads before the start. -/
def copy [Inhabited α] (offset : ℕ) : ℕ → List α → List α
  | 0, out => out
  | n + 1, out => copy offset n (out ++ [out[out.length - offset]?.getD default])

/-- `out'` continues `out` by `n` elements with period `offset`. -/
structure Copied (offset n : ℕ) (out out' : List α) : Prop where
  length_eq : out'.length = out.length + n
  start : out <+: out'
  period : ∀ p, out.length ≤ p → p < out'.length → out'[p]? = out'[p - offset]?

theorem Copied.zero (offset : ℕ) (out : List α) : Copied offset 0 out out :=
  ⟨rfl, List.prefix_rfl, fun _ h h' => absurd h' (Nat.not_lt.mpr h)⟩

/-- The first copied element, then the rest. -/
theorem Copied.succ {offset n : ℕ} {out out' : List α} {x : α} (hpos : 0 < offset)
    (hle : offset ≤ out.length) (hx : out[out.length - offset]? = some x)
    (h : Copied offset n (out ++ [x]) out') : Copied offset (n + 1) out out' := by
  obtain ⟨hlen, hstart, hperiod⟩ := h
  have hout : out <+: out' := (List.prefix_append out [x]).trans hstart
  have hback : out'[out.length - offset]? = some x := by
    obtain ⟨rest, rfl⟩ := hout
    rw [List.getElem?_append_left (by omega)]
    exact hx
  refine ⟨?_, hout, ?_⟩
  · rw [hlen, List.length_append, List.length_singleton]
    omega
  · intro p hp hlt
    by_cases he : p = out.length
    · subst he
      rw [hback]
      obtain ⟨rest, rfl⟩ := hstart
      rw [List.append_assoc, List.getElem?_append_right (Nat.le_refl _), Nat.sub_self]
      rfl
    · exact hperiod p (by rw [List.length_append, List.length_singleton]; omega) hlt

/-- **The loop computes the copy.** -/
theorem copied_copy [Inhabited α] {offset : ℕ} (hpos : 0 < offset) :
    ∀ (n : ℕ) (out : List α), offset ≤ out.length →
      Copied offset n out (copy offset n out) := by
  intro n
  induction n with
  | zero =>
      intro out _
      exact Copied.zero offset out
  | succ n ih =>
      intro out hle
      have hlt : out.length - offset < out.length := by omega
      refine Copied.succ hpos hle (List.getElem?_eq_getElem hlt) ?_
      have hread : out[out.length - offset]?.getD default = out[out.length - offset] := by
        rw [List.getElem?_eq_getElem hlt, Option.getD_some]
      rw [copy, hread]
      exact ih _ (by rw [List.length_append]; omega)

/-- **The copy is unique**: by position, each element is fixed by an earlier one. -/
theorem Copied.unique {offset n : ℕ} {out a b : List α} (hpos : 0 < offset)
    (hle : offset ≤ out.length) (ha : Copied offset n out a) (hb : Copied offset n out b) :
    a = b := by
  refine List.ext_getElem? fun p => ?_
  induction p using Nat.strongRecOn with
  | _ p ih =>
      by_cases hp : p < out.length
      · obtain ⟨ra, rfl⟩ := ha.start
        obtain ⟨rb, rfl⟩ := hb.start
        rw [List.getElem?_append_left hp, List.getElem?_append_left hp]
      · by_cases hlt : p < out.length + n
        · rw [ha.period p (by omega) (by rw [ha.length_eq]; exact hlt),
            hb.period p (by omega) (by rw [hb.length_eq]; exact hlt)]
          exact ih _ (by omega)
        · rw [List.getElem?_eq_none (by rw [ha.length_eq]; omega),
            List.getElem?_eq_none (by rw [hb.length_eq]; omega)]

theorem copied_iff [Inhabited α] {offset n : ℕ} {out out' : List α} (hpos : 0 < offset)
    (hle : offset ≤ out.length) : Copied offset n out out' ↔ out' = copy offset n out := by
  constructor
  · intro h
    exact h.unique hpos hle (copied_copy hpos n out hle)
  · rintro rfl
    exact copied_copy hpos n out hle

end SelfCopy
