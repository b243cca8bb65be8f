import Mathlib.Data.List.ReduceOption
import Mathlib.Order.Bounds.Basic
import Mathlib.Order.CompletePartialOrder
import Mathlib.Order.Interval.Set.Disjoint

/-!
# Arrays laid out one behind another

An array goes to the least multiple of its alignment that is not below what is laid
out so far, if it ends within a limit there; one that does not is passed over. In
any sequence the arrays that were placed lie one behind the other, from the first
total to the last.
-/

namespace AlignedLayout

/-- The least multiple of the alignment that is not below. -/
def alignUp (alignment n : ℕ) : ℕ := alignment * ((n + (alignment - 1)) / alignment)

structure Request where
  alignment : ℕ
  size : ℕ
deriving DecidableEq, Repr

structure Placement where
  offset : ℕ
  size : ℕ
deriving DecidableEq, Repr

def Placement.stop (placement : Placement) : ℕ := placement.offset + placement.size

def Placement.bytes (placement : Placement) : Set ℕ := Set.Ico placement.offset placement.stop

def place (limit total : ℕ) (request : Request) : Option Placement :=
  if alignUp request.alignment total + request.size ≤ limit then
    some ⟨alignUp request.alignment total, request.size⟩
  else none

/-- What becomes of each request, and the total behind all of them. -/
def placeAll (limit : ℕ) : List Request → ℕ → List (Option Placement) × ℕ
  | [], total => ([], total)
  | request :: requests, total =>
      let placement := place limit total request
      let rest := placeAll limit requests (placement.elim total Placement.stop)
      (placement :: rest.1, rest.2)

variable {alignment n limit total start final : ℕ} {placement : Placement}
  {placements : List Placement} {request : Request} {requests : List Request}

/-! ## Alignment -/

theorem alignUp_isLeast (h : alignment ≠ 0) (n : ℕ) :
    IsLeast {m | alignment ∣ m ∧ n ≤ m} (alignUp alignment n) := by
  have hbelow : ∀ k, (n + (alignment - 1)) / alignment ≤ k ↔ n ≤ alignment * k := by
    intro k
    rw [Nat.div_le_iff_le_mul_add_pred (Nat.pos_of_ne_zero h), Nat.add_le_add_iff_right]
  refine ⟨⟨Nat.dvd_mul_right .., (hbelow _).mp le_rfl⟩, ?_⟩
  rintro m ⟨⟨k, rfl⟩, hle⟩
  exact Nat.mul_le_mul_left alignment ((hbelow k).mpr hle)

theorem dvd_alignUp (alignment n : ℕ) : alignment ∣ alignUp alignment n := Nat.dvd_mul_right ..

theorem le_alignUp (h : alignment ≠ 0) (n : ℕ) : n ≤ alignUp alignment n :=
  (alignUp_isLeast h n).1.2

/-- The padding reaches it. -/
theorem add_padding (h : alignment ≠ 0) (n : ℕ) :
    n + (if n % alignment ≠ 0 then alignment - n % alignment else 0) = alignUp alignment n := by
  refine IsLeast.unique ?_ (alignUp_isLeast h n)
  have hlt := Nat.mod_lt n (Nat.pos_of_ne_zero h)
  have hsplit := Nat.div_add_mod n alignment
  by_cases hzero : n % alignment = 0
  · rw [if_neg (not_not.mpr hzero)]
    exact ⟨⟨Nat.dvd_of_mod_eq_zero hzero, le_rfl⟩, fun m hm => hm.2⟩
  · rw [if_pos hzero]
    have hnext : n + (alignment - n % alignment) = alignment * (n / alignment + 1) := by
      rw [Nat.mul_add, Nat.mul_one]
      omega
    rw [hnext]
    refine ⟨⟨Nat.dvd_mul_right .., by omega⟩, ?_⟩
    rintro m ⟨⟨k, rfl⟩, hle⟩
    refine Nat.mul_le_mul_left alignment (Nat.lt_of_mul_lt_mul_left (a := alignment) ?_)
    omega

/-! ## Placements -/

theorem place_eq_some_iff : place limit total request = some placement ↔
    alignUp request.alignment total + request.size ≤ limit ∧
      placement = ⟨alignUp request.alignment total, request.size⟩ := by
  unfold place
  split <;> simp_all [eq_comm]

theorem place_eq_none_iff : place limit total request = none ↔
    limit < alignUp request.alignment total + request.size := by
  unfold place
  split <;> simp_all

/-- The arrays lie one behind the other from `start` to `final`. -/
structure Laid (start final : ℕ) (placements : List Placement) : Prop where
  le : start ≤ final
  within : ∀ placement ∈ placements, start ≤ placement.offset ∧ placement.stop ≤ final
  apart : placements.Pairwise fun first second => first.stop ≤ second.offset

theorem Laid.nil (total : ℕ) : Laid total total [] := ⟨le_rfl, by simp, List.Pairwise.nil⟩

theorem Laid.cons (h : Laid placement.stop final placements) (hstart : start ≤ placement.offset) :
    Laid start final (placement :: placements) := by
  have hstop : placement.offset ≤ placement.stop := Nat.le_add_right _ _
  refine ⟨by have := h.le; omega, ?_, ?_⟩
  · intro other hother
    rcases List.mem_cons.mp hother with rfl | hother
    · exact ⟨hstart, h.le⟩
    · have hwithin := h.within other hother
      exact ⟨by omega, hwithin.2⟩
  · exact List.pairwise_cons.mpr ⟨fun other hother => (h.within other hother).1, h.apart⟩

theorem Laid.concat (h : Laid start total placements) (htotal : total ≤ placement.offset) :
    Laid start placement.stop (placements ++ [placement]) := by
  have hstop : placement.offset ≤ placement.stop := Nat.le_add_right _ _
  have hle := h.le
  refine ⟨by omega, ?_, ?_⟩
  · intro other hother
    rcases List.mem_append.mp hother with hother | hother
    · have hwithin := h.within other hother
      exact ⟨hwithin.1, by omega⟩
    · rw [List.mem_singleton.mp hother]
      exact ⟨by omega, le_rfl⟩
  · refine List.pairwise_append.mpr ⟨h.apart, List.pairwise_singleton _ _, ?_⟩
    intro first hfirst second hsecond
    rw [List.mem_singleton.mp hsecond]
    exact (h.within first hfirst).2.trans htotal

/-- **Arrays one behind the other share no byte.** -/
theorem Laid.disjoint (h : Laid start final placements) :
    placements.Pairwise fun first second => Disjoint first.bytes second.bytes := by
  refine h.apart.imp fun {first second} hle => Set.disjoint_left.mpr ?_
  rintro byte ⟨-, hlt⟩ ⟨hge, -⟩
  omega

/-- **In any sequence of requests** what was placed lies one behind the other. -/
theorem placeAll_laid (haligned : ∀ request ∈ requests, request.alignment ≠ 0) :
    Laid total (placeAll limit requests total).2
      (placeAll limit requests total).1.reduceOption := by
  induction requests generalizing total with
  | nil => exact Laid.nil total
  | cons request requests ih =>
      have hrest : ∀ total, Laid total (placeAll limit requests total).2
          (placeAll limit requests total).1.reduceOption := fun _ =>
        ih fun other hother => haligned other (List.mem_cons_of_mem request hother)
      rw [placeAll]
      dsimp only
      cases hplace : place limit total request with
      | none =>
          rw [List.reduceOption_cons_of_none, Option.elim_none]
          exact hrest total
      | some placement =>
          rw [List.reduceOption_cons_of_some, Option.elim_some]
          obtain ⟨-, rfl⟩ := place_eq_some_iff.mp hplace
          exact (hrest _).cons (le_alignUp (haligned request List.mem_cons_self) total)

end AlignedLayout
