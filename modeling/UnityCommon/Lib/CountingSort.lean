import Mathlib.Algebra.Order.Ring.Nat
import Mathlib.Data.List.Basic
import Mathlib.Data.List.Perm.Basic
import Mathlib.Tactic.Common

/-!
# Counting sort

Elements are counted by a bounded key, the counts become offsets, and every
element is put at the next offset of its key. The result is the buckets one
after the other, each in the order of the source: a stable sort. A pass for
each digit of a number, the lowest first, sorts by the number.
-/

namespace CountingSort

variable {α : Type} (key : α → ℕ)

/-- Counting on top of what is already counted. -/
def count (offsets : List ℕ) (xs : List α) : List ℕ :=
  xs.foldl (fun offsets x => offsets.modify (key x) (· + 1)) offsets

/-- Where each bucket starts. -/
def starts : ℕ → List ℕ → List ℕ
  | _, [] => []
  | start, size :: sizes => start :: starts (start + size) sizes

/-- Every element at the next offset of its key. -/
def scatter : List α → List ℕ → List α → List α
  | [], _, destination => destination
  | x :: xs, offsets, destination =>
      scatter xs (offsets.modify (key x) (· + 1))
        (destination.set (offsets.getD (key x) 0) x)

/-- The elements of a key, in the order of the source. -/
def bucket (xs : List α) (b : ℕ) : List α := xs.filter fun x => key x = b

/-- The buckets below a bound, one after the other. -/
def buckets (xs : List α) (bound : ℕ) : List α := (List.range bound).flatMap (bucket key xs)

variable {key} {xs ys : List α} {b c bound : ℕ}

theorem mem_bucket {x : α} : x ∈ bucket key xs b ↔ x ∈ xs ∧ key x = b := by
  simp [bucket]

theorem bucket_append (xs ys : List α) : bucket key (xs ++ ys) b = bucket key xs b ++ bucket key ys b :=
  List.filter_append ..

theorem bucket_singleton (x : α) : bucket key [x] b = if key x = b then [x] else [] := by
  by_cases h : key x = b <;> simp [bucket, h]

theorem buckets_succ : buckets key xs (b + 1) = buckets key xs b ++ bucket key xs b := by
  simp [buckets, List.range_succ]

/-- The start of a bucket. -/
theorem length_buckets_succ :
    (buckets key xs (b + 1)).length =
      (buckets key xs b).length + (bucket key xs b).length := by
  rw [buckets_succ, List.length_append]

theorem length_buckets_mono (h : b ≤ c) :
    (buckets key xs b).length ≤ (buckets key xs c).length := by
  induction h with
  | refl => exact Nat.le_refl _
  | step _ ih =>
      rw [Nat.succ_eq_add_one, length_buckets_succ]
      omega

/-- The buckets below a bound are the elements with a key below it. -/
theorem buckets_perm : (buckets key xs bound).Perm (xs.filter fun x => key x < bound) := by
  induction bound with
  | zero => simp [buckets]
  | succ bound ih =>
      have hsplit := List.filter_append_perm (fun x => decide (key x < bound))
        (xs.filter fun x => key x < bound + 1)
      rw [List.filter_filter, List.filter_filter] at hsplit
      have hbelow : ∀ x, (decide (key x < bound) && decide (key x < bound + 1)) =
          decide (key x < bound) := by
        intro x
        rw [← Bool.decide_and]
        exact decide_eq_decide.mpr (by omega)
      have hat : ∀ x, (!decide (key x < bound) && decide (key x < bound + 1)) =
          decide (key x = bound) := by
        intro x
        rw [← decide_not, ← Bool.decide_and]
        exact decide_eq_decide.mpr (by omega)
      simp only [hbelow, hat] at hsplit
      rw [buckets_succ]
      exact (ih.append_right _).trans hsplit

theorem buckets_perm_of_lt (h : ∀ x ∈ xs, key x < bound) : (buckets key xs bound).Perm xs := by
  refine buckets_perm.trans ?_
  rw [List.filter_eq_self.mpr fun x hx => decide_eq_true (h x hx)]

/-- **The buckets are sorted**, and keep an order of the source within a key. -/
theorem buckets_pairwise {R : α → α → Prop} (h : xs.Pairwise R) :
    (buckets key xs bound).Pairwise fun x y => key x < key y ∨ key x = key y ∧ R x y := by
  induction bound with
  | zero => simp [buckets]
  | succ bound ih =>
      rw [buckets_succ, List.pairwise_append]
      refine ⟨ih, ?_, ?_⟩
      · refine (h.filter fun x => decide (key x = bound)).imp_of_mem fun hx hy hR => ?_
        rw [(mem_bucket.mp hx).2, (mem_bucket.mp hy).2]
        exact Or.inr ⟨rfl, hR⟩
      · intro x hx y hy
        have hlt := (List.mem_filter.mp (buckets_perm.mem_iff.mp hx)).2
        rw [(mem_bucket.mp hy).2]
        exact Or.inl (of_decide_eq_true hlt)

/-! ## Offsets -/

@[simp] theorem length_count (offsets : List ℕ) : (count key offsets xs).length = offsets.length := by
  induction xs generalizing offsets with
  | nil => rfl
  | cons x xs ih => rw [count, List.foldl_cons, ← count, ih, List.length_modify]

theorem getD_count (offsets : List ℕ) (h : b < offsets.length) :
    (count key offsets xs).getD b 0 = offsets.getD b 0 + (bucket key xs b).length := by
  induction xs generalizing offsets with
  | nil => rfl
  | cons x xs ih =>
      rw [count, List.foldl_cons, ← count, ih _ (by rwa [List.length_modify])]
      have hcons : bucket key (x :: xs) b = bucket key [x] b ++ bucket key xs b :=
        bucket_append [x] xs
      rw [hcons, List.length_append, bucket_singleton]
      simp only [List.getD_eq_getElem?_getD, List.getElem?_modify]
      by_cases hx : key x = b
      · simp [hx, List.getElem?_eq_getElem h]
        omega
      · simp [hx]

@[simp] theorem length_starts (start : ℕ) : ∀ sizes : List ℕ, (starts start sizes).length = sizes.length
  | [] => rfl
  | size :: sizes => by rw [starts, List.length_cons, length_starts, List.length_cons]

/-- When the sizes are those of the buckets, the starts are theirs too. -/
theorem getD_starts (key : α → ℕ) (xs : List α) (base : ℕ) {sizes : List ℕ}
    (hsizes : ∀ i < sizes.length, sizes.getD i 0 = (bucket key xs (base + i)).length)
    (h : b < sizes.length) :
    (starts (buckets key xs base).length sizes).getD b 0 = (buckets key xs (base + b)).length := by
  induction sizes generalizing base b with
  | nil => simp at h
  | cons size sizes ih =>
      have hsize : size = (bucket key xs base).length := by
        simpa using hsizes 0 (by simp)
      cases b with
      | zero => rfl
      | succ b =>
          rw [starts, List.getD_cons_succ, hsize, ← length_buckets_succ]
          have hrest : ∀ i < sizes.length,
              sizes.getD i 0 = (bucket key xs (base + 1 + i)).length := by
            intro i hi
            have := hsizes (i + 1) (by simpa using hi)
            rw [List.getD_cons_succ] at this
            rw [this, Nat.add_right_comm, Nat.add_assoc]
          rw [ih (base + 1) hrest (by simpa using h), Nat.add_right_comm, Nat.add_assoc]

/-! ## Scattering -/

/-- The elements of a source already scattered stand in their buckets, and the
offsets are behind them. -/
structure Scattered (key : α → ℕ) (bound : ℕ) (xs done : List α) (offsets : List ℕ)
    (destination : List α) : Prop where
  size : destination.length = xs.length
  bounded : offsets.length = bound
  offset : ∀ b < bound, offsets.getD b 0 =
    (buckets key xs b).length + (bucket key done b).length
  stands : ∀ b < bound, ∀ j < (bucket key done b).length,
    destination[(buckets key xs b).length + j]? = (bucket key done b)[j]?

/-- Buckets do not overlap. -/
theorem offset_ne {i j : ℕ} (hi : i < (bucket key xs b).length)
    (hj : j < (bucket key xs c).length) (hne : b ≠ c) :
    (buckets key xs b).length + i ≠ (buckets key xs c).length + j := by
  rcases Nat.lt_or_gt_of_ne hne with h | h
  · have hle : (buckets key xs (b + 1)).length ≤ (buckets key xs c).length :=
      length_buckets_mono h
    rw [length_buckets_succ] at hle
    omega
  · have hle : (buckets key xs (c + 1)).length ≤ (buckets key xs b).length :=
      length_buckets_mono h
    rw [length_buckets_succ] at hle
    omega

variable {done rest destination : List α} {offsets : List ℕ} {x : α}

theorem Scattered.step (h : Scattered key bound (done ++ x :: rest) done offsets destination)
    (hx : key x < bound) :
    Scattered key bound (done ++ x :: rest) (done ++ [x]) (offsets.modify (key x) (· + 1))
      (destination.set (offsets.getD (key x) 0) x) := by
  have hgrown : ∀ b, bucket key (done ++ [x]) b =
      bucket key done b ++ if key x = b then [x] else [] := by
    intro b
    rw [bucket_append, bucket_singleton]
  -- no bucket outgrows what it holds in the end
  have hwhole : ∀ b, (bucket key (done ++ [x]) b).length ≤
      (bucket key (done ++ x :: rest) b).length := by
    intro b
    rw [show done ++ x :: rest = (done ++ [x]) ++ rest by simp]
    rw [bucket_append (done ++ [x]), List.length_append]
    omega
  -- the place of `x` is the next one of its bucket
  have hplace := h.offset (key x) hx
  have hroom : (bucket key done (key x)).length <
      (bucket key (done ++ x :: rest) (key x)).length := by
    have := hwhole (key x)
    rw [hgrown, if_pos rfl, List.length_append, List.length_singleton] at this
    omega
  have hinside : offsets.getD (key x) 0 < destination.length := by
    have hle : (buckets key (done ++ x :: rest) (key x + 1)).length ≤
        (done ++ x :: rest).length := by
      rw [buckets_perm.length_eq]
      exact List.length_filter_le ..
    rw [length_buckets_succ] at hle
    rw [hplace, h.size]
    omega
  refine ⟨by rw [List.length_set, h.size], by rw [List.length_modify, h.bounded], ?_, ?_⟩
  · intro b hb
    have hb' : b < offsets.length := by rwa [h.bounded]
    have hold := h.offset b hb
    rw [hgrown, List.length_append]
    simp only [List.getD_eq_getElem?_getD, List.getElem?_modify] at hold ⊢
    by_cases hkey : key x = b
    · simp only [hkey, List.getElem?_eq_getElem hb', Option.getD_some] at hold ⊢
      simp [hold]
      omega
    · simp only [hkey, if_false, List.length_nil, Nat.add_zero] at hold ⊢
      simpa using hold
  · intro b hb j hj
    by_cases hplaced : key x = b ∧ j = (bucket key done b).length
    · obtain ⟨rfl, rfl⟩ := hplaced
      rw [hplace, List.getElem?_set_self (by rw [← hplace]; exact hinside), hgrown, if_pos rfl]
      simp
    · have hj' : j < (bucket key done b).length := by
        rw [hgrown, List.length_append] at hj
        by_cases hkey : key x = b
        · rw [if_pos hkey, List.length_singleton] at hj
          have hne : j ≠ (bucket key done b).length := fun hj => hplaced ⟨hkey, hj⟩
          omega
        · rw [if_neg hkey] at hj
          exact hj
      -- an element placed before is not overwritten: the buckets are apart
      have hne : offsets.getD (key x) 0 ≠ (buckets key (done ++ x :: rest) b).length + j := by
        rw [hplace]
        by_cases hkey : key x = b
        · rw [hkey]
          omega
        · refine offset_ne hroom ?_ hkey
          have hle := hwhole b
          rw [hgrown, if_neg hkey, List.append_nil] at hle
          omega
      rw [List.getElem?_set_ne hne, h.stands b hb j hj', hgrown,
        List.getElem?_append_left hj']

theorem scatter_scattered {done : List α} : ∀ {rest : List α} {offsets : List ℕ}
    {destination : List α}, (∀ x ∈ rest, key x < bound) →
    Scattered key bound (done ++ rest) done offsets destination →
    ∃ offsets', Scattered key bound (done ++ rest) (done ++ rest) offsets'
      (scatter key rest offsets destination) := by
  intro rest
  induction rest generalizing done with
  | nil =>
      intro offsets destination _ h
      rw [List.append_nil] at h ⊢
      exact ⟨offsets, h⟩
  | cons x rest ih =>
      intro offsets destination hlt h
      obtain ⟨hx, hrest⟩ := List.forall_mem_cons.mp hlt
      have hassoc : done ++ x :: rest = (done ++ [x]) ++ rest := by simp
      have hstep := h.step hx
      rw [hassoc] at hstep
      rw [hassoc, scatter]
      exact ih hrest hstep

/-- What stands in its buckets is the buckets. -/
theorem eq_buckets {bound : ℕ}
    (h : ∀ b < bound, ∀ j < (bucket key xs b).length,
      destination[(buckets key xs b).length + j]? = (bucket key xs b)[j]?) :
    destination.take (buckets key xs bound).length = buckets key xs bound := by
  induction bound with
  | zero => simp [buckets]
  | succ bound ih =>
      have hlast : (destination.drop (buckets key xs bound).length).take
          (bucket key xs bound).length = bucket key xs bound := by
        apply List.ext_getElem?
        intro j
        by_cases hj : j < (bucket key xs bound).length
        · rw [List.getElem?_take_of_lt hj, List.getElem?_drop, h bound (Nat.lt_succ_self _) j hj]
        · rw [List.getElem?_take_eq_none (Nat.le_of_not_lt hj),
            List.getElem?_eq_none (Nat.le_of_not_lt hj)]
      rw [length_buckets_succ, List.take_add, ih fun b hb => h b (Nat.lt_succ_of_lt hb), hlast,
        buckets_succ]

/-- **Scattering by the starts of the counts sorts.** -/
theorem scatter_eq (hlt : ∀ x ∈ xs, key x < bound) (hsize : destination.length = xs.length) :
    scatter key xs (starts 0 (count key (List.replicate bound 0) xs)) destination =
      buckets key xs bound := by
  have hcounts : ∀ b < bound,
      (count key (List.replicate bound 0) xs).getD b 0 = (bucket key xs b).length := by
    intro b hb
    rw [getD_count _ (by simpa using hb)]
    simp [hb]
  have hstarts : Scattered key bound ([] ++ xs) []
      (starts 0 (count key (List.replicate bound 0) xs)) destination := by
    refine ⟨hsize, by simp, fun b hb => ?_, fun b hb j hj => absurd hj (by simp [bucket])⟩
    have h := getD_starts key xs 0
      (fun i hi => by rw [Nat.zero_add]; exact hcounts i (by simpa using hi))
      (show b < (count key (List.replicate bound 0) xs).length by simpa using hb)
    rw [Nat.zero_add] at h
    exact h
  obtain ⟨offsets, h⟩ := scatter_scattered hlt hstarts
  rw [List.nil_append] at h
  have hall := eq_buckets h.stands
  rwa [(buckets_perm_of_lt hlt).length_eq, ← h.size, List.take_length] at hall

/-! ## A pass for each digit -/

variable {f : α → ℕ} {base place : ℕ}

/-- The digit of a number at a place. -/
def digit (base place n : ℕ) : ℕ := n / base ^ place % base

theorem digit_lt (hbase : 0 < base) (n : ℕ) : digit base place n < base := Nat.mod_lt _ hbase

/-- What is sorted by its lower digits, a pass over the next digit sorts by that
one too. -/
theorem buckets_digit (hbase : 0 < base)
    (h : xs.Pairwise fun x y => f x % base ^ place ≤ f y % base ^ place) :
    (buckets (fun x => digit base place (f x)) xs base).Pairwise
      fun x y => f x % base ^ (place + 1) ≤ f y % base ^ (place + 1) := by
  refine (buckets_pairwise h).imp fun {x y} hxy => ?_
  rw [Nat.mod_pow_succ, Nat.mod_pow_succ]
  rcases hxy with hlt | ⟨heq, hle⟩
  · have hdigit : f x / base ^ place % base + 1 ≤ f y / base ^ place % base := hlt
    have hlow : f x % base ^ place ≤ base ^ place := Nat.le_of_lt (Nat.mod_lt _ (Nat.pow_pos hbase))
    calc f x % base ^ place + base ^ place * (f x / base ^ place % base)
        ≤ base ^ place + base ^ place * (f x / base ^ place % base) := Nat.add_le_add_right hlow _
      _ = base ^ place * (f x / base ^ place % base + 1) := by rw [Nat.mul_succ, Nat.add_comm]
      _ ≤ base ^ place * (f y / base ^ place % base) := Nat.mul_le_mul_left _ hdigit
      _ ≤ f y % base ^ place + base ^ place * (f y / base ^ place % base) := Nat.le_add_left ..
  · have hdigit : f x / base ^ place % base = f y / base ^ place % base := heq
    rw [hdigit]
    exact Nat.add_le_add_right hle _

end CountingSort
