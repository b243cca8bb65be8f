import Mathlib.Data.List.Basic
import Mathlib.Data.List.TakeWhile
import Mathlib.Order.Basic
import Mathlib.Tactic.Common

/-!
# Trees as preorder level sequences

A finite tree written as the list of its nodes' levels in preorder. The subtree
of a node ends where a level no deeper than its own comes; the direct children
are the nodes one level deeper within that span. Following the ends of the
children's subtrees from the first one visits exactly them.
-/

namespace Preorder

/-- The first index from `start` on whose level is not deeper than `level`. -/
def scan (ls : List ℕ) (level start : ℕ) : ℕ :=
  start + ((ls.drop start).takeWhile (level < ·)).length

def subtreeEnd (ls : List ℕ) (i : ℕ) : ℕ := scan ls (ls.getD i 0) (i + 1)

/-- The nodes at level `level + 1` in `[low, high)`, in order. -/
def childrenFrom (ls : List ℕ) (level low high : ℕ) : List ℕ :=
  (List.range' low (high - low)).filter fun j => ls[j]? == some (level + 1)

def children (ls : List ℕ) (i : ℕ) : List ℕ :=
  childrenFrom ls (ls.getD i 0) (i + 1) (subtreeEnd ls i)

/-- The level rule of a nonempty preorder: the root at 0, every later node below
it and at most one deeper than the node before. -/
structure Valid (ls : List ℕ) : Prop where
  root : ls[0]? = some 0
  step : ∀ i a b, ls[i]? = some a → ls[i + 1]? = some b → 0 < b ∧ b ≤ a + 1

/-! ## The scan -/

theorem le_scan (ls : List ℕ) (level start : ℕ) : start ≤ scan ls level start :=
  Nat.le_add_right _ _

/-- Inside the scan every level is deeper. -/
theorem lt_of_mem_scan {ls : List ℕ} {level start j : ℕ} (hlow : start ≤ j)
    (hhigh : j < scan ls level start) : ∃ l, ls[j]? = some l ∧ level < l := by
  unfold scan at hhigh
  have hlt : j - start < ((ls.drop start).takeWhile (level < ·)).length := by omega
  have hget := List.getElem?_eq_getElem hlt
  have hmem := List.mem_of_getElem? hget
  have hdeep := List.mem_takeWhile_imp hmem
  refine ⟨_, ?_, by simpa using hdeep⟩
  rw [← hget, List.getElem?_eq_getElem hlt]
  have hpre := List.takeWhile_prefix (fun x => decide (level < x)) (l := ls.drop start)
  rw [hpre.getElem hlt, ← List.getElem?_eq_getElem, List.getElem?_drop]
  congr 1
  omega

theorem lt_of_mem_subtree {ls : List ℕ} {i j : ℕ} (hlow : i + 1 ≤ j)
    (hhigh : j < subtreeEnd ls i) : ∃ l, ls[j]? = some l ∧ ls.getD i 0 < l :=
  lt_of_mem_scan hlow hhigh

theorem not_of_takeWhile_stop {p : ℕ → Bool} {l : ℕ} : ∀ {xs : List ℕ},
    xs[(xs.takeWhile p).length]? = some l → p l = false
  | [], h => by cases h
  | x :: xs, h => by
      by_cases hp : p x = true
      · rw [List.takeWhile_cons_of_pos hp, List.length_cons, List.getElem?_cons_succ] at h
        exact not_of_takeWhile_stop h
      · rw [List.takeWhile_cons_of_neg hp, List.length_nil, List.getElem?_cons_zero,
          Option.some.injEq] at h
        simpa [h] using hp

/-- Where the scan stops, the level is not deeper. -/
theorem le_of_scan {ls : List ℕ} {level start l : ℕ}
    (h : ls[scan ls level start]? = some l) : l ≤ level := by
  unfold scan at h
  rw [← List.getElem?_drop] at h
  simpa using not_of_takeWhile_stop h

/-- A scan that starts at a node no deeper stops at once. -/
theorem scan_of_le {ls : List ℕ} {level start l : ℕ} (h : ls[start]? = some l)
    (hle : l ≤ level) : scan ls level start = start := by
  by_contra hne
  have hlt : start < scan ls level start := by
    have := le_scan ls level start
    omega
  obtain ⟨l', hl', hdeep⟩ := lt_of_mem_scan (Nat.le_refl start) hlt
  rw [h, Option.some.injEq] at hl'
  omega

/-- The scan stops at the first index that is not deeper. -/
theorem scan_eq {ls : List ℕ} {level start stop : ℕ} (hle : start ≤ stop)
    (hin : ∀ j, start ≤ j → j < stop → ∃ l, ls[j]? = some l ∧ level < l)
    (hstop : ∀ l, ls[stop]? = some l → l ≤ level) : scan ls level start = stop := by
  rcases Nat.lt_trichotomy (scan ls level start) stop with hlt | he | hgt
  · obtain ⟨l, hl, hdeep⟩ := hin _ (le_scan ls level start) hlt
    have := le_of_scan hl
    omega
  · exact he
  · obtain ⟨l, hl, hdeep⟩ := lt_of_mem_scan hle hgt
    have := hstop l hl
    omega

/-- Scanning past a shallower limit first goes past a deeper one. -/
theorem scan_scan {ls : List ℕ} {level level' start : ℕ} (hle : level ≤ level') :
    scan ls level (scan ls level' start) = scan ls level start := by
  have hinner : scan ls level' start ≤ scan ls level start := by
    by_contra hgt
    obtain ⟨l, hl, hdeep⟩ := lt_of_mem_scan (le_scan ls level start) (Nat.lt_of_not_le hgt)
    have := le_of_scan hl
    omega
  refine scan_eq hinner ?_ fun l hl => le_of_scan hl
  intro j hlow hhigh
  exact lt_of_mem_scan (Nat.le_trans (le_scan ls level' start) hlow) hhigh

/-! ## Children -/

theorem mem_childrenFrom {ls : List ℕ} {level low high j : ℕ} :
    j ∈ childrenFrom ls level low high ↔
      low ≤ j ∧ j < high ∧ ls[j]? = some (level + 1) := by
  unfold childrenFrom
  rw [List.mem_filter, List.mem_range'_1, beq_iff_eq]
  constructor
  · rintro ⟨⟨hlow, hhigh⟩, hl⟩
    exact ⟨hlow, by omega, hl⟩
  · rintro ⟨hlow, hhigh, hl⟩
    exact ⟨⟨hlow, by omega⟩, hl⟩

theorem childrenFrom_eq_nil {ls : List ℕ} {level low high : ℕ}
    (h : ∀ j, low ≤ j → j < high → ls[j]? ≠ some (level + 1)) :
    childrenFrom ls level low high = [] := by
  rw [List.eq_nil_iff_forall_not_mem]
  intro j hj
  obtain ⟨hlow, hhigh, hl⟩ := mem_childrenFrom.mp hj
  exact h j hlow hhigh hl

theorem childrenFrom_append {ls : List ℕ} {level low mid high : ℕ} (h : low ≤ mid)
    (h' : mid ≤ high) :
    childrenFrom ls level low high =
      childrenFrom ls level low mid ++ childrenFrom ls level mid high := by
  unfold childrenFrom
  rw [← List.filter_append, show high - low = (mid - low) + (high - mid) by omega,
    ← List.range'_append_1, show low + (mid - low) = mid by omega]

/-- **A child, then the children after its subtree.** -/
theorem childrenFrom_cons {ls : List ℕ} {level low high : ℕ}
    (hchild : ls[low]? = some (level + 1)) (hhigh : subtreeEnd ls low ≤ high) :
    childrenFrom ls level low high =
      low :: childrenFrom ls level (subtreeEnd ls low) high := by
  have hend : low + 1 ≤ subtreeEnd ls low := le_scan _ _ _
  have hlevel : ls.getD low 0 = level + 1 := by
    rw [List.getD_eq_getElem?_getD, hchild, Option.getD_some]
  have hfirst : childrenFrom ls level low (low + 1) = [low] := by
    simp [childrenFrom, hchild]
  have hinner : childrenFrom ls level (low + 1) (subtreeEnd ls low) = [] := by
    refine childrenFrom_eq_nil fun j hj hj' hl => ?_
    obtain ⟨l, hl', hdeep⟩ := lt_of_mem_scan hj hj'
    rw [hlevel] at hdeep
    rw [hl, Option.some.injEq] at hl'
    omega
  rw [childrenFrom_append (Nat.le_succ low) (by omega : low + 1 ≤ high), hfirst,
    childrenFrom_append hend hhigh, hinner]
  rfl

/-- The span a child loop covers: it is at its end, or at a child whose subtree
stays inside. -/
theorem subtreeEnd_le_scan {ls : List ℕ} {level j : ℕ} (hj : ls[j]? = some (level + 1)) :
    subtreeEnd ls j ≤ scan ls level j ∧
      scan ls level (subtreeEnd ls j) = scan ls level j := by
  have hlevel : ls.getD j 0 = level + 1 := by
    rw [List.getD_eq_getElem?_getD, hj, Option.getD_some]
  have hstep : scan ls level j = scan ls level (j + 1) := by
    refine scan_eq (Nat.le_trans (Nat.le_succ j) (le_scan _ _ _)) ?_ fun l hl => le_of_scan hl
    intro i hlow hhigh
    by_cases he : i = j
    · exact ⟨level + 1, he ▸ hj, Nat.lt_succ_self level⟩
    · exact lt_of_mem_scan (by omega) hhigh
  have hend : scan ls level (subtreeEnd ls j) = scan ls level j := by
    rw [subtreeEnd, hlevel, scan_scan (Nat.le_succ level), hstep]
  exact ⟨hend ▸ le_scan _ _ _, hend⟩

/-- **The node where a subtree ends** is a sibling, or closes the parent too. -/
theorem level_at_end {ls : List ℕ} {level j : ℕ} (hj : ls[j]? = some (level + 1))
    (hlt : subtreeEnd ls j < scan ls level j) : ls[subtreeEnd ls j]? = some (level + 1) := by
  have hlevel : ls.getD j 0 = level + 1 := by
    rw [List.getD_eq_getElem?_getD, hj, Option.getD_some]
  have hlow : j ≤ subtreeEnd ls j := Nat.le_trans (Nat.le_succ j) (le_scan _ _ _)
  obtain ⟨l, hl, hdeep⟩ := lt_of_mem_scan hlow hlt
  have hle := le_of_scan hl
  rw [hlevel] at hle
  rw [hl, show l = level + 1 by omega]

/-- The first node below a node with children is a child. -/
theorem Valid.first_child {ls : List ℕ} (h : Valid ls) {i a b : ℕ} (ha : ls[i]? = some a)
    (hb : ls[i + 1]? = some b) (hlt : a < b) : b = a + 1 := by
  have := (h.step i a b ha hb).2
  omega

/-- The root's subtree is everything. -/
theorem Valid.subtreeEnd_root {ls : List ℕ} (h : Valid ls) : subtreeEnd ls 0 = ls.length := by
  have hlen : 0 < ls.length := (List.getElem?_eq_some_iff.mp h.root).1
  have hlevel : ls.getD 0 0 = 0 := by
    rw [List.getD_eq_getElem?_getD, h.root, Option.getD_some]
  rw [subtreeEnd, hlevel]
  refine scan_eq hlen ?_ fun l hl => ?_
  · intro j hlow hhigh
    refine ⟨_, List.getElem?_eq_getElem hhigh, ?_⟩
    obtain ⟨k, rfl⟩ : ∃ k, j = k + 1 := ⟨j - 1, by omega⟩
    exact (h.step k _ _ (List.getElem?_eq_getElem (by omega))
      (List.getElem?_eq_getElem hhigh)).1
  · rw [List.getElem?_eq_none (Nat.le_refl _)] at hl
    cases hl

/-- **Every node but the root is a child** of an earlier one. -/
theorem Valid.exists_parent {ls : List ℕ} (h : Valid ls) {j : ℕ} (hpos : 0 < j)
    (hlt : j < ls.length) : ∃ p, p < j ∧ j ∈ children ls p := by
  obtain ⟨l, hl⟩ : ∃ l, ls[j]? = some l := ⟨_, List.getElem?_eq_getElem hlt⟩
  have hl0 : 0 < l := by
    obtain ⟨k, rfl⟩ : ∃ k, j = k + 1 := ⟨j - 1, by omega⟩
    exact (h.step k _ _ (List.getElem?_eq_getElem (by omega)) hl).1
  -- walk back from `j` to the first node that is less deep
  suffices go : ∀ k, k ≤ j → 0 < k → (∀ i, k ≤ i → i < j → ∃ a, ls[i]? = some a ∧ l ≤ a) →
      ∃ p, p < k ∧ ls[p]? = some (l - 1) ∧
        ∀ i, p < i → i < j → ∃ a, ls[i]? = some a ∧ l ≤ a by
    obtain ⟨p, hp, hpl, hbetween⟩ := go j (Nat.le_refl j) hpos fun i hi hi' => by omega
    have hgd : ls.getD p 0 = l - 1 := by
      rw [List.getD_eq_getElem?_getD, hpl, Option.getD_some]
    refine ⟨p, hp, mem_childrenFrom.mpr ⟨hp, ?_, ?_⟩⟩
    · have hle : ∀ i, p + 1 ≤ i → i ≤ j → ∃ a, ls[i]? = some a ∧ ls.getD p 0 < a := by
        intro i hi hij
        by_cases he : i = j
        · exact ⟨l, he ▸ hl, by omega⟩
        · obtain ⟨a, ha, hla⟩ := hbetween i (by omega) (by omega)
          exact ⟨a, ha, by omega⟩
      by_contra hout
      have hge : subtreeEnd ls p ≤ j := Nat.le_of_not_lt hout
      obtain ⟨a, ha, hdeep⟩ := hle (subtreeEnd ls p) (le_scan _ _ _) hge
      have := le_of_scan ha
      omega
    · rw [hl, hgd, show l - 1 + 1 = l by omega]
  intro k
  induction k with
  | zero =>
      intro _ hk
      exact absurd hk (Nat.lt_irrefl 0)
  | succ k ih =>
      intro hk _ hdeep
      obtain ⟨a, ha⟩ : ∃ a, ls[k]? = some a := ⟨_, List.getElem?_eq_getElem (by omega)⟩
      by_cases hless : a < l
      · refine ⟨k, Nat.lt_succ_self k, ?_, fun i hi hij => hdeep i hi hij⟩
        -- the node after `k` is at least `l` deep, so `k` is just one level up
        have hnext : ∃ b, ls[k + 1]? = some b ∧ l ≤ b := by
          by_cases he : k + 1 = j
          · exact ⟨l, he ▸ hl, Nat.le_refl l⟩
          · exact hdeep (k + 1) (Nat.le_refl _) (by omega)
        obtain ⟨b, hb, hlb⟩ := hnext
        have := (h.step k a b ha hb).2
        rw [ha, show a = l - 1 by omega]
      · have hk0 : 0 < k := by
          by_contra hz
          obtain rfl : k = 0 := by omega
          rw [h.root, Option.some.injEq] at ha
          omega
        obtain ⟨p, hp, hpl, hbetween⟩ := ih (by omega) hk0 fun i hi hij => by
          by_cases he : i = k
          · exact ⟨a, he ▸ ha, by omega⟩
          · exact hdeep i (by omega) hij
        exact ⟨p, by omega, hpl, hbetween⟩

/-! ## Parents -/

/-- The nearest node before `i` that is one level up. -/
structure IsParent (ls : List ℕ) (i p : ℕ) : Prop where
  before : p < i
  level : ls.getD p 0 + 1 = ls.getD i 0
  nearest : ∀ q, p < q → q < i → ls.getD q 0 + 1 ≠ ls.getD i 0

theorem IsParent.unique {ls : List ℕ} {i p q : ℕ} (hp : IsParent ls i p) (hq : IsParent ls i q) :
    p = q := by
  rcases Nat.lt_trichotomy p q with hlt | he | hgt
  · exact absurd hq.level (hp.nearest q hlt hq.before)
  · exact he
  · exact absurd hp.level (hq.nearest p hgt hp.before)

theorem getD_of_getElem? {ls : List ℕ} {i l : ℕ} (h : ls[i]? = some l) : ls.getD i 0 = l := by
  rw [List.getD_eq_getElem?_getD, h, Option.getD_some]

theorem getElem?_of_lt {ls : List ℕ} {i : ℕ} (h : i < ls.length) :
    ls[i]? = some (ls.getD i 0) := by
  rw [List.getD_eq_getElem?_getD, List.getElem?_eq_getElem h, Option.getD_some]

theorem mem_children {ls : List ℕ} {i j : ℕ} :
    j ∈ children ls i ↔ i < j ∧ j < subtreeEnd ls i ∧ ls[j]? = some (ls.getD i 0 + 1) :=
  mem_childrenFrom

/-- A child has its parent where it looks for it. -/
theorem isParent_of_mem {ls : List ℕ} {i j : ℕ} (h : j ∈ children ls i) : IsParent ls j i := by
  obtain ⟨hlow, hhigh, hl⟩ := mem_children.mp h
  refine ⟨hlow, (getD_of_getElem? hl).symm, fun q hlow' hq => ?_⟩
  obtain ⟨l, hlq, hdeep⟩ := lt_of_mem_subtree hlow' (Nat.lt_trans hq hhigh)
  rw [getD_of_getElem? hl, getD_of_getElem? hlq]
  omega

/-- **The parent relation.** -/
theorem Valid.mem_children_iff {ls : List ℕ} (h : Valid ls) {i j : ℕ} (hj : j < ls.length) :
    j ∈ children ls i ↔ IsParent ls j i := by
  refine ⟨isParent_of_mem, fun hparent => ?_⟩
  obtain ⟨p, -, hmem⟩ := h.exists_parent (Nat.lt_of_le_of_lt (Nat.zero_le i) hparent.before) hj
  rwa [hparent.unique (isParent_of_mem hmem)]

/-- **Subtrees are nested or apart.** -/
theorem subtree_nested {ls : List ℕ} {i j : ℕ} (hij : i < j) :
    subtreeEnd ls i ≤ j ∨ subtreeEnd ls j ≤ subtreeEnd ls i := by
  by_cases hout : subtreeEnd ls i ≤ j
  · exact Or.inl hout
  · obtain ⟨l, hl, hdeep⟩ := lt_of_mem_subtree hij (Nat.lt_of_not_le hout)
    refine Or.inr ?_
    by_contra hpast
    have hlow : j + 1 ≤ subtreeEnd ls i := Nat.lt_of_not_le hout
    obtain ⟨l', hl', hdeep'⟩ := lt_of_mem_subtree hlow (Nat.lt_of_not_le hpast)
    have hstop := le_of_scan hl'
    rw [getD_of_getElem? hl] at hdeep'
    omega

theorem subtreeEnd_le {ls : List ℕ} {i : ℕ} (h : i < ls.length) :
    subtreeEnd ls i ≤ ls.length := by
  by_contra hlt
  obtain ⟨l, hl, -⟩ := lt_of_mem_subtree (Nat.succ_le_of_lt h) (Nat.lt_of_not_le hlt)
  rw [List.getElem?_eq_none (Nat.le_refl _)] at hl
  cases hl

/-! ## One node more -/

section Append

variable {ls : List ℕ} {i l : ℕ}

theorem getD_append_left (h : i < ls.length) (l : ℕ) : (ls ++ [l]).getD i 0 = ls.getD i 0 := by
  simp [List.getD_eq_getElem?_getD, List.getElem?_append_left h]

theorem getD_append_length (ls : List ℕ) (l : ℕ) : (ls ++ [l]).getD ls.length 0 = l := by
  simp [List.getD_eq_getElem?_getD]

/-- A subtree that has ended stays as it is. -/
theorem subtreeEnd_append_of_lt (hi : i < ls.length) (hend : subtreeEnd ls i < ls.length) (l : ℕ) :
    subtreeEnd (ls ++ [l]) i = subtreeEnd ls i := by
  rw [subtreeEnd, getD_append_left hi]
  refine scan_eq (le_scan _ _ _) (fun j hlow hhigh => ?_) fun a ha => ?_
  · obtain ⟨a, ha, hdeep⟩ := lt_of_mem_scan hlow hhigh
    have hj : j < ls.length := (List.getElem?_eq_some_iff.mp ha).1
    exact ⟨a, by rw [List.getElem?_append_left hj, ha], hdeep⟩
  · have ha : (ls ++ [l])[subtreeEnd ls i]? = some a := ha
    rw [List.getElem?_append_left hend] at ha
    exact le_of_scan ha

/-- An open subtree takes the node in, or ends in front of it. -/
theorem subtreeEnd_append_of_open (hi : i < ls.length) (hopen : subtreeEnd ls i = ls.length)
    (l : ℕ) :
    subtreeEnd (ls ++ [l]) i = if ls.getD i 0 < l then ls.length + 1 else ls.length := by
  have hin : ∀ j, i + 1 ≤ j → j < ls.length →
      ∃ a, (ls ++ [l])[j]? = some a ∧ ls.getD i 0 < a := by
    intro j hlow hj
    obtain ⟨a, ha, hdeep⟩ := lt_of_mem_subtree hlow (hopen ▸ hj)
    exact ⟨a, by rw [List.getElem?_append_left hj, ha], hdeep⟩
  rw [subtreeEnd, getD_append_left hi]
  by_cases hdeep : ls.getD i 0 < l
  · rw [if_pos hdeep]
    refine scan_eq (by omega) (fun j hlow hhigh => ?_) fun a ha => ?_
    · rcases Nat.lt_succ_iff_lt_or_eq.mp hhigh with hj | rfl
      · exact hin j hlow hj
      · exact ⟨l, by simp, hdeep⟩
    · rw [List.getElem?_eq_none (by simp)] at ha
      cases ha
  · rw [if_neg hdeep]
    refine scan_eq hi hin fun a ha => ?_
    rw [List.getElem?_append_right (Nat.le_refl _), Nat.sub_self] at ha
    cases ha
    exact Nat.le_of_not_lt hdeep

theorem subtreeEnd_append_length (ls : List ℕ) (l : ℕ) :
    subtreeEnd (ls ++ [l]) ls.length = ls.length + 1 := by
  refine scan_eq (Nat.le_refl _) (fun j hlow hhigh => by omega) fun a ha => ?_
  rw [List.getElem?_eq_none (by simp)] at ha
  cases ha

/-- The new node is a child of the open node one level up, of no other. -/
theorem children_append (hi : i < ls.length) (l : ℕ) :
    children (ls ++ [l]) i =
      children ls i ++
        if subtreeEnd ls i = ls.length ∧ ls.getD i 0 + 1 = l then [ls.length] else [] := by
  have hcongr : ∀ high ≤ ls.length, childrenFrom (ls ++ [l]) (ls.getD i 0) (i + 1) high =
      childrenFrom ls (ls.getD i 0) (i + 1) high := by
    intro high hhigh
    unfold childrenFrom
    refine List.filter_congr fun j hj => ?_
    obtain ⟨-, hj⟩ := List.mem_range'_1.mp hj
    rw [List.getElem?_append_left (by omega)]
  have hstart : i + 1 ≤ subtreeEnd ls i := le_scan _ _ _
  rw [children, getD_append_left hi]
  rcases Nat.lt_or_eq_of_le (subtreeEnd_le hi) with hend | hopen
  · rw [subtreeEnd_append_of_lt hi hend, hcongr _ hend.le, if_neg (fun h => hend.ne h.1),
      List.append_nil]
    rfl
  · rw [subtreeEnd_append_of_open hi hopen]
    by_cases hdeep : ls.getD i 0 < l
    · rw [if_pos hdeep, childrenFrom_append (by omega : i + 1 ≤ ls.length) (Nat.le_succ _),
        hcongr _ (Nat.le_refl _), children, hopen]
      congr 1
      have hlast : (ls ++ [l])[ls.length]? = some l := by simp
      rw [childrenFrom, Nat.succ_sub (Nat.le_refl _), Nat.sub_self]
      by_cases hchild : ls.getD i 0 + 1 = l
      · rw [if_pos ⟨rfl, hchild⟩, List.range'_one, List.filter_cons_of_pos (by rw [hlast, hchild, beq_self_eq_true])]
        rfl
      · rw [if_neg fun h => hchild h.2, List.range'_one, List.filter_cons_of_neg]
        · rfl
        · rw [hlast, beq_iff_eq, Option.some.injEq]
          exact Ne.symm hchild
    · rw [if_neg hdeep, hcongr _ (Nat.le_refl _), if_neg (fun h => by omega), List.append_nil,
        children, hopen]

theorem children_append_length (ls : List ℕ) (l : ℕ) : children (ls ++ [l]) ls.length = [] := by
  unfold children childrenFrom
  rw [subtreeEnd_append_length, Nat.sub_self]
  rfl

theorem isParent_append (hi : i < ls.length) (l : ℕ) {p : ℕ} :
    IsParent (ls ++ [l]) i p ↔ IsParent ls i p := by
  have hlevel : ∀ q < i, (ls ++ [l]).getD q 0 = ls.getD q 0 := fun q hq =>
    getD_append_left (Nat.lt_trans hq hi) l
  constructor
  · intro h
    have hlevels := h.level
    rw [hlevel p h.before, getD_append_left hi] at hlevels
    refine ⟨h.before, hlevels, fun q hpq hq => ?_⟩
    have hne := h.nearest q hpq hq
    rwa [hlevel q hq, getD_append_left hi] at hne
  · intro h
    refine ⟨h.before, ?_, fun q hpq hq => ?_⟩
    · rw [hlevel p h.before, getD_append_left hi]
      exact h.level
    · rw [hlevel q hq, getD_append_left hi]
      exact h.nearest q hpq hq

end Append

end Preorder
