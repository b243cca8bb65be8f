import Mathlib.Data.Set.Card
import Mathlib.Data.Set.Finite.Lattice
import Mathlib.Order.Interval.Finset.Nat
import Mathlib.Tactic.Common

/-!
# Breadth-first search with depths

A search that keeps the nodes it has found in one list with the depth of each,
scans them in that order and adds what it finds at the end, one deeper than the
node being scanned. Depths along the list never decrease and never pass the depth
being scanned by more than one, so the depth a node is found at is its least, and
nothing found later can lower it.
-/

namespace Breadth

variable {κ : Type*} {root : κ → Prop} {succ : κ → κ → Prop}

/-- A node at the end of so many steps from a root. -/
inductive Derived (root : κ → Prop) (succ : κ → κ → Prop) : ℕ → κ → Prop
  | root {p} : root p → Derived root succ 0 p
  | step {k p q} : Derived root succ k p → succ p q → Derived root succ (k + 1) q

/-- The depths of all derivations of a node. -/
def depths (root : κ → Prop) (succ : κ → κ → Prop) (p : κ) : Set ℕ :=
  {k | Derived root succ k p}

def found (root : κ → Prop) (succ : κ → κ → Prop) : Set κ :=
  {p | ∃ k, Derived root succ k p}

/-- **The search invariant**, where the entries before `next` are scanned and the
search is at `level`. -/
structure Explored (root : κ → Prop) (succ : κ → κ → Prop) (queue : List (κ × ℕ))
    (next level : ℕ) : Prop where
  nodup : (queue.map Prod.fst).Nodup
  sound : ∀ e ∈ queue, Derived root succ e.2 e.1
  roots : ∀ p, root p → (p, 0) ∈ queue
  sorted : queue.Pairwise fun e e' => e.2 ≤ e'.2
  near : ∀ e ∈ queue, e.2 ≤ level + 1
  ahead : ∀ e ∈ queue.drop next, level ≤ e.2
  closed : ∀ e ∈ queue.take next, ∀ q, succ e.1 q → ∃ k ≤ e.2 + 1, (q, k) ∈ queue

variable {queue : List (κ × ℕ)} {next level k depth : ℕ} {p q : κ}

theorem mem_take_or_drop {α : Type*} {l : List α} {a : α} (h : a ∈ l) (n : ℕ) :
    a ∈ l.take n ∨ a ∈ l.drop n := by
  rw [← List.mem_append, List.take_append_drop]
  exact h

/-- One depth for a node. -/
theorem depth_unique (hnodup : (queue.map Prod.fst).Nodup) {d d' : ℕ}
    (h : (p, d) ∈ queue) (h' : (p, d') ∈ queue) : d = d' :=
  congrArg Prod.snd (List.inj_on_of_nodup_map hnodup h h' rfl)

namespace Explored

variable (h : Explored root succ queue next level)

include h

/-- What is derived at the level being scanned or above it has been found. -/
theorem complete_below (hp : Derived root succ k p) :
    k ≤ level → ∃ d ≤ k, (p, d) ∈ queue := by
  induction hp with
  | root hroot => exact fun _ => ⟨0, le_rfl, h.roots _ hroot⟩
  | step _ hsucc ih =>
      intro hle
      obtain ⟨d, hd, hmem⟩ := ih (by omega)
      rcases mem_take_or_drop hmem next with htake | hdrop
      · obtain ⟨d', hd', hmem'⟩ := h.closed _ htake _ hsucc
        exact ⟨d', by dsimp only at hd'; omega, hmem'⟩
      · have := h.ahead _ hdrop
        dsimp only at this
        omega

/-- **Recorded depths are least.** -/
theorem isLeast (hmem : (p, depth) ∈ queue) : IsLeast (depths root succ p) depth := by
  refine ⟨h.sound _ hmem, fun k hk => ?_⟩
  by_contra hlt
  have hnear := h.near _ hmem
  obtain ⟨d, hd, hmem'⟩ := h.complete_below hk (by dsimp only at hnear; omega)
  have := depth_unique h.nodup hmem hmem'
  omega

/-- A node that is not found yet has no derivation of the level or less. -/
theorem isLeast_of_new (hnew : p ∉ queue.map Prod.fst)
    (hp : Derived root succ (level + 1) p) : IsLeast (depths root succ p) (level + 1) := by
  refine ⟨hp, fun k hk => ?_⟩
  by_contra hlt
  obtain ⟨d, -, hmem⟩ := h.complete_below hk (by omega)
  exact hnew (List.mem_map_of_mem hmem)

/-- The search enters the first entry that is not scanned. -/
theorem enter (hnext : queue[next]? = some (p, depth)) :
    Explored root succ queue next depth := by
  obtain ⟨hlt, hat⟩ := List.getElem?_eq_some_iff.mp hnext
  have hdrop : queue.drop next = (p, depth) :: queue.drop (next + 1) := by
    rw [List.drop_eq_getElem_cons hlt, hat]
  have hlevel : level ≤ depth := h.ahead (p, depth) (by rw [hdrop]; exact List.mem_cons_self)
  refine ⟨h.nodup, h.sound, h.roots, h.sorted, fun e he => ?_, fun e he => ?_, h.closed⟩
  · have := h.near e he
    omega
  · have hsorted := h.sorted.drop (i := next)
    rw [hdrop] at hsorted he
    rcases List.mem_cons.mp he with rfl | he
    · exact le_rfl
    · exact List.rel_of_pairwise_cons hsorted he

/-- **A node found while a level is scanned goes to the end.** -/
theorem push (hnext : next ≤ queue.length) (hnew : p ∉ queue.map Prod.fst)
    (hp : Derived root succ (level + 1) p) :
    Explored root succ (queue ++ [(p, level + 1)]) next level := by
  refine ⟨?_, fun e he => ?_, fun r hr => List.mem_append_left _ (h.roots r hr), ?_,
    fun e he => ?_, fun e he => ?_, fun e he r hr => ?_⟩
  · rw [List.map_append, List.map_singleton, ← List.concat_eq_append]
    exact h.nodup.concat hnew
  · rcases List.mem_append.mp he with he | he
    · exact h.sound e he
    · obtain rfl := List.mem_singleton.mp he
      exact hp
  · rw [List.pairwise_append]
    refine ⟨h.sorted, List.pairwise_singleton _ _, fun e he e' he' => ?_⟩
    obtain rfl := List.mem_singleton.mp he'
    exact h.near e he
  · rcases List.mem_append.mp he with he | he
    · exact h.near e he
    · obtain rfl := List.mem_singleton.mp he
      exact le_rfl
  · rw [List.drop_append_of_le_length hnext] at he
    rcases List.mem_append.mp he with he | he
    · exact h.ahead e he
    · obtain rfl := List.mem_singleton.mp he
      exact Nat.le_succ level
  · rw [List.take_append_of_le_length hnext] at he
    obtain ⟨d, hd, hmem⟩ := h.closed e he r hr
    exact ⟨d, hd, List.mem_append_left _ hmem⟩

/-- An entry whose successors are all found is scanned. -/
theorem scanned (hnext : queue[next]? = some (p, level))
    (hall : ∀ q, succ p q → q ∈ queue.map Prod.fst) :
    Explored root succ queue (next + 1) level := by
  obtain ⟨hlt, hat⟩ := List.getElem?_eq_some_iff.mp hnext
  refine ⟨h.nodup, h.sound, h.roots, h.sorted, h.near, fun e he => ?_, fun e he q hq => ?_⟩
  · rw [← List.tail_drop] at he
    exact h.ahead e (List.mem_of_mem_tail he)
  · rw [List.take_succ_eq_append_getElem hlt, hat] at he
    rcases List.mem_append.mp he with he | he
    · exact h.closed e he q hq
    · obtain rfl := List.mem_singleton.mp he
      obtain ⟨⟨r, d⟩, hmem, rfl⟩ := List.mem_map.mp (hall q hq)
      exact ⟨d, h.near _ hmem, hmem⟩

/-- **A search that has scanned all it found has found everything.** -/
theorem complete (hdone : queue.length ≤ next) (hp : Derived root succ k p) :
    p ∈ queue.map Prod.fst := by
  induction hp with
  | root hroot => exact List.mem_map_of_mem (h.roots _ hroot)
  | step _ hsucc ih =>
      obtain ⟨e, he, rfl⟩ := List.mem_map.mp ih
      rw [← List.take_of_length_le hdone] at he
      obtain ⟨d, -, hmem⟩ := h.closed e he _ hsucc
      exact List.mem_map_of_mem hmem

/-- The finished queue pairs each found node with its least depth. -/
theorem mem_iff (hdone : queue.length ≤ next) :
    (p, depth) ∈ queue ↔ IsLeast (depths root succ p) depth := by
  refine ⟨h.isLeast, fun hleast => ?_⟩
  obtain ⟨⟨r, d⟩, hmem, rfl⟩ := List.mem_map.mp (h.complete hdone hleast.1)
  rwa [(h.isLeast hmem).unique hleast] at hmem

omit h in
/-- A search starts from its roots. -/
theorem start (hnodup : (queue.map Prod.fst).Nodup)
    (hsound : ∀ e ∈ queue, e.2 = 0 ∧ root e.1) (hroots : ∀ p, root p → (p, 0) ∈ queue) :
    Explored root succ queue 0 0 := by
  refine ⟨hnodup, fun e he => ?_, hroots, ?_, fun e he => ?_, fun e _ => Nat.zero_le _, by simp⟩
  · rw [(hsound e he).1]
    exact Derived.root (hsound e he).2
  · refine List.pairwise_of_forall_mem_list fun e he e' _ => ?_
    rw [(hsound e he).1]
    exact Nat.zero_le _
  · rw [(hsound e he).1]
    exact Nat.zero_le _

end Explored

/-! ## Finitely many nodes -/

theorem length_le_encard {α : Type*} {l : List α} {s : Set α} (hnodup : l.Nodup)
    (hsub : ∀ a ∈ l, a ∈ s) : (l.length : ℕ∞) ≤ s.encard := by
  classical
  rw [← List.toFinset_card_of_nodup hnodup, ← Set.encard_coe_eq_coe_finsetCard]
  exact Set.encard_le_encard fun a ha => hsub a (by simpa using ha)

theorem encard_eq_length {α : Type*} {l : List α} {s : Set α} (hnodup : l.Nodup)
    (hmem : ∀ a, a ∈ l ↔ a ∈ s) : s.encard = l.length := by
  classical
  rw [← List.toFinset_card_of_nodup hnodup, ← Set.encard_coe_eq_coe_finsetCard]
  congr 1
  ext a
  simp [hmem]

/-- Each step goes down by one at least. -/
theorem Derived.height_le {height : κ → ℕ} (hdown : ∀ p q, succ p q → height q < height p)
    {bound : ℕ} (hroots : ∀ p, root p → height p ≤ bound) (h : Derived root succ k p) :
    height p + k ≤ bound := by
  induction h with
  | root hroot => exact hroots _ hroot
  | step _ hsucc ih =>
      have := hdown _ _ hsucc
      omega

theorem finite_derived (hroots : {p | root p}.Finite) (hbranch : ∀ p, {q | succ p q}.Finite) :
    ∀ k, {p | Derived root succ k p}.Finite
  | 0 => by
      refine hroots.subset fun p hp => ?_
      cases hp with
      | root h => exact h
  | k + 1 => by
      refine ((finite_derived hroots hbranch k).biUnion fun p _ => hbranch p).subset ?_
      intro q hq
      cases hq with
      | step hp hsucc => exact Set.mem_biUnion hp hsucc

/-- **Finitely many roots, finite branching and a height bound the nodes.** -/
theorem finite_found {height : κ → ℕ} (hdown : ∀ p q, succ p q → height q < height p)
    (hroots : {p | root p}.Finite) (hbranch : ∀ p, {q | succ p q}.Finite) :
    (found root succ).Finite := by
  obtain ⟨bound, hbound⟩ := (hroots.image height).bddAbove
  have hlevels : ∀ k ∈ Set.Iic bound, {p | Derived root succ k p}.Finite :=
    fun k _ => finite_derived hroots hbranch k
  refine ((Set.finite_Iic bound).biUnion hlevels).subset ?_
  rintro p ⟨k, hk⟩
  have := hk.height_le hdown fun r hr => hbound (Set.mem_image_of_mem height hr)
  exact Set.mem_biUnion (Set.mem_Iic.mpr (by omega : k ≤ bound)) hk

end Breadth
