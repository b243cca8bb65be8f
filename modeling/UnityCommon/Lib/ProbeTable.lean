import Mathlib.Data.List.GetD
import Mathlib.Data.List.Nodup
import Mathlib.Data.Nat.Find
import Mathlib.Tactic.Common

/-!
# Open addressing with linear probing

A table of slots over a list of distinct keys. A slot is zero or the index of a
key plus one; a key is looked for from its home slot on, around the table, until
it is found or a slot is empty. The invariant is that no slot between the home of
a stored key and its place is empty, so a lookup finds what a search of the key
list does, for any hash.
-/

namespace ProbeTable

variable {κ : Type*}

/-- At most so many probes from a slot on. -/
def findFrom [DecidableEq κ] (next : ℕ → ℕ) (slots : List ℕ) (keys : List κ) (key : κ) : ℕ → ℕ → Option ℕ
  | 0, _ => none
  | probes + 1, slot =>
      match slots.getD slot 0 with
      | 0 => none
      | entry + 1 =>
          if keys[entry]? = some key then some entry
          else findFrom next slots keys key probes (next slot)

/-- The table with `entry` in the first empty slot. -/
def insertFrom (next : ℕ → ℕ) (slots : List ℕ) (entry : ℕ) : ℕ → ℕ → Option (List ℕ)
  | 0, _ => none
  | probes + 1, slot =>
      if slots.getD slot 0 = 0 then some (slots.set slot (entry + 1))
      else insertFrom next slots entry probes (next slot)

/-- The keys from `entry` on, inserted in their order. -/
def insertAll (next : ℕ → ℕ) (home : κ → ℕ) : List κ → ℕ → List ℕ → Option (List ℕ)
  | [], _, slots => some slots
  | key :: keys, entry, slots =>
      (insertFrom next slots entry slots.length (home key)).bind
        (insertAll next home keys (entry + 1))

/-- The slot so many probes after `start`. -/
def slotAt (capacity start probes : ℕ) : ℕ := (start + probes) % capacity

/-- **The probing invariant.** -/
structure Indexed (home : κ → ℕ) (slots : List ℕ) (keys : List κ) : Prop where
  stored : ∀ entry key, keys[entry]? = some key → ∃ i < slots.length,
    slots[slotAt slots.length (home key) i]? = some (entry + 1) ∧
      ∀ j < i, slots.getD (slotAt slots.length (home key) j) 0 ≠ 0
  used : slots.count 0 + keys.length = slots.length

/-- The addressing of a table: homes are slots, and the step goes around. -/
structure Addressing (next : ℕ → ℕ) (home : κ → ℕ) (capacity : ℕ) : Prop where
  home_lt : ∀ key, home key < capacity
  next_eq : ∀ slot < capacity, next slot = (slot + 1) % capacity

variable {next : ℕ → ℕ} {home : κ → ℕ} {slots slots' : List ℕ} {keys : List κ} {key : κ}

theorem Addressing.pos (h : Addressing next home slots.length) (key : κ) : 0 < slots.length :=
  Nat.lt_of_le_of_lt (Nat.zero_le _) (h.home_lt key)

theorem slotAt_lt {capacity start probes : ℕ} (h : 0 < capacity) :
    slotAt capacity start probes < capacity := Nat.mod_lt _ h

theorem Addressing.next_slotAt {capacity : ℕ} (h : Addressing next home capacity)
    (hpos : 0 < capacity) (start probes : ℕ) :
    next (slotAt capacity start probes) = slotAt capacity start (probes + 1) := by
  rw [h.next_eq _ (slotAt_lt hpos)]
  unfold slotAt
  rw [Nat.mod_add_mod, Nat.add_assoc]

theorem Addressing.slotAt_zero {capacity : ℕ} (h : Addressing next home capacity) (key : κ) :
    slotAt capacity (home key) 0 = home key := Nat.mod_eq_of_lt (h.home_lt key)

/-! ## Lookup -/

section Lookup

variable [DecidableEq κ]

/-- What a lookup returns has the key. -/
theorem key_of_findFrom {probes slot entry : ℕ}
    (h : findFrom next slots keys key probes slot = some entry) : keys[entry]? = some key := by
  induction probes generalizing slot with
  | zero => cases h
  | succ probes ih =>
      rw [findFrom] at h
      split at h
      · cases h
      split at h
      · rename_i hkey
        obtain rfl := Option.some_inj.mp h
        exact hkey
      · exact ih h

/-- A lookup reaches its key over slots that are not empty. -/
theorem findFrom_of_stored (haddr : Addressing next home slots.length) (hnodup : keys.Nodup)
    {entry i : ℕ} (hkey : keys[entry]? = some key)
    (hslot : slots[slotAt slots.length (home key) i]? = some (entry + 1))
    (hbetween : ∀ j < i, slots.getD (slotAt slots.length (home key) j) 0 ≠ 0) :
    ∀ (probes j : ℕ), j ≤ i → i < j + probes →
      findFrom next slots keys key probes (slotAt slots.length (home key) j) = some entry := by
  intro probes
  induction probes with
  | zero =>
      intro j hle hlt
      omega
  | succ probes ih =>
      intro j hle hlt
      rw [findFrom]
      by_cases he : j = i
      · subst he
        rw [List.getD_eq_getElem?_getD, hslot]
        simp [hkey]
      · have hne := hbetween j (by omega)
        cases hvalue : slots.getD (slotAt slots.length (home key) j) 0 with
        | zero => exact absurd hvalue hne
        | succ other =>
            dsimp only
            by_cases hother : keys[other]? = some key
            · rw [if_pos hother]
              obtain ⟨hlt₁, h₁⟩ := List.getElem?_eq_some_iff.mp hother
              obtain ⟨hlt₂, h₂⟩ := List.getElem?_eq_some_iff.mp hkey
              rw [hnodup.getElem_inj_iff.mp (h₁.trans h₂.symm)]
            · rw [if_neg hother, haddr.next_slotAt (haddr.pos key)]
              exact ih (j + 1) (by omega) (by omega)

/-- **A lookup is a search of the keys.** -/
theorem findFrom_eq_some_iff (haddr : Addressing next home slots.length)
    (h : Indexed home slots keys) (hnodup : keys.Nodup) {entry : ℕ} :
    findFrom next slots keys key slots.length (home key) = some entry ↔
      keys[entry]? = some key := by
  refine ⟨key_of_findFrom, fun hkey => ?_⟩
  obtain ⟨i, hi, hslot, hbetween⟩ := h.stored entry key hkey
  have := findFrom_of_stored haddr hnodup hkey hslot hbetween slots.length 0 (Nat.zero_le _)
    (by omega)
  rwa [haddr.slotAt_zero] at this

end Lookup

/-! ## Insertion -/

/-- A table with an empty slot has one after some probes from anywhere. -/
theorem exists_empty (hempty : 0 < slots.count 0) (start : ℕ) :
    ∃ i, i < slots.length ∧ slots.getD (slotAt slots.length start i) 0 = 0 := by
  obtain ⟨p, hp, hzero⟩ := List.getElem_of_mem (List.count_pos_iff.mp hempty)
  have hpos : 0 < slots.length := by omega
  refine ⟨(p + (slots.length - start % slots.length)) % slots.length, Nat.mod_lt _ hpos, ?_⟩
  have hslot : slotAt slots.length start
      ((p + (slots.length - start % slots.length)) % slots.length) = p := by
    have hlt := Nat.mod_lt start hpos
    have hdiv := Nat.div_add_mod start slots.length
    have hsum : start + (p + (slots.length - start % slots.length)) =
        p + slots.length * (start / slots.length + 1) := by
      rw [Nat.mul_add, Nat.mul_one]
      omega
    rw [slotAt, Nat.add_mod_mod, hsum, Nat.add_mul_mod_self_left, Nat.mod_eq_of_lt hp]
  rw [hslot, List.getD_eq_getElem _ _ hp, hzero]

/-- The entry goes to the first empty slot from its home on. -/
theorem insertFrom_first (haddr : Addressing next home slots.length) (key : κ) {entry i : ℕ}
    (hzero : slots.getD (slotAt slots.length (home key) i) 0 = 0)
    (hfirst : ∀ j < i, slots.getD (slotAt slots.length (home key) j) 0 ≠ 0) :
    ∀ (probes j : ℕ), j ≤ i → i < j + probes →
      insertFrom next slots entry probes (slotAt slots.length (home key) j) =
        some (slots.set (slotAt slots.length (home key) i) (entry + 1)) := by
  intro probes
  induction probes with
  | zero =>
      intro j hle hlt
      omega
  | succ probes ih =>
      intro j hle hlt
      rw [insertFrom]
      by_cases he : j = i
      · subst he
        rw [if_pos hzero]
      · rw [if_neg (hfirst j (by omega)), haddr.next_slotAt (haddr.pos key)]
        exact ih (j + 1) (by omega) (by omega)

theorem Indexed.empty (home : κ → ℕ) (capacity : ℕ) :
    Indexed home (List.replicate capacity 0) [] :=
  ⟨by simp, by simp⟩

/-- Writing an entry to the first empty slot of its probes keeps the invariant. -/
theorem Indexed.set (h : Indexed home slots keys) {i : ℕ} (hi : i < slots.length)
    (hzero : slots.getD (slotAt slots.length (home key) i) 0 = 0)
    (hfirst : ∀ j < i, slots.getD (slotAt slots.length (home key) j) 0 ≠ 0) :
    Indexed home (slots.set (slotAt slots.length (home key) i) (keys.length + 1))
      (keys ++ [key]) := by
  have hslot : slotAt slots.length (home key) i < slots.length :=
    slotAt_lt (Nat.zero_lt_of_lt hi)
  -- The only slot that changes was empty and is not empty afterwards.
  have hkept : ∀ p value, slots.getD p 0 = value + 1 →
      (slots.set (slotAt slots.length (home key) i) (keys.length + 1)).getD p 0 = value + 1 := by
    intro p value hp
    have hne : slotAt slots.length (home key) i ≠ p := by
      rintro rfl
      omega
    rw [List.getD_eq_getElem?_getD, List.getElem?_set_ne hne, ← List.getD_eq_getElem?_getD, hp]
  have hnonzero : ∀ p, slots.getD p 0 ≠ 0 →
      (slots.set (slotAt slots.length (home key) i) (keys.length + 1)).getD p 0 ≠ 0 := by
    intro p hp
    obtain ⟨value, hvalue⟩ := Nat.exists_eq_succ_of_ne_zero hp
    rw [hkept p value hvalue]
    exact Nat.succ_ne_zero value
  refine ⟨fun entry stored hstored => ?_, ?_⟩
  · rw [List.length_set]
    by_cases hlt : entry < keys.length
    · rw [List.getElem?_append_left hlt] at hstored
      obtain ⟨j, hj, hat, hbetween⟩ := h.stored entry stored hstored
      refine ⟨j, hj, ?_, fun p hp => hnonzero _ (hbetween p hp)⟩
      have hget : slots.getD (slotAt slots.length (home stored) j) 0 = entry + 1 := by
        rw [List.getD_eq_getElem?_getD, hat]
        rfl
      have hafter := hkept _ _ hget
      rw [List.getD_eq_getElem _ _ (by simpa using slotAt_lt (Nat.zero_lt_of_lt hj))] at hafter
      rw [List.getElem?_eq_getElem (by simpa using slotAt_lt (Nat.zero_lt_of_lt hj)), hafter]
    · rw [List.getElem?_append_right (by omega)] at hstored
      obtain ⟨hlast, rfl⟩ := List.getElem?_eq_some_iff.mp hstored
      obtain rfl : entry = keys.length := by
        simp only [List.length_singleton] at hlast
        omega
      refine ⟨i, hi, ?_, ?_⟩
      · simp [hslot]
      · simpa using fun p hp => hnonzero _ (hfirst p hp)
  · have hused := h.used
    have hempty : slots[slotAt slots.length (home key) i] = 0 := by
      rw [← List.getD_eq_getElem _ 0 hslot, hzero]
    have hone : 0 < slots.count 0 := List.count_pos_iff.mpr (hempty ▸ List.getElem_mem hslot)
    rw [List.count_set hslot, List.length_append, List.length_set, hempty]
    simp only [List.length_singleton, beq_self_eq_true, if_true, Nat.succ_ne_zero,
      beq_iff_eq, if_false]
    omega

/-- **An insertion into a table with an empty slot succeeds and keeps the
invariant.** -/
theorem Indexed.insert (haddr : Addressing next home slots.length) (h : Indexed home slots keys)
    (hroom : keys.length < slots.length) (key : κ) :
    ∃ slots', insertFrom next slots keys.length slots.length (home key) = some slots' ∧
      slots'.length = slots.length ∧ Indexed home slots' (keys ++ [key]) := by
  have hused := h.used
  have hempty : 0 < slots.count 0 := by omega
  have hexists := exists_empty hempty (home key)
  obtain ⟨hi, hzero⟩ := Nat.find_spec hexists
  have hfirst : ∀ j < Nat.find hexists,
      slots.getD (slotAt slots.length (home key) j) 0 ≠ 0 := by
    intro j hj hempty
    exact Nat.find_min hexists hj ⟨by omega, hempty⟩
  refine ⟨_, ?_, List.length_set, h.set hi hzero hfirst⟩
  have hinsert : insertFrom next slots keys.length slots.length
      (slotAt slots.length (home key) 0) = _ :=
    insertFrom_first haddr key hzero hfirst slots.length 0 (Nat.zero_le _) (by omega)
  rwa [haddr.slotAt_zero] at hinsert

/-- **A rehash of as many keys as there are empty slots succeeds.** -/
theorem Indexed.insertAll (haddr : Addressing next home slots.length)
    (h : Indexed home slots keys) (more : List κ)
    (hroom : keys.length + more.length ≤ slots.length) :
    ∃ slots', ProbeTable.insertAll next home more keys.length slots = some slots' ∧
      slots'.length = slots.length ∧ Indexed home slots' (keys ++ more) := by
  induction more generalizing slots keys with
  | nil => exact ⟨slots, rfl, rfl, by simpa using h⟩
  | cons key more ih =>
      rw [List.length_cons] at hroom
      obtain ⟨slots₁, h₁, hlength₁, hindexed⟩ := h.insert haddr (by omega) key
      obtain ⟨slots', h', hlength', hall⟩ :=
        ih (hlength₁ ▸ haddr) hindexed
          (by rw [List.length_append, List.length_singleton]; omega)
      refine ⟨slots', ?_, hlength'.trans hlength₁, by simpa using hall⟩
      rw [ProbeTable.insertAll, h₁]
      simpa using h'

end ProbeTable
