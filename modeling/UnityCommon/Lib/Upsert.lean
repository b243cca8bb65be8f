import Mathlib.Data.List.Induction
import Mathlib.Tactic.Common

/-!
# Entries joined by key

A list with one entry for each key, to which entries come one at a time: one with
a stored key is joined to the entry of that key, another goes to the end. The
stored keys are then in the order in which they came first, and an entry is the
join of all that came with its key.
-/

namespace Upsert

variable {κ E : Type} [DecidableEq κ] (key : E → κ) (join : E → E → E)

def upsert (entries : List E) (e : E) : List E :=
  if key e ∈ entries.map key then
    entries.map fun old => if key old = key e then join old e else old
  else entries ++ [e]

def upsertAll (arrivals : List E) : List E := arrivals.foldl (upsert key join) []

/-- What came with a key, joined in its order. -/
def joined (arrivals : List E) (k : κ) : Option E :=
  match arrivals.filter fun e => key e = k with
  | [] => none
  | first :: rest => some (rest.foldl join first)

variable {key join} {arrivals entries : List E} {e x : E} {k : κ}

theorem upsertAll_concat :
    upsertAll key join (arrivals ++ [x]) = upsert key join (upsertAll key join arrivals) x :=
  List.foldl_append ..

theorem joined_concat_of_ne (h : key x ≠ k) :
    joined key join (arrivals ++ [x]) k = joined key join arrivals k := by
  simp [joined, h]

theorem joined_concat (arrivals : List E) (x : E) :
    joined key join (arrivals ++ [x]) (key x) =
      some ((joined key join arrivals (key x)).elim x fun old => join old x) := by
  have hfilter : (arrivals ++ [x]).filter (fun e => key e = key x) =
      (arrivals.filter fun e => key e = key x) ++ [x] := by simp
  rw [joined, joined, hfilter]
  cases arrivals.filter fun e => key e = key x with
  | nil => rfl
  | cons first rest => simp

/-! ## The keys -/

section Keys

variable (hjoin : ∀ old e, key (join old e) = key old)
include hjoin

theorem map_key_upsert : (upsert key join entries x).map key =
    if key x ∈ entries.map key then entries.map key else entries.map key ++ [key x] := by
  unfold upsert
  split
  · rw [List.map_map]
    refine List.map_congr_left fun old _ => ?_
    simp only [Function.comp_apply]
    split
    · exact hjoin old x
    · rfl
  · simp

/-- **The keys are in the order in which they came first.** -/
theorem map_key_upsertAll [BEq κ] [LawfulBEq κ] (arrivals : List E) :
    (upsertAll key join arrivals).map key = (arrivals.map key).eraseDups := by
  induction arrivals using List.reverseRecOn with
  | nil => rfl
  | append_singleton arrivals x ih =>
      rw [upsertAll_concat, map_key_upsert hjoin, ih, List.map_append, List.eraseDups_append,
        List.map_singleton, List.removeAll, List.filter_cons, List.filter_nil, List.elem_eq_mem]
      simp only [List.mem_eraseDups]
      by_cases hmem : key x ∈ arrivals.map key
      · rw [if_pos hmem, decide_eq_true hmem]
        simp
      · rw [if_neg hmem, decide_eq_false hmem]
        simp [List.eraseDups_cons]

/-! ## The entries -/

omit hjoin in
/-- An entry that is stored when `x` comes. -/
theorem mem_upsert : e ∈ upsert key join entries x ↔
    key e ≠ key x ∧ e ∈ entries ∨
      (∃ old ∈ entries, key old = key x ∧ e = join old x) ∨
        key x ∉ entries.map key ∧ e = x := by
  unfold upsert
  by_cases hmem : key x ∈ entries.map key
  · rw [if_pos hmem, List.mem_map]
    constructor
    · rintro ⟨old, hold, rfl⟩
      by_cases hkey : key old = key x
      · exact Or.inr (Or.inl ⟨old, hold, hkey, if_pos hkey⟩)
      · rw [if_neg hkey]
        exact Or.inl ⟨hkey, hold⟩
    · rintro (⟨hkey, hold⟩ | ⟨old, hold, hkey, rfl⟩ | ⟨hnew, -⟩)
      · exact ⟨e, hold, if_neg hkey⟩
      · exact ⟨old, hold, if_pos hkey⟩
      · exact absurd hmem hnew
  · rw [if_neg hmem, List.mem_append, List.mem_singleton]
    have hne : ∀ old ∈ entries, key old ≠ key x := fun old hold hkey =>
      hmem (hkey ▸ List.mem_map_of_mem hold)
    constructor
    · rintro (hold | rfl)
      · exact Or.inl ⟨hne e hold, hold⟩
      · exact Or.inr (Or.inr ⟨hmem, rfl⟩)
    · rintro (⟨-, hold⟩ | ⟨old, hold, hkey, -⟩ | ⟨-, rfl⟩)
      · exact Or.inl hold
      · exact absurd hkey (hne old hold)
      · exact Or.inr rfl

/-- **An entry is the join of all that came with its key.** -/
theorem joined_of_mem (h : e ∈ upsertAll key join arrivals) :
    joined key join arrivals (key e) = some e := by
  induction arrivals using List.reverseRecOn generalizing e with
  | nil => cases h
  | append_singleton arrivals x ih =>
      rw [upsertAll_concat] at h
      rcases mem_upsert.mp h with ⟨hkey, hold⟩ | ⟨old, hold, hkey, rfl⟩ | ⟨hnew, rfl⟩
      · rw [joined_concat_of_ne (Ne.symm hkey)]
        exact ih hold
      · rw [hjoin, hkey, joined_concat, ← hkey, ih hold, Option.elim_some]
      · rw [map_key_upsertAll hjoin, List.mem_eraseDups] at hnew
        have hnone : joined key join arrivals (key e) = none := by
          have hfilter : arrivals.filter (fun x => key x = key e) = [] := by
            rw [List.filter_eq_nil_iff]
            intro old hold hkey
            exact hnew (of_decide_eq_true hkey ▸ List.mem_map_of_mem hold)
          rw [joined, hfilter]
        rw [joined_concat, hnone, Option.elim_none]

end Keys

end Upsert
