import Mathlib.Data.List.Pairwise
import Mathlib.Data.List.TakeWhile
import Mathlib.Data.List.Sort

/-!
# Arrays sorted by key

An association list kept strictly increasing under a comparison of its keys:
the insertion point, what insertion keeps, and the first match of a scan.
-/

namespace SortedAssoc

variable {κ E : Type} (cmp : κ → κ → Ordering) (key : E → κ)

/-- Strictly increasing, hence one entry for each key. -/
def Increasing (entries : List E) : Prop :=
  entries.Pairwise fun a b => cmp (key a) (key b) = .lt

instance (entries : List E) : Decidable (Increasing cmp key entries) :=
  inferInstanceAs (Decidable (entries.Pairwise _))

/-- Insertion before the first entry with a greater key. -/
def insert (entries : List E) (e : E) : List E :=
  entries.takeWhile (fun x => cmp (key x) (key e) != .gt) ++
    e :: entries.dropWhile fun x => cmp (key x) (key e) != .gt

/-- The first entry a scan finds equal to the key. -/
def find? (entries : List E) (k : κ) : Option E :=
  entries.find? fun x => cmp (key x) k == .eq

variable {cmp key} {entries : List E} {e x : E} {k : κ}

/-! ## The insertion -/

@[simp] theorem mem_insert : x ∈ insert cmp key entries e ↔ x = e ∨ x ∈ entries := by
  have hsplit := List.takeWhile_append_dropWhile (p := fun x => cmp (key x) (key e) != .gt)
    (l := entries)
  constructor
  · intro h
    rw [← hsplit]
    simp only [insert, List.mem_append, List.mem_cons] at h ⊢
    tauto
  · intro h
    rw [← hsplit] at h
    simp only [insert, List.mem_append, List.mem_cons] at h ⊢
    tauto

@[simp] theorem length_insert : (insert cmp key entries e).length = entries.length + 1 := by
  have hsplit := congrArg List.length
    (List.takeWhile_append_dropWhile (p := fun x => cmp (key x) (key e) != .gt) (l := entries))
  rw [List.length_append] at hsplit
  rw [insert, List.length_append, List.length_cons]
  omega

/-- No entry is changed, removed or reordered by an insertion. -/
theorem sublist_insert : entries.Sublist (insert cmp key entries e) := by
  have hsplit := List.takeWhile_append_dropWhile (p := fun x => cmp (key x) (key e) != .gt)
    (l := entries)
  have hsub := (List.sublist_cons_self e
    (entries.dropWhile fun x => cmp (key x) (key e) != .gt)).append_left
      (entries.takeWhile fun x => cmp (key x) (key e) != .gt)
  rw [hsplit] at hsub
  exact hsub

/-- An entry beyond all others goes to the end. -/
theorem insert_last (h : ∀ x ∈ entries, cmp (key x) (key e) = .lt) :
    insert cmp key entries e = entries ++ [e] := by
  have hall : ∀ x ∈ entries, (cmp (key x) (key e) != .gt) = true := by
    intro x hx
    rw [h x hx]
    rfl
  rw [insert, List.takeWhile_eq_self_iff.mpr hall, List.dropWhile_eq_nil_iff.mpr hall]

theorem lt_of_mem_takeWhile
    (hnew : ∀ x ∈ entries, cmp (key x) (key e) ≠ .eq)
    (hx : x ∈ entries.takeWhile fun x => cmp (key x) (key e) != .gt) :
    cmp (key x) (key e) = .lt := by
  have hgt := List.mem_takeWhile_imp hx
  have hmem := (List.takeWhile_sublist _).subset hx
  cases hc : cmp (key x) (key e) with
  | lt => rfl
  | eq => exact absurd hc (hnew x hmem)
  | gt => simp [hc] at hgt

section Lawful

variable [Std.TransCmp cmp]

theorem gt_of_mem_dropWhile (hinc : Increasing cmp key entries)
    (hx : x ∈ entries.dropWhile fun x => cmp (key x) (key e) != .gt) :
    cmp (key e) (key x) = .lt := by
  cases hd : entries.dropWhile fun x => cmp (key x) (key e) != .gt with
  | nil => simp [hd] at hx
  | cons y ys =>
      have hy : cmp (key y) (key e) = .gt := by
        have h := List.head_dropWhile_not (l := entries)
          (fun x => cmp (key x) (key e) != .gt) (by simp [hd])
        simpa [hd] using h
      have hey : cmp (key e) (key y) = .lt := Std.OrientedCmp.lt_of_gt hy
      have hpair : (y :: ys).Pairwise fun a b => cmp (key a) (key b) = .lt := by
        rw [← hd]
        exact hinc.sublist (List.dropWhile_sublist _)
      rw [hd] at hx
      rcases List.mem_cons.mp hx with rfl | hx
      · exact hey
      · exact Std.TransCmp.lt_trans hey (List.rel_of_pairwise_cons hpair hx)

/-- **Insertion keeps the order** when the key is new. -/
theorem Increasing.insert (hinc : Increasing cmp key entries)
    (hnew : ∀ x ∈ entries, cmp (key x) (key e) ≠ .eq) :
    Increasing cmp key (insert cmp key entries e) := by
  rw [Increasing, SortedAssoc.insert, List.pairwise_append]
  refine ⟨hinc.sublist (List.takeWhile_sublist _), ?_, ?_⟩
  · rw [List.pairwise_cons]
    refine ⟨?_, hinc.sublist (List.dropWhile_sublist _)⟩
    intro x hx
    exact gt_of_mem_dropWhile hinc hx
  · intro x hx y hy
    have hxe := lt_of_mem_takeWhile hnew hx
    rcases List.mem_cons.mp hy with rfl | hy
    · exact hxe
    · exact Std.TransCmp.lt_trans hxe (gt_of_mem_dropWhile hinc hy)

/-- What lies beyond the last key lies beyond all of them. -/
theorem Increasing.lt_of_last (hinc : Increasing cmp key entries)
    (hlast : ∀ last, entries.getLast? = some last → cmp (key last) k = .lt) :
    ∀ x ∈ entries, cmp (key x) k = .lt := by
  intro x hx
  rcases List.eq_nil_or_concat' entries with rfl | ⟨before, last, rfl⟩
  · simp at hx
  · have hlt := hlast last (by simp)
    rcases List.mem_append.mp hx with hx | hx
    · have hxl := (List.pairwise_append.mp hinc).2.2 x hx last (by simp)
      exact Std.TransCmp.lt_trans hxl hlt
    · rw [List.mem_singleton] at hx
      rw [hx]
      exact hlt

end Lawful

/-! ## Sorting and searching -/

theorem Increasing.sort_eq [DecidableRel fun a b : E => (cmp (key a) (key b)).isLE = true]
    (hinc : Increasing cmp key entries) :
    entries.insertionSort (fun a b => (cmp (key a) (key b)).isLE) = entries := by
  apply List.Pairwise.insertionSort_eq
  apply List.Pairwise.imp _ hinc
  intro a b h
  rw [h]
  rfl

theorem Increasing.ne_adjacent (hinc : Increasing cmp key entries) :
    entries.IsChain fun a b => cmp (key a) (key b) ≠ .eq := by
  apply List.Pairwise.isChain
  apply List.Pairwise.imp _ hinc
  intro a b h
  rw [h]
  decide

/-- **The members determine the array.** -/
theorem Increasing.ext [Std.OrientedCmp cmp] {entries' : List E}
    (hinc : Increasing cmp key entries) (hinc' : Increasing cmp key entries')
    (hmem : ∀ x, x ∈ entries ↔ x ∈ entries') : entries = entries' := by
  have hnodup : ∀ {l : List E}, Increasing cmp key l → l.Nodup := by
    intro l hl
    refine List.Pairwise.imp (fun {a b} hlt hab => ?_) hl
    have hself : cmp (key a) (key a) = .eq := Std.ReflCmp.compare_self
    rw [← hab, hself] at hlt
    cases hlt
  have hperm : entries.Perm entries' :=
    (List.perm_ext_iff_of_nodup (hnodup hinc) (hnodup hinc')).mpr hmem
  refine hperm.eq_of_pairwise (fun a b _ _ hab hba => ?_) hinc hinc'
  have hgt : cmp (key b) (key a) = .gt := Std.OrientedCmp.gt_of_lt hab
  rw [hgt] at hba
  cases hba

theorem find?_eq_none_iff : find? cmp key entries k = none ↔
    ∀ x ∈ entries, cmp (key x) k ≠ .eq := by
  simp [find?]

theorem find?_eq_some_iff [Std.LawfulEqCmp cmp] (hinc : Increasing cmp key entries) :
    find? cmp key entries k = some e ↔ e ∈ entries ∧ key e = k := by
  constructor
  · intro h
    have hk := List.find?_some h
    rw [beq_iff_eq, Std.LawfulEqCmp.compare_eq_iff_eq] at hk
    exact ⟨List.mem_of_find?_eq_some h, hk⟩
  · rintro ⟨hmem, rfl⟩
    induction entries with
    | nil => simp at hmem
    | cons y ys ih =>
        rw [find?, List.find?_cons]
        rcases List.mem_cons.mp hmem with rfl | hmem
        · have hself : cmp (key e) (key e) = .eq := Std.ReflCmp.compare_self
          rw [hself]
          rfl
        · have hlt := List.rel_of_pairwise_cons hinc hmem
          rw [hlt]
          exact ih (List.Pairwise.of_cons hinc) hmem

end SortedAssoc
