import UnityCommon.Lib.SortedAssoc

/-!
# Merging sorted association lists

The linear merge of two lists with one entry for each key. It is the union of
what they look up, with the entries of a common key joined.
-/

namespace SortedAssoc

variable {κ E : Type} (cmp : κ → κ → Ordering) (key : E → κ) (join : E → E → E)

def merge : List E → List E → List E
  | [], bs => bs
  | as, [] => as
  | a :: as, b :: bs =>
      match cmp (key a) (key b) with
      | .lt => a :: merge as (b :: bs)
      | .eq => join a b :: merge as bs
      | .gt => b :: merge (a :: as) bs
termination_by as bs => as.length + bs.length

/-- The join is of the common key. -/
def JoinsKey : Prop := ∀ a b, key a = key b → key (join a b) = key a

variable {cmp key join} {as bs : List E} {k : κ} {e : E}

@[simp] theorem merge_nil_right : merge cmp key join as [] = as := by
  cases as <;> simp [merge]

@[simp] theorem merge_nil_left : merge cmp key join [] bs = bs := by
  simp [merge]

theorem merge_cons_cons {a b : E} : merge cmp key join (a :: as) (b :: bs) =
    match cmp (key a) (key b) with
    | .lt => a :: merge cmp key join as (b :: bs)
    | .eq => join a b :: merge cmp key join as bs
    | .gt => b :: merge cmp key join (a :: as) bs := by
  rw [merge]

theorem find?_nil : find? cmp key [] k = none := rfl

theorem find?_cons_of_eq (h : cmp (key e) k = .eq) : find? cmp key (e :: as) k = some e := by
  rw [find?, List.find?_cons, h]
  rfl

theorem find?_cons_of_ne (h : cmp (key e) k ≠ .eq) :
    find? cmp key (e :: as) k = find? cmp key as k := by
  rw [find?, List.find?_cons, beq_eq_false_iff_ne.mpr h]
  rfl

section Lawful

variable [Std.LawfulEqCmp cmp]

/-- What is below both lists is below their merge. -/
theorem lt_of_mem_merge (hjoin : JoinsKey key join) {x : E}
    (hx : x ∈ merge cmp key join as bs) (ha : ∀ a ∈ as, cmp k (key a) = .lt)
    (hb : ∀ b ∈ bs, cmp k (key b) = .lt) : cmp k (key x) = .lt := by
  induction as, bs using merge.induct cmp key with
  | case1 bs =>
      rw [merge_nil_left] at hx
      exact hb x hx
  | case2 as h =>
      rw [merge_nil_right] at hx
      exact ha x hx
  | case3 a as b bs hcmp ih =>
      rw [merge_cons_cons, hcmp] at hx
      rcases List.mem_cons.mp hx with rfl | hx
      · exact ha x List.mem_cons_self
      · exact ih hx (fun y hy => ha y (List.mem_cons_of_mem a hy)) hb
  | case4 a as b bs hcmp ih =>
      rw [merge_cons_cons, hcmp] at hx
      rcases List.mem_cons.mp hx with rfl | hx
      · rw [hjoin a b (Std.LawfulEqCmp.eq_of_compare hcmp)]
        exact ha a List.mem_cons_self
      · exact ih hx (fun y hy => ha y (List.mem_cons_of_mem a hy))
          fun y hy => hb y (List.mem_cons_of_mem b hy)
  | case5 a as b bs hcmp ih =>
      rw [merge_cons_cons, hcmp] at hx
      rcases List.mem_cons.mp hx with rfl | hx
      · exact hb x List.mem_cons_self
      · exact ih hx ha fun y hy => hb y (List.mem_cons_of_mem b hy)

/-- **A merge is sorted.** -/
theorem Increasing.merge [Std.TransCmp cmp] (hjoin : JoinsKey key join) (ha : Increasing cmp key as)
    (hb : Increasing cmp key bs) : Increasing cmp key (merge cmp key join as bs) := by
  induction as, bs using merge.induct cmp key with
  | case1 bs => rwa [merge_nil_left]
  | case2 as h => rwa [merge_nil_right]
  | case3 a as b bs hcmp ih =>
      obtain ⟨hfirst, hrest⟩ := List.pairwise_cons.mp ha
      rw [merge_cons_cons, hcmp]
      refine List.pairwise_cons.mpr ⟨fun x hx => ?_, ih hrest hb⟩
      refine lt_of_mem_merge hjoin hx hfirst fun y hy => ?_
      rcases List.mem_cons.mp hy with rfl | hy
      · exact hcmp
      · exact Std.TransCmp.lt_trans hcmp (List.rel_of_pairwise_cons hb hy)
  | case4 a as b bs hcmp ih =>
      obtain ⟨hfirst, hrest⟩ := List.pairwise_cons.mp ha
      obtain ⟨hfirst', hrest'⟩ := List.pairwise_cons.mp hb
      have hkey := Std.LawfulEqCmp.eq_of_compare hcmp
      rw [merge_cons_cons, hcmp]
      refine List.pairwise_cons.mpr ⟨fun x hx => ?_, ih hrest hrest'⟩
      rw [hjoin a b hkey]
      exact lt_of_mem_merge hjoin hx hfirst fun y hy => hkey ▸ hfirst' y hy
  | case5 a as b bs hcmp ih =>
      obtain ⟨hfirst, hrest⟩ := List.pairwise_cons.mp hb
      have hlt := Std.OrientedCmp.lt_of_gt hcmp
      rw [merge_cons_cons, hcmp]
      refine List.pairwise_cons.mpr ⟨fun x hx => ?_, ih ha hrest⟩
      refine lt_of_mem_merge hjoin hx (fun y hy => ?_) hfirst
      rcases List.mem_cons.mp hy with rfl | hy
      · exact hlt
      · exact Std.TransCmp.lt_trans hlt (List.rel_of_pairwise_cons ha hy)

variable [Std.TransCmp cmp]

omit [Std.LawfulEqCmp cmp] in
/-- A key below all of a list is not looked up there. -/
theorem find?_eq_none_of_lt (h : ∀ x ∈ as, cmp k (key x) = .lt) : find? cmp key as k = none := by
  refine find?_eq_none_iff.mpr fun x hx he => ?_
  have hgt := Std.OrientedCmp.gt_of_lt (h x hx)
  rw [he] at hgt
  cases hgt

/-- **A merge looks up in both lists** and joins what it finds. -/
theorem find?_merge (hjoin : JoinsKey key join) (ha : Increasing cmp key as)
    (hb : Increasing cmp key bs) (k : κ) :
    find? cmp key (SortedAssoc.merge cmp key join as bs) k =
      Option.merge join (find? cmp key as k) (find? cmp key bs k) := by
  induction as, bs using merge.induct cmp key with
  | case1 bs => rw [merge_nil_left, find?_nil, Option.merge_none_left]
  | case2 as h => rw [merge_nil_right, find?_nil, Option.merge_none_right]
  | case3 a as b bs hcmp ih =>
      obtain ⟨-, hrest⟩ := List.pairwise_cons.mp ha
      rw [merge_cons_cons, hcmp]
      by_cases hk : cmp (key a) k = .eq
      · obtain rfl := Std.LawfulEqCmp.eq_of_compare hk
        have hnone : find? cmp key (b :: bs) (key a) = none := by
          refine find?_eq_none_of_lt fun x hx => ?_
          rcases List.mem_cons.mp hx with rfl | hx
          · exact hcmp
          · exact Std.TransCmp.lt_trans hcmp (List.rel_of_pairwise_cons hb hx)
        rw [find?_cons_of_eq hk, find?_cons_of_eq hk, hnone, Option.merge_none_right]
      · rw [find?_cons_of_ne hk, find?_cons_of_ne hk, ih hrest hb]
  | case4 a as b bs hcmp ih =>
      obtain ⟨-, hrest⟩ := List.pairwise_cons.mp ha
      obtain ⟨-, hrest'⟩ := List.pairwise_cons.mp hb
      have hkey := Std.LawfulEqCmp.eq_of_compare hcmp
      have hjoined := hjoin a b hkey
      rw [merge_cons_cons, hcmp]
      by_cases hk : cmp (key a) k = .eq
      · rw [find?_cons_of_eq (by rwa [hjoined]), find?_cons_of_eq hk,
          find?_cons_of_eq (by rwa [← hkey]), Option.merge_some_some]
      · rw [find?_cons_of_ne (by rwa [hjoined]), find?_cons_of_ne hk,
          find?_cons_of_ne (by rwa [← hkey]), ih hrest hrest']
  | case5 a as b bs hcmp ih =>
      obtain ⟨-, hrest⟩ := List.pairwise_cons.mp hb
      have hlt := Std.OrientedCmp.lt_of_gt hcmp
      rw [merge_cons_cons, hcmp]
      by_cases hk : cmp (key b) k = .eq
      · obtain rfl := Std.LawfulEqCmp.eq_of_compare hk
        have hnone : find? cmp key (a :: as) (key b) = none := by
          refine find?_eq_none_of_lt fun x hx => ?_
          rcases List.mem_cons.mp hx with rfl | hx
          · exact hlt
          · exact Std.TransCmp.lt_trans hlt (List.rel_of_pairwise_cons ha hx)
        rw [find?_cons_of_eq hk, find?_cons_of_eq hk, hnone, Option.merge_none_left]
      · rw [find?_cons_of_ne hk, find?_cons_of_ne hk, ih ha hrest]

/-- Sorted lists that look up alike are the same. -/
theorem Increasing.ext_find? (ha : Increasing cmp key as) (hb : Increasing cmp key bs)
    (h : ∀ k, find? cmp key as k = find? cmp key bs k) : as = bs := by
  refine ha.ext hb fun x => ?_
  have hx := congrArg (· = some x) (h (key x))
  simp only [find?_eq_some_iff ha, find?_eq_some_iff hb, and_true, eq_iff_iff] at hx
  exact hx

end Lawful

end SortedAssoc
