import Mathlib.Data.List.Basic
import Mathlib.Data.List.Count
import Mathlib.Data.List.Infix
import Mathlib.Logic.Relation

/-!
# Lexical reduction of component lists

A path is read as a list of components over an arbitrary type with one
distinguished component `up`. Reduction keeps a stack: an ordinary component
is pushed, `up` cancels an ordinary component below it and is itself kept only
at the bottom of an unrooted path. Containment of one reduced path in another
is a prefix question, except for the `up`s at the bottom of the longer one.
-/

namespace LexicalPath

variable {α : Type*}

/-- One component against the components kept so far. -/
def push [DecidableEq α] (up : α) (rooted : Bool) (kept : List α) (c : α) : Option (List α) :=
  if c = up then
    match kept.getLast? with
    | some top =>
        if top = up then (if rooted then none else some (kept ++ [up]))
        else some kept.dropLast
    | none => if rooted then none else some (kept ++ [up])
  else some (kept ++ [c])

def reduce [DecidableEq α] (up : α) (rooted : Bool) (cs : List α) : Option (List α) :=
  cs.foldlM (push up rooted) []

/-- The shape of a reduced path: some `up`s, none when rooted, then ordinary
components only. -/
def Reduced (up : α) (rooted : Bool) (cs : List α) : Prop :=
  ∃ k names, cs = List.replicate k up ++ names ∧ up ∉ names ∧
    (rooted = true → k = 0)

/-- `cs` is `root` itself or something below it. -/
def Within (up : α) (root cs : List α) : Prop :=
  root <+: cs ∧ up ∉ cs.drop root.length

theorem reduced_nil (up : α) (rooted : Bool) : Reduced up rooted ([] : List α) :=
  ⟨0, [], rfl, by simp, fun _ => rfl⟩

theorem Reduced.append_name {up : α} {rooted : Bool} {cs : List α} {c : α}
    (h : Reduced up rooted cs) (hc : c ≠ up) : Reduced up rooted (cs ++ [c]) := by
  obtain ⟨k, names, rfl, hup, hk⟩ := h
  refine ⟨k, names ++ [c], by simp, ?_, hk⟩
  simp only [List.mem_append, List.mem_singleton, not_or]
  exact ⟨hup, hc.symm⟩

theorem Reduced.dropLast {up : α} {rooted : Bool} {cs : List α}
    (h : Reduced up rooted cs) : Reduced up rooted cs.dropLast := by
  obtain ⟨k, names, rfl, hup, hk⟩ := h
  rcases List.eq_nil_or_concat names with rfl | ⟨init, last, rfl⟩
  · refine ⟨k - 1, [], by simp [List.dropLast_replicate], by simp, ?_⟩
    intro hr
    rw [hk hr]
  · rw [List.concat_eq_append] at hup ⊢
    refine ⟨k, init, ?_, fun hm => hup (List.mem_append_left _ hm), hk⟩
    rw [← List.append_assoc, List.dropLast_concat]

theorem Reduced.of_append {up : α} {rooted : Bool} {cs more : List α}
    (h : Reduced up rooted (cs ++ more)) : Reduced up rooted cs := by
  induction more using List.reverseRecOn with
  | nil => simpa using h
  | append_singleton more c ih =>
      refine ih ?_
      have hd := h.dropLast
      rwa [← List.append_assoc, List.dropLast_concat] at hd

/-- A rooted path never starts with `up`. -/
theorem Reduced.head?_ne {up : α} {cs : List α} (h : Reduced up true cs) :
    cs.head? ≠ some up := by
  obtain ⟨k, names, rfl, hup, hk⟩ := h
  rw [hk rfl]
  intro hh
  exact hup (List.mem_of_mem_head? (by simpa using hh))

/-- An `up` is pushed only on an unrooted stack of `up`s. -/
theorem Reduced.append_up {up : α} {cs : List α} (h : Reduced up false cs)
    (hlast : ∀ top, cs.getLast? = some top → top = up) :
    Reduced up false (cs ++ [up]) := by
  obtain ⟨k, names, rfl, hup, -⟩ := h
  rcases List.eq_nil_or_concat names with rfl | ⟨init, last, rfl⟩
  · exact ⟨k + 1, [], by simp [List.replicate_succ'], by simp, by simp⟩
  · have : last = up := hlast last (by simp)
    exact absurd (by simp [this]) hup

/-- Below a prefix of a reduced path an `up` can only come first, and only
after `up`s alone. -/
theorem Reduced.up_mem_drop_iff {up : α} {rooted : Bool} {cs root : List α}
    (h : Reduced up rooted cs) (hpre : root <+: cs) :
    up ∈ cs.drop root.length ↔
      (∀ c ∈ root, c = up) ∧ cs[root.length]? = some up := by
  obtain ⟨k, names, rfl, hup, -⟩ := h
  have htake : root = (List.replicate k up ++ names).take root.length :=
    List.prefix_iff_eq_take.mp hpre
  by_cases hn : root.length < k
  · have hroot : root = List.replicate root.length up := by
      rw [List.take_append_of_le_length (by simpa using hn.le),
        List.take_replicate, min_eq_left hn.le] at htake
      exact htake
    have hget : (List.replicate k up ++ names)[root.length]? = some up := by
      rw [List.getElem?_append_left (by simpa using hn)]
      simp [hn]
    refine ⟨fun _ => ⟨?_, hget⟩, fun _ => ?_⟩
    · intro c hc
      rw [hroot] at hc
      exact List.eq_of_mem_replicate hc
    · exact List.mem_of_getElem? (i := 0) (by rw [List.getElem?_drop]; exact hget)
  · have hk : k ≤ root.length := Nat.le_of_not_lt hn
    have hdrop : (List.replicate k up ++ names).drop root.length
        = names.drop (root.length - k) := by
      rw [List.drop_append, List.drop_eq_nil_of_le (by simpa using hk)]
      simp
    constructor
    · intro hm
      rw [hdrop] at hm
      exact absurd (List.mem_of_mem_drop hm) hup
    · rintro ⟨-, hget⟩
      rw [List.getElem?_append_right (by simpa using hk)] at hget
      exact absurd (List.mem_of_getElem? hget) hup

/-- A run of `up`s below an `up` of a reduced path is a prefix of it. -/
theorem Reduced.replicate_prefix {up : α} {rooted : Bool} {cs root : List α}
    (h : Reduced up rooted cs) (hall : ∀ c ∈ root, c = up)
    (hget : cs[root.length]? = some up) : root <+: cs := by
  obtain ⟨k, names, rfl, hup, -⟩ := h
  have hroot : root = List.replicate root.length up := List.eq_replicate_of_mem hall
  have hlt : root.length < k := by
    by_contra hge
    rw [List.getElem?_append_right (by simpa using hge)] at hget
    exact hup (List.mem_of_getElem? hget)
  rw [hroot, show k = root.length + (k - root.length) by omega, ← List.replicate_append_replicate,
    List.append_assoc]
  exact List.prefix_append _ _

theorem push_reduced [DecidableEq α] {up : α} {rooted : Bool} {kept kept' : List α} {c : α}
    (h : Reduced up rooted kept) (hp : push up rooted kept c = some kept') :
    Reduced up rooted kept' := by
  unfold push at hp
  by_cases hc : c = up
  · rw [if_pos hc] at hp
    cases hlast : kept.getLast? with
    | none =>
        rw [hlast] at hp
        cases rooted with
        | true => simp at hp
        | false =>
            simp only [Bool.false_eq_true, if_false, Option.some.injEq] at hp
            subst hp
            exact h.append_up (by simp [hlast])
    | some top =>
        rw [hlast] at hp
        by_cases ht : top = up
        · cases rooted with
          | true => simp [ht] at hp
          | false =>
              simp only [ht, if_true, Bool.false_eq_true, if_false,
                Option.some.injEq] at hp
              subst hp
              exact h.append_up (by simp [hlast, ht])
        · simp only [if_neg ht, Option.some.injEq] at hp
          subst hp
          exact h.dropLast
  · rw [if_neg hc, Option.some.injEq] at hp
    subst hp
    exact h.append_name hc

/-- A reduction ends in the reduced shape. -/
theorem reduce_reduced [DecidableEq α] {up : α} {rooted : Bool} {cs out : List α}
    (h : reduce up rooted cs = some out) : Reduced up rooted out := by
  suffices go : ∀ (cs kept : List α), Reduced up rooted kept →
      ∀ out, cs.foldlM (push up rooted) kept = some out → Reduced up rooted out from
    go cs [] (reduced_nil up rooted) out h
  intro cs
  induction cs with
  | nil =>
      intro kept hk out hout
      simp only [List.foldlM_nil, Option.pure_def, Option.some.injEq] at hout
      exact hout ▸ hk
  | cons c cs ih =>
      intro kept hk out hout
      rw [List.foldlM_cons] at hout
      cases hp : push up rooted kept c with
      | none => simp [hp] at hout
      | some kept' =>
          simp only [hp, Option.bind_eq_bind, Option.bind_some] at hout
          exact ih kept' (push_reduced hk hp) out hout

/-- Reduction leaves a reduced path alone. -/
theorem Reduced.reduce_eq [DecidableEq α] {up : α} {rooted : Bool} {cs : List α}
    (h : Reduced up rooted cs) : reduce up rooted cs = some cs := by
  obtain ⟨k, names, rfl, hup, hk⟩ := h
  induction names using List.reverseRecOn with
  | nil =>
      rw [List.append_nil]
      induction k with
      | zero => rfl
      | succ k ih =>
          cases rooted with
          | true => exact absurd (hk rfl) (Nat.succ_ne_zero k)
          | false =>
              have hprev : reduce up false (List.replicate k up) =
                  some (List.replicate k up) := ih (by simp)
              have hlast : ∀ top, (List.replicate k up).getLast? = some top → top = up :=
                fun top ht => List.eq_of_mem_replicate (List.mem_of_getLast? ht)
              rw [List.replicate_succ', reduce_concat, hprev, Option.bind_some, push,
                if_pos rfl]
              cases ht : (List.replicate k up).getLast? with
              | none => simp
              | some top => simp [hlast top ht]
  | append_singleton names c ih =>
      have hc : c ≠ up := fun he => hup (by simp [he])
      rw [← List.append_assoc, reduce_concat,
        ih (fun hm => hup (List.mem_append_left _ hm)), Option.bind_some, push, if_neg hc]
where
  reduce_concat {rooted : Bool} (cs : List α) (c : α) :
      reduce up rooted (cs ++ [c]) = (reduce up rooted cs).bind (push up rooted · c) := by
    simp [reduce, List.foldlM_append]

/-! ## Reduction as cancellation -/

/-- One pair of an ordinary component and the `up` after it is struck out. -/
inductive Cancels (up : α) : List α → List α → Prop
  | pair (before : List α) {x : α} (after : List α) (h : x ≠ up) :
      Cancels up (before ++ x :: up :: after) (before ++ after)

/-- Nothing is left to cancel in a reduced path. -/
theorem Reduced.not_cancels {up : α} {rooted : Bool} {cs next : List α}
    (h : Reduced up rooted cs) : ¬ Cancels up cs next := by
  rintro ⟨before, after, hx⟩
  rename_i x
  have hpre : before ++ [x] <+: before ++ x :: up :: after := ⟨up :: after, by simp⟩
  have hmem : up ∈ (before ++ x :: up :: after).drop (before ++ [x]).length := by
    rw [show before ++ x :: up :: after = (before ++ [x]) ++ up :: after by simp, List.drop_left]
    exact List.mem_cons_self
  exact hx (((h.up_mem_drop_iff hpre).mp hmem).1 x (by simp))

theorem Cancels.sublist {up : α} {cs next : List α} (h : Cancels up cs next) :
    List.Sublist next cs := by
  obtain ⟨before, after, -⟩ := h
  refine (List.Sublist.refl before).append ?_
  exact ((List.Sublist.refl after).cons _).cons _

/-- What is kept is what cancelling pairs leaves. -/
theorem reduce_cancels [DecidableEq α] {up : α} {rooted : Bool} {cs out : List α}
    (h : reduce up rooted cs = some out) : Relation.ReflTransGen (Cancels up) cs out := by
  suffices go : ∀ (cs kept : List α), cs.foldlM (push up rooted) kept = some out →
      Relation.ReflTransGen (Cancels up) (kept ++ cs) out from go cs [] h
  intro cs
  induction cs with
  | nil =>
      intro kept hout
      obtain rfl : kept = out := by simpa using hout
      rw [List.append_nil]
  | cons c cs ih =>
      intro kept hout
      rw [List.foldlM_cons] at hout
      obtain ⟨kept', hpush, hrest⟩ := Option.bind_eq_some_iff.mp hout
      refine Relation.ReflTransGen.trans ?_ (ih kept' hrest)
      rcases push_eq_some hpush with rfl | ⟨x, hx, rfl, rfl⟩
      · rw [List.append_assoc, List.singleton_append]
      · rw [List.append_assoc]
        exact Relation.ReflTransGen.single (.pair kept' cs hx)
where
  push_eq_some {kept kept' : List α} {c : α} (h : push up rooted kept c = some kept') :
      kept' = kept ++ [c] ∨ ∃ x, x ≠ up ∧ c = up ∧ kept = kept' ++ [x] := by
    unfold push at h
    split at h
    · rename_i hc
      subst hc
      split at h
      · rename_i top htop
        split at h
        · split at h
          · cases h
          · exact Or.inl (Option.some_inj.mp h).symm
        · rename_i hne
          obtain rfl := Option.some_inj.mp h
          exact Or.inr ⟨top, hne, rfl, (List.dropLast_append_getLast? top htop).symm⟩
      · split at h
        · cases h
        · exact Or.inl (Option.some_inj.mp h).symm
    · exact Or.inl (Option.some_inj.mp h).symm

theorem sublist_of_cancels {up : α} {cs out : List α}
    (h : Relation.ReflTransGen (Cancels up) cs out) : List.Sublist out cs := by
  induction h with
  | refl => exact List.Sublist.refl _
  | tail _ hstep ih => exact hstep.sublist.trans ih

/-- An unrooted path can always be reduced. -/
theorem reduce_unrooted_isSome [DecidableEq α] (up : α) (cs : List α) :
    (reduce up false cs).isSome := by
  suffices go : ∀ (cs kept : List α), (cs.foldlM (push up false) kept).isSome from go cs []
  intro cs
  induction cs with
  | nil => exact fun _ => rfl
  | cons c cs ih =>
      intro kept
      have hpush : ∃ kept', push up false kept c = some kept' := by
        unfold push
        split
        · split
          · split <;> simp
          · simp
        · simp
      obtain ⟨kept', hkept'⟩ := hpush
      rw [List.foldlM_cons, hkept']
      exact ih kept'

theorem beginning_cons_iff [BEq α] [LawfulBEq α] {up c : α} {cs kept kept' : List α}
    (h : ∀ before : List α, kept.length + (c :: before).length < 2 * (c :: before).count up ↔
      kept'.length + before.length < 2 * before.count up) :
    (∃ before, before <+: c :: cs ∧ kept.length + before.length < 2 * before.count up) ↔
      ∃ before, before <+: cs ∧ kept'.length + before.length < 2 * before.count up := by
  constructor
  · rintro ⟨before, hpre, hlt⟩
    rcases List.prefix_cons_iff.mp hpre with rfl | ⟨tail, rfl, htail⟩
    · simp at hlt
    · exact ⟨tail, htail, (h tail).mp hlt⟩
  · rintro ⟨before, hpre, hlt⟩
    exact ⟨c :: before, by simpa using hpre, (h before).mpr hlt⟩

/-- **A rooted path fails where it climbs above the root**: some beginning of
it has more `up`s than other components. -/
theorem reduce_rooted_eq_none_iff [DecidableEq α] [BEq α] [LawfulBEq α] {up : α} {cs : List α} :
    reduce up true cs = none ↔ ∃ before, before <+: cs ∧ before.length < 2 * before.count up := by
  suffices go : ∀ (cs kept : List α), up ∉ kept →
      (cs.foldlM (push up true) kept = none ↔
        ∃ before, before <+: cs ∧ kept.length + before.length < 2 * before.count up) by
    simpa [reduce] using go cs [] (by simp)
  intro cs
  induction cs with
  | nil =>
      intro kept _
      simp
  | cons c cs ih =>
      intro kept hkept
      rw [List.foldlM_cons]
      by_cases hc : c = up
      · subst hc
        rcases List.eq_nil_or_concat kept with rfl | ⟨init, top, rfl⟩
        · refine iff_of_true ?_ ⟨[c], by simp, by simp⟩
          have hpush : push c true [] c = none := by simp [push]
          rw [hpush]
          rfl
        · rw [List.concat_eq_append] at hkept ⊢
          -- a step up takes the last component that is kept
          have htop : top ≠ c := fun he => hkept (by simp [he])
          have hpush : push c true (init ++ [top]) c = some init := by
            simp [push, htop]
          rw [hpush]
          refine (ih init fun hm => hkept (List.mem_append_left _ hm)).trans ?_
          refine (beginning_cons_iff ?_).symm
          intro before
          rw [List.length_append, List.length_singleton, List.length_cons, List.count_cons_self]
          omega
      · have hpush : push up true kept c = some (kept ++ [c]) := by simp [push, hc]
        rw [hpush]
        refine (ih (kept ++ [c]) ?_).trans ?_
        · simp only [List.mem_append, List.mem_singleton, not_or]
          exact ⟨hkept, fun he => hc he.symm⟩
        · refine (beginning_cons_iff ?_).symm
          intro before
          rw [List.length_append, List.length_singleton, List.length_cons,
            List.count_cons_of_ne hc]
          omega

/-- Reduction only removes components. -/
theorem mem_of_mem_reduce [DecidableEq α] {up : α} {rooted : Bool}
    {cs out : List α} {c : α} (h : reduce up rooted cs = some out)
    (hc : c ∈ out) : c ∈ cs :=
  (sublist_of_cancels (reduce_cancels h)).subset hc

/-! ## How far a path climbs -/

theorem push_names [DecidableEq α] {up : α} {rooted : Bool} : ∀ (names kept : List α),
    up ∉ names → names.foldlM (push up rooted) kept = some (kept ++ names) := by
  intro names
  induction names with
  | nil =>
      intro kept _
      simp
  | cons c names ih =>
      intro kept hup
      simp only [List.mem_cons, not_or] at hup
      rw [List.foldlM_cons, push, if_neg (Ne.symm hup.1)]
      have := ih (kept ++ [c]) hup.2
      rwa [List.append_assoc, List.singleton_append] at this

section Count

variable [BEq α] [LawfulBEq α] {up : α} {rooted : Bool}

theorem count_replicate_append {names : List α} (k : ℕ) (hup : up ∉ names) :
    (List.replicate k up ++ names).count up = k := by
  rw [List.count_append, List.count_replicate_self, List.count_eq_zero_of_not_mem hup,
    Nat.add_zero]

/-- The `up`s of a reduced path come first. -/
theorem Reduced.getElem?_eq_up_iff {cs : List α} (h : Reduced up rooted cs) (n : ℕ) :
    cs[n]? = some up ↔ n < cs.count up := by
  obtain ⟨k, names, rfl, hup, -⟩ := h
  rw [count_replicate_append k hup]
  by_cases hn : n < k
  · rw [List.getElem?_append_left (by simpa using hn)]
    simp [hn]
  · refine iff_of_false (fun hget => hup ?_) hn
    rw [List.getElem?_append_right (by simpa using hn)] at hget
    exact List.mem_of_getElem? hget

/-- Pushing `up` takes a name away, or makes one more `up`. -/
theorem Reduced.count_push_up [DecidableEq α] {kept kept' : List α} (h : Reduced up false kept)
    (hp : push up false kept up = some kept') :
    (kept.count up < kept.length ∧ kept'.count up = kept.count up ∧
        kept'.length + 1 = kept.length) ∨
      (kept.count up = kept.length ∧ kept'.count up = kept.count up + 1 ∧
        kept'.length = kept.length + 1) := by
  obtain ⟨k, names, rfl, hup, -⟩ := h
  rw [count_replicate_append k hup]
  rcases List.eq_nil_or_concat names with rfl | ⟨init, last, rfl⟩
  · refine Or.inr ⟨by simp, ?_⟩
    have hlast : ∀ top, (List.replicate k up).getLast? = some top → top = up :=
      fun top ht => List.eq_of_mem_replicate (List.mem_of_getLast? ht)
    have hout : kept' = List.replicate k up ++ [up] := by
      rw [List.append_nil, push, if_pos rfl] at hp
      cases ht : (List.replicate k up).getLast? with
      | none => simpa [ht] using hp.symm
      | some top => simpa [ht, hlast top ht] using hp.symm
    simp [hout]
  · rw [List.concat_eq_append] at hp hup ⊢
    have hne : last ≠ up := fun he => hup (by simp [he])
    have hout : kept' = List.replicate k up ++ init := by
      rw [← List.append_assoc, push, if_pos rfl, List.getLast?_concat] at hp
      simpa [hne, ← List.append_assoc] using hp.symm
    subst hout
    refine Or.inl ⟨by simp, ?_, by simp; omega⟩
    exact count_replicate_append k fun hm => hup (List.mem_append_left _ hm)

/-- **What climbs out.** Following a path that climbs `rel.count up` levels
from `base` first takes the names of `base` away; only the levels beyond them
are kept as `up`s. -/
theorem count_reduce_append [DecidableEq α] {base rel out : List α}
    (hbase : Reduced up false base) (hrel : Reduced up false rel)
    (h : reduce up false (base ++ rel) = some out) :
    out.count up = base.count up + (rel.count up - (base.length - base.count up)) := by
  obtain ⟨b, names, rfl, hup, -⟩ := hrel
  rw [count_replicate_append b hup]
  have hstart : (List.replicate b up ++ names).foldlM (push up false) base = some out := by
    have hreduced := hbase.reduce_eq
    unfold reduce at h hreduced
    rw [List.foldlM_append, hreduced] at h
    exact h
  clear h
  induction b generalizing base with
  | zero =>
      rw [List.replicate_zero, List.nil_append, push_names names base hup,
        Option.some.injEq] at hstart
      rw [← hstart, List.count_append, List.count_eq_zero_of_not_mem hup]
      omega
  | succ b ih =>
      rw [List.replicate_succ, List.cons_append, List.foldlM_cons] at hstart
      obtain ⟨kept, hpush, hrest⟩ := Option.bind_eq_some_iff.mp hstart
      have hcount := ih (push_reduced hbase hpush) hrest
      rcases hbase.count_push_up hpush with ⟨hlt, hsame, hlen⟩ | ⟨hfull, hmore, hlen⟩
      · omega
      · omega

end Count

end LexicalPath
