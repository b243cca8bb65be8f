import Mathlib.Data.List.Infix
import Mathlib.Order.Bounds.Basic
import UnityCommon.Lib.PrefixFree

/-!
# Prefix codes

Words no two of which start the same text. A text is a concatenation of words in
one way at most, and reading words off the front of a text until none is there
reads the longest front that is such a concatenation.
-/

variable {α β : Type}

structure PrefixCode (word : α → List β) : Prop where
  word_ne_nil : ∀ a, word a ≠ []
  prefixFree : PrefixFree (fun _ => True) word

namespace PrefixCode

variable {word : α → List β} {text : List β}

theorem eq_of_isPrefix (h : PrefixCode word) {a b : α} (ha : word a <+: text)
    (hb : word b <+: text) : a = b := by
  obtain ⟨r, rfl⟩ := ha
  obtain ⟨s, heq⟩ := hb
  exact (h.prefixFree a b r s trivial trivial heq.symm).1

/-- Of two fronts of one text that are concatenations, one continues the other. -/
theorem comparable (h : PrefixCode word) : ∀ {as bs : List α} {text : List β},
    as.flatMap word <+: text → bs.flatMap word <+: text → as <+: bs ∨ bs <+: as
  | [], _, _, _, _ => Or.inl List.nil_prefix
  | _ :: _, [], _, _, _ => Or.inr List.nil_prefix
  | a :: as, b :: bs, text, ha, hb => by
      rw [List.flatMap_cons] at ha hb
      obtain rfl := h.eq_of_isPrefix ((List.prefix_append _ _).trans ha)
        ((List.prefix_append _ _).trans hb)
      obtain ⟨rest, rfl⟩ := (List.prefix_append _ _).trans ha
      rw [List.prefix_append_right_inj] at ha hb
      exact (h.comparable ha hb).imp (List.cons_prefix_cons.mpr ⟨rfl, ·⟩)
        (List.cons_prefix_cons.mpr ⟨rfl, ·⟩)

theorem flatMap_eq_nil_iff (h : PrefixCode word) {as : List α} :
    as.flatMap word = [] ↔ as = [] := by
  rw [List.flatMap_eq_nil_iff, List.eq_nil_iff_forall_not_mem]
  exact forall_congr' fun a => ⟨fun ha hmem => h.word_ne_nil a (ha hmem), fun ha hmem => absurd hmem ha⟩

/-- **A concatenation is one of a single list.** -/
theorem flatMap_injective (h : PrefixCode word) :
    Function.Injective fun as : List α => as.flatMap word := by
  intro as bs heq
  dsimp only at heq
  rcases h.comparable (heq ▸ List.prefix_rfl : as.flatMap word <+: bs.flatMap word)
    List.prefix_rfl with ⟨more, rfl⟩ | ⟨more, rfl⟩
  · rw [List.flatMap_append, List.self_eq_append_right, h.flatMap_eq_nil_iff] at heq
    rw [heq, List.append_nil]
  · rw [List.flatMap_append, List.append_right_eq_self, h.flatMap_eq_nil_iff] at heq
    rw [heq, List.append_nil]

/-- The front of so many symbols is a concatenation of words. -/
def Spelled (word : α → List β) (text : List β) (n : ℕ) : Prop :=
  n ≤ text.length ∧ ∃ as : List α, text.take n = as.flatMap word

/-- No word starts at the front's end. -/
def Stuck (word : α → List β) (text : List β) (n : ℕ) : Prop :=
  Spelled word text n ∧ ∀ a, ¬ word a <+: text.drop n

/-- A spelled front that ends before another one is followed by a word. -/
theorem exists_word_of_lt (h : PrefixCode word) {n m : ℕ}
    (hn : Spelled word text n) (hm : Spelled word text m) (hlt : n < m) : ∃ a, word a <+: text.drop n := by
  obtain ⟨hle, as, has⟩ := hn
  obtain ⟨hle', bs, hbs⟩ := hm
  have hlen := congrArg List.length has
  have hlen' := congrArg List.length hbs
  rw [List.length_take, Nat.min_eq_left hle] at hlen
  rw [List.length_take, Nat.min_eq_left hle'] at hlen'
  rcases h.comparable (has ▸ List.take_prefix n text) (hbs ▸ List.take_prefix m text) with
    ⟨more, rfl⟩ | ⟨more, rfl⟩
  · cases more with
    | nil =>
        rw [List.append_nil] at hlen'
        omega
    | cons a more =>
        refine ⟨a, ?_⟩
        have hsplit := List.take_append_drop m text
        rw [hbs, List.flatMap_append, ← has, List.flatMap_cons, List.append_assoc,
          List.append_assoc] at hsplit
        have hdrop : text.drop n = word a ++ (more.flatMap word ++ text.drop m) := by
          have hboth := hsplit.trans (List.take_append_drop n text).symm
          exact (List.append_cancel_left hboth).symm
        rw [hdrop]
        exact List.prefix_append _ _
  · rw [List.flatMap_append, List.length_append] at hlen
    omega

/-- **Where a reader is stuck it has read the longest front.** -/
theorem Stuck.isGreatest (h : PrefixCode word) {n : ℕ} (hn : Stuck word text n) :
    IsGreatest {m | Spelled word text m} n := by
  refine ⟨hn.1, fun m hm => ?_⟩
  by_contra hlt
  obtain ⟨a, ha⟩ := h.exists_word_of_lt hn.1 hm (Nat.lt_of_not_le hlt)
  exact hn.2 a ha

theorem Stuck.unique (h : PrefixCode word) {n m : ℕ} (hn : Stuck word text n)
    (hm : Stuck word text m) : n = m :=
  (hn.isGreatest h).unique (hm.isGreatest h)

theorem Spelled.zero (word : α → List β) (text : List β) : Spelled word text 0 :=
  ⟨Nat.zero_le _, [], by simp⟩

/-- A word behind a spelled front makes it longer. -/
theorem Spelled.extend {n : ℕ} (hn : Spelled word text n) {a : α}
    (ha : word a <+: text.drop n) : Spelled word text (n + (word a).length) := by
  obtain ⟨hle, as, has⟩ := hn
  obtain ⟨rest, hrest⟩ := ha
  have hlen := congrArg List.length hrest
  rw [List.length_append, List.length_drop] at hlen
  refine ⟨by omega, as ++ [a], ?_⟩
  rw [List.take_add, has, ← hrest, List.take_left, List.flatMap_append, List.flatMap_singleton]

/-- The whole text is a concatenation. -/
theorem Spelled.length_iff : Spelled word text text.length ↔ ∃ as : List α, text = as.flatMap word := by
  rw [Spelled, List.take_length]
  exact ⟨fun h => h.2, fun h => ⟨le_rfl, h⟩⟩

end PrefixCode
