import Mathlib.Data.List.Basic
import Mathlib.Tactic.Common

/-!
# Encodings that end where they say

An encoding is prefix free on a set of values when an encoded value can be
cancelled from the front of a sequence without losing its end. Fixed widths and
length prefixes are, and concatenation keeps it.
-/

variable {α β γ : Type}

/-- Two good values whose encodings start one sequence are one value. -/
def PrefixFree (good : α → Prop) (encode : α → List β) : Prop :=
  ∀ a b r s, good a → good b → encode a ++ r = encode b ++ s → a = b ∧ r = s

namespace PrefixFree

variable {good : α → Prop} {encode : α → List β}

/-- **A fixed width.** -/
theorem of_length (width : ℕ) (hlength : ∀ a, good a → (encode a).length = width)
    (hinjective : ∀ a b, good a → good b → encode a = encode b → a = b) :
    PrefixFree good encode := by
  intro a b r s ha hb heq
  obtain ⟨hfront, hrest⟩ := List.append_inj heq ((hlength a ha).trans (hlength b hb).symm)
  exact ⟨hinjective a b ha hb hfront, hrest⟩

/-- **A length, then the contents.** -/
theorem sized {goodLength : ℕ → Prop} {size : ℕ → List β} (hsize : PrefixFree goodLength size) :
    PrefixFree (fun contents : List β => goodLength contents.length)
      fun contents => size contents.length ++ contents := by
  intro a b r s ha hb heq
  rw [List.append_assoc, List.append_assoc] at heq
  obtain ⟨hlength, hrest⟩ := hsize _ _ _ _ ha hb heq
  exact List.append_inj hrest hlength

/-- As many values on both sides. It is enough that the values of one side can
be cancelled. -/
theorem flatMap_cancel : ∀ {as bs : List α} {r s : List β}, as.length = bs.length →
    (∀ a ∈ as, ∀ b ∈ bs, ∀ r s, encode a ++ r = encode b ++ s → a = b ∧ r = s) →
    as.flatMap encode ++ r = bs.flatMap encode ++ s → as = bs ∧ r = s
  | [], [], _, _, _, _, heq => ⟨rfl, heq⟩
  | a :: as, b :: bs, r, s, hlength, hcancel, heq => by
      rw [List.flatMap_cons, List.flatMap_cons, List.append_assoc, List.append_assoc] at heq
      obtain ⟨rfl, hrest⟩ := hcancel a List.mem_cons_self b List.mem_cons_self _ _ heq
      obtain ⟨rfl, hlast⟩ := flatMap_cancel (Nat.succ_inj.mp hlength)
        (fun x hx y hy => hcancel x (List.mem_cons_of_mem a hx) y (List.mem_cons_of_mem a hy)) hrest
      exact ⟨rfl, hlast⟩

/-- **A count, then the values.** -/
theorem counted {goodLength : ℕ → Prop} {count : ℕ → List β}
    (hcount : PrefixFree goodLength count) (h : PrefixFree good encode) :
    PrefixFree (fun values : List α => goodLength values.length ∧ ∀ a ∈ values, good a)
      fun values => count values.length ++ values.flatMap encode := by
  rintro as bs r s ⟨ha, has⟩ ⟨hb, hbs⟩ heq
  rw [List.append_assoc, List.append_assoc] at heq
  obtain ⟨hlength, hrest⟩ := hcount _ _ _ _ ha hb heq
  exact flatMap_cancel hlength (fun a hmem b hmem' r s => h a b r s (has a hmem) (hbs b hmem')) hrest

/-- A value read as another. -/
theorem comap (h : PrefixFree good encode) (f : γ → α) (hf : Function.Injective f) :
    PrefixFree (good ∘ f) (encode ∘ f) := by
  intro a b r s ha hb heq
  obtain ⟨hab, hrs⟩ := h (f a) (f b) r s ha hb heq
  exact ⟨hf hab, hrs⟩

end PrefixFree
