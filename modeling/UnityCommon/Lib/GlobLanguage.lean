import Mathlib.Computability.Language

/-!
# Languages of wildcard patterns

A pattern is a sequence of tokens, each with a language: one letter, any letter,
a letter of a class, any string. Its language is their product. Membership is
decided one token at a time, from a row that tells of each prefix of a text
whether it belongs to the tokens so far.
-/

namespace GlobLanguage

variable {α : Type}

inductive Token (α : Type) where
  | literal (letter : α)
  | any
  | star
  /-- A letter of one of the inclusive ranges, or of none. -/
  | cls (negated : Bool) (ranges : List (α × α))
deriving DecidableEq, Repr

variable [LE α]

/-- The letter lies in one of the ranges. -/
def InRanges (ranges : List (α × α)) (letter : α) : Prop :=
  ∃ range ∈ ranges, range.1 ≤ letter ∧ letter ≤ range.2

/-- The letters that a token stands for, where it stands for one letter. -/
def Token.Accepts : Token α → α → Prop
  | .literal letter, x => x = letter
  | .any, _ => True
  | .star, _ => False
  | .cls negated ranges, x => if negated then ¬ InRanges ranges x else InRanges ranges x

def Token.language : Token α → Language α
  | .star => Set.univ
  | token => { word | ∃ x, token.Accepts x ∧ word = [x] }

/-- The language of a pattern. -/
def language (tokens : List (Token α)) : Language α := (tokens.map Token.language).prod

theorem language_nil : language ([] : List (Token α)) = 1 := rfl

theorem language_append (tokens more : List (Token α)) :
    language (tokens ++ more) = language tokens * language more := by
  rw [language, List.map_append, List.prod_append]
  rfl

theorem language_singleton (token : Token α) : language [token] = token.language := by
  rw [language, List.map_singleton, List.prod_singleton]

/-- **A run of stars is one star.** -/
theorem language_replicate_star (count : ℕ) :
    language (List.replicate (count + 1) (Token.star : Token α)) = (Set.univ : Set (List α)) := by
  induction count with
  | zero => exact language_singleton .star
  | succ count ih =>
      rw [List.replicate_succ, ← List.singleton_append, language_append, ih, language_singleton]
      refine Set.eq_univ_of_forall fun word => ?_
      exact Language.mem_mul.mpr ⟨[], trivial, word, trivial, rfl⟩

/-! ## One more token -/

section Rows

variable {text : List α} {tokens : List (Token α)}

/-- What a row says of the prefix of length `i`. -/
def Prefixed (tokens : List (Token α)) (text : List α) (i : ℕ) : Prop :=
  text.take i ∈ language tokens

theorem prefixed_nil_iff {i : ℕ} (hi : i ≤ text.length) :
    Prefixed ([] : List (Token α)) text i ↔ i = 0 := by
  rw [Prefixed, language_nil, Language.mem_one, List.take_eq_nil_iff]
  constructor
  · rintro (rfl | rfl)
    · rfl
    · exact Nat.le_zero.mp hi
  · exact Or.inl

theorem mem_append_iff {word : List α} (more : List (Token α)) :
    word ∈ language (tokens ++ more) ↔
      ∃ i ≤ word.length, word.take i ∈ language tokens ∧ word.drop i ∈ language more := by
  rw [language_append, Language.mem_mul]
  constructor
  · rintro ⟨front, hfront, back, hback, rfl⟩
    refine ⟨front.length, by simp, ?_⟩
    rw [List.take_left, List.drop_left]
    exact ⟨hfront, hback⟩
  · rintro ⟨i, -, hfront, hback⟩
    exact ⟨_, hfront, _, hback, List.take_append_drop i word⟩

/-- A token for one letter never ends at the start of the text. -/
theorem not_prefixed_zero {token : Token α} (hone : token ≠ .star) :
    ¬ Prefixed (tokens ++ [token]) text 0 := by
  rw [Prefixed, List.take_zero, mem_append_iff, language_singleton]
  rintro ⟨i, -, -, hback⟩
  rw [List.drop_nil] at hback
  cases token with
  | star => exact hone rfl
  | literal letter =>
      obtain ⟨x, -, h⟩ := hback
      cases h
  | any =>
      obtain ⟨x, -, h⟩ := hback
      cases h
  | cls negated ranges =>
      obtain ⟨x, -, h⟩ := hback
      cases h

theorem mem_language_of_ne_star {token : Token α} (hone : token ≠ .star) {word : List α} :
    word ∈ token.language ↔ ∃ x, token.Accepts x ∧ word = [x] := by
  cases token with
  | star => exact absurd rfl hone
  | literal letter => exact Iff.rfl
  | any => exact Iff.rfl
  | cls negated ranges => exact Iff.rfl

/-- **A token for one letter** takes the prefix one letter further. -/
theorem prefixed_succ_iff {token : Token α} (hone : token ≠ .star) {i : ℕ} {x : α}
    (hx : text[i]? = some x) :
    Prefixed (tokens ++ [token]) text (i + 1) ↔ Prefixed tokens text i ∧ token.Accepts x := by
  have hi : i < text.length := (List.getElem?_eq_some_iff.mp hx).1
  have htake : text.take (i + 1) = text.take i ++ [x] := by
    rw [List.take_add_one, hx, Option.toList_some]
  rw [Prefixed, language_append, Language.mem_mul, language_singleton, htake]
  constructor
  · rintro ⟨front, hfront, back, hback, heq⟩
    obtain ⟨y, hy, rfl⟩ := (mem_language_of_ne_star hone).mp hback
    obtain ⟨rfl, hlast⟩ := List.append_inj' heq rfl
    cases hlast
    exact ⟨hfront, hy⟩
  · rintro ⟨hfront, hy⟩
    exact ⟨_, hfront, [x], (mem_language_of_ne_star hone).mpr ⟨x, hy, rfl⟩, rfl⟩

/-- **A run of stars** may end where the tokens before it end, or one letter
after it ended already. -/
theorem prefixed_stars_zero (count : ℕ) :
    Prefixed (tokens ++ List.replicate (count + 1) .star) text 0 ↔ Prefixed tokens text 0 := by
  rw [Prefixed, Prefixed, List.take_zero, mem_append_iff]
  constructor
  · rintro ⟨i, -, hfront, -⟩
    rwa [List.take_nil] at hfront
  · intro hfront
    refine ⟨0, Nat.zero_le _, hfront, ?_⟩
    rw [language_replicate_star]
    trivial

theorem prefixed_stars_succ (count : ℕ) {i : ℕ} (hi : i < text.length) :
    Prefixed (tokens ++ List.replicate (count + 1) .star) text (i + 1) ↔
      Prefixed tokens text (i + 1) ∨
        Prefixed (tokens ++ List.replicate (count + 1) .star) text i := by
  have hwhole : ∀ word : List α, word ∈ language (tokens ++ List.replicate (count + 1) .star) ↔
      ∃ j ≤ word.length, word.take j ∈ language tokens := by
    intro word
    rw [mem_append_iff, language_replicate_star]
    exact exists_congr fun j => and_congr_right fun _ => and_iff_left trivial
  have hlength : (text.take (i + 1)).length = i + 1 := by
    rw [List.length_take]
    omega
  have hlength' : (text.take i).length = i := by
    rw [List.length_take]
    omega
  rw [Prefixed, Prefixed, Prefixed, hwhole, hwhole, hlength, hlength']
  constructor
  · rintro ⟨j, hj, hmem⟩
    rcases Nat.eq_or_lt_of_le hj with rfl | hlt
    · rw [List.take_of_length_le (by omega)] at hmem
      exact Or.inl hmem
    · refine Or.inr ⟨j, by omega, ?_⟩
      rw [List.take_take, Nat.min_eq_left (by omega)] at hmem ⊢
      exact hmem
  · rintro (hmem | ⟨j, hj, hmem⟩)
    · exact ⟨i + 1, le_rfl, by rwa [List.take_of_length_le (by omega)]⟩
    · refine ⟨j, by omega, ?_⟩
      rw [List.take_take, Nat.min_eq_left (by omega)] at hmem ⊢
      exact hmem

/-- The last cell of the row decides. -/
theorem prefixed_length : Prefixed tokens text text.length ↔ text ∈ language tokens := by
  rw [Prefixed, List.take_length]

end Rows

end GlobLanguage
