import UnityCommon.PPtr.Walk
import Mathlib.Data.List.Flatten

/-!
# When normalization is lexical

`normalize_path` fails where the lexical reduction does, and its outputs are its
own fixed points. Its text spells the reduction, and tells two of them apart,
only where the two rules about `:` have nothing to act on: no separator is
written after that byte, and two bytes that end in it get a `.`.
-/

namespace UnityCommon.PPtr

open LexicalPath

/-! ## The statement -/

/-- A `..` climbs above the root of an absolute pathname. -/
def ClimbsAboveRoot (input : Text) : Prop :=
  isAbsolute input = true ∧
    ∃ before, before <+: names input ∧ before.length < 2 * before.count dotDotText

/-- The components that spell a path; `.` alone when nothing is left. -/
def spelling (absolute : Bool) (parts : List Text) : List Text :=
  if parts = [] ∧ absolute = false then [dotText] else parts

/-- What lexical normalization of a pathname is. -/
structure NormalizesLexically (input : Text) : Prop where
  fails_iff : normalizePath input = none ↔
    input = [] ∨ maxLocatorBytes < input.length ∨ ClimbsAboveRoot input
  absolute : ∀ p, normalizePath input = some p → p.absolute = isAbsolute input
  spelled : ∀ p, normalizePath input = some p → ∃ kept,
    lexicalComponents input = some kept ∧
      Relation.ReflTransGen (Cancels dotDotText) (names input) kept ∧
      (∀ next, ¬ Cancels dotDotText kept next) ∧
      components p.text = spelling (isAbsolute input) kept
  fixed : ∀ p, normalizePath input = some p → normalizePath p.text = some p

/-- Two pathnames are normalized lexically and compared by what they reduce to. -/
structure ComparesLexically (left right : Text) : Prop where
  leftLexical : NormalizesLexically left
  rightLexical : NormalizesLexically right
  equal_iff : ∀ p q, normalizePath left = some p → normalizePath right = some q →
    (normalizedEqual p q = true ↔
      isAbsolute left = isAbsolute right ∧ lexicalComponents left = lexicalComponents right)

/-- The pathname can be normalized only to components of which none but the last
ends in `:`, and which are not written in two bytes with a `:` at the end. -/
def ColonsAreLast (input : Text) : Prop :=
  input.length ≤ maxLocatorBytes → ∀ kept, lexicalComponents input = some kept →
    (∀ c ∈ kept.dropLast, c.getLast? ≠ some colon) ∧
      ¬ ((slashText (isAbsolute input) kept).length = 2 ∧
        (slashText (isAbsolute input) kept)[1]? = some colon)

/-! ## Failure -/

theorem lexicalComponents_eq_none_iff {input : Text} :
    lexicalComponents input = none ↔ ClimbsAboveRoot input := by
  unfold lexicalComponents ClimbsAboveRoot
  cases isAbsolute input with
  | true =>
      rw [reduce_rooted_eq_none_iff]
      simp
  | false =>
      have hsome := reduce_unrooted_isSome dotDotText (names input)
      refine iff_of_false (fun hnone => ?_) (by simp)
      rw [hnone] at hsome
      cases hsome

theorem normalizePath_eq_none_iff {input : Text} :
    normalizePath input = none ↔
      input = [] ∨ maxLocatorBytes < input.length ∨ ClimbsAboveRoot input := by
  rw [normalizePath_eq, ← lexicalComponents_eq_none_iff, ← List.length_eq_zero_iff, ← or_assoc]
  split
  · rename_i hlen
    exact iff_of_true rfl (Or.inl hlen)
  · rename_i hlen
    rw [Option.map_eq_none_iff, or_iff_right hlen]

/-! ## Outputs are fixed points -/

/-- Bytes and separators of a component list. -/
def weight (parts : List Text) : ℕ := parts.flatten.length + parts.length

theorem weight_concat (parts : List Text) (c : Text) :
    weight (parts ++ [c]) = weight parts + c.length + 1 := by
  simp [weight]
  omega

theorem weight_mono {parts more : List Text} (h : List.Sublist parts more) :
    weight parts ≤ weight more :=
  Nat.add_le_add h.flatten.length_le h.length_le

theorem weight_splitOn (input : Text) : weight (input.splitOn slash) = input.length + 1 := by
  have hne := List.splitOn_ne_nil slash input
  have hjoin : [slash].intercalate (input.splitOn slash) = input := List.intercalate_splitOn slash
  conv_rhs => rw [← hjoin]
  clear hjoin
  generalize input.splitOn slash = parts at hne
  induction parts with
  | nil => exact absurd rfl hne
  | cons c parts ih =>
      cases parts with
      | nil => simp [weight]
      | cons d parts =>
          have hrest := ih (by simp)
          rw [List.intercalate_cons_cons]
          simp only [weight, List.flatten_cons, List.length_append, List.length_cons,
            List.length_nil] at hrest ⊢
          omega

theorem weight_components_le (input : Text) : weight (components input) ≤ input.length + 1 := by
  have hsub : List.Sublist (components input) (input.splitOn slash) := List.filter_sublist
  exact (weight_mono hsub).trans (weight_splitOn input).le

/-- An absolute pathname spends its first byte on no component. -/
theorem weight_components (input : Text) :
    weight (components input) ≤ input.length + (if isAbsolute input then 0 else 1) := by
  cases hin : isAbsolute input with
  | false => exact weight_components_le input
  | true =>
      cases input with
      | nil => cases hin
      | cons b input =>
          obtain rfl : b = slash := by simpa [isAbsolute] using hin
          have hcomponents : components (slash :: input) = components input := by
            simp [components, List.splitOn_cons_eq_if_modifyHead]
          rw [hcomponents]
          exact weight_components_le input

theorem length_appendComponent_le (output c : Text) :
    (appendComponent output c).length ≤
      output.length + c.length + (if output = [] then 0 else 1) := by
  unfold appendComponent
  cases hlast : output.getLast? with
  | none => simp [List.getLast?_eq_none_iff.mp hlast]
  | some last =>
      have hne : output ≠ [] := by
        rintro rfl
        cases hlast
      rw [if_neg hne]
      dsimp only
      split
      · rw [List.length_append, List.length_cons]
        omega
      · rw [List.length_append]
        omega

/-- Nothing is written that was not read. -/
theorem length_renderComponents_le (absolute : Bool) (kept : List Text) (hne : kept ≠ []) :
    (renderComponents absolute kept).length + 1 ≤ weight kept + (if absolute then 1 else 0) := by
  induction kept using List.reverseRecOn with
  | nil => exact absurd rfl hne
  | append_singleton kept c ih =>
      rw [renderComponents_concat, weight_concat]
      by_cases hnil : kept = []
      · subst hnil
        cases absolute <;> simp [renderComponents, trace, startNormalizing, appendComponent, weight]
      · have hstep := length_appendComponent_le (renderComponents absolute kept) c
        have hprev := ih hnil
        split at hstep <;> omega

theorem length_normalizePath_le {input : Text} {p : NormalizedPath}
    (h : normalizePath input = some p) : p.text.length ≤ maxLocatorBytes := by
  have hbound : input.length ≠ 0 ∧ input.length ≤ maxLocatorBytes := by
    rw [normalizePath_eq] at h
    split at h
    · cases h
    · rename_i hlen
      omega
  obtain ⟨kept, hkept, rfl⟩ := normalizePath_some h
  have hsub : List.Sublist kept (components input) :=
    (sublist_of_cancels (reduce_cancels hkept)).trans List.filter_sublist
  have hweight := (weight_mono hsub).trans (weight_components input)
  have hrender : (renderComponents (isAbsolute input) kept).length ≤ input.length := by
    by_cases hnil : kept = []
    · subst hnil
      cases isAbsolute input with
      | true => exact Nat.one_le_iff_ne_zero.mpr hbound.1
      | false => exact Nat.zero_le _
    · have := length_renderComponents_le (isAbsolute input) kept hnil
      cases hin : isAbsolute input <;> simp [hin] at this hweight ⊢ <;> omega
  dsimp only
  unfold finishOutput maxLocatorBytes at *
  split
  · decide
  · split
    · rename_i hdrive
      rw [List.length_append, hdrive.1]
      decide
    · omega

/-- No output is two bytes with a `:` at the end. -/
theorem finishOutput_not_drive (output : Text) :
    ¬ ((finishOutput output).length = 2 ∧ (finishOutput output)[1]? = some colon) := by
  unfold finishOutput
  split
  · decide
  · split
    · rename_i hdrive
      rintro ⟨hlen, -⟩
      rw [List.length_append, hdrive.1] at hlen
      exact absurd hlen (by decide)
    · assumption

/-- **Normalizing an output returns it unchanged**, for every input. -/
theorem normalizePath_fixed {input : Text} {p : NormalizedPath}
    (h : normalizePath input = some p) : normalizePath p.text = some p := by
  obtain ⟨kept, -, hp, hshape⟩ := normalizePath_kept h
  refine hshape.normalizePath_text (length_normalizePath_le h) ?_
  rw [hp]
  exact finishOutput_not_drive _

/-! ## The text as a spelling -/

theorem Shape.components_text {p : NormalizedPath} {parts : List Text} (h : Shape p parts) :
    components p.text = spelling p.absolute parts := by
  rw [h.text_eq]
  unfold normalText spelling
  split
  · rfl
  · exact components_slashText _ h.part_ok

theorem spelling_injective {absolute : Bool} {parts kept : List Text}
    (hparts : ∀ c ∈ parts, PartOk c) (hkept : ∀ c ∈ kept, PartOk c)
    (h : spelling absolute parts = spelling absolute kept) : parts = kept := by
  have hdot : ∀ cs : List Text, (∀ c ∈ cs, PartOk c) → cs ≠ [dotText] := by
    rintro cs hcs rfl
    exact (hcs dotText (by simp)).2.2 rfl
  unfold spelling at h
  split at h <;> split at h
  · rename_i hp hk
    rw [hp.1, hk.1]
  · exact absurd h.symm (hdot kept hkept)
  · exact absurd h (hdot parts hparts)
  · exact h

theorem glueAll_flatten (kept : List Text) : (glueAll kept).flatten = kept.flatten := by
  induction kept using List.reverseRecOn with
  | nil => rfl
  | append_singleton kept c ih =>
      rw [glueAll_concat, List.flatten_append, ← ih]
      unfold glue
      cases hlast : (glueAll kept).getLast? with
      | none => simp [List.getLast?_eq_none_iff.mp hlast]
      | some last =>
          dsimp only
          split
          · rw [List.flatten_append]
            conv_rhs => rw [← List.dropLast_append_getLast? last hlast]
            simp
          · rw [List.flatten_append]

/-- Gluing loses no byte, so the parts are the components only where nothing is
glued and nothing is added. -/
theorem finishParts_glueAll_eq_iff {absolute : Bool} {kept : List Text} :
    finishParts absolute (glueAll kept) = kept ↔
      (∀ c ∈ kept.dropLast, c.getLast? ≠ some colon) ∧
        ¬ ((slashText absolute kept).length = 2 ∧
          (slashText absolute kept)[1]? = some colon) := by
  constructor
  · intro h
    unfold finishParts at h
    split at h
    · rename_i hdrive
      cases hlast : (glueAll kept).getLast? with
      | none =>
          rw [List.getLast?_eq_none_iff.mp hlast] at hdrive
          cases absolute <;> simp [slashText] at hdrive
      | some last =>
          -- the `.` is one byte too many
          rw [hlast] at h
          have hflat := congrArg List.flatten h
          rw [← glueAll_flatten kept] at hflat
          conv_rhs at hflat => rw [← List.dropLast_append_getLast? last hlast]
          simp [dotText, ascii] at hflat
    · rename_i hdrive
      rw [h] at hdrive
      refine ⟨?_, hdrive⟩
      have := glueAll_glued kept
      rwa [h] at this
  · rintro ⟨hglued, hdrive⟩
    rw [glueAll_of_glued hglued]
    unfold finishParts
    rw [if_neg hdrive]

theorem lexicalComponents_of_normalizePath {input : Text} {p : NormalizedPath}
    (h : normalizePath input = some p) : ∃ kept parts, lexicalComponents input = some kept ∧
      parts = finishParts (isAbsolute input) (glueAll kept) ∧ (∀ c ∈ parts, PartOk c) ∧
      components p.text = spelling (isAbsolute input) parts := by
  obtain ⟨kept, hkept, hp, hshape⟩ := normalizePath_kept h
  refine ⟨kept, _, hkept, rfl, hshape.part_ok, ?_⟩
  rw [hshape.components_text, hp]

theorem normalizesLexically_iff {input : Text} :
    NormalizesLexically input ↔ ColonsAreLast input := by
  constructor
  · intro h hlen kept hkept
    rw [← finishParts_glueAll_eq_iff]
    by_cases hnil : input = []
    · subst hnil
      obtain rfl : [] = kept := Option.some_inj.mp hkept
      rfl
    · obtain ⟨p, hp⟩ : ∃ p, normalizePath input = some p := by
        refine Option.ne_none_iff_exists'.mp fun hnone => ?_
        rcases normalizePath_eq_none_iff.mp hnone with he | hlong | hclimb
        · exact hnil he
        · omega
        · rw [lexicalComponents_eq_none_iff.mpr hclimb] at hkept
          cases hkept
      obtain ⟨kept', hkept', -, -, hspelled⟩ := h.spelled p hp
      obtain ⟨kept'', parts, hkept'', rfl, hok, hparts⟩ := lexicalComponents_of_normalizePath hp
      rw [hkept] at hkept' hkept''
      obtain rfl := Option.some_inj.mp hkept'
      obtain rfl := Option.some_inj.mp hkept''
      exact spelling_injective hok (partOk_of_lexicalComponents hkept)
        (hparts.symm.trans hspelled)
  · intro h
    refine ⟨normalizePath_eq_none_iff, fun p hp => ?_, fun p hp => ?_, fun p hp =>
      normalizePath_fixed hp⟩
    · obtain ⟨kept, -, rfl, -⟩ := normalizePath_kept hp
      rfl
    · obtain ⟨kept, parts, hkept, hparts, -, hspelled⟩ := lexicalComponents_of_normalizePath hp
      have hlen : input.length ≤ maxLocatorBytes := by
        by_contra hlong
        rw [normalizePath_eq_none_iff.mpr (Or.inr (Or.inl (by omega)))] at hp
        cases hp
      refine ⟨kept, hkept, reduce_cancels hkept, fun next =>
        (reduce_reduced hkept).not_cancels, ?_⟩
      rw [hspelled, hparts, finishParts_glueAll_eq_iff.mpr (h hlen kept hkept)]

/-- **`normalize_path` is lexical normalization exactly where a `:` comes last**,
and not last in two bytes. -/
theorem normalizePath_lexical_iff (left right : Text) :
    ComparesLexically left right ↔ ColonsAreLast left ∧ ColonsAreLast right := by
  constructor
  · rintro ⟨hleft, hright, -⟩
    exact ⟨normalizesLexically_iff.mp hleft, normalizesLexically_iff.mp hright⟩
  · rintro ⟨hleft, hright⟩
    have hleft := normalizesLexically_iff.mpr hleft
    have hright := normalizesLexically_iff.mpr hright
    refine ⟨hleft, hright, fun p q hp hq => ?_⟩
    rw [normalizedEqual_iff]
    constructor
    · rintro rfl
      have habs : isAbsolute left = isAbsolute right :=
        (hleft.absolute p hp).symm.trans (hright.absolute p hq)
      obtain ⟨kept, hkept, -, -, hspelled⟩ := hleft.spelled p hp
      obtain ⟨kept', hkept', -, -, hspelled'⟩ := hright.spelled p hq
      rw [hspelled, ← habs] at hspelled'
      rw [hkept, hkept', spelling_injective (partOk_of_lexicalComponents hkept)
        (partOk_of_lexicalComponents hkept') hspelled']
      exact ⟨habs, rfl⟩
    · rintro ⟨habs, hsame⟩
      obtain ⟨kept, hkept, rfl⟩ := normalizePath_some hp
      obtain ⟨kept', hkept', rfl⟩ := normalizePath_some hq
      obtain rfl : kept = kept' := by
        rw [hsame, hkept'] at hkept
        exact (Option.some_inj.mp hkept).symm
      rw [habs]

/-- `a:/b` loses its separator, and is then equal to `a:b`. -/
theorem normalizePath_colon_merges : ¬ ComparesLexically (ascii "a:/b") (ascii "a:b") := by
  intro h
  have hp : normalizePath (ascii "a:/b") = some ⟨ascii "a:b", false⟩ := by decide
  have hq : normalizePath (ascii "a:b") = some ⟨ascii "a:b", false⟩ := by decide
  have hequal := (h.equal_iff _ _ hp hq).mp (by decide)
  exact absurd hequal.2 (by decide)

end UnityCommon.PPtr
