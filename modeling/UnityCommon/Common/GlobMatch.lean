import Mathlib.Data.List.GetD
import UnityCommon.Common.GlobGrammar

/-!
# What a glob matches

Each token of a pattern turns the row of the tokens before it into its own, so
that the last cell of the last row tells whether the text is in the language of
the pattern.
-/

namespace UnityCommon.AsciiGlob

open GlobLanguage

/-! ## Rows -/

/-- A cell of a row tells of the prefix that ends there. -/
def Tells (tokens : List (Token UInt8)) (text : Text) (index : ℕ) (value : UInt8) : Prop :=
  value ≠ 0 ↔ Prefixed tokens text index

structure RowOf (tokens : List (Token UInt8)) (text : Text) (row : Row) : Prop where
  length : row.length = text.length + 1
  tells : ∀ index ≤ text.length, Tells tokens text index (row.getD index 0)

theorem flag_ne_zero {b : Bool} : flag b ≠ 0 ↔ b = true := by
  cases b <;> decide

theorem getD_set_self {row : Row} {index : ℕ} (value : UInt8) (hindex : index < row.length) :
    (row.set index value).getD index 0 = value := by
  rw [List.getD_eq_getElem?_getD, List.getElem?_set_self hindex]
  rfl

theorem getD_set_ne {row : Row} {index other : ℕ} (value : UInt8) (hne : index ≠ other) :
    (row.set index value).getD other 0 = row.getD other 0 := by
  rw [List.getD_eq_getElem?_getD, List.getD_eq_getElem?_getD, List.getElem?_set_ne hne]

/-- **A loop over a row.** Each cell is told from the one before it, and what
was in the row does not matter. -/
theorem fillRow_spec {α : Type} {cell : ℕ → Row → Except AsciiGlobStatus (α × UInt8)}
    {tells : ℕ → UInt8 → Prop} {R : α → Prop} {size : ℕ}
    (hcell : ∀ index current, index < size → tells index (current.getD index 0) →
      ∃ left value, cell (index + 1) current = .ok (left, value) ∧ tells (index + 1) value ∧ R left)
    (count index : ℕ) (hsize : index + count = size) (left : α) (current : Row)
    (hlength : current.length = size + 1)
    (hfilled : ∀ i ≤ index, tells i (current.getD i 0)) :
    ∃ left' row, fillRow cell (index + 1) count left current = .ok (left', row) ∧
      row.length = size + 1 ∧ (∀ i ≤ size, tells i (row.getD i 0)) ∧
      (count = 0 ∧ left' = left ∨ R left') := by
  induction count generalizing index left current with
  | zero =>
      refine ⟨left, current, rfl, hlength, fun i hi => hfilled i (by omega), Or.inl ⟨rfl, rfl⟩⟩
  | succ count ih =>
      obtain ⟨next, value, hnext, hvalue, hR⟩ :=
        hcell index current (by omega) (hfilled index le_rfl)
      have hlength' : (current.set (index + 1) value).length = size + 1 := by
        rw [List.length_set, hlength]
      have hfilled' : ∀ i ≤ index + 1, tells i ((current.set (index + 1) value).getD i 0) := by
        intro i hi
        rcases Nat.eq_or_lt_of_le hi with rfl | hlt
        · rw [getD_set_self value (by omega)]
          exact hvalue
        · rw [getD_set_ne value (by omega)]
          exact hfilled i (by omega)
      obtain ⟨left', row, hrow, hlast, htells, hleft⟩ :=
        ih (index + 1) (by omega) next _ hlength' hfilled'
      refine ⟨left', row, ?_, hlast, htells, Or.inr ?_⟩
      · rw [fillRow, hnext]
        exact hrow
      · rcases hleft with ⟨-, rfl⟩ | hleft
        · exact hR
        · exact hleft

section Tokens

variable {text : Text} {tokens : List (Token UInt8)} {previous current : Row}

/-- The row of a token for one letter. -/
theorem letterRow {α : Type} {cell : ℕ → Row → Except AsciiGlobStatus (α × UInt8)}
    {token : Token UInt8} {R : α → Prop} (hone : token ≠ .star) (h : RowOf tokens text previous)
    (hlength : current.length = text.length + 1)
    (hcell : ∀ index current, index < text.length → ∃ left value,
      cell (index + 1) current = .ok (left, value) ∧
        (value ≠ 0 ↔ previous.getD index 0 ≠ 0 ∧ token.Accepts (text.getD index 0)) ∧ R left)
    (left : α) :
    ∃ left' row, fillRow cell 1 text.length left (current.set 0 0) = .ok (left', row) ∧
      RowOf (tokens ++ [token]) text row ∧ (text.length = 0 ∧ left' = left ∨ R left') := by
  have hstep : ∀ index current, index < text.length →
      Tells (tokens ++ [token]) text index (current.getD index 0) → ∃ left value,
        cell (index + 1) current = .ok (left, value) ∧
          Tells (tokens ++ [token]) text (index + 1) value ∧ R left := by
    intro index current hindex _
    obtain ⟨left, value, hvalue, hiff, hR⟩ := hcell index current hindex
    have hx : text[index]? = some (text.getD index 0) := by
      rw [List.getD_eq_getElem _ _ hindex, List.getElem?_eq_getElem hindex]
    refine ⟨left, value, hvalue, ?_, hR⟩
    have hbefore : previous.getD index 0 ≠ 0 ↔ Prefixed tokens text index := h.tells index hindex.le
    rw [Tells, prefixed_succ_iff hone hx, hiff, hbefore]
  have hstart : ∀ i ≤ 0, Tells (tokens ++ [token]) text i ((current.set 0 0).getD i 0) := by
    intro i hi
    obtain rfl := Nat.le_zero.mp hi
    rw [getD_set_self 0 (by omega), Tells]
    exact iff_of_false (fun hne => hne rfl) (not_prefixed_zero hone)
  obtain ⟨left', row, hrow, hlast, htells, hleft⟩ :=
    fillRow_spec hstep text.length 0 (Nat.zero_add _) left (current.set 0 0)
      (by rw [List.length_set, hlength]) hstart
  exact ⟨left', row, hrow, ⟨hlast, htells⟩, hleft⟩

theorem anyRow_spec (h : RowOf tokens text previous) (hlength : current.length = text.length + 1) :
    ∃ row, anyRow text previous current = .ok row ∧ RowOf (tokens ++ [.any]) text row := by
  have hcell : ∀ index current, index < text.length → ∃ left value,
      anyCell previous (index + 1) current = .ok (left, value) ∧
        (value ≠ 0 ↔ previous.getD index 0 ≠ 0 ∧ (Token.any).Accepts (text.getD index 0)) ∧
          True := by
    intro index current _
    exact ⟨(), previous.getD index 0, rfl, (and_iff_left trivial).symm, trivial⟩
  have hone : Token.any ≠ (Token.star : Token UInt8) := nofun
  obtain ⟨_, row, hrow, htells, -⟩ := letterRow (R := fun _ => True) hone h hlength hcell ()
  exact ⟨row, bind_eq_ok.mpr ⟨_, hrow, rfl⟩, htells⟩

theorem literalRow_spec (literal : UInt8) (h : RowOf tokens text previous)
    (hlength : current.length = text.length + 1) :
    ∃ row, literalRow text previous literal current = .ok row ∧
      RowOf (tokens ++ [.literal literal]) text row := by
  have hcell : ∀ index current, index < text.length → ∃ left value,
      literalCell text previous literal (index + 1) current = .ok (left, value) ∧
        (value ≠ 0 ↔
          previous.getD index 0 ≠ 0 ∧ (Token.literal literal).Accepts (text.getD index 0)) ∧
          True := by
    intro index current _
    refine ⟨(), _, rfl, ?_, trivial⟩
    rw [flag_ne_zero, Bool.and_eq_true, decide_eq_true_iff, Nat.add_sub_cancel, decide_eq_true_iff]
    exact Iff.rfl
  have hone : Token.literal literal ≠ .star := nofun
  obtain ⟨_, row, hrow, htells, -⟩ := letterRow (R := fun _ => True) hone h hlength hcell ()
  exact ⟨row, bind_eq_ok.mpr ⟨_, hrow, rfl⟩, htells⟩

theorem classRow_spec {body : Text} {negated : Bool} {ranges : List (UInt8 × UInt8)}
    (hbody : ClassBody body negated ranges) (after : Text) (h : RowOf tokens text previous)
    (hlength : current.length = text.length + 1) :
    ∃ row, classRow text previous (leftBracket :: (body ++ rightBracket :: after)) current =
        .ok (after, row) ∧
      RowOf (tokens ++ [.cls negated ranges]) text row := by
  have hcell : ∀ index current, index < text.length → ∃ left value,
      classCell text previous (leftBracket :: (body ++ rightBracket :: after)) (index + 1) current =
          .ok (left, value) ∧
        (value ≠ 0 ↔ previous.getD index 0 ≠ 0 ∧
          (Token.cls negated ranges).Accepts (text.getD index 0)) ∧ left = after := by
    intro index current _
    refine ⟨after, _, bind_eq_ok.mpr ⟨_, parseClass_of_body hbody after _, rfl⟩, ?_, rfl⟩
    rw [flag_ne_zero, Bool.and_eq_true, decide_eq_true_iff, Nat.add_sub_cancel]
    refine and_congr_right fun _ => ?_
    cases negated with
    | false => exact hits_some_iff
    | true =>
        rw [if_pos rfl, Bool.not_eq_true', ← Bool.not_eq_true, hits_some_iff]
        exact Iff.rfl
  have hone : Token.cls negated ranges ≠ .star := nofun
  obtain ⟨left, row, hrow, htells, hleft⟩ := letterRow hone h hlength hcell []
  refine ⟨row, bind_eq_ok.mpr ⟨_, hrow, ?_⟩, htells⟩
  dsimp only
  split_ifs with hempty
  · exact bind_eq_ok.mpr ⟨_, parseClass_of_body hbody after none, rfl⟩
  · rw [hleft.resolve_left fun h => hempty h.1]
    rfl

/-- The row of a run of stars. -/
theorem starRow_spec (count : ℕ) (h : RowOf tokens text previous)
    (hlength : current.length = text.length + 1) :
    ∃ row, starRow text previous current = .ok row ∧
      RowOf (tokens ++ List.replicate (count + 1) .star) text row := by
  have hstep : ∀ index current, index < text.length →
      Tells (tokens ++ List.replicate (count + 1) .star) text index (current.getD index 0) →
      ∃ left value, starCell previous (index + 1) current = .ok (left, value) ∧
        Tells (tokens ++ List.replicate (count + 1) .star) text (index + 1) value ∧ True := by
    intro index current hindex hbefore
    refine ⟨(), _, rfl, ?_, trivial⟩
    rw [Tells, prefixed_stars_succ count hindex, flag_ne_zero, Bool.or_eq_true, decide_eq_true_iff,
      decide_eq_true_iff, Nat.add_sub_cancel]
    exact or_congr (h.tells (index + 1) hindex) hbefore
  have hstart : ∀ i ≤ 0, Tells (tokens ++ List.replicate (count + 1) .star) text i
      ((current.set 0 (previous.getD 0 0)).getD i 0) := by
    intro i hi
    obtain rfl := Nat.le_zero.mp hi
    rw [getD_set_self _ (by omega), Tells, prefixed_stars_zero]
    exact h.tells 0 (Nat.zero_le _)
  obtain ⟨_, row, hrow, hlast, htells, -⟩ :=
    fillRow_spec (R := fun _ => True) hstep text.length 0 (Nat.zero_add _) ()
      (current.set 0 (previous.getD 0 0)) (by rw [List.length_set, hlength]) hstart
  exact ⟨row, bind_eq_ok.mpr ⟨_, hrow, rfl⟩, hlast, htells⟩

end Tokens

/-! ## The loop over the pattern -/

/-- A run of stars, and what is behind it. -/
theorem derives_stars {pattern : Text} {tokens : List (Token UInt8)} (h : Derives pattern tokens) :
    ∃ count rest, tokens = List.replicate count .star ++ rest ∧
      Derives (pattern.dropWhile (· = asterisk)) rest := by
  induction h with
  | nil => exact ⟨0, [], rfl, .nil⟩
  | @star pattern tokens h ih =>
      obtain ⟨count, rest, rfl, hrest⟩ := ih
      refine ⟨count + 1, rest, rfl, ?_⟩
      rwa [List.dropWhile_cons_of_pos (by decide)]
  | any h ih => exact ⟨0, _, rfl, Derives.any h⟩
  | cls hbody h ih => exact ⟨0, _, rfl, Derives.cls hbody h⟩
  | escaped b h ih => exact ⟨0, _, rfl, Derives.escaped b h⟩
  | literal hstar hany hbracket hslash h ih =>
      refine ⟨0, _, rfl, ?_⟩
      rw [List.dropWhile_cons_of_neg (by simpa using hstar)]
      exact .literal hstar hany hbracket hslash h

theorem matchLoop_cons {text rest cursor : Text} {previous current row : Row} {c : UInt8}
    (h : matchToken text previous c rest current = .ok (cursor, row)) :
    matchLoop text (c :: rest) previous current = matchLoop text cursor row previous := by
  rw [matchLoop.eq_def]
  dsimp only
  split
  · rename_i herror
    rw [h] at herror
    cases herror
  · rename_i hok
    rw [h] at hok
    cases hok
    rfl

/-- **One token.** What is behind it derives from the tokens that are left, and
its row belongs to the tokens so far. -/
theorem matchToken_spec {text pattern : Text} {c : UInt8} {tokens before : List (Token UInt8)}
    {previous current : Row} (hderives : Derives (c :: pattern) tokens)
    (hprevious : RowOf before text previous) (hcurrent : current.length = text.length + 1) :
    ∃ cursor row front left, matchToken text previous c pattern current = .ok (cursor, row) ∧
      tokens = front ++ left ∧ Derives cursor left ∧ RowOf (before ++ front) text row := by
  cases hderives with
  | star h =>
      obtain ⟨count, left, rfl, hleft⟩ := derives_stars h
      obtain ⟨row, hrow, htells⟩ := starRow_spec count hprevious hcurrent
      refine ⟨_, row, List.replicate (count + 1) .star, left, ?_, rfl, hleft, htells⟩
      rw [matchToken, if_pos rfl]
      exact bind_eq_ok.mpr ⟨row, hrow, rfl⟩
  | any h =>
      obtain ⟨row, hrow, htells⟩ := anyRow_spec hprevious hcurrent
      refine ⟨_, row, [.any], _, ?_, rfl, h, htells⟩
      rw [matchToken, if_neg (by decide), if_pos rfl]
      exact bind_eq_ok.mpr ⟨row, hrow, rfl⟩
  | @cls body after negated ranges _ hbody h =>
      obtain ⟨row, hrow, htells⟩ := classRow_spec hbody after hprevious hcurrent
      refine ⟨_, row, [.cls negated ranges], _, ?_, rfl, h, htells⟩
      rw [matchToken, if_neg (by decide), if_neg (by decide), if_pos rfl]
      exact hrow
  | escaped b h =>
      obtain ⟨row, hrow, htells⟩ := literalRow_spec b hprevious hcurrent
      refine ⟨_, row, [.literal b], _, ?_, rfl, h, htells⟩
      rw [matchToken, if_neg (by decide), if_neg (by decide), if_neg (by decide), if_pos rfl]
      exact bind_eq_ok.mpr ⟨row, hrow, rfl⟩
  | literal hstar hany hbracket hslash h =>
      obtain ⟨row, hrow, htells⟩ := literalRow_spec c hprevious hcurrent
      refine ⟨_, row, [.literal c], _, ?_, rfl, h, htells⟩
      rw [matchToken, if_neg hstar, if_neg hany, if_neg hbracket, if_neg hslash]
      exact bind_eq_ok.mpr ⟨row, hrow, rfl⟩

/-- **The loop over the pattern** ends with the row of all its tokens. -/
theorem matchLoop_spec {text pattern : Text} {tokens before : List (Token UInt8)}
    {previous current : Row} (hderives : Derives pattern tokens)
    (hprevious : RowOf before text previous) (hcurrent : current.length = text.length + 1) :
    ∃ row, matchLoop text pattern previous current = .ok row ∧ RowOf (before ++ tokens) text row := by
  induction hlength : pattern.length using Nat.strong_induction_on
    generalizing pattern tokens before previous current with
  | _ length ih =>
      match pattern with
      | [] =>
          cases hderives
          rw [List.append_nil]
          exact ⟨previous, by rw [matchLoop.eq_def], hprevious⟩
      | c :: pattern =>
          obtain ⟨cursor, row, front, left, htoken, rfl, hleft, hrow⟩ :=
            matchToken_spec hderives hprevious hcurrent
          have hshorter := length_matchToken htoken
          obtain ⟨last, hlast, htells⟩ :=
            ih cursor.length (by omega) hleft hrow hprevious.length rfl
          refine ⟨last, ?_, ?_⟩
          · rw [matchLoop_cons htoken, hlast]
          · rwa [List.append_assoc] at htells

/-- The row before the first token: only the empty prefix. -/
theorem rowOf_nil (text : Text) :
    RowOf [] text ((List.replicate (text.length + 1) 0).set 0 1) := by
  refine ⟨by rw [List.length_set, List.length_replicate], fun index hindex => ?_⟩
  rw [Tells, prefixed_nil_iff hindex]
  by_cases hzero : index = 0
  · subst hzero
    rw [getD_set_self 1 (by simp)]
    exact iff_of_true (by decide) rfl
  · rw [getD_set_ne 1 (Ne.symm hzero), List.getD_replicate _ (by omega)]
    exact iff_of_false (fun hne => hne rfl) hzero

/-- **The match of a pattern that derives.** -/
theorem matchLoop_language (text : Text) {pattern : Text} {tokens : List (Token UInt8)}
    (hderives : Derives pattern tokens) :
    ∃ row, matchLoop text pattern ((List.replicate (text.length + 1) (0 : UInt8)).set 0 1)
        (List.replicate (text.length + 1) 0) = .ok row ∧
      (row.getD text.length 0 ≠ 0 ↔ text ∈ language tokens) := by
  obtain ⟨row, hrow, htells⟩ :=
    matchLoop_spec hderives (rowOf_nil text) (List.length_replicate (a := (0 : UInt8)))
  refine ⟨row, hrow, ?_⟩
  rw [← prefixed_length]
  exact htells.tells text.length le_rfl

/-! ## The call -/

section Calls

variable {pattern : CString} (text : CString) (answers : ℕ → Bool) (out : Bool) (n : ℕ)

/-- A malformed pattern is reported, and nothing matches. -/
theorem asciiGlobMatch_malformed (h : asciiGlobValidate pattern.bytes = .malformedPattern) :
    asciiGlobMatch pattern text answers out n = .error .malformedPattern false n := by
  unfold asciiGlobMatch
  rw [Call.bind_apply, Call.andThen, Call.replace]
  dsimp only
  rw [Call.bind_apply, Call.andThen, h, Call.require, if_neg (by decide)]

/-- What a pattern that derives comes to: the text is too long, storage is
denied, or the match is told. -/
theorem asciiGlobMatch_of_derives {tokens : List (Token UInt8)}
    (h : Derives pattern.bytes tokens) :
    ∃ result : Bool, (result = true ↔ text.bytes ∈ language tokens) ∧
      asciiGlobMatch pattern text answers out n =
        if text.bytes.length + 1 ≤ sizeMax / 2 then
          if answers n then .ok () result (n + 1) else .error .allocationFailed false (n + 1)
        else .error .allocationFailed false n := by
  obtain ⟨row, hrow, hlanguage⟩ := matchLoop_language text.bytes h
  refine ⟨decide (row.getD text.bytes.length 0 ≠ 0), by rw [decide_eq_true_iff, hlanguage], ?_⟩
  unfold asciiGlobMatch
  rw [Call.bind_apply, Call.andThen, Call.replace]
  dsimp only
  rw [Call.bind_apply, Call.andThen, validate_of_derives h, Call.require, if_pos rfl]
  dsimp only
  rw [Call.bind_apply, Call.andThen, Call.require]
  by_cases hfits : text.bytes.length + 1 ≤ sizeMax / 2
  · rw [if_pos hfits, if_pos hfits]
    dsimp only
    rw [Call.bind_apply, Call.andThen, Call.request]
    by_cases hanswer : answers n = true
    · rw [if_pos hanswer, if_pos hanswer]
      dsimp only
      rw [hrow]
      rfl
    · rw [if_neg hanswer, if_neg hanswer]
  · rw [if_neg hfits, if_neg hfits]

/-- **A glob match** is the language of the pattern: it is validated against the
grammar, reported as malformed exactly where the validation does, and, with
storage, told of the whole text. -/
theorem asciiGlobMatch_exact (pattern text : CString) :
    (asciiGlobValidate pattern.bytes = .ok ↔ ∃ tokens, Derives pattern.bytes tokens) ∧
    (asciiGlobValidate pattern.bytes = .ok ∨
      asciiGlobValidate pattern.bytes = .malformedPattern) ∧
    ∀ answers out n,
      ((∃ out' n', asciiGlobMatch pattern text answers out n = .error .malformedPattern out' n') ↔
        asciiGlobValidate pattern.bytes = .malformedPattern) ∧
      (∀ result n', asciiGlobMatch pattern text answers out n = .ok () result n' →
        asciiGlobValidate pattern.bytes = .ok ∧
          ∀ tokens, Derives pattern.bytes tokens →
            (result = true ↔ text.bytes ∈ language tokens)) ∧
      (asciiGlobValidate pattern.bytes = .ok → answers n = true →
        text.bytes.length + 1 ≤ sizeMax / 2 →
        ∃ result n', asciiGlobMatch pattern text answers out n = .ok () result n') ∧
      ∀ status out' n', asciiGlobMatch pattern text answers out n = .error status out' n' →
        out' = false := by
  refine ⟨validate_eq_ok_iff _, ?_, fun answers out n => ?_⟩
  · rw [validate_eq_ok_iff]
    exact derives_or_malformed _
  -- a pattern derives or is malformed, and the call goes with it
  rcases derives_or_malformed pattern.bytes with ⟨tokens, htokens⟩ | hmalformed
  · obtain ⟨result, hresult, hmatch⟩ := asciiGlobMatch_of_derives text answers out n htokens
    have hvalidate := validate_of_derives htokens
    rw [hmatch, hvalidate]
    refine ⟨iff_of_false ?_ (by decide), ?_, fun _ hanswer hfits => ?_, ?_⟩
    · rintro ⟨out', n', h⟩
      split_ifs at h
      all_goals cases h
    · intro result' n' h
      refine ⟨rfl, fun other hother => ?_⟩
      obtain ⟨_, hresult', hmatch'⟩ := asciiGlobMatch_of_derives text answers out n hother
      rw [← hmatch, hmatch'] at h
      split_ifs at h
      cases h
      exact hresult'
    · exact ⟨result, n + 1, by rw [if_pos hfits, if_pos hanswer]⟩
    · intro status out' n' h
      split_ifs at h
      all_goals
        cases h
        rfl
  · rw [asciiGlobMatch_malformed text answers out n hmalformed, hmalformed]
    refine ⟨iff_of_true ⟨false, n, rfl⟩ rfl, nofun, nofun, fun status out' n' h => ?_⟩
    cases h
    rfl

end Calls

end UnityCommon.AsciiGlob
