import UnityCommon.Common.Text
import UnityCommon.Lib.Call

/-!
# Glob patterns

`common/ascii_glob.c`. A cursor is what it points to up to the terminator, or up
to the end of a class inside one; a row of the match is a list of its cells.
-/

namespace UnityCommon.AsciiGlob

inductive AsciiGlobStatus where
  | ok
  | invalidArgument
  | malformedPattern
  | allocationFailed
deriving DecidableEq, Repr

def asterisk : UInt8 := 0x2a
def question : UInt8 := 0x3f
def leftBracket : UInt8 := 0x5b
def rightBracket : UInt8 := 0x5d
def backslash : UInt8 := 0x5c
def hyphen : UInt8 := 0x2d
def bang : UInt8 := 0x21
def caret : UInt8 := 0x5e

/-! ## Classes -/

def readClassAtom : Text → Option (UInt8 × Text)
  | [] => none
  | c :: current =>
      if c = backslash then
        match current with
        | [] => none
        | value :: cursor => some (value, cursor)
      else if c = hyphen then none
      else some (c, current)

theorem length_readClassAtom {cursor after : Text} {value : UInt8}
    (h : readClassAtom cursor = some (value, after)) : after.length < cursor.length := by
  unfold readClassAtom at h
  split at h
  · cases h
  · split at h
    · split at h
      · cases h
      · cases h
        rw [List.length_cons, List.length_cons]
        omega
    · split at h
      · cases h
      · cases h
        rw [List.length_cons]
        omega

/-- `cursor < end && *cursor == '-' && cursor + 1 < end`: what is behind the hyphen. -/
def rangeRest : Text → Option Text
  | c :: d :: rest => if c = hyphen then some (d :: rest) else none
  | _ => none

theorem length_rangeRest {cursor rest : Text} (h : rangeRest cursor = some rest) :
    rest.length < cursor.length := by
  unfold rangeRest at h
  split at h
  · split at h
    · cases h
      simp
    · cases h
  · cases h

/-- The items of a class, each compared with the target. -/
def classItems (target : Option UInt8) (cursor : Text) (itemCount : ℕ) (matched : Bool) :
    Option Bool :=
  match cursor with
  | [] => if itemCount = 0 then none else some matched
  | c :: rest =>
      if c = hyphen then
        if itemCount ≠ 0 ∧ rest ≠ [] then none
        else classItems target rest (itemCount + 1) (matched || target.any fun t => t = hyphen)
      else
        match _hfirst : readClassAtom (c :: rest) with
        | none => none
        | some (first, cursor) =>
            match hrange : rangeRest cursor with
            | some cursor =>
                match hlast : readClassAtom cursor with
                | none => none
                | some (last, cursor) =>
                    if last < first then none
                    else classItems target cursor (itemCount + 1)
                      (matched || target.any fun t => first ≤ t ∧ t ≤ last)
            | none => classItems target cursor (itemCount + 1) (matched || target.any fun t => t = first)
termination_by cursor.length
decreasing_by
  · simp
  · have := length_readClassAtom _hfirst
    have hrange := length_rangeRest hrange
    have hlast := length_readClassAtom hlast
    omega
  · exact length_readClassAtom _hfirst

/-- The content up to the first unescaped closing bracket, and what is behind it. -/
def locateEnd : Text → Option (Text × Text)
  | [] => none
  | c :: cursor =>
      if c = rightBracket then some ([], cursor)
      else if c = backslash then
        match cursor with
        | [] => none
        | escaped :: cursor =>
            (locateEnd cursor).map fun located => (c :: escaped :: located.1, located.2)
      else (locateEnd cursor).map fun located => (c :: located.1, located.2)

/-- The negation, and where the content starts. -/
def classMarker : Text → Bool × Text
  | [] => (false, [])
  | c :: cursor => if c = bang ∨ c = caret then (true, cursor) else (false, c :: cursor)

/-- What is behind the class, and whether the target is in it. -/
def parseClass (pattern : Text) (target : Option UInt8) : Except AsciiGlobStatus (Text × Bool) :=
  match pattern with
  | [] => .error .invalidArgument
  | c :: cursor =>
      if c ≠ leftBracket then .error .invalidArgument
      else
        let marker := classMarker cursor
        match locateEnd marker.2 with
        | none => .error .malformedPattern
        | some (content, after) =>
            if content = [] then .error .malformedPattern
            else
              match classItems target content 0 false with
              | none => .error .malformedPattern
              | some matched => .ok (after, if marker.1 then !matched else matched)

theorem length_classMarker (cursor : Text) : (classMarker cursor).2.length ≤ cursor.length := by
  unfold classMarker
  split
  · exact le_rfl
  · split
    · simp
    · exact le_rfl

theorem locateEnd_rightBracket (cursor : Text) :
    locateEnd (rightBracket :: cursor) = some ([], cursor) := by
  rw [locateEnd.eq_def]
  exact if_pos rfl

theorem locateEnd_escaped (escaped : UInt8) (cursor : Text) :
    locateEnd (backslash :: escaped :: cursor) =
      (locateEnd cursor).map fun located => (backslash :: escaped :: located.1, located.2) := by
  rw [locateEnd.eq_def]
  rfl

theorem locateEnd_plain {c : UInt8} (hend : c ≠ rightBracket) (hslash : c ≠ backslash)
    (cursor : Text) :
    locateEnd (c :: cursor) = (locateEnd cursor).map fun located => (c :: located.1, located.2) := by
  rw [locateEnd.eq_def]
  exact (if_neg hend).trans (if_neg hslash)

/-- A class is its content, a closing bracket and what is behind it. -/
theorem eq_of_locateEnd {cursor content after : Text}
    (h : locateEnd cursor = some (content, after)) : cursor = content ++ rightBracket :: after := by
  induction hlength : cursor.length using Nat.strong_induction_on generalizing cursor content with
  | _ length ih =>
      match cursor with
      | [] => cases h
      | c :: cursor =>
          by_cases hend : c = rightBracket
          · rw [hend, locateEnd_rightBracket] at h
            cases h
            rw [hend, List.nil_append]
          by_cases hslash : c = backslash
          · match cursor with
            | [] =>
                rw [hslash] at h
                cases h
            | escaped :: cursor =>
                rw [hslash, locateEnd_escaped, Option.map_eq_some_iff] at h
                obtain ⟨located, hlocated, heq⟩ := h
                cases heq
                rw [List.length_cons, List.length_cons] at hlength
                rw [hslash, ih cursor.length (by omega) hlocated rfl]
                rfl
          · rw [locateEnd_plain hend hslash, Option.map_eq_some_iff] at h
            obtain ⟨located, hlocated, heq⟩ := h
            cases heq
            rw [List.length_cons] at hlength
            rw [ih cursor.length (by omega) hlocated rfl]
            rfl

/-- A class that parses: its marker, its content and its items. -/
theorem parseClass_eq_ok {pattern after : Text} {target : Option UInt8} {found : Bool} :
    parseClass pattern target = .ok (after, found) ↔
      ∃ cursor content matched, pattern = leftBracket :: cursor ∧
        locateEnd (classMarker cursor).2 = some (content, after) ∧ content ≠ [] ∧
        classItems target content 0 false = some matched ∧
        found = if (classMarker cursor).1 then !matched else matched := by
  constructor
  · intro h
    match pattern with
    | [] => cases h
    | c :: cursor =>
        unfold parseClass at h
        dsimp only at h
        by_cases hbracket : c ≠ leftBracket
        · rw [if_pos hbracket] at h
          cases h
        rw [if_neg hbracket] at h
        cases hlocated : locateEnd (classMarker cursor).2 with
        | none =>
            rw [hlocated] at h
            cases h
        | some located =>
            rw [hlocated] at h
            dsimp only at h
            by_cases hcontent : located.1 = []
            · rw [if_pos hcontent] at h
              cases h
            rw [if_neg hcontent] at h
            cases hitems : classItems target located.1 0 false with
            | none =>
                rw [hitems] at h
                cases h
            | some matched =>
                rw [hitems] at h
                cases h
                exact ⟨cursor, located.1, matched, by rw [not_not.mp hbracket], hlocated, hcontent,
                  hitems, rfl⟩
  · rintro ⟨cursor, content, matched, rfl, hlocated, hcontent, hitems, rfl⟩
    unfold parseClass
    dsimp only
    rw [if_neg (not_not.mpr rfl), hlocated]
    dsimp only
    rw [if_neg hcontent, hitems]

theorem length_parseClass {pattern after : Text} {target : Option UInt8} {found : Bool}
    (h : parseClass pattern target = .ok (after, found)) : after.length < pattern.length := by
  obtain ⟨cursor, content, -, rfl, hlocated, -⟩ := parseClass_eq_ok.mp h
  have hlength := congrArg List.length (eq_of_locateEnd hlocated)
  have hmarker := length_classMarker cursor
  rw [List.length_append, List.length_cons] at hlength
  rw [List.length_cons]
  omega

/-! ## Validation -/

def asciiGlobValidate (pattern : Text) : AsciiGlobStatus :=
  match pattern with
  | [] => .ok
  | c :: cursor =>
      if c = backslash then
        match cursor with
        | [] => .malformedPattern
        | _ :: cursor => asciiGlobValidate cursor
      else if c = leftBracket then
        match _h : parseClass (c :: cursor) none with
        | .error status => status
        | .ok (after, _) => asciiGlobValidate after
      else asciiGlobValidate cursor
termination_by pattern.length
decreasing_by
  · simp only [List.length_cons]
    omega
  · exact length_parseClass _h
  · simp only [List.length_cons]
    omega

/-! ## Matching -/

abbrev Row := List UInt8

def flag (b : Bool) : UInt8 := if b then 1 else 0

/-- `for (index = 1; index <= text_size; ++index) current[index] = …`, from an
index on; a class leaves what is behind it. -/
def fillRow {α : Type} (cell : ℕ → Row → Except AsciiGlobStatus (α × UInt8)) :
    ℕ → ℕ → α → Row → Except AsciiGlobStatus (α × Row)
  | _, 0, left, current => .ok (left, current)
  | index, count + 1, _, current => do
      let (left, value) ← cell index current
      fillRow cell (index + 1) count left (current.set index value)

section Match

variable (text : Text) (previous : Row)

def starCell (index : ℕ) (current : Row) : Except AsciiGlobStatus (Unit × UInt8) :=
  .ok ((), flag (previous.getD index 0 ≠ 0 || current.getD (index - 1) 0 ≠ 0))

def anyCell (index : ℕ) (_ : Row) : Except AsciiGlobStatus (Unit × UInt8) :=
  .ok ((), previous.getD (index - 1) 0)

def classCell (cursor : Text) (index : ℕ) (_ : Row) : Except AsciiGlobStatus (Text × UInt8) := do
  let (after, classMatch) ← parseClass cursor (some (text.getD (index - 1) 0))
  return (after, flag (previous.getD (index - 1) 0 ≠ 0 && classMatch))

def literalCell (literal : UInt8) (index : ℕ) (_ : Row) : Except AsciiGlobStatus (Unit × UInt8) :=
  .ok ((), flag (previous.getD (index - 1) 0 ≠ 0 && text.getD (index - 1) 0 = literal))

def starRow (current : Row) : Except AsciiGlobStatus Row := do
  let (_, row) ← fillRow (starCell previous) 1 text.length () (current.set 0 (previous.getD 0 0))
  return row

def anyRow (current : Row) : Except AsciiGlobStatus Row := do
  let (_, row) ← fillRow (anyCell previous) 1 text.length () (current.set 0 0)
  return row

/-- What is behind the class, and its row. Without a cell the class is still parsed. -/
def classRow (cursor : Text) (current : Row) : Except AsciiGlobStatus (Text × Row) := do
  let (after, row) ← fillRow (classCell text previous cursor) 1 text.length [] (current.set 0 0)
  if text.length = 0 then do
    let (after, _) ← parseClass cursor none
    return (after, row)
  else return (after, row)

def literalRow (literal : UInt8) (current : Row) : Except AsciiGlobStatus Row := do
  let (_, row) ← fillRow (literalCell text previous literal) 1 text.length () (current.set 0 0)
  return row

/-- One token: what is behind it, and the row that it fills. -/
def matchToken (c : UInt8) (rest : Text) (current : Row) : Except AsciiGlobStatus (Text × Row) :=
  if c = asterisk then do
    let row ← starRow text previous current
    return (rest.dropWhile (· = asterisk), row)
  else if c = question then do
    let row ← anyRow text previous current
    return (rest, row)
  else if c = leftBracket then classRow text previous (c :: rest) current
  else if c = backslash then do
    -- a byte follows: the pattern was validated
    let row ← literalRow text previous (rest.headD 0) current
    return (rest.tail, row)
  else do
    let row ← literalRow text previous c current
    return (rest, row)

end Match

theorem fillRow_left {α : Type} {cell : ℕ → Row → Except AsciiGlobStatus (α × UInt8)}
    {P : α → Prop} (hcell : ∀ index current left value,
      cell index current = .ok (left, value) → P left)
    {index count : ℕ} {left left' : α} {current row : Row} (hleft : P left)
    (h : fillRow cell index count left current = .ok (left', row)) : P left' := by
  induction count generalizing index left current with
  | zero =>
      cases h
      exact hleft
  | succ count ih =>
      unfold fillRow at h
      cases hvalue : cell index current with
      | error status =>
          rw [hvalue] at h
          cases h
      | ok value =>
          rw [hvalue] at h
          exact ih (hcell index current value.1 value.2 hvalue) h

theorem bind_eq_ok {α β : Type} {x : Except AsciiGlobStatus α}
    {f : α → Except AsciiGlobStatus β} {b : β} :
    (x >>= f) = .ok b ↔ ∃ a, x = .ok a ∧ f a = .ok b := by
  cases x with
  | error status =>
      constructor
      · intro h
        cases h
      · rintro ⟨a, h, -⟩
        cases h
  | ok a =>
      constructor
      · exact fun h => ⟨a, rfl, h⟩
      · rintro ⟨_, h, hf⟩
        cases h
        exact hf

theorem length_classRow {text cursor after : Text} {previous current row : Row}
    (hcursor : cursor ≠ []) (h : classRow text previous cursor current = .ok (after, row)) :
    after.length < cursor.length := by
  obtain ⟨⟨left, filled⟩, hfill, hrest⟩ := bind_eq_ok.mp h
  have hleft : left.length < cursor.length := by
    refine fillRow_left (P := fun left => left.length < cursor.length) ?_
      (List.length_pos_iff.mpr hcursor) hfill
    intro index current left value hcell
    obtain ⟨⟨behind, found⟩, hparse, heq⟩ := bind_eq_ok.mp hcell
    cases heq
    exact length_parseClass hparse
  dsimp only at hrest
  split_ifs at hrest with hempty
  · obtain ⟨⟨behind, found⟩, hparse, heq⟩ := bind_eq_ok.mp hrest
    cases heq
    exact length_parseClass hparse
  · cases hrest
    exact hleft

theorem length_matchToken {text rest cursor : Text} {previous current row : Row} {c : UInt8}
    (h : matchToken text previous c rest current = .ok (cursor, row)) :
    cursor.length < (c :: rest).length := by
  unfold matchToken at h
  split_ifs at h with hstar hany hclass hslash
  · obtain ⟨_, -, heq⟩ := bind_eq_ok.mp h
    cases heq
    exact Nat.lt_succ_of_le (List.dropWhile_suffix _).length_le
  · obtain ⟨_, -, heq⟩ := bind_eq_ok.mp h
    cases heq
    exact Nat.lt_succ_self _
  · exact length_classRow (List.cons_ne_nil c rest) h
  · obtain ⟨_, -, heq⟩ := bind_eq_ok.mp h
    cases heq
    rw [List.length_tail, List.length_cons]
    omega
  · obtain ⟨_, -, heq⟩ := bind_eq_ok.mp h
    cases heq
    exact Nat.lt_succ_self _

/-- The loop over the pattern; the rows are swapped behind each token. -/
def matchLoop (text : Text) (cursor : Text) (previous current : Row) :
    Except AsciiGlobStatus Row :=
  match cursor with
  | [] => .ok previous
  | c :: rest =>
      match _h : matchToken text previous c rest current with
      | .error status => .error status
      | .ok (cursor, row) => matchLoop text cursor row previous
termination_by cursor.length
decreasing_by exact length_matchToken _h

def sizeMax : ℕ := 2 ^ 64 - 1

/-- The state is `*out_match`. -/
def asciiGlobMatch (pattern text : CString) : Call AsciiGlobStatus Bool Unit := do
  Call.replace false
  let status := asciiGlobValidate pattern.bytes
  Call.require (status = .ok) status
  let textSize := text.bytes.length
  Call.require (textSize + 1 ≤ sizeMax / 2) .allocationFailed
  Call.request .allocationFailed
  let rows : Row := List.replicate (textSize + 1) 0
  let row ← Call.ofExcept (matchLoop text.bytes pattern.bytes (rows.set 0 1) rows)
  Call.replace (row.getD textSize 0 ≠ 0)

end UnityCommon.AsciiGlob
