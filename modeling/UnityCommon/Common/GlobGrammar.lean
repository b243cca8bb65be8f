import UnityCommon.Common.AsciiGlob
import UnityCommon.Lib.GlobLanguage

/-!
# The grammar of glob patterns

Literals, escaped bytes, `?`, `*` and bracket classes, and that the validation
accepts exactly what derives from them.
-/

namespace UnityCommon.AsciiGlob

open GlobLanguage

/-! ## The grammar -/

/-- A byte of a class, escaped or not. -/
inductive ClassAtom : Text → UInt8 → Prop
  | plain (b : UInt8) (hslash : b ≠ backslash) (hend : b ≠ rightBracket) (hhyphen : b ≠ hyphen) :
      ClassAtom [b] b
  | escaped (b : UInt8) : ClassAtom [backslash, b] b

/-- Single bytes and ascending ranges. -/
inductive ClassItems : Text → List (UInt8 × UInt8) → Prop
  | nil : ClassItems [] []
  | single {atom items : Text} {b : UInt8} {ranges : List (UInt8 × UInt8)}
      (hatom : ClassAtom atom b) (hitems : ClassItems items ranges) :
      ClassItems (atom ++ items) ((b, b) :: ranges)
  | range {atom atom' items : Text} {first last : UInt8} {ranges : List (UInt8 × UInt8)}
      (hfirst : ClassAtom atom first) (hlast : ClassAtom atom' last) (hle : first ≤ last)
      (hitems : ClassItems items ranges) :
      ClassItems (atom ++ hyphen :: (atom' ++ items)) ((first, last) :: ranges)

/-- A raw hyphen at an edge of a class, or none. -/
def edge (present : Bool) : Text := if present then [hyphen] else []

def edgeRanges (present : Bool) : List (UInt8 × UInt8) := if present then [(hyphen, hyphen)] else []

/-- Items between two edges, not all of them empty. -/
inductive ClassContent : Text → List (UInt8 × UInt8) → Prop
  | mk (lead trail : Bool) {items : Text} {ranges : List (UInt8 × UInt8)}
      (hitems : ClassItems items ranges) (hne : edge lead ++ items ++ edge trail ≠ []) :
      ClassContent (edge lead ++ items ++ edge trail)
        (edgeRanges lead ++ ranges ++ edgeRanges trail)

/-- The content behind an optional negation. -/
inductive ClassBody : Text → Bool → List (UInt8 × UInt8) → Prop
  | positive {content : Text} {ranges : List (UInt8 × UInt8)} (hcontent : ClassContent content ranges)
      (hbang : content.head? ≠ some bang) (hcaret : content.head? ≠ some caret) :
      ClassBody content false ranges
  | negative {content : Text} {ranges : List (UInt8 × UInt8)} (marker : UInt8)
      (hmarker : marker = bang ∨ marker = caret) (hcontent : ClassContent content ranges) :
      ClassBody (marker :: content) true ranges

/-- **The patterns**, with the tokens that they stand for. -/
inductive Derives : Text → List (Token UInt8) → Prop
  | nil : Derives [] []
  | star {pattern : Text} {tokens : List (Token UInt8)} (h : Derives pattern tokens) :
      Derives (asterisk :: pattern) (.star :: tokens)
  | any {pattern : Text} {tokens : List (Token UInt8)} (h : Derives pattern tokens) :
      Derives (question :: pattern) (.any :: tokens)
  | cls {body pattern : Text} {negated : Bool} {ranges : List (UInt8 × UInt8)}
      {tokens : List (Token UInt8)} (hbody : ClassBody body negated ranges)
      (h : Derives pattern tokens) :
      Derives (leftBracket :: (body ++ rightBracket :: pattern)) (.cls negated ranges :: tokens)
  | escaped (b : UInt8) {pattern : Text} {tokens : List (Token UInt8)} (h : Derives pattern tokens) :
      Derives (backslash :: b :: pattern) (.literal b :: tokens)
  | literal {b : UInt8} {pattern : Text} {tokens : List (Token UInt8)} (hstar : b ≠ asterisk)
      (hany : b ≠ question) (hbracket : b ≠ leftBracket) (hslash : b ≠ backslash)
      (h : Derives pattern tokens) : Derives (b :: pattern) (.literal b :: tokens)

/-! ## Atoms -/

theorem readClassAtom_of_atom {atom : Text} {b : UInt8} (h : ClassAtom atom b) (rest : Text) :
    readClassAtom (atom ++ rest) = some (b, rest) := by
  cases h with
  | plain _ hslash hend hhyphen =>
      show readClassAtom (b :: rest) = _
      rw [readClassAtom.eq_def]
      exact (if_neg hslash).trans (if_neg hhyphen)
  | escaped => rfl

theorem ClassAtom.head_ne_hyphen {atom : Text} {b : UInt8} (h : ClassAtom atom b) :
    ∃ c rest, atom = c :: rest ∧ c ≠ hyphen := by
  cases h with
  | plain _ hslash hend hhyphen => exact ⟨b, [], rfl, hhyphen⟩
  | escaped => exact ⟨backslash, [b], rfl, by decide⟩

/-- What is read is an atom, unless a bracket stands there. -/
theorem atom_of_readClassAtom {cursor rest : Text} {b : UInt8}
    (h : readClassAtom cursor = some (b, rest)) (hend : cursor.head? ≠ some rightBracket) :
    ∃ atom, ClassAtom atom b ∧ cursor = atom ++ rest := by
  unfold readClassAtom at h
  split at h
  · cases h
  · rename_i c current
    split_ifs at h with hslash hhyphen
    · split at h
      · cases h
      · cases h
        exact ⟨[backslash, b], .escaped b, by rw [hslash]; rfl⟩
    · obtain ⟨rfl, rfl⟩ := Prod.mk.inj (Option.some.inj h)
      exact ⟨[c], .plain c hslash (fun hc => hend (by rw [hc]; rfl)) hhyphen, rfl⟩

/-! ## Where a class ends -/

theorem locateEnd_of_atom {atom : Text} {b : UInt8} (h : ClassAtom atom b) (cursor : Text) :
    locateEnd (atom ++ cursor) =
      (locateEnd cursor).map fun located => (atom ++ located.1, located.2) := by
  cases h with
  | plain _ hslash hend hhyphen => exact locateEnd_plain hend hslash cursor
  | escaped => exact locateEnd_escaped b cursor

theorem locateEnd_of_items {items : Text} {ranges : List (UInt8 × UInt8)}
    (h : ClassItems items ranges) (cursor : Text) :
    locateEnd (items ++ cursor) =
      (locateEnd cursor).map fun located => (items ++ located.1, located.2) := by
  induction h with
  | nil =>
      rw [List.nil_append]
      cases locateEnd cursor <;> rfl
  | single hatom hitems ih =>
      rw [List.append_assoc, locateEnd_of_atom hatom, ih, Option.map_map]
      simp [Function.comp_def]
  | range hfirst hlast hle hitems ih =>
      rw [List.append_assoc, List.cons_append, List.append_assoc, locateEnd_of_atom hfirst,
        locateEnd_plain (by decide) (by decide), locateEnd_of_atom hlast, ih]
      simp [Function.comp_def]

theorem locateEnd_of_edge (present : Bool) (cursor : Text) :
    locateEnd (edge present ++ cursor) =
      (locateEnd cursor).map fun located => (edge present ++ located.1, located.2) := by
  cases present with
  | false => cases h : locateEnd cursor <;> simp [edge, h]
  | true => exact locateEnd_plain (by decide) (by decide) cursor

/-- **A content is found whole.** -/
theorem locateEnd_of_content {content : Text} {ranges : List (UInt8 × UInt8)}
    (h : ClassContent content ranges) (after : Text) :
    locateEnd (content ++ rightBracket :: after) = some (content, after) := by
  cases h with
  | mk lead trail hitems hne =>
      rw [List.append_assoc, List.append_assoc, locateEnd_of_edge, locateEnd_of_items hitems,
        locateEnd_of_edge, locateEnd_rightBracket]
      simp

/-! ## The items -/

/-- The target lies in one of the ranges. -/
def hits (target : Option UInt8) (ranges : List (UInt8 × UInt8)) : Bool :=
  target.any fun t => ranges.any fun range => range.1 ≤ t ∧ t ≤ range.2

theorem hits_nil (target : Option UInt8) : hits target [] = false := by
  cases target <;> rfl

theorem hits_cons (target : Option UInt8) (range : UInt8 × UInt8)
    (ranges : List (UInt8 × UInt8)) :
    hits target (range :: ranges) =
      (target.any (fun t => range.1 ≤ t ∧ t ≤ range.2) || hits target ranges) := by
  cases target <;> rfl

theorem hits_append (target : Option UInt8) (ranges more : List (UInt8 × UInt8)) :
    hits target (ranges ++ more) = (hits target ranges || hits target more) := by
  cases target with
  | none => rfl
  | some t => simp [hits, List.any_append]

theorem hits_some_iff {t : UInt8} {ranges : List (UInt8 × UInt8)} :
    hits (some t) ranges = true ↔ InRanges ranges t := by
  simp [hits, InRanges]

/-- One byte is a range of its own. -/
theorem any_eq_range (target : Option UInt8) (b : UInt8) :
    (target.any fun t => t = b) = target.any fun t => b ≤ t ∧ t ≤ b := by
  cases target with
  | none => rfl
  | some t =>
      refine decide_eq_decide.mpr ⟨?_, fun h => UInt8.le_antisymm h.2 h.1⟩
      rintro rfl
      exact ⟨UInt8.le_refl _, UInt8.le_refl _⟩

section Items

variable (target : Option UInt8)

theorem classItems_nil (itemCount : ℕ) (matched : Bool) :
    classItems target [] itemCount matched = if itemCount = 0 then none else some matched := by
  rw [classItems]

theorem classItems_hyphen (rest : Text) (itemCount : ℕ) (matched : Bool) :
    classItems target (hyphen :: rest) itemCount matched =
      if itemCount ≠ 0 ∧ rest ≠ [] then none
      else classItems target rest (itemCount + 1) (matched || target.any fun t => t = hyphen) := by
  rw [classItems, if_pos rfl]

variable {target}

/-- An atom, and the end of its range where a hyphen asks for one. -/
theorem classItems_atom {c : UInt8} {rest : Text} (hc : c ≠ hyphen) (itemCount : ℕ)
    (matched : Bool) :
    classItems target (c :: rest) itemCount matched =
      (readClassAtom (c :: rest)).bind fun (first, cursor) =>
        match rangeRest cursor with
        | some tail =>
            (readClassAtom tail).bind fun (last, cursor) =>
              if last < first then none
              else classItems target cursor (itemCount + 1)
                (matched || target.any fun t => first ≤ t ∧ t ≤ last)
        | none =>
            classItems target cursor (itemCount + 1) (matched || target.any fun t => t = first) := by
  rw [classItems, if_neg hc]
  split
  · rename_i hfirst
    rw [hfirst]
    rfl
  · rename_i first cursor hfirst
    rw [hfirst, Option.bind_some]
    dsimp only
    split
    · rename_i tail hrange
      simp only [hrange]
      split
      · rename_i hlast
        rw [hlast]
        rfl
      · rename_i last cursor' hlast
        rw [hlast]
        rfl
    · rename_i hrange
      simp only [hrange]

theorem classItems_single {c first : UInt8} {rest cursor : Text} (hc : c ≠ hyphen)
    (hfirst : readClassAtom (c :: rest) = some (first, cursor)) (hrange : rangeRest cursor = none)
    (itemCount : ℕ) (matched : Bool) :
    classItems target (c :: rest) itemCount matched =
      classItems target cursor (itemCount + 1) (matched || target.any fun t => t = first) := by
  simp only [classItems_atom hc, hfirst, Option.bind_some, hrange]

theorem classItems_range {c first last : UInt8} {rest tail cursor : Text} (hc : c ≠ hyphen)
    (hfirst : readClassAtom (c :: rest) = some (first, hyphen :: tail)) (htail : tail ≠ [])
    (hlast : readClassAtom tail = some (last, cursor)) (itemCount : ℕ) (matched : Bool) :
    classItems target (c :: rest) itemCount matched =
      if last < first then none
      else classItems target cursor (itemCount + 1)
        (matched || target.any fun t => first ≤ t ∧ t ≤ last) := by
  have hrange : rangeRest (hyphen :: tail) = some tail := by
    match tail, htail with
    | d :: tail, _ => rfl
  simp only [classItems_atom hc, hfirst, Option.bind_some, hrange, hlast]

/-- Where the items go on, no range is under way. -/
theorem rangeRest_of_items {items : Text} {ranges : List (UInt8 × UInt8)}
    (h : ClassItems items ranges) (trail : Bool) : rangeRest (items ++ edge trail) = none := by
  have hatom : ∀ {atom : Text} {b : UInt8} (rest : Text), ClassAtom atom b →
      rangeRest (atom ++ rest) = none := by
    intro atom b rest hatom
    obtain ⟨c, tail, rfl, hc⟩ := hatom.head_ne_hyphen
    rw [List.cons_append]
    cases tail ++ rest with
    | nil => rfl
    | cons d rest => exact if_neg hc
  cases h with
  | nil => cases trail <;> rfl
  | single hfirst hitems =>
      rw [List.append_assoc]
      exact hatom _ hfirst
  | range hfirst hlast hle hitems =>
      rw [List.append_assoc]
      exact hatom _ hfirst

/-- **Items that derive are read**, up to the last edge. -/
theorem classItems_of_items {items : Text} {ranges : List (UInt8 × UInt8)}
    (h : ClassItems items ranges) (trail : Bool) (itemCount : ℕ) (matched : Bool) :
    classItems target (items ++ edge trail) itemCount matched =
      if itemCount = 0 ∧ items ++ edge trail = [] then none
      else some (matched || hits target (ranges ++ edgeRanges trail)) := by
  induction h generalizing itemCount matched with
  | nil =>
      cases trail with
      | false =>
          rw [show ([] : Text) ++ edge false = [] from rfl, classItems_nil]
          simp [edgeRanges, hits_nil]
      | true =>
          rw [show ([] : Text) ++ edge true = [hyphen] from rfl, classItems_hyphen,
            if_neg (by simp), classItems_nil, if_neg (by omega), if_neg (by simp),
            any_eq_range, show ([] : List (UInt8 × UInt8)) ++ edgeRanges true = [(hyphen, hyphen)]
              from rfl, hits_cons, hits_nil, Bool.or_false]
  | @single atom items b ranges hatom hitems ih =>
      have hread := readClassAtom_of_atom hatom (items ++ edge trail)
      obtain ⟨c, rest, rfl, hc⟩ := hatom.head_ne_hyphen
      rw [List.append_assoc, List.cons_append] at *
      rw [classItems_single hc hread (rangeRest_of_items hitems trail), ih, if_neg (by omega),
        if_neg (by simp), List.cons_append, hits_cons, any_eq_range, Bool.or_assoc]
  | @range atom atom' items first last ranges hfirst hlast hle hitems ih =>
      have hread := readClassAtom_of_atom hfirst (hyphen :: (atom' ++ (items ++ edge trail)))
      have hread' := readClassAtom_of_atom hlast (items ++ edge trail)
      obtain ⟨c, rest, rfl, hc⟩ := hfirst.head_ne_hyphen
      have htail : atom' ++ (items ++ edge trail) ≠ [] := by
        obtain ⟨d, rest', rfl, -⟩ := hlast.head_ne_hyphen
        exact List.cons_ne_nil _ _
      rw [List.cons_append] at hread
      rw [List.append_assoc, List.cons_append, List.cons_append, List.append_assoc]
      rw [classItems_range hc hread htail hread', if_neg (UInt8.not_lt.mpr hle), ih, if_neg (by omega),
        if_neg (by simp), List.cons_append, hits_cons, Bool.or_assoc]

end Items

/-! ## What is read derives -/

/-- The cursor runs up to the bracket that closes its class. -/
def Closes (cursor : Text) : Prop :=
  ∀ after, locateEnd (cursor ++ rightBracket :: after) = some (cursor, after)

theorem closes_of_locateEnd {cursor content after : Text}
    (h : locateEnd cursor = some (content, after)) : Closes content := by
  induction hlength : cursor.length using Nat.strong_induction_on generalizing cursor content with
  | _ length ih =>
      intro behind
      match cursor with
      | [] => cases h
      | c :: cursor =>
          by_cases hend : c = rightBracket
          · rw [hend, locateEnd_rightBracket] at h
            cases h
            exact locateEnd_rightBracket behind
          by_cases hslash : c = backslash
          · match cursor with
            | [] =>
                rw [hslash] at h
                cases h
            | escaped :: cursor =>
                rw [hslash, locateEnd_escaped, Option.map_eq_some_iff] at h
                obtain ⟨located, hlocated, heq⟩ := h
                cases heq
                rw [List.length_cons, List.length_cons] at hlength
                rw [List.cons_append, List.cons_append, locateEnd_escaped,
                  ih cursor.length (by omega) hlocated rfl behind]
                rfl
          · rw [locateEnd_plain hend hslash, Option.map_eq_some_iff] at h
            obtain ⟨located, hlocated, heq⟩ := h
            cases heq
            rw [List.length_cons] at hlength
            rw [List.cons_append, locateEnd_plain hend hslash,
              ih cursor.length (by omega) hlocated rfl behind]
            rfl

theorem Closes.head_ne {cursor : Text} (h : Closes cursor) : cursor.head? ≠ some rightBracket := by
  cases cursor with
  | nil => nofun
  | cons c cursor =>
      intro hc
      cases hc
      have hnil := h []
      rw [List.cons_append, locateEnd_rightBracket] at hnil
      cases hnil

theorem Closes.behind_atom {atom cursor : Text} {b : UInt8} (hatom : ClassAtom atom b)
    (h : Closes (atom ++ cursor)) : Closes cursor := by
  intro after
  have hwhole := h after
  rw [List.append_assoc, locateEnd_of_atom hatom, Option.map_eq_some_iff] at hwhole
  obtain ⟨located, hlocated, heq⟩ := hwhole
  obtain ⟨hcontent, rfl⟩ := Prod.mk.inj heq
  rw [hlocated, ← List.append_cancel_left hcontent]

theorem Closes.behind_hyphen {cursor : Text} (h : Closes (hyphen :: cursor)) : Closes cursor := by
  intro after
  have hwhole := h after
  rw [List.cons_append, locateEnd_plain (by decide) (by decide), Option.map_eq_some_iff] at hwhole
  obtain ⟨located, hlocated, heq⟩ := hwhole
  obtain ⟨hcontent, rfl⟩ := Prod.mk.inj heq
  rw [hlocated, ← (List.cons.inj hcontent).2]

theorem rangeRest_eq_some {cursor tail : Text} (h : rangeRest cursor = some tail) :
    cursor = hyphen :: tail ∧ tail ≠ [] := by
  unfold rangeRest at h
  split at h
  · split_ifs at h with hc
    cases h
    exact ⟨by rw [hc], List.cons_ne_nil _ _⟩
  · cases h

/-- **Items that are read derive.** Behind an item a raw hyphen is the last. -/
theorem items_of_classItems {target : Option UInt8} {cursor : Text} {itemCount : ℕ}
    {matched result : Bool} (hcloses : Closes cursor)
    (hedge : itemCount ≠ 0 ∨ cursor.head? ≠ some hyphen)
    (h : classItems target cursor itemCount matched = some result) :
    ∃ items ranges trail, cursor = items ++ edge trail ∧ ClassItems items ranges := by
  induction hlength : cursor.length using Nat.strong_induction_on
    generalizing cursor itemCount matched with
  | _ length ih =>
      match cursor with
      | [] => exact ⟨[], [], false, rfl, .nil⟩
      | c :: rest =>
          by_cases hc : c = hyphen
          · -- a raw hyphen: nothing is behind it
            subst hc
            have hcount : itemCount ≠ 0 := hedge.resolve_right fun hne => hne rfl
            rw [classItems_hyphen] at h
            split_ifs at h with hlast
            have hrest : rest = [] := not_not.mp fun hne => hlast ⟨hcount, hne⟩
            exact ⟨[], [], true, by rw [hrest]; rfl, .nil⟩
          cases hfirst : readClassAtom (c :: rest) with
          | none =>
              rw [classItems_atom hc, hfirst] at h
              cases h
          | some read =>
              obtain ⟨first, behind⟩ := read
              obtain ⟨atom, hatom, heq⟩ := atom_of_readClassAtom hfirst hcloses.head_ne
              have hbehind : Closes behind := (heq ▸ hcloses).behind_atom hatom
              have hshorter := length_readClassAtom hfirst
              cases hrange : rangeRest behind with
              | none =>
                  -- a single byte
                  rw [classItems_single hc hfirst hrange] at h
                  obtain ⟨items, ranges, trail, rfl, hitems⟩ :=
                    ih behind.length (by omega) hbehind (Or.inl (by omega)) h rfl
                  exact ⟨atom ++ items, _, trail, by rw [heq, List.append_assoc],
                    .single hatom hitems⟩
              | some tail =>
                  -- a hyphen with something behind it: the next atom ends the range
                  obtain ⟨rfl, htail⟩ := rangeRest_eq_some hrange
                  have hcloses' := hbehind.behind_hyphen
                  cases hlast : readClassAtom tail with
                  | none =>
                      simp only [classItems_atom hc, hfirst, Option.bind_some, hrange, hlast] at h
                      cases h
                  | some read =>
                      obtain ⟨last, after⟩ := read
                      obtain ⟨atom', hatom', heq'⟩ := atom_of_readClassAtom hlast hcloses'.head_ne
                      have hshorter' := length_readClassAtom hlast
                      rw [classItems_range hc hfirst htail hlast] at h
                      split_ifs at h with hless
                      rw [List.length_cons] at hshorter
                      obtain ⟨items, ranges, trail, rfl, hitems⟩ :=
                        ih after.length (by omega) ((heq' ▸ hcloses').behind_atom hatom')
                          (Or.inl (by omega)) h rfl
                      refine ⟨atom ++ hyphen :: (atom' ++ items), _, trail, ?_,
                        .range hatom hatom' (UInt8.not_lt.mp hless) hitems⟩
                      rw [heq, heq', List.append_assoc, List.cons_append, List.append_assoc]

/-! ## Classes -/

theorem hits_edge (target : Option UInt8) (present : Bool) :
    hits target (edgeRanges present) = (present && target.any fun t => t = hyphen) := by
  cases present with
  | false => exact hits_nil target
  | true =>
      rw [edgeRanges, if_pos rfl, hits_cons, hits_nil, Bool.or_false, any_eq_range, Bool.true_and]

/-- **A content that derives is read whole.** -/
theorem classItems_of_content {content : Text} {ranges : List (UInt8 × UInt8)}
    (h : ClassContent content ranges) (target : Option UInt8) :
    classItems target content 0 false = some (hits target ranges) := by
  cases h with
  | @mk lead trail items ranges hitems hne =>
      cases lead with
      | true =>
          rw [show edge true ++ items ++ edge trail = hyphen :: (items ++ edge trail) from rfl,
            classItems_hyphen, if_neg (by simp), classItems_of_items hitems, if_neg (by omega),
            hits_append, hits_append, hits_append, hits_edge target true, Bool.false_or, Bool.true_and,
            Bool.or_assoc]
      | false =>
          rw [show edge false ++ items ++ edge trail = items ++ edge trail from rfl] at hne ⊢
          rw [classItems_of_items hitems, if_neg fun hnil => hne hnil.2, Bool.false_or]
          rfl

theorem content_of_classItems {target : Option UInt8} {content : Text} {result : Bool}
    (hcloses : Closes content) (hne : content ≠ [])
    (h : classItems target content 0 false = some result) :
    ∃ ranges, ClassContent content ranges := by
  by_cases hlead : content.head? = some hyphen
  · match content, hlead with
    | _ :: rest, rfl =>
        rw [classItems_hyphen, if_neg (by simp)] at h
        obtain ⟨items, ranges, trail, rfl, hitems⟩ :=
          items_of_classItems hcloses.behind_hyphen (Or.inl (by omega)) h
        exact ⟨_, .mk true trail hitems hne⟩
  · obtain ⟨items, ranges, trail, rfl, hitems⟩ := items_of_classItems hcloses (Or.inr hlead) h
    exact ⟨_, .mk false trail hitems hne⟩

/-- **A body that derives is parsed**, and its ranges are compared with the target. -/
theorem parseClass_of_body {body : Text} {negated : Bool} {ranges : List (UInt8 × UInt8)}
    (h : ClassBody body negated ranges) (after : Text) (target : Option UInt8) :
    parseClass (leftBracket :: (body ++ rightBracket :: after)) target =
      .ok (after, if negated then !hits target ranges else hits target ranges) := by
  refine parseClass_eq_ok.mpr ?_
  cases h with
  | @positive content ranges hcontent hbang hcaret =>
      have hmarker : classMarker (body ++ rightBracket :: after) =
          (false, body ++ rightBracket :: after) := by
        cases body with
        | nil => rfl
        | cons c rest =>
            rw [List.cons_append, classMarker, if_neg]
            rintro (rfl | rfl)
            · exact hbang rfl
            · exact hcaret rfl
      refine ⟨_, body, hits target ranges, rfl, ?_, ?_, classItems_of_content hcontent target, ?_⟩
      · rw [hmarker]
        exact locateEnd_of_content hcontent after
      · cases hcontent with
        | mk lead trail hitems hne => exact hne
      · rw [hmarker]
  | @negative content ranges marker hmark hcontent =>
      have hmarker : classMarker (marker :: content ++ rightBracket :: after) =
          (true, content ++ rightBracket :: after) := by
        rw [List.cons_append, classMarker, if_pos hmark]
      refine ⟨_, content, hits target ranges, rfl, ?_, ?_, classItems_of_content hcontent target, ?_⟩
      · rw [hmarker]
        exact locateEnd_of_content hcontent after
      · cases hcontent with
        | mk lead trail hitems hne => exact hne
      · rw [hmarker]

theorem body_of_parseClass {pattern after : Text} {target : Option UInt8} {found : Bool}
    (h : parseClass pattern target = .ok (after, found)) :
    ∃ body negated ranges, pattern = leftBracket :: (body ++ rightBracket :: after) ∧
      ClassBody body negated ranges := by
  obtain ⟨cursor, content, matched, rfl, hlocated, hne, hitems, -⟩ := parseClass_eq_ok.mp h
  obtain ⟨ranges, hcontent⟩ :=
    content_of_classItems (closes_of_locateEnd hlocated) hne hitems
  have heq := eq_of_locateEnd hlocated
  cases cursor with
  | nil =>
      cases hlocated
  | cons c rest =>
      by_cases hmark : c = bang ∨ c = caret
      · rw [classMarker, if_pos hmark] at heq
        obtain rfl : rest = content ++ rightBracket :: after := heq
        exact ⟨c :: content, true, ranges, rfl, .negative c hmark hcontent⟩
      · rw [classMarker, if_neg hmark] at heq
        replace heq : c :: rest = content ++ rightBracket :: after := heq
        refine ⟨content, false, ranges, by rw [heq], .positive hcontent ?_ ?_⟩
        · rintro hhead
          obtain ⟨content, rfl⟩ := List.head?_eq_some_iff.mp hhead
          exact hmark (Or.inl (List.cons.inj heq).1)
        · rintro hhead
          obtain ⟨content, rfl⟩ := List.head?_eq_some_iff.mp hhead
          exact hmark (Or.inr (List.cons.inj heq).1)

/-! ## Patterns -/

/-- A class that does not parse is malformed. -/
theorem status_of_parseClass {cursor : Text} {target : Option UInt8} {status : AsciiGlobStatus}
    (h : parseClass (leftBracket :: cursor) target = .error status) : status = .malformedPattern := by
  unfold parseClass at h
  dsimp only at h
  rw [if_neg (not_not.mpr rfl)] at h
  split at h
  · cases h
    rfl
  · rename_i content after hlocated
    by_cases hcontent : content = []
    · rw [if_pos hcontent] at h
      cases h
      rfl
    · rw [if_neg hcontent] at h
      split at h
      · cases h
        rfl
      · cases h

theorem validate_nil : asciiGlobValidate [] = .ok := by rw [asciiGlobValidate.eq_def]

theorem validate_dangling : asciiGlobValidate [backslash] = .malformedPattern := by
  rw [asciiGlobValidate.eq_def]
  exact if_pos rfl

theorem validate_escaped (b : UInt8) (cursor : Text) :
    asciiGlobValidate (backslash :: b :: cursor) = asciiGlobValidate cursor := by
  rw [asciiGlobValidate.eq_def]
  exact if_pos rfl

theorem validate_class_ok {cursor after : Text} {found : Bool}
    (h : parseClass (leftBracket :: cursor) none = .ok (after, found)) :
    asciiGlobValidate (leftBracket :: cursor) = asciiGlobValidate after := by
  rw [asciiGlobValidate.eq_def]
  dsimp only
  rw [if_neg (by decide), if_pos rfl]
  split
  · rename_i herror
    rw [h] at herror
    cases herror
  · rename_i hok
    rw [h] at hok
    cases hok
    rfl

theorem validate_class_error {cursor : Text} {status : AsciiGlobStatus}
    (h : parseClass (leftBracket :: cursor) none = .error status) :
    asciiGlobValidate (leftBracket :: cursor) = .malformedPattern := by
  rw [asciiGlobValidate.eq_def]
  dsimp only
  rw [if_neg (by decide), if_pos rfl]
  split
  · rename_i herror
    exact status_of_parseClass herror
  · rename_i hok
    rw [h] at hok
    cases hok

theorem validate_plain {c : UInt8} (hslash : c ≠ backslash) (hbracket : c ≠ leftBracket)
    (cursor : Text) : asciiGlobValidate (c :: cursor) = asciiGlobValidate cursor := by
  rw [asciiGlobValidate.eq_def]
  dsimp only
  rw [if_neg hslash, if_neg hbracket]

theorem validate_of_derives {pattern : Text} {tokens : List (Token UInt8)}
    (h : Derives pattern tokens) : asciiGlobValidate pattern = .ok := by
  induction h with
  | nil => exact validate_nil
  | star h ih => rw [validate_plain (by decide) (by decide), ih]
  | any h ih => rw [validate_plain (by decide) (by decide), ih]
  | cls hbody h ih => rw [validate_class_ok (parseClass_of_body hbody _ none), ih]
  | escaped b h ih => rw [validate_escaped, ih]
  | literal hstar hany hbracket hslash h ih => rw [validate_plain hslash hbracket, ih]

/-- A pattern derives or is malformed. -/
theorem derives_or_malformed (pattern : Text) :
    (∃ tokens, Derives pattern tokens) ∨ asciiGlobValidate pattern = .malformedPattern := by
  induction hlength : pattern.length using Nat.strong_induction_on generalizing pattern with
  | _ length ih =>
      match pattern with
      | [] => exact Or.inl ⟨[], .nil⟩
      | c :: cursor =>
          rw [List.length_cons] at hlength
          by_cases hslash : c = backslash
          · subst hslash
            match cursor with
            | [] => exact Or.inr validate_dangling
            | b :: cursor =>
                rw [List.length_cons] at hlength
                rw [validate_escaped]
                exact (ih cursor.length (by omega) cursor rfl).imp_left
                  fun ⟨_, htokens⟩ => ⟨_, .escaped b htokens⟩
          by_cases hbracket : c = leftBracket
          · subst hbracket
            cases hclass : parseClass (leftBracket :: cursor) none with
            | error status => exact Or.inr (validate_class_error hclass)
            | ok parsed =>
                obtain ⟨after, found⟩ := parsed
                have hshorter := length_parseClass hclass
                rw [List.length_cons] at hshorter
                obtain ⟨body, negated, ranges, heq, hbody⟩ := body_of_parseClass hclass
                rw [validate_class_ok hclass]
                refine (ih after.length (by omega) after rfl).imp_left fun ⟨tokens, htokens⟩ => ?_
                exact ⟨_, heq ▸ Derives.cls hbody htokens⟩
          rw [validate_plain hslash hbracket]
          refine (ih cursor.length (by omega) cursor rfl).imp_left fun ⟨_, htokens⟩ => ?_
          by_cases hstar : c = asterisk
          · exact ⟨_, hstar ▸ Derives.star htokens⟩
          by_cases hany : c = question
          · exact ⟨_, hany ▸ Derives.any htokens⟩
          · exact ⟨_, .literal hstar hany hbracket hslash htokens⟩

/-- **The validation accepts the patterns that derive**, and calls the others malformed. -/
theorem validate_eq_ok_iff (pattern : Text) :
    asciiGlobValidate pattern = .ok ↔ ∃ tokens, Derives pattern tokens := by
  constructor
  · intro h
    rcases derives_or_malformed pattern with hderives | hmalformed
    · exact hderives
    · rw [h] at hmalformed
      cases hmalformed
  · rintro ⟨tokens, htokens⟩
    exact validate_of_derives htokens

end UnityCommon.AsciiGlob
