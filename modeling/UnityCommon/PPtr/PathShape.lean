import UnityCommon.PPtr.Path

/-!
# What a normalized pathname looks like

The component loop is a simulation of `LexicalPath.reduce`: its output and its
marks are functions of the components kept so far (`trace`). The output itself
is read back through its slash-separated *parts*. Parts and kept components
differ only where a component ends in `:`, because no separator is written
after that byte.
-/

namespace UnityCommon.PPtr

open LexicalPath

/-! ## The loop as a reduction -/

/-- The components the loop acts on: it skips the `.` ones. -/
def names (input : Text) : List Text := (components input).filter (· ≠ dotText)

/-- The lexical reading of a pathname: its components with every cancelled
pair removed. -/
def lexicalComponents (input : Text) : Option (List Text) :=
  reduce dotDotText (isAbsolute input) (names input)

/-- The loop state after keeping exactly these components. -/
def trace (absolute : Bool) (kept : List Text) : Normalizing :=
  kept.foldl keepComponent (startNormalizing absolute)

def renderComponents (absolute : Bool) (kept : List Text) : Text :=
  (trace absolute kept).output

theorem trace_concat (absolute : Bool) (kept : List Text) (c : Text) :
    trace absolute (kept ++ [c]) = keepComponent (trace absolute kept) c := by
  simp [trace]

theorem renderComponents_concat (absolute : Bool) (kept : List Text) (c : Text) :
    renderComponents absolute (kept ++ [c]) =
      appendComponent (renderComponents absolute kept) c := by
  simp [renderComponents, trace_concat, keepComponent]

theorem appendComponent_take (output c : Text) :
    (appendComponent output c).take output.length = output := by
  unfold appendComponent
  cases h : output.getLast? with
  | none => simp [List.getLast?_eq_none_iff.mp h]
  | some last => by_cases hl : last ≠ slash ∧ last ≠ colon <;> simp [hl]

/-- **One round is one push.** The marks make the pop exact. -/
theorem pushComponent_trace (absolute : Bool) (kept : List Text) {c : Text}
    (hc : c ≠ dotText) :
    pushComponent absolute (trace absolute kept) c =
      (push dotDotText absolute kept c).map (trace absolute) := by
  unfold pushComponent push
  rw [if_neg hc]
  by_cases hup : c = dotDotText
  · subst hup
    simp only [if_true]
    rcases List.eq_nil_or_concat kept with rfl | ⟨init, top, rfl⟩
    · cases absolute <;> rfl
    · rw [List.concat_eq_append, trace_concat]
      by_cases ht : top = dotDotText
      · subst ht
        cases absolute with
        | true => simp [keepComponent]
        | false =>
            simp only [List.getLast?_concat, if_true, Bool.false_eq_true, if_false,
              Option.map_some, trace_concat]
            rfl
      · have hflag : (top == dotDotText) = false := by simpa using ht
        simp only [keepComponent, hflag, List.getLast?_concat, if_neg ht,
          List.dropLast_concat, Option.map_some, appendComponent_take]
  · simp [hup, trace_concat]

theorem foldlM_pushComponent (absolute : Bool) : ∀ (cs kept : List Text),
    cs.foldlM (pushComponent absolute) (trace absolute kept) =
      ((cs.filter (· ≠ dotText)).foldlM (push dotDotText absolute) kept).map
        (trace absolute) := by
  intro cs
  induction cs with
  | nil => intro kept; simp
  | cons c cs ih =>
      intro kept
      rw [List.foldlM_cons]
      by_cases hc : c = dotText
      · have hskip : pushComponent absolute (trace absolute kept) c =
            some (trace absolute kept) := by simp [pushComponent, hc]
        rw [hskip, List.filter_cons_of_neg (by simpa using hc)]
        exact ih kept
      · rw [pushComponent_trace absolute kept hc,
          List.filter_cons_of_pos (by simpa using hc), List.foldlM_cons]
        cases push dotDotText absolute kept c with
        | none => rfl
        | some kept' => exact ih kept'

/-- **`normalize_path` computes the lexical reduction** and writes it down. -/
theorem normalizePath_eq (input : Text) :
    normalizePath input =
      if input.length = 0 ∨ maxLocatorBytes < input.length then none
      else (lexicalComponents input).map fun kept =>
        ⟨finishOutput (renderComponents (isAbsolute input) kept),
          isAbsolute input⟩ := by
  unfold normalizePath
  congr 1
  rw [show startNormalizing (isAbsolute input) = trace (isAbsolute input) [] from rfl,
    foldlM_pushComponent, Option.map_map]
  rfl

theorem normalizePath_some {input : Text} {p : NormalizedPath}
    (h : normalizePath input = some p) :
    ∃ kept, lexicalComponents input = some kept ∧
      p = ⟨finishOutput (renderComponents (isAbsolute input) kept),
        isAbsolute input⟩ := by
  rw [normalizePath_eq] at h
  split at h
  · cases h
  · obtain ⟨kept, hk, rfl⟩ := Option.map_eq_some_iff.mp h
    exact ⟨kept, hk, rfl⟩

/-! ## Parts -/

def slashText (absolute : Bool) (parts : List Text) : Text :=
  (if absolute then [slash] else []) ++ [slash].intercalate parts

/-- The text of a part list; the empty relative path is written `.`. -/
def normalText (absolute : Bool) (parts : List Text) : Text :=
  if parts = [] ∧ absolute = false then dotText else slashText absolute parts

def PartOk (c : Text) : Prop := c ≠ [] ∧ slash ∉ c ∧ c ≠ dotText

/-- Where the next component goes: into the last part when that ends in `:`. -/
def glue (parts : List Text) (c : Text) : List Text :=
  match parts.getLast? with
  | some last =>
      if last.getLast? = some colon then parts.dropLast ++ [last ++ c]
      else parts ++ [c]
  | none => [c]

/-- The text invariant of every path the resolver walks over. -/
structure Shape (p : NormalizedPath) (parts : List Text) : Prop where
  text_eq : p.text = normalText p.absolute parts
  part_ok : ∀ c ∈ parts, PartOk c
  reduced : Reduced dotDotText p.absolute parts
  glued : ∀ c ∈ parts.dropLast, c.getLast? ≠ some colon

theorem slashText_concat {absolute : Bool} {parts : List Text} (c : Text)
    (h : parts ≠ []) :
    slashText absolute (parts ++ [c]) = slashText absolute parts ++ slash :: c := by
  unfold slashText
  rw [List.append_assoc]
  congr 1
  induction parts with
  | nil => exact absurd rfl h
  | cons x xs ih =>
      cases xs with
      | nil => simp [List.intercalate]
      | cons y ys =>
          have := ih (by simp)
          rw [List.cons_append, List.cons_append, List.intercalate_cons_cons,
            ← List.cons_append, this, List.intercalate_cons_cons]
          simp

theorem slashText_singleton (absolute : Bool) (c : Text) :
    slashText absolute [c] = slashText absolute [] ++ c := by
  simp [slashText]

/-- Lengthening the last part lengthens the text. -/
theorem slashText_extend (absolute : Bool) (init : List Text) (last more : Text) :
    slashText absolute (init ++ [last ++ more]) =
      slashText absolute (init ++ [last]) ++ more := by
  rcases List.eq_nil_or_concat init with rfl | ⟨_, _, rfl⟩
  · simp [slashText]
  · rw [slashText_concat _ (by simp), slashText_concat _ (by simp)]
    simp

theorem slashText_getLast? {absolute : Bool} {init : List Text} {last : Text}
    (h : last ≠ []) :
    (slashText absolute (init ++ [last])).getLast? = last.getLast? := by
  have := slashText_extend absolute init [] last
  rw [List.nil_append] at this
  rw [this, List.getLast?_append_of_ne_nil _ h]

theorem appendComponent_slashText {absolute : Bool} {parts : List Text} (c : Text)
    (hok : ∀ p ∈ parts, PartOk p) :
    appendComponent (slashText absolute parts) c = slashText absolute (glue parts c) := by
  rcases List.eq_nil_or_concat parts with rfl | ⟨init, last, rfl⟩
  · cases absolute <;> simp [appendComponent, glue, slashText]
  · rw [List.concat_eq_append] at hok ⊢
    have hlast : PartOk last := hok last (by simp)
    obtain ⟨b, hb⟩ : ∃ b, last.getLast? = some b := by
      cases h : last.getLast? with
      | none => exact absurd (List.getLast?_eq_none_iff.mp h) hlast.1
      | some b => exact ⟨b, rfl⟩
    have hslash : b ≠ slash := fun he =>
      hlast.2.1 (he ▸ List.mem_of_getLast? hb)
    unfold appendComponent glue
    rw [slashText_getLast? hlast.1, hb, List.getLast?_concat]
    by_cases hcolon : b = colon
    · simp [hb, hcolon, slashText_extend]
    · rw [← slashText_concat c (by simp)]
      simp [hb, hcolon, hslash]

theorem partOk_glue {parts : List Text} {c : Text} (hok : ∀ p ∈ parts, PartOk p)
    (hc : PartOk c) : ∀ p ∈ glue parts c, PartOk p := by
  intro p hp
  unfold glue at hp
  cases hlast : parts.getLast? with
  | none =>
      rw [hlast] at hp
      rw [List.mem_singleton.mp hp]
      exact hc
  | some last =>
      simp only [hlast] at hp
      have hl := hok last (List.mem_of_getLast? hlast)
      split at hp
      · rcases List.mem_append.mp hp with hp | hp
        · exact hok p (List.mem_of_mem_dropLast hp)
        · rw [List.mem_singleton.mp hp]
          refine ⟨by simp [hl.1], ?_, ?_⟩
          · simp only [List.mem_append, not_or]
            exact ⟨hl.2.1, hc.2.1⟩
          · intro he
            have hlen := congrArg List.length he
            have h1 := List.length_pos_iff.mpr hl.1
            have h2 := List.length_pos_iff.mpr hc.1
            simp only [List.length_append, dotText, ascii] at hlen
            simp at hlen
            omega
      · rcases List.mem_append.mp hp with hp | hp
        · exact hok p hp
        · rw [List.mem_singleton.mp hp]
          exact hc

theorem glued_glue {parts : List Text} {c : Text}
    (h : ∀ p ∈ parts.dropLast, p.getLast? ≠ some colon) :
    ∀ p ∈ (glue parts c).dropLast, p.getLast? ≠ some colon := by
  intro p hp
  unfold glue at hp
  cases hlast : parts.getLast? with
  | none => simp [hlast] at hp
  | some last =>
      simp only [hlast] at hp
      split at hp
      · rw [List.dropLast_concat] at hp
        exact h p hp
      · rename_i hne
        rw [List.dropLast_concat] at hp
        rw [← List.dropLast_append_getLast? last hlast] at hp
        rcases List.mem_append.mp hp with hp | hp
        · exact h p hp
        · rw [List.mem_singleton.mp hp]
          exact hne

/-! ## The components of a text -/

theorem slash_notMem_of_mem_splitOn : ∀ {t w : Text}, w ∈ t.splitOn slash → slash ∉ w
  | [], w, hw => by
      rw [List.splitOn_nil, List.mem_singleton] at hw
      simp [hw]
  | b :: t, w, hw => by
      rw [List.splitOn_cons_eq_if_modifyHead] at hw
      split at hw
      · rcases List.mem_cons.mp hw with rfl | hw
        · simp
        · exact slash_notMem_of_mem_splitOn hw
      · rename_i hb
        obtain ⟨r, rs, hr⟩ := List.exists_cons_of_ne_nil (List.splitOn_ne_nil slash t)
        rw [hr, List.modifyHead_cons] at hw
        rcases List.mem_cons.mp hw with rfl | hw
        · have hr' := slash_notMem_of_mem_splitOn (t := t) (w := r) (by simp [hr])
          simp only [List.mem_cons, not_or]
          exact ⟨fun he => hb (by simp [he]), hr'⟩
        · exact slash_notMem_of_mem_splitOn (t := t) (by rw [hr]; exact List.mem_cons_of_mem _ hw)

theorem partOk_of_mem_names {input c : Text} (h : c ∈ names input) : PartOk c := by
  simp only [names, components, List.mem_filter, decide_eq_true_eq] at h
  exact ⟨h.1.2, slash_notMem_of_mem_splitOn h.1.1, h.2⟩

theorem partOk_of_lexicalComponents {input : Text} {kept : List Text}
    (h : lexicalComponents input = some kept) : ∀ c ∈ kept, PartOk c :=
  fun _ hc => partOk_of_mem_names (mem_of_mem_reduce h hc)

/-! ## The shape of a normalized path -/

def glueAll (kept : List Text) : List Text := kept.foldl glue []

theorem glueAll_concat (kept : List Text) (c : Text) :
    glueAll (kept ++ [c]) = glue (glueAll kept) c := by
  simp [glueAll]

theorem glueAll_ok {kept : List Text} (hok : ∀ c ∈ kept, PartOk c) :
    ∀ p ∈ glueAll kept, PartOk p := by
  induction kept using List.reverseRecOn with
  | nil => simp [glueAll]
  | append_singleton kept c ih =>
      rw [glueAll_concat]
      exact partOk_glue (ih fun p hp => hok p (by simp [hp])) (hok c (by simp))

theorem glueAll_glued (kept : List Text) :
    ∀ p ∈ (glueAll kept).dropLast, p.getLast? ≠ some colon := by
  induction kept using List.reverseRecOn with
  | nil => simp [glueAll]
  | append_singleton kept c ih =>
      rw [glueAll_concat]
      exact glued_glue ih

theorem renderComponents_eq (absolute : Bool) {kept : List Text}
    (hok : ∀ c ∈ kept, PartOk c) :
    renderComponents absolute kept = slashText absolute (glueAll kept) := by
  induction kept using List.reverseRecOn with
  | nil => cases absolute <;> rfl
  | append_singleton kept c ih =>
      have hok' : ∀ c ∈ kept, PartOk c := fun p hp => hok p (by simp [hp])
      rw [renderComponents_concat, ih hok', glueAll_concat,
        appendComponent_slashText c (glueAll_ok hok')]

theorem glue_of_last {parts : List Text}
    (h : ∀ last, parts.getLast? = some last → last.getLast? ≠ some colon) (c : Text) :
    glue parts c = parts ++ [c] := by
  unfold glue
  cases hlast : parts.getLast? with
  | none => simp [List.getLast?_eq_none_iff.mp hlast]
  | some last => simp [h last hlast]

theorem glueAll_replicate (k : ℕ) :
    glueAll (List.replicate k dotDotText) = List.replicate k dotDotText := by
  induction k with
  | zero => rfl
  | succ k ih =>
      rw [List.replicate_succ', glueAll_concat, ih, glue_of_last]
      intro last hlast
      rw [List.eq_of_mem_replicate (List.mem_of_getLast? hlast)]
      decide

/-- Gluing never makes a `..` out of ordinary components. -/
theorem glueAll_reduced {absolute : Bool} {kept : List Text}
    (h : Reduced dotDotText absolute kept) (hok : ∀ c ∈ kept, PartOk c) :
    Reduced dotDotText absolute (glueAll kept) := by
  obtain ⟨k, tail, rfl, hup, hk⟩ := h
  induction tail using List.reverseRecOn with
  | nil => exact ⟨k, [], by simp [glueAll_replicate], by simp, hk⟩
  | append_singleton tail c ih =>
      have hc : c ≠ dotDotText := fun he => hup (by simp [he])
      have hprev := ih (fun p hp => hok p (by
          rcases List.mem_append.mp hp with hp | hp <;> simp [hp]))
        (fun hm => hup (List.mem_append_left _ hm))
      rw [← List.append_assoc, glueAll_concat]
      unfold glue
      split
      · rename_i last hlast
        split
        · rename_i hcolon
          refine hprev.dropLast.append_name fun he => ?_
          have hmem : colon ∈ dotDotText :=
            he ▸ List.mem_append_left c (List.mem_of_getLast? hcolon)
          exact absurd hmem (by decide)
        · exact hprev.append_name hc
      · exact (reduced_nil dotDotText absolute).append_name hc

/-- The parts after the drive-like ending has added its `.`. -/
def finishParts (absolute : Bool) (parts : List Text) : List Text :=
  if (slashText absolute parts).length = 2 ∧
      (slashText absolute parts)[1]? = some colon then
    match parts.getLast? with
    | some last => parts.dropLast ++ [last ++ dotText]
    | none => []
  else parts

theorem slashText_eq_nil_iff {absolute : Bool} {parts : List Text}
    (hok : ∀ p ∈ parts, PartOk p) :
    slashText absolute parts = [] ↔ parts = [] ∧ absolute = false := by
  constructor
  · intro h
    rcases List.eq_nil_or_concat parts with rfl | ⟨init, last, rfl⟩
    · cases absolute <;> simp [slashText] at h ⊢
    · rw [List.concat_eq_append] at h hok
      have := slashText_extend absolute init [] last
      rw [List.nil_append, h] at this
      exact absurd (List.append_eq_nil_iff.mp this.symm).2 (hok last (by simp)).1
  · rintro ⟨rfl, rfl⟩
    rfl

theorem finishOutput_slashText {absolute : Bool} {parts : List Text}
    (hok : ∀ p ∈ parts, PartOk p) :
    finishOutput (slashText absolute parts) =
      normalText absolute (finishParts absolute parts) := by
  unfold finishOutput finishParts normalText
  by_cases hnil : slashText absolute parts = []
  · obtain ⟨rfl, rfl⟩ := (slashText_eq_nil_iff hok).mp hnil
    rfl
  · rw [if_neg hnil]
    rw [slashText_eq_nil_iff hok] at hnil
    split
    · rcases List.eq_nil_or_concat parts with rfl | ⟨init, last, rfl⟩
      · cases absolute <;> simp_all [slashText]
      · simp only [List.concat_eq_append, List.getLast?_concat, List.dropLast_concat]
        rw [if_neg (by simp), slashText_extend]
    · rfl

theorem shape_finishParts {absolute : Bool} {parts : List Text}
    (hok : ∀ p ∈ parts, PartOk p) (hred : Reduced dotDotText absolute parts)
    (hglued : ∀ p ∈ parts.dropLast, p.getLast? ≠ some colon) :
    Shape ⟨finishOutput (slashText absolute parts), absolute⟩
      (finishParts absolute parts) := by
  refine ⟨finishOutput_slashText hok, ?_, ?_, ?_⟩ <;> unfold finishParts <;> split
  case refine_1.isFalse => exact hok
  case refine_2.isFalse => exact hred
  case refine_3.isFalse => exact hglued
  all_goals
    rcases List.eq_nil_or_concat parts with rfl | ⟨init, last, rfl⟩
  case refine_1.isTrue.inl => simp
  case refine_2.isTrue.inl => exact reduced_nil _ _
  case refine_3.isTrue.inl => simp
  all_goals
    rw [List.concat_eq_append] at *
    simp only [List.getLast?_concat, List.dropLast_concat]
  -- the last part lost its dot: it was not empty and has no slash still
  case refine_1.isTrue.inr =>
      have hlast := hok last (by simp)
      intro p hp
      rcases List.mem_append.mp hp with hp | hp
      · exact hok p (by simp [hp])
      · rw [List.mem_singleton.mp hp]
        refine ⟨by simp [hlast.1], ?_, ?_⟩
        · simp only [List.mem_append, not_or]
          exact ⟨hlast.2.1, by decide⟩
        · intro he
          have := List.append_left_eq_self.mp he
          exact hlast.1 this
  case refine_2.isTrue.inr =>
      have hlast := hok last (by simp)
      have hd := hred.dropLast
      rw [List.dropLast_concat] at hd
      refine hd.append_name fun he => hlast.2.2 ?_
      have h2 : dotDotText = dotText ++ dotText := by decide
      rw [h2] at he
      exact List.append_cancel_right he
  case refine_3.isTrue.inr =>
      rw [List.dropLast_concat] at hglued
      exact hglued

/-- **Normalization ends in the invariant**, with the kept components glued. -/
theorem normalizePath_kept {input : Text} {p : NormalizedPath}
    (h : normalizePath input = some p) :
    ∃ kept, lexicalComponents input = some kept ∧
      p = ⟨finishOutput (renderComponents (isAbsolute input) kept), isAbsolute input⟩ ∧
      Shape p (finishParts (isAbsolute input) (glueAll kept)) := by
  obtain ⟨kept, hk, rfl⟩ := normalizePath_some h
  have hok := partOk_of_lexicalComponents hk
  refine ⟨kept, hk, rfl, ?_⟩
  rw [renderComponents_eq _ hok]
  exact shape_finishParts (glueAll_ok hok) (glueAll_reduced (reduce_reduced hk) hok)
    (glueAll_glued kept)

theorem normalizePath_shape {input : Text} {p : NormalizedPath}
    (h : normalizePath input = some p) : ∃ parts, Shape p parts := by
  obtain ⟨kept, -, -, hshape⟩ := normalizePath_kept h
  exact ⟨_, hshape⟩

theorem glueAll_eq_nil_iff {kept : List Text} : glueAll kept = [] ↔ kept = [] := by
  rcases List.eq_nil_or_concat kept with rfl | ⟨init, c, rfl⟩
  · simp [glueAll]
  · rw [List.concat_eq_append, glueAll_concat]
    unfold glue
    split
    · split <;> simp
    · simp

/-- A text whose last part does not end in `:` is finished as it is. -/
theorem finishParts_of_last {absolute : Bool} {parts : List Text}
    (hok : ∀ c ∈ parts, PartOk c) (h : ∀ c ∈ parts, c.getLast? ≠ some colon) :
    finishParts absolute parts = parts := by
  unfold finishParts
  rw [if_neg]
  rintro ⟨hlen, hcolon⟩
  rcases List.eq_nil_or_concat parts with rfl | ⟨init, last, rfl⟩
  · cases absolute <;> simp [slashText] at hlen
  · rw [List.concat_eq_append] at *
    have hlast : (slashText absolute (init ++ [last])).getLast? = some colon := by
      rw [List.getLast?_eq_getElem?, hlen]
      exact hcolon
    rw [slashText_getLast? (hok last (by simp)).1] at hlast
    exact h last (by simp) hlast

/-! ## Reading the parts back -/

/-- The components of a normalized text: what a reader of the text sees. -/
def textComponents (p : NormalizedPath) : List Text := names p.text

theorem components_slashText (absolute : Bool) {parts : List Text}
    (hok : ∀ c ∈ parts, PartOk c) :
    components (slashText absolute parts) = parts := by
  have hsplit : ∀ parts : List Text, (∀ c ∈ parts, PartOk c) →
      components ([slash].intercalate parts) = parts := by
    intro parts hok
    cases parts with
    | nil => rfl
    | cons c cs =>
        rw [components, List.splitOn_intercalate slash
          (fun l hl => (hok l hl).2.1) (by simp)]
        exact List.filter_eq_self.mpr fun l hl => by simpa using (hok l hl).1
  cases absolute with
  | false => simpa [slashText] using hsplit parts hok
  | true =>
      have : components (slash :: [slash].intercalate parts) =
          components ([slash].intercalate parts) := by
        simp [components, List.splitOn_cons_eq_if_modifyHead]
      simpa [slashText, this] using hsplit parts hok

theorem Shape.textComponents_eq {p : NormalizedPath} {parts : List Text}
    (h : Shape p parts) : textComponents p = parts := by
  unfold textComponents names
  rw [h.text_eq]
  unfold normalText
  split
  · rename_i hnil
    rw [hnil.1]
    rfl
  · rw [components_slashText _ h.part_ok]
    exact List.filter_eq_self.mpr fun c hc => by simpa using (h.part_ok c hc).2.2

theorem Shape.unique {p : NormalizedPath} {parts parts' : List Text}
    (h : Shape p parts) (h' : Shape p parts') : parts = parts' :=
  h.textComponents_eq.symm.trans h'.textComponents_eq

/-- The text and the absoluteness determine each other and the parts. -/
theorem Shape.ext {p q : NormalizedPath} {parts : List Text} (hp : Shape p parts)
    (hq : Shape q parts) (h : p.absolute = q.absolute) : p = q := by
  have : p.text = q.text := by rw [hp.text_eq, hq.text_eq, h]
  cases p; cases q; simp_all

/-- The path with these parts. -/
def pathOf (absolute : Bool) (parts : List Text) : NormalizedPath :=
  ⟨normalText absolute parts, absolute⟩

theorem Shape.eq_pathOf {p : NormalizedPath} {parts : List Text} (h : Shape p parts) :
    p = pathOf p.absolute parts := by
  obtain ⟨text, absolute⟩ := p
  rw [pathOf, ← h.text_eq]

/-- Cutting parts off the end keeps the invariant. -/
theorem Shape.of_append {p : NormalizedPath} {parts more : List Text}
    (h : Shape p (parts ++ more)) : Shape (pathOf p.absolute parts) parts := by
  refine ⟨rfl, fun c hc => h.part_ok c (by simp [hc]), h.reduced.of_append, ?_⟩
  intro c hc
  refine h.glued c ?_
  cases more with
  | nil => simpa using hc
  | cons d ds =>
      rw [List.dropLast_append_of_ne_nil (by simp)]
      exact List.mem_append_left _ (List.mem_of_mem_dropLast hc)

theorem isPrefixOf_iff {a b : Text} : a.isPrefixOf b = true ↔ a <+: b :=
  List.isPrefixOf_iff_prefix

/-- A slash-terminated text prefix is a part prefix. -/
theorem slashText_prefix_iff (absolute : Bool) {root parts : List Text}
    (hroot : ∀ c ∈ root, PartOk c) (hparts : ∀ c ∈ parts, PartOk c) (hne : root ≠ []) :
    slashText absolute root = slashText absolute parts ∨
        slashText absolute root ++ [slash] <+: slashText absolute parts ↔
      root <+: parts := by
  constructor
  · rintro (h | ⟨rest, h⟩)
    · rw [← components_slashText absolute hroot, h,
        components_slashText absolute hparts]
    · have hc := congrArg components h
      have hsplit : components (slashText absolute root ++ [slash] ++ rest) =
          components (slashText absolute root) ++ components rest := by
        simp only [components, List.append_assoc, List.singleton_append,
          List.splitOn_append_cons_self, List.filter_append]
      rw [hsplit, components_slashText _ hroot, components_slashText _ hparts] at hc
      exact ⟨_, hc⟩
  · rintro ⟨rest, rfl⟩
    cases rest with
    | nil => exact Or.inl (by simp)
    | cons c rest =>
        refine Or.inr ?_
        have hstep : slashText absolute root ++ [slash] <+:
            slashText absolute (root ++ [c]) := by
          rw [slashText_concat c hne]
          exact ⟨c, by simp⟩
        refine hstep.trans ?_
        have h := slashText_prefix_append (root ++ [c]) rest (by simp)
        rwa [List.append_assoc, List.singleton_append] at h
where
  slashText_prefix_append (init rest : List Text) (h : init ≠ []) :
      slashText absolute init <+: slashText absolute (init ++ rest) := by
    induction rest using List.reverseRecOn with
    | nil => simp
    | append_singleton rest c ih =>
        rw [← List.append_assoc, slashText_concat c (by simp [h])]
        exact ih.trans (List.prefix_append _ _)

theorem append_singleton_prefix_iff {a b : Text} {x : UInt8} :
    a ++ [x] <+: b ↔ a <+: b ∧ b[a.length]? = some x := by
  constructor
  · rintro ⟨rest, rfl⟩
    exact ⟨⟨[x] ++ rest, by simp⟩, by simp⟩
  · rintro ⟨⟨rest, rfl⟩, hx⟩
    rw [List.getElem?_append_right le_rfl, Nat.sub_self] at hx
    cases rest with
    | nil => cases hx
    | cons y rest =>
        simp only [List.getElem?_cons_zero, Option.some.injEq] at hx
        exact ⟨rest, by simp [hx]⟩

theorem Shape.text_of_ne_nil {p : NormalizedPath} {parts : List Text}
    (h : Shape p parts) (hne : parts ≠ []) : p.text = slashText p.absolute parts := by
  rw [h.text_eq, normalText, if_neg (by simp [hne])]

theorem Shape.text_eq_dot_iff {p : NormalizedPath} {parts : List Text}
    (h : Shape p parts) :
    p.text = dotText ↔ parts = [] ∧ p.absolute = false := by
  constructor
  · intro ht
    have hc := h.textComponents_eq
    unfold textComponents at hc
    rw [ht, show names dotText = [] from by decide] at hc
    refine ⟨hc.symm, ?_⟩
    have := h.text_eq
    rw [ht, ← hc] at this
    cases ha : p.absolute with
    | false => rfl
    | true =>
        rw [ha] at this
        exact absurd this (by decide)
  · rintro ⟨rfl, ha⟩
    rw [h.text_eq, ha]
    rfl

/-- The `.` root's own test: the text does not start with the component `..`. -/
theorem Shape.not_climbing_iff {p : NormalizedPath} {parts : List Text}
    (h : Shape p parts) (ha : p.absolute = false) :
    (p.text ≠ dotDotText ∧ ¬ dotDotText ++ [slash] <+: p.text) ↔
      parts.head? ≠ some dotDotText := by
  by_cases hne : parts = []
  · have ht := h.text_eq_dot_iff.mpr ⟨hne, ha⟩
    subst hne
    rw [ht]
    decide
  · have hup : ∀ c ∈ [dotDotText], PartOk c := by
      intro c hc
      rw [List.mem_singleton.mp hc]
      exact ⟨by decide, by decide, by decide⟩
    have hkey := slashText_prefix_iff false hup h.part_ok (by simp)
    have htext := h.text_of_ne_nil hne
    rw [ha] at htext
    rw [slashText_singleton, ← htext, show slashText false [] ++ dotDotText = dotDotText
      from rfl] at hkey
    have hhead : [dotDotText] <+: parts ↔ parts.head? = some dotDotText := by
      cases parts with
      | nil => simp
      | cons c cs => simp [List.cons_prefix_cons, eq_comm]
    rw [← not_or, ne_eq, not_iff_not, eq_comm, hkey, hhead]

/-- Below a root with parts the two text tests are part prefix. -/
theorem Shape.prefix_iff {p r : NormalizedPath} {pp rp : List Text}
    (hp : Shape p pp) (hr : Shape r rp) (habs : p.absolute = r.absolute)
    (hne : rp ≠ []) (htext : p.text ≠ r.text) :
    r.text <+: p.text ∧ p.text[r.text.length]? = some slash ↔ rp <+: pp := by
  rw [← append_singleton_prefix_iff, hr.text_of_ne_nil hne, ← habs]
  have hrt := hr.text_of_ne_nil hne
  rw [← habs] at hrt
  by_cases hpn : pp = []
  · subst hpn
    refine iff_of_false ?_ (by simpa using hne)
    intro hpre
    have hlen := hpre.length_le
    have htext : p.text.length = 1 := by
      rw [hp.text_eq]
      cases p.absolute <;> rfl
    rw [htext, List.length_append, List.length_singleton] at hlen
    have hempty : slashText p.absolute rp = [] :=
      List.length_eq_zero_iff.mp (by omega)
    exact hne ((slashText_eq_nil_iff hr.part_ok).mp hempty).1
  · rw [hp.text_of_ne_nil hpn, ← slashText_prefix_iff p.absolute hr.part_ok hp.part_ok hne]
    refine ⟨Or.inr, fun h => h.resolve_left fun he => ?_⟩
    exact htext (by rw [hp.text_of_ne_nil hpn, hrt, he])

/-- **What the prefix tests decide.** On normalized texts `path_is_within` is
component prefix, except that below the `.` root a leading `..` is refused. -/
theorem pathIsWithin_iff {p r : NormalizedPath} {pp rp : List Text}
    (hp : Shape p pp) (hr : Shape r rp) :
    pathIsWithin p r = true ↔
      p.absolute = r.absolute ∧ rp <+: pp ∧ (rp = [] → pp.head? ≠ some dotDotText) := by
  unfold pathIsWithin
  by_cases habs : p.absolute = r.absolute
  swap
  · simp [habs]
  simp only [habs, ne_eq, not_true_eq_false, if_false, true_and]
  by_cases heq : p.text = r.text
  · -- equal texts are equal paths, so the parts agree
    have hpr : p = r := by cases p; cases r; simp_all
    subst hpr
    rw [if_pos heq, hp.unique hr]
    simp only [List.prefix_rfl, true_and, true_iff]
    rintro rfl
    simp
  rw [if_neg heq]
  by_cases hdot : r.absolute = false ∧ r.text = dotText
  · rw [if_pos (by simpa using hdot)]
    obtain ⟨hnil, -⟩ := hr.text_eq_dot_iff.mp hdot.2
    subst hnil
    rw [decide_eq_true_iff, isPrefixOf_iff, hp.not_climbing_iff (habs.trans hdot.1)]
    simp
  rw [if_neg (by simpa using hdot)]
  by_cases hnil : rp = []
  · -- the remaining root without parts is `/`
    subst hnil
    have hrabs : r.absolute = true := by
      by_contra hf
      have hf' : r.absolute = false := by simpa using hf
      exact hdot ⟨hf', hr.text_eq_dot_iff.mpr ⟨rfl, hf'⟩⟩
    have hrt : r.text = [slash] := by
      rw [hr.text_eq, hrabs]
      rfl
    have hpt : p.text = slash :: [slash].intercalate pp := by
      rw [hp.text_eq, normalText, if_neg (by simp [habs, hrabs]), habs, hrabs]
      rfl
    have hnodd : pp.head? ≠ some dotDotText := by
      have hred := hp.reduced
      rw [habs, hrabs] at hred
      exact hred.head?_ne
    simp [hrt, hpt, hnodd]
  · have hrt := hr.text_of_ne_nil hnil
    have hlast : r.text.getLast? ≠ some slash := by
      obtain ⟨init, last, rfl⟩ := (List.eq_nil_or_concat rp).resolve_left hnil
      rw [List.concat_eq_append] at hrt hr
      have hok := hr.part_ok last (by simp)
      rw [hrt, slashText_getLast? hok.1]
      exact fun hm => hok.2.1 (List.mem_of_getLast? hm)
    have hstep := hp.prefix_iff hr habs hnil heq
    rw [if_neg hlast]
    by_cases hpre : r.text.isPrefixOf p.text = true
    · rw [if_neg (by simp [hpre])]
      rw [decide_eq_true_iff, ← hstep]
      simp [hnil, isPrefixOf_iff.mp hpre]
    · rw [if_pos (by simpa using hpre)]
      have : ¬ rp <+: pp := fun h =>
        hpre (isPrefixOf_iff.mpr (hstep.mpr h).1)
      simp [this]

/-! ## Normalizing a normalized text -/

theorem Shape.isAbsolute_text {p : NormalizedPath} {parts : List Text} (h : Shape p parts) :
    isAbsolute p.text = p.absolute := by
  rw [h.text_eq]
  cases ha : p.absolute with
  | true => simp [normalText, slashText, isAbsolute]
  | false =>
      cases parts with
      | nil => rfl
      | cons c cs =>
          obtain ⟨hne, hslash, -⟩ := h.part_ok c (by simp)
          obtain ⟨b, bs, rfl⟩ := List.exists_cons_of_ne_nil hne
          have hb : b ≠ slash := fun he => hslash (by simp [he])
          cases cs <;> simp [normalText, slashText, isAbsolute, List.intercalate, hb]

theorem glueAll_of_glued {parts : List Text}
    (h : ∀ c ∈ parts.dropLast, c.getLast? ≠ some colon) : glueAll parts = parts := by
  induction parts using List.reverseRecOn with
  | nil => rfl
  | append_singleton parts c ih =>
      rw [List.dropLast_concat] at h
      have hprev := ih fun d hd => h d (List.mem_of_mem_dropLast hd)
      rw [glueAll_concat, hprev, glue_of_last]
      exact fun last hlast => h last (List.mem_of_getLast? hlast)

/-- A path with the invariant is a fixed point, the drive-like two-byte text
apart. -/
theorem Shape.normalizePath_text {p : NormalizedPath} {parts : List Text}
    (h : Shape p parts) (hlen : p.text.length ≤ maxLocatorBytes)
    (hdrive : ¬ (p.text.length = 2 ∧ p.text[1]? = some colon)) :
    normalizePath p.text = some p := by
  have hne : p.text ≠ [] := by
    rw [h.text_eq, normalText]
    split
    · simp [dotText, ascii]
    · rename_i hnil
      exact fun he => hnil ((slashText_eq_nil_iff h.part_ok).mp he)
  have hkept : lexicalComponents p.text = some parts := by
    have hnames : names p.text = parts := h.textComponents_eq
    rw [lexicalComponents, hnames, h.isAbsolute_text]
    exact h.reduced.reduce_eq
  have hpos := List.length_pos_iff.mpr hne
  rw [normalizePath_eq, if_neg (by omega), hkept, Option.map_some, h.isAbsolute_text,
    renderComponents_eq _ h.part_ok, glueAll_of_glued h.glued]
  have htext : finishOutput (slashText p.absolute parts) = p.text := by
    unfold finishOutput
    by_cases hnil : slashText p.absolute parts = []
    · rw [if_pos hnil, h.text_eq, normalText,
        if_pos ((slashText_eq_nil_iff h.part_ok).mp hnil)]
    · have ht : p.text = slashText p.absolute parts := by
        rw [h.text_eq, normalText, if_neg]
        exact fun hn => hnil ((slashText_eq_nil_iff h.part_ok).mpr hn)
      rw [if_neg hnil, ← ht, if_neg hdrive]
  rw [htext]

end UnityCommon.PPtr
