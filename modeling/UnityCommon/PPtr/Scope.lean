import UnityCommon.PPtr.Walk

/-!
# Lexical scope containment

The loose route selects a node by equality of normalized texts and checks the
text against the scope root. This file compares that with containment of the
pathnames the caller gave: same absoluteness, component prefix, no `..` in the
remainder. Two things separate them. A root that is all `..` does not stop a
longer run of `..`; and a separator dropped after `:` makes two pathnames with
different components equal. Which node a call selects is another file's.
-/

namespace UnityCommon.PPtr

open LexicalPath

/-! ## Containment of normalized paths -/

/-- `p` is `r` or a lexical descendant of `r`. -/
def DenotesWithin (p r : NormalizedPath) : Prop :=
  p.absolute = r.absolute ∧ Within dotDotText (textComponents r) (textComponents p)

/-- The root is a nonempty run of `..` and the path climbs further. -/
def ClimbsAbove (p r : NormalizedPath) : Prop :=
  p.absolute = r.absolute ∧ textComponents r ≠ [] ∧
    (∀ c ∈ textComponents r, c = dotDotText) ∧
      (textComponents p)[(textComponents r).length]? = some dotDotText

theorem within_iff {up : Text} {rooted : Bool} {root cs : List Text}
    (h : Reduced up rooted cs) :
    Within up root cs ↔
      root <+: cs ∧ ¬ ((∀ c ∈ root, c = up) ∧ cs[root.length]? = some up) := by
  unfold Within
  refine and_congr_right fun hpre => ?_
  rw [h.up_mem_drop_iff hpre]

/-- **Where the prefix test is right on normalized paths.** -/
theorem pathIsWithin_denotes_iff {p r : NormalizedPath} {pp rp : List Text}
    (hp : Shape p pp) (hr : Shape r rp) :
    (pathIsWithin p r = true ↔ DenotesWithin p r) ↔ ¬ ClimbsAbove p r := by
  unfold DenotesWithin ClimbsAbove
  rw [pathIsWithin_iff hp hr, hp.textComponents_eq, hr.textComponents_eq,
    within_iff hp.reduced]
  by_cases habs : p.absolute = r.absolute
  swap
  · simp [habs]
  simp only [habs, true_and]
  by_cases hnil : rp = []
  · subst hnil
    simp [List.head?_eq_getElem?]
  · have hpre : (∀ c ∈ rp, c = dotDotText) → pp[rp.length]? = some dotDotText → rp <+: pp :=
      fun hall hget => hp.reduced.replicate_prefix hall hget
    simp only [hnil, ne_eq, not_false_eq_true, true_and, false_implies, and_true]
    tauto

/-! ## Containment of the caller's pathnames -/

/-- The outer pathname denotes the scope root or something below it. -/
def Contained (scope outer : Text) : Prop :=
  isAbsolute outer = isAbsolute scope ∧
    ∃ root cs, lexicalComponents scope = some root ∧ lexicalComponents outer = some cs ∧
      Within dotDotText root cs

/-- The two lists part at a component that ends in `:` and begins the other's. -/
def PartsAtColon (root cs : List Text) : Prop :=
  ∃ front x y, front ++ [x] <+: root ∧ front ++ [y] <+: cs ∧ x ≠ y ∧
    ((x.getLast? = some colon ∧ x <+: y) ∨ (y.getLast? = some colon ∧ y <+: x))

theorem PartsAtColon.not_prefix {root cs : List Text} (h : PartsAtColon root cs) :
    ¬ root <+: cs := by
  obtain ⟨front, x, y, hx, hy, hne, -⟩ := h
  intro hpre
  have hsame := (List.prefix_of_prefix_length_le (hx.trans hpre) hy (by simp)).eq_of_length
    (by simp)
  exact hne (by simpa using hsame)

theorem PartsAtColon.cons {root cs : List Text} (c : Text) (h : PartsAtColon root cs) :
    PartsAtColon (c :: root) (c :: cs) := by
  obtain ⟨front, x, y, hx, hy, hrest⟩ := h
  exact ⟨c :: front, x, y, by simpa using hx, by simpa using hy, hrest⟩

/-- What a component that ends in `:` does to the parts after it. -/
def joinHead (c : Text) : List Text → List Text
  | [] => [c]
  | part :: parts => (c ++ part) :: parts

theorem glue_append_singleton {init : List Text} {last c : Text} :
    glue (init ++ [last]) c =
      if last.getLast? = some colon then init ++ [last ++ c] else init ++ [last, c] := by
  unfold glue
  rw [List.getLast?_concat, List.dropLast_concat, List.append_assoc]
  rfl

theorem glue_cons {part c : Text} {parts : List Text} (h : parts ≠ []) :
    glue (part :: parts) c = part :: glue parts c := by
  obtain ⟨init, last, rfl⟩ := (List.eq_nil_or_concat parts).resolve_left h
  rw [List.concat_eq_append, ← List.cons_append, glue_append_singleton, glue_append_singleton]
  split <;> rfl

theorem glue_joinHead {c d : Text} {parts : List Text} (hne : parts ≠ [])
    (hok : ∀ p ∈ parts, p ≠ []) :
    glue (joinHead c parts) d = joinHead c (glue parts d) := by
  cases parts with
  | nil => exact absurd rfl hne
  | cons part parts =>
      cases parts with
      | nil =>
          have hpart : (c ++ part).getLast? = part.getLast? :=
            List.getLast?_append_of_ne_nil _ (hok part (by simp))
          have hglue : ∀ p : Text, glue [p] d =
              if p.getLast? = some colon then [p ++ d] else [p, d] := by
            intro p
            simpa using @glue_append_singleton [] p d
          rw [joinHead, hglue, hglue, hpart]
          split <;> simp [joinHead]
      | cons next parts =>
          exact (glue_cons (List.cons_ne_nil next parts)).trans
            (congrArg (joinHead c) (glue_cons (List.cons_ne_nil next parts))).symm

theorem glueAll_ne_nil {cs : List Text} (hok : ∀ c ∈ cs, c ≠ []) :
    ∀ part ∈ glueAll cs, part ≠ [] := by
  induction cs using List.reverseRecOn with
  | nil => simp [glueAll]
  | append_singleton cs c ih =>
      have hprev := ih fun d hd => hok d (by simp [hd])
      have hc : c ≠ [] := hok c (by simp)
      rw [glueAll_concat]
      rcases List.eq_nil_or_concat (glueAll cs) with hnil | ⟨init, last, hlast⟩
      · simpa [hnil, glue] using hc
      · rw [List.concat_eq_append] at hlast
        rw [hlast] at hprev ⊢
        rw [glue_append_singleton]
        intro part hpart
        split at hpart
        · rcases List.mem_append.mp hpart with hpart | hpart
          · exact hprev part (by simp [hpart])
          · rw [List.mem_singleton.mp hpart]
            simp [hc]
        · simp only [List.mem_append, List.mem_cons, List.not_mem_nil, or_false] at hpart
          rcases hpart with hpart | rfl | rfl
          · exact hprev part (by simp [hpart])
          · exact hprev part (by simp)
          · exact hc

/-- **The parts from the front.** -/
theorem glueAll_cons {c : Text} {cs : List Text} (hok : ∀ d ∈ cs, d ≠ []) :
    glueAll (c :: cs) =
      if c.getLast? = some colon then joinHead c (glueAll cs) else c :: glueAll cs := by
  induction cs using List.reverseRecOn with
  | nil => simp [glueAll, glue, joinHead]
  | append_singleton cs d ih =>
      have hcs : ∀ p ∈ cs, p ≠ [] := fun p hp => hok p (by simp [hp])
      rw [← List.cons_append, glueAll_concat, glueAll_concat, ih hcs]
      by_cases hnil : cs = []
      · subst hnil
        by_cases hc : c.getLast? = some colon <;> simp [glueAll, glue, joinHead, hc]
      · have hparts : glueAll cs ≠ [] := fun he => hnil (glueAll_eq_nil_iff.mp he)
        split
        · exact glue_joinHead hparts (glueAll_ne_nil hcs)
        · exact glue_cons hparts

/-- The first part is the first component and what was written into it. -/
theorem head_glueAll {c : Text} {cs : List Text} (hok : ∀ d ∈ cs, d ≠ []) :
    ∃ more rest, glueAll (c :: cs) = (c ++ more) :: rest ∧
      (c.getLast? ≠ some colon → more = []) := by
  rw [glueAll_cons hok]
  split
  · rename_i hc
    cases hparts : glueAll cs with
    | nil => exact ⟨[], [], by simp [joinHead], fun _ => rfl⟩
    | cons part parts => exact ⟨part, parts, rfl, fun h => absurd hc h⟩
  · exact ⟨[], glueAll cs, by simp, fun _ => rfl⟩

/-- Behind a common component the parts are in prefix order still. -/
theorem glueAll_prefix_tail {c : Text} {cs ds : List Text} (hcs : ∀ p ∈ cs, p ≠ [])
    (hds : ∀ p ∈ ds, p ≠ []) (h : glueAll (c :: cs) <+: glueAll (c :: ds)) :
    glueAll cs <+: glueAll ds := by
  rw [glueAll_cons hcs, glueAll_cons hds] at h
  split at h
  · cases hc : glueAll cs with
    | nil => exact List.nil_prefix
    | cons part parts =>
        rw [hc] at h
        cases hd : glueAll ds with
        | nil =>
            have hpart := glueAll_ne_nil hcs part (by simp [hc])
            rw [hd, joinHead, joinHead, List.cons_prefix_cons] at h
            exact absurd (List.append_right_eq_self.mp h.1) hpart
        | cons part' parts' =>
            rw [hd, joinHead, joinHead, List.cons_prefix_cons] at h
            rw [List.append_cancel_left h.1]
            exact List.cons_prefix_cons.mpr ⟨rfl, h.2⟩
  · exact (List.cons_prefix_cons.mp h).2

/-- **Parts in prefix order.** The components are in prefix order too, or a `:`
has hidden where one of them ends. -/
theorem prefix_or_partsAtColon {root cs : List Text} (hroot : ∀ c ∈ root, c ≠ [])
    (hcs : ∀ c ∈ cs, c ≠ []) (h : glueAll root <+: glueAll cs) :
    root <+: cs ∨ PartsAtColon root cs := by
  induction root generalizing cs with
  | nil => exact Or.inl List.nil_prefix
  | cons x root ih =>
      have hroot' : ∀ c ∈ root, c ≠ [] := fun c hc => hroot c (by simp [hc])
      cases cs with
      | nil =>
          have hnil : glueAll (x :: root) = [] := List.prefix_nil.mp h
          exact absurd (glueAll_eq_nil_iff.mp hnil) (by simp)
      | cons y cs =>
          have hcs' : ∀ c ∈ cs, c ≠ [] := fun c hc => hcs c (by simp [hc])
          by_cases hxy : x = y
          · subst hxy
            rcases ih hroot' hcs' (glueAll_prefix_tail hroot' hcs' h) with hpre | hparts
            · exact Or.inl (List.cons_prefix_cons.mpr ⟨rfl, hpre⟩)
            · exact Or.inr (hparts.cons x)
          · obtain ⟨more, rest, hx, hxmore⟩ := head_glueAll (c := x) hroot'
            obtain ⟨more', rest', hy, hymore⟩ := head_glueAll (c := y) hcs'
            rw [hx, hy, List.cons_prefix_cons] at h
            refine Or.inr ⟨[], x, y, by simp, by simp, hxy, ?_⟩
            have hxp : x <+: y ++ more' := ⟨more, h.1⟩
            have hyp : y <+: y ++ more' := List.prefix_append _ _
            by_cases hxc : x.getLast? = some colon
            · by_cases hyc : y.getLast? = some colon
              · rcases Nat.le_total x.length y.length with hle | hle
                · exact Or.inl ⟨hxc, List.prefix_of_prefix_length_le hxp hyp hle⟩
                · exact Or.inr ⟨hyc, List.prefix_of_prefix_length_le hyp hxp hle⟩
              · rw [hymore hyc, List.append_nil] at hxp
                exact Or.inl ⟨hxc, hxp⟩
            · have hhead : x = y ++ more' := by rw [← h.1, hxmore hxc, List.append_nil]
              by_cases hyc : y.getLast? = some colon
              · exact Or.inr ⟨hyc, hhead ▸ hyp⟩
              · rw [hymore hyc, List.append_nil] at hhead
                exact absurd hhead hxy

/-- The `.` of the drive-like ending is written like one more component. -/
theorem finishParts_glueAll (absolute : Bool) {kept : List Text} (hok : ∀ c ∈ kept, c ≠ []) :
    finishParts absolute (glueAll kept) = glueAll kept ∨
      finishParts absolute (glueAll kept) = glueAll (kept ++ [dotText]) := by
  unfold finishParts
  split
  · rename_i hdrive
    rcases List.eq_nil_or_concat (glueAll kept) with hnil | ⟨init, last, hlast⟩
    · rw [hnil] at hdrive
      cases absolute <;> simp [slashText] at hdrive
    · refine Or.inr ?_
      rw [List.concat_eq_append] at hlast
      rw [hlast] at hdrive
      have hcolon : last.getLast? = some colon := by
        have hne : last ≠ [] := glueAll_ne_nil hok last (by simp [hlast])
        rw [← @slashText_getLast? absolute init last hne, List.getLast?_eq_getElem?, hdrive.1]
        exact hdrive.2
      rw [glueAll_concat, hlast, glue_append_singleton, if_pos hcolon, List.getLast?_concat,
        List.dropLast_concat]
  · exact Or.inl rfl

/-- Parts in prefix order, with the ending. -/
theorem prefix_or_partsAtColon_of_finishParts {absolute : Bool} {root cs : List Text}
    (hroot : ∀ c ∈ root, PartOk c) (hcs : ∀ c ∈ cs, PartOk c)
    (h : finishParts absolute (glueAll root) <+: finishParts absolute (glueAll cs)) :
    root <+: cs ∨ PartsAtColon root cs := by
  have hends : ∀ kept : List Text, (∀ c ∈ kept, PartOk c) → ∃ ending,
      finishParts absolute (glueAll kept) = glueAll (kept ++ ending) ∧
        (ending = [] ∨ ending = [dotText]) := by
    intro kept hok
    rcases finishParts_glueAll absolute fun c hc => (hok c hc).1 with he | he
    · exact ⟨[], by rw [he, List.append_nil], Or.inl rfl⟩
    · exact ⟨[dotText], he, Or.inr rfl⟩
  obtain ⟨ending, hr, hending⟩ := hends root hroot
  obtain ⟨ending', hc, hending'⟩ := hends cs hcs
  have hne : ∀ kept ending : List Text, (∀ c ∈ kept, PartOk c) →
      (ending = [] ∨ ending = [dotText]) → ∀ c ∈ kept ++ ending, c ≠ [] := by
    rintro kept ending hok hending c hmem
    rcases List.mem_append.mp hmem with hmem | hmem
    · exact (hok c hmem).1
    · rcases hending with rfl | rfl
      · cases hmem
      · rw [List.mem_singleton.mp hmem]
        decide
  rw [hr, hc] at h
  -- a component is no `.`, so the ending is behind both lists
  have hcut : ∀ kept ending front c, (ending = [] ∨ ending = [dotText]) → c ≠ dotText →
      front ++ [c] <+: kept ++ ending → front ++ [c] <+: kept := by
    rintro kept ending front c (rfl | rfl) hc hpre
    · simpa using hpre
    · rcases List.prefix_concat_iff.mp hpre with he | hpre
      · exact absurd (List.append_inj_right' he rfl) (by simpa using hc)
      · exact hpre
  rcases prefix_or_partsAtColon (hne _ _ hroot hending) (hne _ _ hcs hending') h with hpre | hparts
  · refine Or.inl ?_
    rcases List.eq_nil_or_concat root with rfl | ⟨init, last, rfl⟩
    · exact List.nil_prefix
    · rw [List.concat_eq_append] at hpre hroot ⊢
      exact hcut cs ending' init last hending' (hroot last (by simp)).2.2
        ((List.prefix_append _ _).trans hpre)
  · obtain ⟨front, x, y, hx, hy, hxy, hcolon⟩ := hparts
    have hdot : dotText.getLast? ≠ some colon := by decide
    have hpre : ∀ a : Text, a <+: dotText → a = [] ∨ a = dotText := by
      intro a ha
      exact List.prefix_concat_iff.mp ha |>.symm.imp (fun h => List.prefix_nil.mp h) id
    have hxne : x ≠ [] := hne _ _ hroot hending x (hx.subset (by simp))
    have hyne : y ≠ [] := hne _ _ hcs hending' y (hy.subset (by simp))
    have hboth : x ≠ dotText ∧ y ≠ dotText := by
      rcases hcolon with ⟨hlast, hle⟩ | ⟨hlast, hle⟩
      · have hxdot : x ≠ dotText := fun he => hdot (he ▸ hlast)
        exact ⟨hxdot, fun he => ((hpre x (he ▸ hle)).elim hxne hxdot)⟩
      · have hydot : y ≠ dotText := fun he => hdot (he ▸ hlast)
        exact ⟨fun he => ((hpre y (he ▸ hle)).elim hyne hydot), hydot⟩
    exact Or.inr ⟨front, x, y, hcut root ending front x hending hboth.1 hx,
      hcut cs ending' front y hending' hboth.2 hy, hxy, hcolon⟩

/-- **When a pathname within the root is contained.** -/
theorem contained_iff {scope outer : Text} {r t : NormalizedPath} {root cs : List Text}
    (hr : normalizePath scope = some r) (ht : normalizePath outer = some t)
    (hw : pathIsWithin t r = true) (hroot : lexicalComponents scope = some root)
    (hcs : lexicalComponents outer = some cs) :
    Contained scope outer ↔
      ¬ PartsAtColon root cs ∧ ¬ ((∀ c ∈ root, c = dotDotText) ∧
        cs[root.length]? = some dotDotText) := by
  obtain ⟨root', hroot', hreq, hrs⟩ := normalizePath_kept hr
  obtain ⟨cs', hcs', hteq, hts⟩ := normalizePath_kept ht
  obtain rfl : root' = root := by simpa [hroot] using hroot'.symm
  obtain rfl : cs' = cs := by simpa [hcs] using hcs'.symm
  obtain ⟨habs, hpre, -⟩ := (pathIsWithin_iff hts hrs).mp hw
  have habs' : isAbsolute outer = isAbsolute scope := by
    rwa [hteq, hreq] at habs
  have hcontained : Contained scope outer ↔ Within dotDotText root' cs' := by
    simp [Contained, habs', hroot, hcs]
  rw [hcontained, within_iff (reduce_reduced hcs)]
  refine and_congr_left fun _ => ⟨fun hle hparts => hparts.not_prefix hle, fun hparts => ?_⟩
  rw [habs'] at hpre
  exact (prefix_or_partsAtColon_of_finishParts (partOk_of_lexicalComponents hroot)
    (partOk_of_lexicalComponents hcs) hpre).resolve_right hparts

/-- Components that do not end in `:` are the parts. -/
theorem finishParts_unglued {input : Text} {kept : List Text}
    (hk : lexicalComponents input = some kept)
    (h : ∀ c ∈ names input, c.getLast? ≠ some colon) :
    finishParts (isAbsolute input) (glueAll kept) = kept := by
  have hkept : ∀ c ∈ kept, c.getLast? ≠ some colon :=
    fun c hc => h c (mem_of_mem_reduce hk hc)
  rw [glueAll_of_glued fun c hc => hkept c (List.mem_of_mem_dropLast hc)]
  exact finishParts_of_last (partOk_of_lexicalComponents hk) hkept

/-! ## The selected node -/

theorem mem_matchingIndices_iff {graph : ResolverGraph} {candidate : SourceNode → Bool}
    {i : ℕ} :
    i ∈ matchingIndices graph candidate ↔
      ∃ node, graph.nodes[i]? = some node ∧ candidate node = true := by
  unfold matchingIndices
  rw [List.mem_map]
  constructor
  · rintro ⟨⟨node, j⟩, hmem, rfl⟩
    obtain ⟨hz, hc⟩ := List.mem_filter.mp hmem
    exact ⟨node, List.mem_zipIdx_iff_getElem?.mp hz, hc⟩
  · rintro ⟨node, hnode, hc⟩
    refine ⟨(node, i), ?_, rfl⟩
    rw [List.mem_filter]
    exact ⟨List.mem_zipIdx_iff_getElem?.mpr hnode, hc⟩

theorem finishTarget_targetIndex (result : ResolveResult) (graph : ResolverGraph) (i : ℕ)
    (pathId : Int64) (cls : Int32) (status : ResolveStatus) :
    (finishTarget result graph i pathId cls status).targetIndex = some i := by
  unfold finishTarget
  split
  · rfl
  · split <;> rfl

/-- The node's scope root and outer path normalize to these two, the second
within the first. -/
structure InScope (root outer : NormalizedPath) (node : SourceNode) : Prop where
  scopeRoot : ∃ path, node.scopeRoot = some path ∧ normalizePath path.bytes = some root
  outerPath : ∃ path, node.outerPath = some path ∧ normalizePath path.bytes = some outer
  within : pathIsWithin outer root = true

theorem normalizedNodeScope_eq_some_iff {node : SourceNode} {root outer : NormalizedPath} :
    normalizedNodeScope node = some (root, outer) ↔ InScope root outer node := by
  constructor
  · intro h
    unfold normalizedNodeScope at h
    split at h
    swap
    · cases h
    rename_i scope path hscope hpath
    split at h
    · cases h
    rename_i root' hroot
    split at h
    · cases h
    rename_i outer' houter
    split at h
    swap
    · cases h
    rename_i hwithin
    obtain ⟨rfl, rfl⟩ : root' = root ∧ outer' = outer := by simpa using h
    exact ⟨⟨scope, hscope, hroot⟩, ⟨path, hpath, houter⟩, hwithin⟩
  · rintro ⟨⟨scope, hscope, hroot⟩, ⟨path, hpath, houter⟩, hwithin⟩
    simp [normalizedNodeScope, hscope, hpath, hroot, houter, hwithin]

theorem nodeSharesScope_eq_some_iff {node : SourceNode} {root outer : NormalizedPath} :
    nodeSharesScope node root = some outer ↔ InScope root outer node := by
  rw [← normalizedNodeScope_eq_some_iff]
  unfold nodeSharesScope
  cases hscope : normalizedNodeScope node with
  | none => simp
  | some scope =>
      obtain ⟨candidateRoot, candidateOuter⟩ := scope
      by_cases hroot : root = candidateRoot
      · subst hroot
        simp [normalizedEqual_iff]
      · have hne : normalizedEqual root candidateRoot ≠ true :=
          fun he => hroot (normalizedEqual_iff.mp he)
        simp [hne, Ne.symm hroot]

theorem looseAscend_done {call : LooseCall} {root dir : NormalizedPath}
    {result : ResolveResult} (h : looseAscend call root dir = .done result) :
    result.status = .outOfScope := by
  simp only [looseAscend] at h
  split at h
  · cases h
    rfl
  split at h
  · cases h
    rfl
  split at h
  · cases h
  · cases h
    rfl

def looseNode (scopeRoot outerPath : String) (file : SerializedFile) : SourceNode where
  file := some file
  outerPath := some (cstr outerPath)
  memberName := none
  isBundleMember := false
  scopeRoot := some (cstr scopeRoot)
  hasAssetGuid := false
  assetGuid := .zero

def looseExternal (pathName : String) : AssetFileExternal :=
  ⟨some (cstr ""), .zero, 0, some (cstr pathName)⟩

def looseObject : AssetObjectInfo := ⟨7, 0, 0, 0, 0, 0, 0, 0⟩

/-- A source file with one external, and the file the external means. -/
def loosePair (scopeRoot sourcePath pathName targetPath : String) : ResolverGraph :=
  ⟨[looseNode scopeRoot sourcePath
      { SerializedFile.closed with externals := [looseExternal pathName] },
    looseNode scopeRoot targetPath { SerializedFile.closed with objects := [looseObject] }]⟩

def loosePairResult (pathName : String) : ResolveResult :=
  ⟨.externalExact, some 0, some 1, some 0, some (looseExternal pathName), some looseObject⟩

end UnityCommon.PPtr
