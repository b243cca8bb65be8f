import UnityCommon.PPtr.NodeSet

/-!
# Where the loose route leaves its scope

The answer is read off the graph, the source and the external before any call:
the directories the locator is tried in, the one node it finds there, and two
questions about pathnames. How many `..`s the join has left says whether a root
of `..`s is climbed; where the components of the scope root and of the node's
pathname part says whether a `:` has hidden a boundary.
-/

namespace UnityCommon.PPtr

open LexicalPath

/-! ## The condition -/

/-- The directories the locator is tried in: the source's own, and the parent
of each that finds nothing, up to the scope root. -/
inductive Searches (graph : ResolverGraph) (call : LooseCall) (root start : NormalizedPath) :
    NormalizedPath → Prop
  | start : Searches graph call root start start
  | parent {dir next : NormalizedPath} (searched : Searches graph call root start dir)
      (inside : pathIsWithin dir root = true) (nothing : SelectsNothing graph call root dir)
      (below : dir ≠ root) (parent : parentPath dir = some next)
      (parentInside : pathIsWithin next root = true) : Searches graph call root start next

/-- In this directory the locator means one node of the graph, whose file has
the object asked for. -/
structure Finds (graph : ResolverGraph) (call : LooseCall) (root dir : NormalizedPath) (i : ℕ)
    (node : SourceNode) : Prop where
  inside : pathIsWithin dir root = true
  found : graph.nodes[i]? = some node
  target : ∃ wanted, joinPath dir call.locator = some wanted ∧
    LooseTarget call root wanted node ∧
    ∀ j other, graph.nodes[j]? = some other → LooseTarget call root wanted other → j = i
  object : ∃ object, findObject node.file call.pathId = some object ∧
    (call.expectedClassId = targetClassAny ∨ object.typeId = call.expectedClassId)

/-- The `..`s a normalized path starts with. -/
def ups (p : NormalizedPath) : ℕ := (textComponents p).count dotDotText

/-- The scope root is a run of `..`s, and either the directory starts with more
of them or the locator has more than there are names in the directory. -/
def ClimbsPast (root dir locator : NormalizedPath) : Prop :=
  textComponents root ≠ [] ∧ (∀ c ∈ textComponents root, c = dotDotText) ∧
    ((textComponents root).length < ups dir ∨
      (textComponents dir).length - ups dir < ups locator)

/-- The components of the two pathnames part at one that ends in `:`. -/
def ColonHides (scope outer : Text) : Prop :=
  ∃ root cs, lexicalComponents scope = some root ∧ lexicalComponents outer = some cs ∧
    PartsAtColon root cs

/-- **The defect.** The source, the external and the graph lead to a node by a
climb or by a hidden boundary. -/
def EscapesScope (graph : ResolverGraph) (sourceIndex : ℕ) (pointer : AssetPPtr)
    (expectedClassId : Int32) : Prop :=
  ∃ source call root start dir i node scope outer locator,
    route graph sourceIndex pointer expectedClassId = .loose source call ∧
    looseStart source call.locator = some (root, start) ∧
    Searches graph call root start dir ∧ Finds graph call root dir i node ∧
    source.scopeRoot = some scope ∧ node.outerPath = some outer ∧
    normalizePath call.locator = some locator ∧
    (ClimbsPast root dir locator ∨ ColonHides scope.bytes outer.bytes)

/-! ## Counting the `..`s of a normalized path -/

theorem glueAll_replicate_append (k : ℕ) {tail : List Text} (hok : ∀ c ∈ tail, c ≠ []) :
    glueAll (List.replicate k dotDotText ++ tail) =
      List.replicate k dotDotText ++ glueAll tail := by
  induction k with
  | zero => rfl
  | succ k ih =>
      have hne : ∀ c ∈ List.replicate k dotDotText ++ tail, c ≠ [] := by
        intro c hc
        rcases List.mem_append.mp hc with hc | hc
        · rw [List.eq_of_mem_replicate hc]
          decide
        · exact hok c hc
      rw [List.replicate_succ, List.cons_append, glueAll_cons hne, if_neg (by decide), ih,
        List.cons_append]

/-- The ending changes the last part only, and not into a `..`. -/
theorem finishParts_replicate_append {absolute : Bool} (k : ℕ) {tail : List Text}
    (hok : ∀ c ∈ tail, PartOk c) (hup : dotDotText ∉ tail) :
    ∃ tail', finishParts absolute (List.replicate k dotDotText ++ tail) =
        List.replicate k dotDotText ++ tail' ∧ dotDotText ∉ tail' ∧ (tail' = [] ↔ tail = []) := by
  rcases List.eq_nil_or_concat tail with rfl | ⟨init, last, rfl⟩
  · refine ⟨[], ?_, by simp, by simp⟩
    have hall : ∀ c ∈ List.replicate k dotDotText ++ [], c = dotDotText := by simp
    refine finishParts_of_last (fun c hc => ?_) fun c hc => ?_ <;> rw [hall c hc]
    · exact ⟨by decide, by decide, by decide⟩
    · decide
  · rw [List.concat_eq_append] at hok hup ⊢
    unfold finishParts
    split
    · rw [← List.append_assoc, List.getLast?_concat, List.dropLast_concat]
      refine ⟨init ++ [last ++ dotText], List.append_assoc .., ?_, by simp⟩
      intro hmem
      rcases List.mem_append.mp hmem with hmem | hmem
      · exact hup (List.mem_append_left _ hmem)
      · rw [List.mem_singleton, show dotDotText = dotText ++ dotText from rfl] at hmem
        exact (hok last (by simp)).2.2 (List.append_cancel_right hmem).symm
    · exact ⟨init ++ [last], rfl, hup, Iff.rfl⟩

/-- **Normalizing keeps the `..`s**, and a path of `..`s only comes from one. -/
theorem parts_of_lexicalComponents {absolute : Bool} {kept : List Text}
    (hred : Reduced dotDotText absolute kept) (hok : ∀ c ∈ kept, PartOk c) :
    (finishParts absolute (glueAll kept)).count dotDotText = kept.count dotDotText ∧
      ((∀ c ∈ finishParts absolute (glueAll kept), c = dotDotText) ↔
        ∀ c ∈ kept, c = dotDotText) := by
  obtain ⟨k, tail, rfl, hup, -⟩ := hred
  have htail : ∀ c ∈ tail, PartOk c := fun c hc => hok c (List.mem_append_right _ hc)
  obtain ⟨j, names, hnames, hnup, hj⟩ := @glueAll_reduced true tail ⟨0, tail, rfl, hup,
    fun _ => rfl⟩ htail
  rw [hj rfl, List.replicate_zero, List.nil_append] at hnames
  obtain ⟨tail', hfinish, hup', hnil⟩ := @finishParts_replicate_append absolute k (glueAll tail)
    (glueAll_ok htail) (hnames ▸ hnup)
  rw [glueAll_replicate_append k fun c hc => (htail c hc).1, hfinish,
    count_replicate_append k hup', count_replicate_append k hup]
  have hall : ∀ rest : List Text, dotDotText ∉ rest →
      ((∀ c ∈ List.replicate k dotDotText ++ rest, c = dotDotText) ↔ rest = []) := by
    intro rest hrest
    constructor
    · intro h
      refine List.eq_nil_iff_forall_not_mem.mpr fun c hc => hrest ?_
      rw [← h c (List.mem_append_right _ hc)]
      exact hc
    · rintro rfl c hc
      exact List.eq_of_mem_replicate (by simpa using hc)
  rw [hall tail' hup', hall tail hup, hnil, glueAll_eq_nil_iff]
  exact ⟨rfl, Iff.rfl⟩

/-! ## The join -/

theorem names_append_slash (front back : Text) :
    names (front ++ slash :: back) = names front ++ names back := by
  simp only [names, components, List.splitOn_append_cons_self, List.filter_append]

/-- What `join_path` normalizes: the components of the directory, then those of
the locator. -/
theorem joinPath_names {base p : NormalizedPath} {bp : List Text} {relative : Text}
    (hbase : Shape base bp) (h : joinPath base relative = some p) :
    ∃ rel input, normalizePath relative = some rel ∧ normalizePath input = some p ∧
      isAbsolute input = base.absolute ∧ names input = bp ++ textComponents rel := by
  unfold joinPath at h
  cases hrel : normalizePath relative with
  | none =>
      rw [hrel] at h
      cases h
  | some rel =>
      rw [hrel] at h
      dsimp only at h
      split at h
      · cases h
      rename_i habs
      obtain ⟨lp, hlp⟩ := normalizePath_shape hrel
      have hrelative : isAbsolute rel.text = false := by
        rw [hlp.isAbsolute_text]
        simpa using habs
      have hnames : names base.text = bp := hbase.textComponents_eq
      by_cases hdot : (!base.absolute && base.text == dotText) = true
      · -- below `.` the locator is normalized alone
        simp only [hdot, if_true, Bool.not_true, Bool.false_and, Bool.false_eq_true, if_false,
          List.nil_append] at h
        simp only [Bool.and_eq_true, Bool.not_eq_true', beq_iff_eq] at hdot
        obtain ⟨rfl, -⟩ := hbase.text_eq_dot_iff.mp hdot.2
        exact ⟨rel, _, rfl, h, by rw [hrelative, hdot.1], rfl⟩
      · have hne : base.text ≠ [] := by
          rw [hbase.text_eq, normalText]
          split
          · decide
          · rename_i hnil
            exact fun he => hnil ((slashText_eq_nil_iff hbase.part_ok).mp he)
        have hfront : ∀ back : Text, isAbsolute (base.text ++ back) = base.absolute := by
          intro back
          rw [← hbase.isAbsolute_text]
          unfold isAbsolute
          rw [List.head?_append_of_ne_nil _ hne]
        rw [Bool.not_eq_true] at hdot
        simp only [hdot, Bool.false_eq_true, if_false, Bool.not_false, Bool.true_and,
          List.append_assoc] at h
        refine ⟨rel, _, rfl, h, hfront _, ?_⟩
        by_cases hlast : base.text.getLast? = some slash
        · obtain ⟨front, hfront⟩ := List.getLast?_eq_some_iff.mp hlast
          rw [if_neg (by simp [hlast]), List.nil_append, hfront, List.append_assoc,
            List.singleton_append, names_append_slash, ← hnames, hfront, names_append_slash]
          simp [textComponents, names, components]
        · rw [if_pos (by simp [hne, hlast]), List.singleton_append, names_append_slash, hnames]
          rfl

/-- **The `..`s of a joined pathname**: those of the directory, and those of the
locator that the directory's names do not take away. -/
theorem ups_of_joinPath {base p locator : NormalizedPath} {relative : Text} {bp : List Text}
    (hbase : Shape base bp) (hrooted : base.absolute = false)
    (hlocator : normalizePath relative = some locator) (h : joinPath base relative = some p) :
    ups p = ups base + (ups locator - ((textComponents base).length - ups base)) := by
  obtain ⟨rel, input, hrel, hinput, habs, hnames⟩ := joinPath_names hbase h
  obtain rfl : locator = rel := by simpa [hlocator] using hrel
  obtain ⟨kept, hkept, -, hshape⟩ := normalizePath_kept hinput
  obtain ⟨lp, hlp⟩ := normalizePath_shape hlocator
  have hreduced : Reduced dotDotText false lp := by
    obtain ⟨k, names, hk, hup, -⟩ := hlp.reduced
    exact ⟨k, names, hk, hup, by simp⟩
  have hcount := (parts_of_lexicalComponents (reduce_reduced hkept)
    (partOk_of_lexicalComponents hkept)).1
  rw [← hshape.textComponents_eq] at hcount
  rw [lexicalComponents, hnames, habs, hrooted, hlp.textComponents_eq] at hkept
  unfold ups
  rw [hcount, hbase.textComponents_eq, hlp.textComponents_eq]
  exact count_reduce_append (hrooted ▸ hbase.reduced) hreduced hkept

/-- A joined pathname within the root climbs further than the root's `..`s
exactly where the counts say so. -/
theorem climbsPast_iff {root dir wanted locator : NormalizedPath} {rp dp wp : List Text}
    {relative : Text} (hroot : Shape root rp) (hdir : Shape dir dp) (hwanted : Shape wanted wp)
    (hinside : pathIsWithin dir root = true) (hw : pathIsWithin wanted root = true)
    (hlocator : normalizePath relative = some locator)
    (hjoin : joinPath dir relative = some wanted) :
    ClimbsPast root dir locator ↔
      (∀ c ∈ rp, c = dotDotText) ∧ rp.length < wp.count dotDotText := by
  obtain ⟨habs, hpre, -⟩ := (pathIsWithin_iff hdir hroot).mp hinside
  obtain ⟨-, -, hguard⟩ := (pathIsWithin_iff hwanted hroot).mp hw
  have hcount : rp ≠ [] → (∀ c ∈ rp, c = dotDotText) → rp.length ≤ ups dir ∧
      wp.count dotDotText =
        ups dir + (ups locator - ((textComponents dir).length - ups dir)) := by
    intro hne hall
    have hrooted : root.absolute = false := by
      rw [Bool.eq_false_iff]
      intro hr
      obtain ⟨c, cs, rfl⟩ := List.exists_cons_of_ne_nil hne
      exact (hr ▸ hroot.reduced).head?_ne (by simp [hall c (by simp)])
    have hups := ups_of_joinPath hdir (habs.trans hrooted) hlocator hjoin
    have hle := hpre.sublist.count_le dotDotText
    have hfull : rp.count dotDotText = rp.length :=
      List.count_eq_length.mpr fun c hc => (hall c hc).symm
    refine ⟨?_, ?_⟩
    · rw [ups, hdir.textComponents_eq]
      omega
    · rw [← hups, ups, hwanted.textComponents_eq]
  unfold ClimbsPast
  rw [hroot.textComponents_eq]
  constructor
  · rintro ⟨hne, hall, hor⟩
    obtain ⟨hle, hwp⟩ := hcount hne hall
    exact ⟨hall, by omega⟩
  · rintro ⟨hall, hlt⟩
    have hne : rp ≠ [] := by
      rintro rfl
      have hhead := (hwanted.reduced.getElem?_eq_up_iff 0).mpr hlt
      exact hguard rfl (by rwa [List.head?_eq_getElem?])
    obtain ⟨hle, hwp⟩ := hcount hne hall
    exact ⟨hne, hall, by omega⟩

/-! ## Containment of what is found -/

/-- The pathname of a node that is found is contained, unless the defect has
led there. -/
theorem Finds.contained_iff {graph : ResolverGraph} {call : LooseCall}
    {root dir locator : NormalizedPath} {i : ℕ} {node : SourceNode} {scope : Text}
    {outer : CString} {dp : List Text} (h : Finds graph call root dir i node)
    (hdir : Shape dir dp) (hscope : normalizePath scope = some root)
    (houter : node.outerPath = some outer)
    (hlocator : normalizePath call.locator = some locator) :
    Contained scope outer.bytes ↔
      ¬ (ClimbsPast root dir locator ∨ ColonHides scope outer.bytes) := by
  obtain ⟨wanted, hjoin, htarget, -⟩ := h.target
  obtain ⟨path, hpath, hwanted⟩ := htarget.inScope.outerPath
  obtain rfl : outer = path := by simpa [houter] using hpath
  obtain ⟨rp, hroot, -, hrs⟩ := normalizePath_kept hscope
  obtain ⟨cs, hcs, -, hws⟩ := normalizePath_kept hwanted
  have hw := htarget.inScope.within
  obtain ⟨hrcount, hrall⟩ := parts_of_lexicalComponents (reduce_reduced hroot)
    (partOk_of_lexicalComponents hroot)
  have hccount := (parts_of_lexicalComponents (reduce_reduced hcs)
    (partOk_of_lexicalComponents hcs)).1
  have hclimbs : ClimbsPast root dir locator ↔
      (∀ c ∈ rp, c = dotDotText) ∧ cs[rp.length]? = some dotDotText := by
    rw [climbsPast_iff hrs hdir hws h.inside hw hlocator hjoin, hrall, hccount,
      (reduce_reduced hcs).getElem?_eq_up_iff]
    refine and_congr_right fun hall => ?_
    -- a run of `..`s has as many parts as components
    have hfull : ∀ run : List Text, (∀ c ∈ run, c = dotDotText) →
        run.length = run.count dotDotText :=
      fun run hrun => (List.count_eq_length.mpr fun c hc => (hrun c hc).symm).symm
    rw [hfull _ (hrall.mpr hall), hrcount, ← hfull _ hall]
  have hhides : ColonHides scope outer.bytes ↔ PartsAtColon rp cs := by
    simp [ColonHides, hroot, hcs]
  rw [PPtr.contained_iff hscope hwanted hw hroot hcs, hclimbs, hhides]
  tauto

/-! ## The walk finds it -/

section Walk

variable {graph : ResolverGraph} {call : LooseCall} {root start dir : NormalizedPath}

theorem searches_iff_reaches :
    Searches graph call root start dir ↔
      Loop.Reaches (looseRound graph call root) start dir := by
  constructor
  · intro h
    induction h with
    | start => exact .refl
    | parent _ hinside hnothing hbelow hparent hparentInside ih =>
        refine ih.again (looseRound_again_iff.mpr
          ⟨hinside, hnothing, ?_, hparent, hparentInside⟩)
        exact Bool.eq_false_iff.mpr fun he => hbelow (normalizedEqual_iff.mp he)
  · intro h
    induction h with
    | refl => exact .start
    | again _ hround ih =>
        obtain ⟨hinside, hnothing, hne, hparent, hparentInside⟩ :=
          looseRound_again_iff.mp hround
        refine .parent ih hinside hnothing (fun he => ?_) hparent hparentInside
        rw [normalizedEqual_iff.mpr he] at hne
        cases hne

theorem Searches.shape {sp : List Text} (hstart : Shape start sp)
    (h : Searches graph call root start dir) : ∃ dp, Shape dir dp := by
  induction h with
  | start => exact ⟨sp, hstart⟩
  | parent _ _ _ _ hparent _ ih =>
      obtain ⟨dp, hdp⟩ := ih
      exact parentPath_shape hdp hparent

/-- The two successful ends of the loose route. -/
def looseResolved (status : ResolveStatus) : Prop :=
  status = .externalExact ∨ status = .externalBuiltinContract

theorem looseResolved_targetStatus_iff {object : Option AssetObjectInfo} {cls : Int32} :
    looseResolved (targetStatus object cls (looseSuccess call)) ↔
      ∃ found, object = some found ∧ (cls = targetClassAny ∨ found.typeId = cls) := by
  have hsuccess : looseResolved (looseSuccess call) := by
    unfold looseSuccess
    split
    · exact Or.inr rfl
    · exact Or.inl rfl
  have hmissing : ¬ looseResolved .targetMissing := by simp [looseResolved]
  have hwrong : ¬ looseResolved .targetWrongClass := by simp [looseResolved]
  cases object with
  | none => simp [targetStatus, hmissing]
  | some found =>
      by_cases hcls : cls = targetClassAny ∨ found.typeId = cls
      · simp [targetStatus, hcls, hsuccess]
      · simp [targetStatus, hcls, hwrong]

theorem matchingIndices_eq_singleton_iff {wanted : NormalizedPath} {i : ℕ} :
    matchingIndices graph (looseCandidate call root wanted) = [i] ↔
      ∃ node, graph.nodes[i]? = some node ∧ LooseTarget call root wanted node ∧
        ∀ j other, graph.nodes[j]? = some other → LooseTarget call root wanted other → j = i := by
  have hmem : ∀ j, j ∈ matchingIndices graph (looseCandidate call root wanted) ↔
      ∃ node, graph.nodes[j]? = some node ∧ LooseTarget call root wanted node := by
    simp only [mem_matchingIndices_iff, looseCandidate_iff, implies_true]
  rw [← List.perm_singleton,
    List.perm_ext_iff_of_nodup (nodup_matchingIndices _ _) (List.nodup_singleton i)]
  constructor
  · intro h
    obtain ⟨node, hnode, htarget⟩ := (hmem i).mp ((h i).mpr (List.mem_singleton.mpr rfl))
    refine ⟨node, hnode, htarget, fun j other hother hat => ?_⟩
    exact List.mem_singleton.mp ((h j).mp ((hmem j).mpr ⟨other, hother, hat⟩))
  · rintro ⟨node, hnode, htarget, honly⟩ j
    rw [hmem, List.mem_singleton]
    constructor
    · rintro ⟨other, hother, hat⟩
      exact honly j other hother hat
    · rintro rfl
      exact ⟨node, hnode, htarget⟩

/-- What a selected node answers is a success where its file has the object. -/
theorem finishTarget_resolved_iff {i : ℕ} {node : SourceNode}
    (hbase : call.result.object = none) (hnode : graph.nodes[i]? = some node) :
    looseResolved (finishTarget call.result graph i call.pathId call.expectedClassId
        (looseSuccess call)).status ↔
      ∃ object, findObject node.file call.pathId = some object ∧
        (call.expectedClassId = targetClassAny ∨ object.typeId = call.expectedClassId) := by
  have hdecided := finishTarget_decides graph i call.pathId call.expectedClassId
    (looseSuccess call) hbase
  rw [hdecided.status, hdecided.object, hnode]
  exact looseResolved_targetStatus_iff

/-- A successful round is one in a directory that finds its node. -/
theorem finds_of_looseRound {result : ResolveResult} (hbase : call.result.object = none)
    (hround : looseRound graph call root dir = .done result) (hs : looseResolved result.status) :
    ∃ i node, Finds graph call root dir i node ∧ result.targetIndex = some i := by
  have hno : result.status ≠ .outOfScope := by
    rcases hs with hs | hs <;> simp [hs]
  simp only [looseRound] at hround
  split at hround
  · cases hround
    exact absurd rfl hno
  rename_i hinside
  split at hround
  · cases hround
    exact absurd rfl hno
  rename_i wanted hjoin
  split at hround
  swap
  · exact absurd (looseAscend_done hround) hno
  split at hround
  · exact absurd (looseAscend_done hround) hno
  · rename_i i hmatches
    cases hround
    obtain ⟨node, hnode, htarget, honly⟩ := matchingIndices_eq_singleton_iff.mp hmatches
    exact ⟨i, node, ⟨by simpa using hinside, hnode, ⟨wanted, hjoin, htarget, honly⟩,
      (finishTarget_resolved_iff hbase hnode).mp hs⟩, finishTarget_targetIndex ..⟩
  · cases hround
    rcases hs with hs | hs <;> cases hs

theorem Finds.looseRound {i : ℕ} {node : SourceNode} (hbase : call.result.object = none)
    (h : Finds graph call root dir i node) :
    ∃ result, looseRound graph call root dir = .done result ∧ looseResolved result.status ∧
      result.targetIndex = some i := by
  obtain ⟨hinside, hnode, ⟨wanted, hjoin, htarget, honly⟩, hobject⟩ := h
  have hmatches := matchingIndices_eq_singleton_iff.mpr ⟨node, hnode, htarget, honly⟩
  refine ⟨_, ?_, (finishTarget_resolved_iff hbase hnode).mpr hobject,
    finishTarget_targetIndex ..⟩
  unfold PPtr.looseRound
  rw [hinside, hjoin]
  simp only [Bool.not_true, Bool.false_eq_true, if_false, htarget.inScope.within, if_true,
    hmatches]

end Walk

/-! ## The resolver -/

section Resolver

variable {graph : ResolverGraph} {sourceIndex : ℕ} {pointer : AssetPPtr}
  {expectedClassId : Int32} {source : SourceNode} {call : LooseCall}

/-- **What a success has found**: a node, in a directory that is searched. -/
theorem finds_of_unityPPtrResolve {fuel : ℕ} {result : ResolveResult}
    (hroute : route graph sourceIndex pointer expectedClassId = .loose source call)
    (hrun : unityPPtrResolve fuel graph sourceIndex pointer expectedClassId =
      some (true, result)) (hs : looseResolved result.status) :
    ∃ root start dir i node, looseStart source call.locator = some (root, start) ∧
      Searches graph call root start dir ∧ Finds graph call root dir i node ∧
      result.targetIndex = some i := by
  simp only [unityPPtrResolve, hroute] at hrun
  obtain ⟨result', hloose, he⟩ := Option.map_eq_some_iff.mp hrun
  obtain rfl : result' = result := congrArg Prod.snd he
  unfold resolveLoose at hloose
  split at hloose
  · cases hloose
    rcases hs with hs | hs <;> cases hs
  rename_i root start hstart
  obtain ⟨dir, hreach, hround⟩ := Loop.run_some hloose
  obtain ⟨i, node, hfinds, hindex⟩ :=
    finds_of_looseRound (route_loose hroute).2.2.2 hround hs
  exact ⟨root, start, dir, i, node, hstart, searches_iff_reaches.mpr hreach, hfinds, hindex⟩

/-- **What can be found, is.** -/
theorem Finds.unityPPtrResolve {root start dir : NormalizedPath} {i : ℕ} {node : SourceNode}
    (h : Finds graph call root dir i node)
    (hroute : route graph sourceIndex pointer expectedClassId = .loose source call)
    (hstart : looseStart source call.locator = some (root, start))
    (hsearches : Searches graph call root start dir) :
    ∃ fuel result,
      unityPPtrResolve fuel graph sourceIndex pointer expectedClassId = some (true, result) ∧
        looseResolved result.status ∧ result.targetIndex = some i := by
  obtain ⟨result, hround, hs, hindex⟩ := h.looseRound (route_loose hroute).2.2.2
  obtain ⟨fuel, hrun⟩ := Loop.run_of_reaches (searches_iff_reaches.mp hsearches)
    (Loop.run_done hround 0)
  refine ⟨fuel, result, ?_, hs, hindex⟩
  simp only [PPtr.unityPPtrResolve, hroute, resolveLoose, hstart, hrun, Option.map_some]

end Resolver

/-- The pathnames of a call that starts to walk. -/
theorem looseStart_pathnames {source : SourceNode} {locator : Text}
    {root start : NormalizedPath} (h : looseStart source locator = some (root, start)) :
    ∃ scope path, source.scopeRoot = some scope ∧ normalizePath scope.bytes = some root ∧
      normalizePath locator = some path := by
  obtain ⟨outer, ⟨hscope, path, hpath, -⟩, -⟩ := looseStart_eq_some_iff.mp h
  obtain ⟨scope, hscopeRoot, hroot⟩ := hscope.scopeRoot
  exact ⟨scope, path, hscopeRoot, hroot, hpath⟩

/-- **Scope containment, and exactly where it fails.** For two normalized paths
the prefix test denotes containment unless an all-`..` root is climbed. What a
call reaches through the loose route is contained in the source's scope exactly
when the graph, the source and the external do not lead out of it. -/
theorem loose_containment_iff (graph : ResolverGraph) (sourceIndex : ℕ) (pointer : AssetPPtr)
    (expectedClassId : Int32) :
    (∀ a b p r, normalizePath a = some p → normalizePath b = some r →
      ((pathIsWithin p r = true ↔ DenotesWithin p r) ↔ ¬ ClimbsAbove p r)) ∧
    ((∀ fuel source call result,
      route graph sourceIndex pointer expectedClassId = .loose source call →
      unityPPtrResolve fuel graph sourceIndex pointer expectedClassId = some (true, result) →
      looseResolved result.status →
      ∃ target node scope outer, result.targetIndex = some target ∧
        graph.nodes[target]? = some node ∧ source.scopeRoot = some scope ∧
        node.outerPath = some outer ∧ Contained scope.bytes outer.bytes) ↔
      ¬ EscapesScope graph sourceIndex pointer expectedClassId) := by
  constructor
  · intro a b p r hp hr
    obtain ⟨pp, hps⟩ := normalizePath_shape hp
    obtain ⟨rp, hrs⟩ := normalizePath_shape hr
    exact pathIsWithin_denotes_iff hps hrs
  constructor
  · rintro hclaim ⟨source, call, root, start, dir, i, node, scope, outer, locator, hroute,
      hstart, hsearches, hfinds, hscope, houter, hlocator, hdefect⟩
    obtain ⟨fuel, result, hrun, hs, hindex⟩ :=
      hfinds.unityPPtrResolve hroute hstart hsearches
    obtain ⟨target, node', scope', outer', htarget, hnode, hscope', houter', hcontained⟩ :=
      hclaim fuel source call result hroute hrun hs
    obtain rfl : i = target := by simpa [hindex] using htarget
    obtain rfl : node = node' := by simpa [hfinds.found] using hnode
    obtain rfl : scope = scope' := by simpa [hscope] using hscope'
    obtain rfl : outer = outer' := by simpa [houter] using houter'
    obtain ⟨scope', path, hscope', hroot, -⟩ := looseStart_pathnames hstart
    obtain rfl : scope = scope' := by simpa [hscope] using hscope'
    obtain ⟨-, sp, hsp⟩ := looseStart_shape hstart
    obtain ⟨dp, hdp⟩ := hsearches.shape hsp
    exact (hfinds.contained_iff hdp hroot houter hlocator).mp hcontained hdefect
  · intro hfree fuel source call result hroute hrun hs
    obtain ⟨root, start, dir, i, node, hstart, hsearches, hfinds, hindex⟩ :=
      finds_of_unityPPtrResolve hroute hrun hs
    obtain ⟨scope, locator, hscope, hroot, hlocator⟩ := looseStart_pathnames hstart
    obtain ⟨wanted, -, htarget, -⟩ := hfinds.target
    obtain ⟨outer, houter, -⟩ := htarget.inScope.outerPath
    obtain ⟨-, sp, hsp⟩ := looseStart_shape hstart
    obtain ⟨dp, hdp⟩ := hsearches.shape hsp
    refine ⟨i, node, scope, outer, hindex, hfinds.found, hscope, houter, ?_⟩
    refine (hfinds.contained_iff hdp hroot houter hlocator).mpr fun hdefect => hfree ?_
    exact ⟨source, call, root, start, dir, i, node, scope, outer, locator, hroute, hstart,
      hsearches, hfinds, hscope, houter, hlocator, hdefect⟩

/-- Under the scope root `.`, which has no component to climb or to hide, `x`
from `a/b/f` is `a/x`. -/
theorem loose_success_below_root :
    unityPPtrResolve 2 (loosePair "." "a/b/f" "x" "a/x") 0 ⟨1, 7⟩ targetClassAny =
        some (true, loosePairResult "x") ∧
      Contained (ascii ".") (ascii "a/x") := by
  have hroute : route (loosePair "." "a/b/f" "x" "a/x") 0 ⟨1, 7⟩ targetClassAny =
      .loose (looseNode "." "a/b/f"
          { SerializedFile.closed with externals := [looseExternal "x"] })
        ⟨looseExternal "x", ascii "x", false, 7, targetClassAny,
          ⟨.outOfScope, some 0, none, some 0, some (looseExternal "x"), none⟩⟩ := by
    decide
  have hresolve : unityPPtrResolve 2 (loosePair "." "a/b/f" "x" "a/x") 0 ⟨1, 7⟩
      targetClassAny = some (true, loosePairResult "x") := by
    decide
  refine ⟨hresolve, ?_⟩
  have hfree : ¬ EscapesScope (loosePair "." "a/b/f" "x" "a/x") 0 ⟨1, 7⟩ targetClassAny := by
    rintro ⟨source, call, root, start, dir, i, node, scope, outer, locator, hroute', hstart, -,
      -, hscope, -, -, hdefect⟩
    rw [hroute, Route.loose.injEq] at hroute'
    obtain ⟨rfl, rfl⟩ := hroute'
    have hstart' : looseStart (looseNode "." "a/b/f"
        { SerializedFile.closed with externals := [looseExternal "x"] }) (ascii "x") =
          some (⟨dotText, false⟩, ⟨ascii "a/b", false⟩) := by
      decide
    rw [hstart', Option.some.injEq, Prod.mk.injEq] at hstart
    obtain ⟨rfl, -⟩ := hstart
    obtain rfl : cstr "." = scope := by simpa [looseNode] using hscope
    rcases hdefect with ⟨hne, -⟩ | ⟨components, cs, hcomponents, -, hparts⟩
    · exact hne (by decide)
    · have hnil : lexicalComponents (cstr ".").bytes = some [] := by decide
      obtain rfl : [] = components := by simpa [hnil] using hcomponents
      obtain ⟨front, x, y, hx, -⟩ := hparts
      simp at hx
  obtain ⟨target, node, scope, outer, htarget, hnode, hscope, houter, hcontained⟩ :=
    (loose_containment_iff _ _ _ _).2.mpr hfree _ _ _ _ hroute hresolve (Or.inl rfl)
  obtain rfl : 1 = target := by simpa [loosePairResult] using htarget
  obtain rfl : looseNode "." "a/x" { SerializedFile.closed with objects := [looseObject] } =
      node := by simpa [loosePair] using hnode
  obtain rfl : cstr "." = scope := by simpa [looseNode] using hscope
  obtain rfl : cstr "a/x" = outer := by simpa [looseNode] using houter
  exact hcontained

/-- The file at `../../x` is above the scope root `..`, and selected. -/
theorem loose_success_above_root :
    unityPPtrResolve 1 (loosePair ".." "../a/f" "../../x" "../../x") 0 ⟨1, 7⟩
        targetClassAny = some (true, loosePairResult "../../x") ∧
      ¬ Contained (ascii "..") (ascii "../../x") := by
  constructor
  · decide
  · rintro ⟨-, root, cs, hroot, hcs, -, hup⟩
    have hroot' : lexicalComponents (ascii "..") = some [ascii ".."] := by decide
    have hcs' : lexicalComponents (ascii "../../x") =
        some [ascii "..", ascii "..", ascii "x"] := by decide
    obtain rfl : [ascii ".."] = root := by simpa [hroot'] using hroot
    obtain rfl : [ascii "..", ascii "..", ascii "x"] = cs := by simpa [hcs'] using hcs
    exact hup (by decide)

end UnityCommon.PPtr
