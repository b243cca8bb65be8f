import UnityCommon.PPtr.Renumbering

/-!
# Resolution by the set of nodes

What the two routes of the resolver select, without their loops: the first
directory on the walk that holds a target, and the members of the source's
bundle. Over pathnames without `:` the walk is the list of part prefixes from
the source's directory up to its scope root.
-/

namespace UnityCommon.PPtr

open LexicalPath

/-! ## Pathnames without `:` -/

theorem mem_intercalate_of_mem {b : UInt8} {w : Text} (hb : b ∈ w) :
    ∀ {parts : List Text}, w ∈ parts → b ∈ [slash].intercalate parts := by
  intro parts
  induction parts with
  | nil => intro hw; cases hw
  | cons c parts ih =>
      intro hw
      cases parts with
      | nil =>
          rw [List.mem_singleton] at hw
          simpa [← hw] using hb
      | cons d parts =>
          rw [List.intercalate_cons_cons]
          rcases List.mem_cons.mp hw with rfl | hw
          · simp [hb]
          · simp [ih hw]

theorem mem_of_mem_names {b : UInt8} {input c : Text} (hc : c ∈ names input) (hb : b ∈ c) :
    b ∈ input := by
  have hsplit : c ∈ input.splitOn slash :=
    List.mem_of_mem_filter (List.mem_of_mem_filter hc)
  have hjoined := mem_intercalate_of_mem hb hsplit
  rwa [List.intercalate_splitOn] at hjoined

/-- The parts of a pathname without `:` have none. -/
theorem normalizePath_colonFree {input : Text} {p : NormalizedPath}
    (h : normalizePath input = some p) (hcolon : colon ∉ input) :
    ∃ parts, Shape p parts ∧ ∀ c ∈ parts, colon ∉ c := by
  obtain ⟨kept, hkept, -, hshape⟩ := normalizePath_kept h
  have hfree : ∀ c ∈ names input, colon ∉ c := fun c hc hb => hcolon (mem_of_mem_names hc hb)
  rw [finishParts_unglued hkept fun c hc hlast => hfree c hc (List.mem_of_getLast? hlast)]
    at hshape
  exact ⟨kept, hshape, fun c hc => hfree c (mem_of_mem_reduce hkept hc)⟩

theorem driveLooking_of_colonFree {p : NormalizedPath} {parts : List Text} (h : Shape p parts)
    (hcolon : ∀ c ∈ parts, colon ∉ c) : driveLooking p = false := by
  cases parts with
  | nil => exact h.driveLooking_nil
  | cons c cs =>
      rw [Bool.eq_false_iff]
      intro hd
      obtain ⟨-, hhead, -⟩ := h.driveLooking_cons.mp hd
      exact hcolon c (by simp) (List.mem_of_mem_head? hhead)

/-- A step up from a path that is no drive. -/
theorem parentPath_dropLast {p : NormalizedPath} {parts : List Text} (h : Shape p parts)
    (hd : driveLooking p = false) :
    parentPath p = some (pathOf p.absolute parts.dropLast) ∧
      Shape (pathOf p.absolute parts.dropLast) parts.dropLast := by
  rcases List.eq_nil_or_concat parts with rfl | ⟨init, last, rfl⟩
  · refine ⟨?_, ?_⟩
    · rw [parentPath_nil h, List.dropLast_nil, ← h.eq_pathOf]
    · rw [List.dropLast_nil, ← h.eq_pathOf]
      exact h
  · rw [List.concat_eq_append] at h ⊢
    rw [List.dropLast_concat]
    refine ⟨parentPath_concat h fun hdrive => ?_, h.of_append⟩
    rw [hd] at hdrive
    cases hdrive

/-- Below a pathname without `:` the walk is not caught. -/
theorem not_stuck_of_colonFree {graph : ResolverGraph} {call : LooseCall}
    {root outer : NormalizedPath} {parts : List Text} (h : Shape outer parts)
    (hcolon : ∀ c ∈ parts, colon ∉ c) :
    ¬ StuckAtDriveRoot graph call root (pathOf outer.absolute parts.dropLast) := by
  rintro ⟨-, hdrive, -⟩
  have hdir := (parentPath_dropLast h (driveLooking_of_colonFree h hcolon)).2
  rw [driveLooking_of_colonFree hdir fun c hc => hcolon c (List.mem_of_mem_dropLast hc)]
    at hdrive
  cases hdrive

/-! ## Targets -/

/-- Every outer path and scope root is free of `:`. -/
def ColonFree (graph : ResolverGraph) : Prop :=
  ∀ node ∈ graph.nodes, ∀ path, node.outerPath = some path ∨ node.scopeRoot = some path →
    colon ∉ path.bytes

def GuidMatches (external : AssetFileExternal) (node : SourceNode) : Prop :=
  external.guid = Bytes16.zero ∨ (node.hasAssetGuid = true ∧ external.guid = node.assetGuid)

/-- A node the loose route may select at the pathname `wanted`. A built-in
contract does not look at the node's guid. -/
structure LooseTarget (call : LooseCall) (root wanted : NormalizedPath) (node : SourceNode) :
    Prop where
  loose : node.isBundleMember = false
  guid : call.isBuiltin = true ∨ GuidMatches call.external node
  inScope : InScope root wanted node

/-- A node the archive route may select: a member of the source's bundle. -/
structure ArchiveTarget (external : AssetFileExternal) (root outer member : NormalizedPath)
    (node : SourceNode) : Prop where
  bundled : node.isBundleMember = true
  guid : GuidMatches external node
  inScope : InScope root outer node
  member : ∃ name, node.memberName = some name ∧ normalizePath name.bytes = some member

theorem guidMatchesNode_iff {external : AssetFileExternal} {node : SourceNode} :
    guidMatchesNode external node = true ↔ GuidMatches external node := by
  simp [guidMatchesNode, GuidMatches]

theorem looseCandidate_iff {call : LooseCall} {root wanted : NormalizedPath}
    {node : SourceNode} :
    looseCandidate call root wanted node = true ↔ LooseTarget call root wanted node := by
  unfold looseCandidate
  rw [Bool.and_eq_true, Bool.and_eq_true, Bool.or_eq_true, Bool.not_eq_true',
    guidMatchesNode_iff]
  constructor
  · rintro ⟨⟨hloose, hguid⟩, houter⟩
    cases hshare : nodeSharesScope node root with
    | none => simp [hshare] at houter
    | some outer =>
        simp only [hshare] at houter
        rw [normalizedEqual_iff.mp houter] at hshare
        exact ⟨hloose, hguid, nodeSharesScope_eq_some_iff.mp hshare⟩
  · rintro ⟨hloose, hguid, hscope⟩
    rw [nodeSharesScope_eq_some_iff.mpr hscope]
    exact ⟨⟨hloose, hguid⟩, normalizedEqual_iff.mpr rfl⟩

theorem archiveCandidate_iff {external : AssetFileExternal}
    {root outer member : NormalizedPath} {node : SourceNode} :
    archiveCandidate external root outer member node = true ↔
      ArchiveTarget external root outer member node := by
  unfold archiveCandidate
  constructor
  · intro h
    cases hname : node.memberName with
    | none => simp [hname] at h
    | some name =>
        cases hshare : nodeSharesScope node root with
        | none => simp [hname, hshare] at h
        | some candidateOuter =>
            cases hnorm : normalizePath name.bytes with
            | none => simp [hname, hshare, hnorm] at h
            | some candidateMember =>
                simp only [hname, hshare, hnorm, Bool.and_eq_true] at h
                obtain ⟨⟨hbundled, hguid⟩, houter, hmember⟩ := h
                rw [normalizedEqual_iff.mp houter] at hshare
                rw [normalizedEqual_iff.mp hmember] at hnorm
                exact ⟨hbundled, guidMatchesNode_iff.mp hguid,
                  nodeSharesScope_eq_some_iff.mp hshare, name, hname, hnorm⟩
  · rintro ⟨hbundled, hguid, hscope, name, hname, hnorm⟩
    have hequal : ∀ p : NormalizedPath, normalizedEqual p p = true :=
      fun p => normalizedEqual_iff.mpr rfl
    simp [hname, hbundled, guidMatchesNode_iff.mpr hguid,
      nodeSharesScope_eq_some_iff.mpr hscope, hnorm, hequal]

/-! ## Answers -/

/-- What the selected node's file says about the object. -/
def targetStatus (object : Option AssetObjectInfo) (cls : Int32) (success : ResolveStatus) :
    ResolveStatus :=
  match object with
  | none => .targetMissing
  | some found =>
      if cls = targetClassAny ∨ found.typeId = cls then success else .targetWrongClass

structure DecidedBy (graph : ResolverGraph) (target : ℕ) (pathId : Int64) (cls : Int32)
    (success : ResolveStatus) (result : ResolveResult) : Prop where
  targetIndex : result.targetIndex = some target
  object : result.object = findObject (graph.nodes[target]?.bind (·.file)) pathId
  status : result.status = targetStatus result.object cls success

/-- The answer when the nodes that count are those with `selected`. -/
structure Answers (graph : ResolverGraph) (selected : ℕ → Prop) (pathId : Int64) (cls : Int32)
    (success : ResolveStatus) (result : ResolveResult) : Prop where
  ambiguous_iff : result.status = .ambiguous ↔ ∃ i j, i ≠ j ∧ selected i ∧ selected j
  decided : ∀ i, selected i → (∀ j, selected j → j = i) →
    DecidedBy graph i pathId cls success result
  outOfScope : (∀ i, ¬ selected i) → result.status = .outOfScope

theorem finishTarget_decides (graph : ResolverGraph) (target : ℕ) (pathId : Int64)
    (cls : Int32) (success : ResolveStatus) {base : ResolveResult} (hbase : base.object = none) :
    DecidedBy graph target pathId cls success
      (finishTarget base graph target pathId cls success) := by
  refine ⟨finishTarget_targetIndex .., ?_, ?_⟩
  · unfold finishTarget
    cases findObject (graph.nodes[target]?.bind (·.file)) pathId with
    | none => exact hbase
    | some object =>
        dsimp only
        split <;> rfl
  · unfold finishTarget
    cases findObject (graph.nodes[target]?.bind (·.file)) pathId with
    | none => simp [targetStatus, hbase]
    | some object =>
        by_cases hany : cls = targetClassAny
        · simp [targetStatus, hany]
        · by_cases hclass : object.typeId = cls
          · simp [targetStatus, hclass]
          · simp [targetStatus, hany, hclass]

section Counting

variable {graph : ResolverGraph} {selected : ℕ → Prop} {pathId : Int64} {cls : Int32}
  {success : ResolveStatus} {result : ResolveResult}

theorem answers_none (hnone : ∀ i, ¬ selected i) (hstatus : result.status = .outOfScope) :
    Answers graph selected pathId cls success result := by
  refine ⟨?_, fun i hi => absurd hi (hnone i), fun _ => hstatus⟩
  constructor
  · intro h
    rw [hstatus] at h
    cases h
  · rintro ⟨i, -, -, hi, -⟩
    exact absurd hi (hnone i)

theorem answers_one {target : ℕ} (htarget : selected target)
    (honly : ∀ j, selected j → j = target) (hsuccess : success ≠ .ambiguous)
    (hdecided : DecidedBy graph target pathId cls success result) :
    Answers graph selected pathId cls success result := by
  refine ⟨?_, fun i hi _ => honly i hi ▸ hdecided, fun hnone => absurd htarget (hnone target)⟩
  constructor
  · intro h
    rw [hdecided.status] at h
    unfold targetStatus at h
    split at h
    · cases h
    split at h
    · exact absurd h hsuccess
    · cases h
  · rintro ⟨i, j, hne, hi, hj⟩
    exact absurd ((honly i hi).trans (honly j hj).symm) hne

theorem answers_many {i j : ℕ} (hne : i ≠ j) (hi : selected i) (hj : selected j)
    (hstatus : result.status = .ambiguous) :
    Answers graph selected pathId cls success result := by
  refine ⟨⟨fun _ => ⟨i, j, hne, hi, hj⟩, fun _ => hstatus⟩, fun k _ honly => ?_,
    fun hnone => absurd hi (hnone i)⟩
  exact absurd ((honly i hi).trans (honly j hj).symm) hne

/-- **The count decides.** The three ends of a candidate loop, over what the
loop counts. -/
theorem answers_of_count {candidate : SourceNode → Bool} {base : ResolveResult}
    (hmem : ∀ i, i ∈ matchingIndices graph candidate ↔ selected i)
    (hbase : base.object = none) (hsuccess : success ≠ .ambiguous)
    (hnone : matchingIndices graph candidate = [] → result.status = .outOfScope)
    (hone : ∀ i, matchingIndices graph candidate = [i] →
      result = finishTarget base graph i pathId cls success)
    (hmany : ∀ i j rest, matchingIndices graph candidate = i :: j :: rest →
      result.status = .ambiguous) :
    Answers graph selected pathId cls success result := by
  have hnodup := nodup_matchingIndices graph candidate
  rcases hm : matchingIndices graph candidate with _ | ⟨i, _ | ⟨j, rest⟩⟩
  · rw [hm] at hmem
    exact answers_none (fun i hi => by simpa using (hmem i).mpr hi) (hnone hm)
  · rw [hm] at hmem
    refine answers_one ((hmem i).mp (by simp)) (fun j hj => by simpa using (hmem j).mpr hj)
      hsuccess ?_
    rw [hone i hm]
    exact finishTarget_decides graph i pathId cls success hbase
  · rw [hm] at hmem hnodup
    have hne : i ≠ j := by
      rintro rfl
      simp at hnodup
    exact answers_many hne ((hmem i).mp (by simp)) ((hmem j).mp (by simp)) (hmany i j rest hm)

end Counting

/-! ## Where the routes start -/

/-- The source lies in its scope, and the locator is relative and does not look
like a drive. -/
structure LooseSource (source : SourceNode) (locator : Text) (root outer : NormalizedPath) :
    Prop where
  inScope : InScope root outer source
  relative : ∃ path, normalizePath locator = some path ∧
    ¬ (path.absolute = true ∨ (2 ≤ path.text.length ∧ path.text[1]? = some colon))

/-- The source is a bundle member in its scope, and the two archive fields
agree on a relative member name. -/
structure ArchiveSource (source : SourceNode) (external : AssetFileExternal)
    (root outer member : NormalizedPath) : Prop where
  bundled : source.isBundleMember = true
  inScope : InScope root outer source
  locator : ∃ locator, archiveLocator external = some locator ∧
    normalizePath locator = some member
  relative : member.absolute = false

theorem looseStart_eq_some_iff {source : SourceNode} {locator : Text}
    {root directory : NormalizedPath} :
    looseStart source locator = some (root, directory) ↔
      ∃ outer, LooseSource source locator root outer ∧ parentPath outer = some directory := by
  unfold looseStart
  constructor
  · intro h
    split at h
    · cases h
    rename_i sourceRoot sourceOuter hscope
    split at h
    swap
    · cases h
    rename_i sourceDirectory path hparent hpath
    split at h
    · cases h
    rename_i hrelative
    obtain ⟨rfl, rfl⟩ : sourceRoot = root ∧ sourceDirectory = directory := by simpa using h
    exact ⟨sourceOuter, ⟨normalizedNodeScope_eq_some_iff.mp hscope, path, hpath, hrelative⟩,
      hparent⟩
  · rintro ⟨outer, ⟨hscope, path, hpath, hrelative⟩, hparent⟩
    rw [normalizedNodeScope_eq_some_iff.mpr hscope]
    dsimp only
    rw [hparent, hpath]
    dsimp only
    rw [if_neg hrelative]

/-- A route is called for the source node, with nothing found yet. -/
theorem route_external {graph : ResolverGraph} {sourceIndex : ℕ} {pointer : AssetPPtr}
    {cls : Int32} (h : ∀ ok result, route graph sourceIndex pointer cls ≠ .finished ok result) :
    ∃ source external base, graph.nodes[sourceIndex]? = some source ∧ base.object = none ∧
      route graph sourceIndex pointer cls =
        routeExternal source external pointer.pathId cls base := by
  unfold route at h ⊢
  cases hnode : graph.nodes[sourceIndex]? with
  | none => simp [hnode] at h
  | some source =>
      simp only [hnode] at h ⊢
      cases hfile : source.file with
      | none => simp [hfile] at h
      | some sourceFile =>
          simp only [hfile] at h ⊢
          split_ifs at h ⊢
          case neg =>
            cases hexternal : sourceFile.externals[pointer.fileId.toNatClampNeg - 1]? with
            | none => simp [hexternal] at h
            | some external => exact ⟨source, external, _, rfl, rfl, rfl⟩
          all_goals exact absurd rfl (h _ _)

theorem routeExternal_loose {source source' : SourceNode} {external : AssetFileExternal}
    {pathId : Int64} {cls : Int32} {base : ResolveResult} {call : LooseCall}
    (h : routeExternal source external pathId cls base = .loose source' call) :
    source' = source ∧ call.pathId = pathId ∧ call.expectedClassId = cls ∧
      call.result = base := by
  unfold routeExternal at h
  cases hname : external.pathName with
  | none => simp [hname] at h
  | some pathName =>
      cases hvirtual : external.virtualPath with
      | none => simp [hname, hvirtual] at h
      | some virtualPath =>
          simp only [hname, hvirtual] at h
          split at h
          · cases h
          split at h
          · cases h
          split at h
          · cases h
          split at h
          · cases h
          · cases h
            exact ⟨rfl, rfl, rfl, rfl⟩
          · cases h
            exact ⟨rfl, rfl, rfl, rfl⟩

theorem routeExternal_archive {source source' : SourceNode}
    {external external' : AssetFileExternal} {pathId : Int64} {cls : Int32}
    {base base' : ResolveResult}
    (h : routeExternal source external pathId cls base = .archive source' external' base') :
    source' = source ∧ external' = external ∧ base' = base := by
  unfold routeExternal at h
  cases hname : external.pathName with
  | none => simp [hname] at h
  | some pathName =>
      cases hvirtual : external.virtualPath with
      | none => simp [hname, hvirtual] at h
      | some virtualPath =>
          simp only [hname, hvirtual] at h
          split at h
          · cases h
          split at h
          · cases h
            exact ⟨rfl, rfl, rfl⟩
          split at h
          · cases h
          split at h <;> cases h

/-! ## The archive route -/

def ArchiveAt (graph : ResolverGraph) (external : AssetFileExternal)
    (root outer member : NormalizedPath) (i : ℕ) : Prop :=
  ∃ node, graph.nodes[i]? = some node ∧ ArchiveTarget external root outer member node

structure ArchiveOutcome (graph : ResolverGraph) (source : SourceNode)
    (external : AssetFileExternal) (pathId : Int64) (cls : Int32) (result : ResolveResult) :
    Prop where
  selects : ∀ root outer member, ArchiveSource source external root outer member →
    Answers graph (ArchiveAt graph external root outer member) pathId cls .externalExact result
  refused : (∀ root outer member, ¬ ArchiveSource source external root outer member) →
    result.status = .outOfScope

theorem resolveArchive_outcome (graph : ResolverGraph) (source : SourceNode)
    (external : AssetFileExternal) (pathId : Int64) (cls : Int32) {base : ResolveResult}
    (hbase : base.object = none) :
    ArchiveOutcome graph source external pathId cls
      (resolveArchive graph source external pathId cls base) := by
  constructor
  · rintro root outer member ⟨hbundled, hscope, ⟨locator, hlocator, hmember⟩, hrelative⟩
    obtain ⟨scopePath, hscopeRoot, -⟩ := hscope.scopeRoot
    obtain ⟨outerPath, houterPath, -⟩ := hscope.outerPath
    have hmem : ∀ i, i ∈ matchingIndices graph (archiveCandidate external root outer member) ↔
        ArchiveAt graph external root outer member i := by
      intro i
      simp only [mem_matchingIndices_iff, archiveCandidate_iff, ArchiveAt]
    -- past the checks, the count is all that is left
    unfold resolveArchive
    rw [hlocator]
    dsimp only
    rw [if_neg (by simp [hbundled, hscopeRoot, houterPath]), hmember,
      normalizedNodeScope_eq_some_iff.mpr hscope]
    dsimp only
    rw [if_neg (by simp [hrelative])]
    refine answers_of_count hmem hbase (by simp) (fun hm => ?_) (fun i hm => ?_)
      (fun i j rest hm => ?_) <;> rw [hm]
  · intro hnone
    unfold resolveArchive
    cases hlocator : archiveLocator external with
    | none => rfl
    | some locator =>
        dsimp only
        split
        · rfl
        rename_i hbundled
        cases hmember : normalizePath locator with
        | none => rfl
        | some member =>
            cases hscope : normalizedNodeScope source with
            | none => rfl
            | some scope =>
                obtain ⟨root, outer⟩ := scope
                dsimp only
                split
                · rfl
                rename_i hrelative
                refine absurd ⟨?_, normalizedNodeScope_eq_some_iff.mp hscope,
                  ⟨locator, hlocator, hmember⟩, by simpa using hrelative⟩
                  (hnone root outer member)
                simp only [Bool.or_eq_true, not_or, Bool.not_eq_true'] at hbundled
                simpa using hbundled.1.1

/-! ## The loose route -/

/-- The directories of the walk: from the source's directory up to its scope
root. -/
def OnWalk (root outer : NormalizedPath) (parts : List Text) : Prop :=
  textComponents root <+: parts ∧ parts <+: (textComponents outer).dropLast

/-- Node `i` is a target of the locator in this directory. -/
def LooseAt (graph : ResolverGraph) (call : LooseCall) (root : NormalizedPath)
    (parts : List Text) (i : ℕ) : Prop :=
  ∃ node wanted, graph.nodes[i]? = some node ∧
    joinPath (pathOf root.absolute parts) call.locator = some wanted ∧
    LooseTarget call root wanted node

/-- The first directory on the walk with a target. -/
structure Nearest (graph : ResolverGraph) (call : LooseCall) (root outer : NormalizedPath)
    (parts : List Text) : Prop where
  onWalk : OnWalk root outer parts
  target : ∃ i, LooseAt graph call root parts i
  below : ∀ deeper, OnWalk root outer deeper → parts.length < deeper.length →
    ∀ i, ¬ LooseAt graph call root deeper i

structure LooseOutcome (graph : ResolverGraph) (source : SourceNode) (call : LooseCall)
    (pathId : Int64) (cls : Int32) (result : ResolveResult) : Prop where
  nearest : ∀ root outer, LooseSource source call.locator root outer →
    (∀ parts, OnWalk root outer parts →
      ∃ wanted, joinPath (pathOf root.absolute parts) call.locator = some wanted) →
    ∀ parts, Nearest graph call root outer parts →
      Answers graph (LooseAt graph call root parts) pathId cls (looseSuccess call) result
  nowhere : (∀ root outer parts i, LooseSource source call.locator root outer →
      OnWalk root outer parts → ¬ LooseAt graph call root parts i) →
    result.status = .outOfScope

section Walking

variable {graph : ResolverGraph} {call : LooseCall} {root : NormalizedPath}

theorem mem_matchingIndices_loose {parts : List Text} {wanted : NormalizedPath}
    (hjoin : joinPath (pathOf root.absolute parts) call.locator = some wanted) (i : ℕ) :
    i ∈ matchingIndices graph (looseCandidate call root wanted) ↔
      LooseAt graph call root parts i := by
  simp only [mem_matchingIndices_iff, looseCandidate_iff, LooseAt, hjoin, Option.some.injEq]
  constructor
  · rintro ⟨node, hnode, htarget⟩
    exact ⟨node, wanted, hnode, rfl, htarget⟩
  · rintro ⟨node, _, hnode, rfl, htarget⟩
    exact ⟨node, hnode, htarget⟩

theorem selectsNothing_of_none {parts : List Text} {wanted : NormalizedPath}
    (hjoin : joinPath (pathOf root.absolute parts) call.locator = some wanted)
    (hnone : ∀ i, ¬ LooseAt graph call root parts i) :
    SelectsNothing graph call root (pathOf root.absolute parts) := by
  refine ⟨wanted, hjoin, fun _ => List.eq_nil_iff_forall_not_mem.mpr fun i hi => ?_⟩
  exact hnone i ((mem_matchingIndices_loose hjoin i).mp hi)

theorem not_looseAt_of_selectsNothing {parts : List Text}
    (h : SelectsNothing graph call root (pathOf root.absolute parts)) (i : ℕ) :
    ¬ LooseAt graph call root parts i := by
  obtain ⟨wanted, hjoin, hempty⟩ := h
  intro hat
  have hwithin : pathIsWithin wanted root = true := by
    obtain ⟨node, wanted', -, hjoin', htarget⟩ := hat
    obtain rfl : wanted = wanted' := by simpa [hjoin] using hjoin'
    exact htarget.inScope.within
  have hmem := (mem_matchingIndices_loose hjoin i).mpr hat
  rw [hempty hwithin] at hmem
  cases hmem

/-- A round that ends the walk in a directory without a target. -/
theorem looseRound_done_quiet {parts : List Text} {result : ResolveResult}
    (hdone : looseRound graph call root (pathOf root.absolute parts) = .done result)
    (hnone : pathIsWithin (pathOf root.absolute parts) root = true →
      ∀ i, ¬ LooseAt graph call root parts i) :
    result.status = .outOfScope := by
  unfold looseRound at hdone
  split at hdone
  · cases hdone
    rfl
  rename_i hwithin
  replace hnone := hnone (by simpa using hwithin)
  cases hjoin : joinPath (pathOf root.absolute parts) call.locator with
  | none =>
      simp only [hjoin, Loop.Outcome.done.injEq] at hdone
      subst hdone
      rfl
  | some wanted =>
      simp only [hjoin] at hdone
      split at hdone
      · rcases hm : matchingIndices graph (looseCandidate call root wanted) with _ | ⟨i, rest⟩
        · rw [hm] at hdone
          exact looseAscend_done hdone
        · exact absurd ((mem_matchingIndices_loose hjoin i).mp (by simp [hm])) (hnone i)
      · exact looseAscend_done hdone

/-- A round that ends the walk in a directory with a target. -/
theorem looseRound_done_answers {parts : List Text} {result : ResolveResult} {i : ℕ}
    (hbase : call.result.object = none)
    (hwithin : pathIsWithin (pathOf root.absolute parts) root = true)
    (hdone : looseRound graph call root (pathOf root.absolute parts) = .done result)
    (htarget : LooseAt graph call root parts i) :
    Answers graph (LooseAt graph call root parts) call.pathId call.expectedClassId
      (looseSuccess call) result := by
  obtain ⟨node, wanted, hnode, hjoin, hat⟩ := htarget
  have hmem : ∀ i, i ∈ matchingIndices graph (looseCandidate call root wanted) ↔
      LooseAt graph call root parts i := mem_matchingIndices_loose hjoin
  have hne : matchingIndices graph (looseCandidate call root wanted) ≠ [] :=
    List.ne_nil_of_mem ((hmem i).mpr ⟨node, wanted, hnode, hjoin, hat⟩)
  have hsuccess : looseSuccess call ≠ .ambiguous := by
    unfold looseSuccess
    split <;> simp
  unfold looseRound at hdone
  rw [hwithin, hjoin] at hdone
  simp only [Bool.not_true, Bool.false_eq_true, if_false, hat.inScope.within, if_true] at hdone
  refine answers_of_count hmem hbase hsuccess (fun hm => absurd hm hne) (fun j hm => ?_)
    (fun j k rest hm => ?_)
  · simp only [hm, Loop.Outcome.done.injEq] at hdone
    exact hdone.symm
  · simp only [hm, Loop.Outcome.done.injEq] at hdone
    rw [← hdone]

/-- **Where a walk ends.** At a part prefix of its first directory, after every
longer one selected nothing. -/
theorem looseRun_done {fuel : ℕ} {directory : NormalizedPath} {rp dp : List Text}
    {result : ResolveResult} (hroot : Shape root rp) (hdir : Shape directory dp)
    (habs : directory.absolute = root.absolute)
    (hfree : ¬ StuckAtDriveRoot graph call root directory)
    (hrun : Loop.run (looseRound graph call root) fuel directory = some result) :
    ∃ parts, parts <+: dp ∧ Shape (pathOf root.absolute parts) parts ∧
      looseRound graph call root (pathOf root.absolute parts) = .done result ∧
      ∀ deeper, deeper <+: dp → parts.length < deeper.length →
        SelectsNothing graph call root (pathOf root.absolute deeper) := by
  obtain ⟨dir, hreach, hdone⟩ := Loop.run_some hrun
  obtain ⟨parts, more, hshape, hda, hparts, hdeeper⟩ :=
    climbed_of_reaches hroot hdir hfree hreach
  rw [hdir.textComponents_eq] at hparts hdeeper
  have hpath := hshape.eq_pathOf
  rw [hda, habs] at hpath
  rw [hpath] at hdone hshape
  rw [habs] at hdeeper
  exact ⟨parts, ⟨more, hparts.symm⟩, hshape, hdone, hdeeper⟩

/-- **The walk stops at the first directory with a target.** -/
theorem looseRun_nearest {fuel : ℕ} {outer : NormalizedPath} {rp op parts : List Text}
    {result : ResolveResult} (hbase : call.result.object = none) (hroot : Shape root rp)
    (houter : Shape outer op) (hcolon : ∀ c ∈ op, colon ∉ c)
    (hwithin : pathIsWithin outer root = true)
    (hjoins : ∀ parts, OnWalk root outer parts →
      ∃ wanted, joinPath (pathOf root.absolute parts) call.locator = some wanted)
    (hrun : Loop.run (looseRound graph call root) fuel
      (pathOf outer.absolute op.dropLast) = some result)
    (h : Nearest graph call root outer parts) :
    Answers graph (LooseAt graph call root parts) call.pathId call.expectedClassId
      (looseSuccess call) result := by
  obtain ⟨habs, hpre, hclimb⟩ := (pathIsWithin_iff houter hroot).mp hwithin
  have hdirColon : ∀ c ∈ op.dropLast, colon ∉ c :=
    fun c hc => hcolon c (List.mem_of_mem_dropLast hc)
  have hdir := (parentPath_dropLast houter (driveLooking_of_colonFree houter hcolon)).2
  obtain ⟨ends, hends, hshape, hdone, hdeeper⟩ :=
    looseRun_done hroot hdir habs (not_stuck_of_colonFree houter hcolon) hrun
  have hwalk : ∀ parts, OnWalk root outer parts ↔ rp <+: parts ∧ parts <+: op.dropLast := by
    intro parts
    rw [OnWalk, hroot.textComponents_eq, houter.textComponents_eq]
  have hinside : ∀ parts, Shape (pathOf root.absolute parts) parts → OnWalk root outer parts →
      pathIsWithin (pathOf root.absolute parts) root = true := by
    intro parts hshape hon
    obtain ⟨hup, hdown⟩ := (hwalk parts).mp hon
    refine (pathIsWithin_iff hshape hroot).mpr ⟨rfl, hup, fun hrp => ?_⟩
    -- the first part of a directory is the first part of the outer path
    cases parts with
    | nil => simp
    | cons c cs =>
        obtain ⟨more, hmore⟩ := hdown.trans (List.dropLast_prefix op)
        have := hclimb hrp
        rw [← hmore] at this
        simpa using this
  obtain ⟨hup, hdown⟩ := (hwalk parts).mp h.onWalk
  obtain ⟨i, hi⟩ := h.target
  rcases Nat.lt_trichotomy ends.length parts.length with hlt | heq | hgt
  · -- the walk has passed the directory, so nothing was there
    exact absurd hi (not_looseAt_of_selectsNothing (hdeeper parts hdown hlt) i)
  · obtain rfl : ends = parts :=
      (List.prefix_of_prefix_length_le hends hdown heq.le).eq_of_length heq
    exact looseRound_done_answers hbase (hinside ends hshape h.onWalk) hdone hi
  · -- the walk has not come so far, but a round without a target goes on
    have hlonger : parts <+: ends := List.prefix_of_prefix_length_le hdown hends hgt.le
    have hon : OnWalk root outer ends := (hwalk ends).mpr ⟨hup.trans hlonger, hends⟩
    obtain ⟨wanted, hjoin⟩ := hjoins ends hon
    have hnothing := selectsNothing_of_none hjoin (h.below ends hon hgt)
    have hendsColon : ∀ c ∈ ends, colon ∉ c := fun c hc => hdirColon c (hends.subset hc)
    obtain ⟨hparent, hnext⟩ :=
      parentPath_dropLast hshape (driveLooking_of_colonFree hshape hendsColon)
    have hshorter : OnWalk root outer ends.dropLast := by
      refine (hwalk _).mpr ⟨?_, (List.dropLast_prefix ends).trans hends⟩
      refine List.prefix_of_prefix_length_le (hup.trans hlonger) (List.dropLast_prefix ends) ?_
      have := hup.length_le
      rw [List.length_dropLast]
      omega
    have hne : normalizedEqual (pathOf root.absolute ends) root = false := by
      rw [Bool.eq_false_iff]
      intro he
      have hsame : ends = rp := (normalizedEqual_iff.mp he ▸ hshape).unique hroot
      have := hup.length_le
      rw [hsame] at hgt
      omega
    have hagain := looseRound_again_iff.mpr ⟨hinside ends hshape hon, hnothing, hne, hparent,
      hinside _ hnext hshorter⟩
    rw [hagain] at hdone
    cases hdone

end Walking

theorem resolveLoose_outcome {graph : ResolverGraph} {source : SourceNode} {call : LooseCall}
    {fuel : ℕ} {result : ResolveResult} (hbase : call.result.object = none)
    (hcolon : ∀ path, source.outerPath = some path → colon ∉ path.bytes)
    (hresolve : resolveLoose fuel graph source call = some result) :
    LooseOutcome graph source call call.pathId call.expectedClassId result := by
  have hfacts : ∀ root outer, LooseSource source call.locator root outer →
      ∃ rp op, Shape root rp ∧ Shape outer op ∧ (∀ c ∈ op, colon ∉ c) ∧
        Loop.run (looseRound graph call root) fuel (pathOf outer.absolute op.dropLast) =
          some result := by
    intro root outer hsource
    obtain ⟨path, -, hroot⟩ := hsource.inScope.scopeRoot
    obtain ⟨outerPath, hpath, houter⟩ := hsource.inScope.outerPath
    obtain ⟨rp, hrp⟩ := normalizePath_shape hroot
    obtain ⟨op, hop, hfree⟩ := normalizePath_colonFree houter (hcolon outerPath hpath)
    have hparent := (parentPath_dropLast hop (driveLooking_of_colonFree hop hfree)).1
    have hstart := looseStart_eq_some_iff.mpr ⟨outer, hsource, hparent⟩
    unfold resolveLoose at hresolve
    rw [hstart] at hresolve
    exact ⟨rp, op, hrp, hop, hfree, hresolve⟩
  constructor
  · intro root outer hsource hjoins parts hnearest
    obtain ⟨rp, op, hrp, hop, hfree, hrun⟩ := hfacts root outer hsource
    exact looseRun_nearest hbase hrp hop hfree hsource.inScope.within hjoins hrun hnearest
  · intro hnone
    cases hstart : looseStart source call.locator with
    | none =>
        simp only [resolveLoose, hstart, Option.some.injEq] at hresolve
        rw [← hresolve]
    | some start =>
        obtain ⟨outer, hsource, -⟩ := looseStart_eq_some_iff.mp hstart
        obtain ⟨rp, op, hrp, hop, hfree, hrun⟩ := hfacts start.1 outer hsource
        obtain ⟨habs, -, -⟩ := (pathIsWithin_iff hop hrp).mp hsource.inScope.within
        have hdir := (parentPath_dropLast hop (driveLooking_of_colonFree hop hfree)).2
        obtain ⟨ends, hends, hshape, hdone, -⟩ :=
          looseRun_done hrp hdir habs (not_stuck_of_colonFree hop hfree) hrun
        refine looseRound_done_quiet hdone fun hinside i => hnone start.1 outer ends i hsource ?_
        rw [OnWalk, hrp.textComponents_eq, hop.textComponents_eq]
        exact ⟨((pathIsWithin_iff hshape hrp).mp hinside).2.1, hends⟩

/-! ## The resolver -/

theorem ColonFree.outerPath {graph : ResolverGraph} (h : ColonFree graph) {i : ℕ}
    {node : SourceNode} (hnode : graph.nodes[i]? = some node) :
    ∀ path, node.outerPath = some path → colon ∉ path.bytes :=
  fun path hpath => h node (List.mem_of_getElem? hnode) path (Or.inl hpath)

theorem route_loose {graph : ResolverGraph} {sourceIndex : ℕ} {pointer : AssetPPtr}
    {cls : Int32} {source : SourceNode} {call : LooseCall}
    (h : route graph sourceIndex pointer cls = .loose source call) :
    graph.nodes[sourceIndex]? = some source ∧ call.pathId = pointer.pathId ∧
      call.expectedClassId = cls ∧ call.result.object = none := by
  have hcalled : ∀ ok result, route graph sourceIndex pointer cls ≠ .finished ok result := by
    intro ok result he
    rw [h] at he
    cases he
  obtain ⟨source', external, base, hnode, hbase, hroute⟩ := route_external hcalled
  rw [h] at hroute
  obtain ⟨rfl, hpathId, hcls, hresult⟩ := routeExternal_loose hroute.symm
  exact ⟨hnode, hpathId, hcls, hresult ▸ hbase⟩

theorem route_archive {graph : ResolverGraph} {sourceIndex : ℕ} {pointer : AssetPPtr}
    {cls : Int32} {source : SourceNode} {external : AssetFileExternal} {base : ResolveResult}
    (h : route graph sourceIndex pointer cls = .archive source external base) :
    graph.nodes[sourceIndex]? = some source ∧ base.object = none := by
  have hcalled : ∀ ok result, route graph sourceIndex pointer cls ≠ .finished ok result := by
    intro ok result he
    rw [h] at he
    cases he
  obtain ⟨source', external', base', hnode, hbase, hroute⟩ := route_external hcalled
  rw [h] at hroute
  obtain ⟨rfl, -, rfl⟩ := routeExternal_archive hroute.symm
  exact ⟨hnode, hbase⟩

theorem avoidsDriveRoot_of_colonFree {graph : ResolverGraph} (hcolon : ColonFree graph)
    (sourceIndex : ℕ) (pointer : AssetPPtr) (cls : Int32) :
    AvoidsDriveRoot graph sourceIndex pointer cls := by
  intro source call root directory hroute hstart
  obtain ⟨outer, hsource, hparent⟩ := looseStart_eq_some_iff.mp hstart
  obtain ⟨path, hpath, houter⟩ := hsource.inScope.outerPath
  obtain ⟨op, hop, hfree⟩ :=
    normalizePath_colonFree houter (hcolon.outerPath (route_loose hroute).1 path hpath)
  rw [(parentPath_dropLast hop (driveLooking_of_colonFree hop hfree)).1, Option.some.injEq]
    at hparent
  exact hparent ▸ not_stuck_of_colonFree hop hfree

/-- **Resolution by the set of nodes.** Over pathnames without `:` the call
ends, a permutation of the nodes permutes the answer, and the two routes answer
for the first directory on the walk with a target and for the bundle members. -/
theorem unityPPtrResolve_nodeSet (graph : ResolverGraph) (hcolon : ColonFree graph)
    (sourceIndex : ℕ) (pointer : AssetPPtr) (cls : Int32) :
    ∃ ok result,
      (∃ fuel, unityPPtrResolve fuel graph sourceIndex pointer cls = some (ok, result)) ∧
      (∀ σ : Equiv.Perm (Fin graph.nodes.length), ∃ fuel,
        unityPPtrResolve fuel (graph.permuted σ) (permutedIndex σ sourceIndex) pointer cls =
          some (ok, result.renumbered (permutedIndex σ))) ∧
      (∀ source call, route graph sourceIndex pointer cls = .loose source call →
        LooseOutcome graph source call pointer.pathId cls result) ∧
      ∀ source external base,
        route graph sourceIndex pointer cls = .archive source external base →
          ArchiveOutcome graph source external pointer.pathId cls result := by
  obtain ⟨⟨fuel, ⟨ok, result⟩, hrun⟩, -⟩ :=
    (unityPPtrResolve_terminates_iff graph sourceIndex pointer cls).mpr
      (avoidsDriveRoot_of_colonFree hcolon sourceIndex pointer cls)
  refine ⟨ok, result, ⟨fuel, hrun⟩, fun σ => ⟨fuel, ?_⟩, ?_, ?_⟩
  · rw [unityPPtrResolve_renumbered (renumbers_permuted graph σ), hrun, Option.map_some]
  · intro source call hroute
    obtain ⟨hnode, hpathId, hcls, hbase⟩ := route_loose hroute
    simp only [unityPPtrResolve, hroute] at hrun
    obtain ⟨result', hresolve, he⟩ := Option.map_eq_some_iff.mp hrun
    obtain rfl : result' = result := congrArg Prod.snd he
    rw [← hpathId, ← hcls]
    exact resolveLoose_outcome hbase (hcolon.outerPath hnode) hresolve
  · intro source external base hroute
    have hbase := (route_archive hroute).2
    simp only [unityPPtrResolve, hroute, Option.some.injEq, Prod.mk.injEq] at hrun
    rw [← hrun.2]
    exact resolveArchive_outcome graph source external pointer.pathId cls hbase

def builtinExternal : AssetFileExternal :=
  ⟨some (cstr ""), extraGuid, 0, some (cstr "Resources/unity_builtin_extra")⟩

/-- A source file with a built-in external, and a file without a guid at its
place. -/
def builtinPair : ResolverGraph :=
  ⟨[looseNode "/" "/f" { SerializedFile.closed with externals := [builtinExternal] },
    looseNode "/" "/Resources/unity_builtin_extra"
      { SerializedFile.closed with objects := [looseObject] }]⟩

theorem colonFree_builtinPair : ColonFree builtinPair := by
  intro node hnode path hpath
  have hpaths : path ∈ [cstr "/", cstr "/f", cstr "/Resources/unity_builtin_extra"] := by
    simp only [builtinPair, List.mem_cons, List.not_mem_nil, or_false] at hnode
    rcases hnode with rfl | rfl <;> rcases hpath with hpath | hpath <;>
      simp [← Option.some.inj hpath]
  have hfree : ∀ path ∈ [cstr "/", cstr "/f", cstr "/Resources/unity_builtin_extra"],
      colon ∉ path.bytes := by decide
  exact hfree path hpaths

def swapPair : Equiv.Perm (Fin builtinPair.nodes.length) :=
  Equiv.swap ⟨0, by decide⟩ ⟨1, by decide⟩

/-- The pair in the other order gives the same answer at the other index. -/
theorem unityPPtrResolve_nodeSet_swapped :
    ∃ ok result,
      (∃ fuel, unityPPtrResolve fuel builtinPair 0 ⟨1, 7⟩ targetClassAny =
        some (ok, result)) ∧
      ∃ fuel, unityPPtrResolve fuel (builtinPair.permuted swapPair) 1 ⟨1, 7⟩ targetClassAny =
        some (ok, result.renumbered (permutedIndex swapPair)) := by
  obtain ⟨ok, result, hrun, hperm, -⟩ :=
    unityPPtrResolve_nodeSet builtinPair colonFree_builtinPair 0 ⟨1, 7⟩ targetClassAny
  exact ⟨ok, result, hrun, hperm swapPair⟩

/-- A built-in contract selects a node whose guid does not match, and a node at
the wanted pathname is passed over when that is outside its scope root. -/
theorem unityPPtrResolve_beside_guid_and_scope :
    (unityPPtrResolve 1 builtinPair 0 ⟨1, 7⟩ targetClassAny =
        some (true, ⟨.externalBuiltinContract, some 0, some 1, some 0, some builtinExternal,
          some looseObject⟩) ∧
      ∀ node ∈ builtinPair.nodes, guidMatchesNode builtinExternal node = false) ∧
    unityPPtrResolve 1 (loosePair "/a" "/a/f" "../b/x" "/b/x") 0 ⟨1, 7⟩ targetClassAny =
        some (true, ⟨.outOfScope, some 0, none, some 0, some (looseExternal "../b/x"), none⟩) ∧
      joinPath ⟨ascii "/a", true⟩ (ascii "../b/x") = normalizePath (ascii "/b/x") := by
  decide

end UnityCommon.PPtr
