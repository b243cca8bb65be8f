import UnityCommon.SerializedFile.SchemaOwner

/-!
# The work and the names of schemas

What a construction charges, with which budgets it succeeds, and which trees
and names it accepts when no limit stands in the way.
-/

namespace UnityCommon.Metadata

open UnityCommon.TypeTree

variable {limits : SchemaLimits} {mapped : Text} {parent : SchemaParent} {ordinal : ℕ}
  {view : SchemaView} {retainedBytes scratchBytes : ℕ} {σ : Type} {answers : ℕ → Bool} {s : σ}
  {n : ℕ}

/-! ## Work -/

/-- Retained and scratch bytes, 52 for each node, the bytes of both string
tables, and what does not depend on the tree. -/
def schemaWork (ran : SchemaResult) (schema : SerializedFileSchema) : ℕ :=
  schema.view.retainedBytes + ran.requiredScratchBytes + 52 * schema.view.nodeCount +
    schema.view.tree.stringByteCount.toNat + commonStringTable.length + 2051

/-- The amount as the parent's row counts it, before anything is read: 840 and
168 bytes for each node are retained, 64 are scratch. -/
def SchemaParent.work (parent : SchemaParent) (ordinal : ℕ) : ℕ :=
  match parent.schemaView ordinal with
  | none => 0
  | some view =>
      (840 + view.nodeCount * 168) + 64 * view.nodeCount + 52 * view.nodeCount +
        view.tree.stringByteCount.toNat + commonStringTable.length + 2051

/-- A backed string table is there in full. -/
theorem length_localStrings (hbacked : treeIsBacked parent.stop view.tree)
    (hmapped : parent.stop ≤ mapped.length) :
    (view.localStrings mapped).length = view.tree.stringByteCount.toNat := by
  obtain ⟨-, -, hsize, -, ⟨hoffset, hspan⟩, -⟩ := hbacked
  rw [SchemaView.localStrings, PrefixSpan.bytes, List.length_take, List.length_drop, hsize]
  omega

/-- What is admitted does not depend on the budget. -/
theorem SchemaView.Admitted.budget {knownSize : ℕ}
    (h : view.Admitted mapped limits knownSize retainedBytes scratchBytes) (maxWork : ℕ) :
    view.Admitted mapped { limits with maxWork } knownSize retainedBytes scratchBytes := by
  constructor
  all_goals first | exact h.known | exact h.nodes | exact h.strings | exact h.backed
                  | exact h.layout | exact h.retained | exact h.scratchLayout | exact h.scratch
                  | exact h.levels | exact h.names

/-- What a view makes is determined, storage sizes included. -/
theorem schemaWork_of_admitted (hmapped : parent.stop ≤ mapped.length)
    (h : view.Admitted mapped limits parent.stop retainedBytes scratchBytes) :
    schemaWork (view.result mapped ordinal retainedBytes scratchBytes)
        (view.schema mapped retainedBytes) = view.workUsed mapped retainedBytes scratchBytes := by
  rw [SchemaView.workUsed, length_localStrings h.backed hmapped]
  rfl

/-- The row counts what the schema then takes. -/
theorem schemaWork_eq_work (hview : parent.schemaView ordinal = some view)
    (h : view.Admitted mapped limits parent.stop retainedBytes scratchBytes) :
    schemaWork (view.result mapped ordinal retainedBytes scratchBytes)
        (view.schema mapped retainedBytes) = parent.work ordinal := by
  have hlt : view.nodeCount < 2 ^ 32 := by
    rw [nodeCount_of_view hview]
    exact view.tree.nodeCount.toNat_lt
  have hretained : 840 + view.nodeCount * 168 = retainedBytes :=
    Option.some_inj.mp ((schemaLayout_eq hlt).symm.trans h.layout)
  have hscratch : 64 * view.nodeCount = scratchBytes :=
    Option.some_inj.mp ((scratchLayout_eq hlt).symm.trans h.scratchLayout)
  have hmade : schemaWork (view.result mapped ordinal retainedBytes scratchBytes)
      (view.schema mapped retainedBytes) = retainedBytes + scratchBytes + 52 * view.nodeCount +
        view.tree.stringByteCount.toNat + commonStringTable.length + 2051 := rfl
  rw [hmade, SchemaParent.work, hview, ← hretained, ← hscratch]

/-- **Where a budget is enough for another, it is enough alone**, and the run is
the same. -/
theorem schemaCreate_budget {made : SerializedFileSchema × SchemaResult} {s' : σ} {n' : ℕ}
    {other : ℕ} (hmapped : parent.stop ≤ mapped.length)
    (h : serializedFileSchemaCreate mapped parent ordinal { limits with maxWork := other } answers
      s n = .ok made s' n') {maxWork : ℕ} (hwork : parent.work ordinal ≤ maxWork) :
    serializedFileSchemaCreate mapped parent ordinal { limits with maxWork } answers s n =
      .ok made s' n' := by
  obtain ⟨schema, ran⟩ := made
  obtain ⟨view, retainedBytes, scratchBytes, hview, hadm, hroom, rfl, rfl, rfl, rfl⟩ :=
    schemaCreate_ok h
  rw [← schemaWork_eq_work hview hadm, schemaWork_of_admitted hmapped hadm] at hwork
  rcases schemaCreate_admitted hview (hadm.budget maxWork) answers s' n with
    ⟨-, hok⟩ | ⟨e, compile, made, k, -, -, -, hshort⟩
  · exact hok
  · cases k with
    | work => exact absurd hwork (Nat.not_le.mpr hshort)
    | storage => exact absurd hshort (hroom .storage)
    | scratch => exact absurd hshort (hroom .scratch)

/-- What a success has spent. -/
theorem schemaCreate_spent {schema : SerializedFileSchema} {ran : SchemaResult} {s' : σ} {n' : ℕ}
    (hmapped : parent.stop ≤ mapped.length)
    (h : serializedFileSchemaCreate mapped parent ordinal limits answers s n =
      .ok (schema, ran) s' n') :
    ran.workUsed = schemaWork ran schema ∧ schemaWork ran schema = parent.work ordinal ∧
      ran.workUsed ≤ limits.maxWork := by
  obtain ⟨view, retainedBytes, scratchBytes, hview, hadm, hroom, rfl, rfl, rfl, rfl⟩ :=
    schemaCreate_ok h
  exact ⟨(schemaWork_of_admitted hmapped hadm).symm, schemaWork_eq_work hview hadm,
    Nat.le_of_not_lt (hroom .work)⟩

/-- **The work law of schemas.** No run charges more than its budget, and a
success charges the amount that the parent's row counts. With the other limits
fixed, a budget succeeds exactly when some budget does and it covers that
amount, and every budget that succeeds makes the same schema. -/
theorem schemaCreate_workLaw (mapped : Text) (parent : SchemaParent) (ordinal : ℕ)
    (hmapped : parent.stop ≤ mapped.length) (limits : SchemaLimits) (answers : ℕ → Bool) (s : σ)
    (n : ℕ) :
    (∀ ran s' n', serializedFileSchemaCreate mapped parent ordinal limits answers s n =
      .error ran s' n' → ran.workUsed ≤ limits.maxWork) ∧
    (∀ schema ran s' n', serializedFileSchemaCreate mapped parent ordinal limits answers s n =
      .ok (schema, ran) s' n' →
        ran.workUsed = schemaWork ran schema ∧ schemaWork ran schema = parent.work ordinal ∧
          ran.workUsed ≤ limits.maxWork) ∧
    (∀ maxWork,
      (∃ made s' n', serializedFileSchemaCreate mapped parent ordinal { limits with maxWork }
          answers s n = .ok made s' n') ↔
        (∃ other made s' n', serializedFileSchemaCreate mapped parent ordinal
          { limits with maxWork := other } answers s n = .ok made s' n') ∧
        parent.work ordinal ≤ maxWork) ∧
    ∀ maxWork other made made' s' s'' n' n'',
      serializedFileSchemaCreate mapped parent ordinal { limits with maxWork } answers s n =
          .ok made s' n' →
        serializedFileSchemaCreate mapped parent ordinal { limits with maxWork := other } answers
            s n = .ok made' s'' n'' →
          made = made' ∧ s' = s'' ∧ n' = n'' := by
  have hspent : ∀ maxWork made s' n',
      serializedFileSchemaCreate mapped parent ordinal { limits with maxWork } answers s n =
        .ok made s' n' → parent.work ordinal ≤ maxWork := by
    intro maxWork made s' n' h
    obtain ⟨hran, hmade, hle⟩ := schemaCreate_spent hmapped h
    exact (hran.trans hmade) ▸ hle
  refine ⟨fun ran s' n' h => ?_, fun schema ran s' n' h => schemaCreate_spent hmapped h,
    fun maxWork => ⟨?_, ?_⟩, ?_⟩
  · by_cases hadm : ∃ view retainedBytes scratchBytes, parent.schemaView ordinal = some view ∧
        view.Admitted mapped limits parent.stop retainedBytes scratchBytes
    · obtain ⟨view, retainedBytes, scratchBytes, hview, hadm⟩ := hadm
      rcases schemaCreate_admitted hview hadm answers s n with
        ⟨-, hok⟩ | ⟨e, compile, made, k, herr, hwork, -⟩
      · rw [h] at hok
        cases hok
      · rw [h] at herr
        cases herr
        exact hwork
    · obtain ⟨e, compile, made, herr, hwork⟩ := schemaCreate_refused mapped limits
        (fun view retainedBytes scratchBytes hview hadm' =>
          hadm ⟨view, retainedBytes, scratchBytes, hview, hadm'⟩) answers s n
      rw [h] at herr
      cases herr
      exact hwork
  · rintro ⟨made, s', n', h⟩
    exact ⟨⟨maxWork, made, s', n', h⟩, hspent maxWork made s' n' h⟩
  · rintro ⟨⟨other, made, s', n', h⟩, hwork⟩
    exact ⟨made, s', n', schemaCreate_budget hmapped h hwork⟩
  · intro maxWork other made made' s' s'' n' n'' h h'
    have hsame := schemaCreate_budget hmapped h (hspent other made' s'' n'' h')
    rw [h', Call.Result.ok.injEq] at hsame
    exact ⟨hsame.1.symm, hsame.2.1.symm, hsame.2.2.symm⟩

/-- A record of a little-endian tree. -/
def sampleNode (level : UInt8) (typeOffset nameOffset : ℕ) : Text :=
  [1, 0, level, 0] ++ Bytes.toLE 4 typeOffset ++ Bytes.toLE 4 nameOffset ++ List.replicate 20 0

/-- Two records and the string table, with `"AABB"` of the common one. -/
def sampleTreeSource : Text :=
  sampleNode 0 2 0x80000000 ++ sampleNode 1 0 2 ++ ascii "x\x00yz\x00"

def sampleTree : DirectoryTree := ⟨⟨0, 0⟩, ⟨0, 0⟩, ⟨0, 64⟩, ⟨64, 5⟩, 2, 5⟩

/-- A directory whose one row has the sample tree. -/
def sampleTreeDirectory : SerializedFileDirectory where
  view :=
    { engineVersion := .engine2021_3_35f1
      prefixView :=
        { header :=
            { headerSource := ⟨0, 0⟩, legacyMetadataSizeSource := ⟨0, 0⟩
              legacyFileSizeSource := ⟨0, 0⟩, formatVersionSource := ⟨0, 0⟩
              legacyDataOffsetSource := ⟨0, 0⟩, metadataSizeSource := ⟨0, 0⟩
              fileSizeSource := ⟨0, 0⟩, dataOffsetSource := ⟨0, 0⟩
              endianSelectorSource := ⟨0, 0⟩, opaqueSource := ⟨0, 0⟩, formatVersion := 22
              metadataSize := 69, fileSize := 69, dataOffset := 69, endianSelector := 0
              metadata := ⟨0, 69⟩, metadataToDataGap := ⟨69, 0⟩, data := ⟨69, 0⟩ }
          metadataPrefixSource := ⟨0, 0⟩, versionSource := ⟨0, 0⟩
          versionTerminatorSource := ⟨0, 0⟩, targetPlatformSource := ⟨0, 0⟩
          typeTreeSource := ⟨0, 0⟩, targetPlatform := 0, typeTreeEnabledRaw := 1
          remainingMetadata := ⟨0, 69⟩ }
      parsedMetadataSource := ⟨0, 69⟩, typeCountSource := ⟨0, 0⟩, typeRowsSource := ⟨0, 69⟩
      objectCountSource := ⟨69, 0⟩, objectPaddingSource := ⟨69, 0⟩, objectRowsSource := ⟨69, 0⟩
      remainingMetadata := ⟨69, 0⟩, typeCount := 1, objectCount := 0, nodeRecordCount := 2
      stringByteCount := 5, dependencyWordCount := 0, retainedBytes := 1032 }
  types :=
    [{ classIdSource := ⟨0, 0⟩, strippedSource := ⟨0, 0⟩, scriptIndexSource := ⟨0, 0⟩
       scriptHashSource := none, typeHashSource := ⟨0, 0⟩, classIdBits := 49
       scriptIndexBits := 0xffff, strippedRaw := 0, hasScriptHash := false, ordinal := 0
       source := ⟨0, 69⟩, tree := some sampleTree, dependencies := none }]
  objects := []

def sampleLimits : SchemaLimits := ⟨2, 5, 255, 1176, 128, 4900⟩

def createSampleTree (maxWork : ℕ) :
    Call.Result SchemaResult Unit (SerializedFileSchema × SchemaResult) :=
  serializedFileSchemaCreate sampleTreeSource (.directory sampleTreeDirectory) 0
    { sampleLimits with maxWork } Call.granted () 0

/-- The sample tree costs 4634, so that much is enough and one less is not. -/
theorem schemaCreate_workLaw_sample :
    (SchemaParent.directory sampleTreeDirectory).work 0 = 4634 ∧
      (∃ made s' n', createSampleTree 4634 = .ok made s' n') ∧
      ¬ ∃ made s' n', createSampleTree 4633 = .ok made s' n' := by
  have hwork : (SchemaParent.directory sampleTreeDirectory).work 0 = 4634 := by decide +kernel
  have hlaw := (schemaCreate_workLaw sampleTreeSource (.directory sampleTreeDirectory) 0
    (by decide) sampleLimits Call.granted () 0).2.2.1
  have hsome : ∃ other made s' n', createSampleTree other = .ok made s' n' := by
    have hrun : (createSampleTree 4900).toOption.isSome = true := by decide +kernel
    obtain ⟨made, hmade⟩ := Option.isSome_iff_exists.mp hrun
    exact ⟨4900, made, Call.Result.toOption_eq_some_iff.mp hmade⟩
  refine ⟨hwork, (hlaw 4634).mpr ⟨hsome, hwork.le⟩, fun hless => ?_⟩
  have hle := ((hlaw 4633).mp hless).2
  rw [hwork] at hle
  exact absurd hle (by decide)

/-! ## Names -/

/-- Room for everything that a tree of the view's counts can need. -/
structure SchemaLimits.Ample (limits : SchemaLimits) (view : SchemaView) (mapped : Text) :
    Prop where
  nodes : view.nodeCount ≤ limits.maxNodes
  strings : view.tree.stringByteCount.toNat ≤ limits.maxLocalStringBytes
  depth : 255 ≤ limits.maxDepth
  retained : 840 + view.nodeCount * 168 ≤ limits.maxRetainedBytes
  scratch : 64 * view.nodeCount ≤ limits.maxScratchBytes
  work : view.workUsed mapped (840 + view.nodeCount * 168) (64 * view.nodeCount) ≤ limits.maxWork

/-- The names of a record, as a lookup of its own offsets finds them. -/
def SchemaView.typeString (view : SchemaView) (mapped : Text) (i : ℕ) : Option Text :=
  (typetreeResolveString (view.localStrings mapped) (view.record mapped i).typeOffsetBits).map
    CString.bytes

def SchemaView.fieldString (view : SchemaView) (mapped : Text) (i : ℕ) : Option Text :=
  (typetreeResolveString (view.localStrings mapped) (view.record mapped i).nameOffsetBits).map
    CString.bytes

theorem name_bytes (view : SchemaView) (mapped : Text) (offset : UInt32) (slot : ℕ) :
    (view.name mapped ⟨offset, slot⟩).map SchemaString.bytes =
      (typetreeResolveString (view.localStrings mapped) offset).map CString.bytes :=
  requestName_bytes _ _ _

theorem namesResolve_iff (view : SchemaView) (mapped : Text) :
    view.NamesResolve mapped ↔ ∀ i < view.nodeCount,
      (view.typeString mapped i).isSome ∧ (view.fieldString mapped i).isSome := by
  have hisSome : ∀ offset slot, (view.name mapped ⟨offset, slot⟩).isSome =
      ((typetreeResolveString (view.localStrings mapped) offset).map CString.bytes).isSome := by
    intro offset slot
    rw [← name_bytes view mapped offset slot, Option.isSome_map]
  unfold SchemaView.NamesResolve
  rw [table_requests]
  constructor
  · intro h i hi
    have hmem : ∀ request ∈ nodeRequests (view.record mapped i),
        (view.name mapped request).isSome := fun request hmem =>
      h request (List.mem_flatMap.mpr ⟨i, List.mem_range.mpr hi, hmem⟩)
    refine ⟨?_, ?_⟩
    · have := hmem _ List.mem_cons_self
      rwa [hisSome] at this
    · have := hmem _ (List.mem_cons_of_mem _ List.mem_cons_self)
      rwa [hisSome] at this
  · intro h request hmem
    obtain ⟨i, hi, hrequest⟩ := List.mem_flatMap.mp hmem
    obtain ⟨htype, hfield⟩ := h i (List.mem_range.mp hi)
    simp only [nodeRequests, List.mem_cons, List.not_mem_nil, or_false] at hrequest
    rcases hrequest with rfl | rfl
    · rw [hisSome]
      exact htype
    · rw [hisSome]
      exact hfield

/-- The nodes of a table are the records but for their links. -/
theorem table_node (view : SchemaView) (mapped : Text) {i : ℕ} (hi : i < view.nodeCount) :
    ∃ node, (view.table mapped).nodes[i]? = some node ∧
      node.unlinked = (view.record mapped i).unlinked := by
  have hunlinked := congrArg (fun nodes => nodes[i]?) (close_unlinked (view.record mapped)
    view.nodeCount)
  simp only [List.getElem?_map, List.getElem?_range hi, Option.map_some] at hunlinked
  obtain ⟨node, hnode, hrecord⟩ := Option.map_eq_some_iff.mp hunlinked
  exact ⟨node, hnode, hrecord⟩

/-- The names stored for a record are the ones its own offsets find. -/
theorem schema_node_names (retainedBytes : ℕ) {i : ℕ} (hi : i < view.nodeCount) (hnames : view.NamesResolve mapped) :
    ∃ node, (view.schema mapped retainedBytes).nodes[i]? = some node ∧
      view.typeString mapped i = some node.typeName.bytes ∧
      view.fieldString mapped i = some node.fieldName.bytes := by
  obtain ⟨node, hnode, hrecord⟩ := table_node view mapped hi
  have htypeBits : node.typeOffsetBits = (view.record mapped i).typeOffsetBits :=
    (congrArg SchemaNode.typeOffsetBits hrecord :)
  have hnameBits : node.nameOffsetBits = (view.record mapped i).nameOffsetBits :=
    (congrArg SchemaNode.nameOffsetBits hrecord :)
  obtain ⟨htype, hfield⟩ := (namesResolve_iff view mapped).mp hnames i hi
  refine ⟨node.named (view.name mapped), ?_, ?_, ?_⟩
  · rw [SchemaView.schema, List.getElem?_map, hnode]
    rfl
  · obtain ⟨bytes, hbytes⟩ := Option.isSome_iff_exists.mp htype
    have hname := name_bytes view mapped node.typeOffsetBits (node.ordinal * namesPerNode)
    rw [htypeBits] at hname
    obtain ⟨string, hstring, rfl⟩ := Option.map_eq_some_iff.mp (hname.trans hbytes)
    rw [hbytes, SchemaNode.named]
    simp only [htypeBits, hstring, Option.getD_some]
  · obtain ⟨bytes, hbytes⟩ := Option.isSome_iff_exists.mp hfield
    have hname := name_bytes view mapped node.nameOffsetBits (node.ordinal * namesPerNode + 1)
    rw [hnameBits] at hname
    obtain ⟨string, hstring, rfl⟩ := Option.map_eq_some_iff.mp (hname.trans hbytes)
    rw [hbytes, SchemaNode.named]
    simp only [hnameBits, hstring, Option.getD_some]

theorem levelsFit_of_ample (hcount : 0 < view.nodeCount) (hdepth : 255 ≤ limits.maxDepth) :
    LevelsFit (view.record mapped) limits.maxDepth 0 view.nodeCount ↔
      Preorder.Valid (recordLevels (view.record mapped) view.nodeCount) := by
  rw [levelsFit_iff hcount]
  refine and_iff_left fun i _ => ?_
  have := (view.record mapped i).level.toNat_lt
  omega

/-- **Which trees compile, and to which names.** With limits that are ample and
storage granted, a tree compiles when its levels are a preorder and a lookup
finds every name, and each node then has the names that lookup finds. -/
theorem schemaCreate_names (mapped : Text) (parent : SchemaParent) (ordinal : ℕ)
    (limits : SchemaLimits) (answers : ℕ → Bool) (s : σ) (n : ℕ) (hview : parent.schemaView ordinal = some view)
    (hknown : parent.stop ≤ sizeMax) (hbacked : treeIsBacked parent.stop view.tree)
    (hample : limits.Ample view mapped) (hstorage : answers n = true)
    (hscratch : answers (n + 1) = true) :
    ((∃ schema ran s' n', serializedFileSchemaCreate mapped parent ordinal limits answers s n =
        .ok (schema, ran) s' n') ↔
      Preorder.Valid (recordLevels (view.record mapped) view.nodeCount) ∧
        ∀ i < view.nodeCount,
          (view.typeString mapped i).isSome ∧ (view.fieldString mapped i).isSome) ∧
    ∀ schema ran s' n', serializedFileSchemaCreate mapped parent ordinal limits answers s n =
        .ok (schema, ran) s' n' →
      ∀ i < view.nodeCount, ∃ node, schema.node i = some node ∧
        view.typeString mapped i = some node.typeName.bytes ∧
        view.fieldString mapped i = some node.fieldName.bytes := by
  have hnodeCount := nodeCount_of_view hview
  have hcount : 0 < view.nodeCount := by
    rw [hnodeCount]
    exact Nat.pos_of_ne_zero fun hzero => hbacked.1 (UInt32.toNat_inj.mp hzero)
  have hlt : view.nodeCount < 2 ^ 32 := by
    rw [hnodeCount]
    exact view.tree.nodeCount.toNat_lt
  refine ⟨⟨?_, ?_⟩, ?_⟩
  · rintro ⟨schema, ran, s', n', h⟩
    obtain ⟨view', _, _, hview', hadm, -⟩ := schemaCreate_ok h
    obtain rfl : view = view' := Option.some_inj.mp (hview.symm.trans hview')
    exact ⟨(levelsFit_of_ample hcount hample.depth).mp hadm.levels,
      (namesResolve_iff view mapped).mp hadm.names⟩
  · rintro ⟨hlevels, hnames⟩
    -- ample limits admit the tree, so only storage could be short
    have hadm : view.Admitted mapped limits parent.stop (840 + view.nodeCount * 168)
        (64 * view.nodeCount) :=
      { known := hknown
        nodes := hnodeCount ▸ hample.nodes
        strings := hample.strings
        backed := hbacked
        layout := schemaLayout_eq hlt
        retained := hample.retained
        scratchLayout := scratchLayout_eq hlt
        scratch := hample.scratch
        levels := (levelsFit_of_ample hcount hample.depth).mpr hlevels
        names := (namesResolve_iff view mapped).mpr hnames }
    rcases schemaCreate_admitted hview hadm answers s n with
      ⟨-, hok⟩ | ⟨e, compile, made, k, -, -, -, hshort⟩
    · exact ⟨_, _, _, _, hok⟩
    · cases k with
      | work => exact absurd hample.work (Nat.not_le.mpr hshort)
      | storage => exact absurd (hstorage.symm.trans hshort) Bool.noConfusion
      | scratch => exact absurd (hscratch.symm.trans hshort) Bool.noConfusion
  · intro schema ran s' n' h i hi
    obtain ⟨view', retainedBytes, _, hview', hadm, -, rfl, -⟩ := schemaCreate_ok h
    obtain rfl : view = view' := Option.some_inj.mp (hview.symm.trans hview')
    obtain ⟨node, hnode, hnames⟩ := schema_node_names retainedBytes hi hadm.names
    refine ⟨node, ?_, hnames⟩
    rw [SerializedFileSchema.node, if_pos (by exact hi), hnode]

def sampleTreeView : SchemaView :=
  SchemaRow.view ⟨.ordinaryType, ⟨0, 69⟩, ⟨⟨0, 0⟩, ⟨0, 0⟩, ⟨0, 0⟩, none, ⟨0, 0⟩, 49, 0xffff, 0,
    false⟩, some sampleTree, none, none⟩ sampleTree sampleTreeDirectory.view 0

theorem schemaCreate_names_sample :
    ∃ schema ran s' n', serializedFileSchemaCreateOrdinary (σ := Unit) sampleTreeSource
        sampleTreeDirectory 0 sampleLimits Call.granted () 0 = .ok (schema, ran) s' n' ∧
      ∀ i < 2, ∃ node, schema.node i = some node ∧
        some node.typeName.bytes = [ascii "yz", ascii "x"][i]? ∧
        some node.fieldName.bytes = [ascii "AABB", ascii "yz"][i]? := by
  have hview : (SchemaParent.directory sampleTreeDirectory).schemaView 0 = some sampleTreeView := rfl
  obtain ⟨hiff, hnames⟩ := schemaCreate_names sampleTreeSource (.directory sampleTreeDirectory) 0
    sampleLimits Call.granted () 0 hview (by decide) (by decide)
    ⟨by decide, by decide, by decide, by decide, by decide, by decide +kernel⟩ rfl rfl
  have hlevels : recordLevels (sampleTreeView.record sampleTreeSource) 2 = [0, 1] := by
    decide +kernel
  have htypes : ∀ i < 2, sampleTreeView.typeString sampleTreeSource i =
      [ascii "yz", ascii "x"][i]? := by decide +kernel
  have hfields : ∀ i < 2, sampleTreeView.fieldString sampleTreeSource i =
      [ascii "AABB", ascii "yz"][i]? := by decide +kernel
  have hvalid : Preorder.Valid [0, 1] := by
    refine ⟨rfl, fun i a b ha hb => ?_⟩
    match i with
    | 0 =>
        cases ha
        cases hb
        decide
    | i + 1 => cases hb
  have hresolve : ∀ i < 2, (sampleTreeView.typeString sampleTreeSource i).isSome ∧
      (sampleTreeView.fieldString sampleTreeSource i).isSome := by decide +kernel
  obtain ⟨schema, ran, s', n', h⟩ := hiff.mpr ⟨by rw [← hlevels] at hvalid; exact hvalid, hresolve⟩
  refine ⟨schema, ran, s', n', h, fun i hi => ?_⟩
  obtain ⟨node, hnode, htype, hfield⟩ := hnames schema ran s' n' h i hi
  exact ⟨node, hnode, htype ▸ htypes i hi, hfield ▸ hfields i hi⟩

end UnityCommon.Metadata
