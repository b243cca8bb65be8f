import UnityCommon.Lib.Triple
import UnityCommon.SerializedFile.Schema

/-!
# Peaks of nested owners

A schema or a reference index reports the storage that it was granted, whether
the construction ends well or not. The peaks are within its limits, and an owner
that is returned retains what the peak says.
-/

namespace UnityCommon.Metadata

open Call (Maintains Triple)

variable {answers : ℕ → Bool}

/-! ## Schemas -/

section Schema

variable {limits : SchemaLimits} {I : SchemaCompile → Prop}

/-- The work is not part of the property. -/
def SchemaCompile.IgnoresWork (I : SchemaCompile → Prop) : Prop :=
  ∀ compile workUsed, I compile → I { compile with workUsed }

variable (hI : SchemaCompile.IgnoresWork I)

include hI

theorem maintains_chargeSchema (amount : ℕ) (field : SchemaField) (node : Option ℕ)
    (space : SchemaErrorSpace) (offset : ℕ) :
    Maintains answers I (chargeSchema limits amount field node space offset) :=
  Maintains.reading fun _ hs => Triple.requiring (fun _ => hs) fun _ =>
    Triple.replace fun _ _ => hI _ _ hs

theorem maintains_closeSubtrees (stop level : ℕ) (active : List ActiveNode)
    (nodes : List SchemaNode) :
    Maintains answers I (closeSubtrees limits stop level active nodes) := by
  induction active generalizing nodes with
  | nil => exact Maintains.pure _
  | cons top rest ih =>
      rw [closeSubtrees]
      split
      · exact ((maintains_chargeSchema hI _ _ _ _ _).bind fun _ => Maintains.pure _).bind
          fun nodes => ih nodes
      · exact Maintains.pure _

theorem maintains_compileNodesFrom {mapped : Text} {endianSelector : UInt8}
    {nodesSource : PrefixSpan} (ordinal count : ℕ) (table : NodeTable) :
    Maintains answers I
      (compileNodesFrom limits mapped endianSelector nodesSource ordinal count table) := by
  induction count generalizing ordinal table with
  | zero => exact Maintains.pure _
  | succ count ih =>
      refine Maintains.bind ?_ fun table => ih (ordinal + 1) table
      exact (maintains_chargeSchema hI _ _ _ _ _).bind fun _ =>
        (Maintains.require _ _).bind fun _ => (Maintains.require _ _).bind fun _ =>
        (maintains_closeSubtrees hI _ _ _ _).bind fun _ => Maintains.pure _

theorem maintains_compileNodes {mapped : Text} {endianSelector : UInt8}
    {nodesSource : PrefixSpan} (count : ℕ) :
    Maintains answers I (compileNodes limits mapped endianSelector nodesSource count) :=
  (maintains_compileNodesFrom hI 0 count .empty).bind fun _ =>
    (maintains_closeSubtrees hI _ _ _ _).bind fun _ => Maintains.pure _

theorem maintains_countRequests (pass : ℕ) (source : List NameRequest) (offsets : List ℕ) :
    Maintains answers I (countRequests limits pass source offsets) := by
  induction source generalizing offsets with
  | nil => exact Maintains.pure _
  | cons request source ih => exact (maintains_chargeSchema hI _ _ _ _ _).bind fun _ => ih _

theorem maintains_scatterRequests (pass : ℕ) (source : List NameRequest) (offsets : List ℕ)
    (destination : List NameRequest) :
    Maintains answers I (scatterRequests limits pass source offsets destination) := by
  induction source generalizing offsets destination with
  | nil => exact Maintains.pure _
  | cons request source ih => exact (maintains_chargeSchema hI _ _ _ _ _).bind fun _ => ih _ _

theorem maintains_sortPasses (passes : List ℕ) (source destination : List NameRequest) :
    Maintains answers I (sortPasses limits passes source destination) := by
  induction passes generalizing source destination with
  | nil => exact Maintains.pure _
  | cons pass passes ih =>
      refine Maintains.bind ?_ fun destination => ih destination source
      exact (maintains_chargeSchema hI _ _ _ _ _).bind fun _ =>
        (maintains_countRequests hI _ _ _).bind fun _ => maintains_scatterRequests hI _ _ _ _

section Resolve

variable {space : SchemaStringSpace} {bytes : Text} {origin : ℕ}

theorem maintains_resolveSegment (start stop : ℕ) (terminated : Bool)
    (requests : List NameRequest) (nodes : List SchemaNode) :
    Maintains answers I
      (resolveSegment limits space bytes origin start stop terminated requests nodes) := by
  induction requests generalizing nodes with
  | nil => exact Maintains.pure _
  | cons request rest ih =>
      rw [resolveSegment]
      split
      · exact Maintains.pure _
      · refine Maintains.bind ?_ fun nodes => ih nodes
        exact (maintains_chargeSchema hI _ _ _ _ _).bind fun _ =>
          (Maintains.require _ _).bind fun _ => (Maintains.require _ _).bind fun _ =>
          Maintains.pure _

theorem maintains_resolveCursor (start cursor : ℕ) (rest : Text) (requests : List NameRequest)
    (nodes : List SchemaNode) :
    Maintains answers I
      (resolveCursor limits space bytes origin start cursor rest requests nodes) := by
  induction rest generalizing start cursor requests nodes with
  | nil => exact Maintains.pure _
  | cons byte rest ih =>
      rw [resolveCursor]
      refine (maintains_chargeSchema hI _ _ _ _ _).bind fun _ => ?_
      split
      · exact ih _ _ _ _
      · exact (maintains_resolveSegment hI _ _ _ _ _).bind fun _ => ih _ _ _ _

theorem maintains_resolveTable (requests : List NameRequest) (nodes : List SchemaNode) :
    Maintains answers I (resolveTable limits space bytes origin requests nodes) := by
  refine (maintains_resolveCursor hI _ _ _ _ _).bind fun ⟨nodes, requests⟩ => ?_
  cases requests with
  | nil => exact Maintains.pure _
  | cons request rest =>
      show Maintains answers I (ite _ _ _)
      split
      · exact (maintains_chargeSchema hI _ _ _ _ _).bind fun _ => Maintains.fail _
      · exact Maintains.pure _

end Resolve

theorem maintains_resolveNames {mapped : Text} {stringsSource : PrefixSpan}
    (requests : List NameRequest) (nodes : List SchemaNode) :
    Maintains answers I (resolveNames limits mapped stringsSource requests nodes) :=
  (maintains_resolveTable hI _ _).bind fun _ => (maintains_resolveTable hI _ _).bind fun _ =>
    (Maintains.require _ _).bind fun _ => Maintains.pure _

end Schema

section SchemaPeaks

variable {limits : SchemaLimits} {mapped : Text} {parent : SchemaParent} {ordinal : ℕ}

/-- The peaks are granted requests within the limits. -/
def SchemaLimits.Grants (limits : SchemaLimits) (retained scratch : ℕ) : Prop :=
  retained ≤ limits.maxRetainedBytes ∧ scratch ≤ limits.maxScratchBytes

/-- The peaks of a compilation. -/
def SchemaCompile.HasPeaks (retained scratch : ℕ) (compile : SchemaCompile) : Prop :=
  compile.peakRetainedBytes = retained ∧ compile.peakScratchBytes = scratch

theorem ignoresWork_hasPeaks (retained scratch : ℕ) :
    SchemaCompile.IgnoresWork (SchemaCompile.HasPeaks retained scratch) :=
  fun _ _ h => h

theorem triple_planSchemaStorage (nodeCount : ℕ) :
    Triple answers (SchemaCompile.HasPeaks 0 0) (planSchemaStorage limits nodeCount)
      (fun plan compile => SchemaCompile.HasPeaks 0 0 compile ∧ limits.Grants plan.1 plan.2)
      fun _ => SchemaCompile.HasPeaks 0 0 := by
  refine Triple.bind (maintains_chargeSchema (ignoresWork_hasPeaks 0 0) _ _ _ _ _) fun _ => ?_
  refine Triple.bind (Maintains.ofOption _ _) fun retained => ?_
  refine Triple.bind (Maintains.modify fun _ h => h) fun _ => ?_
  refine Triple.bind (Q := fun _ compile => SchemaCompile.HasPeaks 0 0 compile ∧
      retained ≤ limits.maxRetainedBytes)
    (Triple.require (fun _ hs hp => ⟨hs, hp⟩) fun _ hs _ => hs) fun _ => ?_
  refine Triple.assuming (fun _ h => h.2) fun hretained => Triple.pre ?_ fun _ h => h.1
  refine Triple.bind (Maintains.ofOption _ _) fun scratch => ?_
  refine Triple.bind (Maintains.modify fun _ h => h) fun _ => ?_
  refine Triple.bind (Q := fun _ compile => SchemaCompile.HasPeaks 0 0 compile ∧
      scratch ≤ limits.maxScratchBytes)
    (Triple.require (fun _ hs hp => ⟨hs, hp⟩) fun _ hs _ => hs) fun _ => ?_
  exact Triple.pure fun _ h => ⟨h.1, hretained, h.2⟩

/-- **The peaks of a schema** are within its limits however it ends, and what is
returned retains the first. -/
theorem triple_createSchema :
    Triple answers (SchemaCompile.HasPeaks 0 0) (createSchema mapped parent ordinal limits)
      (fun schema compile => limits.Grants compile.peakRetainedBytes compile.peakScratchBytes ∧
        schema.view.retainedBytes = compile.peakRetainedBytes)
      fun _ compile => limits.Grants compile.peakRetainedBytes compile.peakScratchBytes := by
  have hnone : ∀ {retained scratch : ℕ} {compile : SchemaCompile}, limits.Grants retained scratch →
      SchemaCompile.HasPeaks retained scratch compile →
      limits.Grants compile.peakRetainedBytes compile.peakScratchBytes := by
    rintro _ _ compile h ⟨rfl, rfl⟩
    exact h
  have hzero : limits.Grants 0 0 := ⟨Nat.zero_le _, Nat.zero_le _⟩
  -- Before the first request nothing is granted.
  have hbefore : ∀ {α : Type} {x : Call SchemaReject SchemaCompile α},
      Maintains answers (SchemaCompile.HasPeaks 0 0) x →
      Triple answers (SchemaCompile.HasPeaks 0 0) x (fun _ => SchemaCompile.HasPeaks 0 0)
        fun _ compile => limits.Grants compile.peakRetainedBytes compile.peakScratchBytes :=
    fun h => h.consequence (fun _ h => h) (fun _ _ h => h) fun _ _ h => hnone hzero h
  refine Triple.bind (hbefore (Maintains.require _ _)) fun _ => ?_
  refine Triple.bind (hbefore (maintains_chargeSchema (ignoresWork_hasPeaks 0 0) _ _ _ _ _))
    fun _ => ?_
  refine Triple.bind (hbefore ?_) fun view => ?_
  · refine (Maintains.require _ _).bind fun _ => (Maintains.ofOption _ _).bind fun _ =>
      (Maintains.modify ?_).bind fun _ => (Maintains.ofOption _ _).bind fun _ => Maintains.pure _
    exact fun _ h => h
  refine Triple.bind (hbefore ?_) fun _ => ?_
  · exact (Maintains.require _ _).bind fun _ => (Maintains.require _ _).bind fun _ =>
      Maintains.require _ _
  refine Triple.bind ((triple_planSchemaStorage view.nodeCount).consequence (fun _ h => h)
    (fun _ _ h => h) fun _ _ h => hnone hzero h) fun ⟨retained, scratch⟩ => ?_
  refine Triple.assuming (fun _ h => h.2) fun hgrants => Triple.pre ?_ fun _ h => h.1
  refine Triple.bind (hbefore (maintains_chargeSchema (ignoresWork_hasPeaks 0 0) _ _ _ _ _))
    fun _ => ?_
  refine Triple.bind (Q := fun _ => SchemaCompile.HasPeaks 0 0)
    (Triple.request (fun _ h => h) fun _ h _ => hnone hzero h) fun _ => ?_
  -- The storage is granted, the scratch not yet.
  have hstorage : limits.Grants retained 0 := ⟨hgrants.1, Nat.zero_le _⟩
  refine Triple.bind (Q := fun _ => SchemaCompile.HasPeaks retained 0)
    (Triple.modify fun _ h => ⟨rfl, h.2⟩) fun _ => ?_
  refine Triple.bind ((maintains_chargeSchema (ignoresWork_hasPeaks retained 0) _ _ _ _
    _).consequence (fun _ h => h) (fun _ _ h => h) fun _ _ h => hnone hstorage h) fun _ => ?_
  refine Triple.bind (Q := fun _ => SchemaCompile.HasPeaks retained 0)
    (Triple.request (fun _ h => h) fun _ h _ => hnone hstorage h) fun _ => ?_
  refine Triple.bind (Q := fun _ => SchemaCompile.HasPeaks retained scratch)
    (Triple.modify fun _ h => ⟨h.1, rfl⟩) fun _ => ?_
  -- Nothing more is requested.
  have hpeaks := ignoresWork_hasPeaks retained scratch
  have hafter : ∀ {α : Type} {x : Call SchemaReject SchemaCompile α},
      Maintains answers (SchemaCompile.HasPeaks retained scratch) x →
      Triple answers (SchemaCompile.HasPeaks retained scratch) x
        (fun _ => SchemaCompile.HasPeaks retained scratch)
        fun _ compile => limits.Grants compile.peakRetainedBytes compile.peakScratchBytes :=
    fun h => h.consequence (fun _ h => h) (fun _ _ h => h) fun _ _ h => hnone hgrants h
  refine Triple.bind (hafter (maintains_compileNodes hpeaks _)) fun table => ?_
  refine Triple.bind (hafter (maintains_sortPasses hpeaks _ _ _)) fun requests => ?_
  refine Triple.bind (hafter (maintains_resolveNames hpeaks _ _)) fun nodes => ?_
  refine Triple.bind (hafter (maintains_chargeSchema hpeaks _ _ _ _ _)) fun _ => ?_
  exact Triple.pure fun _ h => ⟨hnone hgrants h, h.1.symm⟩

variable {σ : Type} {s s' : σ} {n n' : ℕ} {ran : SchemaResult}

theorem keeps_schemaCreate :
    Call.Keeps (σ := σ) (serializedFileSchemaCreate mapped parent ordinal limits) :=
  (Call.keeps_enclosed _ _ _).bind fun _ => Call.keeps_pure _

theorem schemaCreate_peaks {schema : SerializedFileSchema}
    (h : serializedFileSchemaCreate mapped parent ordinal limits answers s n =
      .ok (schema, ran) s' n') :
    limits.Grants ran.peakRetainedBytes ran.peakScratchBytes ∧
      schema.view.retainedBytes = ran.peakRetainedBytes := by
  obtain ⟨r, _, _, hcreate, hr⟩ := Call.bind_eq_ok.mp h
  obtain ⟨hr, -, -⟩ := Call.pure_eq_ok.mp hr
  cases hr
  obtain ⟨hcreate, -⟩ := Call.enclosed_eq_ok.mp hcreate
  exact triple_createSchema.of_ok ⟨rfl, rfl⟩ hcreate

theorem schemaCreate_peaks_of_error
    (h : serializedFileSchemaCreate mapped parent ordinal limits answers s n = .error ran s' n') :
    limits.Grants ran.peakRetainedBytes ran.peakScratchBytes := by
  rcases Call.bind_eq_error.mp h with h | ⟨_, _, _, -, h⟩
  · obtain ⟨e, compile, hcreate, rfl, -⟩ := Call.enclosed_eq_error.mp h
    exact triple_createSchema.of_error ⟨rfl, rfl⟩ hcreate
  · cases h

end SchemaPeaks

/-! ## Reference indexes -/

section Index

variable {limits : ReferenceIndexLimits}

/-- What has been granted to a build. -/
def IndexBuild.HasPeak (retained : ℕ) (build : IndexBuild) : Prop :=
  build.peakRetainedBytes = retained

theorem hasPeak_initial : IndexBuild.HasPeak 0 {} := rfl

theorem maintains_chargeBuild {retained : ℕ} (amount : ℕ) (ordinal : Option ℕ) (offset : ℕ) :
    Maintains answers (IndexBuild.HasPeak retained) (chargeBuild limits amount ordinal offset) :=
  Maintains.reading fun _ hs => Triple.requiring (fun _ => hs) fun _ =>
    Triple.replace fun _ _ => hs

theorem maintains_selectDomain {retained : ℕ} (tail : TailView) :
    Maintains answers (IndexBuild.HasPeak retained) (selectDomain limits tail) := by
  refine (Maintains.require _ _).bind fun _ => (Maintains.modify ?_).bind fun _ =>
    (Maintains.require _ _).bind fun _ => Maintains.require _ _
  exact fun _ h => h

theorem maintains_preflightName {retained knownSize : ℕ} (row : TailReferenceTypeRow) (ordinal : ℕ)
    (component : IdentityComponent) (name : PrefixSpan) (next : ℕ) :
    Maintains answers (IndexBuild.HasPeak retained)
      (preflightName limits knownSize row ordinal component name next) := by
  refine (Maintains.require _ _).bind fun _ => Maintains.bind ?_ fun _ => Maintains.pure _
  exact Maintains.reading fun _ hs => Triple.requiring (fun _ => hs) fun _ =>
    Triple.replace fun _ _ => hs

theorem maintains_preflightOrdinal {retained knownSize : ℕ} (tail : SerializedFileMetadataTail)
    (ordinal : ℕ) :
    Maintains answers (IndexBuild.HasPeak retained)
      (preflightOrdinal limits knownSize tail ordinal) := by
  refine (maintains_chargeBuild _ _ _).bind fun _ => ?_
  unfold preflightRow
  split
  · exact Maintains.fail _
  · split
    · exact (Maintains.require _ _).bind fun _ =>
        (maintains_preflightName _ _ _ _ _).bind fun _ =>
        (maintains_preflightName _ _ _ _ _).bind fun _ =>
        (maintains_preflightName _ _ _ _ _).bind fun _ => Maintains.require _ _
    · exact Maintains.fail _

theorem maintains_copyOrdinal {retained : ℕ} (tail : SerializedFileMetadataTail) (ordinal : ℕ) :
    Maintains answers (IndexBuild.HasPeak retained) (copyOrdinal limits tail ordinal) :=
  (Maintains.ofOption _ _).bind fun _ => (maintains_chargeBuild _ _ _).bind fun _ =>
    Maintains.pure _

variable {tail : SerializedFileMetadataTail}

/-- **The peak of an index** is within its limit however it ends, and what is
returned retains it. -/
theorem triple_createReferenceIndex :
    Triple answers (IndexBuild.HasPeak 0) (createReferenceIndex tail limits)
      (fun index build => build.peakRetainedBytes ≤ limits.maxRetainedBytes ∧
        index.view.retainedBytes = build.peakRetainedBytes)
      fun _ build => build.peakRetainedBytes ≤ limits.maxRetainedBytes := by
  have hgranted : ∀ {α : Type} {x : Call ReferenceIndexReject IndexBuild α} {retained : ℕ},
      retained ≤ limits.maxRetainedBytes → Maintains answers (IndexBuild.HasPeak retained) x →
      Triple answers (IndexBuild.HasPeak retained) x (fun _ => IndexBuild.HasPeak retained)
        fun _ build => build.peakRetainedBytes ≤ limits.maxRetainedBytes :=
    fun hle h => h.consequence (fun _ h => h) (fun _ _ h => h) fun _ _ h => h.trans_le hle
  have hzero := Nat.zero_le limits.maxRetainedBytes
  refine Triple.bind (hgranted hzero (Maintains.require _ _)) fun _ => ?_
  refine Triple.bind (hgranted hzero (maintains_chargeBuild _ _ _)) fun _ => ?_
  refine Triple.bind (hgranted hzero (maintains_selectDomain _)) fun _ => ?_
  refine Triple.bind (hgranted hzero (Maintains.collect (maintains_preflightOrdinal tail) _ _))
    fun _ => ?_
  refine Triple.bind (hgranted hzero (maintains_chargeBuild _ _ _)) fun _ => ?_
  refine Triple.bind (hgranted hzero (Maintains.ofOption _ _)) fun retained => ?_
  refine Triple.bind (hgranted hzero (Maintains.modify fun _ h => h)) fun _ => ?_
  refine Triple.bind (Q := fun _ build => build.HasPeak 0 ∧ retained ≤ limits.maxRetainedBytes)
    (Triple.require (fun _ hs hp => ⟨hs, hp⟩) fun _ hs _ => hs.trans_le hzero) fun _ => ?_
  refine Triple.assuming (fun _ h => h.2) fun hretained => Triple.pre ?_ fun _ h => h.1
  refine Triple.bind (hgranted hzero (maintains_chargeBuild _ _ _)) fun _ => ?_
  refine Triple.bind (Q := fun _ => IndexBuild.HasPeak 0)
    (Triple.request (fun _ h => h) fun _ h _ => h.trans_le hzero) fun _ => ?_
  refine Triple.bind (Q := fun _ => IndexBuild.HasPeak retained) (Triple.modify fun _ _ => rfl)
    fun _ => ?_
  refine Triple.bind (hgranted hretained (Maintains.collect (maintains_copyOrdinal tail) _ _))
    fun _ => ?_
  refine Triple.bind (hgranted hretained (maintains_chargeBuild _ _ _)) fun _ => ?_
  refine Triple.bind (hgranted hretained Maintains.current) fun _ => ?_
  exact Triple.pure fun _ h => ⟨h.trans_le hretained, h.symm⟩

variable {σ : Type} {s s' : σ} {n n' : ℕ} {ran : ReferenceIndexResult}

theorem keeps_referenceIndexCreate :
    Call.Keeps (σ := σ) (serializedFileReferenceIndexCreate tail limits) :=
  (Call.keeps_enclosed _ _ _).bind fun _ => Call.keeps_pure _

theorem referenceIndexCreate_peak {index : SerializedFileReferenceIndex}
    (h : serializedFileReferenceIndexCreate tail limits answers s n = .ok (index, ran) s' n') :
    ran.peakRetainedBytes ≤ limits.maxRetainedBytes ∧
      index.view.retainedBytes = ran.peakRetainedBytes := by
  obtain ⟨r, _, _, hcreate, hr⟩ := Call.bind_eq_ok.mp h
  obtain ⟨hr, -, -⟩ := Call.pure_eq_ok.mp hr
  cases hr
  obtain ⟨hcreate, -⟩ := Call.enclosed_eq_ok.mp hcreate
  exact triple_createReferenceIndex.of_ok hasPeak_initial hcreate

theorem referenceIndexCreate_peak_of_error
    (h : serializedFileReferenceIndexCreate tail limits answers s n = .error ran s' n') :
    ran.peakRetainedBytes ≤ limits.maxRetainedBytes := by
  rcases Call.bind_eq_error.mp h with h | ⟨_, _, _, -, h⟩
  · obtain ⟨e, build, hcreate, rfl, -⟩ := Call.enclosed_eq_error.mp h
    exact triple_createReferenceIndex.of_error hasPeak_initial hcreate
  · cases h

end Index

end UnityCommon.Metadata
