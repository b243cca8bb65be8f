import UnityCommon.SerializedFile.Tail

/-!
# The reference index

`io/serialized_file_reference_index.c`: the identities of a tail's reference
types, checked and copied, and the linear query over them. Spans point into the
mapping at their offset, so that a span is backed when its coordinates are;
overlapping arguments are not modelled.
-/

namespace UnityCommon.Metadata

structure ReferenceIndexLimits where
  maxReferenceTypes : ℕ
  maxIdentitySourceBytes : ℕ
  maxRetainedBytes : ℕ
  maxWork : ℕ
deriving DecidableEq, Repr

structure ReferenceIndexView where
  engineVersion : DirectoryEngineVersion
  prefixView : PrefixView
  tailSource : PrefixSpan
  referenceTypeCountSource : PrefixSpan
  referenceTypeRowsSource : PrefixSpan
  referenceTypeCount : ℕ
  identitySourceBytes : ℕ
  retainedBytes : ℕ
deriving DecidableEq, Repr

structure SerializedFileReferenceIndex where
  view : ReferenceIndexView
  rows : List TailReferenceTypeRow
  knownSize : ℕ
deriving DecidableEq, Repr

inductive ReferenceIndexStatus where
  | ok
  | invalidArgument
  | invalidState
  | unsupportedEngine
  | identitiesUnavailable
  | sourceMismatch
  | limitExceeded
  | allocationFailed
deriving DecidableEq, Repr

inductive ReferenceIndexLimit where
  | none
  | referenceTypes
  | identitySourceBytes
  | retainedBytes
  | componentBytes
  | keyBytes
  | work
deriving DecidableEq, Repr

inductive IdentityComponent where
  | none
  | className
  | namespaceName
  | assemblyName
deriving DecidableEq, Repr

/-- The arguments of `reject_build`; no row is `SIZE_MAX`. -/
structure ReferenceIndexReject where
  status : ReferenceIndexStatus
  limit : ReferenceIndexLimit
  component : IdentityComponent
  rowOrdinal : Option ℕ
  errorOffset : ℕ
deriving DecidableEq, Repr

structure ReferenceIndexResult where
  status : ReferenceIndexStatus
  limit : ReferenceIndexLimit
  component : IdentityComponent
  referenceTypeCount : ℕ
  rowOrdinal : Option ℕ
  errorOffset : ℕ
  workUsed : ℕ
  requiredRetainedBytes : ℕ
  peakRetainedBytes : ℕ
deriving DecidableEq, Repr

/-- What `ReferenceIndexBuild` changes while it runs. -/
@[ext] structure IndexBuild where
  workUsed : ℕ := 0
  referenceTypeCount : ℕ := 0
  identitySourceBytes : ℕ := 0
  requiredRetainedBytes : ℕ := 0
  peakRetainedBytes : ℕ := 0
deriving DecidableEq, Repr

def rejectIndexOwner (status : ReferenceIndexStatus) (limit : ReferenceIndexLimit) :
    ReferenceIndexReject :=
  ⟨status, limit, .none, none, noOffset⟩

def chargeBuild (limits : ReferenceIndexLimits) (amount : ℕ) (ordinal : Option ℕ) (offset : ℕ) :
    Call ReferenceIndexReject IndexBuild Unit := do
  let build ← Call.current
  Call.require (amount ≤ limits.maxWork - build.workUsed)
    ⟨.limitExceeded, .work, .none, ordinal, offset⟩
  Call.replace { build with workUsed := build.workUsed + amount }

/-- `source_is_backed`. -/
def sourceIsBacked (knownSize : ℕ) (source : PrefixSpan) : Prop :=
  source.offset ≤ knownSize ∧ source.size ≤ knownSize - source.offset

instance (knownSize : ℕ) (source : PrefixSpan) : Decidable (sourceIsBacked knownSize source) := by
  unfold sourceIsBacked
  infer_instance

/-- `serialized_file_metadata_tail_reference_type`. -/
def SerializedFileMetadataTail.referenceType (tail : SerializedFileMetadataTail) (ordinal : ℕ) :
    Option TailReferenceTypeRow :=
  if ordinal < tail.view.referenceTypeCount then tail.referenceTypes[ordinal]? else none

section Preflight

variable (limits : ReferenceIndexLimits) (knownSize : ℕ)

def selectDomain (tail : TailView) : Call ReferenceIndexReject IndexBuild Unit := do
  Call.require (tail.directory.engineVersion = .engine2021_3_35f1)
    (rejectIndexOwner .unsupportedEngine .none)
  let count := tail.referenceTypeCount
  Call.modify fun build => { build with referenceTypeCount := count }
  Call.require (count ≤ limits.maxReferenceTypes)
    (rejectIndexOwner .limitExceeded .referenceTypes)
  Call.require (count = 0 ∨ tail.directory.prefixView.typeTreeEnabledRaw ≠ 0)
    (rejectIndexOwner .identitiesUnavailable .none)

/-- The bytes of a name, into their aggregate. -/
def addIdentity (ordinal : ℕ) (component : IdentityComponent) (name : PrefixSpan) :
    Call ReferenceIndexReject IndexBuild Unit := do
  let build ← Call.current
  Call.require (name.size ≤ limits.maxIdentitySourceBytes - build.identitySourceBytes)
    ⟨.limitExceeded, .identitySourceBytes, component, some ordinal, name.offset⟩
  Call.replace { build with identitySourceBytes := build.identitySourceBytes + name.size }

/-- One name of a row: it starts where the one before it ends. Its end is returned. -/
def preflightName (row : TailReferenceTypeRow) (ordinal : ℕ) (component : IdentityComponent)
    (name : PrefixSpan) (next : ℕ) : Call ReferenceIndexReject IndexBuild ℕ := do
  let stop := row.source.offset + row.source.size
  Call.require (name.size ≠ 0 ∧ sourceIsBacked knownSize name ∧ name.offset = next ∧
      row.source.offset ≤ name.offset ∧ name.offset ≤ stop ∧ name.size ≤ stop - name.offset)
    ⟨.sourceMismatch, .none, component, some ordinal, name.offset⟩
  addIdentity limits ordinal component name
  return name.offset + name.size

/-- The row before its names: its ordinal, its tree and its extents. -/
def rowIsBacked (rows : PrefixSpan) (row : TailReferenceTypeRow) (tree : DirectoryTree)
    (ordinal : ℕ) : Prop :=
  row.ordinal = ordinal ∧ sourceIsBacked knownSize row.source ∧
    sourceIsBacked knownSize tree.stringsSource ∧ sourceIsBacked knownSize rows ∧
    rows.offset ≤ row.source.offset ∧ row.source.offset - rows.offset ≤ rows.size ∧
    row.source.size ≤ rows.size - (row.source.offset - rows.offset)

instance (rows : PrefixSpan) (row : TailReferenceTypeRow) (tree : DirectoryTree) (ordinal : ℕ) :
    Decidable (rowIsBacked knownSize rows row tree ordinal) := by
  unfold rowIsBacked
  infer_instance

def preflightRow (rows : PrefixSpan) (row : Option TailReferenceTypeRow) (ordinal : ℕ) :
    Call ReferenceIndexReject IndexBuild Unit :=
  match row with
  | none => Call.fail ⟨.sourceMismatch, .none, .none, some ordinal, noOffset⟩
  | some row =>
      match row.tree, row.names with
      | some tree, some names => do
          Call.require (rowIsBacked knownSize rows row tree ordinal)
            ⟨.sourceMismatch, .none, .none, some ordinal, row.source.offset⟩
          let next := tree.stringsSource.offset + tree.stringsSource.size
          let next ← preflightName limits knownSize row ordinal .className names.classNameSource
            next
          let next ← preflightName limits knownSize row ordinal .namespaceName
            names.namespaceSource next
          let next ← preflightName limits knownSize row ordinal .assemblyName
            names.assemblyNameSource next
          Call.require (next = row.source.offset + row.source.size)
            ⟨.sourceMismatch, .none, .assemblyName, some ordinal, next⟩
      | _, _ => Call.fail ⟨.sourceMismatch, .none, .none, some ordinal, row.source.offset⟩

/-- One round of the first loop. -/
def preflightOrdinal (tail : SerializedFileMetadataTail) (ordinal : ℕ) :
    Call ReferenceIndexReject IndexBuild Unit := do
  let row := tail.referenceType ordinal
  chargeBuild limits 1 (some ordinal) (row.elim noOffset (·.source.offset))
  preflightRow limits knownSize tail.view.referenceTypeRowsSource row ordinal

/-- One round of the second loop, which copies a row that the first one has seen. -/
def copyOrdinal (tail : SerializedFileMetadataTail) (ordinal : ℕ) :
    Call ReferenceIndexReject IndexBuild TailReferenceTypeRow := do
  let row ← Call.ofOption ⟨.sourceMismatch, .none, .none, some ordinal, noOffset⟩
    (tail.referenceType ordinal)
  chargeBuild limits 1 (some ordinal) row.source.offset
  return row

end Preflight

/-- `sizeof(ReferenceIndexStorage)`. -/
def referenceIndexStorageSize : ℕ := 592

def referenceIndexLayout (count : ℕ) : Option ℕ :=
  appendArray referenceIndexStorageSize 8 count tailReferenceTypeRowSize

/-- `serialized_file_reference_index_create` after its argument checks. -/
def createReferenceIndex (tail : SerializedFileMetadataTail) (limits : ReferenceIndexLimits) :
    Call ReferenceIndexReject IndexBuild SerializedFileReferenceIndex := do
  let source := tail.view.source
  Call.require (source.offset ≤ sizeMax ∧ source.size ≤ sizeMax - source.offset)
    (rejectIndexOwner .invalidState .none)
  let knownSize := source.offset + source.size
  chargeBuild limits 1 none noOffset
  selectDomain limits tail.view
  let count := tail.view.referenceTypeCount
  let _ ← Call.collect (preflightOrdinal limits knownSize tail) 0 count
  chargeBuild limits 1 none noOffset
  let retainedBytes ← Call.ofOption (rejectIndexOwner .limitExceeded .retainedBytes)
    (referenceIndexLayout count)
  Call.modify fun build => { build with requiredRetainedBytes := retainedBytes }
  Call.require (retainedBytes ≤ limits.maxRetainedBytes)
    (rejectIndexOwner .limitExceeded .retainedBytes)
  chargeBuild limits retainedBytes none noOffset
  Call.request (rejectIndexOwner .allocationFailed .none)
  Call.modify fun build => { build with peakRetainedBytes := retainedBytes }
  let rows ← Call.collect (copyOrdinal limits tail) 0 count
  chargeBuild limits 1 none noOffset
  let build ← Call.current
  return {
    view := {
      engineVersion := tail.view.directory.engineVersion
      prefixView := tail.view.directory.prefixView
      tailSource := source
      referenceTypeCountSource := tail.view.referenceTypeCountSource
      referenceTypeRowsSource := tail.view.referenceTypeRowsSource
      referenceTypeCount := count
      identitySourceBytes := build.identitySourceBytes
      retainedBytes }
    rows
    knownSize }

/-- The result record of a rejection in a build. -/
def referenceIndexResult (reject : ReferenceIndexReject) (build : IndexBuild) :
    ReferenceIndexResult where
  status := reject.status
  limit := reject.limit
  component := reject.component
  referenceTypeCount := build.referenceTypeCount
  rowOrdinal := reject.rowOrdinal
  errorOffset := reject.errorOffset
  workUsed := build.workUsed
  requiredRetainedBytes := build.requiredRetainedBytes
  peakRetainedBytes := build.peakRetainedBytes

def serializedFileReferenceIndexCreate {σ : Type} (tail : SerializedFileMetadataTail)
    (limits : ReferenceIndexLimits) :
    Call ReferenceIndexResult σ (SerializedFileReferenceIndex × ReferenceIndexResult) := do
  let (index, build) ← Call.enclosed {} (createReferenceIndex tail limits) referenceIndexResult
  return (index, referenceIndexResult (rejectIndexOwner .ok .none) build)

end UnityCommon.Metadata
