import UnityCommon.SerializedFile.MetadataReader

/-!
# The ordinary directory

`io/serialized_file_directory.c`: the type and object tables. A first pass
counts, one allocation follows, and a second pass over the same bytes fills it;
the rows of the first pass go nowhere. Storage sizes are those of a 64-bit ABI.
-/

namespace UnityCommon.Metadata

inductive DirectoryEngineVersion where
  | engine2021_3_35f1
  | engine2021_3_29f1
deriving DecidableEq, Repr

def DirectoryEngineVersion.expectedVersion : DirectoryEngineVersion → Text
  | .engine2021_3_35f1 => ascii "2021.3.35f1"
  | .engine2021_3_29f1 => ascii "2021.3.29f1"

structure DirectoryLimits where
  maxVersionBytes : ℕ
  maxTypes : ℕ
  maxObjects : ℕ
  maxNodeRecords : ℕ
  maxStringBytes : ℕ
  maxDependencyWords : ℕ
  maxMetadataBytes : ℕ
  maxRetainedBytes : ℕ
  maxScratchBytes : ℕ
  maxWork : ℕ
deriving DecidableEq, Repr

structure DirectoryDependencies where
  countSource : PrefixSpan
  wordsSource : PrefixSpan
  count : UInt32
deriving DecidableEq, Repr

/-- `tree` and `dependencies` are present together, when `has_tree` is set. -/
structure DirectoryTypeRow extends MetadataTypePrefix where
  ordinal : ℕ
  source : PrefixSpan
  tree : Option DirectoryTree
  dependencies : Option DirectoryDependencies
deriving DecidableEq, Repr

structure DirectoryObjectRow where
  ordinal : ℕ
  source : PrefixSpan
  pathIdBits : UInt64
  relativeDataOffset : ℕ
  byteSize : UInt32
  typeOrdinal : UInt32
  payload : PrefixRange
deriving DecidableEq, Repr

structure DirectoryView where
  engineVersion : DirectoryEngineVersion
  prefixView : PrefixView
  parsedMetadataSource : PrefixSpan
  typeCountSource : PrefixSpan
  typeRowsSource : PrefixSpan
  objectCountSource : PrefixSpan
  objectPaddingSource : PrefixSpan
  objectRowsSource : PrefixSpan
  remainingMetadata : PrefixRange
  typeCount : ℕ
  objectCount : ℕ
  nodeRecordCount : ℕ
  stringByteCount : ℕ
  dependencyWordCount : ℕ
  retainedBytes : ℕ
deriving DecidableEq, Repr

structure SerializedFileDirectory where
  view : DirectoryView
  types : List DirectoryTypeRow
  objects : List DirectoryObjectRow
deriving DecidableEq, Repr

inductive DirectoryStatus where
  | ok
  | invalidArgument
  | invalidState
  | prefixRejected
  | unsupportedEngineVersion
  | unsupportedTreeFlag
  | unsupportedTypeShape
  | unsupportedTreeShape
  | malformedMetadata
  | incompleteMapping
  | limitExceeded
  | allocationFailed
deriving DecidableEq, Repr

inductive DirectoryLimit where
  | none
  | types
  | objects
  | nodes
  | stringBytes
  | dependencies
  | metadataBytes
  | retainedBytes
  | scratchBytes
  | work
deriving DecidableEq, Repr

inductive DirectoryField where
  | none
  | engineVersion
  | typeCount
  | typeEntry
  | tree
  | dependencies
  | objectCount
  | objectPadding
  | objectEntry
  | objectRange
  | objectType
deriving DecidableEq, Repr

/-- The arguments of `reject`; no row is `SIZE_MAX`. -/
structure DirectoryReject where
  status : DirectoryStatus
  limit : DirectoryLimit
  field : DirectoryField
  rowOrdinal : Option ℕ
  errorOffset : ℕ
deriving DecidableEq, Repr

structure DirectoryResult where
  status : DirectoryStatus
  limit : DirectoryLimit
  field : DirectoryField
  rowOrdinal : Option ℕ
  errorOffset : ℕ
  workUsed : ℕ
  requiredRetainedBytes : ℕ
  peakRetainedBytes : ℕ
  peakScratchBytes : ℕ
  prefixAttempted : Bool
  prefixResult : PrefixResult
deriving DecidableEq, Repr

/-! ## Rejections -/

def rejectLimit (limit : DirectoryLimit) (field : DirectoryField) (rowOrdinal : Option ℕ)
    (errorOffset : ℕ) : DirectoryReject :=
  ⟨.limitExceeded, limit, field, rowOrdinal, errorOffset⟩

def rejectMalformed (field : DirectoryField) (rowOrdinal : Option ℕ) (errorOffset : ℕ) :
    DirectoryReject :=
  ⟨.malformedMetadata, .none, field, rowOrdinal, errorOffset⟩

/-- The status and limit `reject_reader` gives a failure of the shared reader. -/
def directoryReadStatus : MetadataReadStatus → DirectoryStatus × DirectoryLimit
  | .metadataEnd | .negativeCount => (.malformedMetadata, .none)
  | .mappingEnd => (.incompleteMapping, .none)
  | .byteLimit => (.limitExceeded, .metadataBytes)
  | .workLimit => (.limitExceeded, .work)
  | .typeShape => (.unsupportedTypeShape, .none)
  | .treeShape => (.unsupportedTreeShape, .none)
  | .nodeLimit => (.limitExceeded, .nodes)
  | .stringLimit => (.limitExceeded, .stringBytes)
  | .terminatedStringLimit => (.invalidState, .none)

def rejectDirectoryReader (field : DirectoryField) (rowOrdinal : Option ℕ)
    (reject : ReadReject) : DirectoryReject :=
  let (status, limit) := directoryReadStatus reject.status
  ⟨status, limit, field, rowOrdinal, reject.errorOffset⟩

def chargeDirectoryWork (limits : DirectoryLimits) (amount : ℕ) (field : DirectoryField)
    (rowOrdinal : Option ℕ) (errorOffset : ℕ) : Call DirectoryReject ScanState Unit := do
  let state ← Call.current
  Call.require (amount ≤ limits.maxWork - state.workUsed)
    (rejectLimit .work field rowOrdinal errorOffset)
  Call.replace { state with workUsed := state.workUsed + amount }

/-! ## The scanner -/

section Scan

variable (reader : MetadataReader) (limits : DirectoryLimits)

def takeDirectoryBytes (field : DirectoryField) (rowOrdinal : Option ℕ) (width : ℕ) :
    Call DirectoryReject ScanState PrefixSpan :=
  Call.relabel (rejectDirectoryReader field rowOrdinal) (reader.take width)

def takeDirectoryCount (field : DirectoryField) (rowOrdinal : Option ℕ) :
    Call DirectoryReject ScanState (PrefixSpan × UInt32) :=
  Call.relabel (rejectDirectoryReader field rowOrdinal) reader.readCount

/-- `add_cardinality` for the dependency words, its one use. -/
def addDependencies (ordinal : ℕ) (source : PrefixSpan) (count : UInt32) :
    Call DirectoryReject ScanState Unit := do
  let state ← Call.current
  Call.require (count.toNat ≤ limits.maxDependencyWords - state.dependencyWords)
    (rejectLimit .dependencies .dependencies (some ordinal) source.offset)
  Call.replace { state with dependencyWords := state.dependencyWords + count.toNat }

/-- `scan_tree`. -/
def scanDirectoryTree (ordinal : ℕ) :
    Call DirectoryReject ScanState (DirectoryTree × DirectoryDependencies) := do
  let tree ← Call.relabel (rejectDirectoryReader .tree (some ordinal))
    (reader.readTree ⟨limits.maxNodeRecords, limits.maxStringBytes⟩)
  let (countSource, count) ← takeDirectoryCount reader .dependencies (some ordinal)
  addDependencies limits ordinal countSource count
  let wordsSource ← takeDirectoryBytes reader .dependencies (some ordinal) (count.toNat * 4)
  return (tree, { countSource, wordsSource, count })

def scanDirectoryTreeWhen (hasTree : Bool) (ordinal : ℕ) :
    Call DirectoryReject ScanState (Option DirectoryTree × Option DirectoryDependencies) :=
  if hasTree then do
    let (tree, dependencies) ← scanDirectoryTree reader limits ordinal
    return (some tree, some dependencies)
  else pure (none, none)

/-- `scan_type`. -/
def scanDirectoryType (hasTree : Bool) (ordinal : ℕ) :
    Call DirectoryReject ScanState DirectoryTypeRow := do
  let start := (← Call.current).position
  let typePrefix ← Call.relabel (rejectDirectoryReader .typeEntry (some ordinal))
    reader.readTypePrefix
  let (tree, dependencies) ← scanDirectoryTreeWhen reader limits hasTree ordinal
  chargeDirectoryWork limits 1 .typeEntry (some ordinal) start
  let stop := (← Call.current).position
  return {
    toMetadataTypePrefix := typePrefix
    ordinal
    source := ⟨start, stop - start⟩
    tree
    dependencies }

/-- A field of an object row. -/
def objectField (row : PrefixSpan) (offset width : ℕ) : ℕ :=
  reader.decode ⟨row.offset + offset, width⟩

/-- `scan_object`. -/
def scanDirectoryObject (header : HeaderView) (typeCount ordinal : ℕ) :
    Call DirectoryReject ScanState DirectoryObjectRow := do
  let source ← takeDirectoryBytes reader .objectEntry (some ordinal) 24
  let relativeDataOffset := objectField reader source 8 8
  let byteSize := (objectField reader source 16 4).toUInt32
  let typeOrdinal := (objectField reader source 20 4).toUInt32
  let dataSize := header.fileSize - header.dataOffset
  Call.require (relativeDataOffset ≤ dataSize)
    (rejectMalformed .objectRange (some ordinal) (source.offset + 8))
  Call.require (byteSize.toNat ≤ dataSize - relativeDataOffset)
    (rejectMalformed .objectRange (some ordinal) (source.offset + 16))
  Call.require (typeOrdinal.toNat < typeCount)
    (rejectMalformed .objectType (some ordinal) (source.offset + 20))
  chargeDirectoryWork limits 1 .objectEntry (some ordinal) source.offset
  return {
    ordinal
    source
    pathIdBits := (objectField reader source 0 8).toUInt64
    relativeDataOffset
    byteSize
    typeOrdinal
    payload := ⟨header.dataOffset + relativeDataOffset, byteSize.toNat⟩ }

/-- The bytes up to a multiple of four of the metadata-relative coordinate. -/
def metadataPadding (position : ℕ) : ℕ :=
  let remainder := (position - v22HeaderSize) % 4
  if remainder ≠ 0 then 4 - remainder else 0

/-- A table's count, against its limit and, in the second pass, against the
count of the first. -/
def takeDirectoryTableCount (field : DirectoryField) (limit : DirectoryLimit) (maximum : ℕ)
    (capacity : Option ℕ) : Call DirectoryReject ScanState (PrefixSpan × ℕ) := do
  let (source, count) ← takeDirectoryCount reader field none
  Call.require (count.toNat ≤ maximum) (rejectLimit limit field none source.offset)
  Call.require (capacity.all (· == count.toNat)) (rejectMalformed field none source.offset)
  return (source, count.toNat)

/-- `scan_directory`, with the capacities of the second pass. -/
def scanDirectory (engineVersion : DirectoryEngineVersion) (prefixView : PrefixView)
    (typeCapacity objectCapacity : Option ℕ) :
    Call DirectoryReject ScanState SerializedFileDirectory := do
  let (typeCountSource, typeCount) ←
    takeDirectoryTableCount reader .typeCount .types limits.maxTypes typeCapacity
  let typesStart := (← Call.current).position
  let types ← Call.collect
    (scanDirectoryType reader limits (prefixView.typeTreeEnabledRaw != 0)) 0 typeCount
  let typesStop := (← Call.current).position
  let (objectCountSource, objectCount) ←
    takeDirectoryTableCount reader .objectCount .objects limits.maxObjects objectCapacity
  let position := (← Call.current).position
  let padding := if objectCount ≠ 0 then metadataPadding position else 0
  let objectPaddingSource ← takeDirectoryBytes reader .objectPadding none padding
  let objectsStart := (← Call.current).position
  let objects ← Call.collect
    (scanDirectoryObject reader limits prefixView.header typeCount) 0 objectCount
  let state ← Call.current
  return {
    view := {
      engineVersion
      prefixView
      parsedMetadataSource := ⟨v22HeaderSize, state.position - v22HeaderSize⟩
      typeCountSource
      typeRowsSource := ⟨typesStart, typesStop - typesStart⟩
      objectCountSource
      objectPaddingSource
      objectRowsSource := ⟨objectsStart, state.position - objectsStart⟩
      remainingMetadata := ⟨state.position,
        prefixView.header.metadataToDataGap.offset - state.position⟩
      typeCount
      objectCount
      nodeRecordCount := state.nodeRecords
      stringByteCount := state.stringBytes
      dependencyWordCount := state.dependencyWords
      retainedBytes := 0 }
    types
    objects }

end Scan

/-! ## Admission -/

/-- The comparison loop of `admit_prefix`: each byte is charged first. -/
def compareVersion (limits : DirectoryLimits) :
    Text → Text → ℕ → Call DirectoryReject ScanState Unit
  | [], _, _ => pure ()
  | byte :: bytes, expected, offset => do
      chargeDirectoryWork limits 1 .engineVersion none offset
      Call.require (expected.head? = some byte)
        ⟨.unsupportedEngineVersion, .none, .engineVersion, none, offset⟩
      compareVersion limits bytes expected.tail (offset + 1)

def admitPrefix (mapped : Text) (logicalSize : ℕ) (engineVersion : DirectoryEngineVersion)
    (limits : DirectoryLimits) : Call DirectoryReject ScanState PrefixView := do
  let (result, admitted) := serializedFilePrefixQuery mapped logicalSize
    ⟨limits.maxVersionBytes, limits.maxWork⟩
  Call.modify fun state => { state with workUsed := result.workUsed }
  let prefixView ← Call.ofOption ⟨.prefixRejected, .none, .none, none, result.errorOffset⟩
    admitted
  let expected := engineVersion.expectedVersion
  compareVersion limits (prefixView.versionSource.bytes mapped) expected
    prefixView.versionSource.offset
  Call.require (prefixView.versionSource.size = expected.length)
    ⟨.unsupportedEngineVersion, .none, .engineVersion, none,
      prefixView.versionTerminatorSource.offset⟩
  Call.require (prefixView.typeTreeEnabledRaw ≤ 1)
    ⟨.unsupportedTreeFlag, .none, .tree, none, prefixView.typeTreeSource.offset⟩
  Call.require (prefixView.metadataPrefixSource.size ≤ limits.maxMetadataBytes)
    (rejectLimit .metadataBytes .none none prefixView.remainingMetadata.offset)
  return prefixView

/-! ## Storage -/

def sizeMax : ℕ := 2 ^ 64 - 1

/-- `serialized_file_storage_append_array_internal`: the new total. -/
def appendArray (total alignment count width : ℕ) : Option ℕ :=
  let remainder := total % alignment
  let padding := if remainder ≠ 0 then alignment - remainder else 0
  if sizeMax - total < padding ∨ sizeMax < count * width then none
  else if sizeMax - (total + padding) < count * width then none
  else some (total + padding + count * width)

def directoryStorageSize : ℕ := 704
def directoryTypeRowSize : ℕ := 328
def directoryObjectRowSize : ℕ := 72

def directoryLayout (view : DirectoryView) : Option ℕ := do
  let total ← appendArray directoryStorageSize 8 view.typeCount directoryTypeRowSize
  appendArray total 8 view.objectCount directoryObjectRowSize

def chargeDirectoryOwner (limits : DirectoryLimits) (amount : ℕ) :
    Call DirectoryReject ScanState Unit :=
  chargeDirectoryWork limits amount .none none noOffset

/-- `plan_storage`. -/
def planDirectoryStorage (limits : DirectoryLimits) (view : DirectoryView) :
    Call DirectoryReject ScanState ℕ := do
  chargeDirectoryOwner limits 1
  let total ← Call.ofOption (rejectLimit .retainedBytes .none none noOffset)
    (directoryLayout view)
  Call.modify fun state => { state with requiredRetainedBytes := total }
  Call.require (total ≤ limits.maxRetainedBytes)
    (rejectLimit .retainedBytes .none none noOffset)
  return total

/-! ## Construction -/

def directoryReader (mapped : Text) (limits : DirectoryLimits) (prefixView : PrefixView) :
    MetadataReader where
  bytes := mapped
  metadataEnd := prefixView.header.metadataToDataGap.offset
  byteBudgetOrigin := v22HeaderSize
  maxBytes := limits.maxMetadataBytes
  maxWork := limits.maxWork
  endianSelector := prefixView.header.endianSelector

/-- `serialized_file_directory_create` after its argument check. -/
def createDirectory (mapped : Text) (logicalSize : ℕ) (engineVersion : DirectoryEngineVersion)
    (limits : DirectoryLimits) : Call DirectoryReject ScanState SerializedFileDirectory := do
  let prefixView ← admitPrefix mapped logicalSize engineVersion limits
  let reader := directoryReader mapped limits prefixView
  let start := prefixView.remainingMetadata.offset
  Call.modify fun state => state.rewind start
  let planned ← scanDirectory reader limits engineVersion prefixView none none
  let total ← planDirectoryStorage limits planned.view
  chargeDirectoryOwner limits total
  Call.request ⟨.allocationFailed, .none, .none, none, noOffset⟩
  Call.modify fun state => { state.rewind start with peakRetainedBytes := total }
  let directory ← scanDirectory reader limits engineVersion prefixView
    (some planned.view.typeCount) (some planned.view.objectCount)
  chargeDirectoryOwner limits 1
  return { directory with view := { directory.view with retainedBytes := total } }

/-- The result record of a rejection in a state. -/
def directoryResult (attempted : Bool) (prefixResult : PrefixResult) (reject : DirectoryReject)
    (state : ScanState) : DirectoryResult where
  status := reject.status
  limit := reject.limit
  field := reject.field
  rowOrdinal := reject.rowOrdinal
  errorOffset := reject.errorOffset
  workUsed := state.workUsed
  requiredRetainedBytes := state.requiredRetainedBytes
  peakRetainedBytes := state.peakRetainedBytes
  peakScratchBytes := 0
  prefixAttempted := attempted
  prefixResult := prefixResult

def unrejected (status : DirectoryStatus) : DirectoryReject :=
  ⟨status, .none, .none, none, noOffset⟩

/-- `serialized_file_directory_create`: the directory and the result, or the
result of the failure. -/
def serializedFileDirectoryCreate {σ : Type} (mapped : Text) (logicalSize : ℕ)
    (engineVersion : DirectoryEngineVersion) (limits : DirectoryLimits) :
    Call DirectoryResult σ (SerializedFileDirectory × DirectoryResult) :=
  if logicalSize < mapped.length then
    Call.fail (directoryResult false ⟨.invalidArgument, 0, noOffset⟩ (unrejected .invalidArgument)
      .init)
  else do
    let (prefixResult, _) := serializedFilePrefixQuery mapped logicalSize
      ⟨limits.maxVersionBytes, limits.maxWork⟩
    let (directory, state) ← Call.enclosed .init
      (createDirectory mapped logicalSize engineVersion limits)
      (directoryResult true prefixResult)
    return (directory, directoryResult true prefixResult (unrejected .ok) state)

end UnityCommon.Metadata
