import UnityCommon.SerializedFile.Directory

/-!
# The metadata tail

`io/serialized_file_metadata_tail.c`: scripts, externals, reference types and
the user information, in the two passes of the directory and up to the last
byte of the metadata.
-/

namespace UnityCommon.Metadata

structure TailLimits where
  maxScripts : ℕ
  maxExternals : ℕ
  maxReferenceTypes : ℕ
  maxNodeRecords : ℕ
  maxTreeStringBytes : ℕ
  maxTerminatedStringBytes : ℕ
  maxTailBytes : ℕ
  maxRetainedBytes : ℕ
  maxScratchBytes : ℕ
  maxWork : ℕ
deriving DecidableEq, Repr

structure TailScriptRow where
  ordinal : ℕ
  source : PrefixSpan
  fileIndexSource : PrefixSpan
  alignmentSource : PrefixSpan
  localIdentifierSource : PrefixSpan
  fileIndexBits : UInt32
  localIdentifierBits : UInt64
deriving DecidableEq, Repr

structure TailExternalRow where
  ordinal : ℕ
  source : PrefixSpan
  leadingStringSource : PrefixSpan
  guidSource : PrefixSpan
  typeSource : PrefixSpan
  pathSource : PrefixSpan
  guidWords : List UInt32
  typeBits : UInt32
deriving DecidableEq, Repr

structure TailReferenceNames where
  classNameSource : PrefixSpan
  namespaceSource : PrefixSpan
  assemblyNameSource : PrefixSpan
deriving DecidableEq, Repr

/-- `tree` and `names` are present together, when `has_tree` is set. -/
structure TailReferenceTypeRow extends MetadataTypePrefix where
  ordinal : ℕ
  source : PrefixSpan
  tree : Option DirectoryTree
  names : Option TailReferenceNames
deriving DecidableEq, Repr

structure TailView where
  directory : DirectoryView
  source : PrefixSpan
  scriptCountSource : PrefixSpan
  scriptRowsSource : PrefixSpan
  externalCountSource : PrefixSpan
  externalRowsSource : PrefixSpan
  referenceTypeCountSource : PrefixSpan
  referenceTypeRowsSource : PrefixSpan
  userInformationSource : PrefixSpan
  scriptCount : ℕ
  externalCount : ℕ
  referenceTypeCount : ℕ
  nodeRecordCount : ℕ
  treeStringByteCount : ℕ
  terminatedStringByteCount : ℕ
  retainedBytes : ℕ
deriving DecidableEq, Repr

structure SerializedFileMetadataTail where
  view : TailView
  scripts : List TailScriptRow
  externals : List TailExternalRow
  referenceTypes : List TailReferenceTypeRow
deriving DecidableEq, Repr

inductive TailStatus where
  | ok
  | invalidArgument
  | invalidState
  | sourceMismatch
  | unsupportedTypeShape
  | unsupportedTreeShape
  | malformedMetadata
  | incompleteMapping
  | limitExceeded
  | allocationFailed
deriving DecidableEq, Repr

inductive TailLimit where
  | none
  | scripts
  | externals
  | referenceTypes
  | nodes
  | treeStringBytes
  | terminatedStringBytes
  | tailBytes
  | retainedBytes
  | scratchBytes
  | work
deriving DecidableEq, Repr

inductive TailField where
  | none
  | scriptCount
  | scriptEntry
  | scriptAlignment
  | externalCount
  | externalEntry
  | externalLeadingString
  | externalGuid
  | externalType
  | externalPath
  | referenceTypeCount
  | referenceTypeEntry
  | tree
  | referenceClassName
  | referenceNamespace
  | referenceAssemblyName
  | userInformation
  | exhaustion
deriving DecidableEq, Repr

structure TailReject where
  status : TailStatus
  limit : TailLimit
  field : TailField
  rowOrdinal : Option ℕ
  errorOffset : ℕ
deriving DecidableEq, Repr

structure TailResult where
  status : TailStatus
  limit : TailLimit
  field : TailField
  rowOrdinal : Option ℕ
  errorOffset : ℕ
  workUsed : ℕ
  requiredRetainedBytes : ℕ
  peakRetainedBytes : ℕ
  peakScratchBytes : ℕ
deriving DecidableEq, Repr

/-! ## Rejections -/

/-- The status and limit `reject_reader` gives a failure of the shared reader. -/
def tailReadStatus : MetadataReadStatus → TailStatus × TailLimit
  | .metadataEnd | .negativeCount => (.malformedMetadata, .none)
  | .mappingEnd => (.incompleteMapping, .none)
  | .byteLimit => (.limitExceeded, .tailBytes)
  | .workLimit => (.limitExceeded, .work)
  | .typeShape => (.unsupportedTypeShape, .none)
  | .treeShape => (.unsupportedTreeShape, .none)
  | .nodeLimit => (.limitExceeded, .nodes)
  | .stringLimit => (.limitExceeded, .treeStringBytes)
  | .terminatedStringLimit => (.limitExceeded, .terminatedStringBytes)

def rejectTailReader (field : TailField) (rowOrdinal : Option ℕ) (reject : ReadReject) :
    TailReject :=
  let (status, limit) := tailReadStatus reject.status
  ⟨status, limit, field, rowOrdinal, reject.errorOffset⟩

def chargeTailWork (limits : TailLimits) (amount : ℕ) (field : TailField)
    (rowOrdinal : Option ℕ) (errorOffset : ℕ) : Call TailReject ScanState Unit := do
  let state ← Call.current
  Call.require (amount ≤ limits.maxWork - state.workUsed)
    ⟨.limitExceeded, .work, field, rowOrdinal, errorOffset⟩
  Call.replace { state with workUsed := state.workUsed + amount }

def chargeTailOwner (limits : TailLimits) (amount : ℕ) : Call TailReject ScanState Unit :=
  chargeTailWork limits amount .none none noOffset

/-! ## The scanner -/

section Scan

variable (reader : MetadataReader) (limits : TailLimits)

def takeTailBytes (field : TailField) (rowOrdinal : Option ℕ) (width : ℕ) :
    Call TailReject ScanState PrefixSpan :=
  Call.relabel (rejectTailReader field rowOrdinal) (reader.take width)

def takeTailU32 (field : TailField) (rowOrdinal : Option ℕ) :
    Call TailReject ScanState (PrefixSpan × UInt32) :=
  Call.relabel (rejectTailReader field rowOrdinal) reader.readU32

def takeTailString (field : TailField) (rowOrdinal : Option ℕ) :
    Call TailReject ScanState PrefixSpan :=
  Call.relabel (rejectTailReader field rowOrdinal)
    (reader.readTerminatedString limits.maxTerminatedStringBytes)

/-- `take_table_count`; a capacity is given in the second pass. -/
def takeTailTableCount (field : TailField) (limit : TailLimit) (maximum : ℕ)
    (capacity : Option ℕ) : Call TailReject ScanState (PrefixSpan × ℕ) := do
  let (source, count) ← Call.relabel (rejectTailReader field none) reader.readCount
  Call.require (count.toNat ≤ maximum) ⟨.limitExceeded, limit, field, none, source.offset⟩
  Call.require (capacity.all (· == count.toNat))
    ⟨.malformedMetadata, .none, field, none, source.offset⟩
  return (source, count.toNat)

/-- `consumed_span` up to the cursor. -/
def consumedSpan (start : ℕ) : Call TailReject ScanState PrefixSpan := do
  let state ← Call.current
  return ⟨start, state.position - start⟩

/-- `scan_script`: the identifier is aligned after each file index. -/
def scanScript (ordinal : ℕ) : Call TailReject ScanState TailScriptRow := do
  let start := (← Call.current).position
  let (fileIndexSource, fileIndexBits) ← takeTailU32 reader .scriptEntry (some ordinal)
  let position := (← Call.current).position
  let alignmentSource ←
    takeTailBytes reader .scriptAlignment (some ordinal) (metadataPadding position)
  let localIdentifierSource ← takeTailBytes reader .scriptEntry (some ordinal) 8
  chargeTailWork limits 1 .scriptEntry (some ordinal) start
  let source ← consumedSpan start
  return {
    ordinal
    source
    fileIndexSource
    alignmentSource
    localIdentifierSource
    fileIndexBits
    localIdentifierBits := (reader.decode localIdentifierSource).toUInt64 }

/-- The four words of a GUID span. -/
def guidWords (source : PrefixSpan) : List UInt32 :=
  (List.range 4).map fun word => (reader.decode ⟨source.offset + word * 4, 4⟩).toUInt32

def scanExternal (ordinal : ℕ) : Call TailReject ScanState TailExternalRow := do
  let start := (← Call.current).position
  let leadingStringSource ←
    takeTailString reader limits .externalLeadingString (some ordinal)
  let guidSource ← takeTailBytes reader .externalGuid (some ordinal) 16
  let (typeSource, typeBits) ← takeTailU32 reader .externalType (some ordinal)
  let pathSource ← takeTailString reader limits .externalPath (some ordinal)
  chargeTailWork limits 1 .externalEntry (some ordinal) start
  let source ← consumedSpan start
  return {
    ordinal
    source
    leadingStringSource
    guidSource
    typeSource
    pathSource
    guidWords := guidWords reader guidSource
    typeBits }

def scanReferenceTree (ordinal : ℕ) :
    Call TailReject ScanState (DirectoryTree × TailReferenceNames) := do
  let tree ← Call.relabel (rejectTailReader .tree (some ordinal))
    (reader.readTree ⟨limits.maxNodeRecords, limits.maxTreeStringBytes⟩)
  let classNameSource ← takeTailString reader limits .referenceClassName (some ordinal)
  let namespaceSource ← takeTailString reader limits .referenceNamespace (some ordinal)
  let assemblyNameSource ← takeTailString reader limits .referenceAssemblyName (some ordinal)
  return (tree, { classNameSource, namespaceSource, assemblyNameSource })

def scanReferenceTreeWhen (hasTree : Bool) (ordinal : ℕ) :
    Call TailReject ScanState (Option DirectoryTree × Option TailReferenceNames) :=
  if hasTree then do
    let (tree, names) ← scanReferenceTree reader limits ordinal
    return (some tree, some names)
  else pure (none, none)

def scanReferenceType (hasTree : Bool) (ordinal : ℕ) :
    Call TailReject ScanState TailReferenceTypeRow := do
  let start := (← Call.current).position
  let typePrefix ← Call.relabel (rejectTailReader .referenceTypeEntry (some ordinal))
    reader.readTypePrefix
  let (tree, names) ← scanReferenceTreeWhen reader limits hasTree ordinal
  chargeTailWork limits 1 .referenceTypeEntry (some ordinal) start
  let source ← consumedSpan start
  return {
    toMetadataTypePrefix := typePrefix
    ordinal
    source
    tree
    names }

/-- The planned counts that the second pass must meet. -/
structure TailCapacities where
  scripts : ℕ
  externals : ℕ
  referenceTypes : ℕ
deriving DecidableEq, Repr

def scanTail (directory : DirectoryView) (capacities : Option TailCapacities) :
    Call TailReject ScanState SerializedFileMetadataTail := do
  let start := (← Call.current).position
  let (scriptCountSource, scriptCount) ← takeTailTableCount reader .scriptCount .scripts
    limits.maxScripts (capacities.map (·.scripts))
  let scriptsStart := (← Call.current).position
  let scripts ← Call.collect (scanScript reader limits) 0 scriptCount
  let scriptRowsSource ← consumedSpan scriptsStart
  let (externalCountSource, externalCount) ← takeTailTableCount reader .externalCount .externals
    limits.maxExternals (capacities.map (·.externals))
  let externalsStart := (← Call.current).position
  let externals ← Call.collect (scanExternal reader limits) 0 externalCount
  let externalRowsSource ← consumedSpan externalsStart
  let (referenceTypeCountSource, referenceTypeCount) ←
    takeTailTableCount reader .referenceTypeCount .referenceTypes limits.maxReferenceTypes
      (capacities.map (·.referenceTypes))
  let referencesStart := (← Call.current).position
  let referenceTypes ← Call.collect
    (scanReferenceType reader limits (directory.prefixView.typeTreeEnabledRaw != 0)) 0
    referenceTypeCount
  let referenceTypeRowsSource ← consumedSpan referencesStart
  let userInformationSource ← takeTailString reader limits .userInformation none
  let state ← Call.current
  Call.require (state.position = reader.metadataEnd)
    ⟨.malformedMetadata, .none, .exhaustion, none, state.position⟩
  let source ← consumedSpan start
  return {
    view := {
      directory
      source
      scriptCountSource
      scriptRowsSource
      externalCountSource
      externalRowsSource
      referenceTypeCountSource
      referenceTypeRowsSource
      userInformationSource
      scriptCount
      externalCount
      referenceTypeCount
      nodeRecordCount := state.nodeRecords
      treeStringByteCount := state.stringBytes
      terminatedStringByteCount := state.terminatedBytes
      retainedBytes := 0 }
    scripts
    externals
    referenceTypes }

end Scan

/-! ## Storage -/

def tailStorageSize : ℕ := 960
def tailScriptRowSize : ℕ := 120
def tailExternalRowSize : ℕ := 152
def tailReferenceTypeRowSize : ℕ := 344

def tailLayout (view : TailView) : Option ℕ := do
  let total ← appendArray tailStorageSize 8 view.scriptCount tailScriptRowSize
  let total ← appendArray total 8 view.externalCount tailExternalRowSize
  appendArray total 8 view.referenceTypeCount tailReferenceTypeRowSize

/-- `plan_storage`. -/
def planTailStorage (limits : TailLimits) (view : TailView) : Call TailReject ScanState ℕ := do
  let refused : TailReject := ⟨.limitExceeded, .retainedBytes, .none, none, noOffset⟩
  chargeTailOwner limits 1
  let total ← Call.ofOption refused (tailLayout view)
  Call.modify fun state => { state with requiredRetainedBytes := total }
  Call.require (total ≤ limits.maxRetainedBytes) refused
  return total

/-! ## Construction -/

def tailReader (mapped : Text) (limits : TailLimits) (directory : DirectoryView) :
    MetadataReader where
  bytes := mapped
  metadataEnd := directory.prefixView.header.metadataToDataGap.offset
  byteBudgetOrigin := directory.remainingMetadata.offset
  maxBytes := limits.maxTailBytes
  maxWork := limits.maxWork
  endianSelector := directory.prefixView.header.endianSelector

/-- `serialized_file_metadata_tail_create` after its argument checks, over the
mapping the directory was made from. -/
def createTail (directory : DirectoryView) (mapped : Text) (logicalSize : ℕ)
    (limits : TailLimits) : Call TailReject ScanState SerializedFileMetadataTail := do
  chargeTailOwner limits 1
  Call.require (logicalSize = directory.prefixView.header.fileSize)
    ⟨.sourceMismatch, .none, .none, none, noOffset⟩
  let reader := tailReader mapped limits directory
  let start := directory.remainingMetadata.offset
  Call.modify fun state => state.rewind start
  let planned ← scanTail reader limits directory none
  let total ← planTailStorage limits planned.view
  chargeTailOwner limits total
  Call.request ⟨.allocationFailed, .none, .none, none, noOffset⟩
  Call.modify fun state => { state.rewind start with peakRetainedBytes := total }
  let tail ← scanTail reader limits directory
    (some ⟨planned.view.scriptCount, planned.view.externalCount,
      planned.view.referenceTypeCount⟩)
  chargeTailOwner limits 1
  return { tail with view := { tail.view with retainedBytes := total } }

/-- The result record of a rejection in a state. -/
def tailResult (reject : TailReject) (state : ScanState) : TailResult where
  status := reject.status
  limit := reject.limit
  field := reject.field
  rowOrdinal := reject.rowOrdinal
  errorOffset := reject.errorOffset
  workUsed := state.workUsed
  requiredRetainedBytes := state.requiredRetainedBytes
  peakRetainedBytes := state.peakRetainedBytes
  peakScratchBytes := 0

/-- `serialized_file_metadata_tail_create`: the tail and the result, or the
result of the failure. -/
def serializedFileMetadataTailCreate {σ : Type} (directory : SerializedFileDirectory)
    (mapped : Text) (logicalSize : ℕ) (limits : TailLimits) :
    Call TailResult σ (SerializedFileMetadataTail × TailResult) :=
  if logicalSize < mapped.length then
    Call.fail (tailResult ⟨.invalidArgument, .none, .none, none, noOffset⟩ .init)
  else do
    let (tail, state) ← Call.enclosed .init
      (createTail directory.view mapped logicalSize limits) tailResult
    return (tail, tailResult ⟨.ok, .none, .none, none, noOffset⟩ state)

end UnityCommon.Metadata
