import UnityCommon.SerializedFile.Records
import UnityCommon.SerializedFile.Tail
import UnityCommon.TypeTree.ReadTree

/-!
# Materialization

From the rows of a directory and a tail to the records of a `SerializedFile`:
the spans are read again, names are bound and schemas validated. Failures free
what was built.
-/

namespace UnityCommon

open UnityCommon.TypeTree UnityCommon.Metadata

variable {σ : Type}

/-- `memcpy` of a hash; the hash spans of a row have sixteen bytes. -/
def spanBytes16 (mapped : Text) (span : PrefixSpan) : Bytes16 :=
  if h : (span.bytes mapped).length = 16 then ⟨span.bytes mapped, h⟩ else .zero

/-- `serialized_metadata_copy_terminated_string`. -/
def copyTerminatedString (mapped : Text) (source : PrefixSpan) : Call Unit σ CString := do
  Call.require (source.size ≠ 0 ∧ (source.bytes mapped).getLast? = some 0) ()
  Call.request ()
  return cstringAt (source.bytes mapped)

/-! ## Types -/

/-- `materialize_type_identity` on a zeroed record. -/
def materializeTypeIdentity (mapped : Text) (row : MetadataTypePrefix) : Option TypeTreeType :=
  if 1 < row.strippedRaw then none
  else some {
    typeId := row.classIdBits.toInt32
    isStripped := row.strippedRaw != 0
    scriptTypeIndex := row.scriptIndexBits
    scriptIdHash := row.scriptHashSource.elim .zero (spanBytes16 mapped)
    typeHash := spanBytes16 mapped row.typeHashSource
    nodes := []
    stringBuffer := []
    dependencies := []
    isRefType := false
    refClassName := none
    refNamespace := none
    refAsmName := none }

/-- `materialize_tree_payload`: nodes and strings are one stream, to its end. -/
def materializeTreePayload (mapped : Text) (type : TypeTreeType) (tree : DirectoryTree)
    (bigEndian : Bool) : Call Unit σ TypeTreeType := do
  let size := tree.nodesSource.size + tree.stringsSource.size
  Call.require (size ≤ sizeMax) ()
  let nodes : ByteStream := ⟨(PrefixSpan.mk tree.nodesSource.offset size).bytes mapped, 0, bigEndian⟩
  let (type, nodes) ← readTreePayload type nodes 22 tree.nodeCount tree.stringByteCount
  Call.require (nodes.position = nodes.data.length) ()
  return type

def typetreeMaterializeDirectoryType (mapped : Text) (row : DirectoryTypeRow)
    (bigEndian : Bool) : Call Unit σ TypeTreeType := do
  let type ← Call.ofOption () (materializeTypeIdentity mapped row.toMetadataTypePrefix)
  match row.tree, row.dependencies with
  | some tree, some dependencies => do
      let type ← materializeTreePayload mapped type tree bigEndian
      let stream : ByteStream := ⟨dependencies.wordsSource.bytes mapped, 0, bigEndian⟩
      let (words, stream) ← readDependencies dependencies.count stream
      Call.require (stream.position = stream.data.length) ()
      let type := { type with dependencies := words }
      Call.require (typetreeValidateSchema type) ()
      return type
  | _, _ => return type

def typetreeMaterializeMetadataTailReferenceType (mapped : Text) (row : TailReferenceTypeRow)
    (bigEndian : Bool) : Call Unit σ TypeTreeType := do
  let type ← Call.ofOption () (materializeTypeIdentity mapped row.toMetadataTypePrefix)
  let type := { type with isRefType := true }
  match row.tree, row.names with
  | some tree, some names => do
      let type ← materializeTreePayload mapped type tree bigEndian
      let refClassName ← copyTerminatedString mapped names.classNameSource
      let refNamespace ← copyTerminatedString mapped names.namespaceSource
      let refAsmName ← copyTerminatedString mapped names.assemblyNameSource
      let type := { type with
        refClassName := some refClassName
        refNamespace := some refNamespace
        refAsmName := some refAsmName }
      Call.require (typetreeValidateSchema type) ()
      return type
  | _, _ => return type

/-! ## Tables -/

/-- `allocate_zeroed_array`: no storage for no elements. -/
def allocateZeroedArray (count : ℕ) : Call Unit σ Unit :=
  if count = 0 then pure () else Call.request ()

/-- A table of one record for each row. -/
def materializeRows {α β : Type} (materialize : α → Call Unit σ β) :
    List α → Call Unit σ (List β)
  | [] => pure []
  | row :: rows => do
      let record ← materialize row
      let records ← materializeRows materialize rows
      return record :: records

def materializeTable {α β : Type} (materialize : α → Call Unit σ β) (rows : List α) :
    Call Unit σ (List β) := do
  allocateZeroedArray rows.length
  materializeRows materialize rows

def int64Max : ℕ := 2 ^ 63 - 1

/-- The object of a row, with its class taken from its type record. -/
def materializeObject (types : List TypeTreeType) (row : DirectoryObjectRow) :
    Call Unit σ AssetObjectInfo := do
  Call.require (row.relativeDataOffset ≤ int64Max) ()
  let type ← Call.ofOption () types[row.typeOrdinal.toNat]?
  return {
    pathId := row.pathIdBits.toInt64
    byteOffset := row.relativeDataOffset.toUInt64
    byteSize := row.byteSize
    typeIdOrIndex := row.typeOrdinal.toInt32
    typeId := type.typeId
    scriptTypeIndex := type.scriptTypeIndex
    oldTypeId := 0
    stripped := 0 }

def directoryAdapterLimits : DirectoryLimits where
  maxVersionBytes := 12
  maxTypes := 65536
  maxObjects := 1048576
  maxNodeRecords := 1048576
  maxStringBytes := 64 * 1024 * 1024
  maxDependencyWords := 1048576
  maxMetadataBytes := 256 * 1024 * 1024
  maxRetainedBytes := 128 * 1024 * 1024
  maxScratchBytes := 0
  maxWork := 1024 * 1024 * 1024

def tailAdapterLimits : TailLimits where
  maxScripts := 1048576
  maxExternals := 65536
  maxReferenceTypes := 65536
  maxNodeRecords := 1048576
  maxTreeStringBytes := 64 * 1024 * 1024
  maxTerminatedStringBytes := 64 * 1024 * 1024
  maxTailBytes := 256 * 1024 * 1024
  maxRetainedBytes := 128 * 1024 * 1024
  maxScratchBytes := 0
  maxWork := 1024 * 1024 * 1024

/-- `materialize_directory` on a file that is zero but for its data. -/
def materializeDirectory (fileData : Text) (directory : SerializedFileDirectory) :
    Call Unit σ SerializedFile := do
  let view := directory.view
  Call.require (view.typeCount ≤ directoryAdapterLimits.maxTypes ∧
    view.objectCount ≤ directoryAdapterLimits.maxObjects) ()
  let header := view.prefixView.header
  let bigEndian := header.endianSelector != 0
  Call.request ()
  let unityVersion := cstringAt (view.prefixView.versionSource.bytes fileData)
  let types ← materializeTable
    (fun row => typetreeMaterializeDirectoryType fileData row bigEndian) directory.types
  let objects ← materializeTable (materializeObject types) directory.objects
  return { SerializedFile.closed with
    metadataSize := header.metadataSize.toUInt64
    fileSize := header.fileSize.toUInt64
    version := header.formatVersion
    dataOffset := header.dataOffset.toUInt64
    bigEndian
    unityVersion := some unityVersion
    targetPlatform := view.prefixView.targetPlatform
    typeTreeEnabled := view.prefixView.typeTreeEnabledRaw != 0
    types
    objects
    rawData := fileData }

def materializeScript (row : TailScriptRow) : Call Unit σ AssetPPtr :=
  pure {
    fileId := row.fileIndexBits.toInt32
    pathId := row.localIdentifierBits.toInt64 }

def materializeExternal (fileData : Text) (row : TailExternalRow) :
    Call Unit σ AssetFileExternal := do
  let virtualPath ← copyTerminatedString fileData row.leadingStringSource
  let pathName ← copyTerminatedString fileData row.pathSource
  return {
    virtualPath := some virtualPath
    guid := spanBytes16 fileData row.guidSource
    type := row.typeBits.toInt32
    pathName := some pathName }

def materializeTail (file : SerializedFile) (tail : SerializedFileMetadataTail) :
    Call Unit σ SerializedFile := do
  Call.require (tail.view.scriptCount ≤ int32Max ∧ tail.view.externalCount ≤ int32Max ∧
    tail.view.referenceTypeCount ≤ int32Max) ()
  let scripts ← materializeTable materializeScript tail.scripts
  let externals ← materializeTable (materializeExternal file.rawData) tail.externals
  let refTypes ← materializeTable
    (fun row => typetreeMaterializeMetadataTailReferenceType file.rawData row file.bigEndian)
    tail.referenceTypes
  let userInformation ← copyTerminatedString file.rawData tail.view.userInformationSource
  return { file with
    scripts
    externals
    refTypes
    userInformation := some userInformation }

/-! ## The metadata of a file -/

/-- The alternate engine is tried only when the version is not the first one's. -/
def readDirectory (fileData : Text) : Call Unit σ (SerializedFileDirectory × DirectoryResult) :=
  let create (engineVersion : DirectoryEngineVersion) :
      Call DirectoryResult σ (SerializedFileDirectory × DirectoryResult) :=
    serializedFileDirectoryCreate fileData fileData.length engineVersion directoryAdapterLimits
  Call.recover (create .engine2021_3_35f1) fun result =>
    if result.status = .unsupportedEngineVersion then
      Call.relabel (fun _ => ()) (create .engine2021_3_29f1)
    else Call.fail ()

def readMetadata (fileData : Text) : Call Unit σ SerializedFile := do
  let (directory, _) ← readDirectory fileData
  let file ← materializeDirectory fileData directory
  let (tail, _) ← Call.relabel (fun _ => ())
    (serializedFileMetadataTailCreate directory fileData fileData.length tailAdapterLimits)
  materializeTail file tail

end UnityCommon
