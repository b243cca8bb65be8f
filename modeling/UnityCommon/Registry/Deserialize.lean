import UnityCommon.Lib.Codec
import UnityCommon.Registry.Format

/-!
# Deserialization

`read_schema_record` and `typetree_schema_registry_deserialize_replace`. A
reader is the list of its unread bytes. Every short read makes the record
`TYPETREE_SCHEMA_INVALID_FORMAT`.
-/

namespace UnityCommon.Registry

open UnityCommon.TypeTree

abbrev SchemaReader := Text

def schemaReaderView (size : ℕ) : Call TypeTreeSchemaStatus SchemaReader Text :=
  Codec.view size .invalidFormat

def schemaReaderU8 : Call TypeTreeSchemaStatus SchemaReader UInt8 :=
  Codec.loaded 1 (fun bytes => bytes.headD 0) .invalidFormat

def schemaReaderU16 : Call TypeTreeSchemaStatus SchemaReader UInt16 :=
  Codec.loaded 2 loadLe16 .invalidFormat

def schemaReaderU32 : Call TypeTreeSchemaStatus SchemaReader UInt32 :=
  Codec.loaded 4 loadLe32 .invalidFormat

def schemaReaderU64 : Call TypeTreeSchemaStatus SchemaReader UInt64 :=
  Codec.loaded 8 loadLe64 .invalidFormat

/-- Sixteen bytes as a hash. -/
def loadBytes16 (bytes : Text) : Bytes16 :=
  if h : bytes.length = 16 then ⟨bytes, h⟩ else .zero

def schemaReaderBytes16 : Call TypeTreeSchemaStatus SchemaReader Bytes16 :=
  Codec.loaded 16 loadBytes16 .invalidFormat

def readOwnedString (size : UInt32) (limit : ℕ) :
    Call TypeTreeSchemaStatus SchemaReader CString := do
  Call.require (size.toNat ≤ limit) .limitExceeded
  Call.request .allocationFailed
  let bytes ← schemaReaderView size.toNat
  if h : (0 : UInt8) ∉ bytes then pure ⟨bytes, h⟩ else Call.fail .invalidFormat

def readNode : Call TypeTreeSchemaStatus SchemaReader TypeTreeNode := do
  let version ← schemaReaderU16
  let level ← schemaReaderU8
  let typeFlags ← schemaReaderU8
  let typeStrOffset ← schemaReaderU32
  let nameStrOffset ← schemaReaderU32
  let byteSize ← schemaReaderU32
  let index ← schemaReaderU32
  let metaFlags ← schemaReaderU32
  let refTypeHash ← schemaReaderU64
  return {
    version, level, typeFlags, typeStrOffset, nameStrOffset
    byteSize := byteSize.toInt32
    index, metaFlags, refTypeHash
    typeStr := none
    nameStr := none }

/-- The fixed part of a record. -/
structure RecordHeader where
  key : TypeTreeSchemaKey
  isStripped : Bool
  nodeCount : UInt32
  stringBufferSize : UInt32
  dependencyCount : UInt32
  classNameSize : UInt32
  namespaceSize : UInt32
  assemblySize : UInt32

def readKey : Call TypeTreeSchemaStatus SchemaReader TypeTreeSchemaKey := do
  let serializedFileVersion ← schemaReaderU32
  let unityVersionSize ← schemaReaderU32
  Call.require (unityVersionSize ≠ 0) .invalidFormat
  Call.require (unityVersionSize.toNat ≤ maxUnityVersionSize) .limitExceeded
  let unityVersion ← readOwnedString unityVersionSize maxUnityVersionSize
  let classId ← schemaReaderU32
  let serializedTypeId ← schemaReaderU32
  let scriptTypeIndex ← schemaReaderU16
  let flags ← schemaReaderU16
  Call.require (flags &&& ~~~7 = 0) .invalidFormat
  let scriptIdHash ← schemaReaderBytes16
  let typeHash ← schemaReaderBytes16
  return {
    serializedFileVersion
    unityVersion := unityVersion.bytes
    classId := classId.toInt32
    serializedTypeId := serializedTypeId.toInt32
    scriptTypeIndex
    hasScriptIdHash := flags &&& 1 != 0
    isStripped := flags &&& 4 != 0
    isRefType := flags &&& 2 != 0
    scriptIdHash, typeHash }

/-- `LIMIT_EXCEEDED` unless every count is within its limit; an empty node table
is refused with the same status. -/
def RecordHeader.withinLimits (header : RecordHeader) : Bool :=
  header.nodeCount != 0 && header.nodeCount.toNat ≤ maxNodes &&
    header.stringBufferSize.toNat ≤ maxStringBuffer &&
    header.dependencyCount.toNat ≤ maxDependencies &&
    header.classNameSize.toNat ≤ maxRefStringSize &&
    header.namespaceSize.toNat ≤ maxRefStringSize &&
    header.assemblySize.toNat ≤ maxRefStringSize

def readRecordHeader : Call TypeTreeSchemaStatus SchemaReader RecordHeader := do
  let key ← readKey
  let flags ← schemaReaderU32
  Call.require (flags &&& ~~~1 = 0) .invalidFormat
  let nodeCount ← schemaReaderU32
  let stringBufferSize ← schemaReaderU32
  let dependencyCount ← schemaReaderU32
  let classNameSize ← schemaReaderU32
  let namespaceSize ← schemaReaderU32
  let assemblySize ← schemaReaderU32
  let header : RecordHeader := {
    key
    isStripped := flags &&& 1 != 0
    nodeCount, stringBufferSize, dependencyCount, classNameSize, namespaceSize, assemblySize }
  Call.require (header.withinLimits = true) .limitExceeded
  return header

/-- A table that is allocated and read only when it is not empty. -/
def readTable {α : Type} (count : UInt32)
    (read : Call TypeTreeSchemaStatus SchemaReader (List α)) :
    Call TypeTreeSchemaStatus SchemaReader (List α) :=
  if count = 0 then pure []
  else do
    Call.request .allocationFailed
    read

def readDependency : Call TypeTreeSchemaStatus SchemaReader Int32 := do
  let dependency ← schemaReaderU32
  return dependency.toInt32

/-- The three names of a reference type; an ordinary type must have none. -/
def readReferenceNames (header : RecordHeader) (schema : TypeTreeType) :
    Call TypeTreeSchemaStatus SchemaReader TypeTreeType :=
  if schema.isRefType then do
    let refClassName ← readOwnedString header.classNameSize maxRefStringSize
    let refNamespace ← readOwnedString header.namespaceSize maxRefStringSize
    let refAsmName ← readOwnedString header.assemblySize maxRefStringSize
    return { schema with
      refClassName := some refClassName
      refNamespace := some refNamespace
      refAsmName := some refAsmName }
  else do
    Call.require (header.classNameSize = 0 ∧ header.namespaceSize = 0 ∧
      header.assemblySize = 0) .invalidFormat
    return schema

/-- The schema of a record, before its reference names are read. -/
def RecordHeader.schema (header : RecordHeader) (nodes : List TypeTreeNode) (stringBuffer : Text)
    (dependencies : List Int32) : TypeTreeType where
  typeId := header.key.serializedTypeId
  isStripped := header.isStripped
  scriptTypeIndex := header.key.scriptTypeIndex
  scriptIdHash := header.key.scriptIdHash
  typeHash := header.key.typeHash
  nodes := nodes
  stringBuffer := stringBuffer
  dependencies := dependencies
  isRefType := header.key.isRefType
  refClassName := none
  refNamespace := none
  refAsmName := none

def readTables (header : RecordHeader) : Call TypeTreeSchemaStatus SchemaReader TypeTreeType := do
  Call.request .allocationFailed
  let nodes ← Call.replicate header.nodeCount.toNat readNode
  let stringBuffer ← readTable header.stringBufferSize
    (schemaReaderView header.stringBufferSize.toNat)
  let dependencies ← readTable header.dependencyCount
    (Call.replicate header.dependencyCount.toNat readDependency)
  readReferenceNames header (header.schema nodes stringBuffer dependencies)

section

variable (sha256 : Text → Sha256Digest)

/-- The payload of one record. `previous` is the key of the last entry so far. -/
def readRecordPayload (previous : Option TypeTreeSchemaKey) :
    Call TypeTreeSchemaStatus SchemaReader (TypeTreeSchemaKey × TypeTreeType) := do
  let header ← readRecordHeader
  let key ← Call.ofExcept (validateKey (some header.key))
  Call.require (previous.all fun p => compareKeys p key == .lt) .invalidFormat
  let raw ← readTables header
  let unread ← Call.current
  Call.require (unread = []) .invalidFormat
  let schema ← boundOr .invalidFormat raw
  Call.ofExcept (validateSchema sha256 (some key) (some schema))

def readSchemaRecord (registry : TypeTreeSchemaRegistry) :
    Call TypeTreeSchemaStatus SchemaReader TypeTreeSchemaRegistry := do
  let recordSize ← schemaReaderU64
  Call.require (8 ≤ recordSize.toNat) .invalidFormat
  let payload ← schemaReaderView (recordSize.toNat - 8)
  let record ← Call.within payload
    (readRecordPayload sha256 (registry.entries.getLast?.map Entry.key))
  let learned ← Call.within registry (typetreeSchemaRegistryLearn sha256 (some record.1.1)
    (some record.1.2) .importedRegistry)
  return learned.2

def readRecords : ℕ → TypeTreeSchemaRegistry →
    Call TypeTreeSchemaStatus SchemaReader TypeTreeSchemaRegistry
  | 0, registry => pure registry
  | count + 1, registry => do
      let registry ← readSchemaRecord sha256 registry
      readRecords count registry

/-- `size` bytes of the file from `offset` on. -/
def field (data : Text) (offset size : ℕ) : Text := (data.drop offset).take size

/-- The header's fixed words, and its size word. -/
def headerValid (data : Text) : Bool :=
  field data 0 8 == schemaRegistryMagic && loadLe16 (field data 8 2) == formatVersion &&
    loadLe16 (field data 10 2) == headerSize.toUInt16 && loadLe32 (field data 12 4) == 0 &&
    loadLe32 (field data 20 4) == 0 && (loadLe64 (field data 24 8)).toNat == data.length

def readFile (data : Text) :
    Call TypeTreeSchemaStatus TypeTreeSchemaRegistry TypeTreeSchemaRegistry := do
  Call.require (headerSize ≤ data.length) .invalidFormat
  Call.require (data.length ≤ maxFileSize) .limitExceeded
  Call.require (headerValid data = true) .invalidFormat
  let entryCount := (loadLe32 (field data 16 4)).toNat
  Call.require (entryCount ≤ maxEntries) .limitExceeded
  Call.require ((sha256 (data.drop headerSize)).bytes = field data 32 32) .digestMismatch
  let reserved ← Call.within .init (registryReserve entryCount)
  let loaded ← Call.within (data.drop headerSize) (readRecords sha256 entryCount reserved.2)
  Call.require (loaded.2 = [] ∧ loaded.1.entries.length = entryCount) .invalidFormat
  return loaded.1

/-- `NULL` is refused; anything else replaces the registry only once all of it is
accepted. -/
def typetreeSchemaRegistryDeserializeReplace (data : Option Text) :
    Call TypeTreeSchemaStatus TypeTreeSchemaRegistry Unit :=
  match data with
  | none => Call.fail .invalidArgument
  | some data => do
      let replacement ← readFile sha256 data
      Call.replace replacement

end

end UnityCommon.Registry
