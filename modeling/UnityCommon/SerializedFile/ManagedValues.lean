import UnityCommon.SerializedFile.ManagedTypes

/-!
# Managed values

`io/serialized_file_managed_values.c`: the payload of a managed object as its
primitive values, registry rows and reference slots. One pass over the payload
plans the storage, a second one fills it, and the slots are resolved last.
-/

namespace UnityCommon.ManagedValues

open UnityCommon.Metadata

def managedAlignment : ℕ := 4
def int32Bytes : ℕ := 4
def int32Max : ℕ := 2 ^ 31 - 1
def objectByteCountOffset : ℕ := 16
def alignmentFlag : UInt32 := 0x4000
def managedRegistryVersion : UInt64 := 2

/-- `sizeof(ManagedSchema)`. -/
def managedSchemaSize : ℕ := 1448
def managedStorageSize : ℕ := 1376
def managedValueSize : ℕ := 432
def managedSelectedTypeSize : ℕ := 1424
def registryRowSize : ℕ := 176
def ridSlotSize : ℕ := 64

def rejectOwner (status : ManagedValuesStatus) (limit : ManagedValuesLimit) : ManagedReject :=
  ⟨status, limit, .none, none, noOffset⟩

/-- The offset of a span that may be absent. -/
def spanOffset (span : Option PrefixSpan) : ℕ := span.elim noOffset (·.offset)

section Charges

variable (limits : ManagedValuesLimits)

def charge (amount : ℕ) (field : ManagedValuesField) (node : Option ℕ) (offset : ℕ) :
    Call ManagedReject ManagedBuild Unit := do
  let build ← Call.current
  Call.require (amount ≤ limits.maxWork - build.workUsed)
    ⟨.limitExceeded, .work, field, node, offset⟩
  Call.modify fun build => { build with workUsed := build.workUsed + amount }

def remainingWork (build : ManagedBuild) (childCap : ℕ) : ℕ :=
  min childCap (limits.maxWork - build.workUsed)

def capSize (value maximum : ℕ) (limit : ManagedValuesLimit) (field : ManagedValuesField)
    (node : Option ℕ) (offset : ℕ) : Call ManagedReject ManagedBuild Unit :=
  Call.require (value ≤ maximum) ⟨.limitExceeded, limit, field, node, offset⟩

end Charges

/-! ## Admission -/

/-- The views of one source. -/
def sameSource (directory other : DirectoryView) : Prop :=
  directory.prefixView.header.headerSource = other.prefixView.header.headerSource ∧
    directory.prefixView.header.fileSize = other.prefixView.header.fileSize ∧
    directory.prefixView.header.endianSelector = other.prefixView.header.endianSelector ∧
    directory.engineVersion = other.engineVersion ∧
    directory.parsedMetadataSource = other.parsedMetadataSource

instance (directory other : DirectoryView) : Decidable (sameSource directory other) := by
  unfold sameSource
  infer_instance

/-- `serialized_file_directory_object`. -/
def directoryObject (directory : SerializedFileDirectory) (ordinal : ℕ) :
    Option DirectoryObjectRow :=
  if ordinal < directory.view.objectCount then directory.objects[ordinal]? else none

section Admission

variable (limits : ManagedValuesLimits)

/-- The type row of a genuine object exists. -/
def admitSource (directory : SerializedFileDirectory) (tail : SerializedFileMetadataTail)
    (objectOrdinal mappedSize : ℕ) : Call ManagedReject ManagedBuild DirectoryObjectRow := do
  let view := directory.view
  Call.require (view.engineVersion = .engine2021_3_35f1) (rejectOwner .unsupportedEngine .none)
  Call.require (view.prefixView.header.endianSelector = 0) (rejectOwner .unsupportedEndian .none)
  Call.require (sameSource view tail.view.directory ∧
      mappedSize ≤ view.prefixView.header.fileSize)
    (rejectOwner .sourceMismatch .none)
  let object ← Call.ofOption (rejectOwner .invalidArgument .none)
    (directoryObject directory objectOrdinal)
  Call.modify fun build =>
    { build with
      objectOrdinal := some objectOrdinal
      typeOrdinal := some object.typeOrdinal.toNat }
  let type := directory.type object.typeOrdinal.toNat
  Call.require ((type.bind (·.tree)).isSome)
    ⟨.noEmbeddedSchema, .none, .type, none, type.elim noOffset (·.source.offset)⟩
  Call.require (object.payload.size ≤ int32Max)
    ⟨.unsupportedObjectSize, .none, .object, none, object.source.offset + objectByteCountOffset⟩
  Call.require (object.payload.offset + object.payload.size ≤ mappedSize)
    ⟨.incompleteMapping, .none, .object, none, mappedSize⟩
  Call.require (object.payload.offset % managedAlignment = 0)
    ⟨.unsupportedObjectAlignment, .none, .object, none, object.payload.offset⟩
  Call.require (object.payload.size ≤ limits.maxPayloadBytes)
    ⟨.limitExceeded, .payloadBytes, .object, none, object.payload.offset⟩
  return object

/-- The scratch of a schema and the final storage are never held together. -/
def heapReservation : ℕ :=
  limits.maxPrerequisiteBytes + max limits.maxSchemaScratchBytes limits.maxRetainedBytes

def reserveMemory : Call ManagedReject ManagedBuild Unit := do
  Call.require (max limits.maxSchemaScratchBytes limits.maxRetainedBytes ≤
      sizeMax - limits.maxPrerequisiteBytes)
    (rejectOwner .limitExceeded .heapBytes)
  Call.modify fun build =>
    { build with memory := { build.memory with reservedHeapBytes := heapReservation limits } }
  capSize (heapReservation limits) limits.maxHeapBytes .heapBytes .none none noOffset

end Admission

/-! ## Prerequisites -/

section Prerequisites

variable (mapped : Text) (limits : ManagedValuesLimits)

/-- What is left of `max_prerequisite_bytes`. -/
def remainingPrerequisite (build : ManagedBuild) : ℕ :=
  limits.maxPrerequisiteBytes - build.memory.prerequisiteBytes

def takeRemainder : Call ManagedReject ManagedBuild Unit :=
  Call.modify fun build => { build with memory := build.memory.remainder }

def contextReject (ran : SchemaContextResult) : ManagedReject :=
  if ran.status = .workLimit then
    ⟨.limitExceeded, .work, .schemaNode, ran.nodeOrdinal, ran.errorOffset⟩
  else ⟨.contextRejected, .none, .schemaNode, ran.nodeOrdinal, ran.errorOffset⟩

def profileReject (ran : ManagedProfileResult) : ManagedReject :=
  ⟨ran.status, if ran.status = .limitExceeded then .work else .none, ran.field, ran.nodeOrdinal,
    ran.errorOffset⟩

def qualifySchema (owner : SerializedFileSchema) (kind : SchemaContextKind) :
    Call ManagedReject ManagedBuild ManagedSchema := do
  let build ← Call.current
  let context ← Call.nested
    (serializedFileSchemaContextQuery owner kind (remainingWork limits build uint64Max))
    (fun _ ran build =>
      { build with contextResult := some ran, workUsed := build.workUsed + ran.workUsed })
    contextReject
  let build ← Call.current
  let profile ← Call.nested
    (serializedFileManagedProfileQualify owner kind (remainingWork limits build uint64Max))
    (fun _ ran build => { build with workUsed := build.workUsed + ran.workUsed })
    profileReject
  return { owner, context, profile }

def schemaLimits (build : ManagedBuild) : SchemaLimits :=
  { limits.schema with
    maxRetainedBytes := min limits.schema.maxRetainedBytes (remainingPrerequisite limits build)
    maxScratchBytes := min limits.schema.maxScratchBytes limits.maxSchemaScratchBytes
    maxWork := remainingWork limits build limits.schema.maxWork }

/-- The bound of this call that a refused schema has met: a cap that the child
has of its own is the stricter one. -/
def schemaRejectLimit (build : ManagedBuild) (ran : SchemaResult) : ManagedValuesLimit :=
  if ran.status ≠ .limitExceeded then .none
  else if ran.limit = .retained ∧
      remainingPrerequisite limits build ≤ limits.schema.maxRetainedBytes then .prerequisiteBytes
  else if ran.limit = .scratch ∧
      limits.maxSchemaScratchBytes ≤ limits.schema.maxScratchBytes then .schemaScratchBytes
  else if ran.limit = .work ∧ limits.maxWork - build.workUsed ≤ limits.schema.maxWork then .work
  else .none

def schemaReject (build : ManagedBuild) (ran : SchemaResult) : ManagedReject :=
  let limit := schemaRejectLimit limits build ran
  ⟨if limit = .none then .schemaRejected else .limitExceeded, limit, .schemaNode, ran.nodeOrdinal,
    if ran.errorSpace = .file then ran.errorOffset else noOffset⟩

/-- The owner that the cleanup disposes of. -/
def ManagedBuild.keepSchema (build : ManagedBuild) (reference : Bool)
    (schema : SerializedFileSchema) : ManagedBuild :=
  let build := { build with memory := build.memory.retain schema.view.retainedBytes }
  if reference then { build with selected := build.selected ++ [schema] }
  else { build with host := some schema }

def schemaOwner (reference : Bool) : ManagedOwner :=
  if reference then .selectedSchema else .hostSchema

def createSchema (directory : SerializedFileDirectory) (tail : SerializedFileMetadataTail)
    (ordinal : ℕ) (reference : Bool) : Call ManagedReject ManagedBuild ManagedSchema := do
  Call.modify fun build => { build with typeOrdinal := some ordinal }
  takeRemainder
  let build ← Call.current
  let schema ← Call.nested
    (serializedFileSchemaCreate mapped (if reference then .tail tail else .directory directory)
      ordinal (schemaLimits limits build))
    (fun made ran build =>
      { build with
        schemaResult := some ran
        workUsed := build.workUsed + ran.workUsed
        memory := build.memory.noteSchema (schemaOwner reference) made.isSome ran })
    (schemaReject limits build)
  Call.modify fun build => build.keepSchema reference schema
  qualifySchema limits schema (if reference then .selectedReferencePayload else .ordinaryObject)

def indexLimits (build : ManagedBuild) : ReferenceIndexLimits :=
  { limits.index with
    maxRetainedBytes := min limits.index.maxRetainedBytes (remainingPrerequisite limits build)
    maxWork := remainingWork limits build limits.index.maxWork }

def indexRejectLimit (build : ManagedBuild) (ran : ReferenceIndexResult) : ManagedValuesLimit :=
  if ran.status ≠ .limitExceeded then .none
  else if ran.limit = .retainedBytes ∧
      remainingPrerequisite limits build ≤ limits.index.maxRetainedBytes then .prerequisiteBytes
  else if ran.limit = .work ∧ limits.maxWork - build.workUsed ≤ limits.index.maxWork then .work
  else .none

def indexReject (build : ManagedBuild) (ran : ReferenceIndexResult) : ManagedReject :=
  let limit := indexRejectLimit limits build ran
  rejectOwner (if limit = .none then .indexRejected else .limitExceeded) limit

def createIndex (tail : SerializedFileMetadataTail) :
    Call ManagedReject ManagedBuild SerializedFileReferenceIndex := do
  takeRemainder
  let build ← Call.current
  let index ← Call.nested
    (serializedFileReferenceIndexCreate tail (indexLimits limits build))
    (fun made ran build =>
      { build with
        indexResult := some ran
        workUsed := build.workUsed + ran.workUsed
        memory := build.memory.noteIndex made.isSome ran })
    (indexReject limits build)
  Call.modify fun build =>
    { build with memory := build.memory.retain index.view.retainedBytes, index := some index }
  return index

def createCache (typeCapacity : ℕ) : Call ManagedReject ManagedBuild Unit := do
  Call.require (typeCapacity ≤ sizeMax / managedSchemaSize)
    (rejectOwner .limitExceeded .prerequisiteBytes)
  let cacheBytes := typeCapacity * managedSchemaSize
  takeRemainder
  let build ← Call.current
  capSize cacheBytes (remainingPrerequisite limits build) .prerequisiteBytes .none none noOffset
  charge limits cacheBytes .none none noOffset
  if cacheBytes = 0 then return ()
  Call.request (rejectOwner .allocationFailed .none)
  Call.modify fun build => { build with memory := build.memory.allocateCache cacheBytes, cacheBytes }

/-- The index with the capacity of the cache. -/
def createIndexAndCache (tail : SerializedFileMetadataTail) :
    Call ManagedReject ManagedBuild (SerializedFileReferenceIndex × ℕ) := do
  let index ← createIndex limits tail
  Call.require (index.view.referenceTypeCount ≠ 0) (rejectOwner .emptyReferenceIndex .none)
  let typeCapacity := min index.view.referenceTypeCount limits.maxSelectedTypes
  createCache limits typeCapacity
  return (index, typeCapacity)

end Prerequisites

/-! ## Values -/

section Values

variable (mapped : Text) (limits : ManagedValuesLimits) (schema : ManagedSchema)

def takeSpan (width : ℕ) (field : ManagedValuesField) (node : ℕ) :
    Call ManagedReject ManagedBuild PrefixSpan := do
  let cursor := (← Call.current).cursor
  Call.require (width ≤ cursor.stop - cursor.position)
    ⟨.truncatedObject, .none, field, some node, cursor.stop⟩
  charge limits (width + 1) field (some node) cursor.position
  Call.modify fun build => build.advance width
  return ⟨cursor.position, width⟩

/-- The node that a value is read by. -/
def ManagedSchema.node (node : ℕ) : SchemaNode := (schema.owner.node node).getD .zeroed

/-- A new value, with nothing read. -/
def ManagedValue.initial (cursor : ManagedCursor) (node : ℕ) (kind : ManagedValueKind) :
    ManagedValue :=
  { ManagedValue.zeroed with
    ordinal := cursor.values
    kind
    rowKind := schema.owner.view.rowKind
    typeOrdinal := schema.owner.view.typeOrdinal
    registryRowOrdinal := cursor.registryRow
    schemaNode := schema.node node }

def beginValue (node : ℕ) (kind : ManagedValueKind) :
    Call ManagedReject ManagedBuild ManagedValue := do
  let cursor := (← Call.current).cursor
  Call.require (cursor.values ≠ limits.maxValues)
    ⟨.limitExceeded, .values, .schemaNode, some node, cursor.position⟩
  let value := ManagedValue.initial schema cursor node kind
  Call.modify fun build => { build with typeOrdinal := some value.typeOrdinal }
  return value

def paddingWidth (position : ℕ) : ℕ :=
  (managedAlignment - position % managedAlignment) % managedAlignment

def readPadding (node : ℕ) : Call ManagedReject ManagedBuild PrefixSpan := do
  let cursor := (← Call.current).cursor
  let width := paddingWidth cursor.position
  Call.require (width ≤ limits.maxPaddingBytes - cursor.paddingBytes)
    ⟨.limitExceeded, .paddingBytes, .padding, some node, cursor.position⟩
  Call.modify fun build =>
    { build with
      cursor := { build.cursor with paddingBytes := build.cursor.paddingBytes + width } }
  takeSpan limits width .padding node

def ManagedStorage.setValue (storage : ManagedStorage) (ordinal : ℕ) (value : ManagedValue) :
    ManagedStorage :=
  { storage with values := storage.values.set ordinal value }

def ManagedStorage.setRow (storage : ManagedStorage) (ordinal : ℕ) (row : RegistryRow) :
    ManagedStorage :=
  { storage with rows := storage.rows.set ordinal row }

def ManagedStorage.setSlot (storage : ManagedStorage) (ordinal : ℕ) (slot : RidSlot) :
    ManagedStorage :=
  { storage with slots := storage.slots.set ordinal slot }

/-- A write to the storage is refused behind the planned count; without a storage there is none. -/
def storeAt (planned : ManagedPlan → ℕ) (ordinal : ℕ) (field : ManagedValuesField) (node offset : ℕ)
    (store : ManagedStorage → ManagedStorage) : Call ManagedReject ManagedBuild Unit := do
  let build ← Call.current
  Call.require (∀ storage ∈ build.storage, ordinal < planned storage.view.plan)
    ⟨.internalError, .none, field, some node, offset⟩
  Call.modify fun build => { build with storage := build.storage.map store }

def completeValue (start : ℕ) (value : ManagedValue) :
    Call ManagedReject ManagedBuild ManagedValue := do
  let cursor := (← Call.current).cursor
  let value := { value with source := ⟨start, cursor.position - start⟩ }
  charge limits 1 .schemaNode (some value.schemaNode.ordinal) start
  storeAt (·.valueCount) cursor.values .schemaNode value.schemaNode.ordinal start
    (·.setValue cursor.values value)
  Call.modify fun build =>
    { build with cursor := { build.cursor with values := build.cursor.values + 1 } }
  return value

/-- The bits of a scalar; a profile leaves the widths 1, 4 and 8. -/
def scalarBits (width offset : ℕ) : UInt64 :=
  let size := if width = 1 then 1 else if width = int32Bytes then int32Bytes else 8
  (decodeNat 0 ((PrefixSpan.mk offset size).bytes mapped)).toUInt64

def readScalar (node : ℕ) (kind : ManagedValueKind) :
    Call ManagedReject ManagedBuild ManagedValue := do
  let value ← beginValue limits schema node kind
  let width := value.schemaNode.byteSizeBits.toNat
  let cursor := (← Call.current).cursor
  let start := cursor.position
  Call.require (width ≤ limits.maxScalarBytes)
    ⟨.limitExceeded, .scalarBytes, .scalar, some node, start⟩
  Call.require (width ≤ limits.maxTotalScalarBytes - cursor.scalarBytes)
    ⟨.limitExceeded, .totalScalarBytes, .scalar, some node, start⟩
  Call.modify fun build =>
    { build with cursor := { build.cursor with scalarBytes := build.cursor.scalarBytes + width } }
  let scalar ← takeSpan limits width .scalar node
  let value :=
    { value with scalarSource := some scalar, rawBits := scalarBits mapped width scalar.offset }
  if value.schemaNode.metaFlags &&& alignmentFlag ≠ 0 then
    let padding ← readPadding limits node
    completeValue limits start { value with paddingSource := some padding }
  else completeValue limits start value

def readString (node : ℕ) : Call ManagedReject ManagedBuild ManagedValue := do
  let value ← beginValue limits schema node .byteString
  let start := (← Call.current).cursor.position
  let length ← takeSpan limits int32Bytes .stringLength (node + 2)
  let lengthBits := (decodeNat 0 (length.bytes mapped)).toUInt32
  let size := lengthBits.toNat
  Call.require (size ≤ int32Max)
    ⟨.unsupportedStringLength, .none, .stringLength, some (node + 2), start⟩
  Call.require (size ≤ limits.maxStringBytes)
    ⟨.limitExceeded, .stringBytes, .stringLength, some (node + 2), start⟩
  let cursor := (← Call.current).cursor
  Call.require (size ≤ limits.maxTotalStringBytes - cursor.stringBytes)
    ⟨.limitExceeded, .totalStringBytes, .stringLength, some (node + 2), start⟩
  Call.modify fun build =>
    { build with cursor := { build.cursor with stringBytes := build.cursor.stringBytes + size } }
  let bytes ← takeSpan limits size .stringBytes (node + 3)
  let padding ← readPadding limits node
  completeValue limits start
    { value with
      arraySchemaOrdinal := some (node + 1)
      sizeSchemaOrdinal := some (node + 2)
      dataSchemaOrdinal := some (node + 3)
      arraySchemaSource := some (schema.node (node + 1)).source
      sizeSchemaSource := some (schema.node (node + 2)).source
      dataSchemaSource := some (schema.node (node + 3)).source
      lengthSource := some length
      lengthBits
      bytesSource := some bytes
      paddingSource := some padding }

def readRidSlot (node : ℕ) : Call ManagedReject ManagedBuild Unit := do
  let cursor := (← Call.current).cursor
  Call.require (cursor.slots ≠ limits.maxRidSlots)
    ⟨.limitExceeded, .ridSlots, .scalar, some node, cursor.position⟩
  let value ← readScalar mapped limits schema node .signedInteger
  charge limits 1 .scalar (some node) value.source.offset
  let slot : RidSlot := {
    ordinal := cursor.slots
    valueOrdinal := value.ordinal
    registryRowOrdinal := cursor.registryRow
    ridBits := value.rawBits
    resolution := .missing
    matchCount := 0
    firstRegistryRow := none
    secondRegistryRow := none }
  storeAt (·.ridSlotCount) cursor.slots .scalar node value.source.offset
    (·.setSlot cursor.slots slot)
  Call.modify fun build =>
    { build with cursor := { build.cursor with slots := build.cursor.slots + 1 } }

/-- The count with the ordinal of its value. -/
def readCount (node maximum : ℕ) (limit : ManagedValuesLimit) (field : ManagedValuesField) :
    Call ManagedReject ManagedBuild (ℕ × ℕ) := do
  let value ← readScalar mapped limits schema node .signedInteger
  Call.require (value.rawBits.toNat ≤ int32Max)
    ⟨.unsupportedCount, .none, field, some node, value.source.offset⟩
  capSize value.rawBits.toNat maximum limit field (some node) value.source.offset
  return (value.rawBits.toNat, value.ordinal)

/-- The count of the array with the ordinal of its value. -/
def readHostFields : Call ManagedReject ManagedBuild (ℕ × ℕ) := do
  let _ ← readScalar mapped limits schema 2 .signedInteger
  let _ ← readScalar mapped limits schema 3 .signedInteger
  let _ ← readScalar mapped limits schema 4 .unsignedInteger
  let _ ← readScalar mapped limits schema 6 .signedInteger
  let _ ← readScalar mapped limits schema 7 .signedInteger
  let _ ← readString mapped limits schema 8
  let _ ← readString mapped limits schema 12
  readRidSlot mapped limits schema 17
  readRidSlot mapped limits schema 19
  let (count, countValue) ← readCount mapped limits schema 22 limits.maxArrayElements
    .arrayElements .arrayCount
  let _ ← Call.replicate count (readRidSlot mapped limits schema 24)
  return (count, countValue)

end Values

/-! ## Registry rows -/

/-- The three strings of a row. -/
structure ManagedIdentity where
  className : ManagedValue
  namespaceName : ManagedValue
  assemblyName : ManagedValue
deriving DecidableEq, Repr

namespace ManagedIdentity

variable (identity : ManagedIdentity)

/-- The components with the name of the reserved tuple. -/
def terminator : List (ManagedValue × Text) :=
  [(identity.className, ascii "Terminus"), (identity.namespaceName, ascii "UnityEngine.DMAT"),
    (identity.assemblyName, ascii "FAKE_ASM")]

def component : IdentityComponent → ManagedValue
  | .namespaceName => identity.namespaceName
  | .assemblyName => identity.assemblyName
  | _ => identity.className

def isEmpty : Bool :=
  identity.className.lengthBits == 0 && identity.namespaceName.lengthBits == 0 &&
    identity.assemblyName.lengthBits == 0

def key (mapped : Text) : ReferenceKey where
  className := (identity.className.bytesSource.map (·.bytes mapped)).getD []
  namespaceName := (identity.namespaceName.bytesSource.map (·.bytes mapped)).getD []
  assemblyName := (identity.assemblyName.bytesSource.map (·.bytes mapped)).getD []

end ManagedIdentity

section Rows

variable (mapped : Text) (limits : ManagedValuesLimits)

/-- Whether the components from one on are those of the reserved tuple. -/
def matchTerminator : List (ManagedValue × Text) → Call ManagedReject ManagedBuild Bool
  | [] => pure true
  | (value, name) :: rest => do
      charge limits 1 .referenceIdentity (some value.schemaNode.ordinal)
        (spanOffset value.lengthSource)
      if value.lengthBits.toNat ≠ name.length then return false
      charge limits name.length .referenceIdentity (some value.schemaNode.ordinal)
        (spanOffset value.bytesSource)
      if value.bytesSource.map (·.bytes mapped) ≠ some name then return false
      matchTerminator rest

def rejectTerminator (identity : ManagedIdentity) : Call ManagedReject ManagedBuild Unit := do
  let reserved ← matchTerminator mapped limits identity.terminator
  Call.require (reserved = false)
    ⟨.unsupportedTerminator, .none, .referenceIdentity,
      some identity.className.schemaNode.ordinal, spanOffset identity.className.lengthSource⟩

def queryReject (build : ManagedBuild) (identity : ManagedIdentity) (ran : ReferenceQueryResult) :
    ManagedReject :=
  let work := limits.maxWork - build.workUsed ≤ limits.query.maxWork ∧ ran.limit = .work
  let value := identity.component ran.component
  ⟨if work then .limitExceeded else .queryRejected, if work then .work else .none,
    .referenceIdentity, some value.schemaNode.ordinal, spanOffset value.lengthSource⟩

def queryRowType (index : SerializedFileReferenceIndex) (identity : ManagedIdentity) :
    Call ManagedReject ManagedBuild ReferenceMatch := do
  let build ← Call.current
  let found ← Call.nested
    (serializedFileReferenceIndexQuery mapped index (identity.key mapped)
      { limits.query with maxWork := remainingWork limits build limits.query.maxWork })
    (fun _ ran build =>
      { build with
        queryRegistryRowOrdinal := build.registryRowOrdinal
        queryResult := some ran
        workUsed := build.workUsed + ran.workUsed })
    (queryReject limits build identity)
  Call.modify fun build => { build with typeMatch := some found }
  return found

/-- The entry of an original row in the cache, from an index on. -/
def findType (originalOrdinal : ℕ) :
    ℕ → List CachedSchema → Call ManagedReject ManagedBuild (Option (ℕ × CachedSchema))
  | _, [] => pure none
  | index, type :: types => do
      charge limits 1 .referenceIdentity none noOffset
      if type.original.ordinal = originalOrdinal then return some (index, type)
      findType originalOrdinal (index + 1) types

/-- `serialized_file_reference_index_row`. -/
def indexRow (index : SerializedFileReferenceIndex) (originalOrdinal : ℕ) :
    Option TailReferenceTypeRow :=
  if originalOrdinal < index.view.referenceTypeCount then index.rows[originalOrdinal]? else none

section Select

variable (directory : SerializedFileDirectory) (tail : SerializedFileMetadataTail)
  (host : ManagedSchema) (index : SerializedFileReferenceIndex) (typeCapacity : ℕ)

/-- A new entry of the cache; the row that a query has found exists. -/
def cacheType (originalOrdinal : ℕ) : Call ManagedReject ManagedBuild (ℕ × CachedSchema) := do
  let build ← Call.current
  Call.require (build.storage.isNone = true) (rejectOwner .internalError .none)
  Call.require (build.types.length ≠ typeCapacity) (rejectOwner .limitExceeded .selectedTypes)
  let ordinal := build.types.length
  let original ← Call.ofOption (rejectOwner .internalError .none) (indexRow index originalOrdinal)
  let schema ← createSchema mapped limits directory tail originalOrdinal true
  let type : CachedSchema := { schema with ordinal, original }
  Call.modify fun build => { build with types := build.types ++ [type] }
  return (ordinal, type)

/-- The position of a type in the cache, with the entry. -/
def selectSchema (originalOrdinal : ℕ) : Call ManagedReject ManagedBuild (ℕ × CachedSchema) := do
  let build ← Call.current
  match ← findType limits originalOrdinal 0 build.types with
  | some found => return found
  | none => cacheType mapped limits directory tail index typeCapacity originalOrdinal

def readSelectedPayload (type : CachedSchema) : Call ManagedReject ManagedBuild Unit := do
  let schema := type.toManagedSchema
  let _ ← readScalar mapped limits schema 1 .signedInteger
  if schema.profile.kind = .text then
    let _ ← readString mapped limits schema 2
    readRidSlot mapped limits schema 7
  else
    let _ ← readScalar mapped limits schema 2 .float32
    readRidSlot mapped limits schema 4
  Call.modify fun build => { build with typeOrdinal := some host.owner.view.typeOrdinal }

/-- What a row consists of: its kind, the selected type and its payload, which is read. -/
def readRowPayload (rid : ManagedValue) (identity : ManagedIdentity) (found : ReferenceMatch) :
    Call ManagedReject ManagedBuild (RegistryRowKind × Option ℕ) := do
  if rid.rawBits = 0xfffffffffffffffe ∧ identity.isEmpty ∧ found.kind = .missing then
    return (.null, none)
  Call.require (¬ (identity.isEmpty ∧ found.kind = .missing))
    ⟨.unsupportedNullRow, .none, .referenceIdentity, some 31, rid.source.offset⟩
  Call.require (found.kind = .unique)
    ⟨if found.kind = .missing then .referenceTypeMissing else .referenceTypeAmbiguous, .none,
      .referenceIdentity, some 33, spanOffset identity.className.lengthSource⟩
  let (ordinal, type) ← selectSchema mapped limits directory tail index typeCapacity
    (found.firstOrdinal.getD sizeMax)
  readSelectedPayload mapped limits host type
  return (.selectedPayload, some ordinal)

def readRegistryRow : Call ManagedReject ManagedBuild Unit := do
  Call.modify fun build =>
    { build with
      cursor := { build.cursor with registryRow := some build.cursor.rows }
      registryRowOrdinal := some build.cursor.rows }
  let before := (← Call.current).cursor
  let rid ← readScalar mapped limits host 31 .signedInteger
  let className ← readString mapped limits host 33
  let namespaceName ← readString mapped limits host 37
  let assemblyName ← readString mapped limits host 41
  let identity : ManagedIdentity := { className, namespaceName, assemblyName }
  let payload := (← Call.current).cursor
  rejectTerminator mapped limits identity
  let typeMatch ← queryRowType mapped limits index identity
  let (kind, selectedTypeOrdinal) ← readRowPayload mapped limits directory tail host index
    typeCapacity rid identity typeMatch
  let after := (← Call.current).cursor
  let row : RegistryRow := {
    ordinal := before.rows
    kind
    ridBits := rid.rawBits
    source := ⟨before.position, after.position - before.position⟩
    payloadSource := ⟨payload.position, after.position - payload.position⟩
    ridValueOrdinal := rid.ordinal
    identityValueOrdinals := (className.ordinal, namespaceName.ordinal, assemblyName.ordinal)
    firstValue := before.values
    valueCount := after.values - before.values
    firstPayloadValue := payload.values
    payloadValueCount := after.values - payload.values
    selectedTypeOrdinal
    typeMatch }
  charge limits 1 .referenceIdentity (some 30) before.position
  storeAt (·.registryRowCount) before.rows .referenceIdentity 30 before.position
    (·.setRow before.rows row)
  Call.modify fun build =>
    { build with cursor := { build.cursor with rows := build.cursor.rows + 1 } }

/-! ## A pass -/

/-- What the pass has measured when it ends. -/
def ManagedBuild.plan (build : ManagedBuild) (payload : PrefixRange) (registryStart : ℕ)
    (version : ManagedValue) (array registry : ℕ × ℕ) : ManagedPlan where
  registrySource := ⟨registryStart, build.cursor.position - registryStart⟩
  registryVersionBits := version.rawBits.toUInt32
  registryCountBits := registry.1.toUInt32
  registryVersionValue := version.ordinal
  registryCountValue := registry.2
  arrayCountValue := array.2
  arrayElementCount := array.1
  valueCount := build.cursor.values
  registryRowCount := build.cursor.rows
  ridSlotCount := build.cursor.slots
  selectedTypeCount := build.types.length
  consumedBytes := build.cursor.position - payload.offset
  stringBytes := build.cursor.stringBytes
  scalarBytes := build.cursor.scalarBytes
  paddingBytes := build.cursor.paddingBytes

/-- The special registry has no alignment of its own, and an omitted one no bytes. -/
def parsePayload (payload : PrefixRange) : Call ManagedReject ManagedBuild ManagedPlan := do
  Call.modify fun build =>
    { build with
      cursor := { position := payload.offset, stop := payload.offset + payload.size }
      registryRowOrdinal := none }
  let array ← readHostFields mapped limits host
  let registryStart := (← Call.current).cursor.position
  let version ← readScalar mapped limits host 26 .signedInteger
  Call.require (version.rawBits = managedRegistryVersion)
    ⟨.unsupportedRegistryVersion, .none, .registryVersion, some 26, version.source.offset⟩
  let registry ← readCount mapped limits host 29 limits.maxRegistryRows .registryRows .registryCount
  let _ ← Call.replicate registry.1
    (readRegistryRow mapped limits directory tail host index typeCapacity)
  let build ← Call.current
  Call.require (build.cursor.position = build.cursor.stop)
    ⟨.trailingObjectBytes, .none, .objectEnd, none, build.cursor.position⟩
  let plan := build.plan payload registryStart version array registry
  Call.require (∀ storage ∈ build.storage, storage.view.plan = plan)
    ⟨.internalError, .none, .objectEnd, none, build.cursor.position⟩
  return plan

end Select

end Rows

/-! ## Storage -/

section Storage

variable (limits : ManagedValuesLimits)

def planArray (size count width : ℕ) : Call ManagedReject ManagedBuild ℕ := do
  charge limits 1 .none none noOffset
  Call.ofOption (rejectOwner .limitExceeded .retainedBytes) (appendArray size 8 count width)

def ManagedStorage.zeroed (view : ManagedView) (types : List CachedSchema) : ManagedStorage where
  view := view
  values := List.replicate view.plan.valueCount .zeroed
  types := types.map fun type => ⟨type.ordinal, type.original, type.owner.view, type.context⟩
  rows := List.replicate view.plan.registryRowCount .zeroed
  slots := List.replicate view.plan.ridSlotCount .zeroed

def allocateValues (view : ManagedView) : Call ManagedReject ManagedBuild Unit := do
  let size ← planArray limits managedStorageSize view.plan.valueCount managedValueSize
  let size ← planArray limits size view.plan.selectedTypeCount managedSelectedTypeSize
  let size ← planArray limits size view.plan.registryRowCount registryRowSize
  let size ← planArray limits size view.plan.ridSlotCount ridSlotSize
  Call.modify fun build =>
    { build with memory := { build.memory with requiredRetainedBytes := size } }
  capSize size limits.maxRetainedBytes .retainedBytes .none none noOffset
  charge limits size .none none noOffset
  Call.request (rejectOwner .allocationFailed .none)
  Call.modify fun build =>
    { build with
      memory := build.memory.allocateStorage size
      storage := some (.zeroed { view with retainedBytes := size } build.types) }

/-! ## Slots -/

/-- A row that a slot is compared with. -/
def RidSlot.see (slot : RidSlot) (ordinal : ℕ) (row : RegistryRow) : RidSlot :=
  if row.ridBits ≠ slot.ridBits then slot
  else
    { slot with
      firstRegistryRow := if slot.matchCount = 0 then some ordinal else slot.firstRegistryRow
      secondRegistryRow := if slot.matchCount = 1 then some ordinal else slot.secondRegistryRow
      matchCount := slot.matchCount + 1 }

def chargeResolution (value : ManagedValue) : Call ManagedReject ManagedBuild Unit :=
  charge limits 1 .ridResolution (some value.schemaNode.ordinal) (spanOffset value.scalarSource)

/-- The rows from an ordinal on. -/
def matchRows (value : ManagedValue) :
    ℕ → List RegistryRow → RidSlot → Call ManagedReject ManagedBuild RidSlot
  | _, [], slot => pure slot
  | ordinal, row :: rows, slot => do
      chargeResolution limits value
      matchRows value (ordinal + 1) rows (slot.see ordinal row)

/-- The slots resolved so far, with the counters of the view. -/
structure ResolvedSlots where
  slots : List RidSlot
  missingRidSlots : ℕ
  ambiguousRidSlots : ℕ
deriving DecidableEq, Repr

/-- A slot that every row has been compared with. -/
def ResolvedSlots.add (resolved : ResolvedSlots) (rows : List RegistryRow) (slot : RidSlot) :
    ResolvedSlots :=
  if slot.matchCount = 0 then
    { resolved with
      slots := resolved.slots ++ [slot]
      missingRidSlots := resolved.missingRidSlots + 1 }
  else if 1 < slot.matchCount then
    { resolved with
      slots := resolved.slots ++ [{ slot with resolution := .ambiguous }]
      ambiguousRidSlots := resolved.ambiguousRidSlots + 1 }
  else
    let row := (slot.firstRegistryRow.bind (rows[·]?)).getD .zeroed
    let resolution := if row.kind = .null then .null else .unique
    { resolved with slots := resolved.slots ++ [{ slot with resolution }] }

/-- The next slots, behind those that are resolved. -/
def resolveEach (storage : ManagedStorage) :
    List RidSlot → ResolvedSlots → Call ManagedReject ManagedBuild ResolvedSlots
  | [], resolved => pure resolved
  | slot :: slots, resolved => do
      let value := storage.values.getD slot.valueOrdinal .zeroed
      Call.modify fun build =>
        { build with
          registryRowOrdinal := slot.registryRowOrdinal
          typeOrdinal := some value.typeOrdinal }
      let slot ← matchRows limits value 0 storage.rows slot
      chargeResolution limits value
      resolveEach storage slots (resolved.add storage.rows slot)

def resolveSlots (storage : ManagedStorage) : Call ManagedReject ManagedBuild ResolvedSlots :=
  resolveEach limits storage storage.slots ⟨[], 0, 0⟩

end Storage

/-! ## The construction -/

section Create

variable (mapped : Text) (limits : ManagedValuesLimits) (directory : SerializedFileDirectory)
  (tail : SerializedFileMetadataTail)

/-- The view behind a pass. -/
def managedView (object : DirectoryObjectRow) (host : ManagedSchema) (plan : ManagedPlan) :
    ManagedView where
  object := object
  schema := host.owner.view
  context := host.context
  payloadSource := ⟨object.payload.offset, object.payload.size⟩
  registryPaddingSource := none
  plan := plan
  missingRidSlots := 0
  ambiguousRidSlots := 0
  retainedBytes := 0

def admitManagedValues (objectOrdinal mappedSize : ℕ) :
    Call ManagedReject ManagedBuild DirectoryObjectRow := do
  charge limits 1 .none none noOffset
  let object ← admitSource limits directory tail objectOrdinal mappedSize
  reserveMemory limits
  return object

/-- What follows `reserve_memory`. -/
def decodeManagedValues (object : DirectoryObjectRow) :
    Call ManagedReject ManagedBuild ManagedStorage := do
  let host ← createSchema mapped limits directory tail object.typeOrdinal.toNat false
  let (index, typeCapacity) ← createIndexAndCache limits tail
  let plan ← parsePayload mapped limits directory tail host index typeCapacity object.payload
  allocateValues limits (managedView object host plan)
  let plan ← parsePayload mapped limits directory tail host index typeCapacity object.payload
  let build ← Call.current
  let storage ← Call.ofOption (rejectOwner .internalError .none) build.storage
  let resolved ← resolveSlots limits storage
  charge limits 1 .none none noOffset
  let view :=
    { managedView object host plan with
      missingRidSlots := resolved.missingRidSlots
      ambiguousRidSlots := resolved.ambiguousRidSlots
      retainedBytes := build.memory.requiredRetainedBytes }
  return { storage with view, slots := resolved.slots }

def createManagedValues (objectOrdinal mappedSize : ℕ) :
    Call ManagedReject ManagedBuild ManagedStorage := do
  let object ← admitManagedValues limits directory tail objectOrdinal mappedSize
  decodeManagedValues mapped limits directory tail object

def managedValuesResult (reject : ManagedReject) (build : ManagedBuild) : ManagedValuesResult where
  status := reject.status
  limit := reject.limit
  field := reject.field
  objectOrdinal := build.objectOrdinal
  typeOrdinal := build.typeOrdinal
  nodeOrdinal := reject.nodeOrdinal
  registryRowOrdinal := build.registryRowOrdinal
  errorOffset := reject.errorOffset
  workUsed := build.workUsed
  reservedHeapBytes := build.memory.reservedHeapBytes
  requiredRetainedBytes := build.memory.requiredRetainedBytes
  peakRetainedBytes := build.memory.peakRetainedBytes
  peakPrerequisiteBytes := build.memory.peakPrerequisiteBytes
  peakSchemaScratchBytes := build.memory.peakSchemaScratchBytes
  schemaResult := build.schemaResult
  contextResult := build.contextResult
  indexResult := build.indexResult
  queryRegistryRowOrdinal := build.queryRegistryRowOrdinal
  queryResult := build.queryResult
  typeMatch := build.typeMatch

/-- The state is the caller's output, which a live owner occupies. -/
def serializedFileManagedValuesCreate (objectOrdinal mappedSize : ℕ) :
    Call ManagedValuesResult (Option ManagedStorage) ManagedValuesResult := do
  let out ← Call.current
  Call.require (out.isNone = true) (managedValuesResult (rejectOwner .invalidState .none) {})
  let (storage, build) ← Call.enclosed {}
    (createManagedValues mapped limits directory tail objectOrdinal mappedSize) managedValuesResult
  Call.replace (some storage)
  return managedValuesResult (rejectOwner .ok .none) build

/-- All that a construction requests and releases, its cleanup included. -/
def heapTrace (outcome : Call.Result ManagedReject ManagedBuild ManagedStorage) :
    List (Ledger.Event ManagedOwner) :=
  match outcome with
  | .ok _ build _ => build.memory.events ++ build.disposePrerequisites
  | .error _ build _ =>
      build.memory.events ++ (build.disposePrerequisites ++ build.disposeStorage)

end Create

end UnityCommon.ManagedValues
