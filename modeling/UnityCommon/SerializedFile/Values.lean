import UnityCommon.Lib.Triple
import UnityCommon.SerializedFile.ManagedValues
import UnityCommon.SerializedFile.ValuesProfile

/-!
# Values

`io/serialized_file_values.c`: an object of one of the three profiles as its
values. One pass over the payload admits it, a second one fills the storage. The
cursor is kept with the counters, and an owner that is passed is a live one.
Overlapping arguments and a second backing are not modelled.
-/

namespace UnityCommon.Values

open UnityCommon.Metadata
open ManagedValues (directoryObject)

def textAssetClass : UInt32 := 49
def monoBehaviourClass : UInt32 := 114
def int16Max : UInt16 := 0x7fff
def lengthBytes : ℕ := 4
def alignment : ℕ := 4
def ordinaryAlignmentFlag : UInt32 := 0x4000
def typeNameOffset : ℕ := 4
def fieldNameOffset : ℕ := 8
def objectByteSizeOffset : ℕ := 16

/-- `sizeof(ValuesStorage)`. -/
def valuesStorageSize : ℕ := 1200
def serializedFileValueSize : ℕ := 456

structure ValueCursor where
  position : ℕ := 0
  stop : ℕ := 0
  stringBytes : ℕ := 0
  paddingBytes : ℕ := 0
  integerBytes : ℕ := 0
deriving DecidableEq, Repr

structure ValuesBuild where
  objectOrdinal : Option ℕ := none
  typeOrdinal : Option ℕ := none
  workUsed : ℕ := 0
  requiredRetainedBytes : ℕ := 0
  peakRetainedBytes : ℕ := 0
  contextResult : Option SchemaContextResult := none
  cursor : ValueCursor := {}
deriving DecidableEq, Repr

def rejectOwner (status : ValuesStatus) (limit : ValuesLimit) : ValuesReject :=
  ⟨status, limit, .none, none, noOffset⟩

section

variable (limits : ValuesLimits)

def charge (amount : ℕ) (field : ValuesField) (node : Option ℕ) (offset : ℕ) :
    Call ValuesReject ValuesBuild Unit := do
  let build ← Call.current
  Call.require (amount ≤ limits.maxWork - build.workUsed)
    ⟨.limitExceeded, .work, field, node, offset⟩
  Call.replace { build with workUsed := build.workUsed + amount }

end

/-! ## Admission -/

/-- The schema was compiled from this row of this directory. -/
def sameOriginalType (directory : DirectoryView) (type : DirectoryTypeRow) (schema : SchemaView) :
    Prop :=
  schema.engineVersion = directory.engineVersion ∧
    schema.rowKind = .ordinaryType ∧
    schema.typeOrdinal = type.ordinal ∧
    schema.prefixView.header.headerSource = directory.prefixView.header.headerSource ∧
    schema.prefixView.header.fileSize = directory.prefixView.header.fileSize ∧
    schema.prefixView.header.endianSelector = directory.prefixView.header.endianSelector ∧
    schema.typeEntrySource = type.source ∧
    type.tree = some schema.tree ∧
    schema.classIdBits = type.classIdBits ∧
    schema.scriptIndexBits = type.scriptIndexBits ∧
    schema.strippedRaw = type.strippedRaw ∧
    schema.hasScriptHash = type.hasScriptHash ∧
    schema.scriptHashSource = type.scriptHashSource ∧
    schema.typeHashSource = type.typeHashSource ∧
    schema.dependencies = type.dependencies

instance (directory : DirectoryView) (type : DirectoryTypeRow) (schema : SchemaView) :
    Decidable (sameOriginalType directory type schema) := by
  unfold sameOriginalType
  infer_instance

/-- The type row of a genuine object exists. -/
def admitSource (directory : SerializedFileDirectory) (schema : SerializedFileSchema)
    (objectOrdinal mappedSize : ℕ) : Call ValuesReject ValuesBuild DirectoryObjectRow := do
  let view := directory.view
  Call.require (view.engineVersion = .engine2021_3_35f1) (rejectOwner .unsupportedEngine .none)
  Call.require (view.prefixView.header.endianSelector = 0) (rejectOwner .unsupportedEndian .none)
  let object ← Call.ofOption (rejectOwner .invalidArgument .none)
    (directoryObject directory objectOrdinal)
  Call.modify fun build =>
    { build with
      objectOrdinal := some objectOrdinal
      typeOrdinal := some object.typeOrdinal.toNat }
  let type := directory.type object.typeOrdinal.toNat
  let typeOffset := type.elim noOffset (·.source.offset)
  Call.require ((type.bind (·.tree)).isSome) ⟨.noEmbeddedSchema, .none, .type, none, typeOffset⟩
  Call.require (mappedSize ≤ view.prefixView.header.fileSize) (rejectOwner .sourceMismatch .none)
  Call.require (object.payload.size ≤ int32Max)
    ⟨.unsupportedObjectSize, .none, .object, none, object.source.offset + objectByteSizeOffset⟩
  Call.require (object.payload.offset + object.payload.size ≤ mappedSize)
    ⟨.incompleteMapping, .none, .object, none, mappedSize⟩
  Call.require (∃ row ∈ type, sameOriginalType view row schema.view)
    ⟨.sourceMismatch, .none, .type, none, typeOffset⟩
  return object

section

variable (limits : ValuesLimits) (schema : SerializedFileSchema)

def contextReject (ran : SchemaContextResult) : ValuesReject :=
  if ran.status = .workLimit then
    ⟨.limitExceeded, .work, .context, ran.nodeOrdinal, ran.errorOffset⟩
  else ⟨.contextRejected, .none, .context, ran.nodeOrdinal, ran.errorOffset⟩

def qualifyContext : Call ValuesReject ValuesBuild SchemaContext := do
  let build ← Call.current
  Call.nested
    (serializedFileSchemaContextQuery schema .ordinaryObject (limits.maxWork - build.workUsed))
    (fun _ ran build =>
      { build with contextResult := some ran, workUsed := build.workUsed + ran.workUsed })
    contextReject

/-- The bytes of two names of one length. -/
def matchBytes (field : ValuesField) (node offset : ℕ) :
    Text → Text → Call ValuesReject ValuesBuild Unit
  | byte :: actual, expectedByte :: expected => do
      charge limits 1 field (some node) offset
      Call.require (byte = expectedByte) ⟨.unsupportedSchema, .none, field, some node, offset⟩
      matchBytes field node offset actual expected
  | _, _ => pure ()

/-- `name_matches`; an authored name is not read. -/
def nameMatches (actual : SchemaString) (expected : Option Text) (expectedLength : ℕ)
    (field : ValuesField) (node offset : ℕ) : Call ValuesReject ValuesBuild Unit := do
  charge limits 1 field (some node) offset
  match expected with
  | none => pure ()
  | some expected => do
      Call.require (actual.bytes.length = expectedLength)
        ⟨.unsupportedSchema, .none, field, some node, offset⟩
      matchBytes limits field node offset actual.bytes expected

def profileNodeMatches (node : SchemaNode) (expected : NodeProfile) : Prop :=
  node.version = 1 ∧ node.level = expected.level ∧ node.typeFlags = expected.flags ∧
    node.byteSizeBits = expected.byteSize ∧ node.indexBits.toNat = node.ordinal ∧
    node.metaFlags = expected.metaFlags ∧ node.opaqueTail = List.replicate 8 0 ∧
    node.parent = expected.parent ∧ node.firstChild = expected.firstChild ∧
    node.nextSibling = expected.nextSibling ∧ node.childCount = expected.childCount ∧
    node.subtreeEnd = expected.subtreeEnd

instance (node : SchemaNode) (expected : NodeProfile) :
    Decidable (profileNodeMatches node expected) := by
  unfold profileNodeMatches
  infer_instance

/-- A qualified schema has the node. -/
def schemaNode (ordinal : ℕ) : SchemaNode := (schema.node ordinal).getD .zeroed

def qualifyNode (ordinal : ℕ) (expected : NodeProfile) :
    Call ValuesReject ValuesBuild Unit := do
  let node := schemaNode schema ordinal
  charge limits 1 .schemaNode (some ordinal) node.source.offset
  Call.require (profileNodeMatches node expected)
    ⟨.unsupportedSchema, .none, .schemaNode, some ordinal, node.source.offset⟩
  nameMatches limits node.typeName (some expected.typeName) expected.typeLength .typeName ordinal
    (node.source.offset + typeNameOffset)
  nameMatches limits node.fieldName expected.fieldName expected.fieldLength .fieldName ordinal
    (node.source.offset + fieldNameOffset)

/-- The nodes from an ordinal on. -/
def qualifyNodes : ℕ → List NodeProfile → Call ValuesReject ValuesBuild Unit
  | _, [] => pure ()
  | ordinal, expected :: rest => do
      qualifyNode limits schema ordinal expected
      qualifyNodes (ordinal + 1) rest

/-- The profile that the type admits; `none` is an unsupported one. -/
def selectProfile (view : SchemaView) (allowOrdinary : Bool) : Option ObjectProfile :=
  if view.classIdBits = textAssetClass ∧ view.scriptIndexBits = 0xffff ∧ view.strippedRaw = 0 ∧
      view.hasScriptHash = false then some .textAsset
  else if allowOrdinary = true ∧ view.classIdBits = monoBehaviourClass ∧
      view.scriptIndexBits ≤ int16Max ∧ view.strippedRaw = 0 ∧ view.hasScriptHash = true ∧
      view.scriptHashSource.elim 0 (·.size) = 16 ∧ view.typeHashSource.size = 16 then
    if view.nodeCount = ObjectProfile.monoBehaviourTextAsset.nodeCount then
      some .monoBehaviourTextAsset
    else some .monoBehaviour
  else none

def qualifyProfile (context : SchemaContext) (allowOrdinary : Bool) :
    Call ValuesReject ValuesBuild ObjectProfile := do
  let view := schema.view
  let profile ← Call.ofOption ⟨.unsupportedType, .none, .type, none, view.typeEntrySource.offset⟩
    (selectProfile view allowOrdinary)
  Call.require (view.nodeCount = profile.nodeCount ∧ context.registry = none ∧
      context.traversalEnd = profile.nodeCount)
    ⟨.unsupportedSchema, .none, .schemaNode, none, view.tree.nodeCountSource.offset⟩
  qualifyNodes limits schema 0 profile.nodes
  return profile

def admitPayload (profile : ObjectProfile) (payload : PrefixRange) :
    Call ValuesReject ValuesBuild Unit := do
  Call.require (payload.offset % alignment = 0)
    ⟨.unsupportedObjectAlignment, .none, .object, none, payload.offset⟩
  Call.require (payload.size ≤ limits.maxPayloadBytes)
    ⟨.limitExceeded, .payloadBytes, .object, none, payload.offset⟩
  Call.require (profile.valueCount ≤ limits.maxValues)
    ⟨.limitExceeded, .values, .object, none, payload.offset⟩
  Call.require (profile.maximumDepth ≤ limits.maxDepth)
    ⟨.limitExceeded, .depth, .object, none, payload.offset⟩

end

/-! ## Values -/

section

variable (mapped : Text) (limits : ValuesLimits) (schema : SerializedFileSchema)
  (profile : ObjectProfile)

def takeSpan (width : ℕ) (field : ValuesField) (node : ℕ) :
    Call ValuesReject ValuesBuild PrefixSpan := do
  let cursor := (← Call.current).cursor
  Call.require (width ≤ cursor.stop - cursor.position)
    ⟨.truncatedObject, .none, field, some node, cursor.stop⟩
  charge limits (width + 1) field (some node) cursor.position
  Call.modify fun build =>
    { build with cursor := { build.cursor with position := build.cursor.position + width } }
  return ⟨cursor.position, width⟩

def initialValue (ordinal : ℕ) : SerializedFileValue where
  ordinal := ordinal
  kind := (profile.roleAt ordinal).kind
  schemaNode := schemaNode schema (profile.roleAt ordinal).schemaOrdinal
  parent := (profile.roleAt ordinal).parent
  firstChild := (profile.roleAt ordinal).firstChild
  nextSibling := (profile.roleAt ordinal).nextSibling
  childCount := (profile.roleAt ordinal).childCount
  subtreeEnd := (profile.roleAt ordinal).subtreeEnd
  source := ⟨0, 0⟩
  arraySchemaOrdinal := none
  sizeSchemaOrdinal := none
  dataSchemaOrdinal := none
  arraySchemaSource := none
  sizeSchemaSource := none
  dataSchemaSource := none
  lengthBits := 0
  lengthSource := none
  bytesSource := none
  paddingSource := none
  integerBits := 0
  integerSource := none

def paddingWidth (position : ℕ) : ℕ := (alignment - position % alignment) % alignment

def admitPadding (padding node : ℕ) : Call ValuesReject ValuesBuild Unit := do
  let build ← Call.current
  let cursor := build.cursor
  Call.require (padding ≤ limits.maxPaddingBytes - cursor.paddingBytes)
    ⟨.limitExceeded, .paddingBytes, .padding, some node, cursor.position⟩
  Call.replace
    { build with cursor := { cursor with paddingBytes := cursor.paddingBytes + padding } }

def readPadding (node : ℕ) : Call ValuesReject ValuesBuild PrefixSpan := do
  let padding := paddingWidth (← Call.current).cursor.position
  admitPadding limits padding node
  takeSpan limits padding .padding node

def completeValue (start : ℕ) (value : SerializedFileValue) :
    Call ValuesReject ValuesBuild SerializedFileValue := do
  let cursor := (← Call.current).cursor
  charge limits 1 .schemaNode (some value.schemaNode.ordinal) start
  return { value with source := ⟨start, cursor.position - start⟩ }

/-- The bound of one string, and that of all of them. -/
def admitString (size node offset : ℕ) : Call ValuesReject ValuesBuild Unit := do
  Call.require (size ≤ limits.maxStringBytes)
    ⟨.limitExceeded, .stringBytes, .stringLength, some node, offset⟩
  let build ← Call.current
  let cursor := build.cursor
  Call.require (size ≤ limits.maxTotalStringBytes - cursor.stringBytes)
    ⟨.limitExceeded, .totalStringBytes, .stringLength, some node, offset⟩
  Call.replace { build with cursor := { cursor with stringBytes := cursor.stringBytes + size } }

def readString (ordinal : ℕ) : Call ValuesReject ValuesBuild SerializedFileValue := do
  let value := initialValue schema profile ordinal
  let node := value.schemaNode.ordinal
  let start := (← Call.current).cursor.position
  let length ← takeSpan limits lengthBytes .stringLength (node + 2)
  let lengthBits := (decodeNat 0 (length.bytes mapped)).toUInt32
  let size := lengthBits.toNat
  Call.require (size ≤ int32Max)
    ⟨.unsupportedStringLength, .none, .stringLength, some (node + 2), length.offset⟩
  admitString limits size (node + 2) length.offset
  let bytes ← takeSpan limits size .stringBytes (node + 3)
  let padding ← readPadding limits node
  completeValue limits start
    { value with
      arraySchemaOrdinal := some (node + 1)
      sizeSchemaOrdinal := some (node + 2)
      dataSchemaOrdinal := some (node + 3)
      arraySchemaSource := some (schemaNode schema (node + 1)).source
      sizeSchemaSource := some (schemaNode schema (node + 2)).source
      dataSchemaSource := some (schemaNode schema (node + 3)).source
      lengthBits
      lengthSource := some length
      bytesSource := some bytes
      paddingSource := some padding }

/-- The bits of an integer; a profile leaves the widths 1, 4 and 8. -/
def integerBits (width offset : ℕ) : UInt64 :=
  let size := if width = 1 then 1 else if width = 4 then 4 else 8
  (decodeNat 0 ((PrefixSpan.mk offset size).bytes mapped)).toUInt64

def admitInteger (width node : ℕ) : Call ValuesReject ValuesBuild Unit := do
  let build ← Call.current
  let cursor := build.cursor
  Call.require (width ≤ limits.maxIntegerBytes)
    ⟨.limitExceeded, .integerBytes, .integerBytes, some node, cursor.position⟩
  Call.require (width ≤ limits.maxTotalIntegerBytes - cursor.integerBytes)
    ⟨.limitExceeded, .totalIntegerBytes, .integerBytes, some node, cursor.position⟩
  Call.replace { build with cursor := { cursor with integerBytes := cursor.integerBytes + width } }

def readInteger (ordinal : ℕ) : Call ValuesReject ValuesBuild SerializedFileValue := do
  let value := initialValue schema profile ordinal
  let node := value.schemaNode.ordinal
  let width := value.schemaNode.byteSizeBits.toNat
  let start := (← Call.current).cursor.position
  admitInteger limits width node
  let integer ← takeSpan limits width .integerBytes node
  let value :=
    { value with
      integerSource := some integer
      integerBits := integerBits mapped width integer.offset }
  if value.schemaNode.metaFlags &&& ordinaryAlignmentFlag ≠ 0 then
    let padding ← readPadding limits node
    completeValue limits start { value with paddingSource := some padding }
  else completeValue limits start value

/-- The pointer in front of its children. -/
def readPptr (ordinal : ℕ) : Call ValuesReject ValuesBuild (List SerializedFileValue) := do
  let value := initialValue schema profile ordinal
  let start := (← Call.current).cursor.position
  let firstChild := value.firstChild.getD 0
  let children ← Call.collect (readInteger mapped limits schema profile) firstChild
    (value.subtreeEnd - firstChild)
  let value ← completeValue limits start value
  return value :: children

/-- What every behaviour begins with. -/
def readBehaviour : Call ValuesReject ValuesBuild (List SerializedFileValue) := do
  let gameObject ← readPptr mapped limits schema profile 1
  let enabled ← readInteger mapped limits schema profile 4
  let script ← readPptr mapped limits schema profile 5
  let name ← readString mapped limits schema profile 8
  return gameObject ++ enabled :: script ++ [name]

/-- The values behind the root, by their ordinals. -/
def readProfileValues : Call ValuesReject ValuesBuild (List SerializedFileValue) :=
  match profile with
  | .textAsset => Call.collect (readString mapped limits schema profile) 1 2
  | .monoBehaviour => do
      let values ← readBehaviour mapped limits schema profile
      let authored ← readInteger mapped limits schema profile 9
      return values ++ [authored]
  | .monoBehaviourTextAsset => do
      let values ← readBehaviour mapped limits schema profile
      let authored ← readPptr mapped limits schema profile 9
      return values ++ authored

def parsePayload (payload : PrefixRange) :
    Call ValuesReject ValuesBuild (List SerializedFileValue) := do
  Call.modify fun build =>
    { build with cursor := { position := payload.offset, stop := payload.offset + payload.size } }
  let values ← readProfileValues mapped limits schema profile
  let cursor := (← Call.current).cursor
  Call.require (cursor.position = cursor.stop)
    ⟨.trailingObjectBytes, .none, .objectEnd, some 0, cursor.position⟩
  charge limits 1 .schemaNode (some 0) payload.offset
  return { initialValue schema profile 0 with source := ⟨payload.offset, payload.size⟩ } :: values

end

/-! ## The construction -/

/-- What the storage of the profile takes. -/
def ObjectProfile.retainedBytes (profile : ObjectProfile) : ℕ :=
  valuesStorageSize + profile.valueCount * serializedFileValueSize

section

variable (mapped : Text) (limits : ValuesLimits) (directory : SerializedFileDirectory)
  (schema : SerializedFileSchema) (objectOrdinal : ℕ) (allowOrdinary : Bool)

/-- The object with its context and its profile. -/
def qualify : Call ValuesReject ValuesBuild (DirectoryObjectRow × SchemaContext × ObjectProfile) := do
  charge limits 1 .none none noOffset
  let object ← admitSource directory schema objectOrdinal mapped.length
  let context ← qualifyContext limits schema
  let profile ← qualifyProfile limits schema context allowOrdinary
  admitPayload limits profile object.payload
  return (object, context, profile)

/-- The storage is filled by a second pass over what the first one has admitted. -/
def decode (object : DirectoryObjectRow) (context : SchemaContext) (profile : ObjectProfile) :
    Call ValuesReject ValuesBuild SerializedFileValues := do
  let _ ← parsePayload mapped limits schema profile object.payload
  charge limits 1 .none none noOffset
  Call.modify fun build => { build with requiredRetainedBytes := profile.retainedBytes }
  Call.require (profile.retainedBytes ≤ limits.maxRetainedBytes)
    (rejectOwner .limitExceeded .retainedBytes)
  charge limits profile.retainedBytes .none none noOffset
  Call.request (rejectOwner .allocationFailed .none)
  Call.modify fun build => { build with peakRetainedBytes := profile.retainedBytes }
  let values ← parsePayload mapped limits schema profile object.payload
  charge limits 1 .none none noOffset
  let cursor := (← Call.current).cursor
  return {
    view := {
      object
      schema := schema.view
      context
      valueCount := profile.valueCount
      maximumDepth := profile.maximumDepth
      consumedBytes := object.payload.size
      stringBytes := cursor.stringBytes
      paddingBytes := cursor.paddingBytes
      retainedBytes := profile.retainedBytes
      integerBytes := cursor.integerBytes }
    values }

def createValues : Call ValuesReject ValuesBuild SerializedFileValues := do
  let (object, context, profile) ← qualify mapped limits directory schema objectOrdinal allowOrdinary
  decode mapped limits schema object context profile

def valuesResult (reject : ValuesReject) (build : ValuesBuild) : ValuesResult where
  status := reject.status
  limit := reject.limit
  field := reject.field
  objectOrdinal := build.objectOrdinal
  typeOrdinal := build.typeOrdinal
  nodeOrdinal := reject.nodeOrdinal
  errorOffset := reject.errorOffset
  workUsed := build.workUsed
  requiredRetainedBytes := build.requiredRetainedBytes
  peakRetainedBytes := build.peakRetainedBytes
  contextResult := build.contextResult

/-- `create_values`: the state is the caller's output, which a live owner occupies. -/
def serializedFileValuesCreate :
    Call ValuesResult (Option SerializedFileValues) ValuesResult := do
  let out ← Call.current
  Call.require (out.isNone = true) (valuesResult (rejectOwner .invalidState .none) {})
  let (values, build) ← Call.enclosed {}
    (createValues mapped limits directory schema objectOrdinal allowOrdinary) valuesResult
  Call.replace (some values)
  return valuesResult (rejectOwner .ok .none) build

def serializedFileValuesCreateTextAsset :
    Call ValuesResult (Option SerializedFileValues) ValuesResult :=
  serializedFileValuesCreate mapped limits directory schema objectOrdinal false

def serializedFileValuesCreateOrdinary :
    Call ValuesResult (Option SerializedFileValues) ValuesResult :=
  serializedFileValuesCreate mapped limits directory schema objectOrdinal true

end

end UnityCommon.Values
