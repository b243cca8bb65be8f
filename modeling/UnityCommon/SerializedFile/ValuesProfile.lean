import UnityCommon.SerializedFile.SchemaContext

/-!
# Value profiles

The three schemas that `io/serialized_file_values.c` decodes objects of, node by
node, with the logical values that their objects consist of. No parent, child or
sibling is `none` for `SIZE_MAX`.
-/

namespace UnityCommon.Values

open UnityCommon.Metadata

inductive SerializedFileValueKind where
  | container
  | byteString
  | signedInteger
  | unsignedInteger
deriving DecidableEq, Repr

/-- No field name admits any. -/
structure NodeProfile where
  typeName : Text
  fieldName : Option Text
  typeLength : ℕ
  fieldLength : ℕ
  level : UInt8
  flags : UInt8
  byteSize : UInt32
  metaFlags : UInt32
  parent : Option ℕ
  firstChild : Option ℕ
  nextSibling : Option ℕ
  childCount : ℕ
  subtreeEnd : ℕ
deriving DecidableEq, Repr

/-- A value of an object, with the node it is read by. -/
structure ValueRole where
  schemaOrdinal : ℕ
  kind : SerializedFileValueKind
  parent : Option ℕ
  firstChild : Option ℕ
  nextSibling : Option ℕ
  childCount : ℕ
  subtreeEnd : ℕ
deriving DecidableEq, Repr

/-- `UINT32_MAX`, the size of a node without one of its own. -/
def unsized : UInt32 := 0xffffffff

def textAssetNodes : List NodeProfile := [
  ⟨ascii "TextAsset", some (ascii "Base"), 9, 4, 0, 0, unsized, 0x8000, none, some 1, none, 2, 9⟩,
  ⟨ascii "string", some (ascii "m_Name"), 6, 6, 1, 0, unsized, 0x88001, some 0, some 2, some 5, 1,
    5⟩,
  ⟨ascii "Array", some (ascii "Array"), 5, 5, 2, 1, unsized, 0x84001, some 1, some 3, none, 2, 5⟩,
  ⟨ascii "int", some (ascii "size"), 3, 4, 3, 0, 4, 0x80001, some 2, none, some 4, 0, 4⟩,
  ⟨ascii "char", some (ascii "data"), 4, 4, 3, 0, 1, 0x80001, some 2, none, none, 0, 5⟩,
  ⟨ascii "string", some (ascii "m_Script"), 6, 8, 1, 0, unsized, 0x4008001, some 0, some 6, none, 1,
    9⟩,
  ⟨ascii "Array", some (ascii "Array"), 5, 5, 2, 1, unsized, 0x4004001, some 5, some 7, none, 2, 9⟩,
  ⟨ascii "int", some (ascii "size"), 3, 4, 3, 0, 4, 0x4000001, some 6, none, some 8, 0, 8⟩,
  ⟨ascii "char", some (ascii "data"), 4, 4, 3, 0, 1, 0x4000001, some 6, none, none, 0, 9⟩]

def monoBehaviourNodes : List NodeProfile := [
  ⟨ascii "MonoBehaviour", some (ascii "Base"), 13, 4, 0, 0, unsized, 0x8000, none, some 1, none, 5,
    13⟩,
  ⟨ascii "PPtr<GameObject>", some (ascii "m_GameObject"), 16, 12, 1, 0, 12, 0x41, some 0, some 2,
    some 4, 2, 4⟩,
  ⟨ascii "int", some (ascii "m_FileID"), 3, 8, 2, 0, 4, 0x41, some 1, none, some 3, 0, 3⟩,
  ⟨ascii "SInt64", some (ascii "m_PathID"), 6, 8, 2, 0, 8, 0x41, some 1, none, none, 0, 4⟩,
  ⟨ascii "UInt8", some (ascii "m_Enabled"), 5, 9, 1, 0, 1, 0x4101, some 0, none, some 5, 0, 5⟩,
  ⟨ascii "PPtr<MonoScript>", some (ascii "m_Script"), 16, 8, 1, 0, 12, 0, some 0, some 6, some 8, 2,
    8⟩,
  ⟨ascii "int", some (ascii "m_FileID"), 3, 8, 2, 0, 4, 0x800001, some 5, none, some 7, 0, 7⟩,
  ⟨ascii "SInt64", some (ascii "m_PathID"), 6, 8, 2, 0, 8, 0x800001, some 5, none, none, 0, 8⟩,
  ⟨ascii "string", some (ascii "m_Name"), 6, 6, 1, 0, unsized, 0x88001, some 0, some 9, some 12, 1,
    12⟩,
  ⟨ascii "Array", some (ascii "Array"), 5, 5, 2, 1, unsized, 0x84001, some 8, some 10, none, 2, 12⟩,
  ⟨ascii "int", some (ascii "size"), 3, 4, 3, 0, 4, 0x80001, some 9, none, some 11, 0, 11⟩,
  ⟨ascii "char", some (ascii "data"), 4, 4, 3, 0, 1, 0x80001, some 9, none, none, 0, 12⟩,
  ⟨ascii "int", none, 3, 0, 1, 0, 4, 0, some 0, none, none, 0, 13⟩]

/-- The nodes from 12 on of a class that refers to a text asset. -/
def monoBehaviourTextAssetTail : List NodeProfile := [
  ⟨ascii "PPtr<$TextAsset>", none, 16, 0, 1, 0, 12, 0, some 0, some 13, none, 2, 15⟩,
  ⟨ascii "int", some (ascii "m_FileID"), 3, 8, 2, 0, 4, 0x800001, some 12, none, some 14, 0, 14⟩,
  ⟨ascii "SInt64", some (ascii "m_PathID"), 6, 8, 2, 0, 8, 0x800001, some 12, none, none, 0, 15⟩]

def textAssetRoles : List ValueRole := [
  ⟨0, .container, none, some 1, none, 2, 3⟩,
  ⟨1, .byteString, some 0, none, some 2, 0, 2⟩,
  ⟨5, .byteString, some 0, none, none, 0, 3⟩]

def monoBehaviourRoles : List ValueRole := [
  ⟨0, .container, none, some 1, none, 5, 10⟩,
  ⟨1, .container, some 0, some 2, some 4, 2, 4⟩,
  ⟨2, .signedInteger, some 1, none, some 3, 0, 3⟩,
  ⟨3, .signedInteger, some 1, none, none, 0, 4⟩,
  ⟨4, .unsignedInteger, some 0, none, some 5, 0, 5⟩,
  ⟨5, .container, some 0, some 6, some 8, 2, 8⟩,
  ⟨6, .signedInteger, some 5, none, some 7, 0, 7⟩,
  ⟨7, .signedInteger, some 5, none, none, 0, 8⟩,
  ⟨8, .byteString, some 0, none, some 9, 0, 9⟩,
  ⟨12, .signedInteger, some 0, none, none, 0, 10⟩]

def monoBehaviourTextAssetTailRoles : List ValueRole := [
  ⟨12, .container, some 0, some 10, none, 2, 12⟩,
  ⟨13, .signedInteger, some 9, none, some 11, 0, 11⟩,
  ⟨14, .signedInteger, some 9, none, none, 0, 12⟩]

inductive ObjectProfile where
  | textAsset
  | monoBehaviour
  | monoBehaviourTextAsset
deriving DecidableEq, Repr

namespace ObjectProfile

def nodeCount : ObjectProfile → ℕ
  | textAsset => 9
  | monoBehaviour => 13
  | monoBehaviourTextAsset => 15

def valueCount : ObjectProfile → ℕ
  | textAsset => 3
  | monoBehaviour => 10
  | monoBehaviourTextAsset => 12

def maximumDepth : ObjectProfile → ℕ
  | textAsset => 1
  | monoBehaviour => 2
  | monoBehaviourTextAsset => 2

/-- `profile_node_at` on every ordinal. The reference variant has its own tail, and
the root's end is behind it. -/
def nodes : ObjectProfile → List NodeProfile
  | textAsset => textAssetNodes
  | monoBehaviour => monoBehaviourNodes
  | monoBehaviourTextAsset =>
      (monoBehaviourNodes.take 12 ++ monoBehaviourTextAssetTail).modify 0
        fun root => { root with subtreeEnd := 15 }

/-- `profile_role_at` on every ordinal. -/
def roles : ObjectProfile → List ValueRole
  | textAsset => textAssetRoles
  | monoBehaviour => monoBehaviourRoles
  | monoBehaviourTextAsset =>
      (monoBehaviourRoles.take 9 ++ monoBehaviourTextAssetTailRoles).modify 0
        fun root => { root with subtreeEnd := 12 }

/-- Beyond the profile, which is not asked for. -/
def noRole : ValueRole := ⟨0, .container, none, none, none, 0, 0⟩

def roleAt (profile : ObjectProfile) (ordinal : ℕ) : ValueRole :=
  profile.roles.getD ordinal noRole

end ObjectProfile

/-! ## What a decoding returns -/

/-- An absent ordinal or span is `none`. -/
structure SerializedFileValue where
  ordinal : ℕ
  kind : SerializedFileValueKind
  schemaNode : SchemaNode
  parent : Option ℕ
  firstChild : Option ℕ
  nextSibling : Option ℕ
  childCount : ℕ
  subtreeEnd : ℕ
  source : PrefixSpan
  arraySchemaOrdinal : Option ℕ
  sizeSchemaOrdinal : Option ℕ
  dataSchemaOrdinal : Option ℕ
  arraySchemaSource : Option PrefixSpan
  sizeSchemaSource : Option PrefixSpan
  dataSchemaSource : Option PrefixSpan
  lengthBits : UInt32
  lengthSource : Option PrefixSpan
  bytesSource : Option PrefixSpan
  paddingSource : Option PrefixSpan
  integerBits : UInt64
  integerSource : Option PrefixSpan
deriving DecidableEq, Repr

structure SerializedFileValuesView where
  object : DirectoryObjectRow
  schema : SchemaView
  context : SchemaContext
  valueCount : ℕ
  maximumDepth : ℕ
  consumedBytes : ℕ
  stringBytes : ℕ
  paddingBytes : ℕ
  retainedBytes : ℕ
  integerBytes : ℕ
deriving DecidableEq, Repr

structure SerializedFileValues where
  view : SerializedFileValuesView
  values : List SerializedFileValue
deriving DecidableEq, Repr

structure ValuesLimits where
  maxPayloadBytes : ℕ
  maxValues : ℕ
  maxDepth : ℕ
  maxStringBytes : ℕ
  maxTotalStringBytes : ℕ
  maxPaddingBytes : ℕ
  maxRetainedBytes : ℕ
  maxWork : ℕ
  maxIntegerBytes : ℕ
  maxTotalIntegerBytes : ℕ
deriving DecidableEq, Repr

inductive ValuesStatus where
  | ok
  | invalidArgument
  | invalidState
  | sourceMismatch
  | unsupportedEngine
  | unsupportedEndian
  | noEmbeddedSchema
  | unsupportedType
  | unsupportedSchema
  | contextRejected
  | unsupportedObjectAlignment
  | unsupportedObjectSize
  | incompleteMapping
  | truncatedObject
  | unsupportedStringLength
  | trailingObjectBytes
  | limitExceeded
  | allocationFailed
deriving DecidableEq, Repr

inductive ValuesLimit where
  | none
  | payloadBytes
  | values
  | depth
  | stringBytes
  | totalStringBytes
  | paddingBytes
  | retainedBytes
  | work
  | integerBytes
  | totalIntegerBytes
deriving DecidableEq, Repr

inductive ValuesField where
  | none
  | object
  | type
  | schemaNode
  | typeName
  | fieldName
  | context
  | stringLength
  | stringBytes
  | padding
  | objectEnd
  | integerBytes
deriving DecidableEq, Repr

/-- The arguments of `reject`. -/
structure ValuesReject where
  status : ValuesStatus
  limit : ValuesLimit
  field : ValuesField
  nodeOrdinal : Option ℕ
  errorOffset : ℕ
deriving DecidableEq, Repr

structure ValuesResult where
  status : ValuesStatus
  limit : ValuesLimit
  field : ValuesField
  objectOrdinal : Option ℕ
  typeOrdinal : Option ℕ
  nodeOrdinal : Option ℕ
  errorOffset : ℕ
  workUsed : ℕ
  requiredRetainedBytes : ℕ
  peakRetainedBytes : ℕ
  /-- `none` where it was not attempted. -/
  contextResult : Option SchemaContextResult
deriving DecidableEq, Repr

end UnityCommon.Values
