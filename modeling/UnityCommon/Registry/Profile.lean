import UnityCommon.Common.Words
import UnityCommon.TypeTree.Schema

/-!
# Known schema profiles

`typetree_schema_profile.c`. A schema that claims one of the pinned external
identities (version, class and type hash) must have the pinned semantic shape.
The digest function is a parameter.
-/

namespace UnityCommon.Registry

open UnityCommon.TypeTree

inductive TypeTreeSchemaProfileResult where
  | unknown
  | valid
  | invalid
deriving DecidableEq, Repr

structure KnownSchemaProfile where
  unityVersion : Text
  classId : Int32
  typeHash : Bytes16
  shapeDigest : Sha256Digest

def materialProfile (unityVersion : String) : KnownSchemaProfile where
  unityVersion := ascii unityVersion
  classId := 21
  typeHash := ⟨[0xc6, 0x00, 0x98, 0xac, 0x66, 0xa2, 0x8b, 0x50,
    0xaa, 0x05, 0x80, 0xdb, 0x11, 0xbf, 0x01, 0x8c], rfl⟩
  shapeDigest := ⟨[0x7c, 0x4d, 0x49, 0xa6, 0xd7, 0x8e, 0x0d, 0xd2,
    0x96, 0xae, 0x76, 0x32, 0x68, 0x13, 0x69, 0x82,
    0x85, 0x2f, 0x7a, 0x62, 0xae, 0x8c, 0xde, 0x85,
    0x39, 0x2e, 0xc0, 0xfa, 0x8d, 0xbb, 0x99, 0x8c], rfl⟩

def shaderProfile (unityVersion : String) : KnownSchemaProfile where
  unityVersion := ascii unityVersion
  classId := 48
  typeHash := ⟨[0xf0, 0xc1, 0x84, 0x27, 0x2a, 0x05, 0xe5, 0x44,
    0x47, 0xe3, 0x63, 0x66, 0xec, 0x48, 0x76, 0xa6], rfl⟩
  shapeDigest := ⟨[0xb7, 0xfe, 0xd8, 0x65, 0xd8, 0x64, 0xaa, 0xea,
    0xa7, 0x97, 0xdd, 0x36, 0x5f, 0x1c, 0x64, 0x6e,
    0x16, 0xaf, 0xcc, 0xbd, 0xc0, 0x45, 0x75, 0x5e,
    0x9f, 0x6a, 0x83, 0x79, 0xb3, 0xd8, 0x7b, 0xfb], rfl⟩

def assetBundleProfile (unityVersion : String) : KnownSchemaProfile where
  unityVersion := ascii unityVersion
  classId := 142
  typeHash := ⟨[0x97, 0xda, 0x5f, 0x46, 0x88, 0xe4, 0x5a, 0x57,
    0xc8, 0xb4, 0x2d, 0x4f, 0x42, 0x49, 0x72, 0x97], rfl⟩
  shapeDigest := ⟨[0x01, 0xe5, 0x6d, 0x4d, 0x77, 0xbc, 0xda, 0x8f,
    0x7e, 0x6c, 0x35, 0x72, 0x61, 0x8b, 0x5a, 0x06,
    0x0e, 0x01, 0x5c, 0xb3, 0x8f, 0xc4, 0x5d, 0x80,
    0x64, 0xc1, 0x33, 0xd2, 0x61, 0xa1, 0xd2, 0xd1], rfl⟩

/-- `k_known_profiles`. The two 2021.3.29f1 rows deliberately repeat the
2021.3.35f1 shapes. -/
def knownProfiles : List KnownSchemaProfile :=
  [materialProfile "2021.3.35f1", shaderProfile "2021.3.35f1",
    assetBundleProfile "2021.3.35f1", shaderProfile "2021.3.29f1",
    materialProfile "2021.3.29f1"]

/-! ## The shape message -/

/-- `hash_string`: the length as a word, then the bytes. -/
def hashString (value : Option CString) : Option Text :=
  match value with
  | none => none
  | some value =>
      if 0xffffffff < value.bytes.length then none
      else some (storeLe32 value.bytes.length.toUInt32 ++ value.bytes)

/-- What one node contributes; its string offsets are deliberately left out. -/
def hashNode (node : TypeTreeNode) : Option Text := do
  let typeStr ← hashString node.typeStr
  let nameStr ← hashString node.nameStr
  return storeLe16 node.version ++ [node.level, node.typeFlags] ++
    storeLe32 node.byteSize.toUInt32 ++ storeLe32 node.index ++ storeLe32 node.metaFlags ++
    storeLe64 node.refTypeHash ++ typeStr ++ nameStr

def hashReferenceNames (schema : TypeTreeType) : Option Text :=
  if schema.isRefType then do
    let className ← hashString schema.refClassName
    let nameSpace ← hashString schema.refNamespace
    let asmName ← hashString schema.refAsmName
    return className ++ nameSpace ++ asmName
  else some []

def flagByte (flag : Bool) : UInt8 := if flag then 1 else 0

/-- The bytes `typetree_schema_shape_digest` feeds to SHA-256. The domain tag
includes its NUL. -/
def shapeMessage (schema : TypeTreeType) : Option Text :=
  if schema.nodes = [] then none
  else do
    let nodes ← schema.nodes.mapM hashNode
    let names ← hashReferenceNames schema
    return ascii "DXBCSandbox.TypeTreeSemanticShape.v1" ++ [0] ++
      storeLe32 schema.typeId.toUInt32 ++ [flagByte schema.isStripped] ++
      storeLe16 schema.scriptTypeIndex ++ schema.scriptIdHash.bytes ++ schema.typeHash.bytes ++
      storeLe32 schema.nodes.length.toUInt32 ++ nodes.flatten ++
      storeLe32 schema.dependencies.length.toUInt32 ++
      schema.dependencies.flatMap (fun d => storeLe32 d.toUInt32) ++
      [flagByte schema.isRefType] ++ names

section

variable (sha256 : Text → Sha256Digest)

def typetreeSchemaShapeDigest (schema : TypeTreeType) : Option Sha256Digest :=
  (shapeMessage schema).map sha256

def typetreeSchemaValidateKnownProfile (unityVersion : Text) (classId : Int32)
    (typeHash : Bytes16) (schema : TypeTreeType) : TypeTreeSchemaProfileResult :=
  let selected := knownProfiles.find? fun profile =>
    profile.unityVersion == unityVersion && profile.classId == classId &&
      profile.typeHash == typeHash
  match selected with
  | none => .unknown
  | some profile =>
      if typetreeSchemaShapeDigest sha256 schema = some profile.shapeDigest then .valid
      else .invalid

end

end UnityCommon.Registry
