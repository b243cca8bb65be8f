import UnityCommon.Registry.Learn

/-!
# The registry format

What the encoding of a registry is, as a function of its entries: the grammar
that the writer and the reader are compared with. All integers are little
endian.
-/

namespace UnityCommon.Registry

open UnityCommon.TypeTree

/-- `SCHEMA_REGISTRY_HEADER_SIZE`. -/
def headerSize : ℕ := 64

/-- `SCHEMA_REGISTRY_MAX_FILE_SIZE`. -/
def maxFileSize : ℕ := 512 * 1024 * 1024

/-- `k_schema_registry_magic`. -/
def schemaRegistryMagic : Text := ascii "DXTTSR01"

/-- `TYPETREE_SCHEMA_REGISTRY_FORMAT_VERSION`. -/
def formatVersion : UInt16 := 1

/-- The words of a node, 32 bytes. The names are found through the offsets. -/
def encodeNode (node : TypeTreeNode) : Text :=
  storeLe16 node.version ++ ([node.level] ++ ([node.typeFlags] ++
    (storeLe32 node.typeStrOffset ++ (storeLe32 node.nameStrOffset ++
      (storeLe32 node.byteSize.toUInt32 ++ (storeLe32 node.index ++
        (storeLe32 node.metaFlags ++ storeLe64 node.refTypeHash)))))))

/-- `SCHEMA_KEY_FLAG_SCRIPT_HASH`, `_REF_TYPE` and `_STRIPPED`. -/
def keyFlags (key : TypeTreeSchemaKey) : UInt16 :=
  (if key.hasScriptIdHash then 1 else 0) ||| (if key.isRefType then 2 else 0) |||
    (if key.isStripped then 4 else 0)

/-- `SCHEMA_VALUE_FLAG_STRIPPED`. -/
def schemaFlags (schema : TypeTreeType) : UInt32 := if schema.isStripped then 1 else 0

/-- A reference name of the record, empty for an ordinary type. -/
def referenceName (schema : TypeTreeType) (name : Option CString) : Text :=
  if schema.isRefType then
    match name with
    | some text => text.bytes
    | none => []
  else []

def storeLength (text : List α) : Text := storeLe32 text.length.toUInt32

def encodeKey (key : TypeTreeSchemaKey) : Text :=
  storeLe32 key.serializedFileVersion ++ (storeLength key.unityVersion ++ (key.unityVersion ++
    (storeLe32 key.classId.toUInt32 ++ (storeLe32 key.serializedTypeId.toUInt32 ++
      (storeLe16 key.scriptTypeIndex ++ (storeLe16 (keyFlags key) ++
        (key.scriptIdHash.bytes ++ key.typeHash.bytes)))))))

def encodeCounts (schema : TypeTreeType) : Text :=
  storeLe32 (schemaFlags schema) ++ (storeLength schema.nodes ++
    (storeLength schema.stringBuffer ++ (storeLength schema.dependencies ++
      (storeLength (referenceName schema schema.refClassName) ++
        (storeLength (referenceName schema schema.refNamespace) ++
          storeLength (referenceName schema schema.refAsmName))))))

def encodeTables (schema : TypeTreeType) : Text :=
  schema.nodes.flatMap encodeNode ++ (schema.stringBuffer ++
    (schema.dependencies.flatMap (fun d => storeLe32 d.toUInt32) ++
      (referenceName schema schema.refClassName ++
        (referenceName schema schema.refNamespace ++
          referenceName schema schema.refAsmName))))

/-- A record after its length. -/
def encodeBody (entry : Entry) : Text :=
  encodeKey entry.key ++ (encodeCounts entry.schema ++ encodeTables entry.schema)

/-- A record; the length includes itself. -/
def encodeRecord (entry : Entry) : Text :=
  storeLe64 (8 + (encodeBody entry).length).toUInt64 ++ encodeBody entry

def encodeHeader (count size : ℕ) (digest : Sha256Digest) : Text :=
  schemaRegistryMagic ++ (storeLe16 formatVersion ++ (storeLe16 headerSize.toUInt16 ++
    (storeLe32 0 ++ (storeLe32 count.toUInt32 ++ (storeLe32 0 ++
      (storeLe64 size.toUInt64 ++ digest.bytes))))))

/-- **The encoding of a registry's entries.** -/
def encodeRegistry (sha256 : Text → Sha256Digest) (entries : List Entry) : Text :=
  let payload := entries.flatMap encodeRecord
  encodeHeader entries.length (headerSize + payload.length) (sha256 payload) ++ payload

@[simp] theorem length_encodeHeader (count size : ℕ) (digest : Sha256Digest) :
    (encodeHeader count size digest).length = headerSize := by
  simp only [encodeHeader, List.length_append, length_storeLe16, length_storeLe32,
    length_storeLe64, digest.length_eq]
  rfl

@[simp] theorem length_encodeRegistry (sha256 : Text → Sha256Digest) (entries : List Entry) :
    (encodeRegistry sha256 entries).length =
      headerSize + (entries.flatMap encodeRecord).length := by
  rw [encodeRegistry, List.length_append, length_encodeHeader]

end UnityCommon.Registry
