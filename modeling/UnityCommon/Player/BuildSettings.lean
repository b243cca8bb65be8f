import UnityCommon.Common.StreamSpan
import UnityCommon.Registry.Deserialize
import UnityCommon.SerializedFile.Records

/-!
# Player build settings

`io/unity_player_build_settings.c`: the one object of class 141 in a file of the
exact version, whose payload is read to its last byte. The state of the decoder
is the caller's record, that of the payload reader is the stream.
-/

namespace UnityCommon.BuildSettings

open UnityCommon.TypeTree
open UnityCommon.Registry (bytesAreZero loadBytes16)

def serializedFileVersion : UInt32 := 22
def booleanCount : ℕ := 15
def classId : Int32 := 141
def sizeMax : ℕ := 2 ^ 64 - 1

def supportedUnityVersion : CString := cstr "2021.3.35f1"

def typeHash : Bytes16 :=
  ⟨[0x57, 0x5b, 0xf9, 0x90, 0x2b, 0xd6, 0x1f, 0x97, 0xe9, 0x62, 0xa3, 0xa1, 0x75, 0xb5, 0xc6,
    0x7a], rfl⟩

/-- `UnityPlayerBuildSettingsStatus`, success apart. -/
inductive Status where
  | invalidArgument
  | invalidSerializedFile
  | unsupportedFileVersion
  | unsupportedUnityVersion
  | missing
  | duplicate
  | objectRangeInvalid
  | typeIndexInvalid
  | typeRecordMismatch
  | typeIdentityUnsupported
  | payloadTruncated
  | countInvalid
  | stringLengthInvalid
  | stringTruncated
  | stringContainsNul
  | booleanInvalid
  | alignmentInvalid
  | versionMismatch
  | allocationFailed
  | objectBytesNotExhausted
deriving DecidableEq, Repr

structure Flags where
  hasProVersion : Bool
  isNoWatermarkBuild : Bool
  isPrototypingBuild : Bool
  isEducationalBuild : Bool
  isEmbedded : Bool
  isTrial : Bool
  hasPublishingRights : Bool
  hasShadows : Bool
  hasSoftShadows : Bool
  hasLocalLightShadows : Bool
  hasAdvancedVersion : Bool
  enableDynamicBatching : Bool
  isDebugBuild : Bool
  usesOnMouseEvents : Bool
  hasClusterRendering : Bool
deriving DecidableEq, Repr

/-- The flags that `ordered_flags` points to, in its order. -/
def Flags.ofOrdered : List Bool → Flags
  | [a, b, c, d, e, f, g, h, i, j, k, l, m, n, o] => ⟨a, b, c, d, e, f, g, h, i, j, k, l, m, n, o⟩
  | _ => ⟨false, false, false, false, false, false, false, false, false, false, false, false,
      false, false, false⟩

structure Settings where
  serializedFileVersion : UInt32
  targetPlatform : UInt32
  pathId : Int64
  byteOffset : UInt64
  byteSize : UInt32
  sceneCount : UInt32
  preloadedPluginCount : UInt32
  enabledVrDeviceCount : UInt32
  buildTagCount : UInt32
  buildGuid : Bytes16
  flags : Flags
  unityVersion : Option CString
  graphicsApis : List Int32
  decoded : Bool
deriving DecidableEq, Repr

/-! ## The payload reader -/

abbrev Reader (α : Type) : Type := Call Status ByteStream α

/-- A read of the stream, which fails when the payload is at its end. -/
def Reader.ofStream {α : Type} (read : ByteStream → Option (α × ByteStream)) : Reader α := do
  let stream ← Call.current
  let (value, stream) ← Call.ofOption .payloadTruncated (read stream)
  Call.replace stream
  return value

def readerI32 : Reader Int32 := .ofStream (·.readInt32)

def readerBytes (size : ℕ) : Reader Text := .ofStream (·.readBytes size)

def padding (position : ℕ) : ℕ :=
  let remainder := position % 4
  if remainder = 0 then 0 else 4 - remainder

/-- The last skip cannot fail: the bytes were there to be compared. -/
def readerAlign4Zero : Reader Unit := do
  let stream ← Call.current
  let padding := padding stream.position
  Call.require (padding ≤ stream.remaining) .payloadTruncated
  Call.require (bytesAreZero (stream.window padding) = true) .alignmentInvalid
  Call.modify (·.advance padding)

/-- What a string makes of a payload that ends in it. -/
def stringTruncated (status : Status) : Status :=
  if status = .payloadTruncated then .stringTruncated else status

def readerStringView : Reader Text := do
  let signedSize ← Call.relabel stringTruncated readerI32
  Call.require (0 ≤ signedSize) .stringLengthInvalid
  let stringSize := signedSize.toNatClampNeg
  let stream ← Call.current
  Call.require (stringSize ≤ stream.remaining) .stringTruncated
  let bytes := stream.window stringSize
  Call.require (0 ∉ bytes) .stringContainsNul
  Call.modify (·.advance stringSize)
  Call.relabel stringTruncated readerAlign4Zero
  return bytes

/-- A count of elements of at least four bytes each. -/
def readerCount : Reader ℕ := do
  let count ← readerI32
  let stream ← Call.current
  Call.require (0 ≤ count ∧ count.toNatClampNeg ≤ stream.remaining / 4) .countInvalid
  return count.toNatClampNeg

def readerStringArray : Reader UInt32 := do
  let count ← readerCount
  let _ ← Call.replicate count readerStringView
  return count.toUInt32

def readerBoolean : Reader Bool := do
  let bytes ← readerBytes 1
  let serialized := bytes.headD 0
  Call.require (serialized ≤ 1) .booleanInvalid
  return serialized != 0

/-- The fifteen flags with the padding behind them. -/
def readerFlags : Reader Flags := do
  let booleans ← Call.replicate booleanCount readerBoolean
  readerAlign4Zero
  return .ofOrdered booleans

/-- An empty list is not allocated. -/
def readerGraphicsApis : Reader (List Int32) := do
  let count ← readerCount
  if count = 0 then return []
  Call.require (count ≤ sizeMax / 4) .countInvalid
  Call.request .allocationFailed
  Call.replicate count readerI32

/-- The payload of an object; the version is that of the file. -/
def readPayload (file : SerializedFile) (object : AssetObjectInfo) (unityVersion : CString) :
    Reader Settings := do
  let sceneCount ← readerStringArray
  let preloadedPluginCount ← readerStringArray
  let enabledVrDeviceCount ← readerStringArray
  let buildTagCount ← readerStringArray
  let buildGuid ← readerBytes 16
  let flags ← readerFlags
  let versionBytes ← readerStringView
  Call.require (versionBytes = unityVersion.bytes) .versionMismatch
  Call.require (versionBytes.length ≤ sizeMax - 1) .stringLengthInvalid
  Call.request .allocationFailed
  let graphicsApis ← readerGraphicsApis
  readerAlign4Zero
  let stream ← Call.current
  Call.require (stream.position = stream.data.length) .objectBytesNotExhausted
  return {
    serializedFileVersion := file.version
    targetPlatform := file.targetPlatform
    pathId := object.pathId
    byteOffset := object.byteOffset
    byteSize := object.byteSize
    sceneCount
    preloadedPluginCount
    enabledVrDeviceCount
    buildTagCount
    buildGuid := loadBytes16 buildGuid
    flags
    unityVersion := some unityVersion
    graphicsApis
    decoded := true }

/-! ## The file -/

def sourceFileIsStructurallyValid (file : SerializedFile) : Prop :=
  file.fileSize.toNat = file.rawData.length ∧ file.dataOffset ≤ file.fileSize

instance (file : SerializedFile) : Decidable (sourceFileIsStructurallyValid file) := by
  unfold sourceFileIsStructurallyValid
  infer_instance

def objectRangeIsValid (file : SerializedFile) (object : AssetObjectInfo) : Prop :=
  object.byteOffset ≤ file.fileSize - file.dataOffset ∧
    object.byteSize.toUInt64 ≤ file.fileSize - file.dataOffset - object.byteOffset

instance (file : SerializedFile) (object : AssetObjectInfo) :
    Decidable (objectRangeIsValid file object) := by
  unfold objectRangeIsValid
  infer_instance

/-- The type record of an object. -/
def objectType (file : SerializedFile) (object : AssetObjectInfo) : Option TypeTreeType :=
  if object.typeIdOrIndex < 0 then none else file.types[object.typeIdOrIndex.toNatClampNeg]?

def validateTypeIdentity (file : SerializedFile) (object : AssetObjectInfo) : Except Status Unit :=
  match objectType file object with
  | none => .error .typeIndexInvalid
  | some type =>
      if type.typeId ≠ classId ∨ type.isRefType ∨ type.scriptTypeIndex ≠ object.scriptTypeIndex then
        .error .typeRecordMismatch
      else if type.isStripped ∨ type.scriptTypeIndex ≠ 0xffff ∨
          bytesAreZero type.scriptIdHash.bytes = false ∨ type.typeHash ≠ typeHash then
        .error .typeIdentityUnsupported
      else .ok ()

/-- The bytes of an object, whose range is valid. -/
def objectBytes (file : SerializedFile) (object : AssetObjectInfo) : Text :=
  (file.rawData.drop (file.dataOffset + object.byteOffset).toNat).take object.byteSize.toNat

def decodePayload {σ : Type} (file : SerializedFile) (object : AssetObjectInfo)
    (unityVersion : CString) : Call Status σ Settings := do
  Call.require (objectRangeIsValid file object ∧ object.byteSize ≠ 0) .objectRangeInvalid
  Call.ofExcept (validateTypeIdentity file object)
  let (settings, _) ← Call.within ⟨objectBytes file object, 0, file.bigEndian⟩
    (readPayload file object unityVersion)
  return settings

/-- The loop over the objects, with the one found so far. -/
def findBuildSettings (found : Option AssetObjectInfo) :
    List AssetObjectInfo → Except Status AssetObjectInfo
  | [] =>
      match found with
      | none => .error .missing
      | some object => .ok object
  | object :: objects =>
      if object.typeId ≠ classId then findBuildSettings found objects
      else if found.isSome then .error .duplicate
      else findBuildSettings (some object) objects

/-- The state is the caller's destination. -/
def unityPlayerBuildSettingsDecode (file : SerializedFile) : Call Status Settings Unit := do
  let unityVersion ← Call.ofOption .invalidSerializedFile file.unityVersion
  Call.require (sourceFileIsStructurallyValid file) .invalidSerializedFile
  Call.require (file.version = serializedFileVersion) .unsupportedFileVersion
  Call.require (unityVersion = supportedUnityVersion) .unsupportedUnityVersion
  let object ← Call.ofExcept (findBuildSettings none file.objects)
  let temporary ← decodePayload file object unityVersion
  Call.replace temporary

end UnityCommon.BuildSettings
