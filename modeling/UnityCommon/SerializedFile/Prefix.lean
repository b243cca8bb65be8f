import UnityCommon.Common.Text
import UnityCommon.Lib.Bytes
import UnityCommon.Lib.Call

/-!
# The physical prefix of a SerializedFile

`io/serialized_file_prefix.c`. The mapped bytes are a list whose length is
`mapped_size`; coordinates are naturals, and each check stands where the source
has it, so that the first failing one decides the status and offset reported.
The state of a query is the work it has charged.
-/

namespace UnityCommon.Metadata

def v22HeaderSize : ℕ := 48
def uint64Max : ℕ := 2 ^ 64 - 1
/-- `SERIALIZED_FILE_PREFIX_NO_OFFSET`. -/
def noOffset : ℕ := uint64Max

/-- A mapped span; its address is the mapping's plus `offset`. -/
structure PrefixSpan where
  offset : ℕ
  size : ℕ
deriving DecidableEq, Repr

def PrefixSpan.bytes (mapped : Text) (span : PrefixSpan) : Text :=
  (mapped.drop span.offset).take span.size

/-- Coordinates only. -/
structure PrefixRange where
  offset : ℕ
  size : ℕ
deriving DecidableEq, Repr

structure HeaderView where
  headerSource : PrefixSpan
  legacyMetadataSizeSource : PrefixSpan
  legacyFileSizeSource : PrefixSpan
  formatVersionSource : PrefixSpan
  legacyDataOffsetSource : PrefixSpan
  metadataSizeSource : PrefixSpan
  fileSizeSource : PrefixSpan
  dataOffsetSource : PrefixSpan
  endianSelectorSource : PrefixSpan
  opaqueSource : PrefixSpan
  formatVersion : UInt32
  metadataSize : ℕ
  fileSize : ℕ
  dataOffset : ℕ
  endianSelector : UInt8
  metadata : PrefixRange
  metadataToDataGap : PrefixRange
  data : PrefixRange
deriving DecidableEq, Repr

structure PrefixView where
  header : HeaderView
  metadataPrefixSource : PrefixSpan
  versionSource : PrefixSpan
  versionTerminatorSource : PrefixSpan
  targetPlatformSource : PrefixSpan
  typeTreeSource : PrefixSpan
  targetPlatform : UInt32
  typeTreeEnabledRaw : UInt8
  remainingMetadata : PrefixRange
deriving DecidableEq, Repr

inductive PrefixStatus where
  | ok
  | invalidArgument
  | unsupportedVersion
  | unsupportedEndian
  | malformedLayout
  | incompleteMapping
  | malformedMetadata
  | versionLimit
  | workLimit
deriving DecidableEq, Repr

structure PrefixLimits where
  maxVersionBytes : ℕ
  maxWork : ℕ
deriving DecidableEq, Repr

structure PrefixResult where
  status : PrefixStatus
  workUsed : ℕ
  errorOffset : ℕ
deriving DecidableEq, Repr

/-- What a failing step reports besides the work charged so far. -/
structure PrefixReject where
  status : PrefixStatus
  errorOffset : ℕ
deriving DecidableEq, Repr

def readBe32 (mapped : Text) (offset : ℕ) : UInt32 :=
  (Bytes.ofBE ((PrefixSpan.mk offset 4).bytes mapped)).toUInt32

def readBe64 (mapped : Text) (offset : ℕ) : ℕ :=
  Bytes.ofBE ((PrefixSpan.mk offset 8).bytes mapped)

def readTargetPlatform (mapped : Text) (offset : ℕ) (endianSelector : UInt8) : UInt32 :=
  let raw := (PrefixSpan.mk offset 4).bytes mapped
  (if endianSelector = 1 then Bytes.ofBE raw else Bytes.ofLE raw).toUInt32

/-- `charge_work`, with the offset of the rejection. -/
def chargePrefixWork (maximum amount errorOffset : ℕ) : Call PrefixReject ℕ Unit := do
  let used ← Call.current
  Call.require (amount ≤ maximum - used) ⟨.workLimit, errorOffset⟩
  Call.replace (used + amount)

def queryHeader (mapped : Text) (logicalSize maxWork : ℕ) : Call PrefixReject ℕ HeaderView := do
  Call.require (v22HeaderSize ≤ logicalSize) ⟨.malformedLayout, logicalSize⟩
  Call.require (v22HeaderSize ≤ mapped.length) ⟨.incompleteMapping, mapped.length⟩
  chargePrefixWork maxWork v22HeaderSize 0
  let formatVersion := readBe32 mapped 8
  Call.require (formatVersion = 22) ⟨.unsupportedVersion, 8⟩
  let endianSelector := mapped.getD 40 0
  Call.require (endianSelector ≤ 1) ⟨.unsupportedEndian, 40⟩
  let metadataSize := readBe64 mapped 16
  let fileSize := readBe64 mapped 24
  let dataOffset := readBe64 mapped 32
  Call.require (fileSize = logicalSize) ⟨.malformedLayout, 24⟩
  Call.require (dataOffset ≤ fileSize) ⟨.malformedLayout, 32⟩
  Call.require (metadataSize ≤ uint64Max - v22HeaderSize) ⟨.malformedLayout, 16⟩
  let metadataEnd := v22HeaderSize + metadataSize
  Call.require (metadataEnd ≤ dataOffset) ⟨.malformedLayout, 16⟩
  return {
    headerSource := ⟨0, v22HeaderSize⟩
    legacyMetadataSizeSource := ⟨0, 4⟩
    legacyFileSizeSource := ⟨4, 4⟩
    formatVersionSource := ⟨8, 4⟩
    legacyDataOffsetSource := ⟨12, 4⟩
    metadataSizeSource := ⟨16, 8⟩
    fileSizeSource := ⟨24, 8⟩
    dataOffsetSource := ⟨32, 8⟩
    endianSelectorSource := ⟨40, 1⟩
    opaqueSource := ⟨41, 7⟩
    formatVersion
    metadataSize
    fileSize
    dataOffset
    endianSelector
    metadata := ⟨v22HeaderSize, metadataSize⟩
    metadataToDataGap := ⟨metadataEnd, dataOffset - metadataEnd⟩
    data := ⟨dataOffset, fileSize - dataOffset⟩ }

/-- Declared metadata first, then the mapping. -/
def requireMetadataBytes (cursor fieldSize metadataEnd mappedSize : ℕ) :
    Call PrefixReject ℕ Unit := do
  Call.require (cursor ≤ metadataEnd ∧ fieldSize ≤ metadataEnd - cursor)
    ⟨.malformedMetadata, metadataEnd⟩
  Call.require (cursor ≤ mappedSize ∧ fieldSize ≤ mappedSize - cursor)
    ⟨.incompleteMapping, mappedSize⟩

/-- The checks of one round of the version loop, before the byte is read. -/
def admitVersionByte (limits : PrefixLimits) (metadataEnd mappedSize versionSize : ℕ) :
    Call PrefixReject ℕ Unit := do
  let cursor := v22HeaderSize + versionSize
  requireMetadataBytes cursor 1 metadataEnd mappedSize
  Call.require (versionSize < limits.maxVersionBytes) ⟨.versionLimit, cursor⟩
  chargePrefixWork limits.maxWork 1 cursor

/-- The version loop over the mapped bytes from its cursor on; the checks refuse
the end of the mapping. -/
def scanVersion (limits : PrefixLimits) (metadataEnd mappedSize : ℕ) :
    Text → ℕ → Call PrefixReject ℕ ℕ
  | [], versionSize => do
      admitVersionByte limits metadataEnd mappedSize versionSize
      return versionSize
  | byte :: rest, versionSize => do
      admitVersionByte limits metadataEnd mappedSize versionSize
      if byte = 0 then return versionSize
      else scanVersion limits metadataEnd mappedSize rest (versionSize + 1)

/-- `serialized_file_prefix_query` after its argument check. -/
def queryPrefix (mapped : Text) (logicalSize : ℕ) (limits : PrefixLimits) :
    Call PrefixReject ℕ PrefixView := do
  let header ← queryHeader mapped logicalSize limits.maxWork
  let metadataEnd := header.metadataToDataGap.offset
  let mappedSize := mapped.length
  let versionSize ←
    scanVersion limits metadataEnd mappedSize (mapped.drop v22HeaderSize) 0
  let terminator := v22HeaderSize + versionSize
  let platform := terminator + 1
  requireMetadataBytes platform 4 metadataEnd mappedSize
  chargePrefixWork limits.maxWork 4 platform
  let tree := platform + 4
  requireMetadataBytes tree 1 metadataEnd mappedSize
  chargePrefixWork limits.maxWork 1 tree
  let cursor := tree + 1
  chargePrefixWork limits.maxWork 1 noOffset
  return {
    header
    metadataPrefixSource := ⟨v22HeaderSize, cursor - v22HeaderSize⟩
    versionSource := ⟨v22HeaderSize, versionSize⟩
    versionTerminatorSource := ⟨terminator, 1⟩
    targetPlatformSource := ⟨platform, 4⟩
    typeTreeSource := ⟨tree, 1⟩
    targetPlatform := readTargetPlatform mapped platform header.endianSelector
    typeTreeEnabledRaw := mapped.getD tree 0
    remainingMetadata := ⟨cursor, metadataEnd - cursor⟩ }

/-- The result of a query that starts with no work charged. A query makes no
storage request. -/
def prefixResult {α : Type} (query : Call PrefixReject ℕ α) : PrefixResult × Option α :=
  match query Call.granted 0 0 with
  | .ok view work _ => (⟨.ok, work, noOffset⟩, some view)
  | .error reject work _ => (⟨reject.status, work, reject.errorOffset⟩, none)

def serializedFilePrefixQuery (mapped : Text) (logicalSize : ℕ) (limits : PrefixLimits) :
    PrefixResult × Option PrefixView :=
  if logicalSize < mapped.length then (⟨.invalidArgument, 0, noOffset⟩, none)
  else prefixResult (queryPrefix mapped logicalSize limits)

end UnityCommon.Metadata
