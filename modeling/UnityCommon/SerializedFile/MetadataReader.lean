import UnityCommon.SerializedFile.Prefix

/-!
# The metadata reader

`serialized_metadata_reader_internal.c`: the cursor that the directory and the
tail share. A field is admitted against the declared metadata, the mapping and
the byte ceiling in this order, and charged before it is read.
-/

namespace UnityCommon.Metadata

def int32Max : ℕ := 2 ^ 31 - 1
def uint32Max : UInt32 := 0xffffffff

inductive MetadataReadStatus where
  | metadataEnd
  | mappingEnd
  | byteLimit
  | workLimit
  | negativeCount
  | typeShape
  | treeShape
  | nodeLimit
  | stringLimit
  | terminatedStringLimit
deriving DecidableEq, Repr

/-- The fields of `SerializedMetadataReader` that a reader does not write. -/
structure MetadataReader where
  bytes : Text
  metadataEnd : ℕ
  byteBudgetOrigin : ℕ
  maxBytes : ℕ
  maxWork : ℕ
  endianSelector : UInt8
deriving DecidableEq, Repr

/-- What a construction has read, charged and counted: the cursor, the work of
its result and the aggregate counters of its view. -/
structure ScanState where
  position : ℕ
  workUsed : ℕ
  nodeRecords : ℕ
  stringBytes : ℕ
  dependencyWords : ℕ
  terminatedBytes : ℕ
  requiredRetainedBytes : ℕ
  peakRetainedBytes : ℕ
deriving DecidableEq, Repr

def ScanState.init : ScanState := ⟨0, 0, 0, 0, 0, 0, 0, 0⟩

/-- Back to a position with fresh counters, the work kept. -/
def ScanState.rewind (state : ScanState) (position : ℕ) : ScanState :=
  { state with
    position
    nodeRecords := 0
    stringBytes := 0
    dependencyWords := 0
    terminatedBytes := 0 }

structure ReadReject where
  status : MetadataReadStatus
  errorOffset : ℕ
deriving DecidableEq, Repr

structure MetadataTypePrefix where
  classIdSource : PrefixSpan
  strippedSource : PrefixSpan
  scriptIndexSource : PrefixSpan
  /-- `none` is the absent span. -/
  scriptHashSource : Option PrefixSpan
  typeHashSource : PrefixSpan
  classIdBits : UInt32
  scriptIndexBits : UInt16
  strippedRaw : UInt8
  hasScriptHash : Bool
deriving DecidableEq, Repr

structure DirectoryTree where
  nodeCountSource : PrefixSpan
  stringCountSource : PrefixSpan
  nodesSource : PrefixSpan
  stringsSource : PrefixSpan
  nodeCount : UInt32
  stringByteCount : UInt32
deriving DecidableEq, Repr

structure MetadataTreeBudget where
  maxNodeRecords : ℕ
  maxStringBytes : ℕ
deriving DecidableEq, Repr

/-- Admitted bytes in the selected byte order. -/
def decodeNat (endianSelector : UInt8) (raw : Text) : ℕ :=
  if endianSelector ≠ 0 then Bytes.ofBE raw else Bytes.ofLE raw

/-- `serialized_type_v22_hash_shape`: `none` is the refused combination. -/
def typeV22HashShape (classIdBits : UInt32) (scriptIndexBits : UInt16) : Option Bool :=
  let negativeIndex := scriptIndexBits &&& 0x8000 != 0
  if classIdBits = uint32Max ∧ negativeIndex then none
  else some (classIdBits == 114 || !negativeIndex)

namespace MetadataReader

variable (reader : MetadataReader)

def admitExtent (width : ℕ) : Call ReadReject ScanState Unit := do
  let state ← Call.current
  Call.require (state.position ≤ reader.metadataEnd ∧ width ≤ reader.metadataEnd - state.position)
    ⟨.metadataEnd, reader.metadataEnd⟩
  Call.require
    (state.position ≤ reader.bytes.length ∧ width ≤ reader.bytes.length - state.position)
    ⟨.mappingEnd, reader.bytes.length⟩
  let consumed := state.position - reader.byteBudgetOrigin
  Call.require (consumed ≤ reader.maxBytes ∧ width ≤ reader.maxBytes - consumed)
    ⟨.byteLimit, state.position⟩

def consumeSpan (width : ℕ) : Call ReadReject ScanState PrefixSpan := do
  let state ← Call.current
  Call.require (width ≤ reader.maxWork - state.workUsed) ⟨.workLimit, state.position⟩
  Call.replace
    { state with workUsed := state.workUsed + width, position := state.position + width }
  return ⟨state.position, width⟩

/-- `serialized_metadata_take`. -/
def take (width : ℕ) : Call ReadReject ScanState PrefixSpan := do
  reader.admitExtent width
  reader.consumeSpan width

def decode (span : PrefixSpan) : ℕ := decodeNat reader.endianSelector (span.bytes reader.bytes)

def readU32 : Call ReadReject ScanState (PrefixSpan × UInt32) := do
  let source ← reader.take 4
  return (source, (reader.decode source).toUInt32)

/-- A count is a nonnegative signed word. -/
def readCount : Call ReadReject ScanState (PrefixSpan × UInt32) := do
  let (source, value) ← reader.readU32
  Call.require (value.toNat ≤ int32Max) ⟨.negativeCount, source.offset⟩
  return (source, value)

def takeWhen (present : Bool) (width : ℕ) : Call ReadReject ScanState (Option PrefixSpan) :=
  if present then do
    let source ← reader.take width
    return some source
  else pure none

def readTypePrefix : Call ReadReject ScanState MetadataTypePrefix := do
  let start := (← Call.current).position
  let classIdSource ← reader.take 4
  let strippedSource ← reader.take 1
  let scriptIndexSource ← reader.take 2
  let classIdBits := (reader.decode classIdSource).toUInt32
  let strippedRaw := (reader.decode strippedSource).toUInt8
  let scriptIndexBits := (reader.decode scriptIndexSource).toUInt16
  let hasScriptHash ← Call.ofOption ⟨.typeShape, start⟩
    (typeV22HashShape classIdBits scriptIndexBits)
  let scriptHashSource ← reader.takeWhen hasScriptHash 16
  let typeHashSource ← reader.take 16
  return {
    classIdSource
    strippedSource
    scriptIndexSource
    scriptHashSource
    typeHashSource
    classIdBits
    scriptIndexBits
    strippedRaw
    hasScriptHash }

/-- A count against what its aggregate budget has left, then into the counter. -/
def countNodes (budget : MetadataTreeBudget) (source : PrefixSpan) (count : UInt32) :
    Call ReadReject ScanState Unit := do
  let state ← Call.current
  Call.require (count.toNat ≤ budget.maxNodeRecords - state.nodeRecords)
    ⟨.nodeLimit, source.offset⟩
  Call.replace { state with nodeRecords := state.nodeRecords + count.toNat }

def countStringBytes (budget : MetadataTreeBudget) (source : PrefixSpan) (count : UInt32) :
    Call ReadReject ScanState Unit := do
  let state ← Call.current
  Call.require (count.toNat ≤ budget.maxStringBytes - state.stringBytes)
    ⟨.stringLimit, source.offset⟩
  Call.replace { state with stringBytes := state.stringBytes + count.toNat }

def readTree (budget : MetadataTreeBudget) : Call ReadReject ScanState DirectoryTree := do
  let (nodeCountSource, nodeCount) ← reader.readU32
  Call.require (nodeCount ≠ 0) ⟨.treeShape, nodeCountSource.offset⟩
  countNodes budget nodeCountSource nodeCount
  let (stringCountSource, stringByteCount) ← reader.readU32
  countStringBytes budget stringCountSource stringByteCount
  let nodesSource ← reader.take (nodeCount.toNat * 32)
  let stringsSource ← reader.take stringByteCount.toNat
  return {
    nodeCountSource
    stringCountSource
    nodesSource
    stringsSource
    nodeCount
    stringByteCount }

/-- One round of the string loop up to the byte it reads. -/
def admitStringByte (maxTerminatedBytes : ℕ) : Call ReadReject ScanState Unit := do
  reader.admitExtent 1
  let state ← Call.current
  Call.require (state.terminatedBytes ≠ maxTerminatedBytes)
    ⟨.terminatedStringLimit, state.position⟩
  let _ ← reader.consumeSpan 1
  let state ← Call.current
  Call.replace { state with terminatedBytes := state.terminatedBytes + 1 }

/-- The string loop over the mapped bytes from the cursor on; the checks refuse
the end of the mapping. -/
def scanString (maxTerminatedBytes : ℕ) : Text → Call ReadReject ScanState Unit
  | [] => reader.admitStringByte maxTerminatedBytes
  | byte :: rest => do
      reader.admitStringByte maxTerminatedBytes
      if byte = 0 then return ()
      else scanString maxTerminatedBytes rest

def readTerminatedString (maxTerminatedBytes : ℕ) : Call ReadReject ScanState PrefixSpan := do
  let start := (← Call.current).position
  reader.scanString maxTerminatedBytes (reader.bytes.drop start)
  let stop := (← Call.current).position
  return ⟨start, stop - start⟩

end MetadataReader

end UnityCommon.Metadata
