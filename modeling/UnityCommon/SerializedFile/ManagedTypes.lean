import UnityCommon.Lib.Ledger
import UnityCommon.Lib.Triple
import UnityCommon.SerializedFile.ManagedProfile

/-!
# Records of managed values

What `io/serialized_file_managed_values.c` returns and what it keeps while it
runs. Spans point into the mapping at their offset; overlapping arguments and
pointers into different backings are not modelled. A build also keeps the trace
of its allocations, which the source has no variable for.
-/

namespace UnityCommon.ManagedValues

open UnityCommon.Metadata

/-- `unset` is the zero of a value that is not written yet. -/
inductive ManagedValueKind where
  | unset
  | signedInteger
  | unsignedInteger
  | float32
  | byteString
deriving DecidableEq, Repr

/-- `none` is `SIZE_MAX`, or the absent span. -/
structure ManagedValue where
  ordinal : ℕ
  kind : ManagedValueKind
  rowKind : SchemaRowKind
  typeOrdinal : ℕ
  registryRowOrdinal : Option ℕ
  schemaNode : SchemaNode
  source : PrefixSpan
  rawBits : UInt64
  scalarSource : Option PrefixSpan
  lengthBits : UInt32
  lengthSource : Option PrefixSpan
  bytesSource : Option PrefixSpan
  arraySchemaOrdinal : Option ℕ
  sizeSchemaOrdinal : Option ℕ
  dataSchemaOrdinal : Option ℕ
  arraySchemaSource : Option PrefixSpan
  sizeSchemaSource : Option PrefixSpan
  dataSchemaSource : Option PrefixSpan
  paddingSource : Option PrefixSpan
deriving DecidableEq, Repr

structure ManagedSelectedType where
  ordinal : ℕ
  original : TailReferenceTypeRow
  schema : SchemaView
  context : SchemaContext
deriving DecidableEq, Repr

/-- `unset` is the zero of a row that is not written yet. -/
inductive RegistryRowKind where
  | unset
  | null
  | selectedPayload
deriving DecidableEq, Repr

structure RegistryRow where
  ordinal : ℕ
  kind : RegistryRowKind
  ridBits : UInt64
  source : PrefixSpan
  payloadSource : PrefixSpan
  ridValueOrdinal : ℕ
  identityValueOrdinals : ℕ × ℕ × ℕ
  firstValue : ℕ
  valueCount : ℕ
  firstPayloadValue : ℕ
  payloadValueCount : ℕ
  selectedTypeOrdinal : Option ℕ
  typeMatch : ReferenceMatch
deriving DecidableEq, Repr

inductive RidResolution where
  | missing
  | unique
  | null
  | ambiguous
deriving DecidableEq, Repr

structure RidSlot where
  ordinal : ℕ
  valueOrdinal : ℕ
  registryRowOrdinal : Option ℕ
  ridBits : UInt64
  resolution : RidResolution
  matchCount : ℕ
  firstRegistryRow : Option ℕ
  secondRegistryRow : Option ℕ
deriving DecidableEq, Repr

/-- What a pass over the payload leaves in the view: all that `replay_matches_plan` compares. -/
structure ManagedPlan where
  registrySource : PrefixSpan
  registryVersionBits : UInt32
  registryCountBits : UInt32
  registryVersionValue : ℕ
  registryCountValue : ℕ
  arrayCountValue : ℕ
  arrayElementCount : ℕ
  valueCount : ℕ
  registryRowCount : ℕ
  ridSlotCount : ℕ
  selectedTypeCount : ℕ
  consumedBytes : ℕ
  stringBytes : ℕ
  scalarBytes : ℕ
  paddingBytes : ℕ
deriving DecidableEq, Repr

structure ManagedView where
  object : DirectoryObjectRow
  schema : SchemaView
  context : SchemaContext
  payloadSource : PrefixSpan
  registryPaddingSource : Option PrefixSpan
  plan : ManagedPlan
  missingRidSlots : ℕ
  ambiguousRidSlots : ℕ
  retainedBytes : ℕ
deriving DecidableEq, Repr

/-- The single allocation of a finished owner. -/
structure ManagedStorage where
  view : ManagedView
  values : List ManagedValue
  types : List ManagedSelectedType
  rows : List RegistryRow
  slots : List RidSlot
deriving DecidableEq, Repr

structure ManagedValuesLimits where
  maxPayloadBytes : ℕ
  maxValues : ℕ
  maxRegistryRows : ℕ
  maxRidSlots : ℕ
  maxArrayElements : ℕ
  maxSelectedTypes : ℕ
  maxStringBytes : ℕ
  maxTotalStringBytes : ℕ
  maxScalarBytes : ℕ
  maxTotalScalarBytes : ℕ
  maxPaddingBytes : ℕ
  maxPrerequisiteBytes : ℕ
  maxSchemaScratchBytes : ℕ
  maxRetainedBytes : ℕ
  maxHeapBytes : ℕ
  maxWork : ℕ
  schema : SchemaLimits
  index : ReferenceIndexLimits
  query : ReferenceQueryLimits
deriving DecidableEq, Repr

inductive ManagedValuesLimit where
  | none
  | payloadBytes
  | values
  | registryRows
  | ridSlots
  | arrayElements
  | selectedTypes
  | stringBytes
  | totalStringBytes
  | scalarBytes
  | totalScalarBytes
  | paddingBytes
  | prerequisiteBytes
  | schemaScratchBytes
  | retainedBytes
  | heapBytes
  | work
deriving DecidableEq, Repr

/-- The arguments of `reject`. -/
structure ManagedReject where
  status : ManagedValuesStatus
  limit : ManagedValuesLimit
  field : ManagedValuesField
  nodeOrdinal : Option ℕ
  errorOffset : ℕ
deriving DecidableEq, Repr

/-- A nested record is present when its call was attempted. -/
structure ManagedValuesResult where
  status : ManagedValuesStatus
  limit : ManagedValuesLimit
  field : ManagedValuesField
  objectOrdinal : Option ℕ
  typeOrdinal : Option ℕ
  nodeOrdinal : Option ℕ
  registryRowOrdinal : Option ℕ
  errorOffset : ℕ
  workUsed : ℕ
  reservedHeapBytes : ℕ
  requiredRetainedBytes : ℕ
  peakRetainedBytes : ℕ
  peakPrerequisiteBytes : ℕ
  peakSchemaScratchBytes : ℕ
  schemaResult : Option SchemaResult
  contextResult : Option SchemaContextResult
  indexResult : Option ReferenceIndexResult
  queryRegistryRowOrdinal : Option ℕ
  queryResult : Option ReferenceQueryResult
  typeMatch : Option ReferenceMatch
deriving DecidableEq, Repr

/-! ## The build -/

/-- A compiled schema with its qualified context. -/
structure ManagedSchema where
  owner : SerializedFileSchema
  context : SchemaContext
  profile : ManagedProfile
deriving DecidableEq, Repr

/-- An entry of the cache `types`. -/
structure CachedSchema extends ManagedSchema where
  ordinal : ℕ
  original : TailReferenceTypeRow
deriving DecidableEq, Repr

/-- The position of a pass; the schema that it reads by is handed on beside it. -/
structure ManagedCursor where
  position : ℕ
  stop : ℕ
  stringBytes : ℕ := 0
  scalarBytes : ℕ := 0
  paddingBytes : ℕ := 0
  values : ℕ := 0
  rows : ℕ := 0
  slots : ℕ := 0
  registryRow : Option ℕ := none
deriving DecidableEq, Repr

/-- Who holds what is requested from the allocator. -/
inductive ManagedOwner where
  | hostSchema
  | referenceIndex
  | typeCache
  | selectedSchema
  | schemaScratch
  | finalStorage
deriving DecidableEq, Repr

/-- The counters of bytes, with the trace of what is requested and released and
with `prerequisite_bytes` as it was wherever a remainder was taken. -/
structure ManagedMemory where
  prerequisiteBytes : ℕ := 0
  reservedHeapBytes : ℕ := 0
  requiredRetainedBytes : ℕ := 0
  peakRetainedBytes : ℕ := 0
  peakPrerequisiteBytes : ℕ := 0
  peakSchemaScratchBytes : ℕ := 0
  events : List (Ledger.Event ManagedOwner) := []
  remainders : List ℕ := []
deriving DecidableEq, Repr

/-- `selected` are the owners that the cleanup disposes of with the cache: an
entry of `types` is there once it is qualified. -/
structure ManagedBuild where
  objectOrdinal : Option ℕ := none
  typeOrdinal : Option ℕ := none
  registryRowOrdinal : Option ℕ := none
  workUsed : ℕ := 0
  memory : ManagedMemory := {}
  schemaResult : Option SchemaResult := none
  contextResult : Option SchemaContextResult := none
  indexResult : Option ReferenceIndexResult := none
  queryRegistryRowOrdinal : Option ℕ := none
  queryResult : Option ReferenceQueryResult := none
  typeMatch : Option ReferenceMatch := none
  host : Option SerializedFileSchema := none
  index : Option SerializedFileReferenceIndex := none
  cacheBytes : ℕ := 0
  selected : List SerializedFileSchema := []
  types : List CachedSchema := []
  cursor : ManagedCursor := ⟨0, 0, 0, 0, 0, 0, 0, 0, none⟩
  storage : Option ManagedStorage := none
deriving DecidableEq, Repr

namespace ManagedMemory

variable (memory : ManagedMemory)

/-- `max_prerequisite_bytes - prerequisite_bytes` is taken. -/
def remainder : ManagedMemory :=
  { memory with remainders := memory.remainders ++ [memory.prerequisiteBytes] }

def notePrerequisitePeak (incoming : ℕ) : ManagedMemory :=
  { memory with
    peakPrerequisiteBytes :=
      max memory.peakPrerequisiteBytes (memory.prerequisiteBytes + incoming) }

/-- A nested schema requests its storage, then its scratch, which it always
releases; on failure the storage too. A peak of zero is no request. -/
def schemaEvents (owner : ManagedOwner) (made : Bool) (ran : SchemaResult) :
    List (Ledger.Event ManagedOwner) :=
  [.request owner ran.peakRetainedBytes, .request .schemaScratch ran.peakScratchBytes,
    .release .schemaScratch ran.peakScratchBytes] ++
    if made then [] else [.release owner ran.peakRetainedBytes]

def noteSchema (owner : ManagedOwner) (made : Bool) (ran : SchemaResult) : ManagedMemory :=
  { memory.notePrerequisitePeak ran.peakRetainedBytes with
    peakSchemaScratchBytes := max memory.peakSchemaScratchBytes ran.peakScratchBytes
    events := memory.events ++ schemaEvents owner made ran }

def indexEvents (made : Bool) (ran : ReferenceIndexResult) : List (Ledger.Event ManagedOwner) :=
  [.request .referenceIndex ran.peakRetainedBytes] ++
    if made then [] else [.release .referenceIndex ran.peakRetainedBytes]

def noteIndex (made : Bool) (ran : ReferenceIndexResult) : ManagedMemory :=
  { memory.notePrerequisitePeak ran.peakRetainedBytes with
    events := memory.events ++ indexEvents made ran }

/-- A prerequisite stays. -/
def retain (bytes : ℕ) : ManagedMemory :=
  { memory with prerequisiteBytes := memory.prerequisiteBytes + bytes }

def allocateCache (bytes : ℕ) : ManagedMemory :=
  { (memory.notePrerequisitePeak bytes).retain bytes with
    events := memory.events ++ [.request .typeCache bytes] }

def allocateStorage (bytes : ℕ) : ManagedMemory :=
  { memory with
    peakRetainedBytes := bytes
    events := memory.events ++ [.request .finalStorage bytes] }

end ManagedMemory

namespace ManagedBuild

variable (build : ManagedBuild)

def advance (width : ℕ) : ManagedBuild :=
  { build with cursor := { build.cursor with position := build.cursor.position + width } }

/-- `dispose_prerequisites`. -/
def disposePrerequisites : List (Ledger.Event ManagedOwner) :=
  build.selected.map (fun schema => .release .selectedSchema schema.view.retainedBytes) ++
    [.release .typeCache build.cacheBytes] ++
    build.index.toList.map (fun index => .release .referenceIndex index.view.retainedBytes) ++
    build.host.toList.map fun schema => .release .hostSchema schema.view.retainedBytes

/-- The storage of a build that is not published. -/
def disposeStorage : List (Ledger.Event ManagedOwner) :=
  build.storage.toList.map fun _ => .release .finalStorage build.memory.requiredRetainedBytes

end ManagedBuild

/-! ## Zeroed storage -/

def ManagedValue.zeroed : ManagedValue where
  ordinal := 0
  kind := .unset
  rowKind := .ordinaryType
  typeOrdinal := 0
  registryRowOrdinal := none
  schemaNode := .zeroed
  source := ⟨0, 0⟩
  rawBits := 0
  scalarSource := none
  lengthBits := 0
  lengthSource := none
  bytesSource := none
  arraySchemaOrdinal := none
  sizeSchemaOrdinal := none
  dataSchemaOrdinal := none
  arraySchemaSource := none
  sizeSchemaSource := none
  dataSchemaSource := none
  paddingSource := none

def RegistryRow.zeroed : RegistryRow where
  ordinal := 0
  kind := .unset
  ridBits := 0
  source := ⟨0, 0⟩
  payloadSource := ⟨0, 0⟩
  ridValueOrdinal := 0
  identityValueOrdinals := (0, 0, 0)
  firstValue := 0
  valueCount := 0
  firstPayloadValue := 0
  payloadValueCount := 0
  selectedTypeOrdinal := none
  typeMatch := .missing

/-- Of zero bytes: its ordinals are those of the first row, not absent. -/
def RidSlot.zeroed : RidSlot where
  ordinal := 0
  valueOrdinal := 0
  registryRowOrdinal := some 0
  ridBits := 0
  resolution := .missing
  matchCount := 0
  firstRegistryRow := some 0
  secondRegistryRow := some 0

end UnityCommon.ManagedValues
