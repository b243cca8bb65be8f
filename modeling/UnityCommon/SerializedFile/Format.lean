import UnityCommon.SerializedFile.Tail
import UnityCommon.Lib.Metered

/-!
# The metadata format

What the metadata of a version 22 file is, apart from any reader of it: a
decoder for each table, with nothing mapped short, no ceilings and no work to
run out of. The aggregates of a decoded view are sums over its rows.
-/

namespace UnityCommon.Metadata

inductive Table where
  | types
  | objects
  | scripts
  | externals
  | referenceTypes
deriving DecidableEq, Repr

/-- What reading costs: bytes, work, the aggregates and the tables' counts. -/
structure ScanCost where
  bytes : ℕ := 0
  work : ℕ := 0
  nodes : ℕ := 0
  strings : ℕ := 0
  words : ℕ := 0
  terminated : ℕ := 0
  rows : Table → ℕ := fun _ => 0

instance : Cost ScanCost where
  zero := {}
  add d e :=
    { bytes := d.bytes + e.bytes
      work := d.work + e.work
      nodes := d.nodes + e.nodes
      strings := d.strings + e.strings
      words := d.words + e.words
      terminated := d.terminated + e.terminated
      rows := fun table => max (d.rows table) (e.rows table) }
  width := ScanCost.bytes
  width_zero := rfl
  width_add _ _ := rfl

namespace ScanCost

@[simp] theorem width_eq (d : ScanCost) : Cost.width d = d.bytes := rfl

@[simp] theorem zero_bytes : (0 : ScanCost).bytes = 0 := rfl
@[simp] theorem zero_work : (0 : ScanCost).work = 0 := rfl
@[simp] theorem zero_nodes : (0 : ScanCost).nodes = 0 := rfl
@[simp] theorem zero_strings : (0 : ScanCost).strings = 0 := rfl
@[simp] theorem zero_words : (0 : ScanCost).words = 0 := rfl
@[simp] theorem zero_terminated : (0 : ScanCost).terminated = 0 := rfl
@[simp] theorem zero_rows (table : Table) : (0 : ScanCost).rows table = 0 := rfl

variable (d e : ScanCost)

@[simp] theorem add_bytes : (d + e).bytes = d.bytes + e.bytes := rfl
@[simp] theorem add_work : (d + e).work = d.work + e.work := rfl
@[simp] theorem add_nodes : (d + e).nodes = d.nodes + e.nodes := rfl
@[simp] theorem add_strings : (d + e).strings = d.strings + e.strings := rfl
@[simp] theorem add_words : (d + e).words = d.words + e.words := rfl
@[simp] theorem add_terminated : (d + e).terminated = d.terminated + e.terminated := rfl
@[simp] theorem add_rows (table : Table) :
    (d + e).rows table = max (d.rows table) (e.rows table) := rfl

end ScanCost

/-- Taking `count` bytes. -/
def ScanCost.taken (count : ℕ) : ScanCost := { bytes := count, work := count }

/-- Taking `count` bytes of strings. -/
def ScanCost.stringTaken (count : ℕ) : ScanCost :=
  { bytes := count, work := count, terminated := count }

def ScanCost.table (table : Table) (count : ℕ) : ScanCost :=
  { rows := fun t => if t = table then count else 0 }

/-- The bytes a table is read from, and where the metadata ends in them. -/
structure MetadataSource where
  bytes : Text
  metadataEnd : ℕ
  endianSelector : UInt8
deriving DecidableEq, Repr

/-- The length of a string with its terminator. -/
def terminatedLength : Text → Option ℕ
  | [] => none
  | byte :: rest => if byte = 0 then some 1 else (terminatedLength rest).map (· + 1)

namespace MetadataSource

variable (source : MetadataSource)

/-- The bytes at a cursor are metadata, and there. -/
def Holds (start width : ℕ) : Prop :=
  start + width ≤ source.metadataEnd ∧ start + width ≤ source.bytes.length

instance (start width : ℕ) : Decidable (source.Holds start width) := by
  unfold Holds
  infer_instance

def take (width : ℕ) : Decoder ScanCost PrefixSpan := fun start =>
  if source.Holds start width then some (⟨start, width⟩, .taken width) else none

def decode (span : PrefixSpan) : ℕ := decodeNat source.endianSelector (span.bytes source.bytes)

def readU32 : Decoder ScanCost (PrefixSpan × UInt32) := do
  let span ← source.take 4
  return (span, (source.decode span).toUInt32)

def readCount : Decoder ScanCost (PrefixSpan × UInt32) := do
  let (span, value) ← source.readU32
  Decoder.require (value.toNat ≤ int32Max)
  return (span, value)

def takeWhen (present : Bool) (width : ℕ) : Decoder ScanCost (Option PrefixSpan) :=
  if present then do
    let span ← source.take width
    return some span
  else pure none

def typePrefix : Decoder ScanCost MetadataTypePrefix := do
  let classIdSource ← source.take 4
  let strippedSource ← source.take 1
  let scriptIndexSource ← source.take 2
  let classIdBits := (source.decode classIdSource).toUInt32
  let strippedRaw := (source.decode strippedSource).toUInt8
  let scriptIndexBits := (source.decode scriptIndexSource).toUInt16
  let hasScriptHash ← Decoder.ofOption (typeV22HashShape classIdBits scriptIndexBits)
  let scriptHashSource ← source.takeWhen hasScriptHash 16
  let typeHashSource ← source.take 16
  return {
    classIdSource
    strippedSource
    scriptIndexSource
    scriptHashSource
    typeHashSource
    classIdBits
    scriptIndexBits
    strippedRaw
    hasScriptHash }

def tree : Decoder ScanCost DirectoryTree := do
  let (nodeCountSource, nodeCount) ← source.readU32
  Decoder.require (nodeCount ≠ 0)
  Decoder.spend { nodes := nodeCount.toNat }
  let (stringCountSource, stringByteCount) ← source.readU32
  Decoder.spend { strings := stringByteCount.toNat }
  let nodesSource ← source.take (nodeCount.toNat * 32)
  let stringsSource ← source.take stringByteCount.toNat
  return {
    nodeCountSource
    stringCountSource
    nodesSource
    stringsSource
    nodeCount
    stringByteCount }

/-- The bytes up to a terminator, all of them metadata. -/
def stringBytes : Decoder ScanCost Unit := fun start =>
  (terminatedLength (source.bytes.drop start)).bind fun size =>
    if start + size ≤ source.metadataEnd then some ((), .stringTaken size) else none

def terminatedString : Decoder ScanCost PrefixSpan := do
  let start ← Decoder.position
  source.stringBytes
  let stop ← Decoder.position
  return ⟨start, stop - start⟩

/-- One byte of a string. -/
def stringByte : Decoder ScanCost Unit := fun start =>
  if source.Holds start 1 then some ((), .stringTaken 1) else none

/-- The count of a table, with the count another pass has found. -/
def tableCount (table : Table) (planned : Option ℕ) : Decoder ScanCost (PrefixSpan × ℕ) := do
  let (span, count) ← source.readCount
  Decoder.spend (.table table count.toNat)
  Decoder.require (planned.all (· == count.toNat))
  return (span, count.toNat)

/-! ## The directory -/

def directoryTree : Decoder ScanCost (DirectoryTree × DirectoryDependencies) := do
  let tree ← source.tree
  let (countSource, count) ← source.readCount
  Decoder.spend { words := count.toNat }
  let wordsSource ← source.take (count.toNat * 4)
  return (tree, { countSource, wordsSource, count })

def directoryTreeWhen (hasTree : Bool) :
    Decoder ScanCost (Option DirectoryTree × Option DirectoryDependencies) :=
  if hasTree then do
    let (tree, dependencies) ← source.directoryTree
    return (some tree, some dependencies)
  else pure (none, none)

def directoryType (hasTree : Bool) (ordinal : ℕ) : Decoder ScanCost DirectoryTypeRow := do
  let start ← Decoder.position
  let typePrefix ← source.typePrefix
  let (tree, dependencies) ← source.directoryTreeWhen hasTree
  Decoder.spend { work := 1 }
  let stop ← Decoder.position
  return {
    toMetadataTypePrefix := typePrefix
    ordinal
    source := ⟨start, stop - start⟩
    tree
    dependencies }

def objectField (row : PrefixSpan) (offset width : ℕ) : ℕ :=
  source.decode ⟨row.offset + offset, width⟩

def directoryObject (header : HeaderView) (typeCount ordinal : ℕ) :
    Decoder ScanCost DirectoryObjectRow := do
  let row ← source.take 24
  let relativeDataOffset := source.objectField row 8 8
  let byteSize := (source.objectField row 16 4).toUInt32
  let typeOrdinal := (source.objectField row 20 4).toUInt32
  let dataSize := header.fileSize - header.dataOffset
  Decoder.require (relativeDataOffset ≤ dataSize)
  Decoder.require (byteSize.toNat ≤ dataSize - relativeDataOffset)
  Decoder.require (typeOrdinal.toNat < typeCount)
  Decoder.spend { work := 1 }
  return {
    ordinal
    source := row
    pathIdBits := (source.objectField row 0 8).toUInt64
    relativeDataOffset
    byteSize
    typeOrdinal
    payload := ⟨header.dataOffset + relativeDataOffset, byteSize.toNat⟩ }

end MetadataSource

/-! The aggregates of a row. -/

def treeNodes (tree : Option DirectoryTree) : ℕ := tree.elim 0 (·.nodeCount.toNat)
def treeStrings (tree : Option DirectoryTree) : ℕ := tree.elim 0 (·.stringByteCount.toNat)

def DirectoryTypeRow.dependencyWords (row : DirectoryTypeRow) : ℕ :=
  row.dependencies.elim 0 (·.count.toNat)

def TailReferenceNames.bytes (names : TailReferenceNames) : ℕ :=
  names.classNameSource.size + names.namespaceSource.size + names.assemblyNameSource.size

def TailReferenceTypeRow.nameBytes (row : TailReferenceTypeRow) : ℕ :=
  row.names.elim 0 TailReferenceNames.bytes

def TailExternalRow.stringBytes (row : TailExternalRow) : ℕ :=
  row.leadingStringSource.size + row.pathSource.size

namespace MetadataSource

variable (source : MetadataSource)

def directory (engineVersion : DirectoryEngineVersion) (prefixView : PrefixView)
    (plannedTypes plannedObjects : Option ℕ) : Decoder ScanCost SerializedFileDirectory := do
  let (typeCountSource, typeCount) ← source.tableCount .types plannedTypes
  let typesStart ← Decoder.position
  let types ← Decoder.collect
    (source.directoryType (prefixView.typeTreeEnabledRaw != 0)) 0 typeCount
  let typesStop ← Decoder.position
  let (objectCountSource, objectCount) ← source.tableCount .objects plannedObjects
  let paddingStart ← Decoder.position
  let padding := if objectCount ≠ 0 then metadataPadding paddingStart else 0
  let objectPaddingSource ← source.take padding
  let objectsStart ← Decoder.position
  let objects ← Decoder.collect
    (source.directoryObject prefixView.header typeCount) 0 objectCount
  let stop ← Decoder.position
  return {
    view := {
      engineVersion
      prefixView
      parsedMetadataSource := ⟨v22HeaderSize, stop - v22HeaderSize⟩
      typeCountSource
      typeRowsSource := ⟨typesStart, typesStop - typesStart⟩
      objectCountSource
      objectPaddingSource
      objectRowsSource := ⟨objectsStart, stop - objectsStart⟩
      remainingMetadata := ⟨stop, prefixView.header.metadataToDataGap.offset - stop⟩
      typeCount
      objectCount
      nodeRecordCount := (types.map fun row => treeNodes row.tree).sum
      stringByteCount := (types.map fun row => treeStrings row.tree).sum
      dependencyWordCount := (types.map fun row => row.dependencyWords).sum
      retainedBytes := 0 }
    types
    objects }

/-! ## The tail -/

def script (ordinal : ℕ) : Decoder ScanCost TailScriptRow := do
  let start ← Decoder.position
  let (fileIndexSource, fileIndexBits) ← source.readU32
  let paddingStart ← Decoder.position
  let alignmentSource ← source.take (metadataPadding paddingStart)
  let localIdentifierSource ← source.take 8
  Decoder.spend { work := 1 }
  let stop ← Decoder.position
  return {
    ordinal
    source := ⟨start, stop - start⟩
    fileIndexSource
    alignmentSource
    localIdentifierSource
    fileIndexBits
    localIdentifierBits := (source.decode localIdentifierSource).toUInt64 }

def guidWords (span : PrefixSpan) : List UInt32 :=
  (List.range 4).map fun word => (source.decode ⟨span.offset + word * 4, 4⟩).toUInt32

def external (ordinal : ℕ) : Decoder ScanCost TailExternalRow := do
  let start ← Decoder.position
  let leadingStringSource ← source.terminatedString
  let guidSource ← source.take 16
  let (typeSource, typeBits) ← source.readU32
  let pathSource ← source.terminatedString
  Decoder.spend { work := 1 }
  let stop ← Decoder.position
  return {
    ordinal
    source := ⟨start, stop - start⟩
    leadingStringSource
    guidSource
    typeSource
    pathSource
    guidWords := source.guidWords guidSource
    typeBits }

def referenceTree : Decoder ScanCost (DirectoryTree × TailReferenceNames) := do
  let tree ← source.tree
  let classNameSource ← source.terminatedString
  let namespaceSource ← source.terminatedString
  let assemblyNameSource ← source.terminatedString
  return (tree, { classNameSource, namespaceSource, assemblyNameSource })

def referenceTreeWhen (hasTree : Bool) :
    Decoder ScanCost (Option DirectoryTree × Option TailReferenceNames) :=
  if hasTree then do
    let (tree, names) ← source.referenceTree
    return (some tree, some names)
  else pure (none, none)

def referenceType (hasTree : Bool) (ordinal : ℕ) : Decoder ScanCost TailReferenceTypeRow := do
  let start ← Decoder.position
  let typePrefix ← source.typePrefix
  let (tree, names) ← source.referenceTreeWhen hasTree
  Decoder.spend { work := 1 }
  let stop ← Decoder.position
  return {
    toMetadataTypePrefix := typePrefix
    ordinal
    source := ⟨start, stop - start⟩
    tree
    names }

def tail (directory : DirectoryView) (planned : Option TailCapacities) :
    Decoder ScanCost SerializedFileMetadataTail := do
  let start ← Decoder.position
  let (scriptCountSource, scriptCount) ← source.tableCount .scripts (planned.map (·.scripts))
  let scriptsStart ← Decoder.position
  let scripts ← Decoder.collect source.script 0 scriptCount
  let scriptsStop ← Decoder.position
  let (externalCountSource, externalCount) ←
    source.tableCount .externals (planned.map (·.externals))
  let externalsStart ← Decoder.position
  let externals ← Decoder.collect source.external 0 externalCount
  let externalsStop ← Decoder.position
  let (referenceTypeCountSource, referenceTypeCount) ←
    source.tableCount .referenceTypes (planned.map (·.referenceTypes))
  let referencesStart ← Decoder.position
  let referenceTypes ← Decoder.collect
    (source.referenceType (directory.prefixView.typeTreeEnabledRaw != 0)) 0 referenceTypeCount
  let referencesStop ← Decoder.position
  let userInformationSource ← source.terminatedString
  let stop ← Decoder.position
  Decoder.require (stop = source.metadataEnd)
  return {
    view := {
      directory
      source := ⟨start, stop - start⟩
      scriptCountSource
      scriptRowsSource := ⟨scriptsStart, scriptsStop - scriptsStart⟩
      externalCountSource
      externalRowsSource := ⟨externalsStart, externalsStop - externalsStart⟩
      referenceTypeCountSource
      referenceTypeRowsSource := ⟨referencesStart, referencesStop - referencesStart⟩
      userInformationSource
      scriptCount
      externalCount
      referenceTypeCount
      nodeRecordCount := (referenceTypes.map fun row => treeNodes row.tree).sum
      treeStringByteCount := (referenceTypes.map fun row => treeStrings row.tree).sum
      terminatedStringByteCount := (externals.map TailExternalRow.stringBytes).sum +
        (referenceTypes.map TailReferenceTypeRow.nameBytes).sum + userInformationSource.size
      retainedBytes := 0 }
    scripts
    externals
    referenceTypes }

end MetadataSource

end UnityCommon.Metadata
