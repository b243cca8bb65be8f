import UnityCommon.Lib.CountingSort
import UnityCommon.SerializedFile.ReferenceIndex
import UnityCommon.TypeTree.Strings

/-!
# Compiled schemas

`io/serialized_file_schema.c`: the tree of an ordinary or reference type as
nodes with their links and resolved names. Storage is zeroed before it is
filled. Spans point into the mapping at their offset; overlapping arguments are
not modelled.
-/

namespace UnityCommon.Metadata

open UnityCommon.TypeTree

inductive SchemaRowKind where
  | ordinaryType
  | referenceType
deriving DecidableEq, Repr

/-- `unset` is the zero of a string that is not resolved yet. -/
inductive SchemaStringSpace where
  | unset
  | local
  | commonExact35
deriving DecidableEq, Repr

/-- `bytes` are without the terminator. -/
structure SchemaString where
  space : SchemaStringSpace
  encodedOffset : UInt32
  bytes : Text
  sourceOffset : ℕ
deriving DecidableEq, Repr

def SchemaString.zeroed : SchemaString := ⟨.unset, 0, [], 0⟩

/-- `none` is `SIZE_MAX`. -/
structure SchemaNode where
  ordinal : ℕ
  source : PrefixSpan
  version : UInt16
  level : UInt8
  typeFlags : UInt8
  typeOffsetBits : UInt32
  nameOffsetBits : UInt32
  byteSizeBits : UInt32
  indexBits : UInt32
  metaFlags : UInt32
  opaqueTail : Text
  typeName : SchemaString
  fieldName : SchemaString
  parent : Option ℕ
  firstChild : Option ℕ
  nextSibling : Option ℕ
  childCount : ℕ
  subtreeEnd : ℕ
deriving DecidableEq, Repr

structure SchemaView where
  engineVersion : DirectoryEngineVersion
  prefixView : PrefixView
  rowKind : SchemaRowKind
  typeOrdinal : ℕ
  typeEntrySource : PrefixSpan
  tree : DirectoryTree
  classIdBits : UInt32
  scriptIndexBits : UInt16
  strippedRaw : UInt8
  hasScriptHash : Bool
  scriptHashSource : Option PrefixSpan
  typeHashSource : PrefixSpan
  names : Option TailReferenceNames
  dependencies : Option DirectoryDependencies
  nodeCount : ℕ
  maximumDepth : ℕ
  retainedBytes : ℕ
deriving DecidableEq, Repr

structure SerializedFileSchema where
  view : SchemaView
  nodes : List SchemaNode
deriving DecidableEq, Repr

structure SchemaLimits where
  maxNodes : ℕ
  maxLocalStringBytes : ℕ
  maxDepth : ℕ
  maxRetainedBytes : ℕ
  maxScratchBytes : ℕ
  maxWork : ℕ
deriving DecidableEq, Repr

inductive SchemaStatus where
  | ok
  | invalidArgument
  | invalidState
  | unsupportedEngine
  | noEmbeddedTree
  | sourceMismatch
  | malformedHierarchy
  | invalidStringOffset
  | unterminatedString
  | limitExceeded
  | allocationFailed
deriving DecidableEq, Repr

inductive SchemaLimit where
  | none
  | nodes
  | localStrings
  | depth
  | retained
  | scratch
  | work
deriving DecidableEq, Repr

inductive SchemaErrorSpace where
  | noSource
  | file
  | commonExact35
deriving DecidableEq, Repr

inductive SchemaField where
  | none
  | nodeRecord
  | level
  | typeOffset
  | nameOffset
  | stringTerminator
deriving DecidableEq, Repr

/-- The arguments of `reject`. -/
structure SchemaReject where
  status : SchemaStatus
  limit : SchemaLimit
  field : SchemaField
  nodeOrdinal : Option ℕ
  errorSpace : SchemaErrorSpace
  errorOffset : ℕ
deriving DecidableEq, Repr

structure SchemaResult where
  status : SchemaStatus
  limit : SchemaLimit
  field : SchemaField
  errorSpace : SchemaErrorSpace
  typeOrdinal : Option ℕ
  nodeOrdinal : Option ℕ
  errorOffset : ℕ
  workUsed : ℕ
  requiredRetainedBytes : ℕ
  requiredScratchBytes : ℕ
  peakRetainedBytes : ℕ
  peakScratchBytes : ℕ
deriving DecidableEq, Repr

/-- What `SchemaCompile` counts while it runs. -/
@[ext] structure SchemaCompile where
  typeOrdinal : Option ℕ := none
  workUsed : ℕ := 0
  requiredRetainedBytes : ℕ := 0
  requiredScratchBytes : ℕ := 0
  peakRetainedBytes : ℕ := 0
  peakScratchBytes : ℕ := 0
deriving DecidableEq, Repr

/-- The name of a node by its slot: type, then field. -/
structure NameRequest where
  encodedOffset : UInt32
  slot : ℕ
deriving DecidableEq, Repr

inductive SchemaParent where
  | directory (handle : SerializedFileDirectory)
  | tail (handle : SerializedFileMetadataTail)
deriving DecidableEq, Repr

/-- `serialized_file_directory_type`. -/
def SerializedFileDirectory.type (directory : SerializedFileDirectory) (ordinal : ℕ) :
    Option DirectoryTypeRow :=
  if ordinal < directory.view.typeCount then directory.types[ordinal]? else none

/-- What a schema takes from the row of either kind. -/
structure SchemaRow where
  kind : SchemaRowKind
  source : PrefixSpan
  typePrefix : MetadataTypePrefix
  tree : Option DirectoryTree
  names : Option TailReferenceNames
  dependencies : Option DirectoryDependencies
deriving DecidableEq, Repr

namespace SchemaParent

def directoryView : SchemaParent → DirectoryView
  | directory handle => handle.view
  | tail handle => handle.view.directory

/-- Where the bytes that the parent has parsed end. -/
def stop : SchemaParent → ℕ
  | directory handle => handle.view.remainingMetadata.offset
  | tail handle => handle.view.source.offset + handle.view.source.size

def row : SchemaParent → ℕ → Option SchemaRow
  | directory handle, ordinal =>
      (handle.type ordinal).map fun row =>
        ⟨.ordinaryType, row.source, row.toMetadataTypePrefix, row.tree, none, row.dependencies⟩
  | tail handle, ordinal =>
      (handle.referenceType ordinal).map fun row =>
        ⟨.referenceType, row.source, row.toMetadataTypePrefix, row.tree, row.names, none⟩

end SchemaParent

def nodeBytes : ℕ := 32
def radixBuckets : ℕ := 256
def radixPasses : ℕ := 4
def namesPerNode : ℕ := 2

def rejectSchemaOwner (status : SchemaStatus) (limit : SchemaLimit) : SchemaReject :=
  ⟨status, limit, .none, none, .noSource, noOffset⟩

def chargeSchema (limits : SchemaLimits) (amount : ℕ) (field : SchemaField) (node : Option ℕ)
    (space : SchemaErrorSpace) (offset : ℕ) : Call SchemaReject SchemaCompile Unit := do
  let compile ← Call.current
  Call.require (amount ≤ limits.maxWork - compile.workUsed)
    ⟨.limitExceeded, .work, field, node, space, offset⟩
  Call.replace { compile with workUsed := compile.workUsed + amount }

def chargeSchemaOwner (limits : SchemaLimits) (amount : ℕ) :
    Call SchemaReject SchemaCompile Unit :=
  chargeSchema limits amount .none none .noSource noOffset

/-! ## The row -/

/-- The view of a row with its tree, before anything is compiled. -/
def SchemaRow.view (row : SchemaRow) (tree : DirectoryTree) (directory : DirectoryView)
    (ordinal : ℕ) : SchemaView where
  engineVersion := directory.engineVersion
  prefixView := directory.prefixView
  rowKind := row.kind
  typeOrdinal := ordinal
  typeEntrySource := row.source
  tree := tree
  classIdBits := row.typePrefix.classIdBits
  scriptIndexBits := row.typePrefix.scriptIndexBits
  strippedRaw := row.typePrefix.strippedRaw
  hasScriptHash := row.typePrefix.hasScriptHash
  scriptHashSource := row.typePrefix.scriptHashSource
  typeHashSource := row.typePrefix.typeHashSource
  names := row.names
  dependencies := row.dependencies
  nodeCount := tree.nodeCount.toNat
  maximumDepth := 0
  retainedBytes := 0

def selectSchemaRow (parent : SchemaParent) (ordinal : ℕ) :
    Call SchemaReject SchemaCompile SchemaView := do
  let directory := parent.directoryView
  Call.require (directory.engineVersion = .engine2021_3_35f1)
    (rejectSchemaOwner .unsupportedEngine .none)
  let row ← Call.ofOption (rejectSchemaOwner .invalidArgument .none) (parent.row ordinal)
  Call.modify fun compile => { compile with typeOrdinal := some ordinal }
  let tree ← Call.ofOption (rejectSchemaOwner .noEmbeddedTree .none) row.tree
  return row.view tree directory ordinal

/-- The spans of a tree lie in the parsed bytes, one behind the other. -/
def treeIsBacked (knownSize : ℕ) (tree : DirectoryTree) : Prop :=
  tree.nodeCount ≠ 0 ∧ tree.nodeCount.toNat * nodeBytes = tree.nodesSource.size ∧
    tree.stringByteCount.toNat = tree.stringsSource.size ∧
    sourceIsBacked knownSize tree.nodesSource ∧ sourceIsBacked knownSize tree.stringsSource ∧
    tree.nodesSource.offset ≤ uint64Max - tree.nodeCount.toNat * nodeBytes ∧
    tree.stringsSource.offset = tree.nodesSource.offset + tree.nodeCount.toNat * nodeBytes

instance (knownSize : ℕ) (tree : DirectoryTree) : Decidable (treeIsBacked knownSize tree) := by
  unfold treeIsBacked
  infer_instance

def admitTree (limits : SchemaLimits) (knownSize : ℕ) (tree : DirectoryTree) :
    Call SchemaReject SchemaCompile Unit := do
  Call.require (tree.nodeCount.toNat ≤ limits.maxNodes) (rejectSchemaOwner .limitExceeded .nodes)
  Call.require (tree.stringByteCount.toNat ≤ limits.maxLocalStringBytes)
    (rejectSchemaOwner .limitExceeded .localStrings)
  Call.require (treeIsBacked knownSize tree) (rejectSchemaOwner .sourceMismatch .none)

/-! ## Storage -/

/-- `sizeof(SchemaStorage)`. -/
def schemaStorageSize : ℕ := 840
def schemaNodeSize : ℕ := 168
def nameRequestSize : ℕ := 16

def schemaLayout (nodeCount : ℕ) : Option ℕ :=
  appendArray schemaStorageSize 8 nodeCount schemaNodeSize

/-- Both halves of the scratch. -/
def scratchLayout (nodeCount : ℕ) : Option ℕ := do
  if sizeMax < nodeCount * namesPerNode then none
  let half ← appendArray 0 8 (nodeCount * namesPerNode) nameRequestSize
  if sizeMax < half * 2 then none
  return half * 2

/-- `plan_storage`: retained, then scratch bytes. -/
def planSchemaStorage (limits : SchemaLimits) (nodeCount : ℕ) :
    Call SchemaReject SchemaCompile (ℕ × ℕ) := do
  chargeSchemaOwner limits 1
  let retainedBytes ← Call.ofOption (rejectSchemaOwner .limitExceeded .retained)
    (schemaLayout nodeCount)
  Call.modify fun compile => { compile with requiredRetainedBytes := retainedBytes }
  Call.require (retainedBytes ≤ limits.maxRetainedBytes)
    (rejectSchemaOwner .limitExceeded .retained)
  let scratchBytes ← Call.ofOption (rejectSchemaOwner .limitExceeded .scratch)
    (scratchLayout nodeCount)
  Call.modify fun compile => { compile with requiredScratchBytes := scratchBytes }
  Call.require (scratchBytes ≤ limits.maxScratchBytes)
    (rejectSchemaOwner .limitExceeded .scratch)
  return (retainedBytes, scratchBytes)

/-! ## Nodes -/

def SchemaNode.zeroed : SchemaNode where
  ordinal := 0
  source := ⟨0, 0⟩
  version := 0
  level := 0
  typeFlags := 0
  typeOffsetBits := 0
  nameOffsetBits := 0
  byteSizeBits := 0
  indexBits := 0
  metaFlags := 0
  opaqueTail := List.replicate 8 0
  typeName := .zeroed
  fieldName := .zeroed
  parent := none
  firstChild := none
  nextSibling := none
  childCount := 0
  subtreeEnd := 0

/-- `decode_node`, before any link is known. -/
def decodeSchemaNode (mapped : Text) (endianSelector : UInt8) (nodesSource : PrefixSpan)
    (ordinal : ℕ) : SchemaNode :=
  let offset := nodesSource.offset + ordinal * nodeBytes
  let field (start width : ℕ) : Text := (PrefixSpan.mk (offset + start) width).bytes mapped
  let decodeU32 (start : ℕ) : UInt32 := (decodeNat endianSelector (field start 4)).toUInt32
  { SchemaNode.zeroed with
    ordinal
    source := ⟨offset, nodeBytes⟩
    version := (decodeNat endianSelector (field 0 2)).toUInt16
    level := (field 2 1).headD 0
    typeFlags := (field 3 1).headD 0
    typeOffsetBits := decodeU32 4
    nameOffsetBits := decodeU32 8
    byteSizeBits := decodeU32 12
    indexBits := decodeU32 16
    metaFlags := decodeU32 20
    opaqueTail := field 24 8 }

/-- The two requests of a node. -/
def nodeRequests (node : SchemaNode) : List NameRequest :=
  [⟨node.typeOffsetBits, node.ordinal * namesPerNode⟩,
    ⟨node.nameOffsetBits, node.ordinal * namesPerNode + 1⟩]

/-- An entry of `ancestors` with its entry of `last_child`. -/
structure ActiveNode where
  ordinal : ℕ
  lastChild : Option ℕ
deriving DecidableEq, Repr

/-- The nodes so far, their requests and the active path, the deepest first:
its length is `active_count`. -/
structure NodeTable where
  nodes : List SchemaNode
  requests : List NameRequest
  active : List ActiveNode
  maximumDepth : ℕ
deriving DecidableEq, Repr

def NodeTable.empty : NodeTable := ⟨[], [], [], 0⟩

/-- A node of the storage. -/
def nodeAt (nodes : List SchemaNode) (ordinal : ℕ) : SchemaNode := nodes.getD ordinal .zeroed

def closeSubtree (limits : SchemaLimits) (nodes : List SchemaNode) (ordinal stop : ℕ) :
    Call SchemaReject SchemaCompile (List SchemaNode) := do
  chargeSchema limits 1 .level (some ordinal) .file ((nodeAt nodes ordinal).source.offset + 2)
  return nodes.modify ordinal fun node => { node with subtreeEnd := stop }

/-- `while (active_count > level)`. -/
def closeSubtrees (limits : SchemaLimits) (stop level : ℕ) :
    List ActiveNode → List SchemaNode →
      Call SchemaReject SchemaCompile (List SchemaNode × List ActiveNode)
  | [], nodes => pure (nodes, [])
  | top :: rest, nodes =>
      if level < rest.length + 1 then do
        let nodes ← closeSubtree limits nodes top.ordinal stop
        closeSubtrees limits stop level rest nodes
      else pure (nodes, top :: rest)

/-- The links of a node below the top of the path; the root has none. -/
def linkNode (ordinal : ℕ) : List ActiveNode → List SchemaNode → List SchemaNode × List ActiveNode
  | [], nodes => (nodes, [])
  | top :: rest, nodes =>
      let nodes := nodes.modify ordinal fun node => { node with parent := some top.ordinal }
      let nodes := match top.lastChild with
        | none => nodes.modify top.ordinal fun node => { node with firstChild := some ordinal }
        | some last => nodes.modify last fun node => { node with nextSibling := some ordinal }
      let nodes := nodes.modify top.ordinal fun node =>
        { node with childCount := node.childCount + 1 }
      (nodes, { top with lastChild := some ordinal } :: rest)

section

variable (limits : SchemaLimits) (mapped : Text) (endianSelector : UInt8)
  (nodesSource : PrefixSpan)

/-- One round of `compile_nodes`. -/
def compileNode (ordinal : ℕ) (table : NodeTable) :
    Call SchemaReject SchemaCompile NodeTable := do
  let offset := nodesSource.offset + ordinal * nodeBytes
  chargeSchema limits (nodeBytes + 1) .nodeRecord (some ordinal) .file offset
  let node := decodeSchemaNode mapped endianSelector nodesSource ordinal
  let level := node.level.toNat
  Call.require (¬ ((ordinal = 0 ∧ level ≠ 0) ∨
      (ordinal ≠ 0 ∧ (level = 0 ∨ table.active.length < level))))
    ⟨.malformedHierarchy, .none, .level, some ordinal, .file, offset + 2⟩
  Call.require (level ≤ limits.maxDepth)
    ⟨.limitExceeded, .depth, .level, some ordinal, .file, offset + 2⟩
  let (nodes, active) ← closeSubtrees limits ordinal level table.active (table.nodes ++ [node])
  let (nodes, active) := linkNode ordinal active nodes
  return {
    nodes
    requests := table.requests ++ nodeRequests node
    active := ⟨ordinal, none⟩ :: active
    maximumDepth := max table.maximumDepth level }

/-- The rounds from an ordinal on. -/
def compileNodesFrom : ℕ → ℕ → NodeTable → Call SchemaReject SchemaCompile NodeTable
  | _, 0, table => pure table
  | ordinal, count + 1, table => do
      let table ← compileNode limits mapped endianSelector nodesSource ordinal table
      compileNodesFrom (ordinal + 1) count table

def compileNodes (count : ℕ) : Call SchemaReject SchemaCompile NodeTable := do
  let table ← compileNodesFrom limits mapped endianSelector nodesSource 0 count .empty
  let (nodes, active) ← closeSubtrees limits count 0 table.active table.nodes
  return { table with nodes, active }

end

/-! ## Names -/

def NameRequest.bucket (request : NameRequest) (pass : ℕ) : ℕ :=
  ((request.encodedOffset >>> (pass * 8).toUInt32) &&& 0xff).toNat

section

variable (limits : SchemaLimits)

def countRequests (pass : ℕ) : List NameRequest → List ℕ →
    Call SchemaReject SchemaCompile (List ℕ)
  | [], offsets => pure offsets
  | request :: source, offsets => do
      chargeSchemaOwner limits 1
      countRequests pass source (offsets.modify (request.bucket pass) (· + 1))

def scatterRequests (pass : ℕ) : List NameRequest → List ℕ → List NameRequest →
    Call SchemaReject SchemaCompile (List NameRequest)
  | [], _, destination => pure destination
  | request :: source, offsets, destination => do
      chargeSchemaOwner limits 1
      scatterRequests pass source (offsets.modify (request.bucket pass) (· + 1))
        (destination.set (offsets.getD (request.bucket pass) 0) request)

/-- One pass of the radix sort. -/
def sortPass (pass : ℕ) (source destination : List NameRequest) :
    Call SchemaReject SchemaCompile (List NameRequest) := do
  chargeSchemaOwner limits (2 * radixBuckets)
  let counts ← countRequests limits pass source (List.replicate radixBuckets 0)
  scatterRequests limits pass source (CountingSort.starts 0 counts) destination

/-- The passes, each from the half that the one before has filled. -/
def sortPasses : List ℕ → List NameRequest → List NameRequest →
    Call SchemaReject SchemaCompile (List NameRequest)
  | [], source, _ => pure source
  | pass :: passes, source, destination => do
      let destination ← sortPass limits pass source destination
      sortPasses passes destination source

/-- `sort_name_requests`; an even number of passes ends in the first half. -/
def sortNameRequests (requests : List NameRequest) :
    Call SchemaReject SchemaCompile (List NameRequest) :=
  sortPasses limits (List.range radixPasses) requests
    (List.replicate requests.length ⟨0, 0⟩)

end

namespace NameRequest

variable (request : NameRequest)

def isCommon : Bool := request.encodedOffset &&& 0x80000000 != 0

def offset : ℕ := (request.encodedOffset &&& 0x7fffffff).toNat

def isField : Bool := request.slot % namesPerNode != 0

def field : SchemaField := if request.isField then .nameOffset else .typeOffset

def errorOffset (nodes : List SchemaNode) (space : SchemaStringSpace) : ℕ :=
  if space = .commonExact35 then request.offset
  else (nodeAt nodes (request.slot / namesPerNode)).source.offset +
    if request.isField then 8 else 4

/-- The string that the request names, in its node. -/
def store (name : SchemaString) (nodes : List SchemaNode) : List SchemaNode :=
  nodes.modify (request.slot / namesPerNode) fun node =>
    if request.isField then { node with fieldName := name } else { node with typeName := name }

end NameRequest

def schemaErrorSpace (space : SchemaStringSpace) : SchemaErrorSpace :=
  if space = .commonExact35 then .commonExact35 else .file

section

variable (limits : SchemaLimits) (space : SchemaStringSpace) (bytes : Text) (origin : ℕ)

def resolveRequest (start stop : ℕ) (terminated : Bool) (request : NameRequest)
    (nodes : List SchemaNode) : Call SchemaReject SchemaCompile (List SchemaNode) := do
  let ordinal := request.slot / namesPerNode
  let errorSpace := schemaErrorSpace space
  let errorOffset := request.errorOffset nodes space
  chargeSchema limits 1 request.field (some ordinal) errorSpace errorOffset
  Call.require (request.offset = start)
    ⟨.invalidStringOffset, .none, request.field, some ordinal, errorSpace, errorOffset⟩
  Call.require (terminated = true)
    ⟨.unterminatedString, .none, .stringTerminator, some ordinal, errorSpace, origin + stop⟩
  return request.store
    ⟨space, request.encodedOffset, (bytes.drop start).take (stop - start - 1), origin + start⟩ nodes

/-- The requests of a segment, up to the first one of another. -/
def resolveSegment (start stop : ℕ) (terminated : Bool) :
    List NameRequest → List SchemaNode →
      Call SchemaReject SchemaCompile (List SchemaNode × List NameRequest)
  | [], nodes => pure (nodes, [])
  | request :: rest, nodes =>
      if request.isCommon ≠ (space == .commonExact35) ∨ stop ≤ request.offset then
        pure (nodes, request :: rest)
      else do
        let nodes ← resolveRequest limits space bytes origin start stop terminated request nodes
        resolveSegment start stop terminated rest nodes

/-- The table from a cursor on; a segment ends behind a terminator, and at the
end of the table. -/
def resolveCursor : ℕ → ℕ → Text → List NameRequest → List SchemaNode →
    Call SchemaReject SchemaCompile (List SchemaNode × List NameRequest)
  | _, _, [], requests, nodes => pure (nodes, requests)
  | start, cursor, byte :: rest, requests, nodes => do
      chargeSchema limits 1 .stringTerminator none (schemaErrorSpace space) (origin + cursor)
      if byte ≠ 0 ∧ rest ≠ [] then resolveCursor start (cursor + 1) rest requests nodes
      else do
        let (nodes, requests) ← resolveSegment limits space bytes origin start (cursor + 1)
          (byte == 0) requests nodes
        resolveCursor (cursor + 1) (cursor + 1) rest requests nodes

/-- `resolve_table`: a request of its space that is left over is behind its end. -/
def resolveTable (requests : List NameRequest) (nodes : List SchemaNode) :
    Call SchemaReject SchemaCompile (List SchemaNode × List NameRequest) := do
  let (nodes, requests) ← resolveCursor limits space bytes origin 0 0 bytes requests nodes
  match requests with
  | [] => return (nodes, [])
  | request :: rest =>
      if request.isCommon = (space == .commonExact35) then do
        let ordinal := request.slot / namesPerNode
        let errorOffset := request.errorOffset nodes space
        chargeSchema limits 1 request.field (some ordinal) (schemaErrorSpace space) errorOffset
        Call.fail ⟨.invalidStringOffset, .none, request.field, some ordinal,
          schemaErrorSpace space, errorOffset⟩
      else return (nodes, request :: rest)

end

/-- `resolve_names`; each request belongs to one of the tables. -/
def resolveNames (limits : SchemaLimits) (mapped : Text) (stringsSource : PrefixSpan)
    (requests : List NameRequest) (nodes : List SchemaNode) :
    Call SchemaReject SchemaCompile (List SchemaNode) := do
  let (nodes, requests) ← resolveTable limits .local (stringsSource.bytes mapped)
    stringsSource.offset requests nodes
  let (nodes, requests) ← resolveTable limits .commonExact35 commonStringTable 0 requests nodes
  Call.require (requests = []) (rejectSchemaOwner .ok .none)
  return nodes

/-! ## The construction -/

/-- `create_schema` after its argument checks. -/
def createSchema (mapped : Text) (parent : SchemaParent) (ordinal : ℕ) (limits : SchemaLimits) :
    Call SchemaReject SchemaCompile SerializedFileSchema := do
  Call.require (parent.stop ≤ sizeMax) (rejectSchemaOwner .invalidState .none)
  chargeSchemaOwner limits 1
  let view ← selectSchemaRow parent ordinal
  admitTree limits parent.stop view.tree
  let (retainedBytes, scratchBytes) ← planSchemaStorage limits view.nodeCount
  chargeSchemaOwner limits retainedBytes
  Call.request (rejectSchemaOwner .allocationFailed .none)
  Call.modify fun compile => { compile with peakRetainedBytes := retainedBytes }
  chargeSchemaOwner limits scratchBytes
  Call.request (rejectSchemaOwner .allocationFailed .none)
  Call.modify fun compile => { compile with peakScratchBytes := scratchBytes }
  let table ← compileNodes limits mapped view.prefixView.header.endianSelector
    view.tree.nodesSource view.nodeCount
  let requests ← sortNameRequests limits table.requests
  let nodes ← resolveNames limits mapped view.tree.stringsSource requests table.nodes
  chargeSchemaOwner limits 1
  return { view := { view with maximumDepth := table.maximumDepth, retainedBytes }, nodes }

def schemaResult (reject : SchemaReject) (compile : SchemaCompile) : SchemaResult where
  status := reject.status
  limit := reject.limit
  field := reject.field
  errorSpace := reject.errorSpace
  typeOrdinal := compile.typeOrdinal
  nodeOrdinal := reject.nodeOrdinal
  errorOffset := reject.errorOffset
  workUsed := compile.workUsed
  requiredRetainedBytes := compile.requiredRetainedBytes
  requiredScratchBytes := compile.requiredScratchBytes
  peakRetainedBytes := compile.peakRetainedBytes
  peakScratchBytes := compile.peakScratchBytes

def serializedFileSchemaCreate {σ : Type} (mapped : Text) (parent : SchemaParent) (ordinal : ℕ)
    (limits : SchemaLimits) : Call SchemaResult σ (SerializedFileSchema × SchemaResult) := do
  let (schema, compile) ← Call.enclosed {} (createSchema mapped parent ordinal limits) schemaResult
  return (schema, schemaResult (rejectSchemaOwner .ok .none) compile)

def serializedFileSchemaCreateOrdinary {σ : Type} (mapped : Text)
    (directory : SerializedFileDirectory) (ordinaryTypeOrdinal : ℕ) (limits : SchemaLimits) :
    Call SchemaResult σ (SerializedFileSchema × SchemaResult) :=
  serializedFileSchemaCreate mapped (.directory directory) ordinaryTypeOrdinal limits

def serializedFileSchemaCreateReference {σ : Type} (mapped : Text)
    (tail : SerializedFileMetadataTail) (referenceTypeOrdinal : ℕ) (limits : SchemaLimits) :
    Call SchemaResult σ (SerializedFileSchema × SchemaResult) :=
  serializedFileSchemaCreate mapped (.tail tail) referenceTypeOrdinal limits

/-- `serialized_file_schema_node`. -/
def SerializedFileSchema.node (schema : SerializedFileSchema) (nodeOrdinal : ℕ) :
    Option SchemaNode :=
  if nodeOrdinal < schema.view.nodeCount then schema.nodes[nodeOrdinal]? else none

end UnityCommon.Metadata
