import UnityCommon.SerializedFile.Schema

/-!
# Schema contexts and reference queries

`io/serialized_file_schema_context.c`, the walk boundaries of a compiled schema,
and the query of `io/serialized_file_reference_index.c`, the linear search of the
identities. Neither allocates; each charges its work against a bound of its own.
Overlapping arguments are not modelled.
-/

namespace UnityCommon.Metadata

/-! ## The context -/

inductive SchemaContextKind where
  | ordinaryObject
  | selectedReferencePayload
deriving DecidableEq, Repr

/-- `none` is `SIZE_MAX`. -/
structure SchemaContext where
  kind : SchemaContextKind
  engineVersion : DirectoryEngineVersion
  rowKind : SchemaRowKind
  typeOrdinal : ℕ
  headerSource : PrefixSpan
  fileSize : ℕ
  endianSelector : UInt8
  typeEntrySource : PrefixSpan
  tree : DirectoryTree
  root : ℕ
  firstChild : Option ℕ
  traversalEnd : ℕ
  registry : Option ℕ
  registryEnd : Option ℕ
  registryOmitted : Bool
deriving DecidableEq, Repr

inductive SchemaContextStatus where
  | ok
  | invalidArgument
  | invalidState
  | wrongRowKind
  | unsupportedRegistryFlags
  | unsupportedRegistryPosition
  | workLimit
deriving DecidableEq, Repr

inductive SchemaContextField where
  | none
  | typeFlags
  | level
deriving DecidableEq, Repr

structure SchemaContextReject where
  status : SchemaContextStatus
  field : SchemaContextField
  nodeOrdinal : Option ℕ
  errorOffset : ℕ
deriving DecidableEq, Repr

structure SchemaContextResult where
  status : SchemaContextStatus
  field : SchemaContextField
  typeOrdinal : Option ℕ
  nodeOrdinal : Option ℕ
  errorOffset : ℕ
  workUsed : ℕ
deriving DecidableEq, Repr

/-- What a query counts while it runs. -/
structure ContextQuery where
  typeOrdinal : Option ℕ := none
  workUsed : ℕ := 0
deriving DecidableEq, Repr

def nodeLevelOffset : ℕ := 2
def nodeFlagsOffset : ℕ := 3
def registryFlags : UInt8 := 4

def chargeContext (maxWork : ℕ) (field : SchemaContextField) (node : Option ℕ) (offset : ℕ) :
    Call SchemaContextReject ContextQuery Unit := do
  let query ← Call.current
  Call.require (query.workUsed ≠ maxWork) ⟨.workLimit, field, node, offset⟩
  Call.replace { query with workUsed := query.workUsed + 1 }

/-- Only a sole final child of the root may be a registry. -/
def inspectRegistryNode (node : SchemaNode) (nodeCount : ℕ) (context : SchemaContext) :
    Call SchemaContextReject ContextQuery SchemaContext :=
  if node.typeFlags &&& registryFlags = 0 then pure context
  else do
    Call.require (node.typeFlags = registryFlags)
      ⟨.unsupportedRegistryFlags, .typeFlags, some node.ordinal,
        node.source.offset + nodeFlagsOffset⟩
    Call.require (node.parent = some 0 ∧ node.nextSibling = none ∧ node.subtreeEnd = nodeCount ∧
        context.registry = none)
      ⟨.unsupportedRegistryPosition, .level, some node.ordinal,
        node.source.offset + nodeLevelOffset⟩
    return { context with registry := some node.ordinal, registryEnd := some node.subtreeEnd }

def SchemaContextKind.requiredRow : SchemaContextKind → SchemaRowKind
  | .ordinaryObject => .ordinaryType
  | .selectedReferencePayload => .referenceType

/-- The nodes from `ordinal` on. -/
def inspectNodes (schema : SerializedFileSchema) (maxWork : ℕ) :
    ℕ → ℕ → SchemaContext → Call SchemaContextReject ContextQuery SchemaContext
  | _, 0, context => pure context
  | ordinal, count + 1, context => do
      chargeContext maxWork .typeFlags (some ordinal)
        (schema.view.tree.nodesSource.offset + ordinal * nodeBytes + nodeFlagsOffset)
      let node := (schema.node ordinal).getD SchemaNode.zeroed
      let context := if ordinal = 0 then { context with firstChild := node.firstChild } else context
      let context ← inspectRegistryNode node schema.view.nodeCount context
      inspectNodes schema maxWork (ordinal + 1) count context

def queryContext (schema : SerializedFileSchema) (kind : SchemaContextKind) (maxWork : ℕ) :
    Call SchemaContextReject ContextQuery SchemaContext := do
  let view := schema.view
  Call.require (view.typeEntrySource.offset ≤ sizeMax ∧
      view.typeEntrySource.size ≤ sizeMax - view.typeEntrySource.offset)
    ⟨.invalidState, .none, none, noOffset⟩
  Call.modify fun query => { query with typeOrdinal := some view.typeOrdinal }
  Call.require (view.rowKind = kind.requiredRow) ⟨.wrongRowKind, .none, none, noOffset⟩
  chargeContext maxWork .none none noOffset
  let context ← inspectNodes schema maxWork 0 view.nodeCount {
    kind
    engineVersion := view.engineVersion
    rowKind := view.rowKind
    typeOrdinal := view.typeOrdinal
    headerSource := view.prefixView.header.headerSource
    fileSize := view.prefixView.header.fileSize
    endianSelector := view.prefixView.header.endianSelector
    typeEntrySource := view.typeEntrySource
    tree := view.tree
    root := 0
    firstChild := none
    traversalEnd := view.nodeCount
    registry := none
    registryEnd := none
    registryOmitted := false }
  chargeContext maxWork .none none noOffset
  match kind, context.registry with
  | .selectedReferencePayload, some registry =>
      return { context with traversalEnd := registry, registryOmitted := true }
  | _, _ => return context

def schemaContextResult (reject : SchemaContextReject) (query : ContextQuery) :
    SchemaContextResult where
  status := reject.status
  field := reject.field
  typeOrdinal := query.typeOrdinal
  nodeOrdinal := reject.nodeOrdinal
  errorOffset := reject.errorOffset
  workUsed := query.workUsed

def serializedFileSchemaContextQuery {σ : Type} (schema : SerializedFileSchema)
    (kind : SchemaContextKind) (maxWork : ℕ) :
    Call SchemaContextResult σ (SchemaContext × SchemaContextResult) := do
  let (context, query) ← Call.enclosed {} (queryContext schema kind maxWork) schemaContextResult
  return (context, schemaContextResult ⟨.ok, .none, none, noOffset⟩ query)

/-! ## The reference query -/

/-- Exact bytes, without a terminator. -/
structure ReferenceKey where
  className : Text
  namespaceName : Text
  assemblyName : Text
deriving DecidableEq, Repr

structure ReferenceQueryLimits where
  maxComponentBytes : ℕ
  maxKeyBytes : ℕ
  maxWork : ℕ
deriving DecidableEq, Repr

inductive ReferenceMatchKind where
  | missing
  | unique
  | ambiguous
deriving DecidableEq, Repr

structure ReferenceMatch where
  kind : ReferenceMatchKind
  matchCount : ℕ
  firstOrdinal : Option ℕ
  secondOrdinal : Option ℕ
deriving DecidableEq, Repr

def ReferenceMatch.missing : ReferenceMatch := ⟨.missing, 0, none, none⟩

structure ReferenceQueryReject where
  status : ReferenceIndexStatus
  limit : ReferenceIndexLimit
  component : IdentityComponent
  rowOrdinal : Option ℕ
deriving DecidableEq, Repr

structure ReferenceQueryResult where
  status : ReferenceIndexStatus
  limit : ReferenceIndexLimit
  component : IdentityComponent
  rowOrdinal : Option ℕ
  workUsed : ℕ
deriving DecidableEq, Repr

/-- The components of a row's identity, each with the key's part. -/
def identityParts (row : TailReferenceTypeRow) (key : ReferenceKey) :
    List (IdentityComponent × PrefixSpan × Text) :=
  match row.names with
  | none => []
  | some names =>
      [(.className, names.classNameSource, key.className),
        (.namespaceName, names.namespaceSource, key.namespaceName),
        (.assemblyName, names.assemblyNameSource, key.assemblyName)]

section Query

variable (mapped : Text) (limits : ReferenceQueryLimits)

/-- The state is the work used. -/
def chargeQuery (amount : ℕ) (ordinal : Option ℕ) (component : IdentityComponent) :
    Call ReferenceQueryReject ℕ Unit := do
  let workUsed ← Call.current
  Call.require (amount ≤ limits.maxWork - workUsed) ⟨.limitExceeded, .work, component, ordinal⟩
  Call.replace (workUsed + amount)

/-- `query_row`: whether all the components are equal, up to the first that is not. -/
def queryComponents (ordinal : ℕ) :
    List (IdentityComponent × PrefixSpan × Text) → Call ReferenceQueryReject ℕ Bool
  | [] => pure true
  | (component, name, part) :: rest => do
      chargeQuery limits 1 (some ordinal) component
      let length := name.size - 1
      if length ≠ part.length then pure false
      else if length = 0 then queryComponents ordinal rest
      else do
        chargeQuery limits length (some ordinal) component
        if (name.bytes mapped).take length ≠ part then pure false
        else queryComponents ordinal rest

def ReferenceMatch.add (found : ReferenceMatch) (ordinal : ℕ) : ReferenceMatch :=
  match found.matchCount with
  | 0 => { found with firstOrdinal := some ordinal, kind := .unique, matchCount := 1 }
  | 1 => { found with secondOrdinal := some ordinal, kind := .ambiguous, matchCount := 2 }
  | count => { found with matchCount := count + 1 }

def queryRows (key : ReferenceKey) :
    List TailReferenceTypeRow → ℕ → ReferenceMatch → Call ReferenceQueryReject ℕ ReferenceMatch
  | [], _, found => pure found
  | row :: rows, ordinal, found => do
      chargeQuery limits 1 (some ordinal) .none
      let equal ← queryComponents mapped limits row.ordinal (identityParts row key)
      queryRows key rows (ordinal + 1) (if equal then found.add ordinal else found)

/-- The bytes of a key, one component after the other. -/
def admitKey : List (IdentityComponent × Text) → ℕ → Call ReferenceQueryReject ℕ Unit
  | [], _ => pure ()
  | (component, part) :: rest, keySize => do
      Call.require (part.length ≤ limits.maxComponentBytes)
        ⟨.limitExceeded, .componentBytes, component, none⟩
      Call.require (part.length ≤ limits.maxKeyBytes - keySize)
        ⟨.limitExceeded, .keyBytes, component, none⟩
      admitKey rest (keySize + part.length)

def queryIndex (index : SerializedFileReferenceIndex) (key : ReferenceKey) :
    Call ReferenceQueryReject ℕ ReferenceMatch := do
  chargeQuery limits 1 none .none
  admitKey limits [(.className, key.className), (.namespaceName, key.namespaceName),
    (.assemblyName, key.assemblyName)] 0
  let found ← queryRows mapped limits key (index.rows.take index.view.referenceTypeCount) 0
    ReferenceMatch.missing
  chargeQuery limits 1 none .none
  return found

end Query

def referenceQueryResult (reject : ReferenceQueryReject) (workUsed : ℕ) : ReferenceQueryResult where
  status := reject.status
  limit := reject.limit
  component := reject.component
  rowOrdinal := reject.rowOrdinal
  workUsed := workUsed

def serializedFileReferenceIndexQuery {σ : Type} (mapped : Text)
    (index : SerializedFileReferenceIndex) (key : ReferenceKey) (limits : ReferenceQueryLimits) :
    Call ReferenceQueryResult σ (ReferenceMatch × ReferenceQueryResult) := do
  let (found, workUsed) ← Call.enclosed 0 (queryIndex mapped limits index key)
    referenceQueryResult
  return (found, referenceQueryResult ⟨.ok, .none, .none, none⟩ workUsed)

end UnityCommon.Metadata
