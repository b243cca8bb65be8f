import UnityCommon.Lib.Triple
import UnityCommon.SerializedFile.SchemaContext

/-!
# Managed profiles

`io/serialized_file_managed_profile_internal.c`: the shape that a schema must
have so that its payload can be read as a managed object. Every node is
compared with the profile of its ordinal, the registry at the end included.
-/

namespace UnityCommon.Metadata

inductive ManagedValuesStatus where
  | ok
  | invalidArgument
  | invalidState
  | sourceMismatch
  | unsupportedEngine
  | unsupportedEndian
  | noEmbeddedSchema
  | unsupportedSchema
  | unsupportedObjectAlignment
  | unsupportedObjectSize
  | incompleteMapping
  | schemaRejected
  | contextRejected
  | indexRejected
  | queryRejected
  | emptyReferenceIndex
  | unsupportedRegistryVersion
  | unsupportedCount
  | unsupportedStringLength
  | unsupportedTerminator
  | unsupportedNullRow
  | referenceTypeMissing
  | referenceTypeAmbiguous
  | truncatedObject
  | trailingObjectBytes
  | limitExceeded
  | allocationFailed
  | internalError
deriving DecidableEq, Repr

inductive ManagedValuesField where
  | none
  | object
  | type
  | schemaNode
  | typeName
  | fieldName
  | scalar
  | stringLength
  | stringBytes
  | padding
  | registryVersion
  | registryCount
  | arrayCount
  | referenceIdentity
  | ridResolution
  | objectEnd
deriving DecidableEq, Repr

inductive ManagedProfileKind where
  | host
  | text
  | float
deriving DecidableEq, Repr

structure ManagedProfile where
  kind : ManagedProfileKind
  registryOrdinal : ℕ
deriving DecidableEq, Repr

/-- The arguments of `reject_profile`. -/
structure ManagedProfileReject where
  status : ManagedValuesStatus
  field : ManagedValuesField
  nodeOrdinal : Option ℕ
  errorOffset : ℕ
deriving DecidableEq, Repr

structure ManagedProfileResult where
  status : ManagedValuesStatus
  field : ManagedValuesField
  typeOrdinal : Option ℕ
  nodeOrdinal : Option ℕ
  errorOffset : ℕ
  workUsed : ℕ
deriving DecidableEq, Repr

/-- What `ProfileQualification` counts while it runs. -/
structure ProfileQualification where
  typeOrdinal : Option ℕ := none
  workUsed : ℕ := 0
deriving DecidableEq, Repr

def managedHostClass : UInt32 := 114
def registryNodeCount : ℕ := 21
def hostRegistryNode : ℕ := 25
def textRegistryNode : ℕ := 8
def floatRegistryNode : ℕ := 5
def typeNameOffset : ℕ := 4
def fieldNameOffset : ℕ := 8
def typeHashBytes : ℕ := 16

/-! ## The tables -/

/-- A name without a text is authored, and any is accepted. -/
structure ManagedNodeProfile where
  typeName : Option Text
  fieldName : Option Text
  level : UInt8
  flags : UInt8
  byteSize : UInt32
  metaFlags : UInt32
deriving DecidableEq, Repr

def named (name : String) : Option Text := some (ascii name)

def authored : Option Text := none

/-- `UINT32_MAX`, the size of a node whose payload has no fixed one. -/
def noSize : UInt32 := 0xffffffff

def managedHostPrefix : List ManagedNodeProfile :=
  [⟨named "MonoBehaviour", named "Base", 0, 0, noSize, 0x8000⟩,
    ⟨named "PPtr<GameObject>", named "m_GameObject", 1, 0, 12, 0x41⟩,
    ⟨named "int", named "m_FileID", 2, 0, 4, 0x41⟩,
    ⟨named "SInt64", named "m_PathID", 2, 0, 8, 0x41⟩,
    ⟨named "UInt8", named "m_Enabled", 1, 0, 1, 0x4101⟩,
    ⟨named "PPtr<MonoScript>", named "m_Script", 1, 0, 12, 0x0⟩,
    ⟨named "int", named "m_FileID", 2, 0, 4, 0x800001⟩,
    ⟨named "SInt64", named "m_PathID", 2, 0, 8, 0x800001⟩,
    ⟨named "string", named "m_Name", 1, 0, noSize, 0x88001⟩,
    ⟨named "Array", named "Array", 2, 1, noSize, 0x84001⟩,
    ⟨named "int", named "size", 3, 0, 4, 0x80001⟩,
    ⟨named "char", named "data", 3, 0, 1, 0x80001⟩,
    ⟨named "string", authored, 1, 0, noSize, 0x8000⟩,
    ⟨named "Array", named "Array", 2, 1, noSize, 0x4001⟩,
    ⟨named "int", named "size", 3, 0, 4, 0x1⟩,
    ⟨named "char", named "data", 3, 0, 1, 0x1⟩,
    ⟨named "managedReference", authored, 1, 2, 8, 0x0⟩,
    ⟨named "SInt64", named "rid", 2, 0, 8, 0x0⟩,
    ⟨named "managedReference", authored, 1, 2, 8, 0x0⟩,
    ⟨named "SInt64", named "rid", 2, 0, 8, 0x0⟩,
    ⟨named "Object", authored, 1, 8, noSize, 0x0⟩,
    ⟨named "Array", named "Array", 2, 1, noSize, 0x0⟩,
    ⟨named "int", named "size", 3, 0, 4, 0x0⟩,
    ⟨named "managedRefArrayItem", named "data", 3, 2, 8, 0x0⟩,
    ⟨named "SInt64", named "rid", 4, 0, 8, 0x0⟩]

def managedTextPrefix : List ManagedNodeProfile :=
  [⟨authored, named "Base", 0, 0, noSize, 0x8000⟩,
    ⟨named "int", authored, 1, 0, 4, 0x0⟩,
    ⟨named "string", authored, 1, 0, noSize, 0x8000⟩,
    ⟨named "Array", named "Array", 2, 1, noSize, 0x4001⟩,
    ⟨named "int", named "size", 3, 0, 4, 0x1⟩,
    ⟨named "char", named "data", 3, 0, 1, 0x1⟩,
    ⟨named "managedReference", authored, 1, 2, 8, 0x0⟩,
    ⟨named "SInt64", named "rid", 2, 0, 8, 0x0⟩]

def managedFloatPrefix : List ManagedNodeProfile :=
  [⟨authored, named "Base", 0, 0, noSize, 0x8000⟩,
    ⟨named "int", authored, 1, 0, 4, 0x0⟩,
    ⟨named "float", authored, 1, 0, 4, 0x0⟩,
    ⟨named "managedReference", authored, 1, 2, 8, 0x0⟩,
    ⟨named "SInt64", named "rid", 2, 0, 8, 0x0⟩]

def managedRegistrySuffix : List ManagedNodeProfile :=
  [⟨named "ManagedReferencesRegistry", named "references", 1, 4, noSize, 0x8001⟩,
    ⟨named "int", named "version", 2, 0, 4, 0x1⟩,
    ⟨named "vector", named "RefIds", 2, 0, noSize, 0x8001⟩,
    ⟨named "Array", named "Array", 3, 1, noSize, 0xc001⟩,
    ⟨named "int", named "size", 4, 0, 4, 0x1⟩,
    ⟨named "ReferencedObject", named "data", 4, 0, noSize, 0x8001⟩,
    ⟨named "SInt64", named "rid", 5, 0, 8, 0x1⟩,
    ⟨named "ReferencedManagedType", named "type", 5, 0, noSize, 0x208001⟩,
    ⟨named "string", named "class", 6, 0, noSize, 0x208001⟩,
    ⟨named "Array", named "Array", 7, 1, noSize, 0x204001⟩,
    ⟨named "int", named "size", 8, 0, 4, 0x200001⟩,
    ⟨named "char", named "data", 8, 0, 1, 0x200001⟩,
    ⟨named "string", named "ns", 6, 0, noSize, 0x208001⟩,
    ⟨named "Array", named "Array", 7, 1, noSize, 0x204001⟩,
    ⟨named "int", named "size", 8, 0, 4, 0x200001⟩,
    ⟨named "char", named "data", 8, 0, 1, 0x200001⟩,
    ⟨named "string", named "asm", 6, 0, noSize, 0x208001⟩,
    ⟨named "Array", named "Array", 7, 1, noSize, 0x204001⟩,
    ⟨named "int", named "size", 8, 0, 4, 0x200001⟩,
    ⟨named "char", named "data", 8, 0, 1, 0x200001⟩,
    ⟨named "ReferencedObjectData", named "data", 5, 0, 0, 0x1⟩]

def profilePrefix : ManagedProfileKind → List ManagedNodeProfile
  | .host => managedHostPrefix
  | .text => managedTextPrefix
  | .float => managedFloatPrefix

def managedHostProfile : ManagedProfile := ⟨.host, hostRegistryNode⟩
def managedTextProfile : ManagedProfile := ⟨.text, textRegistryNode⟩
def managedFloatProfile : ManagedProfile := ⟨.float, floatRegistryNode⟩

/-- The profiles of all nodes. -/
def ManagedProfile.nodes (profile : ManagedProfile) : List ManagedNodeProfile :=
  profilePrefix profile.kind ++ managedRegistrySuffix

/-! ## Qualification -/

section Qualify

variable (maxWork : ℕ)

def chargeProfile (field : ManagedValuesField) (node : Option ℕ) (offset : ℕ) :
    Call ManagedProfileReject ProfileQualification Unit := do
  let qualification ← Call.current
  Call.require (qualification.workUsed ≠ maxWork) ⟨.limitExceeded, field, node, offset⟩
  Call.replace { qualification with workUsed := qualification.workUsed + 1 }

def SchemaContextKind.requiredClass : SchemaContextKind → UInt32
  | .ordinaryObject => managedHostClass
  | .selectedReferencePayload => 0xffffffff

def SchemaView.rowQualifies (view : SchemaView) (kind : SchemaContextKind) : Prop :=
  view.rowKind = kind.requiredRow ∧ view.classIdBits = kind.requiredClass ∧
    view.strippedRaw = 0 ∧ view.scriptIndexBits.toNat ≤ 32767 ∧ view.hasScriptHash = true ∧
    view.scriptHashSource.elim 0 (·.size) = typeHashBytes ∧
    view.typeHashSource.size = typeHashBytes

instance (view : SchemaView) (kind : SchemaContextKind) : Decidable (view.rowQualifies kind) := by
  unfold SchemaView.rowQualifies
  infer_instance

/-- The profile with a kind's count of nodes. -/
def profileOfCount : SchemaContextKind → ℕ → Option ManagedProfile
  | .ordinaryObject, count =>
      if count = hostRegistryNode + registryNodeCount then some managedHostProfile else none
  | .selectedReferencePayload, count =>
      if count = textRegistryNode + registryNodeCount then some managedTextProfile
      else if count = floatRegistryNode + registryNodeCount then some managedFloatProfile
      else none

def selectProfile (view : SchemaView) (kind : SchemaContextKind) :
    Call ManagedProfileReject ProfileQualification ManagedProfile := do
  Call.require (view.rowQualifies kind)
    ⟨.unsupportedSchema, .type, none, view.typeEntrySource.offset⟩
  Call.ofOption ⟨.unsupportedSchema, .schemaNode, none, view.tree.nodeCountSource.offset⟩
    (profileOfCount kind view.nodeCount)

/-- Each byte is paid for before it is compared. -/
def compareName (field : ManagedValuesField) (node offset : ℕ) :
    Text → Text → Call ManagedProfileReject ProfileQualification Unit
  | byte :: expected, actualByte :: actual => do
      chargeProfile maxWork field (some node) offset
      Call.require (actualByte = byte) ⟨.unsupportedSchema, field, some node, offset⟩
      compareName field node offset expected actual
  | _, _ => pure ()

def qualifyName (actual : SchemaString) (expected : Option Text) (field : ManagedValuesField)
    (node offset : ℕ) : Call ManagedProfileReject ProfileQualification Unit := do
  chargeProfile maxWork field (some node) offset
  match expected with
  | none => pure ()
  | some expected => do
      Call.require (actual.bytes.length = expected.length)
        ⟨.unsupportedSchema, field, some node, offset⟩
      compareName maxWork field node offset expected actual.bytes

def qualifyNode (node : SchemaNode) (expected : ManagedNodeProfile) :
    Call ManagedProfileReject ProfileQualification Unit := do
  chargeProfile maxWork .schemaNode (some node.ordinal) node.source.offset
  Call.require (node.version = 1 ∧ node.level = expected.level ∧
      node.typeFlags = expected.flags ∧ node.byteSizeBits = expected.byteSize ∧
      node.indexBits.toNat = node.ordinal ∧ node.metaFlags = expected.metaFlags ∧
      node.opaqueTail = List.replicate 8 0)
    ⟨.unsupportedSchema, .schemaNode, some node.ordinal, node.source.offset⟩
  qualifyName maxWork node.typeName expected.typeName .typeName node.ordinal
    (node.source.offset + typeNameOffset)
  qualifyName maxWork node.fieldName expected.fieldName .fieldName node.ordinal
    (node.source.offset + fieldNameOffset)

/-- The nodes from an ordinal on with their profiles. -/
def qualifyNodes (schema : SerializedFileSchema) :
    ℕ → List ManagedNodeProfile → Call ManagedProfileReject ProfileQualification Unit
  | _, [] => pure ()
  | ordinal, expected :: rest => do
      qualifyNode maxWork ((schema.node ordinal).getD SchemaNode.zeroed) expected
      qualifyNodes schema (ordinal + 1) rest

def qualifyProfile (schema : SerializedFileSchema) (kind : SchemaContextKind) :
    Call ManagedProfileReject ProfileQualification ManagedProfile := do
  let view := schema.view
  Call.modify fun qualification => { qualification with typeOrdinal := some view.typeOrdinal }
  Call.require (view.engineVersion = .engine2021_3_35f1) ⟨.unsupportedEngine, .none, none, noOffset⟩
  Call.require (view.prefixView.header.endianSelector = 0)
    ⟨.unsupportedEndian, .none, none, noOffset⟩
  let profile ← selectProfile view kind
  qualifyNodes maxWork schema 0 profile.nodes
  return profile

end Qualify

def managedProfileResult (reject : ManagedProfileReject) (qualification : ProfileQualification) :
    ManagedProfileResult where
  status := reject.status
  field := reject.field
  typeOrdinal := qualification.typeOrdinal
  nodeOrdinal := reject.nodeOrdinal
  errorOffset := reject.errorOffset
  workUsed := qualification.workUsed

def serializedFileManagedProfileQualify {σ : Type} (schema : SerializedFileSchema)
    (kind : SchemaContextKind) (maxWork : ℕ) :
    Call ManagedProfileResult σ (ManagedProfile × ManagedProfileResult) := do
  let (profile, qualification) ← Call.enclosed {} (qualifyProfile maxWork schema kind)
    managedProfileResult
  return (profile, managedProfileResult ⟨.ok, .none, none, noOffset⟩ qualification)

/-! ## Qualified schemas -/

/-- The node is the one that the profile tells, the names included. -/
structure ManagedNodeProfile.Fits (expected : ManagedNodeProfile) (node : SchemaNode) : Prop where
  level : node.level = expected.level
  typeFlags : node.typeFlags = expected.flags
  byteSize : node.byteSizeBits = expected.byteSize
  metaFlags : node.metaFlags = expected.metaFlags
  typeName : ∀ name ∈ expected.typeName, node.typeName.bytes = name
  fieldName : ∀ name ∈ expected.fieldName, node.fieldName.bytes = name

/-- The profile is one of the kind, and every node is the one that it tells. -/
structure SerializedFileSchema.Qualified (kind : SchemaContextKind) (profile : ManagedProfile)
    (schema : SerializedFileSchema) : Prop where
  count : profileOfCount kind schema.view.nodeCount = some profile
  nodes : ∀ (i : ℕ) (expected : ManagedNodeProfile), profile.nodes[i]? = some expected →
    expected.Fits ((schema.node i).getD .zeroed)

section Qualified

open Call (Triple)

variable {answers : ℕ → Bool} {maxWork : ℕ}

theorem triple_compareName (field : ManagedValuesField) (node offset : ℕ) {expected actual : Text}
    (hlength : actual.length = expected.length) :
    Triple answers (fun _ => True) (compareName maxWork field node offset expected actual)
      (fun _ _ => actual = expected) fun _ _ => True := by
  induction expected generalizing actual with
  | nil => exact Triple.pure fun _ _ => List.length_eq_zero_iff.mp hlength
  | cons byte expected ih =>
      cases actual with
      | nil => cases hlength
      | cons actualByte actual =>
          refine Triple.bind Triple.anything fun _ => Triple.each fun _ _ => ?_
          refine Triple.requiring (fun _ => trivial) fun hbyte => ?_
          refine (ih (Nat.succ_inj.mp hlength)).consequence (fun _ _ => trivial) ?_ fun _ _ h => h
          rintro _ _ rfl
          rw [hbyte]

theorem triple_qualifyName (actual : SchemaString) (expected : Option Text)
    (field : ManagedValuesField) (node offset : ℕ) :
    Triple answers (fun _ => True) (qualifyName maxWork actual expected field node offset)
      (fun _ _ => ∀ name ∈ expected, actual.bytes = name) fun _ _ => True := by
  refine Triple.bind Triple.anything fun _ => ?_
  cases expected with
  | none => exact Triple.pure fun _ _ => by simp
  | some expected =>
      refine Triple.each fun _ _ => Triple.requiring (fun _ => trivial) fun hlength => ?_
      refine (triple_compareName field node offset hlength).consequence (fun _ _ => trivial) ?_
        fun _ _ h => h
      intro _ _ heq name hname
      rw [heq, Option.mem_some_iff.mp hname]

theorem triple_qualifyNode (node : SchemaNode) (expected : ManagedNodeProfile) :
    Triple answers (fun _ => True) (qualifyNode maxWork node expected)
      (fun _ _ => expected.Fits node) fun _ _ => True := by
  refine Triple.bind Triple.anything fun _ => Triple.each fun _ _ => ?_
  refine Triple.requiring (fun _ => trivial) fun hnode => ?_
  obtain ⟨-, hlevel, hflags, hsize, -, hmeta, -⟩ := hnode
  refine Triple.bind ((triple_qualifyName node.typeName _ _ _ _).pre fun _ _ => trivial) fun _ =>
    Triple.assuming (fun _ h => h) fun htype => ?_
  refine (triple_qualifyName node.fieldName _ _ _ _).consequence (fun _ _ => trivial) ?_
    fun _ _ h => h
  exact fun _ _ hfield => ⟨hlevel, hflags, hsize, hmeta, htype, hfield⟩

theorem triple_qualifyNodes (schema : SerializedFileSchema) (ordinal : ℕ)
    (profiles : List ManagedNodeProfile) :
    Triple answers (fun _ => True) (qualifyNodes maxWork schema ordinal profiles)
      (fun _ _ => ∀ (i : ℕ) (expected : ManagedNodeProfile), profiles[i]? = some expected →
        expected.Fits ((schema.node (ordinal + i)).getD .zeroed)) fun _ _ => True := by
  induction profiles generalizing ordinal with
  | nil => exact Triple.pure fun _ _ => by simp
  | cons first rest ih =>
      refine Triple.bind (triple_qualifyNode _ _) fun _ => Triple.assuming (fun _ h => h)
        fun hfirst => (ih (ordinal + 1)).consequence (fun _ _ => trivial) ?_ fun _ _ h => h
      intro _ _ hrest i expected hexpected
      cases i with
      | zero =>
          obtain rfl : first = expected := Option.some.inj hexpected
          exact hfirst
      | succ i =>
          have hnode := hrest i expected hexpected
          rwa [Nat.add_assoc, Nat.add_comm 1 i] at hnode

/-- **A schema that qualifies has the nodes of its profile.** -/
theorem qualified_of_ok {σ : Type} {schema : SerializedFileSchema} {kind : SchemaContextKind}
    {profile : ManagedProfile} {ran : ManagedProfileResult} {s s' : σ} {n n' : ℕ}
    (h : serializedFileManagedProfileQualify schema kind maxWork answers s n =
      .ok (profile, ran) s' n') : schema.Qualified kind profile := by
  have hprofile : Triple answers (fun _ => True) (qualifyProfile maxWork schema kind)
      (fun profile _ => schema.Qualified kind profile) fun _ _ => True := by
    refine Triple.bind Triple.anything fun _ => Triple.each fun _ _ => ?_
    refine Triple.requiring (fun _ => trivial) fun _ => Triple.requiring (fun _ => trivial) fun _ => ?_
    refine Triple.bind (Q := fun profile _ => profileOfCount kind schema.view.nodeCount = some profile)
      ?_ fun profile => Triple.assuming (fun _ h => h) fun hcount => ?_
    · exact Triple.each fun _ _ => Triple.requiring (fun _ => trivial) fun _ =>
        Triple.ofOption (fun _ _ _ h => h) fun _ _ _ => trivial
    refine Triple.bind ((triple_qualifyNodes schema 0 profile.nodes).pre fun _ _ => trivial)
      fun _ => Triple.pure fun _ hnodes => ⟨hcount, fun i expected hexpected => ?_⟩
    have hnode := hnodes i expected hexpected
    rwa [Nat.zero_add] at hnode
  obtain ⟨⟨made, qualification⟩, _, _, hran, hmade⟩ := Call.bind_eq_ok.mp h
  obtain ⟨hok, -⟩ := Call.enclosed_eq_ok.mp hran
  obtain ⟨hpair, -⟩ := Call.pure_eq_ok.mp hmade
  obtain ⟨rfl, -⟩ := Prod.mk.inj hpair
  exact hprofile.of_ok trivial hok

end Qualified

end UnityCommon.Metadata
