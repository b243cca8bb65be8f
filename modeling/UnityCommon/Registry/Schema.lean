import UnityCommon.Lib.Call
import UnityCommon.Registry.Key
import UnityCommon.Registry.Profile
import UnityCommon.TypeTree.Validate

/-!
# Schemas in the registry

What a schema must satisfy to be learned under a key, its deep copy and the
comparison of two schemas. Every refusal of `validate_schema` after the key is
`TYPETREE_SCHEMA_INVALID_SCHEMA`.
-/

namespace UnityCommon.Registry

open UnityCommon.TypeTree

/-- `SCHEMA_REGISTRY_MAX_NODES`. -/
def maxNodes : ℕ := 1048576

/-- `SCHEMA_REGISTRY_MAX_STRING_BUFFER`. -/
def maxStringBuffer : ℕ := 256 * 1024 * 1024

/-- `SCHEMA_REGISTRY_MAX_DEPENDENCIES`. -/
def maxDependencies : ℕ := 1048576

/-- `SCHEMA_REGISTRY_MAX_REF_STRING_SIZE`. -/
def maxRefStringSize : ℕ := 1048576

/-- `bounded_string_size` succeeds. -/
def boundedString (value : Option CString) (limit : ℕ) : Bool :=
  value.any fun text => text.bytes.length ≤ limit

def schemaMatchesKey (key : TypeTreeSchemaKey) (schema : TypeTreeType) : Bool :=
  schema.typeId == key.serializedTypeId && schema.scriptTypeIndex == key.scriptTypeIndex &&
    schema.isStripped == key.isStripped && schema.isRefType == key.isRefType &&
    schema.typeHash == key.typeHash && schema.scriptIdHash == key.scriptIdHash

def schemaWithinLimits (key : TypeTreeSchemaKey) (schema : TypeTreeType) : Bool :=
  schema.nodes != [] && schema.nodes.length ≤ maxNodes &&
    schema.stringBuffer.length ≤ maxStringBuffer &&
    schema.dependencies.length ≤ maxDependencies &&
    !((key.serializedFileVersion < 21 || schema.isRefType) && schema.dependencies != [])

def referenceNamesValid (schema : TypeTreeType) : Bool :=
  if schema.isRefType then
    boundedString schema.refClassName maxRefStringSize &&
      boundedString schema.refNamespace maxRefStringSize &&
      boundedString schema.refAsmName maxRefStringSize
  else
    schema.refClassName == none && schema.refNamespace == none && schema.refAsmName == none

variable (sha256 : Text → Sha256Digest)

/-- The tests of `validate_schema` after the key's. -/
def schemaAdmitted (key : TypeTreeSchemaKey) (schema : TypeTreeType) : Bool :=
  schemaMatchesKey key schema && schemaWithinLimits key schema && referenceNamesValid schema &&
    typetreeValidateSchema schema && schema.nodes.all (nodeBound schema.stringBuffer) &&
    typetreeSchemaValidateKnownProfile sha256 key.unityVersion key.classId key.typeHash schema
      != .invalid

/-- Returns the key and the schema, no longer pointers that may be NULL. -/
def validateSchema (key : Option TypeTreeSchemaKey) (schema : Option TypeTreeType) :
    Except TypeTreeSchemaStatus (TypeTreeSchemaKey × TypeTreeType) :=
  match validateKey key with
  | .error status => .error status
  | .ok key =>
      match schema with
      | none => .error .invalidSchema
      | some schema =>
          if schemaAdmitted sha256 key schema then .ok (key, schema) else .error .invalidSchema

/-! ## Copies -/

/-- `owned_key_copy` on a key already validated: one allocation for the version. -/
def ownedKeyCopy {σ : Type} (source : TypeTreeSchemaKey) :
    Call TypeTreeSchemaStatus σ TypeTreeSchemaKey := do
  let key ← Call.ofExcept (validateKey (some source))
  Call.request .allocationFailed
  return key

def cloneString {σ : Type} (source : Option CString) (limit : ℕ) :
    Call TypeTreeSchemaStatus σ (Option CString) := do
  Call.require (boundedString source limit) .invalidSchema
  Call.request .allocationFailed
  return source

def cloneReferenceNames {σ : Type} (source destination : TypeTreeType) :
    Call TypeTreeSchemaStatus σ TypeTreeType :=
  if source.isRefType then do
    let refClassName ← cloneString source.refClassName maxRefStringSize
    let refNamespace ← cloneString source.refNamespace maxRefStringSize
    let refAsmName ← cloneString source.refAsmName maxRefStringSize
    return { destination with refClassName, refNamespace, refAsmName }
  else pure { destination with refClassName := none, refNamespace := none, refAsmName := none }

/-- An allocation made only for a table that is not empty. -/
def requestFor {σ α : Type} (table : List α) : Call TypeTreeSchemaStatus σ Unit :=
  if table = [] then pure () else Call.request .allocationFailed

def boundOr {σ : Type} (status : TypeTreeSchemaStatus) (type : TypeTreeType) :
    Call TypeTreeSchemaStatus σ TypeTreeType :=
  match typetreeBindNodeStrings type with
  | none => Call.fail status
  | some bound => pure bound

/-- `clone_schema`. The node strings are bound again, to the copied table. -/
def cloneSchema {σ : Type} (source : TypeTreeType) :
    Call TypeTreeSchemaStatus σ TypeTreeType := do
  -- the allocation wrappers return NULL for a size of zero
  Call.require (source.nodes ≠ []) .allocationFailed
  Call.request .allocationFailed
  requestFor source.stringBuffer
  let destination ← boundOr .invalidSchema source
  requestFor source.dependencies
  cloneReferenceNames source destination

/-! ## Equality -/

/-- `schemas_equal`; its `nodes_equal` compares every field, the names by `strcmp`. -/
def schemasEqual (left right : TypeTreeType) : Bool :=
  left.typeId == right.typeId && left.isStripped == right.isStripped &&
    left.scriptTypeIndex == right.scriptTypeIndex && left.scriptIdHash == right.scriptIdHash &&
    left.typeHash == right.typeHash && left.isRefType == right.isRefType &&
    left.nodes == right.nodes && left.stringBuffer == right.stringBuffer &&
    left.dependencies == right.dependencies &&
    (!left.isRefType || left.refClassName == right.refClassName &&
      left.refNamespace == right.refNamespace && left.refAsmName == right.refAsmName)

/-! ## Valid entries -/

section

variable {sha256}
variable {key : TypeTreeSchemaKey} {schema other : TypeTreeType}

/-- The schema passes `validate_schema` under the key. -/
def ValidEntry (sha256 : Text → Sha256Digest) (key : TypeTreeSchemaKey)
    (schema : TypeTreeType) : Prop :=
  validateSchema sha256 (some key) (some schema) = .ok (key, schema)

theorem validateKey_eq_ok_iff {key? : Option TypeTreeSchemaKey} :
    validateKey key? = .ok key ↔ key? = some key ∧ key.unityVersion ≠ [] ∧
      key.unityVersion.length ≤ maxUnityVersionSize ∧ (0 : UInt8) ∉ key.unityVersion ∧
      (key.hasScriptIdHash = false → bytesAreZero key.scriptIdHash.bytes = true) := by
  unfold validateKey
  cases key? with
  | none => simp
  | some k =>
      simp only [Option.some.injEq]
      constructor
      · intro h
        split_ifs at h with h₁ h₂ h₃ h₄
        cases h
        refine ⟨rfl, h₁, by omega, h₃, ?_⟩
        simpa using h₄
      · rintro ⟨rfl, h₁, h₂, h₃, h₄⟩
        have h₄' : ¬ (!k.hasScriptIdHash && !bytesAreZero k.scriptIdHash.bytes) = true := by
          simpa using h₄
        rw [if_neg h₁, if_neg (by omega), if_neg h₃, if_neg h₄']

theorem validateSchema_eq_ok_iff {key? : Option TypeTreeSchemaKey}
    {schema? : Option TypeTreeType} {admitted : TypeTreeSchemaKey × TypeTreeType} :
    validateSchema sha256 key? schema? = .ok admitted ↔
      key? = some admitted.1 ∧ schema? = some admitted.2 ∧
        ValidEntry sha256 admitted.1 admitted.2 := by
  obtain ⟨key, schema⟩ := admitted
  have hvalid : ∀ k, validateKey (some key) = .ok k → k = key := by
    intro k hk
    have h := (validateKey_eq_ok_iff.mp hk).1
    cases h
    rfl
  unfold ValidEntry validateSchema
  constructor
  · intro h
    cases hk : validateKey key? with
    | error e => simp [hk] at h
    | ok k =>
        cases hs : schema? with
        | none => simp [hk, hs] at h
        | some t =>
            simp only [hk, hs] at h
            split_ifs at h with hadm
            cases h
            have hkey := (validateKey_eq_ok_iff.mp hk).1
            subst hkey
            simp only [hk, if_pos hadm, and_self]
  · rintro ⟨rfl, rfl, h⟩
    exact h

theorem ValidEntry.key_valid (h : ValidEntry sha256 key schema) :
    validateKey (some key) = .ok key := by
  unfold ValidEntry validateSchema at h
  cases hk : validateKey (some key) with
  | error e => simp [hk] at h
  | ok k =>
      have hkey := (validateKey_eq_ok_iff.mp hk).1
      cases hkey
      rfl

theorem ValidEntry.admitted (h : ValidEntry sha256 key schema) :
    schemaAdmitted sha256 key schema = true := by
  have hk := h.key_valid
  unfold ValidEntry validateSchema at h
  rw [hk] at h
  dsimp only at h
  split_ifs at h with hadm
  exact hadm

theorem ValidEntry.matches (h : ValidEntry sha256 key schema) :
    schemaMatchesKey key schema = true := by
  have hadm := h.admitted
  simp only [schemaAdmitted, Bool.and_eq_true] at hadm
  exact hadm.1.1.1.1.1

theorem ValidEntry.withinLimits (h : ValidEntry sha256 key schema) :
    schemaWithinLimits key schema = true := by
  have hadm := h.admitted
  simp only [schemaAdmitted, Bool.and_eq_true] at hadm
  exact hadm.1.1.1.1.2

theorem ValidEntry.referenceNames (h : ValidEntry sha256 key schema) :
    referenceNamesValid schema = true := by
  have hadm := h.admitted
  simp only [schemaAdmitted, Bool.and_eq_true] at hadm
  exact hadm.1.1.1.2

theorem ValidEntry.nodes_ne_nil (h : ValidEntry sha256 key schema) : schema.nodes ≠ [] := by
  have hlim := h.withinLimits
  simp only [schemaWithinLimits, Bool.and_eq_true, bne_iff_ne] at hlim
  exact hlim.1.1.1.1

theorem ValidEntry.bind (h : ValidEntry sha256 key schema) :
    typetreeBindNodeStrings schema = some schema := by
  have hadm := h.admitted
  simp only [schemaAdmitted, Bool.and_eq_true] at hadm
  exact typetreeBindNodeStrings_of_bound h.nodes_ne_nil hadm.1.2

/-- **`schemas_equal` is equality** on schemas with valid reference names. -/
theorem schemasEqual_iff (hleft : referenceNamesValid schema = true)
    (hright : referenceNamesValid other = true) :
    schemasEqual schema other = true ↔ schema = other := by
  constructor
  · intro h
    obtain ⟨⟩ := schema
    obtain ⟨⟩ := other
    simp only [schemasEqual, Bool.and_eq_true, beq_iff_eq] at h
    obtain ⟨⟨⟨⟨⟨⟨⟨⟨⟨h₁, h₂⟩, h₃⟩, h₄⟩, h₅⟩, h₆⟩, h₇⟩, h₈⟩, h₉⟩, h₁₀⟩ := h
    subst h₁ h₂ h₃ h₄ h₅ h₆ h₇ h₈ h₉
    rename_i isRefType _ _ _ _ _ _
    cases isRefType with
    | true => simpa [and_assoc] using h₁₀
    | false =>
        simp only [referenceNamesValid, Bool.false_eq_true, if_false, Bool.and_eq_true,
          beq_iff_eq] at hleft hright
        obtain ⟨⟨rfl, rfl⟩, rfl⟩ := hleft
        obtain ⟨⟨rfl, rfl⟩, rfl⟩ := hright
        rfl
  · rintro rfl
    simp [schemasEqual]

/-! ## What copies return -/

theorem yields_ownedKeyCopy {σ : Type} (s : σ) (h : validateKey (some key) = .ok key) :
    Call.Yields .allocationFailed (ownedKeyCopy key) s key s :=
  (Call.yields_ofExcept h).bind (Call.yields_request.bind (Call.yields_pure key))

theorem yields_cloneString {σ : Type} (s : σ) {source : Option CString} {limit : ℕ}
    (h : boundedString source limit = true) :
    Call.Yields .allocationFailed (cloneString source limit) s source s :=
  (Call.yields_require h).bind (Call.yields_request.bind (Call.yields_pure source))

theorem yields_requestFor {σ α : Type} (s : σ) (table : List α) :
    Call.Yields .allocationFailed (requestFor table) s () s := by
  unfold requestFor
  split_ifs
  · exact Call.yields_pure ()
  · exact Call.yields_request

theorem yields_cloneReferenceNames {σ : Type} (s : σ) (h : referenceNamesValid schema = true) :
    Call.Yields .allocationFailed (cloneReferenceNames schema schema) s schema s := by
  unfold cloneReferenceNames
  unfold referenceNamesValid at h
  split_ifs at h ⊢ with href
  · simp only [Bool.and_eq_true] at h
    exact (yields_cloneString s h.1.1).bind ((yields_cloneString s h.1.2).bind
      ((yields_cloneString s h.2).bind (Call.yields_pure schema)))
  · simp only [Bool.and_eq_true, beq_iff_eq] at h
    obtain ⟨⟨h₁, h₂⟩, h₃⟩ := h
    have hself : { schema with refClassName := none, refNamespace := none, refAsmName := none } =
        schema := by
      cases schema
      simp_all
    rw [hself]
    exact Call.yields_pure schema

/-- **A deep copy of a valid schema is the schema.** -/
theorem yields_cloneSchema {σ : Type} (s : σ) (h : ValidEntry sha256 key schema) :
    Call.Yields .allocationFailed (cloneSchema schema) s schema s := by
  have hbind : Call.Yields .allocationFailed (boundOr .invalidSchema schema) s schema s := by
    rw [boundOr, h.bind]
    exact Call.yields_pure schema
  apply (Call.yields_require h.nodes_ne_nil).bind
  apply Call.yields_request.bind
  apply (yields_requestFor s _).bind
  apply hbind.bind
  apply (yields_requestFor s _).bind
  exact yields_cloneReferenceNames s h.referenceNames

theorem keeps_cloneSchema {σ : Type} (source : TypeTreeType) :
    Call.Keeps (cloneSchema (σ := σ) source) := by
  have hfor : ∀ {α : Type} (table : List α), Call.Keeps (requestFor (σ := σ) table) := by
    intro α table
    unfold requestFor
    split_ifs
    · exact Call.keeps_pure ()
    · exact Call.keeps_request _
  have hstring : ∀ text limit, Call.Keeps (cloneString (σ := σ) text limit) := by
    intro text limit
    exact (Call.keeps_require _ _).bind fun _ =>
      (Call.keeps_request _).bind fun _ => Call.keeps_pure _
  have hbound : ∀ status type, Call.Keeps (boundOr (σ := σ) status type) := by
    intro status type
    unfold boundOr
    cases typetreeBindNodeStrings type
    · exact Call.keeps_fail _
    · exact Call.keeps_pure _
  have hnames : ∀ destination, Call.Keeps (cloneReferenceNames (σ := σ) source destination) := by
    intro destination
    unfold cloneReferenceNames
    split_ifs
    · exact (hstring _ _).bind fun _ => (hstring _ _).bind fun _ => (hstring _ _).bind fun _ =>
        Call.keeps_pure _
    · exact Call.keeps_pure _
  exact (Call.keeps_require _ _).bind fun _ => (Call.keeps_request _).bind fun _ =>
    (hfor _).bind fun _ => (hbound _ _).bind fun destination => (hfor _).bind fun _ =>
      hnames destination

theorem keeps_ownedKeyCopy {σ : Type} (source : TypeTreeSchemaKey) :
    Call.Keeps (ownedKeyCopy (σ := σ) source) :=
  (Call.keeps_ofExcept _).bind fun _ => (Call.keeps_request _).bind fun _ => Call.keeps_pure _

end

end UnityCommon.Registry
