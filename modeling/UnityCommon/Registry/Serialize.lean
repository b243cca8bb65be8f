import UnityCommon.Registry.Format

/-!
# Serialization

The growing buffer of the writer, `write_schema_record` with its patched length,
and `typetree_schema_registry_serialize`. A writer emits a text when it appends
it, unless it runs out of storage or of the format's size limit.
-/

namespace UnityCommon.Registry

open UnityCommon.TypeTree

/-- `size` is the length of `data`; the status is the call's. -/
structure SchemaWriter where
  data : Text
  capacity : ℕ
deriving DecidableEq, Repr

def schemaWriterReserve (extra : ℕ) : Call TypeTreeSchemaStatus SchemaWriter Unit := do
  let writer ← Call.current
  let required := writer.data.length + extra
  -- `checked_add_size` on a 64-bit `size_t`
  Call.require (required < 2 ^ 64) .sizeOverflow
  Call.require (required ≤ maxFileSize) .limitExceeded
  if required ≤ writer.capacity then pure ()
  else do
    let start := if writer.capacity = 0 then 256 else writer.capacity
    let capacity := growCapacity maxFileSize required required start
    Call.require (required ≤ capacity) .limitExceeded
    Call.request .allocationFailed
    Call.replace { writer with capacity }

def schemaWriterBytes (bytes : Text) : Call TypeTreeSchemaStatus SchemaWriter Unit := do
  schemaWriterReserve bytes.length
  let writer ← Call.current
  Call.replace { writer with data := writer.data ++ bytes }

def schemaWriterZeros (size : ℕ) : Call TypeTreeSchemaStatus SchemaWriter Unit :=
  schemaWriterBytes (List.replicate size 0)

def schemaWriterU8 (value : UInt8) : Call TypeTreeSchemaStatus SchemaWriter Unit :=
  schemaWriterBytes [value]

def schemaWriterU16 (value : UInt16) : Call TypeTreeSchemaStatus SchemaWriter Unit :=
  schemaWriterBytes (storeLe16 value)

def schemaWriterU32 (value : UInt32) : Call TypeTreeSchemaStatus SchemaWriter Unit :=
  schemaWriterBytes (storeLe32 value)

def schemaWriterU64 (value : UInt64) : Call TypeTreeSchemaStatus SchemaWriter Unit :=
  schemaWriterBytes (storeLe64 value)

/-- `store_le64` into bytes already written. -/
def patchRecordSize (recordStart : ℕ) : Call TypeTreeSchemaStatus SchemaWriter Unit := do
  let writer ← Call.current
  Call.replace { writer with
    data := writer.data.take recordStart ++
      storeLe64 (writer.data.length - recordStart).toUInt64 ++
      writer.data.drop (recordStart + 8) }

def writeNode (node : TypeTreeNode) : Call TypeTreeSchemaStatus SchemaWriter Unit := do
  schemaWriterU16 node.version
  schemaWriterU8 node.level
  schemaWriterU8 node.typeFlags
  schemaWriterU32 node.typeStrOffset
  schemaWriterU32 node.nameStrOffset
  schemaWriterU32 node.byteSize.toUInt32
  schemaWriterU32 node.index
  schemaWriterU32 node.metaFlags
  schemaWriterU64 node.refTypeHash

def writeKey (key : TypeTreeSchemaKey) : Call TypeTreeSchemaStatus SchemaWriter Unit := do
  schemaWriterU32 key.serializedFileVersion
  schemaWriterU32 key.unityVersion.length.toUInt32
  schemaWriterBytes key.unityVersion
  schemaWriterU32 key.classId.toUInt32
  schemaWriterU32 key.serializedTypeId.toUInt32
  schemaWriterU16 key.scriptTypeIndex
  schemaWriterU16 (keyFlags key)
  schemaWriterBytes key.scriptIdHash.bytes
  schemaWriterBytes key.typeHash.bytes

def writeCounts (schema : TypeTreeType) : Call TypeTreeSchemaStatus SchemaWriter Unit := do
  schemaWriterU32 (schemaFlags schema)
  schemaWriterU32 schema.nodes.length.toUInt32
  schemaWriterU32 schema.stringBuffer.length.toUInt32
  schemaWriterU32 schema.dependencies.length.toUInt32
  schemaWriterU32 (referenceName schema schema.refClassName).length.toUInt32
  schemaWriterU32 (referenceName schema schema.refNamespace).length.toUInt32
  schemaWriterU32 (referenceName schema schema.refAsmName).length.toUInt32

def writeTables (schema : TypeTreeType) : Call TypeTreeSchemaStatus SchemaWriter Unit := do
  Call.forEach schema.nodes writeNode
  schemaWriterBytes schema.stringBuffer
  Call.forEach schema.dependencies fun dependency => schemaWriterU32 dependency.toUInt32
  schemaWriterBytes (referenceName schema schema.refClassName)
  schemaWriterBytes (referenceName schema schema.refNamespace)
  schemaWriterBytes (referenceName schema schema.refAsmName)

def writeBody (entry : Entry) : Call TypeTreeSchemaStatus SchemaWriter Unit := do
  writeKey entry.key
  writeCounts entry.schema
  writeTables entry.schema

/-- The three names of a reference type are present and bounded. -/
def referenceNamesBounded (schema : TypeTreeType) : Bool :=
  !schema.isRefType || (boundedString schema.refClassName maxRefStringSize &&
    boundedString schema.refNamespace maxRefStringSize &&
    boundedString schema.refAsmName maxRefStringSize)

def writeSchemaRecord (entry : Entry) : Call TypeTreeSchemaStatus SchemaWriter Unit := do
  Call.require (referenceNamesBounded entry.schema = true) .invalidSchema
  let writer ← Call.current
  schemaWriterU64 0
  writeBody entry
  patchRecordSize writer.data.length

section

variable (sha256 : Text → Sha256Digest)

/-- The validated, sorted and duplicate-free array of entries. `qsort` puts it in
some order in which no entry is greater than its successor. -/
def orderedEntries (entries : List Entry) :
    Call TypeTreeSchemaStatus TypeTreeSchemaRegistry (List Entry) :=
  if entries = [] then pure []
  else do
    Call.request .allocationFailed
    Call.forEach entries fun entry => do
      let _ ← Call.ofExcept (validateSchema sha256 (some entry.key) (some entry.schema))
    let ordered := entries.insertionSort fun a b => (compareKeys a.key b.key).isLE = true
    Call.require (ordered.IsChain fun a b => compareKeys a.key b.key ≠ .eq) .keyConflict
    return ordered

def writeRecords (ordered : List Entry) : Call TypeTreeSchemaStatus SchemaWriter Unit := do
  schemaWriterZeros headerSize
  Call.forEach ordered writeSchemaRecord

/-- The header written over the zeros that were kept for it. -/
def writeHeader (count : ℕ) (data : Text) : Text :=
  encodeHeader count data.length (sha256 (data.drop headerSize)) ++ data.drop headerSize

def typetreeSchemaRegistrySerialize :
    Call TypeTreeSchemaStatus TypeTreeSchemaRegistry Text := do
  let registry ← Call.current
  Call.require (registry.entries.length ≤ maxEntries ∧
    registry.entries.length ≤ registry.capacity) .invalidArgument
  let ordered ← orderedEntries sha256 registry.entries
  let written ← Call.within ⟨[], 0⟩ (writeRecords ordered)
  Call.request .allocationFailed
  return writeHeader sha256 registry.entries.length written.2.data

end

/-! ## Writers that append -/

/-- The writer appends `bytes`: it succeeds only within the size limit, and then
only storage can stop it. -/
def Emits (x : Call TypeTreeSchemaStatus SchemaWriter Unit) (bytes : Text) : Prop :=
  ∀ writer : SchemaWriter, writer.data.length ≤ maxFileSize →
    (writer.data.length + bytes.length ≤ maxFileSize →
      ∃ writer', writer'.data = writer.data ++ bytes ∧
        Call.Yields .allocationFailed x writer () writer') ∧
    ∀ answers n u writer' n', x answers writer n = .ok u writer' n' →
      writer.data.length + bytes.length ≤ maxFileSize

theorem emits_pure : Emits (pure ()) [] := by
  intro writer hwriter
  refine ⟨fun _ => ⟨writer, by simp, Call.yields_pure ()⟩, ?_⟩
  intro _ _ _ _ _ _
  exact hwriter

theorem Emits.bind {x y : Call TypeTreeSchemaStatus SchemaWriter Unit} {xs ys : Text}
    (hx : Emits x xs) (hy : Emits y ys) : Emits (x >>= fun _ => y) (xs ++ ys) := by
  intro writer hwriter
  obtain ⟨hxfits, hxok⟩ := hx writer hwriter
  constructor
  · intro hfits
    rw [List.length_append] at hfits
    obtain ⟨w₁, hw₁, hyield₁⟩ := hxfits (by omega)
    have hlen₁ : w₁.data.length = writer.data.length + xs.length := by
      rw [hw₁, List.length_append]
    obtain ⟨w₂, hw₂, hyield₂⟩ := (hy w₁ (by omega)).1 (by omega)
    exact ⟨w₂, by rw [hw₂, hw₁, List.append_assoc], hyield₁.bind hyield₂⟩
  · intro answers n u w₂ n₂ h
    obtain ⟨_, w₁, n₁, h₁, h₂⟩ := Call.bind_eq_ok.mp h
    have hfits₁ := hxok answers n _ w₁ n₁ h₁
    obtain ⟨w, hw, hyield⟩ := hxfits hfits₁
    obtain ⟨-, rfl⟩ := hyield.unique h₁
    have hlen : w₁.data.length = writer.data.length + xs.length := by
      rw [hw, List.length_append]
    have hfits₂ := (hy w₁ (by omega)).2 answers n₁ u w₂ n₂ h₂
    rw [List.length_append]
    omega

theorem emits_forEach {α : Type} {f : α → Call TypeTreeSchemaStatus SchemaWriter Unit}
    {encode : α → Text} : ∀ {xs : List α}, (∀ x ∈ xs, Emits (f x) (encode x)) →
      Emits (Call.forEach xs f) (xs.flatMap encode)
  | [], _ => emits_pure
  | x :: xs, h => by
      rw [List.flatMap_cons]
      apply (h x List.mem_cons_self).bind
      apply emits_forEach
      intro y hy
      exact h y (List.mem_cons_of_mem x hy)

theorem emits_schemaWriterBytes (bytes : Text) : Emits (schemaWriterBytes bytes) bytes := by
  intro writer hwriter
  constructor
  · intro hfits
    have hroom : writer.data.length + bytes.length < 2 ^ 64 := by
      rw [maxFileSize] at hfits
      omega
    have hgrow : writer.data.length + bytes.length ≤
        growCapacity maxFileSize (writer.data.length + bytes.length)
          (writer.data.length + bytes.length)
          (if writer.capacity = 0 then 256 else writer.capacity) := by
      apply le_growCapacity hfits
      · split_ifs <;> omega
      · omega
    have hreserve : ∃ w, w.data = writer.data ∧
        Call.Yields .allocationFailed (schemaWriterReserve bytes.length) writer () w := by
      by_cases hcap : writer.data.length + bytes.length ≤ writer.capacity
      · refine ⟨writer, rfl, ?_⟩
        apply Call.yields_current.bind
        apply (Call.yields_require hroom).bind
        apply (Call.yields_require hfits).bind
        rw [if_pos hcap]
        exact Call.yields_pure ()
      · refine ⟨⟨writer.data, growCapacity maxFileSize (writer.data.length + bytes.length)
          (writer.data.length + bytes.length)
          (if writer.capacity = 0 then 256 else writer.capacity)⟩, rfl, ?_⟩
        apply Call.yields_current.bind
        apply (Call.yields_require hroom).bind
        apply (Call.yields_require hfits).bind
        rw [if_neg hcap]
        apply (Call.yields_require hgrow).bind
        exact Call.yields_request.bind Call.yields_replace
    obtain ⟨w, hw, hyield⟩ := hreserve
    refine ⟨{ w with data := w.data ++ bytes }, by rw [hw], ?_⟩
    exact hyield.bind (Call.yields_current.bind Call.yields_replace)
  · intro answers n u writer' n' h
    obtain ⟨_, _, _, hreserve, -⟩ := Call.bind_eq_ok.mp h
    have hreserve := Call.current_bind_eq_ok.mp hreserve
    obtain ⟨-, hreserve⟩ := Call.require_bind_eq_ok.mp hreserve
    exact (Call.require_bind_eq_ok.mp hreserve).1

theorem emits_writeNode (node : TypeTreeNode) : Emits (writeNode node) (encodeNode node) :=
  (emits_schemaWriterBytes _).bind <| (emits_schemaWriterBytes _).bind <|
  (emits_schemaWriterBytes _).bind <| (emits_schemaWriterBytes _).bind <|
  (emits_schemaWriterBytes _).bind <| (emits_schemaWriterBytes _).bind <|
  (emits_schemaWriterBytes _).bind <| (emits_schemaWriterBytes _).bind <|
  emits_schemaWriterBytes _

theorem emits_writeKey (key : TypeTreeSchemaKey) : Emits (writeKey key) (encodeKey key) :=
  (emits_schemaWriterBytes _).bind <| (emits_schemaWriterBytes _).bind <|
  (emits_schemaWriterBytes _).bind <| (emits_schemaWriterBytes _).bind <|
  (emits_schemaWriterBytes _).bind <| (emits_schemaWriterBytes _).bind <|
  (emits_schemaWriterBytes _).bind <| (emits_schemaWriterBytes _).bind <|
  emits_schemaWriterBytes _

theorem emits_writeCounts (schema : TypeTreeType) :
    Emits (writeCounts schema) (encodeCounts schema) :=
  (emits_schemaWriterBytes _).bind <| (emits_schemaWriterBytes _).bind <|
  (emits_schemaWriterBytes _).bind <| (emits_schemaWriterBytes _).bind <|
  (emits_schemaWriterBytes _).bind <| (emits_schemaWriterBytes _).bind <|
  emits_schemaWriterBytes _

theorem emits_writeTables (schema : TypeTreeType) :
    Emits (writeTables schema) (encodeTables schema) :=
  (emits_forEach fun node _ => emits_writeNode node).bind <|
  (emits_schemaWriterBytes _).bind <|
  (emits_forEach fun _ _ => emits_schemaWriterBytes _).bind <|
  (emits_schemaWriterBytes _).bind <| (emits_schemaWriterBytes _).bind <|
  emits_schemaWriterBytes _

theorem emits_writeBody (entry : Entry) : Emits (writeBody entry) (encodeBody entry) :=
  (emits_writeKey _).bind <| (emits_writeCounts _).bind <| emits_writeTables _

/-- The length goes into the zeros that were kept for it. -/
theorem patch_eq (before body : Text) :
    (before ++ storeLe64 0 ++ body).take before.length ++
        storeLe64 ((before ++ storeLe64 0 ++ body).length - before.length).toUInt64 ++
        (before ++ storeLe64 0 ++ body).drop (before.length + 8) =
      before ++ (storeLe64 (8 + body.length).toUInt64 ++ body) := by
  have htake : (before ++ storeLe64 0 ++ body).take before.length = before := by
    rw [List.append_assoc, List.take_left]
  have hdrop : (before ++ storeLe64 0 ++ body).drop (before.length + 8) = body := by
    have hlen : before.length + 8 = (before ++ storeLe64 0).length := by simp
    rw [hlen, List.drop_left]
  have hsize : (before ++ storeLe64 0 ++ body).length - before.length = 8 + body.length := by
    simp only [List.length_append, length_storeLe64]
    omega
  rw [htake, hdrop, hsize, List.append_assoc]

/-- **A record is its encoding.** The length written over the zeros is the
length of the record. -/
theorem emits_writeSchemaRecord {entry : Entry}
    (h : referenceNamesBounded entry.schema = true) :
    Emits (writeSchemaRecord entry) (encodeRecord entry) := by
  have hlength : (encodeRecord entry).length = 8 + (encodeBody entry).length := by
    rw [encodeRecord, List.length_append, length_storeLe64]
  intro writer hwriter
  obtain ⟨hzeros, hzerosOk⟩ := emits_schemaWriterBytes (storeLe64 0) writer hwriter
  rw [length_storeLe64] at hzeros hzerosOk
  constructor
  · intro hfits
    obtain ⟨w₁, hw₁, hyield₁⟩ := hzeros (by omega)
    have hlen₁ : w₁.data.length = writer.data.length + 8 := by
      rw [hw₁, List.length_append, length_storeLe64]
    obtain ⟨w₂, hw₂, hyield₂⟩ := (emits_writeBody entry w₁ (by omega)).1 (by omega)
    refine ⟨{ w₂ with data := writer.data ++ encodeRecord entry }, rfl, ?_⟩
    apply (Call.yields_require h).bind
    apply Call.yields_current.bind
    apply hyield₁.bind
    apply hyield₂.bind
    apply Call.yields_current.bind
    rw [hw₂, hw₁, patch_eq]
    exact Call.yields_replace
  · intro answers n u writer' n' hok
    obtain ⟨-, hok⟩ := Call.require_bind_eq_ok.mp hok
    have hok := Call.current_bind_eq_ok.mp hok
    obtain ⟨_, w₁, n₁, h₁, hok⟩ := Call.bind_eq_ok.mp hok
    obtain ⟨_, w₂, n₂, h₂, -⟩ := Call.bind_eq_ok.mp hok
    have hfits₁ := hzerosOk answers n _ w₁ n₁ h₁
    obtain ⟨w, hw, hyield⟩ := hzeros hfits₁
    obtain ⟨-, rfl⟩ := hyield.unique h₁
    have hlen₁ : w₁.data.length = writer.data.length + 8 := by
      rw [hw, List.length_append, length_storeLe64]
    have hfits₂ := (emits_writeBody entry w₁ (by omega)).2 answers n₁ _ w₂ n₂ h₂
    omega

/-! ## The whole encoding -/

section

variable {sha256 : Text → Sha256Digest} {registry : TypeTreeSchemaRegistry}

theorem referenceNamesBounded_of_valid {key : TypeTreeSchemaKey} {schema : TypeTreeType}
    (h : ValidEntry sha256 key schema) : referenceNamesBounded schema = true := by
  have hnames := h.referenceNames
  unfold referenceNamesValid at hnames
  unfold referenceNamesBounded
  split_ifs at hnames with href
  · simp [hnames]
  · simp [href]

theorem yields_orderedEntries (hwf : registry.WellFormed sha256) :
    Call.Yields .allocationFailed (orderedEntries sha256 registry.entries) registry
      registry.entries registry := by
  have hvalidate : ∀ entries : List Entry,
      (∀ entry ∈ entries, ValidEntry sha256 entry.key entry.schema) →
        Call.Yields .allocationFailed (Call.forEach entries fun entry => do
          let _ ← Call.ofExcept (validateSchema sha256 (some entry.key) (some entry.schema)))
          registry () registry := by
    intro entries
    induction entries with
    | nil =>
        intro _
        exact Call.yields_pure ()
    | cons entry rest ih =>
        intro h
        refine Call.Yields.bind (a := ()) ?_ (ih fun e he => h e (List.mem_cons_of_mem _ he))
        exact (Call.yields_ofExcept (h entry List.mem_cons_self)).bind (Call.yields_pure ())
  unfold orderedEntries
  split_ifs with hnil
  · rw [hnil]
    exact Call.yields_pure []
  · apply Call.yields_request.bind
    apply (hvalidate registry.entries hwf.valid).bind
    rw [hwf.increasing.sort_eq]
    apply (Call.yields_require hwf.increasing.ne_adjacent).bind
    exact Call.yields_pure _

theorem emits_writeRecords (hwf : registry.WellFormed sha256) :
    Emits (writeRecords registry.entries)
      (List.replicate headerSize 0 ++ registry.entries.flatMap encodeRecord) := by
  apply (emits_schemaWriterBytes _).bind
  apply emits_forEach
  intro entry hmem
  exact emits_writeSchemaRecord (referenceNamesBounded_of_valid (hwf.valid entry hmem))

theorem writeHeader_eq (payload : Text) (entries : List Entry)
    (hpayload : payload = entries.flatMap encodeRecord) :
    writeHeader sha256 entries.length (List.replicate headerSize 0 ++ payload) =
      encodeRegistry sha256 entries := by
  have hdrop : (List.replicate headerSize (0 : UInt8) ++ payload).drop headerSize = payload := by
    rw [List.drop_left' (by simp)]
  rw [writeHeader, hdrop, encodeRegistry, hpayload, List.length_append, List.length_replicate]

/-- **Serialization is the encoding** of a well-formed registry that fits. -/
theorem yields_serialize (hwf : registry.WellFormed sha256)
    (hcount : registry.entries.length ≤ maxEntries)
    (hfits : (encodeRegistry sha256 registry.entries).length ≤ maxFileSize) :
    Call.Yields .allocationFailed (typetreeSchemaRegistrySerialize sha256) registry
      (encodeRegistry sha256 registry.entries) registry := by
  obtain ⟨writer, hdata, hyield⟩ := (emits_writeRecords hwf ⟨[], 0⟩ (Nat.zero_le _)).1 (by
    rw [length_encodeRegistry] at hfits
    simpa using hfits)
  apply Call.yields_current.bind
  apply (Call.yields_require ⟨hcount, hwf.count_le⟩).bind
  apply (yields_orderedEntries hwf).bind
  apply (Call.yields_within hyield).bind
  apply Call.yields_request.bind
  rw [List.nil_append] at hdata
  dsimp only
  rw [hdata, writeHeader_eq _ _ rfl]
  exact Call.yields_pure _

/-- What serialization returns, it returns within the format's limits. -/
theorem serialize_eq_ok (hwf : registry.WellFormed sha256) {answers : ℕ → Bool} {n n' : ℕ}
    {data : Text} {registry' : TypeTreeSchemaRegistry}
    (h : typetreeSchemaRegistrySerialize sha256 answers registry n = .ok data registry' n') :
    data = encodeRegistry sha256 registry.entries ∧ data.length ≤ maxFileSize ∧
      registry.entries.length ≤ maxEntries := by
  have hall := h
  have h := Call.current_bind_eq_ok.mp h
  obtain ⟨⟨hcount, -⟩, h⟩ := Call.require_bind_eq_ok.mp h
  obtain ⟨ordered, r₁, n₁, hordered, h⟩ := Call.bind_eq_ok.mp h
  obtain ⟨rfl, rfl⟩ := (yields_orderedEntries hwf).unique hordered
  obtain ⟨u, writer, n₂, hwritten, -⟩ := Call.within_bind_eq_ok.mp h
  have hlimit := (emits_writeRecords hwf ⟨[], 0⟩ (Nat.zero_le _)).2 _ _ _ _ _ hwritten
  have hfits : (encodeRegistry sha256 r₁.entries).length ≤ maxFileSize := by
    rw [length_encodeRegistry]
    simpa using hlimit
  have hdata := ((yields_serialize hwf hcount hfits).unique hall).1
  rw [hdata]
  exact ⟨rfl, hfits, hcount⟩

end

end UnityCommon.Registry
