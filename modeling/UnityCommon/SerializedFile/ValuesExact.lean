import UnityCommon.SerializedFile.ValuesSchema

/-!
# Creating values, exactly

When an object has values, what these are and what creating them takes: the
schema is that of a profile, the payload is spelled by its fields, and the limits
cover two passes over it.
-/

namespace UnityCommon.Values

open UnityCommon.Metadata
open ManagedValues (directoryObject)

/-! ## Plans -/

/-- What the values of an object are made of. -/
structure ValuesPlan where
  object : DirectoryObjectRow
  profile : ObjectProfile
  fields : List PaddedField

namespace ValuesPlan

variable (plan : ValuesPlan) (schema : SerializedFileSchema)

/-- What one pass over the payload costs. -/
def cost : ValueCost := fieldsCost plan.fields + { work := plan.profile.containerCount + 1 }

def values : List SerializedFileValue :=
  valuesOf schema plan.profile plan.object.payload.offset plan.fields

def owner : SerializedFileValues where
  view := {
    object := plan.object
    schema := schema.view
    context := schema.contextOf .ordinaryObject none
    valueCount := plan.profile.valueCount
    maximumDepth := plan.profile.maximumDepth
    consumedBytes := plan.object.payload.size
    stringBytes := plan.cost.strings
    paddingBytes := plan.cost.padding
    retainedBytes := plan.profile.retainedBytes
    integerBytes := plan.cost.integers }
  values := plan.values schema

/-- The work in front of the payload. -/
def qualifyWork : ℕ := 1 + (plan.profile.nodeCount + 2) + nodesWork plan.profile.nodes

/-- The payload is read twice. -/
def workUsed : ℕ := plan.qualifyWork + 2 * plan.cost.work + plan.profile.retainedBytes + 2

/-- What the limits or the allocator do not cover. -/
def Short (limits : ValuesLimits) (granted : Bool) : ValueResource → Prop
  | .work => limits.maxWork < plan.workUsed
  | .stringBytes => limits.maxStringBytes < plan.cost.longestString
  | .totalStringBytes => limits.maxTotalStringBytes < plan.cost.strings
  | .paddingBytes => limits.maxPaddingBytes < plan.cost.padding
  | .integerBytes => limits.maxIntegerBytes < plan.cost.widestInteger
  | .totalIntegerBytes => limits.maxTotalIntegerBytes < plan.cost.integers
  | .payloadBytes => limits.maxPayloadBytes < plan.object.payload.size
  | .values => limits.maxValues < plan.profile.valueCount
  | .depth => limits.maxDepth < plan.profile.maximumDepth
  | .retained => limits.maxRetainedBytes < plan.profile.retainedBytes
  | .storage => granted = false

/-- The context of the schema, as its query reports it. -/
def contextResult : SchemaContextResult :=
  schemaContextResult ⟨.ok, .none, none, noOffset⟩
    ⟨some schema.view.typeOrdinal, schema.view.nodeCount + 2⟩

/-- The state behind the qualification. -/
def qualified (objectOrdinal : ℕ) : ValuesBuild where
  objectOrdinal := some objectOrdinal
  typeOrdinal := some plan.object.typeOrdinal.toNat
  workUsed := plan.qualifyWork
  contextResult := some (contextResult schema)

/-- The state behind both passes. -/
def decoded (objectOrdinal : ℕ) : ValuesBuild where
  objectOrdinal := some objectOrdinal
  typeOrdinal := some plan.object.typeOrdinal.toNat
  workUsed := plan.workUsed
  requiredRetainedBytes := plan.profile.retainedBytes
  peakRetainedBytes := plan.profile.retainedBytes
  contextResult := some (contextResult schema)
  cursor := {
    position := plan.object.payload.offset + plan.cost.bytes
    stop := plan.object.payload.offset + plan.object.payload.size
    stringBytes := plan.cost.strings
    paddingBytes := plan.cost.padding
    integerBytes := plan.cost.integers }

/-- What a creation reports. -/
def result (objectOrdinal : ℕ) : ValuesResult where
  status := .ok
  limit := .none
  field := .none
  objectOrdinal := some objectOrdinal
  typeOrdinal := some plan.object.typeOrdinal.toNat
  nodeOrdinal := none
  errorOffset := noOffset
  workUsed := plan.workUsed
  requiredRetainedBytes := plan.profile.retainedBytes
  peakRetainedBytes := plan.profile.retainedBytes
  contextResult := some (contextResult schema)

/-- **The object is made of this**: it lies in the mapping, its type is the one that
the schema was compiled from, the schema is that of the profile, and the payload
is spelled by the fields. -/
structure Describes (mapped : Text) (directory : SerializedFileDirectory)
    (schema : SerializedFileSchema) (objectOrdinal : ℕ) (allowOrdinary : Bool) : Prop where
  engine : directory.view.engineVersion = .engine2021_3_35f1
  endian : directory.view.prefixView.header.endianSelector = 0
  object : directoryObject directory objectOrdinal = some plan.object
  type : ∃ row ∈ directory.type plan.object.typeOrdinal.toNat,
    sameOriginalType directory.view row schema.view
  fileSize : mapped.length ≤ directory.view.prefixView.header.fileSize
  objectSize : plan.object.payload.size ≤ int32Max
  payload : plan.object.payload.offset + plan.object.payload.size ≤ mapped.length
  entry : schema.view.typeEntrySource.offset + schema.view.typeEntrySource.size ≤ sizeMax
  profile : selectProfile schema.view allowOrdinary = some plan.profile
  nodeCount : schema.view.nodeCount = plan.profile.nodeCount
  nodes : SchemaMatches schema plan.profile
  aligned : plan.object.payload.offset % alignment = 0
  spelling : Spelling plan.profile plan.object.payload.offset plan.fields
  bytes : (PrefixSpan.mk plan.object.payload.offset plan.object.payload.size).bytes mapped =
    encodeFields plan.fields

end ValuesPlan

/-! ## The steps -/

section Steps

variable {limits : ValuesLimits} {build : ValuesBuild} {answers : ℕ → Bool} {n : ℕ}
  {mapped : Text} {directory : SerializedFileDirectory} {schema : SerializedFileSchema}
  {profile : ObjectProfile}

/-- Only the work is drawn on. -/
def workShort (maxWork total : ℕ) (k : ValueResource) : Prop := k = .work ∧ maxWork < total

theorem short_work_iff (hs : limits.Sound build) {amount : ℕ} (k : ValueResource) :
    workShort limits.maxWork (build.workUsed + amount) k ↔
      limits.Short k build { work := amount } := by
  constructor
  · rintro ⟨rfl, hshort⟩
    exact hshort
  · intro hshort
    by_cases hk : k = .work
    · exact ⟨hk, by rw [hk] at hshort; exact hshort⟩
    · exact absurd hshort (not_short_of_work hs k hk)

theorem needs_charge (hs : limits.Sound build) (amount : ℕ) (field : ValuesField)
    (node : Option ℕ) (offset : ℕ) :
    (charge limits amount field node offset).Needs limits.Sound ValuesReject.Cites answers build n
      (workShort limits.maxWork (build.workUsed + amount)) ()
      { build with workUsed := build.workUsed + amount } n := by
  exact ((follows_charge hs amount field node offset).needs rfl answers n).short_congr
    (short_work_iff hs)

theorem ValuesLimits.Sound.charged (hs : limits.Sound build) {amount : ℕ}
    (hroom : ∀ k, ¬ workShort limits.maxWork (build.workUsed + amount) k) :
    limits.Sound { build with workUsed := build.workUsed + amount } :=
  ⟨Nat.le_of_not_lt fun h => hroom .work ⟨rfl, h⟩, hs.stringBytes, hs.paddingBytes, hs.integerBytes⟩

/-- A pass over a payload that is there. -/
theorem needs_parsePayload (hs : limits.Sound build) {payload : PrefixRange}
    {values : List SerializedFileValue} {d : ValueCost}
    (hP : payloadFormat mapped schema profile payload payload.offset = some (values, d)) :
    (parsePayload mapped limits schema profile payload).Needs limits.Sound ValuesReject.Cites
      answers build n (fun k => limits.Short k (build.begin payload) d) values
      ((build.begin payload).advance d) n := by
  obtain ⟨rest, hparse, hfollows⟩ := follows_parsePayload hs payload
  rw [hparse]
  refine Call.Needs.short_congr ((Call.needs_modify _).bind fun _ =>
    hfollows.needs hP answers n) fun k => ?_
  rw [false_or]
  rfl

/-- Every node of a profile has no flag or the array flag. -/
theorem flags_of_mem (profile : ObjectProfile) :
    ∀ node ∈ profile.nodes, node.flags &&& registryFlags = 0 := by
  cases profile <;> decide

theorem nodes_length (profile : ObjectProfile) : profile.nodes.length = profile.nodeCount := by
  cases profile <;> rfl

theorem SchemaMatches.unmarked (h : SchemaMatches schema profile) {i : ℕ}
    (hi : i < profile.nodeCount) : (schemaNode schema i).typeFlags &&& registryFlags = 0 := by
  rw [← nodes_length] at hi
  have hnode := List.getElem?_eq_getElem hi
  rw [(h i _ hnode).1.2.2.1]
  exact flags_of_mem profile _ (List.getElem_mem hi)

/-- The context of a qualified schema, which a query without the work for it reports. -/
theorem needs_qualifyContext (hs : limits.Sound build)
    (hclear : ∀ i, i < schema.view.nodeCount →
      (schemaNode schema i).typeFlags &&& registryFlags = 0)
    (hentry : schema.view.typeEntrySource.offset + schema.view.typeEntrySource.size ≤ sizeMax)
    (hrow : schema.view.rowKind = .ordinaryType) :
    (qualifyContext limits schema).Needs limits.Sound ValuesReject.Cites answers build n
      (workShort limits.maxWork (build.workUsed + (schema.view.nodeCount + 2)))
      (schema.contextOf .ordinaryObject none)
      { build with
        contextResult := some (ValuesPlan.contextResult schema)
        workUsed := build.workUsed + (schema.view.nodeCount + 2) } n := by
  have hwork := hs.work
  have hquery : (queryContext schema .ordinaryObject (limits.maxWork - build.workUsed)).Needs
      _ _ answers {} n _ _ _ _ := needs_queryContext hclear hentry hrow
  have hnested : qualifyContext limits schema answers build n =
      Call.nested (serializedFileSchemaContextQuery schema .ordinaryObject
          (limits.maxWork - build.workUsed))
        (fun _ ran build =>
          { build with contextResult := some ran, workUsed := build.workUsed + ran.workUsed })
        contextReject answers build n := rfl
  rw [Call.Needs, hnested, Call.nested, serializedFileSchemaContextQuery, Call.bind_apply,
    Call.andThen, Call.enclosed]
  rcases hquery with ⟨hroom, hok⟩ | ⟨reject, query, m, _, herr, hused, hcites, hshort⟩
  · have hcovers := hroom ()
    rw [hok]
    refine Or.inl ⟨fun k hk => ?_, rfl⟩
    have hover := hk.2
    omega
  · rw [herr]
    refine Or.inr ⟨contextReject (schemaContextResult reject query), { build with
        contextResult := some (schemaContextResult reject query)
        workUsed := build.workUsed + query.workUsed }, m, .work, rfl,
      ⟨?_, hs.stringBytes, hs.paddingBytes, hs.integerBytes⟩, ?_, rfl, by omega⟩
    · show build.workUsed + query.workUsed ≤ limits.maxWork
      omega
    · have hstatus : (schemaContextResult reject query).status = .workLimit := hcites
      unfold contextReject
      rw [if_pos hstatus]
      exact ⟨rfl, rfl⟩

theorem needs_qualifyNodes (hs : limits.Sound build) (hnodes : SchemaMatches schema profile) :
    (qualifyNodes limits schema 0 profile.nodes).Needs limits.Sound ValuesReject.Cites answers build n
      (workShort limits.maxWork (build.workUsed + nodesWork profile.nodes)) ()
      { build with workUsed := build.workUsed + nodesWork profile.nodes } n := by
  have hP : nodesFormat schema 0 profile.nodes build.cursor.position =
      some ((), { work := nodesWork profile.nodes }) :=
    (nodesFormat_eq_some (measured_of_mem profile)).mpr
      ⟨fun i expected hi => by rw [Nat.zero_add]; exact hnodes i expected hi, rfl⟩
  exact ((follows_qualifyNodes schema hs).needs hP answers n).short_congr (short_work_iff hs)

theorem needs_request (hs : limits.Sound build) {reject : ValuesReject}
    (hcites : reject.Cites .storage) :
    (Call.request reject).Needs limits.Sound ValuesReject.Cites answers build n
      (fun k => k = .storage ∧ answers n = false) () build (n + 1) := by
  refine Call.needs_request hs ?_ fun hdenied => ⟨.storage, hcites, rfl, hdenied⟩
  simp

/-- A bound that the profile or the payload is held to. -/
theorem needs_bound (hs : limits.Sound build) {k : ValueResource} {amount bound : ℕ}
    {reject : ValuesReject} (hcites : reject.Cites k) :
    (Call.require (amount ≤ bound) reject).Needs limits.Sound ValuesReject.Cites answers build n
      (fun k' => k' = k ∧ bound < amount) () build n := by
  refine Call.needs_require hs ?_ fun hover => ⟨k, hcites, rfl, Nat.lt_of_not_le hover⟩
  simp

end Steps

/-! ## A described object -/

namespace ValuesPlan.Describes

variable {plan : ValuesPlan} {mapped : Text} {directory : SerializedFileDirectory}
  {schema : SerializedFileSchema} {objectOrdinal : ℕ} {allowOrdinary : Bool} {limits : ValuesLimits}
  {build : ValuesBuild} {answers : ℕ → Bool} {n : ℕ}
  (h : plan.Describes mapped directory schema objectOrdinal allowOrdinary)

include h

theorem admitSource_apply :
    admitSource directory schema objectOrdinal mapped.length answers build n =
      .ok plan.object
        { build with
          objectOrdinal := some objectOrdinal
          typeOrdinal := some plan.object.typeOrdinal.toNat } n := by
  obtain ⟨row, hrow, hsame⟩ := h.type
  have htree : ((directory.type plan.object.typeOrdinal.toNat).bind (·.tree)).isSome = true := by
    rw [hrow, Option.bind_some, hsame.2.2.2.2.2.2.2.1]
    rfl
  refine Call.require_bind_eq_ok.mpr ⟨h.engine, Call.require_bind_eq_ok.mpr ⟨h.endian, ?_⟩⟩
  rw [h.object]
  refine Call.bind_eq_ok.mpr ⟨plan.object, _, _, rfl, ?_⟩
  refine Call.bind_eq_ok.mpr ⟨(), _, _, rfl, ?_⟩
  refine Call.require_bind_eq_ok.mpr ⟨htree, Call.require_bind_eq_ok.mpr ⟨h.fileSize, ?_⟩⟩
  refine Call.require_bind_eq_ok.mpr ⟨h.objectSize, Call.require_bind_eq_ok.mpr ⟨h.payload, ?_⟩⟩
  exact Call.require_bind_eq_ok.mpr ⟨⟨row, hrow, hsame⟩, rfl⟩

theorem rowKind : schema.view.rowKind = .ordinaryType := by
  obtain ⟨row, -, hsame⟩ := h.type
  exact hsame.2.1

theorem unmarked : ∀ i, i < schema.view.nodeCount →
    (schemaNode schema i).typeFlags &&& registryFlags = 0 := by
  intro i hi
  rw [h.nodeCount] at hi
  exact h.nodes.unmarked hi

theorem payloadFormat_eq :
    payloadFormat mapped schema plan.profile plan.object.payload plan.object.payload.offset =
      some (plan.values schema, plan.cost) :=
  (payloadFormat_eq_some h.nodes.qualified h.payload).mpr
    ⟨plan.fields, h.spelling, h.bytes, rfl, rfl⟩

theorem needs_qualifyProfile (hs : limits.Sound build) :
    (qualifyProfile limits schema (schema.contextOf .ordinaryObject none) allowOrdinary).Needs
      limits.Sound ValuesReject.Cites answers build n
      (workShort limits.maxWork (build.workUsed + nodesWork plan.profile.nodes)) plan.profile
      { build with workUsed := build.workUsed + nodesWork plan.profile.nodes } n := by
  have hshape : schema.view.nodeCount = plan.profile.nodeCount ∧
      (schema.contextOf .ordinaryObject none).registry = none ∧
      (schema.contextOf .ordinaryObject none).traversalEnd = plan.profile.nodeCount :=
    ⟨h.nodeCount, rfl, h.nodeCount⟩
  have hselect : ∀ e, (Call.ofOption e (selectProfile schema.view allowOrdinary)).Needs limits.Sound
      ValuesReject.Cites answers build n (fun _ => False) plan.profile build n := by
    intro e
    rw [h.profile]
    exact Call.needs_ofOption_some _ _
  unfold qualifyProfile
  refine Call.Needs.short_congr ((hselect _).bind fun _ =>
    (Call.needs_require_true hshape _).bind fun _ => (needs_qualifyNodes hs h.nodes).bind fun _ =>
    Call.needs_pure _) fun k => ?_
  simp

theorem needs_admitPayload (hs : limits.Sound build) :
    (admitPayload limits plan.profile plan.object.payload).Needs limits.Sound ValuesReject.Cites
      answers build n
      (fun k => (k = .payloadBytes ∧ limits.maxPayloadBytes < plan.object.payload.size) ∨
        (k = .values ∧ limits.maxValues < plan.profile.valueCount) ∨
        (k = .depth ∧ limits.maxDepth < plan.profile.maximumDepth)) () build n := by
  refine Call.Needs.short_congr ((Call.needs_require_true h.aligned _).bind fun _ =>
    (needs_bound (k := .payloadBytes) hs ⟨rfl, rfl⟩).bind fun _ =>
    (needs_bound (k := .values) hs ⟨rfl, rfl⟩).bind fun _ =>
    needs_bound (k := .depth) hs ⟨rfl, rfl⟩) fun k => ?_
  rw [false_or]

/-- What the qualification is short of. -/
def QualifyShort (plan : ValuesPlan) (limits : ValuesLimits) (k : ValueResource) : Prop :=
  workShort limits.maxWork plan.qualifyWork k ∨
    (k = .payloadBytes ∧ limits.maxPayloadBytes < plan.object.payload.size) ∨
    (k = .values ∧ limits.maxValues < plan.profile.valueCount) ∨
    (k = .depth ∧ limits.maxDepth < plan.profile.maximumDepth)

theorem needs_qualify :
    (qualify mapped limits directory schema objectOrdinal allowOrdinary).Needs limits.Sound
      ValuesReject.Cites answers {} n (QualifyShort plan limits)
      (plan.object, schema.contextOf .ordinaryObject none, plan.profile)
      (plan.qualified schema objectOrdinal) n := by
  have hstart : limits.Sound {} := ⟨Nat.zero_le _, Nat.zero_le _, Nat.zero_le _, Nat.zero_le _⟩
  have hadmission : ∀ build : ValuesBuild,
      (admitSource directory schema objectOrdinal mapped.length).Needs limits.Sound
        ValuesReject.Cites answers build n (fun _ => False) plan.object
        { build with
          objectOrdinal := some objectOrdinal
          typeOrdinal := some plan.object.typeOrdinal.toNat } n :=
    fun build => Or.inl ⟨fun _ => id, h.admitSource_apply⟩
  have hqualified : plan.qualified schema objectOrdinal =
      { objectOrdinal := some objectOrdinal
        typeOrdinal := some plan.object.typeOrdinal.toNat
        workUsed := 0 + 1 + (schema.view.nodeCount + 2) + nodesWork plan.profile.nodes
        contextResult := some (contextResult schema) } := by
    rw [h.nodeCount]
    simp [qualified, qualifyWork]
  rw [hqualified]
  refine Call.Needs.short_congr ((needs_charge hstart 1 _ _ _).bind fun h₁ =>
    (hadmission _).bind fun _ =>
    (needs_qualifyContext ⟨?_, Nat.zero_le _, Nat.zero_le _, Nat.zero_le _⟩ h.unmarked h.entry
      h.rowKind).bind fun h₂ =>
    (h.needs_qualifyProfile ⟨?_, Nat.zero_le _, Nat.zero_le _, Nat.zero_le _⟩).bind fun h₃ =>
    (h.needs_admitPayload ⟨?_, Nat.zero_le _, Nat.zero_le _, Nat.zero_le _⟩).bind fun _ =>
    Call.needs_pure _) fun k => ?_
  · exact Nat.le_of_not_lt fun hover => h₁ .work ⟨rfl, hover⟩
  · exact Nat.le_of_not_lt fun hover => h₂ .work ⟨rfl, hover⟩
  · exact Nat.le_of_not_lt fun hover => h₃ .work ⟨rfl, hover⟩
  · rw [QualifyShort, qualifyWork, ← h.nodeCount]
    by_cases hk : k = .work
    · subst hk
      simp [workShort]
      omega
    · simp [workShort, hk]

/-- What decoding is short of, behind the qualification. -/
def DecodeShort (plan : ValuesPlan) (limits : ValuesLimits) (granted : Bool) :
    ValueResource → Prop
  | .payloadBytes => False
  | .values => False
  | .depth => False
  | k => plan.Short limits granted k

theorem needs_decode (hs : limits.Sound (plan.qualified schema objectOrdinal)) :
    (decode mapped limits schema plan.object (schema.contextOf .ordinaryObject none)
      plan.profile).Needs limits.Sound ValuesReject.Cites answers
      (plan.qualified schema objectOrdinal) n (DecodeShort plan limits (answers n))
      (plan.owner schema) (plan.decoded schema objectOrdinal) (n + 1) := by
  unfold decode
  have hpass : ∀ (build : ValuesBuild) (m : ℕ), limits.Sound build →
      (parsePayload mapped limits schema plan.profile plan.object.payload).Needs limits.Sound
        ValuesReject.Cites answers build m
        (fun k => limits.Short k (build.begin plan.object.payload) plan.cost) (plan.values schema)
        ((build.begin plan.object.payload).advance plan.cost) m :=
    fun build m hs => needs_parsePayload hs h.payloadFormat_eq
  have hsound : ∀ build : ValuesBuild, limits.Sound build →
      (∀ k, ¬ limits.Short k (build.begin plan.object.payload) plan.cost) →
      limits.Sound ((build.begin plan.object.payload).advance plan.cost) :=
    fun build hs hroom => limits.meter.sound_advance _ _ (sound_begin hs _) hroom
  have hstate : ∀ build : ValuesBuild, limits.Sound build → ∀ required peak : ℕ,
      limits.Sound { build with requiredRetainedBytes := required, peakRetainedBytes := peak } :=
    fun _ hs _ _ => ⟨hs.work, hs.stringBytes, hs.paddingBytes, hs.integerBytes⟩
  have hdenied : (rejectOwner .allocationFailed .none).Cites .storage := rfl
  refine Call.Needs.restate ((hpass _ _ hs).bind fun h₁ =>
    have hs₁ := hsound _ hs h₁
    (needs_charge hs₁ 1 _ _ _).bind fun h₂ => (Call.needs_modify _).bind fun _ =>
    have hs₂ := hstate _ (hs₁.charged h₂) plan.profile.retainedBytes 0
    (needs_bound (k := .retained) hs₂ ⟨rfl, rfl⟩).bind fun _ =>
    (needs_charge hs₂ plan.profile.retainedBytes _ _ _).bind fun h₃ =>
    have hs₃ := hs₂.charged h₃
    (needs_request hs₃ hdenied).bind fun _ =>
    (Call.needs_modify _).bind fun _ =>
    have hs₄ := hstate _ hs₃ plan.profile.retainedBytes plan.profile.retainedBytes
    (hpass _ _ hs₄).bind fun h₄ => (needs_charge (hsound _ hs₄ h₄) 1 _ _ _).bind fun _ =>
    Call.needs_read rfl) ?_ ?_ fun k => ?_
  · simp [owner, ValuesBuild.advance, ValuesBuild.begin]
  · simp [decoded, qualified, workUsed, ValuesBuild.advance, ValuesBuild.begin]
    omega
  · cases k <;> simp [DecodeShort, Short, workShort, ValuesLimits.Short, ValuesBuild.advance,
      ValuesBuild.begin, qualified, workUsed]
    omega

/-- **The values of a described object** are the plan's, unless a limit or the
allocator is in the way. -/
theorem needs_createValues :
    (createValues mapped limits directory schema objectOrdinal allowOrdinary).Needs limits.Sound
      ValuesReject.Cites answers {} n (plan.Short limits (answers n)) (plan.owner schema)
      (plan.decoded schema objectOrdinal) (n + 1) := by
  refine Call.Needs.short_congr (h.needs_qualify.bind fun hroom => h.needs_decode ⟨?_, Nat.zero_le _,
    Nat.zero_le _, Nat.zero_le _⟩) fun k => ?_
  · exact Nat.le_of_not_lt fun hover => hroom .work (Or.inl ⟨rfl, hover⟩)
  · cases k <;> simp [QualifyShort, DecodeShort, Short, workShort]
    rw [workUsed]
    omega

end ValuesPlan.Describes

/-! ## What a success tells -/

section Success

variable {limits : ValuesLimits} {build build' : ValuesBuild} {answers : ℕ → Bool} {n n' : ℕ}
  {mapped : Text} {directory : SerializedFileDirectory} {schema : SerializedFileSchema}
  {profile : ObjectProfile} {objectOrdinal : ℕ} {allowOrdinary : Bool}

/-- A step that follows a decoder leaves its counters within the limits. -/
theorem ends_of_follows {α : Type} {x : Call ValuesReject ValuesBuild α} {P : Decoder ValueCost α}
    (hs : limits.Sound build) (hx : limits.meter.Follows ValuesReject.Cites build x P) :
    (x answers build n).Ends (fun _ => limits.Sound) fun _ => limits.Sound := by
  cases h : x answers build n with
  | ok a build' n' =>
      obtain ⟨d, -, hroom, rfl, -⟩ := hx.of_ok h
      exact limits.meter.sound_advance build d hs hroom
  | error e build' n' => exact (hx.of_error h).1

theorem maintains_charge (amount : ℕ) (field : ValuesField) (node : Option ℕ) (offset : ℕ) :
    Call.Maintains answers limits.Sound (charge limits amount field node offset) :=
  fun _ _ hs => ends_of_follows hs (follows_charge hs amount field node offset)

theorem maintains_qualifyContext :
    Call.Maintains answers limits.Sound (qualifyContext limits schema) := by
  refine Call.Maintains.reading fun build hs => ?_
  have hkeeps : Call.Keeps (σ := ValuesBuild) (serializedFileSchemaContextQuery schema
      .ordinaryObject (limits.maxWork - build.workUsed)) :=
    (Call.keeps_enclosed _ _ _).bind fun _ => Call.keeps_pure _
  have hquery : Call.Maintains answers
      (fun q : ContextQuery => q.workUsed ≤ limits.maxWork - build.workUsed)
      (queryContext schema .ordinaryObject (limits.maxWork - build.workUsed)) :=
    maintains_queryContext
  have hnote : ∀ ran : SchemaContextResult, ran.workUsed ≤ limits.maxWork - build.workUsed →
      limits.Sound { build with
        contextResult := some ran, workUsed := build.workUsed + ran.workUsed } := by
    intro ran hran
    have hwork := hs.work
    exact ⟨by dsimp only; omega, hs.stringBytes, hs.paddingBytes, hs.integerBytes⟩
  refine Call.Triple.nested hkeeps
    (V := fun _ ran => ran.workUsed ≤ limits.maxWork - build.workUsed)
    (F := fun ran => ran.workUsed ≤ limits.maxWork - build.workUsed) ?_ ?_ ?_ ?_
  · intro s n context ran s' n' hok
    obtain ⟨⟨_, query⟩, _, _, hrun, hpure⟩ := Call.bind_eq_ok.mp hok
    obtain ⟨hran, -⟩ := Call.enclosed_eq_ok.mp hrun
    cases hpure
    exact hquery.of_ok (Nat.zero_le _) hran
  · intro s n ran s' n' herr
    rcases Call.bind_eq_error.mp herr with herr | ⟨⟨_, query⟩, _, _, -, herr⟩
    · obtain ⟨_, _, hrun, rfl, -⟩ := Call.enclosed_eq_error.mp herr
      exact hquery.of_error (Nat.zero_le _) hrun
    · cases herr
  · rintro _ _ ran rfl hran
    exact hnote ran hran
  · rintro _ ran rfl hran
    exact hnote ran hran

theorem maintains_qualifyProfile (context : SchemaContext) :
    Call.Maintains answers limits.Sound (qualifyProfile limits schema context allowOrdinary) :=
  (Call.Maintains.ofOption _ _).bind fun _ => (Call.Maintains.require _ _).bind fun _ =>
    Call.Maintains.bind (fun _ _ hs => ends_of_follows hs (follows_qualifyNodes schema hs)) fun _ =>
    Call.Maintains.pure _

theorem maintains_parsePayload (payload : PrefixRange) :
    Call.Maintains answers limits.Sound (parsePayload mapped limits schema profile payload) := by
  intro build n hs
  obtain ⟨rest, hparse, hfollows⟩ := follows_parsePayload hs payload
  have hrest : (rest answers (build.begin payload) n).Ends (fun _ => limits.Sound)
    fun _ => limits.Sound := ends_of_follows (sound_begin hs payload) hfollows
  rw [hparse]
  exact hrest

theorem maintains_admitSource (mappedSize : ℕ) :
    Call.Maintains answers limits.Sound (admitSource directory schema objectOrdinal mappedSize) := by
  refine (Call.Maintains.require _ _).bind fun _ => (Call.Maintains.require _ _).bind fun _ =>
    (Call.Maintains.ofOption _ _).bind fun object => Call.Maintains.modifying ?_ ?_
  · exact fun _ hs => ⟨hs.work, hs.stringBytes, hs.paddingBytes, hs.integerBytes⟩
  · exact (Call.Maintains.require _ _).bind fun _ => (Call.Maintains.require _ _).bind fun _ =>
      (Call.Maintains.require _ _).bind fun _ => (Call.Maintains.require _ _).bind fun _ =>
      (Call.Maintains.require _ _).bind fun _ => Call.Maintains.pure _

theorem maintains_qualify :
    Call.Maintains answers limits.Sound
      (qualify mapped limits directory schema objectOrdinal allowOrdinary) :=
  (maintains_charge _ _ _ _).bind fun _ => (maintains_admitSource _).bind fun _ =>
    maintains_qualifyContext.bind fun _ => (maintains_qualifyProfile _).bind fun _ =>
    Call.Maintains.bind ((Call.Maintains.require _ _).bind fun _ =>
      (Call.Maintains.require _ _).bind fun _ => (Call.Maintains.require _ _).bind fun _ =>
      Call.Maintains.require _ _) fun _ => Call.Maintains.pure _

theorem maintains_createValues :
    Call.Maintains answers limits.Sound
      (createValues mapped limits directory schema objectOrdinal allowOrdinary) := by
  have hrecord : ∀ (required peak : ValuesBuild → ℕ) (build : ValuesBuild), limits.Sound build →
      limits.Sound { build with
        requiredRetainedBytes := required build, peakRetainedBytes := peak build } :=
    fun _ _ _ hs => ⟨hs.work, hs.stringBytes, hs.paddingBytes, hs.integerBytes⟩
  refine maintains_qualify.bind fun ⟨object, context, profile⟩ => ?_
  refine (maintains_parsePayload _).bind fun _ => (maintains_charge _ _ _ _).bind fun _ =>
    Call.Maintains.modifying (hrecord _ (·.peakRetainedBytes)) <|
    (Call.Maintains.require _ _).bind fun _ => (maintains_charge _ _ _ _).bind fun _ =>
    Call.Maintains.bind (Call.Triple.request (fun _ => id) fun _ hs _ => hs) fun _ =>
    Call.Maintains.modifying (hrecord (·.requiredRetainedBytes) _) <|
    (maintains_parsePayload _).bind fun _ => (maintains_charge _ _ _ _).bind fun _ =>
    Call.Maintains.current.bind fun _ => Call.Maintains.pure _

theorem admitSource_eq_ok {mappedSize : ℕ} {object : DirectoryObjectRow}
    (h : admitSource directory schema objectOrdinal mappedSize answers build n =
      .ok object build' n') :
    directory.view.engineVersion = .engine2021_3_35f1 ∧
      directory.view.prefixView.header.endianSelector = 0 ∧
      directoryObject directory objectOrdinal = some object ∧
      (∃ row ∈ directory.type object.typeOrdinal.toNat,
        sameOriginalType directory.view row schema.view) ∧
      mappedSize ≤ directory.view.prefixView.header.fileSize ∧
      object.payload.size ≤ int32Max ∧
      object.payload.offset + object.payload.size ≤ mappedSize := by
  obtain ⟨hengine, h⟩ := Call.require_bind_eq_ok.mp h
  obtain ⟨hendian, h⟩ := Call.require_bind_eq_ok.mp h
  obtain ⟨found, hfound, h⟩ := Call.ofOption_bind_eq_ok.mp h
  obtain ⟨_, _, _, -, h⟩ := Call.bind_eq_ok.mp h
  obtain ⟨-, h⟩ := Call.require_bind_eq_ok.mp h
  obtain ⟨hfile, h⟩ := Call.require_bind_eq_ok.mp h
  obtain ⟨hsize, h⟩ := Call.require_bind_eq_ok.mp h
  obtain ⟨hpayload, h⟩ := Call.require_bind_eq_ok.mp h
  obtain ⟨htype, h⟩ := Call.require_bind_eq_ok.mp h
  obtain ⟨rfl, -, -⟩ := Call.pure_eq_ok.mp h
  exact ⟨hengine, hendian, hfound, htype, hfile, hsize, hpayload⟩

theorem queryContext_entry {kind : SchemaContextKind} {maxWork : ℕ} {context : SchemaContext}
    {query query' : ContextQuery}
    (h : queryContext schema kind maxWork answers query n = .ok context query' n') :
    schema.view.typeEntrySource.offset + schema.view.typeEntrySource.size ≤ sizeMax := by
  obtain ⟨hentry, -⟩ := Call.require_bind_eq_ok.mp h
  omega

theorem qualifyContext_entry {context : SchemaContext}
    (h : qualifyContext limits schema answers build n = .ok context build' n') :
    schema.view.typeEntrySource.offset + schema.view.typeEntrySource.size ≤ sizeMax := by
  have hnested : ∃ ran build₁ n₁, serializedFileSchemaContextQuery schema .ordinaryObject
      (limits.maxWork - build.workUsed) answers build n = .ok (context, ran) build₁ n₁ := by
    rw [qualifyContext, Call.current_bind_eq_ok, Call.nested] at h
    cases hquery : serializedFileSchemaContextQuery (σ := ValuesBuild) schema .ordinaryObject
        (limits.maxWork - build.workUsed) answers build n with
    | ok result build₁ n₁ =>
        rw [hquery] at h
        cases h
        exact ⟨result.2, build₁, _, rfl⟩
    | error ran build₁ n₁ =>
        rw [hquery] at h
        cases h
  obtain ⟨ran, build₁, n₁, hquery⟩ := hnested
  obtain ⟨⟨_, query⟩, _, _, hrun, -⟩ := Call.bind_eq_ok.mp hquery
  exact queryContext_entry (Call.enclosed_eq_ok.mp hrun).1

theorem qualifyProfile_eq_ok (hs : limits.Sound build) {context : SchemaContext}
    (h : qualifyProfile limits schema context allowOrdinary answers build n =
      .ok profile build' n') :
    selectProfile schema.view allowOrdinary = some profile ∧
      schema.view.nodeCount = profile.nodeCount ∧ SchemaMatches schema profile := by
  obtain ⟨found, hselect, h⟩ := Call.ofOption_bind_eq_ok.mp h
  obtain ⟨hshape, h⟩ := Call.require_bind_eq_ok.mp h
  obtain ⟨_, _, _, hnodes, h⟩ := Call.bind_eq_ok.mp h
  obtain ⟨rfl, -, -⟩ := Call.pure_eq_ok.mp h
  obtain ⟨d, hP, -, -, -⟩ := (follows_qualifyNodes schema hs).of_ok hnodes
  obtain ⟨hmatches, -⟩ := (nodesFormat_eq_some (measured_of_mem found)).mp hP
  refine ⟨hselect, hshape.1, fun i expected hi => ?_⟩
  have hnode := hmatches i expected hi
  rwa [Nat.zero_add] at hnode

theorem parsePayload_eq_ok (hs : limits.Sound build) {payload : PrefixRange}
    {values : List SerializedFileValue}
    (h : parsePayload mapped limits schema profile payload answers build n =
      .ok values build' n') :
    ∃ d, payloadFormat mapped schema profile payload payload.offset = some (values, d) := by
  obtain ⟨rest, hparse, hfollows⟩ := follows_parsePayload hs payload
  rw [hparse] at h
  obtain ⟨d, hP, -⟩ := hfollows.of_ok h
  exact ⟨d, hP⟩

/-- **An object with values is described.** -/
theorem describes_of_createValues {values : SerializedFileValues}
    (h : createValues mapped limits directory schema objectOrdinal allowOrdinary answers {} n =
      .ok values build' n') :
    ∃ plan : ValuesPlan, plan.Describes mapped directory schema objectOrdinal allowOrdinary := by
  have hstart : limits.Sound {} := ⟨Nat.zero_le _, Nat.zero_le _, Nat.zero_le _, Nat.zero_le _⟩
  obtain ⟨⟨object, context, profile⟩, b₀, _, hqualify, hdecode⟩ := Call.bind_eq_ok.mp h
  have hs₀ := maintains_qualify.of_ok hstart hqualify
  obtain ⟨_, b₁, _, hcharge, hqualify⟩ := Call.bind_eq_ok.mp hqualify
  have hs₁ := (maintains_charge 1 .none none noOffset).of_ok hstart hcharge
  obtain ⟨found, b₂, _, hadmission, hqualify⟩ := Call.bind_eq_ok.mp hqualify
  have hs₂ := (maintains_admitSource mapped.length).of_ok hs₁ hadmission
  obtain ⟨admitted, b₃, _, hcontext, hqualify⟩ := Call.bind_eq_ok.mp hqualify
  have hs₃ := maintains_qualifyContext.of_ok hs₂ hcontext
  obtain ⟨selected, b₄, _, hprofile, hqualify⟩ := Call.bind_eq_ok.mp hqualify
  obtain ⟨_, b₅, _, hpayload, hqualify⟩ := Call.bind_eq_ok.mp hqualify
  obtain ⟨haligned, -⟩ := Call.require_bind_eq_ok.mp hpayload
  cases hqualify
  obtain ⟨hengine, hendian, hobject, htype, hfile, hsize, hmapped⟩ := admitSource_eq_ok hadmission
  obtain ⟨hselect, hcount, hnodes⟩ := qualifyProfile_eq_ok hs₃ hprofile
  obtain ⟨values, _, _, hparse, -⟩ := Call.bind_eq_ok.mp hdecode
  obtain ⟨d, hP⟩ := parsePayload_eq_ok hs₀ hparse
  obtain ⟨fields, hspelling, hbytes, -, -⟩ :=
    (payloadFormat_eq_some (fun i e hi => (hnodes i e hi).1) hmapped).mp hP
  exact ⟨⟨object, profile, fields⟩, hengine, hendian, hobject, htype, hfile, hsize, hmapped,
    qualifyContext_entry hcontext, hselect, hcount, hnodes, haligned, hspelling, hbytes⟩

end Success

/-! ## The call -/

/-- The resource that a result reports. -/
def ValuesResult.Cites (result : ValuesResult) (k : ValueResource) : Prop :=
  (ValuesReject.mk result.status result.limit result.field result.nodeOrdinal
    result.errorOffset).Cites k

/-- What was created is told by a plan of the object. -/
theorem plan_of_create {mapped : Text} {limits : ValuesLimits} {directory : SerializedFileDirectory}
    {schema : SerializedFileSchema} {objectOrdinal : ℕ} {allowOrdinary : Bool} {answers : ℕ → Bool}
    {n m : ℕ} {result : ValuesResult} {values : SerializedFileValues}
    (h : serializedFileValuesCreate mapped limits directory schema objectOrdinal allowOrdinary
      answers none n = .ok result (some values) m) :
    ∃ plan : ValuesPlan, plan.Describes mapped directory schema objectOrdinal allowOrdinary ∧
      (∀ k, ¬ plan.Short limits (answers n) k) ∧ result = plan.result schema objectOrdinal ∧
      values = plan.owner schema ∧ m = n + 1 := by
  obtain ⟨out, _, _, hout, h⟩ := Call.bind_eq_ok.mp h
  cases hout
  obtain ⟨-, h⟩ := Call.require_bind_eq_ok.mp h
  obtain ⟨⟨created, build⟩, _, _, hcreate, h⟩ := Call.bind_eq_ok.mp h
  obtain ⟨hcreate, -⟩ := Call.enclosed_eq_ok.mp hcreate
  cases h
  obtain ⟨plan, hdescribes⟩ := describes_of_createValues hcreate
  obtain ⟨rfl, rfl, rfl, hroom⟩ := hdescribes.needs_createValues.of_ok hcreate
  exact ⟨plan, hdescribes, hroom, rfl, rfl, rfl⟩

section Exact

variable (mapped : Text) (limits : ValuesLimits) (directory : SerializedFileDirectory)
  (schema : SerializedFileSchema) (objectOrdinal : ℕ) (allowOrdinary : Bool)

/-- **When values are created**: exactly for an object that is made of fields, with
limits that cover it and an allocator that grants the one request. The owner and
the result are then told by the fields. A failure leaves the output empty, and
where there is such an object it reports a resource that was short. -/
theorem serializedFileValuesCreate_exact (answers : ℕ → Bool) (n : ℕ) :
    (∀ result values m,
      serializedFileValuesCreate mapped limits directory schema objectOrdinal allowOrdinary answers
          none n = .ok result (some values) m ↔
        ∃ plan : ValuesPlan, plan.Describes mapped directory schema objectOrdinal allowOrdinary ∧
          (∀ k, ¬ plan.Short limits (answers n) k) ∧ result = plan.result schema objectOrdinal ∧
          values = plan.owner schema ∧ m = n + 1) ∧
      ∀ result out m,
        serializedFileValuesCreate mapped limits directory schema objectOrdinal allowOrdinary answers
            none n = .error result out m →
          out = none ∧ result.workUsed ≤ limits.maxWork ∧
            ∀ plan : ValuesPlan, plan.Describes mapped directory schema objectOrdinal allowOrdinary →
              ∃ k, result.Cites k ∧ plan.Short limits (answers n) k := by
  have hstart : limits.Sound {} := ⟨Nat.zero_le _, Nat.zero_le _, Nat.zero_le _, Nat.zero_le _⟩
  have hcreated : ∀ values build m,
      createValues mapped limits directory schema objectOrdinal allowOrdinary answers {} n =
        .ok values build m →
      serializedFileValuesCreate mapped limits directory schema objectOrdinal allowOrdinary answers
        none n = .ok (valuesResult (rejectOwner .ok .none) build) (some values) m := by
    intro values build m h
    refine Call.bind_eq_ok.mpr ⟨none, none, n, rfl, Call.require_bind_eq_ok.mpr ⟨rfl, ?_⟩⟩
    exact Call.bind_eq_ok.mpr ⟨(values, build), none, m, Call.enclosed_eq_ok.mpr ⟨h, rfl⟩, rfl⟩
  have hfailed : ∀ reject build m,
      createValues mapped limits directory schema objectOrdinal allowOrdinary answers {} n =
        .error reject build m →
      serializedFileValuesCreate mapped limits directory schema objectOrdinal allowOrdinary answers
        none n = .error (valuesResult reject build) none m := by
    intro reject build m h
    refine Call.bind_eq_error.mpr (Or.inr ⟨none, none, n, rfl, ?_⟩)
    refine Call.bind_eq_error.mpr (Or.inr ⟨(), none, n, rfl, ?_⟩)
    exact Call.bind_eq_error.mpr (Or.inl (Call.enclosed_eq_error.mpr ⟨reject, build, h, rfl, rfl⟩))
  cases h : createValues mapped limits directory schema objectOrdinal allowOrdinary answers {} n with
  | ok values build m =>
      have hplan : ∀ plan : ValuesPlan,
          plan.Describes mapped directory schema objectOrdinal allowOrdinary →
          values = plan.owner schema ∧ build = plan.decoded schema objectOrdinal ∧ m = n + 1 ∧
            ∀ k, ¬ plan.Short limits (answers n) k :=
        fun plan hplan => hplan.needs_createValues.of_ok h
      rw [hcreated values build m h]
      refine ⟨fun result values' m' => ⟨?_, ?_⟩, fun result out m' herr => by cases herr⟩
      · intro hok
        rw [← hcreated values build m h] at hok
        exact plan_of_create hok
      · rintro ⟨plan, hdescribes, -, rfl, rfl, rfl⟩
        obtain ⟨rfl, rfl, rfl, -⟩ := hplan plan hdescribes
        rfl
  | error reject build m =>
      rw [hfailed reject build m h]
      refine ⟨fun result values m' => ⟨fun hok => (by cases hok), ?_⟩, fun result out m' herr => ?_⟩
      · rintro ⟨plan, hdescribes, hroom, -, -, -⟩
        rw [hdescribes.needs_createValues.ok hroom] at h
        cases h
      · cases herr
        have hwork : limits.Sound build := maintains_createValues.of_error hstart h
        refine ⟨rfl, hwork.work, fun plan hdescribes => ?_⟩
        exact (hdescribes.needs_createValues.of_error h).2

end Exact

end UnityCommon.Values
