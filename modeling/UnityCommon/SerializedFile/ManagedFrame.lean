import UnityCommon.SerializedFile.ManagedValues

/-!
# What the passes leave alone

A pass over the payload moves the cursor and the work, writes the storage where
there is one and compiles schemas where there is none. A property of the memory,
the storage and the types that survives these survives both passes.
-/

namespace UnityCommon.ManagedValues

open UnityCommon.Metadata
open Call (Maintains Triple)

variable {answers : ℕ → Bool}

/-- A property that does not see the work, or what is reported of a nested call. -/
def Quiet (I : ManagedBuild → Prop) : Prop :=
  ∀ build build' : ManagedBuild, build.memory = build'.memory → build.storage = build'.storage →
    build.types = build'.types → build.cursor = build'.cursor → I build → I build'

/-- A property of the memory, the storage and the types. -/
def Framed (I : ManagedBuild → Prop) : Prop :=
  ∀ build build' : ManagedBuild, build.memory = build'.memory → build.storage = build'.storage →
    build.types = build'.types → I build → I build'

theorem Framed.quiet {I : ManagedBuild → Prop} (h : Framed I) : Quiet I :=
  fun build build' hmemory hstorage htypes _ => h build build' hmemory hstorage htypes

/-- A property that a write to the storage keeps. -/
def KeptBy (I : ManagedBuild → Prop) (store : ManagedStorage → ManagedStorage) : Prop :=
  ∀ build, I build → I { build with storage := build.storage.map store }

section Frame

variable {mapped : Text} {limits : ManagedValuesLimits} {I : ManagedBuild → Prop}

theorem maintains_charge (hI : Quiet I) (amount : ℕ) (field : ManagedValuesField)
    (node : Option ℕ) (offset : ℕ) :
    Maintains answers I (charge limits amount field node offset) :=
  Maintains.current.bind fun _ => (Maintains.require _ _).bind fun _ =>
    Maintains.modify fun build h => hI build _ rfl rfl rfl rfl h

theorem maintains_takeSpan (hI : Framed I) (width : ℕ) (field : ManagedValuesField) (node : ℕ) :
    Maintains answers I (takeSpan limits width field node) :=
  Maintains.current.bind fun _ => (Maintains.require _ _).bind fun _ =>
    (maintains_charge hI.quiet _ _ _ _).bind fun _ =>
    Maintains.modifying (fun build h => hI build _ rfl rfl rfl h) <| Maintains.pure _

theorem maintains_beginValue (hI : Quiet I) (schema : ManagedSchema) (node : ℕ)
    (kind : ManagedValueKind) :
    Maintains answers I (beginValue limits schema node kind) :=
  Maintains.current.bind fun _ => (Maintains.require _ _).bind fun _ =>
    Maintains.modifying (fun build h => hI build _ rfl rfl rfl rfl h) <| Maintains.pure _

theorem maintains_readPadding (hI : Framed I) (node : ℕ) :
    Maintains answers I (readPadding limits node) :=
  Maintains.current.bind fun _ => (Maintains.require _ _).bind fun _ =>
    Maintains.modifying (fun build h => hI build _ rfl rfl rfl h) <|
    maintains_takeSpan hI _ _ _

theorem maintains_storeAt {store : ManagedStorage → ManagedStorage} (hstore : KeptBy I store)
    (planned : ManagedPlan → ℕ) (ordinal : ℕ) (field : ManagedValuesField) (node offset : ℕ) :
    Maintains answers I (storeAt planned ordinal field node offset store) :=
  Maintains.current.bind fun _ => (Maintains.require _ _).bind fun _ => Maintains.modify hstore

theorem maintains_completeValue (hI : Framed I)
    (hvalue : ∀ ordinal value, KeptBy I (·.setValue ordinal value)) (start : ℕ)
    (value : ManagedValue) :
    Maintains answers I (completeValue limits start value) :=
  Maintains.current.bind fun _ => (maintains_charge hI.quiet _ _ _ _).bind fun _ =>
    (maintains_storeAt (hvalue _ _) _ _ _ _ _).bind fun _ =>
    Maintains.modifying (fun build h => hI build _ rfl rfl rfl h) <| Maintains.pure _

end Frame

/-- A property that the reading of a value keeps. -/
structure ValueInvariant (I : ManagedBuild → Prop) : Prop where
  framed : Framed I
  setValue : ∀ ordinal value, KeptBy I (·.setValue ordinal value)

/-- The build with another type in the cache. -/
def ManagedBuild.cacheType (build : ManagedBuild) (type : CachedSchema) : ManagedBuild :=
  { build with types := build.types ++ [type] }

/-- A property that every write of a pass keeps, and a schema compiled and cached
while there is no storage. -/
structure PassInvariant (answers : ℕ → Bool) (mapped : Text) (limits : ManagedValuesLimits)
    (directory : SerializedFileDirectory) (tail : SerializedFileMetadataTail)
    (I : ManagedBuild → Prop) : Prop extends ValueInvariant I where
  setRow : ∀ ordinal row, KeptBy I (·.setRow ordinal row)
  setSlot : ∀ ordinal slot, KeptBy I (·.setSlot ordinal slot)
  createSchema : ∀ ordinal,
    Triple answers (fun build => I build ∧ build.storage.isNone = true)
      (createSchema mapped limits directory tail ordinal true)
      (fun schema build => ∀ ordinal original, I (build.cacheType ⟨schema, ordinal, original⟩))
      fun _ => I

/-! Nested queries leave the build alone. -/

section Nested

variable {σ : Type}

theorem keeps_schemaContextQuery {schema : SerializedFileSchema} {kind : SchemaContextKind}
    {maxWork : ℕ} : Call.Keeps (σ := σ) (serializedFileSchemaContextQuery schema kind maxWork) :=
  (Call.keeps_enclosed _ _ _).bind fun _ => Call.keeps_pure _

theorem keeps_managedProfileQualify {schema : SerializedFileSchema} {kind : SchemaContextKind}
    {maxWork : ℕ} :
    Call.Keeps (σ := σ) (serializedFileManagedProfileQualify schema kind maxWork) :=
  (Call.keeps_enclosed _ _ _).bind fun _ => Call.keeps_pure _

theorem keeps_referenceIndexQuery {mapped : Text} {index : SerializedFileReferenceIndex}
    {key : ReferenceKey} {queryLimits : ReferenceQueryLimits} :
    Call.Keeps (σ := σ) (serializedFileReferenceIndexQuery mapped index key queryLimits) :=
  (Call.keeps_enclosed _ _ _).bind fun _ => Call.keeps_pure _

end Nested

/-- A nested call whose record the property does not see. -/
theorem maintains_nested {α ρ : Type} {I : ManagedBuild → Prop}
    {x : Call ρ ManagedBuild (α × ρ)} {note : Option α → ρ → ManagedBuild → ManagedBuild}
    {reject : ρ → ManagedReject} (hkeeps : Call.Keeps x)
    (hnote : ∀ made ran build, I build → I (note made ran build)) :
    Maintains answers I (Call.nested x note reject) :=
  Triple.nested hkeeps (V := fun _ _ => True) (F := fun _ => True)
    (fun _ _ _ _ _ _ _ => trivial) (fun _ _ _ _ _ _ => trivial)
    (fun build _ ran h _ => hnote _ ran build h) fun build ran h _ => hnote _ ran build h

section Query

variable {mapped : Text} {limits : ManagedValuesLimits} {I : ManagedBuild → Prop} (hI : Quiet I)

include hI

theorem maintains_qualifySchema (owner : SerializedFileSchema) (kind : SchemaContextKind) :
    Maintains answers I (qualifySchema limits owner kind) := by
  refine Maintains.current.bind fun _ => Maintains.bind ?_ fun _ =>
    Maintains.current.bind fun _ => Maintains.bind ?_ fun _ => Maintains.pure _
  · exact maintains_nested keeps_schemaContextQuery fun _ _ build h => hI build _ rfl rfl rfl rfl h
  · exact maintains_nested keeps_managedProfileQualify fun _ _ build h =>
      hI build _ rfl rfl rfl rfl h

theorem maintains_matchTerminator (parts : List (ManagedValue × Text)) :
    Maintains answers I (matchTerminator mapped limits parts) := by
  induction parts with
  | nil => exact Maintains.pure _
  | cons part parts ih =>
      obtain ⟨value, name⟩ := part
      refine (maintains_charge hI _ _ _ _).bind fun _ => ?_
      split
      · exact Maintains.pure _
      · refine (maintains_charge hI _ _ _ _).bind fun _ => ?_
        split
        · exact Maintains.pure _
        · exact ih

theorem maintains_queryRowType (index : SerializedFileReferenceIndex)
    (identity : ManagedIdentity) :
    Maintains answers I (queryRowType mapped limits index identity) := by
  refine Maintains.current.bind fun _ => Maintains.bind ?_ fun _ =>
    Maintains.modifying (fun build h => hI build _ rfl rfl rfl rfl h) <| Maintains.pure _
  exact maintains_nested keeps_referenceIndexQuery fun _ _ build h =>
    hI build _ rfl rfl rfl rfl h

theorem maintains_findType (originalOrdinal index : ℕ) (types : List CachedSchema) :
    Maintains answers I (findType limits originalOrdinal index types) := by
  induction types generalizing index with
  | nil => exact Maintains.pure _
  | cons type types ih =>
      refine (maintains_charge hI _ _ _ _).bind fun _ => ?_
      split
      · exact Maintains.pure _
      · exact ih _

end Query

section Value

variable {mapped : Text} {limits : ManagedValuesLimits} {I : ManagedBuild → Prop}
  (hI : ValueInvariant I)

include hI

theorem maintains_readScalar (schema : ManagedSchema) (node : ℕ) (kind : ManagedValueKind) :
    Maintains answers I (readScalar mapped limits schema node kind) := by
  have hframed := hI.framed
  refine (maintains_beginValue hframed.quiet _ _ _).bind fun value => Maintains.current.bind fun _ => ?_
  refine (Maintains.require _ _).bind fun _ => (Maintains.require _ _).bind fun _ => ?_
  refine Maintains.modifying (fun build h => hframed build _ rfl rfl rfl h) <| ?_
  refine (maintains_takeSpan hframed _ _ _).bind fun scalar => ?_
  dsimp only
  split
  · exact (maintains_readPadding hframed _).bind fun _ =>
      maintains_completeValue hframed hI.setValue _ _
  · exact maintains_completeValue hframed hI.setValue _ _

theorem maintains_readString (schema : ManagedSchema) (node : ℕ) :
    Maintains answers I (readString mapped limits schema node) := by
  have hframed := hI.framed
  refine (maintains_beginValue hframed.quiet _ _ _).bind fun value => Maintains.current.bind fun _ => ?_
  refine (maintains_takeSpan hframed _ _ _).bind fun length => ?_
  refine (Maintains.require _ _).bind fun _ => (Maintains.require _ _).bind fun _ => ?_
  refine Maintains.current.bind fun _ => (Maintains.require _ _).bind fun _ => ?_
  refine Maintains.modifying (fun build h => hframed build _ rfl rfl rfl h) <| ?_
  exact (maintains_takeSpan hframed _ _ _).bind fun _ =>
    (maintains_readPadding hframed _).bind fun _ =>
    maintains_completeValue hframed hI.setValue _ _

end Value

section Pass

variable {mapped : Text} {limits : ManagedValuesLimits} {directory : SerializedFileDirectory}
  {tail : SerializedFileMetadataTail} {I : ManagedBuild → Prop}
  (hI : PassInvariant answers mapped limits directory tail I)

include hI

theorem maintains_readRidSlot (schema : ManagedSchema) (node : ℕ) :
    Maintains answers I (readRidSlot mapped limits schema node) :=
  Maintains.current.bind fun _ => (Maintains.require _ _).bind fun _ =>
    (maintains_readScalar hI.toValueInvariant _ _ _).bind fun _ =>
    (maintains_charge hI.framed.quiet _ _ _ _).bind fun _ =>
    (maintains_storeAt (hI.setSlot _ _) _ _ _ _ _).bind fun _ =>
    Maintains.modify fun build h => hI.framed build _ rfl rfl rfl h

theorem maintains_readCount (schema : ManagedSchema) (node maximum : ℕ)
    (limit : ManagedValuesLimit) (field : ManagedValuesField) :
    Maintains answers I (readCount mapped limits schema node maximum limit field) :=
  (maintains_readScalar hI.toValueInvariant _ _ _).bind fun _ => (Maintains.require _ _).bind fun _ =>
    (Maintains.require _ _).bind fun _ => Maintains.pure _

theorem maintains_readHostFields (schema : ManagedSchema) :
    Maintains answers I (readHostFields mapped limits schema) :=
  (maintains_readScalar hI.toValueInvariant _ _ _).bind fun _ => (maintains_readScalar hI.toValueInvariant _ _ _).bind fun _ =>
    (maintains_readScalar hI.toValueInvariant _ _ _).bind fun _ => (maintains_readScalar hI.toValueInvariant _ _ _).bind fun _ =>
    (maintains_readScalar hI.toValueInvariant _ _ _).bind fun _ => (maintains_readString hI.toValueInvariant _ _).bind fun _ =>
    (maintains_readString hI.toValueInvariant _ _).bind fun _ => (maintains_readRidSlot hI _ _).bind fun _ =>
    (maintains_readRidSlot hI _ _).bind fun _ => (maintains_readCount hI _ _ _ _ _).bind fun _ =>
    (Maintains.replicate (maintains_readRidSlot hI _ _) _).bind fun _ => Maintains.pure _

section Row

variable (host : ManagedSchema) (index : SerializedFileReferenceIndex) (typeCapacity : ℕ)

/-- Without a storage the schema is compiled, with one it is refused. -/
theorem maintains_cacheType (originalOrdinal : ℕ) :
    Maintains answers I
      (cacheType mapped limits directory tail index typeCapacity originalOrdinal) := by
  refine Maintains.reading fun build hbuild => Triple.requiring (fun _ => hbuild) fun hnone => ?_
  refine Triple.requiring (fun _ => hbuild) fun _ => Triple.choosing (fun _ => hbuild) fun _ _ => ?_
  refine Triple.bind ((hI.createSchema originalOrdinal).pre ?_) fun schema =>
    Triple.bind (Triple.modify (Q := fun _ => I) fun build h => h _ _) fun _ => Maintains.pure _
  rintro _ rfl
  exact ⟨hbuild, hnone⟩

theorem maintains_selectSchema (originalOrdinal : ℕ) :
    Maintains answers I
      (selectSchema mapped limits directory tail index typeCapacity originalOrdinal) := by
  refine Maintains.current.bind fun build => (maintains_findType hI.framed.quiet _ _ _).bind fun found => ?_
  cases found with
  | some found => exact Maintains.pure _
  | none => exact maintains_cacheType hI index typeCapacity originalOrdinal

theorem maintains_readSelectedPayload (type : CachedSchema) :
    Maintains answers I (readSelectedPayload mapped limits host type) := by
  have hlast : Maintains answers I (Call.modify fun build =>
      { build with typeOrdinal := some host.owner.view.typeOrdinal } :
        Call ManagedReject ManagedBuild Unit) :=
    Maintains.modify fun build h => hI.framed build _ rfl rfl rfl h
  refine (maintains_readScalar hI.toValueInvariant _ _ _).bind fun _ => ?_
  dsimp only
  split
  · exact (maintains_readString hI.toValueInvariant _ _).bind fun _ =>
      (maintains_readRidSlot hI _ _).bind fun _ => hlast
  · exact (maintains_readScalar hI.toValueInvariant _ _ _).bind fun _ =>
      (maintains_readRidSlot hI _ _).bind fun _ => hlast

theorem maintains_readRowPayload (rid : ManagedValue) (identity : ManagedIdentity)
    (found : ReferenceMatch) :
    Maintains answers I
      (readRowPayload mapped limits directory tail host index typeCapacity rid identity found) := by
  unfold readRowPayload
  split
  · exact Maintains.pure _
  · exact (Maintains.require _ _).bind fun _ => (Maintains.require _ _).bind fun _ =>
      (maintains_selectSchema hI _ _ _).bind fun _ =>
      (maintains_readSelectedPayload hI _ _).bind fun _ => Maintains.pure _

theorem maintains_readRegistryRow :
    Maintains answers I
      (readRegistryRow mapped limits directory tail host index typeCapacity) :=
  Maintains.modifying (fun build h => hI.framed build _ rfl rfl rfl h) <|
    Maintains.current.bind fun _ => (maintains_readScalar hI.toValueInvariant _ _ _).bind fun _ =>
    (maintains_readString hI.toValueInvariant _ _).bind fun _ => (maintains_readString hI.toValueInvariant _ _).bind fun _ =>
    (maintains_readString hI.toValueInvariant _ _).bind fun _ => Maintains.current.bind fun _ =>
    ((maintains_matchTerminator hI.framed.quiet _).bind fun _ => Maintains.require _ _).bind fun _ =>
    (maintains_queryRowType hI.framed.quiet _ _).bind fun _ =>
    (maintains_readRowPayload hI _ _ _ _ _ _).bind fun _ => Maintains.current.bind fun _ =>
    (maintains_charge hI.framed.quiet _ _ _ _).bind fun _ =>
    (maintains_storeAt (hI.setRow _ _) _ _ _ _ _).bind fun _ =>
    Maintains.modify fun build h => hI.framed build _ rfl rfl rfl h

/-- **A pass keeps the property.** -/
theorem maintains_parsePayload (payload : PrefixRange) :
    Maintains answers I
      (parsePayload mapped limits directory tail host index typeCapacity payload) :=
  Maintains.modifying (fun build h => hI.framed build _ rfl rfl rfl h) <|
    (maintains_readHostFields hI _).bind fun _ => Maintains.current.bind fun _ =>
    (maintains_readScalar hI.toValueInvariant _ _ _).bind fun _ =>
    (Maintains.require _ _).bind fun _ => (maintains_readCount hI _ _ _ _ _).bind fun _ =>
    (Maintains.replicate (maintains_readRegistryRow hI _ _ _) _).bind fun _ =>
    Maintains.current.bind fun _ => (Maintains.require _ _).bind fun _ =>
    (Maintains.require _ _).bind fun _ => Maintains.pure _

end Row

end Pass

end UnityCommon.ManagedValues
