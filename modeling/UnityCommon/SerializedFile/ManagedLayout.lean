import UnityCommon.SerializedFile.ManagedPass

/-!
# The layout of a managed payload

Which values the payload of an object consists of: the fields of the host with
the elements of its array, the version and the count of the registry, and row by
row a rid, an identity and what the selected type has. A pass reads them in this
order and no others.
-/

namespace UnityCommon.ManagedValues

open UnityCommon.Metadata
open Call (Maintains Triple)

/-- The fields of the host; every element of its array is a reference. -/
def hostPlaces (host : ManagedSchema) (elements : ℕ) : List PayloadPlace :=
  [⟨host, 2, .scalar, none⟩, ⟨host, 3, .scalar, none⟩, ⟨host, 4, .scalar, none⟩,
    ⟨host, 6, .scalar, none⟩, ⟨host, 7, .scalar, none⟩, ⟨host, 8, .text, none⟩,
    ⟨host, 12, .text, none⟩, ⟨host, 17, .reference, none⟩, ⟨host, 19, .reference, none⟩,
    ⟨host, 22, .scalar, none⟩] ++ List.replicate elements ⟨host, 24, .reference, none⟩

/-- The payload of a row, with the one reference of its type. -/
def selectedPlaces (schema : ManagedSchema) (row : Option ℕ) : List PayloadPlace :=
  if schema.profile.kind = .text then
    [⟨schema, 1, .scalar, row⟩, ⟨schema, 2, .text, row⟩, ⟨schema, 7, .reference, row⟩]
  else [⟨schema, 1, .scalar, row⟩, ⟨schema, 2, .scalar, row⟩, ⟨schema, 4, .reference, row⟩]

/-- The type that the payload of a row is read by. -/
def RegistryRow.type (types : List CachedSchema) (row : RegistryRow) : Option CachedSchema :=
  row.selectedTypeOrdinal.bind (types[·]?)

/-- A row without a type is null. -/
def rowKindOf (type : Option CachedSchema) : RegistryRowKind :=
  if type.isSome then .selectedPayload else .null

def rowPlaces (host : ManagedSchema) (types : List CachedSchema) (row : RegistryRow) :
    List PayloadPlace :=
  [⟨host, 31, .rowRid, some row.ordinal⟩, ⟨host, 33, .text, some row.ordinal⟩,
    ⟨host, 37, .text, some row.ordinal⟩, ⟨host, 41, .text, some row.ordinal⟩] ++
    (row.type types).elim [] fun type => selectedPlaces type.toManagedSchema (some row.ordinal)

def payloadPlaces (host : ManagedSchema) (types : List CachedSchema) (elements : ℕ)
    (rows : List RegistryRow) : List PayloadPlace :=
  hostPlaces host elements ++ ([⟨host, 26, .scalar, none⟩, ⟨host, 29, .scalar, none⟩] ++
    rows.flatMap (rowPlaces host types))

/-! ## The host -/

section Host

variable {pass : SecondPass} {row : Option ℕ} {limits : ManagedValuesLimits}

theorem appends_readCount (schema : ManagedSchema) (node maximum : ℕ) (limit : ManagedValuesLimit)
    (field : ManagedValuesField) :
    Appends pass row (readCount pass.mapped limits schema node maximum limit field)
      fun count next => ∃ value, next = .one ⟨⟨schema, node, .scalar, row⟩, value⟩ ∧
        value.rawBits.toNat = count.1 := by
  refine (Appends.readScalar schema node .scalar (by decide) _).bind fun value first hfirst => ?_
  refine Appends.requiring fun _ => Appends.requiring fun _ => Appends.pure ⟨value, ?_, rfl⟩
  rw [PassLog.append_empty, hfirst]

theorem appends_references (schema : ManagedSchema) (node count : ℕ) :
    Appends pass row (Call.replicate count (readRidSlot pass.mapped limits schema node))
      fun _ => PassLog.At (List.replicate count ⟨schema, node, .reference, row⟩) := by
  refine Appends.replicate (fun count => PassLog.At (List.replicate count ⟨schema, node,
    .reference, row⟩)) ⟨rfl, rfl⟩ ?_ (Appends.readRidSlot schema node) count
  rintro count - _ next ⟨value, rfl⟩ hnext
  have hone : (PassLog.one ⟨⟨schema, node, .reference, row⟩, value⟩).At
      [⟨schema, node, .reference, row⟩] := ⟨rfl, rfl⟩
  exact hone.append hnext

/-- **The fields of the host**, with the count of the elements in the tenth value. -/
theorem appends_readHostFields (host : ManagedSchema) :
    Appends pass none (readHostFields pass.mapped limits host) fun array next =>
      next.At (hostPlaces host array.1) ∧
        next.readings[9]?.map (·.value.rawBits.toNat) = some array.1 := by
  have scalar : ∀ node kind, Appends pass none (readScalar pass.mapped limits host node kind)
      fun value next => next = .one ⟨⟨host, node, .scalar, none⟩, value⟩ :=
    fun node kind => Appends.readScalar host node .scalar (by decide) kind
  refine (scalar 2 _).bind ?_
  rintro v₁ _ rfl
  refine (scalar 3 _).bind ?_
  rintro v₂ _ rfl
  refine (scalar 4 _).bind ?_
  rintro v₃ _ rfl
  refine (scalar 6 _).bind ?_
  rintro v₄ _ rfl
  refine (scalar 7 _).bind ?_
  rintro v₅ _ rfl
  refine (Appends.readString host 8).bind ?_
  rintro v₆ _ rfl
  refine (Appends.readString host 12).bind ?_
  rintro v₇ _ rfl
  refine (Appends.readRidSlot host 17).bind ?_
  rintro _ _ ⟨v₈, rfl⟩
  refine (Appends.readRidSlot host 19).bind ?_
  rintro _ _ ⟨v₉, rfl⟩
  refine (appends_readCount host 22 _ _ _).bind ?_
  rintro ⟨count, countValue⟩ _ ⟨v₁₀, rfl, hcount⟩
  refine (appends_references host 24 count).bind fun _ elements helements => Appends.pure ?_
  obtain ⟨hrows, hplaces⟩ := helements
  simp [PassLog.At, PassLog.one, hostPlaces, hrows, hplaces, hcount]

end Host

/-! ## The selected type -/

section Select

variable {answers : ℕ → Bool} {pass : SecondPass} {row : Option ℕ} {limits : ManagedValuesLimits}
  {directory : SerializedFileDirectory} {tail : SerializedFileMetadataTail}

/-- What is found is where it says. -/
theorem triple_findType {I : ManagedBuild → Prop} (hI : Quiet I) (originalOrdinal : ℕ)
    (before types : List CachedSchema) :
    Triple answers I (findType limits originalOrdinal before.length types)
      (fun found build => (∀ at_ ∈ found, (before ++ types)[at_.1]? = some at_.2) ∧ I build)
      fun _ _ => True := by
  induction types generalizing before with
  | nil => exact Triple.pure fun _ h => ⟨by simp, h⟩
  | cons type types ih =>
      refine Triple.bind (Q := fun _ => I) ((maintains_charge hI _ _ _ _).consequence
        (fun _ h => h) (fun _ _ h => h) fun _ _ _ => trivial) fun _ => ?_
      split
      · exact Triple.pure fun _ h => ⟨by simp, h⟩
      · have hrest := ih (before ++ [type])
        rw [List.length_append, List.append_assoc] at hrest
        exact hrest

/-- With a storage no type is added to the cache. -/
theorem appends_selectSchema (index : SerializedFileReferenceIndex)
    (typeCapacity originalOrdinal : ℕ) :
    Appends pass row (selectSchema pass.mapped limits directory tail index typeCapacity
      originalOrdinal) fun found next => next = {} ∧ pass.types[found.1]? = some found.2 := by
  refine fun answers log => Triple.each fun build hbuild => Triple.reading ?_
  obtain ⟨_, hwritten⟩ := hbuild.2
  rw [hwritten.types]
  refine Triple.bind ((triple_findType quiet_between originalOrdinal [] pass.types).here hbuild)
    fun found => Triple.knowing fun hfound => ?_
  cases found with
  | some found =>
      refine Triple.pure fun after hafter => ⟨{}, ⟨rfl, hfound found rfl⟩, ?_⟩
      rwa [PassLog.append_empty]
  | none =>
      refine Triple.each fun after hafter => Triple.reading ?_
      obtain ⟨_, hwritten⟩ := hafter.2
      obtain ⟨storage, hstorage, -⟩ := hwritten.stored
      refine Triple.requiring (fun _ => trivial) fun hnone => ?_
      rw [hstorage] at hnone
      cases hnone

theorem appends_readSelectedPayload (host : ManagedSchema) (type : CachedSchema) :
    Appends pass row (readSelectedPayload pass.mapped limits host type)
      fun _ => PassLog.At (selectedPlaces type.toManagedSchema row) := by
  have scalar : ∀ node kind,
      Appends pass row (readScalar pass.mapped limits type.toManagedSchema node kind)
        fun value next => next = .one ⟨⟨type.toManagedSchema, node, .scalar, row⟩, value⟩ :=
    fun node kind => Appends.readScalar _ node .scalar (by decide) kind
  have hlast : Appends pass row (Call.modify fun build =>
      { build with typeOrdinal := some host.owner.view.typeOrdinal }) fun _ next => next = {} :=
    Appends.quietly fun hI => Maintains.modify fun build h => hI build _ rfl rfl rfl rfl h
  refine (scalar 1 _).bind ?_
  rintro v₁ _ rfl
  dsimp only
  unfold selectedPlaces
  split
  · refine (Appends.readString _ 2).bind ?_
    rintro v₂ _ rfl
    refine (Appends.readRidSlot _ 7).bind ?_
    rintro _ _ ⟨v₃, rfl⟩
    refine hlast.mono ?_
    rintro _ _ rfl
    simp [PassLog.At, PassLog.one]
  · refine (scalar 2 _).bind ?_
    rintro v₂ _ rfl
    refine (Appends.readRidSlot _ 4).bind ?_
    rintro _ _ ⟨v₃, rfl⟩
    refine hlast.mono ?_
    rintro _ _ rfl
    simp [PassLog.At, PassLog.one]

theorem appends_readRowPayload (host : ManagedSchema) (index : SerializedFileReferenceIndex)
    (typeCapacity : ℕ) (rid : ManagedValue) (identity : ManagedIdentity) (found : ReferenceMatch) :
    Appends pass row (readRowPayload pass.mapped limits directory tail host index typeCapacity rid
        identity found)
      fun result next => ∃ type, result.1 = rowKindOf type ∧
        result.2.bind (pass.types[·]?) = type ∧
        next.At (type.elim [] fun type => selectedPlaces type.toManagedSchema row) := by
  unfold readRowPayload
  split
  · exact Appends.pure ⟨none, rfl, rfl, rfl, rfl⟩
  · refine Appends.requiring fun _ => Appends.requiring fun _ => ?_
    refine (appends_selectSchema index typeCapacity _).bind ?_
    rintro ⟨ordinal, type⟩ _ ⟨rfl, htype⟩
    refine (appends_readSelectedPayload host type).bind fun _ next hnext => Appends.pure ?_
    rw [PassLog.append_empty]
    exact ⟨some type, rfl, htype, hnext⟩

end Select

/-! ## The registry -/

/-- Rows with their values, each row telling its rid. -/
structure PassLog.TellsRows (host : ManagedSchema) (types : List CachedSchema) (next : PassLog) :
    Prop where
  places : next.readings.map (·.place) = next.rows.flatMap (rowPlaces host types)
  rids : next.rows.map (fun row => (row.ridValueOrdinal, row.ridBits)) =
    (valuesOf .rowRid next.readings).map fun value => (value.ordinal, value.rawBits)
  kinds : ∀ row ∈ next.rows, row.kind = rowKindOf (row.type types)

namespace PassLog

variable {host : ManagedSchema} {types : List CachedSchema} {first next : PassLog}

theorem TellsRows.append (hfirst : first.TellsRows host types) (hnext : next.TellsRows host types) :
    (first ++ next).TellsRows host types := by
  constructor
  · rw [append_readings, append_rows, List.map_append, List.flatMap_append, hfirst.places,
      hnext.places]
  · rw [append_readings, append_rows, List.map_append, valuesOf_append, List.map_append,
      hfirst.rids, hnext.rids]
  · intro row hrow
    rcases List.mem_append.mp hrow with hrow | hrow
    · exact hfirst.kinds row hrow
    · exact hnext.kinds row hrow

/-- No value of a payload is the rid of a row. -/
theorem At.valuesOf_rowRid {schema : Option CachedSchema} {registryRow : Option ℕ}
    (h : next.At (schema.elim [] fun type => selectedPlaces type.toManagedSchema registryRow)) :
    valuesOf .rowRid next.readings = [] := by
  refine valuesOf_eq_nil fun place hplace => ?_
  rw [h.2] at hplace
  cases schema with
  | none => cases hplace
  | some type =>
      simp only [Option.elim_some, selectedPlaces] at hplace
      split at hplace <;> simp only [List.mem_cons, List.not_mem_nil, or_false] at hplace <;>
        rcases hplace with rfl | rfl | rfl <;> simp

/-- The values of one row, and the row. -/
theorem tellsRows_row {ordinal : ℕ} {row : RegistryRow} {type : Option CachedSchema}
    {rid className namespaceName assemblyName : ManagedValue} {payload : PassLog}
    (hordinal : row.ordinal = ordinal) (hvalue : row.ridValueOrdinal = rid.ordinal)
    (hbits : row.ridBits = rid.rawBits) (hkind : row.kind = rowKindOf type)
    (htype : row.type types = type)
    (hpayload : payload.At
      (type.elim [] fun type => selectedPlaces type.toManagedSchema (some ordinal))) :
    let next : PassLog := one ⟨⟨host, 31, .rowRid, some ordinal⟩, rid⟩ ++
      (one ⟨⟨host, 33, .text, some ordinal⟩, className⟩ ++
        (one ⟨⟨host, 37, .text, some ordinal⟩, namespaceName⟩ ++
          (one ⟨⟨host, 41, .text, some ordinal⟩, assemblyName⟩ ++
            (payload ++ { rows := [row] }))))
    next.rows.length = 1 ∧ next.TellsRows host types := by
  have hrid := hpayload.valuesOf_rowRid
  obtain ⟨hrows, hplaces⟩ := hpayload
  subst hordinal htype
  refine ⟨by simp [one, hrows], ?_, ?_, ?_⟩
  · simp [one, hrows, hplaces, rowPlaces]
  · simp [one, hrows, hrid, valuesOf_cons, hvalue, hbits]
  · simpa [one, hrows] using hkind

end PassLog

section Rows

variable {answers : ℕ → Bool} {pass : SecondPass} {limits : ManagedValuesLimits}
  {directory : SerializedFileDirectory} {tail : SerializedFileMetadataTail}
  (host : ManagedSchema) (index : SerializedFileReferenceIndex) (typeCapacity : ℕ)

/-- Before a row or behind it, whichever row was read last. -/
def ManagedBuild.Stands (pass : SecondPass) (log : PassLog) (build : ManagedBuild) : Prop :=
  ∃ row, build.Between pass row log (slotsOf log.readings)

/-- **A row is stored** behind those before it. -/
theorem triple_storeRow {registryRow : Option ℕ} {log : PassLog} {ordinal : ℕ}
    (hplace : ordinal = log.rows.length) (offset : ℕ) (row : RegistryRow)
    (hordinal : row.ordinal = ordinal) :
    Triple answers (ManagedBuild.Between pass registryRow log (slotsOf log.readings))
      (do
        charge limits 1 .referenceIdentity (some 30) offset
        storeAt (·.registryRowCount) ordinal .referenceIdentity 30 offset (·.setRow ordinal row)
        Call.modify fun build =>
          { build with cursor := { build.cursor with rows := build.cursor.rows + 1 } })
      (fun _ => ManagedBuild.Between pass registryRow (log ++ { rows := [row] })
        (slotsOf (log ++ { rows := [row] }).readings)) fun _ _ => True := by
  rw [PassLog.append_readings, List.append_nil]
  refine Triple.bind (Q := fun _ => ManagedBuild.Between pass registryRow log
    (slotsOf log.readings)) ((maintains_charge quiet_between _ _ _ _).consequence (fun _ h => h) (fun _ _ h => h)
      fun _ _ _ => trivial) fun _ => ?_
  refine Triple.knowing fun hsound => Triple.existing fun start => Triple.each fun build hbuild => ?_
  refine Triple.bind (triple_storeAt (log ++ { rows := [row] }) (slotsOf log.readings) _ _ _ _ ?_
    hbuild) fun _ => Triple.modify ?_
  · intro storage hholds hroom
    rw [hplace] at hroom ⊢
    refine { hholds with values := ?_, rows := hholds.rows.push row hroom }
    rw [PassLog.append_readings, List.append_nil]
    exact hholds.values
  · rintro _ ⟨storage, hholds, rfl⟩
    refine ⟨hsound.addRow (hordinal.trans hplace), start, { hbuild with
      stored := ⟨storage, rfl, hholds⟩, values := ?_, rows := ?_, tiles := ?_ }⟩
    · rw [PassLog.append_readings, List.append_nil]
      exact hbuild.values
    · show build.cursor.rows + 1 = _
      rw [hbuild.rows, PassLog.append_rows, List.length_append]
      rfl
    · rw [PassLog.append_readings, List.append_nil]
      exact hbuild.tiles

theorem triple_readRegistryRow (log : PassLog) :
    Triple answers (ManagedBuild.Stands pass log)
      (readRegistryRow pass.mapped limits directory tail host index typeCapacity)
      (fun _ build => ∃ next, (next.rows.length = 1 ∧ next.TellsRows host pass.types) ∧
        build.Stands pass (log ++ next)) fun _ _ => True := by
  refine Triple.existing fun before => ?_
  refine Triple.bind (Triple.modify (Q := fun _ => ManagedBuild.Between pass (some log.rows.length)
    log (slotsOf log.readings)) ?_) fun _ => ?_
  · rintro build ⟨hsound, start, hbuild⟩
    exact ⟨hsound, start, { hbuild with registryRow := congrArg some hbuild.rows }⟩
  refine Triple.each fun started hstarted => Triple.reading ?_
  have hrows : started.cursor.rows = log.rows.length := hstarted.2.choose_spec.rows
  refine Triple.bind ((Appends.readScalar host 31 .rowRid (by decide) _ answers log).here hstarted)
    fun rid => Triple.existing fun _ => Triple.knowing fun hrid => ?_
  subst hrid
  refine Triple.bind (Appends.readString host 33 answers _) fun className =>
    Triple.existing fun _ => Triple.knowing fun hclass => ?_
  subst hclass
  refine Triple.bind (Appends.readString host 37 answers _) fun namespaceName =>
    Triple.existing fun _ => Triple.knowing fun hnamespace => ?_
  subst hnamespace
  refine Triple.bind (Appends.readString host 41 answers _) fun assemblyName =>
    Triple.existing fun _ => Triple.knowing fun hassembly => ?_
  subst hassembly
  refine Triple.each fun identified hidentified => Triple.reading ?_
  have hquiet : ∀ {α : Type} {x : Call ManagedReject ManagedBuild α} {row : Option ℕ}
      {log : PassLog}, (∀ {answers I}, Quiet I → Maintains answers I x) →
      Triple answers (ManagedBuild.Between pass row log (slotsOf log.readings)) x
        (fun _ => ManagedBuild.Between pass row log (slotsOf log.readings)) fun _ _ => True :=
    fun h => (h quiet_between).consequence (fun _ h => h) (fun _ _ h => h) fun _ _ _ => trivial
  refine Triple.bind ((hquiet fun hI => (maintains_matchTerminator hI _).bind fun _ =>
    Maintains.require _ _).here hidentified) fun _ => ?_
  refine Triple.bind (hquiet fun hI => maintains_queryRowType hI _ _) fun found => ?_
  refine Triple.bind (appends_readRowPayload host index typeCapacity _ _ _ answers _) ?_
  rintro ⟨kind, selected⟩
  refine Triple.existing fun payload => Triple.knowing ?_
  rintro ⟨type, hkind, htype, hpayload⟩
  refine Triple.each fun ended hended => Triple.reading ?_
  dsimp only
  refine ((triple_storeRow ?_ _ _ ?_).here hended).consequence (fun _ h => h) ?_ fun _ _ h => h
  rotate_left
  · rfl
  rotate_left
  · simp [PassLog.one, hrows, hpayload.1]
  rintro _ build hbuild
  simp only [PassLog.append_assoc] at hbuild
  refine ⟨_, PassLog.tellsRows_row hrows rfl rfl hkind ?_ hpayload, _, hbuild⟩
  exact htype

theorem triple_readRows (log : PassLog) (count : ℕ) :
    Triple answers (ManagedBuild.Stands pass log)
      (Call.replicate count
        (readRegistryRow pass.mapped limits directory tail host index typeCapacity))
      (fun _ build => ∃ next, (next.rows.length = count ∧ next.TellsRows host pass.types) ∧
        build.Stands pass (log ++ next)) fun _ _ => True := by
  induction count generalizing log with
  | zero =>
      refine Triple.pure fun build hbuild => ⟨{}, ⟨rfl, rfl, rfl, by simp⟩, ?_⟩
      rwa [PassLog.append_empty]
  | succ count ih =>
      refine Triple.bind (triple_readRegistryRow host index typeCapacity log) fun _ =>
        Triple.existing fun first => Triple.knowing fun hfirst => ?_
      refine Triple.bind (ih (log ++ first)) fun _ => Triple.pure ?_
      rintro build ⟨next, hnext, hbuild⟩
      rw [PassLog.append_assoc] at hbuild
      refine ⟨first ++ next, ⟨?_, hfirst.2.append hnext.2⟩, hbuild⟩
      rw [PassLog.append_rows, List.length_append, hfirst.1, hnext.1, Nat.add_comm]

end Rows

/-! ## The payload -/

/-- **What an owner has of its payload**: the values of all its places, one behind
the other, with a slot for every reference and a row for every rid of the registry. -/
structure ManagedStorage.ReadsPayload (mapped : Text) (host : ManagedSchema)
    (types : List CachedSchema) (readings : List Reading) (storage : ManagedStorage) : Prop where
  types_eq : storage.types = types.map CachedSchema.selected
  places : readings.map (·.place) =
    payloadPlaces host types storage.view.plan.arrayElementCount storage.rows
  values : readings.map (·.value) = storage.values
  right : ∀ reading ∈ readings, reading.Right mapped
  ordinals : storage.values.map (·.ordinal) = List.range storage.values.length
  tiles : Tiles storage.view.payloadSource.offset (readings.map (·.extent))
    (storage.view.payloadSource.offset + storage.view.payloadSource.size)
  slots : storage.slots.map (·.unresolved) = slotsOf readings
  elementCount : storage.values[9]?.map (·.rawBits.toNat) =
    some storage.view.plan.arrayElementCount
  rowCount : storage.values[11 + storage.view.plan.arrayElementCount]?.map (·.rawBits.toNat) =
    some storage.rows.length
  rowOrdinals : storage.rows.map (·.ordinal) = List.range storage.rows.length
  rowRids : storage.rows.map (fun row => (row.ridValueOrdinal, row.ridBits)) =
    (valuesOf .rowRid readings).map fun value => (value.ordinal, value.rawBits)
  kinds : ∀ row ∈ storage.rows, row.kind = rowKindOf (row.type types)
  plannedRows : storage.rows.length = storage.view.plan.registryRowCount
  plannedSlots : storage.slots.length = storage.view.plan.ridSlotCount

/-- The log of a whole payload. -/
structure PassLog.Whole (host : ManagedSchema) (types : List CachedSchema) (elements : ℕ)
    (log : PassLog) : Prop where
  places : log.readings.map (·.place) = payloadPlaces host types elements log.rows
  elementCount : log.readings[9]?.map (·.value.rawBits.toNat) = some elements
  rowCount : log.readings[11 + elements]?.map (·.value.rawBits.toNat) = some log.rows.length
  rowRids : log.rows.map (fun row => (row.ridValueOrdinal, row.ridBits)) =
    (valuesOf .rowRid log.readings).map fun value => (value.ordinal, value.rawBits)
  kinds : ∀ row ∈ log.rows, row.kind = rowKindOf (row.type types)

theorem PassLog.whole {host : ManagedSchema} {types : List CachedSchema} {elements : ℕ}
    {fields rows : PassLog} (version : ManagedValue) {counted : ManagedValue}
    (hfields : fields.At (hostPlaces host elements))
    (helements : fields.readings[9]?.map (·.value.rawBits.toNat) = some elements)
    (hcounted : counted.rawBits.toNat = rows.rows.length) (hrows : rows.TellsRows host types) :
    (fields ++ one ⟨⟨host, 26, .scalar, none⟩, version⟩ ++
      one ⟨⟨host, 29, .scalar, none⟩, counted⟩ ++ rows).Whole host types elements := by
  obtain ⟨hnone, hplaces⟩ := hfields
  have hlength : fields.readings.length = 10 + elements := by
    rw [← List.length_map (f := (·.place)), hplaces]
    simp [hostPlaces]
    omega
  have hrids : valuesOf .rowRid fields.readings = [] := by
    refine valuesOf_eq_nil fun place hplace => ?_
    rw [hplaces] at hplace
    simp only [hostPlaces, List.mem_append, List.mem_cons, List.not_mem_nil, or_false,
      List.mem_replicate] at hplace
    rcases hplace with (rfl | rfl | rfl | rfl | rfl | rfl | rfl | rfl | rfl | rfl) | ⟨-, rfl⟩ <;> simp
  constructor
  · simp [one, payloadPlaces, hnone, hplaces, hrows.places]
  · simp only [append_readings, List.append_assoc]
    rw [List.getElem?_append_left (by omega)]
    exact helements
  · have hat : (fields.readings ++ [(⟨⟨host, 26, .scalar, none⟩, version⟩ : Reading)]).length =
        11 + elements := by
      rw [List.length_append, hlength, List.length_singleton]
      omega
    simp only [append_readings, one]
    rw [List.append_assoc, List.getElem?_append_right (by omega), hat, Nat.sub_self]
    simp [hnone, hcounted]
  · simp [one, hnone, hrids, valuesOf_cons, hrows.rids]
  · simpa [one, hnone] using hrows.kinds

section Payload

variable {answers : ℕ → Bool} {pass : SecondPass} {limits : ManagedValuesLimits}
  {directory : SerializedFileDirectory} {tail : SerializedFileMetadataTail}
  (host : ManagedSchema) (index : SerializedFileReferenceIndex) (typeCapacity : ℕ)

/-- A pass that has written as much as was planned has written all. -/
theorem ManagedStorage.Holds.readsPayload {host : ManagedSchema} {log : PassLog}
    {storage : ManagedStorage} {build : ManagedBuild} {row : Option ℕ} {start elements : ℕ}
    (hholds : storage.Holds pass.view pass.types log (slotsOf log.readings))
    (hsound : log.Sound pass.mapped)
    (hwritten : build.Written pass row log (slotsOf log.readings) start 0)
    (hwhole : log.Whole host pass.types elements)
    (hstop : build.cursor.position = build.cursor.stop)
    (hvalues : pass.view.plan.valueCount = build.cursor.values)
    (hrows : pass.view.plan.registryRowCount = build.cursor.rows)
    (hslots : pass.view.plan.ridSlotCount = build.cursor.slots)
    (helements : pass.view.plan.arrayElementCount = elements) :
    storage.slots = slotsOf log.readings ∧
      storage.ReadsPayload pass.mapped host pass.types log.readings := by
  have hallValues := hholds.values.whole (by rw [List.length_map, hvalues, hwritten.values])
  have hallRows := hholds.rows.whole (by rw [hrows, hwritten.rows])
  have hallSlots := hholds.slots.whole (by rw [hslots, hwritten.slots])
  rw [← hholds.view_eq] at helements
  subst helements
  refine ⟨hallSlots.symm, ?_⟩
  constructor
  · exact hholds.types_eq
  · rw [← hallRows]
    exact hwhole.places
  · exact hallValues
  · exact hsound.right
  · rw [← hallValues, List.map_map, List.length_map]
    exact hsound.values
  · have hposition := hwritten.position
    rw [hstop, hwritten.stop, Nat.add_zero] at hposition
    rw [hholds.view_eq, hposition]
    exact hwritten.tiles
  · rw [← hallSlots]
    exact map_unresolved_slotsOf _
  · rw [← hallValues, List.getElem?_map, Option.map_map]
    exact hwhole.elementCount
  · rw [← hallValues, ← hallRows, List.getElem?_map, Option.map_map]
    exact hwhole.rowCount
  · rw [← hallRows]
    exact hsound.rows
  · rw [← hallRows]
    exact hwhole.rowRids
  · rw [← hallRows]
    exact hwhole.kinds
  · rw [hholds.view_eq]
    exact hholds.rows.length
  · rw [hholds.view_eq]
    exact hholds.slots.length

/-- **The second pass** reads the payload into the zeroed storage. -/
theorem triple_secondPass {payload : PrefixRange}
    (hpayload : pass.view.payloadSource = ⟨payload.offset, payload.size⟩) :
    Triple answers
      (fun build => build.types = pass.types ∧
        build.storage = some (ManagedStorage.zeroed pass.view pass.types))
      (parsePayload pass.mapped limits directory tail host index typeCapacity payload)
      (fun plan build => ∃ storage readings, build.storage = some storage ∧
        storage.view = pass.view ∧ plan = pass.view.plan ∧ storage.slots = slotsOf readings ∧
        storage.ReadsPayload pass.mapped host pass.types readings) fun _ _ => True := by
  refine Triple.bind (Triple.modify (Q := fun _ => ManagedBuild.Between pass none {} []) ?_)
    fun _ => ?_
  · rintro build ⟨htypes, hstorage⟩
    refine ⟨PassLog.Sound.empty _, payload.offset, ⟨htypes, ⟨_, hstorage, ManagedStorage.holds_zeroed
      _ _⟩, rfl, rfl, rfl, rfl, rfl, ?_, ?_⟩⟩
    · rw [hpayload]
    · rw [hpayload]
      rfl
  refine Triple.bind (appends_readHostFields host answers {}) ?_
  rintro ⟨elements, elementsValue⟩
  refine Triple.existing fun fields => Triple.knowing ?_
  rintro ⟨hfields, helements⟩
  refine Triple.each fun hosted hhosted => Triple.reading ?_
  refine Triple.bind ((Appends.readScalar host 26 .scalar (by decide) _ answers _).here hhosted)
    fun version => Triple.existing fun _ => Triple.knowing fun hversion => ?_
  subst hversion
  refine Triple.each fun versioned hversioned => Triple.requiring (fun _ => trivial) fun _ => ?_
  refine Triple.bind ((appends_readCount host 29 _ _ _ answers _).here hversioned) ?_
  rintro ⟨count, countValue⟩
  refine Triple.existing fun _ => Triple.knowing ?_
  rintro ⟨counted, rfl, hcount⟩
  refine Triple.bind ((triple_readRows host index typeCapacity _ count).pre fun _ h => ⟨_, h⟩)
    fun _ => Triple.existing fun rows => Triple.knowing fun hrows => ?_
  refine Triple.each fun build hbuild => Triple.reading ?_
  refine Triple.requiring (fun _ => trivial) fun hstop => ?_
  refine Triple.requiring (fun _ => trivial) fun hplan => Triple.pure ?_
  rintro _ rfl
  obtain ⟨row, hsound, start, hwritten⟩ := hbuild
  obtain ⟨storage, hstorage, hholds⟩ := hwritten.stored
  have hsame := hplan storage hstorage
  have hwhole := PassLog.whole version hfields helements (hcount.trans hrows.1.symm) hrows.2
  rw [hholds.view_eq] at hsame
  obtain ⟨hslots, hreads⟩ := hholds.readsPayload hsound hwritten hwhole hstop
    (congrArg ManagedPlan.valueCount hsame) (congrArg ManagedPlan.registryRowCount hsame)
    (congrArg ManagedPlan.ridSlotCount hsame) (congrArg ManagedPlan.arrayElementCount hsame)
  exact ⟨storage, _, hstorage, hholds.view_eq, hsame.symm, hslots, hreads⟩

end Payload

/-! ## Where the references are -/

/-- The nodes that are read of a schema, with what for. -/
def rolesOf : ManagedProfileKind → List (ℕ × PlaceRole)
  | .host =>
      [(2, .scalar), (3, .scalar), (4, .scalar), (6, .scalar), (7, .scalar), (8, .text),
        (12, .text), (17, .reference), (19, .reference), (22, .scalar), (24, .reference),
        (26, .scalar), (29, .scalar), (31, .rowRid), (33, .text), (37, .text), (41, .text)]
  | .text => [(1, .scalar), (2, .text), (7, .reference)]
  | .float => [(1, .scalar), (2, .scalar), (4, .reference)]

/-- The flag of a node whose value is a managed reference. -/
def managedReferenceFlag : UInt8 := 2

/-- A reference is read at the node behind one that is flagged, and nowhere else;
a rid has eight bytes. -/
theorem rolesOf_nodes (profile : ManagedProfile) {entry : ℕ × PlaceRole}
    (hentry : entry ∈ rolesOf profile.kind) :
    ∃ parent ∈ profile.nodes[entry.1 - 1]?, ∃ node ∈ profile.nodes[entry.1]?,
      (entry.2 = .reference ↔ parent.flags = managedReferenceFlag) ∧
      (entry.2 = .reference ∨ entry.2 = .rowRid → node.byteSize = 8) := by
  have hall : ∀ kind, ∀ entry ∈ rolesOf kind,
      ((profilePrefix kind ++ managedRegistrySuffix)[entry.1 - 1]?.any fun parent =>
        (profilePrefix kind ++ managedRegistrySuffix)[entry.1]?.any fun node =>
          decide (entry.2 = .reference ↔ parent.flags = managedReferenceFlag) &&
          decide (entry.2 = .reference ∨ entry.2 = .rowRid → node.byteSize = 8)) = true := by
    intro kind
    cases kind <;> decide +kernel
  have hfound := hall profile.kind entry hentry
  rw [Option.any_eq_true] at hfound
  obtain ⟨parent, hparent, hfound⟩ := hfound
  rw [Option.any_eq_true] at hfound
  obtain ⟨node, hnode, hfound⟩ := hfound
  rw [Bool.and_eq_true, decide_eq_true_eq, decide_eq_true_eq] at hfound
  exact ⟨parent, hparent, node, hnode, hfound⟩

/-- The place is one that is read of its schema. -/
def PayloadPlace.Known (place : PayloadPlace) : Prop :=
  (place.node, place.role) ∈ rolesOf place.schema.profile.kind

theorem known_hostPlaces {host : ManagedSchema} (hhost : host.profile.kind = .host)
    (elements : ℕ) : ∀ place ∈ hostPlaces host elements, place.schema = host ∧ place.Known := by
  intro place hplace
  simp only [hostPlaces, List.mem_append, List.mem_cons, List.not_mem_nil, or_false,
    List.mem_replicate] at hplace
  unfold PayloadPlace.Known
  rcases hplace with (rfl | rfl | rfl | rfl | rfl | rfl | rfl | rfl | rfl | rfl) | ⟨-, rfl⟩ <;>
    exact ⟨rfl, by simp [hhost, rolesOf]⟩

theorem known_selectedPlaces {schema : ManagedSchema} (hschema : schema.profile.kind ≠ .host)
    (row : Option ℕ) : ∀ place ∈ selectedPlaces schema row, place.schema = schema ∧ place.Known := by
  intro place hplace
  unfold PayloadPlace.Known
  rw [selectedPlaces] at hplace
  split at hplace
  case isTrue htext =>
    simp only [List.mem_cons, List.not_mem_nil, or_false] at hplace
    rcases hplace with rfl | rfl | rfl <;> exact ⟨rfl, by simp [htext, rolesOf]⟩
  case isFalse htext =>
    have hfloat : schema.profile.kind = .float := by
      cases hkind : schema.profile.kind with
      | host => exact absurd hkind hschema
      | text => exact absurd hkind htext
      | float => rfl
    simp only [List.mem_cons, List.not_mem_nil, or_false] at hplace
    rcases hplace with rfl | rfl | rfl <;> exact ⟨rfl, by simp [hfloat, rolesOf]⟩

theorem known_rowPlaces {host : ManagedSchema} {types : List CachedSchema}
    (hhost : host.profile.kind = .host) (htypes : ∀ type ∈ types, type.profile.kind ≠ .host)
    (row : RegistryRow) : ∀ place ∈ rowPlaces host types row,
      (place.schema = host ∨ ∃ type ∈ types, place.schema = type.toManagedSchema) ∧ place.Known := by
  intro place hplace
  rcases List.mem_append.mp hplace with hplace | hplace
  · simp only [List.mem_cons, List.not_mem_nil, or_false] at hplace
    unfold PayloadPlace.Known
    rcases hplace with rfl | rfl | rfl | rfl <;> exact ⟨Or.inl rfl, by simp [hhost, rolesOf]⟩
  · cases htype : row.type types with
    | none =>
        rw [htype] at hplace
        cases hplace
    | some type =>
        rw [htype, Option.elim_some] at hplace
        obtain ⟨ordinal, -, hordinal⟩ := Option.bind_eq_some_iff.mp htype
        have hmem := List.mem_of_getElem? hordinal
        obtain ⟨hschema, hknown⟩ := known_selectedPlaces (htypes type hmem) _ place hplace
        exact ⟨Or.inr ⟨type, hmem, hschema⟩, hknown⟩

/-- Every place is read of the host or of a selected type. -/
theorem known_payloadPlaces {host : ManagedSchema} {types : List CachedSchema}
    (hhost : host.profile.kind = .host) (htypes : ∀ type ∈ types, type.profile.kind ≠ .host)
    (elements : ℕ) (rows : List RegistryRow) :
    ∀ place ∈ payloadPlaces host types elements rows,
      (place.schema = host ∨ ∃ type ∈ types, place.schema = type.toManagedSchema) ∧ place.Known := by
  intro place hplace
  rcases List.mem_append.mp hplace with hplace | hplace
  · obtain ⟨hschema, hknown⟩ := known_hostPlaces hhost elements place hplace
    exact ⟨Or.inl hschema, hknown⟩
  rcases List.mem_append.mp hplace with hplace | hplace
  · simp only [List.mem_cons, List.not_mem_nil, or_false] at hplace
    unfold PayloadPlace.Known
    rcases hplace with rfl | rfl <;> exact ⟨Or.inl rfl, by simp [hhost, rolesOf]⟩
  · obtain ⟨row, -, hplace⟩ := List.mem_flatMap.mp hplace
    exact known_rowPlaces hhost htypes row place hplace

/-- The schema is one that qualified. -/
def ManagedSchema.Qualified (kind : SchemaContextKind) (schema : ManagedSchema) : Prop :=
  schema.owner.Qualified kind schema.profile

theorem ManagedSchema.Qualified.kind_host {schema : ManagedSchema}
    (h : schema.Qualified .ordinaryObject) : schema.profile.kind = .host := by
  have hcount := h.count
  simp only [profileOfCount, Option.ite_none_right_eq_some, Option.some.injEq] at hcount
  rw [← hcount.2]
  rfl

theorem ManagedSchema.Qualified.kind_selected {schema : ManagedSchema}
    (h : schema.Qualified .selectedReferencePayload) : schema.profile.kind ≠ .host := by
  have hcount := h.count
  simp only [profileOfCount] at hcount
  split at hcount
  · rw [← Option.some.inj hcount]
    decide
  · rw [Option.ite_none_right_eq_some, Option.some.injEq] at hcount
    rw [← hcount.2]
    decide

/-- **A reference is read where the schema says so**: at the node behind one with
the flag of a managed reference; it has eight bytes, as the rid of a row has. -/
theorem PayloadPlace.Known.nodes {place : PayloadPlace} {kind : SchemaContextKind}
    (h : place.Known) (hschema : place.schema.Qualified kind) :
    (place.role = .reference ↔
      (place.schema.node (place.node - 1)).typeFlags = managedReferenceFlag) ∧
    (place.role = .reference ∨ place.role = .rowRid →
      (place.schema.node place.node).byteSizeBits = 8) := by
  obtain ⟨parent, hparent, node, hnode, hreference, hsize⟩ := rolesOf_nodes _ h
  have hparentFits := hschema.nodes _ _ (Option.mem_def.mp hparent)
  have hnodeFits := hschema.nodes _ _ (Option.mem_def.mp hnode)
  rw [← hparentFits.typeFlags] at hreference
  rw [← hnodeFits.byteSize] at hsize
  exact ⟨hreference, hsize⟩

/-! ## How many references -/

theorem countP_selectedPlaces (schema : ManagedSchema) (row : Option ℕ) :
    (selectedPlaces schema row).countP (·.role = .reference) = 1 := by
  unfold selectedPlaces
  split <;> rfl

theorem countP_rowPlaces (host : ManagedSchema) (types : List CachedSchema) (row : RegistryRow)
    (hkind : row.kind = rowKindOf (row.type types)) :
    (rowPlaces host types row).countP (·.role = .reference) =
      if row.kind = .selectedPayload then 1 else 0 := by
  rw [rowPlaces, List.countP_append, hkind]
  cases row.type types with
  | none => rfl
  | some type =>
      rw [Option.elim_some, countP_selectedPlaces]
      rfl

/-- **Two in the host, one for each element and one for each row with a payload.** -/
theorem countP_payloadPlaces (host : ManagedSchema) (types : List CachedSchema) (elements : ℕ)
    (rows : List RegistryRow) (hkinds : ∀ row ∈ rows, row.kind = rowKindOf (row.type types)) :
    (payloadPlaces host types elements rows).countP (·.role = .reference) =
      2 + elements + rows.countP (·.kind = .selectedPayload) := by
  have hrows : (rows.flatMap (rowPlaces host types)).countP (·.role = .reference) =
      rows.countP (·.kind = .selectedPayload) := by
    induction rows with
    | nil => rfl
    | cons row rows ih =>
        have hrow := countP_rowPlaces host types row (hkinds row List.mem_cons_self)
        have hrest := ih fun other hother => hkinds other (List.mem_cons_of_mem _ hother)
        rw [List.flatMap_cons, List.countP_append, hrow, hrest, List.countP_cons, Nat.add_comm]
        simp
  rw [payloadPlaces, List.countP_append, List.countP_append, hrows, hostPlaces, List.countP_append]
  simp [List.countP_replicate]

end UnityCommon.ManagedValues
