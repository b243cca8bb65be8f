import UnityCommon.Lib.Tiling
import UnityCommon.SerializedFile.ManagedFrame

/-!
# What a pass writes

The second pass over a payload reads one value behind the other and stores each
behind those before it. What it has stored is told by its readings, each a place
of the layout with the value found there; the slots are the readings of
references, in their order.
-/

namespace UnityCommon.ManagedValues

open UnityCommon.Metadata
open Call (Maintains Triple)

/-! ## Places and readings -/

/-- What a value of the payload is read for. -/
inductive PlaceRole where
  | scalar
  | text
  | reference
  | rowRid
deriving DecidableEq, Repr

/-- Where a value is read: a node of a schema, in a row of the registry or before all. -/
structure PayloadPlace where
  schema : ManagedSchema
  node : ℕ
  role : PlaceRole
  registryRow : Option ℕ
deriving DecidableEq, Repr

structure Reading where
  place : PayloadPlace
  value : ManagedValue
deriving DecidableEq, Repr

namespace Reading

variable (reading : Reading)

def extent : ℕ × ℕ := (reading.value.source.offset, reading.value.source.size)

/-- The value is one of the place, and a scalar has the bits of its bytes. -/
structure Right (mapped : Text) : Prop where
  schemaNode : reading.value.schemaNode = reading.place.schema.node reading.place.node
  rowKind : reading.value.rowKind = reading.place.schema.owner.view.rowKind
  typeOrdinal : reading.value.typeOrdinal = reading.place.schema.owner.view.typeOrdinal
  registryRow : reading.value.registryRowOrdinal = reading.place.registryRow
  bits : reading.place.role ≠ .text → reading.value.rawBits =
    scalarBits mapped reading.value.schemaNode.byteSizeBits.toNat reading.value.source.offset

end Reading

/-- A slot that no row has been compared with. -/
def RidSlot.initial (ordinal : ℕ) (value : ManagedValue) : RidSlot where
  ordinal
  valueOrdinal := value.ordinal
  registryRowOrdinal := value.registryRowOrdinal
  ridBits := value.rawBits
  resolution := .missing
  matchCount := 0
  firstRegistryRow := none
  secondRegistryRow := none

/-- The slot as it was before its resolution. -/
def RidSlot.unresolved (slot : RidSlot) : RidSlot :=
  { slot with
    resolution := .missing
    matchCount := 0
    firstRegistryRow := none
    secondRegistryRow := none }

theorem RidSlot.unresolved_initial (ordinal : ℕ) (value : ManagedValue) :
    (RidSlot.initial ordinal value).unresolved = RidSlot.initial ordinal value := rfl

/-- The values that were read for a role. -/
def valuesOf (role : PlaceRole) (readings : List Reading) : List ManagedValue :=
  (readings.filter (·.place.role = role)).map (·.value)

@[simp] theorem valuesOf_nil (role : PlaceRole) : valuesOf role [] = [] := rfl

@[simp] theorem valuesOf_append (role : PlaceRole) (readings more : List Reading) :
    valuesOf role (readings ++ more) = valuesOf role readings ++ valuesOf role more := by
  simp [valuesOf]

theorem valuesOf_cons (role : PlaceRole) (reading : Reading) (readings : List Reading) :
    valuesOf role (reading :: readings) =
      if reading.place.role = role then reading.value :: valuesOf role readings
      else valuesOf role readings := by
  simp only [valuesOf, List.filter_cons, decide_eq_true_eq]
  split <;> rfl

theorem mem_valuesOf {role : PlaceRole} {readings : List Reading} {value : ManagedValue} :
    value ∈ valuesOf role readings ↔
      ∃ reading ∈ readings, reading.place.role = role ∧ reading.value = value := by
  simp [valuesOf, and_assoc]

/-- As many values as places of the role. -/
theorem length_valuesOf (role : PlaceRole) (readings : List Reading) :
    (valuesOf role readings).length = (readings.map (·.place)).countP (·.role = role) := by
  rw [valuesOf, List.length_map, ← List.countP_eq_length_filter, List.countP_map]
  rfl

theorem valuesOf_eq_nil {role : PlaceRole} {readings : List Reading}
    (h : ∀ place ∈ readings.map (·.place), place.role ≠ role) : valuesOf role readings = [] := by
  rw [← List.length_eq_zero_iff, length_valuesOf, List.countP_eq_zero]
  simpa using h

/-- The slots of the references among the readings. -/
def slotsOf (readings : List Reading) : List RidSlot :=
  (valuesOf .reference readings).mapIdx RidSlot.initial

@[simp] theorem slotsOf_nil : slotsOf [] = [] := rfl

theorem slotsOf_snoc_reference (readings : List Reading) {reading : Reading}
    (h : reading.place.role = .reference) :
    slotsOf (readings ++ [reading]) =
      slotsOf readings ++ [RidSlot.initial (slotsOf readings).length reading.value] := by
  simp [slotsOf, valuesOf_cons, h, List.mapIdx_append]

theorem slotsOf_snoc_other (readings : List Reading) {reading : Reading}
    (h : reading.place.role ≠ .reference) :
    slotsOf (readings ++ [reading]) = slotsOf readings := by
  simp [slotsOf, valuesOf_cons, h]

/-- The slots are as they were read. -/
theorem map_unresolved_slotsOf (readings : List Reading) :
    (slotsOf readings).map (·.unresolved) = slotsOf readings := by
  refine List.ext_getElem? fun i => ?_
  simp [slotsOf, Function.comp_def, RidSlot.unresolved_initial]

/-! ## The log of a pass -/

/-- The readings of a pass with the rows it has read. -/
structure PassLog where
  readings : List Reading := []
  rows : List RegistryRow := []
deriving DecidableEq, Repr

namespace PassLog

variable (log next : PassLog)

def append : PassLog := ⟨log.readings ++ next.readings, log.rows ++ next.rows⟩

instance : Append PassLog := ⟨append⟩

@[simp] theorem append_readings : (log ++ next).readings = log.readings ++ next.readings := rfl

@[simp] theorem append_rows : (log ++ next).rows = log.rows ++ next.rows := rfl

@[simp] theorem append_empty : log ++ ({} : PassLog) = log := by
  show append log {} = log
  simp [append]

@[simp] theorem empty_append : ({} : PassLog) ++ log = log := rfl

theorem append_assoc (last : PassLog) : log ++ next ++ last = log ++ (next ++ last) := by
  show append (append log next) last = append log (append next last)
  simp [append]

/-- The log of one reading. -/
def one (reading : Reading) : PassLog := { readings := [reading] }

/-- Every value is right, and the ordinals are the positions. -/
structure Sound (mapped : Text) : Prop where
  right : ∀ reading ∈ log.readings, reading.Right mapped
  values : log.readings.map (·.value.ordinal) = List.range log.readings.length
  rows : log.rows.map (·.ordinal) = List.range log.rows.length

variable {log next}

theorem Sound.empty (mapped : Text) : ({} : PassLog).Sound mapped := by
  constructor
  · intro reading hreading
    cases hreading
  · rfl
  · rfl

theorem Sound.read {mapped : Text} (h : log.Sound mapped) {reading : Reading}
    (hright : reading.Right mapped) (hordinal : reading.value.ordinal = log.readings.length) :
    (log ++ one reading).Sound mapped := by
  constructor
  · intro other hother
    rcases List.mem_append.mp hother with hother | hother
    · exact h.right other hother
    · rw [List.mem_singleton.mp hother]
      exact hright
  · rw [append_readings, List.map_append, h.values, List.length_append, one, List.map_singleton,
      hordinal, List.length_singleton, List.range_succ]
  · rw [append_rows, one, List.append_nil]
    exact h.rows

theorem Sound.addRow {mapped : Text} (h : log.Sound mapped) {row : RegistryRow}
    (hordinal : row.ordinal = log.rows.length) :
    (log ++ { rows := [row] }).Sound mapped := by
  constructor
  · intro other hother
    rw [append_readings, List.append_nil] at hother
    exact h.right other hother
  · rw [append_readings, List.append_nil]
    exact h.values
  · rw [append_rows, List.map_append, h.rows, List.length_append, List.map_singleton, hordinal,
      List.length_singleton, List.range_succ]

end PassLog

/-! ## What is stored -/

/-- What is written of an array that is as long as planned. -/
structure Filled {α : Type} (stored : List α) (planned : ℕ) (written : List α) : Prop where
  length : stored.length = planned
  front : written <+: stored

namespace Filled

variable {α : Type} {stored written : List α} {planned : ℕ}

theorem start (planned : ℕ) (a : α) : Filled (List.replicate planned a) planned [] :=
  ⟨List.length_replicate, List.nil_prefix⟩

theorem push (h : Filled stored planned written) (a : α) (hroom : written.length < planned) :
    Filled (stored.set written.length a) planned (written ++ [a]) := by
  obtain ⟨rest, hrest⟩ := h.front
  refine ⟨List.length_set.trans h.length, ?_⟩
  cases rest with
  | nil =>
      have hlength := h.length
      rw [← hrest, List.append_nil] at hlength
      omega
  | cons b rest =>
      refine ⟨rest, ?_⟩
      rw [← hrest, List.set_append_right _ _ (Nat.le_refl _), Nat.sub_self, List.set_cons_zero,
        List.append_assoc]
      rfl

/-- Nothing of the array is left. -/
theorem whole (h : Filled stored planned written) (hall : written.length = planned) :
    written = stored := h.front.eq_of_length (hall.trans h.length.symm)

end Filled

/-- The row of a type in the storage. -/
def CachedSchema.selected (type : CachedSchema) : ManagedSelectedType :=
  ⟨type.ordinal, type.original, type.owner.view, type.context⟩

/-- The storage of a view with what a pass has written. -/
structure ManagedStorage.Holds (view : ManagedView) (types : List CachedSchema) (log : PassLog)
    (slots : List RidSlot) (storage : ManagedStorage) : Prop where
  view_eq : storage.view = view
  types_eq : storage.types = types.map CachedSchema.selected
  values : Filled storage.values view.plan.valueCount (log.readings.map (·.value))
  rows : Filled storage.rows view.plan.registryRowCount log.rows
  slots : Filled storage.slots view.plan.ridSlotCount slots

theorem ManagedStorage.holds_zeroed (view : ManagedView) (types : List CachedSchema) :
    (ManagedStorage.zeroed view types).Holds view types {} [] where
  view_eq := rfl
  types_eq := rfl
  values := Filled.start _ _
  rows := Filled.start _ _
  slots := Filled.start _ _

/-- What a second pass does not change. -/
structure SecondPass where
  mapped : Text
  view : ManagedView
  types : List CachedSchema

/-- The build in a second pass that has read what the log says, up to `start`, and
has moved on from there. -/
structure ManagedBuild.Written (pass : SecondPass) (row : Option ℕ) (log : PassLog)
    (slots : List RidSlot) (start moved : ℕ) (build : ManagedBuild) : Prop where
  types : build.types = pass.types
  stored : ∃ storage, build.storage = some storage ∧ storage.Holds pass.view pass.types log slots
  values : build.cursor.values = log.readings.length
  rows : build.cursor.rows = log.rows.length
  slots : build.cursor.slots = slots.length
  registryRow : build.cursor.registryRow = row
  position : build.cursor.position = start + moved
  stop : build.cursor.stop = pass.view.payloadSource.offset + pass.view.payloadSource.size
  tiles : Tiles pass.view.payloadSource.offset (log.readings.map (·.extent)) start

/-- Between two values. -/
def ManagedBuild.Between (pass : SecondPass) (row : Option ℕ) (log : PassLog)
    (slots : List RidSlot) (build : ManagedBuild) : Prop :=
  log.Sound pass.mapped ∧ ∃ start, build.Written pass row log slots start 0

section Steps

variable {answers : ℕ → Bool} {limits : ManagedValuesLimits} {pass : SecondPass}
  {row : Option ℕ} {log : PassLog} {slots : List RidSlot} {start moved : ℕ}

theorem quiet_written : Quiet (ManagedBuild.Written pass row log slots start moved) := by
  intro build build' _ hstorage htypes hcursor h
  obtain ⟨h₁, h₂, h₃, h₄, h₅, h₆, h₇, h₈, h₉⟩ := h
  rw [hstorage] at h₂
  rw [htypes] at h₁
  rw [hcursor] at h₃ h₄ h₅ h₆ h₇ h₈
  exact ⟨h₁, h₂, h₃, h₄, h₅, h₆, h₇, h₈, h₉⟩

theorem quiet_between : Quiet (ManagedBuild.Between pass row log slots) := by
  rintro build build' hmemory hstorage htypes hcursor ⟨hsound, start, h⟩
  exact ⟨hsound, start, quiet_written build build' hmemory hstorage htypes hcursor h⟩

theorem triple_takeSpan (width : ℕ) (field : ManagedValuesField) (node : ℕ) :
    Triple answers (ManagedBuild.Written pass row log slots start moved)
      (takeSpan limits width field node)
      (fun span build => span = ⟨start + moved, width⟩ ∧
        build.Written pass row log slots start (moved + width)) fun _ _ => True := by
  refine Triple.each fun build hbuild => Triple.reading ?_
  refine Triple.requiring (fun _ => trivial) fun _ => ?_
  refine Triple.bind (Q := fun _ => ManagedBuild.Written pass row log slots start moved) ?_
    fun _ => Triple.bind (Triple.modify (Q := fun _ => ManagedBuild.Written pass row log slots
      start (moved + width)) ?_) fun _ => Triple.pure ?_
  · refine (maintains_charge quiet_written _ _ _ _).consequence ?_ (fun _ _ h => h)
      fun _ _ _ => trivial
    rintro _ rfl
    exact hbuild
  · intro after h
    refine { h with position := ?_ }
    show after.cursor.position + width = _
    rw [h.position, Nat.add_assoc]
  · intro after h
    exact ⟨by rw [hbuild.position], h⟩

theorem triple_readPadding (node : ℕ) :
    Triple answers (ManagedBuild.Written pass row log slots start moved) (readPadding limits node)
      (fun _ build => ∃ moved, build.Written pass row log slots start moved)
      fun _ _ => True := by
  refine Triple.each fun build hbuild => Triple.reading ?_
  refine Triple.requiring (fun _ => trivial) fun _ => ?_
  refine Triple.bind (Triple.modify (Q := fun _ => ManagedBuild.Written pass row log slots start
    moved) ?_) fun _ => (triple_takeSpan _ _ _).consequence (fun _ h => h) (fun _ _ h => ⟨_, h.2⟩)
      fun _ _ h => h
  rintro _ rfl
  exact { hbuild with }

/-- A write behind what is stored. -/
theorem triple_storeAt {store : ManagedStorage → ManagedStorage} {planned : ManagedPlan → ℕ}
    (log' : PassLog) (slots' : List RidSlot) (ordinal : ℕ) (field : ManagedValuesField)
    (node offset : ℕ)
    (hstore : ∀ storage : ManagedStorage, storage.Holds pass.view pass.types log slots →
      ordinal < planned pass.view.plan →
      (store storage).Holds pass.view pass.types log' slots') {build : ManagedBuild}
    (hbuild : build.Written pass row log slots start moved) :
    Triple answers (· = build) (storeAt planned ordinal field node offset store)
      (fun _ after => ∃ storage, storage.Holds pass.view pass.types log' slots' ∧
        after = { build with storage := some storage }) fun _ _ => True := by
  obtain ⟨storage, hstorage, hholds⟩ := hbuild.stored
  refine Triple.reading <| Triple.requiring (fun _ => trivial) fun hroom => Triple.modify ?_
  rintro _ rfl
  have hless := hroom storage hstorage
  rw [hholds.view_eq] at hless
  exact ⟨store storage, hstore storage hholds hless, by rw [hstorage]; rfl⟩

/-- What a value has from its beginning on. -/
structure Begun (schema : ManagedSchema) (node : ℕ) (row : Option ℕ) (ordinal : ℕ)
    (value : ManagedValue) : Prop where
  ordinal_eq : value.ordinal = ordinal
  schemaNode : value.schemaNode = schema.node node
  rowKind : value.rowKind = schema.owner.view.rowKind
  typeOrdinal : value.typeOrdinal = schema.owner.view.typeOrdinal
  registryRow : value.registryRowOrdinal = row

theorem triple_beginValue (schema : ManagedSchema) (node : ℕ) (kind : ManagedValueKind) :
    Triple answers (ManagedBuild.Written pass row log slots start moved)
      (beginValue limits schema node kind)
      (fun value build => Begun schema node row log.readings.length value ∧
        build.Written pass row log slots start moved) fun _ _ => True := by
  refine Triple.each fun build hbuild => Triple.reading ?_
  refine Triple.requiring (fun _ => trivial) fun _ => ?_
  refine Triple.bind (Triple.modify (Q := fun _ => ManagedBuild.Written pass row log slots start
    moved) ?_) fun _ => Triple.pure fun after h => ⟨⟨hbuild.values, rfl, rfl, rfl,
      hbuild.registryRow⟩, h⟩
  rintro _ rfl
  exact { hbuild with }

/-- **A value is stored** behind those before it, with all that was moved since it began. -/
theorem triple_completeValue (place : PayloadPlace) (value : ManagedValue) :
    Triple answers (ManagedBuild.Written pass row log slots start moved)
      (completeValue limits start value)
      (fun made build => made = { value with source := ⟨start, moved⟩ } ∧
        build.Written pass row (log ++ .one ⟨place, made⟩) slots (start + moved) 0)
      fun _ _ => True := by
  refine Triple.each fun build hbuild => Triple.reading ?_
  have hmoved : build.cursor.position - start = moved := by
    rw [hbuild.position, Nat.add_sub_cancel_left]
  dsimp only
  rw [hmoved, hbuild.values]
  refine Triple.bind (Q := fun _ => ManagedBuild.Written pass row log slots start moved)
    ((maintains_charge quiet_written _ _ _ _).consequence ?_ (fun _ _ h => h) fun _ _ _ => trivial)
    fun _ => Triple.each fun charged hcharged => ?_
  · rintro _ rfl
    exact hbuild
  refine Triple.bind (triple_storeAt (log ++ .one ⟨place, { value with source := ⟨start, moved⟩ }⟩)
    slots _ _ _ _ ?_ hcharged) fun _ => ?_
  · intro storage hholds hroom
    rw [← List.length_map (f := (·.value))] at hroom ⊢
    refine { hholds with values := ?_, rows := ?_ }
    · rw [PassLog.append_readings, List.map_append]
      exact hholds.values.push _ hroom
    · rw [PassLog.append_rows, PassLog.one, List.append_nil]
      exact hholds.rows
  refine Triple.bind (Triple.modify (Q := fun _ => ManagedBuild.Written pass row
    (log ++ .one ⟨place, { value with source := ⟨start, moved⟩ }⟩) slots (start + moved) 0) ?_)
    fun _ => Triple.pure fun _ h => ⟨rfl, h⟩
  rintro _ ⟨storage, hholds, rfl⟩
  refine { hcharged with stored := ⟨storage, rfl, hholds⟩, values := ?_, rows := ?_, tiles := ?_ }
  · show charged.cursor.values + 1 = _
    rw [hcharged.values, PassLog.append_readings, List.length_append]
    rfl
  · rw [PassLog.append_rows, PassLog.one, List.append_nil]
    exact hcharged.rows
  · rw [PassLog.append_readings, List.map_append]
    exact hcharged.tiles.append (Tiles.single start moved)

/-- A reading that was begun, with the bits of its bytes, keeps the log sound. -/
theorem between_read {schema : ManagedSchema} {node : ℕ} {role : PlaceRole} {value : ManagedValue}
    {build : ManagedBuild} (hsound : log.Sound pass.mapped)
    (hbegun : Begun schema node row log.readings.length value)
    (hbits : role ≠ .text → value.rawBits =
      scalarBits pass.mapped value.schemaNode.byteSizeBits.toNat value.source.offset)
    (hbuild : build.Written pass row (log ++ .one ⟨⟨schema, node, role, row⟩, value⟩) slots start 0) :
    build.Between pass row (log ++ .one ⟨⟨schema, node, role, row⟩, value⟩) slots :=
  ⟨hsound.read ⟨hbegun.schemaNode, hbegun.rowKind, hbegun.typeOrdinal, hbegun.registryRow, hbits⟩
    hbegun.ordinal_eq, start, hbuild⟩

theorem triple_readScalar (schema : ManagedSchema) (node : ℕ) (role : PlaceRole)
    (kind : ManagedValueKind) :
    Triple answers (ManagedBuild.Between pass row log slots)
      (readScalar pass.mapped limits schema node kind)
      (fun value => ManagedBuild.Between pass row
        (log ++ .one ⟨⟨schema, node, role, row⟩, value⟩) slots) fun _ _ => True := by
  refine Triple.knowing fun hsound => Triple.existing fun start => ?_
  refine Triple.bind (triple_beginValue schema node kind) fun value => Triple.knowing fun hbegun => ?_
  refine Triple.each fun build hbuild => Triple.reading ?_
  refine Triple.requiring (fun _ => trivial) fun _ => Triple.requiring (fun _ => trivial) fun _ => ?_
  refine Triple.bind (Triple.modify (Q := fun _ => ManagedBuild.Written pass row log slots start 0)
    ?_) fun _ => ?_
  · rintro _ rfl
    exact { hbuild with }
  refine Triple.bind (triple_takeSpan _ _ _) fun span => Triple.knowing fun hspan => ?_
  subst hspan
  rw [show build.cursor.position = start from hbuild.position]
  -- what is completed has the bits of its span, with a padding or without
  have hcomplete : ∀ (moved : ℕ) (padding : Option PrefixSpan),
      Triple answers (ManagedBuild.Written pass row log slots start moved)
        (completeValue limits start
          { value with
            scalarSource := some ⟨start + 0, value.schemaNode.byteSizeBits.toNat⟩
            rawBits := scalarBits pass.mapped value.schemaNode.byteSizeBits.toNat (start + 0)
            paddingSource := padding })
        (fun value => ManagedBuild.Between pass row
          (log ++ .one ⟨⟨schema, node, role, row⟩, value⟩) slots) fun _ _ => True := by
    intro moved padding
    refine (triple_completeValue ⟨schema, node, role, row⟩ _).consequence (fun _ h => h) ?_
      fun _ _ h => h
    rintro _ after ⟨rfl, hafter⟩
    exact between_read hsound ⟨hbegun.1, hbegun.2, hbegun.3, hbegun.4, hbegun.5⟩
      (fun _ => rfl) hafter
  dsimp only
  split
  · exact Triple.bind (triple_readPadding node) fun padding => Triple.existing fun moved =>
      hcomplete moved (some padding)
  · exact hcomplete _ _

theorem triple_readString (schema : ManagedSchema) (node : ℕ) :
    Triple answers (ManagedBuild.Between pass row log slots)
      (readString pass.mapped limits schema node)
      (fun value => ManagedBuild.Between pass row
        (log ++ .one ⟨⟨schema, node, .text, row⟩, value⟩) slots) fun _ _ => True := by
  refine Triple.knowing fun hsound => Triple.existing fun start => ?_
  refine Triple.bind (triple_beginValue schema node .byteString) fun value =>
    Triple.knowing fun hbegun => Triple.each fun build hbuild => Triple.reading ?_
  rw [show build.cursor.position = start from hbuild.position]
  refine Triple.bind ((triple_takeSpan _ _ _).here hbuild) fun length => Triple.knowing fun _ => ?_
  refine Triple.each fun measured hmeasured => ?_
  refine Triple.requiring (fun _ => trivial) fun _ => Triple.requiring (fun _ => trivial) fun _ => ?_
  refine Triple.reading <| Triple.requiring (fun _ => trivial) fun _ => ?_
  refine Triple.bind (Triple.modify (Q := fun _ => ManagedBuild.Written pass row log slots start
    (0 + int32Bytes)) ?_) fun _ => ?_
  · rintro _ rfl
    exact { hmeasured with }
  refine Triple.bind (triple_takeSpan _ _ _) fun bytes => Triple.knowing fun _ => ?_
  refine Triple.bind (triple_readPadding node) fun padding => Triple.existing fun moved => ?_
  refine (triple_completeValue ⟨schema, node, .text, row⟩ _).consequence (fun _ h => h) ?_
    fun _ _ h => h
  rintro _ after ⟨rfl, hafter⟩
  exact between_read hsound ⟨hbegun.1, hbegun.2, hbegun.3, hbegun.4, hbegun.5⟩
    (fun h => absurd rfl h) hafter

/-- **A slot for every reference**, with the bits that were read. -/
theorem triple_readRidSlot (schema : ManagedSchema) (node : ℕ) :
    Triple answers (ManagedBuild.Between pass row log (slotsOf log.readings))
      (readRidSlot pass.mapped limits schema node)
      (fun _ build => ∃ value, build.Between pass row
        (log ++ .one ⟨⟨schema, node, .reference, row⟩, value⟩)
        (slotsOf (log ++ .one ⟨⟨schema, node, .reference, row⟩, value⟩).readings))
      fun _ _ => True := by
  refine Triple.each fun build hbuild => Triple.reading <| Triple.requiring (fun _ => trivial) fun _ => ?_
  obtain ⟨_, hbefore⟩ := hbuild.2
  refine Triple.bind ((triple_readScalar schema node .reference .signedInteger).here hbuild)
    fun value => ?_
  refine Triple.bind (Q := fun _ => ManagedBuild.Between pass row
    (log ++ .one ⟨⟨schema, node, .reference, row⟩, value⟩) (slotsOf log.readings))
    ((maintains_charge quiet_between _ _ _ _).consequence (fun _ h => h) (fun _ _ h => h)
      fun _ _ _ => trivial) fun _ => ?_
  refine Triple.knowing fun hsound => Triple.existing fun start => Triple.each fun after hafter => ?_
  have hslots := @slotsOf_snoc_reference log.readings ⟨⟨schema, node, .reference, row⟩, value⟩ rfl
  have hright := hsound.right _ (List.mem_append_right _ (List.mem_singleton_self _))
  have hslot : RidSlot.initial (slotsOf log.readings).length value = {
      ordinal := build.cursor.slots
      valueOrdinal := value.ordinal
      registryRowOrdinal := build.cursor.registryRow
      ridBits := value.rawBits
      resolution := .missing
      matchCount := 0
      firstRegistryRow := none
      secondRegistryRow := none } := by
    rw [RidSlot.initial, hbefore.slots, hbefore.registryRow, hright.registryRow]
  dsimp only
  rw [← hslot, hbefore.slots]
  refine Triple.bind (triple_storeAt (log ++ .one ⟨⟨schema, node, .reference, row⟩, value⟩)
    (slotsOf (log.readings ++ [⟨⟨schema, node, .reference, row⟩, value⟩])) _ _ _ _ ?_ hafter)
    fun _ => Triple.modify ?_
  · intro storage hholds hroom
    refine { hholds with slots := ?_ }
    rw [hslots]
    exact hholds.slots.push _ hroom
  · rintro _ ⟨storage, hholds, rfl⟩
    refine ⟨value, hsound, start, { hafter with stored := ⟨storage, rfl, hholds⟩, slots := ?_ }⟩
    show after.cursor.slots + 1 = _
    rw [hafter.slots, PassLog.append_readings, PassLog.one, hslots, List.length_append]
    rfl

end Steps

/-! ## Calls that append to the log -/

/-- The call appends to the log what the relation allows. -/
def Appends {α : Type} (pass : SecondPass) (row : Option ℕ)
    (x : Call ManagedReject ManagedBuild α) (Q : α → PassLog → Prop) : Prop :=
  ∀ answers log, Triple answers (ManagedBuild.Between pass row log (slotsOf log.readings)) x
    (fun a build => ∃ next, Q a next ∧
      build.Between pass row (log ++ next) (slotsOf (log ++ next).readings)) fun _ _ => True

/-- The places of what was read, without a row. -/
def PassLog.At (places : List PayloadPlace) (next : PassLog) : Prop :=
  next.rows = [] ∧ next.readings.map (·.place) = places

theorem PassLog.At.append {before after : List PayloadPlace} {first next : PassLog}
    (hfirst : first.At before) (hnext : next.At after) : (first ++ next).At (before ++ after) := by
  constructor
  · rw [append_rows, hfirst.1, hnext.1]
    rfl
  · rw [append_readings, List.map_append, hfirst.2, hnext.2]

namespace Appends

variable {α β : Type} {pass : SecondPass} {row : Option ℕ} {limits : ManagedValuesLimits}
  {x : Call ManagedReject ManagedBuild α} {f : α → Call ManagedReject ManagedBuild β}
  {P Q : α → PassLog → Prop} {R : β → PassLog → Prop}

theorem mono (h : Appends pass row x P) (hle : ∀ a next, P a next → Q a next) :
    Appends pass row x Q := fun answers log =>
  (h answers log).consequence (fun _ h => h)
    (fun a _ ⟨next, hp, hbuild⟩ => ⟨next, hle a next hp, hbuild⟩) fun _ _ h => h

/-- **Sequence.** -/
theorem bind (hx : Appends pass row x P)
    (hf : ∀ a first, P a first → Appends pass row (f a) fun b next => R b (first ++ next)) :
    Appends pass row (x >>= f) R := by
  intro answers log
  refine Triple.bind (hx answers log) fun a => Triple.existing fun first =>
    Triple.knowing fun ha => ?_
  refine (hf a first ha answers (log ++ first)).consequence (fun _ h => h) ?_ fun _ _ h => h
  rintro b build ⟨next, hb, hbuild⟩
  rw [PassLog.append_assoc] at hbuild
  exact ⟨first ++ next, hb, hbuild⟩

theorem pure {a : α} (h : Q a {}) : Appends pass row (Pure.pure a) Q := fun _ log =>
  Triple.pure fun build hbuild => ⟨{}, h, by rwa [PassLog.append_empty]⟩

theorem requiring {p : Prop} [Decidable p] {e : ManagedReject}
    {g : Unit → Call ManagedReject ManagedBuild β} (h : p → Appends pass row (g ()) R) :
    Appends pass row (Call.require p e >>= g) R := fun answers log =>
  Triple.each fun _ hbuild => Triple.requiring (fun _ => trivial) fun hp =>
    (h hp answers log).pre fun _ hs => hs ▸ hbuild

/-- A step that the log does not see. -/
theorem quietly (hx : ∀ {answers I}, Quiet I → Maintains answers I x) :
    Appends pass row x fun _ next => next = {} := fun _ log =>
  (hx quiet_between).consequence (fun _ h => h)
    (fun _ _ hbuild => ⟨{}, rfl, by rwa [PassLog.append_empty]⟩) fun _ _ _ => trivial

theorem replicate (I : ℕ → PassLog → Prop) (hnil : I 0 {})
    (hcons : ∀ count a first next, P a first → I count next → I (count + 1) (first ++ next))
    (hx : Appends pass row x P) (count : ℕ) :
    Appends pass row (Call.replicate count x) fun _ => I count := by
  induction count with
  | zero => exact pure hnil
  | succ count ih =>
      refine hx.bind fun a first ha => ih.bind fun _ next hnext => pure ?_
      rw [PassLog.append_empty]
      exact hcons count a first next ha hnext

/-! What the readers append. -/

theorem readScalar (schema : ManagedSchema) (node : ℕ) (role : PlaceRole)
    (hrole : role ≠ .reference) (kind : ManagedValueKind) :
    Appends pass row (readScalar pass.mapped limits schema node kind) fun value next =>
      next = .one ⟨⟨schema, node, role, row⟩, value⟩ := fun _ log =>
  (triple_readScalar schema node role kind).consequence (fun _ h => h)
    (fun value _ h => ⟨_, rfl, by rwa [PassLog.append_readings, PassLog.one,
      slotsOf_snoc_other _ hrole]⟩) fun _ _ h => h

theorem readString (schema : ManagedSchema) (node : ℕ) :
    Appends pass row (readString pass.mapped limits schema node) fun value next =>
      next = .one ⟨⟨schema, node, .text, row⟩, value⟩ := fun _ log =>
  (triple_readString schema node).consequence (fun _ h => h)
    (fun value _ h => ⟨_, rfl, by rwa [PassLog.append_readings, PassLog.one,
      slotsOf_snoc_other _ (by simp)]⟩) fun _ _ h => h

theorem readRidSlot (schema : ManagedSchema) (node : ℕ) :
    Appends pass row (readRidSlot pass.mapped limits schema node) fun _ next =>
      ∃ value, next = .one ⟨⟨schema, node, .reference, row⟩, value⟩ := fun _ _ =>
  (triple_readRidSlot schema node).consequence (fun _ h => h)
    (fun _ _ ⟨value, h⟩ => ⟨_, ⟨value, rfl⟩, h⟩) fun _ _ h => h

end Appends

end UnityCommon.ManagedValues
