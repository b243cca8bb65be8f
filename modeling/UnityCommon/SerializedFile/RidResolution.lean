import UnityCommon.SerializedFile.ManagedHeap
import UnityCommon.SerializedFile.ManagedLayout

/-!
# The resolution of reference slots

The second pass writes a slot for every reference of the payload, with nothing
compared yet. Each slot is then compared with every row of the registry in the
order of the rows, so that its counters are those of the whole registry.
-/

namespace UnityCommon.ManagedValues

open UnityCommon.Metadata
open Call (Maintains Triple)

/-- What the rows of a rid make of it. -/
def ridResolution : List RegistryRow → RidResolution
  | [] => .missing
  | [row] => if row.kind = .null then .null else .unique
  | _ => .ambiguous

theorem ridResolution_of_many {rows : List RegistryRow} (h : 1 < rows.length) :
    ridResolution rows = .ambiguous := by
  match rows, h with
  | _ :: _ :: _, _ => rfl

/-- The slot counts the rows of its rid and names the first two of them. -/
structure RidSlot.Counts (rows : List RegistryRow) (slot : RidSlot) : Prop where
  matchCount : slot.matchCount = rows.countP (·.ridBits = slot.ridBits)
  first : slot.firstRegistryRow = (rows.findIdxs (·.ridBits = slot.ridBits))[0]?
  second : slot.secondRegistryRow = (rows.findIdxs (·.ridBits = slot.ridBits))[1]?

/-- And it is resolved by all of them. -/
structure RidSlot.Resolves (rows : List RegistryRow) (slot : RidSlot) : Prop
    extends slot.Counts rows where
  resolution : slot.resolution = ridResolution (rows.filter (·.ridBits = slot.ridBits))

/-- The bits are those of the eight bytes of a value. -/
def ManagedStorage.TellsRid (mapped : Text) (storage : ManagedStorage) (ordinal : ℕ)
    (bits : UInt64) : Prop :=
  ∃ value, storage.values[ordinal]? = some value ∧
    bits = scalarBits mapped 8 value.source.offset

/-- An owner has the values of its whole payload; its slots are one for every
reference, in the host, in an element of the array or in the payload of a row,
each with the rid that is read there and resolved by all rows; and its view
counts those that are not resolved. -/
structure ManagedStorage.RidsResolved (mapped : Text) (storage : ManagedStorage) : Prop where
  payload : ∃ host types readings, host.owner.view = storage.view.schema ∧
    host.Qualified .ordinaryObject ∧
    (∀ type ∈ types, type.toManagedSchema.Qualified .selectedReferencePayload) ∧
    storage.ReadsPayload mapped host types readings ∧
    ∀ reading ∈ readings, (reading.place.role = .reference ↔
      (reading.place.schema.node (reading.place.node - 1)).typeFlags = managedReferenceFlag)
  slotCount : storage.slots.length = storage.view.plan.ridSlotCount
  rowCount : storage.rows.length = storage.view.plan.registryRowCount
  everyReference : storage.slots.length =
    2 + storage.view.plan.arrayElementCount + storage.rows.countP (·.kind = .selectedPayload)
  slotRids : ∀ slot ∈ storage.slots, storage.TellsRid mapped slot.valueOrdinal slot.ridBits
  rowRids : ∀ row ∈ storage.rows, storage.TellsRid mapped row.ridValueOrdinal row.ridBits
  slots : ∀ slot ∈ storage.slots, slot.Resolves storage.rows
  missing : storage.view.missingRidSlots = storage.slots.countP (·.resolution = .missing)
  ambiguous : storage.view.ambiguousRidSlots = storage.slots.countP (·.resolution = .ambiguous)

/-! ## What the payload tells -/

section Payload

variable {mapped : Text} {host : ManagedSchema} {types : List CachedSchema}
  {readings : List Reading} {storage : ManagedStorage}

/-- The types of a cache have qualified. -/
def TypesQualified (types : List CachedSchema) : Prop :=
  ∀ type ∈ types, type.toManagedSchema.Qualified .selectedReferencePayload

theorem typesQualified_nil : TypesQualified [] := by
  intro type htype
  cases htype

namespace ManagedStorage.ReadsPayload

/-- The resolution writes the counters of the view and of the slots. -/
theorem resolve (h : storage.ReadsPayload mapped host types readings) (view : ManagedView)
    {slots : List RidSlot} (hplan : view.plan = storage.view.plan)
    (hsource : view.payloadSource = storage.view.payloadSource)
    (hslots : slots.map (·.unresolved) = storage.slots) :
    ({ storage with view, slots }).ReadsPayload mapped host types readings := by
  obtain ⟨h₁, h₂, h₃, h₄, h₅, h₆, h₇, h₈, h₉, h₁₀, h₁₁, h₁₂, h₁₃, h₁₄⟩ := h
  rw [← hplan] at h₂ h₈ h₉ h₁₃ h₁₄
  rw [← hsource] at h₆
  have hlength : slots.length = storage.slots.length := by
    rw [← hslots, List.length_map]
  refine ⟨h₁, h₂, h₃, h₄, h₅, h₆, ?_, h₈, h₉, h₁₀, h₁₁, h₁₂, h₁₃, hlength.trans h₁₄⟩
  rw [hslots, ← h₇, ← hslots, List.map_map]
  rfl

variable (h : storage.ReadsPayload mapped host types readings)
  (hhost : host.Qualified .ordinaryObject) (htypes : TypesQualified types)

include h hhost htypes

theorem nodes {reading : Reading} (hreading : reading ∈ readings) :
    (reading.place.role = .reference ↔
      (reading.place.schema.node (reading.place.node - 1)).typeFlags = managedReferenceFlag) ∧
    (reading.place.role = .reference ∨ reading.place.role = .rowRid →
      (reading.place.schema.node reading.place.node).byteSizeBits = 8) := by
  have hplace := List.mem_map_of_mem (f := (·.place)) hreading
  rw [h.places] at hplace
  obtain ⟨hschema, hknown⟩ := known_payloadPlaces hhost.kind_host
    (fun type htype => (htypes type htype).kind_selected) _ _ _ hplace
  rcases hschema with hschema | ⟨type, htype, hschema⟩
  · exact hknown.nodes (hschema ▸ hhost)
  · exact hknown.nodes (hschema ▸ htypes type htype)

/-- A rid is the eight bytes of its value, which its ordinal names. -/
theorem tellsRid {reading : Reading} (hreading : reading ∈ readings)
    (hrole : reading.place.role = .reference ∨ reading.place.role = .rowRid) :
    storage.TellsRid mapped reading.value.ordinal reading.value.rawBits := by
  have hright := h.right reading hreading
  have hsize := (h.nodes hhost htypes hreading).2 hrole
  have hbits := hright.bits (by rintro htext; rw [htext] at hrole; simp at hrole)
  rw [hright.schemaNode, hsize] at hbits
  obtain ⟨i, hi, rfl⟩ := List.mem_iff_getElem.mp hreading
  have hvalue : storage.values[i]? = some readings[i].value := by
    rw [← h.values, List.getElem?_map, List.getElem?_eq_getElem hi]
    rfl
  have hordinal := congrArg (·[i]?) h.ordinals
  simp only [List.getElem?_map, hvalue, Option.map_some] at hordinal
  rw [List.getElem?_range (List.getElem?_eq_some_iff.mp hvalue).1] at hordinal
  refine ⟨readings[i].value, ?_, hbits⟩
  rw [Option.some.inj hordinal]
  exact hvalue

/-- **Whoever is as told by the payload** and has its slots resolved by all rows. -/
theorem ridsResolved (hview : host.owner.view = storage.view.schema)
    (hslots : ∀ slot ∈ storage.slots, slot.Resolves storage.rows)
    (hmissing : storage.view.missingRidSlots = storage.slots.countP (·.resolution = .missing))
    (hambiguous :
      storage.view.ambiguousRidSlots = storage.slots.countP (·.resolution = .ambiguous)) :
    storage.RidsResolved mapped where
  payload := ⟨host, types, readings, hview, hhost, htypes, h,
    fun _ hreading => (h.nodes hhost htypes hreading).1⟩
  slotCount := h.plannedSlots
  rowCount := h.plannedRows
  everyReference := by
    rw [← List.length_map (f := (·.unresolved)), h.slots, slotsOf, List.length_mapIdx,
      length_valuesOf, h.places, countP_payloadPlaces _ _ _ _ h.kinds]
  slotRids slot hslot := by
    have hmem := List.mem_map_of_mem (f := (·.unresolved)) hslot
    rw [h.slots] at hmem
    obtain ⟨i, hi, heq⟩ := List.mem_mapIdx.mp hmem
    obtain ⟨reading, hreading, hrole, hvalue⟩ := mem_valuesOf.mp (List.getElem_mem hi)
    have htells := h.tellsRid hhost htypes hreading (Or.inl hrole)
    rw [hvalue] at htells
    have hordinal : (valuesOf .reference readings)[i].ordinal = slot.valueOrdinal :=
      congrArg RidSlot.valueOrdinal heq
    have hbits : (valuesOf .reference readings)[i].rawBits = slot.ridBits :=
      congrArg RidSlot.ridBits heq
    rwa [hordinal, hbits] at htells
  rowRids row hrow := by
    have hmem := List.mem_map_of_mem (f := fun row => (row.ridValueOrdinal, row.ridBits)) hrow
    rw [h.rowRids] at hmem
    obtain ⟨value, hvalue, heq⟩ := List.mem_map.mp hmem
    obtain ⟨hordinal, hbits⟩ := Prod.mk.inj heq
    obtain ⟨reading, hreading, hrole, rfl⟩ := mem_valuesOf.mp hvalue
    have htells := h.tellsRid hhost htypes hreading (Or.inr hrole)
    rwa [hordinal, hbits] at htells
  slots := hslots
  missing := hmissing
  ambiguous := hambiguous

end ManagedStorage.ReadsPayload

end Payload

/-! ## One slot -/

namespace RidSlot

variable {rows : List RegistryRow} {slot : RidSlot}

/-- A slot that nothing has been compared with counts no rows. -/
theorem counts_of_unresolved (h : slot.unresolved = slot) : slot.Counts [] := by
  rw [← h]
  exact ⟨rfl, rfl, rfl⟩

theorem see_resolution (slot : RidSlot) (ordinal : ℕ) (row : RegistryRow) :
    (slot.see ordinal row).resolution = slot.resolution := by
  unfold see
  split <;> rfl

theorem see_unresolved (slot : RidSlot) (ordinal : ℕ) (row : RegistryRow) :
    (slot.see ordinal row).unresolved = slot.unresolved := by
  unfold see
  split <;> rfl

/-- **One more row.** -/
theorem Counts.see (h : slot.Counts rows) (row : RegistryRow) :
    (slot.see rows.length row).Counts (rows ++ [row]) := by
  have hlength : (rows.findIdxs (·.ridBits = slot.ridBits)).length = slot.matchCount := by
    rw [List.length_findIdxs, h.matchCount]
  by_cases hrow : row.ridBits = slot.ridBits
  · have hfound : (rows ++ [row]).findIdxs (·.ridBits = slot.ridBits) =
        rows.findIdxs (·.ridBits = slot.ridBits) ++ [rows.length] := by
      simp [List.findIdxs_append, hrow]
    rw [RidSlot.see, if_neg (not_not_intro hrow)]
    constructor
    · simp [h.matchCount, hrow]
    · -- the ordinal of this row is the one behind those found
      show (if slot.matchCount = 0 then some rows.length else slot.firstRegistryRow) = _
      rw [hfound, h.first]
      split
      case isTrue hzero => rw [List.getElem?_append_right (by omega), hlength, hzero]; rfl
      case isFalse hzero => rw [List.getElem?_append_left (by omega)]
    · show (if slot.matchCount = 1 then some rows.length else slot.secondRegistryRow) = _
      rw [hfound, h.second]
      split
      case isTrue hone => rw [List.getElem?_append_right (by omega), hlength, hone]; rfl
      case isFalse hone =>
        by_cases hzero : slot.matchCount = 0
        · rw [List.getElem?_eq_none (by omega), List.getElem?_eq_none]
          simp [hzero, hlength]
        · rw [List.getElem?_append_left (by omega)]
  · rw [RidSlot.see, if_pos hrow]
    constructor
    · simp [h.matchCount, hrow]
    · simp [h.first, List.findIdxs_append, hrow]
    · simp [h.second, List.findIdxs_append, hrow]

/-- Equally many rows found as counted. -/
theorem Counts.length_filter (h : slot.Counts rows) :
    (rows.filter (·.ridBits = slot.ridBits)).length = slot.matchCount := by
  rw [h.matchCount, List.countP_eq_length_filter]

/-- The one row of a rid is where the slot says. -/
theorem Counts.row_of_one (h : slot.Counts rows) (hone : slot.matchCount = 1) :
    rows.filter (·.ridBits = slot.ridBits) =
      [(slot.firstRegistryRow.bind (rows[·]?)).getD .zeroed] := by
  have hfound : 0 < (rows.findIdxs (·.ridBits = slot.ridBits)).length := by
    rw [List.length_findIdxs, ← h.matchCount, hone]
    exact Nat.one_pos
  have hfilter := h.length_filter
  rw [hone] at hfilter
  obtain ⟨row, hrow⟩ := List.length_eq_one_iff.mp hfilter
  have hfirst := List.getElem_filter_eq_getElem_getElem_findIdxs
    (show 0 < (rows.filter (·.ridBits = slot.ridBits)).length by omega)
  have hlt := List.getElem_findIdxs_lt hfound
  rw [h.first, List.getElem?_eq_getElem hfound]
  simp only [hrow, List.getElem_cons_zero] at hfirst
  simp only [hrow, Option.bind_some, List.getElem?_eq_getElem hlt, Option.getD_some, hfirst]

end RidSlot

/-- The slots resolved so far are resolved, and counted. -/
structure ResolvedSlots.Exact (rows : List RegistryRow) (resolved : ResolvedSlots) : Prop where
  slots : ∀ slot ∈ resolved.slots, slot.Resolves rows
  missing : resolved.missingRidSlots = resolved.slots.countP (·.resolution = .missing)
  ambiguous : resolved.ambiguousRidSlots = resolved.slots.countP (·.resolution = .ambiguous)

theorem ResolvedSlots.add_slots (resolved : ResolvedSlots) (rows : List RegistryRow)
    (slot : RidSlot) (hslot : slot.Counts rows) (hmissing : slot.resolution = .missing) :
    ∃ next : RidSlot, next.Resolves rows ∧ next.unresolved = slot.unresolved ∧
      resolved.add rows slot =
      { slots := resolved.slots ++ [next]
        missingRidSlots :=
          resolved.missingRidSlots + if next.resolution = .missing then 1 else 0
        ambiguousRidSlots :=
          resolved.ambiguousRidSlots + if next.resolution = .ambiguous then 1 else 0 } := by
  have hlength := hslot.length_filter
  unfold ResolvedSlots.add
  split
  case isTrue hzero =>
    refine ⟨slot, ⟨hslot, ?_⟩, rfl, ?_⟩
    · rw [hzero, List.length_eq_zero_iff] at hlength
      rw [hlength, hmissing]
      rfl
    · simp [hmissing]
  case isFalse hzero =>
    split
    case isTrue hmany =>
      refine ⟨{ slot with resolution := .ambiguous }, ⟨⟨hslot.1, hslot.2, hslot.3⟩, ?_⟩, rfl, ?_⟩
      · exact (ridResolution_of_many (hlength ▸ hmany)).symm
      · simp
    case isFalse hmany =>
      have hone := hslot.row_of_one (by omega)
      refine ⟨{ slot with resolution := ridResolution (rows.filter (·.ridBits = slot.ridBits)) },
        ⟨⟨hslot.1, hslot.2, hslot.3⟩, rfl⟩, rfl, ?_⟩
      rw [hone, ridResolution]
      split
      case isTrue hkind => simp [hkind]
      case isFalse hkind => simp [hkind]

theorem ResolvedSlots.Exact.add {rows : List RegistryRow} {resolved : ResolvedSlots}
    {slot : RidSlot} (h : resolved.Exact rows) (hslot : slot.Counts rows)
    (hmissing : slot.resolution = .missing) : (resolved.add rows slot).Exact rows := by
  obtain ⟨next, hnext, -, heq⟩ := resolved.add_slots rows slot hslot hmissing
  rw [heq]
  constructor
  · intro other hother
    rcases List.mem_append.mp hother with hother | hother
    · exact h.slots other hother
    · rw [List.mem_singleton.mp hother]
      exact hnext
  · simp [h.missing, List.countP_append, List.countP_singleton]
  · simp [h.ambiguous, List.countP_append, List.countP_singleton]

/-! ## All slots -/

section Run

variable {answers : ℕ → Bool} {mapped : Text} {limits : ManagedValuesLimits}
  {directory : SerializedFileDirectory} {tail : SerializedFileMetadataTail}

theorem triple_matchRows (value : ManagedValue) (rows done : List RegistryRow) (slot : RidSlot)
    (hslot : slot.Counts done) :
    Triple answers (fun _ => True) (matchRows limits value done.length rows slot)
      (fun seen _ => seen.Counts (done ++ rows) ∧ seen.resolution = slot.resolution ∧
        seen.unresolved = slot.unresolved) fun _ _ => True := by
  induction rows generalizing done slot with
  | nil =>
      refine Triple.pure fun _ _ => ⟨?_, rfl, rfl⟩
      rwa [List.append_nil]
  | cons row rows ih =>
      refine Triple.bind Triple.anything fun _ => ?_
      have hseen := hslot.see row
      have hrest := ih (done ++ [row]) (slot.see done.length row) hseen
      rw [List.length_append, List.length_singleton, List.append_assoc, List.singleton_append,
        slot.see_resolution, slot.see_unresolved] at hrest
      exact hrest

theorem triple_resolveEach (storage : ManagedStorage) (slots : List RidSlot)
    (resolved : ResolvedSlots) (hslots : ∀ slot ∈ slots, slot.unresolved = slot)
    (hresolved : resolved.Exact storage.rows) :
    Triple answers (fun _ => True) (resolveEach limits storage slots resolved)
      (fun after _ => after.Exact storage.rows ∧
        after.slots.map (·.unresolved) = resolved.slots.map (·.unresolved) ++ slots)
      fun _ _ => True := by
  induction slots generalizing resolved with
  | nil => exact Triple.pure fun _ _ => ⟨hresolved, (List.append_nil _).symm⟩
  | cons slot slots ih =>
      have hfresh := hslots slot List.mem_cons_self
      refine Triple.bind Triple.anything fun _ => ?_
      refine Triple.bind (triple_matchRows _ storage.rows [] slot
        (RidSlot.counts_of_unresolved hfresh)) fun seen => ?_
      refine Triple.assuming (fun _ h => h) fun ⟨hcounts, hresolution, hseen⟩ => ?_
      refine Triple.bind Triple.anything fun _ => ?_
      have hmissing : seen.resolution = .missing := by
        rw [hresolution, ← hfresh]
        rfl
      have hslots' : (resolved.add storage.rows seen).slots.map (·.unresolved) =
          resolved.slots.map (·.unresolved) ++ [slot] := by
        obtain ⟨next, -, hnext, heq⟩ := resolved.add_slots storage.rows seen hcounts hmissing
        rw [heq, List.map_append, List.map_singleton, hnext, hseen, hfresh]
      refine (ih (resolved.add storage.rows seen)
        (fun other hother => hslots other (List.mem_cons_of_mem _ hother))
        (hresolved.add hcounts hmissing)).consequence (fun _ h => h) ?_ fun _ _ h => h
      rintro after _ ⟨hexact, hafter⟩
      refine ⟨hexact, ?_⟩
      rw [hafter, hslots', List.append_assoc, List.singleton_append]

/-! ## The schemas -/

/-- A property of the types only. -/
def ManagedBuild.HasTypes (T : List CachedSchema → Prop) (build : ManagedBuild) : Prop :=
  T build.types

theorem framed_hasTypes (T : List CachedSchema → Prop) : Framed (ManagedBuild.HasTypes T) := by
  intro build build' _ _ htypes h
  unfold ManagedBuild.HasTypes at *
  rwa [← htypes]

theorem triple_qualifySchema {I : ManagedBuild → Prop} (hI : Quiet I) (owner : SerializedFileSchema)
    (kind : SchemaContextKind) :
    Triple answers I (qualifySchema limits owner kind)
      (fun schema build => schema.Qualified kind ∧ I build) fun _ => I := by
  refine Triple.bind Maintains.current fun _ => Triple.bind (Q := fun _ => I)
    (maintains_nested keeps_schemaContextQuery fun _ _ build h => hI build _ rfl rfl rfl rfl h)
    fun context => Triple.bind Maintains.current fun _ => ?_
  refine Triple.bind (Q := fun profile build => owner.Qualified kind profile ∧ I build)
    (Triple.nested keeps_managedProfileQualify (V := fun profile _ => owner.Qualified kind profile)
      (F := fun _ => True) ?_ (fun _ _ _ _ _ _ => trivial) ?_ ?_) fun profile =>
    Triple.pure fun _ h => h
  · exact fun _ _ _ _ _ _ h => qualified_of_ok h
  · exact fun build _ _ h hqualified => ⟨hqualified, hI build _ rfl rfl rfl rfl h⟩
  · exact fun build _ h _ => hI build _ rfl rfl rfl rfl h

/-- **A schema that is used has qualified**, and compiling it leaves the types alone. -/
theorem triple_createSchema_qualified (T : List CachedSchema → Prop) (ordinal : ℕ)
    (reference : Bool) :
    Triple answers (ManagedBuild.HasTypes T)
      (createSchema mapped limits directory tail ordinal reference)
      (fun schema build => schema.Qualified
        (if reference then .selectedReferencePayload else .ordinaryObject) ∧ build.HasTypes T)
      fun _ => ManagedBuild.HasTypes T := by
  refine Triple.bind (Triple.modify (Q := fun _ => ManagedBuild.HasTypes T) fun _ h => h) fun _ => ?_
  refine Triple.bind (Triple.modify (Q := fun _ => ManagedBuild.HasTypes T) fun _ h => h) fun _ => ?_
  refine Triple.bind (Q := fun _ => ManagedBuild.HasTypes T) Maintains.current fun build => ?_
  refine Triple.bind (Q := fun _ => ManagedBuild.HasTypes T)
    (maintains_nested keeps_schemaCreate fun _ _ _ h => h) fun schema => ?_
  refine Triple.bind (Triple.modify (Q := fun _ => ManagedBuild.HasTypes T) ?_) fun _ =>
    triple_qualifySchema (framed_hasTypes T).quiet _ _
  intro build h
  cases reference <;> exact h

theorem passInvariant_typesQualified :
    PassInvariant answers mapped limits directory tail
      (ManagedBuild.HasTypes TypesQualified) where
  framed := framed_hasTypes _
  setValue _ _ _ h := h
  setRow _ _ _ h := h
  setSlot _ _ _ h := h
  createSchema ordinal := by
    refine (triple_createSchema_qualified TypesQualified ordinal true).consequence
      (fun _ h => h.1) ?_ fun _ _ h => h
    rintro schema build ⟨hschema, htypes⟩ index original type htype
    rcases List.mem_append.mp htype with htype | htype
    · exact htypes type htype
    · rw [List.mem_singleton.mp htype]
      exact hschema

theorem maintains_createIndexAndCache (T : List CachedSchema → Prop) :
    Maintains answers (ManagedBuild.HasTypes T) (createIndexAndCache limits tail) := by
  have hindex : Maintains answers (ManagedBuild.HasTypes T) (createIndex limits tail) := by
    refine Maintains.modifying (fun _ h => h) <| Maintains.current.bind fun _ => ?_
    refine Maintains.bind ?_ fun _ => Maintains.modifying (fun _ h => h) <| Maintains.pure _
    exact maintains_nested keeps_referenceIndexCreate fun _ _ _ h => h
  have hcache : ∀ capacity, Maintains answers (ManagedBuild.HasTypes T)
      (createCache limits capacity) := by
    intro capacity
    refine (Maintains.require _ _).bind fun _ => Maintains.modifying (fun _ h => h) <|
      Maintains.current.bind fun _ => (Maintains.require _ _).bind fun _ =>
      (maintains_charge (framed_hasTypes T).quiet _ _ _ _).bind fun _ => ?_
    split
    · exact Maintains.pure _
    · exact Maintains.bind (Triple.request (fun _ h => h) fun _ h _ => h) fun _ =>
        Maintains.modify fun _ h => h
  exact hindex.bind fun _ => (Maintains.require _ _).bind fun _ => (hcache _).bind fun _ =>
    Maintains.pure _

/-- Whatever was there, the storage is now of zero bytes and as planned. -/
theorem triple_allocateValues_storage (T : List CachedSchema → Prop) (view : ManagedView) :
    Triple answers (ManagedBuild.HasTypes T) (allocateValues limits view)
      (fun _ build => ∃ size, build.HasTypes T ∧
        build.storage = some (.zeroed { view with retainedBytes := size } build.types))
      fun _ _ => True := by
  have hplan : ∀ size count width, Triple answers (ManagedBuild.HasTypes T)
      (planArray limits size count width) (fun _ => ManagedBuild.HasTypes T) fun _ _ => True :=
    fun _ _ _ => ((maintains_charge (framed_hasTypes T).quiet _ _ _ _).bind fun _ =>
      Maintains.ofOption _ _).consequence (fun _ h => h) (fun _ _ h => h) fun _ _ _ => trivial
  refine Triple.bind (hplan _ _ _) fun _ => Triple.bind (hplan _ _ _) fun _ => ?_
  refine Triple.bind (hplan _ _ _) fun _ => Triple.bind (hplan _ _ _) fun size => ?_
  refine Triple.bind (Triple.modify (Q := fun _ => ManagedBuild.HasTypes T) fun _ h => h) fun _ => ?_
  refine Triple.bind (Triple.require (Q := fun _ => ManagedBuild.HasTypes T) (fun _ h _ => h)
    fun _ _ _ => trivial) fun _ => ?_
  refine Triple.bind ((maintains_charge (framed_hasTypes T).quiet _ _ _ _).consequence (fun _ h => h)
    (fun _ _ h => h) fun _ _ _ => trivial) fun _ => ?_
  refine Triple.bind (Triple.request (Q := fun _ => ManagedBuild.HasTypes T) (fun _ h => h)
    fun _ _ _ => trivial) fun _ => ?_
  exact Triple.modify fun build h => ⟨size, h, rfl⟩

theorem maintains_admitManagedValues (T : List CachedSchema → Prop) (objectOrdinal mappedSize : ℕ) :
    Maintains answers (ManagedBuild.HasTypes T)
      (admitManagedValues limits directory tail objectOrdinal mappedSize) := by
  have hsource : Maintains answers (ManagedBuild.HasTypes T)
      (admitSource limits directory tail objectOrdinal mappedSize) :=
    (Maintains.require _ _).bind fun _ => (Maintains.require _ _).bind fun _ =>
      (Maintains.require _ _).bind fun _ => (Maintains.ofOption _ _).bind fun _ =>
      Maintains.modifying (fun _ h => h) <|
      (Maintains.require _ _).bind fun _ => (Maintains.require _ _).bind fun _ =>
      (Maintains.require _ _).bind fun _ => (Maintains.require _ _).bind fun _ =>
      (Maintains.require _ _).bind fun _ => Maintains.pure _
  have hreserve : Maintains answers (ManagedBuild.HasTypes T) (reserveMemory limits) :=
    (Maintains.require _ _).bind fun _ => Maintains.modifying (fun _ h => h) <|
      Maintains.require _ _
  exact (maintains_charge (framed_hasTypes T).quiet _ _ _ _).bind fun _ => hsource.bind fun _ =>
    hreserve.bind fun _ => Maintains.pure _

theorem triple_decodeManagedValues_rids (object : DirectoryObjectRow) :
    Triple answers (ManagedBuild.HasTypes TypesQualified)
      (decodeManagedValues mapped limits directory tail object)
      (fun storage _ => storage.RidsResolved mapped) fun _ _ => True := by
  have hany : ∀ {α : Type} {x : Call ManagedReject ManagedBuild α},
      Maintains answers (ManagedBuild.HasTypes TypesQualified) x →
      Triple answers (ManagedBuild.HasTypes TypesQualified) x
        (fun _ => ManagedBuild.HasTypes TypesQualified) fun _ _ => True := fun h =>
    h.consequence (fun _ h => h) (fun _ _ h => h) fun _ _ _ => trivial
  refine Triple.bind ((triple_createSchema_qualified TypesQualified _ false).consequence
    (fun _ h => h) (fun _ _ h => h) fun _ _ _ => trivial) fun host => Triple.knowing fun hhost => ?_
  refine Triple.bind (hany (maintains_createIndexAndCache _)) fun ⟨index, typeCapacity⟩ => ?_
  refine Triple.bind (hany (maintains_parsePayload passInvariant_typesQualified _ _ _ _))
    fun planned => ?_
  refine Triple.bind (triple_allocateValues_storage TypesQualified _) fun _ => ?_
  refine Triple.existing fun size => Triple.each fun staged hstaged => ?_
  obtain ⟨htypes, hzeroed⟩ := hstaged
  let pass : SecondPass :=
    { mapped, view := { managedView object host planned with retainedBytes := size }
      types := staged.types }
  refine Triple.bind ((@triple_secondPass answers pass limits directory tail host index typeCapacity
    object.payload rfl).here ⟨rfl, hzeroed⟩) fun plan => ?_
  refine Triple.existing fun written => Triple.existing fun readings => ?_
  refine Triple.each fun build hbuild => Triple.reading ?_
  obtain ⟨hwritten, hview, hplan, hslots, hreads⟩ := hbuild
  refine Triple.choosing (fun _ => trivial) fun storage hstorage => ?_
  obtain rfl : written = storage := Option.some.inj (hwritten.symm.trans hstorage)
  have hfresh : ∀ slot ∈ written.slots, slot.unresolved = slot := by
    intro slot hslot
    rw [hslots] at hslot
    obtain ⟨i, hi, rfl⟩ := List.mem_mapIdx.mp hslot
    rfl
  refine Triple.pre (P := fun _ => True) ?_ fun _ _ => trivial
  refine Triple.bind (triple_resolveEach written written.slots ⟨[], 0, 0⟩ hfresh
    ⟨nofun, rfl, rfl⟩) fun resolved => Triple.assuming (fun _ h => h) fun hresolved => ?_
  refine Triple.bind Triple.anything fun _ => Triple.pure fun _ _ => ?_
  obtain ⟨hexact, hunresolved⟩ := hresolved
  have hresolves := hreads.resolve
    { managedView object host plan with
      missingRidSlots := resolved.missingRidSlots
      ambiguousRidSlots := resolved.ambiguousRidSlots
      retainedBytes := build.memory.requiredRetainedBytes }
    (by rw [hview]; exact hplan) (by rw [hview]; rfl) hunresolved
  exact hresolves.ridsResolved hhost htypes rfl hexact.slots hexact.missing hexact.ambiguous

end Run

/-- **A published owner has every reference of its payload resolved by all rows of
its registry**; where none is published the caller's output stays. -/
theorem managedValuesCreate_rids (mapped : Text) (limits : ManagedValuesLimits)
    (directory : SerializedFileDirectory) (tail : SerializedFileMetadataTail)
    (objectOrdinal mappedSize : ℕ) (answers : ℕ → Bool) (out : Option ManagedStorage) (n : ℕ) :
    (serializedFileManagedValuesCreate mapped limits directory tail objectOrdinal mappedSize
      answers out n).Ends
      (fun _ after => ∃ storage, after = some storage ∧ storage.RidsResolved mapped)
      fun _ after => after = out := by
  cases out with
  | some live => exact rfl
  | none =>
      have hadmit : Triple answers (ManagedBuild.HasTypes TypesQualified)
          (admitManagedValues limits directory tail objectOrdinal mappedSize)
          (fun _ => ManagedBuild.HasTypes TypesQualified) fun _ _ => True :=
        (maintains_admitManagedValues _ _ _).consequence (fun _ h => h) (fun _ _ h => h)
          fun _ _ _ => trivial
      have hcreate : Triple answers (ManagedBuild.HasTypes TypesQualified)
          (createManagedValues mapped limits directory tail objectOrdinal mappedSize)
          (fun storage _ => storage.RidsResolved mapped) fun _ _ => True :=
        Triple.bind hadmit fun object => triple_decodeManagedValues_rids object
      rw [managedValuesCreate_apply]
      cases houtcome : createManagedValues mapped limits directory tail objectOrdinal mappedSize
          answers {} n with
      | ok storage build n' => exact ⟨storage, rfl, hcreate.of_ok (s := {}) typesQualified_nil houtcome⟩
      | error reject build n' => exact rfl

/-- Two rows have the rid 5, which a field of the host and the payload of a row refer to. -/
theorem managedValuesCreate_rids_sample :
    ∃ result storage n, serializedFileManagedValuesCreate managedText managedLimits managedDirectory
        managedTail 0 3084 Call.granted none 0 = .ok result (some storage) n ∧
      storage.slots.map (fun slot => (slot.ridBits, slot.matchCount, slot.resolution)) =
        [(5, 2, .ambiguous), (6, 1, .unique), (9, 0, .missing), (6, 1, .unique),
          (0xfffffffffffffffe, 1, .null), (5, 2, .ambiguous)] ∧
      storage.RidsResolved managedText := by
  obtain ⟨storage, build, n, hrun, hslots, -⟩ := createManagedValues_sample
  -- the run is known by now, and its text is not to be unfolded again
  generalize managedText = mapped at hrun ⊢
  have hcreate := managedValuesCreate_apply mapped managedLimits managedDirectory managedTail 0 3084
    Call.granted 0
  rw [hrun] at hcreate
  have hends := managedValuesCreate_rids mapped managedLimits managedDirectory managedTail 0 3084
    Call.granted none 0
  rw [hcreate] at hends
  obtain ⟨published, hpublished, hresolved⟩ := hends
  obtain rfl : storage = published := Option.some.inj hpublished
  exact ⟨_, storage, n, hcreate, hslots, hresolved⟩

end UnityCommon.ManagedValues
