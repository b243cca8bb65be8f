import UnityCommon.Lib.SortedAssoc
import UnityCommon.Registry.Schema

/-!
# Learning and lookup

The registry's array of entries and the operations that read and extend it. The
registry is the state of a call, so that what a failed call leaves behind is
part of its result.
-/

namespace UnityCommon.Registry

open UnityCommon.TypeTree

structure Entry where
  key : TypeTreeSchemaKey
  schema : TypeTreeType
deriving DecidableEq, Repr

structure TypeTreeSchemaRegistry where
  entries : List Entry
  capacity : ℕ
deriving DecidableEq, Repr

/-- `typetree_schema_registry_init`. -/
def TypeTreeSchemaRegistry.init : TypeTreeSchemaRegistry := ⟨[], 0⟩

/-- `SCHEMA_REGISTRY_MAX_ENTRIES`. -/
def maxEntries : ℕ := 65536

/-- The doubling loop of a growing array, up to `limit`. Every doubling adds at
least one, so `required` rounds are enough. -/
def growCapacity (limit required : ℕ) : ℕ → ℕ → ℕ
  | 0, capacity => capacity
  | fuel + 1, capacity =>
      if capacity < required then
        if limit / 2 < capacity then limit else growCapacity limit required fuel (capacity * 2)
      else capacity

def reservedCapacity (capacity required : ℕ) : ℕ :=
  growCapacity maxEntries required required (if capacity = 0 then 8 else capacity)

def registryReserve (required : ℕ) :
    Call TypeTreeSchemaStatus TypeTreeSchemaRegistry Unit := do
  Call.require (required ≤ maxEntries) .limitExceeded
  let registry ← Call.current
  if required ≤ registry.capacity then pure ()
  else do
    Call.request .allocationFailed
    Call.replace { registry with capacity := reservedCapacity registry.capacity required }

def insertEntry (entry : Entry) : Call TypeTreeSchemaStatus TypeTreeSchemaRegistry Unit := do
  let registry ← Call.current
  Call.replace
    { registry with entries := SortedAssoc.insert compareKeys Entry.key registry.entries entry }

/-- The part of `learn` that adds an entry. -/
def addEntry (key : TypeTreeSchemaKey) (schema : TypeTreeType) (count : ℕ) :
    Call TypeTreeSchemaStatus TypeTreeSchemaRegistry Unit := do
  let ownedKey ← ownedKeyCopy key
  let ownedSchema ← cloneSchema schema
  registryReserve (count + 1)
  insertEntry ⟨ownedKey, ownedSchema⟩

/-- `learn` once the key and schema are known to be valid. -/
def learnAdmitted (key : TypeTreeSchemaKey) (schema : TypeTreeType) :
    Call TypeTreeSchemaStatus TypeTreeSchemaRegistry Unit := do
  let registry ← Call.current
  match SortedAssoc.find? compareKeys Entry.key registry.entries key with
  | some existing => Call.require (schemasEqual existing.schema schema = true) .keyConflict
  | none => addEntry key schema registry.entries.length

section

variable (sha256 : Text → Sha256Digest)

def typetreeSchemaRegistryLearn (key : Option TypeTreeSchemaKey) (schema : Option TypeTreeType)
    (provenance : TypeTreeSchemaProvenance) :
    Call TypeTreeSchemaStatus TypeTreeSchemaRegistry Unit := do
  Call.require (provenance = .pinnedInput ∨ provenance = .importedRegistry) .invalidArgument
  let admitted ← Call.ofExcept (validateSchema sha256 key schema)
  learnAdmitted admitted.1 admitted.2

def typetreeSchemaRegistryLookup (key : Option TypeTreeSchemaKey) :
    Call TypeTreeSchemaStatus TypeTreeSchemaRegistry TypeTreeType := do
  let key ← Call.ofExcept (validateKey key)
  let registry ← Call.current
  match SortedAssoc.find? compareKeys Entry.key registry.entries key with
  | some existing => cloneSchema existing.schema
  | none => Call.fail .notFound

def schemaKeysMatchExceptUnityVersion (left right : TypeTreeSchemaKey) : Bool :=
  left.serializedFileVersion == right.serializedFileVersion && left.classId == right.classId &&
    left.serializedTypeId == right.serializedTypeId &&
    left.scriptTypeIndex == right.scriptTypeIndex &&
    left.hasScriptIdHash == right.hasScriptIdHash && left.isStripped == right.isStripped &&
    left.isRefType == right.isRefType && left.scriptIdHash == right.scriptIdHash &&
    left.typeHash == right.typeHash

/-- The scan of `bind_exact_version`: `none` when the destination key is already
there, else the schema of the last entry that differs in its version alone. -/
def scanForBinding (destinationKey : TypeTreeSchemaKey) (selected : Option TypeTreeType) :
    List Entry → Except TypeTreeSchemaStatus (Option TypeTreeType)
  | [] =>
      match selected with
      | none => .error .notFound
      | some schema => .ok (some schema)
  | entry :: rest =>
      if compareKeys entry.key destinationKey = .eq then .ok none
      else if !schemaKeysMatchExceptUnityVersion entry.key destinationKey then
        scanForBinding destinationKey selected rest
      else if selected.any fun schema => !schemasEqual schema entry.schema then
        .error .keyConflict
      else scanForBinding destinationKey (some entry.schema) rest

def typetreeSchemaRegistryBindExactVersion (destinationKey : Option TypeTreeSchemaKey)
    (evidenceProvenance : TypeTreeSchemaProvenance) :
    Call TypeTreeSchemaStatus TypeTreeSchemaRegistry Unit := do
  Call.require (evidenceProvenance = .pinnedInput) .invalidArgument
  let key ← Call.ofExcept (validateKey destinationKey)
  let registry ← Call.current
  let selected ← Call.ofExcept (scanForBinding key none registry.entries)
  match selected with
  | none => pure ()
  | some schema => do
      Call.require (typetreeSchemaValidateKnownProfile sha256 key.unityVersion key.classId
        key.typeHash schema = .valid) .invalidSchema
      typetreeSchemaRegistryLearn sha256 (some key) (some schema) evidenceProvenance

end

/-- `typetree_schema_registry_dispose`. -/
def typetreeSchemaRegistryDispose : Call TypeTreeSchemaStatus TypeTreeSchemaRegistry Unit :=
  Call.replace .init

/-! ## The invariant -/

/-- **The representation invariant.** -/
structure TypeTreeSchemaRegistry.WellFormed (sha256 : Text → Sha256Digest)
    (registry : TypeTreeSchemaRegistry) : Prop where
  increasing : SortedAssoc.Increasing compareKeys Entry.key registry.entries
  valid : ∀ entry ∈ registry.entries, ValidEntry sha256 entry.key entry.schema
  count_le : registry.entries.length ≤ registry.capacity

section

variable {sha256 : Text → Sha256Digest} {registry registry' : TypeTreeSchemaRegistry}
  {answers : ℕ → Bool} {n n' : ℕ} {key : TypeTreeSchemaKey} {schema : TypeTreeType}

theorem wellFormed_init : TypeTreeSchemaRegistry.init.WellFormed sha256 :=
  ⟨List.Pairwise.nil, by simp [TypeTreeSchemaRegistry.init], Nat.le_refl 0⟩

/-- The array always ends up large enough. -/
theorem le_growCapacity {limit required : ℕ} (hlimit : required ≤ limit) :
    ∀ {fuel capacity : ℕ}, 0 < capacity → required ≤ capacity + fuel →
      required ≤ growCapacity limit required fuel capacity := by
  intro fuel
  induction fuel with
  | zero =>
      intro capacity _ h
      exact h
  | succ fuel ih =>
      intro capacity hpos h
      unfold growCapacity
      split_ifs with hlt hmax
      · exact hlimit
      · exact ih (by omega) (by omega)
      · omega

theorem le_reservedCapacity {capacity required : ℕ} (h : required ≤ maxEntries) :
    required ≤ reservedCapacity capacity required := by
  apply le_growCapacity h
  · split_ifs <;> omega
  · omega

/-! ## What reserving and adding do -/

/-- The registry after room was made for `required` entries. -/
def TypeTreeSchemaRegistry.reserved (registry : TypeTreeSchemaRegistry) (required : ℕ) :
    TypeTreeSchemaRegistry :=
  if required ≤ registry.capacity then registry
  else { registry with capacity := reservedCapacity registry.capacity required }

/-- The registry with a new entry. -/
def TypeTreeSchemaRegistry.added (registry : TypeTreeSchemaRegistry) (entry : Entry) :
    TypeTreeSchemaRegistry where
  entries := SortedAssoc.insert compareKeys Entry.key registry.entries entry
  capacity := (registry.reserved (registry.entries.length + 1)).capacity

@[simp] theorem reserved_entries (required : ℕ) :
    (registry.reserved required).entries = registry.entries := by
  unfold TypeTreeSchemaRegistry.reserved
  split_ifs <;> rfl

theorem le_reserved_capacity {required : ℕ} (h : required ≤ maxEntries) :
    required ≤ (registry.reserved required).capacity := by
  unfold TypeTreeSchemaRegistry.reserved
  split_ifs with hcap
  · exact hcap
  · exact le_reservedCapacity h

theorem yields_registryReserve {required : ℕ} (h : required ≤ maxEntries) :
    Call.Yields .allocationFailed (registryReserve required) registry ()
      (registry.reserved required) := by
  apply (Call.yields_require h).bind
  apply Call.yields_current.bind
  unfold TypeTreeSchemaRegistry.reserved
  split_ifs
  · exact Call.yields_pure ()
  · exact Call.yields_request.bind Call.yields_replace

theorem registryReserve_limit {required : ℕ} {u : Unit}
    (h : registryReserve required answers registry n = .ok u registry' n') :
    required ≤ maxEntries := by
  exact (Call.require_bind_eq_ok.mp h).1

/-- Room is the last thing that can be refused, and is refused before it is made. -/
theorem atomic_registryReserve (required : ℕ) : Call.Atomic (registryReserve required) := by
  apply Call.Atomic.bind (Call.keeps_require _ _)
  intro _
  apply Call.Atomic.bind Call.keeps_current
  intro registry
  split_ifs
  · exact (Call.keeps_pure ()).atomic
  · apply Call.Atomic.bind_total (Call.keeps_request _).atomic
    intro _
    exact Call.replace_ne_error _

theorem yields_addEntry (hvalid : ValidEntry sha256 key schema)
    (hroom : registry.entries.length + 1 ≤ maxEntries) :
    Call.Yields .allocationFailed (addEntry key schema registry.entries.length) registry ()
      (registry.added ⟨key, schema⟩) := by
  apply (yields_ownedKeyCopy registry hvalid.key_valid).bind
  apply (yields_cloneSchema registry hvalid).bind
  apply (yields_registryReserve hroom).bind
  apply Call.yields_current.bind
  rw [TypeTreeSchemaRegistry.added, reserved_entries]
  exact Call.yields_replace

theorem addEntry_room {count : ℕ} {u : Unit}
    (h : addEntry key schema count answers registry n = .ok u registry' n') :
    count + 1 ≤ maxEntries := by
  obtain ⟨_, _, _, -, h⟩ := Call.bind_eq_ok.mp h
  obtain ⟨_, _, _, -, h⟩ := Call.bind_eq_ok.mp h
  obtain ⟨_, _, _, hreserve, -⟩ := Call.bind_eq_ok.mp h
  exact registryReserve_limit hreserve

theorem atomic_addEntry (count : ℕ) : Call.Atomic (addEntry key schema count) := by
  apply Call.Atomic.bind (keeps_ownedKeyCopy _)
  intro ownedKey
  apply Call.Atomic.bind (keeps_cloneSchema _)
  intro ownedSchema
  apply Call.Atomic.bind_total (atomic_registryReserve _)
  intro _ answers s n e s' n' h
  rcases Call.bind_eq_error.mp h with h | ⟨_, _, _, -, h⟩
  · cases h
  · exact Call.replace_ne_error _ _ _ _ _ _ _ h

/-! ## What learning does -/

/-- The entries after a pair is learned: a key that is there keeps its entry. -/
def absorb (entries : List Entry) (entry : Entry) : List Entry :=
  match SortedAssoc.find? compareKeys Entry.key entries entry.key with
  | some _ => entries
  | none => SortedAssoc.insert compareKeys Entry.key entries entry

/-- The pair may be learned: it is valid, a key that is there has that very
schema, and a new one finds room. -/
structure Learnable (sha256 : Text → Sha256Digest) (entries : List Entry) (entry : Entry) :
    Prop where
  valid : ValidEntry sha256 entry.key entry.schema
  agrees : ∀ existing, SortedAssoc.find? compareKeys Entry.key entries entry.key =
    some existing → schemasEqual existing.schema entry.schema = true
  room : SortedAssoc.find? compareKeys Entry.key entries entry.key = none →
    entries.length + 1 ≤ maxEntries

/-- The registry after a pair is learned. -/
def TypeTreeSchemaRegistry.learned (registry : TypeTreeSchemaRegistry) (entry : Entry) :
    TypeTreeSchemaRegistry :=
  match SortedAssoc.find? compareKeys Entry.key registry.entries entry.key with
  | some _ => registry
  | none => registry.added entry

@[simp] theorem learned_entries (entry : Entry) :
    (registry.learned entry).entries = absorb registry.entries entry := by
  unfold TypeTreeSchemaRegistry.learned absorb
  cases SortedAssoc.find? compareKeys Entry.key registry.entries entry.key <;> rfl

theorem yields_learn {entry : Entry} {provenance : TypeTreeSchemaProvenance}
    (hprov : provenance = .pinnedInput ∨ provenance = .importedRegistry)
    (h : Learnable sha256 registry.entries entry) :
    Call.Yields .allocationFailed
      (typetreeSchemaRegistryLearn sha256 (some entry.key) (some entry.schema) provenance)
      registry () (registry.learned entry) := by
  apply (Call.yields_require hprov).bind
  apply (Call.yields_ofExcept h.valid).bind
  apply Call.yields_current.bind
  dsimp only
  unfold TypeTreeSchemaRegistry.learned
  cases hfind : SortedAssoc.find? compareKeys Entry.key registry.entries entry.key with
  | some existing => exact Call.yields_require (h.agrees existing hfind)
  | none => exact yields_addEntry h.valid (h.room hfind)

/-- **Everything a successful learn can have done.** -/
theorem learn_eq_ok {key? : Option TypeTreeSchemaKey} {schema? : Option TypeTreeType}
    {provenance : TypeTreeSchemaProvenance} {u : Unit}
    (h : typetreeSchemaRegistryLearn sha256 key? schema? provenance answers registry n =
      .ok u registry' n') :
    ∃ entry : Entry, key? = some entry.key ∧ schema? = some entry.schema ∧
      Learnable sha256 registry.entries entry ∧ registry' = registry.learned entry := by
  have hall := h
  obtain ⟨hprov, h⟩ := Call.require_bind_eq_ok.mp h
  obtain ⟨admitted, hadmitted, h⟩ := Call.ofExcept_bind_eq_ok.mp h
  obtain ⟨hkey, hschema, hvalid⟩ := validateSchema_eq_ok_iff.mp hadmitted
  have h := Call.current_bind_eq_ok.mp h
  have hlearnable : Learnable sha256 registry.entries ⟨admitted.1, admitted.2⟩ := by
    refine ⟨hvalid, ?_, ?_⟩
    · intro existing hfind
      dsimp only at hfind
      simp only [hfind] at h
      exact (Call.require_eq_ok.mp h).1
    · intro hfind
      dsimp only at hfind
      simp only [hfind] at h
      exact addEntry_room h
  refine ⟨⟨admitted.1, admitted.2⟩, hkey, hschema, hlearnable, ?_⟩
  rw [hkey, hschema] at hall
  exact ((yields_learn hprov hlearnable).unique hall).2

theorem atomic_learn (key? : Option TypeTreeSchemaKey) (schema? : Option TypeTreeType)
    (provenance : TypeTreeSchemaProvenance) :
    Call.Atomic (typetreeSchemaRegistryLearn sha256 key? schema? provenance) := by
  apply Call.Atomic.bind (Call.keeps_require _ _)
  intro _
  apply Call.Atomic.bind (Call.keeps_ofExcept _)
  intro admitted
  apply Call.Atomic.bind Call.keeps_current
  intro registry
  cases SortedAssoc.find? compareKeys Entry.key registry.entries admitted.1 with
  | some existing => exact (Call.keeps_require _ _).atomic
  | none => exact atomic_addEntry _

/-- A binding is a learn of a schema found in the registry, or nothing. -/
theorem bindExactVersion_eq_ok {destinationKey : Option TypeTreeSchemaKey}
    {provenance : TypeTreeSchemaProvenance} {u : Unit}
    (h : typetreeSchemaRegistryBindExactVersion sha256 destinationKey provenance answers registry
      n = .ok u registry' n') :
    registry' = registry ∨ ∃ key schema n₁,
      typetreeSchemaRegistryLearn sha256 (some key) (some schema) provenance answers registry
        n₁ = .ok u registry' n' := by
  obtain ⟨-, h⟩ := Call.require_bind_eq_ok.mp h
  obtain ⟨key, -, h⟩ := Call.ofExcept_bind_eq_ok.mp h
  have h := Call.current_bind_eq_ok.mp h
  obtain ⟨selected, -, h⟩ := Call.ofExcept_bind_eq_ok.mp h
  cases selected with
  | none => exact Or.inl (Call.pure_eq_ok.mp h).2.1.symm
  | some schema =>
      obtain ⟨-, h⟩ := Call.require_bind_eq_ok.mp h
      exact Or.inr ⟨key, schema, _, h⟩

theorem atomic_bindExactVersion (destinationKey : Option TypeTreeSchemaKey)
    (provenance : TypeTreeSchemaProvenance) :
    Call.Atomic (typetreeSchemaRegistryBindExactVersion sha256 destinationKey provenance) := by
  apply Call.Atomic.bind (Call.keeps_require _ _)
  intro _
  apply Call.Atomic.bind (Call.keeps_ofExcept _)
  intro key
  apply Call.Atomic.bind Call.keeps_current
  intro registry
  apply Call.Atomic.bind (Call.keeps_ofExcept _)
  intro selected
  cases selected with
  | none => exact (Call.keeps_pure ()).atomic
  | some schema =>
      apply Call.Atomic.bind (Call.keeps_require _ _)
      intro _
      exact atomic_learn _ _ _

/-! ## What learning keeps -/

theorem sublist_absorb (entries : List Entry) (entry : Entry) :
    entries.Sublist (absorb entries entry) := by
  unfold absorb
  cases SortedAssoc.find? compareKeys Entry.key entries entry.key with
  | some existing => exact List.Sublist.refl _
  | none => exact SortedAssoc.sublist_insert

/-- **One learn keeps the invariant.** -/
theorem TypeTreeSchemaRegistry.WellFormed.learned (hwf : registry.WellFormed sha256)
    {entry : Entry} (h : Learnable sha256 registry.entries entry) :
    (registry.learned entry).WellFormed sha256 := by
  unfold TypeTreeSchemaRegistry.learned
  cases hfind : SortedAssoc.find? compareKeys Entry.key registry.entries entry.key with
  | some existing => exact hwf
  | none =>
      refine ⟨hwf.increasing.insert (SortedAssoc.find?_eq_none_iff.mp hfind), ?_, ?_⟩
      · intro other hmem
        rcases SortedAssoc.mem_insert.mp hmem with rfl | hmem
        · exact h.valid
        · exact hwf.valid other hmem
      · rw [TypeTreeSchemaRegistry.added, SortedAssoc.length_insert]
        exact le_reserved_capacity (h.room hfind)

end

end UnityCommon.Registry
