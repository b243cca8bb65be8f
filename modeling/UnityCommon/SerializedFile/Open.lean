import UnityCommon.Registry.RoundTrip
import UnityCommon.SerializedFile.ObjectTable
import UnityCommon.SerializedFile.TypeTables

/-!
# Opening a file

`serialized_file_open_with_schema_registry_ex`. The state is the caller's
registry pointer: `none` is `NULL`. Reading the file does not see it; learning
works on a copy, which takes its place at the end.
-/

namespace UnityCommon

open UnityCommon.TypeTree UnityCommon.Registry

section

variable (sha256 : Text → Sha256Digest)

/-- A copy by way of the registry's file format. -/
def cloneSchemaRegistry {σ : Type} (source : TypeTreeSchemaRegistry) :
    Call TypeTreeSchemaStatus σ TypeTreeSchemaRegistry := do
  let (bytes, _) ← Call.within source (typetreeSchemaRegistrySerialize sha256)
  let (_, destination) ← Call.within .init
    (typetreeSchemaRegistryDeserializeReplace sha256 (some bytes))
  return destination

/-- The tree-disabled half of `apply_schema_registry`. -/
def resolveSchemas (file : SerializedFile) :
    Call Unit (Option TypeTreeSchemaRegistry) SerializedFile := do
  match ← Call.current with
  | none => Call.fail ()
  | some registry =>
      let ((types, refTypes), _) ← Call.relabel (fun _ => ()) (Call.within registry
        (resolveTypeTables file.version file.unityVersion file.types file.refTypes))
      return { file with types, refTypes }

/-- The transaction: what the clone learned becomes the caller's registry. -/
def learnSchemas (file : SerializedFile) (registry : TypeTreeSchemaRegistry) :
    Call Unit (Option TypeTreeSchemaRegistry) Unit := do
  let transaction ← Call.relabel (fun _ => ()) (cloneSchemaRegistry sha256 registry)
  let (_, transaction) ← Call.relabel (fun _ => ()) (Call.within transaction
    (learnTypeTables sha256 file.version file.unityVersion file.types file.refTypes
      .pinnedInput))
  Call.replace (some transaction)

/-- The tree-enabled half of `apply_schema_registry`. -/
def learnTrusted (file : SerializedFile) (provenance : TypeTreeSchemaProvenance) :
    Call Unit (Option TypeTreeSchemaRegistry) Unit := do
  match ← Call.current with
  | none => return ()
  | some registry =>
      match provenance with
      | .untrustedInput => return ()
      | .pinnedInput => learnSchemas sha256 file registry
      | _ => Call.fail ()

def applySchemaRegistry (file : SerializedFile) (provenance : TypeTreeSchemaProvenance) :
    Call Unit (Option TypeTreeSchemaRegistry) SerializedFile :=
  if file.typeTreeEnabled = false then resolveSchemas file
  else do
    learnTrusted sha256 file provenance
    return file

def serializedFileOpenInternal (fileData : Text) (inputProvenance : TypeTreeSchemaProvenance)
    (permitUnresolvedSchemas : Bool) :
    Call Unit (Option TypeTreeSchemaRegistry) SerializedFile := do
  Call.require (20 ≤ fileData.length) ()
  Call.require (inputProvenance = .untrustedInput ∨ inputProvenance = .pinnedInput) ()
  let (file, _) ← Call.within () (readMetadata fileData)
  validateObjectTable file
  if permitUnresolvedSchemas then return file
  else applySchemaRegistry sha256 file inputProvenance

def serializedFileOpenWithSchemaRegistryEx (fileData : Text)
    (inputProvenance : TypeTreeSchemaProvenance) :
    Call Unit (Option TypeTreeSchemaRegistry) SerializedFile :=
  serializedFileOpenInternal sha256 fileData inputProvenance false

end

variable {sha256 : Text → Sha256Digest} {registry registry' other : TypeTreeSchemaRegistry}
  {answers : ℕ → Bool} {n n' : ℕ} {file : SerializedFile}

/-! ## The copy -/

/-- **A copy has the entries of its source.** -/
theorem cloneSchemaRegistry_ok {σ : Type} {s s' : σ} (hwf : registry.WellFormed sha256)
    (h : cloneSchemaRegistry sha256 registry answers s n = .ok registry' s' n') :
    registry'.entries = registry.entries ∧ s' = s := by
  obtain ⟨bytes, source, n₁, hserialize, h⟩ := Call.within_bind_eq_ok.mp h
  obtain ⟨u, destination, n₂, hdeserialize, h⟩ := Call.within_bind_eq_ok.mp h
  obtain ⟨rfl, rfl, -⟩ := Call.pure_eq_ok.mp h
  obtain ⟨rfl, hfits, hcount⟩ := serialize_eq_ok hwf hserialize
  obtain ⟨copy, hentries, hyield⟩ := yields_deserialize_encoded hwf hcount hfits .init
  obtain ⟨-, rfl⟩ := hyield.unique hdeserialize
  exact ⟨hentries, rfl⟩

theorem keeps_cloneSchemaRegistry {σ : Type} (registry : TypeTreeSchemaRegistry) :
    Call.Keeps (cloneSchemaRegistry sha256 registry (σ := σ)) := by
  apply (Call.keeps_within _ _).bind
  rintro ⟨bytes, _⟩
  apply (Call.keeps_within _ _).bind
  rintro ⟨u, destination⟩
  exact Call.keeps_pure destination

/-! ## Learning depends on the entries alone -/

section Learning

variable {fileVersion : UInt32} {unityVersion : Option CString} {u : Unit}

theorem yields_learnType {type : TypeTreeType} (hentries : other.entries = registry.entries)
    (h : learnType sha256 fileVersion unityVersion .pinnedInput type answers registry n =
      .ok u registry' n') :
    ∃ other' : TypeTreeSchemaRegistry, other'.entries = registry'.entries ∧
      Call.Yields .allocationFailed
        (learnType sha256 fileVersion unityVersion .pinnedInput type) other () other' := by
  obtain ⟨key, hkey, hlearn⟩ := Call.ofExcept_bind_eq_ok.mp h
  obtain ⟨entry, hentryKey, hentrySchema, hlearnable, rfl⟩ := learn_eq_ok hlearn
  rw [← hentries] at hlearnable
  refine ⟨other.learned entry, by rw [learned_entries, learned_entries, hentries], ?_⟩
  apply (Call.yields_ofExcept hkey).bind
  rw [hentryKey, hentrySchema]
  exact yields_learn (Or.inl rfl) hlearnable

theorem yields_learnTypeArray :
    ∀ {types : List TypeTreeType} {registry other : TypeTreeSchemaRegistry} {n : ℕ} {u : Unit},
      other.entries = registry.entries →
      learnTypeArray sha256 fileVersion unityVersion types .pinnedInput answers registry n =
        .ok u registry' n' →
      ∃ other' : TypeTreeSchemaRegistry, other'.entries = registry'.entries ∧
        Call.Yields .allocationFailed
          (learnTypeArray sha256 fileVersion unityVersion types .pinnedInput) other () other' := by
  intro types
  induction types with
  | nil =>
      intro registry other n u hentries h
      obtain ⟨-, rfl, -⟩ := Call.pure_eq_ok.mp h
      exact ⟨other, hentries, Call.yields_pure ()⟩
  | cons type types ih =>
      intro registry other n u hentries h
      obtain ⟨_, middle, n₁, hfirst, hrest⟩ := Call.bind_eq_ok.mp h
      obtain ⟨other₁, hentries₁, hyield₁⟩ := yields_learnType hentries hfirst
      obtain ⟨other', hentries', hyield'⟩ := ih hentries₁ hrest
      exact ⟨other', hentries', hyield₁.bind hyield'⟩

/-- **Two registries with the same entries learn the same.** -/
theorem yields_learnTypeTables {types refTypes : List TypeTreeType}
    (hentries : other.entries = registry.entries)
    (h : learnTypeTables sha256 fileVersion unityVersion types refTypes .pinnedInput answers
      registry n = .ok u registry' n') :
    ∃ other' : TypeTreeSchemaRegistry, other'.entries = registry'.entries ∧
      Call.Yields .allocationFailed
        (learnTypeTables sha256 fileVersion unityVersion types refTypes .pinnedInput)
        other () other' := by
  obtain ⟨_, middle, n₁, htypes, hrefs⟩ := Call.bind_eq_ok.mp h
  obtain ⟨other₁, hentries₁, hyield₁⟩ := yields_learnTypeArray hentries htypes
  obtain ⟨other', hentries', hyield'⟩ := yields_learnTypeArray hentries₁ hrefs
  exact ⟨other', hentries', hyield₁.bind hyield'⟩

end Learning

/-! ## The stages leave the registry alone -/

theorem keeps_validateObjectTable {σ : Type} (file : SerializedFile) :
    Call.Keeps (validateObjectTable file : Call Unit σ Unit) := by
  unfold validateObjectTable
  split
  · exact Call.keeps_pure ()
  · apply (Call.keeps_request ()).bind
    intro _
    apply (Call.keeps_require _ ()).bind
    intro _
    exact Call.keeps_require _ ()

theorem keeps_resolveSchemas (file : SerializedFile) : Call.Keeps (resolveSchemas file) := by
  apply Call.keeps_current.bind
  intro caller
  cases caller with
  | none => exact Call.keeps_fail ()
  | some registry =>
      apply (Call.keeps_relabel (Call.keeps_within _ _)).bind
      rintro ⟨⟨types, refTypes⟩, _⟩
      exact Call.keeps_pure _

theorem atomic_learnSchemas (file : SerializedFile) (registry : TypeTreeSchemaRegistry) :
    Call.Atomic (learnSchemas sha256 file registry) := by
  apply Call.Atomic.bind (Call.keeps_relabel (keeps_cloneSchemaRegistry registry))
  intro transaction
  apply Call.Atomic.bind (Call.keeps_relabel (Call.keeps_within _ _))
  rintro ⟨u, transaction⟩ answers s n e s' n' h
  exact absurd h (Call.replace_ne_error _ answers s n e s' n')

theorem atomic_learnTrusted (file : SerializedFile) (provenance : TypeTreeSchemaProvenance) :
    Call.Atomic (learnTrusted sha256 file provenance) := by
  apply Call.Atomic.bind Call.keeps_current
  intro caller
  cases caller with
  | none => exact (Call.keeps_pure ()).atomic
  | some registry =>
      cases provenance with
      | pinnedInput => exact atomic_learnSchemas file registry
      | untrustedInput => exact (Call.keeps_pure ()).atomic
      | _ => exact (Call.keeps_fail ()).atomic

theorem atomic_applySchemaRegistry (file : SerializedFile)
    (provenance : TypeTreeSchemaProvenance) :
    Call.Atomic (applySchemaRegistry sha256 file provenance) := by
  unfold applySchemaRegistry
  split_ifs
  · exact (keeps_resolveSchemas file).atomic
  · apply Call.Atomic.bind_total (atomic_learnTrusted file provenance)
    intro u answers s n e s' n' h
    cases h

/-- **A failed open leaves the registry alone**, whatever stage fails. -/
theorem atomic_open (fileData : Text) (inputProvenance : TypeTreeSchemaProvenance) :
    Call.Atomic (serializedFileOpenWithSchemaRegistryEx sha256 fileData inputProvenance) := by
  apply Call.Atomic.bind (Call.keeps_require _ ())
  intro _
  apply Call.Atomic.bind (Call.keeps_require _ ())
  intro _
  apply Call.Atomic.bind (Call.keeps_within _ _)
  rintro ⟨file, _⟩
  apply Call.Atomic.bind (keeps_validateObjectTable file)
  intro _
  exact atomic_applySchemaRegistry file inputProvenance

/-! ## What a successful open leaves -/

variable {state : Option TypeTreeSchemaRegistry}

/-- The caller's registry has the entries that learning the file's types and then
its reference types into the prior registry leaves. -/
def Published (sha256 : Text → Sha256Digest) (registry : TypeTreeSchemaRegistry)
    (file : SerializedFile) (state : Option TypeTreeSchemaRegistry) : Prop :=
  ∃ after learned : TypeTreeSchemaRegistry, state = some after ∧
    after.entries = learned.entries ∧
    Call.Yields .allocationFailed
      (learnTypeTables sha256 file.version file.unityVersion file.types file.refTypes
        .pinnedInput) registry () learned

theorem learnSchemas_ok {u : Unit} (hwf : registry.WellFormed sha256)
    {before : Option TypeTreeSchemaRegistry}
    (h : learnSchemas sha256 file registry answers before n = .ok u state n') :
    Published sha256 registry file state := by
  obtain ⟨transaction, s₁, n₁, hclone, h⟩ := Call.bind_eq_ok.mp h
  obtain ⟨⟨_, after⟩, s₂, n₂, hlearn, h⟩ := Call.bind_eq_ok.mp h
  obtain ⟨rfl, -⟩ := Call.replace_eq_ok.mp h
  obtain ⟨hentries, -⟩ := cloneSchemaRegistry_ok hwf (Call.relabel_eq_ok.mp hclone)
  obtain ⟨hlearn, -⟩ := Call.within_eq_ok.mp (Call.relabel_eq_ok.mp hlearn)
  obtain ⟨learned, hlearned, hyield⟩ := yields_learnTypeTables hentries.symm hlearn
  exact ⟨after, learned, rfl, hlearned.symm, hyield⟩

theorem applySchemaRegistry_ok {provenance : TypeTreeSchemaProvenance} {opened : SerializedFile}
    (hwf : registry.WellFormed sha256)
    (h : applySchemaRegistry sha256 file provenance answers (some registry) n =
      .ok opened state n') :
    (opened.typeTreeEnabled = true → provenance = .pinnedInput →
      Published sha256 registry opened state) ∧
    (opened.typeTreeEnabled = false ∨ provenance = .untrustedInput → state = some registry) := by
  unfold applySchemaRegistry at h
  split_ifs at h with htree
  · have hstate := (keeps_resolveSchemas file).ok h
    have hopened : opened.typeTreeEnabled = false := by
      have h := Call.current_bind_eq_ok.mp h
      dsimp only at h
      obtain ⟨⟨⟨types, refTypes⟩, _⟩, s₁, n₁, -, h⟩ := Call.bind_eq_ok.mp h
      obtain ⟨rfl, -⟩ := Call.pure_eq_ok.mp h
      exact htree
    refine ⟨fun htrue => ?_, fun _ => hstate⟩
    rw [hopened] at htrue
    cases htrue
  · obtain ⟨u, s₁, n₁, hlearn, h⟩ := Call.bind_eq_ok.mp h
    obtain ⟨rfl, rfl, -⟩ := Call.pure_eq_ok.mp h
    have hlearn := Call.current_bind_eq_ok.mp hlearn
    cases provenance with
    | pinnedInput =>
        refine ⟨fun _ _ => learnSchemas_ok hwf hlearn, ?_⟩
        rintro (hfalse | hprov)
        · exact absurd hfalse htree
        · cases hprov
    | untrustedInput =>
        obtain ⟨-, rfl, -⟩ := Call.pure_eq_ok.mp hlearn
        refine ⟨fun _ hpin => ?_, fun _ => rfl⟩
        cases hpin
    | _ => cases hlearn

/-- **Opening is a transaction on the caller's registry.** -/
theorem open_transactional {sha256 : Text → Sha256Digest} {registry : TypeTreeSchemaRegistry}
    (hreach : Reachable sha256 registry) (fileData : Text)
    (inputProvenance : TypeTreeSchemaProvenance) (answers : ℕ → Bool) (n : ℕ) :
    (∀ failure state n',
      serializedFileOpenWithSchemaRegistryEx sha256 fileData inputProvenance answers
        (some registry) n = .error failure state n' → state = some registry) ∧
    ∀ file state n',
      serializedFileOpenWithSchemaRegistryEx sha256 fileData inputProvenance answers
          (some registry) n = .ok file state n' →
        (file.typeTreeEnabled = true → inputProvenance = .pinnedInput →
          Published sha256 registry file state) ∧
        (file.typeTreeEnabled = false ∨ inputProvenance = .untrustedInput →
          state = some registry) := by
  refine ⟨atomic_open fileData inputProvenance answers (some registry) n, ?_⟩
  intro file state n' h
  obtain ⟨-, h⟩ := Call.require_bind_eq_ok.mp h
  obtain ⟨-, h⟩ := Call.require_bind_eq_ok.mp h
  obtain ⟨read, _, n₁, -, h⟩ := Call.within_bind_eq_ok.mp h
  obtain ⟨u, s₁, n₂, hvalid, h⟩ := Call.bind_eq_ok.mp h
  obtain rfl := (keeps_validateObjectTable read).ok hvalid
  exact applySchemaRegistry_ok hreach.wellFormed h

/-! ## A file that teaches one schema -/

/-- The metadata of a little-endian file whose one type is `sampleSchema`. -/
def sampleMetadata : Text :=
  ascii "2021.3.35f1" ++ [0] ++ storeLe32 19 ++ [1] ++
    storeLe32 1 ++ storeLe32 49 ++ [0] ++ storeLe16 0xffff ++ List.replicate 16 0 ++
    storeLe32 1 ++ storeLe32 9 ++
    (storeLe16 1 ++ [0, 0] ++ storeLe32 0 ++ storeLe32 4 ++ storeLe32 4 ++ storeLe32 0 ++
      storeLe32 0 ++ storeLe64 7) ++
    (ascii "int" ++ [0] ++ ascii "Base" ++ [0]) ++
    storeLe32 1 ++ storeLe32 3 ++
    storeLe32 0 ++ storeLe32 0 ++ storeLe32 0 ++ storeLe32 0 ++ [0]

def sampleFileData : Text :=
  let size := (48 + sampleMetadata.length).toUInt64
  List.replicate 8 0 ++ storeBe32 22 ++ List.replicate 4 0 ++
    storeBe64 sampleMetadata.length.toUInt64 ++ storeBe64 size ++ storeBe64 size ++
    List.replicate 8 0 ++ sampleMetadata

def sampleOpen : Call.Result Unit (Option TypeTreeSchemaRegistry) SerializedFile :=
  serializedFileOpenWithSchemaRegistryEx lastBytesDigest sampleFileData .pinnedInput Call.granted
    (some .init) 0

/-- The sample opens with its trees, and its schema is in the registry after. -/
def sampleTaught : Bool :=
  match sampleOpen with
  | .ok file (some after) _ => file.typeTreeEnabled && after.entries == sampleRegistry.entries
  | _ => false

theorem open_transactional_sample :
    ∃ file after n', sampleOpen = .ok file (some after) n' ∧
      after.entries = sampleRegistry.entries ∧
      Published lastBytesDigest .init file (some after) := by
  have htaught : sampleTaught = true := by decide +kernel
  unfold sampleTaught at htaught
  split at htaught
  case h_1 file after n' hopen =>
    rw [Bool.and_eq_true, beq_iff_eq] at htaught
    have hreach : Reachable lastBytesDigest .init := .init
    have htransaction := open_transactional hreach sampleFileData .pinnedInput Call.granted 0
    exact ⟨file, after, n', hopen, htaught.2,
      (htransaction.2 file (some after) n' hopen).1 htaught.1 rfl⟩
  case h_2 => cases htaught

end UnityCommon
