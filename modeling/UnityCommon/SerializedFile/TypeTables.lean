import UnityCommon.Registry.Runs

/-!
# Type tables and the registry

`learn_type_array` and `resolve_type_array`: the two ways a file's type tables
meet a registry. What one file teaches with its trees, another that lacks them
is given back.
-/

namespace UnityCommon

open UnityCommon.TypeTree UnityCommon.Registry

section

variable (sha256 : Text → Sha256Digest) (fileVersion : UInt32) (unityVersion : Option CString)

/-- One round of `learn_type_array`: the record's own type ID is the class. -/
def learnType (provenance : TypeTreeSchemaProvenance) (type : TypeTreeType) :
    Call TypeTreeSchemaStatus TypeTreeSchemaRegistry Unit := do
  let key ← Call.ofExcept (typetreeSchemaKeyFromType fileVersion unityVersion type.typeId type)
  typetreeSchemaRegistryLearn sha256 (some key) (some type) provenance

def learnTypeArray (types : List TypeTreeType) (provenance : TypeTreeSchemaProvenance) :
    Call TypeTreeSchemaStatus TypeTreeSchemaRegistry Unit :=
  Call.forEach types (learnType sha256 fileVersion unityVersion provenance)

/-- The ordinary types first, then the reference types. -/
def learnTypeTables (types refTypes : List TypeTreeType)
    (provenance : TypeTreeSchemaProvenance) :
    Call TypeTreeSchemaStatus TypeTreeSchemaRegistry Unit := do
  learnTypeArray sha256 fileVersion unityVersion types provenance
  learnTypeArray sha256 fileVersion unityVersion refTypes provenance

/-- One round of `resolve_type_array`. -/
def resolveType (type : TypeTreeType) :
    Call TypeTreeSchemaStatus TypeTreeSchemaRegistry TypeTreeType := do
  let key ← Call.ofExcept (typetreeSchemaKeyFromType fileVersion unityVersion type.typeId type)
  typetreeSchemaRegistryLookup (some key)

/-- The table with every record replaced. A failure gives the file up, so the
records replaced before it are not part of the result. -/
def resolveTypeArray : List TypeTreeType →
    Call TypeTreeSchemaStatus TypeTreeSchemaRegistry (List TypeTreeType)
  | [] => pure []
  | type :: types => do
      let resolved ← resolveType fileVersion unityVersion type
      let rest ← resolveTypeArray types
      return resolved :: rest

def resolveTypeTables (types refTypes : List TypeTreeType) :
    Call TypeTreeSchemaStatus TypeTreeSchemaRegistry (List TypeTreeType × List TypeTreeType) := do
  let resolvedTypes ← resolveTypeArray fileVersion unityVersion types
  let resolvedRefTypes ← resolveTypeArray fileVersion unityVersion refTypes
  return (resolvedTypes, resolvedRefTypes)

end

/-- A record as a file without trees has it. -/
def withoutTree (type : TypeTreeType) : TypeTreeType :=
  { type with
    nodes := []
    stringBuffer := []
    dependencies := []
    refClassName := none
    refNamespace := none
    refAsmName := none }

/-- The second registry is reached from the first by successful learns. -/
inductive LearnedOnto (sha256 : Text → Sha256Digest) (registry : TypeTreeSchemaRegistry) :
    TypeTreeSchemaRegistry → Prop
  | refl : LearnedOnto sha256 registry registry
  | learn {middle after key schema provenance answers n u n'} :
      LearnedOnto sha256 registry middle →
      typetreeSchemaRegistryLearn sha256 key schema provenance answers middle n =
        .ok u after n' →
      LearnedOnto sha256 registry after

section

variable {sha256 : Text → Sha256Digest} {fileVersion : UInt32} {unityVersion : Option CString}
  {registry registry' later : TypeTreeSchemaRegistry} {answers : ℕ → Bool} {n n' : ℕ}
  {type : TypeTreeType} {types refTypes : List TypeTreeType}
  {provenance : TypeTreeSchemaProvenance}

/-- The key does not depend on what a file without trees lacks. -/
theorem keyFromType_withoutTree (classId : Int32) (type : TypeTreeType) :
    typetreeSchemaKeyFromType fileVersion unityVersion classId (withoutTree type) =
      typetreeSchemaKeyFromType fileVersion unityVersion classId type := rfl

/-- The registry holds the record under the record's own key. -/
def Holds (registry : TypeTreeSchemaRegistry) (fileVersion : UInt32)
    (unityVersion : Option CString) (type : TypeTreeType) : Prop :=
  ∃ key, typetreeSchemaKeyFromType fileVersion unityVersion type.typeId type = .ok key ∧
    (⟨key, type⟩ : Entry) ∈ registry.entries

/-- **A learned pair is an entry**, whether it was added or already there. -/
theorem mem_absorb (hwf : registry.WellFormed sha256) {entry : Entry}
    (h : Learnable sha256 registry.entries entry) :
    entry ∈ absorb registry.entries entry := by
  unfold absorb
  cases hfind : SortedAssoc.find? compareKeys Entry.key registry.entries entry.key with
  | none => exact SortedAssoc.mem_insert.mpr (Or.inl rfl)
  | some existing =>
      obtain ⟨hmem, hkey⟩ := (SortedAssoc.find?_eq_some_iff hwf.increasing).mp hfind
      have hnames := (hwf.valid existing hmem).referenceNames
      have hschema := (schemasEqual_iff hnames h.valid.referenceNames).mp (h.agrees existing hfind)
      have hentry : existing = entry := by
        cases existing
        cases entry
        simp only at hkey hschema
        rw [hkey, hschema]
      rw [← hentry]
      exact hmem

theorem learnType_ok {u : Unit} (hwf : registry.WellFormed sha256)
    (h : learnType sha256 fileVersion unityVersion provenance type answers registry n =
      .ok u registry' n') :
    registry'.WellFormed sha256 ∧ registry.entries.Sublist registry'.entries ∧
      Holds registry' fileVersion unityVersion type := by
  obtain ⟨key, hkey, hlearn⟩ := Call.ofExcept_bind_eq_ok.mp h
  obtain ⟨hwf', hsub⟩ := learn_step hlearn
  obtain ⟨entry, hentryKey, hentrySchema, hlearnable, rfl⟩ := learn_eq_ok hlearn
  have hentry : entry = ⟨key, type⟩ := by
    cases entry
    simp only [Option.some.injEq] at hentryKey hentrySchema
    rw [hentryKey, hentrySchema]
  refine ⟨hwf' hwf, hsub, key, hkey, ?_⟩
  rw [learned_entries, ← hentry]
  exact mem_absorb hwf hlearnable

theorem Holds.mono (h : Holds registry fileVersion unityVersion type)
    (hsub : registry.entries.Sublist registry'.entries) :
    Holds registry' fileVersion unityVersion type := by
  obtain ⟨key, hkey, hmem⟩ := h
  exact ⟨key, hkey, hsub.subset hmem⟩

/-- **What a learned table leaves in the registry**: all of its records. -/
theorem learnTypeArray_ok : ∀ {types : List TypeTreeType} {registry : TypeTreeSchemaRegistry}
    {n : ℕ} {u : Unit}, registry.WellFormed sha256 →
      learnTypeArray sha256 fileVersion unityVersion types provenance answers registry n =
        .ok u registry' n' →
      registry'.WellFormed sha256 ∧ registry.entries.Sublist registry'.entries ∧
        ∀ type ∈ types, Holds registry' fileVersion unityVersion type := by
  intro types
  induction types with
  | nil =>
      intro registry n u hwf h
      obtain ⟨-, rfl, -⟩ := Call.pure_eq_ok.mp h
      exact ⟨hwf, List.Sublist.refl _, by simp⟩
  | cons type types ih =>
      intro registry n u hwf h
      obtain ⟨_, middle, n₁, hfirst, hrest⟩ := Call.bind_eq_ok.mp h
      obtain ⟨hwf₁, hsub₁, hholds⟩ := learnType_ok hwf hfirst
      obtain ⟨hwf', hsub', hall⟩ := ih hwf₁ hrest
      refine ⟨hwf', hsub₁.trans hsub', ?_⟩
      intro t ht
      rcases List.mem_cons.mp ht with rfl | ht
      · exact hholds.mono hsub'
      · exact hall t ht

theorem LearnedOnto.keeps (h : LearnedOnto sha256 registry later)
    (hwf : registry.WellFormed sha256) :
    later.WellFormed sha256 ∧ registry.entries.Sublist later.entries := by
  induction h with
  | refl => exact ⟨hwf, List.Sublist.refl _⟩
  | learn _ hlearn ih =>
      obtain ⟨hwf', hsub⟩ := learn_step hlearn
      exact ⟨hwf' ih.1, ih.2.trans hsub⟩

/-- A record that is held resolves to itself, given only its key. -/
theorem yields_resolveType (hwf : registry.WellFormed sha256)
    (h : Holds registry fileVersion unityVersion type) :
    Call.Yields .allocationFailed (resolveType fileVersion unityVersion (withoutTree type))
      registry type registry := by
  obtain ⟨key, hkey, hmem⟩ := h
  have hvalid := hwf.valid _ hmem
  have hfind := (SortedAssoc.find?_eq_some_iff hwf.increasing).mpr ⟨hmem, rfl⟩
  apply (Call.yields_ofExcept (keyFromType_withoutTree _ _ |>.trans hkey)).bind
  apply (Call.yields_ofExcept hvalid.key_valid).bind
  apply Call.yields_current.bind
  rw [hfind]
  exact yields_cloneSchema registry hvalid

theorem yields_resolveTypeArray (hwf : registry.WellFormed sha256) :
    ∀ {types : List TypeTreeType},
      (∀ type ∈ types, Holds registry fileVersion unityVersion type) →
        Call.Yields .allocationFailed
          (resolveTypeArray fileVersion unityVersion (types.map withoutTree)) registry types
          registry := by
  intro types
  induction types with
  | nil =>
      intro _
      exact Call.yields_pure []
  | cons type types ih =>
      intro h
      apply (yields_resolveType hwf (h type List.mem_cons_self)).bind
      apply (ih fun t ht => h t (List.mem_cons_of_mem _ ht)).bind
      exact Call.yields_pure (type :: types)

/-- **Learn, then resolve.** Once the tables of a file with trees were learned,
the same records without their trees resolve to the originals, now and after any
further successful learns. -/
theorem learn_then_resolve {u : Unit} (hreach : Reachable sha256 registry)
    (hlearned : learnTypeTables sha256 fileVersion unityVersion types refTypes .pinnedInput
      answers registry n = .ok u registry' n')
    (hlater : LearnedOnto sha256 registry' later) :
    Call.Yields .allocationFailed
      (resolveTypeTables fileVersion unityVersion (types.map withoutTree)
        (refTypes.map withoutTree)) later (types, refTypes) later := by
  obtain ⟨_, middle, n₁, htypes, hrefs⟩ := Call.bind_eq_ok.mp hlearned
  obtain ⟨hwf₁, -, hholds⟩ := learnTypeArray_ok hreach.wellFormed htypes
  obtain ⟨hwf₂, hsub, hrefHolds⟩ := learnTypeArray_ok hwf₁ hrefs
  obtain ⟨hwf, hsubLater⟩ := hlater.keeps hwf₂
  have htypesHeld : ∀ type ∈ types, Holds later fileVersion unityVersion type := by
    intro type hmem
    exact (hholds type hmem).mono (hsub.trans hsubLater)
  have hrefsHeld : ∀ type ∈ refTypes, Holds later fileVersion unityVersion type := by
    intro type hmem
    exact (hrefHolds type hmem).mono hsubLater
  apply (yields_resolveTypeArray hwf htypesHeld).bind
  apply (yields_resolveTypeArray hwf hrefsHeld).bind
  exact Call.yields_pure (types, refTypes)

end

theorem learn_then_resolve_sample :
    Call.Yields .allocationFailed
      (resolveTypeTables 22 (some (cstr "2021.3.35f1")) [withoutTree sampleSchema] [])
      sampleRegistry ([sampleSchema], []) sampleRegistry := by
  have hlearned : learnTypeTables lastBytesDigest 22 (some (cstr "2021.3.35f1")) [sampleSchema] []
      .pinnedInput Call.granted .init 0 = .ok () sampleRegistry 5 := by
    decide
  exact learn_then_resolve .init hlearned .refl

end UnityCommon
