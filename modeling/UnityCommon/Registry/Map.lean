import UnityCommon.Registry.Runs

/-!
# The registry as a map

What learning does to the finite map from keys to schemas, and why neither the
order nor the repetition of what is learned shows in the entries or in the file
they are written to.
-/

namespace UnityCommon.Registry

open UnityCommon.TypeTree

/-- The schema that a key is bound to. -/
def TypeTreeSchemaRegistry.schemaOf (registry : TypeTreeSchemaRegistry) (key : TypeTreeSchemaKey) :
    Option TypeTreeType :=
  (SortedAssoc.find? compareKeys Entry.key registry.entries key).map Entry.schema

/-- Learning a list of pairs, one after the other. -/
def learnAll (sha256 : Text → Sha256Digest) (provenance : TypeTreeSchemaProvenance)
    (pairs : List Entry) : Call TypeTreeSchemaStatus TypeTreeSchemaRegistry Unit :=
  Call.forEach pairs fun pair =>
    typetreeSchemaRegistryLearn sha256 (some pair.key) (some pair.schema) provenance

section

variable {sha256 : Text → Sha256Digest} {registry registry' learned : TypeTreeSchemaRegistry}
  {provenance : TypeTreeSchemaProvenance} {pairs others : List Entry} {entry pair : Entry}
  {answers : ℕ → Bool} {n n' : ℕ} {u : Unit}

theorem TypeTreeSchemaRegistry.WellFormed.schemaOf_iff (hwf : registry.WellFormed sha256)
    {key : TypeTreeSchemaKey} {schema : TypeTreeType} :
    registry.schemaOf key = some schema ↔ ⟨key, schema⟩ ∈ registry.entries := by
  unfold TypeTreeSchemaRegistry.schemaOf
  rw [Option.map_eq_some_iff]
  constructor
  · rintro ⟨entry, hfind, rfl⟩
    obtain ⟨hmem, rfl⟩ := (SortedAssoc.find?_eq_some_iff hwf.increasing).mp hfind
    exact hmem
  · intro hmem
    exact ⟨_, (SortedAssoc.find?_eq_some_iff hwf.increasing).mpr ⟨hmem, rfl⟩, rfl⟩

theorem TypeTreeSchemaRegistry.WellFormed.nodup (hwf : registry.WellFormed sha256) :
    registry.entries.Nodup := by
  refine List.Pairwise.imp ?_ hwf.increasing
  rintro a b hlt rfl
  have hself : compareKeys a.key a.key = .eq := Std.ReflCmp.compare_self
  rw [hself] at hlt
  cases hlt

/-- Two well-formed registries with the same entries have them in one order. -/
theorem entries_eq_of_mem (hwf : registry.WellFormed sha256) (hwf' : registry'.WellFormed sha256)
    (h : ∀ entry, entry ∈ registry.entries ↔ entry ∈ registry'.entries) :
    registry.entries = registry'.entries := by
  have hirrefl : Std.Irrefl fun a b : Entry => compareKeys a.key b.key = .lt := by
    refine ⟨fun a hlt => ?_⟩
    have hself : compareKeys a.key a.key = .eq := Std.ReflCmp.compare_self
    rw [hself] at hlt
    cases hlt
  have hantisymm : Std.Antisymm fun a b : Entry => compareKeys a.key b.key = .lt := by
    refine ⟨fun a b hab hba => ?_⟩
    rw [Std.OrientedCmp.gt_of_lt hab] at hba
    cases hba
  exact List.Pairwise.eq_of_mem_iff hwf.increasing hwf'.increasing h

/-! ## One learn -/

/-- A key that is bound has the very pair that may be learned. -/
theorem Learnable.bound (hwf : registry.WellFormed sha256)
    (h : Learnable sha256 registry.entries pair) {existing : Entry}
    (hfind : SortedAssoc.find? compareKeys Entry.key registry.entries pair.key = some existing) :
    existing = pair := by
  obtain ⟨hmem, hkey⟩ := (SortedAssoc.find?_eq_some_iff hwf.increasing).mp hfind
  have hschema := (schemasEqual_iff (hwf.valid existing hmem).referenceNames
    h.valid.referenceNames).mp (h.agrees existing hfind)
  cases existing
  cases pair
  simp only at hkey hschema
  rw [hkey, hschema]

/-- **A learn adds its pair** and nothing else. -/
theorem mem_learned (hwf : registry.WellFormed sha256)
    (h : Learnable sha256 registry.entries pair) :
    entry ∈ (registry.learned pair).entries ↔ entry ∈ registry.entries ∨ entry = pair := by
  rw [learned_entries, absorb]
  cases hfind : SortedAssoc.find? compareKeys Entry.key registry.entries pair.key with
  | some existing =>
      have hmem := ((SortedAssoc.find?_eq_some_iff hwf.increasing).mp hfind).1
      rw [h.bound hwf hfind] at hmem
      refine ⟨Or.inl, ?_⟩
      rintro (hentry | rfl)
      · exact hentry
      · exact hmem
  | none =>
      rw [SortedAssoc.mem_insert]
      exact or_comm

/-- A well-formed registry is told by its map. -/
theorem schemaOf_ext (hwf : registry.WellFormed sha256) {f : TypeTreeSchemaKey → Option TypeTreeType}
    (h : ∀ key schema, ⟨key, schema⟩ ∈ registry.entries ↔ f key = some schema) :
    registry.schemaOf = f := by
  funext key
  apply Option.ext
  intro schema
  exact hwf.schemaOf_iff.trans (h key schema)

/-- **Learning is insertion into the map.** -/
theorem learn_schemaOf (hwf : registry.WellFormed sha256) {key : TypeTreeSchemaKey}
    {schema : TypeTreeType}
    (h : typetreeSchemaRegistryLearn sha256 (some key) (some schema) provenance answers registry n =
      .ok u registry' n') :
    registry'.schemaOf = Function.update registry.schemaOf key (some schema) ∧
      ∀ bound, registry.schemaOf key = some bound → bound = schema ∧ registry' = registry := by
  obtain ⟨pair, hkey, hschema, hlearnable, rfl⟩ := learn_eq_ok h
  obtain rfl : key = pair.key := Option.some_inj.mp hkey
  obtain rfl : schema = pair.schema := Option.some_inj.mp hschema
  have hbound : ∀ bound, registry.schemaOf pair.key = some bound →
      bound = pair.schema ∧ registry.learned pair = registry := by
    intro bound hbound
    obtain ⟨existing, hfind, rfl⟩ := Option.map_eq_some_iff.mp hbound
    obtain rfl := hlearnable.bound hwf hfind
    refine ⟨rfl, ?_⟩
    rw [TypeTreeSchemaRegistry.learned, hfind]
  refine ⟨schemaOf_ext (hwf.learned hlearnable) fun key schema => ?_, hbound⟩
  rw [mem_learned hwf hlearnable]
  by_cases hkey : key = pair.key
  · subst hkey
    rw [Function.update_self, Option.some_inj]
    constructor
    · rintro (hmem | he)
      · exact (hbound schema (hwf.schemaOf_iff.mpr hmem)).1.symm
      · exact congrArg Entry.schema he.symm
    · rintro rfl
      exact Or.inr rfl
  · rw [Function.update_of_ne hkey, hwf.schemaOf_iff]
    refine or_iff_left ?_
    rintro rfl
    exact hkey rfl

/-! ## A list of learns -/

theorem learnAll_cons_eq_ok
    (h : learnAll sha256 provenance (pair :: pairs) answers registry n = .ok u learned n') :
    Learnable sha256 registry.entries pair ∧
      (provenance = .pinnedInput ∨ provenance = .importedRegistry) ∧
      ∃ m, learnAll sha256 provenance pairs answers (registry.learned pair) m =
        .ok u learned n' := by
  obtain ⟨_, _, m, hlearn, hrest⟩ := Call.bind_eq_ok.mp h
  have hprov := (Call.require_bind_eq_ok.mp hlearn).1
  obtain ⟨own, hkey, hschema, hlearnable, rfl⟩ := learn_eq_ok hlearn
  obtain rfl : pair = own := by
    cases pair
    cases own
    simp only [Option.some.injEq] at hkey hschema
    rw [hkey, hschema]
  exact ⟨hlearnable, hprov, m, hrest⟩

/-- **What a run of learns adds up to**: the pairs, in the canonical order. -/
theorem learnAll_eq_ok (hwf : registry.WellFormed sha256)
    (h : learnAll sha256 provenance pairs answers registry n = .ok u learned n') :
    learned.WellFormed sha256 ∧
      (∀ entry, entry ∈ learned.entries ↔ entry ∈ registry.entries ∨ entry ∈ pairs) ∧
      (learned.entries.length ≤ maxEntries ∨ learned.entries = registry.entries) ∧
      (pairs ≠ [] → provenance = .pinnedInput ∨ provenance = .importedRegistry) := by
  induction pairs generalizing registry n with
  | nil =>
      cases h
      exact ⟨hwf, by simp, Or.inr rfl, fun h => absurd rfl h⟩
  | cons pair pairs ih =>
      obtain ⟨hlearnable, hprov, m, hrest⟩ := learnAll_cons_eq_ok h
      obtain ⟨hwf', hmem, hroom, -⟩ := ih (hwf.learned hlearnable) hrest
      refine ⟨hwf', fun entry => ?_, ?_, fun _ => hprov⟩
      · rw [hmem, mem_learned hwf hlearnable, List.mem_cons, or_assoc]
      · rcases hroom with hroom | heq
        · exact Or.inl hroom
        · rw [heq, learned_entries, absorb]
          cases hfind : SortedAssoc.find? compareKeys Entry.key registry.entries pair.key with
          | some existing => exact Or.inr rfl
          | none =>
              dsimp only
              rw [SortedAssoc.length_insert]
              exact Or.inl (hlearnable.room hfind)

/-- A pair of a well-formed registry may be learned on the way there. -/
theorem learnable_of_mem (hwf : registry.WellFormed sha256) (hgoal : learned.WellFormed sha256)
    (hsub : ∀ entry ∈ registry.entries, entry ∈ learned.entries)
    (hroom : learned.entries.length ≤ maxEntries ∨
      ∀ entry ∈ learned.entries, entry ∈ registry.entries)
    (hpair : pair ∈ learned.entries) : Learnable sha256 registry.entries pair := by
  refine ⟨hgoal.valid pair hpair, fun existing hfind => ?_, fun hfind => ?_⟩
  · obtain ⟨hmem, hkey⟩ := (SortedAssoc.find?_eq_some_iff hwf.increasing).mp hfind
    obtain rfl := hgoal.unique (hsub existing hmem) hpair hkey
    exact (schemasEqual_iff (hgoal.valid _ hpair).referenceNames
      (hgoal.valid _ hpair).referenceNames).mpr rfl
  · have hnew : pair ∉ registry.entries := fun hmem =>
      SortedAssoc.find?_eq_none_iff.mp hfind pair hmem Std.ReflCmp.compare_self
    rcases hroom with hroom | hall
    · have hsub' : (pair :: registry.entries) ⊆ learned.entries := by
        intro entry hentry
        rcases List.mem_cons.mp hentry with rfl | hentry
        · exact hpair
        · exact hsub entry hentry
      have hlength := (List.subperm_of_subset
        (List.nodup_cons.mpr ⟨hnew, hwf.nodup⟩) hsub').length_le
      rw [List.length_cons] at hlength
      exact Nat.le_trans hlength hroom
    · exact absurd (hall pair hpair) hnew

/-- **Any order, any repetition**: what is among the pairs of a well-formed
registry may all be learned on the way there. -/
theorem yields_learnAll (hwf : registry.WellFormed sha256) (hgoal : learned.WellFormed sha256)
    (hsub : ∀ entry ∈ registry.entries, entry ∈ learned.entries)
    (hroom : learned.entries.length ≤ maxEntries ∨
      ∀ entry ∈ learned.entries, entry ∈ registry.entries)
    (hprov : others ≠ [] → provenance = .pinnedInput ∨ provenance = .importedRegistry)
    (hothers : ∀ pair ∈ others, pair ∈ learned.entries) :
    ∃ again, Call.Yields .allocationFailed (learnAll sha256 provenance others) registry () again ∧
      again.WellFormed sha256 ∧
      ∀ entry, entry ∈ again.entries ↔ entry ∈ registry.entries ∨ entry ∈ others := by
  induction others generalizing registry with
  | nil => exact ⟨registry, Call.yields_pure (), hwf, by simp⟩
  | cons pair others ih =>
      have hprov' := hprov (List.cons_ne_nil _ _)
      have hlearnable := learnable_of_mem hwf hgoal hsub hroom (hothers pair List.mem_cons_self)
      have hmem : ∀ entry, entry ∈ (registry.learned pair).entries ↔
          entry ∈ registry.entries ∨ entry = pair := fun entry => mem_learned hwf hlearnable
      have hsub' : ∀ entry ∈ (registry.learned pair).entries, entry ∈ learned.entries := by
        intro entry hentry
        rcases (hmem entry).mp hentry with hentry | rfl
        · exact hsub entry hentry
        · exact hothers _ List.mem_cons_self
      obtain ⟨again, hyields, hwf', hagain⟩ := ih (hwf.learned hlearnable) hsub'
        (hroom.imp_right fun hall entry hentry => (hmem entry).mpr (Or.inl (hall entry hentry)))
        (fun _ => hprov') (fun pair hpair => hothers pair (List.mem_cons_of_mem _ hpair))
      refine ⟨again, (yields_learn hprov' hlearnable).bind hyields, hwf', fun entry => ?_⟩
      rw [hagain, hmem, List.mem_cons, or_assoc]

end

/-- **Learning is insertion into a finite map, and the file is canonical.** A
learn binds its key, which if it was bound already had that schema. When a list
of learns succeeds, every list of the same pairs does, but for denied storage;
it ends with the same entries, and what they are written to is the same bytes. -/
theorem registry_learn_map {sha256 : Text → Sha256Digest} {registry : TypeTreeSchemaRegistry}
    (hreach : Reachable sha256 registry) :
    (∀ key schema provenance answers n u registry' n',
      typetreeSchemaRegistryLearn sha256 (some key) (some schema) provenance answers registry n =
          .ok u registry' n' →
        registry'.schemaOf = Function.update registry.schemaOf key (some schema) ∧
          ∀ bound, registry.schemaOf key = some bound → bound = schema ∧ registry' = registry) ∧
    ∀ provenance pairs answers n u learned n',
      learnAll sha256 provenance pairs answers registry n = .ok u learned n' →
      ∀ others : List Entry, (∀ pair, pair ∈ others ↔ pair ∈ pairs) →
        ∃ again, Call.Yields .allocationFailed (learnAll sha256 provenance others) registry ()
            again ∧
          again.entries = learned.entries ∧
          ∀ answers n data registry' n',
            typetreeSchemaRegistrySerialize sha256 answers learned n = .ok data registry' n' →
              Call.Yields .allocationFailed (typetreeSchemaRegistrySerialize sha256) again data
                again := by
  have hwf := hreach.wellFormed
  refine ⟨fun key schema provenance answers n u registry' n' h => learn_schemaOf hwf h, ?_⟩
  intro provenance pairs answers n u learned n' h others hothers
  obtain ⟨hgoal, hmem, hroom, hprov⟩ := learnAll_eq_ok hwf h
  have hroom' : learned.entries.length ≤ maxEntries ∨
      ∀ entry ∈ learned.entries, entry ∈ registry.entries := by
    rcases hroom with hroom | heq
    · exact Or.inl hroom
    · exact Or.inr fun entry hentry => by rwa [← heq]
  have hprov' : others ≠ [] → provenance = .pinnedInput ∨ provenance = .importedRegistry := by
    intro hne
    obtain ⟨pair, hpair⟩ := List.exists_mem_of_ne_nil others hne
    exact hprov (List.ne_nil_of_mem ((hothers pair).mp hpair))
  obtain ⟨again, hyields, hwf', hagain⟩ := yields_learnAll hwf hgoal
    (fun entry hentry => (hmem entry).mpr (Or.inl hentry)) hroom' hprov'
    (fun pair hpair => (hmem pair).mpr (Or.inr ((hothers pair).mp hpair)))
  have hentries : again.entries = learned.entries := by
    refine entries_eq_of_mem hwf' hgoal fun entry => ?_
    rw [hagain, hmem, hothers]
  refine ⟨again, hyields, hentries, fun answers n data registry' n' hdata => ?_⟩
  obtain ⟨rfl, hfits, hcount⟩ := serialize_eq_ok hgoal hdata
  have hagain := yields_serialize hwf' (hentries ▸ hcount) (hentries ▸ hfits)
  rwa [hentries] at hagain

def textEntry : Entry := ⟨sampleKey, sampleSchema⟩

def textureEntry : Entry :=
  ⟨{ sampleKey with classId := 28, serializedTypeId := 28 },
    { sampleSchema with typeId := 28, dependencies := [] }⟩

def learnedRegistry : TypeTreeSchemaRegistry :=
  (learnAll lastBytesDigest .importedRegistry [textEntry, textureEntry] Call.granted .init 0).state

/-- Two schemas, learned again in the other order and one of them twice. -/
theorem registry_learn_map_sample :
    ∃ again, Call.Yields .allocationFailed
        (learnAll lastBytesDigest .importedRegistry [textureEntry, textEntry, textureEntry]) .init
        () again ∧
      again.entries = [textureEntry, textEntry] ∧
      Call.Yields .allocationFailed (typetreeSchemaRegistrySerialize lastBytesDigest) again
        (encodeRegistry lastBytesDigest [textureEntry, textEntry]) again := by
  have hlearn : learnAll lastBytesDigest .importedRegistry [textEntry, textureEntry] Call.granted
      .init 0 = .ok () learnedRegistry 8 := by decide +kernel
  have hlearned : learnedRegistry.entries = [textureEntry, textEntry] := by decide +kernel
  obtain ⟨again, hyields, hentries, hserialize⟩ := (registry_learn_map .init).2 _ _ _ _ _ _ _ hlearn
    [textureEntry, textEntry, textureEntry] (by simp [or_comm])
  have hwritten := yields_serialize (learnAll_eq_ok Reachable.init.wellFormed hlearn).1
    (by rw [hlearned]; decide) (by rw [hlearned, length_encodeRegistry]; decide +kernel)
  rw [hlearned] at hentries hwritten
  obtain ⟨n, hdata⟩ := hwritten.granted 0
  exact ⟨again, hyields, hentries, hserialize _ _ _ _ _ hdata⟩

end UnityCommon.Registry
