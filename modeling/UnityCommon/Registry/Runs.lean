import UnityCommon.Registry.File
import UnityCommon.Registry.Serialize

/-!
# Runs of the registry

The registries that finite sequences of calls can reach, with arbitrary
arguments and allocation outcomes, and what holds of all of them.
-/

namespace UnityCommon.Registry

open UnityCommon.TypeTree

/-- The calls that change a registry. -/
inductive RegistryCall where
  | learn (key : Option TypeTreeSchemaKey) (schema : Option TypeTreeType)
      (provenance : TypeTreeSchemaProvenance)
  | bindExactVersion (destinationKey : Option TypeTreeSchemaKey)
      (evidenceProvenance : TypeTreeSchemaProvenance)
  | deserializeReplace (data : Option Text)
  | dispose

def RegistryCall.run (sha256 : Text → Sha256Digest) :
    RegistryCall → Call TypeTreeSchemaStatus TypeTreeSchemaRegistry Unit
  | .learn key schema provenance => typetreeSchemaRegistryLearn sha256 key schema provenance
  | .bindExactVersion destinationKey evidenceProvenance =>
      typetreeSchemaRegistryBindExactVersion sha256 destinationKey evidenceProvenance
  | .deserializeReplace data => typetreeSchemaRegistryDeserializeReplace sha256 data
  | .dispose => typetreeSchemaRegistryDispose

/-- The calls that may only add an entry. -/
def RegistryCall.addsOnly : RegistryCall → Bool
  | .learn .. | .bindExactVersion .. => true
  | .deserializeReplace .. | .dispose => false

inductive Reachable (sha256 : Text → Sha256Digest) : TypeTreeSchemaRegistry → Prop
  | init : Reachable sha256 .init
  | call {registry} (c : RegistryCall) (answers : ℕ → Bool) (n : ℕ) :
      Reachable sha256 registry → Reachable sha256 (c.run sha256 answers registry n).state

section

variable {sha256 : Text → Sha256Digest} {registry registry' : TypeTreeSchemaRegistry}
  {answers : ℕ → Bool} {n n' : ℕ}

/-- **No call fails halfway.** -/
theorem RegistryCall.atomic (c : RegistryCall) : Call.Atomic (c.run sha256) := by
  cases c with
  | learn key schema provenance => exact atomic_learn key schema provenance
  | bindExactVersion key provenance => exact atomic_bindExactVersion key provenance
  | deserializeReplace data => exact atomic_deserializeReplace data
  | dispose =>
      intro answers s n e s' n' h
      cases h

/-- What one successful learn does to the invariant and to the entries. -/
theorem learn_step {key : Option TypeTreeSchemaKey} {schema : Option TypeTreeType}
    {provenance : TypeTreeSchemaProvenance} {u : Unit}
    (h : typetreeSchemaRegistryLearn sha256 key schema provenance answers registry n =
      .ok u registry' n') :
    (registry.WellFormed sha256 → registry'.WellFormed sha256) ∧
      registry.entries.Sublist registry'.entries := by
  obtain ⟨entry, -, -, hlearnable, rfl⟩ := learn_eq_ok h
  constructor
  · intro hwf
    exact hwf.learned hlearnable
  · rw [learned_entries]
    exact sublist_absorb _ _

theorem bindExactVersion_step {destinationKey : Option TypeTreeSchemaKey}
    {provenance : TypeTreeSchemaProvenance} {u : Unit}
    (h : typetreeSchemaRegistryBindExactVersion sha256 destinationKey provenance answers registry
      n = .ok u registry' n') :
    (registry.WellFormed sha256 → registry'.WellFormed sha256) ∧
      registry.entries.Sublist registry'.entries := by
  rcases bindExactVersion_eq_ok h with rfl | ⟨key, schema, n₁, hlearn⟩
  · exact ⟨id, List.Sublist.refl _⟩
  · exact learn_step hlearn

/-- **One call keeps the invariant**, whatever it reports. -/
theorem RegistryCall.wellFormed (c : RegistryCall) (hwf : registry.WellFormed sha256) :
    (c.run sha256 answers registry n).state.WellFormed sha256 := by
  cases hrun : c.run sha256 answers registry n with
  | error status registry' n' =>
      rw [Call.Result.state, c.atomic answers registry n status registry' n' hrun]
      exact hwf
  | ok u registry' n' =>
      rw [Call.Result.state]
      cases c with
      | learn key schema provenance => exact (learn_step hrun).1 hwf
      | bindExactVersion key provenance => exact (bindExactVersion_step hrun).1 hwf
      | deserializeReplace data =>
          obtain ⟨-, -, -, hwf', -⟩ := deserializeReplace_eq_ok hrun
          exact hwf'
      | dispose =>
          cases hrun
          exact wellFormed_init

theorem RegistryCall.sublist (c : RegistryCall) (hadds : c.addsOnly = true) :
    registry.entries.Sublist (c.run sha256 answers registry n).state.entries := by
  cases hrun : c.run sha256 answers registry n with
  | error status registry' n' =>
      rw [Call.Result.state, c.atomic answers registry n status registry' n' hrun]
  | ok u registry' n' =>
      rw [Call.Result.state]
      cases c with
      | learn key schema provenance => exact (learn_step hrun).2
      | bindExactVersion key provenance => exact (bindExactVersion_step hrun).2
      | deserializeReplace data => cases hadds
      | dispose => cases hadds

/-- **Every reachable registry is well formed.** -/
theorem Reachable.wellFormed (h : Reachable sha256 registry) : registry.WellFormed sha256 := by
  induction h with
  | init => exact wellFormed_init
  | call c answers n _ ih => exact c.wellFormed ih

/-- A well-formed registry has one entry for each key. -/
theorem TypeTreeSchemaRegistry.WellFormed.unique (hwf : registry.WellFormed sha256)
    {e₁ e₂ : Entry} (h₁ : e₁ ∈ registry.entries) (h₂ : e₂ ∈ registry.entries)
    (hkey : e₁.key = e₂.key) : e₁ = e₂ := by
  have hfind₁ := (SortedAssoc.find?_eq_some_iff hwf.increasing).mpr ⟨h₁, rfl⟩
  have hfind₂ := (SortedAssoc.find?_eq_some_iff hwf.increasing).mpr ⟨h₂, hkey.symm⟩
  rw [hfind₁] at hfind₂
  exact Option.some.inj hfind₂

end

/-! ## A registry with one schema -/

def sampleKey : TypeTreeSchemaKey where
  serializedFileVersion := 22
  unityVersion := ascii "2021.3.35f1"
  classId := 49
  serializedTypeId := 49
  scriptTypeIndex := 0xffff
  hasScriptIdHash := false
  isStripped := false
  isRefType := false
  scriptIdHash := .zero
  typeHash := .zero

/-- One scalar node, named in the local string table. -/
def sampleSchema : TypeTreeType where
  typeId := 49
  isStripped := false
  scriptTypeIndex := 0xffff
  scriptIdHash := .zero
  typeHash := .zero
  nodes := [{
    version := 1
    level := 0
    typeFlags := 0
    typeStrOffset := 0
    nameStrOffset := 4
    byteSize := 4
    index := 0
    metaFlags := 0
    refTypeHash := 7
    typeStr := some (cstr "int")
    nameStr := some (cstr "Base") }]
  stringBuffer := ascii "int" ++ [0] ++ ascii "Base" ++ [0]
  dependencies := [3]
  isRefType := false
  refClassName := none
  refNamespace := none
  refAsmName := none

/-- A digest function for examples. -/
def lastBytesDigest (message : Text) : Sha256Digest :=
  ⟨(List.replicate 32 0 ++ message).drop message.length, by
    rw [List.length_drop, List.length_append, List.length_replicate, Nat.add_sub_cancel]⟩

def sampleLearn : RegistryCall := .learn (some sampleKey) (some sampleSchema) .pinnedInput

def sampleRegistry : TypeTreeSchemaRegistry :=
  (sampleLearn.run lastBytesDigest Call.granted .init 0).state

/-! ## The invariant of a run -/

/-- **The registry's run invariant.** In every reachable registry the keys are
strictly increasing, every entry validates under its own key and the entries fit
the capacity; from there, no learn and no binding changes or removes an entry,
and a call that reports a failure leaves the entries as they were. -/
theorem registry_run_invariant {sha256 : Text → Sha256Digest}
    {registry : TypeTreeSchemaRegistry} (h : Reachable sha256 registry) :
    SortedAssoc.Increasing compareKeys Entry.key registry.entries ∧
    (∀ e₁ ∈ registry.entries, ∀ e₂ ∈ registry.entries, e₁.key = e₂.key → e₁ = e₂) ∧
    (∀ entry ∈ registry.entries, validateSchema sha256 (some entry.key) (some entry.schema) =
      .ok (entry.key, entry.schema)) ∧
    registry.entries.length ≤ registry.capacity ∧
    ∀ (c : RegistryCall) (answers : ℕ → Bool) (n : ℕ),
      (c.addsOnly = true →
        registry.entries.Sublist (c.run sha256 answers registry n).state.entries) ∧
      ∀ status registry' n', c.run sha256 answers registry n = .error status registry' n' →
        registry'.entries = registry.entries := by
  have hwf := h.wellFormed
  refine ⟨hwf.increasing, ?_, hwf.valid, hwf.count_le, ?_⟩
  · intro e₁ h₁ e₂ h₂ hkey
    exact hwf.unique h₁ h₂ hkey
  · intro c answers n
    refine ⟨c.sublist, ?_⟩
    intro status registry' n' hrun
    rw [c.atomic answers registry n status registry' n' hrun]

theorem registry_run_invariant_sample :
    Reachable lastBytesDigest sampleRegistry ∧ sampleRegistry.entries ≠ [] ∧
      SortedAssoc.Increasing compareKeys Entry.key sampleRegistry.entries :=
  ⟨.call sampleLearn Call.granted 0 .init, by decide,
    (registry_run_invariant (.call sampleLearn Call.granted 0 .init)).1⟩

end UnityCommon.Registry
