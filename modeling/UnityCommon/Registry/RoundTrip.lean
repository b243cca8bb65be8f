import UnityCommon.Registry.Runs

/-!
# The registry codec

Serialization and deserialization are inverse to each other, in both
directions. The only other outcome is a denied allocation.
-/

namespace UnityCommon.Registry

open UnityCommon.TypeTree

section

variable {sha256 : Text → Sha256Digest} {registry registry' : TypeTreeSchemaRegistry}
  {answers : ℕ → Bool} {n n' : ℕ} {data : Text}

/-- What was written is read back, into any registry. -/
theorem yields_deserialize_encoded (hwf : registry.WellFormed sha256)
    (hcount : registry.entries.length ≤ maxEntries)
    (hfits : (encodeRegistry sha256 registry.entries).length ≤ maxFileSize)
    (target : TypeTreeSchemaRegistry) :
    ∃ copy : TypeTreeSchemaRegistry, copy.entries = registry.entries ∧
      Call.Yields .allocationFailed (typetreeSchemaRegistryDeserializeReplace sha256
        (some (encodeRegistry sha256 registry.entries))) target () copy := by
  obtain ⟨copy, hcopy, hyield⟩ :=
    yields_readFile target hwf.increasing hwf.valid hcount hfits
  exact ⟨copy, hcopy, hyield.bind Call.yields_replace⟩

/-- What was read is written back. -/
theorem yields_serialize_read {u : Unit}
    (h : typetreeSchemaRegistryDeserializeReplace sha256 (some data) answers registry n =
      .ok u registry' n') :
    Call.Yields .allocationFailed (typetreeSchemaRegistrySerialize sha256) registry' data
      registry' := by
  obtain ⟨_, hdata, rfl, hwf, hmax, hcount⟩ := deserializeReplace_eq_ok h
  obtain rfl := Option.some.inj hdata
  exact yields_serialize hwf hcount hmax

end

/-- **Round trip, both ways.** What a reachable registry serializes to is read
back as the same entries; and what is accepted from any bytes serializes to those
bytes. -/
theorem registry_codec_roundTrip {sha256 : Text → Sha256Digest}
    {registry : TypeTreeSchemaRegistry} (hreach : Reachable sha256 registry) :
    (∀ answers n data registry' n',
      typetreeSchemaRegistrySerialize sha256 answers registry n = .ok data registry' n' →
        ∀ target : TypeTreeSchemaRegistry, ∃ copy : TypeTreeSchemaRegistry,
          copy.entries = registry.entries ∧
            Call.Yields .allocationFailed
              (typetreeSchemaRegistryDeserializeReplace sha256 (some data)) target () copy) ∧
    ∀ (data : Text) (answers : ℕ → Bool) (before : TypeTreeSchemaRegistry) n u after n',
      typetreeSchemaRegistryDeserializeReplace sha256 (some data) answers before n =
          .ok u after n' →
        Call.Yields .allocationFailed (typetreeSchemaRegistrySerialize sha256) after data
          after := by
  constructor
  · intro answers n data registry' n' h target
    obtain ⟨rfl, hfits, hcount⟩ := serialize_eq_ok hreach.wellFormed h
    exact yields_deserialize_encoded hreach.wellFormed hcount hfits target
  · intro data answers before n u after n' h
    exact yields_serialize_read h

theorem registry_codec_roundTrip_sample :
    ∃ copy : TypeTreeSchemaRegistry, copy.entries = sampleRegistry.entries ∧
      Call.Yields .allocationFailed (typetreeSchemaRegistryDeserializeReplace lastBytesDigest
        (some (encodeRegistry lastBytesDigest sampleRegistry.entries))) .init () copy := by
  have hreach : Reachable lastBytesDigest sampleRegistry :=
    .call sampleLearn Call.granted 0 .init
  obtain ⟨n', h⟩ := (yields_serialize hreach.wellFormed (by decide)
    (by decide +kernel)).granted 0
  exact (registry_codec_roundTrip hreach).1 _ _ _ _ _ h .init

end UnityCommon.Registry
