import UnityCommon.Registry.Records

/-!
# Files are read as they are written

The header and the loop over the records. A file is accepted exactly when it is
the encoding of a strictly increasing list of valid entries.
-/

namespace UnityCommon.Registry

open UnityCommon.TypeTree

section Records

variable {sha256 : Text → Sha256Digest} {registry registry' : TypeTreeSchemaRegistry}
  {answers : ℕ → Bool} {s s' : Text} {n n' : ℕ}

/-- An entry beyond the last one is learned at the end. -/
theorem learned_last {entry : Entry} (hwf : registry.WellFormed sha256)
    (hlast : ((registry.entries.getLast?.map Entry.key).all
      fun p => compareKeys p entry.key == .lt) = true) :
    SortedAssoc.find? compareKeys Entry.key registry.entries entry.key = none ∧
      absorb registry.entries entry = registry.entries ++ [entry] := by
  have hlt : ∀ x ∈ registry.entries, compareKeys x.key entry.key = .lt := by
    apply hwf.increasing.lt_of_last
    intro last h
    rw [h] at hlast
    simpa using hlast
  have hfind : SortedAssoc.find? compareKeys Entry.key registry.entries entry.key = none := by
    rw [SortedAssoc.find?_eq_none_iff]
    intro x hx
    rw [hlt x hx]
    decide
  refine ⟨hfind, ?_⟩
  rw [absorb, hfind]
  exact SortedAssoc.insert_last hlt

theorem readSchemaRecord_sound (hwf : registry.WellFormed sha256)
    (h : readSchemaRecord sha256 registry answers s n = .ok registry' s' n') :
    ∃ entry : Entry, s = encodeRecord entry ++ s' ∧ registry'.WellFormed sha256 ∧
      registry'.entries = registry.entries ++ [entry] := by
  unfold readSchemaRecord at h
  obtain ⟨recordSize, r₁, -, hs₁, h⟩ := exact_schemaReaderU64.bind_eq_ok.mp h
  obtain ⟨hsize, h⟩ := Call.require_bind_eq_ok.mp h
  obtain ⟨payload, r₂, hlength, hs₂, h⟩ := (exact_schemaReaderView _).bind_eq_ok.mp h
  obtain ⟨record, unread, _, hrecord, h⟩ := Call.within_bind_eq_ok.mp h
  obtain ⟨u, learned, _, hlearn, h⟩ := Call.within_bind_eq_ok.mp h
  obtain ⟨rfl, rfl, -⟩ := Call.pure_eq_ok.mp h
  obtain ⟨hpayload, -, hprevious⟩ := readRecordPayload_sound hrecord
  obtain ⟨entry, hkey, hschema, hlearnable, rfl⟩ := learn_eq_ok hlearn
  have hentry : entry = ⟨record.1, record.2⟩ := by
    cases entry
    simp only [Option.some.injEq] at hkey hschema
    rw [hkey, hschema]
  subst hentry
  refine ⟨⟨record.1, record.2⟩, ?_, hwf.learned hlearnable, ?_⟩
  · have hword : (8 + payload.length).toUInt64 = recordSize := by
      rw [hlength, Nat.add_sub_cancel' hsize]
      simp
    rw [hs₁, hs₂, encodeRecord, ← hpayload, hword, id, List.append_assoc]
  · rw [learned_entries]
    exact (learned_last hwf hprevious).2

theorem yields_readSchemaRecord {entry : Entry} (hwf : registry.WellFormed sha256)
    (hvalid : ValidEntry sha256 entry.key entry.schema)
    (hroom : registry.entries.length + 1 ≤ maxEntries)
    (hsize : 8 + (encodeBody entry).length < 2 ^ 64)
    (hprevious : ((registry.entries.getLast?.map Entry.key).all
      fun p => compareKeys p entry.key == .lt) = true) (rest : Text) :
    ∃ registry' : TypeTreeSchemaRegistry, registry'.WellFormed sha256 ∧
      registry'.entries = registry.entries ++ [entry] ∧
      Call.Yields .allocationFailed (readSchemaRecord sha256 registry)
        (encodeRecord entry ++ rest) registry' rest := by
  obtain ⟨hfind, habsorb⟩ := learned_last hwf hprevious
  have hlearnable : Learnable sha256 registry.entries entry := by
    refine ⟨hvalid, ?_, fun _ => hroom⟩
    intro existing h
    rw [hfind] at h
    cases h
  have hword : (8 + (encodeBody entry).length).toUInt64.toNat = 8 + (encodeBody entry).length := by
    rw [Nat.toUInt64, UInt64.toNat_ofNat']
    exact Nat.mod_eq_of_lt hsize
  refine ⟨registry.learned entry, hwf.learned hlearnable, ?_, ?_⟩
  · rw [learned_entries, habsorb]
  · rw [encodeRecord, List.append_assoc]
    apply (exact_schemaReaderU64.yields trivial _).bind
    apply (Call.yields_require (by omega)).bind
    apply ((exact_schemaReaderView _).yields (a := encodeBody entry) (by omega) rest).bind
    apply (Call.yields_within (yields_readRecordPayload hvalid hprevious)).bind
    apply (Call.yields_within (yields_learn (Or.inr rfl) hlearnable)).bind
    exact Call.yields_pure _

/-- **What the loop over the records accepts.** -/
theorem readRecords_sound : ∀ {count : ℕ} {registry : TypeTreeSchemaRegistry} {s : Text} {n : ℕ},
    registry.WellFormed sha256 →
      readRecords sha256 count registry answers s n = .ok registry' s' n' →
        ∃ added : List Entry, s = added.flatMap encodeRecord ++ s' ∧
          registry'.WellFormed sha256 ∧ registry'.entries = registry.entries ++ added := by
  intro count
  induction count with
  | zero =>
      intro registry s n hwf h
      obtain ⟨rfl, rfl, -⟩ := Call.pure_eq_ok.mp h
      exact ⟨[], rfl, hwf, (List.append_nil _).symm⟩
  | succ count ih =>
      intro registry s n hwf h
      obtain ⟨middle, s₁, n₁, hrecord, h⟩ := Call.bind_eq_ok.mp h
      obtain ⟨entry, hs, hwf₁, hentries₁⟩ := readSchemaRecord_sound hwf hrecord
      obtain ⟨added, hs₁, hwf', hentries'⟩ := ih hwf₁ h
      refine ⟨entry :: added, ?_, hwf', ?_⟩
      · rw [hs, hs₁, List.flatMap_cons, List.append_assoc]
      · rw [hentries', hentries₁, List.append_assoc, List.singleton_append]

/-- **What the loop over the records reads back.** -/
theorem yields_readRecords {added : List Entry} : ∀ {registry : TypeTreeSchemaRegistry},
    registry.WellFormed sha256 →
    SortedAssoc.Increasing compareKeys Entry.key (registry.entries ++ added) →
    (∀ entry ∈ added, ValidEntry sha256 entry.key entry.schema ∧
      8 + (encodeBody entry).length < 2 ^ 64) →
    registry.entries.length + added.length ≤ maxEntries →
    ∃ registry' : TypeTreeSchemaRegistry, registry'.entries = registry.entries ++ added ∧
      Call.Yields .allocationFailed (readRecords sha256 added.length registry)
        (added.flatMap encodeRecord) registry' [] := by
  induction added with
  | nil =>
      intro registry _ _ _ _
      exact ⟨registry, (List.append_nil _).symm, Call.yields_pure registry⟩
  | cons entry added ih =>
      intro registry hwf hinc hvalid hroom
      have hprevious : ((registry.entries.getLast?.map Entry.key).all
          fun p => compareKeys p entry.key == .lt) = true := by
        cases hlast : registry.entries.getLast? with
        | none => rfl
        | some last =>
            have hmem := List.mem_of_getLast? hlast
            have hlt := (List.pairwise_append.mp hinc).2.2 last hmem entry List.mem_cons_self
            simp [hlt]
      obtain ⟨hentry, hsize⟩ := hvalid entry List.mem_cons_self
      rw [List.length_cons] at hroom
      obtain ⟨middle, hwf₁, hentries₁, hyield₁⟩ := yields_readSchemaRecord hwf hentry (by omega)
        hsize hprevious (added.flatMap encodeRecord)
      obtain ⟨registry', hentries', hyield'⟩ := ih hwf₁
        (by rw [hentries₁, List.append_assoc]; exact hinc)
        (fun e he => hvalid e (List.mem_cons_of_mem _ he))
        (by rw [hentries₁, List.length_append, List.length_singleton]; omega)
      refine ⟨registry', ?_, ?_⟩
      · rw [hentries', hentries₁, List.append_assoc, List.singleton_append]
      · rw [List.flatMap_cons]
        exact hyield₁.bind hyield'

end Records

/-! ## The header -/

section Header

variable {data : Text}

theorem field_append (data : Text) (offset size : ℕ) :
    data.drop offset = field data offset size ++ data.drop (offset + size) := by
  rw [field, ← List.drop_drop, List.take_append_drop]

theorem length_field {offset size : ℕ} (h : offset + size ≤ data.length) :
    (field data offset size).length = size := by
  rw [field, List.length_take, List.length_drop]
  omega

/-- A field of a concatenation that starts and ends with one of its parts. -/
theorem drop_field {offset size : ℕ} {part rest : Text} (h : data.drop offset = part ++ rest)
    (hsize : part.length = size) :
    field data offset size = part ∧ data.drop (offset + size) = rest := by
  rw [field, ← List.drop_drop, h]
  exact ⟨List.take_left' hsize, List.drop_left' hsize⟩

/-- The eight fields of the header, in order. -/
theorem header_fields (data : Text) :
    data = field data 0 8 ++ (field data 8 2 ++ (field data 10 2 ++ (field data 12 4 ++
      (field data 16 4 ++ (field data 20 4 ++ (field data 24 8 ++ (field data 32 32 ++
        data.drop headerSize))))))) := by
  have h : data = data.drop 0 := rfl
  conv_lhs =>
    rw [h, field_append data 0 8, field_append data 8 2, field_append data 10 2,
      field_append data 12 4, field_append data 16 4, field_append data 20 4,
      field_append data 24 8, field_append data 32 32]
  rfl

/-- **Header bytes are determined** by the count, the size and the digest. -/
theorem header_eq {digest : Sha256Digest} (hlength : headerSize ≤ data.length)
    (hvalid : headerValid data = true) (hdigest : digest.bytes = field data 32 32) :
    data = encodeHeader (loadLe32 (field data 16 4)).toNat data.length digest ++
      data.drop headerSize := by
  simp only [headerValid, Bool.and_eq_true, beq_iff_eq] at hvalid
  obtain ⟨⟨⟨⟨⟨hmagic, hversion⟩, hheader⟩, hflags⟩, hreserved⟩, hsize⟩ := hvalid
  have hlen : ∀ offset size, offset + size ≤ 64 → (field data offset size).length = size := by
    intro offset size h
    apply length_field
    exact Nat.le_trans h hlength
  have hcount : (loadLe32 (field data 16 4)).toNat.toUInt32 = loadLe32 (field data 16 4) := by
    simp
  have hlenword : data.length.toUInt64 = loadLe64 (field data 24 8) := by
    rw [← hsize]
    simp
  rw [encodeHeader, hcount, hlenword, ← hmagic, ← hversion, ← hheader, hdigest,
    storeLe16_load (hlen 8 2 (by omega)), storeLe16_load (hlen 10 2 (by omega)),
    storeLe32_load (hlen 16 4 (by omega)), storeLe64_load (hlen 24 8 (by omega))]
  have hzero₁ : storeLe32 0 = field data 12 4 := by
    rw [← hflags, storeLe32_load (hlen 12 4 (by omega))]
  have hzero₂ : storeLe32 0 = field data 20 4 := by
    rw [← hreserved, storeLe32_load (hlen 20 4 (by omega))]
  conv_lhs => rw [header_fields data, ← hzero₁, ← hzero₂]
  simp only [List.append_assoc]

/-- What the header of an encoding says. -/
theorem header_of {count size : ℕ} {digest : Sha256Digest} {payload : Text} (data : Text)
    (hdata : data = encodeHeader count size digest ++ payload) (hsize : size = data.length)
    (hcount : count < 2 ^ 32) (hlimit : size < 2 ^ 64) :
    headerValid data = true ∧ (loadLe32 (field data 16 4)).toNat = count ∧
      field data 32 32 = digest.bytes ∧ data.drop headerSize = payload := by
  have h₀ : data.drop 0 = schemaRegistryMagic ++ (storeLe16 formatVersion ++
      (storeLe16 headerSize.toUInt16 ++ (storeLe32 0 ++ (storeLe32 count.toUInt32 ++
        (storeLe32 0 ++ (storeLe64 size.toUInt64 ++ (digest.bytes ++ payload))))))) := by
    rw [List.drop_zero, hdata]
    simp only [encodeHeader, List.append_assoc]
  obtain ⟨hmagic, h₁⟩ := drop_field h₀ (show schemaRegistryMagic.length = 8 from rfl)
  obtain ⟨hversion, h₂⟩ := drop_field h₁ (length_storeLe16 _)
  obtain ⟨hheader, h₃⟩ := drop_field h₂ (length_storeLe16 _)
  obtain ⟨hflags, h₄⟩ := drop_field h₃ (length_storeLe32 _)
  obtain ⟨hentries, h₅⟩ := drop_field h₄ (length_storeLe32 _)
  obtain ⟨hreserved, h₆⟩ := drop_field h₅ (length_storeLe32 _)
  obtain ⟨htotal, h₇⟩ := drop_field h₆ (length_storeLe64 _)
  obtain ⟨hdigest, h₈⟩ := drop_field h₇ digest.length_eq
  refine ⟨?_, ?_, hdigest, h₈⟩
  · have hword : size.toUInt64.toNat = data.length := by
      rw [← hsize, Nat.toUInt64, UInt64.toNat_ofNat']
      exact Nat.mod_eq_of_lt hlimit
    simp only [headerValid, hmagic, hversion, hheader, hflags, hreserved, htotal,
      loadLe16_store, loadLe32_store, loadLe64_store, hword, beq_self_eq_true, Bool.and_self]
  · rw [hentries, loadLe32_store, Nat.toUInt32, UInt32.toNat_ofNat']
    exact Nat.mod_eq_of_lt hcount

end Header

/-! ## Files -/

section Files

variable {sha256 : Text → Sha256Digest} {registry registry' : TypeTreeSchemaRegistry}
  {answers : ℕ → Bool} {n n' : ℕ} {data : Text}

theorem wellFormed_reserved (sha256 : Text → Sha256Digest) (count : ℕ) :
    (TypeTreeSchemaRegistry.init.reserved count).WellFormed sha256 := by
  have hentries : (TypeTreeSchemaRegistry.init.reserved count).entries = [] := reserved_entries _
  refine ⟨?_, ?_, ?_⟩
  · rw [hentries]
    exact List.Pairwise.nil
  · rw [hentries]
    intro entry hmem
    cases hmem
  · rw [hentries]
    exact Nat.zero_le _

/-- **Only canonical encodings are accepted**, and what they yield is well formed. -/
theorem readFile_sound {loaded : TypeTreeSchemaRegistry}
    (h : readFile sha256 data answers registry n = .ok loaded registry' n') :
    data = encodeRegistry sha256 loaded.entries ∧ loaded.WellFormed sha256 ∧
      data.length ≤ maxFileSize ∧ loaded.entries.length ≤ maxEntries := by
  unfold readFile at h
  obtain ⟨hlength, h⟩ := Call.require_bind_eq_ok.mp h
  obtain ⟨hmax, h⟩ := Call.require_bind_eq_ok.mp h
  obtain ⟨hheader, h⟩ := Call.require_bind_eq_ok.mp h
  obtain ⟨hcount, h⟩ := Call.require_bind_eq_ok.mp h
  obtain ⟨hdigest, h⟩ := Call.require_bind_eq_ok.mp h
  obtain ⟨u, reserved, n₁, hreserve, h⟩ := Call.within_bind_eq_ok.mp h
  obtain ⟨loaded', unread, n₂, hrecords, h⟩ := Call.within_bind_eq_ok.mp h
  obtain ⟨⟨hend, hentries⟩, h⟩ := Call.require_bind_eq_ok.mp h
  obtain ⟨hloaded, -, -⟩ := Call.pure_eq_ok.mp h
  dsimp only at hend hentries hloaded
  subst hloaded
  obtain ⟨-, rfl⟩ := (yields_registryReserve hcount).unique hreserve
  obtain ⟨added, hpayload, hwf, hadded⟩ := readRecords_sound (wellFormed_reserved _ _) hrecords
  have hall : loaded'.entries = added := by
    rw [hadded, reserved_entries]
    rfl
  rw [hend, List.append_nil, ← hall] at hpayload
  refine ⟨?_, hwf, hmax, by omega⟩
  have hsize : data.length = headerSize + (loaded'.entries.flatMap encodeRecord).length := by
    rw [← hpayload, List.length_drop]
    omega
  have hdata := header_eq hlength hheader hdigest
  rw [← hentries, hsize, hpayload] at hdata
  exact hdata

/-- **Every canonical encoding is accepted.** -/
theorem yields_readFile (registry : TypeTreeSchemaRegistry) {entries : List Entry}
    (hinc : SortedAssoc.Increasing compareKeys Entry.key entries)
    (hvalid : ∀ entry ∈ entries, ValidEntry sha256 entry.key entry.schema)
    (hcount : entries.length ≤ maxEntries)
    (hfits : (encodeRegistry sha256 entries).length ≤ maxFileSize) :
    ∃ loaded : TypeTreeSchemaRegistry, loaded.entries = entries ∧
      Call.Yields .allocationFailed (readFile sha256 (encodeRegistry sha256 entries)) registry
        loaded registry := by
  have hlength := length_encodeRegistry sha256 entries
  have hcount32 : entries.length < 2 ^ 32 := by
    rw [maxEntries] at hcount
    omega
  have hlimit : headerSize + (entries.flatMap encodeRecord).length < 2 ^ 64 := by
    rw [hlength, maxFileSize] at hfits
    omega
  obtain ⟨hheader, hentryCount, hdigest, hpayload⟩ :=
    header_of (encodeRegistry sha256 entries) rfl hlength.symm hcount32 hlimit
  -- a record is no longer than the file it is in
  have hbody : ∀ entry ∈ entries, ValidEntry sha256 entry.key entry.schema ∧
      8 + (encodeBody entry).length < 2 ^ 64 := by
    intro entry hmem
    refine ⟨hvalid entry hmem, ?_⟩
    have hle : (encodeRecord entry).length ≤ (entries.flatMap encodeRecord).length :=
      (List.sublist_flatten_of_mem (List.mem_map_of_mem hmem)).length_le
    rw [encodeRecord, List.length_append, length_storeLe64] at hle
    omega
  have hreserved : (TypeTreeSchemaRegistry.init.reserved entries.length).entries = [] :=
    reserved_entries _
  obtain ⟨loaded, hloaded, hyield⟩ := yields_readRecords
    (wellFormed_reserved sha256 entries.length)
    (by rw [hreserved]; exact hinc) hbody (by rw [hreserved]; simpa using hcount)
  rw [hreserved, List.nil_append] at hloaded
  refine ⟨loaded, hloaded, ?_⟩
  apply (Call.yields_require (by omega)).bind
  apply (Call.yields_require hfits).bind
  apply (Call.yields_require hheader).bind
  rw [hentryCount, hpayload]
  apply (Call.yields_require hcount).bind
  apply (Call.yields_require hdigest.symm).bind
  apply (Call.yields_within (yields_registryReserve hcount)).bind
  apply (Call.yields_within hyield).bind
  apply (Call.yields_require ⟨rfl, by rw [hloaded]⟩).bind
  exact Call.yields_pure _

theorem keeps_readFile : Call.Keeps (readFile sha256 data) :=
  (Call.keeps_require _ _).bind fun _ => (Call.keeps_require _ _).bind fun _ =>
    (Call.keeps_require _ _).bind fun _ => (Call.keeps_require _ _).bind fun _ =>
      (Call.keeps_require _ _).bind fun _ => (Call.keeps_within _ _).bind fun _ =>
        (Call.keeps_within _ _).bind fun _ => (Call.keeps_require _ _).bind fun _ =>
          Call.keeps_pure _

/-- What a successful replacement leaves is what the file encodes. -/
theorem deserializeReplace_eq_ok {data? : Option Text} {u : Unit}
    (h : typetreeSchemaRegistryDeserializeReplace sha256 data? answers registry n =
      .ok u registry' n') :
    ∃ data, data? = some data ∧ data = encodeRegistry sha256 registry'.entries ∧
      registry'.WellFormed sha256 ∧ data.length ≤ maxFileSize ∧
        registry'.entries.length ≤ maxEntries := by
  cases data? with
  | none => cases h
  | some data =>
      obtain ⟨loaded, _, _, hread, h⟩ := Call.bind_eq_ok.mp h
      obtain ⟨rfl, -⟩ := Call.replace_eq_ok.mp h
      exact ⟨data, rfl, readFile_sound hread⟩

theorem atomic_deserializeReplace (data? : Option Text) :
    Call.Atomic (typetreeSchemaRegistryDeserializeReplace sha256 data?) := by
  cases data? with
  | none => exact (Call.keeps_fail _).atomic
  | some data =>
      apply Call.Atomic.bind_total keeps_readFile.atomic
      intro loaded
      exact Call.replace_ne_error loaded

end Files

end UnityCommon.Registry
