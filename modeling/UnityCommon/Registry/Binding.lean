import UnityCommon.Registry.Runs

/-!
# Exact version bindings

`typetree_schema_registry_bind_exact_version` against what a binding is for: the
schema on which all entries agree whose keys differ from the destination in
their Unity version alone. Its one scan settles three questions at once, so the
answer can depend on what comes before the destination key.
-/

namespace UnityCommon.Registry

open UnityCommon.TypeTree

/-- The entries that differ from the key at most in their version. -/
def evidence (key : TypeTreeSchemaKey) (entries : List Entry) : List Entry :=
  entries.filter fun entry => schemaKeysMatchExceptUnityVersion entry.key key

/-- The entries in front of the key's own. -/
def beforeKey (key : TypeTreeSchemaKey) (entries : List Entry) : List Entry :=
  entries.takeWhile fun entry => compareKeys entry.key key != .eq

/-- All schemas of a list are one. -/
def Agree (schemas : List TypeTreeType) : Prop :=
  ∀ a ∈ schemas, ∀ b ∈ schemas, a = b

instance (schemas : List TypeTreeType) : Decidable (Agree schemas) := by
  unfold Agree
  infer_instance

/-! ## The scan -/

section Scan

variable {key : TypeTreeSchemaKey} {entries : List Entry} {selected : Option TypeTreeType}

/-- The schemas that the scan compares. -/
def compared (key : TypeTreeSchemaKey) (selected : Option TypeTreeType) (entries : List Entry) :
    List TypeTreeType :=
  selected.toList ++ (evidence key (beforeKey key entries)).map Entry.schema

theorem compared_own {entry : Entry} {rest : List Entry} (h : compareKeys entry.key key = .eq) :
    compared key selected (entry :: rest) = selected.toList := by
  simp [compared, beforeKey, evidence, h]

theorem compared_other {entry : Entry} {rest : List Entry} (h : compareKeys entry.key key ≠ .eq)
    (hmatch : schemaKeysMatchExceptUnityVersion entry.key key = false) :
    compared key selected (entry :: rest) = compared key selected rest := by
  simp [compared, beforeKey, evidence, h, hmatch]

theorem compared_match {entry : Entry} {rest : List Entry} (h : compareKeys entry.key key ≠ .eq)
    (hmatch : schemaKeysMatchExceptUnityVersion entry.key key = true) :
    compared key selected (entry :: rest) =
      selected.toList ++ compared key (some entry.schema) rest := by
  simp [compared, beforeKey, evidence, h, hmatch]

/-- Nothing differs from what is selected already. -/
theorem agree_append {schema : TypeTreeType} {schemas : List TypeTreeType}
    (h : schema ∈ schemas) (hselected : ∀ other ∈ selected, other = schema) :
    Agree (selected.toList ++ schemas) ↔ Agree schemas := by
  refine ⟨fun hagree a ha b hb => hagree a (by simp [ha]) b (by simp [hb]), fun hagree => ?_⟩
  have hall : ∀ a ∈ selected.toList ++ schemas, a = schema := by
    intro a ha
    rcases List.mem_append.mp ha with ha | ha
    · exact hselected a (Option.mem_toList.mp ha)
    · exact hagree a ha schema h
  intro a ha b hb
  rw [hall a ha, hall b hb]

/-- **What the scan finds**: a conflict among the schemas in front of the key's
own entry, that entry, or the last of the schemas that agree. -/
theorem scanForBinding_eq (hnames : ∀ entry ∈ entries, referenceNamesValid entry.schema = true)
    (hselected : ∀ schema ∈ selected, referenceNamesValid schema = true) :
    scanForBinding key selected entries =
      if Agree (compared key selected entries) then
        if ∃ entry ∈ entries, entry.key = key then .ok none
        else
          match (compared key selected entries).getLast? with
          | none => .error .notFound
          | some schema => .ok (some schema)
      else .error .keyConflict := by
  induction entries generalizing selected with
  | nil =>
      cases selected with
      | none => simp [scanForBinding, compared, beforeKey, evidence, Agree]
      | some schema => simp [scanForBinding, compared, beforeKey, evidence, Agree]
  | cons entry rest ih =>
      have hrest : ∀ other ∈ rest, referenceNamesValid other.schema = true :=
        fun other hmem => hnames other (List.mem_cons_of_mem _ hmem)
      have hentry := hnames entry List.mem_cons_self
      rw [scanForBinding]
      by_cases hown : compareKeys entry.key key = .eq
      -- the scan stops at the key's own entry: only what came before counts
      · have hkey := Std.LawfulEqCmp.compare_eq_iff_eq.mp hown
        have hagree : Agree selected.toList := by
          intro a ha b hb
          rw [Option.mem_toList] at ha hb
          exact Option.mem_unique ha hb
        rw [if_pos hown, compared_own hown, if_pos hagree,
          if_pos ⟨entry, List.mem_cons_self, hkey⟩]
      · have hkey : (∃ other ∈ entry :: rest, other.key = key) ↔ ∃ other ∈ rest, other.key = key := by
          have hne : entry.key ≠ key := fun he =>
            hown (Std.LawfulEqCmp.compare_eq_iff_eq.mpr he)
          simp [hne]
        rw [if_neg hown]
        cases hmatch : schemaKeysMatchExceptUnityVersion entry.key key with
        | false =>
            -- a key of another type is passed over
            rw [compared_other hown hmatch, ih hrest hselected]
            simp only [hkey, Bool.not_false, if_true]
        | true =>
            -- another version of the type: its schema is selected from here on
            have hmem : entry.schema ∈ compared key (some entry.schema) rest := by
              simp [compared]
            have hlast : (compared key selected (entry :: rest)).getLast? =
                (compared key (some entry.schema) rest).getLast? := by
              rw [compared_match hown hmatch]
              exact List.getLast?_append_of_ne_nil _ (List.ne_nil_of_mem hmem)
            have hsame : (selected.any fun schema => !schemasEqual schema entry.schema) = false ↔
                ∀ schema ∈ selected, schema = entry.schema := by
              cases selected with
              | none => simp
              | some schema =>
                  have hiff := schemasEqual_iff (hselected schema rfl) hentry
                  simp [hiff]
            simp only [Bool.not_true, Bool.false_eq_true, if_false]
            by_cases hselect : ∀ schema ∈ selected, schema = entry.schema
            · have hagree := agree_append hmem hselect
              rw [← compared_match hown hmatch] at hagree
              rw [if_neg (by rw [hsame.mpr hselect]; exact Bool.false_ne_true),
                ih hrest (by simpa using hentry)]
              simp only [hagree, hkey, hlast]
            -- two versions with different schemas
            · have hconflict : ¬ Agree (compared key selected (entry :: rest)) := by
                intro hagree
                refine hselect fun schema hschema => ?_
                rw [compared_match hown hmatch] at hagree
                exact hagree schema (by simp [Option.mem_toList.mpr hschema]) entry.schema
                  (List.mem_append_right _ hmem)
              have hany : (selected.any fun schema => !schemasEqual schema entry.schema) = true := by
                rw [← Bool.not_eq_false]
                exact fun hany => hselect (hsame.mp hany)
              rw [if_neg hconflict, if_pos hany]

end Scan

/-! ## What a binding is for -/

/-- **A binding by evidence**, wherever the other versions sort. -/
structure BindsByEvidence (sha256 : Text → Sha256Digest) (registry : TypeTreeSchemaRegistry)
    (key : TypeTreeSchemaKey) : Prop where
  /-- A key that is there is left as it is. -/
  present : (∃ entry ∈ registry.entries, entry.key = key) → ∀ answers n,
    typetreeSchemaRegistryBindExactVersion sha256 (some key) .pinnedInput answers registry n =
      .ok () registry n
  /-- A key that is not there gets the one schema of its evidence. -/
  absent : (∀ entry ∈ registry.entries, entry.key ≠ key) → ∀ answers n registry' n',
    typetreeSchemaRegistryBindExactVersion sha256 (some key) .pinnedInput answers registry n =
      .ok () registry' n' →
    ∃ schema, evidence key registry.entries ≠ [] ∧
      (∀ entry ∈ evidence key registry.entries, entry.schema = schema) ∧
      typetreeSchemaValidateKnownProfile sha256 key.unityVersion key.classId key.typeHash schema =
        .valid ∧
      registry'.entries = SortedAssoc.insert compareKeys Entry.key registry.entries ⟨key, schema⟩
  conflict : ∀ answers n,
    (∃ registry' n', typetreeSchemaRegistryBindExactVersion sha256 (some key) .pinnedInput answers
      registry n = .error .keyConflict registry' n') ↔
    (∀ entry ∈ registry.entries, entry.key ≠ key) ∧
      ∃ a ∈ evidence key registry.entries, ∃ b ∈ evidence key registry.entries,
        a.schema ≠ b.schema

/-- The key is there, behind two versions of it with different schemas. -/
def Shadowed (key : TypeTreeSchemaKey) (entries : List Entry) : Prop :=
  (∃ entry ∈ entries, entry.key = key) ∧
    ∃ a ∈ evidence key entries, ∃ b ∈ evidence key entries,
      compareKeys a.key key = .lt ∧ compareKeys b.key key = .lt ∧ a.schema ≠ b.schema

instance (key : TypeTreeSchemaKey) (entries : List Entry) : Decidable (Shadowed key entries) := by
  unfold Shadowed
  infer_instance

section Binding

variable {sha256 : Text → Sha256Digest} {registry : TypeTreeSchemaRegistry}
  {key : TypeTreeSchemaKey} {entries : List Entry} {answers : ℕ → Bool} {n : ℕ}

theorem bindExactVersion_apply (hkey : validateKey (some key) = .ok key) :
    typetreeSchemaRegistryBindExactVersion sha256 (some key) .pinnedInput answers registry n =
      match scanForBinding key none registry.entries with
      | .error status => .error status registry n
      | .ok none => .ok () registry n
      | .ok (some schema) =>
          (Call.require (typetreeSchemaValidateKnownProfile sha256 key.unityVersion key.classId
              key.typeHash schema = .valid) .invalidSchema >>= fun _ =>
            typetreeSchemaRegistryLearn sha256 (some key) (some schema) .pinnedInput) answers
              registry n := by
  unfold typetreeSchemaRegistryBindExactVersion
  rw [hkey]
  cases hscan : scanForBinding key none registry.entries with
  | error status =>
      refine Call.bind_eq_error.mpr (Or.inr ⟨(), registry, n, rfl, ?_⟩)
      refine Call.bind_eq_error.mpr (Or.inr ⟨key, registry, n, rfl, ?_⟩)
      refine Call.bind_eq_error.mpr (Or.inr ⟨registry, registry, n, rfl, ?_⟩)
      refine Call.bind_eq_error.mpr (Or.inl ?_)
      rw [hscan]
      rfl
  | ok selected =>
      simp only [Call.bind_apply, Call.andThen, Call.require, Call.ofExcept, Call.current, if_true,
        hscan]
      cases selected with
      | none => rfl
      | some schema => rfl

/-- In front of the key's own entry are the entries with lesser keys. -/
theorem mem_beforeKey (hinc : SortedAssoc.Increasing compareKeys Entry.key entries)
    (hpresent : ∃ entry ∈ entries, entry.key = key) {a : Entry} :
    a ∈ beforeKey key entries ↔ a ∈ entries ∧ compareKeys a.key key = .lt := by
  induction entries with
  | nil => simp [beforeKey]
  | cons entry rest ih =>
      obtain ⟨own, hown, rfl⟩ := hpresent
      have hhead : ∀ other ∈ rest, compareKeys entry.key other.key = .lt :=
        fun other hmem => List.rel_of_pairwise_cons hinc hmem
      have hself : compareKeys own.key own.key = .eq := Std.ReflCmp.compare_self
      rcases List.mem_cons.mp hown with rfl | hrest
      · have hempty : beforeKey own.key (own :: rest) = [] := by simp [beforeKey, hself]
        rw [hempty]
        refine ⟨nofun, fun ⟨hmem, hlt⟩ => ?_⟩
        rcases List.mem_cons.mp hmem with rfl | hmem
        · rw [hself] at hlt
          cases hlt
        · rw [Std.OrientedCmp.gt_of_lt (hhead a hmem)] at hlt
          cases hlt
      · have hlt := hhead own hrest
        have hcons : beforeKey own.key (entry :: rest) = entry :: beforeKey own.key rest := by
          simp [beforeKey, hlt]
        rw [hcons, List.mem_cons, List.mem_cons, ih (List.Pairwise.of_cons hinc) ⟨own, hrest, rfl⟩]
        constructor
        · rintro (rfl | ⟨hmem, hlt'⟩)
          · exact ⟨Or.inl rfl, hlt⟩
          · exact ⟨Or.inr hmem, hlt'⟩
        · rintro ⟨rfl | hmem, hlt'⟩
          · exact Or.inl rfl
          · exact Or.inr ⟨hmem, hlt'⟩

theorem beforeKey_absent (h : ∀ entry ∈ entries, entry.key ≠ key) : beforeKey key entries = entries := by
  refine List.takeWhile_eq_self_iff.mpr fun entry hmem => ?_
  rw [bne_iff_ne]
  exact fun he => h entry hmem (Std.LawfulEqCmp.compare_eq_iff_eq.mp he)

/-- The schemas in front of a key agree unless it is shadowed. -/
theorem agree_iff_of_present (hinc : SortedAssoc.Increasing compareKeys Entry.key entries)
    (hpresent : ∃ entry ∈ entries, entry.key = key) :
    Agree (compared key none entries) ↔ ¬ Shadowed key entries := by
  have hmem : ∀ a, a ∈ evidence key (beforeKey key entries) ↔
      a ∈ evidence key entries ∧ compareKeys a.key key = .lt := by
    intro a
    rw [evidence, List.mem_filter, mem_beforeKey hinc hpresent, evidence, List.mem_filter]
    tauto
  have hcompared : compared key none entries =
      (evidence key (beforeKey key entries)).map Entry.schema := rfl
  rw [hcompared]
  constructor
  · rintro hagree ⟨-, a, ha, b, hb, halt, hblt, hne⟩
    exact hne (hagree _ (List.mem_map_of_mem ((hmem a).mpr ⟨ha, halt⟩)) _
      (List.mem_map_of_mem ((hmem b).mpr ⟨hb, hblt⟩)))
  · intro hclear _ hamap _ hbmap
    obtain ⟨a, ha, rfl⟩ := List.mem_map.mp hamap
    obtain ⟨b, hb, rfl⟩ := List.mem_map.mp hbmap
    obtain ⟨haev, halt⟩ := (hmem a).mp ha
    obtain ⟨hbev, hblt⟩ := (hmem b).mp hb
    by_contra hne
    exact hclear ⟨hpresent, a, haev, b, hbev, halt, hblt, hne⟩

theorem compared_absent (h : ∀ entry ∈ entries, entry.key ≠ key) :
    compared key none entries = (evidence key entries).map Entry.schema := by
  rw [compared, beforeKey_absent h]
  rfl

/-- A schema moves to a key that differs in its version, where the profile says so. -/
theorem ValidEntry.rebind {other : TypeTreeSchemaKey} {schema : TypeTreeType}
    (h : ValidEntry sha256 other schema) (hkey : validateKey (some key) = .ok key)
    (hmatch : schemaKeysMatchExceptUnityVersion other key = true)
    (hprofile : typetreeSchemaValidateKnownProfile sha256 key.unityVersion key.classId key.typeHash
      schema = .valid) : ValidEntry sha256 key schema := by
  have hadm := h.admitted
  simp only [schemaKeysMatchExceptUnityVersion, Bool.and_eq_true, beq_iff_eq] at hmatch
  obtain ⟨⟨⟨⟨⟨⟨⟨⟨hversion, -⟩, htypeId⟩, hindex⟩, -⟩, hstripped⟩, href⟩, hscript⟩, htype⟩ := hmatch
  have hadmitted : schemaAdmitted sha256 key schema = true := by
    simp only [schemaAdmitted, schemaMatchesKey, schemaWithinLimits, Bool.and_eq_true] at hadm ⊢
    rw [hversion, htypeId, hindex, hstripped, href, hscript, htype] at hadm
    exact ⟨hadm.1, by rw [hprofile]; rfl⟩
  unfold ValidEntry validateSchema
  rw [hkey]
  exact if_pos hadmitted

/-- Adding an entry is refused for want of room or memory alone. -/
theorem addEntry_status {schema : TypeTreeType} {count : ℕ} {status : TypeTreeSchemaStatus}
    {registry' : TypeTreeSchemaRegistry} {n' : ℕ} (hvalid : ValidEntry sha256 key schema)
    (h : addEntry key schema count answers registry n = .error status registry' n') :
    status = .allocationFailed ∨ status = .limitExceeded := by
  have hdenied : ∀ {α : Type} {x : Call TypeTreeSchemaStatus TypeTreeSchemaRegistry α}
      {s s' : TypeTreeSchemaRegistry} {a : α} {m m' : ℕ} {t : TypeTreeSchemaRegistry},
      Call.Yields .allocationFailed x s a s' → x answers s m = .error status t m' →
        status = .allocationFailed := by
    intro α x s s' a m m' t hyields herr
    rcases hyields answers m with ⟨_, hok⟩ | ⟨-, _, _, hden⟩
    · rw [herr] at hok
      cases hok
    · rw [herr] at hden
      cases hden
      rfl
  rcases Call.bind_eq_error.mp h with h | ⟨ownedKey, _, _, -, h⟩
  · exact Or.inl (hdenied (yields_ownedKeyCopy registry hvalid.key_valid) h)
  rcases Call.bind_eq_error.mp h with h | ⟨ownedSchema, registry₂, _, -, h⟩
  · exact Or.inl (hdenied (yields_cloneSchema _ hvalid) h)
  rcases Call.bind_eq_error.mp h with h | ⟨_, _, _, -, h⟩
  · by_cases hroom : count + 1 ≤ maxEntries
    · exact Or.inl (hdenied (yields_registryReserve hroom) h)
    · rw [registryReserve, Call.bind_apply, Call.andThen, Call.require, if_neg hroom] at h
      cases h
      exact Or.inr rfl
  · rcases Call.bind_eq_error.mp h with h | ⟨_, _, _, -, h⟩
    · cases h
    · exact absurd h (Call.replace_ne_error _ _ _ _ _ _ _)

/-- What learning under a key that is not there does. -/
theorem learn_absent {schema : TypeTreeType} (hvalid : ValidEntry sha256 key schema)
    (habsent : ∀ entry ∈ registry.entries, entry.key ≠ key) :
    typetreeSchemaRegistryLearn sha256 (some key) (some schema) .pinnedInput answers registry n =
      addEntry key schema registry.entries.length answers registry n := by
  have hfind : SortedAssoc.find? compareKeys Entry.key registry.entries key = none :=
    SortedAssoc.find?_eq_none_iff.mpr fun entry hmem he =>
      habsent entry hmem (Std.LawfulEqCmp.compare_eq_iff_eq.mp he)
  have hvalidate : validateSchema sha256 (some key) (some schema) = .ok (key, schema) := hvalid
  unfold typetreeSchemaRegistryLearn learnAdmitted
  simp only [hvalidate, Call.bind_apply, Call.andThen, Call.require, Call.ofExcept, Call.current,
    hfind, true_or, if_true]

theorem entries_learn_absent {schema : TypeTreeType} {registry' : TypeTreeSchemaRegistry} {n' : ℕ}
    {u : Unit} (habsent : ∀ entry ∈ registry.entries, entry.key ≠ key)
    (h : typetreeSchemaRegistryLearn sha256 (some key) (some schema) .pinnedInput answers registry n
      = .ok u registry' n') :
    registry'.entries = SortedAssoc.insert compareKeys Entry.key registry.entries ⟨key, schema⟩ := by
  obtain ⟨entry, hkey, hschema, -, rfl⟩ := learn_eq_ok h
  obtain rfl : key = entry.key := Option.some_inj.mp hkey
  obtain rfl : schema = entry.schema := Option.some_inj.mp hschema
  have hfind : SortedAssoc.find? compareKeys Entry.key registry.entries entry.key = none :=
    SortedAssoc.find?_eq_none_iff.mpr fun other hmem he =>
      habsent other hmem (Std.LawfulEqCmp.compare_eq_iff_eq.mp he)
  rw [learned_entries, absorb, hfind]

/-! ## The binding -/

theorem scan_registry (hwf : registry.WellFormed sha256) :
    scanForBinding key none registry.entries =
      if Agree (compared key none registry.entries) then
        if ∃ entry ∈ registry.entries, entry.key = key then .ok none
        else
          match (compared key none registry.entries).getLast? with
          | none => .error .notFound
          | some schema => .ok (some schema)
      else .error .keyConflict :=
  scanForBinding_eq (fun entry hmem => (hwf.valid entry hmem).referenceNames) nofun

theorem bind_present (hwf : registry.WellFormed sha256) (hkey : validateKey (some key) = .ok key)
    (hpresent : ∃ entry ∈ registry.entries, entry.key = key) :
    typetreeSchemaRegistryBindExactVersion sha256 (some key) .pinnedInput answers registry n =
      if Shadowed key registry.entries then .error .keyConflict registry n
      else .ok () registry n := by
  have hagree := agree_iff_of_present hwf.increasing hpresent
  rw [bindExactVersion_apply hkey, scan_registry hwf]
  by_cases hshadow : Shadowed key registry.entries
  · rw [if_neg (fun h => hagree.mp h hshadow), if_pos hshadow]
  · rw [if_pos (hagree.mpr hshadow), if_pos hpresent, if_neg hshadow]

/-- The binding of a key that is not there, when all its evidence agrees. -/
theorem bind_absent (hwf : registry.WellFormed sha256) (hkey : validateKey (some key) = .ok key)
    (habsent : ∀ entry ∈ registry.entries, entry.key ≠ key)
    (hagree : Agree ((evidence key registry.entries).map Entry.schema)) :
    (∀ registry' n', typetreeSchemaRegistryBindExactVersion sha256 (some key) .pinnedInput answers
      registry n ≠ .error .keyConflict registry' n') ∧
    ∀ registry' n', typetreeSchemaRegistryBindExactVersion sha256 (some key) .pinnedInput answers
        registry n = .ok () registry' n' →
      ∃ schema, evidence key registry.entries ≠ [] ∧
        (∀ entry ∈ evidence key registry.entries, entry.schema = schema) ∧
        typetreeSchemaValidateKnownProfile sha256 key.unityVersion key.classId key.typeHash schema =
          .valid ∧
        registry'.entries =
          SortedAssoc.insert compareKeys Entry.key registry.entries ⟨key, schema⟩ := by
  have hnone : ¬ ∃ entry ∈ registry.entries, entry.key = key := fun ⟨entry, hmem, he⟩ =>
    habsent entry hmem he
  rw [bindExactVersion_apply hkey, scan_registry hwf, compared_absent habsent, if_pos hagree,
    if_neg hnone]
  cases hlast : ((evidence key registry.entries).map Entry.schema).getLast? with
  | none => exact ⟨nofun, nofun⟩
  | some schema =>
      have hmem : schema ∈ (evidence key registry.entries).map Entry.schema :=
        List.mem_of_getLast? hlast
      -- the last schema of the evidence stands for all of it
      obtain ⟨own, hown, rfl⟩ := List.mem_map.mp hmem
      obtain ⟨hentry, hmatch⟩ := List.mem_filter.mp hown
      have hall : ∀ entry ∈ evidence key registry.entries, entry.schema = own.schema :=
        fun entry hentry => hagree _ (List.mem_map_of_mem hentry) _ hmem
      dsimp only
      by_cases hprofile : typetreeSchemaValidateKnownProfile sha256 key.unityVersion key.classId
        key.typeHash own.schema = .valid
      -- a schema that fits one version fits the key, once its profile is checked
      · have hvalid := (hwf.valid own hentry).rebind hkey hmatch hprofile
        refine ⟨fun registry' n' h => ?_, fun registry' n' h => ?_⟩
        · rcases Call.bind_eq_error.mp h with h | ⟨_, _, _, hrequire, h⟩
          · rw [Call.require, if_pos hprofile] at h
            cases h
          · obtain ⟨-, rfl, rfl⟩ := Call.require_eq_ok.mp hrequire
            rw [learn_absent hvalid habsent] at h
            rcases addEntry_status hvalid h with h | h
            · cases h
            · cases h
        · obtain ⟨-, h⟩ := Call.require_bind_eq_ok.mp h
          exact ⟨own.schema, List.ne_nil_of_mem hown, hall, hprofile,
            entries_learn_absent habsent h⟩
      · refine ⟨fun registry' n' h => ?_, fun registry' n' h => ?_⟩
        · rcases Call.bind_eq_error.mp h with h | ⟨_, _, _, hrequire, -⟩
          · rw [Call.require, if_neg hprofile] at h
            cases h
          · exact hprofile (Call.require_eq_ok.mp hrequire).1
        · exact absurd (Call.require_bind_eq_ok.mp h).1 hprofile

/-- **A binding goes by its evidence unless the key is shadowed.** -/
theorem bindExactVersion_iff (hreach : Reachable sha256 registry)
    (hkey : validateKey (some key) = .ok key) :
    BindsByEvidence sha256 registry key ↔ ¬ Shadowed key registry.entries := by
  have hwf := hreach.wellFormed
  constructor
  · intro hbinds hshadow
    have hok := hbinds.present hshadow.1 Call.granted 0
    rw [bind_present hwf hkey hshadow.1, if_pos hshadow] at hok
    cases hok
  · intro hclear
    refine ⟨fun hpresent answers n => ?_, fun habsent answers n registry' n' hok => ?_,
      fun answers n => ?_⟩
    · rw [bind_present hwf hkey hpresent, if_neg hclear]
    · by_cases hagree : Agree ((evidence key registry.entries).map Entry.schema)
      · exact (bind_absent hwf hkey habsent hagree).2 registry' n' hok
      · rw [bindExactVersion_apply hkey, scan_registry hwf, compared_absent habsent,
          if_neg hagree] at hok
        cases hok
    · by_cases hpresent : ∃ entry ∈ registry.entries, entry.key = key
      · rw [bind_present hwf hkey hpresent, if_neg hclear]
        refine ⟨nofun, fun ⟨habsent, _⟩ => ?_⟩
        obtain ⟨entry, hmem, he⟩ := hpresent
        exact absurd he (habsent entry hmem)
      · have habsent : ∀ entry ∈ registry.entries, entry.key ≠ key :=
          fun entry hmem he => hpresent ⟨entry, hmem, he⟩
        by_cases hagree : Agree ((evidence key registry.entries).map Entry.schema)
        · refine ⟨fun ⟨registry', n', h⟩ => ?_, fun ⟨_, a, ha, b, hb, hne⟩ => ?_⟩
          · exact absurd h ((bind_absent hwf hkey habsent hagree).1 registry' n')
          · exact absurd (hagree _ (List.mem_map_of_mem ha) _ (List.mem_map_of_mem hb)) hne
        · rw [bindExactVersion_apply hkey, scan_registry hwf, compared_absent habsent,
            if_neg hagree]
          refine ⟨fun _ => ⟨habsent, ?_⟩, fun _ => ⟨registry, n, rfl⟩⟩
          by_contra hsame
          refine hagree fun a hamap b hbmap => ?_
          obtain ⟨a, ha, rfl⟩ := List.mem_map.mp hamap
          obtain ⟨b, hb, rfl⟩ := List.mem_map.mp hbmap
          by_contra hne
          exact hsame ⟨a, ha, b, hb, hne⟩

end Binding

/-! ## A shadowed key -/

def versionKey (version : String) : TypeTreeSchemaKey :=
  { sampleKey with unityVersion := ascii version }

def versionLearn (version : String) (dependency : Int32) : RegistryCall :=
  .learn (some (versionKey version)) (some { sampleSchema with dependencies := [dependency] })
    .pinnedInput

/-- Three versions of a key, the first two with different schemas. -/
def shadowedRegistry : TypeTreeSchemaRegistry :=
  ([versionLearn "1" 3, versionLearn "2" 4, versionLearn "3" 3].foldl
    (fun registry c => (c.run lastBytesDigest Call.granted registry 0).state) .init)

theorem reachable_shadowedRegistry : Reachable lastBytesDigest shadowedRegistry :=
  .call (versionLearn "3" 3) Call.granted 0 (.call (versionLearn "2" 4) Call.granted 0
    (.call (versionLearn "1" 3) Call.granted 0 .init))

theorem bindExactVersion_shadowed :
    Reachable lastBytesDigest shadowedRegistry ∧
      validateKey (some (versionKey "3")) = .ok (versionKey "3") ∧
      (∃ entry ∈ shadowedRegistry.entries, entry.key = versionKey "3") ∧
      typetreeSchemaRegistryBindExactVersion lastBytesDigest (some (versionKey "3")) .pinnedInput
        Call.granted shadowedRegistry 0 = .error .keyConflict shadowedRegistry 0 ∧
      ¬ BindsByEvidence lastBytesDigest shadowedRegistry (versionKey "3") := by
  have hpresent : ∃ entry ∈ shadowedRegistry.entries, entry.key = versionKey "3" := by
    decide +kernel
  have hrun : typetreeSchemaRegistryBindExactVersion lastBytesDigest (some (versionKey "3"))
      .pinnedInput Call.granted shadowedRegistry 0 = .error .keyConflict shadowedRegistry 0 := by
    decide +kernel
  refine ⟨reachable_shadowedRegistry, by decide, hpresent, hrun, fun hbinds => ?_⟩
  have hok := hbinds.present hpresent Call.granted 0
  rw [hrun] at hok
  cases hok

/-- The first of the three is bound by its evidence. -/
theorem bindExactVersion_iff_first :
    BindsByEvidence lastBytesDigest shadowedRegistry (versionKey "1") :=
  (bindExactVersion_iff reachable_shadowedRegistry (by decide)).mpr (by decide +kernel)

end UnityCommon.Registry
