import UnityCommon.Lib.Triple
import UnityCommon.Player.BuildSettingsCodec

/-!
# Decoding build settings

The decoder succeeds on the files whose one object encodes a record, with that
record, and on no others; otherwise the caller's record stays.
-/

namespace UnityCommon.BuildSettings

open UnityCommon.TypeTree UnityCommon.ByteStream
open UnityCommon.Registry (bytesAreZero loadBytes16)

/-- What is decoded of a record. -/
def Record.settings (record : Record) (file : SerializedFile) (object : AssetObjectInfo)
    (unityVersion : CString) : Settings where
  serializedFileVersion := file.version
  targetPlatform := file.targetPlatform
  pathId := object.pathId
  byteOffset := object.byteOffset
  byteSize := object.byteSize
  sceneCount := record.scenes.length.toUInt32
  preloadedPluginCount := record.preloadedPlugins.length.toUInt32
  enabledVrDeviceCount := record.enabledVrDevices.length.toUInt32
  buildTagCount := record.buildTags.length.toUInt32
  buildGuid := record.buildGuid
  flags := record.flags
  unityVersion := some unityVersion
  graphicsApis := record.graphicsApis
  decoded := true

/-! ## The payload -/

section Payload

variable {s s' : ByteStream} {answers : ℕ → Bool} {n n' : ℕ} {big : Bool} {apis : List Int32}

theorem exact_readerI32s (count : ℕ) :
    Exact 4 (Call.replicate count readerI32) (fun big apis => apis.flatMap (encodeI32 big))
      (fun apis => apis.length = count ∧ ∀ api ∈ apis, True) (List.map id) :=
  (exact_readerI32.weaken 4).replicate (fun _ _ _ => by rw [length_encodeI32]) count

theorem readerGraphicsApis_ok (hs : At 4 big s)
    (h : readerGraphicsApis answers s n = .ok apis s' n') :
    apis.length < 2 ^ 31 ∧ Consumes s s' (encodeApis big apis) := by
  obtain ⟨count, s₁, n₁, hcount, hrest⟩ := Call.bind_eq_ok.mp h
  obtain ⟨rfl, hlt, hread, -⟩ := readerCount_eq_ok.mp hcount
  rw [hs.bigEndian] at hread
  have hs₁ := hs.next hread (by rw [length_encodeCount])
  split at hrest
  case isTrue hzero =>
    obtain ⟨rfl, rfl, -⟩ := Call.pure_eq_ok.mp hrest
    rw [hzero] at hread
    exact ⟨Nat.two_pow_pos 31, hread.trans (Consumes.refl _)⟩
  case isFalse hsome =>
    obtain ⟨-, hrest⟩ := Call.require_bind_eq_ok.mp hrest
    obtain ⟨-, hrest⟩ := Call.request_bind_eq_ok.mp hrest
    obtain ⟨-, values, ⟨rfl, -⟩, rfl, hvalues⟩ :=
      (exact_readerI32s count answers s₁ _ _ s' _ hs₁.position).mp hrest
    rw [hs₁.bigEndian] at hvalues
    rw [List.map_id]
    exact ⟨hlt, hread.trans hvalues⟩

theorem yields_readerGraphicsApis (hs : At 4 big s) (hlt : apis.length < 2 ^ 31)
    (h : Consumes s s' (encodeApis big apis)) :
    Call.Yields .allocationFailed readerGraphicsApis s apis s' := by
  obtain ⟨s₁, hread, hvalues⟩ := h.split
  have hs₁ := hs.next hread (by rw [length_encodeCount])
  have hfour : 4 * apis.length ≤ s₁.remaining := by
    rw [hvalues.remaining]
    refine (four_mul_le apis fun api => ?_).trans (Nat.le_add_right _ _)
    rw [length_encodeI32]
  have hcount : Call.Yields .allocationFailed readerCount s apis.length s₁ := fun answers n =>
    Or.inl ⟨n, readerCount_eq_ok.mpr ⟨rfl, hlt, hs.bigEndian ▸ hread, hfour⟩⟩
  refine hcount.bind ?_
  split
  case isTrue hzero =>
    obtain rfl := List.length_eq_zero_iff.mp hzero
    obtain rfl := hvalues.eq_advance
    exact Call.yields_pure []
  case isFalse hsome =>
    refine (Call.yields_require (by rw [sizeMax]; omega)).bind (Call.yields_request.bind ?_)
    have hyields : Call.Yields .allocationFailed (Call.replicate apis.length readerI32) s₁
        (apis.map id) s' := (exact_readerI32s apis.length).yields hs₁ ⟨rfl, fun _ _ => trivial⟩ hvalues
    rwa [List.map_id] at hyields

theorem exact_readerGuid :
    Exact 4 (readerBytes 16) (fun _ guid => guid.bytes) (fun _ => True) Bytes16.bytes := by
  intro answers s n bytes s' n' _
  rw [exact_readerBytes 16 answers s n bytes s' n' (Nat.mod_one _)]
  refine and_congr_right fun _ => ⟨?_, ?_⟩
  · rintro ⟨_, hlength, rfl, hconsumes⟩
    exact ⟨⟨_, hlength⟩, trivial, rfl, hconsumes⟩
  · rintro ⟨guid, -, rfl, hconsumes⟩
    exact ⟨guid.bytes, guid.length_eq, rfl, hconsumes⟩

theorem loadBytes16_bytes (guid : Bytes16) : loadBytes16 guid.bytes = guid := by
  rw [loadBytes16, dif_pos guid.length_eq]

variable {file : SerializedFile} {object : AssetObjectInfo} {unityVersion : CString}
  {bytes : Text} {settings : Settings}

/-- A payload from its start. -/
theorem at_start (bytes : Text) (big : Bool) : At 4 big ⟨bytes, 0, big⟩ := ⟨rfl, rfl⟩

/-- **What is accepted is an encoding.** -/
theorem readPayload_ok
    (h : readPayload file object unityVersion answers ⟨bytes, 0, big⟩ n = .ok settings s' n') :
    ∃ record : Record, bytes = record.encode big unityVersion ∧
      settings = record.settings file object unityVersion := by
  have harray := aligned_encodeStrings big
  obtain ⟨scenes, s₁, hscenes, hs₁, h₁, h⟩ :=
    exact_readerStringArray.next (at_start bytes big) harray h
  obtain ⟨plugins, s₂, hplugins, hs₂, h₂, h⟩ := exact_readerStringArray.next hs₁ harray h
  obtain ⟨devices, s₃, hdevices, hs₃, h₃, h⟩ := exact_readerStringArray.next hs₂ harray h
  obtain ⟨tags, s₄, htags, hs₄, h₄, h⟩ := exact_readerStringArray.next hs₃ harray h
  obtain ⟨guid, s₅, -, hs₅, h₅, h⟩ :=
    exact_readerGuid.next hs₄ (fun guid => by rw [guid.length_eq]) h
  obtain ⟨flags, s₆, -, hs₆, h₆, h⟩ := exact_readerFlags.next hs₅ (fun flags => by rw [length_encodeFlags]) h
  obtain ⟨version, s₇, -, hs₇, h₇, h⟩ :=
    exact_readerStringView.next hs₆ (aligned_encodeString big) h
  obtain ⟨hversion, h⟩ := Call.require_bind_eq_ok.mp h
  obtain rfl := CString.ext_bytes hversion
  obtain ⟨-, h⟩ := Call.require_bind_eq_ok.mp h
  obtain ⟨-, h⟩ := Call.request_bind_eq_ok.mp h
  obtain ⟨apis, s₈, n₈, hread, h⟩ := Call.bind_eq_ok.mp h
  obtain ⟨hapis, h₈⟩ := readerGraphicsApis_ok hs₇ hread
  have hs₈ := hs₇.next h₈ (aligned_encodeApis big apis)
  rw [Call.bind_apply, Call.andThen, readerAlign4Zero_aligned hs₈.position] at h
  obtain ⟨hend, hpure⟩ := Call.require_bind_eq_ok.mp (Call.current_bind_eq_ok.mp h)
  obtain ⟨rfl, -, -⟩ := Call.pure_eq_ok.mp hpure
  have hall := h₁.trans (h₂.trans (h₃.trans (h₄.trans (h₅.trans (h₆.trans (h₇.trans h₈))))))
  refine ⟨⟨scenes, plugins, devices, tags, guid, flags, apis, hscenes, hplugins, hdevices, htags,
    hapis⟩, ?_, ?_⟩
  · have hunread := hall.unread
    rwa [show s₈.unread = [] from List.drop_eq_nil_of_le hend.ge, List.append_nil] at hunread
  · rw [loadBytes16_bytes]
    rfl

/-- **Every encoding is accepted.** -/
theorem yields_readPayload (record : Record) (hversion : Short unityVersion) :
    Call.Yields .allocationFailed (readPayload file object unityVersion)
      ⟨record.encode big unityVersion, 0, big⟩ (record.settings file object unityVersion)
      ⟨record.encode big unityVersion, (record.encode big unityVersion).length, big⟩ := by
  have harray := aligned_encodeStrings big
  have hstart : Consumes ⟨record.encode big unityVersion, 0, big⟩
      ⟨record.encode big unityVersion, (record.encode big unityVersion).length, big⟩
      (record.encode big unityVersion) := by
    refine ⟨rfl, rfl, (Nat.zero_add _).symm, ?_⟩
    simp [ByteStream.unread]
  have hs₀ := at_start (record.encode big unityVersion) big
  -- the streams between the fields, each at a multiple of four
  obtain ⟨s₁, h₁, hrest⟩ := hstart.split
  obtain ⟨s₂, h₂, hrest⟩ := hrest.split
  obtain ⟨s₃, h₃, hrest⟩ := hrest.split
  obtain ⟨s₄, h₄, hrest⟩ := hrest.split
  obtain ⟨s₅, h₅, hrest⟩ := hrest.split
  obtain ⟨s₆, h₆, hrest⟩ := hrest.split
  obtain ⟨s₇, h₇, h₈⟩ := hrest.split
  have hs₁ := hs₀.next h₁ (harray _)
  have hs₂ := hs₁.next h₂ (harray _)
  have hs₃ := hs₂.next h₃ (harray _)
  have hs₄ := hs₃.next h₄ (harray _)
  have hs₅ := hs₄.next h₅ (by rw [record.buildGuid.length_eq])
  have hs₆ := hs₅.next h₆ (by rw [length_encodeFlags])
  have hs₇ := hs₆.next h₇ (aligned_encodeString big _)
  have hs₈ := hs₇.next h₈ (aligned_encodeApis big _)
  refine (exact_readerStringArray.yields hs₀ record.scenesEncodable h₁).bind ?_
  refine (exact_readerStringArray.yields hs₁ record.preloadedPluginsEncodable h₂).bind ?_
  refine (exact_readerStringArray.yields hs₂ record.enabledVrDevicesEncodable h₃).bind ?_
  refine (exact_readerStringArray.yields hs₃ record.buildTagsEncodable h₄).bind ?_
  refine (exact_readerGuid.yields hs₄ trivial h₅).bind ?_
  refine (exact_readerFlags.yields hs₅ trivial h₆).bind ?_
  refine (exact_readerStringView.yields hs₆ hversion h₇).bind ?_
  -- the copy of the version has room for its terminator
  have hlength : unityVersion.bytes.length ≤ sizeMax - 1 := by
    have hlt : unityVersion.bytes.length < 2 ^ 31 := hversion
    rw [sizeMax]
    omega
  refine (Call.yields_require rfl).bind ((Call.yields_require hlength).bind ?_)
  refine Call.yields_request.bind ?_
  refine (yields_readerGraphicsApis hs₇ record.graphicsApisEncodable h₈).bind ?_
  have halign : Call.Yields Status.allocationFailed readerAlign4Zero _ () _ := fun answers n =>
    Or.inl ⟨n, readerAlign4Zero_aligned hs₈.position n⟩
  refine halign.bind (Call.yields_current.bind ((Call.yields_require rfl).bind ?_))
  rw [loadBytes16_bytes]
  exact Call.yields_pure _

end Payload

/-! ## The file -/

/-- The supported type identity, as the record of the object's type has it. -/
structure SupportedType (object : AssetObjectInfo) (type : TypeTreeType) : Prop where
  typeId : type.typeId = classId
  isRefType : type.isRefType = false
  objectScript : type.scriptTypeIndex = object.scriptTypeIndex
  isStripped : type.isStripped = false
  scriptTypeIndex : type.scriptTypeIndex = 0xffff
  scriptIdHash : type.scriptIdHash = .zero
  typeHash : type.typeHash = BuildSettings.typeHash

/-- A structurally valid file of the exact version with one object of the class,
which has the supported type. -/
structure Supported (file : SerializedFile) (object : AssetObjectInfo) : Prop where
  valid : sourceFileIsStructurallyValid file
  version : file.version = serializedFileVersion
  unityVersion : file.unityVersion = some supportedUnityVersion
  only : file.objects.filter (·.typeId = classId) = [object]
  type : ∃ type ∈ objectType file object, SupportedType object type

/-- The object of the file is the encoding of the record. -/
structure Encodes (file : SerializedFile) (object : AssetObjectInfo) (record : Record) : Prop
    extends Supported file object where
  range : objectRangeIsValid file object
  bytes : objectBytes file object = record.encode file.bigEndian supportedUnityVersion

theorem bytes16_eq_zero_iff {hash : Bytes16} : bytesAreZero hash.bytes = true ↔ hash = .zero := by
  rw [bytesAreZero_iff, hash.length_eq]
  exact ⟨fun h => Bytes16.ext_bytes h, fun h => congrArg Bytes16.bytes h⟩

theorem validateTypeIdentity_eq_ok {file : SerializedFile} {object : AssetObjectInfo} :
    validateTypeIdentity file object = .ok () ↔
      ∃ type ∈ objectType file object, SupportedType object type := by
  unfold validateTypeIdentity
  cases objectType file object with
  | none => simp
  | some type =>
      simp only [Option.mem_def, Option.some.injEq, exists_eq_left']
      constructor
      · intro h
        split_ifs at h with hrecord hidentity
        simp only [not_or, not_not, Bool.not_eq_true, Bool.not_eq_false] at hrecord hidentity
        obtain ⟨htypeId, href, hscript⟩ := hrecord
        obtain ⟨hstripped, hindex, hzero, hhash⟩ := hidentity
        exact ⟨htypeId, href, hscript, hstripped, hindex, bytes16_eq_zero_iff.mp hzero, hhash⟩
      · intro h
        have hzero := bytes16_eq_zero_iff.mpr h.scriptIdHash
        rw [if_neg, if_neg]
        · simp [h.isStripped, h.scriptTypeIndex, hzero, h.typeHash]
        · simp [h.typeId, h.isRefType, h.objectScript]

/-- **The loop finds the one object of the class.** -/
theorem findBuildSettings_eq_ok {objects : List AssetObjectInfo} {found : Option AssetObjectInfo}
    {object : AssetObjectInfo} :
    findBuildSettings found objects = .ok object ↔
      found.toList ++ objects.filter (·.typeId = classId) = [object] := by
  induction objects generalizing found with
  | nil => cases found <;> simp [findBuildSettings]
  | cons next objects ih =>
      unfold findBuildSettings
      by_cases hclass : next.typeId = classId
      · rw [if_neg (not_not_intro hclass), List.filter_cons_of_pos (by simpa using hclass)]
        cases found with
        | none => exact ih
        | some first => simp
      · rw [if_pos hclass, List.filter_cons_of_neg (by simpa using hclass)]
        exact ih

theorem Encodes.byteSize_ne_zero {file : SerializedFile} {object : AssetObjectInfo}
    {record : Record} (h : Encodes file object record) : object.byteSize ≠ 0 := by
  intro hzero
  have hempty := h.bytes
  rw [objectBytes, hzero] at hempty
  have hlength := congrArg List.length hempty
  simp only [UInt32.toNat_zero, List.take_zero, List.length_nil, Record.encode, encodeStrings,
    List.length_append, length_encodeCount] at hlength
  omega

section Decode

variable {file : SerializedFile} {object : AssetObjectInfo} {record : Record}
  {destination : Settings} {answers : ℕ → Bool} {n n' : ℕ}

theorem decode_ok {u : Unit} {after : Settings}
    (h : unityPlayerBuildSettingsDecode file answers destination n = .ok u after n') :
    ∃ object record, Encodes file object record := by
  cases hversion : file.unityVersion with
  | none =>
      rw [unityPlayerBuildSettingsDecode, hversion] at h
      nomatch h
  | some unityVersion =>
      rw [unityPlayerBuildSettingsDecode, hversion, Call.ofOption_some_bind] at h
      obtain ⟨hvalid, h⟩ := Call.require_bind_eq_ok.mp h
      obtain ⟨hfile, h⟩ := Call.require_bind_eq_ok.mp h
      obtain ⟨rfl, h⟩ := Call.require_bind_eq_ok.mp h
      obtain ⟨object, hfind, h⟩ := Call.ofExcept_bind_eq_ok.mp h
      obtain ⟨temporary, _, _, hpayload, -⟩ := Call.bind_eq_ok.mp h
      obtain ⟨⟨hrange, -⟩, hpayload⟩ := Call.require_bind_eq_ok.mp hpayload
      obtain ⟨_, htype, hpayload⟩ := Call.ofExcept_bind_eq_ok.mp hpayload
      obtain ⟨settings, _, _, hread, -⟩ := Call.within_bind_eq_ok.mp hpayload
      obtain ⟨record, hbytes, -⟩ := readPayload_ok hread
      exact ⟨object, record, ⟨hvalid, hfile, hversion, findBuildSettings_eq_ok.mp hfind,
        validateTypeIdentity_eq_ok.mp htype⟩, hrange, hbytes⟩

theorem yields_decode (h : Encodes file object record) :
    Call.Yields .allocationFailed (unityPlayerBuildSettingsDecode file) destination ()
      (record.settings file object supportedUnityVersion) := by
  have hshort : Short supportedUnityVersion := by
    show supportedUnityVersion.bytes.length < 2 ^ 31
    decide
  have hpayload : Call.Yields .allocationFailed
      (readPayload file object supportedUnityVersion) ⟨objectBytes file object, 0, file.bigEndian⟩
      _ _ := h.bytes ▸ yields_readPayload record hshort
  rw [unityPlayerBuildSettingsDecode, h.unityVersion, Call.ofOption_some_bind]
  refine (Call.yields_require h.valid).bind ((Call.yields_require h.version).bind ?_)
  refine (Call.yields_require rfl).bind ?_
  have hfind : findBuildSettings none file.objects = .ok object :=
    findBuildSettings_eq_ok.mpr h.only
  refine (Call.yields_ofExcept hfind).bind ?_
  have hdecode : Call.Yields .allocationFailed
      (decodePayload file object supportedUnityVersion) destination
      (record.settings file object supportedUnityVersion) destination := by
    refine (Call.yields_require ⟨h.range, h.byteSize_ne_zero⟩).bind ?_
    refine (Call.yields_ofExcept (validateTypeIdentity_eq_ok.mpr h.type)).bind ?_
    exact (Call.yields_within hpayload).bind (Call.yields_pure _)
  exact hdecode.bind Call.yields_replace

theorem atomic_decode (file : SerializedFile) :
    Call.Atomic (unityPlayerBuildSettingsDecode file) := by
  have hpayload : ∀ object unityVersion,
      Call.Keeps (decodePayload file object unityVersion : Call Status Settings Settings) :=
    fun object unityVersion => (Call.keeps_require _ _).bind fun _ =>
      (Call.keeps_ofExcept _).bind fun _ => (Call.keeps_within _ _).bind fun _ => Call.keeps_pure _
  refine Call.Atomic.bind (Call.keeps_ofOption _ _) fun unityVersion => ?_
  refine Call.Atomic.bind (Call.keeps_require _ _) fun _ => ?_
  refine Call.Atomic.bind (Call.keeps_require _ _) fun _ => ?_
  refine Call.Atomic.bind (Call.keeps_require _ _) fun _ => ?_
  refine Call.Atomic.bind (Call.keeps_ofExcept _) fun object => ?_
  refine Call.Atomic.bind (hpayload object unityVersion) fun temporary => ?_
  intro answers s n e s' n' herror
  exact absurd herror (Call.replace_ne_error _ answers s n e s' n')

end Decode

/-- **Decoding is inverse to the encoding**: it succeeds, with what the record
says, exactly on the files that encode one, if no allocation is denied; and what
it reports otherwise leaves the caller's record alone. -/
theorem buildSettingsDecode_exact (file : SerializedFile) (destination : Settings)
    (answers : ℕ → Bool) (n : ℕ) :
    (unityPlayerBuildSettingsDecode file answers destination n).Ends
      (fun _ after => (∃ object record, Encodes file object record) ∧
        ∀ object record, Encodes file object record →
          after = record.settings file object supportedUnityVersion)
      fun status after => after = destination ∧
        ((∃ object record, Encodes file object record) →
          status = .allocationFailed ∧ ∃ i, answers i = false) := by
  cases hrun : unityPlayerBuildSettingsDecode file answers destination n with
  | ok u after n' =>
      exact ⟨decode_ok hrun, fun object record h => ((yields_decode h).unique hrun).2⟩
  | error status after n' =>
      refine ⟨atomic_decode file answers destination n status after n' hrun, ?_⟩
      rintro ⟨object, record, hencodes⟩
      rcases yields_decode hencodes answers n with ⟨n₁, hok⟩ | ⟨hdenied, _, _, herror⟩
      · rw [hrun] at hok
        nomatch hok
      · rw [hrun] at herror
        obtain ⟨rfl, -, -⟩ := Call.Result.error.inj herror
        exact ⟨rfl, hdenied⟩

/-! ## A file with build settings -/

def sampleRecord : Record where
  scenes := [cstr "Assets/a.unity", cstr "b"]
  preloadedPlugins := []
  enabledVrDevices := [cstr "None"]
  buildTags := []
  buildGuid := ⟨List.replicate 16 3, rfl⟩
  flags := Flags.ofOrdered (true :: List.replicate 13 false ++ [true])
  graphicsApis := [2, 18]
  scenesEncodable := ⟨by decide, by decide⟩
  preloadedPluginsEncodable := ⟨by decide, by decide⟩
  enabledVrDevicesEncodable := ⟨by decide, by decide⟩
  buildTagsEncodable := ⟨by decide, by decide⟩
  graphicsApisEncodable := by decide

def sampleObject : AssetObjectInfo where
  pathId := 1
  byteOffset := 4
  byteSize := (sampleRecord.encode true supportedUnityVersion).length.toUInt32
  typeIdOrIndex := 0
  typeId := classId
  scriptTypeIndex := 0xffff
  oldTypeId := 0
  stripped := 0

/-- The payload stands behind a header and four bytes of other data. -/
def sampleFile : SerializedFile :=
  let rawData := List.replicate 52 0 ++ sampleRecord.encode true supportedUnityVersion
  { SerializedFile.closed with
    fileSize := rawData.length.toUInt64
    version := serializedFileVersion
    dataOffset := 48
    bigEndian := true
    unityVersion := some supportedUnityVersion
    targetPlatform := 19
    types := [{
      typeId := classId
      isStripped := false
      scriptTypeIndex := 0xffff
      scriptIdHash := .zero
      typeHash
      nodes := []
      stringBuffer := []
      dependencies := []
      isRefType := false
      refClassName := none
      refNamespace := none
      refAsmName := none }]
    objects := [sampleObject]
    rawData }

theorem sampleFile_encodes : Encodes sampleFile sampleObject sampleRecord where
  valid := by decide +kernel
  version := rfl
  unityVersion := rfl
  only := by decide +kernel
  type := ⟨_, rfl, rfl, rfl, rfl, rfl, rfl, rfl, rfl⟩
  range := by decide +kernel
  bytes := by decide +kernel

theorem buildSettingsDecode_exact_sample :
    ∀ destination, ∃ n, unityPlayerBuildSettingsDecode sampleFile Call.granted destination 0 =
      .ok () (sampleRecord.settings sampleFile sampleObject supportedUnityVersion) n := by
  intro destination
  have hencodes := sampleFile_encodes
  -- the file is not unfolded from here on
  generalize sampleFile = file at hencodes ⊢
  have hends := buildSettingsDecode_exact file destination Call.granted 0
  cases hrun : unityPlayerBuildSettingsDecode file Call.granted destination 0 with
  | ok u after n =>
      rw [hrun] at hends
      obtain rfl := hends.2 _ _ hencodes
      exact ⟨n, rfl⟩
  | error status after n =>
      rw [hrun] at hends
      obtain ⟨-, i, hdenied⟩ := hends.2 ⟨_, _, hencodes⟩
      cases hdenied

end UnityCommon.BuildSettings
