import UnityCommon.Common.StreamExact
import UnityCommon.Player.BuildSettings

/-!
# The encoding of build settings

What the payload of an object encodes, and that the reader accepts its encodings
and nothing else. Every part but the flags is a multiple of four bytes long, so
that a string is padded alike wherever it stands.
-/

namespace UnityCommon.BuildSettings

open UnityCommon.ByteStream
open UnityCommon.Registry (bytesAreZero loadBytes16)

/-! ## The encoding -/

def zeros (count : ℕ) : Text := List.replicate count 0

/-- A number below `2 ^ 31`. -/
def encodeCount (big : Bool) (count : ℕ) : Text := storeU32 big count.toUInt32

def encodeI32 (big : Bool) (value : Int32) : Text := storeU32 big value.toUInt32

def encodeString (big : Bool) (name : CString) : Text :=
  encodeCount big name.bytes.length ++ (name.bytes ++ zeros (padding name.bytes.length))

def encodeStrings (big : Bool) (names : List CString) : Text :=
  encodeCount big names.length ++ names.flatMap (encodeString big)

def encodeBoolean (value : Bool) : Text := [if value then 1 else 0]

/-- The flags in the order of the payload. -/
def Flags.ordered (flags : Flags) : List Bool :=
  [flags.hasProVersion, flags.isNoWatermarkBuild, flags.isPrototypingBuild,
    flags.isEducationalBuild, flags.isEmbedded, flags.isTrial, flags.hasPublishingRights,
    flags.hasShadows, flags.hasSoftShadows, flags.hasLocalLightShadows, flags.hasAdvancedVersion,
    flags.enableDynamicBatching, flags.isDebugBuild, flags.usesOnMouseEvents,
    flags.hasClusterRendering]

def encodeFlags (flags : Flags) : Text :=
  flags.ordered.flatMap encodeBoolean ++ zeros (padding booleanCount)

def encodeApis (big : Bool) (apis : List Int32) : Text :=
  encodeCount big apis.length ++ apis.flatMap (encodeI32 big)

/-- The lengths are signed numbers of the payload. -/
def Short (name : CString) : Prop := name.bytes.length < 2 ^ 31

instance (name : CString) : Decidable (Short name) :=
  inferInstanceAs (Decidable (name.bytes.length < 2 ^ 31))

structure Encodable (names : List CString) : Prop where
  count : names.length < 2 ^ 31
  short : ∀ name ∈ names, Short name

/-- What a payload says, the version apart, which is the file's. -/
structure Record where
  scenes : List CString
  preloadedPlugins : List CString
  enabledVrDevices : List CString
  buildTags : List CString
  buildGuid : Bytes16
  flags : Flags
  graphicsApis : List Int32
  scenesEncodable : Encodable scenes
  preloadedPluginsEncodable : Encodable preloadedPlugins
  enabledVrDevicesEncodable : Encodable enabledVrDevices
  buildTagsEncodable : Encodable buildTags
  graphicsApisEncodable : graphicsApis.length < 2 ^ 31

def Record.encode (record : Record) (big : Bool) (unityVersion : CString) : Text :=
  encodeStrings big record.scenes ++ (encodeStrings big record.preloadedPlugins ++
    (encodeStrings big record.enabledVrDevices ++ (encodeStrings big record.buildTags ++
      (record.buildGuid.bytes ++ (encodeFlags record.flags ++
        (encodeString big unityVersion ++ encodeApis big record.graphicsApis))))))

/-! ## Lengths -/

theorem padding_eq (position : ℕ) : padding position = (4 - position % 4) % 4 := by
  unfold padding
  dsimp only
  split <;> omega

theorem add_padding (position : ℕ) : (position + padding position) % 4 = 0 := by
  rw [padding_eq]
  omega

theorem padding_congr {a b : ℕ} (h : a % 4 = b % 4) : padding a = padding b := by
  rw [padding_eq, padding_eq, h]

@[simp] theorem length_zeros (count : ℕ) : (zeros count).length = count := List.length_replicate

@[simp] theorem length_encodeCount (big : Bool) (count : ℕ) : (encodeCount big count).length = 4 :=
  length_storeU32 _ _

@[simp] theorem length_encodeI32 (big : Bool) (value : Int32) : (encodeI32 big value).length = 4 :=
  length_storeU32 _ _

theorem length_encodeString (big : Bool) (name : CString) :
    (encodeString big name).length = 4 + (name.bytes.length + padding name.bytes.length) := by
  simp [encodeString]

theorem aligned_encodeString (big : Bool) (name : CString) :
    (encodeString big name).length % 4 = 0 := by
  have h := add_padding name.bytes.length
  rw [length_encodeString]
  omega

/-- Elements that are aligned make a list that is. -/
theorem aligned_flatMap {α : Type} {encode : α → Text} (values : List α)
    (h : ∀ value, (encode value).length % 4 = 0) : (values.flatMap encode).length % 4 = 0 := by
  induction values with
  | nil => rfl
  | cons value values ih =>
      have hvalue := h value
      rw [List.flatMap_cons, List.length_append]
      omega

/-- A list takes four bytes an element at least. -/
theorem four_mul_le {α : Type} {encode : α → Text} (values : List α)
    (h : ∀ value, 4 ≤ (encode value).length) :
    4 * values.length ≤ (values.flatMap encode).length := by
  induction values with
  | nil => exact Nat.le_refl _
  | cons value values ih =>
      have hvalue := h value
      rw [List.flatMap_cons, List.length_append, List.length_cons]
      omega

theorem aligned_encodeStrings (big : Bool) (names : List CString) :
    (encodeStrings big names).length % 4 = 0 := by
  have h := aligned_flatMap names (aligned_encodeString big)
  rw [encodeStrings, List.length_append, length_encodeCount]
  omega

theorem aligned_encodeApis (big : Bool) (apis : List Int32) :
    (encodeApis big apis).length % 4 = 0 := by
  have h := aligned_flatMap apis fun api => by rw [length_encodeI32 big api]
  rw [encodeApis, List.length_append, length_encodeCount]
  omega

theorem length_encodeFlags (flags : Flags) : (encodeFlags flags).length = 16 := rfl

/-! ## The readers -/

variable {s s' : ByteStream} {answers : ℕ → Bool} {n n' : ℕ}

theorem ofStream_eq_ok {α : Type} {read : ByteStream → Option (α × ByteStream)} {value : α} :
    Reader.ofStream read answers s n = .ok value s' n' ↔ read s = some (value, s') ∧ n' = n := by
  unfold Reader.ofStream
  rw [Call.current_bind_eq_ok]
  simp only [Call.bind_apply, Call.andThen, Call.ofOption]
  cases hread : read s with
  | none => simp
  | some read =>
      simp only [Call.replace, Option.some.injEq, Prod.ext_iff, eq_comm (a := n')]
      exact ⟨fun h => by cases h; exact ⟨⟨rfl, rfl⟩, rfl⟩, by rintro ⟨⟨rfl, rfl⟩, rfl⟩; rfl⟩

theorem exact_readerI32 : Exact 1 readerI32 encodeI32 (fun _ => True) id := by
  intro answers s n value s' n' _
  rw [readerI32, ofStream_eq_ok, readInt32_eq_some, and_comm]
  exact and_congr_right fun _ => ⟨fun h => ⟨value, trivial, rfl, h⟩, by rintro ⟨_, -, rfl, h⟩; exact h⟩

theorem exact_readerBytes (size : ℕ) :
    Exact 1 (readerBytes size) (fun _ => id) (fun bytes => bytes.length = size) id := by
  intro answers s n value s' n' _
  rw [readerBytes, ofStream_eq_ok, readBytes_eq_some, and_comm]
  exact and_congr_right fun _ => ⟨fun h => ⟨value, h.1, rfl, h.2⟩,
    by rintro ⟨_, hlength, rfl, h⟩; exact ⟨hlength, h⟩⟩

theorem exact_relabel {α γ : Type} {alignment : ℕ} {x : Reader α} {encode : Bool → γ → Text}
    {good : γ → Prop} {value : γ → α} (f : Status → Status)
    (hx : Exact alignment x encode good value) :
    Exact alignment (Call.relabel f x) encode good value := by
  intro answers s n a s' n' hs
  rw [Call.relabel_eq_ok]
  exact hx answers s n a s' n' hs

theorem modify_bind_eq_ok {α : Type} {g : ByteStream → ByteStream} {f : Unit → Reader α}
    {value : α} :
    (Call.modify g >>= f) answers s n = .ok value s' n' ↔
      f () answers (g s) n = .ok value s' n' := Iff.rfl

theorem bytesAreZero_iff {bytes : Text} :
    bytesAreZero bytes = true ↔ bytes = zeros bytes.length := by
  rw [bytesAreZero, zeros, List.all_eq_true, List.eq_replicate_iff]
  simp

theorem readerAlign4Zero_eq_ok {u : Unit} :
    readerAlign4Zero answers s n = .ok u s' n' ↔
      n' = n ∧ Consumes s s' (zeros (padding s.position)) := by
  unfold readerAlign4Zero
  rw [Call.current_bind_eq_ok, Call.require_bind_eq_ok, Call.require_bind_eq_ok,
    consumes_iff_window, length_zeros]
  constructor
  · rintro ⟨hle, hzero, hmodify⟩
    have hlength := (consumes_advance (Nat.not_lt.mpr hle)).2
    rw [bytesAreZero_iff, hlength] at hzero
    obtain ⟨-, rfl, rfl⟩ := Call.Result.ok.inj hmodify
    exact ⟨rfl, hle, hzero, rfl⟩
  · rintro ⟨rfl, hle, hzero, rfl⟩
    refine ⟨hle, ?_, rfl⟩
    rw [bytesAreZero_iff, hzero, length_zeros]

/-- From an aligned position there is nothing to skip. -/
theorem readerAlign4Zero_aligned (hs : s.position % 4 = 0) (n : ℕ) :
    readerAlign4Zero answers s n = .ok () s n := by
  rw [readerAlign4Zero_eq_ok, padding_eq, hs]
  exact ⟨rfl, Consumes.refl s⟩

/-- A nonnegative number is the count that it stands for. -/
theorem encodeI32_eq {big : Bool} {value : Int32} (h : 0 ≤ value) :
    encodeI32 big value = encodeCount big value.toNatClampNeg := by
  have hvalue := Int32.ofNat_toNatClampNeg value h
  calc encodeI32 big value = encodeI32 big (.ofNat value.toNatClampNeg) := by rw [hvalue]
    _ = encodeCount big value.toNatClampNeg := rfl

theorem exact_readerStringView :
    Exact 4 readerStringView encodeString Short (·.bytes) := by
  intro answers s n bytes s' n' hs
  unfold readerStringView
  rw [(exact_relabel stringTruncated exact_readerI32).bind_eq_ok (Nat.mod_one _)]
  constructor
  · rintro ⟨value, s₁, -, hsize, h⟩
    dsimp only [id] at h
    obtain ⟨hvalue, h⟩ := Call.require_bind_eq_ok.mp h
    obtain ⟨hle, h⟩ := Call.require_bind_eq_ok.mp (Call.current_bind_eq_ok.mp h)
    obtain ⟨hnul, h⟩ := Call.require_bind_eq_ok.mp h
    obtain ⟨_, s₂, n₂, halign, hpure⟩ := Call.bind_eq_ok.mp (modify_bind_eq_ok.mp h)
    obtain ⟨rfl, rfl, rfl⟩ := Call.pure_eq_ok.mp hpure
    obtain ⟨rfl, hzeros⟩ := readerAlign4Zero_eq_ok.mp (Call.relabel_eq_ok.mp halign)
    obtain ⟨hbytes, hlength⟩ := consumes_advance (Nat.not_lt.mpr hle)
    rw [encodeI32_eq hvalue] at hsize
    refine ⟨rfl, ⟨s₁.window value.toNatClampNeg, hnul⟩, ?_, rfl, ?_⟩
    · exact hlength.trans_lt (Int32.toNatClampNeg_lt value)
    · have hposition : (s₁.advance value.toNatClampNeg).position % 4 =
          value.toNatClampNeg % 4 := by
        have hstart := hsize.position
        rw [length_encodeCount] at hstart
        show (s₁.position + value.toNatClampNeg) % 4 = _
        omega
      rw [padding_congr hposition] at hzeros
      rw [encodeString, hlength]
      exact hsize.trans (hbytes.trans hzeros)
  · rintro ⟨rfl, name, hshort, rfl, hconsumes⟩
    obtain ⟨s₁, hsize, hrest⟩ := hconsumes.split
    obtain ⟨s₂, hbytes, hzeros⟩ := hrest.split
    have hnonneg := Int32.zero_le_ofNat_of_lt hshort
    have hvalue := Int32.toNatClampNeg_ofNat_of_lt hshort
    refine ⟨.ofNat name.bytes.length, s₁, trivial, hsize, Call.require_bind_eq_ok.mpr ⟨hnonneg, ?_⟩⟩
    obtain ⟨hle, hwindow, hnext⟩ := (consumes_iff_window _ _ _).mp hbytes
    rw [Call.current_bind_eq_ok, id, hvalue, hwindow]
    refine Call.require_bind_eq_ok.mpr ⟨hle, Call.require_bind_eq_ok.mpr ⟨name.noNul, ?_⟩⟩
    rw [modify_bind_eq_ok, ← hnext]
    have hposition : name.bytes.length % 4 = s₂.position % 4 := by
      rw [hbytes.position, hsize.position, length_encodeCount]
      omega
    rw [padding_congr hposition] at hzeros
    refine Call.bind_eq_ok.mpr ⟨(), s', n', ?_, rfl⟩
    exact Call.relabel_eq_ok.mpr (readerAlign4Zero_eq_ok.mpr ⟨rfl, hzeros⟩)

theorem readerCount_eq_ok {count : ℕ} :
    readerCount answers s n = .ok count s' n' ↔ n' = n ∧ count < 2 ^ 31 ∧
      Consumes s s' (encodeCount s.bigEndian count) ∧ 4 * count ≤ s'.remaining := by
  unfold readerCount
  rw [exact_readerI32.bind_eq_ok (Nat.mod_one _)]
  constructor
  · rintro ⟨value, s₁, -, hsize, h⟩
    dsimp only [id] at h
    obtain ⟨⟨hvalue, hle⟩, hpure⟩ := Call.require_bind_eq_ok.mp (Call.current_bind_eq_ok.mp h)
    obtain ⟨rfl, rfl, rfl⟩ := Call.pure_eq_ok.mp hpure
    rw [encodeI32_eq hvalue] at hsize
    exact ⟨rfl, Int32.toNatClampNeg_lt value, hsize, by omega⟩
  · rintro ⟨rfl, hlt, hsize, hle⟩
    have hvalue := Int32.toNatClampNeg_ofNat_of_lt hlt
    refine ⟨.ofNat count, s', trivial, hsize, ?_⟩
    rw [Call.current_bind_eq_ok, id, hvalue]
    exact Call.require_bind_eq_ok.mpr
      ⟨⟨Int32.zero_le_ofNat_of_lt hlt, by omega⟩, rfl⟩

/-- **The early check refuses no list that is there.** -/
theorem exact_readerStringArray :
    Exact 4 readerStringArray encodeStrings Encodable (·.length.toUInt32) := by
  intro answers s n count s' n' hs
  have hnames : ∀ size, Exact 4 (Call.replicate size readerStringView) _ _ _ := fun size =>
    exact_readerStringView.replicate (fun big name _ => aligned_encodeString big name) size
  unfold readerStringArray
  rw [Call.bind_eq_ok]
  constructor
  · rintro ⟨size, s₁, n₁, hsize, h⟩
    obtain ⟨rfl, hlt, hcount, -⟩ := readerCount_eq_ok.mp hsize
    have hs₁ := hcount.aligned hs (by rw [length_encodeCount])
    obtain ⟨names, s₂, ⟨rfl, hshort⟩, hread, hpure⟩ := ((hnames size).bind_eq_ok hs₁).mp h
    obtain ⟨rfl, rfl, rfl⟩ := Call.pure_eq_ok.mp hpure
    rw [hcount.bigEndian] at hread
    exact ⟨rfl, names, ⟨hlt, hshort⟩, rfl, hcount.trans hread⟩
  · rintro ⟨rfl, names, ⟨hlt, hshort⟩, rfl, hconsumes⟩
    obtain ⟨s₁, hcount, hread⟩ := hconsumes.split
    have hs₁ := hcount.aligned hs (by rw [length_encodeCount])
    have hfour : 4 * names.length ≤ s₁.remaining := by
      rw [hread.remaining]
      refine (four_mul_le names fun name => ?_).trans (Nat.le_add_right _ _)
      rw [length_encodeString]
      exact Nat.le_add_right _ _
    refine ⟨names.length, s₁, n', readerCount_eq_ok.mpr ⟨rfl, hlt, hcount, hfour⟩, ?_⟩
    rw [← hcount.bigEndian] at hread
    exact ((hnames names.length).bind_eq_ok hs₁).mpr ⟨names, s', ⟨rfl, hshort⟩, hread, rfl⟩

theorem exact_readerBoolean : Exact 1 readerBoolean (fun _ => encodeBoolean) (fun _ => True) id := by
  intro answers s n value s' n' hs
  unfold readerBoolean
  rw [(exact_readerBytes 1).bind_eq_ok hs]
  constructor
  · rintro ⟨bytes, s₁, hlength, hconsumes, h⟩
    obtain ⟨hle, hpure⟩ := Call.require_bind_eq_ok.mp h
    obtain ⟨rfl, rfl, rfl⟩ := Call.pure_eq_ok.mp hpure
    obtain ⟨byte, rfl⟩ := List.length_eq_one_iff.mp hlength
    have hbyte : encodeBoolean (byte != 0) = [byte] := by
      have hlt : byte.toNat ≤ 1 := hle
      rcases Nat.le_one_iff_eq_zero_or_eq_one.mp hlt with hzero | hone
      · rw [UInt8.toNat_inj.mp (hzero.trans UInt8.toNat_zero.symm)]
        rfl
      · rw [UInt8.toNat_inj.mp (hone.trans UInt8.toNat_one.symm)]
        rfl
    refine ⟨rfl, byte != 0, trivial, rfl, ?_⟩
    show Consumes s s₁ (encodeBoolean (byte != 0))
    rw [hbyte]
    exact hconsumes
  · rintro ⟨rfl, value, -, rfl, hconsumes⟩
    refine ⟨encodeBoolean value, s', rfl, hconsumes, Call.require_bind_eq_ok.mpr ?_⟩
    cases value <;> exact ⟨by decide, rfl⟩

theorem Flags.ordered_ofOrdered : ∀ {booleans : List Bool}, booleans.length = booleanCount →
    (Flags.ofOrdered booleans).ordered = booleans
  | [_, _, _, _, _, _, _, _, _, _, _, _, _, _, _], _ => rfl

theorem exact_readerFlags : Exact 4 readerFlags (fun _ => encodeFlags) (fun _ => True) id := by
  intro answers s n flags s' n' hs
  have hbooleans := exact_readerBoolean.replicate (fun _ _ _ => Nat.mod_one _) booleanCount
  have hposition : ∀ {s₁ : ByteStream} {booleans : List Bool}, booleans.length = booleanCount →
      Consumes s s₁ (booleans.flatMap encodeBoolean) → s₁.position % 4 = booleanCount % 4 := by
    intro s₁ booleans hlength hconsumes
    have hflat : (booleans.flatMap encodeBoolean).length = booleans.length := by
      simp [encodeBoolean, List.length_flatMap]
    rw [hconsumes.position, hflat, hlength]
    omega
  unfold readerFlags
  rw [hbooleans.bind_eq_ok (Nat.mod_one _)]
  constructor
  · rintro ⟨booleans, s₁, ⟨hlength, -⟩, hread, h⟩
    obtain ⟨_, s₂, n₂, halign, hpure⟩ := Call.bind_eq_ok.mp h
    obtain ⟨rfl, rfl, rfl⟩ := Call.pure_eq_ok.mp hpure
    obtain ⟨rfl, hzeros⟩ := readerAlign4Zero_eq_ok.mp halign
    rw [padding_congr (hposition hlength hread)] at hzeros
    refine ⟨rfl, .ofOrdered booleans, trivial, by simp, ?_⟩
    show Consumes s s₂ ((Flags.ofOrdered booleans).ordered.flatMap encodeBoolean ++ _)
    rw [Flags.ordered_ofOrdered hlength]
    exact hread.trans hzeros
  · rintro ⟨rfl, flags, -, rfl, hconsumes⟩
    obtain ⟨s₁, hread, hzeros⟩ := hconsumes.split
    refine ⟨flags.ordered, s₁, ⟨rfl, fun _ _ => trivial⟩, hread, ?_⟩
    rw [← padding_congr (hposition rfl hread)] at hzeros
    refine Call.bind_eq_ok.mpr ⟨(), s', n', readerAlign4Zero_eq_ok.mpr ⟨rfl, hzeros⟩, ?_⟩
    rw [List.map_id]
    rfl

end UnityCommon.BuildSettings
