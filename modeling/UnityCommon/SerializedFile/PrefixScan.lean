import UnityCommon.SerializedFile.Spans

/-!
# The prefix query follows the format

The prefix reads through coordinates and not through a cursor, so that its
decoder stays at one place and counts how far into the file it has looked.
-/

namespace UnityCommon.Metadata

/-- How far the query looks, the bytes of the version and the work. -/
@[ext] structure PrefixCost where
  extent : ℕ := 0
  version : ℕ := 0
  work : ℕ := 0

instance : Cost PrefixCost where
  zero := {}
  add d e :=
    { extent := max d.extent e.extent
      version := max d.version e.version
      work := d.work + e.work }
  width _ := 0
  width_zero := Cost.zero_width
  width_add _ _ := rfl

namespace PrefixCost

@[simp] theorem zero_extent : (0 : PrefixCost).extent = 0 := rfl
@[simp] theorem zero_version : (0 : PrefixCost).version = 0 := rfl
@[simp] theorem zero_work : (0 : PrefixCost).work = 0 := rfl

variable (d e : PrefixCost)

@[simp] theorem add_extent : (d + e).extent = max d.extent e.extent := rfl
@[simp] theorem add_version : (d + e).version = max d.version e.version := rfl
@[simp] theorem add_work : (d + e).work = d.work + e.work := rfl

end PrefixCost

/-! ## The format -/

/-- What a header says, in bytes that are all there. -/
def headerView (text : Text) : HeaderView :=
  let metadataSize := readBe64 text 16
  let fileSize := readBe64 text 24
  let dataOffset := readBe64 text 32
  let metadataEnd := v22HeaderSize + metadataSize
  { headerSource := ⟨0, v22HeaderSize⟩
    legacyMetadataSizeSource := ⟨0, 4⟩
    legacyFileSizeSource := ⟨4, 4⟩
    formatVersionSource := ⟨8, 4⟩
    legacyDataOffsetSource := ⟨12, 4⟩
    metadataSizeSource := ⟨16, 8⟩
    fileSizeSource := ⟨24, 8⟩
    dataOffsetSource := ⟨32, 8⟩
    endianSelectorSource := ⟨40, 1⟩
    opaqueSource := ⟨41, 7⟩
    formatVersion := readBe32 text 8
    metadataSize
    fileSize
    dataOffset
    endianSelector := text.getD 40 0
    metadata := ⟨v22HeaderSize, metadataSize⟩
    metadataToDataGap := ⟨metadataEnd, dataOffset - metadataEnd⟩
    data := ⟨dataOffset, fileSize - dataOffset⟩ }

/-- What a version 22 header satisfies in a file of the given size. -/
structure HeaderOk (text : Text) (logicalSize : ℕ) : Prop where
  complete : v22HeaderSize ≤ logicalSize
  version : readBe32 text 8 = 22
  endian : text.getD 40 0 ≤ 1
  fileSize : readBe64 text 24 = logicalSize
  dataOffset : readBe64 text 32 ≤ readBe64 text 24
  metadataSize : readBe64 text 16 ≤ uint64Max - v22HeaderSize
  metadataEnd : v22HeaderSize + readBe64 text 16 ≤ readBe64 text 32

section Format

variable (text : Text)

def headerFormat (logicalSize : ℕ) : Decoder PrefixCost HeaderView := do
  Decoder.require (v22HeaderSize ≤ logicalSize)
  Decoder.spend { extent := v22HeaderSize }
  Decoder.spend { work := v22HeaderSize }
  Decoder.require (readBe32 text 8 = 22)
  Decoder.require (text.getD 40 0 ≤ 1)
  Decoder.require (readBe64 text 24 = logicalSize)
  Decoder.require (readBe64 text 32 ≤ readBe64 text 24)
  Decoder.require (readBe64 text 16 ≤ uint64Max - v22HeaderSize)
  Decoder.require (v22HeaderSize + readBe64 text 16 ≤ readBe64 text 32)
  return headerView text

/-- The view of a prefix whose version has `versionSize` bytes. -/
def prefixViewAt (versionSize : ℕ) : PrefixView :=
  let metadataEnd := v22HeaderSize + readBe64 text 16
  let terminator := v22HeaderSize + versionSize
  { header := headerView text
    metadataPrefixSource := ⟨v22HeaderSize, terminator + 6 - v22HeaderSize⟩
    versionSource := ⟨v22HeaderSize, versionSize⟩
    versionTerminatorSource := ⟨terminator, 1⟩
    targetPlatformSource := ⟨terminator + 1, 4⟩
    typeTreeSource := ⟨terminator + 5, 1⟩
    targetPlatform := readTargetPlatform text (terminator + 1) (text.getD 40 0)
    typeTreeEnabledRaw := text.getD (terminator + 5) 0
    remainingMetadata := ⟨terminator + 6, metadataEnd - (terminator + 6)⟩ }

/-- Bytes before the end of the metadata. -/
def metadataBytes (cursor fieldSize metadataEnd : ℕ) : Decoder PrefixCost Unit := do
  Decoder.require (cursor + fieldSize ≤ metadataEnd)
  Decoder.spend { extent := cursor + fieldSize }

/-- One byte of the version string, `versionSize` bytes into it. -/
def versionByte (metadataEnd versionSize : ℕ) : Decoder PrefixCost Unit := do
  metadataBytes (v22HeaderSize + versionSize) 1 metadataEnd
  Decoder.spend { version := versionSize + 1 }
  Decoder.spend { work := 1 }

/-- The rest of a version string with its terminator: the length of the whole,
without it. -/
def versionFormat (metadataEnd versionSize : ℕ) : Decoder PrefixCost ℕ := fun _ =>
  (terminatedLength (text.drop (v22HeaderSize + versionSize))).bind fun size =>
    if v22HeaderSize + versionSize + size ≤ metadataEnd then
      some (versionSize + size - 1,
        { extent := v22HeaderSize + versionSize + size
          version := versionSize + size
          work := size })
    else none

def prefixFormat (logicalSize : ℕ) : Decoder PrefixCost PrefixView := do
  let header ← headerFormat text logicalSize
  let metadataEnd := header.metadataToDataGap.offset
  let versionSize ← versionFormat text metadataEnd 0
  let terminator := v22HeaderSize + versionSize
  let platform := terminator + 1
  metadataBytes platform 4 metadataEnd
  Decoder.spend { work := 4 }
  let tree := platform + 4
  metadataBytes tree 1 metadataEnd
  Decoder.spend { work := 1 }
  let cursor := tree + 1
  Decoder.spend { work := 1 }
  return {
    header
    metadataPrefixSource := ⟨v22HeaderSize, cursor - v22HeaderSize⟩
    versionSource := ⟨v22HeaderSize, versionSize⟩
    versionTerminatorSource := ⟨terminator, 1⟩
    targetPlatformSource := ⟨platform, 4⟩
    typeTreeSource := ⟨tree, 1⟩
    targetPlatform := readTargetPlatform text platform header.endianSelector
    typeTreeEnabledRaw := text.getD tree 0
    remainingMetadata := ⟨cursor, metadataEnd - cursor⟩ }

end Format

/-! ## The meter -/

inductive PrefixResource where
  | mapping
  | version
  | work
deriving DecidableEq, Repr

structure PrefixBudget where
  mappedSize : ℕ
  maxVersionBytes : ℕ
  maxWork : ℕ

def PrefixLimits.budget (limits : PrefixLimits) (mappedSize : ℕ) : PrefixBudget where
  mappedSize := mappedSize
  maxVersionBytes := limits.maxVersionBytes
  maxWork := limits.maxWork

def PrefixBudget.Short (budget : PrefixBudget) : PrefixResource → ℕ → PrefixCost → Prop
  | .mapping, _, d => budget.mappedSize < d.extent
  | .version, _, d => budget.maxVersionBytes < d.version
  | .work, used, d => budget.maxWork < used + d.work

def PrefixBudget.meter (budget : PrefixBudget) : Meter ℕ PrefixCost PrefixResource where
  position _ := 0
  advance used d := used + d.work
  Sound used := used ≤ budget.maxWork
  Short := budget.Short
  advance_zero _ := rfl
  advance_add used d e := by simp [Nat.add_assoc]
  position_advance _ _ := rfl
  short_add k used d e := by
    cases k <;> simp [PrefixBudget.Short, Nat.add_assoc]
    omega
  not_short_zero used hs k := by
    cases k <;> simp [PrefixBudget.Short, hs]
  sound_advance used d _ hd := Nat.le_of_not_lt (hd .work)

def PrefixReject.Cites (mappedSize : ℕ) (reject : PrefixReject) : PrefixResource → Prop
  | .mapping => reject.status = .incompleteMapping ∧ reject.errorOffset = mappedSize
  | .version => reject.status = .versionLimit
  | .work => reject.status = .workLimit

section Follows

variable {budget : PrefixBudget} {used : ℕ}

theorem follows_chargePrefixWork (hs : used ≤ budget.maxWork) (amount errorOffset : ℕ) :
    budget.meter.Follows (PrefixReject.Cites budget.mappedSize) used
      (chargePrefixWork budget.maxWork amount errorOffset) (Decoder.spend { work := amount }) := by
  refine Meter.follows_look (Meter.follows_draw (k := PrefixResource.work)
    (d := ({ work := amount } : PrefixCost)) hs ?_ ?_ ?_)
  · show _ ↔ ¬ budget.maxWork < used + amount
    omega
  · intro k hk
    cases k with
    | work => exact absurd rfl hk
    | _ => exact Nat.not_lt_zero _
  · exact rfl

/-- A check that looks `extent` bytes into the file. -/
theorem follows_mapping (hs : used ≤ budget.maxWork) {q : Prop} [Decidable q] {extent : ℕ}
    (hq : q ↔ extent ≤ budget.mappedSize) :
    budget.meter.Follows (PrefixReject.Cites budget.mappedSize) used
      (Call.require q ⟨.incompleteMapping, budget.mappedSize⟩) (Decoder.spend { extent }) := by
  refine Meter.follows_check (k := PrefixResource.mapping) hs rfl ?_ ?_ ⟨rfl, rfl⟩
  · show _ ↔ ¬ budget.mappedSize < extent
    rw [hq, Nat.not_lt]
  · intro k hk
    cases k with
    | mapping => exact absurd rfl hk
    | version => exact Nat.not_lt_zero _
    | work => exact Nat.not_lt.mpr hs

theorem follows_requireMetadataBytes (hs : used ≤ budget.maxWork)
    (cursor fieldSize metadataEnd : ℕ) :
    budget.meter.Follows (PrefixReject.Cites budget.mappedSize) used
      (requireMetadataBytes cursor fieldSize metadataEnd budget.mappedSize)
      (metadataBytes cursor fieldSize metadataEnd) := by
  refine Meter.Follows.bind (Meter.follows_require_iff hs (by omega) _) hs
    fun _ d₁ _ _ hs => ?_
  exact follows_mapping hs (by omega)

/-- The checks of one byte of the version. -/
theorem follows_admitVersionByte (hs : used ≤ budget.maxWork) {limits : PrefixLimits}
    (hversion : budget.maxVersionBytes = limits.maxVersionBytes)
    (hwork : budget.maxWork = limits.maxWork) (metadataEnd versionSize : ℕ) :
    budget.meter.Follows (PrefixReject.Cites budget.mappedSize) used
      (admitVersionByte limits metadataEnd budget.mappedSize versionSize)
      (versionByte metadataEnd versionSize) := by
  refine (follows_requireMetadataBytes hs _ _ _).bind hs fun _ d₁ _ _ hs => ?_
  refine Meter.Follows.bind (Meter.follows_check (k := PrefixResource.version) hs rfl ?_ ?_ rfl) hs
    fun _ d₂ _ _ hs => ?_
  · show _ ↔ ¬ budget.maxVersionBytes < versionSize + 1
    rw [hversion]
    omega
  · intro k hk
    cases k with
    | version => exact absurd rfl hk
    | mapping => exact Nat.not_lt_zero _
    | work => exact Nat.not_lt.mpr hs
  · rw [← hwork]
    exact follows_chargePrefixWork hs _ _

theorem metadataBytes_eq_some {cursor fieldSize metadataEnd at_ : ℕ} {u : Unit}
    {d : PrefixCost} :
    metadataBytes cursor fieldSize metadataEnd at_ = some (u, d) ↔
      cursor + fieldSize ≤ metadataEnd ∧ d = { extent := cursor + fieldSize } := by
  constructor
  · intro h
    obtain ⟨_, d₁, d₂, hend, hspend, rfl⟩ := Decoder.bind_eq_some.mp h
    obtain ⟨hle, rfl⟩ := Decoder.require_eq_some.mp hend
    obtain rfl := Decoder.spend_eq_some.mp hspend
    exact ⟨hle, by ext <;> simp⟩
  · rintro ⟨hle, rfl⟩
    exact Decoder.bind_eq_some.mpr ⟨(), 0, _, Decoder.require_eq_some.mpr ⟨hle, rfl⟩,
      Decoder.spend_eq_some.mpr rfl, by ext <;> simp⟩

theorem versionByte_eq_some {metadataEnd versionSize at_ : ℕ} {u : Unit} {d : PrefixCost} :
    versionByte metadataEnd versionSize at_ = some (u, d) ↔
      v22HeaderSize + versionSize + 1 ≤ metadataEnd ∧
        d = { extent := v22HeaderSize + versionSize + 1, version := versionSize + 1, work := 1 } := by
  constructor
  · intro h
    obtain ⟨_, d₁, _, hbytes, h₁, rfl⟩ := Decoder.bind_eq_some.mp h
    obtain ⟨hle, rfl⟩ := metadataBytes_eq_some.mp hbytes
    obtain ⟨_, d₂, d₃, hversion, hwork, rfl⟩ := Decoder.bind_eq_some.mp h₁
    obtain rfl := Decoder.spend_eq_some.mp hversion
    obtain rfl := Decoder.spend_eq_some.mp hwork
    exact ⟨hle, by ext <;> simp⟩
  · rintro ⟨hle, rfl⟩
    refine Decoder.bind_eq_some.mpr ⟨(), _, _, metadataBytes_eq_some.mpr ⟨hle, rfl⟩,
      Decoder.bind_eq_some.mpr ⟨(), _, _, Decoder.spend_eq_some.mpr rfl,
        Decoder.spend_eq_some.mpr rfl, rfl⟩, ?_⟩
    ext <;> simp

theorem versionFormat_eq_some {text : Text} {metadataEnd versionSize at_ total : ℕ}
    {d : PrefixCost} :
    versionFormat text metadataEnd versionSize at_ = some (total, d) ↔
      ∃ size, terminatedLength (text.drop (v22HeaderSize + versionSize)) = some size ∧
        v22HeaderSize + versionSize + size ≤ metadataEnd ∧ total = versionSize + size - 1 ∧
        d = { extent := v22HeaderSize + versionSize + size
              version := versionSize + size
              work := size } := by
  unfold versionFormat
  rw [Option.bind_eq_some_iff]
  refine exists_congr fun size => and_congr_right fun _ => ?_
  split
  · rename_i h
    simp [h, eq_comm]
  · rename_i h
    simp [h]

/-- **A version, a byte at a time.** -/
theorem versionFormat_step {text rest : Text} {byte : UInt8} {metadataEnd versionSize at_ : ℕ}
    (h : text.drop (v22HeaderSize + versionSize) = byte :: rest) :
    versionFormat text metadataEnd versionSize at_ =
      (versionByte metadataEnd versionSize >>= fun _ =>
        if byte = 0 then pure versionSize
        else versionFormat text metadataEnd (versionSize + 1) : Decoder PrefixCost ℕ) at_ := by
  have hrest : text.drop (v22HeaderSize + (versionSize + 1)) = rest := by
    rw [← Nat.add_assoc, ← List.drop_drop, h]
    rfl
  refine Option.ext fun ⟨total, d⟩ => ?_
  rw [versionFormat_eq_some, h, terminatedLength, Decoder.bind_eq_some]
  by_cases hbyte : byte = 0
  · simp only [if_pos hbyte, Option.some.injEq, versionByte_eq_some, Decoder.pure_eq_some]
    constructor
    · rintro ⟨size, rfl, hend, rfl, rfl⟩
      exact ⟨(), _, _, ⟨hend, rfl⟩, ⟨rfl, rfl⟩, by ext <;> simp⟩
    · rintro ⟨u', d₁, d₂, ⟨hend, rfl⟩, ⟨rfl, rfl⟩, rfl⟩
      exact ⟨1, rfl, hend, rfl, by ext <;> simp⟩
  · simp only [if_neg hbyte, Option.map_eq_some_iff, versionByte_eq_some, versionFormat_eq_some,
      hrest]
    constructor
    · rintro ⟨size, ⟨more, hmore, rfl⟩, hend, rfl, rfl⟩
      refine ⟨(), _, _, ⟨by omega, rfl⟩, ⟨more, hmore, by omega, by omega, rfl⟩, ?_⟩
      ext <;> simp <;> omega
    · rintro ⟨u', d₁, d₂, ⟨hend, rfl⟩, ⟨more, hmore, hend', rfl, rfl⟩, rfl⟩
      refine ⟨more + 1, ⟨more, hmore, rfl⟩, by omega, by omega, ?_⟩
      ext <;> simp <;> omega

theorem follows_scanVersion (hs : used ≤ budget.maxWork) {limits : PrefixLimits}
    (hversion : budget.maxVersionBytes = limits.maxVersionBytes)
    (hwork : budget.maxWork = limits.maxWork) {text mapped rest : Text} (hmapped : mapped <+: text)
    (hsize : budget.mappedSize = mapped.length) (metadataEnd versionSize : ℕ)
    (hrest : rest = mapped.drop (v22HeaderSize + versionSize)) :
    budget.meter.Follows (PrefixReject.Cites budget.mappedSize) used
      (scanVersion limits metadataEnd budget.mappedSize rest versionSize)
      (versionFormat text metadataEnd versionSize) := by
  induction rest generalizing used versionSize with
  | nil =>
      -- nothing is mapped here, and the loop's own check says so
      have hbyte := follows_admitVersionByte hs hversion hwork metadataEnd versionSize
      have hshort : mapped.length ≤ v22HeaderSize + versionSize :=
        List.drop_eq_nil_iff.mp hrest.symm
      have hfull : ∀ d at_, versionByte metadataEnd versionSize at_ = some ((), d) →
          ¬ budget.meter.Room used d := by
        intro d at_ hP hroom
        obtain ⟨-, rfl⟩ := versionByte_eq_some.mp hP
        have hfits : ¬ budget.mappedSize < v22HeaderSize + versionSize + 1 := hroom .mapping
        omega
      refine hbyte.stuck (fun _ d hP => hfull d _ hP) ?_ ?_
      · intro total d hP
        obtain ⟨size, hlength, hend, -, rfl⟩ := versionFormat_eq_some.mp hP
        obtain ⟨hone, -⟩ := MetadataSource.terminatedLength_bounds hlength
        refine ⟨(), _, versionByte_eq_some.mpr ⟨by omega, rfl⟩, fun k hk => ?_⟩
        cases k <;> simp only [PrefixBudget.meter, PrefixBudget.Short] at hk ⊢ <;> omega
      · intro answers n e u n' herr
        exact Call.bind_eq_error.mpr (Or.inl herr)
  | cons byte rest ih =>
      have hnext : rest = mapped.drop (v22HeaderSize + (versionSize + 1)) := by
        rw [← Nat.add_assoc, ← List.drop_drop, ← hrest]
        rfl
      have htext : ∃ more, text.drop (v22HeaderSize + versionSize) = byte :: more := by
        have hle : v22HeaderSize + versionSize ≤ mapped.length := by
          have := congrArg List.length hrest
          rw [List.length_drop, List.length_cons] at this
          omega
        obtain ⟨unmapped, heq⟩ := hmapped
        rw [← heq, List.drop_append_of_le_length hle, ← hrest]
        exact ⟨rest ++ unmapped, rfl⟩
      obtain ⟨more, htext⟩ := htext
      refine Meter.Follows.decoder_congr ?_ (versionFormat_step htext)
      refine (follows_admitVersionByte hs hversion hwork _ _).bind hs fun _ d hP _ hs => ?_
      by_cases hbyte : byte = 0
      · simp only [if_pos hbyte]
        exact Meter.follows_pure hs versionSize
      · simp only [if_neg hbyte]
        exact ih hs _ hnext

/-- **The header query follows the format.** -/
theorem follows_queryHeader (hs : used ≤ budget.maxWork) {mapped text : Text}
    (hmapped : mapped <+: text) (hsize : budget.mappedSize = mapped.length) (logicalSize : ℕ) :
    budget.meter.Follows (PrefixReject.Cites budget.mappedSize) used
      (queryHeader mapped logicalSize budget.maxWork) (headerFormat text logicalSize) := by
  refine Meter.Follows.bind (Meter.follows_require hs _ _) hs fun _ d₁ _ _ hs => ?_
  refine Meter.Follows.bind (P := Decoder.spend { extent := v22HeaderSize }) ?_ hs
    fun _ d₂ hP₂ hroom₂ hs => ?_
  · rw [← hsize]
    exact follows_mapping hs Iff.rfl
  have hheader : v22HeaderSize ≤ mapped.length := by
    obtain rfl := Decoder.spend_eq_some.mp hP₂
    rw [← hsize]
    exact Nat.le_of_not_lt (hroom₂ .mapping)
  -- every field of the header is mapped
  have hbytes : ∀ offset size, offset + size ≤ 48 →
      (PrefixSpan.mk offset size).bytes mapped = (PrefixSpan.mk offset size).bytes text :=
    fun offset size hle => PrefixSpan.bytes_of_mapped hmapped (hle.trans hheader)
  have hbe64 : ∀ offset, offset + 8 ≤ 48 → readBe64 mapped offset = readBe64 text offset := by
    intro offset hle
    rw [readBe64, readBe64, hbytes offset 8 hle]
  have hversion : readBe32 mapped 8 = readBe32 text 8 := by
    rw [readBe32, readBe32, hbytes 8 4 (by decide)]
  have hendian : mapped.getD 40 0 = text.getD 40 0 :=
    getD_of_mapped hmapped (Nat.lt_of_lt_of_le (by decide) hheader)
  rw [hversion, hendian, hbe64 16 (by decide), hbe64 24 (by decide), hbe64 32 (by decide)]
  refine (follows_chargePrefixWork hs _ _).bind hs fun _ d₃ _ _ hs => ?_
  refine Meter.Follows.bind (Meter.follows_require hs _ _) hs fun _ d₄ _ _ hs => ?_
  refine Meter.Follows.bind (Meter.follows_require hs _ _) hs fun _ d₅ _ _ hs => ?_
  refine Meter.Follows.bind (Meter.follows_require hs _ _) hs fun _ d₆ _ _ hs => ?_
  refine Meter.Follows.bind (Meter.follows_require hs _ _) hs fun _ d₇ _ _ hs => ?_
  refine Meter.Follows.bind (Meter.follows_require hs _ _) hs fun _ d₈ _ _ hs => ?_
  refine Meter.Follows.bind (Meter.follows_require hs _ _) hs fun _ d₉ _ _ hs => ?_
  exact Meter.follows_pure hs _

/-- **The prefix query follows the format.** -/
theorem follows_queryPrefix (hs : used ≤ budget.maxWork) {limits : PrefixLimits}
    (hversion : budget.maxVersionBytes = limits.maxVersionBytes)
    (hwork : budget.maxWork = limits.maxWork) {mapped text : Text} (hmapped : mapped <+: text)
    (hsize : budget.mappedSize = mapped.length) (logicalSize : ℕ) :
    budget.meter.Follows (PrefixReject.Cites budget.mappedSize) used
      (queryPrefix mapped logicalSize limits) (prefixFormat text logicalSize) := by
  refine Meter.Follows.bind (P := headerFormat text logicalSize) ?_ hs fun header d₁ _ _ hs => ?_
  · rw [← hwork]
    exact follows_queryHeader hs hmapped hsize logicalSize
  refine Meter.Follows.bind (P := versionFormat text header.metadataToDataGap.offset 0) ?_ hs
    fun versionSize d₂ _ _ hs => ?_
  · rw [← hsize]
    exact follows_scanVersion hs hversion hwork hmapped hsize _ 0 rfl
  rw [← hsize, ← hwork]
  refine (follows_requireMetadataBytes hs _ _ _).bind hs fun _ d₃ hP₃ hroom₃ hs => ?_
  have hplatform : readTargetPlatform mapped (v22HeaderSize + versionSize + 1)
      header.endianSelector =
        readTargetPlatform text (v22HeaderSize + versionSize + 1) header.endianSelector := by
    obtain ⟨-, rfl⟩ := metadataBytes_eq_some.mp hP₃
    have hfits : v22HeaderSize + versionSize + 1 + 4 ≤ mapped.length := by
      rw [← hsize]
      exact Nat.le_of_not_lt (hroom₃ .mapping)
    rw [readTargetPlatform, readTargetPlatform, PrefixSpan.bytes_of_mapped hmapped hfits]
  refine (follows_chargePrefixWork hs _ _).bind hs fun _ d₄ _ _ hs => ?_
  refine (follows_requireMetadataBytes hs _ _ _).bind hs fun _ d₅ hP₅ hroom₅ hs => ?_
  have htree : mapped.getD (v22HeaderSize + versionSize + 1 + 4) 0 =
      text.getD (v22HeaderSize + versionSize + 1 + 4) 0 := by
    obtain ⟨-, rfl⟩ := metadataBytes_eq_some.mp hP₅
    have hfits : v22HeaderSize + versionSize + 1 + 4 + 1 ≤ mapped.length := by
      rw [← hsize]
      exact Nat.le_of_not_lt (hroom₅ .mapping)
    exact getD_of_mapped hmapped hfits
  refine (follows_chargePrefixWork hs _ _).bind hs fun _ d₆ _ _ hs => ?_
  refine (follows_chargePrefixWork hs _ _).bind hs fun _ d₇ _ _ hs => ?_
  rw [hplatform, htree]
  exact Meter.follows_pure hs _

/-! ## What the format finds -/

theorem headerFormat_eq_some {text : Text} {logicalSize at_ : ℕ} {header : HeaderView}
    {d : PrefixCost} :
    headerFormat text logicalSize at_ = some (header, d) ↔
      HeaderOk text logicalSize ∧ header = headerView text ∧
        d = { extent := v22HeaderSize, work := v22HeaderSize } := by
  simp only [headerFormat, Decoder.bind_eq_some, Decoder.require_eq_some, Decoder.spend_eq_some,
    Decoder.pure_eq_some]
  constructor
  · rintro ⟨_, _, _, ⟨hcomplete, rfl⟩, ⟨_, _, _, rfl, ⟨_, _, _, rfl, ⟨_, _, _, ⟨hversion, rfl⟩,
      ⟨_, _, _, ⟨hendian, rfl⟩, ⟨_, _, _, ⟨hfile, rfl⟩, ⟨_, _, _, ⟨hdata, rfl⟩,
      ⟨_, _, _, ⟨hsize, rfl⟩, ⟨_, _, _, ⟨hend, rfl⟩, ⟨rfl, rfl⟩, rfl⟩, rfl⟩, rfl⟩, rfl⟩, rfl⟩,
      rfl⟩, rfl⟩, rfl⟩, rfl⟩
    exact ⟨⟨hcomplete, hversion, hendian, hfile, hdata, hsize, hend⟩, rfl, by ext <;> simp⟩
  · rintro ⟨h, rfl, rfl⟩
    refine ⟨(), _, _, ⟨h.complete, rfl⟩, ⟨(), _, _, rfl, ⟨(), _, _, rfl, ⟨(), _, _, ⟨h.version, rfl⟩,
      ⟨(), _, _, ⟨h.endian, rfl⟩, ⟨(), _, _, ⟨h.fileSize, rfl⟩, ⟨(), _, _, ⟨h.dataOffset, rfl⟩,
      ⟨(), _, _, ⟨h.metadataSize, rfl⟩, ⟨(), _, _, ⟨h.metadataEnd, rfl⟩, ⟨rfl, rfl⟩, rfl⟩, rfl⟩,
      rfl⟩, rfl⟩, rfl⟩, rfl⟩, rfl⟩, rfl⟩, ?_⟩
    ext <;> simp

/-- **What a prefix is**: a header, and a version with six bytes behind it
before the metadata ends. -/
theorem prefixFormat_eq_some {text : Text} {logicalSize at_ : ℕ} {view : PrefixView}
    {d : PrefixCost} :
    prefixFormat text logicalSize at_ = some (view, d) ↔
      HeaderOk text logicalSize ∧ ∃ versionSize,
        terminatedLength (text.drop v22HeaderSize) = some (versionSize + 1) ∧
        versionSize + 6 ≤ readBe64 text 16 ∧ view = prefixViewAt text versionSize ∧
        d = { extent := v22HeaderSize + versionSize + 6
              version := versionSize + 1
              work := v22HeaderSize + versionSize + 7 } := by
  simp only [prefixFormat, Decoder.bind_eq_some, headerFormat_eq_some, versionFormat_eq_some,
    metadataBytes_eq_some, Decoder.spend_eq_some, Decoder.pure_eq_some]
  constructor
  · rintro ⟨_, _, _, ⟨hheader, rfl, rfl⟩, ⟨_, _, _, ⟨size, hlength, hversion, rfl, rfl⟩,
      ⟨_, _, _, ⟨hplatform, rfl⟩, ⟨_, _, _, rfl, ⟨_, _, _, ⟨htree, rfl⟩, ⟨_, _, _, rfl,
      ⟨_, _, _, rfl, ⟨rfl, rfl⟩, rfl⟩, rfl⟩, rfl⟩, rfl⟩, rfl⟩, rfl⟩, rfl⟩
    obtain ⟨hone, -⟩ := MetadataSource.terminatedLength_bounds hlength
    have htree' : v22HeaderSize + (0 + size - 1) + 1 + 4 + 1 ≤
        v22HeaderSize + readBe64 text 16 := htree
    refine ⟨hheader, size - 1, ?_, by omega, ?_, ?_⟩
    · rw [Nat.sub_add_cancel hone]
      exact hlength
    · rw [Nat.zero_add]
      rfl
    · ext <;> simp <;> omega
  · rintro ⟨hheader, versionSize, hlength, hend, rfl, rfl⟩
    have hends : (headerView text).metadataToDataGap.offset = v22HeaderSize + readBe64 text 16 :=
      rfl
    have hsize : 0 + (versionSize + 1) - 1 = versionSize := by omega
    refine ⟨_, _, _, ⟨hheader, rfl, rfl⟩, ⟨_, _, _,
      ⟨versionSize + 1, hlength, by rw [hends]; omega, rfl, rfl⟩, ⟨(), _, _,
      ⟨by rw [hends]; omega, rfl⟩, ⟨(), _, _, rfl, ⟨(), _, _, ⟨by rw [hends]; omega, rfl⟩,
      ⟨(), _, _, rfl, ⟨(), _, _, rfl, ⟨?_, rfl⟩, rfl⟩, rfl⟩, rfl⟩, rfl⟩, rfl⟩, rfl⟩, ?_⟩
    · rw [hsize]
      rfl
    · ext <;> simp <;> omega

end Follows

end UnityCommon.Metadata
