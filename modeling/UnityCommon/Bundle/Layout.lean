import UnityCommon.Bundle.Archive
import UnityCommon.Lib.Slice
import Mathlib.Data.List.Forall2

/-!
# The layout of an archive

What an opened archive says about the bytes of its file: the header, the
alignment gap, the block-info chunk and the compressed blocks lie one after the
other and nothing lies between them, and the payload is what the blocks
decompress to.
-/

namespace UnityCommon.Bundle

open Slice

variable {lzma : Text → Text → ℕ → Option Text}

def encodeHeader (header : ArchiveHeader) : Text :=
  (header.signature.bytes ++ [0]) ++ storeBe32 header.version ++
    (header.generationVersion.bytes ++ [0]) ++ (header.engineVersion.bytes ++ [0]) ++
    storeBe64 header.totalFileSize ++ storeBe32 header.compressedInfoSize ++
    storeBe32 header.decompressedInfoSize ++ storeBe32 header.flags

def encodeBlockInfo (block : BundleBlockInfo) : Text :=
  storeBe32 block.decompressedSize ++ storeBe32 block.compressedSize ++ storeBe16 block.flags

def encodeDirectoryInfo (directory : BundleDirectoryInfo) : Text :=
  storeBe64 directory.offset ++ storeBe64 directory.decompressedSize ++
    storeBe32 directory.flags ++ (directory.name.bytes ++ [0])

def encodeBlocksInfo (hash : Text) (blocks : List BundleBlockInfo)
    (directories : List BundleDirectoryInfo) : Text :=
  hash ++ storeBe32 blocks.length.toUInt32 ++ blocks.flatMap encodeBlockInfo ++
    storeBe32 directories.length.toUInt32 ++ directories.flatMap encodeDirectoryInfo

/-- The one dialect that opens. -/
structure Dialect (header : ArchiveHeader) : Prop where
  signature : header.signature = cstr "UnityFS"
  version : header.version = supportedArchiveVersion
  generationVersion : header.generationVersion = supportedGeneration
  engineVersion : header.engineVersion = supportedEngineVersion
  combined : hasFlag header.flags blocksAndDirectoryInfoCombined = true
  flags : header.flags &&& ~~~supportedArchiveFlags = 0
  compression : compressionIsSupported header.flags = true
  compressedInfoSize : header.compressedInfoSize ≠ 0
  decompressedInfoSize : 20 ≤ header.decompressedInfoSize.toNat

/-- A block as it lies in the file and as it lies in the payload. -/
structure Part where
  compressed : Text
  decompressed : Text

structure Layout where
  gap : Text
  hash : Text
  info : Text
  padding : Text
  parts : List Part

def Layout.compressed (layout : Layout) : Text := layout.parts.flatMap Part.compressed

def Layout.decompressed (layout : Layout) : Text := layout.parts.flatMap Part.decompressed

/-- The bytes of the file: the two places of the block-info chunk. -/
def Layout.bytes (header : ArchiveHeader) (layout : Layout) : Text :=
  encodeHeader header ++ layout.gap ++
    (if hasFlag header.flags blockInfoAtEnd then
      layout.padding ++ layout.compressed ++ layout.info
    else layout.info ++ layout.padding ++ layout.compressed)

/-- Where the compressed blocks start. -/
def Layout.dataStart (header : ArchiveHeader) (layout : Layout) : ℕ :=
  (encodeHeader header).length + layout.gap.length +
    (if hasFlag header.flags blockInfoAtEnd then 0 else layout.info.length) +
    layout.padding.length

structure BlockDecodes (lzma : Text → Text → ℕ → Option Text) (block : BundleBlockInfo)
    (part : Part) : Prop where
  compressed : part.compressed.length = block.compressedSize.toNat
  decompressed : part.decompressed.length = block.decompressedSize.toNat
  decodes : decompressBlock lzma (block.flags.toUInt32 &&& compressionMask) part.compressed
    block.decompressedSize.toNat = some part.decompressed

/-- The padding of the data: fewer than sixteen bytes up to an aligned start
when the archive asks for it, else none. -/
structure PaddingHolds (header : ArchiveHeader) (layout : Layout) : Prop where
  aligned : hasFlag header.flags blockInfoNeedsPadding = true →
    layout.padding.length < 16 ∧ layout.dataStart header % 16 = 0
  none : hasFlag header.flags blockInfoNeedsPadding = false → layout.padding = []

/-- The file is laid out so, and decodes to the archive. -/
structure Decodes (lzma : Text → Text → ℕ → Option Text) (file : Text)
    (archive : BundleArchive) (layout : Layout) : Prop where
  bytes : file = layout.bytes archive.toArchiveHeader
  dialect : Dialect archive.toArchiveHeader
  totalFileSize : archive.totalFileSize.toNat = file.length
  gap : layout.gap.length < 16 ∧
    ((encodeHeader archive.toArchiveHeader).length + layout.gap.length) % 16 = 0
  hash : layout.hash.length = 16
  infoSize : layout.info.length = archive.compressedInfoSize.toNat
  info : decompressBlock lzma (archive.flags &&& compressionMask) layout.info
    archive.decompressedInfoSize.toNat =
      some (encodeBlocksInfo layout.hash archive.blocks archive.directories)
  infoLength : (encodeBlocksInfo layout.hash archive.blocks archive.directories).length =
    archive.decompressedInfoSize.toNat
  padding : PaddingHolds archive.toArchiveHeader layout
  blocks : List.Forall₂ (BlockDecodes lzma) archive.blocks layout.parts
  payload : archive.payload = layout.decompressed
  extents : ∀ directory ∈ archive.directories,
    directory.offset.toNat + directory.decompressedSize.toNat ≤ archive.payload.length

/-! ## What the readers consume -/

theorem readBlockInfo_consumes {s s' : ByteStream} {block : BundleBlockInfo}
    (hbig : s.bigEndian = true) (h : readBlockInfo s = some (block, s')) :
    s.Consumes s' (encodeBlockInfo block) := by
  simp only [readBlockInfo, Option.bind_eq_bind, Option.bind_eq_some_iff, Prod.exists,
    Option.guard_eq_some', Option.some.injEq, Prod.mk.injEq] at h
  obtain ⟨_, s₁, h₁, _, s₂, h₂, _, s₃, h₃, -, -, -, -, rfl, rfl⟩ := h
  have c₁ := ByteStream.readUInt32_consumes hbig h₁
  have c₂ := c₁.trans (ByteStream.readUInt32_consumes (c₁.big hbig) h₂)
  exact c₂.trans (ByteStream.readUInt16_consumes (c₂.big hbig) h₃)

theorem readDirectoryInfo_consumes {s s' : ByteStream} {directory : BundleDirectoryInfo}
    (hbig : s.bigEndian = true) (h : readDirectoryInfo s = some (directory, s')) :
    s.Consumes s' (encodeDirectoryInfo directory) := by
  simp only [readDirectoryInfo, Option.bind_eq_bind, Option.bind_eq_some_iff, Prod.exists,
    Option.some.injEq, Prod.mk.injEq] at h
  obtain ⟨_, s₁, h₁, _, s₂, h₂, _, s₃, h₃, _, s₄, h₄, rfl, rfl⟩ := h
  have c₁ := ByteStream.readUInt64_consumes hbig h₁
  have c₂ := c₁.trans (ByteStream.readUInt64_consumes (c₁.big hbig) h₂)
  have c₃ := c₂.trans (ByteStream.readUInt32_consumes (c₂.big hbig) h₃)
  exact c₃.trans (ByteStream.readCString_consumes h₄)

theorem readHeader_ok {s s' : ByteStream} {header : ArchiveHeader}
    (hbig : s.bigEndian = true) (h : readHeader s = some (header, s')) :
    s.Consumes s' (encodeHeader header) ∧ Dialect header ∧
      header.totalFileSize.toNat = s.data.length := by
  simp only [readHeader, Option.bind_eq_bind, Option.bind_eq_some_iff, Prod.exists,
    Option.guard_eq_some', Option.some.injEq, Prod.mk.injEq] at h
  obtain ⟨_, s₁, h₁, -, hsignature, _, s₂, h₂, _, s₃, h₃, _, s₄, h₄, -, hversions, _, s₅, h₅,
    _, s₆, h₆, _, s₇, h₇, _, s₈, h₈, -, hflags, -, hsizes, rfl, rfl⟩ := h
  have c₁ := ByteStream.readCString_consumes h₁
  have c₂ := c₁.trans (ByteStream.readUInt32_consumes (c₁.big hbig) h₂)
  have c₃ := c₂.trans (ByteStream.readCString_consumes h₃)
  have c₄ := c₃.trans (ByteStream.readCString_consumes h₄)
  have c₅ := c₄.trans (ByteStream.readUInt64_consumes (c₄.big hbig) h₅)
  have c₆ := c₅.trans (ByteStream.readUInt32_consumes (c₅.big hbig) h₆)
  have c₇ := c₆.trans (ByteStream.readUInt32_consumes (c₆.big hbig) h₇)
  have c₈ := c₇.trans (ByteStream.readUInt32_consumes (c₇.big hbig) h₈)
  refine ⟨c₈, ⟨hsignature, hversions.1, hversions.2.1, hversions.2.2, hflags.1, hflags.2.1,
    hflags.2.2, hsizes.2.1, hsizes.2.2⟩, ?_⟩
  rw [hsizes.1, c₈.data]

/-- **The block-info payload is read to its last byte.** -/
theorem readBlocksInfo_ok {info : Text} {blocks : List BundleBlockInfo}
    {directories : List BundleDirectoryInfo}
    (h : readBlocksInfo info = some (blocks, directories)) :
    ∃ hash, hash.length = 16 ∧ info = encodeBlocksInfo hash blocks directories := by
  simp only [readBlocksInfo, Option.bind_eq_bind, Option.bind_eq_some_iff, Prod.exists,
    Option.guard_eq_some', Option.some.injEq, Prod.mk.injEq] at h
  obtain ⟨s₁, h₁, blockCount, s₂, h₂, -, -, _, s₃, h₃, dirCount, s₄, h₄, -, -, _, s₅, h₅, -,
    hend, rfl, rfl⟩ := h
  obtain ⟨hash, hhash, c₁⟩ := ByteStream.skip_consumes h₁
  have big₁ := c₁.big rfl
  have c₂ := c₁.trans (ByteStream.readUInt32_consumes big₁ h₂)
  obtain ⟨hblocks, c⟩ := ByteStream.readEach_consumes readBlockInfo_consumes (c₂.big rfl) h₃
  have c₃ := c₂.trans c
  have c₄ := c₃.trans (ByteStream.readUInt32_consumes (c₃.big rfl) h₄)
  obtain ⟨hdirectories, c'⟩ :=
    ByteStream.readEach_consumes readDirectoryInfo_consumes (c₄.big rfl) h₅
  have c₅ := c₄.trans c'
  have hunread := c₅.unread
  have hrest : s₅.unread = [] := by
    apply List.drop_eq_nil_of_le
    rw [ByteStream.remaining] at hend
    omega
  rw [hrest, List.append_nil] at hunread
  refine ⟨hash, hhash, ?_⟩
  rw [encodeBlocksInfo, hblocks, hdirectories]
  simpa [ByteStream.unread] using hunread

theorem length_decompressBlock {compType : UInt32} {src out : Text} {dstLen : ℕ}
    (h : decompressBlock lzma compType src dstLen = some out) : out.length = dstLen := by
  unfold decompressBlock at h
  split_ifs at h with _ hlen _ _ _ _ _ hzero
  · cases h
    omega
  · simpa using (Option.filter_eq_some_iff.mp h).2
  · cases h
    exact hzero.symm
  · simpa using (Option.filter_eq_some_iff.mp h).2

/-! ## Where the chunks lie -/

structure InfoAt (header : ArchiveHeader) (position offset : ℕ) : Prop where
  after : position ≤ offset
  bounded : offset + header.compressedInfoSize.toNat ≤ header.totalFileSize.toNat
  atEnd : hasFlag header.flags blockInfoAtEnd = true →
    offset + header.compressedInfoSize.toNat = header.totalFileSize.toNat
  inPlace : hasFlag header.flags blockInfoAtEnd = false → offset = position

theorem blockInfoOffset_ok {header : ArchiveHeader} {position offset : ℕ}
    (h : blockInfoOffset header position = some offset) : InfoAt header position offset := by
  simp only [blockInfoOffset, Option.bind_eq_bind, Option.bind_eq_some_iff,
    Option.guard_eq_some', Option.some.injEq] at h
  obtain ⟨-, hsize, offset, hoffset, -, hbounds, rfl⟩ := h
  unfold flaggedInfoOffset at hoffset
  dsimp only at hoffset
  split_ifs at hoffset with hflag hfits hafter
  · cases hoffset
    refine ⟨by omega, by omega, fun _ => by omega, fun hplace => ?_⟩
    rw [hflag] at hplace
    cases hplace
  · cases hoffset
    exact ⟨Nat.le_refl _, by omega, fun hend => absurd hend hflag, fun _ => rfl⟩

/-- The first byte that may hold block data. -/
def dataBase (header : ArchiveHeader) (position infoOffset : ℕ) : ℕ :=
  if hasFlag header.flags blockInfoAtEnd then position
  else infoOffset + header.compressedInfoSize.toNat

structure DataAt (header : ArchiveHeader) (position infoOffset start stop : ℕ) : Prop where
  base : dataBase header position infoOffset ≤ start
  ordered : start ≤ stop
  stop : stop =
    if hasFlag header.flags blockInfoAtEnd then infoOffset else header.totalFileSize.toNat
  padded : hasFlag header.flags blockInfoNeedsPadding = true →
    start < dataBase header position infoOffset + 16 ∧ start % 16 = 0
  packed : hasFlag header.flags blockInfoNeedsPadding = false →
    start = dataBase header position infoOffset

theorem dataRange_ok {header : ArchiveHeader} {position infoOffset start stop : ℕ}
    (h : dataRange header position infoOffset = some (start, stop)) :
    DataAt header position infoOffset start stop := by
  simp only [dataRange, Option.bind_eq_bind, Option.bind_eq_some_iff, Prod.exists,
    Option.guard_eq_some', Option.some.injEq, Prod.mk.injEq] at h
  obtain ⟨base, stop, hrange, start, hstart, -, hordered, rfl, rfl⟩ := h
  have hbase : base = dataBase header position infoOffset ∧ stop =
      if hasFlag header.flags blockInfoAtEnd then infoOffset
      else header.totalFileSize.toNat := by
    unfold flaggedRange at hrange
    rw [dataBase]
    dsimp only at hrange
    split_ifs at hrange ⊢ with hflag hfits
    · cases hrange
      exact ⟨rfl, rfl⟩
    · cases hrange
      exact ⟨rfl, rfl⟩
  obtain ⟨rfl, hstop⟩ := hbase
  unfold paddedStart at hstart
  split_ifs at hstart with hpad hmax
  · cases hstart
    refine ⟨by omega, hordered, hstop, fun _ => ⟨by omega, Nat.mul_mod_left _ _⟩, fun hno => ?_⟩
    rw [hpad] at hno
    cases hno
  · cases hstart
    exact ⟨Nat.le_refl _, hordered, hstop, fun hyes => absurd hyes hpad, fun _ => rfl⟩

/-- **The payload loop cuts its region into parts**, one for each block. -/
theorem decompressBlocks_ok {file : Text} {dataEnd payloadSize : ℕ}
    (hend : dataEnd ≤ file.length) :
    ∀ {blocks : List BundleBlockInfo} {position position' : ℕ} {payload payload' : Text},
      decompressBlocks lzma file dataEnd payloadSize blocks position payload =
        some (position', payload') →
      ∃ parts, List.Forall₂ (BlockDecodes lzma) blocks parts ∧ position ≤ position' ∧
        slice file position position' = parts.flatMap Part.compressed ∧
        payload' = payload ++ parts.flatMap Part.decompressed
  | [], position, position', payload, payload', h => by
      simp only [decompressBlocks, Option.some.injEq, Prod.mk.injEq] at h
      obtain ⟨rfl, rfl⟩ := h
      exact ⟨[], .nil, Nat.le_refl _, by rw [slice_self, List.flatMap_nil], by simp⟩
  | block :: blocks, position, position', payload, payload', h => by
      simp only [decompressBlocks, Option.bind_eq_bind, Option.bind_eq_some_iff,
        Option.guard_eq_some'] at h
      obtain ⟨-, hposition, -, -, out, hout, h⟩ := h
      obtain ⟨parts, hparts, hle, hslice, hpayload⟩ := decompressBlocks_ok hend h
      let chunk := slice file position (position + block.compressedSize.toNat)
      have hchunk : chunk = (file.drop position).take block.compressedSize.toNat :=
        slice_take _
      have hlength : chunk.length = block.compressedSize.toNat := by
        rw [length_slice (by omega)]
        omega
      refine ⟨⟨chunk, out⟩ :: parts, .cons ⟨hlength, length_decompressBlock hout, ?_⟩ hparts,
        by omega, ?_, ?_⟩
      · rw [hchunk]
        exact hout
      · rw [List.flatMap_cons, ← hslice]
        exact (slice_append (by omega) hle).symm
      · rw [hpayload, List.flatMap_cons, List.append_assoc]

end UnityCommon.Bundle
