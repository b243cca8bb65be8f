import UnityCommon.Common.StreamSpan
import UnityCommon.Lz4.Decompress
import Mathlib.Data.Option.Basic

/-!
# UnityFS archives

`io/bundle_archive.c`. A failed open closes the archive, so opening is a partial
function from the bytes of the file. The LZMA decoder is a parameter: from the
five property bytes, the rest of the chunk and the declared size to the bytes
it wrote, when it accepted the whole chunk.
-/

namespace UnityCommon.Bundle

def compressionMask : UInt32 := 0x3f
def blocksAndDirectoryInfoCombined : UInt32 := 0x40
def blockInfoAtEnd : UInt32 := 0x80
def blockInfoNeedsPadding : UInt32 := 0x200
def supportedArchiveFlags : UInt32 :=
  compressionMask ||| blocksAndDirectoryInfoCombined ||| blockInfoAtEnd ||| blockInfoNeedsPadding
def blockStreaming : UInt32 := 0x40
def supportedBlockFlags : UInt32 := compressionMask ||| blockStreaming

def supportedArchiveVersion : UInt32 := 8
def supportedGeneration : CString := cstr "5.x.x"
def supportedEngineVersion : CString := cstr "2021.3.35f1"

def sizeMax : ℕ := 2 ^ 64 - 1
def intMax : ℕ := 2 ^ 31 - 1

structure BundleBlockInfo where
  decompressedSize : UInt32
  compressedSize : UInt32
  flags : UInt16
deriving DecidableEq, Repr

structure BundleDirectoryInfo where
  offset : UInt64
  decompressedSize : UInt64
  flags : UInt32
  name : CString
deriving DecidableEq, Repr

/-- The fields of `BundleArchive` that the archive header holds. -/
structure ArchiveHeader where
  signature : CString
  version : UInt32
  generationVersion : CString
  engineVersion : CString
  totalFileSize : UInt64
  compressedInfoSize : UInt32
  decompressedInfoSize : UInt32
  flags : UInt32
deriving DecidableEq, Repr

structure BundleArchive extends ArchiveHeader where
  blocks : List BundleBlockInfo
  directories : List BundleDirectoryInfo
  payload : Text
deriving DecidableEq, Repr

def compressionIsSupported (flags : UInt32) : Bool := flags &&& compressionMask ≤ 3

def hasFlag (flags flag : UInt32) : Bool := flags &&& flag != 0

/-! ## Blocks -/

/-- `decompress_block`: the bytes written to a destination of `dstLen` bytes. -/
def decompressBlock (lzma : Text → Text → ℕ → Option Text) (compType : UInt32) (src : Text)
    (dstLen : ℕ) : Option Text :=
  if compType = 0 then
    if src.length ≠ dstLen then none else some src
  else if compType = 1 then
    if src.length < 5 then none
    else (lzma (src.take 5) (src.drop 5) dstLen).filter fun out => out.length = dstLen
  else if compType = 2 ∨ compType = 3 then
    if intMax < src.length ∨ intMax < dstLen then none
    else if src.length = 0 then (if dstLen = 0 then some [] else none)
    else (Lz4.lz4DecompressSafe src dstLen).filter fun out => out.length = dstLen
  else none

def readBlockInfo (stream : ByteStream) : Option (BundleBlockInfo × ByteStream) := do
  let (decompressedSize, stream) ← stream.readUInt32
  let (compressedSize, stream) ← stream.readUInt32
  let (flags, stream) ← stream.readUInt16
  guard (flags.toUInt32 &&& ~~~supportedBlockFlags = 0)
  guard (compressionIsSupported flags.toUInt32)
  some (⟨decompressedSize, compressedSize, flags⟩, stream)

def readDirectoryInfo (stream : ByteStream) : Option (BundleDirectoryInfo × ByteStream) := do
  let (offset, stream) ← stream.readUInt64
  let (decompressedSize, stream) ← stream.readUInt64
  let (flags, stream) ← stream.readUInt32
  let (name, stream) ← stream.readCString
  some (⟨offset, decompressedSize, flags, name⟩, stream)

/-- The decompressed block-info chunk, to its last byte. -/
def readBlocksInfo (info : Text) : Option (List BundleBlockInfo × List BundleDirectoryInfo) := do
  let stream : ByteStream := ⟨info, 0, true⟩
  let stream ← stream.skip 16
  let (blockCount, stream) ← stream.readUInt32
  guard (blockCount.toNat ≤ intMax ∧ blockCount.toNat ≤ stream.remaining / 10)
  let (blocks, stream) ← stream.readEach readBlockInfo blockCount.toNat
  let (dirCount, stream) ← stream.readUInt32
  guard (dirCount.toNat ≤ intMax ∧ dirCount.toNat ≤ stream.remaining / 21)
  let (directories, stream) ← stream.readEach readDirectoryInfo dirCount.toNat
  guard (stream.remaining = 0)
  some (blocks, directories)

/-! ## Opening -/

/-- The header up to the alignment gap. -/
def readHeader (stream : ByteStream) : Option (ArchiveHeader × ByteStream) := do
  let (signature, stream) ← stream.readCString
  guard (signature = cstr "UnityFS")
  let (version, stream) ← stream.readUInt32
  let (generationVersion, stream) ← stream.readCString
  let (engineVersion, stream) ← stream.readCString
  guard (version = supportedArchiveVersion ∧ generationVersion = supportedGeneration ∧
    engineVersion = supportedEngineVersion)
  let (totalFileSize, stream) ← stream.readUInt64
  let (compressedInfoSize, stream) ← stream.readUInt32
  let (decompressedInfoSize, stream) ← stream.readUInt32
  let (flags, stream) ← stream.readUInt32
  guard (hasFlag flags blocksAndDirectoryInfoCombined ∧
    flags &&& ~~~supportedArchiveFlags = 0 ∧ compressionIsSupported flags)
  guard (totalFileSize.toNat = stream.data.length ∧ compressedInfoSize ≠ 0 ∧
    20 ≤ decompressedInfoSize.toNat)
  some (⟨signature, version, generationVersion, engineVersion, totalFileSize,
    compressedInfoSize, decompressedInfoSize, flags⟩, stream)

/-- The place of the block-info chunk that the flags ask for. -/
def flaggedInfoOffset (header : ArchiveHeader) (position : ℕ) : Option ℕ :=
  if hasFlag header.flags blockInfoAtEnd then
    let size := header.totalFileSize.toNat
    if size < header.compressedInfoSize.toNat then none
    else if size - header.compressedInfoSize.toNat < position then none
    else some (size - header.compressedInfoSize.toNat)
  else some position

/-- Where the block-info chunk lies, with the header ending at `position`. -/
def blockInfoOffset (header : ArchiveHeader) (position : ℕ) : Option ℕ := do
  let size := header.totalFileSize.toNat
  guard (position ≤ size)
  let offset ← flaggedInfoOffset header position
  guard (offset ≤ size ∧ header.compressedInfoSize.toNat ≤ size - offset)
  some offset

/-- The region between header and block-info chunk, or after the chunk. -/
def flaggedRange (header : ArchiveHeader) (position infoOffset : ℕ) : Option (ℕ × ℕ) :=
  if hasFlag header.flags blockInfoAtEnd then some (position, infoOffset)
  else
    let size := header.totalFileSize.toNat
    if size - infoOffset < header.compressedInfoSize.toNat then none
    else some (infoOffset + header.compressedInfoSize.toNat, size)

/-- `(start + 15) & ~15` where the flags ask for padding. -/
def paddedStart (header : ArchiveHeader) (start : ℕ) : Option ℕ :=
  if hasFlag header.flags blockInfoNeedsPadding then
    if sizeMax - 15 < start then none else some ((start + 15) / 16 * 16)
  else some start

/-- The region of the compressed blocks. -/
def dataRange (header : ArchiveHeader) (position infoOffset : ℕ) : Option (ℕ × ℕ) := do
  let (start, stop) ← flaggedRange header position infoOffset
  let start ← paddedStart header start
  guard (start ≤ stop)
  some (start, stop)

/-- The summed sizes of the blocks, decompressed and compressed. -/
def totalSizes : List BundleBlockInfo → ℕ → ℕ → Option (ℕ × ℕ)
  | [], payloadSize, compressedSize => some (payloadSize, compressedSize)
  | block :: blocks, payloadSize, compressedSize => do
      guard (block.decompressedSize.toNat ≤ sizeMax - payloadSize)
      guard (block.compressedSize.toNat ≤ sizeMax - compressedSize)
      totalSizes blocks (payloadSize + block.decompressedSize.toNat)
        (compressedSize + block.compressedSize.toNat)

/-- The payload loop, with the payload written so far and the read position. -/
def decompressBlocks (lzma : Text → Text → ℕ → Option Text) (file : Text)
    (dataEnd payloadSize : ℕ) : List BundleBlockInfo → ℕ → Text → Option (ℕ × Text)
  | [], position, payload => some (position, payload)
  | block :: blocks, position, payload => do
      guard (position ≤ dataEnd ∧ block.compressedSize.toNat ≤ dataEnd - position)
      guard (payload.length ≤ payloadSize ∧
        block.decompressedSize.toNat ≤ payloadSize - payload.length)
      let out ← decompressBlock lzma (block.flags.toUInt32 &&& compressionMask)
        ((file.drop position).take block.compressedSize.toNat) block.decompressedSize.toNat
      decompressBlocks lzma file dataEnd payloadSize blocks
        (position + block.compressedSize.toNat) (payload ++ out)

/-- The extent test, written once before the archive is exposed and once in
each view. -/
def extentInPayload (payloadSize : ℕ) (directory : BundleDirectoryInfo) : Bool :=
  directory.offset.toNat ≤ payloadSize &&
    directory.decompressedSize.toNat ≤ payloadSize - directory.offset.toNat

def bundleOpen (lzma : Text → Text → ℕ → Option Text) (file : Text) : Option BundleArchive := do
  let (header, stream) ← readHeader ⟨file, 0, true⟩
  let stream ← stream.align 16
  let infoOffset ← blockInfoOffset header stream.position
  let info ← decompressBlock lzma (header.flags &&& compressionMask)
    ((file.drop infoOffset).take header.compressedInfoSize.toNat)
    header.decompressedInfoSize.toNat
  let (blocks, directories) ← readBlocksInfo info
  let (dataStart, dataEnd) ← dataRange header stream.position infoOffset
  let (payloadSize, compressedSize) ← totalSizes blocks 0 0
  guard (compressedSize = dataEnd - dataStart)
  let (position, payload) ← decompressBlocks lzma file dataEnd payloadSize blocks dataStart []
  guard (position = dataEnd ∧ payload.length = payloadSize)
  guard (directories.all (extentInPayload payloadSize))
  some { toArchiveHeader := header, blocks, directories, payload }

/-! ## Views -/

/-- A borrowed view: `data` is an offset into the payload, `none` when `NULL`. -/
structure MemberView where
  data : Option ℕ
  size : ℕ
deriving DecidableEq, Repr

def bundleGetMemberView (archive : BundleArchive) (memberIndex : ℕ) : Option MemberView := do
  let dir ← archive.directories[memberIndex]?
  guard (extentInPayload archive.payload.length dir)
  if dir.decompressedSize = 0 then some ⟨none, 0⟩
  else some ⟨some dir.offset.toNat, dir.decompressedSize.toNat⟩

/-- The scan for the name: `none` when a second member carries it. -/
def matchName (name : CString) : List BundleDirectoryInfo → ℕ → Option ℕ → Option (Option ℕ)
  | [], _, found => some found
  | dir :: dirs, index, found =>
      if dir.name ≠ name then matchName name dirs (index + 1) found
      else if found.isSome then none
      else matchName name dirs (index + 1) (some index)

def bundleGetFileView (archive : BundleArchive) (name : CString) : Option MemberView := do
  let found ← matchName name archive.directories 0 none
  let index ← found
  bundleGetMemberView archive index

end UnityCommon.Bundle
