import UnityCommon.Bundle.Layout

/-!
# Opened archives

An archive that opens has a layout, and its directories are exactly the slices
of the payload that the views return.
-/

namespace UnityCommon.Bundle

open Slice

variable {lzma : Text → Text → ℕ → Option Text}

/-! ## The layout -/

/-- The chunks between the gap and the end of the file, in file order. -/
theorem chunks_in_order {file : Text} {header : ArchiveHeader}
    {position offset start stop : ℕ} (hsize : header.totalFileSize.toNat = file.length)
    (hinfo : InfoAt header position offset) (hdata : DataAt header position offset start stop) :
    slice file position file.length =
      if hasFlag header.flags blockInfoAtEnd then
        slice file (dataBase header position offset) start ++ slice file start stop ++
          slice file offset (offset + header.compressedInfoSize.toNat)
      else slice file offset (offset + header.compressedInfoSize.toNat) ++
        slice file (dataBase header position offset) start ++ slice file start stop := by
  have hbase := hdata.base
  have hordered := hdata.ordered
  have hstop := hdata.stop
  cases hflag : hasFlag header.flags blockInfoAtEnd with
  | true =>
      have hend := hinfo.atEnd hflag
      rw [dataBase, if_pos hflag] at hbase
      rw [if_pos hflag] at hstop
      rw [if_pos rfl, dataBase, if_pos hflag, hstop, slice_append hbase (by omega),
        slice_append (by omega) (by omega), hend, hsize]
  | false =>
      have hplace := hinfo.inPlace hflag
      have hbounded := hinfo.bounded
      rw [dataBase, if_neg (by simp [hflag])] at hbase
      rw [if_neg (by simp [hflag])] at hstop
      rw [if_neg (by simp), dataBase, if_neg (by simp [hflag]), hstop, hsize,
        slice_append (by omega) hbase, slice_append (by omega) (by omega), hplace]

/-- The layout that the positions of a successful open describe. -/
def layoutOf (file : Text) (header : ArchiveHeader) (position offset start : ℕ)
    (gap hash : Text) (parts : List Part) : Layout where
  gap := gap
  hash := hash
  info := slice file offset (offset + header.compressedInfoSize.toNat)
  padding := slice file (dataBase header position offset) start
  parts := parts

section LayoutOf

variable {file gap : Text} {header : ArchiveHeader} {position offset start stop : ℕ}

theorem length_layoutOf_info (hash : Text) (parts : List Part)
    (hsize : header.totalFileSize.toNat = file.length)
    (hinfo : InfoAt header position offset) :
    (layoutOf file header position offset start gap hash parts).info.length =
      header.compressedInfoSize.toNat := by
  have hbounded := hinfo.bounded
  rw [layoutOf, length_slice (by omega)]
  omega

theorem length_layoutOf_padding (hash : Text) (parts : List Part)
    (hstart : start ≤ file.length) :
    (layoutOf file header position offset start gap hash parts).padding.length =
      start - dataBase header position offset :=
  length_slice hstart

theorem dataStart_layoutOf (hash : Text) (parts : List Part)
    (hsize : header.totalFileSize.toNat = file.length)
    (hposition : position = (encodeHeader header).length + gap.length)
    (hinfo : InfoAt header position offset) (hdata : DataAt header position offset start stop)
    (hstart : start ≤ file.length) :
    (layoutOf file header position offset start gap hash parts).dataStart header = start := by
  have hbase := hdata.base
  have hplace := hinfo.inPlace
  have hgap : (layoutOf file header position offset start gap hash parts).gap = gap := rfl
  rw [Layout.dataStart, length_layoutOf_padding hash parts hstart,
    length_layoutOf_info hash parts hsize hinfo, hgap, ← hposition]
  unfold dataBase at hbase ⊢
  split_ifs at hbase ⊢ with hflag
  · omega
  · have := hplace (by simpa using hflag)
    omega

theorem padding_layoutOf (hash : Text) (parts : List Part)
    (hsize : header.totalFileSize.toNat = file.length)
    (hposition : position = (encodeHeader header).length + gap.length)
    (hinfo : InfoAt header position offset) (hdata : DataAt header position offset start stop)
    (hstart : start ≤ file.length) :
    PaddingHolds header (layoutOf file header position offset start gap hash parts) := by
  refine ⟨fun hpad => ?_, fun hpad => ?_⟩
  · have hpadded := hdata.padded hpad
    rw [length_layoutOf_padding hash parts hstart,
      dataStart_layoutOf hash parts hsize hposition hinfo hdata hstart]
    exact ⟨by omega, hpadded.2⟩
  · rw [layoutOf, hdata.packed hpad]
    exact slice_self _

end LayoutOf

/-- **An archive that opens has a layout.** -/
theorem bundleOpen_decodes {file : Text} {archive : BundleArchive}
    (h : bundleOpen lzma file = some archive) : ∃ layout, Decodes lzma file archive layout := by
  simp only [bundleOpen, Option.bind_eq_bind, Option.bind_eq_some_iff, Prod.exists,
    Option.guard_eq_some', Option.some.injEq] at h
  obtain ⟨header, s₁, hheader, s₂, halign, offset, hoffset, info, hinfo, blocks, directories,
    hblocks, start, stop, hrange, payloadSize, compressedSize, -, -, -, position, payload,
    hpayload, -, ⟨hposition, hsize⟩, -, hextents, rfl⟩ := h
  -- the front of the file
  obtain ⟨hread, hdialect, htotal⟩ := readHeader_ok rfl hheader
  obtain ⟨gap, hgap, hskip, haligned⟩ := ByteStream.align_consumes (by decide) halign
  have hfront := hread.trans hskip
  have hat : s₂.position = (encodeHeader header).length + gap.length := by
    rw [hfront.position, Nat.zero_add, List.length_append]
  have hsplit : file = encodeHeader header ++ gap ++ slice file s₂.position file.length := by
    have hunread := hfront.unread
    rw [ByteStream.unread, ByteStream.unread, hfront.data, List.drop_zero] at hunread
    rw [slice, List.take_of_length_le (by simp)]
    exact hunread
  -- the chunks behind it
  have htotal : header.totalFileSize.toNat = file.length := htotal
  have hinfoAt := blockInfoOffset_ok hoffset
  have hdataAt := dataRange_ok hrange
  have hbounded := hinfoAt.bounded
  have hordered := hdataAt.ordered
  have hstop : stop ≤ file.length := by
    rw [hdataAt.stop]
    split_ifs <;> omega
  obtain ⟨parts, hparts, -, hcompressed, hdecompressed⟩ := decompressBlocks_ok hstop hpayload
  obtain ⟨hash, hhash, hencoded⟩ := readBlocksInfo_ok hblocks
  rw [hposition] at hcompressed
  rw [hencoded] at hinfo
  refine ⟨layoutOf file header s₂.position offset start gap hash parts,
    { bytes := ?_
      dialect := hdialect
      totalFileSize := htotal
      gap := ⟨hgap, hat ▸ haligned⟩
      hash := hhash
      infoSize := length_layoutOf_info hash parts htotal hinfoAt
      info := ?_
      infoLength := length_decompressBlock hinfo
      padding := padding_layoutOf hash parts htotal hat hinfoAt hdataAt (by omega)
      blocks := hparts
      payload := hdecompressed
      extents := ?_ }⟩
  · rw [Layout.bytes, Layout.compressed, layoutOf]
    dsimp only
    rw [← hcompressed, ← chunks_in_order htotal hinfoAt hdataAt]
    exact hsplit
  · rw [layoutOf, slice_take]
    exact hinfo
  · intro directory hmem
    have hextent := List.all_eq_true.mp hextents directory hmem
    rw [extentInPayload, Bool.and_eq_true, decide_eq_true_iff, decide_eq_true_iff] at hextent
    dsimp only
    omega

/-! ## Views -/

/-- The bytes a view borrows. -/
def MemberView.bytes (payload : Text) (view : MemberView) : Text :=
  match view.data with
  | none => []
  | some offset => (payload.drop offset).take view.size

/-- The bytes a directory entry names. -/
def memberBytes (archive : BundleArchive) (directory : BundleDirectoryInfo) : Text :=
  (archive.payload.drop directory.offset.toNat).take directory.decompressedSize.toNat

/-- The view is the slice of the entry: same bytes, declared size. -/
structure Shows (archive : BundleArchive) (directory : BundleDirectoryInfo)
    (view : MemberView) : Prop where
  bytes : view.bytes archive.payload = memberBytes archive directory
  size : view.size = directory.decompressedSize.toNat
  length : (memberBytes archive directory).length = view.size

theorem memberView_shows {archive : BundleArchive} {index : ℕ} {directory : BundleDirectoryInfo}
    (hat : archive.directories[index]? = some directory)
    (hextent : directory.offset.toNat + directory.decompressedSize.toNat ≤
      archive.payload.length) :
    ∃ view, bundleGetMemberView archive index = some view ∧ Shows archive directory view := by
  have hin : extentInPayload archive.payload.length directory = true := by
    rw [extentInPayload, Bool.and_eq_true, decide_eq_true_iff, decide_eq_true_iff]
    omega
  have hlength : (memberBytes archive directory).length =
      directory.decompressedSize.toNat := by
    rw [memberBytes, List.length_take, List.length_drop]
    omega
  by_cases hempty : directory.decompressedSize = 0
  · refine ⟨⟨none, 0⟩, by simp [bundleGetMemberView, hat, hin, hempty], ?_, ?_, ?_⟩
    · simp [MemberView.bytes, memberBytes, hempty]
    · simp [hempty]
    · rw [hlength, hempty]
      rfl
  · exact ⟨⟨some directory.offset.toNat, directory.decompressedSize.toNat⟩,
      by simp [bundleGetMemberView, hat, hin, hempty], rfl, rfl, hlength⟩

/-- The entry at the index carries the name. -/
def Carries (directories : List BundleDirectoryInfo) (name : CString) (index : ℕ) : Prop :=
  ∃ directory, directories[index]? = some directory ∧ directory.name = name

theorem carries_zero {directory : BundleDirectoryInfo} {directories : List BundleDirectoryInfo}
    {name : CString} : Carries (directory :: directories) name 0 ↔ directory.name = name := by
  simp [Carries]

theorem carries_succ {directory : BundleDirectoryInfo} {directories : List BundleDirectoryInfo}
    {name : CString} {index : ℕ} :
    Carries (directory :: directories) name (index + 1) ↔ Carries directories name index := by
  simp [Carries]

/-- After a match the scan keeps it, and fails at a second one. -/
theorem matchName_found {name : CString} {matched : ℕ} :
    ∀ {directories : List BundleDirectoryInfo} {index result : ℕ},
      matchName name directories index (some matched) = some (some result) ↔
        matched = result ∧ ∀ k, ¬ Carries directories name k
  | [], index, result => by
      simp [matchName, Carries]
  | directory :: directories, index, result => by
      by_cases hname : directory.name = name
      · have hcarries : Carries (directory :: directories) name 0 := carries_zero.mpr hname
        rw [matchName, if_neg (by simpa using hname), Option.isSome_some, if_pos rfl]
        constructor
        · intro h
          cases h
        · rintro ⟨-, hnone⟩
          exact absurd hcarries (hnone 0)
      · rw [matchName, if_pos hname, matchName_found]
        refine and_congr_right fun _ => ⟨fun hnone k => ?_, fun hnone k => ?_⟩
        · cases k with
          | zero => exact fun h => hname (carries_zero.mp h)
          | succ k => exact fun h => hnone k (carries_succ.mp h)
        · exact fun h => hnone (k + 1) (carries_succ.mpr h)

/-- The scan succeeds at the one entry with the name. -/
theorem matchName_none {name : CString} :
    ∀ {directories : List BundleDirectoryInfo} {index result : ℕ},
      matchName name directories index none = some (some result) ↔
        ∃ k, result = index + k ∧ Carries directories name k ∧
          ∀ j, Carries directories name j → j = k
  | [], index, result => by
      simp [matchName, Carries]
  | directory :: directories, index, result => by
      by_cases hname : directory.name = name
      · rw [matchName, if_neg (by simpa using hname), Option.isSome_none, if_neg (by decide),
          matchName_found]
        constructor
        · rintro ⟨rfl, hnone⟩
          refine ⟨0, rfl, carries_zero.mpr hname, fun j hj => ?_⟩
          cases j with
          | zero => rfl
          | succ j => exact absurd (carries_succ.mp hj) (hnone j)
        · rintro ⟨k, rfl, hk, hunique⟩
          obtain rfl := hunique 0 (carries_zero.mpr hname)
          refine ⟨rfl, fun j hj => ?_⟩
          exact absurd (hunique (j + 1) (carries_succ.mpr hj)) (Nat.succ_ne_zero j)
      · rw [matchName, if_pos hname, matchName_none]
        constructor
        · rintro ⟨k, rfl, hk, hunique⟩
          refine ⟨k + 1, by omega, carries_succ.mpr hk, fun j hj => ?_⟩
          cases j with
          | zero => exact absurd (carries_zero.mp hj) hname
          | succ j => rw [hunique j (carries_succ.mp hj)]
        · rintro ⟨k, rfl, hk, hunique⟩
          cases k with
          | zero => exact absurd (carries_zero.mp hk) hname
          | succ k =>
              refine ⟨k, by omega, carries_succ.mp hk, fun j hj => ?_⟩
              have := hunique (j + 1) (carries_succ.mpr hj)
              omega

/-- **Opening is exact.** -/
theorem bundleOpen_exact (lzma : Text → Text → ℕ → Option Text) (file : Text)
    (archive : BundleArchive) (h : bundleOpen lzma file = some archive) :
    (∃ layout, Decodes lzma file archive layout) ∧
    (∀ index directory, archive.directories[index]? = some directory →
      ∃ view, bundleGetMemberView archive index = some view ∧
        Shows archive directory view) ∧
    (∀ name, (∃! index, Carries archive.directories name index) ↔
      ∃ view, bundleGetFileView archive name = some view) ∧
    (∀ name index, (∀ k, Carries archive.directories name k ↔ k = index) →
      bundleGetFileView archive name = bundleGetMemberView archive index) := by
  obtain ⟨layout, hlayout⟩ := bundleOpen_decodes h
  have hmember : ∀ index directory, archive.directories[index]? = some directory →
      ∃ view, bundleGetMemberView archive index = some view ∧
        Shows archive directory view := fun index directory hat =>
    memberView_shows hat (hlayout.extents directory (List.mem_of_getElem? hat))
  have hfile : ∀ name index, (∀ k, Carries archive.directories name k ↔ k = index) →
      bundleGetFileView archive name = bundleGetMemberView archive index := by
    intro name index hunique
    have hmatch : matchName name archive.directories 0 none = some (some index) :=
      matchName_none.mpr ⟨index, by omega, (hunique index).mpr rfl,
        fun j hj => (hunique j).mp hj⟩
    simp [bundleGetFileView, hmatch]
  refine ⟨⟨layout, hlayout⟩, hmember, fun name => ⟨?_, ?_⟩, hfile⟩
  · rintro ⟨index, hcarries, hunique⟩
    have ⟨directory, hat, _⟩ := hcarries
    obtain ⟨view, hview, -⟩ := hmember index directory hat
    refine ⟨view, ?_⟩
    rw [hfile name index fun k => ⟨hunique k, fun hk => hk ▸ hcarries⟩]
    exact hview
  · rintro ⟨view, hview⟩
    simp only [bundleGetFileView, Option.bind_eq_bind, Option.bind_eq_some_iff] at hview
    obtain ⟨found, hmatch, index, rfl, -⟩ := hview
    obtain ⟨k, -, hcarries, hunique⟩ := matchName_none.mp hmatch
    exact ⟨k, hcarries, hunique⟩

/-! ## A padded archive with one LZ4 block -/

def sampleArchive : BundleArchive where
  signature := cstr "UnityFS"
  version := supportedArchiveVersion
  generationVersion := supportedGeneration
  engineVersion := supportedEngineVersion
  totalFileSize := 134
  compressedInfoSize := 56
  decompressedInfoSize := 56
  flags := blocksAndDirectoryInfoCombined ||| blockInfoNeedsPadding
  blocks := [⟨8, 6, 0x43⟩]
  directories := [⟨0, 8, 4, cstr "a"⟩]
  payload := ascii "aaaaaaab"

def sampleFile : Text :=
  encodeHeader sampleArchive.toArchiveHeader ++ List.replicate 14 0 ++
    encodeBlocksInfo (List.replicate 16 0) sampleArchive.blocks sampleArchive.directories ++
    List.replicate 8 0 ++ [0x12, 0x61, 0x01, 0x00, 0x10, 0x62]

theorem bundleOpen_exact_sample :
    (∃ layout, Decodes (fun _ _ _ => none) sampleFile sampleArchive layout) ∧
    (∀ index directory, sampleArchive.directories[index]? = some directory →
      ∃ view, bundleGetMemberView sampleArchive index = some view ∧
        Shows sampleArchive directory view) ∧
    (∀ name, (∃! index, Carries sampleArchive.directories name index) ↔
      ∃ view, bundleGetFileView sampleArchive name = some view) ∧
    (∀ name index, (∀ k, Carries sampleArchive.directories name k ↔ k = index) →
      bundleGetFileView sampleArchive name = bundleGetMemberView sampleArchive index) :=
  bundleOpen_exact (fun _ _ _ => none) sampleFile sampleArchive (by decide +kernel)

end UnityCommon.Bundle
