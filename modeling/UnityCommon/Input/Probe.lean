import UnityCommon.Bundle.Open
import UnityCommon.SerializedFile.OpenedFile

/-!
# Probing an input

The header classification of `io/unity_input.c`. A probe sees the first bytes of
a file and its size; a discovery ignores what it calls unrelated.
-/

namespace UnityCommon.Input

open UnityCommon.Metadata

inductive UnityInputKind where
  | unrelated
  | serializedFileV22
  | unityfs
  | unsupportedSerializedFile
  | unsupportedUnityArchive
deriving DecidableEq, Repr

structure UnityInputProbe where
  kind : UnityInputKind
  serializedFileVersion : UInt32
  fileSize : ℕ
deriving DecidableEq, Repr

inductive UnityInputStatus where
  | ok
  | invalidArgument
  | fileError
  | unrelated
  | unsupported
  | containerInvalid
  | memberInvalid
  | visitorFailed
deriving DecidableEq, Repr

def unityInputPrefixSize : ℕ := 96

/-- The signature with its terminator. -/
def hasArchiveSignature (data : Text) (signature : String) : Bool :=
  (ascii signature ++ [0]).isPrefixOf data

/-- An archive of a kind that is not supported. -/
def isOtherArchive (data : Text) : Bool :=
  hasArchiveSignature data "UnityRaw" || hasArchiveSignature data "UnityWeb" ||
    hasArchiveSignature data "UnityArchive"

/-- The version of a header that looks like one. Only other versions than 22 are
asked for the endian byte and the reserved bytes behind it. -/
def hasSerializedHeaderMarker (data : Text) : Option UInt32 :=
  if data.length < 20 then none
  else
    let version := readBe32 data 8
    if version = 0 ∨ 100 < version then none
    else if version ≠ 22 ∧ (1 < data.getD 16 0 ∨ data.getD 17 0 ≠ 0 ∨ data.getD 18 0 ≠ 0 ∨
      data.getD 19 0 ≠ 0) then none
    else some version

/-- `serialized_file_header_query`, with a unit of work for its result. -/
def serializedFileHeaderQuery (mapped : Text) (logicalSize maxWork : ℕ) :
    PrefixResult × Option HeaderView :=
  if logicalSize < mapped.length then (⟨.invalidArgument, 0, noOffset⟩, none)
  else prefixResult do
    let header ← queryHeader mapped logicalSize maxWork
    chargePrefixWork maxWork 1 noOffset
    return header

/-- The status, and the probe where the caller's record is written. -/
def unityInputProbeBytes (data : Text) (fileSize : ℕ) :
    UnityInputStatus × Option UnityInputProbe :=
  if fileSize < data.length then (.invalidArgument, none)
  else if hasArchiveSignature data "UnityFS" then (.ok, some ⟨.unityfs, 0, fileSize⟩)
  else if isOtherArchive data then
    (.unsupported, some ⟨.unsupportedUnityArchive, 0, fileSize⟩)
  else
    match hasSerializedHeaderMarker data with
    | none => (.unrelated, some ⟨.unrelated, 0, fileSize⟩)
    | some version =>
        if version ≠ 22 then
          (.unsupported, some ⟨.unsupportedSerializedFile, version, fileSize⟩)
        else if (serializedFileHeaderQuery data fileSize (v22HeaderSize + 1)).1.status ≠ .ok then
          (.unsupported, some ⟨.unsupportedSerializedFile, version, fileSize⟩)
        else (.ok, some ⟨.serializedFileV22, version, fileSize⟩)

/-! ## The header query -/

section Header

variable {mapped file : Text} {logicalSize : ℕ}

/-- **The query accepts a header that is there and in order**, for the work of
its bytes and one unit more. -/
theorem headerQuery_ok_iff :
    (serializedFileHeaderQuery mapped logicalSize (v22HeaderSize + 1)).1.status = .ok ↔
      mapped.length ≤ logicalSize ∧ v22HeaderSize ≤ mapped.length ∧
        HeaderOk mapped logicalSize := by
  constructor
  · intro h
    rw [serializedFileHeaderQuery] at h
    split at h
    · cases h
    · rename_i hle
      simp only [prefixResult, queryHeader, chargePrefixWork, Call.bind_apply, Call.andThen,
        Call.require, Call.current, Call.replace] at h
      split_ifs at h with hcomplete hmapped hversion hendian hfile hdata hsize hend
      all_goals first
        | exact ⟨Nat.le_of_not_lt hle, hmapped,
            ⟨hcomplete, hversion, hendian, hfile, hdata, hsize, hend⟩⟩
        | cases h
  · rintro ⟨hle, hmapped, hok⟩
    rw [serializedFileHeaderQuery, if_neg (Nat.not_lt.mpr hle)]
    simp only [prefixResult, queryHeader, chargePrefixWork, Call.bind_apply, Call.andThen,
      Call.require, Call.current, Call.replace, if_pos hok.complete, if_pos hmapped,
      if_pos hok.version, if_pos hok.endian, if_pos hok.fileSize, if_pos hok.dataOffset,
      if_pos hok.metadataSize, if_pos hok.metadataEnd]
    rfl

/-- The bytes of a field inside the front. -/
theorem span_take {capacity : ℕ} {span : PrefixSpan} (h : span.offset + span.size ≤ capacity) :
    span.bytes (file.take capacity) = span.bytes file := by
  rw [PrefixSpan.bytes, PrefixSpan.bytes, List.drop_take, List.take_take]
  congr 1
  omega

theorem getD_take (file : Text) {capacity i : ℕ} (h : i < capacity) :
    (file.take capacity).getD i 0 = file.getD i 0 := by
  rw [List.getD_eq_getElem?_getD, List.getD_eq_getElem?_getD, List.getElem?_take_of_lt h]

theorem headerOk_take {capacity : ℕ} (h : 48 ≤ capacity) :
    HeaderOk (file.take capacity) logicalSize ↔ HeaderOk file logicalSize := by
  have hbe64 : ∀ offset, offset + 8 ≤ 48 →
      readBe64 (file.take capacity) offset = readBe64 file offset := by
    intro offset hoffset
    rw [readBe64, readBe64, span_take (by dsimp only; omega)]
  have hversion : readBe32 (file.take capacity) 8 = readBe32 file 8 := by
    rw [readBe32, readBe32, span_take (by dsimp only; omega)]
  have hendian : (file.take capacity).getD 40 0 = file.getD 40 0 := getD_take file (by omega)
  have h16 := hbe64 16 (by decide)
  have h24 := hbe64 24 (by decide)
  have h32 := hbe64 32 (by decide)
  constructor
  · rintro ⟨hcomplete, hver, hend, hsize, hdata, hmetadata, hmetadataEnd⟩
    rw [h16] at hmetadata hmetadataEnd
    rw [h24] at hsize hdata
    rw [h32] at hdata hmetadataEnd
    exact ⟨hcomplete, hversion ▸ hver, hendian ▸ hend, hsize, hdata, hmetadata, hmetadataEnd⟩
  · rintro ⟨hcomplete, hver, hend, hsize, hdata, hmetadata, hmetadataEnd⟩
    refine ⟨hcomplete, hversion ▸ hver, hendian ▸ hend, ?_, ?_, ?_, ?_⟩
    · rw [h24]
      exact hsize
    · rw [h24, h32]
      exact hdata
    · rw [h16]
      exact hmetadata
    · rw [h16, h32]
      exact hmetadataEnd

end Header

/-! ## The front of a file decides -/

section Front

variable {file : Text} {capacity : ℕ}

theorem isPrefixOf_take {sought : Text} (h : sought.length ≤ capacity) :
    sought.isPrefixOf (file.take capacity) = sought.isPrefixOf file := by
  rw [Bool.eq_iff_iff, List.isPrefixOf_iff_prefix, List.isPrefixOf_iff_prefix, List.prefix_take_iff]
  exact and_iff_left h

theorem hasSerializedHeaderMarker_take (h : 48 ≤ capacity) :
    hasSerializedHeaderMarker (file.take capacity) = hasSerializedHeaderMarker file := by
  have hlength : (file.take capacity).length < 20 ↔ file.length < 20 := by
    rw [List.length_take]
    omega
  have hversion : readBe32 (file.take capacity) 8 = readBe32 file 8 := by
    rw [readBe32, readBe32, span_take (by dsimp only; omega)]
  simp only [hasSerializedHeaderMarker, hlength, hversion,
    getD_take file (show 16 < capacity by omega), getD_take file (show 17 < capacity by omega),
    getD_take file (show 18 < capacity by omega), getD_take file (show 19 < capacity by omega)]

/-- The header query asks for no more than the front. -/
theorem headerQuery_take (h : 48 ≤ capacity) :
    (serializedFileHeaderQuery (file.take capacity) file.length (v22HeaderSize + 1)).1.status = .ok ↔
      HeaderOk file file.length := by
  rw [headerQuery_ok_iff, headerOk_take h]
  constructor
  · exact fun h => h.2.2
  · intro hok
    have hcomplete : 48 ≤ file.length := hok.complete
    refine ⟨List.length_take_le' capacity file, ?_, hok⟩
    rw [List.length_take]
    exact Nat.le_min.mpr ⟨h, hcomplete⟩

theorem headerQuery_self :
    (serializedFileHeaderQuery file file.length (v22HeaderSize + 1)).1.status = .ok ↔
      HeaderOk file file.length := by
  rw [headerQuery_ok_iff]
  exact ⟨fun h => h.2.2, fun hok => ⟨Nat.le_refl _, hok.complete, hok⟩⟩

/-- **The front decides**: 48 bytes give the answer that the whole file gives. -/
theorem unityInputProbeBytes_take (h : 48 ≤ capacity) :
    unityInputProbeBytes (file.take capacity) file.length =
      unityInputProbeBytes file file.length := by
  have hshort : ¬ file.length < (file.take capacity).length :=
    Nat.not_lt.mpr (List.length_take_le' capacity file)
  have hsignature : ∀ signature : String, (ascii signature ++ [0]).length ≤ 48 →
      hasArchiveSignature (file.take capacity) signature = hasArchiveSignature file signature :=
    fun signature hlength => isPrefixOf_take (hlength.trans h)
  have hquery : ((serializedFileHeaderQuery (file.take capacity) file.length
        (v22HeaderSize + 1)).1.status ≠ .ok) =
      ((serializedFileHeaderQuery file file.length (v22HeaderSize + 1)).1.status ≠ .ok) := by
    rw [Ne, Ne, headerQuery_take h, headerQuery_self]
  rw [unityInputProbeBytes, unityInputProbeBytes, if_neg hshort, if_neg (Nat.lt_irrefl _),
    isOtherArchive, isOtherArchive, hsignature "UnityFS" (by decide),
    hsignature "UnityRaw" (by decide), hsignature "UnityWeb" (by decide),
    hsignature "UnityArchive" (by decide), hasSerializedHeaderMarker_take h]
  simp only [hquery]

end Front

/-! ## What opens -/

section Opens

variable {file : Text}

theorem hasSerializedHeaderMarker_of_headerOk (h : HeaderOk file file.length) :
    hasSerializedHeaderMarker file = some 22 := by
  have hcomplete : 48 ≤ file.length := h.complete
  rw [hasSerializedHeaderMarker, if_neg (by omega)]
  simp only [h.version]
  rfl

/-- **Which files are probed as what**, the supported kinds. -/
theorem probe_ok_iff {probe : UnityInputProbe} :
    unityInputProbeBytes file file.length = (.ok, some probe) ↔
      (hasArchiveSignature file "UnityFS" = true ∧ probe = ⟨.unityfs, 0, file.length⟩) ∨
      (hasArchiveSignature file "UnityFS" = false ∧ isOtherArchive file = false ∧
        HeaderOk file file.length ∧ probe = ⟨.serializedFileV22, 22, file.length⟩) := by
  rw [unityInputProbeBytes, if_neg (Nat.lt_irrefl _)]
  by_cases hsigned : hasArchiveSignature file "UnityFS" = true
  · rw [if_pos hsigned, hsigned]
    simp only [Prod.mk.injEq, true_and, Option.some.injEq, reduceCtorEq, false_and, or_false]
    exact eq_comm
  have hunsigned : hasArchiveSignature file "UnityFS" = false := Bool.eq_false_iff.mpr hsigned
  rw [if_neg hsigned, hunsigned]
  by_cases hother : isOtherArchive file = true
  · rw [if_pos hother, hother]
    simp only [Prod.mk.injEq, reduceCtorEq, false_and, and_false, or_false]
  have hunother : isOtherArchive file = false := Bool.eq_false_iff.mpr hother
  rw [if_neg hother]
  constructor
  · intro h
    split at h
    · cases h
    · rename_i version hmarker
      split_ifs at h with hversion hstatus
      · cases h
      · cases h
      · have hok := headerQuery_self.mp (not_not.mp hstatus)
        have hvalue := hasSerializedHeaderMarker_of_headerOk hok
        rw [hmarker] at hvalue
        cases hvalue
        cases h
        exact Or.inr ⟨rfl, hunother, hok, rfl⟩
  · rintro (⟨hfalse, -⟩ | ⟨-, -, hok, rfl⟩)
    · cases hfalse
    · rw [hasSerializedHeaderMarker_of_headerOk hok]
      dsimp only
      rw [if_neg (by decide), if_neg (not_not.mpr (headerQuery_self.mpr hok))]

theorem hasArchiveSignature_of_bundleOpen {lzma : Text → Text → ℕ → Option Text}
    {archive : Bundle.BundleArchive} (h : Bundle.bundleOpen lzma file = some archive) :
    hasArchiveSignature file "UnityFS" = true := by
  obtain ⟨layout, hlayout⟩ := Bundle.bundleOpen_decodes h
  rw [hasArchiveSignature, List.isPrefixOf_iff_prefix, hlayout.bytes, Bundle.Layout.bytes,
    Bundle.encodeHeader, hlayout.dialect.signature]
  simp only [List.append_assoc]
  exact ⟨_, rfl⟩

theorem headerOk_of_readMetadata {σ : Type} {answers : ℕ → Bool} {s s' : σ} {n n' : ℕ}
    {opened : SerializedFile} (h : readMetadata file answers s n = .ok opened s' n') :
    HeaderOk file file.length := by
  obtain ⟨⟨directory, ran⟩, _, _, hdirectory, -⟩ := Call.bind_eq_ok.mp h
  obtain ⟨engineVersion, plan, hplan, -⟩ := readDirectory_ok hdirectory
  obtain ⟨hhead, -⟩ := directoryPlan_eq_some.mp hplan
  exact (prefixFormat_eq_some.mp hhead).1

/-- **No file that opens is overlooked.** The first bytes give the probe of the
whole file, whatever comes of it. It is a success for the files signed as UnityFS and, of those that
are not signed as an archive at all, for the ones with a version 22 header in
order. An archive that opens is probed as one; a serialized file that opens is
probed as one unless its first bytes sign it as an archive too; and so nothing
that opens is called unrelated. -/
theorem probe_covers_open (file : Text) (capacity : ℕ) (hcapacity : 48 ≤ capacity) :
    unityInputProbeBytes (file.take capacity) file.length =
      unityInputProbeBytes file file.length ∧
    (∀ probe, unityInputProbeBytes (file.take capacity) file.length = (.ok, some probe) ↔
      (hasArchiveSignature file "UnityFS" = true ∧ probe = ⟨.unityfs, 0, file.length⟩) ∨
      (hasArchiveSignature file "UnityFS" = false ∧ isOtherArchive file = false ∧
        HeaderOk file file.length ∧ probe = ⟨.serializedFileV22, 22, file.length⟩)) ∧
    (∀ lzma archive, Bundle.bundleOpen lzma file = some archive →
      unityInputProbeBytes (file.take capacity) file.length =
        (.ok, some ⟨.unityfs, 0, file.length⟩)) ∧
    (∀ sha256 provenance permit answers registry n opened registry' n',
      serializedFileOpenInternal sha256 file provenance permit answers registry n =
        .ok opened registry' n' →
      (unityInputProbeBytes (file.take capacity) file.length).1 ≠ .unrelated ∧
      (hasArchiveSignature file "UnityFS" = false → isOtherArchive file = false →
        unityInputProbeBytes (file.take capacity) file.length =
          (.ok, some ⟨.serializedFileV22, 22, file.length⟩))) := by
  rw [unityInputProbeBytes_take hcapacity]
  refine ⟨rfl, fun probe => probe_ok_iff, fun lzma archive hopen => ?_, ?_⟩
  · exact probe_ok_iff.mpr (Or.inl ⟨hasArchiveSignature_of_bundleOpen hopen, rfl⟩)
  · intro sha256 provenance permit answers registry n opened registry' n' hopen
    obtain ⟨-, hopen⟩ := Call.require_bind_eq_ok.mp hopen
    obtain ⟨-, hopen⟩ := Call.require_bind_eq_ok.mp hopen
    obtain ⟨read, _, n₁, hread, -⟩ := Call.within_bind_eq_ok.mp hopen
    have hok := headerOk_of_readMetadata hread
    refine ⟨?_, fun hunsigned hother => probe_ok_iff.mpr (Or.inr ⟨hunsigned, hother, hok, rfl⟩)⟩
    by_cases hsigned : hasArchiveSignature file "UnityFS" = true
    · rw [probe_ok_iff.mpr (Or.inl ⟨hsigned, rfl⟩)]
      exact UnityInputStatus.noConfusion
    by_cases hother : isOtherArchive file = true
    · rw [unityInputProbeBytes, if_neg (Nat.lt_irrefl _), if_neg hsigned, if_pos hother]
      exact UnityInputStatus.noConfusion
    · rw [probe_ok_iff.mpr (Or.inr ⟨Bool.eq_false_iff.mpr hsigned, Bool.eq_false_iff.mpr hother,
        hok, rfl⟩)]
      exact UnityInputStatus.noConfusion

/-- A header of version 22 with nothing behind it. -/
def sampleImage : Text :=
  List.replicate 11 0 ++ [22] ++ List.replicate 19 0 ++ [48] ++ List.replicate 7 0 ++ [48] ++
    List.replicate 8 0

/-- An archive and a serialized file that open, each by its first 48 bytes, and a
file that is neither. -/
theorem probe_covers_open_sample :
    unityInputProbeBytes (Bundle.sampleFile.take 48) Bundle.sampleFile.length =
      (.ok, some ⟨.unityfs, 0, Bundle.sampleFile.length⟩) ∧
    unityInputProbeBytes (sampleObjectsFileData.take 48) sampleObjectsFileData.length =
      (.ok, some ⟨.serializedFileV22, 22, sampleObjectsFileData.length⟩) ∧
    (unityInputProbeBytes ((List.replicate 99 7).take 48) 99).1 = .unrelated := by
  refine ⟨?_, ?_, ?_⟩
  · exact (probe_covers_open Bundle.sampleFile 48 (Nat.le_refl _)).2.2.1 (fun _ _ _ => none)
      Bundle.sampleArchive (by decide +kernel)
  · obtain ⟨opened, registry, n, hopen, -⟩ : ∃ opened registry n,
        serializedFileOpenInternal Registry.lastBytesDigest sampleObjectsFileData .untrustedInput
          true Call.granted none 0 = .ok opened registry n ∧ True :=
      Call.Result.exists_ok (by decide +kernel)
    exact ((probe_covers_open sampleObjectsFileData 48 (Nat.le_refl _)).2.2.2 _ _ _ _ _ _ _ _ _
      hopen).2 (by decide +kernel) (by decide +kernel)
  · have hwhole := (probe_covers_open (List.replicate 99 7) 48 (Nat.le_refl _)).1
    rw [List.length_replicate] at hwhole
    rw [hwhole]
    decide +kernel

end Opens

end UnityCommon.Input
