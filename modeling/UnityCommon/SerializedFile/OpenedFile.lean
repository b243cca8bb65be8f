import UnityCommon.SerializedFile.ClassSchema
import UnityCommon.SerializedFile.ObjectRanges
import UnityCommon.SerializedFile.Open
import UnityCommon.SerializedFile.Partition
import UnityCommon.SerializedFile.TypeAgreement

/-!
# Opened files

Every way to open a file, the lookup of an object and of its bytes, and what all
the readers of an open file rely on. The invariant is established by the open and
kept by every later resolution of a class.
-/

namespace UnityCommon

open UnityCommon.TypeTree UnityCommon.Registry UnityCommon.Metadata UnityCommon.ClassSchema
open Call (ofOption_eq_ok ofOption_bind_eq_ok)

/-! ## The other ways to open a file -/

section

variable {σ : Type} (sha256 : Text → Sha256Digest)

def serializedFileOpenWithSchemaRegistry (fileData : Text) :
    Call Unit (Option TypeTreeSchemaRegistry) SerializedFile :=
  serializedFileOpenWithSchemaRegistryEx sha256 fileData .untrustedInput

/-- There is no registry: what a registry is asked for fails. -/
def serializedFileOpen (fileData : Text) : Call Unit σ SerializedFile := do
  let (file, _) ← Call.within none (serializedFileOpenWithSchemaRegistry sha256 fileData)
  return file

/-- Records may stay without a tree. -/
def serializedFileOpenMetadata (fileData : Text) : Call Unit σ SerializedFile := do
  let (file, _) ← Call.within none
    (serializedFileOpenInternal sha256 fileData .untrustedInput true)
  return file

end

/-! ## Objects of a file -/

def serializedFileGetObject (file : SerializedFile) (pathId : Int64) : Option AssetObjectInfo :=
  file.objects.find? fun object => object.pathId = pathId

/-- The pointer that is returned is the data of the file plus the offset. -/
def serializedFileGetObjectData (file : SerializedFile) (object : AssetObjectInfo) :
    Option PrefixSpan :=
  if 0xffffffffffffffff - file.dataOffset < object.byteOffset then none
  else
    let absOffset := file.dataOffset + object.byteOffset
    if file.fileSize < absOffset ∨ file.fileSize - absOffset < object.byteSize.toUInt64 then none
    else some ⟨absOffset.toNat, object.byteSize.toNat⟩

/-! ## What an open file is -/

/-- The object lies in the data region, and its class is that of its type record. -/
structure AssetObjectInfo.Placed (file : SerializedFile) (object : AssetObjectInfo) : Prop where
  byteOffset : object.byteOffset.toNat ≤ int64Max
  fits : file.dataOffset.toNat + object.byteOffset.toNat + object.byteSize.toNat ≤
    file.fileSize.toNat
  index : 0 ≤ object.typeIdOrIndex
  type : ∃ type, file.types[object.typeIdOrIndex.toNatClampNeg]? = some type ∧
    object.typeId = type.typeId ∧ object.scriptTypeIndex = type.scriptTypeIndex

/-- A record without a tree, or one whose tree is a valid schema. -/
def Readable (type : TypeTreeType) : Prop :=
  type.nodes = [] ∨ typetreeValidateSchema type = true

/-- What the metadata of the file says, in the terms of the bytes. -/
structure SerializedFile.Decoded (file : SerializedFile) (fileData : Text) : Prop where
  rawData : file.rawData = fileData
  version : file.version = 22
  unityVersion : ∃ engineVersion : DirectoryEngineVersion,
    file.unityVersion.map CString.bytes = some engineVersion.expectedVersion
  fileSize : file.fileSize.toNat = fileData.length
  metadata : v22HeaderSize + file.metadataSize.toNat ≤ file.dataOffset.toNat
  dataOffset : file.dataOffset.toNat ≤ file.fileSize.toNat
  objects : ∀ object ∈ file.objects, object.Placed file
  types : ∀ type ∈ file.types, type.isRefType = false ∧ Readable type
  refTypes : ∀ type ∈ file.refTypes, type.isRefType = true ∧ Readable type

/-- The file is one that these bytes open to. -/
structure SerializedFile.Describes (file : SerializedFile) (fileData : Text) : Prop
    extends file.Decoded fileData where
  compatible : file.objects.Pairwise AssetObjectInfo.Compatible

/-- A file that was opened from these bytes one way or another, and whose classes
were resolved since in any order, successfully or not. -/
inductive OpenFile (sha256 : Text → Sha256Digest) (fileData : Text) : SerializedFile → Prop
  | opened {provenance answers registry n file state n'} :
      (∀ known ∈ registry, Reachable sha256 known) →
      serializedFileOpenWithSchemaRegistryEx sha256 fileData provenance answers registry n =
        .ok file state n' →
      OpenFile sha256 fileData file
  | metadata {answers n file n'} :
      serializedFileOpenMetadata sha256 fileData answers () n = .ok file () n' →
      OpenFile sha256 fileData file
  | resolve {file} (classId : Int32) (registry : Option TypeTreeSchemaRegistry)
      (answers : ℕ → Bool) (n : ℕ) :
      OpenFile sha256 fileData file →
      (∀ known ∈ registry, Reachable sha256 known) →
      OpenFile sha256 fileData (serializedFileResolveClassSchema classId registry answers file n).state

/-- Without a registry a file is opened as with an untrusted one that is absent. -/
theorem OpenFile.of_open {sha256 : Text → Sha256Digest} {fileData : Text} {file : SerializedFile}
    {answers : ℕ → Bool} {n n' : ℕ}
    (h : serializedFileOpen sha256 fileData answers () n = .ok file () n') :
    OpenFile sha256 fileData file := by
  obtain ⟨read, _, n₁, hread, h⟩ := Call.within_bind_eq_ok.mp h
  obtain ⟨rfl, -, -⟩ := Call.pure_eq_ok.mp h
  have hreach : ∀ known ∈ (none : Option TypeTreeSchemaRegistry), Reachable sha256 known := by
    intro known hknown
    cases hknown
  exact .opened hreach hread

/-! ## Reading the metadata -/

section Metadata

variable {σ : Type} {fileData : Text} {answers : ℕ → Bool} {s s' : σ} {n n' : ℕ}
  {file : SerializedFile}

theorem readDirectory_ok {directory : SerializedFileDirectory} {ran : DirectoryResult}
    (h : readDirectory fileData answers s n = .ok (directory, ran) s' n') :
    ∃ engineVersion plan, directoryPlan fileData fileData.length engineVersion = some plan ∧
      directory = plan.owner := by
  unfold readDirectory Call.recover at h
  dsimp only at h
  split at h
  · rename_i hfirst
    obtain ⟨hvalue, -, -⟩ := Call.Result.ok.inj h
    cases hvalue
    obtain ⟨plan, hplan, -, howner, -⟩ := directoryCreate_ok hfirst
    exact ⟨_, plan, hplan, howner⟩
  · split at h
    · obtain ⟨plan, hplan, -, howner, -⟩ := directoryCreate_ok (Call.relabel_eq_ok.mp h)
      exact ⟨_, plan, hplan, howner⟩
    · cases h

/-- A table has one record for each row, made from it. -/
theorem materializeRows_ok {α β : Type} {materialize : α → Call Unit σ β} {R : α → β → Prop}
    (hR : ∀ row s n record s' n', materialize row answers s n = .ok record s' n' → R row record) :
    ∀ {rows : List α} {records : List β} {s : σ} {n : ℕ},
      materializeRows materialize rows answers s n = .ok records s' n' →
        records.length = rows.length ∧ ∀ record ∈ records, ∃ row ∈ rows, R row record := by
  intro rows
  induction rows with
  | nil =>
      intro records s n h
      obtain ⟨rfl, -, -⟩ := Call.pure_eq_ok.mp h
      exact ⟨rfl, fun record hrecord => absurd hrecord List.not_mem_nil⟩
  | cons row rows ih =>
      intro records s n h
      obtain ⟨first, s₁, n₁, hrow, h⟩ := Call.bind_eq_ok.mp h
      obtain ⟨rest, s₂, n₂, hrest, h⟩ := Call.bind_eq_ok.mp h
      obtain ⟨rfl, rfl, rfl⟩ := Call.pure_eq_ok.mp h
      obtain ⟨hlength, hmade⟩ := ih hrest
      refine ⟨congrArg (· + 1) hlength, ?_⟩
      intro record hrecord
      rcases List.mem_cons.mp hrecord with rfl | hrecord
      · exact ⟨row, List.mem_cons_self, hR _ _ _ _ _ _ hrow⟩
      · obtain ⟨made, hmem, hmade⟩ := hmade record hrecord
        exact ⟨made, List.mem_cons_of_mem _ hmem, hmade⟩

theorem materializeTable_ok {α β : Type} {materialize : α → Call Unit σ β} {R : α → β → Prop}
    (hR : ∀ row s n record s' n', materialize row answers s n = .ok record s' n' → R row record)
    {rows : List α} {records : List β}
    (h : materializeTable materialize rows answers s n = .ok records s' n') :
    records.length = rows.length ∧ ∀ record ∈ records, ∃ row ∈ rows, R row record := by
  obtain ⟨_, s₁, n₁, -, h⟩ := Call.bind_eq_ok.mp h
  exact materializeRows_ok hR h

theorem readTreePayload_isRefType {type type' : TypeTreeType} {stream stream' : ByteStream}
    {version nodeCount stringBufferSize : UInt32}
    (h : readTreePayload type stream version nodeCount stringBufferSize answers s n =
      .ok (type', stream') s' n') : type'.isRefType = type.isRefType := by
  obtain ⟨⟨nodes, s₁⟩, _, _, -, h⟩ := Call.bind_eq_ok.mp h
  obtain ⟨⟨stringBuffer, s₂⟩, _, _, -, h⟩ := Call.bind_eq_ok.mp h
  obtain ⟨bound, _, _, hbind, h⟩ := Call.bind_eq_ok.mp h
  obtain ⟨hvalue, -, -⟩ := Call.pure_eq_ok.mp h
  cases hvalue
  obtain ⟨hsome, -, -⟩ := ofOption_eq_ok.mp hbind
  unfold typetreeBindNodeStrings at hsome
  split_ifs at hsome
  cases hsome
  rfl

theorem materializeTypeIdentity_ok {row : MetadataTypePrefix} {type : TypeTreeType}
    (h : materializeTypeIdentity fileData row = some type) :
    type.nodes = [] ∧ type.isRefType = false := by
  unfold materializeTypeIdentity at h
  split_ifs at h
  cases h
  exact ⟨rfl, rfl⟩

theorem materializeDirectoryType_ok {row : DirectoryTypeRow} {bigEndian : Bool}
    {type : TypeTreeType}
    (h : typetreeMaterializeDirectoryType fileData row bigEndian answers s n = .ok type s' n') :
    type.isRefType = false ∧ Readable type := by
  obtain ⟨identity, hidentity, h⟩ := ofOption_bind_eq_ok.mp h
  obtain ⟨hnodes, hordinary⟩ := materializeTypeIdentity_ok hidentity
  generalize row.tree = payload at h
  rcases payload with _ | tree
  · obtain ⟨rfl, -, -⟩ := Call.pure_eq_ok.mp h
    exact ⟨hordinary, Or.inl hnodes⟩
  generalize row.dependencies = found at h
  rcases found with _ | dependencies
  · obtain ⟨rfl, -, -⟩ := Call.pure_eq_ok.mp h
    exact ⟨hordinary, Or.inl hnodes⟩
  obtain ⟨built, _, _, htree, h⟩ := Call.bind_eq_ok.mp h
  obtain ⟨⟨words, stream⟩, _, _, -, h⟩ := Call.bind_eq_ok.mp h
  obtain ⟨-, h⟩ := Call.require_bind_eq_ok.mp h
  obtain ⟨hvalid, h⟩ := Call.require_bind_eq_ok.mp h
  obtain ⟨rfl, -, -⟩ := Call.pure_eq_ok.mp h
  obtain ⟨-, stream', hread, -⟩ := MetadataSource.materializeTreePayload_eq_ok.mp htree
  exact ⟨(readTreePayload_isRefType hread).trans hordinary, Or.inr hvalid⟩

theorem materializeReferenceType_ok {row : TailReferenceTypeRow} {bigEndian : Bool}
    {type : TypeTreeType}
    (h : typetreeMaterializeMetadataTailReferenceType fileData row bigEndian answers s n =
      .ok type s' n') :
    type.isRefType = true ∧ Readable type := by
  obtain ⟨identity, hidentity, h⟩ := ofOption_bind_eq_ok.mp h
  obtain ⟨hnodes, -⟩ := materializeTypeIdentity_ok hidentity
  generalize row.tree = payload at h
  rcases payload with _ | tree
  · obtain ⟨rfl, -, -⟩ := Call.pure_eq_ok.mp h
    exact ⟨rfl, Or.inl hnodes⟩
  generalize row.names = found at h
  rcases found with _ | names
  · obtain ⟨rfl, -, -⟩ := Call.pure_eq_ok.mp h
    exact ⟨rfl, Or.inl hnodes⟩
  obtain ⟨built, _, _, htree, h⟩ := Call.bind_eq_ok.mp h
  obtain ⟨refClassName, _, _, -, h⟩ := Call.bind_eq_ok.mp h
  obtain ⟨refNamespace, _, _, -, h⟩ := Call.bind_eq_ok.mp h
  obtain ⟨refAsmName, _, _, -, h⟩ := Call.bind_eq_ok.mp h
  obtain ⟨hvalid, h⟩ := Call.require_bind_eq_ok.mp h
  obtain ⟨rfl, -, -⟩ := Call.pure_eq_ok.mp h
  obtain ⟨-, stream', hread, -⟩ := MetadataSource.materializeTreePayload_eq_ok.mp htree
  exact ⟨readTreePayload_isRefType hread, Or.inr hvalid⟩

/-- What a row says of its object. -/
structure RowPlaced (header : HeaderView) (row : DirectoryObjectRow) : Prop where
  offset : row.relativeDataOffset ≤ header.fileSize - header.dataOffset
  size : row.byteSize.toNat ≤ header.fileSize - header.dataOffset - row.relativeDataOffset

theorem directoryObject_placed {source : MetadataSource} {header : HeaderView}
    {typeCount ordinal at_ : ℕ} {row : DirectoryObjectRow} {d : ScanCost}
    (h : source.directoryObject header typeCount ordinal at_ = some (row, d)) :
    RowPlaced header row := by
  obtain ⟨span, d₁, _, -, h₁, -⟩ := Decoder.bind_eq_some.mp h
  obtain ⟨_, d₂, _, hoffset, h₂, -⟩ := Decoder.bind_eq_some.mp h₁
  obtain ⟨hstarts, rfl⟩ := Decoder.require_eq_some.mp hoffset
  obtain ⟨_, d₃, _, hsize, h₃, -⟩ := Decoder.bind_eq_some.mp h₂
  obtain ⟨hfits, rfl⟩ := Decoder.require_eq_some.mp hsize
  obtain ⟨_, d₄, _, -, h₄, -⟩ := Decoder.bind_eq_some.mp h₃
  obtain ⟨_, d₅, _, -, hp, -⟩ := Decoder.bind_eq_some.mp h₄
  obtain ⟨rfl, rfl⟩ := Decoder.pure_eq_some.mp hp
  exact ⟨hstarts, hfits⟩

theorem directory_placed {source : MetadataSource} {engineVersion : DirectoryEngineVersion}
    {prefixView : PrefixView} {plannedTypes plannedObjects : Option ℕ} {at_ : ℕ}
    {directory : SerializedFileDirectory} {d : ScanCost}
    (h : source.directory engineVersion prefixView plannedTypes plannedObjects at_ =
      some (directory, d)) :
    ∀ row ∈ directory.objects, RowPlaced prefixView.header row := by
  obtain ⟨_, _, _, -, h₁, -⟩ := Decoder.bind_eq_some.mp h
  obtain ⟨_, _, _, -, h₂, -⟩ := Decoder.bind_eq_some.mp h₁
  obtain ⟨_, _, _, -, h₃, -⟩ := Decoder.bind_eq_some.mp h₂
  obtain ⟨_, _, _, -, h₄, -⟩ := Decoder.bind_eq_some.mp h₃
  obtain ⟨_, _, _, -, h₅, -⟩ := Decoder.bind_eq_some.mp h₄
  obtain ⟨_, _, _, -, h₆, -⟩ := Decoder.bind_eq_some.mp h₅
  obtain ⟨_, _, _, -, h₇, -⟩ := Decoder.bind_eq_some.mp h₆
  obtain ⟨_, _, _, -, h₈, -⟩ := Decoder.bind_eq_some.mp h₇
  obtain ⟨objects, _, _, hrows, h₉, -⟩ := Decoder.bind_eq_some.mp h₈
  obtain ⟨_, _, _, -, hp, -⟩ := Decoder.bind_eq_some.mp h₉
  obtain ⟨rfl, -⟩ := Decoder.pure_eq_some.mp hp
  have hplaced := Decoder.collect_forall (R := fun _ row => RowPlaced prefixView.header row)
    (fun i p row e he => directoryObject_placed he) hrows
  intro row hrow
  obtain ⟨i, hi⟩ := List.mem_iff_getElem?.mp hrow
  exact hplaced i row hi

theorem readBe64_lt (text : Text) (offset : ℕ) : readBe64 text offset < 2 ^ 64 := by
  have hlength : ((PrefixSpan.mk offset 8).bytes text).length ≤ 8 := List.length_take_le _ _
  have hlt := Bytes.ofBE_lt ((PrefixSpan.mk offset 8).bytes text)
  have hpow := Nat.pow_le_pow_right (show 0 < 256 by decide) hlength
  exact lt_of_lt_of_le hlt hpow

theorem cstringAt_expectedVersion (engineVersion : DirectoryEngineVersion) :
    (cstringAt engineVersion.expectedVersion).bytes = engineVersion.expectedVersion := by
  cases engineVersion <;> decide

/-- A small ordinal is what it is as a signed number. -/
theorem toInt32_of_small {ordinal : UInt32} (h : ordinal.toNat < 2 ^ 31) :
    0 ≤ ordinal.toInt32 ∧ ordinal.toInt32.toNatClampNeg = ordinal.toNat := by
  have hint : ordinal.toInt32.toInt = ordinal.toNat := by
    have hword : UInt32.ofNat ordinal.toNat = ordinal := UInt32.ofNat_toNat
    rw [← hword, UInt32.toInt32_ofNat', Int32.toInt_ofNat_of_lt h, hword]
  refine ⟨?_, ?_⟩
  · rw [Int32.le_iff_toInt_le, hint]
    exact Int.natCast_nonneg _
  · rw [Int32.toNatClampNeg, hint, Int.toNat_natCast]

theorem materializeObject_ok {types : List TypeTreeType} {row : DirectoryObjectRow}
    {object : AssetObjectInfo} {header : HeaderView} (hplaced : RowPlaced header row)
    (htypes : types.length ≤ 65536) (hdata : header.dataOffset ≤ header.fileSize)
    (hsize : header.fileSize < 2 ^ 64)
    (h : materializeObject types row answers s n = .ok object s' n') :
    ∀ file : SerializedFile, file.types = types → file.dataOffset.toNat = header.dataOffset →
      file.fileSize.toNat = header.fileSize → object.Placed file := by
  obtain ⟨hsigned, h⟩ := Call.require_bind_eq_ok.mp h
  obtain ⟨type, htype, h⟩ := ofOption_bind_eq_ok.mp h
  obtain ⟨rfl, -, -⟩ := Call.pure_eq_ok.mp h
  obtain ⟨hlt, -⟩ := List.getElem?_eq_some_iff.mp htype
  obtain ⟨hindex, hordinal⟩ := toInt32_of_small (show row.typeOrdinal.toNat < 2 ^ 31 by omega)
  have hoffset := hplaced.offset
  have hfits := hplaced.size
  have hword : row.relativeDataOffset.toUInt64.toNat = row.relativeDataOffset :=
    MetadataSource.toNat_toUInt64 (by omega)
  rintro file rfl hfileData hfileSize
  refine ⟨?_, ?_, hindex, type, ?_, rfl, rfl⟩
  · show row.relativeDataOffset.toUInt64.toNat ≤ int64Max
    rw [hword]
    exact hsigned
  · show file.dataOffset.toNat + row.relativeDataOffset.toUInt64.toNat + row.byteSize.toNat ≤ _
    rw [hword, hfileData, hfileSize]
    omega
  · show file.types[row.typeOrdinal.toInt32.toNatClampNeg]? = some type
    rw [hordinal]
    exact htype

/-- The tail adds to a file and changes nothing in it. -/
theorem materializeTail_ok {tail : SerializedFileMetadataTail} {after : SerializedFile}
    (h : materializeTail file tail answers s n = .ok after s' n') :
    (∀ type ∈ after.refTypes, type.isRefType = true ∧ Readable type) ∧
      ∃ scripts externals refTypes userInformation, after =
        { file with scripts, externals, refTypes, userInformation := some userInformation } := by
  obtain ⟨-, h⟩ := Call.require_bind_eq_ok.mp h
  obtain ⟨scripts, _, _, -, h⟩ := Call.bind_eq_ok.mp h
  obtain ⟨externals, _, _, -, h⟩ := Call.bind_eq_ok.mp h
  obtain ⟨refTypes, _, _, hrefs, h⟩ := Call.bind_eq_ok.mp h
  obtain ⟨userInformation, _, _, -, h⟩ := Call.bind_eq_ok.mp h
  obtain ⟨rfl, -, -⟩ := Call.pure_eq_ok.mp h
  obtain ⟨-, hrows⟩ := materializeTable_ok
    (R := fun _ type => type.isRefType = true ∧ Readable type)
    (fun row s n type s' n' hrow => materializeReferenceType_ok hrow) hrefs
  refine ⟨?_, scripts, externals, refTypes, userInformation, rfl⟩
  intro type htype
  obtain ⟨row, -, hrow⟩ := hrows type htype
  exact hrow

/-- **What the metadata reader leaves.** -/
theorem readMetadata_decoded (h : readMetadata fileData answers s n = .ok file s' n') :
    file.Decoded fileData := by
  obtain ⟨⟨directory, ran⟩, _, _, hdirectory, h⟩ := Call.bind_eq_ok.mp h
  obtain ⟨built, _, _, hbuilt, h⟩ := Call.bind_eq_ok.mp h
  obtain ⟨⟨tail, tailRan⟩, _, _, -, h⟩ := Call.bind_eq_ok.mp h
  obtain ⟨hrefTypes, scripts, externals, refTypes, userInformation, rfl⟩ := materializeTail_ok h
  obtain ⟨engineVersion, plan, hplan, rfl⟩ := readDirectory_ok hdirectory
  obtain ⟨hhead, hversion, -, hscan, -⟩ := directoryPlan_eq_some.mp hplan
  obtain ⟨hheader, versionSize, -, -, hview, -⟩ := prefixFormat_eq_some.mp hhead
  have hreads := MetadataSource.directory_reads hscan
  have hsource : plan.owner.view.prefixView = prefixViewAt fileData versionSize :=
    hreads.prefix_eq.trans hview
  -- the stages of the materialization
  obtain ⟨⟨hmaxTypes, -⟩, hbuilt⟩ := Call.require_bind_eq_ok.mp hbuilt
  obtain ⟨-, hbuilt⟩ := Call.request_bind_eq_ok.mp hbuilt
  obtain ⟨types, _, _, htypes, hbuilt⟩ := Call.bind_eq_ok.mp hbuilt
  obtain ⟨objects, _, _, hobjects, hbuilt⟩ := Call.bind_eq_ok.mp hbuilt
  obtain ⟨rfl, -, -⟩ := Call.pure_eq_ok.mp hbuilt
  obtain ⟨hcount, htypeRows⟩ := materializeTable_ok
    (R := fun _ type => type.isRefType = false ∧ Readable type)
    (fun row s n type s' n' hrow => materializeDirectoryType_ok hrow) htypes
  have hmax : types.length ≤ 65536 := by
    rw [hcount]
    exact hreads.typeCount.trans_le hmaxTypes
  -- the words of the header
  have hfileSize : (readBe64 fileData 24).toUInt64.toNat = readBe64 fileData 24 :=
    MetadataSource.toNat_toUInt64 (readBe64_lt _ _)
  have hdataOffset : (readBe64 fileData 32).toUInt64.toNat = readBe64 fileData 32 :=
    MetadataSource.toNat_toUInt64 (readBe64_lt _ _)
  have hmetadataSize : (readBe64 fileData 16).toUInt64.toNat = readBe64 fileData 16 :=
    MetadataSource.toNat_toUInt64 (readBe64_lt _ _)
  obtain ⟨-, hobjectRows⟩ := materializeTable_ok
    (R := fun row (object : AssetObjectInfo) => RowPlaced (headerView fileData) row →
      ∀ file : SerializedFile, file.types = types →
        file.dataOffset.toNat = readBe64 fileData 32 →
        file.fileSize.toNat = readBe64 fileData 24 → object.Placed file)
    (fun row s n object s' n' hrow hplaced =>
      materializeObject_ok hplaced hmax hheader.dataOffset (readBe64_lt _ _) hrow) hobjects
  have hplaced := directory_placed hscan
  rw [hsource]
  refine
    { rawData := rfl
      version := hheader.version
      unityVersion := ⟨engineVersion, ?_⟩
      fileSize := hfileSize.trans hheader.fileSize
      metadata := ?_
      dataOffset := ?_
      objects := ?_
      types := ?_
      refTypes := hrefTypes }
  · show some (cstringAt ((prefixViewAt fileData versionSize).versionSource.bytes fileData)).bytes =
      some engineVersion.expectedVersion
    rw [← hview, hversion, cstringAt_expectedVersion]
  · show v22HeaderSize + (readBe64 fileData 16).toUInt64.toNat ≤
      (readBe64 fileData 32).toUInt64.toNat
    rw [hmetadataSize, hdataOffset]
    exact hheader.metadataEnd
  · show (readBe64 fileData 32).toUInt64.toNat ≤ (readBe64 fileData 24).toUInt64.toNat
    rw [hfileSize, hdataOffset]
    exact hheader.dataOffset
  · intro object hobject
    obtain ⟨row, hrow, hobject⟩ := hobjectRows object hobject
    have hheaderView : plan.prefixView.header = headerView fileData := by
      rw [hview]
      rfl
    exact hobject (hheaderView ▸ hplaced row hrow) _ rfl hdataOffset hfileSize
  · intro type htype
    obtain ⟨row, -, hrow⟩ := htypeRows type htype
    exact hrow

end Metadata

/-! ## The object table -/

theorem validateObjectTable_ok {σ : Type} {file : SerializedFile} {answers : ℕ → Bool}
    {s s' : σ} {n n' : ℕ} {u : Unit}
    (hoffsets : ∀ object ∈ file.objects, object.byteOffset.toNat ≤ int64Max)
    (h : validateObjectTable file answers s n = .ok u s' n') :
    file.objects.Pairwise AssetObjectInfo.Compatible := by
  unfold validateObjectTable at h
  split at h
  · rename_i hfew
    rcases hobjects : file.objects with _ | ⟨object, _ | ⟨second, rest⟩⟩
    · exact List.Pairwise.nil
    · exact List.pairwise_singleton _ _
    · rw [hobjects] at hfew
      exact absurd hfew (by simp)
  · obtain ⟨-, h⟩ := Call.request_bind_eq_ok.mp h
    obtain ⟨hdistinct, h⟩ := Call.require_bind_eq_ok.mp h
    obtain ⟨hfollow, -, -⟩ := Call.require_eq_ok.mp h
    exact (validated_iff hoffsets).mp ⟨hdistinct, hfollow⟩

/-! ## Resolution -/

section Resolution

variable {sha256 : Text → Sha256Digest} {registry : TypeTreeSchemaRegistry}
  {file after : SerializedFile} {fileData : Text} {answers : ℕ → Bool}

/-- The record stands for the same type and can be read. -/
structure StandsFor (type after : TypeTreeType) : Prop where
  typeId : after.typeId = type.typeId
  scriptTypeIndex : after.scriptTypeIndex = type.scriptTypeIndex
  isRefType : after.isRefType = type.isRefType
  readable : Readable type → Readable after

theorem StandsFor.refl (type : TypeTreeType) : StandsFor type type := ⟨rfl, rfl, rfl, id⟩

/-- The key of a record and a schema that is valid under it agree on the type. -/
theorem standsFor_of_key {fileVersion : UInt32} {unityVersion : Option CString}
    {type found : TypeTreeType} {key : TypeTreeSchemaKey}
    (hkey : typetreeSchemaKeyFromType fileVersion unityVersion type.typeId type = .ok key)
    (hfound : ValidEntry sha256 key found) : StandsFor type found := by
  have hadmitted := hfound.admitted
  simp only [schemaAdmitted, schemaMatchesKey, Bool.and_eq_true, beq_iff_eq] at hadmitted
  obtain ⟨⟨⟨⟨⟨⟨⟨⟨⟨⟨htypeId, hscript⟩, -⟩, href⟩, -⟩, -⟩, -⟩, -⟩, hvalid⟩, -⟩, -⟩ := hadmitted
  unfold typetreeSchemaKeyFromType at hkey
  split at hkey
  · cases hkey
  · split_ifs at hkey
    split at hkey
    · cases hkey
    · obtain ⟨hsome, -⟩ := validateKey_eq_ok_iff.mp hkey
      cases hsome
      exact ⟨htypeId, hscript, href, fun _ => Or.inr hvalid⟩

theorem replaced_standsFor {schemaRegistry : Option TypeTreeSchemaRegistry} {classId : Int32}
    (hwf : ∀ known ∈ schemaRegistry, known.WellFormed sha256) {type found : TypeTreeType}
    (h : Replaced schemaRegistry classId file type found) : StandsFor type found := by
  unfold Replaced at h
  split at h
  · obtain ⟨known, hknown, key, hkey, hmem⟩ := h
    exact standsFor_of_key hkey ((hwf known hknown).valid _ hmem)
  · rw [h]
    exact .refl type

theorem keeps_lookup (key : Option TypeTreeSchemaKey) :
    Call.Keeps (typetreeSchemaRegistryLookup key) := by
  apply (Call.keeps_ofExcept _).bind
  intro key
  apply Call.keeps_current.bind
  intro registry
  cases SortedAssoc.find? compareKeys Entry.key registry.entries key with
  | none => exact Call.keeps_fail _
  | some existing => exact keeps_cloneSchema _

theorem resolveTypeArray_standsFor {fileVersion : UInt32} {unityVersion : Option CString}
    (hwf : registry.WellFormed sha256) :
    ∀ {types found : List TypeTreeType} {registry' : TypeTreeSchemaRegistry} {n n' : ℕ},
      resolveTypeArray fileVersion unityVersion types answers registry n =
        .ok found registry' n' →
      registry' = registry ∧ List.Forall₂ StandsFor types found := by
  intro types
  induction types with
  | nil =>
      intro found registry' n n' h
      obtain ⟨rfl, rfl, -⟩ := Call.pure_eq_ok.mp h
      exact ⟨rfl, .nil⟩
  | cons type types ih =>
      intro found registry' n n' h
      obtain ⟨first, s₁, n₁, hfirst, h⟩ := Call.bind_eq_ok.mp h
      obtain ⟨rest, s₂, n₂, hrest, h⟩ := Call.bind_eq_ok.mp h
      obtain ⟨rfl, rfl, -⟩ := Call.pure_eq_ok.mp h
      obtain ⟨key, hkey, hlookup⟩ := Call.ofExcept_bind_eq_ok.mp hfirst
      obtain rfl := (keeps_lookup _).ok hlookup
      obtain ⟨rfl, hstands⟩ := ih hrest
      exact ⟨rfl, .cons (standsFor_of_key hkey (hwf.valid _ (lookup_eq_ok hwf hlookup))) hstands⟩

theorem standsFor_of_mem {types found : List TypeTreeType} (h : List.Forall₂ StandsFor types found) :
    ∀ after ∈ found, ∃ type ∈ types, StandsFor type after := by
  induction h with
  | nil => exact fun after hafter => absurd hafter List.not_mem_nil
  | cons hfirst _ ih =>
      intro after hafter
      rcases List.mem_cons.mp hafter with rfl | hafter
      · exact ⟨_, List.mem_cons_self, hfirst⟩
      · obtain ⟨type, hmem, hstands⟩ := ih after hafter
        exact ⟨type, List.mem_cons_of_mem _ hmem, hstands⟩

theorem standsFor_getElem? {types found : List TypeTreeType}
    (h : List.Forall₂ StandsFor types found) :
    ∀ {i : ℕ} {type : TypeTreeType}, types[i]? = some type →
      ∃ after, found[i]? = some after ∧ StandsFor type after := by
  induction h with
  | nil => exact fun hi => absurd hi (by simp)
  | cons hfirst _ ih =>
      intro i type hi
      cases i with
      | zero =>
          cases hi
          exact ⟨_, rfl, hfirst⟩
      | succ i =>
          obtain ⟨after, hafter, hstands⟩ := ih hi
          exact ⟨after, hafter, hstands⟩

/-- **Replacing records keeps the invariant**, when each stands for the old one. -/
theorem SerializedFile.Describes.replace (h : file.Describes fileData)
    {types refTypes : List TypeTreeType} (htypes : List.Forall₂ StandsFor file.types types)
    (hrefTypes : List.Forall₂ StandsFor file.refTypes refTypes) :
    { file with types, refTypes }.Describes fileData where
  rawData := h.rawData
  version := h.version
  unityVersion := h.unityVersion
  fileSize := h.fileSize
  metadata := h.metadata
  dataOffset := h.dataOffset
  compatible := h.compatible
  objects := by
    intro object hobject
    obtain ⟨hbyteOffset, hfits, hindex, type, htype, htypeId, hscript⟩ := h.objects object hobject
    obtain ⟨after, hafter, hstands⟩ := standsFor_getElem? htypes htype
    exact ⟨hbyteOffset, hfits, hindex, after, hafter, htypeId.trans hstands.typeId.symm,
      hscript.trans hstands.scriptTypeIndex.symm⟩
  types := by
    intro after hafter
    obtain ⟨type, htype, hstands⟩ := standsFor_of_mem htypes after hafter
    obtain ⟨hordinary, hreadable⟩ := h.types type htype
    exact ⟨hstands.isRefType.trans hordinary, hstands.readable hreadable⟩
  refTypes := by
    intro after hafter
    obtain ⟨type, htype, hstands⟩ := standsFor_of_mem hrefTypes after hafter
    obtain ⟨hreference, hreadable⟩ := h.refTypes type htype
    exact ⟨hstands.isRefType.trans hreference, hstands.readable hreadable⟩

end Resolution

/-! ## The invariant -/

section Invariant

variable {sha256 : Text → Sha256Digest} {file : SerializedFile} {fileData : Text}
  {answers : ℕ → Bool} {n n' : ℕ} {state state' : Option TypeTreeSchemaRegistry}

theorem applySchemaRegistry_describes {provenance : TypeTreeSchemaProvenance}
    {opened : SerializedFile} (hfile : file.Describes fileData)
    (hwf : ∀ known ∈ state, known.WellFormed sha256)
    (h : applySchemaRegistry sha256 file provenance answers state n = .ok opened state' n') :
    opened.Describes fileData := by
  unfold applySchemaRegistry at h
  split_ifs at h
  · have h := Call.current_bind_eq_ok.mp h
    cases state with
    | none => nomatch h
    | some registry =>
        obtain ⟨⟨⟨types, refTypes⟩, _⟩, s₁, n₁, hresolve, h⟩ := Call.bind_eq_ok.mp h
        obtain ⟨rfl, -, -⟩ := Call.pure_eq_ok.mp h
        obtain ⟨hresolve, -⟩ := Call.within_eq_ok.mp (Call.relabel_eq_ok.mp hresolve)
        obtain ⟨found, s₂, n₂, htypes, hresolve⟩ := Call.bind_eq_ok.mp hresolve
        obtain ⟨refFound, s₃, n₃, hrefTypes, hresolve⟩ := Call.bind_eq_ok.mp hresolve
        obtain ⟨hvalue, -, -⟩ := Call.pure_eq_ok.mp hresolve
        cases hvalue
        have hregistry := hwf registry rfl
        obtain ⟨rfl, hfound⟩ := resolveTypeArray_standsFor hregistry htypes
        obtain ⟨rfl, hrefFound⟩ := resolveTypeArray_standsFor hregistry hrefTypes
        exact hfile.replace hfound hrefFound
  · obtain ⟨_, s₁, n₁, -, h⟩ := Call.bind_eq_ok.mp h
    obtain ⟨rfl, -, -⟩ := Call.pure_eq_ok.mp h
    exact hfile

theorem openInternal_describes {provenance : TypeTreeSchemaProvenance} {permit : Bool}
    (hwf : ∀ known ∈ state, known.WellFormed sha256)
    (h : serializedFileOpenInternal sha256 fileData provenance permit answers state n =
      .ok file state' n') : file.Describes fileData := by
  obtain ⟨-, h⟩ := Call.require_bind_eq_ok.mp h
  obtain ⟨-, h⟩ := Call.require_bind_eq_ok.mp h
  obtain ⟨read, _, n₁, hread, h⟩ := Call.within_bind_eq_ok.mp h
  obtain ⟨u, s₁, n₂, hvalid, happly⟩ := Call.bind_eq_ok.mp h
  obtain rfl := (keeps_validateObjectTable read).ok hvalid
  have hdecoded := readMetadata_decoded hread
  have hdescribes : read.Describes fileData :=
    { hdecoded with
      compatible := validateObjectTable_ok
        (fun object hobject => (hdecoded.objects object hobject).byteOffset) hvalid }
  split_ifs at happly
  · obtain ⟨rfl, -, -⟩ := Call.pure_eq_ok.mp happly
    exact hdescribes
  · exact applySchemaRegistry_describes hdescribes hwf happly

/-- A step: resolving a class keeps what the file describes. -/
theorem resolveClassSchema_describes (hfile : file.Describes fileData) (classId : Int32)
    {schemaRegistry : Option TypeTreeSchemaRegistry}
    (hwf : ∀ known ∈ schemaRegistry, known.WellFormed sha256) (answers : ℕ → Bool) (n : ℕ) :
    (serializedFileResolveClassSchema classId schemaRegistry answers file n).state.Describes
      fileData := by
  have htriple : Call.Triple answers (· = file)
      (serializedFileResolveClassSchema classId schemaRegistry)
      (fun _ after => (file.unityVersion ≠ none ∧ 0 ≤ classId) ∧
        Resolves schemaRegistry classId file after) (fun _ after => after = file) :=
    triple_resolveClassSchema hwf
  cases hrun : serializedFileResolveClassSchema classId schemaRegistry answers file n with
  | ok u after n' =>
      obtain ⟨-, hafter, htypes, hrefTypes⟩ := htriple.of_ok rfl hrun
      show after.Describes fileData
      rw [hafter]
      exact hfile.replace (htypes.imp fun _ _ => replaced_standsFor hwf)
        (hrefTypes.imp fun _ _ => replaced_standsFor hwf)
  | error status after n' =>
      obtain rfl := htriple.of_error rfl hrun
      exact hfile

/-- A run: whatever was resolved since the file was opened. -/
theorem OpenFile.describes (h : OpenFile sha256 fileData file) : file.Describes fileData := by
  induction h with
  | opened hreach hopen =>
      exact openInternal_describes (fun known hknown => (hreach known hknown).wellFormed) hopen
  | metadata hopen =>
      obtain ⟨read, _, n₁, hread, h⟩ := Call.within_bind_eq_ok.mp hopen
      obtain ⟨rfl, -, -⟩ := Call.pure_eq_ok.mp h
      refine openInternal_describes (fun known hknown => ?_) hread
      cases hknown
  | resolve classId registry answers n _ hreach ih =>
      exact resolveClassSchema_describes ih classId
        (fun known hknown => (hreach known hknown).wellFormed) answers n

/-! ## Objects and their bytes -/

namespace SerializedFile.Describes

/-- A PathID names one object at most. -/
theorem getObject_iff (h : file.Describes fileData) {pathId : Int64} {object : AssetObjectInfo} :
    serializedFileGetObject file pathId = some object ↔
      object ∈ file.objects ∧ object.pathId = pathId := by
  have hdistinct : (file.objects.map (·.pathId)).Nodup :=
    List.pairwise_map.mpr (h.compatible.imp fun hpair => hpair.pathId)
  unfold serializedFileGetObject
  constructor
  · intro hfind
    exact ⟨List.mem_of_find?_eq_some hfind, by simpa using List.find?_some hfind⟩
  · rintro ⟨hmem, rfl⟩
    cases hfind : file.objects.find? fun other => other.pathId = object.pathId with
    | none => exact absurd (decide_eq_true rfl) (List.find?_eq_none.mp hfind object hmem)
    | some other =>
        have hother := List.mem_of_find?_eq_some hfind
        have hsame : other.pathId = object.pathId := by simpa using List.find?_some hfind
        rw [List.inj_on_of_nodup_map hdistinct hother hmem hsame]

/-- The bytes of an object are in the data region. -/
theorem getObjectData_eq (h : file.Describes fileData) {object : AssetObjectInfo}
    (hobject : object ∈ file.objects) :
    serializedFileGetObjectData file object =
      some ⟨file.dataOffset.toNat + object.byteOffset.toNat, object.byteSize.toNat⟩ := by
  obtain ⟨hsigned, hfits, -, -⟩ := h.objects object hobject
  have hfile := file.fileSize.toNat_lt
  have hmax : (0xffffffffffffffff - file.dataOffset).toNat = 2 ^ 64 - 1 - file.dataOffset.toNat := by
    rw [UInt64.toNat_sub_of_le _ _ (UInt64.le_iff_toNat_le.mpr (by
      have := file.dataOffset.toNat_lt
      show file.dataOffset.toNat ≤ 2 ^ 64 - 1
      omega))]
    rfl
  have hsum : (file.dataOffset + object.byteOffset).toNat =
      file.dataOffset.toNat + object.byteOffset.toNat := by
    rw [UInt64.toNat_add]
    omega
  have hsumLe : file.dataOffset + object.byteOffset ≤ file.fileSize := by
    rw [UInt64.le_iff_toNat_le, hsum]
    omega
  have hleft : (file.fileSize - (file.dataOffset + object.byteOffset)).toNat =
      file.fileSize.toNat - (file.dataOffset.toNat + object.byteOffset.toNat) := by
    rw [UInt64.toNat_sub_of_le _ _ hsumLe, hsum]
  unfold serializedFileGetObjectData
  rw [if_neg, if_neg, hsum]
  · rw [not_or, UInt64.not_lt, UInt64.not_lt, UInt64.le_iff_toNat_le, UInt64.le_iff_toNat_le, hleft,
      hsum, UInt32.toNat_toUInt64]
    omega
  · rw [UInt64.not_lt, UInt64.le_iff_toNat_le, hmax]
    omega

end SerializedFile.Describes

end Invariant

/-- The bytes a span covers. -/
def spanRange (span : PrefixSpan) : Set ℕ := Set.Ico span.offset (span.offset + span.size)

/-- **Every open file keeps its objects apart.** However it was opened and
whatever was resolved in it since, it describes the bytes it was opened from; a
PathID finds the one object that has it; the bytes of each object lie behind the
metadata and inside the file; and no two objects share a byte. -/
theorem openFile_objects {sha256 : Text → Sha256Digest} {file : SerializedFile} {fileData : Text}
    (h : OpenFile sha256 fileData file) :
    file.Describes fileData ∧
    (∀ pathId object, serializedFileGetObject file pathId = some object ↔
      object ∈ file.objects ∧ object.pathId = pathId) ∧
    (∀ object ∈ file.objects, ∃ span, serializedFileGetObjectData file object = some span ∧
      span.size = object.byteSize.toNat ∧
      v22HeaderSize + file.metadataSize.toNat ≤ span.offset ∧
      span.offset + span.size ≤ fileData.length) ∧
    file.objects.Pairwise fun left right => ∀ a b,
      serializedFileGetObjectData file left = some a →
      serializedFileGetObjectData file right = some b → Disjoint (spanRange a) (spanRange b) := by
  have hfile := h.describes
  refine ⟨hfile, fun pathId object => hfile.getObject_iff, ?_, ?_⟩
  · intro object hobject
    have hplaced := hfile.objects object hobject
    refine ⟨_, hfile.getObjectData_eq hobject, rfl, ?_, ?_⟩
    · exact hfile.metadata.trans (Nat.le_add_right _ _)
    · rw [← hfile.fileSize]
      exact hplaced.fits
  · refine hfile.compatible.imp_of_mem fun {left right} hleft hright hpair a b ha hb => ?_
    rw [hfile.getObjectData_eq hleft] at ha
    rw [hfile.getObjectData_eq hright] at hb
    cases ha
    cases hb
    rw [Set.disjoint_left]
    rintro k ⟨hstartLeft, hstopLeft⟩ ⟨hstartRight, hstopRight⟩
    dsimp only at hstartLeft hstopLeft hstartRight hstopRight
    have hleftSize : left.byteSize ≠ 0 := toNat_ne_zero.mp (by omega)
    have hrightSize : right.byteSize ≠ 0 := toNat_ne_zero.mp (by omega)
    -- the same byte, counted from the start of the data
    refine Set.disjoint_left.mp (hpair.byteRange hleftSize hrightSize)
      (show k - file.dataOffset.toNat ∈ left.byteRange from ?_) ?_
    · exact Set.mem_Ico.mpr ⟨by omega, by omega⟩
    · exact Set.mem_Ico.mpr ⟨by omega, by omega⟩

/-! ## A file with two objects -/

/-- Two objects of one class, in a file without trees. -/
def sampleObjectsMetadata : Text :=
  ascii "2021.3.35f1" ++ [0] ++ storeLe32 19 ++ [0] ++
    storeLe32 1 ++ storeLe32 49 ++ [0] ++ storeLe16 0xffff ++ List.replicate 16 7 ++
    storeLe32 2 ++
    (storeLe64 5 ++ storeLe64 4 ++ storeLe32 4 ++ storeLe32 0) ++
    (storeLe64 (-3) ++ storeLe64 0 ++ storeLe32 4 ++ storeLe32 0) ++
    storeLe32 0 ++ storeLe32 0 ++ storeLe32 0 ++ [0]

def sampleObjectsFileData : Text :=
  List.replicate 8 0 ++ storeBe32 22 ++ List.replicate 4 0 ++
    storeBe64 sampleObjectsMetadata.length.toUInt64 ++ storeBe64 168 ++ storeBe64 160 ++
    List.replicate 8 0 ++ sampleObjectsMetadata ++
    List.replicate (112 - sampleObjectsMetadata.length) 0 ++ [1, 2, 3, 4, 5, 6, 7, 8]

def sampleObjectsOpen : Call.Result Unit Unit SerializedFile :=
  serializedFileOpenMetadata lastBytesDigest sampleObjectsFileData Call.granted () 0

/-- The sample opens, with the bytes of its objects in the order of the data. -/
def sampleObjectsFound : Bool :=
  match sampleObjectsOpen with
  | .ok file _ _ =>
      file.objects.map (serializedFileGetObjectData file) == [some ⟨164, 4⟩, some ⟨160, 4⟩]
  | .error _ _ _ => false

theorem openFile_objects_sample :
    ∃ file : SerializedFile, file.Describes sampleObjectsFileData ∧
      file.objects.map (serializedFileGetObjectData file) = [some ⟨164, 4⟩, some ⟨160, 4⟩] ∧
      ∀ object ∈ file.objects, serializedFileGetObject file object.pathId = some object := by
  have hfound : sampleObjectsFound = true := by decide +kernel
  unfold sampleObjectsFound at hfound
  split at hfound
  case h_1 file u n' hopen =>
    obtain ⟨hfile, hget, -, -⟩ := openFile_objects (.metadata hopen)
    refine ⟨file, hfile, beq_iff_eq.mp hfound, ?_⟩
    intro object hobject
    exact (hget _ _).mpr ⟨hobject, rfl⟩
  case h_2 => cases hfound

end UnityCommon
