import UnityCommon.SerializedFile.Recognize
import UnityCommon.SerializedFile.Truncation

/-!
# Metadata, end to end

The directory and the tail together. The spans they record tile the metadata
from its first byte to its last, and limits apart they accept the files of the
grammar and no others.
-/

namespace UnityCommon.Metadata

/-! ## The files of the grammar -/

/-- A header, and valid metadata behind it. -/
def IsMetadataFile (text : Text) (engineVersion : DirectoryEngineVersion) : Prop :=
  HeaderOk text text.length ∧ ∃ metadata : MetadataText,
    metadata.engineVersion = engineVersion ∧
    metadata.Valid (text.getD 40 0) (readBe64 text 24 - readBe64 text 32) ∧
    (PrefixSpan.mk v22HeaderSize (readBe64 text 16)).bytes text =
      metadata.encode (text.getD 40 0)

namespace MetadataSource

variable {source : MetadataSource} {at_ : ℕ}

theorem spells_byte {byte : UInt8} :
    source.Spells at_ [byte] ↔ source.Holds at_ 1 ∧ source.bytes.getD at_ 0 = byte := by
  constructor
  · rintro ⟨hholds, rest, hrest⟩
    refine ⟨hholds, ?_⟩
    rw [List.getD_eq_getElem?_getD, ← Nat.add_zero at_, ← List.getElem?_drop, ← hrest]
    rfl
  · rintro ⟨hholds, rfl⟩
    have hlt : at_ < source.bytes.length := hholds.2
    refine ⟨hholds, source.bytes.drop (at_ + 1), ?_⟩
    rw [List.drop_eq_getElem_cons hlt, List.getD_eq_getElem _ _ hlt]
    rfl

end MetadataSource

theorem validString_expectedVersion (engineVersion : DirectoryEngineVersion) :
    ValidString engineVersion.expectedVersion := by
  have hall : (engineVersion.expectedVersion.all fun byte => byte != 0) = true := by
    cases engineVersion <;> rfl
  intro byte hbyte
  simpa using List.all_eq_true.mp hall byte hbyte

/-- An array that fits is appended. -/
theorem appendArray_fits {total count width : ℕ} (h : total + 8 + count * width ≤ sizeMax) :
    ∃ more, appendArray total 8 count width = some more ∧ more ≤ total + 8 + count * width := by
  unfold appendArray
  dsimp only
  split
  · rw [if_neg (by omega), if_neg (by omega)]
    exact ⟨_, rfl, by omega⟩
  · rw [if_neg (by omega), if_neg (by omega)]
    exact ⟨_, rfl, by omega⟩

/-- Tables of at most `INT32_MAX` rows fit. -/
theorem table_bytes {count width : ℕ} (hcount : count ≤ int32Max) (hwidth : width ≤ 344) :
    count * width ≤ 2 ^ 40 :=
  Nat.le_trans (Nat.mul_le_mul hcount hwidth) (by decide)

theorem directoryLayout_fits {view : DirectoryView} (htypes : view.typeCount ≤ int32Max)
    (hobjects : view.objectCount ≤ int32Max) : ∃ total, directoryLayout view = some total := by
  have htypeBytes : view.typeCount * directoryTypeRowSize ≤ 2 ^ 40 :=
    table_bytes htypes (by decide)
  have hobjectBytes : view.objectCount * directoryObjectRowSize ≤ 2 ^ 40 :=
    table_bytes hobjects (by decide)
  have hmax : directoryStorageSize + 16 + 2 ^ 41 ≤ sizeMax := by decide
  obtain ⟨first, hfirst, hle⟩ := appendArray_fits (by omega :
    directoryStorageSize + 8 + view.typeCount * directoryTypeRowSize ≤ sizeMax)
  obtain ⟨total, hsecond, -⟩ := appendArray_fits (by omega :
    first + 8 + view.objectCount * directoryObjectRowSize ≤ sizeMax)
  refine ⟨total, ?_⟩
  rw [directoryLayout, hfirst]
  exact hsecond

theorem tailLayout_fits {view : TailView} (hscripts : view.scriptCount ≤ int32Max)
    (hexternals : view.externalCount ≤ int32Max)
    (hreferences : view.referenceTypeCount ≤ int32Max) :
    ∃ total, tailLayout view = some total := by
  have hscriptBytes : view.scriptCount * tailScriptRowSize ≤ 2 ^ 40 :=
    table_bytes hscripts (by decide)
  have hexternalBytes : view.externalCount * tailExternalRowSize ≤ 2 ^ 40 :=
    table_bytes hexternals (by decide)
  have hreferenceBytes : view.referenceTypeCount * tailReferenceTypeRowSize ≤ 2 ^ 40 :=
    table_bytes hreferences (by decide)
  have hmax : tailStorageSize + 24 + 2 ^ 42 ≤ sizeMax := by decide
  obtain ⟨first, hfirst, hle⟩ := appendArray_fits (by omega :
    tailStorageSize + 8 + view.scriptCount * tailScriptRowSize ≤ sizeMax)
  obtain ⟨second, hsecond, hle'⟩ := appendArray_fits (by omega :
    first + 8 + view.externalCount * tailExternalRowSize ≤ sizeMax)
  obtain ⟨total, hthird, -⟩ := appendArray_fits (by omega :
    second + 8 + view.referenceTypeCount * tailReferenceTypeRowSize ≤ sizeMax)
  refine ⟨total, ?_⟩
  simp only [tailLayout, hfirst, hsecond, Option.bind_eq_bind, Option.bind_some]
  exact hthird

/-! ## What the plans accept -/

section Plans

variable {text : Text} {engineVersion : DirectoryEngineVersion}

/-- The metadata of a header is in the file. -/
theorem HeaderOk.metadata_mapped (h : HeaderOk text text.length) :
    v22HeaderSize + readBe64 text 16 ≤ text.length := by
  have hend := h.metadataEnd
  have hdata := h.dataOffset
  rw [h.fileSize] at hdata
  omega

/-- The text of a prefix. -/
def prefixText (engineVersion : DirectoryEngineVersion) (targetPlatform : Text) (hasTree : Bool) :
    Text :=
  encodeString engineVersion.expectedVersion ++ targetPlatform ++ [if hasTree then 1 else 0]

theorem prefix_sound {versionSize : ℕ} (hheader : HeaderOk text text.length)
    (hlength : terminatedLength (text.drop v22HeaderSize) = some (versionSize + 1))
    (hsize : versionSize + 6 ≤ readBe64 text 16)
    (hversion : (prefixViewAt text versionSize).versionSource.bytes text =
      engineVersion.expectedVersion)
    (hflag : (prefixViewAt text versionSize).typeTreeEnabledRaw ≤ 1) :
    ∃ platform : Text, platform.length = 4 ∧ versionSize = engineVersion.expectedVersion.length ∧
      (metadataSource text (prefixViewAt text versionSize)).Spells v22HeaderSize
        (prefixText engineVersion platform
          ((prefixViewAt text versionSize).typeTreeEnabledRaw != 0)) := by
  have hmapped := hheader.metadata_mapped
  have hholds : ∀ width ≤ versionSize + 6, (metadataSource text
      (prefixViewAt text versionSize)).Holds v22HeaderSize width := by
    intro width hle
    exact ⟨Nat.le_trans (Nat.add_le_add_left hle _) (Nat.add_le_add_left hsize _),
      Nat.le_trans (Nat.add_le_add_left (Nat.le_trans hle hsize) _) hmapped⟩
  obtain ⟨body, -, hhead, hbody⟩ := MetadataSource.terminatedLength_eq_some.mp hlength
  rw [encodeString, List.length_append, List.length_singleton, Nat.succ_inj] at hbody
  have hspells : (metadataSource text (prefixViewAt text versionSize)).Spells v22HeaderSize
      (encodeString body) := by
    refine ⟨hholds _ ?_, hhead⟩
    rw [encodeString, List.length_append, List.length_singleton]
    omega
  -- the version is what stands before the terminator
  obtain rfl : body = engineVersion.expectedVersion := by
    rw [← hversion]
    obtain ⟨rest, hrest⟩ := hhead
    show body = (text.drop v22HeaderSize).take versionSize
    rw [← hrest, encodeString, List.append_assoc, hbody]
    exact List.take_left.symm
  obtain ⟨platform, hplatform, hplatformSpells⟩ :=
    ((hholds _ (Nat.le_refl _)).part (versionSize + 1) 4 (by omega)).text
  have hflagSpells := MetadataSource.spells_byte.mpr
    ⟨(hholds _ (Nat.le_refl _)).part (versionSize + 5) 1 (by omega), rfl⟩
  refine ⟨platform, hplatform, hbody, ?_⟩
  -- a flag of at most one is spelled by the flag it stands for
  have hbyte : (if ((prefixViewAt text versionSize).typeTreeEnabledRaw != 0) = true then 1
      else 0 : UInt8) = (prefixViewAt text versionSize).typeTreeEnabledRaw := by
    generalize (prefixViewAt text versionSize).typeTreeEnabledRaw = flag at hflag
    have hle : flag.toNat ≤ 1 := hflag
    by_cases hzero : flag = 0
    · rw [hzero]
      rfl
    · rw [if_pos (by simpa using hzero)]
      have hne : flag.toNat ≠ 0 := fun h => hzero (UInt8.toNat_inj.mp h)
      exact UInt8.toNat_inj.mp (show 1 = flag.toNat by omega)
  simp only [prefixText, MetadataSource.spells_append, List.length_append, hplatform, hbyte]
  have hterminated : (encodeString engineVersion.expectedVersion).length = versionSize + 1 := by
    rw [encodeString, List.length_append, ← hbody]
    rfl
  rw [hterminated]
  exact ⟨⟨hspells, hplatformSpells⟩, hflagSpells⟩

theorem prefix_complete {platform : Text} {hasTree : Bool} (hheader : HeaderOk text text.length)
    (hplatform : platform.length = 4)
    (h : (metadataSource text (prefixViewAt text engineVersion.expectedVersion.length)).Spells
      v22HeaderSize (prefixText engineVersion platform hasTree)) :
    (∃ cost, prefixFormat text text.length 0 =
      some (prefixViewAt text engineVersion.expectedVersion.length, cost)) ∧
    (prefixViewAt text engineVersion.expectedVersion.length).versionSource.bytes text =
      engineVersion.expectedVersion ∧
    (prefixViewAt text engineVersion.expectedVersion.length).typeTreeEnabledRaw =
      if hasTree then 1 else 0 := by
  have hsize := h.holds.1
  simp only [prefixText, MetadataSource.spells_append, List.length_append, hplatform] at h
  obtain ⟨⟨hversion, -⟩, hflag⟩ := h
  have hterminated : (encodeString engineVersion.expectedVersion).length =
      engineVersion.expectedVersion.length + 1 := by
    rw [encodeString, List.length_append]
    rfl
  refine ⟨⟨_, prefixFormat_eq_some.mpr ⟨hheader, _, ?_, ?_, rfl, rfl⟩⟩, ?_, ?_⟩
  · rw [← hterminated]
    exact MetadataSource.terminatedLength_eq_some.mpr
      ⟨_, validString_expectedVersion engineVersion, hversion.stands, rfl⟩
  · have hend : v22HeaderSize + (prefixText engineVersion platform hasTree).length ≤
        v22HeaderSize + readBe64 text 16 := hsize
    rw [prefixText, List.length_append, List.length_append, hterminated, hplatform,
      List.length_singleton] at hend
    omega
  · obtain ⟨rest, hrest⟩ := hversion.stands
    show (text.drop v22HeaderSize).take engineVersion.expectedVersion.length = _
    have hdrop : text.drop v22HeaderSize = engineVersion.expectedVersion ++ ([0] ++ rest) := by
      rw [← List.append_assoc]
      exact hrest.symm
    rw [hdrop]
    exact List.take_left
  · rw [hterminated] at hflag
    exact (MetadataSource.spells_byte.mp hflag).2

/-- Where a plan for a directory and one for its tail exist, the file is of the grammar. -/
theorem isMetadataFile_of_plans {plan : DirectoryPlan} {tail : TailPlan}
    (hplan : directoryPlan text text.length engineVersion = some plan)
    (htail : tailPlan text plan.owner.view = some tail) :
    IsMetadataFile text engineVersion := by
  obtain ⟨hhead, hversion, hflag, hscan, -⟩ := directoryPlan_eq_some.mp hplan
  obtain ⟨hscanTail, -⟩ := tailPlan_eq_some.mp htail
  obtain ⟨hheader, versionSize, hlength, hsize, hview, -⟩ := prefixFormat_eq_some.mp hhead
  have hreads := MetadataSource.directory_reads hscan
  have hstart : plan.start = v22HeaderSize + versionSize + 6 := by
    rw [DirectoryPlan.start, hview]
    rfl
  have hownerView : plan.owner.view.prefixView = plan.prefixView := hreads.prefix_eq
  have hremaining : plan.owner.view.remainingMetadata.offset = plan.start + plan.cost.bytes :=
    congrArg PrefixRange.offset hreads.remaining
  rw [hview] at hversion hflag
  -- the three parts, each spelled where the one before it ends
  obtain ⟨platform, hplatform, hversionSize, hprefixSpells⟩ :=
    prefix_sound hheader hlength hsize hversion hflag
  obtain ⟨directory, hdirectory, hdirectorySpells, hdirectoryBytes, -, -⟩ :=
    MetadataSource.directory_sound hscan
  obtain ⟨tailText, htailValid, htailSpells, hend, -⟩ := MetadataSource.tail_sound hscanTail
  rw [hremaining, hdirectoryBytes, hownerView, hview] at htailSpells hend htailValid
  rw [hview] at hdirectory hdirectorySpells
  have hprefixLength : plan.start = v22HeaderSize + (prefixText engineVersion platform
      ((prefixViewAt text versionSize).typeTreeEnabledRaw != 0)).length := by
    rw [hstart, hversionSize, prefixText, encodeString]
    simp [hplatform]
    omega
  rw [hprefixLength] at hdirectory hdirectorySpells htailValid htailSpells hend
  refine ⟨hheader, ⟨engineVersion, platform, _, directory, tailText⟩, rfl,
    ⟨hplatform, hdirectory, htailValid⟩, ?_⟩
  have hspells := MetadataSource.spells_append.mpr ⟨MetadataSource.spells_append.mpr
    ⟨hprefixSpells, hdirectorySpells⟩, by
      rw [List.length_append, ← Nat.add_assoc]
      exact htailSpells⟩
  refine hspells.bytes (Nat.add_left_cancel (n := v22HeaderSize) ?_)
  rw [List.length_append, List.length_append, ← Nat.add_assoc, ← Nat.add_assoc]
  exact hend

/-- Over a file of the grammar both plans exist. -/
theorem plans_of_isMetadataFile (h : IsMetadataFile text engineVersion) :
    ∃ plan tail, directoryPlan text text.length engineVersion = some plan ∧
      tailPlan text plan.owner.view = some tail := by
  obtain ⟨hheader, metadata, rfl, hvalid, hbytes⟩ := h
  have hmapped := hheader.metadata_mapped
  let view := prefixViewAt text metadata.engineVersion.expectedVersion.length
  have hholds : (metadataSource text view).Holds v22HeaderSize (readBe64 text 16) :=
    ⟨Nat.le_refl _, hmapped⟩
  obtain ⟨hlength, hspells⟩ := MetadataSource.spells_bytes hholds
  -- the metadata is spelled at its place, so each part is
  have hbytes' : (PrefixSpan.mk v22HeaderSize (readBe64 text 16)).bytes
      (metadataSource text view).bytes = metadata.encode (text.getD 40 0) := hbytes
  rw [hbytes'] at hlength hspells
  rw [MetadataText.encode, MetadataSource.spells_append, MetadataSource.spells_append,
    List.length_append, ← Nat.add_assoc] at hspells
  obtain ⟨⟨hprefixSpells, hdirectorySpells⟩, htailSpells⟩ := hspells
  obtain ⟨⟨cost, hformat⟩, hversion, hflag⟩ :=
    prefix_complete hheader hvalid.targetPlatformSize hprefixSpells
  have hflagLe : view.typeTreeEnabledRaw ≤ 1 := by
    rw [hflag]
    split <;> decide
  have htree : (view.typeTreeEnabledRaw != 0) = metadata.hasTree := by
    rw [hflag]
    cases metadata.hasTree <;> rfl
  have hstart : v22HeaderSize + metadata.encodePrefix.length = view.remainingMetadata.offset := by
    show _ = v22HeaderSize + metadata.engineVersion.expectedVersion.length + 6
    simp [MetadataText.encodePrefix, encodeString, hvalid.targetPlatformSize]
    omega
  have hdirectory := hvalid.directory
  have htail := hvalid.tail
  rw [hstart] at hdirectory htail hdirectorySpells htailSpells
  rw [← htree] at hdirectory htail
  -- the directory is found
  obtain ⟨found, d, hscan, hdirectoryBytes⟩ :=
    MetadataSource.directory_complete metadata.engineVersion hdirectory hdirectorySpells
  obtain ⟨_, hfound, -, -, htypes, hobjects⟩ := MetadataSource.directory_sound hscan
  have htypeMax := hfound.typeCount
  have hobjectMax := hfound.objectCount
  rw [← htypes] at htypeMax
  rw [← hobjects] at hobjectMax
  obtain ⟨total, hlayout⟩ := directoryLayout_fits htypeMax hobjectMax
  let plan : DirectoryPlan := ⟨view, cost, found, d, total⟩
  have hplan : directoryPlan text text.length metadata.engineVersion = some plan :=
    directoryPlan_eq_some.mpr ⟨hformat, hversion, hflagLe, hscan, hlayout⟩
  have hreads := MetadataSource.directory_reads hscan
  have hownerView : plan.owner.view.prefixView = view := hreads.prefix_eq
  -- and the tail, from where the directory stopped
  have hremaining : plan.owner.view.remainingMetadata.offset = view.remainingMetadata.offset +
      (metadata.directory.encode (text.getD 40 0)).length := by
    rw [show plan.owner.view.remainingMetadata = found.view.remainingMetadata from rfl,
      hreads.remaining, hdirectoryBytes]
    rfl
  have hend : view.remainingMetadata.offset +
      (metadata.directory.encode (text.getD 40 0)).length +
      (metadata.tail.encode (text.getD 40 0)).length = v22HeaderSize + readBe64 text 16 := by
    rw [← hlength, MetadataText.encode, List.length_append, List.length_append, ← hstart]
    omega
  rw [← hremaining] at htail htailSpells hend
  have hflags : (plan.owner.view.prefixView.typeTreeEnabledRaw != 0) =
      (view.typeTreeEnabledRaw != 0) := by rw [hownerView]
  rw [← hflags] at htail
  obtain ⟨foundTail, e, hscanTail, -⟩ :=
    MetadataSource.tail_complete plan.owner.view htail htailSpells hend
  obtain ⟨_, hfoundTail, -, -, hscripts, hexternals, hreferences⟩ :=
    MetadataSource.tail_sound hscanTail
  have hscriptMax := hfoundTail.scriptCount
  have hexternalMax := hfoundTail.externalCount
  have hreferenceMax := hfoundTail.referenceTypeCount
  rw [← hscripts] at hscriptMax
  rw [← hexternals] at hexternalMax
  rw [← hreferences] at hreferenceMax
  obtain ⟨totalTail, hlayoutTail⟩ := tailLayout_fits hscriptMax hexternalMax hreferenceMax
  refine ⟨plan, ⟨foundTail, e, totalTail⟩, hplan, tailPlan_eq_some.mpr ⟨?_, hlayoutTail⟩⟩
  rw [hownerView]
  exact hscanTail

/-! ## Limits that are enough -/

/-- Limits that a directory fits in. -/
def DirectoryPlan.limits (plan : DirectoryPlan) : DirectoryLimits where
  maxVersionBytes := plan.prefixCost.version
  maxTypes := plan.cost.rows .types
  maxObjects := plan.cost.rows .objects
  maxNodeRecords := plan.cost.nodes
  maxStringBytes := plan.cost.strings
  maxDependencyWords := plan.cost.words
  maxMetadataBytes := plan.start + plan.cost.bytes
  maxRetainedBytes := plan.retainedBytes
  maxScratchBytes := 0
  maxWork := plan.workUsed

/-- Limits that a tail fits in. -/
def TailPlan.limits (plan : TailPlan) : TailLimits where
  maxScripts := plan.cost.rows .scripts
  maxExternals := plan.cost.rows .externals
  maxReferenceTypes := plan.cost.rows .referenceTypes
  maxNodeRecords := plan.cost.nodes
  maxTreeStringBytes := plan.cost.strings
  maxTerminatedStringBytes := plan.cost.terminated
  maxTailBytes := plan.cost.bytes
  maxRetainedBytes := plan.retainedBytes
  maxScratchBytes := 0
  maxWork := plan.workUsed

theorem DirectoryPlan.fits {plan : DirectoryPlan}
    (hplan : directoryPlan text text.length engineVersion = some plan) (k : OwnerResource) :
    ¬ plan.Short plan.limits text.length true k := by
  obtain ⟨hhead, -, -, hscan, -⟩ := directoryPlan_eq_some.mp hplan
  obtain ⟨_, -, hspells, hbytes, -, -⟩ := MetadataSource.directory_sound hscan
  have hcost := (MetadataSource.directory_reads hscan).cost
  have hmapped : plan.start + plan.cost.bytes ≤ text.length := by
    rw [hbytes]
    exact hspells.holds.2
  have hextent : plan.prefixCost.extent = plan.start := (prefix_start hhead).1
  cases k with
  | prefixed k =>
      cases k with
      | mapping =>
          show ¬ text.length < plan.prefixCost.extent
          omega
      | version => exact Nat.lt_irrefl _
      | work =>
          show ¬ plan.workUsed < 0 + plan.prefixCost.work
          unfold DirectoryPlan.workUsed DirectoryPlan.admissionWork
          omega
  | scan k =>
      cases k with
      | mapping => exact Nat.not_lt.mpr hmapped
      | bytes =>
          show ¬ v22HeaderSize + (plan.start + plan.cost.bytes) < plan.start + plan.cost.bytes
          omega
      | work =>
          show ¬ plan.workUsed < plan.admissionWork + 2 * plan.cost.work + plan.retainedBytes + 2
          exact Nat.lt_irrefl _
      | nodes => exact Nat.not_lt.mpr (Nat.le_of_eq (Nat.zero_add _))
      | strings => exact Nat.not_lt.mpr (Nat.le_of_eq (Nat.zero_add _))
      | words => exact Nat.not_lt.mpr (Nat.le_of_eq (Nat.zero_add _))
      | terminated =>
          show ¬ 0 < 0 + plan.cost.terminated
          rw [hcost]
          exact Nat.lt_irrefl 0
      | rows table =>
          cases table with
          | types => exact Nat.lt_irrefl _
          | objects => exact Nat.lt_irrefl _
          | scripts => show ¬ 0 < plan.cost.rows .scripts; rw [hcost]; exact Nat.lt_irrefl 0
          | externals => show ¬ 0 < plan.cost.rows .externals; rw [hcost]; exact Nat.lt_irrefl 0
          | referenceTypes =>
              show ¬ 0 < plan.cost.rows .referenceTypes
              rw [hcost]
              exact Nat.lt_irrefl 0
  | retained => exact Nat.lt_irrefl _
  | storage => exact Bool.noConfusion

theorem TailPlan.fits {directory : DirectoryView} {plan : TailPlan}
    (hplan : tailPlan text directory = some plan) (k : OwnerResource) :
    ¬ plan.Short plan.limits directory.remainingMetadata.offset text.length true k := by
  obtain ⟨hscan, -⟩ := tailPlan_eq_some.mp hplan
  obtain ⟨_, -, hspells, hend, -⟩ := MetadataSource.tail_sound hscan
  have hreads := MetadataSource.tail_reads hscan
  have hcost := hreads.cost
  have hmapped : directory.remainingMetadata.offset + plan.cost.bytes ≤ text.length := by
    rw [hreads.exhausted, ← hend]
    exact hspells.holds.2
  cases k with
  | prefixed k => exact id
  | scan k =>
      cases k with
      | mapping => exact Nat.not_lt.mpr hmapped
      | bytes => exact Nat.lt_irrefl _
      | work =>
          show ¬ plan.workUsed < 1 + 2 * plan.cost.work + plan.retainedBytes + 2
          unfold TailPlan.workUsed
          omega
      | nodes => exact Nat.not_lt.mpr (Nat.le_of_eq (Nat.zero_add _))
      | strings => exact Nat.not_lt.mpr (Nat.le_of_eq (Nat.zero_add _))
      | words =>
          show ¬ 0 < 0 + plan.cost.words
          rw [hcost]
          exact Nat.lt_irrefl 0
      | terminated => exact Nat.not_lt.mpr (Nat.le_of_eq (Nat.zero_add _))
      | rows table =>
          cases table with
          | types => show ¬ 0 < plan.cost.rows .types; rw [hcost]; exact Nat.lt_irrefl 0
          | objects => show ¬ 0 < plan.cost.rows .objects; rw [hcost]; exact Nat.lt_irrefl 0
          | scripts => exact Nat.lt_irrefl _
          | externals => exact Nat.lt_irrefl _
          | referenceTypes => exact Nat.lt_irrefl _
  | retained => exact Nat.lt_irrefl _
  | storage => exact Bool.noConfusion

end Plans

/-! ## The partition -/

def PrefixView.spans (view : PrefixView) : List PrefixSpan :=
  [view.versionSource, view.versionTerminatorSource, view.targetPlatformSource,
    view.typeTreeSource]

def SerializedFileDirectory.spans (directory : SerializedFileDirectory) : List PrefixSpan :=
  directory.view.prefixView.spans ++ [directory.view.typeCountSource] ++
    directory.types.flatMap DirectoryTypeRow.spans ++
    [directory.view.objectCountSource, directory.view.objectPaddingSource] ++
    directory.objects.map DirectoryObjectRow.source

def SerializedFileMetadataTail.spans (tail : SerializedFileMetadataTail) : List PrefixSpan :=
  [tail.view.scriptCountSource] ++ tail.scripts.flatMap TailScriptRow.spans ++
    [tail.view.externalCountSource] ++ tail.externals.flatMap TailExternalRow.spans ++
    [tail.view.referenceTypeCountSource] ++
    tail.referenceTypes.flatMap TailReferenceTypeRow.spans ++
    [tail.view.userInformationSource]

/-- The fields of a row partition it. -/
def PartitionsRow (source : PrefixSpan) (spans : List PrefixSpan) : Prop :=
  Tiles source.offset (extents spans) (source.offset + source.size)

/-- **The metadata is partitioned** by what the directory and the tail record. -/
structure MetadataPartition (text : Text) (directory : SerializedFileDirectory)
    (tail : SerializedFileMetadataTail) : Prop where
  consecutive : Tiles v22HeaderSize (extents (directory.spans ++ tail.spans))
    (v22HeaderSize + readBe64 text 16)
  disjoint : (extents (directory.spans ++ tail.spans)).Pairwise fun s t => s.1 + s.2 ≤ t.1
  covers : ∀ i, (∃ s ∈ extents (directory.spans ++ tail.spans), s.1 ≤ i ∧ i < s.1 + s.2) ↔
    v22HeaderSize ≤ i ∧ i < v22HeaderSize + readBe64 text 16
  typeTable : PartitionsRow directory.view.typeRowsSource (directory.types.map (·.source))
  objectTable : PartitionsRow directory.view.objectRowsSource (directory.objects.map (·.source))
  scriptTable : PartitionsRow tail.view.scriptRowsSource (tail.scripts.map (·.source))
  externalTable : PartitionsRow tail.view.externalRowsSource (tail.externals.map (·.source))
  referenceTypeTable : PartitionsRow tail.view.referenceTypeRowsSource
    (tail.referenceTypes.map (·.source))
  types : ∀ row ∈ directory.types, PartitionsRow row.source row.spans
  scripts : ∀ row ∈ tail.scripts, PartitionsRow row.source row.spans
  externals : ∀ row ∈ tail.externals, PartitionsRow row.source row.spans
  referenceTypes : ∀ row ∈ tail.referenceTypes, PartitionsRow row.source row.spans
  nodes : directory.view.nodeRecordCount = (directory.types.map fun row => treeNodes row.tree).sum
  strings : directory.view.stringByteCount =
    (directory.types.map fun row => treeStrings row.tree).sum
  words : directory.view.dependencyWordCount =
    (directory.types.map DirectoryTypeRow.dependencyWords).sum
  tailNodes : tail.view.nodeRecordCount =
    (tail.referenceTypes.map fun row => treeNodes row.tree).sum
  tailStrings : tail.view.treeStringByteCount =
    (tail.referenceTypes.map fun row => treeStrings row.tree).sum
  terminated : tail.view.terminatedStringByteCount =
    (tail.externals.map TailExternalRow.stringBytes).sum +
      (tail.referenceTypes.map TailReferenceTypeRow.nameBytes).sum +
      tail.view.userInformationSource.size
  objects : ∀ object ∈ directory.objects,
    readBe64 text 32 ≤ object.payload.offset ∧
    object.payload.offset + object.payload.size ≤ readBe64 text 24 ∧
    object.typeOrdinal.toNat < directory.types.length

theorem extents_flatMap {α : Type} (spans : α → List PrefixSpan) (rows : List α) :
    extents (rows.flatMap spans) = rows.flatMap fun row => extents (spans row) :=
  List.map_flatMap

/-- A table whose rows are partitioned is partitioned by their fields. -/
theorem PartitionsRow.flatMap {α : Type} {rows : List α} {source : α → PrefixSpan}
    {spans : α → List PrefixSpan} {table : PrefixSpan}
    (htable : PartitionsRow table (rows.map source))
    (hrows : ∀ row ∈ rows, PartitionsRow (source row) (spans row)) :
    PartitionsRow table (rows.flatMap spans) := by
  unfold PartitionsRow at htable ⊢
  rw [extents_flatMap]
  rw [extents, List.map_map] at htable
  have htiles : Tiles table.offset (rows.map fun row => (source row).extent)
    (table.offset + table.size) := htable
  refine Tiles.flatMap ?_ htiles
  exact hrows

/-- The parts of a span may take its place. -/
theorem PartitionsRow.expand {a b : ℕ} {table : PrefixSpan} {parts : List PrefixSpan}
    (hparts : PartitionsRow table parts) (spans more : List PrefixSpan)
    (h : Tiles a (extents (spans ++ table :: more)) b) :
    Tiles a (extents (spans ++ (parts ++ more))) b := by
  rw [extents_append, extents_cons] at h
  rw [extents_append, extents_append]
  exact h.expand hparts

theorem forall_of_getElem? {α : Type} {rows : List α} {P : α → Prop}
    (h : ∀ (i : ℕ) row, rows[i]? = some row → P row) : ∀ row ∈ rows, P row := by
  intro row hrow
  obtain ⟨i, hi⟩ := List.mem_iff_getElem?.mp hrow
  exact h i row hi

section

open MetadataSource

variable {source : MetadataSource} {prefixView : PrefixView} {at_ : ℕ} {d : ScanCost}

theorem MetadataSource.DirectoryReads.tiles_spans {directory : SerializedFileDirectory}
    (h : source.DirectoryReads prefixView at_ directory d) :
    Tiles at_ (extents ([directory.view.typeCountSource] ++
      directory.types.flatMap DirectoryTypeRow.spans ++
      [directory.view.objectCountSource, directory.view.objectPaddingSource] ++
      directory.objects.map DirectoryObjectRow.source)) (at_ + d.bytes) := by
  have htypes : PartitionsRow directory.view.typeRowsSource
      (directory.types.flatMap DirectoryTypeRow.spans) :=
    PartitionsRow.flatMap h.types_tile (forall_of_getElem? fun i row hi => (h.types i row hi).2)
  have hobjects : PartitionsRow directory.view.objectRowsSource
      (directory.objects.map DirectoryObjectRow.source) := h.objects_tile
  -- the rows take the place of their tables
  have hfirst := htypes.expand [directory.view.typeCountSource] _ h.tiles
  have hsecond := hobjects.expand ([directory.view.typeCountSource] ++
    directory.types.flatMap DirectoryTypeRow.spans ++
    [directory.view.objectCountSource, directory.view.objectPaddingSource]) []
    (by simpa only [List.append_assoc, List.cons_append, List.nil_append] using hfirst)
  simpa only [List.append_assoc, List.cons_append, List.nil_append, List.append_nil]
    using hsecond

theorem MetadataSource.TailReads.tiles_spans {directory : DirectoryView}
    {tail : SerializedFileMetadataTail} (h : source.TailReads directory at_ tail d) :
    Tiles at_ (extents tail.spans) (at_ + d.bytes) := by
  have hscripts : PartitionsRow tail.view.scriptRowsSource
      (tail.scripts.flatMap TailScriptRow.spans) :=
    PartitionsRow.flatMap h.scripts_tile
      (forall_of_getElem? fun i row hi => (h.scripts i row hi).2)
  have hexternals : PartitionsRow tail.view.externalRowsSource
      (tail.externals.flatMap TailExternalRow.spans) :=
    PartitionsRow.flatMap h.externals_tile
      (forall_of_getElem? fun i row hi => (h.externals i row hi).2)
  have hreferences : PartitionsRow tail.view.referenceTypeRowsSource
      (tail.referenceTypes.flatMap TailReferenceTypeRow.spans) :=
    PartitionsRow.flatMap h.referenceTypes_tile
      (forall_of_getElem? fun i row hi => (h.referenceTypes i row hi).2)
  have hfirst := hscripts.expand [tail.view.scriptCountSource] _ h.tiles
  have hsecond := hexternals.expand ([tail.view.scriptCountSource] ++
    tail.scripts.flatMap TailScriptRow.spans ++ [tail.view.externalCountSource]) _
    (by simpa only [List.append_assoc, List.cons_append, List.nil_append] using hfirst)
  have hthird := hreferences.expand ([tail.view.scriptCountSource] ++
    tail.scripts.flatMap TailScriptRow.spans ++ [tail.view.externalCountSource] ++
    tail.externals.flatMap TailExternalRow.spans ++ [tail.view.referenceTypeCountSource]) _
    (by simpa only [List.append_assoc, List.cons_append, List.nil_append] using hsecond)
  simpa only [SerializedFileMetadataTail.spans, List.append_assoc, List.cons_append,
    List.nil_append] using hthird

end

section

variable {text : Text} {engineVersion : DirectoryEngineVersion}

theorem partition_of_plans {plan : DirectoryPlan} {tail : TailPlan}
    (hplan : directoryPlan text text.length engineVersion = some plan)
    (htail : tailPlan text plan.owner.view = some tail) :
    MetadataPartition text plan.owner tail.owner := by
  obtain ⟨hhead, -, -, hscan, -⟩ := directoryPlan_eq_some.mp hplan
  obtain ⟨hscanTail, -⟩ := tailPlan_eq_some.mp htail
  obtain ⟨hheader, versionSize, -, -, hview, -⟩ := prefixFormat_eq_some.mp hhead
  have hreads := MetadataSource.directory_reads hscan
  have hreadsTail := MetadataSource.tail_reads hscanTail
  have hownerView : plan.directory.view.prefixView = plan.prefixView := hreads.prefix_eq
  have hremaining : plan.owner.view.remainingMetadata.offset = plan.start + plan.cost.bytes :=
    congrArg PrefixRange.offset hreads.remaining
  have hprefixTiles : Tiles v22HeaderSize (extents plan.directory.view.prefixView.spans)
      plan.start := by
    rw [hownerView, DirectoryPlan.start, hview]
    exact ⟨rfl, rfl, rfl, rfl, rfl⟩
  have htailTiles := hreadsTail.tiles_spans
  have hend : plan.owner.view.remainingMetadata.offset + tail.cost.bytes =
      v22HeaderSize + readBe64 text 16 := by
    rw [hreadsTail.exhausted]
    show plan.directory.view.prefixView.header.metadataToDataGap.offset = _
    rw [hownerView, hview]
    rfl
  rw [hend, hremaining] at htailTiles
  -- prefix, directory and tail follow one another
  have htiles : Tiles v22HeaderSize (extents (plan.owner.spans ++ tail.owner.spans))
      (v22HeaderSize + readBe64 text 16) := by
    have hall := (hprefixTiles.append hreads.tiles_spans).append htailTiles
    rw [← extents_append, ← extents_append] at hall
    have howner : tail.owner.spans = tail.tail.spans := rfl
    simpa only [SerializedFileDirectory.spans, DirectoryPlan.owner, howner, List.append_assoc]
      using hall
  -- a payload lies between the data and the end of the file
  have hobjects : ∀ object ∈ plan.directory.objects,
      readBe64 text 32 ≤ object.payload.offset ∧
      object.payload.offset + object.payload.size ≤ readBe64 text 24 ∧
      object.typeOrdinal.toNat < plan.directory.types.length := by
    refine forall_of_getElem? fun i object hi => ?_
    obtain ⟨-, hlow, hhigh, htype⟩ := hreads.objects i object hi
    rw [hview] at hlow hhigh
    rw [← hreads.typeCount] at htype
    have hdata := hheader.dataOffset
    have hhigh' : object.payload.offset + object.payload.size ≤
        readBe64 text 32 + (readBe64 text 24 - readBe64 text 32) := hhigh
    exact ⟨hlow, by omega, htype⟩
  exact {
    consecutive := htiles
    disjoint := htiles.pairwise
    covers := fun i => htiles.covers i
    typeTable := hreads.types_tile
    objectTable := hreads.objects_tile
    scriptTable := hreadsTail.scripts_tile
    externalTable := hreadsTail.externals_tile
    referenceTypeTable := hreadsTail.referenceTypes_tile
    types := forall_of_getElem? fun i row hi => (hreads.types i row hi).2
    scripts := forall_of_getElem? fun i row hi => (hreadsTail.scripts i row hi).2
    externals := forall_of_getElem? fun i row hi => (hreadsTail.externals i row hi).2
    referenceTypes := forall_of_getElem? fun i row hi => (hreadsTail.referenceTypes i row hi).2
    nodes := hreads.nodes
    strings := hreads.strings
    words := hreads.words
    tailNodes := hreadsTail.nodes
    tailStrings := hreadsTail.strings
    terminated := hreadsTail.terminated
    objects := hobjects }

/-! ## The pair of owners -/

/-- A directory and then its tail are created over a file, under some limits and
some answers of the allocator. -/
def PairCreated (text : Text) (engineVersion : DirectoryEngineVersion)
    (directory : SerializedFileDirectory) (tail : SerializedFileMetadataTail) : Prop :=
  ∃ (directoryLimits : DirectoryLimits) (tailLimits : TailLimits) (answers : ℕ → Bool)
    (directoryRan : DirectoryResult) (tailRan : TailResult) (n made m made' : ℕ),
    serializedFileDirectoryCreate text text.length engineVersion directoryLimits answers () n =
      .ok (directory, directoryRan) () made ∧
    serializedFileMetadataTailCreate directory text text.length tailLimits answers () m =
      .ok (tail, tailRan) () made'

theorem PairCreated.plans {directory : SerializedFileDirectory} {tail : SerializedFileMetadataTail}
    (h : PairCreated text engineVersion directory tail) :
    ∃ plan plan', directoryPlan text text.length engineVersion = some plan ∧
      tailPlan text plan.owner.view = some plan' ∧ directory = plan.owner ∧ tail = plan'.owner := by
  obtain ⟨directoryLimits, tailLimits, answers, directoryRan, tailRan, n, made, m, made',
    hdirectory, htail⟩ := h
  obtain ⟨plan, hplan, -, rfl, -⟩ := directoryCreate_ok hdirectory
  obtain ⟨-, plan', hplan', -, rfl, -⟩ := tailCreate_ok htail
  exact ⟨plan, plan', hplan, hplan', rfl, rfl⟩

/-- With limits that are enough the pair is created from its plans. -/
theorem pairCreated_of_plans {plan : DirectoryPlan} {plan' : TailPlan}
    (hplan : directoryPlan text text.length engineVersion = some plan)
    (hplan' : tailPlan text plan.owner.view = some plan') :
    PairCreated text engineVersion plan.owner plan'.owner := by
  have hsize : text.length = plan.owner.view.prefixView.header.fileSize := by
    obtain ⟨hhead, -, -, hscan, -⟩ := directoryPlan_eq_some.mp hplan
    obtain ⟨hheader, versionSize, -, -, hview, -⟩ := prefixFormat_eq_some.mp hhead
    show text.length = plan.directory.view.prefixView.header.fileSize
    rw [(MetadataSource.directory_reads hscan).prefix_eq, hview]
    exact hheader.fileSize.symm
  have hdirectory : serializedFileDirectoryCreate text text.length engineVersion plan.limits
      Call.granted () 0 = .ok (plan.owner, plan.result) () 1 := by
    rcases directoryCreate_planned plan.limits Call.granted () 0 List.prefix_rfl (Nat.le_refl _)
      hplan with ⟨-, hok⟩ | ⟨_, _, _, _, k, -, -, -, hshort⟩
    · exact hok
    · exact absurd hshort (plan.fits hplan k)
  have htail : serializedFileMetadataTailCreate plan.owner text text.length plan'.limits
      Call.granted () 1 =
        .ok (plan'.owner, plan'.result plan.owner.view.remainingMetadata.offset) () 2 := by
    rcases tailCreate_planned plan.owner plan'.limits Call.granted () 1 List.prefix_rfl
      (Nat.le_refl _) hsize hplan' with ⟨-, hok⟩ | ⟨_, _, _, k, -, -, -, hshort⟩
    · exact hok
    · exact absurd hshort (plan'.fits hplan' k)
  exact ⟨_, _, Call.granted, _, _, _, _, _, _, hdirectory, htail⟩

/-- **The metadata reader partitions the metadata exactly**, and the files it
reads are those of the grammar. -/
theorem metadata_partition (text : Text) (engineVersion : DirectoryEngineVersion) :
    (∀ directory tail, PairCreated text engineVersion directory tail →
      MetadataPartition text directory tail) ∧
    ((∃ directory tail, PairCreated text engineVersion directory tail) ↔
      IsMetadataFile text engineVersion) := by
  refine ⟨fun directory tail h => ?_, fun ⟨directory, tail, h⟩ => ?_, fun h => ?_⟩
  · obtain ⟨plan, plan', hplan, hplan', rfl, rfl⟩ := h.plans
    exact partition_of_plans hplan hplan'
  · obtain ⟨plan, plan', hplan, hplan', rfl, rfl⟩ := h.plans
    exact isMetadataFile_of_plans hplan hplan'
  · obtain ⟨plan, plan', hplan, hplan'⟩ := plans_of_isMetadataFile h
    exact ⟨_, _, pairCreated_of_plans hplan hplan'⟩

end

theorem metadata_partition_mixed :
    ∃ directory tail, mixedRuns = some (directory, tail) ∧
      MetadataPartition mixedText directory tail ∧
      IsMetadataFile mixedText .engine2021_3_35f1 := by
  obtain ⟨⟨directory, tail⟩, hruns⟩ := Option.isSome_iff_exists.mp mixedRuns_isSome
  obtain ⟨_, _, directoryRan, made, tailRan, made', -, hdirectory, htail⟩ := mixedRuns_eq_some hruns
  obtain ⟨htiles, hgrammar⟩ := metadata_partition mixedText .engine2021_3_35f1
  have hcreated : PairCreated mixedText .engine2021_3_35f1 directory tail :=
    ⟨mixedDirectoryLimits, mixedTailLimits, Call.granted, directoryRan, tailRan, 0, made, 0, made',
      hdirectory, htail⟩
  exact ⟨directory, tail, hruns, htiles directory tail hcreated, hgrammar.mp ⟨_, _, hcreated⟩⟩

end UnityCommon.Metadata
