import UnityCommon.SerializedFile.DirectoryScan
import UnityCommon.SerializedFile.TailScan
import UnityCommon.SerializedFile.TypeAgreement

/-!
# Two readers of a type record

A type record of version 22 metadata can be read from a stream at once, or
scanned for its spans first and materialized from these. Where the two rules for
the script hash agree and the limits are ample, so do the readers.
-/

namespace UnityCommon.Metadata

open TypeTree

variable {σ α β : Type}

/-! ## Costs -/

/-- What is counted is taken. -/
structure ScanCost.Modest (d : ScanCost) : Prop where
  nodes : d.nodes ≤ d.bytes
  strings : d.strings ≤ d.bytes
  words : d.words ≤ d.bytes
  terminated : d.terminated ≤ d.bytes
  rows : ∀ table, d.rows table = 0

theorem ScanCost.Modest.add {d e : ScanCost} (hd : d.Modest) (he : e.Modest) :
    (d + e).Modest where
  nodes := Nat.add_le_add hd.nodes he.nodes
  strings := Nat.add_le_add hd.strings he.strings
  words := Nat.add_le_add hd.words he.words
  terminated := Nat.add_le_add hd.terminated he.terminated
  rows table := by rw [ScanCost.add_rows, hd.rows, he.rows]; rfl

theorem ScanCost.modest_zero : (0 : ScanCost).Modest :=
  ⟨Nat.le_refl _, Nat.le_refl _, Nat.le_refl _, Nat.le_refl _, fun _ => rfl⟩

theorem ScanCost.modest_taken (count : ℕ) : (ScanCost.taken count).Modest :=
  ⟨Nat.zero_le _, Nat.zero_le _, Nat.zero_le _, Nat.zero_le _, fun _ => rfl⟩

theorem ScanCost.modest_stringTaken (count : ℕ) : (ScanCost.stringTaken count).Modest :=
  ⟨Nat.zero_le _, Nat.zero_le _, Nat.zero_le _, Nat.le_refl _, fun _ => rfl⟩

theorem ScanCost.modest_work (work : ℕ) : ({ work } : ScanCost).Modest :=
  ⟨Nat.zero_le _, Nat.zero_le _, Nat.zero_le _, Nat.zero_le _, fun _ => rfl⟩

/-- A decoder whose costs are modest. -/
def Decoder.Modest (Q : Decoder ScanCost α) : Prop :=
  ∀ at_ a d, Q at_ = some (a, d) → d.Modest

theorem Decoder.Modest.bind {Q : Decoder ScanCost α} {R : α → Decoder ScanCost β}
    (hQ : Decoder.Modest Q) (hR : ∀ a, Decoder.Modest (R a)) : Decoder.Modest (Q >>= R) := by
  intro at_ b d h
  obtain ⟨a, d₁, d₂, ha, hb, rfl⟩ := Decoder.bind_eq_some.mp h
  exact (hQ _ _ _ ha).add (hR a _ _ _ hb)

theorem Decoder.modest_pure (a : α) : Decoder.Modest (pure a) := by
  intro at_ b d h
  obtain ⟨-, rfl⟩ := Decoder.pure_eq_some.mp h
  exact ScanCost.modest_zero

namespace MetadataSource

variable {source : MetadataSource} {at_ : ℕ} {hasTree : Bool} {ordinal : ℕ}

theorem modest_tree : Decoder.Modest source.tree := by
  intro at_ tree d h
  obtain ⟨-, -, -, rfl⟩ := tree_eq_some.mp h
  have hbytes : (source.treeCost at_).bytes = 8 + ((source.nodeCountBits at_).toNat * 32 +
      (source.stringByteBits at_).toNat) := rfl
  refine ⟨?_, ?_, Nat.zero_le _, Nat.zero_le _, fun _ => rfl⟩
  · rw [hbytes]
    show (source.nodeCountBits at_).toNat ≤ _
    omega
  · rw [hbytes]
    show (source.stringByteBits at_).toNat ≤ _
    omega

theorem modest_dependencyWords : Decoder.Modest source.dependencyWords := by
  intro at_ dependencies d h
  obtain ⟨-, -, -, rfl⟩ := dependencyWords_eq_some.mp h
  refine ⟨Nat.zero_le _, Nat.zero_le _, ?_, Nat.zero_le _, fun _ => rfl⟩
  show (source.dependencyRow at_).count.toNat ≤ 4 + (source.dependencyRow at_).count.toNat * 4
  omega

theorem modest_terminatedString : Decoder.Modest source.terminatedString := by
  intro at_ span d h
  obtain ⟨text, -, -, rfl⟩ := terminatedString_spells.mp h
  exact ScanCost.modest_stringTaken _

theorem modest_typePrefix : Decoder.Modest source.typePrefix := by
  intro at_ row d h
  obtain ⟨present, -, -, -, rfl⟩ := typePrefix_eq_some.mp h
  exact ScanCost.modest_taken _

theorem modest_referenceNames : Decoder.Modest source.referenceNames :=
  modest_terminatedString.bind fun _ => modest_terminatedString.bind fun _ =>
    modest_terminatedString.bind fun _ => Decoder.modest_pure _

theorem modest_directoryTreeWhen : Decoder.Modest (source.directoryTreeWhen hasTree) := by
  cases hasTree with
  | false => exact Decoder.modest_pure _
  | true =>
      have htree : Decoder.Modest source.directoryTree := by
        rw [directoryTree_eq]
        exact modest_tree.bind fun _ => modest_dependencyWords.bind fun _ => Decoder.modest_pure _
      exact htree.bind fun _ => Decoder.modest_pure _

theorem modest_referenceTreeWhen : Decoder.Modest (source.referenceTreeWhen hasTree) := by
  cases hasTree with
  | false => exact Decoder.modest_pure _
  | true =>
      have htree : Decoder.Modest source.referenceTree := by
        rw [referenceTree_eq]
        exact modest_tree.bind fun _ => modest_referenceNames.bind fun _ => Decoder.modest_pure _
      exact htree.bind fun _ => Decoder.modest_pure _

theorem modest_position : Decoder.Modest (Decoder.position : Decoder ScanCost ℕ) := by
  intro at_ a d h
  obtain ⟨-, rfl⟩ := Decoder.position_eq_some.mp h
  exact ScanCost.modest_zero

theorem modest_charge (work : ℕ) : Decoder.Modest (Decoder.spend ({ work } : ScanCost)) := by
  intro at_ a d h
  obtain rfl := Decoder.spend_eq_some.mp h
  exact ScanCost.modest_work work

theorem modest_directoryType : Decoder.Modest (source.directoryType hasTree ordinal) :=
  modest_position.bind fun _ => modest_typePrefix.bind fun _ =>
    modest_directoryTreeWhen.bind fun _ => (modest_charge 1).bind fun _ =>
      modest_position.bind fun _ => Decoder.modest_pure _

theorem modest_referenceType : Decoder.Modest (source.referenceType hasTree ordinal) :=
  modest_position.bind fun _ => modest_typePrefix.bind fun _ =>
    modest_referenceTreeWhen.bind fun _ => (modest_charge 1).bind fun _ =>
      modest_position.bind fun _ => Decoder.modest_pure _

end MetadataSource

/-! ## Ample limits -/

section

variable {reader : MetadataReader} {state : ScanState} {hasTree : Bool} {ordinal : ℕ}

/-- The metadata that a reader has, apart from its ceilings. -/
def MetadataReader.source (reader : MetadataReader) : MetadataSource :=
  ⟨reader.bytes, reader.metadataEnd, reader.endianSelector⟩

/-- A budget that the rest of the metadata cannot exhaust. -/
structure ScanBudget.Ample (budget : ScanBudget) (reader : MetadataReader) (state : ScanState) :
    Prop where
  within : reader.Within reader.source budget
  behind : budget.origin ≤ state.position
  held : reader.source.Holds state.position 0
  bytes : reader.metadataEnd ≤ budget.origin + budget.maxBytes
  work : state.workUsed + (reader.metadataEnd - state.position) + 1 ≤ budget.maxWork
  nodes : state.nodeRecords + (reader.metadataEnd - state.position) ≤ budget.maxNodes
  strings : state.stringBytes + (reader.metadataEnd - state.position) ≤ budget.maxStrings

/-- The directory takes no terminated strings. -/
structure DirectoryLimits.Ample (limits : DirectoryLimits) (reader : MetadataReader)
    (state : ScanState) : Prop extends (limits.budget reader.bytes.length).Ample reader state where
  words : state.dependencyWords + (reader.metadataEnd - state.position) ≤ limits.maxDependencyWords
  terminated : state.terminatedBytes = 0

/-- The tail takes no dependencies. -/
structure TailLimits.Ample (limits : TailLimits) (reader : MetadataReader) (state : ScanState) :
    Prop extends
      (limits.budget reader.byteBudgetOrigin reader.bytes.length).Ample reader state where
  terminated : state.terminatedBytes + (reader.metadataEnd - state.position) ≤
    limits.maxTerminatedStringBytes
  words : state.dependencyWords = 0

theorem ScanBudget.Ample.sound {budget : ScanBudget} (h : budget.Ample reader state)
    (hwords : state.dependencyWords ≤ budget.maxWords)
    (hterminated : state.terminatedBytes ≤ budget.maxTerminated) : budget.Sound state := by
  obtain ⟨hend, hmapped⟩ := h.held
  have hend' : state.position ≤ reader.metadataEnd := hend
  have hmapped' : state.position ≤ reader.bytes.length := hmapped
  have hsize := h.within.mappedSize
  refine ⟨h.behind, fun k => ?_⟩
  have hbytes := h.bytes
  have hwork := h.work
  have hnodes := h.nodes
  have hstrings := h.strings
  cases k <;> simp only [ScanBudget.Short, ScanCost.zero_bytes, ScanCost.zero_work,
    ScanCost.zero_nodes, ScanCost.zero_strings, ScanCost.zero_words, ScanCost.zero_terminated,
    ScanCost.zero_rows] <;> omega

/-- **What lies in the rest of the metadata is afforded.** -/
theorem ScanBudget.Ample.room {budget : ScanBudget} (h : budget.Ample reader state)
    {d : ScanCost} (hd : d.Modest) (hcost : d.work = d.bytes + 1)
    (hheld : reader.source.Holds (state.position + d.bytes) 0)
    (hwords : state.dependencyWords + d.words ≤ budget.maxWords)
    (hterminated : state.terminatedBytes + d.terminated ≤ budget.maxTerminated) :
    budget.meter.Room state d := by
  obtain ⟨hend, hmapped⟩ := hheld
  have hend' : state.position + d.bytes ≤ reader.metadataEnd := hend
  have hmapped' : state.position + d.bytes ≤ reader.bytes.length := hmapped
  have hsize := h.within.mappedSize
  have hbytes := h.bytes
  have hwork := h.work
  have hnodes := h.nodes
  have hstrings := h.strings
  have hnodes' := hd.nodes
  have hstrings' := hd.strings
  intro k
  cases k with
  | rows table =>
      show ¬ budget.maxRows table < d.rows table
      rw [hd.rows]
      exact Nat.not_lt_zero _
  | _ =>
      simp only [ScanBudget.meter, ScanBudget.Short]
      omega

/-! ## The scanners -/

/-- **The scanner of ordinary types finds what the format says.** -/
theorem scanDirectoryType_eq_ok {limits : DirectoryLimits} (h : limits.Ample reader state)
    {row : DirectoryTypeRow} {state' : ScanState} {answers : ℕ → Bool} {n n' : ℕ} :
    scanDirectoryType reader limits hasTree ordinal answers state n = .ok row state' n' ↔
      ∃ d, reader.source.directoryType hasTree ordinal state.position = some (row, d) ∧
        state' = state.advance d ∧ n' = n := by
  have hwords := h.words
  have hsound := h.sound (show _ ≤ limits.maxDependencyWords by omega) h.terminated.le
  have hfollows := follows_scanDirectoryType h.within hsound hasTree ordinal
  constructor
  · intro hok
    obtain ⟨d, hrow, -, hstate, hn⟩ := hfollows.of_ok hok
    exact ⟨d, hrow, hstate, hn⟩
  · rintro ⟨d, hrow, rfl, rfl⟩
    have hmodest := MetadataSource.modest_directoryType _ _ _ hrow
    have hheld := (MetadataSource.recognizes_directoryType hasTree).stop hrow
    obtain ⟨-, -, -, hcost⟩ := MetadataSource.directoryType_reads hrow
    have hend : state.position + d.bytes ≤ reader.metadataEnd := hheld.1
    have hle := hmodest.words
    refine hfollows.ok hrow (h.room hmodest (congrArg ScanCost.work hcost) hheld ?_ ?_) answers n'
    · show _ ≤ limits.maxDependencyWords
      omega
    · rw [h.terminated, congrArg ScanCost.terminated hcost]
      exact Nat.le_refl 0

/-- **The scanner of reference types finds what the format says.** -/
theorem scanReferenceType_eq_ok {limits : TailLimits} (h : limits.Ample reader state)
    {row : TailReferenceTypeRow} {state' : ScanState} {answers : ℕ → Bool} {n n' : ℕ} :
    scanReferenceType reader limits hasTree ordinal answers state n = .ok row state' n' ↔
      ∃ d, reader.source.referenceType hasTree ordinal state.position = some (row, d) ∧
        state' = state.advance d ∧ n' = n := by
  have hterminated := h.terminated
  have hsound := h.sound h.words.le (show _ ≤ limits.maxTerminatedStringBytes by omega)
  have hfollows := follows_scanReferenceType h.within hsound hasTree ordinal
  constructor
  · intro hok
    obtain ⟨d, hrow, -, hstate, hn⟩ := hfollows.of_ok hok
    exact ⟨d, hrow, hstate, hn⟩
  · rintro ⟨d, hrow, rfl, rfl⟩
    have hmodest := MetadataSource.modest_referenceType _ _ _ hrow
    have hheld := (MetadataSource.recognizes_referenceType hasTree).stop hrow
    obtain ⟨-, -, -, hcost⟩ := MetadataSource.referenceType_reads hrow
    have hend : state.position + d.bytes ≤ reader.metadataEnd := hheld.1
    have hle := hmodest.terminated
    refine hfollows.ok hrow (h.room hmodest (congrArg ScanCost.work hcost) hheld ?_ ?_) answers n'
    · rw [h.words, congrArg ScanCost.words hcost]
      exact Nat.le_refl 0
    · show _ ≤ limits.maxTerminatedStringBytes
      omega

end

/-- **Two readers of one record.** Where the rules for the script hash coincide,
reading a type from the stream is scanning its row and materializing it: both
succeed or neither does, at the same stop and with the same type. -/
theorem typetreeReadType_rows (reader : MetadataReader) (state : ScanState) (hasTree : Bool)
    (ordinal : ℕ) (answers : ℕ → Bool) (t : σ) (n : ℕ) (type : TypeTreeType) (s' : ByteStream)
    (t' : σ) (n' : ℕ) :
    (∀ limits : DirectoryLimits, limits.Ample reader state →
      reader.source.RulesCoincide false state.position →
      (typetreeReadType (reader.source.stream state.position) 22 hasTree false answers t n =
          .ok (type, s') t' n' ↔
        ∃ row state' n₁,
          scanDirectoryType reader limits hasTree ordinal answers state n = .ok row state' n₁ ∧
          typetreeMaterializeDirectoryType reader.bytes row (reader.endianSelector != 0)
            answers t n₁ = .ok type t' n' ∧
          s' = reader.source.stream state'.position)) ∧
    ∀ limits : TailLimits, limits.Ample reader state →
      reader.source.RulesCoincide true state.position →
      (typetreeReadType (reader.source.stream state.position) 22 hasTree true answers t n =
          .ok (type, s') t' n' ↔
        ∃ row state' n₁,
          scanReferenceType reader limits hasTree ordinal answers state n = .ok row state' n₁ ∧
          typetreeMaterializeMetadataTailReferenceType reader.bytes row
            (reader.endianSelector != 0) answers t n₁ = .ok type t' n' ∧
          s' = reader.source.stream state'.position) := by
  constructor
  · intro limits hample hrule
    refine (MetadataSource.agrees_directoryType ordinal hample.held hrule answers t n type s' t'
      n').trans ?_
    constructor
    · rintro ⟨row, d, hrow, hmake, rfl⟩
      exact ⟨row, _, n, (scanDirectoryType_eq_ok hample).mpr ⟨d, hrow, rfl, rfl⟩, hmake, rfl⟩
    · rintro ⟨row, _, _, hscan, hmake, rfl⟩
      obtain ⟨d, hrow, rfl, rfl⟩ := (scanDirectoryType_eq_ok hample).mp hscan
      exact ⟨row, d, hrow, hmake, rfl⟩
  · intro limits hample hrule
    refine (MetadataSource.agrees_referenceType ordinal hample.held hrule answers t n type s' t'
      n').trans ?_
    constructor
    · rintro ⟨row, d, hrow, hmake, rfl⟩
      exact ⟨row, _, n, (scanReferenceType_eq_ok hample).mpr ⟨d, hrow, rfl, rfl⟩, hmake, rfl⟩
    · rintro ⟨row, _, _, hscan, hmake, rfl⟩
      obtain ⟨d, hrow, rfl, rfl⟩ := (scanReferenceType_eq_ok hample).mp hscan
      exact ⟨row, d, hrow, hmake, rfl⟩

/-- A record with a script hash and a tree of two nodes. -/
def scriptRecord (classId behind : Text) : Text :=
  classId ++ [0] ++ [2, 0] ++ List.replicate 16 7 ++ List.replicate 16 9 ++ [2, 0, 0, 0] ++
    [13, 0, 0, 0] ++
    ([1, 0, 0, 0] ++ [0, 0, 0, 0] ++ [2, 0, 0, 0] ++ [4, 0, 0, 0] ++ [0, 0, 0, 0] ++
      [0, 128, 0, 0] ++ List.replicate 8 0) ++
    ([1, 0, 1, 0] ++ [7, 0, 0, 0] ++ [11, 0, 0, 0] ++ [4, 0, 0, 0] ++ [1, 0, 0, 0] ++
      [0, 0, 0, 0] ++ List.replicate 8 0) ++
    (ascii "C" ++ [0] ++ ascii "Base" ++ [0] ++ ascii "int" ++ [0] ++ ascii "m" ++ [0]) ++ behind

/-- Behind a header, under the ceilings of the adapters. -/
def scriptReader (classId behind : Text) : MetadataReader where
  bytes := List.replicate v22HeaderSize 0 ++ scriptRecord classId behind
  metadataEnd := v22HeaderSize + (scriptRecord classId behind).length
  byteBudgetOrigin := v22HeaderSize
  maxBytes := directoryAdapterLimits.maxMetadataBytes
  maxWork := directoryAdapterLimits.maxWork
  endianSelector := 0

def scriptState : ScanState := { ScanState.init with position := v22HeaderSize }

/-- An ordinary type with two dependencies, and a reference type with its names. -/
def ordinaryReader : MetadataReader :=
  scriptReader [114, 0, 0, 0] ([2, 0, 0, 0] ++ [3, 0, 0, 0] ++ [5, 0, 0, 0])

def referenceReader : MetadataReader :=
  scriptReader [0xff, 0xff, 0xff, 0xff]
    (ascii "C" ++ [0] ++ ascii "N" ++ [0] ++ ascii "A" ++ [0])

/-- The type of the record. -/
def scriptType (typeId : Int32) (isRefType : Bool) : TypeTreeType where
  typeId
  isStripped := false
  scriptTypeIndex := 2
  scriptIdHash := ⟨List.replicate 16 7, rfl⟩
  typeHash := ⟨List.replicate 16 9, rfl⟩
  nodes := [
    { version := 1
      level := 0
      typeFlags := 0
      typeStrOffset := 0
      nameStrOffset := 2
      byteSize := 4
      index := 0
      metaFlags := 0x8000
      refTypeHash := 0
      typeStr := some (cstr "C")
      nameStr := some (cstr "Base") },
    { version := 1
      level := 1
      typeFlags := 0
      typeStrOffset := 7
      nameStrOffset := 11
      byteSize := 4
      index := 1
      metaFlags := 0
      refTypeHash := 0
      typeStr := some (cstr "int")
      nameStr := some (cstr "m") }]
  stringBuffer :=
    ascii "C" ++ [0] ++ ascii "Base" ++ [0] ++ ascii "int" ++ [0] ++ ascii "m" ++ [0]
  dependencies := if isRefType then [] else [3, 5]
  isRefType
  refClassName := if isRefType then some (cstr "C") else none
  refNamespace := if isRefType then some (cstr "N") else none
  refAsmName := if isRefType then some (cstr "A") else none

theorem typetreeReadType_rows_sample :
    (∃ row state' n₁,
      scanDirectoryType ordinaryReader directoryAdapterLimits true 0 Call.granted scriptState 0 =
        .ok row state' n₁ ∧
      typetreeMaterializeDirectoryType ordinaryReader.bytes row false Call.granted () n₁ =
        .ok (scriptType 114 false) () 3 ∧
      ordinaryReader.source.stream 184 = ordinaryReader.source.stream state'.position) ∧
    ∃ row state' n₁,
      scanReferenceType referenceReader tailAdapterLimits true 0 Call.granted scriptState 0 =
        .ok row state' n₁ ∧
      typetreeMaterializeMetadataTailReferenceType referenceReader.bytes row false Call.granted ()
        n₁ = .ok (scriptType (-1) true) () 5 ∧
      referenceReader.source.stream 178 = referenceReader.source.stream state'.position := by
  have hdirectory : directoryAdapterLimits.Ample ordinaryReader scriptState :=
    ⟨⟨⟨List.prefix_refl _, rfl, rfl, rfl, rfl, rfl, rfl⟩, by decide +kernel, by decide +kernel,
      by decide +kernel, by decide +kernel, by decide +kernel, by decide +kernel⟩,
      by decide +kernel, rfl⟩
  have htail : tailAdapterLimits.Ample referenceReader scriptState :=
    ⟨⟨⟨List.prefix_refl _, rfl, rfl, rfl, rfl, rfl, rfl⟩, by decide +kernel, by decide +kernel,
      by decide +kernel, by decide +kernel, by decide +kernel, by decide +kernel⟩,
      by decide +kernel, rfl⟩
  have hordinary := (typetreeReadType_rows ordinaryReader scriptState true 0 Call.granted () 0
    (scriptType 114 false) (ordinaryReader.source.stream 184) () 3).1 _ hdirectory
    fun _ => by decide +kernel
  have hreference := (typetreeReadType_rows referenceReader scriptState true 0 Call.granted () 0
    (scriptType (-1) true) (referenceReader.source.stream 178) () 5).2 _ htail
    fun _ => by decide +kernel
  exact ⟨hordinary.mp (by decide +kernel), hreference.mp (by decide +kernel)⟩

end UnityCommon.Metadata
