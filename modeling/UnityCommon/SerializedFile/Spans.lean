import UnityCommon.SerializedFile.Format

/-!
# The spans of the metadata

Every row that a decoder finds is tiled by the spans it records, and what it
cost is read off the row.
-/

namespace UnityCommon.Metadata

def PrefixSpan.extent (span : PrefixSpan) : ℕ × ℕ := (span.offset, span.size)

def extents (spans : List PrefixSpan) : List (ℕ × ℕ) := spans.map PrefixSpan.extent

@[simp] theorem extents_nil : extents [] = [] := rfl

@[simp] theorem extents_cons (span : PrefixSpan) (spans : List PrefixSpan) :
    extents (span :: spans) = span.extent :: extents spans := rfl

@[simp] theorem extents_append (spans more : List PrefixSpan) :
    extents (spans ++ more) = extents spans ++ extents more := List.map_append

@[simp] theorem extent_mk (offset size : ℕ) : (PrefixSpan.mk offset size).extent = (offset, size) :=
  rfl

/-! ## The spans of a row -/

def MetadataTypePrefix.spans (row : MetadataTypePrefix) : List PrefixSpan :=
  [row.classIdSource, row.strippedSource, row.scriptIndexSource] ++
    row.scriptHashSource.toList ++ [row.typeHashSource]

def DirectoryTree.spans (tree : DirectoryTree) : List PrefixSpan :=
  [tree.nodeCountSource, tree.stringCountSource, tree.nodesSource, tree.stringsSource]

def DirectoryDependencies.spans (dependencies : DirectoryDependencies) : List PrefixSpan :=
  [dependencies.countSource, dependencies.wordsSource]

def DirectoryTypeRow.spans (row : DirectoryTypeRow) : List PrefixSpan :=
  row.toMetadataTypePrefix.spans ++ row.tree.elim [] DirectoryTree.spans ++
    row.dependencies.elim [] DirectoryDependencies.spans

def TailScriptRow.spans (row : TailScriptRow) : List PrefixSpan :=
  [row.fileIndexSource, row.alignmentSource, row.localIdentifierSource]

def TailExternalRow.spans (row : TailExternalRow) : List PrefixSpan :=
  [row.leadingStringSource, row.guidSource, row.typeSource, row.pathSource]

def TailReferenceNames.spans (names : TailReferenceNames) : List PrefixSpan :=
  [names.classNameSource, names.namespaceSource, names.assemblyNameSource]

def TailReferenceTypeRow.spans (row : TailReferenceTypeRow) : List PrefixSpan :=
  row.toMetadataTypePrefix.spans ++ row.tree.elim [] DirectoryTree.spans ++
    row.names.elim [] TailReferenceNames.spans

/-- Mapped bytes are those of the file. -/
theorem PrefixSpan.bytes_of_mapped {mapped text : Text} (h : mapped <+: text) {offset size : ℕ}
    (hfits : offset + size ≤ mapped.length) :
    (PrefixSpan.mk offset size).bytes mapped = (PrefixSpan.mk offset size).bytes text := by
  obtain ⟨rest, rfl⟩ := h
  have hdrop : offset ≤ mapped.length := by omega
  have htake : size ≤ (mapped.drop offset).length := by
    rw [List.length_drop]
    omega
  show (mapped.drop offset).take size = ((mapped ++ rest).drop offset).take size
  rw [List.drop_append_of_le_length hdrop, List.take_append_of_le_length htake]

theorem getD_of_mapped {mapped text : Text} (h : mapped <+: text) {offset : ℕ}
    (hlt : offset < mapped.length) : mapped.getD offset 0 = text.getD offset 0 := by
  obtain ⟨rest, rfl⟩ := h
  simp [List.getElem?_append_left hlt]

/-! ## The pieces of a row -/

attribute [ext] ScanCost

namespace MetadataSource

variable {source : MetadataSource} {at_ : ℕ} {d : ScanCost}

theorem take_eq_some {width : ℕ} {span : PrefixSpan} :
    source.take width at_ = some (span, d) ↔
      source.Holds at_ width ∧ span = ⟨at_, width⟩ ∧ d = .taken width := by
  unfold take
  split
  · rename_i h
    simp [h, eq_comm]
  · rename_i h
    simp [h]

theorem readU32_eq_some {span : PrefixSpan} {value : UInt32} :
    source.readU32 at_ = some ((span, value), d) ↔
      source.Holds at_ 4 ∧ span = ⟨at_, 4⟩ ∧ value = (source.decode ⟨at_, 4⟩).toUInt32 ∧
        d = .taken 4 := by
  constructor
  · intro h
    obtain ⟨span', d₁, d₂, htake, hp, rfl⟩ := Decoder.bind_eq_some.mp h
    obtain ⟨hholds, rfl, rfl⟩ := take_eq_some.mp htake
    obtain ⟨hvalue, rfl⟩ := Decoder.pure_eq_some.mp hp
    cases hvalue
    exact ⟨hholds, rfl, rfl, by ext <;> simp [ScanCost.taken]⟩
  · rintro ⟨hholds, rfl, rfl, rfl⟩
    refine Decoder.bind_eq_some.mpr ⟨_, _, _, take_eq_some.mpr ⟨hholds, rfl, rfl⟩,
      Decoder.pure_eq_some.mpr ⟨rfl, rfl⟩, ?_⟩
    ext <;> simp [ScanCost.taken]

theorem readCount_eq_some {span : PrefixSpan} {value : UInt32} :
    source.readCount at_ = some ((span, value), d) ↔
      source.Holds at_ 4 ∧ span = ⟨at_, 4⟩ ∧ value = (source.decode ⟨at_, 4⟩).toUInt32 ∧
        value.toNat ≤ int32Max ∧ d = .taken 4 := by
  constructor
  · intro h
    obtain ⟨⟨span', value'⟩, d₁, d₂, hread, hr, rfl⟩ := Decoder.bind_eq_some.mp h
    obtain ⟨hholds, rfl, rfl, rfl⟩ := readU32_eq_some.mp hread
    obtain ⟨_, d₃, d₄, hrequire, hp, rfl⟩ := Decoder.bind_eq_some.mp hr
    obtain ⟨hcount, rfl⟩ := Decoder.require_eq_some.mp hrequire
    obtain ⟨hvalue, rfl⟩ := Decoder.pure_eq_some.mp hp
    cases hvalue
    exact ⟨hholds, rfl, rfl, hcount, by ext <;> simp [ScanCost.taken]⟩
  · rintro ⟨hholds, rfl, rfl, hcount, rfl⟩
    refine Decoder.bind_eq_some.mpr ⟨_, _, _, readU32_eq_some.mpr ⟨hholds, rfl, rfl, rfl⟩,
      Decoder.bind_eq_some.mpr ⟨(), 0, 0, Decoder.require_eq_some.mpr ⟨hcount, rfl⟩,
        Decoder.pure_eq_some.mpr ⟨rfl, rfl⟩, rfl⟩, ?_⟩
    ext <;> simp [ScanCost.taken]

theorem takeWhen_eq_some {present : Bool} {width : ℕ} {span : Option PrefixSpan} :
    source.takeWhen present width at_ = some (span, d) ↔
      (present = true ∧ source.Holds at_ width ∧ span = some ⟨at_, width⟩ ∧ d = .taken width) ∨
        (present = false ∧ span = none ∧ d = 0) := by
  cases present with
  | false =>
      simp only [takeWhen, Bool.false_eq_true, if_false, Decoder.pure_eq_some, false_and, true_and,
        false_or]
      rw [eq_comm, eq_comm (a := (0 : ScanCost))]
  | true =>
      simp only [takeWhen, if_true, Decoder.bind_eq_some, take_eq_some, Decoder.pure_eq_some,
        true_and, Bool.true_eq_false, false_and, or_false]
      constructor
      · rintro ⟨span', d₁, d₂, ⟨hholds, rfl, rfl⟩, ⟨rfl, rfl⟩, rfl⟩
        exact ⟨hholds, rfl, by ext <;> simp [ScanCost.taken]⟩
      · rintro ⟨hholds, rfl, rfl⟩
        refine ⟨_, _, _, ⟨hholds, rfl, rfl⟩, ⟨rfl, rfl⟩, ?_⟩
        ext <;> simp [ScanCost.taken]

theorem typePrefix_reads {row : MetadataTypePrefix}
    (h : source.typePrefix at_ = some (row, d)) :
    ∃ size, d = .taken size ∧ Tiles at_ (extents row.spans) (at_ + size) := by
  obtain ⟨_, d₁, _, hclass, h₁, rfl⟩ := Decoder.bind_eq_some.mp h
  obtain ⟨-, rfl, rfl⟩ := take_eq_some.mp hclass
  obtain ⟨_, d₂, _, hstripped, h₂, rfl⟩ := Decoder.bind_eq_some.mp h₁
  obtain ⟨-, rfl, rfl⟩ := take_eq_some.mp hstripped
  obtain ⟨_, d₃, _, hindex, h₃, rfl⟩ := Decoder.bind_eq_some.mp h₂
  obtain ⟨-, rfl, rfl⟩ := take_eq_some.mp hindex
  obtain ⟨hash, d₄, _, hshape, h₄, rfl⟩ := Decoder.bind_eq_some.mp h₃
  obtain ⟨-, rfl⟩ := Decoder.ofOption_eq_some.mp hshape
  obtain ⟨scriptHash, d₅, _, hscript, h₅, rfl⟩ := Decoder.bind_eq_some.mp h₄
  obtain ⟨_, d₆, _, htype, hp, rfl⟩ := Decoder.bind_eq_some.mp h₅
  obtain ⟨-, rfl, rfl⟩ := take_eq_some.mp htype
  obtain ⟨rfl, rfl⟩ := Decoder.pure_eq_some.mp hp
  obtain ⟨-, -, rfl, rfl⟩ | ⟨-, rfl, rfl⟩ := takeWhen_eq_some.mp hscript
  · refine ⟨39, ?_, ?_⟩
    · ext <;> simp [ScanCost.taken]
    · simp [MetadataTypePrefix.spans, ScanCost.taken, Tiles]
  · refine ⟨23, ?_, ?_⟩
    · ext <;> simp [ScanCost.taken]
    · simp [MetadataTypePrefix.spans, ScanCost.taken, Tiles]

theorem tree_reads {tree : DirectoryTree} (h : source.tree at_ = some (tree, d)) :
    ∃ size, d = { ScanCost.taken size with
        nodes := tree.nodeCount.toNat, strings := tree.stringByteCount.toNat } ∧
      Tiles at_ (extents tree.spans) (at_ + size) := by
  obtain ⟨⟨_, count⟩, d₁, _, hcount, h₁, rfl⟩ := Decoder.bind_eq_some.mp h
  obtain ⟨-, rfl, -, rfl⟩ := readU32_eq_some.mp hcount
  obtain ⟨_, d₂, _, hne, h₂, rfl⟩ := Decoder.bind_eq_some.mp h₁
  obtain ⟨-, rfl⟩ := Decoder.require_eq_some.mp hne
  obtain ⟨_, d₃, _, hnodes, h₃, rfl⟩ := Decoder.bind_eq_some.mp h₂
  obtain rfl := Decoder.spend_eq_some.mp hnodes
  obtain ⟨⟨_, strings⟩, d₄, _, hstrings, h₄, rfl⟩ := Decoder.bind_eq_some.mp h₃
  obtain ⟨-, rfl, -, rfl⟩ := readU32_eq_some.mp hstrings
  obtain ⟨_, d₅, _, hbytes, h₅, rfl⟩ := Decoder.bind_eq_some.mp h₄
  obtain rfl := Decoder.spend_eq_some.mp hbytes
  obtain ⟨_, d₆, _, hrecords, h₆, rfl⟩ := Decoder.bind_eq_some.mp h₅
  obtain ⟨-, rfl, rfl⟩ := take_eq_some.mp hrecords
  obtain ⟨_, d₇, _, hbuffer, hp, rfl⟩ := Decoder.bind_eq_some.mp h₆
  obtain ⟨-, rfl, rfl⟩ := take_eq_some.mp hbuffer
  obtain ⟨rfl, rfl⟩ := Decoder.pure_eq_some.mp hp
  refine ⟨8 + count.toNat * 32 + strings.toNat, ?_, ?_⟩
  · ext <;> simp [ScanCost.taken] <;> omega
  · simp [DirectoryTree.spans, ScanCost.taken, Tiles]
    omega

theorem stringBytes_eq_some {u : Unit} :
    source.stringBytes at_ = some (u, d) ↔
      ∃ size, terminatedLength (source.bytes.drop at_) = some size ∧
        at_ + size ≤ source.metadataEnd ∧ d = .stringTaken size := by
  unfold stringBytes
  rw [Option.bind_eq_some_iff]
  refine exists_congr fun size => and_congr_right fun _ => ?_
  split
  · rename_i h
    simp [h, eq_comm]
  · rename_i h
    simp [h]

theorem stringByte_eq_some {u : Unit} :
    source.stringByte at_ = some (u, d) ↔ source.Holds at_ 1 ∧ d = .stringTaken 1 := by
  unfold stringByte
  split
  · rename_i hholds
    simp [hholds, eq_comm]
  · rename_i hholds
    simp [hholds]

theorem terminatedLength_bounds : ∀ {text : Text} {size : ℕ},
    terminatedLength text = some size → 1 ≤ size ∧ size ≤ text.length
  | [], _, h => by cases h
  | byte :: rest, size, h => by
      rw [terminatedLength] at h
      split at h
      · obtain rfl : 1 = size := by simpa using h
        simp
      · obtain ⟨more, hmore, rfl⟩ := Option.map_eq_some_iff.mp h
        have := terminatedLength_bounds hmore
        rw [List.length_cons]
        omega

/-- **A string, a byte at a time.** -/
theorem stringBytes_step {byte : UInt8} {rest : Text} (h : source.bytes.drop at_ = byte :: rest) :
    source.stringBytes at_ =
      (source.stringByte >>= fun _ =>
        if byte = 0 then pure () else source.stringBytes : Decoder ScanCost Unit) at_ := by
  have hlength : at_ + 1 ≤ source.bytes.length := by
    have := congrArg List.length h
    rw [List.length_drop, List.length_cons] at this
    omega
  have hrest : source.bytes.drop (at_ + 1) = rest := by
    rw [← List.drop_drop, h]
    rfl
  refine Option.ext fun ⟨u, d⟩ => ?_
  rw [stringBytes_eq_some, h, terminatedLength, Decoder.bind_eq_some]
  by_cases hbyte : byte = 0
  · simp only [if_pos hbyte, Option.some.injEq, stringByte_eq_some, Decoder.pure_eq_some]
    constructor
    · rintro ⟨size, rfl, hend, rfl⟩
      exact ⟨(), _, _, ⟨⟨hend, hlength⟩, rfl⟩, ⟨trivial, rfl⟩, by ext <;> simp⟩
    · rintro ⟨u', d₁, d₂, ⟨⟨hend, -⟩, rfl⟩, ⟨-, rfl⟩, rfl⟩
      exact ⟨1, rfl, hend, by ext <;> simp⟩
  · simp only [if_neg hbyte, Option.map_eq_some_iff, stringByte_eq_some, stringBytes_eq_some]
    constructor
    · rintro ⟨size, ⟨more, hmore, rfl⟩, hend, rfl⟩
      refine ⟨(), _, _, ⟨⟨by omega, hlength⟩, rfl⟩, ⟨more, ?_, ?_, rfl⟩, ?_⟩
      · show terminatedLength (source.bytes.drop (at_ + 1)) = some more
        rw [hrest, hmore]
      · show at_ + 1 + more ≤ source.metadataEnd
        omega
      · ext <;> simp [ScanCost.stringTaken, Nat.add_comm]
    · rintro ⟨u', d₁, d₂, ⟨⟨hend, -⟩, rfl⟩, ⟨more, hmore, hend', rfl⟩, rfl⟩
      have hmore' : terminatedLength (source.bytes.drop (at_ + 1)) = some more := hmore
      have hend'' : at_ + 1 + more ≤ source.metadataEnd := hend'
      refine ⟨more + 1, ⟨more, by rw [← hrest, hmore'], rfl⟩, by omega, ?_⟩
      ext <;> simp [ScanCost.stringTaken, Nat.add_comm]

theorem terminatedString_eq_some {span : PrefixSpan} :
    source.terminatedString at_ = some (span, d) ↔
      ∃ size, terminatedLength (source.bytes.drop at_) = some size ∧
        at_ + size ≤ source.metadataEnd ∧ span = ⟨at_, size⟩ ∧
        d = .stringTaken size := by
  constructor
  · intro h
    obtain ⟨start, d₁, _, hstart, h₁, rfl⟩ := Decoder.bind_eq_some.mp h
    obtain ⟨rfl, rfl⟩ := Decoder.position_eq_some.mp hstart
    obtain ⟨_, d₂, _, hbytes, h₂, rfl⟩ := Decoder.bind_eq_some.mp h₁
    obtain ⟨size, hlength, hend, rfl⟩ := stringBytes_eq_some.mp hbytes
    obtain ⟨stop, d₃, _, hstop, hp, rfl⟩ := Decoder.bind_eq_some.mp h₂
    obtain ⟨rfl, rfl⟩ := Decoder.position_eq_some.mp hstop
    obtain ⟨rfl, rfl⟩ := Decoder.pure_eq_some.mp hp
    refine ⟨size, hlength, hend, ?_, ?_⟩
    · simp [ScanCost.stringTaken]
    · ext <;> simp [ScanCost.stringTaken]
  · rintro ⟨size, hlength, hend, rfl, rfl⟩
    refine Decoder.bind_eq_some.mpr ⟨_, _, _, Decoder.position_eq_some.mpr ⟨rfl, rfl⟩,
      Decoder.bind_eq_some.mpr ⟨(), _, _, stringBytes_eq_some.mpr ⟨size, hlength, hend, rfl⟩,
        Decoder.bind_eq_some.mpr ⟨_, _, _, Decoder.position_eq_some.mpr ⟨rfl, rfl⟩,
          Decoder.pure_eq_some.mpr ⟨?_, rfl⟩, rfl⟩, rfl⟩, ?_⟩
    · simp [ScanCost.stringTaken]
    · ext <;> simp [ScanCost.stringTaken]

theorem tableCount_eq_some {table : Table} {planned : Option ℕ} {span : PrefixSpan} {count : ℕ} :
    source.tableCount table planned at_ = some ((span, count), d) ↔
      ∃ value, source.readCount at_ = some ((span, value), .taken 4) ∧ count = value.toNat ∧
        planned.all (· == count) = true ∧ d = .taken 4 + .table table count := by
  constructor
  · intro h
    obtain ⟨⟨span', value⟩, d₁, _, hread, h₁, rfl⟩ := Decoder.bind_eq_some.mp h
    obtain ⟨-, -, -, -, rfl⟩ := readCount_eq_some.mp hread
    obtain ⟨_, d₂, _, hspend, h₂, rfl⟩ := Decoder.bind_eq_some.mp h₁
    obtain rfl := Decoder.spend_eq_some.mp hspend
    obtain ⟨_, d₃, _, hplanned, hp, rfl⟩ := Decoder.bind_eq_some.mp h₂
    obtain ⟨hall, rfl⟩ := Decoder.require_eq_some.mp hplanned
    obtain ⟨hvalue, rfl⟩ := Decoder.pure_eq_some.mp hp
    cases hvalue
    exact ⟨value, hread, rfl, hall, by ext <;> simp [ScanCost.taken]⟩
  · rintro ⟨value, hread, rfl, hall, rfl⟩
    refine Decoder.bind_eq_some.mpr ⟨_, _, _, hread, Decoder.bind_eq_some.mpr ⟨(), _, _,
      Decoder.spend_eq_some.mpr rfl, Decoder.bind_eq_some.mpr ⟨(), 0, 0,
        Decoder.require_eq_some.mpr ⟨hall, rfl⟩, Decoder.pure_eq_some.mpr ⟨rfl, rfl⟩, rfl⟩,
        rfl⟩, ?_⟩
    ext <;> simp [ScanCost.taken]

/-! ## Rows -/

theorem directoryTree_reads {tree : DirectoryTree} {dependencies : DirectoryDependencies}
    (h : source.directoryTree at_ = some ((tree, dependencies), d)) :
    ∃ size, d = { ScanCost.taken size with
        nodes := tree.nodeCount.toNat
        strings := tree.stringByteCount.toNat
        words := dependencies.count.toNat } ∧
      Tiles at_ (extents (tree.spans ++ dependencies.spans)) (at_ + size) := by
  obtain ⟨tree', d₁, _, htree, h₁, rfl⟩ := Decoder.bind_eq_some.mp h
  obtain ⟨size, rfl, htiles⟩ := tree_reads htree
  obtain ⟨⟨_, count⟩, d₂, _, hcount, h₂, rfl⟩ := Decoder.bind_eq_some.mp h₁
  obtain ⟨-, rfl, -, -, rfl⟩ := readCount_eq_some.mp hcount
  obtain ⟨_, d₃, _, hspend, h₃, rfl⟩ := Decoder.bind_eq_some.mp h₂
  obtain rfl := Decoder.spend_eq_some.mp hspend
  obtain ⟨_, d₄, _, hwords, hp, rfl⟩ := Decoder.bind_eq_some.mp h₃
  obtain ⟨-, rfl, rfl⟩ := take_eq_some.mp hwords
  obtain ⟨hpair, rfl⟩ := Decoder.pure_eq_some.mp hp
  cases hpair
  refine ⟨size + 4 + count.toNat * 4, ?_, ?_⟩
  · ext <;> simp [ScanCost.taken] <;> omega
  · rw [extents_append]
    refine htiles.append ?_
    simp [DirectoryDependencies.spans, ScanCost.taken, Tiles]
    omega

theorem directoryType_reads {hasTree : Bool} {ordinal : ℕ} {row : DirectoryTypeRow}
    (h : source.directoryType hasTree ordinal at_ = some (row, d)) :
    row.ordinal = ordinal ∧ row.source = ⟨at_, d.bytes⟩ ∧
      Tiles at_ (extents row.spans) (at_ + d.bytes) ∧
      d = { bytes := d.bytes
            work := d.bytes + 1
            nodes := treeNodes row.tree
            strings := treeStrings row.tree
            words := row.dependencyWords } := by
  obtain ⟨start, d₁, _, hstart, h₁, rfl⟩ := Decoder.bind_eq_some.mp h
  obtain ⟨rfl, rfl⟩ := Decoder.position_eq_some.mp hstart
  obtain ⟨typePrefix, d₂, _, hhead, h₂, rfl⟩ := Decoder.bind_eq_some.mp h₁
  obtain ⟨size, rfl, hptiles⟩ := typePrefix_reads hhead
  obtain ⟨⟨tree, dependencies⟩, d₃, _, hwhen, h₃, rfl⟩ := Decoder.bind_eq_some.mp h₂
  obtain ⟨_, d₄, _, hspend, h₄, rfl⟩ := Decoder.bind_eq_some.mp h₃
  obtain rfl := Decoder.spend_eq_some.mp hspend
  obtain ⟨stop, d₅, _, hstop, hp, rfl⟩ := Decoder.bind_eq_some.mp h₄
  obtain ⟨rfl, rfl⟩ := Decoder.position_eq_some.mp hstop
  obtain ⟨rfl, rfl⟩ := Decoder.pure_eq_some.mp hp
  cases hasTree with
  | false =>
      obtain ⟨hpair, rfl⟩ := Decoder.pure_eq_some.mp hwhen
      cases hpair
      refine ⟨rfl, ?_, ?_, ?_⟩
      · simp [ScanCost.taken]
      · simpa [DirectoryTypeRow.spans, ScanCost.taken] using hptiles
      · ext <;> simp [ScanCost.taken, treeNodes, treeStrings, DirectoryTypeRow.dependencyWords]
  | true =>
      obtain ⟨⟨tree', dependencies'⟩, d₆, _, htree, hpair, rfl⟩ := Decoder.bind_eq_some.mp hwhen
      obtain ⟨treeSize, rfl, htiles⟩ := directoryTree_reads htree
      obtain ⟨hpair, rfl⟩ := Decoder.pure_eq_some.mp hpair
      cases hpair
      refine ⟨rfl, ?_, ?_, ?_⟩
      · simp [ScanCost.taken]
        omega
      · have hrow := hptiles.append htiles
        simpa [DirectoryTypeRow.spans, ScanCost.taken, Nat.add_assoc] using hrow
      · ext <;> simp [ScanCost.taken, treeNodes, treeStrings, DirectoryTypeRow.dependencyWords]
        omega

theorem directoryObject_reads {header : HeaderView} {typeCount ordinal : ℕ}
    {row : DirectoryObjectRow}
    (h : source.directoryObject header typeCount ordinal at_ = some (row, d)) :
    row.ordinal = ordinal ∧ row.source = ⟨at_, 24⟩ ∧ d = { bytes := 24, work := 25 } ∧
      header.dataOffset ≤ row.payload.offset ∧
      row.payload.offset + row.payload.size ≤
        header.dataOffset + (header.fileSize - header.dataOffset) ∧
      row.typeOrdinal.toNat < typeCount := by
  obtain ⟨span, d₁, _, htake, h₁, rfl⟩ := Decoder.bind_eq_some.mp h
  obtain ⟨-, rfl, rfl⟩ := take_eq_some.mp htake
  obtain ⟨_, d₂, _, hoffset, h₂, rfl⟩ := Decoder.bind_eq_some.mp h₁
  obtain ⟨hstarts, rfl⟩ := Decoder.require_eq_some.mp hoffset
  obtain ⟨_, d₃, _, hsize, h₃, rfl⟩ := Decoder.bind_eq_some.mp h₂
  obtain ⟨hfits, rfl⟩ := Decoder.require_eq_some.mp hsize
  obtain ⟨_, d₄, _, htype, h₄, rfl⟩ := Decoder.bind_eq_some.mp h₃
  obtain ⟨hknown, rfl⟩ := Decoder.require_eq_some.mp htype
  obtain ⟨_, d₅, _, hspend, hp, rfl⟩ := Decoder.bind_eq_some.mp h₄
  obtain rfl := Decoder.spend_eq_some.mp hspend
  obtain ⟨rfl, rfl⟩ := Decoder.pure_eq_some.mp hp
  refine ⟨rfl, rfl, ?_, Nat.le_add_right _ _, ?_, hknown⟩
  · ext <;> simp [ScanCost.taken]
  · dsimp only
    omega

theorem script_reads {ordinal : ℕ} {row : TailScriptRow}
    (h : source.script ordinal at_ = some (row, d)) :
    row.ordinal = ordinal ∧ row.source = ⟨at_, d.bytes⟩ ∧
      Tiles at_ (extents row.spans) (at_ + d.bytes) ∧
      d = { bytes := d.bytes, work := d.bytes + 1 } := by
  obtain ⟨start, d₁, _, hstart, h₁, rfl⟩ := Decoder.bind_eq_some.mp h
  obtain ⟨rfl, rfl⟩ := Decoder.position_eq_some.mp hstart
  obtain ⟨⟨_, index⟩, d₂, _, hindex, h₂, rfl⟩ := Decoder.bind_eq_some.mp h₁
  obtain ⟨-, rfl, -, rfl⟩ := readU32_eq_some.mp hindex
  obtain ⟨padded, d₃, _, hpadded, h₃, rfl⟩ := Decoder.bind_eq_some.mp h₂
  obtain ⟨rfl, rfl⟩ := Decoder.position_eq_some.mp hpadded
  obtain ⟨_, d₄, _, hpadding, h₄, rfl⟩ := Decoder.bind_eq_some.mp h₃
  obtain ⟨-, rfl, rfl⟩ := take_eq_some.mp hpadding
  obtain ⟨_, d₅, _, hid, h₅, rfl⟩ := Decoder.bind_eq_some.mp h₄
  obtain ⟨-, rfl, rfl⟩ := take_eq_some.mp hid
  obtain ⟨_, d₆, _, hspend, h₆, rfl⟩ := Decoder.bind_eq_some.mp h₅
  obtain rfl := Decoder.spend_eq_some.mp hspend
  obtain ⟨stop, d₇, _, hstop, hp, rfl⟩ := Decoder.bind_eq_some.mp h₆
  obtain ⟨rfl, rfl⟩ := Decoder.position_eq_some.mp hstop
  obtain ⟨rfl, rfl⟩ := Decoder.pure_eq_some.mp hp
  refine ⟨rfl, ?_, ?_, ?_⟩
  · simp [ScanCost.taken]
    omega
  · simp [TailScriptRow.spans, ScanCost.taken, Tiles]
    omega
  · ext <;> simp [ScanCost.taken]
    omega

theorem external_reads {ordinal : ℕ} {row : TailExternalRow}
    (h : source.external ordinal at_ = some (row, d)) :
    row.ordinal = ordinal ∧ row.source = ⟨at_, d.bytes⟩ ∧
      Tiles at_ (extents row.spans) (at_ + d.bytes) ∧
      d = { bytes := d.bytes, work := d.bytes + 1, terminated := row.stringBytes } := by
  obtain ⟨start, d₁, _, hstart, h₁, rfl⟩ := Decoder.bind_eq_some.mp h
  obtain ⟨rfl, rfl⟩ := Decoder.position_eq_some.mp hstart
  obtain ⟨_, d₂, _, hleading, h₂, rfl⟩ := Decoder.bind_eq_some.mp h₁
  obtain ⟨leading, -, -, rfl, rfl⟩ := terminatedString_eq_some.mp hleading
  obtain ⟨_, d₃, _, hguid, h₃, rfl⟩ := Decoder.bind_eq_some.mp h₂
  obtain ⟨-, rfl, rfl⟩ := take_eq_some.mp hguid
  obtain ⟨⟨_, type⟩, d₄, _, htype, h₄, rfl⟩ := Decoder.bind_eq_some.mp h₃
  obtain ⟨-, rfl, -, rfl⟩ := readU32_eq_some.mp htype
  obtain ⟨_, d₅, _, hpath, h₅, rfl⟩ := Decoder.bind_eq_some.mp h₄
  obtain ⟨path, -, -, rfl, rfl⟩ := terminatedString_eq_some.mp hpath
  obtain ⟨_, d₆, _, hspend, h₆, rfl⟩ := Decoder.bind_eq_some.mp h₅
  obtain rfl := Decoder.spend_eq_some.mp hspend
  obtain ⟨stop, d₇, _, hstop, hp, rfl⟩ := Decoder.bind_eq_some.mp h₆
  obtain ⟨rfl, rfl⟩ := Decoder.position_eq_some.mp hstop
  obtain ⟨rfl, rfl⟩ := Decoder.pure_eq_some.mp hp
  refine ⟨rfl, ?_, ?_, ?_⟩
  · simp [ScanCost.taken, ScanCost.stringTaken]
    omega
  · simp [TailExternalRow.spans, ScanCost.taken, ScanCost.stringTaken, Tiles]
    omega
  · ext <;> simp [ScanCost.taken, ScanCost.stringTaken, TailExternalRow.stringBytes]
    omega

theorem referenceTree_reads {tree : DirectoryTree} {names : TailReferenceNames}
    (h : source.referenceTree at_ = some ((tree, names), d)) :
    ∃ size, d = { ScanCost.taken size with
        nodes := tree.nodeCount.toNat
        strings := tree.stringByteCount.toNat
        terminated := names.bytes } ∧
      Tiles at_ (extents (tree.spans ++ names.spans)) (at_ + size) := by
  obtain ⟨tree', d₁, _, htree, h₁, rfl⟩ := Decoder.bind_eq_some.mp h
  obtain ⟨size, rfl, htiles⟩ := tree_reads htree
  obtain ⟨_, d₂, _, hclass, h₂, rfl⟩ := Decoder.bind_eq_some.mp h₁
  obtain ⟨className, -, -, rfl, rfl⟩ := terminatedString_eq_some.mp hclass
  obtain ⟨_, d₃, _, hnamespace, h₃, rfl⟩ := Decoder.bind_eq_some.mp h₂
  obtain ⟨namespaceName, -, -, rfl, rfl⟩ := terminatedString_eq_some.mp hnamespace
  obtain ⟨_, d₄, _, hassembly, hp, rfl⟩ := Decoder.bind_eq_some.mp h₃
  obtain ⟨assemblyName, -, -, rfl, rfl⟩ := terminatedString_eq_some.mp hassembly
  obtain ⟨hpair, rfl⟩ := Decoder.pure_eq_some.mp hp
  cases hpair
  refine ⟨size + (className + namespaceName + assemblyName), ?_, ?_⟩
  · ext <;> simp [ScanCost.taken, ScanCost.stringTaken, TailReferenceNames.bytes] <;> omega
  · rw [extents_append]
    refine htiles.append ?_
    simp [TailReferenceNames.spans, ScanCost.taken, ScanCost.stringTaken, Tiles]
    omega

theorem referenceType_reads {hasTree : Bool} {ordinal : ℕ} {row : TailReferenceTypeRow}
    (h : source.referenceType hasTree ordinal at_ = some (row, d)) :
    row.ordinal = ordinal ∧ row.source = ⟨at_, d.bytes⟩ ∧
      Tiles at_ (extents row.spans) (at_ + d.bytes) ∧
      d = { bytes := d.bytes
            work := d.bytes + 1
            nodes := treeNodes row.tree
            strings := treeStrings row.tree
            terminated := row.nameBytes } := by
  obtain ⟨start, d₁, _, hstart, h₁, rfl⟩ := Decoder.bind_eq_some.mp h
  obtain ⟨rfl, rfl⟩ := Decoder.position_eq_some.mp hstart
  obtain ⟨typePrefix, d₂, _, hhead, h₂, rfl⟩ := Decoder.bind_eq_some.mp h₁
  obtain ⟨size, rfl, hptiles⟩ := typePrefix_reads hhead
  obtain ⟨⟨tree, names⟩, d₃, _, hwhen, h₃, rfl⟩ := Decoder.bind_eq_some.mp h₂
  obtain ⟨_, d₄, _, hspend, h₄, rfl⟩ := Decoder.bind_eq_some.mp h₃
  obtain rfl := Decoder.spend_eq_some.mp hspend
  obtain ⟨stop, d₅, _, hstop, hp, rfl⟩ := Decoder.bind_eq_some.mp h₄
  obtain ⟨rfl, rfl⟩ := Decoder.position_eq_some.mp hstop
  obtain ⟨rfl, rfl⟩ := Decoder.pure_eq_some.mp hp
  cases hasTree with
  | false =>
      obtain ⟨hpair, rfl⟩ := Decoder.pure_eq_some.mp hwhen
      cases hpair
      refine ⟨rfl, ?_, ?_, ?_⟩
      · simp [ScanCost.taken]
      · simpa [TailReferenceTypeRow.spans, ScanCost.taken] using hptiles
      · ext <;> simp [ScanCost.taken, treeNodes, treeStrings, TailReferenceTypeRow.nameBytes]
  | true =>
      obtain ⟨⟨tree', names'⟩, d₆, _, htree, hpair, rfl⟩ := Decoder.bind_eq_some.mp hwhen
      obtain ⟨treeSize, rfl, htiles⟩ := referenceTree_reads htree
      obtain ⟨hpair, rfl⟩ := Decoder.pure_eq_some.mp hpair
      cases hpair
      refine ⟨rfl, ?_, ?_, ?_⟩
      · simp [ScanCost.taken]
        omega
      · have hrow := hptiles.append htiles
        simpa [TailReferenceTypeRow.spans, ScanCost.taken, Nat.add_assoc] using hrow
      · ext <;> simp [ScanCost.taken, treeNodes, treeStrings, TailReferenceTypeRow.nameBytes]
        omega

/-! ## The tables -/

/-- What a pass over the directory has found from `at_` on. -/
structure DirectoryReads (source : MetadataSource) (prefixView : PrefixView) (at_ : ℕ)
    (directory : SerializedFileDirectory) (d : ScanCost) : Prop where
  prefix_eq : directory.view.prefixView = prefixView
  parsed : directory.view.parsedMetadataSource =
    ⟨v22HeaderSize, at_ + d.bytes - v22HeaderSize⟩
  remaining : directory.view.remainingMetadata =
    ⟨at_ + d.bytes, prefixView.header.metadataToDataGap.offset - (at_ + d.bytes)⟩
  typeCount : directory.types.length = directory.view.typeCount
  objectCount : directory.objects.length = directory.view.objectCount
  tiles : Tiles at_ (extents [directory.view.typeCountSource, directory.view.typeRowsSource,
    directory.view.objectCountSource, directory.view.objectPaddingSource,
    directory.view.objectRowsSource]) (at_ + d.bytes)
  types_tile : Tiles directory.view.typeRowsSource.offset
    (extents (directory.types.map (·.source)))
    (directory.view.typeRowsSource.offset + directory.view.typeRowsSource.size)
  objects_tile : Tiles directory.view.objectRowsSource.offset
    (extents (directory.objects.map (·.source)))
    (directory.view.objectRowsSource.offset + directory.view.objectRowsSource.size)
  types : ∀ (i : ℕ) row, directory.types[i]? = some row → row.ordinal = i ∧
    Tiles row.source.offset (extents row.spans) (row.source.offset + row.source.size)
  objects : ∀ (i : ℕ) row, directory.objects[i]? = some row → row.ordinal = i ∧
    prefixView.header.dataOffset ≤ row.payload.offset ∧
    row.payload.offset + row.payload.size ≤ prefixView.header.dataOffset +
      (prefixView.header.fileSize - prefixView.header.dataOffset) ∧
    row.typeOrdinal.toNat < directory.view.typeCount
  nodes : directory.view.nodeRecordCount =
    (directory.types.map fun row => treeNodes row.tree).sum
  strings : directory.view.stringByteCount =
    (directory.types.map fun row => treeStrings row.tree).sum
  words : directory.view.dependencyWordCount =
    (directory.types.map DirectoryTypeRow.dependencyWords).sum
  cost : d = {
    bytes := d.bytes
    work := d.bytes + directory.view.typeCount + directory.view.objectCount
    nodes := directory.view.nodeRecordCount
    strings := directory.view.stringByteCount
    words := directory.view.dependencyWordCount
    rows := fun table => if table = .types then directory.view.typeCount
      else if table = .objects then directory.view.objectCount else 0 }

/-- The cost of a loop whose rows tell what each of them cost. -/
theorem collect_cost {α : Type} {Q : ℕ → Decoder ScanCost α} (cost : α → ScanCost)
    {start count : ℕ} {rows : List α}
    (hQ : ∀ i at_ row e, Q i at_ = some (row, e) → e = cost row)
    (hrows : ∀ row, (cost row).rows = fun _ => 0)
    (h : Decoder.collect Q start count at_ = some (rows, d)) :
    d = {
      bytes := (rows.map fun row => (cost row).bytes).sum
      work := (rows.map fun row => (cost row).work).sum
      nodes := (rows.map fun row => (cost row).nodes).sum
      strings := (rows.map fun row => (cost row).strings).sum
      words := (rows.map fun row => (cost row).words).sum
      terminated := (rows.map fun row => (cost row).terminated).sum } := by
  have hpart : ∀ f : ScanCost → ℕ, f 0 = 0 → (∀ e e', f (e + e') = f e + f e') →
      f d = (rows.map fun row => f (cost row)).sum := fun f hzero hadd =>
    Decoder.collect_sum hzero hadd (fun i p row e he => by rw [hQ i p row e he]) h
  have hnone : d.rows = fun _ => 0 :=
    Decoder.collect_cost (Z := fun e => e.rows = fun _ => 0) rfl
      (fun e e' he he' => funext fun table => by simp [he, he'])
      (fun i p row e he => by rw [hQ i p row e he, hrows]) h
  ext
  · exact hpart _ rfl fun _ _ => rfl
  · exact hpart _ rfl fun _ _ => rfl
  · exact hpart _ rfl fun _ _ => rfl
  · exact hpart _ rfl fun _ _ => rfl
  · exact hpart _ rfl fun _ _ => rfl
  · exact hpart _ rfl fun _ _ => rfl
  · rw [hnone]

/-- **A table of rows that know where they stand.** They follow one another under
their ordinals, and each is tiled by spans of its own. -/
theorem collect_rows {α : Type} {Q : ℕ → Decoder ScanCost α} {ordinal : α → ℕ}
    {span : α → PrefixSpan} {spans : α → List PrefixSpan} {count : ℕ} {rows : List α}
    (hQ : ∀ i p row e, Q i p = some (row, e) → ordinal row = i ∧ span row = ⟨p, e.bytes⟩ ∧
      Tiles p (extents (spans row)) (p + e.bytes))
    (h : Decoder.collect Q 0 count at_ = some (rows, d)) :
    Tiles at_ (rows.map fun row => (span row).extent) (at_ + d.bytes) ∧
      ∀ (i : ℕ) row, rows[i]? = some row → ordinal row = i ∧
        Tiles (span row).offset (extents (spans row)) ((span row).offset + (span row).size) := by
  have htiles := Decoder.collect_tiles (fun row => (span row).extent)
    (fun i p row e he => by rw [(hQ i p row e he).2.1]; rfl) h
  have hrow := Decoder.collect_forall (R := fun i row => ordinal row = i ∧
      Tiles (span row).offset (extents (spans row)) ((span row).offset + (span row).size))
    (fun i p row e he => by
      obtain ⟨hordinal, hspan, hown⟩ := hQ i p row e he
      rw [hspan]
      exact ⟨hordinal, hown⟩) h
  exact ⟨htiles, fun i row hi => by simpa using hrow i row hi⟩

theorem sum_map_succ {α : Type} (size : α → ℕ) : ∀ rows : List α,
    (rows.map fun row => size row + 1).sum = (rows.map size).sum + rows.length
  | [] => rfl
  | row :: rows => by
      rw [List.map_cons, List.sum_cons, sum_map_succ size rows, List.map_cons, List.sum_cons,
        List.length_cons]
      omega

theorem types_cost {hasTree : Bool} {count : ℕ} {rows : List DirectoryTypeRow}
    (h : Decoder.collect (source.directoryType hasTree) 0 count at_ = some (rows, d)) :
    d = {
      bytes := d.bytes
      work := d.bytes + count
      nodes := (rows.map fun row => treeNodes row.tree).sum
      strings := (rows.map fun row => treeStrings row.tree).sum
      words := (rows.map DirectoryTypeRow.dependencyWords).sum } := by
  have hcost := collect_cost (fun row : DirectoryTypeRow =>
    { bytes := row.source.size
      work := row.source.size + 1
      nodes := treeNodes row.tree
      strings := treeStrings row.tree
      words := row.dependencyWords }) (fun i p row e he => by
    obtain ⟨-, hsource, -, hcost⟩ := directoryType_reads he
    rw [hsource]
    exact hcost) (fun _ => rfl) h
  rw [← Decoder.collect_length h]
  rw [sum_map_succ] at hcost
  rw [hcost]
  simp

theorem objects_cost {header : HeaderView} {typeCount count : ℕ} {rows : List DirectoryObjectRow}
    (h : Decoder.collect (source.directoryObject header typeCount) 0 count at_ = some (rows, d)) :
    d = { bytes := d.bytes, work := d.bytes + count } := by
  have hcost := collect_cost (fun row : DirectoryObjectRow =>
    { bytes := row.source.size, work := row.source.size + 1 }) (fun i p row e he => by
    obtain ⟨-, hsource, hcost, -⟩ := directoryObject_reads he
    rw [hsource]
    exact hcost) (fun _ => rfl) h
  rw [← Decoder.collect_length h]
  rw [sum_map_succ] at hcost
  rw [hcost]
  simp

theorem directory_reads {engineVersion : DirectoryEngineVersion} {prefixView : PrefixView}
    {plannedTypes plannedObjects : Option ℕ} {directory : SerializedFileDirectory}
    (h : source.directory engineVersion prefixView plannedTypes plannedObjects at_ =
      some (directory, d)) :
    DirectoryReads source prefixView at_ directory d := by
  -- the steps of the pass in order, each with where it ends
  obtain ⟨⟨_, typeCount⟩, d₁, _, htypes, h₁, rfl⟩ := Decoder.bind_eq_some.mp h
  obtain ⟨_, hread, rfl, -, rfl⟩ := tableCount_eq_some.mp htypes
  obtain ⟨-, rfl, -, -, -⟩ := readCount_eq_some.mp hread
  obtain ⟨_, d₂, _, hstart, h₂, rfl⟩ := Decoder.bind_eq_some.mp h₁
  obtain ⟨rfl, rfl⟩ := Decoder.position_eq_some.mp hstart
  obtain ⟨types, d₃, _, hrows, h₃, rfl⟩ := Decoder.bind_eq_some.mp h₂
  obtain ⟨_, d₄, _, hstop, h₄, rfl⟩ := Decoder.bind_eq_some.mp h₃
  obtain ⟨rfl, rfl⟩ := Decoder.position_eq_some.mp hstop
  obtain ⟨⟨_, objectCount⟩, d₅, _, hobjects, h₅, rfl⟩ := Decoder.bind_eq_some.mp h₄
  obtain ⟨_, hread', rfl, -, rfl⟩ := tableCount_eq_some.mp hobjects
  obtain ⟨-, rfl, -, -, -⟩ := readCount_eq_some.mp hread'
  obtain ⟨_, d₆, _, hposition, h₆, rfl⟩ := Decoder.bind_eq_some.mp h₅
  obtain ⟨rfl, rfl⟩ := Decoder.position_eq_some.mp hposition
  obtain ⟨_, d₇, _, hpadding, h₇, rfl⟩ := Decoder.bind_eq_some.mp h₆
  obtain ⟨-, rfl, rfl⟩ := take_eq_some.mp hpadding
  obtain ⟨_, d₈, _, hstart', h₈, rfl⟩ := Decoder.bind_eq_some.mp h₇
  obtain ⟨rfl, rfl⟩ := Decoder.position_eq_some.mp hstart'
  obtain ⟨objects, d₉, _, hrows', h₉, rfl⟩ := Decoder.bind_eq_some.mp h₈
  obtain ⟨_, d₁₀, _, hend, hp, rfl⟩ := Decoder.bind_eq_some.mp h₉
  obtain ⟨rfl, rfl⟩ := Decoder.position_eq_some.mp hend
  obtain ⟨rfl, rfl⟩ := Decoder.pure_eq_some.mp hp
  -- the two tables, row by row
  obtain ⟨htiles, hrow⟩ := collect_rows (fun i p row e he => by
    obtain ⟨hordinal, hsource, hown, -⟩ := directoryType_reads he
    exact ⟨hordinal, hsource, hown⟩) hrows
  have htiles' := Decoder.collect_tiles (fun row => row.source.extent)
    (fun i p row e he => by
      obtain ⟨-, hsource, hcost, -⟩ := directoryObject_reads he
      rw [hsource, hcost]
      rfl) hrows'
  have hobject := Decoder.collect_forall (R := fun i row => row.ordinal = i ∧ _)
    (fun i p row e he => by
      obtain ⟨hordinal, -, -, hpayload⟩ := directoryObject_reads he
      exact ⟨hordinal, hpayload⟩) hrows'
  have htypesCost := types_cost hrows
  have hobjectsCost := objects_cost hrows'
  have hcount := Decoder.collect_length hrows
  have hcount' := Decoder.collect_length hrows'
  refine
    { prefix_eq := rfl
      parsed := ?_
      remaining := ?_
      typeCount := hcount
      objectCount := hcount'
      tiles := ?_
      types_tile := ?_
      objects_tile := ?_
      types := hrow
      objects := fun i row hi => by simpa using hobject i row hi
      nodes := rfl
      strings := rfl
      words := rfl
      cost := ?_ }
  · simp [ScanCost.taken, ScanCost.table, Nat.add_assoc]
  · simp [ScanCost.taken, ScanCost.table, Nat.add_assoc]
  · simp [ScanCost.taken, ScanCost.table, Tiles]
    omega
  · simpa [extents, Function.comp_def, Nat.add_sub_cancel_left] using htiles
  · simpa [extents, Function.comp_def, Nat.add_sub_cancel_left] using htiles'
  · rw [htypesCost, hobjectsCost]
    ext table <;> simp [ScanCost.taken, ScanCost.table]
    · omega
    · cases table <;> simp

/-- What a pass over the tail has found from `at_` on. -/
structure TailReads (source : MetadataSource) (directory : DirectoryView) (at_ : ℕ)
    (tail : SerializedFileMetadataTail) (d : ScanCost) : Prop where
  directory_eq : tail.view.directory = directory
  source_eq : tail.view.source = ⟨at_, d.bytes⟩
  exhausted : at_ + d.bytes = source.metadataEnd
  scriptCount : tail.scripts.length = tail.view.scriptCount
  externalCount : tail.externals.length = tail.view.externalCount
  referenceTypeCount : tail.referenceTypes.length = tail.view.referenceTypeCount
  tiles : Tiles at_ (extents [tail.view.scriptCountSource, tail.view.scriptRowsSource,
    tail.view.externalCountSource, tail.view.externalRowsSource,
    tail.view.referenceTypeCountSource, tail.view.referenceTypeRowsSource,
    tail.view.userInformationSource]) (at_ + d.bytes)
  scripts_tile : Tiles tail.view.scriptRowsSource.offset (extents (tail.scripts.map (·.source)))
    (tail.view.scriptRowsSource.offset + tail.view.scriptRowsSource.size)
  externals_tile : Tiles tail.view.externalRowsSource.offset
    (extents (tail.externals.map (·.source)))
    (tail.view.externalRowsSource.offset + tail.view.externalRowsSource.size)
  referenceTypes_tile : Tiles tail.view.referenceTypeRowsSource.offset
    (extents (tail.referenceTypes.map (·.source)))
    (tail.view.referenceTypeRowsSource.offset + tail.view.referenceTypeRowsSource.size)
  scripts : ∀ (i : ℕ) row, tail.scripts[i]? = some row → row.ordinal = i ∧
    Tiles row.source.offset (extents row.spans) (row.source.offset + row.source.size)
  externals : ∀ (i : ℕ) row, tail.externals[i]? = some row → row.ordinal = i ∧
    Tiles row.source.offset (extents row.spans) (row.source.offset + row.source.size)
  referenceTypes : ∀ (i : ℕ) row, tail.referenceTypes[i]? = some row → row.ordinal = i ∧
    Tiles row.source.offset (extents row.spans) (row.source.offset + row.source.size)
  nodes : tail.view.nodeRecordCount =
    (tail.referenceTypes.map fun row => treeNodes row.tree).sum
  strings : tail.view.treeStringByteCount =
    (tail.referenceTypes.map fun row => treeStrings row.tree).sum
  terminated : tail.view.terminatedStringByteCount =
    (tail.externals.map TailExternalRow.stringBytes).sum +
      (tail.referenceTypes.map TailReferenceTypeRow.nameBytes).sum +
      tail.view.userInformationSource.size
  cost : d = {
    bytes := d.bytes
    work := d.bytes + tail.view.scriptCount + tail.view.externalCount +
      tail.view.referenceTypeCount
    nodes := tail.view.nodeRecordCount
    strings := tail.view.treeStringByteCount
    terminated := tail.view.terminatedStringByteCount
    rows := fun table => match table with
      | .scripts => tail.view.scriptCount
      | .externals => tail.view.externalCount
      | .referenceTypes => tail.view.referenceTypeCount
      | _ => 0 }

theorem scripts_cost {count : ℕ} {rows : List TailScriptRow}
    (h : Decoder.collect source.script 0 count at_ = some (rows, d)) :
    d = { bytes := d.bytes, work := d.bytes + count } := by
  have hcost := collect_cost (fun row : TailScriptRow =>
    { bytes := row.source.size, work := row.source.size + 1 }) (fun i p row e he => by
    obtain ⟨-, hsource, -, hcost⟩ := script_reads he
    rw [hsource]
    exact hcost) (fun _ => rfl) h
  rw [← Decoder.collect_length h]
  rw [sum_map_succ] at hcost
  rw [hcost]
  simp

theorem externals_cost {count : ℕ} {rows : List TailExternalRow}
    (h : Decoder.collect source.external 0 count at_ = some (rows, d)) :
    d = {
      bytes := d.bytes
      work := d.bytes + count
      terminated := (rows.map TailExternalRow.stringBytes).sum } := by
  have hcost := collect_cost (fun row : TailExternalRow =>
    { bytes := row.source.size, work := row.source.size + 1, terminated := row.stringBytes })
    (fun i p row e he => by
      obtain ⟨-, hsource, -, hcost⟩ := external_reads he
      rw [hsource]
      exact hcost) (fun _ => rfl) h
  rw [← Decoder.collect_length h]
  rw [sum_map_succ] at hcost
  rw [hcost]
  simp

theorem referenceTypes_cost {hasTree : Bool} {count : ℕ} {rows : List TailReferenceTypeRow}
    (h : Decoder.collect (source.referenceType hasTree) 0 count at_ = some (rows, d)) :
    d = {
      bytes := d.bytes
      work := d.bytes + count
      nodes := (rows.map fun row => treeNodes row.tree).sum
      strings := (rows.map fun row => treeStrings row.tree).sum
      terminated := (rows.map TailReferenceTypeRow.nameBytes).sum } := by
  have hcost := collect_cost (fun row : TailReferenceTypeRow =>
    { bytes := row.source.size
      work := row.source.size + 1
      nodes := treeNodes row.tree
      strings := treeStrings row.tree
      terminated := row.nameBytes }) (fun i p row e he => by
    obtain ⟨-, hsource, -, hcost⟩ := referenceType_reads he
    rw [hsource]
    exact hcost) (fun _ => rfl) h
  rw [← Decoder.collect_length h]
  rw [sum_map_succ] at hcost
  rw [hcost]
  simp

theorem tail_reads {directory : DirectoryView} {planned : Option TailCapacities}
    {tail : SerializedFileMetadataTail}
    (h : source.tail directory planned at_ = some (tail, d)) :
    TailReads source directory at_ tail d := by
  obtain ⟨_, d₀, _, hbegin, h₀, rfl⟩ := Decoder.bind_eq_some.mp h
  obtain ⟨rfl, rfl⟩ := Decoder.position_eq_some.mp hbegin
  -- the steps of the pass in order, each with where it ends
  obtain ⟨⟨_, scriptCount⟩, d₁, _, hscripts, h₁, rfl⟩ := Decoder.bind_eq_some.mp h₀
  obtain ⟨_, hread₁, rfl, -, rfl⟩ := tableCount_eq_some.mp hscripts
  obtain ⟨-, rfl, -, -, -⟩ := readCount_eq_some.mp hread₁
  obtain ⟨_, d₂, _, hstart₁, h₂, rfl⟩ := Decoder.bind_eq_some.mp h₁
  obtain ⟨rfl, rfl⟩ := Decoder.position_eq_some.mp hstart₁
  obtain ⟨scripts, d₃, _, hrows₁, h₃, rfl⟩ := Decoder.bind_eq_some.mp h₂
  obtain ⟨_, d₄, _, hstop₁, h₄, rfl⟩ := Decoder.bind_eq_some.mp h₃
  obtain ⟨rfl, rfl⟩ := Decoder.position_eq_some.mp hstop₁
  obtain ⟨⟨_, externalCount⟩, d₅, _, hexternals, h₅, rfl⟩ := Decoder.bind_eq_some.mp h₄
  obtain ⟨_, hread₂, rfl, -, rfl⟩ := tableCount_eq_some.mp hexternals
  obtain ⟨-, rfl, -, -, -⟩ := readCount_eq_some.mp hread₂
  obtain ⟨_, d₆, _, hstart₂, h₆, rfl⟩ := Decoder.bind_eq_some.mp h₅
  obtain ⟨rfl, rfl⟩ := Decoder.position_eq_some.mp hstart₂
  obtain ⟨externals, d₇, _, hrows₂, h₇, rfl⟩ := Decoder.bind_eq_some.mp h₆
  obtain ⟨_, d₈, _, hstop₂, h₈, rfl⟩ := Decoder.bind_eq_some.mp h₇
  obtain ⟨rfl, rfl⟩ := Decoder.position_eq_some.mp hstop₂
  obtain ⟨⟨_, referenceTypeCount⟩, d₉, _, hreferences, h₉, rfl⟩ := Decoder.bind_eq_some.mp h₈
  obtain ⟨_, hread₃, rfl, -, rfl⟩ := tableCount_eq_some.mp hreferences
  obtain ⟨-, rfl, -, -, -⟩ := readCount_eq_some.mp hread₃
  obtain ⟨_, d₁₀, _, hstart₃, h₁₀, rfl⟩ := Decoder.bind_eq_some.mp h₉
  obtain ⟨rfl, rfl⟩ := Decoder.position_eq_some.mp hstart₃
  obtain ⟨referenceTypes, d₁₁, _, hrows₃, h₁₁, rfl⟩ := Decoder.bind_eq_some.mp h₁₀
  obtain ⟨_, d₁₂, _, hstop₃, h₁₂, rfl⟩ := Decoder.bind_eq_some.mp h₁₁
  obtain ⟨rfl, rfl⟩ := Decoder.position_eq_some.mp hstop₃
  obtain ⟨_, d₁₃, _, huser, h₁₃, rfl⟩ := Decoder.bind_eq_some.mp h₁₂
  obtain ⟨userSize, -, -, rfl, rfl⟩ := terminatedString_eq_some.mp huser
  obtain ⟨_, d₁₄, _, hend, h₁₄, rfl⟩ := Decoder.bind_eq_some.mp h₁₃
  obtain ⟨rfl, rfl⟩ := Decoder.position_eq_some.mp hend
  obtain ⟨_, d₁₅, _, hexhausted, hp, rfl⟩ := Decoder.bind_eq_some.mp h₁₄
  obtain ⟨hall, rfl⟩ := Decoder.require_eq_some.mp hexhausted
  obtain ⟨rfl, rfl⟩ := Decoder.pure_eq_some.mp hp
  -- the three tables, row by row
  obtain ⟨htiles₁, hrow₁⟩ := collect_rows (fun i p row e he => by
    obtain ⟨hordinal, hsource, hown, -⟩ := script_reads he
    exact ⟨hordinal, hsource, hown⟩) hrows₁
  obtain ⟨htiles₂, hrow₂⟩ := collect_rows (fun i p row e he => by
    obtain ⟨hordinal, hsource, hown, -⟩ := external_reads he
    exact ⟨hordinal, hsource, hown⟩) hrows₂
  obtain ⟨htiles₃, hrow₃⟩ := collect_rows (fun i p row e he => by
    obtain ⟨hordinal, hsource, hown, -⟩ := referenceType_reads he
    exact ⟨hordinal, hsource, hown⟩) hrows₃
  have hcost₁ := scripts_cost hrows₁
  have hcost₂ := externals_cost hrows₂
  have hcost₃ := referenceTypes_cost hrows₃
  refine
    { directory_eq := rfl
      source_eq := ?_
      exhausted := ?_
      scriptCount := Decoder.collect_length hrows₁
      externalCount := Decoder.collect_length hrows₂
      referenceTypeCount := Decoder.collect_length hrows₃
      tiles := ?_
      scripts_tile := ?_
      externals_tile := ?_
      referenceTypes_tile := ?_
      scripts := hrow₁
      externals := hrow₂
      referenceTypes := hrow₃
      nodes := rfl
      strings := rfl
      terminated := rfl
      cost := ?_ }
  · simp [ScanCost.taken, ScanCost.stringTaken, ScanCost.table]
    omega
  · rw [← hall]
    simp [ScanCost.taken, ScanCost.stringTaken, ScanCost.table, Nat.add_assoc]
  · simp [ScanCost.taken, ScanCost.stringTaken, ScanCost.table, Tiles]
    omega
  · simpa [extents, Function.comp_def, Nat.add_sub_cancel_left] using htiles₁
  · simpa [extents, Function.comp_def, Nat.add_sub_cancel_left] using htiles₂
  · simpa [extents, Function.comp_def, Nat.add_sub_cancel_left] using htiles₃
  · rw [hcost₁, hcost₂, hcost₃]
    ext table <;> simp [ScanCost.taken, ScanCost.stringTaken, ScanCost.table]
    · omega
    · omega
    · cases table <;> simp

end MetadataSource

end UnityCommon.Metadata
