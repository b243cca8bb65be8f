import UnityCommon.SerializedFile.ContextQuery
import UnityCommon.SerializedFile.TypeAgreement
import UnityCommon.TypeTree.Coverage

/-!
# The two loaders of a tree

A tree is loaded as a stream of records when a file is opened, and by offset
when its schema is compiled. Both hold the same nodes, under the same names.
-/

namespace UnityCommon.Metadata

open TypeTree ByteStream

/-! ## Nodes -/

/-- The record of a schema node, before its names are bound. -/
def SchemaNode.wireNode (node : SchemaNode) : TypeTreeNode where
  version := node.version
  level := node.level
  typeFlags := node.typeFlags
  typeStrOffset := node.typeOffsetBits
  nameStrOffset := node.nameOffsetBits
  byteSize := node.byteSizeBits.toInt32
  index := node.indexBits
  metaFlags := node.metaFlags
  refTypeHash := loadLe64 node.opaqueTail
  typeStr := none
  nameStr := none

/-- A schema node as the other loader keeps it. -/
def SchemaNode.treeNode (node : SchemaNode) : TypeTreeNode :=
  { node.wireNode with
    typeStr := some (cstringAt node.typeName.bytes)
    nameStr := some (cstringAt node.fieldName.bytes) }

/-- A schema as the tree of a record. -/
def SerializedFileSchema.treeType (schema : SerializedFileSchema) (mapped : Text)
    (type : TypeTreeType) : TypeTreeType :=
  { type with
    nodes := schema.nodes.map SchemaNode.treeNode
    stringBuffer := schema.view.tree.stringsSource.bytes mapped }

theorem cstringAt_bytes (text : CString) : cstringAt text.bytes = text := by
  refine CString.ext_bytes (List.takeWhile_eq_self_iff.mpr fun byte hbyte => ?_)
  rw [bne_iff_ne]
  rintro rfl
  exact text.noNul hbyte

theorem decodeNat_singleton (endianSelector byte : UInt8) :
    decodeNat endianSelector [byte] = byte.toNat := by
  unfold decodeNat
  split
  · simp [Bytes.ofBE, Bytes.ofLE]
  · simp [Bytes.ofLE]

namespace MetadataSource

variable {source : MetadataSource} {at_ : ℕ} {s' : ByteStream}

/-- A byte of the metadata. -/
theorem decode_byte (h : source.Holds at_ 1) :
    (source.decode ⟨at_, 1⟩).toUInt8 = ((PrefixSpan.mk at_ 1).bytes source.bytes).headD 0 := by
  obtain ⟨hlength, -⟩ := spells_bytes h
  obtain ⟨byte, hbyte⟩ := List.length_eq_one_iff.mp hlength
  rw [decode, hbyte, decodeNat_singleton]
  simp

theorem readRefTypeHash_stream_iff {hash : UInt64} (h : source.Holds at_ 0) :
    readRefTypeHash 22 (source.stream at_) = some (hash, s') ↔
      source.Holds at_ 8 ∧ hash = loadLe64 ((PrefixSpan.mk at_ 8).bytes source.bytes) ∧
        s' = source.stream (at_ + 8) := by
  unfold readRefTypeHash
  rw [if_pos (by decide)]
  simp only [Option.map_eq_some_iff, Prod.exists, Prod.mk.injEq, readBytes_eq_some]
  constructor
  · rintro ⟨raw, t, ⟨hwidth, hconsumes⟩, rfl, rfl⟩
    obtain ⟨hspells, rfl⟩ := (consumes_stream_iff h).mp hconsumes
    have hholds := hspells.holds
    rw [hwidth] at hholds ⊢
    exact ⟨hholds, by rw [hspells.bytes hwidth], rfl⟩
  · rintro ⟨hholds, rfl, rfl⟩
    obtain ⟨hlength, hspells⟩ := spells_bytes hholds
    refine ⟨_, _, ⟨hlength, (consumes_stream_iff h).mpr ⟨hspells, rfl⟩⟩, rfl, ?_⟩
    rw [hlength]

theorem readInt32_stream_iff {value : Int32} (h : source.Holds at_ 0) :
    (source.stream at_).readInt32 = some (value, s') ↔
      source.Holds at_ 4 ∧ value = (source.decode ⟨at_, 4⟩).toUInt32.toInt32 ∧
        s' = source.stream (at_ + 4) := by
  simp only [readInt32, Option.map_eq_some_iff, Prod.exists, Prod.mk.injEq,
    readUInt32_stream_iff h]
  constructor
  · rintro ⟨_, _, ⟨hholds, rfl, rfl⟩, rfl, rfl⟩
    exact ⟨hholds, rfl, rfl⟩
  · rintro ⟨hholds, rfl, rfl⟩
    exact ⟨_, _, ⟨hholds, rfl, rfl⟩, rfl, rfl⟩

/-- The nine fields of a record. -/
theorem holds_record : source.Holds at_ 32 ↔
    source.Holds at_ 2 ∧ source.Holds (at_ + 2) 1 ∧ source.Holds (at_ + 2 + 1) 1 ∧
      source.Holds (at_ + 2 + 1 + 1) 4 ∧ source.Holds (at_ + 2 + 1 + 1 + 4) 4 ∧
        source.Holds (at_ + 2 + 1 + 1 + 4 + 4) 4 ∧ source.Holds (at_ + 2 + 1 + 1 + 4 + 4 + 4) 4 ∧
          source.Holds (at_ + 2 + 1 + 1 + 4 + 4 + 4 + 4) 4 ∧
            source.Holds (at_ + 2 + 1 + 1 + 4 + 4 + 4 + 4 + 4) 8 := by
  unfold Holds
  omega

/-- **A record is one node**, whether it is read or decoded by its offset. -/
theorem readTreeNode_stream_iff {nodesSource : PrefixSpan} {ordinal : ℕ} {node : TypeTreeNode}
    (hat : nodesSource.offset + ordinal * nodeBytes = at_) (h : source.Holds at_ 0) :
    readTreeNode 22 (source.stream at_) = some (node, s') ↔
      source.Holds at_ 32 ∧
        node = (decodeSchemaNode source.bytes source.endianSelector nodesSource
          ordinal).wireNode ∧ s' = source.stream (at_ + 32) := by
  subst hat
  rw [holds_record]
  unfold readTreeNode
  simp only [Option.bind_eq_bind, Option.bind_eq_some_iff, Prod.exists, Option.some.injEq,
    Prod.mk.injEq]
  constructor
  · rintro ⟨_, _, hversion, _, _, hlevel, _, _, hflags, _, _, htype, _, _, hname, _, _, hsize, _, _,
      hindex, _, _, hmeta, _, _, hhash, rfl, rfl⟩
    obtain ⟨h₁, rfl, rfl⟩ := (readUInt16_stream_iff h).mp hversion
    obtain ⟨h₂, rfl, rfl⟩ := (readUInt8_stream_iff h₁.stop).mp hlevel
    obtain ⟨h₃, rfl, rfl⟩ := (readUInt8_stream_iff h₂.stop).mp hflags
    obtain ⟨h₄, rfl, rfl⟩ := (readUInt32_stream_iff h₃.stop).mp htype
    obtain ⟨h₅, rfl, rfl⟩ := (readUInt32_stream_iff h₄.stop).mp hname
    obtain ⟨h₆, rfl, rfl⟩ := (readInt32_stream_iff h₅.stop).mp hsize
    obtain ⟨h₇, rfl, rfl⟩ := (readUInt32_stream_iff h₆.stop).mp hindex
    obtain ⟨h₈, rfl, rfl⟩ := (readUInt32_stream_iff h₇.stop).mp hmeta
    obtain ⟨h₉, rfl, rfl⟩ := (readRefTypeHash_stream_iff h₈.stop).mp hhash
    refine ⟨⟨h₁, h₂, h₃, h₄, h₅, h₆, h₇, h₈, h₉⟩, ?_, rfl⟩
    rw [decode_byte h₂, decode_byte h₃]
    rfl
  · rintro ⟨⟨h₁, h₂, h₃, h₄, h₅, h₆, h₇, h₈, h₉⟩, rfl, rfl⟩
    refine ⟨_, _, (readUInt16_stream_iff h).mpr ⟨h₁, rfl, rfl⟩,
      _, _, (readUInt8_stream_iff h₁.stop).mpr ⟨h₂, rfl, rfl⟩,
      _, _, (readUInt8_stream_iff h₂.stop).mpr ⟨h₃, rfl, rfl⟩,
      _, _, (readUInt32_stream_iff h₃.stop).mpr ⟨h₄, rfl, rfl⟩,
      _, _, (readUInt32_stream_iff h₄.stop).mpr ⟨h₅, rfl, rfl⟩,
      _, _, (readInt32_stream_iff h₅.stop).mpr ⟨h₆, rfl, rfl⟩,
      _, _, (readUInt32_stream_iff h₆.stop).mpr ⟨h₇, rfl, rfl⟩,
      _, _, (readUInt32_stream_iff h₇.stop).mpr ⟨h₈, rfl, rfl⟩,
      _, _, (readRefTypeHash_stream_iff h₈.stop).mpr ⟨h₉, rfl, rfl⟩, ?_, rfl⟩
    rw [decode_byte h₂, decode_byte h₃]
    rfl

end MetadataSource

/-- The level rule of the stream reader, from the level before on. -/
def LevelsFollow : Option UInt8 → List UInt8 → Prop
  | _, [] => True
  | previous, level :: rest => levelFollows previous level = true ∧ LevelsFollow (some level) rest

theorem levelsFollow_some {previous : UInt8} {levels : List UInt8}
    (h : ∀ i a b, (previous :: levels)[i]? = some a → (previous :: levels)[i + 1]? = some b →
      b.toNat ≤ a.toNat + 1) : LevelsFollow (some previous) levels := by
  induction levels generalizing previous with
  | nil => trivial
  | cons level rest ih =>
      refine ⟨?_, ih fun i a b ha hb => h (i + 1) a b ha hb⟩
      exact decide_eq_true (h 0 previous level rfl rfl)

/-- A preorder passes the rule, which alone would let a second root by. -/
theorem levelsFollow_of_valid {levels : List UInt8}
    (h : Preorder.Valid (levels.map UInt8.toNat)) : LevelsFollow none levels := by
  cases levels with
  | nil => trivial
  | cons root rest =>
      refine ⟨?_, levelsFollow_some fun i a b ha hb => ?_⟩
      · have hroot := h.root
        rw [List.map_cons, List.getElem?_cons_zero, Option.some.injEq] at hroot
        exact beq_iff_eq.mpr (UInt8.toNat_inj.mp hroot)
      · refine (h.step i a.toNat b.toNat ?_ ?_).2
        · rw [List.getElem?_map, ha, Option.map_some]
        · rw [List.getElem?_map, hb, Option.map_some]

section Trees

variable {σ : Type} {mapped : Text} {parent : SchemaParent} {ordinal : ℕ} {view : SchemaView}

/-- The bytes that a schema is compiled from, as metadata. -/
def SchemaView.source (view : SchemaView) (mapped : Text) : MetadataSource :=
  ⟨mapped, mapped.length, view.prefixView.header.endianSelector⟩

theorem readTreeNodesFrom_stream_iff {nodes : List TypeTreeNode} {s' : ByteStream} :
    ∀ {count at_ start : ℕ} {previous : Option UInt8},
      view.tree.nodesSource.offset + start * nodeBytes = at_ →
      (view.source mapped).Holds at_ 0 →
      (readTreeNodesFrom 22 count previous ((view.source mapped).stream at_) = some (nodes, s') ↔
        (view.source mapped).Holds at_ (count * 32) ∧
          LevelsFollow previous ((List.range' start count).map fun i =>
            (view.record mapped i).level) ∧
          nodes = (List.range' start count).map (fun i => (view.record mapped i).wireNode) ∧
          s' = (view.source mapped).stream (at_ + count * 32)) := by
  intro count
  induction count generalizing nodes with
  | zero =>
      intro at_ start previous hat h
      simp only [readTreeNodesFrom, Option.some.injEq, Prod.mk.injEq, Nat.zero_mul, Nat.add_zero,
        List.range'_zero, List.map_nil]
      constructor
      · rintro ⟨rfl, rfl⟩
        exact ⟨h, trivial, rfl, rfl⟩
      · rintro ⟨-, -, rfl, rfl⟩
        exact ⟨rfl, rfl⟩
  | succ count ih =>
      intro at_ start previous hat h
      have hnext : view.tree.nodesSource.offset + (start + 1) * nodeBytes = at_ + 32 := by
        rw [← hat, Nat.succ_mul, Nat.add_assoc]
        rfl
      have hwidth : (count + 1) * 32 = 32 + count * 32 := by omega
      rw [hwidth, MetadataSource.holds_add, ← Nat.add_assoc, List.range'_succ, List.map_cons,
        List.map_cons]
      simp only [readTreeNodesFrom, Option.bind_eq_bind, Option.bind_eq_some_iff, Prod.exists,
        Option.guard_eq_some', Option.some.injEq, Prod.mk.injEq]
      constructor
      · rintro ⟨_, _, hnode, _, hlevel, rest, _, hrest, rfl, rfl⟩
        obtain ⟨hholds, rfl, rfl⟩ := (MetadataSource.readTreeNode_stream_iff hat h).mp hnode
        obtain ⟨hmore, hfollow, rfl, rfl⟩ := (ih hnext hholds.stop).mp hrest
        exact ⟨⟨hholds, hmore⟩, ⟨hlevel, hfollow⟩, rfl, rfl⟩
      · rintro ⟨⟨hholds, hmore⟩, ⟨hlevel, hfollow⟩, rfl, rfl⟩
        exact ⟨_, _, (MetadataSource.readTreeNode_stream_iff hat h).mpr ⟨hholds, rfl, rfl⟩, (),
          hlevel, _, _, (ih hnext hholds.stop).mpr ⟨hmore, hfollow, rfl, rfl⟩, rfl, rfl⟩

theorem source_holds (hbacked : treeIsBacked parent.stop view.tree)
    (hmapped : parent.stop ≤ mapped.length) :
    (view.source mapped).Holds view.tree.nodesSource.offset
      (view.tree.nodeCount.toNat * 32 + view.tree.stringByteCount.toNat) := by
  obtain ⟨-, hnodes, hstrings, ⟨hstart, hspan⟩, ⟨hstart', hspan'⟩, -, hbehind⟩ := hbacked
  simp only [nodeBytes] at hnodes hbehind
  unfold MetadataSource.Holds
  show _ ≤ mapped.length ∧ _ ≤ mapped.length
  omega

/-- The tree is read from its place in the file. -/
theorem materializeTree_eq_ok {type type' : TypeTreeType} {answers : ℕ → Bool} {t t' : σ}
    {n n' : ℕ} (hbacked : treeIsBacked parent.stop view.tree)
    (hmapped : parent.stop ≤ mapped.length) :
    materializeTreePayload mapped type view.tree (view.prefixView.header.endianSelector != 0)
        answers t n = .ok type' t' n' ↔
      readTreePayload type ((view.source mapped).stream view.tree.nodesSource.offset) 22
          view.tree.nodeCount view.tree.stringByteCount answers t n =
        .ok (type', (view.source mapped).stream (view.tree.nodesSource.offset +
          (view.tree.nodeCount.toNat * 32 + view.tree.stringByteCount.toNat))) t' n' := by
  have hholds := source_holds hbacked hmapped
  obtain ⟨-, hnodes, hstrings, -⟩ := hbacked
  obtain ⟨hlength, hspells⟩ := MetadataSource.spells_bytes hholds
  have hstart : (view.source mapped).Holds view.tree.nodesSource.offset 0 :=
    (MetadataSource.holds_add.mp (show (view.source mapped).Holds _ (0 + _) by
      rwa [Nat.zero_add])).1
  have hsize : view.tree.nodesSource.size + view.tree.stringsSource.size ≤ sizeMax := by
    have hcount := view.tree.nodeCount.toNat_lt
    have hbytes := view.tree.stringByteCount.toNat_lt
    rw [← hnodes, ← hstrings]
    unfold nodeBytes sizeMax
    omega
  rw [MetadataSource.materializeTreePayload_eq_ok, and_iff_right hsize, ← hnodes, ← hstrings,
    (localCall_treePayload type 22 _ _).cut_iff]
  constructor
  · rintro ⟨s₁, hread, hend⟩
    refine ⟨_, (MetadataSource.consumes_stream_iff hstart).mpr ⟨hspells, ?_⟩, s₁, hread, hend⟩
    rw [hlength]
  · rintro ⟨bytes, hconsumes, s₁, hread, hend⟩
    obtain ⟨hspelled, hstop⟩ := (MetadataSource.consumes_stream_iff hstart).mp hconsumes
    have hwidth : bytes.length =
        view.tree.nodeCount.toNat * 32 + view.tree.stringByteCount.toNat :=
      (Nat.add_left_cancel (congrArg ByteStream.position hstop)).symm
    have hbytes := hspelled.bytes hwidth
    refine ⟨s₁, ?_, hend⟩
    show readTreePayload type ⟨(PrefixSpan.mk view.tree.nodesSource.offset
      (view.tree.nodeCount.toNat * 32 + view.tree.stringByteCount.toNat)).bytes
        (view.source mapped).bytes, 0, _⟩ 22 _ _ answers t n = _
    rw [hbytes]
    exact hread

theorem bindNodeStrings_eq_some {type type' : TypeTreeType} :
    typetreeBindNodeStrings type = some type' ↔
      type.nodes ≠ [] ∧ (∀ node ∈ type.nodes, nodeResolves type.stringBuffer node = true) ∧
        type' = { type with nodes := type.nodes.map (bindNode type.stringBuffer) } := by
  unfold typetreeBindNodeStrings
  by_cases hbad : type.nodes = [] ∨ ¬ type.nodes.all (nodeResolves type.stringBuffer)
  · rw [if_pos hbad]
    refine ⟨nofun, fun ⟨hne, hall, _⟩ => ?_⟩
    exact absurd (List.all_eq_true.mpr hall) (hbad.resolve_left hne)
  · rw [if_neg hbad, Option.some.injEq]
    obtain ⟨hne, hall⟩ := not_or.mp hbad
    rw [not_not, List.all_eq_true] at hall
    exact ⟨fun h => ⟨hne, hall, h.symm⟩, fun h => h.2.2.symm⟩

/-- The nodes of a view as records, in order. -/
def SchemaView.wireNodes (view : SchemaView) (mapped : Text) : List TypeTreeNode :=
  (List.range view.tree.nodeCount.toNat).map fun i => (view.record mapped i).wireNode

/-- What a record's tree becomes when its payload is read. -/
def SchemaView.boundType (view : SchemaView) (mapped : Text) (type : TypeTreeType) : TypeTreeType :=
  { type with
    nodes := (view.wireNodes mapped).map (bindNode (view.localStrings mapped))
    stringBuffer := view.localStrings mapped }

theorem wireNodes_resolve (hcount : view.nodeCount = view.tree.nodeCount.toNat) :
    (∀ node ∈ view.wireNodes mapped, nodeResolves (view.localStrings mapped) node = true) ↔
      view.NamesResolve mapped := by
  rw [namesResolve_iff, hcount, SchemaView.wireNodes, List.forall_mem_map]
  simp only [List.mem_range, nodeResolves, Bool.and_eq_true, SchemaView.typeString,
    SchemaView.fieldString, Option.isSome_map, SchemaNode.wireNode]

/-- **What the stream loader accepts**: as many records as the format allows, on
levels that follow each other, under names that the tables have. -/
theorem materializeTree_iff {type type' : TypeTreeType} {t t' : σ} {n n' : ℕ}
    (hcount : view.nodeCount = view.tree.nodeCount.toNat)
    (hbacked : treeIsBacked parent.stop view.tree) (hmapped : parent.stop ≤ mapped.length) :
    materializeTreePayload mapped type view.tree (view.prefixView.header.endianSelector != 0)
        Call.granted t n = .ok type' t' n' ↔
      view.nodeCount ≤ countMax ∧
        LevelsFollow none ((List.range view.nodeCount).map fun i =>
          (view.record mapped i).level) ∧
        view.NamesResolve mapped ∧ type' = view.boundType mapped type ∧ t = t' ∧
        n + 1 + (if view.tree.stringByteCount.toNat = 0 then 0 else 1) = n' := by
  have hholds := source_holds hbacked hmapped
  have hne : view.tree.nodeCount ≠ 0 := hbacked.1
  obtain ⟨hrecords, hstrings⟩ := MetadataSource.holds_add.mp hholds
  obtain ⟨hlength, hspells⟩ := MetadataSource.spells_bytes hstrings
  have hstart : (view.source mapped).Holds view.tree.nodesSource.offset 0 :=
    (MetadataSource.holds_add.mp (show (view.source mapped).Holds _ (0 + _) by
      rwa [Nat.zero_add])).1
  have hbuffer : (PrefixSpan.mk (view.tree.nodesSource.offset + view.tree.nodeCount.toNat * 32)
      view.tree.stringByteCount.toNat).bytes (view.source mapped).bytes =
        view.localStrings mapped := by
    obtain ⟨-, -, hsize, -, -, -, hbehind⟩ := hbacked
    simp only [nodeBytes] at hbehind
    rw [SchemaView.localStrings, hsize, ← hbehind]
    rfl
  rw [hbuffer] at hlength hspells
  have hat : view.tree.nodesSource.offset + 0 * nodeBytes = view.tree.nodesSource.offset := by
    rw [Nat.zero_mul, Nat.add_zero]
  rw [materializeTree_eq_ok hbacked hmapped, hcount, List.range_eq_range']
  constructor
  · intro hpayload
    obtain ⟨⟨nodes, s₁⟩, t₁, n₁, hnodes, hrest⟩ := Call.bind_eq_ok.mp hpayload
    obtain ⟨⟨-, hmax, -, rfl, rfl⟩, hread⟩ := readTreeNodes_eq_ok.mp hnodes
    obtain ⟨-, hfollow, rfl, rfl⟩ := (readTreeNodesFrom_stream_iff hat hstart).mp hread
    obtain ⟨⟨buffer, s₂⟩, t₂, n₂, hstored, hbind⟩ := Call.bind_eq_ok.mp hrest
    obtain ⟨⟨rfl, rfl, -⟩, hbytes⟩ := readStringBuffer_eq_ok.mp hstored
    obtain ⟨hwidth, hconsumes⟩ := readBytes_eq_some.mp hbytes
    obtain ⟨hspelled, rfl⟩ := (MetadataSource.consumes_stream_iff hrecords.stop).mp hconsumes
    obtain rfl : buffer = view.localStrings mapped := (hspelled.bytes hwidth).symm.trans hbuffer
    obtain ⟨bound, hbound, hpure⟩ := ofOption_bind_eq_ok.mp hbind
    obtain ⟨heq, rfl, rfl⟩ := Call.pure_eq_ok.mp hpure
    obtain ⟨rfl, -⟩ := Prod.mk.inj heq
    obtain ⟨-, hresolve, rfl⟩ := bindNodeStrings_eq_some.mp hbound
    rw [← List.range_eq_range'] at hfollow hresolve ⊢
    exact ⟨hmax, hfollow, (wireNodes_resolve hcount).mp hresolve, rfl, rfl, rfl⟩
  · rintro ⟨hmax, hfollow, hnames, rfl, rfl, rfl⟩
    have hread := (readTreeNodesFrom_stream_iff hat hstart).mpr ⟨hrecords, hfollow, rfl, rfl⟩
    have hbytes := readBytes_eq_some.mpr ⟨hlength,
      (MetadataSource.consumes_stream_iff hrecords.stop).mpr ⟨hspells, rfl⟩⟩
    have hresolve := (wireNodes_resolve hcount).mpr hnames
    have hnonempty : view.wireNodes mapped ≠ [] := by
      rw [SchemaView.wireNodes, Ne, List.map_eq_nil_iff, List.range_eq_nil]
      exact fun hzero => hne (UInt32.toNat_inj.mp hzero)
    refine Call.bind_eq_ok.mpr ⟨(_, _), t, n + 1,
      readTreeNodes_eq_ok.mpr ⟨⟨hne, hmax, rfl, rfl, rfl⟩, hread⟩, ?_⟩
    refine Call.bind_eq_ok.mpr ⟨(_, _), t, _,
      readStringBuffer_eq_ok.mpr ⟨⟨rfl, rfl, fun _ => rfl⟩, hbytes⟩, ?_⟩
    rw [← List.range_eq_range']
    refine ofOption_bind_eq_ok.mpr ⟨view.boundType mapped type,
      bindNodeStrings_eq_some.mpr ⟨hnonempty, hresolve, rfl⟩, ?_⟩
    refine Call.pure_eq_ok.mpr ⟨?_, rfl, rfl⟩
    rw [hlength, Nat.add_assoc]

/-! ## Schemas -/

theorem length_schema_nodes (retainedBytes : ℕ) :
    (view.schema mapped retainedBytes).nodes.length = view.nodeCount := by
  have h := congrArg List.length (close_unlinked (view.record mapped) view.nodeCount)
  simp only [List.length_map, List.length_range] at h
  rw [SchemaView.schema, List.length_map]
  exact h

/-- A schema's node is the record, under the names its offsets find. -/
theorem schema_treeNode (retainedBytes : ℕ) {i : ℕ} (hi : i < view.nodeCount)
    (hnames : view.NamesResolve mapped) :
    ∃ node, (view.schema mapped retainedBytes).nodes[i]? = some node ∧
      node.treeNode = bindNode (view.localStrings mapped) (view.record mapped i).wireNode := by
  obtain ⟨node, hnode, htype, hfield⟩ := schema_node_names retainedBytes hi hnames
  refine ⟨node, hnode, ?_⟩
  obtain ⟨typeName, htypeName, htypeBytes⟩ := Option.map_eq_some_iff.mp htype
  obtain ⟨fieldName, hfieldName, hfieldBytes⟩ := Option.map_eq_some_iff.mp hfield
  obtain ⟨bare, hbare, hrecord⟩ := table_node view mapped hi
  rw [SchemaView.schema, List.getElem?_map, hbare, Option.map_some, Option.some.injEq] at hnode
  have hwire : node.wireNode = (view.record mapped i).wireNode := by
    rw [← hnode]
    exact (congrArg SchemaNode.wireNode hrecord :)
  rw [SchemaNode.treeNode, ← htypeBytes, ← hfieldBytes, cstringAt_bytes, cstringAt_bytes, hwire,
    bindNode, ← htypeName, ← hfieldName]
  rfl

theorem schema_treeType (retainedBytes : ℕ) (type : TypeTreeType)
    (hcount : view.nodeCount = view.tree.nodeCount.toNat) (hnames : view.NamesResolve mapped) :
    (view.schema mapped retainedBytes).treeType mapped type = view.boundType mapped type := by
  have hnodes : (view.schema mapped retainedBytes).nodes.map SchemaNode.treeNode =
      (view.wireNodes mapped).map (bindNode (view.localStrings mapped)) := by
    refine List.ext_getElem? fun i => ?_
    by_cases hi : i < view.nodeCount
    · obtain ⟨node, hnode, htree⟩ := schema_treeNode retainedBytes hi hnames
      rw [List.getElem?_map, hnode, Option.map_some, htree, SchemaView.wireNodes, List.getElem?_map,
        List.getElem?_map, ← hcount, List.getElem?_range hi]
      rfl
    · rw [List.getElem?_eq_none, List.getElem?_eq_none]
      · rw [List.length_map, SchemaView.wireNodes, List.length_map, List.length_range, ← hcount]
        omega
      · rw [List.length_map, length_schema_nodes]
        omega
  rw [SerializedFileSchema.treeType, hnodes]
  rfl

/-- The level rule of the schema compiler, for the levels as they are stored. -/
theorem recordLevels_eq (view : SchemaView) (mapped : Text) (count : ℕ) :
    recordLevels (view.record mapped) count =
      ((List.range count).map fun i => (view.record mapped i).level).map UInt8.toNat := by
  rw [recordLevels, List.map_map]
  rfl

theorem boundType_levels (type : TypeTreeType)
    (hcount : view.nodeCount = view.tree.nodeCount.toNat) :
    levels (view.boundType mapped type) = recordLevels (view.record mapped) view.nodeCount := by
  simp only [levels, SchemaView.boundType, SchemaView.wireNodes, List.map_map, recordLevels, hcount]
  rfl

/-- Ample limits admit a tree on a preorder of levels, under names that resolve. -/
theorem SchemaLimits.Ample.admitted {limits : SchemaLimits} (h : limits.Ample view mapped)
    (hview : parent.schemaView ordinal = some view) (hknown : parent.stop ≤ sizeMax)
    (hbacked : treeIsBacked parent.stop view.tree)
    (hlevels : Preorder.Valid (recordLevels (view.record mapped) view.nodeCount))
    (hnames : view.NamesResolve mapped) :
    view.Admitted mapped limits parent.stop (840 + view.nodeCount * 168)
      (64 * view.nodeCount) := by
  have hnodeCount := nodeCount_of_view hview
  have hcount : 0 < view.nodeCount := by
    rw [hnodeCount]
    exact Nat.pos_of_ne_zero fun hzero => hbacked.1 (UInt32.toNat_inj.mp hzero)
  have hlt : view.nodeCount < 2 ^ 32 := by
    rw [hnodeCount]
    exact view.tree.nodeCount.toNat_lt
  exact
    { known := hknown
      nodes := hnodeCount ▸ h.nodes
      strings := h.strings
      backed := hbacked
      layout := schemaLayout_eq hlt
      retained := h.retained
      scratchLayout := scratchLayout_eq hlt
      scratch := h.scratch
      levels := (levelsFit_of_ample hcount h.depth).mpr hlevels
      names := hnames }

/-- With ample limits and storage granted, what is admitted compiles. -/
theorem schemaCreate_ample {limits : SchemaLimits} (hample : limits.Ample view mapped)
    (hview : parent.schemaView ordinal = some view) (hknown : parent.stop ≤ sizeMax)
    (hbacked : treeIsBacked parent.stop view.tree)
    (hlevels : Preorder.Valid (recordLevels (view.record mapped) view.nodeCount))
    (hnames : view.NamesResolve mapped) {answers : ℕ → Bool} {n : ℕ} (hstorage : answers n = true)
    (hscratch : answers (n + 1) = true) (s : σ) :
    serializedFileSchemaCreate mapped parent ordinal limits answers s n =
      .ok (view.schema mapped (840 + view.nodeCount * 168),
        view.result mapped ordinal (840 + view.nodeCount * 168) (64 * view.nodeCount)) s
        (n + 2) := by
  have hadm := hample.admitted hview hknown hbacked hlevels hnames
  rcases schemaCreate_admitted hview hadm answers s n with
    ⟨-, hok⟩ | ⟨e, compile, made, k, -, -, -, hshort⟩
  · exact hok
  · cases k with
    | work => exact absurd hample.work (Nat.not_le.mpr hshort)
    | storage => exact absurd (hstorage.symm.trans hshort) Bool.noConfusion
    | scratch => exact absurd (hscratch.symm.trans hshort) Bool.noConfusion

/-- **The two loaders of a tree agree.** With ample limits and storage granted, a
tree that a file loads and validates is one whose schema compiles, and the
schema holds it node for node: the same fields, the same names, and the links
that the levels denote. Only the number of nodes is bounded for one of them. -/
theorem treeLoaders_agree (mapped : Text) (parent : SchemaParent) (ordinal : ℕ)
    (limits : SchemaLimits) (answers : ℕ → Bool) (s : σ) (n : ℕ) (type type' : TypeTreeType)
    (hview : parent.schemaView ordinal = some view) (hknown : parent.stop ≤ sizeMax)
    (hmapped : parent.stop ≤ mapped.length) (hbacked : treeIsBacked parent.stop view.tree)
    (hample : limits.Ample view mapped) (hstorage : answers n = true)
    (hscratch : answers (n + 1) = true) :
    ((∃ t' n', materializeTreePayload mapped type view.tree
          (view.prefixView.header.endianSelector != 0) Call.granted () 0 = .ok type' t' n') ∧
        typetreeValidateSchema type' = true) ↔
      view.nodeCount ≤ countMax ∧ typetreeValidateSchema type' = true ∧
        ∃ schema ran s' n', serializedFileSchemaCreate mapped parent ordinal limits answers s n =
            .ok (schema, ran) s' n' ∧
          type' = schema.treeType mapped type ∧ schema.Tree (levels type') := by
  have hcount := nodeCount_of_view hview
  constructor
  · rintro ⟨⟨t', n', hload⟩, hvalid⟩
    obtain ⟨hmax, -, hnames, rfl, -, -⟩ := (materializeTree_iff hcount hbacked hmapped).mp hload
    have hlevels := levels_valid hvalid
    rw [boundType_levels type hcount] at hlevels
    refine ⟨hmax, hvalid, _, _, _, _, schemaCreate_ample hample hview hknown hbacked hlevels hnames
      hstorage hscratch s, (schema_treeType _ type hcount hnames).symm, ?_⟩
    rw [boundType_levels type hcount]
    exact schema_tree hview (hample.admitted hview hknown hbacked hlevels hnames)
  · rintro ⟨hmax, hvalid, schema, ran, s', n', hcreate, rfl, -⟩
    obtain ⟨view', retainedBytes, _, hview', hadm, -, rfl, -⟩ := schemaCreate_ok hcreate
    obtain rfl : view = view' := Option.some_inj.mp (hview.symm.trans hview')
    have hlevels := (schema_tree hview hadm).valid
    rw [recordLevels_eq] at hlevels
    exact ⟨⟨(), _, (materializeTree_iff hcount hbacked hmapped).mpr ⟨hmax,
      levelsFollow_of_valid hlevels, hadm.names, schema_treeType _ type hcount hadm.names, rfl,
        rfl⟩⟩, hvalid⟩

end Trees

/-- A record of a little-endian tree whose name is in the common table. -/
def sampleScalarNode (level : UInt8) (typeOffset nameOffset : ℕ) : Text :=
  [1, 0, level, 0] ++ Bytes.toLE 4 typeOffset ++ Bytes.toLE 4 nameOffset ++ Bytes.toLE 4 4 ++
    List.replicate 16 0

/-- A structure of one number, whose type and name are the file's own. -/
def sampleScalarSource : Text :=
  sampleScalarNode 0 0x80000000 0x80000000 ++ sampleScalarNode 1 0 0 ++ ascii "int\x00\x00"

def sampleUnloaded : TypeTreeType where
  typeId := 49
  isStripped := false
  scriptTypeIndex := 0xffff
  scriptIdHash := .zero
  typeHash := .zero
  nodes := []
  stringBuffer := []
  dependencies := []
  isRefType := false
  refClassName := none
  refNamespace := none
  refAsmName := none

def sampleLoaded : Option TypeTreeType :=
  match materializeTreePayload (σ := Unit) sampleScalarSource sampleUnloaded sampleTree false
      Call.granted () 0 with
  | .ok type _ _ => some type
  | .error _ _ _ => none

/-- The loaded sample: valid, with its names found. -/
def sampleLoadedNames : Bool :=
  sampleLoaded.any fun type =>
    typetreeValidateSchema type &&
      type.nodes.map (·.typeStr) == [some (cstr "AABB"), some (cstr "int")]

theorem treeLoaders_agree_sample :
    ∃ schema ran s' n', serializedFileSchemaCreateOrdinary (σ := Unit) sampleScalarSource
        sampleTreeDirectory 0 sampleLimits Call.granted () 0 = .ok (schema, ran) s' n' ∧
      (schema.treeType sampleScalarSource sampleUnloaded).nodes.map (·.typeStr) =
        [some (cstr "AABB"), some (cstr "int")] := by
  have hloaded : sampleLoadedNames = true := by decide +kernel
  unfold sampleLoadedNames sampleLoaded at hloaded
  split at hloaded
  case h_1 type u n' hload =>
    simp only [Option.any_some, Bool.and_eq_true, beq_iff_eq] at hloaded
    have hview : (SchemaParent.directory sampleTreeDirectory).schemaView 0 = some sampleTreeView :=
      rfl
    obtain ⟨-, -, schema, ran, s', n', hcreate, rfl, -⟩ :=
      (treeLoaders_agree sampleScalarSource (.directory sampleTreeDirectory) 0 sampleLimits
        Call.granted () 0 sampleUnloaded type hview (by decide) (by decide) (by decide)
        ⟨by decide, by decide, by decide, by decide, by decide, by decide +kernel⟩ rfl rfl).mp
        ⟨⟨_, _, hload⟩, hloaded.1⟩
    exact ⟨schema, ran, s', n', hcreate, hloaded.2⟩
  case h_2 => cases hloaded

end UnityCommon.Metadata
