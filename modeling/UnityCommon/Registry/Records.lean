import Mathlib.Tactic.IntervalCases
import UnityCommon.Registry.Deserialize

/-!
# Records are read as they are written

A record is accepted exactly when it is the encoding of a valid entry beyond the
last one. Soundness (nothing else is accepted) and completeness (every such
encoding is) follow the fields of the record.
-/

namespace UnityCommon.Registry

open UnityCommon.TypeTree

/-! ## Words -/

theorem exact_schemaReaderU8 : Codec.Exact schemaReaderU8 (fun v => [v]) fun _ => True := by
  apply Codec.exact_loaded
  · intro v
    rfl
  · intro v
    rfl
  · intro bytes h
    match bytes, h with
    | [b], _ => rfl

theorem exact_schemaReaderU16 : Codec.Exact schemaReaderU16 storeLe16 fun _ => True :=
  Codec.exact_loaded _ loadLe16_store length_storeLe16 fun _ => storeLe16_load

theorem exact_schemaReaderU32 : Codec.Exact schemaReaderU32 storeLe32 fun _ => True :=
  Codec.exact_loaded _ loadLe32_store length_storeLe32 fun _ => storeLe32_load

theorem exact_schemaReaderU64 : Codec.Exact schemaReaderU64 storeLe64 fun _ => True :=
  Codec.exact_loaded _ loadLe64_store length_storeLe64 fun _ => storeLe64_load

theorem exact_schemaReaderBytes16 :
    Codec.Exact schemaReaderBytes16 Bytes16.bytes fun _ => True := by
  apply Codec.exact_loaded
  · intro hash
    rw [loadBytes16, dif_pos hash.length_eq]
  · intro hash
    exact hash.length_eq
  · intro bytes h
    rw [loadBytes16, dif_pos h]

theorem exact_schemaReaderView (size : ℕ) :
    Codec.Exact (schemaReaderView size) id fun bytes => bytes.length = size :=
  Codec.exact_view size _

theorem exact_readDependency :
    Codec.Exact readDependency (fun d => storeLe32 d.toUInt32) fun _ => True := by
  intro answers s n d s' n'
  rw [readDependency, exact_schemaReaderU32.bind_eq_ok]
  constructor
  · rintro ⟨word, rest, -, rfl, h⟩
    obtain ⟨rfl, rfl, rfl⟩ := Call.pure_eq_ok.mp h
    exact ⟨trivial, by simp, rfl⟩
  · rintro ⟨-, rfl, rfl⟩
    exact ⟨d.toUInt32, s', trivial, rfl, Call.pure_eq_ok.mpr ⟨by simp, rfl, rfl⟩⟩

/-- A node as it is before its names are bound. -/
def unboundNode (node : TypeTreeNode) : TypeTreeNode :=
  { node with typeStr := none, nameStr := none }

theorem exact_readNode :
    Codec.Exact readNode encodeNode fun node => unboundNode node = node := by
  intro answers s n node s' n'
  simp only [readNode, exact_schemaReaderU8.bind_eq_ok, exact_schemaReaderU16.bind_eq_ok,
    exact_schemaReaderU32.bind_eq_ok, exact_schemaReaderU64.bind_eq_ok, true_and]
  constructor
  · rintro ⟨_, _, rfl, _, _, rfl, _, _, rfl, _, _, rfl, _, _, rfl, _, _, rfl, _, _, rfl, _, _,
      rfl, _, _, rfl, h⟩
    obtain ⟨rfl, rfl, rfl⟩ := Call.pure_eq_ok.mp h
    refine ⟨rfl, ?_, rfl⟩
    simp only [encodeNode, UInt32.toUInt32_toInt32, List.append_assoc]
  · rintro ⟨hgood, rfl, rfl⟩
    simp only [encodeNode, List.append_assoc]
    refine ⟨_, _, rfl, _, _, rfl, _, _, rfl, _, _, rfl, _, _, rfl, _, _, rfl, _, _, rfl, _, _,
      rfl, _, _, rfl, ?_⟩
    apply Call.pure_eq_ok.mpr
    refine ⟨?_, rfl, rfl⟩
    simp only [Int32.toInt32_toUInt32]
    exact hgood

/-! ## Flags -/

/-- A word with no bit outside a mask of the low `k` bits is one of the first
`2 ^ k`. -/
theorem lt_of_and_mask {x k : ℕ} (h : x = x &&& (2 ^ k - 1)) : x < 2 ^ k := by
  rw [Nat.and_two_pow_sub_one_eq_mod] at h
  rw [h]
  exact Nat.mod_lt _ (Nat.two_pow_pos k)

theorem eq_and_of_and_not {w : ℕ} {x m : BitVec w} (h : x &&& ~~~m = 0#w) : x = x &&& m := by
  apply BitVec.eq_of_getLsbD_eq
  intro i hi
  have hbit := congrArg (fun y : BitVec w => y.getLsbD i) h
  simp only [BitVec.getLsbD_and, BitVec.getLsbD_not, BitVec.getLsbD_zero, hi, decide_true,
    Bool.true_and] at hbit ⊢
  cases hx : x.getLsbD i <;> simp_all

theorem keyFlags_lt {flags : UInt16} (h : flags &&& ~~~7 = 0) : flags.toNat < 8 := by
  have hmask := eq_and_of_and_not (m := 7) (congrArg UInt16.toBitVec h)
  exact lt_of_and_mask (k := 3) (congrArg BitVec.toNat hmask)

theorem schemaFlags_lt {flags : UInt32} (h : flags &&& ~~~1 = 0) : flags.toNat < 2 := by
  have hmask := eq_and_of_and_not (m := 1) (congrArg UInt32.toBitVec h)
  exact lt_of_and_mask (k := 1) (congrArg BitVec.toNat hmask)

/-- The three known bits are all there is to an accepted key flag word. -/
theorem keyFlags_eq {flags : UInt16} (h : flags &&& ~~~7 = 0) :
    (if flags &&& 1 != 0 then 1 else 0) ||| (if flags &&& 2 != 0 then 2 else 0) |||
      (if flags &&& 4 != 0 then 4 else 0) = flags := by
  have hlt := keyFlags_lt h
  have hflags : flags = flags.toNat.toUInt16 := by simp
  rw [hflags]
  interval_cases flags.toNat <;> rfl

theorem schemaFlags_eq {flags : UInt32} (h : flags &&& ~~~1 = 0) :
    (if flags &&& 1 != 0 then 1 else 0) = flags := by
  have hlt := schemaFlags_lt h
  have hflags : flags = flags.toNat.toUInt32 := by simp
  rw [hflags]
  interval_cases flags.toNat <;> rfl

theorem keyFlags_known (key : TypeTreeSchemaKey) : keyFlags key &&& ~~~7 = 0 := by
  unfold keyFlags
  cases key.hasScriptIdHash <;> cases key.isRefType <;> cases key.isStripped <;> rfl

theorem keyFlags_bits (key : TypeTreeSchemaKey) :
    (keyFlags key &&& 1 != 0) = key.hasScriptIdHash ∧
      (keyFlags key &&& 2 != 0) = key.isRefType ∧
        (keyFlags key &&& 4 != 0) = key.isStripped := by
  unfold keyFlags
  cases key.hasScriptIdHash <;> cases key.isRefType <;> cases key.isStripped <;> decide

/-! ## Strings and lengths -/

theorem storeLength_eq {α : Type} {xs : List α} {size : UInt32} (h : xs.length = size.toNat) :
    storeLength xs = storeLe32 size := by
  rw [storeLength, h]
  simp

theorem toNat_length {α : Type} {xs : List α} {limit : ℕ} (h : xs.length ≤ limit)
    (hlimit : limit < 2 ^ 32) : xs.length.toUInt32.toNat = xs.length := by
  rw [Nat.toUInt32, UInt32.toNat_ofNat']
  exact Nat.mod_eq_of_lt (by omega)

section

variable {answers : ℕ → Bool} {s s' : Text} {n n' : ℕ} {γ : Type} {c : γ} {size : UInt32}
  {limit : ℕ}

theorem readOwnedString_bind {f : CString → Call TypeTreeSchemaStatus SchemaReader γ}
    (h : (readOwnedString size limit >>= f) answers s n = .ok c s' n') :
    ∃ text rest n₁, text.bytes.length = size.toNat ∧ s = text.bytes ++ rest ∧
      f text answers rest n₁ = .ok c s' n' := by
  obtain ⟨text, rest, n₁, hread, hf⟩ := Call.bind_eq_ok.mp h
  obtain ⟨-, hread⟩ := Call.require_bind_eq_ok.mp hread
  obtain ⟨-, hread⟩ := Call.request_bind_eq_ok.mp hread
  obtain ⟨bytes, rest', hlength, hs, hread⟩ := (exact_schemaReaderView _).bind_eq_ok.mp hread
  by_cases hnul : (0 : UInt8) ∉ bytes
  · rw [dif_pos hnul] at hread
    obtain ⟨rfl, rfl, -⟩ := Call.pure_eq_ok.mp hread
    exact ⟨⟨bytes, hnul⟩, _, n₁, hlength, hs, hf⟩
  · rw [dif_neg hnul] at hread
    exact (Call.fail_eq_ok.mp hread).elim

theorem yields_readOwnedString (text : CString) (hlength : text.bytes.length = size.toNat)
    (hlimit : size.toNat ≤ limit) (rest : Text) :
    Call.Yields .allocationFailed (readOwnedString size limit) (text.bytes ++ rest) text rest := by
  apply (Call.yields_require hlimit).bind
  apply Call.yields_request.bind
  apply ((exact_schemaReaderView size.toNat).yields hlength rest).bind
  rw [dif_pos text.noNul]
  exact Call.yields_pure text

/-! ## Keys -/

theorem readKey_sound {key : TypeTreeSchemaKey}
    (h : readKey answers s n = .ok key s' n') : s = encodeKey key ++ s' := by
  unfold readKey at h
  obtain ⟨_, _, -, hs₁, h⟩ := exact_schemaReaderU32.bind_eq_ok.mp h
  obtain ⟨_, _, -, hs₂, h⟩ := exact_schemaReaderU32.bind_eq_ok.mp h
  obtain ⟨-, h⟩ := Call.require_bind_eq_ok.mp h
  obtain ⟨-, h⟩ := Call.require_bind_eq_ok.mp h
  obtain ⟨_, _, _, hlength, hs₃, h⟩ := readOwnedString_bind h
  obtain ⟨_, _, -, hs₄, h⟩ := exact_schemaReaderU32.bind_eq_ok.mp h
  obtain ⟨_, _, -, hs₅, h⟩ := exact_schemaReaderU32.bind_eq_ok.mp h
  obtain ⟨_, _, -, hs₆, h⟩ := exact_schemaReaderU16.bind_eq_ok.mp h
  obtain ⟨_, _, -, hs₇, h⟩ := exact_schemaReaderU16.bind_eq_ok.mp h
  obtain ⟨hflags, h⟩ := Call.require_bind_eq_ok.mp h
  obtain ⟨_, _, -, hs₈, h⟩ := exact_schemaReaderBytes16.bind_eq_ok.mp h
  obtain ⟨_, _, -, hs₉, h⟩ := exact_schemaReaderBytes16.bind_eq_ok.mp h
  obtain ⟨rfl, rfl, -⟩ := Call.pure_eq_ok.mp h
  rw [hs₁, hs₂, hs₃, hs₄, hs₅, hs₆, hs₇, hs₈, hs₉]
  simp only [encodeKey, storeLength_eq hlength, keyFlags, keyFlags_eq hflags,
    UInt32.toUInt32_toInt32, List.append_assoc]

theorem yields_readKey {key : TypeTreeSchemaKey} (h : validateKey (some key) = .ok key)
    (rest : Text) :
    Call.Yields .allocationFailed readKey (encodeKey key ++ rest) key rest := by
  obtain ⟨-, hne, hle, hnul, -⟩ := validateKey_eq_ok_iff.mp h
  have hsize : key.unityVersion.length.toUInt32.toNat = key.unityVersion.length :=
    toNat_length hle (by decide)
  have hpos : key.unityVersion.length.toUInt32 ≠ 0 := by
    intro h0
    rw [h0] at hsize
    exact hne (List.length_eq_zero_iff.mp hsize.symm)
  have hlimit : key.unityVersion.length.toUInt32.toNat ≤ maxUnityVersionSize := by omega
  simp only [encodeKey, List.append_assoc]
  apply (exact_schemaReaderU32.yields trivial _).bind
  apply (exact_schemaReaderU32.yields trivial _).bind
  apply (Call.yields_require hpos).bind
  apply (Call.yields_require hlimit).bind
  apply (yields_readOwnedString ⟨key.unityVersion, hnul⟩ hsize.symm hlimit _).bind
  apply (exact_schemaReaderU32.yields trivial _).bind
  apply (exact_schemaReaderU32.yields trivial _).bind
  apply (exact_schemaReaderU16.yields trivial _).bind
  apply (exact_schemaReaderU16.yields trivial _).bind
  apply (Call.yields_require (keyFlags_known key)).bind
  apply (exact_schemaReaderBytes16.yields trivial _).bind
  apply (exact_schemaReaderBytes16.yields trivial _).bind
  obtain ⟨hscript, href, hstripped⟩ := keyFlags_bits key
  rw [hscript, href, hstripped, Int32.toInt32_toUInt32, Int32.toInt32_toUInt32]
  exact Call.yields_pure key

/-! ## Headers -/

/-- The fixed part of a record. -/
def encodeRecordHeader (header : RecordHeader) : Text :=
  encodeKey header.key ++ (storeLe32 (if header.isStripped then 1 else 0) ++
    (storeLe32 header.nodeCount ++ (storeLe32 header.stringBufferSize ++
      (storeLe32 header.dependencyCount ++ (storeLe32 header.classNameSize ++
        (storeLe32 header.namespaceSize ++ storeLe32 header.assemblySize))))))

theorem readRecordHeader_sound {header : RecordHeader}
    (h : readRecordHeader answers s n = .ok header s' n') :
    header.withinLimits = true ∧ s = encodeRecordHeader header ++ s' := by
  unfold readRecordHeader at h
  obtain ⟨key, rest, _, hkey, h⟩ := Call.bind_eq_ok.mp h
  have hs := readKey_sound hkey
  obtain ⟨_, _, -, hs₁, h⟩ := exact_schemaReaderU32.bind_eq_ok.mp h
  obtain ⟨hflags, h⟩ := Call.require_bind_eq_ok.mp h
  obtain ⟨_, _, -, hs₂, h⟩ := exact_schemaReaderU32.bind_eq_ok.mp h
  obtain ⟨_, _, -, hs₃, h⟩ := exact_schemaReaderU32.bind_eq_ok.mp h
  obtain ⟨_, _, -, hs₄, h⟩ := exact_schemaReaderU32.bind_eq_ok.mp h
  obtain ⟨_, _, -, hs₅, h⟩ := exact_schemaReaderU32.bind_eq_ok.mp h
  obtain ⟨_, _, -, hs₆, h⟩ := exact_schemaReaderU32.bind_eq_ok.mp h
  obtain ⟨_, _, -, hs₇, h⟩ := exact_schemaReaderU32.bind_eq_ok.mp h
  obtain ⟨hlimits, h⟩ := Call.require_bind_eq_ok.mp h
  obtain ⟨rfl, rfl, -⟩ := Call.pure_eq_ok.mp h
  refine ⟨hlimits, ?_⟩
  rw [hs, hs₁, hs₂, hs₃, hs₄, hs₅, hs₆, hs₇]
  simp only [encodeRecordHeader, schemaFlags_eq hflags, List.append_assoc]

theorem yields_readRecordHeader {header : RecordHeader}
    (hkey : validateKey (some header.key) = .ok header.key)
    (hlimits : header.withinLimits = true) (rest : Text) :
    Call.Yields .allocationFailed readRecordHeader (encodeRecordHeader header ++ rest) header
      rest := by
  have hknown : (if header.isStripped then 1 else 0 : UInt32) &&& ~~~1 = 0 := by
    cases header.isStripped <;> rfl
  have hbit : ((if header.isStripped then 1 else 0 : UInt32) &&& 1 != 0) =
      header.isStripped := by
    cases header.isStripped <;> rfl
  simp only [encodeRecordHeader, List.append_assoc]
  apply (yields_readKey hkey _).bind
  apply (exact_schemaReaderU32.yields trivial _).bind
  apply (Call.yields_require hknown).bind
  apply (exact_schemaReaderU32.yields trivial _).bind
  apply (exact_schemaReaderU32.yields trivial _).bind
  apply (exact_schemaReaderU32.yields trivial _).bind
  apply (exact_schemaReaderU32.yields trivial _).bind
  apply (exact_schemaReaderU32.yields trivial _).bind
  apply (exact_schemaReaderU32.yields trivial _).bind
  rw [hbit]
  apply (Call.yields_require hlimits).bind
  exact Call.yields_pure header

/-! ## Tables -/

theorem readTable_bind {α : Type} {read : Call TypeTreeSchemaStatus SchemaReader (List α)}
    {encode : List α → Text} {good : List α → Prop} (hread : Codec.Exact read encode good)
    (hgood : ∀ xs, good xs → xs.length = size.toNat) (hnil : encode [] = [])
    {f : List α → Call TypeTreeSchemaStatus SchemaReader γ}
    (h : (readTable size read >>= f) answers s n = .ok c s' n') :
    ∃ xs rest n₁, (xs = [] ∨ good xs) ∧ xs.length = size.toNat ∧ s = encode xs ++ rest ∧
      f xs answers rest n₁ = .ok c s' n' := by
  obtain ⟨xs, rest, n₁, htable, hf⟩ := Call.bind_eq_ok.mp h
  unfold readTable at htable
  split_ifs at htable with hsize
  · obtain ⟨rfl, rfl, rfl⟩ := Call.pure_eq_ok.mp htable
    exact ⟨[], s, n, Or.inl rfl, by simp [hsize], by rw [hnil, List.nil_append], hf⟩
  · obtain ⟨-, htable⟩ := Call.request_bind_eq_ok.mp htable
    obtain ⟨hxs, hs, rfl⟩ := (hread _ _ _ _ _ _).mp htable
    exact ⟨xs, rest, _, Or.inr hxs, hgood xs hxs, hs, hf⟩

theorem yields_readTable {α : Type} {read : Call TypeTreeSchemaStatus SchemaReader (List α)}
    {encode : List α → Text} {good : List α → Prop} (hread : Codec.Exact read encode good)
    {xs : List α} (hxs : good xs) (hlength : xs.length = size.toNat) (hnil : encode [] = [])
    (rest : Text) :
    Call.Yields .allocationFailed (readTable size read) (encode xs ++ rest) xs rest := by
  unfold readTable
  split_ifs with hsize
  · have hempty : xs = [] := by
      rw [hsize] at hlength
      exact List.length_eq_zero_iff.mp hlength
    rw [hempty, hnil, List.nil_append]
    exact Call.yields_pure []
  · exact Call.yields_request.bind (hread.yields hxs rest)

/-- The three reference names of a record. -/
def encodeNames (schema : TypeTreeType) : Text :=
  referenceName schema schema.refClassName ++ (referenceName schema schema.refNamespace ++
    referenceName schema schema.refAsmName)

/-- The sizes the header gives are those of the schema's tables. -/
structure HeaderSizes (header : RecordHeader) (schema : TypeTreeType) : Prop where
  stripped : schema.isStripped = header.isStripped
  nodes : schema.nodes.length = header.nodeCount.toNat
  stringBuffer : schema.stringBuffer.length = header.stringBufferSize.toNat
  dependencies : schema.dependencies.length = header.dependencyCount.toNat
  className : (referenceName schema schema.refClassName).length = header.classNameSize.toNat
  nameSpace : (referenceName schema schema.refNamespace).length = header.namespaceSize.toNat
  asmName : (referenceName schema schema.refAsmName).length = header.assemblySize.toNat

theorem HeaderSizes.encode {header : RecordHeader} {schema : TypeTreeType}
    (h : HeaderSizes header schema) :
    encodeRecordHeader header = encodeKey header.key ++ encodeCounts schema := by
  rw [encodeRecordHeader, encodeCounts, schemaFlags, h.stripped, storeLength_eq h.nodes,
    storeLength_eq h.stringBuffer, storeLength_eq h.dependencies, storeLength_eq h.className,
    storeLength_eq h.nameSpace, storeLength_eq h.asmName]

theorem readReferenceNames_sound {header : RecordHeader} {schema schema' : TypeTreeType}
    (h : readReferenceNames header schema answers s n = .ok schema' s' n') :
    (∃ a b c, schema' = { schema with refClassName := a, refNamespace := b, refAsmName := c }) ∧
      s = encodeNames schema' ++ s' ∧
      (referenceName schema' schema'.refClassName).length = header.classNameSize.toNat ∧
      (referenceName schema' schema'.refNamespace).length = header.namespaceSize.toNat ∧
      (referenceName schema' schema'.refAsmName).length = header.assemblySize.toNat := by
  unfold readReferenceNames at h
  split_ifs at h with href
  · obtain ⟨className, r₁, _, hlen₁, hs₁, h⟩ := readOwnedString_bind h
    obtain ⟨nameSpace, r₂, _, hlen₂, hs₂, h⟩ := readOwnedString_bind h
    obtain ⟨asmName, r₃, _, hlen₃, hs₃, h⟩ := readOwnedString_bind h
    obtain ⟨rfl, rfl, -⟩ := Call.pure_eq_ok.mp h
    refine ⟨⟨_, _, _, rfl⟩, ?_, ?_, ?_, ?_⟩
    · rw [hs₁, hs₂, hs₃]
      simp only [encodeNames, referenceName, href, if_true, List.append_assoc]
    · simpa only [referenceName, href, if_true] using hlen₁
    · simpa only [referenceName, href, if_true] using hlen₂
    · simpa only [referenceName, href, if_true] using hlen₃
  · obtain ⟨⟨h₁, h₂, h₃⟩, h⟩ := Call.require_bind_eq_ok.mp h
    obtain ⟨rfl, rfl, -⟩ := Call.pure_eq_ok.mp h
    refine ⟨⟨_, _, _, rfl⟩, ?_, ?_, ?_, ?_⟩
    · simp [encodeNames, referenceName, href]
    · simp [referenceName, href, h₁]
    · simp [referenceName, href, h₂]
    · simp [referenceName, href, h₃]

theorem readTables_sound {header : RecordHeader} {schema : TypeTreeType}
    (h : readTables header answers s n = .ok schema s' n') :
    HeaderSizes header schema ∧ s = encodeTables schema ++ s' := by
  unfold readTables at h
  obtain ⟨-, h⟩ := Call.request_bind_eq_ok.mp h
  obtain ⟨nodes, r₁, ⟨hnodes, -⟩, hs₁, h⟩ := (exact_readNode.replicate _).bind_eq_ok.mp h
  obtain ⟨stringBuffer, r₂, _, -, hbuffer, hs₂, h⟩ :=
    readTable_bind (exact_schemaReaderView _) (fun _ hxs => hxs) rfl h
  obtain ⟨dependencies, r₃, _, -, hdeps, hs₃, h⟩ :=
    readTable_bind (exact_readDependency.replicate _) (fun _ hxs => hxs.1) rfl h
  obtain ⟨⟨a, b, c, rfl⟩, hs₄, hclass, hspace, hasm⟩ := readReferenceNames_sound h
  refine ⟨⟨rfl, hnodes, hbuffer, hdeps, hclass, hspace, hasm⟩, ?_⟩
  rw [hs₁, hs₂, hs₃, hs₄]
  simp only [encodeTables, encodeNames, RecordHeader.schema, id, List.append_assoc]

/-! ## Records -/

theorem bind_encode {raw schema : TypeTreeType} (h : typetreeBindNodeStrings raw = some schema) :
    encodeCounts schema = encodeCounts raw ∧ encodeTables schema = encodeTables raw := by
  unfold typetreeBindNodeStrings at h
  split_ifs at h
  simp only [Option.some.injEq] at h
  subst h
  have hlength : storeLength (raw.nodes.map (bindNode raw.stringBuffer)) =
      storeLength raw.nodes := by
    rw [storeLength, storeLength, List.length_map]
  have hnodes : (raw.nodes.map (bindNode raw.stringBuffer)).flatMap encodeNode =
      raw.nodes.flatMap encodeNode := by
    rw [List.flatMap_map]
    rfl
  constructor
  · simp only [encodeCounts, schemaFlags, referenceName, hlength]
  · simp only [encodeTables, referenceName, hnodes]

variable {sha256 : Text → Sha256Digest} {previous : Option TypeTreeSchemaKey}

/-- **Only encodings of valid entries are accepted.** -/
theorem readRecordPayload_sound {record : TypeTreeSchemaKey × TypeTreeType}
    (h : readRecordPayload sha256 previous answers s n = .ok record s' n') :
    s = encodeBody ⟨record.1, record.2⟩ ∧ ValidEntry sha256 record.1 record.2 ∧
      (previous.all fun p => compareKeys p record.1 == .lt) = true := by
  obtain ⟨key, schema⟩ := record
  unfold readRecordPayload at h
  obtain ⟨header, r₁, _, hheader, h⟩ := Call.bind_eq_ok.mp h
  obtain ⟨-, hs₁⟩ := readRecordHeader_sound hheader
  obtain ⟨key', hkey, h⟩ := Call.ofExcept_bind_eq_ok.mp h
  obtain hkey := (validateKey_eq_ok_iff.mp hkey).1
  obtain ⟨hprevious, h⟩ := Call.require_bind_eq_ok.mp h
  obtain ⟨raw, r₂, _, htables, h⟩ := Call.bind_eq_ok.mp h
  obtain ⟨hsizes, hs₂⟩ := readTables_sound htables
  have h := Call.current_bind_eq_ok.mp h
  obtain ⟨hend, h⟩ := Call.require_bind_eq_ok.mp h
  obtain ⟨bound, r₃, _, hbound, h⟩ := Call.bind_eq_ok.mp h
  obtain ⟨hvalid, -, -⟩ := Call.ofExcept_eq_ok.mp h
  obtain ⟨hkey', hschema, hentry⟩ := validateSchema_eq_ok_iff.mp hvalid
  cases hkey
  cases hkey'
  cases hschema
  have hbind : typetreeBindNodeStrings raw = some schema := by
    unfold boundOr at hbound
    cases hb : typetreeBindNodeStrings raw with
    | none =>
        rw [hb] at hbound
        exact (Call.fail_eq_ok.mp hbound).elim
    | some bound =>
        rw [hb] at hbound
        rw [(Call.pure_eq_ok.mp hbound).1]
  obtain ⟨hcounts, htables'⟩ := bind_encode hbind
  refine ⟨?_, hentry, hprevious⟩
  rw [hs₁, hs₂, hend, hsizes.encode, encodeBody, hcounts, htables']
  simp only [List.append_assoc, List.append_nil]

/-- The schema as its record has it, before its names are bound. -/
def unbound (schema : TypeTreeType) : TypeTreeType :=
  { schema with nodes := schema.nodes.map unboundNode }

theorem bind_unbound {schema : TypeTreeType} (h : typetreeBindNodeStrings schema = some schema) :
    typetreeBindNodeStrings (unbound schema) = some schema := by
  have hall : (schema.nodes.map unboundNode).all (nodeResolves schema.stringBuffer) =
      schema.nodes.all (nodeResolves schema.stringBuffer) := by
    rw [List.all_map]
    rfl
  have hmap : (schema.nodes.map unboundNode).map (bindNode schema.stringBuffer) =
      schema.nodes.map (bindNode schema.stringBuffer) := by
    rw [List.map_map]
    rfl
  simp only [typetreeBindNodeStrings, unbound, List.map_eq_nil_iff, hall, hmap] at h ⊢
  exact h

theorem encodeTables_unbound (schema : TypeTreeType) :
    encodeTables (unbound schema) = encodeTables schema := by
  have hnodes : (schema.nodes.map unboundNode).flatMap encodeNode =
      schema.nodes.flatMap encodeNode := by
    rw [List.flatMap_map]
    rfl
  show (schema.nodes.map unboundNode).flatMap encodeNode ++ _ = _
  rw [hnodes]
  rfl

def recordHeaderOf (entry : Entry) : RecordHeader where
  key := entry.key
  isStripped := entry.schema.isStripped
  nodeCount := entry.schema.nodes.length.toUInt32
  stringBufferSize := entry.schema.stringBuffer.length.toUInt32
  dependencyCount := entry.schema.dependencies.length.toUInt32
  classNameSize := (referenceName entry.schema entry.schema.refClassName).length.toUInt32
  namespaceSize := (referenceName entry.schema entry.schema.refNamespace).length.toUInt32
  assemblySize := (referenceName entry.schema entry.schema.refAsmName).length.toUInt32

theorem encodeRecordHeader_of (entry : Entry) :
    encodeRecordHeader (recordHeaderOf entry) =
      encodeKey entry.key ++ encodeCounts entry.schema := rfl

theorem length_referenceName {schema : TypeTreeType} {name : Option CString}
    (h : schema.isRefType = true → boundedString name maxRefStringSize = true) :
    (referenceName schema name).length ≤ maxRefStringSize := by
  unfold referenceName
  split_ifs with href
  · have hname := h href
    cases name with
    | none => simp
    | some text => simpa [boundedString] using hname
  · simp

/-- The limits of a valid entry, one by one. -/
structure EntryLimits (schema : TypeTreeType) : Prop where
  nodes : schema.nodes.length ≤ maxNodes
  stringBuffer : schema.stringBuffer.length ≤ maxStringBuffer
  dependencies : schema.dependencies.length ≤ maxDependencies
  className : (referenceName schema schema.refClassName).length ≤ maxRefStringSize
  nameSpace : (referenceName schema schema.refNamespace).length ≤ maxRefStringSize
  asmName : (referenceName schema schema.refAsmName).length ≤ maxRefStringSize

variable {entry : Entry}

theorem entryLimits_of_valid (h : ValidEntry sha256 entry.key entry.schema) :
    EntryLimits entry.schema := by
  have hlim := h.withinLimits
  simp only [schemaWithinLimits, Bool.and_eq_true, decide_eq_true_eq] at hlim
  have hnames : entry.schema.isRefType = true →
      boundedString entry.schema.refClassName maxRefStringSize = true ∧
        boundedString entry.schema.refNamespace maxRefStringSize = true ∧
          boundedString entry.schema.refAsmName maxRefStringSize = true := by
    intro href
    have hvalid := h.referenceNames
    rw [referenceNamesValid, if_pos href] at hvalid
    simp only [Bool.and_eq_true] at hvalid
    exact ⟨hvalid.1.1, hvalid.1.2, hvalid.2⟩
  exact ⟨hlim.1.1.1.2, hlim.1.1.2, hlim.1.2, length_referenceName fun hr => (hnames hr).1,
    length_referenceName fun hr => (hnames hr).2.1, length_referenceName fun hr => (hnames hr).2.2⟩

theorem headerSizes_of (h : EntryLimits entry.schema) :
    HeaderSizes (recordHeaderOf entry) (unbound entry.schema) := by
  refine ⟨rfl, ?_, ?_, ?_, ?_, ?_, ?_⟩
  · rw [unbound, List.length_map]
    exact (toNat_length h.nodes (by decide)).symm
  · exact (toNat_length h.stringBuffer (by decide)).symm
  · exact (toNat_length h.dependencies (by decide)).symm
  · exact (toNat_length h.className (by decide)).symm
  · exact (toNat_length h.nameSpace (by decide)).symm
  · exact (toNat_length h.asmName (by decide)).symm

theorem withinLimits_of (h : EntryLimits entry.schema) (hne : entry.schema.nodes ≠ []) :
    (recordHeaderOf entry).withinLimits = true := by
  have hsizes := headerSizes_of h
  have hnodes : (recordHeaderOf entry).nodeCount.toNat = entry.schema.nodes.length := by
    rw [← hsizes.nodes, unbound, List.length_map]
  have hzero : (recordHeaderOf entry).nodeCount ≠ 0 := by
    intro h0
    rw [h0] at hnodes
    exact hne (List.length_eq_zero_iff.mp hnodes.symm)
  simp only [RecordHeader.withinLimits, Bool.and_eq_true, bne_iff_ne, decide_eq_true_eq]
  refine ⟨⟨⟨⟨⟨⟨hzero, ?_⟩, ?_⟩, ?_⟩, ?_⟩, ?_⟩, ?_⟩
  · rw [hnodes]
    exact h.nodes
  · rw [← hsizes.stringBuffer]
    exact h.stringBuffer
  · rw [← hsizes.dependencies]
    exact h.dependencies
  · rw [← hsizes.className]
    exact h.className
  · rw [← hsizes.nameSpace]
    exact h.nameSpace
  · rw [← hsizes.asmName]
    exact h.asmName

theorem yields_readReferenceNames (header : RecordHeader) (schema : TypeTreeType)
    (hnames : referenceNamesValid schema = true) (hlimits : EntryLimits schema)
    (hclass : (referenceName schema schema.refClassName).length = header.classNameSize.toNat)
    (hspace : (referenceName schema schema.refNamespace).length = header.namespaceSize.toNat)
    (hasm : (referenceName schema schema.refAsmName).length = header.assemblySize.toNat)
    (rest : Text) :
    Call.Yields .allocationFailed
      (readReferenceNames header
        { schema with refClassName := none, refNamespace := none, refAsmName := none })
      (encodeNames schema ++ rest) schema rest := by
  have hlim₁ := hclass ▸ hlimits.className
  have hlim₂ := hspace ▸ hlimits.nameSpace
  have hlim₃ := hasm ▸ hlimits.asmName
  cases schema with
  | mk typeId isStripped scriptTypeIndex scriptIdHash typeHash nodes stringBuffer dependencies
      isRefType refClassName refNamespace refAsmName =>
      cases isRefType with
      | true =>
          simp only [referenceNamesValid, if_true, Bool.and_eq_true] at hnames
          cases refClassName with
          | none => simp [boundedString] at hnames
          | some a =>
              cases refNamespace with
              | none => simp [boundedString] at hnames
              | some b =>
                  cases refAsmName with
                  | none => simp [boundedString] at hnames
                  | some c =>
                      simp only [encodeNames, referenceName, if_true, List.append_assoc]
                      apply (yields_readOwnedString _ hclass hlim₁ _).bind
                      apply (yields_readOwnedString _ hspace hlim₂ _).bind
                      apply (yields_readOwnedString _ hasm hlim₃ _).bind
                      exact Call.yields_pure _
      | false =>
          simp only [referenceNamesValid, Bool.false_eq_true, if_false, Bool.and_eq_true,
            beq_iff_eq] at hnames
          obtain ⟨⟨rfl, rfl⟩, rfl⟩ := hnames
          -- no reference type, no names, and the sizes say so
          have hzero : ∀ w : UInt32, ([] : Text).length = w.toNat → w = 0 := by
            intro w hw
            exact UInt32.toNat_inj.mp hw.symm
          refine (Call.yields_require ?_).bind (Call.yields_pure _)
          exact ⟨hzero _ hclass, hzero _ hspace, hzero _ hasm⟩

theorem yields_readTables (h : ValidEntry sha256 entry.key entry.schema) (rest : Text) :
    Call.Yields .allocationFailed (readTables (recordHeaderOf entry))
      (encodeTables entry.schema ++ rest) (unbound entry.schema) rest := by
  have hlimits := entryLimits_of_valid h
  have hsizes := headerSizes_of hlimits
  have hmatch := h.matches
  simp only [schemaMatchesKey, Bool.and_eq_true, beq_iff_eq] at hmatch
  obtain ⟨⟨⟨⟨⟨htype, hindex⟩, -⟩, href⟩, hhash⟩, hscript⟩ := hmatch
  have hraw : (recordHeaderOf entry).schema (unbound entry.schema).nodes
      (unbound entry.schema).stringBuffer (unbound entry.schema).dependencies =
      { unbound entry.schema with
        refClassName := none, refNamespace := none, refAsmName := none } := by
    simp only [RecordHeader.schema, recordHeaderOf, unbound, ← htype, ← hindex, ← href, ← hhash,
      ← hscript]
  rw [← encodeTables_unbound]
  simp only [encodeTables, List.append_assoc]
  apply Call.yields_request.bind
  apply ((exact_readNode.replicate _).yields ⟨hsizes.nodes, ?_⟩ _).bind
  · apply (yields_readTable (exact_schemaReaderView _) hsizes.stringBuffer hsizes.stringBuffer
      rfl _).bind
    apply (yields_readTable (exact_readDependency.replicate _)
      ⟨hsizes.dependencies, fun _ _ => trivial⟩ hsizes.dependencies rfl _).bind
    rw [hraw]
    have hnames := yields_readReferenceNames (recordHeaderOf entry) (unbound entry.schema)
      h.referenceNames
      ⟨by simpa [unbound] using hlimits.nodes, hlimits.stringBuffer, hlimits.dependencies,
        hlimits.className, hlimits.nameSpace, hlimits.asmName⟩
      hsizes.className hsizes.nameSpace hsizes.asmName rest
    simpa only [encodeNames, List.append_assoc] using hnames
  · intro node hmem
    obtain ⟨other, -, rfl⟩ := List.mem_map.mp hmem
    rfl

/-- **Every encoding of a valid entry is accepted** beyond the last key. -/
theorem yields_readRecordPayload (h : ValidEntry sha256 entry.key entry.schema)
    (hprevious : (previous.all fun p => compareKeys p entry.key == .lt) = true) :
    Call.Yields .allocationFailed (readRecordPayload sha256 previous) (encodeBody entry)
      (entry.key, entry.schema) [] := by
  have hlimits := withinLimits_of (entryLimits_of_valid h) h.nodes_ne_nil
  have hbound : Call.Yields .allocationFailed
      (boundOr .invalidFormat (unbound entry.schema)) ([] : Text) entry.schema [] := by
    rw [boundOr, bind_unbound h.bind]
    exact Call.yields_pure entry.schema
  have hbody : encodeBody entry = encodeRecordHeader (recordHeaderOf entry) ++
      (encodeTables entry.schema ++ []) := by
    rw [encodeRecordHeader_of, encodeBody, List.append_nil, List.append_assoc]
  rw [hbody]
  apply (yields_readRecordHeader h.key_valid hlimits _).bind
  apply (Call.yields_ofExcept h.key_valid).bind
  apply (Call.yields_require hprevious).bind
  apply (yields_readTables h []).bind
  apply Call.yields_current.bind
  apply (Call.yields_require rfl).bind
  apply hbound.bind
  exact Call.yields_ofExcept h

end

end UnityCommon.Registry
