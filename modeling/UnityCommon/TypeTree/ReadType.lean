import UnityCommon.Common.StreamLocal
import UnityCommon.TypeTree.ReadTree

/-!
# Reading a type record

`typetree_read_type`: a whole type record from a stream, nodes, strings and
dependencies or reference names included. What it reads of a tree it reads as
if the tree were cut out of the stream.
-/

namespace UnityCommon.TypeTree

open ByteStream

variable {σ : Type}

/-! ## The reader -/

def readHash (stream : ByteStream) : Option (Bytes16 × ByteStream) :=
  if h : stream.remaining < 16 then none
  else some (⟨stream.window 16, (consumes_advance h).2⟩, stream.advance 16)

/-- No hash is read where none is written. -/
def readHashWhen (present : Bool) (stream : ByteStream) : Option (Bytes16 × ByteStream) :=
  if present then readHash stream else some (.zero, stream)

/-- The flag byte, from version 16 on. -/
def readStripped (version : UInt32) (stream : ByteStream) : Option (Bool × ByteStream) :=
  if 16 ≤ version then do
    let (strippedByte, stream) ← stream.readUInt8
    guard (strippedByte ≤ 1)
    some (strippedByte != 0, stream)
  else some (false, stream)

def readScriptTypeIndex (version : UInt32) (stream : ByteStream) :
    Option (UInt16 × ByteStream) :=
  if 17 ≤ version then stream.readUInt16 else some (0xffff, stream)

/-- `has_script_hash`; class 114 is `MonoBehaviour`. -/
def readsScriptHash (version : UInt32) (isRefType : Bool) (typeId : Int32)
    (scriptTypeIndex : UInt16) : Bool :=
  (decide (version < 17) && decide (typeId < 0)) ||
    (decide (17 ≤ version) && typeId == 114) ||
    (isRefType && scriptTypeIndex != 0xffff)

/-- The record up to its tree, on a zeroed `TypeTreeType`. -/
def readTypeIdentity (version : UInt32) (isRefType : Bool) (stream : ByteStream) :
    Option (TypeTreeType × ByteStream) := do
  let (typeId, stream) ← stream.readInt32
  let (isStripped, stream) ← readStripped version stream
  let (scriptTypeIndex, stream) ← readScriptTypeIndex version stream
  let (scriptIdHash, stream) ←
    readHashWhen (readsScriptHash version isRefType typeId scriptTypeIndex) stream
  let (typeHash, stream) ← readHash stream
  some ({
    typeId
    isStripped
    scriptTypeIndex
    scriptIdHash
    typeHash
    nodes := []
    stringBuffer := []
    dependencies := []
    isRefType
    refClassName := none
    refNamespace := none
    refAsmName := none }, stream)

/-- `stream_read_string_alloc`. -/
def readStringAlloc (stream : ByteStream) : Call Unit σ (CString × ByteStream) := do
  let (text, stream) ← Call.ofOption () stream.readCString
  Call.request ()
  return (text, stream)

def readTypeDependencies (type : TypeTreeType) (stream : ByteStream) :
    Call Unit σ (TypeTreeType × ByteStream) := do
  let (count, stream) ← Call.ofOption () stream.readUInt32
  let (dependencies, stream) ← readDependencies count stream
  return ({ type with dependencies }, stream)

def readTypeNames (type : TypeTreeType) (stream : ByteStream) :
    Call Unit σ (TypeTreeType × ByteStream) := do
  let (refClassName, stream) ← readStringAlloc stream
  let (refNamespace, stream) ← readStringAlloc stream
  let (refAsmName, stream) ← readStringAlloc stream
  return ({ type with
    refClassName := some refClassName
    refNamespace := some refNamespace
    refAsmName := some refAsmName }, stream)

/-- What follows a tree, from version 21 on. -/
def readTypeEnd (version : UInt32) (isRefType : Bool) (type : TypeTreeType)
    (stream : ByteStream) : Call Unit σ (TypeTreeType × ByteStream) :=
  if 21 ≤ version then
    if isRefType then readTypeNames type stream else readTypeDependencies type stream
  else pure (type, stream)

def readTypeTree (version : UInt32) (isRefType : Bool) (type : TypeTreeType)
    (stream : ByteStream) : Call Unit σ (TypeTreeType × ByteStream) := do
  let (nodeCount, stream) ← Call.ofOption () stream.readUInt32
  let (stringBufferSize, stream) ← Call.ofOption () stream.readUInt32
  let (type, stream) ← readTreePayload type stream version nodeCount stringBufferSize
  let (type, stream) ← readTypeEnd version isRefType type stream
  Call.require (typetreeValidateSchema type) ()
  return (type, stream)

/-- `typetree_read_type`. -/
def typetreeReadType (stream : ByteStream) (version : UInt32) (hasTypeTree isRefType : Bool) :
    Call Unit σ (TypeTreeType × ByteStream) := do
  let (type, stream) ← Call.ofOption () (readTypeIdentity version isRefType stream)
  if hasTypeTree then readTypeTree version isRefType type stream
  else return (type, stream)

theorem readHash_eq_some {s s' : ByteStream} {hash : Bytes16} :
    readHash s = some (hash, s') ↔ Consumes s s' hash.bytes := by
  rw [consumes_iff_window, hash.length_eq]
  unfold readHash
  by_cases h : s.remaining < 16
  · rw [dif_pos h]
    simp [Nat.not_le.mpr h]
  · rw [dif_neg h, Option.some.injEq, Prod.mk.injEq]
    constructor
    · rintro ⟨rfl, rfl⟩
      exact ⟨Nat.le_of_not_lt h, rfl, rfl⟩
    · rintro ⟨-, hwindow, rfl⟩
      exact ⟨Bytes16.ext_bytes hwindow, rfl⟩

/-! ## Nodes -/

theorem localRead_refTypeHash (version : UInt32) : LocalRead (readRefTypeHash version) := by
  unfold readRefTypeHash
  split
  · exact (localRead_bytes 8).map loadLe64
  · exact localRead_pure 0

/-- A node, whatever the version, is a sequence of local reads. -/
theorem localRead_treeNode (version : UInt32) : LocalRead (readTreeNode version) := by
  have hnode := localRead_uint16.bind fun nodeVersion => localRead_uint8.bind fun level =>
    localRead_uint8.bind fun typeFlags => localRead_uint32.bind fun typeStrOffset =>
    localRead_uint32.bind fun nameStrOffset => localRead_int32.bind fun byteSize =>
    localRead_uint32.bind fun index => localRead_uint32.bind fun metaFlags =>
    (localRead_refTypeHash version).bind fun refTypeHash =>
      localRead_pure (⟨nodeVersion, level, typeFlags, typeStrOffset, nameStrOffset, byteSize,
        index, metaFlags, refTypeHash, none, none⟩ : TypeTreeNode)
  exact hnode

theorem localRead_treeNodes (version : UInt32) : ∀ count previous,
    LocalRead (readTreeNodesFrom version count previous)
  | 0, _ => localRead_pure []
  | count + 1, previous => by
      have hnodes := (localRead_treeNode version).bind fun node =>
        ((localRead_treeNodes version count (some node.level)).bind fun nodes =>
          localRead_pure (node :: nodes)).guard (levelFollows previous node.level = true)
      exact hnodes

def nodeRecordSize (version : UInt32) : ℕ := if 18 ≤ version then 32 else 24

theorem wide_treeNode (version : UInt32) :
    Wide (nodeRecordSize version) (readTreeNode version) := by
  have hhash : Wide (nodeRecordSize version - 24) (readRefTypeHash version) := by
    unfold nodeRecordSize readRefTypeHash
    split
    · exact (wide_bytes 8).map loadLe64
    · exact wide_pure 0
  have hnode := wide_uint16.bind fun nodeVersion => wide_uint8.bind fun level =>
    wide_uint8.bind fun typeFlags => wide_uint32.bind fun typeStrOffset =>
    wide_uint32.bind fun nameStrOffset => wide_int32.bind fun byteSize =>
    wide_uint32.bind fun index => wide_uint32.bind fun metaFlags =>
    hhash.bind fun refTypeHash => wide_pure (⟨nodeVersion, level, typeFlags, typeStrOffset,
      nameStrOffset, byteSize, index, metaFlags, refTypeHash, none, none⟩ : TypeTreeNode)
  have hsize : 2 + (1 + (1 + (4 + (4 + (4 + (4 + (4 + (nodeRecordSize version - 24 + 0))))))))
      = nodeRecordSize version := by
    unfold nodeRecordSize
    split <;> rfl
  rw [hsize] at hnode
  exact hnode

theorem wide_treeNodes (version : UInt32) : ∀ count previous,
    Wide (count * nodeRecordSize version) (readTreeNodesFrom version count previous)
  | 0, _ => by
      rw [Nat.zero_mul]
      exact wide_pure []
  | count + 1, previous => by
      intro s nodes s' h
      simp only [readTreeNodesFrom, Option.bind_eq_bind, Option.bind_eq_some_iff,
        Prod.exists] at h
      obtain ⟨node, t, hnode, _, -, rest, t', hrest, heq⟩ := h
      obtain ⟨front, hfront, hconsumes⟩ := wide_treeNode version s node t hnode
      obtain ⟨back, hback, hconsumes'⟩ :=
        wide_treeNodes version count (some node.level) t rest t' hrest
      cases heq
      refine ⟨front ++ back, ?_, hconsumes.trans hconsumes'⟩
      rw [List.length_append, hfront, hback, Nat.succ_mul, Nat.add_comm]

/-! ## Trees -/

section

variable {answers : ℕ → Bool} {s s' : ByteStream} {t t' : σ} {n n' : ℕ}

/-- The check against the rest of the stream is implied by the reads. -/
theorem readTreeNodes_eq_ok {version nodeCount : UInt32} {nodes : List TypeTreeNode} :
    readTreeNodes version nodeCount s answers t n = .ok (nodes, s') t' n' ↔
      (nodeCount ≠ 0 ∧ nodeCount.toNat ≤ countMax ∧ answers n = true ∧ t = t' ∧ n + 1 = n') ∧
        readTreeNodesFrom version nodeCount.toNat none s = some (nodes, s') := by
  unfold readTreeNodes
  rw [Call.require_bind_eq_ok, Call.request_bind_eq_ok, ofOption_eq_ok]
  constructor
  · rintro ⟨⟨hne, hmax, -⟩, ha, hread, rfl, rfl⟩
    exact ⟨⟨hne, hmax, ha, rfl, rfl⟩, hread⟩
  · rintro ⟨⟨hne, hmax, ha, rfl, rfl⟩, hread⟩
    have hfits := (wide_treeNodes version nodeCount.toNat none).le_remaining hread
    have hpos : 0 < nodeRecordSize version := by
      unfold nodeRecordSize
      split <;> decide
    exact ⟨⟨hne, hmax, (Nat.le_div_iff_mul_le hpos).mpr hfits⟩, ha, hread, rfl, rfl⟩

theorem readStringBuffer_eq_ok {size : ℕ} {buffer : Text} :
    readStringBuffer size s answers t n = .ok (buffer, s') t' n' ↔
      (n + (if size = 0 then 0 else 1) = n' ∧ t = t' ∧ (size ≠ 0 → answers n = true)) ∧
        s.readBytes size = some (buffer, s') := by
  unfold readStringBuffer
  by_cases hzero : size = 0
  · subst hzero
    rw [if_pos rfl, Call.pure_eq_ok]
    simp [readBytes, window, advance]
    tauto
  · rw [if_neg hzero, Call.require_bind_eq_ok, Call.request_bind_eq_ok, ofOption_eq_ok]
    constructor
    · rintro ⟨-, ha, hread, rfl, rfl⟩
      exact ⟨⟨by simp [hzero], rfl, fun _ => ha⟩, hread⟩
    · rintro ⟨⟨rfl, rfl, ha⟩, hread⟩
      exact ⟨(wide_bytes size).le_remaining hread, ha hzero, hread, rfl, by simp [hzero]⟩

theorem readDependencies_eq_ok {count : UInt32} {words : List Int32} :
    readDependencies count s answers t n = .ok (words, s') t' n' ↔
      (count.toNat ≤ countMax ∧ n + (if count = 0 then 0 else 1) = n' ∧ t = t' ∧
          (count ≠ 0 → answers n = true)) ∧
        s.readEach readInt32 count.toNat = some (words, s') := by
  unfold readDependencies
  rw [Call.require_bind_eq_ok]
  by_cases hzero : count = 0
  · subst hzero
    rw [if_pos rfl, Call.pure_eq_ok]
    simp [readEach]
    tauto
  · rw [if_neg hzero, Call.request_bind_eq_ok, ofOption_eq_ok]
    constructor
    · rintro ⟨⟨hmax, -⟩, ha, hread, rfl, rfl⟩
      exact ⟨⟨hmax, by simp [hzero], rfl, fun _ => ha⟩, hread⟩
    · rintro ⟨⟨hmax, rfl, rfl, ha⟩, hread⟩
      have hfits := (wide_int32.each count.toNat).le_remaining hread
      exact ⟨⟨hmax, (Nat.le_div_iff_mul_le (by decide)).mpr hfits⟩, ha hzero, hread, rfl,
        by simp [hzero]⟩

end

theorem localCall_treeNodes (version nodeCount : UInt32) :
    LocalCall (σ := σ) (readTreeNodes version nodeCount) := by
  intro answers t n nodes t' n'
  exact ((localRead_treeNodes version nodeCount.toNat none nodes).and _).congr
    fun s s' => readTreeNodes_eq_ok

theorem localCall_stringBuffer (size : ℕ) : LocalCall (σ := σ) (readStringBuffer size) := by
  intro answers t n buffer t' n'
  exact ((localRead_bytes size buffer).and _).congr fun s s' => readStringBuffer_eq_ok

theorem localCall_dependencies (count : UInt32) :
    LocalCall (σ := σ) (readDependencies count) := by
  intro answers t n words t' n'
  exact ((localRead_int32.each count.toNat words).and _).congr fun s s' =>
    readDependencies_eq_ok

/-- **A tree may be read where it stands or cut out.** -/
theorem localCall_treePayload (type : TypeTreeType) (version nodeCount size : UInt32) :
    LocalCall (σ := σ) fun s => readTreePayload type s version nodeCount size :=
  (localCall_treeNodes version nodeCount).bind fun nodes =>
    (localCall_stringBuffer size.toNat).bind fun stringBuffer =>
      LocalCall.after (Call.ofOption () (typetreeBindNodeStrings { type with nodes, stringBuffer }))
        fun bound => localCall_pure bound

/-- What a tree takes: its records and its strings. -/
theorem readTreePayload_consumes {type type' : TypeTreeType} {s s' : ByteStream}
    {version nodeCount size : UInt32} {answers : ℕ → Bool} {t t' : σ} {n n' : ℕ}
    (h : readTreePayload type s version nodeCount size answers t n = .ok (type', s') t' n') :
    nodeCount ≠ 0 ∧ ∃ bytes, Consumes s s' bytes ∧
      bytes.length = nodeCount.toNat * nodeRecordSize version + size.toNat := by
  obtain ⟨⟨nodes, s₁⟩, t₁, n₁, hnodes, hrest⟩ := Call.bind_eq_ok.mp h
  obtain ⟨⟨buffer, s₂⟩, t₂, n₂, hbuffer, hbind⟩ := Call.bind_eq_ok.mp hrest
  obtain ⟨bound, t₃, n₃, -, hpure⟩ := Call.bind_eq_ok.mp hbind
  obtain ⟨heq, -, -⟩ := Call.pure_eq_ok.mp hpure
  cases heq
  obtain ⟨⟨hne, -⟩, hread⟩ := readTreeNodes_eq_ok.mp hnodes
  obtain ⟨front, hfront, hconsumes⟩ := wide_treeNodes version _ none s nodes s₁ hread
  obtain ⟨back, hback, hconsumes'⟩ :=
    wide_bytes size.toNat s₁ buffer _ (readStringBuffer_eq_ok.mp hbuffer).2
  exact ⟨hne, front ++ back, hconsumes.trans hconsumes', by
    rw [List.length_append, hfront, hback]⟩

end UnityCommon.TypeTree
