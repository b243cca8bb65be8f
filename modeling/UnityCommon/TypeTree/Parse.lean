import UnityCommon.Common.Stream
import UnityCommon.TypeTree.Value

/-!
# The TypeTree value parser

`typetree_parse_value_internal`. The recursion goes to larger node indices, so
the number of nodes bounds its depth and is the fuel; `parseInternal_fuel` in
`TypeTree.Progress` shows that more fuel changes nothing. Allocation is taken
to succeed.
-/

namespace UnityCommon.TypeTree

def packByteArrays : UInt32 := 1
def borrowByteArrays : UInt32 := 2
def alignFlag : UInt32 := 0x4000
def intMax : ℕ := 2 ^ 31 - 1

def isSignedIntegerType (typeStr : Option CString) : Bool :=
  isOneOf typeStr ["SInt8", "SInt16", "SInt32", "SInt64", "int", "short", "long long"]

def isUnsignedIntegerType (typeStr : Option CString) : Bool :=
  isOneOf typeStr ["UInt8", "UInt16", "UInt32", "UInt64", "unsigned int", "unsigned short",
    "unsigned long long", "FileSize", "RenderingLayerMask", "Type*", "BitField", "bool", "char"]

/-- The bits of the `double` a `float` converts to; a NaN becomes quiet. -/
def floatToDouble (bits : UInt32) : UInt64 :=
  let sign := (bits >>> 31).toUInt64 <<< 63
  let exponent := (bits >>> 23) &&& 0xff
  let fraction := bits &&& 0x7fffff
  if exponent = 0xff then
    if fraction = 0 then sign ||| (0x7ff0000000000000 : UInt64)
    else sign ||| (0x7ff8000000000000 : UInt64) ||| (fraction.toUInt64 <<< 29)
  else if exponent = 0 then
    if fraction = 0 then sign
    else
      -- a subnormal float is a normal double
      let k := fraction.toNat.log2
      sign ||| ((k + 874).toUInt64 <<< 52) |||
        ((fraction.toNat - 2 ^ k) * 2 ^ (52 - k)).toUInt64
  else sign ||| ((exponent.toUInt64 + 896) <<< 52) ||| (fraction.toUInt64 <<< 29)

def namesOf (node : TypeTreeNode) : ValueNames := ⟨node.nameStr, node.typeStr⟩

def alignWhen (flag : Bool) (stream : ByteStream) : Option ByteStream :=
  if flag then stream.align 4 else some stream

def wantsAlign (flags : UInt32) : Bool := flags &&& alignFlag != 0

/-! ## Leaves and strings -/

/-- The read of a node without children. -/
def parseScalar (node : TypeTreeNode) (stream : ByteStream) :
    Option (TypeTreeValue × ByteStream) :=
  let isSigned := isSignedIntegerType node.typeStr
  let isUnsigned := isUnsignedIntegerType node.typeStr
  let integer (signed unsigned : UInt64) : TypeTreeValue :=
    .int (namesOf node) isUnsigned (if isSigned then signed else unsigned)
  if node.byteSize = 1 ∧ (isSigned || isUnsigned) then
    stream.readUInt8.map fun (v, s) => (integer v.toInt8.toInt64.toUInt64 v.toUInt64, s)
  else if node.byteSize = 2 ∧ (isSigned || isUnsigned) then
    stream.readUInt16.map fun (v, s) => (integer v.toInt16.toInt64.toUInt64 v.toUInt64, s)
  else if node.byteSize = 4 then
    stream.readUInt32.bind fun (v, s) =>
      if textIs node.typeStr "float" then some (.float (namesOf node) (floatToDouble v), s)
      else if isSigned || isUnsigned then
        some (integer v.toInt32.toInt64.toUInt64 v.toUInt64, s)
      else none
  else if node.byteSize = 8 then
    stream.readUInt64.bind fun (v, s) =>
      if textIs node.typeStr "double" then some (.float (namesOf node) v, s)
      else if isSigned || isUnsigned then some (integer v v, s)
      else none
  else none

def parseLeaf (node : TypeTreeNode) (index : ℕ) (suppress : Bool) (stream : ByteStream) :
    Option (TypeTreeValue × ℕ × ByteStream) :=
  (parseScalar node stream).bind fun (value, stream) =>
    (alignWhen (!suppress && wantsAlign node.metaFlags) stream).map fun stream =>
      (value, index + 1, stream)

def parseString (type : TypeTreeType) (node : TypeTreeNode) (index : ℕ)
    (stream : ByteStream) : Option (TypeTreeValue × ℕ × ByteStream) :=
  stream.readUInt32.bind fun (size, stream) =>
    (stream.readBytes size.toNat).bind fun (bytes, stream) =>
      (stream.align 4).map fun stream =>
        (.string (namesOf node) bytes, skipDeeper type node.level.toNat (index + 1), stream)

/-! ## Arrays -/

/-- The element loop: `count` parses from the data node. -/
def parseElements (parse : ByteStream → Option (TypeTreeValue × ByteStream)) :
    ℕ → ByteStream → Option (List TypeTreeValue × ByteStream)
  | 0, stream => some ([], stream)
  | count + 1, stream =>
      (parse stream).bind fun (value, stream) =>
        (parseElements parse count stream).map fun (values, stream) =>
          (value :: values, stream)

/-- `pack_byte_array`. -/
def packsArray (type : TypeTreeType) (flags : UInt32) (dataIndex : ℕ) : Bool :=
  match type.nodes[dataIndex]? with
  | some data =>
      flags &&& (packByteArrays ||| borrowByteArrays) != 0 && data.byteSize == 1 &&
        !nodeHasChildren type dataIndex && textIs data.typeStr "UInt8"
  | none => false

/-- The packed branch: borrowing skips the bytes, owning reads them. -/
def parsePacked (flags : UInt32) (node : TypeTreeNode) (size : ℕ) (stream : ByteStream) :
    Option (TypeTreeValue × ByteStream) :=
  if size = 0 then some (.packed (namesOf node) [] false, stream)
  else if flags &&& borrowByteArrays ≠ 0 then
    if stream.remaining < size then none
    else (stream.skip size).map fun stream' =>
      (.packed (namesOf node) (stream.window size) false, stream')
  else (stream.readBytes size).map fun (bytes, stream') =>
    (.packed (namesOf node) bytes true, stream')

/-- The test on a node with children: its first child is an Array marker. -/
def ownsArray (type : TypeTreeType) (index : ℕ) : Bool :=
  type.nodes[index + 1]?.any isArrayMarker

/-- The elements of an array of `size`, in the storage the flags ask for. -/
def parseArrayValue (type : TypeTreeType) (flags : UInt32) (node : TypeTreeNode) (index : ℕ)
    (size : ℕ) (parse : ByteStream → Option (TypeTreeValue × ByteStream))
    (stream : ByteStream) : Option (TypeTreeValue × ByteStream) :=
  if packsArray type flags (index + 3) then parsePacked flags node size stream
  else (parseElements parse size stream).map fun (values, stream) =>
    (.array (namesOf node) values, stream)

def parseArray (type : TypeTreeType) (flags : UInt32) (node : TypeTreeNode) (index : ℕ)
    (suppress : Bool) (parse : ByteStream → Option (TypeTreeValue × ByteStream))
    (stream : ByteStream) : Option (TypeTreeValue × ℕ × ByteStream) :=
  match type.nodes[index + 1]?, type.nodes[index + 2]?, type.nodes[index + 3]? with
  | some array, some sizeNode, some data =>
      if sizeNode.level ≤ node.level ∨ data.level ≤ node.level then none
      else
        stream.readUInt32.bind fun (size, stream) =>
          if intMax < size.toNat ∨ stream.remaining < size.toNat then none
          else
            (parseArrayValue type flags node index size.toNat parse stream).bind
              fun (value, stream) => (alignWhen (wantsAlign (array.metaFlags ||| data.metaFlags) ||
                  (!suppress && wantsAlign node.metaFlags)) stream).map fun stream =>
                    (value, skipDeeper type node.level.toNat (index + 1), stream)
  | _, _, _ => none

/-! ## Structs -/

/-- The loop that counts direct children; `fuel` bounds its rounds. -/
def countChildren (type : TypeTreeType) (level : ℕ) : ℕ → ℕ → ℕ
  | 0, _ => 0
  | fuel + 1, index =>
      match type.nodes[index]? with
      | none => 0
      | some child =>
          if child.level.toNat ≤ level then 0
          else (if child.level.toNat = level + 1 then 1 else 0) +
            countChildren type level fuel (skipDeeper type child.level.toNat (index + 1))

/-- The member loop: `none` when a member fails, or when the rounds ran out. -/
def parseMembers (type : TypeTreeType) (level : ℕ)
    (parse : ℕ → ByteStream → Option (TypeTreeValue × ℕ × ByteStream)) :
    ℕ → ℕ → ByteStream → Option (List TypeTreeValue × ℕ × ByteStream)
  | 0, _, _ => none
  | fuel + 1, index, stream =>
      match type.nodes[index]? with
      | none => some ([], index, stream)
      | some child =>
          if child.level.toNat ≤ level then some ([], index, stream)
          else if child.level.toNat = level + 1 then
            (parse index stream).bind fun (value, index, stream) =>
              (parseMembers type level parse fuel index stream).map
                fun (values, index, stream) => (value :: values, index, stream)
          else parseMembers type level parse fuel (index + 1) stream

/-- A member slot that no round filled keeps the zeros of `memset`. -/
def emptyMember : TypeTreeValue := .int ⟨none, none⟩ false 0

/-- The `child_count` slots after the loop; filling more of them would write
past the array. -/
def memberSlots (childCount : ℕ) (values : List TypeTreeValue) : Option (List TypeTreeValue) :=
  if childCount < values.length then none
  else some (values ++ List.replicate (childCount - values.length) emptyMember)

def parseStruct (type : TypeTreeType) (node : TypeTreeNode) (index : ℕ) (suppress : Bool)
    (parse : ℕ → ByteStream → Option (TypeTreeValue × ℕ × ByteStream))
    (stream : ByteStream) : Option (TypeTreeValue × ℕ × ByteStream) :=
  let rounds := type.nodes.length + 1
  let childCount := countChildren type node.level.toNat rounds (index + 1)
  (if childCount = 0 then some ([], index + 1, stream)
  else parseMembers type node.level.toNat parse rounds (index + 1) stream).bind
    fun (values, index, stream) =>
      (memberSlots childCount values).bind fun members =>
        (alignWhen (!suppress && wantsAlign node.metaFlags) stream).map fun stream =>
          (.struct (namesOf node) members, index, stream)

/-! ## The recursion -/

def parseInternal (type : TypeTreeType) (flags : UInt32) :
    ℕ → ℕ → Bool → ByteStream → Option (TypeTreeValue × ℕ × ByteStream)
  | 0, _, _, _ => none
  | fuel + 1, index, suppress, stream =>
      match type.nodes[index]? with
      | none => none
      | some node =>
          if !nodeHasChildren type index then parseLeaf node index suppress stream
          else if textIs node.typeStr "string" then parseString type node index stream
          else if ownsArray type index then
            parseArray type flags node index suppress
              (fun stream => (parseInternal type flags fuel (index + 3) true stream).map
                fun (value, _, stream) => (value, stream))
              stream
          else parseStruct type node index suppress
            (fun index stream => parseInternal type flags fuel index false stream) stream

/-- `typetree_parse_value_ex`. -/
def typetreeParseValueEx (type : TypeTreeType) (index : ℕ) (stream : ByteStream)
    (parseFlags : UInt32) : Option (TypeTreeValue × ℕ × ByteStream) :=
  let knownFlags := packByteArrays ||| borrowByteArrays
  if parseFlags &&& ~~~knownFlags ≠ 0 ∨ parseFlags &&& knownFlags = knownFlags ∨
      typetreeValidateSchema type = false then none
  else parseInternal type parseFlags type.nodes.length index false stream

/-- `typetree_parse_value`. -/
def typetreeParseValue (type : TypeTreeType) (index : ℕ) (stream : ByteStream) :
    Option (TypeTreeValue × ℕ × ByteStream) :=
  if typetreeValidateSchema type = false then none
  else parseInternal type 0 type.nodes.length index false stream

/-! ## What a successful parse did -/

section

variable {type : TypeTreeType} {flags : UInt32} {node : TypeTreeNode} {fuel index index' : ℕ}
  {suppress : Bool} {stream stream' : ByteStream} {value : TypeTreeValue}

theorem parseLeaf_eq_some : parseLeaf node index suppress stream = some (value, index', stream') ↔
    ∃ stream₁, parseScalar node stream = some (value, stream₁) ∧
      alignWhen (!suppress && wantsAlign node.metaFlags) stream₁ = some stream' ∧
      index' = index + 1 := by
  unfold parseLeaf
  constructor
  · intro h
    obtain ⟨⟨scalar, stream₁⟩, hscalar, h⟩ := Option.bind_eq_some_iff.mp h
    obtain ⟨stream₂, halign, he⟩ := Option.map_eq_some_iff.mp h
    cases he
    exact ⟨stream₁, hscalar, halign, rfl⟩
  · rintro ⟨stream₁, hscalar, halign, rfl⟩
    simp only [hscalar, Option.bind_some, halign, Option.map_some]

theorem parseString_eq_some : parseString type node index stream = some (value, index', stream') ↔
    ∃ size bytes stream₁ stream₂, stream.readUInt32 = some (size, stream₁) ∧
      stream₁.readBytes size.toNat = some (bytes, stream₂) ∧ stream₂.align 4 = some stream' ∧
      value = .string (namesOf node) bytes ∧
      index' = skipDeeper type node.level.toNat (index + 1) := by
  unfold parseString
  constructor
  · intro h
    obtain ⟨⟨size, stream₁⟩, hsize, h⟩ := Option.bind_eq_some_iff.mp h
    obtain ⟨⟨bytes, stream₂⟩, hbytes, h⟩ := Option.bind_eq_some_iff.mp h
    obtain ⟨stream₃, halign, he⟩ := Option.map_eq_some_iff.mp h
    cases he
    exact ⟨size, bytes, stream₁, stream₂, hsize, hbytes, halign, rfl, rfl⟩
  · rintro ⟨size, bytes, stream₁, stream₂, hsize, hbytes, halign, rfl, rfl⟩
    simp only [hsize, Option.bind_some, hbytes, halign, Option.map_some]

/-- An array that was read had room for as many bytes as it has elements. -/
theorem parseArray_eq_some {parse : ByteStream → Option (TypeTreeValue × ByteStream)}
    (h : parseArray type flags node index suppress parse stream = some (value, index', stream')) :
    ∃ size stream₁ stream₂ aligned, stream.readUInt32 = some (size, stream₁) ∧
      size.toNat ≤ stream₁.remaining ∧
      parseArrayValue type flags node index size.toNat parse stream₁ = some (value, stream₂) ∧
      alignWhen aligned stream₂ = some stream' ∧
      index' = skipDeeper type node.level.toNat (index + 1) := by
  unfold parseArray at h
  split at h
  swap
  · cases h
  split at h
  · cases h
  obtain ⟨⟨size, stream₁⟩, hsize, h⟩ := Option.bind_eq_some_iff.mp h
  dsimp only at h
  split at h
  · cases h
  rename_i hroom
  obtain ⟨⟨value₁, stream₂⟩, hvalue, h⟩ := Option.bind_eq_some_iff.mp h
  obtain ⟨stream₃, halign, he⟩ := Option.map_eq_some_iff.mp h
  cases he
  exact ⟨size, stream₁, stream₂, _, hsize, Nat.le_of_not_lt (not_or.mp hroom).2, hvalue, halign,
    rfl⟩

theorem parseStruct_eq_some {parse : ℕ → ByteStream → Option (TypeTreeValue × ℕ × ByteStream)}
    (h : parseStruct type node index suppress parse stream = some (value, index', stream')) :
    ∃ values members stream₁,
      (if countChildren type node.level.toNat (type.nodes.length + 1) (index + 1) = 0 then
        some ([], index + 1, stream)
      else parseMembers type node.level.toNat parse (type.nodes.length + 1) (index + 1) stream) =
        some (values, index', stream₁) ∧
      memberSlots (countChildren type node.level.toNat (type.nodes.length + 1) (index + 1)) values =
        some members ∧
      alignWhen (!suppress && wantsAlign node.metaFlags) stream₁ = some stream' ∧
      value = .struct (namesOf node) members := by
  unfold parseStruct at h
  obtain ⟨⟨values, last, stream₁⟩, hloop, h⟩ := Option.bind_eq_some_iff.mp h
  obtain ⟨members, hslots, h⟩ := Option.bind_eq_some_iff.mp h
  obtain ⟨stream₂, halign, he⟩ := Option.map_eq_some_iff.mp h
  cases he
  exact ⟨values, members, stream₁, hloop, hslots, halign, rfl⟩

/-- The reader that a node was given to, and what it returned. -/
inductive ReadAs (type : TypeTreeType) (flags : UInt32) (fuel index : ℕ) (suppress : Bool)
    (stream : ByteStream) (node : TypeTreeNode) (result : TypeTreeValue × ℕ × ByteStream) : Prop
  | leaf (hleaf : nodeHasChildren type index = false)
      (h : parseLeaf node index suppress stream = some result)
  | string (hchildren : nodeHasChildren type index = true)
      (hstring : textIs node.typeStr "string" = true)
      (h : parseString type node index stream = some result)
  | array (hchildren : nodeHasChildren type index = true)
      (hstring : ¬ textIs node.typeStr "string" = true) (harray : ownsArray type index = true)
      (h : parseArray type flags node index suppress
        (fun stream => (parseInternal type flags fuel (index + 3) true stream).map
          fun (value, _, stream) => (value, stream)) stream = some result)
  | struct (hchildren : nodeHasChildren type index = true)
      (hstring : ¬ textIs node.typeStr "string" = true) (harray : ¬ ownsArray type index = true)
      (h : parseStruct type node index suppress
        (fun index stream => parseInternal type flags fuel index false stream) stream = some result)

/-- **A parse that succeeded read a node** in one of the four ways. -/
theorem readAs_of_parseInternal {result : TypeTreeValue × ℕ × ByteStream}
    (h : parseInternal type flags (fuel + 1) index suppress stream = some result) :
    ∃ node, type.nodes[index]? = some node ∧
      ReadAs type flags fuel index suppress stream node result := by
  rw [parseInternal] at h
  cases hnode : type.nodes[index]? with
  | none =>
      simp only [hnode] at h
      cases h
  | some node =>
      simp only [hnode] at h
      refine ⟨node, rfl, ?_⟩
      by_cases hleaf : nodeHasChildren type index = false
      · rw [hleaf, Bool.not_false, if_pos rfl] at h
        exact .leaf hleaf h
      have hchildren : nodeHasChildren type index = true := by simpa using hleaf
      rw [hchildren] at h
      simp only [Bool.not_true, Bool.false_eq_true, if_false] at h
      by_cases hstring : textIs node.typeStr "string" = true
      · rw [if_pos hstring] at h
        exact .string hchildren hstring h
      rw [if_neg hstring] at h
      by_cases harray : ownsArray type index = true
      · rw [if_pos harray] at h
        exact .array hchildren hstring harray h
      · rw [if_neg harray] at h
        exact .struct hchildren hstring harray h

end

end UnityCommon.TypeTree
