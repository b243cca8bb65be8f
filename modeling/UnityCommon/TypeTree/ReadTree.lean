import UnityCommon.Common.StreamSpan
import UnityCommon.Lib.Call
import UnityCommon.TypeTree.Strings
import UnityCommon.TypeTree.Validate

/-!
# Reading TypeTrees

`read_tree_nodes`, `read_tree_payload` and `read_dependencies`: the wire form of
a tree. A failure frees what was read, so only the status is kept.
-/

namespace UnityCommon.TypeTree

variable {σ : Type}

def countMax : ℕ := 2 ^ 31 - 1

/-- The eight bytes no byte order applies to, from version 18 on. -/
def readRefTypeHash (version : UInt32) (stream : ByteStream) : Option (UInt64 × ByteStream) :=
  if 18 ≤ version then (stream.readBytes 8).map fun (raw, stream) => (loadLe64 raw, stream)
  else some (0, stream)

/-- A node as it is read, before its names are bound. -/
def readTreeNode (version : UInt32) (stream : ByteStream) : Option (TypeTreeNode × ByteStream) := do
  let (nodeVersion, stream) ← stream.readUInt16
  let (level, stream) ← stream.readUInt8
  let (typeFlags, stream) ← stream.readUInt8
  let (typeStrOffset, stream) ← stream.readUInt32
  let (nameStrOffset, stream) ← stream.readUInt32
  let (byteSize, stream) ← stream.readInt32
  let (index, stream) ← stream.readUInt32
  let (metaFlags, stream) ← stream.readUInt32
  let (refTypeHash, stream) ← readRefTypeHash version stream
  some ({
    version := nodeVersion
    level
    typeFlags
    typeStrOffset
    nameStrOffset
    byteSize
    index
    metaFlags
    refTypeHash
    typeStr := none
    nameStr := none }, stream)

/-- The root is at level 0 and no node is more than one below the last. -/
def levelFollows (previous : Option UInt8) (level : UInt8) : Bool :=
  match previous with
  | none => level == 0
  | some above => level.toNat ≤ above.toNat + 1

/-- The loop of `read_tree_nodes`, with the level of the node before. -/
def readTreeNodesFrom (version : UInt32) :
    ℕ → Option UInt8 → ByteStream → Option (List TypeTreeNode × ByteStream)
  | 0, _, stream => some ([], stream)
  | count + 1, previous, stream => do
      let (node, stream) ← readTreeNode version stream
      guard (levelFollows previous node.level)
      let (nodes, stream) ← readTreeNodesFrom version count (some node.level) stream
      some (node :: nodes, stream)

def readTreeNodes (version nodeCount : UInt32) (stream : ByteStream) :
    Call Unit σ (List TypeTreeNode × ByteStream) := do
  let nodeRecordSize := if 18 ≤ version then 32 else 24
  Call.require (nodeCount ≠ 0 ∧ nodeCount.toNat ≤ countMax ∧
    nodeCount.toNat ≤ stream.remaining / nodeRecordSize) ()
  Call.request ()
  Call.ofOption () (readTreeNodesFrom version nodeCount.toNat none stream)

def readStringBuffer (size : ℕ) (stream : ByteStream) : Call Unit σ (Text × ByteStream) :=
  if size = 0 then pure ([], stream)
  else do
    Call.require (size ≤ stream.remaining) ()
    Call.request ()
    Call.ofOption () (stream.readBytes size)

/-- `read_tree_payload`: the record with its nodes, strings and bound names. -/
def readTreePayload (type : TypeTreeType) (stream : ByteStream)
    (version nodeCount stringBufferSize : UInt32) :
    Call Unit σ (TypeTreeType × ByteStream) := do
  let (nodes, stream) ← readTreeNodes version nodeCount stream
  let (stringBuffer, stream) ← readStringBuffer stringBufferSize.toNat stream
  let type ← Call.ofOption () (typetreeBindNodeStrings { type with nodes, stringBuffer })
  return (type, stream)

def readDependencies (count : UInt32) (stream : ByteStream) :
    Call Unit σ (List Int32 × ByteStream) := do
  Call.require (count.toNat ≤ countMax ∧ count.toNat ≤ stream.remaining / 4) ()
  if count = 0 then return ([], stream)
  else do
    Call.request ()
    Call.ofOption () (stream.readEach ByteStream.readInt32 count.toNat)

end UnityCommon.TypeTree
