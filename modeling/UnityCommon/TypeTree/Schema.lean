import UnityCommon.Common.Text

/-!
# TypeTree schema records

The fields of `TypeTreeNode` and `TypeTreeType`. A pointer with its count is a
list, and the empty list is the NULL pointer; the allocation wrappers of the
source never return storage for a zero count.
-/

namespace UnityCommon.TypeTree

structure TypeTreeNode where
  version : UInt16
  level : UInt8
  typeFlags : UInt8
  typeStrOffset : UInt32
  nameStrOffset : UInt32
  byteSize : Int32
  index : UInt32
  metaFlags : UInt32
  /-- Opaque final eight wire bytes, in little-endian bit order. -/
  refTypeHash : UInt64
  typeStr : Option CString
  nameStr : Option CString
deriving DecidableEq, Repr

structure TypeTreeType where
  typeId : Int32
  isStripped : Bool
  scriptTypeIndex : UInt16
  scriptIdHash : Bytes16
  typeHash : Bytes16
  nodes : List TypeTreeNode
  stringBuffer : Text
  dependencies : List Int32
  isRefType : Bool
  refClassName : Option CString
  refNamespace : Option CString
  refAsmName : Option CString
deriving DecidableEq, Repr

end UnityCommon.TypeTree
