import UnityCommon.TypeTree.Schema

/-!
# SerializedFile records

The row types of a SerializedFile and the file itself, as its readers and the
PPtr resolver see them. Tables are lists, so the negative counts and missing
arrays that `file_structure_valid` refuses cannot be built.
-/

namespace UnityCommon

structure AssetPPtr where
  fileId : Int32
  pathId : Int64
deriving DecidableEq, Repr

structure AssetObjectInfo where
  pathId : Int64
  byteOffset : UInt64
  byteSize : UInt32
  typeIdOrIndex : Int32
  typeId : Int32
  scriptTypeIndex : UInt16
  oldTypeId : UInt16
  stripped : UInt8
deriving DecidableEq, Repr

structure AssetFileExternal where
  virtualPath : Option CString
  guid : Bytes16
  type : Int32
  pathName : Option CString
deriving DecidableEq, Repr

structure SerializedFile where
  metadataSize : UInt64
  fileSize : UInt64
  version : UInt32
  dataOffset : UInt64
  bigEndian : Bool
  unityVersion : Option CString
  targetPlatform : UInt32
  typeTreeEnabled : Bool
  types : List TypeTree.TypeTreeType
  objects : List AssetObjectInfo
  scripts : List AssetPPtr
  externals : List AssetFileExternal
  refTypes : List TypeTree.TypeTreeType
  userInformation : Option CString
  rawData : Text
deriving DecidableEq, Repr

/-- `serialized_file_close`: the zeroed record. -/
def SerializedFile.closed : SerializedFile where
  metadataSize := 0
  fileSize := 0
  version := 0
  dataOffset := 0
  bigEndian := false
  unityVersion := none
  targetPlatform := 0
  typeTreeEnabled := false
  types := []
  objects := []
  scripts := []
  externals := []
  refTypes := []
  userInformation := none
  rawData := []

end UnityCommon
