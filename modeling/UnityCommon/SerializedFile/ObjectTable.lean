import UnityCommon.SerializedFile.Materialize
import Mathlib.Data.List.Sort

/-!
# The object table

`validate_object_table`: the objects of a file have distinct PathIDs and their
byte ranges do not overlap. Both are tested on neighbours of a sorted copy.
-/

namespace UnityCommon

variable {σ : Type}

structure ObjectValidationRecord where
  pathId : Int64
  byteOffset : UInt64
  byteEnd : UInt64
  byteSize : UInt32
deriving DecidableEq, Repr

def objectValidationRecord (object : AssetObjectInfo) : ObjectValidationRecord where
  pathId := object.pathId
  byteOffset := object.byteOffset
  byteEnd := object.byteOffset + object.byteSize.toUInt64
  byteSize := object.byteSize

/-- `compare_object_path_id(left, right) <= 0`. -/
def pathIdLe (left right : ObjectValidationRecord) : Bool := left.pathId ≤ right.pathId

/-- `compare_object_range(left, right) <= 0`. -/
def rangeLe (left right : ObjectValidationRecord) : Bool :=
  if left.byteOffset ≠ right.byteOffset then left.byteOffset < right.byteOffset
  else left.byteEnd ≤ right.byteEnd

def neighboursDistinct : List ObjectValidationRecord → Bool
  | left :: right :: records =>
      left.pathId != right.pathId && neighboursDistinct (right :: records)
  | _ => true

/-- The range loop; empty objects are passed over. -/
def rangesFollow : List ObjectValidationRecord → Option UInt64 → Bool
  | [], _ => true
  | record :: records, previousEnd =>
      if record.byteSize = 0 then rangesFollow records previousEnd
      else !(previousEnd.any (record.byteOffset < ·)) &&
        rangesFollow records (some record.byteEnd)

def validateObjectTable (file : SerializedFile) : Call Unit σ Unit :=
  if file.objects.length < 2 then pure ()
  else do
    Call.request ()
    let records := file.objects.map objectValidationRecord
    let byPathId := records.insertionSort fun left right => pathIdLe left right = true
    Call.require (neighboursDistinct byPathId) ()
    let byRange := byPathId.insertionSort fun left right => rangeLe left right = true
    Call.require (rangesFollow byRange none) ()

end UnityCommon
