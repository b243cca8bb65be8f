import UnityCommon.Common.Words
import UnityCommon.TypeTree.Strings

/-!
# Schema keys

The statuses of the TypeTree schema registry, its keys, their total order and
the key of a serialized type record. `TYPETREE_SCHEMA_OK` is a call that
returns. A NULL version and an empty one are refused by the same test, and are
both the empty text.
-/

namespace UnityCommon.Registry

open UnityCommon.TypeTree

inductive TypeTreeSchemaStatus where
  | notFound
  | invalidArgument
  | invalidSchema
  | keyConflict
  | allocationFailed
  | sizeOverflow
  | ioError
  | invalidFormat
  | digestMismatch
  | limitExceeded
deriving DecidableEq, Repr

inductive TypeTreeSchemaProvenance where
  | untrustedInput
  | pinnedInput
  | importedRegistry
deriving DecidableEq, Repr

/-- `TYPETREE_SCHEMA_REGISTRY_MAX_UNITY_VERSION_SIZE`. -/
def maxUnityVersionSize : ℕ := 1024

structure TypeTreeSchemaKey where
  serializedFileVersion : UInt32
  unityVersion : Text
  classId : Int32
  serializedTypeId : Int32
  scriptTypeIndex : UInt16
  hasScriptIdHash : Bool
  isStripped : Bool
  isRefType : Bool
  scriptIdHash : Bytes16
  typeHash : Bytes16
deriving DecidableEq, Repr

def bytesAreZero (bytes : Text) : Bool := bytes.all (· == 0)

/-- Returns the key itself, no longer a pointer that may be NULL. -/
def validateKey (key : Option TypeTreeSchemaKey) :
    Except TypeTreeSchemaStatus TypeTreeSchemaKey :=
  match key with
  | none => .error .invalidArgument
  | some key =>
      if key.unityVersion = [] then .error .invalidArgument
      else if maxUnityVersionSize < key.unityVersion.length then .error .limitExceeded
      else if (0 : UInt8) ∈ key.unityVersion then .error .invalidArgument
      else if !key.hasScriptIdHash && !bytesAreZero key.scriptIdHash.bytes then
        .error .invalidArgument
      else .ok key

/-! ## The order of keys -/

/-- The first differing byte of two blocks of one length decides. -/
def memcmp : Text → Text → Ordering
  | a :: as, b :: bs =>
      match compare a b with
      | .eq => memcmp as bs
      | order => order
  | _, _ => .eq

def compareByteStrings (left right : Text) : Ordering :=
  let common := min left.length right.length
  match memcmp (left.take common) (right.take common) with
  | .eq => compare left.length right.length
  | order => order

def compareKeys (left right : TypeTreeSchemaKey) : Ordering :=
  (compare left.serializedFileVersion right.serializedFileVersion).then <|
  (compareByteStrings left.unityVersion right.unityVersion).then <|
  (compare left.classId right.classId).then <|
  (compare left.serializedTypeId right.serializedTypeId).then <|
  (compare left.scriptTypeIndex right.scriptTypeIndex).then <|
  (compare left.hasScriptIdHash right.hasScriptIdHash).then <|
  (compare left.isStripped right.isStripped).then <|
  (compare left.isRefType right.isRefType).then <|
  (memcmp left.scriptIdHash.bytes right.scriptIdHash.bytes).then <|
  memcmp left.typeHash.bytes right.typeHash.bytes

/-- On blocks of one length `memcmp` is the lexicographic order. -/
theorem memcmp_eq_compare : ∀ {left right : Text}, left.length = right.length →
    memcmp left right = compare left right
  | [], [], _ => rfl
  | a :: as, b :: bs, h => by
      rw [memcmp, List.compare_cons_cons, memcmp_eq_compare (by simpa using h)]
      cases compare a b <;> rfl

/-- The length decides where one string continues the other. -/
theorem compareByteStrings_eq_compare : ∀ left right : Text,
    compareByteStrings left right = compare left right
  | [], [] => rfl
  | [], _ :: _ => by simp [compareByteStrings, memcmp, List.compare_nil_cons, Nat.compare_eq_lt]
  | _ :: _, [] => by simp [compareByteStrings, memcmp, List.compare_cons_nil, Nat.compare_eq_gt]
  | a :: as, b :: bs => by
      have ih := compareByteStrings_eq_compare as bs
      rw [List.compare_cons_cons, ← ih]
      simp only [compareByteStrings, List.length_cons, Nat.succ_min_succ, List.take_succ_cons,
        memcmp]
      have hlength : compare (as.length + 1) (bs.length + 1) = compare as.length bs.length := by
        simp [Nat.compare_eq_ite_lt]
      cases compare a b with
      | lt => rfl
      | gt => rfl
      | eq => simp only [hlength, Ordering.eq_then]

theorem compareKeys_eq (left right : TypeTreeSchemaKey) :
    compareKeys left right =
      compareLex (compareOn (·.serializedFileVersion)) (compareLex (compareOn (·.unityVersion))
        (compareLex (compareOn (·.classId)) (compareLex (compareOn (·.serializedTypeId))
          (compareLex (compareOn (·.scriptTypeIndex)) (compareLex (compareOn (·.hasScriptIdHash))
            (compareLex (compareOn (·.isStripped)) (compareLex (compareOn (·.isRefType))
              (compareLex (compareOn (·.scriptIdHash.bytes))
                (compareOn (·.typeHash.bytes)))))))))) left right := by
  have hscript := left.scriptIdHash.length_eq.trans right.scriptIdHash.length_eq.symm
  have htype := left.typeHash.length_eq.trans right.typeHash.length_eq.symm
  rw [compareKeys, compareByteStrings_eq_compare, memcmp_eq_compare hscript,
    memcmp_eq_compare htype]
  rfl

instance : Std.TransCmp compareKeys := by
  have h : compareKeys = _ := funext fun left => funext fun right => compareKeys_eq left right
  rw [h]
  infer_instance

/-- **Only equal keys compare equal.** -/
instance : Std.LawfulEqCmp compareKeys where
  compare_self := Std.ReflCmp.compare_self
  eq_of_compare {left right} h := by
    have hscript := left.scriptIdHash.length_eq.trans right.scriptIdHash.length_eq.symm
    have htype := left.typeHash.length_eq.trans right.typeHash.length_eq.symm
    simp only [compareKeys, compareByteStrings_eq_compare, memcmp_eq_compare hscript,
      memcmp_eq_compare htype, Ordering.then_eq_eq, Std.LawfulEqOrd.compare_eq_iff_eq] at h
    obtain ⟨h₁, h₂, h₃, h₄, h₅, h₆, h₇, h₈, h₉, h₁₀⟩ := h
    have hscriptEq := Bytes16.ext_bytes h₉
    have htypeEq := Bytes16.ext_bytes h₁₀
    cases left
    cases right
    simp_all

/-! ## The key of a type record -/

/-- `serialized_type_v22_hash_shape`: whether the record carries a script hash,
if the class and the signed index are in the grammar at all. -/
def serializedTypeV22HashShape (classIdBits : UInt32) (scriptIndexBits : UInt16) :
    Option Bool :=
  let negativeIndex := scriptIndexBits &&& 0x8000 != 0
  if classIdBits == 0xffffffff && negativeIndex then none
  else some (classIdBits == 114 || !negativeIndex)

/-- The two engine versions whose physical type records are known exactly. -/
def exactPhysicalType (serializedFileVersion : UInt32) (unityVersion : Text) : Bool :=
  serializedFileVersion == 22 &&
    (unityVersion == ascii "2021.3.35f1" || unityVersion == ascii "2021.3.29f1")

/-- Whether a record carries a script hash. Other physical and engine versions
retain their separate policy. -/
def recordHasScriptHash (serializedFileVersion : UInt32) (unityVersion : Text)
    (type : TypeTreeType) : Option Bool :=
  if exactPhysicalType serializedFileVersion unityVersion then
    serializedTypeV22HashShape type.typeId.toUInt32 type.scriptTypeIndex
  else
    some ((serializedFileVersion < 17 && type.typeId < 0) ||
      (17 ≤ serializedFileVersion && type.typeId == 114) ||
      (type.isRefType && type.scriptTypeIndex != 0xffff))

def typetreeSchemaKeyFromType (serializedFileVersion : UInt32) (unityVersion : Option CString)
    (classId : Int32) (type : TypeTreeType) :
    Except TypeTreeSchemaStatus TypeTreeSchemaKey :=
  match unityVersion with
  | none => .error .invalidArgument
  | some version =>
      if maxUnityVersionSize < version.bytes.length ∨ version.bytes = [] then
        .error .invalidArgument
      else
        match recordHasScriptHash serializedFileVersion version.bytes type with
        | none => .error .invalidSchema
        | some hasScriptIdHash => validateKey (some {
            serializedFileVersion
            unityVersion := version.bytes
            classId
            serializedTypeId := type.typeId
            scriptTypeIndex := type.scriptTypeIndex
            hasScriptIdHash
            isStripped := type.isStripped
            isRefType := type.isRefType
            scriptIdHash := if hasScriptIdHash then type.scriptIdHash else .zero
            typeHash := type.typeHash })

end UnityCommon.Registry
