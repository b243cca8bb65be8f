import UnityCommon.Lib.Bytes
import UnityCommon.TypeTree.Validate

/-!
# Decoded values

`TypeTreeValue` with its accessors and its digest. An array is either expanded,
with one value for each element, or packed, with one byte for each element; an
empty array has NULL storage in both forms. `expand` reads a packed array as the
elements the parser would have stored, and every accessor and the digest answer
alike on both forms.
-/

namespace UnityCommon.TypeTree

/-- The two borrowed names every value carries. -/
structure ValueNames where
  name : Option CString
  typeStr : Option CString
deriving DecidableEq, Repr

/-- `integer_is_unsigned` belongs to the integers; no other kind reads it. The
64 bits are `int_val` or `uint_val`, and the bits of the `double` of a float. -/
inductive TypeTreeValue where
  | int (names : ValueNames) (isUnsigned : Bool) (bits : UInt64)
  | float (names : ValueNames) (bits : UInt64)
  | string (names : ValueNames) (bytes : Text)
  | array (names : ValueNames) (elements : List TypeTreeValue)
  | packed (names : ValueNames) (bytes : Text) (owned : Bool)
  | struct (names : ValueNames) (members : List TypeTreeValue)
  | none (names : ValueNames)
deriving Repr

def TypeTreeValue.names : TypeTreeValue → ValueNames
  | .int names _ _ => names
  | .float names _ => names
  | .string names _ => names
  | .array names _ => names
  | .packed names _ _ => names
  | .struct names _ => names
  | .none names => names

/-! ## Packed arrays as elements -/

/-- The element a packed byte stands for. -/
def byteElement (byte : UInt8) : TypeTreeValue :=
  .int ⟨some (cstr "data"), some (cstr "UInt8")⟩ true byte.toUInt64

mutual
def expand : TypeTreeValue → TypeTreeValue
  | .packed names bytes _ => .array names (bytes.map byteElement)
  | .array names elements => .array names (expandAll elements)
  | .struct names members => .struct names (expandAll members)
  | .int names isUnsigned bits => .int names isUnsigned bits
  | .float names bits => .float names bits
  | .string names bytes => .string names bytes
  | .none names => .none names

def expandAll : List TypeTreeValue → List TypeTreeValue
  | [] => []
  | value :: values => expand value :: expandAll values
end

theorem expandAll_eq_map : ∀ values : List TypeTreeValue,
    expandAll values = values.map expand
  | [] => rfl
  | value :: values => by rw [expandAll, expandAll_eq_map values, List.map_cons]

@[simp] theorem expand_names : ∀ value : TypeTreeValue, (expand value).names = value.names := by
  intro value
  cases value <;> rfl

/-! ## Accessors -/

def isArray : TypeTreeValue → Bool
  | .array _ _ => true
  | .packed _ _ _ => true
  | _ => false

mutual
/-- `typetree_get_array`; its recursion into `data` follows the members. -/
def typetreeGetArray : TypeTreeValue → Option TypeTreeValue
  | .array names elements => some (.array names elements)
  | .packed names bytes owned => some (.packed names bytes owned)
  | .struct _ members =>
      match members.find? (fun member => textIs member.names.name "Array") with
      | some found => if isArray found then some found else arrayOfData members
      | Option.none => arrayOfData members
  | _ => Option.none

/-- `typetree_get_array` of the first member named `data`. -/
def arrayOfData : List TypeTreeValue → Option TypeTreeValue
  | [] => Option.none
  | member :: members =>
      if textIs member.names.name "data" then typetreeGetArray member else arrayOfData members
end

def int64Max : UInt64 := 0x7fffffffffffffff

def typetreeValueGetInt : TypeTreeValue → Option Int64
  | .int _ isUnsigned bits => if isUnsigned ∧ int64Max < bits then Option.none else some bits.toInt64
  | _ => Option.none

def typetreeValueGetUint : TypeTreeValue → Option UInt64
  | .int _ isUnsigned bits =>
      if isUnsigned then some bits else if bits.toInt64 < 0 then Option.none else some bits
  | _ => Option.none

/-- `typetree_array_get_int`. -/
def typetreeArrayGetInt (value : TypeTreeValue) (index : ℤ) : Option Int64 :=
  match typetreeGetArray value with
  | some (.packed _ bytes _) =>
      if index < 0 then Option.none else bytes[index.toNat]?.map (·.toUInt64.toInt64)
  | some (.array _ elements) =>
      if index < 0 then Option.none else elements[index.toNat]?.bind typetreeValueGetInt
  | _ => Option.none

def typetreeArrayGetUint (value : TypeTreeValue) (index : ℤ) : Option UInt64 :=
  match typetreeGetArray value with
  | some (.packed _ bytes _) =>
      if index < 0 then Option.none else bytes[index.toNat]?.map (·.toUInt64)
  | some (.array _ elements) =>
      if index < 0 then Option.none else elements[index.toNat]?.bind typetreeValueGetUint
  | _ => Option.none

/-- One round of the element loop of `typetree_array_copy_bytes`. -/
def elementByte (element : TypeTreeValue) : Option UInt8 :=
  match typetreeValueGetUint element with
  | some byte => if 255 < byte then Option.none else some byte.toUInt8
  | Option.none => Option.none

/-- `typetree_array_copy_bytes` into a destination that exists: the copied
bytes. -/
def typetreeArrayCopyBytes (value : TypeTreeValue) (offset count : ℕ) : Option Text :=
  match typetreeGetArray value with
  | some (.packed _ bytes _) =>
      if bytes.length < offset ∨ bytes.length - offset < count then Option.none
      else some ((bytes.drop offset).take count)
  | some (.array _ elements) =>
      if elements.length < offset ∨ elements.length - offset < count then Option.none
      else ((elements.drop offset).take count).mapM elementByte
  | _ => Option.none

/-! ## The digest -/

def maxNodes : ℕ := 1048576
def maxDepth : ℕ := 256
def maxString : ℕ := 16777216

/-- What the digest has fed to SHA-256 so far, with `remaining_nodes`. -/
structure Digesting where
  fed : Text
  remainingNodes : ℕ
deriving DecidableEq, Repr

def feed (digest : Digesting) (bytes : Text) : Digesting :=
  { digest with fed := digest.fed ++ bytes }

def hashWord (digest : Digesting) (value : ℕ) : Digesting :=
  feed digest (Bytes.toLE 8 value)

def hashString (digest : Digesting) (text : Text) : Option Digesting :=
  if maxString < text.length then Option.none
  else some (feed (hashWord digest text.length) text)

def hashName (digest : Digesting) (text : Option CString) : Option Digesting :=
  text.bind fun t => hashString digest t.bytes

/-- `expanded_bytes`: every element is an unsigned `UInt8` below 256. -/
def expandedBytes (elements : List TypeTreeValue) : Bool :=
  elements.all fun
    | .int names isUnsigned bits =>
        isUnsigned && decide (bits ≤ 255) && names.name.isSome && textIs names.typeStr "UInt8"
    | _ => false

/-- The byte the expanded branch feeds for an element. -/
def lowByte : TypeTreeValue → UInt8
  | .int _ _ bits => bits.toUInt8
  | _ => 0

/-- The value kinds in the order of the source's `ValueType`. -/
def valueTypeCode : TypeTreeValue → ℕ
  | .int _ _ _ => 0
  | .float _ _ => 1
  | .string _ _ => 2
  | .array _ _ => 3
  | .packed _ _ _ => 3
  | .struct _ _ => 4
  | .none _ => 5

/-- The part of `hash_value` before its `switch`. -/
def hashHeader (digest : Digesting) (value : TypeTreeValue) (depth : ℕ) : Option Digesting :=
  if maxDepth ≤ depth ∨ digest.remainingNodes = 0 then Option.none
  else
    let digest := { digest with remainingNodes := digest.remainingNodes - 1 }
    (hashName (hashWord digest (valueTypeCode value)) value.names.name).bind fun digest =>
      hashName digest value.names.typeStr

/-- The array header words and, for a byte array, its bytes. -/
def hashBytes (digest : Digesting) (bytes : Text) : Digesting :=
  let digest := hashWord (hashWord digest bytes.length) 1
  feed { digest with remainingNodes := digest.remainingNodes - bytes.length } bytes

mutual
def hashValue (digest : Digesting) (value : TypeTreeValue) (depth : ℕ) : Option Digesting :=
  match hashHeader digest value depth, value with
  | Option.none, _ => Option.none
  | some digest, .int _ isUnsigned bits =>
      some (hashWord (hashWord digest isUnsigned.toNat) bits.toNat)
  | some digest, .float _ bits => some (hashWord digest bits.toNat)
  | some digest, .string _ bytes =>
      -- the hashed text ends at the first NUL, and must be the whole string
      (hashString digest (bytes.takeWhile (· ≠ 0))).bind fun digest =>
        if (bytes.takeWhile (· ≠ 0)).length = bytes.length then some digest else Option.none
  | some digest, .struct _ members =>
      if digest.remainingNodes < members.length then Option.none
      else hashValues (hashWord digest members.length) members (depth + 1)
  | some digest, .packed _ bytes _ =>
      if digest.remainingNodes < bytes.length then Option.none
      else some (hashBytes digest bytes)
  | some digest, .array _ elements =>
      if digest.remainingNodes < elements.length then Option.none
      else if expandedBytes elements then some (hashBytes digest (elements.map lowByte))
      else hashValues (hashWord (hashWord digest elements.length) 0) elements (depth + 1)
  | some digest, .none _ => some digest

def hashValues (digest : Digesting) (values : List TypeTreeValue) (depth : ℕ) :
    Option Digesting :=
  match values with
  | [] => some digest
  | value :: values =>
      (hashValue digest value depth).bind fun digest => hashValues digest values depth
end

/-- The domain tag, with the terminator `sizeof` counts. -/
def digestDomain : Text := ascii "UnityCommon.OrderedTypeTreeValue.v1" ++ [0]

/-- `typetree_value_digest` over any hash function of the fed bytes. -/
def typetreeValueDigest {δ : Type*} (sha256 : Text → δ) (value : TypeTreeValue) : Option δ :=
  (hashValue ⟨digestDomain, maxNodes⟩ value 0).map fun digest => sha256 digest.fed

end UnityCommon.TypeTree
