import Mathlib.Algebra.Order.Ring.Nat
import Mathlib.Data.List.TakeWhile

/-!
# Byte texts and C strings

Every text of the repository is a byte string. `Text` is the bytes before the
terminator; `CString` adds the fact that none of them is the terminator, so a
`const char*` argument is modelled by exactly the values it can take.
-/

namespace UnityCommon

abbrev Text := List UInt8

/-- The bytes of an ASCII literal of the source. -/
def ascii (s : String) : Text := s.toList.map fun c => c.toNat.toUInt8

structure CString where
  bytes : Text
  noNul : (0 : UInt8) ∉ bytes
deriving DecidableEq, Repr

/-- A literal of the source as a C string (no literal used here contains NUL). -/
def cstr (s : String) : CString :=
  ⟨(ascii s).filter (· ≠ 0), by simp⟩

theorem CString.ext_bytes {a b : CString} (h : a.bytes = b.bytes) : a = b := by
  cases a; cases b; cases h; rfl

/-- The C string that starts at the head of the bytes. -/
def cstringAt (bytes : Text) : CString where
  bytes := bytes.takeWhile (· != 0)
  noNul h := by
    have := List.mem_takeWhile_imp h
    simp at this

/-- A fixed `uint8_t[16]`: a hash or a GUID. -/
structure Bytes16 where
  bytes : Text
  length_eq : bytes.length = 16
deriving DecidableEq, Repr

def Bytes16.zero : Bytes16 := ⟨List.replicate 16 0, by simp⟩

theorem Bytes16.ext_bytes {a b : Bytes16} (h : a.bytes = b.bytes) : a = b := by
  cases a; cases b; cases h; rfl

/-- A SHA-256 digest, `COMMON_SHA256_DIGEST_SIZE` bytes. -/
structure Sha256Digest where
  bytes : Text
  length_eq : bytes.length = 32
deriving DecidableEq, Repr

end UnityCommon
