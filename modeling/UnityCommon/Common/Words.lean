import UnityCommon.Common.Text
import UnityCommon.Lib.Bytes

/-!
# Words as bytes

Fixed-width words in the two byte orders, as the writers store them and the
readers load them.
-/

namespace UnityCommon

def storeLe16 (value : UInt16) : Text := Bytes.toLE 2 value.toNat

def storeLe32 (value : UInt32) : Text := Bytes.toLE 4 value.toNat

def storeLe64 (value : UInt64) : Text := Bytes.toLE 8 value.toNat

def loadLe16 (bytes : Text) : UInt16 := (Bytes.ofLE bytes).toUInt16

def loadLe32 (bytes : Text) : UInt32 := (Bytes.ofLE bytes).toUInt32

def loadLe64 (bytes : Text) : UInt64 := (Bytes.ofLE bytes).toUInt64

@[simp] theorem length_storeLe16 (value : UInt16) : (storeLe16 value).length = 2 :=
  Bytes.length_toLE 2 _

@[simp] theorem length_storeLe32 (value : UInt32) : (storeLe32 value).length = 4 :=
  Bytes.length_toLE 4 _

@[simp] theorem length_storeLe64 (value : UInt64) : (storeLe64 value).length = 8 :=
  Bytes.length_toLE 8 _

@[simp] theorem loadLe16_store (value : UInt16) : loadLe16 (storeLe16 value) = value := by
  rw [loadLe16, storeLe16, Bytes.ofLE_toLE (by exact value.toNat_lt)]
  simp

@[simp] theorem loadLe32_store (value : UInt32) : loadLe32 (storeLe32 value) = value := by
  rw [loadLe32, storeLe32, Bytes.ofLE_toLE (by exact value.toNat_lt)]
  simp

@[simp] theorem loadLe64_store (value : UInt64) : loadLe64 (storeLe64 value) = value := by
  rw [loadLe64, storeLe64, Bytes.ofLE_toLE (by exact value.toNat_lt)]
  simp

theorem storeLe16_load {bytes : Text} (h : bytes.length = 2) :
    storeLe16 (loadLe16 bytes) = bytes := by
  have hlt := Bytes.ofLE_lt bytes
  rw [h] at hlt
  have hnat : (loadLe16 bytes).toNat = Bytes.ofLE bytes := by
    rw [loadLe16, Nat.toUInt16, UInt16.toNat_ofNat']
    exact Nat.mod_eq_of_lt hlt
  rw [storeLe16, hnat, ← h, Bytes.toLE_ofLE]

theorem storeLe32_load {bytes : Text} (h : bytes.length = 4) :
    storeLe32 (loadLe32 bytes) = bytes := by
  have hlt := Bytes.ofLE_lt bytes
  rw [h] at hlt
  have hnat : (loadLe32 bytes).toNat = Bytes.ofLE bytes := by
    rw [loadLe32, Nat.toUInt32, UInt32.toNat_ofNat']
    exact Nat.mod_eq_of_lt hlt
  rw [storeLe32, hnat, ← h, Bytes.toLE_ofLE]

theorem storeLe64_load {bytes : Text} (h : bytes.length = 8) :
    storeLe64 (loadLe64 bytes) = bytes := by
  have hlt := Bytes.ofLE_lt bytes
  rw [h] at hlt
  have hnat : (loadLe64 bytes).toNat = Bytes.ofLE bytes := by
    rw [loadLe64, Nat.toUInt64, UInt64.toNat_ofNat']
    exact Nat.mod_eq_of_lt hlt
  rw [storeLe64, hnat, ← h, Bytes.toLE_ofLE]

/-! ## Big endian -/

def storeBe16 (value : UInt16) : Text := Bytes.toBE 2 value.toNat

def storeBe32 (value : UInt32) : Text := Bytes.toBE 4 value.toNat

def storeBe64 (value : UInt64) : Text := Bytes.toBE 8 value.toNat

end UnityCommon
