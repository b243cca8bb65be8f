import Mathlib.Algebra.Order.Ring.Nat
import Mathlib.Tactic.Ring

/-!
# Numbers as bytes

A fixed-width number as bytes, least significant byte first or last. The two
directions are mutually inverse on the width they agree on.
-/

namespace Bytes

def ofLE : List UInt8 → ℕ
  | [] => 0
  | b :: bs => b.toNat + 256 * ofLE bs

def toLE : ℕ → ℕ → List UInt8
  | 0, _ => []
  | width + 1, n => n.toUInt8 :: toLE width (n / 256)

def ofBE (bs : List UInt8) : ℕ := ofLE bs.reverse

def toBE (width n : ℕ) : List UInt8 := (toLE width n).reverse

@[simp] theorem length_toLE : ∀ width n, (toLE width n).length = width
  | 0, _ => rfl
  | width + 1, n => by rw [toLE, List.length_cons, length_toLE]

@[simp] theorem length_toBE (width n : ℕ) : (toBE width n).length = width := by
  simp [toBE]

theorem ofLE_lt : ∀ bs : List UInt8, ofLE bs < 256 ^ bs.length
  | [] => by simp [ofLE]
  | b :: bs => by
      have h := ofLE_lt bs
      have hb := b.toNat_lt
      rw [ofLE, List.length_cons, pow_succ]
      omega

/-- **Reading back what was written.** -/
theorem ofLE_toLE : ∀ {width n : ℕ}, n < 256 ^ width → ofLE (toLE width n) = n
  | 0, n, h => by
      rw [pow_zero, Nat.lt_one_iff] at h
      rw [toLE, ofLE, h]
  | width + 1, n, h => by
      have hdiv : n / 256 < 256 ^ width := by
        rw [pow_succ] at h
        omega
      rw [toLE, ofLE, ofLE_toLE hdiv, Nat.toUInt8, UInt8.toNat_ofNat']
      omega

/-- **Writing back what was read.** -/
theorem toLE_ofLE : ∀ bs : List UInt8, toLE bs.length (ofLE bs) = bs
  | [] => rfl
  | b :: bs => by
      have hb := b.toNat_lt
      have hlow : (b.toNat + 256 * ofLE bs).toUInt8 = b := by
        rw [Nat.toUInt8, ← UInt8.toNat_inj, UInt8.toNat_ofNat']
        omega
      have hhigh : (b.toNat + 256 * ofLE bs) / 256 = ofLE bs := by omega
      rw [List.length_cons, ofLE, toLE, hlow, hhigh, toLE_ofLE bs]

theorem toBE_ofBE (bs : List UInt8) : toBE bs.length (ofBE bs) = bs := by
  have h := toLE_ofLE bs.reverse
  rw [List.length_reverse] at h
  rw [toBE, ofBE, h, List.reverse_reverse]

theorem ofBE_lt (bs : List UInt8) : ofBE bs < 256 ^ bs.length := by
  have h := ofLE_lt bs.reverse
  rw [List.length_reverse] at h
  exact h

end Bytes
