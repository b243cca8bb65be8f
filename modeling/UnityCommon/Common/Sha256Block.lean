import UnityCommon.Common.Sha256
import UnityCommon.Lib.Sha256
import Mathlib.Data.List.GetD

/-!
# One block of the portable SHA-256

The transformation is the compression function of the standard: shifts are
rotations, the words are the message schedule, and the table of constants holds
the fractions of cube roots.
-/

namespace UnityCommon.Portable

/-! ## Words -/

theorem rotateRight_eq (x : UInt32) {n : ℕ} (hpos : 0 < n) (hlt : n < 32) :
    rotateRight x (UInt32.ofNat n) = Sha256.rotr n x := by
  have hn : (UInt32.ofNat n).toNat = n := by
    rw [UInt32.toNat_ofNat']
    omega
  have hsub : (32 - UInt32.ofNat n).toNat = 32 - n := by
    rw [UInt32.toNat_sub, hn]
    show (2 ^ 32 - n + 32) % 2 ^ 32 = 32 - n
    omega
  apply UInt32.toNat_inj.mp
  rw [rotateRight, Sha256.rotr, UInt32.toNat_or, UInt32.toNat_shiftRight, UInt32.toNat_shiftLeft,
    hn, hsub]
  show _ = (x.toBitVec.rotateRight n).toNat
  rw [BitVec.rotateRight_def, BitVec.toNat_or, BitVec.toNat_ushiftRight, BitVec.toNat_shiftLeft,
    Nat.mod_eq_of_lt hlt, Nat.mod_eq_of_lt (by omega : 32 - n < 32)]
  rfl

theorem shiftRight_eq (x : UInt32) {n : ℕ} (hlt : n < 32) :
    x >>> (UInt32.ofNat n) = Sha256.shr n x := by
  have hn : (UInt32.ofNat n).toNat = n := by
    rw [UInt32.toNat_ofNat']
    omega
  apply UInt32.toNat_inj.mp
  rw [UInt32.toNat_shiftRight, hn, Nat.mod_eq_of_lt hlt, Sha256.shr]
  exact (BitVec.toNat_ushiftRight x.toBitVec n).symm

theorem smallSigma0_eq (x : UInt32) :
    rotateRight x 7 ^^^ rotateRight x 18 ^^^ (x >>> 3) = Sha256.smallSigma0 x := by
  rw [Sha256.smallSigma0, ← rotateRight_eq x (by decide) (by decide),
    ← rotateRight_eq x (by decide) (by decide), ← shiftRight_eq x (by decide)]
  rfl

theorem smallSigma1_eq (x : UInt32) :
    rotateRight x 17 ^^^ rotateRight x 19 ^^^ (x >>> 10) = Sha256.smallSigma1 x := by
  rw [Sha256.smallSigma1, ← rotateRight_eq x (by decide) (by decide),
    ← rotateRight_eq x (by decide) (by decide), ← shiftRight_eq x (by decide)]
  rfl

theorem bigSigma0_eq (x : UInt32) :
    rotateRight x 2 ^^^ rotateRight x 13 ^^^ rotateRight x 22 = Sha256.bigSigma0 x := by
  rw [Sha256.bigSigma0, ← rotateRight_eq x (by decide) (by decide),
    ← rotateRight_eq x (by decide) (by decide), ← rotateRight_eq x (by decide) (by decide)]
  rfl

theorem bigSigma1_eq (x : UInt32) :
    rotateRight x 6 ^^^ rotateRight x 11 ^^^ rotateRight x 25 = Sha256.bigSigma1 x := by
  rw [Sha256.bigSigma1, ← rotateRight_eq x (by decide) (by decide),
    ← rotateRight_eq x (by decide) (by decide), ← rotateRight_eq x (by decide) (by decide)]
  rfl

/-- Four bytes, the first one on top. -/
theorem loadBe32_eq (a b c d : UInt8) (rest : Text) :
    loadBe32 (a :: b :: c :: d :: rest) = UInt32.ofNat (Bytes.ofBE [a, b, c, d]) := by
  have ha := a.toNat_lt
  have hb := b.toNat_lt
  have hc := c.toNat_lt
  have hd := d.toNat_lt
  have hvalue : Bytes.ofBE [a, b, c, d] =
      a.toNat * 2 ^ 24 + (b.toNat * 2 ^ 16 + (c.toNat * 2 ^ 8 + d.toNat)) := by
    simp only [Bytes.ofBE, Bytes.ofLE, List.reverse_cons, List.reverse_nil, List.nil_append,
      List.cons_append]
    omega
  have hlow : c.toNat <<< 8 ||| d.toNat = c.toNat * 2 ^ 8 + d.toNat := by
    rw [← Nat.shiftLeft_add_eq_or_of_lt hd, Nat.shiftLeft_eq]
  have hmiddle : b.toNat <<< 16 ||| (c.toNat * 2 ^ 8 + d.toNat) =
      b.toNat * 2 ^ 16 + (c.toNat * 2 ^ 8 + d.toNat) := by
    rw [← Nat.shiftLeft_add_eq_or_of_lt (by omega), Nat.shiftLeft_eq]
  have hhigh : a.toNat <<< 24 ||| (b.toNat * 2 ^ 16 + (c.toNat * 2 ^ 8 + d.toNat)) =
      a.toNat * 2 ^ 24 + (b.toNat * 2 ^ 16 + (c.toNat * 2 ^ 8 + d.toNat)) := by
    rw [← Nat.shiftLeft_add_eq_or_of_lt (by omega), Nat.shiftLeft_eq]
  have hshift : ∀ (byte : UInt8) (count : UInt32), count.toNat ≤ 24 →
      (byte.toUInt32 <<< count).toNat = byte.toNat <<< count.toNat := by
    intro byte count hcount
    have hbyte := byte.toNat_lt
    have hpow : 2 ^ count.toNat ≤ 2 ^ 24 := Nat.pow_le_pow_right (by decide) hcount
    rw [UInt32.toNat_shiftLeft, UInt8.toNat_toUInt32, Nat.mod_eq_of_lt (by omega : _ < 32)]
    refine Nat.mod_eq_of_lt ?_
    rw [Nat.shiftLeft_eq]
    calc byte.toNat * 2 ^ count.toNat ≤ 255 * 2 ^ 24 := Nat.mul_le_mul (by omega) hpow
      _ < 2 ^ 32 := by decide
  apply UInt32.toNat_inj.mp
  show ((a.toUInt32 <<< 24) ||| (b.toUInt32 <<< 16) ||| (c.toUInt32 <<< 8) |||
    d.toUInt32).toNat = _
  rw [UInt32.toNat_or, UInt32.toNat_or, UInt32.toNat_or, hshift a 24 (by decide),
    hshift b 16 (by decide), hshift c 8 (by decide), UInt8.toNat_toUInt32, UInt32.toNat_ofNat',
    hvalue, Nat.or_assoc, Nat.or_assoc]
  show a.toNat <<< 24 ||| (b.toNat <<< 16 ||| (c.toNat <<< 8 ||| d.toNat)) = _
  rw [hlow, hmiddle, hhigh]
  omega

theorem storeBe32_eq (value : UInt32) : storeBe32 value = Bytes.toBE 4 value.toNat := by
  have hbyte : ∀ count : UInt32, count.toNat < 32 →
      (value >>> count).toUInt8 = (value.toNat / 2 ^ count.toNat).toUInt8 := by
    intro count hcount
    apply UInt8.toNat_inj.mp
    rw [UInt32.toNat_toUInt8, UInt32.toNat_shiftRight, Nat.mod_eq_of_lt hcount,
      Nat.shiftRight_eq_div_pow, Nat.toUInt8, UInt8.toNat_ofNat']
  have hlast : value.toUInt8 = value.toNat.toUInt8 := by
    apply UInt8.toNat_inj.mp
    rw [UInt32.toNat_toUInt8, Nat.toUInt8, UInt8.toNat_ofNat']
  rw [storeBe32, hbyte 24 (by decide), hbyte 16 (by decide), hbyte 8 (by decide), hlast]
  simp only [Bytes.toBE, Bytes.toLE, List.reverse_cons, List.reverse_nil, List.nil_append,
    List.cons_append, Nat.div_div_eq_div_mul]
  rfl

theorem storeBe64_eq (value : UInt64) : storeBe64 value = Bytes.toBE 8 value.toNat := by
  have hbyte : ∀ i, i < 8 →
      (value >>> UInt64.ofNat (i * 8)).toUInt8 = (value.toNat / 2 ^ (i * 8)).toUInt8 := by
    intro i hi
    have hcount : (UInt64.ofNat (i * 8)).toNat = i * 8 := by
      rw [UInt64.toNat_ofNat']
      omega
    apply UInt8.toNat_inj.mp
    rw [UInt64.toNat_toUInt8, UInt64.toNat_shiftRight, hcount,
      Nat.mod_eq_of_lt (by omega : i * 8 < 64),
      Nat.shiftRight_eq_div_pow, Nat.toUInt8, UInt8.toNat_ofNat']
  have hmap : storeBe64 value =
      (List.range 8).reverse.map fun i => (value.toNat / 2 ^ (i * 8)).toUInt8 := by
    refine List.map_congr_left fun i hi => hbyte i ?_
    exact List.mem_range.mp (List.mem_reverse.mp hi)
  rw [hmap]
  simp only [Bytes.toBE, Bytes.toLE, List.reverse_cons, List.reverse_nil, List.nil_append,
    List.cons_append, Nat.div_div_eq_div_mul]
  simp [List.range_succ]

/-! ## The message schedule -/

theorem blockWord_eq (block : Sha256Block) {i : ℕ} (hi : i < 16) :
    loadBe32 (block.toList.drop (i * 4)) = Sha256.blockWord block.toList i := by
  have hlength : 4 ≤ (block.toList.drop (i * 4)).length := by
    rw [List.length_drop, Vector.length_toList]
    omega
  rw [Sha256.blockWord, Nat.mul_comm 4 i]
  match block.toList.drop (i * 4), hlength with
  | a :: b :: c :: d :: rest, _ => exact loadBe32_eq a b c d rest

/-- The words that are there are those of the schedule. -/
def Scheduled (block : Sha256Block) (words : List UInt32) : Prop :=
  ∀ t < words.length, words.getD t 0 = Sha256.schedule block.toList t

theorem scheduled_loadWords (block : Sha256Block) : Scheduled block (loadWords block) := by
  intro t ht
  have hinput : t < 16 := by simpa [loadWords] using ht
  rw [Sha256.schedule, dif_pos hinput, ← blockWord_eq block hinput, List.getD_eq_getElem _ _ ht]
  simp [loadWords]

theorem Scheduled.nextWord {block : Sha256Block} {words : List UInt32} (h : Scheduled block words)
    (hlength : 16 ≤ words.length) : Scheduled block (words ++ [nextWord words]) := by
  intro t ht
  rw [List.length_append, List.length_singleton] at ht
  by_cases hold : t < words.length
  · rw [List.getD_append _ _ _ _ hold]
    exact h t hold
  · obtain rfl : t = words.length := by omega
    rw [List.getD_append_right _ _ _ _ le_rfl, Nat.sub_self, List.getD_cons_zero, Portable.nextWord,
      Sha256.schedule, dif_neg (by omega)]
    rw [smallSigma0_eq, smallSigma1_eq, h _ (by omega), h _ (by omega), h _ (by omega),
      h _ (by omega)]
    -- the summands stand in another order
    ac_rfl

theorem scheduled_extendWords {block : Sha256Block} (count : ℕ) {words : List UInt32}
    (h : Scheduled block words) (hlength : 16 ≤ words.length) :
    Scheduled block (extendWords count words) ∧
      (extendWords count words).length = words.length + count := by
  induction count generalizing words with
  | zero => exact ⟨h, rfl⟩
  | succ count ih =>
      have hnext := ih (h.nextWord hlength) (by rw [List.length_append]; omega)
      refine ⟨hnext.1, hnext.2.trans ?_⟩
      rw [List.length_append, List.length_singleton]
      omega

/-- **The words of a block are its message schedule.** -/
theorem extendWords_eq (block : Sha256Block) :
    extendWords 48 (loadWords block) = (List.range 64).map (Sha256.schedule block.toList) := by
  have hload : (loadWords block).length = 16 := by simp [loadWords]
  obtain ⟨hscheduled, hlength⟩ :=
    scheduled_extendWords 48 (scheduled_loadWords block) (Nat.le_of_eq hload.symm)
  rw [hload] at hlength
  refine List.ext_getElem (by simpa using hlength) fun t ht _ => ?_
  rw [List.getElem_map, List.getElem_range, ← hscheduled t ht, List.getD_eq_getElem _ _ ht]

/-! ## The compression -/

/-- The table of the source holds the constants of the standard. -/
theorem sha256Constants_eq : sha256Constants.toList = Sha256.constants := by decide +kernel

def Sha256Locals.registers (l : Sha256Locals) : Sha256.Registers :=
  ⟨l.a, l.b, l.c, l.d, l.e, l.f, l.g, l.h⟩

def registersOf (state : Sha256State) : Sha256.Registers := (Sha256Locals.ofState state).registers

theorem registersOf_initialState : registersOf initialState = Sha256.initial := by decide +kernel

theorem registers_round (l : Sha256Locals) (k w : UInt32) :
    (l.round (k, w)).registers = Sha256.round k w l.registers := by
  simp only [Sha256Locals.round, Sha256Locals.registers, Sha256.round, bigSigma0_eq, bigSigma1_eq]
  rfl

theorem registers_rounds (steps : List (UInt32 × UInt32)) (l : Sha256Locals) :
    (steps.foldl Sha256Locals.round l).registers =
      steps.foldl (fun r step => Sha256.round step.1 step.2 r) l.registers := by
  induction steps generalizing l with
  | nil => rfl
  | cons step steps ih => rw [List.foldl_cons, ih, registers_round, List.foldl_cons]

/-- Sixty-four constants, each with the word of its round. -/
theorem zip_constants (words : ℕ → UInt32) :
    sha256Constants.toList.zip ((List.range 64).map words) =
      (List.range 64).map fun t => (Sha256.constants.getD t 0, words t) := by
  rw [← sha256Constants_eq]
  refine List.ext_getElem (by simp) fun t ht _ => ?_
  have hconstant : t < sha256Constants.toList.length := by
    rw [List.length_zip] at ht
    omega
  rw [List.getElem_zip, List.getElem_map, List.getElem_map, List.getElem_range,
    List.getD_eq_getElem _ _ hconstant]

/-- **The transformation is the compression function.** -/
theorem registersOf_transform (state : Sha256State) (block : Sha256Block) :
    registersOf (sha256Transform state block) =
      Sha256.compress (registersOf state) block.toList := by
  have hadd : ∀ l : Sha256Locals,
      registersOf #v[state[0] + l.a, state[1] + l.b, state[2] + l.c, state[3] + l.d,
        state[4] + l.e, state[5] + l.f, state[6] + l.g, state[7] + l.h] =
      (registersOf state).add l.registers := fun l => rfl
  unfold sha256Transform
  dsimp only
  rw [hadd, registers_rounds, extendWords_eq, zip_constants, List.foldl_map, Sha256.compress]
  rfl

end UnityCommon.Portable
