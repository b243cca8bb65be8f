import UnityCommon.Common.Text
import UnityCommon.Lib.Loop
import UnityCommon.Lib.PrefixCode

/-!
# UTF-8

`common/utf8.c`. A byte pointer is `none` when it is NULL, an offset when it is
`SIZE_MAX`. A Unicode scalar value is a `Char`, and its encoding is the one of the
standard library, which knows nothing of the byte ranges the decoder tests.
-/

namespace UnityCommon.Common

inductive CommonUtf8Status where
  | ok
  | invalidArgument
  | invalidEncoding
deriving DecidableEq, Repr

structure CommonUtf8Result where
  status : CommonUtf8Status
  offset : Option ℕ
deriving DecidableEq, Repr

def isContinuation (value : UInt8) : Bool := 0x80 ≤ value && value ≤ 0xbf

/-- The payload bits of a leading and of a continuation byte. -/
def leadBits (mask first : UInt8) : UInt32 := (first &&& mask).toUInt32

def tailBits (value : UInt8) : UInt32 := (value &&& 0x3f).toUInt32

/-- `common_utf8_decode_one`, with what it stores in `*scalar` and
`*sequence_size`: nothing unless it succeeds. -/
def commonUtf8DecodeOne (bytes : Option Text) : CommonUtf8Result × Option (UInt32 × ℕ) :=
  let invalid := (⟨.invalidEncoding, some 0⟩, none)
  let decoded (scalar : UInt32) (size : ℕ) := (⟨.ok, none⟩, some (scalar, size))
  match bytes with
  | none => (⟨.invalidArgument, none⟩, none)
  | some [] => invalid
  | some (first :: rest) =>
      if first ≤ 0x7f then decoded first.toUInt32 1
      else if 0xc2 ≤ first ∧ first ≤ 0xdf then
        match rest with
        | second :: _ =>
            if !isContinuation second then invalid
            else decoded (leadBits 0x1f first <<< 6 ||| tailBits second) 2
        | _ => invalid
      else if 0xe0 ≤ first ∧ first ≤ 0xef then
        match rest with
        | second :: third :: _ =>
            if !isContinuation second || !isContinuation third ||
                (first == 0xe0 && second < 0xa0) || (first == 0xed && second > 0x9f) then
              invalid
            else
              decoded (leadBits 0x0f first <<< 12 ||| tailBits second <<< 6 |||
                tailBits third) 3
        | _ => invalid
      else if 0xf0 ≤ first ∧ first ≤ 0xf4 then
        match rest with
        | second :: third :: fourth :: _ =>
            if !isContinuation second || !isContinuation third || !isContinuation fourth ||
                (first == 0xf0 && second < 0x90) || (first == 0xf4 && second > 0x8f) then
              invalid
            else
              decoded (leadBits 0x07 first <<< 18 ||| tailBits second <<< 12 |||
                tailBits third <<< 6 ||| tailBits fourth) 4
        | _ => invalid
      else invalid

/-- One round of the loop of `common_utf8_validate`. -/
def validateRound (bytes : Text) (position : ℕ) : Loop.Outcome ℕ CommonUtf8Result :=
  if position < bytes.length then
    match commonUtf8DecodeOne (some (bytes.drop position)) with
    | (⟨.ok, _⟩, some (_, sequenceSize)) => .again (position + sequenceSize)
    | (result, _) => .done ⟨result.status, some position⟩
  else .done ⟨.ok, none⟩

/-- The fuel is one round a byte and one more; `none` where it runs out. -/
def commonUtf8Validate (bytes : Option Text) : Option CommonUtf8Result :=
  match bytes with
  | none => some ⟨.invalidArgument, none⟩
  | some bytes => Loop.run (validateRound bytes) (bytes.length + 1) 0

/-! ## The bits -/

theorem leadBits_toNat {mask first : UInt8} (bits : ℕ) (hmask : mask.toNat = 2 ^ bits - 1) :
    (leadBits mask first).toNat = first.toNat % 2 ^ bits := by
  rw [leadBits, UInt8.toNat_toUInt32, UInt8.toNat_and, hmask, Nat.and_two_pow_sub_one_eq_mod]

theorem tailBits_toNat (value : UInt8) : (tailBits value).toNat = value.toNat % 64 :=
  @leadBits_toNat 0x3f value 6 rfl

theorem shiftLeft_toNat {value : UInt32} (bits : ℕ) (hbits : bits < 32)
    (hfits : value.toNat * 2 ^ bits < 2 ^ 32) :
    (value <<< UInt32.ofNat bits).toNat = value.toNat * 2 ^ bits := by
  have hsmall : bits % 2 ^ 32 % 32 = bits := by omega
  rw [UInt32.toNat_shiftLeft, UInt32.toNat_ofNat', hsmall, Nat.shiftLeft_eq,
    Nat.mod_eq_of_lt hfits]

/-- Bits that do not meet are added. -/
theorem or_toNat {upper lower : UInt32} (bits : ℕ) (hupper : upper.toNat % 2 ^ bits = 0)
    (hlower : lower.toNat < 2 ^ bits) :
    (upper ||| lower).toNat = upper.toNat + lower.toNat := by
  have hshift : upper.toNat = (upper.toNat / 2 ^ bits) <<< bits := by
    rw [Nat.shiftLeft_eq, Nat.div_mul_cancel (Nat.dvd_of_mod_eq_zero hupper)]
  rw [UInt32.toNat_or, hshift, ← Nat.shiftLeft_add_eq_or_of_lt hlower]

/-- Payload bits moved up. -/
theorem leadBits_shiftLeft {mask first : UInt8} (width bits : ℕ)
    (hmask : mask.toNat = 2 ^ width - 1) (hfits : width + bits < 32) :
    (leadBits mask first <<< UInt32.ofNat bits).toNat = first.toNat % 2 ^ width * 2 ^ bits := by
  have hlead : (leadBits mask first).toNat = first.toNat % 2 ^ width := leadBits_toNat width hmask
  have hlt : first.toNat % 2 ^ width * 2 ^ bits < 2 ^ width * 2 ^ bits :=
    Nat.mul_lt_mul_of_pos_right (Nat.mod_lt _ (Nat.two_pow_pos _)) (Nat.two_pow_pos _)
  have hle : 2 ^ width * 2 ^ bits ≤ 2 ^ 32 := by
    rw [← Nat.pow_add]
    exact Nat.pow_le_pow_right (by decide) hfits.le
  rw [shiftLeft_toNat bits (by omega) (by rw [hlead]; omega), hlead]

theorem two_toNat (first second : UInt8) :
    (leadBits 0x1f first <<< 6 ||| tailBits second).toNat =
      first.toNat % 32 * 64 + second.toNat % 64 := by
  have hupper : (leadBits 0x1f first <<< 6).toNat = first.toNat % 32 * 64 :=
    leadBits_shiftLeft 5 6 rfl (by decide)
  have htail := tailBits_toNat second
  rw [or_toNat 6 (by omega) (by omega), hupper, htail]

theorem three_toNat (first second third : UInt8) :
    (leadBits 0x0f first <<< 12 ||| tailBits second <<< 6 ||| tailBits third).toNat =
      first.toNat % 16 * 4096 + second.toNat % 64 * 64 + third.toNat % 64 := by
  have hupper : (leadBits 0x0f first <<< 12).toNat = first.toNat % 16 * 4096 :=
    leadBits_shiftLeft 4 12 rfl (by decide)
  have hmiddle : (tailBits second <<< 6).toNat = second.toNat % 64 * 64 :=
    leadBits_shiftLeft 6 6 rfl (by decide)
  have htail := tailBits_toNat third
  have hboth : (leadBits 0x0f first <<< 12 ||| tailBits second <<< 6).toNat =
      first.toNat % 16 * 4096 + second.toNat % 64 * 64 := by
    rw [or_toNat 12 (by omega) (by omega), hupper, hmiddle]
  rw [or_toNat 6 (by omega) (by omega), hboth, htail]

theorem four_toNat (first second third fourth : UInt8) :
    (leadBits 0x07 first <<< 18 ||| tailBits second <<< 12 ||| tailBits third <<< 6 |||
        tailBits fourth).toNat =
      first.toNat % 8 * 262144 + second.toNat % 64 * 4096 + third.toNat % 64 * 64 +
        fourth.toNat % 64 := by
  have hupper : (leadBits 0x07 first <<< 18).toNat = first.toNat % 8 * 262144 :=
    leadBits_shiftLeft 3 18 rfl (by decide)
  have hsecond : (tailBits second <<< 12).toNat = second.toNat % 64 * 4096 :=
    leadBits_shiftLeft 6 12 rfl (by decide)
  have hthird : (tailBits third <<< 6).toNat = third.toNat % 64 * 64 :=
    leadBits_shiftLeft 6 6 rfl (by decide)
  have htail := tailBits_toNat fourth
  have htwo : (leadBits 0x07 first <<< 18 ||| tailBits second <<< 12).toNat =
      first.toNat % 8 * 262144 + second.toNat % 64 * 4096 := by
    rw [or_toNat 18 (by omega) (by omega), hupper, hsecond]
  have hthree : (leadBits 0x07 first <<< 18 ||| tailBits second <<< 12 |||
      tailBits third <<< 6).toNat =
      first.toNat % 8 * 262144 + second.toNat % 64 * 4096 + third.toNat % 64 * 64 := by
    rw [or_toNat 12 (by omega) (by omega), htwo, hthird]
  rw [or_toNat 6 (by omega) (by omega), hthree, htail]

/-! ## Encodings -/

def IsContinuation (value : UInt8) : Prop := 0x80 ≤ value.toNat ∧ value.toNat ≤ 0xbf

theorem isContinuation_iff {value : UInt8} : isContinuation value = true ↔ IsContinuation value := by
  simp [isContinuation, IsContinuation, UInt8.le_iff_toNat_le]

/-- Two byte lists with the same numbers are the same. -/
theorem utf8EncodeChar_eq_iff {c : Char} {bytes : Text} :
    String.utf8EncodeChar c = bytes ↔
      (String.utf8EncodeChar c).map UInt8.toNat = bytes.map UInt8.toNat :=
  (List.map_injective_iff.mpr fun _ _ => UInt8.toNat_inj.mp).eq_iff.symm

/-- The encoding, in numbers. -/
theorem utf8EncodeChar_toNat (c : Char) :
    (String.utf8EncodeChar c).map UInt8.toNat =
      if c.toNat ≤ 0x7f then [c.toNat]
      else if c.toNat ≤ 0x7ff then [c.toNat / 64 + 0xc0, c.toNat % 64 + 0x80]
      else if c.toNat ≤ 0xffff then
        [c.toNat / 4096 + 0xe0, c.toNat / 64 % 64 + 0x80, c.toNat % 64 + 0x80]
      else
        [c.toNat / 262144 + 0xf0, c.toNat / 4096 % 64 + 0x80, c.toNat / 64 % 64 + 0x80,
          c.toNat % 64 + 0x80] := by
  have hmax : c.toNat ≤ 0x10ffff := by
    have := c.valid
    unfold UInt32.isValidChar Nat.isValidChar at this
    unfold Char.toNat
    omega
  have hval : c.val.toNat = c.toNat := rfl
  unfold String.utf8EncodeChar
  simp only [hval]
  split
  · simp only [List.map_cons, List.map_nil, UInt8.toNat_ofNat', List.cons.injEq, and_true]
    omega
  split
  · simp only [List.map_cons, List.map_nil, UInt8.toNat_ofNat', List.cons.injEq, and_true]
    omega
  split
  · simp only [List.map_cons, List.map_nil, UInt8.toNat_ofNat', List.cons.injEq, and_true]
    omega
  · simp only [List.map_cons, List.map_nil, UInt8.toNat_ofNat', List.cons.injEq, and_true]
    omega

/-- The encoding by the range of its scalar value. -/
theorem utf8EncodeChar_iff {c : Char} {bytes : Text} :
    String.utf8EncodeChar c = bytes ↔
      c.toNat ≤ 0x7f ∧ [c.toNat] = bytes.map UInt8.toNat ∨
      (0x7f < c.toNat ∧ c.toNat ≤ 0x7ff) ∧
        [c.toNat / 64 + 0xc0, c.toNat % 64 + 0x80] = bytes.map UInt8.toNat ∨
      (0x7ff < c.toNat ∧ c.toNat ≤ 0xffff) ∧
        [c.toNat / 4096 + 0xe0, c.toNat / 64 % 64 + 0x80, c.toNat % 64 + 0x80] =
          bytes.map UInt8.toNat ∨
      0xffff < c.toNat ∧
        [c.toNat / 262144 + 0xf0, c.toNat / 4096 % 64 + 0x80, c.toNat / 64 % 64 + 0x80,
          c.toNat % 64 + 0x80] = bytes.map UInt8.toNat := by
  rw [utf8EncodeChar_eq_iff, utf8EncodeChar_toNat]
  grind

theorem utf8EncodeChar_one {c : Char} {first : UInt8} :
    String.utf8EncodeChar c = [first] ↔ first.toNat ≤ 0x7f ∧ c.toNat = first.toNat := by
  rw [utf8EncodeChar_iff]
  simp only [List.map_cons, List.map_nil, List.cons.injEq, and_true, reduceCtorEq, and_false,
    or_false]
  omega

theorem utf8EncodeChar_two {c : Char} {first second : UInt8} :
    String.utf8EncodeChar c = [first, second] ↔
      0xc2 ≤ first.toNat ∧ first.toNat ≤ 0xdf ∧ IsContinuation second ∧
        c.toNat = first.toNat % 32 * 64 + second.toNat % 64 := by
  unfold IsContinuation
  rw [utf8EncodeChar_iff]
  simp only [List.map_cons, List.map_nil, List.cons.injEq, and_true, reduceCtorEq, and_false,
    or_false, false_or]
  omega

theorem utf8EncodeChar_three {c : Char} {first second third : UInt8} :
    String.utf8EncodeChar c = [first, second, third] ↔
      0xe0 ≤ first.toNat ∧ first.toNat ≤ 0xef ∧ IsContinuation second ∧ IsContinuation third ∧
        (first.toNat = 0xe0 → 0xa0 ≤ second.toNat) ∧ (first.toNat = 0xed → second.toNat ≤ 0x9f) ∧
        c.toNat = first.toNat % 16 * 4096 + second.toNat % 64 * 64 + third.toNat % 64 := by
  have hvalid : c.toNat < 0xd800 ∨ 0xdfff < c.toNat ∧ c.toNat < 0x110000 := c.valid
  unfold IsContinuation
  rw [utf8EncodeChar_iff]
  simp only [List.map_cons, List.map_nil, List.cons.injEq, and_true, reduceCtorEq, and_false,
    or_false, false_or]
  omega

theorem utf8EncodeChar_four {c : Char} {first second third fourth : UInt8} :
    String.utf8EncodeChar c = [first, second, third, fourth] ↔
      0xf0 ≤ first.toNat ∧ first.toNat ≤ 0xf4 ∧ IsContinuation second ∧ IsContinuation third ∧
        IsContinuation fourth ∧ (first.toNat = 0xf0 → 0x90 ≤ second.toNat) ∧
        (first.toNat = 0xf4 → second.toNat ≤ 0x8f) ∧
        c.toNat = first.toNat % 8 * 262144 + second.toNat % 64 * 4096 +
          third.toNat % 64 * 64 + fourth.toNat % 64 := by
  have hvalid : c.toNat < 0xd800 ∨ 0xdfff < c.toNat ∧ c.toNat < 0x110000 := c.valid
  unfold IsContinuation
  rw [utf8EncodeChar_iff]
  simp only [List.map_cons, List.map_nil, List.cons.injEq, and_true, reduceCtorEq, and_false,
    false_or]
  omega

theorem exists_char {n : ℕ} (h : n.isValidChar) : ∃ c : Char, c.toNat = n :=
  ⟨Char.ofNatAux n h, rfl⟩

/-! ## Decoding -/

/-- What is decoded where the encoding of `c` is. -/
def Decoded (c : Char) : CommonUtf8Result × Option (UInt32 × ℕ) :=
  (⟨.ok, none⟩, some (c.val, c.utf8Size))

def undecoded : CommonUtf8Result × Option (UInt32 × ℕ) := (⟨.invalidEncoding, some 0⟩, none)

theorem decoded_eq {c : Char} {bytes : Text} (scalar : UInt32)
    (hbytes : String.utf8EncodeChar c = bytes) (hscalar : scalar.toNat = c.toNat) :
    (⟨⟨.ok, none⟩, some (scalar, bytes.length)⟩ : CommonUtf8Result × Option (UInt32 × ℕ)) =
      Decoded c := by
  have hval : scalar = c.val := UInt32.toNat_inj.mp hscalar
  rw [Decoded, hval, ← String.length_utf8EncodeChar, hbytes]

/-- **Where an encoding starts, its scalar value is decoded.** -/
theorem commonUtf8DecodeOne_encoded {c : Char} {text : Text}
    (h : String.utf8EncodeChar c <+: text) : commonUtf8DecodeOne (some text) = Decoded c := by
  obtain ⟨rest, rfl⟩ := h
  have hlength := String.length_utf8EncodeChar c
  rcases c.utf8Size_eq with hsize | hsize | hsize | hsize
  · obtain ⟨first, hbytes⟩ := List.length_eq_one_iff.mp (hlength.trans hsize)
    obtain ⟨hfirst, hvalue⟩ := utf8EncodeChar_one.mp hbytes
    rw [hbytes, ← decoded_eq first.toUInt32 hbytes (by simp [hvalue])]
    unfold commonUtf8DecodeOne
    simp [UInt8.le_iff_toNat_le, hfirst]
  · obtain ⟨first, second, hbytes⟩ := List.length_eq_two.mp (hlength.trans hsize)
    obtain ⟨hlow, hhigh, hsecond, hvalue⟩ := utf8EncodeChar_two.mp hbytes
    rw [hbytes, ← decoded_eq _ hbytes ((two_toNat first second).trans hvalue.symm)]
    have hnot : ¬ first.toNat ≤ 127 := by omega
    unfold commonUtf8DecodeOne
    simp [UInt8.le_iff_toNat_le, hnot, hlow, hhigh, isContinuation_iff.mpr hsecond]
  · obtain ⟨first, second, third, hbytes⟩ := List.length_eq_three.mp (hlength.trans hsize)
    obtain ⟨hlow, hhigh, hsecond, hthird, hleast, hgreatest, hvalue⟩ :=
      utf8EncodeChar_three.mp hbytes
    rw [hbytes, ← decoded_eq _ hbytes ((three_toNat first second third).trans hvalue.symm)]
    have hone : ¬ first.toNat ≤ 127 := by omega
    have htwo : ¬ first.toNat ≤ 223 := by omega
    unfold commonUtf8DecodeOne
    simp [UInt8.le_iff_toNat_le, UInt8.lt_iff_toNat_lt, ← UInt8.toNat_inj, hone, htwo, hlow,
      hhigh, isContinuation_iff.mpr hsecond, isContinuation_iff.mpr hthird]
    omega
  · obtain ⟨first, second, third, fourth, hbytes⟩ :
        ∃ first second third fourth, String.utf8EncodeChar c = [first, second, third, fourth] := by
      match String.utf8EncodeChar c, hlength.trans hsize with
      | [first, second, third, fourth], _ => exact ⟨first, second, third, fourth, rfl⟩
    obtain ⟨hlow, hhigh, hsecond, hthird, hfourth, hleast, hgreatest, hvalue⟩ :=
      utf8EncodeChar_four.mp hbytes
    rw [hbytes, ← decoded_eq _ hbytes ((four_toNat first second third fourth).trans hvalue.symm)]
    have hone : ¬ first.toNat ≤ 127 := by omega
    have htwo : ¬ first.toNat ≤ 223 := by omega
    have hthree : ¬ first.toNat ≤ 239 := by omega
    unfold commonUtf8DecodeOne
    simp [UInt8.le_iff_toNat_le, UInt8.lt_iff_toNat_lt, ← UInt8.toNat_inj, hone, htwo, hthree,
      hlow, hhigh, isContinuation_iff.mpr hsecond, isContinuation_iff.mpr hthird,
      isContinuation_iff.mpr hfourth]
    omega

/-- A word of scalar values starts the text. -/
theorem exists_encoded {text rest : Text} {n : ℕ} (word : Text) (htext : text = word ++ rest)
    (hvalid : n.isValidChar) (hword : ∀ c : Char, c.toNat = n → String.utf8EncodeChar c = word) :
    ∃ c, String.utf8EncodeChar c <+: text := by
  obtain ⟨c, hc⟩ := exists_char hvalid
  exact ⟨c, rest, by rw [hword c hc, htext]⟩

/-- **What is decoded is an encoding.** -/
theorem commonUtf8DecodeOne_cases (text : Text) :
    (∃ c, String.utf8EncodeChar c <+: text) ∨ commonUtf8DecodeOne (some text) = undecoded := by
  unfold commonUtf8DecodeOne
  cases text with
  | nil => exact Or.inr rfl
  | cons first rest =>
      simp only [UInt8.le_iff_toNat_le, UInt8.lt_iff_toNat_lt, gt_iff_lt, UInt8.reduceToNat]
      split
      · rename_i hfirst
        exact Or.inl (exists_encoded [first] rfl (Or.inl (by omega : first.toNat < 0xd800))
          fun c hc => utf8EncodeChar_one.mpr ⟨hfirst, hc⟩)
      split
      · rename_i hrange
        split
        · rename_i second rest
          split
          · exact Or.inr rfl
          · rename_i hsecond
            have htail : IsContinuation second := isContinuation_iff.mp (by simpa using hsecond)
            refine Or.inl (exists_encoded [first, second] rfl (Or.inl ?_)
              fun c hc => utf8EncodeChar_two.mpr ⟨hrange.1, hrange.2, htail, hc⟩)
            omega
        · exact Or.inr rfl
      split
      · rename_i hrange
        split
        · rename_i second third rest
          split
          · exact Or.inr rfl
          · rename_i htests
            simp only [Bool.or_eq_true, Bool.and_eq_true, Bool.not_eq_true', not_or, beq_iff_eq,
              decide_eq_true_eq, Bool.not_eq_false, ← UInt8.toNat_inj, UInt8.reduceToNat] at htests
            obtain ⟨⟨⟨hsecond, hthird⟩, hleast⟩, hgreatest⟩ := htests
            have htail := isContinuation_iff.mp hsecond
            have htail' := isContinuation_iff.mp hthird
            obtain ⟨hlow, hhigh⟩ := htail
            obtain ⟨hlow', hhigh'⟩ := htail'
            refine Or.inl (exists_encoded [first, second, third] rfl ?_
              fun c hc => utf8EncodeChar_three.mpr ⟨hrange.1, hrange.2, ⟨hlow, hhigh⟩,
                ⟨hlow', hhigh'⟩, by omega, by omega, hc⟩)
            unfold Nat.isValidChar
            omega
        · exact Or.inr rfl
      split
      · rename_i hrange
        split
        · rename_i second third fourth rest
          split
          · exact Or.inr rfl
          · rename_i htests
            simp only [Bool.or_eq_true, Bool.and_eq_true, Bool.not_eq_true', not_or, beq_iff_eq,
              decide_eq_true_eq, Bool.not_eq_false, ← UInt8.toNat_inj, UInt8.reduceToNat] at htests
            obtain ⟨⟨⟨⟨hsecond, hthird⟩, hfourth⟩, hleast⟩, hgreatest⟩ := htests
            obtain ⟨hlow, hhigh⟩ := isContinuation_iff.mp hsecond
            obtain ⟨hlow', hhigh'⟩ := isContinuation_iff.mp hthird
            obtain ⟨hlow'', hhigh''⟩ := isContinuation_iff.mp hfourth
            refine Or.inl (exists_encoded [first, second, third, fourth] rfl ?_
              fun c hc => utf8EncodeChar_four.mpr ⟨hrange.1, hrange.2, ⟨hlow, hhigh⟩,
                ⟨hlow', hhigh'⟩, ⟨hlow'', hhigh''⟩, by omega, by omega, hc⟩)
            unfold Nat.isValidChar
            omega
        · exact Or.inr rfl
      · exact Or.inr rfl

/-! ## Whole texts -/

/-- UTF-8 is a prefix code. -/
theorem utf8Code : PrefixCode String.utf8EncodeChar where
  word_ne_nil _ := String.utf8EncodeChar_ne_nil
  prefixFree a b r s _ _ heq := by
    have ha := commonUtf8DecodeOne_encoded (List.prefix_append (String.utf8EncodeChar a) r)
    have hb := commonUtf8DecodeOne_encoded (List.prefix_append (String.utf8EncodeChar b) s)
    rw [← heq, ha] at hb
    have hval : a.val = b.val := by
      simp only [Decoded, Prod.mk.injEq, Option.some.injEq] at hb
      exact hb.2.1
    obtain rfl := Char.ext hval
    exact ⟨rfl, List.append_cancel_left heq⟩

/-- The bytes of scalar values. -/
def encodeScalars (scalars : List Char) : Text := scalars.flatMap String.utf8EncodeChar

/-- The first `n` bytes are encodings of scalar values. -/
abbrev WellFormedTo (bytes : Text) (n : ℕ) : Prop :=
  PrefixCode.Spelled String.utf8EncodeChar bytes n

/-- No encoding starts at `n`, and only encodings come before. -/
abbrev IllFormedAt (bytes : Text) (n : ℕ) : Prop :=
  PrefixCode.Stuck String.utf8EncodeChar bytes n ∧ n < bytes.length

theorem undecoded_of_stuck {bytes : Text} {n : ℕ}
    (h : PrefixCode.Stuck String.utf8EncodeChar bytes n) :
    commonUtf8DecodeOne (some (bytes.drop n)) = undecoded := by
  rcases commonUtf8DecodeOne_cases (bytes.drop n) with ⟨c, hc⟩ | hnone
  · exact absurd hc (h.2 c)
  · exact hnone

/-- **One round** reads one encoding, or ends. -/
theorem validateRound_cases {bytes : Text} {position : ℕ} (h : WellFormedTo bytes position) :
    (∃ c : Char, validateRound bytes position = .again (position + c.utf8Size) ∧
      position < bytes.length ∧ WellFormedTo bytes (position + c.utf8Size)) ∨
    (validateRound bytes position = .done ⟨.invalidEncoding, some position⟩ ∧
      IllFormedAt bytes position) ∨
    (validateRound bytes position = .done ⟨.ok, none⟩ ∧ position = bytes.length) := by
  unfold validateRound
  by_cases hlt : position < bytes.length
  · rw [if_pos hlt]
    by_cases hword : ∃ c, String.utf8EncodeChar c <+: bytes.drop position
    · obtain ⟨c, hc⟩ := hword
      rw [commonUtf8DecodeOne_encoded hc]
      have hmore := h.extend hc
      rw [String.length_utf8EncodeChar] at hmore
      exact Or.inl ⟨c, rfl, hlt, hmore⟩
    · have hstuck : PrefixCode.Stuck String.utf8EncodeChar bytes position :=
        ⟨h, fun c hc => hword ⟨c, hc⟩⟩
      rw [undecoded_of_stuck hstuck]
      exact Or.inr (Or.inl ⟨rfl, hstuck, hlt⟩)
  · rw [if_neg hlt]
    exact Or.inr (Or.inr ⟨rfl, Nat.le_antisymm h.1 (Nat.le_of_not_lt hlt)⟩)

/-- The loop ends, and says where. -/
theorem commonUtf8Validate_cases (bytes : Text) :
    (commonUtf8Validate (some bytes) = some ⟨.ok, none⟩ ∧ WellFormedTo bytes bytes.length) ∨
    ∃ offset, commonUtf8Validate (some bytes) = some ⟨.invalidEncoding, some offset⟩ ∧
      IllFormedAt bytes offset := by
  have hreach : ∀ {position}, Loop.Reaches (validateRound bytes) 0 position →
      WellFormedTo bytes position := by
    intro position hreach
    refine hreach.invariant (WellFormedTo bytes) (PrefixCode.Spelled.zero _ bytes) fun p q hp hq => ?_
    rcases validateRound_cases hp with ⟨c, hc, -, hmore⟩ | ⟨hdone, -⟩ | ⟨hdone, -⟩
    · obtain rfl : p + c.utf8Size = q := by simpa [hc] using hq
      exact hmore
    · simp [hdone] at hq
    · simp [hdone] at hq
  obtain ⟨result, hrun⟩ : ∃ result,
      Loop.run (validateRound bytes) (bytes.length - 0 + 1) 0 = some result :=
    Loop.run_of_variant (fun position => bytes.length - position) fun p q hp hq => by
      rcases validateRound_cases (hreach hp) with ⟨c, hc, hlt, -⟩ | ⟨hdone, -⟩ | ⟨hdone, -⟩
      · obtain rfl : p + c.utf8Size = q := by simpa [hc] using hq
        have := c.utf8Size_pos
        omega
      · simp [hdone] at hq
      · simp [hdone] at hq
  obtain ⟨position, hposition, hdone⟩ := Loop.run_some hrun
  have hwell := hreach hposition
  have hvalidate : commonUtf8Validate (some bytes) = some result := hrun
  rw [hvalidate]
  rcases validateRound_cases hwell with ⟨c, hc, -⟩ | ⟨hround, hill⟩ | ⟨hround, hend⟩
  · simp [hc] at hdone
  · obtain rfl := Loop.Outcome.done.inj (hround.symm.trans hdone)
    exact Or.inr ⟨position, rfl, hill⟩
  · obtain rfl := Loop.Outcome.done.inj (hround.symm.trans hdone)
    exact Or.inl ⟨rfl, hend ▸ hwell⟩

/-- **Validation is the UTF-8 grammar.** The bytes pass exactly when they are
encodings of scalar values, which they are in one way, each decoded where it
stands; otherwise the offset ends the longest front that is, and nothing can be
decoded there. -/
theorem commonUtf8Validate_wellFormed_iff (bytes : Text) :
    ∃ result, commonUtf8Validate (some bytes) = some result ∧
      (result.status = .ok ↔ ∃ scalars, bytes = encodeScalars scalars) ∧
      (∀ scalars scalars', bytes = encodeScalars scalars → bytes = encodeScalars scalars' →
        scalars = scalars') ∧
      (∀ front c back, bytes = encodeScalars (front ++ c :: back) →
        commonUtf8DecodeOne (some (bytes.drop (encodeScalars front).length)) =
          (⟨.ok, none⟩, some (c.val, (String.utf8EncodeChar c).length))) ∧
      (result.status = .ok → result.offset = none) ∧
      (result.status ≠ .ok → ∃ offset, result = ⟨.invalidEncoding, some offset⟩ ∧
        IsGreatest {n | n ≤ bytes.length ∧ ∃ scalars, bytes.take n = encodeScalars scalars}
          offset ∧
        offset < bytes.length ∧
        commonUtf8DecodeOne (some (bytes.drop offset)) = (⟨.invalidEncoding, some 0⟩, none)) := by
  have hunique : ∀ scalars scalars', bytes = encodeScalars scalars →
      bytes = encodeScalars scalars' → scalars = scalars' :=
    fun scalars scalars' h h' => utf8Code.flatMap_injective (h.symm.trans h')
  have hdecode : ∀ front c back, bytes = encodeScalars (front ++ c :: back) →
      commonUtf8DecodeOne (some (bytes.drop (encodeScalars front).length)) =
        (⟨.ok, none⟩, some (c.val, (String.utf8EncodeChar c).length)) := by
    rintro front c back rfl
    unfold encodeScalars
    rw [List.flatMap_append, List.flatMap_cons, List.drop_left,
      commonUtf8DecodeOne_encoded (List.prefix_append _ _), Decoded, String.length_utf8EncodeChar]
  rcases commonUtf8Validate_cases bytes with ⟨hok, hwell⟩ | ⟨offset, hinvalid, hstuck, hlt⟩
  · refine ⟨_, hok, ?_, hunique, hdecode, fun _ => rfl, fun hne => absurd rfl hne⟩
    exact iff_of_true rfl (PrefixCode.Spelled.length_iff.mp hwell)
  · refine ⟨_, hinvalid, ?_, hunique, hdecode, fun hok => ?_, fun _ => ?_⟩
    · refine iff_of_false (by simp) fun hwell => ?_
      have hle := (hstuck.isGreatest utf8Code).2 (PrefixCode.Spelled.length_iff.mpr hwell)
      exact absurd hlt (Nat.not_lt_of_le hle)
    · cases hok
    · exact ⟨offset, rfl, hstuck.isGreatest utf8Code, hlt, undecoded_of_stuck hstuck⟩

example : commonUtf8Validate (some [0x61, 0xe2, 0x82, 0xac, 0xed, 0xa0, 0x80]) =
    some ⟨.invalidEncoding, some 4⟩ := by decide

end UnityCommon.Common
