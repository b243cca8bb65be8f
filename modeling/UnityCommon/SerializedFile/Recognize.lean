import UnityCommon.SerializedFile.Grammar
import Mathlib.Data.Nat.Bitwise

/-!
# What the readers recognize

Every reader of the metadata finds a row exactly where a valid record is
spelled, and takes as many bytes as its text has.
-/

namespace UnityCommon.Metadata

namespace MetadataSource

variable (source : MetadataSource)

/-- A text stands at a position, before the metadata ends. -/
structure Spells (at_ : ℕ) (text : Text) : Prop where
  holds : source.Holds at_ text.length
  stands : text <+: source.bytes.drop at_

/-- **A reader recognizes records**: it succeeds where a valid one is spelled,
and takes its text. -/
structure Recognizes {α β : Type} (Q : ℕ → Decoder ScanCost β) (encode : α → Text)
    (Valid : ℕ → α → Prop) : Prop where
  sound : ∀ i at_ b d, Q i at_ = some (b, d) →
    ∃ a, Valid at_ a ∧ source.Spells at_ (encode a) ∧ d.bytes = (encode a).length
  complete : ∀ i at_ a, Valid at_ a → source.Spells at_ (encode a) →
    ∃ b d, Q i at_ = some (b, d) ∧ d.bytes = (encode a).length

variable {source} {at_ : ℕ} {d : ScanCost}

/-! ## Texts -/

theorem spells_append {text more : Text} :
    source.Spells at_ (text ++ more) ↔
      source.Spells at_ text ∧ source.Spells (at_ + text.length) more := by
  constructor
  · rintro ⟨⟨hend, hlength⟩, hstands⟩
    rw [List.length_append] at hend hlength
    have htext : text <+: source.bytes.drop at_ := (List.prefix_append text more).trans hstands
    refine ⟨⟨⟨by omega, by omega⟩, htext⟩, ⟨by omega, by omega⟩, ?_⟩
    obtain ⟨rest, hrest⟩ := hstands
    refine ⟨rest, ?_⟩
    rw [← List.drop_drop, ← hrest, List.append_assoc, List.drop_left]
  · rintro ⟨⟨-, rest, hrest⟩, ⟨hend, hlength⟩, more', hmore⟩
    refine ⟨⟨?_, ?_⟩, more', ?_⟩
    · rw [List.length_append]
      omega
    · rw [List.length_append]
      omega
    · rw [← List.drop_drop, ← hrest, List.drop_left] at hmore
      rw [List.append_assoc, hmore, hrest]

/-- What is held is spelled by the bytes there. -/
theorem spells_bytes {width : ℕ} (h : source.Holds at_ width) :
    ((PrefixSpan.mk at_ width).bytes source.bytes).length = width ∧
      source.Spells at_ ((PrefixSpan.mk at_ width).bytes source.bytes) := by
  have hlength : ((PrefixSpan.mk at_ width).bytes source.bytes).length = width := by
    rw [PrefixSpan.bytes, List.length_take, List.length_drop]
    have hmapped : at_ + width ≤ source.bytes.length := h.2
    show min width (source.bytes.length - at_) = width
    omega
  exact ⟨hlength, by rwa [hlength], List.take_prefix _ _⟩

theorem Spells.bytes {text : Text} {width : ℕ} (h : source.Spells at_ text)
    (hwidth : text.length = width) : (PrefixSpan.mk at_ width).bytes source.bytes = text := by
  obtain ⟨-, rest, hrest⟩ := h
  rw [PrefixSpan.bytes, ← hrest, ← hwidth]
  exact List.take_left

/-- A number is spelled where it is read. -/
theorem spells_decode {width : ℕ} (h : source.Holds at_ width) :
    source.Spells at_ (encodeNat source.endianSelector width (source.decode ⟨at_, width⟩)) := by
  obtain ⟨hlength, hspells⟩ := spells_bytes h
  rw [decode, encodeNat_decodeNat hlength]
  exact hspells

theorem decode_lt {width : ℕ} (h : source.Holds at_ width) :
    source.decode ⟨at_, width⟩ < 256 ^ width := by
  have hlt := decodeNat_lt source.endianSelector ((PrefixSpan.mk at_ width).bytes source.bytes)
  rwa [(spells_bytes h).1] at hlt

/-- A number is read where it is spelled. -/
theorem Spells.decode {width n : ℕ}
    (h : source.Spells at_ (encodeNat source.endianSelector width n)) (hn : n < 256 ^ width) :
    source.Holds at_ width ∧ source.decode ⟨at_, width⟩ = n := by
  have hholds := h.holds
  rw [length_encodeNat] at hholds
  refine ⟨hholds, ?_⟩
  rw [MetadataSource.decode, h.bytes (length_encodeNat _ _ _), decodeNat_encodeNat hn]

/-! ## Fields -/

theorem take_of_spells {text : Text} {width : ℕ} (h : source.Spells at_ text)
    (hwidth : text.length = width) :
    source.take width at_ = some (⟨at_, width⟩, .taken width) :=
  take_eq_some.mpr ⟨hwidth ▸ h.holds, rfl, rfl⟩

theorem readU32_spells {span : PrefixSpan} {value : UInt32}
    (h : source.readU32 at_ = some ((span, value), d)) :
    source.Spells at_ (encodeNat source.endianSelector 4 value.toNat) ∧ d.bytes = 4 := by
  obtain ⟨hholds, rfl, rfl, rfl⟩ := readU32_eq_some.mp h
  have hvalue : (source.decode ⟨at_, 4⟩).toUInt32.toNat = source.decode ⟨at_, 4⟩ := by
    rw [Nat.toUInt32, UInt32.toNat_ofNat']
    exact Nat.mod_eq_of_lt (decode_lt hholds)
  rw [hvalue]
  exact ⟨spells_decode hholds, rfl⟩

theorem readU32_of_spells {n : ℕ} (hn : n < 2 ^ 32)
    (h : source.Spells at_ (encodeNat source.endianSelector 4 n)) :
    source.readU32 at_ = some ((⟨at_, 4⟩, n.toUInt32), .taken 4) := by
  obtain ⟨hholds, hdecode⟩ := h.decode hn
  exact readU32_eq_some.mpr ⟨hholds, rfl, by rw [hdecode], rfl⟩

theorem toNat_toUInt32 {n : ℕ} (hn : n < 2 ^ 32) : n.toUInt32.toNat = n := by
  rw [Nat.toUInt32, UInt32.toNat_ofNat']
  exact Nat.mod_eq_of_lt hn

theorem readCount_spells {span : PrefixSpan} {value : UInt32}
    (h : source.readCount at_ = some ((span, value), d)) :
    source.Spells at_ (encodeNat source.endianSelector 4 value.toNat) ∧
      value.toNat ≤ int32Max ∧ d.bytes = 4 := by
  obtain ⟨hholds, rfl, rfl, hcount, rfl⟩ := readCount_eq_some.mp h
  obtain ⟨hspells, -⟩ := readU32_spells (readU32_eq_some.mpr ⟨hholds, rfl, rfl, rfl⟩)
  exact ⟨hspells, hcount, rfl⟩

theorem int32Max_lt {n : ℕ} (hn : n ≤ int32Max) : n < 2 ^ 32 :=
  Nat.lt_of_le_of_lt hn (by decide)

theorem readCount_of_spells {n : ℕ} (hn : n ≤ int32Max)
    (h : source.Spells at_ (encodeNat source.endianSelector 4 n)) :
    source.readCount at_ = some ((⟨at_, 4⟩, n.toUInt32), .taken 4) := by
  have hlt := int32Max_lt hn
  obtain ⟨hholds, hdecode⟩ := h.decode hlt
  refine readCount_eq_some.mpr ⟨hholds, rfl, by rw [hdecode], ?_, rfl⟩
  rwa [toNat_toUInt32 hlt]

/-! ## Strings -/

/-- A string ends at its first terminator. -/
theorem terminatedLength_eq_some : ∀ {text : Text} {size : ℕ},
    terminatedLength text = some size ↔
      ∃ body, ValidString body ∧ encodeString body <+: text ∧ size = (encodeString body).length
  | [], size => by
      refine iff_of_false (by simp [terminatedLength]) ?_
      rintro ⟨body, -, hhead, -⟩
      have := hhead.length_le
      simp [encodeString] at this
  | byte :: rest, size => by
      rw [terminatedLength]
      by_cases hzero : byte = 0
      · rw [if_pos hzero, hzero]
        constructor
        · rintro h
          obtain rfl : 1 = size := by simpa using h
          exact ⟨[], by simp [ValidString], ⟨rest, rfl⟩, rfl⟩
        · rintro ⟨body, hvalid, hhead, rfl⟩
          cases body with
          | nil => rfl
          | cons first body =>
              -- the first byte of a string is no terminator
              obtain ⟨more, hmore⟩ := hhead
              have hfirst : first = 0 := (List.cons_eq_cons.mp hmore).1
              exact absurd hfirst (hvalid first List.mem_cons_self)
      · rw [if_neg hzero, Option.map_eq_some_iff]
        constructor
        · rintro ⟨more, hmore, rfl⟩
          obtain ⟨body, hvalid, ⟨tail, htail⟩, rfl⟩ := terminatedLength_eq_some.mp hmore
          refine ⟨byte :: body, ?_, ⟨tail, by rw [← htail]; rfl⟩, rfl⟩
          intro b hb
          rcases List.mem_cons.mp hb with rfl | hb
          · exact hzero
          · exact hvalid b hb
        · rintro ⟨body, hvalid, ⟨tail, htail⟩, rfl⟩
          cases body with
          | nil => exact absurd (List.cons_eq_cons.mp htail).1.symm hzero
          | cons first body =>
              refine ⟨(encodeString body).length, ?_, rfl⟩
              refine terminatedLength_eq_some.mpr ⟨body, ?_, ⟨tail, ?_⟩, rfl⟩
              · exact fun b hb => hvalid b (List.mem_cons_of_mem _ hb)
              · exact (List.cons_eq_cons.mp htail).2

theorem recognizes_string :
    source.Recognizes (fun _ => source.terminatedString) encodeString (fun _ => ValidString) where
  sound i at_ span d h := by
    obtain ⟨size, hlength, hend, rfl, rfl⟩ := terminatedString_eq_some.mp h
    obtain ⟨body, hvalid, hhead, rfl⟩ := terminatedLength_eq_some.mp hlength
    have hmapped := hhead.length_le
    rw [List.length_drop] at hmapped
    have hpos : 0 < (encodeString body).length := by simp [encodeString]
    exact ⟨body, hvalid, ⟨⟨hend, by omega⟩, hhead⟩, rfl⟩
  complete i at_ text hvalid hspells := by
    refine ⟨_, _, terminatedString_eq_some.mpr ⟨_, ?_, hspells.holds.1, rfl, rfl⟩, rfl⟩
    exact terminatedLength_eq_some.mpr ⟨text, hvalid, hspells.stands, rfl⟩

/-! ## Types -/

theorem scriptIndex_negative (bits : UInt16) :
    (bits &&& 0x8000 != 0) = true ↔ 0x8000 ≤ bits := by
  have hlt : bits.toNat < 65536 := bits.toNat_lt
  have hand : (bits &&& 0x8000).toNat = (bits.toNat.testBit 15).toNat * 2 ^ 15 := by
    rw [UInt16.toNat_and]
    exact Nat.and_two_pow bits.toNat 15
  rw [bne_iff_ne, ne_eq, ← UInt16.toNat_inj, hand, UInt16.le_iff_toNat_le,
    Nat.testBit_eq_decide_div_mod_eq]
  show ¬ _ = 0 ↔ 32768 ≤ bits.toNat
  by_cases h : bits.toNat / 32768 % 2 = 1
  · simp [h]
    omega
  · simp [h]
    omega

/-- The hash shape of a class and an index, in words. -/
theorem typeV22HashShape_eq_some {classIdBits : UInt32} {scriptIndexBits : UInt16}
    {present : Bool} :
    typeV22HashShape classIdBits scriptIndexBits = some present ↔
      ¬ (classIdBits = uint32Max ∧ 0x8000 ≤ scriptIndexBits) ∧
        (present = true ↔ classIdBits = 114 ∨ scriptIndexBits < 0x8000) := by
  have hnegative := scriptIndex_negative scriptIndexBits
  unfold typeV22HashShape
  dsimp only
  by_cases hindex : 0x8000 ≤ scriptIndexBits
  · rw [hnegative.mpr hindex]
    have hlt : ¬ scriptIndexBits < 0x8000 := UInt16.not_lt.mpr hindex
    by_cases hclass : classIdBits = uint32Max
    · simp [hclass, hindex]
    · rw [if_neg (by simp [hclass])]
      cases present <;> simp [hclass, hlt]
  · have hfalse : (scriptIndexBits &&& 0x8000 != 0) = false := by
      rw [← Bool.not_eq_true, hnegative]
      exact hindex
    have hlt : scriptIndexBits < 0x8000 := UInt16.not_le.mp hindex
    rw [hfalse]
    cases present <;> simp [hlt]

theorem encodeNat_one (endianSelector : UInt8) (n : ℕ) :
    encodeNat endianSelector 1 n = [n.toUInt8] := by
  unfold encodeNat
  split <;> rfl

theorem encodeNat_byte (endianSelector byte : UInt8) :
    encodeNat endianSelector 1 byte.toNat = [byte] := by
  rw [encodeNat_one]
  simp

theorem toNat_toUInt16 {n : ℕ} (hn : n < 2 ^ 16) : n.toUInt16.toNat = n := by
  rw [Nat.toUInt16, UInt16.toNat_ofNat']
  exact Nat.mod_eq_of_lt hn

theorem toNat_toUInt64 {n : ℕ} (hn : n < 2 ^ 64) : n.toUInt64.toNat = n := by
  rw [Nat.toUInt64, UInt64.toNat_ofNat']
  exact Nat.mod_eq_of_lt hn

theorem Holds.stop {width : ℕ} (h : source.Holds at_ width) : source.Holds (at_ + width) 0 := h

theorem Holds.text {width : ℕ} (h : source.Holds at_ width) :
    ∃ text : Text, text.length = width ∧ source.Spells at_ text := ⟨_, spells_bytes h⟩

theorem spells_nil : source.Spells at_ [] ↔ source.Holds at_ 0 :=
  ⟨Spells.holds, fun h => ⟨h, List.nil_prefix⟩⟩

/-- A field that may be absent is spelled by no text then. -/
theorem takeWhen_spells {present : Bool} {width : ℕ} {span : Option PrefixSpan}
    (hat : source.Holds at_ 0) (h : source.takeWhen present width at_ = some (span, d)) :
    ∃ text : Option Text, text.isSome = present ∧ (∀ bytes ∈ text, bytes.length = width) ∧
      source.Spells at_ (text.getD []) ∧ d = .taken (text.getD []).length := by
  rcases takeWhen_eq_some.mp h with ⟨rfl, hholds, -, rfl⟩ | ⟨rfl, -, rfl⟩
  · obtain ⟨hsize, hspells⟩ := spells_bytes hholds
    refine ⟨some ((PrefixSpan.mk at_ width).bytes source.bytes), rfl, ?_, hspells,
      by rw [Option.getD_some, hsize]⟩
    rintro bytes ⟨⟩
    exact hsize
  · exact ⟨none, rfl, by simp, spells_nil.mpr hat, rfl⟩

theorem takeWhen_of_spells {present : Bool} {width : ℕ} {text : Option Text}
    (hpresent : text.isSome = present) (hsize : ∀ bytes ∈ text, bytes.length = width)
    (h : source.Spells at_ (text.getD [])) :
    ∃ span, source.takeWhen present width at_ = some (span, .taken (text.getD []).length) := by
  cases text with
  | none =>
      obtain rfl : false = present := hpresent
      exact ⟨none, takeWhen_eq_some.mpr (Or.inr ⟨rfl, rfl, rfl⟩)⟩
  | some bytes =>
      obtain rfl : true = present := hpresent
      have hwidth := hsize bytes rfl
      refine ⟨_, takeWhen_eq_some.mpr (Or.inl ⟨rfl, hwidth ▸ h.holds, rfl, ?_⟩)⟩
      rw [Option.getD_some, hwidth]

theorem recognizes_typePrefix :
    source.Recognizes (fun _ => source.typePrefix) (TypeText.encode source.endianSelector)
      (fun _ => TypeText.Valid) where
  sound i at_ row d h := by
    obtain ⟨_, d₁, _, hclass, h₁, rfl⟩ := Decoder.bind_eq_some.mp h
    obtain ⟨hclassHolds, rfl, rfl⟩ := take_eq_some.mp hclass
    obtain ⟨_, d₂, _, hstripped, h₂, rfl⟩ := Decoder.bind_eq_some.mp h₁
    obtain ⟨hstrippedHolds, rfl, rfl⟩ := take_eq_some.mp hstripped
    obtain ⟨_, d₃, _, hindex, h₃, rfl⟩ := Decoder.bind_eq_some.mp h₂
    obtain ⟨hindexHolds, rfl, rfl⟩ := take_eq_some.mp hindex
    obtain ⟨present, d₄, _, hshape, h₄, rfl⟩ := Decoder.bind_eq_some.mp h₃
    obtain ⟨hsome, rfl⟩ := Decoder.ofOption_eq_some.mp hshape
    obtain ⟨scriptHash, d₅, _, hscript, h₅, rfl⟩ := Decoder.bind_eq_some.mp h₄
    obtain ⟨_, d₆, _, htype, hp, rfl⟩ := Decoder.bind_eq_some.mp h₅
    obtain ⟨htypeHolds, rfl, rfl⟩ := take_eq_some.mp htype
    obtain ⟨rfl, rfl⟩ := Decoder.pure_eq_some.mp hp
    -- every field spells what it is decoded to
    obtain ⟨hexcluded, hpresent⟩ := typeV22HashShape_eq_some.mp hsome
    have hclassSpells := spells_decode hclassHolds
    rw [← toNat_toUInt32 (decode_lt hclassHolds)] at hclassSpells
    have hstrippedSpells := spells_decode hstrippedHolds
    rw [encodeNat_one] at hstrippedSpells
    have hindexSpells := spells_decode hindexHolds
    rw [← toNat_toUInt16 (decode_lt hindexHolds)] at hindexSpells
    obtain ⟨hash, rfl, hhashSize, hhashSpells, rfl⟩ := takeWhen_spells hindexHolds.stop hscript
    obtain ⟨typeHash, htypeSize, htypeSpells⟩ := htypeHolds.text
    refine ⟨⟨(source.decode ⟨at_, 4⟩).toUInt32, (source.decode ⟨at_ + 4, 1⟩).toUInt8,
      (source.decode ⟨at_ + 4 + 1, 2⟩).toUInt16, hash, typeHash⟩,
      ⟨hexcluded, hpresent, hhashSize, htypeSize⟩, ?_, ?_⟩
    · simp only [TypeText.encode, spells_append, List.length_append, length_encodeNat,
        List.length_singleton]
      refine ⟨⟨⟨⟨hclassSpells, hstrippedSpells⟩, hindexSpells⟩, hhashSpells⟩, ?_⟩
      simpa [ScanCost.taken, Nat.add_assoc] using htypeSpells
    · simp [TypeText.encode, ScanCost.taken, htypeSize]
      omega
  complete i at_ type hvalid hspells := by
    simp only [TypeText.encode, spells_append, List.length_append, length_encodeNat,
      List.length_singleton] at hspells
    obtain ⟨⟨⟨⟨hclass, hstripped⟩, hindex⟩, hhash⟩, htype⟩ := hspells
    obtain ⟨hclassHolds, hclassValue⟩ := hclass.decode type.classIdBits.toNat_lt
    rw [← encodeNat_byte source.endianSelector] at hstripped
    obtain ⟨hstrippedHolds, hstrippedValue⟩ := hstripped.decode type.strippedRaw.toNat_lt
    obtain ⟨hindexHolds, hindexValue⟩ := hindex.decode type.scriptIndexBits.toNat_lt
    obtain ⟨span, hscript⟩ := takeWhen_of_spells rfl hvalid.scriptHashSize hhash
    -- the shape is decided by fields that are decoded already
    have hshape : typeV22HashShape type.classIdBits type.scriptIndexBits =
        some type.scriptHash.isSome :=
      typeV22HashShape_eq_some.mpr ⟨hvalid.shape, hvalid.scriptHash⟩
    refine ⟨_, _, Decoder.bind_eq_some.mpr ⟨_, _, _, take_eq_some.mpr ⟨hclassHolds, rfl, rfl⟩,
      Decoder.bind_eq_some.mpr ⟨_, _, _, take_eq_some.mpr ⟨hstrippedHolds, rfl, rfl⟩,
      Decoder.bind_eq_some.mpr ⟨_, _, _, take_eq_some.mpr ⟨hindexHolds, rfl, rfl⟩,
      Decoder.bind_eq_some.mpr ⟨type.scriptHash.isSome, _, _,
        Decoder.ofOption_eq_some.mpr ⟨?_, rfl⟩,
      Decoder.bind_eq_some.mpr ⟨_, _, _, hscript,
      Decoder.bind_eq_some.mpr ⟨_, _, _, take_eq_some.mpr ⟨?_, rfl, rfl⟩,
        Decoder.pure_eq_some.mpr ⟨rfl, rfl⟩, rfl⟩, rfl⟩, rfl⟩, rfl⟩, rfl⟩, rfl⟩, ?_⟩
    · show typeV22HashShape (source.decode ⟨at_, 4⟩).toUInt32
        (source.decode ⟨at_ + (4 + 1), 2⟩).toUInt16 = _
      rw [hclassValue, hindexValue]
      simpa using hshape
    · have hholds := htype.holds
      rw [hvalid.typeHashSize] at hholds
      simpa [ScanCost.taken, Nat.add_assoc] using hholds
    · simp [TypeText.encode, ScanCost.taken, hvalid.typeHashSize]
      omega

theorem recognizes_tree :
    source.Recognizes (fun _ => source.tree) (TreeText.encode source.endianSelector)
      (fun _ => TreeText.Valid) where
  sound i at_ row d h := by
    obtain ⟨⟨_, count⟩, d₁, _, hcount, h₁, rfl⟩ := Decoder.bind_eq_some.mp h
    obtain ⟨hcountSpells, hcountBytes⟩ := readU32_spells hcount
    obtain ⟨_, d₂, _, hne, h₂, rfl⟩ := Decoder.bind_eq_some.mp h₁
    obtain ⟨hnonzero, rfl⟩ := Decoder.require_eq_some.mp hne
    obtain ⟨_, d₃, _, hnodes, h₃, rfl⟩ := Decoder.bind_eq_some.mp h₂
    obtain rfl := Decoder.spend_eq_some.mp hnodes
    obtain ⟨⟨_, size⟩, d₄, _, hsize, h₄, rfl⟩ := Decoder.bind_eq_some.mp h₃
    obtain ⟨hsizeSpells, hsizeBytes⟩ := readU32_spells hsize
    obtain ⟨_, d₅, _, hstrings, h₅, rfl⟩ := Decoder.bind_eq_some.mp h₄
    obtain rfl := Decoder.spend_eq_some.mp hstrings
    obtain ⟨_, d₆, _, hrecords, h₆, rfl⟩ := Decoder.bind_eq_some.mp h₅
    obtain ⟨hrecordsHolds, rfl, rfl⟩ := take_eq_some.mp hrecords
    obtain ⟨_, d₇, _, hbuffer, hp, rfl⟩ := Decoder.bind_eq_some.mp h₆
    obtain ⟨hbufferHolds, rfl, rfl⟩ := take_eq_some.mp hbuffer
    obtain ⟨rfl, rfl⟩ := Decoder.pure_eq_some.mp hp
    -- the two buffers are taken as they stand
    obtain ⟨nodes, hnodesSize, hnodesSpells⟩ := hrecordsHolds.text
    obtain ⟨strings, hstringsSize, hstringsSpells⟩ := hbufferHolds.text
    refine ⟨⟨nodes, strings⟩, ⟨⟨count.toNat, ?_, count.toNat_lt, hnodesSize⟩, ?_⟩, ?_, ?_⟩
    · intro hzero
      exact hnonzero (UInt32.toNat_inj.mp hzero)
    · rw [hstringsSize]
      exact size.toNat_lt
    · have hdiv : nodes.length / 32 = count.toNat := by omega
      simp only [TreeText.encode, spells_append, List.length_append, length_encodeNat, hdiv,
        hstringsSize]
      simp only [ScanCost.width_eq, hcountBytes, hsizeBytes, ScanCost.zero_bytes, Nat.add_zero]
        at hsizeSpells hnodesSpells hstringsSpells
      refine ⟨⟨⟨hcountSpells, hsizeSpells⟩, hnodesSpells⟩, ?_⟩
      simpa [ScanCost.taken, hnodesSize, Nat.add_assoc] using hstringsSpells
    · simp [TreeText.encode, ScanCost.taken, hcountBytes, hsizeBytes, hnodesSize, hstringsSize]
  complete i at_ tree hvalid hspells := by
    obtain ⟨⟨count, hne, hlt, hnodesSize⟩, hstrings⟩ := hvalid
    -- the number of nodes is recovered from the size of their records
    have hdiv : tree.nodes.length / 32 = count := by omega
    simp only [TreeText.encode, spells_append, List.length_append, length_encodeNat, hdiv]
      at hspells
    obtain ⟨⟨⟨hcount, hsize⟩, hnodes⟩, hbuffer⟩ := hspells
    have hnat := toNat_toUInt32 hlt
    have hnat' := toNat_toUInt32 hstrings
    have hnonzero : count.toUInt32 ≠ 0 := by
      rw [ne_eq, ← UInt32.toNat_inj, hnat]
      exact hne
    refine ⟨_, _, Decoder.bind_eq_some.mpr ⟨_, _, _, readU32_of_spells hlt hcount,
      Decoder.bind_eq_some.mpr ⟨(), 0, _, Decoder.require_eq_some.mpr ⟨hnonzero, rfl⟩,
      Decoder.bind_eq_some.mpr ⟨(), _, _, Decoder.spend_eq_some.mpr rfl,
      Decoder.bind_eq_some.mpr ⟨_, _, _, readU32_of_spells hstrings hsize,
      Decoder.bind_eq_some.mpr ⟨(), _, _, Decoder.spend_eq_some.mpr rfl,
      Decoder.bind_eq_some.mpr ⟨_, _, _, take_of_spells hnodes (by rw [hnat, hnodesSize]),
      Decoder.bind_eq_some.mpr ⟨_, _, _, take_eq_some.mpr ⟨?_, rfl, rfl⟩,
        Decoder.pure_eq_some.mpr ⟨rfl, rfl⟩, rfl⟩, rfl⟩, rfl⟩, rfl⟩, rfl⟩, rfl⟩, rfl⟩, ?_⟩
    · have hholds := hbuffer.holds
      rw [hnodesSize] at hholds
      simpa [ScanCost.taken, hnat, hnat', Nat.add_assoc] using hholds
    · simp [TreeText.encode, ScanCost.taken, hnat, hnat', hnodesSize]

theorem recognizes_directoryTree :
    source.Recognizes (fun _ => source.directoryTree)
      (fun body : TreeText × Text => body.1.encode source.endianSelector ++
        encodeDependencies source.endianSelector body.2)
      (fun _ body => body.1.Valid ∧ ValidDependencies body.2) where
  sound i at_ row d h := by
    obtain ⟨_, d₁, _, htree, h₁, rfl⟩ := Decoder.bind_eq_some.mp h
    obtain ⟨tree, hvalid, htreeSpells, htreeBytes⟩ := recognizes_tree.sound 0 _ _ _ htree
    obtain ⟨⟨_, count⟩, d₂, _, hcount, h₂, rfl⟩ := Decoder.bind_eq_some.mp h₁
    obtain ⟨hcountSpells, hmax, hcountBytes⟩ := readCount_spells hcount
    obtain ⟨_, d₃, _, hspend, h₃, rfl⟩ := Decoder.bind_eq_some.mp h₂
    obtain rfl := Decoder.spend_eq_some.mp hspend
    obtain ⟨_, d₄, _, hwords, hp, rfl⟩ := Decoder.bind_eq_some.mp h₃
    obtain ⟨hwordsHolds, rfl, rfl⟩ := take_eq_some.mp hwords
    obtain ⟨rfl, rfl⟩ := Decoder.pure_eq_some.mp hp
    obtain ⟨words, hwordsSize, hwordsSpells⟩ := hwordsHolds.text
    refine ⟨(tree, words), ⟨hvalid, count.toNat, hmax, hwordsSize⟩, ?_, ?_⟩
    · have hdiv : words.length / 4 = count.toNat := by omega
      simp only [encodeDependencies, spells_append, length_encodeNat, hdiv]
      simp only [ScanCost.width_eq, htreeBytes, hcountBytes, Nat.add_zero]
        at hcountSpells hwordsSpells
      exact ⟨htreeSpells, hcountSpells, hwordsSpells⟩
    · simp [encodeDependencies, ScanCost.taken, htreeBytes, hcountBytes, hwordsSize]
  complete i at_ body hvalid hspells := by
    obtain ⟨tree, words⟩ := body
    obtain ⟨hvalid, count, hmax, hwordsSize⟩ := hvalid
    have hsize : words.length = count * 4 := hwordsSize
    have hdiv : words.length / 4 = count := by omega
    simp only [encodeDependencies, spells_append, length_encodeNat, hdiv] at hspells
    obtain ⟨htreeSpells, hcount, hwords⟩ := hspells
    obtain ⟨row, d, htree, hbytes⟩ := recognizes_tree.complete 0 at_ tree hvalid htreeSpells
    have hnat := toNat_toUInt32 (int32Max_lt hmax)
    rw [← hbytes] at hcount hwords
    refine ⟨_, _, Decoder.bind_eq_some.mpr ⟨_, _, _, htree,
      Decoder.bind_eq_some.mpr ⟨_, _, _, readCount_of_spells hmax hcount,
      Decoder.bind_eq_some.mpr ⟨(), _, _, Decoder.spend_eq_some.mpr rfl,
      Decoder.bind_eq_some.mpr ⟨_, _, _, take_of_spells hwords (by rw [hnat, hwordsSize]),
        Decoder.pure_eq_some.mpr ⟨rfl, rfl⟩, rfl⟩, rfl⟩, rfl⟩, rfl⟩, ?_⟩
    simp [encodeDependencies, ScanCost.taken, hbytes, hnat, hwordsSize]

theorem recognizes_directoryType (hasTree : Bool) :
    source.Recognizes (source.directoryType hasTree) (OrdinaryText.encode source.endianSelector)
      (fun _ => OrdinaryText.Valid hasTree) where
  sound i at_ row d h := by
    obtain ⟨_, d₁, _, hstart, h₁, rfl⟩ := Decoder.bind_eq_some.mp h
    obtain ⟨rfl, rfl⟩ := Decoder.position_eq_some.mp hstart
    obtain ⟨_, d₂, _, htype, h₂, rfl⟩ := Decoder.bind_eq_some.mp h₁
    obtain ⟨type, hvalid, htypeSpells, htypeBytes⟩ := recognizes_typePrefix.sound 0 _ _ _ htype
    obtain ⟨⟨_, _⟩, d₃, _, hwhen, h₃, rfl⟩ := Decoder.bind_eq_some.mp h₂
    obtain ⟨_, d₄, _, hspend, h₄, rfl⟩ := Decoder.bind_eq_some.mp h₃
    obtain rfl := Decoder.spend_eq_some.mp hspend
    obtain ⟨_, d₅, _, hstop, hp, rfl⟩ := Decoder.bind_eq_some.mp h₄
    obtain ⟨rfl, rfl⟩ := Decoder.position_eq_some.mp hstop
    obtain ⟨rfl, rfl⟩ := Decoder.pure_eq_some.mp hp
    -- a body follows exactly where the file says it has trees
    have hwidth : at_ + Cost.width (0 : ScanCost) + Cost.width d₂ =
        at_ + (type.encode source.endianSelector).length := by
      simp [htypeBytes]
    rw [hwidth] at hwhen
    cases hasTree with
    | false =>
        obtain ⟨hpair, rfl⟩ := Decoder.pure_eq_some.mp hwhen
        cases hpair
        refine ⟨⟨type, none⟩, ⟨hvalid, rfl, by simp⟩, ?_, ?_⟩
        · simpa [OrdinaryText.encode, OrdinaryText.encodeBody] using htypeSpells
        · simp [OrdinaryText.encode, OrdinaryText.encodeBody, htypeBytes]
    | true =>
        obtain ⟨⟨_, _⟩, d₆, _, hbody, hpair, rfl⟩ := Decoder.bind_eq_some.mp hwhen
        obtain ⟨⟨tree, words⟩, hbodyValid, hbodySpells, hbodyBytes⟩ :=
          recognizes_directoryTree.sound 0 _ _ _ hbody
        obtain ⟨hpair, rfl⟩ := Decoder.pure_eq_some.mp hpair
        cases hpair
        refine ⟨⟨type, some (tree, words)⟩, ⟨hvalid, rfl, ?_⟩, ?_, ?_⟩
        · rintro tree' words' ⟨⟩
          exact hbodyValid
        · exact spells_append.mpr ⟨htypeSpells, hbodySpells⟩
        · simp only [OrdinaryText.encode, OrdinaryText.encodeBody]
          rw [List.length_append, ← htypeBytes, ← hbodyBytes]
          simp
  complete i at_ row hvalid hspells := by
    obtain ⟨type, body⟩ := row
    obtain ⟨htypeSpells, hbodySpells⟩ := spells_append.mp hspells
    obtain ⟨prefixRow, d, htype, hbytes⟩ :=
      recognizes_typePrefix.complete 0 at_ type hvalid.type htypeSpells
    have hstop : source.directoryTreeWhen hasTree (at_ + (type.encode
        source.endianSelector).length) = source.directoryTreeWhen hasTree
          (at_ + Cost.width (0 : ScanCost) + Cost.width d) := by simp [hbytes]
    obtain ⟨parts, e, hwhen, hwhenBytes⟩ : ∃ parts e, source.directoryTreeWhen hasTree
        (at_ + (type.encode source.endianSelector).length) = some (parts, e) ∧
        e.bytes = (OrdinaryText.encodeBody source.endianSelector body).length := by
      obtain rfl : body.isSome = hasTree := hvalid.present
      cases body with
      | none => exact ⟨_, _, Decoder.pure_eq_some.mpr ⟨rfl, rfl⟩, rfl⟩
      | some body =>
          obtain ⟨tree, words⟩ := body
          obtain ⟨⟨treeRow, dependencies⟩, e, hbody, hbodyBytes⟩ :=
            recognizes_directoryTree.complete 0 _ (tree, words) (hvalid.body tree words rfl)
              hbodySpells
          refine ⟨_, _, Decoder.bind_eq_some.mpr ⟨_, _, _, hbody,
            Decoder.pure_eq_some.mpr ⟨rfl, rfl⟩, rfl⟩, ?_⟩
          simpa [OrdinaryText.encodeBody] using hbodyBytes
    rw [hstop] at hwhen
    refine ⟨_, _, Decoder.bind_eq_some.mpr ⟨_, _, _, Decoder.position_eq_some.mpr ⟨rfl, rfl⟩,
      Decoder.bind_eq_some.mpr ⟨_, _, _, htype, Decoder.bind_eq_some.mpr ⟨_, _, _, hwhen,
      Decoder.bind_eq_some.mpr ⟨(), _, _, Decoder.spend_eq_some.mpr rfl,
      Decoder.bind_eq_some.mpr ⟨_, _, _, Decoder.position_eq_some.mpr ⟨rfl, rfl⟩,
        Decoder.pure_eq_some.mpr ⟨rfl, rfl⟩, rfl⟩, rfl⟩, rfl⟩, rfl⟩, rfl⟩, ?_⟩
    simp [OrdinaryText.encode, hbytes, hwhenBytes]

/-! ## The other rows -/

/-- Part of what is held. -/
theorem Holds.part {width : ℕ} (h : source.Holds at_ width) (offset size : ℕ)
    (hpart : offset + size ≤ width) : source.Holds (at_ + offset) size := by
  obtain ⟨hend, hmapped⟩ := h
  exact ⟨by omega, by omega⟩

theorem recognizes_directoryObject (header : HeaderView) (typeCount : ℕ) :
    source.Recognizes (source.directoryObject header typeCount)
      (ObjectText.encode source.endianSelector)
      (fun _ => ObjectText.Valid (header.fileSize - header.dataOffset) typeCount) where
  sound i at_ row d h := by
    obtain ⟨_, d₁, _, htake, h₁, rfl⟩ := Decoder.bind_eq_some.mp h
    obtain ⟨hholds, rfl, rfl⟩ := take_eq_some.mp htake
    obtain ⟨_, d₂, _, hoffset, h₂, rfl⟩ := Decoder.bind_eq_some.mp h₁
    obtain ⟨hoffsetLe, rfl⟩ := Decoder.require_eq_some.mp hoffset
    obtain ⟨_, d₃, _, hsize, h₃, rfl⟩ := Decoder.bind_eq_some.mp h₂
    obtain ⟨hsizeLe, rfl⟩ := Decoder.require_eq_some.mp hsize
    obtain ⟨_, d₄, _, htype, h₄, rfl⟩ := Decoder.bind_eq_some.mp h₃
    obtain ⟨htypeLt, rfl⟩ := Decoder.require_eq_some.mp htype
    obtain ⟨_, d₅, _, hspend, hp, rfl⟩ := Decoder.bind_eq_some.mp h₄
    obtain rfl := Decoder.spend_eq_some.mp hspend
    obtain ⟨rfl, rfl⟩ := Decoder.pure_eq_some.mp hp
    have hpath := hholds.part 0 8 (by omega)
    have hrelative := hholds.part 8 8 (by omega)
    have hbytes := hholds.part 16 4 (by omega)
    have hordinal := hholds.part 20 4 (by omega)
    have hrelativeNat := toNat_toUInt64 (decode_lt hrelative)
    refine ⟨⟨(source.decode ⟨at_ + 0, 8⟩).toUInt64, (source.decode ⟨at_ + 8, 8⟩).toUInt64,
      (source.decode ⟨at_ + 16, 4⟩).toUInt32, (source.decode ⟨at_ + 20, 4⟩).toUInt32⟩,
      ⟨?_, htypeLt⟩, ?_, ?_⟩
    · have hle : source.decode ⟨at_ + 8, 8⟩ ≤ header.fileSize - header.dataOffset := hoffsetLe
      have hle' : (source.decode ⟨at_ + 16, 4⟩).toUInt32.toNat ≤
          header.fileSize - header.dataOffset - source.decode ⟨at_ + 8, 8⟩ := hsizeLe
      show (source.decode ⟨at_ + 8, 8⟩).toUInt64.toNat +
        (source.decode ⟨at_ + 16, 4⟩).toUInt32.toNat ≤ _
      omega
    · simp only [ObjectText.encode, spells_append, List.length_append, length_encodeNat]
      rw [toNat_toUInt64 (decode_lt hpath), hrelativeNat, toNat_toUInt32 (decode_lt hbytes),
        toNat_toUInt32 (decode_lt hordinal)]
      exact ⟨⟨⟨spells_decode hpath, spells_decode hrelative⟩, spells_decode hbytes⟩,
        spells_decode hordinal⟩
    · simp [ObjectText.encode, ScanCost.taken]
  complete i at_ object hvalid hspells := by
    have hholds := hspells.holds
    simp only [ObjectText.encode, List.length_append, length_encodeNat] at hholds
    simp only [ObjectText.encode, spells_append, List.length_append, length_encodeNat] at hspells
    obtain ⟨⟨⟨hpath, hrelative⟩, hbytes⟩, hordinal⟩ := hspells
    obtain ⟨-, hrelativeValue⟩ := hrelative.decode object.relativeDataOffset.toNat_lt
    obtain ⟨-, hbytesValue⟩ := hbytes.decode object.byteSize.toNat_lt
    obtain ⟨-, hordinalValue⟩ := hordinal.decode object.typeOrdinal.toNat_lt
    obtain ⟨hpayload, htype⟩ := hvalid
    refine ⟨_, _, Decoder.bind_eq_some.mpr ⟨_, _, _, take_eq_some.mpr ⟨hholds, rfl, rfl⟩,
      Decoder.bind_eq_some.mpr ⟨(), 0, _, Decoder.require_eq_some.mpr ⟨?_, rfl⟩,
      Decoder.bind_eq_some.mpr ⟨(), 0, _, Decoder.require_eq_some.mpr ⟨?_, rfl⟩,
      Decoder.bind_eq_some.mpr ⟨(), 0, _, Decoder.require_eq_some.mpr ⟨?_, rfl⟩,
      Decoder.bind_eq_some.mpr ⟨(), _, _, Decoder.spend_eq_some.mpr rfl,
        Decoder.pure_eq_some.mpr ⟨rfl, rfl⟩, rfl⟩, rfl⟩, rfl⟩, rfl⟩, rfl⟩, ?_⟩
    · show source.decode ⟨at_ + 8, 8⟩ ≤ _
      omega
    · show (source.decode ⟨at_ + 16, 4⟩).toUInt32.toNat ≤ _ - source.decode ⟨at_ + 8, 8⟩
      rw [hbytesValue, toNat_toUInt32 object.byteSize.toNat_lt]
      omega
    · show (source.decode ⟨at_ + 20, 4⟩).toUInt32.toNat < _
      rw [hordinalValue, toNat_toUInt32 object.typeOrdinal.toNat_lt]
      exact htype
    · simp [ObjectText.encode, ScanCost.taken]

theorem recognizes_script :
    source.Recognizes source.script (ScriptText.encode source.endianSelector)
      ScriptText.Valid where
  sound i at_ row d h := by
    obtain ⟨_, d₁, _, hstart, h₁, rfl⟩ := Decoder.bind_eq_some.mp h
    obtain ⟨rfl, rfl⟩ := Decoder.position_eq_some.mp hstart
    obtain ⟨⟨_, fileIndex⟩, d₂, _, hindex, h₂, rfl⟩ := Decoder.bind_eq_some.mp h₁
    obtain ⟨hindexSpells, hindexBytes⟩ := readU32_spells hindex
    obtain ⟨_, d₃, _, hposition, h₃, rfl⟩ := Decoder.bind_eq_some.mp h₂
    obtain ⟨rfl, rfl⟩ := Decoder.position_eq_some.mp hposition
    obtain ⟨_, d₄, _, hpadding, h₄, rfl⟩ := Decoder.bind_eq_some.mp h₃
    obtain ⟨hpaddingHolds, rfl, rfl⟩ := take_eq_some.mp hpadding
    obtain ⟨_, d₅, _, hidentifier, h₅, rfl⟩ := Decoder.bind_eq_some.mp h₄
    obtain ⟨hidentifierHolds, rfl, rfl⟩ := take_eq_some.mp hidentifier
    obtain ⟨_, d₆, _, hspend, h₆, rfl⟩ := Decoder.bind_eq_some.mp h₅
    obtain rfl := Decoder.spend_eq_some.mp hspend
    obtain ⟨_, d₇, _, hstop, hp, rfl⟩ := Decoder.bind_eq_some.mp h₆
    obtain ⟨rfl, rfl⟩ := Decoder.position_eq_some.mp hstop
    obtain ⟨rfl, rfl⟩ := Decoder.pure_eq_some.mp hp
    simp only [ScanCost.width_eq, hindexBytes, ScanCost.zero_bytes, Nat.add_zero, ScanCost.taken]
      at hindexSpells hpaddingHolds hidentifierHolds
    obtain ⟨alignment, hsize, hpaddingSpells⟩ := hpaddingHolds.text
    have hidentifierSpells := spells_decode hidentifierHolds
    rw [← toNat_toUInt64 (decode_lt hidentifierHolds)] at hidentifierSpells
    refine ⟨⟨fileIndex, alignment,
      (source.decode ⟨at_ + 4 + metadataPadding (at_ + 4), 8⟩).toUInt64⟩,
      aligns_iff.mpr hsize, ?_, ?_⟩
    · simp only [ScriptText.encode, spells_append, List.length_append, length_encodeNat, hsize]
      exact ⟨⟨hindexSpells, hpaddingSpells⟩, by simpa [Nat.add_assoc] using hidentifierSpells⟩
    · simp [ScriptText.encode, ScanCost.taken, hindexBytes, hsize]
  complete i at_ script hvalid hspells := by
    have hsize := aligns_iff.mp hvalid
    simp only [ScriptText.encode, spells_append, List.length_append, length_encodeNat] at hspells
    obtain ⟨⟨hindex, hpadding⟩, hidentifier⟩ := hspells
    refine ⟨_, _, Decoder.bind_eq_some.mpr ⟨_, _, _, Decoder.position_eq_some.mpr ⟨rfl, rfl⟩,
      Decoder.bind_eq_some.mpr ⟨_, _, _, readU32_of_spells script.fileIndexBits.toNat_lt hindex,
      Decoder.bind_eq_some.mpr ⟨_, _, _, Decoder.position_eq_some.mpr ⟨rfl, rfl⟩,
      Decoder.bind_eq_some.mpr ⟨_, _, _, take_of_spells hpadding hsize,
      Decoder.bind_eq_some.mpr ⟨_, _, _, take_eq_some.mpr ⟨?_, rfl, rfl⟩,
      Decoder.bind_eq_some.mpr ⟨(), _, _, Decoder.spend_eq_some.mpr rfl,
      Decoder.bind_eq_some.mpr ⟨_, _, _, Decoder.position_eq_some.mpr ⟨rfl, rfl⟩,
        Decoder.pure_eq_some.mpr ⟨rfl, rfl⟩, rfl⟩, rfl⟩, rfl⟩, rfl⟩, rfl⟩, rfl⟩, rfl⟩, ?_⟩
    · have hholds := hidentifier.holds
      rw [length_encodeNat, hsize] at hholds
      simpa [ScanCost.taken, Nat.add_assoc] using hholds
    · simp [ScriptText.encode, ScanCost.taken, hsize]

theorem recognizes_external :
    source.Recognizes source.external (ExternalText.encode source.endianSelector)
      (fun _ => ExternalText.Valid) where
  sound i at_ row d h := by
    obtain ⟨_, d₁, _, hstart, h₁, rfl⟩ := Decoder.bind_eq_some.mp h
    obtain ⟨rfl, rfl⟩ := Decoder.position_eq_some.mp hstart
    obtain ⟨_, d₂, _, hleading, h₂, rfl⟩ := Decoder.bind_eq_some.mp h₁
    obtain ⟨leading, hleadingValid, hleadingSpells, hleadingBytes⟩ :=
      recognizes_string.sound 0 _ _ _ hleading
    obtain ⟨_, d₃, _, hguid, h₃, rfl⟩ := Decoder.bind_eq_some.mp h₂
    obtain ⟨hguidHolds, rfl, rfl⟩ := take_eq_some.mp hguid
    obtain ⟨⟨_, type⟩, d₄, _, htype, h₄, rfl⟩ := Decoder.bind_eq_some.mp h₃
    obtain ⟨htypeSpells, htypeBytes⟩ := readU32_spells htype
    obtain ⟨_, d₅, _, hpath, h₅, rfl⟩ := Decoder.bind_eq_some.mp h₄
    obtain ⟨path, hpathValid, hpathSpells, hpathBytes⟩ := recognizes_string.sound 0 _ _ _ hpath
    obtain ⟨_, d₆, _, hspend, h₆, rfl⟩ := Decoder.bind_eq_some.mp h₅
    obtain rfl := Decoder.spend_eq_some.mp hspend
    obtain ⟨_, d₇, _, hstop, hp, rfl⟩ := Decoder.bind_eq_some.mp h₆
    obtain ⟨rfl, rfl⟩ := Decoder.position_eq_some.mp hstop
    obtain ⟨rfl, rfl⟩ := Decoder.pure_eq_some.mp hp
    obtain ⟨guid, hguidSize, hguidSpells⟩ := hguidHolds.text
    refine ⟨⟨leading, guid, type, path⟩, ⟨hleadingValid, hguidSize, hpathValid⟩, ?_, ?_⟩
    · simp only [ScanCost.width_eq, hleadingBytes, htypeBytes, ScanCost.zero_bytes, Nat.add_zero,
        ScanCost.taken] at hleadingSpells hguidSpells htypeSpells hpathSpells
      simp only [ExternalText.encode, spells_append, List.length_append, length_encodeNat,
        hguidSize]
      exact ⟨⟨⟨hleadingSpells, hguidSpells⟩, by simpa [Nat.add_assoc] using htypeSpells⟩,
        by simpa [Nat.add_assoc] using hpathSpells⟩
    · simp [ExternalText.encode, ScanCost.taken, hleadingBytes, htypeBytes, hpathBytes, hguidSize]
  complete i at_ row hvalid hspells := by
    obtain ⟨hleadingValid, hguidSize, hpathValid⟩ := hvalid
    simp only [ExternalText.encode, spells_append, List.length_append, length_encodeNat,
      hguidSize] at hspells
    obtain ⟨⟨⟨hleading, hguid⟩, htype⟩, hpath⟩ := hspells
    obtain ⟨_, d, hread, hbytes⟩ := recognizes_string.complete 0 _ _ hleadingValid hleading
    obtain ⟨path, e, hread', hbytes'⟩ := recognizes_string.complete 0 _ _ hpathValid hpath
    rw [← hbytes] at hguid htype
    have hpathRead : source.terminatedString (at_ + Cost.width (0 : ScanCost) + Cost.width d +
        Cost.width (ScanCost.taken 16) + Cost.width (ScanCost.taken 4)) = some (path, e) := by
      rw [← hread']
      simp [ScanCost.taken, hbytes, Nat.add_assoc]
    refine ⟨_, _, Decoder.bind_eq_some.mpr ⟨_, _, _, Decoder.position_eq_some.mpr ⟨rfl, rfl⟩,
      Decoder.bind_eq_some.mpr ⟨_, _, _, hread,
      Decoder.bind_eq_some.mpr ⟨_, _, _, take_of_spells hguid hguidSize,
      Decoder.bind_eq_some.mpr ⟨_, _, _, readU32_of_spells row.typeBits.toNat_lt htype,
      Decoder.bind_eq_some.mpr ⟨_, _, _, hpathRead,
      Decoder.bind_eq_some.mpr ⟨(), _, _, Decoder.spend_eq_some.mpr rfl,
      Decoder.bind_eq_some.mpr ⟨_, _, _, Decoder.position_eq_some.mpr ⟨rfl, rfl⟩,
        Decoder.pure_eq_some.mpr ⟨rfl, rfl⟩, rfl⟩, rfl⟩, rfl⟩, rfl⟩, rfl⟩, rfl⟩, rfl⟩, ?_⟩
    simp [ExternalText.encode, ScanCost.taken, hbytes, hbytes', hguidSize]

/-! ## Completeness, a step at a time -/

/-- A reader succeeds and takes so many bytes. -/
def Reads {β : Type} (Q : Decoder ScanCost β) (at_ size : ℕ) : Prop :=
  ∃ b d, Q at_ = some (b, d) ∧ d.bytes = size

section Reads

variable {β γ : Type} {P : Decoder ScanCost β} {Q : β → Decoder ScanCost γ} {b : β} {size : ℕ}

theorem reads_pure (b : β) : Reads (pure b) at_ 0 :=
  ⟨b, 0, Decoder.pure_eq_some.mpr ⟨rfl, rfl⟩, rfl⟩

theorem Reads.step {taken : ℕ} (hP : P at_ = some (b, d)) (hd : d.bytes = taken)
    (hQ : Reads (Q b) (at_ + taken) size) : Reads (P >>= Q) at_ (taken + size) := by
  subst hd
  obtain ⟨c, e, hc, rfl⟩ := hQ
  exact ⟨c, d + e, Decoder.bind_eq_some.mpr ⟨b, d, e, hP, hc, rfl⟩, rfl⟩

/-- A step that takes no bytes. -/
theorem Reads.still (hP : P at_ = some (b, d)) (hd : d.bytes = 0) (hQ : Reads (Q b) at_ size) :
    Reads (P >>= Q) at_ size := by
  have h := Reads.step hP hd hQ
  rwa [Nat.zero_add] at h

/-- The last step that takes bytes. -/
theorem Reads.last (hP : P at_ = some (b, d)) (hd : d.bytes = size)
    (hQ : Reads (Q b) (at_ + size) 0) : Reads (P >>= Q) at_ size :=
  (Reads.step hP hd hQ : Reads _ at_ (size + 0))

theorem Reads.position {Q : ℕ → Decoder ScanCost γ} (hQ : Reads (Q at_) at_ size) :
    Reads (Decoder.position >>= Q) at_ size :=
  Reads.still (Decoder.position_eq_some.mpr ⟨rfl, rfl⟩) rfl hQ

theorem Reads.spend {Q : Unit → Decoder ScanCost γ} (hd : d.bytes = 0)
    (hQ : Reads (Q ()) at_ size) : Reads (Decoder.spend d >>= Q) at_ size :=
  Reads.still (Decoder.spend_eq_some.mpr rfl) hd hQ

theorem Reads.require {Q : Unit → Decoder ScanCost γ} {p : Prop} [Decidable p] (hp : p)
    (hQ : Reads (Q ()) at_ size) : Reads (Decoder.require p >>= Q) at_ size :=
  Reads.still (Decoder.require_eq_some.mpr ⟨hp, rfl⟩) rfl hQ

end Reads

/-! ## Reference types -/

theorem recognizes_referenceTree :
    source.Recognizes (fun _ => source.referenceTree)
      (fun body : TreeText × NamesText => body.1.encode source.endianSelector ++ body.2.encode)
      (fun _ body => body.1.Valid ∧ body.2.Valid) where
  sound i at_ row d h := by
    obtain ⟨_, d₁, _, htree, h₁, rfl⟩ := Decoder.bind_eq_some.mp h
    obtain ⟨tree, hvalid, htreeSpells, htreeBytes⟩ := recognizes_tree.sound 0 _ _ _ htree
    obtain ⟨_, d₂, _, hclass, h₂, rfl⟩ := Decoder.bind_eq_some.mp h₁
    obtain ⟨className, hclassValid, hclassSpells, hclassBytes⟩ :=
      recognizes_string.sound 0 _ _ _ hclass
    obtain ⟨_, d₃, _, hnamespace, h₃, rfl⟩ := Decoder.bind_eq_some.mp h₂
    obtain ⟨namespaceName, hnamespaceValid, hnamespaceSpells, hnamespaceBytes⟩ :=
      recognizes_string.sound 0 _ _ _ hnamespace
    obtain ⟨_, d₄, _, hassembly, hp, rfl⟩ := Decoder.bind_eq_some.mp h₃
    obtain ⟨assemblyName, hassemblyValid, hassemblySpells, hassemblyBytes⟩ :=
      recognizes_string.sound 0 _ _ _ hassembly
    obtain ⟨rfl, rfl⟩ := Decoder.pure_eq_some.mp hp
    simp only [ScanCost.width_eq, htreeBytes, hclassBytes, hnamespaceBytes]
      at hclassSpells hnamespaceSpells hassemblySpells
    refine ⟨(tree, ⟨className, namespaceName, assemblyName⟩),
      ⟨hvalid, hclassValid, hnamespaceValid, hassemblyValid⟩, ?_, ?_⟩
    · simp only [NamesText.encode, spells_append, List.length_append, ← Nat.add_assoc]
      exact ⟨htreeSpells, ⟨hclassSpells, hnamespaceSpells⟩, hassemblySpells⟩
    · simp [NamesText.encode, htreeBytes, hclassBytes, hnamespaceBytes, hassemblyBytes]
  complete i at_ body hvalid hspells := by
    obtain ⟨tree, names⟩ := body
    obtain ⟨htreeValid, hclassValid, hnamespaceValid, hassemblyValid⟩ := hvalid
    simp only [NamesText.encode, spells_append, List.length_append, ← Nat.add_assoc] at hspells
    obtain ⟨htree, ⟨hclass, hnamespace⟩, hassembly⟩ := hspells
    obtain ⟨_, _, htreeRead, htreeBytes⟩ := recognizes_tree.complete 0 _ _ htreeValid htree
    obtain ⟨_, _, hclassRead, hclassBytes⟩ := recognizes_string.complete 0 _ _ hclassValid hclass
    obtain ⟨_, _, hnamespaceRead, hnamespaceBytes⟩ :=
      recognizes_string.complete 0 _ _ hnamespaceValid hnamespace
    obtain ⟨_, _, hassemblyRead, hassemblyBytes⟩ :=
      recognizes_string.complete 0 _ _ hassemblyValid hassembly
    simp only [NamesText.encode, List.length_append, Nat.add_assoc]
    exact Reads.step htreeRead htreeBytes (Reads.step hclassRead hclassBytes
      (Reads.step hnamespaceRead hnamespaceBytes (Reads.last hassemblyRead hassemblyBytes (reads_pure _))))

theorem recognizes_referenceType (hasTree : Bool) :
    source.Recognizes (source.referenceType hasTree)
      (ReferenceText.encode source.endianSelector) (fun _ => ReferenceText.Valid hasTree) where
  sound i at_ row d h := by
    obtain ⟨_, d₁, _, hstart, h₁, rfl⟩ := Decoder.bind_eq_some.mp h
    obtain ⟨rfl, rfl⟩ := Decoder.position_eq_some.mp hstart
    obtain ⟨_, d₂, _, htype, h₂, rfl⟩ := Decoder.bind_eq_some.mp h₁
    obtain ⟨type, hvalid, htypeSpells, htypeBytes⟩ := recognizes_typePrefix.sound 0 _ _ _ htype
    obtain ⟨⟨_, _⟩, d₃, _, hwhen, h₃, rfl⟩ := Decoder.bind_eq_some.mp h₂
    obtain ⟨_, d₄, _, hspend, h₄, rfl⟩ := Decoder.bind_eq_some.mp h₃
    obtain rfl := Decoder.spend_eq_some.mp hspend
    obtain ⟨_, d₅, _, hstop, hp, rfl⟩ := Decoder.bind_eq_some.mp h₄
    obtain ⟨rfl, rfl⟩ := Decoder.position_eq_some.mp hstop
    obtain ⟨rfl, rfl⟩ := Decoder.pure_eq_some.mp hp
    have hwidth : at_ + Cost.width (0 : ScanCost) + Cost.width d₂ =
        at_ + (type.encode source.endianSelector).length := by
      simp [htypeBytes]
    rw [hwidth] at hwhen
    cases hasTree with
    | false =>
        obtain ⟨hpair, rfl⟩ := Decoder.pure_eq_some.mp hwhen
        cases hpair
        refine ⟨⟨type, none⟩, ⟨hvalid, rfl, by simp⟩, ?_, ?_⟩
        · simpa [ReferenceText.encode, ReferenceText.encodeBody] using htypeSpells
        · simp [ReferenceText.encode, ReferenceText.encodeBody, htypeBytes]
    | true =>
        obtain ⟨⟨_, _⟩, d₆, _, hbody, hpair, rfl⟩ := Decoder.bind_eq_some.mp hwhen
        obtain ⟨⟨tree, names⟩, hbodyValid, hbodySpells, hbodyBytes⟩ :=
          recognizes_referenceTree.sound 0 _ _ _ hbody
        obtain ⟨hpair, rfl⟩ := Decoder.pure_eq_some.mp hpair
        cases hpair
        refine ⟨⟨type, some (tree, names)⟩, ⟨hvalid, rfl, ?_⟩, ?_, ?_⟩
        · rintro tree' names' ⟨⟩
          exact hbodyValid
        · exact spells_append.mpr ⟨htypeSpells, hbodySpells⟩
        · simp only [ReferenceText.encode, ReferenceText.encodeBody]
          rw [List.length_append, ← htypeBytes, ← hbodyBytes]
          simp
  complete i at_ row hvalid hspells := by
    obtain ⟨type, body⟩ := row
    obtain ⟨htypeSpells, hbodySpells⟩ := spells_append.mp hspells
    obtain ⟨_, _, htype, hbytes⟩ :=
      recognizes_typePrefix.complete 0 at_ type hvalid.type htypeSpells
    have hwhen : Reads (source.referenceTreeWhen hasTree)
        (at_ + (type.encode source.endianSelector).length)
        (ReferenceText.encodeBody source.endianSelector body).length := by
      obtain rfl : body.isSome = hasTree := hvalid.present
      cases body with
      | none => exact reads_pure _
      | some body =>
          obtain ⟨tree, names⟩ := body
          obtain ⟨_, _, hbody, hbodyBytes⟩ :=
            recognizes_referenceTree.complete 0 _ (tree, names) (hvalid.body tree names rfl)
              hbodySpells
          exact Reads.last hbody hbodyBytes (reads_pure _)
    obtain ⟨_, _, hwhen, hwhenBytes⟩ := hwhen
    rw [ReferenceText.encode, List.length_append]
    exact Reads.position (Reads.step htype hbytes (Reads.last hwhen hwhenBytes
      (Reads.spend rfl (Reads.position (reads_pure _)))))

/-! ## Tables -/

theorem consecutive_const {α : Type} {encode : α → Text} {Valid : α → Prop} :
    ∀ {position : ℕ} {as : List α},
      Consecutive encode (fun _ => Valid) position as ↔ ∀ a ∈ as, Valid a
  | _, [] => by simp [Consecutive]
  | position, a :: as => by
      rw [Consecutive, consecutive_const, List.forall_mem_cons]

section Tables

variable {α β : Type} {Q : ℕ → Decoder ScanCost β} {encode : α → Text} {Valid : ℕ → α → Prop}

/-- Rounds of a reader find records one after the other. -/
theorem Recognizes.of_collect (hQ : source.Recognizes Q encode Valid) {start count : ℕ}
    {bs : List β} (hat : source.Holds at_ 0)
    (h : Decoder.collect Q start count at_ = some (bs, d)) :
    ∃ as, as.length = count ∧ Consecutive encode Valid at_ as ∧
      source.Spells at_ (as.flatMap encode) ∧ d.bytes = (as.flatMap encode).length := by
  induction count generalizing start at_ bs d with
  | zero =>
      obtain ⟨-, rfl⟩ := Decoder.pure_eq_some.mp h
      exact ⟨[], rfl, trivial, spells_nil.mpr hat, rfl⟩
  | succ count ih =>
      obtain ⟨b, d₁, _, hb, h₁, rfl⟩ := Decoder.bind_eq_some.mp h
      obtain ⟨rest, d₂, _, hrest, hp, rfl⟩ := Decoder.bind_eq_some.mp h₁
      obtain ⟨-, rfl⟩ := Decoder.pure_eq_some.mp hp
      obtain ⟨a, hvalid, hspells, hbytes⟩ := hQ.sound start at_ b d₁ hb
      rw [ScanCost.width_eq, hbytes] at hrest
      obtain ⟨as, rfl, hconsecutive, hrestSpells, hrestBytes⟩ := ih hspells.holds.stop hrest
      refine ⟨a :: as, rfl, ⟨hvalid, hconsecutive⟩, spells_append.mpr ⟨hspells, hrestSpells⟩, ?_⟩
      rw [List.flatMap_cons, List.length_append, ← hbytes, ← hrestBytes]
      rfl

theorem Recognizes.collect (hQ : source.Recognizes Q encode Valid) (start : ℕ) {as : List α}
    (hvalid : Consecutive encode Valid at_ as) (h : source.Spells at_ (as.flatMap encode)) :
    Reads (Decoder.collect Q start as.length) at_ (as.flatMap encode).length := by
  induction as generalizing start at_ with
  | nil => exact reads_pure _
  | cons a as ih =>
      obtain ⟨ha, has⟩ := hvalid
      obtain ⟨hspells, hrest⟩ := spells_append.mp h
      obtain ⟨_, _, hread, hbytes⟩ := hQ.complete start at_ a ha hspells
      obtain ⟨_, _, hreads, hreadsBytes⟩ := ih (start + 1) has hrest
      rw [List.flatMap_cons, List.length_append]
      exact Reads.step hread hbytes (Reads.last hreads hreadsBytes (reads_pure _))

end Tables

theorem tableCount_spells {table : Table} {span : PrefixSpan} {count : ℕ}
    (h : source.tableCount table none at_ = some ((span, count), d)) :
    source.Spells at_ (encodeNat source.endianSelector 4 count) ∧ count ≤ int32Max ∧
      d.bytes = 4 := by
  obtain ⟨⟨_, value⟩, d₁, _, hcount, h₁, rfl⟩ := Decoder.bind_eq_some.mp h
  obtain ⟨hspells, hmax, hbytes⟩ := readCount_spells hcount
  obtain ⟨_, d₂, _, hspend, h₂, rfl⟩ := Decoder.bind_eq_some.mp h₁
  obtain rfl := Decoder.spend_eq_some.mp hspend
  obtain ⟨_, d₃, _, hrequire, hp, rfl⟩ := Decoder.bind_eq_some.mp h₂
  obtain ⟨-, rfl⟩ := Decoder.require_eq_some.mp hrequire
  obtain ⟨hpair, rfl⟩ := Decoder.pure_eq_some.mp hp
  cases hpair
  exact ⟨hspells, hmax, by simp [hbytes, ScanCost.table]⟩

theorem tableCount_of_spells (table : Table) {n : ℕ} (hn : n ≤ int32Max)
    (h : source.Spells at_ (encodeNat source.endianSelector 4 n)) :
    ∃ span d, source.tableCount table none at_ = some ((span, n), d) ∧ d.bytes = 4 := by
  have hnat := toNat_toUInt32 (int32Max_lt hn)
  refine ⟨⟨at_, 4⟩, _, Decoder.bind_eq_some.mpr ⟨_, _, _, readCount_of_spells hn h,
    Decoder.bind_eq_some.mpr ⟨(), _, _, Decoder.spend_eq_some.mpr rfl,
    Decoder.bind_eq_some.mpr ⟨(), 0, 0, Decoder.require_eq_some.mpr ⟨rfl, rfl⟩,
      Decoder.pure_eq_some.mpr ⟨by rw [hnat], rfl⟩, rfl⟩, rfl⟩, rfl⟩, ?_⟩
  simp [ScanCost.taken, ScanCost.table]

/-- Objects have alignment before them only if there are any. -/
theorem objectPadding_iff {position size objectCount : ℕ} :
    size = (if objectCount ≠ 0 then metadataPadding position else 0) ↔
      (objectCount = 0 → size = 0) ∧ (objectCount ≠ 0 → Aligns position size) := by
  rw [aligns_iff]
  split <;> simp_all

theorem directory_sound {engineVersion : DirectoryEngineVersion} {prefixView : PrefixView}
    {directory : SerializedFileDirectory}
    (h : source.directory engineVersion prefixView none none at_ = some (directory, d)) :
    ∃ text : DirectoryText, text.Valid source.endianSelector (prefixView.typeTreeEnabledRaw != 0)
        (prefixView.header.fileSize - prefixView.header.dataOffset) at_ ∧
      source.Spells at_ (text.encode source.endianSelector) ∧
      d.bytes = (text.encode source.endianSelector).length ∧
      directory.view.typeCount = text.types.length ∧
      directory.view.objectCount = text.objects.length := by
  obtain ⟨⟨_, typeCount⟩, d₁, _, htypeCount, h₁, rfl⟩ := Decoder.bind_eq_some.mp h
  obtain ⟨htypeCountSpells, htypeMax, htypeCountBytes⟩ := tableCount_spells htypeCount
  obtain ⟨_, d₂, _, hstart, h₂, rfl⟩ := Decoder.bind_eq_some.mp h₁
  obtain ⟨rfl, rfl⟩ := Decoder.position_eq_some.mp hstart
  obtain ⟨types, d₃, _, htypes, h₃, rfl⟩ := Decoder.bind_eq_some.mp h₂
  simp only [ScanCost.width_eq, htypeCountBytes, ScanCost.zero_bytes, Nat.add_zero]
    at htypes h₃
  have htypesAt : source.Holds (at_ + 4) 0 := by
    have := htypeCountSpells.holds.stop
    rwa [length_encodeNat] at this
  obtain ⟨rows, rfl, hrows, hrowsSpells, hrowsBytes⟩ :=
    (recognizes_directoryType _).of_collect htypesAt htypes
  obtain ⟨_, d₄, _, hstop, h₄, rfl⟩ := Decoder.bind_eq_some.mp h₃
  obtain ⟨rfl, rfl⟩ := Decoder.position_eq_some.mp hstop
  obtain ⟨⟨_, objectCount⟩, d₅, _, hobjectCount, h₅, rfl⟩ := Decoder.bind_eq_some.mp h₄
  obtain ⟨hobjectCountSpells, hobjectMax, hobjectCountBytes⟩ := tableCount_spells hobjectCount
  obtain ⟨_, d₆, _, hpaddingStart, h₆, rfl⟩ := Decoder.bind_eq_some.mp h₅
  obtain ⟨rfl, rfl⟩ := Decoder.position_eq_some.mp hpaddingStart
  obtain ⟨_, d₇, _, hpadding, h₇, rfl⟩ := Decoder.bind_eq_some.mp h₆
  obtain ⟨hpaddingHolds, rfl, rfl⟩ := take_eq_some.mp hpadding
  obtain ⟨_, d₈, _, hobjectsStart, h₈, rfl⟩ := Decoder.bind_eq_some.mp h₇
  obtain ⟨rfl, rfl⟩ := Decoder.position_eq_some.mp hobjectsStart
  obtain ⟨objects, d₉, _, hobjects, h₉, rfl⟩ := Decoder.bind_eq_some.mp h₈
  obtain ⟨objectTexts, rfl, hobjectTexts, hobjectSpells, hobjectBytes⟩ :=
    (recognizes_directoryObject _ _).of_collect hpaddingHolds.stop hobjects
  obtain ⟨_, d₁₀, _, hend, hp, rfl⟩ := Decoder.bind_eq_some.mp h₉
  obtain ⟨rfl, rfl⟩ := Decoder.position_eq_some.mp hend
  obtain ⟨rfl, rfl⟩ := Decoder.pure_eq_some.mp hp
  simp only [ScanCost.width_eq, hrowsBytes, hobjectCountBytes, ScanCost.zero_bytes, Nat.add_zero]
    at hobjectCountSpells hpaddingHolds hobjectTexts hobjectSpells
  obtain ⟨padding, hpaddingSize, hpaddingSpells⟩ := hpaddingHolds.text
  obtain ⟨hunpadded, hpadded⟩ := objectPadding_iff.mp hpaddingSize
  rw [← hpaddingSize] at hobjectSpells
  refine ⟨⟨rows, padding, objectTexts⟩, ⟨htypeMax, consecutive_const.mp hrows, hobjectMax,
    consecutive_const.mp hobjectTexts, ?_, ?_⟩, ?_, ?_, rfl, rfl⟩
  · intro hnil
    exact List.length_eq_zero_iff.mp (hunpadded (List.length_eq_zero_iff.mpr hnil))
  · intro hne
    have haligns := hpadded (by rwa [ne_eq, List.length_eq_zero_iff])
    simpa [encodeTable, Nat.add_assoc] using haligns
  · simp only [DirectoryText.encode, encodeTable, spells_append, List.length_append,
      length_encodeNat, ← Nat.add_assoc]
    exact ⟨⟨⟨⟨htypeCountSpells, hrowsSpells⟩, hobjectCountSpells⟩, hpaddingSpells⟩, hobjectSpells⟩
  · simp only [DirectoryText.encode, encodeTable, List.length_append, length_encodeNat,
      hpaddingSize]
    simp [htypeCountBytes, hrowsBytes, hobjectCountBytes, hobjectBytes, ScanCost.taken,
      Nat.add_assoc]

theorem directory_complete (engineVersion : DirectoryEngineVersion) {prefixView : PrefixView}
    {text : DirectoryText}
    (hvalid : text.Valid source.endianSelector (prefixView.typeTreeEnabledRaw != 0)
      (prefixView.header.fileSize - prefixView.header.dataOffset) at_)
    (h : source.Spells at_ (text.encode source.endianSelector)) :
    Reads (source.directory engineVersion prefixView none none) at_
      (text.encode source.endianSelector).length := by
  simp only [DirectoryText.encode, encodeTable, spells_append, List.length_append,
    length_encodeNat, ← Nat.add_assoc] at h
  obtain ⟨⟨⟨⟨htypeCount, htypes⟩, hobjectCount⟩, hpadding⟩, hobjects⟩ := h
  obtain ⟨_, _, htypeCountRead, htypeCountBytes⟩ :=
    tableCount_of_spells .types hvalid.typeCount htypeCount
  obtain ⟨_, _, htypesRead, htypesBytes⟩ :=
    (recognizes_directoryType (prefixView.typeTreeEnabledRaw != 0)).collect 0
      (consecutive_const.mpr hvalid.types) htypes
  obtain ⟨_, _, hobjectCountRead, hobjectCountBytes⟩ :=
    tableCount_of_spells .objects hvalid.objectCount hobjectCount
  obtain ⟨_, _, hobjectsRead, hobjectsBytes⟩ :=
    (recognizes_directoryObject prefixView.header text.types.length).collect 0
      (consecutive_const.mpr hvalid.objects) hobjects
  have hpaddingSize : text.objectPadding.length = if text.objects.length ≠ 0 then
      metadataPadding (at_ + 4 + (text.types.flatMap
        (OrdinaryText.encode source.endianSelector)).length + 4) else 0 := by
    refine objectPadding_iff.mpr ⟨?_, ?_⟩
    · intro hnil
      rw [hvalid.unpadded (List.length_eq_zero_iff.mp hnil), List.length_nil]
    · intro hne
      have haligns := hvalid.padded (by rwa [ne_eq, List.length_eq_zero_iff] at hne)
      simpa [encodeTable, Nat.add_assoc] using haligns
  simp only [DirectoryText.encode, encodeTable, List.length_append, length_encodeNat,
    Nat.add_assoc]
  exact Reads.step htypeCountRead htypeCountBytes (Reads.position
    (Reads.step htypesRead htypesBytes (Reads.position
    (Reads.step hobjectCountRead hobjectCountBytes (Reads.position
    (Reads.step (take_of_spells hpadding hpaddingSize) hpaddingSize.symm (Reads.position
    (Reads.last hobjectsRead hobjectsBytes (Reads.position (reads_pure _))))))))))

theorem tail_sound {directory : DirectoryView} {tail : SerializedFileMetadataTail}
    (h : source.tail directory none at_ = some (tail, d)) :
    ∃ text : TailText, text.Valid source.endianSelector
        (directory.prefixView.typeTreeEnabledRaw != 0) at_ ∧
      source.Spells at_ (text.encode source.endianSelector) ∧
      at_ + (text.encode source.endianSelector).length = source.metadataEnd ∧
      tail.view.scriptCount = text.scripts.length ∧
      tail.view.externalCount = text.externals.length ∧
      tail.view.referenceTypeCount = text.referenceTypes.length := by
  obtain ⟨_, d₀, _, hat, h₀, rfl⟩ := Decoder.bind_eq_some.mp h
  obtain ⟨rfl, rfl⟩ := Decoder.position_eq_some.mp hat
  obtain ⟨⟨_, scriptCount⟩, d₁, _, hscriptCount, h₁, rfl⟩ := Decoder.bind_eq_some.mp h₀
  -- the scripts
  obtain ⟨hscriptCountSpells, hscriptMax, hscriptCountBytes⟩ := tableCount_spells hscriptCount
  obtain ⟨_, d₂, _, hscriptsStart, h₂, rfl⟩ := Decoder.bind_eq_some.mp h₁
  obtain ⟨rfl, rfl⟩ := Decoder.position_eq_some.mp hscriptsStart
  obtain ⟨scripts, d₃, _, hscripts, h₃, rfl⟩ := Decoder.bind_eq_some.mp h₂
  simp only [ScanCost.width_eq, hscriptCountBytes, ScanCost.zero_bytes, Nat.add_zero]
    at hscriptCountSpells hscripts h₃
  have hscriptsAt := hscriptCountSpells.holds.stop
  rw [length_encodeNat] at hscriptsAt
  obtain ⟨scriptTexts, rfl, hscriptTexts, hscriptSpells, hscriptBytes⟩ :=
    recognizes_script.of_collect hscriptsAt hscripts
  obtain ⟨_, d₄, _, hscriptsStop, h₄, rfl⟩ := Decoder.bind_eq_some.mp h₃
  obtain ⟨rfl, rfl⟩ := Decoder.position_eq_some.mp hscriptsStop
  -- the externals
  obtain ⟨⟨_, externalCount⟩, d₅, _, hexternalCount, h₅, rfl⟩ := Decoder.bind_eq_some.mp h₄
  obtain ⟨hexternalCountSpells, hexternalMax, hexternalCountBytes⟩ :=
    tableCount_spells hexternalCount
  obtain ⟨_, d₆, _, hexternalsStart, h₆, rfl⟩ := Decoder.bind_eq_some.mp h₅
  obtain ⟨rfl, rfl⟩ := Decoder.position_eq_some.mp hexternalsStart
  obtain ⟨externals, d₇, _, hexternals, h₇, rfl⟩ := Decoder.bind_eq_some.mp h₆
  simp only [ScanCost.width_eq, hscriptBytes, hexternalCountBytes, ScanCost.zero_bytes,
    Nat.add_zero] at hexternalCountSpells hexternals h₇
  have hexternalsAt := hexternalCountSpells.holds.stop
  rw [length_encodeNat] at hexternalsAt
  obtain ⟨externalTexts, rfl, hexternalTexts, hexternalSpells, hexternalBytes⟩ :=
    recognizes_external.of_collect hexternalsAt hexternals
  obtain ⟨_, d₈, _, hexternalsStop, h₈, rfl⟩ := Decoder.bind_eq_some.mp h₇
  obtain ⟨rfl, rfl⟩ := Decoder.position_eq_some.mp hexternalsStop
  -- the reference types
  obtain ⟨⟨_, referenceCount⟩, d₉, _, hreferenceCount, h₉, rfl⟩ := Decoder.bind_eq_some.mp h₈
  obtain ⟨hreferenceCountSpells, hreferenceMax, hreferenceCountBytes⟩ :=
    tableCount_spells hreferenceCount
  obtain ⟨_, d₁₀, _, hreferencesStart, h₁₀, rfl⟩ := Decoder.bind_eq_some.mp h₉
  obtain ⟨rfl, rfl⟩ := Decoder.position_eq_some.mp hreferencesStart
  obtain ⟨references, d₁₁, _, hreferences, h₁₁, rfl⟩ := Decoder.bind_eq_some.mp h₁₀
  simp only [ScanCost.width_eq, hexternalBytes, hreferenceCountBytes, ScanCost.zero_bytes,
    Nat.add_zero] at hreferenceCountSpells hreferences h₁₁
  have hreferencesAt := hreferenceCountSpells.holds.stop
  rw [length_encodeNat] at hreferencesAt
  obtain ⟨referenceTexts, rfl, hreferenceTexts, hreferenceSpells, hreferenceBytes⟩ :=
    (recognizes_referenceType _).of_collect hreferencesAt hreferences
  -- the user information, which ends the metadata
  obtain ⟨_, d₁₂, _, hreferencesStop, h₁₂, rfl⟩ := Decoder.bind_eq_some.mp h₁₁
  obtain ⟨rfl, rfl⟩ := Decoder.position_eq_some.mp hreferencesStop
  obtain ⟨_, d₁₃, _, huser, h₁₃, rfl⟩ := Decoder.bind_eq_some.mp h₁₂
  simp only [ScanCost.width_eq, hreferenceBytes, ScanCost.zero_bytes, Nat.add_zero] at huser h₁₃
  obtain ⟨user, huserValid, huserSpells, huserBytes⟩ := recognizes_string.sound 0 _ _ _ huser
  obtain ⟨_, d₁₄, _, hstop, h₁₄, rfl⟩ := Decoder.bind_eq_some.mp h₁₃
  obtain ⟨rfl, rfl⟩ := Decoder.position_eq_some.mp hstop
  obtain ⟨_, d₁₅, _, hrequire, hp, rfl⟩ := Decoder.bind_eq_some.mp h₁₄
  obtain ⟨hend, rfl⟩ := Decoder.require_eq_some.mp hrequire
  obtain ⟨rfl, rfl⟩ := Decoder.pure_eq_some.mp hp
  rw [huserBytes] at hend
  refine ⟨⟨scriptTexts, externalTexts, referenceTexts, user⟩, ⟨hscriptMax, hscriptTexts,
    hexternalMax, consecutive_const.mp hexternalTexts, hreferenceMax,
    consecutive_const.mp hreferenceTexts, huserValid⟩, ?_, ?_, rfl, rfl, rfl⟩
  · simp only [TailText.encode, encodeTable, spells_append, List.length_append,
      length_encodeNat, ← Nat.add_assoc]
    exact ⟨⟨⟨⟨hscriptCountSpells, hscriptSpells⟩, hexternalCountSpells, hexternalSpells⟩,
      hreferenceCountSpells, hreferenceSpells⟩, huserSpells⟩
  · simp only [TailText.encode, encodeTable, List.length_append, length_encodeNat,
      ← Nat.add_assoc]
    exact hend

theorem tail_complete (directory : DirectoryView) {text : TailText}
    (hvalid : text.Valid source.endianSelector (directory.prefixView.typeTreeEnabledRaw != 0) at_)
    (h : source.Spells at_ (text.encode source.endianSelector))
    (hend : at_ + (text.encode source.endianSelector).length = source.metadataEnd) :
    Reads (source.tail directory none) at_ (text.encode source.endianSelector).length := by
  simp only [TailText.encode, encodeTable, spells_append, List.length_append,
    length_encodeNat, ← Nat.add_assoc] at h hend
  obtain ⟨⟨⟨⟨hscriptCount, hscripts⟩, hexternalCount, hexternals⟩, hreferenceCount, hreferences⟩,
    huser⟩ := h
  obtain ⟨_, _, hscriptCountRead, hscriptCountBytes⟩ :=
    tableCount_of_spells .scripts hvalid.scriptCount hscriptCount
  obtain ⟨_, _, hscriptsRead, hscriptsBytes⟩ := recognizes_script.collect 0 hvalid.scripts hscripts
  obtain ⟨_, _, hexternalCountRead, hexternalCountBytes⟩ :=
    tableCount_of_spells .externals hvalid.externalCount hexternalCount
  obtain ⟨_, _, hexternalsRead, hexternalsBytes⟩ :=
    recognizes_external.collect 0 (consecutive_const.mpr hvalid.externals) hexternals
  obtain ⟨_, _, hreferenceCountRead, hreferenceCountBytes⟩ :=
    tableCount_of_spells .referenceTypes hvalid.referenceTypeCount hreferenceCount
  obtain ⟨_, _, hreferencesRead, hreferencesBytes⟩ :=
    (recognizes_referenceType (directory.prefixView.typeTreeEnabledRaw != 0)).collect 0
      (consecutive_const.mpr hvalid.referenceTypes) hreferences
  obtain ⟨_, _, huserRead, huserBytes⟩ :=
    recognizes_string.complete 0 _ _ hvalid.userInformation huser
  simp only [TailText.encode, encodeTable, List.length_append, length_encodeNat, Nat.add_assoc]
  exact Reads.position (Reads.step hscriptCountRead hscriptCountBytes (Reads.position
    (Reads.step hscriptsRead hscriptsBytes (Reads.position
    (Reads.step hexternalCountRead hexternalCountBytes (Reads.position
    (Reads.step hexternalsRead hexternalsBytes (Reads.position
    (Reads.step hreferenceCountRead hreferenceCountBytes (Reads.position
    (Reads.step hreferencesRead hreferencesBytes (Reads.position
    (Reads.last huserRead huserBytes (Reads.position (Reads.require hend
      (reads_pure _))))))))))))))))

end MetadataSource

end UnityCommon.Metadata
