import UnityCommon.SerializedFile.Materialize
import UnityCommon.SerializedFile.Recognize
import UnityCommon.TypeTree.ReadType

/-!
# The metadata as a stream

What a stream reads of the metadata and what a decoder takes of it, field by
field and then for the identity of a type: the same bytes, in the same order.
-/

namespace UnityCommon.Metadata

open TypeTree ByteStream

namespace MetadataSource

variable (source : MetadataSource)

/-- The metadata at a cursor. -/
def stream (at_ : ℕ) : ByteStream :=
  ⟨source.bytes.take source.metadataEnd, at_, source.endianSelector != 0⟩

variable {source} {at_ : ℕ} {s' : ByteStream}

theorem holds_add {width more : ℕ} :
    source.Holds at_ (width + more) ↔ source.Holds at_ width ∧ source.Holds (at_ + width) more := by
  unfold Holds
  omega

/-- **Reading on in the stream** is reading what the metadata spells. -/
theorem consumes_stream_iff {bytes : Text} (h : source.Holds at_ 0) :
    Consumes (source.stream at_) s' bytes ↔
      source.Spells at_ bytes ∧ s' = source.stream (at_ + bytes.length) := by
  obtain ⟨hend, hlength⟩ := h
  have hremaining : (source.stream at_).remaining =
      min source.metadataEnd source.bytes.length - at_ := by
    simp [stream, ByteStream.remaining]
  have hwindow : at_ + bytes.length ≤ source.metadataEnd →
      (source.stream at_).window bytes.length = (source.bytes.drop at_).take bytes.length := by
    intro hfits
    show ((source.bytes.take source.metadataEnd).drop at_).take bytes.length = _
    rw [List.drop_take, List.take_take, min_eq_left (by omega)]
  rw [consumes_iff_window, hremaining]
  constructor
  · rintro ⟨hle, hbytes, rfl⟩
    refine ⟨⟨⟨by omega, by omega⟩, ?_⟩, rfl⟩
    rw [hwindow (by omega)] at hbytes
    rw [← hbytes]
    exact List.take_prefix _ _
  · rintro ⟨⟨⟨hend', hlength'⟩, hstands⟩, rfl⟩
    refine ⟨by omega, ?_, rfl⟩
    rw [hwindow hend']
    exact (List.prefix_iff_eq_take.mp hstands).symm

theorem readNat_stream_iff {width value : ℕ} (h : source.Holds at_ 0) :
    (source.stream at_).readNat width = some (value, s') ↔
      source.Holds at_ width ∧ value = source.decode ⟨at_, width⟩ ∧
        s' = source.stream (at_ + width) := by
  have hdecode : ∀ raw, (if (source.stream at_).bigEndian then Bytes.ofBE raw
      else Bytes.ofLE raw) = decodeNat source.endianSelector raw := by
    intro raw
    simp [stream, decodeNat]
  simp only [readNat, Option.map_eq_some_iff, Prod.exists, Prod.mk.injEq, readBytes_eq_some,
    hdecode]
  constructor
  · rintro ⟨raw, t, ⟨rfl, hconsumes⟩, rfl, rfl⟩
    obtain ⟨hspells, rfl⟩ := (consumes_stream_iff h).mp hconsumes
    refine ⟨hspells.holds, ?_, rfl⟩
    rw [decode, hspells.bytes rfl]
  · rintro ⟨hholds, rfl, rfl⟩
    obtain ⟨hlength, hspells⟩ := spells_bytes hholds
    refine ⟨_, _, ⟨hlength, (consumes_stream_iff h).mpr ⟨hspells, rfl⟩⟩, rfl, ?_⟩
    rw [hlength]

theorem readUInt8_stream_iff {value : UInt8} (h : source.Holds at_ 0) :
    (source.stream at_).readUInt8 = some (value, s') ↔
      source.Holds at_ 1 ∧ value = (source.decode ⟨at_, 1⟩).toUInt8 ∧
        s' = source.stream (at_ + 1) := by
  simp only [readUInt8, Option.map_eq_some_iff, Prod.exists, Prod.mk.injEq,
    readNat_stream_iff h]
  constructor
  · rintro ⟨_, _, ⟨hholds, rfl, rfl⟩, rfl, rfl⟩
    exact ⟨hholds, rfl, rfl⟩
  · rintro ⟨hholds, rfl, rfl⟩
    exact ⟨_, _, ⟨hholds, rfl, rfl⟩, rfl, rfl⟩

theorem readUInt16_stream_iff {value : UInt16} (h : source.Holds at_ 0) :
    (source.stream at_).readUInt16 = some (value, s') ↔
      source.Holds at_ 2 ∧ value = (source.decode ⟨at_, 2⟩).toUInt16 ∧
        s' = source.stream (at_ + 2) := by
  simp only [readUInt16, Option.map_eq_some_iff, Prod.exists, Prod.mk.injEq,
    readNat_stream_iff h]
  constructor
  · rintro ⟨_, _, ⟨hholds, rfl, rfl⟩, rfl, rfl⟩
    exact ⟨hholds, rfl, rfl⟩
  · rintro ⟨hholds, rfl, rfl⟩
    exact ⟨_, _, ⟨hholds, rfl, rfl⟩, rfl, rfl⟩

theorem readUInt32_stream_iff {value : UInt32} (h : source.Holds at_ 0) :
    (source.stream at_).readUInt32 = some (value, s') ↔
      source.Holds at_ 4 ∧ value = (source.decode ⟨at_, 4⟩).toUInt32 ∧
        s' = source.stream (at_ + 4) := by
  simp only [readUInt32, Option.map_eq_some_iff, Prod.exists, Prod.mk.injEq,
    readNat_stream_iff h]
  constructor
  · rintro ⟨_, _, ⟨hholds, rfl, rfl⟩, rfl, rfl⟩
    exact ⟨hholds, rfl, rfl⟩
  · rintro ⟨hholds, rfl, rfl⟩
    exact ⟨_, _, ⟨hholds, rfl, rfl⟩, rfl, rfl⟩

theorem readHash_stream_iff {hash : Bytes16} (h : source.Holds at_ 0) :
    readHash (source.stream at_) = some (hash, s') ↔
      source.Holds at_ 16 ∧ hash = spanBytes16 source.bytes ⟨at_, 16⟩ ∧
        s' = source.stream (at_ + 16) := by
  rw [readHash_eq_some, consumes_stream_iff h, hash.length_eq]
  constructor
  · rintro ⟨hspells, rfl⟩
    have hbytes := hspells.bytes hash.length_eq
    have hholds := hspells.holds
    rw [hash.length_eq] at hholds
    refine ⟨hholds, Bytes16.ext_bytes ?_, rfl⟩
    rw [spanBytes16, dif_pos (by rw [hbytes, hash.length_eq])]
    exact hbytes.symm
  · rintro ⟨hholds, rfl, rfl⟩
    obtain ⟨hlength, hspells⟩ := spells_bytes hholds
    refine ⟨?_, rfl⟩
    rwa [spanBytes16, dif_pos hlength]

/-! ## Identities -/

def hashWidth (present : Bool) : ℕ := if present then 16 else 0

variable (source)

def classIdBits (at_ : ℕ) : UInt32 := (source.decode ⟨at_, 4⟩).toUInt32
def scriptIndexBits (at_ : ℕ) : UInt16 := (source.decode ⟨at_ + 5, 2⟩).toUInt16

/-- The row of a prefix at a cursor, with or without a script hash. -/
def prefixRow (at_ : ℕ) (present : Bool) : MetadataTypePrefix where
  classIdSource := ⟨at_, 4⟩
  strippedSource := ⟨at_ + 4, 1⟩
  scriptIndexSource := ⟨at_ + 5, 2⟩
  scriptHashSource := if present then some ⟨at_ + 7, 16⟩ else none
  typeHashSource := ⟨at_ + 7 + hashWidth present, 16⟩
  classIdBits := source.classIdBits at_
  scriptIndexBits := source.scriptIndexBits at_
  strippedRaw := (source.decode ⟨at_ + 4, 1⟩).toUInt8
  hasScriptHash := present

variable {source}

theorem holds_identity {present : Bool} :
    source.Holds at_ (23 + hashWidth present) ↔
      source.Holds at_ 4 ∧ source.Holds (at_ + 4) 1 ∧ source.Holds (at_ + 5) 2 ∧
        source.Holds (at_ + 7) (hashWidth present) ∧
        source.Holds (at_ + 7 + hashWidth present) 16 := by
  unfold Holds
  omega

theorem takeWhen_hash {present : Bool} {span : Option PrefixSpan} {d : ScanCost} :
    source.takeWhen present 16 at_ = some (span, d) ↔
      (present = true → source.Holds at_ 16) ∧
        span = (if present then some ⟨at_, 16⟩ else none) ∧ d = .taken (hashWidth present) := by
  rw [takeWhen_eq_some]
  cases present with
  | false => simp [hashWidth, ScanCost.taken, show (0 : ScanCost) = {} from rfl]
  | true => simp [hashWidth]

theorem typePrefix_eq_some {row : MetadataTypePrefix} {d : ScanCost} :
    source.typePrefix at_ = some (row, d) ↔
      ∃ present,
        typeV22HashShape (source.classIdBits at_) (source.scriptIndexBits at_) = some present ∧
          source.Holds at_ (23 + hashWidth present) ∧ row = source.prefixRow at_ present ∧
          d = .taken (23 + hashWidth present) := by
  constructor
  · intro h
    obtain ⟨_, d₁, _, hclass, h₁, rfl⟩ := Decoder.bind_eq_some.mp h
    obtain ⟨hheld₁, rfl, rfl⟩ := take_eq_some.mp hclass
    obtain ⟨_, d₂, _, hstripped, h₂, rfl⟩ := Decoder.bind_eq_some.mp h₁
    obtain ⟨hheld₂, rfl, rfl⟩ := take_eq_some.mp hstripped
    obtain ⟨_, d₃, _, hindex, h₃, rfl⟩ := Decoder.bind_eq_some.mp h₂
    obtain ⟨hheld₃, rfl, rfl⟩ := take_eq_some.mp hindex
    obtain ⟨present, d₄, _, hpresent, h₄, rfl⟩ := Decoder.bind_eq_some.mp h₃
    obtain ⟨hshape, rfl⟩ := Decoder.ofOption_eq_some.mp hpresent
    obtain ⟨scriptHash, d₅, _, hscript, h₅, rfl⟩ := Decoder.bind_eq_some.mp h₄
    obtain ⟨hheld₅, rfl, rfl⟩ := takeWhen_hash.mp hscript
    obtain ⟨_, d₆, _, htype, hp, rfl⟩ := Decoder.bind_eq_some.mp h₅
    obtain ⟨hheld₆, rfl, rfl⟩ := take_eq_some.mp htype
    obtain ⟨rfl, rfl⟩ := Decoder.pure_eq_some.mp hp
    refine ⟨present, hshape, ?_, rfl, ?_⟩
    · obtain ⟨hend, hlength⟩ := hheld₆
      have hend' : at_ + 7 + hashWidth present + 16 ≤ source.metadataEnd := hend
      have hlength' : at_ + 7 + hashWidth present + 16 ≤ source.bytes.length := hlength
      exact ⟨by omega, by omega⟩
    · ext <;> simp [ScanCost.taken] <;> omega
  · rintro ⟨present, hshape, hholds, rfl, rfl⟩
    obtain ⟨hclass, hstripped, hindex, hscript, htype⟩ := holds_identity.mp hholds
    have hcost : ScanCost.taken 4 + (.taken 1 + (.taken 2 + (0 + (.taken (hashWidth present) +
        (.taken 16 + 0))))) = .taken (23 + hashWidth present) := by
      ext <;> simp [ScanCost.taken] <;> omega
    have hscript' : present = true → source.Holds (at_ + 7) 16 := by
      rintro rfl
      exact hscript
    rw [← hcost]
    exact Decoder.bind_eq_some.mpr ⟨_, _, _, take_eq_some.mpr ⟨hclass, rfl, rfl⟩,
      Decoder.bind_eq_some.mpr ⟨_, _, _, take_eq_some.mpr ⟨hstripped, rfl, rfl⟩,
      Decoder.bind_eq_some.mpr ⟨_, _, _, take_eq_some.mpr ⟨hindex, rfl, rfl⟩,
      Decoder.bind_eq_some.mpr ⟨_, _, _, Decoder.ofOption_eq_some.mpr ⟨hshape, rfl⟩,
      Decoder.bind_eq_some.mpr ⟨_, _, _, takeWhen_hash.mpr ⟨hscript', rfl, rfl⟩,
      Decoder.bind_eq_some.mpr ⟨_, _, _, take_eq_some.mpr ⟨htype, rfl, rfl⟩,
        Decoder.pure_eq_some.mpr ⟨rfl, rfl⟩, rfl⟩, rfl⟩, rfl⟩, rfl⟩, rfl⟩, rfl⟩

theorem readHashWhen_stream_iff {present : Bool} {hash : Bytes16} (h : source.Holds at_ 0) :
    readHashWhen present (source.stream at_) = some (hash, s') ↔
      source.Holds at_ (hashWidth present) ∧
        hash = (if present then some (PrefixSpan.mk at_ 16) else none).elim Bytes16.zero
          (spanBytes16 source.bytes) ∧
        s' = source.stream (at_ + hashWidth present) := by
  cases present with
  | false =>
      simp only [readHashWhen, hashWidth, Bool.false_eq_true, if_false, Option.some.injEq,
        Prod.mk.injEq, Option.elim_none, Nat.add_zero]
      constructor
      · rintro ⟨rfl, rfl⟩
        exact ⟨h, rfl, rfl⟩
      · rintro ⟨-, rfl, rfl⟩
        exact ⟨rfl, rfl⟩
  | true => exact readHash_stream_iff h

theorem readStripped_stream_iff {isStripped : Bool} (h : source.Holds at_ 0) :
    readStripped 22 (source.stream at_) = some (isStripped, s') ↔
      source.Holds at_ 1 ∧ ¬ 1 < (source.decode ⟨at_, 1⟩).toUInt8 ∧
        isStripped = ((source.decode ⟨at_, 1⟩).toUInt8 != 0) ∧
        s' = source.stream (at_ + 1) := by
  unfold readStripped
  rw [if_pos (by decide)]
  simp only [Option.bind_eq_bind, Option.bind_eq_some_iff, Prod.exists, readUInt8_stream_iff h,
    Option.guard_eq_some', Option.some.injEq, Prod.mk.injEq, UInt8.not_lt]
  constructor
  · rintro ⟨_, _, ⟨hholds, rfl, rfl⟩, _, hle, rfl, rfl⟩
    exact ⟨hholds, hle, rfl, rfl⟩
  · rintro ⟨hholds, hle, rfl, rfl⟩
    exact ⟨_, _, ⟨hholds, rfl, rfl⟩, (), hle, rfl, rfl⟩

theorem stream_behind_identity (present : Bool) :
    source.stream (at_ + 4 + 1 + 2 + hashWidth present + 16) =
      source.stream (at_ + (23 + hashWidth present)) := by
  congr 1
  omega

/-- **What the stream reader finds of an identity**: the row that its own rule
for the script hash gives. -/
theorem readTypeIdentity_stream_iff {isRefType : Bool} {type : TypeTreeType}
    (h : source.Holds at_ 0) :
    readTypeIdentity 22 isRefType (source.stream at_) = some (type, s') ↔
      ∃ present base,
        readsScriptHash 22 isRefType (source.classIdBits at_).toInt32
            (source.scriptIndexBits at_) = present ∧
          source.Holds at_ (23 + hashWidth present) ∧
          materializeTypeIdentity source.bytes (source.prefixRow at_ present) = some base ∧
          type = { base with isRefType } ∧ s' = source.stream (at_ + (23 + hashWidth present)) := by
  unfold readTypeIdentity materializeTypeIdentity
  constructor
  · intro hread
    obtain ⟨⟨typeId, s₁⟩, hclass, h₁⟩ := Option.bind_eq_some_iff.mp hread
    obtain ⟨⟨bits, t⟩, hbits, heq⟩ := Option.map_eq_some_iff.mp hclass
    cases heq
    obtain ⟨hheld₁, rfl, rfl⟩ := (readUInt32_stream_iff h).mp hbits
    obtain ⟨⟨isStripped, s₂⟩, hstripped, h₂⟩ := Option.bind_eq_some_iff.mp h₁
    obtain ⟨hheld₂, hflag, rfl, rfl⟩ := (readStripped_stream_iff hheld₁.stop).mp hstripped
    obtain ⟨⟨scriptTypeIndex, s₃⟩, hindex, h₃⟩ := Option.bind_eq_some_iff.mp h₂
    obtain ⟨hheld₃, rfl, rfl⟩ := (readUInt16_stream_iff hheld₂.stop).mp hindex
    obtain ⟨⟨scriptIdHash, s₄⟩, hscript, h₄⟩ := Option.bind_eq_some_iff.mp h₃
    obtain ⟨hheld₄, rfl, rfl⟩ := (readHashWhen_stream_iff hheld₃.stop).mp hscript
    obtain ⟨⟨typeHash, s₅⟩, htype, h₅⟩ := Option.bind_eq_some_iff.mp h₄
    obtain ⟨hheld₅, rfl, rfl⟩ := (readHash_stream_iff hheld₄.stop).mp htype
    simp only [Option.some.injEq, Prod.mk.injEq] at h₅
    obtain ⟨rfl, rfl⟩ := h₅
    refine ⟨_, _, rfl, holds_identity.mpr ⟨hheld₁, hheld₂, hheld₃, hheld₄, hheld₅⟩,
      if_neg hflag, rfl, stream_behind_identity _⟩
  · rintro ⟨present, base, rfl, hholds, hbase, rfl, rfl⟩
    obtain ⟨hclass, hstripped, hindex, hscript, htype⟩ := holds_identity.mp hholds
    split at hbase
    · cases hbase
    rename_i hflag
    cases hbase
    have hbits := (readUInt32_stream_iff h).mpr ⟨hclass, rfl, rfl⟩
    refine Option.bind_eq_some_iff.mpr ⟨(_, _), Option.map_eq_some_iff.mpr ⟨_, hbits, rfl⟩, ?_⟩
    refine Option.bind_eq_some_iff.mpr ⟨(_, _),
      (readStripped_stream_iff hclass.stop).mpr ⟨hstripped, hflag, rfl, rfl⟩, ?_⟩
    refine Option.bind_eq_some_iff.mpr ⟨(_, _),
      (readUInt16_stream_iff hstripped.stop).mpr ⟨hindex, rfl, rfl⟩, ?_⟩
    refine Option.bind_eq_some_iff.mpr ⟨(_, _),
      (readHashWhen_stream_iff hindex.stop).mpr ⟨hscript, rfl, rfl⟩, ?_⟩
    refine Option.bind_eq_some_iff.mpr ⟨(_, _),
      (readHash_stream_iff hscript.stop).mpr ⟨htype, rfl, rfl⟩, ?_⟩
    exact congrArg some (congrArg (Prod.mk _) (stream_behind_identity _))

end MetadataSource

end UnityCommon.Metadata
