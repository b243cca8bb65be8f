import UnityCommon.SerializedFile.Recognize
import UnityCommon.SerializedFile.ValuesFormat

/-!
# The grammar of a payload

The fields that an object of a profile is spelled with, one after the other, and
the values that they stand for. Nothing here moves a cursor: a value is told by
the fields below it and the offsets these begin at.
-/

namespace UnityCommon.Values

open UnityCommon.Metadata

/-! ## Fields -/

inductive FieldShape where
  | integer (width : ℕ) (aligned : Bool)
  | string
deriving DecidableEq, Repr

/-- The widths that an integer may have. -/
def FieldShape.Supported : FieldShape → Prop
  | integer width _ => width = 1 ∨ width = 4 ∨ width = 8
  | string => True

instance : DecidablePred FieldShape.Supported
  | .integer _ _ => inferInstanceAs (Decidable (_ ∨ _ ∨ _))
  | .string => inferInstanceAs (Decidable True)

inductive Field where
  | integer (width : ℕ) (aligned : Bool) (bits : ℕ)
  | string (bytes : Text)
deriving DecidableEq, Repr

namespace Field

def shape : Field → FieldShape
  | integer width aligned _ => .integer width aligned
  | string _ => .string

def body : Field → Text
  | integer width _ bits => encodeNat 0 width bits
  | string bytes => encodeNat 0 lengthBytes bytes.length ++ bytes

def isPadded : Field → Bool
  | integer _ aligned _ => aligned
  | string _ => true

def Valid : Field → Prop
  | integer width _ bits => bits < 256 ^ width
  | string bytes => bytes.length ≤ int32Max

end Field

/-- A field with the bytes up to its alignment, which may be any. -/
structure PaddedField where
  field : Field
  padding : Text
deriving DecidableEq, Repr

namespace PaddedField

variable (f : PaddedField)

def shape : FieldShape := f.field.shape

def encode : Text := f.field.body ++ f.padding

structure Valid (at_ : ℕ) : Prop where
  field : f.field.Valid
  padding : f.padding.length =
    if f.field.isPadded then paddingWidth (at_ + f.field.body.length) else 0

/-- What reading the field costs. -/
def cost : ValueCost :=
  match f.field with
  | .integer width aligned _ => {
      bytes := f.encode.length
      work := f.encode.length + if aligned then 3 else 2
      padding := f.padding.length
      integers := width
      widestInteger := width }
  | .string bytes => {
      bytes := f.encode.length
      work := f.encode.length + 4
      strings := bytes.length
      longestString := bytes.length
      padding := f.padding.length }

/-- The span of the padding, where there is one. -/
def paddingSource (at_ : ℕ) : Option PrefixSpan :=
  if f.field.isPadded then some ⟨at_ + f.field.body.length, f.padding.length⟩ else none

/-- What the field says of the value that begins there. -/
def fill (schema : SerializedFileSchema) (at_ : ℕ) (value : SerializedFileValue) :
    SerializedFileValue :=
  let value := { value with source := ⟨at_, f.encode.length⟩, paddingSource := f.paddingSource at_ }
  match f.field with
  | .integer width _ bits =>
      { value with integerBits := bits.toUInt64, integerSource := some ⟨at_, width⟩ }
  | .string bytes =>
      let node := value.schemaNode.ordinal
      { value with
        arraySchemaOrdinal := some (node + 1)
        sizeSchemaOrdinal := some (node + 2)
        dataSchemaOrdinal := some (node + 3)
        arraySchemaSource := some (schemaNode schema (node + 1)).source
        sizeSchemaSource := some (schemaNode schema (node + 2)).source
        dataSchemaSource := some (schemaNode schema (node + 3)).source
        lengthBits := bytes.length.toUInt32
        lengthSource := some ⟨at_, lengthBytes⟩
        bytesSource := some ⟨at_ + lengthBytes, bytes.length⟩ }

end PaddedField

/-! ## Objects -/

/-- The shape of a value; a container has none of its own. -/
def leafShape (node : NodeProfile) : SerializedFileValueKind → Option FieldShape
  | .container => none
  | .byteString => some .string
  | _ => some (.integer node.byteSize.toNat (node.metaFlags &&& ordinaryAlignmentFlag ≠ 0))

namespace ObjectProfile

variable (profile : ObjectProfile)

def nodeProfile (ordinal : ℕ) : Option NodeProfile := profile.nodes[ordinal]?

/-- The shapes of the values, by their ordinals. -/
def valueShapes : List (Option FieldShape) :=
  profile.roles.map fun role => (profile.nodeProfile role.schemaOrdinal).bind (leafShape · role.kind)

/-- The fields that an object consists of. -/
def shapes : List FieldShape := profile.valueShapes.filterMap id

/-- The fields in front of a value. -/
def fieldsBefore (ordinal : ℕ) : ℕ := ((profile.valueShapes.take ordinal).filterMap id).length

end ObjectProfile

theorem shapes_textAsset : ObjectProfile.textAsset.shapes = [.string, .string] := by decide

/-- Where a field begins. -/
def fieldOffset (at_ : ℕ) (fields : List PaddedField) (index : ℕ) : ℕ :=
  at_ + ((fields.take index).flatMap PaddedField.encode).length

/-- The value of an ordinal, of an object that begins at an offset: a container
spans the fields below it, and every other value is the field it begins with. -/
def valueAt (schema : SerializedFileSchema) (profile : ObjectProfile) (at_ : ℕ)
    (fields : List PaddedField) (ordinal : ℕ) : SerializedFileValue :=
  let value := initialValue schema profile ordinal
  let first := profile.fieldsBefore ordinal
  let start := fieldOffset at_ fields first
  let stop := fieldOffset at_ fields (profile.fieldsBefore value.subtreeEnd)
  if value.kind = .container then { value with source := ⟨start, stop - start⟩ }
  else
    match fields[first]? with
    | some f => f.fill schema start value
    | none => value

def valuesOf (schema : SerializedFileSchema) (profile : ObjectProfile) (at_ : ℕ)
    (fields : List PaddedField) : List SerializedFileValue :=
  (List.range profile.valueCount).map (valueAt schema profile at_ fields)

/-- Fields of the shapes of a profile, each valid where it stands. -/
structure Spelling (profile : ObjectProfile) (at_ : ℕ) (fields : List PaddedField) : Prop where
  shapes : fields.map PaddedField.shape = profile.shapes
  valid : Consecutive PaddedField.encode (fun at_ f => f.Valid at_) at_ fields

def encodeFields (fields : List PaddedField) : Text := fields.flatMap PaddedField.encode

/-- What the fields cost. -/
def fieldsCost (fields : List PaddedField) : ValueCost := (fields.map PaddedField.cost).foldr (· + ·) 0

namespace ValueCost

variable (d e f : ValueCost)

theorem add_assoc : d + e + f = d + (e + f) := by
  ext <;> simp [Nat.add_assoc, max_assoc]

theorem add_comm : d + e = e + d := by
  ext <;> simp [Nat.add_comm, max_comm]

@[simp] theorem zero_add : 0 + d = d := by
  ext <;> simp

@[simp] theorem add_zero : d + 0 = d := by
  ext <;> simp

end ValueCost

@[simp] theorem fieldsCost_nil : fieldsCost [] = 0 := rfl

@[simp] theorem fieldsCost_singleton (f : PaddedField) : fieldsCost [f] = f.cost :=
  ValueCost.add_zero _

theorem fieldsCost_append (fields more : List PaddedField) :
    fieldsCost (fields ++ more) = fieldsCost fields + fieldsCost more := by
  induction fields with
  | nil => exact (ValueCost.zero_add _).symm
  | cons f fields ih =>
      show f.cost + fieldsCost (fields ++ more) = f.cost + fieldsCost fields + fieldsCost more
      rw [ih, ValueCost.add_assoc]

theorem fieldsCost_bytes (fields : List PaddedField) :
    (fieldsCost fields).bytes = (encodeFields fields).length := by
  induction fields with
  | nil => rfl
  | cons f fields ih =>
      have hcost : f.cost.bytes = f.encode.length := by
        unfold PaddedField.cost
        cases f.field <;> rfl
      show f.cost.bytes + (fieldsCost fields).bytes = (f.encode ++ encodeFields fields).length
      rw [ih, hcost, List.length_append]

theorem encodeFields_append (fields more : List PaddedField) :
    encodeFields (fields ++ more) = encodeFields fields ++ encodeFields more :=
  List.flatMap_append

theorem fieldOffset_left (at_ : ℕ) (fields more : List PaddedField) :
    fieldOffset at_ (fields ++ more) fields.length = at_ + (encodeFields fields).length := by
  rw [fieldOffset, List.take_left]
  rfl

theorem consecutive_append {α : Type} {encode : α → Text} {Valid : ℕ → α → Prop} {as bs : List α}
    {position : ℕ} :
    Consecutive encode Valid position (as ++ bs) ↔
      Consecutive encode Valid position as ∧
        Consecutive encode Valid (position + (as.flatMap encode).length) bs := by
  induction as generalizing position with
  | nil => exact ⟨fun h => ⟨trivial, h⟩, fun h => h.2⟩
  | cons a as ih =>
      simp only [List.cons_append, Consecutive, ih, List.flatMap_cons, List.length_append,
        Nat.add_assoc, and_assoc]

/-! ## Steps -/

section Steps

variable {stop at_ : ℕ} {d : ValueCost} {span : PrefixSpan}

theorem takeFormat_eq_some (hat : at_ ≤ stop) {width : ℕ} :
    takeFormat stop width at_ = some (span, d) ↔
      at_ + width ≤ stop ∧ span = ⟨at_, width⟩ ∧ d = { bytes := width, work := width + 1 } := by
  constructor
  · intro h
    obtain ⟨_, d₁, _, hstart, h₁, rfl⟩ := Decoder.bind_eq_some.mp h
    obtain ⟨rfl, rfl⟩ := Decoder.position_eq_some.mp hstart
    obtain ⟨_, d₂, _, hfits, h₂, rfl⟩ := Decoder.bind_eq_some.mp h₁
    obtain ⟨hfits, rfl⟩ := Decoder.require_eq_some.mp hfits
    obtain ⟨_, d₃, _, hwork, h₃, rfl⟩ := Decoder.bind_eq_some.mp h₂
    obtain rfl := Decoder.spend_eq_some.mp hwork
    obtain ⟨_, d₄, _, hbytes, hp, rfl⟩ := Decoder.bind_eq_some.mp h₃
    obtain rfl := Decoder.spend_eq_some.mp hbytes
    obtain ⟨rfl, rfl⟩ := Decoder.pure_eq_some.mp hp
    refine ⟨by omega, rfl, ?_⟩
    ext <;> simp
  · rintro ⟨hfits, rfl, rfl⟩
    refine Decoder.bind_eq_some.mpr ⟨_, _, _, Decoder.position_eq_some.mpr ⟨rfl, rfl⟩,
      Decoder.bind_eq_some.mpr ⟨(), _, _, Decoder.require_eq_some.mpr ⟨by omega, rfl⟩,
        Decoder.bind_eq_some.mpr ⟨(), _, _, Decoder.spend_eq_some.mpr rfl,
          Decoder.bind_eq_some.mpr ⟨(), _, _, Decoder.spend_eq_some.mpr rfl,
            Decoder.pure_eq_some.mpr ⟨rfl, rfl⟩, rfl⟩, rfl⟩, rfl⟩, ?_⟩
    ext <;> simp

theorem paddingFormat_eq_some (hat : at_ ≤ stop) :
    paddingFormat stop at_ = some (span, d) ↔
      at_ + paddingWidth at_ ≤ stop ∧ span = ⟨at_, paddingWidth at_⟩ ∧
        d = {
          bytes := paddingWidth at_
          work := paddingWidth at_ + 1
          padding := paddingWidth at_ } := by
  constructor
  · intro h
    obtain ⟨_, d₁, _, hstart, h₁, rfl⟩ := Decoder.bind_eq_some.mp h
    obtain ⟨rfl, rfl⟩ := Decoder.position_eq_some.mp hstart
    obtain ⟨_, d₂, _, hspend, h₂, rfl⟩ := Decoder.bind_eq_some.mp h₁
    obtain rfl := Decoder.spend_eq_some.mp hspend
    obtain ⟨hfits, rfl, rfl⟩ := (takeFormat_eq_some hat).mp h₂
    refine ⟨hfits, rfl, ?_⟩
    ext <;> simp
  · rintro ⟨hfits, rfl, rfl⟩
    refine Decoder.bind_eq_some.mpr ⟨_, _, _, Decoder.position_eq_some.mpr ⟨rfl, rfl⟩,
      Decoder.bind_eq_some.mpr ⟨(), _, _, Decoder.spend_eq_some.mpr rfl,
        (takeFormat_eq_some hat).mpr ⟨hfits, rfl, rfl⟩, rfl⟩, ?_⟩
    ext <;> simp

theorem completeFormat_eq_some {start : ℕ} {value result : SerializedFileValue} :
    completeFormat start value at_ = some (result, d) ↔
      result = { value with source := ⟨start, at_ - start⟩ } ∧ d = { work := 1 } := by
  constructor
  · intro h
    obtain ⟨_, d₁, _, hposition, h₁, rfl⟩ := Decoder.bind_eq_some.mp h
    obtain ⟨rfl, rfl⟩ := Decoder.position_eq_some.mp hposition
    obtain ⟨_, d₂, _, hspend, hp, rfl⟩ := Decoder.bind_eq_some.mp h₁
    obtain rfl := Decoder.spend_eq_some.mp hspend
    obtain ⟨rfl, rfl⟩ := Decoder.pure_eq_some.mp hp
    refine ⟨rfl, ?_⟩
    ext <;> simp
  · rintro ⟨rfl, rfl⟩
    refine Decoder.bind_eq_some.mpr ⟨_, _, _, Decoder.position_eq_some.mpr ⟨rfl, rfl⟩,
      Decoder.bind_eq_some.mpr ⟨(), _, _, Decoder.spend_eq_some.mpr rfl,
        Decoder.pure_eq_some.mpr ⟨rfl, rfl⟩, rfl⟩, ?_⟩
    ext <;> simp

end Steps

/-! ## One field -/

/-- The bytes of an object, up to where it stops. -/
def payloadSource (mapped : Text) (stop : ℕ) : MetadataSource := ⟨mapped, stop, 0⟩

/-- The shape that an integer is read in. -/
def integerShape (node : SchemaNode) : FieldShape :=
  .integer node.byteSizeBits.toNat (node.metaFlags &&& ordinaryAlignmentFlag ≠ 0)

section Leaves

variable {mapped : Text} {schema : SerializedFileSchema} {stop at_ : ℕ} {d : ValueCost}
  {value result : SerializedFileValue}

theorem holds_of_le (hstop : stop ≤ mapped.length) {width : ℕ} (h : at_ + width ≤ stop) :
    (payloadSource mapped stop).Holds at_ width := ⟨h, h.trans hstop⟩

theorem integerBits_eq (stop : ℕ) {width : ℕ} (hwidth : width = 1 ∨ width = 4 ∨ width = 8) (offset : ℕ) :
    integerBits mapped width offset =
      ((payloadSource mapped stop).decode ⟨offset, width⟩).toUInt64 := by
  obtain rfl | rfl | rfl := hwidth <;> rfl

/-- The padding that stands behind a field. -/
theorem spells_padding {body : Text} (hstop : stop ≤ mapped.length) (aligned : Bool)
    (hbody : (payloadSource mapped stop).Spells at_ body)
    (hfits : aligned = true →
      at_ + body.length + paddingWidth (at_ + body.length) ≤ stop) :
    ∃ padding : Text,
      padding.length = (if aligned then paddingWidth (at_ + body.length) else 0) ∧
      (payloadSource mapped stop).Spells at_ (body ++ padding) := by
  cases aligned with
  | false => exact ⟨[], rfl, by rwa [List.append_nil]⟩
  | true =>
      obtain ⟨hlength, hspells⟩ := MetadataSource.spells_bytes (holds_of_le hstop (hfits rfl))
      exact ⟨_, hlength, MetadataSource.spells_append.mpr ⟨hbody, hspells⟩⟩

/-- **An integer is read where it is spelled**, with its alignment. -/
theorem integerFormat_eq_some (hat : at_ ≤ stop) (hstop : stop ≤ mapped.length)
    (hwidth : value.schemaNode.byteSizeBits.toNat = 1 ∨ value.schemaNode.byteSizeBits.toNat = 4 ∨
      value.schemaNode.byteSizeBits.toNat = 8) (hvalue : value.paddingSource = none) :
    integerFormat mapped stop value at_ = some (result, d) ↔
      ∃ f : PaddedField, f.shape = integerShape value.schemaNode ∧ f.Valid at_ ∧
        (payloadSource mapped stop).Spells at_ f.encode ∧ result = f.fill schema at_ value ∧
        d = f.cost := by
  constructor
  · intro h
    obtain ⟨_, d₁, _, hstart, h₁, rfl⟩ := Decoder.bind_eq_some.mp h
    obtain ⟨rfl, rfl⟩ := Decoder.position_eq_some.mp hstart
    obtain ⟨_, d₂, _, hadmission, h₂, rfl⟩ := Decoder.bind_eq_some.mp h₁
    obtain ⟨_, d₃, _, hwidest, hintegers, rfl⟩ := Decoder.bind_eq_some.mp hadmission
    obtain rfl := Decoder.spend_eq_some.mp hwidest
    obtain rfl := Decoder.spend_eq_some.mp hintegers
    obtain ⟨integer, d₄, _, htake, h₃, rfl⟩ := Decoder.bind_eq_some.mp h₂
    obtain ⟨hfits, rfl, rfl⟩ := (takeFormat_eq_some hat).mp htake
    have hholds := holds_of_le hstop hfits
    have hspells := MetadataSource.spells_decode hholds
    have hlt := MetadataSource.decode_lt hholds
    dsimp only at h₃
    split_ifs at h₃ with halign
    · obtain ⟨padding, d₅, _, hpadding, h₄, rfl⟩ := Decoder.bind_eq_some.mp h₃
      obtain ⟨hpads, rfl, rfl⟩ := (paddingFormat_eq_some hfits).mp hpadding
      obtain ⟨rfl, rfl⟩ := completeFormat_eq_some.mp h₄
      obtain ⟨text, hlength, htext⟩ := spells_padding hstop true hspells (by simpa using hpads)
      rw [length_encodeNat] at hlength
      refine ⟨⟨.integer _ true _, text⟩, ?_, ⟨hlt, ?_⟩, htext, ?_, ?_⟩
      · show FieldShape.integer _ true = _
        rw [integerShape, decide_eq_true halign]
      · show text.length = if true then paddingWidth (at_ + (encodeNat _ _ _).length) else 0
        rw [length_encodeNat]
        exact hlength
      · simp [PaddedField.fill, PaddedField.encode, PaddedField.paddingSource, Field.body,
          Field.isPadded, hlength, integerBits_eq stop hwidth]
        omega
      · ext <;> simp [PaddedField.cost, PaddedField.encode, Field.body, hlength]
        omega
    · obtain ⟨rfl, rfl⟩ := completeFormat_eq_some.mp h₃
      refine ⟨⟨.integer _ false _, []⟩, ?_, ⟨hlt, rfl⟩, ?_, ?_, ?_⟩
      · show FieldShape.integer _ false = _
        rw [integerShape, decide_eq_false halign]
      · rw [PaddedField.encode, List.append_nil]
        exact hspells
      · simp [PaddedField.fill, PaddedField.encode, PaddedField.paddingSource, Field.body,
          Field.isPadded, integerBits_eq stop hwidth, hvalue]
      · ext <;> simp [PaddedField.cost, PaddedField.encode, Field.body]
  · rintro ⟨⟨field, padding⟩, hshape, ⟨hfield, hpadding⟩, hspells, rfl, rfl⟩
    cases field with
    | string bytes => cases hshape
    | integer width aligned bits =>
        obtain ⟨rfl, rfl⟩ : width = _ ∧ aligned = _ := FieldShape.integer.inj hshape
        obtain ⟨hbody, hpad⟩ := MetadataSource.spells_append.mp hspells
        obtain ⟨hholds, hdecode⟩ := hbody.decode hfield
        have hfits : at_ + value.schemaNode.byteSizeBits.toNat ≤ stop := hholds.1
        have htake := (takeFormat_eq_some hat).mpr ⟨hfits, rfl, rfl⟩
        have hadmission : admitIntegerFormat value.schemaNode.byteSizeBits.toNat at_ =
            some ((), { widestInteger := _, integers := _ }) := rfl
        have hstart : (Decoder.position : Decoder ValueCost ℕ) at_ = some (at_, 0) := rfl
        rw [integerFormat, Decoder.bind_of_some hstart]
        simp only [ValueCost.width_eq, ValueCost.zero_bytes, Nat.add_zero]
        rw [Decoder.bind_of_some hadmission]
        simp only [ValueCost.width_eq, Nat.add_zero]
        rw [Decoder.bind_of_some htake]
        simp only [ValueCost.width_eq]
        by_cases halign : value.schemaNode.metaFlags &&& ordinaryAlignmentFlag ≠ 0
        · have hpads : at_ + (Field.integer _ _ bits).body.length + padding.length ≤ stop :=
            hpad.holds.1
          rw [decide_eq_true halign] at hpadding hpad ⊢
          simp only [Field.body, Field.isPadded, length_encodeNat, if_pos] at hpadding hpads
          rw [hpadding] at hpads
          have hread := (paddingFormat_eq_some hfits).mpr ⟨hpads, rfl, rfl⟩
          rw [if_pos halign, Decoder.bind_of_some hread, completeFormat_eq_some.mpr ⟨rfl, rfl⟩]
          simp only [Option.map_some, Option.some.injEq, Prod.mk.injEq]
          constructor
          · simp [PaddedField.fill, PaddedField.encode, PaddedField.paddingSource, Field.body,
              Field.isPadded, hpadding, integerBits_eq stop hwidth, hdecode]
            omega
          · ext <;> simp [PaddedField.cost, PaddedField.encode, Field.body, hpadding]
            omega
        · rw [decide_eq_false halign] at hpadding ⊢
          simp only [Field.body, Field.isPadded, Bool.false_eq_true, if_false,
            List.length_eq_zero_iff] at hpadding
          rw [if_neg halign, completeFormat_eq_some.mpr ⟨rfl, rfl⟩, hpadding]
          simp only [Option.map_some, Option.some.injEq, Prod.mk.injEq]
          constructor
          · simp [PaddedField.fill, PaddedField.encode, PaddedField.paddingSource, Field.body,
              Field.isPadded, integerBits_eq stop hwidth, hdecode, hvalue]
          · ext <;> simp [PaddedField.cost, PaddedField.encode, Field.body]

/-- **A string is read where it is spelled**, behind its length. -/
theorem stringFormat_eq_some (hat : at_ ≤ stop) (hstop : stop ≤ mapped.length) :
    stringFormat mapped schema stop value at_ = some (result, d) ↔
      ∃ f : PaddedField, f.shape = .string ∧ f.Valid at_ ∧
        (payloadSource mapped stop).Spells at_ f.encode ∧ result = f.fill schema at_ value ∧
        d = f.cost := by
  constructor
  · intro h
    obtain ⟨_, d₁, _, hstart, h₁, rfl⟩ := Decoder.bind_eq_some.mp h
    obtain ⟨rfl, rfl⟩ := Decoder.position_eq_some.mp hstart
    obtain ⟨length, d₂, _, hlength, h₂, rfl⟩ := Decoder.bind_eq_some.mp h₁
    obtain ⟨hfits, rfl, rfl⟩ := (takeFormat_eq_some hat).mp hlength
    obtain ⟨_, d₃, _, hrequire, h₃, rfl⟩ := Decoder.bind_eq_some.mp h₂
    obtain ⟨hsize, rfl⟩ := Decoder.require_eq_some.mp hrequire
    obtain ⟨_, d₄, _, hadmission, h₄, rfl⟩ := Decoder.bind_eq_some.mp h₃
    obtain ⟨_, d₅, _, hlongest, hstrings, rfl⟩ := Decoder.bind_eq_some.mp hadmission
    obtain rfl := Decoder.spend_eq_some.mp hlongest
    obtain rfl := Decoder.spend_eq_some.mp hstrings
    obtain ⟨bytes, d₆, _, hbytes, h₅, rfl⟩ := Decoder.bind_eq_some.mp h₄
    obtain ⟨hholds, rfl, rfl⟩ := (takeFormat_eq_some hfits).mp hbytes
    obtain ⟨padding, d₇, _, hpadding, h₆, rfl⟩ := Decoder.bind_eq_some.mp h₅
    obtain ⟨hpads, rfl, rfl⟩ := (paddingFormat_eq_some hholds).mp hpadding
    obtain ⟨rfl, rfl⟩ := completeFormat_eq_some.mp h₆
    have hholdsLength := holds_of_le hstop hfits
    have hspellsLength := MetadataSource.spells_decode hholdsLength
    have hlt := MetadataSource.decode_lt hholdsLength
    have hdecode : decodeNat 0 ((PrefixSpan.mk at_ lengthBytes).bytes mapped) =
        (payloadSource mapped stop).decode ⟨at_, lengthBytes⟩ := rfl
    simp only [ValueCost.width_eq, ValueCost.zero_bytes, Nat.add_zero] at hsize hholds hpads ⊢
    rw [hdecode] at hsize hholds hpads ⊢
    generalize (payloadSource mapped stop).decode ⟨at_, lengthBytes⟩ = size at *
    have hnat : size.toUInt32.toNat = size := MetadataSource.toNat_toUInt32 hlt
    rw [hnat] at hsize hholds hpads ⊢
    have hbytesHolds := holds_of_le hstop (show at_ + lengthBytes + size ≤ stop from hholds)
    obtain ⟨hbytesLength, hspellsBytes⟩ := MetadataSource.spells_bytes hbytesHolds
    generalize (PrefixSpan.mk (at_ + lengthBytes) size).bytes (payloadSource mapped stop).bytes =
      bytes at hbytesLength hspellsBytes
    subst hbytesLength
    have hbody : (payloadSource mapped stop).Spells at_ (Field.string bytes).body := by
      refine MetadataSource.spells_append.mpr ⟨hspellsLength, ?_⟩
      rwa [length_encodeNat]
    have hbodyLength : (Field.string bytes).body.length = lengthBytes + bytes.length := by
      rw [Field.body, List.length_append, length_encodeNat]
    obtain ⟨text, hlength, htext⟩ := spells_padding hstop true hbody (by
      intro _
      rw [hbodyLength, ← Nat.add_assoc]
      exact hpads)
    rw [if_pos rfl, hbodyLength, ← Nat.add_assoc] at hlength
    refine ⟨⟨.string bytes, text⟩, rfl, ⟨hsize, ?_⟩, htext, ?_, ?_⟩
    · show text.length = if true then paddingWidth (at_ + (Field.string bytes).body.length) else 0
      rw [if_pos rfl, hbodyLength, ← Nat.add_assoc, hlength]
    · simp [PaddedField.fill, PaddedField.encode, PaddedField.paddingSource, hbodyLength,
        Field.isPadded, hlength]
      omega
    · ext <;> simp [PaddedField.cost, PaddedField.encode, hbodyLength, hlength]
      all_goals omega
  · rintro ⟨⟨field, padding⟩, hshape, ⟨hfield, hpadding⟩, hspells, rfl, rfl⟩
    cases field with
    | integer width aligned bits => cases hshape
    | string bytes =>
        have hlt : bytes.length < 256 ^ lengthBytes := MetadataSource.int32Max_lt hfield
        have hbodyLength : (Field.string bytes).body.length = lengthBytes + bytes.length := by
          rw [Field.body, List.length_append, length_encodeNat]
        obtain ⟨hbody, hpad⟩ := MetadataSource.spells_append.mp hspells
        obtain ⟨hlengthText, hbytesText⟩ := MetadataSource.spells_append.mp hbody
        obtain ⟨hholds, hdecode⟩ := hlengthText.decode hlt
        have hfits : at_ + lengthBytes ≤ stop := hholds.1
        have hbytesHolds : at_ + (encodeNat 0 lengthBytes bytes.length).length + bytes.length ≤ stop :=
          hbytesText.holds.1
        rw [length_encodeNat] at hbytesHolds
        have hpads : at_ + (Field.string bytes).body.length + padding.length ≤ stop := hpad.holds.1
        simp only [Field.isPadded, if_pos] at hpadding
        rw [hpadding, hbodyLength, ← Nat.add_assoc] at hpads
        rw [hbodyLength, ← Nat.add_assoc] at hpadding
        -- each step, where the one before leaves the cursor
        have hstart : (Decoder.position : Decoder ValueCost ℕ) at_ = some (at_, 0) := rfl
        have htake := (takeFormat_eq_some hat).mpr ⟨hfits, rfl, rfl⟩
        have hadmission : admitStringFormat bytes.length (at_ + lengthBytes) =
            some ((), { strings := _, longestString := _ }) := rfl
        have hread := (takeFormat_eq_some hfits).mpr ⟨hbytesHolds, rfl, rfl⟩
        have hreadPadding := (paddingFormat_eq_some hbytesHolds).mpr ⟨hpads, rfl, rfl⟩
        have hraw : decodeNat 0 ((PrefixSpan.mk at_ lengthBytes).bytes mapped) = bytes.length :=
          hdecode
        have hnat : bytes.length.toUInt32.toNat = bytes.length :=
          MetadataSource.toNat_toUInt32 hlt
        have hsize : (Decoder.require
            ((decodeNat 0 ((PrefixSpan.mk at_ lengthBytes).bytes mapped)).toUInt32.toNat ≤ int32Max) :
              Decoder ValueCost Unit) (at_ + lengthBytes) = some ((), 0) := by
          refine Decoder.require_eq_some.mpr ⟨?_, rfl⟩
          rw [hraw, hnat]
          exact hfield
        rw [stringFormat, Decoder.bind_of_some hstart]
        simp only [ValueCost.width_eq, ValueCost.zero_bytes, Nat.add_zero]
        rw [Decoder.bind_of_some htake]
        simp only [ValueCost.width_eq]
        rw [Decoder.bind_of_some hsize]
        simp only [ValueCost.width_eq, ValueCost.zero_bytes, Nat.add_zero, hraw, hnat]
        rw [Decoder.bind_of_some hadmission]
        simp only [ValueCost.width_eq, Nat.add_zero]
        rw [Decoder.bind_of_some hread]
        simp only [ValueCost.width_eq]
        rw [Decoder.bind_of_some hreadPadding, completeFormat_eq_some.mpr ⟨rfl, rfl⟩]
        simp only [Option.map_some, Option.some.injEq, Prod.mk.injEq]
        constructor
        · simp [PaddedField.fill, PaddedField.encode, PaddedField.paddingSource, hbodyLength,
            Field.isPadded, hpadding]
          omega
        · ext <;> simp [PaddedField.cost, PaddedField.encode, hbodyLength, hpadding]
          all_goals omega

end Leaves

/-! ## Fields one after the other -/

section Reads

variable {mapped : Text} {stop : ℕ} {β γ : Type}

/-- **Reading fields.** The decoder accepts fields of these shapes where they are
spelled, and nothing else; what it returns is told by the fields and the offset,
and it costs what they cost with so much work on top. -/
def Reads (mapped : Text) (stop : ℕ) (D : Decoder ValueCost β) (shapes : List FieldShape)
    (value : ℕ → List PaddedField → β) (extra : ℕ) : Prop :=
  ∀ ⦃at_ b d⦄, at_ ≤ stop → (D at_ = some (b, d) ↔
    ∃ fields : List PaddedField, fields.map PaddedField.shape = shapes ∧
      Consecutive PaddedField.encode (fun at_ f => f.Valid at_) at_ fields ∧
      (payloadSource mapped stop).Spells at_ (encodeFields fields) ∧
      b = value at_ fields ∧ d = fieldsCost fields + { work := extra })

theorem spells_nil (hstop : stop ≤ mapped.length) {at_ : ℕ} (hat : at_ ≤ stop) :
    (payloadSource mapped stop).Spells at_ [] :=
  ⟨holds_of_le hstop hat, List.nil_prefix⟩

theorem reads_pure (hstop : stop ≤ mapped.length) (b : β) :
    Reads mapped stop (pure b) [] (fun _ _ => b) 0 := by
  intro at_ c d hat
  rw [Decoder.pure_eq_some]
  constructor
  · rintro ⟨rfl, rfl⟩
    exact ⟨[], rfl, trivial, spells_nil hstop hat, rfl, rfl⟩
  · rintro ⟨fields, hshapes, -, -, rfl, rfl⟩
    obtain rfl := List.map_eq_nil_iff.mp hshapes
    exact ⟨rfl, rfl⟩

/-- The fields behind the first ones. -/
theorem Reads.bind {D : Decoder ValueCost β} {Q : β → Decoder ValueCost γ}
    {shapes more : List FieldShape} {value : ℕ → List PaddedField → β}
    {result : β → ℕ → List PaddedField → γ} {extra extra' : ℕ}
    (hD : Reads mapped stop D shapes value extra)
    (hQ : ∀ b, Reads mapped stop (Q b) more (result b) extra') :
    Reads mapped stop (D >>= Q) (shapes ++ more)
      (fun at_ fields => result (value at_ (fields.take shapes.length))
        (fieldOffset at_ fields shapes.length) (fields.drop shapes.length)) (extra + extra') := by
  intro at_ c d hat
  have hwidth : ∀ fields, Cost.width (fieldsCost fields + { work := extra }) =
      (encodeFields fields).length := fieldsCost_bytes
  have hcost : ∀ fields more, fieldsCost fields + { work := extra } +
      (fieldsCost more + { work := extra' }) =
        fieldsCost (fields ++ more) + { work := extra + extra' } := by
    intro fields more
    rw [fieldsCost_append]
    ext <;> simp [Nat.add_assoc, Nat.add_left_comm]
  rw [Decoder.bind_eq_some]
  constructor
  · rintro ⟨b, d₁, d₂, h₁, h₂, rfl⟩
    obtain ⟨fields, rfl, hvalid, hspells, rfl, rfl⟩ := (hD hat).mp h₁
    rw [hwidth] at h₂
    obtain ⟨rest, rfl, hrest, hspellsRest, rfl, rfl⟩ := (hQ _ hspells.holds.1).mp h₂
    refine ⟨fields ++ rest, List.map_append, consecutive_append.mpr ⟨hvalid, hrest⟩, ?_, ?_,
      hcost fields rest⟩
    · rw [encodeFields_append]
      exact MetadataSource.spells_append.mpr ⟨hspells, hspellsRest⟩
    · dsimp only
      rw [List.length_map, List.take_left, List.drop_left, fieldOffset_left]
  · rintro ⟨all, hshapes, hvalid, hspells, rfl, rfl⟩
    obtain ⟨fields, rest, rfl, rfl, rfl⟩ := List.map_eq_append_iff.mp hshapes
    rw [encodeFields_append] at hspells
    obtain ⟨hspells, hspellsRest⟩ := MetadataSource.spells_append.mp hspells
    obtain ⟨hvalid, hrest⟩ := consecutive_append.mp hvalid
    refine ⟨_, _, _, (hD hat).mpr ⟨fields, rfl, hvalid, hspells, rfl, rfl⟩, ?_,
      (hcost fields rest).symm⟩
    dsimp only
    rw [hwidth, List.length_map, List.take_left, List.drop_left, fieldOffset_left]
    exact (hQ _ hspells.holds.1).mpr ⟨rest, rfl, hrest, hspellsRest, rfl, rfl⟩

/-- A step that only looks at the cursor. -/
theorem Reads.position {Q : ℕ → Decoder ValueCost γ} {shapes : List FieldShape}
    {value : ℕ → ℕ → List PaddedField → γ} {extra : ℕ}
    (hQ : ∀ start, Reads mapped stop (Q start) shapes (value start) extra) :
    Reads mapped stop (Decoder.position >>= Q) shapes
      (fun at_ fields => value at_ at_ fields) extra := by
  intro at_ c d hat
  rw [← hQ at_ hat]
  have hstart : (Decoder.position : Decoder ValueCost ℕ) at_ = some (at_, 0) := rfl
  rw [Decoder.bind_of_some hstart]
  simp

theorem reads_complete (hstop : stop ≤ mapped.length) (start : ℕ) (value : SerializedFileValue) :
    Reads mapped stop (completeFormat start value) []
      (fun at_ _ => { value with source := ⟨start, at_ - start⟩ }) 1 := by
  intro at_ c d hat
  rw [completeFormat_eq_some]
  constructor
  · rintro ⟨rfl, rfl⟩
    exact ⟨[], rfl, trivial, spells_nil hstop hat, rfl, (ValueCost.zero_add _).symm⟩
  · rintro ⟨fields, hshapes, -, -, rfl, rfl⟩
    obtain rfl := List.map_eq_nil_iff.mp hshapes
    exact ⟨rfl, ValueCost.zero_add _⟩

theorem Reads.congr {D : Decoder ValueCost β} {shapes : List FieldShape}
    {value value' : ℕ → List PaddedField → β} {extra : ℕ}
    (hD : Reads mapped stop D shapes value extra)
    (heq : ∀ at_ fields, fields.map PaddedField.shape = shapes →
      value at_ fields = value' at_ fields) : Reads mapped stop D shapes value' extra := by
  intro at_ b d hat
  rw [hD hat]
  constructor
  · rintro ⟨fields, hshapes, hvalid, hspells, rfl, hcost⟩
    exact ⟨fields, hshapes, hvalid, hspells, heq at_ fields hshapes, hcost⟩
  · rintro ⟨fields, hshapes, hvalid, hspells, rfl, hcost⟩
    exact ⟨fields, hshapes, hvalid, hspells, (heq at_ fields hshapes).symm, hcost⟩

/-- What is made of the result. -/
theorem Reads.map (hstop : stop ≤ mapped.length) {D : Decoder ValueCost β} {shapes : List FieldShape}
    {value : ℕ → List PaddedField → β} {extra : ℕ} (hD : Reads mapped stop D shapes value extra)
    (g : β → γ) :
    Reads mapped stop (D >>= fun b => pure (g b)) shapes
      (fun at_ fields => g (value at_ fields)) extra := by
  have h := hD.bind fun b => reads_pure hstop (g b)
  rw [List.append_nil] at h
  refine h.congr fun at_ fields hshapes => ?_
  rw [← hshapes, List.length_map, List.take_length]

/-- A decoder of one field. -/
theorem reads_field {schema : SerializedFileSchema} {value : SerializedFileValue}
    {D : Decoder ValueCost SerializedFileValue} {shape : FieldShape}
    (hD : ∀ {at_ result d}, at_ ≤ stop → (D at_ = some (result, d) ↔
      ∃ f : PaddedField, f.shape = shape ∧ f.Valid at_ ∧
        (payloadSource mapped stop).Spells at_ f.encode ∧ result = f.fill schema at_ value ∧
        d = f.cost)) :
    Reads mapped stop D [shape]
      (fun at_ fields => fields.head?.elim value fun f => f.fill schema at_ value) 0 := by
  intro at_ result d hat
  rw [hD hat]
  constructor
  · rintro ⟨f, rfl, hvalid, hspells, rfl, rfl⟩
    refine ⟨[f], rfl, ⟨hvalid, trivial⟩, ?_, rfl, ?_⟩
    · rw [encodeFields, List.flatMap_singleton]
      exact hspells
    · rw [fieldsCost_singleton]
      exact (ValueCost.add_zero _).symm
  · rintro ⟨fields, hshapes, hvalid, hspells, rfl, rfl⟩
    obtain ⟨f, rfl, rfl⟩ := List.map_eq_singleton_iff.mp hshapes
    rw [encodeFields, List.flatMap_singleton] at hspells
    refine ⟨f, rfl, hvalid.1, hspells, rfl, ?_⟩
    rw [fieldsCost_singleton]
    exact ValueCost.add_zero _

end Reads

end UnityCommon.Values
