import UnityCommon.Lib.Tiling
import UnityCommon.SerializedFile.ValuesExact

/-!
# The spans of created values

A value spans the leaves below it, which lie one behind the other, and what the
leaves say is enough to write the payload again.
-/

namespace UnityCommon.Values

open UnityCommon.Metadata

/-- Every value but a container is read from bytes of its own. -/
def SerializedFileValue.IsLeaf (value : SerializedFileValue) : Prop := value.kind ≠ .container

instance : DecidablePred SerializedFileValue.IsLeaf :=
  fun value => inferInstanceAs (Decidable (value.kind ≠ .container))

def SerializedFileValue.extent (value : SerializedFileValue) : ℕ × ℕ :=
  (value.source.offset, value.source.size)

/-- What a value is written as: its length or its bits, and the bytes that it
leaves in the mapping. -/
def SerializedFileValue.encode (mapped : Text) (value : SerializedFileValue) : Text :=
  let body : Text := match value.kind with
    | .container => []
    | .byteString =>
        encodeNat 0 lengthBytes value.lengthBits.toNat ++ value.bytesSource.elim [] (·.bytes mapped)
    | _ => encodeNat 0 (value.integerSource.elim 0 (·.size)) value.integerBits.toNat
  body ++ value.paddingSource.elim [] (·.bytes mapped)

/-- The leaves of a subtree, in their order. -/
def SerializedFileValues.leavesBelow (values : SerializedFileValues) (value : SerializedFileValue) :
    List SerializedFileValue :=
  ((values.values.take value.subtreeEnd).drop value.ordinal).filter (·.IsLeaf)

/-! ## The tables -/

theorem fieldsBefore_succ (profile : ObjectProfile) : ∀ ordinal < profile.valueCount,
    profile.fieldsBefore (ordinal + 1) = profile.fieldsBefore ordinal +
      if (profile.roleAt ordinal).kind = .container then 0 else 1 := by
  cases profile <;> decide

/-- A leaf is of the kind that its shape says. -/
theorem shape_of_leaf (profile : ObjectProfile) : ∀ ordinal < profile.valueCount,
    (profile.roleAt ordinal).kind ≠ .container →
      (profile.shapes[profile.fieldsBefore ordinal]?).map (fun shape => decide (shape = .string)) =
        some (decide ((profile.roleAt ordinal).kind = .byteString)) := by
  cases profile <;> decide

theorem subtreeEnd_bounds (profile : ObjectProfile) : ∀ ordinal < profile.valueCount,
    ordinal < (profile.roleAt ordinal).subtreeEnd ∧
      (profile.roleAt ordinal).subtreeEnd ≤ profile.valueCount ∧
      ((profile.roleAt ordinal).kind ≠ .container →
        (profile.roleAt ordinal).subtreeEnd = ordinal + 1) := by
  cases profile <;> decide

theorem supported_of_mem_shapes (profile : ObjectProfile) :
    ∀ shape ∈ profile.shapes, shape.Supported := by
  cases profile <;> decide

/-- A span in two parts. -/
theorem bytes_add (mapped : Text) (offset size size' : ℕ) :
    (PrefixSpan.mk offset (size + size')).bytes mapped =
      (PrefixSpan.mk offset size).bytes mapped ++
        (PrefixSpan.mk (offset + size) size').bytes mapped := by
  simp only [PrefixSpan.bytes]
  rw [List.take_add, List.drop_drop]

/-! ## One leaf -/

section Leaf

variable {mapped : Text} {schema : SerializedFileSchema} {stop at_ : ℕ} {f : PaddedField}
  {value : SerializedFileValue}

@[simp] theorem fill_kind : (f.fill schema at_ value).kind = value.kind := by
  unfold PaddedField.fill
  cases f.field <;> rfl

@[simp] theorem fill_ordinal : (f.fill schema at_ value).ordinal = value.ordinal := by
  unfold PaddedField.fill
  cases f.field <;> rfl

@[simp] theorem fill_subtreeEnd : (f.fill schema at_ value).subtreeEnd = value.subtreeEnd := by
  unfold PaddedField.fill
  cases f.field <;> rfl

@[simp] theorem fill_source :
    (f.fill schema at_ value).source = ⟨at_, f.encode.length⟩ := by
  unfold PaddedField.fill
  cases f.field <;> rfl

theorem elim_paddingSource (hvalid : f.Valid at_)
    (hspells : (payloadSource mapped stop).Spells at_ f.encode) :
    (f.paddingSource at_).elim [] (·.bytes mapped) = f.padding := by
  have hpadding := hvalid.padding
  unfold PaddedField.paddingSource
  by_cases hpadded : f.field.isPadded = true
  · rw [if_pos hpadded]
    exact (MetadataSource.spells_append.mp hspells).2.bytes rfl
  · rw [if_neg hpadded] at hpadding ⊢
    exact (List.length_eq_zero_iff.mp hpadding).symm

/-- **A leaf is written as the field it was read from.** -/
theorem encode_fill (hshape : f.shape.Supported) (hvalid : f.Valid at_)
    (hspells : (payloadSource mapped stop).Spells at_ f.encode) (hkind : value.kind ≠ .container)
    (hstring : f.shape = .string ↔ value.kind = .byteString) :
    (f.fill schema at_ value).encode mapped = f.encode := by
  have hpadding := elim_paddingSource hvalid hspells
  have hbody := (MetadataSource.spells_append.mp hspells).1
  obtain ⟨field, padding⟩ := f
  cases field with
  | string bytes =>
      have hbyteString : value.kind = .byteString := hstring.mp rfl
      have hlength : bytes.length.toUInt32.toNat = bytes.length := by
        have hle : bytes.length ≤ int32Max := hvalid.field
        rw [UInt32.toNat_ofNat', Nat.mod_eq_of_lt]
        exact Nat.lt_of_le_of_lt hle (by decide)
      have hbytes : (PrefixSpan.mk (at_ + lengthBytes) bytes.length).bytes mapped = bytes := by
        have hspelled := (MetadataSource.spells_append.mp hbody).2
        rw [length_encodeNat] at hspelled
        exact hspelled.bytes rfl
      have hkind' : ((⟨.string bytes, padding⟩ : PaddedField).fill schema at_ value).kind =
        .byteString := hbyteString
      unfold SerializedFileValue.encode
      rw [hkind']
      show (encodeNat 0 lengthBytes bytes.length.toUInt32.toNat ++
          (PrefixSpan.mk (at_ + lengthBytes) bytes.length).bytes mapped) ++
        (PaddedField.paddingSource ⟨.string bytes, padding⟩ at_).elim [] (·.bytes mapped) = _
      rw [hlength, hbytes, hpadding]
      rfl
  | integer width aligned bits =>
      have hwidth : width = 1 ∨ width = 4 ∨ width = 8 := hshape
      have hbits : bits.toUInt64.toNat = bits := by
        have hlt : bits < 256 ^ width := hvalid.field
        rw [UInt64.toNat_ofNat', Nat.mod_eq_of_lt]
        refine Nat.lt_of_lt_of_le hlt (Nat.pow_le_pow_right (by decide) (?_ : width ≤ 8))
        omega
      have hbody' : ((⟨.integer width aligned bits, padding⟩ : PaddedField).fill schema at_
          value).encode mapped = encodeNat 0 width bits.toUInt64.toNat ++
        (PaddedField.paddingSource ⟨.integer width aligned bits, padding⟩ at_).elim []
          (·.bytes mapped) := by
        have hne : value.kind ≠ .byteString := fun h => by cases hstring.mpr h
        unfold SerializedFileValue.encode
        have hsame : ((⟨.integer width aligned bits, padding⟩ : PaddedField).fill schema at_
          value).kind = value.kind := rfl
        rw [hsame]
        cases hk : value.kind with
        | container => exact absurd hk hkind
        | byteString => exact absurd hk hne
        | signedInteger => rfl
        | unsignedInteger => rfl
      rw [hbody', hbits, hpadding]
      rfl

end Leaf

/-! ## All leaves -/

section Leaves

variable {mapped : Text} {schema : SerializedFileSchema} {profile : ObjectProfile} {stop at_ : ℕ}
  {fields : List PaddedField}

/-- A field where it stands. -/
theorem field_at {i : ℕ} {f : PaddedField}
    (hvalid : Consecutive PaddedField.encode (fun at_ f => f.Valid at_) at_ fields)
    (hspells : (payloadSource mapped stop).Spells at_ (encodeFields fields))
    (hf : fields[i]? = some f) :
    f.Valid (fieldOffset at_ fields i) ∧
      (payloadSource mapped stop).Spells (fieldOffset at_ fields i) f.encode ∧
      fieldOffset at_ fields (i + 1) = fieldOffset at_ fields i + f.encode.length := by
  have hnext : fieldOffset at_ fields (i + 1) = fieldOffset at_ fields i + f.encode.length := by
    simp [fieldOffset, List.take_add_one, hf, Nat.add_assoc]
  have hsplit : fields = fields.take i ++ f :: fields.drop (i + 1) := by
    obtain ⟨hi, rfl⟩ := List.getElem?_eq_some_iff.mp hf
    rw [← List.drop_eq_getElem_cons hi, List.take_append_drop]
  generalize hbefore : fields.take i = before at hsplit
  have hstart : fieldOffset at_ fields i = at_ + (encodeFields before).length := by
    rw [fieldOffset, hbefore]
    rfl
  rw [hsplit, consecutive_append] at hvalid
  rw [hsplit, encodeFields_append, MetadataSource.spells_append] at hspells
  refine ⟨?_, ?_, hnext⟩
  · rw [hstart]
    exact hvalid.2.1
  · rw [hstart]
    exact (MetadataSource.spells_append.mp hspells.2).1

variable (schema) in
/-- The leaves of consecutive ordinals stand where their fields do. -/
theorem leaves_tile (hspelling : Spelling profile at_ fields)
    (hspells : (payloadSource mapped stop).Spells at_ (encodeFields fields)) (count start : ℕ)
    (hcount : start + count ≤ profile.valueCount) :
    let leaves := ((List.range' start count).map (valueAt schema profile at_ fields)).filter (·.IsLeaf)
    Tiles (fieldOffset at_ fields (profile.fieldsBefore start)) (leaves.map (·.extent))
        (fieldOffset at_ fields (profile.fieldsBefore (start + count))) ∧
      leaves.flatMap (·.encode mapped) =
        (PrefixSpan.mk (fieldOffset at_ fields (profile.fieldsBefore start))
          (fieldOffset at_ fields (profile.fieldsBefore (start + count)) -
            fieldOffset at_ fields (profile.fieldsBefore start))).bytes mapped := by
  induction count generalizing start with
  | zero =>
      refine ⟨rfl, ?_⟩
      simp [PrefixSpan.bytes]
  | succ count ih =>
      have hlt : start < profile.valueCount := by omega
      have hnext := fieldsBefore_succ profile start hlt
      have htail := ih (start + 1) (by omega)
      rw [hnext, Nat.add_assoc start, Nat.add_comm 1] at htail
      rw [List.range'_succ, List.map_cons]
      by_cases hkind : (profile.roleAt start).kind = .container
      · have hleaf : ¬ (valueAt schema profile at_ fields start).IsLeaf := by
          rw [valueAt_container hkind rfl rfl]
          exact not_not.mpr hkind
        rw [if_pos hkind, Nat.add_zero] at htail
        rw [List.filter_cons_of_neg (by simpa using hleaf)]
        exact htail
      · rw [if_neg hkind] at htail
        have hshape := shape_of_leaf profile start hlt hkind
        rw [← hspelling.shapes, List.getElem?_map, Option.map_map, Option.map_eq_some_iff] at hshape
        obtain ⟨f, hf, hstring⟩ := hshape
        obtain ⟨hvalid, hspelled, hend⟩ := field_at hspelling.valid hspells hf
        have hvalue : valueAt schema profile at_ fields start = _ := valueAt_leaf _ hkind rfl hf
        have hsupported : f.shape.Supported := by
          refine supported_of_mem_shapes profile _ ?_
          rw [← hspelling.shapes]
          exact List.mem_map_of_mem (List.mem_of_getElem? hf)
        have hkinds : f.shape = .string ↔ (profile.roleAt start).kind = .byteString := by
          simpa using hstring
        have hencode : (valueAt schema profile at_ fields start).encode mapped = f.encode := by
          rw [hvalue]
          exact encode_fill hsupported hvalid hspelled hkind hkinds
        have hextent : (valueAt schema profile at_ fields start).extent =
            (fieldOffset at_ fields (profile.fieldsBefore start), f.encode.length) := by
          rw [hvalue, SerializedFileValue.extent, fill_source]
        have hleaf : (valueAt schema profile at_ fields start).IsLeaf := by
          rw [hvalue, SerializedFileValue.IsLeaf, fill_kind]
          exact hkind
        rw [hend] at htail
        obtain ⟨htiles, hbytes⟩ := htail
        have hle := htiles.le
        rw [List.filter_cons_of_pos (by simpa using hleaf)]
        refine ⟨?_, ?_⟩
        · rw [List.map_cons, hextent]
          exact Tiles.cons htiles
        · have hfirst : (PrefixSpan.mk (fieldOffset at_ fields (profile.fieldsBefore start))
              f.encode.length).bytes mapped = f.encode := hspelled.bytes rfl
          have hsize : fieldOffset at_ fields (profile.fieldsBefore (start + (count + 1))) -
              fieldOffset at_ fields (profile.fieldsBefore start) = f.encode.length +
              (fieldOffset at_ fields (profile.fieldsBefore (start + (count + 1))) -
                (fieldOffset at_ fields (profile.fieldsBefore start) + f.encode.length)) := by
            omega
          rw [List.flatMap_cons, hencode, hbytes, hsize, bytes_add, hfirst]

variable (schema) in
/-- What the value of an ordinal is, apart from what it was read from. -/
theorem valueAt_frame (hspelling : Spelling profile at_ fields) {ordinal : ℕ}
    (hlt : ordinal < profile.valueCount) :
    (valueAt schema profile at_ fields ordinal).ordinal = ordinal ∧
      (valueAt schema profile at_ fields ordinal).subtreeEnd =
        (profile.roleAt ordinal).subtreeEnd ∧
      (valueAt schema profile at_ fields ordinal).source =
        ⟨fieldOffset at_ fields (profile.fieldsBefore ordinal),
          fieldOffset at_ fields (profile.fieldsBefore (profile.roleAt ordinal).subtreeEnd) -
            fieldOffset at_ fields (profile.fieldsBefore ordinal)⟩ := by
  by_cases hkind : (profile.roleAt ordinal).kind = .container
  · rw [valueAt_container hkind rfl rfl]
    exact ⟨rfl, rfl, rfl⟩
  · have hshape := shape_of_leaf profile ordinal hlt hkind
    rw [← hspelling.shapes, List.getElem?_map, Option.map_map, Option.map_eq_some_iff] at hshape
    obtain ⟨f, hf, -⟩ := hshape
    have hend := (subtreeEnd_bounds profile ordinal hlt).2.2 hkind
    have hnext : fieldOffset at_ fields (profile.fieldsBefore ordinal + 1) =
        fieldOffset at_ fields (profile.fieldsBefore ordinal) + f.encode.length := by
      simp [fieldOffset, List.take_add_one, hf, Nat.add_assoc]
    have hvalue : valueAt schema profile at_ fields ordinal = _ := valueAt_leaf _ hkind rfl hf
    rw [hvalue, fill_ordinal, fill_subtreeEnd, fill_source, hend, fieldsBefore_succ profile ordinal hlt,
      if_neg hkind, hnext, Nat.add_sub_cancel_left]
    exact ⟨rfl, hend, rfl⟩

/-- **The leaves below a value** tile its source and are what its bytes are written from. -/
theorem spans_of_spelling (hspelling : Spelling profile at_ fields)
    (hspells : (payloadSource mapped stop).Spells at_ (encodeFields fields)) {ordinal : ℕ}
    (hlt : ordinal < profile.valueCount) :
    let value := valueAt schema profile at_ fields ordinal
    let leaves := (((valuesOf schema profile at_ fields).take value.subtreeEnd).drop
      value.ordinal).filter (·.IsLeaf)
    Tiles value.source.offset (leaves.map (·.extent)) (value.source.offset + value.source.size) ∧
      leaves.flatMap (·.encode mapped) = value.source.bytes mapped := by
  intro value leaves
  obtain ⟨hordinal, hsubtree, hsource⟩ := valueAt_frame schema hspelling hlt
  obtain ⟨hbelow, hbound, -⟩ := subtreeEnd_bounds profile ordinal hlt
  have hleaves : leaves = ((List.range' ordinal ((profile.roleAt ordinal).subtreeEnd - ordinal)).map
      (valueAt schema profile at_ fields)).filter (·.IsLeaf) := by
    show (((valuesOf schema profile at_ fields).take _).drop _).filter _ = _
    rw [hordinal, hsubtree, valuesOf, ← List.map_take, ← List.map_drop, List.take_range,
      Nat.min_eq_left hbound, List.range_eq_range', List.drop_range', Nat.zero_add, Nat.mul_one]
  have hstop : ordinal + ((profile.roleAt ordinal).subtreeEnd - ordinal) =
    (profile.roleAt ordinal).subtreeEnd := by omega
  have htile := leaves_tile schema hspelling hspells
    ((profile.roleAt ordinal).subtreeEnd - ordinal) ordinal (by omega)
  rw [hstop, ← hleaves] at htile
  obtain ⟨htiles, hbytes⟩ := htile
  have hle := htiles.le
  show Tiles (valueAt schema profile at_ fields ordinal).source.offset _
    ((valueAt schema profile at_ fields ordinal).source.offset +
      (valueAt schema profile at_ fields ordinal).source.size) ∧
    _ = (valueAt schema profile at_ fields ordinal).source.bytes mapped
  rw [hsource]
  refine ⟨?_, hbytes⟩
  rw [Nat.add_sub_cancel' hle]
  exact htiles

end Leaves

/-! ## The totals -/

/-- A byte is content, padding, or part of a length. -/
theorem cost_counted (f : PaddedField) :
    f.cost.strings + f.cost.padding + f.cost.integers +
      (if f.shape = .string then lengthBytes else 0) = f.encode.length := by
  obtain ⟨field, padding⟩ := f
  cases field <;> simp [PaddedField.cost, PaddedField.encode, Field.body, PaddedField.shape,
    Field.shape]
  all_goals omega

theorem fieldsCost_counted (fields : List PaddedField) :
    (fieldsCost fields).strings + (fieldsCost fields).padding + (fieldsCost fields).integers +
      lengthBytes * (fields.filter (·.shape = .string)).length = (encodeFields fields).length := by
  induction fields with
  | nil => rfl
  | cons f fields ih =>
      have hf := cost_counted f
      have hcost : fieldsCost (f :: fields) = f.cost + fieldsCost fields := rfl
      have hencode : encodeFields (f :: fields) = f.encode ++ encodeFields fields := rfl
      rw [hcost, hencode, List.length_append, ← ih, ← hf, ValueCost.add_strings,
        ValueCost.add_padding, ValueCost.add_integers]
      by_cases hstring : f.shape = .string
      · rw [List.filter_cons_of_pos (by simpa using hstring), if_pos hstring, List.length_cons,
          Nat.mul_succ]
        omega
      · rw [List.filter_cons_of_neg (by simpa using hstring), if_neg hstring]
        omega

theorem valueAt_kind (schema : SerializedFileSchema) (profile : ObjectProfile) (at_ : ℕ)
    (fields : List PaddedField) (ordinal : ℕ) :
    (valueAt schema profile at_ fields ordinal).kind = (profile.roleAt ordinal).kind := by
  unfold valueAt
  dsimp only
  split
  · rfl
  · split
    · exact fill_kind
    · rfl

theorem length_strings (schema : SerializedFileSchema) (profile : ObjectProfile) (at_ : ℕ)
    (fields : List PaddedField) (hshapes : fields.map PaddedField.shape = profile.shapes) :
    ((valuesOf schema profile at_ fields).filter (·.kind = .byteString)).length =
      (fields.filter (·.shape = .string)).length := by
  have hvalues : ((valuesOf schema profile at_ fields).filter (·.kind = .byteString)).length =
      ((List.range profile.valueCount).filter fun ordinal =>
        (profile.roleAt ordinal).kind = .byteString).length := by
    rw [valuesOf, List.filter_map, List.length_map]
    exact congrArg List.length (List.filter_congr fun ordinal _ => by simp [valueAt_kind])
  have hfields : (fields.filter (·.shape = .string)).length =
      (profile.shapes.filter (· = .string)).length := by
    rw [← hshapes, List.filter_map, List.length_map]
    rfl
  rw [hvalues, hfields]
  cases profile <;> decide

/-! ## What was created -/

section Created

variable {mapped : Text} {limits : ValuesLimits} {directory : SerializedFileDirectory}
  {schema : SerializedFileSchema} {objectOrdinal : ℕ} {allowOrdinary : Bool} {answers : ℕ → Bool}
  {n m : ℕ} {result : ValuesResult} {values : SerializedFileValues}

/-- **The spans of what was created.** The root spans the payload; the leaves below
a value lie one behind the other in its source and are all that its bytes are
written from; and every byte is content, padding, or part of a length. -/
theorem serializedFileValuesCreate_spans
    (h : serializedFileValuesCreate mapped limits directory schema objectOrdinal allowOrdinary
      answers none n = .ok result (some values) m) :
    (values.values.head?.map (·.source) =
        some ⟨values.view.object.payload.offset, values.view.object.payload.size⟩) ∧
      (∀ value ∈ values.values,
        Tiles value.source.offset ((values.leavesBelow value).map (·.extent))
            (value.source.offset + value.source.size) ∧
          (values.leavesBelow value).flatMap (·.encode mapped) = value.source.bytes mapped) ∧
      values.view.stringBytes + values.view.paddingBytes + values.view.integerBytes +
        lengthBytes * (values.values.filter (·.kind = .byteString)).length =
          values.view.consumedBytes := by
  obtain ⟨plan, hplan, -, -, rfl, -⟩ := plan_of_create h
  have hlength : (encodeFields plan.fields).length = plan.object.payload.size := by
    rw [← hplan.bytes]
    exact (MetadataSource.spells_bytes (holds_of_le hplan.payload le_rfl)).1
  have hspells : (payloadSource mapped
      (plan.object.payload.offset + plan.object.payload.size)).Spells plan.object.payload.offset
        (encodeFields plan.fields) := by
    rw [← hplan.bytes]
    exact (MetadataSource.spells_bytes (holds_of_le hplan.payload le_rfl)).2
  refine ⟨?_, ?_, ?_⟩
  · show ((valuesOf schema plan.profile plan.object.payload.offset plan.fields).head?.map
      (·.source)) = _
    rw [valuesOf_eq, List.head?_cons, Option.map_some, valueAt_root hplan.spelling.shapes, hlength]
    rfl
  · intro value hvalue
    obtain ⟨ordinal, hlt, rfl⟩ := List.mem_map.mp hvalue
    exact spans_of_spelling hplan.spelling hspells (List.mem_range.mp hlt)
  · have hcounted := fieldsCost_counted plan.fields
    rw [← length_strings schema plan.profile plan.object.payload.offset plan.fields
      hplan.spelling.shapes, hlength] at hcounted
    simpa [ValuesPlan.owner, ValuesPlan.cost, ValuesPlan.values] using hcounted

end Created

/-! ## A text asset -/

/-- A node record by the offsets of its names. -/
def textAssetNode (level flags : UInt8) (typeName fieldName byteSize index metaFlags : UInt32) :
    Text :=
  storeLe16 1 ++ [level, flags] ++ storeLe32 typeName ++ storeLe32 fieldName ++
    storeLe32 byteSize ++ storeLe32 index ++ storeLe32 metaFlags ++ List.replicate 8 0

/-- The metadata of a file with one text asset. -/
def textAssetMetadata : Text :=
  ascii "2021.3.35f1" ++ [0] ++ storeLe32 19 ++ [1] ++
    storeLe32 1 ++ storeLe32 49 ++ [0] ++ storeLe16 0xffff ++ List.replicate 16 0 ++
    storeLe32 9 ++ storeLe32 63 ++
    textAssetNode 0 0 0 10 unsized 0 0x8000 ++
    textAssetNode 1 0 15 22 unsized 1 0x88001 ++
    textAssetNode 2 1 29 29 unsized 2 0x84001 ++
    textAssetNode 3 0 35 39 4 3 0x80001 ++
    textAssetNode 3 0 44 49 1 4 0x80001 ++
    textAssetNode 1 0 15 54 unsized 5 0x4008001 ++
    textAssetNode 2 1 29 29 unsized 6 0x4004001 ++
    textAssetNode 3 0 35 39 4 7 0x4000001 ++
    textAssetNode 3 0 44 49 1 8 0x4000001 ++
    (["TextAsset", "Base", "string", "m_Name", "Array", "int", "size", "char", "data",
      "m_Script"].flatMap fun name => ascii name ++ [0]) ++
    storeLe32 0 ++ storeLe32 1 ++ [0] ++
    (storeLe32 7 ++ storeLe32 0 ++ storeLe32 0 ++ storeLe32 0 ++ storeLe32 16 ++ storeLe32 0) ++
    storeLe32 0 ++ storeLe32 0 ++ storeLe32 0 ++ [0]

def textAssetFile : Text :=
  List.replicate 8 0 ++ storeBe32 22 ++ List.replicate 4 0 ++
    storeBe64 textAssetMetadata.length.toUInt64 ++ storeBe64 528 ++ storeBe64 512 ++
    List.replicate 8 0 ++ textAssetMetadata ++
    List.replicate (512 - (48 + textAssetMetadata.length)) 0 ++
    (storeLe32 2 ++ ascii "ab" ++ [0, 0] ++ storeLe32 3 ++ ascii "hey" ++ [0])

def textAssetDirectory : Option SerializedFileDirectory :=
  match (serializedFileDirectoryCreate textAssetFile textAssetFile.length .engine2021_3_35f1
    ⟨64, 1, 1, 9, 63, 0, 2 ^ 20, 2 ^ 20, 2 ^ 20, 2 ^ 20⟩ Call.granted () 0) with
  | .ok (directory, _) _ _ => some directory
  | .error _ _ _ => none

def textAssetSchema (directory : SerializedFileDirectory) : Option SerializedFileSchema :=
  match (serializedFileSchemaCreate textAssetFile (.directory directory) 0
    ⟨9, 63, 255, 2 ^ 20, 2 ^ 20, 2 ^ 20⟩ Call.granted () 0) with
  | .ok (schema, _) _ _ => some schema
  | .error _ _ _ => none

/-- The least limits that cover the asset. -/
def textAssetLimits : ValuesLimits where
  maxPayloadBytes := 16
  maxValues := 3
  maxDepth := 1
  maxStringBytes := 3
  maxTotalStringBytes := 5
  maxPaddingBytes := 3
  maxRetainedBytes := 2568
  maxWork := 2748
  maxIntegerBytes := 0
  maxTotalIntegerBytes := 0

/-- The extents of its values. -/
def textAssetExtents : Option (List (ℕ × ℕ)) :=
  textAssetDirectory.bind fun directory => (textAssetSchema directory).bind fun schema =>
    match serializedFileValuesCreate textAssetFile textAssetLimits directory schema 0 false
      Call.granted none 0 with
    | .ok _ (some values) _ => some (values.values.map SerializedFileValue.extent)
    | _ => none

theorem serializedFileValuesCreate_spans_textAsset :
    ∃ directory schema result values m,
      textAssetDirectory = some directory ∧ textAssetSchema directory = some schema ∧
      serializedFileValuesCreate textAssetFile textAssetLimits directory schema 0 false
        Call.granted none 0 = .ok result (some values) m ∧
      values.values.map (·.extent) = [(512, 16), (512, 8), (520, 8)] ∧
      ∀ value ∈ values.values,
        (values.leavesBelow value).flatMap (·.encode textAssetFile) =
          value.source.bytes textAssetFile := by
  have hextents : textAssetExtents = some [(512, 16), (512, 8), (520, 8)] := by decide +kernel
  obtain ⟨directory, hdirectory, hextents⟩ := Option.bind_eq_some_iff.mp hextents
  obtain ⟨schema, hschema, hextents⟩ := Option.bind_eq_some_iff.mp hextents
  cases hrun : serializedFileValuesCreate textAssetFile textAssetLimits directory schema 0 false
      Call.granted none 0 with
  | error e out m =>
      rw [hrun] at hextents
      cases hextents
  | ok result out m =>
      rw [hrun] at hextents
      cases out with
      | none => cases hextents
      | some values =>
          obtain ⟨-, hspans, -⟩ := serializedFileValuesCreate_spans hrun
          exact ⟨directory, schema, result, values, m, hdirectory, hschema, hrun,
            Option.some.inj hextents, fun value hvalue => (hspans value hvalue).2⟩

end UnityCommon.Values
