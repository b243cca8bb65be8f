import UnityCommon.SerializedFile.TreeLoaders
import UnityCommon.SerializedFile.ValuesSpans
import UnityCommon.TypeTree.Leaves
import UnityCommon.TypeTree.WireParse

/-!
# The two decoders of an object

The values of an object are decoded by a profile, or parsed by the tree of its
type. Where a schema is that of a profile, both accept the same bytes and find
the same leaves in them.
-/

namespace UnityCommon.Values

open Metadata TypeTree
open ManagedValues (directoryObject)

/-! ## Layouts -/

/-- The fields below a node, each with the node that it is read by. -/
inductive Layout where
  | leaf (index : ℕ) (shape : FieldShape)
  | group (index : ℕ) (members : List Layout)

/-- The parser reads a field of the shape at the node. -/
def leafIsOf (type : TypeTreeType) (index : ℕ) : FieldShape → Bool
  | .integer width aligned =>
      nodeKind type index == .leaf && aligns type index false == aligned &&
        type.nodes[index]?.any fun node =>
          leafWidth node == width && !isOneOf node.typeStr ["float", "double"]
  | .string => nodeKind type index == .string

namespace Layout

def index : Layout → ℕ
  | leaf index _ => index
  | group index _ => index

mutual
/-- The fields, in order. -/
def fields : Layout → List (ℕ × FieldShape)
  | leaf index shape => [(index, shape)]
  | group _ members => fieldsAll members

def fieldsAll : List Layout → List (ℕ × FieldShape)
  | [] => []
  | member :: members => fields member ++ fieldsAll members
end

mutual
/-- The parser reads the layout at its node. -/
def isOf (type : TypeTreeType) : Layout → Bool
  | leaf index shape => leafIsOf type index shape
  | group index members =>
      nodeKind type index == .struct && !aligns type index false &&
        directChildren type index == members.map Layout.index && allOf type members

def allOf (type : TypeTreeType) : List Layout → Bool
  | [] => true
  | member :: members => isOf type member && allOf type members
end

end Layout

/-- What a field says at a node. -/
def fieldLeaf (type : TypeTreeType) (index : ℕ) (f : PaddedField) : ValueNames × Content :=
  (namesAt type index,
    match f.field with
    | .integer width _ bits =>
        .integer (if type.nodes[index]?.any fun node => isSignedIntegerType node.typeStr
          then signExtend width bits else bits.toUInt64)
    | .string bytes => .string bytes)

/-- The fields of a layout, as bytes and as leaves. -/
structure Renders (type : TypeTreeType) (layout : List (ℕ × FieldShape)) (at_ : ℕ)
    (fields : List PaddedField) (text : Text) (found : List (ValueNames × Content)) : Prop where
  shapes : fields.map PaddedField.shape = layout.map Prod.snd
  valid : Consecutive PaddedField.encode (fun at_ f => f.Valid at_) at_ fields
  bytes : encodeFields fields = text
  leaves : List.zipWith (fieldLeaf type) (layout.map Prod.fst) fields = found

section Renders

variable {type : TypeTreeType} {layout more : List (ℕ × FieldShape)} {at_ pos index : ℕ}
  {fields others : List PaddedField} {text rest : Text} {found others' : List (ValueNames × Content)}

theorem Renders.length (h : Renders type layout at_ fields text found) :
    fields.length = layout.length := by
  have hlength := congrArg List.length h.shapes
  rwa [List.length_map, List.length_map] at hlength

theorem Renders.nil : Renders type [] at_ [] [] [] := ⟨rfl, trivial, rfl, rfl⟩

theorem Renders.append (h : Renders type layout at_ fields text found)
    (h' : Renders type more (at_ + text.length) others rest others') :
    Renders type (layout ++ more) at_ (fields ++ others) (text ++ rest) (found ++ others') := by
  refine ⟨?_, ?_, ?_, ?_⟩
  · rw [List.map_append, List.map_append, h.shapes, h'.shapes]
  · have hbytes : fields.flatMap PaddedField.encode = text := h.bytes
    rw [consecutive_append, hbytes]
    exact ⟨h.valid, h'.valid⟩
  · rw [encodeFields_append, h.bytes, h'.bytes]
  · rw [List.map_append, List.zipWith_append, h.leaves, h'.leaves]
    rw [List.length_map, h.length]

theorem renders_singleton {f : PaddedField} {shape : FieldShape} (hshape : f.shape = shape)
    (hvalid : f.Valid at_) :
    Renders type [(index, shape)] at_ [f] f.encode [fieldLeaf type index f] :=
  ⟨congrArg (fun s => [s]) hshape, ⟨hvalid, trivial⟩, List.append_nil _, rfl⟩

end Renders

/-! ## Leaves -/

/-- The datum of a field. -/
def PaddedField.datum (f : PaddedField) : Datum :=
  match f.field with
  | .integer width _ bits => .scalar width bits f.padding
  | .string bytes => .string bytes f.padding

section Leaf

variable {type : TypeTreeType} {index at_ pos : ℕ} {shape : FieldShape} {f : PaddedField}
  {datum : Datum}

/-- Both decoders count the alignment from offsets that differ by whole words. -/
theorem gapWidth_eq {width : ℕ} (hat : at_ % 4 = pos % 4) (aligned : Bool) :
    gapWidth aligned (pos + width) = if aligned then paddingWidth (at_ + width) else 0 := by
  have hmod : (pos + width) % 4 = (at_ + width) % 4 := by omega
  rw [gapWidth, paddingWidth, alignment, hmod]

theorem length_body_integer (width bits : ℕ) (aligned : Bool) :
    (Field.integer width aligned bits).body.length = width := length_encodeNat _ _ _

theorem length_body_string (bytes : Text) : (Field.string bytes).body.length = 4 + bytes.length := by
  rw [Field.body, List.length_append, length_encodeNat, lengthBytes]

theorem encode_datum (hvalid : f.field.Valid) : f.datum.encode false = f.encode := by
  obtain ⟨field, padding⟩ := f
  cases field with
  | integer width aligned bits => rfl
  | string bytes =>
      have hlength : bytes.length.toUInt32.toNat = bytes.length := by
        have hle : bytes.length ≤ int32Max := hvalid
        rw [UInt32.toNat_ofNat', Nat.mod_eq_of_lt]
        exact Nat.lt_of_le_of_lt hle (by decide)
      show storeLe32 bytes.length.toUInt32 ++ bytes ++ padding = _
      rw [storeLe32, hlength]
      rfl

theorem fits_datum (hleaf : leafIsOf type index shape = true) (hat : at_ % 4 = pos % 4)
    (hshape : f.shape = shape) (hvalid : f.Valid at_) : Fits type index false pos f.datum := by
  obtain ⟨field, padding⟩ := f
  have hpadding := hvalid.padding
  cases field with
  | integer width aligned bits =>
      obtain rfl : .integer width aligned = shape := hshape
      simp only [leafIsOf, Bool.and_eq_true, beq_iff_eq, Option.any_eq_true] at hleaf
      obtain ⟨⟨hkind, haligns⟩, node, hnode, rfl, -⟩ := hleaf
      refine .scalar hnode hkind hvalid.field ?_
      rw [haligns, gapWidth_eq hat]
      rw [length_body_integer] at hpadding
      exact hpadding
  | string bytes =>
      obtain rfl : FieldShape.string = shape := hshape
      have hkind : nodeKind type index = .string := beq_iff_eq.mp hleaf
      have hle : bytes.length ≤ int32Max := hvalid.field
      refine .string hkind (Nat.lt_of_le_of_lt hle (by decide)) ?_
      have haligns : aligns type index false = true := by
        simp [aligns, hkind]
      rw [length_body_string] at hpadding
      rw [haligns, Nat.add_assoc, gapWidth_eq hat]
      exact hpadding

/-- What the parser finds in a field is what the field says. -/
theorem leaves_datum (hleaf : leafIsOf type index shape = true) (hshape : f.shape = shape) :
    leaves (f.datum.value type 0 index) = [fieldLeaf type index f] := by
  obtain ⟨field, padding⟩ := f
  cases field with
  | integer width aligned bits =>
      obtain rfl : .integer width aligned = shape := hshape
      simp only [leafIsOf, Bool.and_eq_true, beq_iff_eq, Option.any_eq_true] at hleaf
      obtain ⟨-, node, hnode, rfl, hfloat⟩ := hleaf
      simp only [Bool.not_eq_true', isOneOf, List.any_cons, List.any_nil, Bool.or_false,
        Bool.or_eq_false_iff] at hfloat
      simp [PaddedField.datum, Datum.value, fieldLeaf, namesAt, hnode, scalarValue, hfloat.1,
        hfloat.2, leaves]
  | string bytes => rfl

/-- What fits a leaf of a sound size is a field. -/
theorem exists_field (hleaf : leafIsOf type index shape = true) (hat : at_ % 4 = pos % 4)
    (hfits : Fits type index false pos datum) (hsize : datum.size ≤ int32Max) :
    ∃ f : PaddedField, datum = f.datum ∧ f.shape = shape ∧ f.Valid at_ := by
  cases shape with
  | integer width aligned =>
      simp only [leafIsOf, Bool.and_eq_true, beq_iff_eq, Option.any_eq_true] at hleaf
      obtain ⟨⟨hkind, haligns⟩, node, hnode, rfl, -⟩ := hleaf
      obtain ⟨bits, gap, hbits, hgap, rfl⟩ := (fits_leaf_iff hnode hkind).mp hfits
      refine ⟨⟨.integer (leafWidth node) aligned bits, gap⟩, rfl, rfl, hbits, ?_⟩
      rw [haligns, gapWidth_eq hat] at hgap
      rw [length_body_integer]
      exact hgap
  | string =>
      have hkind : nodeKind type index = .string := beq_iff_eq.mp hleaf
      obtain ⟨bytes, gap, -, hgap, rfl⟩ := (fits_string_iff hkind).mp hfits
      have haligns : aligns type index false = true := by
        simp [aligns, hkind]
      rw [Datum.size] at hsize
      refine ⟨⟨.string bytes, gap⟩, rfl, rfl, (?_ : bytes.length ≤ int32Max), ?_⟩
      · omega
      · rw [haligns, Nat.add_assoc, gapWidth_eq hat] at hgap
        rw [length_body_string]
        exact hgap

end Leaf

/-! ## All fields -/

section Fields

variable {type : TypeTreeType}

mutual
/-- **What the parser reads is made of fields.** -/
theorem renders_of_fits : ∀ (layout : Layout) {at_ pos : ℕ} {datum : Datum},
    layout.isOf type = true → at_ % 4 = pos % 4 → Fits type layout.index false pos datum →
      datum.size ≤ int32Max →
      ∃ fields, Renders type layout.fields at_ fields (datum.encode false)
        (leaves (datum.value type 0 layout.index))
  | .leaf index shape, at_, pos, datum, hof, hat, hfits, hsize => by
      obtain ⟨f, rfl, hshape, hvalid⟩ := exists_field hof hat hfits hsize
      have hleaves : leaves (f.datum.value type 0 index) = _ := leaves_datum hof hshape
      refine ⟨[f], ?_⟩
      show Renders type [(index, shape)] at_ [f] _ (leaves (f.datum.value type 0 index))
      rw [encode_datum hvalid.field, hleaves]
      exact renders_singleton hshape hvalid
  | .group index members, at_, pos, datum, hof, hat, hfits, hsize => by
      simp only [Layout.isOf, Bool.and_eq_true, beq_iff_eq, Bool.not_eq_true'] at hof
      obtain ⟨⟨⟨hkind, haligns⟩, hchildren⟩, hmembers⟩ := hof
      obtain ⟨data, gap, hdata, hgap, rfl⟩ := (fits_struct_iff hkind).mp hfits
      rw [haligns] at hgap
      obtain rfl := List.length_eq_zero_iff.mp hgap
      rw [Datum.size] at hsize
      show ∃ fields, Renders type (Layout.fieldsAll members) at_ fields
        (Datum.encodeAll false data ++ [])
        (leavesAll (Datum.values type 0 data (directChildren type index)))
      rw [List.append_nil, hchildren]
      rw [hchildren] at hdata
      exact rendersAll_of_fits members hmembers hat hdata (by omega)

theorem rendersAll_of_fits : ∀ (members : List Layout) {at_ pos : ℕ} {data : List Datum},
    Layout.allOf type members = true → at_ % 4 = pos % 4 →
      FitsEach type false (members.map Layout.index) pos data → Datum.sizeAll data ≤ int32Max →
      ∃ fields, Renders type (Layout.fieldsAll members) at_ fields (Datum.encodeAll false data)
        (leavesAll (Datum.values type 0 data (members.map Layout.index)))
  | [], at_, pos, data, hof, hat, hfits, hsize => by
      cases hfits
      exact ⟨[], .nil⟩
  | member :: members, at_, pos, data, hof, hat, hfits, hsize => by
      rw [Layout.allOf, Bool.and_eq_true] at hof
      cases hfits with
      | @cons _ _ _ _ datum data hfirst hrest =>
          rw [Datum.sizeAll] at hsize
          obtain ⟨fields, hfields⟩ := renders_of_fits member hof.1 hat hfirst (by omega)
          have hnext : (at_ + (datum.encode false).length) % 4 = (pos + datum.size) % 4 := by
            rw [Datum.length_encode]
            omega
          obtain ⟨others, hothers⟩ := rendersAll_of_fits members hof.2 hnext hrest (by omega)
          exact ⟨fields ++ others, hfields.append hothers⟩
end

mutual
/-- **Fields of its shapes are a datum of the layout.** -/
theorem fits_of_fields : ∀ (layout : Layout) {at_ pos : ℕ} {fields : List PaddedField},
    layout.isOf type = true → at_ % 4 = pos % 4 →
      fields.map PaddedField.shape = layout.fields.map Prod.snd →
      Consecutive PaddedField.encode (fun at_ f => f.Valid at_) at_ fields →
      ∃ datum, Fits type layout.index false pos datum ∧
        Renders type layout.fields at_ fields (datum.encode false)
          (leaves (datum.value type 0 layout.index))
  | .leaf index shape, at_, pos, fields, hof, hat, hshapes, hvalid => by
      obtain ⟨f, rfl, hshape⟩ := List.map_eq_singleton_iff.mp hshapes
      have hleaves : leaves (f.datum.value type 0 index) = _ := leaves_datum hof hshape
      refine ⟨f.datum, fits_datum hof hat hshape hvalid.1, ?_⟩
      show Renders type [(index, shape)] at_ [f] _ (leaves (f.datum.value type 0 index))
      rw [encode_datum hvalid.1.field, hleaves]
      exact renders_singleton hshape hvalid.1
  | .group index members, at_, pos, fields, hof, hat, hshapes, hvalid => by
      simp only [Layout.isOf, Bool.and_eq_true, beq_iff_eq, Bool.not_eq_true'] at hof
      obtain ⟨⟨⟨hkind, haligns⟩, hchildren⟩, hmembers⟩ := hof
      obtain ⟨data, hdata, hfields⟩ := fitsEach_of_fields members hmembers hat hshapes hvalid
      rw [← hchildren] at hdata hfields
      refine ⟨.struct data [], .struct hkind hdata ?_, ?_⟩
      · show [].length = gapWidth (aligns type index false) _
        rw [haligns]
        rfl
      · show Renders type (Layout.fieldsAll members) at_ fields (Datum.encodeAll false data ++ [])
          (leavesAll (Datum.values type 0 data (directChildren type index)))
        rw [List.append_nil]
        exact hfields

theorem fitsEach_of_fields : ∀ (members : List Layout) {at_ pos : ℕ} {fields : List PaddedField},
    Layout.allOf type members = true → at_ % 4 = pos % 4 →
      fields.map PaddedField.shape = (Layout.fieldsAll members).map Prod.snd →
      Consecutive PaddedField.encode (fun at_ f => f.Valid at_) at_ fields →
      ∃ data, FitsEach type false (members.map Layout.index) pos data ∧
        Renders type (Layout.fieldsAll members) at_ fields (Datum.encodeAll false data)
          (leavesAll (Datum.values type 0 data (members.map Layout.index)))
  | [], at_, pos, fields, hof, hat, hshapes, hvalid => by
      obtain rfl := List.map_eq_nil_iff.mp hshapes
      exact ⟨[], .nil, .nil⟩
  | member :: members, at_, pos, fields, hof, hat, hshapes, hvalid => by
      rw [Layout.allOf, Bool.and_eq_true] at hof
      rw [Layout.fieldsAll, List.map_append] at hshapes
      obtain ⟨front, back, rfl, hfront, hback⟩ := List.map_eq_append_iff.mp hshapes
      obtain ⟨hvalid, hvalid'⟩ := consecutive_append.mp hvalid
      obtain ⟨datum, hfirst, hfields⟩ := fits_of_fields member hof.1 hat hfront hvalid
      have hbytes : front.flatMap PaddedField.encode = datum.encode false := hfields.bytes
      rw [hbytes] at hvalid'
      have hnext : (at_ + (datum.encode false).length) % 4 = (pos + datum.size) % 4 := by
        rw [Datum.length_encode]
        omega
      obtain ⟨data, hrest, hothers⟩ := fitsEach_of_fields members hof.2 hnext hback hvalid'
      exact ⟨datum :: data, .cons hfirst hrest, hfields.append hothers⟩
end

end Fields

/-! ## Profiles -/

/-- The root of a profile over its fields and its references. -/
def ObjectProfile.layout : ObjectProfile → Layout
  | .textAsset => .group 0 [.leaf 1 .string, .leaf 5 .string]
  | .monoBehaviour => .group 0 (behaviourMembers ++ [.leaf 12 (.integer 4 false)])
  | .monoBehaviourTextAsset => .group 0 (behaviourMembers ++ [reference 12])
where
  reference (index : ℕ) : Layout :=
    .group index [.leaf (index + 1) (.integer 4 false), .leaf (index + 2) (.integer 8 false)]
  behaviourMembers : List Layout :=
    [reference 1, .leaf 4 (.integer 1 true), reference 5, .leaf 8 .string]

theorem layout_shapes (profile : ObjectProfile) :
    profile.layout.fields.map Prod.snd = profile.shapes := by
  cases profile <;> decide

/-- A node of a profile as a node of a tree. -/
def NodeProfile.treeNode (node : NodeProfile) : TypeTreeNode where
  version := 1
  level := node.level
  typeFlags := node.flags
  typeStrOffset := 0
  nameStrOffset := 0
  byteSize := node.byteSize.toInt32
  index := 0
  metaFlags := node.metaFlags
  refTypeHash := 0
  typeStr := some (cstringAt node.typeName)
  nameStr := node.fieldName.map cstringAt

/-- The tree of a profile. -/
def ObjectProfile.treeType (profile : ObjectProfile) : TypeTreeType where
  typeId := 0
  isStripped := false
  scriptTypeIndex := 0
  scriptIdHash := .zero
  typeHash := .zero
  nodes := profile.nodes.map NodeProfile.treeNode
  stringBuffer := []
  dependencies := []
  isRefType := false
  refClassName := none
  refNamespace := none
  refAsmName := none

theorem layout_isOf (profile : ObjectProfile) : profile.layout.isOf profile.treeType = true := by
  cases profile <;> decide +kernel

theorem marked_treeType (profile : ObjectProfile) : Marked profile.treeType := by
  cases profile <;> decide +kernel

/-! ## The tree of a schema -/

section Schema

variable {mapped : Text} {schema : SerializedFileSchema} {profile : ObjectProfile}
  {base type other : TypeTreeType}

theorem schemaNode_getElem? (hlength : schema.nodes.length = schema.view.nodeCount) {i : ℕ}
    (hi : i < schema.view.nodeCount) : schema.nodes[i]? = some (schemaNode schema i) := by
  have hget := List.getElem?_eq_getElem (hlength.symm ▸ hi : i < schema.nodes.length)
  rw [schemaNode, SerializedFileSchema.node, if_pos hi, hget, Option.getD_some]

/-- A matching node is that of the profile, but for an authored name. -/
theorem sketch_of_matches {node : SchemaNode} {expected : NodeProfile}
    (h : NodeMatches node expected) : node.treeNode.sketch = expected.treeNode.sketch := by
  obtain ⟨⟨-, hlevel, -, hsize, -, hmeta, -⟩, htype, -⟩ := h
  simp only [TypeTreeNode.sketch, SchemaNode.treeNode, SchemaNode.wireNode, NodeProfile.treeNode,
    hlevel, hsize, hmeta, htype]

theorem alike_of_matches (hnodes : SchemaMatches schema profile)
    (hcount : schema.view.nodeCount = profile.nodeCount)
    (hlength : schema.nodes.length = schema.view.nodeCount)
    (hvalid : typetreeValidateSchema (schema.treeType mapped base) = true) :
    Alike (schema.treeType mapped base) profile.treeType := by
  refine ⟨List.ext_getElem? fun i => ?_, marked_of_valid hvalid, marked_treeType profile⟩
  simp only [SerializedFileSchema.treeType, ObjectProfile.treeType, List.getElem?_map,
    Option.map_map]
  by_cases hi : i < schema.view.nodeCount
  · have hprofile : i < profile.nodes.length := by rwa [nodes_length, ← hcount]
    have hget := List.getElem?_eq_getElem hprofile
    rw [schemaNode_getElem? hlength hi, hget, Option.map_some, Option.map_some]
    exact congrArg some (sketch_of_matches (hnodes i _ hget))
  · rw [List.getElem?_eq_none (by omega), List.getElem?_eq_none (by rw [nodes_length]; omega)]
    rfl

theorem leafIsOf_alike (h : Alike type other) (index : ℕ) (shape : FieldShape) :
    leafIsOf type index shape = leafIsOf other index shape := by
  cases shape with
  | integer width aligned =>
      have hany := h.any (fun sketch => sketch.byteSize.toInt.toNat == width &&
        !isOneOf sketch.typeStr ["float", "double"]) index
      simp only [TypeTreeNode.sketch] at hany
      simp only [leafIsOf, h.nodeKind_eq, h.aligns_eq, leafWidth, hany]
  | string => simp only [leafIsOf, h.nodeKind_eq]

mutual
theorem isOf_alike (h : Alike type other) :
    ∀ layout : Layout, layout.isOf type = layout.isOf other
  | .leaf index shape => leafIsOf_alike h index shape
  | .group index members => by
      rw [Layout.isOf, Layout.isOf, h.nodeKind_eq, h.aligns_eq, h.directChildren_eq,
        allOf_alike h members]

theorem allOf_alike (h : Alike type other) :
    ∀ members : List Layout, Layout.allOf type members = Layout.allOf other members
  | [] => rfl
  | member :: members => by
      rw [Layout.allOf, Layout.allOf, isOf_alike h member, allOf_alike h members]
end

end Schema

/-! ## One payload -/

section Payload

variable {type : TypeTreeType} {layout : Layout} {at_ : ℕ} {payload : Text}

theorem consumes_whole {s' : ByteStream} {bytes : Text} :
    ByteStream.Consumes ⟨payload, 0, false⟩ s' bytes ∧ s'.position = payload.length ↔
      bytes = payload ∧ s' = ⟨payload, payload.length, false⟩ := by
  constructor
  · rintro ⟨hconsumes, hend⟩
    obtain rfl : s' = ⟨payload, payload.length, false⟩ := by
      obtain ⟨data, position, big⟩ := s'
      have hdata : data = payload := hconsumes.data
      have hbig : big = false := hconsumes.bigEndian
      have hposition : position = payload.length := hend
      rw [hdata, hbig, hposition]
    have hunread := hconsumes.unread
    simp only [ByteStream.unread, List.drop_zero, List.drop_length, List.append_nil] at hunread
    exact ⟨hunread.symm, rfl⟩
  · rintro ⟨rfl, rfl⟩
    refine ⟨⟨rfl, rfl, (Nat.zero_add _).symm, ?_⟩, rfl⟩
    simp [ByteStream.unread]

/-- A parse that takes the whole payload. -/
def ParsesTo (type : TypeTreeType) (payload : Text) (value : TypeTreeValue) : Prop :=
  typetreeParseValue type 0 ⟨payload, 0, false⟩ =
    some (value, type.nodes.length, ⟨payload, payload.length, false⟩)

theorem parsesTo_iff (hvalid : typetreeValidateSchema type = true) {value : TypeTreeValue} :
    ParsesTo type payload value ↔
      ∃ datum : Datum, Fits type 0 false 0 datum ∧ datum.encode false = payload ∧
        datum.value type 0 0 = value := by
  have hroot := (levels_valid hvalid).subtreeEnd_root
  rw [show (levels type).length = type.nodes.length from List.length_map _] at hroot
  rw [ParsesTo, typetreeParseValue, if_neg (by rw [hvalid]; decide),
    parseInternal_spells hvalid (Nat.le_add_left _ _), and_iff_left hroot.symm]
  constructor
  · rintro ⟨datum, hfits, hconsumes, hvalue⟩
    exact ⟨datum, hfits, (consumes_whole.mp ⟨hconsumes, rfl⟩).1, hvalue⟩
  · rintro ⟨datum, hfits, rfl, hvalue⟩
    exact ⟨datum, hfits, (consumes_whole.mpr ⟨rfl, rfl⟩).1, hvalue⟩

/-- **The parser takes a payload where it is spelled by fields**, and finds what
these say. -/
theorem parses_iff_renders (hvalid : typetreeValidateSchema type = true)
    (hof : layout.isOf type = true) (hindex : layout.index = 0) (hat : at_ % 4 = 0)
    (hsize : payload.length ≤ int32Max) {found : List (ValueNames × Content)} :
    (∃ value, ParsesTo type payload value ∧ leaves value = found) ↔
      ∃ fields, Renders type layout.fields at_ fields payload found := by
  have hmod : at_ % 4 = 0 % 4 := hat
  simp only [parsesTo_iff hvalid]
  constructor
  · rintro ⟨_, ⟨datum, hfits, rfl, rfl⟩, rfl⟩
    rw [Datum.length_encode] at hsize
    obtain ⟨fields, hfields⟩ := renders_of_fits layout hof hmod (by rw [hindex]; exact hfits) hsize
    rw [hindex] at hfields
    exact ⟨fields, hfields⟩
  · rintro ⟨fields, hrenders⟩
    obtain ⟨datum, hfits, hdatum⟩ := fits_of_fields layout hof hmod hrenders.shapes hrenders.valid
    rw [hindex] at hfits hdatum
    exact ⟨_, ⟨datum, hfits, hdatum.bytes.symm.trans hrenders.bytes, rfl⟩,
      hdatum.leaves.symm.trans hrenders.leaves⟩

end Payload

/-! ## The values -/

/-- What a value says, read from the mapping. -/
def SerializedFileValue.leaf (mapped : Text) (value : SerializedFileValue) :
    Option (ValueNames × Content) :=
  let names := namesOf value.schemaNode.treeNode
  match value.kind with
  | .container => none
  | .byteString => value.bytesSource.map fun span => (names, .string (span.bytes mapped))
  | .signedInteger => value.integerSource.map fun span =>
      (names, .integer (signExtend span.size value.integerBits.toNat))
  | .unsignedInteger => some (names, .integer value.integerBits)

/-- The nodes of the fields, and what they are read as. -/
theorem node_of_leaf (profile : ObjectProfile) : ∀ ordinal < profile.valueCount,
    (profile.roleAt ordinal).kind ≠ .container →
      (profile.layout.fields.map Prod.fst)[profile.fieldsBefore ordinal]? =
          some (profile.roleAt ordinal).schemaOrdinal ∧
        (profile.roleAt ordinal).schemaOrdinal < profile.nodeCount ∧
        (profile.treeType.nodes[(profile.roleAt ordinal).schemaOrdinal]?.any fun node =>
            isSignedIntegerType node.typeStr) =
          decide ((profile.roleAt ordinal).kind = .signedInteger) := by
  cases profile <;> decide +kernel

theorem fieldsBefore_all (profile : ObjectProfile) :
    profile.fieldsBefore profile.valueCount = profile.layout.fields.length := by
  cases profile <;> decide

section Values

variable {mapped : Text} {schema : SerializedFileSchema} {profile : ObjectProfile}
  {base : TypeTreeType} {stop at_ : ℕ} {fields : List PaddedField}

/-- A leaf says what its field does. -/
theorem leaf_fill {f : PaddedField} {value : SerializedFileValue} {index : ℕ}
    (hshape : f.shape.Supported) (hvalid : f.Valid at_)
    (hspells : (payloadSource mapped stop).Spells at_ f.encode)
    (hstring : f.shape = .string ↔ value.kind = .byteString) (hkind : value.kind ≠ .container)
    (hnames : namesAt (schema.treeType mapped base) index = namesOf value.schemaNode.treeNode)
    (hsigned : ((schema.treeType mapped base).nodes[index]?.any fun node =>
      isSignedIntegerType node.typeStr) = decide (value.kind = .signedInteger)) :
    (f.fill schema at_ value).leaf mapped =
      some (fieldLeaf (schema.treeType mapped base) index f) := by
  have hbody := (MetadataSource.spells_append.mp hspells).1
  obtain ⟨field, padding⟩ := f
  cases field with
  | string bytes =>
      have hbytes : (PrefixSpan.mk (at_ + lengthBytes) bytes.length).bytes mapped = bytes := by
        have hspelled := (MetadataSource.spells_append.mp hbody).2
        rw [length_encodeNat] at hspelled
        exact hspelled.bytes rfl
      have hbyteString : ((⟨.string bytes, padding⟩ : PaddedField).fill schema at_ value).kind =
        .byteString := hstring.mp rfl
      unfold SerializedFileValue.leaf
      rw [hbyteString]
      show some (namesOf value.schemaNode.treeNode, Content.string
        ((PrefixSpan.mk (at_ + lengthBytes) bytes.length).bytes mapped)) = _
      rw [hbytes, ← hnames]
      rfl
  | integer width aligned bits =>
      have hwidth : width = 1 ∨ width = 4 ∨ width = 8 := hshape
      have hbits : bits.toUInt64.toNat = bits := by
        have hlt : bits < 256 ^ width := hvalid.field
        rw [UInt64.toNat_ofNat', Nat.mod_eq_of_lt]
        refine Nat.lt_of_lt_of_le hlt (Nat.pow_le_pow_right (by decide) (?_ : width ≤ 8))
        omega
      have hne : value.kind ≠ .byteString := fun h => by cases hstring.mpr h
      have hsame : ((⟨.integer width aligned bits, padding⟩ : PaddedField).fill schema at_
        value).kind = value.kind := rfl
      unfold SerializedFileValue.leaf
      rw [hsame, fieldLeaf, hsigned, hnames]
      cases hk : value.kind with
      | container => exact absurd hk hkind
      | byteString => exact absurd hk hne
      | signedInteger =>
          show some (_, Content.integer (signExtend width bits.toUInt64.toNat)) = _
          rw [hbits]
          rfl
      | unsignedInteger => rfl

/-- The leaves from an ordinal on. -/
theorem leaves_from (halike : Alike (schema.treeType mapped base) profile.treeType)
    (hcount : schema.view.nodeCount = profile.nodeCount)
    (hlength : schema.nodes.length = schema.view.nodeCount)
    (hspelling : Spelling profile at_ fields)
    (hspells : (payloadSource mapped stop).Spells at_ (encodeFields fields)) (count start : ℕ)
    (hstop : start + count = profile.valueCount) :
    ((List.range' start count).map (valueAt schema profile at_ fields)).filterMap (·.leaf mapped) =
      (List.zipWith (fieldLeaf (schema.treeType mapped base)) (profile.layout.fields.map Prod.fst)
        fields).drop (profile.fieldsBefore start) := by
  have hfields : fields.length = profile.layout.fields.length := by
    have hshapes := congrArg List.length (hspelling.shapes.trans (layout_shapes profile).symm)
    rwa [List.length_map, List.length_map] at hshapes
  induction count generalizing start with
  | zero =>
      rw [Nat.add_zero] at hstop
      rw [hstop, fieldsBefore_all, List.drop_eq_nil_of_le]
      · rfl
      · rw [List.length_zipWith, List.length_map, hfields, Nat.min_self]
  | succ count ih =>
      have hlt : start < profile.valueCount := by omega
      have hnext := fieldsBefore_succ profile start hlt
      have htail := ih (start + 1) (by omega)
      rw [List.range'_succ, List.map_cons, List.filterMap_cons, htail, hnext]
      by_cases hkind : (profile.roleAt start).kind = .container
      · have hleaf : (valueAt schema profile at_ fields start).leaf mapped = none := by
          have hvalue := valueAt_kind schema profile at_ fields start
          rw [hkind] at hvalue
          unfold SerializedFileValue.leaf
          rw [hvalue]
        rw [hleaf, if_pos hkind, Nat.add_zero]
      · have hshape := shape_of_leaf profile start hlt hkind
        rw [← hspelling.shapes, List.getElem?_map, Option.map_map, Option.map_eq_some_iff] at hshape
        obtain ⟨f, hf, hstring⟩ := hshape
        obtain ⟨hvalid, hspelled, -⟩ := field_at hspelling.valid hspells hf
        obtain ⟨hindex, hbound, hsigned⟩ := node_of_leaf profile start hlt hkind
        have hsupported : f.shape.Supported := by
          refine supported_of_mem_shapes profile _ ?_
          rw [← hspelling.shapes]
          exact List.mem_map_of_mem (List.mem_of_getElem? hf)
        have hnames : namesAt (schema.treeType mapped base) (profile.roleAt start).schemaOrdinal =
            namesOf (initialValue schema profile start).schemaNode.treeNode := by
          rw [namesAt, SerializedFileSchema.treeType, List.getElem?_map,
            schemaNode_getElem? hlength (hcount ▸ hbound)]
          rfl
        have hsame := halike.any (fun sketch => isSignedIntegerType sketch.typeStr)
          (profile.roleAt start).schemaOrdinal
        have hleaf : (valueAt schema profile at_ fields start).leaf mapped =
            some (fieldLeaf (schema.treeType mapped base) (profile.roleAt start).schemaOrdinal f) := by
          rw [valueAt_leaf _ hkind rfl hf]
          have hkinds : f.shape = .string ↔ (profile.roleAt start).kind = .byteString := by
            simpa using hstring
          exact leaf_fill hsupported hvalid hspelled hkinds hkind hnames (hsame.trans hsigned)
        have hget : (List.zipWith (fieldLeaf (schema.treeType mapped base))
            (profile.layout.fields.map Prod.fst) fields)[profile.fieldsBefore start]? =
              some (fieldLeaf (schema.treeType mapped base)
                (profile.roleAt start).schemaOrdinal f) := by
          rw [List.getElem?_zipWith, hindex, hf]
        obtain ⟨hin, hget⟩ := List.getElem?_eq_some_iff.mp hget
        rw [hleaf, if_neg hkind, List.drop_eq_getElem_cons hin, hget]

end Values

/-! ## The two decoders -/

/-- The object is one of the profile, whatever its payload: it lies in the mapping,
and its type is the one that the schema was compiled from. -/
structure QualifiesAs (object : DirectoryObjectRow) (profile : ObjectProfile) (mapped : Text)
    (directory : SerializedFileDirectory) (schema : SerializedFileSchema) (objectOrdinal : ℕ)
    (allowOrdinary : Bool) : Prop where
  engine : directory.view.engineVersion = .engine2021_3_35f1
  endian : directory.view.prefixView.header.endianSelector = 0
  found : directoryObject directory objectOrdinal = some object
  type : ∃ row ∈ directory.type object.typeOrdinal.toNat,
    sameOriginalType directory.view row schema.view
  fileSize : mapped.length ≤ directory.view.prefixView.header.fileSize
  objectSize : object.payload.size ≤ int32Max
  payload : object.payload.offset + object.payload.size ≤ mapped.length
  entry : schema.view.typeEntrySource.offset + schema.view.typeEntrySource.size ≤ sizeMax
  selected : selectProfile schema.view allowOrdinary = some profile
  nodeCount : schema.view.nodeCount = profile.nodeCount
  nodes : SchemaMatches schema profile
  aligned : object.payload.offset % alignment = 0

theorem QualifiesAs.describes {object : DirectoryObjectRow} {profile : ObjectProfile}
    {mapped : Text} {directory : SerializedFileDirectory} {schema : SerializedFileSchema}
    {objectOrdinal : ℕ} {allowOrdinary : Bool} {fields : List PaddedField}
    (h : QualifiesAs object profile mapped directory schema objectOrdinal allowOrdinary)
    (hspelling : Spelling profile object.payload.offset fields)
    (hbytes : (PrefixSpan.mk object.payload.offset object.payload.size).bytes mapped =
      encodeFields fields) :
    (ValuesPlan.mk object profile fields).Describes mapped directory schema objectOrdinal
      allowOrdinary :=
  ⟨h.engine, h.endian, h.found, h.type, h.fileSize, h.objectSize, h.payload, h.entry, h.selected,
    h.nodeCount, h.nodes, h.aligned, hspelling, hbytes⟩

theorem length_bytes_le (mapped : Text) (offset size : ℕ) :
    ((PrefixSpan.mk offset size).bytes mapped).length ≤ size := List.length_take_le _ _

section Agreement

variable {mapped : Text} {limits : ValuesLimits} {directory : SerializedFileDirectory}
  {schema : SerializedFileSchema} {objectOrdinal : ℕ} {allowOrdinary : Bool} {answers : ℕ → Bool}
  {n : ℕ} {plan : ValuesPlan} {base : TypeTreeType}

/-- A plan that the limits cover is carried out. -/
theorem create_of_plan (hplan : plan.Describes mapped directory schema objectOrdinal allowOrdinary)
    (hroom : ∀ k, ¬ plan.Short limits (answers n) k) :
    serializedFileValuesCreate mapped limits directory schema objectOrdinal allowOrdinary answers
      none n = .ok (plan.result schema objectOrdinal) (some (plan.owner schema)) (n + 1) := by
  refine Call.bind_eq_ok.mpr ⟨none, none, n, rfl, Call.require_bind_eq_ok.mpr ⟨rfl, ?_⟩⟩
  refine Call.bind_eq_ok.mpr ⟨(_, plan.decoded schema objectOrdinal), none, n + 1,
    Call.enclosed_eq_ok.mpr ⟨hplan.needs_createValues.ok hroom, rfl⟩, rfl⟩

theorem payload_spells
    (hplan : plan.Describes mapped directory schema objectOrdinal allowOrdinary) :
    (payloadSource mapped (plan.object.payload.offset + plan.object.payload.size)).Spells
      plan.object.payload.offset (encodeFields plan.fields) := by
  rw [← hplan.bytes]
  exact (MetadataSource.spells_bytes (holds_of_le hplan.payload le_rfl)).2

/-- The leaves of a plan are those of its fields, at their nodes. -/
theorem owner_leaves (hlength : schema.nodes.length = schema.view.nodeCount)
    (hvalid : typetreeValidateSchema (schema.treeType mapped base) = true)
    (hplan : plan.Describes mapped directory schema objectOrdinal allowOrdinary) :
    (plan.owner schema).values.filterMap (·.leaf mapped) =
      List.zipWith (fieldLeaf (schema.treeType mapped base))
        (plan.profile.layout.fields.map Prod.fst) plan.fields := by
  have halike := alike_of_matches hplan.nodes hplan.nodeCount hlength hvalid
  have hfrom := leaves_from halike hplan.nodeCount hlength hplan.spelling (payload_spells hplan)
    plan.profile.valueCount 0 (Nat.zero_add _)
  rw [show plan.profile.fieldsBefore 0 = 0 from rfl, List.drop_zero,
    ← List.range_eq_range'] at hfrom
  exact hfrom

/-- **The two decoders of an object agree.** Where values are created, the tree of
the type parses the whole payload to a value with the same leaves, under the same
names and in the same order. Where it parses the whole payload of an object of a
profile, the object is made of fields, and if the limits cover these its values
are created, with the leaves that were parsed. -/
theorem decoders_agree (mapped : Text) (limits : ValuesLimits) (directory : SerializedFileDirectory)
    (schema : SerializedFileSchema) (objectOrdinal : ℕ) (allowOrdinary : Bool) (answers : ℕ → Bool)
    (n : ℕ) (base : TypeTreeType)
    (hschema : ∃ parent ordinal schemaLimits granted ran made,
      serializedFileSchemaCreate mapped parent ordinal schemaLimits granted () 0 =
        .ok (schema, ran) () made)
    (hvalid : typetreeValidateSchema (schema.treeType mapped base) = true) :
    (∀ result values m, serializedFileValuesCreate mapped limits directory schema objectOrdinal
        allowOrdinary answers none n = .ok result (some values) m →
      ∃ value, ParsesTo (schema.treeType mapped base)
          ((PrefixSpan.mk values.view.object.payload.offset
            values.view.object.payload.size).bytes mapped) value ∧
        leaves value = values.values.filterMap (·.leaf mapped)) ∧
    ∀ object profile value,
      QualifiesAs object profile mapped directory schema objectOrdinal allowOrdinary →
      ParsesTo (schema.treeType mapped base)
        ((PrefixSpan.mk object.payload.offset object.payload.size).bytes mapped) value →
      ∃ fields, (ValuesPlan.mk object profile fields).Describes mapped directory schema
          objectOrdinal allowOrdinary ∧
        ((∀ k, ¬ (ValuesPlan.mk object profile fields).Short limits (answers n) k) →
          ∃ result values m, serializedFileValuesCreate mapped limits directory schema objectOrdinal
              allowOrdinary answers none n = .ok result (some values) m ∧
            leaves value = values.values.filterMap (·.leaf mapped)) := by
  obtain ⟨parent, ordinal, schemaLimits, granted, ran, made, hcreate⟩ := hschema
  obtain ⟨view, retainedBytes, _, -, -, -, rfl, -⟩ := schemaCreate_ok hcreate
  have hlength : (view.schema mapped retainedBytes).nodes.length =
      (view.schema mapped retainedBytes).view.nodeCount := length_schema_nodes retainedBytes
  generalize view.schema mapped retainedBytes = schema at hvalid hlength ⊢
  have hof : ∀ {profile : ObjectProfile}, SchemaMatches schema profile →
      schema.view.nodeCount = profile.nodeCount →
      profile.layout.isOf (schema.treeType mapped base) = true := by
    intro profile hnodes hcount
    rw [isOf_alike (alike_of_matches hnodes hcount hlength hvalid)]
    exact layout_isOf profile
  have hroot : ∀ profile : ObjectProfile, profile.layout.index = 0 := by
    intro profile
    cases profile <;> rfl
  refine ⟨fun result values m h => ?_, fun object profile value hobject hparse => ?_⟩
  · obtain ⟨plan, hplan, -, -, rfl, -⟩ := plan_of_create h
    refine (parses_iff_renders hvalid (hof hplan.nodes hplan.nodeCount) (hroot _) hplan.aligned
      ((length_bytes_le _ _ _).trans hplan.objectSize)).mpr ⟨plan.fields, ?_, hplan.spelling.valid,
        hplan.bytes.symm, ?_⟩
    · exact hplan.spelling.shapes.trans (layout_shapes plan.profile).symm
    · exact (owner_leaves hlength hvalid hplan).symm
  · obtain ⟨fields, hrenders⟩ := (parses_iff_renders hvalid (hof hobject.nodes hobject.nodeCount)
      (hroot _) hobject.aligned ((length_bytes_le _ _ _).trans hobject.objectSize)).mp
        ⟨value, hparse, rfl⟩
    have hplan := hobject.describes ⟨hrenders.shapes.trans (layout_shapes profile), hrenders.valid⟩
      hrenders.bytes.symm
    refine ⟨fields, hplan, fun hroom => ⟨_, _, _, create_of_plan hplan hroom, ?_⟩⟩
    exact hrenders.leaves.symm.trans (owner_leaves hlength hvalid hplan).symm

end Agreement

/-! ## The text asset -/

/-- The payload and the leaves of the asset, where its tree is valid. -/
def textAssetLeaves : Option (Text × List (ValueNames × Content)) :=
  textAssetDirectory.bind fun directory => (textAssetSchema directory).bind fun schema =>
    match serializedFileValuesCreate textAssetFile textAssetLimits directory schema 0 false
      Call.granted none 0 with
    | .ok _ (some values) _ =>
        if typetreeValidateSchema (schema.treeType textAssetFile sampleUnloaded) then
          some ((PrefixSpan.mk values.view.object.payload.offset
              values.view.object.payload.size).bytes textAssetFile,
            values.values.filterMap (·.leaf textAssetFile))
        else none
    | _ => none

def textAssetContents : List (ValueNames × Content) :=
  [(⟨some (cstr "m_Name"), some (cstr "string")⟩, .string (ascii "ab")),
    (⟨some (cstr "m_Script"), some (cstr "string")⟩, .string (ascii "hey"))]

def textAssetPayload : Text :=
  storeLe32 2 ++ ascii "ab" ++ [0, 0] ++ storeLe32 3 ++ ascii "hey" ++ [0]

theorem decoders_agree_textAsset :
    ∃ directory schema value, textAssetDirectory = some directory ∧
      textAssetSchema directory = some schema ∧
      ParsesTo (schema.treeType textAssetFile sampleUnloaded) textAssetPayload value ∧
      leaves value = textAssetContents := by
  have hleaves : textAssetLeaves = some (textAssetPayload, textAssetContents) := by decide +kernel
  obtain ⟨directory, hdirectory, hleaves⟩ := Option.bind_eq_some_iff.mp hleaves
  obtain ⟨schema, hschema, hleaves⟩ := Option.bind_eq_some_iff.mp hleaves
  have hcreated : ∃ parent ordinal schemaLimits granted ran made,
      serializedFileSchemaCreate textAssetFile parent ordinal schemaLimits granted () 0 =
        .ok (schema, ran) () made := by
    unfold textAssetSchema at hschema
    split at hschema
    case h_1 compiled ran u made hcreate =>
      cases hschema
      exact ⟨_, _, _, _, ran, made, hcreate⟩
    case h_2 => cases hschema
  cases hrun : serializedFileValuesCreate textAssetFile textAssetLimits directory schema 0 false
      Call.granted none 0 with
  | error e out m =>
      rw [hrun] at hleaves
      cases hleaves
  | ok result out m =>
      rw [hrun] at hleaves
      cases out with
      | none => cases hleaves
      | some values =>
          obtain ⟨hvalid, hleaves⟩ := Option.ite_none_right_eq_some.mp hleaves
          obtain ⟨value, hparse, hvalue⟩ := (decoders_agree textAssetFile textAssetLimits directory
            schema 0 false Call.granted 0 sampleUnloaded hcreated hvalid).1 result values m hrun
          obtain ⟨hpayload, hcontents⟩ := Prod.mk.inj (Option.some.inj hleaves)
          exact ⟨directory, schema, value, hdirectory, hschema, hpayload ▸ hparse,
            hvalue.trans hcontents⟩

end UnityCommon.Values
