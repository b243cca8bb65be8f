import UnityCommon.Lib.PrefixFree
import UnityCommon.Registry.Profile
import UnityCommon.TypeTree.Strings

/-!
# The semantic shape of a schema

What the shape digest is a digest of. A shape has the resolved names of its
nodes and no string offsets; its encoding can be cut again at every field, so
that two accepted schemas feed the same bytes only when they have one shape.
-/

namespace UnityCommon.Registry

open UnityCommon.TypeTree

/-! ## Shapes -/

structure NodeShape where
  version : UInt16
  level : UInt8
  typeFlags : UInt8
  byteSize : Int32
  index : UInt32
  metaFlags : UInt32
  refTypeHash : UInt64
  typeStr : Option CString
  nameStr : Option CString
deriving DecidableEq, Repr

structure ReferenceNames where
  className : Option CString
  nameSpace : Option CString
  asmName : Option CString
deriving DecidableEq, Repr

structure SchemaShape where
  typeId : Int32
  isStripped : Bool
  scriptTypeIndex : UInt16
  scriptIdHash : Bytes16
  typeHash : Bytes16
  nodes : List NodeShape
  dependencies : List Int32
  /-- The names of a reference type. -/
  reference : Option ReferenceNames
deriving DecidableEq, Repr

def nodeShape (node : TypeTreeNode) : NodeShape where
  version := node.version
  level := node.level
  typeFlags := node.typeFlags
  byteSize := node.byteSize
  index := node.index
  metaFlags := node.metaFlags
  refTypeHash := node.refTypeHash
  typeStr := node.typeStr
  nameStr := node.nameStr

def schemaShape (schema : TypeTreeType) : SchemaShape where
  typeId := schema.typeId
  isStripped := schema.isStripped
  scriptTypeIndex := schema.scriptTypeIndex
  scriptIdHash := schema.scriptIdHash
  typeHash := schema.typeHash
  nodes := schema.nodes.map nodeShape
  dependencies := schema.dependencies
  reference := if schema.isRefType then
      some ⟨schema.refClassName, schema.refNamespace, schema.refAsmName⟩
    else none

/-! ## Their encoding -/

def nameBytes : Option CString → Text
  | none => []
  | some name => storeLe32 name.bytes.length.toUInt32 ++ name.bytes

def nodeBytes (node : NodeShape) : Text :=
  storeLe16 node.version ++ [node.level, node.typeFlags] ++ storeLe32 node.byteSize.toUInt32 ++
    storeLe32 node.index ++ storeLe32 node.metaFlags ++ storeLe64 node.refTypeHash ++
    nameBytes node.typeStr ++ nameBytes node.nameStr

def referenceBytes : Option ReferenceNames → Text
  | none => [flagByte false]
  | some names => [flagByte true] ++ (nameBytes names.className ++ nameBytes names.nameSpace ++
      nameBytes names.asmName)

def shapeBytes (shape : SchemaShape) : Text :=
  storeLe32 shape.typeId.toUInt32 ++ [flagByte shape.isStripped] ++
    storeLe16 shape.scriptTypeIndex ++ shape.scriptIdHash.bytes ++ shape.typeHash.bytes ++
    storeLe32 shape.nodes.length.toUInt32 ++ shape.nodes.flatMap nodeBytes ++
    storeLe32 shape.dependencies.length.toUInt32 ++
    shape.dependencies.flatMap (fun d => storeLe32 d.toUInt32) ++ referenceBytes shape.reference

/-- A name that is there and whose length fits its word. -/
def Named (name : Option CString) : Prop :=
  ∃ s, name = some s ∧ s.bytes.length ≤ 0xffffffff

def NodeShape.Named (node : NodeShape) : Prop :=
  Registry.Named node.typeStr ∧ Registry.Named node.nameStr

def ReferenceNames.Named (names : ReferenceNames) : Prop :=
  Registry.Named names.className ∧ Registry.Named names.nameSpace ∧ Registry.Named names.asmName

/-- What the digest accepts. -/
structure SchemaShape.Accepted (shape : SchemaShape) : Prop where
  nodes_ne : shape.nodes ≠ []
  nodes : ∀ node ∈ shape.nodes, node.Named
  reference : ∀ names ∈ shape.reference, names.Named

/-- The domain tag includes its NUL. -/
def shapeDomain : Text := ascii "DXBCSandbox.TypeTreeSemanticShape.v1" ++ [0]

/-! ## What is fed is the encoding -/

theorem hashString_eq_some {name : Option CString} {bytes : Text} :
    hashString name = some bytes ↔ Named name ∧ bytes = nameBytes name := by
  cases name with
  | none =>
      constructor
      · nofun
      · rintro ⟨⟨s, h, -⟩, -⟩
        cases h
  | some s =>
      rw [hashString, Named]
      by_cases hlong : 0xffffffff < s.bytes.length
      · rw [if_pos hlong]
        constructor
        · nofun
        · rintro ⟨⟨t, h, hle⟩, -⟩
          cases h
          omega
      · rw [if_neg hlong]
        constructor
        · intro h
          exact ⟨⟨s, rfl, Nat.not_lt.mp hlong⟩, (Option.some.inj h).symm⟩
        · rintro ⟨-, rfl⟩
          rfl

theorem hashNode_eq_some {node : TypeTreeNode} {bytes : Text} :
    hashNode node = some bytes ↔ (nodeShape node).Named ∧ bytes = nodeBytes (nodeShape node) := by
  constructor
  · intro h
    obtain ⟨typeStr, htype, h⟩ := Option.bind_eq_some_iff.mp h
    obtain ⟨nameStr, hname, h⟩ := Option.bind_eq_some_iff.mp h
    obtain ⟨htyped, rfl⟩ := hashString_eq_some.mp htype
    obtain ⟨hnamed, rfl⟩ := hashString_eq_some.mp hname
    exact ⟨⟨htyped, hnamed⟩, (Option.some.inj h).symm⟩
  · rintro ⟨⟨htype, hname⟩, rfl⟩
    refine Option.bind_eq_some_iff.mpr ⟨_, hashString_eq_some.mpr ⟨htype, rfl⟩, ?_⟩
    exact Option.bind_eq_some_iff.mpr ⟨_, hashString_eq_some.mpr ⟨hname, rfl⟩, rfl⟩

theorem hashNodes_eq_some {nodes : List TypeTreeNode} {bytes : List Text} :
    nodes.mapM hashNode = some bytes ↔
      (∀ node ∈ nodes.map nodeShape, node.Named) ∧ bytes = (nodes.map nodeShape).map nodeBytes := by
  induction nodes generalizing bytes with
  | nil =>
      rw [List.mapM_nil, List.map_nil, List.map_nil]
      constructor
      · intro h
        exact ⟨nofun, (Option.some.inj h).symm⟩
      · rintro ⟨-, rfl⟩
        rfl
  | cons node nodes ih =>
      rw [List.mapM_cons, List.map_cons, List.map_cons, List.forall_mem_cons]
      constructor
      · intro h
        obtain ⟨first, hfirst, h⟩ := Option.bind_eq_some_iff.mp h
        obtain ⟨rest, hrest, h⟩ := Option.bind_eq_some_iff.mp h
        obtain ⟨hnode, rfl⟩ := hashNode_eq_some.mp hfirst
        obtain ⟨hnodes, rfl⟩ := ih.mp hrest
        exact ⟨⟨hnode, hnodes⟩, (Option.some.inj h).symm⟩
      · rintro ⟨⟨hnode, hnodes⟩, rfl⟩
        refine Option.bind_eq_some_iff.mpr ⟨_, hashNode_eq_some.mpr ⟨hnode, rfl⟩, ?_⟩
        exact Option.bind_eq_some_iff.mpr ⟨_, ih.mpr ⟨hnodes, rfl⟩, rfl⟩

theorem hashReferenceNames_eq_some {schema : TypeTreeType} {bytes : Text} :
    hashReferenceNames schema = some bytes ↔
      (∀ names ∈ (schemaShape schema).reference, names.Named) ∧
        [flagByte schema.isRefType] ++ bytes = referenceBytes (schemaShape schema).reference := by
  have href : (schemaShape schema).reference = if schema.isRefType then
      some ⟨schema.refClassName, schema.refNamespace, schema.refAsmName⟩ else none := rfl
  rw [href, hashReferenceNames]
  cases schema.isRefType with
  | false =>
      rw [if_neg (by decide), if_neg (by decide)]
      constructor
      · intro h
        cases h
        exact ⟨nofun, rfl⟩
      · rintro ⟨-, h⟩
        rw [referenceBytes, List.singleton_append, List.cons.injEq] at h
        rw [h.2]
  | true =>
      rw [if_pos rfl, if_pos rfl]
      constructor
      · intro h
        obtain ⟨className, hclass, h⟩ := Option.bind_eq_some_iff.mp h
        obtain ⟨nameSpace, hspace, h⟩ := Option.bind_eq_some_iff.mp h
        obtain ⟨asmName, hasm, h⟩ := Option.bind_eq_some_iff.mp h
        obtain ⟨hclass', rfl⟩ := hashString_eq_some.mp hclass
        obtain ⟨hspace', rfl⟩ := hashString_eq_some.mp hspace
        obtain ⟨hasm', rfl⟩ := hashString_eq_some.mp hasm
        refine ⟨?_, ?_⟩
        · rintro names hnames
          cases hnames
          exact ⟨hclass', hspace', hasm'⟩
        · rw [← Option.some.inj h]
          rfl
      · rintro ⟨hnames, h⟩
        -- the names of a reference type are fed one after another
        obtain ⟨hclass, hspace, hasm⟩ := hnames _ rfl
        have hbytes := List.append_cancel_left h
        refine Option.bind_eq_some_iff.mpr ⟨_, hashString_eq_some.mpr ⟨hclass, rfl⟩, ?_⟩
        refine Option.bind_eq_some_iff.mpr ⟨_, hashString_eq_some.mpr ⟨hspace, rfl⟩, ?_⟩
        refine Option.bind_eq_some_iff.mpr ⟨_, hashString_eq_some.mpr ⟨hasm, rfl⟩, ?_⟩
        rw [hbytes]
        rfl

/-- **The message is the encoding of the shape**, behind the tag. -/
theorem shapeMessage_eq_some {schema : TypeTreeType} {message : Text} :
    shapeMessage schema = some message ↔
      (schemaShape schema).Accepted ∧ message = shapeDomain ++ shapeBytes (schemaShape schema) := by
  have hnodes : schema.nodes = [] ↔ (schemaShape schema).nodes = [] := List.map_eq_nil_iff.symm
  have hcount : (schemaShape schema).nodes.length = schema.nodes.length := List.length_map _
  have hflat : ((schemaShape schema).nodes.map nodeBytes).flatten =
      (schemaShape schema).nodes.flatMap nodeBytes := rfl
  unfold shapeMessage
  by_cases hempty : schema.nodes = []
  · rw [if_pos hempty]
    constructor
    · nofun
    · rintro ⟨haccepted, -⟩
      exact absurd (hnodes.mp hempty) haccepted.nodes_ne
  rw [if_neg hempty]
  constructor
  · intro h
    obtain ⟨nodes, hmap, h⟩ := Option.bind_eq_some_iff.mp h
    obtain ⟨names, hnames, h⟩ := Option.bind_eq_some_iff.mp h
    obtain ⟨hnamed, rfl⟩ := hashNodes_eq_some.mp hmap
    obtain ⟨href, hbytes⟩ := hashReferenceNames_eq_some.mp hnames
    refine ⟨⟨mt hnodes.mpr hempty, hnamed, href⟩, ?_⟩
    rw [← Option.some.inj h, shapeBytes, ← hbytes, hcount, ← hflat]
    simp only [shapeDomain, List.append_assoc]
    rfl
  · rintro ⟨⟨-, hnamed, href⟩, rfl⟩
    have hmap : schema.nodes.mapM hashNode = some ((schemaShape schema).nodes.map nodeBytes) :=
      hashNodes_eq_some.mpr ⟨hnamed, rfl⟩
    obtain ⟨names, hbytes⟩ : ∃ names, [flagByte schema.isRefType] ++ names =
        referenceBytes (schemaShape schema).reference := by
      have href : (schemaShape schema).reference = if schema.isRefType then
          some ⟨schema.refClassName, schema.refNamespace, schema.refAsmName⟩ else none := rfl
      rw [href]
      cases schema.isRefType
      · exact ⟨[], rfl⟩
      · exact ⟨_, rfl⟩
    refine Option.bind_eq_some_iff.mpr ⟨_, hmap, ?_⟩
    refine Option.bind_eq_some_iff.mpr ⟨names, hashReferenceNames_eq_some.mpr ⟨href, hbytes⟩, ?_⟩
    rw [shapeBytes, ← hbytes, hcount, ← hflat]
    simp only [shapeDomain, List.append_assoc]
    rfl

/-! ## The encoding ends where it says -/

theorem prefixFree_u16 : PrefixFree (fun _ => True) storeLe16 :=
  .of_length 2 (fun value _ => length_storeLe16 value) fun a b _ _ h => by
    rw [← loadLe16_store a, h, loadLe16_store]

theorem prefixFree_u32 : PrefixFree (fun _ => True) storeLe32 :=
  .of_length 4 (fun value _ => length_storeLe32 value) fun a b _ _ h => by
    rw [← loadLe32_store a, h, loadLe32_store]

theorem prefixFree_u64 : PrefixFree (fun _ => True) storeLe64 :=
  .of_length 8 (fun value _ => length_storeLe64 value) fun a b _ _ h => by
    rw [← loadLe64_store a, h, loadLe64_store]

theorem prefixFree_i32 : PrefixFree (fun _ => True) fun value : Int32 => storeLe32 value.toUInt32 :=
  prefixFree_u32.comap Int32.toUInt32 fun a b h => by
    cases a
    cases b
    cases h
    rfl

/-- A count that fits its word. -/
theorem prefixFree_count :
    PrefixFree (fun count => count < 2 ^ 32) fun count : ℕ => storeLe32 count.toUInt32 := by
  intro a b r s ha hb heq
  obtain ⟨hword, hrest⟩ := prefixFree_u32 _ _ r s trivial trivial heq
  have hnat := congrArg UInt32.toNat hword
  have hnat' : a % 2 ^ 32 = b % 2 ^ 32 := hnat
  rw [Nat.mod_eq_of_lt ha, Nat.mod_eq_of_lt hb] at hnat'
  exact ⟨hnat', hrest⟩

theorem prefixFree_flag : PrefixFree (fun _ => True) fun flag => [flagByte flag] :=
  .of_length 1 (fun _ _ => rfl) fun a b _ _ h => by
    cases a <;> cases b <;> first | rfl | cases h

theorem prefixFree_bytes16 : PrefixFree (fun _ => True) Bytes16.bytes :=
  .of_length 16 (fun value _ => value.length_eq) fun _ _ _ _ h => Bytes16.ext_bytes h

theorem prefixFree_name : PrefixFree Named nameBytes := by
  rintro _ _ r s ⟨a, rfl, ha⟩ ⟨b, rfl, hb⟩ heq
  obtain ⟨hbytes, hrest⟩ := prefixFree_count.sized a.bytes b.bytes r s (by omega) (by omega) heq
  exact ⟨by rw [CString.ext_bytes hbytes], hrest⟩

theorem prefixFree_node : PrefixFree NodeShape.Named nodeBytes := by
  rintro a b r s ⟨hatype, haname⟩ ⟨hbtype, hbname⟩ heq
  simp only [nodeBytes, List.append_assoc, List.cons_append, List.nil_append] at heq
  obtain ⟨hversion, heq⟩ := prefixFree_u16 _ _ _ _ trivial trivial heq
  obtain ⟨hlevel, heq⟩ := List.cons.inj heq
  obtain ⟨hflags, heq⟩ := List.cons.inj heq
  obtain ⟨hsize, heq⟩ := prefixFree_i32 _ _ _ _ trivial trivial heq
  obtain ⟨hindex, heq⟩ := prefixFree_u32 _ _ _ _ trivial trivial heq
  obtain ⟨hmeta, heq⟩ := prefixFree_u32 _ _ _ _ trivial trivial heq
  obtain ⟨hword, heq⟩ := prefixFree_u64 _ _ _ _ trivial trivial heq
  obtain ⟨htype, heq⟩ := prefixFree_name _ _ _ _ hatype hbtype heq
  obtain ⟨hname, heq⟩ := prefixFree_name _ _ _ _ haname hbname heq
  refine ⟨?_, heq⟩
  cases a
  cases b
  cases hversion
  cases hlevel
  cases hflags
  cases hsize
  cases hindex
  cases hmeta
  cases hword
  cases htype
  cases hname
  rfl

theorem prefixFree_reference :
    PrefixFree (fun reference => ∀ names ∈ reference, ReferenceNames.Named names)
      referenceBytes := by
  intro a b r s ha hb heq
  match a, b with
  | none, none => exact ⟨rfl, (List.cons.inj heq).2⟩
  | none, some names => cases (List.cons.inj heq).1
  | some names, none => cases (List.cons.inj heq).1
  | some a, some b =>
      obtain ⟨haclass, haspace, haasm⟩ := ha a rfl
      obtain ⟨hbclass, hbspace, hbasm⟩ := hb b rfl
      simp only [referenceBytes, List.append_assoc, List.cons_append, List.nil_append] at heq
      obtain ⟨-, heq⟩ := List.cons.inj heq
      obtain ⟨hclass, heq⟩ := prefixFree_name _ _ _ _ haclass hbclass heq
      obtain ⟨hspace, heq⟩ := prefixFree_name _ _ _ _ haspace hbspace heq
      obtain ⟨hasm, heq⟩ := prefixFree_name _ _ _ _ haasm hbasm heq
      refine ⟨?_, heq⟩
      cases a
      cases b
      cases hclass
      cases hspace
      cases hasm
      rfl

/-- The counts of a shape are C `int`s. -/
structure SchemaShape.Counted (shape : SchemaShape) : Prop where
  nodes : shape.nodes.length < 2 ^ 31
  dependencies : shape.dependencies.length < 2 ^ 31

/-- **A shape is read off its encoding.** -/
theorem shapeBytes_injective {a b : SchemaShape} (ha : a.Accepted) (hb : b.Accepted)
    (hacount : a.Counted) (hbcount : b.Counted) (h : shapeBytes a = shapeBytes b) : a = b := by
  have heq : shapeBytes a ++ [] = shapeBytes b ++ [] := by rw [h]
  simp only [shapeBytes, List.append_assoc] at heq
  obtain ⟨hid, heq⟩ := prefixFree_i32 _ _ _ _ trivial trivial heq
  obtain ⟨hstripped, heq⟩ := prefixFree_flag _ _ _ _ trivial trivial heq
  obtain ⟨hscript, heq⟩ := prefixFree_u16 _ _ _ _ trivial trivial heq
  obtain ⟨hscriptHash, heq⟩ := prefixFree_bytes16 _ _ _ _ trivial trivial heq
  obtain ⟨htypeHash, heq⟩ := prefixFree_bytes16 _ _ _ _ trivial trivial heq
  rw [← List.append_assoc, ← List.append_assoc (storeLe32 b.nodes.length.toUInt32)] at heq
  obtain ⟨hnodes, heq⟩ := prefixFree_count.counted prefixFree_node a.nodes b.nodes _ _
    ⟨hacount.nodes.trans (by decide), ha.nodes⟩ ⟨hbcount.nodes.trans (by decide), hb.nodes⟩ heq
  rw [← List.append_assoc, ← List.append_assoc (storeLe32 b.dependencies.length.toUInt32)] at heq
  obtain ⟨hdependencies, heq⟩ := prefixFree_count.counted prefixFree_i32 a.dependencies
    b.dependencies _ _ ⟨hacount.dependencies.trans (by decide), fun _ _ => trivial⟩
    ⟨hbcount.dependencies.trans (by decide), fun _ _ => trivial⟩ heq
  obtain ⟨hreference, -⟩ := prefixFree_reference _ _ _ _ ha.reference hb.reference heq
  cases a
  cases b
  cases hid
  cases hstripped
  cases hscript
  cases hscriptHash
  cases htypeHash
  cases hnodes
  cases hdependencies
  cases hreference
  rfl

/-! ## The digest is a digest of the shape -/

theorem digest_congr (sha256 : Text → Sha256Digest) {a b : TypeTreeType}
    (h : schemaShape a = schemaShape b) :
    typetreeSchemaShapeDigest sha256 a = typetreeSchemaShapeDigest sha256 b := by
  have hmessage : shapeMessage a = shapeMessage b := by
    refine Option.ext fun message => ?_
    rw [shapeMessage_eq_some, shapeMessage_eq_some, h]
  rw [typetreeSchemaShapeDigest, typetreeSchemaShapeDigest, hmessage]

/-- The same schema with another string buffer and other string offsets. -/
def relocated (schema : TypeTreeType) (buffer : Text) (offsets : TypeTreeNode → UInt32 × UInt32) :
    TypeTreeType :=
  { schema with
    stringBuffer := buffer
    nodes := schema.nodes.map fun node =>
      { node with typeStrOffset := (offsets node).1, nameStrOffset := (offsets node).2 } }

theorem schemaShape_relocated (schema : TypeTreeType) (buffer : Text)
    (offsets : TypeTreeNode → UInt32 × UInt32) :
    schemaShape (relocated schema buffer offsets) = schemaShape schema := by
  unfold schemaShape relocated
  simp only [List.map_map]
  rfl

/-- **The identity of a schema shape.** Two accepted schemas, whose counts are C
`int`s, feed the same bytes behind the tag exactly when they have one shape;
where the names are stored is not part of it. -/
theorem shapeMessage_identity (a b : TypeTreeType) (ha : a.nodes.length < 2 ^ 31)
    (hadeps : a.dependencies.length < 2 ^ 31) (hb : b.nodes.length < 2 ^ 31)
    (hbdeps : b.dependencies.length < 2 ^ 31) :
    (∀ message, shapeMessage a = some message → ∃ fed, message = shapeDomain ++ fed) ∧
    (∀ fed fed', shapeMessage a = some (shapeDomain ++ fed) →
      shapeMessage b = some (shapeDomain ++ fed') →
        (fed = fed' ↔ schemaShape a = schemaShape b)) ∧
    (∀ sha256, schemaShape a = schemaShape b →
      typetreeSchemaShapeDigest sha256 a = typetreeSchemaShapeDigest sha256 b) ∧
    ∀ sha256 buffer offsets, typetreeSchemaShapeDigest sha256 (relocated a buffer offsets) =
      typetreeSchemaShapeDigest sha256 a := by
  refine ⟨?_, ?_, fun sha256 => digest_congr sha256,
    fun sha256 buffer offsets => digest_congr sha256 (schemaShape_relocated _ _ _)⟩
  · intro message h
    exact ⟨_, (shapeMessage_eq_some.mp h).2⟩
  · intro fed fed' h h'
    obtain ⟨haccepted, hfed⟩ := shapeMessage_eq_some.mp h
    obtain ⟨haccepted', hfed'⟩ := shapeMessage_eq_some.mp h'
    rw [List.append_cancel_left hfed, List.append_cancel_left hfed']
    constructor
    · refine shapeBytes_injective haccepted haccepted' ⟨?_, hadeps⟩ ⟨?_, hbdeps⟩
      · rwa [schemaShape, List.length_map]
      · rwa [schemaShape, List.length_map]
    · intro heq
      rw [heq]

def boundNode (buffer : Text) (level : UInt8) (typeOffset nameOffset : UInt32) : TypeTreeNode :=
  bindNode buffer ⟨1, level, 0, typeOffset, nameOffset, 4, level.toUInt32, 0, 0, none, none⟩

/-- An `AABB` with one field, with its strings in the two tables as the offsets
say. -/
def boundSchema (buffer : Text) (rootType rootName fieldType fieldName : UInt32) :
    TypeTreeType where
  typeId := 114
  isStripped := false
  scriptTypeIndex := 3
  scriptIdHash := .zero
  typeHash := .zero
  nodes := [boundNode buffer 0 rootType rootName, boundNode buffer 1 fieldType fieldName]
  stringBuffer := buffer
  dependencies := [7]
  isRefType := false
  refClassName := none
  refNamespace := none
  refAsmName := none

/-- The root's type is a common string. -/
def commonNames : TypeTreeType :=
  boundSchema (ascii "Base\x00int\x00x\x00") 0x80000000 0 5 9

def localNames : TypeTreeType :=
  boundSchema (ascii "AABB\x00Base\x00int\x00x\x00") 0 5 10 14

/-- The two schemas have other string tables and other offsets, and one shape. -/
theorem shapeMessage_identity_tables :
    commonNames.stringBuffer ≠ localNames.stringBuffer ∧
      ∃ fed, shapeMessage commonNames = some (shapeDomain ++ fed) ∧
        shapeMessage localNames = some (shapeDomain ++ fed) := by
  obtain ⟨hfed, hsame, -, -⟩ := shapeMessage_identity commonNames localNames (by decide)
    (by decide) (by decide) (by decide)
  have hcommon : (shapeMessage commonNames).isSome := by decide +kernel
  have hlocal : (shapeMessage localNames).isSome := by decide +kernel
  have hshape : schemaShape commonNames = schemaShape localNames := by decide +kernel
  obtain ⟨message, hmessage⟩ := Option.isSome_iff_exists.mp hcommon
  obtain ⟨message', hmessage'⟩ := Option.isSome_iff_exists.mp hlocal
  obtain ⟨fed, rfl⟩ := hfed message hmessage
  obtain rfl : message' = shapeDomain ++ shapeBytes (schemaShape localNames) :=
    (shapeMessage_eq_some.mp hmessage').2
  rw [← (hsame fed _ hmessage hmessage').mpr hshape] at hmessage'
  exact ⟨by decide, fed, hmessage, hmessage'⟩

end UnityCommon.Registry
