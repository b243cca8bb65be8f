import UnityCommon.TypeTree.Schema

/-!
# TypeTree string tables

A node names its type and field by an offset into its file's string table, or,
with the high bit set, into a table common to all files. An offset names a
string only where one starts and ends.
-/

namespace UnityCommon.TypeTree

def commonStrings : List String :=
  ["AABB", "AnimationClip", "AnimationCurve", "AnimationState", "Array", "Base", "BitField",
    "bitset", "bool", "char", "ColorRGBA", "Component", "data", "deque", "double",
    "dynamic_array", "FastPropertyName", "first", "float", "Font", "GameObject", "Generic Mono",
    "GradientNEW", "GUID", "GUIStyle", "int", "list", "long long", "map", "Matrix4x4f", "MdFour",
    "MonoBehaviour", "MonoScript", "m_ByteSize", "m_Curve", "m_EditorClassIdentifier",
    "m_EditorHideFlags", "m_Enabled", "m_ExtensionPtr", "m_GameObject", "m_Index", "m_IsArray",
    "m_IsStatic", "m_MetaFlag", "m_Name", "m_ObjectHideFlags", "m_PrefabInternal",
    "m_PrefabParentObject", "m_Script", "m_StaticEditorFlags", "m_Type", "m_Version", "Object",
    "pair", "PPtr<Component>", "PPtr<GameObject>", "PPtr<Material>", "PPtr<MonoBehaviour>",
    "PPtr<MonoScript>", "PPtr<Object>", "PPtr<Prefab>", "PPtr<Sprite>", "PPtr<TextAsset>",
    "PPtr<Texture>", "PPtr<Texture2D>", "PPtr<Transform>", "Prefab", "Quaternionf", "Rectf",
    "RectInt", "RectOffset", "second", "set", "short", "size", "SInt16", "SInt32", "SInt64",
    "SInt8", "staticvector", "string", "TextAsset", "TextMesh", "Texture", "Texture2D",
    "Transform", "TypelessData", "UInt16", "UInt32", "UInt64", "UInt8", "unsigned int",
    "unsigned long long", "unsigned short", "vector", "Vector2f", "Vector3f", "Vector4f",
    "m_ScriptingClassIdentifier", "Gradient", "Type*", "int2_storage", "int3_storage",
    "BoundsInt", "m_CorrespondingSourceObject", "m_PrefabInstance", "m_PrefabAsset", "FileSize",
    "Hash128"]

/-- `g_common_string_table`: the literal's own final NUL comes last. -/
def commonStringTable : Text := commonStrings.flatMap (fun s => ascii s ++ [0]) ++ [0]

def resolveStringInTable (table : Text) (offset : ℕ) : Option CString :=
  if table.length ≤ offset ∨ (0 < offset ∧ table[offset - 1]? ≠ some 0) ∨
      (0 : UInt8) ∉ table.drop offset then none
  else some (cstringAt (table.drop offset))

def typetreeResolveString (localTable : Text) (offset : UInt32) : Option CString :=
  if offset &&& 0x80000000 ≠ 0 then
    resolveStringInTable commonStringTable (offset &&& ~~~0x80000000).toNat
  else resolveStringInTable localTable offset.toNat

def bindNode (stringBuffer : Text) (node : TypeTreeNode) : TypeTreeNode :=
  { node with
    typeStr := typetreeResolveString stringBuffer node.typeStrOffset
    nameStr := typetreeResolveString stringBuffer node.nameStrOffset }

/-- Both offsets of the node name a string. -/
def nodeResolves (stringBuffer : Text) (node : TypeTreeNode) : Bool :=
  (typetreeResolveString stringBuffer node.typeStrOffset).isSome &&
    (typetreeResolveString stringBuffer node.nameStrOffset).isSome

/-- No pointer is set unless every offset resolves. -/
def typetreeBindNodeStrings (type : TypeTreeType) : Option TypeTreeType :=
  if type.nodes = [] ∨ ¬ type.nodes.all (nodeResolves type.stringBuffer) then none
  else some { type with nodes := type.nodes.map (bindNode type.stringBuffer) }

/-- The check of `validate_schema` on a node: its two names are the ones its
offsets resolve to. -/
def nodeBound (stringBuffer : Text) (node : TypeTreeNode) : Bool :=
  nodeResolves stringBuffer node &&
    typetreeResolveString stringBuffer node.typeStrOffset == node.typeStr &&
    typetreeResolveString stringBuffer node.nameStrOffset == node.nameStr

theorem nodeResolves_of_bound {stringBuffer : Text} {node : TypeTreeNode}
    (h : nodeBound stringBuffer node = true) : nodeResolves stringBuffer node = true := by
  simp only [nodeBound, Bool.and_eq_true] at h
  exact h.1.1

theorem bindNode_of_bound {stringBuffer : Text} {node : TypeTreeNode}
    (h : nodeBound stringBuffer node = true) : bindNode stringBuffer node = node := by
  simp only [nodeBound, Bool.and_eq_true, beq_iff_eq] at h
  rw [bindNode, h.1.2, h.2]

/-- **Binding a bound schema changes nothing.** -/
theorem typetreeBindNodeStrings_of_bound {type : TypeTreeType} (hne : type.nodes ≠ [])
    (hbound : type.nodes.all (nodeBound type.stringBuffer) = true) :
    typetreeBindNodeStrings type = some type := by
  rw [List.all_eq_true] at hbound
  have hall : type.nodes.all (nodeResolves type.stringBuffer) = true := by
    rw [List.all_eq_true]
    intro node hmem
    exact nodeResolves_of_bound (hbound node hmem)
  have hmap : type.nodes.map (bindNode type.stringBuffer) = type.nodes := by
    calc type.nodes.map (bindNode type.stringBuffer)
        = type.nodes.map id :=
          List.map_congr_left fun node hmem => bindNode_of_bound (hbound node hmem)
      _ = type.nodes := List.map_id _
  rw [typetreeBindNodeStrings, if_neg (by simp [hne, hall]), hmap]

end UnityCommon.TypeTree
