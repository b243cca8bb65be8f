import UnityCommon.TypeTree.Schema

/-!
# Schema validation

`typetree_validate_schema`. The loops over node indices return at their first
failure and are written as `all`. A name that is NULL is unequal to every
literal: `strcmp` on it does not return, and the node itself is refused when
its turn comes.
-/

namespace UnityCommon.TypeTree

/-- `strcmp(text, literal) == 0`. -/
def textIs (text : Option CString) (literal : String) : Bool :=
  text.any fun t => t.bytes == ascii literal

def isOneOf (text : Option CString) (literals : List String) : Bool :=
  literals.any (textIs text)

def scalarWireSize (typeStr : Option CString) : ℕ :=
  if isOneOf typeStr ["SInt8", "UInt8", "bool", "char"] then 1
  else if isOneOf typeStr ["SInt16", "UInt16", "short", "unsigned short"] then 2
  else if isOneOf typeStr ["SInt32", "UInt32", "int", "unsigned int", "RenderingLayerMask",
      "Type*", "BitField", "float"] then 4
  else if isOneOf typeStr ["SInt64", "UInt64", "long long", "unsigned long long", "FileSize",
      "double"] then 8
  else 0

def levels (type : TypeTreeType) : List ℕ := type.nodes.map (·.level.toNat)

/-- The scan `while (end < node_count && nodes[end].level > level) end++`. -/
def skipDeeper (type : TypeTreeType) (level start : ℕ) : ℕ :=
  start + ((type.nodes.drop start).takeWhile fun node => level < node.level.toNat).length

def nodeHasChildren (type : TypeTreeType) (index : ℕ) : Bool :=
  match type.nodes[index]?, type.nodes[index + 1]? with
  | some node, some next => node.level < next.level
  | _, _ => false

def subtreeEnd (type : TypeTreeType) (index : ℕ) : ℕ :=
  match type.nodes[index]? with
  | some node => skipDeeper type node.level.toNat (index + 1)
  | none => index + 1

/-- The test both the validator and the parser make on a first child. -/
def isArrayMarker (node : TypeTreeNode) : Bool :=
  textIs node.typeStr "Array" || textIs node.nameStr "Array"

def validateArrayNode (type : TypeTreeType) (arrayIndex : ℕ) : Bool :=
  match type.nodes[arrayIndex]?, type.nodes[arrayIndex - 1]?,
      type.nodes[arrayIndex + 1]?, type.nodes[arrayIndex + 2]? with
  | some array, some owner, some size, some data =>
      textIs array.typeStr "Array" && textIs array.nameStr "Array" &&
      array.byteSize == -1 && arrayIndex != 0 &&
      owner.level.toNat + 1 == array.level.toNat &&
      size.level.toNat == array.level.toNat + 1 &&
      data.level.toNat == array.level.toNat + 1 &&
      textIs size.nameStr "size" && textIs size.typeStr "int" && size.byteSize == 4 &&
      !nodeHasChildren type (arrayIndex + 1) && textIs data.nameStr "data" &&
      -- size and data are the complete set of direct Array children
      subtreeEnd type (arrayIndex + 2) == subtreeEnd type arrayIndex &&
      !(textIs owner.typeStr "string" &&
        (!textIs data.typeStr "char" || data.byteSize != 1 ||
          nodeHasChildren type (arrayIndex + 2)))
  | _, _, _, _ => false

def present (text : Option CString) : Bool := text.any fun t => t.bytes != []

/-- The level rule at one index: the first node is at 0, a later one is below
the root and at most one deeper than the node before it. -/
def validLevel (type : TypeTreeType) (index : ℕ) (node : TypeTreeNode) : Bool :=
  if index = 0 then node.level.toNat == 0
  else
    match type.nodes[index - 1]? with
    | some previous =>
        node.level.toNat != 0 && decide (node.level.toNat ≤ previous.level.toNat + 1)
    | none => false

/-- One round of the loop of `typetree_validate_schema`. -/
def validateNode (type : TypeTreeType) (index : ℕ) : Bool :=
  match type.nodes[index]? with
  | none => false
  | some node =>
      let hasChildren := nodeHasChildren type index
      let wireSize := scalarWireSize node.typeStr
      present node.typeStr && present node.nameStr && decide (-1 ≤ node.byteSize) &&
      validLevel type index node &&
      !(wireSize != 0 && (hasChildren || node.byteSize.toInt != wireSize)) &&
      !(isArrayMarker node && !validateArrayNode type index) &&
      if textIs node.typeStr "string" then
        node.byteSize == -1 && hasChildren && validateArrayNode type (index + 1)
      else if hasChildren then
        !((type.nodes[index + 1]?.any isArrayMarker) &&
          !validateArrayNode type (index + 1))
      else
        !(wireSize == 0 && !textIs node.typeStr "Array")

def typetreeValidateSchema (type : TypeTreeType) : Bool :=
  type.nodes != [] && (List.range type.nodes.length).all (validateNode type)

end UnityCommon.TypeTree
