import UnityCommon.TypeTree.Wire

/-!
# The leaves of a value

What a decoded value says when its structure is left out, and what a schema's
shape depends on.
-/

namespace UnityCommon.TypeTree

/-! ## Contents -/

inductive Content where
  | integer (bits : UInt64)
  | float (bits : UInt64)
  | string (bytes : Text)
deriving DecidableEq, Repr

mutual
/-- The leaves of a value with their names, in order. -/
def leaves : TypeTreeValue → List (ValueNames × Content)
  | .int names _ bits => [(names, .integer bits)]
  | .float names bits => [(names, .float bits)]
  | .string names bytes => [(names, .string bytes)]
  | .array _ elements => leavesAll elements
  | .packed _ bytes _ => bytes.map fun byte => ((byteElement byte).names, .integer byte.toUInt64)
  | .struct _ members => leavesAll members
  | .none _ => []

def leavesAll : List TypeTreeValue → List (ValueNames × Content)
  | [] => []
  | value :: values => leaves value ++ leavesAll values
end

/-- A packed array has the leaves of the elements that it stands for. -/
theorem leaves_packed (names : ValueNames) (bytes : Text) (owned : Bool) :
    leaves (.packed names bytes owned) = leaves (.array names (bytes.map byteElement)) := by
  rw [leaves, leaves]
  induction bytes with
  | nil => rfl
  | cons byte bytes ih =>
      rw [List.map_cons, List.map_cons, leavesAll, ← ih]
      rfl

/-! ## Types of one shape -/

/-- What the parser goes by at a node. -/
structure Sketch where
  level : UInt8
  typeStr : Option CString
  byteSize : Int32
  metaFlags : UInt32
deriving DecidableEq, Repr

def TypeTreeNode.sketch (node : TypeTreeNode) : Sketch :=
  ⟨node.level, node.typeStr, node.byteSize, node.metaFlags⟩

/-- Arrays are known by their type alone, as in every validated schema. -/
def Marked (type : TypeTreeType) : Prop :=
  ∀ node ∈ type.nodes, isArrayMarker node = textIs node.typeStr "Array"

instance (type : TypeTreeType) : Decidable (Marked type) := by
  unfold Marked
  infer_instance

theorem marked_of_valid {type : TypeTreeType} (hvalid : typetreeValidateSchema type = true) :
    Marked type := by
  intro node hmem
  obtain ⟨index, hnode⟩ := List.getElem?_of_mem hmem
  have hshape := nodeShape_of_validate hvalid hnode
  rw [isArrayMarker, Bool.eq_iff_iff]
  constructor
  · intro hmarker
    have harray := hshape.marker hmarker
    unfold validateArrayNode at harray
    rw [hnode] at harray
    split at harray
    case h_1 found _ _ _ hfound _ _ _ =>
      obtain rfl : node = found := Option.some_inj.mp hfound
      simp only [Bool.and_eq_true] at harray
      tauto
    case h_2 => cases harray
  · intro htype
    rw [htype, Bool.true_or]

/-- Two types whose nodes the parser cannot tell apart. -/
structure Alike (type other : TypeTreeType) : Prop where
  sketches : type.nodes.map TypeTreeNode.sketch = other.nodes.map TypeTreeNode.sketch
  marked : Marked type
  markedOther : Marked other

namespace Alike

variable {type other : TypeTreeType}

theorem any (h : Alike type other) (p : Sketch → Bool) (index : ℕ) :
    (type.nodes[index]?.any fun node => p node.sketch) =
      other.nodes[index]?.any fun node => p node.sketch := by
  have hget := congrArg (fun sketches => sketches[index]?.any p) h.sketches
  simp only [List.getElem?_map, Option.any_map] at hget
  exact hget

theorem levels_eq (h : Alike type other) : levels type = levels other := by
  have hmap := congrArg (List.map fun sketch : Sketch => sketch.level.toNat) h.sketches
  rw [List.map_map, List.map_map] at hmap
  exact hmap

theorem hasChildren_eq (h : Alike type other) (index : ℕ) :
    nodeHasChildren type index = nodeHasChildren other index := by
  rw [Bool.eq_iff_iff, nodeHasChildren_iff_levels, nodeHasChildren_iff_levels, h.levels_eq]

theorem ownsArray_eq (h : Alike type other) (index : ℕ) :
    ownsArray type index = ownsArray other index := by
  have hby : ∀ {type : TypeTreeType}, Marked type → ownsArray type index =
      type.nodes[index + 1]?.any fun node => textIs node.sketch.typeStr "Array" := by
    intro type hmarked
    unfold ownsArray
    cases hnode : type.nodes[index + 1]? with
    | none => rfl
    | some node => exact hmarked node (List.mem_of_getElem? hnode)
  rw [hby h.marked, hby h.markedOther]
  exact h.any (fun sketch => textIs sketch.typeStr "Array") (index + 1)

theorem nodeKind_eq (h : Alike type other) (index : ℕ) :
    nodeKind type index = nodeKind other index := by
  have hstring := h.any (fun sketch => textIs sketch.typeStr "string") index
  simp only [TypeTreeNode.sketch] at hstring
  rw [nodeKind, nodeKind, h.hasChildren_eq, h.ownsArray_eq, hstring]

theorem directChildren_eq (h : Alike type other) (index : ℕ) :
    directChildren type index = directChildren other index := by
  rw [directChildren, h.levels_eq]

/-- What the alignment of a node depends on. -/
theorem aligns_eq (h : Alike type other) (index : ℕ) (suppress : Bool) :
    aligns type index suppress = aligns other index suppress := by
  have hown := h.any (fun sketch => wantsAlign sketch.metaFlags) index
  have harray : arrayAligns type index = arrayAligns other index := by
    have hget : ∀ i : ℕ, type.nodes[i]?.map TypeTreeNode.sketch =
        other.nodes[i]?.map TypeTreeNode.sketch := by
      intro i
      rw [← List.getElem?_map, h.sketches, List.getElem?_map]
    have hby : ∀ type : TypeTreeType, arrayAligns type index =
        (type.nodes[index + 1]?.map TypeTreeNode.sketch).any fun array =>
          (type.nodes[index + 3]?.map TypeTreeNode.sketch).any fun data =>
            wantsAlign (array.metaFlags ||| data.metaFlags) := by
      intro type
      simp only [arrayAligns, Option.any_map, TypeTreeNode.sketch]
    rw [hby, hby, hget, hget]
  simp only [TypeTreeNode.sketch] at hown
  unfold aligns
  rw [h.nodeKind_eq, harray, hown]

end Alike

end UnityCommon.TypeTree
