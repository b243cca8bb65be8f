import UnityCommon.Lib.Preorder
import UnityCommon.TypeTree.ByteArrays
import Mathlib.Data.List.Forall2

/-!
# What a parse interprets

A validated schema is a preorder, and the parser walks it as a tree: a struct
contributes one member for each direct child, and the parse of a node stops
where its subtree does. An owner of an Array is read through its Array alone, so
the whole schema is interpreted exactly when no owner has another child.
-/

namespace UnityCommon.TypeTree

open Preorder

/-! ## The schema as a preorder -/

theorem levels_getElem? (type : TypeTreeType) (index : ℕ) :
    (levels type)[index]? = type.nodes[index]?.map (·.level.toNat) := by
  simp [levels]

theorem skipDeeper_eq_scan (type : TypeTreeType) (level start : ℕ) :
    skipDeeper type level start = scan (levels type) level start := by
  unfold skipDeeper scan levels
  rw [← List.map_drop, List.takeWhile_map, List.length_map]
  rfl

theorem subtreeEnd_eq (type : TypeTreeType) (index : ℕ) :
    TypeTree.subtreeEnd type index = Preorder.subtreeEnd (levels type) index := by
  unfold TypeTree.subtreeEnd Preorder.subtreeEnd
  rw [List.getD_eq_getElem?_getD, levels_getElem?]
  cases h : type.nodes[index]? with
  | none =>
      have hlen : type.nodes.length ≤ index := List.getElem?_eq_none_iff.mp h
      have hdrop : (levels type).drop (index + 1) = [] :=
        List.drop_eq_nil_of_le (by simp [levels]; omega)
      simp [scan, hdrop]
  | some node => simp [skipDeeper_eq_scan]

theorem levels_valid {type : TypeTreeType} (hvalid : typetreeValidateSchema type = true) :
    Preorder.Valid (levels type) := by
  constructor
  · obtain ⟨root, rest, hnodes⟩ := List.exists_cons_of_ne_nil (nodes_ne_nil hvalid)
    have hroot : type.nodes[0]? = some root := by simp [hnodes]
    have hlevel := (nodeShape_of_validate hvalid hroot).level
    rw [levels_getElem?, hroot]
    simpa [validLevel] using hlevel
  · intro i a b ha hb
    rw [levels_getElem?] at ha hb
    obtain ⟨node, hnode, rfl⟩ := Option.map_eq_some_iff.mp ha
    obtain ⟨next, hnext, rfl⟩ := Option.map_eq_some_iff.mp hb
    have hlevel := (nodeShape_of_validate hvalid hnext).level
    unfold validLevel at hlevel
    rw [if_neg (Nat.succ_ne_zero i), Nat.add_sub_cancel, hnode] at hlevel
    simp only [Bool.and_eq_true, bne_iff_ne, ne_eq, decide_eq_true_eq] at hlevel
    omega

theorem nodeHasChildren_iff_levels {type : TypeTreeType} {index : ℕ} :
    nodeHasChildren type index = true ↔
      ∃ a b, (levels type)[index]? = some a ∧ (levels type)[index + 1]? = some b ∧ a < b := by
  rw [nodeHasChildren_iff]
  simp only [levels_getElem?, Option.map_eq_some_iff]
  constructor
  · rintro ⟨node, next, hnode, hnext, hlt⟩
    exact ⟨_, _, ⟨node, hnode, rfl⟩, ⟨next, hnext, rfl⟩, hlt⟩
  · rintro ⟨_, _, ⟨node, hnode, rfl⟩, ⟨next, hnext, rfl⟩, hlt⟩
    exact ⟨node, next, hnode, hnext, hlt⟩

/-- A node without children ends right after itself. -/
theorem subtreeEnd_of_leaf {type : TypeTreeType} {index : ℕ} {node : TypeTreeNode}
    (hnode : type.nodes[index]? = some node) (hleaf : nodeHasChildren type index = false) :
    Preorder.subtreeEnd (levels type) index = index + 1 := by
  have hlevel : (levels type).getD index 0 = node.level.toNat := by
    rw [List.getD_eq_getElem?_getD, levels_getElem?, hnode]
    rfl
  rw [Preorder.subtreeEnd, hlevel]
  refine scan_eq (Nat.le_refl _) (fun j hj hj' => absurd hj' (by omega)) fun l hl => ?_
  by_contra hdeep
  have hhas : nodeHasChildren type index = true :=
    nodeHasChildren_iff_levels.mpr
      ⟨_, l, by rw [levels_getElem?, hnode]; rfl, hl, Nat.lt_of_not_le hdeep⟩
  rw [hleaf] at hhas
  cases hhas

/-! ## What the parser reads a node as -/

inductive NodeKind where
  | leaf
  | string
  | array
  | struct
deriving DecidableEq, Repr

/-- The case distinction of `typetree_parse_value_internal`. -/
def nodeKind (type : TypeTreeType) (index : ℕ) : NodeKind :=
  if !nodeHasChildren type index then .leaf
  else if type.nodes[index]?.any fun node => textIs node.typeStr "string" then .string
  else if ownsArray type index then .array
  else .struct

theorem nodeKind_ne_leaf {type : TypeTreeType} {index : ℕ}
    (h : nodeHasChildren type index = true) : nodeKind type index ≠ .leaf := by
  unfold nodeKind
  rw [h, Bool.not_true, if_neg (by simp)]
  split
  · simp
  · split <;> simp

abbrev directChildren (type : TypeTreeType) (index : ℕ) : List ℕ :=
  children (levels type) index

/-- The value of a node has the kind of the node, and a struct has one member
for each direct child, in order. -/
inductive Interprets (type : TypeTreeType) : ℕ → TypeTreeValue → Prop
  | int {index node isUnsigned bits} (hnode : type.nodes[index]? = some node)
      (hkind : nodeKind type index = .leaf) :
      Interprets type index (.int (namesOf node) isUnsigned bits)
  | float {index node bits} (hnode : type.nodes[index]? = some node)
      (hkind : nodeKind type index = .leaf) :
      Interprets type index (.float (namesOf node) bits)
  | string {index node bytes} (hnode : type.nodes[index]? = some node)
      (hkind : nodeKind type index = .string) :
      Interprets type index (.string (namesOf node) bytes)
  | array {index node elements} (hnode : type.nodes[index]? = some node)
      (hkind : nodeKind type index = .array)
      (helements : ∀ element ∈ elements, Interprets type (index + 3) element) :
      Interprets type index (.array (namesOf node) elements)
  | struct {index node members} (hnode : type.nodes[index]? = some node)
      (hkind : nodeKind type index = .struct)
      (hmembers : List.Forall₂ (Interprets type) (directChildren type index) members) :
      Interprets type index (.struct (namesOf node) members)

/-! ## The member loop -/

/-- The position of a child loop: at a child, or done. -/
def AtChild (ls : List ℕ) (level index : ℕ) : Prop :=
  ls[index]? = some (level + 1) ∨ scan ls level index = index

theorem AtChild.next {ls : List ℕ} {level index : ℕ} (h : ls[index]? = some (level + 1)) :
    AtChild ls level (Preorder.subtreeEnd ls index) := by
  obtain ⟨hle, hscan⟩ := subtreeEnd_le_scan h
  by_cases he : Preorder.subtreeEnd ls index < scan ls level index
  · exact Or.inl (level_at_end h he)
  · right
    rw [hscan]
    omega

theorem childrenFrom_self (ls : List ℕ) (level index : ℕ) :
    childrenFrom ls level index index = [] := by
  simp [childrenFrom]

/-- **The member loop visits exactly the children.** -/
theorem parseMembers_children {type : TypeTreeType} {level : ℕ}
    {parse : ℕ → ByteStream → Option (TypeTreeValue × ℕ × ByteStream)}
    {P : ℕ → TypeTreeValue → Prop}
    (hparse : ∀ index stream value index' stream',
      parse index stream = some (value, index', stream') →
        index' = Preorder.subtreeEnd (levels type) index ∧ P index value) :
    ∀ (fuel index : ℕ) (stream : ByteStream) {values index' stream'},
      AtChild (levels type) level index →
      parseMembers type level parse fuel index stream = some (values, index', stream') →
        index' = scan (levels type) level index ∧
          List.Forall₂ P (childrenFrom (levels type) level index
            (scan (levels type) level index)) values := by
  intro fuel
  induction fuel with
  | zero =>
      intro index stream values index' stream' _ h
      cases h
  | succ fuel ih =>
      intro index stream values index' stream' hat h
      -- the loop stops where the scan does
      have hdone : scan (levels type) level index = index →
          ([], index, stream) = (values, index', stream') →
            index' = scan (levels type) level index ∧
              List.Forall₂ P (childrenFrom (levels type) level index
                (scan (levels type) level index)) values := by
        intro hscan he
        cases he
        rw [hscan, childrenFrom_self]
        exact ⟨rfl, List.Forall₂.nil⟩
      rw [parseMembers] at h
      cases hnode : type.nodes[index]? with
      | none =>
          simp only [hnode, Option.some.injEq] at h
          refine hdone (hat.resolve_left fun hl => ?_) h
          rw [levels_getElem?, hnode] at hl
          cases hl
      | some child =>
          have hlevel : (levels type)[index]? = some child.level.toNat := by
            rw [levels_getElem?, hnode]
            rfl
          simp only [hnode] at h
          by_cases hout : child.level.toNat ≤ level
          · rw [if_pos hout, Option.some.injEq] at h
            exact hdone (scan_of_le hlevel hout) h
          rw [if_neg hout] at h
          have hchild : child.level.toNat = level + 1 := by
            rcases hat with hl | hscan
            · rw [hlevel, Option.some.injEq] at hl
              exact hl
            · rw [← hscan] at hlevel
              exact absurd (le_of_scan hlevel) hout
          rw [if_pos hchild] at h
          rw [hchild] at hlevel
          obtain ⟨⟨value, next, stream₁⟩, hvalue, hrest⟩ := Option.bind_eq_some_iff.mp h
          obtain ⟨⟨values₁, last, stream₂⟩, hloop, he⟩ := Option.map_eq_some_iff.mp hrest
          -- a member ends with its subtree, so the next one starts at the next child
          obtain ⟨rfl, hP⟩ := hparse _ _ _ _ _ hvalue
          obtain ⟨hle, hscan⟩ := subtreeEnd_le_scan hlevel
          obtain ⟨hlast, hall⟩ := ih _ stream₁ (AtChild.next hlevel) hloop
          cases he
          rw [hscan] at hlast hall
          refine ⟨hlast, ?_⟩
          rw [childrenFrom_cons hlevel hle]
          exact List.Forall₂.cons hP hall

/-- The counting loop counts exactly the children. -/
theorem countChildren_eq {type : TypeTreeType} {level : ℕ} : ∀ (fuel index : ℕ),
    type.nodes.length < index + fuel → AtChild (levels type) level index →
      countChildren type level fuel index =
        (childrenFrom (levels type) level index (scan (levels type) level index)).length := by
  intro fuel
  induction fuel with
  | zero =>
      intro index hfuel hat
      have hnone : type.nodes[index]? = none := List.getElem?_eq_none (by omega)
      have hscan := hat.resolve_left fun hl => by
        rw [levels_getElem?, hnone] at hl
        cases hl
      rw [hscan, childrenFrom_self]
      rfl
  | succ fuel ih =>
      intro index hfuel hat
      rw [countChildren]
      cases hnode : type.nodes[index]? with
      | none =>
          have hscan := hat.resolve_left fun hl => by
            rw [levels_getElem?, hnode] at hl
            cases hl
          rw [hscan, childrenFrom_self]
          rfl
      | some child =>
          have hlevel : (levels type)[index]? = some child.level.toNat := by
            rw [levels_getElem?, hnode]
            rfl
          simp only
          by_cases hout : child.level.toNat ≤ level
          · rw [if_pos hout, scan_of_le hlevel hout, childrenFrom_self]
            rfl
          have hchild : child.level.toNat = level + 1 := by
            rcases hat with hl | hscan
            · rw [hlevel, Option.some.injEq] at hl
              exact hl
            · rw [← hscan] at hlevel
              exact absurd (le_of_scan hlevel) hout
          have hend : skipDeeper type child.level.toNat (index + 1) =
              Preorder.subtreeEnd (levels type) index := by
            rw [skipDeeper_eq_scan, Preorder.subtreeEnd, List.getD_eq_getElem?_getD, hlevel]
            rfl
          rw [if_neg hout, if_pos hchild, hend]
          rw [hchild] at hlevel
          obtain ⟨hle, hscan⟩ := subtreeEnd_le_scan hlevel
          have hlow : index + 1 ≤ Preorder.subtreeEnd (levels type) index := le_scan _ _ _
          rw [ih _ (by omega) (AtChild.next hlevel), hscan, childrenFrom_cons hlevel hle,
            List.length_cons, Nat.add_comm]

/-- A node with children starts its child loop at a child. -/
theorem atChild_of_children {type : TypeTreeType} {index : ℕ} {node : TypeTreeNode}
    (hvalid : typetreeValidateSchema type = true) (hnode : type.nodes[index]? = some node)
    (hchildren : nodeHasChildren type index = true) :
    (levels type)[index + 1]? = some (node.level.toNat + 1) := by
  obtain ⟨node', next, hnode', hnext, hlt⟩ := nodeHasChildren_iff.mp hchildren
  obtain rfl : node = node' := by simpa [hnode] using hnode'
  have hlevels := levels_valid hvalid
  have hb : (levels type)[index + 1]? = some next.level.toNat := by
    rw [levels_getElem?, hnext]
    rfl
  rw [hb, hlevels.first_child (by rw [levels_getElem?, hnode]; rfl) hb hlt]

theorem parseElements_forall {parse : ByteStream → Option (TypeTreeValue × ByteStream)}
    {P : TypeTreeValue → Prop}
    (hparse : ∀ stream value stream', parse stream = some (value, stream') → P value) :
    ∀ (count : ℕ) (stream : ByteStream) {values stream'},
      parseElements parse count stream = some (values, stream') → ∀ value ∈ values, P value := by
  intro count
  induction count with
  | zero =>
      intro stream values stream' h
      cases h
      simp
  | succ count ih =>
      intro stream values stream' h
      obtain ⟨⟨value, stream₁⟩, hvalue, hrest⟩ := Option.bind_eq_some_iff.mp h
      obtain ⟨⟨values₁, stream₂⟩, hloop, he⟩ := Option.map_eq_some_iff.mp hrest
      cases he
      intro v hv
      rcases List.mem_cons.mp hv with rfl | hv
      · exact hparse _ _ _ hvalue
      · exact ih stream₁ hloop v hv

/-- A default array holds the values its element parses returned. -/
theorem parseArray_elements {type : TypeTreeType} {node : TypeTreeNode} {index : ℕ}
    {suppress : Bool} {parse : ByteStream → Option (TypeTreeValue × ByteStream)}
    {P : TypeTreeValue → Prop} {stream stream' : ByteStream} {value : TypeTreeValue}
    {index' : ℕ}
    (hparse : ∀ stream value stream', parse stream = some (value, stream') → P value)
    (h : parseArray type 0 node index suppress parse stream = some (value, index', stream')) :
    index' = skipDeeper type node.level.toNat (index + 1) ∧
      ∃ elements, value = .array (namesOf node) elements ∧ ∀ element ∈ elements, P element := by
  have hplain : packsArray type 0 (index + 3) = false := by
    unfold packsArray
    split <;> simp
  obtain ⟨size, stream₁, stream₂, aligned, -, -, hvalue, -, rfl⟩ := parseArray_eq_some h
  rw [parseArrayValue, hplain, if_neg (by simp)] at hvalue
  obtain ⟨⟨values, stream₃⟩, hloop, hv⟩ := Option.map_eq_some_iff.mp hvalue
  cases hv
  exact ⟨rfl, values, rfl, parseElements_forall hparse _ _ hloop⟩

/-- **A struct has one member for each direct child.** -/
theorem parseStruct_children {type : TypeTreeType} {node : TypeTreeNode} {index : ℕ}
    {suppress : Bool} {parse : ℕ → ByteStream → Option (TypeTreeValue × ℕ × ByteStream)}
    {P : ℕ → TypeTreeValue → Prop} {stream stream' : ByteStream} {value : TypeTreeValue}
    {index' : ℕ} (hvalid : typetreeValidateSchema type = true)
    (hnode : type.nodes[index]? = some node) (hchildren : nodeHasChildren type index = true)
    (hparse : ∀ index stream value index' stream',
      parse index stream = some (value, index', stream') →
        index' = Preorder.subtreeEnd (levels type) index ∧ P index value)
    (h : parseStruct type node index suppress parse stream = some (value, index', stream')) :
    index' = Preorder.subtreeEnd (levels type) index ∧
      ∃ members, value = .struct (namesOf node) members ∧
        List.Forall₂ P (directChildren type index) members := by
  have hfirst := atChild_of_children hvalid hnode hchildren
  have hlevel : (levels type).getD index 0 = node.level.toNat := by
    rw [List.getD_eq_getElem?_getD, levels_getElem?, hnode]
    rfl
  have hcount := countChildren_eq (type.nodes.length + 1) (index + 1) (by omega) (Or.inl hfirst)
  have hpos : countChildren type node.level.toNat (type.nodes.length + 1) (index + 1) ≠ 0 := by
    rw [hcount, childrenFrom_cons hfirst (subtreeEnd_le_scan hfirst).1, List.length_cons]
    exact Nat.succ_ne_zero _
  obtain ⟨values, members, stream₁, hloop, hslots, -, rfl⟩ := parseStruct_eq_some h
  rw [if_neg hpos] at hloop
  obtain ⟨hlast, hall⟩ := parseMembers_children hparse _ _ _ (Or.inl hfirst) hloop
  have hmembers : members = values := by
    have hlen := hall.length_eq
    rw [← hcount] at hlen
    rw [memberSlots, hlen, if_neg (Nat.lt_irrefl _), Option.some.injEq, Nat.sub_self,
      List.replicate_zero, List.append_nil] at hslots
    exact hslots.symm
  subst hmembers
  unfold directChildren children Preorder.subtreeEnd
  rw [hlevel]
  exact ⟨hlast, members, rfl, hall⟩

/-! ## The whole parse -/

/-- **A parse interprets its subtree** and stops at its end. -/
theorem parseInternal_interprets {type : TypeTreeType}
    (hvalid : typetreeValidateSchema type = true) : ∀ (fuel index : ℕ) (suppress : Bool)
    (stream : ByteStream) {value index' stream'},
    parseInternal type 0 fuel index suppress stream = some (value, index', stream') →
      index' = Preorder.subtreeEnd (levels type) index ∧ Interprets type index value := by
  intro fuel
  induction fuel with
  | zero =>
      intro index suppress stream value index' stream' h
      cases h
  | succ fuel ih =>
      intro index suppress stream value index' stream' h
      obtain ⟨node, hnode, hread⟩ := readAs_of_parseInternal h
      have hgd : (levels type).getD index 0 = node.level.toNat := by
        rw [List.getD_eq_getElem?_getD, levels_getElem?, hnode]
        rfl
      have hend : skipDeeper type node.level.toNat (index + 1) =
          Preorder.subtreeEnd (levels type) index := by
        rw [skipDeeper_eq_scan, Preorder.subtreeEnd, hgd]
      cases hread with
      | leaf hleaf h =>
          have hkind : nodeKind type index = .leaf := by simp [nodeKind, hleaf]
          obtain ⟨stream₁, hscalar, -, rfl⟩ := parseLeaf_eq_some.mp h
          refine ⟨(subtreeEnd_of_leaf hnode hleaf).symm, ?_⟩
          rcases parseScalar_value hscalar with ⟨isUnsigned, bits, rfl⟩ | ⟨bits, rfl⟩
          · exact Interprets.int hnode hkind
          · exact Interprets.float hnode hkind
      | string hchildren hstring h =>
          have hkind : nodeKind type index = .string := by
            simp [nodeKind, hchildren, hnode, hstring]
          obtain ⟨size, bytes, stream₁, stream₂, -, -, -, rfl, rfl⟩ := parseString_eq_some.mp h
          exact ⟨hend, Interprets.string hnode hkind⟩
      | array hchildren hstring harray h =>
          have hkind : nodeKind type index = .array := by
            simp [nodeKind, hchildren, hnode, hstring, harray]
          have helement : ∀ stream value stream',
              (parseInternal type 0 fuel (index + 3) true stream).map
                  (fun result => (result.1, result.2.2)) = some (value, stream') →
                Interprets type (index + 3) value := by
            intro stream value stream' hp
            obtain ⟨⟨v, i, s⟩, hp', he⟩ := Option.map_eq_some_iff.mp hp
            cases he
            exact (ih (index + 3) true stream hp').2
          obtain ⟨rfl, elements, rfl, hall⟩ := parseArray_elements helement h
          exact ⟨hend, Interprets.array hnode hkind hall⟩
      | struct hchildren hstring harray h =>
          have hkind : nodeKind type index = .struct := by
            simp [nodeKind, hchildren, hnode, hstring, harray]
          obtain ⟨rfl, members, rfl, hall⟩ := parseStruct_children hvalid hnode hchildren
            (fun i s v i' s' hp => ih i false s hp) h
          exact ⟨rfl, Interprets.struct hnode hkind hall⟩

/-! ## Every node accounted for -/

/-- The nodes a parse reads as values. -/
inductive Parsed (type : TypeTreeType) : ℕ → Prop
  | root : Parsed type 0
  | member {index child} (h : Parsed type index) (hkind : nodeKind type index = .struct)
      (hchild : child ∈ directChildren type index) : Parsed type child
  /-- The data node of an array is read once for each element. -/
  | element {index} (h : Parsed type index) (hkind : nodeKind type index = .array) :
      Parsed type (index + 3)

/-- The nodes a parse reads as part of a string or of an array header. -/
def InHeader (type : TypeTreeType) (node : ℕ) : Prop :=
  ∃ index, Parsed type index ∧
    ((nodeKind type index = .array ∧ (node = index + 1 ∨ node = index + 2)) ∨
      (nodeKind type index = .string ∧
        (node = index + 1 ∨ node = index + 2 ∨ node = index + 3)))

def Accounted (type : TypeTreeType) (node : ℕ) : Prop := Parsed type node ∨ InHeader type node

/-- Parsing from the root interprets the whole schema. -/
structure InterpretsWhole (type : TypeTreeType) : Prop where
  sole_array : ∀ index child, child ∈ directChildren type index →
    type.nodes[child]?.any isArrayMarker = true → directChildren type index = [child]
  accounted : ∀ node, node < type.nodes.length → Accounted type node
  parsed : ∀ stream value index' stream',
    typetreeParseValue type 0 stream = some (value, index', stream') →
      index' = type.nodes.length ∧ Interprets type 0 value

/-- The check the validator makes for `size` and `data` below an Array, made
for the Array below its owner: the owner's subtree ends with the Array's. -/
def ArraysAlone (type : TypeTreeType) : Prop :=
  ∀ index, nodeHasChildren type index = true → ownsArray type index = true →
    TypeTree.subtreeEnd type (index + 1) = TypeTree.subtreeEnd type index

theorem mem_directChildren {type : TypeTreeType} {index child : ℕ} :
    child ∈ directChildren type index ↔
      index + 1 ≤ child ∧ child < Preorder.subtreeEnd (levels type) index ∧
        (levels type)[child]? = some ((levels type).getD index 0 + 1) :=
  mem_childrenFrom

/-- An Array marker is its parent's first child. -/
theorem array_child_eq {type : TypeTreeType} (hvalid : typetreeValidateSchema type = true)
    {index child : ℕ} (hchild : child ∈ directChildren type index)
    (hmarker : type.nodes[child]?.any isArrayMarker = true) :
    child = index + 1 ∧ nodeHasChildren type index = true := by
  obtain ⟨hlow, hhigh, hlevel⟩ := mem_directChildren.mp hchild
  obtain ⟨array, harray, hmark⟩ : ∃ array, type.nodes[child]? = some array ∧
      isArrayMarker array = true := by
    cases h : type.nodes[child]? with
    | none => simp [h] at hmarker
    | some array => exact ⟨array, rfl, by simpa [h] using hmarker⟩
  have hshape := (nodeShape_of_validate hvalid harray).marker hmark
  obtain ⟨owner, rfl⟩ : ∃ owner, child = owner + 1 := ⟨child - 1, by omega⟩
  obtain ⟨o, a, s, d, hshape⟩ := arrayShape_of_validate hshape
  have hownerLevel : (levels type)[owner]? = some ((levels type).getD index 0) := by
    rw [levels_getElem?, hshape.array_at, Option.map_some, Option.some.injEq,
      hshape.array_level] at hlevel
    rw [levels_getElem?, hshape.owner_at, Option.map_some, Option.some.injEq]
    omega
  have howner : owner = index := by
    by_contra hne
    obtain ⟨l, hl, hdeep⟩ := lt_of_mem_subtree (by omega : index + 1 ≤ owner)
      (Nat.lt_trans (Nat.lt_succ_self owner) hhigh)
    rw [hownerLevel, Option.some.injEq] at hl
    omega
  subst howner
  refine ⟨rfl, nodeHasChildren_iff_levels.mpr ⟨_, _, hownerLevel, hlevel, ?_⟩⟩
  exact Nat.lt_succ_self _

theorem nodeHasChildren_of_mem {type : TypeTreeType} {index child : ℕ}
    (h : child ∈ directChildren type index) : nodeHasChildren type index = true := by
  obtain ⟨hlow, hhigh, hlevel⟩ := mem_directChildren.mp h
  have hlt := (List.getElem?_eq_some_iff.mp hlevel).1
  have hindex : (levels type)[index]? = some ((levels type).getD index 0) := by
    rw [List.getD_eq_getElem?_getD, List.getElem?_eq_getElem (by omega), Option.getD_some]
  obtain ⟨l, hl, hdeep⟩ := lt_of_mem_subtree (Nat.le_refl (index + 1))
    (Nat.lt_of_le_of_lt hlow hhigh)
  exact nodeHasChildren_iff_levels.mpr ⟨_, l, hindex, hl, hdeep⟩

/-- The first child, and then the children after its subtree. -/
theorem directChildren_cons {type : TypeTreeType} {index : ℕ}
    (hvalid : typetreeValidateSchema type = true)
    (hchildren : nodeHasChildren type index = true) :
    directChildren type index = (index + 1) ::
        childrenFrom (levels type) ((levels type).getD index 0)
          (Preorder.subtreeEnd (levels type) (index + 1))
          (Preorder.subtreeEnd (levels type) index) ∧
      (levels type)[index + 1]? = some ((levels type).getD index 0 + 1) := by
  obtain ⟨node, -, hnode, -, -⟩ := nodeHasChildren_iff.mp hchildren
  have hlevel : (levels type).getD index 0 = node.level.toNat := by
    rw [List.getD_eq_getElem?_getD, levels_getElem?, hnode]
    rfl
  have hfirst := atChild_of_children hvalid hnode hchildren
  rw [← hlevel] at hfirst
  exact ⟨childrenFrom_cons hfirst (subtreeEnd_le_scan hfirst).1, hfirst⟩

/-- **One child is the whole subtree.** -/
theorem directChildren_singleton_iff {type : TypeTreeType} {index : ℕ}
    (hvalid : typetreeValidateSchema type = true)
    (hchildren : nodeHasChildren type index = true) :
    directChildren type index = [index + 1] ↔
      TypeTree.subtreeEnd type (index + 1) = TypeTree.subtreeEnd type index := by
  obtain ⟨hcons, hfirst⟩ := directChildren_cons hvalid hchildren
  obtain ⟨hle, hscan⟩ := subtreeEnd_le_scan hfirst
  rw [subtreeEnd_eq, subtreeEnd_eq, hcons, List.cons.injEq, and_iff_right rfl]
  constructor
  · intro hnil
    by_contra hne
    have hlt : Preorder.subtreeEnd (levels type) (index + 1) <
        Preorder.subtreeEnd (levels type) index := lt_of_le_of_ne hle hne
    have hmem := mem_childrenFrom.mpr ⟨Nat.le_refl _, hlt, level_at_end hfirst hlt⟩
    rw [hnil] at hmem
    cases hmem
  · intro he
    rw [he, childrenFrom_self]

/-- The Array below a string or an array owner. -/
theorem arrayShape_of_kind {type : TypeTreeType} {index : ℕ}
    (hvalid : typetreeValidateSchema type = true)
    (hkind : nodeKind type index = .array ∨ nodeKind type index = .string) :
    ownsArray type index = true ∧
      ∃ owner array size data, ArrayShape type index owner array size data ∧
        (nodeKind type index = .string → nodeHasChildren type (index + 3) = false) := by
  have hchildren : nodeHasChildren type index = true := by
    by_contra hleaf
    have hl : nodeHasChildren type index = false := by simpa using hleaf
    simp [nodeKind, hl] at hkind
  obtain ⟨node, -, hnode, -, -⟩ := nodeHasChildren_iff.mp hchildren
  have hround := nodeShape_of_validate hvalid hnode
  by_cases hstring : textIs node.typeStr "string" = true
  · obtain ⟨owner, array, size, data, hshape⟩ := arrayShape_of_validate (hround.string hstring).2
    obtain rfl : node = owner := by simpa [hnode] using hshape.owner_at
    refine ⟨?_, node, array, size, data, hshape, fun _ => hshape.string_data hstring⟩
    simp [ownsArray, hshape.array_at, isArrayMarker, hshape.array_type]
  · have harray : ownsArray type index = true := by
      by_contra hno
      have hn : ownsArray type index = false := by simpa using hno
      simp [nodeKind, hchildren, hnode, hstring, hn] at hkind
    obtain ⟨owner, array, size, data, hshape⟩ :=
      arrayShape_of_validate (hround.owner hchildren harray)
    refine ⟨harray, owner, array, size, data, hshape, fun hk => ?_⟩
    simp [nodeKind, hchildren, hnode, hstring, harray] at hk

/-- `size` and `data` are the complete set of direct Array children. -/
theorem array_children {type : TypeTreeType} {index : ℕ} {owner array size data : TypeTreeNode}
    (hshape : ArrayShape type index owner array size data) {child : ℕ}
    (h : child ∈ directChildren type (index + 1)) : child = index + 2 ∨ child = index + 3 := by
  obtain ⟨hlow, hhigh, hlevel⟩ := mem_directChildren.mp h
  by_contra hne
  have hcomplete := hshape.complete
  rw [subtreeEnd_eq, subtreeEnd_eq] at hcomplete
  have harray : (levels type).getD (index + 1) 0 = owner.level.toNat + 1 := by
    rw [List.getD_eq_getElem?_getD, levels_getElem?, hshape.array_at, Option.map_some,
      Option.getD_some, hshape.array_level]
  have hdata : (levels type).getD (index + 3) 0 = owner.level.toNat + 2 := by
    rw [List.getD_eq_getElem?_getD, levels_getElem?, hshape.data_at, Option.map_some,
      Option.getD_some, hshape.data_level]
  rw [← hcomplete] at hhigh
  obtain ⟨l, hl, hdeep⟩ := lt_of_mem_subtree (by omega : index + 3 + 1 ≤ child) hhigh
  rw [hdata] at hdeep
  rw [hl, harray, Option.some.injEq] at hlevel
  omega

/-- **A child of an accounted node is accounted for.** -/
theorem accounted_child {type : TypeTreeType} (hvalid : typetreeValidateSchema type = true)
    (halone : ArraysAlone type) {parent child : ℕ} (h : Accounted type parent)
    (hchild : child ∈ directChildren type parent) : Accounted type child := by
  have hchildren := nodeHasChildren_of_mem hchild
  rcases h with hparsed | ⟨index, hparsed, ⟨hkind, hpart⟩ | ⟨hkind, hpart⟩⟩
  · -- the parent is read as a value
    have hsole : nodeKind type parent = .array ∨ nodeKind type parent = .string →
        child = parent + 1 := by
      intro hkind
      have howns := (arrayShape_of_kind hvalid hkind).1
      have hone := (directChildren_singleton_iff hvalid hchildren).mpr
        (halone parent hchildren howns)
      rw [hone] at hchild
      exact List.mem_singleton.mp hchild
    cases hkind : nodeKind type parent with
    | leaf => exact absurd hkind (nodeKind_ne_leaf hchildren)
    | struct => exact Or.inl (Parsed.member hparsed hkind hchild)
    | array =>
        exact Or.inr ⟨parent, hparsed, Or.inl ⟨hkind, Or.inl (hsole (Or.inl hkind))⟩⟩
    | string =>
        exact Or.inr ⟨parent, hparsed, Or.inr ⟨hkind, Or.inl (hsole (Or.inr hkind))⟩⟩
  · -- the parent is in the header of an array
    obtain ⟨-, owner, array, size, data, hshape, -⟩ := arrayShape_of_kind hvalid (Or.inl hkind)
    rcases hpart with rfl | rfl
    · rcases array_children hshape hchild with rfl | rfl
      · exact Or.inr ⟨index, hparsed, Or.inl ⟨hkind, Or.inr rfl⟩⟩
      · exact Or.inl (Parsed.element hparsed hkind)
    · rw [hshape.size_leaf] at hchildren
      cases hchildren
  · -- the parent is part of a string
    obtain ⟨-, owner, array, size, data, hshape, hdata⟩ :=
      arrayShape_of_kind hvalid (Or.inr hkind)
    rcases hpart with rfl | rfl | rfl
    · rcases array_children hshape hchild with rfl | rfl
      · exact Or.inr ⟨index, hparsed, Or.inr ⟨hkind, Or.inr (Or.inl rfl)⟩⟩
      · exact Or.inr ⟨index, hparsed, Or.inr ⟨hkind, Or.inr (Or.inr rfl)⟩⟩
    · rw [hshape.size_leaf] at hchildren
      cases hchildren
    · rw [hdata hkind] at hchildren
      cases hchildren

theorem accounted_of_arraysAlone {type : TypeTreeType}
    (hvalid : typetreeValidateSchema type = true) (halone : ArraysAlone type) :
    ∀ node, node < type.nodes.length → Accounted type node := by
  intro node
  induction node using Nat.strongRecOn with
  | _ node ih =>
      intro hlt
      by_cases hz : node = 0
      · exact Or.inl (hz ▸ Parsed.root)
      have hlen : node < (levels type).length := by simpa [levels] using hlt
      obtain ⟨parent, hp, hchild⟩ :=
        (levels_valid hvalid).exists_parent (Nat.pos_of_ne_zero hz) hlen
      exact accounted_child hvalid halone (ih parent hp (by omega)) hchild

/-- **Parsing interprets the whole schema exactly when Arrays are alone** below
their owners. -/
theorem interpretsWhole_iff {type : TypeTreeType}
    (hvalid : typetreeValidateSchema type = true) :
    InterpretsWhole type ↔ ArraysAlone type := by
  constructor
  · intro hwhole index hchildren howns
    obtain ⟨hcons, -⟩ := directChildren_cons hvalid hchildren
    exact (directChildren_singleton_iff hvalid hchildren).mp
      (hwhole.sole_array index (index + 1) (by rw [hcons]; exact List.mem_cons_self) howns)
  · intro halone
    refine ⟨?_, accounted_of_arraysAlone hvalid halone, ?_⟩
    · intro index child hchild hmarker
      obtain ⟨rfl, hchildren⟩ := array_child_eq hvalid hchild hmarker
      exact (directChildren_singleton_iff hvalid hchildren).mpr
        (halone index hchildren hmarker)
    · intro stream value index' stream' h
      rw [typetreeParseValue, hvalid, if_neg (by simp)] at h
      obtain ⟨hend, hvalue⟩ := parseInternal_interprets hvalid _ 0 false stream h
      rw [(levels_valid hvalid).subtreeEnd_root] at hend
      exact ⟨by simpa [levels] using hend, hvalue⟩

theorem byteVector_interpreted : InterpretsWhole byteVectorSchema := by
  refine (interpretsWhole_iff (by decide)).mpr ?_
  intro index
  match index with
  | 0 | 1 | 2 | 3 | 4 => decide
  | index + 5 => intro h; simp [nodeHasChildren, byteVectorSchema, plainSchema] at h

/-- `Base { vector bytes { Array { int size; UInt8 data } int extra } }`. -/
def trailingSchema : TypeTreeType := plainSchema
  [plainNode 0 "TextAsset" "Base" (-1), plainNode 1 "vector" "bytes" (-1),
    plainNode 2 "Array" "Array" (-1), plainNode 3 "int" "size" 4,
    plainNode 3 "UInt8" "data" 1, plainNode 2 "int" "extra" 4]

/-- The trailing child is accepted, and skipped without a byte being read. -/
theorem trailing_child_skipped :
    typetreeValidateSchema trailingSchema = true ∧
      typetreeParseValue trailingSchema 0 ⟨[0, 0, 0, 0], 0, false⟩ =
        some (.struct ⟨some (cstr "Base"), some (cstr "TextAsset")⟩
          [.array ⟨some (cstr "bytes"), some (cstr "vector")⟩ []], 6,
          ⟨[0, 0, 0, 0], 4, false⟩) ∧
      ¬ InterpretsWhole trailingSchema := by
  refine ⟨by decide, rfl, ?_⟩
  intro hwhole
  have hchildren := hwhole.sole_array 1 2 (by decide) (by decide)
  exact absurd hchildren (by decide)

end UnityCommon.TypeTree
