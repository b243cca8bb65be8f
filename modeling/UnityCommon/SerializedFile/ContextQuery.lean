import UnityCommon.Common.Words
import UnityCommon.SerializedFile.DirectoryOwner
import UnityCommon.SerializedFile.SchemaContext
import UnityCommon.SerializedFile.SchemaLaw
import UnityCommon.SerializedFile.SchemaTree
import UnityCommon.SerializedFile.TailOwner

/-!
# What a schema context admits

The registry of a compiled schema, told by the tree that its links denote: the
only marked node, with no other flag, and the last child of the root. A query
accepts exactly the schemas without a registry or with one such, and the prefix
that it admits is made of whole subtrees.
-/

namespace UnityCommon.Metadata

open Preorder (children subtreeEnd)

/-! ## Compiled schemas -/

/-- The nodes of a compiled schema are the tree of their levels. -/
structure SerializedFileSchema.Tree (schema : SerializedFileSchema) (ls : List ℕ) : Prop where
  count : ls.length = schema.view.nodeCount
  pos : 0 < ls.length
  valid : Preorder.Valid ls
  linked : AllLinked ls schema.nodes
  ordinals : OrdinalsFrom 0 schema.nodes

theorem nodeLinked_named {ls : List ℕ} {i : ℕ} {node : SchemaNode}
    (name : NameRequest → Option SchemaString) (h : NodeLinked ls i node) :
    NodeLinked ls i (node.named name) :=
  ⟨h.parent, h.firstChild, h.nextSibling, h.childCount, h.subtreeEnd⟩

theorem schema_tree {mapped : Text} {parent : SchemaParent} {ordinal : ℕ} {view : SchemaView}
    {limits : SchemaLimits} {knownSize retainedBytes scratchBytes : ℕ}
    (hview : parent.schemaView ordinal = some view)
    (h : view.Admitted mapped limits knownSize retainedBytes scratchBytes) :
    (view.schema mapped retainedBytes).Tree
      (recordLevels (view.record mapped) view.nodeCount) := by
  have hpos : 0 < view.nodeCount := by
    rw [nodeCount_of_view hview]
    exact Nat.pos_of_ne_zero fun hzero => h.backed.1 (UInt32.toNat_inj.mp hzero)
  have hlinked : AllLinked (recordLevels (view.record mapped) view.nodeCount)
      (view.table mapped).nodes := allLinked_close (fun _ => decodeSchemaNode_fresh _) h.levels
  refine ⟨length_recordLevels _ _, by rw [length_recordLevels]; exact hpos,
    ((levelsFit_iff hpos).mp h.levels).1, ⟨?_, fun i node hnode => ?_⟩, fun i node hnode => ?_⟩
  · rw [SchemaView.schema, List.length_map]
    exact hlinked.1
  · rw [SchemaView.schema, List.getElem?_map] at hnode
    obtain ⟨plain, hplain, rfl⟩ := Option.map_eq_some_iff.mp hnode
    obtain ⟨hnode, hend⟩ := hlinked.2 i plain hplain
    exact ⟨nodeLinked_named _ hnode, hend⟩
  · rw [SchemaView.schema, List.getElem?_map] at hnode
    obtain ⟨plain, hplain, rfl⟩ := Option.map_eq_some_iff.mp hnode
    exact table_ordinals view mapped i plain hplain

/-! ## The last child of the root -/

namespace SerializedFileSchema.Tree

variable {schema : SerializedFileSchema} {ls : List ℕ} {i : ℕ} {node : SchemaNode}

theorem length (h : schema.Tree ls) : schema.nodes.length = schema.view.nodeCount :=
  h.linked.1.trans h.count

theorem getElem? (h : schema.Tree ls) (hi : i < schema.view.nodeCount) :
    ∃ node, schema.nodes[i]? = some node ∧ schema.node i = some node := by
  have hlt : i < schema.nodes.length := h.length.symm ▸ hi
  refine ⟨schema.nodes[i], List.getElem?_eq_getElem hlt, ?_⟩
  rw [SerializedFileSchema.node, if_pos hi, List.getElem?_eq_getElem hlt]

theorem lt (h : schema.Tree ls) (hnode : schema.nodes[i]? = some node) :
    i < schema.view.nodeCount := by
  rw [← h.length]
  exact (List.getElem?_eq_some_iff.mp hnode).1

theorem root_level (h : schema.Tree ls) : ls.getD 0 0 = 0 :=
  Preorder.getD_of_getElem? h.valid.root

/-- The children of the root are the nodes at level one. -/
theorem mem_children_root (h : schema.Tree ls) {j : ℕ} :
    j ∈ childrenOf schema.nodes 0 ↔ j < schema.view.nodeCount ∧ ls.getD j 0 = 1 := by
  rw [childrenOf_eq h.valid h.linked, Preorder.mem_children, h.valid.subtreeEnd_root, h.root_level,
    ← h.count]
  constructor
  · rintro ⟨-, hj, hl⟩
    exact ⟨hj, Preorder.getD_of_getElem? hl⟩
  · rintro ⟨hj, hl⟩
    refine ⟨Nat.pos_of_ne_zero fun hzero => ?_, hj, ?_⟩
    · rw [hzero, h.root_level] at hl
      cases hl
    · rw [Preorder.getElem?_of_lt hj, hl]

theorem childrenOf_sorted (nodes : List SchemaNode) : (childrenOf nodes 0).Pairwise (· < ·) :=
  List.Pairwise.filter _ List.pairwise_lt_range

/-- The last of an ascending list is its greatest. -/
theorem getLast?_iff_of_ascending {l : List ℕ} (h : l.Pairwise (· < ·)) :
    l.getLast? = some i ↔ i ∈ l ∧ ∀ j ∈ l, j ≤ i := by
  rcases List.eq_nil_or_concat l with rfl | ⟨front, last, rfl⟩
  · simp
  · rw [List.concat_eq_append] at h ⊢
    have hbefore := (List.pairwise_append.mp h).2.2
    rw [List.getLast?_concat, Option.some_inj]
    constructor
    · rintro rfl
      refine ⟨by simp, fun j hj => ?_⟩
      rcases List.mem_append.mp hj with hj | hj
      · exact (hbefore j hj last (List.mem_singleton.mpr rfl)).le
      · exact (List.mem_singleton.mp hj).le
    · rintro ⟨hmem, hmax⟩
      have hle := hmax last (by simp)
      rcases List.mem_append.mp hmem with hi | hi
      · have := hbefore i hi last (List.mem_singleton.mpr rfl)
        omega
      · exact (List.mem_singleton.mp hi).symm

/-- Behind the root every node is below it. -/
theorem level_pos (h : schema.Tree ls) {j : ℕ} (hpos : 0 < j) (hj : j < ls.length) :
    1 ≤ ls.getD j 0 := by
  have hroot : j < subtreeEnd ls 0 := by rwa [h.valid.subtreeEnd_root]
  obtain ⟨l, hl, hdeep⟩ := Preorder.lt_of_mem_subtree hpos hroot
  rw [Preorder.getD_of_getElem? hl]
  omega

/-- **The last child.** No sibling is behind it, and its subtree ends the tree. -/
theorem last_iff (h : schema.Tree ls) (hnode : schema.nodes[i]? = some node) :
    (childrenOf schema.nodes 0).getLast? = some i ↔
      node.parent = some 0 ∧ node.nextSibling = none ∧ node.subtreeEnd = schema.view.nodeCount := by
  have hi := h.lt hnode
  have hi' : i < ls.length := h.count.symm ▸ hi
  obtain ⟨hlinked, hend⟩ := h.linked.2 i node hnode
  have hparent : node.parent = some 0 ↔ i ∈ childrenOf schema.nodes 0 := by
    rw [hlinked.parent, childrenOf_eq h.valid h.linked, h.valid.mem_children_iff hi']
  constructor
  · intro hlast
    obtain ⟨hmem, hmax⟩ := (getLast?_iff_of_ascending (childrenOf_sorted _)).mp hlast
    have hlevel := (h.mem_children_root.mp hmem).2
    have hstop : subtreeEnd ls i = ls.length := by
      by_contra hne
      have hlt : subtreeEnd ls i < ls.length :=
        Nat.lt_of_le_of_ne (Preorder.subtreeEnd_le hi') hne
      have hstart : i + 1 ≤ subtreeEnd ls i := Preorder.le_scan _ _ _
      have hshallow : ls.getD (subtreeEnd ls i) 0 ≤ ls.getD i 0 :=
        Preorder.le_of_scan (Preorder.getElem?_of_lt hlt)
      have hdeep := h.level_pos (by omega) hlt
      have := hmax _ (h.mem_children_root.mpr ⟨h.count ▸ hlt, by omega⟩)
      omega
    refine ⟨hparent.mpr hmem, ?_, by rw [hend, hstop, h.count]⟩
    cases hsibling : node.nextSibling with
    | none => rfl
    | some c =>
        obtain ⟨rfl, hc, -⟩ := (hlinked.nextSibling c).mp hsibling
        omega
  · rintro ⟨hroot, -, hstop⟩
    have hmem := hparent.mp hroot
    have hlevel := (h.mem_children_root.mp hmem).2
    refine (getLast?_iff_of_ascending (childrenOf_sorted _)).mpr ⟨hmem, fun j hj => ?_⟩
    obtain ⟨hjlt, hjlevel⟩ := h.mem_children_root.mp hj
    by_contra hbehind
    -- a later child would be inside the subtree
    obtain ⟨l, hl, hdeep⟩ := Preorder.lt_of_mem_subtree (by omega : i + 1 ≤ j)
      (by rw [← hend, hstop]; exact hjlt)
    rw [Preorder.getD_of_getElem? hl] at hjlevel
    omega

/-- **Whole subtrees.** The subtree of a child of the root that starts before a
child, or before the end, ends there at the latest. -/
theorem subtreeEnd_le_child (h : schema.Tree ls) (hmem : i ∈ childrenOf schema.nodes 0)
    (hnode : schema.nodes[i]? = some node) {stop : ℕ} (hlt : i < stop)
    (hstop : stop = schema.view.nodeCount ∨ stop ∈ childrenOf schema.nodes 0) :
    node.subtreeEnd ≤ stop := by
  have hi' : i < ls.length := h.count.symm ▸ h.lt hnode
  rw [(h.linked.2 i node hnode).2]
  rcases hstop with rfl | hchild
  · rw [← h.count]
    exact Preorder.subtreeEnd_le hi'
  · by_contra hpast
    obtain ⟨l, hl, hdeep⟩ := Preorder.lt_of_mem_subtree hlt (Nat.lt_of_not_le hpast)
    have hlevel := (h.mem_children_root.mp hmem).2
    have hlevel' := (h.mem_children_root.mp hchild).2
    rw [Preorder.getD_of_getElem? hl] at hlevel'
    omega

end SerializedFileSchema.Tree

/-! ## Registries -/

/-- The registry bit is set. -/
def SchemaNode.Marked (node : SchemaNode) : Prop := node.typeFlags &&& registryFlags ≠ 0

namespace SerializedFileSchema

variable (schema : SerializedFileSchema)

def Unmarked : Prop := ∀ (i : ℕ) (node : SchemaNode), schema.nodes[i]? = some node → ¬ node.Marked

/-- The last child of the root, with the registry flag alone. -/
structure IsRegistry (r : ℕ) : Prop where
  last : (childrenOf schema.nodes 0).getLast? = some r
  flags : ∀ node, schema.nodes[r]? = some node → node.typeFlags = registryFlags

structure SoleRegistry (r : ℕ) : Prop extends schema.IsRegistry r where
  sole : ∀ i node, schema.nodes[i]? = some node → node.Marked → i = r

/-- The registry that the nodes before `k` have. -/
def FoundBefore (k : ℕ) : Option ℕ → Prop
  | none => ∀ i node, i < k → schema.nodes[i]? = some node → ¬ node.Marked
  | some r => r < k ∧ schema.IsRegistry r ∧
      ∀ i node, i < k → schema.nodes[i]? = some node → node.Marked → i = r

def HasRegistry : Option ℕ → Prop
  | none => schema.Unmarked
  | some r => schema.SoleRegistry r

/-- The context before the first node. -/
def initialContext (kind : SchemaContextKind) : SchemaContext where
  kind := kind
  engineVersion := schema.view.engineVersion
  rowKind := schema.view.rowKind
  typeOrdinal := schema.view.typeOrdinal
  headerSource := schema.view.prefixView.header.headerSource
  fileSize := schema.view.prefixView.header.fileSize
  endianSelector := schema.view.prefixView.header.endianSelector
  typeEntrySource := schema.view.typeEntrySource
  tree := schema.view.tree
  root := 0
  firstChild := none
  traversalEnd := schema.view.nodeCount
  registry := none
  registryEnd := none
  registryOmitted := false

/-- The context after `k` nodes. -/
def contextAfter (kind : SchemaContextKind) (k : ℕ) (registry : Option ℕ) : SchemaContext :=
  { schema.initialContext kind with
    firstChild := if k = 0 then none else (nodeAt schema.nodes 0).firstChild
    registry := registry
    registryEnd := registry.map fun _ => schema.view.nodeCount }

/-- The context of a query that accepts. -/
def contextOf (kind : SchemaContextKind) (registry : Option ℕ) : SchemaContext :=
  let context := schema.contextAfter kind schema.view.nodeCount registry
  match kind, registry with
  | .selectedReferencePayload, some r => { context with traversalEnd := r, registryOmitted := true }
  | _, _ => context

end SerializedFileSchema

/-! ## One node -/

section Steps

variable {answers : ℕ → Bool} {query query' : ContextQuery} {n n' : ℕ}

theorem chargeContext_eq_ok {maxWork offset : ℕ} {field : SchemaContextField} {ordinal : Option ℕ}
    {u : Unit} :
    chargeContext maxWork field ordinal offset answers query n = .ok u query' n' ↔
      query.workUsed ≠ maxWork ∧ query' = { query with workUsed := query.workUsed + 1 } ∧
        n' = n := by
  rw [chargeContext, Call.current_bind_eq_ok, Call.require_bind_eq_ok, Call.replace_eq_ok]
  exact and_congr_right fun _ => and_congr eq_comm eq_comm

theorem inspectRegistryNode_eq_ok {node : SchemaNode} {nodeCount : ℕ}
    {context context' : SchemaContext} :
    inspectRegistryNode node nodeCount context answers query n = .ok context' query' n' ↔
      (¬ node.Marked ∧ context' = context ∨
        node.Marked ∧ node.typeFlags = registryFlags ∧
          (node.parent = some 0 ∧ node.nextSibling = none ∧ node.subtreeEnd = nodeCount ∧
            context.registry = none) ∧
          context' = { context with
            registry := some node.ordinal, registryEnd := some node.subtreeEnd }) ∧
        query' = query ∧ n' = n := by
  rw [inspectRegistryNode, SchemaNode.Marked]
  by_cases hmark : node.typeFlags &&& registryFlags = 0
  · rw [if_pos hmark, Call.pure_eq_ok]
    constructor
    · rintro ⟨rfl, rfl, rfl⟩
      exact ⟨Or.inl ⟨fun h => h hmark, rfl⟩, rfl, rfl⟩
    · rintro ⟨⟨-, rfl⟩ | ⟨h, -⟩, rfl, rfl⟩
      · exact ⟨rfl, rfl, rfl⟩
      · exact absurd hmark h
  · rw [if_neg hmark, Call.require_bind_eq_ok, Call.require_bind_eq_ok, Call.pure_eq_ok]
    constructor
    · rintro ⟨hflags, hposition, rfl, rfl, rfl⟩
      exact ⟨Or.inr ⟨hmark, hflags, hposition, rfl⟩, rfl, rfl⟩
    · rintro ⟨⟨h, -⟩ | ⟨-, hflags, hposition, rfl⟩, rfl, rfl⟩
      · exact absurd hmark h
      · exact ⟨hflags, hposition, rfl, rfl, rfl⟩

end Steps

namespace SerializedFileSchema.Tree

variable {schema : SerializedFileSchema} {ls : List ℕ} {kind : SchemaContextKind}
  {answers : ℕ → Bool} {query query' : ContextQuery} {n n' k maxWork : ℕ} {found : Option ℕ}

theorem marked_of_flags {node : SchemaNode} (h : node.typeFlags = registryFlags) : node.Marked := by
  rw [SchemaNode.Marked, h]
  decide

/-- A node that is inspected without a reject is unmarked or the registry. -/
theorem found_of_inspect (h : schema.Tree ls) {node : SchemaNode}
    (hnode : schema.nodes[k]? = some node) (hfound : schema.FoundBefore k found)
    {context : SchemaContext}
    (hinspect : inspectRegistryNode node schema.view.nodeCount
      (schema.contextAfter kind (k + 1) found) answers query n = .ok context query' n') :
    ∃ found', schema.FoundBefore (k + 1) found' ∧
      context = schema.contextAfter kind (k + 1) found' ∧ query' = query ∧ n' = n := by
  obtain ⟨hcases, rfl, rfl⟩ := inspectRegistryNode_eq_ok.mp hinspect
  have hself : ∀ i other, i < k + 1 → schema.nodes[i]? = some other → i < k ∨ other = node := by
    intro i other hi hother
    rcases Nat.lt_succ_iff_lt_or_eq.mp hi with hlt | rfl
    · exact Or.inl hlt
    · exact Or.inr (Option.some.inj (hother.symm.trans hnode))
  rcases hcases with ⟨hplain, rfl⟩ | ⟨hmark, hflags, ⟨hparent, hnext, hend, hnone⟩, rfl⟩
  · refine ⟨found, ?_, rfl, rfl, rfl⟩
    cases found with
    | none =>
        intro i other hi hother
        rcases hself i other hi hother with hlt | rfl
        · exact hfound i other hlt hother
        · exact hplain
    | some r =>
        obtain ⟨hr, hregistry, hsole⟩ := hfound
        refine ⟨Nat.lt_succ_of_lt hr, hregistry, fun i other hi hother hmark => ?_⟩
        rcases hself i other hi hother with hlt | rfl
        · exact hsole i other hlt hother hmark
        · exact absurd hmark hplain
  · obtain rfl : found = none := hnone
    have hordinal : node.ordinal = k := (h.ordinals k node hnode).trans (Nat.zero_add k)
    refine ⟨some k, ⟨Nat.lt_succ_self k, ⟨(h.last_iff hnode).mpr ⟨hparent, hnext, hend⟩, ?_⟩, ?_⟩,
      ?_, rfl, rfl⟩
    · intro other hother
      rw [Option.some.inj (hother.symm.trans hnode), hflags]
    · intro i other hi hother hmark'
      rcases Nat.lt_succ_iff_lt_or_eq.mp hi with hlt | rfl
      · exact absurd hmark' (hfound i other hlt hother)
      · rfl
    · rw [hordinal, hend]
      rfl

/-- **A node of a schema that qualifies** is inspected without a reject. -/
theorem inspect_of_registry (h : schema.Tree ls) (hregistry : schema.HasRegistry found)
    {node : SchemaNode} (hnode : schema.nodes[k]? = some node) :
    inspectRegistryNode node schema.view.nodeCount
        (schema.contextAfter kind (k + 1) (found.filter (· < k))) answers query n =
      .ok (schema.contextAfter kind (k + 1) (found.filter (· < k + 1))) query n := by
  refine inspectRegistryNode_eq_ok.mpr ⟨?_, rfl, rfl⟩
  cases found with
  | none => exact Or.inl ⟨hregistry k node hnode, rfl⟩
  | some r =>
      by_cases hkr : k = r
      · subst hkr
        have hflags := hregistry.flags node hnode
        obtain ⟨hparent, hnext, hend⟩ := (h.last_iff hnode).mp hregistry.last
        have hordinal : node.ordinal = k := (h.ordinals k node hnode).trans (Nat.zero_add k)
        have hbefore : (some k).filter (· < k) = none :=
          Option.filter_some_neg (by simp)
        have hafter : (some k).filter (· < k + 1) = some k :=
          Option.filter_some_pos (by simp)
        rw [hbefore, hafter]
        refine Or.inr ⟨marked_of_flags hflags, hflags, ⟨hparent, hnext, hend, rfl⟩, ?_⟩
        rw [hordinal, hend]
        rfl
      · have hplain : ¬ node.Marked := fun hmark => hkr (hregistry.sole k node hnode hmark)
        have hsame : (some r).filter (· < k + 1) = (some r).filter (· < k) := by
          have hiff : r < k + 1 ↔ r < k := by omega
          simp only [Option.filter, hiff]
        exact Or.inl ⟨hplain, by rw [hsame]⟩

theorem nodeAt_eq {node : SchemaNode} (hnode : schema.nodes[k]? = some node) :
    nodeAt schema.nodes k = node := by
  rw [nodeAt, List.getD_eq_getElem?_getD, hnode, Option.getD_some]

/-- The context of the first node takes its first child. -/
theorem firstChild_step {node : SchemaNode} (hnode : schema.nodes[k]? = some node) :
    (if k = 0 then { schema.contextAfter kind k found with firstChild := node.firstChild }
      else schema.contextAfter kind k found) = schema.contextAfter kind (k + 1) found := by
  by_cases hzero : k = 0
  · subst hzero
    rw [if_pos rfl, SerializedFileSchema.contextAfter, SerializedFileSchema.contextAfter,
      if_neg (Nat.succ_ne_zero 0), nodeAt_eq hnode]
  · rw [if_neg hzero, SerializedFileSchema.contextAfter, SerializedFileSchema.contextAfter,
      if_neg hzero, if_neg (Nat.succ_ne_zero k)]

/-- **A run over the nodes** that ends without a reject has found the registry. -/
theorem found_of_inspectNodes (h : schema.Tree ls) (count : ℕ)
    (hcount : k + count = schema.view.nodeCount) (hfound : schema.FoundBefore k found)
    {context : SchemaContext}
    (hrun : inspectNodes schema maxWork k count (schema.contextAfter kind k found) answers query n =
      .ok context query' n') :
    ∃ found', schema.FoundBefore schema.view.nodeCount found' ∧
      context = schema.contextAfter kind schema.view.nodeCount found' := by
  induction count generalizing k found query n with
  | zero =>
      obtain ⟨rfl, -, -⟩ := Call.pure_eq_ok.mp hrun
      obtain rfl : k = schema.view.nodeCount := by omega
      exact ⟨found, hfound, rfl⟩
  | succ count ih =>
      obtain ⟨node, hnode, hat⟩ := h.getElem? (i := k) (by omega)
      obtain ⟨_, _, _, -, hrun⟩ := Call.bind_eq_ok.mp hrun
      rw [hat, Option.getD_some] at hrun
      rw [firstChild_step hnode] at hrun
      obtain ⟨next, _, _, hinspect, hrest⟩ := Call.bind_eq_ok.mp hrun
      obtain ⟨found', hfound', rfl, rfl, rfl⟩ := h.found_of_inspect hnode hfound hinspect
      exact ih (by omega) hfound' hrest

/-- With enough work the run over the nodes of a schema that qualifies is accepted. -/
theorem inspectNodes_of_registry (h : schema.Tree ls) (hregistry : schema.HasRegistry found)
    (kind : SchemaContextKind) (answers : ℕ → Bool) (n count k : ℕ) (query : ContextQuery)
    (hcount : k + count = schema.view.nodeCount) (hwork : query.workUsed + count ≤ maxWork) :
    inspectNodes schema maxWork k count (schema.contextAfter kind k (found.filter (· < k))) answers
        query n =
      .ok (schema.contextAfter kind schema.view.nodeCount
        (found.filter (· < schema.view.nodeCount)))
        { query with workUsed := query.workUsed + count } n := by
  induction count generalizing k query with
  | zero =>
      obtain rfl : k = schema.view.nodeCount := by omega
      rfl
  | succ count ih =>
      obtain ⟨node, hnode, hat⟩ := h.getElem? (i := k) (by omega)
      have hrest := ih (k + 1) { query with workUsed := query.workUsed + 1 } (by omega)
        (by dsimp only; omega)
      refine Call.bind_eq_ok.mpr
        ⟨(), _, _, chargeContext_eq_ok.mpr ⟨by omega, rfl, rfl⟩, ?_⟩
      rw [hat, Option.getD_some]
      rw [firstChild_step hnode]
      refine Call.bind_eq_ok.mpr ⟨_, _, _, h.inspect_of_registry hregistry hnode, ?_⟩
      rw [hrest]
      dsimp only
      rw [Nat.add_assoc, Nat.add_comm 1 count]

end SerializedFileSchema.Tree

/-! ## Created parents -/

/-- A directory or a tail that its constructor returned. -/
inductive SchemaParent.Created : SchemaParent → Prop
  | directory {mapped : Text} {logicalSize : ℕ} {engineVersion : DirectoryEngineVersion}
      {limits : DirectoryLimits} {answers : ℕ → Bool} {n n' : ℕ} {directory : SerializedFileDirectory}
      {ran : DirectoryResult}
      (h : serializedFileDirectoryCreate mapped logicalSize engineVersion limits answers () n =
        .ok (directory, ran) () n') : Created (.directory directory)
  | tail {directory : SerializedFileDirectory} {mapped : Text} {logicalSize : ℕ}
      {limits : TailLimits} {answers : ℕ → Bool} {n n' : ℕ} {tail : SerializedFileMetadataTail}
      {ran : TailResult}
      (h : serializedFileMetadataTailCreate directory mapped logicalSize limits answers () n =
        .ok (tail, ran) () n') : Created (.tail tail)

theorem directoryType_within {source : MetadataSource} {prefixView : PrefixView} {at_ i : ℕ}
    {directory : SerializedFileDirectory} {d : ScanCost} {row : DirectoryTypeRow}
    (h : source.DirectoryReads prefixView at_ directory d) (hrow : directory.types[i]? = some row) :
    row.source.offset + row.source.size ≤ directory.view.remainingMetadata.offset := by
  have hrows := h.types_tile.le_of_mem row.source.extent
    (List.mem_map_of_mem (List.mem_map_of_mem (List.mem_of_getElem? hrow)))
  have htable := h.tiles.le_of_mem directory.view.typeRowsSource.extent
    (List.mem_map_of_mem (by simp))
  rw [h.remaining]
  exact hrows.trans htable

theorem referenceType_within {source : MetadataSource} {directory : DirectoryView} {at_ i : ℕ}
    {tail : SerializedFileMetadataTail} {d : ScanCost} {row : TailReferenceTypeRow}
    (h : source.TailReads directory at_ tail d) (hrow : tail.referenceTypes[i]? = some row) :
    row.source.offset + row.source.size ≤ tail.view.source.offset + tail.view.source.size := by
  have hrows := h.referenceTypes_tile.le_of_mem row.source.extent
    (List.mem_map_of_mem (List.mem_map_of_mem (List.mem_of_getElem? hrow)))
  have htable := h.tiles.le_of_mem tail.view.referenceTypeRowsSource.extent
    (List.mem_map_of_mem (by simp))
  rw [h.source_eq]
  exact hrows.trans htable

/-- The rows of a created parent lie in what it has parsed. -/
theorem SchemaParent.Created.row_within {parent : SchemaParent} (h : parent.Created) {ordinal : ℕ}
    {row : SchemaRow} (hrow : parent.row ordinal = some row) :
    row.source.offset + row.source.size ≤ parent.stop := by
  cases h with
  | @directory mapped logicalSize engineVersion limits answers n n' directory ran h =>
      obtain ⟨plan, hplan, -, rfl, -, -, -⟩ := directoryCreate_ok h
      obtain ⟨-, -, -, hscan, -⟩ := directoryPlan_eq_some.mp hplan
      obtain ⟨typeRow, htype, rfl⟩ := Option.map_eq_some_iff.mp hrow
      rw [SerializedFileDirectory.type] at htype
      split_ifs at htype
      have hrow' : plan.directory.types[ordinal]? = some typeRow := htype
      have hwithin := directoryType_within (MetadataSource.directory_reads hscan) hrow'
      exact hwithin
  | @tail directory mapped logicalSize limits answers n n' tail ran h =>
      obtain ⟨-, plan, hplan, -, rfl, -, -, -⟩ := tailCreate_ok h
      obtain ⟨hscan, -⟩ := tailPlan_eq_some.mp hplan
      obtain ⟨typeRow, htype, rfl⟩ := Option.map_eq_some_iff.mp hrow
      rw [SerializedFileMetadataTail.referenceType] at htype
      split_ifs at htype
      have hrow' : plan.tail.referenceTypes[ordinal]? = some typeRow := htype
      have hwithin := referenceType_within (MetadataSource.tail_reads hscan) hrow'
      exact hwithin

/-! ## The query -/

/-- The query with its output parameter, which the last step writes. -/
def serializedFileSchemaContextQueryOut (schema : SerializedFileSchema) (kind : SchemaContextKind)
    (maxWork : ℕ) : Call SchemaContextResult SchemaContext SchemaContextResult := do
  let (context, result) ← serializedFileSchemaContextQuery schema kind maxWork
  Call.replace context
  return result

section Query

variable {schema : SerializedFileSchema} {ls : List ℕ} {kind : SchemaContextKind} {maxWork : ℕ}
  {answers : ℕ → Bool} {n : ℕ} {out : SchemaContext}

/-- **A query that accepts** has found the registry of the schema. -/
theorem registry_of_queryContext (h : schema.Tree ls) {context : SchemaContext}
    {query query' : ContextQuery} {n' : ℕ}
    (hrun : queryContext schema kind maxWork answers query n = .ok context query' n') :
    ∃ registry, schema.HasRegistry registry ∧ context = schema.contextOf kind registry := by
  obtain ⟨-, hrun⟩ := Call.require_bind_eq_ok.mp hrun
  obtain ⟨_, _, _, -, hrun⟩ := Call.bind_eq_ok.mp hrun
  obtain ⟨-, hrun⟩ := Call.require_bind_eq_ok.mp hrun
  obtain ⟨_, _, _, -, hrun⟩ := Call.bind_eq_ok.mp hrun
  obtain ⟨inspected, _, _, hinspect, hrun⟩ := Call.bind_eq_ok.mp hrun
  obtain ⟨_, _, _, -, hrun⟩ := Call.bind_eq_ok.mp hrun
  have hnone : schema.FoundBefore 0 none := fun i node hi _ => absurd hi (Nat.not_lt_zero i)
  obtain ⟨registry, hfound, rfl⟩ :=
    h.found_of_inspectNodes schema.view.nodeCount (Nat.zero_add _) hnone hinspect
  have hcontext : context = schema.contextOf kind registry := by
    cases kind <;> cases registry <;> exact (Call.pure_eq_ok.mp hrun).1.symm
  refine ⟨registry, ?_, hcontext⟩
  cases registry with
  | none => exact fun i node hnode => hfound i node (h.lt hnode) hnode
  | some r =>
      obtain ⟨-, hregistry, hsole⟩ := hfound
      exact ⟨hregistry, fun i node hnode => hsole i node (h.lt hnode) hnode⟩

/-- **A schema that qualifies is accepted**, with a unit of work for each node
and two more. -/
theorem queryContext_of_registry (h : schema.Tree ls) {registry : Option ℕ}
    (hregistry : schema.HasRegistry registry)
    (hentry : schema.view.typeEntrySource.offset + schema.view.typeEntrySource.size ≤ sizeMax)
    (hkind : schema.view.rowKind = kind.requiredRow)
    (hwork : schema.view.nodeCount + 2 ≤ maxWork) :
    queryContext schema kind maxWork answers {} n =
      .ok (schema.contextOf kind registry)
        ⟨some schema.view.typeOrdinal, schema.view.nodeCount + 2⟩ n := by
  have hall : registry.filter (· < schema.view.nodeCount) = registry := by
    cases registry with
    | none => rfl
    | some r =>
        have hr : r < schema.view.nodeCount :=
          (h.mem_children_root.mp (List.mem_of_getLast? hregistry.last)).1
        exact Option.filter_some_pos (by simpa using hr)
  have hnone : registry.filter (· < 0) = none := by
    cases registry with
    | none => rfl
    | some r => exact Option.filter_some_neg (by simp)
  have hroom : 1 + schema.view.nodeCount ≤ maxWork := by omega
  have hnodes := h.inspectNodes_of_registry hregistry kind answers n schema.view.nodeCount 0
    ⟨some schema.view.typeOrdinal, 1⟩ (Nat.zero_add _) hroom
  rw [hall, hnone] at hnodes
  refine Call.require_bind_eq_ok.mpr ⟨⟨by omega, by omega⟩, ?_⟩
  refine Call.bind_eq_ok.mpr ⟨(), _, _, rfl, ?_⟩
  refine Call.require_bind_eq_ok.mpr ⟨hkind, ?_⟩
  refine Call.bind_eq_ok.mpr ⟨(), _, _, chargeContext_eq_ok.mpr ⟨by dsimp only; omega, rfl, rfl⟩, ?_⟩
  refine Call.bind_eq_ok.mpr ⟨_, _, _, hnodes, ?_⟩
  refine Call.bind_eq_ok.mpr ⟨(), _, _, chargeContext_eq_ok.mpr ⟨by dsimp only; omega, rfl, rfl⟩, ?_⟩
  have hused : 1 + schema.view.nodeCount + 1 = schema.view.nodeCount + 2 := by omega
  rw [hused]
  cases kind <;> cases registry <;> rfl

theorem contextQueryOut_ok {context : SchemaContext} {query : ContextQuery} {n' : ℕ}
    (h : queryContext schema kind maxWork answers {} n = .ok context query n') :
    serializedFileSchemaContextQueryOut schema kind maxWork answers out n =
      .ok (schemaContextResult ⟨.ok, .none, none, noOffset⟩ query) context n' := by
  rw [serializedFileSchemaContextQueryOut, serializedFileSchemaContextQuery, Call.bind_assoc,
    Call.bind_apply, Call.andThen, Call.enclosed, h]
  rfl

theorem contextQueryOut_error {reject : SchemaContextReject} {query : ContextQuery} {n' : ℕ}
    (h : queryContext schema kind maxWork answers {} n = .error reject query n') :
    serializedFileSchemaContextQueryOut schema kind maxWork answers out n =
      .error (schemaContextResult reject query) out n' := by
  rw [serializedFileSchemaContextQueryOut, serializedFileSchemaContextQuery, Call.bind_assoc,
    Call.bind_apply, Call.andThen, Call.enclosed, h]

theorem traversalEnd_contextOf (registry : Option ℕ) :
    (schema.contextOf kind registry).traversalEnd =
      match kind, registry with
      | .selectedReferencePayload, some r => r
      | _, _ => schema.view.nodeCount := by
  cases kind <;> cases registry <;> rfl

theorem registry_contextOf (schema : SerializedFileSchema) (kind : SchemaContextKind)
    (registry : Option ℕ) :
    (schema.contextOf kind registry).registry = registry ∧
      (schema.contextOf kind registry).registryEnd =
        registry.map fun _ => schema.view.nodeCount := by
  cases kind <;> cases registry <;> exact ⟨rfl, rfl⟩

/-- A schema has one registry or none. -/
theorem registry_unique (h : schema.Tree ls) {a b : Option ℕ} (ha : schema.HasRegistry a)
    (hb : schema.HasRegistry b) : a = b := by
  have hmarked : ∀ r, schema.SoleRegistry r →
      ∃ node, schema.nodes[r]? = some node ∧ node.Marked := by
    intro r hr
    obtain ⟨node, hnode, -⟩ := h.getElem?
      (h.mem_children_root.mp (List.mem_of_getLast? hr.last)).1
    exact ⟨node, hnode, SerializedFileSchema.Tree.marked_of_flags (hr.flags node hnode)⟩
  match a, b with
  | none, none => rfl
  | none, some r =>
      obtain ⟨node, hnode, hmark⟩ := hmarked r hb
      exact absurd hmark (ha r node hnode)
  | some r, none =>
      obtain ⟨node, hnode, hmark⟩ := hmarked r ha
      exact absurd hmark (hb r node hnode)
  | some r, some r' =>
      obtain ⟨node, hnode, hmark⟩ := hmarked r ha
      rw [hb.sole r node hnode hmark]

/-- The prefix that is admitted is made of whole subtrees. -/
theorem whole_subtrees (h : schema.Tree ls) {registry : Option ℕ}
    (hregistry : schema.HasRegistry registry) {child : ℕ} {node : SchemaNode}
    (hchild : child ∈ childrenOf schema.nodes 0) (hnode : schema.nodes[child]? = some node)
    (hlt : child < (schema.contextOf kind registry).traversalEnd) :
    node.subtreeEnd ≤ (schema.contextOf kind registry).traversalEnd := by
  refine h.subtreeEnd_le_child hchild hnode hlt ?_
  rw [traversalEnd_contextOf]
  cases kind with
  | ordinaryObject => exact Or.inl rfl
  | selectedReferencePayload =>
      cases registry with
      | none => exact Or.inl rfl
      | some r => exact Or.inr (List.mem_of_getLast? hregistry.last)

end Query

/-- **What a context query comes to**, on a schema that was compiled from a
created parent, of the right kind and with enough work. It accepts where no node
is marked, or one that is the registry; it tells where that one is and how far
the walk goes, which is never inside a subtree of the root's children; and
otherwise it leaves the caller's context alone. -/
theorem schemaContextQuery_exact {mapped : Text} {parent : SchemaParent} {ordinal : ℕ}
    {limits : SchemaLimits} {answers₀ : ℕ → Bool} {n₀ n₁ : ℕ} {schema : SerializedFileSchema}
    {ran : SchemaResult} (hparent : parent.Created)
    (hcreate : serializedFileSchemaCreate mapped parent ordinal limits answers₀ () n₀ =
      .ok (schema, ran) () n₁)
    {kind : SchemaContextKind} {maxWork : ℕ} (hkind : schema.view.rowKind = kind.requiredRow)
    (hwork : schema.view.nodeCount + 2 ≤ maxWork) (answers : ℕ → Bool) (out : SchemaContext)
    (n : ℕ) :
    ((∃ result context n', serializedFileSchemaContextQueryOut schema kind maxWork answers out n =
        .ok result context n') ↔ schema.Unmarked ∨ ∃ r, schema.SoleRegistry r) ∧
    (∀ result context n', serializedFileSchemaContextQueryOut schema kind maxWork answers out n =
        .ok result context n' →
      (schema.Unmarked → context.registry = none ∧ context.registryEnd = none ∧
        context.traversalEnd = schema.view.nodeCount) ∧
      (∀ r node, schema.SoleRegistry r → schema.node r = some node →
        context.registry = some r ∧ context.registryEnd = some node.subtreeEnd ∧
        node.subtreeEnd = schema.view.nodeCount ∧
        context.traversalEnd =
          if kind = .selectedReferencePayload then r else schema.view.nodeCount) ∧
      ∀ child ∈ childrenOf schema.nodes 0, ∀ node, schema.node child = some node →
        child < context.traversalEnd → node.subtreeEnd ≤ context.traversalEnd) ∧
    ∀ kind' maxWork' result context n',
      serializedFileSchemaContextQueryOut schema kind' maxWork' answers out n =
        .error result context n' → context = out := by
  obtain ⟨view, retainedBytes, scratchBytes, hview, hadmitted, -, hschema, -⟩ :=
    schemaCreate_ok hcreate
  have htree : schema.Tree (recordLevels (view.record mapped) view.nodeCount) :=
    hschema ▸ schema_tree hview hadmitted
  have hentry : schema.view.typeEntrySource.offset + schema.view.typeEntrySource.size ≤ sizeMax := by
    obtain ⟨-, row, tree, hrow, -, hviewRow⟩ := schemaView_eq_some hview
    rw [hschema, hviewRow]
    exact (hparent.row_within hrow).trans hadmitted.known
  have hnode : ∀ {i node}, schema.node i = some node → schema.nodes[i]? = some node := by
    intro i node h
    rw [SerializedFileSchema.node] at h
    split_ifs at h
    exact h
  -- both directions go through the registry that is there, if any
  have hok : ∀ registry, schema.HasRegistry registry →
      ∃ result n', serializedFileSchemaContextQueryOut schema kind maxWork answers out n =
        .ok result (schema.contextOf kind registry) n' := fun registry hregistry =>
    ⟨_, _, contextQueryOut_ok (queryContext_of_registry htree hregistry hentry hkind hwork)⟩
  have hfound : ∀ result context n',
      serializedFileSchemaContextQueryOut schema kind maxWork answers out n =
        .ok result context n' →
      ∃ registry, schema.HasRegistry registry ∧ context = schema.contextOf kind registry := by
    intro result context n' h
    cases hrun : queryContext schema kind maxWork answers {} n with
    | ok context' query made =>
        rw [contextQueryOut_ok hrun] at h
        cases h
        exact registry_of_queryContext htree hrun
    | error reject query made =>
        rw [contextQueryOut_error hrun] at h
        cases h
  refine ⟨⟨?_, ?_⟩, ?_, ?_⟩
  · rintro ⟨result, context, n', h⟩
    obtain ⟨registry, hregistry, -⟩ := hfound result context n' h
    cases registry with
    | none => exact Or.inl hregistry
    | some r => exact Or.inr ⟨r, hregistry⟩
  · rintro (hplain | ⟨r, hr⟩)
    · obtain ⟨result, n', h⟩ := hok none hplain
      exact ⟨result, _, n', h⟩
    · obtain ⟨result, n', h⟩ := hok (some r) hr
      exact ⟨result, _, n', h⟩
  · intro result context n' h
    obtain ⟨registry, hregistry, rfl⟩ := hfound result context n' h
    obtain ⟨hat, hend⟩ := registry_contextOf schema kind registry
    refine ⟨fun hplain => ?_, fun r node hr hat' => ?_, fun child hchild node hat' hlt => ?_⟩
    · obtain rfl : registry = none := registry_unique htree hregistry hplain
      refine ⟨hat, hend, ?_⟩
      rw [traversalEnd_contextOf]
      cases kind <;> rfl
    · obtain rfl : registry = some r := registry_unique htree hregistry hr
      -- the registry is the last child of the root, so it ends with the tree
      obtain ⟨-, -, hstop⟩ := (htree.last_iff (hnode hat')).mp hr.last
      refine ⟨hat, by rw [hend, hstop]; rfl, hstop, ?_⟩
      rw [traversalEnd_contextOf]
      cases kind <;> rfl
    · exact whole_subtrees htree hregistry hchild (hnode hat') hlt
  · intro kind' maxWork' result context n' h
    cases hrun : queryContext schema kind' maxWork' answers {} n with
    | ok context' query made =>
        rw [contextQueryOut_ok hrun] at h
        cases h
    | error reject query made =>
        rw [contextQueryOut_error hrun] at h
        cases h
        rfl

/-! ## A file with a registry -/

/-- The metadata of a file whose one type is a root with a registry below it. -/
def registryMetadata : Text :=
  ascii "2021.3.35f1" ++ [0] ++ storeLe32 19 ++ [1] ++
    storeLe32 1 ++ storeLe32 49 ++ [0] ++ storeLe16 0xffff ++ List.replicate 16 0 ++
    storeLe32 2 ++ storeLe32 9 ++
    (storeLe16 1 ++ [0, 0] ++ storeLe32 0 ++ storeLe32 4 ++ List.replicate 20 0) ++
    (storeLe16 1 ++ [1, 4] ++ storeLe32 0 ++ storeLe32 4 ++ List.replicate 20 0) ++
    (ascii "int" ++ [0] ++ ascii "Base" ++ [0]) ++ storeLe32 0 ++
    storeLe32 0 ++ storeLe32 0 ++ storeLe32 0 ++ storeLe32 0 ++ [0]

def registryFile : Text :=
  let size := (48 + registryMetadata.length).toUInt64
  List.replicate 8 0 ++ storeBe32 22 ++ List.replicate 4 0 ++
    storeBe64 registryMetadata.length.toUInt64 ++ storeBe64 size ++ storeBe64 size ++
    List.replicate 8 0 ++ registryMetadata

def registryDirectory : Call.Result DirectoryResult Unit (SerializedFileDirectory × DirectoryResult) :=
  serializedFileDirectoryCreate registryFile registryFile.length .engine2021_3_35f1
    ⟨64, 1, 0, 2, 9, 0, 2 ^ 20, 2 ^ 20, 2 ^ 20, 2 ^ 20⟩ Call.granted () 0

def registrySchema (directory : SerializedFileDirectory) :
    Call.Result SchemaResult Unit (SerializedFileSchema × SchemaResult) :=
  serializedFileSchemaCreate registryFile (.directory directory) 0
    ⟨2, 9, 255, 2 ^ 20, 2 ^ 20, 2 ^ 20⟩ Call.granted () 0

/-- Both are created, and the second node alone is marked. -/
def registryMarked : Bool :=
  match registryDirectory with
  | .ok (directory, _) _ _ =>
      match registrySchema directory with
      | .ok (schema, _) _ _ =>
          schema.view.rowKind == .ordinaryType && schema.view.nodeCount == 2 &&
            schema.nodes.map SchemaNode.typeFlags == [0, 4] && childrenOf schema.nodes 0 == [1]
      | .error _ _ _ => false
  | .error _ _ _ => false

theorem soleRegistry_of_flags {schema : SerializedFileSchema}
    (hflags : schema.nodes.map SchemaNode.typeFlags = [0, 4])
    (hchildren : childrenOf schema.nodes 0 = [1]) : schema.SoleRegistry 1 := by
  have hat : ∀ (i : ℕ) (node : SchemaNode), schema.nodes[i]? = some node →
      ([0, 4] : List UInt8)[i]? = some node.typeFlags := by
    intro i node hnode
    rw [← hflags, List.getElem?_map, hnode]
    rfl
  refine ⟨⟨by rw [hchildren]; rfl, fun node hnode => ?_⟩, fun i node hnode hmark => ?_⟩
  · exact (Option.some.inj (hat 1 node hnode)).symm
  · match i, hat i node hnode with
    | 0, h =>
        rw [SchemaNode.Marked, ← Option.some.inj h] at hmark
        exact absurd rfl hmark
    | 1, _ => rfl

theorem schemaContextQuery_registry :
    ∃ directory ran n' schema ran' n'' result context n₃,
      registryDirectory = .ok (directory, ran) () n' ∧
      registrySchema directory = .ok (schema, ran') () n'' ∧
      serializedFileSchemaContextQueryOut schema .ordinaryObject 4 Call.granted
        (schema.initialContext .ordinaryObject) 0 = .ok result context n₃ ∧
      context.registry = some 1 ∧ context.traversalEnd = 2 := by
  have hmarked : registryMarked = true := by decide +kernel
  unfold registryMarked at hmarked
  cases hdirectory : registryDirectory with
  | error e s n' =>
      rw [hdirectory] at hmarked
      cases hmarked
  | ok pair s n' =>
      obtain ⟨directory, ran⟩ := pair
      rw [hdirectory] at hmarked
      dsimp only at hmarked
      cases hschema : registrySchema directory with
      | error e s n'' =>
          rw [hschema] at hmarked
          cases hmarked
      | ok pair s n'' =>
          obtain ⟨schema, ran'⟩ := pair
          rw [hschema] at hmarked
          simp only [Bool.and_eq_true, beq_iff_eq] at hmarked
          obtain ⟨⟨⟨hkind, hcount⟩, hflags⟩, hchildren⟩ := hmarked
          have hsole := soleRegistry_of_flags hflags hchildren
          have hkind' : schema.view.rowKind = SchemaContextKind.ordinaryObject.requiredRow := hkind
          have hwork : schema.view.nodeCount + 2 ≤ 4 := by rw [hcount]
          obtain ⟨hiff, htells, -⟩ := schemaContextQuery_exact (.directory hdirectory) hschema hkind'
            hwork Call.granted (schema.initialContext .ordinaryObject) 0
          obtain ⟨result, context, n₃, hquery⟩ := hiff.mpr (Or.inr ⟨1, hsole⟩)
          obtain ⟨-, hregistry, -⟩ := htells result context n₃ hquery
          obtain ⟨node, hnode⟩ : ∃ node, schema.nodes[1]? = some node := by
            have hlength := congrArg List.length hflags
            rw [List.length_map] at hlength
            exact ⟨_, List.getElem?_eq_getElem (by rw [hlength]; decide)⟩
          obtain ⟨hat, -, -, hend⟩ := hregistry 1 node hsole
            (by rw [SerializedFileSchema.node, if_pos (by omega), hnode])
          rw [if_neg (by decide), hcount] at hend
          exact ⟨directory, ran, n', schema, ran', n'', result, context, n₃, rfl, hschema, hquery, hat,
            hend⟩

end UnityCommon.Metadata
