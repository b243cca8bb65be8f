import UnityCommon.TypeTree.Validate

/-!
# What validation accepts

The facts later proofs take from `typetree_validate_schema`, one lemma for each
place of the source that establishes one.
-/

namespace UnityCommon.TypeTree

/-- The facts `validate_array_node` establishes about the Array at
`ownerIndex + 1`. -/
structure ArrayShape (type : TypeTreeType) (ownerIndex : ℕ)
    (owner array size data : TypeTreeNode) : Prop where
  owner_at : type.nodes[ownerIndex]? = some owner
  array_at : type.nodes[ownerIndex + 1]? = some array
  size_at : type.nodes[ownerIndex + 2]? = some size
  data_at : type.nodes[ownerIndex + 3]? = some data
  array_type : textIs array.typeStr "Array" = true
  array_level : array.level.toNat = owner.level.toNat + 1
  size_level : size.level.toNat = owner.level.toNat + 2
  data_level : data.level.toNat = owner.level.toNat + 2
  size_type : textIs size.typeStr "int" = true
  size_leaf : nodeHasChildren type (ownerIndex + 2) = false
  data_name : textIs data.nameStr "data" = true
  complete : subtreeEnd type (ownerIndex + 3) = subtreeEnd type (ownerIndex + 1)
  string_data : textIs owner.typeStr "string" = true →
    nodeHasChildren type (ownerIndex + 3) = false

theorem arrayShape_of_validate {type : TypeTreeType} {ownerIndex : ℕ}
    (h : validateArrayNode type (ownerIndex + 1) = true) :
    ∃ owner array size data, ArrayShape type ownerIndex owner array size data := by
  unfold validateArrayNode at h
  rw [show ownerIndex + 1 - 1 = ownerIndex from rfl,
    show ownerIndex + 1 + 1 = ownerIndex + 2 from rfl,
    show ownerIndex + 1 + 2 = ownerIndex + 3 from rfl] at h
  split at h
  case h_2 => cases h
  rename_i array owner size data harray howner hsize hdata
  simp only [Bool.and_eq_true, beq_iff_eq, bne_iff_ne, ne_eq, Bool.not_eq_true',
    Bool.and_eq_false_imp, Bool.or_eq_false_iff] at h
  obtain ⟨⟨⟨⟨⟨⟨⟨⟨⟨⟨⟨⟨⟨htype, -⟩, -⟩, -⟩, hlevel⟩, hsl⟩, hdl⟩, -⟩, hst⟩, -⟩, hleaf⟩, hname⟩,
    hend⟩, hstring⟩ := h
  exact ⟨owner, array, size, data, howner, harray, hsize, hdata, htype, hlevel.symm, by omega,
    by omega, hst, hleaf, hname, hend, fun hs => (hstring hs).2⟩

theorem validateNode_of_lt {type : TypeTreeType} (h : typetreeValidateSchema type = true)
    {index : ℕ} (hlt : index < type.nodes.length) : validateNode type index = true := by
  unfold typetreeValidateSchema at h
  rw [Bool.and_eq_true, List.all_eq_true] at h
  exact h.2 index (List.mem_range.mpr hlt)

theorem nodes_ne_nil {type : TypeTreeType} (h : typetreeValidateSchema type = true) :
    type.nodes ≠ [] := by
  unfold typetreeValidateSchema at h
  rw [Bool.and_eq_true] at h
  simpa using h.1

theorem nodeHasChildren_iff {type : TypeTreeType} {index : ℕ} :
    nodeHasChildren type index = true ↔
      ∃ node next, type.nodes[index]? = some node ∧ type.nodes[index + 1]? = some next ∧
        node.level.toNat < next.level.toNat := by
  unfold nodeHasChildren
  cases type.nodes[index]? with
  | none => simp
  | some node =>
      cases type.nodes[index + 1]? with
      | none => simp
      | some next => simp [UInt8.lt_iff_toNat_lt]

theorem lt_length_of_getElem? {type : TypeTreeType} {index : ℕ} {node : TypeTreeNode}
    (h : type.nodes[index]? = some node) : index < type.nodes.length :=
  (List.getElem?_eq_some_iff.mp h).1

/-- The conjuncts of one validated round. -/
structure NodeShape (type : TypeTreeType) (index : ℕ) (node : TypeTreeNode) : Prop where
  typeStr : present node.typeStr = true
  nameStr : present node.nameStr = true
  level : validLevel type index node = true
  scalar : scalarWireSize node.typeStr ≠ 0 →
    nodeHasChildren type index = false ∧ node.byteSize.toInt = scalarWireSize node.typeStr
  marker : isArrayMarker node = true → validateArrayNode type index = true
  string : textIs node.typeStr "string" = true →
    nodeHasChildren type index = true ∧ validateArrayNode type (index + 1) = true
  owner : nodeHasChildren type index = true →
    type.nodes[index + 1]?.any isArrayMarker = true → validateArrayNode type (index + 1) = true
  leaf : nodeHasChildren type index = false → scalarWireSize node.typeStr ≠ 0 ∨
    textIs node.typeStr "Array" = true

/-- **Every node of a validated schema has the shape of its round.** -/
theorem nodeShape_of_validate {type : TypeTreeType} (h : typetreeValidateSchema type = true)
    {index : ℕ} {node : TypeTreeNode} (hnode : type.nodes[index]? = some node) :
    NodeShape type index node := by
  have hround := validateNode_of_lt h (lt_length_of_getElem? hnode)
  unfold validateNode at hround
  simp only [hnode, Bool.and_eq_true] at hround
  obtain ⟨⟨⟨⟨⟨⟨htype, hname⟩, -⟩, hlevel⟩, hscalar⟩, hmarker⟩, hlast⟩ := hround
  refine ⟨htype, hname, hlevel, ?_, ?_, ?_, ?_, ?_⟩
  · intro hne
    cases hc : nodeHasChildren type index with
    | true => simp [hne, hc] at hscalar
    | false => simpa [hne, hc] using hscalar
  · intro hm
    simpa [hm] using hmarker
  · intro hs
    rw [if_pos hs] at hlast
    simp only [Bool.and_eq_true] at hlast
    exact ⟨hlast.1.2, hlast.2⟩
  · intro hc hany
    by_cases hs : textIs node.typeStr "string" = true
    · rw [if_pos hs] at hlast
      exact (Bool.and_eq_true _ _ ▸ hlast).2
    · rw [if_neg hs, if_pos hc] at hlast
      simpa [hany] using hlast
  · intro hc
    by_cases hs : textIs node.typeStr "string" = true
    · rw [if_pos hs] at hlast
      simp [hc] at hlast
    · rw [if_neg hs, hc] at hlast
      simp only [Bool.false_eq_true, if_false, Bool.not_eq_true', Bool.and_eq_false_imp,
        beq_iff_eq, Bool.not_eq_false'] at hlast
      by_cases hz : scalarWireSize node.typeStr = 0
      · exact Or.inr (hlast hz)
      · exact Or.inl hz

end UnityCommon.TypeTree
