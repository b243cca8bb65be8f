import UnityCommon.SerializedFile.ContextQuery
import UnityCommon.SerializedFile.ValuesPayload

/-!
# The schema of a profile

A schema is compared with a profile node by node, names included, and its context
is asked for before. What either costs is told by the profile.
-/

namespace UnityCommon.Values

open UnityCommon.Metadata

/-! ## The nodes -/

/-- The node with its names; an authored name is not read. -/
def NodeMatches (node : SchemaNode) (expected : NodeProfile) : Prop :=
  profileNodeMatches node expected ∧ node.typeName.bytes = expected.typeName ∧
    ∀ name ∈ expected.fieldName, node.fieldName.bytes = name

instance (node : SchemaNode) (expected : NodeProfile) : Decidable (NodeMatches node expected) := by
  unfold NodeMatches
  infer_instance

/-- What comparing a node costs. -/
def NodeProfile.work (node : NodeProfile) : ℕ :=
  3 + node.typeLength + if node.fieldName.isSome then node.fieldLength else 0

def nodesWork (nodes : List NodeProfile) : ℕ := (nodes.map NodeProfile.work).sum

/-- The lengths of the tables are those of their names. -/
structure NodeProfile.Measured (node : NodeProfile) : Prop where
  typeName : node.typeName.length = node.typeLength
  fieldName : ∀ name ∈ node.fieldName, name.length = node.fieldLength

theorem measured_of_mem (profile : ObjectProfile) : ∀ node ∈ profile.nodes, node.Measured := by
  have htable : ∀ node ∈ profile.nodes, node.typeName.length = node.typeLength ∧
      ∀ name ∈ node.fieldName, name.length = node.fieldLength := by
    cases profile <;> decide
  exact fun node hnode => ⟨(htable node hnode).1, (htable node hnode).2⟩

section Schema

variable {schema : SerializedFileSchema} {at_ : ℕ} {d : ValueCost}

theorem bytesFormat_eq_some {actual expected : Text} (hlength : actual.length = expected.length) :
    bytesFormat actual expected at_ = some ((), d) ↔
      actual = expected ∧ d = { work := expected.length } := by
  induction actual generalizing expected at_ d with
  | nil =>
      obtain rfl : expected = [] := List.length_eq_zero_iff.mp hlength.symm
      show (pure () : Decoder ValueCost Unit) at_ = _ ↔ _
      rw [Decoder.pure_eq_some]
      exact ⟨fun h => ⟨rfl, h.2.symm⟩, fun h => ⟨rfl, h.2.symm⟩⟩
  | cons byte actual ih =>
      obtain ⟨expectedByte, expected, rfl⟩ := List.exists_cons_of_length_eq_add_one hlength.symm
      have hlength' : actual.length = expected.length := by simpa using hlength
      rw [bytesFormat]
      constructor
      · intro h
        obtain ⟨_, d₁, _, hspend, h₁, rfl⟩ := Decoder.bind_eq_some.mp h
        obtain rfl := Decoder.spend_eq_some.mp hspend
        obtain ⟨_, d₂, _, heq, h₂, rfl⟩ := Decoder.bind_eq_some.mp h₁
        obtain ⟨rfl, rfl⟩ := Decoder.require_eq_some.mp heq
        obtain ⟨rfl, rfl⟩ := (ih hlength').mp h₂
        refine ⟨rfl, ?_⟩
        ext <;> simp [Nat.add_comm]
      · rintro ⟨heq, rfl⟩
        obtain ⟨rfl, rfl⟩ := List.cons.inj heq
        refine Decoder.bind_eq_some.mpr ⟨(), _, _, Decoder.spend_eq_some.mpr rfl,
          Decoder.bind_eq_some.mpr ⟨(), _, _, Decoder.require_eq_some.mpr ⟨rfl, rfl⟩,
            (ih rfl).mpr ⟨rfl, rfl⟩, rfl⟩, ?_⟩
        ext <;> simp [Nat.add_comm]

theorem nameFormat_eq_some {actual : SchemaString} {expected : Option Text} {expectedLength : ℕ}
    (hlength : ∀ name ∈ expected, name.length = expectedLength) :
    nameFormat actual expected expectedLength at_ = some ((), d) ↔
      (∀ name ∈ expected, actual.bytes = name) ∧
        d = { work := 1 + if expected.isSome then expectedLength else 0 } := by
  cases expected with
  | none =>
      constructor
      · intro h
        obtain ⟨_, d₁, _, hspend, h₁, rfl⟩ := Decoder.bind_eq_some.mp h
        obtain rfl := Decoder.spend_eq_some.mp hspend
        obtain ⟨-, rfl⟩ := Decoder.pure_eq_some.mp h₁
        refine ⟨by simp, ?_⟩
        ext <;> simp
      · rintro ⟨-, rfl⟩
        refine Decoder.bind_eq_some.mpr ⟨(), _, _, Decoder.spend_eq_some.mpr rfl,
          Decoder.pure_eq_some.mpr ⟨rfl, rfl⟩, ?_⟩
        ext <;> simp
  | some name =>
      obtain rfl := hlength name rfl
      have hname : (∀ n ∈ some name, actual.bytes = n) ↔ actual.bytes = name := by simp
      rw [hname]
      constructor
      · intro h
        obtain ⟨_, d₁, _, hspend, h₁, rfl⟩ := Decoder.bind_eq_some.mp h
        obtain rfl := Decoder.spend_eq_some.mp hspend
        obtain ⟨_, d₂, _, hrequire, h₂, rfl⟩ := Decoder.bind_eq_some.mp h₁
        obtain ⟨hlen, rfl⟩ := Decoder.require_eq_some.mp hrequire
        obtain ⟨hbytes, rfl⟩ := (bytesFormat_eq_some hlen).mp h₂
        refine ⟨hbytes, ?_⟩
        ext <;> simp
      · rintro ⟨hbytes, rfl⟩
        refine Decoder.bind_eq_some.mpr ⟨(), _, _, Decoder.spend_eq_some.mpr rfl,
          Decoder.bind_eq_some.mpr ⟨(), _, _,
            Decoder.require_eq_some.mpr ⟨congrArg List.length hbytes, rfl⟩,
            (bytesFormat_eq_some (congrArg List.length hbytes)).mpr ⟨hbytes, rfl⟩, rfl⟩, ?_⟩
        ext <;> simp

theorem nodeFormat_eq_some {ordinal : ℕ} {expected : NodeProfile} (hmeasured : expected.Measured) :
    nodeFormat schema ordinal expected at_ = some ((), d) ↔
      NodeMatches (schemaNode schema ordinal) expected ∧ d = { work := expected.work } := by
  have htype : ∀ name ∈ some expected.typeName, name.length = expected.typeLength := by
    simpa using hmeasured.typeName
  constructor
  · intro h
    obtain ⟨_, d₁, _, hspend, h₁, rfl⟩ := Decoder.bind_eq_some.mp h
    obtain rfl := Decoder.spend_eq_some.mp hspend
    obtain ⟨_, d₂, _, hrequire, h₂, rfl⟩ := Decoder.bind_eq_some.mp h₁
    obtain ⟨hmatches, rfl⟩ := Decoder.require_eq_some.mp hrequire
    obtain ⟨_, d₃, _, hname, h₃, rfl⟩ := Decoder.bind_eq_some.mp h₂
    obtain ⟨htypeName, rfl⟩ := (nameFormat_eq_some htype).mp hname
    obtain ⟨hfieldName, rfl⟩ := (nameFormat_eq_some hmeasured.fieldName).mp h₃
    refine ⟨⟨hmatches, by simpa using htypeName, hfieldName⟩, ?_⟩
    ext <;> simp [NodeProfile.work]
    omega
  · rintro ⟨⟨hmatches, htypeName, hfieldName⟩, rfl⟩
    refine Decoder.bind_eq_some.mpr ⟨(), _, _, Decoder.spend_eq_some.mpr rfl,
      Decoder.bind_eq_some.mpr ⟨(), _, _, Decoder.require_eq_some.mpr ⟨hmatches, rfl⟩,
        Decoder.bind_eq_some.mpr ⟨(), _, _,
          (nameFormat_eq_some htype).mpr ⟨by simpa using htypeName, rfl⟩,
          (nameFormat_eq_some hmeasured.fieldName).mpr ⟨hfieldName, rfl⟩, rfl⟩, rfl⟩, ?_⟩
    ext <;> simp [NodeProfile.work]
    omega

theorem nodesFormat_eq_some {nodes : List NodeProfile} (hmeasured : ∀ node ∈ nodes, node.Measured)
    {ordinal : ℕ} :
    nodesFormat schema ordinal nodes at_ = some ((), d) ↔
      (∀ i expected, nodes[i]? = some expected →
        NodeMatches (schemaNode schema (ordinal + i)) expected) ∧
        d = { work := nodesWork nodes } := by
  induction nodes generalizing ordinal at_ d with
  | nil =>
      show (pure () : Decoder ValueCost Unit) at_ = _ ↔ _
      rw [Decoder.pure_eq_some]
      exact ⟨fun h => ⟨by simp, h.2.symm⟩, fun h => ⟨rfl, h.2.symm⟩⟩
  | cons expected rest ih =>
      obtain ⟨hfirst, hrest⟩ := List.forall_mem_cons.mp hmeasured
      have hsplit : (∀ i e, (expected :: rest)[i]? = some e →
          NodeMatches (schemaNode schema (ordinal + i)) e) ↔
          NodeMatches (schemaNode schema ordinal) expected ∧ ∀ i e, rest[i]? = some e →
            NodeMatches (schemaNode schema (ordinal + 1 + i)) e := by
        constructor
        · intro h
          refine ⟨h 0 expected rfl, fun i e hi => ?_⟩
          rw [Nat.add_assoc, Nat.add_comm 1]
          exact h (i + 1) e hi
        · rintro ⟨hzero, hsucc⟩ i e hi
          cases i with
          | zero =>
              obtain rfl : expected = e := Option.some.inj hi
              exact hzero
          | succ i =>
              rw [Nat.add_comm i, ← Nat.add_assoc]
              exact hsucc i e hi
      rw [hsplit]
      constructor
      · intro h
        obtain ⟨_, d₁, _, hfirstNode, h₁, rfl⟩ := Decoder.bind_eq_some.mp h
        obtain ⟨hnode, rfl⟩ := (nodeFormat_eq_some hfirst).mp hfirstNode
        obtain ⟨hnodes, rfl⟩ := (ih hrest).mp h₁
        refine ⟨⟨hnode, hnodes⟩, ?_⟩
        ext <;> simp [nodesWork]
      · rintro ⟨⟨hnode, hnodes⟩, rfl⟩
        refine Decoder.bind_eq_some.mpr ⟨(), _, _, (nodeFormat_eq_some hfirst).mpr ⟨hnode, rfl⟩,
          (ih hrest).mpr ⟨hnodes, rfl⟩, ?_⟩
        ext <;> simp [nodesWork]

end Schema

/-- The schema has the nodes of the profile. -/
def SchemaMatches (schema : SerializedFileSchema) (profile : ObjectProfile) : Prop :=
  ∀ ordinal expected, profile.nodes[ordinal]? = some expected →
    NodeMatches (schemaNode schema ordinal) expected

theorem SchemaMatches.qualified {schema : SerializedFileSchema} {profile : ObjectProfile}
    (h : SchemaMatches schema profile) : Qualified schema profile :=
  fun ordinal expected hnode => (h ordinal expected hnode).1

/-! ## The context of a schema without a registry -/

section Context

variable {schema : SerializedFileSchema} {kind : SchemaContextKind} {answers : ℕ → Bool} {n : ℕ}
  {maxWork : ℕ}

/-- The rejection of a query that is out of work. -/
def ContextCites (reject : SchemaContextReject) (_ : Unit) : Prop := reject.status = .workLimit

theorem needs_chargeContext {query : ContextQuery} (hs : query.workUsed ≤ maxWork)
    (field : SchemaContextField) (node : Option ℕ) (offset : ℕ) :
    (chargeContext maxWork field node offset).Needs (fun q => q.workUsed ≤ maxWork) ContextCites
      answers query n (fun _ => maxWork < query.workUsed + 1) ()
      { query with workUsed := query.workUsed + 1 } n := by
  unfold chargeContext
  by_cases hfull : query.workUsed = maxWork
  · refine Or.inr ⟨_, query, n, (), Call.bind_eq_error.mpr (Or.inr ⟨_, _, _, rfl,
      Call.bind_eq_error.mpr (Or.inl (if_neg (not_not.mpr hfull)))⟩), hs, rfl, by omega⟩
  · exact Or.inl ⟨fun _ => by omega, Call.bind_eq_ok.mpr ⟨_, _, _, rfl,
      Call.require_bind_eq_ok.mpr ⟨hfull, rfl⟩⟩⟩

/-- A node without the registry bit only counts. -/
theorem needs_inspectNodes (count ordinal : ℕ) {query : ContextQuery}
    (hclear : ∀ i, ordinal ≤ i → i < ordinal + count →
      (schemaNode schema i).typeFlags &&& registryFlags = 0)
    (hcount : ordinal + count = schema.view.nodeCount) (hs : query.workUsed ≤ maxWork) :
    (inspectNodes schema maxWork ordinal count (schema.contextAfter kind ordinal none)).Needs
      (fun q => q.workUsed ≤ maxWork) ContextCites answers query n
      (fun _ => maxWork < query.workUsed + count)
      (schema.contextAfter kind schema.view.nodeCount none)
      { query with workUsed := query.workUsed + count } n := by
  induction count generalizing ordinal query with
  | zero =>
      obtain rfl : ordinal = schema.view.nodeCount := hcount
      exact Or.inl ⟨fun _ => by omega, rfl⟩
  | succ count ih =>
      have hnode : (if ordinal = 0 then { schema.contextAfter kind ordinal none with
            firstChild := (schemaNode schema ordinal).firstChild }
          else schema.contextAfter kind ordinal none) =
            schema.contextAfter kind (ordinal + 1) none := by
        by_cases hzero : ordinal = 0
        · subst hzero
          have hpos : 0 < schema.view.nodeCount := by omega
          rw [if_pos rfl, SerializedFileSchema.contextAfter, SerializedFileSchema.contextAfter,
            if_neg (Nat.succ_ne_zero 0), schemaNode, SerializedFileSchema.node, if_pos hpos, nodeAt,
            List.getD_eq_getElem?_getD]
        · rw [if_neg hzero, SerializedFileSchema.contextAfter, SerializedFileSchema.contextAfter,
            if_neg hzero, if_neg (Nat.succ_ne_zero ordinal)]
      refine (needs_chargeContext hs _ _ _).bind_as (fun _ => maxWork < query.workUsed + 1 + count)
        (fun _ => by omega) fun hroom => ?_
      have hsound : ({ query with workUsed := query.workUsed + 1 } : ContextQuery).workUsed ≤
        maxWork := Nat.le_of_not_lt (hroom ())
      have hrest := ih (ordinal + 1) (fun i hle hlt => hclear i (by omega) (by omega)) (by omega)
        hsound
      have hinspect : ∀ context, inspectRegistryNode (schemaNode schema ordinal)
          schema.view.nodeCount context = pure context := fun context =>
        if_pos (hclear ordinal le_rfl (by omega))
      have hstep : (inspectRegistryNode (schemaNode schema ordinal) schema.view.nodeCount
          (schema.contextAfter kind (ordinal + 1) none) >>=
            inspectNodes schema maxWork (ordinal + 1) count) =
          inspectNodes schema maxWork (ordinal + 1) count
            (schema.contextAfter kind (ordinal + 1) none) := by
        rw [hinspect, Call.pure_bind]
      have hused : query.workUsed + 1 + count = query.workUsed + (count + 1) := by omega
      rw [← hstep, ← hnode] at hrest
      rw [← hused]
      exact hrest

/-- **A schema without a registry has a context**, for a unit of work for each node
and two more. -/
theorem needs_queryContext
    (hclear : ∀ i, i < schema.view.nodeCount →
      (schemaNode schema i).typeFlags &&& registryFlags = 0)
    (hentry : schema.view.typeEntrySource.offset + schema.view.typeEntrySource.size ≤ sizeMax)
    (hrow : schema.view.rowKind = .ordinaryType) :
    (queryContext schema .ordinaryObject maxWork).Needs (fun q => q.workUsed ≤ maxWork) ContextCites
      answers {} n (fun _ => maxWork < schema.view.nodeCount + 2)
      (schema.contextOf .ordinaryObject none)
      ⟨some schema.view.typeOrdinal, schema.view.nodeCount + 2⟩ n := by
  have hnodes : ∀ query : ContextQuery, query.workUsed ≤ maxWork →
      (inspectNodes schema maxWork 0 schema.view.nodeCount
        (schema.contextAfter .ordinaryObject 0 none)).Needs (fun q => q.workUsed ≤ maxWork)
        ContextCites answers query n (fun _ => maxWork < query.workUsed + schema.view.nodeCount)
        (schema.contextAfter .ordinaryObject schema.view.nodeCount none)
        { query with workUsed := query.workUsed + schema.view.nodeCount } n := fun query hs =>
    needs_inspectNodes schema.view.nodeCount 0 (fun i _ hi => hclear i (by omega))
      (Nat.zero_add _) hs
  have hspan : schema.view.typeEntrySource.offset ≤ sizeMax ∧
    schema.view.typeEntrySource.size ≤ sizeMax - schema.view.typeEntrySource.offset := by omega
  have hused : schema.view.nodeCount + 2 = 0 + 1 + schema.view.nodeCount + 1 := by omega
  unfold queryContext
  rw [hused]
  refine Call.Needs.short_congr ((Call.needs_require_true hspan _).bind fun _ =>
    (Call.needs_modify _).bind fun _ => (Call.needs_require_true hrow _).bind fun _ =>
    (needs_chargeContext (Nat.zero_le _) _ _ _).bind fun hfirst =>
    (hnodes _ (Nat.le_of_not_lt (hfirst ()))).bind fun hroom =>
    (needs_chargeContext (Nat.le_of_not_lt (hroom ())) _ _ _).bind fun _ =>
    Call.needs_pure _) fun k => ?_
  simp only [false_or, or_false]
  omega

theorem maintains_queryContext :
    Call.Maintains answers (fun q : ContextQuery => q.workUsed ≤ maxWork)
      (queryContext schema kind maxWork) := by
  have hcharge : ∀ field node offset, Call.Maintains answers
      (fun q : ContextQuery => q.workUsed ≤ maxWork) (chargeContext maxWork field node offset) := by
    intro field node offset
    refine Call.Maintains.reading fun query hs => Call.Triple.requiring (fun _ => hs) fun hroom =>
      Call.Triple.replace fun _ _ => ?_
    show query.workUsed + 1 ≤ maxWork
    omega
  have hinspect : ∀ node nodeCount context, Call.Maintains answers
      (fun q : ContextQuery => q.workUsed ≤ maxWork)
      (inspectRegistryNode node nodeCount context) := by
    intro node nodeCount context
    unfold inspectRegistryNode
    split
    · exact Call.Maintains.pure _
    · exact (Call.Maintains.require _ _).bind fun _ => (Call.Maintains.require _ _).bind fun _ =>
        Call.Maintains.pure _
  have hnodes : ∀ count ordinal context, Call.Maintains answers
      (fun q : ContextQuery => q.workUsed ≤ maxWork)
      (inspectNodes schema maxWork ordinal count context) := by
    intro count
    induction count with
    | zero => exact fun _ _ => Call.Maintains.pure _
    | succ count ih =>
        exact fun ordinal _ => (hcharge _ _ _).bind fun _ => (hinspect _ _ _).bind fun _ => ih _ _
  refine (Call.Maintains.require _ _).bind fun _ =>
    Call.Maintains.modifying (fun _ hs => hs) <| (Call.Maintains.require _ _).bind fun _ =>
    (hcharge _ _ _).bind fun _ => (hnodes _ _ _).bind fun context => (hcharge _ _ _).bind fun _ => ?_
  cases kind <;> cases context.registry <;> exact Call.Maintains.pure _

end Context

end UnityCommon.Values
