import UnityCommon.SerializedFile.SchemaNames

/-!
# Constructing a schema

What a schema is made of apart from the work, and what its construction is short
of otherwise.
-/

namespace UnityCommon.Metadata

open UnityCommon.TypeTree

/-- What a construction can be short of, with its other limits fixed. -/
inductive SchemaResource where
  | work
  | storage
  | scratch
deriving DecidableEq, Repr

/-- The resource that a rejection reports. -/
def SchemaReject.Blames (reject : SchemaReject) : SchemaResource → Prop
  | .work => reject.status = .limitExceeded ∧ reject.limit = .work
  | .storage => reject.status = .allocationFailed
  | .scratch => reject.status = .allocationFailed

def SchemaCompile.Within (maxWork : ℕ) (compile : SchemaCompile) : Prop :=
  compile.workUsed ≤ maxWork

@[simp] theorem SchemaCompile.charged_workUsed (compile : SchemaCompile) (amount : ℕ) :
    (compile.charged amount).workUsed = compile.workUsed + amount := rfl

/-- The work does not cover a total. -/
def schemaWorkShort (maxWork total : ℕ) (k : SchemaResource) : Prop :=
  k = .work ∧ maxWork < total

theorem room_schemaWorkShort {maxWork total : ℕ} :
    (∀ k, ¬ schemaWorkShort maxWork total k) ↔ total ≤ maxWork := by
  simp [schemaWorkShort]

/-! ## What is compiled -/

/-- The view of a row that has a tree, in a supported engine. -/
def SchemaParent.schemaView (parent : SchemaParent) (ordinal : ℕ) : Option SchemaView :=
  if parent.directoryView.engineVersion = .engine2021_3_35f1 then
    (parent.row ordinal).bind fun row =>
      row.tree.map fun tree => row.view tree parent.directoryView ordinal
  else none

namespace SchemaView

variable (view : SchemaView) (mapped : Text)

def record : ℕ → SchemaNode :=
  decodeSchemaNode mapped view.prefixView.header.endianSelector view.tree.nodesSource

def localStrings : Text := view.tree.stringsSource.bytes mapped

def table : NodeTable := (nodeTable (view.record mapped) view.nodeCount).close view.nodeCount

def name : NameRequest → Option SchemaString :=
  requestName (view.localStrings mapped) view.tree.stringsSource.offset

/-- Both names of every record resolve. -/
def NamesResolve : Prop :=
  ∀ request ∈ (view.table mapped).requests, (view.name mapped request).isSome

instance : Decidable (view.NamesResolve mapped) := by
  unfold NamesResolve
  infer_instance

/-- The limits other than the work admit the tree. -/
structure Admitted (limits : SchemaLimits) (knownSize : ℕ) (retainedBytes scratchBytes : ℕ) :
    Prop where
  known : knownSize ≤ sizeMax
  nodes : view.tree.nodeCount.toNat ≤ limits.maxNodes
  strings : view.tree.stringByteCount.toNat ≤ limits.maxLocalStringBytes
  backed : treeIsBacked knownSize view.tree
  layout : schemaLayout view.nodeCount = some retainedBytes
  retained : retainedBytes ≤ limits.maxRetainedBytes
  scratchLayout : scratchLayout view.nodeCount = some scratchBytes
  scratch : scratchBytes ≤ limits.maxScratchBytes
  levels : LevelsFit (view.record mapped) limits.maxDepth 0 view.nodeCount
  names : view.NamesResolve mapped

/-- The work of the construction. -/
def workUsed (retainedBytes scratchBytes : ℕ) : ℕ :=
  retainedBytes + scratchBytes + 52 * view.nodeCount + (view.localStrings mapped).length +
    commonStringTable.length + 2051

def schema (retainedBytes : ℕ) : SerializedFileSchema where
  view := { view with maximumDepth := (view.table mapped).maximumDepth, retainedBytes }
  nodes := (view.table mapped).nodes.map (SchemaNode.named (view.name mapped))

def finalState (ordinal retainedBytes scratchBytes : ℕ) : SchemaCompile where
  typeOrdinal := some ordinal
  workUsed := view.workUsed mapped retainedBytes scratchBytes
  requiredRetainedBytes := retainedBytes
  requiredScratchBytes := scratchBytes
  peakRetainedBytes := retainedBytes
  peakScratchBytes := scratchBytes

end SchemaView

/-! ## Steps -/

section Steps

variable {limits : SchemaLimits} {compile : SchemaCompile} {answers : ℕ → Bool} {n : ℕ}

/-- What follows a decoder needs its work. -/
theorem needs_schema {α : Type} {x : Call SchemaReject SchemaCompile α} {P : Decoder Work α} {a : α}
    {d : Work} (h : (schemaMeter limits.maxWork).Follows SchemaReject.CitesWork compile x P)
    (hP : P 0 = some (a, d)) (answers : ℕ → Bool) (n : ℕ) :
    x.Needs (SchemaCompile.Within limits.maxWork) SchemaReject.Blames answers compile n
      (schemaWorkShort limits.maxWork (compile.workUsed + d.units)) a (compile.charged d.units)
      n := by
  refine (h.needs hP answers n).map (fun u hu => hu) (fun e k hc hk => ?_) fun hroom k hk => ?_
  · exact ⟨.work, hc, rfl, hk⟩
  · exact hroom () hk.2

theorem stops_schema {α : Type} {x : Call SchemaReject SchemaCompile α} {P : Decoder Work α}
    (h : (schemaMeter limits.maxWork).Follows SchemaReject.CitesWork compile x P)
    (hP : P 0 = none) (answers : ℕ → Bool) (n : ℕ) :
    x.Stops (SchemaCompile.Within limits.maxWork) answers compile n :=
  (h.stops hP answers n).mono fun _ hu => hu

theorem needs_chargeSchemaOwner (hs : compile.Within limits.maxWork) (amount : ℕ)
    (answers : ℕ → Bool) (n : ℕ) :
    (chargeSchemaOwner limits amount).Needs (SchemaCompile.Within limits.maxWork)
      SchemaReject.Blames answers compile n
      (schemaWorkShort limits.maxWork (compile.workUsed + amount)) () (compile.charged amount) n :=
  needs_schema (follows_chargeSchema hs amount _ _ _ _) rfl answers n

/-- Storage for the result or the scratch. -/
theorem needs_requestSchema (hs : compile.Within limits.maxWork) {k : SchemaResource}
    (hk : k = .storage ∨ k = .scratch) (answers : ℕ → Bool) (n : ℕ) :
    (Call.request (rejectSchemaOwner .allocationFailed .none)).Needs
      (SchemaCompile.Within limits.maxWork) SchemaReject.Blames answers compile n
      (fun k' => k' = k ∧ answers n = false) () compile (n + 1) := by
  refine Call.needs_request hs ?_ fun hdenied => ⟨k, ?_, rfl, hdenied⟩
  · simp
  · rcases hk with rfl | rfl <;> rfl

end Steps

section Construction

variable {limits : SchemaLimits} {mapped : Text} {parent : SchemaParent} {ordinal : ℕ}
  {view : SchemaView} {retainedBytes scratchBytes : ℕ}

theorem schemaView_eq_some (h : parent.schemaView ordinal = some view) :
    parent.directoryView.engineVersion = .engine2021_3_35f1 ∧
      ∃ row tree, parent.row ordinal = some row ∧ row.tree = some tree ∧
        view = row.view tree parent.directoryView ordinal := by
  unfold SchemaParent.schemaView at h
  split at h
  · next hengine =>
      obtain ⟨row, hrow, hview⟩ := Option.bind_eq_some_iff.mp h
      obtain ⟨tree, htree, rfl⟩ := Option.map_eq_some_iff.mp hview
      exact ⟨hengine, row, tree, hrow, htree, rfl⟩
  · cases h

theorem selectSchemaRow_of_view (h : parent.schemaView ordinal = some view) (answers : ℕ → Bool)
    (compile : SchemaCompile) (n : ℕ) :
    selectSchemaRow parent ordinal answers compile n =
      .ok view { compile with typeOrdinal := some ordinal } n := by
  obtain ⟨hengine, row, tree, hrow, htree, rfl⟩ := schemaView_eq_some h
  unfold selectSchemaRow
  rw [hrow]
  refine Call.require_bind_eq_ok.mpr ⟨hengine, ?_⟩
  refine Call.bind_eq_ok.mpr ⟨row, _, _, rfl, Call.bind_eq_ok.mpr ⟨(), _, _, rfl, ?_⟩⟩
  rw [htree]
  rfl

/-- The requests, before and after they are sorted. -/
theorem table_requests (view : SchemaView) (mapped : Text) :
    (view.table mapped).requests =
      (List.range view.nodeCount).flatMap fun i => nodeRequests (view.record mapped i) :=
  nodeTable_requests _ _

theorem table_flatMap (view : SchemaView) (mapped : Text) :
    (view.table mapped).nodes.flatMap nodeRequests = (view.table mapped).requests := by
  have hunlinked := close_unlinked (view.record mapped) view.nodeCount
  calc (view.table mapped).nodes.flatMap nodeRequests
      = ((view.table mapped).nodes.map SchemaNode.unlinked).flatMap nodeRequests := by
        rw [List.flatMap_map]
        rfl
    _ = (view.table mapped).requests := by
        rw [SchemaView.table, hunlinked, List.flatMap_map, ← SchemaView.table, table_requests]
        rfl

theorem table_ordinals (view : SchemaView) (mapped : Text) :
    OrdinalsFrom 0 (view.table mapped).nodes := by
  intro i node hnode
  have hunlinked : ((view.table mapped).nodes.map SchemaNode.unlinked)[i]? =
      some node.unlinked := by
    rw [List.getElem?_map, hnode]
    rfl
  rw [SchemaView.table, close_unlinked, List.getElem?_map] at hunlinked
  obtain ⟨j, hj, hrecord⟩ := Option.map_eq_some_iff.mp hunlinked
  obtain ⟨hlt, hget⟩ := List.getElem?_eq_some_iff.mp hj
  rw [List.getElem_range] at hget
  subst hget
  have hordinal : (view.record mapped i).unlinked.ordinal = node.unlinked.ordinal := by rw [hrecord]
  rw [Nat.zero_add]
  exact hordinal.symm

theorem length_table_requests (view : SchemaView) (mapped : Text) :
    (view.table mapped).requests.length = 2 * view.nodeCount := by
  rw [table_requests, List.length_flatMap]
  simp [nodeRequests, Nat.mul_comm]

/-- The nodes, the sort, the names and the publication. -/
def compileSchema (limits : SchemaLimits) (mapped : Text) (view : SchemaView)
    (retainedBytes : ℕ) : Call SchemaReject SchemaCompile SerializedFileSchema := do
  let table ← compileNodes limits mapped view.prefixView.header.endianSelector
    view.tree.nodesSource view.nodeCount
  let requests ← sortNameRequests limits table.requests
  let nodes ← resolveNames limits mapped view.tree.stringsSource requests table.nodes
  chargeSchemaOwner limits 1
  return { view := { view with maximumDepth := table.maximumDepth, retainedBytes }, nodes }

def compileWork (view : SchemaView) (mapped : Text) : ℕ :=
  52 * view.nodeCount + (view.localStrings mapped).length + commonStringTable.length + 2049

theorem sorted_table (view : SchemaView) (mapped : Text) :
    NameRequest.Sorted (sortedRequests (view.table mapped).requests radixPasses) :=
  sortedRequests_sorted _

theorem sorted_perm (view : SchemaView) (mapped : Text) :
    (sortedRequests (view.table mapped).requests radixPasses).Perm
      ((view.table mapped).nodes.flatMap nodeRequests) := by
  rw [table_flatMap]
  exact sortedRequests_perm _ (Nat.le_refl _)

theorem namesPlan_of_some {name : NameRequest → Option SchemaString} {requests : List NameRequest}
    {nodes stored : List SchemaNode} (h : storeNames name requests nodes = some stored) (at_ : ℕ) :
    namesPlan name requests nodes at_ = some (stored, ⟨requests.length⟩ + 0) := by
  rw [namesPlan, h]
  rfl

theorem charged_charged (compile : SchemaCompile) (amount more : ℕ) :
    (compile.charged amount).charged more = compile.charged (amount + more) :=
  schemaCounter.charged_charged compile amount more

theorem needs_compileSchema {compile : SchemaCompile} (hs : compile.Within limits.maxWork)
    (hlevels : LevelsFit (view.record mapped) limits.maxDepth 0 view.nodeCount)
    (hnames : view.NamesResolve mapped) (answers : ℕ → Bool) (n : ℕ) :
    (compileSchema limits mapped view retainedBytes).Needs
      (SchemaCompile.Within limits.maxWork) SchemaReject.Blames answers compile n
      (schemaWorkShort limits.maxWork (compile.workUsed + compileWork view mapped))
      (view.schema mapped retainedBytes) (compile.charged (compileWork view mapped)) n := by
  have hnodes := needs_schema (follows_compileNodes limits mapped
    view.prefixView.header.endianSelector view.tree.nodesSource view.nodeCount hs)
    (nodesPlan_of_fit hlevels 0) answers n
  have hsort := fun (compile : SchemaCompile) (hs : compile.Within limits.maxWork) =>
    needs_schema (follows_sortNameRequests (view.table mapped).requests hs) rfl answers n
  have hstored : storeNames (view.name mapped)
      (sortedRequests (view.table mapped).requests radixPasses) (view.table mapped).nodes =
      some (view.schema mapped retainedBytes).nodes := by
    refine storeNames_of_perm (sorted_perm view mapped) (table_ordinals view mapped) ?_
    rw [table_flatMap]
    exact hnames
  have hresolve := fun (compile : SchemaCompile) (hs : compile.Within limits.maxWork) =>
    needs_schema (follows_resolveNames mapped view.tree.stringsSource (sorted_table view mapped)
      (view.table mapped).nodes hs) (Work.spend_bind (namesPlan_of_some hstored 0)) answers n
  have hlength : (sortedRequests (view.table mapped).requests radixPasses).length =
      2 * view.nodeCount := by
    rw [(sortedRequests_perm _ (Nat.le_refl _)).length_eq, length_table_requests]
  have hrequests := length_table_requests view mapped
  -- what the four steps cost
  obtain ⟨nodesWork, hnodesWork⟩ : ∃ work, work = (nodeBytes + 2) * view.nodeCount := ⟨_, rfl⟩
  obtain ⟨sortWork, hsortWork⟩ : ∃ work,
    work = radixPasses * (2 * radixBuckets + 2 * (view.table mapped).requests.length) := ⟨_, rfl⟩
  obtain ⟨namesWork, hnamesWork⟩ : ∃ work, work =
    (view.localStrings mapped).length + commonStringTable.length +
      (sortedRequests (view.table mapped).requests radixPasses).length := ⟨_, rfl⟩
  have hwork : compileWork view mapped = nodesWork + sortWork + namesWork + 1 := by
    rw [hnodesWork, hsortWork, hnamesWork, hlength, hrequests, compileWork]
    simp only [nodeBytes, radixPasses, radixBuckets]
    omega
  have hstate : compile.charged (compileWork view mapped) =
      (((compile.charged nodesWork).charged sortWork).charged namesWork).charged 1 := by
    rw [charged_charged, charged_charged, charged_charged, hwork, Nat.add_assoc, Nat.add_assoc]
  rw [hstate, hnodesWork, hsortWork, hnamesWork]
  refine (hnodes.bind fun hroom => (hsort _ (room_schemaWorkShort.mp hroom)).bind fun hroom =>
    (hresolve _ (room_schemaWorkShort.mp hroom)).bind fun hroom =>
    (needs_chargeSchemaOwner (room_schemaWorkShort.mp hroom) 1 answers n).bind fun _ =>
    Call.needs_pure (view.schema mapped retainedBytes)).short_congr fun k => ?_
  rw [SchemaView.localStrings] at hnamesWork
  simp only [schemaWorkShort, SchemaCompile.charged_workUsed, Work.add_units, Work.zero_units,
    ← hnodesWork, ← hsortWork, or_false, Nat.add_zero, hwork, ← hnamesWork]
  by_cases hk : k = .work
  · simp only [hk, true_and]
    omega
  · simp only [hk, false_and, or_self]

/-- Levels that are no preorder, or too deep, or a name that does not resolve. -/
theorem stops_compileSchema {compile : SchemaCompile} (hs : compile.Within limits.maxWork)
    (h : LevelsFit (view.record mapped) limits.maxDepth 0 view.nodeCount →
      ¬ view.NamesResolve mapped) (answers : ℕ → Bool) (n : ℕ) :
    (compileSchema limits mapped view retainedBytes).Stops
      (SchemaCompile.Within limits.maxWork) answers compile n := by
  have hnodes := follows_compileNodes limits mapped view.prefixView.header.endianSelector
    view.tree.nodesSource view.nodeCount hs
  by_cases hlevels : LevelsFit (view.record mapped) limits.maxDepth 0 view.nodeCount
  · have hnone : storeNames (view.name mapped)
        (sortedRequests (view.table mapped).requests radixPasses) (view.table mapped).nodes =
        none := by
      have hmissing := h hlevels
      simp only [SchemaView.NamesResolve, not_forall] at hmissing
      obtain ⟨request, hmem, hname⟩ := hmissing
      have hsorted := (sortedRequests_perm (view.table mapped).requests (Nat.le_refl _)).mem_iff.mpr
        hmem
      exact storeNames_eq_none hsorted (Option.not_isSome_iff_eq_none.mp hname) _
    refine (needs_schema hnodes (nodesPlan_of_fit hlevels 0) answers n).stops_bind fun hroom => ?_
    have hs := room_schemaWorkShort.mp hroom
    refine (needs_schema (follows_sortNameRequests (view.table mapped).requests hs) rfl answers
      n).stops_bind fun hroom => ?_
    have hs := room_schemaWorkShort.mp hroom
    refine (stops_schema (follows_resolveNames mapped view.tree.stringsSource
      (sorted_table view mapped) (view.table mapped).nodes hs) ?_ answers n).bind
    refine Decoder.bind_eq_none.mpr (Or.inr ⟨(), _, rfl, ?_⟩)
    refine Decoder.bind_eq_none.mpr (Or.inr ⟨(), _, rfl, ?_⟩)
    show Decoder.ofOption (storeNames (view.name mapped) _ _) _ = none
    rw [hnone]
    rfl
  · exact (stops_schema hnodes (nodesPlan_of_unfit hlevels 0) answers n).bind

/-! ## The construction -/

/-- Storage, scratch and what is compiled into them. -/
def constructSchema (limits : SchemaLimits) (mapped : Text) (view : SchemaView)
    (storage : ℕ × ℕ) : Call SchemaReject SchemaCompile SerializedFileSchema := do
  chargeSchemaOwner limits storage.1
  Call.request (rejectSchemaOwner .allocationFailed .none)
  Call.modify fun compile => { compile with peakRetainedBytes := storage.1 }
  chargeSchemaOwner limits storage.2
  Call.request (rejectSchemaOwner .allocationFailed .none)
  Call.modify fun compile => { compile with peakScratchBytes := storage.2 }
  compileSchema limits mapped view storage.1

theorem createSchema_eq (mapped : Text) (parent : SchemaParent) (ordinal : ℕ)
    (limits : SchemaLimits) :
    createSchema mapped parent ordinal limits =
      (Call.require (parent.stop ≤ sizeMax) (rejectSchemaOwner .invalidState .none) >>= fun _ =>
        chargeSchemaOwner limits 1 >>= fun _ =>
        selectSchemaRow parent ordinal >>= fun view =>
        admitTree limits parent.stop view.tree >>= fun _ =>
        planSchemaStorage limits view.nodeCount >>= fun storage =>
        constructSchema limits mapped view storage) := rfl

/-- What is missing before the nodes are compiled. -/
theorem needs_planSchemaStorage {compile : SchemaCompile} {nodeCount : ℕ}
    (hs : compile.Within limits.maxWork) (hlayout : schemaLayout nodeCount = some retainedBytes)
    (hretained : retainedBytes ≤ limits.maxRetainedBytes)
    (hscratchLayout : scratchLayout nodeCount = some scratchBytes)
    (hscratch : scratchBytes ≤ limits.maxScratchBytes) (answers : ℕ → Bool) (n : ℕ) :
    (planSchemaStorage limits nodeCount).Needs (SchemaCompile.Within limits.maxWork)
      SchemaReject.Blames answers compile n
      (schemaWorkShort limits.maxWork (compile.workUsed + 1)) (retainedBytes, scratchBytes)
      { compile.charged 1 with
        requiredRetainedBytes := retainedBytes
        requiredScratchBytes := scratchBytes } n := by
  unfold planSchemaStorage
  rw [hlayout, hscratchLayout]
  refine ((needs_chargeSchemaOwner hs 1 answers n).bind fun hroom =>
    (Call.needs_ofOption_some retainedBytes _).bind fun _ => (Call.needs_modify _).bind fun _ =>
    (Call.needs_require_true hretained _).bind fun _ =>
    (Call.needs_ofOption_some scratchBytes _).bind fun _ => (Call.needs_modify _).bind fun _ =>
    (Call.needs_require_true hscratch _).bind fun _ =>
    Call.needs_pure (retainedBytes, scratchBytes)).short_congr fun k => ?_
  simp only [or_false]

/-- What the construction is short of. -/
def schemaShort (maxWork total : ℕ) (answers : ℕ → Bool) (n : ℕ) : SchemaResource → Prop
  | .work => maxWork < total
  | .storage => answers n = false
  | .scratch => answers (n + 1) = false

theorem admitTree_ok {compile : SchemaCompile} {tree : DirectoryTree}
    (hnodes : tree.nodeCount.toNat ≤ limits.maxNodes)
    (hstrings : tree.stringByteCount.toNat ≤ limits.maxLocalStringBytes)
    (hbacked : treeIsBacked parent.stop tree) (answers : ℕ → Bool) (n : ℕ) :
    admitTree limits parent.stop tree answers compile n = .ok () compile n :=
  Call.require_bind_eq_ok.mpr ⟨hnodes, Call.require_bind_eq_ok.mpr ⟨hstrings, if_pos hbacked⟩⟩

theorem needs_constructSchema {compile : SchemaCompile} (hs : compile.Within limits.maxWork)
    (hlevels : LevelsFit (view.record mapped) limits.maxDepth 0 view.nodeCount)
    (hnames : view.NamesResolve mapped) (answers : ℕ → Bool) (n : ℕ) :
    (constructSchema limits mapped view (retainedBytes, scratchBytes)).Needs
      (SchemaCompile.Within limits.maxWork) SchemaReject.Blames answers compile n
      (schemaShort limits.maxWork
        (compile.workUsed + retainedBytes + scratchBytes + compileWork view mapped) answers n)
      (view.schema mapped retainedBytes)
      { compile with
        workUsed := compile.workUsed + retainedBytes + scratchBytes + compileWork view mapped
        peakRetainedBytes := retainedBytes
        peakScratchBytes := scratchBytes } (n + 2) := by
  refine (needs_chargeSchemaOwner hs retainedBytes answers n).bind_as (fun k =>
    (k = .storage ∧ answers n = false) ∨ False ∨
      schemaWorkShort limits.maxWork (compile.workUsed + retainedBytes + scratchBytes) k ∨
      (k = .scratch ∧ answers (n + 1) = false) ∨ False ∨
      schemaWorkShort limits.maxWork
        (compile.workUsed + retainedBytes + scratchBytes + compileWork view mapped) k)
    (fun k => ?_) fun hroom => ?_
  · cases k
    all_goals simp [schemaShort, schemaWorkShort]
    omega
  · have hretained : SchemaCompile.Within limits.maxWork (compile.charged retainedBytes) :=
      room_schemaWorkShort.mp hroom
    have hstored : SchemaCompile.Within limits.maxWork
        { compile.charged retainedBytes with peakRetainedBytes := retainedBytes } := hretained
    refine (needs_requestSchema hretained (Or.inl rfl) answers n).bind fun _ => ?_
    refine (Call.needs_modify _).bind fun _ => ?_
    refine (needs_chargeSchemaOwner hstored scratchBytes answers (n + 1)).bind fun hroom => ?_
    have hscratch : SchemaCompile.Within limits.maxWork (SchemaCompile.charged
        { compile.charged retainedBytes with peakRetainedBytes := retainedBytes } scratchBytes) :=
      room_schemaWorkShort.mp hroom
    have hready : SchemaCompile.Within limits.maxWork
        { SchemaCompile.charged
          { compile.charged retainedBytes with peakRetainedBytes := retainedBytes } scratchBytes with
          peakScratchBytes := scratchBytes } := hscratch
    refine (needs_requestSchema hscratch (Or.inr rfl) answers (n + 1)).bind fun _ => ?_
    refine (Call.needs_modify _).bind fun _ => ?_
    exact needs_compileSchema hready hlevels hnames answers (n + 2)

theorem nodeCount_of_view (h : parent.schemaView ordinal = some view) :
    view.nodeCount = view.tree.nodeCount.toNat := by
  obtain ⟨-, row, tree, -, -, rfl⟩ := schemaView_eq_some h
  rfl

theorem stops_selectSchemaRow (h : parent.schemaView ordinal = none) (answers : ℕ → Bool)
    {compile : SchemaCompile} (hs : compile.Within limits.maxWork) (n : ℕ) :
    (selectSchemaRow parent ordinal).Stops (SchemaCompile.Within limits.maxWork) answers compile
      n := by
  unfold selectSchemaRow
  unfold SchemaParent.schemaView at h
  by_cases hengine : parent.directoryView.engineVersion = .engine2021_3_35f1
  · rw [if_pos hengine] at h
    refine Call.Stops.require_bind hengine ?_
    cases hrow : parent.row ordinal with
    | none => exact Call.Stops.bind ⟨_, _, _, rfl, hs⟩
    | some row =>
        rw [hrow, Option.bind_some, Option.map_eq_none_iff] at h
        refine Call.Stops.bind_ok rfl (Call.Stops.bind_ok rfl (Call.Stops.bind ?_))
        rw [h]
        exact ⟨_, _, _, rfl, hs⟩
  · exact (Call.stops_require hs hengine _).bind

theorem appendArray_aligned {total alignment count width : ℕ} (halign : total % alignment = 0)
    (hfit : total + count * width ≤ sizeMax) :
    appendArray total alignment count width = some (total + count * width) := by
  have hpadding : (if total % alignment ≠ 0 then alignment - total % alignment else 0) = 0 :=
    if_neg (not_not.mpr halign)
  unfold appendArray
  dsimp only
  rw [hpadding, if_neg (by omega), if_neg (by omega), Nat.add_zero]

/-- The layouts of a count that a record can state. -/
theorem schemaLayout_eq {nodeCount : ℕ} (h : nodeCount < 2 ^ 32) :
    schemaLayout nodeCount = some (840 + nodeCount * 168) :=
  appendArray_aligned rfl (by simp only [schemaStorageSize, schemaNodeSize, sizeMax]; omega)

theorem scratchLayout_eq {nodeCount : ℕ} (h : nodeCount < 2 ^ 32) :
    scratchLayout nodeCount = some (64 * nodeCount) := by
  have hhalf : appendArray 0 8 (nodeCount * namesPerNode) nameRequestSize =
      some (0 + nodeCount * namesPerNode * nameRequestSize) :=
    appendArray_aligned rfl (by simp only [namesPerNode, nameRequestSize, sizeMax]; omega)
  have hcount : ¬ sizeMax < nodeCount * namesPerNode := by
    simp only [namesPerNode, sizeMax]
    omega
  have htotal : ¬ sizeMax < (0 + nodeCount * namesPerNode * nameRequestSize) * 2 := by
    simp only [namesPerNode, nameRequestSize, sizeMax]
    omega
  have hscratch : (0 + nodeCount * namesPerNode * nameRequestSize) * 2 = 64 * nodeCount := by
    simp only [namesPerNode, nameRequestSize]
    omega
  unfold scratchLayout
  rw [if_neg hcount, hhalf]
  show (if sizeMax < (0 + nodeCount * namesPerNode * nameRequestSize) * 2 then none else _) = _
  rw [if_neg htotal, ← hscratch]
  rfl

theorem stops_admitTree {compile : SchemaCompile} (hs : compile.Within limits.maxWork)
    {knownSize : ℕ} {tree : DirectoryTree}
    (h : ¬ (tree.nodeCount.toNat ≤ limits.maxNodes ∧
      tree.stringByteCount.toNat ≤ limits.maxLocalStringBytes ∧ treeIsBacked knownSize tree))
    (answers : ℕ → Bool) (n : ℕ) :
    (admitTree limits knownSize tree).Stops (SchemaCompile.Within limits.maxWork) answers compile
      n := by
  unfold admitTree
  by_cases hnodes : tree.nodeCount.toNat ≤ limits.maxNodes
  · refine Call.Stops.require_bind hnodes ?_
    by_cases hstrings : tree.stringByteCount.toNat ≤ limits.maxLocalStringBytes
    · refine Call.Stops.require_bind hstrings (Call.stops_require hs ?_ _)
      exact fun hbacked => h ⟨hnodes, hstrings, hbacked⟩
    · exact (Call.stops_require hs hstrings _).bind
  · exact (Call.stops_require hs hnodes _).bind

/-- The layouts never overflow, so that only their limits can refuse them. -/
theorem stops_planSchemaStorage {compile : SchemaCompile} {nodeCount : ℕ}
    (hs : compile.Within limits.maxWork) (hcount : nodeCount < 2 ^ 32)
    (h : ¬ (840 + nodeCount * 168 ≤ limits.maxRetainedBytes ∧
      64 * nodeCount ≤ limits.maxScratchBytes)) (answers : ℕ → Bool) (n : ℕ) :
    (planSchemaStorage limits nodeCount).Stops (SchemaCompile.Within limits.maxWork) answers compile
      n := by
  unfold planSchemaStorage
  rw [schemaLayout_eq hcount, scratchLayout_eq hcount]
  refine (needs_chargeSchemaOwner hs 1 answers n).stops_bind fun hroom => ?_
  have hcharged : SchemaCompile.Within limits.maxWork (compile.charged 1) :=
    room_schemaWorkShort.mp hroom
  refine Call.Stops.bind_ok rfl (Call.Stops.bind_ok rfl ?_)
  have hrequired : SchemaCompile.Within limits.maxWork
      { compile.charged 1 with requiredRetainedBytes := 840 + nodeCount * 168 } := hcharged
  by_cases hretained : 840 + nodeCount * 168 ≤ limits.maxRetainedBytes
  · refine Call.Stops.require_bind hretained (Call.Stops.bind_ok rfl (Call.Stops.bind_ok rfl ?_))
    have hscratch : ¬ 64 * nodeCount ≤ limits.maxScratchBytes := fun hle => h ⟨hretained, hle⟩
    exact ⟨_, _, _, Call.bind_eq_error.mpr (Or.inl (if_neg hscratch)), hrequired⟩
  · exact ⟨_, _, _, Call.bind_eq_error.mpr (Or.inl (if_neg hretained)), hrequired⟩

theorem stops_constructSchema {compile : SchemaCompile} (hs : compile.Within limits.maxWork)
    (h : LevelsFit (view.record mapped) limits.maxDepth 0 view.nodeCount →
      ¬ view.NamesResolve mapped) (answers : ℕ → Bool) (n : ℕ) :
    (constructSchema limits mapped view (retainedBytes, scratchBytes)).Stops
      (SchemaCompile.Within limits.maxWork) answers compile n := by
  refine (needs_chargeSchemaOwner hs retainedBytes answers n).stops_bind fun hroom => ?_
  have hretained : SchemaCompile.Within limits.maxWork (compile.charged retainedBytes) :=
    room_schemaWorkShort.mp hroom
  have hstored : SchemaCompile.Within limits.maxWork
      { compile.charged retainedBytes with peakRetainedBytes := retainedBytes } := hretained
  refine (needs_requestSchema hretained (Or.inl rfl) answers n).stops_bind fun _ => ?_
  refine Call.Stops.bind_ok rfl ?_
  refine (needs_chargeSchemaOwner hstored scratchBytes answers (n + 1)).stops_bind fun hroom => ?_
  have hscratch : SchemaCompile.Within limits.maxWork (SchemaCompile.charged
      { compile.charged retainedBytes with peakRetainedBytes := retainedBytes } scratchBytes) :=
    room_schemaWorkShort.mp hroom
  have hready : SchemaCompile.Within limits.maxWork
      { SchemaCompile.charged
        { compile.charged retainedBytes with peakRetainedBytes := retainedBytes } scratchBytes with
        peakScratchBytes := scratchBytes } := hscratch
  refine (needs_requestSchema hscratch (Or.inr rfl) answers (n + 1)).stops_bind fun _ => ?_
  refine Call.Stops.bind_ok rfl ?_
  exact stops_compileSchema hready h answers (n + 2)

/-- **A schema that the other limits admit.** -/
theorem needs_createSchema (hview : parent.schemaView ordinal = some view)
    (h : view.Admitted mapped limits parent.stop retainedBytes scratchBytes)
    (answers : ℕ → Bool) (n : ℕ) :
    (createSchema mapped parent ordinal limits).Needs (SchemaCompile.Within limits.maxWork)
      SchemaReject.Blames answers {} n
      (schemaShort limits.maxWork (view.workUsed mapped retainedBytes scratchBytes) answers n)
      (view.schema mapped retainedBytes)
      (view.finalState mapped ordinal retainedBytes scratchBytes) (n + 2) := by
  have hwork : view.workUsed mapped retainedBytes scratchBytes =
      0 + 1 + 1 + retainedBytes + scratchBytes + compileWork view mapped := by
    simp only [SchemaView.workUsed, compileWork]
    omega
  have hs : SchemaCompile.Within limits.maxWork {} := Nat.zero_le _
  rw [createSchema_eq, SchemaView.finalState, hwork]
  refine (Call.needs_require_true h.known _).bind_as _ (fun k => (false_or _).symm.to_iff)
    fun _ => ?_
  refine (needs_chargeSchemaOwner hs 1 answers n).bind_as (fun k =>
    False ∨ False ∨ schemaWorkShort limits.maxWork (0 + 1 + 1) k ∨
      schemaShort limits.maxWork
        (0 + 1 + 1 + retainedBytes + scratchBytes + compileWork view mapped) answers n k)
    (fun k => ?_) fun hroom => ?_
  · cases k
    all_goals simp [schemaShort, schemaWorkShort]
    omega
  · have hs : SchemaCompile.Within limits.maxWork
        { SchemaCompile.charged {} 1 with typeOrdinal := some ordinal } :=
      room_schemaWorkShort.mp hroom
    refine Call.Needs.bind (Or.inl ⟨fun _ => id, selectSchemaRow_of_view hview answers _ n⟩)
      fun _ => ?_
    refine Call.Needs.bind
      (Or.inl ⟨fun _ => id, admitTree_ok h.nodes h.strings h.backed answers n⟩) fun _ => ?_
    refine (needs_planSchemaStorage hs h.layout h.retained h.scratchLayout h.scratch answers
      n).bind fun hroom => ?_
    exact needs_constructSchema (room_schemaWorkShort.mp hroom) h.levels h.names answers n

/-- **A construction that is not admitted** fails, whatever is left to draw on. -/
theorem stops_createSchema
    (h : ∀ view retainedBytes scratchBytes, parent.schemaView ordinal = some view →
      ¬ view.Admitted mapped limits parent.stop retainedBytes scratchBytes)
    (answers : ℕ → Bool) (n : ℕ) :
    (createSchema mapped parent ordinal limits).Stops (SchemaCompile.Within limits.maxWork)
      answers {} n := by
  have hs : SchemaCompile.Within limits.maxWork {} := Nat.zero_le _
  rw [createSchema_eq]
  by_cases hknown : parent.stop ≤ sizeMax
  swap
  · exact (Call.stops_require hs hknown _).bind
  refine Call.Stops.require_bind hknown ?_
  refine (needs_chargeSchemaOwner hs 1 answers n).stops_bind fun hroom => ?_
  have hs : SchemaCompile.Within limits.maxWork (SchemaCompile.charged {} 1) :=
    room_schemaWorkShort.mp hroom
  cases hview : parent.schemaView ordinal with
  | none => exact (stops_selectSchemaRow hview answers hs n).bind
  | some view =>
      refine Call.Stops.bind_ok (selectSchemaRow_of_view hview answers _ n) ?_
      have hs : SchemaCompile.Within limits.maxWork
          { SchemaCompile.charged {} 1 with typeOrdinal := some ordinal } := hs
      have hcount : view.nodeCount < 2 ^ 32 := by
        rw [nodeCount_of_view hview]
        exact view.tree.nodeCount.toNat_lt
      by_cases htree : view.tree.nodeCount.toNat ≤ limits.maxNodes ∧
          view.tree.stringByteCount.toNat ≤ limits.maxLocalStringBytes ∧
          treeIsBacked parent.stop view.tree
      swap
      · exact (stops_admitTree hs htree answers n).bind
      obtain ⟨hnodes, hstrings, hbacked⟩ := htree
      refine Call.Stops.bind_ok (admitTree_ok hnodes hstrings hbacked answers n) ?_
      by_cases hstorage : 840 + view.nodeCount * 168 ≤ limits.maxRetainedBytes ∧
          64 * view.nodeCount ≤ limits.maxScratchBytes
      swap
      · exact (stops_planSchemaStorage hs hcount hstorage answers n).bind
      obtain ⟨hretained, hscratch⟩ := hstorage
      refine (needs_planSchemaStorage hs (schemaLayout_eq hcount) hretained
        (scratchLayout_eq hcount) hscratch answers n).stops_bind fun hroom => ?_
      refine stops_constructSchema (room_schemaWorkShort.mp hroom) ?_ answers n
      intro hlevels hnames
      exact h view _ _ hview ⟨hknown, hnodes, hstrings, hbacked, schemaLayout_eq hcount, hretained,
        scratchLayout_eq hcount, hscratch, hlevels, hnames⟩

end Construction

/-! ## The result -/

section Result

variable {limits : SchemaLimits} {mapped : Text} {parent : SchemaParent} {ordinal : ℕ}
  {view : SchemaView} {retainedBytes scratchBytes : ℕ} {σ : Type} {answers : ℕ → Bool} {s : σ}
  {n : ℕ}

theorem schemaCreate_apply (mapped : Text) (parent : SchemaParent) (ordinal : ℕ)
    (limits : SchemaLimits) :
    serializedFileSchemaCreate mapped parent ordinal limits answers s n =
      match createSchema mapped parent ordinal limits answers {} n with
      | .ok schema compile n' =>
          .ok (schema, schemaResult (rejectSchemaOwner .ok .none) compile) s n'
      | .error e compile n' => .error (schemaResult e compile) s n' := by
  unfold serializedFileSchemaCreate
  rw [Call.bind_apply, Call.andThen, Call.enclosed]
  cases createSchema mapped parent ordinal limits answers {} n <;> rfl

/-- The result of a construction that is short of nothing. -/
def SchemaView.result (view : SchemaView) (mapped : Text) (ordinal retainedBytes scratchBytes : ℕ) :
    SchemaResult :=
  schemaResult (rejectSchemaOwner .ok .none)
    (view.finalState mapped ordinal retainedBytes scratchBytes)

/-- The run of a construction that is admitted. -/
theorem schemaCreate_admitted (hview : parent.schemaView ordinal = some view)
    (h : view.Admitted mapped limits parent.stop retainedBytes scratchBytes)
    (answers : ℕ → Bool) (s : σ) (n : ℕ) :
    ((∀ k, ¬ schemaShort limits.maxWork (view.workUsed mapped retainedBytes scratchBytes) answers n
          k) ∧
        serializedFileSchemaCreate mapped parent ordinal limits answers s n =
          .ok (view.schema mapped retainedBytes,
            view.result mapped ordinal retainedBytes scratchBytes) s (n + 2)) ∨
      ∃ e compile made k,
        serializedFileSchemaCreate mapped parent ordinal limits answers s n =
          .error (schemaResult e compile) s made ∧
        compile.workUsed ≤ limits.maxWork ∧ e.Blames k ∧
        schemaShort limits.maxWork (view.workUsed mapped retainedBytes scratchBytes) answers n
          k := by
  rw [schemaCreate_apply mapped parent ordinal limits]
  rcases needs_createSchema hview h answers n with
    ⟨hroom, hok⟩ | ⟨e, compile, made, k, herr, hwork, hblames, hshort⟩
  · rw [hok]
    exact Or.inl ⟨hroom, rfl⟩
  · rw [herr]
    exact Or.inr ⟨e, compile, made, k, rfl, hwork, hblames, hshort⟩

theorem schemaCreate_refused (mapped : Text) (limits : SchemaLimits)
    (h : ∀ view retainedBytes scratchBytes, parent.schemaView ordinal = some view →
      ¬ view.Admitted mapped limits parent.stop retainedBytes scratchBytes)
    (answers : ℕ → Bool) (s : σ) (n : ℕ) :
    ∃ e compile made,
      serializedFileSchemaCreate mapped parent ordinal limits answers s n =
        .error (schemaResult e compile) s made ∧
      compile.workUsed ≤ limits.maxWork := by
  rw [schemaCreate_apply mapped parent ordinal limits]
  obtain ⟨e, compile, made, herr, hwork⟩ := stops_createSchema h answers n
  rw [herr]
  exact ⟨e, compile, made, rfl, hwork⟩

/-- What a schema was made of. -/
theorem schemaCreate_ok {schema : SerializedFileSchema} {ran : SchemaResult} {s' : σ} {n' : ℕ}
    (h : serializedFileSchemaCreate mapped parent ordinal limits answers s n =
      .ok (schema, ran) s' n') :
    ∃ view retainedBytes scratchBytes, parent.schemaView ordinal = some view ∧
      view.Admitted mapped limits parent.stop retainedBytes scratchBytes ∧
      (∀ k, ¬ schemaShort limits.maxWork (view.workUsed mapped retainedBytes scratchBytes) answers n
        k) ∧
      schema = view.schema mapped retainedBytes ∧
      ran = view.result mapped ordinal retainedBytes scratchBytes ∧ s' = s ∧ n' = n + 2 := by
  by_cases hadmitted : ∃ view retainedBytes scratchBytes, parent.schemaView ordinal = some view ∧
      view.Admitted mapped limits parent.stop retainedBytes scratchBytes
  · obtain ⟨view, retainedBytes, scratchBytes, hview, hadmitted⟩ := hadmitted
    rcases schemaCreate_admitted hview hadmitted answers s n with
      ⟨hroom, hok⟩ | ⟨e, compile, made, k, herr, -⟩
    · rw [h] at hok
      cases hok
      exact ⟨view, retainedBytes, scratchBytes, hview, hadmitted, hroom, rfl, rfl, rfl, rfl⟩
    · rw [h] at herr
      cases herr
  · obtain ⟨e, compile, made, herr, -⟩ := schemaCreate_refused mapped limits (fun view retainedBytes scratchBytes hview hadm =>
        hadmitted ⟨view, retainedBytes, scratchBytes, hview, hadm⟩) answers s n
    rw [h] at herr
    cases herr

end Result

end UnityCommon.Metadata
