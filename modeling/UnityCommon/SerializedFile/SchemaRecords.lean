import UnityCommon.SerializedFile.SchemaOwner

/-!
# Trees of known records

Where the records of a tree stand in the mapped text one behind the other, each
node is decoded from its own record. The construction of such a schema is then
known without the text around the records.
-/

namespace UnityCommon.Metadata

open UnityCommon.TypeTree

section Records

variable {records : List Text} {width : ℕ}

theorem drop_flatten (hwidth : ∀ record ∈ records, record.length = width) (back : Text) {i : ℕ}
    (hi : i ≤ records.length) :
    (records.flatten ++ back).drop (i * width) = (records.drop i).flatten ++ back := by
  induction records generalizing i with
  | nil =>
      obtain rfl : i = 0 := by simpa using hi
      simp
  | cons record records ih =>
      cases i with
      | zero => simp
      | succ i =>
          have hlength := hwidth record List.mem_cons_self
          rw [List.flatten_cons, List.append_assoc, Nat.succ_mul, Nat.add_comm, ← hlength,
            ← List.drop_drop, List.drop_left, hlength, List.drop_succ_cons]
          exact ih (fun other hother => hwidth other (List.mem_cons_of_mem _ hother))
            (Nat.le_of_succ_le_succ hi)

/-- A part of a record where it stands is that part of the record on its own. -/
theorem bytes_flatten (hwidth : ∀ record ∈ records, record.length = width) (front back : Text)
    {i start size : ℕ} (hi : i < records.length) (hsize : start + size ≤ width) :
    (PrefixSpan.mk (front.length + i * width + start) size).bytes
        (front ++ (records.flatten ++ back)) = (PrefixSpan.mk start size).bytes records[i] := by
  have hlength : records[i].length = width := hwidth _ (List.getElem_mem hi)
  simp only [PrefixSpan.bytes]
  rw [Nat.add_assoc, ← List.drop_drop, List.drop_left,
    ← List.drop_drop, drop_flatten hwidth back hi.le, List.drop_eq_getElem_cons hi,
    List.flatten_cons, List.append_assoc, List.drop_append_of_le_length (by omega),
    List.take_append_of_le_length (by rw [List.length_drop]; omega)]

theorem decodeSchemaNode_records (hwidth : ∀ record ∈ records, record.length = nodeBytes)
    (front back : Text) (selector : UInt8) (size : ℕ) {i : ℕ} (hi : i < records.length) :
    decodeSchemaNode (front ++ (records.flatten ++ back)) selector ⟨front.length, size⟩ i =
      { decodeSchemaNode records[i] selector ⟨0, nodeBytes⟩ 0 with
        ordinal := i
        source := ⟨front.length + i * nodeBytes, nodeBytes⟩ } := by
  have hfield : ∀ start size, start + size ≤ nodeBytes →
      (PrefixSpan.mk (front.length + i * nodeBytes + start) size).bytes
          (front ++ (records.flatten ++ back)) =
        (PrefixSpan.mk (0 + 0 * nodeBytes + start) size).bytes records[i] := by
    intro start size h
    rw [bytes_flatten hwidth front back hi h, Nat.zero_mul, Nat.zero_add]
  simp only [decodeSchemaNode]
  rw [hfield 0 2 (by decide), hfield 2 1 (by decide), hfield 3 1 (by decide),
    hfield 4 4 (by decide), hfield 8 4 (by decide), hfield 12 4 (by decide),
    hfield 16 4 (by decide), hfield 20 4 (by decide), hfield 24 8 (by decide)]

theorem nodeTable_congr {record other : ℕ → SchemaNode} {count : ℕ}
    (h : ∀ i < count, record i = other i) : nodeTable record count = nodeTable other count := by
  induction count with
  | zero => rfl
  | succ count ih =>
      rw [nodeTable, nodeTable, ih fun i hi => h i (Nat.lt_succ_of_lt hi),
        h count (Nat.lt_succ_self count)]

end Records

theorem length_commonStringTable : TypeTree.commonStringTable.length = 1170 := by decide +kernel

/-- The row of a tree with its records, and the work of its construction. -/
structure KnownTree where
  parent : SchemaParent
  ordinal : ℕ
  view : SchemaView
  records : List Text
  workUsed : ℕ

namespace KnownTree

variable (tree : KnownTree) (mapped : Text)

def record (i : ℕ) : SchemaNode :=
  { decodeSchemaNode (tree.records[i]?.getD []) tree.view.prefixView.header.endianSelector
      ⟨0, nodeBytes⟩ 0 with
    ordinal := i
    source := ⟨tree.view.tree.nodesSource.offset + i * nodeBytes, nodeBytes⟩ }

def table : NodeTable := (nodeTable tree.record tree.view.nodeCount).close tree.view.nodeCount

def retainedBytes : ℕ := 840 + tree.view.nodeCount * 168

def scratchBytes : ℕ := 64 * tree.view.nodeCount

def schema : SerializedFileSchema where
  view :=
    { tree.view with
      maximumDepth := tree.table.maximumDepth
      retainedBytes := tree.retainedBytes }
  nodes := tree.table.nodes.map (SchemaNode.named (tree.view.name mapped))

def result : SchemaResult :=
  schemaResult (rejectSchemaOwner .ok .none)
    { typeOrdinal := some tree.ordinal
      workUsed := tree.workUsed
      requiredRetainedBytes := tree.retainedBytes
      requiredScratchBytes := tree.scratchBytes
      peakRetainedBytes := tree.retainedBytes
      peakScratchBytes := tree.scratchBytes }

/-- The tree is within the limits. -/
def Fits (limits : SchemaLimits) : Prop :=
  tree.view.nodeCount ≤ limits.maxNodes ∧
    tree.view.tree.stringByteCount.toNat ≤ limits.maxLocalStringBytes ∧ 255 ≤ limits.maxDepth ∧
    tree.retainedBytes ≤ limits.maxRetainedBytes ∧ tree.scratchBytes ≤ limits.maxScratchBytes ∧
    tree.workUsed ≤ limits.maxWork

instance (limits : SchemaLimits) : Decidable (tree.Fits limits) := by
  unfold Fits
  infer_instance

/-- The construction, told for limits that the tree fits in. -/
def create {σ : Type} (ordinal : ℕ) (limits : SchemaLimits) :
    Call SchemaResult σ (SerializedFileSchema × SchemaResult) := fun answers s n =>
  if ordinal = tree.ordinal ∧ tree.Fits limits ∧ answers n = true ∧ answers (n + 1) = true then
    .ok (tree.schema mapped, tree.result) s (n + 2)
  else serializedFileSchemaCreate mapped tree.parent ordinal limits answers s n

/-- The records stand in the text where the view has them, and they make up a tree
whose names resolve. -/
structure StandsIn : Prop where
  schemaView : tree.parent.schemaView tree.ordinal = some tree.view
  known : tree.parent.stop ≤ sizeMax
  backed : treeIsBacked tree.parent.stop tree.view.tree
  count : tree.view.nodeCount = tree.records.length
  count_lt : tree.view.nodeCount < 2 ^ 32
  width : ∀ record ∈ tree.records, record.length = nodeBytes
  text : ∃ front back, mapped = front ++ (tree.records.flatten ++ back) ∧
    front.length = tree.view.tree.nodesSource.offset
  levels : LevelsFit tree.record 255 0 tree.view.nodeCount
  names : ∀ request ∈ tree.table.requests, (tree.view.name mapped request).isSome
  work : tree.view.workUsed mapped tree.retainedBytes tree.scratchBytes = tree.workUsed

variable {tree mapped}

/-- Levels that a plan goes through with. -/
theorem levels_of_plan
    (h : (nodesFrom tree.record 255 0 tree.view.nodeCount .empty 0).isSome = true) :
    LevelsFit tree.record 255 0 tree.view.nodeCount := by
  obtain ⟨⟨table, d⟩, hplan⟩ := Option.isSome_iff_exists.mp h
  have hfit := (nodesFrom_eq_some 0 hplan).1
  rwa [Nat.zero_add] at hfit

theorem StandsIn.record_eq (h : tree.StandsIn mapped) {i : ℕ} (hi : i < tree.view.nodeCount) :
    tree.view.record mapped i = tree.record i := by
  obtain ⟨front, back, rfl, hfront⟩ := h.text
  rw [h.count] at hi
  have hdecode := decodeSchemaNode_records h.width front back
    tree.view.prefixView.header.endianSelector tree.view.tree.nodesSource.size hi
  rw [hfront] at hdecode
  rw [SchemaView.record, hdecode, record, List.getElem?_eq_getElem hi, Option.getD_some]

theorem StandsIn.table_eq (h : tree.StandsIn mapped) : tree.view.table mapped = tree.table := by
  rw [SchemaView.table, table, nodeTable_congr fun i hi => h.record_eq hi]

theorem StandsIn.admitted (h : tree.StandsIn mapped) {limits : SchemaLimits}
    (hfits : tree.Fits limits) :
    tree.view.Admitted mapped limits tree.parent.stop tree.retainedBytes tree.scratchBytes := by
  obtain ⟨hnodes, hstrings, hdepth, hretained, hscratch, -⟩ := hfits
  have hlevels : LevelsFit (tree.view.record mapped) limits.maxDepth 0 tree.view.nodeCount := by
    intro i hi hlt
    rw [nodeTable_congr fun j (hj : j < i) => h.record_eq (hj.trans hlt), h.record_eq hlt]
    obtain ⟨hplace, hlevel⟩ := h.levels i hi hlt
    exact ⟨hplace, hlevel.trans hdepth⟩
  have hnames : tree.view.NamesResolve mapped := by
    rw [SchemaView.NamesResolve, h.table_eq]
    exact h.names
  exact {
    known := h.known
    nodes := nodeCount_of_view h.schemaView ▸ hnodes
    strings := hstrings
    backed := h.backed
    layout := schemaLayout_eq h.count_lt
    retained := hretained
    scratchLayout := scratchLayout_eq h.count_lt
    scratch := hscratch
    levels := hlevels
    names := hnames }

/-- **The construction is the one told.** -/
theorem StandsIn.create_eq (h : tree.StandsIn mapped) {σ : Type} :
    serializedFileSchemaCreate (σ := σ) mapped tree.parent = tree.create mapped := by
  funext ordinal limits answers s n
  unfold create
  split
  case isFalse => rfl
  case isTrue hcond =>
    obtain ⟨rfl, hfits, hstorage, hrequest⟩ := hcond
    rcases schemaCreate_admitted h.schemaView (h.admitted hfits) answers s n with
      ⟨-, hok⟩ | ⟨e, compile, made, k, -, -, -, hshort⟩
    · rw [hok, SchemaView.schema, h.table_eq, SchemaView.result, SchemaView.finalState, h.work]
      rfl
    · rw [h.work] at hshort
      cases k with
      | work => exact absurd hfits.2.2.2.2.2 (Nat.not_le.mpr hshort)
      | storage => exact absurd (hstorage.symm.trans hshort) Bool.noConfusion
      | scratch => exact absurd (hrequest.symm.trans hshort) Bool.noConfusion

end KnownTree

end UnityCommon.Metadata
