import UnityCommon.Lib.Preorder
import UnityCommon.Lib.Work
import UnityCommon.SerializedFile.Schema

/-!
# Compiling the nodes

The first two passes of a schema apart from their work: the table of nodes with
their links, and the requests for their names, sorted.
-/

namespace UnityCommon.Metadata

def SchemaCompile.charged (compile : SchemaCompile) (amount : ℕ) : SchemaCompile :=
  { compile with workUsed := compile.workUsed + amount }

def schemaCounter : Work.Counter SchemaCompile where
  used := SchemaCompile.workUsed
  charged := SchemaCompile.charged
  charged_zero _ := rfl
  charged_charged compile d e := by simp [SchemaCompile.charged, Nat.add_assoc]
  used_charged _ _ := rfl

def schemaMeter (maxWork : ℕ) : Meter SchemaCompile Work Unit := schemaCounter.meter maxWork

/-- The rejection reports the work. -/
def SchemaReject.CitesWork (reject : SchemaReject) (_ : Unit) : Prop :=
  reject.status = .limitExceeded ∧ reject.limit = .work

variable {limits : SchemaLimits} {compile : SchemaCompile}

theorem follows_chargeSchema (hs : compile.workUsed ≤ limits.maxWork) (amount : ℕ)
    (field : SchemaField) (node : Option ℕ) (space : SchemaErrorSpace) (offset : ℕ) :
    (schemaMeter limits.maxWork).Follows SchemaReject.CitesWork compile
      (chargeSchema limits amount field node space offset) (Decoder.spend ⟨amount⟩) :=
  Work.follows_charge schemaCounter hs ⟨rfl, rfl⟩ amount

/-! ## Nodes -/

/-- The levels of the first `count` records. -/
def recordLevels (record : ℕ → SchemaNode) (count : ℕ) : List ℕ :=
  (List.range count).map fun ordinal => (record ordinal).level.toNat

/-- The nodes from the top of the path down to a level are closed. -/
def closeNodes (stop : ℕ) (closed : List ActiveNode) (nodes : List SchemaNode) : List SchemaNode :=
  closed.foldl (fun nodes top =>
    nodes.modify top.ordinal fun node => { node with subtreeEnd := stop }) nodes

/-- A record behind the nodes so far. -/
def NodeTable.push (table : NodeTable) (ordinal : ℕ) (node : SchemaNode) : NodeTable :=
  let level := node.level.toNat
  let closing := table.active.length - level
  let nodes := closeNodes ordinal (table.active.take closing) (table.nodes ++ [node])
  let linked := linkNode ordinal (table.active.drop closing) nodes
  { nodes := linked.1
    requests := table.requests ++ nodeRequests node
    active := ⟨ordinal, none⟩ :: linked.2
    maximumDepth := max table.maximumDepth level }

def NodeTable.close (table : NodeTable) (stop : ℕ) : NodeTable :=
  { table with nodes := closeNodes stop table.active table.nodes, active := [] }

/-- The table of the first `count` records. -/
def nodeTable (record : ℕ → SchemaNode) : ℕ → NodeTable
  | 0 => .empty
  | count + 1 => (nodeTable record count).push count (record count)

/-- The level of a record behind an active path, within the depth limit. -/
def LevelFits (maxDepth ordinal : ℕ) (table : NodeTable) (level : ℕ) : Prop :=
  ¬ ((ordinal = 0 ∧ level ≠ 0) ∨
    (ordinal ≠ 0 ∧ (level = 0 ∨ table.active.length < level))) ∧ level ≤ maxDepth

instance (maxDepth ordinal : ℕ) (table : NodeTable) (level : ℕ) :
    Decidable (LevelFits maxDepth ordinal table level) := by
  unfold LevelFits
  infer_instance

@[simp] theorem length_linkNode (ordinal : ℕ) (active : List ActiveNode) (nodes : List SchemaNode) :
    (linkNode ordinal active nodes).2.length = active.length := by
  cases active <;> rfl

theorem length_push_active (table : NodeTable) (ordinal : ℕ) (node : SchemaNode)
    (h : node.level.toNat ≤ table.active.length) :
    (table.push ordinal node).active.length = node.level.toNat + 1 := by
  simp only [NodeTable.push, List.length_cons, length_linkNode, List.length_drop]
  omega

/-- The active path is as long as the level of the last record says. -/
theorem length_active {record : ℕ → SchemaNode} {maxDepth ordinal : ℕ}
    (h : LevelFits maxDepth ordinal (nodeTable record ordinal) (record ordinal).level.toNat) :
    (record ordinal).level.toNat ≤ (nodeTable record ordinal).active.length ∧
      (nodeTable record (ordinal + 1)).active.length = (record ordinal).level.toNat + 1 := by
  have hle : (record ordinal).level.toNat ≤ (nodeTable record ordinal).active.length := by
    by_cases hzero : ordinal = 0
    · by_cases hlevel : (record ordinal).level.toNat = 0
      · omega
      · exact absurd (Or.inl ⟨hzero, hlevel⟩) h.1
    · by_contra hlt
      exact h.1 (Or.inr ⟨hzero, Or.inr (Nat.lt_of_not_le hlt)⟩)
  exact ⟨hle, length_push_active _ _ _ hle⟩

/-- The rounds from an ordinal on. -/
def nodesFrom (record : ℕ → SchemaNode) (maxDepth : ℕ) : ℕ → ℕ → NodeTable → Decoder Work NodeTable
  | _, 0, table => pure table
  | ordinal, count + 1, table => do
      Decoder.spend ⟨nodeBytes + 1⟩
      Decoder.require (LevelFits maxDepth ordinal table (record ordinal).level.toNat)
      Decoder.spend ⟨table.active.length - (record ordinal).level.toNat⟩
      nodesFrom record maxDepth (ordinal + 1) count (table.push ordinal (record ordinal))

/-- Every level fits where it comes. -/
def LevelsFit (record : ℕ → SchemaNode) (maxDepth start stop : ℕ) : Prop :=
  ∀ i, start ≤ i → i < stop → LevelFits maxDepth i (nodeTable record i) (record i).level.toNat

/-- Every node is paid for once when it is read and once when it is closed. -/
theorem nodesFrom_eq_some {record : ℕ → SchemaNode} {maxDepth at_ : ℕ} {table : NodeTable}
    {count : ℕ} {d : Work} (ordinal : ℕ)
    (h : nodesFrom record maxDepth ordinal count (nodeTable record ordinal) at_ = some (table, d)) :
    LevelsFit record maxDepth ordinal (ordinal + count) ∧
      table = nodeTable record (ordinal + count) ∧
      d.units + table.active.length =
        (nodeBytes + 2) * count + (nodeTable record ordinal).active.length := by
  induction count generalizing ordinal d with
  | zero =>
      obtain ⟨rfl, rfl⟩ := Decoder.pure_eq_some.mp h
      exact ⟨fun i _ _ => by omega, rfl, by simp⟩
  | succ count ih =>
      rw [nodesFrom] at h
      obtain ⟨e, h, hd⟩ := Work.spend_bind_eq_some.mp h
      obtain ⟨hfits, h⟩ := Work.require_bind_eq_some.mp h
      obtain ⟨f, h, he⟩ := Work.spend_bind_eq_some.mp h
      obtain ⟨hrest, htable, hf⟩ := ih (ordinal + 1) h
      obtain ⟨hle, hlength⟩ := length_active hfits
      rw [Nat.add_right_comm, Nat.add_assoc] at htable hrest
      refine ⟨fun i hi hlt => ?_, htable, ?_⟩
      · rcases Nat.eq_or_lt_of_le hi with rfl | hi
        · exact hfits
        · exact hrest i hi hlt
      · rw [Nat.mul_succ]
        omega

theorem nodesFrom_of_fit {record : ℕ → SchemaNode} {maxDepth count : ℕ} (ordinal : ℕ)
    (h : LevelsFit record maxDepth ordinal (ordinal + count)) (at_ : ℕ) :
    ∃ d, nodesFrom record maxDepth ordinal count (nodeTable record ordinal) at_ =
      some (nodeTable record (ordinal + count), d) := by
  induction count generalizing ordinal with
  | zero => exact ⟨0, rfl⟩
  | succ count ih =>
      have hfits := h ordinal (Nat.le_refl _) (by omega)
      obtain ⟨e, he⟩ := ih (ordinal + 1) fun i hi hlt => h i (by omega) (by omega)
      rw [Nat.add_right_comm, Nat.add_assoc] at he
      exact ⟨_, Work.spend_bind (Work.require_bind hfits (Work.spend_bind he))⟩

/-- The nodes and what they cost. -/
def nodesPlan (record : ℕ → SchemaNode) (maxDepth count : ℕ) : Decoder Work NodeTable := do
  let table ← nodesFrom record maxDepth 0 count .empty
  Decoder.spend ⟨table.active.length⟩
  return table.close count

theorem nodesPlan_of_fit {record : ℕ → SchemaNode} {maxDepth count : ℕ}
    (h : LevelsFit record maxDepth 0 count) (at_ : ℕ) :
    nodesPlan record maxDepth count at_ =
      some ((nodeTable record count).close count, ⟨(nodeBytes + 2) * count⟩) := by
  obtain ⟨d, hd⟩ := nodesFrom_of_fit 0 (by rwa [Nat.zero_add]) at_
  rw [Nat.zero_add] at hd
  obtain ⟨-, -, hcost⟩ := nodesFrom_eq_some 0 hd
  have hempty : (nodeTable record 0).active.length = 0 := rfl
  refine Work.bind_eq_some.mpr ⟨_, d, ⟨(nodeTable record count).active.length⟩, hd,
    Work.spend_bind_eq_some.mpr ⟨0, rfl, rfl⟩, Work.ext ?_⟩
  rw [hempty] at hcost
  exact hcost.symm

theorem nodesPlan_of_unfit {record : ℕ → SchemaNode} {maxDepth count : ℕ}
    (h : ¬ LevelsFit record maxDepth 0 count) (at_ : ℕ) :
    nodesPlan record maxDepth count at_ = none := by
  cases hplan : nodesPlan record maxDepth count at_ with
  | none => rfl
  | some r =>
      obtain ⟨table, d, e, hfrom, -, -⟩ := Work.bind_eq_some.mp hplan
      have hfits := (nodesFrom_eq_some 0 hfrom).1
      rw [Nat.zero_add] at hfits
      exact absurd hfits h

/-! ## Records -/

/-- A node without its links. -/
def SchemaNode.unlinked (node : SchemaNode) : SchemaNode :=
  { node with
    parent := none
    firstChild := none
    nextSibling := none
    childCount := 0
    subtreeEnd := 0 }

section

variable {α β : Type} {f : α → β} {g : α → α}

/-- A change that a view does not see. -/
theorem map_modify_unseen (i : ℕ) (xs : List α) (h : ∀ a, f (g a) = f a) :
    (xs.modify i g).map f = xs.map f := by
  apply List.ext_getElem?
  intro j
  rw [List.getElem?_map, List.getElem?_modify, List.getElem?_map]
  cases xs[j]? with
  | none => rfl
  | some a =>
      by_cases hij : i = j
      · simp [hij, h]
      · simp [hij]

end

theorem closeNodes_cons (stop : ℕ) (top : ActiveNode) (rest : List ActiveNode)
    (nodes : List SchemaNode) :
    closeNodes stop (top :: rest) nodes =
      closeNodes stop rest (nodes.modify top.ordinal fun node => { node with subtreeEnd := stop }) :=
  rfl

theorem closeNodes_unlinked (stop : ℕ) (closed : List ActiveNode) (nodes : List SchemaNode) :
    (closeNodes stop closed nodes).map SchemaNode.unlinked = nodes.map SchemaNode.unlinked := by
  induction closed generalizing nodes with
  | nil => rfl
  | cons top closed ih =>
      rw [closeNodes_cons, ih, map_modify_unseen]
      intro node
      rfl

theorem linkNode_unlinked (ordinal : ℕ) (active : List ActiveNode) (nodes : List SchemaNode) :
    (linkNode ordinal active nodes).1.map SchemaNode.unlinked = nodes.map SchemaNode.unlinked := by
  cases active with
  | nil => rfl
  | cons top rest =>
      simp only [linkNode]
      cases top.lastChild with
      | none => rw [map_modify_unseen, map_modify_unseen, map_modify_unseen] <;> exact fun _ => rfl
      | some last =>
          rw [map_modify_unseen, map_modify_unseen, map_modify_unseen] <;> exact fun _ => rfl

/-- The nodes are the records but for their links. -/
theorem nodeTable_unlinked (record : ℕ → SchemaNode) (count : ℕ) :
    (nodeTable record count).nodes.map SchemaNode.unlinked =
      (List.range count).map fun i => (record i).unlinked := by
  induction count with
  | zero => rfl
  | succ count ih =>
      rw [nodeTable, NodeTable.push, linkNode_unlinked, closeNodes_unlinked, List.map_append, ih,
        List.range_succ, List.map_append]
      rfl

theorem close_unlinked (record : ℕ → SchemaNode) (count : ℕ) :
    ((nodeTable record count).close count).nodes.map SchemaNode.unlinked =
      (List.range count).map fun i => (record i).unlinked := by
  rw [NodeTable.close, closeNodes_unlinked, nodeTable_unlinked]

theorem nodeTable_requests (record : ℕ → SchemaNode) (count : ℕ) :
    (nodeTable record count).requests =
      (List.range count).flatMap fun i => nodeRequests (record i) := by
  induction count with
  | zero => rfl
  | succ count ih =>
      rw [nodeTable, NodeTable.push, ih, List.range_succ, List.flatMap_append]
      simp

/-! ## Levels -/

theorem recordLevels_getElem? {record : ℕ → SchemaNode} {count i : ℕ} (h : i < count) :
    (recordLevels record count)[i]? = some (record i).level.toNat := by
  simp [recordLevels, h]

/-- **The levels fit when they are a preorder** within the depth limit. -/
theorem levelsFit_iff {record : ℕ → SchemaNode} {maxDepth count : ℕ} (hcount : 0 < count) :
    LevelsFit record maxDepth 0 count ↔
      Preorder.Valid (recordLevels record count) ∧
        ∀ i < count, (record i).level.toNat ≤ maxDepth := by
  constructor
  · intro h
    refine ⟨⟨?_, ?_⟩, fun i hi => (h i (Nat.zero_le _) hi).2⟩
    · rw [recordLevels_getElem? hcount]
      have hfits := (h 0 (Nat.le_refl _) hcount).1
      by_contra hne
      exact hfits (Or.inl ⟨rfl, fun hzero => hne (by rw [hzero])⟩)
    · intro i a b ha hb
      have hi : i + 1 < count := by
        have := (List.getElem?_eq_some_iff.mp hb).1
        simpa [recordLevels] using this
      rw [recordLevels_getElem? (by omega), Option.some.injEq] at ha
      rw [recordLevels_getElem? hi, Option.some.injEq] at hb
      -- the path to the node before is one longer than its level
      have hlength := (length_active (h i (Nat.zero_le _) (by omega))).2
      have hfits := (h (i + 1) (Nat.zero_le _) hi).1
      simp only [not_or, not_and, Nat.not_lt] at hfits
      have := hfits.2 (Nat.succ_ne_zero i)
      rw [hlength, ha, hb] at this
      omega
  · rintro ⟨hvalid, hdepth⟩
    -- by induction on the node: the path at each is as long as its level says
    have hfit : ∀ i < count,
        LevelFits maxDepth i (nodeTable record i) (record i).level.toNat := by
      intro i
      induction i with
      | zero =>
          intro hi
          have hroot := hvalid.root
          rw [recordLevels_getElem? hi, Option.some.injEq] at hroot
          refine ⟨?_, hdepth 0 hi⟩
          simp [hroot]
      | succ i ih =>
          intro hi
          have hlength := (length_active (ih (by omega))).2
          have hstep := hvalid.step i _ _ (recordLevels_getElem? (by omega))
            (recordLevels_getElem? hi)
          refine ⟨?_, hdepth (i + 1) hi⟩
          rw [hlength]
          omega
    exact fun i _ hi => hfit i hi

/-! ## The loop -/

section Follows

variable {mapped : Text} {endianSelector : UInt8} {nodesSource : PrefixSpan}

theorem follows_closeSubtrees (stop level : ℕ) : ∀ (active : List ActiveNode)
    (nodes : List SchemaNode) {compile : SchemaCompile}, compile.workUsed ≤ limits.maxWork →
    (schemaMeter limits.maxWork).Follows SchemaReject.CitesWork compile
      (closeSubtrees limits stop level active nodes)
      (do
        Decoder.spend ⟨active.length - level⟩
        return (closeNodes stop (active.take (active.length - level)) nodes,
          active.drop (active.length - level))) := by
  intro active
  induction active with
  | nil =>
      intro nodes compile hs
      have hlength : ([] : List ActiveNode).length - level = 0 := Nat.zero_sub level
      rw [hlength]
      refine (Meter.follows_pure (m := schemaMeter limits.maxWork) hs _).decoder_congr ?_
      exact congrArg some (Prod.ext rfl (Work.ext rfl))
  | cons top rest ih =>
      intro nodes compile hs
      rw [closeSubtrees]
      by_cases hdeeper : level < rest.length + 1
      · have hlength : (top :: rest).length - level = rest.length - level + 1 := by
          rw [List.length_cons]
          omega
        have hclose : (schemaMeter limits.maxWork).Follows SchemaReject.CitesWork compile
            (closeSubtree limits nodes top.ordinal stop)
            (do
              Decoder.spend ⟨1⟩
              return nodes.modify top.ordinal fun node => { node with subtreeEnd := stop }) := by
          refine (follows_chargeSchema hs 1 _ _ _ _).bind hs fun _ d _ _ hs => ?_
          exact Meter.follows_pure hs _
        rw [if_pos hdeeper, hlength, List.take_succ_cons, List.drop_succ_cons, closeNodes_cons]
        refine (hclose.bind hs fun nodes' d hnodes _ hs => ih nodes' hs).decoder_congr ?_
        refine congrArg some (Prod.ext rfl (Work.ext ?_))
        show rest.length - level + 1 + 0 = 1 + 0 + (rest.length - level + 0)
        omega
      · have hlength : (top :: rest).length - level = 0 := by
          rw [List.length_cons]
          omega
        rw [if_neg hdeeper, hlength]
        refine (Meter.follows_pure (m := schemaMeter limits.maxWork) hs _).decoder_congr ?_
        exact congrArg some (Prod.ext rfl (Work.ext rfl))

variable (limits) (mapped) (endianSelector) (nodesSource)

theorem follows_compileNode (ordinal : ℕ) (table : NodeTable)
    (hs : compile.workUsed ≤ limits.maxWork) :
    (schemaMeter limits.maxWork).Follows SchemaReject.CitesWork compile
      (compileNode limits mapped endianSelector nodesSource ordinal table)
      (do
        let node := decodeSchemaNode mapped endianSelector nodesSource ordinal
        Decoder.spend ⟨nodeBytes + 1⟩
        Decoder.require (LevelFits limits.maxDepth ordinal table node.level.toNat)
        Decoder.spend ⟨table.active.length - node.level.toNat⟩
        return table.push ordinal node) := by
  unfold compileNode LevelFits
  simp only [Work.require_and]
  refine (follows_chargeSchema hs _ _ _ _ _).bind hs fun _ d _ _ hs => ?_
  refine (Meter.follows_require hs _ _).bind hs fun _ d _ _ hs => ?_
  refine (Meter.follows_require hs _ _).bind hs fun _ d _ _ hs => ?_
  refine ((follows_closeSubtrees ordinal _ table.active _ hs).bind hs fun closed d _ _ hs =>
    Meter.follows_pure hs _).decoder_congr ?_
  exact congrArg some (Prod.ext rfl (Work.ext rfl))

theorem follows_compileNodesFrom (ordinal count : ℕ) (table : NodeTable)
    (hs : compile.workUsed ≤ limits.maxWork) :
    (schemaMeter limits.maxWork).Follows SchemaReject.CitesWork compile
      (compileNodesFrom limits mapped endianSelector nodesSource ordinal count table)
      (nodesFrom (decodeSchemaNode mapped endianSelector nodesSource) limits.maxDepth ordinal count
        table) := by
  induction count generalizing ordinal table compile with
  | zero => exact Meter.follows_pure hs table
  | succ count ih =>
      refine ((follows_compileNode limits mapped endianSelector nodesSource ordinal table hs).bind hs
        fun table' d _ _ hs => ih (ordinal + 1) table' hs).decoder_congr ?_
      simp only [nodesFrom, Work.bind_assoc, Work.pure_bind]

theorem follows_compileNodes (count : ℕ) (hs : compile.workUsed ≤ limits.maxWork) :
    (schemaMeter limits.maxWork).Follows SchemaReject.CitesWork compile
      (compileNodes limits mapped endianSelector nodesSource count)
      (nodesPlan (decodeSchemaNode mapped endianSelector nodesSource) limits.maxDepth count) := by
  refine (follows_compileNodesFrom limits mapped endianSelector nodesSource 0 count .empty hs).bind
    hs fun table d _ _ hs => ?_
  have hclose := (follows_closeSubtrees count 0 table.active table.nodes hs).bind
    (f := fun closed => pure { table with nodes := closed.1, active := closed.2 })
    hs fun closed e _ _ hs => Meter.follows_pure hs _
  refine hclose.decoder_congr ?_
  simp only [Work.bind_assoc, Work.pure_bind, Nat.sub_zero, List.take_length, List.drop_length]
  rfl

end Follows

/-! ## Sorting -/

theorem bucket_eq_digit (request : NameRequest) {pass : ℕ} (h : pass < radixPasses) :
    request.bucket pass = CountingSort.digit radixBuckets pass request.encodedOffset.toNat := by
  have hpass : pass < 4 := h
  have hshift : (pass * 8).toUInt32.toNat % 32 = pass * 8 := by
    rw [Nat.toUInt32, UInt32.toNat_ofNat']
    omega
  have hbase : radixBuckets ^ pass = 2 ^ (pass * 8) := by
    rw [Nat.mul_comm, Nat.pow_mul]
    rfl
  rw [NameRequest.bucket, UInt32.toNat_and, UInt32.toNat_shiftRight, hshift, CountingSort.digit,
    hbase, Nat.shiftRight_eq_div_pow]
  exact Nat.and_two_pow_sub_one_eq_mod _ 8

theorem bucket_lt (request : NameRequest) {pass : ℕ} (h : pass < radixPasses) :
    request.bucket pass < radixBuckets := by
  rw [bucket_eq_digit request h]
  exact CountingSort.digit_lt (by decide) _

/-- A pass over a digit. -/
def sortedBy (pass : ℕ) (requests : List NameRequest) : List NameRequest :=
  CountingSort.buckets (·.bucket pass) requests radixBuckets

/-- The requests after the first passes. -/
def sortedRequests (requests : List NameRequest) (passes : ℕ) : List NameRequest :=
  (List.range passes).foldl (fun requests pass => sortedBy pass requests) requests

theorem sortedRequests_succ (requests : List NameRequest) (passes : ℕ) :
    sortedRequests requests (passes + 1) = sortedBy passes (sortedRequests requests passes) := by
  rw [sortedRequests, List.range_succ, List.foldl_append]
  rfl

theorem sortedRequests_perm (requests : List NameRequest) {passes : ℕ} (h : passes ≤ radixPasses) :
    (sortedRequests requests passes).Perm requests := by
  induction passes with
  | zero => exact List.Perm.refl _
  | succ passes ih =>
      rw [sortedRequests_succ]
      refine (CountingSort.buckets_perm_of_lt fun request _ => ?_).trans (ih (Nat.le_of_succ_le h))
      exact bucket_lt request h

/-- **The passes sort** by the digits that they have seen. -/
theorem sortedRequests_pairwise (requests : List NameRequest) {passes : ℕ}
    (h : passes ≤ radixPasses) :
    (sortedRequests requests passes).Pairwise fun a b =>
      a.encodedOffset.toNat % radixBuckets ^ passes ≤
        b.encodedOffset.toNat % radixBuckets ^ passes := by
  induction passes with
  | zero => simp [Nat.mod_one, List.pairwise_of_forall]
  | succ passes ih =>
      have hkey : (fun request : NameRequest => request.bucket passes) = fun request =>
          CountingSort.digit radixBuckets passes request.encodedOffset.toNat :=
        funext fun request => bucket_eq_digit request h
      rw [sortedRequests_succ, sortedBy, hkey]
      exact CountingSort.buckets_digit (by decide) (ih (Nat.le_of_succ_le h))

theorem sortedRequests_sorted (requests : List NameRequest) :
    (sortedRequests requests radixPasses).Pairwise fun a b =>
      a.encodedOffset.toNat ≤ b.encodedOffset.toNat := by
  refine (sortedRequests_pairwise requests (Nat.le_refl _)).imp fun {a b} hab => ?_
  have hwhole : ∀ word : UInt32, word.toNat % radixBuckets ^ radixPasses = word.toNat :=
    fun word => Nat.mod_eq_of_lt word.toNat_lt
  rwa [hwhole, hwhole] at hab

section Follows

variable {pass : ℕ}

theorem follows_countRequests (source : List NameRequest) (offsets : List ℕ)
    (hs : compile.workUsed ≤ limits.maxWork) :
    (schemaMeter limits.maxWork).Follows SchemaReject.CitesWork compile
      (countRequests limits pass source offsets)
      (do
        Decoder.spend ⟨source.length⟩
        return CountingSort.count (·.bucket pass) offsets source) := by
  induction source generalizing offsets compile with
  | nil =>
      refine (Meter.follows_pure (m := schemaMeter limits.maxWork) hs offsets).decoder_congr ?_
      exact congrArg some (Prod.ext rfl (Work.ext rfl))
  | cons request source ih =>
      refine ((follows_chargeSchema hs 1 _ _ _ _).bind hs fun _ d _ _ hs =>
        ih _ hs).decoder_congr ?_
      refine congrArg some (Prod.ext rfl (Work.ext ?_))
      show source.length + 1 + 0 = 1 + (source.length + 0)
      omega

theorem follows_scatterRequests (source : List NameRequest) (offsets : List ℕ)
    (destination : List NameRequest) (hs : compile.workUsed ≤ limits.maxWork) :
    (schemaMeter limits.maxWork).Follows SchemaReject.CitesWork compile
      (scatterRequests limits pass source offsets destination)
      (do
        Decoder.spend ⟨source.length⟩
        return CountingSort.scatter (·.bucket pass) source offsets destination) := by
  induction source generalizing offsets destination compile with
  | nil =>
      refine (Meter.follows_pure (m := schemaMeter limits.maxWork) hs _).decoder_congr ?_
      exact congrArg some (Prod.ext rfl (Work.ext rfl))
  | cons request source ih =>
      refine ((follows_chargeSchema hs 1 _ _ _ _).bind hs fun _ d _ _ hs =>
        ih _ _ hs).decoder_congr ?_
      refine congrArg some (Prod.ext rfl (Work.ext ?_))
      show source.length + 1 + 0 = 1 + (source.length + 0)
      omega

/-- A pass fills the other half with the buckets. -/
theorem follows_sortPass (hpass : pass < radixPasses) {source destination : List NameRequest}
    (hsize : destination.length = source.length) (hs : compile.workUsed ≤ limits.maxWork) :
    (schemaMeter limits.maxWork).Follows SchemaReject.CitesWork compile
      (sortPass limits pass source destination)
      (do
        Decoder.spend ⟨2 * radixBuckets + 2 * source.length⟩
        return sortedBy pass source) := by
  refine ((follows_chargeSchema hs _ _ _ _ _).bind hs fun _ d _ _ hs =>
    (follows_countRequests source _ hs).bind hs fun counts d _ _ hs =>
    follows_scatterRequests source _ destination hs).decoder_congr ?_
  have hsorted := CountingSort.scatter_eq (fun request _ => bucket_lt request hpass) hsize
  refine congrArg some (Prod.ext hsorted.symm (Work.ext ?_))
  show 2 * radixBuckets + 2 * source.length + 0 =
    2 * radixBuckets + (source.length + 0 + (source.length + 0))
  omega

theorem length_sortedBy (hpass : pass < radixPasses) (requests : List NameRequest) :
    (sortedBy pass requests).length = requests.length :=
  (CountingSort.buckets_perm_of_lt fun request _ => bucket_lt request hpass).length_eq

theorem follows_sortPasses {passes : List ℕ} (hpasses : ∀ pass ∈ passes, pass < radixPasses)
    {source destination : List NameRequest} (hsize : destination.length = source.length)
    (hs : compile.workUsed ≤ limits.maxWork) :
    (schemaMeter limits.maxWork).Follows SchemaReject.CitesWork compile
      (sortPasses limits passes source destination)
      (do
        Decoder.spend ⟨passes.length * (2 * radixBuckets + 2 * source.length)⟩
        return passes.foldl (fun requests pass => sortedBy pass requests) source) := by
  induction passes generalizing source destination compile with
  | nil =>
      rw [List.length_nil, Nat.zero_mul]
      refine (Meter.follows_pure (m := schemaMeter limits.maxWork) hs source).decoder_congr ?_
      exact congrArg some (Prod.ext rfl (Work.ext rfl))
  | cons pass passes ih =>
      obtain ⟨hpass, hpasses⟩ := List.forall_mem_cons.mp hpasses
      have hlength := length_sortedBy hpass source
      have hpassed := follows_sortPass hpass hsize hs
      refine (hpassed.bind hs (Q := fun _ => do
        Decoder.spend ⟨passes.length * (2 * radixBuckets + 2 * source.length)⟩
        return passes.foldl (fun requests pass => sortedBy pass requests) (sortedBy pass source))
        fun sorted d hsorted _ hs => ?_).decoder_congr ?_
      · obtain ⟨e, hpure, -⟩ := Work.spend_bind_eq_some.mp hsorted
        obtain ⟨rfl, -⟩ := Decoder.pure_eq_some.mp hpure
        have hrest := ih hpasses hlength.symm hs
        rwa [hlength] at hrest
      · refine congrArg some (Prod.ext rfl (Work.ext ?_))
        show (passes.length + 1) * (2 * radixBuckets + 2 * source.length) + 0 =
          2 * radixBuckets + 2 * source.length + 0 +
            (passes.length * (2 * radixBuckets + 2 * source.length) + 0)
        rw [Nat.succ_mul]
        omega

theorem follows_sortNameRequests (requests : List NameRequest)
    (hs : compile.workUsed ≤ limits.maxWork) :
    (schemaMeter limits.maxWork).Follows SchemaReject.CitesWork compile
      (sortNameRequests limits requests)
      (do
        Decoder.spend ⟨radixPasses * (2 * radixBuckets + 2 * requests.length)⟩
        return sortedRequests requests radixPasses) := by
  have h := follows_sortPasses
    (fun pass (hpass : pass ∈ List.range radixPasses) => List.mem_range.mp hpass)
    (List.length_replicate (n := requests.length) (a := (⟨0, 0⟩ : NameRequest))) hs
  rwa [List.length_range] at h

end Follows

end UnityCommon.Metadata
