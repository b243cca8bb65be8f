import Mathlib.Data.List.Sort
import UnityCommon.SerializedFile.SchemaScan

/-!
# The links of schema nodes

The ancestor stack of `compile_nodes` and the links it leaves, against the tree
that the levels denote.
-/

namespace UnityCommon.Metadata

open Preorder (IsParent children subtreeEnd)

/-! ## The active path -/

/-- The path of the open nodes, the deepest first. The last child of each is the
next one on the path, and of the first one what the path hangs from. -/
def PathFits (ls : List ℕ) : Option ℕ → List ActiveNode → Prop
  | _, [] => True
  | below, top :: rest =>
      (top.ordinal < ls.length ∧ ls.getD top.ordinal 0 = rest.length ∧
        subtreeEnd ls top.ordinal = ls.length ∧ top.lastChild = below) ∧
      PathFits ls (some top.ordinal) rest

section Path

variable {ls : List ℕ} {below : Option ℕ} {active : List ActiveNode} {entry : ActiveNode}

theorem PathFits.of_mem (h : PathFits ls below active) (hmem : entry ∈ active) :
    entry.ordinal < ls.length ∧ ls.getD entry.ordinal 0 < active.length ∧
      subtreeEnd ls entry.ordinal = ls.length := by
  induction active generalizing below with
  | nil => cases hmem
  | cons top rest ih =>
      obtain ⟨⟨hlt, hlevel, hopen, -⟩, hrest⟩ := h
      rcases List.mem_cons.mp hmem with rfl | hmem
      · exact ⟨hlt, hlevel ▸ Nat.lt_succ_self _, hopen⟩
      · obtain ⟨hlt, hlevel, hopen⟩ := ih hrest hmem
        exact ⟨hlt, Nat.lt_succ_of_lt hlevel, hopen⟩

/-- A path that is cut hangs from the last node cut off. -/
theorem PathFits.drop (h : PathFits ls below active) {count : ℕ} (hle : count ≤ active.length) :
    ∃ below', PathFits ls below' (active.drop count) ∧ (count = 0 → below' = below) ∧
      (0 < count → ∃ entry ∈ active, below' = some entry.ordinal ∧
        ls.getD entry.ordinal 0 = active.length - count) := by
  induction active generalizing below count with
  | nil =>
      obtain rfl : count = 0 := Nat.le_zero.mp hle
      exact ⟨below, h, fun _ => rfl, fun hpos => absurd hpos (Nat.lt_irrefl 0)⟩
  | cons top rest ih =>
      cases count with
      | zero => exact ⟨below, h, fun _ => rfl, fun hpos => absurd hpos (Nat.lt_irrefl 0)⟩
      | succ count =>
          obtain ⟨below', hdrop, hzero, hpos⟩ := ih h.2 (Nat.le_of_succ_le_succ hle)
          refine ⟨below', hdrop, fun h => absurd h (Nat.succ_ne_zero count), fun _ => ?_⟩
          rw [List.length_cons, Nat.succ_sub_succ]
          rcases Nat.eq_zero_or_pos count with rfl | hcount
          · exact ⟨top, List.mem_cons_self, hzero rfl, h.1.2.1⟩
          · obtain ⟨entry, hmem, hbelow⟩ := hpos hcount
            exact ⟨entry, List.mem_cons_of_mem _ hmem, hbelow⟩

/-- A deeper node behind the path stays below all of it. -/
theorem PathFits.append (h : PathFits ls below active) {l : ℕ} (hle : active.length ≤ l) :
    PathFits (ls ++ [l]) below active := by
  induction active generalizing below with
  | nil => trivial
  | cons top rest ih =>
      obtain ⟨⟨hlt, hlevel, hopen, hlast⟩, hrest⟩ := h
      rw [List.length_cons] at hle
      refine ⟨⟨?_, ?_, ?_, hlast⟩, ih hrest (Nat.le_of_succ_le hle)⟩
      · rw [List.length_append]
        exact Nat.lt_add_right _ hlt
      · rw [Preorder.getD_append_left hlt, hlevel]
      · rw [Preorder.subtreeEnd_append_of_open hlt hopen, hlevel, if_pos (by omega), List.length_append]
        rfl

/-- What is left when the path is cut down to a level. -/
theorem PathFits.mem_kept {l : ℕ} (h : PathFits ls below active) (hle : l ≤ active.length) :
    entry ∈ active.drop (active.length - l) ↔ entry ∈ active ∧ ls.getD entry.ordinal 0 < l := by
  induction active generalizing below with
  | nil => simp
  | cons top rest ih =>
      rcases Nat.le_succ_iff.mp hle with hl | rfl
      · have hcut : (top :: rest).length - l = rest.length - l + 1 := by
          rw [List.length_cons]
          omega
        rw [hcut, List.drop_succ_cons, ih h.2 hl, List.mem_cons]
        constructor
        · rintro ⟨hmem, hlevel⟩
          exact ⟨Or.inr hmem, hlevel⟩
        · rintro ⟨rfl | hmem, hlevel⟩
          · rw [h.1.2.1] at hlevel
            omega
          · exact ⟨hmem, hlevel⟩
      · have hcut : (top :: rest).length - (rest.length + 1) = 0 := Nat.sub_self _
        rw [hcut, List.drop_zero]
        exact ⟨fun hmem => ⟨hmem, (h.of_mem hmem).2.1⟩, And.left⟩

theorem PathFits.mem_closed {l : ℕ} (h : PathFits ls below active) (hle : l ≤ active.length) :
    entry ∈ active.take (active.length - l) ↔ entry ∈ active ∧ l ≤ ls.getD entry.ordinal 0 := by
  induction active generalizing below with
  | nil => simp
  | cons top rest ih =>
      rcases Nat.le_succ_iff.mp hle with hl | rfl
      · have hcut : (top :: rest).length - l = rest.length - l + 1 := by
          rw [List.length_cons]
          omega
        rw [hcut, List.take_succ_cons, List.mem_cons, List.mem_cons, ih h.2 hl]
        constructor
        · rintro (rfl | ⟨hmem, hlevel⟩)
          · exact ⟨Or.inl rfl, h.1.2.1 ▸ hl⟩
          · exact ⟨Or.inr hmem, hlevel⟩
        · rintro ⟨rfl | hmem, hlevel⟩
          · exact Or.inl rfl
          · exact Or.inr ⟨hmem, hlevel⟩
      · have hcut : (top :: rest).length - (rest.length + 1) = 0 := Nat.sub_self _
        rw [hcut, List.take_zero]
        constructor
        · intro hmem
          cases hmem
        · rintro ⟨hmem, hlevel⟩
          exact absurd (h.of_mem hmem).2.1 (Nat.not_lt.mpr hlevel)

end Path

/-! ## The fields of a node after a step -/

theorem closeNodes_getElem? (stop : ℕ) (closed : List ActiveNode) (nodes : List SchemaNode)
    (i : ℕ) :
    (closeNodes stop closed nodes)[i]? = nodes[i]?.map fun node =>
      if ∃ entry ∈ closed, entry.ordinal = i then { node with subtreeEnd := stop } else node := by
  induction closed generalizing nodes with
  | nil => simp [closeNodes]
  | cons top closed ih =>
      rw [closeNodes_cons, ih, List.getElem?_modify]
      cases nodes[i]? with
      | none => rfl
      | some node =>
          by_cases htop : top.ordinal = i
          · simp [htop]
          · by_cases hrest : ∃ entry ∈ closed, entry.ordinal = i
            · simp [htop, hrest]
            · simp [htop, hrest]

/-- What a link below `top` makes of a node. -/
def linkedNode (ordinal : ℕ) (top : ActiveNode) (i : ℕ) (node : SchemaNode) : SchemaNode :=
  { node with
    parent := if i = ordinal then some top.ordinal else node.parent
    firstChild := if top.lastChild = none ∧ i = top.ordinal then some ordinal else node.firstChild
    nextSibling := if top.lastChild = some i then some ordinal else node.nextSibling
    childCount := if i = top.ordinal then node.childCount + 1 else node.childCount }

theorem linkNode_getElem? {ordinal : ℕ} {top : ActiveNode} (htop : top.ordinal ≠ ordinal)
    (hlast : top.lastChild ≠ some ordinal) (rest : List ActiveNode) (nodes : List SchemaNode)
    (i : ℕ) :
    (linkNode ordinal (top :: rest) nodes).1[i]? = nodes[i]?.map (linkedNode ordinal top i) := by
  unfold linkNode linkedNode
  cases hchild : top.lastChild with
  | none =>
      simp only [hchild, List.getElem?_modify, Option.map_eq_map, Option.map_map]
      refine congrArg (Option.map · nodes[i]?) (funext fun node => ?_)
      by_cases hself : i = ordinal
      · simp [hself, htop, Ne.symm htop]
      · by_cases hparent : i = top.ordinal
        · simp [hparent, htop, Ne.symm htop]
        · simp [hself, hparent, Ne.symm hself, Ne.symm hparent]
  | some last =>
      have hlast : last ≠ ordinal := fun he => hlast (he ▸ hchild)
      simp only [hchild, List.getElem?_modify, Option.map_eq_map, Option.map_map]
      refine congrArg (Option.map · nodes[i]?) (funext fun node => ?_)
      by_cases hself : i = ordinal
      · simp [hself, htop, Ne.symm htop, hlast]
      · by_cases hparent : i = top.ordinal
        · by_cases hprev : last = top.ordinal
          · simp [hparent, hprev, htop, Ne.symm htop]
          · simp [hparent, hprev, htop, Ne.symm htop]
        · by_cases hprev : last = i
          · simp [hself, hparent, hprev, Ne.symm hself, Ne.symm hparent]
          · simp [hself, hparent, hprev, Ne.symm hself, Ne.symm hparent]

/-! ## The table -/

/-- The links of a node are those of the tree so far; the end of its subtree is
known once it is closed. -/
structure NodeLinked (ls : List ℕ) (i : ℕ) (node : SchemaNode) : Prop where
  parent : ∀ p, node.parent = some p ↔ IsParent ls i p
  firstChild : ∀ c, node.firstChild = some c ↔
    c = i + 1 ∧ c < ls.length ∧ ls.getD i 0 < ls.getD c 0
  nextSibling : ∀ c, node.nextSibling = some c ↔
    c = subtreeEnd ls i ∧ c < ls.length ∧ ls.getD c 0 = ls.getD i 0
  childCount : node.childCount = (children ls i).length
  subtreeEnd : Preorder.subtreeEnd ls i < ls.length → node.subtreeEnd = Preorder.subtreeEnd ls i

structure TableFits (ls : List ℕ) (table : NodeTable) : Prop where
  length : table.nodes.length = ls.length
  path : PathFits ls none table.active
  complete : ∀ i < ls.length, subtreeEnd ls i = ls.length → ∃ entry ∈ table.active, entry.ordinal = i
  linked : ∀ i node, table.nodes[i]? = some node → NodeLinked ls i node

/-- A node that is not linked yet. -/
structure SchemaNode.Fresh (node : SchemaNode) : Prop where
  parent : node.parent = none
  firstChild : node.firstChild = none
  nextSibling : node.nextSibling = none
  childCount : node.childCount = 0

theorem tableFits_empty : TableFits [] .empty where
  length := rfl
  path := trivial
  complete i hi := absurd hi (Nat.not_lt_zero i)
  linked i node h := by cases h

/-- The root. -/
theorem tableFits_root {node : SchemaNode} (hfresh : node.Fresh) :
    TableFits [0] (NodeTable.empty.push 0 node) := by
  have hpush : NodeTable.empty.push 0 node =
      ⟨[node], nodeRequests node, [⟨0, none⟩], max 0 node.level.toNat⟩ := by
    simp [NodeTable.push, NodeTable.empty, closeNodes, linkNode]
  have hend : subtreeEnd [0] 0 = 1 := by decide
  rw [hpush]
  refine ⟨rfl, ⟨⟨Nat.one_pos, rfl, hend, rfl⟩, trivial⟩, fun i hi _ => ?_, fun i node' h => ?_⟩
  · exact ⟨_, List.mem_cons_self, (Nat.lt_one_iff.mp hi).symm⟩
  · cases i with
    | zero =>
        cases h
        refine ⟨fun p => ?_, fun c => ?_, fun c => ?_, hfresh.childCount, fun h => ?_⟩
        · rw [hfresh.parent]
          exact iff_of_false (Option.some_ne_none _).symm fun h => absurd h.before (Nat.not_lt_zero p)
        · rw [hfresh.firstChild]
          refine iff_of_false (Option.some_ne_none _).symm fun h => ?_
          have := h.2.1
          simp only [List.length_singleton] at this
          omega
        · rw [hfresh.nextSibling, hend]
          refine iff_of_false (Option.some_ne_none _).symm fun h => ?_
          have := h.2.1
          simp only [List.length_singleton] at this
          omega
        · rw [hend] at h
          exact absurd h (Nat.lt_irrefl 1)
    | succ i => cases h

section Push

variable {ls : List ℕ} {table : NodeTable} {node : SchemaNode} {l : ℕ} {top : ActiveNode}
  {rest : List ActiveNode}

theorem open_unique {i j : ℕ} (hi : i < ls.length) (hj : j < ls.length)
    (hopen : subtreeEnd ls i = ls.length) (hopen' : subtreeEnd ls j = ls.length)
    (hlevel : ls.getD i 0 = ls.getD j 0) : i = j := by
  -- of two open nodes the later one is deeper
  have hdeeper : ∀ {i j : ℕ}, i < j → j < ls.length → subtreeEnd ls i = ls.length →
      ls.getD i 0 < ls.getD j 0 := by
    intro i j hij hj hopen
    obtain ⟨a, ha, hdeep⟩ := Preorder.lt_of_mem_subtree hij (hopen ▸ hj)
    rwa [Preorder.getD_of_getElem? ha]
  rcases Nat.lt_trichotomy i j with hlt | he | hgt
  · exact absurd hlevel (hdeeper hlt hj hopen).ne
  · exact he
  · exact absurd hlevel.symm (hdeeper hgt hi hopen').ne

/-- The node that a new one goes under: the open one a level up, whose last child
is the open node at the new one's level. -/
structure Above (ls : List ℕ) (l : ℕ) (top : ActiveNode) : Prop where
  lt : top.ordinal < ls.length
  level : ls.getD top.ordinal 0 + 1 = l
  isOpen : subtreeEnd ls top.ordinal = ls.length
  lastChild : ∀ i, top.lastChild = some i ↔
    i < ls.length ∧ subtreeEnd ls i = ls.length ∧ ls.getD i 0 = l
  childless : top.lastChild = none → top.ordinal + 1 = ls.length

theorem last_open {i : ℕ} (h : i + 1 = ls.length) : subtreeEnd ls i = ls.length := by
  have hle := Preorder.subtreeEnd_le (by omega : i < ls.length)
  have hge : i + 1 ≤ subtreeEnd ls i := Preorder.le_scan _ _ _
  omega

theorem above_of_kept (h : TableFits ls table) (hle : l ≤ table.active.length)
    (hkept : table.active.drop (table.active.length - l) = top :: rest) : Above ls l top := by
  have hlength : rest.length + 1 = l := by
    have := congrArg List.length hkept
    rw [List.length_drop, List.length_cons] at this
    omega
  obtain ⟨below, hpath, hzero, hpos⟩ := h.path.drop (Nat.sub_le table.active.length l)
  rw [hkept] at hpath
  obtain ⟨⟨hlt, hlevel, hopen, hlast⟩, -⟩ := hpath
  rcases Nat.eq_zero_or_pos (table.active.length - l) with hcount | hcount
  · -- nothing is cut off: no open node is as deep as the new one
    have hshallow : ∀ i < ls.length, subtreeEnd ls i = ls.length → ls.getD i 0 < l := by
      intro i hi hiopen
      obtain ⟨entry, hmem, rfl⟩ := h.complete i hi hiopen
      have := (h.path.of_mem hmem).2.1
      omega
    have hnone : top.lastChild = none := hlast.trans (hzero hcount)
    refine ⟨hlt, hlevel ▸ hlength, hopen, fun i => ?_, fun _ => ?_⟩
    · rw [hnone]
      exact ⟨nofun, fun ⟨hi, hiopen, hilevel⟩ => absurd (hshallow i hi hiopen) (by omega)⟩
    · by_contra hne
      have hprev := hshallow (ls.length - 1) (by omega) (last_open (by omega))
      obtain ⟨a, ha, hdeep⟩ := Preorder.lt_of_mem_subtree (by omega : top.ordinal + 1 ≤ ls.length - 1)
        (by rw [hopen]; omega : ls.length - 1 < subtreeEnd ls top.ordinal)
      rw [Preorder.getD_of_getElem? ha] at hprev
      omega
  · obtain ⟨entry, hmem, hbelow, hentry⟩ := hpos hcount
    obtain ⟨hentrylt, -, hentryopen⟩ := h.path.of_mem hmem
    have hentrylevel : ls.getD entry.ordinal 0 = l := by omega
    have hsome : top.lastChild = some entry.ordinal := hlast.trans hbelow
    refine ⟨hlt, hlevel ▸ hlength, hopen, fun i => ?_, fun hnone => ?_⟩
    · rw [hsome, Option.some.injEq]
      constructor
      · rintro rfl
        exact ⟨hentrylt, hentryopen, hentrylevel⟩
      · rintro ⟨hi, hiopen, hilevel⟩
        exact open_unique hentrylt hi hentryopen hiopen (hentrylevel.trans hilevel.symm)
    · rw [hsome] at hnone
      cases hnone

/-- The new node has its parent on top of the path. -/
theorem Above.isParent (h : Above ls l top) :
    ∀ p, IsParent (ls ++ [l]) ls.length p ↔ p = top.ordinal := by
  have htop : IsParent (ls ++ [l]) ls.length top.ordinal := by
    refine ⟨h.lt, ?_, fun q hq hlt => ?_⟩
    · rw [Preorder.getD_append_left h.lt, Preorder.getD_append_length, h.level]
    · obtain ⟨a, ha, hdeep⟩ := Preorder.lt_of_mem_subtree hq (h.isOpen ▸ hlt)
      rw [Preorder.getD_append_left hlt, Preorder.getD_append_length, Preorder.getD_of_getElem? ha]
      have := h.level
      omega
  intro p
  constructor
  · intro hp
    exact hp.unique htop
  · rintro rfl
    exact htop

/-- It is a first child when it comes right behind its parent. -/
theorem Above.first (h : Above ls l top) {i : ℕ} :
    top.lastChild = none ∧ i = top.ordinal ↔ i + 1 = ls.length ∧ ls.getD i 0 < l := by
  have hlevel := h.level
  have hlt := h.lt
  constructor
  · rintro ⟨hnone, rfl⟩
    exact ⟨h.childless hnone, by omega⟩
  · rintro ⟨hlast, hdeep⟩
    have hdeeper : ∀ j, top.ordinal < j → j < ls.length → l ≤ ls.getD j 0 := by
      intro j hj hjlt
      obtain ⟨a, ha, hdeep⟩ := Preorder.lt_of_mem_subtree hj (h.isOpen ▸ hjlt)
      rw [Preorder.getD_of_getElem? ha]
      omega
    have hi : i = top.ordinal := by
      by_contra hne
      exact absurd (hdeeper i (by omega) (by omega)) (Nat.not_le.mpr hdeep)
    refine ⟨?_, hi⟩
    cases hchild : top.lastChild with
    | none => rfl
    | some c =>
        -- a child would come after the last node
        obtain ⟨hc, hcopen, hclevel⟩ := (h.lastChild c).mp hchild
        have hcle : c ≤ top.ordinal := by omega
        rcases Nat.lt_or_eq_of_le hcle with hbefore | rfl
        · obtain ⟨a, ha, hdeep'⟩ := Preorder.lt_of_mem_subtree hbefore (hcopen ▸ hlt)
          rw [Preorder.getD_of_getElem? ha] at hlevel
          omega
        · omega

theorem Above.child_iff (h : Above ls l top) {i : ℕ} (hi : i < ls.length) :
    i = top.ordinal ↔ subtreeEnd ls i = ls.length ∧ ls.getD i 0 + 1 = l := by
  constructor
  · rintro rfl
    exact ⟨h.isOpen, h.level⟩
  · rintro ⟨hopen, hlevel⟩
    have htop := h.level
    exact open_unique hi h.lt hopen h.isOpen (by omega)

/-- An old node gains the new one as its first child when nothing stands between. -/
theorem Above.linked_firstChild (h : Above ls l top) {i : ℕ} (hi : i < ls.length)
    (hnode : NodeLinked ls i node) (c : ℕ) :
    (if top.lastChild = none ∧ i = top.ordinal then some ls.length else node.firstChild) = some c ↔
      c = i + 1 ∧ c < (ls ++ [l]).length ∧ (ls ++ [l]).getD i 0 < (ls ++ [l]).getD c 0 := by
  have hlength : (ls ++ [l]).length = ls.length + 1 := List.length_append
  rw [hlength, Preorder.getD_append_left hi]
  by_cases hnew : top.lastChild = none ∧ i = top.ordinal
  · rw [if_pos hnew, Option.some.injEq]
    obtain ⟨hend, hdeep⟩ := h.first.mp hnew
    constructor
    · rintro rfl
      rw [Preorder.getD_append_length]
      exact ⟨hend.symm, Nat.lt_succ_self _, hdeep⟩
    · rintro ⟨rfl, -⟩
      exact hend.symm
  · rw [if_neg hnew, hnode.firstChild c]
    constructor
    · rintro ⟨rfl, hc, hdeep⟩
      rw [Preorder.getD_append_left hc]
      exact ⟨rfl, Nat.lt_succ_of_lt hc, hdeep⟩
    · rintro ⟨rfl, hc, hdeep⟩
      rcases Nat.lt_succ_iff_lt_or_eq.mp hc with hc | hc
      · rw [Preorder.getD_append_left hc] at hdeep
        exact ⟨rfl, hc, hdeep⟩
      · -- the new node would be the first child, and the loop would have linked it
        rw [hc, Preorder.getD_append_length] at hdeep
        exact absurd (h.first.mpr ⟨hc, hdeep⟩) hnew

/-- An old node gains the new one as its sibling when it was the last child. -/
theorem Above.linked_nextSibling (h : Above ls l top) {i : ℕ} (hi : i < ls.length)
    (hnode : NodeLinked ls i node) (c : ℕ) :
    (if top.lastChild = some i then some ls.length else node.nextSibling) = some c ↔
      c = subtreeEnd (ls ++ [l]) i ∧ c < (ls ++ [l]).length ∧
        (ls ++ [l]).getD c 0 = (ls ++ [l]).getD i 0 := by
  have hlength : (ls ++ [l]).length = ls.length + 1 := List.length_append
  rw [hlength, Preorder.getD_append_left hi]
  by_cases hnew : top.lastChild = some i
  · obtain ⟨-, hopen, hsame⟩ := (h.lastChild i).mp hnew
    rw [if_pos hnew, Option.some.injEq, Preorder.subtreeEnd_append_of_open hi hopen,
      if_neg (by omega)]
    constructor
    · rintro rfl
      rw [Preorder.getD_append_length]
      exact ⟨rfl, Nat.lt_succ_self _, hsame.symm⟩
    · rintro ⟨rfl, -⟩
      rfl
  · rw [if_neg hnew, hnode.nextSibling c]
    rcases Nat.lt_or_eq_of_le (Preorder.subtreeEnd_le hi) with hend | hopen
    · -- a closed subtree: its end is not moved
      rw [Preorder.subtreeEnd_append_of_lt hi hend]
      constructor
      · rintro ⟨rfl, hc, hsame⟩
        rw [Preorder.getD_append_left hc]
        exact ⟨rfl, Nat.lt_succ_of_lt hc, hsame⟩
      · rintro ⟨rfl, -, hsame⟩
        rw [Preorder.getD_append_left hend] at hsame
        exact ⟨rfl, hend, hsame⟩
    · -- an open one ends behind every node, with the new one or before it
      rw [Preorder.subtreeEnd_append_of_open hi hopen]
      constructor
      · rintro ⟨rfl, hc, -⟩
        omega
      · rintro ⟨rfl, hc, hsame⟩
        exfalso
        by_cases hdeep : ls.getD i 0 < l
        · rw [if_pos hdeep] at hc
          omega
        · rw [if_neg hdeep, Preorder.getD_append_length] at hsame
          exact hnew ((h.lastChild i).mpr ⟨hi, hopen, hsame.symm⟩)

/-- Only the parent counts the new node. -/
theorem Above.linked_childCount (h : Above ls l top) {i : ℕ} (hi : i < ls.length)
    (hnode : NodeLinked ls i node) :
    (if i = top.ordinal then node.childCount + 1 else node.childCount) =
      (children (ls ++ [l]) i).length := by
  rw [Preorder.children_append hi, List.length_append, hnode.childCount]
  by_cases hchild : i = top.ordinal
  · rw [if_pos hchild, if_pos ((h.child_iff hi).mp hchild)]
    rfl
  · rw [if_neg hchild, if_neg fun hiff => hchild ((h.child_iff hi).mpr hiff)]
    rfl

/-- What closing and linking leave of an old node. -/
theorem Above.linked (h : Above ls l top) {i : ℕ} (hi : i < ls.length)
    (hnode : NodeLinked ls i node) {closed : Prop} [Decidable closed]
    (hclosed : closed ↔ subtreeEnd ls i = ls.length ∧ l ≤ ls.getD i 0) :
    NodeLinked (ls ++ [l]) i (linkedNode ls.length top i
      (if closed then { node with subtreeEnd := ls.length } else node)) := by
  -- closing a node writes its end only
  have hlinks : ∀ node', node' = (if closed then { node with subtreeEnd := ls.length } else node) →
      node'.parent = node.parent ∧ node'.firstChild = node.firstChild ∧
        node'.nextSibling = node.nextSibling ∧ node'.childCount = node.childCount := by
    intro node' hnode'
    by_cases hc : closed
    · rw [if_pos hc] at hnode'
      subst hnode'
      exact ⟨rfl, rfl, rfl, rfl⟩
    · rw [if_neg hc] at hnode'
      subst hnode'
      exact ⟨rfl, rfl, rfl, rfl⟩
  obtain ⟨hparent, hfirst, hnext, hcount⟩ := hlinks _ rfl
  constructor
  · intro p
    simp only [linkedNode]
    rw [if_neg hi.ne, hparent, Preorder.isParent_append hi]
    exact hnode.parent p
  · intro c
    simp only [linkedNode]
    rw [hfirst]
    exact h.linked_firstChild hi hnode c
  · intro c
    simp only [linkedNode]
    rw [hnext]
    exact h.linked_nextSibling hi hnode c
  · simp only [linkedNode]
    rw [hcount]
    exact h.linked_childCount hi hnode
  · intro hend
    rw [List.length_append, List.length_singleton] at hend
    show SchemaNode.subtreeEnd (if closed then { node with subtreeEnd := ls.length } else node) = _
    rcases Nat.lt_or_eq_of_le (Preorder.subtreeEnd_le hi) with hlt | hopen
    · rw [if_neg fun hc => hlt.ne (hclosed.mp hc).1, Preorder.subtreeEnd_append_of_lt hi hlt]
      exact hnode.subtreeEnd hlt
    · rw [Preorder.subtreeEnd_append_of_open hi hopen] at hend ⊢
      by_cases hdeep : ls.getD i 0 < l
      · rw [if_pos hdeep] at hend
        omega
      · rw [if_neg hdeep, if_pos (hclosed.mpr ⟨hopen, Nat.le_of_not_lt hdeep⟩)]

/-- The new node has a parent and nothing else yet. -/
theorem Above.linked_new (h : Above ls l top) (hfresh : node.Fresh) :
    NodeLinked (ls ++ [l]) ls.length (linkedNode ls.length top ls.length node) := by
  have hlength : (ls ++ [l]).length = ls.length + 1 := List.length_append
  have hend := Preorder.subtreeEnd_append_length ls l
  have htop : ls.length ≠ top.ordinal := h.lt.ne'
  have hlast : top.lastChild ≠ some ls.length := fun hlast =>
    Nat.lt_irrefl _ ((h.lastChild _).mp hlast).1
  constructor
  · intro p
    simp only [linkedNode, if_true, Option.some.injEq]
    rw [h.isParent p]
    exact eq_comm
  · intro c
    simp only [linkedNode]
    rw [if_neg fun hnew => htop hnew.2, hfresh.firstChild, hlength]
    refine ⟨nofun, ?_⟩
    rintro ⟨rfl, hc, -⟩
    omega
  · intro c
    simp only [linkedNode]
    rw [if_neg hlast, hfresh.nextSibling, hlength, hend]
    refine ⟨nofun, ?_⟩
    rintro ⟨rfl, hc, -⟩
    omega
  · simp only [linkedNode]
    rw [if_neg htop, hfresh.childCount, Preorder.children_append_length]
    rfl
  · intro hlt
    rw [hend, hlength] at hlt
    omega

theorem closed_iff (h : TableFits ls table) (hle : l ≤ table.active.length) {i : ℕ}
    (hi : i < ls.length) :
    (∃ entry ∈ table.active.take (table.active.length - l), entry.ordinal = i) ↔
      subtreeEnd ls i = ls.length ∧ l ≤ ls.getD i 0 := by
  constructor
  · rintro ⟨entry, hmem, rfl⟩
    obtain ⟨hactive, hlevel⟩ := (h.path.mem_closed hle).mp hmem
    exact ⟨(h.path.of_mem hactive).2.2, hlevel⟩
  · rintro ⟨hopen, hlevel⟩
    obtain ⟨entry, hactive, rfl⟩ := h.complete i hi hopen
    exact ⟨entry, (h.path.mem_closed hle).mpr ⟨hactive, hlevel⟩, rfl⟩

/-- The path after a step: the new node on top of what was kept. -/
theorem pathFits_push {below : Option ℕ} (habove : Above ls l top)
    (hkept : PathFits ls below (top :: rest)) :
    PathFits (ls ++ [l]) none
      (⟨ls.length, none⟩ :: { top with lastChild := some ls.length } :: rest) := by
  have hlength : (ls ++ [l]).length = ls.length + 1 := List.length_append
  have hlevel := habove.level
  have hrest : rest.length + 1 = l := by
    have := hkept.1.2.1
    omega
  refine ⟨⟨?_, ?_, ?_, rfl⟩, ⟨?_, ?_, ?_, rfl⟩, hkept.2.append (by omega)⟩
  · rw [hlength]
    exact Nat.lt_succ_self _
  · rw [Preorder.getD_append_length, List.length_cons, hrest]
  · rw [Preorder.subtreeEnd_append_length, hlength]
  · rw [hlength]
    exact Nat.lt_succ_of_lt habove.lt
  · rw [Preorder.getD_append_left habove.lt]
    exact hkept.1.2.1
  · rw [Preorder.subtreeEnd_append_of_open habove.lt habove.isOpen, if_pos (by omega), hlength]

/-- Every node that is open after a step is on the new path. -/
theorem complete_push (h : TableFits ls table) (hle : l ≤ table.active.length)
    (hkept : table.active.drop (table.active.length - l) = top :: rest) {i : ℕ}
    (hi : i < (ls ++ [l]).length) (hopen : subtreeEnd (ls ++ [l]) i = (ls ++ [l]).length) :
    ∃ entry ∈ (⟨ls.length, none⟩ : ActiveNode) :: { top with lastChild := some ls.length } :: rest,
      entry.ordinal = i := by
  have hlength : (ls ++ [l]).length = ls.length + 1 := List.length_append
  rw [hlength] at hi hopen
  rcases Nat.lt_succ_iff_lt_or_eq.mp hi with hi | rfl
  · rcases Nat.lt_or_eq_of_le (Preorder.subtreeEnd_le hi) with hend | hopen'
    · rw [Preorder.subtreeEnd_append_of_lt hi hend] at hopen
      omega
    · -- an old node stays open when the new one is deeper, so it was kept
      rw [Preorder.subtreeEnd_append_of_open hi hopen'] at hopen
      have hdeep : ls.getD i 0 < l := by
        by_contra hle'
        rw [if_neg hle'] at hopen
        omega
      obtain ⟨entry, hmem, rfl⟩ := h.complete i hi hopen'
      have hstays := (h.path.mem_kept hle).mpr ⟨hmem, hdeep⟩
      rw [hkept] at hstays
      rcases List.mem_cons.mp hstays with rfl | hstays
      · exact ⟨_, List.mem_cons_of_mem _ List.mem_cons_self, rfl⟩
      · exact ⟨_, List.mem_cons_of_mem _ (List.mem_cons_of_mem _ hstays), rfl⟩
  · exact ⟨_, List.mem_cons_self, rfl⟩

/-- **A step of the loop** keeps the links those of the tree so far. -/
theorem tableFits_push (h : TableFits ls table) (hfresh : node.Fresh)
    (hpos : 0 < node.level.toNat) (hle : node.level.toNat ≤ table.active.length) :
    TableFits (ls ++ [node.level.toNat]) (table.push ls.length node) := by
  obtain ⟨l, hl⟩ : ∃ l, l = node.level.toNat := ⟨_, rfl⟩
  rw [← hl] at hpos hle ⊢
  -- the root stays, so something is kept
  obtain ⟨top, rest, hkept⟩ :
      ∃ top rest, table.active.drop (table.active.length - l) = top :: rest := by
    cases hdrop : table.active.drop (table.active.length - l) with
    | nil =>
        have := congrArg List.length hdrop
        rw [List.length_drop, List.length_nil] at this
        omega
    | cons top rest => exact ⟨top, rest, rfl⟩
  have habove := above_of_kept h hle hkept
  have hlast : top.lastChild ≠ some ls.length := fun hlast =>
    Nat.lt_irrefl _ ((habove.lastChild _).mp hlast).1
  obtain ⟨nodes, hnodes⟩ : ∃ nodes, nodes = closeNodes ls.length
    (table.active.take (table.active.length - l)) (table.nodes ++ [node]) := ⟨_, rfl⟩
  have hpush : table.push ls.length node =
      { nodes := (linkNode ls.length (top :: rest) nodes).1
        requests := table.requests ++ nodeRequests node
        active := ⟨ls.length, none⟩ :: { top with lastChild := some ls.length } :: rest
        maximumDepth := max table.maximumDepth node.level.toNat } := by
    unfold NodeTable.push
    dsimp only
    rw [← hl, hkept, hnodes]
    rfl
  -- row by row: what closing leaves, and what linking makes of it
  have hget := linkNode_getElem? habove.lt.ne hlast rest nodes
  have hold : ∀ i, nodes[i]? = (table.nodes ++ [node])[i]?.map fun node =>
      if ∃ entry ∈ table.active.take (table.active.length - l), entry.ordinal = i then
        { node with subtreeEnd := ls.length } else node := by
    intro i
    rw [hnodes]
    exact closeNodes_getElem? _ _ _ i
  rw [hpush]
  constructor
  · have hunlinked := congrArg List.length
      ((linkNode_unlinked ls.length (top :: rest) nodes).trans
        (hnodes ▸ closeNodes_unlinked ls.length _ (table.nodes ++ [node])))
    simpa [h.length] using hunlinked
  · obtain ⟨below, hpath, -⟩ := h.path.drop (Nat.sub_le table.active.length l)
    rw [hkept] at hpath
    exact pathFits_push habove hpath
  · intro i hi hopen
    exact complete_push h hle hkept hi hopen
  · intro i node' hnode'
    rw [hget, hold] at hnode'
    rcases Nat.lt_trichotomy i ls.length with hi | rfl | hi
    · rw [List.getElem?_append_left (h.length ▸ hi), Option.map_map] at hnode'
      obtain ⟨before, hbefore, rfl⟩ := Option.map_eq_some_iff.mp hnode'
      exact habove.linked hi (h.linked i before hbefore) (closed_iff h hle hi)
    · rw [← h.length, List.getElem?_concat_length, Option.map_some, Option.map_some,
        Option.some.injEq, h.length] at hnode'
      subst hnode'
      -- the path holds old nodes only, so the new one is not closed
      have hopen : ¬ ∃ entry ∈ table.active.take (table.active.length - l),
          entry.ordinal = ls.length := by
        rintro ⟨entry, hmem, he⟩
        have := (h.path.of_mem (List.mem_of_mem_take hmem)).1
        omega
      rw [if_neg hopen]
      exact habove.linked_new hfresh
    · rw [List.getElem?_eq_none (by rw [List.length_append, h.length]; exact hi)] at hnode'
      cases hnode'

end Push

/-! ## The whole tree -/

/-- **The loop** links the nodes of every sequence it accepts. -/
theorem tableFits_nodeTable {record : ℕ → SchemaNode} {maxDepth count : ℕ}
    (hfresh : ∀ i, (record i).Fresh) (h : LevelsFit record maxDepth 0 count) :
    TableFits (recordLevels record count) (nodeTable record count) := by
  induction count with
  | zero => exact tableFits_empty
  | succ count ih =>
      have htable := ih fun i hi hlt => h i hi (Nat.lt_succ_of_lt hlt)
      have hfits := h count (Nat.zero_le _) (Nat.lt_succ_self _)
      have hlevels : recordLevels record (count + 1) =
          recordLevels record count ++ [(record count).level.toNat] := by
        simp [recordLevels, List.range_succ]
      have hlength : (recordLevels record count).length = count := by simp [recordLevels]
      rw [hlevels, nodeTable]
      cases count with
      | zero =>
          have hroot : (record 0).level.toNat = 0 := by
            by_contra hne
            exact hfits.1 (Or.inl ⟨rfl, hne⟩)
          rw [hroot]
          exact tableFits_root (hfresh 0)
      | succ count =>
          have hpos : 0 < (record (count + 1)).level.toNat := by
            by_contra hzero
            exact hfits.1 (Or.inr ⟨Nat.succ_ne_zero count, Or.inl (by omega)⟩)
          have hpush := tableFits_push htable (hfresh (count + 1)) hpos (length_active hfits).1
          rwa [hlength] at hpush

/-- The closed table: the end of every subtree is known. -/
theorem nodeLinked_close {ls : List ℕ} {table : NodeTable} (h : TableFits ls table) {i : ℕ}
    {node : SchemaNode} (hnode : (table.close ls.length).nodes[i]? = some node) :
    NodeLinked ls i node ∧ node.subtreeEnd = subtreeEnd ls i ∧ i < ls.length := by
  rw [NodeTable.close, closeNodes_getElem?] at hnode
  obtain ⟨before, hbefore, rfl⟩ := Option.map_eq_some_iff.mp hnode
  have hi : i < ls.length := h.length ▸ (List.getElem?_eq_some_iff.mp hbefore).1
  have hlinked := h.linked i before hbefore
  by_cases hopen : ∃ entry ∈ table.active, entry.ordinal = i
  · rw [if_pos hopen]
    obtain ⟨entry, hmem, rfl⟩ := hopen
    have hend := (h.path.of_mem hmem).2.2
    exact ⟨⟨hlinked.parent, hlinked.firstChild, hlinked.nextSibling, hlinked.childCount,
      fun hlt => absurd hend hlt.ne⟩, hend.symm, hi⟩
  · rw [if_neg hopen]
    have hend : subtreeEnd ls i < ls.length :=
      Nat.lt_of_le_of_ne (Preorder.subtreeEnd_le hi) fun he => hopen (h.complete i hi he)
    exact ⟨hlinked, hlinked.subtreeEnd hend, hi⟩

/-- A node and the siblings behind it, as the links say. -/
inductive Siblings (nodes : List SchemaNode) : Option ℕ → List ℕ → Prop
  | nil : Siblings nodes none []
  | cons {i : ℕ} {node : SchemaNode} {later : List ℕ} (hnode : nodes[i]? = some node)
      (hlater : Siblings nodes node.nextSibling later) : Siblings nodes (some i) (i :: later)

/-- The nodes that have `i` as their parent. -/
def childrenOf (nodes : List SchemaNode) (i : ℕ) : List ℕ :=
  (List.range nodes.length).filter fun j => (nodeAt nodes j).parent == some i

/-- The links of a node in the tree that the levels denote. -/
structure TreeLinks (level : ℕ → ℕ) (nodes : List SchemaNode) (i : ℕ) (node : SchemaNode) :
    Prop where
  root : node.parent = none ↔ i = 0
  /-- The parent is the nearest earlier node one level up. -/
  parent : ∀ p, node.parent = some p ↔
    p < i ∧ level p + 1 = level i ∧ ∀ q, p < q → q < i → level q + 1 ≠ level i
  /-- The subtree ends at the first later node that is no deeper, or at the end. -/
  inSubtree : i < node.subtreeEnd ∧ ∀ j, i < j → j < node.subtreeEnd → level i < level j
  subtreeEnd : node.subtreeEnd = nodes.length ∨
    node.subtreeEnd < nodes.length ∧ level node.subtreeEnd ≤ level i
  firstChild : node.firstChild =
    if i + 1 < nodes.length ∧ level i < level (i + 1) then some (i + 1) else none
  /-- The chain of siblings is the children in order, as many as are counted. -/
  chain : Siblings nodes node.firstChild (childrenOf nodes i)
  childCount : (childrenOf nodes i).length = node.childCount

section Tree

variable {ls : List ℕ} {nodes : List SchemaNode}

/-- The nodes are linked as the whole sequence says. -/
def AllLinked (ls : List ℕ) (nodes : List SchemaNode) : Prop :=
  nodes.length = ls.length ∧ ∀ i node, nodes[i]? = some node →
    NodeLinked ls i node ∧ node.subtreeEnd = subtreeEnd ls i

theorem AllLinked.getElem? (h : AllLinked ls nodes) {i : ℕ} (hi : i < ls.length) :
    nodes[i]? = some (nodeAt nodes i) := by
  have hget := List.getElem?_eq_getElem (h.1 ▸ hi : i < nodes.length)
  rw [nodeAt, List.getD_eq_getElem?_getD, hget, Option.getD_some]

/-- From a child on, the siblings are the children that are left. -/
theorem siblings_from (h : AllLinked ls nodes) {level low : ℕ} (hlow : ls[low]? = some (level + 1)) :
    Siblings nodes (some low)
      (Preorder.childrenFrom ls level low (Preorder.scan ls level low)) := by
  obtain ⟨left, hleft⟩ : ∃ left, left = ls.length - low := ⟨_, rfl⟩
  induction left using Nat.strong_induction_on generalizing low with
  | _ left ih =>
      have hlt : low < ls.length := (List.getElem?_eq_some_iff.mp hlow).1
      have hlevel := Preorder.getD_of_getElem? hlow
      obtain ⟨hle, hscan⟩ := Preorder.subtreeEnd_le_scan hlow
      have hstart : low + 1 ≤ subtreeEnd ls low := Preorder.le_scan _ _ _
      rw [Preorder.childrenFrom_cons hlow hle]
      refine Siblings.cons (h.getElem? hlt) ?_
      have hnext := (h.2 low _ (h.getElem? hlt)).1.nextSibling
      rcases Nat.lt_or_eq_of_le hle with hbefore | hend
      · -- the subtree ends at a sibling
        have hsibling := Preorder.level_at_end hlow hbefore
        have hsiblinglt := (List.getElem?_eq_some_iff.mp hsibling).1
        have hsome : (nodeAt nodes low).nextSibling = some (subtreeEnd ls low) :=
          (hnext _).mpr ⟨rfl, hsiblinglt, (Preorder.getD_of_getElem? hsibling).trans hlevel.symm⟩
        rw [hsome, ← hscan]
        exact ih _ (by omega) hsibling rfl
      · -- it ends where its parent's does
        have hnone : (nodeAt nodes low).nextSibling = none := by
          cases hsome : (nodeAt nodes low).nextSibling with
          | none => rfl
          | some c =>
              obtain ⟨rfl, hc, hsame⟩ := (hnext c).mp hsome
              have hat : ls[Preorder.scan ls level low]? = some (ls.getD (subtreeEnd ls low) 0) :=
                hend ▸ Preorder.getElem?_of_lt hc
              have hstop := Preorder.le_of_scan hat
              omega
        rw [hnone, hend, Preorder.childrenFrom_eq_nil fun j hj hj' => absurd hj (by omega)]
        exact Siblings.nil

theorem firstChild_siblings (hvalid : Preorder.Valid ls) (h : AllLinked ls nodes) {i : ℕ}
    (hi : i < ls.length) : Siblings nodes (nodeAt nodes i).firstChild (children ls i) := by
  have hfirst := (h.2 i _ (h.getElem? hi)).1.firstChild
  by_cases hchild : i + 1 < ls.length ∧ ls.getD i 0 < ls.getD (i + 1) 0
  · have hsome : (nodeAt nodes i).firstChild = some (i + 1) :=
      (hfirst _).mpr ⟨rfl, hchild.1, hchild.2⟩
    have hlevel := hvalid.first_child (Preorder.getElem?_of_lt hi)
      (Preorder.getElem?_of_lt hchild.1) hchild.2
    rw [hsome]
    exact siblings_from h (hlevel ▸ Preorder.getElem?_of_lt hchild.1)
  · have hnone : (nodeAt nodes i).firstChild = none := by
      cases hsome : (nodeAt nodes i).firstChild with
      | none => rfl
      | some c =>
          obtain ⟨rfl, hc, hdeep⟩ := (hfirst c).mp hsome
          exact absurd ⟨hc, hdeep⟩ hchild
    have hempty : children ls i = [] := by
      refine Preorder.childrenFrom_eq_nil fun j hj hj' _ => hchild ?_
      obtain ⟨a, ha, hdeep⟩ := Preorder.lt_of_mem_subtree (Nat.le_refl (i + 1))
        (Nat.lt_of_le_of_lt hj hj')
      exact ⟨(List.getElem?_eq_some_iff.mp ha).1, Preorder.getD_of_getElem? ha ▸ hdeep⟩
    rw [hnone, hempty]
    exact Siblings.nil

/-- The nodes that name `i` as their parent are its children. -/
theorem childrenOf_eq (hvalid : Preorder.Valid ls) (h : AllLinked ls nodes) (i : ℕ) :
    childrenOf nodes i = children ls i := by
  have hsorted : (childrenOf nodes i).Pairwise (· < ·) :=
    List.Pairwise.filter _ (List.pairwise_lt_range)
  have hsorted' : (children ls i).Pairwise (· < ·) :=
    List.Pairwise.filter _ (List.pairwise_lt_range' _)
  refine List.Pairwise.eq_of_mem_iff hsorted hsorted' fun j => ?_
  rw [childrenOf, List.mem_filter, List.mem_range, h.1, beq_iff_eq]
  constructor
  · rintro ⟨hj, hparent⟩
    exact (hvalid.mem_children_iff hj).mpr (((h.2 j _ (h.getElem? hj)).1.parent i).mp hparent)
  · intro hmem
    have hj : j < ls.length := (List.getElem?_eq_some_iff.mp (Preorder.mem_children.mp hmem).2.2).1
    exact ⟨hj, ((h.2 j _ (h.getElem? hj)).1.parent i).mpr ((hvalid.mem_children_iff hj).mp hmem)⟩

theorem treeLinks (hvalid : Preorder.Valid ls) (h : AllLinked ls nodes) {level : ℕ → ℕ}
    (hlevel : ∀ i < ls.length, level i = ls.getD i 0) {i : ℕ} {node : SchemaNode}
    (hnode : nodes[i]? = some node) : TreeLinks level nodes i node := by
  have hi : i < ls.length := h.1 ▸ (List.getElem?_eq_some_iff.mp hnode).1
  obtain rfl : nodeAt nodes i = node := Option.some_inj.mp ((h.getElem? hi).symm.trans hnode)
  obtain ⟨hlinked, hend⟩ := h.2 i _ hnode
  have hparent : ∀ p, (nodeAt nodes i).parent = some p ↔
      p < i ∧ level p + 1 = level i ∧ ∀ q, p < q → q < i → level q + 1 ≠ level i := by
    intro p
    rw [hlinked.parent p]
    constructor
    · intro hp
      refine ⟨hp.before, ?_, fun q hpq hq => ?_⟩
      · rw [hlevel p (Nat.lt_trans hp.before hi), hlevel i hi, hp.level]
      · rw [hlevel q (Nat.lt_trans hq hi), hlevel i hi]
        exact hp.nearest q hpq hq
    · rintro ⟨hp, hup, hnearest⟩
      rw [hlevel p (Nat.lt_trans hp hi), hlevel i hi] at hup
      refine ⟨hp, hup, fun q hpq hq => ?_⟩
      have hne := hnearest q hpq hq
      rwa [hlevel q (Nat.lt_trans hq hi), hlevel i hi] at hne
  refine ⟨⟨fun hnone => ?_, ?_⟩, hparent, ⟨?_, fun j hij hj => ?_⟩, ?_, ?_, ?_, ?_⟩
  · by_contra hne
    obtain ⟨p, -, hmem⟩ := hvalid.exists_parent (Nat.pos_of_ne_zero hne) hi
    have := (hlinked.parent p).mpr (Preorder.isParent_of_mem hmem)
    rw [hnone] at this
    cases this
  · rintro rfl
    cases hsome : (nodeAt nodes 0).parent with
    | none => rfl
    | some p => exact absurd ((hparent p).mp hsome).1 (Nat.not_lt_zero p)
  · rw [hend]
    exact Preorder.le_scan _ _ _
  · rw [hend] at hj
    obtain ⟨a, ha, hdeep⟩ := Preorder.lt_of_mem_subtree hij hj
    rw [hlevel i hi, hlevel j (List.getElem?_eq_some_iff.mp ha).1, Preorder.getD_of_getElem? ha]
    exact hdeep
  · rw [hend, h.1]
    rcases Nat.lt_or_eq_of_le (Preorder.subtreeEnd_le hi) with hlt | he
    · refine Or.inr ⟨hlt, ?_⟩
      rw [hlevel _ hlt, hlevel i hi]
      exact Preorder.le_of_scan (Preorder.getElem?_of_lt hlt)
    · exact Or.inl he
  · rw [h.1]
    by_cases hchild : i + 1 < ls.length ∧ level i < level (i + 1)
    · rw [if_pos hchild, hlinked.firstChild]
      rw [hlevel i hi, hlevel (i + 1) hchild.1] at hchild
      exact ⟨rfl, hchild⟩
    · rw [if_neg hchild]
      cases hsome : (nodeAt nodes i).firstChild with
      | none => rfl
      | some c =>
          obtain ⟨rfl, hc, hdeep⟩ := (hlinked.firstChild c).mp hsome
          rw [← hlevel i hi, ← hlevel (i + 1) hc] at hdeep
          exact absurd ⟨hc, hdeep⟩ hchild
  · rw [childrenOf_eq hvalid h i]
    exact firstChild_siblings hvalid h hi
  · rw [childrenOf_eq hvalid h i]
    exact hlinked.childCount.symm

end Tree

theorem length_recordLevels (record : ℕ → SchemaNode) (count : ℕ) :
    (recordLevels record count).length = count := by simp [recordLevels]

/-- The table of the records, once it is closed. -/
theorem allLinked_close {record : ℕ → SchemaNode} {maxDepth count : ℕ}
    (hfresh : ∀ i, (record i).Fresh) (h : LevelsFit record maxDepth 0 count) :
    AllLinked (recordLevels record count) ((nodeTable record count).close count).nodes := by
  have hlength := length_recordLevels record count
  have hunlinked := congrArg List.length (close_unlinked record count)
  rw [List.length_map, List.length_map, List.length_range] at hunlinked
  refine ⟨hunlinked.trans hlength.symm, fun i node hnode => ?_⟩
  obtain ⟨hlinked, hend, -⟩ :=
    nodeLinked_close (tableFits_nodeTable hfresh h) (by rw [hlength]; exact hnode)
  exact ⟨hlinked, hend⟩

section Run

variable {limits : SchemaLimits} {mapped : Text} {endianSelector : UInt8} {nodesSource : PrefixSpan}
  {count : ℕ} {answers : ℕ → Bool} {compile compile' : SchemaCompile} {n n' : ℕ}
  {table : NodeTable}

/-- A record comes without links. -/
theorem decodeSchemaNode_fresh (i : ℕ) :
    (decodeSchemaNode mapped endianSelector nodesSource i).Fresh := ⟨rfl, rfl, rfl, rfl⟩

/-- The levels of the records. -/
def sourceLevel (mapped : Text) (endianSelector : UInt8) (nodesSource : PrefixSpan) (i : ℕ) : ℕ :=
  (decodeSchemaNode mapped endianSelector nodesSource i).level.toNat

theorem compileNodes_within (hpos : 0 < count)
    (h : compileNodes limits mapped endianSelector nodesSource count answers compile n =
      .ok table compile' n') : compile.workUsed ≤ limits.maxWork := by
  obtain ⟨_, _, _, hfrom, -⟩ := Call.bind_eq_ok.mp h
  obtain ⟨count, rfl⟩ : ∃ rest, count = rest + 1 := ⟨count - 1, by omega⟩
  obtain ⟨_, _, _, hnode, -⟩ := Call.bind_eq_ok.mp hfrom
  obtain ⟨_, _, _, hcharge, -⟩ := Call.bind_eq_ok.mp hnode
  obtain ⟨hroom, -⟩ := Call.require_bind_eq_ok.mp (Call.current_bind_eq_ok.mp hcharge)
  simp only [nodeBytes] at hroom
  omega

/-- What the nodes are that a run returns. -/
theorem compileNodes_ok
    (h : compileNodes limits mapped endianSelector nodesSource count answers compile n =
      .ok table compile' n') :
    LevelsFit (decodeSchemaNode mapped endianSelector nodesSource) limits.maxDepth 0 count ∧
      table =
        (nodeTable (decodeSchemaNode mapped endianSelector nodesSource) count).close count := by
  rcases Nat.eq_zero_or_pos count with rfl | hpos
  · cases h
    exact ⟨fun i _ hi => absurd hi (Nat.not_lt_zero i), rfl⟩
  · have hfollows := follows_compileNodes limits mapped endianSelector nodesSource count
      (compileNodes_within hpos h)
    by_cases hfit : LevelsFit (decodeSchemaNode mapped endianSelector nodesSource) limits.maxDepth 0
      count
    · exact ⟨hfit, ((hfollows.needs (nodesPlan_of_fit hfit 0) answers n).of_ok h).1⟩
    · obtain ⟨e, u, m, herr, -⟩ := hfollows.stops (nodesPlan_of_unfit hfit 0) answers n
      rw [h] at herr
      cases herr

/-- **The links are those of the tree that the levels denote**, of every node
of every sequence that is accepted, and its subtrees are nested or apart. -/
theorem compileNodes_links
    (h : compileNodes limits mapped endianSelector nodesSource count answers compile n =
      .ok table compile' n') :
    table.nodes.length = count ∧
    (∀ (i : ℕ) (node : SchemaNode), table.nodes[i]? = some node →
      TreeLinks (sourceLevel mapped endianSelector nodesSource) table.nodes i node) ∧
    ∀ (i j : ℕ) (node node' : SchemaNode), table.nodes[i]? = some node →
      table.nodes[j]? = some node' → i < j →
        node.subtreeEnd ≤ j ∨ node'.subtreeEnd ≤ node.subtreeEnd := by
  obtain ⟨hfit, rfl⟩ := compileNodes_ok h
  have hlinked := allLinked_close decodeSchemaNode_fresh hfit
  have hnodes := hlinked.1.trans (length_recordLevels _ count)
  refine ⟨hnodes, fun i node hnode => ?_, fun i j node node' hnode hnode' hij => ?_⟩
  · have hi : i < count := hnodes ▸ (List.getElem?_eq_some_iff.mp hnode).1
    refine treeLinks ((levelsFit_iff (by omega)).mp hfit).1 hlinked (fun j hj => ?_) hnode
    rw [length_recordLevels] at hj
    exact (Preorder.getD_of_getElem? (recordLevels_getElem? hj)).symm
  · rw [(hlinked.2 i node hnode).2, (hlinked.2 j node' hnode').2]
    exact Preorder.subtree_nested hij

end Run

/-- Records of the levels 0, 1, 2 and 1. -/
def sampleLevels : Text :=
  ([0, 1, 2, 1] : Text).flatMap fun level => [1, 0, level] ++ List.replicate 29 0

def sampleLinks : Call.Result SchemaReject SchemaCompile NodeTable :=
  compileNodes ⟨4, 0, 2, 0, 0, 200⟩ sampleLevels 0 ⟨0, 128⟩ 4 Call.granted {} 0

def sampleLinked : Bool :=
  match sampleLinks with
  | .ok table _ _ => childrenOf table.nodes 0 == [1, 3]
  | .error _ _ _ => false

theorem compileNodes_links_sample :
    ∃ table compile' n', sampleLinks = .ok table compile' n' ∧ childrenOf table.nodes 0 = [1, 3] ∧
      ∀ i node, table.nodes[i]? = some node →
        TreeLinks (sourceLevel sampleLevels 0 ⟨0, 128⟩) table.nodes i node := by
  have hlinked : sampleLinked = true := by decide +kernel
  unfold sampleLinked at hlinked
  cases hrun : sampleLinks with
  | ok table compile' n' =>
      rw [hrun] at hlinked
      exact ⟨table, compile', n', rfl, eq_of_beq hlinked, (compileNodes_links hrun).2.1⟩
  | error e compile' n' =>
      rw [hrun] at hlinked
      cases hlinked

end UnityCommon.Metadata
