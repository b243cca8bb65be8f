import UnityCommon.TypeTree.Parse

/-!
# Progress of the parser

Every successful parse moves to a larger node index, so the number of nodes is
enough fuel. The two loops are stated for a pair of element parsers that differ
by a map on values: with the identity they say that the loops depend on the
parser only where they call it.
-/

namespace UnityCommon.TypeTree

variable {type : TypeTreeType} {flags : UInt32}

theorem le_skipDeeper (type : TypeTreeType) (level start : ℕ) :
    start ≤ skipDeeper type level start := Nat.le_add_right _ _

/-- A parse result with its value mapped. -/
def mapValue (g : TypeTreeValue → TypeTreeValue) :
    TypeTreeValue × ℕ × ByteStream → TypeTreeValue × ℕ × ByteStream :=
  fun (value, index, stream) => (g value, index, stream)

theorem mapValue_id_eq {a b : Option (TypeTreeValue × ℕ × ByteStream)} (h : a = b) :
    a.map (mapValue id) = b := by
  rw [← h]
  cases a <;> rfl

/-- A leaf is read as an integer or a float under its own names. -/
theorem parseScalar_value {node : TypeTreeNode} {stream stream' : ByteStream}
    {value : TypeTreeValue} (h : parseScalar node stream = some (value, stream')) :
    (∃ isUnsigned bits, value = .int (namesOf node) isUnsigned bits) ∨
      ∃ bits, value = .float (namesOf node) bits := by
  unfold parseScalar at h
  simp only at h
  split at h
  · obtain ⟨_, -, he⟩ := Option.map_eq_some_iff.mp h
    cases he
    exact Or.inl ⟨_, _, rfl⟩
  split at h
  · obtain ⟨_, -, he⟩ := Option.map_eq_some_iff.mp h
    cases he
    exact Or.inl ⟨_, _, rfl⟩
  split at h
  · obtain ⟨_, -, he⟩ := Option.bind_eq_some_iff.mp h
    split at he
    · cases he
      exact Or.inr ⟨_, rfl⟩
    split at he
    · cases he
      exact Or.inl ⟨_, _, rfl⟩
    · cases he
  split at h
  · obtain ⟨_, -, he⟩ := Option.bind_eq_some_iff.mp h
    split at he
    · cases he
      exact Or.inr ⟨_, rfl⟩
    split at he
    · cases he
      exact Or.inl ⟨_, _, rfl⟩
    · cases he
  · cases h

/-! ## The loops -/

theorem parseElements_map {g : TypeTreeValue → TypeTreeValue}
    {parse parse' : ByteStream → Option (TypeTreeValue × ByteStream)}
    (h : ∀ stream, (parse stream).map (fun (value, stream) => (g value, stream)) =
      parse' stream) : ∀ (count : ℕ) (stream : ByteStream),
    (parseElements parse count stream).map (fun (values, stream) => (values.map g, stream)) =
      parseElements parse' count stream := by
  intro count
  induction count with
  | zero =>
      intro stream
      rfl
  | succ count ih =>
      intro stream
      rw [parseElements, parseElements, ← h stream]
      cases parse stream with
      | none => rfl
      | some result =>
          obtain ⟨value, stream⟩ := result
          simp only [Option.bind_some, Option.map_some, ← ih stream, Option.map_map]
          rfl

/-- What a member parser must do at the indices a loop reaches. -/
def Advances (parse : ℕ → ByteStream → Option (TypeTreeValue × ℕ × ByteStream))
    (low : ℕ) : Prop :=
  ∀ index stream value index' stream', low ≤ index →
    parse index stream = some (value, index', stream') → index < index'

theorem parseMembers_le {level : ℕ}
    {parse : ℕ → ByteStream → Option (TypeTreeValue × ℕ × ByteStream)} (low : ℕ)
    (hadv : Advances parse low) : ∀ (fuel index : ℕ) (stream : ByteStream) {values index' stream'},
    low ≤ index → parseMembers type level parse fuel index stream =
      some (values, index', stream') → index ≤ index' := by
  intro fuel
  induction fuel with
  | zero =>
      intro index stream values index' stream' _ h
      cases h
  | succ fuel ih =>
      intro index stream values index' stream' hlow h
      rw [parseMembers] at h
      split at h
      · cases h
        exact Nat.le_refl _
      split at h
      · cases h
        exact Nat.le_refl _
      split at h
      · obtain ⟨⟨value, next, stream₁⟩, hparse, hrest⟩ := Option.bind_eq_some_iff.mp h
        obtain ⟨⟨values₁, last, stream₂⟩, hloop, he⟩ := Option.map_eq_some_iff.mp hrest
        have hlt := hadv _ _ _ _ _ hlow hparse
        have hle := ih next stream₁ (by omega) hloop
        cases he
        omega
      · have := ih (index + 1) stream (by omega) h
        omega

theorem parseMembers_map (g : TypeTreeValue → TypeTreeValue) {level : ℕ}
    {parse parse' : ℕ → ByteStream → Option (TypeTreeValue × ℕ × ByteStream)} (low : ℕ)
    (hadv : Advances parse low)
    (h : ∀ index, low ≤ index → ∀ stream,
      (parse index stream).map (mapValue g) = parse' index stream) :
    ∀ (fuel index : ℕ) (stream : ByteStream), low ≤ index →
      (parseMembers type level parse fuel index stream).map
          (fun (values, index, stream) => (values.map g, index, stream)) =
        parseMembers type level parse' fuel index stream := by
  intro fuel
  induction fuel with
  | zero =>
      intro index stream _
      rfl
  | succ fuel ih =>
      intro index stream hlow
      rw [parseMembers, parseMembers]
      cases type.nodes[index]? with
      | none => rfl
      | some child =>
          by_cases hout : child.level.toNat ≤ level
          · simp [hout]
          simp only [if_neg hout]
          by_cases hchild : child.level.toNat = level + 1
          · simp only [if_pos hchild, ← h index hlow stream]
            cases hparse : parse index stream with
            | none => rfl
            | some result =>
                obtain ⟨value, next, stream₁⟩ := result
                have hlt := hadv _ _ _ _ _ hlow hparse
                simp only [Option.bind_some, Option.map_some, mapValue,
                  ← ih next stream₁ (by omega), Option.map_map]
                rfl
          · simp only [if_neg hchild]
            exact ih (index + 1) stream (by omega)

/-! ## The recursion -/

/-- **Every parse moves forward.** -/
theorem parseInternal_advances : ∀ (fuel : ℕ) {index : ℕ} {suppress : Bool}
    {stream stream' : ByteStream} {value : TypeTreeValue} {index' : ℕ},
    parseInternal type flags fuel index suppress stream = some (value, index', stream') →
      index < index' := by
  intro fuel
  induction fuel with
  | zero =>
      intro index suppress stream stream' value index' h
      cases h
  | succ fuel ih =>
      intro index suppress stream stream' value index' h
      obtain ⟨node, -, hread⟩ := readAs_of_parseInternal h
      have hskip := le_skipDeeper type node.level.toNat (index + 1)
      cases hread with
      | leaf hleaf h =>
          obtain ⟨stream₁, -, -, rfl⟩ := parseLeaf_eq_some.mp h
          exact Nat.lt_succ_self index
      | string hchildren hstring h =>
          obtain ⟨size, bytes, stream₁, stream₂, -, -, -, -, rfl⟩ := parseString_eq_some.mp h
          exact hskip
      | array hchildren hstring harray h =>
          obtain ⟨size, stream₁, stream₂, aligned, -, -, -, -, rfl⟩ := parseArray_eq_some h
          exact hskip
      | struct hchildren hstring harray h =>
          obtain ⟨values, members, stream₁, hmembers, -, -, -⟩ := parseStruct_eq_some h
          split at hmembers
          · cases hmembers
            exact Nat.le_refl _
          · exact parseMembers_le 0 (fun _ _ _ _ _ _ hp => ih hp) _ _ _ (Nat.zero_le _) hmembers

/-- **The fuel does not matter** once it covers the remaining nodes. -/
theorem parseInternal_fuel : ∀ (fuel : ℕ) {fuel' index : ℕ} (suppress : Bool)
    (stream : ByteStream), type.nodes.length ≤ index + fuel → fuel ≤ fuel' →
    parseInternal type flags fuel index suppress stream =
      parseInternal type flags fuel' index suppress stream := by
  intro fuel
  induction fuel with
  | zero =>
      intro fuel' index suppress stream hfuel _
      have hnone : type.nodes[index]? = none := List.getElem?_eq_none (by omega)
      cases fuel' with
      | zero => rfl
      | succ fuel' => simp [parseInternal, hnone]
  | succ fuel ih =>
      intro fuel' index suppress stream hfuel hle
      obtain ⟨fuel', rfl⟩ : ∃ f, fuel' = f + 1 := ⟨fuel' - 1, by omega⟩
      have hdata : (fun stream => (parseInternal type flags fuel (index + 3) true stream).map
            fun (value, _, stream) => (value, stream)) =
          fun stream => (parseInternal type flags fuel' (index + 3) true stream).map
            fun (value, _, stream) => (value, stream) := by
        funext stream
        rw [ih true stream (by omega) (by omega : fuel ≤ fuel')]
      have hmembers : ∀ (node : TypeTreeNode) (stream : ByteStream),
          parseMembers type node.level.toNat
              (fun index stream => parseInternal type flags fuel index false stream)
              (type.nodes.length + 1) (index + 1) stream =
            parseMembers type node.level.toNat
              (fun index stream => parseInternal type flags fuel' index false stream)
              (type.nodes.length + 1) (index + 1) stream := by
        intro node stream
        refine Eq.trans ?_ (parseMembers_map id (index + 1)
          (fun _ _ _ _ _ _ hp => parseInternal_advances fuel hp)
          (fun i hi s => mapValue_id_eq (ih false s (by omega) (by omega : fuel ≤ fuel')))
          (type.nodes.length + 1) (index + 1) stream (Nat.le_refl _))
        cases parseMembers type node.level.toNat
            (fun index stream => parseInternal type flags fuel index false stream)
            (type.nodes.length + 1) (index + 1) stream with
        | none => rfl
        | some result => simp
      rw [parseInternal, parseInternal]
      cases type.nodes[index]? with
      | none => rfl
      | some node =>
          simp only [hdata]
          split
          · rfl
          split
          · rfl
          split
          · rfl
          · simp only [parseStruct, hmembers node stream]

end UnityCommon.TypeTree
