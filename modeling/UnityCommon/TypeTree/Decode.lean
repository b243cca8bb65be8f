import UnityCommon.TypeTree.Coverage

/-!
# The parser and its reference decoder

A failed parse in the source does not say why. Here it does, and the number of
nested calls is a budget. With the early rejection of a count above the bytes
that are left the decoder is the parser; without it, it is the reference. On a
validated schema the two have the same results, because no value is empty.
-/

namespace UnityCommon.TypeTree

/-! ## The decoder -/

/-- Why a parse gives up. -/
inductive ParseFailure where
  /-- Fewer bytes were left than a read or an alignment takes. -/
  | truncated
  /-- An array count above `INT_MAX`. -/
  | countLimit
  /-- An array count above the bytes that are left. -/
  | countPastEnd
  /-- The schema has no rule for what comes next. -/
  | noRule
  | tooDeep
deriving DecidableEq, Repr

/-- The result of a read of `width` bytes. -/
def needBytes {α : Type} (width : ℕ) (stream : ByteStream) (result : Option α) :
    Except ParseFailure α :=
  match result with
  | some a => .ok a
  | none => .error (if stream.remaining < width then .truncated else .noRule)

/-- The bytes that `stream_align` skips. -/
def padding (stream : ByteStream) : ℕ := (4 - stream.position % 4) % 4

def decodeAlign (flag : Bool) (stream : ByteStream) : Except ParseFailure ByteStream :=
  needBytes (padding stream) stream (alignWhen flag stream)

def decodeLeaf (node : TypeTreeNode) (index : ℕ) (suppress : Bool) (stream : ByteStream) :
    Except ParseFailure (TypeTreeValue × ℕ × ByteStream) :=
  (needBytes node.byteSize.toInt.toNat stream (parseScalar node stream)).bind
    fun (value, stream) =>
      (decodeAlign (!suppress && wantsAlign node.metaFlags) stream).map fun stream =>
        (value, index + 1, stream)

def decodeString (type : TypeTreeType) (node : TypeTreeNode) (index : ℕ) (stream : ByteStream) :
    Except ParseFailure (TypeTreeValue × ℕ × ByteStream) :=
  (needBytes 4 stream stream.readUInt32).bind fun (size, stream) =>
    (needBytes size.toNat stream (stream.readBytes size.toNat)).bind fun (bytes, stream) =>
      (decodeAlign true stream).map fun stream =>
        (.string (namesOf node) bytes, skipDeeper type node.level.toNat (index + 1), stream)

def decodeElements (decode : ByteStream → Except ParseFailure (TypeTreeValue × ByteStream)) :
    ℕ → ByteStream → Except ParseFailure (List TypeTreeValue × ByteStream)
  | 0, stream => .ok ([], stream)
  | count + 1, stream =>
      (decode stream).bind fun (value, stream) =>
        (decodeElements decode count stream).map fun (values, stream) => (value :: values, stream)

def decodeArray (type : TypeTreeType) (early : Bool) (node : TypeTreeNode) (index : ℕ)
    (suppress : Bool) (decode : ByteStream → Except ParseFailure (TypeTreeValue × ByteStream))
    (stream : ByteStream) : Except ParseFailure (TypeTreeValue × ℕ × ByteStream) :=
  match type.nodes[index + 1]?, type.nodes[index + 2]?, type.nodes[index + 3]? with
  | some array, some sizeNode, some data =>
      if sizeNode.level ≤ node.level ∨ data.level ≤ node.level then .error .noRule
      else
        (needBytes 4 stream stream.readUInt32).bind fun (size, stream) =>
          if intMax < size.toNat then .error .countLimit
          else if early ∧ stream.remaining < size.toNat then .error .countPastEnd
          else
            (decodeElements decode size.toNat stream).bind fun (values, stream) =>
              (decodeAlign (wantsAlign (array.metaFlags ||| data.metaFlags) ||
                  (!suppress && wantsAlign node.metaFlags)) stream).map fun stream =>
                (.array (namesOf node) values, skipDeeper type node.level.toNat (index + 1), stream)
  | _, _, _ => .error .noRule

def decodeMembers (type : TypeTreeType) (level : ℕ)
    (decode : ℕ → ByteStream → Except ParseFailure (TypeTreeValue × ℕ × ByteStream)) :
    ℕ → ℕ → ByteStream → Except ParseFailure (List TypeTreeValue × ℕ × ByteStream)
  | 0, _, _ => .error .noRule
  | rounds + 1, index, stream =>
      match type.nodes[index]? with
      | none => .ok ([], index, stream)
      | some child =>
          if child.level.toNat ≤ level then .ok ([], index, stream)
          else if child.level.toNat = level + 1 then
            (decode index stream).bind fun (value, index, stream) =>
              (decodeMembers type level decode rounds index stream).map
                fun (values, index, stream) => (value :: values, index, stream)
          else decodeMembers type level decode rounds (index + 1) stream

def decodeStruct (type : TypeTreeType) (node : TypeTreeNode) (index : ℕ) (suppress : Bool)
    (decode : ℕ → ByteStream → Except ParseFailure (TypeTreeValue × ℕ × ByteStream))
    (stream : ByteStream) : Except ParseFailure (TypeTreeValue × ℕ × ByteStream) :=
  let rounds := type.nodes.length + 1
  let childCount := countChildren type node.level.toNat rounds (index + 1)
  (if childCount = 0 then .ok ([], index + 1, stream)
  else decodeMembers type node.level.toNat decode rounds (index + 1) stream).bind
    fun (values, index, stream) =>
      (needBytes 0 stream (memberSlots childCount values)).bind fun members =>
        (decodeAlign (!suppress && wantsAlign node.metaFlags) stream).map fun stream =>
          (.struct (namesOf node) members, index, stream)

/-- `depth` is how many calls may nest. -/
def decodeInternal (type : TypeTreeType) (early : Bool) :
    ℕ → ℕ → Bool → ByteStream → Except ParseFailure (TypeTreeValue × ℕ × ByteStream)
  | 0, _, _, _ => .error .tooDeep
  | depth + 1, index, suppress, stream =>
      match type.nodes[index]? with
      | none => .error .noRule
      | some node =>
          if !nodeHasChildren type index then decodeLeaf node index suppress stream
          else if textIs node.typeStr "string" then decodeString type node index stream
          else if ownsArray type index then
            decodeArray type early node index suppress
              (fun stream => (decodeInternal type early depth (index + 3) true stream).map
                fun (value, _, stream) => (value, stream))
              stream
          else decodeStruct type node index suppress
            (fun index stream => decodeInternal type early depth index false stream) stream

/-- The levels of a schema are bytes. -/
def maxNesting : ℕ := 256

/-- The whole schema, with at most `maxNesting` calls under way at a time. -/
def decodeValue (type : TypeTreeType) (early : Bool) (stream : ByteStream) :
    Except ParseFailure (TypeTreeValue × ℕ × ByteStream) :=
  decodeInternal type early maxNesting 0 false stream

/-! ## Results -/

section

variable {ε α β : Type}

theorem bind_eq_ok {x : Except ε α} {f : α → Except ε β} {b : β} :
    x.bind f = .ok b ↔ ∃ a, x = .ok a ∧ f a = .ok b := by
  cases x with
  | error e => simp [Except.bind]
  | ok a => simp [Except.bind]

theorem bind_eq_error {x : Except ε α} {f : α → Except ε β} {e : ε} :
    x.bind f = .error e ↔ x = .error e ∨ ∃ a, x = .ok a ∧ f a = .error e := by
  cases x with
  | error e => simp [Except.bind]
  | ok a => simp [Except.bind]

theorem map_eq_error {x : Except ε α} {f : α → β} {e : ε} :
    x.map f = .error e ↔ x = .error e := by
  cases x <;> simp [Except.map]

@[simp] theorem toOption_bind (x : Except ε α) (f : α → Except ε β) :
    (x.bind f).toOption = x.toOption.bind fun a => (f a).toOption := by
  cases x <;> rfl

@[simp] theorem toOption_map (x : Except ε α) (f : α → β) :
    (x.map f).toOption = x.toOption.map f := by
  cases x <;> rfl

@[simp] theorem toOption_error (e : ε) : (Except.error e : Except ε α).toOption = none := rfl

@[simp] theorem toOption_ok (a : α) : (Except.ok a : Except ε α).toOption = some a := rfl

theorem toOption_eq_some {x : Except ε α} {a : α} : x.toOption = some a ↔ x = .ok a := by
  cases x <;> simp

@[simp] theorem toOption_needBytes (width : ℕ) (stream : ByteStream) (result : Option α) :
    (needBytes width stream result).toOption = result := by
  cases result <;> rfl

end

/-! ## The parser is the decoder that rejects early -/

theorem toOption_decodeElements
    {decode : ByteStream → Except ParseFailure (TypeTreeValue × ByteStream)}
    {parse : ByteStream → Option (TypeTreeValue × ByteStream)}
    (h : ∀ stream, (decode stream).toOption = parse stream) (count : ℕ) (stream : ByteStream) :
    (decodeElements decode count stream).toOption = parseElements parse count stream := by
  induction count generalizing stream with
  | zero => rfl
  | succ count ih => simp only [decodeElements, parseElements, toOption_bind, toOption_map, h, ih]

theorem toOption_decodeMembers {type : TypeTreeType} {level : ℕ}
    {decode : ℕ → ByteStream → Except ParseFailure (TypeTreeValue × ℕ × ByteStream)}
    {parse : ℕ → ByteStream → Option (TypeTreeValue × ℕ × ByteStream)}
    (h : ∀ index stream, (decode index stream).toOption = parse index stream)
    (rounds index : ℕ) (stream : ByteStream) :
    (decodeMembers type level decode rounds index stream).toOption =
      parseMembers type level parse rounds index stream := by
  induction rounds generalizing index stream with
  | zero => rfl
  | succ rounds ih =>
      rw [decodeMembers, parseMembers]
      cases type.nodes[index]? with
      | none => rfl
      | some child =>
          dsimp only
          split
          · rfl
          split
          · simp only [toOption_bind, toOption_map, h, ih]
          · exact ih _ _

theorem toOption_decodeStruct {type : TypeTreeType} {node : TypeTreeNode} {index : ℕ}
    {suppress : Bool} {stream : ByteStream}
    {decode : ℕ → ByteStream → Except ParseFailure (TypeTreeValue × ℕ × ByteStream)}
    {parse : ℕ → ByteStream → Option (TypeTreeValue × ℕ × ByteStream)}
    (h : ∀ index stream, (decode index stream).toOption = parse index stream) :
    (decodeStruct type node index suppress decode stream).toOption =
      parseStruct type node index suppress parse stream := by
  simp only [decodeStruct, parseStruct, toOption_bind, toOption_map, toOption_needBytes,
    decodeAlign]
  congr 1
  split
  · rfl
  · exact toOption_decodeMembers h _ _ _

theorem parseArrayValue_default {type : TypeTreeType} {node : TypeTreeNode} {index size : ℕ}
    {parse : ByteStream → Option (TypeTreeValue × ByteStream)} {stream : ByteStream} :
    parseArrayValue type 0 node index size parse stream =
      (parseElements parse size stream).map fun (values, stream) =>
        (.array (namesOf node) values, stream) := by
  have hplain : packsArray type 0 (index + 3) = false := by
    unfold packsArray
    split <;> simp
  rw [parseArrayValue, hplain, if_neg (by simp)]

/-- What is rejected early cannot be read. -/
theorem toOption_decodeArray {type : TypeTreeType} {early : Bool} {node : TypeTreeNode} {index : ℕ}
    {suppress : Bool} {stream : ByteStream}
    {decode : ByteStream → Except ParseFailure (TypeTreeValue × ByteStream)}
    {parse : ByteStream → Option (TypeTreeValue × ByteStream)}
    (h : ∀ stream, (decode stream).toOption = parse stream)
    (hshort : early = true ∨ ∀ size stream, stream.remaining < size →
      parseElements parse size stream = none) :
    (decodeArray type early node index suppress decode stream).toOption =
      parseArray type 0 node index suppress parse stream := by
  unfold decodeArray parseArray
  cases type.nodes[index + 1]? with
  | none => rfl
  | some array =>
  cases type.nodes[index + 2]? with
  | none => rfl
  | some sizeNode =>
  cases type.nodes[index + 3]? with
  | none => rfl
  | some data =>
      dsimp only
      split
      · rfl
      simp only [toOption_bind, toOption_needBytes]
      congr 1
      funext ⟨size, stream⟩
      dsimp only
      by_cases hlimit : intMax < size.toNat
      · rw [if_pos hlimit, if_pos (Or.inl hlimit), toOption_error]
      rw [if_neg hlimit]
      simp only [hlimit, false_or, parseArrayValue_default]
      by_cases hrem : stream.remaining < size.toNat
      · rw [if_pos hrem]
        rcases hshort with rfl | hshort
        · rw [if_pos ⟨rfl, hrem⟩, toOption_error]
        · split
          · rfl
          · rw [toOption_bind, toOption_decodeElements h, hshort _ _ hrem]
            rfl
      · rw [if_neg hrem, if_neg (fun hand => hrem hand.2), toOption_bind,
          toOption_decodeElements h]
        cases parseElements parse size.toNat stream with
        | none => rfl
        | some result => simp [decodeAlign]

/-! ## Every value takes a byte -/

section

variable {stream stream' : ByteStream}

theorem remaining_advance {count : ℕ} (h : ¬ stream.remaining < count) :
    (stream.advance count).remaining + count = stream.remaining := by
  unfold ByteStream.remaining ByteStream.advance at *
  dsimp only
  omega

theorem readBytes_remaining {count : ℕ} {bytes : Text}
    (h : stream.readBytes count = some (bytes, stream')) :
    stream'.remaining + count = stream.remaining := by
  unfold ByteStream.readBytes at h
  split at h
  · cases h
  · cases h
    exact remaining_advance (by assumption)

theorem readBytes_eq_none {count : ℕ} (h : stream.readBytes count = none) :
    stream.remaining < count := by
  unfold ByteStream.readBytes at h
  split at h
  · assumption
  · cases h

theorem readNat_remaining {width n : ℕ} (h : stream.readNat width = some (n, stream')) :
    stream'.remaining + width = stream.remaining := by
  obtain ⟨⟨raw, s⟩, hread, he⟩ := Option.map_eq_some_iff.mp h
  cases he
  exact readBytes_remaining hread

theorem readNat_eq_none {width : ℕ} (h : stream.readNat width = none) :
    stream.remaining < width :=
  readBytes_eq_none (Option.map_eq_none_iff.mp h)

/-- A fixed-width read takes its width. -/
theorem readMap_remaining {α : Type} {g : ℕ → α} {width : ℕ} {value : α}
    (h : (stream.readNat width).map (fun (n, s) => (g n, s)) = some (value, stream')) :
    stream'.remaining + width = stream.remaining := by
  obtain ⟨⟨n, s⟩, hread, he⟩ := Option.map_eq_some_iff.mp h
  cases he
  exact readNat_remaining hread

theorem readUInt32_remaining {value : UInt32} (h : stream.readUInt32 = some (value, stream')) :
    stream'.remaining + 4 = stream.remaining := readMap_remaining h

theorem readMap_eq_none {α : Type} {g : ℕ × ByteStream → α} {width : ℕ}
    (h : (stream.readNat width).map g = none) : stream.remaining < width :=
  readNat_eq_none (Option.map_eq_none_iff.mp h)

theorem alignWhen_remaining {flag : Bool} (h : alignWhen flag stream = some stream') :
    stream'.remaining ≤ stream.remaining := by
  unfold alignWhen ByteStream.align ByteStream.skip at h
  split at h
  · split at h
    · cases h
      exact Nat.le_refl _
    simp only at h
    split at h
    · split at h
      · cases h
      · rename_i hfit
        cases h
        have := remaining_advance hfit
        omega
    · cases h
      exact Nat.le_refl _
  · cases h
    exact Nat.le_refl _

theorem alignWhen_eq_none {flag : Bool} (h : alignWhen flag stream = none) :
    stream.remaining < padding stream := by
  unfold alignWhen ByteStream.align ByteStream.skip at h
  unfold padding
  split at h
  · rw [if_neg (by decide)] at h
    simp only at h
    split at h
    · split at h
      · omega
      · cases h
    · cases h
  · cases h

/-- A scalar is read whole, and none is empty. -/
theorem parseScalar_remaining {node : TypeTreeNode} {value : TypeTreeValue}
    (h : parseScalar node stream = some (value, stream')) :
    stream'.remaining < stream.remaining := by
  unfold parseScalar at h
  dsimp only at h
  split at h
  · obtain ⟨⟨v, s⟩, hread, he⟩ := Option.map_eq_some_iff.mp h
    cases he
    have : s.remaining + 1 = stream.remaining := readMap_remaining hread
    dsimp only
    omega
  split at h
  · obtain ⟨⟨v, s⟩, hread, he⟩ := Option.map_eq_some_iff.mp h
    cases he
    have : s.remaining + 2 = stream.remaining := readMap_remaining hread
    dsimp only
    omega
  split at h
  · obtain ⟨⟨v, s⟩, hread, he⟩ := Option.bind_eq_some_iff.mp h
    have : s.remaining + 4 = stream.remaining := readMap_remaining hread
    split at he
    · cases he
      dsimp only
      omega
    split at he
    · cases he
      dsimp only
      omega
    · cases he
  split at h
  · obtain ⟨⟨v, s⟩, hread, he⟩ := Option.bind_eq_some_iff.mp h
    have : s.remaining + 8 = stream.remaining := readMap_remaining hread
    split at he
    · cases he
      dsimp only
      omega
    split at he
    · cases he
      dsimp only
      omega
    · cases he
  · cases h

theorem parseElements_remaining {parse : ByteStream → Option (TypeTreeValue × ByteStream)}
    (hparse : ∀ stream value stream', parse stream = some (value, stream') →
      stream'.remaining < stream.remaining) {count : ℕ} {values : List TypeTreeValue}
    (h : parseElements parse count stream = some (values, stream')) :
    stream'.remaining + count ≤ stream.remaining := by
  induction count generalizing stream values with
  | zero =>
      cases h
      exact Nat.le_refl _
  | succ count ih =>
      obtain ⟨⟨value, stream₁⟩, hvalue, hrest⟩ := Option.bind_eq_some_iff.mp h
      obtain ⟨⟨values₁, stream₂⟩, hloop, he⟩ := Option.map_eq_some_iff.mp hrest
      cases he
      have hone := hparse _ _ _ hvalue
      have hmore := ih hloop
      omega

end

section

variable {type : TypeTreeType}

theorem parseMembers_remaining {level : ℕ}
    {parse : ℕ → ByteStream → Option (TypeTreeValue × ℕ × ByteStream)}
    (hparse : ∀ index stream value index' stream', parse index stream =
      some (value, index', stream') → stream'.remaining < stream.remaining) :
    ∀ (rounds index : ℕ) (stream : ByteStream) {values index' stream'},
      parseMembers type level parse rounds index stream = some (values, index', stream') →
        stream'.remaining + values.length ≤ stream.remaining := by
  intro rounds
  induction rounds with
  | zero =>
      intro index stream values index' stream' h
      cases h
  | succ rounds ih =>
      intro index stream values index' stream' h
      rw [parseMembers] at h
      split at h
      · cases h
        exact Nat.le_refl _
      split at h
      · cases h
        exact Nat.le_refl _
      split at h
      · obtain ⟨⟨value, next, stream₁⟩, hvalue, hrest⟩ := Option.bind_eq_some_iff.mp h
        obtain ⟨⟨values₁, last, stream₂⟩, hloop, he⟩ := Option.map_eq_some_iff.mp hrest
        cases he
        have hone := hparse _ _ _ _ _ hvalue
        have hmore := ih next stream₁ hloop
        rw [List.length_cons]
        omega
      · exact ih _ _ h

theorem countChildren_directChildren {index : ℕ} {node : TypeTreeNode}
    (hvalid : typetreeValidateSchema type = true) (hnode : type.nodes[index]? = some node)
    (hchildren : nodeHasChildren type index = true) :
    countChildren type node.level.toNat (type.nodes.length + 1) (index + 1) =
      (directChildren type index).length := by
  have hlevel : (levels type).getD index 0 = node.level.toNat := by
    rw [List.getD_eq_getElem?_getD, levels_getElem?, hnode]
    rfl
  rw [countChildren_eq (type.nodes.length + 1) (index + 1) (by omega)
    (Or.inl (atChild_of_children hvalid hnode hchildren)), directChildren, Preorder.children,
    Preorder.subtreeEnd, hlevel]

theorem directChildren_pos {index : ℕ} (hvalid : typetreeValidateSchema type = true)
    (hchildren : nodeHasChildren type index = true) : 0 < (directChildren type index).length := by
  rw [(directChildren_cons hvalid hchildren).1, List.length_cons]
  exact Nat.succ_pos _

/-- **Every value takes a byte**: a struct of a validated schema has a member,
and everything else reads a number first. -/
theorem parseInternal_remaining (hvalid : typetreeValidateSchema type = true) :
    ∀ (fuel index : ℕ) (suppress : Bool) (stream : ByteStream) {value index' stream'},
      parseInternal type 0 fuel index suppress stream = some (value, index', stream') →
        stream'.remaining < stream.remaining := by
  intro fuel
  induction fuel with
  | zero =>
      intro index suppress stream value index' stream' h
      cases h
  | succ fuel ih =>
      intro index suppress stream value index' stream' h
      obtain ⟨node, hnode, hread⟩ := readAs_of_parseInternal h
      cases hread with
      | leaf hleaf h =>
          obtain ⟨stream₁, hscalar, halign, -⟩ := parseLeaf_eq_some.mp h
          exact Nat.lt_of_le_of_lt (alignWhen_remaining halign) (parseScalar_remaining hscalar)
      | string hchildren hstring h =>
          obtain ⟨size, bytes, stream₁, stream₂, hsize, hbytes, halign, -, -⟩ :=
            parseString_eq_some.mp h
          have h₁ := readUInt32_remaining hsize
          have h₂ := readBytes_remaining hbytes
          have h₃ := alignWhen_remaining (show alignWhen true stream₂ = some _ from halign)
          omega
      | array hchildren hstring harray h =>
          obtain ⟨size, stream₁, stream₂, aligned, hsize, -, hvalue, halign, -⟩ :=
            parseArray_eq_some h
          rw [parseArrayValue_default] at hvalue
          obtain ⟨⟨values, stream₃⟩, hloop, he⟩ := Option.map_eq_some_iff.mp hvalue
          cases he
          have h₁ := readUInt32_remaining hsize
          have h₂ := parseElements_remaining (fun s v s' hp => by
            obtain ⟨⟨v, i, s⟩, hp', he⟩ := Option.map_eq_some_iff.mp hp
            cases he
            exact ih _ _ _ hp') hloop
          have h₃ := alignWhen_remaining halign
          omega
      | struct hchildren hstring harray h =>
          have hcount := countChildren_directChildren hvalid hnode hchildren
          have hpos := directChildren_pos hvalid hchildren
          obtain ⟨values, members, stream₁, hloop, -, halign, -⟩ := parseStruct_eq_some h
          rw [if_neg (by omega)] at hloop
          -- a first member is read, and it takes a byte
          have hall := (parseMembers_children (P := fun _ _ => True)
            (fun i s v i' s' hp => ⟨(parseInternal_interprets hvalid _ _ _ _ hp).1, trivial⟩) _ _ _
            (Or.inl (atChild_of_children hvalid hnode hchildren)) hloop).2.length_eq
          rw [← countChildren_eq (type.nodes.length + 1) (index + 1) (by omega)
            (Or.inl (atChild_of_children hvalid hnode hchildren))] at hall
          have h₁ := parseMembers_remaining (fun i s v i' s' hp => ih _ _ _ hp) _ _ _ hloop
          have h₂ := alignWhen_remaining halign
          omega

/-! ## The early rejection changes nothing -/

theorem toOption_decodeInternal {early : Bool}
    (h : early = true ∨ typetreeValidateSchema type = true) (depth index : ℕ) (suppress : Bool)
    (stream : ByteStream) :
    (decodeInternal type early depth index suppress stream).toOption =
      parseInternal type 0 depth index suppress stream := by
  induction depth generalizing index suppress stream with
  | zero => rfl
  | succ depth ih =>
      rw [decodeInternal, parseInternal]
      cases type.nodes[index]? with
      | none => rfl
      | some node =>
      dsimp only
      split
      · simp [decodeLeaf, parseLeaf, decodeAlign]
      split
      · simp [decodeString, parseString, decodeAlign, alignWhen]
      split
      · refine toOption_decodeArray (fun stream => by rw [toOption_map, ih]) (h.imp_right ?_)
        intro hvalid size stream hrem
        cases hloop : parseElements _ size stream with
        | none => rfl
        | some result =>
            -- every element took a byte, and there are not so many
            have hlength : result.2.remaining + size ≤ stream.remaining :=
              parseElements_remaining (fun s v s' hp => by
                obtain ⟨⟨v, i, s⟩, hp', he⟩ := Option.map_eq_some_iff.mp hp
                cases he
                exact parseInternal_remaining hvalid _ _ _ _ hp') hloop
            omega
      · exact toOption_decodeStruct fun index stream => ih index false stream

/-! ## Why a parse gives up -/

theorem needBytes_error {α : Type} {width : ℕ} {stream : ByteStream} {result : Option α}
    {failure : ParseFailure} (hmissing : result = none → stream.remaining < width)
    (h : needBytes width stream result = .error failure) : failure = .truncated := by
  cases result with
  | none =>
      rw [needBytes, if_pos (hmissing rfl)] at h
      cases h
      rfl
  | some a => cases h

theorem decodeAlign_error {flag : Bool} {stream : ByteStream} {failure : ParseFailure}
    (h : decodeAlign flag stream = .error failure) : failure = .truncated :=
  needBytes_error alignWhen_eq_none h

/-- A text among some literals is among others, or is the one left out. -/
theorem isOneOf_or {text : Option CString} {literals more : List String} (last : String)
    (hsub : ∀ literal ∈ literals, literal ∈ more ∨ literal = last)
    (h : isOneOf text literals = true) : isOneOf text more = true ∨ textIs text last = true := by
  obtain ⟨literal, hmem, his⟩ := List.any_eq_true.mp h
  rcases hsub literal hmem with hmore | rfl
  · exact Or.inl (List.any_eq_true.mpr ⟨literal, hmore, his⟩)
  · exact Or.inr his

theorem isOneOf_mono {text : Option CString} {literals more : List String}
    (hsub : ∀ literal ∈ literals, literal ∈ more) (h : isOneOf text literals = true) :
    isOneOf text more = true := by
  obtain ⟨literal, hmem, his⟩ := List.any_eq_true.mp h
  exact List.any_eq_true.mpr ⟨literal, hsub literal hmem, his⟩

theorem integer_eq (typeStr : Option CString) :
    (isSignedIntegerType typeStr || isUnsignedIntegerType typeStr) = isOneOf typeStr
      (["SInt8", "SInt16", "SInt32", "SInt64", "int", "short", "long long"] ++
        ["UInt8", "UInt16", "UInt32", "UInt64", "unsigned int", "unsigned short",
          "unsigned long long", "FileSize", "RenderingLayerMask", "Type*", "BitField", "bool",
          "char"]) := by
  unfold isSignedIntegerType isUnsignedIntegerType isOneOf
  rw [List.any_append]

/-- **Every width has its rule.** -/
theorem rule_of_wireSize {typeStr : Option CString} (h : scalarWireSize typeStr ≠ 0) :
    (scalarWireSize typeStr = 1 ∨ scalarWireSize typeStr = 2 ∨ scalarWireSize typeStr = 4 ∨
        scalarWireSize typeStr = 8) ∧
      ((isSignedIntegerType typeStr || isUnsignedIntegerType typeStr) = true ∨
        scalarWireSize typeStr = 4 ∧ textIs typeStr "float" = true ∨
        scalarWireSize typeStr = 8 ∧ textIs typeStr "double" = true) := by
  rw [integer_eq]
  generalize hsize : scalarWireSize typeStr = size at *
  unfold scalarWireSize at hsize
  split at hsize
  · rename_i hone
    exact ⟨Or.inl hsize.symm, Or.inl (isOneOf_mono (by decide) hone)⟩
  split at hsize
  · rename_i htwo
    exact ⟨Or.inr (Or.inl hsize.symm), Or.inl (isOneOf_mono (by decide) htwo)⟩
  split at hsize
  · rename_i hfour
    refine ⟨Or.inr (Or.inr (Or.inl hsize.symm)), ?_⟩
    exact (isOneOf_or "float" (by decide) hfour).imp_right fun hf => Or.inl ⟨hsize.symm, hf⟩
  split at hsize
  · rename_i height
    refine ⟨Or.inr (Or.inr (Or.inr hsize.symm)), ?_⟩
    exact (isOneOf_or "double" (by decide) height).imp_right fun hd => Or.inr ⟨hsize.symm, hd⟩
  · exact absurd hsize.symm h

/-- A leaf of a validated schema has a wire width. -/
theorem leaf_wireSize {index : ℕ} {node : TypeTreeNode}
    (hvalid : typetreeValidateSchema type = true) (hnode : type.nodes[index]? = some node)
    (hleaf : nodeHasChildren type index = false) :
    scalarWireSize node.typeStr ≠ 0 ∧ node.byteSize.toInt = scalarWireSize node.typeStr := by
  have hshape := nodeShape_of_validate hvalid hnode
  have hwidth : scalarWireSize node.typeStr ≠ 0 := by
    refine (hshape.leaf hleaf).resolve_right fun harray => ?_
    -- an Array marker has its size below it
    have hmarker := hshape.marker (by rw [isArrayMarker, harray, Bool.true_or])
    have hpos : index ≠ 0 := by
      rintro rfl
      unfold validateArrayNode at hmarker
      split at hmarker
      · simp at hmarker
      · cases hmarker
    obtain ⟨owner, rfl⟩ := Nat.exists_eq_succ_of_ne_zero hpos
    obtain ⟨o, a, s, d, harr⟩ := arrayShape_of_validate hmarker
    have hhas : nodeHasChildren type (owner + 1) = true := by
      refine nodeHasChildren_iff.mpr ⟨a, s, harr.array_at, harr.size_at, ?_⟩
      rw [harr.array_level, harr.size_level]
      omega
    rw [Nat.succ_eq_add_one, hhas] at hleaf
    cases hleaf
  exact ⟨hwidth, (hshape.scalar hwidth).2⟩

/-- A read with a rule for its value fails only as a read. -/
theorem read_eq_none_of_rule {α β : Type} {read : Option α} {P Q : Prop} [Decidable P]
    [Decidable Q] {f g : α → β} (hrule : P ∨ Q)
    (h : (read.bind fun r => if P then some (f r) else if Q then some (g r) else none) = none) :
    read = none := by
  cases read with
  | none => rfl
  | some r =>
      rw [Option.bind_some] at h
      split at h
      · cases h
      · rw [if_pos (hrule.resolve_left (by assumption))] at h
        cases h

/-- A leaf with a width fails only where its bytes ran out. -/
theorem parseScalar_eq_none {node : TypeTreeNode} {stream : ByteStream}
    (hwidth : scalarWireSize node.typeStr ≠ 0)
    (hsize : node.byteSize.toInt = scalarWireSize node.typeStr)
    (h : parseScalar node stream = none) : stream.remaining < node.byteSize.toInt.toNat := by
  obtain ⟨hcases, hrule⟩ := rule_of_wireSize hwidth
  have hbyte : ∀ n : Int32, node.byteSize = n ↔ (scalarWireSize node.typeStr : ℤ) = n.toInt := by
    intro n
    rw [← hsize]
    exact Int32.toInt_inj.symm
  have hone := hbyte 1
  have htwo := hbyte 2
  have hfour := hbyte 4
  have height := hbyte 8
  rw [show (1 : Int32).toInt = 1 from rfl] at hone
  rw [show (2 : Int32).toInt = 2 from rfl] at htwo
  rw [show (4 : Int32).toInt = 4 from rfl] at hfour
  rw [show (8 : Int32).toInt = 8 from rfl] at height
  unfold parseScalar at h
  dsimp only at h
  rw [hsize]
  rcases hcases with hw | hw | hw | hw <;> rw [hw] at hone htwo hfour height hrule ⊢
  · have hint := hrule.resolve_right (by omega)
    rw [if_pos ⟨hone.mpr rfl, hint⟩] at h
    exact readMap_eq_none (Option.map_eq_none_iff.mp h)
  · have hint := hrule.resolve_right (by omega)
    rw [if_neg (fun hand => absurd (hone.mp hand.1) (by decide)),
      if_pos ⟨htwo.mpr rfl, hint⟩] at h
    exact readMap_eq_none (Option.map_eq_none_iff.mp h)
  · rw [if_neg (fun hand => absurd (hone.mp hand.1) (by decide)),
      if_neg (fun hand => absurd (htwo.mp hand.1) (by decide)), if_pos (hfour.mpr rfl)] at h
    refine readMap_eq_none (read_eq_none_of_rule ?_ h)
    exact hrule.symm.imp_left fun hf => (hf.resolve_right (by omega)).2
  · rw [if_neg (fun hand => absurd (hone.mp hand.1) (by decide)),
      if_neg (fun hand => absurd (htwo.mp hand.1) (by decide)),
      if_neg (fun he => absurd (hfour.mp he) (by decide)), if_pos (height.mpr rfl)] at h
    refine readMap_eq_none (read_eq_none_of_rule ?_ h)
    exact hrule.symm.imp_left fun hd => (hd.resolve_left (by omega)).2

/-! ## Errors of the loops -/

theorem decodeElements_error
    {decode : ByteStream → Except ParseFailure (TypeTreeValue × ByteStream)} {count : ℕ}
    {stream : ByteStream} {failure : ParseFailure}
    (h : decodeElements decode count stream = .error failure) :
    ∃ stream, decode stream = .error failure := by
  induction count generalizing stream with
  | zero => cases h
  | succ count ih =>
      rcases bind_eq_error.mp h with hone | ⟨_, -, hrest⟩
      · exact ⟨stream, hone⟩
      · exact ih (map_eq_error.mp hrest)

/-- A member loop that moves forward has enough rounds. -/
theorem decodeMembers_error {level : ℕ}
    {decode : ℕ → ByteStream → Except ParseFailure (TypeTreeValue × ℕ × ByteStream)}
    (hforward : ∀ index stream value index' stream', index < type.nodes.length →
      decode index stream = .ok (value, index', stream') →
        index < index' ∧ index' ≤ type.nodes.length)
    {rounds index : ℕ} {stream : ByteStream} {failure : ParseFailure}
    (hindex : index ≤ type.nodes.length) (hrounds : type.nodes.length < index + rounds)
    (h : decodeMembers type level decode rounds index stream = .error failure) :
    ∃ index child stream, type.nodes[index]? = some child ∧ child.level.toNat = level + 1 ∧
      decode index stream = .error failure := by
  induction rounds generalizing index stream with
  | zero => omega
  | succ rounds ih =>
      rw [decodeMembers] at h
      cases hnode : type.nodes[index]? with
      | none =>
          rw [hnode] at h
          cases h
      | some child =>
          have hlt := lt_length_of_getElem? hnode
          rw [hnode] at h
          dsimp only at h
          split at h
          · cases h
          split at h
          · rename_i hlevel
            rcases bind_eq_error.mp h with hone | ⟨⟨value, next, stream'⟩, hone, hrest⟩
            · exact ⟨index, child, stream, hnode, hlevel, hone⟩
            · have hnext := hforward _ _ _ _ _ hlt hone
              exact ih hnext.2 (by omega) (map_eq_error.mp hrest)
          · exact ih hlt (by omega) h

/-! ## The whole decoder -/

/-- The failures that are the input's own. -/
def InputFailure (early : Bool) (failure : ParseFailure) : Prop :=
  failure = .truncated ∨ failure = .countLimit ∨ (early = true ∧ failure = .countPastEnd)

/-- The Array below an array owner. -/
theorem arrayShape_of_owns {index : ℕ} {node : TypeTreeNode}
    (hvalid : typetreeValidateSchema type = true) (hnode : type.nodes[index]? = some node)
    (hchildren : nodeHasChildren type index = true) (howns : ownsArray type index = true) :
    ∃ array size data, ArrayShape type index node array size data := by
  have hshape := (nodeShape_of_validate hvalid hnode).owner hchildren howns
  obtain ⟨owner, array, size, data, harr⟩ := arrayShape_of_validate hshape
  obtain rfl : owner = node := by
    have := harr.owner_at
    rw [hnode] at this
    exact (Option.some_inj.mp this).symm
  exact ⟨array, size, data, harr⟩

theorem decodeArray_error {early suppress : Bool} {index : ℕ}
    {node array size data : TypeTreeNode}
    {decode : ByteStream → Except ParseFailure (TypeTreeValue × ByteStream)} {stream : ByteStream}
    {failure : ParseFailure} (harr : ArrayShape type index node array size data)
    (hdecode : ∀ stream, decode stream = .error failure → InputFailure early failure)
    (h : decodeArray type early node index suppress decode stream = .error failure) :
    InputFailure early failure := by
  unfold decodeArray at h
  rw [harr.array_at, harr.size_at, harr.data_at] at h
  dsimp only at h
  have hsize := harr.size_level
  have hdata := harr.data_level
  rw [if_neg (by simp only [UInt8.le_iff_toNat_le]; omega)] at h
  rcases bind_eq_error.mp h with hread | ⟨⟨count, stream₁⟩, -, h⟩
  · exact Or.inl (needBytes_error readMap_eq_none hread)
  dsimp only at h
  split at h
  · cases h
    exact Or.inr (Or.inl rfl)
  split at h
  · rename_i hearly
    cases h
    exact Or.inr (Or.inr ⟨hearly.1, rfl⟩)
  rcases bind_eq_error.mp h with hloop | ⟨⟨values, stream₂⟩, -, h⟩
  · obtain ⟨s, herror⟩ := decodeElements_error hloop
    exact hdecode s herror
  · exact Or.inl (decodeAlign_error (map_eq_error.mp h))

theorem decodeStruct_error {early suppress : Bool} {index : ℕ} {node : TypeTreeNode}
    {decode : ℕ → ByteStream → Except ParseFailure (TypeTreeValue × ℕ × ByteStream)}
    {stream : ByteStream} {failure : ParseFailure}
    (hvalid : typetreeValidateSchema type = true) (hnode : type.nodes[index]? = some node)
    (hchildren : nodeHasChildren type index = true)
    (hend : ∀ index stream value index' stream', decode index stream =
      .ok (value, index', stream') → index < index' ∧
        index' = Preorder.subtreeEnd (levels type) index)
    (hdecode : ∀ index child stream, type.nodes[index]? = some child →
      child.level.toNat = node.level.toNat + 1 → decode index stream = .error failure →
        InputFailure early failure)
    (h : decodeStruct type node index suppress decode stream = .error failure) :
    InputFailure early failure := by
  have hcount := countChildren_directChildren hvalid hnode hchildren
  have hpos := directChildren_pos hvalid hchildren
  have hfirst := atChild_of_children hvalid hnode hchildren
  unfold decodeStruct at h
  dsimp only at h
  rw [if_neg (by omega)] at h
  rcases bind_eq_error.mp h with hloop | ⟨⟨values, last, stream₁⟩, hloop, h⟩
  -- a member failed: the loop was at a child of the node
  · have hforward : ∀ index stream value index' stream', index < type.nodes.length →
        decode index stream = .ok (value, index', stream') →
          index < index' ∧ index' ≤ type.nodes.length := by
      intro i s v i' s' hi hok
      obtain ⟨hlt, rfl⟩ := hend i s v i' s' hok
      have hle : Preorder.subtreeEnd (levels type) i ≤ (levels type).length :=
        Preorder.subtreeEnd_le (by simpa [levels] using hi)
      exact ⟨hlt, by simpa [levels] using hle⟩
    have hindex := (List.getElem?_eq_some_iff.mp hfirst).1
    obtain ⟨i, child, s, hchild, hlevel, herror⟩ := decodeMembers_error hforward
      (by simpa [levels] using hindex.le) (by omega) hloop
    exact hdecode i child s hchild hlevel herror
  rcases bind_eq_error.mp h with hslots | ⟨members, -, h⟩
  · -- the loop filled every slot
    have hparse : (decodeMembers type node.level.toNat decode (type.nodes.length + 1) (index + 1)
        stream).toOption = parseMembers type node.level.toNat (fun i s => (decode i s).toOption)
          (type.nodes.length + 1) (index + 1) stream :=
      toOption_decodeMembers (fun _ _ => rfl) _ _ _
    rw [hloop, toOption_ok] at hparse
    have hall := (parseMembers_children (P := fun _ _ => True)
      (fun i s v i' s' hp => ⟨(hend i s v i' s' (toOption_eq_some.mp hp)).2, trivial⟩) _ _ _
      (Or.inl hfirst) hparse.symm).2.length_eq
    rw [← countChildren_eq (type.nodes.length + 1) (index + 1) (by omega) (Or.inl hfirst)] at hall
    rw [hall, memberSlots, if_neg (Nat.lt_irrefl _)] at hslots
    cases hslots
  · exact Or.inl (decodeAlign_error (map_eq_error.mp h))

/-- **A validated schema is never at fault**, and calls nest no deeper than the
levels of its nodes. -/
theorem decodeInternal_error {early : Bool} (hvalid : typetreeValidateSchema type = true)
    {depth index : ℕ} {suppress : Bool} {stream : ByteStream} {node : TypeTreeNode}
    {failure : ParseFailure} (hnode : type.nodes[index]? = some node)
    (hdepth : maxNesting ≤ depth + node.level.toNat)
    (h : decodeInternal type early depth index suppress stream = .error failure) :
    InputFailure early failure := by
  induction depth generalizing index suppress stream node with
  | zero =>
      have hlevel := node.level.toNat_lt
      unfold maxNesting at hdepth
      omega
  | succ depth ih =>
      rw [decodeInternal, hnode] at h
      dsimp only at h
      split at h
      · rename_i hleaf
        obtain ⟨hwidth, hsize⟩ := leaf_wireSize hvalid hnode (by simpa using hleaf)
        rcases bind_eq_error.mp h with hread | ⟨_, -, h⟩
        · exact Or.inl (needBytes_error (parseScalar_eq_none hwidth hsize) hread)
        · exact Or.inl (decodeAlign_error (map_eq_error.mp h))
      rename_i hleaf
      have hchildren : nodeHasChildren type index = true := by simpa using hleaf
      split at h
      · rcases bind_eq_error.mp h with hread | ⟨_, -, h⟩
        · exact Or.inl (needBytes_error readMap_eq_none hread)
        rcases bind_eq_error.mp h with hread | ⟨_, -, h⟩
        · exact Or.inl (needBytes_error readBytes_eq_none hread)
        · exact Or.inl (decodeAlign_error (map_eq_error.mp h))
      split at h
      · rename_i howns
        obtain ⟨array, size, data, harr⟩ := arrayShape_of_owns hvalid hnode hchildren howns
        refine decodeArray_error harr (fun s herror => ?_) h
        have hlevel := harr.data_level
        exact ih harr.data_at (by omega) (map_eq_error.mp herror)
      · refine decodeStruct_error hvalid hnode hchildren (fun i s v i' s' hok => ?_)
          (fun i child s hchild hlevel herror => ih hchild (by omega) herror) h
        have hparse : (decodeInternal type early depth i false s).toOption = _ :=
          toOption_decodeInternal (Or.inr hvalid) depth i false s
        rw [hok, toOption_ok] at hparse
        exact ⟨parseInternal_advances _ hparse.symm,
          (parseInternal_interprets hvalid _ _ _ _ hparse.symm).1⟩

theorem decodeMembers_congr {level : ℕ}
    {decode decode' : ℕ → ByteStream → Except ParseFailure (TypeTreeValue × ℕ × ByteStream)}
    (h : ∀ index child stream, type.nodes[index]? = some child →
      child.level.toNat = level + 1 → decode index stream = decode' index stream)
    (rounds index : ℕ) (stream : ByteStream) :
    decodeMembers type level decode rounds index stream =
      decodeMembers type level decode' rounds index stream := by
  induction rounds generalizing index stream with
  | zero => rfl
  | succ rounds ih =>
      rw [decodeMembers, decodeMembers]
      cases hnode : type.nodes[index]? with
      | none => rfl
      | some child =>
          dsimp only
          split
          · rfl
          split
          · rename_i hlevel
            simp only [h index child stream hnode hlevel, ih]
          · exact ih _ _

/-- A budget of one call for each level is enough. -/
theorem decodeInternal_depth {early : Bool} (hvalid : typetreeValidateSchema type = true)
    {depth depth' index : ℕ} {suppress : Bool} {stream : ByteStream} {node : TypeTreeNode}
    (hnode : type.nodes[index]? = some node) (hdepth : maxNesting ≤ depth + node.level.toNat)
    (hle : depth ≤ depth') :
    decodeInternal type early depth index suppress stream =
      decodeInternal type early depth' index suppress stream := by
  induction depth generalizing depth' index suppress stream node with
  | zero =>
      have hlevel := node.level.toNat_lt
      unfold maxNesting at hdepth
      omega
  | succ depth ih =>
      obtain ⟨depth', rfl⟩ : ∃ d, depth' = d + 1 := ⟨depth' - 1, by omega⟩
      rw [decodeInternal, decodeInternal, hnode]
      dsimp only
      split
      · rfl
      rename_i hleaf
      have hchildren : nodeHasChildren type index = true := by simpa using hleaf
      split
      · rfl
      split
      · rename_i howns
        obtain ⟨array, size, data, harr⟩ := arrayShape_of_owns hvalid hnode hchildren howns
        have hlevel := harr.data_level
        congr 1
        funext s
        rw [ih harr.data_at (by omega) (by omega : depth ≤ depth')]
      · unfold decodeStruct
        dsimp only
        rw [decodeMembers_congr fun i child s hchild hlevel =>
          ih hchild (by omega) (by omega : depth ≤ depth')]

theorem toOption_decodeValue {early : Bool} (hvalid : typetreeValidateSchema type = true)
    (stream : ByteStream) :
    (decodeValue type early stream).toOption = typetreeParseValue type 0 stream := by
  obtain ⟨root, rest, hnodes⟩ := List.exists_cons_of_ne_nil (nodes_ne_nil hvalid)
  have hroot : type.nodes[0]? = some root := by simp [hnodes]
  have hlevel : root.level.toNat = 0 := by
    have := (nodeShape_of_validate hvalid hroot).level
    simpa [validLevel] using this
  unfold decodeValue typetreeParseValue
  rw [if_neg (by simp [hvalid]),
    decodeInternal_depth hvalid hroot (by omega) (Nat.le_max_left maxNesting type.nodes.length),
    toOption_decodeInternal (Or.inr hvalid),
    parseInternal_fuel type.nodes.length false stream (by omega) (Nat.le_max_right _ _)]

end

/-- **The parser is complete on validated schemas.** With and without the early
rejection of counts the decoder has the parser's result; only its input makes it
fail; no value is empty; and no more than 256 calls are under way at a time. -/
theorem typetreeParseValue_complete (type : TypeTreeType)
    (hvalid : typetreeValidateSchema type = true) (stream : ByteStream) :
    (∀ early, (decodeValue type early stream).toOption = typetreeParseValue type 0 stream ∧
      ∀ failure, decodeValue type early stream = .error failure →
        InputFailure early failure) ∧
      ∀ index suppress (stream : ByteStream) value index' stream',
        parseInternal type 0 type.nodes.length index suppress stream =
            some (value, index', stream') →
          stream'.remaining < stream.remaining := by
  refine ⟨fun early => ⟨toOption_decodeValue hvalid stream, fun failure h => ?_⟩,
    fun index suppress stream value index' stream' => parseInternal_remaining hvalid _ _ _ _⟩
  obtain ⟨root, rest, hnodes⟩ := List.exists_cons_of_ne_nil (nodes_ne_nil hvalid)
  exact decodeInternal_error hvalid (by simp [hnodes] : type.nodes[0]? = some root)
    (Nat.le_add_right _ _) h

/-- A count of seven over two bytes is rejected early, and is cut off without. -/
theorem typetreeParseValue_complete_sample :
    (decodeValue byteVectorSchema false ⟨[7, 0, 0, 0, 1, 2], 0, false⟩).toOption =
        typetreeParseValue byteVectorSchema 0 ⟨[7, 0, 0, 0, 1, 2], 0, false⟩ ∧
      decodeValue byteVectorSchema true ⟨[7, 0, 0, 0, 1, 2], 0, false⟩ = .error .countPastEnd ∧
      decodeValue byteVectorSchema false ⟨[7, 0, 0, 0, 1, 2], 0, false⟩ = .error .truncated :=
  ⟨((typetreeParseValue_complete byteVectorSchema (by decide) _).1 false).1, rfl, rfl⟩

end UnityCommon.TypeTree
