import UnityCommon.TypeTree.Wire

/-!
# The parser accepts the spellings

`typetree_parse_value_ex` against the wire grammar: in each of its storage modes
it accepts the spellings of a node and nothing else. Every read is inverted, and
the loops read one datum after the other.
-/

namespace UnityCommon.TypeTree

open ByteStream Preorder

/-! ## Single reads -/

section Reads

variable {type : TypeTreeType} {flags : UInt32} {node : TypeTreeNode} {fuel index index' : ℕ}
  {suppress : Bool} {s s' : ByteStream} {value : TypeTreeValue}

theorem skip_eq_some {count : ℕ} :
    s.skip count = some s' ↔ ∃ gap : Text, gap.length = count ∧ Consumes s s' gap := by
  constructor
  · exact skip_consumes
  · rintro ⟨gap, rfl, hconsumes⟩
    have hroom := hconsumes.remaining
    rw [ByteStream.skip, if_neg (by omega), hconsumes.eq_advance]

/-- Aligning reads the gap. -/
theorem alignWhen_eq_some (flag : Bool) :
    alignWhen flag s = some s' ↔
      ∃ gap : Text, gap.length = gapWidth flag s.position ∧ Consumes s s' gap := by
  have hstay : some s = some s' ↔ ∃ gap : Text, gap.length = 0 ∧ Consumes s s' gap := by
    constructor
    · rintro ⟨⟩
      exact ⟨[], rfl, Consumes.refl s⟩
    · rintro ⟨gap, hgap, hconsumes⟩
      obtain rfl := List.length_eq_zero_iff.mp hgap
      exact congrArg some hconsumes.eq_advance.symm
  cases flag with
  | false => exact hstay
  | true =>
      show s.align 4 = some s' ↔ _
      rw [align, if_neg (by decide)]
      dsimp only
      by_cases hrem : s.position % 4 = 0
      · rw [if_neg (not_not.mpr hrem), hstay, gapWidth, if_pos rfl, hrem]
      · have hwidth : gapWidth true s.position = 4 - s.position % 4 := by
          rw [gapWidth, if_pos rfl]
          omega
        rw [if_pos hrem, skip_eq_some, hwidth]

/-- What a read of a word leaves of a number. -/
theorem readMap_eq_some {α β : Type} {width : ℕ} {f : ℕ → α} {g : α → β} {b : β} :
    (((s.readNat width).map fun x => (f x.1, x.2)).map fun x => (g x.1, x.2)) = some (b, s') ↔
      ∃ bits, bits < 256 ^ width ∧ Consumes s s' (storeNat s.bigEndian width bits) ∧
        g (f bits) = b := by
  simp only [Option.map_eq_some_iff, Prod.exists, Prod.mk.injEq]
  constructor
  · rintro ⟨_, t, ⟨bits, t', hread, rfl, rfl⟩, hg, rfl⟩
    obtain ⟨hbits, hconsumes⟩ := readNat_eq_some.mp hread
    exact ⟨bits, hbits, hconsumes, hg⟩
  · rintro ⟨bits, hbits, hconsumes, hg⟩
    exact ⟨f bits, s', ⟨bits, s', readNat_eq_some.mpr ⟨hbits, hconsumes⟩, rfl, rfl⟩, hg, rfl⟩

/-- A word that is kept only as one of two values. -/
theorem readBind_eq_some {α β : Type} {width : ℕ} {f : ℕ → α} {P Q : Prop} [Decidable P]
    [Decidable Q] {g h : α → β} {b : β} (hrule : P ∨ Q) :
    (((s.readNat width).map fun x => (f x.1, x.2)).bind fun x =>
        if P then some (g x.1, x.2) else if Q then some (h x.1, x.2) else none) = some (b, s') ↔
      ∃ bits, bits < 256 ^ width ∧ Consumes s s' (storeNat s.bigEndian width bits) ∧
        (if P then g (f bits) else h (f bits)) = b := by
  have hpick : ∀ x : α × ByteStream,
      (if P then some (g x.1, x.2) else if Q then some (h x.1, x.2) else none) =
        some (if P then g x.1 else h x.1, x.2) := by
    intro x
    by_cases hP : P
    · rw [if_pos hP, if_pos hP]
    · rw [if_neg hP, if_neg hP, if_pos (hrule.resolve_left hP)]
  simp only [hpick]
  rw [← readMap_eq_some (f := f) (g := fun a => if P then g a else h a), Option.bind_eq_some_iff,
    Option.map_eq_some_iff]
  simp only [Option.some.injEq]

theorem toUInt8_toUInt64 {bits : ℕ} (h : bits < 256 ^ 1) : bits.toUInt8.toUInt64 = bits.toUInt64 := by
  apply UInt64.toNat_inj.mp
  simp only [UInt8.toNat_toUInt64, Nat.toUInt8, Nat.toUInt64, UInt8.toNat_ofNat', UInt64.toNat_ofNat']
  omega

theorem toUInt16_toUInt64 {bits : ℕ} (h : bits < 256 ^ 2) :
    bits.toUInt16.toUInt64 = bits.toUInt64 := by
  apply UInt64.toNat_inj.mp
  simp only [UInt16.toNat_toUInt64, Nat.toUInt16, Nat.toUInt64, UInt16.toNat_ofNat',
    UInt64.toNat_ofNat']
  omega

theorem toUInt32_toUInt64 {bits : ℕ} (h : bits < 256 ^ 4) :
    bits.toUInt32.toUInt64 = bits.toUInt64 := by
  apply UInt64.toNat_inj.mp
  simp only [UInt32.toNat_toUInt64, Nat.toUInt32, Nat.toUInt64, UInt32.toNat_ofNat',
    UInt64.toNat_ofNat']
  omega

/-- A leaf is the number of its width. -/
theorem parseScalar_eq_some (hwidth : scalarWireSize node.typeStr ≠ 0)
    (hsize : node.byteSize.toInt = scalarWireSize node.typeStr) :
    parseScalar node s = some (value, s') ↔
      ∃ bits, bits < 256 ^ leafWidth node ∧
        Consumes s s' (storeNat s.bigEndian (leafWidth node) bits) ∧
        scalarValue node bits = value := by
  obtain ⟨hcases, hrule⟩ := rule_of_wireSize hwidth
  have hbyte : ∀ n : Int32, node.byteSize = n ↔ (scalarWireSize node.typeStr : ℤ) = n.toInt := by
    intro n
    rw [← hsize]
    exact Int32.toInt_inj.symm
  have hone : node.byteSize = 1 ↔ (scalarWireSize node.typeStr : ℤ) = 1 := hbyte 1
  have htwo : node.byteSize = 2 ↔ (scalarWireSize node.typeStr : ℤ) = 2 := hbyte 2
  have hfour : node.byteSize = 4 ↔ (scalarWireSize node.typeStr : ℤ) = 4 := hbyte 4
  have height : node.byteSize = 8 ↔ (scalarWireSize node.typeStr : ℤ) = 8 := hbyte 8
  have hleaf : leafWidth node = scalarWireSize node.typeStr := by
    rw [leafWidth, hsize, Int.toNat_natCast]
  let integer (signed unsigned : UInt64) : TypeTreeValue :=
    .int (namesOf node) (isUnsignedIntegerType node.typeStr)
      (if isSignedIntegerType node.typeStr then signed else unsigned)
  unfold parseScalar scalarValue
  rw [hleaf]
  dsimp only
  rcases hcases with hw | hw | hw | hw <;> rw [hw] at hone htwo hfour height hrule <;> rw [hw]
  · have hint := hrule.resolve_right (by omega)
    rw [if_pos ⟨hone.mpr rfl, hint⟩]
    refine (readMap_eq_some (f := Nat.toUInt8) (g := fun v => integer v.toInt8.toInt64.toUInt64
      v.toUInt64)).trans (exists_congr fun bits => and_congr_right fun hbits => ?_)
    rw [if_neg (fun hand => absurd (hfour.mp hand.1) (by decide)),
      if_neg (fun hand => absurd (height.mp hand.1) (by decide)), toUInt8_toUInt64 hbits]
    rfl
  · have hint := hrule.resolve_right (by omega)
    rw [if_neg (fun hand => absurd (hone.mp hand.1) (by decide)), if_pos ⟨htwo.mpr rfl, hint⟩]
    refine (readMap_eq_some (f := Nat.toUInt16) (g := fun v => integer v.toInt16.toInt64.toUInt64
      v.toUInt64)).trans (exists_congr fun bits => and_congr_right fun hbits => ?_)
    rw [if_neg (fun hand => absurd (hfour.mp hand.1) (by decide)),
      if_neg (fun hand => absurd (height.mp hand.1) (by decide)), toUInt16_toUInt64 hbits]
    rfl
  · rw [if_neg (fun hand => absurd (hone.mp hand.1) (by decide)),
      if_neg (fun hand => absurd (htwo.mp hand.1) (by decide)), if_pos (hfour.mpr rfl)]
    have hrule := hrule.symm.imp_left fun hf => (hf.resolve_right (by omega)).2
    refine (readBind_eq_some (f := Nat.toUInt32)
      (g := fun v => TypeTreeValue.float (namesOf node) (floatToDouble v))
      (h := fun v => integer v.toInt32.toInt64.toUInt64 v.toUInt64) hrule).trans
      (exists_congr fun bits => and_congr_right fun hbits => ?_)
    rw [if_neg (fun hand : node.byteSize = 8 ∧ _ => absurd (height.mp hand.1) (by decide)),
      toUInt32_toUInt64 hbits]
    simp only [hfour.mpr rfl, true_and, signExtend]
    rfl
  · rw [if_neg (fun hand => absurd (hone.mp hand.1) (by decide)),
      if_neg (fun hand => absurd (htwo.mp hand.1) (by decide)),
      if_neg (fun he => absurd (hfour.mp he) (by decide)), if_pos (height.mpr rfl)]
    have hrule := hrule.symm.imp_left fun hd => (hd.resolve_left (by omega)).2
    refine (readBind_eq_some (f := Nat.toUInt64)
      (g := fun v => TypeTreeValue.float (namesOf node) v) (h := fun v => integer v v) hrule).trans
      (exists_congr fun bits => and_congr_right fun _ => ?_)
    rw [if_neg (fun hand : node.byteSize = 4 ∧ _ => absurd (hfour.mp hand.1) (by decide))]
    simp only [height.mpr rfl, true_and, signExtend]
    rfl

end Reads

/-! ## Reading parts -/

/-- Between two streams stands a datum of the node, which says the value. -/
def Spelled (type : TypeTreeType) (flags : UInt32) (index : ℕ) (suppress : Bool) (s s' : ByteStream)
    (value : TypeTreeValue) : Prop :=
  ∃ datum : Datum, Fits type index suppress s.position datum ∧
    Consumes s s' (datum.encode s.bigEndian) ∧ datum.value type flags index = value

/-- The same of the nodes of a list, one after the other. -/
def SpelledEach (type : TypeTreeType) (flags : UInt32) (indices : List ℕ) (suppress : Bool)
    (s s' : ByteStream) (values : List TypeTreeValue) : Prop :=
  ∃ data : List Datum, FitsEach type suppress indices s.position data ∧
    Consumes s s' (Datum.encodeAll s.bigEndian data) ∧
    Datum.values type flags data indices = values

section Parts

variable {type : TypeTreeType} {flags : UInt32} {node : TypeTreeNode} {fuel index index' : ℕ}
  {suppress : Bool} {s s' : ByteStream} {value : TypeTreeValue} {values : List TypeTreeValue}
  {indices : List ℕ}

theorem spelledEach_nil :
    SpelledEach type flags [] suppress s s' values ↔ values = [] ∧ s' = s := by
  constructor
  · rintro ⟨data, hfits, hconsumes, rfl⟩
    cases hfits
    exact ⟨rfl, hconsumes.eq_advance⟩
  · rintro ⟨rfl, rfl⟩
    exact ⟨[], .nil, Consumes.refl s', rfl⟩

theorem spelledEach_cons :
    SpelledEach type flags (index :: indices) suppress s s' values ↔
      ∃ value rest s₁, Spelled type flags index suppress s s₁ value ∧
        SpelledEach type flags indices suppress s₁ s' rest ∧ values = value :: rest := by
  constructor
  · rintro ⟨data, hfits, hconsumes, rfl⟩
    cases hfits with
    | @cons _ _ _ _ datum data hfits hrest =>
        rw [Datum.encodeAll] at hconsumes
        obtain ⟨s₁, h₁, h₂⟩ := hconsumes.split
        rw [← Datum.length_encode s.bigEndian, ← h₁.position] at hrest
        rw [← h₁.bigEndian] at h₂
        exact ⟨_, _, s₁, ⟨datum, hfits, h₁, rfl⟩, ⟨data, hrest, h₂, rfl⟩, rfl⟩
  · rintro ⟨_, _, s₁, ⟨datum, hfits, h₁, rfl⟩, ⟨data, hrest, h₂, rfl⟩, rfl⟩
    rw [h₁.bigEndian] at h₂
    rw [h₁.position, Datum.length_encode] at hrest
    exact ⟨datum :: data, .cons hfits hrest, h₁.trans h₂, rfl⟩

theorem SpelledEach.length_eq (h : SpelledEach type flags indices suppress s s' values) :
    values.length = indices.length := by
  induction indices generalizing s values with
  | nil =>
      obtain ⟨rfl, -⟩ := spelledEach_nil.mp h
      rfl
  | cons index indices ih =>
      obtain ⟨value, rest, s₁, -, hrest, rfl⟩ := spelledEach_cons.mp h
      exact congrArg Nat.succ (ih hrest)

/-- The element loop reads one datum after the other. -/
theorem parseElements_spells {parse : ByteStream → Option (TypeTreeValue × ByteStream)}
    (hparse : ∀ s value s', parse s = some (value, s') ↔
      Spelled type flags index suppress s s' value) (count : ℕ) :
    parseElements parse count s = some (values, s') ↔
      SpelledEach type flags (List.replicate count index) suppress s s' values := by
  induction count generalizing s values with
  | zero =>
      rw [List.replicate_zero, spelledEach_nil, parseElements]
      constructor
      · rintro ⟨⟩
        exact ⟨rfl, rfl⟩
      · rintro ⟨rfl, rfl⟩
        rfl
  | succ count ih =>
      rw [List.replicate_succ, spelledEach_cons, parseElements]
      constructor
      · intro h
        obtain ⟨⟨value, s₁⟩, hvalue, h⟩ := Option.bind_eq_some_iff.mp h
        obtain ⟨⟨rest, s₂⟩, hrest, he⟩ := Option.map_eq_some_iff.mp h
        cases he
        exact ⟨value, rest, s₁, (hparse _ _ _).mp hvalue, ih.mp hrest, rfl⟩
      · rintro ⟨value, rest, s₁, hvalue, hrest, rfl⟩
        exact Option.bind_eq_some_iff.mpr ⟨(value, s₁), (hparse _ _ _).mpr hvalue,
          Option.map_eq_some_iff.mpr ⟨(rest, s'), ih.mpr hrest, rfl⟩⟩

/-- The member loop reads one datum for each child. -/
theorem parseMembers_spells {level : ℕ}
    {parse : ℕ → ByteStream → Option (TypeTreeValue × ℕ × ByteStream)}
    (hparse : ∀ i child s value i' s', index ≤ i → type.nodes[i]? = some child →
      child.level.toNat = level + 1 → (parse i s = some (value, i', s') ↔
        Spelled type flags i suppress s s' value ∧ i' = Preorder.subtreeEnd (levels type) i))
    {rounds : ℕ} (hindex : index ≤ type.nodes.length)
    (hrounds : type.nodes.length < index + rounds) (hat : AtChild (levels type) level index) :
    parseMembers type level parse rounds index s = some (values, index', s') ↔
      SpelledEach type flags (childrenFrom (levels type) level index
          (scan (levels type) level index)) suppress s s' values ∧
        index' = scan (levels type) level index := by
  induction rounds generalizing index s values with
  | zero => omega
  | succ rounds ih =>
      -- the loop stops where the scan does
      have hdone : scan (levels type) level index = index →
          (some ([], index, s) = some (values, index', s') ↔
            SpelledEach type flags (childrenFrom (levels type) level index
                (scan (levels type) level index)) suppress s s' values ∧
              index' = scan (levels type) level index) := by
        intro hscan
        rw [hscan, childrenFrom_self, spelledEach_nil]
        constructor
        · rintro ⟨⟩
          exact ⟨⟨rfl, rfl⟩, rfl⟩
        · rintro ⟨⟨rfl, rfl⟩, rfl⟩
          rfl
      rw [parseMembers]
      cases hnode : type.nodes[index]? with
      | none =>
          refine hdone (hat.resolve_left fun hl => ?_)
          rw [levels_getElem?, hnode] at hl
          cases hl
      | some child =>
          have hlevel : (levels type)[index]? = some child.level.toNat := by
            rw [levels_getElem?, hnode]
            rfl
          dsimp only
          by_cases hout : child.level.toNat ≤ level
          · rw [if_pos hout]
            exact hdone (scan_of_le hlevel hout)
          have hchild : child.level.toNat = level + 1 := by
            rcases hat with hl | hscan
            · rw [hlevel, Option.some.injEq] at hl
              exact hl
            · rw [← hscan] at hlevel
              exact absurd (le_of_scan hlevel) hout
          rw [if_neg hout, if_pos hchild]
          rw [hchild] at hlevel
          -- a member ends with its subtree, so the next one starts at the next child
          obtain ⟨hle, hscan⟩ := subtreeEnd_le_scan hlevel
          have hlow : index + 1 ≤ Preorder.subtreeEnd (levels type) index := le_scan _ _ _
          have hend : Preorder.subtreeEnd (levels type) index ≤ type.nodes.length := by
            have hlt := lt_length_of_getElem? hnode
            simpa [levels] using (subtreeEnd_le (by simpa [levels] using hlt) :
              Preorder.subtreeEnd (levels type) index ≤ (levels type).length)
          have hmember : ∀ value i' s₁, parse index s = some (value, i', s₁) ↔
              Spelled type flags index suppress s s₁ value ∧
                i' = Preorder.subtreeEnd (levels type) index :=
            fun value i' s₁ => hparse _ _ _ _ _ _ (Nat.le_refl _) hnode hchild
          have hloop : ∀ s values, parseMembers type level parse rounds
              (Preorder.subtreeEnd (levels type) index) s = some (values, index', s') ↔ _ :=
            fun s values => ih
              (fun i child s value i' s' hi => hparse i child s value i' s' (by omega)) hend
              (by omega) (AtChild.next hlevel)
          rw [childrenFrom_cons hlevel hle, spelledEach_cons]
          rw [hscan] at hloop
          constructor
          · intro h
            obtain ⟨⟨value, next, s₁⟩, hread, h⟩ := Option.bind_eq_some_iff.mp h
            obtain ⟨hvalue, rfl⟩ := (hmember _ _ _).mp hread
            obtain ⟨⟨rest, last, s₂⟩, hothers, he⟩ := Option.map_eq_some_iff.mp h
            cases he
            obtain ⟨hrest, hlast⟩ := (hloop _ _).mp hothers
            exact ⟨⟨value, rest, s₁, hvalue, hrest, rfl⟩, hlast⟩
          · rintro ⟨⟨value, rest, s₁, hvalue, hrest, rfl⟩, hlast⟩
            exact Option.bind_eq_some_iff.mpr ⟨(value, _, s₁), (hmember _ _ _).mpr ⟨hvalue, rfl⟩,
              Option.map_eq_some_iff.mpr ⟨(rest, index', s'),
                (hloop _ _).mpr ⟨hrest, hlast⟩, rfl⟩⟩

/-! ## Arrays -/

theorem packsArray_spec (hpacks : packsArray type flags index = true) :
    ∃ data, type.nodes[index]? = some data ∧ nodeKind type index = .leaf ∧ leafWidth data = 1 := by
  unfold packsArray at hpacks
  split at hpacks
  · rename_i data hdata
    simp only [Bool.and_eq_true, beq_iff_eq, Bool.not_eq_true'] at hpacks
    obtain ⟨⟨⟨-, hsize⟩, hleaf⟩, -⟩ := hpacks
    exact ⟨data, hdata, nodeKind_eq_leaf.mpr hleaf, by rw [leafWidth, hsize]; rfl⟩
  · cases hpacks

/-- Packed elements are read at once. -/
theorem parsePacked_spells {size : ℕ} :
    parsePacked flags node size s = some (value, s') ↔
      ∃ bytes : Text, bytes.length = size ∧ Consumes s s' bytes ∧
        .packed (namesOf node) bytes (flags &&& borrowByteArrays == 0 && !bytes.isEmpty) =
          value := by
  -- borrowed or not, the bytes are those of a read
  have hread : 0 < size → parsePacked flags node size s = (s.readBytes size).map fun x =>
      (.packed (namesOf node) x.1 (flags &&& borrowByteArrays == 0), x.2) := by
    intro hsize
    rw [parsePacked, if_neg (Nat.ne_of_gt hsize)]
    by_cases hborrow : flags &&& borrowByteArrays = 0
    · rw [if_neg (not_not.mpr hborrow), hborrow]
      rfl
    · rw [if_pos hborrow, ByteStream.skip, ByteStream.readBytes,
        show (flags &&& borrowByteArrays == 0) = false from beq_false_of_ne hborrow]
      by_cases hroom : s.remaining < size
      · rw [if_pos hroom, if_pos hroom, Option.map_none]
      · rw [if_neg hroom, if_neg hroom, if_neg hroom, Option.map_some, Option.map_some]
  cases size with
  | zero =>
      rw [parsePacked, if_pos rfl]
      constructor
      · rintro ⟨⟩
        exact ⟨[], rfl, Consumes.refl s, by simp⟩
      · rintro ⟨bytes, hbytes, hconsumes, rfl⟩
        obtain rfl := List.length_eq_zero_iff.mp hbytes
        rw [hconsumes.eq_advance]
        simp [ByteStream.advance]
  | succ size =>
      rw [hread (Nat.succ_pos size), Option.map_eq_some_iff]
      constructor
      · rintro ⟨⟨bytes, t⟩, hbytes, he⟩
        cases he
        obtain ⟨hlength, hconsumes⟩ := readBytes_eq_some.mp hbytes
        obtain ⟨byte, rest, rfl⟩ := List.exists_cons_of_length_eq_add_one hlength
        exact ⟨_, hlength, hconsumes, by simp⟩
      · rintro ⟨bytes, hlength, hconsumes, rfl⟩
        refine ⟨(bytes, s'), readBytes_eq_some.mpr ⟨hlength, hconsumes⟩, ?_⟩
        obtain ⟨byte, rest, rfl⟩ := List.exists_cons_of_length_eq_add_one hlength
        simp

/-- The elements of an array, in the storage that the flags ask for. -/
theorem parseArrayValue_spells {size : ℕ}
    {parse : ByteStream → Option (TypeTreeValue × ByteStream)}
    (hnode : type.nodes[index]? = some node)
    (hparse : ∀ s value s', parse s = some (value, s') ↔
      Spelled type flags (index + 3) true s s' value) :
    parseArrayValue type flags node index size parse s = some (value, s') ↔
      ∃ elements : List Datum, elements.length = size ∧
        FitsEach type true (List.replicate elements.length (index + 3)) s.position elements ∧
        Consumes s s' (Datum.encodeAll s.bigEndian elements) ∧
        (Datum.array elements []).value type flags index = value := by
  have hnames : namesAt type index = namesOf node := by
    rw [namesAt, hnode]
    rfl
  rw [parseArrayValue]
  simp only [Datum.value, hnames]
  by_cases hpacks : packsArray type flags (index + 3) = true
  · obtain ⟨data, hdata, hkind, hwidth⟩ := packsArray_spec hpacks
    simp only [hpacks, if_true, parsePacked_spells]
    constructor
    · rintro ⟨bytes, rfl, hconsumes, rfl⟩
      refine ⟨bytes.map byteDatum, List.length_map _, ?_, ?_, ?_⟩
      · exact (fitsEach_bytes_iff hdata hkind hwidth).mpr ⟨bytes, (List.length_map _).symm, rfl⟩
      · rwa [encodeAll_byteDatum]
      · rw [encodeAll_byteDatum, List.isEmpty_map]
    · rintro ⟨elements, rfl, hfits, hconsumes, rfl⟩
      obtain ⟨bytes, hlength, rfl⟩ := (fitsEach_bytes_iff hdata hkind hwidth).mp hfits
      rw [encodeAll_byteDatum] at hconsumes
      refine ⟨bytes, hlength, hconsumes, ?_⟩
      rw [encodeAll_byteDatum, List.isEmpty_map]
  · simp only [hpacks, if_false, Bool.false_eq_true]
    constructor
    · intro h
      obtain ⟨⟨values, t⟩, hloop, he⟩ := Option.map_eq_some_iff.mp h
      cases he
      obtain ⟨elements, hfits, hconsumes, rfl⟩ := (parseElements_spells hparse size).mp hloop
      have hlength : elements.length = size := by
        rw [hfits.length_eq, List.length_replicate]
      exact ⟨elements, hlength, hlength ▸ hfits, hconsumes, by rw [hlength]⟩
    · rintro ⟨elements, rfl, hfits, hconsumes, rfl⟩
      exact Option.map_eq_some_iff.mpr ⟨(_, s'), (parseElements_spells hparse _).mpr
        ⟨elements, hfits, hconsumes, rfl⟩, rfl⟩

/-! ## Nodes -/

/-- An array is its count, its elements and the gap behind them. -/
theorem parseArray_spells {array size data : TypeTreeNode}
    {parse : ByteStream → Option (TypeTreeValue × ByteStream)}
    (hvalid : typetreeValidateSchema type = true) (hkind : nodeKind type index = .array)
    (harr : ArrayShape type index node array size data)
    (hparse : ∀ s value s', parse s = some (value, s') ↔
      Spelled type flags (index + 3) true s s' value) :
    parseArray type flags node index suppress parse s = some (value, index', s') ↔
      Spelled type flags index suppress s s' value ∧
        index' = skipDeeper type node.level.toNat (index + 1) := by
  have haligns : aligns type index suppress = (wantsAlign (array.metaFlags ||| data.metaFlags) ||
      (!suppress && wantsAlign node.metaFlags)) := by
    rw [aligns, hkind, arrayAligns, harr.array_at, harr.data_at, harr.owner_at]
    rfl
  have hsizeLevel := harr.size_level
  have hdataLevel := harr.data_level
  rw [parseArray, harr.array_at, harr.size_at, harr.data_at]
  dsimp only
  rw [if_neg (by simp only [UInt8.le_iff_toNat_le]; omega), ← haligns]
  constructor
  · intro h
    obtain ⟨⟨count, s₁⟩, hcount, h⟩ := Option.bind_eq_some_iff.mp h
    dsimp only at h
    split at h
    · cases h
    rename_i hroom
    obtain ⟨⟨value₁, s₂⟩, hvalue, h⟩ := Option.bind_eq_some_iff.mp h
    obtain ⟨s₃, halign, he⟩ := Option.map_eq_some_iff.mp h
    cases he
    have h₁ := readUInt32_eq_some.mp hcount
    obtain ⟨elements, hlength, hfits, h₂, rfl⟩ :=
      (parseArrayValue_spells harr.owner_at hparse).mp hvalue
    obtain ⟨gap, hgap, h₃⟩ := (alignWhen_eq_some _).mp halign
    have hword : count = elements.length.toUInt32 := by
      rw [hlength, Nat.toUInt32, UInt32.ofNat_toNat]
    rw [h₂.position, Datum.length_encodeAll, h₁.position, length_storeU32] at hgap
    rw [h₁.position, length_storeU32] at hfits
    rw [h₁.bigEndian] at h₂
    rw [hword] at h₁
    refine ⟨⟨.array elements gap, .array hkind ?_ hfits hgap, (h₁.trans h₂).trans h₃, rfl⟩, rfl⟩
    rw [hlength]
    exact Nat.le_of_not_lt (not_or.mp hroom).1
  · rintro ⟨⟨datum, hfits, hconsumes, rfl⟩, rfl⟩
    obtain ⟨elements, gap, hcount, helements, hgap, rfl⟩ := (fits_array_iff hkind).mp hfits
    rw [Datum.encode] at hconsumes
    obtain ⟨s₂, hfront, h₃⟩ := hconsumes.split
    obtain ⟨s₁, h₁, h₂⟩ := hfront.split
    have hword : elements.length.toUInt32.toNat = elements.length := by
      unfold intMax at hcount
      rw [Nat.toUInt32, UInt32.toNat_ofNat', Nat.mod_eq_of_lt (by omega)]
    have hroom := h₂.remaining
    have hle := length_le_sizeAll hvalid elements helements
    rw [Datum.length_encodeAll] at hroom
    rw [← length_storeU32 s.bigEndian elements.length.toUInt32, ← h₁.position] at helements hgap
    rw [← Datum.length_encodeAll s.bigEndian, ← h₂.position] at hgap
    rw [← h₁.bigEndian] at h₂
    have hvalue := (parseArrayValue_spells harr.owner_at hparse).mpr
      ⟨elements, hword.symm, helements, h₂, rfl⟩
    refine Option.bind_eq_some_iff.mpr ⟨(_, s₁), readUInt32_eq_some.mpr h₁, ?_⟩
    dsimp only
    rw [if_neg (by rw [hword]; omega)]
    refine Option.bind_eq_some_iff.mpr ⟨(_, s₂), hvalue, ?_⟩
    exact Option.map_eq_some_iff.mpr ⟨s', (alignWhen_eq_some _).mpr ⟨gap, hgap, h₃⟩, rfl⟩

/-- A struct is its members and the gap behind them. -/
theorem parseStruct_spells {parse : ℕ → ByteStream → Option (TypeTreeValue × ℕ × ByteStream)}
    (hvalid : typetreeValidateSchema type = true) (hnode : type.nodes[index]? = some node)
    (hkind : nodeKind type index = .struct)
    (hparse : ∀ i child s value i' s', index < i → type.nodes[i]? = some child →
      (parse i s = some (value, i', s') ↔
        Spelled type flags i false s s' value ∧ i' = Preorder.subtreeEnd (levels type) i)) :
    parseStruct type node index suppress parse s = some (value, index', s') ↔
      Spelled type flags index suppress s s' value ∧
        index' = Preorder.subtreeEnd (levels type) index := by
  have hchildren := hasChildren_of_kind (by rw [hkind]; decide)
  have hfirst := atChild_of_children hvalid hnode hchildren
  have hlevel : (levels type).getD index 0 = node.level.toNat := by
    rw [List.getD_eq_getElem?_getD, levels_getElem?, hnode]
    rfl
  have hlt := (List.getElem?_eq_some_iff.mp hfirst).1
  have hnames : namesAt type index = namesOf node := by
    rw [namesAt, hnode]
    rfl
  have haligns : aligns type index suppress = (!suppress && wantsAlign node.metaFlags) := by
    rw [aligns, hkind, hnode]
    rfl
  -- the loop fills every slot
  have hcount := countChildren_directChildren hvalid hnode hchildren
  have hslots : ∀ values s₁, SpelledEach type flags (directChildren type index) false s s₁ values →
      memberSlots (directChildren type index).length values = some values := by
    intro values s₁ h
    rw [memberSlots, h.length_eq, if_neg (Nat.lt_irrefl _), Nat.sub_self, List.replicate_zero,
      List.append_nil]
  have hpos := directChildren_pos hvalid hchildren
  have hloop : ∀ values last s₁, parseMembers type node.level.toNat parse (type.nodes.length + 1)
      (index + 1) s = some (values, last, s₁) ↔
        SpelledEach type flags (directChildren type index) false s s₁ values ∧
          last = Preorder.subtreeEnd (levels type) index := by
    intro values last s₁
    rw [directChildren, children, Preorder.subtreeEnd, hlevel]
    exact parseMembers_spells (fun i child s value i' s' hi hchild _ =>
      hparse i child s value i' s' (by omega) hchild) (by simpa [levels] using hlt.le) (by omega)
      (Or.inl hfirst)
  rw [parseStruct]
  dsimp only
  rw [hcount, if_neg (Nat.ne_of_gt hpos), ← haligns]
  constructor
  · intro h
    obtain ⟨⟨values, last, s₁⟩, hread, h⟩ := Option.bind_eq_some_iff.mp h
    obtain ⟨hvalues, rfl⟩ := (hloop _ _ _).mp hread
    dsimp only at h
    rw [hslots _ _ hvalues, Option.bind_some] at h
    obtain ⟨s₂, halign, he⟩ := Option.map_eq_some_iff.mp h
    cases he
    obtain ⟨gap, hgap, h₂⟩ := (alignWhen_eq_some _).mp halign
    obtain ⟨members, hfits, h₁, rfl⟩ := hvalues
    rw [h₁.position, Datum.length_encodeAll] at hgap
    refine ⟨⟨.struct members gap, .struct hkind hfits hgap, h₁.trans h₂, ?_⟩, rfl⟩
    rw [Datum.value, hnames]
  · rintro ⟨⟨datum, hfits, hconsumes, rfl⟩, rfl⟩
    obtain ⟨members, gap, hmembers, hgap, rfl⟩ := (fits_struct_iff hkind).mp hfits
    rw [Datum.encode] at hconsumes
    obtain ⟨s₁, h₁, h₂⟩ := hconsumes.split
    rw [← Datum.length_encodeAll s.bigEndian, ← h₁.position] at hgap
    have hvalues : SpelledEach type flags (directChildren type index) false s s₁ _ :=
      ⟨members, hmembers, h₁, rfl⟩
    refine Option.bind_eq_some_iff.mpr ⟨(_, _, s₁), (hloop _ _ _).mpr ⟨hvalues, rfl⟩, ?_⟩
    dsimp only
    rw [hslots _ _ hvalues, Option.bind_some]
    refine Option.map_eq_some_iff.mpr ⟨s', (alignWhen_eq_some _).mpr ⟨gap, hgap, h₂⟩, ?_⟩
    rw [Datum.value, hnames]

/-- A leaf is its number and the gap behind it. -/
theorem parseLeaf_spells (hvalid : typetreeValidateSchema type = true)
    (hnode : type.nodes[index]? = some node) (hkind : nodeKind type index = .leaf) :
    parseLeaf node index suppress s = some (value, index', s') ↔
      Spelled type flags index suppress s s' value ∧ index' = index + 1 := by
  obtain ⟨hwidth, hsize⟩ := leaf_wireSize hvalid hnode (nodeKind_eq_leaf.mp hkind)
  have haligns : aligns type index suppress = (!suppress && wantsAlign node.metaFlags) := by
    rw [aligns, hkind, hnode]
    rfl
  have hvalue : ∀ width bits gap, (Datum.scalar width bits gap).value type flags index =
      scalarValue node bits := by
    intro width bits gap
    rw [Datum.value, hnode]
    rfl
  rw [parseLeaf_eq_some, ← haligns]
  constructor
  · rintro ⟨s₁, hscalar, halign, rfl⟩
    obtain ⟨bits, hbits, h₁, rfl⟩ := (parseScalar_eq_some hwidth hsize).mp hscalar
    obtain ⟨gap, hgap, h₂⟩ := (alignWhen_eq_some _).mp halign
    rw [h₁.position, length_storeNat] at hgap
    exact ⟨⟨_, .scalar hnode hkind hbits hgap, h₁.trans h₂, hvalue _ _ _⟩, rfl⟩
  · rintro ⟨⟨datum, hfits, hconsumes, rfl⟩, rfl⟩
    obtain ⟨bits, gap, hbits, hgap, rfl⟩ := (fits_leaf_iff hnode hkind).mp hfits
    rw [Datum.encode] at hconsumes
    obtain ⟨s₁, h₁, h₂⟩ := hconsumes.split
    have hposition : s₁.position = s.position + leafWidth node := by
      rw [h₁.position, length_storeNat]
    rw [← hposition] at hgap
    exact ⟨s₁, (parseScalar_eq_some hwidth hsize).mpr ⟨bits, hbits, h₁, (hvalue _ _ _).symm⟩,
      (alignWhen_eq_some _).mpr ⟨gap, hgap, h₂⟩, rfl⟩

/-- A string is its length, its bytes and the gap behind them. -/
theorem parseString_spells (hnode : type.nodes[index]? = some node)
    (hkind : nodeKind type index = .string) :
    parseString type node index s = some (value, index', s') ↔
      Spelled type flags index suppress s s' value ∧
        index' = skipDeeper type node.level.toNat (index + 1) := by
  have haligns : aligns type index suppress = true := by
    rw [aligns, hkind]
  have hnames : namesAt type index = namesOf node := by
    rw [namesAt, hnode]
    rfl
  rw [parseString_eq_some]
  constructor
  · rintro ⟨size, bytes, s₁, s₂, hsize, hbytes, halign, rfl, rfl⟩
    have h₁ := readUInt32_eq_some.mp hsize
    obtain ⟨hlength, h₂⟩ := readBytes_eq_some.mp hbytes
    obtain ⟨gap, hgap, h₃⟩ := (alignWhen_eq_some true).mp halign
    rw [h₂.position, h₁.position, length_storeU32, ← haligns] at hgap
    have hword : size = bytes.length.toUInt32 := by
      rw [hlength, Nat.toUInt32, UInt32.ofNat_toNat]
    rw [hword] at h₁
    refine ⟨⟨.string bytes gap, .string hkind (hlength ▸ size.toNat_lt) hgap, (h₁.trans h₂).trans h₃,
      ?_⟩, rfl⟩
    rw [Datum.value, hnames]
  · rintro ⟨⟨datum, hfits, hconsumes, rfl⟩, rfl⟩
    obtain ⟨bytes, gap, hsize, hgap, rfl⟩ := (fits_string_iff hkind).mp hfits
    rw [Datum.encode] at hconsumes
    obtain ⟨s₂, hfront, h₃⟩ := hconsumes.split
    obtain ⟨s₁, h₁, h₂⟩ := hfront.split
    have hlength : bytes.length.toUInt32.toNat = bytes.length := by
      rw [Nat.toUInt32, UInt32.toNat_ofNat', Nat.mod_eq_of_lt hsize]
    have hposition : s₂.position = s.position + 4 + bytes.length := by
      rw [h₂.position, h₁.position, length_storeU32]
    rw [haligns, ← hposition] at hgap
    refine ⟨_, bytes, s₁, s₂, readUInt32_eq_some.mpr h₁, readBytes_eq_some.mpr ⟨hlength.symm, h₂⟩,
      (alignWhen_eq_some true).mpr ⟨gap, hgap, h₃⟩, ?_, rfl⟩
    rw [Datum.value, hnames]

theorem none_spells (hnone : type.nodes[index]? = none) :
    none = some (value, index', s') ↔ Spelled type flags index suppress s s' value ∧
      index' = Preorder.subtreeEnd (levels type) index := by
  constructor
  · rintro ⟨⟩
  · rintro ⟨⟨datum, hfits, -⟩, -⟩
    obtain ⟨node, hnode⟩ := hfits.exists_node
    cases hnone.symm.trans hnode

/-- **The parser accepts the spellings** of a node, and stops where they do. -/
theorem parseInternal_spells (hvalid : typetreeValidateSchema type = true)
    (hfuel : type.nodes.length ≤ index + fuel) :
    parseInternal type flags fuel index suppress s = some (value, index', s') ↔
      Spelled type flags index suppress s s' value ∧
        index' = Preorder.subtreeEnd (levels type) index := by
  induction fuel generalizing index suppress s value index' s' with
  | zero => exact none_spells (List.getElem?_eq_none (by omega))
  | succ fuel ih =>
      rw [parseInternal]
      cases hnode : type.nodes[index]? with
      | none => exact none_spells hnode
      | some node =>
          dsimp only
          have hend : skipDeeper type node.level.toNat (index + 1) =
              Preorder.subtreeEnd (levels type) index := by
            rw [skipDeeper_eq_scan, Preorder.subtreeEnd, List.getD_eq_getElem?_getD, levels_getElem?,
              hnode]
            rfl
          by_cases hleaf : nodeHasChildren type index = false
          · rw [hleaf, Bool.not_false, if_pos rfl, subtreeEnd_of_leaf hnode hleaf]
            exact parseLeaf_spells hvalid hnode (nodeKind_eq_leaf.mpr hleaf)
          have hchildren : nodeHasChildren type index = true := by simpa using hleaf
          rw [hchildren, Bool.not_true, if_neg (by decide)]
          by_cases hstring : textIs node.typeStr "string" = true
          · have hkind : nodeKind type index = .string := by
              simp [nodeKind, hchildren, hnode, hstring]
            rw [if_pos hstring, ← hend]
            exact parseString_spells hnode hkind
          by_cases harray : ownsArray type index = true
          · have hkind : nodeKind type index = .array := by
              simp [nodeKind, hchildren, hnode, hstring, harray]
            obtain ⟨array, size, data, harr⟩ := arrayShape_of_owns hvalid hnode hchildren harray
            rw [if_neg hstring, if_pos harray, ← hend]
            refine parseArray_spells hvalid hkind harr fun s value s' => ?_
            rw [Option.map_eq_some_iff]
            constructor
            · rintro ⟨⟨v, i, t⟩, hread, he⟩
              cases he
              exact ((ih (by omega)).mp hread).1
            · intro hspelled
              exact ⟨(value, _, s'), (ih (by omega)).mpr ⟨hspelled, rfl⟩, rfl⟩
          · have hkind : nodeKind type index = .struct := by
              simp [nodeKind, hchildren, hnode, hstring, harray]
            rw [if_neg hstring, if_neg harray]
            exact parseStruct_spells hvalid hnode hkind fun i child s value i' s' hi _ =>
              ih (by omega)

end Parts

/-- **The parser is exact.** In every storage mode it accepts the spellings of the
node and nothing else, stops where the one spelling does, and returns its
value. -/
theorem typetreeParseValueEx_exact (type : TypeTreeType) (index : ℕ) (stream : ByteStream)
    (parseFlags : UInt32) (value : TypeTreeValue) (index' : ℕ) (stream' : ByteStream) :
    typetreeParseValueEx type index stream parseFlags = some (value, index', stream') ↔
      typetreeValidateSchema type = true ∧
        parseFlags &&& ~~~(packByteArrays ||| borrowByteArrays) = 0 ∧
        parseFlags &&& (packByteArrays ||| borrowByteArrays) ≠ packByteArrays ||| borrowByteArrays ∧
        index' = TypeTree.subtreeEnd type index ∧
        ∃! datum : Datum, Fits type index false stream.position datum ∧
          Consumes stream stream' (datum.encode stream.bigEndian) ∧
          datum.value type parseFlags index = value := by
  rw [typetreeParseValueEx]
  by_cases hguard : parseFlags &&& ~~~(packByteArrays ||| borrowByteArrays) ≠ 0 ∨
      parseFlags &&& (packByteArrays ||| borrowByteArrays) = packByteArrays ||| borrowByteArrays ∨
      typetreeValidateSchema type = false
  · rw [if_pos hguard]
    constructor
    · rintro ⟨⟩
    · rintro ⟨hvalid, hknown, hmode, -⟩
      rcases hguard with hguard | hguard | hguard
      · exact absurd hknown hguard
      · exact absurd hguard hmode
      · rw [hvalid] at hguard
        cases hguard
  rw [if_neg hguard]
  obtain ⟨hknown, hguard⟩ := not_or.mp hguard
  obtain ⟨hmode, hinvalid⟩ := not_or.mp hguard
  have hvalid : typetreeValidateSchema type = true := by simpa using hinvalid
  rw [parseInternal_spells hvalid (Nat.le_add_left _ _), subtreeEnd_eq]
  constructor
  · rintro ⟨⟨datum, hfits, hconsumes, hvalue⟩, hindex⟩
    refine ⟨hvalid, not_not.mp hknown, hmode, hindex, datum, ⟨hfits, hconsumes, hvalue⟩, ?_⟩
    rintro other ⟨hfits', hconsumes', -⟩
    exact (fits_unique stream.bigEndian other datum hfits' hfits
      (hconsumes'.unread.symm.trans hconsumes.unread)).1
  · rintro ⟨-, -, -, hindex, datum, ⟨hfits, hconsumes, hvalue⟩, -⟩
    exact ⟨⟨datum, hfits, hconsumes, hvalue⟩, hindex⟩

end UnityCommon.TypeTree
