import UnityCommon.Common.StreamExact
import UnityCommon.TypeTree.Decode

/-!
# The wire grammar of values

What a schema says of bytes, without a cursor: a datum is the spelling of one
node, with the bytes up to its alignment, and it fits where its parts do. At the
front of given bytes a node has at most one spelling.
-/

namespace UnityCommon.TypeTree

open ByteStream Preorder

/-! ## Spellings -/

/-- A value as it is spelled, with the bytes up to its alignment, which may be any. -/
inductive Datum where
  | scalar (width bits : ℕ) (gap : Text)
  | string (bytes gap : Text)
  | array (elements : List Datum) (gap : Text)
  | struct (members : List Datum) (gap : Text)
deriving Repr

namespace Datum

mutual
def size : Datum → ℕ
  | scalar width _ gap => width + gap.length
  | string bytes gap => 4 + bytes.length + gap.length
  | array elements gap => 4 + sizeAll elements + gap.length
  | struct members gap => sizeAll members + gap.length

def sizeAll : List Datum → ℕ
  | [] => 0
  | datum :: data => size datum + sizeAll data
end

mutual
/-- The bytes in a byte order. -/
def encode (big : Bool) : Datum → Text
  | scalar width bits gap => storeNat big width bits ++ gap
  | string bytes gap => storeU32 big bytes.length.toUInt32 ++ bytes ++ gap
  | array elements gap => storeU32 big elements.length.toUInt32 ++ encodeAll big elements ++ gap
  | struct members gap => encodeAll big members ++ gap

def encodeAll (big : Bool) : List Datum → Text
  | [] => []
  | datum :: data => encode big datum ++ encodeAll big data
end

mutual
@[simp] theorem length_encode (big : Bool) : ∀ datum : Datum, (datum.encode big).length = datum.size
  | scalar width bits gap => by simp [encode, size]
  | string bytes gap => by simp [encode, size, Nat.add_assoc]
  | array elements gap => by
      simp [encode, size, length_encodeAll big elements, Nat.add_assoc]
  | struct members gap => by simp [encode, size, length_encodeAll big members]

@[simp] theorem length_encodeAll (big : Bool) :
    ∀ data : List Datum, (encodeAll big data).length = sizeAll data
  | [] => rfl
  | datum :: data => by simp [encodeAll, sizeAll, length_encode big datum, length_encodeAll big data]
end

end Datum

/-! ## Where a datum fits -/

/-- Whether the Array below a node aligns behind its elements. -/
def arrayAligns (type : TypeTreeType) (index : ℕ) : Bool :=
  type.nodes[index + 1]?.any fun array =>
    type.nodes[index + 3]?.any fun data => wantsAlign (array.metaFlags ||| data.metaFlags)

/-- Whether a value of the node ends aligned. -/
def aligns (type : TypeTreeType) (index : ℕ) (suppress : Bool) : Bool :=
  let own := !suppress && type.nodes[index]?.any fun node => wantsAlign node.metaFlags
  match nodeKind type index with
  | .string => true
  | .array => arrayAligns type index || own
  | _ => own

/-- The bytes from a position to its alignment. -/
def gapWidth (aligned : Bool) (position : ℕ) : ℕ :=
  if aligned then (4 - position % 4) % 4 else 0

/-- The width of a leaf. -/
def leafWidth (node : TypeTreeNode) : ℕ := node.byteSize.toInt.toNat

mutual
/-- The datum is a value of the node at an index, from a position on. -/
inductive Fits (type : TypeTreeType) : ℕ → Bool → ℕ → Datum → Prop
  | scalar {index suppress at_ node bits gap} (hnode : type.nodes[index]? = some node)
      (hkind : nodeKind type index = .leaf) (hbits : bits < 256 ^ leafWidth node)
      (hgap : gap.length = gapWidth (aligns type index suppress) (at_ + leafWidth node)) :
      Fits type index suppress at_ (.scalar (leafWidth node) bits gap)
  | string {index suppress at_ bytes gap} (hkind : nodeKind type index = .string)
      (hsize : bytes.length < 2 ^ 32)
      (hgap : gap.length = gapWidth (aligns type index suppress) (at_ + 4 + bytes.length)) :
      Fits type index suppress at_ (.string bytes gap)
  | array {index suppress at_ elements gap} (hkind : nodeKind type index = .array)
      (hcount : elements.length ≤ intMax)
      (helements : FitsEach type true (List.replicate elements.length (index + 3)) (at_ + 4) elements)
      (hgap : gap.length =
        gapWidth (aligns type index suppress) (at_ + 4 + Datum.sizeAll elements)) :
      Fits type index suppress at_ (.array elements gap)
  | struct {index suppress at_ members gap} (hkind : nodeKind type index = .struct)
      (hmembers : FitsEach type false (directChildren type index) at_ members)
      (hgap : gap.length = gapWidth (aligns type index suppress) (at_ + Datum.sizeAll members)) :
      Fits type index suppress at_ (.struct members gap)

/-- The data are values of the nodes, one after the other. -/
inductive FitsEach (type : TypeTreeType) : Bool → List ℕ → ℕ → List Datum → Prop
  | nil {suppress at_} : FitsEach type suppress [] at_ []
  | cons {suppress at_ index indices datum data} (hfits : Fits type index suppress at_ datum)
      (hrest : FitsEach type suppress indices (at_ + datum.size) data) :
      FitsEach type suppress (index :: indices) at_ (datum :: data)
end

/-! ## What a datum says -/

/-- The two names that a value of the node carries. -/
def namesAt (type : TypeTreeType) (index : ℕ) : ValueNames :=
  (type.nodes[index]?.map namesOf).getD ⟨none, none⟩

/-- The bits of a signed integer of a width, as 64 bits. -/
def signExtend (width bits : ℕ) : UInt64 :=
  match width with
  | 1 => bits.toUInt8.toInt8.toInt64.toUInt64
  | 2 => bits.toUInt16.toInt16.toInt64.toUInt64
  | 4 => bits.toUInt32.toInt32.toInt64.toUInt64
  | _ => bits.toUInt64

/-- The value that a leaf's bits stand for. -/
def scalarValue (node : TypeTreeNode) (bits : ℕ) : TypeTreeValue :=
  if node.byteSize = 4 ∧ textIs node.typeStr "float" then
    .float (namesOf node) (floatToDouble bits.toUInt32)
  else if node.byteSize = 8 ∧ textIs node.typeStr "double" then .float (namesOf node) bits.toUInt64
  else
    .int (namesOf node) (isUnsignedIntegerType node.typeStr)
      (if isSignedIntegerType node.typeStr then signExtend (leafWidth node) bits else bits.toUInt64)

namespace Datum

mutual
/-- The value of a datum of the node at an index, in the storage that the flags ask
for. -/
def value (type : TypeTreeType) (flags : UInt32) : Datum → ℕ → TypeTreeValue
  | scalar _ bits _, index =>
      (type.nodes[index]?.map fun node => scalarValue node bits).getD (.none ⟨none, none⟩)
  | string bytes _, index => .string (namesAt type index) bytes
  | array elements _, index =>
      if packsArray type flags (index + 3) then
        .packed (namesAt type index) (encodeAll false elements)
          (flags &&& borrowByteArrays == 0 && !elements.isEmpty)
      else
        .array (namesAt type index)
          (values type flags elements (List.replicate elements.length (index + 3)))
  | struct members _, index =>
      .struct (namesAt type index) (values type flags members (directChildren type index))

def values (type : TypeTreeType) (flags : UInt32) : List Datum → List ℕ → List TypeTreeValue
  | datum :: data, index :: indices => value type flags datum index :: values type flags data indices
  | _, _ => []
end

end Datum

/-! ## Data by their kinds -/

section Kinds

variable {type : TypeTreeType} {node : TypeTreeNode} {index at_ : ℕ} {indices : List ℕ}
  {suppress : Bool} {datum : Datum}

theorem nodeKind_eq_leaf : nodeKind type index = .leaf ↔ nodeHasChildren type index = false := by
  constructor
  · intro hkind
    by_contra hchildren
    exact nodeKind_ne_leaf (by simpa using hchildren) hkind
  · intro hleaf
    simp [nodeKind, hleaf]

theorem hasChildren_of_kind (hkind : nodeKind type index ≠ .leaf) :
    nodeHasChildren type index = true := by
  by_contra hleaf
  exact hkind (nodeKind_eq_leaf.mpr (by simpa using hleaf))

theorem fits_leaf_iff (hnode : type.nodes[index]? = some node) (hkind : nodeKind type index = .leaf) :
    Fits type index suppress at_ datum ↔
      ∃ bits gap, bits < 256 ^ leafWidth node ∧
        gap.length = gapWidth (aligns type index suppress) (at_ + leafWidth node) ∧
        datum = .scalar (leafWidth node) bits gap := by
  constructor
  · intro hfits
    cases hfits with
    | string hkind' => exact absurd (hkind.symm.trans hkind') (by decide)
    | array hkind' => exact absurd (hkind.symm.trans hkind') (by decide)
    | struct hkind' => exact absurd (hkind.symm.trans hkind') (by decide)
    | @scalar _ _ _ node' bits gap hnode' _ hbits hgap =>
        obtain rfl : node = node' := by simpa [hnode] using hnode'
        exact ⟨bits, gap, hbits, hgap, rfl⟩
  · rintro ⟨bits, gap, hbits, hgap, rfl⟩
    exact .scalar hnode hkind hbits hgap

theorem fits_string_iff (hkind : nodeKind type index = .string) :
    Fits type index suppress at_ datum ↔
      ∃ bytes gap, bytes.length < 2 ^ 32 ∧
        gap.length = gapWidth (aligns type index suppress) (at_ + 4 + bytes.length) ∧
        datum = .string bytes gap := by
  constructor
  · intro hfits
    cases hfits with
    | scalar _ hkind' => exact absurd (hkind.symm.trans hkind') (by decide)
    | array hkind' => exact absurd (hkind.symm.trans hkind') (by decide)
    | struct hkind' => exact absurd (hkind.symm.trans hkind') (by decide)
    | string _ hsize hgap => exact ⟨_, _, hsize, hgap, rfl⟩
  · rintro ⟨bytes, gap, hsize, hgap, rfl⟩
    exact .string hkind hsize hgap

theorem fits_array_iff (hkind : nodeKind type index = .array) :
    Fits type index suppress at_ datum ↔
      ∃ elements gap, elements.length ≤ intMax ∧
        FitsEach type true (List.replicate elements.length (index + 3)) (at_ + 4) elements ∧
        gap.length = gapWidth (aligns type index suppress) (at_ + 4 + Datum.sizeAll elements) ∧
        datum = .array elements gap := by
  constructor
  · intro hfits
    cases hfits with
    | scalar _ hkind' => exact absurd (hkind.symm.trans hkind') (by decide)
    | string hkind' => exact absurd (hkind.symm.trans hkind') (by decide)
    | struct hkind' => exact absurd (hkind.symm.trans hkind') (by decide)
    | array _ hcount helements hgap => exact ⟨_, _, hcount, helements, hgap, rfl⟩
  · rintro ⟨elements, gap, hcount, helements, hgap, rfl⟩
    exact .array hkind hcount helements hgap

theorem fits_struct_iff (hkind : nodeKind type index = .struct) :
    Fits type index suppress at_ datum ↔
      ∃ members gap, FitsEach type false (directChildren type index) at_ members ∧
        gap.length = gapWidth (aligns type index suppress) (at_ + Datum.sizeAll members) ∧
        datum = .struct members gap := by
  constructor
  · intro hfits
    cases hfits with
    | scalar _ hkind' => exact absurd (hkind.symm.trans hkind') (by decide)
    | string hkind' => exact absurd (hkind.symm.trans hkind') (by decide)
    | array hkind' => exact absurd (hkind.symm.trans hkind') (by decide)
    | struct _ hmembers hgap => exact ⟨_, _, hmembers, hgap, rfl⟩
  · rintro ⟨members, gap, hmembers, hgap, rfl⟩
    exact .struct hkind hmembers hgap

theorem Fits.exists_node (hfits : Fits type index suppress at_ datum) :
    ∃ node, type.nodes[index]? = some node := by
  have hinner : nodeKind type index ≠ .leaf → ∃ node, type.nodes[index]? = some node := by
    intro hkind
    obtain ⟨node, -, hnode, -, -⟩ := nodeHasChildren_iff.mp (hasChildren_of_kind hkind)
    exact ⟨node, hnode⟩
  cases hfits with
  | scalar hnode => exact ⟨_, hnode⟩
  | string hkind => exact hinner (by rw [hkind]; decide)
  | array hkind => exact hinner (by rw [hkind]; decide)
  | struct hkind => exact hinner (by rw [hkind]; decide)

theorem leafWidth_eq (hvalid : typetreeValidateSchema type = true)
    (hnode : type.nodes[index]? = some node) (hleaf : nodeHasChildren type index = false) :
    leafWidth node = scalarWireSize node.typeStr := by
  rw [leafWidth, (leaf_wireSize hvalid hnode hleaf).2, Int.toNat_natCast]

theorem FitsEach.length_eq {data : List Datum}
    (hfits : FitsEach type suppress indices at_ data) : data.length = indices.length := by
  induction data generalizing indices at_ with
  | nil =>
      cases hfits
      rfl
  | cons datum data ih =>
      cases hfits with
      | cons hfirst hrest => exact congrArg Nat.succ (ih hrest)

mutual
/-- Every datum of a validated schema takes a byte. -/
theorem fits_pos (hvalid : typetreeValidateSchema type = true) :
    ∀ (datum : Datum) {index : ℕ} {suppress : Bool} {at_ : ℕ}, Fits type index suppress at_ datum →
      0 < datum.size
  | .scalar _ _ _, index, _, _, hfits => by
      cases hfits with
      | scalar hnode hkind hbits hgap =>
          have hleaf := nodeKind_eq_leaf.mp hkind
          have hwidth := (leaf_wireSize hvalid hnode hleaf).1
          rw [Datum.size, leafWidth_eq hvalid hnode hleaf]
          omega
  | .string _ _, _, _, _, _ => by
      rw [Datum.size]
      omega
  | .array _ _, _, _, _, _ => by
      rw [Datum.size]
      omega
  | .struct members gap, index, _, _, hfits => by
      cases hfits with
      | struct hkind hmembers hgap =>
          have hchildren := hasChildren_of_kind (by rw [hkind]; decide)
          have hlength := hmembers.length_eq
          have hle := length_le_sizeAll hvalid members hmembers
          rw [(directChildren_cons hvalid hchildren).1, List.length_cons] at hlength
          rw [Datum.size]
          omega

theorem length_le_sizeAll (hvalid : typetreeValidateSchema type = true) :
    ∀ (data : List Datum) {indices : List ℕ} {suppress : Bool} {at_ : ℕ},
      FitsEach type suppress indices at_ data → data.length ≤ Datum.sizeAll data
  | [], _, _, _, _ => Nat.le_refl _
  | datum :: data, _, _, _, hfits => by
      cases hfits with
      | cons hfirst hrest =>
          have hpos := fits_pos hvalid datum hfirst
          have hle := length_le_sizeAll hvalid data hrest
          rw [List.length_cons, Datum.sizeAll]
          omega
end

/-! ## Bytes in place of elements -/

/-- A byte as an element of an array. -/
def byteDatum (byte : UInt8) : Datum := .scalar 1 byte.toNat []

theorem encodeAll_byteDatum (big : Bool) (bytes : Text) :
    Datum.encodeAll big (bytes.map byteDatum) = bytes := by
  induction bytes with
  | nil => rfl
  | cons byte bytes ih =>
      have hbyte : storeNat big 1 byte.toNat = [byte] := by
        cases big <;> simp [storeNat, Bytes.toLE, Bytes.toBE]
      rw [List.map_cons, Datum.encodeAll, ih, byteDatum, Datum.encode, hbyte]
      rfl

/-- The elements of an array of bytes are its bytes. -/
theorem fitsEach_bytes_iff (hnode : type.nodes[index]? = some node)
    (hkind : nodeKind type index = .leaf) (hwidth : leafWidth node = 1) {count : ℕ}
    {data : List Datum} :
    FitsEach type true (List.replicate count index) at_ data ↔
      ∃ bytes : Text, bytes.length = count ∧ data = bytes.map byteDatum := by
  have hplain : aligns type index true = false := by
    simp [aligns, hkind]
  induction count generalizing at_ data with
  | zero =>
      rw [List.replicate_zero]
      constructor
      · rintro ⟨⟩
        exact ⟨[], rfl, rfl⟩
      · rintro ⟨bytes, hbytes, rfl⟩
        obtain rfl := List.length_eq_zero_iff.mp hbytes
        exact .nil
  | succ count ih =>
      rw [List.replicate_succ]
      constructor
      · intro hfits
        cases hfits with
        | @cons _ _ _ _ datum data hfirst hrest =>
            obtain ⟨bytes, rfl, rfl⟩ := ih.mp hrest
            obtain ⟨bits, gap, hbits, hgap, rfl⟩ := (fits_leaf_iff hnode hkind).mp hfirst
            rw [hplain] at hgap
            obtain rfl := List.length_eq_zero_iff.mp hgap
            rw [hwidth] at hbits ⊢
            refine ⟨bits.toUInt8 :: bytes, rfl, ?_⟩
            rw [List.map_cons, byteDatum, Nat.toUInt8, UInt8.toNat_ofNat',
              Nat.mod_eq_of_lt (by simpa using hbits)]
      · rintro ⟨bytes, hbytes, rfl⟩
        obtain ⟨byte, bytes, rfl⟩ := List.exists_cons_of_length_eq_add_one hbytes
        have hfirst : Fits type index true at_ (.scalar (leafWidth node) byte.toNat []) :=
          .scalar hnode hkind (by rw [hwidth]; exact byte.toNat_lt) (by rw [hplain]; rfl)
        rw [hwidth] at hfirst
        exact .cons hfirst (ih.mpr ⟨bytes, by simpa using hbytes, rfl⟩)

/-! ## One spelling -/

theorem storeNat_injective {big : Bool} {width m n : ℕ} (hm : m < 256 ^ width) (hn : n < 256 ^ width)
    (h : storeNat big width m = storeNat big width n) : m = n := by
  have hlittle : Bytes.toLE width m = Bytes.toLE width n := by
    cases big with
    | false => exact h
    | true => exact List.reverse_injective h
  rw [← Bytes.ofLE_toLE hm, hlittle, Bytes.ofLE_toLE hn]

/-- Counts that are spelled alike are the same. -/
theorem storeLength_injective {big : Bool} {m n : ℕ} (hm : m < 2 ^ 32) (hn : n < 2 ^ 32)
    (h : storeU32 big m.toUInt32 = storeU32 big n.toUInt32) : m = n := by
  have hword := (load_eq_iff (length_storeU32 big n.toUInt32)).mpr h.symm
  have hself := (load_eq_iff (length_storeU32 big n.toUInt32)).mpr (rfl : _ = storeU32 big _)
  have htoNat := congrArg UInt32.toNat (hword.symm.trans hself)
  simp only [Nat.toUInt32, UInt32.toNat_ofNat'] at htoNat
  rwa [Nat.mod_eq_of_lt hm, Nat.mod_eq_of_lt hn] at htoNat

mutual
/-- **A node is spelled in one way** at the front of given bytes. -/
theorem fits_unique (big : Bool) : ∀ (datum datum' : Datum) {index : ℕ} {suppress : Bool} {at_ : ℕ}
    {rest rest' : Text}, Fits type index suppress at_ datum → Fits type index suppress at_ datum' →
      datum.encode big ++ rest = datum'.encode big ++ rest' → datum = datum' ∧ rest = rest'
  | .scalar width bits gap, datum', index, suppress, at_, rest, rest', hfits, hfits', h => by
      cases hfits with
      | scalar hnode hkind hbits hgap =>
          obtain ⟨bits', gap', hbits', hgap', rfl⟩ := (fits_leaf_iff hnode hkind).mp hfits'
          rw [Datum.encode, Datum.encode, List.append_assoc, List.append_assoc] at h
          obtain ⟨hword, hbehind⟩ := List.append_inj h (by simp)
          obtain rfl := storeNat_injective hbits hbits' hword
          obtain ⟨rfl, hend⟩ := List.append_inj hbehind (hgap.trans hgap'.symm)
          exact ⟨rfl, hend⟩
  | .string bytes gap, datum', index, suppress, at_, rest, rest', hfits, hfits', h => by
      cases hfits with
      | string hkind hsize hgap =>
          obtain ⟨bytes', gap', hsize', hgap', rfl⟩ := (fits_string_iff hkind).mp hfits'
          rw [Datum.encode, Datum.encode, List.append_assoc, List.append_assoc, List.append_assoc,
            List.append_assoc] at h
          obtain ⟨hword, hbytes⟩ := List.append_inj h (by simp)
          obtain ⟨rfl, hbehind⟩ := List.append_inj hbytes
            (storeLength_injective hsize hsize' hword)
          obtain ⟨rfl, hend⟩ := List.append_inj hbehind (hgap.trans hgap'.symm)
          exact ⟨rfl, hend⟩
  | .array elements gap, datum', index, suppress, at_, rest, rest', hfits, hfits', h => by
      cases hfits with
      | array hkind hcount helements hgap =>
          obtain ⟨elements', gap', hcount', helements', hgap', rfl⟩ :=
            (fits_array_iff hkind).mp hfits'
          rw [Datum.encode, Datum.encode, List.append_assoc, List.append_assoc, List.append_assoc,
            List.append_assoc] at h
          obtain ⟨hword, hparts⟩ := List.append_inj h (by simp)
          unfold intMax at hcount hcount'
          have hlength := storeLength_injective (by omega) (by omega) hword
          rw [← hlength] at helements'
          obtain ⟨rfl, hbehind⟩ := fitsEach_unique big elements elements' helements helements' hparts
          obtain ⟨rfl, hend⟩ := List.append_inj hbehind (hgap.trans hgap'.symm)
          exact ⟨rfl, hend⟩
  | .struct members gap, datum', index, suppress, at_, rest, rest', hfits, hfits', h => by
      cases hfits with
      | struct hkind hmembers hgap =>
          obtain ⟨members', gap', hmembers', hgap', rfl⟩ := (fits_struct_iff hkind).mp hfits'
          rw [Datum.encode, Datum.encode, List.append_assoc, List.append_assoc] at h
          obtain ⟨rfl, hbehind⟩ := fitsEach_unique big members members' hmembers hmembers' h
          obtain ⟨rfl, hend⟩ := List.append_inj hbehind (hgap.trans hgap'.symm)
          exact ⟨rfl, hend⟩

theorem fitsEach_unique (big : Bool) : ∀ (data data' : List Datum) {indices : List ℕ}
    {suppress : Bool} {at_ : ℕ} {rest rest' : Text}, FitsEach type suppress indices at_ data →
      FitsEach type suppress indices at_ data' →
      Datum.encodeAll big data ++ rest = Datum.encodeAll big data' ++ rest' →
        data = data' ∧ rest = rest'
  | [], data', _, _, _, _, _, hfits, hfits', h => by
      cases hfits
      cases hfits'
      exact ⟨rfl, h⟩
  | datum :: data, data', _, _, _, _, _, hfits, hfits', h => by
      cases hfits with
      | cons hfirst hrest =>
          cases hfits' with
          | cons hfirst' hrest' =>
              rw [Datum.encodeAll, Datum.encodeAll, List.append_assoc, List.append_assoc] at h
              obtain ⟨rfl, hbehind⟩ := fits_unique big datum _ hfirst hfirst' h
              obtain ⟨rfl, hend⟩ := fitsEach_unique big data _ hrest hrest' hbehind
              exact ⟨rfl, hend⟩
end

end Kinds

end UnityCommon.TypeTree
