import UnityCommon.Lib.PrefixFree
import UnityCommon.TypeTree.Value

/-!
# What a value digest is a digest of

The canonical form of a value tree has byte strings for the arrays of `UInt8`
and knows nothing of how an array is stored. Its encoding is what the digest
feeds, its nodes are what the budget is spent on, and it is read off its
encoding again.
-/

namespace UnityCommon.TypeTree

/-! ## Canonical forms -/

inductive Canonical where
  | int (names : ValueNames) (isUnsigned : Bool) (bits : UInt64)
  | float (names : ValueNames) (bits : UInt64)
  | string (names : ValueNames) (bytes : Text)
  | bytes (names : ValueNames) (contents : Text)
  | array (names : ValueNames) (elements : List Canonical)
  | struct (names : ValueNames) (members : List Canonical)
  | none (names : ValueNames)

/-- The byte of an unsigned `UInt8` integer. -/
def byteOf : TypeTreeValue → Option UInt8
  | .int names isUnsigned bits =>
      if isUnsigned = true ∧ bits ≤ 255 ∧ names.name.isSome ∧ names.typeStr = some (cstr "UInt8")
      then some bits.toUInt8
      else Option.none
  | _ => Option.none

mutual
def canonical : TypeTreeValue → Canonical
  | .int names isUnsigned bits => .int names isUnsigned bits
  | .float names bits => .float names bits
  | .string names bytes => .string names bytes
  | .packed names contents _ => .bytes names contents
  | .array names elements =>
      match elements.mapM byteOf with
      | some contents => .bytes names contents
      | Option.none => .array names (canonicalAll elements)
  | .struct names members => .struct names (canonicalAll members)
  | .none names => .none names

def canonicalAll : List TypeTreeValue → List Canonical
  | [] => []
  | value :: values => canonical value :: canonicalAll values
end

theorem length_canonicalAll : ∀ values, (canonicalAll values).length = values.length
  | [] => rfl
  | value :: values => by
      rw [canonicalAll, List.length_cons, List.length_cons, length_canonicalAll values]

namespace Canonical

mutual
/-- The logical nodes, bytes included. -/
def nodes : Canonical → ℕ
  | .int _ _ _ => 1
  | .float _ _ => 1
  | .string _ _ => 1
  | .bytes _ contents => 1 + contents.length
  | .array _ elements => 1 + nodesAll elements
  | .struct _ members => 1 + nodesAll members
  | .none _ => 1

def nodesAll : List Canonical → ℕ
  | [] => 0
  | value :: values => nodes value + nodesAll values
end

mutual
/-- The nesting levels; a byte string is a leaf. -/
def height : Canonical → ℕ
  | .int _ _ _ => 1
  | .float _ _ => 1
  | .string _ _ => 1
  | .bytes _ _ => 1
  | .array _ elements => 1 + heightAll elements
  | .struct _ members => 1 + heightAll members
  | .none _ => 1

def heightAll : List Canonical → ℕ
  | [] => 0
  | value :: values => max (height value) (heightAll values)
end

end Canonical

/-- A name that is there and not too long. -/
def Labelled (name : Option CString) : Prop := ∃ s, name = some s ∧ s.bytes.length ≤ maxString

def ValueNames.Labelled (names : ValueNames) : Prop :=
  TypeTree.Labelled names.name ∧ TypeTree.Labelled names.typeStr

namespace Canonical

mutual
/-- The model is consistent: names are there, strings have no NUL, and neither
is too long. -/
def Sound : Canonical → Prop
  | .int names _ _ => names.Labelled
  | .float names _ => names.Labelled
  | .string names text => names.Labelled ∧ (0 : UInt8) ∉ text ∧ text.length ≤ maxString
  | .bytes names _ => names.Labelled
  | .array names elements => names.Labelled ∧ SoundAll elements
  | .struct names members => names.Labelled ∧ SoundAll members
  | .none names => names.Labelled

def SoundAll : List Canonical → Prop
  | [] => True
  | value :: values => Sound value ∧ SoundAll values
end

/-- **What the digest accepts.** -/
structure Accepted (value : Canonical) : Prop where
  sound : value.Sound
  nodes : value.nodes ≤ maxNodes
  height : value.height ≤ maxDepth

/-! ## Encodings -/

def word (value : ℕ) : Text := Bytes.toLE 8 value

def nameBytes : Option CString → Text
  | Option.none => []
  | some name => word name.bytes.length ++ name.bytes

def header (code : ℕ) (names : ValueNames) : Text :=
  word code ++ (nameBytes names.name ++ nameBytes names.typeStr)

mutual
def encode : Canonical → Text
  | .int names isUnsigned bits => header 0 names ++ (word isUnsigned.toNat ++ word bits.toNat)
  | .float names bits => header 1 names ++ word bits.toNat
  | .string names text => header 2 names ++ (word text.length ++ text)
  | .bytes names contents => header 3 names ++ (word contents.length ++ (word 1 ++ contents))
  | .array names elements =>
      header 3 names ++ (word elements.length ++ (word 0 ++ encodeAll elements))
  | .struct names members => header 4 names ++ (word members.length ++ encodeAll members)
  | .none names => header 5 names

def encodeAll : List Canonical → Text
  | [] => []
  | value :: values => encode value ++ encodeAll values
end

/-! ## An encoding ends where it says -/

theorem prefixFree_word : PrefixFree (fun value => value < 2 ^ 64) word := by
  refine .of_length 8 (fun value _ => Bytes.length_toLE 8 value) fun a b ha hb h => ?_
  have ha' : a < 256 ^ 8 := ha
  have hb' : b < 256 ^ 8 := hb
  rw [← Bytes.ofLE_toLE ha', ← Bytes.ofLE_toLE hb']
  exact congrArg Bytes.ofLE h

theorem prefixFree_nameBytes : PrefixFree Labelled nameBytes := by
  rintro _ _ r s ⟨a, rfl, ha⟩ ⟨b, rfl, hb⟩ heq
  have hmax : maxString < 2 ^ 64 := by decide
  obtain ⟨hbytes, hrest⟩ := prefixFree_word.sized a.bytes b.bytes r s (by omega) (by omega) heq
  exact ⟨by rw [CString.ext_bytes hbytes], hrest⟩

/-- The kind and the names are read off a header. -/
theorem header_cancel {code code' : ℕ} {names names' : ValueNames} {r s : Text}
    (hcode : code < 2 ^ 64) (hcode' : code' < 2 ^ 64) (hnames : names.Labelled)
    (hnames' : names'.Labelled) (h : header code names ++ r = header code' names' ++ s) :
    code = code' ∧ names = names' ∧ r = s := by
  simp only [header, List.append_assoc] at h
  obtain ⟨hsame, h⟩ := prefixFree_word _ _ _ _ hcode hcode' h
  obtain ⟨hname, h⟩ := prefixFree_nameBytes _ _ _ _ hnames.1 hnames'.1 h
  obtain ⟨htype, h⟩ := prefixFree_nameBytes _ _ _ _ hnames.2 hnames'.2 h
  refine ⟨hsame, ?_, h⟩
  cases names
  cases names'
  cases hname
  cases htype
  rfl

def code : Canonical → ℕ
  | .int _ _ _ => 0
  | .float _ _ => 1
  | .string _ _ => 2
  | .bytes _ _ => 3
  | .array _ _ => 3
  | .struct _ _ => 4
  | .none _ => 5

def names : Canonical → ValueNames
  | .int names _ _ => names
  | .float names _ => names
  | .string names _ => names
  | .bytes names _ => names
  | .array names _ => names
  | .struct names _ => names
  | .none names => names

/-- What stands behind the header. -/
def body : Canonical → Text
  | .int _ isUnsigned bits => word isUnsigned.toNat ++ word bits.toNat
  | .float _ bits => word bits.toNat
  | .string _ text => word text.length ++ text
  | .bytes _ contents => word contents.length ++ (word 1 ++ contents)
  | .array _ elements => word elements.length ++ (word 0 ++ encodeAll elements)
  | .struct _ members => word members.length ++ encodeAll members
  | .none _ => []

theorem encode_eq (value : Canonical) :
    encode value = header value.code value.names ++ value.body := by
  cases value with
  | none names =>
      rw [encode, body, List.append_nil]
      rfl
  | _ => rw [encode, body, code, names]

theorem Sound.labelled {value : Canonical} (h : value.Sound) : value.names.Labelled := by
  cases value with
  | int names isUnsigned bits => exact h
  | float names bits => exact h
  | string names text =>
      rw [Sound] at h
      exact h.1
  | bytes names contents => exact h
  | array names elements =>
      rw [Sound] at h
      exact h.1
  | struct names members =>
      rw [Sound] at h
      exact h.1
  | none names => exact h

theorem code_lt (value : Canonical) : value.code < 2 ^ 64 := by
  cases value
  all_goals
    rw [code]
    decide

theorem length_le_nodesAll : ∀ values : List Canonical, values.length ≤ nodesAll values
  | [] => Nat.zero_le _
  | value :: values => by
      have hrest := length_le_nodesAll values
      have hvalue : 1 ≤ value.nodes := by
        cases value <;> rw [nodes] <;> omega
      rw [List.length_cons, nodesAll]
      omega

mutual
/-- **A canonical form is read off its encoding**, whatever stands behind it. -/
theorem encode_cancel : ∀ (a b : Canonical) (r s : Text), a.Sound → b.Sound → a.nodes < 2 ^ 64 →
    b.nodes < 2 ^ 64 → encode a ++ r = encode b ++ s → a = b ∧ r = s := by
  intro a b r s ha hb hanodes hbnodes heq
  rw [encode_eq, encode_eq, List.append_assoc, List.append_assoc] at heq
  obtain ⟨hcode, hnames, heq⟩ :=
    header_cancel (code_lt a) (code_lt b) ha.labelled hb.labelled heq
  match a with
  | .int namesA isUnsigned bits =>
      cases b with
      | int namesB isUnsigned' bits' =>
          simp only [body, List.append_assoc] at heq
          obtain ⟨hsign, hrest⟩ := prefixFree_word _ _ _ _ (by cases isUnsigned <;> decide)
            (by cases isUnsigned' <;> decide) heq
          obtain ⟨hbits, hlast⟩ := prefixFree_word _ _ _ _ bits.toNat_lt bits'.toNat_lt hrest
          -- the sign flag is a word of its own, zero or one
          have hsame : isUnsigned = isUnsigned' := by
            cases isUnsigned <;> cases isUnsigned' <;> first | rfl | cases hsign
          have hnames' : namesA = namesB := hnames
          exact ⟨by rw [hnames', hsame, UInt64.toNat_inj.mp hbits], hlast⟩
      | _ => cases hcode
  | .float namesA bits =>
      cases b with
      | float namesB bits' =>
          obtain ⟨hbits, hlast⟩ := prefixFree_word _ _ _ _ bits.toNat_lt bits'.toNat_lt heq
          have hnames' : namesA = namesB := hnames
          exact ⟨by rw [hnames', UInt64.toNat_inj.mp hbits], hlast⟩
      | _ => cases hcode
  | .string namesA text =>
      cases b with
      | string namesB text' =>
          rw [Sound] at ha hb
          have hmax : maxString < 2 ^ 64 := by decide
          obtain ⟨htext, hlast⟩ := prefixFree_word.sized text text' r s (by omega) (by omega) heq
          have hnames' : namesA = namesB := hnames
          exact ⟨by rw [hnames', htext], hlast⟩
      | _ => cases hcode
  | .bytes namesA contents =>
      cases b with
      | bytes namesB contents' =>
          rw [nodes] at hanodes
          rw [nodes] at hbnodes
          simp only [body, List.append_assoc] at heq
          obtain ⟨hlength, hrest⟩ := prefixFree_word _ _ _ _ (by omega) (by omega) heq
          obtain ⟨hcontents, hlast⟩ := List.append_inj (List.append_cancel_left hrest) hlength
          have hnames' : namesA = namesB := hnames
          exact ⟨by rw [hnames', hcontents], hlast⟩
      -- bytes and arrays share a code: the word behind the length tells them apart
      | array namesB elements =>
          rw [nodes] at hanodes
          rw [nodes] at hbnodes
          have helements := length_le_nodesAll elements
          simp only [body, List.append_assoc] at heq
          obtain ⟨-, hrest⟩ := prefixFree_word _ _ _ _ (by omega) (by omega) heq
          cases (prefixFree_word _ _ _ _ (by decide) (by decide) hrest).1
      | _ => cases hcode
  | .array namesA elements =>
      cases b with
      | array namesB elements' =>
          rw [nodes] at hanodes
          rw [nodes] at hbnodes
          rw [Sound] at ha hb
          have helements := length_le_nodesAll elements
          have helements' := length_le_nodesAll elements'
          simp only [body, List.append_assoc] at heq
          obtain ⟨hlength, hrest⟩ := prefixFree_word _ _ _ _ (by omega) (by omega) heq
          obtain ⟨hsame, hlast⟩ := encodeAll_cancel elements elements' r s hlength ha.2 hb.2
            (by omega) (by omega) (List.append_cancel_left hrest)
          have hnames' : namesA = namesB := hnames
          exact ⟨by rw [hnames', hsame], hlast⟩
      | bytes namesB contents =>
          rw [nodes] at hanodes
          rw [nodes] at hbnodes
          have helements := length_le_nodesAll elements
          simp only [body, List.append_assoc] at heq
          obtain ⟨-, hrest⟩ := prefixFree_word _ _ _ _ (by omega) (by omega) heq
          cases (prefixFree_word _ _ _ _ (by decide) (by decide) hrest).1
      | _ => cases hcode
  | .struct namesA members =>
      cases b with
      | struct namesB members' =>
          rw [nodes] at hanodes
          rw [nodes] at hbnodes
          rw [Sound] at ha hb
          have hmembers := length_le_nodesAll members
          have hmembers' := length_le_nodesAll members'
          simp only [body, List.append_assoc] at heq
          obtain ⟨hlength, hrest⟩ := prefixFree_word _ _ _ _ (by omega) (by omega) heq
          -- as many members on both sides, so they are read off one by one
          obtain ⟨hsame, hlast⟩ := encodeAll_cancel members members' r s hlength ha.2 hb.2
            (by omega) (by omega) hrest
          have hnames' : namesA = namesB := hnames
          exact ⟨by rw [hnames', hsame], hlast⟩
      | _ => cases hcode
  | .none namesA =>
      cases b with
      | none namesB =>
          have hnames' : namesA = namesB := hnames
          exact ⟨by rw [hnames'], heq⟩
      | _ => cases hcode

theorem encodeAll_cancel : ∀ (as bs : List Canonical) (r s : Text), as.length = bs.length →
    SoundAll as → SoundAll bs → nodesAll as < 2 ^ 64 → nodesAll bs < 2 ^ 64 →
    encodeAll as ++ r = encodeAll bs ++ s → as = bs ∧ r = s
  | [], [], _, _, _, _, _, _, _, heq => ⟨rfl, heq⟩
  | a :: as, b :: bs, r, s, hlength, ha, hb, hanodes, hbnodes, heq => by
      rw [SoundAll] at ha hb
      rw [nodesAll] at hanodes hbnodes
      rw [encodeAll, encodeAll, List.append_assoc, List.append_assoc] at heq
      obtain ⟨hfirst, hrest⟩ := encode_cancel a b _ _ ha.1 hb.1 (by omega) (by omega) heq
      obtain ⟨hall, hlast⟩ := encodeAll_cancel as bs r s (Nat.succ_inj.mp hlength) ha.2 hb.2
        (by omega) (by omega) hrest
      exact ⟨by rw [hfirst, hall], hlast⟩
end

end Canonical

end UnityCommon.TypeTree
