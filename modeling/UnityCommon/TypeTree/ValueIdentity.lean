import UnityCommon.TypeTree.Canonical

/-!
# The identity of a value digest

The digest of a value tree spends the nodes of its canonical form and feeds the
encoding of it, and fails only where the canonical form is out of bounds.
-/

namespace UnityCommon.TypeTree

open Canonical

/-! ## Byte arrays -/

/-- The test of one element in `expanded_bytes`. -/
def elementIsByte : TypeTreeValue → Bool
  | .int names isUnsigned bits =>
      isUnsigned && decide (bits ≤ 255) && names.name.isSome && textIs names.typeStr "UInt8"
  | _ => false

theorem expandedBytes_eq (elements : List TypeTreeValue) :
    expandedBytes elements = elements.all elementIsByte := by
  unfold expandedBytes
  congr 1

theorem textIs_uint8 (typeStr : Option CString) :
    textIs typeStr "UInt8" = true ↔ typeStr = some (cstr "UInt8") := by
  constructor
  · intro h
    cases typeStr with
    | none => cases h
    | some t =>
        have hbytes : t.bytes = ascii "UInt8" := by simpa [textIs] using h
        have hliteral : (cstr "UInt8").bytes = ascii "UInt8" := by decide
        rw [CString.ext_bytes (hbytes.trans hliteral.symm)]
  · rintro rfl
    decide

/-- The test tells the bytes, and what is fed for one is the byte. -/
theorem byteOf_eq (element : TypeTreeValue) :
    byteOf element = if elementIsByte element then some (lowByte element) else Option.none := by
  cases element with
  | int names isUnsigned bits =>
      have hiff : (isUnsigned = true ∧ bits ≤ 255 ∧ names.name.isSome = true ∧
          names.typeStr = some (cstr "UInt8")) ↔
          elementIsByte (.int names isUnsigned bits) = true := by
        rw [elementIsByte, Bool.and_eq_true, Bool.and_eq_true, Bool.and_eq_true,
          decide_eq_true_iff, textIs_uint8]
        tauto
      rw [byteOf]
      by_cases h : elementIsByte (.int names isUnsigned bits) = true
      · rw [if_pos (hiff.mpr h), if_pos h]
        rfl
      · rw [if_neg (mt hiff.mp h), if_neg h]
  | _ => rfl

theorem mapM_byteOf (elements : List TypeTreeValue) :
    elements.mapM byteOf =
      if expandedBytes elements then some (elements.map lowByte) else Option.none := by
  rw [expandedBytes_eq]
  induction elements with
  | nil => rfl
  | cons element elements ih =>
      rw [List.mapM_cons, byteOf_eq, ih, List.all_cons, List.map_cons]
      cases elementIsByte element <;> cases elements.all elementIsByte <;> rfl

theorem canonical_array (names : ValueNames) (elements : List TypeTreeValue) :
    canonical (.array names elements) =
      if expandedBytes elements then .bytes names (elements.map lowByte)
      else .array names (canonicalAll elements) := by
  rw [canonical, mapM_byteOf]
  cases expandedBytes elements <;> rfl

/-! ## What is fed and what is spent -/

/-- What is left when `value` is fed. -/
def digested (digest : Digesting) (value : Canonical) : Digesting :=
  ⟨digest.fed ++ value.encode, digest.remainingNodes - value.nodes⟩

def digestedAll (digest : Digesting) (values : List Canonical) : Digesting :=
  ⟨digest.fed ++ encodeAll values, digest.remainingNodes - nodesAll values⟩

/-- The bounds at a place of the tree. -/
def Admits (remaining depth : ℕ) (value : Canonical) : Prop :=
  value.Sound ∧ value.nodes ≤ remaining ∧ depth + value.height ≤ maxDepth

def AdmitsAll (remaining depth : ℕ) (values : List Canonical) : Prop :=
  SoundAll values ∧ nodesAll values ≤ remaining ∧ depth + heightAll values ≤ maxDepth

theorem hashString_eq_some {digest digest' : Digesting} {text : Text} :
    hashString digest text = some digest' ↔
      text.length ≤ maxString ∧ digest' = feed digest (word text.length ++ text) := by
  rw [hashString]
  by_cases hlong : maxString < text.length
  · rw [if_pos hlong]
    constructor
    · nofun
    · rintro ⟨hle, -⟩
      omega
  · rw [if_neg hlong, hashWord, feed, feed, feed, List.append_assoc]
    constructor
    · intro h
      exact ⟨Nat.not_lt.mp hlong, (Option.some.inj h).symm⟩
    · rintro ⟨-, rfl⟩
      rfl

theorem hashName_eq_some {digest digest' : Digesting} {name : Option CString} :
    hashName digest name = some digest' ↔
      Labelled name ∧ digest' = feed digest (nameBytes name) := by
  cases name with
  | none =>
      constructor
      · nofun
      · rintro ⟨⟨s, h, -⟩, -⟩
        cases h
  | some s =>
      rw [hashName, Option.bind_some, hashString_eq_some]
      refine and_congr_left fun _ => ⟨fun h => ⟨s, rfl, h⟩, ?_⟩
      rintro ⟨t, h, hle⟩
      cases h
      exact hle

theorem feed_feed (digest : Digesting) (front back : Text) :
    feed (feed digest front) back = feed digest (front ++ back) := by
  rw [feed, feed, feed, List.append_assoc]

/-- One node is spent, and its header is fed. -/
theorem hashHeader_eq_some {digest digest' : Digesting} {value : TypeTreeValue} {depth : ℕ} :
    hashHeader digest value depth = some digest' ↔
      value.names.Labelled ∧ 1 ≤ digest.remainingNodes ∧ depth + 1 ≤ maxDepth ∧
        digest' = ⟨digest.fed ++ header (valueTypeCode value) value.names,
          digest.remainingNodes - 1⟩ := by
  unfold hashHeader
  by_cases hbound : maxDepth ≤ depth ∨ digest.remainingNodes = 0
  · rw [if_pos hbound]
    constructor
    · nofun
    · rintro ⟨-, hnodes, hdepth, -⟩
      omega
  · rw [if_neg hbound]
    dsimp only
    constructor
    · intro h
      obtain ⟨named, hname, h⟩ := Option.bind_eq_some_iff.mp h
      obtain ⟨hname', rfl⟩ := hashName_eq_some.mp hname
      obtain ⟨htype, rfl⟩ := hashName_eq_some.mp h
      refine ⟨⟨hname', htype⟩, by omega, by omega, ?_⟩
      rw [feed_feed, hashWord, feed_feed]
      rfl
    · rintro ⟨⟨hname, htype⟩, -, -, rfl⟩
      refine Option.bind_eq_some_iff.mpr ⟨_, hashName_eq_some.mpr ⟨hname, rfl⟩, ?_⟩
      refine hashName_eq_some.mpr ⟨htype, ?_⟩
      rw [feed_feed, hashWord, feed_feed]
      rfl

/-- The `switch` of `hash_value`. -/
def hashBody (value : TypeTreeValue) (depth : ℕ) (digest : Digesting) : Option Digesting :=
  match value with
  | .int _ isUnsigned bits => some (hashWord (hashWord digest isUnsigned.toNat) bits.toNat)
  | .float _ bits => some (hashWord digest bits.toNat)
  | .string _ text =>
      (hashString digest (text.takeWhile (· ≠ 0))).bind fun digest =>
        if (text.takeWhile (· ≠ 0)).length = text.length then some digest else Option.none
  | .struct _ members =>
      if digest.remainingNodes < members.length then Option.none
      else hashValues (hashWord digest members.length) members (depth + 1)
  | .packed _ contents _ =>
      if digest.remainingNodes < contents.length then Option.none
      else some (hashBytes digest contents)
  | .array _ elements =>
      if digest.remainingNodes < elements.length then Option.none
      else if expandedBytes elements then some (hashBytes digest (elements.map lowByte))
      else hashValues (hashWord (hashWord digest elements.length) 0) elements (depth + 1)
  | .none _ => some digest

theorem hashValue_eq_bind (digest : Digesting) (value : TypeTreeValue) (depth : ℕ) :
    hashValue digest value depth = (hashHeader digest value depth).bind (hashBody value depth) := by
  unfold hashValue
  cases hashHeader digest value depth with
  | none => rfl
  | some digest => cases value <;> rfl

section Kinds

variable {digest digest' : Digesting} {value : TypeTreeValue} {form : Canonical} {depth : ℕ}
  {rest : Digesting → Option Digesting}

/-- A header, then the rest of a value. -/
theorem header_then (Fits : Prop) (hcode : valueTypeCode value = form.code) (hnames : value.names = form.names)
    (hadmits : Admits digest.remainingNodes depth form ↔ form.names.Labelled ∧
      1 ≤ digest.remainingNodes ∧ depth + 1 ≤ maxDepth ∧ Fits)
    (hrest : 1 ≤ digest.remainingNodes → depth + 1 ≤ maxDepth →
      (rest ⟨digest.fed ++ header form.code form.names, digest.remainingNodes - 1⟩ = some digest' ↔
        Fits ∧ digest' = ⟨digest.fed ++ header form.code form.names ++ form.body,
          digest.remainingNodes - form.nodes⟩)) :
    (hashHeader digest value depth).bind rest = some digest' ↔
      Admits digest.remainingNodes depth form ∧ digest' = digested digest form := by
  have hdigested : digested digest form = ⟨digest.fed ++ header form.code form.names ++ form.body,
      digest.remainingNodes - form.nodes⟩ := by
    rw [digested, encode_eq, List.append_assoc]
  rw [Option.bind_eq_some_iff, hadmits, hdigested]
  constructor
  · rintro ⟨headed, hheader, h⟩
    obtain ⟨hlabelled, hnodes, hdepth, rfl⟩ := hashHeader_eq_some.mp hheader
    rw [hcode, hnames] at h
    obtain ⟨hfits, hfed⟩ := (hrest hnodes hdepth).mp h
    exact ⟨⟨hnames ▸ hlabelled, hnodes, hdepth, hfits⟩, hfed⟩
  · rintro ⟨⟨hlabelled, hnodes, hdepth, hfits⟩, hfed⟩
    refine ⟨_, hashHeader_eq_some.mpr ⟨hnames ▸ hlabelled, hnodes, hdepth, rfl⟩, ?_⟩
    rw [hcode, hnames]
    exact (hrest hnodes hdepth).mpr ⟨hfits, hfed⟩

theorem takeWhile_of_notMem {text : Text} (h : (0 : UInt8) ∉ text) :
    text.takeWhile (· ≠ 0) = text := by
  rw [List.takeWhile_eq_self_iff]
  intro byte hbyte
  refine decide_eq_true fun hzero => h ?_
  rwa [hzero] at hbyte

theorem notMem_of_takeWhile {text : Text}
    (h : (text.takeWhile (· ≠ 0)).length = text.length) : (0 : UInt8) ∉ text := by
  intro hzero
  have hwhole := (List.takeWhile_prefix (p := fun byte : UInt8 => decide (byte ≠ 0))
    (l := text)).eq_of_length h
  rw [← hwhole] at hzero
  have := List.mem_takeWhile_imp hzero
  simp at this

/-- A string is fed whole, so that it has no NUL. -/
theorem string_then {names : ValueNames} {text : Text} :
    hashBody (.string names text) depth digest = some digest' ↔
      ((0 : UInt8) ∉ text ∧ text.length ≤ maxString) ∧
        digest' = ⟨digest.fed ++ (word text.length ++ text), digest.remainingNodes⟩ := by
  rw [hashBody, Option.bind_eq_some_iff]
  constructor
  · rintro ⟨fed, hstring, h⟩
    split_ifs at h with hlength
    have hzero := notMem_of_takeWhile hlength
    rw [takeWhile_of_notMem hzero] at hstring
    obtain ⟨hle, rfl⟩ := hashString_eq_some.mp hstring
    exact ⟨⟨hzero, hle⟩, (Option.some.inj h).symm⟩
  · rintro ⟨⟨hzero, hle⟩, rfl⟩
    rw [takeWhile_of_notMem hzero]
    exact ⟨_, hashString_eq_some.mpr ⟨hle, rfl⟩, if_pos rfl⟩

theorem bytes_then {contents : Text} :
    (if digest.remainingNodes < contents.length then Option.none
      else some (hashBytes digest contents)) = some digest' ↔
      contents.length ≤ digest.remainingNodes ∧
        digest' = ⟨digest.fed ++ (word contents.length ++ (word 1 ++ contents)),
          digest.remainingNodes - contents.length⟩ := by
  have hfed : hashBytes digest contents =
      ⟨digest.fed ++ (word contents.length ++ (word 1 ++ contents)),
        digest.remainingNodes - contents.length⟩ := by
    rw [hashBytes, hashWord, hashWord, feed_feed, feed, feed, List.append_assoc, List.append_assoc]
    rfl
  rw [hfed]
  split_ifs with hless
  · exact iff_of_false nofun fun h => by omega
  · rw [Option.some_inj]
    exact ⟨fun h => ⟨by omega, h.symm⟩, fun h => h.2.symm⟩

/-- The children of a value; a count that exceeds the budget fails early. -/
theorem values_then {values : List TypeTreeValue} {front : Text}
    (h : hashValues (feed digest front) values depth = some digest' ↔
      AdmitsAll digest.remainingNodes depth (canonicalAll values) ∧
        digest' = digestedAll (feed digest front) (canonicalAll values)) :
    (if digest.remainingNodes < values.length then Option.none
      else hashValues (feed digest front) values depth) = some digest' ↔
      AdmitsAll digest.remainingNodes depth (canonicalAll values) ∧
        digest' = ⟨digest.fed ++ (front ++ encodeAll (canonicalAll values)),
          digest.remainingNodes - nodesAll (canonicalAll values)⟩ := by
  split_ifs with hless
  · refine iff_of_false nofun fun hadmits => ?_
    have hnodes := length_le_nodesAll (canonicalAll values)
    rw [length_canonicalAll] at hnodes
    have := hadmits.1.2.1
    omega
  · rw [h, digestedAll, feed, List.append_assoc]

theorem admits_bytes {remaining : ℕ} (names : ValueNames) (contents : Text) :
    Admits remaining depth (.bytes names contents) ↔ names.Labelled ∧ 1 ≤ remaining ∧
      depth + 1 ≤ maxDepth ∧ contents.length ≤ remaining - 1 := by
  rw [Admits, Sound, nodes, height]
  constructor
  · rintro ⟨hlabelled, hnodes, hdepth⟩
    exact ⟨hlabelled, by omega, hdepth, by omega⟩
  · rintro ⟨hlabelled, hone, hdepth, hnodes⟩
    exact ⟨hlabelled, by omega, hdepth⟩

/-- The two kinds with children. -/
theorem admits_children {remaining : ℕ} {values : List Canonical}
    (form : List Canonical → Canonical)
    (hsound : (form values).Sound = ((form values).names.Labelled ∧ SoundAll values))
    (hnodes : (form values).nodes = 1 + nodesAll values)
    (hheight : (form values).height = 1 + heightAll values) :
    Admits remaining depth (form values) ↔ (form values).names.Labelled ∧ 1 ≤ remaining ∧
      depth + 1 ≤ maxDepth ∧ AdmitsAll (remaining - 1) (depth + 1) values := by
  rw [Admits, AdmitsAll, hsound, hnodes, hheight]
  constructor
  · rintro ⟨⟨hlabelled, hall⟩, hnodes, hdepth⟩
    exact ⟨hlabelled, by omega, by omega, hall, by omega, by omega⟩
  · rintro ⟨hlabelled, hone, hlevel, hall, hnodes, hdepth⟩
    exact ⟨⟨hlabelled, hall⟩, by omega, by omega⟩

theorem some_eq_fed {a b : Digesting} (h : a = b) : some a = some digest' ↔ digest' = b := by
  rw [h, Option.some_inj]
  exact eq_comm

mutual
/-- **A value is fed as its canonical form.** -/
theorem hashValue_eq_some : ∀ (value : TypeTreeValue) (digest digest' : Digesting) (depth : ℕ),
    hashValue digest value depth = some digest' ↔
      Admits digest.remainingNodes depth (canonical value) ∧
        digest' = digested digest (canonical value)
  | .int names isUnsigned bits, digest, digest', depth => by
      rw [hashValue_eq_bind]
      refine header_then True rfl rfl (by rw [and_true]; exact Iff.rfl) fun _ _ => ?_
      rw [true_and]
      exact some_eq_fed (by rw [hashWord, hashWord, feed_feed]; rfl)
  | .float names bits, digest, digest', depth => by
      rw [hashValue_eq_bind]
      refine header_then True rfl rfl (by rw [and_true]; exact Iff.rfl) fun _ _ => ?_
      rw [true_and]
      exact some_eq_fed rfl
  | .string names text, digest, digest', depth => by
      rw [hashValue_eq_bind]
      refine header_then _ rfl rfl ?_ fun _ _ => string_then
      rw [Admits, canonical, Sound, nodes, height]
      tauto
  | .packed names contents owned, digest, digest', depth => by
      rw [hashValue_eq_bind]
      refine header_then _ rfl rfl (admits_bytes names contents) fun _ _ => ?_
      rw [hashBody, bytes_then, canonical, nodes, ← Nat.sub_sub]
      rfl
  | .array names elements, digest, digest', depth => by
      rw [hashValue_eq_bind, canonical_array]
      split_ifs with hbytes
      · refine header_then _ rfl rfl (admits_bytes names _) fun _ _ => ?_
        rw [hashBody, if_pos hbytes, nodes, ← Nat.sub_sub]
        have hlength : (elements.map lowByte).length = elements.length := List.length_map lowByte
        rw [← hlength, bytes_then]
        rfl
      · refine header_then _ rfl rfl (admits_children (.array names) rfl rfl rfl) fun _ hdepth => ?_
        rw [hashBody, if_neg hbytes, nodes, ← Nat.sub_sub, hashWord, hashWord, feed_feed]
        rw [values_then (hashValues_eq_some elements _ _ _ hdepth), body,
          ← List.append_assoc (word _) (word 0), length_canonicalAll]
        rfl
  | .struct names members, digest, digest', depth => by
      rw [hashValue_eq_bind, canonical]
      refine header_then _ rfl rfl (admits_children (.struct names) rfl rfl rfl) fun _ hdepth => ?_
      rw [hashBody, nodes, ← Nat.sub_sub, hashWord,
        values_then (hashValues_eq_some members _ _ _ hdepth), body, length_canonicalAll]
      rfl
  | .none names, digest, digest', depth => by
      rw [hashValue_eq_bind]
      refine header_then True rfl rfl (by rw [and_true]; exact Iff.rfl) fun _ _ => ?_
      rw [true_and]
      exact some_eq_fed (by rw [canonical, body, List.append_nil]; rfl)

theorem hashValues_eq_some : ∀ (values : List TypeTreeValue) (digest digest' : Digesting)
    (depth : ℕ), depth ≤ maxDepth →
    (hashValues digest values depth = some digest' ↔
      AdmitsAll digest.remainingNodes depth (canonicalAll values) ∧
        digest' = digestedAll digest (canonicalAll values))
  | [], digest, digest', depth, hdepth => by
      rw [hashValues, canonicalAll]
      have hadmits : AdmitsAll digest.remainingNodes depth [] :=
        ⟨trivial, Nat.zero_le _, hdepth⟩
      have hdigested : digestedAll digest [] = digest := by
        rw [digestedAll, encodeAll, List.append_nil]
        rfl
      rw [hdigested, Option.some_inj]
      constructor
      · rintro rfl
        exact ⟨hadmits, rfl⟩
      · rintro ⟨-, rfl⟩
        rfl
  | value :: values, digest, digest', depth, hdepth => by
      rw [hashValues, canonicalAll, Option.bind_eq_some_iff]
      have hdigested : digestedAll (digested digest (canonical value)) (canonicalAll values) =
          digestedAll digest (canonical value :: canonicalAll values) := by
        rw [digestedAll, digestedAll, digested, encodeAll, nodesAll, List.append_assoc,
          Nat.sub_sub]
      constructor
      · rintro ⟨first, hfirst, h⟩
        obtain ⟨⟨hsound, hnodes, hheight⟩, rfl⟩ := (hashValue_eq_some value _ _ _).mp hfirst
        obtain ⟨⟨hsoundAll, hnodesAll, hheightAll⟩, rfl⟩ :=
          (hashValues_eq_some values _ _ _ hdepth).mp h
        have hleft : nodesAll (canonicalAll values) ≤
            digest.remainingNodes - (canonical value).nodes := hnodesAll
        refine ⟨⟨⟨hsound, hsoundAll⟩, ?_, ?_⟩, hdigested⟩
        · rw [nodesAll]
          omega
        · rw [heightAll]
          omega
      · rintro ⟨⟨hsound, hnodes, hheight⟩, rfl⟩
        rw [nodesAll] at hnodes
        rw [heightAll] at hheight
        rw [SoundAll] at hsound
        refine ⟨_, (hashValue_eq_some value _ _ _).mpr ⟨⟨hsound.1, by omega, by omega⟩, rfl⟩, ?_⟩
        refine (hashValues_eq_some values _ _ _ hdepth).mpr ⟨⟨hsound.2, ?_, by omega⟩, hdigested.symm⟩
        show nodesAll (canonicalAll values) ≤ digest.remainingNodes - (canonical value).nodes
        omega
end

end Kinds

/-! ## The identity -/

/-- What is fed behind the domain tag. -/
def digestPreimage (value : TypeTreeValue) : Option Text :=
  (hashValue ⟨digestDomain, maxNodes⟩ value 0).map fun digest =>
    digest.fed.drop digestDomain.length

/-- **The preimage is the encoding of the canonical form**, where that is in bounds. -/
theorem digestPreimage_eq_some {value : TypeTreeValue} {fed : Text} :
    digestPreimage value = some fed ↔ (canonical value).Accepted ∧ fed = (canonical value).encode := by
  have hadmits : Admits maxNodes 0 (canonical value) ↔ (canonical value).Accepted := by
    rw [Admits, Nat.zero_add]
    exact ⟨fun ⟨hsound, hnodes, hheight⟩ => ⟨hsound, hnodes, hheight⟩,
      fun h => ⟨h.sound, h.nodes, h.height⟩⟩
  rw [digestPreimage, Option.map_eq_some_iff, ← hadmits]
  constructor
  · rintro ⟨digest, hdigest, rfl⟩
    obtain ⟨hvalue, rfl⟩ := (hashValue_eq_some value _ _ _).mp hdigest
    exact ⟨hvalue, List.drop_left⟩
  · rintro ⟨hvalue, rfl⟩
    exact ⟨_, (hashValue_eq_some value _ _ _).mpr ⟨hvalue, rfl⟩, List.drop_left⟩

/-- What the digest does with a value depends on its canonical form. -/
theorem hashValue_congr {a b : TypeTreeValue} (h : canonical a = canonical b) (digest : Digesting)
    (depth : ℕ) : hashValue digest a depth = hashValue digest b depth := by
  refine Option.ext fun digest' => ?_
  rw [hashValue_eq_some, hashValue_eq_some, h]

theorem digestPreimage_injective {a b : TypeTreeValue} {fed : Text}
    (ha : digestPreimage a = some fed) (hb : digestPreimage b = some fed) :
    canonical a = canonical b := by
  obtain ⟨haccepted, hfed⟩ := digestPreimage_eq_some.mp ha
  obtain ⟨haccepted', hfed'⟩ := digestPreimage_eq_some.mp hb
  have hmax : maxNodes < 2 ^ 64 := by decide
  have hnodes := haccepted.nodes
  have hnodes' := haccepted'.nodes
  have heq : (canonical a).encode ++ [] = (canonical b).encode ++ [] := by rw [← hfed, hfed']
  exact (encode_cancel _ _ [] [] haccepted.sound haccepted'.sound (by omega) (by omega) heq).1

/-- **The identity of a value digest.** Two accepted trees feed the same bytes
exactly when their canonical forms are equal; a tree is accepted exactly when
its canonical form is in bounds; and both spellings of a byte array spend the
same nodes and feed the same bytes wherever they stand. -/
theorem typetreeValueDigest_identity :
    (∀ {δ : Type} (sha256 : Text → δ) (value : TypeTreeValue),
      typetreeValueDigest sha256 value =
        (digestPreimage value).map fun fed => sha256 (digestDomain ++ fed)) ∧
    (∀ (a b : TypeTreeValue) (fed fed' : Text), digestPreimage a = some fed →
      digestPreimage b = some fed' → (fed = fed' ↔ canonical a = canonical b)) ∧
    (∀ value : TypeTreeValue,
      (∃ fed, digestPreimage value = some fed) ↔ (canonical value).Accepted) ∧
    (∀ (names : ValueNames) (contents : Text) (owned : Bool) (elements : List TypeTreeValue)
      (digest : Digesting) (depth : ℕ), elements.mapM byteOf = some contents →
      hashValue digest (.array names elements) depth =
        hashValue digest (.packed names contents owned) depth) := by
  refine ⟨?_, ?_, ?_, ?_⟩
  · intro δ sha256 value
    rw [typetreeValueDigest, digestPreimage, Option.map_map]
    cases hdigest : hashValue ⟨digestDomain, maxNodes⟩ value 0 with
    | none => rfl
    | some digest =>
        obtain ⟨-, rfl⟩ := (hashValue_eq_some value _ _ _).mp hdigest
        rw [Option.map_some, Option.map_some, Function.comp, digested, List.drop_left]
  · intro a b fed fed' ha hb
    constructor
    · rintro rfl
      exact digestPreimage_injective ha hb
    · intro h
      rw [(digestPreimage_eq_some.mp ha).2, (digestPreimage_eq_some.mp hb).2, h]
  · intro value
    constructor
    · rintro ⟨fed, h⟩
      exact (digestPreimage_eq_some.mp h).1
    · intro h
      exact ⟨_, digestPreimage_eq_some.mpr ⟨h, rfl⟩⟩
  · intro names contents owned elements digest depth h
    have harray : canonical (.array names elements) = .bytes names contents := by
      rw [canonical, h]
    exact hashValue_congr harray digest depth

/-- A structure of an array and an integer. -/
def holding (array : ValueNames → TypeTreeValue) : TypeTreeValue :=
  .struct ⟨some (cstr "Base"), some (cstr "C")⟩
    [array ⟨some (cstr "m_Data"), some (cstr "vector")⟩,
      .int ⟨some (cstr "m_Size"), some (cstr "int")⟩ false 2]

/-- Both spellings of two bytes feed the same, and the bytes the other way round do not. -/
theorem typetreeValueDigest_identity_bytes :
    ∃ fed fed',
      digestPreimage (holding (.array · [byteElement 1, byteElement 2])) = some fed ∧
      digestPreimage (holding (.packed · [1, 2] true)) = some fed ∧
      digestPreimage (holding (.packed · [2, 1] true)) = some fed' ∧ fed ≠ fed' := by
  obtain ⟨-, hidentity, -, -⟩ := typetreeValueDigest_identity
  have haccepted : ∀ value ∈ [holding (.array · [byteElement 1, byteElement 2]),
      holding (.packed · [1, 2] true), holding (.packed · [2, 1] true)],
      (digestPreimage value).isSome = true := by decide +kernel
  simp only [List.forall_mem_cons, Option.isSome_iff_exists] at haccepted
  obtain ⟨⟨fed, hlisted⟩, ⟨fed₁, hpacked⟩, ⟨fed', hother⟩, -⟩ := haccepted
  obtain rfl : fed = fed₁ := (hidentity _ _ _ _ hlisted hpacked).mpr rfl
  refine ⟨fed, fed', hlisted, hpacked, hother, fun heq => ?_⟩
  have hsame := (hidentity _ _ _ _ hpacked hother).mp heq
  simp [holding, canonical, canonicalAll] at hsame

end UnityCommon.TypeTree
