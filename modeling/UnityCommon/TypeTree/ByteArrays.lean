import UnityCommon.TypeTree.Grammar
import UnityCommon.TypeTree.Progress

/-!
# Packed byte arrays

The packing flags change how a `UInt8` array is stored and nothing else. For a
validated schema a packed parse is the default parse with the byte arrays
folded up, and no accessor and no digest can tell the two apart.
-/

namespace UnityCommon.TypeTree

/-! ## Accessors cannot tell -/

theorem textIs_expand_name (name : String) :
    (fun value : TypeTreeValue => textIs value.names.name name) ∘ expand =
      fun value => textIs value.names.name name := by
  funext value
  simp

@[simp] theorem isArray_expand (value : TypeTreeValue) : isArray (expand value) = isArray value := by
  cases value <;> rfl

mutual
theorem typetreeGetArray_expand : ∀ value : TypeTreeValue,
    typetreeGetArray (expand value) = (typetreeGetArray value).map expand
  | .int .. => rfl
  | .float .. => rfl
  | .string .. => rfl
  | .none .. => rfl
  | .packed .. => by simp [expand, typetreeGetArray]
  | .array .. => by simp [expand, typetreeGetArray]
  | .struct names members => by
      have hdata := arrayOfData_expand members
      rw [expandAll_eq_map] at hdata
      rw [expand, expandAll_eq_map, typetreeGetArray, typetreeGetArray, List.find?_map,
        textIs_expand_name, hdata]
      cases members.find? (fun member => textIs member.names.name "Array") with
      | none => rfl
      | some found =>
          simp only [Option.map_some, isArray_expand]
          split <;> rfl

theorem arrayOfData_expand : ∀ members : List TypeTreeValue,
    arrayOfData (expandAll members) = (arrayOfData members).map expand
  | [] => rfl
  | member :: members => by
      rw [expandAll, arrayOfData, arrayOfData, expand_names, arrayOfData_expand members,
        typetreeGetArray_expand member]
      split <;> rfl
end

@[simp] theorem typetreeValueGetUint_byteElement (byte : UInt8) :
    typetreeValueGetUint (byteElement byte) = some byte.toUInt64 := rfl

@[simp] theorem typetreeValueGetInt_byteElement (byte : UInt8) :
    typetreeValueGetInt (byteElement byte) = some byte.toUInt64.toInt64 := by
  have hmax : int64Max.toNat = 9223372036854775807 := rfl
  have hle : ¬ int64Max < byte.toUInt64 := by
    rw [UInt64.lt_iff_toNat_lt, UInt8.toNat_toUInt64, hmax]
    have := byte.toNat_lt
    omega
  simp [typetreeValueGetInt, byteElement, hle]

@[simp] theorem typetreeValueGetInt_expand (value : TypeTreeValue) :
    typetreeValueGetInt (expand value) = typetreeValueGetInt value := by
  cases value <;> rfl

@[simp] theorem typetreeValueGetUint_expand (value : TypeTreeValue) :
    typetreeValueGetUint (expand value) = typetreeValueGetUint value := by
  cases value <;> rfl

theorem typetreeArrayGetInt_expand (value : TypeTreeValue) (index : ℤ) :
    typetreeArrayGetInt (expand value) index = typetreeArrayGetInt value index := by
  unfold typetreeArrayGetInt
  rw [typetreeGetArray_expand]
  rcases typetreeGetArray value with _ | array
  · rfl
  cases array with
  | packed names bytes owned =>
      have hread : (bytes.map byteElement)[index.toNat]?.bind typetreeValueGetInt =
          bytes[index.toNat]?.map (·.toUInt64.toInt64) := by
        cases h : bytes[index.toNat]? <;> simp [h]
      simp only [Option.map_some, expand, hread]
  | array names elements =>
      have hread : (elements.map expand)[index.toNat]?.bind typetreeValueGetInt =
          elements[index.toNat]?.bind typetreeValueGetInt := by
        cases h : elements[index.toNat]? <;> simp [h]
      simp only [Option.map_some, expand, expandAll_eq_map, hread]
  | _ => rfl

theorem typetreeArrayGetUint_expand (value : TypeTreeValue) (index : ℤ) :
    typetreeArrayGetUint (expand value) index = typetreeArrayGetUint value index := by
  unfold typetreeArrayGetUint
  rw [typetreeGetArray_expand]
  rcases typetreeGetArray value with _ | array
  · rfl
  cases array with
  | packed names bytes owned =>
      have hread : (bytes.map byteElement)[index.toNat]?.bind typetreeValueGetUint =
          bytes[index.toNat]?.map (·.toUInt64) := by
        cases h : bytes[index.toNat]? <;> simp [h]
      simp only [Option.map_some, expand, hread]
  | array names elements =>
      have hread : (elements.map expand)[index.toNat]?.bind typetreeValueGetUint =
          elements[index.toNat]?.bind typetreeValueGetUint := by
        cases h : elements[index.toNat]? <;> simp [h]
      simp only [Option.map_some, expand, expandAll_eq_map, hread]
  | _ => rfl

@[simp] theorem elementByte_byteElement (byte : UInt8) :
    elementByte (byteElement byte) = some byte := by
  have hle : ¬ (255 : UInt64) < byte.toUInt64 := by
    rw [UInt64.lt_iff_toNat_lt, UInt8.toNat_toUInt64, show (255 : UInt64).toNat = 255 from rfl]
    have := byte.toNat_lt
    omega
  simp [elementByte, hle]

@[simp] theorem elementByte_expand (value : TypeTreeValue) :
    elementByte (expand value) = elementByte value := by
  simp [elementByte]

theorem mapM_elementByte_bytes (bytes : Text) :
    (bytes.map byteElement).mapM elementByte = some bytes := by
  induction bytes with
  | nil => rfl
  | cons byte bytes ih => simp [ih]

theorem mapM_elementByte_expand (elements : List TypeTreeValue) :
    (elements.map expand).mapM elementByte = elements.mapM elementByte := by
  induction elements with
  | nil => rfl
  | cons element elements ih => simp [ih]

theorem typetreeArrayCopyBytes_expand (value : TypeTreeValue) (offset count : ℕ) :
    typetreeArrayCopyBytes (expand value) offset count =
      typetreeArrayCopyBytes value offset count := by
  unfold typetreeArrayCopyBytes
  rw [typetreeGetArray_expand]
  rcases typetreeGetArray value with _ | array
  · rfl
  cases array with
  | packed names bytes owned =>
      simp only [Option.map_some, expand, List.length_map, ← List.map_drop, ← List.map_take,
        mapM_elementByte_bytes]
  | array names elements =>
      simp only [Option.map_some, expand, expandAll_eq_map, List.length_map, ← List.map_drop,
        ← List.map_take, mapM_elementByte_expand]
  | _ => rfl

/-! ## The digest cannot tell -/

theorem hashHeader_expand (digest : Digesting) (value : TypeTreeValue) (depth : ℕ) :
    hashHeader digest (expand value) depth = hashHeader digest value depth := by
  have hcode : valueTypeCode (expand value) = valueTypeCode value := by
    cases value <;> rfl
  unfold hashHeader
  rw [hcode, expand_names]

theorem expandedBytes_expand (elements : List TypeTreeValue) :
    expandedBytes (elements.map expand) = expandedBytes elements := by
  unfold expandedBytes
  rw [List.all_map]
  congr 1
  funext element
  cases element <;> rfl

theorem lowByte_expand (elements : List TypeTreeValue) :
    (elements.map expand).map lowByte = elements.map lowByte := by
  rw [List.map_map]
  congr 1
  funext element
  cases element <;> rfl

theorem expandedBytes_bytes (bytes : Text) : expandedBytes (bytes.map byteElement) = true := by
  unfold expandedBytes
  rw [List.all_map, List.all_eq_true]
  intro byte _
  have hle : byte.toUInt64 ≤ 255 := by
    rw [UInt64.le_iff_toNat_le, UInt8.toNat_toUInt64, show (255 : UInt64).toNat = 255 from rfl]
    have := byte.toNat_lt
    omega
  have hname : textIs (some (cstr "UInt8")) "UInt8" = true := by decide
  simp [byteElement, hle, hname]

theorem lowByte_bytes (bytes : Text) : (bytes.map byteElement).map lowByte = bytes := by
  rw [List.map_map]
  refine (List.map_congr_left fun byte _ => ?_).trans (List.map_id bytes)
  simp [byteElement, lowByte]

mutual
theorem hashValue_expand : ∀ (digest : Digesting) (value : TypeTreeValue) (depth : ℕ),
    hashValue digest (expand value) depth = hashValue digest value depth
  | digest, .packed names bytes owned, depth => by
      have hheader := hashHeader_expand digest (.packed names bytes owned) depth
      unfold hashValue
      rw [hheader]
      cases hashHeader digest (.packed names bytes owned) depth with
      | none => rfl
      | some digest =>
          simp only [expand, List.length_map, expandedBytes_bytes, lowByte_bytes, if_true]
  | digest, .array names elements, depth => by
      have hheader := hashHeader_expand digest (.array names elements) depth
      unfold hashValue
      rw [hheader]
      cases hashHeader digest (.array names elements) depth with
      | none => rfl
      | some digest =>
          simp only [expand, expandAll_eq_map, List.length_map, expandedBytes_expand,
            lowByte_expand]
          have hvalues := hashValues_expand
            (hashWord (hashWord digest elements.length) 0) elements (depth + 1)
          rw [expandAll_eq_map] at hvalues
          rw [hvalues]
  | digest, .struct names members, depth => by
      have hheader := hashHeader_expand digest (.struct names members) depth
      unfold hashValue
      rw [hheader]
      cases hashHeader digest (.struct names members) depth with
      | none => rfl
      | some digest =>
          simp only [expand, expandAll_eq_map, List.length_map]
          have hvalues := hashValues_expand (hashWord digest members.length) members (depth + 1)
          rw [expandAll_eq_map] at hvalues
          rw [hvalues]
  | _, .int .., _ => rfl
  | _, .float .., _ => rfl
  | _, .string .., _ => rfl
  | _, .none .., _ => rfl

theorem hashValues_expand : ∀ (digest : Digesting) (values : List TypeTreeValue) (depth : ℕ),
    hashValues digest (expandAll values) depth = hashValues digest values depth
  | _, [], _ => rfl
  | digest, value :: values, depth => by
      rw [expandAll, hashValues, hashValues, hashValue_expand digest value depth]
      congr 1
      funext digest
      exact hashValues_expand digest values depth
end

theorem typetreeValueDigest_expand {δ : Type*} (sha256 : Text → δ) (value : TypeTreeValue) :
    typetreeValueDigest sha256 (expand value) = typetreeValueDigest sha256 value := by
  unfold typetreeValueDigest
  rw [hashValue_expand]

/-! ## The parser folds byte arrays up -/

/-- The wire read of one `UInt8`. -/
theorem readUInt8_eq (stream : ByteStream) :
    stream.readUInt8 =
      if stream.remaining < 1 then none
      else some ((stream.data[stream.position]?).getD 0, stream.advance 1) := by
  unfold ByteStream.readUInt8 ByteStream.readNat ByteStream.readBytes
  by_cases hr : stream.remaining < 1
  · simp [hr]
  · have hlt : stream.position < stream.data.length := by
      unfold ByteStream.remaining at hr
      omega
    have hwindow : stream.window 1 = [stream.data[stream.position]] := by
      unfold ByteStream.window
      rw [List.drop_eq_getElem_cons hlt]
      rfl
    have hbyte : ∀ b : UInt8, Bytes.ofLE [b] = b.toNat := fun b => by simp [Bytes.ofLE]
    simp [hr, hwindow, Bytes.ofBE, hbyte, List.getElem?_eq_getElem hlt]

/-- Element by element and in one piece, the bytes are the same. -/
theorem parseElements_bytes : ∀ (size : ℕ) (stream : ByteStream), size ≤ stream.remaining →
    parseElements (fun stream => stream.readUInt8.map fun (byte, stream) =>
        (byteElement byte, stream)) size stream =
      some ((stream.window size).map byteElement, stream.advance size) := by
  intro size
  induction size with
  | zero =>
      intro stream _
      simp [parseElements, ByteStream.window, ByteStream.advance]
  | succ size ih =>
      intro stream hsize
      have hrem : ¬ stream.remaining < 1 := by omega
      have hlt : stream.position < stream.data.length := by
        unfold ByteStream.remaining at hsize
        omega
      have hnext : size ≤ (stream.advance 1).remaining := by
        unfold ByteStream.remaining ByteStream.advance at *
        simp only
        omega
      have hwindow : stream.window (size + 1) =
          stream.data[stream.position] :: (stream.advance 1).window size := by
        unfold ByteStream.window ByteStream.advance
        rw [List.drop_eq_getElem_cons hlt, List.take_succ_cons]
      have hadvance : (stream.advance 1).advance size = stream.advance (size + 1) := by
        unfold ByteStream.advance
        congr 1
        simp only
        omega
      rw [parseElements]
      simp only [readUInt8_eq, if_neg hrem, Option.map_some, Option.bind_some]
      simp only [readUInt8_eq] at ih
      rw [ih _ hnext, hwindow, hadvance, Option.map_some, List.getElem?_eq_getElem hlt]
      rfl

theorem parsePacked_eq {flags : UInt32} {node : TypeTreeNode} {size : ℕ} {stream : ByteStream}
    (hsize : size ≤ stream.remaining) :
    ∃ owned, parsePacked flags node size stream =
      some (.packed (namesOf node) (stream.window size) owned, stream.advance size) := by
  have hfit : ¬ stream.remaining < size := by omega
  unfold parsePacked
  by_cases hz : size = 0
  · subst hz
    exact ⟨false, by simp [ByteStream.window, ByteStream.advance]⟩
  · rw [if_neg hz]
    by_cases hb : flags &&& borrowByteArrays ≠ 0
    · exact ⟨false, by simp [hb, hfit, ByteStream.skip]⟩
    · exact ⟨true, by simp [hb, hfit, ByteStream.readBytes]⟩

theorem textIs_eq_cstr {text : Option CString} {literal : String}
    (hno : (cstr literal).bytes = ascii literal) (h : textIs text literal = true) :
    text = some (cstr literal) := by
  cases text with
  | none => cases h
  | some t =>
      have hb : t.bytes = ascii literal := by simpa [textIs] using h
      rw [CString.ext_bytes (hb.trans hno.symm)]

/-- The data node of a packed array. -/
theorem packsArray_data {type : TypeTreeType} {flags : UInt32} {dataIndex : ℕ}
    (h : packsArray type flags dataIndex = true) :
    ∃ data, type.nodes[dataIndex]? = some data ∧ data.byteSize = 1 ∧
      nodeHasChildren type dataIndex = false ∧ textIs data.typeStr "UInt8" = true := by
  unfold packsArray at h
  split at h
  · rename_i data hdata
    simp only [Bool.and_eq_true, beq_iff_eq, Bool.not_eq_true'] at h
    exact ⟨data, hdata, h.1.1.2, h.1.2, h.2⟩
  · cases h

/-- One default parse of the data node of a packed array. -/
theorem parseInternal_byte {type : TypeTreeType} {flags : UInt32} {fuel dataIndex : ℕ}
    {data : TypeTreeNode} (hdata : type.nodes[dataIndex]? = some data)
    (hsize : data.byteSize = 1) (hleaf : nodeHasChildren type dataIndex = false)
    (htype : textIs data.typeStr "UInt8" = true) (hname : textIs data.nameStr "data" = true)
    (stream : ByteStream) :
    (parseInternal type flags (fuel + 1) dataIndex true stream).map
        (fun (value, _, stream) => (value, stream)) =
      stream.readUInt8.map fun (byte, stream) => (byteElement byte, stream) := by
  have ht := textIs_eq_cstr (by decide) htype
  have hn := textIs_eq_cstr (by decide) hname
  have hsigned : isSignedIntegerType (some (cstr "UInt8")) = false := by decide
  have hunsigned : isUnsignedIntegerType (some (cstr "UInt8")) = true := by decide
  rw [parseInternal]
  simp only [hdata, hleaf, Bool.not_false, if_true, parseLeaf, parseScalar, namesOf, ht, hn,
    hsigned, hunsigned, hsize, Bool.or_true, and_self, Bool.false_eq_true, if_false,
    Bool.not_true, Bool.false_and, alignWhen]
  cases stream.readUInt8 <;> rfl

/-- **An array is folded up or parsed element by element.** -/
theorem parseArrayValue_expand {type : TypeTreeType} {flags : UInt32} {node : TypeTreeNode}
    {index size : ℕ} {parse parse' : ByteStream → Option (TypeTreeValue × ByteStream)}
    {stream : ByteStream} (hsize : size ≤ stream.remaining)
    (hparse : ∀ stream, (parse stream).map (fun (value, stream) => (expand value, stream)) =
      parse' stream)
    (hbyte : packsArray type flags (index + 3) = true → parse' =
      fun stream => stream.readUInt8.map fun (byte, stream) => (byteElement byte, stream)) :
    (parseArrayValue type flags node index size parse stream).map
        (fun (value, stream) => (expand value, stream)) =
      parseArrayValue type 0 node index size parse' stream := by
  have hplain : packsArray type 0 (index + 3) = false := by
    unfold packsArray
    split <;> simp
  unfold parseArrayValue
  rw [hplain]
  by_cases hpack : packsArray type flags (index + 3) = true
  · obtain ⟨owned, hpacked⟩ := @parsePacked_eq flags node size stream hsize
    rw [if_pos hpack, hpacked, hbyte hpack, parseElements_bytes size stream hsize]
    rfl
  · rw [if_neg hpack, if_neg (by simp), ← parseElements_map hparse]
    cases parseElements parse size stream with
    | none => rfl
    | some result => simp [expand, expandAll_eq_map]

theorem expand_parseScalar {node : TypeTreeNode} {stream stream' : ByteStream}
    {value : TypeTreeValue} (h : parseScalar node stream = some (value, stream')) :
    expand value = value := by
  rcases parseScalar_value h with ⟨_, _, rfl⟩ | ⟨_, rfl⟩ <;> rfl

theorem expandAll_memberSlots {childCount : ℕ} {values : List TypeTreeValue} :
    (memberSlots childCount values).map (·.map expand) =
      memberSlots childCount (values.map expand) := by
  unfold memberSlots
  rw [List.length_map]
  split
  · rfl
  · simp [emptyMember, expand]

/-- **The flags only fold byte arrays up**, at every nesting depth. -/
theorem parseInternal_expand {type : TypeTreeType} (hvalid : typetreeValidateSchema type = true)
    (flags : UInt32) : ∀ (fuel index : ℕ) (suppress : Bool) (stream : ByteStream),
    type.nodes.length ≤ index + fuel →
      (parseInternal type flags fuel index suppress stream).map (mapValue expand) =
        parseInternal type 0 fuel index suppress stream := by
  intro fuel
  induction fuel with
  | zero =>
      intro index suppress stream _
      rfl
  | succ fuel ih =>
      intro index suppress stream hfuel
      rw [parseInternal, parseInternal]
      cases hnode : type.nodes[index]? with
      | none => rfl
      | some node =>
          simp only
          by_cases hleaf : nodeHasChildren type index = false
          · rw [hleaf]
            exact expand_parseLeaf
          have hchildren : nodeHasChildren type index = true := by simpa using hleaf
          rw [hchildren]
          simp only [Bool.not_true, Bool.false_eq_true, if_false]
          by_cases hstring : textIs node.typeStr "string" = true
          · rw [if_pos hstring, if_pos hstring]
            exact expand_parseString
          rw [if_neg hstring, if_neg hstring]
          by_cases harray : ownsArray type index = true
          · rw [if_pos harray, if_pos harray]
            have hshape := (nodeShape_of_validate hvalid hnode).owner hchildren harray
            obtain ⟨owner, array, size, data, hshape⟩ := arrayShape_of_validate hshape
            have hlt := lt_length_of_getElem? hshape.data_at
            obtain ⟨fuel, rfl⟩ : ∃ f, fuel = f + 1 := ⟨fuel - 1, by omega⟩
            refine expand_parseArray ?_ ?_
            · intro stream
              rw [← ih (index + 3) true stream (by omega)]
              cases parseInternal type flags (fuel + 1) (index + 3) true stream <;> rfl
            · intro hpack
              obtain ⟨data', hdata, hsize, hnochild, htype⟩ := packsArray_data hpack
              obtain rfl : data = data' := by simpa [hshape.data_at] using hdata
              funext stream
              exact parseInternal_byte hdata hsize hnochild htype hshape.data_name stream
          · rw [if_neg harray, if_neg harray]
            exact expand_parseStruct (fun _ _ _ _ _ _ hp => parseInternal_advances fuel hp)
              fun i hi s => ih i false s (by omega)
where
  expand_parseLeaf {node : TypeTreeNode} {index : ℕ} {suppress : Bool} {stream : ByteStream} :
      (parseLeaf node index suppress stream).map (mapValue expand) =
        parseLeaf node index suppress stream := by
    unfold parseLeaf
    cases h : parseScalar node stream with
    | none => rfl
    | some result =>
        obtain ⟨value, stream'⟩ := result
        simp only [Option.bind_some, Option.map_map, Function.comp_def, mapValue,
          expand_parseScalar h]
  expand_parseString {node : TypeTreeNode} {index : ℕ} {stream : ByteStream} :
      (parseString type node index stream).map (mapValue expand) =
        parseString type node index stream := by
    unfold parseString
    cases stream.readUInt32 with
    | none => rfl
    | some result =>
        obtain ⟨size, stream⟩ := result
        simp only [Option.bind_some]
        cases stream.readBytes size.toNat with
        | none => rfl
        | some result =>
            obtain ⟨bytes, stream⟩ := result
            simp only [Option.bind_some]
            cases stream.align 4 <;> rfl
  expand_parseArray {node : TypeTreeNode} {index : ℕ} {suppress : Bool} {stream : ByteStream}
      {parse parse' : ByteStream → Option (TypeTreeValue × ByteStream)}
      (hparse : ∀ stream, (parse stream).map (fun result => (expand result.1, result.2)) =
        parse' stream)
      (hbyte : packsArray type flags (index + 3) = true → parse' =
        fun stream => stream.readUInt8.map fun result => (byteElement result.1, result.2)) :
      (parseArray type flags node index suppress parse stream).map (mapValue expand) =
        parseArray type 0 node index suppress parse' stream := by
    unfold parseArray
    split
    swap
    · rfl
    split
    · rfl
    cases stream.readUInt32 with
    | none => rfl
    | some result =>
        obtain ⟨size, stream⟩ := result
        simp only [Option.bind_some]
        split
        · rfl
        rename_i hfit
        rw [← parseArrayValue_expand (by omega) hparse hbyte]
        cases parseArrayValue type flags node index size.toNat parse stream with
        | none => rfl
        | some result =>
            simp only [Option.bind_some, Option.map_some, Option.map_map]
            rfl
  expand_parseStruct {node : TypeTreeNode} {index : ℕ} {suppress : Bool} {stream : ByteStream}
      {parse parse' : ℕ → ByteStream → Option (TypeTreeValue × ℕ × ByteStream)}
      (hadv : Advances parse (index + 1))
      (hparse : ∀ i, index + 1 ≤ i → ∀ stream,
        (parse i stream).map (mapValue expand) = parse' i stream) :
      (parseStruct type node index suppress parse stream).map (mapValue expand) =
        parseStruct type node index suppress parse' stream := by
    have hfinish : ∀ loop loop' : Option (List TypeTreeValue × ℕ × ByteStream),
        loop.map (fun result => (result.1.map expand, result.2)) = loop' →
        ∀ childCount,
        (loop.bind fun result =>
          (memberSlots childCount result.1).bind fun members =>
            (alignWhen (!suppress && wantsAlign node.metaFlags) result.2.2).map fun stream =>
              (TypeTreeValue.struct (namesOf node) members, result.2.1, stream)).map
            (mapValue expand) =
        loop'.bind fun result =>
          (memberSlots childCount result.1).bind fun members =>
            (alignWhen (!suppress && wantsAlign node.metaFlags) result.2.2).map fun stream =>
              (TypeTreeValue.struct (namesOf node) members, result.2.1, stream) := by
      rintro loop loop' rfl childCount
      cases loop with
      | none => rfl
      | some result =>
          obtain ⟨values, last, stream⟩ := result
          simp only [Option.bind_some, Option.map_some, ← expandAll_memberSlots]
          cases memberSlots childCount values with
          | none => rfl
          | some members =>
              simp only [Option.bind_some, Option.map_some]
              cases alignWhen (!suppress && wantsAlign node.metaFlags) stream with
              | none => rfl
              | some stream => simp [mapValue, expand, expandAll_eq_map]
    unfold parseStruct
    refine hfinish _ _ ?_ _
    split
    · rfl
    · exact parseMembers_map expand (index + 1) hadv hparse _ _ _ (Nat.le_refl _)

/-! ## The three entry points -/

/-- What a caller can observe of two values through the accessors and the
digest. -/
structure SameObservations {δ : Type*} (sha256 : Text → δ) (a b : TypeTreeValue) : Prop where
  digest : typetreeValueDigest sha256 a = typetreeValueDigest sha256 b
  arrayGetInt : ∀ index, typetreeArrayGetInt a index = typetreeArrayGetInt b index
  arrayGetUint : ∀ index, typetreeArrayGetUint a index = typetreeArrayGetUint b index
  copyBytes : ∀ offset count,
    typetreeArrayCopyBytes a offset count = typetreeArrayCopyBytes b offset count

theorem sameObservations_expand {δ : Type*} (sha256 : Text → δ) (value : TypeTreeValue) :
    SameObservations sha256 value (expand value) :=
  ⟨(typetreeValueDigest_expand sha256 value).symm,
    fun index => (typetreeArrayGetInt_expand value index).symm,
    fun index => (typetreeArrayGetUint_expand value index).symm,
    fun offset count => (typetreeArrayCopyBytes_expand value offset count).symm⟩

theorem typetreeParseValueEx_expand {type : TypeTreeType}
    (hvalid : typetreeValidateSchema type = true) {flags : UInt32}
    (hflags : flags = packByteArrays ∨ flags = borrowByteArrays) (index : ℕ)
    (stream : ByteStream) :
    (typetreeParseValueEx type index stream flags).map (mapValue expand) =
      typetreeParseValueEx type index stream 0 := by
  have hknown : ¬ (flags &&& ~~~(packByteArrays ||| borrowByteArrays) ≠ 0 ∨
      flags &&& (packByteArrays ||| borrowByteArrays) = packByteArrays ||| borrowByteArrays ∨
      typetreeValidateSchema type = false) := by
    rw [hvalid]
    rcases hflags with rfl | rfl <;> decide
  have hzero : ¬ ((0 : UInt32) &&& ~~~(packByteArrays ||| borrowByteArrays) ≠ 0 ∨
      (0 : UInt32) &&& (packByteArrays ||| borrowByteArrays) =
        packByteArrays ||| borrowByteArrays ∨
      typetreeValidateSchema type = false) := by
    rw [hvalid]
    decide
  unfold typetreeParseValueEx
  simp only [if_neg hknown, if_neg hzero]
  exact parseInternal_expand hvalid flags _ index false stream (by omega)

/-- **The packing flags agree with the default parse.** They succeed and fail
together, stop at the same stream position and node index, and the values are
equal once packed arrays are read as elements, so no accessor and no digest
tells them apart. -/
theorem typetreeParseValueEx_agree {type : TypeTreeType}
    (hvalid : typetreeValidateSchema type = true) (index : ℕ) (stream : ByteStream)
    {δ : Type} (sha256 : Text → δ) (flags : UInt32)
    (hflags : flags = packByteArrays ∨ flags = borrowByteArrays) :
    (typetreeParseValueEx type index stream flags = none ↔
      typetreeParseValueEx type index stream 0 = none) ∧
    ∀ value index' stream',
      typetreeParseValueEx type index stream flags = some (value, index', stream') →
        ∃ plain, typetreeParseValueEx type index stream 0 = some (plain, index', stream') ∧
          expand value = plain ∧ SameObservations sha256 value plain := by
  have hexpand := typetreeParseValueEx_expand hvalid hflags index stream
  refine ⟨?_, ?_⟩
  · rw [← hexpand, Option.map_eq_none_iff]
  · intro value index' stream' h
    rw [h] at hexpand
    exact ⟨expand value, hexpand.symm, rfl, sameObservations_expand sha256 value⟩

/-- A schema node with no flags and no wire words. -/
def plainNode (level : UInt8) (typeStr nameStr : String) (byteSize : Int32) : TypeTreeNode where
  version := 1
  level := level
  typeFlags := 0
  typeStrOffset := 0
  nameStrOffset := 0
  byteSize := byteSize
  index := 0
  metaFlags := 0
  refTypeHash := 0
  typeStr := some (cstr typeStr)
  nameStr := some (cstr nameStr)

def plainSchema (nodes : List TypeTreeNode) : TypeTreeType where
  typeId := 49
  isStripped := false
  scriptTypeIndex := 0xffff
  scriptIdHash := .zero
  typeHash := .zero
  nodes := nodes
  stringBuffer := []
  dependencies := []
  isRefType := false
  refClassName := none
  refNamespace := none
  refAsmName := none

/-- `Base { vector bytes { Array { int size; UInt8 data } } }`. -/
def byteVectorSchema : TypeTreeType := plainSchema
  [plainNode 0 "TextAsset" "Base" (-1), plainNode 1 "vector" "bytes" (-1),
    plainNode 2 "Array" "Array" (-1), plainNode 3 "int" "size" 4,
    plainNode 3 "UInt8" "data" 1]

theorem byteVector_agree :
    typetreeParseValueEx byteVectorSchema 0 ⟨[2, 0, 0, 0, 7, 9], 0, false⟩ borrowByteArrays ≠
        none ∧
      ∃ plain, typetreeParseValueEx byteVectorSchema 0 ⟨[2, 0, 0, 0, 7, 9], 0, false⟩ 0 =
        some plain := by
  have hvalid : typetreeValidateSchema byteVectorSchema = true := by decide
  have hparse : typetreeParseValueEx byteVectorSchema 0 ⟨[2, 0, 0, 0, 7, 9], 0, false⟩
      borrowByteArrays = some (.struct ⟨some (cstr "Base"), some (cstr "TextAsset")⟩
        [.packed ⟨some (cstr "bytes"), some (cstr "vector")⟩ [7, 9] false], 5,
        ⟨[2, 0, 0, 0, 7, 9], 6, false⟩) := by
    rfl
  obtain ⟨hiff, hresult⟩ := typetreeParseValueEx_agree hvalid 0
    ⟨[2, 0, 0, 0, 7, 9], 0, false⟩ (id : Text → Text) borrowByteArrays (Or.inr rfl)
  obtain ⟨plain, hplain, -, -⟩ := hresult _ _ _ hparse
  exact ⟨by simp [hparse], _, hplain⟩

end UnityCommon.TypeTree
