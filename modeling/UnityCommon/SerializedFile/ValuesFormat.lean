import UnityCommon.Lib.Work
import UnityCommon.SerializedFile.Values

/-!
# The format of a payload

What an object of each profile consists of, apart from any limit, and what
reading it costs. The readers follow it.
-/

namespace UnityCommon.Values

open UnityCommon.Metadata

/-! ## Costs -/

/-- The bytes of a payload that are read, the work, and what the limits count. -/
@[ext] structure ValueCost where
  bytes : ℕ := 0
  work : ℕ := 0
  strings : ℕ := 0
  longestString : ℕ := 0
  padding : ℕ := 0
  integers : ℕ := 0
  widestInteger : ℕ := 0
deriving DecidableEq, Repr

instance : Cost ValueCost where
  zero := {}
  add d e := {
    bytes := d.bytes + e.bytes
    work := d.work + e.work
    strings := d.strings + e.strings
    longestString := max d.longestString e.longestString
    padding := d.padding + e.padding
    integers := d.integers + e.integers
    widestInteger := max d.widestInteger e.widestInteger }
  width d := d.bytes
  width_zero := rfl
  width_add _ _ := rfl

namespace ValueCost

@[simp] theorem width_eq (d : ValueCost) : Cost.width d = d.bytes := rfl

@[simp] theorem zero_bytes : (0 : ValueCost).bytes = 0 := rfl
@[simp] theorem zero_work : (0 : ValueCost).work = 0 := rfl
@[simp] theorem zero_strings : (0 : ValueCost).strings = 0 := rfl
@[simp] theorem zero_longestString : (0 : ValueCost).longestString = 0 := rfl
@[simp] theorem zero_padding : (0 : ValueCost).padding = 0 := rfl
@[simp] theorem zero_integers : (0 : ValueCost).integers = 0 := rfl
@[simp] theorem zero_widestInteger : (0 : ValueCost).widestInteger = 0 := rfl

variable (d e : ValueCost)

@[simp] theorem add_bytes : (d + e).bytes = d.bytes + e.bytes := rfl
@[simp] theorem add_work : (d + e).work = d.work + e.work := rfl
@[simp] theorem add_strings : (d + e).strings = d.strings + e.strings := rfl
@[simp] theorem add_longestString :
    (d + e).longestString = max d.longestString e.longestString := rfl
@[simp] theorem add_padding : (d + e).padding = d.padding + e.padding := rfl
@[simp] theorem add_integers : (d + e).integers = d.integers + e.integers := rfl
@[simp] theorem add_widestInteger :
    (d + e).widestInteger = max d.widestInteger e.widestInteger := rfl

end ValueCost

inductive ValueResource where
  | work
  | stringBytes
  | totalStringBytes
  | paddingBytes
  | integerBytes
  | totalIntegerBytes
  | payloadBytes
  | values
  | depth
  | retained
  | storage
deriving DecidableEq, Repr

namespace ValuesLimits

variable (limits : ValuesLimits)

def Short : ValueResource → ValuesBuild → ValueCost → Prop
  | .work, build, d => limits.maxWork < build.workUsed + d.work
  | .stringBytes, _, d => limits.maxStringBytes < d.longestString
  | .totalStringBytes, build, d =>
      limits.maxTotalStringBytes < build.cursor.stringBytes + d.strings
  | .paddingBytes, build, d => limits.maxPaddingBytes < build.cursor.paddingBytes + d.padding
  | .integerBytes, _, d => limits.maxIntegerBytes < d.widestInteger
  | .totalIntegerBytes, build, d =>
      limits.maxTotalIntegerBytes < build.cursor.integerBytes + d.integers
  | _, _, _ => False

structure Sound (build : ValuesBuild) : Prop where
  work : build.workUsed ≤ limits.maxWork
  stringBytes : build.cursor.stringBytes ≤ limits.maxTotalStringBytes
  paddingBytes : build.cursor.paddingBytes ≤ limits.maxPaddingBytes
  integerBytes : build.cursor.integerBytes ≤ limits.maxTotalIntegerBytes

end ValuesLimits

/-- The state after a cost. -/
def ValuesBuild.advance (build : ValuesBuild) (d : ValueCost) : ValuesBuild :=
  { build with
    workUsed := build.workUsed + d.work
    cursor := {
      position := build.cursor.position + d.bytes
      stop := build.cursor.stop
      stringBytes := build.cursor.stringBytes + d.strings
      paddingBytes := build.cursor.paddingBytes + d.padding
      integerBytes := build.cursor.integerBytes + d.integers } }

def ValuesLimits.meter (limits : ValuesLimits) : Meter ValuesBuild ValueCost ValueResource where
  position build := build.cursor.position
  advance := ValuesBuild.advance
  Sound := limits.Sound
  Short := limits.Short
  advance_zero _ := rfl
  advance_add build d e := by simp [ValuesBuild.advance, Nat.add_assoc]
  position_advance _ _ := rfl
  short_add k build d e := by
    cases k <;> simp [ValuesLimits.Short, ValuesBuild.advance] <;> omega
  not_short_zero build hs k := by
    have := hs.work
    have := hs.stringBytes
    have := hs.paddingBytes
    have := hs.integerBytes
    cases k <;> simp [ValuesLimits.Short] <;> omega
  sound_advance build d _ hd :=
    ⟨Nat.le_of_not_lt (hd .work), Nat.le_of_not_lt (hd .totalStringBytes),
      Nat.le_of_not_lt (hd .paddingBytes), Nat.le_of_not_lt (hd .totalIntegerBytes)⟩

/-- The resource that a rejection reports. -/
def ValuesReject.Cites (reject : ValuesReject) : ValueResource → Prop
  | .work => reject.status = .limitExceeded ∧ reject.limit = .work
  | .stringBytes => reject.status = .limitExceeded ∧ reject.limit = .stringBytes
  | .totalStringBytes => reject.status = .limitExceeded ∧ reject.limit = .totalStringBytes
  | .paddingBytes => reject.status = .limitExceeded ∧ reject.limit = .paddingBytes
  | .integerBytes => reject.status = .limitExceeded ∧ reject.limit = .integerBytes
  | .totalIntegerBytes => reject.status = .limitExceeded ∧ reject.limit = .totalIntegerBytes
  | .payloadBytes => reject.status = .limitExceeded ∧ reject.limit = .payloadBytes
  | .values => reject.status = .limitExceeded ∧ reject.limit = .values
  | .depth => reject.status = .limitExceeded ∧ reject.limit = .depth
  | .retained => reject.status = .limitExceeded ∧ reject.limit = .retainedBytes
  | .storage => reject.status = .allocationFailed

/-! ## The profile of a schema -/

section Schema

variable (schema : SerializedFileSchema)

def bytesFormat : Text → Text → Decoder ValueCost Unit
  | byte :: actual, expectedByte :: expected => do
      Decoder.spend { work := 1 }
      Decoder.require (byte = expectedByte)
      bytesFormat actual expected
  | _, _ => pure ()

def nameFormat (actual : SchemaString) (expected : Option Text) (expectedLength : ℕ) :
    Decoder ValueCost Unit := do
  Decoder.spend { work := 1 }
  match expected with
  | none => pure ()
  | some expected => do
      Decoder.require (actual.bytes.length = expectedLength)
      bytesFormat actual.bytes expected

def nodeFormat (ordinal : ℕ) (expected : NodeProfile) : Decoder ValueCost Unit := do
  let node := schemaNode schema ordinal
  Decoder.spend { work := 1 }
  Decoder.require (profileNodeMatches node expected)
  nameFormat node.typeName (some expected.typeName) expected.typeLength
  nameFormat node.fieldName expected.fieldName expected.fieldLength

def nodesFormat : ℕ → List NodeProfile → Decoder ValueCost Unit
  | _, [] => pure ()
  | ordinal, expected :: rest => do
      nodeFormat schema ordinal expected
      nodesFormat (ordinal + 1) rest

end Schema

/-! ## The values of a payload -/

section Payload

variable (mapped : Text) (schema : SerializedFileSchema) (profile : ObjectProfile) (stop : ℕ)

def takeFormat (width : ℕ) : Decoder ValueCost PrefixSpan := do
  let start ← Decoder.position
  Decoder.require (width ≤ stop - start)
  Decoder.spend { work := width + 1 }
  Decoder.spend { bytes := width }
  return ⟨start, width⟩

def paddingFormat : Decoder ValueCost PrefixSpan := do
  let start ← Decoder.position
  Decoder.spend { padding := paddingWidth start }
  takeFormat stop (paddingWidth start)

def completeFormat (start : ℕ) (value : SerializedFileValue) :
    Decoder ValueCost SerializedFileValue := do
  let position ← Decoder.position
  Decoder.spend { work := 1 }
  return { value with source := ⟨start, position - start⟩ }

def admitStringFormat (size : ℕ) : Decoder ValueCost Unit := do
  Decoder.spend { longestString := size }
  Decoder.spend { strings := size }

def admitIntegerFormat (width : ℕ) : Decoder ValueCost Unit := do
  Decoder.spend { widestInteger := width }
  Decoder.spend { integers := width }

/-- A string, of a value with nothing read. -/
def stringFormat (value : SerializedFileValue) : Decoder ValueCost SerializedFileValue := do
  let node := value.schemaNode.ordinal
  let start ← Decoder.position
  let length ← takeFormat stop lengthBytes
  let lengthBits := (decodeNat 0 (length.bytes mapped)).toUInt32
  let size := lengthBits.toNat
  Decoder.require (size ≤ int32Max)
  admitStringFormat size
  let bytes ← takeFormat stop size
  let padding ← paddingFormat stop
  completeFormat start
    { value with
      arraySchemaOrdinal := some (node + 1)
      sizeSchemaOrdinal := some (node + 2)
      dataSchemaOrdinal := some (node + 3)
      arraySchemaSource := some (schemaNode schema (node + 1)).source
      sizeSchemaSource := some (schemaNode schema (node + 2)).source
      dataSchemaSource := some (schemaNode schema (node + 3)).source
      lengthBits
      lengthSource := some length
      bytesSource := some bytes
      paddingSource := some padding }

def integerFormat (value : SerializedFileValue) : Decoder ValueCost SerializedFileValue := do
  let width := value.schemaNode.byteSizeBits.toNat
  let start ← Decoder.position
  admitIntegerFormat width
  let integer ← takeFormat stop width
  let value :=
    { value with
      integerSource := some integer
      integerBits := integerBits mapped width integer.offset }
  if value.schemaNode.metaFlags &&& ordinaryAlignmentFlag ≠ 0 then do
    let padding ← paddingFormat stop
    completeFormat start { value with paddingSource := some padding }
  else completeFormat start value

def pptrFormat (ordinal : ℕ) : Decoder ValueCost (List SerializedFileValue) := do
  let value := initialValue schema profile ordinal
  let start ← Decoder.position
  let firstChild := value.firstChild.getD 0
  let children ← Decoder.collect
    (fun child => integerFormat mapped stop (initialValue schema profile child)) firstChild
    (value.subtreeEnd - firstChild)
  let value ← completeFormat start value
  return value :: children

def behaviourFormat : Decoder ValueCost (List SerializedFileValue) := do
  let gameObject ← pptrFormat mapped schema profile stop 1
  let enabled ← integerFormat mapped stop (initialValue schema profile 4)
  let script ← pptrFormat mapped schema profile stop 5
  let name ← stringFormat mapped schema stop (initialValue schema profile 8)
  return gameObject ++ enabled :: script ++ [name]

def profileFormat : Decoder ValueCost (List SerializedFileValue) :=
  match profile with
  | .textAsset =>
      Decoder.collect
        (fun ordinal => stringFormat mapped schema stop (initialValue schema profile ordinal)) 1 2
  | .monoBehaviour => do
      let values ← behaviourFormat mapped schema profile stop
      let authored ← integerFormat mapped stop (initialValue schema profile 9)
      return values ++ [authored]
  | .monoBehaviourTextAsset => do
      let values ← behaviourFormat mapped schema profile stop
      let authored ← pptrFormat mapped schema profile stop 9
      return values ++ authored

/-- The payload from its offset on. -/
def payloadFormat (payload : PrefixRange) : Decoder ValueCost (List SerializedFileValue) := do
  let values ← profileFormat mapped schema profile (payload.offset + payload.size)
  let position ← Decoder.position
  Decoder.require (position = payload.offset + payload.size)
  Decoder.spend { work := 1 }
  return { initialValue schema profile 0 with source := ⟨payload.offset, payload.size⟩ } :: values

end Payload

/-! ## The readers follow it -/

section Follows

variable {limits : ValuesLimits} {build : ValuesBuild}

theorem not_short_of_work (hs : limits.Sound build) {amount : ℕ} :
    ∀ k, k ≠ ValueResource.work → ¬ limits.Short k build { work := amount } := by
  intro k hk
  have hzero := limits.meter.not_short_zero build hs k
  cases k with
  | work => exact absurd rfl hk
  | _ => exact hzero

theorem follows_charge (hs : limits.Sound build) (amount : ℕ) (field : ValuesField)
    (node : Option ℕ) (offset : ℕ) :
    limits.meter.Follows ValuesReject.Cites build (charge limits amount field node offset)
      (Decoder.spend { work := amount }) := by
  refine Meter.follows_look (Meter.follows_draw (k := ValueResource.work)
    (d := ({ work := amount } : ValueCost)) hs ?_ (not_short_of_work hs) ⟨rfl, rfl⟩)
  show _ ↔ ¬ limits.maxWork < build.workUsed + amount
  have := hs.work
  omega

theorem follows_matchBytes (field : ValuesField) (node offset : ℕ) :
    ∀ {actual expected : Text} {build : ValuesBuild}, limits.Sound build →
      limits.meter.Follows ValuesReject.Cites build
        (matchBytes limits field node offset actual expected) (bytesFormat actual expected)
  | [], _, _, hs => Meter.follows_pure hs ()
  | _ :: _, [], _, hs => Meter.follows_pure hs ()
  | byte :: actual, expectedByte :: expected, build, hs => by
      refine (follows_charge hs 1 _ _ _).bind hs fun _ _ _ _ hs => ?_
      refine (Meter.follows_require hs _ _).bind hs fun _ _ _ _ hs => ?_
      exact follows_matchBytes field node offset hs

theorem follows_nameMatches (hs : limits.Sound build) (actual : SchemaString)
    (expected : Option Text) (expectedLength : ℕ) (field : ValuesField) (node offset : ℕ) :
    limits.meter.Follows ValuesReject.Cites build
      (nameMatches limits actual expected expectedLength field node offset)
      (nameFormat actual expected expectedLength) := by
  refine (follows_charge hs 1 _ _ _).bind hs fun _ _ _ _ hs => ?_
  cases expected with
  | none => exact Meter.follows_pure hs ()
  | some expected =>
      refine Meter.Follows.bind (Meter.follows_require hs _ _) hs fun _ _ _ _ hs => ?_
      exact follows_matchBytes field node offset hs

theorem follows_qualifyNode (hs : limits.Sound build) (schema : SerializedFileSchema)
    (ordinal : ℕ) (expected : NodeProfile) :
    limits.meter.Follows ValuesReject.Cites build (qualifyNode limits schema ordinal expected)
      (nodeFormat schema ordinal expected) := by
  refine (follows_charge hs 1 _ _ _).bind hs fun _ _ _ _ hs => ?_
  refine (Meter.follows_require hs _ _).bind hs fun _ _ _ _ hs => ?_
  refine (follows_nameMatches hs _ _ _ _ _ _).bind hs fun _ _ _ _ hs => ?_
  exact follows_nameMatches hs _ _ _ _ _ _

theorem follows_qualifyNodes (schema : SerializedFileSchema) :
    ∀ {expected : List NodeProfile} {ordinal : ℕ} {build : ValuesBuild}, limits.Sound build →
      limits.meter.Follows ValuesReject.Cites build (qualifyNodes limits schema ordinal expected)
        (nodesFormat schema ordinal expected)
  | [], _, _, hs => Meter.follows_pure hs ()
  | expected :: rest, ordinal, build, hs => by
      refine (follows_qualifyNode hs schema ordinal expected).bind hs fun _ _ _ _ hs => ?_
      exact follows_qualifyNodes schema hs

theorem room_bytes (hs : limits.Sound build) (width : ℕ) :
    limits.meter.Room build { bytes := width } := by
  intro k
  have hzero := limits.meter.not_short_zero build hs k
  cases k with
  | _ => exact hzero

theorem follows_takeSpan (hs : limits.Sound build) (width : ℕ) (field : ValuesField) (node : ℕ) :
    limits.meter.Follows ValuesReject.Cites build (takeSpan limits width field node)
      (takeFormat build.cursor.stop width) := by
  refine Meter.follows_current hs ?_
  refine Meter.Follows.bind (Meter.follows_require hs _ _) hs fun _ d₁ hd₁ _ hs => ?_
  obtain ⟨-, rfl⟩ := Decoder.require_eq_some.mp hd₁
  refine (follows_charge hs _ _ _ _).bind hs fun _ d₂ _ _ hs => ?_
  have hmove : limits.meter.Follows ValuesReject.Cites
      (limits.meter.advance (limits.meter.advance build 0) d₂)
      (Call.modify fun build =>
        { build with cursor := { build.cursor with position := build.cursor.position + width } })
      (Decoder.spend { bytes := width }) := Meter.follows_move rfl (room_bytes hs width)
  refine hmove.bind hs fun _ d₃ _ _ hs => ?_
  exact Meter.follows_pure hs _

theorem follows_admitPadding (hs : limits.Sound build) (padding node : ℕ) :
    limits.meter.Follows ValuesReject.Cites build (admitPadding limits padding node)
      (Decoder.spend { padding := padding }) := by
  refine Meter.follows_look (Meter.follows_draw (k := ValueResource.paddingBytes)
    (d := ({ padding := padding } : ValueCost)) hs ?_ ?_ ⟨rfl, rfl⟩)
  · show _ ↔ ¬ limits.maxPaddingBytes < build.cursor.paddingBytes + padding
    have := hs.paddingBytes
    omega
  · intro k hk
    have hzero := limits.meter.not_short_zero build hs k
    cases k with
    | paddingBytes => exact absurd rfl hk
    | _ => exact hzero

theorem follows_readPadding (hs : limits.Sound build) (node : ℕ) :
    limits.meter.Follows ValuesReject.Cites build (readPadding limits node)
      (paddingFormat build.cursor.stop) := by
  refine Meter.follows_current hs ?_
  refine Meter.Follows.bind (follows_admitPadding hs _ node) hs fun _ d _ _ hs => ?_
  exact follows_takeSpan hs _ _ _

theorem follows_completeValue (hs : limits.Sound build) (start : ℕ) (value : SerializedFileValue) :
    limits.meter.Follows ValuesReject.Cites build (completeValue limits start value)
      (completeFormat start value) := by
  refine Meter.follows_current hs ?_
  refine Meter.Follows.bind (follows_charge hs _ _ _ _) hs fun _ d _ _ hs => ?_
  exact Meter.follows_pure hs _

theorem follows_admitString (hs : limits.Sound build) (size node offset : ℕ) :
    limits.meter.Follows ValuesReject.Cites build (admitString limits size node offset)
      (admitStringFormat size) := by
  have hlongest : limits.meter.Follows ValuesReject.Cites build
      (Call.require (size ≤ limits.maxStringBytes)
        ⟨.limitExceeded, .stringBytes, .stringLength, some node, offset⟩)
      (Decoder.spend { longestString := size }) := by
    refine Meter.follows_check (k := ValueResource.stringBytes) hs rfl Nat.not_lt.symm ?_ ⟨rfl, rfl⟩
    intro k hk
    have hzero := limits.meter.not_short_zero build hs k
    cases k with
    | stringBytes => exact absurd rfl hk
    | _ => exact hzero
  refine hlongest.bind hs fun _ d hd _ hs => ?_
  obtain rfl := Decoder.spend_eq_some.mp hd
  refine Meter.follows_look (Meter.follows_draw (k := ValueResource.totalStringBytes)
    (d := ({ strings := size } : ValueCost)) hs ?_ ?_ ⟨rfl, rfl⟩)
  · show _ ↔ ¬ limits.maxTotalStringBytes < build.cursor.stringBytes + size
    have : build.cursor.stringBytes ≤ limits.maxTotalStringBytes := hs.stringBytes
    show size ≤ limits.maxTotalStringBytes - build.cursor.stringBytes ↔ _
    omega
  · intro k hk
    have hzero := limits.meter.not_short_zero _ hs k
    cases k with
    | totalStringBytes => exact absurd rfl hk
    | _ => exact hzero

theorem follows_admitInteger (hs : limits.Sound build) (width node : ℕ) :
    limits.meter.Follows ValuesReject.Cites build (admitInteger limits width node)
      (admitIntegerFormat width) := by
  refine Meter.follows_look ?_
  have hwidest : limits.meter.Follows ValuesReject.Cites build
      (Call.require (width ≤ limits.maxIntegerBytes)
        ⟨.limitExceeded, .integerBytes, .integerBytes, some node, build.cursor.position⟩)
      (Decoder.spend { widestInteger := width }) := by
    refine Meter.follows_check (k := ValueResource.integerBytes) hs rfl Nat.not_lt.symm ?_
      ⟨rfl, rfl⟩
    intro k hk
    have hzero := limits.meter.not_short_zero build hs k
    cases k with
    | integerBytes => exact absurd rfl hk
    | _ => exact hzero
  refine hwidest.bind hs fun _ d hd _ _ => ?_
  obtain rfl := Decoder.spend_eq_some.mp hd
  refine Meter.follows_draw (k := ValueResource.totalIntegerBytes)
    (d := ({ integers := width } : ValueCost)) hs ?_ ?_ ⟨rfl, rfl⟩
  · show _ ↔ ¬ limits.maxTotalIntegerBytes < build.cursor.integerBytes + width
    have := hs.integerBytes
    omega
  · intro k hk
    have hzero := limits.meter.not_short_zero build hs k
    cases k with
    | totalIntegerBytes => exact absurd rfl hk
    | _ => exact hzero

variable {mapped : Text} {schema : SerializedFileSchema} {profile : ObjectProfile}

theorem follows_readString (hs : limits.Sound build) (ordinal : ℕ) :
    limits.meter.Follows ValuesReject.Cites build (readString mapped limits schema profile ordinal)
      (stringFormat mapped schema build.cursor.stop (initialValue schema profile ordinal)) := by
  refine Meter.follows_current hs ?_
  refine Meter.Follows.bind (follows_takeSpan hs _ _ _) hs fun length d₁ _ _ hs => ?_
  refine Meter.Follows.bind (Meter.follows_require hs _ _) hs fun _ d₂ _ _ hs => ?_
  refine (follows_admitString hs _ _ _).bind hs fun _ d₃ _ _ hs => ?_
  refine (follows_takeSpan hs _ _ _).bind hs fun bytes d₄ _ _ hs => ?_
  refine (follows_readPadding hs _).bind hs fun padding d₅ _ _ hs => ?_
  exact follows_completeValue hs _ _

theorem follows_readInteger (hs : limits.Sound build) (ordinal : ℕ) :
    limits.meter.Follows ValuesReject.Cites build (readInteger mapped limits schema profile ordinal)
      (integerFormat mapped build.cursor.stop (initialValue schema profile ordinal)) := by
  refine Meter.follows_current hs ?_
  refine Meter.Follows.bind (follows_admitInteger hs _ _) hs fun _ d₁ _ _ hs => ?_
  refine (follows_takeSpan hs _ _ _).bind hs fun integer d₂ _ _ hs => ?_
  dsimp only
  split_ifs
  · refine (follows_readPadding hs _).bind hs fun padding d₃ _ _ hs => ?_
    exact follows_completeValue hs _ _
  · exact follows_completeValue hs _ _

theorem follows_readPptr (hs : limits.Sound build) (ordinal : ℕ) :
    limits.meter.Follows ValuesReject.Cites build (readPptr mapped limits schema profile ordinal)
      (pptrFormat mapped schema profile build.cursor.stop ordinal) := by
  refine Meter.follows_current hs ?_
  dsimp only
  generalize (initialValue schema profile ordinal).firstChild.getD 0 = firstChild
  have hchildren : ∀ count, limits.meter.Follows ValuesReject.Cites build
      (Call.collect (readInteger mapped limits schema profile) firstChild count)
      (Decoder.collect
        (fun child => integerFormat mapped build.cursor.stop (initialValue schema profile child))
        firstChild count) := by
    intro count
    refine Meter.follows_collect_keeping (I := fun t => t.cursor.stop = build.cursor.stop)
      (fun _ _ ht => ht) ?_ hs rfl
    intro i t hs ht _ _
    rw [← ht]
    exact follows_readInteger hs i
  refine (hchildren _).bind hs fun children d₁ _ _ hs => ?_
  refine (follows_completeValue hs _ _).bind hs fun value d₂ _ _ hs => ?_
  exact Meter.follows_pure hs _

theorem follows_readBehaviour (hs : limits.Sound build) :
    limits.meter.Follows ValuesReject.Cites build (readBehaviour mapped limits schema profile)
      (behaviourFormat mapped schema profile build.cursor.stop) := by
  refine (follows_readPptr hs 1).bind hs fun gameObject d₁ _ _ hs => ?_
  refine (follows_readInteger hs 4).bind hs fun enabled d₂ _ _ hs => ?_
  refine (follows_readPptr hs 5).bind hs fun script d₃ _ _ hs => ?_
  refine (follows_readString hs 8).bind hs fun name d₄ _ _ hs => ?_
  exact Meter.follows_pure hs _

theorem follows_readProfileValues (hs : limits.Sound build) :
    limits.meter.Follows ValuesReject.Cites build (readProfileValues mapped limits schema profile)
      (profileFormat mapped schema profile build.cursor.stop) := by
  cases profile with
  | textAsset =>
      have hstrings : limits.meter.Follows ValuesReject.Cites build
          (Call.collect (readString mapped limits schema .textAsset) 1 2)
          (Decoder.collect (fun ordinal =>
            stringFormat mapped schema build.cursor.stop (initialValue schema .textAsset ordinal))
            1 2) := by
        refine Meter.follows_collect_keeping (I := fun t => t.cursor.stop = build.cursor.stop)
          (fun _ _ ht => ht) ?_ hs rfl
        intro i t hs ht _ _
        rw [← ht]
        exact follows_readString hs i
      exact hstrings
  | monoBehaviour =>
      refine (follows_readBehaviour hs).bind hs fun values d₁ _ _ hs => ?_
      refine (follows_readInteger hs 9).bind hs fun authored d₂ _ _ hs => ?_
      exact Meter.follows_pure hs _
  | monoBehaviourTextAsset =>
      refine (follows_readBehaviour hs).bind hs fun values d₁ _ _ hs => ?_
      refine (follows_readPptr hs 9).bind hs fun authored d₂ _ _ hs => ?_
      exact Meter.follows_pure hs _

/-- A pass starts over, with new counters. -/
def ValuesBuild.begin (build : ValuesBuild) (payload : PrefixRange) : ValuesBuild :=
  { build with cursor := { position := payload.offset, stop := payload.offset + payload.size } }

theorem sound_begin (hs : limits.Sound build) (payload : PrefixRange) :
    limits.Sound (build.begin payload) :=
  ⟨hs.work, Nat.zero_le _, Nat.zero_le _, Nat.zero_le _⟩

/-- **A pass follows the format** from the start of the payload. -/
theorem follows_parsePayload (hs : limits.Sound build) (payload : PrefixRange) :
    ∃ rest : Call ValuesReject ValuesBuild (List SerializedFileValue),
      parsePayload mapped limits schema profile payload =
        (Call.modify fun build => build.begin payload) >>= (fun _ => rest) ∧
      limits.meter.Follows ValuesReject.Cites (build.begin payload) rest
        (payloadFormat mapped schema profile payload) := by
  refine ⟨_, rfl, ?_⟩
  have hs := sound_begin hs payload
  refine (follows_readProfileValues hs).bind hs fun values d₁ _ _ hs => ?_
  refine Meter.follows_current hs ?_
  refine Meter.Follows.bind (Meter.follows_require hs _ _) hs fun _ d₂ _ _ hs => ?_
  refine (follows_charge hs _ _ _ _).bind hs fun _ d₃ _ _ hs => ?_
  exact Meter.follows_pure hs _

end Follows

end UnityCommon.Values
