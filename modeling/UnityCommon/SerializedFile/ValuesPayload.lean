import UnityCommon.SerializedFile.ValuesGrammar

/-!
# The payloads of the profiles

The decoder of a profile accepts the fields of its shapes and returns the values
that these stand for. The profiles share the behaviour that two of them begin with.
-/

namespace UnityCommon.Values

open UnityCommon.Metadata

/-- The nodes of the schema are those of the profile. -/
def Qualified (schema : SerializedFileSchema) (profile : ObjectProfile) : Prop :=
  ∀ ordinal expected, profile.nodes[ordinal]? = some expected →
    profileNodeMatches (schemaNode schema ordinal) expected

/-- The containers below the root. -/
def ObjectProfile.containerCount : ObjectProfile → ℕ
  | .textAsset => 0
  | .monoBehaviour => 2
  | .monoBehaviourTextAsset => 3

section Profiles

variable {mapped : Text} {schema : SerializedFileSchema} {profile : ObjectProfile} {stop : ℕ}

theorem supported_of_mem (profile : ObjectProfile) :
    ∀ shape ∈ profile.valueShapes, ∀ s ∈ shape, s.Supported := by
  cases profile <;> decide

/-- The schema's node of a value is that of the profile. -/
theorem leaf_of_shape (hq : Qualified schema profile) {ordinal : ℕ} {shape : FieldShape}
    (h : profile.valueShapes[ordinal]? = some (some shape)) :
    ∃ node, profileNodeMatches (initialValue schema profile ordinal).schemaNode node ∧
      leafShape node (initialValue schema profile ordinal).kind = some shape := by
  rw [ObjectProfile.valueShapes, List.getElem?_map, Option.map_eq_some_iff] at h
  obtain ⟨role, hrole, h⟩ := h
  have hat : profile.roleAt ordinal = role := by
    rw [ObjectProfile.roleAt, List.getD_eq_getElem?_getD, hrole]
    rfl
  obtain ⟨node, hnode, hshape⟩ := Option.bind_eq_some_iff.mp h
  refine ⟨node, ?_, ?_⟩
  · show profileNodeMatches (schemaNode schema (profile.roleAt ordinal).schemaOrdinal) node
    rw [hat]
    exact hq _ _ hnode
  · show leafShape node (profile.roleAt ordinal).kind = some shape
    rw [hat]
    exact hshape

theorem reads_integer (hstop : stop ≤ mapped.length) (hq : Qualified schema profile)
    (ordinal : ℕ) {width : ℕ} {aligned : Bool}
    (h : profile.valueShapes[ordinal]? = some (some (.integer width aligned))) :
    Reads mapped stop (integerFormat mapped stop (initialValue schema profile ordinal))
      [.integer width aligned]
      (fun at_ fields => fields.head?.elim (initialValue schema profile ordinal)
        fun f => f.fill schema at_ (initialValue schema profile ordinal)) 0 := by
  obtain ⟨node, hmatches, hshape⟩ := leaf_of_shape hq h
  have hwidth : width = 1 ∨ width = 4 ∨ width = 8 :=
    supported_of_mem profile _ (List.mem_of_getElem? h) _ rfl
  obtain ⟨-, -, -, hsize, -, hflags, -⟩ := hmatches
  have hinteger : integerShape (initialValue schema profile ordinal).schemaNode =
      .integer width aligned := by
    rw [integerShape, hsize, hflags]
    revert hshape
    cases (initialValue schema profile ordinal).kind <;> simp [leafShape]
  have hsize' : (initialValue schema profile ordinal).schemaNode.byteSizeBits.toNat = width :=
    (FieldShape.integer.inj hinteger).1
  rw [← hinteger]
  refine reads_field fun hat => integerFormat_eq_some hat hstop ?_ rfl
  rw [hsize']
  exact hwidth

theorem reads_string (hstop : stop ≤ mapped.length) (ordinal : ℕ) :
    Reads mapped stop (stringFormat mapped schema stop (initialValue schema profile ordinal))
      [.string]
      (fun at_ fields => fields.head?.elim (initialValue schema profile ordinal)
        fun f => f.fill schema at_ (initialValue schema profile ordinal)) 0 :=
  reads_field fun hat => stringFormat_eq_some hat hstop

/-- A pointer spans its two members. -/
def pptrAt (schema : SerializedFileSchema) (profile : ObjectProfile) (ordinal at_ : ℕ) :
    List PaddedField → List SerializedFileValue
  | [file, path] =>
      [{ initialValue schema profile ordinal with
          source := ⟨at_, file.encode.length + path.encode.length⟩ },
        file.fill schema at_ (initialValue schema profile (ordinal + 1)),
        path.fill schema (at_ + file.encode.length) (initialValue schema profile (ordinal + 2))]
  | _ => []

theorem reads_pptr (hstop : stop ≤ mapped.length) (hq : Qualified schema profile) {ordinal : ℕ}
    (hfirst : (profile.roleAt ordinal).firstChild = some (ordinal + 1))
    (hend : (profile.roleAt ordinal).subtreeEnd = ordinal + 3)
    (hfile : profile.valueShapes[ordinal + 1]? = some (some (.integer 4 false)))
    (hpath : profile.valueShapes[ordinal + 2]? = some (some (.integer 8 false))) :
    Reads mapped stop (pptrFormat mapped schema profile stop ordinal)
      [.integer 4 false, .integer 8 false] (pptrAt schema profile ordinal) 1 := by
  have hfirstChild : (initialValue schema profile ordinal).firstChild.getD 0 = ordinal + 1 := by
    show (profile.roleAt ordinal).firstChild.getD 0 = _
    rw [hfirst]
    rfl
  have hcount : (initialValue schema profile ordinal).subtreeEnd - (ordinal + 1) = 2 := by
    show (profile.roleAt ordinal).subtreeEnd - (ordinal + 1) = 2
    rw [hend]
    omega
  unfold pptrFormat
  dsimp only
  rw [hfirstChild, hcount]
  refine Reads.congr (Reads.position fun start => Reads.bind (Reads.bind
    (reads_integer hstop hq (ordinal + 1) hfile) fun file => Reads.bind (Reads.bind
      (reads_integer hstop hq (ordinal + 2) hpath) fun path => Reads.bind
        (reads_pure hstop []) fun rest => reads_pure hstop (path :: rest))
      fun rest => reads_pure hstop (file :: rest))
    fun children => Reads.bind (reads_complete hstop start _)
      fun value => reads_pure hstop (value :: children)) ?_
  intro at_ fields hshapes
  obtain ⟨file, path, rfl⟩ := List.length_eq_two.mp (by simpa using congrArg List.length hshapes)
  simp [pptrAt, fieldOffset, ← Nat.add_assoc]
  omega

/-- The fields that a value begins with, and that it ends before. -/
theorem valueAt_leaf {at_ ordinal : ℕ} (index : ℕ) {fields : List PaddedField} {f : PaddedField}
    (hkind : (profile.roleAt ordinal).kind ≠ .container)
    (hindex : profile.fieldsBefore ordinal = index) (hf : fields[index]? = some f) :
    valueAt schema profile at_ fields ordinal =
      f.fill schema (fieldOffset at_ fields index) (initialValue schema profile ordinal) := by
  have hinitial : (initialValue schema profile ordinal).kind ≠ .container := hkind
  rw [valueAt, if_neg hinitial, hindex, hf]

theorem valueAt_container {at_ ordinal index stop : ℕ} {fields : List PaddedField}
    (hkind : (profile.roleAt ordinal).kind = .container)
    (hindex : profile.fieldsBefore ordinal = index)
    (hstop : profile.fieldsBefore (profile.roleAt ordinal).subtreeEnd = stop) :
    valueAt schema profile at_ fields ordinal =
      { initialValue schema profile ordinal with
        source := ⟨fieldOffset at_ fields index,
          fieldOffset at_ fields stop - fieldOffset at_ fields index⟩ } := by
  have hinitial : (initialValue schema profile ordinal).kind = .container := hkind
  rw [valueAt, if_pos hinitial, hindex]
  exact congrArg (fun stop => { initialValue schema profile ordinal with
    source := ⟨fieldOffset at_ fields index,
      fieldOffset at_ fields stop - fieldOffset at_ fields index⟩ }) hstop

/-- A pointer by its ordinal. -/
theorem pptrAt_eq {at_ ordinal index : ℕ} {fields : List PaddedField} {file path : PaddedField}
    (hkind : (profile.roleAt ordinal).kind = .container)
    (hend : (profile.roleAt ordinal).subtreeEnd = ordinal + 3)
    (hfileKind : (profile.roleAt (ordinal + 1)).kind ≠ .container)
    (hpathKind : (profile.roleAt (ordinal + 2)).kind ≠ .container)
    (hindex : profile.fieldsBefore ordinal = index)
    (hfileIndex : profile.fieldsBefore (ordinal + 1) = index)
    (hpathIndex : profile.fieldsBefore (ordinal + 2) = index + 1)
    (hstop : profile.fieldsBefore (ordinal + 3) = index + 2)
    (hfile : fields[index]? = some file) (hpath : fields[index + 1]? = some path) :
    pptrAt schema profile ordinal (fieldOffset at_ fields index) [file, path] =
      [valueAt schema profile at_ fields ordinal, valueAt schema profile at_ fields (ordinal + 1),
        valueAt schema profile at_ fields (ordinal + 2)] := by
  have hnext : fieldOffset at_ fields (index + 1) =
      fieldOffset at_ fields index + file.encode.length := by
    simp [fieldOffset, List.take_add_one, hfile, Nat.add_assoc]
  have hlast : fieldOffset at_ fields (index + 2) =
      fieldOffset at_ fields index + (file.encode.length + path.encode.length) := by
    rw [show index + 2 = index + 1 + 1 from rfl, ← Nat.add_assoc, ← hnext]
    simp [fieldOffset, List.take_add_one, hpath, Nat.add_assoc]
  rw [valueAt_container hkind hindex (by rw [hend, hstop]),
    valueAt_leaf _ hfileKind hfileIndex hfile, valueAt_leaf _ hpathKind hpathIndex hpath, hnext, hlast, Nat.add_sub_cancel_left]
  rfl

theorem reads_textAsset (hstop : stop ≤ mapped.length) :
    Reads mapped stop (profileFormat mapped schema .textAsset stop) ObjectProfile.textAsset.shapes
      (fun at_ fields => (valuesOf schema .textAsset at_ fields).tail) 0 := by
  unfold profileFormat
  refine Reads.congr (Reads.bind (reads_string hstop 1) fun name => Reads.bind
    (Reads.bind (reads_string hstop 2) fun script => Reads.bind
      (reads_pure hstop []) fun rest => reads_pure hstop (script :: rest))
    fun rest => reads_pure hstop (name :: rest)) ?_
  intro at_ fields hshapes
  obtain ⟨name, script, rfl⟩ := List.length_eq_two.mp (by
    simpa [shapes_textAsset] using congrArg List.length hshapes)
  have hname : valueAt schema .textAsset at_ [name, script] 1 = _ :=
    valueAt_leaf 0 (by decide) (by decide) rfl
  have hscript : valueAt schema .textAsset at_ [name, script] 2 = _ :=
    valueAt_leaf 1 (by decide) (by decide) rfl
  show _ = [valueAt schema .textAsset at_ [name, script] 1,
    valueAt schema .textAsset at_ [name, script] 2]
  rw [hname, hscript]
  simp [fieldOffset]

/-- What a behaviour begins with, by its fields. -/
def behaviourAt (schema : SerializedFileSchema) (profile : ObjectProfile) (at_ : ℕ)
    (fields : List PaddedField) : List SerializedFileValue :=
  match fields with
  | [f₁, f₂, f₃, f₄, f₅, f₆] =>
      pptrAt schema profile 1 at_ [f₁, f₂] ++
        f₃.fill schema (fieldOffset at_ fields 2) (initialValue schema profile 4) ::
        pptrAt schema profile 5 (fieldOffset at_ fields 3) [f₄, f₅] ++
        [f₆.fill schema (fieldOffset at_ fields 5) (initialValue schema profile 8)]
  | _ => []

def behaviourShapes : List FieldShape :=
  [.integer 4 false, .integer 8 false, .integer 1 true, .integer 4 false, .integer 8 false, .string]

theorem reads_behaviour (hstop : stop ≤ mapped.length) (hq : Qualified schema profile)
    (hprofile : profile ≠ .textAsset) :
    Reads mapped stop (behaviourFormat mapped schema profile stop) behaviourShapes
      (behaviourAt schema profile) 2 := by
  have hpptr : ∀ ordinal ∈ [1, 5], Reads mapped stop (pptrFormat mapped schema profile stop ordinal)
      [.integer 4 false, .integer 8 false] (pptrAt schema profile ordinal) 1 := by
    intro ordinal hordinal
    refine reads_pptr hstop hq ?_ ?_ ?_ ?_
    all_goals
      revert ordinal
      cases profile <;> first | exact absurd rfl hprofile | decide
  have henabled : profile.valueShapes[4]? = some (some (.integer 1 true)) := by
    cases profile <;> first | exact absurd rfl hprofile | decide
  refine Reads.congr (Reads.bind (hpptr 1 (by simp)) fun gameObject => Reads.bind
    (reads_integer hstop hq 4 henabled) fun enabled => Reads.bind (hpptr 5 (by simp))
      fun script => Reads.bind (reads_string hstop 8)
        fun name => reads_pure hstop (gameObject ++ enabled :: script ++ [name])) ?_
  intro at_ fields hshapes
  simp only [behaviourShapes, List.map_eq_cons_iff, List.map_eq_nil_iff] at hshapes
  obtain ⟨f₁, _, rfl, -, f₂, _, rfl, -, f₃, _, rfl, -, f₄, _, rfl, -, f₅, _, rfl, -, f₆, _, rfl, -,
    rfl⟩ := hshapes
  simp [behaviourAt, fieldOffset, Nat.add_assoc]

/-- What a behaviour begins with, by the ordinals. -/
theorem behaviourAt_eq (hprofile : profile ≠ .textAsset) {at_ : ℕ}
    {f₁ f₂ f₃ f₄ f₅ f₆ : PaddedField} {rest : List PaddedField} :
    behaviourAt schema profile at_ [f₁, f₂, f₃, f₄, f₅, f₆] =
      (List.range' 1 8).map
        (valueAt schema profile at_ (f₁ :: f₂ :: f₃ :: f₄ :: f₅ :: f₆ :: rest)) := by
  generalize hfields : f₁ :: f₂ :: f₃ :: f₄ :: f₅ :: f₆ :: rest = fields
  have hpptr : ∀ p ∈ [(1, 0), (5, 3)], ∀ file path,
      fields[p.2]? = some file → fields[p.2 + 1]? = some path →
      pptrAt schema profile p.1 (fieldOffset at_ fields p.2) [file, path] =
        [valueAt schema profile at_ fields p.1, valueAt schema profile at_ fields (p.1 + 1),
          valueAt schema profile at_ fields (p.1 + 2)] := by
    intro p hp file path hfile hpath
    refine pptrAt_eq ?_ ?_ ?_ ?_ ?_ ?_ ?_ ?_ hfile hpath
    all_goals
      clear hfile hpath
      revert p
      cases profile <;> first | exact absurd rfl hprofile | decide
  have hleaf : ∀ p ∈ [(4, 2), (8, 5)], ∀ f, fields[p.2]? = some f →
      valueAt schema profile at_ fields p.1 =
        f.fill schema (fieldOffset at_ fields p.2) (initialValue schema profile p.1) := by
    intro p hp f hf
    refine valueAt_leaf p.2 ?_ ?_ hf
    all_goals
      clear hf
      revert p
      cases profile <;> first | exact absurd rfl hprofile | decide
  have hgameObject := hpptr (1, 0) (by simp) f₁ f₂ (by rw [← hfields]; rfl) (by rw [← hfields]; rfl)
  have hscript := hpptr (5, 3) (by simp) f₄ f₅ (by rw [← hfields]; rfl) (by rw [← hfields]; rfl)
  have henabled := hleaf (4, 2) (by simp) f₃ (by rw [← hfields]; rfl)
  have hname := hleaf (8, 5) (by simp) f₆ (by rw [← hfields]; rfl)
  have hvalues : (List.range' 1 8).map (valueAt schema profile at_ fields) =
      [valueAt schema profile at_ fields 1, valueAt schema profile at_ fields 2,
        valueAt schema profile at_ fields 3] ++ valueAt schema profile at_ fields 4 ::
      [valueAt schema profile at_ fields 5, valueAt schema profile at_ fields 6,
        valueAt schema profile at_ fields 7] ++ [valueAt schema profile at_ fields 8] := rfl
  rw [hvalues, ← hgameObject, henabled, ← hscript, hname, ← hfields]
  simp [behaviourAt, fieldOffset]

/-- What a behaviour and the values behind it consist of. -/
theorem reads_behaviourThen (hstop : stop ≤ mapped.length) (hq : Qualified schema profile)
    (hprofile : profile ≠ .textAsset) {β : Type} {D : Decoder ValueCost β}
    {more : List FieldShape} {value : ℕ → List PaddedField → β} {extra n : ℕ}
    (g : β → List SerializedFileValue) (hD : Reads mapped stop D more value extra)
    (hvalue : ∀ at_ fields rest, fields.length = 6 → rest.length = more.length →
      g (value (at_ + (encodeFields fields).length) rest) =
        (List.range' 9 n).map (valueAt schema profile at_ (fields ++ rest))) :
    Reads mapped stop
      (behaviourFormat mapped schema profile stop >>= fun values =>
        D >>= fun authored => pure (values ++ g authored))
      (behaviourShapes ++ more)
      (fun at_ fields => (List.range' 1 (8 + n)).map (valueAt schema profile at_ fields))
      (2 + extra) := by
  refine Reads.congr (Reads.bind (reads_behaviour hstop hq hprofile) fun values =>
    hD.map hstop (values ++ g ·)) ?_
  intro at_ all hshapes
  obtain ⟨fields, rest, rfl, hfields, hrest⟩ := List.map_eq_append_iff.mp hshapes
  have hlength : fields.length = 6 := by
    simpa [behaviourShapes] using congrArg List.length hfields
  obtain ⟨f₁, f₂, f₃, f₄, f₅, f₆, rfl⟩ : ∃ f₁ f₂ f₃ f₄ f₅ f₆, fields = [f₁, f₂, f₃, f₄, f₅, f₆] := by
    simp only [behaviourShapes, List.map_eq_cons_iff, List.map_eq_nil_iff] at hfields
    obtain ⟨f₁, _, rfl, -, f₂, _, rfl, -, f₃, _, rfl, -, f₄, _, rfl, -, f₅, _, rfl, -, f₆, _, rfl,
      -, rfl⟩ := hfields
    exact ⟨_, _, _, _, _, _, rfl⟩
  have hleft := hvalue at_ _ rest hlength (by simpa using congrArg List.length hrest)
  have hsplit : List.range' 1 (8 + n) = List.range' 1 8 ++ List.range' 9 n :=
    List.range'_append_1.symm
  rw [hsplit, List.map_append, ← hleft]
  exact congrArg₂ _ (behaviourAt_eq hprofile) (congrArg (g <| value · rest) (fieldOffset_left at_ _ rest))

theorem reads_monoBehaviour (hstop : stop ≤ mapped.length) (hq : Qualified schema .monoBehaviour) :
    Reads mapped stop (profileFormat mapped schema .monoBehaviour stop)
      ObjectProfile.monoBehaviour.shapes
      (fun at_ fields => (valuesOf schema .monoBehaviour at_ fields).tail) 2 := by
  refine reads_behaviourThen (n := 1) hstop hq (by decide) ([·])
    (reads_integer hstop hq 9 (by decide)) ?_
  intro at_ fields rest hfields hrest
  obtain ⟨f, rfl⟩ := List.length_eq_one_iff.mp hrest
  have hauthored : valueAt schema .monoBehaviour at_ (fields ++ [f]) 9 = _ :=
    valueAt_leaf 6 (by decide) (by decide) (by rw [← hfields, List.getElem?_concat_length])
  show _ = [valueAt schema .monoBehaviour at_ (fields ++ [f]) 9]
  rw [hauthored, ← hfields, fieldOffset_left]
  rfl

theorem reads_monoBehaviourTextAsset (hstop : stop ≤ mapped.length)
    (hq : Qualified schema .monoBehaviourTextAsset) :
    Reads mapped stop (profileFormat mapped schema .monoBehaviourTextAsset stop)
      ObjectProfile.monoBehaviourTextAsset.shapes
      (fun at_ fields => (valuesOf schema .monoBehaviourTextAsset at_ fields).tail) 3 := by
  refine reads_behaviourThen (n := 3) hstop hq (by decide) id
    (reads_pptr hstop hq (by decide) (by decide) (by decide) (by decide)) ?_
  intro at_ fields rest hfields hrest
  obtain ⟨file, path, rfl⟩ := List.length_eq_two.mp hrest
  have hauthored : pptrAt schema .monoBehaviourTextAsset 9
      (fieldOffset at_ (fields ++ [file, path]) 6) [file, path] = _ :=
    pptrAt_eq (by decide) (by decide) (by decide) (by decide) (by decide) (by decide) (by decide)
      (by decide) (by rw [← hfields]; simp) (by rw [← hfields]; simp)
  rw [← hfields, fieldOffset_left] at hauthored
  exact hauthored

theorem reads_profile (hstop : stop ≤ mapped.length) (hq : Qualified schema profile) :
    Reads mapped stop (profileFormat mapped schema profile stop) profile.shapes
      (fun at_ fields => (valuesOf schema profile at_ fields).tail) profile.containerCount := by
  cases profile with
  | textAsset => exact reads_textAsset hstop
  | monoBehaviour => exact reads_monoBehaviour hstop hq
  | monoBehaviourTextAsset => exact reads_monoBehaviourTextAsset hstop hq

/-- The root spans every field. -/
theorem valueAt_root {at_ : ℕ} {fields : List PaddedField}
    (hshapes : fields.map PaddedField.shape = profile.shapes) :
    valueAt schema profile at_ fields 0 =
      { initialValue schema profile 0 with source := ⟨at_, (encodeFields fields).length⟩ } := by
  have hlength : fields.length = profile.shapes.length := by
    rw [← hshapes, List.length_map]
  have hend : fieldOffset at_ fields profile.shapes.length = at_ + (encodeFields fields).length := by
    rw [fieldOffset, ← hlength, List.take_length]
    rfl
  have hkind : (profile.roleAt 0).kind = .container := by cases profile <;> rfl
  have hstop : profile.fieldsBefore (profile.roleAt 0).subtreeEnd = profile.shapes.length := by
    cases profile <;> rfl
  rw [valueAt_container hkind rfl hstop, hend]
  simp [fieldOffset, ObjectProfile.fieldsBefore]

theorem valuesOf_eq {at_ : ℕ} {fields : List PaddedField} :
    valuesOf schema profile at_ fields =
      valueAt schema profile at_ fields 0 :: (valuesOf schema profile at_ fields).tail := by
  cases profile <;> rfl

/-- **A payload is read where it is spelled**: fields of the profile's shapes that
fill it. The values are those of the fields. -/
theorem payloadFormat_eq_some {payload : PrefixRange} (hq : Qualified schema profile)
    (hpayload : payload.offset + payload.size ≤ mapped.length) {values : List SerializedFileValue}
    {d : ValueCost} :
    payloadFormat mapped schema profile payload payload.offset = some (values, d) ↔
      ∃ fields, Spelling profile payload.offset fields ∧
        (PrefixSpan.mk payload.offset payload.size).bytes mapped = encodeFields fields ∧
        values = valuesOf schema profile payload.offset fields ∧
        d = fieldsCost fields + { work := profile.containerCount + 1 } := by
  have hreads : Reads mapped (payload.offset + payload.size) _ _ _ _ := reads_profile hpayload hq
  have hat : payload.offset ≤ payload.offset + payload.size := Nat.le_add_right _ _
  have hlength : ((PrefixSpan.mk payload.offset payload.size).bytes mapped).length = payload.size :=
    (MetadataSource.spells_bytes (holds_of_le hpayload le_rfl)).1
  have hspelled : ∀ fields : List PaddedField, fields.map PaddedField.shape = profile.shapes →
      (encodeFields fields).length = payload.size →
      { initialValue schema profile 0 with source := ⟨payload.offset, payload.size⟩ } ::
        (valuesOf schema profile payload.offset fields).tail =
          valuesOf schema profile payload.offset fields := by
    intro fields hshapes hsize
    rw [← hsize, ← valueAt_root hshapes, ← valuesOf_eq]
  constructor
  · intro h
    obtain ⟨values, d₁, _, hvalues, h₁, rfl⟩ := Decoder.bind_eq_some.mp h
    obtain ⟨_, d₂, _, hposition, h₂, rfl⟩ := Decoder.bind_eq_some.mp h₁
    obtain ⟨rfl, rfl⟩ := Decoder.position_eq_some.mp hposition
    obtain ⟨_, d₃, _, hend, h₃, rfl⟩ := Decoder.bind_eq_some.mp h₂
    obtain ⟨hend, rfl⟩ := Decoder.require_eq_some.mp hend
    obtain ⟨_, d₄, _, hspend, hp, rfl⟩ := Decoder.bind_eq_some.mp h₃
    obtain rfl := Decoder.spend_eq_some.mp hspend
    obtain ⟨rfl, rfl⟩ := Decoder.pure_eq_some.mp hp
    obtain ⟨fields, hshapes, hvalid, hspells, rfl, rfl⟩ := (hreads hat).mp hvalues
    have hsize : (encodeFields fields).length = payload.size := by
      have hwidth : Cost.width (fieldsCost fields + { work := profile.containerCount }) =
        (encodeFields fields).length := fieldsCost_bytes fields
      omega
    refine ⟨fields, ⟨hshapes, hvalid⟩, hspells.bytes hsize, (hspelled fields hshapes hsize), ?_⟩
    ext <;> simp [Nat.add_assoc]
  · rintro ⟨fields, ⟨hshapes, hvalid⟩, hbytes, rfl, rfl⟩
    have hsize : (encodeFields fields).length = payload.size := by rw [← hbytes, hlength]
    have hspells : (payloadSource mapped (payload.offset + payload.size)).Spells payload.offset
        (encodeFields fields) := by
      rw [← hbytes]
      exact (MetadataSource.spells_bytes (holds_of_le hpayload le_rfl)).2
    have hwidth : Cost.width (fieldsCost fields + { work := profile.containerCount }) =
      (encodeFields fields).length := fieldsCost_bytes fields
    rw [← hspelled fields hshapes hsize]
    refine Decoder.bind_eq_some.mpr ⟨_, _, _,
      (hreads hat).mpr ⟨fields, hshapes, hvalid, hspells, rfl, rfl⟩,
      Decoder.bind_eq_some.mpr ⟨_, _, _, Decoder.position_eq_some.mpr ⟨rfl, rfl⟩,
        Decoder.bind_eq_some.mpr ⟨(), _, _, Decoder.require_eq_some.mpr ⟨by omega, rfl⟩,
          Decoder.bind_eq_some.mpr ⟨(), _, _, Decoder.spend_eq_some.mpr rfl,
            Decoder.pure_eq_some.mpr ⟨rfl, rfl⟩, rfl⟩, rfl⟩, rfl⟩, ?_⟩
    ext <;> simp [Nat.add_assoc]

end Profiles

end UnityCommon.Values
