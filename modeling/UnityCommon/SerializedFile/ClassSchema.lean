import UnityCommon.Lib.Triple
import UnityCommon.SerializedFile.ObjectTable
import UnityCommon.SerializedFile.TypeTables

/-!
# The schemas of one class

`serialized_file_resolve_class_schema`: the records of a class that lack a tree
are counted in both tables, looked up into a list on the side, and only then put
into the file.
-/

namespace UnityCommon

open UnityCommon.TypeTree UnityCommon.Registry
open Call (Triple)

namespace ClassSchema

def sizeMax : ℕ := 2 ^ 64 - 1

/-- `sizeof(ResolvedTypeReplacement)`. -/
def replacementSize : ℕ := 120

/-- A position in one of the type tables, with the record for it. -/
structure ResolvedTypeReplacement where
  reference : Bool
  index : ℕ
  resolved : TypeTreeType
deriving DecidableEq, Repr

/-- The table of reference types, or that of ordinary ones. -/
def table (file : SerializedFile) (reference : Bool) : List TypeTreeType :=
  if reference then file.refTypes else file.types

def setTable (file : SerializedFile) (reference : Bool) (types : List TypeTreeType) :
    SerializedFile :=
  if reference then { file with refTypes := types } else { file with types }

/-- A record of the class without a tree. -/
def unresolved (classId : Int32) (type : TypeTreeType) : Bool :=
  type.typeId == classId && type.nodes == []

def unresolvedClassSchemaCount (types : List TypeTreeType) (classId : Int32) : ℕ :=
  types.countP (unresolved classId)

section

variable (registry : TypeTreeSchemaRegistry) (classId : Int32)

/-- The record of the registry for one record of the file. -/
def lookupSchema (file : SerializedFile) (type : TypeTreeType) :
    Call TypeTreeSchemaStatus SerializedFile TypeTreeType := do
  let key ← Call.ofExcept
    (typetreeSchemaKeyFromType file.version file.unityVersion classId type)
  let (resolved, _) ← Call.within registry (typetreeSchemaRegistryLookup (some key))
  return resolved

/-- The records of a table from an index on; the replacements found go behind
those already there. -/
def resolveClassSchemaArray (file : SerializedFile) (replacementCapacity : ℕ)
    (reference : Bool) : ℕ → List TypeTreeType → List ResolvedTypeReplacement →
    Call TypeTreeSchemaStatus SerializedFile (List ResolvedTypeReplacement)
  | _, [], replacements => pure replacements
  | index, type :: types, replacements =>
      if unresolved classId type = false then
        resolveClassSchemaArray file replacementCapacity reference (index + 1) types replacements
      else do
        Call.require (replacements.length < replacementCapacity) .sizeOverflow
        let resolved ← lookupSchema registry classId file type
        resolveClassSchemaArray file replacementCapacity reference (index + 1) types
          (replacements ++ [⟨reference, index, resolved⟩])

/-- One replacement is committed. -/
def replace (file : SerializedFile) (replacement : ResolvedTypeReplacement) : SerializedFile :=
  setTable file replacement.reference
    ((table file replacement.reference).set replacement.index replacement.resolved)

/-- What follows the count. -/
def resolveCounted (file : SerializedFile) (replacementCapacity : ℕ) :
    Call TypeTreeSchemaStatus SerializedFile Unit := do
  let found ← resolveClassSchemaArray registry classId file replacementCapacity false 0
    file.types []
  let replacements ← resolveClassSchemaArray registry classId file replacementCapacity true 0
    file.refTypes found
  Call.modify fun file => replacements.foldl replace file

end

/-- The registry is `none` for `NULL`. -/
def serializedFileResolveClassSchema (classId : Int32)
    (schemaRegistry : Option TypeTreeSchemaRegistry) :
    Call TypeTreeSchemaStatus SerializedFile Unit := do
  let file ← Call.current
  Call.require (file.unityVersion ≠ none ∧ 0 ≤ classId) .invalidArgument
  let typeCount := unresolvedClassSchemaCount file.types classId
  let refTypeCount := unresolvedClassSchemaCount file.refTypes classId
  Call.require (typeCount ≤ sizeMax - refTypeCount) .sizeOverflow
  let replacementCapacity := typeCount + refTypeCount
  if replacementCapacity = 0 then return ()
  let registry ← Call.ofOption .invalidArgument schemaRegistry
  Call.require (replacementCapacity ≤ sizeMax / replacementSize) .sizeOverflow
  Call.request .allocationFailed
  resolveCounted registry classId file replacementCapacity

section

variable {sha256 : Text → Sha256Digest} {registry : TypeTreeSchemaRegistry} {classId : Int32}
  {file : SerializedFile} {answers : ℕ → Bool} {reference : Bool}

/-! ## The tables -/

theorem setTable_table (file : SerializedFile) (reference : Bool) :
    setTable file reference (table file reference) = file := by
  cases reference <;> rfl

theorem table_setTable (file : SerializedFile) (reference : Bool) (types : List TypeTreeType) :
    table (setTable file reference types) reference = types := by
  cases reference <;> rfl

theorem setTable_setTable (file : SerializedFile) (reference : Bool)
    (types after : List TypeTreeType) :
    setTable (setTable file reference types) reference after = setTable file reference after := by
  cases reference <;> rfl

/-! ## Looking up -/

/-- The new record is the registry's under the key of the old one. -/
def FoundFor (schemaRegistry : Option TypeTreeSchemaRegistry) (file : SerializedFile)
    (type found : TypeTreeType) : Prop :=
  ∃ registry ∈ schemaRegistry, ∃ key,
    typetreeSchemaKeyFromType file.version file.unityVersion type.typeId type = .ok key ∧
      (⟨key, found⟩ : Entry) ∈ registry.entries

/-- What becomes of a record: without a tree and of the class it is replaced. -/
def Replaced (schemaRegistry : Option TypeTreeSchemaRegistry) (classId : Int32)
    (file : SerializedFile) (type after : TypeTreeType) : Prop :=
  if type.typeId = classId ∧ type.nodes = [] then FoundFor schemaRegistry file type after
  else after = type

theorem unresolved_iff {type : TypeTreeType} :
    unresolved classId type = true ↔ type.typeId = classId ∧ type.nodes = [] := by
  unfold unresolved
  rw [Bool.and_eq_true, beq_iff_eq, beq_iff_eq]

/-- **A lookup gives the entry of the key.** -/
theorem lookup_eq_ok (hwf : registry.WellFormed sha256) {key : TypeTreeSchemaKey}
    {found : TypeTreeType} {registry' : TypeTreeSchemaRegistry} {n n' : ℕ}
    (h : typetreeSchemaRegistryLookup (some key) answers registry n = .ok found registry' n') :
    (⟨key, found⟩ : Entry) ∈ registry.entries := by
  obtain ⟨valid, hvalid, hfound⟩ := Call.ofExcept_bind_eq_ok.mp h
  obtain rfl := Option.some.inj (validateKey_eq_ok_iff.mp hvalid).1
  have hclone := Call.current_bind_eq_ok.mp hfound
  cases hfind : SortedAssoc.find? compareKeys Entry.key registry.entries key with
  | none =>
      rw [hfind] at hclone
      nomatch hclone
  | some entry =>
      rw [hfind] at hclone
      obtain ⟨hmem, rfl⟩ := (SortedAssoc.find?_eq_some_iff hwf.increasing).mp hfind
      obtain ⟨rfl, -⟩ := (yields_cloneSchema registry (hwf.valid entry hmem)).unique hclone
      exact hmem

theorem triple_lookupSchema (hwf : registry.WellFormed sha256) {type : TypeTreeType}
    (htype : type.typeId = classId) :
    Triple answers (· = file) (lookupSchema registry classId file type)
      (fun found after => after = file ∧ FoundFor (some registry) file type found)
      fun _ after => after = file := by
  refine Triple.taking (fun _ _ => rfl) fun key hkey => ?_
  rintro _ n rfl
  rw [Call.bind_apply, Call.andThen, Call.within]
  cases h : typetreeSchemaRegistryLookup (some key) answers registry n with
  | ok found registry' n' =>
      exact ⟨rfl, registry, rfl, key, htype ▸ hkey, lookup_eq_ok hwf h⟩
  | error status registry' n' => exact rfl

/-! ## The replacements of a table -/

/-- Committed to a table that still has these records from the index on, the
replacements leave the new records there. -/
structure Collects (registry : TypeTreeSchemaRegistry) (classId : Int32) (file : SerializedFile)
    (reference : Bool) (index : ℕ) (types : List TypeTreeType)
    (found : List ResolvedTypeReplacement) (after : List TypeTreeType) : Prop where
  replaced : List.Forall₂ (Replaced (some registry) classId file) types after
  commit : ∀ target front, front.length = index → table target reference = front ++ types →
    found.foldl replace target = setTable target reference (front ++ after)

namespace Collects

variable {index : ℕ} {type resolved : TypeTreeType} {types after : List TypeTreeType}
  {found : List ResolvedTypeReplacement}

theorem nil : Collects registry classId file reference index [] [] [] where
  replaced := .nil
  commit target front _ htable := by
    rw [← htable, setTable_table]
    rfl

theorem skip (h : Collects registry classId file reference (index + 1) types found after)
    (htype : unresolved classId type = false) :
    Collects registry classId file reference index (type :: types) found (type :: after) where
  replaced := by
    refine .cons ?_ h.replaced
    rw [Replaced, if_neg]
    rw [← unresolved_iff, htype]
    exact Bool.false_ne_true
  commit target front hfront htable := by
    have := h.commit target (front ++ [type]) (by simp [hfront]) (by simpa using htable)
    simpa using this

theorem take (h : Collects registry classId file reference (index + 1) types found after)
    (htype : unresolved classId type = true) (hresolved : FoundFor (some registry) file type resolved) :
    Collects registry classId file reference index (type :: types)
      (⟨reference, index, resolved⟩ :: found) (resolved :: after) where
  replaced := by
    refine .cons ?_ h.replaced
    rw [Replaced, if_pos (unresolved_iff.mp htype)]
    exact hresolved
  commit target front hfront htable := by
    have hreplace : replace target ⟨reference, index, resolved⟩ =
        setTable target reference (front ++ resolved :: types) := by
      simp only [replace, htable, ← hfront, List.set_append_right _ _ (Nat.le_refl _), Nat.sub_self,
        List.set_cons_zero]
    have := h.commit (replace target ⟨reference, index, resolved⟩) (front ++ [resolved])
      (by simp [hfront]) (by simp [hreplace, table_setTable])
    rw [List.foldl_cons, this, hreplace, setTable_setTable, List.append_assoc,
      List.singleton_append]

end Collects

theorem triple_resolveClassSchemaArray (hwf : registry.WellFormed sha256) (capacity : ℕ)
    (types : List TypeTreeType) (index : ℕ) (replacements : List ResolvedTypeReplacement) :
    Triple answers (· = file)
      (resolveClassSchemaArray registry classId file capacity reference index types replacements)
      (fun all s => s = file ∧ ∃ found after, all = replacements ++ found ∧
        Collects registry classId file reference index types found after)
      fun _ s => s = file := by
  induction types generalizing index replacements with
  | nil => exact Triple.pure fun _ h => ⟨h, [], [], (List.append_nil _).symm, .nil⟩
  | cons type types ih =>
      unfold resolveClassSchemaArray
      split
      case isTrue htype =>
        refine (ih (index + 1) replacements).consequence (fun _ h => h) ?_ fun _ _ h => h
        rintro all s ⟨hs, found, after, hall, hcollects⟩
        exact ⟨hs, found, type :: after, hall, hcollects.skip htype⟩
      case isFalse htype =>
        rw [Bool.not_eq_false] at htype
        refine Triple.requiring (fun _ => rfl) fun _ => ?_
        refine Triple.bind (triple_lookupSchema hwf (unresolved_iff.mp htype).1) fun resolved => ?_
        refine Triple.assuming (fun _ h => h.2) fun hresolved => ?_
        refine (ih (index + 1) _).consequence (fun _ h => h.1) ?_ fun _ _ h => h
        rintro all s ⟨hs, found, after, hall, hcollects⟩
        refine ⟨hs, _ :: found, resolved :: after, ?_, hcollects.take htype hresolved⟩
        rw [hall, List.append_assoc, List.singleton_append]

/-! ## The transaction -/

/-- Both tables are replaced record by record, and nothing else. -/
def Resolves (schemaRegistry : Option TypeTreeSchemaRegistry) (classId : Int32)
    (file after : SerializedFile) : Prop :=
  after = { file with types := after.types, refTypes := after.refTypes } ∧
    List.Forall₂ (Replaced schemaRegistry classId file) file.types after.types ∧
    List.Forall₂ (Replaced schemaRegistry classId file) file.refTypes after.refTypes

/-- **Both scans end before the first record is written.** -/
theorem triple_resolveCounted (hwf : registry.WellFormed sha256) (capacity : ℕ) :
    Triple answers (· = file) (resolveCounted registry classId file capacity)
      (fun _ after => Resolves (some registry) classId file after) fun _ after => after = file := by
  refine Triple.bind (triple_resolveClassSchemaArray hwf capacity file.types 0 []) fun first => ?_
  refine Triple.assuming (fun _ h => h.2) ?_
  rintro ⟨found, types, hfirst, htypes⟩
  obtain rfl : found = first := hfirst.symm
  refine Triple.bind ((triple_resolveClassSchemaArray hwf capacity file.refTypes 0
    found).pre fun _ h => h.1) fun all => Triple.modify ?_
  rintro _ ⟨rfl, more, refTypes, rfl, hrefs⟩
  -- the other table is as it was when the first one is committed
  rw [List.foldl_append, htypes.commit _ [] rfl rfl, hrefs.commit (setTable _ false _) [] rfl rfl]
  exact ⟨rfl, htypes.replaced, hrefs.replaced⟩

/-- A record that is replaced has a tree, and the others keep theirs. -/
theorem Replaced.resolved {schemaRegistry : Option TypeTreeSchemaRegistry}
    (hwf : ∀ registry ∈ schemaRegistry, registry.WellFormed sha256) {type after : TypeTreeType}
    (h : Replaced schemaRegistry classId file type after) : unresolved classId after = false := by
  rw [← Bool.not_eq_true, unresolved_iff]
  unfold Replaced at h
  split at h
  case isTrue htype =>
    obtain ⟨registry, hregistry, key, -, hmem⟩ := h
    exact fun hafter => ((hwf registry hregistry).valid _ hmem).nodes_ne_nil hafter.2
  case isFalse htype =>
    rw [h]
    exact htype

theorem count_replaced {schemaRegistry : Option TypeTreeSchemaRegistry}
    (hwf : ∀ registry ∈ schemaRegistry, registry.WellFormed sha256) {types after : List TypeTreeType}
    (h : List.Forall₂ (Replaced schemaRegistry classId file) types after) :
    unresolvedClassSchemaCount after classId = 0 := by
  unfold unresolvedClassSchemaCount
  induction h with
  | nil => rfl
  | cons htype _ ih => rw [List.countP_cons, ih, htype.resolved hwf]; rfl

/-- Where no record counts none is replaced. -/
theorem replaced_self (schemaRegistry : Option TypeTreeSchemaRegistry) {types : List TypeTreeType}
    (h : unresolvedClassSchemaCount types classId = 0) :
    List.Forall₂ (Replaced schemaRegistry classId file) types types := by
  rw [List.forall₂_same]
  intro type htype
  have hnone := List.countP_eq_zero.mp h type htype
  rw [unresolved_iff] at hnone
  rw [Replaced, if_neg hnone]

/-- A call that finds nothing to resolve. -/
theorem resolveClassSchema_of_none {schemaRegistry : Option TypeTreeSchemaRegistry}
    (hversion : file.unityVersion ≠ none ∧ 0 ≤ classId)
    (htypes : unresolvedClassSchemaCount file.types classId = 0)
    (hrefs : unresolvedClassSchemaCount file.refTypes classId = 0) (n : ℕ) :
    serializedFileResolveClassSchema classId schemaRegistry answers file n = .ok () file n := by
  unfold serializedFileResolveClassSchema
  rw [Call.bind_apply, Call.andThen, Call.current]
  dsimp only
  rw [htypes, hrefs, Call.bind_apply, Call.andThen, Call.require, if_pos hversion]
  rfl

theorem triple_resolveClassSchema {schemaRegistry : Option TypeTreeSchemaRegistry}
    (hwf : ∀ registry ∈ schemaRegistry, registry.WellFormed sha256) :
    Triple answers (· = file) (serializedFileResolveClassSchema classId schemaRegistry)
      (fun _ after => (file.unityVersion ≠ none ∧ 0 ≤ classId) ∧
        Resolves schemaRegistry classId file after) fun _ after => after = file := by
  refine Triple.reading <| Triple.requiring (fun _ => rfl) fun hversion => ?_
  refine Triple.requiring (fun _ => rfl) fun _ => ?_
  dsimp only
  split
  case isTrue hzero =>
    refine Triple.pure ?_
    rintro _ rfl
    exact ⟨hversion, rfl, replaced_self _ (by omega), replaced_self _ (by omega)⟩
  case isFalse hsome =>
    refine Triple.choosing (fun _ => rfl) fun registry hregistry => ?_
    refine Triple.requiring (fun _ => rfl) fun _ => Triple.requesting (fun _ => rfl) ?_
    subst hregistry
    exact (triple_resolveCounted (hwf registry rfl) _).consequence (fun _ h => h)
      (fun _ _ h => ⟨hversion, h⟩) fun _ _ h => h

end

/-- **The schemas of a class are resolved all or none**, and once. -/
theorem resolveClassSchema_transactional {sha256 : Text → Sha256Digest}
    {schemaRegistry : Option TypeTreeSchemaRegistry}
    (hreach : ∀ registry ∈ schemaRegistry, Reachable sha256 registry) (file : SerializedFile)
    (classId : Int32) (answers : ℕ → Bool) (n : ℕ) :
    (∀ status after n', serializedFileResolveClassSchema classId schemaRegistry answers file n =
      .error status after n' → after = file) ∧
    ∀ u after n', serializedFileResolveClassSchema classId schemaRegistry answers file n =
        .ok u after n' →
      Resolves schemaRegistry classId file after ∧
        ∀ answers' m, serializedFileResolveClassSchema classId schemaRegistry answers' after m =
          .ok () after m := by
  have hwf : ∀ registry ∈ schemaRegistry, registry.WellFormed sha256 := fun registry hregistry =>
    (hreach registry hregistry).wellFormed
  constructor
  · intro status after n' hrun
    exact (triple_resolveClassSchema hwf).of_error rfl hrun
  · intro u after n' hrun
    obtain ⟨hversion, hresolves⟩ := (triple_resolveClassSchema hwf).of_ok rfl hrun
    refine ⟨hresolves, fun answers' m => resolveClassSchema_of_none ?_
      (count_replaced hwf hresolves.2.1) (count_replaced hwf hresolves.2.2) m⟩
    rw [hresolves.1]
    exact hversion

/-- A file with a record that the sample registry knows between two of other classes. -/
def sampleUnresolved : SerializedFile :=
  { SerializedFile.closed with
    version := 22
    unityVersion := some (cstr "2021.3.35f1")
    types := [{ withoutTree sampleSchema with typeId := 1 }, withoutTree sampleSchema]
    refTypes := [{ withoutTree sampleSchema with typeId := 2, isRefType := true }] }

def sampleResolved : SerializedFile :=
  { sampleUnresolved with
    types := [{ withoutTree sampleSchema with typeId := 1 }, sampleSchema] }

theorem resolveClassSchema_transactional_sample :
    serializedFileResolveClassSchema 49 (some sampleRegistry) Call.granted sampleUnresolved 0 =
        .ok () sampleResolved 4 ∧
      Resolves (some sampleRegistry) 49 sampleUnresolved sampleResolved := by
  have hrun : serializedFileResolveClassSchema 49 (some sampleRegistry) Call.granted
      sampleUnresolved 0 = .ok () sampleResolved 4 := by
    decide +kernel
  have hreach : ∀ registry ∈ some sampleRegistry, Reachable lastBytesDigest registry := by
    rintro _ ⟨⟩
    exact .call sampleLearn Call.granted 0 .init
  exact ⟨hrun, ((resolveClassSchema_transactional hreach sampleUnresolved 49 Call.granted 0).2
    () sampleResolved 4 hrun).1⟩

end ClassSchema

end UnityCommon
