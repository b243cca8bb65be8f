import UnityCommon.SerializedFile.ObjectTable
import UnityCommon.Lib.Sweep

/-!
# What the object table check decides

`validate_object_table` accepts a table exactly when its PathIDs are pairwise
distinct and the byte ranges of its nonempty objects are pairwise disjoint, in
whatever order the rows stand.
-/

namespace UnityCommon

variable {σ : Type}

/-- `[byte_offset, byte_offset + byte_size)`. -/
def AssetObjectInfo.byteRange (object : AssetObjectInfo) : Set ℕ :=
  Set.Ico object.byteOffset.toNat (object.byteOffset.toNat + object.byteSize.toNat)

/-- The rows `left` and `right` may stand in one table. -/
structure AssetObjectInfo.Compatible (left right : AssetObjectInfo) : Prop where
  pathId : left.pathId ≠ right.pathId
  byteRange : left.byteSize ≠ 0 → right.byteSize ≠ 0 → Disjoint left.byteRange right.byteRange

namespace ObjectValidationRecord

def first (record : ObjectValidationRecord) : ℕ := record.byteOffset.toNat

def last (record : ObjectValidationRecord) : ℕ := record.byteEnd.toNat

end ObjectValidationRecord

open ObjectValidationRecord

theorem first_objectValidationRecord (object : AssetObjectInfo) :
    (objectValidationRecord object).first = object.byteOffset.toNat := rfl

/-- The end of an object does not wrap. -/
theorem last_objectValidationRecord {object : AssetObjectInfo}
    (hoffset : object.byteOffset.toNat ≤ int64Max) :
    (objectValidationRecord object).last = object.byteOffset.toNat + object.byteSize.toNat := by
  have hmax : int64Max = 2 ^ 63 - 1 := rfl
  have hsize : object.byteSize.toNat < 2 ^ 32 := object.byteSize.toNat_lt
  show (object.byteOffset + object.byteSize.toUInt64).toNat = _
  rw [UInt64.toNat_add, UInt32.toNat_toUInt64]
  omega

theorem range_objectValidationRecord {object : AssetObjectInfo}
    (hoffset : object.byteOffset.toNat ≤ int64Max) :
    Sweep.range first last (objectValidationRecord object) = object.byteRange := by
  rw [Sweep.range, first_objectValidationRecord, last_objectValidationRecord hoffset,
    AssetObjectInfo.byteRange]

theorem toNat_ne_zero {size : UInt32} : size.toNat ≠ 0 ↔ size ≠ 0 := by
  rw [ne_eq, ne_eq, ← UInt32.toNat_inj]
  rfl

/-! ## The two comparisons -/

theorem pathIdLe_iff {left right : ObjectValidationRecord} :
    pathIdLe left right = true ↔ left.pathId.toInt ≤ right.pathId.toInt := by
  rw [pathIdLe, decide_eq_true_iff, Int64.le_iff_toInt_le]

theorem rangeLe_iff {left right : ObjectValidationRecord} :
    rangeLe left right = true ↔
      left.first < right.first ∨ left.first = right.first ∧ left.last ≤ right.last := by
  have hfirst : left.byteOffset = right.byteOffset ↔ left.first = right.first := UInt64.toNat_inj.symm
  rw [rangeLe]
  split
  · rename_i hne
    have hne : left.first ≠ right.first := fun h => hne (hfirst.mpr h)
    rw [decide_eq_true_iff, UInt64.lt_iff_toNat_lt]
    simp only [hne, false_and, or_false]
    exact Iff.rfl
  · rename_i heq
    have heq : left.first = right.first := hfirst.mp (not_not.mp heq)
    rw [decide_eq_true_iff, UInt64.le_iff_toNat_le]
    simp only [heq, lt_irrefl, true_and, false_or]
    exact Iff.rfl

instance : Std.Total fun left right => pathIdLe left right = true where
  total left right := by
    simp only [pathIdLe_iff]
    omega

instance : IsTrans ObjectValidationRecord fun left right => pathIdLe left right = true where
  trans left middle right := by
    simp only [pathIdLe_iff]
    omega

instance : Std.Total fun left right => rangeLe left right = true where
  total left right := by
    simp only [rangeLe_iff]
    omega

instance : IsTrans ObjectValidationRecord fun left right => rangeLe left right = true where
  trans left middle right := by
    simp only [rangeLe_iff]
    omega

/-! ## The two sweeps -/

theorem neighboursDistinct_iff {records : List ObjectValidationRecord} :
    neighboursDistinct records = true ↔ Sweep.NeighboursDiffer (·.pathId.toInt) records := by
  induction records with
  | nil => simp [neighboursDistinct, Sweep.NeighboursDiffer]
  | cons left records ih =>
      cases records with
      | nil => simp [neighboursDistinct, Sweep.NeighboursDiffer]
      | cons right records =>
          rw [neighboursDistinct, Bool.and_eq_true, ih, Sweep.NeighboursDiffer,
            Sweep.NeighboursDiffer, List.isChain_cons_cons, bne_iff_ne, ne_eq, ne_eq,
            Int64.toInt_inj]

/-- The loop is the sweep over the nonempty objects. -/
theorem rangesFollow_eq (records : List ObjectValidationRecord) (previousEnd : Option UInt64) :
    rangesFollow records previousEnd =
      Sweep.follows first last (records.filter fun record => record.byteSize ≠ 0)
        (previousEnd.map UInt64.toNat) := by
  induction records generalizing previousEnd with
  | nil => rfl
  | cons record records ih =>
      rw [rangesFollow]
      split
      · rename_i hempty
        rw [List.filter_cons_of_neg (by simp [hempty])]
        exact ih previousEnd
      · rename_i hnonempty
        rw [List.filter_cons_of_pos (by simp [hnonempty]), Sweep.follows, ih]
        congr 1
        cases previousEnd with
        | none => rfl
        | some bound =>
            simp only [Option.any_some, Option.map_some, Option.all_some, UInt64.lt_iff_toNat_lt,
              first, ← decide_not, not_lt]
            exact decide_eq_decide.mpr Iff.rfl

/-- What the check accepts, said of the rows as they stand. -/
theorem validated_iff {objects : List AssetObjectInfo}
    (hoffsets : ∀ object ∈ objects, object.byteOffset.toNat ≤ int64Max) :
    let byPathId := (objects.map objectValidationRecord).insertionSort
      fun left right => pathIdLe left right = true
    let byRange := byPathId.insertionSort fun left right => rangeLe left right = true
    neighboursDistinct byPathId = true ∧ rangesFollow byRange none = true ↔
      objects.Pairwise AssetObjectInfo.Compatible := by
  intro byPathId byRange
  have hpathIdPerm : byPathId.Perm (objects.map objectValidationRecord) := List.perm_insertionSort _ _
  have hrangePerm : byRange.Perm (objects.map objectValidationRecord) :=
    (List.perm_insertionSort _ _).trans hpathIdPerm
  -- both checks look at neighbours of a sorted copy, and the copies permute the rows
  have hdistinct : neighboursDistinct byPathId = true ↔
      objects.Pairwise fun left right => left.pathId ≠ right.pathId := by
    have hsorted : byPathId.Pairwise fun left right => left.pathId.toInt ≤ right.pathId.toInt :=
      (List.pairwise_insertionSort _ _).imp pathIdLe_iff.mp
    rw [neighboursDistinct_iff, Sweep.neighboursDiffer_iff _ hsorted,
      hpathIdPerm.pairwise_iff fun h => h.symm, List.pairwise_map]
    simp only [ne_eq, Int64.toInt_inj]
    exact Iff.rfl
  have hranges : rangesFollow byRange none = true ↔
      objects.Pairwise fun left right => left.byteSize ≠ 0 → right.byteSize ≠ 0 →
        Disjoint left.byteRange right.byteRange := by
    -- empty ranges are left out, and the others are proper
    have hproper : ∀ record ∈ byRange.filter fun record => record.byteSize ≠ 0,
        record.first < record.last := by
      intro record hrecord
      obtain ⟨hmem, hnonempty⟩ := List.mem_filter.mp hrecord
      obtain ⟨object, hobject, rfl⟩ := List.mem_map.mp (hrangePerm.mem_iff.mp hmem)
      have hsize := toNat_ne_zero.mpr (of_decide_eq_true hnonempty)
      rw [first_objectValidationRecord, last_objectValidationRecord (hoffsets object hobject)]
      exact Nat.lt_add_of_pos_right (Nat.pos_of_ne_zero hsize)
    have hsorted : (byRange.filter fun record => record.byteSize ≠ 0).Pairwise
        fun left right => left.first ≤ right.first := by
      refine ((List.pairwise_insertionSort _ _).sublist List.filter_sublist).imp fun h => ?_
      rcases rangeLe_iff.mp h with hlt | ⟨heq, -⟩
      · exact hlt.le
      · exact heq.le
    rw [rangesFollow_eq, Option.map_none, Sweep.follows_iff_disjoint hproper hsorted,
      (hrangePerm.filter _).pairwise_iff fun h => h.symm, List.pairwise_filter, List.pairwise_map]
    refine List.Pairwise.iff_of_mem fun {left right} hleft hright => ?_
    rw [range_objectValidationRecord (hoffsets left hleft),
      range_objectValidationRecord (hoffsets right hright), decide_eq_true_iff, decide_eq_true_iff]
    exact Iff.rfl
  rw [hdistinct, hranges, ← List.pairwise_and_iff]
  exact List.Pairwise.iff fun left right => ⟨fun h => ⟨h.1, h.2⟩, fun h => ⟨h.1, h.2⟩⟩

/-- **The object table check decides what it is for**: with storage granted, a
table passes exactly when its PathIDs are pairwise distinct and no two of its
nonempty objects share a byte. -/
theorem validateObjectTable_iff (file : SerializedFile)
    (hoffsets : ∀ object ∈ file.objects, object.byteOffset.toNat ≤ int64Max)
    (answers : ℕ → Bool) (state : σ) (n : ℕ) (hgranted : answers n = true) :
    (∃ n', validateObjectTable file answers state n = .ok () state n') ↔
      file.objects.Pairwise AssetObjectInfo.Compatible := by
  rw [validateObjectTable]
  split
  · rename_i hfew
    refine ⟨fun _ => ?_, fun _ => ⟨n, rfl⟩⟩
    -- one row at most
    match hobjects : file.objects with
    | [] => exact List.Pairwise.nil
    | [object] => exact List.pairwise_singleton _ _
    | _ :: _ :: _ =>
        rw [hobjects] at hfew
        exact absurd hfew (by simp)
  · have hvalidated := validated_iff hoffsets
    simp only [Call.request_bind_eq_ok, Call.require_bind_eq_ok, Call.require_eq_ok, hgranted,
      true_and, exists_and_left, exists_eq', and_true]
    exact hvalidated

/-- An empty object may lie inside another. -/
def nestedEmptyObject : List AssetObjectInfo :=
  [{ pathId := 5, byteOffset := 100, byteSize := 20, typeIdOrIndex := 0, typeId := 0,
     scriptTypeIndex := 0, oldTypeId := 0, stripped := 0 },
   { pathId := -3, byteOffset := 110, byteSize := 0, typeIdOrIndex := 0, typeId := 0,
     scriptTypeIndex := 0, oldTypeId := 0, stripped := 0 },
   { pathId := 4, byteOffset := 40, byteSize := 60, typeIdOrIndex := 0, typeId := 0,
     scriptTypeIndex := 0, oldTypeId := 0, stripped := 0 }]

theorem validateObjectTable_nestedEmptyObject :
    (∃ n', validateObjectTable { SerializedFile.closed with objects := nestedEmptyObject }
      Call.granted () 0 = .ok () () n') ∧ nestedEmptyObject.Pairwise AssetObjectInfo.Compatible := by
  have hrun : validateObjectTable { SerializedFile.closed with objects := nestedEmptyObject }
      Call.granted () 0 = .ok () () 1 := by decide
  have hiff := validateObjectTable_iff
    { SerializedFile.closed with objects := nestedEmptyObject } (by decide) Call.granted () 0 rfl
  exact ⟨⟨1, hrun⟩, hiff.mp ⟨1, hrun⟩⟩

end UnityCommon
