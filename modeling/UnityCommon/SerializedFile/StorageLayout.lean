import UnityCommon.Lib.AlignedLayout
import UnityCommon.SerializedFile.ManagedValues
import UnityCommon.SerializedFile.ReferenceIndex

/-!
# The arrays of an owner

`serialized_file_storage_append_array_internal` over a `size_t` of any width. Its
wrapping arithmetic is exact wherever a call succeeds, so a sequence of calls lays
out what the arithmetic of unbounded integers does up to `SIZE_MAX`, the arrays
one behind the other.
-/

namespace UnityCommon.Metadata

open AlignedLayout

variable {w : ℕ}

/-! ## The call -/

def dxbcSizeAddOverflows (left right : BitVec w) : Bool := left > BitVec.allOnes w - right

def dxbcSizeMultiplyOverflows (left right : BitVec w) : Bool :=
  left ≠ 0 && right > BitVec.allOnes w / left

/-- What the pointers `total` and `out_offset` point to. -/
structure StorageCursor (w : ℕ) where
  total : BitVec w
  outOffset : BitVec w
deriving DecidableEq, Repr

def serializedFileStorageAppendArrayInternal (alignment count width : BitVec w)
    (cursor : StorageCursor w) : Bool × StorageCursor w :=
  let remainder := cursor.total % alignment
  let padding := if remainder ≠ 0 then alignment - remainder else 0
  if dxbcSizeAddOverflows cursor.total padding || dxbcSizeMultiplyOverflows count width then
    (false, cursor)
  else
    let offset := cursor.total + padding
    let arraySize := count * width
    if dxbcSizeAddOverflows offset arraySize then (false, cursor)
    else (true, ⟨offset + arraySize, offset⟩)

/-! ## Exact sizes -/

theorem sizeAddOverflows_iff (left right : BitVec w) :
    dxbcSizeAddOverflows left right = true ↔ 2 ^ w - 1 < left.toNat + right.toNat := by
  have hright := right.isLt
  rw [dxbcSizeAddOverflows, decide_eq_true_iff, gt_iff_lt, BitVec.lt_def,
    BitVec.toNat_sub_of_le (BitVec.le_def.mpr (by rw [BitVec.toNat_allOnes]; omega)),
    BitVec.toNat_allOnes]
  omega

theorem sizeMultiplyOverflows_iff (left right : BitVec w) :
    dxbcSizeMultiplyOverflows left right = true ↔ 2 ^ w - 1 < left.toNat * right.toNat := by
  rw [dxbcSizeMultiplyOverflows, Bool.and_eq_true, decide_eq_true_iff, decide_eq_true_iff,
    gt_iff_lt, BitVec.lt_def, BitVec.toNat_udiv, BitVec.toNat_allOnes]
  by_cases hzero : left = 0
  · simp [hzero]
  · have hpos : 0 < left.toNat := Nat.pos_of_ne_zero fun h => hzero (BitVec.eq_of_toNat_eq h)
    rw [Nat.div_lt_iff_lt_mul hpos, Nat.mul_comm]
    exact and_iff_right hzero

theorem toNat_add_of_fits {left right : BitVec w} (h : left.toNat + right.toNat ≤ 2 ^ w - 1) :
    (left + right).toNat = left.toNat + right.toNat := by
  have hpos := Nat.two_pow_pos w
  rw [BitVec.toNat_add, Nat.mod_eq_of_lt (by omega)]

theorem toNat_mul_of_fits {left right : BitVec w} (h : left.toNat * right.toNat ≤ 2 ^ w - 1) :
    (left * right).toNat = left.toNat * right.toNat := by
  have hpos := Nat.two_pow_pos w
  rw [BitVec.toNat_mul, Nat.mod_eq_of_lt (by omega)]

/-- The padding of the call reaches the next multiple. -/
theorem toNat_add_padding {alignment : BitVec w} (halignment : alignment ≠ 0) (total : BitVec w) :
    total.toNat + (if total % alignment ≠ 0 then alignment - total % alignment else 0).toNat =
      alignUp alignment.toNat total.toNat := by
  have hne : alignment.toNat ≠ 0 := fun h => halignment (BitVec.eq_of_toNat_eq h)
  have hlt := Nat.mod_lt total.toNat (Nat.pos_of_ne_zero hne)
  have hmod : (total % alignment).toNat = total.toNat % alignment.toNat := BitVec.toNat_umod
  have hiff : total % alignment = 0 ↔ total.toNat % alignment.toNat = 0 := by
    rw [← hmod]
    exact ⟨fun h => by rw [h]; rfl, fun h => BitVec.eq_of_toNat_eq h⟩
  rw [← add_padding hne]
  by_cases hzero : total % alignment = 0
  · rw [if_neg (not_not.mpr hzero), if_neg (not_not.mpr (hiff.mp hzero))]
    rfl
  · rw [if_pos hzero, if_pos (mt hiff.mpr hzero),
      BitVec.toNat_sub_of_le (BitVec.le_def.mpr (by rw [hmod]; omega)), hmod]

/-! ## One call -/

structure ArrayRequest (w : ℕ) where
  alignment : BitVec w
  count : BitVec w
  width : BitVec w
deriving DecidableEq, Repr

def ArrayRequest.append (request : ArrayRequest w) (cursor : StorageCursor w) :
    Bool × StorageCursor w :=
  serializedFileStorageAppendArrayInternal request.alignment request.count request.width cursor

/-- The request in unbounded integers. -/
def ArrayRequest.exact (request : ArrayRequest w) : Request :=
  ⟨request.alignment.toNat, request.count.toNat * request.width.toNat⟩

/-- Where the array ends in unbounded integers. -/
def ArrayRequest.exactTotal (request : ArrayRequest w) (cursor : StorageCursor w) : ℕ :=
  alignUp request.alignment.toNat cursor.total.toNat + request.count.toNat * request.width.toNat

/-- **A call succeeds exactly where the exact total fits**, and then returns it. -/
theorem append_cases {request : ArrayRequest w} (halignment : request.alignment ≠ 0)
    (cursor : StorageCursor w) :
    2 ^ w - 1 < request.exactTotal cursor ∧ request.append cursor = (false, cursor) ∨
      request.exactTotal cursor ≤ 2 ^ w - 1 ∧ ∃ after, request.append cursor = (true, after) ∧
        after.outOffset.toNat = alignUp request.alignment.toNat cursor.total.toNat ∧
        after.total.toNat = request.exactTotal cursor := by
  obtain ⟨alignment, count, width⟩ := request
  have hpadding := toNat_add_padding halignment cursor.total
  unfold ArrayRequest.append ArrayRequest.exactTotal serializedFileStorageAppendArrayInternal
  dsimp only
  generalize (if cursor.total % alignment ≠ 0 then alignment - cursor.total % alignment else 0) =
    padding at hpadding ⊢
  rw [← hpadding]
  by_cases hfirst : (dxbcSizeAddOverflows cursor.total padding ||
      dxbcSizeMultiplyOverflows count width) = true
  · rw [if_pos hfirst]
    rw [Bool.or_eq_true, sizeAddOverflows_iff, sizeMultiplyOverflows_iff] at hfirst
    exact Or.inl ⟨by omega, rfl⟩
  rw [if_neg hfirst]
  rw [Bool.or_eq_true, sizeAddOverflows_iff, sizeMultiplyOverflows_iff, not_or, not_lt,
    not_lt] at hfirst
  have hoffset := toNat_add_of_fits hfirst.1
  have hsize := toNat_mul_of_fits hfirst.2
  by_cases hsecond : dxbcSizeAddOverflows (cursor.total + padding) (count * width) = true
  · rw [if_pos hsecond]
    rw [sizeAddOverflows_iff, hoffset, hsize] at hsecond
    exact Or.inl ⟨hsecond, rfl⟩
  · rw [if_neg hsecond]
    rw [sizeAddOverflows_iff, not_lt] at hsecond
    have htotal := toNat_add_of_fits hsecond
    rw [hoffset, hsize] at hsecond htotal
    exact Or.inr ⟨hsecond, _, rfl, hoffset, htotal⟩

/-! ## Sequences of calls -/

/-- A call of a sequence, with what it found and what it left. -/
structure AppendStep (w : ℕ) where
  request : ArrayRequest w
  before : StorageCursor w
  accepted : Bool
  after : StorageCursor w
deriving DecidableEq, Repr

def ArrayRequest.step (request : ArrayRequest w) (cursor : StorageCursor w) : AppendStep w :=
  ⟨request, cursor, (request.append cursor).1, (request.append cursor).2⟩

/-- The calls one after another, whether or not those before them succeeded. -/
def appendAll : List (ArrayRequest w) → StorageCursor w → List (AppendStep w) × StorageCursor w
  | [], cursor => ([], cursor)
  | request :: requests, cursor =>
      let step := request.step cursor
      let rest := appendAll requests step.after
      (step :: rest.1, rest.2)

/-- The array of a successful call. -/
def AppendStep.placement (step : AppendStep w) : Option Placement :=
  if step.accepted then
    some ⟨step.after.outOffset.toNat, step.request.count.toNat * step.request.width.toNat⟩
  else none

theorem mem_appendAll {step : AppendStep w} {requests : List (ArrayRequest w)}
    {cursor : StorageCursor w} (h : step ∈ (appendAll requests cursor).1) :
    ∃ request ∈ requests, ∃ before, step = request.step before := by
  induction requests generalizing cursor with
  | nil => cases h
  | cons request requests ih =>
      rcases List.mem_cons.mp h with rfl | h
      · exact ⟨request, List.mem_cons_self, cursor, rfl⟩
      · obtain ⟨other, hmem, before, hstep⟩ := ih h
        exact ⟨other, List.mem_cons_of_mem request hmem, before, hstep⟩

theorem request_appendAll (requests : List (ArrayRequest w)) (cursor : StorageCursor w) :
    (appendAll requests cursor).1.map AppendStep.request = requests := by
  induction requests generalizing cursor with
  | nil => rfl
  | cons request requests ih => rw [appendAll, List.map_cons, ih]; rfl

/-- **A call places its array as unbounded integers do.** -/
theorem placement_step {request : ArrayRequest w} (halignment : request.alignment ≠ 0)
    (cursor : StorageCursor w) :
    (request.step cursor).placement = place (2 ^ w - 1) cursor.total.toNat request.exact ∧
      (request.step cursor).after.total.toNat =
        (request.step cursor).placement.elim cursor.total.toNat Placement.stop := by
  unfold ArrayRequest.step AppendStep.placement
  dsimp only
  rcases append_cases halignment cursor with ⟨hlarge, happend⟩ | ⟨hfits, after, happend, hoffset, htotal⟩
  · rw [happend]
    exact ⟨(place_eq_none_iff.mpr hlarge).symm, rfl⟩
  · rw [happend]
    refine ⟨(place_eq_some_iff.mpr ⟨hfits, ?_⟩).symm, ?_⟩
    · rw [hoffset]
      rfl
    · rw [if_pos rfl, Option.elim_some, Placement.stop, hoffset, htotal]
      rfl

/-- **A sequence of calls is a sequence of placements.** -/
theorem appendAll_placeAll {requests : List (ArrayRequest w)}
    (haligned : ∀ request ∈ requests, request.alignment ≠ 0) (cursor : StorageCursor w) :
    placeAll (2 ^ w - 1) (requests.map ArrayRequest.exact) cursor.total.toNat =
      ((appendAll requests cursor).1.map AppendStep.placement,
        (appendAll requests cursor).2.total.toNat) := by
  induction requests generalizing cursor with
  | nil => rfl
  | cons request requests ih =>
      obtain ⟨hplace, htotal⟩ := placement_step (haligned request List.mem_cons_self) cursor
      have hrest := ih (fun other hother => haligned other (List.mem_cons_of_mem request hother))
        (request.step cursor).after
      rw [appendAll, List.map_cons, placeAll]
      dsimp only
      rw [← hplace, ← htotal, hrest, List.map_cons]

theorem exact_alignment_ne_zero {requests : List (ArrayRequest w)}
    (haligned : ∀ request ∈ requests, request.alignment ≠ 0) :
    ∀ request ∈ requests.map ArrayRequest.exact, request.alignment ≠ 0 := by
  intro exact hmem hzero
  obtain ⟨request, hrequest, rfl⟩ := List.mem_map.mp hmem
  exact haligned request hrequest (BitVec.eq_of_toNat_eq hzero)

/-- **Arrays are laid out exactly.** In any sequence of calls with alignments that are
not zero, from any total: a successful call returns the least multiple of its
alignment that is not below the total, and the new total is exact; a call fails
exactly where the exact total exceeds `SIZE_MAX`, and then changes nothing; the arrays
of the successful calls lie one behind the other between the first total and the
last. -/
theorem serializedFileStorageAppendArray_laid (requests : List (ArrayRequest w))
    (start : StorageCursor w) (haligned : ∀ request ∈ requests, request.alignment ≠ 0) :
    let run := appendAll requests start
    run.1.map AppendStep.request = requests ∧
    (∀ step ∈ run.1,
      (step.accepted = true →
        step.request.alignment.toNat ∣ step.after.outOffset.toNat ∧
        step.before.total.toNat ≤ step.after.outOffset.toNat ∧
        (∀ offset, step.request.alignment.toNat ∣ offset → step.before.total.toNat ≤ offset →
          step.after.outOffset.toNat ≤ offset) ∧
        step.after.total.toNat = step.after.outOffset.toNat +
          step.request.count.toNat * step.request.width.toNat) ∧
      (step.accepted = false ↔ 2 ^ w - 1 < step.request.exactTotal step.before) ∧
      (step.accepted = false → step.after = step.before)) ∧
    Laid start.total.toNat run.2.total.toNat (run.1.map AppendStep.placement).reduceOption ∧
    (run.1.map AppendStep.placement).reduceOption.Pairwise fun first second =>
      Disjoint first.bytes second.bytes := by
  have hlaid : Laid start.total.toNat (appendAll requests start).2.total.toNat
      ((appendAll requests start).1.map AppendStep.placement).reduceOption := by
    have hplaced : Laid start.total.toNat
        (placeAll (2 ^ w - 1) (requests.map ArrayRequest.exact) start.total.toNat).2
        (placeAll (2 ^ w - 1) (requests.map ArrayRequest.exact) start.total.toNat).1.reduceOption :=
      placeAll_laid (exact_alignment_ne_zero haligned)
    rwa [appendAll_placeAll haligned start] at hplaced
  refine ⟨request_appendAll requests start, fun step hmem => ?_, hlaid, hlaid.disjoint⟩
  obtain ⟨request, hrequest, before, rfl⟩ := mem_appendAll hmem
  have halignment := haligned request hrequest
  have hne : request.alignment.toNat ≠ 0 := fun h => halignment (BitVec.eq_of_toNat_eq h)
  rcases append_cases halignment before with
    ⟨hlarge, happend⟩ | ⟨hfits, after, happend, hoffset, htotal⟩
  · have hstep : request.step before = ⟨request, before, false, before⟩ := by
      rw [ArrayRequest.step, happend]
    rw [hstep]
    exact ⟨nofun, iff_of_true rfl hlarge, fun _ => rfl⟩
  · have hstep : request.step before = ⟨request, before, true, after⟩ := by
      rw [ArrayRequest.step, happend]
    rw [hstep]
    refine ⟨fun _ => ?_, iff_of_false nofun (not_lt.mpr hfits), nofun⟩
    have hleast := alignUp_isLeast hne before.total.toNat
    rw [← hoffset] at hleast
    refine ⟨hleast.1.1, hleast.1.2, fun offset hdvd hle => hleast.2 ⟨hdvd, hle⟩, ?_⟩
    rw [htotal, hoffset]
    rfl

/-- Near the end of the range the second array does not fit, and the third does. -/
theorem serializedFileStorageAppendArray_laid_near :
    ((appendAll [⟨8, 3, 5⟩, ⟨8, 0x8000000000000000, 2⟩, ⟨4, 1, 4⟩] (⟨1201, 0⟩ : StorageCursor 64)).1.map
      AppendStep.placement).reduceOption.Pairwise fun first second =>
        Disjoint first.bytes second.bytes :=
  (serializedFileStorageAppendArray_laid _ _ (by decide)).2.2.2

/-! ## The owners -/

/-- The call in unbounded integers is a placement. -/
theorem appendArray_place {total alignment : ℕ} (halignment : alignment ≠ 0)
    (htotal : total ≤ sizeMax) (count width : ℕ) :
    appendArray total alignment count width =
      (place sizeMax total ⟨alignment, count * width⟩).map Placement.stop := by
  have hpadding := add_padding halignment total
  unfold appendArray place
  dsimp only
  generalize (if total % alignment ≠ 0 then alignment - total % alignment else 0) = padding
    at hpadding ⊢
  rw [← hpadding]
  by_cases hfits : total + padding + count * width ≤ sizeMax
  · rw [if_neg (by omega), if_neg (by omega), if_pos hfits]
    rfl
  · rw [if_neg hfits]
    split
    · rfl
    · rw [if_pos (by omega)]
      rfl

/-- **Both calls agree.** -/
theorem appendArray_append {request : ArrayRequest 64} (halignment : request.alignment ≠ 0)
    (cursor : StorageCursor 64) :
    appendArray cursor.total.toNat request.alignment.toNat request.count.toNat
        request.width.toNat =
      if (request.append cursor).1 then some (request.append cursor).2.total.toNat else none := by
  have hne : request.alignment.toNat ≠ 0 := fun h => halignment (BitVec.eq_of_toNat_eq h)
  have hlt := cursor.total.isLt
  rw [appendArray_place hne (by unfold sizeMax; omega)]
  rcases append_cases halignment cursor with ⟨hlarge, happend⟩ | ⟨hfits, after, happend, -, htotal⟩
  · rw [happend, place_eq_none_iff.mpr hlarge]
    rfl
  · rw [happend, place_eq_some_iff.mpr ⟨hfits, rfl⟩]
    exact congrArg some htotal.symm

/-- Another array goes behind those that are laid out. -/
theorem laid_append {start total final alignment count width : ℕ} {placements : List Placement}
    (hlaid : Laid start total placements) (halignment : alignment ≠ 0) (htotal : total ≤ sizeMax)
    (h : appendArray total alignment count width = some final) :
    final ≤ sizeMax ∧ ∃ offset, alignment ∣ offset ∧
      Laid start final (placements ++ [⟨offset, count * width⟩]) := by
  rw [appendArray_place halignment htotal, Option.map_eq_some_iff] at h
  obtain ⟨placement, hplace, rfl⟩ := h
  obtain ⟨hfits, rfl⟩ := place_eq_some_iff.mp hplace
  exact ⟨hfits, _, dvd_alignUp alignment total, hlaid.concat (le_alignUp halignment total)⟩

/-- The tables of a directory. -/
theorem directoryLayout_laid {view : DirectoryView} {total : ℕ}
    (h : directoryLayout view = some total) : ∃ types objects, 8 ∣ types ∧ 8 ∣ objects ∧
      Laid directoryStorageSize total [⟨types, view.typeCount * directoryTypeRowSize⟩,
        ⟨objects, view.objectCount * directoryObjectRowSize⟩] := by
  obtain ⟨first, hfirst, hsecond⟩ := Option.bind_eq_some_iff.mp h
  obtain ⟨hle, types, htypes, hlaid⟩ :=
    laid_append (Laid.nil directoryStorageSize) (by decide) (by decide) hfirst
  obtain ⟨-, objects, hobjects, hlaid⟩ := laid_append hlaid (by decide) hle hsecond
  exact ⟨types, objects, htypes, hobjects, hlaid⟩

/-- The tables of a tail. -/
theorem tailLayout_laid {view : TailView} {total : ℕ} (h : tailLayout view = some total) :
    ∃ scripts externals referenceTypes, 8 ∣ scripts ∧ 8 ∣ externals ∧ 8 ∣ referenceTypes ∧
      Laid tailStorageSize total [⟨scripts, view.scriptCount * tailScriptRowSize⟩,
        ⟨externals, view.externalCount * tailExternalRowSize⟩,
        ⟨referenceTypes, view.referenceTypeCount * tailReferenceTypeRowSize⟩] := by
  obtain ⟨first, hfirst, h⟩ := Option.bind_eq_some_iff.mp h
  obtain ⟨second, hsecond, hthird⟩ := Option.bind_eq_some_iff.mp h
  obtain ⟨hle, scripts, hscripts, hlaid⟩ :=
    laid_append (Laid.nil tailStorageSize) (by decide) (by decide) hfirst
  obtain ⟨hle', externals, hexternals, hlaid⟩ := laid_append hlaid (by decide) hle hsecond
  obtain ⟨-, referenceTypes, hreferenceTypes, hlaid⟩ :=
    laid_append hlaid (by decide) hle' hthird
  exact ⟨scripts, externals, referenceTypes, hscripts, hexternals, hreferenceTypes, hlaid⟩

/-- The row table of a reference index, and the node table of a schema. -/
theorem referenceIndexLayout_laid {count total : ℕ} (h : referenceIndexLayout count = some total) :
    ∃ rows, 8 ∣ rows ∧
      Laid referenceIndexStorageSize total [⟨rows, count * tailReferenceTypeRowSize⟩] :=
  (laid_append (Laid.nil referenceIndexStorageSize) (by decide) (by decide) h).2

theorem schemaLayout_laid {nodeCount total : ℕ} (h : schemaLayout nodeCount = some total) :
    ∃ nodes, 8 ∣ nodes ∧ Laid schemaStorageSize total [⟨nodes, nodeCount * schemaNodeSize⟩] :=
  (laid_append (Laid.nil schemaStorageSize) (by decide) (by decide) h).2

end UnityCommon.Metadata

namespace UnityCommon.ManagedValues

open UnityCommon.Metadata AlignedLayout

variable {limits : ManagedValuesLimits} {answers : ℕ → Bool} {build build' : ManagedBuild}
  {made made' : ℕ}

theorem appendArray_of_planArray {size count width more : ℕ}
    (h : planArray limits size count width answers build made = .ok more build' made') :
    appendArray size 8 count width = some more := by
  obtain ⟨_, _, _, -, happend⟩ := Call.bind_eq_ok.mp h
  cases hmore : appendArray size 8 count width with
  | none =>
      rw [hmore] at happend
      cases happend
  | some more' =>
      rw [hmore] at happend
      cases happend
      rfl

/-- The tables of managed values, in the bytes that the owner retains. -/
theorem allocateValues_laid {view : ManagedView}
    (h : allocateValues limits view answers build made = .ok () build' made') :
    ∃ total cached, build'.storage = some (.zeroed { view with retainedBytes := total } cached) ∧
      ∃ values types rows slots, 8 ∣ values ∧ 8 ∣ types ∧ 8 ∣ rows ∧ 8 ∣ slots ∧
        Laid managedStorageSize total [⟨values, view.plan.valueCount * managedValueSize⟩,
          ⟨types, view.plan.selectedTypeCount * managedSelectedTypeSize⟩,
          ⟨rows, view.plan.registryRowCount * registryRowSize⟩,
          ⟨slots, view.plan.ridSlotCount * ridSlotSize⟩] := by
  obtain ⟨first, _, _, hfirst, h⟩ := Call.bind_eq_ok.mp h
  obtain ⟨second, _, _, hsecond, h⟩ := Call.bind_eq_ok.mp h
  obtain ⟨third, _, _, hthird, h⟩ := Call.bind_eq_ok.mp h
  obtain ⟨total, _, _, htotal, h⟩ := Call.bind_eq_ok.mp h
  obtain ⟨_, _, _, -, h⟩ := Call.bind_eq_ok.mp h
  obtain ⟨_, _, _, -, h⟩ := Call.bind_eq_ok.mp h
  obtain ⟨_, _, _, -, h⟩ := Call.bind_eq_ok.mp h
  obtain ⟨_, last, _, -, h⟩ := Call.bind_eq_ok.mp h
  cases h
  refine ⟨total, last.types, rfl, ?_⟩
  obtain ⟨hle, values, hvalues, hlaid⟩ := laid_append (Laid.nil managedStorageSize) (by decide)
    (by decide) (appendArray_of_planArray hfirst)
  obtain ⟨hle, types, htypes, hlaid⟩ :=
    laid_append hlaid (by decide) hle (appendArray_of_planArray hsecond)
  obtain ⟨hle, rows, hrows, hlaid⟩ :=
    laid_append hlaid (by decide) hle (appendArray_of_planArray hthird)
  obtain ⟨-, slots, hslots, hlaid⟩ :=
    laid_append hlaid (by decide) hle (appendArray_of_planArray htotal)
  exact ⟨values, types, rows, slots, hvalues, htypes, hrows, hslots, hlaid⟩

end UnityCommon.ManagedValues
