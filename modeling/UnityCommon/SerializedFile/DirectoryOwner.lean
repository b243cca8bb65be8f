import UnityCommon.SerializedFile.DirectoryScan
import UnityCommon.SerializedFile.TwoPass

/-!
# Constructing a directory

The two passes as one run. What a directory is made of is decided by the file
alone; the limits, the mapping and the allocator decide whether it gets that
far.
-/

namespace UnityCommon.Metadata

/-- The metadata behind a prefix. -/
def metadataSource (text : Text) (prefixView : PrefixView) : MetadataSource where
  bytes := text
  metadataEnd := prefixView.header.metadataToDataGap.offset
  endianSelector := prefixView.header.endianSelector

/-- What a directory is made of. -/
structure DirectoryPlan where
  prefixView : PrefixView
  prefixCost : PrefixCost
  directory : SerializedFileDirectory
  cost : ScanCost
  retainedBytes : ℕ

namespace DirectoryPlan

variable (plan : DirectoryPlan)

/-- Where the metadata goes on behind the prefix. -/
def start : ℕ := plan.prefixView.remainingMetadata.offset

/-- The work of the admission. -/
def admissionWork : ℕ := plan.prefixCost.work + plan.prefixView.versionSource.size

/-- The work of the construction: every row is read twice. -/
def workUsed : ℕ := plan.admissionWork + 2 * plan.cost.work + plan.retainedBytes + 2

def owner : SerializedFileDirectory :=
  { plan.directory with view := { plan.directory.view with retainedBytes := plan.retainedBytes } }

/-- The state that a construction ends in. -/
def finalState : ScanState :=
  constructed plan.admissionWork plan.start plan.retainedBytes plan.cost

/-- What the limits do not cover. -/
def Short (limits : DirectoryLimits) (mappedSize : ℕ) (granted : Bool) : OwnerResource → Prop
  | .prefixed k =>
      ((PrefixLimits.mk limits.maxVersionBytes limits.maxWork).budget mappedSize).Short k 0
        plan.prefixCost
  | k => constructShort (limits.budget mappedSize) limits.maxRetainedBytes granted
      plan.admissionWork plan.start plan.retainedBytes plan.cost k

end DirectoryPlan

/-- **The directory of a file**, before any limit. -/
def directoryPlan (text : Text) (logicalSize : ℕ) (engineVersion : DirectoryEngineVersion) :
    Option DirectoryPlan := do
  let (prefixView, prefixCost) ← prefixFormat text logicalSize 0
  if prefixView.versionSource.bytes text = engineVersion.expectedVersion ∧
      prefixView.typeTreeEnabledRaw ≤ 1 then
    let (directory, cost) ← (metadataSource text prefixView).directory engineVersion prefixView
      none none prefixView.remainingMetadata.offset
    let retainedBytes ← directoryLayout directory.view
    return { prefixView, prefixCost, directory, cost, retainedBytes }
  else none

theorem directoryPlan_eq_some {text : Text} {logicalSize : ℕ}
    {engineVersion : DirectoryEngineVersion} {plan : DirectoryPlan} :
    directoryPlan text logicalSize engineVersion = some plan ↔
      prefixFormat text logicalSize 0 = some (plan.prefixView, plan.prefixCost) ∧
      plan.prefixView.versionSource.bytes text = engineVersion.expectedVersion ∧
      plan.prefixView.typeTreeEnabledRaw ≤ 1 ∧
      (metadataSource text plan.prefixView).directory engineVersion plan.prefixView none none
        plan.start = some (plan.directory, plan.cost) ∧
      directoryLayout plan.directory.view = some plan.retainedBytes := by
  unfold directoryPlan
  simp only [Option.bind_eq_bind, Option.bind_eq_some_iff, Prod.exists]
  constructor
  · rintro ⟨prefixView, prefixCost, hhead, h⟩
    split_ifs at h with hgate
    simp only [Option.bind_eq_some_iff, Prod.exists] at h
    obtain ⟨directory, cost, hscan, retained, hlayout, hplan⟩ := h
    cases hplan
    exact ⟨hhead, hgate.1, hgate.2, hscan, hlayout⟩
  · rintro ⟨hhead, hversion, hflag, hscan, hlayout⟩
    refine ⟨plan.prefixView, plan.prefixCost, hhead, ?_⟩
    rw [if_pos ⟨hversion, hflag⟩]
    simp only [Option.bind_eq_some_iff, Prod.exists]
    exact ⟨plan.directory, plan.cost, hscan, plan.retainedBytes, hlayout, rfl⟩

/-- The resource a rejected construction reports; a rejected prefix has a result
of its own. -/
def DirectoryReject.Blames (queried : PrefixResult) (mappedSize : ℕ) (reject : DirectoryReject) :
    OwnerResource → Prop
  | .prefixed k => reject.status = .prefixRejected ∧ reject.errorOffset = queried.errorOffset ∧
      PrefixReject.Cites mappedSize ⟨queried.status, queried.errorOffset⟩ k
  | .scan k => reject.Cites mappedSize k
  | .retained => reject.status = .limitExceeded ∧ reject.limit = .retainedBytes
  | .storage => reject.status = .allocationFailed

section

variable {limits : DirectoryLimits} {queried : PrefixResult} {mappedSize : ℕ} {state : ScanState}
  {answers : ℕ → Bool} {n : ℕ}

theorem needs_chargeDirectoryWork (queried : PrefixResult) (mappedSize : ℕ)
    (answers : ℕ → Bool) (n : ℕ) (hs : state.Within limits.maxWork) (amount : ℕ)
    (field : DirectoryField) (rowOrdinal : Option ℕ) (errorOffset : ℕ) :
    (chargeDirectoryWork limits amount field rowOrdinal errorOffset).Needs
      (ScanState.Within limits.maxWork) (DirectoryReject.Blames queried mappedSize) answers state n
      (workShort limits.maxWork (state.workUsed + amount)) () (state.charged amount) n := by
  have hle : state.workUsed ≤ limits.maxWork := hs
  unfold chargeDirectoryWork
  by_cases hshort : limits.maxWork < state.workUsed + amount
  · refine Or.inr ⟨rejectLimit .work field rowOrdinal errorOffset, state, n, .scan .work, ?_, hs,
      ⟨rfl, rfl⟩, rfl, hshort⟩
    exact Call.bind_eq_error.mpr (Or.inr ⟨_, _, _, rfl,
      Call.bind_eq_error.mpr (Or.inl (if_neg (by omega)))⟩)
  · refine Or.inl ⟨fun k hk => hshort hk.2, Call.bind_eq_ok.mpr ⟨_, _, _, rfl, ?_⟩⟩
    exact Call.require_bind_eq_ok.mpr ⟨by omega, rfl⟩

/-- The comparison of the version charges every byte of it. -/
theorem needs_compareVersion (queried : PrefixResult) (mappedSize : ℕ) (answers : ℕ → Bool)
    (n : ℕ) (state : ScanState) (hs : state.Within limits.maxWork) {bytes expected : Text}
    (hmatch : bytes <+: expected) (offset : ℕ) :
    (compareVersion limits bytes expected offset).Needs
      (ScanState.Within limits.maxWork) (DirectoryReject.Blames queried mappedSize) answers state n
      (workShort limits.maxWork (state.workUsed + bytes.length)) () (state.charged bytes.length)
      n := by
  induction bytes generalizing expected offset state with
  | nil =>
      refine (Call.needs_pure ()).short_congr fun k => ?_
      exact iff_of_false (fun h => absurd h.2 (Nat.not_lt.mpr hs)) id
  | cons byte bytes ih =>
      obtain ⟨rest, rfl⟩ := hmatch
      have hcharge := needs_chargeDirectoryWork queried mappedSize answers n hs 1 .engineVersion
        none offset
      rw [List.length_cons, Nat.add_comm bytes.length, ← ScanState.charged_charged]
      refine (hcharge.bind fun hroom => (Call.needs_require_true (by rfl) _).bind fun _ =>
        ih _ (room_workShort.mp hroom) ⟨rest, rfl⟩ _).short_congr fun k => ?_
      by_cases hk : k = .scan .work <;> simp [workShort, hk]
      omega

/-- Another version is refused, at the latest at its first other byte. -/
theorem stops_compareVersion (hs : state.Within limits.maxWork) {bytes expected : Text}
    (hmatch : ¬ bytes <+: expected) (offset : ℕ) :
    (compareVersion limits bytes expected offset).Stops (ScanState.Within limits.maxWork) answers state
      n := by
  induction bytes generalizing expected offset state with
  | nil => exact absurd List.nil_prefix hmatch
  | cons byte bytes ih =>
      have hcharge := needs_chargeDirectoryWork ⟨.ok, 0, 0⟩ 0 answers n hs 1 .engineVersion
        none offset
      refine hcharge.stops_bind fun hroom => ?_
      have hs' : (state.charged 1).Within limits.maxWork := room_workShort.mp hroom
      by_cases hbyte : expected.head? = some byte
      · obtain ⟨rest, rfl⟩ := List.head?_eq_some_iff.mp hbyte
        refine Call.Stops.require_bind hbyte (ih hs' (fun h => hmatch ?_) _)
        exact List.cons_prefix_cons.mpr ⟨rfl, h⟩
      · refine Call.Stops.bind ?_
        exact ⟨_, _, _, if_neg hbyte, hs'⟩

end

/-! ## Admission -/

section

variable {text mapped : Text} {logicalSize : ℕ}

/-- A query that starts with no work. -/
theorem PrefixLimits.follows_prefixFormat (limits : PrefixLimits) (hmapped : mapped <+: text)
    (logicalSize : ℕ) :
    (limits.budget mapped.length).meter.Follows (PrefixReject.Cites mapped.length) 0
      (queryPrefix mapped logicalSize limits) (prefixFormat text logicalSize) :=
  have hs : 0 ≤ (limits.budget mapped.length).maxWork := Nat.zero_le _
  follows_queryPrefix hs rfl rfl hmapped rfl logicalSize

/-- The query of a prefix that is there. -/
theorem prefixQuery_planned (hmapped : mapped <+: text) (hle : mapped.length ≤ logicalSize)
    (limits : PrefixLimits) {view : PrefixView} {d : PrefixCost}
    (hP : prefixFormat text logicalSize 0 = some (view, d)) :
    ((∀ k, ¬ (limits.budget mapped.length).Short k 0 d) ∧
        serializedFilePrefixQuery mapped logicalSize limits =
          (⟨.ok, d.work, noOffset⟩, some view)) ∨
      ∃ result k, serializedFilePrefixQuery mapped logicalSize limits = (result, none) ∧
        result.workUsed ≤ limits.maxWork ∧
        PrefixReject.Cites mapped.length ⟨result.status, result.errorOffset⟩ k ∧
        (limits.budget mapped.length).Short k 0 d := by
  have hfollows := limits.follows_prefixFormat hmapped logicalSize
  unfold serializedFilePrefixQuery
  rw [if_neg (Nat.not_lt.mpr hle), prefixResult]
  rcases hfollows.accepted Call.granted 0 view d hP with ⟨hroom, hok⟩ | ⟨e, u, k, herr, hu, hc, hk⟩
  · rw [hok]
    refine Or.inl ⟨hroom, ?_⟩
    show (PrefixResult.mk .ok (0 + d.work) noOffset, some view) = _
    rw [Nat.zero_add]
  · rw [herr]
    exact Or.inr ⟨_, k, rfl, hu, hc, hk⟩

theorem prefixQuery_refused (hmapped : mapped <+: text) (hle : mapped.length ≤ logicalSize)
    (limits : PrefixLimits) (hP : prefixFormat text logicalSize 0 = none) :
    ∃ result, serializedFilePrefixQuery mapped logicalSize limits = (result, none) ∧
      result.workUsed ≤ limits.maxWork := by
  have hfollows := limits.follows_prefixFormat hmapped logicalSize
  unfold serializedFilePrefixQuery
  rw [if_neg (Nat.not_lt.mpr hle), prefixResult]
  obtain ⟨e, u, herr, hu⟩ := hfollows.refused Call.granted 0 hP
  rw [herr]
  exact ⟨_, rfl, hu⟩

variable {engineVersion : DirectoryEngineVersion} {limits : DirectoryLimits} {answers : ℕ → Bool}
  {n : ℕ} {view : PrefixView} {d : PrefixCost}

/-- What the admission of a prefix may be short of. -/
def admissionShort (limits : DirectoryLimits) (mappedSize : ℕ) (view : PrefixView)
    (d : PrefixCost) (k : OwnerResource) : Prop :=
  (∃ k', k = .prefixed k' ∧
    ((PrefixLimits.mk limits.maxVersionBytes limits.maxWork).budget mappedSize).Short k' 0 d) ∨
  workShort limits.maxWork (d.work + view.versionSource.size) k ∨
  (k = .scan .bytes ∧ limits.maxMetadataBytes < view.metadataPrefixSource.size)

/-- The state after an admission. -/
def admittedState (view : PrefixView) (d : PrefixCost) : ScanState :=
  { ScanState.init with workUsed := d.work }.charged view.versionSource.size

/-- The version of an admitted prefix is mapped. -/
theorem versionBytes_mapped (hmapped : mapped <+: text)
    (hP : prefixFormat text logicalSize 0 = some (view, d))
    (hroom : d.extent ≤ mapped.length) :
    view.versionSource.bytes mapped = view.versionSource.bytes text ∧
      (view.versionSource.bytes text).length = view.versionSource.size := by
  obtain ⟨-, versionSize, -, -, rfl, rfl⟩ := prefixFormat_eq_some.mp hP
  have hextent : v22HeaderSize + versionSize + 6 ≤ mapped.length := hroom
  have hbytes : (PrefixSpan.mk v22HeaderSize versionSize).bytes mapped =
      (PrefixSpan.mk v22HeaderSize versionSize).bytes text :=
    PrefixSpan.bytes_of_mapped hmapped (by omega)
  refine ⟨hbytes, ?_⟩
  show ((PrefixSpan.mk v22HeaderSize versionSize).bytes text).length = versionSize
  rw [← hbytes, PrefixSpan.bytes, List.length_take, List.length_drop]
  show min versionSize (mapped.length - v22HeaderSize) = versionSize
  omega

/-- The prefix itself counts as metadata. -/
theorem needs_admitMetadataBytes (queried : PrefixResult) (mappedSize : ℕ) {state : ScanState}
    (hs : state.Within limits.maxWork) (view : PrefixView) :
    (Call.require (view.metadataPrefixSource.size ≤ limits.maxMetadataBytes)
      (rejectLimit .metadataBytes .none none view.remainingMetadata.offset)).Needs
      (ScanState.Within limits.maxWork) (DirectoryReject.Blames queried mappedSize) answers state n
      (fun k => k = .scan .bytes ∧ limits.maxMetadataBytes < view.metadataPrefixSource.size) ()
      state n := by
  refine Call.needs_require hs ?_ fun hover => ⟨.scan .bytes, ⟨rfl, rfl⟩, rfl, by omega⟩
  simp

theorem needs_admitPrefix (limits : DirectoryLimits) (answers : ℕ → Bool) (n : ℕ)
    (hmapped : mapped <+: text) (hle : mapped.length ≤ logicalSize)
    (hP : prefixFormat text logicalSize 0 = some (view, d))
    (hversion : view.versionSource.bytes text = engineVersion.expectedVersion)
    (hflag : view.typeTreeEnabledRaw ≤ 1) :
    (admitPrefix mapped logicalSize engineVersion limits).Needs (ScanState.Within limits.maxWork)
      (DirectoryReject.Blames (serializedFilePrefixQuery mapped logicalSize
        ⟨limits.maxVersionBytes, limits.maxWork⟩).1 mapped.length) answers .init n
      (admissionShort limits mapped.length view d) view
      (admittedState view d) n := by
  unfold admitPrefix
  rcases prefixQuery_planned hmapped hle ⟨limits.maxVersionBytes, limits.maxWork⟩ hP with
    ⟨hroom, hquery⟩ | ⟨result, k, hquery, hwork, hcites, hshort⟩
  · rw [hquery]
    have hs : d.work ≤ limits.maxWork := by
      have hfits : ¬ limits.maxWork < 0 + d.work := hroom .work
      omega
    obtain ⟨hbytes, hlength⟩ := versionBytes_mapped hmapped hP (Nat.le_of_not_lt (hroom .mapping))
    have hmatch : view.versionSource.bytes mapped = engineVersion.expectedVersion :=
      hbytes.trans hversion
    have hsize : view.versionSource.size = engineVersion.expectedVersion.length := by
      rw [← hlength, hversion]
    have hself : view.versionSource.bytes mapped <+: engineVersion.expectedVersion :=
      ⟨[], by rw [List.append_nil, hmatch]⟩
    have hcompare := needs_compareVersion ⟨.ok, d.work, noOffset⟩ mapped.length answers n
      { ScanState.init with workUsed := d.work } hs hself view.versionSource.offset
    rw [hbytes, hlength] at hcompare
    rw [← hbytes] at hcompare
    dsimp only
    refine ((Call.needs_modify _).bind fun _ => (Call.needs_ofOption_some view _).bind fun _ =>
      hcompare.bind fun hroom' => (Call.needs_require_true hsize _).bind fun _ =>
      (Call.needs_require_true hflag _).bind fun _ =>
      (needs_admitMetadataBytes _ _ (room_workShort.mp hroom') view).bind fun _ =>
      Call.needs_pure view).short_congr fun k => ?_
    simp only [admissionShort, false_or, or_false]
    refine or_iff_right ?_
    rintro ⟨k', rfl, hk⟩
    exact hroom k' hk
  · rw [hquery]
    refine Or.inr ⟨_, _, n, .prefixed k, Call.bind_eq_error.mpr (Or.inr ⟨_, _, _, rfl,
      Call.bind_eq_error.mpr (Or.inl rfl)⟩), hwork, ⟨rfl, rfl, hcites⟩, Or.inl ⟨k, rfl, hshort⟩⟩

theorem stops_admitPrefix (hmapped : mapped <+: text) (hle : mapped.length ≤ logicalSize)
    (hrefused : ∀ view d, prefixFormat text logicalSize 0 = some (view, d) →
      ¬ (view.versionSource.bytes text = engineVersion.expectedVersion ∧
        view.typeTreeEnabledRaw ≤ 1)) :
    (admitPrefix mapped logicalSize engineVersion limits).Stops
      (ScanState.Within limits.maxWork) answers .init n := by
  unfold admitPrefix
  cases hP : prefixFormat text logicalSize 0 with
  | none =>
      obtain ⟨result, hquery, hwork⟩ :=
        prefixQuery_refused hmapped hle ⟨limits.maxVersionBytes, limits.maxWork⟩ hP
      rw [hquery]
      exact ⟨_, _, n, Call.bind_eq_error.mpr (Or.inr ⟨_, _, _, rfl,
        Call.bind_eq_error.mpr (Or.inl rfl)⟩), hwork⟩
  | some r =>
      obtain ⟨view, d⟩ := r
      rcases prefixQuery_planned hmapped hle ⟨limits.maxVersionBytes, limits.maxWork⟩ hP with
        ⟨hroom, hquery⟩ | ⟨result, k, hquery, hwork, -, -⟩
      · rw [hquery]
        have hs : ScanState.Within limits.maxWork { ScanState.init with workUsed := d.work } := by
          have hfits : ¬ limits.maxWork < 0 + d.work := hroom .work
          show d.work ≤ limits.maxWork
          omega
        -- the prefix is read, and refused for its version or its flag
        obtain ⟨hbytes, hlength⟩ :=
          versionBytes_mapped hmapped hP (Nat.le_of_not_lt (hroom .mapping))
        refine Call.Stops.bind_ok rfl (Call.Stops.bind_ok rfl ?_)
        by_cases hmatch : view.versionSource.bytes mapped <+: engineVersion.expectedVersion
        · have hcompare := needs_compareVersion ⟨.ok, d.work, noOffset⟩ mapped.length answers n
            { ScanState.init with workUsed := d.work } hs hmatch view.versionSource.offset
          refine hcompare.stops_bind fun hroom' => ?_
          have hs' := room_workShort.mp hroom'
          by_cases hsize : view.versionSource.size = engineVersion.expectedVersion.length
          · refine Call.Stops.require_bind hsize ?_
            have hversion : view.versionSource.bytes text = engineVersion.expectedVersion := by
              rw [← hbytes]
              refine hmatch.eq_of_length ?_
              rw [hbytes, hlength, hsize]
            have hflag : ¬ view.typeTreeEnabledRaw ≤ 1 := fun h => hrefused view d hP ⟨hversion, h⟩
            refine Call.Stops.bind ?_
            exact ⟨_, _, _, if_neg hflag, hs'⟩
          · refine Call.Stops.bind ?_
            exact ⟨_, _, _, if_neg hsize, hs'⟩
        · exact (stops_compareVersion hs hmatch _).bind
      · rw [hquery]
        exact ⟨_, _, n, Call.bind_eq_error.mpr (Or.inr ⟨_, _, _, rfl,
          Call.bind_eq_error.mpr (Or.inl rfl)⟩), hwork⟩

end

/-! ## The two passes -/

namespace MetadataSource

/-- A pass that expects what it finds finds the same. -/
theorem directory_planned {source : MetadataSource} {engineVersion : DirectoryEngineVersion}
    {prefixView : PrefixView} {at_ : ℕ} {directory : SerializedFileDirectory} {d : ScanCost}
    (h : source.directory engineVersion prefixView none none at_ = some (directory, d)) :
    source.directory engineVersion prefixView (some directory.view.typeCount)
      (some directory.view.objectCount) at_ = some (directory, d) := by
  obtain ⟨⟨_, typeCount⟩, d₁, _, htypes, h₁, rfl⟩ := Decoder.bind_eq_some.mp h
  obtain ⟨typeWord, hread, rfl, -, rfl⟩ := tableCount_eq_some.mp htypes
  obtain ⟨_, d₂, _, hstart, h₂, rfl⟩ := Decoder.bind_eq_some.mp h₁
  obtain ⟨types, d₃, _, hrows, h₃, rfl⟩ := Decoder.bind_eq_some.mp h₂
  obtain ⟨_, d₄, _, hstop, h₄, rfl⟩ := Decoder.bind_eq_some.mp h₃
  obtain ⟨⟨_, objectCount⟩, d₅, _, hobjects, h₅, rfl⟩ := Decoder.bind_eq_some.mp h₄
  obtain ⟨objectWord, hread', rfl, -, rfl⟩ := tableCount_eq_some.mp hobjects
  have hview : directory.view.typeCount = typeWord.toNat ∧
      directory.view.objectCount = objectWord.toNat := by
    obtain ⟨_, d₆, _, hposition, h₆, -⟩ := Decoder.bind_eq_some.mp h₅
    obtain ⟨_, d₇, _, hpadding, h₇, -⟩ := Decoder.bind_eq_some.mp h₆
    obtain ⟨_, d₈, _, hstart', h₈, -⟩ := Decoder.bind_eq_some.mp h₇
    obtain ⟨objects, d₉, _, hrows', h₉, -⟩ := Decoder.bind_eq_some.mp h₈
    obtain ⟨_, d₁₀, _, hend, hp, -⟩ := Decoder.bind_eq_some.mp h₉
    obtain ⟨rfl, -⟩ := Decoder.pure_eq_some.mp hp
    exact ⟨rfl, rfl⟩
  rw [hview.1, hview.2]
  refine Decoder.bind_eq_some.mpr ⟨_, _, _,
    tableCount_eq_some.mpr ⟨_, hread, rfl, by simp, rfl⟩, ?_, rfl⟩
  refine Decoder.bind_eq_some.mpr ⟨_, _, _, hstart, ?_, rfl⟩
  refine Decoder.bind_eq_some.mpr ⟨_, _, _, hrows, ?_, rfl⟩
  refine Decoder.bind_eq_some.mpr ⟨_, _, _, hstop, ?_, rfl⟩
  exact Decoder.bind_eq_some.mpr ⟨_, _, _,
    tableCount_eq_some.mpr ⟨_, hread', rfl, by simp, rfl⟩, h₅, rfl⟩

end MetadataSource

section

variable {text mapped : Text} {logicalSize : ℕ} {engineVersion : DirectoryEngineVersion}
  {limits : DirectoryLimits} {answers : ℕ → Bool} {n : ℕ} {state : ScanState}

theorem directoryReader_within (hmapped : mapped <+: text) (prefixView : PrefixView) :
    (directoryReader mapped limits prefixView).Within (metadataSource text prefixView)
      (limits.budget mapped.length) where
  mapped := hmapped
  metadataEnd := rfl
  endianSelector := rfl
  mappedSize := rfl
  origin := rfl
  maxBytes := rfl
  maxWork := rfl

/-- One pass of the scanner. -/
theorem needs_scanDirectory (queried : PrefixResult) (answers : ℕ → Bool) (n : ℕ)
    (hmapped : mapped <+: text) (hs : (limits.budget mapped.length).Sound state)
    {prefixView : PrefixView} {plannedTypes plannedObjects : Option ℕ}
    (hnodes : state.nodeRecords = 0) (hstrings : state.stringBytes = 0)
    (hwords : state.dependencyWords = 0) {directory : SerializedFileDirectory} {d : ScanCost}
    (hP : (metadataSource text prefixView).directory engineVersion prefixView plannedTypes
      plannedObjects state.position = some (directory, d)) :
    (scanDirectory (directoryReader mapped limits prefixView) limits engineVersion prefixView
      plannedTypes plannedObjects).Needs (ScanState.Within limits.maxWork)
      (DirectoryReject.Blames queried mapped.length) answers state n
      (scanShort fun k => (limits.budget mapped.length).Short k state d) directory
      (state.advance d) n := by
  have hfollows := follows_scanDirectory (directoryReader_within hmapped prefixView) hs
    engineVersion prefixView plannedTypes plannedObjects hnodes hstrings hwords
  refine (hfollows.needs hP answers n).map (fun u hu => ?_) (fun e k hc hk => ⟨.scan k, hc, hk⟩)
    fun hroom k hk => ?_
  · exact Nat.le_of_not_lt (hu.fits .work)
  · cases k with
    | scan k => exact hroom k hk
    | _ => exact hk

theorem stops_scanDirectory (hmapped : mapped <+: text)
    (hs : (limits.budget mapped.length).Sound state) {prefixView : PrefixView}
    (hnodes : state.nodeRecords = 0) (hstrings : state.stringBytes = 0)
    (hwords : state.dependencyWords = 0)
    (hP : (metadataSource text prefixView).directory engineVersion prefixView none none
      state.position = none) :
    (scanDirectory (directoryReader mapped limits prefixView) limits engineVersion prefixView
      none none).Stops (ScanState.Within limits.maxWork) answers state n := by
  have hfollows := follows_scanDirectory (directoryReader_within hmapped prefixView) hs
    engineVersion prefixView none none hnodes hstrings hwords
  exact (hfollows.stops hP answers n).mono fun u hu => Nat.le_of_not_lt (hu.fits .work)

/-- The storage is planned for one unit of work. -/
theorem needs_planDirectoryStorage (queried : PrefixResult) (mappedSize : ℕ)
    (answers : ℕ → Bool) (n : ℕ) (hs : state.Within limits.maxWork) {view : DirectoryView}
    {total : ℕ} (hlayout : directoryLayout view = some total) :
    (planDirectoryStorage limits view).Needs (ScanState.Within limits.maxWork)
      (DirectoryReject.Blames queried mappedSize) answers state n
      (fun k => workShort limits.maxWork (state.workUsed + 1) k ∨
        (k = .retained ∧ limits.maxRetainedBytes < total)) total
      { state.charged 1 with requiredRetainedBytes := total } n := by
  have hcharge := needs_chargeDirectoryWork queried mappedSize answers n hs 1 .none none noOffset
  have hlimit : ∀ s : ScanState, s.Within limits.maxWork →
      (Call.require (total ≤ limits.maxRetainedBytes)
        (rejectLimit .retainedBytes .none none noOffset)).Needs (ScanState.Within limits.maxWork)
        (DirectoryReject.Blames queried mappedSize) answers s n
        (fun k => k = .retained ∧ limits.maxRetainedBytes < total) () s n := by
    intro s hs
    refine Call.needs_require hs ?_ fun hover =>
      ⟨.retained, ⟨rfl, rfl⟩, rfl, Nat.lt_of_not_le hover⟩
    simp
  unfold planDirectoryStorage
  rw [hlayout]
  refine (hcharge.bind fun hroom => (Call.needs_ofOption_some total _).bind fun _ =>
    (Call.needs_modify _).bind fun _ => (hlimit _ (room_workShort.mp hroom)).bind fun _ =>
    Call.needs_pure total).short_congr fun k => ?_
  simp

/-- What follows the admission. -/
def constructDirectory (mapped : Text) (engineVersion : DirectoryEngineVersion)
    (limits : DirectoryLimits) (prefixView : PrefixView) :
    Call DirectoryReject ScanState SerializedFileDirectory :=
  construct
    (fun planned : Option (ℕ × ℕ) =>
      scanDirectory (directoryReader mapped limits prefixView) limits engineVersion prefixView
        (planned.map Prod.fst) (planned.map Prod.snd))
    (fun directory => planDirectoryStorage limits directory.view) (chargeDirectoryOwner limits)
    ⟨.allocationFailed, .none, .none, none, noOffset⟩ prefixView.remainingMetadata.offset
    (fun directory => (directory.view.typeCount, directory.view.objectCount))
    fun total directory =>
      { directory with view := { directory.view with retainedBytes := total } }

theorem createDirectory_eq (mapped : Text) (logicalSize : ℕ)
    (engineVersion : DirectoryEngineVersion) (limits : DirectoryLimits) :
    createDirectory mapped logicalSize engineVersion limits =
      (admitPrefix mapped logicalSize engineVersion limits >>=
        constructDirectory mapped engineVersion limits) := rfl

/-- Where a prefix ends and the rows begin. -/
theorem prefix_start {prefixView : PrefixView} {prefixCost : PrefixCost}
    (h : prefixFormat text logicalSize 0 = some (prefixView, prefixCost)) :
    prefixCost.extent = prefixView.remainingMetadata.offset ∧
      prefixView.metadataPrefixSource.size =
        prefixView.remainingMetadata.offset - v22HeaderSize ∧
      v22HeaderSize ≤ prefixView.remainingMetadata.offset := by
  obtain ⟨-, versionSize, -, -, rfl, rfl⟩ := prefixFormat_eq_some.mp h
  exact ⟨rfl, rfl, Nat.le_trans (Nat.le_add_right _ _) (Nat.le_add_right _ _)⟩

/-- What an admission leaves room for. -/
theorem room_admission {view : PrefixView} {d : PrefixCost}
    (hroom : ∀ k, ¬ admissionShort limits mapped.length view d k) :
    d.extent ≤ mapped.length ∧ view.metadataPrefixSource.size ≤ limits.maxMetadataBytes ∧
      d.work + view.versionSource.size ≤ limits.maxWork := by
  refine ⟨Nat.le_of_not_lt fun h => hroom (.prefixed .mapping) (Or.inl ⟨.mapping, rfl, h⟩),
    Nat.le_of_not_lt fun h => hroom (.scan .bytes) (Or.inr (Or.inr ⟨rfl, h⟩)),
    Nat.le_of_not_lt fun h => hroom (.scan .work) (Or.inr (Or.inl ⟨rfl, h⟩))⟩

/-- **A directory that is there.** -/
theorem needs_createDirectory (limits : DirectoryLimits) (answers : ℕ → Bool) (n : ℕ)
    (hmapped : mapped <+: text) (hle : mapped.length ≤ logicalSize)
    {plan : DirectoryPlan} (hplan : directoryPlan text logicalSize engineVersion = some plan) :
    (createDirectory mapped logicalSize engineVersion limits).Needs
      (ScanState.Within limits.maxWork)
      (DirectoryReject.Blames (serializedFilePrefixQuery mapped logicalSize
        ⟨limits.maxVersionBytes, limits.maxWork⟩).1 mapped.length) answers .init n
      (plan.Short limits mapped.length (answers n)) plan.owner plan.finalState (n + 1) := by
  obtain ⟨hhead, hversion, hflag, hscan, hlayout⟩ := directoryPlan_eq_some.mp hplan
  have hgate := needs_admitPrefix limits answers n hmapped hle hhead hversion hflag
  generalize (serializedFilePrefixQuery mapped logicalSize
    ⟨limits.maxVersionBytes, limits.maxWork⟩).1 = queried at hgate ⊢
  obtain ⟨hextent, hsize, horigin⟩ := prefix_start hhead
  have hbuild : (∀ k, ¬ admissionShort limits mapped.length plan.prefixView plan.prefixCost k) →
      (constructDirectory mapped engineVersion limits plan.prefixView).Needs
        (ScanState.Within limits.maxWork) (DirectoryReject.Blames queried mapped.length) answers
        (admittedState plan.prefixView plan.prefixCost) n
        (constructShort (limits.budget mapped.length) limits.maxRetainedBytes (answers n)
          plan.admissionWork plan.start plan.retainedBytes plan.cost)
        plan.owner plan.finalState (n + 1) := by
    intro hroom
    obtain ⟨hmap, hbytes, hwork⟩ := room_admission hroom
    refine needs_construct (limits.budget mapped.length) limits.maxRetainedBytes
      plan.retainedBytes plan.directory plan.cost ?_ ?_ ?_ ?_ horigin ?_ ?_ hwork
    · intro s amount m hs
      exact needs_chargeDirectoryWork queried mapped.length answers m hs amount _ _ _
    · intro planned s m hplanned hfresh hs
      refine needs_scanDirectory queried answers m hmapped hs hfresh.nodes hfresh.strings
        hfresh.words ?_
      rw [hfresh.position]
      rcases hplanned with rfl | rfl
      · exact hscan
      · exact MetadataSource.directory_planned hscan
    · intro s m hs
      exact needs_planDirectoryStorage queried mapped.length answers m hs hlayout
    · exact rfl
    · exact hextent ▸ hmap
    · show plan.prefixView.remainingMetadata.offset ≤ v22HeaderSize + limits.maxMetadataBytes
      omega
  rw [createDirectory_eq]
  refine (hgate.bind hbuild).short_congr fun k => ?_
  -- the construction needs what the admission does, but for the prefix
  cases k with
  | prefixed k => simp [DirectoryPlan.Short, admissionShort, constructShort, workShort]
  | scan k =>
      cases k <;> simp [DirectoryPlan.Short, admissionShort, constructShort, workShort]
      case bytes =>
        intro hover
        show v22HeaderSize + limits.maxMetadataBytes <
          plan.prefixView.remainingMetadata.offset + plan.cost.bytes
        omega
      case work =>
        intro hover
        show limits.maxWork < plan.prefixCost.work + plan.prefixView.versionSource.size +
          2 * plan.cost.work + plan.retainedBytes + 2
        omega
  | _ => simp [DirectoryPlan.Short, admissionShort, constructShort, workShort]

theorem stops_planDirectoryStorage (hs : state.Within limits.maxWork) {view : DirectoryView}
    (hlayout : directoryLayout view = none) :
    (planDirectoryStorage limits view).Stops (ScanState.Within limits.maxWork) answers state n := by
  have hcharge := needs_chargeDirectoryWork ⟨.ok, 0, 0⟩ 0 answers n hs 1 .none none noOffset
  unfold planDirectoryStorage
  rw [hlayout]
  refine hcharge.stops_bind fun hroom => ?_
  exact ⟨_, _, _, Call.bind_eq_error.mpr (Or.inl rfl), room_workShort.mp hroom⟩

/-- **A directory that is not there** is not constructed, whatever the limits. -/
theorem stops_createDirectory (limits : DirectoryLimits) (answers : ℕ → Bool) (n : ℕ)
    (hmapped : mapped <+: text) (hle : mapped.length ≤ logicalSize)
    (hplan : directoryPlan text logicalSize engineVersion = none) :
    (createDirectory mapped logicalSize engineVersion limits).Stops
      (ScanState.Within limits.maxWork) answers .init n := by
  rw [createDirectory_eq]
  by_cases hadmitted : ∃ view d, prefixFormat text logicalSize 0 = some (view, d) ∧
      view.versionSource.bytes text = engineVersion.expectedVersion ∧ view.typeTreeEnabledRaw ≤ 1
  · obtain ⟨view, d, hhead, hversion, hflag⟩ := hadmitted
    refine (needs_admitPrefix limits answers n hmapped hle hhead hversion hflag).stops_bind
      fun hroom => ?_
    obtain ⟨hmap, hbytes, hwork⟩ := room_admission hroom
    obtain ⟨hextent, hsize, horigin⟩ := prefix_start hhead
    have hs : (limits.budget mapped.length).Sound
        ((admittedState view d).rewind view.remainingMetadata.offset) := by
      refine (ScanState.fresh_rewind _ _).sound horigin (hextent ▸ hmap) ?_ hwork
      show view.remainingMetadata.offset ≤ v22HeaderSize + limits.maxMetadataBytes
      omega
    cases hscan : (metadataSource text view).directory engineVersion view none none
        view.remainingMetadata.offset with
    | none =>
        exact stops_construct (stops_prepare (stops_scanDirectory hmapped hs rfl rfl rfl hscan))
    | some r =>
        obtain ⟨directory, cost⟩ := r
        have hlayout : directoryLayout directory.view = none := by
          cases hlayout : directoryLayout directory.view with
          | none => rfl
          | some total =>
              have hsome : directoryPlan text logicalSize engineVersion =
                  some ⟨view, d, directory, cost, total⟩ :=
                directoryPlan_eq_some.mpr ⟨hhead, hversion, hflag, hscan, hlayout⟩
              rw [hplan] at hsome
              cases hsome
        have hpass := needs_scanDirectory ⟨.ok, 0, 0⟩ answers n hmapped hs rfl rfl rfl hscan
        refine stops_construct (stops_prepare_storage hpass fun hroom' =>
          stops_planDirectoryStorage ?_ hlayout)
        exact Nat.le_of_not_lt (hroom' (.scan .work))
  · refine (stops_admitPrefix hmapped hle fun view d hhead hok => ?_).bind
    exact hadmitted ⟨view, d, hhead, hok⟩

end

/-! ## The result -/

section

variable {text mapped : Text} {logicalSize : ℕ} {engineVersion : DirectoryEngineVersion}
  {σ : Type} {answers : ℕ → Bool} {s : σ} {n : ℕ}

theorem directoryCreate_apply (limits : DirectoryLimits) (hle : mapped.length ≤ logicalSize) :
    serializedFileDirectoryCreate mapped logicalSize engineVersion limits answers s n =
      match createDirectory mapped logicalSize engineVersion limits answers .init n with
      | .ok directory state n' =>
          .ok (directory, directoryResult true (serializedFilePrefixQuery mapped logicalSize
            ⟨limits.maxVersionBytes, limits.maxWork⟩).1 (unrejected .ok) state) s n'
      | .error e state n' =>
          .error (directoryResult true (serializedFilePrefixQuery mapped logicalSize
            ⟨limits.maxVersionBytes, limits.maxWork⟩).1 e state) s n' := by
  unfold serializedFileDirectoryCreate
  rw [if_neg (Nat.not_lt.mpr hle)]
  dsimp only
  rw [Call.bind_apply, Call.andThen, Call.enclosed]
  cases createDirectory mapped logicalSize engineVersion limits answers .init n <;> rfl

/-- What a construction reports that is short of nothing. -/
def DirectoryPlan.result (plan : DirectoryPlan) : DirectoryResult :=
  directoryResult true ⟨.ok, plan.prefixCost.work, noOffset⟩ (unrejected .ok) plan.finalState

/-- The run of a construction for which there is a plan. -/
theorem directoryCreate_planned (limits : DirectoryLimits) (answers : ℕ → Bool) (s : σ) (n : ℕ)
    (hmapped : mapped <+: text) (hle : mapped.length ≤ logicalSize) {plan : DirectoryPlan}
    (hplan : directoryPlan text logicalSize engineVersion = some plan) :
    ((∀ k, ¬ plan.Short limits mapped.length (answers n) k) ∧
        serializedFileDirectoryCreate mapped logicalSize engineVersion limits answers s n =
          .ok (plan.owner, plan.result) s (n + 1)) ∨
      ∃ e queried state made k,
        serializedFileDirectoryCreate mapped logicalSize engineVersion limits answers s n =
          .error (directoryResult true queried e state) s made ∧
        state.workUsed ≤ limits.maxWork ∧ e.Blames queried mapped.length k ∧
        plan.Short limits mapped.length (answers n) k := by
  rw [directoryCreate_apply limits hle]
  rcases needs_createDirectory limits answers n hmapped hle hplan with
    ⟨hroom, hok⟩ | ⟨e, state, made, k, herr, hwork, hblames, hshort⟩
  · have hquery : (serializedFilePrefixQuery mapped logicalSize
        ⟨limits.maxVersionBytes, limits.maxWork⟩).1 = ⟨.ok, plan.prefixCost.work, noOffset⟩ := by
      obtain ⟨hhead, -⟩ := directoryPlan_eq_some.mp hplan
      rcases prefixQuery_planned hmapped hle ⟨limits.maxVersionBytes, limits.maxWork⟩ hhead with
        ⟨-, hquery⟩ | ⟨result, k, -, -, -, hk⟩
      · rw [hquery]
      · exact absurd hk (hroom (.prefixed k))
    rw [hok]
    refine Or.inl ⟨hroom, ?_⟩
    simp only [hquery]
    rfl
  · rw [herr]
    exact Or.inr ⟨e, _, state, made, k, rfl, hwork, hblames, hshort⟩

theorem directoryCreate_unplanned (limits : DirectoryLimits) (answers : ℕ → Bool) (s : σ) (n : ℕ)
    (hmapped : mapped <+: text) (hle : mapped.length ≤ logicalSize)
    (hplan : directoryPlan text logicalSize engineVersion = none) :
    ∃ e queried state made,
      serializedFileDirectoryCreate mapped logicalSize engineVersion limits answers s n =
        .error (directoryResult true queried e state) s made ∧
      state.workUsed ≤ limits.maxWork := by
  obtain ⟨e, state, made, herr, hwork⟩ :=
    stops_createDirectory limits answers n hmapped hle hplan
  rw [directoryCreate_apply limits hle, herr]
  exact ⟨e, _, state, made, rfl, hwork⟩

/-- What a directory was made of. -/
theorem directoryCreate_ok {limits : DirectoryLimits} {directory : SerializedFileDirectory}
    {ran : DirectoryResult} {s' : σ} {n' : ℕ}
    (h : serializedFileDirectoryCreate mapped logicalSize engineVersion limits answers s n =
      .ok (directory, ran) s' n') :
    ∃ plan, directoryPlan mapped logicalSize engineVersion = some plan ∧
      (∀ k, ¬ plan.Short limits mapped.length (answers n) k) ∧ directory = plan.owner ∧
      ran = plan.result ∧ s' = s ∧ n' = n + 1 := by
  by_cases hsize : logicalSize < mapped.length
  · rw [serializedFileDirectoryCreate, if_pos hsize] at h
    cases h
  have hle := Nat.not_lt.mp hsize
  cases hplan : directoryPlan mapped logicalSize engineVersion with
  | none =>
      obtain ⟨e, queried, state, made, herr, -⟩ := directoryCreate_unplanned limits answers s n
        List.prefix_rfl hle hplan
      rw [h] at herr
      cases herr
  | some plan =>
      rcases directoryCreate_planned limits answers s n List.prefix_rfl hle hplan with
        ⟨hroom, hok⟩ | ⟨e, queried, state, made, k, herr, -⟩
      · rw [h] at hok
        cases hok
        exact ⟨plan, rfl, hroom, rfl, rfl, rfl, rfl⟩
      · rw [h] at herr
        cases herr

end

end UnityCommon.Metadata
