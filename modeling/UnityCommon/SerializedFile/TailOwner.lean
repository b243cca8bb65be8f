import UnityCommon.SerializedFile.DirectoryOwner
import UnityCommon.SerializedFile.TailScan

/-!
# Constructing a tail

The tail of a directory in its two passes. The mapping may end before the tail
begins, which the first field of the first pass reports.
-/

namespace UnityCommon.Metadata

/-- What a tail is made of. -/
structure TailPlan where
  tail : SerializedFileMetadataTail
  cost : ScanCost
  retainedBytes : ℕ

namespace TailPlan

variable (plan : TailPlan)

def start : ℕ := plan.tail.view.directory.remainingMetadata.offset

/-- The work of the construction: every row is read twice. -/
def workUsed : ℕ := 2 * plan.cost.work + plan.retainedBytes + 3

def owner : SerializedFileMetadataTail :=
  { plan.tail with view := { plan.tail.view with retainedBytes := plan.retainedBytes } }

def finalState (start : ℕ) : ScanState := constructed 1 start plan.retainedBytes plan.cost

/-- What the limits do not cover. -/
def Short (limits : TailLimits) (start mappedSize : ℕ) (granted : Bool) : OwnerResource → Prop :=
  constructShort (limits.budget start mappedSize) limits.maxRetainedBytes granted 1 start
    plan.retainedBytes plan.cost

end TailPlan

/-- **The tail of a file behind its directory**, before any limit. -/
def tailPlan (text : Text) (directory : DirectoryView) : Option TailPlan := do
  let (tail, cost) ← (metadataSource text directory.prefixView).tail directory none
    directory.remainingMetadata.offset
  let retainedBytes ← tailLayout tail.view
  return { tail, cost, retainedBytes }

theorem tailPlan_eq_some {text : Text} {directory : DirectoryView} {plan : TailPlan} :
    tailPlan text directory = some plan ↔
      (metadataSource text directory.prefixView).tail directory none
        directory.remainingMetadata.offset = some (plan.tail, plan.cost) ∧
      tailLayout plan.tail.view = some plan.retainedBytes := by
  unfold tailPlan
  simp only [Option.bind_eq_bind, Option.bind_eq_some_iff, Prod.exists]
  constructor
  · rintro ⟨tail, cost, hscan, retained, hlayout, hplan⟩
    cases hplan
    exact ⟨hscan, hlayout⟩
  · rintro ⟨hscan, hlayout⟩
    exact ⟨plan.tail, plan.cost, hscan, plan.retainedBytes, hlayout, rfl⟩

/-- The resource a rejected construction reports. -/
def TailReject.Blames (mappedSize : ℕ) (reject : TailReject) : OwnerResource → Prop
  | .prefixed _ => False
  | .scan k => reject.Cites mappedSize k
  | .retained => reject.status = .limitExceeded ∧ reject.limit = .retainedBytes
  | .storage => reject.status = .allocationFailed

namespace MetadataSource

/-- A pass that expects what it finds finds the same. -/
theorem tail_planned {source : MetadataSource} {directory : DirectoryView} {at_ : ℕ}
    {tail : SerializedFileMetadataTail} {d : ScanCost}
    (h : source.tail directory none at_ = some (tail, d)) :
    source.tail directory (some ⟨tail.view.scriptCount, tail.view.externalCount,
      tail.view.referenceTypeCount⟩) at_ = some (tail, d) := by
  obtain ⟨_, d₀, _, hstart, h₀, rfl⟩ := Decoder.bind_eq_some.mp h
  obtain ⟨⟨_, scriptCount⟩, d₁, _, hscripts, h₁, rfl⟩ := Decoder.bind_eq_some.mp h₀
  obtain ⟨scriptWord, hread, rfl, -, rfl⟩ := tableCount_eq_some.mp hscripts
  obtain ⟨_, d₂, _, hposition, h₂, rfl⟩ := Decoder.bind_eq_some.mp h₁
  obtain ⟨scripts, d₃, _, hrows, h₃, rfl⟩ := Decoder.bind_eq_some.mp h₂
  obtain ⟨_, d₄, _, hstop, h₄, rfl⟩ := Decoder.bind_eq_some.mp h₃
  obtain ⟨⟨_, externalCount⟩, d₅, _, hexternals, h₅, rfl⟩ := Decoder.bind_eq_some.mp h₄
  obtain ⟨externalWord, hread', rfl, -, rfl⟩ := tableCount_eq_some.mp hexternals
  obtain ⟨_, d₆, _, hposition', h₆, rfl⟩ := Decoder.bind_eq_some.mp h₅
  obtain ⟨externals, d₇, _, hrows', h₇, rfl⟩ := Decoder.bind_eq_some.mp h₆
  obtain ⟨_, d₈, _, hstop', h₈, rfl⟩ := Decoder.bind_eq_some.mp h₇
  obtain ⟨⟨_, referenceTypeCount⟩, d₉, _, hreferences, h₉, rfl⟩ := Decoder.bind_eq_some.mp h₈
  obtain ⟨referenceWord, hread'', rfl, -, rfl⟩ := tableCount_eq_some.mp hreferences
  have hview : tail.view.scriptCount = scriptWord.toNat ∧
      tail.view.externalCount = externalWord.toNat ∧
      tail.view.referenceTypeCount = referenceWord.toNat := by
    obtain ⟨_, d₁₀, _, hposition'', h₁₀, -⟩ := Decoder.bind_eq_some.mp h₉
    obtain ⟨_, d₁₁, _, hrows'', h₁₁, -⟩ := Decoder.bind_eq_some.mp h₁₀
    obtain ⟨_, d₁₂, _, hstop'', h₁₂, -⟩ := Decoder.bind_eq_some.mp h₁₁
    obtain ⟨_, d₁₃, _, huser, h₁₃, -⟩ := Decoder.bind_eq_some.mp h₁₂
    obtain ⟨_, d₁₄, _, hend, h₁₄, -⟩ := Decoder.bind_eq_some.mp h₁₃
    obtain ⟨_, d₁₅, _, hexhausted, hp, -⟩ := Decoder.bind_eq_some.mp h₁₄
    obtain ⟨rfl, -⟩ := Decoder.pure_eq_some.mp hp
    exact ⟨rfl, rfl, rfl⟩
  rw [hview.1, hview.2.1, hview.2.2]
  refine Decoder.bind_eq_some.mpr ⟨_, _, _, hstart, ?_, rfl⟩
  refine Decoder.bind_eq_some.mpr ⟨_, _, _,
    tableCount_eq_some.mpr ⟨_, hread, rfl, by simp, rfl⟩, ?_, rfl⟩
  refine Decoder.bind_eq_some.mpr ⟨_, _, _, hposition, ?_, rfl⟩
  refine Decoder.bind_eq_some.mpr ⟨_, _, _, hrows, ?_, rfl⟩
  refine Decoder.bind_eq_some.mpr ⟨_, _, _, hstop, ?_, rfl⟩
  refine Decoder.bind_eq_some.mpr ⟨_, _, _,
    tableCount_eq_some.mpr ⟨_, hread', rfl, by simp, rfl⟩, ?_, rfl⟩
  refine Decoder.bind_eq_some.mpr ⟨_, _, _, hposition', ?_, rfl⟩
  refine Decoder.bind_eq_some.mpr ⟨_, _, _, hrows', ?_, rfl⟩
  refine Decoder.bind_eq_some.mpr ⟨_, _, _, hstop', ?_, rfl⟩
  exact Decoder.bind_eq_some.mpr ⟨_, _, _,
    tableCount_eq_some.mpr ⟨_, hread'', rfl, by simp, rfl⟩, h₉, rfl⟩

end MetadataSource

section

variable {text mapped : Text} {logicalSize start mappedSize : ℕ} {limits : TailLimits}
  {directory : DirectoryView} {answers : ℕ → Bool} {n : ℕ} {state : ScanState}

theorem tailReader_within (hmapped : mapped <+: text) (limits : TailLimits)
    (directory : DirectoryView) :
    (tailReader mapped limits directory).Within (metadataSource text directory.prefixView)
      (limits.budget directory.remainingMetadata.offset mapped.length) where
  mapped := hmapped
  metadataEnd := rfl
  endianSelector := rfl
  mappedSize := rfl
  origin := rfl
  maxBytes := rfl
  maxWork := rfl

theorem needs_chargeTailWork (mappedSize : ℕ) (answers : ℕ → Bool) (n : ℕ)
    (hs : state.Within limits.maxWork) (amount : ℕ) (field : TailField) (rowOrdinal : Option ℕ)
    (errorOffset : ℕ) :
    (chargeTailWork limits amount field rowOrdinal errorOffset).Needs
      (ScanState.Within limits.maxWork) (TailReject.Blames mappedSize) answers state n
      (workShort limits.maxWork (state.workUsed + amount)) () (state.charged amount) n := by
  have hle : state.workUsed ≤ limits.maxWork := hs
  unfold chargeTailWork
  by_cases hshort : limits.maxWork < state.workUsed + amount
  · refine Or.inr ⟨⟨.limitExceeded, .work, field, rowOrdinal, errorOffset⟩, state, n, .scan .work,
      ?_, hs, ⟨rfl, rfl⟩, rfl, hshort⟩
    exact Call.bind_eq_error.mpr (Or.inr ⟨_, _, _, rfl,
      Call.bind_eq_error.mpr (Or.inl (if_neg (by omega)))⟩)
  · refine Or.inl ⟨fun k hk => hshort hk.2, Call.bind_eq_ok.mpr ⟨_, _, _, rfl, ?_⟩⟩
    exact Call.require_bind_eq_ok.mpr ⟨by omega, rfl⟩

/-- One pass of the scanner. -/
theorem needs_scanTail (answers : ℕ → Bool) (n : ℕ) (hmapped : mapped <+: text)
    (hs : (limits.budget directory.remainingMetadata.offset mapped.length).Sound state)
    {planned : Option TailCapacities} (hnodes : state.nodeRecords = 0)
    (hstrings : state.stringBytes = 0) (hterminated : state.terminatedBytes = 0)
    {tail : SerializedFileMetadataTail} {d : ScanCost}
    (hP : (metadataSource text directory.prefixView).tail directory planned state.position =
      some (tail, d)) :
    (scanTail (tailReader mapped limits directory) limits directory planned).Needs
      (ScanState.Within limits.maxWork) (TailReject.Blames mapped.length) answers state n
      (scanShort fun k =>
        (limits.budget directory.remainingMetadata.offset mapped.length).Short k state d)
      tail (state.advance d) n := by
  have hfollows := follows_scanTail (tailReader_within hmapped limits directory) hs directory
    planned hnodes hstrings hterminated
  refine (hfollows.needs hP answers n).map (fun u hu => ?_) (fun e k hc hk => ⟨.scan k, hc, hk⟩)
    fun hroom k hk => ?_
  · exact Nat.le_of_not_lt (hu.fits .work)
  · cases k with
    | scan k => exact hroom k hk
    | _ => exact hk

theorem stops_scanTail (hmapped : mapped <+: text)
    (hs : (limits.budget directory.remainingMetadata.offset mapped.length).Sound state)
    (hnodes : state.nodeRecords = 0) (hstrings : state.stringBytes = 0)
    (hterminated : state.terminatedBytes = 0)
    (hP : (metadataSource text directory.prefixView).tail directory none state.position = none) :
    (scanTail (tailReader mapped limits directory) limits directory none).Stops
      (ScanState.Within limits.maxWork) answers state n := by
  have hfollows := follows_scanTail (tailReader_within hmapped limits directory) hs directory none
    hnodes hstrings hterminated
  exact (hfollows.stops hP answers n).mono fun u hu => Nat.le_of_not_lt (hu.fits .work)

/-- Behind the end of the mapping a pass reads nothing. -/
theorem scanTail_unmapped (reader : MetadataReader) (limits : TailLimits)
    (directory : DirectoryView) (planned : Option TailCapacities) (answers : ℕ → Bool) (n : ℕ)
    (state : ScanState) (h : reader.bytes.length < state.position) :
    ∃ e, scanTail reader limits directory planned answers state n = .error e state n ∧
      (state.position + 4 ≤ reader.metadataEnd → e.Cites reader.bytes.length .mapping) := by
  have htake : ∃ e, reader.take 4 answers state n = .error e state n ∧
      (state.position + 4 ≤ reader.metadataEnd → e.Cites reader.bytes.length .mapping) := by
    by_cases hend : state.position ≤ reader.metadataEnd ∧ 4 ≤ reader.metadataEnd - state.position
    · refine ⟨⟨.mappingEnd, reader.bytes.length⟩, Call.bind_eq_error.mpr (Or.inl ?_),
        fun _ => ⟨rfl, rfl⟩⟩
      rw [MetadataReader.Within.admitExtent_apply, if_pos hend, if_neg (by omega)]
    · refine ⟨⟨.metadataEnd, reader.metadataEnd⟩, Call.bind_eq_error.mpr (Or.inl ?_),
        fun _ => by omega⟩
      rw [MetadataReader.Within.admitExtent_apply, if_neg hend]
  obtain ⟨e, htake, hcites⟩ := htake
  have hcount : reader.readCount answers state n = .error e state n :=
    Call.bind_eq_error.mpr (Or.inl (Call.bind_eq_error.mpr (Or.inl htake)))
  refine ⟨rejectTailReader .scriptCount none e, ?_, fun hend =>
    rejectTailReader_cites _ _ e .mapping (hcites hend)⟩
  refine Call.bind_eq_error.mpr (Or.inr ⟨_, _, _, rfl, ?_⟩)
  refine Call.bind_eq_error.mpr (Or.inl (Call.bind_eq_error.mpr (Or.inl ?_)))
  rw [Call.relabel, hcount]

/-- The storage is planned for one unit of work. -/
theorem needs_planTailStorage (mappedSize : ℕ) (answers : ℕ → Bool) (n : ℕ)
    (hs : state.Within limits.maxWork) {view : TailView} {total : ℕ}
    (hlayout : tailLayout view = some total) :
    (planTailStorage limits view).Needs (ScanState.Within limits.maxWork)
      (TailReject.Blames mappedSize) answers state n
      (fun k => workShort limits.maxWork (state.workUsed + 1) k ∨
        (k = .retained ∧ limits.maxRetainedBytes < total)) total
      { state.charged 1 with requiredRetainedBytes := total } n := by
  have hcharge := needs_chargeTailWork mappedSize answers n hs 1 .none none noOffset
  have hlimit : ∀ s : ScanState, s.Within limits.maxWork →
      (Call.require (total ≤ limits.maxRetainedBytes)
        ⟨.limitExceeded, .retainedBytes, .none, none, noOffset⟩).Needs
        (ScanState.Within limits.maxWork) (TailReject.Blames mappedSize) answers s n
        (fun k => k = .retained ∧ limits.maxRetainedBytes < total) () s n := by
    intro s hs
    refine Call.needs_require hs ?_ fun hover =>
      ⟨.retained, ⟨rfl, rfl⟩, rfl, Nat.lt_of_not_le hover⟩
    simp
  unfold planTailStorage
  rw [hlayout]
  refine (hcharge.bind fun hroom => (Call.needs_ofOption_some total _).bind fun _ =>
    (Call.needs_modify _).bind fun _ => (hlimit _ (room_workShort.mp hroom)).bind fun _ =>
    Call.needs_pure total).short_congr fun k => ?_
  simp

theorem stops_planTailStorage (hs : state.Within limits.maxWork) {view : TailView}
    (hlayout : tailLayout view = none) :
    (planTailStorage limits view).Stops (ScanState.Within limits.maxWork) answers state n := by
  have hcharge := needs_chargeTailWork 0 answers n hs 1 .none none noOffset
  unfold planTailStorage
  rw [hlayout]
  refine hcharge.stops_bind fun hroom => ?_
  exact ⟨_, _, _, Call.bind_eq_error.mpr (Or.inl rfl), room_workShort.mp hroom⟩

/-! ## The construction -/

/-- What follows the admission of the source. -/
def constructTail (directory : DirectoryView) (mapped : Text) (limits : TailLimits) :
    Call TailReject ScanState SerializedFileMetadataTail :=
  construct (scanTail (tailReader mapped limits directory) limits directory)
    (fun tail => planTailStorage limits tail.view) (chargeTailOwner limits)
    ⟨.allocationFailed, .none, .none, none, noOffset⟩ directory.remainingMetadata.offset
    (fun tail => ⟨tail.view.scriptCount, tail.view.externalCount, tail.view.referenceTypeCount⟩)
    fun total tail => { tail with view := { tail.view with retainedBytes := total } }

theorem createTail_eq (directory : DirectoryView) (mapped : Text) (logicalSize : ℕ)
    (limits : TailLimits) :
    createTail directory mapped logicalSize limits =
      (chargeTailOwner limits 1 >>= fun _ =>
        Call.require (logicalSize = directory.prefixView.header.fileSize)
          ⟨.sourceMismatch, .none, .none, none, noOffset⟩ >>= fun _ =>
        constructTail directory mapped limits) := rfl

/-- The count that a tail begins with is metadata. -/
theorem tailPlan_begins {plan : TailPlan} (hplan : tailPlan text directory = some plan) :
    directory.remainingMetadata.offset + 4 ≤
      directory.prefixView.header.metadataToDataGap.offset := by
  obtain ⟨hscan, -⟩ := tailPlan_eq_some.mp hplan
  obtain ⟨_, d₀, _, hposition, h₀, -⟩ := Decoder.bind_eq_some.mp hscan
  obtain ⟨-, rfl⟩ := Decoder.position_eq_some.mp hposition
  obtain ⟨⟨_, scriptCount⟩, d₁, _, hscripts, -, -⟩ := Decoder.bind_eq_some.mp h₀
  obtain ⟨_, hread, -, -, -⟩ := MetadataSource.tableCount_eq_some.mp hscripts
  obtain ⟨⟨hend, -⟩, -⟩ := MetadataSource.readCount_eq_some.mp hread
  exact hend

/-- The construction fails where the first pass does. -/
theorem constructTail_unmapped (limits : TailLimits) (state : ScanState) (answers : ℕ → Bool)
    (n : ℕ) (h : mapped.length < directory.remainingMetadata.offset) :
    ∃ e, constructTail directory mapped limits answers state n =
        .error e (state.rewind directory.remainingMetadata.offset) n ∧
      (directory.remainingMetadata.offset + 4 ≤
        directory.prefixView.header.metadataToDataGap.offset →
        e.Cites mapped.length .mapping) := by
  obtain ⟨e, herr, hcites⟩ := scanTail_unmapped (tailReader mapped limits directory) limits
    directory none answers n (state.rewind directory.remainingMetadata.offset) h
  refine ⟨e, ?_, hcites⟩
  exact Call.bind_eq_error.mpr (Or.inr ⟨_, _, _, rfl, Call.bind_eq_error.mpr (Or.inl herr)⟩)

theorem needs_constructTail (answers : ℕ → Bool) (n : ℕ) (hmapped : mapped <+: text)
    {plan : TailPlan} (hplan : tailPlan text directory = some plan)
    (hwork : (ScanState.init.charged 1).Within limits.maxWork) :
    (constructTail directory mapped limits).Needs (ScanState.Within limits.maxWork)
      (TailReject.Blames mapped.length) answers (ScanState.init.charged 1) n
      (plan.Short limits directory.remainingMetadata.offset mapped.length (answers n)) plan.owner
      (plan.finalState directory.remainingMetadata.offset) (n + 1) := by
  obtain ⟨hscan, hlayout⟩ := tailPlan_eq_some.mp hplan
  by_cases hstart : directory.remainingMetadata.offset ≤ mapped.length
  · refine needs_construct (limits.budget directory.remainingMetadata.offset mapped.length)
      limits.maxRetainedBytes plan.retainedBytes plan.tail plan.cost ?_ ?_ ?_ ?_ (Nat.le_refl _)
      hstart (Nat.le_add_right _ _) hwork
    · intro s amount m hs
      exact needs_chargeTailWork mapped.length answers m hs amount _ _ _
    · intro planned s m hplanned hfresh hs
      refine needs_scanTail answers m hmapped hs hfresh.nodes hfresh.strings hfresh.terminated ?_
      rw [hfresh.position]
      rcases hplanned with rfl | rfl
      · exact hscan
      · exact MetadataSource.tail_planned hscan
    · intro s m hs
      exact needs_planTailStorage mapped.length answers m hs hlayout
    · exact rfl
  · obtain ⟨e, herr, hcites⟩ := constructTail_unmapped limits (ScanState.init.charged 1) answers n
      (Nat.lt_of_not_le hstart)
    refine Or.inr ⟨e, _, n, .scan .mapping, herr, hwork, hcites (tailPlan_begins hplan), ?_⟩
    show mapped.length < directory.remainingMetadata.offset + plan.cost.bytes
    omega

/-- **A tail that is there.** -/
theorem needs_createTail (limits : TailLimits) (answers : ℕ → Bool) (n : ℕ) (hmapped : mapped <+: text)
    (hsize : logicalSize = directory.prefixView.header.fileSize) {plan : TailPlan}
    (hplan : tailPlan text directory = some plan) :
    (createTail directory mapped logicalSize limits).Needs (ScanState.Within limits.maxWork)
      (TailReject.Blames mapped.length) answers .init n
      (plan.Short limits directory.remainingMetadata.offset mapped.length (answers n)) plan.owner
      (plan.finalState directory.remainingMetadata.offset) (n + 1) := by
  have hs : ScanState.init.Within limits.maxWork := Nat.zero_le _
  have hcharge := needs_chargeTailWork mapped.length answers n hs 1 .none none noOffset
  rw [createTail_eq]
  refine (hcharge.bind fun hroom => (Call.needs_require_true hsize _).bind fun _ =>
    needs_constructTail answers n hmapped hplan (room_workShort.mp hroom)).short_congr fun k => ?_
  -- the first unit of work is part of the whole
  by_cases hk : k = .scan .work
  · rw [hk]
    have htotal : plan.Short limits directory.remainingMetadata.offset mapped.length (answers n)
        (.scan .work) ↔ limits.maxWork < 1 + 2 * plan.cost.work + plan.retainedBytes + 2 :=
      Iff.rfl
    simp only [workShort, true_and, htotal, false_or, ScanState.init]
    omega
  · simp [workShort, hk]

/-- **A tail that is not there** is not constructed, whatever the limits. -/
theorem stops_createTail (limits : TailLimits) (answers : ℕ → Bool) (n : ℕ) (hmapped : mapped <+: text)
    (hplan : tailPlan text directory = none) :
    (createTail directory mapped logicalSize limits).Stops (ScanState.Within limits.maxWork)
      answers .init n := by
  have hs : ScanState.init.Within limits.maxWork := Nat.zero_le _
  have hcharge := needs_chargeTailWork mapped.length answers n hs 1 .none none noOffset
  rw [createTail_eq]
  refine hcharge.stops_bind fun hroom => ?_
  have hs₁ : (ScanState.init.charged 1).Within limits.maxWork := room_workShort.mp hroom
  by_cases hsize : logicalSize = directory.prefixView.header.fileSize
  · refine Call.Stops.require_bind hsize ?_
    by_cases hstart : directory.remainingMetadata.offset ≤ mapped.length
    · have hsound : (limits.budget directory.remainingMetadata.offset mapped.length).Sound
          ((ScanState.init.charged 1).rewind directory.remainingMetadata.offset) :=
        (ScanState.fresh_rewind _ _).sound (Nat.le_refl _) hstart (Nat.le_add_right _ _) hs₁
      cases hscan : (metadataSource text directory.prefixView).tail directory none
          directory.remainingMetadata.offset with
      | none =>
          exact stops_construct (stops_prepare (stops_scanTail hmapped hsound rfl rfl rfl hscan))
      | some r =>
          obtain ⟨tail, cost⟩ := r
          have hlayout : tailLayout tail.view = none := by
            cases hlayout : tailLayout tail.view with
            | none => rfl
            | some total =>
                have hsome : tailPlan text directory = some ⟨tail, cost, total⟩ :=
                  tailPlan_eq_some.mpr ⟨hscan, hlayout⟩
                rw [hplan] at hsome
                cases hsome
          have hpass := needs_scanTail answers n hmapped hsound rfl rfl rfl hscan
          refine stops_construct (stops_prepare_storage hpass fun hroom' =>
            stops_planTailStorage ?_ hlayout)
          exact Nat.le_of_not_lt (hroom' (.scan .work))
    · obtain ⟨e, herr, -⟩ := constructTail_unmapped limits (ScanState.init.charged 1) answers n
        (Nat.lt_of_not_le hstart)
      exact ⟨e, _, n, herr, hs₁⟩
  · refine Call.Stops.bind ?_
    exact ⟨_, _, _, if_neg hsize, hs₁⟩

/-- A tail of a file of another size is refused. -/
theorem stops_createTail_size (limits : TailLimits) (answers : ℕ → Bool) (n : ℕ)
    (hsize : logicalSize ≠ directory.prefixView.header.fileSize) :
    (createTail directory mapped logicalSize limits).Stops (ScanState.Within limits.maxWork)
      answers .init n := by
  have hs : ScanState.init.Within limits.maxWork := Nat.zero_le _
  have hcharge := needs_chargeTailWork mapped.length answers n hs 1 .none none noOffset
  rw [createTail_eq]
  refine hcharge.stops_bind fun hroom => Call.Stops.bind ?_
  exact ⟨_, _, _, if_neg hsize, room_workShort.mp hroom⟩

end

/-! ## The result -/

section

variable {text mapped : Text} {logicalSize : ℕ} {σ : Type} {answers : ℕ → Bool} {s : σ} {n : ℕ}

theorem tailCreate_apply (directory : SerializedFileDirectory) (limits : TailLimits)
    (hle : mapped.length ≤ logicalSize) :
    serializedFileMetadataTailCreate directory mapped logicalSize limits answers s n =
      match createTail directory.view mapped logicalSize limits answers .init n with
      | .ok tail state n' =>
          .ok (tail, tailResult ⟨.ok, .none, .none, none, noOffset⟩ state) s n'
      | .error e state n' => .error (tailResult e state) s n' := by
  unfold serializedFileMetadataTailCreate
  rw [if_neg (Nat.not_lt.mpr hle), Call.bind_apply, Call.andThen, Call.enclosed]
  cases createTail directory.view mapped logicalSize limits answers .init n <;> rfl

/-- What a construction from `start` on reports that is short of nothing. -/
def TailPlan.result (plan : TailPlan) (start : ℕ) : TailResult :=
  tailResult ⟨.ok, .none, .none, none, noOffset⟩ (plan.finalState start)

/-- The run of a construction for which there is a plan. -/
theorem tailCreate_planned (directory : SerializedFileDirectory) (limits : TailLimits)
    (answers : ℕ → Bool) (s : σ) (n : ℕ) (hmapped : mapped <+: text)
    (hle : mapped.length ≤ logicalSize)
    (hsize : logicalSize = directory.view.prefixView.header.fileSize) {plan : TailPlan}
    (hplan : tailPlan text directory.view = some plan) :
    ((∀ k, ¬ plan.Short limits directory.view.remainingMetadata.offset mapped.length
          (answers n) k) ∧
        serializedFileMetadataTailCreate directory mapped logicalSize limits answers s n =
          .ok (plan.owner, plan.result directory.view.remainingMetadata.offset) s (n + 1)) ∨
      ∃ e state made k,
        serializedFileMetadataTailCreate directory mapped logicalSize limits answers s n =
          .error (tailResult e state) s made ∧
        state.workUsed ≤ limits.maxWork ∧ e.Blames mapped.length k ∧
        plan.Short limits directory.view.remainingMetadata.offset mapped.length (answers n) k := by
  rw [tailCreate_apply directory limits hle]
  rcases needs_createTail limits answers n hmapped hsize hplan with
    ⟨hroom, hok⟩ | ⟨e, state, made, k, herr, hwork, hblames, hshort⟩
  · rw [hok]
    exact Or.inl ⟨hroom, rfl⟩
  · rw [herr]
    exact Or.inr ⟨e, state, made, k, rfl, hwork, hblames, hshort⟩

/-- Without a plan, or over a file of another size, the construction fails. -/
theorem tailCreate_unplanned (directory : SerializedFileDirectory) (limits : TailLimits)
    (answers : ℕ → Bool) (s : σ) (n : ℕ) (hmapped : mapped <+: text)
    (hle : mapped.length ≤ logicalSize)
    (hplan : tailPlan text directory.view = none ∨
      logicalSize ≠ directory.view.prefixView.header.fileSize) :
    ∃ e state made,
      serializedFileMetadataTailCreate directory mapped logicalSize limits answers s n =
        .error (tailResult e state) s made ∧
      state.workUsed ≤ limits.maxWork := by
  rw [tailCreate_apply directory limits hle]
  have hstops : (createTail directory.view mapped logicalSize limits).Stops
      (ScanState.Within limits.maxWork) answers .init n := by
    rcases hplan with hplan | hsize
    · exact stops_createTail limits answers n hmapped hplan
    · exact stops_createTail_size limits answers n hsize
  obtain ⟨e, state, made, herr, hwork⟩ := hstops
  rw [herr]
  exact ⟨e, state, made, rfl, hwork⟩

/-- What a tail was made of. -/
theorem tailCreate_ok {directory : SerializedFileDirectory} {limits : TailLimits}
    {tail : SerializedFileMetadataTail} {ran : TailResult} {s' : σ} {n' : ℕ}
    (h : serializedFileMetadataTailCreate directory mapped logicalSize limits answers s n =
      .ok (tail, ran) s' n') :
    logicalSize = directory.view.prefixView.header.fileSize ∧
      ∃ plan, tailPlan mapped directory.view = some plan ∧
        (∀ k, ¬ plan.Short limits directory.view.remainingMetadata.offset mapped.length
          (answers n) k) ∧
        tail = plan.owner ∧ ran = plan.result directory.view.remainingMetadata.offset ∧
        s' = s ∧ n' = n + 1 := by
  by_cases hlong : logicalSize < mapped.length
  · rw [serializedFileMetadataTailCreate, if_pos hlong] at h
    cases h
  have hle := Nat.not_lt.mp hlong
  have hsize : logicalSize = directory.view.prefixView.header.fileSize := by
    by_contra hsize
    obtain ⟨e, state, made, herr, -⟩ := tailCreate_unplanned directory limits answers s n
      List.prefix_rfl hle (Or.inr hsize)
    rw [h] at herr
    cases herr
  refine ⟨hsize, ?_⟩
  cases hplan : tailPlan mapped directory.view with
  | none =>
      obtain ⟨e, state, made, herr, -⟩ := tailCreate_unplanned directory limits answers s n
        List.prefix_rfl hle (Or.inl hplan)
      rw [h] at herr
      cases herr
  | some plan =>
      rcases tailCreate_planned directory limits answers s n List.prefix_rfl hle hsize hplan with
        ⟨hroom, hok⟩ | ⟨e, state, made, k, herr, -⟩
      · rw [h] at hok
        cases hok
        exact ⟨plan, rfl, hroom, rfl, rfl, rfl, rfl⟩
      · rw [h] at herr
        cases herr

end

end UnityCommon.Metadata
