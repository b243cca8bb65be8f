import UnityCommon.Lib.Triple
import UnityCommon.SerializedFile.ReferenceQuery
import UnityCommon.SerializedFile.Stores
import UnityCommon.SerializedFile.Truncation

/-!
# The work of the owners

What the two-pass constructions of directories, tails and reference indices
report of their work, which budgets they succeed with, what their second pass
may still fail for and store, and what becomes of the handle.
-/

namespace UnityCommon.Metadata

/-! ## Handles -/

section Handles

/-- `serialized_file_directory_create` with the handle it writes, which is empty
or owns a directory. -/
def serializedFileDirectoryCreateInto (mapped : Text) (logicalSize : ℕ)
    (engineVersion : DirectoryEngineVersion) (limits : DirectoryLimits) :
    Call DirectoryResult (Option SerializedFileDirectory) DirectoryResult := do
  let refused (status : DirectoryStatus) : DirectoryResult :=
    directoryResult false ⟨.invalidArgument, 0, noOffset⟩ (unrejected status) .init
  Call.require (mapped.length ≤ logicalSize) (refused .invalidArgument)
  Call.require ((← Call.current) = none) (refused .invalidState)
  let (directory, result) ←
    serializedFileDirectoryCreate mapped logicalSize engineVersion limits
  Call.replace (some directory)
  return result

/-- `serialized_file_metadata_tail_create` with both handles. -/
def serializedFileMetadataTailCreateInto (directory : Option SerializedFileDirectory)
    (mapped : Text) (logicalSize : ℕ) (limits : TailLimits) :
    Call TailResult (Option SerializedFileMetadataTail) TailResult := do
  let refused (status : TailStatus) : TailResult :=
    tailResult ⟨status, .none, .none, none, noOffset⟩ .init
  Call.require (mapped.length ≤ logicalSize) (refused .invalidArgument)
  let directory ← Call.ofOption (refused .invalidState) directory
  Call.require ((← Call.current) = none) (refused .invalidState)
  let (tail, result) ← serializedFileMetadataTailCreate directory mapped logicalSize limits
  Call.replace (some tail)
  return result

/-- `serialized_file_reference_index_create` with both handles. -/
def serializedFileReferenceIndexCreateInto (tail : Option SerializedFileMetadataTail)
    (limits : ReferenceIndexLimits) :
    Call ReferenceIndexResult (Option SerializedFileReferenceIndex) ReferenceIndexResult := do
  let refused : ReferenceIndexResult :=
    referenceIndexResult (rejectIndexOwner .invalidState .none) {}
  let tail ← Call.ofOption refused tail
  Call.require ((← Call.current) = none) refused
  let (index, result) ← serializedFileReferenceIndexCreate tail limits
  Call.replace (some index)
  return result

end Handles

/-! ## The law -/

/-- **The work law** of a construction by its budget, of an owner whose amount
is told from the result and the owner. The input plans that amount beforehand. -/
structure WorkLaw {ρ α : Type} (run : ℕ → Call ρ (Option α) ρ) (workUsed : ρ → ℕ)
    (planned : Option ℕ) (amount : ρ → α → ℕ) : Prop where
  /-- A failure reports no more work than the budget and leaves the handle alone. -/
  failed : ∀ maxWork answers handle n ran handle' n',
    run maxWork answers handle n = .error ran handle' n' →
      workUsed ran ≤ maxWork ∧ handle' = handle
  /-- A success fills an empty handle and reports the amount, which is the planned one. -/
  returned : ∀ maxWork answers handle n ran handle' n',
    run maxWork answers handle n = .ok ran handle' n' →
      workUsed ran ≤ maxWork ∧ handle = none ∧
        ∃ owner, handle' = some owner ∧ workUsed ran = amount ran owner ∧
          planned = some (amount ran owner)
  /-- What succeeds once succeeds with every budget that covers the amount, and
  with no other. -/
  threshold : ∀ maxWork answers n ran owner n',
    run maxWork answers none n = .ok ran (some owner) n' →
      ∀ maxWork' answers' m, answers' m = true →
        ((∃ ran' handle' m', run maxWork' answers' none m = .ok ran' handle' m') ↔
          amount ran owner ≤ maxWork')

section

variable {ρ α : Type} {run : ℕ → Call ρ (Option α) ρ} {workUsed : ρ → ℕ} {planned : Option ℕ}
  {amount : ρ → α → ℕ}

/-- A run that fails within the budget and leaves the handle alone. -/
def Fails (run : ℕ → Call ρ (Option α) ρ) (workUsed : ρ → ℕ) (maxWork : ℕ) (answers : ℕ → Bool)
    (handle : Option α) (n : ℕ) : Prop :=
  ∃ ran n', run maxWork answers handle n = .error ran handle n' ∧ workUsed ran ≤ maxWork

theorem WorkLaw.of_fails
    (h : ∀ maxWork answers handle n, Fails run workUsed maxWork answers handle n) :
    WorkLaw run workUsed planned amount := by
  have hok : ∀ maxWork answers handle n ran handle' n',
      run maxWork answers handle n ≠ .ok ran handle' n' := by
    intro maxWork answers handle n ran handle' n' hrun
    obtain ⟨e, m, herr, -⟩ := h maxWork answers handle n
    rw [hrun] at herr
    cases herr
  refine ⟨?_, fun _ _ _ _ _ _ _ hrun => absurd hrun (hok _ _ _ _ _ _ _),
    fun _ _ _ _ _ _ hrun => absurd hrun (hok _ _ _ _ _ _ _)⟩
  intro maxWork answers handle n ran handle' n' hrun
  obtain ⟨e, m, herr, hwork⟩ := h maxWork answers handle n
  rw [hrun] at herr
  cases herr
  exact ⟨hwork, rfl⟩

/-- A construction that is planned: apart from the budget it wants storage and
what the other limits say. -/
theorem WorkLaw.of_plan (owner : α) (made : ρ) (others : Prop)
    (hplanned : planned = some (workUsed made)) (hamount : amount made owner = workUsed made)
    (hlive : ∀ maxWork answers live n, Fails run workUsed maxWork answers (some live) n)
    (hrun : ∀ maxWork answers n,
      ((workUsed made ≤ maxWork ∧ others ∧ answers n = true) ∧
          run maxWork answers none n = .ok made (some owner) (n + 1)) ∨
        ¬ (workUsed made ≤ maxWork ∧ others ∧ answers n = true) ∧
          Fails run workUsed maxWork answers none n) :
    WorkLaw run workUsed planned amount := by
  constructor
  · intro maxWork answers handle n ran handle' n' h
    have hfails : Fails run workUsed maxWork answers handle n := by
      cases handle with
      | some live => exact hlive maxWork answers live n
      | none =>
          rcases hrun maxWork answers n with ⟨-, hok⟩ | ⟨-, hfails⟩
          · rw [h] at hok
            cases hok
          · exact hfails
    obtain ⟨e, m, herr, hwork⟩ := hfails
    rw [h] at herr
    cases herr
    exact ⟨hwork, rfl⟩
  · intro maxWork answers handle n ran handle' n' h
    cases handle with
    | some live =>
        obtain ⟨e, m, herr, -⟩ := hlive maxWork answers live n
        rw [h] at herr
        cases herr
    | none =>
        rcases hrun maxWork answers n with ⟨⟨hwork, -⟩, hok⟩ | ⟨-, e, m, herr, -⟩
        · rw [h] at hok
          cases hok
          exact ⟨hwork, rfl, owner, rfl, hamount.symm, by rw [hplanned, hamount]⟩
        · rw [h] at herr
          cases herr
  · intro maxWork answers n ran owner' n' h maxWork' answers' m hgranted
    rcases hrun maxWork answers n with ⟨⟨-, hothers, -⟩, hok⟩ | ⟨-, e, m, herr, -⟩
    · rw [h] at hok
      cases hok
      rw [hamount]
      rcases hrun maxWork' answers' m with ⟨⟨hwork, -⟩, hok'⟩ | ⟨hshort, e, m', herr, -⟩
      · exact ⟨fun _ => hwork, fun _ => ⟨_, _, _, hok'⟩⟩
      · refine ⟨?_, fun hwork => absurd ⟨hwork, hothers, hgranted⟩ hshort⟩
        rintro ⟨ran', handle', m'', hok'⟩
        rw [hok'] at herr
        cases herr
    · rw [h] at herr
      cases herr

/-- The budgets that an input succeeds with, known from one success. -/
theorem WorkLaw.covers (law : WorkLaw run workUsed planned amount) {maxWork : ℕ}
    {answers : ℕ → Bool} {n n' : ℕ} {ran : ρ} {handle : Option α}
    (hrun : run maxWork answers none n = .ok ran handle n') {maxWork' : ℕ} {answers' : ℕ → Bool}
    {m : ℕ} (hgranted : answers' m = true) :
    (∃ ran' handle' m', run maxWork' answers' none m = .ok ran' handle' m') ↔
      workUsed ran ≤ maxWork' := by
  obtain ⟨-, -, owner, rfl, hwork, -⟩ := law.returned _ _ _ _ _ _ _ hrun
  rw [hwork]
  exact law.threshold _ _ _ _ _ _ hrun _ _ _ hgranted

end

/-! ## The three owners -/

/-- The work of a directory. -/
def directoryWork (ran : DirectoryResult) (directory : SerializedFileDirectory) : ℕ :=
  let view := directory.view
  let consumed := view.remainingMetadata.offset - view.prefixView.remainingMetadata.offset
  ran.prefixResult.workUsed + view.prefixView.versionSource.size +
    2 * (consumed + view.typeCount + view.objectCount) + view.retainedBytes + 2

/-- The work of a tail. -/
def tailWork (_ : TailResult) (tail : SerializedFileMetadataTail) : ℕ :=
  let view := tail.view
  2 * (view.source.size + view.scriptCount + view.externalCount + view.referenceTypeCount) +
    view.retainedBytes + 3

/-- The work of a reference index. -/
def referenceIndexWork (_ : ReferenceIndexResult) (index : SerializedFileReferenceIndex) : ℕ :=
  index.view.retainedBytes + 2 * index.view.referenceTypeCount + 3

section Directory

variable {mapped : Text} {logicalSize : ℕ} {engineVersion : DirectoryEngineVersion}
  {limits : DirectoryLimits} {plan : DirectoryPlan}

/-- The limits that a budget is not. -/
def DirectoryPlan.Others (plan : DirectoryPlan) (limits : DirectoryLimits) (mappedSize : ℕ) :
    Prop :=
  ∀ k, k ≠ .scan .work → k ≠ .storage → k ≠ .prefixed .work →
    ¬ plan.Short limits mappedSize true k

theorem DirectoryPlan.short_other (plan : DirectoryPlan) (limits : DirectoryLimits)
    (mappedSize maxWork : ℕ) (granted : Bool) {k : OwnerResource} (hwork : k ≠ .scan .work)
    (hstorage : k ≠ .storage) (hhead : k ≠ .prefixed .work) :
    plan.Short { limits with maxWork } mappedSize granted k ↔
      plan.Short limits mappedSize true k := by
  cases k with
  | prefixed k => cases k <;> first | exact absurd rfl hhead | exact Iff.rfl
  | scan k => cases k <;> first | exact absurd rfl hwork | exact Iff.rfl
  | retained => exact Iff.rfl
  | storage => exact absurd rfl hstorage

theorem DirectoryPlan.room_iff (plan : DirectoryPlan) (limits : DirectoryLimits)
    (mappedSize maxWork : ℕ) (granted : Bool) :
    (∀ k, ¬ plan.Short { limits with maxWork } mappedSize granted k) ↔
      plan.workUsed ≤ maxWork ∧ plan.Others limits mappedSize ∧ granted = true := by
  constructor
  · intro h
    refine ⟨Nat.le_of_not_lt (h (.scan .work)), fun k hwork hstorage hhead hk => ?_,
      by simpa [Short, constructShort] using h .storage⟩
    exact h k ((plan.short_other limits _ _ _ hwork hstorage hhead).mpr hk)
  · rintro ⟨hwork, hothers, hgranted⟩ k hk
    by_cases hk₁ : k = .scan .work
    · subst hk₁
      exact absurd hk (Nat.not_lt.mpr hwork)
    by_cases hk₂ : k = .storage
    · subst hk₂
      have hdenied : granted = false := hk
      rw [hgranted] at hdenied
      cases hdenied
    by_cases hk₃ : k = .prefixed .work
    · subst hk₃
      -- the prefix is part of the whole
      have hshort : maxWork < 0 + plan.prefixCost.work := hk
      simp only [workUsed, admissionWork] at hwork
      omega
    exact hothers k hk₁ hk₂ hk₃ ((plan.short_other limits _ _ _ hk₁ hk₂ hk₃).mp hk)

theorem DirectoryPlan.work_eq (hplan : directoryPlan mapped logicalSize engineVersion = some plan) :
    directoryWork plan.result plan.owner = plan.workUsed := by
  obtain ⟨-, -, -, hscan, -⟩ := directoryPlan_eq_some.mp hplan
  have hreads := MetadataSource.directory_reads hscan
  have hview : plan.owner.view.prefixView = plan.prefixView := hreads.prefix_eq
  have hremaining : plan.owner.view.remainingMetadata.offset = plan.start + plan.cost.bytes := by
    show plan.directory.view.remainingMetadata.offset = _
    rw [hreads.remaining]
  have hwork : plan.cost.work = plan.cost.bytes + plan.owner.view.typeCount +
      plan.owner.view.objectCount := congrArg ScanCost.work hreads.cost
  unfold directoryWork
  dsimp only
  rw [hview, hremaining]
  show plan.prefixCost.work + plan.prefixView.versionSource.size +
    2 * (plan.start + plan.cost.bytes - plan.start + _ + _) + plan.retainedBytes + 2 = _
  simp only [workUsed, admissionWork]
  omega

theorem directoryCreateInto_live (hle : mapped.length ≤ logicalSize)
    (engineVersion : DirectoryEngineVersion) (limits : DirectoryLimits) (answers : ℕ → Bool)
    (live : SerializedFileDirectory) (n : ℕ) :
    ∃ ran, serializedFileDirectoryCreateInto mapped logicalSize engineVersion limits answers
      (some live) n = .error ran (some live) n ∧ ran.workUsed = 0 := by
  refine ⟨directoryResult false ⟨.invalidArgument, 0, noOffset⟩ (unrejected .invalidState) .init,
    Call.bind_eq_error.mpr (Or.inr ⟨(), some live, n, if_pos hle, ?_⟩), rfl⟩
  exact Call.bind_eq_error.mpr (Or.inr ⟨_, _, _, rfl,
    Call.bind_eq_error.mpr (Or.inl (if_neg (by simp)))⟩)

theorem directoryCreateInto_empty (hle : mapped.length ≤ logicalSize) (limits : DirectoryLimits)
    (answers : ℕ → Bool) (n : ℕ) :
    serializedFileDirectoryCreateInto mapped logicalSize engineVersion limits answers none n =
      match serializedFileDirectoryCreate mapped logicalSize engineVersion limits answers
        (none : Option SerializedFileDirectory) n with
      | .ok (directory, ran) _ n' => .ok ran (some directory) n'
      | .error ran handle n' => .error ran handle n' := by
  unfold serializedFileDirectoryCreateInto
  simp only [Call.bind_apply, Call.andThen, Call.require, if_pos hle, Call.current, if_true]
  cases serializedFileDirectoryCreate mapped logicalSize engineVersion limits answers
    (none : Option SerializedFileDirectory) n <;> rfl

/-- **Directories obey the work law.** -/
theorem directory_workLaw (mapped : Text) (logicalSize : ℕ)
    (engineVersion : DirectoryEngineVersion) (limits : DirectoryLimits) :
    WorkLaw (fun maxWork => serializedFileDirectoryCreateInto mapped logicalSize engineVersion
      { limits with maxWork }) DirectoryResult.workUsed
      ((directoryPlan mapped logicalSize engineVersion).map DirectoryPlan.workUsed)
      directoryWork := by
  by_cases hle : mapped.length ≤ logicalSize
  · cases hplan : directoryPlan mapped logicalSize engineVersion with
    | none =>
        refine WorkLaw.of_fails fun maxWork answers handle n => ?_
        cases handle with
        | some live =>
            obtain ⟨ran, herr, hwork⟩ := directoryCreateInto_live hle engineVersion
              { limits with maxWork } answers live n
            exact ⟨ran, n, herr, hwork ▸ Nat.zero_le _⟩
        | none =>
            obtain ⟨e, queried, state, made, herr, hwork⟩ := directoryCreate_unplanned
              { limits with maxWork } answers (none : Option SerializedFileDirectory) n
              List.prefix_rfl hle hplan
            refine ⟨directoryResult true queried e state, made, ?_, hwork⟩
            refine (directoryCreateInto_empty hle _ answers n).trans ?_
            rw [herr]
    | some plan =>
        refine WorkLaw.of_plan plan.owner plan.result (plan.Others limits mapped.length) rfl
          (plan.work_eq hplan) (fun maxWork answers live n => ?_) fun maxWork answers n => ?_
        · obtain ⟨ran, herr, hwork⟩ := directoryCreateInto_live hle engineVersion
            { limits with maxWork } answers live n
          exact ⟨ran, n, herr, hwork ▸ Nat.zero_le _⟩
        · rcases directoryCreate_planned { limits with maxWork } answers
            (none : Option SerializedFileDirectory) n List.prefix_rfl hle hplan with
            ⟨hroom, hok⟩ | ⟨e, queried, state, made, k, herr, hwork, -, hshort⟩
          · refine Or.inl ⟨(plan.room_iff limits _ maxWork _).mp hroom, ?_⟩
            refine (directoryCreateInto_empty hle _ answers n).trans ?_
            rw [hok]
          · refine Or.inr ⟨fun hall => ?_, directoryResult true queried e state, made, ?_, hwork⟩
            · exact (plan.room_iff limits _ maxWork _).mpr hall k hshort
            · refine (directoryCreateInto_empty hle _ answers n).trans ?_
              rw [herr]
  · refine WorkLaw.of_fails fun maxWork answers handle n => ?_
    exact ⟨directoryResult false ⟨.invalidArgument, 0, noOffset⟩ (unrejected .invalidArgument)
      .init, n, Call.bind_eq_error.mpr (Or.inl (if_neg hle)), Nat.zero_le _⟩

end Directory

section Tail

variable {mapped : Text} {logicalSize : ℕ} {directory : SerializedFileDirectory}
  {limits : TailLimits} {plan : TailPlan}

/-- The limits that a budget is not. -/
def TailPlan.Others (plan : TailPlan) (limits : TailLimits) (start mappedSize : ℕ) : Prop :=
  ∀ k, k ≠ .scan .work → k ≠ .storage → ¬ plan.Short limits start mappedSize true k

theorem TailPlan.short_other (plan : TailPlan) (limits : TailLimits)
    (start mappedSize maxWork : ℕ) (granted : Bool) {k : OwnerResource} (hwork : k ≠ .scan .work)
    (hstorage : k ≠ .storage) :
    plan.Short { limits with maxWork } start mappedSize granted k ↔
      plan.Short limits start mappedSize true k := by
  cases k with
  | prefixed k => exact Iff.rfl
  | scan k => cases k <;> first | exact absurd rfl hwork | exact Iff.rfl
  | retained => exact Iff.rfl
  | storage => exact absurd rfl hstorage

theorem TailPlan.short_work (plan : TailPlan) (limits : TailLimits)
    (start mappedSize : ℕ) (granted : Bool) :
    plan.Short limits start mappedSize granted (.scan .work) ↔ limits.maxWork < plan.workUsed := by
  show limits.maxWork < 1 + 2 * plan.cost.work + plan.retainedBytes + 2 ↔ _
  rw [workUsed]
  omega

theorem TailPlan.room_iff (plan : TailPlan) (limits : TailLimits)
    (start mappedSize maxWork : ℕ) (granted : Bool) :
    (∀ k, ¬ plan.Short { limits with maxWork } start mappedSize granted k) ↔
      plan.workUsed ≤ maxWork ∧ plan.Others limits start mappedSize ∧ granted = true := by
  constructor
  · intro h
    refine ⟨Nat.le_of_not_lt fun hwork => h (.scan .work) ((plan.short_work _ _ _ _).mpr hwork),
      fun k hwork hstorage hk => ?_, by simpa [Short, constructShort] using h .storage⟩
    exact h k ((plan.short_other limits _ _ _ _ hwork hstorage).mpr hk)
  · rintro ⟨hwork, hothers, hgranted⟩ k hk
    by_cases hk₁ : k = .scan .work
    · subst hk₁
      exact absurd ((plan.short_work _ _ _ _).mp hk) (Nat.not_lt.mpr hwork)
    by_cases hk₂ : k = .storage
    · subst hk₂
      have hdenied : granted = false := hk
      rw [hgranted] at hdenied
      cases hdenied
    exact hothers k hk₁ hk₂ ((plan.short_other limits _ _ _ _ hk₁ hk₂).mp hk)

theorem TailPlan.result_workUsed (plan : TailPlan) (start : ℕ) :
    (plan.result start).workUsed = plan.workUsed := by
  show 1 + 2 * plan.cost.work + plan.retainedBytes + 2 = _
  rw [workUsed]
  omega

theorem TailPlan.work_eq (ran : TailResult) (hplan : tailPlan mapped directory.view = some plan) :
    tailWork ran plan.owner = plan.workUsed := by
  obtain ⟨hscan, -⟩ := tailPlan_eq_some.mp hplan
  have hreads := MetadataSource.tail_reads hscan
  have hsource : plan.owner.view.source.size = plan.cost.bytes := by
    show plan.tail.view.source.size = _
    rw [hreads.source_eq]
  have hwork : plan.cost.work = plan.cost.bytes + plan.owner.view.scriptCount +
      plan.owner.view.externalCount + plan.owner.view.referenceTypeCount :=
    congrArg ScanCost.work hreads.cost
  unfold tailWork
  dsimp only
  rw [hsource, workUsed, hwork]
  rfl

theorem tailCreateInto_live (hle : mapped.length ≤ logicalSize)
    (directory : SerializedFileDirectory) (limits : TailLimits) (answers : ℕ → Bool)
    (live : SerializedFileMetadataTail) (n : ℕ) :
    ∃ ran, serializedFileMetadataTailCreateInto (some directory) mapped logicalSize limits answers
      (some live) n = .error ran (some live) n ∧ ran.workUsed = 0 := by
  refine ⟨tailResult ⟨.invalidState, .none, .none, none, noOffset⟩ .init,
    Call.bind_eq_error.mpr (Or.inr ⟨(), some live, n, if_pos hle, ?_⟩), rfl⟩
  refine Call.bind_eq_error.mpr (Or.inr ⟨directory, some live, n, rfl, ?_⟩)
  exact Call.bind_eq_error.mpr (Or.inr ⟨_, _, _, rfl,
    Call.bind_eq_error.mpr (Or.inl (if_neg (by simp)))⟩)

theorem tailCreateInto_empty (hle : mapped.length ≤ logicalSize)
    (directory : SerializedFileDirectory) (limits : TailLimits) (answers : ℕ → Bool) (n : ℕ) :
    serializedFileMetadataTailCreateInto (some directory) mapped logicalSize limits answers none
        n =
      match serializedFileMetadataTailCreate directory mapped logicalSize limits answers
        (none : Option SerializedFileMetadataTail) n with
      | .ok (tail, ran) _ n' => .ok ran (some tail) n'
      | .error ran handle n' => .error ran handle n' := by
  unfold serializedFileMetadataTailCreateInto
  simp only [Call.bind_apply, Call.andThen, Call.require, if_pos hle, Call.current, if_true,
    Call.ofOption]
  cases serializedFileMetadataTailCreate directory mapped logicalSize limits answers
    (none : Option SerializedFileMetadataTail) n <;> rfl

/-- **Tails obey the work law.** -/
theorem tail_workLaw (directory : Option SerializedFileDirectory) (mapped : Text)
    (logicalSize : ℕ) (limits : TailLimits) :
    WorkLaw (fun maxWork => serializedFileMetadataTailCreateInto directory mapped logicalSize
      { limits with maxWork }) TailResult.workUsed
      (directory.bind fun directory => (tailPlan mapped directory.view).map TailPlan.workUsed)
      tailWork := by
  by_cases hle : mapped.length ≤ logicalSize
  · cases directory with
    | none =>
        refine WorkLaw.of_fails fun maxWork answers handle n => ?_
        refine ⟨tailResult ⟨.invalidState, .none, .none, none, noOffset⟩ .init, n,
          Call.bind_eq_error.mpr (Or.inr ⟨(), handle, n, if_pos hle, ?_⟩), Nat.zero_le _⟩
        exact Call.bind_eq_error.mpr (Or.inl rfl)
    | some directory =>
        by_cases hplanned : logicalSize = directory.view.prefixView.header.fileSize ∧
            ∃ plan, tailPlan mapped directory.view = some plan
        · obtain ⟨hsize, plan, hplan⟩ := hplanned
          have hused : (plan.result directory.view.remainingMetadata.offset).workUsed =
              plan.workUsed := plan.result_workUsed _
          refine WorkLaw.of_plan plan.owner (plan.result directory.view.remainingMetadata.offset)
            (plan.Others limits directory.view.remainingMetadata.offset mapped.length)
            (by rw [Option.bind_some, hplan, hused, Option.map_some])
            ((plan.work_eq _ hplan).trans hused.symm) (fun maxWork answers live n => ?_)
            fun maxWork answers n => ?_
          · obtain ⟨ran, herr, hwork⟩ := tailCreateInto_live hle directory
              { limits with maxWork } answers live n
            exact ⟨ran, n, herr, hwork ▸ Nat.zero_le _⟩
          · rw [hused]
            rcases tailCreate_planned directory { limits with maxWork } answers
              (none : Option SerializedFileMetadataTail) n List.prefix_rfl hle hsize hplan with
              ⟨hroom, hok⟩ | ⟨e, state, made, k, herr, hwork, -, hshort⟩
            · refine Or.inl ⟨(plan.room_iff limits _ _ maxWork _).mp hroom, ?_⟩
              refine (tailCreateInto_empty hle _ _ answers n).trans ?_
              rw [hok]
            · refine Or.inr ⟨fun hall => ?_, tailResult e state, made, ?_, hwork⟩
              · exact (plan.room_iff limits _ _ maxWork _).mpr hall k hshort
              · refine (tailCreateInto_empty hle _ _ answers n).trans ?_
                rw [herr]
        · refine WorkLaw.of_fails fun maxWork answers handle n => ?_
          cases handle with
          | some live =>
              obtain ⟨ran, herr, hwork⟩ := tailCreateInto_live hle directory
                { limits with maxWork } answers live n
              exact ⟨ran, n, herr, hwork ▸ Nat.zero_le _⟩
          | none =>
              have hrefused : tailPlan mapped directory.view = none ∨
                  logicalSize ≠ directory.view.prefixView.header.fileSize := by
                by_cases hsize : logicalSize = directory.view.prefixView.header.fileSize
                · refine Or.inl (Option.eq_none_iff_forall_ne_some.mpr fun plan hplan => ?_)
                  exact hplanned ⟨hsize, plan, hplan⟩
                · exact Or.inr hsize
              obtain ⟨e, state, made, herr, hwork⟩ := tailCreate_unplanned directory
                { limits with maxWork } answers (none : Option SerializedFileMetadataTail) n
                List.prefix_rfl hle hrefused
              refine ⟨tailResult e state, made, ?_, hwork⟩
              refine (tailCreateInto_empty hle _ _ answers n).trans ?_
              rw [herr]
  · refine WorkLaw.of_fails fun maxWork answers handle n => ?_
    exact ⟨tailResult ⟨.invalidArgument, .none, .none, none, noOffset⟩ .init, n,
      Call.bind_eq_error.mpr (Or.inl (if_neg hle)), Nat.zero_le _⟩

end Tail

section ReferenceIndex

variable {tail : SerializedFileMetadataTail} {limits : ReferenceIndexLimits} {plan : IndexPlan}

/-- The limits that a budget is not. -/
def IndexPlan.Others (plan : IndexPlan) (tail : SerializedFileMetadataTail)
    (limits : ReferenceIndexLimits) : Prop :=
  ∀ k, k ≠ .work → k ≠ .storage → ¬ plan.Short tail limits true k

theorem IndexPlan.room_iff (plan : IndexPlan) (tail : SerializedFileMetadataTail)
    (limits : ReferenceIndexLimits) (maxWork : ℕ) (granted : Bool) :
    (∀ k, ¬ plan.Short tail { limits with maxWork } granted k) ↔
      plan.workUsed tail.view.referenceTypeCount ≤ maxWork ∧ plan.Others tail limits ∧
        granted = true := by
  constructor
  · intro h
    refine ⟨Nat.le_of_not_lt (h .work), fun k hwork hstorage hk => ?_,
      by simpa [Short] using h .storage⟩
    cases k with
    | work => exact absurd rfl hwork
    | storage => exact absurd rfl hstorage
    | identity => exact h .identity hk
    | types => exact h .types hk
    | retained => exact h .retained hk
  · rintro ⟨hwork, hothers, hgranted⟩ k hk
    cases k with
    | work => exact absurd hk (Nat.not_lt.mpr hwork)
    | storage =>
        have hdenied : granted = false := hk
        rw [hgranted] at hdenied
        cases hdenied
    | identity => exact hothers .identity (by simp) (by simp) hk
    | types => exact hothers .types (by simp) (by simp) hk
    | retained => exact hothers .retained (by simp) (by simp) hk

theorem referenceIndexCreateInto_live (tail : SerializedFileMetadataTail)
    (limits : ReferenceIndexLimits) (answers : ℕ → Bool) (live : SerializedFileReferenceIndex)
    (n : ℕ) :
    ∃ ran, serializedFileReferenceIndexCreateInto (some tail) limits answers (some live) n =
      .error ran (some live) n ∧ ran.workUsed = 0 := by
  refine ⟨referenceIndexResult (rejectIndexOwner .invalidState .none) {},
    Call.bind_eq_error.mpr (Or.inr ⟨tail, some live, n, rfl, ?_⟩), rfl⟩
  exact Call.bind_eq_error.mpr (Or.inr ⟨_, _, _, rfl,
    Call.bind_eq_error.mpr (Or.inl (if_neg (by simp)))⟩)

theorem referenceIndexCreateInto_empty (tail : SerializedFileMetadataTail)
    (limits : ReferenceIndexLimits) (answers : ℕ → Bool) (n : ℕ) :
    serializedFileReferenceIndexCreateInto (some tail) limits answers none n =
      match serializedFileReferenceIndexCreate tail limits answers
        (none : Option SerializedFileReferenceIndex) n with
      | .ok (index, ran) _ n' => .ok ran (some index) n'
      | .error ran handle n' => .error ran handle n' := by
  unfold serializedFileReferenceIndexCreateInto
  simp only [Call.bind_apply, Call.andThen, Call.require, Call.current, if_true, Call.ofOption]
  cases serializedFileReferenceIndexCreate tail limits answers
    (none : Option SerializedFileReferenceIndex) n <;> rfl

/-- **Reference indices obey the work law.** -/
theorem referenceIndex_workLaw (tail : Option SerializedFileMetadataTail)
    (limits : ReferenceIndexLimits) :
    WorkLaw (fun maxWork => serializedFileReferenceIndexCreateInto tail { limits with maxWork })
      ReferenceIndexResult.workUsed
      (tail.bind fun tail =>
        (indexPlan tail).map fun plan => plan.workUsed tail.view.referenceTypeCount)
      referenceIndexWork := by
  cases tail with
  | none =>
      refine WorkLaw.of_fails fun maxWork answers handle n => ?_
      exact ⟨referenceIndexResult (rejectIndexOwner .invalidState .none) {}, n,
        Call.bind_eq_error.mpr (Or.inl rfl), Nat.zero_le _⟩
  | some tail =>
      cases hplan : indexPlan tail with
      | none =>
          refine WorkLaw.of_fails fun maxWork answers handle n => ?_
          cases handle with
          | some live =>
              obtain ⟨ran, herr, hwork⟩ := referenceIndexCreateInto_live tail
                { limits with maxWork } answers live n
              exact ⟨ran, n, herr, hwork ▸ Nat.zero_le _⟩
          | none =>
              obtain ⟨e, build, made, herr, hwork⟩ := referenceIndexCreate_unplanned
                { limits with maxWork } answers (none : Option SerializedFileReferenceIndex) n
                hplan
              refine ⟨referenceIndexResult e build, made, ?_, hwork⟩
              refine (referenceIndexCreateInto_empty _ _ answers n).trans ?_
              rw [herr]
      | some plan =>
          refine WorkLaw.of_plan (plan.index tail) (plan.result tail) (plan.Others tail limits)
            (by rw [Option.bind_some, hplan]; rfl) rfl (fun maxWork answers live n => ?_)
            fun maxWork answers n => ?_
          · obtain ⟨ran, herr, hwork⟩ := referenceIndexCreateInto_live tail
              { limits with maxWork } answers live n
            exact ⟨ran, n, herr, hwork ▸ Nat.zero_le _⟩
          · rcases referenceIndexCreate_planned { limits with maxWork } answers
              (none : Option SerializedFileReferenceIndex) n hplan with
              ⟨hroom, hok⟩ | ⟨e, build, made, k, herr, hwork, -, hshort⟩
            · refine Or.inl ⟨(plan.room_iff tail limits maxWork _).mp hroom, ?_⟩
              refine (referenceIndexCreateInto_empty _ _ answers n).trans ?_
              rw [hok]
            · refine Or.inr ⟨fun hall => ?_, referenceIndexResult e build, made, ?_, hwork⟩
              · exact (plan.room_iff tail limits maxWork _).mpr hall k hshort
              · refine (referenceIndexCreateInto_empty _ _ answers n).trans ?_
                rw [herr]

end ReferenceIndex

/-! ## The second pass -/

/-- **The law of second passes.** A construction is its first pass, which ends
with the storage, and then a second one that fails for its budget alone and
stores within what was planned. -/
structure ReplayLaw {ε σ π α : Type} (create : Call ε σ α) (first : Call ε σ π)
    (second : π → Call ε σ α) (begins : σ) (OverBudget : ε → Prop)
    (Stored : π → (ℕ → Bool) → σ → ℕ → Prop) : Prop where
  passes : create = first >>= second
  failed : ∀ answers n planned s n', first answers begins n = .ok planned s n' →
    ∀ e s' n'', second planned answers s n' = .error e s' n'' → OverBudget e
  stored : ∀ answers n planned s n', first answers begins n = .ok planned s n' →
    Stored planned answers s n'

section Directory

variable (mapped : Text) (logicalSize : ℕ) (engineVersion : DirectoryEngineVersion)
  (limits : DirectoryLimits)

def scanDirectoryPass (prefixView : PrefixView) (planned : Option (ℕ × ℕ)) :
    Call DirectoryReject ScanState SerializedFileDirectory :=
  scanDirectory (directoryReader mapped limits prefixView) limits engineVersion prefixView
    (planned.map Prod.fst) (planned.map Prod.snd)

/-- The first pass: what it found, and the storage for it. -/
def prepareDirectory :
    Call DirectoryReject ScanState (PrefixView × SerializedFileDirectory × ℕ) := do
  let prefixView ← admitPrefix mapped logicalSize engineVersion limits
  let planned ← prepare (scanDirectoryPass mapped engineVersion limits prefixView)
    (fun directory => planDirectoryStorage limits directory.view) (chargeDirectoryOwner limits)
    ⟨.allocationFailed, .none, .none, none, noOffset⟩ prefixView.remainingMetadata.offset
  return (prefixView, planned)

def replayDirectory (planned : PrefixView × SerializedFileDirectory × ℕ) :
    Call DirectoryReject ScanState SerializedFileDirectory :=
  replay (scanDirectoryPass mapped engineVersion limits planned.1) (chargeDirectoryOwner limits)
    (fun directory => (directory.view.typeCount, directory.view.objectCount))
    (fun total directory =>
      { directory with view := { directory.view with retainedBytes := total } })
    planned.2.1 planned.2.2

/-- The rows that a second pass over a planned directory stores. -/
def StoredDirectory (planned : PrefixView × SerializedFileDirectory × ℕ) (answers : ℕ → Bool)
    (state : ScanState) (n : ℕ) : Prop :=
  let reader := directoryReader mapped limits planned.1
  let view := planned.2.1.view
  (storedTypes reader limits planned.1 (some view.typeCount) answers state n).length ≤
      view.typeCount ∧
    (storedObjects reader limits planned.1 (some view.typeCount) (some view.objectCount) answers
      state n).length ≤ view.objectCount

/-- A directory's rejection for the work limit. -/
def DirectoryReject.OverBudget (reject : DirectoryReject) : Prop :=
  reject.status = .limitExceeded ∧ reject.limit = .work

variable {mapped logicalSize engineVersion limits} {answers : ℕ → Bool} {n : ℕ}

/-- What an admission that succeeds has found, with room for it. -/
theorem admitPrefix_ok {prefixView : PrefixView} {state : ScanState} {n' : ℕ}
    (h : admitPrefix mapped logicalSize engineVersion limits answers .init n =
      .ok prefixView state n') :
    ∃ d, prefixFormat mapped logicalSize 0 = some (prefixView, d) ∧
      state = admittedState prefixView d ∧ n' = n ∧
      ∀ k, ¬ admissionShort limits mapped.length prefixView d k := by
  by_cases hle : mapped.length ≤ logicalSize
  · by_cases hadmitted : ∃ view d, prefixFormat mapped logicalSize 0 = some (view, d) ∧
        view.versionSource.bytes mapped = engineVersion.expectedVersion ∧
        view.typeTreeEnabledRaw ≤ 1
    · obtain ⟨view, d, hhead, hversion, hflag⟩ := hadmitted
      have hneeds := needs_admitPrefix limits answers n List.prefix_rfl hle hhead hversion hflag
      obtain ⟨rfl, rfl, rfl, hroom⟩ := hneeds.of_ok h
      exact ⟨d, hhead, rfl, rfl, hroom⟩
    · obtain ⟨e, u, m, herr, -⟩ : (admitPrefix mapped logicalSize engineVersion limits).Stops
          (ScanState.Within limits.maxWork) answers .init n :=
        stops_admitPrefix List.prefix_rfl hle fun view d hhead hok =>
          hadmitted ⟨view, d, hhead, hok⟩
      rw [h] at herr
      cases herr
  · -- a mapping beyond the file is no argument of the query
    have hquery : (serializedFilePrefixQuery mapped logicalSize
        ⟨limits.maxVersionBytes, limits.maxWork⟩).2 = none := by
      rw [serializedFilePrefixQuery, if_pos (Nat.lt_of_not_le hle)]
    unfold admitPrefix at h
    dsimp only at h
    rw [hquery] at h
    obtain ⟨_, s₁, n₁, -, h₁⟩ := Call.bind_eq_ok.mp h
    obtain ⟨_, s₂, n₂, hview, -⟩ := Call.bind_eq_ok.mp h₁
    cases hview

theorem directory_replayLaw (mapped : Text) (logicalSize : ℕ)
    (engineVersion : DirectoryEngineVersion) (limits : DirectoryLimits) :
    ReplayLaw (createDirectory mapped logicalSize engineVersion limits)
      (prepareDirectory mapped logicalSize engineVersion limits)
      (replayDirectory mapped engineVersion limits) .init DirectoryReject.OverBudget
      (StoredDirectory mapped limits) where
  passes := by
    rw [createDirectory_eq]
    unfold prepareDirectory
    rw [Call.bind_assoc]
    refine congrArg _ (funext fun prefixView => ?_)
    rw [Call.bind_assoc]
    exact construct_eq _ _ _ _ _ _ _
  stored answers n planned s n' _ :=
    ⟨storedTypes_length_le answers s n', storedObjects_length_le answers s n'⟩
  failed answers n planned s n' hfirst e s' n'' herr := by
    obtain ⟨prefixView, s₁, n₁, hgate, h₁⟩ := Call.bind_eq_ok.mp hfirst
    obtain ⟨found, s₂, n₂, hprepare, hp⟩ := Call.bind_eq_ok.mp h₁
    obtain ⟨rfl, rfl, rfl⟩ := Call.pure_eq_ok.mp hp
    obtain ⟨d, hhead, rfl, rfl, hroom⟩ := admitPrefix_ok hgate
    obtain ⟨hmap, hbytes, hwork⟩ := room_admission hroom
    obtain ⟨hextent, hsize, horigin⟩ := prefix_start hhead
    have hadmitted : (admittedState prefixView d).Within limits.maxWork := hwork
    let queried : PrefixResult := ⟨.ok, 0, noOffset⟩
    refine replay_fails (limits.budget mapped.length) limits.maxRetainedBytes
      (fun s amount m hs => needs_chargeDirectoryWork queried mapped.length answers m hs amount _
        _ _) ?_ (fun directory => ?_) ?_ horigin (hextent ▸ hmap) ?_ hadmitted hprepare
      herr
    · cases hscan : (metadataSource mapped prefixView).directory engineVersion prefixView none none
          prefixView.remainingMetadata.offset with
      | none =>
          refine Or.inr fun s m hfresh hs => ?_
          refine stops_scanDirectory List.prefix_rfl hs hfresh.nodes hfresh.strings hfresh.words ?_
          rw [hfresh.position, hscan]
      | some r =>
          obtain ⟨directory, cost⟩ := r
          refine Or.inl ⟨directory, cost, fun planned s m hplanned hfresh hs => ?_⟩
          refine needs_scanDirectory queried answers m List.prefix_rfl hs hfresh.nodes
            hfresh.strings hfresh.words ?_
          rw [hfresh.position]
          rcases hplanned with rfl | rfl
          · exact hscan
          · exact MetadataSource.directory_planned hscan
    · cases hlayout : directoryLayout directory.view with
      | none => exact Or.inr fun s m hs => stops_planDirectoryStorage hs hlayout
      | some total =>
          exact Or.inl ⟨total, fun s m hs =>
            needs_planDirectoryStorage queried mapped.length answers m hs hlayout⟩
    · exact rfl
    · show prefixView.remainingMetadata.offset ≤ v22HeaderSize + limits.maxMetadataBytes
      omega

end Directory

section Tail

variable (directory : DirectoryView) (mapped : Text) (logicalSize : ℕ) (limits : TailLimits)

def prepareTail : Call TailReject ScanState (SerializedFileMetadataTail × ℕ) := do
  chargeTailOwner limits 1
  Call.require (logicalSize = directory.prefixView.header.fileSize)
    ⟨.sourceMismatch, .none, .none, none, noOffset⟩
  prepare (scanTail (tailReader mapped limits directory) limits directory)
    (fun tail => planTailStorage limits tail.view) (chargeTailOwner limits)
    ⟨.allocationFailed, .none, .none, none, noOffset⟩ directory.remainingMetadata.offset

/-- The capacities of a planned tail. -/
def SerializedFileMetadataTail.capacities (tail : SerializedFileMetadataTail) : TailCapacities :=
  ⟨tail.view.scriptCount, tail.view.externalCount, tail.view.referenceTypeCount⟩

def replayTail (planned : SerializedFileMetadataTail × ℕ) :
    Call TailReject ScanState SerializedFileMetadataTail :=
  replay (scanTail (tailReader mapped limits directory) limits directory) (chargeTailOwner limits)
    SerializedFileMetadataTail.capacities
    (fun total tail => { tail with view := { tail.view with retainedBytes := total } })
    planned.1 planned.2

/-- The rows that a second pass over a planned tail stores. -/
def StoredTail (planned : SerializedFileMetadataTail × ℕ) (answers : ℕ → Bool)
    (state : ScanState) (n : ℕ) : Prop :=
  let reader := tailReader mapped limits directory
  let capacities := planned.1.capacities
  (storedScripts reader limits (some capacities) answers state n).length ≤
      planned.1.view.scriptCount ∧
    (storedExternals reader limits (some capacities) answers state n).length ≤
      planned.1.view.externalCount ∧
    (storedReferenceTypes reader limits (directory.prefixView.typeTreeEnabledRaw != 0)
      (some capacities) answers state n).length ≤ planned.1.view.referenceTypeCount

def TailReject.OverBudget (reject : TailReject) : Prop :=
  reject.status = .limitExceeded ∧ reject.limit = .work

theorem tail_replayLaw :
    ReplayLaw (createTail directory mapped logicalSize limits)
      (prepareTail directory mapped logicalSize limits) (replayTail directory mapped limits) .init
      TailReject.OverBudget (StoredTail directory mapped limits) where
  passes := by
    rw [createTail_eq]
    unfold prepareTail
    rw [Call.bind_assoc]
    refine congrArg _ (funext fun _ => ?_)
    rw [Call.bind_assoc]
    refine congrArg _ (funext fun _ => ?_)
    exact construct_eq _ _ _ _ _ _ _
  stored answers n planned s n' _ :=
    ⟨storedScripts_length_le planned.1.capacities answers s n',
      storedExternals_length_le planned.1.capacities answers s n',
      storedReferenceTypes_length_le planned.1.capacities answers s n'⟩
  failed answers n planned s n' hfirst e s' n'' herr := by
    -- what the passes share: the charge for the call, and the size of the file
    have hcharge := needs_chargeTailWork mapped.length answers n
      (show ScanState.init.Within limits.maxWork from Nat.zero_le _) 1 .none none noOffset
    obtain ⟨_, s₁, n₁, hcharged, h₁⟩ := Call.bind_eq_ok.mp hfirst
    obtain ⟨-, rfl, rfl, hroom⟩ := hcharge.of_ok hcharged
    obtain ⟨-, hprepare⟩ := Call.require_bind_eq_ok.mp h₁
    have hwork : (ScanState.init.charged 1).Within limits.maxWork := room_workShort.mp hroom
    -- the second pass sees what the first saw, so nothing but work can stop it
    by_cases hstart : directory.remainingMetadata.offset ≤ mapped.length
    · refine replay_fails (limits.budget directory.remainingMetadata.offset mapped.length)
        limits.maxRetainedBytes
        (fun s amount m hs => needs_chargeTailWork mapped.length answers m hs amount _ _ _)
        ?_ (fun tail => ?_) ?_ (Nat.le_refl _) hstart (Nat.le_add_right _ _) hwork hprepare herr
      · cases hscan : (metadataSource mapped directory.prefixView).tail directory none
            directory.remainingMetadata.offset with
        | none =>
            refine Or.inr fun s m hfresh hs => ?_
            refine stops_scanTail List.prefix_rfl hs hfresh.nodes hfresh.strings
              hfresh.terminated ?_
            rw [hfresh.position]
            exact hscan
        | some r =>
            obtain ⟨tail, cost⟩ := r
            refine Or.inl ⟨tail, cost, fun planned s m hplanned hfresh hs => ?_⟩
            refine needs_scanTail answers m List.prefix_rfl hs hfresh.nodes hfresh.strings
              hfresh.terminated ?_
            rw [hfresh.position]
            rcases hplanned with rfl | rfl
            · exact hscan
            · exact MetadataSource.tail_planned hscan
      · cases hlayout : tailLayout tail.view with
        | none => exact Or.inr fun s m hs => stops_planTailStorage hs hlayout
        | some total =>
            exact Or.inl ⟨total, fun s m hs =>
              needs_planTailStorage mapped.length answers m hs hlayout⟩
      · exact rfl
    · -- nothing of the tail is mapped
      obtain ⟨_, s₂, n₂, hrewound, h₂⟩ := Call.bind_eq_ok.mp hprepare
      obtain ⟨_, s₃, n₃, hscan, -⟩ := Call.bind_eq_ok.mp h₂
      cases hrewound
      obtain ⟨e', herr', -⟩ := scanTail_unmapped (tailReader mapped limits directory) limits
        directory none answers n₁ ((ScanState.init.charged 1).rewind
          directory.remainingMetadata.offset) (Nat.lt_of_not_le hstart)
      rw [hscan] at herr'
      cases herr'

end Tail

section ReferenceIndex

variable (tail : SerializedFileMetadataTail) (limits : ReferenceIndexLimits)

/-- The first loop of an index, and the storage for its rows. -/
def prepareReferenceIndex : Call ReferenceIndexReject IndexBuild ℕ := do
  let source := tail.view.source
  Call.require (source.offset ≤ sizeMax ∧ source.size ≤ sizeMax - source.offset)
    (rejectIndexOwner .invalidState .none)
  chargeBuild limits 1 none noOffset
  selectDomain limits tail.view
  let _ ← Call.collect (preflightOrdinal limits (source.offset + source.size) tail) 0
    tail.view.referenceTypeCount
  chargeBuild limits 1 none noOffset
  let retainedBytes ← Call.ofOption (rejectIndexOwner .limitExceeded .retainedBytes)
    (referenceIndexLayout tail.view.referenceTypeCount)
  Call.modify fun build => { build with requiredRetainedBytes := retainedBytes }
  Call.require (retainedBytes ≤ limits.maxRetainedBytes)
    (rejectIndexOwner .limitExceeded .retainedBytes)
  chargeBuild limits retainedBytes none noOffset
  Call.request (rejectIndexOwner .allocationFailed .none)
  Call.modify fun build => { build with peakRetainedBytes := retainedBytes }
  return retainedBytes

/-- The second loop, and the publication. -/
def replayReferenceIndex (retainedBytes : ℕ) :
    Call ReferenceIndexReject IndexBuild SerializedFileReferenceIndex := do
  let rows ← Call.collect (copyOrdinal limits tail) 0 tail.view.referenceTypeCount
  chargeBuild limits 1 none noOffset
  let build ← Call.current
  return {
    view := {
      engineVersion := tail.view.directory.engineVersion
      prefixView := tail.view.directory.prefixView
      tailSource := tail.view.source
      referenceTypeCountSource := tail.view.referenceTypeCountSource
      referenceTypeRowsSource := tail.view.referenceTypeRowsSource
      referenceTypeCount := tail.view.referenceTypeCount
      identitySourceBytes := build.identitySourceBytes
      retainedBytes }
    rows
    knownSize := tail.view.source.offset + tail.view.source.size }

/-- The rows that the second loop stores: those of the tail at their ordinals, in
storage planned for all of them. -/
def StoredReferenceIndex (retainedBytes : ℕ) (answers : ℕ → Bool) (build : IndexBuild) (n : ℕ) :
    Prop :=
  let count := tail.view.referenceTypeCount
  let stored := Call.finished (copyOrdinal limits tail) 0 count answers build n
  referenceIndexLayout count = some retainedBytes ∧ stored.length ≤ count ∧
    ∀ ordinal row, stored[ordinal]? = some row → tail.referenceType ordinal = some row

def ReferenceIndexReject.OverBudget (reject : ReferenceIndexReject) : Prop :=
  reject.status = .limitExceeded ∧ reject.limit = .work

variable {tail limits} {answers : ℕ → Bool} {build build' : IndexBuild} {n n' : ℕ}

theorem chargeBuild_sound {amount : ℕ} {ordinal : Option ℕ} {offset : ℕ} {u : Unit}
    (hs : limits.Sound build)
    (h : chargeBuild limits amount ordinal offset answers build n = .ok u build' n') :
    limits.Sound build' := by
  obtain ⟨d, -, hroom, rfl, -⟩ := (follows_chargeBuild hs amount ordinal offset).of_ok h
  exact limits.meter.sound_advance build d hs hroom

/-- A first pass that ends has seen every row, and leaves a sound state. -/
theorem prepareReferenceIndex_ok {retainedBytes : ℕ}
    (h : prepareReferenceIndex tail limits answers {} n = .ok retainedBytes build' n') :
    limits.Sound build' ∧
      referenceIndexLayout tail.view.referenceTypeCount = some retainedBytes ∧
      ∃ us d, Decoder.collect
        (ordinalFormat (tail.view.source.offset + tail.view.source.size) tail) 0
        tail.view.referenceTypeCount 0 = some (us, d) := by
  have hs₀ : limits.Sound {} := ⟨Nat.zero_le _, Nat.zero_le _⟩
  obtain ⟨-, h₁⟩ := Call.require_bind_eq_ok.mp h
  obtain ⟨_, s₁, n₁, hcharge, h₂⟩ := Call.bind_eq_ok.mp h₁
  have hs₁ := chargeBuild_sound hs₀ hcharge
  obtain ⟨_, s₂, n₂, hdomain, h₃⟩ := Call.bind_eq_ok.mp h₂
  -- choosing the domain writes the number of rows and no counter
  have hs₂ : limits.Sound s₂ := by
    obtain ⟨-, hcount⟩ := Call.require_bind_eq_ok.mp hdomain
    obtain ⟨_, t, m, hmodify, hlimit⟩ := Call.bind_eq_ok.mp hcount
    obtain ⟨-, htree⟩ := Call.require_bind_eq_ok.mp hlimit
    obtain ⟨-, rfl, -⟩ := Call.require_eq_ok.mp htree
    cases hmodify
    exact ⟨hs₁.work, hs₁.identity⟩
  obtain ⟨us, s₃, n₃, hseen, h₄⟩ := Call.bind_eq_ok.mp h₃
  have hloop : limits.meter.Follows ReferenceIndexReject.Cites s₂
      (Call.collect (preflightOrdinal limits (tail.view.source.offset + tail.view.source.size)
        tail) 0 tail.view.referenceTypeCount)
      (Decoder.collect (ordinalFormat (tail.view.source.offset + tail.view.source.size) tail) 0
        tail.view.referenceTypeCount) :=
    Meter.follows_collect (fun i b hb _ _ => follows_preflightOrdinal hb tail i) hs₂
  obtain ⟨d, hdecoded, hroom, rfl, -⟩ := hloop.of_ok hseen
  have hs₃ := limits.meter.sound_advance s₂ d hs₂ hroom
  obtain ⟨_, s₄, n₄, hcharge₄, h₅⟩ := Call.bind_eq_ok.mp h₄
  have hs₄ := chargeBuild_sound hs₃ hcharge₄
  obtain ⟨retained, s₅, n₅, hlaid, h₆⟩ := Call.bind_eq_ok.mp h₅
  obtain ⟨hlayout, rfl, -⟩ := Call.ofOption_eq_ok.mp hlaid
  obtain ⟨_, s₆, n₆, hmodify, h₇⟩ := Call.bind_eq_ok.mp h₆
  have hs₆ : limits.Sound s₆ := by
    cases hmodify
    exact ⟨hs₄.work, hs₄.identity⟩
  obtain ⟨-, h₈⟩ := Call.require_bind_eq_ok.mp h₇
  obtain ⟨_, s₇, n₇, hcharge₇, h₉⟩ := Call.bind_eq_ok.mp h₈
  have hs₇ := chargeBuild_sound hs₆ hcharge₇
  obtain ⟨-, h₁₀⟩ := Call.request_bind_eq_ok.mp h₉
  obtain ⟨_, s₈, n₈, hpeak, h₁₁⟩ := Call.bind_eq_ok.mp h₁₀
  obtain ⟨rfl, rfl, -⟩ := Call.pure_eq_ok.mp h₁₁
  cases hpeak
  exact ⟨⟨hs₇.work, hs₇.identity⟩, hlayout, us, d, hdecoded⟩

/-- A rejection that cites what work alone is short of. -/
theorem overBudget_of_short {d : IndexCost} {k : IndexResource} {e : ReferenceIndexReject}
    (hs : limits.Sound build) (hd : d.identity = 0) (hcites : e.Cites k)
    (hshort : limits.Short k build d) : e.OverBudget := by
  cases k with
  | work => exact hcites
  | identity =>
      have hover : limits.maxIdentitySourceBytes < build.identitySourceBytes + d.identity := hshort
      have := hs.identity
      omega
  | _ => exact absurd hshort id

theorem referenceIndex_replayLaw (tail : SerializedFileMetadataTail)
    (limits : ReferenceIndexLimits) :
    ReplayLaw (createReferenceIndex tail limits) (prepareReferenceIndex tail limits)
      (replayReferenceIndex tail limits) {} ReferenceIndexReject.OverBudget
      (StoredReferenceIndex tail limits) where
  passes := by
    simp only [createReferenceIndex, prepareReferenceIndex, replayReferenceIndex, Call.bind_assoc,
      Call.pure_bind]
  stored answers n planned s n' hfirst := by
    refine ⟨(prepareReferenceIndex_ok hfirst).2.1, Call.finished_length_le _ _ _ _ _ _, ?_⟩
    intro ordinal row hstored
    obtain ⟨s₁, n₁, s₂, n₂, hcopy⟩ := Call.getElem?_finished hstored
    obtain ⟨copied, t, m, hrow, hcharge⟩ := Call.bind_eq_ok.mp hcopy
    obtain ⟨hsome, -, -⟩ := Call.ofOption_eq_ok.mp hrow
    obtain ⟨_, u, m', -, hpure⟩ := Call.bind_eq_ok.mp hcharge
    obtain ⟨rfl, -, -⟩ := Call.pure_eq_ok.mp hpure
    rwa [Nat.zero_add] at hsome
  failed answers n planned s n' hfirst e s' n'' herr := by
    obtain ⟨hs, -, us, d, hseen⟩ := prepareReferenceIndex_ok hfirst
    obtain ⟨rows, hrows⟩ := rows_copied hseen
    have hcopy := needs_copy limits answers n' hs hrows
    rcases Call.bind_eq_error.mp herr with hfails | ⟨copied, t, m, hok, hrest⟩
    · obtain ⟨-, k, hcites, hshort⟩ := hcopy.of_error hfails
      exact overBudget_of_short hs rfl hcites hshort
    · obtain ⟨-, rfl, rfl, hroom⟩ := hcopy.of_ok hok
      have hs' := limits.meter.sound_advance s _ hs hroom
      rcases Call.bind_eq_error.mp hrest with hcharge | ⟨_, u, m', -, hpublish⟩
      · obtain ⟨-, k, hcites, hshort⟩ :=
          (needs_chargeBuild limits answers _ hs' 1 none noOffset).of_error hcharge
        exact overBudget_of_short hs' rfl hcites hshort
      · cases hpublish

end ReferenceIndex

/-! ## Together -/

/-- **Work and replay** of the three constructions. -/
theorem twoPass_workLaw :
    (∀ mapped logicalSize engineVersion (limits : DirectoryLimits),
      WorkLaw (fun maxWork => serializedFileDirectoryCreateInto mapped logicalSize engineVersion
          { limits with maxWork }) DirectoryResult.workUsed
          ((directoryPlan mapped logicalSize engineVersion).map DirectoryPlan.workUsed)
          directoryWork ∧
        ReplayLaw (createDirectory mapped logicalSize engineVersion limits)
          (prepareDirectory mapped logicalSize engineVersion limits)
          (replayDirectory mapped engineVersion limits) .init DirectoryReject.OverBudget
          (StoredDirectory mapped limits)) ∧
    (∀ directory mapped logicalSize (limits : TailLimits),
      WorkLaw (fun maxWork => serializedFileMetadataTailCreateInto directory mapped logicalSize
        { limits with maxWork }) TailResult.workUsed
        (directory.bind fun directory => (tailPlan mapped directory.view).map TailPlan.workUsed)
        tailWork) ∧
    (∀ directory mapped logicalSize limits,
      ReplayLaw (createTail directory mapped logicalSize limits)
        (prepareTail directory mapped logicalSize limits) (replayTail directory mapped limits)
        .init TailReject.OverBudget (StoredTail directory mapped limits)) ∧
    (∀ tail (limits : ReferenceIndexLimits),
      WorkLaw (fun maxWork => serializedFileReferenceIndexCreateInto tail { limits with maxWork })
        ReferenceIndexResult.workUsed
        (tail.bind fun tail =>
          (indexPlan tail).map fun plan => plan.workUsed tail.view.referenceTypeCount)
        referenceIndexWork) ∧
    ∀ tail limits,
      ReplayLaw (createReferenceIndex tail limits) (prepareReferenceIndex tail limits)
        (replayReferenceIndex tail limits) {} ReferenceIndexReject.OverBudget
        (StoredReferenceIndex tail limits) :=
  ⟨fun mapped logicalSize engineVersion limits =>
    ⟨directory_workLaw mapped logicalSize engineVersion limits,
      directory_replayLaw mapped logicalSize engineVersion limits⟩,
    tail_workLaw, tail_replayLaw, referenceIndex_workLaw, referenceIndex_replayLaw⟩

/-- The budgets of a directory and its tail, and of an index with two rows. -/
theorem twoPass_workLaw_mixed :
    (∀ maxWork answers m, answers m = true →
      ((∃ ran handle m', serializedFileDirectoryCreateInto mixedText mixedText.length
          .engine2021_3_35f1 { mixedDirectoryLimits with maxWork } answers none m =
            .ok ran handle m') ↔ 1675 ≤ maxWork)) ∧
    (∀ maxWork answers m, answers m = true →
      ((∃ ran handle m', serializedFileMetadataTailCreateInto (mixedRuns.map Prod.fst) mixedText
          mixedText.length { mixedTailLimits with maxWork } answers none m =
            .ok ran handle m') ↔ 1335 ≤ maxWork)) ∧
    ∀ maxWork answers m, answers m = true →
      ((∃ ran handle m', serializedFileReferenceIndexCreateInto (some twiceTail)
          { twiceLimits with maxWork } answers none m = .ok ran handle m') ↔ 1287 ≤ maxWork) := by
  obtain ⟨hdirectory, htail, -, hindex, -⟩ := twoPass_workLaw
  refine ⟨fun maxWork answers m hgranted => ?_, fun maxWork answers m hgranted => ?_,
    fun maxWork answers m hgranted => ?_⟩
  · obtain ⟨ran, handle, made, hrun, hwork⟩ : ∃ ran handle made,
        serializedFileDirectoryCreateInto mixedText mixedText.length .engine2021_3_35f1
          mixedDirectoryLimits Call.granted none 0 = .ok ran handle made ∧
        ran.workUsed = 1675 := Call.Result.exists_ok (by decide +kernel)
    rw [← hwork]
    exact (hdirectory _ _ _ mixedDirectoryLimits).1.covers hrun hgranted
  · obtain ⟨ran, handle, made, hrun, hwork⟩ : ∃ ran handle made,
        serializedFileMetadataTailCreateInto (mixedRuns.map Prod.fst) mixedText mixedText.length
          mixedTailLimits Call.granted none 0 = .ok ran handle made ∧
        ran.workUsed = 1335 := Call.Result.exists_ok (by decide +kernel)
    rw [← hwork]
    exact (htail _ _ _ mixedTailLimits).covers hrun hgranted
  · obtain ⟨ran, handle, made, hrun, hwork⟩ : ∃ ran handle made,
        serializedFileReferenceIndexCreateInto (some twiceTail) twiceLimits Call.granted none 0 =
          .ok ran handle made ∧ ran.workUsed = 1287 := Call.Result.exists_ok (by decide +kernel)
    rw [← hwork]
    exact (hindex _ twiceLimits).covers hrun hgranted

end UnityCommon.Metadata
