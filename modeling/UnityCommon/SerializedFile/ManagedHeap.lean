import UnityCommon.Common.Words
import UnityCommon.SerializedFile.ManagedFrame
import UnityCommon.SerializedFile.NestedPeaks
import UnityCommon.SerializedFile.SchemaLaw
import UnityCommon.SerializedFile.SchemaRecords

/-!
# The heap of managed values

What a construction holds is split as its reservation is: the prerequisites have
one part, and the scratch of a schema shares the other with the final storage.
No schema is compiled once there is a storage.
-/

namespace UnityCommon.ManagedValues

open UnityCommon.Metadata
open Call (Maintains Triple)
open Ledger (Throughout ThroughoutFrom held heldFrom)

/-! ## Parts of the reservation -/

def prerequisites (at_ : ManagedOwner → ℕ) : ℕ :=
  at_ .hostSchema + at_ .referenceIndex + at_ .typeCache + at_ .selectedSchema

def totalBytes (at_ : ManagedOwner → ℕ) : ℕ :=
  prerequisites at_ + at_ .schemaScratch + at_ .finalStorage

/-- What is held stays within the parts of the reservation and below the peaks. -/
structure Fits (limits : ManagedValuesLimits) (memory : ManagedMemory)
    (at_ : ManagedOwner → ℕ) : Prop where
  prerequisites : prerequisites at_ ≤ limits.maxPrerequisiteBytes
  scratch : at_ .schemaScratch ≤ limits.maxSchemaScratchBytes
  storage : at_ .finalStorage ≤ limits.maxRetainedBytes
  exclusive : at_ .schemaScratch = 0 ∨ at_ .finalStorage = 0
  peakPrerequisites : ManagedValues.prerequisites at_ ≤ memory.peakPrerequisiteBytes
  peakScratch : at_ .schemaScratch ≤ memory.peakSchemaScratchBytes
  peakStorage : at_ .finalStorage ≤ memory.peakRetainedBytes

section Fits

variable {limits : ManagedValuesLimits} {memory memory' : ManagedMemory} {at_ : ManagedOwner → ℕ}
  {owner : ManagedOwner} {bytes : ℕ}

/-- **The parts make up the reservation.** -/
theorem Fits.totalBytes_le (h : Fits limits memory at_) : totalBytes at_ ≤ heapReservation limits := by
  have hprerequisites := h.prerequisites
  have hscratch := h.scratch
  have hstorage := h.storage
  unfold totalBytes heapReservation
  rcases h.exclusive with hzero | hzero <;> omega

theorem Fits.mono (h : Fits limits memory at_)
    (hprerequisites : memory.peakPrerequisiteBytes ≤ memory'.peakPrerequisiteBytes)
    (hscratch : memory.peakSchemaScratchBytes ≤ memory'.peakSchemaScratchBytes)
    (hstorage : memory.peakRetainedBytes ≤ memory'.peakRetainedBytes) :
    Fits limits memory' at_ :=
  { h with
    peakPrerequisites := h.peakPrerequisites.trans hprerequisites
    peakScratch := h.peakScratch.trans hscratch
    peakStorage := h.peakStorage.trans hstorage }

/-- Neither the scratch nor the final storage. -/
def ManagedOwner.IsPrerequisite (owner : ManagedOwner) : Prop :=
  owner ≠ .schemaScratch ∧ owner ≠ .finalStorage

theorem prerequisites_request (h : owner.IsPrerequisite) :
    prerequisites (Ledger.Event.apply at_ (.request owner bytes)) = prerequisites at_ + bytes := by
  obtain ⟨hscratch, hstorage⟩ := h
  unfold prerequisites
  cases owner <;> simp [Ledger.Event.apply] at * <;> omega

theorem prerequisites_release (h : owner.IsPrerequisite) (hbytes : bytes ≤ at_ owner) :
    prerequisites (Ledger.Event.apply at_ (.release owner bytes)) = prerequisites at_ - bytes := by
  obtain ⟨hscratch, hstorage⟩ := h
  unfold prerequisites
  cases owner <;> simp [Ledger.Event.apply] at * <;> omega

theorem Fits.request (h : Fits limits memory at_) (howner : owner.IsPrerequisite)
    (hlimit : ManagedValues.prerequisites at_ + bytes ≤ limits.maxPrerequisiteBytes)
    (hpeak : ManagedValues.prerequisites at_ + bytes ≤ memory.peakPrerequisiteBytes) :
    Fits limits memory (Ledger.Event.apply at_ (.request owner bytes)) := by
  have hsum : ManagedValues.prerequisites (Ledger.Event.apply at_ (.request owner bytes)) =
      ManagedValues.prerequisites at_ + bytes := prerequisites_request howner
  have hscratch := Ledger.apply_request_of_ne at_ bytes howner.1.symm
  have hstorage := Ledger.apply_request_of_ne at_ bytes howner.2.symm
  constructor
  · rwa [hsum]
  · rw [hscratch]
    exact h.scratch
  · rw [hstorage]
    exact h.storage
  · rw [hscratch, hstorage]
    exact h.exclusive
  · rwa [hsum]
  · rw [hscratch]
    exact h.peakScratch
  · rw [hstorage]
    exact h.peakStorage

/-- The scratch is requested while there is no storage. -/
theorem Fits.requestScratch (h : Fits limits memory at_) (hnone : at_ .schemaScratch = 0)
    (hstorage : at_ .finalStorage = 0) (hlimit : bytes ≤ limits.maxSchemaScratchBytes)
    (hpeak : bytes ≤ memory.peakSchemaScratchBytes) :
    Fits limits memory (Ledger.Event.apply at_ (.request .schemaScratch bytes)) := by
  have hscratch : Ledger.Event.apply at_ (.request .schemaScratch bytes) .schemaScratch = bytes := by
    rw [Ledger.apply_request_self, hnone, Nat.zero_add]
  constructor
  · exact h.prerequisites
  · rwa [hscratch]
  · exact h.storage
  · exact Or.inr hstorage
  · exact h.peakPrerequisites
  · rwa [hscratch]
  · exact h.peakStorage

theorem Fits.requestStorage (h : Fits limits memory at_) (hnone : at_ .finalStorage = 0)
    (hscratch : at_ .schemaScratch = 0) (hlimit : bytes ≤ limits.maxRetainedBytes)
    (hpeak : bytes ≤ memory.peakRetainedBytes) :
    Fits limits memory (Ledger.Event.apply at_ (.request .finalStorage bytes)) := by
  have hstorage : Ledger.Event.apply at_ (.request .finalStorage bytes) .finalStorage = bytes := by
    rw [Ledger.apply_request_self, hnone, Nat.zero_add]
  constructor
  · exact h.prerequisites
  · exact h.scratch
  · rwa [hstorage]
  · exact Or.inl hscratch
  · exact h.peakPrerequisites
  · exact h.peakScratch
  · rwa [hstorage]

theorem prerequisites_mono {less more : ManagedOwner → ℕ} (h : less ≤ more) :
    prerequisites less ≤ prerequisites more :=
  Nat.add_le_add (Nat.add_le_add (Nat.add_le_add (h _) (h _)) (h _)) (h _)

theorem eq_zero_of_le {less more : ManagedOwner → ℕ} (h : less ≤ more) {owner : ManagedOwner}
    (hzero : more owner = 0) : less owner = 0 :=
  Nat.eq_zero_of_le_zero (hzero ▸ h owner)

theorem Fits.anti {less : ManagedOwner → ℕ} (h : Fits limits memory at_) (hle : less ≤ at_) :
    Fits limits memory less where
  prerequisites := (prerequisites_mono hle).trans h.prerequisites
  scratch := (hle _).trans h.scratch
  storage := (hle _).trans h.storage
  exclusive := h.exclusive.imp (eq_zero_of_le hle) (eq_zero_of_le hle)
  peakPrerequisites := (prerequisites_mono hle).trans h.peakPrerequisites
  peakScratch := (hle _).trans h.peakScratch
  peakStorage := (hle _).trans h.peakStorage

theorem Fits.release (h : Fits limits memory at_) (owner : ManagedOwner) (bytes : ℕ) :
    Fits limits memory (Ledger.Event.apply at_ (.release owner bytes)) :=
  h.anti (Ledger.apply_le_of_releases (Ledger.releases_release owner bytes) at_)

end Fits

/-! ## The bookkeeping -/

/-- What a trace amounts to: `used` bytes of prerequisites and no scratch;
`staged` is whether the final storage has been requested. -/
structure Accounts (limits : ManagedValuesLimits) (memory : ManagedMemory) (staged : Bool)
    (events : List (Ledger.Event ManagedOwner)) (used : ℕ) : Prop where
  fits : Throughout (Fits limits memory) events
  used : prerequisites (held events) = used
  scratch : held events .schemaScratch = 0
  storage : staged = false → held events .finalStorage = 0

namespace Accounts

variable {limits : ManagedValuesLimits} {memory memory' : ManagedMemory} {staged : Bool}
  {events : List (Ledger.Event ManagedOwner)} {owner : ManagedOwner} {used bytes : ℕ}

theorem now (h : Accounts limits memory staged events used) : Fits limits memory (held events) :=
  h.fits _ (List.prefix_refl _)

theorem mono (h : Accounts limits memory staged events used)
    (hprerequisites : memory.peakPrerequisiteBytes ≤ memory'.peakPrerequisiteBytes)
    (hscratch : memory.peakSchemaScratchBytes ≤ memory'.peakSchemaScratchBytes)
    (hstorage : memory.peakRetainedBytes ≤ memory'.peakRetainedBytes) :
    Accounts limits memory' staged events used :=
  { h with fits := h.fits.mono fun _ hat => hat.mono hprerequisites hscratch hstorage }

theorem held_snoc (events : List (Ledger.Event ManagedOwner)) (e : Ledger.Event ManagedOwner) :
    held (events ++ [e]) = e.apply (held events) := Ledger.held_append _ _

theorem request (h : Accounts limits memory staged events used) (howner : owner.IsPrerequisite)
    (hlimit : used + bytes ≤ limits.maxPrerequisiteBytes)
    (hpeak : used + bytes ≤ memory.peakPrerequisiteBytes) :
    Accounts limits memory staged (events ++ [.request owner bytes]) (used + bytes) := by
  have hnext := h.now.request howner (h.used.symm ▸ hlimit) (h.used.symm ▸ hpeak)
  constructor
  · exact Ledger.throughout_append.mpr ⟨h.fits, h.now, hnext⟩
  · rw [held_snoc, prerequisites_request howner, h.used]
  · rw [held_snoc, Ledger.apply_request_of_ne _ _ howner.1.symm, h.scratch]
  · intro hstaged
    rw [held_snoc, Ledger.apply_request_of_ne _ _ howner.2.symm, h.storage hstaged]

/-- The scratch of a schema comes and goes. -/
theorem scratched (h : Accounts limits memory staged events used) (hstaged : staged = false)
    (hlimit : bytes ≤ limits.maxSchemaScratchBytes)
    (hpeak : bytes ≤ memory.peakSchemaScratchBytes) :
    Accounts limits memory staged
      (events ++ [.request .schemaScratch bytes, .release .schemaScratch bytes]) used := by
  have hnext := h.now.requestScratch h.scratch (h.storage hstaged) hlimit hpeak
  have hheld := Ledger.held_append events
    [.request .schemaScratch bytes, .release .schemaScratch bytes]
  constructor
  · exact Ledger.throughout_append.mpr ⟨h.fits, h.now, hnext, hnext.release _ _⟩
  · rw [hheld]
    exact h.used
  · rw [hheld]
    simp [heldFrom, h.scratch]
  · intro _
    rw [hheld]
    exact h.storage hstaged

theorem release (h : Accounts limits memory staged events used) (howner : owner.IsPrerequisite)
    (hbytes : bytes ≤ held events owner) :
    Accounts limits memory staged (events ++ [.release owner bytes]) (used - bytes) := by
  constructor
  · exact Ledger.throughout_append.mpr ⟨h.fits, h.now, h.now.release _ _⟩
  · rw [held_snoc, prerequisites_release howner hbytes, h.used]
  · rw [held_snoc, Ledger.apply_release_of_ne _ _ howner.1.symm, h.scratch]
  · intro hstaged
    rw [held_snoc, Ledger.apply_release_of_ne _ _ howner.2.symm, h.storage hstaged]

theorem requestStorage (h : Accounts limits memory false events used)
    (hlimit : bytes ≤ limits.maxRetainedBytes) (hpeak : bytes ≤ memory.peakRetainedBytes) :
    Accounts limits memory true (events ++ [.request .finalStorage bytes]) used := by
  have hnext := h.now.requestStorage (h.storage rfl) h.scratch hlimit hpeak
  constructor
  · exact Ledger.throughout_append.mpr ⟨h.fits, h.now, hnext⟩
  · rw [held_snoc]
    exact h.used
  · rw [held_snoc]
    exact h.scratch
  · nofun

end Accounts

/-- The counters of a build say what its trace amounts to. -/
structure ManagedMemory.Sound (limits : ManagedValuesLimits) (staged : Bool)
    (memory : ManagedMemory) : Prop where
  accounts : Accounts limits memory staged memory.events memory.prerequisiteBytes
  unstaged : staged = false → memory.peakRetainedBytes = 0
  remainders : ∀ used ∈ memory.remainders, used ≤ limits.maxPrerequisiteBytes
  reserved : memory.reservedHeapBytes = heapReservation limits

namespace ManagedMemory.Sound

variable {limits : ManagedValuesLimits} {memory : ManagedMemory} {staged : Bool}

/-- **The subtraction does not underflow.** -/
theorem used_le (h : memory.Sound limits staged) :
    memory.prerequisiteBytes ≤ limits.maxPrerequisiteBytes :=
  h.accounts.used ▸ h.accounts.now.prerequisites

theorem remainder (h : memory.Sound limits staged) : memory.remainder.Sound limits staged where
  accounts := h.accounts.mono (Nat.le_refl _) (Nat.le_refl _) (Nat.le_refl _)
  unstaged := h.unstaged
  reserved := h.reserved
  remainders used hused := by
    rcases List.mem_append.mp hused with hused | hused
    · exact h.remainders used hused
    · rw [List.mem_singleton.mp hused]
      exact h.used_le

theorem fits_incoming (h : memory.Sound limits staged) {bytes : ℕ}
    (hbytes : bytes ≤ limits.maxPrerequisiteBytes - memory.prerequisiteBytes) :
    memory.prerequisiteBytes + bytes ≤ limits.maxPrerequisiteBytes := by
  have hle := h.used_le
  omega

theorem isPrerequisite_schemaOwner (reference : Bool) : (schemaOwner reference).IsPrerequisite := by
  cases reference <;> exact ⟨nofun, nofun⟩

/-- The trace while a nested schema is compiled, before it is known to end well. -/
theorem compiled (h : memory.Sound limits false) (reference made : Bool) (ran : SchemaResult)
    (hretained : ran.peakRetainedBytes ≤ limits.maxPrerequisiteBytes - memory.prerequisiteBytes)
    (hscratch : ran.peakScratchBytes ≤ limits.maxSchemaScratchBytes) :
    Accounts limits (memory.noteSchema (schemaOwner reference) made ran) false
      (memory.events ++ [.request (schemaOwner reference) ran.peakRetainedBytes] ++
        [.request .schemaScratch ran.peakScratchBytes,
          .release .schemaScratch ran.peakScratchBytes])
      (memory.prerequisiteBytes + ran.peakRetainedBytes) := by
  refine Accounts.scratched ?_ rfl hscratch (Nat.le_max_right _ _)
  refine Accounts.request ?_ (isPrerequisite_schemaOwner reference) (h.fits_incoming hretained)
    (Nat.le_max_right _ _)
  exact h.accounts.mono (Nat.le_max_left _ _) (Nat.le_max_left _ _) (Nat.le_refl _)

theorem noteSchema_made (h : memory.Sound limits false) (reference : Bool) {ran : SchemaResult}
    (hretained : ran.peakRetainedBytes ≤ limits.maxPrerequisiteBytes - memory.prerequisiteBytes)
    (hscratch : ran.peakScratchBytes ≤ limits.maxSchemaScratchBytes) :
    ((memory.noteSchema (schemaOwner reference) true ran).retain ran.peakRetainedBytes).Sound limits
      false where
  accounts := by
    have hcompiled := h.compiled reference true ran hretained hscratch
    rw [List.append_assoc] at hcompiled
    exact hcompiled.mono (Nat.le_refl _) (Nat.le_refl _) (Nat.le_refl _)
  unstaged := h.unstaged
  remainders := h.remainders
  reserved := h.reserved

theorem noteSchema_lost (h : memory.Sound limits false) (reference : Bool) {ran : SchemaResult}
    (hretained : ran.peakRetainedBytes ≤ limits.maxPrerequisiteBytes - memory.prerequisiteBytes)
    (hscratch : ran.peakScratchBytes ≤ limits.maxSchemaScratchBytes) :
    (memory.noteSchema (schemaOwner reference) false ran).Sound limits false where
  accounts := by
    have hcompiled := h.compiled reference false ran hretained hscratch
    have howner := isPrerequisite_schemaOwner reference
    have hheld : ran.peakRetainedBytes ≤ held (memory.events ++
        [.request (schemaOwner reference) ran.peakRetainedBytes] ++
        [.request .schemaScratch ran.peakScratchBytes,
          .release .schemaScratch ran.peakScratchBytes]) (schemaOwner reference) := by
      rw [Ledger.held_append, Accounts.held_snoc]
      simp [heldFrom, howner.1]
    have hlost := hcompiled.release howner hheld
    rw [Nat.add_sub_cancel, List.append_assoc, List.append_assoc] at hlost
    exact hlost
  unstaged := h.unstaged
  remainders := h.remainders
  reserved := h.reserved

theorem noteIndex_made (h : memory.Sound limits staged) {ran : ReferenceIndexResult}
    (hretained : ran.peakRetainedBytes ≤ limits.maxPrerequisiteBytes - memory.prerequisiteBytes) :
    ((memory.noteIndex true ran).retain ran.peakRetainedBytes).Sound limits staged where
  accounts := by
    refine Accounts.request ?_ ⟨nofun, nofun⟩ (h.fits_incoming hretained) (Nat.le_max_right _ _)
    exact h.accounts.mono (Nat.le_max_left _ _) (Nat.le_refl _) (Nat.le_refl _)
  unstaged := h.unstaged
  remainders := h.remainders
  reserved := h.reserved

theorem noteIndex_lost (h : memory.Sound limits staged) {ran : ReferenceIndexResult}
    (hretained : ran.peakRetainedBytes ≤ limits.maxPrerequisiteBytes - memory.prerequisiteBytes) :
    (memory.noteIndex false ran).Sound limits staged where
  accounts := by
    have hrequested : Accounts limits (memory.noteIndex false ran) staged
        (memory.events ++ [.request .referenceIndex ran.peakRetainedBytes])
        (memory.prerequisiteBytes + ran.peakRetainedBytes) := by
      refine Accounts.request ?_ ⟨nofun, nofun⟩ (h.fits_incoming hretained) (Nat.le_max_right _ _)
      exact h.accounts.mono (Nat.le_max_left _ _) (Nat.le_refl _) (Nat.le_refl _)
    have hheld : ran.peakRetainedBytes ≤ held (memory.events ++
        [.request .referenceIndex ran.peakRetainedBytes]) .referenceIndex := by
      simp [Accounts.held_snoc]
    have howner : ManagedOwner.IsPrerequisite .referenceIndex := ⟨nofun, nofun⟩
    have hlost := hrequested.release howner hheld
    rwa [Nat.add_sub_cancel, List.append_assoc] at hlost
  unstaged := h.unstaged
  remainders := h.remainders
  reserved := h.reserved

theorem allocateCache (h : memory.Sound limits staged) {bytes : ℕ}
    (hbytes : bytes ≤ limits.maxPrerequisiteBytes - memory.prerequisiteBytes) :
    (memory.allocateCache bytes).Sound limits staged where
  accounts := by
    refine Accounts.request ?_ ⟨nofun, nofun⟩ (h.fits_incoming hbytes) (Nat.le_max_right _ _)
    exact h.accounts.mono (Nat.le_max_left _ _) (Nat.le_refl _) (Nat.le_refl _)
  unstaged := h.unstaged
  remainders := h.remainders
  reserved := h.reserved

theorem allocateStorage (h : memory.Sound limits false) {bytes : ℕ}
    (hbytes : bytes ≤ limits.maxRetainedBytes) :
    (memory.allocateStorage bytes).Sound limits true where
  accounts := by
    refine Accounts.requestStorage ?_ hbytes (Nat.le_refl _)
    exact h.accounts.mono (Nat.le_refl _) (Nat.le_refl _) (h.unstaged rfl ▸ Nat.zero_le _)
  unstaged := nofun
  remainders := h.remainders
  reserved := h.reserved

end ManagedMemory.Sound

/-! ## The run -/

/-- The bookkeeping is sound, and the storage is there when `staged`. -/
def ManagedBuild.Sound (limits : ManagedValuesLimits) (staged : Bool) (build : ManagedBuild) :
    Prop :=
  build.memory.Sound limits staged ∧ build.storage.isSome = staged

section Run

variable {answers : ℕ → Bool} {mapped : Text} {limits : ManagedValuesLimits}
  {directory : SerializedFileDirectory} {tail : SerializedFileMetadataTail} {staged : Bool}

theorem framed_sound : Framed (ManagedBuild.Sound limits staged) := by
  rintro build build' hmemory hstorage - ⟨hsound, hstaged⟩
  exact ⟨hmemory ▸ hsound, hstorage ▸ hstaged⟩

theorem keptBy_sound (store : ManagedStorage → ManagedStorage) :
    KeptBy (ManagedBuild.Sound limits staged) store := by
  rintro build ⟨hsound, hstaged⟩
  exact ⟨hsound, by rw [← hstaged, Option.isSome_map]⟩

theorem Sound.unstaged {build : ManagedBuild} (h : build.Sound limits staged)
    (hnone : build.storage.isNone = true) : staged = false := by
  rw [← h.2]
  cases hstorage : build.storage with
  | none => rfl
  | some storage => rw [hstorage] at hnone; cases hnone

theorem keepSchema_memory (build : ManagedBuild) (reference : Bool)
    (schema : SerializedFileSchema) :
    (build.keepSchema reference schema).memory =
      build.memory.retain schema.view.retainedBytes := by
  cases reference <;> rfl

theorem keepSchema_storage (build : ManagedBuild) (reference : Bool)
    (schema : SerializedFileSchema) :
    (build.keepSchema reference schema).storage = build.storage := by
  cases reference <;> rfl

/-- **A nested schema** gets what is left of the prerequisites; its scratch is
there while there is no storage. -/
theorem triple_createSchema (ordinal : ℕ) (reference : Bool) :
    Triple answers (ManagedBuild.Sound limits false)
      (createSchema mapped limits directory tail ordinal reference)
      (fun _ => ManagedBuild.Sound limits false) fun _ => ManagedBuild.Sound limits false := by
  refine Triple.bind (Triple.modify (Q := fun _ => ManagedBuild.Sound limits false) ?_) fun _ => ?_
  · exact fun build h => framed_sound build _ rfl rfl rfl h
  refine Triple.bind (Triple.modify (Q := fun _ => ManagedBuild.Sound limits false) ?_) fun _ => ?_
  · exact fun build h => ⟨h.1.remainder, h.2⟩
  refine Triple.each fun build hbuild => Triple.reading ?_
  obtain ⟨hsound, hstaged⟩ := hbuild
  -- a nested schema is granted no more than what is left
  have hgranted : ∀ retained scratch, (schemaLimits limits build).Grants retained scratch →
      retained ≤ limits.maxPrerequisiteBytes - build.memory.prerequisiteBytes ∧
        scratch ≤ limits.maxSchemaScratchBytes := fun retained scratch h =>
    ⟨h.1.trans (Nat.min_le_right _ _), h.2.trans (Nat.min_le_right _ _)⟩
  refine Triple.bind (Q := fun schema after => ∃ ran, schema.view.retainedBytes =
      ran.peakRetainedBytes ∧ (schemaLimits limits build).Grants ran.peakRetainedBytes
        ran.peakScratchBytes ∧
      after.memory = build.memory.noteSchema (schemaOwner reference) true ran ∧
      after.storage = build.storage)
    (Triple.nested keeps_schemaCreate
      (V := fun schema ran => schema.view.retainedBytes = ran.peakRetainedBytes ∧
        (schemaLimits limits build).Grants ran.peakRetainedBytes ran.peakScratchBytes)
      (F := fun ran => (schemaLimits limits build).Grants ran.peakRetainedBytes
        ran.peakScratchBytes) ?_ ?_ ?_ ?_) fun schema => ?_
  · intro s n schema ran s' n' h
    exact (schemaCreate_peaks h).symm
  · intro s n ran s' n' h
    exact schemaCreate_peaks_of_error h
  · rintro _ schema ran rfl ⟨hretained, hgrants⟩
    exact ⟨ran, hretained, hgrants, rfl, rfl⟩
  · rintro _ ran rfl hgrants
    obtain ⟨hretained, hscratch⟩ := hgranted _ _ hgrants
    exact ⟨hsound.noteSchema_lost reference hretained hscratch, hstaged⟩
  · refine Triple.bind (Triple.modify (Q := fun _ => ManagedBuild.Sound limits false) ?_)
      fun _ => maintains_qualifySchema framed_sound.quiet _ _
    rintro after ⟨ran, hpeak, hgrants, hmemory, hstorage⟩
    obtain ⟨hretained, hscratch⟩ := hgranted _ _ hgrants
    constructor
    · rw [keepSchema_memory, hmemory, hpeak]
      exact hsound.noteSchema_made reference hretained hscratch
    · rw [keepSchema_storage, hstorage, hstaged]

theorem passInvariant_sound :
    PassInvariant answers mapped limits directory tail (ManagedBuild.Sound limits staged) where
  framed := framed_sound
  setValue _ _ := keptBy_sound _
  setRow _ _ := keptBy_sound _
  setSlot _ _ := keptBy_sound _
  createSchema ordinal := by
    refine Triple.assuming (fun build h => Sound.unstaged h.1 h.2) fun hstaged => ?_
    subst hstaged
    exact (triple_createSchema ordinal true).consequence (fun _ h => h.1)
      (fun _ _ h _ _ => h) fun _ _ h => h

theorem maintains_createIndex :
    Maintains answers (ManagedBuild.Sound limits false) (createIndex limits tail) := by
  refine Maintains.modifying (fun build h => ⟨h.1.remainder, h.2⟩) <| Maintains.reading fun build hbuild => ?_
  obtain ⟨hsound, hstaged⟩ := hbuild
  refine Triple.bind (Q := fun index after => ∃ ran, index.view.retainedBytes =
      ran.peakRetainedBytes ∧ ran.peakRetainedBytes ≤ (indexLimits limits build).maxRetainedBytes ∧
      after.memory = build.memory.noteIndex true ran ∧ after.storage = build.storage)
    (Triple.nested keeps_referenceIndexCreate
      (V := fun index ran => ran.peakRetainedBytes ≤ (indexLimits limits build).maxRetainedBytes ∧
        index.view.retainedBytes = ran.peakRetainedBytes)
      (F := fun ran => ran.peakRetainedBytes ≤ (indexLimits limits build).maxRetainedBytes)
      ?_ ?_ ?_ ?_) fun index => ?_
  · intro s n index ran s' n' h
    exact referenceIndexCreate_peak h
  · intro s n ran s' n' h
    exact referenceIndexCreate_peak_of_error h
  · rintro _ index ran rfl ⟨hle, hretained⟩
    exact ⟨ran, hretained, hle, rfl, rfl⟩
  · rintro _ ran rfl hle
    exact ⟨hsound.noteIndex_lost (hle.trans (Nat.min_le_right _ _)), hstaged⟩
  · refine Triple.bind (Triple.modify (Q := fun _ => ManagedBuild.Sound limits false) ?_)
      fun _ => Maintains.pure _
    rintro after ⟨ran, hpeak, hle, hmemory, hstorage⟩
    constructor
    · show (after.memory.retain index.view.retainedBytes).Sound limits false
      rw [hmemory, hpeak]
      exact hsound.noteIndex_made (hle.trans (Nat.min_le_right _ _))
    · exact hstorage ▸ hstaged

theorem maintains_createCache (typeCapacity : ℕ) :
    Maintains answers (ManagedBuild.Sound limits false) (createCache limits typeCapacity) := by
  refine (Maintains.require _ _).bind fun _ => ?_
  refine Maintains.modifying (fun build h => ⟨h.1.remainder, h.2⟩) <| Maintains.reading fun build hbuild => ?_
  refine Triple.requiring (fun _ => hbuild) fun hcap => ?_
  refine Triple.bind (Q := fun _ after => after.Sound limits false ∧
    after.memory = build.memory) ?_ fun _ => ?_
  · refine Triple.reading <| Triple.requiring (fun _ => hbuild) fun _ => Triple.modify ?_
    rintro _ rfl
    exact ⟨framed_sound _ _ rfl rfl rfl hbuild, rfl⟩
  · split
    · exact Triple.pure fun _ h => h.1
    · refine Triple.bind (Triple.request (Q := fun _ after => after.Sound limits false ∧
        after.memory = build.memory) (fun _ h => h) fun _ h _ => h.1) fun _ => Triple.modify ?_
      rintro after ⟨⟨hsound, hstaged⟩, hmemory⟩
      rw [remainingPrerequisite, ← hmemory] at hcap
      exact ⟨hsound.allocateCache hcap, hstaged⟩

/-- The storage is requested once. -/
theorem triple_allocateValues (view : ManagedView) :
    Triple answers (ManagedBuild.Sound limits false) (allocateValues limits view)
      (fun _ => ManagedBuild.Sound limits true) fun _ => ManagedBuild.Sound limits false := by
  have hplan : ∀ size count width, Maintains answers (ManagedBuild.Sound limits false)
      (planArray limits size count width) := fun _ _ _ =>
    (maintains_charge framed_sound.quiet _ _ _ _).bind fun _ => Maintains.ofOption _ _
  refine Triple.bind (hplan _ _ _) fun _ => Triple.bind (hplan _ _ _) fun _ => ?_
  refine Triple.bind (hplan _ _ _) fun _ => Triple.bind (hplan _ _ _) fun size => ?_
  refine Triple.bind (Triple.modify (Q := fun _ => ManagedBuild.Sound limits false) ?_) fun _ => ?_
  · exact fun build h => ⟨⟨h.1.accounts.mono (Nat.le_refl _) (Nat.le_refl _) (Nat.le_refl _),
      h.1.unstaged, h.1.remainders, h.1.reserved⟩, h.2⟩
  refine Triple.bind (Q := fun _ build => build.Sound limits false ∧
    size ≤ limits.maxRetainedBytes) (Triple.require (fun _ h hp => ⟨h, hp⟩) fun _ h _ => h)
    fun _ => Triple.assuming (fun _ h => h.2) fun hsize =>
    Triple.pre (P := ManagedBuild.Sound limits false) ?_ fun _ h => h.1
  refine Triple.bind (maintains_charge framed_sound.quiet _ _ _ _) fun _ => ?_
  refine Triple.bind (Triple.request (Q := fun _ => ManagedBuild.Sound limits false)
    (fun _ h => h) fun _ h _ => h) fun _ => Triple.modify ?_
  exact fun build h => ⟨h.1.allocateStorage hsize, rfl⟩

theorem maintains_resolveSlots {I : ManagedBuild → Prop} (hI : Quiet I)
    (storage : ManagedStorage) : Maintains answers I (resolveSlots limits storage) := by
  have hrows : ∀ value rows ordinal slot,
      Maintains answers I (matchRows limits value ordinal rows slot) := by
    intro value rows
    induction rows with
    | nil => exact fun _ _ => Maintains.pure _
    | cons row rows ih => exact fun _ _ => (maintains_charge hI _ _ _ _).bind fun _ => ih _ _
  have hslots : ∀ slots resolved, Maintains answers I (resolveEach limits storage slots resolved) := by
    intro slots
    induction slots with
    | nil => exact fun _ => Maintains.pure _
    | cons slot slots ih =>
        exact fun _ => Maintains.modifying (fun build h => hI build _ rfl rfl rfl rfl h) <|
          (hrows _ _ _ _).bind fun _ => (maintains_charge hI _ _ _ _).bind fun _ => ih _
  exact hslots _ _

/-- **However the decoding ends** its bookkeeping is sound. -/
theorem triple_decodeManagedValues (object : DirectoryObjectRow) :
    Triple answers (ManagedBuild.Sound limits false)
      (decodeManagedValues mapped limits directory tail object)
      (fun _ build => ∃ staged, build.Sound limits staged)
      fun _ build => ∃ staged, build.Sound limits staged := by
  have hany : ∀ {α : Type} {x : Call ManagedReject ManagedBuild α} {staged : Bool},
      Maintains answers (ManagedBuild.Sound limits staged) x →
      Triple answers (ManagedBuild.Sound limits staged) x
        (fun _ => ManagedBuild.Sound limits staged)
        fun _ build => ∃ staged, build.Sound limits staged := fun h =>
    h.consequence (fun _ h => h) (fun _ _ h => h) fun _ _ h => ⟨_, h⟩
  refine Triple.bind (hany (triple_createSchema _ _)) fun host => ?_
  refine Triple.bind (hany ?_) fun ⟨index, typeCapacity⟩ => ?_
  · exact maintains_createIndex.bind fun _ => (Maintains.require _ _).bind fun _ =>
      (maintains_createCache _).bind fun _ => Maintains.pure _
  refine Triple.bind (hany (maintains_parsePayload passInvariant_sound _ _ _ _)) fun plan => ?_
  refine Triple.bind ((triple_allocateValues _).consequence (fun _ h => h) (fun _ _ h => h)
    fun _ _ h => ⟨_, h⟩) fun _ => ?_
  refine Triple.bind (hany (maintains_parsePayload passInvariant_sound _ _ _ _)) fun plan => ?_
  refine Triple.bind (hany Maintains.current) fun build => ?_
  refine Triple.bind (hany (Maintains.ofOption _ _)) fun storage => ?_
  refine Triple.bind (hany (maintains_resolveSlots framed_sound.quiet _)) fun resolved => ?_
  refine Triple.bind (hany (maintains_charge framed_sound.quiet _ _ _ _)) fun _ => ?_
  exact Triple.pure fun _ h => ⟨_, h⟩

/-! ## The reservation -/

/-- Nothing is requested before the reservation, and no remainder taken. -/
def ManagedBuild.Untouched (build : ManagedBuild) : Prop :=
  build.memory.events = [] ∧ build.memory.remainders = [] ∧ build.memory.prerequisiteBytes = 0 ∧
    build.memory.peakRetainedBytes = 0 ∧ build.host = none ∧ build.index = none ∧
    build.cacheBytes = 0 ∧ build.selected = [] ∧ build.storage = none

/-- What `reserve_memory` has checked. -/
def ManagedBuild.Reserved (limits : ManagedValuesLimits) (build : ManagedBuild) : Prop :=
  build.memory.reservedHeapBytes = heapReservation limits ∧
    heapReservation limits ≤ limits.maxHeapBytes ∧
    (limits.maxPrerequisiteBytes ≤ sizeMax → heapReservation limits ≤ sizeMax)

theorem triple_reserveMemory :
    Triple answers ManagedBuild.Untouched (reserveMemory limits)
      (fun _ build => build.Untouched ∧ build.Reserved limits) fun _ => ManagedBuild.Untouched := by
  refine Triple.each fun build hbuild => Triple.requiring (fun _ => hbuild) fun hother => ?_
  refine Triple.bind (Q := fun _ after => after.Untouched ∧
    after.memory.reservedHeapBytes = heapReservation limits) (Triple.modify ?_) fun _ =>
    Triple.require (fun after h hcap => ⟨h.1, h.2, hcap, fun hsize => ?_⟩) fun _ h _ => h.1
  · rintro _ rfl
    exact ⟨hbuild, rfl⟩
  · unfold heapReservation
    omega

theorem triple_admitManagedValues (objectOrdinal mappedSize : ℕ) :
    Triple answers ManagedBuild.Untouched
      (admitManagedValues limits directory tail objectOrdinal mappedSize)
      (fun _ build => build.Untouched ∧ build.Reserved limits) fun _ => ManagedBuild.Untouched := by
  have hcharge : Maintains answers ManagedBuild.Untouched (charge limits 1 .none none noOffset) :=
    Maintains.current.bind fun _ => (Maintains.require _ _).bind fun _ => Maintains.modify fun _ h => h
  have hsource : Maintains answers ManagedBuild.Untouched
      (admitSource limits directory tail objectOrdinal mappedSize) :=
    (Maintains.require _ _).bind fun _ => (Maintains.require _ _).bind fun _ =>
      (Maintains.require _ _).bind fun _ => (Maintains.ofOption _ _).bind fun _ =>
      Maintains.modifying (fun _ h => h) <|
      (Maintains.require _ _).bind fun _ => (Maintains.require _ _).bind fun _ =>
      (Maintains.require _ _).bind fun _ => (Maintains.require _ _).bind fun _ =>
      (Maintains.require _ _).bind fun _ => Maintains.pure _
  refine Triple.bind hcharge fun _ => Triple.bind hsource fun object => ?_
  exact Triple.bind triple_reserveMemory fun _ => Triple.pure fun _ h => h

theorem Untouched.sound {build : ManagedBuild} (h : build.Untouched)
    (hreserved : build.Reserved limits) : build.Sound limits false := by
  obtain ⟨hevents, hremainders, hused, hpeak, -, -, -, -, hstorage⟩ := h
  constructor
  · constructor
    · rw [hevents, hused]
      refine ⟨Ledger.throughout_nil ?_, rfl, rfl, fun _ => rfl⟩
      exact ⟨Nat.zero_le _, Nat.zero_le _, Nat.zero_le _, Or.inl rfl, Nat.zero_le _, Nat.zero_le _,
        Nat.zero_le _⟩
    · exact fun _ => hpeak
    · simp [hremainders]
    · exact hreserved.1
  · rw [hstorage]
    rfl

end Run

/-! ## The whole call -/

section Call

variable {limits : ManagedValuesLimits}

/-- The record that an outcome is reported with. -/
def outcomeResult : Call.Result ManagedReject ManagedBuild ManagedStorage → ManagedValuesResult
  | .ok _ build _ => managedValuesResult (rejectOwner .ok .none) build
  | .error reject build _ => managedValuesResult reject build

theorem managedValuesCreate_apply (mapped : Text) (limits : ManagedValuesLimits)
    (directory : SerializedFileDirectory) (tail : SerializedFileMetadataTail)
    (objectOrdinal mappedSize : ℕ) (answers : ℕ → Bool) (n : ℕ) :
    let outcome := createManagedValues mapped limits directory tail objectOrdinal mappedSize
      answers {} n
    serializedFileManagedValuesCreate mapped limits directory tail objectOrdinal mappedSize answers
        none n =
      match outcome with
      | .ok storage _ n' => .ok (outcomeResult outcome) (some storage) n'
      | .error _ _ n' => .error (outcomeResult outcome) none n' := by
  intro outcome
  have hcreate : serializedFileManagedValuesCreate mapped limits directory tail objectOrdinal
      mappedSize answers none n =
      Call.andThen (Call.enclosed {} (createManagedValues mapped limits directory tail objectOrdinal
        mappedSize) managedValuesResult) (fun made => do
          Call.replace (some made.1)
          return managedValuesResult (rejectOwner .ok .none) made.2) answers none n := rfl
  rw [hcreate, Call.andThen, Call.enclosed]
  cases houtcome : outcome with
  | ok storage build n' =>
      rw [show createManagedValues mapped limits directory tail objectOrdinal mappedSize answers {} n =
        .ok storage build n' from houtcome]
      rfl
  | error reject build n' =>
      rw [show createManagedValues mapped limits directory tail objectOrdinal mappedSize answers {} n =
        .error reject build n' from houtcome]
      rfl

/-- What the counters of a finished build bound. -/
def ManagedMemory.Bounds (memory : ManagedMemory) (at_ : ManagedOwner → ℕ) : Prop :=
  totalBytes at_ ≤ memory.reservedHeapBytes ∧
    prerequisites at_ ≤ memory.peakPrerequisiteBytes ∧
    at_ .schemaScratch ≤ memory.peakSchemaScratchBytes ∧
    at_ .finalStorage ≤ memory.peakRetainedBytes

theorem ManagedMemory.Bounds.anti {memory : ManagedMemory} {more less : ManagedOwner → ℕ}
    (hle : less ≤ more) (h : memory.Bounds more) : memory.Bounds less :=
  ⟨(Nat.add_le_add (Nat.add_le_add (prerequisites_mono hle) (hle _)) (hle _)).trans h.1,
    (prerequisites_mono hle).trans h.2.1, (hle _).trans h.2.2.1, (hle _).trans h.2.2.2⟩

theorem releases_dispose (build : ManagedBuild) :
    (∀ e ∈ build.disposePrerequisites, e.Releases) ∧ ∀ e ∈ build.disposeStorage, e.Releases := by
  constructor
  · intro e he
    simp only [ManagedBuild.disposePrerequisites, List.mem_append, List.mem_map,
      List.mem_singleton] at he
    rcases he with ((⟨_, -, rfl⟩ | rfl) | ⟨_, -, rfl⟩) | ⟨_, -, rfl⟩ <;> exact trivial
  · intro e he
    obtain ⟨_, -, rfl⟩ := List.mem_map.mp he
    exact trivial

/-- The cleanup only releases. -/
theorem throughout_heapTrace {outcome : Call.Result ManagedReject ManagedBuild ManagedStorage}
    (h : Throughout outcome.state.memory.Bounds outcome.state.memory.events) :
    Throughout outcome.state.memory.Bounds (heapTrace outcome) := by
  have hnow := h _ (List.prefix_refl _)
  have hdown : ∀ more less, less ≤ more → outcome.state.memory.Bounds more →
      outcome.state.memory.Bounds less := fun _ _ => ManagedMemory.Bounds.anti
  cases outcome with
  | ok storage build n =>
      exact Ledger.throughout_append.mpr
        ⟨h, Ledger.throughoutFrom_of_releases hdown (releases_dispose build).1 hnow⟩
  | error reject build n =>
      refine Ledger.throughout_append.mpr
        ⟨h, Ledger.throughoutFrom_of_releases hdown (fun e he => ?_) hnow⟩
      rcases List.mem_append.mp he with he | he
      · exact (releases_dispose build).1 e he
      · exact (releases_dispose build).2 e he

/-- What a construction comes to: stopped before its reservation, or reserved and sound. -/
def ManagedBuild.Ended (limits : ManagedValuesLimits) (build : ManagedBuild) : Prop :=
  build.Untouched ∨ build.Reserved limits ∧ ∃ staged, build.Sound limits staged

theorem createManagedValues_ended (mapped : Text) (limits : ManagedValuesLimits)
    (directory : SerializedFileDirectory) (tail : SerializedFileMetadataTail)
    (objectOrdinal mappedSize : ℕ) (answers : ℕ → Bool) (n : ℕ) :
    (createManagedValues mapped limits directory tail objectOrdinal mappedSize answers {}
      n).state.Ended limits := by
  have htriple : Triple answers ManagedBuild.Untouched
      (createManagedValues mapped limits directory tail objectOrdinal mappedSize)
      (fun _ => ManagedBuild.Ended limits) fun _ => ManagedBuild.Ended limits := by
    refine Triple.bind ((triple_admitManagedValues objectOrdinal mappedSize).consequence
      (fun _ h => h) (fun _ _ h => h) fun _ _ h => Or.inl h) fun object => ?_
    refine Triple.each fun build hbuild => ?_
    have hended : ∀ after : ManagedBuild,
        (∃ staged, after.Sound limits staged) → after.Ended limits := by
      rintro after ⟨staged, hsound⟩
      exact Or.inr ⟨⟨hsound.1.reserved, hbuild.2.2⟩, staged, hsound⟩
    refine (triple_decodeManagedValues object).consequence ?_ (fun _ => hended) fun _ => hended
    rintro _ rfl
    exact Untouched.sound hbuild.1 hbuild.2
  have hstart : ManagedBuild.Untouched {} := ⟨rfl, rfl, rfl, rfl, rfl, rfl, rfl, rfl, rfl⟩
  have hends := htriple {} n hstart
  cases hrun : createManagedValues mapped limits directory tail objectOrdinal mappedSize answers {}
      n with
  | ok storage build n' =>
      rw [hrun] at hends
      exact hends
  | error reject build n' =>
      rw [hrun] at hends
      exact hends

/-- **The heap stays within its reservation**, from the first request to the end
of the cleanup and however the construction ends: what is held at once is at
most what is reserved, the reservation fits its limit and does not wrap, no
remainder underflows, and the peaks reported bound what was held. Where nothing
is reserved, nothing is requested. -/
theorem managedValuesCreate_heap (mapped : Text) (limits : ManagedValuesLimits)
    (directory : SerializedFileDirectory) (tail : SerializedFileMetadataTail)
    (objectOrdinal mappedSize : ℕ) (answers : ℕ → Bool) (n : ℕ) :
    let outcome := createManagedValues mapped limits directory tail objectOrdinal mappedSize
      answers {} n
    let ran := outcomeResult outcome
    let memory := outcome.state.memory
    (serializedFileManagedValuesCreate mapped limits directory tail objectOrdinal mappedSize answers
        none n =
      match outcome with
      | .ok storage _ n' => .ok ran (some storage) n'
      | .error _ _ n' => .error ran none n') ∧
    Throughout (fun at_ => totalBytes at_ ≤ ran.reservedHeapBytes ∧
        prerequisites at_ ≤ ran.peakPrerequisiteBytes ∧
        at_ .schemaScratch ≤ ran.peakSchemaScratchBytes ∧
        at_ .finalStorage ≤ ran.peakRetainedBytes) (heapTrace outcome) ∧
    (∀ used ∈ memory.remainders, used ≤ limits.maxPrerequisiteBytes) ∧
    (memory.events = [] ∧ memory.remainders = [] ∨
      ran.reservedHeapBytes = limits.maxPrerequisiteBytes +
          max limits.maxSchemaScratchBytes limits.maxRetainedBytes ∧
        ran.reservedHeapBytes ≤ limits.maxHeapBytes ∧
        (limits.maxPrerequisiteBytes ≤ sizeMax → ran.reservedHeapBytes ≤ sizeMax)) := by
  intro outcome ran memory
  -- the report copies the account, however the construction ends
  have hran : ran.reservedHeapBytes = memory.reservedHeapBytes ∧
      ran.peakPrerequisiteBytes = memory.peakPrerequisiteBytes ∧
      ran.peakSchemaScratchBytes = memory.peakSchemaScratchBytes ∧
      ran.peakRetainedBytes = memory.peakRetainedBytes := by
    show _ = outcome.state.memory.reservedHeapBytes ∧ _
    cases houtcome : outcome with
    | ok storage build n' => simp [ran, memory, houtcome, outcomeResult, managedValuesResult]
    | error reject build n' => simp [ran, memory, houtcome, outcomeResult, managedValuesResult]
  obtain ⟨hreserved, hprerequisites, hscratch, hretained⟩ := hran
  rw [hreserved, hprerequisites, hscratch, hretained]
  refine ⟨managedValuesCreate_apply mapped limits directory tail objectOrdinal mappedSize answers n,
    throughout_heapTrace ?_, ?_⟩
  · rcases createManagedValues_ended mapped limits directory tail objectOrdinal mappedSize answers n
      with huntouched | ⟨-, staged, hsound, -⟩
    · rw [huntouched.1]
      exact Ledger.throughout_nil ⟨Nat.zero_le _, Nat.zero_le _, Nat.zero_le _, Nat.zero_le _⟩
    · exact hsound.accounts.fits.mono fun at_ hat =>
        ⟨hsound.reserved ▸ hat.totalBytes_le, hat.peakPrerequisites, hat.peakScratch,
          hat.peakStorage⟩
  · rcases createManagedValues_ended mapped limits directory tail objectOrdinal mappedSize answers n
      with huntouched | ⟨hheap, staged, hsound, -⟩
    · have hnone : memory.remainders = [] := huntouched.2.1
      refine ⟨?_, Or.inl ⟨huntouched.1, hnone⟩⟩
      simp [hnone]
    · refine ⟨hsound.remainders, Or.inr ⟨hheap.1, ?_, ?_⟩⟩
      · rw [hheap.1]
        exact hheap.2.1
      · rw [hheap.1]
        exact hheap.2.2

end Call

/-! ## A payload with managed references -/

/-- The names that the registry of either profile has. -/
def sampleNames : List String :=
  ["int", "Array", "size", "char", "data", "string", "SInt64", "rid", "class", "ns", "asm", "type",
    "Base", "vector", "version", "RefIds", "references", "managedReference",
    "ManagedReferencesRegistry", "ReferencedObject", "ReferencedManagedType",
    "ReferencedObjectData"]

/-- Those of the host. -/
def sampleHostNames : List String :=
  ["MonoBehaviour", "PPtr<GameObject>", "m_GameObject", "m_FileID", "m_PathID", "UInt8",
    "m_Enabled", "PPtr<MonoScript>", "m_Script", "m_Name", "Object", "managedRefArrayItem"]

/-- Where the two names of each node are. -/
def sampleHostOffsets : List (UInt32 × UInt32) :=
  [(202, 61), (216, 233), (0, 246), (32, 255), (264, 270), (280, 297), (0, 246), (32, 255),
    (25, 306), (4, 4), (0, 10), (15, 20), (25, 20), (4, 4), (0, 10), (15, 20), (99, 20), (32, 39),
    (99, 20), (32, 39), (313, 20), (4, 4), (0, 10), (320, 20), (32, 39)]

def sampleFloatOffsets : List (UInt32 × UInt32) :=
  [(20, 61), (0, 20), (202, 20), (99, 20), (32, 39)]

def sampleRegistryOffsets : List (UInt32 × UInt32) :=
  [(116, 88), (0, 73), (66, 81), (4, 4), (0, 10), (142, 20), (32, 39), (159, 56), (25, 43), (4, 4),
    (0, 10), (15, 20), (25, 49), (4, 4), (0, 10), (15, 20), (25, 52), (4, 4), (0, 10), (15, 20),
    (181, 20)]

/-- A node record with its names at their offsets, and else as the profile has it. -/
def sampleRecord (index : ℕ) (node : ManagedNodeProfile × UInt32 × UInt32) : Text :=
  storeLe16 1 ++ [node.1.level, node.1.flags] ++ storeLe32 node.2.1 ++ storeLe32 node.2.2 ++
    storeLe32 node.1.byteSize ++ storeLe32 index.toUInt32 ++ storeLe32 node.1.metaFlags ++
    List.replicate 8 0

def sampleRecords (profile : ManagedProfile) (offsets : List (UInt32 × UInt32)) : List Text :=
  (profile.nodes.zip (offsets ++ sampleRegistryOffsets)).mapIdx sampleRecord

def sampleStrings (names : List String) : Text := names.flatMap fun name => ascii name ++ [0]

def hostRecords : List Text := sampleRecords managedHostProfile sampleHostOffsets
def floatRecords : List Text := sampleRecords managedFloatProfile sampleFloatOffsets

/-- An aligned string of at most three bytes. -/
def sampleString (text : String) : Text :=
  storeLe32 text.length.toUInt32 ++ ascii text ++
    if text.length = 0 then [] else List.replicate (4 - text.length) 0

/-- A row of the one reference type, with a reference of its own. -/
def sampleRow (rid nested : UInt64) : Text :=
  storeLe64 rid ++ sampleString "C" ++ sampleString "" ++ sampleString "A" ++
    storeLe32 1 ++ storeLe32 2 ++ storeLe64 nested

/-- Two fields and an array of one element, and rows of which two have the rid 5. -/
def samplePayload : Text :=
  storeLe32 0 ++ storeLe64 0 ++ [1, 0, 0, 0] ++ storeLe32 0 ++ storeLe64 0 ++ sampleString "" ++
    sampleString "" ++ storeLe64 5 ++ storeLe64 6 ++ storeLe32 1 ++ storeLe64 9 ++ storeLe32 2 ++
    storeLe32 4 ++ sampleRow 5 6 ++ sampleRow 5 0xfffffffffffffffe ++ sampleRow 6 5 ++
    storeLe64 0xfffffffffffffffe ++ sampleString "" ++ sampleString "" ++ sampleString ""

/-- The payload, then the tree of the reference type with its names, then that of the host. -/
def managedText : Text :=
  samplePayload ++ (floatRecords.flatten ++
    ((sampleStrings (sampleNames ++ ["float"]) ++ ascii "C" ++ [0, 0] ++ ascii "A" ++
      [0, 0, 0, 0]) ++ (hostRecords.flatten ++ sampleStrings (sampleNames ++ sampleHostNames))))

def floatTree : DirectoryTree := ⟨⟨0, 0⟩, ⟨0, 0⟩, ⟨224, 832⟩, ⟨1056, 208⟩, 26, 208⟩

def hostTree : DirectoryTree := ⟨⟨0, 0⟩, ⟨0, 0⟩, ⟨1272, 1472⟩, ⟨2744, 340⟩, 46, 340⟩

def samplePrefix (classIdBits : UInt32) : MetadataTypePrefix where
  classIdSource := ⟨0, 0⟩
  strippedSource := ⟨0, 0⟩
  scriptIndexSource := ⟨0, 0⟩
  scriptHashSource := some ⟨0, 16⟩
  typeHashSource := ⟨0, 16⟩
  classIdBits
  scriptIndexBits := 0
  strippedRaw := 0
  hasScriptHash := true

def managedDirectory : SerializedFileDirectory where
  view :=
    { sampleTreeDirectory.view with
      prefixView :=
        { sampleTreeDirectory.view.prefixView with
          header := { sampleTreeDirectory.view.prefixView.header with fileSize := 3084 } }
      remainingMetadata := ⟨3084, 0⟩
      typeCount := 1
      objectCount := 1 }
  types :=
    [{ samplePrefix 114 with
       ordinal := 0, source := ⟨1272, 1812⟩, tree := some hostTree, dependencies := none }]
  objects := [⟨0, ⟨0, 0⟩, 7, 0, 224, 0, ⟨0, 224⟩⟩]

def managedTail : SerializedFileMetadataTail where
  view :=
    { directory := managedDirectory.view, source := ⟨0, 3084⟩, scriptCountSource := ⟨0, 0⟩
      scriptRowsSource := ⟨0, 0⟩, externalCountSource := ⟨0, 0⟩, externalRowsSource := ⟨0, 0⟩
      referenceTypeCountSource := ⟨0, 0⟩, referenceTypeRowsSource := ⟨224, 1045⟩
      userInformationSource := ⟨0, 0⟩, scriptCount := 0, externalCount := 0
      referenceTypeCount := 1, nodeRecordCount := 26, treeStringByteCount := 208
      terminatedStringByteCount := 5, retainedBytes := 0 }
  scripts := []
  externals := []
  referenceTypes :=
    [{ samplePrefix 0xffffffff with
       ordinal := 0, source := ⟨224, 1045⟩, tree := some floatTree
       names := some ⟨⟨1264, 2⟩, ⟨1266, 1⟩, ⟨1267, 2⟩⟩ }]

/-- Limits that are enough. -/
def managedLimits : ManagedValuesLimits where
  maxPayloadBytes := 224
  maxValues := 38
  maxRegistryRows := 4
  maxRidSlots := 6
  maxArrayElements := 1
  maxSelectedTypes := 1
  maxStringBytes := 1
  maxTotalStringBytes := 6
  maxScalarBytes := 2 ^ 10
  maxTotalScalarBytes := 2 ^ 10
  maxPaddingBytes := 2 ^ 10
  maxPrerequisiteBytes := 2 ^ 15
  maxSchemaScratchBytes := 2 ^ 15
  maxRetainedBytes := 2 ^ 15
  maxHeapBytes := 2 ^ 16
  maxWork := 2 ^ 16
  schema := ⟨46, 340, 255, 2 ^ 15, 2 ^ 15, 2 ^ 16⟩
  index := ⟨1, 8, 2 ^ 15, 2 ^ 16⟩
  query := ⟨1, 8, 2 ^ 15⟩

def hostKnown : KnownTree where
  parent := .directory managedDirectory
  ordinal := 0
  view := SchemaRow.view ⟨.ordinaryType, ⟨1272, 1812⟩, samplePrefix 114, some hostTree, none, none⟩
    hostTree managedDirectory.view 0
  records := hostRecords
  workUsed := 17465

def floatKnown : KnownTree where
  parent := .tail managedTail
  ordinal := 0
  view := SchemaRow.view ⟨.referenceType, ⟨224, 1045⟩, samplePrefix 0xffffffff, some floatTree,
    some ⟨⟨1264, 2⟩, ⟨1266, 1⟩, ⟨1267, 2⟩⟩, none⟩ floatTree managedDirectory.view 0
  records := floatRecords
  workUsed := 11653

theorem hostKnown_standsIn : hostKnown.StandsIn managedText where
  schemaView := rfl
  known := by decide
  backed := by decide
  count := by decide +kernel
  count_lt := by decide
  width := by decide +kernel
  text := by
    refine ⟨samplePayload ++ (floatRecords.flatten ++ (sampleStrings (sampleNames ++ ["float"]) ++
      ascii "C" ++ [0, 0] ++ ascii "A" ++ [0, 0, 0, 0])),
      sampleStrings (sampleNames ++ sampleHostNames), ?_, by decide +kernel⟩
    simp only [managedText, hostKnown, List.append_assoc]
  levels := KnownTree.levels_of_plan (by decide +kernel)
  names := by decide +kernel
  work := by
    have hlocal : (hostKnown.view.localStrings managedText).length = 340 := by decide +kernel
    rw [SchemaView.workUsed, hlocal, length_commonStringTable]
    rfl

theorem floatKnown_standsIn : floatKnown.StandsIn managedText where
  schemaView := rfl
  known := by decide
  backed := by decide
  count := by decide +kernel
  count_lt := by decide
  width := by decide +kernel
  text := ⟨samplePayload, _, rfl, by decide +kernel⟩
  levels := KnownTree.levels_of_plan (by decide +kernel)
  names := by decide +kernel
  work := by
    have hlocal : (floatKnown.view.localStrings managedText).length = 208 := by decide +kernel
    rw [SchemaView.workUsed, hlocal, length_commonStringTable]
    rfl

/-- The construction succeeds, with a slot for each of the six references. -/
theorem createManagedValues_sample :
    ∃ storage build n, createManagedValues managedText managedLimits managedDirectory managedTail 0
        3084 Call.granted {} 0 = .ok storage build n ∧
      storage.slots.map (fun slot => (slot.ridBits, slot.matchCount, slot.resolution)) =
        [(5, 2, .ambiguous), (6, 1, .unique), (9, 0, .missing), (6, 1, .unique),
          (0xfffffffffffffffe, 1, .null), (5, 2, .ambiguous)] ∧
      build.memory.reservedHeapBytes = 2 ^ 16 ∧ build.memory.peakPrerequisiteBytes = 16160 ∧
      build.memory.peakSchemaScratchBytes = 2944 ∧ build.memory.peakRetainedBytes = 20304 := by
  have hhost : serializedFileSchemaCreate (σ := ManagedBuild) managedText
      (.directory managedDirectory) = hostKnown.create managedText := hostKnown_standsIn.create_eq
  have hfloat : serializedFileSchemaCreate (σ := ManagedBuild) managedText (.tail managedTail) =
      floatKnown.create managedText := floatKnown_standsIn.create_eq
  refine Call.Result.exists_ok ?_
  simp only [createManagedValues, decodeManagedValues, parsePayload, readRegistryRow,
    readRowPayload, selectSchema, cacheType, createSchema, Bool.false_eq_true, if_false, if_true,
    hhost, hfloat]
  decide +kernel

/-- The heap of that run, its cleanup included. -/
theorem managedValuesCreate_heap_sample :
    ∃ storage build n, createManagedValues managedText managedLimits managedDirectory managedTail 0
        3084 Call.granted {} 0 = .ok storage build n ∧
      Throughout (fun at_ => totalBytes at_ ≤ 2 ^ 16 ∧ prerequisites at_ ≤ 16160 ∧
          at_ .schemaScratch ≤ 2944 ∧ at_ .finalStorage ≤ 20304)
        (build.memory.events ++ build.disposePrerequisites) := by
  obtain ⟨storage, build, n, hrun, -, hreserved, hprerequisites, hscratch, hretained⟩ :=
    createManagedValues_sample
  have hheap := (managedValuesCreate_heap managedText managedLimits managedDirectory managedTail 0
    3084 Call.granted 0).2.1
  rw [hrun] at hheap
  refine ⟨storage, build, n, hrun, hheap.mono fun at_ hat => ?_⟩
  rw [← hreserved, ← hprerequisites, ← hscratch, ← hretained]
  exact hat

end UnityCommon.ManagedValues
