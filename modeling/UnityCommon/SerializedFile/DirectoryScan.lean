import UnityCommon.SerializedFile.Scan

/-!
# The directory scanner follows the format
-/

namespace UnityCommon.Metadata

/-- What the limits of a directory allow over a mapping. -/
def DirectoryLimits.budget (limits : DirectoryLimits) (mappedSize : ℕ) : ScanBudget where
  mappedSize := mappedSize
  origin := v22HeaderSize
  maxBytes := limits.maxMetadataBytes
  maxWork := limits.maxWork
  maxNodes := limits.maxNodeRecords
  maxStrings := limits.maxStringBytes
  maxWords := limits.maxDependencyWords
  maxTerminated := 0
  maxRows
    | .types => limits.maxTypes
    | .objects => limits.maxObjects
    | _ => 0

/-- The resource that a rejection reports. -/
def DirectoryReject.Cites (mappedSize : ℕ) (reject : DirectoryReject) : Resource → Prop
  | .mapping => reject.status = .incompleteMapping ∧ reject.errorOffset = mappedSize
  | .bytes => reject.status = .limitExceeded ∧ reject.limit = .metadataBytes
  | .work => reject.status = .limitExceeded ∧ reject.limit = .work
  | .nodes => reject.status = .limitExceeded ∧ reject.limit = .nodes
  | .strings => reject.status = .limitExceeded ∧ reject.limit = .stringBytes
  | .words => reject.status = .limitExceeded ∧ reject.limit = .dependencies
  | .rows .types => reject.status = .limitExceeded ∧ reject.limit = .types
  | .rows .objects => reject.status = .limitExceeded ∧ reject.limit = .objects
  | .terminated => reject.status = .invalidState
  | .rows _ => False

theorem rejectDirectoryReader_cites {mappedSize : ℕ} (field : DirectoryField)
    (rowOrdinal : Option ℕ) (e : ReadReject) (k : Resource) (h : e.Cites mappedSize k) :
    (rejectDirectoryReader field rowOrdinal e).Cites mappedSize k := by
  obtain ⟨status, offset⟩ := e
  cases k with
  | mapping =>
      obtain ⟨rfl, rfl⟩ := h
      exact ⟨rfl, rfl⟩
  | words => exact absurd h id
  | rows table => exact absurd h id
  | terminated =>
      cases h
      exact rfl
  | bytes | work | nodes | strings =>
      cases h
      exact ⟨rfl, rfl⟩

section

variable {reader : MetadataReader} {source : MetadataSource} {limits : DirectoryLimits}
  {mappedSize : ℕ} {state : ScanState}

theorem follows_chargeDirectoryWork (hs : (limits.budget mappedSize).Sound state) (amount : ℕ)
    (field : DirectoryField) (rowOrdinal : Option ℕ) (errorOffset : ℕ) :
    (limits.budget mappedSize).meter.Follows (DirectoryReject.Cites mappedSize) state
      (chargeDirectoryWork limits amount field rowOrdinal errorOffset)
      (Decoder.spend { work := amount }) := by
  have hfits := hs.fits Resource.work
  refine Meter.follows_look (Meter.follows_draw (k := Resource.work)
    (d := ({ work := amount } : ScanCost)) hs ?_ ?_ ?_)
  · show _ ↔ ¬ limits.maxWork < state.workUsed + amount
    simp only [ScanBudget.Short, ScanCost.zero_work, DirectoryLimits.budget] at hfits
    omega
  · intro k hk
    have hother := hs.fits k
    cases k <;> first | exact absurd rfl hk | assumption
  · exact ⟨rfl, rfl⟩

theorem follows_addDependencies (hs : (limits.budget mappedSize).Sound state) (ordinal : ℕ)
    (span : PrefixSpan) (count : UInt32) :
    (limits.budget mappedSize).meter.Follows (DirectoryReject.Cites mappedSize) state
      (addDependencies limits ordinal span count) (Decoder.spend { words := count.toNat }) := by
  have hfits := hs.fits Resource.words
  refine Meter.follows_look (Meter.follows_draw (k := Resource.words)
    (d := ({ words := count.toNat } : ScanCost)) hs ?_ ?_ ?_)
  · show _ ↔ ¬ limits.maxDependencyWords < state.dependencyWords + count.toNat
    simp only [ScanBudget.Short, ScanCost.zero_words, DirectoryLimits.budget] at hfits
    omega
  · intro k hk
    have hother := hs.fits k
    cases k <;> first | exact absurd rfl hk | assumption
  · exact ⟨rfl, rfl⟩

variable (hwithin : reader.Within source (limits.budget mappedSize))

include hwithin

theorem follows_takeDirectoryBytes (hs : (limits.budget mappedSize).Sound state)
    (field : DirectoryField) (rowOrdinal : Option ℕ) (width : ℕ) :
    (limits.budget mappedSize).meter.Follows (DirectoryReject.Cites mappedSize) state
      (takeDirectoryBytes reader field rowOrdinal width) (source.take width) :=
  Meter.follows_relabel (rejectDirectoryReader_cites field rowOrdinal)
    (hwithin.follows_take hs width)

theorem follows_takeDirectoryCount (hs : (limits.budget mappedSize).Sound state)
    (field : DirectoryField) (rowOrdinal : Option ℕ) :
    (limits.budget mappedSize).meter.Follows (DirectoryReject.Cites mappedSize) state
      (takeDirectoryCount reader field rowOrdinal) source.readCount :=
  Meter.follows_relabel (rejectDirectoryReader_cites field rowOrdinal)
    (hwithin.follows_readCount hs)

theorem follows_scanDirectoryTree (hs : (limits.budget mappedSize).Sound state) (ordinal : ℕ) :
    (limits.budget mappedSize).meter.Follows (DirectoryReject.Cites mappedSize) state
      (scanDirectoryTree reader limits ordinal) source.directoryTree := by
  have htree := Meter.follows_relabel (rejectDirectoryReader_cites .tree (some ordinal))
    (hwithin.follows_readTree hs ⟨limits.maxNodeRecords, limits.maxStringBytes⟩ rfl rfl)
  refine htree.bind hs fun tree d₁ _ _ hs => ?_
  refine (follows_takeDirectoryCount hwithin hs _ _).bind hs fun count d₂ _ _ hs => ?_
  refine (follows_addDependencies hs _ _ _).bind hs fun _ d₃ _ _ hs => ?_
  refine (follows_takeDirectoryBytes hwithin hs _ _ _).bind hs fun words d₄ _ _ hs => ?_
  exact Meter.follows_pure hs _

theorem follows_scanDirectoryTreeWhen (hs : (limits.budget mappedSize).Sound state)
    (hasTree : Bool) (ordinal : ℕ) :
    (limits.budget mappedSize).meter.Follows (DirectoryReject.Cites mappedSize) state
      (scanDirectoryTreeWhen reader limits hasTree ordinal) (source.directoryTreeWhen hasTree) := by
  cases hasTree with
  | false => exact Meter.follows_pure hs _
  | true =>
      refine (follows_scanDirectoryTree hwithin hs ordinal).bind hs fun tree d _ _ hs => ?_
      exact Meter.follows_pure hs _

theorem follows_scanDirectoryType (hs : (limits.budget mappedSize).Sound state)
    (hasTree : Bool) (ordinal : ℕ) :
    (limits.budget mappedSize).meter.Follows (DirectoryReject.Cites mappedSize) state
      (scanDirectoryType reader limits hasTree ordinal) (source.directoryType hasTree ordinal) := by
  have hhead := Meter.follows_relabel (rejectDirectoryReader_cites .typeEntry (some ordinal))
    (hwithin.follows_typePrefix hs)
  refine Meter.follows_current hs (hhead.bind hs fun typePrefix d₁ _ _ hs => ?_)
  refine (follows_scanDirectoryTreeWhen hwithin hs hasTree ordinal).bind hs
    fun tree d₂ _ _ hs => ?_
  refine (follows_chargeDirectoryWork hs 1 _ _ _).bind hs fun _ d₃ _ _ hs => ?_
  exact Meter.follows_current hs (Meter.follows_pure hs _)

theorem follows_scanDirectoryObject (hs : (limits.budget mappedSize).Sound state)
    (header : HeaderView) (typeCount ordinal : ℕ) :
    (limits.budget mappedSize).meter.Follows (DirectoryReject.Cites mappedSize) state
      (scanDirectoryObject reader limits header typeCount ordinal)
      (source.directoryObject header typeCount ordinal) := by
  refine (follows_takeDirectoryBytes hwithin hs _ _ 24).bind hs fun row d₁ hP hroom hs => ?_
  obtain ⟨-, rfl, rfl⟩ := MetadataSource.take_eq_some.mp hP
  -- the row is mapped, and so is each of its fields
  have hfield : ∀ offset width, offset + width ≤ 24 →
      objectField reader ⟨(limits.budget mappedSize).meter.position state, 24⟩ offset width =
        source.objectField ⟨(limits.budget mappedSize).meter.position state, 24⟩ offset width := by
    intro offset width hle
    have hmapped : state.position + 24 ≤ reader.bytes.length := hwithin.mapped_of_room hroom
    have hfits : state.position + offset + width ≤ reader.bytes.length := by omega
    exact hwithin.decode_eq hfits
  rw [hfield 8 8 (by decide), hfield 16 4 (by decide), hfield 20 4 (by decide),
    hfield 0 8 (by decide)]
  refine Meter.Follows.bind (Meter.follows_require hs _ _) hs fun _ d₂ _ _ hs => ?_
  refine Meter.Follows.bind (Meter.follows_require hs _ _) hs fun _ d₃ _ _ hs => ?_
  refine Meter.Follows.bind (Meter.follows_require hs _ _) hs fun _ d₄ _ _ hs => ?_
  refine (follows_chargeDirectoryWork hs 1 _ _ _).bind hs fun _ d₅ _ _ hs => ?_
  exact Meter.follows_pure hs _

theorem follows_takeDirectoryTableCount (hs : (limits.budget mappedSize).Sound state)
    (table : Table) (limit : DirectoryLimit) {maximum : ℕ} (field : DirectoryField)
    (planned : Option ℕ) (hmaximum : (limits.budget mappedSize).maxRows table = maximum)
    (hcites : ∀ offset, (rejectLimit limit field none offset).Cites mappedSize (.rows table)) :
    (limits.budget mappedSize).meter.Follows (DirectoryReject.Cites mappedSize) state
      (takeDirectoryTableCount reader field limit maximum planned)
      (source.tableCount table planned) := by
  refine (follows_takeDirectoryCount hwithin hs _ _).bind hs fun count d₁ _ _ hs => ?_
  obtain ⟨span, count⟩ := count
  refine Meter.Follows.bind (Meter.follows_check (k := .rows table)
    (d := ScanCost.table table count.toNat) hs rfl ?_ ?_ (hcites _)) hs fun _ d₂ _ _ hs => ?_
  · show _ ↔ ¬ (limits.budget mappedSize).maxRows table < _
    rw [hmaximum]
    simp [ScanCost.table]
  · intro k hk
    have hother := hs.fits k
    cases k with
    | rows other =>
        have hne : other ≠ table := fun h => hk (h ▸ rfl)
        show ¬ _ < if other = table then _ else 0
        rw [if_neg hne]
        exact Nat.not_lt_zero _
    | _ => exact hother
  refine Meter.Follows.bind (Meter.follows_require hs _ _) hs fun _ d₃ _ _ hs => ?_
  exact Meter.follows_pure hs _

/-- **The directory scanner follows the format** from fresh counters. -/
theorem follows_scanDirectory (hs : (limits.budget mappedSize).Sound state)
    (engineVersion : DirectoryEngineVersion) (prefixView : PrefixView)
    (plannedTypes plannedObjects : Option ℕ) (hnodes : state.nodeRecords = 0)
    (hstrings : state.stringBytes = 0) (hwords : state.dependencyWords = 0) :
    (limits.budget mappedSize).meter.Follows (DirectoryReject.Cites mappedSize) state
      (scanDirectory reader limits engineVersion prefixView plannedTypes plannedObjects)
      (source.directory engineVersion prefixView plannedTypes plannedObjects) := by
  refine (follows_takeDirectoryTableCount hwithin hs .types .types _ _ rfl
    fun _ => ⟨rfl, rfl⟩).bind hs fun typeCount d₁ hP₁ _ hs => ?_
  refine Meter.follows_current hs ?_
  refine (Meter.follows_collect (fun i s hs _ _ => follows_scanDirectoryType hwithin hs _ i)
    hs).bind hs fun types d₂ hP₂ _ hs => ?_
  refine Meter.follows_current hs ?_
  refine (follows_takeDirectoryTableCount hwithin hs .objects .objects _ _ rfl
    fun _ => ⟨rfl, rfl⟩).bind hs fun objectCount d₃ hP₃ _ hs => ?_
  refine Meter.follows_current hs ?_
  refine (follows_takeDirectoryBytes hwithin hs _ _ _).bind hs fun padding d₄ hP₄ _ hs => ?_
  refine Meter.follows_current hs ?_
  refine (Meter.follows_collect (fun i s hs _ _ => follows_scanDirectoryObject hwithin hs _ _ i)
    hs).bind hs fun objects d₅ hP₅ _ hs => ?_
  refine Meter.follows_current hs ((Meter.follows_pure hs _).decoder_congr ?_)
  -- the counters are the sums, since only type rows add to them
  obtain ⟨_, -, -, -, rfl⟩ := MetadataSource.tableCount_eq_some.mp hP₁
  obtain ⟨_, -, -, -, rfl⟩ := MetadataSource.tableCount_eq_some.mp hP₃
  obtain ⟨-, -, rfl⟩ := MetadataSource.take_eq_some.mp hP₄
  have htypes := MetadataSource.types_cost hP₂
  have hobjects := MetadataSource.objects_cost hP₅
  rw [htypes, hobjects]
  simp [ScanBudget.meter, ScanState.advance, hnodes, hstrings, hwords, ScanCost.taken,
    ScanCost.table]

end

end UnityCommon.Metadata
