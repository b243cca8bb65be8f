import UnityCommon.SerializedFile.Scan

/-!
# The tail scanner follows the format
-/

namespace UnityCommon.Metadata

/-- What the limits of a tail allow over a mapping, from its first byte on. -/
def TailLimits.budget (limits : TailLimits) (origin mappedSize : ℕ) : ScanBudget where
  mappedSize := mappedSize
  origin := origin
  maxBytes := limits.maxTailBytes
  maxWork := limits.maxWork
  maxNodes := limits.maxNodeRecords
  maxStrings := limits.maxTreeStringBytes
  maxWords := 0
  maxTerminated := limits.maxTerminatedStringBytes
  maxRows
    | .scripts => limits.maxScripts
    | .externals => limits.maxExternals
    | .referenceTypes => limits.maxReferenceTypes
    | _ => 0

/-- The resource that a rejection reports. -/
def TailReject.Cites (mappedSize : ℕ) (reject : TailReject) : Resource → Prop
  | .mapping => reject.status = .incompleteMapping ∧ reject.errorOffset = mappedSize
  | .bytes => reject.status = .limitExceeded ∧ reject.limit = .tailBytes
  | .work => reject.status = .limitExceeded ∧ reject.limit = .work
  | .nodes => reject.status = .limitExceeded ∧ reject.limit = .nodes
  | .strings => reject.status = .limitExceeded ∧ reject.limit = .treeStringBytes
  | .terminated => reject.status = .limitExceeded ∧ reject.limit = .terminatedStringBytes
  | .rows .scripts => reject.status = .limitExceeded ∧ reject.limit = .scripts
  | .rows .externals => reject.status = .limitExceeded ∧ reject.limit = .externals
  | .rows .referenceTypes => reject.status = .limitExceeded ∧ reject.limit = .referenceTypes
  | .words | .rows _ => False

theorem rejectTailReader_cites {mappedSize : ℕ} (field : TailField) (rowOrdinal : Option ℕ)
    (e : ReadReject) (k : Resource) (h : e.Cites mappedSize k) :
    (rejectTailReader field rowOrdinal e).Cites mappedSize k := by
  obtain ⟨status, offset⟩ := e
  cases k with
  | mapping =>
      obtain ⟨rfl, rfl⟩ := h
      exact ⟨rfl, rfl⟩
  | words => exact absurd h id
  | rows table => exact absurd h id
  | bytes | work | nodes | strings | terminated =>
      cases h
      exact ⟨rfl, rfl⟩

section

variable {reader : MetadataReader} {source : MetadataSource} {limits : TailLimits}
  {origin mappedSize : ℕ} {state : ScanState}

theorem follows_chargeTailWork (hs : (limits.budget origin mappedSize).Sound state) (amount : ℕ)
    (field : TailField) (rowOrdinal : Option ℕ) (errorOffset : ℕ) :
    (limits.budget origin mappedSize).meter.Follows (TailReject.Cites mappedSize) state
      (chargeTailWork limits amount field rowOrdinal errorOffset)
      (Decoder.spend { work := amount }) := by
  have hfits := hs.fits Resource.work
  refine Meter.follows_look (Meter.follows_draw (k := Resource.work)
    (d := ({ work := amount } : ScanCost)) hs ?_ ?_ ?_)
  · show _ ↔ ¬ limits.maxWork < state.workUsed + amount
    simp only [ScanBudget.Short, ScanCost.zero_work, TailLimits.budget] at hfits
    omega
  · intro k hk
    have hother := hs.fits k
    cases k <;> first | exact absurd rfl hk | assumption
  · exact ⟨rfl, rfl⟩

/-- The span consumed up to the cursor. -/
theorem follows_consumedSpan {α : Type} (hs : (limits.budget origin mappedSize).Sound state)
    {start : ℕ} {f : PrefixSpan → Call TailReject ScanState α} {Q : ℕ → Decoder ScanCost α}
    (h : (limits.budget origin mappedSize).meter.Follows (TailReject.Cites mappedSize) state
      (f ⟨start, state.position - start⟩) (Q state.position)) :
    (limits.budget origin mappedSize).meter.Follows (TailReject.Cites mappedSize) state
      (consumedSpan start >>= f) (Decoder.position >>= Q) :=
  (Meter.follows_current (f := fun s => f ⟨start, s.position - start⟩) hs h).congr fun _ _ => rfl

variable (hwithin : reader.Within source (limits.budget origin mappedSize))

include hwithin

theorem follows_takeTailBytes (hs : (limits.budget origin mappedSize).Sound state)
    (field : TailField) (rowOrdinal : Option ℕ) (width : ℕ) :
    (limits.budget origin mappedSize).meter.Follows (TailReject.Cites mappedSize) state
      (takeTailBytes reader field rowOrdinal width) (source.take width) :=
  Meter.follows_relabel (rejectTailReader_cites field rowOrdinal) (hwithin.follows_take hs width)

theorem follows_takeTailU32 (hs : (limits.budget origin mappedSize).Sound state)
    (field : TailField) (rowOrdinal : Option ℕ) :
    (limits.budget origin mappedSize).meter.Follows (TailReject.Cites mappedSize) state
      (takeTailU32 reader field rowOrdinal) source.readU32 :=
  Meter.follows_relabel (rejectTailReader_cites field rowOrdinal) (hwithin.follows_readU32 hs)

theorem follows_takeTailString (hs : (limits.budget origin mappedSize).Sound state)
    (field : TailField) (rowOrdinal : Option ℕ) :
    (limits.budget origin mappedSize).meter.Follows (TailReject.Cites mappedSize) state
      (takeTailString reader limits field rowOrdinal) source.terminatedString :=
  Meter.follows_relabel (rejectTailReader_cites field rowOrdinal)
    (hwithin.follows_terminatedString hs rfl)

theorem follows_scanScript (hs : (limits.budget origin mappedSize).Sound state) (ordinal : ℕ) :
    (limits.budget origin mappedSize).meter.Follows (TailReject.Cites mappedSize) state
      (scanScript reader limits ordinal) (source.script ordinal) := by
  refine Meter.follows_current hs ?_
  refine (follows_takeTailU32 hwithin hs _ _).bind hs fun fileIndex d₁ _ _ hs => ?_
  refine Meter.follows_current hs ?_
  refine (follows_takeTailBytes hwithin hs _ _ _).bind hs fun alignment d₂ _ _ hs => ?_
  refine (follows_takeTailBytes hwithin hs _ _ 8).bind hs fun identifier d₃ hP hroom hs' => ?_
  obtain ⟨-, rfl, rfl⟩ := MetadataSource.take_eq_some.mp hP
  rw [hwithin.decode_of_room hroom]
  refine (follows_chargeTailWork hs' 1 _ _ _).bind hs' fun _ d₄ _ _ hs => ?_
  exact Meter.follows_current hs (Meter.follows_pure hs _)

theorem guidWords_of_room
    (hroom : (limits.budget origin mappedSize).meter.Room state (.taken 16)) :
    guidWords reader ⟨(limits.budget origin mappedSize).meter.position state, 16⟩ =
      source.guidWords ⟨(limits.budget origin mappedSize).meter.position state, 16⟩ := by
  refine List.map_congr_left fun word hword => ?_
  have hmapped : state.position + 16 ≤ reader.bytes.length := hwithin.mapped_of_room hroom
  have hlt := List.mem_range.mp hword
  have hfits : state.position + word * 4 + 4 ≤ reader.bytes.length := by omega
  exact congrArg Nat.toUInt32 (hwithin.decode_eq hfits)

theorem follows_scanExternal (hs : (limits.budget origin mappedSize).Sound state) (ordinal : ℕ) :
    (limits.budget origin mappedSize).meter.Follows (TailReject.Cites mappedSize) state
      (scanExternal reader limits ordinal) (source.external ordinal) := by
  refine Meter.follows_current hs ?_
  refine (follows_takeTailString hwithin hs _ _).bind hs fun leading d₁ _ _ hs => ?_
  refine (follows_takeTailBytes hwithin hs _ _ 16).bind hs fun guid d₂ hP hroom hs' => ?_
  obtain ⟨-, rfl, rfl⟩ := MetadataSource.take_eq_some.mp hP
  rw [guidWords_of_room hwithin hroom]
  refine (follows_takeTailU32 hwithin hs' _ _).bind hs' fun type d₃ _ _ hs => ?_
  refine (follows_takeTailString hwithin hs _ _).bind hs fun path d₄ _ _ hs => ?_
  refine (follows_chargeTailWork hs 1 _ _ _).bind hs fun _ d₅ _ _ hs => ?_
  exact Meter.follows_current hs (Meter.follows_pure hs _)

theorem follows_scanReferenceTree (hs : (limits.budget origin mappedSize).Sound state)
    (ordinal : ℕ) :
    (limits.budget origin mappedSize).meter.Follows (TailReject.Cites mappedSize) state
      (scanReferenceTree reader limits ordinal) source.referenceTree := by
  have htree := Meter.follows_relabel (rejectTailReader_cites .tree (some ordinal))
    (hwithin.follows_readTree hs ⟨limits.maxNodeRecords, limits.maxTreeStringBytes⟩ rfl rfl)
  refine htree.bind hs fun tree d₁ _ _ hs => ?_
  refine (follows_takeTailString hwithin hs _ _).bind hs fun className d₂ _ _ hs => ?_
  refine (follows_takeTailString hwithin hs _ _).bind hs fun namespaceName d₃ _ _ hs => ?_
  refine (follows_takeTailString hwithin hs _ _).bind hs fun assemblyName d₄ _ _ hs => ?_
  exact Meter.follows_pure hs _

theorem follows_scanReferenceTreeWhen (hs : (limits.budget origin mappedSize).Sound state)
    (hasTree : Bool) (ordinal : ℕ) :
    (limits.budget origin mappedSize).meter.Follows (TailReject.Cites mappedSize) state
      (scanReferenceTreeWhen reader limits hasTree ordinal) (source.referenceTreeWhen hasTree) := by
  cases hasTree with
  | false => exact Meter.follows_pure hs _
  | true =>
      refine (follows_scanReferenceTree hwithin hs ordinal).bind hs fun tree d _ _ hs => ?_
      exact Meter.follows_pure hs _

theorem follows_scanReferenceType (hs : (limits.budget origin mappedSize).Sound state)
    (hasTree : Bool) (ordinal : ℕ) :
    (limits.budget origin mappedSize).meter.Follows (TailReject.Cites mappedSize) state
      (scanReferenceType reader limits hasTree ordinal) (source.referenceType hasTree ordinal) := by
  have hhead := Meter.follows_relabel
    (rejectTailReader_cites .referenceTypeEntry (some ordinal)) (hwithin.follows_typePrefix hs)
  refine Meter.follows_current hs (hhead.bind hs fun typePrefix d₁ _ _ hs => ?_)
  refine (follows_scanReferenceTreeWhen hwithin hs hasTree ordinal).bind hs
    fun tree d₂ _ _ hs => ?_
  refine (follows_chargeTailWork hs 1 _ _ _).bind hs fun _ d₃ _ _ hs => ?_
  exact Meter.follows_current hs (Meter.follows_pure hs _)

theorem follows_takeTailTableCount (hs : (limits.budget origin mappedSize).Sound state)
    (table : Table) (limit : TailLimit) {maximum : ℕ} (field : TailField)
    (planned : Option ℕ) (hmaximum : (limits.budget origin mappedSize).maxRows table = maximum)
    (hcites : ∀ offset,
      (TailReject.mk .limitExceeded limit field none offset).Cites mappedSize (.rows table)) :
    (limits.budget origin mappedSize).meter.Follows (TailReject.Cites mappedSize) state
      (takeTailTableCount reader field limit maximum planned)
      (source.tableCount table planned) := by
  have hcount : (limits.budget origin mappedSize).meter.Follows (TailReject.Cites mappedSize) state
      (Call.relabel (rejectTailReader field none) reader.readCount) source.readCount :=
    Meter.follows_relabel (rejectTailReader_cites field none) (hwithin.follows_readCount hs)
  refine hcount.bind hs fun count d₁ _ _ hs => ?_
  obtain ⟨span, count⟩ := count
  refine Meter.Follows.bind (Meter.follows_check (k := .rows table)
    (d := ScanCost.table table count.toNat) hs rfl ?_ ?_ (hcites _)) hs fun _ d₂ _ _ hs => ?_
  · show _ ↔ ¬ (limits.budget origin mappedSize).maxRows table < _
    rw [hmaximum]
    simp [ScanCost.table]
  · intro k hk
    have hother := hs.fits k
    cases k with
    | rows other =>
        have hne : other ≠ table := fun h => hk (h ▸ rfl)
        show ¬ _ < if other = table then _ else 0
        rw [if_neg hne]
        exact Nat.not_lt_zero _
    | _ => exact hother
  refine Meter.Follows.bind (Meter.follows_require hs _ _) hs fun _ d₃ _ _ hs => ?_
  exact Meter.follows_pure hs _

/-- **The tail scanner follows the format** from fresh counters. -/
theorem follows_scanTail (hs : (limits.budget origin mappedSize).Sound state)
    (directory : DirectoryView) (planned : Option TailCapacities)
    (hnodes : state.nodeRecords = 0) (hstrings : state.stringBytes = 0)
    (hterminated : state.terminatedBytes = 0) :
    (limits.budget origin mappedSize).meter.Follows (TailReject.Cites mappedSize) state
      (scanTail reader limits directory planned) (source.tail directory planned) := by
  refine Meter.follows_current hs ?_
  refine (follows_takeTailTableCount hwithin hs .scripts .scripts _ _ rfl
    fun _ => ⟨rfl, rfl⟩).bind hs fun scriptCount d₁ hP₁ _ hs => ?_
  refine Meter.follows_current hs ?_
  refine (Meter.follows_collect (fun i s hs _ _ => follows_scanScript hwithin hs i) hs).bind hs
    fun scripts d₂ hP₂ _ hs => ?_
  refine follows_consumedSpan hs ?_
  refine (follows_takeTailTableCount hwithin hs .externals .externals _ _ rfl
    fun _ => ⟨rfl, rfl⟩).bind hs fun externalCount d₃ hP₃ _ hs => ?_
  refine Meter.follows_current hs ?_
  refine (Meter.follows_collect (fun i s hs _ _ => follows_scanExternal hwithin hs i) hs).bind hs
    fun externals d₄ hP₄ _ hs => ?_
  refine follows_consumedSpan hs ?_
  refine (follows_takeTailTableCount hwithin hs .referenceTypes .referenceTypes _ _ rfl
    fun _ => ⟨rfl, rfl⟩).bind hs fun referenceTypeCount d₅ hP₅ _ hs => ?_
  refine Meter.follows_current hs ?_
  refine (Meter.follows_collect (fun i s hs _ _ => follows_scanReferenceType hwithin hs _ i)
    hs).bind hs fun referenceTypes d₆ hP₆ _ hs => ?_
  refine follows_consumedSpan hs ?_
  refine (follows_takeTailString hwithin hs _ _).bind hs fun user d₇ hP₇ _ hs => ?_
  refine Meter.follows_current hs ?_
  rw [hwithin.metadataEnd]
  refine Meter.Follows.bind (Meter.follows_require hs _ _) hs fun _ d₈ hP₈ _ hs => ?_
  refine Meter.Follows.congr ((Meter.follows_pure hs _).decoder_congr ?_) fun _ _ => rfl
  -- the counters are the sums over the rows, and the user information
  obtain ⟨_, -, -, -, rfl⟩ := MetadataSource.tableCount_eq_some.mp hP₁
  obtain ⟨_, -, -, -, rfl⟩ := MetadataSource.tableCount_eq_some.mp hP₃
  obtain ⟨_, -, -, -, rfl⟩ := MetadataSource.tableCount_eq_some.mp hP₅
  obtain ⟨size, -, -, rfl, rfl⟩ := MetadataSource.terminatedString_eq_some.mp hP₇
  obtain ⟨-, rfl⟩ := Decoder.require_eq_some.mp hP₈
  have hscripts := MetadataSource.scripts_cost hP₂
  have hexternals := MetadataSource.externals_cost hP₄
  have hreferences := MetadataSource.referenceTypes_cost hP₆
  rw [hscripts, hexternals, hreferences]
  simp [ScanBudget.meter, ScanState.advance, hnodes, hstrings, hterminated, ScanCost.taken,
    ScanCost.stringTaken, ScanCost.table]

end

end UnityCommon.Metadata
