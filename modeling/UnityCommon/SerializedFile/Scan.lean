import UnityCommon.SerializedFile.Spans

/-!
# The scanners follow the format

The shared reader, the directory scanner and the tail scanner, each against its
decoder. What can stop a scan where the decoder goes on is a resource: the
mapping, a ceiling or the work.
-/

namespace UnityCommon.Metadata

inductive Resource where
  | mapping
  | bytes
  | work
  | nodes
  | strings
  | words
  | terminated
  | rows (table : Table)
deriving DecidableEq, Repr

/-- What a construction may use. -/
structure ScanBudget where
  mappedSize : ℕ
  origin : ℕ
  maxBytes : ℕ
  maxWork : ℕ
  maxNodes : ℕ
  maxStrings : ℕ
  maxWords : ℕ
  maxTerminated : ℕ
  maxRows : Table → ℕ

namespace ScanBudget

variable (budget : ScanBudget)

def Short : Resource → ScanState → ScanCost → Prop
  | .mapping, state, d => budget.mappedSize < state.position + d.bytes
  | .bytes, state, d => budget.origin + budget.maxBytes < state.position + d.bytes
  | .work, state, d => budget.maxWork < state.workUsed + d.work
  | .nodes, state, d => budget.maxNodes < state.nodeRecords + d.nodes
  | .strings, state, d => budget.maxStrings < state.stringBytes + d.strings
  | .words, state, d => budget.maxWords < state.dependencyWords + d.words
  | .terminated, state, d => budget.maxTerminated < state.terminatedBytes + d.terminated
  | .rows table, _, d => budget.maxRows table < d.rows table

instance : ∀ k state d, Decidable (budget.Short k state d)
  | .mapping, _, _ => inferInstanceAs (Decidable (_ < _))
  | .bytes, _, _ => inferInstanceAs (Decidable (_ < _))
  | .work, _, _ => inferInstanceAs (Decidable (_ < _))
  | .nodes, _, _ => inferInstanceAs (Decidable (_ < _))
  | .strings, _, _ => inferInstanceAs (Decidable (_ < _))
  | .words, _, _ => inferInstanceAs (Decidable (_ < _))
  | .terminated, _, _ => inferInstanceAs (Decidable (_ < _))
  | .rows _, _, _ => inferInstanceAs (Decidable (_ < _))

/-- A scan starts behind the origin and within every bound. -/
structure Sound (state : ScanState) : Prop where
  origin_le : budget.origin ≤ state.position
  fits : ∀ k, ¬ budget.Short k state 0

end ScanBudget

/-- The state after a cost. -/
def ScanState.advance (state : ScanState) (d : ScanCost) : ScanState :=
  { state with
    position := state.position + d.bytes
    workUsed := state.workUsed + d.work
    nodeRecords := state.nodeRecords + d.nodes
    stringBytes := state.stringBytes + d.strings
    dependencyWords := state.dependencyWords + d.words
    terminatedBytes := state.terminatedBytes + d.terminated }

def ScanBudget.meter (budget : ScanBudget) : Meter ScanState ScanCost Resource where
  position := ScanState.position
  advance := ScanState.advance
  Sound := budget.Sound
  Short := budget.Short
  advance_zero _ := rfl
  advance_add state d e := by
    simp [ScanState.advance, Nat.add_assoc]
  position_advance _ _ := rfl
  short_add k state d e := by
    cases k <;> simp [ScanBudget.Short, ScanState.advance] <;> omega
  not_short_zero state hs := hs.fits
  sound_advance state d hs hd := by
    refine ⟨hs.origin_le.trans (Nat.le_add_right _ _), fun k => ?_⟩
    have hk := hd k
    cases k <;> simp_all [ScanBudget.Short, ScanState.advance]

/-! ## The shared reader -/

/-- The resource that a failure of the reader reports. -/
def ReadReject.Cites (mappedSize : ℕ) (reject : ReadReject) : Resource → Prop
  | .mapping => reject.status = .mappingEnd ∧ reject.errorOffset = mappedSize
  | .bytes => reject.status = .byteLimit
  | .work => reject.status = .workLimit
  | .nodes => reject.status = .nodeLimit
  | .strings => reject.status = .stringLimit
  | .terminated => reject.status = .terminatedStringLimit
  | .words | .rows _ => False

/-- The reader has a mapped prefix of the source, within the budget. -/
structure MetadataReader.Within (reader : MetadataReader) (source : MetadataSource)
    (budget : ScanBudget) : Prop where
  mapped : reader.bytes <+: source.bytes
  metadataEnd : reader.metadataEnd = source.metadataEnd
  endianSelector : reader.endianSelector = source.endianSelector
  mappedSize : budget.mappedSize = reader.bytes.length
  origin : budget.origin = reader.byteBudgetOrigin
  maxBytes : budget.maxBytes = reader.maxBytes
  maxWork : budget.maxWork = reader.maxWork

namespace MetadataReader.Within

variable {reader : MetadataReader} {source : MetadataSource} {budget : ScanBudget}
  {state : ScanState}

/-- Mapped bytes are those of the source. -/
theorem bytes_eq (h : reader.Within source budget) {offset size : ℕ}
    (hmapped : offset + size ≤ reader.bytes.length) :
    (PrefixSpan.mk offset size).bytes reader.bytes =
      (PrefixSpan.mk offset size).bytes source.bytes :=
  PrefixSpan.bytes_of_mapped h.mapped hmapped

theorem decode_eq (h : reader.Within source budget) {offset size : ℕ}
    (hmapped : offset + size ≤ reader.bytes.length) :
    reader.decode ⟨offset, size⟩ = source.decode ⟨offset, size⟩ := by
  rw [MetadataReader.decode, MetadataSource.decode, h.bytes_eq hmapped, h.endianSelector]

/-- The three bounds of a field, in their order. -/
theorem admitExtent_apply {width : ℕ} (answers : ℕ → Bool) (n : ℕ) :
    reader.admitExtent width answers state n =
      if state.position ≤ reader.metadataEnd ∧ width ≤ reader.metadataEnd - state.position then
        if state.position ≤ reader.bytes.length ∧
            width ≤ reader.bytes.length - state.position then
          if state.position - reader.byteBudgetOrigin ≤ reader.maxBytes ∧
              width ≤ reader.maxBytes - (state.position - reader.byteBudgetOrigin) then
            .ok () state n
          else .error ⟨.byteLimit, state.position⟩ state n
        else .error ⟨.mappingEnd, reader.bytes.length⟩ state n
      else .error ⟨.metadataEnd, reader.metadataEnd⟩ state n := by
  simp only [MetadataReader.admitExtent, Call.bind_apply, Call.andThen, Call.current, Call.require]
  split_ifs <;> rfl

theorem consumeSpan_apply {width : ℕ} (answers : ℕ → Bool) (n : ℕ) :
    reader.consumeSpan width answers state n =
      if width ≤ reader.maxWork - state.workUsed then
        .ok ⟨state.position, width⟩ (state.advance (.taken width)) n
      else .error ⟨.workLimit, state.position⟩ state n := by
  simp only [MetadataReader.consumeSpan, Call.bind_apply, Call.andThen, Call.current,
    Call.require, Call.replace]
  split_ifs <;> rfl

/-- **The bounds of a field against the resources.** -/
theorem admitExtent_cases (h : reader.Within source budget) (hs : budget.Sound state) {width : ℕ}
    (hend : state.position + width ≤ source.metadataEnd) (answers : ℕ → Bool) (n : ℕ) :
    (¬ budget.Short .mapping state (.taken width) ∧ ¬ budget.Short .bytes state (.taken width) ∧
        reader.admitExtent width answers state n = .ok () state n) ∨
      ∃ e k, reader.admitExtent width answers state n = .error e state n ∧
        e.Cites budget.mappedSize k ∧ (k = .mapping ∨ k = .bytes) ∧
        budget.Short k state (.taken width) := by
  have horigin := hs.origin_le
  rw [h.origin] at horigin
  rw [admitExtent_apply, h.metadataEnd, if_pos (by omega)]
  simp only [ScanBudget.Short, ScanCost.taken, h.mappedSize, h.origin, h.maxBytes]
  by_cases hmapping : reader.bytes.length < state.position + width
  · rw [if_neg (by omega)]
    exact Or.inr ⟨_, .mapping, rfl, ⟨rfl, rfl⟩, Or.inl rfl, hmapping⟩
  rw [if_pos (by omega)]
  by_cases hceiling : reader.byteBudgetOrigin + reader.maxBytes < state.position + width
  · rw [if_neg (by omega)]
    exact Or.inr ⟨_, .bytes, rfl, rfl, Or.inr rfl, hceiling⟩
  · rw [if_pos (by omega)]
    exact Or.inl ⟨hmapping, hceiling, rfl⟩

/-- The metadata or the source ends in the field. -/
theorem admitExtent_refused (h : reader.Within source budget) {width : ℕ}
    (hrefused : ¬ source.Holds state.position width) (answers : ℕ → Bool) (n : ℕ) :
    ∃ e, reader.admitExtent width answers state n = .error e state n := by
  rw [admitExtent_apply, h.metadataEnd]
  split_ifs with hend hmapped
  · exfalso
    refine hrefused ⟨by omega, ?_⟩
    have := h.mapped.length_le
    omega
  all_goals exact ⟨_, rfl⟩

theorem consumeSpan_cases (h : reader.Within source budget) (hs : budget.Sound state) (width : ℕ)
    (answers : ℕ → Bool) (n : ℕ) :
    (¬ budget.Short .work state (.taken width) ∧
        reader.consumeSpan width answers state n =
          .ok ⟨state.position, width⟩ (state.advance (.taken width)) n) ∨
      ∃ e, reader.consumeSpan width answers state n = .error e state n ∧
        e.Cites budget.mappedSize .work ∧ budget.Short .work state (.taken width) := by
  have hwork := hs.fits .work
  simp only [ScanBudget.Short, ScanCost.zero_work, h.maxWork] at hwork
  rw [consumeSpan_apply]
  simp only [ScanBudget.Short, ScanCost.taken, h.maxWork]
  by_cases hcharge : reader.maxWork < state.workUsed + width
  · rw [if_neg (by omega)]
    exact Or.inr ⟨_, rfl, rfl, hcharge⟩
  · rw [if_pos (by omega)]
    exact Or.inl ⟨hcharge, rfl⟩

theorem follows_take (h : reader.Within source budget) (hs : budget.Sound state) (width : ℕ) :
    budget.meter.Follows (ReadReject.Cites budget.mappedSize) state (reader.take width)
      (source.take width) := by
  have htake : ∀ answers n, reader.take width answers state n =
      (reader.admitExtent width >>= fun _ => reader.consumeSpan width) answers state n :=
    fun _ _ => rfl
  constructor
  · intro answers n span d hP
    obtain ⟨⟨hend, -⟩, rfl, rfl⟩ := MetadataSource.take_eq_some.mp hP
    rw [htake]
    rcases h.admitExtent_cases hs hend answers n with
      ⟨hmapping, hbytes, hok⟩ | ⟨e, k, herr, hcites, -, hshort⟩
    · rcases h.consumeSpan_cases hs width answers n with
        ⟨hwork, hok'⟩ | ⟨e, herr, hcites, hshort⟩
      · refine Or.inl ⟨fun k => ?_, ?_⟩
        · -- the other resources are not drawn on
          have hk := hs.fits k
          cases k <;> assumption
        · exact Call.bind_eq_ok.mpr ⟨_, _, _, hok, hok'⟩
      · refine Or.inr ⟨e, state, .work, ?_, hs, hcites, hshort⟩
        exact Call.bind_eq_error.mpr (Or.inr ⟨_, _, _, hok, herr⟩)
    · exact Or.inr ⟨e, state, k, Call.bind_eq_error.mpr (Or.inl herr), hs, hcites, hshort⟩
  · intro answers n hP
    have hrefused : ¬ source.Holds state.position width := by
      intro hholds
      have hnone : source.take width state.position = none := hP
      rw [MetadataSource.take, if_pos hholds] at hnone
      cases hnone
    obtain ⟨e, herr⟩ := h.admitExtent_refused hrefused answers n
    rw [htake]
    exact ⟨e, state, Call.bind_eq_error.mpr (Or.inl herr), hs⟩

theorem mapped_of_room (h : reader.Within source budget) {d : ScanCost}
    (hroom : budget.meter.Room state d) : state.position + d.bytes ≤ reader.bytes.length := by
  rw [← h.mappedSize]
  exact Nat.le_of_not_lt (hroom .mapping)

/-- What was taken with room decodes as in the source. -/
theorem decode_of_room (h : reader.Within source budget) {width : ℕ}
    (hroom : budget.meter.Room state (.taken width)) :
    reader.decode ⟨budget.meter.position state, width⟩ =
      source.decode ⟨budget.meter.position state, width⟩ :=
  h.decode_eq (h.mapped_of_room hroom)

theorem follows_readU32 (h : reader.Within source budget) (hs : budget.Sound state) :
    budget.meter.Follows (ReadReject.Cites budget.mappedSize) state reader.readU32
      source.readU32 := by
  refine (h.follows_take hs 4).bind hs fun span d hP hroom hs => ?_
  obtain ⟨-, rfl, rfl⟩ := MetadataSource.take_eq_some.mp hP
  rw [h.decode_of_room hroom]
  exact Meter.follows_pure hs _

theorem follows_readCount (h : reader.Within source budget) (hs : budget.Sound state) :
    budget.meter.Follows (ReadReject.Cites budget.mappedSize) state reader.readCount
      source.readCount := by
  refine (h.follows_readU32 hs).bind hs fun value d hP hroom hs => ?_
  refine (Meter.follows_require hs _ _).bind hs fun _ e he hroom' hs => ?_
  exact Meter.follows_pure hs _

theorem follows_takeWhen (h : reader.Within source budget) (hs : budget.Sound state)
    (present : Bool) (width : ℕ) :
    budget.meter.Follows (ReadReject.Cites budget.mappedSize) state
      (reader.takeWhen present width) (source.takeWhen present width) := by
  cases present with
  | false => exact Meter.follows_pure hs none
  | true =>
      refine (h.follows_take hs width).bind hs fun span d hP hroom hs => ?_
      exact Meter.follows_pure hs _

theorem follows_typePrefix (h : reader.Within source budget) (hs : budget.Sound state) :
    budget.meter.Follows (ReadReject.Cites budget.mappedSize) state reader.readTypePrefix
      source.typePrefix := by
  refine Meter.follows_look ?_
  refine (h.follows_take hs 4).bind hs fun classId d₁ hclass hroom₁ hs => ?_
  obtain ⟨-, rfl, rfl⟩ := MetadataSource.take_eq_some.mp hclass
  refine (h.follows_take hs 1).bind hs fun stripped d₂ hstripped hroom₂ hs => ?_
  obtain ⟨-, rfl, rfl⟩ := MetadataSource.take_eq_some.mp hstripped
  refine (h.follows_take hs 2).bind hs fun scriptIndex d₃ hindex hroom₃ hs => ?_
  obtain ⟨-, rfl, rfl⟩ := MetadataSource.take_eq_some.mp hindex
  -- the three words are mapped, so that both sides decode the same bits
  rw [h.decode_of_room hroom₁, h.decode_of_room hroom₂, h.decode_of_room hroom₃]
  refine (Meter.follows_ofOption hs _ _).bind hs fun hasScriptHash d₄ _ hroom₄ hs => ?_
  refine (h.follows_takeWhen hs _ 16).bind hs fun scriptHash d₅ _ hroom₅ hs => ?_
  refine (h.follows_take hs 16).bind hs fun typeHash d₆ _ hroom₆ hs => ?_
  exact Meter.follows_pure hs _

/-- A count goes into its counter when the budget has that much left. -/
theorem follows_countNodes (hs : budget.Sound state) (limit : MetadataTreeBudget)
    (hlimit : budget.maxNodes = limit.maxNodeRecords) (span : PrefixSpan) (count : UInt32) :
    budget.meter.Follows (ReadReject.Cites budget.mappedSize) state
      (MetadataReader.countNodes limit span count) (Decoder.spend { nodes := count.toNat }) := by
  have hfits := hs.fits Resource.nodes
  refine Meter.follows_look (Meter.follows_draw (k := Resource.nodes) (d := ({ nodes := count.toNat } : ScanCost)) hs
    ?_ ?_ ?_)
  · show _ ↔ ¬ budget.maxNodes < state.nodeRecords + count.toNat
    simp only [ScanBudget.Short, ScanCost.zero_nodes] at hfits
    omega
  · intro k hk
    have hother := hs.fits k
    cases k <;> first | exact absurd rfl hk | assumption
  · exact rfl

theorem follows_countStringBytes (hs : budget.Sound state) (limit : MetadataTreeBudget)
    (hlimit : budget.maxStrings = limit.maxStringBytes) (span : PrefixSpan) (count : UInt32) :
    budget.meter.Follows (ReadReject.Cites budget.mappedSize) state
      (MetadataReader.countStringBytes limit span count)
      (Decoder.spend { strings := count.toNat }) := by
  have hfits := hs.fits Resource.strings
  refine Meter.follows_look (Meter.follows_draw (k := Resource.strings) (d := ({ strings := count.toNat } : ScanCost)) hs
    ?_ ?_ ?_)
  · show _ ↔ ¬ budget.maxStrings < state.stringBytes + count.toNat
    simp only [ScanBudget.Short, ScanCost.zero_strings] at hfits
    omega
  · intro k hk
    have hother := hs.fits k
    cases k <;> first | exact absurd rfl hk | assumption
  · exact rfl

theorem follows_readTree (h : reader.Within source budget) (hs : budget.Sound state)
    (limit : MetadataTreeBudget) (hnodes : budget.maxNodes = limit.maxNodeRecords)
    (hstrings : budget.maxStrings = limit.maxStringBytes) :
    budget.meter.Follows (ReadReject.Cites budget.mappedSize) state (reader.readTree limit)
      source.tree := by
  refine (h.follows_readU32 hs).bind hs fun nodeCount d₁ _ hroom₁ hs => ?_
  refine (Meter.follows_require hs _ _).bind hs fun _ d₂ _ hroom₂ hs => ?_
  refine (follows_countNodes hs limit hnodes _ _).bind hs fun _ d₃ _ hroom₃ hs => ?_
  refine (h.follows_readU32 hs).bind hs fun stringCount d₄ _ hroom₄ hs => ?_
  refine (follows_countStringBytes hs limit hstrings _ _).bind hs fun _ d₅ _ hroom₅ hs => ?_
  refine (h.follows_take hs _).bind hs fun nodes d₆ _ hroom₆ hs => ?_
  refine (h.follows_take hs _).bind hs fun strings d₇ _ hroom₇ hs => ?_
  exact Meter.follows_pure hs _

/-! The string loop. -/

theorem follows_admitStringByte (h : reader.Within source budget) (hs : budget.Sound state)
    {maxTerminated : ℕ} (hlimit : budget.maxTerminated = maxTerminated) :
    budget.meter.Follows (ReadReject.Cites budget.mappedSize) state
      (reader.admitStringByte maxTerminated) source.stringByte := by
  have hfits := hs.fits Resource.terminated
  simp only [ScanBudget.Short, ScanCost.zero_terminated, hlimit] at hfits
  constructor
  · intro answers n u d hP
    obtain ⟨⟨hend, -⟩, rfl⟩ := MetadataSource.stringByte_eq_some.mp hP
    rcases h.admitExtent_cases hs hend answers n with
      ⟨hmapping, hbytes, hok⟩ | ⟨e, k, herr, hcites, hk, hshort⟩
    -- the limit on bytes of strings is looked at before the byte is charged
    · by_cases hfull : state.terminatedBytes = maxTerminated
      · refine Or.inr ⟨⟨.terminatedStringLimit, state.position⟩, state, .terminated, ?_, hs, rfl, ?_⟩
        · refine Call.bind_eq_error.mpr (Or.inr ⟨_, _, _, hok, ?_⟩)
          refine Call.bind_eq_error.mpr (Or.inr ⟨_, _, _, rfl, ?_⟩)
          exact Call.bind_eq_error.mpr (Or.inl (if_neg fun hne => hne hfull))
        · show budget.maxTerminated < state.terminatedBytes + 1
          omega
      rcases h.consumeSpan_cases hs 1 answers n with
        ⟨hwork, hok'⟩ | ⟨e, herr, hcites, hshort⟩
      · refine Or.inl ⟨fun k => ?_, ?_⟩
        · have hk := hs.fits k
          cases k <;> first | assumption | skip
          show ¬ budget.maxTerminated < state.terminatedBytes + 1
          omega
        · refine Call.bind_eq_ok.mpr ⟨_, _, _, hok, ?_⟩
          refine Call.bind_eq_ok.mpr ⟨_, _, _, rfl, ?_⟩
          refine Call.bind_eq_ok.mpr ⟨_, _, _, if_pos hfull, ?_⟩
          exact Call.bind_eq_ok.mpr ⟨_, _, _, hok', rfl⟩
      · refine Or.inr ⟨e, state, .work, ?_, hs, hcites, hshort⟩
        refine Call.bind_eq_error.mpr (Or.inr ⟨_, _, _, hok, ?_⟩)
        refine Call.bind_eq_error.mpr (Or.inr ⟨_, _, _, rfl, ?_⟩)
        refine Call.bind_eq_error.mpr (Or.inr ⟨_, _, _, if_pos hfull, ?_⟩)
        exact Call.bind_eq_error.mpr (Or.inl herr)
    · refine Or.inr ⟨e, state, k, Call.bind_eq_error.mpr (Or.inl herr), hs, hcites, ?_⟩
      rcases hk with rfl | rfl <;> exact hshort
  · intro answers n hP
    have hrefused : ¬ source.Holds state.position 1 := by
      intro hholds
      have hnone : source.stringByte state.position = none := hP
      rw [MetadataSource.stringByte, if_pos hholds] at hnone
      cases hnone
    obtain ⟨e, herr⟩ := h.admitExtent_refused hrefused answers n
    exact ⟨e, state, Call.bind_eq_error.mpr (Or.inl herr), hs⟩

/-- The string loop reads up to the first zero byte of the source. -/
theorem follows_scanString (h : reader.Within source budget) (hs : budget.Sound state)
    {maxTerminated : ℕ} (hlimit : budget.maxTerminated = maxTerminated) {rest : Text}
    (hrest : rest = reader.bytes.drop state.position) :
    budget.meter.Follows (ReadReject.Cites budget.mappedSize) state
      (reader.scanString maxTerminated rest) source.stringBytes := by
  induction rest generalizing state with
  | nil =>
      -- nothing is mapped here, and the loop's own check says so
      have hshort : reader.bytes.length ≤ state.position := List.drop_eq_nil_iff.mp hrest.symm
      have hbyte := h.follows_admitStringByte hs hlimit
      have hfull : ∀ d, source.stringByte state.position = some ((), d) →
          ¬ budget.meter.Room state d := by
        intro d hP hroom
        obtain ⟨-, rfl⟩ := MetadataSource.stringByte_eq_some.mp hP
        have hfits : state.position + 1 ≤ reader.bytes.length := h.mapped_of_room hroom
        omega
      refine hbyte.stuck (fun _ d hP => hfull d hP) ?_ fun _ _ _ _ _ herr => herr
      intro _ d hP
      obtain ⟨size, hlength, hend, rfl⟩ := MetadataSource.stringBytes_eq_some.mp hP
      obtain ⟨hone, hsize⟩ := MetadataSource.terminatedLength_bounds hlength
      rw [List.length_drop] at hsize
      have hend' : state.position + size ≤ source.metadataEnd := hend
      have hsize' : size ≤ source.bytes.length - state.position := hsize
      refine ⟨(), .stringTaken 1,
        MetadataSource.stringByte_eq_some.mpr ⟨⟨?_, ?_⟩, rfl⟩, fun k hk => ?_⟩
      · show state.position + 1 ≤ source.metadataEnd
        omega
      · show state.position + 1 ≤ source.bytes.length
        omega
      · -- the whole string wants at least what its first byte does
        cases k <;>
          simp only [ScanBudget.meter, ScanBudget.Short, ScanCost.stringTaken] at hk ⊢ <;> omega
  | cons byte rest ih =>
      have hmapped : state.position + 1 ≤ reader.bytes.length := by
        have := congrArg List.length hrest
        rw [List.length_drop, List.length_cons] at this
        omega
      have hnext : rest = reader.bytes.drop (state.position + 1) := by
        rw [← List.drop_drop, ← hrest]
        rfl
      have hsource : ∃ more, source.bytes.drop state.position = byte :: more := by
        obtain ⟨unmapped, heq⟩ := h.mapped
        rw [← heq, List.drop_append_of_le_length (by omega), ← hrest]
        exact ⟨rest ++ unmapped, rfl⟩
      obtain ⟨more, hsource⟩ := hsource
      refine Meter.Follows.decoder_congr ?_ (MetadataSource.stringBytes_step hsource)
      refine (h.follows_admitStringByte hs hlimit).bind hs fun _ d hP _ hs => ?_
      obtain ⟨-, rfl⟩ := MetadataSource.stringByte_eq_some.mp hP
      by_cases hbyte : byte = 0
      · simp only [if_pos hbyte]
        exact Meter.follows_pure hs ()
      · simp only [if_neg hbyte]
        exact ih hs hnext

theorem follows_terminatedString (h : reader.Within source budget) (hs : budget.Sound state)
    {maxTerminated : ℕ} (hlimit : budget.maxTerminated = maxTerminated) :
    budget.meter.Follows (ReadReject.Cites budget.mappedSize) state
      (reader.readTerminatedString maxTerminated) source.terminatedString := by
  refine Meter.follows_current hs ?_
  refine (h.follows_scanString hs hlimit rfl).bind hs fun _ d _ _ hs => ?_
  refine Meter.follows_current hs ?_
  exact Meter.follows_pure hs _

end MetadataReader.Within

end UnityCommon.Metadata
