import UnityCommon.Common.StringBuilder

/-!
# What a string builder holds

The invariant of a run of builder calls under any allocation failures: the block
starts with the content and a terminator, and the counters stand where they stood
before the builder, plus its block. One call leaves it: `sb_detach` on a builder
without a buffer returns a byte that stays counted, and a failure that stays set.
-/

namespace UnityCommon.Common

/-! ## The counters -/

namespace MemTracking

variable (mem : MemTracking) (size size' count count' : ℕ)

theorem add_add : (mem.add size count).add size' count' = mem.add (size + size') (count + count') := by
  simp [add, Nat.toUInt64, UInt64.ofNat_add, UInt64.add_assoc]

theorem add_sub : (mem.add (size + size') (count + count')).sub size' count' = mem.add size count := by
  rw [← add_add]
  simp [add, sub]

theorem add_zero : mem.add 0 0 = mem := by
  simp [add]

end MemTracking

/-! ## Blocks -/

theorem length_store {block : Block} {at_ : ℕ} {bytes : Text}
    (h : at_ + bytes.length ≤ block.length) : (block.store at_ bytes).length = block.length := by
  simp [Block.store]
  omega

/-- A copy after the content continues it. -/
theorem prefix_store {block : Block} {content : Text} (bytes : Text)
    (h : content.map some <+: block) :
    (content ++ bytes).map some <+: block.store content.length bytes := by
  obtain ⟨rest, rfl⟩ := h
  unfold Block.store
  rw [List.take_left' (by simp), List.map_append]
  exact List.prefix_append _ _

/-! ## The invariant -/

/-- What a builder with this content and these counters around it looks like. -/
structure SbState.Holds (base : MemTracking) (content : Text) (st : SbState) : Prop where
  /-- A buffer starts with the content and a NUL. -/
  written : ∀ block, st.sb.buf = some block → (content ++ [0]).map some <+: block
  block_length : ∀ block, st.sb.buf = some block → block.length = st.sb.capacity
  len_eq : st.sb.len = content.length
  capacity_le : st.sb.capacity ≤ sizeMax / 2
  empty : st.sb.buf = none → content = [] ∧ st.sb.capacity = 0
  tracked : st.mem = base.add st.sb.capacity (if st.sb.buf.isSome then 1 else 0)

variable {base : MemTracking} {content bytes : Text} {st st' : SbState} {block : Block}
  {granted : Bool} {additional : ℕ}

theorem SbState.Holds.init (base : MemTracking) : SbState.Holds base [] ⟨sbInit, base⟩ :=
  ⟨nofun, nofun, rfl, Nat.zero_le _, fun _ => ⟨rfl, rfl⟩, (base.add_zero).symm⟩

theorem SbState.Holds.len_lt (h : st.Holds base content) (hbuf : st.sb.buf = some block) :
    st.sb.len < st.sb.capacity := by
  have hle := (h.written block hbuf).length_le
  rw [h.block_length block hbuf, List.length_map, List.length_append, ← h.len_eq] at hle
  exact hle

theorem SbState.Holds.nul (h : st.Holds base content) (hbuf : st.sb.buf = some block) :
    block[st.sb.len]? = some (some 0) := by
  obtain ⟨rest, rfl⟩ := h.written block hbuf
  rw [h.len_eq]
  simp

theorem SbState.Holds.text (h : st.Holds base content) (hbuf : st.sb.buf = some block) :
    block.take st.sb.len = content.map some := by
  obtain ⟨rest, rfl⟩ := h.written block hbuf
  rw [h.len_eq, List.map_append, List.append_assoc, List.take_left' (by simp)]

theorem SbState.Holds.fail (h : st.Holds base content) : st.fail.Holds base content :=
  ⟨h.written, h.block_length, h.len_eq, h.capacity_le, h.empty, h.tracked⟩

theorem SbState.fail_of_failed (h : st.sb.failed = true) : st.fail = st := by
  obtain ⟨⟨buf, len, capacity, failed⟩, mem⟩ := st
  obtain rfl : failed = true := h
  rfl

/-! ## Capacity -/

/-- **The doubling loop ends** at a capacity that is enough. -/
theorem growCapacity_spec (required : ℕ) :
    ∀ (rounds newCap : ℕ), 0 < newCap → newCap ≤ sizeMax → sizeMax < newCap * 2 ^ rounds →
      ∃ cap, growCapacity required rounds newCap = some cap ∧ required ≤ cap ∧ 0 < cap := by
  intro rounds
  induction rounds with
  | zero =>
      intro newCap _ hle hlt
      omega
  | succ rounds ih =>
      intro newCap hpos hle hlt
      rw [growCapacity]
      by_cases hshort : newCap < required
      · rw [if_pos hshort]
        by_cases hhalf : sizeMax / 2 < newCap
        · rw [if_pos hhalf]
          exact ⟨required, rfl, Nat.le_refl _, by omega⟩
        · rw [if_neg hhalf]
          refine ih (newCap * 2) (by omega) (by omega) ?_
          rwa [Nat.mul_assoc, ← Nat.pow_succ']
      · rw [if_neg hshort]
        exact ⟨newCap, rfl, by omega, hpos⟩

theorem memAlloc_cases (granted : Bool) {size : ℕ} (hsize : 0 < size) (mem : MemTracking) :
    (size ≤ sizeMax / 2 ∧
        memAlloc granted size mem = (some (List.replicate size none), mem.add size 1)) ∨
      memAlloc granted size mem = (none, mem) := by
  unfold memAlloc grants
  rw [if_neg (by omega)]
  split
  · rename_i hand
    rw [Bool.and_eq_true, decide_eq_true_eq] at hand
    exact Or.inl ⟨hand.2, rfl⟩
  · exact Or.inr rfl

/-- A granted `realloc` moves the counters by the difference. -/
theorem memRealloc_cases (granted : Bool) {size : ℕ} (hsize : 0 < size) (base : MemTracking)
    (block : Block) (old : ℕ) :
    (size ≤ sizeMax / 2 ∧ memRealloc granted (some block) old size (base.add old 1) =
        (some (block.take size ++ List.replicate (size - block.length) none), base.add size 1)) ∨
      memRealloc granted (some block) old size (base.add old 1) = (none, base.add old 1) := by
  unfold memRealloc grants
  rw [if_neg (by omega)]
  split
  · rename_i hand
    rw [Bool.and_eq_true, decide_eq_true_eq] at hand
    refine Or.inl ⟨hand.2, ?_⟩
    have hmem : (if old ≤ size then (base.add old 1).add (size - old) 0
        else (base.add old 1).sub (old - size) 0) = base.add size 1 := by
      split
      · rename_i hle
        rw [MemTracking.add_add, Nat.add_sub_cancel' hle]
      · rename_i hle
        have := base.add_sub size (old - size) 1 0
        rwa [Nat.add_sub_cancel' (by omega)] at this
    simp only [Option.getD_some, Option.isNone_some, Bool.false_eq_true, if_false, hmem]
  · exact Or.inr rfl

/-- The allocation keeps the invariant, granted or not. -/
theorem sbReserve_holds (granted : Bool) (h : st.Holds base content) {newCap : ℕ} (hpos : 0 < newCap)
    (hle : st.sb.capacity ≤ newCap) :
    (sbReserve granted newCap st).Holds base content ∧
      (sbReserve granted newCap st).sb.failed = st.sb.failed := by
  unfold sbReserve
  cases hbuf : st.sb.buf with
  | none =>
      obtain ⟨rfl, hcap⟩ := h.empty hbuf
      have htracked := h.tracked
      rw [hbuf, hcap] at htracked
      rcases memAlloc_cases granted hpos st.mem with ⟨hhalf, halloc⟩ | halloc
      · simp only [halloc]
        refine ⟨⟨?_, ?_, h.len_eq, hhalf, nofun, ?_⟩, trivial⟩
        · rintro _ ⟨rfl⟩
          exact prefix_store [0] List.nil_prefix
        · rintro _ ⟨rfl⟩
          rw [length_store (by simp; omega), List.length_replicate]
        · rw [htracked, MemTracking.add_add]
          simp
      · simp only [halloc]
        exact ⟨⟨h.written, h.block_length, h.len_eq, h.capacity_le, h.empty, h.tracked⟩, trivial⟩
  | some block =>
      have htracked := h.tracked
      simp only [hbuf, Option.isSome_some, if_true] at htracked
      rw [htracked]
      rcases memRealloc_cases granted hpos base block st.sb.capacity with ⟨hhalf, halloc⟩ | halloc
      · simp only [halloc]
        have hlen := h.block_length block hbuf
        refine ⟨⟨?_, ?_, h.len_eq, hhalf, nofun, rfl⟩, trivial⟩
        · rintro _ ⟨rfl⟩
          rw [List.take_of_length_le (by omega)]
          exact (h.written block hbuf).trans (List.prefix_append _ _)
        · rintro _ ⟨rfl⟩
          simp
          omega
      · simp only [halloc]
        exact ⟨⟨h.written, h.block_length, h.len_eq, h.capacity_le, h.empty,
          by rw [hbuf]; rfl⟩, trivial⟩

/-- **What `sb_ensure_capacity` promises**: it returns, and either there is room
for the bytes and a terminator or the failure is recorded. -/
theorem sbEnsureCapacity_spec (granted : Bool) (additional : ℕ) (h : st.Holds base content) :
    ∃ ok st', sbEnsureCapacity granted additional st = some (ok, st') ∧ st'.Holds base content ∧
      (ok = true → st'.sb.failed = false ∧ st'.sb.buf.isSome ∧
        content.length + additional < st'.sb.capacity) ∧
      (ok = false → st'.sb.failed = true) := by
  unfold sbEnsureCapacity
  by_cases hrefused : st.sb.failed ∨ st.sb.len = sizeMax ∨ sizeMax - st.sb.len - 1 < additional
  · rw [if_pos hrefused]
    exact ⟨false, st.fail, rfl, h.fail, nofun, fun _ => rfl⟩
  rw [if_neg hrefused]
  have hfailed : st.sb.failed = false := by
    have := not_or.mp hrefused
    simpa using this.1
  dsimp only
  by_cases hroom : st.sb.len + additional + 1 ≤ st.sb.capacity
  · rw [if_pos hroom]
    refine ⟨true, st, rfl, h, fun _ => ⟨hfailed, ?_, ?_⟩, nofun⟩
    · cases hbuf : st.sb.buf with
      | none => have := (h.empty hbuf).2; omega
      | some block => rfl
    · rw [← h.len_eq]
      omega
  rw [if_neg hroom]
  have hcap := h.capacity_le
  have hhalf : sizeMax / 2 * 2 < 2 ^ 64 := by decide
  -- a capacity that was granted can be doubled
  have hfirst : ∀ first, (if st.sb.capacity = 0 then 32 else st.sb.capacity * 2 % 2 ^ 64) = first →
      0 < first ∧ first ≤ sizeMax ∧ sizeMax < first * 2 ^ 65 := by
    rintro _ rfl
    have hmax : sizeMax = 2 ^ 64 - 1 := rfl
    split
    · omega
    · rw [Nat.mod_eq_of_lt (by omega)]
      omega
  obtain ⟨hpos, hle, hlt⟩ := hfirst _ rfl
  obtain ⟨cap, hgrow, henough, hcap⟩ :=
    growCapacity_spec (st.sb.len + additional + 1) 65 _ hpos hle hlt
  obtain ⟨hholds, hsame⟩ := sbReserve_holds granted h hcap (by omega)
  rw [hgrow, Option.map_some]
  by_cases hshort : (sbReserve granted cap st).sb.buf.isNone ∨
      (sbReserve granted cap st).sb.capacity < st.sb.len + additional + 1
  · rw [if_pos hshort]
    exact ⟨false, _, rfl, hholds.fail, nofun, fun _ => rfl⟩
  · rw [if_neg hshort]
    obtain ⟨hsome, hfits⟩ := not_or.mp hshort
    refine ⟨true, _, rfl, hholds, fun _ => ⟨hsame.trans hfailed, ?_, ?_⟩, nofun⟩
    · simpa [Option.isSome_iff_ne_none] using hsome
    · rw [← h.len_eq]
      omega

theorem sbEnsureCapacity_failed (hfailed : st.sb.failed = true) :
    sbEnsureCapacity granted additional st = some (false, st) := by
  unfold sbEnsureCapacity
  rw [if_pos (Or.inl hfailed), SbState.fail_of_failed hfailed]

/-! ## Appending -/

/-- **A copy into the room appends.** -/
theorem sbPut_holds (h : st.Holds base content) (hbuf : st.sb.buf.isSome)
    (hroom : content.length + bytes.length < st.sb.capacity) :
    (sbPut bytes st).Holds base (content ++ bytes) ∧
      (sbPut bytes st).sb.failed = st.sb.failed := by
  obtain ⟨block, hblock⟩ := Option.isSome_iff_exists.mp hbuf
  have hlength := h.block_length block hblock
  have hprefix : content.map some <+: block := by
    have := h.written block hblock
    rw [List.map_append] at this
    exact (List.prefix_append _ _).trans this
  have hfirst : (block.store content.length bytes).length = block.length :=
    length_store (by omega)
  unfold sbPut SbState.store SbState.advance
  rw [hblock, h.len_eq]
  refine ⟨⟨?_, ?_, ?_, h.capacity_le, nofun, ?_⟩, rfl⟩
  · rintro _ ⟨rfl⟩
    have := prefix_store [0] (prefix_store bytes hprefix)
    rwa [List.length_append] at this
  · rintro _ ⟨rfl⟩
    rw [length_store (by rw [hfirst, List.length_singleton]; omega), hfirst, hlength]
  · simp
  · simpa [hblock] using h.tracked

/-- A call that was given its room appends its piece, and another fails. -/
theorem ensured_holds (bytes : Text) (h : st.Holds base content) :
    ∃ st', (sbEnsureCapacity granted bytes.length st).map
        (fun (ok, st) => if ok then sbPut bytes st else st) = some st' ∧
      st'.Holds base (if st'.sb.failed then content else content ++ bytes) := by
  obtain ⟨ok, st₁, hensure, hholds, hroom, hfail⟩ := sbEnsureCapacity_spec granted bytes.length h
  rw [hensure, Option.map_some]
  cases ok with
  | true =>
      obtain ⟨hfailed, hbuf, hfits⟩ := hroom rfl
      obtain ⟨hput, hsame⟩ := sbPut_holds hholds hbuf hfits
      refine ⟨_, rfl, ?_⟩
      simp only [if_true, hsame, hfailed, Bool.false_eq_true, if_false]
      exact hput
  | false =>
      refine ⟨_, rfl, ?_⟩
      simp only [Bool.false_eq_true, if_false, hfail rfl, if_true]
      exact hholds

theorem sbAppendLen_holds (str : Option Text) (h : st.Holds base content) :
    ∃ st', sbAppendLen granted str st = some st' ∧
      st'.Holds base (if st'.sb.failed then content else content ++ str.getD []) := by
  cases str with
  | none => exact ⟨st, rfl, by simpa using h⟩
  | some bytes =>
      unfold sbAppendLen
      dsimp only
      by_cases hnil : bytes.length = 0
      · obtain rfl := List.length_eq_zero_iff.mp hnil
        exact ⟨st, rfl, by simpa using h⟩
      · rw [if_neg hnil]
        exact ensured_holds bytes h

/-! ## Formatting -/

theorem Formatting.length_output (writing : Formatting) (limit : ℕ) :
    (writing.output limit).length ≤ limit + 1 := by
  unfold Formatting.output
  split
  · rw [List.length_take]
    omega
  · rw [List.length_append, List.length_take, List.length_singleton]
    omega

/-- A formatting call that agrees wrote its text and a terminator. -/
theorem Formatting.output_of_result {writing : Formatting} {limit : ℕ} (hlimit : 0 < limit)
    (h : writing.result = limit) :
    writing.bytes.length = limit ∧ writing.output limit = writing.bytes ++ [0] := by
  unfold Formatting.result at h
  split at h
  · omega
  · rename_i hand
    have hlength : writing.bytes.length = limit := by omega
    refine ⟨hlength, ?_⟩
    unfold Formatting.output
    rw [if_neg (not_or.mp hand).1, ← hlength, List.take_length]

theorem store_append {at_ : ℕ} {a b : Text} (h : at_ ≤ block.length) :
    (block.store at_ a).store (at_ + a.length) b = block.store at_ (a ++ b) := by
  unfold Block.store
  have hlength : (block.take at_ ++ a.map some).length = at_ + a.length := by
    simp
    omega
  have hdrop : (block.take at_ ++ a.map some ++ block.drop (at_ + a.length)).drop
      (at_ + a.length + b.length) = block.drop (at_ + (a ++ b).length) := by
    rw [List.drop_append, List.drop_eq_nil_of_le (by omega), List.nil_append, hlength,
      Nat.add_sub_cancel_left, List.drop_drop, List.length_append, Nat.add_assoc]
  rw [List.take_left' hlength, hdrop, List.map_append, List.append_assoc (block.take at_)]

/-- The prefix survives a formatting call that is undone. -/
theorem undone_holds (h : st.Holds base content) (hbuf : st.sb.buf.isSome)
    (hroom : content.length + bytes.length ≤ st.sb.capacity) :
    ((st.store st.sb.len bytes).store st.sb.len [0]).Holds base content := by
  obtain ⟨block, hblock⟩ := Option.isSome_iff_exists.mp hbuf
  have hlength := h.block_length block hblock
  have hlt := h.len_lt hblock
  have hprefix : content.map some <+: block := by
    have := h.written block hblock
    rw [List.map_append] at this
    exact (List.prefix_append _ _).trans this
  have hfirst : (block.store content.length bytes).length = block.length :=
    length_store (by omega)
  unfold SbState.store
  rw [hblock, h.len_eq]
  rw [h.len_eq] at hlt
  refine ⟨?_, ?_, h.len_eq, h.capacity_le, nofun, ?_⟩
  · rintro _ ⟨rfl⟩
    have hkept := prefix_store bytes hprefix
    rw [List.map_append] at hkept
    exact prefix_store [0] ((List.prefix_append _ _).trans hkept)
  · rintro _ ⟨rfl⟩
    rw [length_store (by rw [hfirst, List.length_singleton]; omega), hfirst, hlength]
  · simpa [hblock] using h.tracked

theorem sbAppendf_holds (fmt : Option (Formatting × Formatting)) (h : st.Holds base content) :
    ∃ st', sbAppendf granted fmt st = some st' ∧
      st'.Holds base (if st'.sb.failed then content else content ++ (SbCall.appendf fmt).piece) := by
  unfold sbAppendf
  by_cases hfailed : st.sb.failed = true
  · exact ⟨st, by rw [if_pos hfailed], by rwa [if_pos hfailed]⟩
  rw [if_neg hfailed]
  match fmt with
  | none => exact ⟨_, rfl, h.fail⟩
  | some (sizing, writing) =>
      dsimp only
      by_cases hneg : sizing.result < 0
      · exact ⟨_, if_pos hneg, h.fail⟩
      rw [if_neg hneg]
      by_cases hzero : sizing.result = 0
      · refine ⟨st, if_pos hzero, ?_⟩
        simpa [SbCall.piece, hzero, hfailed] using h
      rw [if_neg hzero]
      obtain ⟨ok, st₁, hensure, hholds, hroom, hfail⟩ :=
        sbEnsureCapacity_spec granted sizing.result.toNat h
      rw [hensure, Option.map_some]
      cases ok with
      | false =>
          refine ⟨_, rfl, ?_⟩
          simp only [Bool.false_eq_true, if_false, hfail rfl, if_true]
          exact hholds
      | true =>
          obtain ⟨hfailed₁, hbuf, hfits⟩ := hroom rfl
          simp only [if_true]
          by_cases hagree : writing.result = sizing.result
          · rw [if_neg (not_not.mpr hagree)]
            -- both passes told the same length: the write is a put of what was formatted
            obtain ⟨hlength, houtput⟩ := Formatting.output_of_result
              (by omega : 0 < sizing.result.toNat)
              (hagree.trans (Int.toNat_of_nonneg (by omega)).symm)
            have hput : (st₁.store st₁.sb.len (writing.output sizing.result.toNat)).advance
                sizing.result.toNat = sbPut writing.bytes st₁ := by
              obtain ⟨block, hblock⟩ := Option.isSome_iff_exists.mp hbuf
              have hle := (hholds.len_lt hblock).le
              rw [← hholds.block_length block hblock] at hle
              unfold sbPut SbState.store SbState.advance
              rw [houtput, ← hlength, hblock]
              simp only [Option.map_some, store_append hle]
            obtain ⟨happended, hsame⟩ := sbPut_holds hholds hbuf (hlength ▸ hfits)
            refine ⟨_, rfl, ?_⟩
            rw [hput, if_neg (by rw [hsame, hfailed₁]; simp), SbCall.piece, if_neg hzero]
            exact happended
          · rw [if_pos hagree]
            -- the second pass told another length: what it wrote is cut off again
            have hbound := writing.length_output sizing.result.toNat
            exact ⟨_, rfl, (undone_holds hholds hbuf (by omega)).fail⟩

/-! ## Clearing, freeing and detaching -/

theorem sbClear_holds (h : st.Holds base content) : (sbClear st).Holds base [] := by
  unfold sbClear
  cases hbuf : st.sb.buf with
  | none =>
      have htracked := h.tracked
      rw [hbuf] at htracked
      exact ⟨nofun, nofun, rfl, h.capacity_le, fun _ => ⟨rfl, (h.empty hbuf).2⟩, htracked⟩
  | some block =>
      have hlt := h.len_lt hbuf
      have hlength := h.block_length block hbuf
      have htracked := h.tracked
      rw [hbuf] at htracked
      refine ⟨?_, ?_, rfl, h.capacity_le, nofun, htracked⟩
      · rintro _ ⟨rfl⟩
        have hempty : ([] : Text).map some <+: block := List.nil_prefix
        exact prefix_store [0] hempty
      · rintro _ ⟨rfl⟩
        rw [length_store (by rw [List.length_singleton]; omega), hlength]

/-- Freeing gives the counters back. -/
theorem sbFree_eq (h : st.Holds base content) : sbFree st = ⟨sbInit, base⟩ := by
  have htracked := h.tracked
  unfold sbFree memFree
  cases hbuf : st.sb.buf with
  | none =>
      rw [hbuf, (h.empty hbuf).2] at htracked
      rw [htracked]
      simp [base.add_zero]
  | some block =>
      rw [hbuf] at htracked
      have hback := base.add_sub 0 st.sb.capacity 0 1
      rw [Nat.zero_add, Nat.zero_add, base.add_zero] at hback
      rw [htracked]
      simp [hback]

/-- What `sb_detach` is to leave: an empty builder, nothing counted for the
returned buffer, and the content in it. -/
def SbDetaches (base : MemTracking) (content : Text) (granted : Bool) (st : SbState) : Prop :=
  (sbDetach granted st).2 = ⟨sbInit, base⟩ ∧
    ∀ res, (sbDetach granted st).1 = some res → (content ++ [0]).map some <+: res

/-- The builder has a buffer to give away; without one, it has no failure to
clear and is refused the byte it asks for. -/
def DetachOwned (granted : Bool) (st : SbState) : Prop :=
  st.sb.buf.isSome ∨ (st.sb.failed = false ∧ granted = false)

theorem MemTracking.add_one_ne (mem : MemTracking) : mem.add 1 1 ≠ mem := by
  intro h
  have hcount := congrArg MemTracking.allocationsCount h
  simp [MemTracking.add] at hcount

theorem sbDetach_owned (h : st.Holds base content) (hbuf : st.sb.buf.isSome) :
    SbDetaches base content granted st := by
  obtain ⟨block, hblock⟩ := Option.isSome_iff_exists.mp hbuf
  have htracked := h.tracked
  simp only [hblock, Option.isSome_some, if_true] at htracked
  have hback := fun size => base.add_sub 0 size 0 1
  simp only [Nat.zero_add, base.add_zero] at hback
  unfold SbDetaches sbDetach memUntrackAllocation
  simp only [hblock, htracked]
  rcases memRealloc_cases granted (Nat.succ_pos st.sb.len) base block st.sb.capacity with
    ⟨-, halloc⟩ | halloc
  · simp only [Nat.succ_eq_add_one] at halloc
    simp only [halloc, hback]
    refine ⟨trivial, ?_⟩
    rintro _ ⟨rfl⟩
    -- the shrunk block is the content and its terminator
    obtain ⟨rest, rfl⟩ := h.written block hblock
    rw [List.take_left' (by simp [h.len_eq])]
    exact List.prefix_append _ _
  · simp only [Nat.succ_eq_add_one] at halloc
    simp only [halloc, hback]
    refine ⟨trivial, ?_⟩
    rintro _ ⟨rfl⟩
    exact h.written block hblock

/-- **Where `sb_detach` keeps its promise.** -/
theorem sbDetaches_iff (h : st.Holds base content) :
    SbDetaches base content granted st ↔ DetachOwned granted st := by
  by_cases hbuf : st.sb.buf.isSome
  · exact iff_of_true (sbDetach_owned h hbuf) (Or.inl hbuf)
  have hnone : st.sb.buf = none := by simpa using hbuf
  obtain ⟨rfl, hcap⟩ := h.empty hnone
  have htracked := h.tracked
  rw [hnone, hcap] at htracked
  unfold SbDetaches sbDetach DetachOwned
  rw [or_iff_right hbuf]
  have hone : grants granted 1 = granted := by
    have : (1 : ℕ) ≤ sizeMax / 2 := by decide
    simp [grants, this]
  simp only [hnone, memAlloc, hone]
  cases granted with
  | true =>
      refine iff_of_false ?_ (by simp)
      rintro ⟨hleft, -⟩
      have hmem := congrArg SbState.mem hleft
      simp only [htracked, MemTracking.add_add] at hmem
      exact base.add_one_ne hmem
  | false =>
      have hmem : st.mem = base := by
        rw [htracked]
        exact base.add_zero
      have hsb : st.sb = sbInit ↔ st.sb.failed = false := by
        obtain ⟨⟨buf, len, capacity, failed⟩, mem⟩ := st
        have hlen := h.len_eq
        dsimp only at hnone hcap hlen ⊢
        subst hnone hcap hlen
        simp [sbInit]
      simp [hmem, hsb]

/-! ## Runs -/

/-- **One call.** -/
theorem sbStep_holds (call : SbCall) (h : st.Holds base content)
    (hdetach : call = .detach → DetachOwned granted st) :
    ∃ st', sbStep granted st call = some st' ∧
      st'.Holds base (call.content st'.sb.failed content) := by
  cases call with
  | append str =>
      cases str with
      | none => exact ⟨st, rfl, by simpa [SbCall.content, SbCall.resets, SbCall.piece] using h⟩
      | some text => exact sbAppendLen_holds (some text.bytes) h
  | appendLen str => exact sbAppendLen_holds str h
  | appendChar c => exact ensured_holds [c] h
  | appendf fmt => exact sbAppendf_holds fmt h
  | clear => exact ⟨_, rfl, sbClear_holds h⟩
  | free =>
      refine ⟨_, rfl, ?_⟩
      rw [sbFree_eq h]
      exact .init base
  | detach =>
      have hdetaches := (sbDetaches_iff h).mpr (hdetach rfl)
      refine ⟨_, rfl, ?_⟩
      rw [hdetaches.1]
      exact .init base

/-- A failed builder takes nothing. -/
theorem sbStep_failed (call : SbCall) (hfailed : st.sb.failed = true)
    (hcall : call.resets = false) : sbStep granted st call = some st := by
  have hlen : ∀ str, sbAppendLen granted str st = some st := by
    intro str
    cases str with
    | none => rfl
    | some bytes =>
        unfold sbAppendLen
        dsimp only
        rw [sbEnsureCapacity_failed hfailed]
        simp
  cases call with
  | append str =>
      cases str with
      | none => rfl
      | some text => exact hlen (some text.bytes)
  | appendLen str => exact hlen str
  | appendChar c =>
      rw [sbStep, sbAppendChar, sbEnsureCapacity_failed hfailed]
      rfl
  | appendf fmt =>
      unfold sbStep sbAppendf
      exact if_pos hfailed
  | _ => cases hcall

/-- The states of a builder and the content its calls add up to, from `sb_init`
and with every `sb_detach` owned. -/
inductive SbReachable (base : MemTracking) : SbState → Text → Prop
  | init : SbReachable base ⟨sbInit, base⟩ []
  | step {st st' : SbState} {content : Text} (call : SbCall) (granted : Bool)
      (hreach : SbReachable base st content) (hdetach : call = .detach → DetachOwned granted st)
      (hstep : sbStep granted st call = some st') :
      SbReachable base st' (call.content st'.sb.failed content)

theorem SbReachable.holds (h : SbReachable base st content) : st.Holds base content := by
  induction h with
  | init => exact .init base
  | step call granted _ hdetach hstep ih =>
      obtain ⟨st', hst', hholds⟩ := sbStep_holds call ih hdetach
      rw [hst'] at hstep
      obtain rfl := Option.some_inj.mp hstep
      exact hholds

/-- **A builder holds what was appended**, through every run in which each
`sb_detach` is owned: the buffer has the content and its terminator, a failure
stays until the builder is freed or detached and nothing is appended after it, and
the counters stand at the builder's own block. From each state reached so, a
`sb_detach` keeps its promise only if it is owned. -/
theorem stringBuilder_run (base : MemTracking) :
    (∀ st content, SbReachable base st content →
      (∀ block, st.sb.buf = some block → st.sb.len < st.sb.capacity ∧
        block.length = st.sb.capacity ∧ block[st.sb.len]? = some (some 0) ∧
          block.take st.sb.len = content.map some) ∧
      (st.sb.buf = none → content = [] ∧ st.sb.len = 0) ∧
      st.mem = base.add (if st.sb.buf.isSome then st.sb.capacity else 0)
        (if st.sb.buf.isSome then 1 else 0) ∧
      ∀ call granted, (call = .detach → DetachOwned granted st) →
        ∃ st', sbStep granted st call = some st' ∧
          (st.sb.failed = true → call ≠ .free → call ≠ .detach →
            st'.sb.failed = true ∧ (call ≠ .clear → st' = st))) ∧
      ∀ st content, SbReachable base st content → ∀ granted,
        (SbDetaches base content granted st ↔ DetachOwned granted st) := by
  refine ⟨fun st content h => ?_, fun st content h granted => sbDetaches_iff h.holds⟩
  have hholds := h.holds
  refine ⟨fun block hblock => ⟨hholds.len_lt hblock, hholds.block_length block hblock,
    hholds.nul hblock, hholds.text hblock⟩, fun hnone => ?_, ?_, fun call granted hdetach => ?_⟩
  · obtain ⟨rfl, -⟩ := hholds.empty hnone
    exact ⟨rfl, hholds.len_eq⟩
  · rw [hholds.tracked]
    cases hbuf : st.sb.buf with
    | none => rw [(hholds.empty hbuf).2]; rfl
    | some block => rfl
  · obtain ⟨st', hst', -⟩ := sbStep_holds call hholds hdetach
    refine ⟨st', hst', fun hfailed hfree hdet => ?_⟩
    by_cases hclear : call = .clear
    · subst hclear
      obtain rfl : sbClear st = st' := Option.some_inj.mp hst'
      exact ⟨hfailed, fun h => absurd rfl h⟩
    · have hresets : call.resets = false := by
        cases call <;> simp_all [SbCall.resets]
      rw [sbStep_failed call hfailed hresets] at hst'
      obtain rfl := Option.some_inj.mp hst'
      exact ⟨hfailed, fun _ => rfl⟩

/-- One append, and a `sb_detach` that is owned. -/
theorem stringBuilder_run_sample :
    ∃ st, sbStep true ⟨sbInit, ⟨0, 0⟩⟩ (.append (some (cstr "ab"))) = some st ∧
      SbDetaches ⟨0, 0⟩ (ascii "ab") true st := by
  refine ⟨_, rfl, ?_⟩
  have hreach : SbReachable ⟨0, 0⟩ _ _ :=
    .step (.append (some (cstr "ab"))) true .init nofun rfl
  exact ((stringBuilder_run ⟨0, 0⟩).2 _ _ hreach true).mpr (Or.inl rfl)

/-- The byte made for an empty builder stays counted. -/
theorem sbDetach_empty_tracked :
    SbReachable ⟨0, 0⟩ ⟨sbInit, ⟨0, 0⟩⟩ [] ∧
      sbDetach true ⟨sbInit, ⟨0, 0⟩⟩ = (some [some 0], ⟨sbInit, ⟨1, 1⟩⟩) ∧
      ¬ SbDetaches ⟨0, 0⟩ [] true ⟨sbInit, ⟨0, 0⟩⟩ := by
  refine ⟨.init, rfl, ?_⟩
  rintro ⟨hleft, -⟩
  exact absurd hleft (by decide)

end UnityCommon.Common
