import UnityCommon.Lz4.Decompress

/-!
# The LZ4 block format

`Sequences` is the format itself: what a block says, given the bytes already
produced. It mentions no cursor, no capacity and no order of checks. The decoder
accepts exactly the blocks of this grammar whose expansion fits.
-/

namespace UnityCommon.Lz4

/-- A length field: its nibble, its extension bytes and its value. -/
inductive LengthCode : ℕ → Text → ℕ → Prop
  | short {nibble} (h : nibble < 15) : LengthCode nibble [] nibble
  | extended {k : ℕ} {last : UInt8} (h : last ≠ 255) :
      LengthCode 15 (List.replicate k 255 ++ [last]) (15 + 255 * k + last.toNat)

/-- `Sequences out source result`: after `out`, the bytes `source` decompose
into sequences, and the expansion is `result`. -/
inductive Sequences : Text → Text → Text → Prop
  /-- The source ends: it was empty, or its last sequence ended in a match. -/
  | stop {out} : Sequences out [] out
  /-- The source ends after the literals of its last sequence. -/
  | literals {out : Text} {token : UInt8} {ext lits : Text}
      (hlits : LengthCode (token.toNat / 16) ext lits.length) :
      Sequences out (token :: (ext ++ lits)) (out ++ lits)
  /-- Literals, then a match; the rest follows. -/
  | sequence {out : Text} {token : UInt8} {ext lits : Text} {lo hi : UInt8}
      {ext' : Text} {length : ℕ} {out' rest result : Text}
      (hlits : LengthCode (token.toNat / 16) ext lits.length)
      (hoffset : 0 < lo.toNat + 256 * hi.toNat)
      (hhistory : lo.toNat + 256 * hi.toNat ≤ (out ++ lits).length)
      (hlength : LengthCode (token.toNat % 16) ext' length)
      (hcopy : SelfCopy.Copied (lo.toNat + 256 * hi.toNat) (length + 4) (out ++ lits) out')
      (hrest : Sequences out' rest result) :
      Sequences out (token :: (ext ++ (lits ++ lo :: hi :: (ext' ++ rest)))) result

/-! ## Length fields -/

theorem readExtensions_iff {input : Text} : ∀ {length : ℕ},
    length + 255 * input.length ≤ sizeMax → ∀ {value : ℕ} {rest : Text},
    (readExtensions length input = some (value, rest) ↔
      ∃ (k : ℕ) (last : UInt8), last ≠ 255 ∧
        input = List.replicate k 255 ++ last :: rest ∧
        value = length + 255 * k + last.toNat) := by
  induction input with
  | nil =>
      intro length _ value rest
      simp [readExtensions]
  | cons e input ih =>
      intro length hbound value rest
      have he := e.toNat_lt
      rw [List.length_cons] at hbound
      -- the sum cannot wrap: every byte left adds at most 255
      have hfits : ¬ sizeMax - e.toNat < length := by omega
      unfold readExtensions
      rw [if_neg hfits]
      by_cases hc : e = 255
      · subst hc
        rw [if_pos rfl, show (255 : UInt8).toNat = 255 from rfl, ih (by omega)]
        constructor
        · rintro ⟨k, last, hl, rfl, rfl⟩
          exact ⟨k + 1, last, hl, by simp [List.replicate_succ], by omega⟩
        · rintro ⟨k, last, hl, hin, rfl⟩
          cases k with
          | zero =>
              simp only [List.replicate_zero, List.nil_append, List.cons.injEq] at hin
              exact absurd hin.1.symm hl
          | succ k =>
              simp only [List.replicate_succ, List.cons_append, List.cons.injEq, true_and] at hin
              exact ⟨k, last, hl, hin, by omega⟩
      · rw [if_neg hc]
        constructor
        · intro h
          obtain ⟨rfl, rfl⟩ : length + e.toNat = value ∧ input = rest := by simpa using h
          exact ⟨0, e, hc, by simp, by omega⟩
        · rintro ⟨k, last, -, hin, rfl⟩
          cases k with
          | zero =>
              simp only [List.replicate_zero, List.nil_append, List.cons.injEq] at hin
              obtain ⟨rfl, rfl⟩ := hin
              simp
          | succ k =>
              simp only [List.replicate_succ, List.cons_append, List.cons.injEq] at hin
              exact absurd hin.1 hc

/-- **A length field read back.** No length of a block of `int` size overflows. -/
theorem readLength_iff {nibble : ℕ} {input : Text} (hn : nibble < 16)
    (hbound : input.length ≤ intMax) {value : ℕ} {rest : Text} :
    readLength nibble input = some (value, rest) ↔
      ∃ ext, input = ext ++ rest ∧ LengthCode nibble ext value := by
  unfold readLength extendedLength
  by_cases h : nibble = 15
  · subst h
    rw [if_neg (by simp), readExtensions_iff (by unfold sizeMax; unfold intMax at hbound; omega)]
    constructor
    · rintro ⟨k, last, hl, rfl, rfl⟩
      exact ⟨_, by simp, LengthCode.extended hl⟩
    · rintro ⟨ext, rfl, hcode⟩
      cases hcode with
      | short hlt => exact absurd hlt (by decide)
      | extended hl => exact ⟨_, _, hl, by simp, rfl⟩
  · rw [if_pos h]
    constructor
    · intro he
      obtain ⟨rfl, rfl⟩ : nibble = value ∧ input = rest := by simpa using he
      exact ⟨[], rfl, LengthCode.short (by omega)⟩
    · rintro ⟨ext, rfl, hcode⟩
      cases hcode with
      | short _ => rfl
      | extended _ => exact absurd rfl h

theorem LengthCode.value_le {nibble : ℕ} {ext : Text} {value : ℕ}
    (h : LengthCode nibble ext value) : value ≤ 15 + 255 * ext.length := by
  cases h with
  | short h => omega
  | @extended k last _ =>
      have := last.toNat_lt
      rw [List.length_append, List.length_replicate, List.length_singleton]
      omega

theorem Sequences.start {out source result : Text} (h : Sequences out source result) :
    out <+: result := by
  induction h with
  | stop => exact List.prefix_rfl
  | literals _ => exact List.prefix_append _ _
  | sequence _ _ _ _ hcopy _ ih =>
      exact (List.prefix_append _ _).trans (hcopy.start.trans ih)

/-! ## One round -/

theorem nibbles (token : UInt8) : token.toNat / 16 < 16 ∧ token.toNat % 16 < 16 := by
  have := token.toNat_lt
  omega

/-- A round whose source still holds a token, with its literals taken. -/
theorem decodeSequence_cons {capacity : ℕ} {exact : Bool} {cursor : Cursor} {token : UInt8}
    {ext lits rest : Text} (hinput : cursor.input = token :: (ext ++ (lits ++ rest)))
    (hbound : cursor.input.length ≤ intMax)
    (hlits : LengthCode (token.toNat / 16) ext lits.length)
    (hfits : (cursor.output ++ lits).length ≤ capacity) :
    decodeSequence capacity exact cursor =
      if rest = [] then
        .done (finishBlock capacity exact cursor lits.length (cursor.output ++ lits))
      else decodeMatch capacity token rest (cursor.output ++ lits) := by
  have hread : readLength (token.toNat / 16) (ext ++ (lits ++ rest)) =
      some (lits.length, lits ++ rest) := by
    refine (readLength_iff (nibbles token).1 ?_).mpr ⟨ext, rfl, hlits⟩
    rw [hinput, List.length_cons] at hbound
    omega
  rw [List.length_append] at hfits
  have hcheck : ¬ ((lits ++ rest).length < lits.length ∨
      capacity - cursor.output.length < lits.length) := by
    rw [List.length_append]
    omega
  unfold decodeSequence
  simp only [hinput, hread, if_neg hcheck, List.take_left, List.drop_left]

/-- The match of a sequence of the grammar. -/
theorem decodeMatch_of_code {capacity : ℕ} {token lo hi : UInt8} {ext rest output out' : Text}
    {length : ℕ} (hbound : (ext ++ rest).length ≤ intMax)
    (hoffset : 0 < lo.toNat + 256 * hi.toNat)
    (hhistory : lo.toNat + 256 * hi.toNat ≤ output.length)
    (hlength : LengthCode (token.toNat % 16) ext length)
    (hcopy : SelfCopy.Copied (lo.toNat + 256 * hi.toNat) (length + 4) output out')
    (hfits : out'.length ≤ capacity) :
    decodeMatch capacity token (lo :: hi :: (ext ++ rest)) output =
      .again ⟨rest, out', output.length, true⟩ := by
  have hread := (readLength_iff (nibbles token).2 hbound).mpr ⟨ext, rfl, hlength⟩
  have hout := (SelfCopy.copied_iff hoffset hhistory).mp hcopy
  have hvalue := hlength.value_le
  rw [List.length_append] at hbound
  have hmax : ¬ sizeMax - minimumMatch < length := by
    unfold intMax at hbound
    unfold sizeMax minimumMatch
    omega
  have hlen := hcopy.length_eq
  have hcap : ¬ capacity - output.length < length + minimumMatch := by
    unfold minimumMatch
    omega
  have hoff : ¬ (lo.toNat + 256 * hi.toNat = 0 ∨
      output.length < lo.toNat + 256 * hi.toNat) := by omega
  unfold decodeMatch
  simp only [if_neg hoff, hread, if_neg hmax, if_neg hcap]
  rw [hout]
  rfl

/-- **What a continued round has read**: one whole sequence of the grammar. -/
theorem decodeMatch_again {capacity : ℕ} {token : UInt8} {input output : Text}
    {next : Cursor} (hbound : input.length ≤ intMax)
    (h : decodeMatch capacity token input output = .again next) :
    ∃ lo hi ext length, input = lo :: hi :: (ext ++ next.input) ∧
      0 < lo.toNat + 256 * hi.toNat ∧ lo.toNat + 256 * hi.toNat ≤ output.length ∧
      LengthCode (token.toNat % 16) ext length ∧
      SelfCopy.Copied (lo.toNat + 256 * hi.toNat) (length + 4) output next.output ∧
      next.output.length ≤ capacity ∧ next.lastMatchStart = output.length ∧
      next.matched = true := by
  unfold decodeMatch at h
  split at h
  swap
  · cases h
  rename_i lo hi input
  simp only at h
  split at h
  · cases h
  rename_i hoff
  split at h
  · cases h
  rename_i length rest hread
  split at h
  · cases h
  split at h
  · cases h
  rename_i hcap
  rw [List.length_cons, List.length_cons] at hbound
  obtain ⟨ext, rfl, hlength⟩ := (readLength_iff (nibbles token).2 (by omega)).mp hread
  have hpos : 0 < lo.toNat + 256 * hi.toNat := by omega
  have hle : lo.toNat + 256 * hi.toNat ≤ output.length := by omega
  have hcopied := SelfCopy.copied_copy hpos (length + minimumMatch) output hle
  cases h
  refine ⟨lo, hi, ext, length, rfl, hpos, hle, hlength, hcopied, ?_, rfl, rfl⟩
  have := hcopied.length_eq
  simp only
  unfold minimumMatch at *
  omega

/-- The literals of a round that gets past them. -/
theorem decodeSequence_literals {capacity : ℕ} {exact : Bool} {cursor : Cursor}
    {token : UInt8} {input : Text} (hinput : cursor.input = token :: input)
    (hbound : input.length ≤ intMax) (hfits : cursor.output.length ≤ capacity)
    (h : decodeSequence capacity exact cursor ≠ .done none) :
    ∃ ext lits rest, input = ext ++ (lits ++ rest) ∧
      LengthCode (token.toNat / 16) ext lits.length ∧
      (cursor.output ++ lits).length ≤ capacity := by
  unfold decodeSequence at h
  simp only [hinput] at h
  split at h
  · exact absurd rfl h
  rename_i literalLength rest hread
  split at h
  · exact absurd rfl h
  rename_i hcheck
  obtain ⟨ext, rfl, hlits⟩ := (readLength_iff (nibbles token).1 hbound).mp hread
  have hlen : (rest.take literalLength).length = literalLength := by
    rw [List.length_take]
    omega
  refine ⟨ext, rest.take literalLength, rest.drop literalLength, by simp, by rwa [hlen], ?_⟩
  rw [List.length_append, hlen]
  omega

/-- **A round that continues** has read one sequence with a match. -/
theorem decodeSequence_again {capacity : ℕ} {exact : Bool} {cursor next : Cursor}
    (hbound : cursor.input.length ≤ intMax) (hfits : cursor.output.length ≤ capacity)
    (h : decodeSequence capacity exact cursor = .again next) :
    (∀ result, Sequences next.output next.input result →
        Sequences cursor.output cursor.input result) ∧
      next.input.length < cursor.input.length ∧ next.output.length ≤ capacity := by
  cases hinput : cursor.input with
  | nil =>
      simp [decodeSequence, hinput] at h
  | cons token input =>
      have hlen : input.length ≤ intMax := by
        rw [hinput, List.length_cons] at hbound
        omega
      have hne : decodeSequence capacity exact cursor ≠ .done none := by simp [h]
      obtain ⟨ext, lits, rest, rfl, hlits, hcap⟩ :=
        decodeSequence_literals hinput hlen hfits hne
      rw [decodeSequence_cons hinput hbound hlits hcap] at h
      split at h
      · cases h
      have hrest : rest.length ≤ intMax := by
        rw [List.length_append, List.length_append] at hlen
        omega
      obtain ⟨lo, hi, ext', length, rfl, hoff, hhist, hlength, hcopy, hout, -, -⟩ :=
        decodeMatch_again hrest h
      refine ⟨fun result hr => Sequences.sequence hlits hoff hhist hlength hcopy hr, ?_, hout⟩
      simp only [List.length_cons, List.length_append]
      omega

/-- **A round that succeeds** has read the last sequence, or nothing. -/
theorem decodeSequence_done {capacity : ℕ} {cursor : Cursor} {out : Text}
    (hbound : cursor.input.length ≤ intMax) (hfits : cursor.output.length ≤ capacity)
    (h : decodeSequence capacity false cursor = .done (some out)) :
    Sequences cursor.output cursor.input out ∧ out.length ≤ capacity := by
  cases hinput : cursor.input with
  | nil =>
      have he : cursor.output = out := by simpa [decodeSequence, hinput] using h
      exact he ▸ ⟨Sequences.stop, hfits⟩
  | cons token input =>
      have hlen : input.length ≤ intMax := by
        rw [hinput, List.length_cons] at hbound
        omega
      have hne : decodeSequence capacity false cursor ≠ .done none := by simp [h]
      obtain ⟨ext, lits, rest, rfl, hlits, hcap⟩ :=
        decodeSequence_literals hinput hlen hfits hne
      rw [decodeSequence_cons hinput hbound hlits hcap] at h
      split at h
      · rename_i hrest
        have he : cursor.output ++ lits = out := by simpa [finishBlock] using h
        rw [hrest, List.append_nil, ← he]
        exact ⟨Sequences.literals hlits, hcap⟩
      · exact absurd h (decodeMatch_ne_done rest)
where
  decodeMatch_ne_done {token : UInt8} {output : Text} (input : Text) :
      decodeMatch capacity token input output ≠ .done (some out) := by
    unfold decodeMatch
    split
    · simp only
      split
      · simp
      split
      · simp
      split
      · simp
      split <;> simp
    · simp

/-! ## The whole block -/

/-- What every cursor of a run keeps. -/
structure Tracks (capacity : ℕ) (source : Text) (cursor : Cursor) : Prop where
  input_le : cursor.input.length ≤ intMax
  output_le : cursor.output.length ≤ capacity
  sequences : ∀ result, Sequences cursor.output cursor.input result →
    Sequences [] source result

theorem Tracks.start (capacity : ℕ) {source : Text} (h : source.length ≤ intMax) :
    Tracks capacity source ⟨source, [], 0, false⟩ :=
  ⟨h, Nat.zero_le _, fun _ hr => hr⟩

theorem Tracks.again {capacity : ℕ} {exact : Bool} {source : Text} {cursor next : Cursor}
    (h : Tracks capacity source cursor)
    (hstep : decodeSequence capacity exact cursor = .again next) :
    Tracks capacity source next := by
  obtain ⟨hseq, hlt, hout⟩ := decodeSequence_again h.input_le h.output_le hstep
  have := h.input_le
  exact ⟨by omega, hout, fun result hr => h.sequences result (hseq result hr)⟩

theorem Tracks.reaches {capacity : ℕ} {exact : Bool} {source : Text} {cursor : Cursor}
    (hsource : source.length ≤ intMax)
    (h : Loop.Reaches (decodeSequence capacity exact) ⟨source, [], 0, false⟩ cursor) :
    Tracks capacity source cursor :=
  h.invariant (Tracks capacity source) (Tracks.start capacity hsource)
    fun _ _ hs hn => hs.again hn

/-- The fuel is enough: every round takes at least its token. -/
theorem decompressBlock_run (source : Text) (capacity : ℕ) (exact : Bool)
    (h : source.length ≤ intMax) :
    Loop.run (decodeSequence capacity exact) (source.length + 1) ⟨source, [], 0, false⟩ =
      some (decompressBlock source capacity exact) := by
  have hdrop : ∀ cursor next,
      Loop.Reaches (decodeSequence capacity exact) ⟨source, [], 0, false⟩ cursor →
      decodeSequence capacity exact cursor = .again next →
        next.input.length < cursor.input.length := by
    intro cursor next hreach hstep
    have htracks := Tracks.reaches h hreach
    exact (decodeSequence_again htracks.input_le htracks.output_le hstep).2.1
  obtain ⟨result, hrun⟩ := Loop.run_of_variant (fun cursor : Cursor => cursor.input.length) hdrop
  rw [decompressBlock, hrun]
  rfl

/-- Every block of the grammar that fits is decoded. -/
theorem run_of_sequences {capacity : ℕ} {out source result : Text}
    (h : Sequences out source result) (hfits : result.length ≤ capacity) :
    ∀ cursor : Cursor, cursor.output = out → cursor.input = source →
      source.length ≤ intMax →
        ∃ fuel, Loop.run (decodeSequence capacity false) fuel cursor = some (some result) := by
  induction h with
  | stop =>
      intro cursor hout hin _
      refine ⟨1, Loop.run_done ?_ 0⟩
      simp [decodeSequence, hin, hout]
  | @literals out token ext lits hlits =>
      intro cursor hout hin hbound
      refine ⟨1, Loop.run_done ?_ 0⟩
      have hin' : cursor.input = token :: (ext ++ (lits ++ [])) := by simp [hin]
      rw [decodeSequence_cons hin' (hin ▸ hbound) hlits (hout ▸ hfits), if_pos rfl, hout]
      simp [finishBlock]
  | @sequence out token ext lits lo hi ext' length out' rest result hlits hoff hhist hlength
      hcopy hrest ih =>
      intro cursor hout hin hbound
      have hout' : out'.length ≤ capacity := Nat.le_trans hrest.start.length_le hfits
      have hlen := hcopy.length_eq
      have hsource : (ext ++ (lits ++ lo :: hi :: (ext' ++ rest))).length + 1 ≤ intMax := by
        simpa using hbound
      simp only [List.length_append, List.length_cons] at hsource
      have hround : decodeSequence capacity false cursor =
          .again ⟨rest, out', (out ++ lits).length, true⟩ := by
        rw [decodeSequence_cons hin (hin ▸ hbound) hlits (by rw [hout]; omega),
          if_neg (by simp), hout]
        refine decodeMatch_of_code ?_ hoff hhist hlength hcopy hout'
        rw [List.length_append]
        omega
      obtain ⟨fuel, hfuel⟩ :=
        ih hfits ⟨rest, out', (out ++ lits).length, true⟩ rfl rfl (by omega)
      exact ⟨fuel + 1, by rw [Loop.run_again hround, hfuel]⟩

/-- **`lz4_decompress_safe` is the LZ4 block semantics.** It returns `n ≥ 0`
with its destination bytes exactly when the source decomposes into sequences
whose expansion fits, and `-1` otherwise. -/
theorem lz4DecompressSafe_semantics (source : Text) (capacity : ℕ)
    (hsource : source.length ≤ intMax) :
    (∀ out, lz4DecompressSafe source capacity = some out ↔
      Sequences [] source out ∧ out.length ≤ capacity) ∧
    (lz4DecompressSafe source capacity = none ↔
      ∀ out, Sequences [] source out → capacity < out.length) := by
  have hrun := decompressBlock_run source capacity false hsource
  have hiff : ∀ out, lz4DecompressSafe source capacity = some out ↔
      Sequences [] source out ∧ out.length ≤ capacity := by
    intro out
    constructor
    · intro h
      unfold lz4DecompressSafe at h
      rw [h] at hrun
      obtain ⟨cursor, hreach, hdone⟩ := Loop.run_some hrun
      have htracks := Tracks.reaches hsource hreach
      obtain ⟨hseq, hfits⟩ := decodeSequence_done htracks.input_le htracks.output_le hdone
      exact ⟨htracks.sequences out hseq, hfits⟩
    · rintro ⟨hseq, hfits⟩
      obtain ⟨fuel, hfuel⟩ := run_of_sequences hseq hfits ⟨source, [], 0, false⟩ rfl rfl hsource
      exact Loop.run_unique hrun hfuel
  refine ⟨hiff, ?_⟩
  constructor
  · intro h out hseq
    by_contra hlt
    have := (hiff out).mpr ⟨hseq, Nat.le_of_not_lt hlt⟩
    rw [h] at this
    cases this
  · intro h
    cases hout : lz4DecompressSafe source capacity with
    | none => rfl
    | some out =>
        obtain ⟨hseq, hfits⟩ := (hiff out).mp hout
        exact absurd (h out hseq) (Nat.not_lt.mpr hfits)

theorem lz4DecompressSafe_semantics_overlap :
    Sequences [] [0x12, 0x61, 0x01, 0x00, 0x10, 0x62] (ascii "aaaaaaab") ∧
      (ascii "aaaaaaab").length ≤ 16 :=
  ((lz4DecompressSafe_semantics [0x12, 0x61, 0x01, 0x00, 0x10, 0x62] 16
    (by decide)).1 _).mp (by decide)

end UnityCommon.Lz4
