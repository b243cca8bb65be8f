import UnityCommon.Lz4.Block

/-!
# The strict end of a block

`lz4_decompress_exact` accepts a block by how it ends: where its last match
starts and how many literals follow. `History` tells both of any block.
-/

namespace UnityCommon.Lz4

/-- The decomposition of a block with where its matches start, and how many
literals its last sequence ends in. -/
inductive History : Text → Text → Text → List ℕ → Option ℕ → Prop
  | stop {out} : History out [] out [] none
  | literals {out : Text} {token : UInt8} {ext lits : Text}
      (hlits : LengthCode (token.toNat / 16) ext lits.length) :
      History out (token :: (ext ++ lits)) (out ++ lits) [] (some lits.length)
  | sequence {out : Text} {token : UInt8} {ext lits : Text} {lo hi : UInt8}
      {ext' : Text} {length : ℕ} {out' rest result : Text} {starts : List ℕ} {final : Option ℕ}
      (hlits : LengthCode (token.toNat / 16) ext lits.length)
      (hoffset : 0 < lo.toNat + 256 * hi.toNat)
      (hhistory : lo.toNat + 256 * hi.toNat ≤ (out ++ lits).length)
      (hlength : LengthCode (token.toNat % 16) ext' length)
      (hcopy : SelfCopy.Copied (lo.toNat + 256 * hi.toNat) (length + 4) (out ++ lits) out')
      (hrest : History out' rest result starts final) :
      History out (token :: (ext ++ (lits ++ lo :: hi :: (ext' ++ rest)))) result
        ((out ++ lits).length :: starts) final

/-- A block has a history. -/
theorem Sequences.history {out source result : Text} (h : Sequences out source result) :
    ∃ starts final, History out source result starts final := by
  induction h with
  | stop => exact ⟨_, _, .stop⟩
  | literals hlits => exact ⟨_, _, .literals hlits⟩
  | sequence hlits hoffset hhistory hlength hcopy _ ih =>
      obtain ⟨starts, final, hrest⟩ := ih
      exact ⟨_, _, .sequence hlits hoffset hhistory hlength hcopy hrest⟩

theorem History.sequences {out source result : Text} {starts : List ℕ} {final : Option ℕ}
    (h : History out source result starts final) : Sequences out source result := by
  induction h with
  | stop => exact .stop
  | literals hlits => exact .literals hlits
  | sequence hlits hoffset hhistory hlength hcopy _ ih =>
      exact .sequence hlits hoffset hhistory hlength hcopy ih

/-- What a decoder returns for a block, from its history behind a cursor. -/
def verdict (capacity : ℕ) (exact : Bool) (cursor : Cursor) (result : Text) (starts : List ℕ) :
    Option ℕ → Option Text
  | none => if exact then none else some result
  | some literalLength =>
      finishBlock capacity exact
        { cursor with
          lastMatchStart := starts.getLastD cursor.lastMatchStart
          matched := cursor.matched || !starts.isEmpty }
        literalLength result

/-- **The flags remember the history**: a decoder ends with the verdict on it. -/
theorem run_of_history {capacity : ℕ} (exact : Bool) {out source result : Text} {starts : List ℕ}
    {final : Option ℕ} (h : History out source result starts final)
    (hfits : result.length ≤ capacity) :
    ∀ cursor : Cursor, cursor.output = out → cursor.input = source → source.length ≤ intMax →
      ∃ fuel, Loop.run (decodeSequence capacity exact) fuel cursor =
        some (verdict capacity exact cursor result starts final) := by
  induction h with
  | stop =>
      intro cursor hout hin _
      refine ⟨1, Loop.run_done ?_ 0⟩
      rw [decodeSequence, hin, hout]
      rfl
  | @literals out token ext lits hlits =>
      intro cursor hout hin hbound
      refine ⟨1, Loop.run_done ?_ 0⟩
      have hin' : cursor.input = token :: (ext ++ (lits ++ [])) := by simp [hin]
      rw [decodeSequence_cons hin' (hin ▸ hbound) hlits (hout ▸ hfits), if_pos rfl, hout, verdict,
        List.isEmpty_nil, Bool.not_true, Bool.or_false]
      rfl
  | @sequence out token ext lits lo hi ext' length out' rest result starts final hlits hoff hhist
      hlength hcopy hrest ih =>
      intro cursor hout hin hbound
      have hout' : out'.length ≤ capacity :=
        Nat.le_trans hrest.sequences.start.length_le hfits
      have hlen := hcopy.length_eq
      have hsource : (ext ++ (lits ++ lo :: hi :: (ext' ++ rest))).length + 1 ≤ intMax := by
        simpa using hbound
      simp only [List.length_append, List.length_cons] at hsource
      have hround : decodeSequence capacity exact cursor =
          .again ⟨rest, out', (out ++ lits).length, true⟩ := by
        rw [decodeSequence_cons hin (hin ▸ hbound) hlits (by rw [hout]; omega),
          if_neg (by simp), hout]
        refine decodeMatch_of_code ?_ hoff hhist hlength hcopy hout'
        rw [List.length_append]
        omega
      obtain ⟨fuel, hfuel⟩ :=
        ih hfits ⟨rest, out', (out ++ lits).length, true⟩ rfl rfl (by omega)
      refine ⟨fuel + 1, ?_⟩
      rw [Loop.run_again hround, hfuel]
      -- the last match is the one behind this one, if there is any
      cases final with
      | none => rfl
      | some n =>
          have hlast : starts.getLastD (out ++ lits).length =
              ((out ++ lits).length :: starts).getLastD cursor.lastMatchStart := by
            cases starts <;> rfl
          simp only [verdict, hlast, Bool.true_or, List.isEmpty_cons, Bool.not_false, Bool.or_true]
          rfl

/-! ## Both decoders -/

/-- The strict decoder takes the same steps and ends with no other bytes. -/
theorem decodeSequence_exact {capacity : ℕ} {cursor : Cursor} :
    decodeSequence capacity true cursor = decodeSequence capacity false cursor ∨
      decodeSequence capacity true cursor = .done none := by
  unfold decodeSequence
  split
  · exact Or.inr rfl
  · split
    · exact Or.inl rfl
    · dsimp only
      split
      · exact Or.inl rfl
      · split
        · unfold finishBlock
          dsimp only
          split
          · exact Or.inr rfl
          · exact Or.inl rfl
        · exact Or.inl rfl

theorem lz4DecompressSafe_of_exact {source out : Text} {capacity : ℕ}
    (hsource : source.length ≤ intMax) (h : lz4DecompressExact source capacity = some out) :
    lz4DecompressSafe source capacity = some out := by
  have hexact := decompressBlock_run source capacity true hsource
  have hsafe := decompressBlock_run source capacity false hsource
  rw [← lz4DecompressExact, h] at hexact
  have hrun := Loop.run_of_stops (fun cursor => decodeSequence_exact) hexact (Option.some_ne_none out)
  exact Loop.run_unique hsafe hrun

/-- What the strict decoder returns for a block with a history. -/
theorem lz4DecompressExact_of_history {source out : Text} {capacity : ℕ} {starts : List ℕ}
    {final : Option ℕ} (hsource : source.length ≤ intMax) (h : History [] source out starts final)
    (hfits : out.length ≤ capacity) :
    lz4DecompressExact source capacity =
      verdict capacity true ⟨source, [], 0, false⟩ out starts final := by
  obtain ⟨fuel, hfuel⟩ := run_of_history true h hfits ⟨source, [], 0, false⟩ rfl rfl hsource
  exact Loop.run_unique (decompressBlock_run source capacity true hsource) hfuel

/-- A block that is cut off behind a match, or ends too close to one. -/
def EndsLoosely (source out : Text) (starts : List ℕ) (final : Option ℕ) : Prop :=
  source = [] ∨ (source ≠ [] ∧ final = none) ∨
    ∃ start literals, starts.getLast? = some start ∧ final = some literals ∧
      (literals < finalLiterals ∨ out.length - start < lastMatchDistance)

theorem verdict_eq_none {source out : Text} {capacity : ℕ} {starts : List ℕ} {final : Option ℕ}
    (h : History [] source out starts final) (hsize : out.length = capacity) :
    verdict capacity true ⟨source, [], 0, false⟩ out starts final = none ↔
      EndsLoosely source out starts final := by
  cases final with
  | none =>
      refine iff_of_true rfl ?_
      by_cases hsource : source = []
      · exact Or.inl hsource
      · exact Or.inr (Or.inl ⟨hsource, rfl⟩)
  | some literals =>
      have hsource : source ≠ [] := by
        rintro rfl
        cases h
      simp only [verdict, finishBlock, EndsLoosely, hsize, hsource, false_or, reduceCtorEq, and_false,
        Option.some.injEq]
      cases hlast : starts.getLast? with
      | none =>
          obtain rfl := List.getLast?_eq_none_iff.mp hlast
          simp
      | some start =>
          have hne : starts ≠ [] := by
            rintro rfl
            cases hlast
          simp [hne, hlast]
          omega

/-- **The strict decoder is the permissive one**, with full output, but for the
blocks that end loosely. -/
theorem lz4DecompressExact_iff (source : Text) (capacity : ℕ) (hsource : source.length ≤ intMax) :
    (∀ out, lz4DecompressExact source capacity = some out →
      lz4DecompressSafe source capacity = some out ∧ out.length = capacity) ∧
    ∀ out, lz4DecompressSafe source capacity = some out → out.length = capacity →
      (∃ starts final, History [] source out starts final) ∧
      ∀ starts final, History [] source out starts final →
        (lz4DecompressExact source capacity = none ↔ EndsLoosely source out starts final) := by
  have hsequences := fun out => ((lz4DecompressSafe_semantics source capacity hsource).1 out).mp
  refine ⟨fun out hexact => ?_, fun out hsafe hsize => ⟨?_, fun starts final hhistory => ?_⟩⟩
  · have hsafe := lz4DecompressSafe_of_exact hsource hexact
    obtain ⟨hseq, hfits⟩ := hsequences out hsafe
    obtain ⟨starts, final, hhistory⟩ := hseq.history
    refine ⟨hsafe, ?_⟩
    rw [lz4DecompressExact_of_history hsource hhistory hfits] at hexact
    by_contra hsize
    cases final with
    | none => cases hexact
    | some literals => simp [verdict, finishBlock, hsize] at hexact
  · exact (hsequences out hsafe).1.history
  · rw [lz4DecompressExact_of_history hsource hhistory hsize.le]
    exact verdict_eq_none hhistory hsize

theorem lz4DecompressExact_iff_overlap :
    ∃ starts final, History [] [0x12, 0x61, 0x01, 0x00, 0x10, 0x62] (ascii "aaaaaaab") starts final ∧
      (lz4DecompressExact [0x12, 0x61, 0x01, 0x00, 0x10, 0x62] 8 = none ↔
        EndsLoosely [0x12, 0x61, 0x01, 0x00, 0x10, 0x62] (ascii "aaaaaaab") starts final) := by
  obtain ⟨⟨starts, final, h⟩, hiff⟩ :=
    (lz4DecompressExact_iff [0x12, 0x61, 0x01, 0x00, 0x10, 0x62] 8 (by decide)).2 (ascii "aaaaaaab")
      (by decide) (by decide)
  exact ⟨starts, final, h, hiff starts final h⟩

end UnityCommon.Lz4
