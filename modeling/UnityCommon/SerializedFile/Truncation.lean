import UnityCommon.SerializedFile.TailOwner
import UnityCommon.Common.Words

/-!
# Truncated mappings

The runs of the prefix query and of the two owners over ever longer mappings of
one file. Each needs the mapping up to some offset: behind it the run is that of
the whole file, before it the run reports where the mapping ends.
-/

namespace UnityCommon.Metadata

/-- **The truncated-mapping law** of a run that a file of `size` bytes succeeds
with: over less of the file it is the same, or incomplete; and once it succeeds
it stays as it is. -/
structure TruncationLaw {ρ : Type} (size : ℕ) (run : ℕ → ρ) (Succeeds : ρ → Prop)
    (Incomplete : ℕ → ρ → Prop) : Prop where
  outcome : ∀ mappedSize ≤ size, run mappedSize = run size ∨ Incomplete mappedSize (run mappedSize)
  grows : ∀ mappedSize larger, mappedSize ≤ larger → larger ≤ size → Succeeds (run mappedSize) →
    run larger = run mappedSize

/-- A run with an offset that it needs the mapping up to. -/
theorem TruncationLaw.of_extent {ρ : Type} {size : ℕ} (extent : ℕ) {run : ℕ → ρ} {Succeeds : ρ → Prop}
    {Incomplete : ℕ → ρ → Prop} (hok : ∀ m ≤ size, extent ≤ m → run m = run size)
    (hshort : ∀ m ≤ size, m < extent → Incomplete m (run m) ∧ ¬ Succeeds (run m)) :
    TruncationLaw size run Succeeds Incomplete where
  outcome m hm := by
    by_cases h : extent ≤ m
    · exact Or.inl (hok m hm h)
    · exact Or.inr (hshort m hm (Nat.lt_of_not_le h)).1
  grows m larger hle hsize hsucceeds := by
    have hm : m ≤ size := hle.trans hsize
    have h : extent ≤ m := by
      refine Nat.le_of_not_lt fun hlt => ?_
      exact (hshort m hm hlt).2 hsucceeds
    rw [hok larger hsize (h.trans hle), hok m hm h]

/-! ## What is incomplete -/

def PrefixIncomplete (mappedSize : ℕ) (run : PrefixResult × Option PrefixView) : Prop :=
  run.1.status = .incompleteMapping ∧ run.1.errorOffset = mappedSize ∧ run.2 = none

/-- The mapping ends in the metadata, or in the prefix already. -/
def DirectoryIncomplete {σ α : Type} (mappedSize : ℕ) (run : Call.Result DirectoryResult σ α) :
    Prop :=
  ∃ result state made, run = .error result state made ∧ result.errorOffset = mappedSize ∧
    (result.status = .incompleteMapping ∨
      (result.status = .prefixRejected ∧ result.prefixResult.status = .incompleteMapping))

def TailIncomplete {σ α : Type} (mappedSize : ℕ) (run : Call.Result TailResult σ α) : Prop :=
  ∃ result state made, run = .error result state made ∧ result.errorOffset = mappedSize ∧
    result.status = .incompleteMapping

/-- A call has returned. -/
def Returned {ε σ α : Type} (run : Call.Result ε σ α) : Prop :=
  ∃ value state made, run = .ok value state made

section

variable {text : Text} {σ : Type} {answers : ℕ → Bool} {s : σ} {n : ℕ}

theorem length_take_le {m : ℕ} (hm : m ≤ text.length) : (text.take m).length = m := by
  rw [List.length_take]
  omega

theorem take_all : text.take text.length = text := List.take_length

/-- **Prefix queries over truncated mappings.** -/
theorem prefix_truncation {limits : PrefixLimits} {ran : PrefixResult} {view : PrefixView}
    (h : serializedFilePrefixQuery text text.length limits = (ran, some view)) :
    TruncationLaw text.length
      (fun m => serializedFilePrefixQuery (text.take m) text.length limits)
      (fun run => run.2.isSome = true) PrefixIncomplete := by
  -- the whole mapping has room for every resource
  obtain ⟨d, hP, hroom⟩ : ∃ d, prefixFormat text text.length 0 = some (view, d) ∧
      ∀ k, ¬ (limits.budget text.length).Short k 0 d := by
    cases hP : prefixFormat text text.length 0 with
    | none =>
        obtain ⟨result, hquery, -⟩ :=
          prefixQuery_refused List.prefix_rfl (Nat.le_refl _) limits hP
        rw [h] at hquery
        cases hquery
    | some r =>
        obtain ⟨found, d⟩ := r
        rcases prefixQuery_planned List.prefix_rfl (Nat.le_refl _) limits hP with
          ⟨hroom, hquery⟩ | ⟨result, k, hquery, -⟩
        · rw [h] at hquery
          cases hquery
          exact ⟨d, rfl, hroom⟩
        · rw [h] at hquery
          cases hquery
  -- and so has one that reaches the end of the prefix
  have hrun : ∀ m ≤ text.length, d.extent ≤ m →
      serializedFilePrefixQuery (text.take m) text.length limits =
        (⟨.ok, d.work, noOffset⟩, some view) := by
    intro m hm hextent
    have hlength := length_take_le hm
    rcases prefixQuery_planned (List.take_prefix m text) (by omega) limits hP with
      ⟨-, hquery⟩ | ⟨result, k, -, -, -, hk⟩
    · exact hquery
    · rw [hlength] at hk
      cases k with
      | mapping => exact absurd hextent (Nat.not_le.mpr hk)
      | version => exact absurd hk (hroom .version)
      | work => exact absurd hk (hroom .work)
  have hextent : d.extent ≤ text.length := Nat.le_of_not_lt (hroom .mapping)
  refine TruncationLaw.of_extent d.extent (fun m hm hle => ?_) fun m hm hlt => ?_
  · rw [hrun m hm hle, hrun text.length (Nat.le_refl _) hextent]
  · have hlength := length_take_le hm
    rcases prefixQuery_planned (List.take_prefix m text) (by omega) limits hP with
      ⟨hroom', -⟩ | ⟨result, k, hquery, -, hcites, hk⟩
    · rw [hlength] at hroom'
      exact absurd hlt (hroom' .mapping)
    · rw [hlength] at hk hcites
      simp only [hquery]
      cases k with
      | mapping => exact ⟨⟨hcites.1, hcites.2, rfl⟩, Bool.false_ne_true⟩
      | version => exact absurd hk (hroom .version)
      | work => exact absurd hk (hroom .work)

/-! ## The owners -/

variable {engineVersion : DirectoryEngineVersion}

/-- **Directories over truncated mappings.** -/
theorem directory_truncation {limits : DirectoryLimits} {directory : SerializedFileDirectory}
    {ran : DirectoryResult} {s' : σ} {n' : ℕ}
    (h : serializedFileDirectoryCreate text text.length engineVersion limits answers s n =
      .ok (directory, ran) s' n') :
    TruncationLaw text.length
      (fun m =>
        serializedFileDirectoryCreate (text.take m) text.length engineVersion limits answers s n)
      Returned DirectoryIncomplete := by
  obtain ⟨plan, hplan, hroom, rfl, rfl, hs, hn⟩ := directoryCreate_ok h
  rw [hs, hn] at h
  -- the mapping is the one resource that a truncation takes away
  have hother : ∀ m k, plan.Short limits m (answers n) k →
      k = .prefixed .mapping ∨ k = .scan .mapping := by
    intro m k hk
    cases k with
    | prefixed k =>
        cases k with
        | mapping => exact Or.inl rfl
        | version => exact absurd hk (hroom (.prefixed .version))
        | work => exact absurd hk (hroom (.prefixed .work))
    | scan k =>
        cases k with
        | mapping => exact Or.inr rfl
        | bytes => exact absurd hk (hroom (.scan .bytes))
        | work => exact absurd hk (hroom (.scan .work))
        | nodes => exact absurd hk (hroom (.scan .nodes))
        | strings => exact absurd hk (hroom (.scan .strings))
        | words => exact absurd hk (hroom (.scan .words))
        | terminated => exact absurd hk (hroom (.scan .terminated))
        | rows table => exact absurd hk (hroom (.scan (.rows table)))
    | retained => exact absurd hk (hroom .retained)
    | storage => exact absurd hk (hroom .storage)
  obtain ⟨hhead, -⟩ := directoryPlan_eq_some.mp hplan
  have hextent : plan.prefixCost.extent = plan.start := (prefix_start hhead).1
  refine TruncationLaw.of_extent (plan.start + plan.cost.bytes) (fun m hm hle => ?_)
    fun m hm hlt => ?_
  · rw [take_all, h]
    have hlength := length_take_le hm
    rcases directoryCreate_planned limits answers s n (List.take_prefix m text) (by omega) hplan
      with ⟨-, hok⟩ | ⟨e, queried, state, made, k, -, -, -, hk⟩
    · exact hok
    · rw [hlength] at hk
      rcases hother m k hk with rfl | rfl
      · have hshort : m < plan.prefixCost.extent := hk
        omega
      · exact absurd hle (Nat.not_le.mpr hk)
  · have hlength := length_take_le hm
    rcases directoryCreate_planned limits answers s n (List.take_prefix m text) (by omega) hplan
      with ⟨hroom', -⟩ | ⟨e, queried, state, made, k, herr, -, hblames, hk⟩
    · rw [hlength] at hroom'
      exact absurd hlt (hroom' (.scan .mapping))
    · rw [hlength] at hk hblames
      rw [herr]
      refine ⟨⟨_, _, _, rfl, ?_⟩, fun ⟨_, _, _, hok⟩ => by cases hok⟩
      rcases hother m k hk with rfl | rfl
      · obtain ⟨hstatus, hoffset, hprefixed, hprefixedOffset⟩ := hblames
        exact ⟨hoffset.trans hprefixedOffset, Or.inr ⟨hstatus, hprefixed⟩⟩
      · exact ⟨hblames.2, Or.inl hblames.1⟩

/-- **Tails over truncated mappings.** -/
theorem tail_truncation {directory : SerializedFileDirectory} {limits : TailLimits}
    {tail : SerializedFileMetadataTail} {ran : TailResult} {s' : σ} {n' : ℕ}
    (h : serializedFileMetadataTailCreate directory text text.length limits answers s n =
      .ok (tail, ran) s' n') :
    TruncationLaw text.length
      (fun m =>
        serializedFileMetadataTailCreate directory (text.take m) text.length limits answers s n)
      Returned TailIncomplete := by
  -- again the mapping alone is what a truncation takes away
  obtain ⟨hsize, plan, hplan, hroom, rfl, rfl, hs, hn⟩ := tailCreate_ok h
  rw [hs, hn] at h
  have hother : ∀ m k,
      plan.Short limits directory.view.remainingMetadata.offset m (answers n) k →
        k = .scan .mapping := by
    intro m k hk
    cases k with
    | prefixed k => exact absurd hk id
    | scan k =>
        cases k with
        | mapping => rfl
        | bytes => exact absurd hk (hroom (.scan .bytes))
        | work => exact absurd hk (hroom (.scan .work))
        | nodes => exact absurd hk (hroom (.scan .nodes))
        | strings => exact absurd hk (hroom (.scan .strings))
        | words => exact absurd hk (hroom (.scan .words))
        | terminated => exact absurd hk (hroom (.scan .terminated))
        | rows table => exact absurd hk (hroom (.scan (.rows table)))
    | retained => exact absurd hk (hroom .retained)
    | storage => exact absurd hk (hroom .storage)
  refine TruncationLaw.of_extent (directory.view.remainingMetadata.offset + plan.cost.bytes)
    (fun m hm hle => ?_) fun m hm hlt => ?_
  · rw [take_all, h]
    have hlength := length_take_le hm
    rcases tailCreate_planned directory limits answers s n (List.take_prefix m text) (by omega)
      hsize hplan with ⟨-, hok⟩ | ⟨e, state, made, k, -, -, -, hk⟩
    · exact hok
    · rw [hlength] at hk
      obtain rfl := hother m k hk
      exact absurd hle (Nat.not_le.mpr hk)
  · have hlength := length_take_le hm
    rcases tailCreate_planned directory limits answers s n (List.take_prefix m text) (by omega)
      hsize hplan with ⟨hroom', -⟩ | ⟨e, state, made, k, herr, -, hblames, hk⟩
    · rw [hlength] at hroom'
      exact absurd hlt (hroom' (.scan .mapping))
    · rw [hlength] at hk hblames
      rw [herr]
      obtain rfl := hother m k hk
      exact ⟨⟨_, _, _, rfl, hblames.2, hblames.1⟩, fun ⟨_, _, _, hok⟩ => by cases hok⟩

/-- **A short mapping is never a corrupt file.** -/
theorem truncated_mapping {prefixLimits : PrefixLimits} {directoryLimits : DirectoryLimits}
    {tailLimits : TailLimits} {prefixRan : PrefixResult} {view : PrefixView}
    {directory : SerializedFileDirectory} {directoryRan : DirectoryResult}
    {tail : SerializedFileMetadataTail} {tailRan : TailResult} {s₁ s₂ t : σ} {n₁ n₂ m : ℕ}
    (hquery : serializedFilePrefixQuery text text.length prefixLimits = (prefixRan, some view))
    (hdirectory : serializedFileDirectoryCreate text text.length engineVersion directoryLimits
      answers s n = .ok (directory, directoryRan) s₁ n₁)
    (htail : serializedFileMetadataTailCreate directory text text.length tailLimits answers t m =
      .ok (tail, tailRan) s₂ n₂) :
    TruncationLaw text.length
      (fun mappedSize =>
        serializedFilePrefixQuery (text.take mappedSize) text.length prefixLimits)
      (fun run => run.2.isSome = true) PrefixIncomplete ∧
    TruncationLaw text.length
      (fun mappedSize => serializedFileDirectoryCreate (text.take mappedSize) text.length
        engineVersion directoryLimits answers s n)
      Returned DirectoryIncomplete ∧
    TruncationLaw text.length
      (fun mappedSize => serializedFileMetadataTailCreate directory (text.take mappedSize)
        text.length tailLimits answers t m)
      Returned TailIncomplete :=
  ⟨prefix_truncation hquery, directory_truncation hdirectory, tail_truncation htail⟩

end

/-! ## A file with a row in most tables -/

/-- Little-endian metadata: two types, an object behind padding, a script and an external. -/
def mixedMetadata : Text :=
  ascii "2021.3.35f1" ++ [0] ++ storeLe32 19 ++ [0] ++
    storeLe32 2 ++ storeLe32 4 ++ [0] ++ storeLe16 0xffff ++ List.replicate 16 7 ++
    storeLe32 49 ++ [0] ++ storeLe16 0xffff ++ List.replicate 16 8 ++
    storeLe32 1 ++ [0] ++
    storeLe64 1 ++ storeLe64 0 ++ storeLe32 2 ++ storeLe32 1 ++
    storeLe32 1 ++ storeLe32 0 ++ storeLe64 9 ++
    storeLe32 1 ++ [0] ++ List.replicate 16 5 ++ storeLe32 3 ++ ascii "a" ++ [0] ++
    storeLe32 0 ++ [0]

def mixedText : Text :=
  let dataOffset := 48 + mixedMetadata.length
  List.replicate 8 0 ++ storeBe32 22 ++ List.replicate 4 0 ++
    storeBe64 mixedMetadata.length.toUInt64 ++ storeBe64 (dataOffset + 2).toUInt64 ++
    storeBe64 dataOffset.toUInt64 ++ List.replicate 8 0 ++ mixedMetadata ++ [1, 2]

def mixedDirectoryLimits : DirectoryLimits := ⟨64, 8, 8, 8, 8, 8, 512, 4096, 0, 8192⟩

def mixedTailLimits : TailLimits := ⟨8, 8, 8, 8, 8, 64, 512, 4096, 0, 8192⟩

/-- The runs over the whole file, when all of them succeed. -/
def mixedRuns : Option (SerializedFileDirectory × SerializedFileMetadataTail) :=
  match serializedFilePrefixQuery mixedText mixedText.length ⟨64, 4096⟩,
    serializedFileDirectoryCreate mixedText mixedText.length .engine2021_3_35f1
      mixedDirectoryLimits Call.granted () 0 with
  | (_, some _), .ok (directory, _) _ _ =>
      match serializedFileMetadataTailCreate directory mixedText mixedText.length
        mixedTailLimits Call.granted () 0 with
      | .ok (tail, _) _ _ => some (directory, tail)
      | .error _ _ _ => none
  | _, _ => none

theorem mixedRuns_isSome : mixedRuns.isSome = true := by decide +kernel

theorem mixedRuns_eq_some {directory : SerializedFileDirectory} {tail : SerializedFileMetadataTail}
    (h : mixedRuns = some (directory, tail)) :
    ∃ prefixRan view directoryRan made tailRan made',
      serializedFilePrefixQuery mixedText mixedText.length ⟨64, 4096⟩ = (prefixRan, some view) ∧
      serializedFileDirectoryCreate mixedText mixedText.length .engine2021_3_35f1
        mixedDirectoryLimits Call.granted () 0 = .ok (directory, directoryRan) () made ∧
      serializedFileMetadataTailCreate directory mixedText mixedText.length mixedTailLimits
        Call.granted () 0 = .ok (tail, tailRan) () made' := by
  unfold mixedRuns at h
  split at h
  · rename_i prefixRan view found directoryRan s₁ made hquery hdirectory
    split at h
    · rename_i last tailRan s₂ made' htail
      cases h
      exact ⟨_, _, _, made, _, made', hquery, hdirectory, htail⟩
    · cases h
  · cases h

theorem truncated_mapping_mixed :
    ∃ directory tail, mixedRuns = some (directory, tail) ∧
      TruncationLaw mixedText.length
        (fun mappedSize =>
          serializedFilePrefixQuery (mixedText.take mappedSize) mixedText.length ⟨64, 4096⟩)
        (fun run => run.2.isSome = true) PrefixIncomplete ∧
      TruncationLaw mixedText.length
        (fun mappedSize => serializedFileDirectoryCreate (mixedText.take mappedSize)
          mixedText.length .engine2021_3_35f1 mixedDirectoryLimits Call.granted () 0)
        Returned DirectoryIncomplete ∧
      TruncationLaw mixedText.length
        (fun mappedSize => serializedFileMetadataTailCreate directory (mixedText.take mappedSize)
          mixedText.length mixedTailLimits Call.granted () 0)
        Returned TailIncomplete := by
  obtain ⟨⟨directory, tail⟩, hruns⟩ := Option.isSome_iff_exists.mp mixedRuns_isSome
  obtain ⟨_, _, _, _, _, _, hquery, hdirectory, htail⟩ := mixedRuns_eq_some hruns
  exact ⟨directory, tail, hruns, truncated_mapping hquery hdirectory htail⟩

end UnityCommon.Metadata
