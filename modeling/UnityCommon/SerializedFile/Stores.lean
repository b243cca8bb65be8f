import UnityCommon.SerializedFile.DirectoryOwner
import UnityCommon.SerializedFile.TailOwner
import UnityCommon.SerializedFile.ReferenceIndexOwner

/-!
# What a second pass stores

A row is stored as soon as its round is done, so that a pass that fails has
stored some. These are seen here beside the passes, which return all their rows
or none.
-/

namespace Call

variable {ε σ α β : Type}

/-- The rounds of a loop that are done when it ends. -/
def finished (f : ℕ → Call ε σ α) : ℕ → ℕ → (ℕ → Bool) → σ → ℕ → List α
  | _, 0, _, _, _ => []
  | start, count + 1, answers, s, n =>
      match f start answers s n with
      | .ok a s' n' => a :: finished f (start + 1) count answers s' n'
      | .error _ _ _ => []

/-- What is seen behind a step, when it gets there. -/
def beyond (x : Call ε σ α) (g : α → (ℕ → Bool) → σ → ℕ → List β) :
    (ℕ → Bool) → σ → ℕ → List β := fun answers s n =>
  match x answers s n with
  | .ok a s' n' => g a answers s' n'
  | .error _ _ _ => []

theorem finished_length_le (f : ℕ → Call ε σ α) (start count : ℕ) (answers : ℕ → Bool) (s : σ)
    (n : ℕ) : (finished f start count answers s n).length ≤ count := by
  induction count generalizing start s n with
  | zero => exact Nat.le_refl _
  | succ count ih =>
      rw [finished]
      cases f start answers s n with
      | ok a s' n' => exact Nat.succ_le_succ (ih _ _ _)
      | error => exact Nat.zero_le _

/-- Each stands at its ordinal. -/
theorem getElem?_finished {f : ℕ → Call ε σ α} {start count i : ℕ} {answers : ℕ → Bool} {s : σ}
    {n : ℕ} {a : α} (h : (finished f start count answers s n)[i]? = some a) :
    ∃ s₁ n₁ s₂ n₂, f (start + i) answers s₁ n₁ = .ok a s₂ n₂ := by
  induction count generalizing start s n i with
  | zero => cases h
  | succ count ih =>
      rw [finished] at h
      cases hround : f start answers s n with
      | error e s' n' =>
          rw [hround] at h
          cases h
      | ok b s' n' =>
          rw [hround] at h
          cases i with
          | zero =>
              obtain rfl : b = a := Option.some.inj h
              exact ⟨s, n, s', n', hround⟩
          | succ i =>
              obtain ⟨s₁, n₁, s₂, n₂, hok⟩ := ih h
              rw [Nat.add_right_comm] at hok
              exact ⟨s₁, n₁, s₂, n₂, hok⟩

/-- A loop that gets through has done all of them. -/
theorem finished_of_ok {f : ℕ → Call ε σ α} {start count : ℕ} {answers : ℕ → Bool} {s s' : σ}
    {n n' : ℕ} {as : List α} (h : collect f start count answers s n = .ok as s' n') :
    finished f start count answers s n = as := by
  induction count generalizing start s n as with
  | zero =>
      obtain ⟨rfl, -, -⟩ := pure_eq_ok.mp h
      rfl
  | succ count ih =>
      obtain ⟨a, s₁, n₁, ha, h₁⟩ := bind_eq_ok.mp h
      obtain ⟨rest, s₂, n₂, hrest, hp⟩ := bind_eq_ok.mp h₁
      obtain ⟨rfl, rfl, rfl⟩ := pure_eq_ok.mp hp
      rw [finished, ha]
      exact congrArg (a :: ·) (ih hrest)

theorem beyond_of_ok {x : Call ε σ α} {g : α → (ℕ → Bool) → σ → ℕ → List β} {answers : ℕ → Bool}
    {s s' : σ} {n n' : ℕ} {a : α} (h : x answers s n = .ok a s' n') :
    beyond x g answers s n = g a answers s' n' := by
  rw [beyond, h]

/-- A bound on what is seen behind a step. -/
theorem beyond_length_le {x : Call ε σ α} {g : α → (ℕ → Bool) → σ → ℕ → List β}
    {answers : ℕ → Bool} {s : σ} {n bound : ℕ}
    (h : ∀ a s' n', x answers s n = .ok a s' n' → (g a answers s' n').length ≤ bound) :
    (beyond x g answers s n).length ≤ bound := by
  unfold beyond
  cases hx : x answers s n with
  | ok a s' n' => exact h a s' n' hx
  | error => exact Nat.zero_le _

end Call

namespace UnityCommon.Metadata

/-! ## Directories -/

section Directory

variable (reader : MetadataReader) (limits : DirectoryLimits) (prefixView : PrefixView)
  (typeCapacity objectCapacity : Option ℕ)

def storedTypes : (ℕ → Bool) → ScanState → ℕ → List DirectoryTypeRow :=
  Call.beyond
    (takeDirectoryTableCount reader .typeCount .types limits.maxTypes typeCapacity)
    fun (_, typeCount) => Call.finished
      (scanDirectoryType reader limits (prefixView.typeTreeEnabledRaw != 0)) 0 typeCount

/-- The scanner up to its object rows: the counts of both tables. -/
def scanToObjects : Call DirectoryReject ScanState (ℕ × ℕ) := do
  let (_, typeCount) ←
    takeDirectoryTableCount reader .typeCount .types limits.maxTypes typeCapacity
  let _ ← Call.collect
    (scanDirectoryType reader limits (prefixView.typeTreeEnabledRaw != 0)) 0 typeCount
  let (_, objectCount) ←
    takeDirectoryTableCount reader .objectCount .objects limits.maxObjects objectCapacity
  let position := (← Call.current).position
  let _ ← takeDirectoryBytes reader .objectPadding none
    (if objectCount ≠ 0 then metadataPadding position else 0)
  return (typeCount, objectCount)

def storedObjects : (ℕ → Bool) → ScanState → ℕ → List DirectoryObjectRow :=
  Call.beyond (scanToObjects reader limits prefixView typeCapacity objectCapacity)
    fun (typeCount, objectCount) => Call.finished
      (scanDirectoryObject reader limits prefixView.header typeCount) 0 objectCount

variable {reader limits prefixView typeCapacity objectCapacity}
variable {answers : ℕ → Bool} {state state' : ScanState} {n n' : ℕ}

/-- A count that is returned is the planned one. -/
theorem takeDirectoryTableCount_planned {field : DirectoryField} {limit : DirectoryLimit}
    {maximum planned : ℕ} {span : PrefixSpan} {count : ℕ}
    (h : takeDirectoryTableCount reader field limit maximum (some planned) answers state n =
      .ok (span, count) state' n') : planned = count := by
  obtain ⟨⟨source, word⟩, s₁, n₁, -, h₁⟩ := Call.bind_eq_ok.mp h
  obtain ⟨-, h₂⟩ := Call.require_bind_eq_ok.mp h₁
  obtain ⟨hplanned, h₃⟩ := Call.require_bind_eq_ok.mp h₂
  obtain ⟨hcount, -, -⟩ := Call.pure_eq_ok.mp h₃
  cases hcount
  simpa using hplanned

theorem storedTypes_length_le {planned : ℕ} (answers : ℕ → Bool) (state : ScanState) (n : ℕ) :
    (storedTypes reader limits prefixView (some planned) answers state n).length ≤ planned := by
  refine Call.beyond_length_le fun ⟨_, count⟩ s' n' h => ?_
  obtain rfl := takeDirectoryTableCount_planned h
  exact Call.finished_length_le _ _ _ _ _ _

theorem storedObjects_length_le {planned : ℕ} (answers : ℕ → Bool) (state : ScanState) (n : ℕ) :
    (storedObjects reader limits prefixView typeCapacity (some planned) answers state n).length ≤
      planned := by
  refine Call.beyond_length_le fun ⟨typeCount, objectCount⟩ s' n' h => ?_
  obtain ⟨⟨_, types⟩, s₁, n₁, -, h₁⟩ := Call.bind_eq_ok.mp h
  obtain ⟨_, s₂, n₂, -, h₂⟩ := Call.bind_eq_ok.mp h₁
  obtain ⟨⟨_, objects⟩, s₃, n₃, hobjects, h₃⟩ := Call.bind_eq_ok.mp h₂
  obtain ⟨_, s₄, n₄, -, h₄⟩ := Call.bind_eq_ok.mp (Call.current_bind_eq_ok.mp h₃)
  obtain ⟨hcounts, -, -⟩ := Call.pure_eq_ok.mp h₄
  cases hcounts
  obtain rfl := takeDirectoryTableCount_planned hobjects
  exact Call.finished_length_le _ _ _ _ _ _

/-- **A pass that gets through has stored the rows that it returns.** -/
theorem scanDirectory_stored {engineVersion : DirectoryEngineVersion}
    {directory : SerializedFileDirectory}
    (h : scanDirectory reader limits engineVersion prefixView typeCapacity objectCapacity answers
      state n = .ok directory state' n') :
    storedTypes reader limits prefixView typeCapacity answers state n = directory.types ∧
      storedObjects reader limits prefixView typeCapacity objectCapacity answers state n =
        directory.objects := by
  obtain ⟨⟨_, typeCount⟩, s₁, n₁, htypes, h₁⟩ := Call.bind_eq_ok.mp h
  obtain ⟨types, s₂, n₂, hrows, h₂⟩ := Call.bind_eq_ok.mp (Call.current_bind_eq_ok.mp h₁)
  obtain ⟨⟨_, objectCount⟩, s₃, n₃, hobjects, h₃⟩ :=
    Call.bind_eq_ok.mp (Call.current_bind_eq_ok.mp h₂)
  obtain ⟨_, s₄, n₄, hpadding, h₄⟩ := Call.bind_eq_ok.mp (Call.current_bind_eq_ok.mp h₃)
  obtain ⟨objects, s₅, n₅, hrows', h₅⟩ := Call.bind_eq_ok.mp (Call.current_bind_eq_ok.mp h₄)
  have h₆ := Call.current_bind_eq_ok.mp h₅
  obtain ⟨hdirectory, -, -⟩ := Call.pure_eq_ok.mp h₆
  subst hdirectory
  have hcounts : scanToObjects reader limits prefixView typeCapacity objectCapacity answers state n
      = .ok (typeCount, objectCount) s₄ n₄ :=
    Call.bind_eq_ok.mpr ⟨_, _, _, htypes, Call.bind_eq_ok.mpr ⟨_, _, _, hrows,
      Call.bind_eq_ok.mpr ⟨_, _, _, hobjects, Call.current_bind_eq_ok.mpr
        (Call.bind_eq_ok.mpr ⟨_, _, _, hpadding, rfl⟩)⟩⟩⟩
  refine ⟨?_, ?_⟩
  · exact (Call.beyond_of_ok htypes).trans (Call.finished_of_ok hrows)
  · exact (Call.beyond_of_ok hcounts).trans (Call.finished_of_ok hrows')

end Directory

/-! ## Tails -/

section Tail

variable (reader : MetadataReader) (limits : TailLimits) (hasTree : Bool)
  (capacities : Option TailCapacities)

/-- A table's count and its rows, which are stored as they are scanned. -/
def scanToExternals : Call TailReject ScanState ℕ := do
  let (_, scriptCount) ← takeTailTableCount reader .scriptCount .scripts limits.maxScripts
    (capacities.map (·.scripts))
  let _ ← Call.collect (scanScript reader limits) 0 scriptCount
  let (_, externalCount) ← takeTailTableCount reader .externalCount .externals
    limits.maxExternals (capacities.map (·.externals))
  return externalCount

def scanToReferenceTypes : Call TailReject ScanState ℕ := do
  let externalCount ← scanToExternals reader limits capacities
  let _ ← Call.collect (scanExternal reader limits) 0 externalCount
  let (_, referenceTypeCount) ← takeTailTableCount reader .referenceTypeCount .referenceTypes
    limits.maxReferenceTypes (capacities.map (·.referenceTypes))
  return referenceTypeCount

def storedScripts : (ℕ → Bool) → ScanState → ℕ → List TailScriptRow :=
  Call.beyond
    (takeTailTableCount reader .scriptCount .scripts limits.maxScripts
      (capacities.map (·.scripts)))
    fun (_, scriptCount) => Call.finished (scanScript reader limits) 0 scriptCount

def storedExternals : (ℕ → Bool) → ScanState → ℕ → List TailExternalRow :=
  Call.beyond (scanToExternals reader limits capacities)
    (Call.finished (scanExternal reader limits) 0)

def storedReferenceTypes : (ℕ → Bool) → ScanState → ℕ → List TailReferenceTypeRow :=
  Call.beyond (scanToReferenceTypes reader limits capacities)
    (Call.finished (scanReferenceType reader limits hasTree) 0)

variable {reader limits hasTree capacities}
variable {answers : ℕ → Bool} {state state' : ScanState} {n n' : ℕ}

theorem takeTailTableCount_planned {field : TailField} {limit : TailLimit}
    {maximum planned : ℕ} {span : PrefixSpan} {count : ℕ}
    (h : takeTailTableCount reader field limit maximum (some planned) answers state n =
      .ok (span, count) state' n') : planned = count := by
  obtain ⟨⟨source, word⟩, s₁, n₁, -, h₁⟩ := Call.bind_eq_ok.mp h
  obtain ⟨-, h₂⟩ := Call.require_bind_eq_ok.mp h₁
  obtain ⟨hplanned, h₃⟩ := Call.require_bind_eq_ok.mp h₂
  obtain ⟨hcount, -, -⟩ := Call.pure_eq_ok.mp h₃
  cases hcount
  simpa using hplanned

theorem storedScripts_length_le (planned : TailCapacities) (answers : ℕ → Bool)
    (state : ScanState) (n : ℕ) :
    (storedScripts reader limits (some planned) answers state n).length ≤ planned.scripts := by
  refine Call.beyond_length_le fun ⟨_, count⟩ s' n' h => ?_
  have hplanned : planned.scripts = count := takeTailTableCount_planned h
  rw [hplanned]
  exact Call.finished_length_le _ _ _ _ _ _

theorem scanToExternals_planned {planned : TailCapacities} {count : ℕ}
    (h : scanToExternals reader limits (some planned) answers state n = .ok count state' n') :
    planned.externals = count := by
  obtain ⟨⟨_, scripts⟩, s₁, n₁, -, h₁⟩ := Call.bind_eq_ok.mp h
  obtain ⟨_, s₂, n₂, -, h₂⟩ := Call.bind_eq_ok.mp h₁
  obtain ⟨⟨_, externals⟩, s₃, n₃, hexternals, h₃⟩ := Call.bind_eq_ok.mp h₂
  obtain ⟨rfl, -, -⟩ := Call.pure_eq_ok.mp h₃
  exact takeTailTableCount_planned hexternals

theorem storedExternals_length_le (planned : TailCapacities) (answers : ℕ → Bool)
    (state : ScanState) (n : ℕ) :
    (storedExternals reader limits (some planned) answers state n).length ≤
      planned.externals := by
  refine Call.beyond_length_le fun count s' n' h => ?_
  rw [scanToExternals_planned h]
  exact Call.finished_length_le _ _ _ _ _ _

theorem storedReferenceTypes_length_le (planned : TailCapacities) (answers : ℕ → Bool)
    (state : ScanState) (n : ℕ) :
    (storedReferenceTypes reader limits hasTree (some planned) answers state n).length ≤
      planned.referenceTypes := by
  refine Call.beyond_length_le fun count s' n' h => ?_
  obtain ⟨externals, s₁, n₁, -, h₁⟩ := Call.bind_eq_ok.mp h
  obtain ⟨_, s₂, n₂, -, h₂⟩ := Call.bind_eq_ok.mp h₁
  obtain ⟨⟨_, references⟩, s₃, n₃, hreferences, h₃⟩ := Call.bind_eq_ok.mp h₂
  obtain ⟨rfl, -, -⟩ := Call.pure_eq_ok.mp h₃
  have hplanned : planned.referenceTypes = references := takeTailTableCount_planned hreferences
  rw [hplanned]
  exact Call.finished_length_le _ _ _ _ _ _

theorem consumedSpan_bind_eq_ok {α : Type} {start : ℕ}
    {f : PrefixSpan → Call TailReject ScanState α} {a : α} :
    (consumedSpan start >>= f) answers state n = .ok a state' n' ↔
      f ⟨start, state.position - start⟩ answers state n = .ok a state' n' := Iff.rfl

/-- **A pass that gets through has stored the rows that it returns.** -/
theorem scanTail_stored {directory : DirectoryView} {tail : SerializedFileMetadataTail}
    (h : scanTail reader limits directory capacities answers state n = .ok tail state' n') :
    storedScripts reader limits capacities answers state n = tail.scripts ∧
      storedExternals reader limits capacities answers state n = tail.externals ∧
      storedReferenceTypes reader limits (directory.prefixView.typeTreeEnabledRaw != 0) capacities
        answers state n = tail.referenceTypes := by
  have h₀ := Call.current_bind_eq_ok.mp h
  obtain ⟨⟨_, scriptCount⟩, s₁, n₁, hscripts, h₁⟩ := Call.bind_eq_ok.mp h₀
  have h₁' := Call.current_bind_eq_ok.mp h₁
  obtain ⟨scripts, s₂, n₂, hrows, h₂⟩ := Call.bind_eq_ok.mp h₁'
  have h₂' := consumedSpan_bind_eq_ok.mp h₂
  obtain ⟨⟨_, externalCount⟩, s₃, n₃, hexternals, h₃⟩ := Call.bind_eq_ok.mp h₂'
  have h₃' := Call.current_bind_eq_ok.mp h₃
  obtain ⟨externals, s₄, n₄, hrows', h₄⟩ := Call.bind_eq_ok.mp h₃'
  have h₄' := consumedSpan_bind_eq_ok.mp h₄
  obtain ⟨⟨_, referenceTypeCount⟩, s₅, n₅, hreferences, h₅⟩ := Call.bind_eq_ok.mp h₄'
  have h₅' := Call.current_bind_eq_ok.mp h₅
  obtain ⟨referenceTypes, s₆, n₆, hrows'', h₆⟩ := Call.bind_eq_ok.mp h₅'
  have h₆' := consumedSpan_bind_eq_ok.mp h₆
  obtain ⟨_, s₇, n₇, -, h₇⟩ := Call.bind_eq_ok.mp h₆'
  have h₇' := Call.current_bind_eq_ok.mp h₇
  obtain ⟨-, h₈⟩ := Call.require_bind_eq_ok.mp h₇'
  have h₈' := consumedSpan_bind_eq_ok.mp h₈
  obtain ⟨htail, -, -⟩ := Call.pure_eq_ok.mp h₈'
  subst htail
  have hto : scanToExternals reader limits capacities answers state n = .ok externalCount s₃ n₃ :=
    Call.bind_eq_ok.mpr ⟨_, _, _, hscripts, Call.bind_eq_ok.mpr ⟨_, _, _, hrows,
      Call.bind_eq_ok.mpr ⟨_, _, _, hexternals, rfl⟩⟩⟩
  have hto' : scanToReferenceTypes reader limits capacities answers state n =
      .ok referenceTypeCount s₅ n₅ :=
    Call.bind_eq_ok.mpr ⟨_, _, _, hto, Call.bind_eq_ok.mpr ⟨_, _, _, hrows',
      Call.bind_eq_ok.mpr ⟨_, _, _, hreferences, rfl⟩⟩⟩
  refine ⟨?_, ?_, ?_⟩
  · exact (Call.beyond_of_ok hscripts).trans (Call.finished_of_ok hrows)
  · exact (Call.beyond_of_ok hto).trans (Call.finished_of_ok hrows')
  · exact (Call.beyond_of_ok hto').trans (Call.finished_of_ok hrows'')

end Tail

end UnityCommon.Metadata
