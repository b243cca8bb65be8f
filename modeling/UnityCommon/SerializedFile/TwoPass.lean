import UnityCommon.SerializedFile.PrefixScan
import UnityCommon.SerializedFile.Scan
import UnityCommon.Lib.Needs

/-!
# Construction in two passes

A first pass counts, the storage is planned, charged and requested, and a second
pass over the same bytes fills it. Both owners are constructed so; what they
scan is a parameter here.
-/

namespace UnityCommon.Metadata

/-- What a construction can be short of. -/
inductive OwnerResource where
  | prefixed (k : PrefixResource)
  | scan (k : Resource)
  | retained
  | storage
deriving DecidableEq, Repr

/-- A shortage of the scanner alone. -/
def scanShort (Short : Resource → Prop) : OwnerResource → Prop
  | .scan k => Short k
  | _ => False

/-- The work does not cover a total. -/
def workShort (maxWork total : ℕ) (k : OwnerResource) : Prop := k = .scan .work ∧ maxWork < total

theorem room_workShort {maxWork total : ℕ} :
    (∀ k, ¬ workShort maxWork total k) ↔ total ≤ maxWork := by
  simp [workShort]

attribute [ext] ScanState

namespace ScanState

/-- No more work than the limit. -/
def Within (maxWork : ℕ) (state : ScanState) : Prop := state.workUsed ≤ maxWork

def charged (state : ScanState) (amount : ℕ) : ScanState :=
  { state with workUsed := state.workUsed + amount }

@[simp] theorem charged_workUsed (state : ScanState) (amount : ℕ) :
    (state.charged amount).workUsed = state.workUsed + amount := rfl

theorem charged_charged (state : ScanState) (amount more : ℕ) :
    (state.charged amount).charged more = state.charged (amount + more) := by
  simp [charged, Nat.add_assoc]

/-- Nothing is counted yet. -/
structure Fresh (state : ScanState) (start : ℕ) : Prop where
  position : state.position = start
  nodes : state.nodeRecords = 0
  strings : state.stringBytes = 0
  words : state.dependencyWords = 0
  terminated : state.terminatedBytes = 0

theorem fresh_rewind (state : ScanState) (start : ℕ) : (state.rewind start).Fresh start :=
  ⟨rfl, rfl, rfl, rfl, rfl⟩

end ScanState

/-- The two passes, apart from what is scanned. -/
def construct {ε α κ : Type} (scan : Option κ → Call ε ScanState α)
    (planStorage : α → Call ε ScanState ℕ) (charge : ℕ → Call ε ScanState Unit) (denied : ε)
    (start : ℕ) (capacities : α → κ) (retain : ℕ → α → α) : Call ε ScanState α := do
  Call.modify fun state => state.rewind start
  let planned ← scan none
  let total ← planStorage planned
  charge total
  Call.request denied
  Call.modify fun state => { state.rewind start with peakRetainedBytes := total }
  let owner ← scan (some (capacities planned))
  charge 1
  return retain total owner

/-- Up to the storage. -/
def prepare {ε α κ : Type} (scan : Option κ → Call ε ScanState α)
    (planStorage : α → Call ε ScanState ℕ) (charge : ℕ → Call ε ScanState Unit) (denied : ε)
    (start : ℕ) : Call ε ScanState (α × ℕ) := do
  Call.modify fun state => state.rewind start
  let planned ← scan none
  let total ← planStorage planned
  charge total
  Call.request denied
  Call.modify fun state => { state.rewind start with peakRetainedBytes := total }
  return (planned, total)

/-- The second pass. -/
def replay {ε α κ : Type} (scan : Option κ → Call ε ScanState α)
    (charge : ℕ → Call ε ScanState Unit) (capacities : α → κ) (retain : ℕ → α → α)
    (planned : α) (total : ℕ) : Call ε ScanState α := do
  let owner ← scan (some (capacities planned))
  charge 1
  return retain total owner

theorem construct_eq {ε α κ : Type} (scan : Option κ → Call ε ScanState α)
    (planStorage : α → Call ε ScanState ℕ) (charge : ℕ → Call ε ScanState Unit) (denied : ε)
    (start : ℕ) (capacities : α → κ) (retain : ℕ → α → α) :
    construct scan planStorage charge denied start capacities retain =
      (prepare scan planStorage charge denied start >>= fun planned =>
        replay scan charge capacities retain planned.1 planned.2) := by
  simp only [construct, prepare, replay, Call.bind_assoc, Call.pure_bind]

/-- The state that the second pass begins in. -/
def prepared (used start total : ℕ) (d : ScanCost) : ScanState where
  position := start
  workUsed := used + d.work + 1 + total
  nodeRecords := 0
  stringBytes := 0
  dependencyWords := 0
  terminatedBytes := 0
  requiredRetainedBytes := total
  peakRetainedBytes := total

theorem fresh_prepared (used start total : ℕ) (d : ScanCost) :
    (prepared used start total d).Fresh start := ⟨rfl, rfl, rfl, rfl, rfl⟩

/-- What is missing before the second pass. -/
def prepareShort (budget : ScanBudget) (maxRetained : ℕ) (granted : Bool)
    (used start total : ℕ) (d : ScanCost) : OwnerResource → Prop
  | .scan .work => budget.maxWork < used + d.work + 1 + total
  | .scan k => budget.Short k { ScanState.init with position := start } d
  | .retained => maxRetained < total
  | .storage => granted = false
  | .prefixed _ => False

/-- The state that a construction ends in, from one that has used some work. -/
def constructed (used start total : ℕ) (d : ScanCost) : ScanState where
  position := start + d.bytes
  workUsed := used + 2 * d.work + total + 2
  nodeRecords := d.nodes
  stringBytes := d.strings
  dependencyWords := d.words
  terminatedBytes := d.terminated
  requiredRetainedBytes := total
  peakRetainedBytes := total

/-- What a construction is short of. -/
def constructShort (budget : ScanBudget) (maxRetained : ℕ) (granted : Bool)
    (used start total : ℕ) (d : ScanCost) : OwnerResource → Prop
  | .scan .work => budget.maxWork < used + 2 * d.work + total + 2
  | .scan k => budget.Short k { ScanState.init with position := start } d
  | .retained => maxRetained < total
  | .storage => granted = false
  | .prefixed _ => False

section

variable {ε α κ : Type} {scan : Option κ → Call ε ScanState α}
  {planStorage : α → Call ε ScanState ℕ} {charge : ℕ → Call ε ScanState Unit} {denied : ε}
  {capacities : α → κ} {retain : ℕ → α → α} {Blames : ε → OwnerResource → Prop}
  {budget : ScanBudget} {start maxRetained total : ℕ} {d : ScanCost} {a : α} {state : ScanState}
  {answers : ℕ → Bool} {n : ℕ}

/-- A fresh state is sound when the scan has room at its start. -/
theorem ScanState.Fresh.sound (h : state.Fresh start) (horigin : budget.origin ≤ start)
    (hmapped : start ≤ budget.mappedSize) (hbytes : start ≤ budget.origin + budget.maxBytes)
    (hwork : state.Within budget.maxWork) : budget.Sound state := by
  obtain ⟨rfl, hnodes, hstrings, hwords, hterminated⟩ := h
  refine ⟨horigin, fun k => ?_⟩
  have hwork' : state.workUsed ≤ budget.maxWork := hwork
  cases k <;> simp only [ScanBudget.Short, ScanCost.zero_bytes, ScanCost.zero_work,
    ScanCost.zero_nodes, ScanCost.zero_strings, ScanCost.zero_words, ScanCost.zero_terminated,
    ScanCost.zero_rows] <;> omega

/-- The counters of a fresh state stand where any pass starts them. -/
theorem ScanState.Fresh.short_iff (h : state.Fresh start) {k : Resource} (hk : k ≠ .work) :
    budget.Short k state d ↔ budget.Short k { ScanState.init with position := start } d := by
  obtain ⟨rfl, hnodes, hstrings, hwords, hterminated⟩ := h
  cases k <;> simp_all [ScanBudget.Short, ScanState.init]

/-- The first pass, and the storage for what it counts. -/
theorem needs_prepare (budget : ScanBudget) (maxRetained total : ℕ) (a : α) (d : ScanCost)
    (hcharge : ∀ (s : ScanState) (amount m : ℕ), s.Within budget.maxWork →
      (charge amount).Needs (ScanState.Within budget.maxWork) Blames answers s m
        (workShort budget.maxWork (s.workUsed + amount)) () (s.charged amount) m)
    (hscan : ∀ (s : ScanState) (m : ℕ), s.Fresh start → budget.Sound s →
      (scan none).Needs (ScanState.Within budget.maxWork) Blames answers s m
        (scanShort fun k => budget.Short k s d) a (s.advance d) m)
    (hplan : ∀ (s : ScanState) (m : ℕ), s.Within budget.maxWork →
      (planStorage a).Needs (ScanState.Within budget.maxWork) Blames answers s m
        (fun k => workShort budget.maxWork (s.workUsed + 1) k ∨
          (k = .retained ∧ maxRetained < total)) total
        { s.charged 1 with requiredRetainedBytes := total } m)
    (hdenied : Blames denied .storage) (horigin : budget.origin ≤ start)
    (hmapped : start ≤ budget.mappedSize) (hbytes : start ≤ budget.origin + budget.maxBytes)
    (hwork : state.Within budget.maxWork) :
    (prepare scan planStorage charge denied start).Needs (ScanState.Within budget.maxWork) Blames
      answers state n
      (prepareShort budget maxRetained (answers n) state.workUsed start total d) (a, total)
      (prepared state.workUsed start total d) (n + 1) := by
  have hrequest : ∀ (s : ScanState) (m : ℕ), s.Within budget.maxWork →
      (Call.request denied).Needs (ScanState.Within budget.maxWork) Blames answers s m
        (fun k => k = .storage ∧ answers m = false) () s (m + 1) := by
    intro s m hs
    refine Call.needs_request hs ?_ fun hdeny => ⟨.storage, hdenied, rfl, hdeny⟩
    simp
  -- the states after the first pass, the planning and the charge for the storage
  let counted := (state.rewind start).advance d
  let plannedState := { counted.charged 1 with requiredRetainedBytes := total }
  let stored := plannedState.charged total
  have hfinal : prepared state.workUsed start total d =
      { stored.rewind start with peakRetainedBytes := total } := rfl
  have hfresh := ScanState.fresh_rewind state start
  have hs₁ : (state.rewind start).Within budget.maxWork := hwork
  rw [hfinal]
  refine ((Call.needs_modify _).bind fun _ =>
    (hscan _ n hfresh (hfresh.sound horigin hmapped hbytes hs₁)).bind fun h₂ =>
    (hplan counted n ?_).bind fun h₃ => (hcharge plannedState total n ?_).bind fun h₄ =>
    (hrequest stored n ?_).bind fun _ => (Call.needs_modify _).bind fun _ =>
    Call.needs_pure (a, total)).short_congr fun k => ?_
  · exact Nat.le_of_not_lt (h₂ (.scan .work))
  · exact room_workShort.mp fun k hk => h₃ k (Or.inl hk)
  · exact room_workShort.mp h₄
  · cases k with
    | scan k =>
        cases k <;> simp [prepareShort, scanShort, workShort, ScanBudget.Short, plannedState,
          counted, ScanState.rewind, ScanState.advance, ScanState.init]
        all_goals omega
    | _ => simp [prepareShort, scanShort, workShort]

/-- **The second pass needs work alone** where the first had room. -/
theorem needs_replay (budget : ScanBudget) (total : ℕ) (a : α) (d : ScanCost)
    (hcharge : ∀ (s : ScanState) (amount m : ℕ), s.Within budget.maxWork →
      (charge amount).Needs (ScanState.Within budget.maxWork) Blames answers s m
        (workShort budget.maxWork (s.workUsed + amount)) () (s.charged amount) m)
    (hscan : ∀ (s : ScanState) (m : ℕ), s.Fresh start → budget.Sound s →
      (scan (some (capacities a))).Needs (ScanState.Within budget.maxWork) Blames answers s m
        (scanShort fun k => budget.Short k s d) a (s.advance d) m)
    (horigin : budget.origin ≤ start) (hmapped : start ≤ budget.mappedSize)
    (hbytes : start ≤ budget.origin + budget.maxBytes)
    (hroom : ∀ k, k ≠ .work → ¬ budget.Short k { ScanState.init with position := start } d)
    (hfresh : state.Fresh start) (hwork : state.Within budget.maxWork) :
    (replay scan charge capacities retain a total).Needs (ScanState.Within budget.maxWork) Blames
      answers state n (workShort budget.maxWork (state.workUsed + d.work + 1)) (retain total a)
      ((state.advance d).charged 1) n := by
  refine ((hscan state n hfresh (hfresh.sound horigin hmapped hbytes hwork)).bind fun h₁ =>
    (hcharge (state.advance d) 1 n ?_).bind fun _ =>
    Call.needs_pure (retain total a)).short_congr fun k => ?_
  · exact Nat.le_of_not_lt (h₁ (.scan .work))
  · cases k with
    | scan k =>
        by_cases hk : k = .work
        · subst hk
          simp only [workShort, scanShort, ScanBudget.Short, ScanState.advance, true_and, or_false]
          omega
        · have hfits : ¬ budget.Short k state d := fun h => hroom k hk ((hfresh.short_iff hk).mp h)
          simp [workShort, scanShort, hk, hfits]
    | _ => simp [scanShort, workShort]

/-- **Two passes need what one needs**, with the work of both. -/
theorem needs_construct (budget : ScanBudget) (maxRetained total : ℕ) (a : α) (d : ScanCost)
    (hcharge : ∀ (s : ScanState) (amount m : ℕ), s.Within budget.maxWork →
      (charge amount).Needs (ScanState.Within budget.maxWork) Blames answers s m
        (workShort budget.maxWork (s.workUsed + amount)) () (s.charged amount) m)
    (hscan : ∀ (planned : Option κ) (s : ScanState) (m : ℕ),
      (planned = none ∨ planned = some (capacities a)) → s.Fresh start → budget.Sound s →
      (scan planned).Needs (ScanState.Within budget.maxWork) Blames answers s m
        (scanShort fun k => budget.Short k s d) a (s.advance d) m)
    (hplan : ∀ (s : ScanState) (m : ℕ), s.Within budget.maxWork →
      (planStorage a).Needs (ScanState.Within budget.maxWork) Blames answers s m
        (fun k => workShort budget.maxWork (s.workUsed + 1) k ∨
          (k = .retained ∧ maxRetained < total)) total
        { s.charged 1 with requiredRetainedBytes := total } m)
    (hdenied : Blames denied .storage) (horigin : budget.origin ≤ start)
    (hmapped : start ≤ budget.mappedSize) (hbytes : start ≤ budget.origin + budget.maxBytes)
    (hwork : state.Within budget.maxWork) :
    (construct scan planStorage charge denied start capacities retain).Needs
      (ScanState.Within budget.maxWork) Blames answers state n
      (constructShort budget maxRetained (answers n) state.workUsed start total d)
      (retain total a) (constructed state.workUsed start total d) (n + 1) := by
  have hfinal : constructed state.workUsed start total d =
      ((prepared state.workUsed start total d).advance d).charged 1 := by
    ext <;> simp [constructed, prepared, ScanState.advance, ScanState.charged]
    omega
  rw [construct_eq, hfinal]
  refine ((needs_prepare budget maxRetained total a d hcharge
    (fun s m => hscan none s m (Or.inl rfl)) hplan hdenied horigin hmapped hbytes hwork).bind
    fun hroom => needs_replay budget total a d hcharge
      (fun s m => hscan _ s m (Or.inr rfl)) horigin hmapped hbytes (fun k hk => ?_)
      (fresh_prepared _ _ _ _) (Nat.le_of_not_lt (hroom (.scan .work)))).short_congr fun k => ?_
  · have hfits := hroom (.scan k)
    cases k <;> first | exact absurd rfl hk | exact hfits
  · cases k with
    | scan k =>
        cases k <;> simp [constructShort, prepareShort, workShort, prepared]
        all_goals omega
    | _ => simp [constructShort, prepareShort, workShort]

/-- Nothing to scan, nothing to construct. -/
theorem stops_prepare {Sound : ScanState → Prop}
    (hscan : (scan none).Stops Sound answers (state.rewind start) n) :
    (prepare scan planStorage charge denied start).Stops Sound answers state n := by
  unfold prepare
  exact Call.Stops.bind_ok rfl hscan.bind

/-- Storage that cannot be planned. -/
theorem stops_prepare_storage {Sound : ScanState → Prop} {Short : OwnerResource → Prop}
    {s : ScanState}
    (hscan : (scan none).Needs Sound Blames answers (state.rewind start) n Short a s n)
    (hplan : (∀ k, ¬ Short k) → (planStorage a).Stops Sound answers s n) :
    (prepare scan planStorage charge denied start).Stops Sound answers state n := by
  unfold prepare
  exact Call.Stops.bind_ok rfl (hscan.stops_bind fun hroom => (hplan hroom).bind)

theorem stops_construct {Sound : ScanState → Prop}
    (h : (prepare scan planStorage charge denied start).Stops Sound answers state n) :
    (construct scan planStorage charge denied start capacities retain).Stops Sound answers state
      n := by
  rw [construct_eq]
  exact h.bind

/-- **A second pass fails for the work alone**, when the scanner finds the same
with the capacities that it found without them. -/
theorem replay_fails (budget : ScanBudget) (maxRetained : ℕ)
    (hcharge : ∀ (s : ScanState) (amount m : ℕ), s.Within budget.maxWork →
      (charge amount).Needs (ScanState.Within budget.maxWork) Blames answers s m
        (workShort budget.maxWork (s.workUsed + amount)) () (s.charged amount) m)
    (hscan : (∃ a d, ∀ (planned : Option κ) (s : ScanState) (m : ℕ),
        (planned = none ∨ planned = some (capacities a)) → s.Fresh start → budget.Sound s →
        (scan planned).Needs (ScanState.Within budget.maxWork) Blames answers s m
          (scanShort fun k => budget.Short k s d) a (s.advance d) m) ∨
      ∀ (s : ScanState) (m : ℕ), s.Fresh start → budget.Sound s →
        (scan none).Stops (ScanState.Within budget.maxWork) answers s m)
    (hplan : ∀ a : α,
      (∃ total, ∀ (s : ScanState) (m : ℕ), s.Within budget.maxWork →
        (planStorage a).Needs (ScanState.Within budget.maxWork) Blames answers s m
          (fun k => workShort budget.maxWork (s.workUsed + 1) k ∨
            (k = .retained ∧ maxRetained < total)) total
          { s.charged 1 with requiredRetainedBytes := total } m) ∨
      ∀ (s : ScanState) (m : ℕ), s.Within budget.maxWork →
        (planStorage a).Stops (ScanState.Within budget.maxWork) answers s m)
    (hdenied : Blames denied .storage) (horigin : budget.origin ≤ start)
    (hmapped : start ≤ budget.mappedSize) (hbytes : start ≤ budget.origin + budget.maxBytes)
    (hwork : state.Within budget.maxWork) {p : α × ℕ} {s s' : ScanState} {n' n'' : ℕ} {e : ε}
    (hfirst : prepare scan planStorage charge denied start answers state n = .ok p s n')
    (herr : replay scan charge capacities retain p.1 p.2 answers s n' = .error e s' n'') :
    Blames e (.scan .work) := by
  have hsound := (ScanState.fresh_rewind state start).sound horigin hmapped hbytes hwork
  rcases hscan with ⟨a, d, hscan⟩ | hstops
  · rcases hplan a with ⟨total, hplan⟩ | hstops
    · have hneeds : (prepare scan planStorage charge denied start).Needs
          (ScanState.Within budget.maxWork) Blames answers state n
          (prepareShort budget maxRetained (answers n) state.workUsed start total d) (a, total)
          (prepared state.workUsed start total d) (n + 1) :=
        needs_prepare budget maxRetained total a d hcharge
          (fun s m => hscan none s m (Or.inl rfl)) hplan hdenied horigin hmapped hbytes hwork
      -- the first pass had room, so what is short later is the work
      obtain ⟨rfl, rfl, rfl, hroom⟩ := hneeds.of_ok hfirst
      have hfits : ∀ k, k ≠ .work →
          ¬ budget.Short k { ScanState.init with position := start } d := by
        intro k hk
        have hk' := hroom (.scan k)
        cases k <;> first | exact absurd rfl hk | exact hk'
      have hreplay : (replay scan charge capacities retain a total).Needs
          (ScanState.Within budget.maxWork) Blames answers
          (prepared state.workUsed start total d) (n + 1) _ _ _ (n + 1) :=
        needs_replay budget total a d hcharge (fun s m => hscan _ s m (Or.inr rfl)) horigin
          hmapped hbytes hfits (fresh_prepared _ _ _ _) (Nat.le_of_not_lt (hroom (.scan .work)))
      obtain ⟨-, k, hblames, hk, -⟩ := hreplay.of_error herr
      exact hk ▸ hblames
    -- the rows are there and cannot be stored, or they are not: no first pass
    · have hpass := hscan none (state.rewind start) n (Or.inl rfl)
        (ScanState.fresh_rewind state start) hsound
      obtain ⟨e', u, m, herr', -⟩ : (prepare scan planStorage charge denied start).Stops
          (ScanState.Within budget.maxWork) answers state n :=
        stops_prepare_storage hpass fun hroom =>
          hstops _ n (Nat.le_of_not_lt (hroom (.scan .work)))
      rw [hfirst] at herr'
      cases herr'
  · obtain ⟨e', u, m, herr', -⟩ : (prepare scan planStorage charge denied start).Stops
        (ScanState.Within budget.maxWork) answers state n :=
      stops_prepare (hstops _ n (ScanState.fresh_rewind state start) hsound)
    rw [hfirst] at herr'
    cases herr'

end

end UnityCommon.Metadata
