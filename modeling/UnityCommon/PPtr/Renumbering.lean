import Mathlib.Data.List.Nodup
import Mathlib.Logic.Equiv.Basic
import Mathlib.Logic.Equiv.Fin.Basic
import UnityCommon.PPtr.Scope

/-!
# Renumbered graphs

The candidate loops of both routes count the nodes that meet a condition on the
node alone, so a renumbering of the graph renumbers the answer of the resolver
and changes nothing else.
-/

namespace UnityCommon.PPtr

/-- Every node of `graph` stands in `graph'` at the index `σ` sends its own to. -/
def Renumbers (σ : Equiv.Perm ℕ) (graph graph' : ResolverGraph) : Prop :=
  ∀ i, graph'.nodes[σ i]? = graph.nodes[i]?

/-- The graph with node `i` moved to index `σ i`. -/
def ResolverGraph.permuted (graph : ResolverGraph)
    (σ : Equiv.Perm (Fin graph.nodes.length)) : ResolverGraph :=
  ⟨List.ofFn fun i => graph.nodes[σ.symm i]⟩

/-- Where an index goes; one past the nodes stays. -/
def permutedIndex {n : ℕ} (σ : Equiv.Perm (Fin n)) : Equiv.Perm ℕ :=
  σ.extendDomain Fin.equivSubtype

theorem renumbers_permuted (graph : ResolverGraph)
    (σ : Equiv.Perm (Fin graph.nodes.length)) :
    Renumbers (permutedIndex σ) graph (graph.permuted σ) := by
  intro i
  by_cases hi : i < graph.nodes.length
  · have hmoved : permutedIndex σ i = σ ⟨i, hi⟩ :=
      Equiv.Perm.extendDomain_apply_subtype σ Fin.equivSubtype hi
    rw [hmoved]
    simp [ResolverGraph.permuted, hi]
  · have hstays : permutedIndex σ i = i :=
      Equiv.Perm.extendDomain_apply_not_subtype σ Fin.equivSubtype hi
    rw [hstays]
    simp [ResolverGraph.permuted, Nat.le_of_not_lt hi]

/-- The record with its node indices renamed. -/
def ResolveResult.renumbered (σ : Equiv.Perm ℕ) (result : ResolveResult) : ResolveResult :=
  { result with
    sourceIndex := result.sourceIndex.map σ
    targetIndex := result.targetIndex.map σ }

def Route.renumbered (σ : Equiv.Perm ℕ) : Route → Route
  | .finished ok result => .finished ok (result.renumbered σ)
  | .archive source external result => .archive source external (result.renumbered σ)
  | .loose source call => .loose source { call with result := call.result.renumbered σ }

theorem nodup_matchingIndices (graph : ResolverGraph) (candidate : SourceNode → Bool) :
    (matchingIndices graph candidate).Nodup := by
  have hsub : List.Sublist (matchingIndices graph candidate)
      (graph.nodes.zipIdx.map Prod.snd) := List.filter_sublist.map Prod.snd
  refine hsub.nodup ?_
  rw [List.zipIdx_map_snd]
  exact List.nodup_range'

section Renumbering

variable {σ : Equiv.Perm ℕ} {graph graph' : ResolverGraph}

/-- **A candidate loop counts the same nodes**, under their new indices. -/
theorem matchingIndices_renumbered (h : Renumbers σ graph graph')
    (candidate : SourceNode → Bool) :
    (matchingIndices graph' candidate).Perm ((matchingIndices graph candidate).map σ) := by
  rw [List.perm_ext_iff_of_nodup (nodup_matchingIndices _ _)
    (List.Nodup.map σ.injective (nodup_matchingIndices _ _))]
  intro j
  obtain ⟨i, rfl⟩ := σ.surjective j
  rw [List.mem_map_of_injective σ.injective, mem_matchingIndices_iff,
    mem_matchingIndices_iff, h i]

/-- The three ways a count can come out come out alike. -/
theorem matchingIndices_cases (h : Renumbers σ graph graph')
    (candidate : SourceNode → Bool) :
    (matchingIndices graph candidate = [] ∧
        matchingIndices graph' candidate = []) ∨
      (∃ i, matchingIndices graph candidate = [i] ∧
        matchingIndices graph' candidate = [σ i]) ∨
      ∃ i j rest i' j' rest', matchingIndices graph candidate = i :: j :: rest ∧
        matchingIndices graph' candidate = i' :: j' :: rest' := by
  have hperm := matchingIndices_renumbered h candidate
  rcases hm : matchingIndices graph candidate with _ | ⟨i, _ | ⟨j, rest⟩⟩
  · rw [hm] at hperm
    exact Or.inl ⟨rfl, List.perm_nil.mp hperm⟩
  · rw [hm] at hperm
    exact Or.inr (Or.inl ⟨i, rfl, List.perm_singleton.mp hperm⟩)
  · rw [hm] at hperm
    have hlength := hperm.length_eq
    rcases hm' : matchingIndices graph' candidate with _ | ⟨i', _ | ⟨j', rest'⟩⟩
    · rw [hm'] at hlength
      simp at hlength
    · rw [hm'] at hlength
      simp at hlength
    · exact Or.inr (Or.inr ⟨i, j, rest, i', j', rest', rfl, rfl⟩)

theorem finishTarget_renumbered (h : Renumbers σ graph graph') (result : ResolveResult)
    (target : ℕ) (pathId : Int64) (cls : Int32) (status : ResolveStatus) :
    finishTarget (result.renumbered σ) graph' (σ target) pathId cls status =
      (finishTarget result graph target pathId cls status).renumbered σ := by
  unfold finishTarget
  rw [h target]
  cases findObject (graph.nodes[target]?.bind (·.file)) pathId with
  | none => rfl
  | some object =>
      dsimp only
      split <;> rfl

theorem resolveArchive_renumbered (h : Renumbers σ graph graph') (source : SourceNode)
    (external : AssetFileExternal) (pathId : Int64) (cls : Int32) (result : ResolveResult) :
    resolveArchive graph' source external pathId cls (result.renumbered σ) =
      (resolveArchive graph source external pathId cls result).renumbered σ := by
  unfold resolveArchive
  cases archiveLocator external with
  | none => rfl
  | some locator =>
      dsimp only
      split
      · rfl
      cases normalizePath locator with
      | none => rfl
      | some wantedMember =>
          cases normalizedNodeScope source with
          | none => rfl
          | some scope =>
              obtain ⟨sourceRoot, sourceOuter⟩ := scope
              dsimp only
              split
              · rfl
              rcases matchingIndices_cases h
                (archiveCandidate external sourceRoot sourceOuter wantedMember) with
                ⟨hm, hm'⟩ | ⟨i, hm, hm'⟩ | ⟨i, j, rest, i', j', rest', hm, hm'⟩
              · rw [hm, hm']
                rfl
              · rw [hm, hm']
                exact finishTarget_renumbered h result i pathId cls .externalExact
              · rw [hm, hm']
                rfl

theorem looseAscend_renumbered (σ : Equiv.Perm ℕ) (call : LooseCall)
    (root directory : NormalizedPath) :
    looseAscend { call with result := call.result.renumbered σ } root directory =
      (looseAscend call root directory).mapResult (·.renumbered σ) := by
  unfold looseAscend
  dsimp only
  split
  · rfl
  cases parentPath directory with
  | none => rfl
  | some parent =>
      dsimp only
      split <;> rfl

/-- One round of the walk continues in both graphs or stops in both. -/
theorem looseRound_renumbered (h : Renumbers σ graph graph') (call : LooseCall)
    (root directory : NormalizedPath) :
    looseRound graph' { call with result := call.result.renumbered σ } root directory =
      (looseRound graph call root directory).mapResult (·.renumbered σ) := by
  unfold looseRound
  dsimp only
  split
  · rfl
  cases joinPath directory call.locator with
  | none => rfl
  | some wanted =>
      have hcandidate : looseCandidate { call with result := call.result.renumbered σ } root
          wanted = looseCandidate call root wanted := rfl
      dsimp only
      rw [hcandidate, looseAscend_renumbered]
      split
      · rcases matchingIndices_cases h (looseCandidate call root wanted) with
          ⟨hm, hm'⟩ | ⟨i, hm, hm'⟩ | ⟨i, j, rest, i', j', rest', hm, hm'⟩
        · rw [hm, hm']
        · rw [hm, hm']
          exact congrArg Loop.Outcome.done
            (finishTarget_renumbered h call.result i call.pathId call.expectedClassId (looseSuccess call))
        · rw [hm, hm']
          rfl
      · rfl

theorem resolveLoose_renumbered (h : Renumbers σ graph graph') (fuel : ℕ)
    (source : SourceNode) (call : LooseCall) :
    resolveLoose fuel graph' source { call with result := call.result.renumbered σ } =
      (resolveLoose fuel graph source call).map (·.renumbered σ) := by
  unfold resolveLoose
  dsimp only
  cases looseStart source call.locator with
  | none => rfl
  | some start => exact Loop.run_map _ (looseRound_renumbered h call start.1) fuel start.2

theorem route_renumbered (h : Renumbers σ graph graph') (sourceIndex : ℕ) (pointer : AssetPPtr)
    (cls : Int32) :
    route graph' (σ sourceIndex) pointer cls =
      (route graph sourceIndex pointer cls).renumbered σ := by
  unfold route
  rw [h sourceIndex]
  cases graph.nodes[sourceIndex]? with
  | none => rfl
  | some source =>
      dsimp only
      cases source.file with
      | none => rfl
      | some sourceFile =>
          dsimp only
          split
          · rfl
          split
          · rfl
          split
          · exact congrArg (Route.finished true) (finishTarget_renumbered h
              { ResolveResult.init with sourceIndex := some sourceIndex } sourceIndex
              pointer.pathId cls .localFile)
          cases sourceFile.externals[pointer.fileId.toNatClampNeg - 1]? with
          | none => rfl
          | some external =>
              dsimp only
              unfold routeExternal
              cases external.pathName with
              | none => rfl
              | some pathName =>
                  cases external.virtualPath with
                  | none => rfl
                  | some virtualPath =>
                      dsimp only
                      split
                      · rfl
                      split
                      · rfl
                      split
                      · rfl
                      split <;> rfl

/-- **Resolution commutes with a renumbering of the nodes.** -/
theorem unityPPtrResolve_renumbered (h : Renumbers σ graph graph') (fuel sourceIndex : ℕ)
    (pointer : AssetPPtr) (cls : Int32) :
    unityPPtrResolve fuel graph' (σ sourceIndex) pointer cls =
      (unityPPtrResolve fuel graph sourceIndex pointer cls).map fun out =>
        (out.1, out.2.renumbered σ) := by
  unfold unityPPtrResolve
  rw [route_renumbered h sourceIndex]
  cases route graph sourceIndex pointer cls with
  | finished ok result => rfl
  | archive source external result =>
      exact congrArg (fun out => some (true, out))
        (resolveArchive_renumbered h source external pointer.pathId cls result)
  | loose source call =>
      dsimp only [Route.renumbered]
      rw [resolveLoose_renumbered h, Option.map_map, Option.map_map]
      rfl

end Renumbering

end UnityCommon.PPtr
