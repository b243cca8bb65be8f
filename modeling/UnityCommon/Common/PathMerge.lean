import UnityCommon.Common.PathTree
import UnityCommon.Lib.SortedMerge
import Mathlib.Logic.Function.Basic

/-!
# Merging discovery results

`common_path_discovery_result_merge` in memory. The merged array shares the path
pointers of the destination and owns copies of the paths of the addition only, so
a failure must free the copies and nothing else. The memory holds strings and
arrays of entries, each at an address of its own; what the two local arrays hold is
the list of the entries written so far, and `merged` becomes an array of the
memory where it is published.
-/

namespace UnityCommon.PathDiscovery

open UnityCommon.Common Call

/-- `CommonDiscoveredPath` in memory; `none` is NULL. -/
structure PathEntry where
  path : Option ℕ
  explicitFile : Bool
deriving DecidableEq, Repr

/-- `CommonPathDiscoveryResult` in memory. -/
structure DiscoveryResult where
  paths : Option ℕ
  count : ℕ
deriving DecidableEq, Repr

/-- What is allocated. No address from `next` on has been handed out. -/
structure Heap where
  strings : ℕ → Option Text
  arrays : ℕ → Option (List PathEntry)
  next : ℕ

def Heap.text (heap : Heap) (entry : PathEntry) : Option Text := entry.path.bind heap.strings

def Heap.entries (heap : Heap) (result : DiscoveryResult) : List PathEntry :=
  ((result.paths.bind heap.arrays).getD []).take result.count

/-- `free` of a string. -/
def Heap.freeString (heap : Heap) (path : Option ℕ) : Heap :=
  match path with
  | none => heap
  | some address => { heap with strings := Function.update heap.strings address none }

/-- `free` of an array of entries. -/
def Heap.freeArray (heap : Heap) (paths : Option ℕ) : Heap :=
  match paths with
  | none => heap
  | some address => { heap with arrays := Function.update heap.arrays address none }

def Heap.storeString (heap : Heap) (address : ℕ) (text : Text) : Heap :=
  { heap with strings := Function.update heap.strings address (some text) }

def Heap.storeArray (heap : Heap) (address : ℕ) (entries : List PathEntry) : Heap :=
  { heap with arrays := Function.update heap.arrays address (some entries) }

def malloc : Call CommonPathDiscoveryStatus Heap (Option ℕ) := fun answers heap n =>
  if answers n then .ok (some heap.next) { heap with next := heap.next + 1 } (n + 1)
  else .ok none heap (n + 1)

def duplicatePath (path : Option ℕ) : Call CommonPathDiscoveryStatus Heap (Option ℕ) := do
  let heap ← current
  match path.bind heap.strings with
  | none => pure none
  | some text => do
      let copy ← malloc
      match copy with
      | none => pure none
      | some address => do
          Call.modify fun heap => heap.storeString address text
          return some address

/-! ## The checks -/

/-- The loop of `discovery_result_is_sorted_unique`, behind the path before. -/
def pathsIncrease : Option Text → List (Option Text) → Bool
  | _, [] => true
  | _, none :: _ => false
  | previous, some path :: rest =>
      if path = [] then false
      else
        match previous with
        | none => pathsIncrease (some path) rest
        | some before =>
            if (strcmp before path).isGE then false else pathsIncrease (some path) rest

def discoveryResultIsSortedUnique (heap : Heap) (result : DiscoveryResult) : Bool :=
  if result.count ≠ 0 ∧ result.paths = none then false
  else pathsIncrease none ((heap.entries result).map heap.text)

def Heap.order (heap : Heap) (left right : PathEntry) : Ordering :=
  strcmp ((heap.text left).getD []) ((heap.text right).getD [])

/-- The loop of `merged_path_count` over what is left of both arrays. -/
def mergedPathCountFrom (heap : Heap) : List PathEntry → List PathEntry → ℕ → ℕ
  | d :: destination, a :: addition, count =>
      match heap.order d a with
      | .lt => mergedPathCountFrom heap destination (a :: addition) (count + 1)
      | .eq => mergedPathCountFrom heap destination addition (count + 1)
      | .gt => mergedPathCountFrom heap (d :: destination) addition (count + 1)
  | destination, addition, count => count + destination.length + addition.length
termination_by destination addition => destination.length + addition.length

def mergedPathCount (heap : Heap) (destination addition : List PathEntry) : ℕ :=
  mergedPathCountFrom heap destination addition 0

/-! ## The merge -/

/-- An entry of `merged` with its flag in `merged_path_is_copy`. -/
structure MergedEntry where
  entry : PathEntry
  isCopy : Bool
deriving DecidableEq, Repr

def freeCopies : List MergedEntry → Heap → Heap
  | [], heap => heap
  | m :: merged, heap =>
      freeCopies merged (if m.isCopy then heap.freeString m.entry.path else heap)

/-- The branch of the loop that copies. -/
def takeAddition (addition : PathEntry) (merged : List MergedEntry) :
    Call CommonPathDiscoveryStatus Heap (List MergedEntry) := do
  let copy ← duplicatePath addition.path
  match copy with
  | none => do
      Call.modify (freeCopies merged)
      fail .allocationFailed
  | some address => return merged ++ [⟨{ addition with path := some address }, true⟩]

def takeDestination (destination : PathEntry) (merged : List MergedEntry) : List MergedEntry :=
  merged ++ [⟨destination, false⟩]

/-- The loop over what is left of both arrays. -/
def mergeEntries : List PathEntry → List PathEntry → List MergedEntry →
    Call CommonPathDiscoveryStatus Heap (List MergedEntry)
  | [], [], merged => pure merged
  | d :: destination, [], merged => mergeEntries destination [] (takeDestination d merged)
  | [], a :: addition, merged => do
      let merged ← takeAddition a merged
      mergeEntries [] addition merged
  | d :: destination, a :: addition, merged => do
      let heap ← current
      match heap.order d a with
      | .lt => mergeEntries destination (a :: addition) (takeDestination d merged)
      | .eq =>
          let both := { d with explicitFile := d.explicitFile || a.explicitFile }
          mergeEntries destination addition (takeDestination both merged)
      | .gt => do
          let merged ← takeAddition a merged
          mergeEntries (d :: destination) addition merged
termination_by destination addition => destination.length + addition.length

structure MergeState where
  heap : Heap
  destination : DiscoveryResult

def onHeap {α : Type} : Call CommonPathDiscoveryStatus Heap α →
    Call CommonPathDiscoveryStatus MergeState α :=
  focus MergeState.heap fun heap st => { st with heap := heap }

/-- The last lines: the array is replaced, its strings go on in the merged one. -/
def publishMerged (merged : ℕ) (written : List MergedEntry) (st : MergeState) : MergeState where
  heap := (st.heap.freeArray st.destination.paths).storeArray merged (written.map (·.entry))
  destination := ⟨some merged, written.length⟩

/-- `sizeof(CommonDiscoveredPath)`. -/
def discoveredPathSize : ℕ := 16

def commonPathDiscoveryResultMerge (addition : DiscoveryResult) :
    Call CommonPathDiscoveryStatus MergeState Unit := do
  let st ← current
  require (discoveryResultIsSortedUnique st.heap st.destination = true ∧
    discoveryResultIsSortedUnique st.heap addition = true) .invalidArgument
  if addition.count = 0 then pure ()
  else do
    require (¬ (st.destination.paths ≠ none ∧ st.destination.paths = addition.paths))
      .invalidArgument
    let outputCount := mergedPathCount st.heap (st.heap.entries st.destination)
      (st.heap.entries addition)
    require (outputCount * discoveredPathSize ≤ sizeMax ∧ outputCount ≤ sizeMax) .allocationFailed
    let merged ← onHeap malloc
    let mergedPathIsCopy ← onHeap malloc
    match merged, mergedPathIsCopy with
    | some merged, some _ => do
        let written ← onHeap
          (mergeEntries (st.heap.entries st.destination) (st.heap.entries addition) [])
        Call.modify (publishMerged merged written)
    | _, _ => fail .allocationFailed

/-! ## The represented files -/

def Heap.file (heap : Heap) (entry : PathEntry) : CommonDiscoveredPath :=
  ⟨(heap.text entry).getD [], entry.explicitFile⟩

def Heap.files (heap : Heap) (result : DiscoveryResult) : List CommonDiscoveredPath :=
  (heap.entries result).map heap.file

def joinFlags (left right : CommonDiscoveredPath) : CommonDiscoveredPath :=
  { left with explicitFile := left.explicitFile || right.explicitFile }

theorem joinFlags_path : SortedAssoc.JoinsKey CommonDiscoveredPath.path joinFlags := fun _ _ _ => rfl

def mergeFiles (left right : List CommonDiscoveredPath) : List CommonDiscoveredPath :=
  SortedAssoc.merge strcmp CommonDiscoveredPath.path joinFlags left right

theorem mergeFiles_cons_cons (l r : CommonDiscoveredPath) (left right : List CommonDiscoveredPath) :
    mergeFiles (l :: left) (r :: right) =
      match strcmp l.path r.path with
      | .lt => l :: mergeFiles left (r :: right)
      | .eq => joinFlags l r :: mergeFiles left right
      | .gt => r :: mergeFiles (l :: left) right :=
  SortedAssoc.merge_cons_cons

theorem mergeFiles_nil_left (right : List CommonDiscoveredPath) : mergeFiles [] right = right :=
  SortedAssoc.merge_nil_left

theorem mergeFiles_nil_right (left : List CommonDiscoveredPath) : mergeFiles left [] = left :=
  SortedAssoc.merge_nil_right

theorem Heap.strcmp_file (heap : Heap) (left right : PathEntry) :
    strcmp (heap.file left).path (heap.file right).path = heap.order left right := rfl

/-- **The count is the length of the merge.** -/
theorem mergedPathCountFrom_eq (heap : Heap) (destination addition : List PathEntry) (count : ℕ) :
    mergedPathCountFrom heap destination addition count =
      count + (mergeFiles (destination.map heap.file) (addition.map heap.file)).length := by
  induction destination, addition, count using mergedPathCountFrom.induct heap with
  | case1 d destination a addition count horder ih =>
      rw [mergedPathCountFrom, horder, List.map_cons, List.map_cons, mergeFiles_cons_cons,
        heap.strcmp_file, horder]
      simp only [ih, List.map_cons, List.length_cons]
      omega
  | case2 d destination a addition count horder ih =>
      rw [mergedPathCountFrom, horder, List.map_cons, List.map_cons, mergeFiles_cons_cons,
        heap.strcmp_file, horder]
      simp only [ih, List.length_cons]
      omega
  | case3 d destination a addition count horder ih =>
      rw [mergedPathCountFrom, horder, List.map_cons, List.map_cons, mergeFiles_cons_cons,
        heap.strcmp_file, horder]
      simp only [ih, List.map_cons, List.length_cons]
      omega
  | case4 destination addition count hnone =>
      cases destination with
      | nil => simp [mergedPathCountFrom, mergeFiles_nil_left]
      | cons d destination =>
          cases addition with
          | nil => simp [mergedPathCountFrom, mergeFiles_nil_right]
          | cons a addition => exact absurd rfl (hnone d destination a addition rfl)

/-! ## Memory that is kept -/

/-- Nothing that was allocated is touched. -/
structure Heap.Extends (heap heap' : Heap) : Prop where
  strings : ∀ address < heap.next, heap'.strings address = heap.strings address
  arrays : ∀ address < heap.next, heap'.arrays address = heap.arrays address
  next : heap.next ≤ heap'.next

theorem Heap.Extends.refl (heap : Heap) : heap.Extends heap :=
  ⟨fun _ _ => rfl, fun _ _ => rfl, le_rfl⟩

theorem Heap.Extends.trans {first second third : Heap} (h : first.Extends second)
    (h' : second.Extends third) : first.Extends third where
  strings address hlt :=
    (h'.strings address (Nat.lt_of_lt_of_le hlt h.next)).trans (h.strings address hlt)
  arrays address hlt :=
    (h'.arrays address (Nat.lt_of_lt_of_le hlt h.next)).trans (h.arrays address hlt)
  next := h.next.trans h'.next

/-- The entry owns a string. -/
def Heap.Live (heap : Heap) (entry : PathEntry) : Prop :=
  ∃ address text, entry.path = some address ∧ address < heap.next ∧
    heap.strings address = some text

theorem Heap.Extends.live {heap heap' : Heap} (h : heap.Extends heap') {entry : PathEntry}
    (hlive : heap.Live entry) : heap'.Live entry := by
  obtain ⟨address, text, hpath, hlt, htext⟩ := hlive
  exact ⟨address, text, hpath, Nat.lt_of_lt_of_le hlt h.next, (h.strings address hlt).trans htext⟩

theorem Heap.Extends.text {heap heap' : Heap} (h : heap.Extends heap') {entry : PathEntry}
    (hlive : heap.Live entry) : heap'.text entry = heap.text entry := by
  obtain ⟨address, text, hpath, hlt, -⟩ := hlive
  simp only [Heap.text, hpath, Option.bind_some, h.strings address hlt]

theorem Heap.Extends.file {heap heap' : Heap} (h : heap.Extends heap') {entry : PathEntry}
    (hlive : heap.Live entry) : heap'.file entry = heap.file entry := by
  rw [Heap.file, Heap.file, h.text hlive]

theorem Heap.Extends.map_file {heap heap' : Heap} (h : heap.Extends heap')
    {entries : List PathEntry} (hlive : ∀ entry ∈ entries, heap.Live entry) :
    entries.map heap'.file = entries.map heap.file :=
  List.map_congr_left fun entry hmem => h.file (hlive entry hmem)

theorem Heap.Extends.order {heap heap' : Heap} (h : heap.Extends heap') {left right : PathEntry}
    (hleft : heap.Live left) (hright : heap.Live right) :
    heap'.order left right = heap.order left right := by
  rw [Heap.order, Heap.order, h.text hleft, h.text hright]

/-! ## Copies -/

/-- A string stored at the next address. -/
def Heap.withCopy (heap : Heap) (text : Text) : Heap :=
  ({ heap with next := heap.next + 1 } : Heap).storeString heap.next text

theorem Heap.extends_withCopy (heap : Heap) (text : Text) : heap.Extends (heap.withCopy text) where
  strings _ hlt := Function.update_of_ne hlt.ne _ _
  arrays _ _ := rfl
  next := Nat.le_succ _

theorem duplicatePath_cases {heap : Heap} {entry : PathEntry} (hlive : heap.Live entry)
    (answers : ℕ → Bool) (n : ℕ) :
    ∃ text, heap.text entry = some text ∧
      (duplicatePath entry.path answers heap n =
          .ok (some heap.next) (heap.withCopy text) (n + 1) ∧ answers n = true ∨
        duplicatePath entry.path answers heap n = .ok none heap (n + 1) ∧ answers n = false) := by
  obtain ⟨address, text, hpath, hlt, htext⟩ := hlive
  refine ⟨text, by rw [Heap.text, hpath, Option.bind_some, htext], ?_⟩
  unfold duplicatePath
  rw [hpath]
  simp only [bind_apply, andThen, current, Option.bind_some, htext, malloc]
  cases hanswer : answers n with
  | true => exact Or.inl ⟨rfl, rfl⟩
  | false => exact Or.inr ⟨rfl, rfl⟩

/-- What the loop keeps: the memory behind it is as it was, its entries are live and
apart, and those it copied are new. -/
structure Merging (base heap : Heap) (own : List PathEntry) (rest : List PathEntry)
    (merged : List MergedEntry) : Prop where
  frame : base.Extends heap
  live : ∀ m ∈ merged, heap.Live m.entry
  copied : ∀ m ∈ merged, m.isCopy = true → ∀ address, m.entry.path = some address →
    base.next ≤ address
  shared : ∀ m ∈ merged, m.isCopy = false → m.entry.path ∈ own.map PathEntry.path
  distinct : (merged.map (·.entry.path) ++ rest.map PathEntry.path).Nodup
  rest_own : ∀ entry ∈ rest, entry ∈ own

namespace Merging

variable {base heap : Heap} {own rest : List PathEntry} {merged : List MergedEntry}

theorem start (h : (own.map PathEntry.path).Nodup) : Merging base base own own [] where
  frame := Heap.Extends.refl base
  live := by simp
  copied := by simp
  shared := by simp
  distinct := h
  rest_own _ := id

/-- An entry of the destination is shared. -/
theorem take {d : PathEntry} (h : Merging base heap own (d :: rest) merged)
    (hlive : base.Live d) (explicitFile : Bool) :
    Merging base heap own rest
      (takeDestination { d with explicitFile := explicitFile } merged) := by
  have hlive' : heap.Live { d with explicitFile := explicitFile } := h.frame.live hlive
  unfold takeDestination
  refine ⟨h.frame, ?_, ?_, ?_, ?_, fun entry hmem => h.rest_own entry (List.mem_cons_of_mem d hmem)⟩
  · intro m hmem
    rcases List.mem_append.mp hmem with hmem | hmem
    · exact h.live m hmem
    · rw [List.mem_singleton.mp hmem]
      exact hlive'
  · intro m hmem hcopy
    rcases List.mem_append.mp hmem with hmem | hmem
    · exact h.copied m hmem hcopy
    · rw [List.mem_singleton.mp hmem] at hcopy
      cases hcopy
  · intro m hmem hcopy
    rcases List.mem_append.mp hmem with hmem | hmem
    · exact h.shared m hmem hcopy
    · rw [List.mem_singleton.mp hmem]
      exact List.mem_map.mpr ⟨d, h.rest_own d List.mem_cons_self, rfl⟩
  · have hdistinct := h.distinct
    rw [List.map_cons] at hdistinct
    rw [List.map_append, List.append_assoc]
    exact hdistinct

/-- A copy goes to an address of its own. -/
theorem copy (h : Merging base heap own rest merged) (hrest : ∀ entry ∈ rest, base.Live entry)
    (text : Text) (explicitFile : Bool) :
    Merging base (heap.withCopy text) own rest
      (merged ++ [⟨⟨some heap.next, explicitFile⟩, true⟩]) := by
  have hextends := heap.extends_withCopy text
  have hnew : ∀ entry, heap.Live entry → entry.path ≠ some heap.next := by
    rintro entry ⟨address, _, hpath, hlt, -⟩ he
    rw [hpath, Option.some_inj] at he
    omega
  refine ⟨h.frame.trans hextends, ?_, ?_, ?_, ?_, h.rest_own⟩
  · intro m hmem
    rcases List.mem_append.mp hmem with hmem | hmem
    · exact hextends.live (h.live m hmem)
    · rw [List.mem_singleton.mp hmem]
      exact ⟨heap.next, text, rfl, Nat.lt_succ_self _, Function.update_self ..⟩
  · intro m hmem hcopy address hpath
    rcases List.mem_append.mp hmem with hmem | hmem
    · exact h.copied m hmem hcopy address hpath
    · rw [List.mem_singleton.mp hmem, Option.some_inj] at hpath
      rw [← hpath]
      exact h.frame.next
  · intro m hmem hcopy
    rcases List.mem_append.mp hmem with hmem | hmem
    · exact h.shared m hmem hcopy
    · rw [List.mem_singleton.mp hmem] at hcopy
      cases hcopy
  · -- The new address is none of the live ones.
    rw [List.map_append, List.append_assoc, List.map_singleton, List.singleton_append]
    refine List.nodup_middle.mpr (List.nodup_cons.mpr ⟨fun hmem => ?_, h.distinct⟩)
    rcases List.mem_append.mp hmem with hmem | hmem
    · obtain ⟨m, hm, hpath⟩ := List.mem_map.mp hmem
      exact hnew m.entry (h.live m hm) hpath
    · obtain ⟨entry, hm, hpath⟩ := List.mem_map.mp hmem
      exact hnew entry (h.frame.live (hrest entry hm)) hpath

/-- Freeing the copies leaves what was there before them. -/
theorem extends_freeCopies (hframe : base.Extends heap)
    (hcopied : ∀ m ∈ merged, m.isCopy = true → ∀ address, m.entry.path = some address →
      base.next ≤ address) : base.Extends (freeCopies merged heap) := by
  induction merged generalizing heap with
  | nil => exact hframe
  | cons m merged ih =>
      refine ih ?_ fun m' hmem => hcopied m' (List.mem_cons_of_mem m hmem)
      split
      · rename_i hcopy
        unfold Heap.freeString
        cases hpath : m.entry.path with
        | none => exact hframe
        | some address =>
            have hle := hcopied m List.mem_cons_self hcopy address hpath
            refine ⟨fun other hlt => ?_, hframe.arrays, hframe.next⟩
            have hne : other ≠ address := (Nat.lt_of_lt_of_le hlt hle).ne
            exact (Function.update_of_ne hne _ _).trans (hframe.strings other hlt)
      · exact hframe

end Merging

theorem takeAddition_cases {heap : Heap} {a : PathEntry} (hlive : heap.Live a)
    (merged : List MergedEntry) (answers : ℕ → Bool) (n : ℕ) :
    ∃ text, heap.text a = some text ∧
      (takeAddition a merged answers heap n =
          .ok (merged ++ [⟨⟨some heap.next, a.explicitFile⟩, true⟩]) (heap.withCopy text) (n + 1) ∧
            answers n = true ∨
        takeAddition a merged answers heap n =
          .error .allocationFailed (freeCopies merged heap) (n + 1) ∧ answers n = false) := by
  obtain ⟨text, htext, hcopy⟩ := duplicatePath_cases hlive answers n
  refine ⟨text, htext, ?_⟩
  unfold takeAddition
  rcases hcopy with ⟨hcopy, hanswer⟩ | ⟨hcopy, hanswer⟩
  · refine Or.inl ⟨?_, hanswer⟩
    simp only [bind_apply, andThen, hcopy]
    rfl
  · refine Or.inr ⟨?_, hanswer⟩
    simp only [bind_apply, andThen, hcopy]
    rfl

/-- How the loop ends: with the merge of what was left, or denied. -/
def Merged (answers : ℕ → Bool) (base heap : Heap) (own : List PathEntry)
    (merged : List MergedEntry) (files : List CommonDiscoveredPath) :
    Result CommonPathDiscoveryStatus Heap (List MergedEntry) → Prop :=
  Result.Ends
    (fun written heap' => Merging base heap' own [] written ∧
      written.map (fun m => heap'.file m.entry) = merged.map (fun m => heap.file m.entry) ++ files)
    fun status heap' => status = .allocationFailed ∧ (∃ i, answers i = false) ∧ base.Extends heap'

section Steps

variable {answers : ℕ → Bool} {base heap : Heap} {own rest : List PathEntry}
  {merged : List MergedEntry} {files : List CommonDiscoveredPath}
  {r : Result CommonPathDiscoveryStatus Heap (List MergedEntry)}

theorem Merged.take {d : PathEntry}
    (h : Merged answers base heap own (takeDestination d merged) files r) :
    Merged answers base heap own merged (heap.file d :: files) r := by
  cases r with
  | ok written heap' n =>
      obtain ⟨hmerging, hfiles⟩ := h
      refine ⟨hmerging, ?_⟩
      rw [hfiles, takeDestination, List.map_append, List.append_assoc]
      rfl
  | error status heap' n => exact h

theorem Merged.copy (hmerging : Merging base heap own rest merged) {a : PathEntry} {text : Text}
    (htext : heap.text a = some text)
    (h : Merged answers base (heap.withCopy text) own
      (merged ++ [⟨⟨some heap.next, a.explicitFile⟩, true⟩]) files r) :
    Merged answers base heap own merged (heap.file a :: files) r := by
  have hcopy : (heap.withCopy text).file ⟨some heap.next, a.explicitFile⟩ = heap.file a := by
    simp [Heap.file, Heap.text, Heap.withCopy, Heap.storeString, ← htext]
  have hsame : merged.map (fun m => (heap.withCopy text).file m.entry) =
      merged.map fun m => heap.file m.entry :=
    List.map_congr_left fun m hmem => (heap.extends_withCopy text).file (hmerging.live m hmem)
  cases r with
  | ok written heap' n =>
      obtain ⟨hmerging', hfiles⟩ := h
      refine ⟨hmerging', ?_⟩
      rw [hfiles, List.map_append, hsame, List.map_singleton, hcopy, List.append_assoc]
      rfl
  | error status heap' n => exact h

/-- A copying branch, and what comes behind it. -/
theorem merged_takeAddition {a : PathEntry}
    (hmerging : Merging base heap own rest merged) (hrest : ∀ entry ∈ rest, base.Live entry)
    (hlive : base.Live a) (n : ℕ)
    {f : List MergedEntry → Call CommonPathDiscoveryStatus Heap (List MergedEntry)}
    (hf : ∀ (merged' : List MergedEntry) (heap' : Heap) (n' : ℕ),
      Merging base heap' own rest merged' →
        Merged answers base heap' own merged' files (f merged' answers heap' n')) :
    Merged answers base heap own merged (base.file a :: files)
      ((takeAddition a merged >>= f) answers heap n) := by
  obtain ⟨text, htext, hcases⟩ := takeAddition_cases (hmerging.frame.live hlive) merged answers n
  rw [← hmerging.frame.file hlive]
  rcases hcases with ⟨hok, -⟩ | ⟨herr, hdenied⟩
  · simp only [bind_apply, andThen, hok]
    exact Merged.copy hmerging htext (hf _ _ _ (hmerging.copy hrest text a.explicitFile))
  · simp only [bind_apply, andThen, herr]
    exact ⟨rfl, ⟨n, hdenied⟩, Merging.extends_freeCopies hmerging.frame hmerging.copied⟩

end Steps

/-- **The loop writes the merge of the represented files.** -/
theorem mergeEntries_merged {base : Heap} {own : List PathEntry} (answers : ℕ → Bool)
    (destination addition : List PathEntry) (merged : List MergedEntry) :
    ∀ (heap : Heap) (n : ℕ), Merging base heap own destination merged →
      (∀ entry ∈ destination, base.Live entry) → (∀ entry ∈ addition, base.Live entry) →
      Merged answers base heap own merged
        (mergeFiles (destination.map base.file) (addition.map base.file))
        (mergeEntries destination addition merged answers heap n) := by
  induction destination, addition, merged using mergeEntries.induct with
  | case1 merged =>
      intro heap n h _ _
      rw [mergeEntries]
      exact ⟨h, by simp [mergeFiles_nil_left]⟩
  | case2 d destination merged ih =>
      intro heap n h hd ha
      have hlive := hd d List.mem_cons_self
      have htail := ih heap n (h.take hlive d.explicitFile)
        (fun e he => hd e (List.mem_cons_of_mem d he)) ha
      rw [mergeEntries, List.map_cons, List.map_nil, mergeFiles_nil_right,
        ← h.frame.file hlive]
      rw [List.map_nil, mergeFiles_nil_right] at htail
      exact htail.take
  | case3 a addition merged ih =>
      intro heap n h hd ha
      rw [mergeEntries, List.map_nil, List.map_cons, mergeFiles_nil_left]
      refine merged_takeAddition h hd (ha a List.mem_cons_self) n fun merged' heap' n' h' => ?_
      have htail := ih merged' heap' n' h' hd fun e he => ha e (List.mem_cons_of_mem a he)
      rwa [List.map_nil, mergeFiles_nil_left] at htail
  | case4 d destination a addition merged ih ih2 ih3 =>
      intro heap n h hd ha
      have hlive := hd d List.mem_cons_self
      have hlive' := ha a List.mem_cons_self
      have hdestination : ∀ e ∈ destination, base.Live e :=
        fun e he => hd e (List.mem_cons_of_mem d he)
      have haddition : ∀ e ∈ addition, base.Live e := fun e he => ha e (List.mem_cons_of_mem a he)
      rw [mergeEntries, List.map_cons, List.map_cons, mergeFiles_cons_cons, base.strcmp_file]
      change Merged answers base heap own merged _ ((match heap.order d a with
        | .lt => mergeEntries destination (a :: addition) (takeDestination d merged)
        | .eq => mergeEntries destination addition
            (takeDestination { d with explicitFile := d.explicitFile || a.explicitFile } merged)
        | .gt => do
            let merged ← takeAddition a merged
            mergeEntries (d :: destination) addition merged) answers heap n)
      rw [h.frame.order hlive hlive']
      cases base.order d a with
      | lt =>
          have htail := ih heap n (h.take hlive d.explicitFile) hdestination ha
          rw [← h.frame.file hlive]
          exact htail.take
      | eq =>
          have htail := ih2 heap n (h.take hlive _) hdestination haddition
          have hjoined : joinFlags (base.file d) (base.file a) =
              heap.file { d with explicitFile := d.explicitFile || a.explicitFile } := by
            rw [← h.frame.file hlive, ← h.frame.file hlive']
            rfl
          rw [hjoined]
          exact htail.take
      | gt =>
          refine merged_takeAddition h hd hlive' n fun merged' heap' n' h' => ?_
          exact ih3 merged' heap' n' h' hd haddition

/-! ## Results in memory -/

/-- The result owns its array and a string of its own for each entry. -/
structure Heap.Owns (heap : Heap) (result : DiscoveryResult) : Prop where
  count_eq : (heap.entries result).length = result.count
  array : ∀ address, result.paths = some address → address < heap.next
  live : ∀ entry ∈ heap.entries result, heap.Live entry
  distinct : ((heap.entries result).map PathEntry.path).Nodup

/-- Two results that share nothing. -/
structure Heap.Apart (heap : Heap) (destination addition : DiscoveryResult) : Prop where
  owns_destination : heap.Owns destination
  owns_addition : heap.Owns addition
  arrays : ∀ address, destination.paths = some address → addition.paths ≠ some address
  strings : ∀ d ∈ heap.entries destination, ∀ a ∈ heap.entries addition, d.path ≠ a.path

namespace Heap

variable {heap heap' : Heap} {result destination addition : DiscoveryResult}

theorem Extends.entries (h : heap.Extends heap')
    (harray : ∀ address, result.paths = some address → address < heap.next) :
    heap'.entries result = heap.entries result := by
  unfold Heap.entries
  cases hpaths : result.paths with
  | none => rfl
  | some address => rw [Option.bind_some, Option.bind_some, h.arrays address (harray address hpaths)]

theorem Extends.owns (h : heap.Extends heap') (howns : heap.Owns result) : heap'.Owns result := by
  have hentries := h.entries howns.array
  refine ⟨hentries ▸ howns.count_eq, fun address hpaths => ?_, fun entry hmem => ?_,
    hentries ▸ howns.distinct⟩
  · exact Nat.lt_of_lt_of_le (howns.array address hpaths) h.next
  · rw [hentries] at hmem
    exact h.live (howns.live entry hmem)

theorem Extends.files (h : heap.Extends heap') (howns : heap.Owns result) :
    heap'.files result = heap.files result := by
  rw [Heap.files, Heap.files, h.entries howns.array, h.map_file howns.live]

theorem Extends.apart (h : heap.Extends heap') (hapart : heap.Apart destination addition) :
    heap'.Apart destination addition := by
  refine ⟨h.owns hapart.owns_destination, h.owns hapart.owns_addition, hapart.arrays, ?_⟩
  rw [h.entries hapart.owns_destination.array, h.entries hapart.owns_addition.array]
  exact hapart.strings

theorem Owns.count_eq_zero_iff (h : heap.Owns result) :
    result.count = 0 ↔ heap.files result = [] := by
  rw [← h.count_eq, List.length_eq_zero_iff, Heap.files, List.map_eq_nil_iff]

/-! ### The check -/

theorem pathsIncrease_iff (previous : Option Text) (paths : List Text) :
    pathsIncrease previous (paths.map some) = true ↔
      (previous.toList ++ paths).IsChain (fun left right => strcmp left right = .lt) ∧
        ∀ path ∈ paths, path ≠ [] := by
  induction paths generalizing previous with
  | nil => cases previous <;> simp [pathsIncrease]
  | cons path paths ih =>
      rw [List.map_cons]
      by_cases hempty : path = []
      · cases previous <;> simp [pathsIncrease, hempty]
      cases previous with
      | none => simp [pathsIncrease, ih, hempty]
      | some before =>
          cases hcmp : strcmp before path with
          | lt => simp [pathsIncrease, ih, hempty, hcmp]
          | eq => simp [pathsIncrease, hcmp]
          | gt => simp [pathsIncrease, hcmp]

/-- What the merge checks of a result. -/
def Sorted (heap : Heap) (result : DiscoveryResult) : Prop :=
  StrictlySorted (heap.files result) ∧ ∀ file ∈ heap.files result, file.path ≠ []

theorem Owns.sortedUnique_iff (h : heap.Owns result) :
    discoveryResultIsSortedUnique heap result = true ↔ heap.Sorted result := by
  have hpaths : ¬ (result.count ≠ 0 ∧ result.paths = none) := by
    rintro ⟨hcount, hnone⟩
    refine hcount (h.count_eq_zero_iff.mpr ?_)
    simp [Heap.files, Heap.entries, hnone]
  have htexts : (heap.entries result).map heap.text =
      ((heap.files result).map CommonDiscoveredPath.path).map some := by
    rw [Heap.files, List.map_map, List.map_map]
    refine List.map_congr_left fun entry hmem => ?_
    obtain ⟨address, text, hpath, -, htext⟩ := h.live entry hmem
    simp [Heap.file, Heap.text, hpath, htext]
  have htrans : Trans (fun left right : Text => strcmp left right = .lt)
      (fun left right => strcmp left right = .lt) fun left right => strcmp left right = .lt :=
    ⟨Std.TransCmp.lt_trans⟩
  unfold discoveryResultIsSortedUnique Heap.Sorted
  rw [if_neg hpaths, htexts, pathsIncrease_iff, Option.toList_none, List.nil_append,
    List.isChain_iff_pairwise, List.pairwise_map]
  refine and_congr_right fun _ => ?_
  simp

end Heap

/-! ## The whole call -/

/-- The memory behind the two requests of the merge. -/
def Heap.bump (heap : Heap) (count : ℕ) : Heap := { heap with next := heap.next + count }

theorem Heap.extends_bump (heap : Heap) (count : ℕ) : heap.Extends (heap.bump count) :=
  ⟨fun _ _ => rfl, fun _ _ => rfl, Nat.le_add_right _ _⟩

theorem malloc_spec {answers : ℕ → Bool} {heap : Heap} :
    Triple answers (· = heap) malloc
      (fun copy heap' => copy = some heap.next ∧ heap' = heap.bump 1 ∨
        copy = none ∧ heap' = heap ∧ ∃ i, answers i = false)
      (fun _ _ => False) := by
  rintro _ n rfl
  unfold malloc
  cases hanswer : answers n with
  | true => exact Or.inl ⟨rfl, rfl⟩
  | false => exact Or.inr ⟨rfl, rfl, n, hanswer⟩

/-- A call on the memory of a state. -/
theorem onHeap_spec {α : Type} {answers : ℕ → Bool} {st : MergeState}
    {x : Call CommonPathDiscoveryStatus Heap α} {Q : α → MergeState → Prop}
    {E : CommonPathDiscoveryStatus → MergeState → Prop}
    (h : Triple answers (· = st.heap) x (fun a heap => Q a { st with heap := heap })
      fun e heap => E e { st with heap := heap }) :
    Triple answers (· = st) (onHeap x) Q E := by
  refine Triple.focus (T := fun _ heap => heap = st.heap) (fun _ _ => h) ?_ ?_ ?_
  · rintro _ rfl
    rfl
  · rintro _ a heap rfl hQ
    exact hQ
  · rintro _ e heap rfl hE
    exact hE

section Publish

variable {heap heap' : Heap} {destination addition : DiscoveryResult} {merged : ℕ}
  {written : List MergedEntry}

theorem entries_publishMerged :
    (publishMerged merged written ⟨heap', destination⟩).heap.entries
        (publishMerged merged written ⟨heap', destination⟩).destination =
      written.map (·.entry) := by
  simp [publishMerged, Heap.entries, Heap.storeArray]

theorem strings_publishMerged :
    (publishMerged merged written ⟨heap', destination⟩).heap.strings = heap'.strings := by
  unfold publishMerged Heap.freeArray
  cases destination.paths <;> rfl

theorem next_publishMerged :
    (publishMerged merged written ⟨heap', destination⟩).heap.next = heap'.next := by
  unfold publishMerged Heap.freeArray
  cases destination.paths <;> rfl

theorem arrays_publishMerged {address : ℕ} (hmerged : address ≠ merged)
    (hdestination : destination.paths ≠ some address) :
    (publishMerged merged written ⟨heap', destination⟩).heap.arrays address =
      heap'.arrays address := by
  unfold publishMerged Heap.storeArray Heap.freeArray
  cases hpaths : destination.paths with
  | none => exact Function.update_of_ne hmerged _ _
  | some freed =>
      have hne : address ≠ freed := by
        rintro rfl
        exact hdestination hpaths
      exact (Function.update_of_ne hmerged _ _).trans (Function.update_of_ne hne _ _)

theorem file_publishMerged :
    (publishMerged merged written ⟨heap', destination⟩).heap.file = heap'.file := by
  funext entry
  rw [Heap.file, Heap.file, Heap.text, Heap.text, strings_publishMerged]

theorem live_publishMerged {entry : PathEntry} :
    (publishMerged merged written ⟨heap', destination⟩).heap.Live entry ↔ heap'.Live entry := by
  rw [Heap.Live, Heap.Live, strings_publishMerged, next_publishMerged]

/-- The addition is not touched where the destination is published. -/
theorem entries_addition_publishMerged (heap' : Heap) (written : List MergedEntry)
    (hapart : heap.Apart destination addition) (hmerged : heap.next ≤ merged) :
    (publishMerged merged written ⟨heap', destination⟩).heap.entries addition =
      heap'.entries addition := by
  unfold Heap.entries
  cases hpaths : addition.paths with
  | none => rfl
  | some address =>
      have hlt := hapart.owns_addition.array address hpaths
      rw [Option.bind_some, Option.bind_some, arrays_publishMerged (by omega)]
      exact fun hsame => hapart.arrays address hsame hpaths

/-- **What is published** shares nothing with the addition. -/
theorem apart_publishMerged {base : Heap} (hapart : heap.Apart destination addition)
    (hbase : heap.Extends base) (hmerged : heap.next ≤ merged) (hlt : merged < base.next)
    (h : Merging base heap' (heap.entries destination) [] written) :
    (publishMerged merged written ⟨heap', destination⟩).heap.Apart
      (publishMerged merged written ⟨heap', destination⟩).destination addition := by
  have hextends := hbase.trans h.frame
  have haddition := hextends.owns hapart.owns_addition
  have hentries := entries_addition_publishMerged heap' written hapart hmerged
  have hdistinct := h.distinct
  rw [List.map_nil, List.append_nil] at hdistinct
  refine ⟨⟨?_, ?_, ?_, ?_⟩, ⟨?_, ?_, ?_, ?_⟩, ?_, ?_⟩
  · rw [entries_publishMerged, List.length_map]
    rfl
  · intro address hpaths
    obtain rfl : merged = address := Option.some_inj.mp hpaths
    rw [next_publishMerged]
    exact Nat.lt_of_lt_of_le hlt h.frame.next
  · intro entry hmem
    rw [entries_publishMerged] at hmem
    obtain ⟨m, hm, rfl⟩ := List.mem_map.mp hmem
    exact live_publishMerged.mpr (h.live m hm)
  · rw [entries_publishMerged, List.map_map]
    exact hdistinct
  · rw [hentries]
    exact haddition.count_eq
  · intro address hpaths
    rw [next_publishMerged]
    exact haddition.array address hpaths
  · intro entry hmem
    rw [hentries] at hmem
    exact live_publishMerged.mpr (haddition.live entry hmem)
  · rw [hentries]
    exact haddition.distinct
  · intro address hpaths hsame
    obtain rfl : merged = address := Option.some_inj.mp hpaths
    have := hapart.owns_addition.array merged hsame
    omega
  · -- Shared entries are the destination's, copies are new.
    rw [entries_publishMerged, hentries, hextends.entries hapart.owns_addition.array]
    rintro entry hmem a ha hsame
    obtain ⟨m, hm, rfl⟩ := List.mem_map.mp hmem
    cases hcopy : m.isCopy with
    | false =>
        obtain ⟨d, hd, hpath⟩ := List.mem_map.mp (h.shared m hm hcopy)
        exact hapart.strings d hd a ha (hpath.trans hsame)
    | true =>
        obtain ⟨address, _, hpath, haddress, -⟩ := hapart.owns_addition.live a ha
        have hle := h.copied m hm hcopy address (hsame.trans hpath)
        have := hbase.next
        omega

end Publish

/-- The destination holds the merge, and shares nothing with the addition. -/
structure MergedInto (heap : Heap) (destination addition : DiscoveryResult) (st : MergeState) :
    Prop where
  sorted_destination : heap.Sorted destination
  sorted_addition : heap.Sorted addition
  apart : st.heap.Apart st.destination addition
  files : st.heap.files st.destination = mergeFiles (heap.files destination) (heap.files addition)
  entries_addition : st.heap.entries addition = heap.entries addition
  files_addition : st.heap.files addition = heap.files addition

/-- What refuses a merge. -/
def MergeRefused (answers : ℕ → Bool) (heap : Heap) (destination addition : DiscoveryResult)
    (status : CommonPathDiscoveryStatus) : Prop :=
  status = .invalidArgument ∧ ¬ (heap.Sorted destination ∧ heap.Sorted addition) ∨
    status = .allocationFailed ∧
      ((∃ i, answers i = false) ∨ sizeMax <
        (mergeFiles (heap.files destination) (heap.files addition)).length * discoveredPathSize)

/-- The merge was refused, and nothing that was there has changed. -/
structure LeftAlone (answers : ℕ → Bool) (heap : Heap) (destination addition : DiscoveryResult)
    (status : CommonPathDiscoveryStatus) (st : MergeState) : Prop where
  destination_eq : st.destination = destination
  frame : heap.Extends st.heap
  refused : MergeRefused answers heap destination addition status

theorem LeftAlone.denied {answers : ℕ → Bool} {heap : Heap} {destination addition : DiscoveryResult}
    {st : MergeState} (hdestination : st.destination = destination)
    (hextends : heap.Extends st.heap) (hno : ∃ i, answers i = false) :
    LeftAlone answers heap destination addition .allocationFailed st :=
  ⟨hdestination, hextends, Or.inr ⟨rfl, Or.inl hno⟩⟩

theorem mergedPathCount_eq (heap : Heap) (destination addition : DiscoveryResult) :
    mergedPathCount heap (heap.entries destination) (heap.entries addition) =
      (mergeFiles (heap.files destination) (heap.files addition)).length := by
  rw [mergedPathCount, mergedPathCountFrom_eq, Nat.zero_add]
  rfl

/-- One request for an array, beside the destination. -/
theorem onHeap_malloc_spec {answers : ℕ → Bool} {st : MergeState} :
    Triple answers (· = st) (onHeap malloc)
      (fun copy st' => st'.destination = st.destination ∧
        (copy = some st.heap.next ∧ st'.heap = st.heap.bump 1 ∨
          copy = none ∧ st'.heap = st.heap ∧ ∃ i, answers i = false))
      fun _ _ => False :=
  onHeap_spec (malloc_spec.consequence (fun _ => id) (fun _ _ hmalloc => ⟨rfl, hmalloc⟩)
    fun _ _ => id)

theorem extends_of_malloc {copy : Option ℕ} {answers : ℕ → Bool} {heap heap' : Heap}
    (h : copy = some heap.next ∧ heap' = heap.bump 1 ∨
      copy = none ∧ heap' = heap ∧ ∃ i, answers i = false) : heap.Extends heap' := by
  rcases h with ⟨-, rfl⟩ | ⟨-, rfl, -⟩
  · exact heap.extends_bump 1
  · exact Heap.Extends.refl _

/-- The loop, behind both requests. -/
theorem mergeEntries_spec {answers : ℕ → Bool} {heap : Heap} {st : MergeState}
    {destination addition : DiscoveryResult} (hapart : heap.Apart destination addition)
    (hextends : heap.Extends st.heap) :
    Triple answers (· = st)
      (onHeap (mergeEntries (heap.entries destination) (heap.entries addition) []))
      (fun written later => later.destination = st.destination ∧
        Merging st.heap later.heap (heap.entries destination) [] written ∧
        written.map (fun m => later.heap.file m.entry) =
          mergeFiles (heap.files destination) (heap.files addition))
      fun status later => status = .allocationFailed ∧ later.destination = st.destination ∧
        heap.Extends later.heap ∧ ∃ i, answers i = false := by
  have hloop : Triple answers (· = st.heap)
      (mergeEntries (heap.entries destination) (heap.entries addition) [])
      (fun written later => Merging st.heap later (heap.entries destination) [] written ∧
        written.map (fun m => later.file m.entry) =
          mergeFiles (heap.files destination) (heap.files addition))
      fun status later => status = .allocationFailed ∧ (∃ i, answers i = false) ∧
        st.heap.Extends later := by
    rintro _ n rfl
    have hmerged := mergeEntries_merged answers (heap.entries destination) (heap.entries addition)
      [] st.heap n (Merging.start hapart.owns_destination.distinct)
      (fun entry hmem => hextends.live (hapart.owns_destination.live entry hmem))
      fun entry hmem => hextends.live (hapart.owns_addition.live entry hmem)
    rw [hextends.map_file hapart.owns_destination.live,
      hextends.map_file hapart.owns_addition.live] at hmerged
    exact hmerged
  refine onHeap_spec (hloop.consequence (fun _ => id) (fun _ _ hdone => ⟨rfl, hdone⟩) ?_)
  rintro _ later ⟨rfl, hno, hlater⟩
  exact ⟨rfl, rfl, hextends.trans hlater, hno⟩

/-- Where the merged array is published, the destination holds the merge. -/
theorem mergedInto_publishMerged {heap base later : Heap} {destination addition : DiscoveryResult}
    {written : List MergedEntry} (hapart : heap.Apart destination addition)
    (hsorted : heap.Sorted destination) (hsorted' : heap.Sorted addition)
    (hextends : heap.Extends base) (hnext : heap.next < base.next)
    (hmerging : Merging base later (heap.entries destination) [] written)
    (hfiles : written.map (fun m => later.file m.entry) =
      mergeFiles (heap.files destination) (heap.files addition)) :
    MergedInto heap destination addition (publishMerged heap.next written ⟨later, destination⟩) := by
  have hentries := entries_addition_publishMerged later written hapart le_rfl
  have hlater := hextends.trans hmerging.frame
  refine ⟨hsorted, hsorted', apart_publishMerged hapart hextends le_rfl hnext hmerging, ?_, ?_, ?_⟩
  · rw [Heap.files, entries_publishMerged, file_publishMerged, List.map_map]
    exact hfiles
  · rw [hentries, hlater.entries hapart.owns_addition.array]
  · rw [Heap.files, hentries, file_publishMerged]
    exact hlater.files hapart.owns_addition

/-- **The merge, or nothing.** -/
theorem commonPathDiscoveryResultMerge_spec {answers : ℕ → Bool} {heap : Heap}
    {destination addition : DiscoveryResult} (hapart : heap.Apart destination addition) :
    Triple answers (· = ⟨heap, destination⟩) (commonPathDiscoveryResultMerge addition)
      (fun _ => MergedInto heap destination addition)
      (LeftAlone answers heap destination addition) := by
  unfold commonPathDiscoveryResultMerge
  refine Triple.reading ?_
  dsimp only
  have hcheck : discoveryResultIsSortedUnique heap destination = true ∧
      discoveryResultIsSortedUnique heap addition = true ↔
        heap.Sorted destination ∧ heap.Sorted addition :=
    and_congr hapart.owns_destination.sortedUnique_iff hapart.owns_addition.sortedUnique_iff
  refine Triple.requiring
    (fun hnot => ⟨rfl, Heap.Extends.refl heap, Or.inl ⟨rfl, mt hcheck.mpr hnot⟩⟩) fun hsorted => ?_
  obtain ⟨hsorted, hsorted'⟩ := hcheck.mp hsorted
  by_cases hcount : addition.count = 0
  · rw [if_pos hcount]
    refine Triple.pure fun _ hs => ?_
    rw [hs]
    have hempty := hapart.owns_addition.count_eq_zero_iff.mp hcount
    exact ⟨hsorted, hsorted', hapart, by rw [hempty, mergeFiles_nil_right], rfl, rfl⟩
  rw [if_neg hcount]
  -- The pointers differ, so this check passes.
  refine Triple.requiring (fun hsame => ?_) fun _ => ?_
  · obtain ⟨hne, hsame⟩ := not_not.mp hsame
    obtain ⟨address, hpaths⟩ := Option.ne_none_iff_exists'.mp hne
    exact absurd (hsame.symm.trans hpaths) (hapart.arrays address hpaths)
  rw [mergedPathCount_eq]
  refine Triple.requiring
    (fun hlarge => ⟨rfl, Heap.Extends.refl heap, Or.inr ⟨rfl, Or.inr ?_⟩⟩) fun _ => ?_
  · rw [discoveredPathSize] at hlarge ⊢
    omega
  refine Triple.bind (onHeap_malloc_spec.consequence (fun _ => id) (fun _ _ => id)
    fun _ _ => False.elim) fun merged => ?_
  refine Triple.each fun st hst => ?_
  obtain ⟨hdestination, hfirst⟩ := hst
  refine Triple.bind (onHeap_malloc_spec.consequence (fun _ => id) (fun _ _ => id)
    fun _ _ => False.elim) fun copies => ?_
  refine Triple.each fun st' hst' => ?_
  obtain ⟨hdestination', hsecond⟩ := hst'
  have hkept : st'.destination = destination := hdestination'.trans hdestination
  have hextends : heap.Extends st'.heap :=
    (extends_of_malloc hfirst).trans (extends_of_malloc hsecond)
  -- Without both arrays the call ends here.
  rcases hfirst with ⟨rfl, hheap⟩ | ⟨rfl, -, hno⟩
  swap
  · exact Triple.fail fun _ hs => hs ▸ LeftAlone.denied hkept hextends hno
  rcases hsecond with ⟨rfl, hheap'⟩ | ⟨rfl, -, hno⟩
  swap
  · exact Triple.fail fun _ hs => hs ▸ LeftAlone.denied hkept hextends hno
  have hnext : heap.next < st'.heap.next := by
    rw [hheap', hheap, Heap.bump, Heap.bump]
    dsimp only
    omega
  refine Triple.bind ((mergeEntries_spec hapart hextends).consequence (fun _ => id)
    (fun _ _ => id) ?_) fun written => Triple.modify ?_
  · rintro _ later ⟨rfl, hlater, hframe, hno⟩
    exact LeftAlone.denied (hlater.trans hkept) hframe hno
  · rintro ⟨later, _⟩ ⟨rfl, hmerging, hfiles⟩
    rw [hkept]
    exact mergedInto_publishMerged hapart hsorted hsorted' hextends hnext hmerging hfiles

/-! ## The represented maps -/

/-- Which paths there are, and which were given explicitly. -/
def represented (files : List CommonDiscoveredPath) (path : Text) : Option Bool :=
  (SortedAssoc.find? strcmp CommonDiscoveredPath.path files path).map (·.explicitFile)

/-- The union, explicit where either is. -/
def unionFlags (left right : Text → Option Bool) (path : Text) : Option Bool :=
  Option.merge (· || ·) (left path) (right path)

theorem represented_mergeFiles {left right : List CommonDiscoveredPath}
    (hleft : StrictlySorted left) (hright : StrictlySorted right) :
    represented (mergeFiles left right) = unionFlags (represented left) (represented right) := by
  funext path
  simp only [unionFlags, represented, mergeFiles,
    SortedAssoc.find?_merge joinFlags_path hleft hright]
  generalize SortedAssoc.find? strcmp CommonDiscoveredPath.path left path = l
  generalize SortedAssoc.find? strcmp CommonDiscoveredPath.path right path = r
  cases l <;> cases r <;> rfl

/-- A strictly sorted list is its map. -/
theorem represented_injective {left right : List CommonDiscoveredPath}
    (hleft : StrictlySorted left) (hright : StrictlySorted right)
    (h : represented left = represented right) : left = right := by
  refine hleft.ext_find? hright fun path => ?_
  have hpath := congrFun h path
  unfold represented at hpath
  cases hl : SortedAssoc.find? strcmp CommonDiscoveredPath.path left path with
  | none =>
      rw [hl, Option.map_none] at hpath
      exact (Option.map_eq_none_iff.mp hpath.symm).symm
  | some file =>
      rw [hl, Option.map_some] at hpath
      obtain ⟨file', hr, hflag⟩ := Option.map_eq_some_iff.mp hpath.symm
      obtain ⟨-, hk⟩ := (SortedAssoc.find?_eq_some_iff hleft).mp hl
      obtain ⟨-, hk'⟩ := (SortedAssoc.find?_eq_some_iff hright).mp hr
      rw [hr]
      obtain ⟨text, explicitFile⟩ := file
      obtain ⟨text', explicitFile'⟩ := file'
      subst hk hk' hflag
      rfl

theorem unionFlags_comm (left right : Text → Option Bool) :
    unionFlags left right = unionFlags right left := by
  funext path
  unfold unionFlags
  cases left path <;> cases right path <;> simp [Bool.or_comm]

theorem unionFlags_assoc (first second third : Text → Option Bool) :
    unionFlags (unionFlags first second) third = unionFlags first (unionFlags second third) := by
  funext path
  unfold unionFlags
  cases first path <;> cases second path <;> cases third path <;> simp [Bool.or_assoc]

theorem unionFlags_self (flags : Text → Option Bool) : unionFlags flags flags = flags := by
  funext path
  unfold unionFlags
  cases flags path <;> simp

/-- **A merge is the union, or leaves everything.** On success the destination is the
strictly sorted list of the union, as long as was counted beforehand; on failure,
whatever request was denied, both results are as they were. Sorted results that fit
and are granted memory do merge, and the union is commutative, associative and
idempotent. -/
theorem commonPathDiscoveryResultMerge_union {heap : Heap} {destination addition : DiscoveryResult}
    (hapart : heap.Apart destination addition) (answers : ℕ → Bool) (n : ℕ) :
    (∀ st n', commonPathDiscoveryResultMerge addition answers ⟨heap, destination⟩ n = .ok () st n' →
      StrictlySorted (st.heap.files st.destination) ∧
      represented (st.heap.files st.destination) =
        unionFlags (represented (heap.files destination)) (represented (heap.files addition)) ∧
      st.destination.count =
        mergedPathCount heap (heap.entries destination) (heap.entries addition) ∧
      st.heap.entries addition = heap.entries addition ∧
      st.heap.files addition = heap.files addition ∧
      st.heap.Apart st.destination addition) ∧
    (∀ status st n',
      commonPathDiscoveryResultMerge addition answers ⟨heap, destination⟩ n = .error status st n' →
      st.destination = destination ∧
      st.heap.entries destination = heap.entries destination ∧
      st.heap.files destination = heap.files destination ∧
      st.heap.entries addition = heap.entries addition ∧
      st.heap.files addition = heap.files addition ∧
      st.heap.Apart destination addition) ∧
    (heap.Sorted destination → heap.Sorted addition →
      mergedPathCount heap (heap.entries destination) (heap.entries addition) *
        discoveredPathSize ≤ sizeMax →
      (∀ i, answers i = true) → ∃ st n',
        commonPathDiscoveryResultMerge addition answers ⟨heap, destination⟩ n = .ok () st n') ∧
    (∀ left right, unionFlags left right = unionFlags right left) ∧
    (∀ first second third,
      unionFlags (unionFlags first second) third = unionFlags first (unionFlags second third)) ∧
    (∀ flags, unionFlags flags flags = flags) ∧
    ∀ left right, StrictlySorted left → StrictlySorted right →
      represented left = represented right → left = right := by
  have hspec := @commonPathDiscoveryResultMerge_spec answers heap destination addition hapart
  refine ⟨fun st n' hok => ?_, fun status st n' herr => ?_, fun hsorted hsorted' hfits hall => ?_,
    unionFlags_comm, unionFlags_assoc, unionFlags_self, fun _ _ => represented_injective⟩
  · have h := hspec.of_ok rfl hok
    have hsorted : StrictlySorted (st.heap.files st.destination) := by
      rw [h.files]
      exact h.sorted_destination.1.merge joinFlags_path h.sorted_addition.1
    refine ⟨hsorted, ?_, ?_, h.entries_addition, h.files_addition, h.apart⟩
    · rw [h.files, represented_mergeFiles h.sorted_destination.1 h.sorted_addition.1]
    · rw [mergedPathCount_eq, ← h.files, ← h.apart.owns_destination.count_eq, Heap.files,
        List.length_map]
  · have h := hspec.of_error rfl herr
    exact ⟨h.destination_eq, h.frame.entries hapart.owns_destination.array,
      h.frame.files hapart.owns_destination, h.frame.entries hapart.owns_addition.array,
      h.frame.files hapart.owns_addition, h.frame.apart hapart⟩
  · cases hresult : commonPathDiscoveryResultMerge addition answers ⟨heap, destination⟩ n with
    | ok _ st n' => exact ⟨st, n', rfl⟩
    | error status st n' =>
        rcases (hspec.of_error rfl hresult).refused with ⟨-, hnot⟩ | ⟨-, ⟨i, hno⟩ | hlarge⟩
        · exact absurd ⟨hsorted, hsorted'⟩ hnot
        · rw [hall i] at hno
          cases hno
        · rw [← mergedPathCount_eq] at hlarge
          omega

/-- Two results of two files each, with the file `b` in both. -/
def pairHeap : Heap where
  strings address := [some (ascii "a"), some (ascii "b"), some (ascii "b"), some (ascii "c")].getD
    address none
  arrays address := [none, none, none, none, some [⟨some 0, true⟩, ⟨some 1, false⟩],
    some [⟨some 2, true⟩, ⟨some 3, false⟩]].getD address none
  next := 6

theorem pairHeap_live {address : ℕ} (h : address < 4) (explicitFile : Bool) :
    pairHeap.Live ⟨some address, explicitFile⟩ := by
  match address, h with
  | 0, _ | 1, _ | 2, _ | 3, _ => exact ⟨_, _, rfl, by decide, rfl⟩

theorem pairHeap_owns {result : DiscoveryResult} (h : result ∈ [⟨some 4, 2⟩, ⟨some 5, 2⟩]) :
    pairHeap.Owns result := by
  have hlive : ∀ address, address + 1 < 4 →
      ∀ entry ∈ [PathEntry.mk (some address) true, ⟨some (address + 1), false⟩],
        pairHeap.Live entry := fun address haddress =>
    List.forall_mem_cons.mpr ⟨pairHeap_live (Nat.lt_of_succ_lt haddress) true,
      List.forall_mem_singleton.mpr (pairHeap_live haddress false)⟩
  rcases List.mem_pair.mp h with rfl | rfl
  · exact ⟨rfl, fun _ hpaths => by cases hpaths; decide, hlive 0 (by decide), by decide⟩
  · exact ⟨rfl, fun _ hpaths => by cases hpaths; decide, hlive 2 (by decide), by decide⟩

theorem pairHeap_apart : pairHeap.Apart ⟨some 4, 2⟩ ⟨some 5, 2⟩ where
  owns_destination := pairHeap_owns (by simp)
  owns_addition := pairHeap_owns (by simp)
  arrays := by
    rintro _ ⟨⟩
    decide
  strings := by decide

theorem commonPathDiscoveryResultMerge_pair :
    ∃ st n', commonPathDiscoveryResultMerge ⟨some 5, 2⟩ granted ⟨pairHeap, ⟨some 4, 2⟩⟩ 0 =
        .ok () st n' ∧
      st.heap.files st.destination =
        [⟨ascii "a", true⟩, ⟨ascii "b", true⟩, ⟨ascii "c", false⟩] := by
  have hmerge := commonPathDiscoveryResultMerge_union pairHeap_apart granted 0
  have hsorted : pairHeap.Sorted ⟨some 4, 2⟩ := ⟨by decide, by decide⟩
  have hsorted' : pairHeap.Sorted ⟨some 5, 2⟩ := ⟨by decide, by decide⟩
  have hmerged : mergeFiles (pairHeap.files ⟨some 4, 2⟩) (pairHeap.files ⟨some 5, 2⟩) =
      [⟨ascii "a", true⟩, ⟨ascii "b", true⟩, ⟨ascii "c", false⟩] := by decide +kernel
  obtain ⟨st, n', hrun⟩ := hmerge.2.2.1 hsorted hsorted'
    (by rw [mergedPathCount_eq, hmerged]; decide) fun _ => rfl
  obtain ⟨hunion, hrepresented, -⟩ := hmerge.1 st n' hrun
  rw [← represented_mergeFiles hsorted.1 hsorted'.1, hmerged] at hrepresented
  exact ⟨st, n', hrun, represented_injective hunion (by decide) hrepresented⟩

end UnityCommon.PathDiscovery
