import UnityCommon.Common.PathMerge
import UnityCommon.Lib.Attempts
import UnityCommon.Lib.Upsert

/-!
# The path index over whole sequences of calls

Calls of `add_file` on a builder, or of `queue_directory` on a queue, each made
whatever the ones before reported. Behind any of them the table is what a linear
search makes of the calls that returned: the paths in the order in which they came
first, a file explicit where some call said so, a directory at the least of its
depths.
-/

namespace UnityCommon.PathDiscovery

open UnityCommon.Common Call Upsert

/-! ## The index as a search -/

/-- Every lookup is a search of the paths, and no more than half of a power of two of
slots are used. -/
structure ExactPathIndex.Agrees (index : ExactPathIndex) (paths : List Text) : Prop where
  power : index.slots = [] ∧ paths = [] ∨ ∃ bits, index.capacity = 2 ^ bits
  half : 2 * index.slots.countP (· ≠ 0) ≤ index.capacity
  find : ∀ path entry, exactPathIndexFind index paths path = some entry ↔
    paths[entry]? = some path
  distinct : paths.Nodup

theorem ExactPathIndex.Sound.agrees {index : ExactPathIndex} {paths : List Text}
    (h : index.Sound paths) : index.Agrees paths := by
  refine ⟨?_, ?_, fun _ _ => h.find_eq_some_iff, h.nodup⟩
  · rcases h.power with hzero | ⟨bits, hbits⟩
    · have hhalf := h.half
      rw [hzero] at hhalf
      exact Or.inl ⟨List.length_eq_zero_iff.mp hzero, List.length_eq_zero_iff.mp (by omega)⟩
    · exact Or.inr ⟨bits + 4, hbits⟩
  · -- A slot is used by one path.
    have hused := h.indexed.used
    have hsplit := List.length_eq_countP_add_countP (· ≠ (0 : ℕ)) (l := index.slots)
    have hempty : index.slots.countP (fun slot => ¬ decide (slot ≠ 0) = true) =
        index.slots.count 0 := by
      refine List.countP_congr fun slot _ => ?_
      simp
    have hhalf := h.half
    omega

/-- **Growth keeps the agreement, and makes room.** -/
theorem ExactPathIndex.Sound.reserved {index index' : ExactPathIndex} {paths : List Text}
    (h : index.Sound paths) {needed : ℕ} (hneeded : paths.length < needed) {answers : ℕ → Bool}
    {m m' : ℕ} (hok : exactPathIndexReserve needed paths answers index m = .ok () index' m') :
    index'.Agrees paths ∧ ∀ path, ∃ index'',
      exactPathIndexInsert index' path paths.length = some index'' ∧
        (path ∉ paths → index''.Agrees (paths ++ [path])) := by
  obtain ⟨hindex, hroom⟩ := (exactPathIndexReserve_spec h hneeded.le).of_ok rfl hok
  refine ⟨hindex.agrees, fun path => ?_⟩
  by_cases hnew : path ∉ paths
  · obtain ⟨index'', hinsert, -, hafter⟩ := hindex.insert hnew (by omega)
    exact ⟨index'', hinsert, fun _ => hafter.agrees⟩
  · -- A second slot for the path would be found too.
    have hcapacity : index'.capacity ≠ 0 := by omega
    obtain ⟨slots, hinsert, -⟩ := hindex.indexed.insert (hindex.addressing hcapacity)
      (by unfold capacity at hroom; omega) path
    refine ⟨⟨slots⟩, ?_, fun hnot => absurd hnot hnew⟩
    rw [exactPathIndexInsert, if_neg hcapacity]
    exact Option.map_eq_some_iff.mpr ⟨slots, hinsert, rfl⟩

/-! ## The calls -/

structure FileCall where
  path : Text
  explicitFile : Bool
  maxFiles : ℕ
deriving DecidableEq, Repr

def FileCall.add (call : FileCall) : Call CommonPathDiscoveryStatus PathBuilder Unit :=
  addFile call.path call.explicitFile call.maxFiles

def FileCall.file (call : FileCall) : CommonDiscoveredPath := ⟨call.path, call.explicitFile⟩

structure DirectoryCall where
  path : Text
  depth : ℕ
  maxDirectories : ℕ
  maxDepth : ℕ
deriving DecidableEq, Repr

def DirectoryCall.queue (call : DirectoryCall) :
    Call CommonPathDiscoveryStatus (PathTable QueuedDirectory) Unit :=
  queueDirectory call.path call.depth call.maxDirectories call.maxDepth

def DirectoryCall.directory (call : DirectoryCall) : QueuedDirectory := ⟨call.path, call.depth⟩

def lowerDepth (old directory : QueuedDirectory) : QueuedDirectory :=
  if directory.depth < old.depth then { old with depth := directory.depth } else old

theorem lowerDepth_path (old directory : QueuedDirectory) :
    (lowerDepth old directory).path = old.path := by
  unfold lowerDepth
  split <;> rfl

theorem lowerDepth_depth (old directory : QueuedDirectory) :
    (lowerDepth old directory).depth = min old.depth directory.depth := by
  unfold lowerDepth
  split
  · rename_i hlt
    exact (Nat.min_eq_right hlt.le).symm
  · rename_i hle
    exact (Nat.min_eq_left (Nat.le_of_not_lt hle)).symm

/-- A linear search joins a file to the one with its path. -/
theorem recordFile_eq_upsert (call : FileCall) (files : List CommonDiscoveredPath) :
    recordFile call.path call.explicitFile files =
      upsert CommonDiscoveredPath.path joinFlags files call.file := by
  unfold recordFile upsert
  by_cases hmem : call.file.path ∈ files.map CommonDiscoveredPath.path
  · exact (if_pos hmem).trans (if_pos hmem).symm
  · exact (if_neg hmem).trans (if_neg hmem).symm

theorem recordDirectory_eq_upsert (call : DirectoryCall) (entries : List QueuedDirectory) :
    recordDirectory call.path call.depth entries =
      upsert QueuedDirectory.path lowerDepth entries call.directory := by
  unfold recordDirectory upsert
  by_cases hmem : call.directory.path ∈ entries.map QueuedDirectory.path
  · exact (if_pos hmem).trans (if_pos hmem).symm
  · exact (if_neg hmem).trans (if_neg hmem).symm

/-! ## Whole sequences -/

section Runs

variable {α β : Type} {pathOf : α → Text} {join : α → α → α} {arrival : β → α}
  {f : β → Call CommonPathDiscoveryStatus (PathTable α) Unit} {answers : ℕ → Bool}

/-- The call joins its arrival as a linear search does, or leaves the entries alone. -/
def Joins (pathOf : α → Text) (join : α → α → α) (arrival : β → α)
    (f : β → Call CommonPathDiscoveryStatus (PathTable α) Unit) : Prop :=
  ∀ (answers : ℕ → Bool) (table : PathTable α), table.Sound pathOf → ∀ call,
    Triple answers (· = table) (f call)
      (fun _ t => t.Sound pathOf ∧ t.entries = upsert pathOf join table.entries (arrival call))
      fun _ t => t.Sound pathOf ∧ t.entries = table.entries

theorem joins_add : Joins CommonDiscoveredPath.path joinFlags FileCall.file FileCall.add :=
  fun _ _ h call => (addFile_spec h call.path call.explicitFile call.maxFiles).consequence
    (fun _ => id) (fun _ _ hok => ⟨hok.1, hok.2.1.trans (recordFile_eq_upsert call _)⟩)
    fun _ _ herr => ⟨herr.1, herr.2.1⟩

theorem joins_queue :
    Joins QueuedDirectory.path lowerDepth DirectoryCall.directory DirectoryCall.queue :=
  fun _ _ h call =>
    (queueDirectory_spec h call.path call.depth call.maxDirectories call.maxDepth).consequence
      (fun _ => id) (fun _ _ hok => ⟨hok.1, hok.2.1.trans (recordDirectory_eq_upsert call _)⟩)
      fun _ _ herr => ⟨herr.1, herr.2.1⟩

/-- **The table is sound, and the entries are those of the calls that returned.** -/
theorem Joins.sound_and_entries (h : Joins pathOf join arrival f) (answers : ℕ → Bool) (calls : List β)
    (n : ℕ) :
    (attemptAll f answers calls ⟨[], 0, ⟨[]⟩⟩ n).state.Sound pathOf ∧
      (attemptAll f answers calls ⟨[], 0, ⟨[]⟩⟩ n).state.entries =
        upsertAll pathOf join
          ((attemptAll f answers calls ⟨[], 0, ⟨[]⟩⟩ n).accepted.map arrival) := by
  refine attemptAll_invariant
    (I := fun accepted (table : PathTable α) => table.Sound pathOf ∧
      table.entries = upsertAll pathOf join (accepted.map arrival))
    ⟨PathTable.Sound.empty, rfl⟩ (fun accepted call => Triple.each fun table htable => ?_) calls n
  obtain ⟨hsound, hentries⟩ := htable
  refine (h answers table hsound call).consequence (fun _ => id) ?_ ?_
  · rintro _ t ⟨ht, hjoined⟩
    refine ⟨ht, ?_⟩
    rw [hjoined, hentries, List.map_append, List.map_singleton, upsertAll_concat]
  · rintro _ t ⟨ht, hkept⟩
    exact ⟨ht, hkept.trans hentries⟩

/-- What is promised of a table behind calls whose accepted paths are `paths`. -/
structure PathTable.Searches (pathOf : α → Text)
    (f : β → Call CommonPathDiscoveryStatus (PathTable α) Unit) (table : PathTable α)
    (paths : List Text) : Prop where
  agrees : table.index.Agrees (table.texts pathOf)
  order : table.texts pathOf = paths.eraseDups
  reserved : ∀ needed index' answers m m', table.entries.length < needed →
    exactPathIndexReserve needed (table.texts pathOf) answers table.index m = .ok () index' m' →
      index'.Agrees (table.texts pathOf) ∧ ∀ path, ∃ index'',
        exactPathIndexInsert index' path table.entries.length = some index'' ∧
          (path ∉ table.texts pathOf → index''.Agrees (table.texts pathOf ++ [path]))
  unchanged : ∀ call answers m e table' m', f call answers table m = .error e table' m' →
    table'.entries = table.entries ∧ table'.index.Agrees (table.texts pathOf)

theorem PathTable.Sound.reserved {table : PathTable α} (h : table.Sound pathOf) {needed : ℕ}
    (hneeded : table.entries.length < needed) {index' : ExactPathIndex} {m m' : ℕ}
    (hok : exactPathIndexReserve needed (table.texts pathOf) answers table.index m =
      .ok () index' m') :
    index'.Agrees (table.texts pathOf) ∧ ∀ path, ∃ index'',
      exactPathIndexInsert index' path table.entries.length = some index'' ∧
        (path ∉ table.texts pathOf → index''.Agrees (table.texts pathOf ++ [path])) := by
  have hlength : (table.texts pathOf).length = table.entries.length := PathTable.length_texts
  rw [← hlength] at hneeded ⊢
  exact h.index.reserved hneeded hok

theorem Joins.searches (h : Joins pathOf join arrival f)
    (hjoin : ∀ old entry, pathOf (join old entry) = pathOf old) (answers : ℕ → Bool)
    (calls : List β) (n : ℕ) :
    (attemptAll f answers calls ⟨[], 0, ⟨[]⟩⟩ n).state.Searches pathOf f
      ((attemptAll f answers calls ⟨[], 0, ⟨[]⟩⟩ n).accepted.map fun call =>
        pathOf (arrival call)) := by
  obtain ⟨hsound, hentries⟩ := h.sound_and_entries answers calls n
  refine ⟨hsound.index.agrees, ?_, ?_, ?_⟩
  · rw [PathTable.texts, hentries, map_key_upsertAll hjoin, List.map_map]
    rfl
  · intro needed index' answers' m m' hneeded hok
    exact hsound.reserved hneeded hok
  · intro call answers' m e table' m' herr
    obtain ⟨ht, hkept⟩ := (h answers' _ hsound call).of_error rfl herr
    have hagrees := ht.index.agrees
    rw [PathTable.texts, hkept] at hagrees
    exact ⟨hkept, hagrees⟩

/-- An entry joins all that was accepted with its path. -/
theorem Joins.joined (h : Joins pathOf join arrival f)
    (hjoin : ∀ old entry, pathOf (join old entry) = pathOf old) (calls : List β) (n : ℕ)
    {entry : α}
    (hmem : entry ∈ (attemptAll f answers calls ⟨[], 0, ⟨[]⟩⟩ n).state.entries) :
    ∃ first rest, ((attemptAll f answers calls ⟨[], 0, ⟨[]⟩⟩ n).accepted.map arrival).filter
        (fun e => pathOf e = pathOf entry) = first :: rest ∧ rest.foldl join first = entry := by
  rw [(h.sound_and_entries answers calls n).2] at hmem
  have hjoined := joined_of_mem hjoin hmem
  unfold Upsert.joined at hjoined
  split at hjoined
  · cases hjoined
  · rename_i first rest hfilter
    exact ⟨first, rest, hfilter, Option.some_inj.mp hjoined⟩

end Runs

theorem explicitFile_foldl (rest : List CommonDiscoveredPath) (first : CommonDiscoveredPath) :
    (rest.foldl joinFlags first).explicitFile =
      (first :: rest).any CommonDiscoveredPath.explicitFile := by
  induction rest generalizing first with
  | nil => simp
  | cons file rest ih =>
      rw [List.foldl_cons, ih]
      simp [joinFlags, Bool.or_assoc]

/-- The depth is that of some directory, and none is less deep. -/
theorem depth_foldl (rest : List QueuedDirectory) (first : QueuedDirectory) :
    (∃ directory ∈ first :: rest, (rest.foldl lowerDepth first).depth = directory.depth) ∧
      ∀ directory ∈ first :: rest, (rest.foldl lowerDepth first).depth ≤ directory.depth := by
  induction rest generalizing first with
  | nil => simp
  | cons second rest ih =>
      rw [List.foldl_cons]
      obtain ⟨⟨directory, hmem, hdepth⟩, hleast⟩ := ih (lowerDepth first second)
      have hmin := lowerDepth_depth first second
      refine ⟨?_, fun other hother => ?_⟩
      · rcases List.mem_cons.mp hmem with rfl | hmem
        · rw [hdepth, hmin]
          rcases Nat.le_total first.depth second.depth with hle | hle
          · exact ⟨first, by simp, Nat.min_eq_left hle⟩
          · exact ⟨second, by simp, Nat.min_eq_right hle⟩
        · exact ⟨directory, by simp [hmem], hdepth⟩
      · have hfirst := hleast _ List.mem_cons_self
        rw [hmin] at hfirst
        rcases List.mem_cons.mp hother with rfl | hother
        · omega
        rcases List.mem_cons.mp hother with rfl | hother
        · omega
        · exact hleast other (List.mem_cons_of_mem _ hother)

/-- **The index is a linear search.** Behind any calls on an empty builder, or on an
empty queue, whatever requests were denied: each lookup is a search of the stored
paths, in a table that is absent or a power of two of slots with no more than half of
them used; the paths are those of the calls that returned, in the order in which they
came first, explicit where some such call was and at the least depth. Another call
that fails leaves the entries, and what a reserve returns takes a path more. -/
theorem exactPathIndex_linearSearch (answers : ℕ → Bool) (n : ℕ) :
    (∀ calls : List FileCall,
      let run := attemptAll FileCall.add answers calls ⟨[], 0, ⟨[]⟩⟩ n
      run.history.map Prod.fst = calls ∧
      run.state.Searches CommonDiscoveredPath.path FileCall.add (run.accepted.map FileCall.path) ∧
      ∀ file ∈ run.state.entries, file.explicitFile =
        run.accepted.any fun call => call.path = file.path && call.explicitFile) ∧
    ∀ calls : List DirectoryCall,
      let run := attemptAll DirectoryCall.queue answers calls ⟨[], 0, ⟨[]⟩⟩ n
      run.history.map Prod.fst = calls ∧
      run.state.Searches QueuedDirectory.path DirectoryCall.queue
        (run.accepted.map DirectoryCall.path) ∧
      ∀ directory ∈ run.state.entries,
        (∃ call ∈ run.accepted, call.path = directory.path ∧ call.depth = directory.depth) ∧
        ∀ call ∈ run.accepted, call.path = directory.path → directory.depth ≤ call.depth := by
  refine ⟨fun calls => ⟨history_attemptAll calls,
      joins_add.searches (fun _ _ => rfl) answers calls n, fun file hmem => ?_⟩,
    fun calls => ⟨history_attemptAll calls,
      joins_queue.searches lowerDepth_path answers calls n, fun directory hmem => ?_⟩⟩
  · obtain ⟨first, rest, hfilter, hfold⟩ := joins_add.joined (fun _ _ => rfl) calls n hmem
    conv_lhs => rw [← hfold]
    rw [explicitFile_foldl, ← hfilter, List.any_filter, List.any_map]
    rfl
  · obtain ⟨first, rest, hfilter, hfold⟩ := joins_queue.joined lowerDepth_path calls n hmem
    obtain ⟨⟨deepest, hdeepest, hdepth⟩, hleast⟩ := depth_foldl rest first
    rw [← hfilter] at hdeepest hleast
    rw [hfold] at hdepth hleast
    refine ⟨?_, fun call hcall hpath => ?_⟩
    · obtain ⟨hmem', hpath⟩ := List.mem_filter.mp hdeepest
      obtain ⟨call, hcall, rfl⟩ := List.mem_map.mp hmem'
      exact ⟨call, hcall, of_decide_eq_true hpath, hdepth.symm⟩
    · exact hleast call.directory
        (List.mem_filter.mpr ⟨List.mem_map_of_mem hcall, decide_eq_true hpath⟩)

/-- The flag of a call that failed is not recorded, and before a path is stored there
is no table. -/
theorem addFile_denied_flag :
    (¬ ∀ (answers : ℕ → Bool) (calls : List FileCall) (n : ℕ),
      let run := attemptAll FileCall.add answers calls ⟨[], 0, ⟨[]⟩⟩ n
      ∀ file ∈ run.state.entries, file.explicitFile =
        calls.any fun call => call.path = file.path && call.explicitFile) ∧
    ¬ ∀ (answers : ℕ → Bool) (calls : List FileCall) (n : ℕ),
      let run := attemptAll FileCall.add answers calls ⟨[], 0, ⟨[]⟩⟩ n
      ∃ bits, run.state.index.capacity = 2 ^ bits := by
  constructor
  · intro h
    have hflag := h (fun i => i ≠ 0) [⟨ascii "a", true, 0⟩, ⟨ascii "a", false, 0⟩] 0
      ⟨ascii "a", false⟩ (by decide)
    cases hflag
  · intro h
    obtain ⟨bits, hbits⟩ := h granted [] 0
    have hpos := Nat.two_pow_pos bits
    rw [← hbits] at hpos
    cases hpos

end UnityCommon.PathDiscovery
