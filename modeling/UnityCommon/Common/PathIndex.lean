import UnityCommon.Common.PathDiscovery

/-!
# The path index is a search of the stored paths

Whatever the allocator answers, a table keeps a power of two of slots, no more
than half of them used, and the probing invariant over distinct paths. A call on
the files or on the queue then does to its entries what a linear search does, or
fails and leaves them as they were.
-/

namespace UnityCommon.PathDiscovery

open UnityCommon.Common Call

/-! ## The index -/

structure ExactPathIndex.Sound (index : ExactPathIndex) (paths : List Text) : Prop where
  power : index.capacity = 0 ∨ ∃ bits, index.capacity = 2 ^ (bits + 4)
  half : 2 * paths.length ≤ index.capacity
  indexed : ProbeTable.Indexed (homeSlot index.capacity) index.slots paths
  nodup : paths.Nodup

theorem addressing {capacity : ℕ} (hpower : ∃ bits, capacity = 2 ^ (bits + 4)) :
    ProbeTable.Addressing (nextSlot capacity) (homeSlot capacity) capacity := by
  obtain ⟨bits, rfl⟩ := hpower
  refine ⟨fun path => ?_, fun slot _ => ?_⟩
  · rw [homeSlot, Nat.and_two_pow_sub_one_eq_mod]
    exact Nat.mod_lt _ (Nat.two_pow_pos _)
  · rw [nextSlot, Nat.and_two_pow_sub_one_eq_mod]

namespace ExactPathIndex.Sound

variable {index : ExactPathIndex} {paths : List Text} {path : Text}

theorem empty : ExactPathIndex.Sound ⟨[]⟩ [] :=
  ⟨Or.inl rfl, le_rfl, ProbeTable.Indexed.empty _ 0, List.nodup_nil⟩

theorem addressing (h : index.Sound paths) (hcapacity : index.capacity ≠ 0) :
    ProbeTable.Addressing (nextSlot index.capacity) (homeSlot index.capacity)
      index.slots.length :=
  PathDiscovery.addressing (h.power.resolve_left hcapacity)

/-- **A lookup is a linear search.** -/
theorem find_eq_some_iff (h : index.Sound paths) {entry : ℕ} :
    exactPathIndexFind index paths path = some entry ↔ paths[entry]? = some path := by
  unfold exactPathIndexFind
  by_cases hcapacity : index.capacity = 0
  · have hhalf := h.half
    rw [hcapacity] at hhalf
    obtain rfl := List.length_eq_zero_iff.mp (by omega : paths.length = 0)
    simp [hcapacity]
  · rw [if_neg hcapacity]
    exact ProbeTable.findFrom_eq_some_iff (h.addressing hcapacity) h.indexed h.nodup

theorem find_eq_none_iff (h : index.Sound paths) :
    exactPathIndexFind index paths path = none ↔ path ∉ paths := by
  rw [Option.eq_none_iff_forall_ne_some, List.mem_iff_getElem?, not_exists]
  exact forall_congr' fun entry => not_congr h.find_eq_some_iff

/-- **An insertion after a successful reserve does not fail.** -/
theorem insert (h : index.Sound paths) (hnew : path ∉ paths)
    (hroom : 2 * (paths.length + 1) ≤ index.capacity) :
    ∃ index', exactPathIndexInsert index path paths.length = some index' ∧
      index'.capacity = index.capacity ∧ index'.Sound (paths ++ [path]) := by
  have hcapacity : index.capacity ≠ 0 := by omega
  obtain ⟨slots, hinsert, hlength, hindexed⟩ :=
    h.indexed.insert (h.addressing hcapacity) (by unfold capacity at hroom; omega) path
  refine ⟨⟨slots⟩, ?_, hlength, ?_⟩
  · rw [exactPathIndexInsert, if_neg hcapacity]
    exact Option.map_eq_some_iff.mpr ⟨slots, hinsert, rfl⟩
  · have hcap : (⟨slots⟩ : ExactPathIndex).capacity = index.capacity := hlength
    refine ⟨hcap ▸ h.power, ?_, hcap ▸ hindexed, ?_⟩
    · rw [hcap, List.length_append, List.length_singleton]
      exact hroom
    · rw [← List.concat_eq_append]
      exact h.nodup.concat hnew

end ExactPathIndex.Sound

/-! ## Growth -/

theorem doubleCapacity_power (enough : ℕ → Bool) : ∀ (rounds : ℕ) {capacity : ℕ},
    (∃ bits, capacity = 2 ^ (bits + 4)) →
      ∃ bits, doubleCapacity enough rounds capacity = 2 ^ (bits + 4)
  | 0, _, h => h
  | rounds + 1, capacity, h => by
      rw [doubleCapacity]
      split
      · exact h
      · obtain ⟨bits, rfl⟩ := h
        exact doubleCapacity_power enough rounds ⟨bits + 1, by
          rw [Nat.add_right_comm, Nat.pow_succ 2 (bits + 4)]⟩

/-- As many rounds as there are units missing are enough. -/
theorem le_doubleCapacity {enough : ℕ → Bool} {needed divisor : ℕ} (hdivisor : 0 < divisor)
    (henough : ∀ capacity, enough capacity = true ↔ needed ≤ capacity / divisor) :
    ∀ (rounds : ℕ) {capacity : ℕ}, divisor ≤ capacity → needed ≤ capacity / divisor + rounds →
      needed ≤ doubleCapacity enough rounds capacity / divisor
  | 0, _, _, h => h
  | rounds + 1, capacity, hle, h => by
      rw [doubleCapacity]
      split
      · rename_i hyes
        exact (henough capacity).mp hyes
      · have hone : 1 ≤ capacity / divisor := (Nat.one_le_div_iff hdivisor).mpr hle
        have htwice : 2 * (capacity / divisor) ≤ 2 * capacity / divisor :=
          Nat.mul_div_le_mul_div_assoc 2 capacity divisor
        rw [Nat.mul_comm 2 capacity] at htwice
        exact le_doubleCapacity hdivisor henough rounds (by omega) (by omega)

/-- What a denied request makes of a call. -/
def Denied (answers : ℕ → Bool) (e : CommonPathDiscoveryStatus) : Prop :=
  e = .allocationFailed ∧ ∃ i, answers i = false

theorem exactPathIndexReserve_spec {answers : ℕ → Bool} {index : ExactPathIndex}
    {paths : List Text} {needed : ℕ} (h : index.Sound paths) (hneeded : paths.length ≤ needed) :
    Triple answers (· = index) (exactPathIndexReserve needed paths)
      (fun _ index' => index'.Sound paths ∧ 2 * needed ≤ index'.capacity)
      (fun e index' => index' = index ∧ Denied answers e) := by
  unfold exactPathIndexReserve
  refine Triple.reading ?_
  by_cases hroom : index.capacity ≠ 0 ∧ needed ≤ index.capacity / 2
  · rw [if_pos hroom]
    refine Triple.pure fun s' hs => ?_
    rw [hs]
    exact ⟨h, by omega⟩
  rw [if_neg hroom]
  -- The new table is a power of two of slots, and twice what is needed.
  set start := if index.capacity = 0 then 16 else index.capacity with hstart
  have hpower : ∃ bits, start = 2 ^ (bits + 4) := by
    rw [hstart]
    split
    · exact ⟨0, rfl⟩
    · rename_i hne
      exact h.power.resolve_left hne
  set capacity := doubleCapacity (fun capacity => needed ≤ capacity / 2) needed start
    with hcapacity
  have hpower' : ∃ bits, capacity = 2 ^ (bits + 4) := doubleCapacity_power _ needed hpower
  have hhalf : needed ≤ capacity / 2 := by
    obtain ⟨bits, hbits⟩ := hpower
    have hlarge : 2 ^ 4 ≤ 2 ^ (bits + 4) := Nat.pow_le_pow_right (by decide) (by omega)
    exact le_doubleCapacity (by decide) (fun capacity => decide_eq_true_iff) needed
      (by omega) (by omega)
  refine Triple.requesting (fun hdenied => ⟨rfl, rfl, hdenied⟩) ?_
  -- A rehash into an empty table of that size does not fail.
  have hlength : (List.replicate capacity 0).length = capacity := List.length_replicate
  obtain ⟨slots, hslots, hslots_length, hindexed⟩ :=
    (ProbeTable.Indexed.empty (homeSlot capacity) capacity).insertAll
      (by rw [hlength]; exact addressing hpower') paths
      (by rw [hlength, List.length_nil]; omega)
  rw [hlength] at hslots_length
  rw [List.length_nil] at hslots
  have hcap : (⟨slots⟩ : ExactPathIndex).capacity = capacity := hslots_length
  refine Triple.choosing (fun hnone => ?_) fun a ha => ?_
  · rw [hslots] at hnone
    cases hnone
  · obtain rfl := Option.some_inj.mp (hslots.symm.trans ha)
    refine Triple.replace fun _ _ => ?_
    refine ⟨⟨Or.inr (hcap ▸ hpower'), ?_, hcap ▸ hindexed, h.nodup⟩, ?_⟩
    · rw [hcap]
      omega
    · rw [hcap]
      omega

/-! ## Entries -/

section Tables

variable {α : Type} {pathOf : α → Text} {table : PathTable α} {answers : ℕ → Bool}

structure PathTable.Sound (pathOf : α → Text) (table : PathTable α) : Prop where
  index : table.index.Sound (table.texts pathOf)
  room : table.entries.length ≤ table.capacity

theorem PathTable.Sound.empty : PathTable.Sound pathOf ⟨[], 0, ⟨[]⟩⟩ :=
  ⟨ExactPathIndex.Sound.empty, le_rfl⟩

theorem PathTable.length_texts : (table.texts pathOf).length = table.entries.length :=
  List.length_map _

theorem reserveEntries_spec {initial needed : ℕ} (hinitial : 0 < initial) :
    Triple answers (· = table) (reserveEntries initial needed)
      (fun _ t => t.entries = table.entries ∧ t.index = table.index ∧ needed ≤ t.capacity)
      (fun e t => t = table ∧ Denied answers e) := by
  unfold reserveEntries
  refine Triple.reading ?_
  by_cases hroom : needed ≤ table.capacity
  · rw [if_pos hroom]
    refine Triple.pure fun t ht => ?_
    rw [ht]
    exact ⟨rfl, rfl, hroom⟩
  rw [if_neg hroom]
  refine Triple.requesting (fun hdenied => ⟨rfl, rfl, hdenied⟩)
    (Triple.replace fun _ _ => ⟨rfl, rfl, ?_⟩)
  set start := if table.capacity = 0 then initial else table.capacity with hstart
  have hone : 1 ≤ start := by
    rw [hstart]
    split <;> omega
  have henough : needed ≤ doubleCapacity (fun capacity => needed ≤ capacity) needed start / 1 :=
    le_doubleCapacity Nat.one_pos (fun capacity => by simp) needed hone (by omega)
  rwa [Nat.div_one] at henough

/-- **A path that is not stored goes to the end**, or nothing stored changes. -/
theorem appendEntry_spec {initial : ℕ} {entry : α} (hinitial : 0 < initial)
    (h : table.Sound pathOf) (hnew : pathOf entry ∉ table.texts pathOf) :
    Triple answers (· = table) (appendEntry pathOf (reserveEntries initial) entry)
      (fun _ t => t.Sound pathOf ∧ t.entries = table.entries ++ [entry])
      (fun e t => t.Sound pathOf ∧ t.entries = table.entries ∧ Denied answers e) := by
  have hlength : (table.texts pathOf).length = table.entries.length := PathTable.length_texts
  -- The index may have grown and the array too: the entries are those of `table`.
  have hsound : ∀ {index : ExactPathIndex} {capacity : ℕ},
      index.Sound (table.texts pathOf) → table.entries.length ≤ capacity →
      PathTable.Sound pathOf ⟨table.entries, capacity, index⟩ :=
    fun hindex hroom => ⟨hindex, hroom⟩
  unfold appendEntry
  refine Triple.reading ?_
  refine Triple.bind (Q := fun _ t => t.entries = table.entries ∧ t.capacity = table.capacity ∧
    t.index.Sound (table.texts pathOf) ∧ 2 * (table.entries.length + 1) ≤ t.index.capacity)
    (Triple.focus (fun _ _ => exactPathIndexReserve_spec h.index (by omega)) ?_ ?_ ?_)
    fun _ => ?_
  · rintro _ rfl
    rfl
  · rintro _ _ index rfl ⟨hindex, hcapacity⟩
    exact ⟨rfl, rfl, hindex, hcapacity⟩
  · rintro _ e index rfl ⟨rfl, hdenied⟩
    exact ⟨h, rfl, hdenied⟩
  refine Triple.each fun t ht => ?_
  obtain ⟨hentries, hcapacity, hindex, hroom⟩ := ht
  refine Triple.bind (Q := fun _ u => u.entries = table.entries ∧ u.index = t.index ∧
    table.entries.length + 1 ≤ u.capacity)
    ((reserveEntries_spec hinitial).consequence (fun _ => id) ?_ ?_) fun _ => ?_
  · rintro _ u ⟨hentries', hindex', hcapacity'⟩
    exact ⟨hentries'.trans hentries, hindex', hcapacity'⟩
  · rintro e u ⟨rfl, hdenied⟩
    obtain ⟨entries, capacity, index⟩ := u
    obtain rfl := hentries
    obtain rfl := hcapacity
    exact ⟨hsound hindex h.room, rfl, hdenied⟩
  refine Triple.each fun u hu => ?_
  obtain ⟨hentries', hindex', hcapacity'⟩ := hu
  refine Triple.requesting (fun hdenied => ?_) ?_
  · obtain ⟨entries, capacity, index⟩ := u
    dsimp only at hentries' hindex' hcapacity'
    subst hentries' hindex'
    exact ⟨hsound hindex (by omega), rfl, rfl, hdenied⟩
  refine Triple.reading ?_
  -- The insertion finds a slot in the reserved table.
  obtain ⟨index, hinsert, -, hafter⟩ := hindex.insert hnew (by rw [hlength]; exact hroom)
  rw [hlength, ← hindex', ← hentries'] at hinsert
  refine Triple.choosing (fun hnone => ?_) fun a ha => ?_
  · rw [hinsert] at hnone
    cases hnone
  · obtain rfl := Option.some_inj.mp (hinsert.symm.trans ha)
    refine Triple.replace fun _ _ => ?_
    rw [hentries']
    refine ⟨⟨?_, ?_⟩, rfl⟩
    · simpa [PathTable.texts] using hafter
    · simpa using hcapacity'

/-- The update of the entry that is found is the update of every entry with its
path. -/
theorem modify_eq_map (hnodup : (table.texts pathOf).Nodup) {existing : ℕ} {path : Text}
    (hfound : (table.texts pathOf)[existing]? = some path) (g : α → α) :
    table.entries.modify existing g =
      table.entries.map fun entry => if pathOf entry = path then g entry else entry := by
  refine List.ext_getElem? fun i => ?_
  rw [List.getElem?_modify, List.getElem?_map]
  cases hi : table.entries[i]? with
  | none => rfl
  | some entry =>
      have htext : (table.texts pathOf)[i]? = some (pathOf entry) := by
        rw [PathTable.texts, List.getElem?_map, hi]
        rfl
      have hiff : existing = i ↔ pathOf entry = path := by
        constructor
        · rintro rfl
          exact Option.some_inj.mp (htext.symm.trans hfound)
        · rintro rfl
          obtain ⟨hlt, hat⟩ := List.getElem?_eq_some_iff.mp hfound
          obtain ⟨hlt', hat'⟩ := List.getElem?_eq_some_iff.mp htext
          exact hnodup.getElem_inj_iff.mp (hat.trans hat'.symm)
      simp only [Option.map_some, Option.map_eq_map, hiff]

/-- An update that keeps the paths keeps the table sound. -/
theorem PathTable.Sound.modify (h : table.Sound pathOf) {g : α → α}
    (hkeeps : ∀ entry, pathOf (g entry) = pathOf entry) (existing : ℕ) :
    PathTable.Sound pathOf { table with entries := table.entries.modify existing g } := by
  have htexts : PathTable.texts pathOf { table with entries := table.entries.modify existing g } =
      table.texts pathOf := by
    refine List.ext_getElem? fun i => ?_
    simp only [PathTable.texts, List.getElem?_map, List.getElem?_modify]
    cases table.entries[i]? with
    | none => rfl
    | some entry =>
        simp only [Option.map_some, Option.map_eq_map]
        split <;> simp [hkeeps]
  refine ⟨htexts ▸ h.index, ?_⟩
  rw [List.length_modify]
  exact h.room

end Tables

/-! ## Files -/

/-- What a linear search makes of a file. -/
def recordFile (path : Text) (explicitFile : Bool) (files : List CommonDiscoveredPath) :
    List CommonDiscoveredPath :=
  if path ∈ files.map CommonDiscoveredPath.path then
    files.map fun file =>
      if file.path = path then { file with explicitFile := file.explicitFile || explicitFile }
      else file
  else files ++ [⟨path, explicitFile⟩]

/-- What a linear search makes of a directory. -/
def recordDirectory (path : Text) (depth : ℕ) (entries : List QueuedDirectory) :
    List QueuedDirectory :=
  if path ∈ entries.map QueuedDirectory.path then
    entries.map fun entry =>
      if entry.path = path then
        if depth < entry.depth then { entry with depth := depth } else entry
      else entry
  else entries ++ [⟨path, depth⟩]

/-- A limit leaves room for one more than so many. -/
def HasRoom (limit count : ℕ) : Prop := limit = 0 ∨ count < limit

theorem not_hasRoom {limit count : ℕ} : ¬ HasRoom limit count ↔ limit ≠ 0 ∧ limit ≤ count := by
  unfold HasRoom
  omega

abbrev PathBuilder.Sound (builder : PathBuilder) : Prop :=
  PathTable.Sound CommonDiscoveredPath.path builder

abbrev DirectoriesSound (queue : PathTable QueuedDirectory) : Prop :=
  PathTable.Sound QueuedDirectory.path queue

/-- **`add_file` is the insertion of a linear search**, and where it fails the
stored files are as they were. -/
theorem addFile_spec {answers : ℕ → Bool} {builder : PathBuilder} (h : builder.Sound)
    (path : Text) (explicitFile : Bool) (maxFiles : ℕ) :
    Triple answers (· = builder) (addFile path explicitFile maxFiles)
      (fun _ b => b.Sound ∧ b.entries = recordFile path explicitFile builder.entries ∧
        (path ∉ builder.entries.map CommonDiscoveredPath.path →
          HasRoom maxFiles builder.entries.length))
      (fun e b => b.Sound ∧ b.entries = builder.entries ∧
        (e = .fileLimitExceeded ∧ path ∉ builder.entries.map CommonDiscoveredPath.path ∧
            ¬ HasRoom maxFiles builder.entries.length ∨ Denied answers e)) := by
  unfold addFile
  refine Triple.reading ?_
  cases hfind : exactPathIndexFind builder.index (builder.texts CommonDiscoveredPath.path) path with
  | some existing =>
      have hat := h.index.find_eq_some_iff.mp hfind
      have hmem : path ∈ builder.entries.map CommonDiscoveredPath.path := List.mem_of_getElem? hat
      refine Triple.replace fun _ _ => ⟨h.modify (fun entry => ?_) existing, ?_, fun hnew => ?_⟩
      · rfl
      · rw [recordFile, if_pos hmem]
        exact modify_eq_map h.index.nodup hat _
      · exact absurd hmem hnew
  | none =>
      have hnew : path ∉ builder.entries.map CommonDiscoveredPath.path :=
        h.index.find_eq_none_iff.mp hfind
      refine Triple.requiring (fun hlimit => ?_) fun hlimit => ?_
      · exact ⟨h, rfl, Or.inl ⟨rfl, hnew, not_hasRoom.mpr (not_not.mp hlimit)⟩⟩
      · have hroom := not_not.mp (mt not_hasRoom.mp hlimit)
        refine (appendEntry_spec (by decide) h hnew).consequence (fun _ => id) ?_ ?_
        · rintro _ t ⟨ht, hentries⟩
          refine ⟨ht, ?_, fun _ => hroom⟩
          rw [recordFile, if_neg hnew, hentries]
        · rintro e t ⟨ht, hentries, hdenied⟩
          exact ⟨ht, hentries, Or.inr hdenied⟩

/-- **`queue_directory` is the insertion of a linear search.** -/
theorem queueDirectory_spec {answers : ℕ → Bool} {queue : PathTable QueuedDirectory}
    (h : DirectoriesSound queue) (path : Text) (depth maxDirectories maxDepth : ℕ) :
    Triple answers (· = queue) (queueDirectory path depth maxDirectories maxDepth)
      (fun _ q => DirectoriesSound q ∧ q.entries = recordDirectory path depth queue.entries ∧
        (path ∉ queue.entries.map QueuedDirectory.path →
          (maxDepth = 0 ∨ depth ≤ maxDepth) ∧ HasRoom maxDirectories queue.entries.length))
      (fun e q => DirectoriesSound q ∧ q.entries = queue.entries ∧
        (path ∉ queue.entries.map QueuedDirectory.path ∧
          (e = .depthLimitExceeded ∧ maxDepth ≠ 0 ∧ maxDepth < depth ∨
            e = .directoryLimitExceeded ∧ ¬ HasRoom maxDirectories queue.entries.length) ∨
          Denied answers e)) := by
  unfold queueDirectory
  refine Triple.reading ?_
  cases hfind : queuedDirectoryIndex queue path with
  | some existing =>
      have hat := h.index.find_eq_some_iff.mp hfind
      have hmem : path ∈ queue.entries.map QueuedDirectory.path := List.mem_of_getElem? hat
      refine Triple.replace fun _ _ => ⟨h.modify (fun entry => ?_) existing, ?_, fun hnew => ?_⟩
      · split <;> rfl
      · rw [recordDirectory, if_pos hmem]
        exact modify_eq_map h.index.nodup hat _
      · exact absurd hmem hnew
  | none =>
      have hnew : path ∉ queue.entries.map QueuedDirectory.path :=
        h.index.find_eq_none_iff.mp hfind
      refine Triple.requiring (fun hlimit => ?_) fun hdepth => ?_
      · exact ⟨h, rfl, Or.inl ⟨hnew, Or.inl ⟨rfl, not_not.mp hlimit⟩⟩⟩
      refine Triple.requiring (fun hlimit => ?_) fun hlimit => ?_
      · exact ⟨h, rfl, Or.inl ⟨hnew, Or.inr ⟨rfl, not_hasRoom.mpr (not_not.mp hlimit)⟩⟩⟩
      · have hroom := not_not.mp (mt not_hasRoom.mp hlimit)
        refine (appendEntry_spec (by decide) h hnew).consequence (fun _ => id) ?_ ?_
        · rintro _ t ⟨ht, hentries⟩
          refine ⟨ht, ?_, fun _ => ⟨by omega, hroom⟩⟩
          rw [recordDirectory, if_neg hnew, hentries]
        · rintro e t ⟨ht, hentries, hdenied⟩
          exact ⟨ht, hentries, Or.inr hdenied⟩

end UnityCommon.PathDiscovery
