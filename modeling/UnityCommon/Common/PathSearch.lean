import UnityCommon.Common.PathTree

/-!
# Path discovery computes its specification

The state of a run is sound at every step: what is recorded is a file or a
directory below the inputs, each directory with its least depth, and the limits
hold. A run that fails has met something that is not admissible, and a run that
ends has found everything.
-/

namespace UnityCommon.PathDiscovery

open UnityCommon.Common Call

variable {tree : FileTree} {fs : FileSystem} {inputs : List (Option Text)}
  {options : CommonPathDiscoveryOptions} {st : Discovery} {path : Text}

/-! ## One record -/

section Records

variable {files : List CommonDiscoveredPath} {entries : List QueuedDirectory}
  {explicitFile : Bool} {depth : ℕ}

theorem mem_recordFile {file : CommonDiscoveredPath}
    (h : file ∈ recordFile path explicitFile files) :
    (file ∈ files ∧ file.path ≠ path) ∨
      (∃ old ∈ files, old.path = path ∧ file = ⟨path, old.explicitFile || explicitFile⟩) ∨
      path ∉ files.map CommonDiscoveredPath.path ∧ file = ⟨path, explicitFile⟩ := by
  unfold recordFile at h
  split at h
  · obtain ⟨old, hold, rfl⟩ := List.mem_map.mp h
    by_cases hpath : old.path = path
    · rw [if_pos hpath]
      exact Or.inr (Or.inl ⟨old, hold, hpath, by rw [hpath]⟩)
    · rw [if_neg hpath]
      exact Or.inl ⟨hold, hpath⟩
  · rename_i hnew
    rcases List.mem_append.mp h with hmem | hmem
    · exact Or.inl ⟨hmem, fun hpath => hnew (hpath ▸ List.mem_map_of_mem hmem)⟩
    · exact Or.inr (Or.inr ⟨hnew, List.mem_singleton.mp hmem⟩)

theorem texts_recordFile :
    (recordFile path explicitFile files).map CommonDiscoveredPath.path =
      if path ∈ files.map CommonDiscoveredPath.path then files.map CommonDiscoveredPath.path
      else files.map CommonDiscoveredPath.path ++ [path] := by
  unfold recordFile
  split
  · rw [List.map_map]
    refine List.map_congr_left fun file _ => ?_
    simp only [Function.comp_apply]
    split <;> rfl
  · rw [List.map_append]
    rfl

theorem mem_texts_recordFile {other : Text} :
    other ∈ (recordFile path explicitFile files).map CommonDiscoveredPath.path ↔
      other ∈ files.map CommonDiscoveredPath.path ∨ other = path := by
  rw [texts_recordFile]
  split
  · rename_i hmem
    exact ⟨Or.inl, fun h => h.elim id fun heq => heq ▸ hmem⟩
  · rw [List.mem_append, List.mem_singleton]

/-- A depth that is no smaller than the recorded one changes nothing. -/
theorem recordDirectory_of_le (h : ∀ entry ∈ entries, entry.path = path → entry.depth ≤ depth) :
    recordDirectory path depth entries =
      if path ∈ entries.map QueuedDirectory.path then entries else entries ++ [⟨path, depth⟩] := by
  unfold recordDirectory
  split
  · conv_rhs => rw [← List.map_id entries]
    refine List.map_congr_left fun entry hentry => ?_
    by_cases hpath : entry.path = path
    · rw [if_pos hpath, if_neg (Nat.not_lt.mpr (h entry hentry hpath)), id]
    · rw [if_neg hpath, id]
  · rfl

end Records

/-! ## Sound states -/

structure Gathered (tree : FileTree) (inputs : List (Option Text))
    (options : CommonPathDiscoveryOptions) (st : Discovery) : Prop where
  files : st.files.Sound
  directories : DirectoriesSound st.directories.toPathTable
  each_file : ∀ file ∈ st.files.entries, IsFile tree inputs options file.path ∧
    (file.explicitFile = true ↔ some file.path ∈ inputs)
  each_directory : ∀ entry ∈ st.directories.entries,
    IsLeast (directoryDepths tree inputs options entry.path) entry.depth
  file_limit : options.maxFiles = 0 ∨ st.files.entries.length ≤ options.maxFiles
  directory_limit : options.maxDirectories = 0 ∨
    st.directories.entries.length ≤ options.maxDirectories
  depth_limit : options.maxDepth = 0 ∨
    ∀ entry ∈ st.directories.entries, entry.depth ≤ options.maxDepth

/-- A failure: something is not admissible, and what is recorded stays right. -/
def Refused (tree : FileTree) (inputs : List (Option Text))
    (options : CommonPathDiscoveryOptions) (st : Discovery) : Prop :=
  ¬ Admissible tree inputs options ∧ ∀ entry ∈ st.directories.entries,
    IsLeast (directoryDepths tree inputs options entry.path) entry.depth

abbrev fileTexts (st : Discovery) : List Text := st.files.entries.map CommonDiscoveredPath.path

abbrev directoryTexts (st : Discovery) : List Text :=
  st.directories.entries.map QueuedDirectory.path

namespace Gathered

theorem refused (h : Gathered tree inputs options st)
    (hnot : ¬ Admissible tree inputs options) : Refused tree inputs options st :=
  ⟨hnot, h.each_directory⟩

theorem empty : Gathered tree inputs options Discovery.empty :=
  ⟨PathTable.Sound.empty, PathTable.Sound.empty, by simp [Discovery.empty],
    by simp [Discovery.empty], Or.inr (Nat.zero_le _), Or.inr (Nat.zero_le _),
    Or.inr (by simp [Discovery.empty])⟩

/-- A list of distinct members with no room for another one. -/
theorem limit_exceeded {texts : List Text} {s : Set Text} {limit : ℕ} (hnodup : texts.Nodup)
    (hsub : ∀ text ∈ texts, text ∈ s) (hnew : path ∉ texts) (hpath : path ∈ s)
    (hroom : ¬ HasRoom limit texts.length) : ¬ (limit = 0 ∨ s.encard ≤ limit) := by
  obtain ⟨hlimit, hle⟩ := not_hasRoom.mp hroom
  rintro (hzero | hcard)
  · exact hlimit hzero
  · have hlength : ((path :: texts).length : ℕ∞) ≤ s.encard :=
      Breadth.length_le_encard (List.nodup_cons.mpr ⟨hnew, hnodup⟩) fun text htext => by
        rcases List.mem_cons.mp htext with rfl | htext
        · exact hpath
        · exact hsub text htext
    have := Nat.cast_le.mp (hlength.trans hcard)
    rw [List.length_cons] at this
    omega

/-- **A file is recorded.** -/
theorem addFile (h : Gathered tree inputs options st) {explicitFile : Bool}
    (hfile : IsFile tree inputs options path) (hflag : explicitFile = true → some path ∈ inputs)
    (hexplicit : path ∉ fileTexts st → some path ∈ inputs → explicitFile = true) :
    Triple granted (· = st) (onFiles (PathDiscovery.addFile path explicitFile options.maxFiles))
      (fun _ st' => Gathered tree inputs options st' ∧ st'.directories = st.directories ∧
        ∀ other, other ∈ fileTexts st' ↔ other ∈ fileTexts st ∨ other = path)
      (fun _ => Refused tree inputs options) := by
  refine Triple.focus (fun _ _ => addFile_spec h.files path explicitFile options.maxFiles) ?_ ?_ ?_
  · rintro _ rfl
    rfl
  · rintro _ _ files rfl ⟨hsound, hentries, hroom⟩
    refine ⟨⟨hsound, h.directories, fun file hmem => ?_, h.each_directory, ?_,
      h.directory_limit, h.depth_limit⟩, rfl, fun other => ?_⟩
    · dsimp only at hmem
      rw [hentries] at hmem
      rcases mem_recordFile hmem with ⟨hold, -⟩ | ⟨old, hold, hpath, rfl⟩ | ⟨hnew, rfl⟩
      · exact h.each_file file hold
      · have hiff := (h.each_file old hold).2
        rw [hpath] at hiff
        refine ⟨hfile, ?_⟩
        simp only [Bool.or_eq_true, hiff]
        exact ⟨fun hor => hor.elim id hflag, Or.inl⟩
      · exact ⟨hfile, hflag, hexplicit hnew⟩
    · dsimp only
      rw [← List.length_map CommonDiscoveredPath.path, hentries, texts_recordFile]
      split
      · rw [List.length_map]
        exact h.file_limit
      · rename_i hnew
        rw [List.length_append, List.length_map, List.length_singleton]
        rcases hroom hnew with hzero | hlt
        · exact Or.inl hzero
        · exact Or.inr hlt
    · rw [fileTexts, hentries]
      exact mem_texts_recordFile
  · rintro _ e files rfl ⟨-, -, ⟨-, hnew, hroom⟩ | ⟨-, i, hi⟩⟩
    · refine h.refused fun hadmissible => ?_
      refine limit_exceeded h.files.index.nodup (fun text htext => ?_) hnew hfile ?_
        hadmissible.file_limit
      · obtain ⟨file, hmem, rfl⟩ := List.mem_map.mp htext
        exact (h.each_file file hmem).1
      · rwa [PathTable.length_texts]
    · cases hi

/-- **A directory is recorded**, at its least depth where it is new. -/
theorem queueDirectory (h : Gathered tree inputs options st) {depth : ℕ}
    (hderived : depth ∈ directoryDepths tree inputs options path)
    (hleast : path ∉ directoryTexts st → IsLeast (directoryDepths tree inputs options path) depth) :
    Triple granted (· = st)
      (onDirectories
        (PathDiscovery.queueDirectory path depth options.maxDirectories options.maxDepth))
      (fun _ st' => Gathered tree inputs options st' ∧ st'.files = st.files ∧
        st'.directories.next = st.directories.next ∧ st'.directories.entries =
          if path ∈ directoryTexts st then st.directories.entries
          else st.directories.entries ++ [⟨path, depth⟩])
      (fun _ => Refused tree inputs options) := by
  refine Triple.focus (fun _ _ => queueDirectory_spec h.directories path depth
    options.maxDirectories options.maxDepth) ?_ ?_ ?_
  · rintro _ rfl
    rfl
  · rintro _ _ queue rfl ⟨hsound, hentries, hroom⟩
    -- a directory that is there has its least depth already, so no depth is lowered
    rw [recordDirectory_of_le fun entry hentry hpath =>
      (h.each_directory entry hentry).2 (hpath ▸ hderived)] at hentries
    refine ⟨⟨h.files, hsound, h.each_file, fun entry hmem => ?_, h.file_limit, ?_, ?_⟩,
      rfl, rfl, hentries⟩
    · dsimp only at hmem
      rw [hentries] at hmem
      split at hmem
      · exact h.each_directory entry hmem
      · rename_i hnew
        rcases List.mem_append.mp hmem with hmem | hmem
        · exact h.each_directory entry hmem
        · obtain rfl := List.mem_singleton.mp hmem
          exact hleast hnew
    · dsimp only
      rw [hentries]
      split
      · exact h.directory_limit
      · rename_i hnew
        rw [List.length_append, List.length_singleton]
        rcases (hroom hnew).2 with hzero | hlt
        · exact Or.inl hzero
        · exact Or.inr hlt
    · dsimp only
      rw [hentries]
      split
      · exact h.depth_limit
      · rename_i hnew
        rcases h.depth_limit with hzero | hall
        · exact Or.inl hzero
        · rcases (hroom hnew).1 with hzero | hle
          · exact Or.inl hzero
          · refine Or.inr fun entry hmem => ?_
            rcases List.mem_append.mp hmem with hmem | hmem
            · exact hall entry hmem
            · obtain rfl := List.mem_singleton.mp hmem
              exact hle
  · rintro _ e queue rfl ⟨-, hentries, ⟨hnew, hlimit⟩ | ⟨-, i, hi⟩⟩
    · have hrefused : ¬ Admissible tree inputs options := by
        intro hadmissible
        rcases hlimit with ⟨-, hne, hlt⟩ | ⟨-, hroom⟩
        · rcases hadmissible.depth_limit with hzero | hall
          · exact hne hzero
          · exact absurd (hall path depth (hleast hnew)) (Nat.not_le.mpr hlt)
        · have hpath : path ∈ directoriesBelow tree inputs options := ⟨depth, hderived⟩
          refine limit_exceeded h.directories.index.nodup (fun text htext => ?_) hnew hpath ?_
            hadmissible.directory_limit
          · obtain ⟨entry, hmem, rfl⟩ := List.mem_map.mp htext
            exact ⟨entry.depth, (h.each_directory entry hmem).1⟩
          · rwa [PathTable.length_texts]
      refine ⟨hrefused, fun entry hmem => ?_⟩
      dsimp only at hmem
      rw [hentries] at hmem
      exact h.each_directory entry hmem
    · cases hi

end Gathered

/-- A directory that is queued is there, with those that were. -/
theorem mem_directoryTexts_queued {st' : Discovery} {depth : ℕ}
    (hentries : st'.directories.entries =
      if path ∈ directoryTexts st then st.directories.entries
      else st.directories.entries ++ [⟨path, depth⟩]) (other : Text) :
    other ∈ directoryTexts st' ↔ other ∈ directoryTexts st ∨ other = path := by
  rw [directoryTexts, hentries]
  split
  · rename_i hold
    constructor
    · exact Or.inl
    · rintro (hother | rfl)
      · exact hother
      · exact hold
  · rw [List.map_append, List.mem_append]
    exact or_congr Iff.rfl List.mem_singleton

/-! ## The inputs -/

/-- The inputs `done` are taken and no directory is scanned. -/
structure Taken (tree : FileTree) (inputs : List (Option Text))
    (options : CommonPathDiscoveryOptions) (done : List (Option Text)) (st : Discovery) :
    Prop where
  gathered : Gathered tree inputs options st
  next : st.directories.next = 0
  roots : ∀ entry ∈ st.directories.entries, entry.depth = 0 ∧ IsRoot tree inputs entry.path
  each_input : ∀ input ∈ done, InputOk tree options input
  each_file : ∀ path, some path ∈ done → tree.kind path = some .regular → path ∈ fileTexts st
  each_directory : ∀ path, some path ∈ done → tree.kind path = some .directory →
    path ∈ directoryTexts st

/-- A root has depth zero. -/
theorem isLeast_root (h : IsRoot tree inputs path) :
    IsLeast (directoryDepths tree inputs options path) 0 :=
  ⟨Breadth.Derived.root h, fun _ _ => Nat.zero_le _⟩

theorem Taken.snoc {done : List (Option Text)} {st' : Discovery}
    (h : Taken tree inputs options done st) (hgathered : Gathered tree inputs options st')
    (hnext : st'.directories.next = st.directories.next)
    (hroots : ∀ entry ∈ st'.directories.entries, entry.depth = 0 ∧ IsRoot tree inputs entry.path)
    (hok : InputOk tree options (some path))
    (hfiles : ∀ other ∈ fileTexts st, other ∈ fileTexts st')
    (hfile : tree.kind path = some .regular → path ∈ fileTexts st')
    (hdirectories : ∀ other ∈ directoryTexts st, other ∈ directoryTexts st')
    (hdirectory : tree.kind path = some .directory → path ∈ directoryTexts st') :
    Taken tree inputs options (done ++ [some path]) st' := by
  refine ⟨hgathered, hnext.trans h.next, hroots, fun input hmem => ?_, fun other hmem hkind => ?_,
    fun other hmem hkind => ?_⟩
  · rcases List.mem_append.mp hmem with hmem | hmem
    · exact h.each_input input hmem
    · obtain rfl := List.mem_singleton.mp hmem
      exact hok
  · rcases List.mem_append.mp hmem with hmem | hmem
    · exact hfiles other (h.each_file other hmem hkind)
    · obtain rfl := Option.some_inj.mp (List.mem_singleton.mp hmem)
      exact hfile hkind
  · rcases List.mem_append.mp hmem with hmem | hmem
    · exact hdirectories other (h.each_directory other hmem hkind)
    · obtain rfl := Option.some_inj.mp (List.mem_singleton.mp hmem)
      exact hdirectory hkind

/-- An input that is a file. -/
theorem Taken.takeFile {done : List (Option Text)} (h : Taken tree inputs options done st)
    (hmem : some path ∈ inputs) (htree : tree.kind path = some .regular)
    (hok : InputOk tree options (some path)) :
    Triple granted (· = st) (onFiles (PathDiscovery.addFile path true options.maxFiles))
      (fun _ => Taken tree inputs options (done ++ [some path]))
      (fun _ => Refused tree inputs options) := by
  have hfile : IsFile tree inputs options path := ⟨htree, Or.inl hmem⟩
  refine (h.gathered.addFile hfile (fun _ => hmem) fun _ _ => rfl).consequence (fun _ => id)
    ?_ fun _ _ => id
  rintro _ st' ⟨hgathered, hdirectories, hfiles⟩
  refine h.snoc hgathered (by rw [hdirectories]) (by rw [hdirectories]; exact h.roots) hok
    (fun other hother => (hfiles other).mpr (Or.inl hother))
    (fun _ => (hfiles path).mpr (Or.inr rfl)) ?_ ?_
  · rw [directoryTexts, directoryTexts, hdirectories]
    exact fun _ => id
  · intro hkind
    rw [htree] at hkind
    cases hkind

/-- An input that is a directory becomes a root of the search. -/
theorem Taken.takeDirectory {done : List (Option Text)} (h : Taken tree inputs options done st)
    (hmem : some path ∈ inputs) (htree : tree.kind path = some .directory)
    (hok : InputOk tree options (some path)) :
    Triple granted (· = st)
      (onDirectories (PathDiscovery.queueDirectory path 0 options.maxDirectories options.maxDepth))
      (fun _ => Taken tree inputs options (done ++ [some path]))
      (fun _ => Refused tree inputs options) := by
  have hroot : IsRoot tree inputs path := ⟨hmem, htree⟩
  refine (h.gathered.queueDirectory (isLeast_root hroot).1
    fun _ => isLeast_root hroot).consequence (fun _ => id) ?_ fun _ _ => id
  rintro _ st' ⟨hgathered, hfiles, hnext, hentries⟩
  have hqueued := mem_directoryTexts_queued hentries
  refine h.snoc hgathered hnext (fun entry hentry => ?_) hok
    (by rw [fileTexts, fileTexts, hfiles]; exact fun _ => id) (fun hkind => ?_)
    (fun other hother => (hqueued other).mpr (Or.inl hother))
    fun _ => (hqueued path).mpr (Or.inr rfl)
  · rw [hentries] at hentry
    split at hentry
    · exact h.roots entry hentry
    · rcases List.mem_append.mp hentry with hentry | hentry
      · exact h.roots entry hentry
      · obtain rfl := List.mem_singleton.mp hentry
        exact ⟨rfl, hroot⟩
  · rw [htree] at hkind
    cases hkind

/-- **One input.** -/
theorem takeInput_spec (hfs : AnsweredFrom fs tree) {done : List (Option Text)}
    {input : Option Text} (hmem : input ∈ inputs) :
    Triple granted (Taken tree inputs options done) (takeInput fs options input)
      (fun _ => Taken tree inputs options (done ++ [input]))
      (fun _ => Refused tree inputs options) := by
  refine Triple.each fun st h => ?_
  -- An input that is refused by itself is not admissible.
  have hrefuse : ¬ InputOk tree options input → Refused tree inputs options st := fun hnot =>
    h.gathered.refused fun hadmissible => hnot (hadmissible.each_input input hmem)
  unfold takeInput
  refine Triple.choosing (fun hnone => hrefuse ?_) fun path hsome => ?_
  · rintro ⟨path, hpath, -⟩
    rw [hnone] at hpath
    cases hpath
  subst hsome
  have hok : ∀ {p : Prop}, (InputOk tree options (some path) → p) → ¬ p →
      Refused tree inputs options st := fun himp hp => hrefuse (mt himp hp)
  refine Triple.requiring (hok ?_) fun hne => ?_
  · rintro ⟨other, hother, hne, -⟩
    rwa [Option.some_inj.mp hother]
  refine Triple.requiring (hok ?_) fun hfits => ?_
  · rintro ⟨other, hother, -, hfits, -⟩
    obtain rfl := Option.some_inj.mp hother
    unfold PathFits at hfits
    omega
  have hfits : PathFits options path := by
    unfold PathFits
    omega
  have hkinds : ∀ {other : Option PathNodeKind}, tree.kind path = other →
      other ≠ some .regular → other ≠ some .directory → Refused tree inputs options st := by
    intro other hother hregular hdirectory
    refine hrefuse ?_
    rintro ⟨text, htext, -, -, hkind⟩
    obtain rfl := Option.some_inj.mp htext
    rw [hother] at hkind
    exact hkind.elim hregular hdirectory
  have hanswer := hfs.kind path
  refine Triple.taking (fun e he => ?_) fun kind hkind => ?_
  · rw [hanswer] at he
    cases hnone : tree.kind path with
    | none => exact hkinds hnone nofun nofun
    | some kind =>
        rw [hnone] at he
        cases he
  have htree : tree.kind path = some kind := by
    rw [hanswer] at hkind
    cases hsome : tree.kind path with
    | none =>
        rw [hsome] at hkind
        cases hkind
    | some answer =>
        rw [hsome] at hkind
        cases hkind
        rfl
  have haccepted : tree.kind path = some .regular ∨ tree.kind path = some .directory →
      InputOk tree options (some path) := fun hkind => ⟨path, rfl, hne, hfits, hkind⟩
  cases kind with
  | link => exact Triple.fail fun _ hs => hs ▸ hkinds htree nofun nofun
  | other => exact Triple.fail fun _ hs => hs ▸ hkinds htree nofun nofun
  | regular => exact h.takeFile hmem htree (haccepted (Or.inl htree))
  | directory => exact h.takeDirectory hmem htree (haccepted (Or.inr htree))

/-! ## The search -/

/-- The queue as the search library has it. -/
def searchQueue (entries : List QueuedDirectory) : List (Text × ℕ) :=
  entries.map fun entry => (entry.path, entry.depth)

theorem map_fst_searchQueue (entries : List QueuedDirectory) :
    (searchQueue entries).map Prod.fst = entries.map QueuedDirectory.path := by
  rw [searchQueue, List.map_map]
  rfl

theorem mem_searchQueue {entries : List QueuedDirectory} {depth : ℕ} :
    (path, depth) ∈ searchQueue entries ↔ ⟨path, depth⟩ ∈ entries := by
  rw [searchQueue, List.mem_map]
  constructor
  · rintro ⟨entry, hmem, heq⟩
    cases heq
    exact hmem
  · exact fun hmem => ⟨_, hmem, rfl⟩

/-- Everything in the directories before `next` is found. -/
structure Searching (tree : FileTree) (inputs : List (Option Text))
    (options : CommonPathDiscoveryOptions) (next level : ℕ) (st : Discovery) : Prop where
  gathered : Gathered tree inputs options st
  explored : Breadth.Explored (IsRoot tree inputs) (IsSubdirectory tree options)
    (searchQueue st.directories.entries) next level
  each_input : ∀ input ∈ inputs, InputOk tree options input
  input_files : ∀ path, some path ∈ inputs → tree.kind path = some .regular →
    path ∈ fileTexts st
  scanned : ∀ entry ∈ st.directories.entries.take next, ∀ path, IsEntry tree entry.path path →
    EntryOk tree options path ∧ (tree.kind path = some .regular → path ∈ fileTexts st)

namespace Searching

variable {next level : ℕ} {st' : Discovery}

/-- A state with more files is still one of the search. -/
theorem with_files (h : Searching tree inputs options next level st)
    (hgathered : Gathered tree inputs options st') (hdirectories : st'.directories = st.directories)
    (hfiles : ∀ other ∈ fileTexts st, other ∈ fileTexts st') :
    Searching tree inputs options next level st' := by
  refine ⟨hgathered, hdirectories ▸ h.explored, h.each_input,
    fun path hmem hkind => hfiles path (h.input_files path hmem hkind), ?_⟩
  rw [hdirectories]
  intro entry hentry path hpath
  obtain ⟨hok, hfile⟩ := h.scanned entry hentry path hpath
  exact ⟨hok, fun hkind => hfiles path (hfile hkind)⟩

/-- A directory that is found one below the level goes to the end. -/
theorem with_directory (h : Searching tree inputs options next level st)
    (hnext : next ≤ st.directories.entries.length)
    (hgathered : Gathered tree inputs options st') (hfiles : st'.files = st.files)
    (hentries : st'.directories.entries =
      if path ∈ directoryTexts st then st.directories.entries
      else st.directories.entries ++ [⟨path, level + 1⟩])
    (hderived : level + 1 ∈ directoryDepths tree inputs options path) :
    Searching tree inputs options next level st' := by
  have htake : st'.directories.entries.take next = st.directories.entries.take next := by
    rw [hentries]
    split
    · rfl
    · exact List.take_append_of_le_length hnext
  refine ⟨hgathered, ?_, h.each_input, ?_, ?_⟩
  · rw [hentries]
    split
    · exact h.explored
    · rename_i hnew
      rw [searchQueue, List.map_append]
      refine h.explored.push ?_ ?_ hderived
      · rw [searchQueue, List.length_map]
        exact hnext
      · rw [map_fst_searchQueue]
        exact hnew
  · rw [fileTexts, hfiles]
    exact h.input_files
  · rw [htake, fileTexts, hfiles]
    exact h.scanned

end Searching

/-- The search is in one directory, whose names `seen` are done. -/
structure Visiting (tree : FileTree) (inputs : List (Option Text))
    (options : CommonPathDiscoveryOptions) (next : ℕ) (directory : QueuedDirectory)
    (seen : List Text) (st : Discovery) : Prop where
  searching : Searching tree inputs options next directory.depth st
  counter : st.directories.next = next + 1
  current : st.directories.entries[next]? = some directory
  each_name : ∀ name ∈ seen, isDots name = false →
    EntryOk tree options (joined directory.path name) ∧
    (tree.kind (joined directory.path name) = some .regular →
      joined directory.path name ∈ fileTexts st) ∧
    (IsSubdirectory tree options directory.path (joined directory.path name) →
      joined directory.path name ∈ directoryTexts st)

namespace Visiting

variable {next : ℕ} {directory : QueuedDirectory} {seen : List Text} {name : Text}
  {st' : Discovery}

theorem derived (h : Visiting tree inputs options next directory seen st) :
    directory.depth ∈ directoryDepths tree inputs options directory.path :=
  (h.searching.gathered.each_directory _ (List.mem_of_getElem? h.current)).1

theorem next_lt (h : Visiting tree inputs options next directory seen st) :
    next < st.directories.entries.length :=
  (List.getElem?_eq_some_iff.mp h.current).1

/-- One more name is done. -/
theorem snoc (h : Visiting tree inputs options next directory seen st)
    (hsearching : Searching tree inputs options next directory.depth st')
    (hcounter : st'.directories.next = st.directories.next)
    (hcurrent : st'.directories.entries[next]? = some directory)
    (hfiles : ∀ other ∈ fileTexts st, other ∈ fileTexts st')
    (hdirectories : ∀ other ∈ directoryTexts st, other ∈ directoryTexts st')
    (hname : isDots name = false → EntryOk tree options (joined directory.path name) ∧
      (tree.kind (joined directory.path name) = some .regular →
        joined directory.path name ∈ fileTexts st') ∧
      (IsSubdirectory tree options directory.path (joined directory.path name) →
        joined directory.path name ∈ directoryTexts st')) :
    Visiting tree inputs options next directory (seen ++ [name]) st' := by
  refine ⟨hsearching, hcounter.trans h.counter, hcurrent, fun other hmem hdots => ?_⟩
  rcases List.mem_append.mp hmem with hmem | hmem
  · obtain ⟨hok, hfile, hdirectory⟩ := h.each_name other hmem hdots
    exact ⟨hok, fun hkind => hfiles _ (hfile hkind), fun hsub => hdirectories _ (hdirectory hsub)⟩
  · obtain rfl := List.mem_singleton.mp hmem
    exact hname hdots

end Visiting

theorem joinPath_spec {answers : ℕ → Bool} {directory name : Text} {maxPathBytes : ℕ}
    {P : Discovery → Prop} :
    Triple answers P (joinPath directory name maxPathBytes)
      (fun child s => P s ∧ child = joined directory name ∧ child.length < sizeMax ∧
        (maxPathBytes = 0 ∨ child.length ≤ maxPathBytes))
      (fun e s => P s ∧ (¬ ((joined directory name).length < sizeMax ∧
        (maxPathBytes = 0 ∨ (joined directory name).length ≤ maxPathBytes)) ∨
          Denied answers e)) := by
  have hlength : (joined directory name).length =
      directory.length + (if needsSeparator directory then 1 else 0) + name.length := by
    simp only [joined, List.length_append]
    split <;> rfl
  refine Triple.each fun st hst => ?_
  unfold joinPath
  rw [← hlength]
  refine Triple.requiring (fun hnot => ⟨hst, Or.inl fun h => hnot h.1⟩) fun hsize => ?_
  refine Triple.requiring (fun hnot => ⟨hst, Or.inl fun h => ?_⟩) fun hfits => ?_
  · omega
  refine Triple.requesting (fun hdenied => ⟨hst, Or.inr ⟨rfl, hdenied⟩⟩) ?_
  exact Triple.pure fun _ hs => ⟨hs ▸ hst, rfl, hsize, by omega⟩

/-- A name that is a file. -/
theorem Visiting.visitFile {next : ℕ} {directory : QueuedDirectory} {seen : List Text}
    {name : Text} (h : Visiting tree inputs options next directory seen st)
    (hentry : IsEntry tree directory.path (joined directory.path name))
    (htree : tree.kind (joined directory.path name) = some .regular)
    (hok : EntryOk tree options (joined directory.path name)) :
    Triple granted (· = st)
      (onFiles (PathDiscovery.addFile (joined directory.path name) false options.maxFiles))
      (fun _ => Visiting tree inputs options next directory (seen ++ [name]))
      (fun _ => Refused tree inputs options) := by
  have hfile : IsFile tree inputs options (joined directory.path name) :=
    ⟨htree, Or.inr ⟨directory.path, ⟨_, h.derived⟩, hentry⟩⟩
  have hflag : false = true → some (joined directory.path name) ∈ inputs := nofun
  -- an input that is a file is recorded before the search, so a new path is none
  refine (h.searching.gathered.addFile hfile hflag fun hnew hinput =>
    absurd (h.searching.input_files _ hinput htree) hnew).consequence (fun _ => id) ?_ fun _ _ => id
  rintro _ st' ⟨hgathered, hdirectories, hfiles⟩
  have hmore : ∀ other ∈ fileTexts st, other ∈ fileTexts st' :=
    fun other hold => (hfiles other).mpr (Or.inl hold)
  refine h.snoc (h.searching.with_files hgathered hdirectories hmore)
    (by rw [hdirectories]) (by rw [hdirectories]; exact h.current) hmore ?_ fun _ =>
      ⟨hok, fun _ => (hfiles _).mpr (Or.inr rfl), fun hsub => ?_⟩
  · rw [directoryTexts, directoryTexts, hdirectories]
    exact fun _ => id
  · have hkind := hsub.2.2
    rw [htree] at hkind
    cases hkind

/-- A name that is a directory is queued one level down. -/
theorem Visiting.visitDirectory {next : ℕ} {directory : QueuedDirectory} {seen : List Text}
    {name : Text} (h : Visiting tree inputs options next directory seen st)
    (hsub : IsSubdirectory tree options directory.path (joined directory.path name))
    (hok : EntryOk tree options (joined directory.path name)) :
    Triple granted (· = st)
      (onDirectories (PathDiscovery.queueDirectory (joined directory.path name)
        (directory.depth + 1) options.maxDirectories options.maxDepth))
      (fun _ => Visiting tree inputs options next directory (seen ++ [name]))
      (fun _ => Refused tree inputs options) := by
  have hderived : directory.depth + 1 ∈
      directoryDepths tree inputs options (joined directory.path name) :=
    Breadth.Derived.step h.derived hsub
  refine (h.searching.gathered.queueDirectory hderived fun hnew => ?_).consequence
    (fun _ => id) ?_ fun _ _ => id
  · refine h.searching.explored.isLeast_of_new ?_ hderived
    rw [map_fst_searchQueue]
    exact hnew
  rintro _ st' ⟨hgathered, hfiles, hnext, hentries⟩
  have hsearching := h.searching.with_directory (Nat.le_of_lt h.next_lt) hgathered hfiles
    hentries hderived
  have hqueued := mem_directoryTexts_queued hentries
  refine h.snoc hsearching hnext ?_ (by rw [fileTexts, fileTexts, hfiles]; exact fun _ => id)
    (fun other hother => (hqueued other).mpr (Or.inl hother))
    fun _ => ⟨hok, fun hkind => ?_, fun _ => (hqueued _).mpr (Or.inr rfl)⟩
  · rw [hentries]
    split
    · exact h.current
    · rw [List.getElem?_append_left h.next_lt]
      exact h.current
  · rw [hsub.2.2] at hkind
    cases hkind

/-- **One name of a directory.** -/
theorem scanEntry_spec (hfs : AnsweredFrom fs tree) {next : ℕ} {directory : QueuedDirectory}
    {seen : List Text} {name : Text}
    (hname : isDots name = false → name ∈ tree.names directory.path) :
    Triple granted (Visiting tree inputs options next directory seen)
      (scanEntry fs options directory name)
      (fun _ => Visiting tree inputs options next directory (seen ++ [name]))
      (fun _ => Refused tree inputs options) := by
  refine Triple.each fun st h => ?_
  unfold scanEntry
  by_cases hdots : isDots name = true
  · rw [if_pos hdots]
    refine Triple.pure fun _ hs => hs ▸ h.snoc h.searching rfl h.current (fun _ => id)
      (fun _ => id) fun hnot => ?_
    rw [hdots] at hnot
    cases hnot
  rw [if_neg hdots]
  have hmem := hname (Bool.eq_false_iff.mpr hdots)
  have hdirectory := kind_of_derived h.derived
  have hentry : IsEntry tree directory.path (joined directory.path name) :=
    ⟨hdirectory, name, hmem, rfl⟩
  have hrefuse : ¬ EntryOk tree options (joined directory.path name) →
      Refused tree inputs options st := fun hnot =>
    h.searching.gathered.refused fun hadmissible =>
      hnot (hadmissible.each_entry directory.path ⟨_, h.derived⟩ _ hentry)
  refine Triple.bind (joinPath_spec.consequence (fun _ => id) (fun _ _ => id) ?_) fun child =>
    Triple.each fun st' hchild => ?_
  · rintro e s ⟨rfl, hnot | ⟨-, i, hi⟩⟩
    · exact hrefuse fun hok => hnot ⟨hok.1, hok.2.1⟩
    · cases hi
  obtain ⟨rfl, rfl, hsize, hfits⟩ := hchild
  obtain ⟨kind, htree⟩ := Option.ne_none_iff_exists'.mp
    (tree.entry_found directory.path hdirectory name hmem)
  rw [hfs.entry directory.path name kind hdirectory hmem htree]
  refine Triple.taking nofun fun answer hanswer => ?_
  obtain rfl := Except.ok.inj hanswer
  -- What is refused about a path that fits is its kind.
  have hok : (kind = .link → options.rejectDescendantLinks = false) →
      (kind = .other → options.rejectDescendantUnsupportedNodes = false) →
      EntryOk tree options (joined directory.path name) := by
    intro hlink hother
    refine ⟨hsize, hfits, fun hkind => hlink ?_, fun hkind => hother ?_⟩
    · exact Option.some_inj.mp (htree.symm.trans hkind)
    · exact Option.some_inj.mp (htree.symm.trans hkind)
  have hother_kind : ∀ {k : PathNodeKind}, k ≠ kind →
      tree.kind (joined directory.path name) ≠ some k :=
    fun hne hk => hne (Option.some_inj.mp (hk.symm.trans htree))
  have hnot_sub : kind ≠ .directory ∨ options.recursive = false →
      ¬ IsSubdirectory tree options directory.path (joined directory.path name) := by
    rintro (hne | hfalse) ⟨hrecursive, -, hkind⟩
    · exact hother_kind hne.symm hkind
    · rw [hfalse] at hrecursive
      cases hrecursive
  -- A name that leaves nothing to record.
  have hskip : EntryOk tree options (joined directory.path name) → kind ≠ .regular →
      (kind ≠ .directory ∨ options.recursive = false) →
      Visiting tree inputs options next directory (seen ++ [name]) st' :=
    fun hentryOk hregular hsub => h.snoc h.searching rfl h.current (fun _ => id) (fun _ => id)
      fun _ => ⟨hentryOk, fun hkind => absurd hkind (hother_kind hregular.symm),
        fun hsubdirectory => absurd hsubdirectory (hnot_sub hsub)⟩
  cases kind with
  | link =>
      refine Triple.require (fun _ hs hfalse => ?_) fun _ hs hreject => ?_
      · exact hs ▸ hskip (hok (fun _ => hfalse) nofun) nofun (Or.inl nofun)
      · exact hs ▸ hrefuse fun hentryOk => hreject (hentryOk.2.2.1 htree)
  | other =>
      refine Triple.require (fun _ hs hfalse => ?_) fun _ hs hreject => ?_
      · exact hs ▸ hskip (hok nofun fun _ => hfalse) nofun (Or.inl nofun)
      · exact hs ▸ hrefuse fun hentryOk => hreject (hentryOk.2.2.2 htree)
  | regular => exact h.visitFile hentry htree (hok nofun nofun)
  | directory =>
      by_cases hrecursive : options.recursive = true
      · have hsub : IsSubdirectory tree options directory.path (joined directory.path name) :=
          ⟨hrecursive, hentry, htree⟩
        -- a depth is at most the length of a path, so it is not the largest number
        have hdepth : directory.depth ≠ sizeMax := by
          have := depth_le_length (Breadth.Derived.step h.derived hsub :
            directory.depth + 1 ∈ directoryDepths tree inputs options _)
          omega
        dsimp only
        rw [if_pos hrecursive, if_neg hdepth]
        exact h.visitDirectory hsub (hok nofun nofun)
      · dsimp only
        rw [if_neg hrecursive]
        exact Triple.pure fun _ hs => hs ▸ hskip (hok nofun nofun) nofun
          (Or.inr (Bool.eq_false_iff.mpr hrecursive))

end UnityCommon.PathDiscovery
