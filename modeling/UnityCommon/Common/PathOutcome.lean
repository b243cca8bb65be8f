import UnityCommon.Common.PathSearch

/-!
# The outcome of path discovery

The search ends, since there are finitely many directories below the inputs. It
succeeds on what is admissible and nothing else, its result is the sorted list of
the files, and neither depends on an order.
-/

namespace UnityCommon.PathDiscovery

open UnityCommon.Common Call

variable {tree : FileTree} {fs : FileSystem} {inputs : List (Option Text)}
  {options : CommonPathDiscoveryOptions} {st : Discovery} {path : Text}

/-! ## The loops -/

/-- **One directory.** -/
theorem scanDirectory_spec (hfs : AnsweredFrom fs tree) {next : ℕ} {directory : QueuedDirectory} :
    Triple granted (Visiting tree inputs options next directory [])
      (scanDirectory fs options directory)
      (fun _ st => Searching tree inputs options (next + 1) directory.depth st ∧
        st.directories.next = next + 1 ∧ next + 1 ≤ st.directories.entries.length)
      (fun _ => Refused tree inputs options) := by
  refine Triple.each fun st h => ?_
  have hdirectory := kind_of_derived h.derived
  obtain ⟨stream, hopen, hfailed, hperm⟩ := hfs.stream directory.path hdirectory
  unfold scanDirectory
  rw [hopen]
  refine Triple.taking nofun fun answer hanswer => ?_
  obtain rfl := Except.ok.inj hanswer
  -- the stream lists the names of the directory, in any order and with the dots
  have hnames : ∀ name, name ∈ tree.names directory.path ↔
      name ∈ stream.names ∧ isDots name = false := by
    intro name
    rw [← hperm.mem_iff, List.mem_filter, Bool.not_eq_true']
  have hloop : Triple granted (Visiting tree inputs options next directory [])
      (forEach stream.names (scanEntry fs options directory))
      (fun _ => Visiting tree inputs options next directory stream.names)
      (fun _ => Refused tree inputs options) :=
    Triple.forEach _ fun done name rest hsplit => scanEntry_spec hfs fun hdots =>
      (hnames name).mpr ⟨hsplit ▸ by simp, hdots⟩
  refine Triple.bind (hloop.pre fun _ hs => hs ▸ h) fun _ => ?_
  refine Triple.require (fun st' h' _ => ?_) fun _ _ hnot => absurd hfailed hnot
  refine ⟨⟨h'.searching.gathered, ?_, h'.searching.each_input, h'.searching.input_files, ?_⟩,
    h'.counter, h'.next_lt⟩
  · have hqueue : (searchQueue st'.directories.entries)[next]? =
        some (directory.path, directory.depth) := by
      rw [searchQueue, List.getElem?_map, h'.current]
      rfl
    refine h'.searching.explored.scanned hqueue ?_
    rintro child ⟨hrecursive, ⟨hkind, name, hmem, rfl⟩, hchild⟩
    obtain ⟨hseen, hdots⟩ := (hnames name).mp hmem
    rw [map_fst_searchQueue]
    exact (h'.each_name name hseen hdots).2.2 ⟨hrecursive, ⟨hkind, name, hmem, rfl⟩, hchild⟩
  · intro entry hentry path hpath
    obtain ⟨hlt, hat⟩ := List.getElem?_eq_some_iff.mp h'.current
    rw [List.take_succ_eq_append_getElem hlt, hat] at hentry
    rcases List.mem_append.mp hentry with hentry | hentry
    · exact h'.searching.scanned entry hentry path hpath
    · obtain rfl := List.mem_singleton.mp hentry
      obtain ⟨-, name, hmem, rfl⟩ := hpath
      obtain ⟨hseen, hdots⟩ := (hnames name).mp hmem
      obtain ⟨hok, hfile, -⟩ := h'.each_name name hseen hdots
      exact ⟨hok, hfile⟩

theorem Gathered.directories_le (h : Gathered tree inputs options st) {bound : ℕ}
    (hbound : (directoriesBelow tree inputs options).encard ≤ bound) :
    st.directories.entries.length ≤ bound := by
  have hlength : ((directoryTexts st).length : ℕ∞) ≤
      (directoriesBelow tree inputs options).encard := by
    refine Breadth.length_le_encard h.directories.index.nodup fun text htext => ?_
    obtain ⟨entry, hmem, rfl⟩ := List.mem_map.mp htext
    exact ⟨entry.depth, (h.each_directory entry hmem).1⟩
  rw [List.length_map] at hlength
  exact Nat.cast_le.mp (hlength.trans hbound)

/-- A search that is over. -/
def Finished (tree : FileTree) (inputs : List (Option Text))
    (options : CommonPathDiscoveryOptions) (st : Discovery) : Prop :=
  ∃ next level, Searching tree inputs options next level st ∧
    st.directories.entries.length ≤ next

/-- **The loop over the queue ends**, in no more rounds than there are directories. -/
theorem drainQueue_spec (hfs : AnsweredFrom fs tree) {bound : ℕ}
    (hbound : (directoriesBelow tree inputs options).encard ≤ bound) (rounds : ℕ) :
    Triple granted
      (fun st => (∃ level, Searching tree inputs options st.directories.next level st) ∧
        st.directories.next ≤ st.directories.entries.length ∧
        bound < st.directories.next + rounds)
      (drainQueue fs options rounds)
      (fun finished st => finished = true ∧ Finished tree inputs options st)
      (fun _ => Refused tree inputs options) := by
  induction rounds with
  | zero =>
      refine Triple.each fun st ⟨⟨level, h⟩, hle, hlt⟩ => ?_
      have := h.gathered.directories_le hbound
      omega
  | succ rounds ih =>
      refine Triple.each fun st ⟨⟨level, h⟩, hle, hlt⟩ => ?_
      unfold drainQueue
      refine Triple.reading ?_
      cases hcurrent : st.directories.entries[st.directories.next]? with
      | none =>
          refine Triple.pure fun _ hs => hs ▸ ⟨rfl, _, level, h, ?_⟩
          exact List.getElem?_eq_none_iff.mp hcurrent
      | some directory =>
          have hqueue : (searchQueue st.directories.entries)[st.directories.next]? =
              some (directory.path, directory.depth) := by
            rw [searchQueue, List.getElem?_map, hcurrent]
            rfl
          -- the counter moves past the directory before its names are read
          have hvisit : Triple granted (· = st)
              (replace { st with
                directories := { st.directories with next := st.directories.next + 1 } })
              (fun _ => Visiting tree inputs options st.directories.next directory [])
              (fun _ : CommonPathDiscoveryStatus => Refused tree inputs options) := by
            refine Triple.replace fun _ _ => ?_
            exact ⟨⟨⟨h.gathered.files, h.gathered.directories, h.gathered.each_file,
              h.gathered.each_directory, h.gathered.file_limit, h.gathered.directory_limit,
              h.gathered.depth_limit⟩, h.explored.enter hqueue, h.each_input, h.input_files,
              h.scanned⟩, rfl, hcurrent, by simp⟩
          refine hvisit.bind fun _ => (scanDirectory_spec hfs).bind fun _ => ih.pre ?_
          rintro st' ⟨h', hnext, hle'⟩
          rw [hnext]
          exact ⟨⟨directory.depth, h'⟩, hle', by omega⟩

/-- With the inputs taken the search starts. -/
theorem Taken.searching (h : Taken tree inputs options inputs st) :
    Searching tree inputs options 0 0 st := by
  refine ⟨h.gathered, Breadth.Explored.start ?_ ?_ ?_, h.each_input, h.each_file, by simp⟩
  · rw [map_fst_searchQueue]
    exact h.gathered.directories.index.nodup
  · intro e he
    obtain ⟨entry, hentry, rfl⟩ := List.mem_map.mp he
    exact h.roots entry hentry
  · intro path hroot
    obtain ⟨entry, hentry, rfl⟩ := List.mem_map.mp (h.each_directory path hroot.1 hroot.2)
    rw [mem_searchQueue, ← (h.roots entry hentry).1]
    exact hentry

/-- **The nodes of a run.** -/
theorem discoverNodes_spec (hfs : AnsweredFrom fs tree) {rounds : ℕ}
    (hrounds : (directoriesBelow tree inputs options).ncard < rounds) :
    Triple granted (· = Discovery.empty) (discoverNodes fs rounds inputs options)
      (fun finished st => finished = true ∧ Finished tree inputs options st)
      (fun _ => Refused tree inputs options) := by
  have hinputs : Triple granted (Taken tree inputs options [])
      (forEach inputs (takeInput fs options)) (fun _ => Taken tree inputs options inputs)
      (fun _ => Refused tree inputs options) :=
    Triple.forEach _ fun done input rest hsplit => takeInput_spec hfs (hsplit ▸ by simp)
  have hbound : (directoriesBelow tree inputs options).encard ≤
      (directoriesBelow tree inputs options).ncard := finite_directories.cast_ncard_eq.ge
  refine (hinputs.pre ?_).bind fun _ => (drainQueue_spec hfs hbound rounds).pre ?_
  · rintro _ rfl
    exact ⟨Gathered.empty, rfl, by simp [Discovery.empty], nofun, nofun, nofun⟩
  · intro st h
    rw [h.next]
    exact ⟨⟨0, h.searching⟩, Nat.zero_le _, by omega⟩

/-! ## What is found -/

namespace Finished

/-- All directories are recorded, each with its least depth. -/
theorem mem_directories (h : Finished tree inputs options st) {depth : ℕ} :
    ⟨path, depth⟩ ∈ st.directories.entries ↔
      IsLeast (directoryDepths tree inputs options path) depth := by
  obtain ⟨next, level, hsearching, hdone⟩ := h
  rw [← mem_searchQueue]
  exact hsearching.explored.mem_iff (by rwa [searchQueue, List.length_map])

theorem mem_directoryTexts (h : Finished tree inputs options st) :
    path ∈ directoryTexts st ↔ path ∈ directoriesBelow tree inputs options := by
  obtain ⟨next, level, hsearching, hdone⟩ := h
  constructor
  · intro hmem
    obtain ⟨entry, hentry, rfl⟩ := List.mem_map.mp hmem
    exact ⟨entry.depth, (hsearching.gathered.each_directory entry hentry).1⟩
  · rintro ⟨depth, hderived⟩
    rw [directoryTexts, ← map_fst_searchQueue]
    exact hsearching.explored.complete (by rwa [searchQueue, List.length_map]) hderived

/-- An entry of a directory was scanned. -/
theorem scanned (h : Finished tree inputs options st) {directory : Text}
    (hdirectory : directory ∈ directoriesBelow tree inputs options)
    (hentry : IsEntry tree directory path) :
    EntryOk tree options path ∧ (tree.kind path = some .regular → path ∈ fileTexts st) := by
  obtain ⟨entry, hmem, rfl⟩ := List.mem_map.mp (h.mem_directoryTexts.mpr hdirectory)
  obtain ⟨next, level, hsearching, hdone⟩ := h
  refine hsearching.scanned entry ?_ path hentry
  rwa [List.take_of_length_le hdone]

theorem mem_fileTexts (h : Finished tree inputs options st) :
    path ∈ fileTexts st ↔ IsFile tree inputs options path := by
  constructor
  · intro hmem
    obtain ⟨next, level, hsearching, hdone⟩ := h
    obtain ⟨file, hfile, rfl⟩ := List.mem_map.mp hmem
    exact (hsearching.gathered.each_file file hfile).1
  · rintro ⟨hkind, hinput | ⟨directory, hdirectory, hentry⟩⟩
    · obtain ⟨next, level, hsearching, hdone⟩ := h
      exact hsearching.input_files path hinput hkind
    · exact (h.scanned hdirectory hentry).2 hkind

/-- **The files are those of the specification**, with their flags. -/
theorem mem_files (h : Finished tree inputs options st) {file : CommonDiscoveredPath} :
    file ∈ st.files.entries ↔ IsFile tree inputs options file.path ∧
      (file.explicitFile = true ↔ some file.path ∈ inputs) := by
  have hall := h
  obtain ⟨next, level, hsearching, hdone⟩ := h
  refine ⟨hsearching.gathered.each_file file, fun ⟨hfile, hflag⟩ => ?_⟩
  obtain ⟨recorded, hmem, hpath⟩ := List.mem_map.mp (hall.mem_fileTexts.mpr hfile)
  have hrecorded := (hsearching.gathered.each_file recorded hmem).2
  rw [hpath, ← hflag] at hrecorded
  obtain ⟨text, flag⟩ := file
  obtain ⟨text', flag'⟩ := recorded
  obtain rfl : text' = text := hpath
  obtain rfl : flag' = flag := Bool.eq_iff_iff.mpr hrecorded
  exact hmem

/-- **A run that ends has met nothing that is not admissible.** -/
theorem admissible (h : Finished tree inputs options st) (hne : inputs ≠ []) :
    Admissible tree inputs options := by
  have hall := h
  obtain ⟨next, level, hsearching, hdone⟩ := h
  have hgathered := hsearching.gathered
  refine ⟨hne, hsearching.each_input, fun directory hdirectory path hentry =>
    (hall.scanned hdirectory hentry).1, ?_, ?_, ?_⟩
  · have hcard : {path | IsFile tree inputs options path}.encard = (fileTexts st).length :=
      Breadth.encard_eq_length hgathered.files.index.nodup fun path => hall.mem_fileTexts
    rw [hcard, Nat.cast_le, List.length_map]
    exact hgathered.file_limit
  · have hcard : (directoriesBelow tree inputs options).encard = (directoryTexts st).length :=
      Breadth.encard_eq_length hgathered.directories.index.nodup fun path =>
        hall.mem_directoryTexts
    rw [hcard, Nat.cast_le, List.length_map]
    exact hgathered.directory_limit
  · rcases hgathered.depth_limit with hzero | hle
    · exact Or.inl hzero
    · exact Or.inr fun path depth hleast => hle _ (hall.mem_directories.mpr hleast)

end Finished

/-! ## The result -/

/-- **What a successful run leaves the caller.** -/
structure IsDiscovered (tree : FileTree) (inputs : List (Option Text))
    (options : CommonPathDiscoveryOptions) (files : List CommonDiscoveredPath) : Prop where
  sorted : StrictlySorted files
  mem_iff : ∀ file, file ∈ files ↔ IsFile tree inputs options file.path ∧
    (file.explicitFile = true ↔ some file.path ∈ inputs)

/-- The specification has one result, whatever the order of the inputs. -/
theorem IsDiscovered.unique {inputs' : List (Option Text)}
    {files files' : List CommonDiscoveredPath} (h : IsDiscovered tree inputs options files)
    (h' : IsDiscovered tree inputs' options files')
    (hinputs : ∀ input, input ∈ inputs ↔ input ∈ inputs') : files = files' := by
  refine h.sorted.ext h'.sorted fun file => ?_
  rw [h.mem_iff, h'.mem_iff, isFile_congr hinputs, hinputs]

/-- The result of a call, if it succeeds. -/
def discovered : Result CommonPathDiscoveryStatus (List CommonDiscoveredPath) Bool →
    Option (List CommonDiscoveredPath)
  | .ok true files _ => some files
  | _ => none

/-- **Success is admissibility**, and the result is the specified one. -/
theorem commonPathDiscover_spec (hfs : AnsweredFrom fs tree)
    {options : Option CommonPathDiscoveryOptions} {rounds : ℕ}
    (hrounds : (directoriesBelow tree inputs (effectiveOptions options)).ncard < rounds)
    (result : List CommonDiscoveredPath) (n : ℕ) :
    (Admissible tree inputs (effectiveOptions options) ∧ ∃ files n',
      commonPathDiscover fs rounds inputs options granted result n = .ok true files n' ∧
        IsDiscovered tree inputs (effectiveOptions options) files) ∨
    (¬ Admissible tree inputs (effectiveOptions options) ∧ ∃ e n',
      commonPathDiscover fs rounds inputs options granted result n = .error e result n') := by
  unfold commonPathDiscover
  by_cases hne : inputs ≠ []
  · have hspec := discoverNodes_spec hfs hrounds Discovery.empty n rfl
    cases hrun : discoverNodes fs rounds inputs (effectiveOptions options) granted
        Discovery.empty n with
    | ok finished st n' =>
        rw [hrun] at hspec
        obtain ⟨rfl, hfinished⟩ := hspec
        have hgathered := hfinished.choose_spec.choose_spec.1.gathered
        have hnodup : (st.files.entries.map CommonDiscoveredPath.path).Nodup :=
          hgathered.files.index.nodup
        obtain ⟨hperm, hsorted⟩ := sortAndDeduplicate_of_nodup hnodup
        refine Or.inl ⟨hfinished.admissible hne, sortAndDeduplicate st.files.entries, n', ?_,
          hsorted, fun file => hperm.mem_iff.trans hfinished.mem_files⟩
        rw [require_bind_eq_ok]
        refine ⟨hne, within_bind_eq_ok.mpr ⟨true, st, n', hrun, ?_⟩⟩
        rfl
    | error e st n' =>
        rw [hrun] at hspec
        refine Or.inr ⟨hspec.1, e, n', ?_⟩
        refine bind_eq_error.mpr (Or.inr ⟨(), result, n, require_eq_ok.mpr ⟨hne, rfl, rfl⟩,
          bind_eq_error.mpr (Or.inl ?_)⟩)
        rw [within, hrun]
  · refine Or.inr ⟨fun h => hne h.nonempty, .invalidArgument, n,
      bind_eq_error.mpr (Or.inl ?_)⟩
    rw [require, if_neg hne]

/-- Every depth that is recorded is the least, whether the run succeeds or not, and
a run that succeeds records every directory. -/
theorem discoverNodes_depths (hfs : AnsweredFrom fs tree) {rounds : ℕ}
    (hrounds : (directoriesBelow tree inputs options).ncard < rounds) (n : ℕ) :
    (∀ entry ∈ (discoverNodes fs rounds inputs options granted
        Discovery.empty n).state.directories.entries,
      IsLeast (directoryDepths tree inputs options entry.path) entry.depth) ∧
    (Admissible tree inputs options → ∀ path depth,
      IsLeast (directoryDepths tree inputs options path) depth →
        ⟨path, depth⟩ ∈ (discoverNodes fs rounds inputs options granted
          Discovery.empty n).state.directories.entries) := by
  have hspec := discoverNodes_spec hfs hrounds Discovery.empty n rfl
  cases hrun : discoverNodes fs rounds inputs options granted Discovery.empty n with
  | ok finished st n' =>
      rw [hrun] at hspec
      exact ⟨fun entry hentry => hspec.2.mem_directories.mp hentry,
        fun _ path depth hleast => hspec.2.mem_directories.mpr hleast⟩
  | error e st n' =>
      rw [hrun] at hspec
      exact ⟨hspec.2, fun hadmissible => absurd hadmissible hspec.1⟩

/-- **The result does not depend on an order**, of the inputs or of the entries. -/
theorem discovered_congr {fs' : FileSystem} (hfs : AnsweredFrom fs tree)
    (hfs' : AnsweredFrom fs' tree) {inputs' : List (Option Text)}
    {options : Option CommonPathDiscoveryOptions} {rounds rounds' : ℕ}
    (hinputs : ∀ input, input ∈ inputs ↔ input ∈ inputs')
    (hrounds : (directoriesBelow tree inputs (effectiveOptions options)).ncard < rounds)
    (hrounds' : (directoriesBelow tree inputs' (effectiveOptions options)).ncard < rounds')
    (result result' : List CommonDiscoveredPath) (n n' : ℕ) :
    discovered (commonPathDiscover fs rounds inputs options granted result n) =
      discovered (commonPathDiscover fs' rounds' inputs' options granted result' n') := by
  rcases commonPathDiscover_spec hfs hrounds result n with
    ⟨hadmissible, files, m, hrun, hfiles⟩ | ⟨hrefused, e, m, hrun⟩ <;>
  rcases commonPathDiscover_spec hfs' hrounds' result' n' with
    ⟨hadmissible', files', m', hrun', hfiles'⟩ | ⟨hrefused', e', m', hrun'⟩
  · rw [hrun, hrun', discovered, discovered, hfiles.unique hfiles' hinputs]
  · exact absurd (hadmissible.congr hinputs) hrefused'
  · exact absurd (hadmissible'.congr fun input => (hinputs input).symm) hrefused
  · rw [hrun, hrun']
    rfl

/-- **Path discovery computes a specification independent of any order.** -/
theorem commonPathDiscover_specification (hfs : AnsweredFrom fs tree)
    {options : Option CommonPathDiscoveryOptions} {rounds : ℕ}
    (hrounds : (directoriesBelow tree inputs (effectiveOptions options)).ncard < rounds)
    (result : List CommonDiscoveredPath) (n : ℕ) :
    ((Admissible tree inputs (effectiveOptions options) ∧ ∃ files n',
        commonPathDiscover fs rounds inputs options granted result n = .ok true files n' ∧
          IsDiscovered tree inputs (effectiveOptions options) files) ∨
      (¬ Admissible tree inputs (effectiveOptions options) ∧ ∃ e n',
        commonPathDiscover fs rounds inputs options granted result n = .error e result n')) ∧
    (∀ entry ∈ (discoverNodes fs rounds inputs (effectiveOptions options) granted
        Discovery.empty n).state.directories.entries,
      IsLeast (directoryDepths tree inputs (effectiveOptions options) entry.path) entry.depth) ∧
    (Admissible tree inputs (effectiveOptions options) → ∀ path depth,
      IsLeast (directoryDepths tree inputs (effectiveOptions options) path) depth →
        ⟨path, depth⟩ ∈ (discoverNodes fs rounds inputs (effectiveOptions options) granted
          Discovery.empty n).state.directories.entries) ∧
    ∀ fs' inputs' rounds' result' n', AnsweredFrom fs' tree → inputs.Perm inputs' →
      (directoriesBelow tree inputs' (effectiveOptions options)).ncard < rounds' →
      discovered (commonPathDiscover fs' rounds' inputs' options granted result' n') =
        discovered (commonPathDiscover fs rounds inputs options granted result n) := by
  obtain ⟨hleast, hall⟩ := discoverNodes_depths hfs hrounds n
  refine ⟨commonPathDiscover_spec hfs hrounds result n, hleast, hall, ?_⟩
  intro fs' inputs' rounds' result' n' hfs' hperm hrounds'
  exact (discovered_congr hfs hfs' (fun _ => hperm.mem_iff) hrounds hrounds' result result'
    n n').symm

/-- A directory with a file and a directory that has a file of its own. -/
def sampleNodes : List TreeNode :=
  [⟨ascii "d", .directory, [ascii "e", ascii "f"]⟩, ⟨ascii "d/f", .regular, []⟩,
    ⟨ascii "d/e", .directory, [ascii "g"]⟩, ⟨ascii "d/e/g", .regular, []⟩]

def sampleTree : FileTree := FileTree.ofNodes sampleNodes (by decide)

def sampleInputs : List (Option Text) := [some (ascii "d"), some (ascii "d/f")]

theorem commonPathDiscover_sample :
    commonPathDiscover (sampleTree.served id) 5 sampleInputs none granted [] 0 =
        .ok true [⟨ascii "d/e/g", false⟩, ⟨ascii "d/f", true⟩] 11 ∧
      (∀ entry ∈ (discoverNodes (sampleTree.served id) 5 sampleInputs (effectiveOptions none)
          granted Discovery.empty 0).state.directories.entries,
        IsLeast (directoryDepths sampleTree sampleInputs (effectiveOptions none) entry.path)
          entry.depth) ∧
      discovered (commonPathDiscover (sampleTree.served List.reverse) 5 sampleInputs.reverse none
          granted [] 0) =
        discovered (commonPathDiscover (sampleTree.served id) 5 sampleInputs none granted [] 0) := by
  have hid : AnsweredFrom (sampleTree.served id) sampleTree :=
    sampleTree.answeredFrom_served fun names => List.Perm.refl names
  have hreverse : AnsweredFrom (sampleTree.served List.reverse) sampleTree :=
    sampleTree.answeredFrom_served List.reverse_perm
  have hrounds : ∀ inputs,
      (directoriesBelow sampleTree inputs (effectiveOptions none)).ncard < 5 :=
    fun inputs => Nat.lt_succ_of_le (ncard_directories_ofNodes _)
  have h := commonPathDiscover_specification hid (hrounds sampleInputs) [] 0
  refine ⟨by decide +kernel, h.2.1, ?_⟩
  exact h.2.2.2 _ _ 5 [] 0 hreverse (List.reverse_perm sampleInputs).symm (hrounds _)

end UnityCommon.PathDiscovery
