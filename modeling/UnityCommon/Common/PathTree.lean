import UnityCommon.Common.PathIndex
import UnityCommon.Lib.Breadth
import UnityCommon.Lib.SortedAssoc

/-!
# What path discovery is for

A finite directory tree, the directories and files below a list of inputs, and
the inputs and options that are accepted. The depth of a directory is the least
over its derivations, and the limits count spellings. Nothing here mentions an
order of the inputs or of the entries of a directory.
-/

namespace UnityCommon.PathDiscovery

open UnityCommon.Common

/-- A tree that does not change, by the spellings of its paths. The names of a
directory leave out `.` and `..`; going down to a directory lowers the height, so
the tree is finite. -/
structure FileTree where
  kind : Text → Option PathNodeKind
  names : Text → List Text
  height : Text → ℕ
  name_ok : ∀ directory, kind directory = some .directory → ∀ name ∈ names directory,
    name ≠ [] ∧ isDots name = false
  entry_found : ∀ directory, kind directory = some .directory → ∀ name ∈ names directory,
    kind (joined directory name) ≠ none
  height_lt : ∀ directory, kind directory = some .directory → ∀ name ∈ names directory,
    kind (joined directory name) = some .directory →
      height (joined directory name) < height directory

/-- Every answer is read off the tree, without an I/O error. A directory is listed
in any order, which may differ from one opening to the next. -/
structure AnsweredFrom (fs : FileSystem) (tree : FileTree) : Prop where
  kind : ∀ path, fs.queryPathKind path =
    match tree.kind path with
    | some kind => .ok kind
    | none => .error .notFound
  stream : ∀ path, tree.kind path = some .directory → ∃ stream,
    fs.openDirectory path = .ok stream ∧ stream.failed = false ∧
      (stream.names.filter fun name => !isDots name).Perm (tree.names path)
  entry : ∀ path name kind, tree.kind path = some .directory → name ∈ tree.names path →
    tree.kind (joined path name) = some kind → fs.queryDirectoryEntryKind path name = .ok kind

/-! ## Trees by their nodes -/

/-- A path with its kind and, for a directory, its names. -/
structure TreeNode where
  path : Text
  kind : PathNodeKind
  names : List Text
deriving DecidableEq, Repr

/-- Each name of a directory is a node that comes after it. -/
def nodesOk (nodes : List TreeNode) : Bool :=
  nodes.all fun node => node.kind != .directory || node.names.all fun name =>
    name != [] && !isDots name &&
      decide (nodes.findIdx (·.path == node.path) <
        nodes.findIdx (·.path == joined node.path name)) &&
      (nodes.find? (·.path == joined node.path name)).isSome

namespace TreeNode

variable {nodes : List TreeNode} {directory name : Text}

theorem entry_ok (hnodes : nodesOk nodes = true)
    (hkind : (nodes.find? (·.path == directory)).map TreeNode.kind = some .directory)
    (hname : name ∈ ((nodes.find? (·.path == directory)).map TreeNode.names).getD []) :
    name ≠ [] ∧ isDots name = false ∧
      nodes.findIdx (·.path == directory) < nodes.findIdx (·.path == joined directory name) ∧
      (nodes.find? (·.path == joined directory name)).isSome := by
  cases hfind : nodes.find? (·.path == directory) with
  | none =>
      rw [hfind] at hkind
      cases hkind
  | some node =>
      rw [hfind] at hkind hname
      have hpath : node.path = directory := by simpa using List.find?_some hfind
      have hnode := List.all_eq_true.mp hnodes node (List.mem_of_find?_eq_some hfind)
      have hdirectory : node.kind = .directory := Option.some_inj.mp hkind
      rw [hdirectory, bne_self_eq_false, Bool.false_or, List.all_eq_true] at hnode
      have := hnode name hname
      rw [hpath] at this
      simpa [and_assoc] using this

end TreeNode

/-- The tree of a list of nodes, directories before what they hold. -/
def FileTree.ofNodes (nodes : List TreeNode) (h : nodesOk nodes = true) : FileTree where
  kind path := (nodes.find? (·.path == path)).map TreeNode.kind
  names path := ((nodes.find? (·.path == path)).map TreeNode.names).getD []
  height path := nodes.length - nodes.findIdx (·.path == path)
  name_ok _ hkind _ hname :=
    ⟨(TreeNode.entry_ok h hkind hname).1, (TreeNode.entry_ok h hkind hname).2.1⟩
  entry_found directory hkind name hname := by
    obtain ⟨-, -, -, hfound⟩ := TreeNode.entry_ok h hkind hname
    rw [Ne, Option.map_eq_none_iff]
    exact Option.isSome_iff_ne_none.mp hfound
  height_lt directory hkind name hname _ := by
    obtain ⟨-, -, hlt, hfound⟩ := TreeNode.entry_ok h hkind hname
    obtain ⟨node, hmem, hnode⟩ := List.find?_isSome.mp hfound
    have hlength : nodes.findIdx (·.path == joined directory name) < nodes.length :=
      List.findIdx_lt_length_of_exists ⟨node, hmem, hnode⟩
    omega

/-- The answers of a tree whose directories are read in a given order. -/
def FileTree.served (tree : FileTree) (order : List Text → List Text) : FileSystem where
  queryPathKind path :=
    match tree.kind path with
    | some kind => .ok kind
    | none => .error .notFound
  openDirectory path := .ok ⟨[46] :: [46, 46] :: order (tree.names path), false⟩
  queryDirectoryEntryKind path name :=
    match tree.kind (joined path name) with
    | some kind => .ok kind
    | none => .error .notFound

theorem FileTree.answeredFrom_served (tree : FileTree) {order : List Text → List Text}
    (horder : ∀ names, (order names).Perm names) : AnsweredFrom (tree.served order) tree where
  kind _ := rfl
  stream path hkind := by
    refine ⟨_, rfl, rfl, ?_⟩
    have hkeep : (order (tree.names path)).filter (fun name => !isDots name) =
        order (tree.names path) := by
      refine List.filter_eq_self.mpr fun name hname => ?_
      rw [(tree.name_ok path hkind name ((horder _).mem_iff.mp hname)).2]
      rfl
    have hdots : ([46] :: [46, 46] :: order (tree.names path)).filter (fun name => !isDots name) =
        (order (tree.names path)).filter (fun name => !isDots name) := rfl
    rw [hdots, hkeep]
    exact horder _
  entry path name kind _ _ hkind := by
    simp only [FileTree.served, hkind]

section Specification

variable (tree : FileTree) (inputs : List (Option Text)) (options : CommonPathDiscoveryOptions)

def IsRoot (path : Text) : Prop := some path ∈ inputs ∧ tree.kind path = some .directory

def IsEntry (directory path : Text) : Prop :=
  tree.kind directory = some .directory ∧ ∃ name ∈ tree.names directory, path = joined directory name

/-- Descendant directories are searched where `recursive` is set. -/
def IsSubdirectory (directory path : Text) : Prop :=
  options.recursive = true ∧ IsEntry tree directory path ∧ tree.kind path = some .directory

/-- The depths of a directory over all its derivations. -/
def directoryDepths (path : Text) : Set ℕ :=
  Breadth.depths (IsRoot tree inputs) (IsSubdirectory tree options) path

def directoriesBelow : Set Text :=
  Breadth.found (IsRoot tree inputs) (IsSubdirectory tree options)

def IsFile (path : Text) : Prop :=
  tree.kind path = some .regular ∧
    (some path ∈ inputs ∨
      ∃ directory ∈ directoriesBelow tree inputs options, IsEntry tree directory path)

def PathFits (path : Text) : Prop :=
  options.maxPathBytes = 0 ∨ path.length ≤ options.maxPathBytes

/-- An input that is not refused by itself. -/
def InputOk (input : Option Text) : Prop :=
  ∃ path, input = some path ∧ path ≠ [] ∧ PathFits options path ∧
    (tree.kind path = some .regular ∨ tree.kind path = some .directory)

/-- A path below a directory that is not refused by itself. -/
def EntryOk (path : Text) : Prop :=
  path.length < sizeMax ∧ PathFits options path ∧
    (tree.kind path = some .link → options.rejectDescendantLinks = false) ∧
    (tree.kind path = some .other → options.rejectDescendantUnsupportedNodes = false)

/-- **What is accepted.** -/
structure Admissible : Prop where
  nonempty : inputs ≠ []
  each_input : ∀ input ∈ inputs, InputOk tree options input
  each_entry : ∀ directory ∈ directoriesBelow tree inputs options, ∀ path,
    IsEntry tree directory path → EntryOk tree options path
  file_limit : options.maxFiles = 0 ∨ {path | IsFile tree inputs options path}.encard ≤ options.maxFiles
  directory_limit : options.maxDirectories = 0 ∨
    (directoriesBelow tree inputs options).encard ≤ options.maxDirectories
  depth_limit : options.maxDepth = 0 ∨ ∀ path depth,
    IsLeast (directoryDepths tree inputs options path) depth → depth ≤ options.maxDepth

end Specification

variable {tree : FileTree} {inputs inputs' : List (Option Text)}
  {options : CommonPathDiscoveryOptions} {path : Text} {depth : ℕ}

theorem kind_of_derived
    (h : Breadth.Derived (IsRoot tree inputs) (IsSubdirectory tree options) depth path) :
    tree.kind path = some .directory := by
  cases h with
  | root h => exact h.2
  | step _ h => exact h.2.2

/-- A path is longer than what it is joined to. -/
theorem length_joined_lt {directory name : Text} (hname : name ≠ []) :
    directory.length < (joined directory name).length := by
  have := List.length_pos_iff.mpr hname
  simp only [joined, List.length_append]
  omega

/-- A directory is at least as long as it is deep. -/
theorem depth_le_length
    (h : Breadth.Derived (IsRoot tree inputs) (IsSubdirectory tree options) depth path) :
    depth ≤ path.length := by
  induction h with
  | root => exact Nat.zero_le _
  | step hparent hstep ih =>
      obtain ⟨-, ⟨-, name, hmem, rfl⟩, -⟩ := hstep
      have hname := (tree.name_ok _ (kind_of_derived hparent) name hmem).1
      exact Nat.lt_of_le_of_lt ih (length_joined_lt hname)

theorem finite_directories : (directoriesBelow tree inputs options).Finite := by
  have hdown : ∀ directory path, IsSubdirectory tree options directory path →
      tree.height path < tree.height directory := by
    rintro directory path ⟨-, ⟨hkind, name, hmem, rfl⟩, hpath⟩
    exact tree.height_lt directory hkind name hmem hpath
  refine Breadth.finite_found hdown ?_ ?_
  · refine ((List.finite_toSet inputs).preimage (Option.some_injective _).injOn).subset ?_
    exact fun path h => h.1
  · intro directory
    refine ((tree.names directory).finite_toSet.image (joined directory)).subset ?_
    rintro path ⟨-, ⟨-, name, hmem, rfl⟩, -⟩
    exact Set.mem_image_of_mem _ hmem

/-- A tree of nodes has no more directories than nodes. -/
theorem ncard_directories_ofNodes {nodes : List TreeNode} (h : nodesOk nodes = true) :
    (directoriesBelow (FileTree.ofNodes nodes h) inputs options).ncard ≤ nodes.length := by
  classical
  have hsub : directoriesBelow (FileTree.ofNodes nodes h) inputs options ⊆
      ((nodes.map TreeNode.path).toFinset : Set Text) := by
    rintro path ⟨depth, hderived⟩
    obtain ⟨node, hnode, -⟩ := Option.map_eq_some_iff.mp (kind_of_derived hderived)
    have hpath : node.path = path := by simpa using List.find?_some hnode
    simpa using ⟨node, List.mem_of_find?_eq_some hnode, hpath⟩
  calc (directoriesBelow (FileTree.ofNodes nodes h) inputs options).ncard
      ≤ (nodes.map TreeNode.path).toFinset.card := by
        rw [← Set.ncard_coe_finset]
        exact Set.ncard_le_ncard hsub (Finset.finite_toSet _)
    _ ≤ nodes.length := by
        simpa using (nodes.map TreeNode.path).toFinset_card_le

/-! ## Order -/

/-- What is found depends on which inputs there are. -/
theorem isRoot_congr (h : ∀ input, input ∈ inputs ↔ input ∈ inputs') :
    IsRoot tree inputs = IsRoot tree inputs' := by
  funext path
  rw [IsRoot, IsRoot, h]

theorem isFile_congr (h : ∀ input, input ∈ inputs ↔ input ∈ inputs') :
    IsFile tree inputs options = IsFile tree inputs' options := by
  funext path
  rw [IsFile, IsFile, h, directoriesBelow, directoriesBelow, isRoot_congr h]

/-- **Acceptance does not depend on the order of the inputs.** -/
theorem Admissible.congr (h : ∀ input, input ∈ inputs ↔ input ∈ inputs')
    (hadmissible : Admissible tree inputs options) : Admissible tree inputs' options := by
  have hroot : IsRoot tree inputs = IsRoot tree inputs' := isRoot_congr h
  refine ⟨fun hnil => ?_, fun input hinput => hadmissible.each_input input ((h input).mpr hinput),
    ?_, ?_, ?_, ?_⟩
  · subst hnil
    exact hadmissible.nonempty (List.eq_nil_iff_forall_not_mem.mpr fun input => by simp [h])
  · have := hadmissible.each_entry
    rwa [directoriesBelow, hroot] at this
  · have := hadmissible.file_limit
    rwa [isFile_congr h] at this
  · have := hadmissible.directory_limit
    rwa [directoriesBelow, hroot] at this
  · have := hadmissible.depth_limit
    unfold directoryDepths at this ⊢
    rwa [hroot] at this

/-! ## The order of the result -/

theorem strcmp_eq_compare : ∀ left right : Text, strcmp left right = compare left right
  | [], [] => rfl
  | [], _ :: _ => by rw [strcmp, List.compare_nil_cons]
  | _ :: _, [] => by rw [strcmp, List.compare_cons_nil]
  | a :: as, b :: bs => by
      rw [strcmp, List.compare_cons_cons, strcmp_eq_compare as bs]
      cases compare a b <;> rfl

instance : Std.TransCmp strcmp := by
  have h : strcmp = compare := funext fun left => funext fun right => strcmp_eq_compare left right
  rw [h]
  infer_instance

instance : Std.LawfulEqCmp strcmp := by
  have h : strcmp = compare := funext fun left => funext fun right => strcmp_eq_compare left right
  rw [h]
  infer_instance

abbrev StrictlySorted (files : List CommonDiscoveredPath) : Prop :=
  SortedAssoc.Increasing strcmp CommonDiscoveredPath.path files

instance : IsTrans CommonDiscoveredPath (comparesLE · ·) where
  trans _ _ _ hab hbc := Std.TransCmp.isLE_trans hab hbc

instance : @Std.Total CommonDiscoveredPath (comparesLE · ·) where
  total a b := by
    unfold comparesLE
    cases h : strcmp a.path b.path with
    | lt => exact Or.inl rfl
    | eq => exact Or.inl rfl
    | gt =>
        rw [Std.OrientedCmp.lt_of_gt h]
        exact Or.inr rfl

theorem mergeEqual_of_sorted {first : CommonDiscoveredPath} {rest : List CommonDiscoveredPath}
    (h : StrictlySorted (first :: rest)) : mergeEqual first rest = first :: rest := by
  induction rest generalizing first with
  | nil => rfl
  | cons current rest ih =>
      obtain ⟨hfirst, hrest⟩ := List.pairwise_cons.mp h
      have hlt := hfirst current List.mem_cons_self
      rw [mergeEqual, if_neg (by rw [hlt]; decide), ih hrest]

/-- **Distinct paths are sorted, and none is merged.** -/
theorem sortAndDeduplicate_of_nodup {files : List CommonDiscoveredPath}
    (h : (files.map CommonDiscoveredPath.path).Nodup) :
    (sortAndDeduplicate files).Perm files ∧ StrictlySorted (sortAndDeduplicate files) := by
  have hperm := List.perm_insertionSort (comparesLE · ·) files
  have hsorted := List.pairwise_insertionSort (comparesLE · ·) files
  have hdistinct : (files.insertionSort (comparesLE · ·)).Pairwise
      fun left right => left.path ≠ right.path :=
    List.pairwise_map.mp ((hperm.map CommonDiscoveredPath.path).nodup_iff.mpr h)
  have hstrict : StrictlySorted (files.insertionSort (comparesLE · ·)) := by
    refine (hsorted.and hdistinct).imp fun {left right} ⟨hle, hne⟩ => ?_
    unfold comparesLE at hle
    cases hcompare : strcmp left.path right.path with
    | lt => rfl
    | eq => exact absurd (Std.LawfulEqCmp.eq_of_compare hcompare) hne
    | gt =>
        rw [hcompare] at hle
        cases hle
  have heq : sortAndDeduplicate files = files.insertionSort (comparesLE · ·) := by
    unfold sortAndDeduplicate
    cases hlist : files.insertionSort (comparesLE · ·) with
    | nil => rfl
    | cons first rest =>
        rw [hlist] at hstrict
        exact mergeEqual_of_sorted hstrict
  rw [heq]
  exact ⟨hperm, hstrict⟩

end UnityCommon.PathDiscovery
