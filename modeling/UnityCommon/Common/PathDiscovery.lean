import Mathlib.Data.List.Sort
import UnityCommon.Common.StringBuilder
import UnityCommon.Lib.ProbeTable
import UnityCommon.Lib.Triple

/-!
# Path discovery

`common/path_discovery.c` on a POSIX host. Paths are texts without a NUL, and
`COMMON_PATH_DISCOVERY_OK` is a call that returns. What the kernel answers to
`lstat`, `open` with `readdir`, and `fstatat` is an argument. A size that
overflows is refused where the allocator would refuse it, with the same status,
so the overflow checks before a request are part of its answer.
-/

namespace UnityCommon.PathDiscovery

open UnityCommon.Common Call

inductive CommonPathDiscoveryStatus where
  | invalidArgument
  | notFound
  | linkRejected
  | unsupportedNode
  | allocationFailed
  | ioError
  | fileLimitExceeded
  | directoryLimitExceeded
  | depthLimitExceeded
  | pathLimitExceeded
deriving DecidableEq, Repr

structure CommonDiscoveredPath where
  path : Text
  explicitFile : Bool
deriving DecidableEq, Repr

structure CommonPathDiscoveryOptions where
  recursive : Bool
  rejectDescendantLinks : Bool
  rejectDescendantUnsupportedNodes : Bool
  maxFiles : ℕ
  maxDirectories : ℕ
  maxDepth : ℕ
  maxPathBytes : ℕ
deriving DecidableEq, Repr

def commonPathDiscoveryOptionsDefault : CommonPathDiscoveryOptions :=
  ⟨true, false, false, 0, 0, 0, 0⟩

inductive PathNodeKind where
  | regular
  | directory
  | link
  | other
deriving DecidableEq, Repr

/-- The end of a text is before every byte. -/
def strcmp : Text → Text → Ordering
  | [], [] => .eq
  | [], _ :: _ => .lt
  | _ :: _, [] => .gt
  | a :: as, b :: bs =>
      match compare a b with
      | .eq => strcmp as bs
      | order => order

/-! ## The exact path index -/

/-- Zero is empty; a stored entry is encoded as its index plus one. The capacity is
the number of slots, none where `slots` is NULL. -/
structure ExactPathIndex where
  slots : List ℕ
deriving DecidableEq, Repr

def ExactPathIndex.capacity (index : ExactPathIndex) : ℕ := index.slots.length

def exactPathHash (path : Text) : UInt64 :=
  path.foldl (fun hash byte => (hash ^^^ byte.toUInt64) * 1099511628211) 14695981039346656037

def homeSlot (capacity : ℕ) (path : Text) : ℕ := (exactPathHash path).toNat &&& (capacity - 1)

def nextSlot (capacity slot : ℕ) : ℕ := (slot + 1) &&& (capacity - 1)

/-- `none` is `SIZE_MAX`. The paths are those of the entries, in their order. -/
def exactPathIndexFind (index : ExactPathIndex) (paths : List Text) (path : Text) : Option ℕ :=
  if index.capacity = 0 then none
  else ProbeTable.findFrom (nextSlot index.capacity) index.slots paths path index.capacity
    (homeSlot index.capacity path)

def exactPathIndexInsert (index : ExactPathIndex) (path : Text) (entry : ℕ) :
    Option ExactPathIndex :=
  if index.capacity = 0 then none
  else (ProbeTable.insertFrom (nextSlot index.capacity) index.slots entry index.capacity
    (homeSlot index.capacity path)).map ExactPathIndex.mk

/-- Doubles a capacity until it is enough, in at most so many rounds. -/
def doubleCapacity (enough : ℕ → Bool) : ℕ → ℕ → ℕ
  | 0, capacity => capacity
  | rounds + 1, capacity =>
      if enough capacity then capacity else doubleCapacity enough rounds (capacity * 2)

def exactPathIndexReserve (needed : ℕ) (paths : List Text) :
    Call CommonPathDiscoveryStatus ExactPathIndex Unit := do
  let index ← current
  if index.capacity ≠ 0 ∧ needed ≤ index.capacity / 2 then pure ()
  else do
    let capacity := doubleCapacity (fun capacity => needed ≤ capacity / 2) needed
      (if index.capacity = 0 then 16 else index.capacity)
    request .allocationFailed
    let slots ← ofOption .allocationFailed
      (ProbeTable.insertAll (nextSlot capacity) (homeSlot capacity) paths 0
        (List.replicate capacity 0))
    replace ⟨slots⟩

/-! ## The files and the directory queue -/

/-- The fields `PathBuilder` and `DirectoryQueue` share: the entries, the capacity
of their array and the index of their paths. -/
structure PathTable (α : Type) where
  entries : List α
  capacity : ℕ
  index : ExactPathIndex
deriving DecidableEq, Repr

abbrev PathBuilder := PathTable CommonDiscoveredPath

structure QueuedDirectory where
  path : Text
  depth : ℕ
deriving DecidableEq, Repr

structure DirectoryQueue extends PathTable QueuedDirectory where
  next : ℕ
deriving DecidableEq, Repr

section Tables

variable {α : Type}

/-- `builder_path_at` and `directory_path_at`. -/
def PathTable.texts (pathOf : α → Text) (table : PathTable α) : List Text :=
  table.entries.map pathOf

/-- The array doubles from `initial` on. -/
def reserveEntries (initial needed : ℕ) : Call CommonPathDiscoveryStatus (PathTable α) Unit := do
  let table ← current
  if needed ≤ table.capacity then pure ()
  else do
    request .allocationFailed
    replace { table with
      capacity := doubleCapacity (fun capacity => needed ≤ capacity) needed
        (if table.capacity = 0 then initial else table.capacity) }

/-- What `add_file` and `queue_directory` do with a path that is not stored: reserve
the index, reserve the array, duplicate the path, insert and count it. -/
def appendEntry (pathOf : α → Text)
    (reserve : ℕ → Call CommonPathDiscoveryStatus (PathTable α) Unit) (entry : α) :
    Call CommonPathDiscoveryStatus (PathTable α) Unit := do
  let table ← current
  focus PathTable.index (fun index table => { table with index := index })
    (exactPathIndexReserve (table.entries.length + 1) (table.texts pathOf))
  reserve (table.entries.length + 1)
  request .allocationFailed
  let table ← current
  let index ← ofOption .allocationFailed
    (exactPathIndexInsert table.index (pathOf entry) table.entries.length)
  replace { table with entries := table.entries ++ [entry], index := index }

end Tables

def reserveFiles (needed : ℕ) : Call CommonPathDiscoveryStatus PathBuilder Unit :=
  reserveEntries 32 needed

def addFile (path : Text) (explicitFile : Bool) (maxFiles : ℕ) :
    Call CommonPathDiscoveryStatus PathBuilder Unit := do
  let builder ← current
  match exactPathIndexFind builder.index (builder.texts CommonDiscoveredPath.path) path with
  | some existing =>
      replace { builder with
        entries := builder.entries.modify existing fun file =>
          { file with explicitFile := file.explicitFile || explicitFile } }
  | none => do
      require (¬ (maxFiles ≠ 0 ∧ maxFiles ≤ builder.entries.length)) .fileLimitExceeded
      appendEntry CommonDiscoveredPath.path reserveFiles ⟨path, explicitFile⟩

def reserveDirectories (needed : ℕ) :
    Call CommonPathDiscoveryStatus (PathTable QueuedDirectory) Unit :=
  reserveEntries 16 needed

def queuedDirectoryIndex (queue : PathTable QueuedDirectory) (path : Text) : Option ℕ :=
  exactPathIndexFind queue.index (queue.texts QueuedDirectory.path) path

def queueDirectory (path : Text) (depth maxDirectories maxDepth : ℕ) :
    Call CommonPathDiscoveryStatus (PathTable QueuedDirectory) Unit := do
  let queue ← current
  match queuedDirectoryIndex queue path with
  | some existing =>
      replace { queue with
        entries := queue.entries.modify existing fun entry =>
          if depth < entry.depth then { entry with depth := depth } else entry }
  | none => do
      require (¬ (maxDepth ≠ 0 ∧ maxDepth < depth)) .depthLimitExceeded
      require (¬ (maxDirectories ≠ 0 ∧ maxDirectories ≤ queue.entries.length))
        .directoryLimitExceeded
      appendEntry QueuedDirectory.path reserveDirectories ⟨path, depth⟩

/-! ## Scanning -/

/-- The answers of `lstat`, of `open` with `readdir` and of `fstatat` below an open
directory. An error is what the status it is mapped to says. -/
structure DirectoryStream where
  names : List Text
  /-- `readdir` or `closedir` reports an error in the end. -/
  failed : Bool
deriving DecidableEq, Repr

structure FileSystem where
  queryPathKind : Text → Except CommonPathDiscoveryStatus PathNodeKind
  openDirectory : Text → Except CommonPathDiscoveryStatus DirectoryStream
  queryDirectoryEntryKind : Text → Text → Except CommonPathDiscoveryStatus PathNodeKind

def isPathSeparator (value : UInt8) : Bool := value == 47

def needsSeparator (directory : Text) : Bool :=
  match directory.getLast? with
  | some last => !isPathSeparator last
  | none => false

/-- What `join_path` writes. -/
def joined (directory name : Text) : Text :=
  directory ++ (if needsSeparator directory then [47] else []) ++ name

def joinPath {σ : Type} (directory name : Text) (maxPathBytes : ℕ) :
    Call CommonPathDiscoveryStatus σ Text := do
  let total := directory.length + (if needsSeparator directory then 1 else 0) + name.length
  require (total < sizeMax) .pathLimitExceeded
  require (¬ (maxPathBytes ≠ 0 ∧ maxPathBytes < total)) .pathLimitExceeded
  request .allocationFailed
  return joined directory name

/-- The two local values of `common_path_discover`. -/
structure Discovery where
  files : PathBuilder
  directories : DirectoryQueue
deriving DecidableEq, Repr

def Discovery.empty : Discovery := ⟨⟨[], 0, ⟨[]⟩⟩, ⟨⟨[], 0, ⟨[]⟩⟩, 0⟩⟩

def onFiles {α : Type} : Call CommonPathDiscoveryStatus PathBuilder α →
    Call CommonPathDiscoveryStatus Discovery α :=
  focus Discovery.files fun files st => { st with files := files }

def onDirectories {α : Type} : Call CommonPathDiscoveryStatus (PathTable QueuedDirectory) α →
    Call CommonPathDiscoveryStatus Discovery α :=
  focus (fun st => st.directories.toPathTable) fun queue st =>
    { st with directories := { st.directories with toPathTable := queue } }

def isDots (name : Text) : Bool := name == [46] || name == [46, 46]

/-- One round of the loop of `scan_directory`. -/
def scanEntry (fs : FileSystem) (options : CommonPathDiscoveryOptions)
    (directory : QueuedDirectory) (name : Text) :
    Call CommonPathDiscoveryStatus Discovery Unit :=
  if isDots name then pure ()
  else do
    let child ← joinPath directory.path name options.maxPathBytes
    let kind ← ofExcept (fs.queryDirectoryEntryKind directory.path name)
    match kind with
    | .regular => onFiles (addFile child false options.maxFiles)
    | .directory =>
        if options.recursive then
          if directory.depth = sizeMax then fail .depthLimitExceeded
          else onDirectories (queueDirectory child (directory.depth + 1) options.maxDirectories
            options.maxDepth)
        else pure ()
    | .link => require (options.rejectDescendantLinks = false) .linkRejected
    | .other => require (options.rejectDescendantUnsupportedNodes = false) .unsupportedNode

def scanDirectory (fs : FileSystem) (options : CommonPathDiscoveryOptions)
    (directory : QueuedDirectory) : Call CommonPathDiscoveryStatus Discovery Unit := do
  let stream ← ofExcept (fs.openDirectory directory.path)
  forEach stream.names (scanEntry fs options directory)
  require (stream.failed = false) .ioError

/-- One round of the loop over the inputs; a NULL input is `none`. -/
def takeInput (fs : FileSystem) (options : CommonPathDiscoveryOptions) (input : Option Text) :
    Call CommonPathDiscoveryStatus Discovery Unit := do
  let path ← ofOption .invalidArgument input
  require (path ≠ []) .invalidArgument
  require (¬ (options.maxPathBytes ≠ 0 ∧ options.maxPathBytes < path.length)) .pathLimitExceeded
  let kind ← ofExcept (fs.queryPathKind path)
  match kind with
  | .link => fail .linkRejected
  | .other => fail .unsupportedNode
  | .regular => onFiles (addFile path true options.maxFiles)
  | .directory =>
      onDirectories (queueDirectory path 0 options.maxDirectories options.maxDepth)

/-- The loop over the queue, in at most so many rounds; `false` where they run out. -/
def drainQueue (fs : FileSystem) (options : CommonPathDiscoveryOptions) :
    ℕ → Call CommonPathDiscoveryStatus Discovery Bool
  | 0 => pure false
  | rounds + 1 => do
      let st ← current
      match st.directories.entries[st.directories.next]? with
      | none => pure true
      | some directory => do
          replace { st with directories := { st.directories with next := st.directories.next + 1 } }
          scanDirectory fs options directory
          drainQueue fs options rounds

def discoverNodes (fs : FileSystem) (rounds : ℕ) (inputs : List (Option Text))
    (options : CommonPathDiscoveryOptions) : Call CommonPathDiscoveryStatus Discovery Bool := do
  forEach inputs (takeInput fs options)
  drainQueue fs options rounds

/-! ## The result -/

/-- The loop of `sort_and_deduplicate` over the sorted paths. -/
def mergeEqual : CommonDiscoveredPath → List CommonDiscoveredPath → List CommonDiscoveredPath
  | previous, [] => [previous]
  | previous, current :: rest =>
      if strcmp previous.path current.path = .eq then
        mergeEqual
          { previous with explicitFile := previous.explicitFile || current.explicitFile } rest
      else previous :: mergeEqual current rest

def comparesLE (left right : CommonDiscoveredPath) : Bool :=
  (strcmp left.path right.path).isLE

def sortAndDeduplicate (paths : List CommonDiscoveredPath) : List CommonDiscoveredPath :=
  match paths.insertionSort (comparesLE · ·) with
  | [] => []
  | first :: rest => mergeEqual first rest

/-- NULL options are the default. -/
def effectiveOptions (options : Option CommonPathDiscoveryOptions) : CommonPathDiscoveryOptions :=
  options.getD commonPathDiscoveryOptionsDefault

/-- The state is the caller's result. -/
def commonPathDiscover (fs : FileSystem) (rounds : ℕ) (inputs : List (Option Text))
    (options : Option CommonPathDiscoveryOptions) :
    Call CommonPathDiscoveryStatus (List CommonDiscoveredPath) Bool := do
  require (inputs ≠ []) .invalidArgument
  let (finished, st) ← within Discovery.empty
    (discoverNodes fs rounds inputs (effectiveOptions options))
  if finished then replace (sortAndDeduplicate st.files.entries)
  return finished

end UnityCommon.PathDiscovery
