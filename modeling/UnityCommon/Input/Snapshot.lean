import UnityCommon.Common.FileView
import UnityCommon.Input.VisitBundle

/-!
# Snapshots of an input

`UnityInputSnapshot` of `io/unity_input.c` on a POSIX host. A snapshot keeps an
anchor, the held file with the size and digest of the opening image, and a view
that it may give up between visits. Without an archive it has no members.
-/

namespace UnityCommon.Input

open Sampled Collect UnityCommon.Files UnityCommon.Bundle UnityCommon.Portable

structure SnapshotBinding where
  digest : Text
  size : ℕ
deriving DecidableEq, Repr

structure UnityInputIdentityAnchor where
  descriptor : Inode
  before : Stat
  bound : Option SnapshotBinding
deriving DecidableEq, Repr

structure UnityInputSnapshot where
  view : Option CommonFileView
  anchor : UnityInputIdentityAnchor
  path : CString
  probe : UnityInputProbe
  archive : Option BundleArchive
deriving DecidableEq, Repr

/-! ## The anchor -/

def imageDigest (data : Text) : Text := commonSha256 (Vector.replicate 64 0) data

theorem imageDigest_eq {data : Text} (h : data.length < 2 ^ 61) :
    imageDigest data = Sha256.digest data :=
  commonSha256_eq _ _ h

def identityAnchorBindSnapshot (anchor : UnityInputIdentityAnchor) (data : Text) :
    Option UnityInputIdentityAnchor :=
  if anchor.bound.isSome then none
  else some { anchor with bound := some ⟨imageDigest data, data.length⟩ }

def identityAnchorMatchesSnapshot (anchor : UnityInputIdentityAnchor) (data : Text) : Bool :=
  match anchor.bound with
  | none => false
  | some binding => binding.size = data.length && binding.digest = imageDigest data

def identityAnchorOpen (path : CString) : Sampled Unit Instant UnityInputIdentityAnchor := do
  let pathBefore ← relabel (fun _ => ()) (lstat path)
  require (isRegular pathBefore.mode) ()
  let descriptor ← relabel (fun _ => ()) (openPath path)
  let heldBefore ← relabel (fun _ => ()) (fstat descriptor)
  require (statFileUnchanged pathBefore heldBefore) ()
  return ⟨descriptor, heldBefore, none⟩

/-- An anchor without a snapshot never validates. -/
def identityAnchorValidate (fuel : ℕ) (anchor : UnityInputIdentityAnchor) (path : CString) :
    Sampled Unit Instant Unit :=
  match anchor.bound with
  | none => fail ()
  | some binding =>
      recheck fuel (lstat path) anchor.descriptor anchor.before binding.size binding.digest

def identityAnchorClose (fuel : ℕ) (anchor : UnityInputIdentityAnchor) (path : CString) :
    Sampled Unit Instant Unit := do
  let unchanged ← attempt (identityAnchorValidate fuel anchor path)
  let closed ← attempt acknowledge
  require (unchanged = .ok () ∧ closed = .ok ()) ()

/-! ## Opening and closing -/

/-- `current/path`, with a slash where `current` does not end in one. -/
def joinPath (current path : CString) : CString where
  bytes := current.bytes ++ (if current.bytes.getLast? = some 0x2f then [] else [0x2f]) ++ path.bytes
  noNul := by
    have hcurrent := current.noNul
    have hpath := path.noNul
    split <;> simp [hcurrent, hpath]

def stableAbsolutePath (path : CString) : Sampled Errno Instant CString :=
  if isAbsolute path then do
    allocate (path.bytes.length + 1)
    return path
  else do
    let current ← getcwd
    allocate ((joinPath current path).bytes.length + 1)
    return joinPath current path

def closeView (fuel : ℕ) : Option CommonFileView → Sampled CommonFileStatus Instant Unit
  | none => pure ()
  | some view => commonFileViewClose fuel view

/-- Nothing here fails: what went wrong is in the status. -/
def disposeSnapshotImplementation (fuel : ℕ) (implementation : UnityInputSnapshot)
    (status : UnityInputStatus) : Sampled Empty Instant UnityInputStatus := do
  let viewClosed ← attempt (closeView fuel implementation.view)
  let anchorClosed ← attempt
    (identityAnchorClose fuel implementation.anchor implementation.path)
  return if viewClosed = .ok () ∧ anchorClosed = .ok () then status else .fileError

def disposeAndFail {α : Type} (fuel : ℕ) (implementation : UnityInputSnapshot)
    (status : UnityInputStatus) : Sampled UnityInputStatus Instant α := do
  let status ← relabel Empty.elim (disposeSnapshotImplementation fuel implementation status)
  fail status

/-- The end of an open: what the image is, and the archive in it. -/
def classifyImage (lzma : Text → Text → ℕ → Option Text) (view : CommonFileView)
    (anchor : UnityInputIdentityAnchor) (path : CString) :
    Except UnityInputStatus UnityInputSnapshot :=
  match probeFront view.data with
  | (.ok, some probe) =>
      match probe.kind with
      | .serializedFileV22 => .ok ⟨some view, anchor, path, probe, none⟩
      | .unityfs =>
          match bundleOpen lzma view.data with
          | none => .error .containerInvalid
          | some archive => .ok ⟨some view, anchor, path, probe, some archive⟩
      | _ => .error .ok
  | (status, _) => .error status

theorem classifyImage_eq_ok {lzma : Text → Text → ℕ → Option Text} {view : CommonFileView}
    {anchor : UnityInputIdentityAnchor} {path : CString} {snapshot : UnityInputSnapshot}
    (h : classifyImage lzma view anchor path = .ok snapshot) :
    ∃ probe, probeFront view.data = (.ok, some probe) ∧
      (probe.kind = .serializedFileV22 ∧ snapshot = ⟨some view, anchor, path, probe, none⟩ ∨
        probe.kind = .unityfs ∧ ∃ archive, bundleOpen lzma view.data = some archive ∧
          snapshot = ⟨some view, anchor, path, probe, some archive⟩) := by
  rw [classifyImage] at h
  split at h
  · rename_i probe hprobe
    refine ⟨probe, hprobe, ?_⟩
    split at h
    · rename_i hkind
      cases h
      exact Or.inl ⟨hkind, rfl⟩
    · rename_i hkind
      split at h
      · cases h
      · rename_i archive harchive
        cases h
        exact Or.inr ⟨hkind, archive, harchive, rfl⟩
    · cases h
  · cases h

/-- The last case is the code's own guard: a probe succeeds on the two kinds only. -/
theorem classifyImage_eq_error {lzma : Text → Text → ℕ → Option Text} {view : CommonFileView}
    {anchor : UnityInputIdentityAnchor} {path : CString} {status : UnityInputStatus}
    (h : classifyImage lzma view anchor path = .error status) :
    (∃ found, probeFront view.data = (status, found) ∧
        ∀ probe, status = .ok → found = some probe → False) ∨
      ∃ probe, probeFront view.data = (.ok, some probe) ∧
        (probe.kind = .unityfs ∧ bundleOpen lzma view.data = none ∧ status = .containerInvalid ∨
          probe.kind ≠ .serializedFileV22 ∧ probe.kind ≠ .unityfs ∧ status = .ok) := by
  rw [classifyImage] at h
  split at h
  · rename_i probe hprobe
    refine Or.inr ⟨probe, hprobe, ?_⟩
    split at h
    · cases h
    · rename_i hkind
      split at h
      · rename_i hnone
        cases h
        exact Or.inl ⟨hkind, hnone, rfl⟩
      · cases h
    · rename_i hserialized hunityfs
      cases h
      exact Or.inr ⟨hserialized, hunityfs, rfl⟩
  · rename_i found hother hprobe
    cases h
    exact Or.inl ⟨found, hprobe, hother⟩

def noProbe : UnityInputProbe := ⟨.unrelated, 0, 0⟩

/-- A view that was opened is bound to the anchor and compared with it. -/
def bindView (lzma : Text → Text → ℕ → Option Text) (fuel : ℕ)
    (anchor : UnityInputIdentityAnchor) (path : CString) (view : CommonFileView) :
    Sampled UnityInputStatus Instant UnityInputSnapshot :=
  match identityAnchorBindSnapshot anchor view.data with
  | none => disposeAndFail fuel ⟨some view, anchor, path, noProbe, none⟩ .fileError
  | some anchor => do
      match ← attempt (identityAnchorValidate fuel anchor path) with
      | .error _ => disposeAndFail fuel ⟨some view, anchor, path, noProbe, none⟩ .fileError
      | .ok _ =>
          match classifyImage lzma view anchor path with
          | .error status => disposeAndFail fuel ⟨some view, anchor, path, noProbe, none⟩ status
          | .ok snapshot => return snapshot

def viewLimit : ℕ := 2 ^ 64 - 1

def unityInputSnapshotOpen (lzma : Text → Text → ℕ → Option Text) (fuel : ℕ) (path : CString) :
    Sampled UnityInputStatus Instant UnityInputSnapshot := do
  require (path.bytes ≠ []) .invalidArgument
  relabel (fun _ => .fileError) acknowledge
  let path ← relabel (fun _ => .fileError) (stableAbsolutePath path)
  let anchor ← relabel (fun _ => .fileError) (identityAnchorOpen path)
  match ← attempt (commonFileViewOpenRegular fuel path viewLimit) with
  | .error _ => disposeAndFail fuel ⟨none, anchor, path, noProbe, none⟩ .fileError
  | .ok view => bindView lzma fuel anchor path view

def unityInputSnapshotClose (fuel : ℕ) (snapshot : UnityInputSnapshot) :
    Sampled Empty Instant UnityInputStatus :=
  disposeSnapshotImplementation fuel snapshot .ok

/-! ## Operations on an open snapshot -/

/-- The digest is that of the anchor, once more compared with the file. -/
def unityInputSnapshotDigest (fuel : ℕ) (snapshot : UnityInputSnapshot) :
    Sampled Empty Instant (UnityInputStatus × Option Text) := do
  match ← attempt (identityAnchorValidate fuel snapshot.anchor snapshot.path) with
  | .error _ => return (.fileError, none)
  | .ok _ => return (.ok, snapshot.anchor.bound.map SnapshotBinding.digest)

/-- The view at hand, or a new one. -/
def takeView (fuel : ℕ) (snapshot : UnityInputSnapshot) :
    Sampled CommonFileStatus Instant CommonFileView :=
  match snapshot.view with
  | some view => pure view
  | none => commonFileViewOpenRegular fuel snapshot.path viewLimit

/-- What a view has to agree with before it is used. -/
def agrees (snapshot : UnityInputSnapshot) (view : CommonFileView) : Bool :=
  identityAnchorMatchesSnapshot snapshot.anchor view.data &&
    match probeFront view.data with
    | (.ok, some probe) =>
        probe.kind = snapshot.probe.kind && probe.fileSize = snapshot.probe.fileSize
    | _ => false

def ensureSnapshotMapping (fuel : ℕ) (snapshot : UnityInputSnapshot) :
    Sampled Empty Instant (UnityInputStatus × UnityInputSnapshot) := do
  match ← attempt (takeView fuel snapshot) with
  | .error _ => return (.fileError, snapshot)
  | .ok view =>
      let valid ← attempt (identityAnchorValidate fuel snapshot.anchor snapshot.path)
      if valid = .ok () ∧ agrees snapshot view then
        return (.ok, { snapshot with view := some view })
      else do
        let _ ← attempt (commonFileViewClose fuel view)
        return (.fileError, { snapshot with view := none })

/-- What a visit leaves: status, statistics, the visitor's context. -/
structure VisitResult (σ : Type) where
  status : UnityInputStatus
  stats : UnityInputVisitStats
  context : σ

variable {σ : Type}

/-- A standalone file is its own only source. -/
def visitImage (snapshot : UnityInputSnapshot) (visitor : Visitor σ) (context : σ) :
    VisitResult σ :=
  match snapshot.view with
  | none => ⟨.fileError, .zero, context⟩
  | some view =>
      let (goOn, context) := visitor ⟨snapshot.path, none, 0, false, view.data⟩ context
      if goOn then ⟨.ok, { UnityInputVisitStats.zero with serializedFiles := 1 }, context⟩
      else ⟨.visitorFailed, .zero, context⟩

def visitArchive (snapshot : UnityInputSnapshot) (visitor : Visitor σ) (context : σ) :
    VisitResult σ :=
  match snapshot.archive with
  | none => ⟨.ok, .zero, context⟩
  | some archive =>
      let (status, stats, context) := visitBundle snapshot.path archive visitor context
      ⟨status, stats, context⟩

/-- A standalone file is mapped first. -/
def visitMapped (fuel : ℕ) (visitor : Visitor σ) (context : σ) (snapshot : UnityInputSnapshot) :
    Sampled Empty Instant (VisitResult σ × UnityInputSnapshot) := do
  let (status, snapshot) ← ensureSnapshotMapping fuel snapshot
  if status = .ok then return (visitImage snapshot visitor context, snapshot)
  else return (⟨status, .zero, context⟩, snapshot)

def unityInputSnapshotVisit (fuel : ℕ) (visitor : Visitor σ) (context : σ)
    (snapshot : UnityInputSnapshot) :
    Sampled Empty Instant (VisitResult σ × UnityInputSnapshot) := do
  match ← attempt (identityAnchorValidate fuel snapshot.anchor snapshot.path) with
  | .error _ => return (⟨.fileError, .zero, context⟩, snapshot)
  | .ok _ =>
      match snapshot.probe.kind with
      | .unityfs => return (visitArchive snapshot visitor context, snapshot)
      | .serializedFileV22 => visitMapped fuel visitor context snapshot
      | _ => return (⟨.unrelated, .zero, context⟩, snapshot)

def unityInputSnapshotSuspendMapping (fuel : ℕ) (snapshot : UnityInputSnapshot) :
    Sampled Empty Instant (UnityInputStatus × UnityInputSnapshot) := do
  match ← attempt (closeView fuel snapshot.view) with
  | .error _ => return (.fileError, { snapshot with view := none })
  | .ok _ =>
      match ← attempt (identityAnchorValidate fuel snapshot.anchor snapshot.path) with
      | .error _ => return (.fileError, { snapshot with view := none })
      | .ok _ => return (.ok, { snapshot with view := none })

/-- The one-shot wrapper: a close that complains leaves no statistics. -/
def unityInputVisitSerialized (lzma : Text → Text → ℕ → Option Text) (fuel : ℕ) (path : CString)
    (visitor : Visitor σ) (context : σ) : Sampled Empty Instant (VisitResult σ) := do
  match ← attempt (unityInputSnapshotOpen lzma fuel path) with
  | .error status => return ⟨status, .zero, context⟩
  | .ok snapshot =>
      let (result, snapshot) ← unityInputSnapshotVisit fuel visitor context snapshot
      let closeStatus ← unityInputSnapshotClose fuel snapshot
      if closeStatus ≠ .ok then return ⟨closeStatus, .zero, result.context⟩
      else return result

def unityInputProbePath (fuel : ℕ) (path : CString) :
    Sampled Empty Instant (UnityInputStatus × Option UnityInputProbe) := do
  match ← attempt (commonFileReadPrefixRegular fuel path unityInputPrefixSize) with
  | .error _ =>
      return (if path.bytes = [] then .invalidArgument else .fileError, none)
  | .ok (front, fileSize) => return unityInputProbeBytes front fileSize

/-- **A probe of a path** has seen the first bytes of a file at the path. -/
theorem unityInputProbePath_ok {fuel now later : ℕ} {history : ℕ → Instant} {path : CString}
    {probe : UnityInputProbe}
    (h : (unityInputProbePath fuel path).run history now = .ok (.ok, some probe) later) :
    ∃ first last descriptor before front,
      PrefixRead history now first last later path unityInputPrefixSize descriptor before front ∧
      unityInputProbeBytes front before.size.toNat = (.ok, some probe) := by
  obtain ⟨⟨front, fileSize⟩, mid, hread, h⟩ | ⟨e, mid, -, h⟩ := attempt_bind_eq_ok.mp h
  · obtain ⟨hprobe, rfl⟩ := pure_eq_ok.mp h
    obtain ⟨first, last, descriptor, before, hprefix, hsize⟩ :=
      commonFileReadPrefixRegular_ok hread
    refine ⟨first, last, descriptor, before, front, hprefix, ?_⟩
    rw [← hsize, Int.toNat_natCast]
    exact hprobe
  · obtain ⟨hpair, -⟩ := pure_eq_ok.mp h
    exact nomatch congrArg Prod.snd hpair

/-! ## Sessions -/

/-- What an owner asks of an open snapshot. -/
inductive Operation (σ : Type) where
  | digest
  | visit (visitor : Visitor σ)
  | suspend

structure Reply where
  status : UnityInputStatus
  digest : Option Text

def perform (fuel : ℕ) (operation : Operation σ) (snapshot : UnityInputSnapshot) (context : σ) :
    Sampled Empty Instant (Reply × UnityInputSnapshot × σ) :=
  match operation with
  | .digest => do
      let (status, digest) ← unityInputSnapshotDigest fuel snapshot
      return (⟨status, digest⟩, snapshot, context)
  | .visit visitor => do
      let (result, snapshot) ← unityInputSnapshotVisit fuel visitor context snapshot
      return (⟨result.status, none⟩, snapshot, result.context)
  | .suspend => do
      let (status, snapshot) ← unityInputSnapshotSuspendMapping fuel snapshot
      return (⟨status, none⟩, snapshot, context)

def session (fuel : ℕ) : List (Operation σ) → UnityInputSnapshot → σ →
    Sampled Empty Instant (List Reply × UnityInputSnapshot × σ)
  | [], snapshot, context => return ([], snapshot, context)
  | operation :: operations, snapshot, context => do
      let (reply, snapshot, context) ← perform fuel operation snapshot context
      let (replies, snapshot, context) ← session fuel operations snapshot context
      return (reply :: replies, snapshot, context)

end UnityCommon.Input
