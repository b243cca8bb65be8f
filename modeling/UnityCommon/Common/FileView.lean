import UnityCommon.Common.FileSystem

/-!
# Views of regular files

`CommonFileView` and `common_file_read_prefix_regular`, the POSIX half of
`common/file_io.c`. The image of a view is copied once; a second pass over the
held bytes, reduced to its digest, is compared with it when the view is opened
and again when it is closed.
-/

namespace UnityCommon.Files

open Sampled Collect UnityCommon.Portable

def sizeMax : ℤ := 2 ^ 64 - 1

/-- `size` is the length of `data`; the recorded digest is `snapshotDigest`. -/
structure CommonFileView where
  data : Text
  sourceDescriptor : Inode
  namespaceDescriptor : Inode
  before : Stat
  snapshotDigest : Text
  path : CString
deriving DecidableEq, Repr

def commonFileViewSha256 (view : CommonFileView) : Text := view.snapshotDigest

/-- The comparison that ends an open and begins a close: the held object, the
object at the path, the held bytes. -/
def recheck (fuel : ℕ) (locate : Sampled Errno Instant Stat) (descriptor : Inode) (before : Stat)
    (size : ℕ) (digest : Text) : Sampled Unit Instant Unit := do
  let after ← relabel (fun _ => ()) (fstat descriptor)
  let pathAfter ← relabel (fun _ => ()) locate
  let sourceDigest ← posixDigestExact fuel descriptor size
  require (digest = sourceDigest) ()
  require (statFileUnchanged before after) ()
  require (statFileUnchanged after pathAfter) ()

/-- The private copy: no mapping at all for no bytes. -/
def copyImage (fuel : ℕ) (descriptor : Inode) (size : ℕ) :
    Sampled CommonFileStatus Instant (Text × Text) :=
  if size ≠ 0 then do
    relabel (fun e => if e = .nomem then .allocationFailed else .ioError) (allocate size)
    relabel (fun _ => .ioError) (posixCopyToMemoryExact fuel descriptor size)
  else return ([], commonSha256 (Vector.replicate 64 0) [])

/-- A call about the mapping, when there is one. -/
def onMapping (data : Text) (call : Sampled Errno Instant Unit) : Sampled Errno Instant Unit :=
  if data ≠ [] then call else pure ()

def commonFileViewOpenRegular (fuel : ℕ) (path : CString) (maxSize : ℕ) :
    Sampled CommonFileStatus Instant CommonFileView := do
  require (path.bytes ≠ []) .invalidArgument
  let namespaceDescriptor ← relabel posixPathError (openDirectory (isAbsolute path))
  let pathBefore ← relabel posixPathError (fstatat namespaceDescriptor path)
  require (isRegular pathBefore.mode) .notRegular
  let descriptor ← relabel posixPathError (openat namespaceDescriptor path)
  let before ← relabel (fun _ => .ioError) (fstat descriptor)
  require (statFileUnchanged pathBefore before) .ioError
  require (0 ≤ before.size ∧ before.size ≤ sizeMax ∧ before.size ≤ maxSize) .tooLarge
  relabel (fun _ => .allocationFailed) (allocate (path.bytes.length + 1))
  let (data, digest) ← copyImage fuel descriptor before.size.toNat
  relabel (fun _ => .ioError)
    (recheck fuel (fstatat namespaceDescriptor path) descriptor before before.size.toNat digest)
  relabel (fun _ => .ioError) (onMapping data acknowledge)
  return ⟨data, descriptor, namespaceDescriptor, before, digest, path⟩

/-- Everything is released whatever the comparison says. -/
def commonFileViewClose (fuel : ℕ) (view : CommonFileView) :
    Sampled CommonFileStatus Instant Unit := do
  let unchanged ← attempt (recheck fuel (fstatat view.namespaceDescriptor view.path)
    view.sourceDescriptor view.before view.data.length view.snapshotDigest)
  let unmapped ← attempt (onMapping view.data acknowledge)
  let sourceClosed ← attempt acknowledge
  let namespaceClosed ← attempt acknowledge
  require (unchanged = .ok () ∧ unmapped = .ok () ∧ sourceClosed = .ok () ∧
    namespaceClosed = .ok ()) .ioError

/-- The prefix and the size of the file. -/
def commonFileReadPrefixRegular (fuel : ℕ) (path : CString) (capacity : ℕ) :
    Sampled CommonFileStatus Instant (Text × ℕ) := do
  require (path.bytes ≠ []) .invalidArgument
  let pathBefore ← relabel posixPathError (lstat path)
  require (isRegular pathBefore.mode) .notRegular
  let descriptor ← relabel posixPathError (openPath path)
  let before ← relabel (fun _ => .ioError) (fstat descriptor)
  require (statSameIdentity pathBefore before) .ioError
  require (0 ≤ before.size ∧ before.size ≤ sizeMax) .tooLarge
  let amount := min before.size.toNat capacity
  let buffer ← relabel (fun _ => .ioError) (posixReadAll fuel descriptor amount)
  let after ← relabel (fun _ => .ioError) (fstat descriptor)
  let pathAfter ← relabel (fun _ => .ioError) (lstat path)
  require (statFileUnchanged before after) .ioError
  require (statSameIdentity after pathAfter) .ioError
  relabel (fun _ => .ioError) acknowledge
  return (buffer, before.size.toNat)

/-! ## What a comparison establishes -/

section Rechecked

variable {history : ℕ → Instant} {now later : ℕ}

/-- At the instant the path leads to the object, which has these attributes. -/
structure Located (names : Instant → Inode → Prop) (instant : Instant) (descriptor : Inode)
    (stat : Stat) : Prop where
  named : names instant descriptor
  attributes : instant.stat descriptor = stat
  regular : isRegular stat.mode = true

/-- A look at a path finds an object and its attributes, at one instant. -/
def Locates (locate : Sampled Errno Instant Stat) (names : Instant → Inode → Prop) : Prop :=
  ∀ history now stat later, locate.run history now = .ok stat later →
    names (history now) stat.toInode ∧ stat = (history now).stat stat.toInode ∧ now + 1 = later

theorem locates_fstatat (directory : Inode) (path : CString) :
    Locates (fstatat directory path) fun instant inode =>
      instant.lookup directory path = .ok inode :=
  fun _ _ _ _ h => fstatat_eq_ok h

theorem locates_lstat (path : CString) :
    Locates (lstat path) fun instant inode =>
      instant.lookup instant.workingDirectory path = .ok inode :=
  fun _ _ _ _ h => lstat_eq_ok h

/-- **A comparison that succeeds** found the object at the path, and after that
instant read bytes with the digest. -/
theorem recheck_ok {fuel size : ℕ} {locate : Sampled Errno Instant Stat}
    {names : Instant → Inode → Prop} {descriptor : Inode} {before : Stat} {digest : Text} {u : Unit}
    (hlocate : Locates locate names) (hsize : size < 2 ^ 61)
    (h : (recheck fuel locate descriptor before size digest).run history now = .ok u later) :
    ∃ t checked, now < t ∧ t < later ∧ Located names (history t) descriptor before ∧
      checked.length = size ∧ Collected (byteAt history descriptor) t later checked ∧
      digest = Sha256.digest checked := by
  obtain ⟨after, t, hfstat, h⟩ := bind_eq_ok.mp h
  obtain ⟨pathAfter, t', hpath, h⟩ := bind_eq_ok.mp h
  obtain ⟨sourceDigest, t₃, hdigest, h⟩ := bind_eq_ok.mp h
  obtain ⟨_, t₄, hdigests, h⟩ := bind_eq_ok.mp h
  obtain ⟨_, t₅, hattributes, h⟩ := bind_eq_ok.mp h
  obtain ⟨hequal, rfl⟩ := require_eq_ok.mp hdigests
  obtain ⟨hbefore, rfl⟩ := require_eq_ok.mp hattributes
  obtain ⟨hafter, rfl⟩ := require_eq_ok.mp h
  obtain ⟨rfl, rfl⟩ := fstat_eq_ok (relabel_eq_ok.mp hfstat)
  obtain ⟨hnamed, hstat, rfl⟩ := hlocate _ _ _ _ (relabel_eq_ok.mp hpath)
  obtain ⟨checked, hlength, hcollected, rfl, hlater⟩ := posixDigestExact_ok hsize hdigest
  obtain ⟨hregular, rfl⟩ := statFileUnchanged_iff.mp hbefore
  obtain ⟨-, rfl⟩ := statFileUnchanged_iff.mp hafter
  exact ⟨now + 1, checked, by omega, by omega, ⟨hnamed, hstat.symm, hregular⟩, hlength,
    hcollected.mono (by omega) (Nat.le_refl _), hequal⟩

theorem copyImage_ok {fuel size : ℕ} {descriptor : Inode} {data digest : Text}
    (h : (copyImage fuel descriptor size).run history now = .ok (data, digest) later) :
    size < 2 ^ 61 ∧ data.length = size ∧ digest = Sha256.digest data ∧ now ≤ later ∧
      Collected (byteAt history descriptor) now later data := by
  rw [copyImage] at h
  split at h
  · obtain ⟨_, mid, hallocate, hcopy⟩ := bind_eq_ok.mp h
    obtain ⟨hsize, rfl⟩ := allocate_eq_ok (relabel_eq_ok.mp hallocate)
    obtain ⟨hlength, hcollected, hdigest, hlater⟩ :=
      posixCopyToMemoryExact_ok hsize (relabel_eq_ok.mp hcopy)
    exact ⟨hsize, hlength, hdigest, by omega, hcollected.mono (by omega) (Nat.le_refl _)⟩
  · rename_i hzero
    obtain ⟨hpair, rfl⟩ := pure_eq_ok.mp h
    cases hpair
    exact ⟨by omega, by simp only [List.length_nil]; omega, commonSha256_eq _ _ (by decide),
      Nat.le_refl _, collected_nil⟩

end Rechecked

/-! ## An opened view -/

section View

variable {history : ℕ → Instant} {now later : ℕ} {view : CommonFileView}

/-- The path of a view leads to an object, from where it was opened. -/
def CommonFileView.Names (view : CommonFileView) (instant : Instant) (inode : Inode) : Prop :=
  instant.lookup view.namespaceDescriptor view.path = .ok inode

/-- What a view owes to the history of the file: the image was collected before
an instant at which the path led to the held object, and bytes with its digest
were collected after it. -/
structure Captured (history : ℕ → Instant) (now t later : ℕ) (view : CommonFileView)
    (checked : Text) : Prop where
  started : now ≤ t
  ended : t < later
  located : Located view.Names (history t) view.sourceDescriptor view.before
  size : (view.data.length : ℤ) = view.before.size
  short : view.data.length < 2 ^ 61
  digest : view.snapshotDigest = Sha256.digest view.data
  collected : Collected (byteAt history view.sourceDescriptor) now t view.data
  checkedDigest : Sha256.digest checked = Sha256.digest view.data
  checkedCollected : Collected (byteAt history view.sourceDescriptor) t later checked

theorem commonFileViewOpenRegular_ok {fuel maxSize : ℕ} {path : CString}
    (h : (commonFileViewOpenRegular fuel path maxSize).run history now = .ok view later) :
    view.path = path ∧ view.data.length ≤ maxSize ∧
      ∃ t checked, Captured history now t later view checked := by
  obtain ⟨_, t₁, hpath, h⟩ := bind_eq_ok.mp h
  obtain ⟨namespaceDescriptor, t₂, hdirectory, h⟩ := bind_eq_ok.mp h
  obtain ⟨pathBefore, t₃, hbefore, h⟩ := bind_eq_ok.mp h
  obtain ⟨_, t₄, hregular, h⟩ := bind_eq_ok.mp h
  obtain ⟨descriptor, t₅, hopen, h⟩ := bind_eq_ok.mp h
  obtain ⟨before, t₆, hfstat, h⟩ := bind_eq_ok.mp h
  obtain ⟨_, t₇, hsame, h⟩ := bind_eq_ok.mp h
  obtain ⟨_, t₈, hsize, h⟩ := bind_eq_ok.mp h
  obtain ⟨_, t₉, hallocate, h⟩ := bind_eq_ok.mp h
  obtain ⟨⟨data, digest⟩, t₁₀, hcopy, h⟩ := bind_eq_ok.mp h
  obtain ⟨_, t₁₁, hrecheck, h⟩ := bind_eq_ok.mp h
  have hearly : now ≤ t₉ := by
    have := le_of_ok hpath
    have := le_of_ok hdirectory
    have := le_of_ok hbefore
    have := le_of_ok hregular
    have := le_of_ok hopen
    have := le_of_ok hfstat
    have := le_of_ok hsame
    have := le_of_ok hsize
    have := le_of_ok hallocate
    omega
  obtain ⟨⟨hnonneg, -, hmax⟩, -⟩ := require_eq_ok.mp hsize
  obtain ⟨hshort, hlength, rfl, hmid, hcollected⟩ := copyImage_ok hcopy
  obtain ⟨t, checked, ht, hlast, hlocated, -, hchecked, hdigest⟩ :=
    recheck_ok (locates_fstatat _ _) hshort (relabel_eq_ok.mp hrecheck)
  obtain ⟨_, t₁₂, hprotect, h⟩ := bind_eq_ok.mp h
  obtain ⟨rfl, rfl⟩ := pure_eq_ok.mp h
  have hend := le_of_ok hprotect
  refine ⟨rfl, by show data.length ≤ maxSize; omega, t, checked,
    { started := by omega
      ended := by omega
      located := hlocated
      size := by show (data.length : ℤ) = before.size; omega
      short := by show data.length < 2 ^ 61; omega
      digest := rfl
      collected := hcollected.mono hearly (by omega)
      checkedDigest := hdigest.symm
      checkedCollected := hchecked.mono (Nat.le_refl _) hend }⟩

/-- **A view is closed with the comparison repeated.** -/
theorem commonFileViewClose_ok {fuel : ℕ} {u : Unit} (hshort : view.data.length < 2 ^ 61)
    (h : (commonFileViewClose fuel view).run history now = .ok u later) :
    ∃ t checked, now < t ∧ t < later ∧
      Located view.Names (history t) view.sourceDescriptor view.before ∧
      checked.length = view.data.length ∧ view.snapshotDigest = Sha256.digest checked ∧
      Collected (byteAt history view.sourceDescriptor) t later checked := by
  obtain ⟨unchanged, t₁, hrecheck, h⟩ := bind_eq_ok.mp h
  obtain ⟨unmapped, t₂, hunmap, h⟩ := bind_eq_ok.mp h
  obtain ⟨sourceClosed, t₃, hsource, h⟩ := bind_eq_ok.mp h
  obtain ⟨namespaceClosed, t₄, hnamespace, h⟩ := bind_eq_ok.mp h
  obtain ⟨⟨rfl, -⟩, rfl⟩ := require_eq_ok.mp h
  obtain ⟨v, hv, hrecheck⟩ | ⟨e, he, -⟩ := attempt_eq_ok.mp hrecheck
  · obtain ⟨t, checked, ht, hend, hlocated, hlength, hcollected, hdigest⟩ :=
      recheck_ok (locates_fstatat _ _) hshort hrecheck
    have := le_of_ok hunmap
    have := le_of_ok hsource
    have := le_of_ok hnamespace
    exact ⟨t, checked, ht, by omega, hlocated, hlength, hdigest,
      hcollected.mono (Nat.le_refl _) (by omega)⟩
  · cases he

/-- **The image of a view** is what the path led to at an instant of the call,
unless a byte was changed and changed back, or the digests collide. -/
theorem Captured.content {t : ℕ} {checked : Text} (h : Captured history now t later view checked)
    (hchecked : checked = view.data)
    (hreturn : NeverReturns (byteAt history view.sourceDescriptor) now later) :
    ((history t).file view.sourceDescriptor).bytes.take view.data.length = view.data :=
  take_of_getElem? (h.collected.holds (hchecked ▸ h.checkedCollected) hreturn (by omega)
    (Nat.le_refl t))

end View

/-! ## A prefix -/

section Prefix

variable {history : ℕ → Instant} {now later : ℕ}

/-- What the reader of a prefix owes to the history of the file. It was collected
between two instants at which the held object had the same attributes, and the
path led to the object before the first and after the second. -/
structure PrefixRead (history : ℕ → Instant) (now first last later : ℕ) (path : CString)
    (capacity : ℕ) (descriptor : Inode) (before : Stat) (front : Text) : Prop where
  named : ∃ t, now ≤ t ∧ t < first ∧
    (history t).lookup (history t).workingDirectory path = .ok descriptor
  opened : (history first).stat descriptor = before
  collected : Collected (byteAt history descriptor) first last front
  stable : (history last).stat descriptor = before
  renamed : ∃ t, last < t ∧ t < later ∧
    (history t).lookup (history t).workingDirectory path = .ok descriptor
  regular : isRegular before.mode = true
  length : front.length = min before.size.toNat capacity

theorem commonFileReadPrefixRegular_ok {fuel capacity fileSize : ℕ} {path : CString} {front : Text}
    (h : (commonFileReadPrefixRegular fuel path capacity).run history now =
      .ok (front, fileSize) later) :
    ∃ first last descriptor before,
      PrefixRead history now first last later path capacity descriptor before front ∧
      (fileSize : ℤ) = before.size := by
  obtain ⟨_, t₁, hpath, h⟩ := bind_eq_ok.mp h
  obtain ⟨pathBefore, t₂, hlstat, h⟩ := bind_eq_ok.mp h
  obtain ⟨_, t₃, hregular, h⟩ := bind_eq_ok.mp h
  obtain ⟨descriptor, t₄, hopen, h⟩ := bind_eq_ok.mp h
  obtain ⟨before, t₅, hfstat, h⟩ := bind_eq_ok.mp h
  obtain ⟨_, t₆, hsame, h⟩ := bind_eq_ok.mp h
  obtain ⟨_, t₇, hsize, h⟩ := bind_eq_ok.mp h
  obtain ⟨buffer, t₈, hread, h⟩ := bind_eq_ok.mp h
  obtain ⟨after, t₉, hafter, h⟩ := bind_eq_ok.mp h
  obtain ⟨pathAfter, t₁₀, hlast, h⟩ := bind_eq_ok.mp h
  obtain ⟨_, t₁₁, hunchanged, h⟩ := bind_eq_ok.mp h
  obtain ⟨_, t₁₂, hsameAfter, h⟩ := bind_eq_ok.mp h
  obtain ⟨_, t₁₃, hclose, h⟩ := bind_eq_ok.mp h
  obtain ⟨hpair, rfl⟩ := pure_eq_ok.mp h
  cases hpair
  obtain ⟨-, rfl⟩ := require_eq_ok.mp hpath
  obtain ⟨hnamed, -, rfl⟩ := lstat_eq_ok (relabel_eq_ok.mp hlstat)
  have hheld := le_of_ok hregular
  have hopened := le_of_ok hopen
  obtain ⟨rfl, rfl⟩ := fstat_eq_ok (relabel_eq_ok.mp hfstat)
  obtain ⟨hsameFile, rfl⟩ := require_eq_ok.mp hsame
  obtain ⟨⟨hnonneg, -⟩, rfl⟩ := require_eq_ok.mp hsize
  obtain ⟨hlength, hcollected, hlater⟩ := posixReadAll_ok (relabel_eq_ok.mp hread)
  obtain ⟨rfl, rfl⟩ := fstat_eq_ok (relabel_eq_ok.mp hafter)
  obtain ⟨hrenamed, -, rfl⟩ := lstat_eq_ok (relabel_eq_ok.mp hlast)
  obtain ⟨hstable, rfl⟩ := require_eq_ok.mp hunchanged
  obtain ⟨hsameLater, rfl⟩ := require_eq_ok.mp hsameAfter
  have hclosed := le_of_ok hclose
  obtain ⟨-, hheldRegular, hidentity⟩ := statSameIdentity_iff.mp hsameFile
  obtain ⟨-, hequal⟩ := statFileUnchanged_iff.mp hstable
  obtain ⟨-, -, hidentityAfter⟩ := statSameIdentity_iff.mp hsameLater
  refine ⟨t₄, t₈, descriptor, (history t₄).stat descriptor,
    { named := ⟨now, Nat.le_refl now, by omega, hnamed.trans (congrArg Except.ok hidentity)⟩
      opened := rfl
      collected := hcollected.mono (by omega) (Nat.le_refl _)
      stable := hequal.symm
      renamed := ⟨t₈ + 1, by omega, by omega,
        hrenamed.trans (congrArg Except.ok hidentityAfter.symm)⟩
      regular := hheldRegular
      length := hlength }, ?_⟩
  omega

end Prefix

end UnityCommon.Files
