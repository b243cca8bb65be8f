import UnityCommon.Common.Sha256Stream
import UnityCommon.Common.Text
import UnityCommon.Lib.Collect
import UnityCommon.Lib.Sampled

/-!
# A file system that others write to

The system calls of the POSIX half of `common/file_io.c`. A descriptor is the
object it was opened on, and every call meets the file system of its own
instant: between two calls anything may have been written, renamed or unlinked.
Closing calls whose outcome is discarded are left out.
-/

namespace UnityCommon.Files

open Sampled Collect UnityCommon.Portable

inductive Errno where
  | noent
  | notdir
  | loop
  | nomem
  | intr
  | other
deriving DecidableEq, Repr

inductive CommonFileStatus where
  | invalidArgument
  | notFound
  | notRegular
  | tooLarge
  | allocationFailed
  | alreadyExists
  | ioError
deriving DecidableEq, Repr

/-- An object of a file system. Its number is not given away while it is held. -/
structure Inode where
  dev : UInt64
  ino : UInt64
deriving DecidableEq, Repr

structure Timespec where
  sec : ℤ
  nsec : ℤ
deriving DecidableEq, Repr

structure Attributes where
  mode : UInt32
  size : ℤ
  mtime : Timespec
  ctime : Timespec
deriving DecidableEq, Repr

/-- The fields of `struct stat` that are read. -/
structure Stat extends Inode, Attributes
deriving DecidableEq, Repr

/-- `S_ISREG`. -/
def isRegular (mode : UInt32) : Bool := mode &&& 0xf000 = 0x8000

/-- `S_ISLNK`. -/
def isLink (mode : UInt32) : Bool := mode &&& 0xf000 = 0xa000

def statSameIdentity (left right : Stat) : Bool :=
  isRegular left.mode && isRegular right.mode && left.dev = right.dev && left.ino = right.ino

def statFileUnchanged (before after : Stat) : Bool :=
  statSameIdentity before after && before.size = after.size && before.mode = after.mode &&
    before.mtime.sec = after.mtime.sec && before.mtime.nsec = after.mtime.nsec &&
    before.ctime.sec = after.ctime.sec && before.ctime.nsec = after.ctime.nsec

theorem statFileUnchanged_iff {before after : Stat} :
    statFileUnchanged before after = true ↔ isRegular before.mode = true ∧ before = after := by
  obtain ⟨⟨dev, ino⟩, mode, size, ⟨sec, nsec⟩, ⟨sec', nsec'⟩⟩ := before
  obtain ⟨⟨dev₁, ino₁⟩, mode₁, size₁, ⟨sec₁, nsec₁⟩, ⟨sec₁', nsec₁'⟩⟩ := after
  simp only [statFileUnchanged, statSameIdentity, Bool.and_eq_true, decide_eq_true_eq,
    Stat.mk.injEq, Inode.mk.injEq, Attributes.mk.injEq, Timespec.mk.injEq]
  constructor
  · rintro ⟨⟨⟨⟨⟨⟨⟨⟨⟨hregular, -⟩, rfl⟩, rfl⟩, rfl⟩, rfl⟩, rfl⟩, rfl⟩, rfl⟩, rfl⟩
    exact ⟨hregular, ⟨rfl, rfl⟩, rfl, rfl, ⟨rfl, rfl⟩, rfl, rfl⟩
  · rintro ⟨hregular, ⟨rfl, rfl⟩, rfl, rfl, ⟨rfl, rfl⟩, rfl, rfl⟩
    exact ⟨⟨⟨⟨⟨⟨⟨⟨⟨hregular, hregular⟩, rfl⟩, rfl⟩, rfl⟩, rfl⟩, rfl⟩, rfl⟩, rfl⟩, rfl⟩

theorem statSameIdentity_iff {left right : Stat} :
    statSameIdentity left right = true ↔
      isRegular left.mode = true ∧ isRegular right.mode = true ∧ left.toInode = right.toInode := by
  obtain ⟨⟨dev, ino⟩, attributes⟩ := left
  obtain ⟨⟨dev', ino'⟩, attributes'⟩ := right
  simp only [statSameIdentity, Bool.and_eq_true, decide_eq_true_eq, Inode.mk.injEq, and_assoc]

structure File extends Attributes where
  bytes : Text
deriving DecidableEq, Repr

/-- What one system call meets: the file system, the process's own directories
and address space, and the kernel's choices where it has any. -/
structure Instant where
  root : Inode
  workingDirectory : Inode
  workingPath : CString
  /-- The walk of a path from a directory, its last component not followed. -/
  resolve : Inode → CString → Except Errno Inode
  file : Inode → File
  /-- The call fails whatever it asks for. -/
  refused : Option Errno
  /-- How much a read hands over before it returns. -/
  given : ℕ
  addressSpace : ℕ
  addressSpace_lt : addressSpace < 2 ^ 61

namespace Instant

variable (instant : Instant)

def stat (inode : Inode) : Stat := ⟨inode, (instant.file inode).toAttributes⟩

def isAbsolute (path : CString) : Bool := path.bytes.head? = some 0x2f

/-- An absolute path starts at the root, whatever the directory. -/
def lookup (directory : Inode) (path : CString) : Except Errno Inode :=
  if isAbsolute path then instant.resolve instant.root path else instant.resolve directory path

end Instant

export Instant (isAbsolute)

/-! ## System calls -/

/-- A call that is not refused is answered from what it meets. -/
def systemCall {α : Type} (answer : Instant → Except Errno α) : Sampled Errno Instant α := do
  let instant ← sample
  match instant.refused with
  | some e => fail e
  | none => ofExcept (answer instant)

/-- `open("/")` or `open(".")`. -/
def openDirectory (absolute : Bool) : Sampled Errno Instant Inode :=
  systemCall fun instant => .ok (if absolute then instant.root else instant.workingDirectory)

/-- `fstatat` with `AT_SYMLINK_NOFOLLOW`. -/
def fstatat (directory : Inode) (path : CString) : Sampled Errno Instant Stat :=
  systemCall fun instant => (instant.lookup directory path).map instant.stat

def lstat (path : CString) : Sampled Errno Instant Stat :=
  systemCall fun instant =>
    (instant.lookup instant.workingDirectory path).map instant.stat

def withoutLink (instant : Instant) (inode : Inode) : Except Errno Inode :=
  if isLink (instant.file inode).mode then .error .loop else .ok inode

/-- `openat` with `O_NOFOLLOW`. -/
def openat (directory : Inode) (path : CString) : Sampled Errno Instant Inode :=
  systemCall fun instant => (instant.lookup directory path).bind (withoutLink instant)

/-- `open` with `O_NOFOLLOW`. -/
def openPath (path : CString) : Sampled Errno Instant Inode :=
  systemCall fun instant =>
    (instant.lookup instant.workingDirectory path).bind (withoutLink instant)

def fstat (descriptor : Inode) : Sampled Errno Instant Stat :=
  systemCall fun instant => .ok (instant.stat descriptor)

/-- `pread`, and `read` on a descriptor whose offset is known. -/
def pread (descriptor : Inode) (amount position : ℕ) : Sampled Errno Instant Text :=
  systemCall fun instant =>
    .ok (((instant.file descriptor).bytes.drop position).take (min amount (max 1 instant.given)))

/-- `malloc`, `mmap`: the address space is what it is. -/
def allocate (size : ℕ) : Sampled Errno Instant Unit :=
  systemCall fun instant => if size ≤ instant.addressSpace then .ok () else .error .nomem

/-- `close`, `mprotect`, `munmap`: nothing but success is reported. -/
def acknowledge : Sampled Errno Instant Unit := systemCall fun _ => .ok ()

def getcwd : Sampled Errno Instant CString := systemCall fun instant => .ok instant.workingPath

def posixPathError : Errno → CommonFileStatus
  | .noent | .notdir => .notFound
  | .loop => .notRegular
  | _ => .ioError

section Calls

variable {α : Type} {history : ℕ → Instant} {now later start : ℕ}

theorem systemCall_eq_ok {answer : Instant → Except Errno α} {a : α} :
    (systemCall answer).run history now = .ok a later ↔
      (history now).refused = none ∧ answer (history now) = .ok a ∧ now + 1 = later := by
  rw [systemCall, bind_eq_ok]
  constructor
  · rintro ⟨instant, mid, hsample, h⟩
    obtain ⟨rfl, rfl⟩ := sample_eq_ok.mp hsample
    cases hrefused : (history now).refused with
    | some e =>
        rw [hrefused] at h
        exact (fail_eq_ok.mp h).elim
    | none =>
        rw [hrefused] at h
        obtain ⟨hanswer, rfl⟩ := ofExcept_eq_ok.mp h
        exact ⟨rfl, hanswer, rfl⟩
  · rintro ⟨hrefused, hanswer, rfl⟩
    refine ⟨_, _, sample_eq_ok.mpr ⟨rfl, rfl⟩, ?_⟩
    rw [hrefused]
    exact ofExcept_eq_ok.mpr ⟨hanswer, rfl⟩

/-- A call that is never refused and always answered the same. -/
theorem gives_systemCall {answer : Instant → Except Errno α} {r : Except Errno α}
    (h : ∀ now, start ≤ now → (history now).refused = none ∧ answer (history now) = r) :
    Gives (systemCall answer) history start r := by
  apply gives_sample
  intro now hnow
  obtain ⟨hrefused, rfl⟩ := h now hnow
  rw [hrefused]
  exact gives_ofExcept _

theorem fstat_eq_ok {descriptor : Inode} {stat : Stat}
    (h : (fstat descriptor).run history now = .ok stat later) :
    stat = (history now).stat descriptor ∧ now + 1 = later := by
  obtain ⟨-, hanswer, rfl⟩ := systemCall_eq_ok.mp h
  cases hanswer
  exact ⟨rfl, rfl⟩

theorem map_lookup_eq_ok {instant : Instant} {directory : Inode} {path : CString} {stat : Stat}
    (h : (instant.lookup directory path).map instant.stat = .ok stat) :
    instant.lookup directory path = .ok stat.toInode ∧ stat = instant.stat stat.toInode := by
  cases hlookup : instant.lookup directory path with
  | error e =>
      rw [hlookup] at h
      cases h
  | ok inode =>
      rw [hlookup] at h
      cases h
      exact ⟨rfl, rfl⟩

theorem fstatat_eq_ok {directory : Inode} {path : CString} {stat : Stat}
    (h : (fstatat directory path).run history now = .ok stat later) :
    (history now).lookup directory path = .ok stat.toInode ∧
      stat = (history now).stat stat.toInode ∧ now + 1 = later := by
  obtain ⟨-, hanswer, rfl⟩ := systemCall_eq_ok.mp h
  obtain ⟨hlookup, hstat⟩ := map_lookup_eq_ok hanswer
  exact ⟨hlookup, hstat, rfl⟩

theorem lstat_eq_ok {path : CString} {stat : Stat}
    (h : (lstat path).run history now = .ok stat later) :
    (history now).lookup (history now).workingDirectory path = .ok stat.toInode ∧
      stat = (history now).stat stat.toInode ∧ now + 1 = later := by
  obtain ⟨-, hanswer, rfl⟩ := systemCall_eq_ok.mp h
  obtain ⟨hlookup, hstat⟩ := map_lookup_eq_ok hanswer
  exact ⟨hlookup, hstat, rfl⟩

theorem allocate_eq_ok {size : ℕ} {u : Unit}
    (h : (allocate size).run history now = .ok u later) : size < 2 ^ 61 ∧ now + 1 = later := by
  obtain ⟨-, hanswer, rfl⟩ := systemCall_eq_ok.mp h
  split at hanswer
  · have := (history now).addressSpace_lt
    exact ⟨by omega, rfl⟩
  · cases hanswer

end Calls

/-! ## Reading a number of bytes -/

/-- The loop of `posix_copy_to_memory_exact`, of `posix_digest_exact` and of
`posix_read_all`: what has been read, and what is made of it on the way. -/
def readExact {σ : Type} (most : ℕ) (update : σ → Text → σ) (descriptor : Inode) (size : ℕ) :
    ℕ → Text → σ → Sampled Unit Instant (Text × σ)
  | 0, _, _ => exhausted
  | fuel + 1, received, state =>
      if received.length < size then do
        match ← attempt (pread descriptor (min (size - received.length) most) received.length) with
        | .error .intr => readExact most update descriptor size fuel received state
        | .error _ => fail ()
        | .ok [] => fail ()
        | .ok chunk =>
            readExact most update descriptor size fuel (received ++ chunk) (update state chunk)
      else return (received, state)

/-- A context on the stack. What its block holds does not reach a digest. -/
def stackContext : CommonSha256Context := commonSha256Init (Vector.replicate 64 0)

/-- The bytes and their digest. -/
def posixCopyToMemoryExact (fuel : ℕ) (descriptor : Inode) (size : ℕ) :
    Sampled Unit Instant (Text × Text) := do
  let (snapshot, hash) ←
    readExact (64 * 1024) commonSha256Update descriptor size fuel [] stackContext
  return (snapshot, (commonSha256Final hash).2)

/-- The bytes pass through a buffer and are gone. -/
def posixDigestExact (fuel : ℕ) (descriptor : Inode) (size : ℕ) : Sampled Unit Instant Text := do
  let (_, digest) ← posixCopyToMemoryExact fuel descriptor size
  return digest

def posixReadAll (fuel : ℕ) (descriptor : Inode) (size : ℕ) : Sampled Unit Instant Text := do
  let (data, _) ← readExact (2 ^ 31 - 1) (fun _ _ => ()) descriptor size fuel [] ()
  return data

/-- The bytes of a held object, as cells. -/
def byteAt (history : ℕ → Instant) (descriptor : Inode) (t i : ℕ) : Option UInt8 :=
  ((history t).file descriptor).bytes[i]?

section Reading

variable {σ : Type} {most : ℕ} {update : σ → Text → σ} {descriptor : Inode} {size : ℕ}
  {history : ℕ → Instant}

/-- A pass over the bytes so far, cut into chunks. -/
structure ReadSoFar (history : ℕ → Instant) (descriptor : Inode) (update : σ → Text → σ)
    (initial : σ) (size start now : ℕ) (received : Text) (state : σ) : Prop where
  bounded : received.length ≤ size
  collected : Collected (byteAt history descriptor) start now received
  chunks : ∃ chunks : List Text, chunks.flatten = received ∧ chunks.foldl update initial = state

theorem ReadSoFar.step {initial state : σ} {start now position : ℕ} {received chunk : Text}
    (h : ReadSoFar history descriptor update initial size start now received state)
    (hstart : start ≤ now) (hposition : position = received.length)
    (hread : (pread descriptor (min (size - position) most) position).run history now =
      .ok chunk (now + 1)) :
    ReadSoFar history descriptor update initial size start (now + 1) (received ++ chunk)
      (update state chunk) := by
  obtain ⟨-, hanswer, -⟩ := systemCall_eq_ok.mp hread
  have hchunk := Except.ok.inj hanswer
  subst hposition
  have hbounded := h.bounded
  have hlength := congrArg List.length hchunk
  rw [List.length_take] at hlength
  obtain ⟨chunks, hflat, hstate⟩ := h.chunks
  refine ⟨?_, h.collected.append hstart (Nat.le_succ now) (Nat.lt_succ_self now) ?_,
    chunks ++ [chunk], ?_, ?_⟩
  · rw [List.length_append]
    omega
  · intro j hj
    rw [← hchunk, byteAt, List.getElem?_take_of_lt (by omega), List.getElem?_drop]
  · rw [List.flatten_append, hflat, List.flatten_singleton]
  · rw [List.foldl_append, hstate]
    rfl

/-- **The loop reads every byte once**, at instants of its own. -/
theorem readExact_ok {initial : σ} {start : ℕ} :
    ∀ {fuel now later : ℕ} {received bytes : Text} {state result : σ},
      start ≤ now →
      ReadSoFar history descriptor update initial size start now received state →
      (readExact most update descriptor size fuel received state).run history now =
        .ok (bytes, result) later →
      ReadSoFar history descriptor update initial size start later bytes result ∧
        bytes.length = size ∧ now ≤ later := by
  intro fuel
  induction fuel with
  | zero =>
      intro now later received bytes state result hstart hso h
      exact (exhausted_eq_ok.mp h).elim
  | succ fuel ih =>
      intro now later received bytes state result hstart hso h
      rw [readExact] at h
      split at h
      · obtain ⟨answer, mid, hattempt, hrest⟩ := bind_eq_ok.mp h
        have hmid := le_of_ok hattempt
        obtain ⟨chunk, rfl, hread⟩ | ⟨e, rfl, hread⟩ := attempt_eq_ok.mp hattempt
        · cases chunk with
          | nil => exact (fail_eq_ok.mp hrest).elim
          | cons byte chunk =>
              obtain ⟨-, -, rfl⟩ := systemCall_eq_ok.mp hread
              obtain ⟨hend, hlength, hlater⟩ :=
                ih (by omega) (hso.step hstart rfl hread) hrest
              exact ⟨hend, hlength, by omega⟩
        · cases e with
          | intr =>
              obtain ⟨hend, hlength, hlater⟩ := ih (by omega)
                ⟨hso.bounded, hso.collected.mono (Nat.le_refl _) hmid, hso.chunks⟩ hrest
              exact ⟨hend, hlength, by omega⟩
          | noent => exact (fail_eq_ok.mp hrest).elim
          | notdir => exact (fail_eq_ok.mp hrest).elim
          | loop => exact (fail_eq_ok.mp hrest).elim
          | nomem => exact (fail_eq_ok.mp hrest).elim
          | other => exact (fail_eq_ok.mp hrest).elim
      · obtain ⟨hpair, rfl⟩ := pure_eq_ok.mp h
        cases hpair
        have := hso.bounded
        exact ⟨hso, by omega, Nat.le_refl _⟩

theorem readSoFar_nil (initial : σ) (start : ℕ) :
    ReadSoFar history descriptor update initial size start start [] initial :=
  ⟨Nat.zero_le _, collected_nil, [], rfl, rfl⟩

/-- **A copy of a held object**: each byte as it was at some instant, with the
digest of all of them. -/
theorem posixCopyToMemoryExact_ok {fuel now later : ℕ} {snapshot digest : Text}
    (hsize : size < 2 ^ 61)
    (h : (posixCopyToMemoryExact fuel descriptor size).run history now =
      .ok (snapshot, digest) later) :
    snapshot.length = size ∧ Collected (byteAt history descriptor) now later snapshot ∧
      digest = Sha256.digest snapshot ∧ now ≤ later := by
  obtain ⟨⟨received, hash⟩, mid, hread, hpure⟩ := bind_eq_ok.mp h
  obtain ⟨hpair, rfl⟩ := pure_eq_ok.mp hpure
  cases hpair
  obtain ⟨hso, hlength, hlater⟩ := readExact_ok (Nat.le_refl now) (readSoFar_nil _ _) hread
  obtain ⟨chunks, rfl, rfl⟩ := hso.chunks
  obtain ⟨habsorbed, htotal⟩ := absorbed_updates chunks (absorbed_init (Vector.replicate 64 0)) rfl
  rw [List.nil_append] at habsorbed htotal
  exact ⟨hlength, hso.collected, final_of_absorbed habsorbed htotal (by omega), hlater⟩

/-- **A digest of a held object** is the digest of some copy of it. -/
theorem posixDigestExact_ok {fuel now later : ℕ} {digest : Text} (hsize : size < 2 ^ 61)
    (h : (posixDigestExact fuel descriptor size).run history now = .ok digest later) :
    ∃ checked : Text, checked.length = size ∧
      Collected (byteAt history descriptor) now later checked ∧
      digest = Sha256.digest checked ∧ now ≤ later := by
  obtain ⟨⟨checked, digest'⟩, mid, hcopy, hpure⟩ := bind_eq_ok.mp h
  obtain ⟨rfl, rfl⟩ := pure_eq_ok.mp hpure
  exact ⟨checked, posixCopyToMemoryExact_ok hsize hcopy⟩

theorem posixReadAll_ok {fuel now later : ℕ} {data : Text}
    (h : (posixReadAll fuel descriptor size).run history now = .ok data later) :
    data.length = size ∧ Collected (byteAt history descriptor) now later data ∧ now ≤ later := by
  obtain ⟨⟨received, u⟩, mid, hread, hpure⟩ := bind_eq_ok.mp h
  obtain ⟨rfl, rfl⟩ := pure_eq_ok.mp hpure
  obtain ⟨hso, hlength, hlater⟩ := readExact_ok (Nat.le_refl now) (readSoFar_nil _ _) hread
  exact ⟨hlength, hso.collected, hlater⟩

end Reading

end UnityCommon.Files
