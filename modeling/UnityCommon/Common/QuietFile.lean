import UnityCommon.Common.FileView

/-!
# A file that nobody touches

While nothing changes and no call is refused, every function of the POSIX half
does what its name says, however the kernel cuts the reads. A view that opens and
closes well shows that its file was such a one.
-/

namespace UnityCommon.Files

open Sampled Collect UnityCommon.Portable

/-- From the instant on, the path leads to the file, which is regular and stays as
it is. -/
structure Quiet (history : ℕ → Instant) (start : ℕ) (path : CString) (descriptor : Inode)
    (file : File) : Prop where
  granted : ∀ t, start ≤ t → (history t).refused = none
  root : ∀ t, start ≤ t → (history t).root = (history start).root
  directory : ∀ t, start ≤ t → (history t).workingDirectory = (history start).workingDirectory
  named : ∀ t, start ≤ t → (history t).lookup (history start).workingDirectory path =
    .ok descriptor
  unchanged : ∀ t, start ≤ t → (history t).file descriptor = file
  regular : isRegular file.mode = true
  size : file.size = file.bytes.length
  room : ∀ t, start ≤ t →
    file.bytes.length ≤ (history t).addressSpace ∧ path.bytes.length < (history t).addressSpace

section

variable {history : ℕ → Instant} {start : ℕ} {path : CString} {descriptor : Inode} {file : File}

def File.stat (file : File) (descriptor : Inode) : Stat := ⟨descriptor, file.toAttributes⟩

theorem isLink_eq_false {mode : UInt32} (h : isRegular mode = true) : isLink mode = false := by
  rw [isRegular, decide_eq_true_eq] at h
  rw [isLink, h]
  rfl

namespace Quiet

variable (h : Quiet history start path descriptor file)

include h

theorem stat_eq {t : ℕ} (ht : start ≤ t) :
    (history t).stat descriptor = file.stat descriptor := by
  rw [Instant.stat, h.unchanged t ht]
  rfl

theorem short : file.bytes.length < 2 ^ 61 := by
  have hroom := (h.room start (Nat.le_refl start)).1
  have := (history start).addressSpace_lt
  omega

/-- The directory that an open keeps leads to the file as well. -/
theorem named_from {t : ℕ} (ht : start ≤ t) {directory : Inode}
    (hdirectory : isAbsolute path = false → directory = (history start).workingDirectory) :
    (history t).lookup directory path = .ok descriptor := by
  rw [← h.named t ht, Instant.lookup, Instant.lookup]
  split
  · rfl
  · rename_i habsolute
    rw [hdirectory (Bool.eq_false_iff.mpr habsolute)]

theorem gives_fstat :
    Gives (fstat descriptor) history start (.ok (file.stat descriptor)) :=
  gives_systemCall fun t ht => ⟨h.granted t ht, congrArg Except.ok (h.stat_eq ht)⟩

theorem gives_fstatat {directory : Inode}
    (hdirectory : isAbsolute path = false → directory = (history start).workingDirectory) :
    Gives (fstatat directory path) history start (.ok (file.stat descriptor)) := by
  apply gives_systemCall
  intro t ht
  refine ⟨h.granted t ht, ?_⟩
  rw [h.named_from ht hdirectory]
  exact congrArg Except.ok (h.stat_eq ht)

theorem gives_lstat : Gives (lstat path) history start (.ok (file.stat descriptor)) := by
  apply gives_systemCall
  intro t ht
  refine ⟨h.granted t ht, ?_⟩
  rw [h.directory t ht, h.named t ht]
  exact congrArg Except.ok (h.stat_eq ht)

theorem withoutLink_eq {t : ℕ} (ht : start ≤ t) :
    withoutLink (history t) descriptor = .ok descriptor := by
  rw [withoutLink, h.unchanged t ht, isLink_eq_false h.regular]
  rfl

theorem gives_openat {directory : Inode}
    (hdirectory : isAbsolute path = false → directory = (history start).workingDirectory) :
    Gives (openat directory path) history start (.ok descriptor) := by
  apply gives_systemCall
  intro t ht
  refine ⟨h.granted t ht, ?_⟩
  rw [h.named_from ht hdirectory]
  exact h.withoutLink_eq ht

theorem gives_openPath : Gives (openPath path) history start (.ok descriptor) := by
  apply gives_systemCall
  intro t ht
  refine ⟨h.granted t ht, ?_⟩
  rw [h.directory t ht, h.named t ht]
  exact h.withoutLink_eq ht

theorem gives_openDirectory (absolute : Bool) :
    Gives (openDirectory absolute) history start
      (.ok (if absolute then (history start).root else (history start).workingDirectory)) := by
  apply gives_systemCall
  intro t ht
  rw [h.root t ht, h.directory t ht]
  exact ⟨h.granted t ht, rfl⟩

theorem gives_acknowledge : Gives acknowledge history start (.ok ()) :=
  gives_systemCall fun t ht => ⟨h.granted t ht, rfl⟩

theorem gives_allocate {size : ℕ} (hsize : size ≤ file.bytes.length ∨ size ≤ path.bytes.length + 1) :
    Gives (allocate size) history start (.ok ()) := by
  apply gives_systemCall
  intro t ht
  have hroom := h.room t ht
  rw [if_pos (by omega)]
  exact ⟨h.granted t ht, rfl⟩

/-! ## Reading -/

/-- A read inside the file hands over at least a byte. -/
theorem pread_eq {now : ℕ} (position amount : ℕ) (hnow : start ≤ now)
    (hposition : position < file.bytes.length) (hamount : 0 < amount) :
    ∃ chunk : Text, 0 < chunk.length ∧
      (pread descriptor amount position).run history now = .ok chunk (now + 1) := by
  refine ⟨(((history now).file descriptor).bytes.drop position).take
    (min amount (max 1 (history now).given)), ?_,
    systemCall_eq_ok.mpr ⟨h.granted now hnow, rfl, rfl⟩⟩
  rw [List.length_take, List.length_drop, h.unchanged now hnow]
  omega

theorem readExact_ends {σ : Type} {most : ℕ} (update : σ → Text → σ) {size : ℕ}
    (hmost : 0 < most) (hsize : size ≤ file.bytes.length) :
    ∀ (fuel now : ℕ) (received : Text) (state : σ), start ≤ now →
      size - received.length < fuel →
      ∃ bytes result later,
        (readExact most update descriptor size fuel received state).run history now =
          .ok (bytes, result) later := by
  intro fuel
  induction fuel with
  | zero =>
      intro now received state _ hfuel
      omega
  | succ fuel ih =>
      intro now received state hnow hfuel
      rw [readExact]
      split
      · obtain ⟨chunk, hpositive, hread⟩ := h.pread_eq received.length
          (min (size - received.length) most) hnow (by omega) (by omega)
        cases chunk with
        | nil => exact absurd hpositive (Nat.lt_irrefl 0)
        | cons byte chunk =>
            obtain ⟨bytes, result, later, hrest⟩ := ih (now + 1)
              (received ++ byte :: chunk) (update state (byte :: chunk)) (by omega)
              (by rw [List.length_append, List.length_cons]; omega)
            exact ⟨bytes, result, later, attempt_bind_eq_ok.mpr (Or.inl ⟨_, _, hread, hrest⟩)⟩
      · exact ⟨received, state, now, rfl⟩

/-- What is collected from a file that stays as it is. -/
theorem eq_of_collected {now later : ℕ} {bytes : Text} (hnow : start ≤ now)
    (hcollected : Collected (byteAt history descriptor) now later bytes) :
    file.bytes.take bytes.length = bytes := by
  apply take_of_getElem?
  intro i hi
  obtain ⟨t, hlow, -, hcell⟩ := hcollected i hi
  rwa [byteAt, h.unchanged t (by omega)] at hcell

theorem gives_posixCopyToMemoryExact {fuel : ℕ} (hfuel : file.bytes.length < fuel) :
    Gives (posixCopyToMemoryExact fuel descriptor file.bytes.length) history start
      (.ok (file.bytes, Sha256.digest file.bytes)) := by
  intro now hnow
  obtain ⟨bytes, hash, later, hread⟩ := h.readExact_ends commonSha256Update
    (by decide : 0 < 64 * 1024) (Nat.le_refl _) fuel now [] stackContext hnow
    (by simpa using hfuel)
  have hcopy : (posixCopyToMemoryExact fuel descriptor file.bytes.length).run history now =
      .ok (bytes, (commonSha256Final hash).2) later :=
    bind_eq_ok.mpr ⟨_, _, hread, pure_eq_ok.mpr ⟨rfl, rfl⟩⟩
  obtain ⟨hlength, hcollected, hdigest, -⟩ := posixCopyToMemoryExact_ok h.short hcopy
  have hbytes := h.eq_of_collected hnow hcollected
  rw [hlength, List.take_length] at hbytes
  rw [hdigest, ← hbytes] at hcopy
  exact ⟨later, hcopy⟩

theorem gives_posixDigestExact {fuel : ℕ} (hfuel : file.bytes.length < fuel) :
    Gives (posixDigestExact fuel descriptor file.bytes.length) history start
      (.ok (Sha256.digest file.bytes)) :=
  (h.gives_posixCopyToMemoryExact hfuel).bind (gives_pure _)

theorem gives_posixReadAll {fuel size : ℕ} (hfuel : size < fuel)
    (hsize : size ≤ file.bytes.length) :
    Gives (posixReadAll fuel descriptor size) history start (.ok (file.bytes.take size)) := by
  intro now hnow
  obtain ⟨bytes, state, later, hread⟩ := h.readExact_ends (fun _ _ => ())
    (by decide : 0 < 2 ^ 31 - 1) hsize fuel now [] () hnow (by simpa using hfuel)
  obtain ⟨hso, hlength, -⟩ := readExact_ok (Nat.le_refl now) (readSoFar_nil _ _) hread
  have hbytes := h.eq_of_collected hnow hso.collected
  rw [hlength] at hbytes
  rw [hbytes]
  exact ⟨later, bind_eq_ok.mpr ⟨_, _, hread, pure_eq_ok.mpr ⟨rfl, rfl⟩⟩⟩

/-! ## Views -/

theorem unchanged_self :
    statFileUnchanged (file.stat descriptor) (file.stat descriptor) = true :=
  statFileUnchanged_iff.mpr ⟨h.regular, rfl⟩

theorem gives_recheck {fuel : ℕ} {locate : Sampled Errno Instant Stat}
    (hfuel : file.bytes.length < fuel)
    (hlocate : Gives locate history start (.ok (file.stat descriptor))) :
    Gives (recheck fuel locate descriptor (file.stat descriptor) file.bytes.length
      (Sha256.digest file.bytes)) history start (.ok ()) := by
  apply (h.gives_fstat.relabel _).bind
  apply (hlocate.relabel _).bind
  apply (h.gives_posixDigestExact hfuel).bind
  apply (gives_require _ rfl).bind
  apply (gives_require _ h.unchanged_self).bind
  exact gives_require _ h.unchanged_self

theorem gives_onMapping (data : Text) :
    Gives (onMapping data acknowledge) history start (.ok ()) := by
  rw [onMapping]
  split
  · exact h.gives_acknowledge
  · exact gives_pure ()

theorem gives_copyImage {fuel : ℕ} (hfuel : file.bytes.length < fuel) :
    Gives (copyImage fuel descriptor file.bytes.length) history start
      (.ok (file.bytes, Sha256.digest file.bytes)) := by
  rw [copyImage]
  split
  · apply ((h.gives_allocate (Or.inl (Nat.le_refl _))).relabel _).bind
    exact (h.gives_posixCopyToMemoryExact hfuel).relabel _
  · rename_i hzero
    have hnil : file.bytes = [] := List.eq_nil_of_length_eq_zero (not_not.mp hzero)
    rw [hnil, commonSha256_eq _ _ (by decide)]
    exact gives_pure _

/-- The view of a file as it stays. -/
def view (_ : Quiet history start path descriptor file) : CommonFileView where
  data := file.bytes
  sourceDescriptor := descriptor
  namespaceDescriptor :=
    if isAbsolute path then (history start).root else (history start).workingDirectory
  before := file.stat descriptor
  snapshotDigest := Sha256.digest file.bytes
  path := path

theorem view_directory (habsolute : isAbsolute path = false) :
    h.view.namespaceDescriptor = (history start).workingDirectory := by
  rw [view, habsolute]
  rfl

/-- **Opening a view of a file that nobody touches.** -/
theorem gives_commonFileViewOpenRegular {fuel maxSize : ℕ} (hpath : path.bytes ≠ [])
    (hfuel : file.bytes.length < fuel) (hmax : file.bytes.length ≤ maxSize) :
    Gives (commonFileViewOpenRegular fuel path maxSize) history start (.ok h.view) := by
  have hsize : (file.stat descriptor).size = file.bytes.length := h.size
  have hshort := h.short
  apply (gives_require _ hpath).bind
  apply ((h.gives_openDirectory _).relabel _).bind
  apply ((h.gives_fstatat h.view_directory).relabel _).bind
  apply (gives_require _ h.regular).bind
  apply ((h.gives_openat h.view_directory).relabel _).bind
  apply (h.gives_fstat.relabel _).bind
  apply (gives_require _ h.unchanged_self).bind
  apply (gives_require _ (by rw [hsize, sizeMax]; omega)).bind
  apply ((h.gives_allocate (Or.inr (Nat.le_refl _))).relabel _).bind
  rw [hsize, Int.toNat_natCast]
  apply (h.gives_copyImage hfuel).bind
  apply ((h.gives_recheck hfuel (h.gives_fstatat h.view_directory)).relabel _).bind
  apply ((h.gives_onMapping _).relabel _).bind
  exact gives_pure _

theorem gives_commonFileViewClose {fuel : ℕ} (hfuel : file.bytes.length < fuel) :
    Gives (commonFileViewClose fuel h.view) history start (.ok ()) := by
  apply (h.gives_recheck hfuel (h.gives_fstatat h.view_directory)).attempt.bind
  apply (h.gives_onMapping _).attempt.bind
  apply h.gives_acknowledge.attempt.bind
  apply h.gives_acknowledge.attempt.bind
  exact gives_require _ ⟨rfl, rfl, rfl, rfl⟩

theorem gives_commonFileReadPrefixRegular {fuel capacity : ℕ} (hpath : path.bytes ≠ [])
    (hfuel : capacity < fuel) :
    Gives (commonFileReadPrefixRegular fuel path capacity) history start
      (.ok (file.bytes.take capacity, file.bytes.length)) := by
  have hsize : (file.stat descriptor).size = file.bytes.length := h.size
  have hshort := h.short
  have hsame : statSameIdentity (file.stat descriptor) (file.stat descriptor) = true :=
    statSameIdentity_iff.mpr ⟨h.regular, h.regular, rfl⟩
  apply (gives_require _ hpath).bind
  apply (h.gives_lstat.relabel _).bind
  apply (gives_require _ h.regular).bind
  apply (h.gives_openPath.relabel _).bind
  apply (h.gives_fstat.relabel _).bind
  apply (gives_require _ hsame).bind
  apply (gives_require _ (by rw [hsize, sizeMax]; omega)).bind
  rw [hsize, Int.toNat_natCast]
  apply ((h.gives_posixReadAll (by omega) (Nat.min_le_left _ _)).relabel _).bind
  apply (h.gives_fstat.relabel _).bind
  apply (h.gives_lstat.relabel _).bind
  apply (gives_require _ h.unchanged_self).bind
  apply (gives_require _ hsame).bind
  apply (h.gives_acknowledge.relabel _).bind
  rw [Nat.min_comm, ← List.take_take, List.take_length]
  exact gives_pure _

end Quiet

end

/-! ## The life of a view -/

/-- **The life of a view.** When a view opens and later closes without complaint,
there was an instant during the open and one during the close at which the path
led to the held object with the same attributes. The image was read from the
object before the first, as many bytes were read from it after the second, and
these have the digest of the image. If they are the image, and no byte was
changed and changed back, then the file held the image from the one instant to
the other. -/
theorem fileView_life {history : ℕ → Instant} {view : CommonFileView}
    {fuel maxSize now later start closed : ℕ} {path : CString} {u : Unit}
    (hopen : (commonFileViewOpenRegular fuel path maxSize).run history now = .ok view later)
    (hclose : (commonFileViewClose fuel view).run history start = .ok u closed) :
    ∃ opening closing checked, now ≤ opening ∧ opening < later ∧ start < closing ∧
      closing < closed ∧
      Located view.Names (history opening) view.sourceDescriptor view.before ∧
      Located view.Names (history closing) view.sourceDescriptor view.before ∧
      Collected (byteAt history view.sourceDescriptor) now opening view.data ∧
      checked.length = view.data.length ∧
      Collected (byteAt history view.sourceDescriptor) closing closed checked ∧
      Sha256.digest checked = commonFileViewSha256 view ∧
      commonFileViewSha256 view = Sha256.digest view.data ∧
      (view.data.length : ℤ) = view.before.size ∧
      (checked = view.data → NeverReturns (byteAt history view.sourceDescriptor) now closed →
        ∀ t, opening ≤ t → t ≤ closing →
          ((history t).file view.sourceDescriptor).bytes.take view.data.length = view.data) := by
  obtain ⟨-, -, opening, first, hcaptured⟩ := commonFileViewOpenRegular_ok hopen
  obtain ⟨closing, checked, hlow, hhigh, hlocated, hlength, hdigest, hcollected⟩ :=
    commonFileViewClose_ok hcaptured.short hclose
  refine ⟨opening, closing, checked, hcaptured.started, hcaptured.ended, hlow, hhigh,
    hcaptured.located, hlocated, hcaptured.collected, hlength, hcollected, hdigest.symm,
    hcaptured.digest, hcaptured.size, ?_⟩
  intro hchecked hreturn t hopening hclosing
  exact take_of_getElem? (hcaptured.collected.holds (hchecked ▸ hcollected) hreturn (by omega)
    hclosing)

/-- A file of the bytes. -/
def sampleFile (bytes : Text) : File where
  mode := 0x81a4
  size := bytes.length
  mtime := ⟨1, 0⟩
  ctime := ⟨1, 0⟩
  bytes := bytes

/-- A world with the one file, whose reads hand over two bytes at a time. -/
def sampleInstant (bytes : Text) : Instant where
  root := ⟨1, 2⟩
  workingDirectory := ⟨1, 3⟩
  workingPath := cstr "/home"
  resolve := fun _ path => if path = cstr "/a" then .ok ⟨1, 7⟩ else .error .noent
  file := fun _ => sampleFile bytes
  refused := none
  given := 2
  addressSpace := 2 ^ 40
  addressSpace_lt := by decide

theorem quiet_sample {bytes : Text} (h : bytes.length ≤ 2 ^ 40) :
    Quiet (fun _ => sampleInstant bytes) 0 (cstr "/a") ⟨1, 7⟩ (sampleFile bytes) where
  granted _ _ := rfl
  root _ _ := rfl
  directory _ _ := rfl
  named _ _ := rfl
  unchanged _ _ := rfl
  regular := by
    show isRegular 0x81a4 = true
    decide
  size := rfl
  room _ _ := by
    refine ⟨h, ?_⟩
    show (cstr "/a").bytes.length < 2 ^ 40
    decide

/-- In a world that stands still the close reads the image again. -/
theorem fileView_life_sample : ∃ (view : CommonFileView) (opening closing closed : ℕ)
    (checked : Text),
    view.data = ascii "abc" ∧ opening < closing ∧
    Collected (byteAt (fun _ => sampleInstant (ascii "abc")) view.sourceDescriptor) closing closed
      checked ∧
    Sha256.digest checked = Sha256.digest (ascii "abc") ∧ checked = ascii "abc" ∧
    ((sampleInstant (ascii "abc")).file view.sourceDescriptor).bytes.take 3 = ascii "abc" := by
  have h := quiet_sample (show (ascii "abc").length ≤ 2 ^ 40 by decide)
  have hopens : Gives (commonFileViewOpenRegular 5 (cstr "/a") 10) _ 0 (.ok h.view) :=
    h.gives_commonFileViewOpenRegular (by decide) (by decide) (by decide)
  have hcloses : Gives (commonFileViewClose 5 h.view) _ 0 (.ok ()) :=
    h.gives_commonFileViewClose (by decide)
  obtain ⟨opened, hopen⟩ := hopens 0 (Nat.le_refl 0)
  obtain ⟨closed, hclose⟩ := hcloses opened (Nat.zero_le opened)
  obtain ⟨opening, closing, checked, -, hopening, hclosing, -, -, -, -, hlength, hcollected,
    hdigest, hvalue, -, hheld⟩ := fileView_life hopen hclose
  have hchecked : checked = ascii "abc" := by
    have hbytes := h.eq_of_collected (Nat.zero_le closing) hcollected
    rw [hlength] at hbytes
    exact hbytes.symm
  refine ⟨h.view, opening, closing, closed, checked, rfl, by omega, hcollected,
    hdigest.trans hvalue, hchecked, ?_⟩
  exact hheld hchecked (fun i s t u _ _ _ _ _ => rfl) opening (Nat.le_refl _) (by omega)

end UnityCommon.Files
