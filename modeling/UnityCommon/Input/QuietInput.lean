import UnityCommon.Common.QuietFile
import UnityCommon.Input.Snapshot

/-!
# Inputs that nobody touches

On a file that stays as it is, the one-shot visit is a function of its bytes.
-/

namespace UnityCommon.Input

open Sampled Collect UnityCommon.Files UnityCommon.Bundle UnityCommon.Portable

/-- What a visit of the image comes to. -/
def visitOutcome {σ : Type} (lzma : Text → Text → ℕ → Option Text) (path : CString)
    (visitor : Visitor σ) (context : σ) (image : Text) : VisitResult σ :=
  match probeFront image with
  | (.ok, some probe) =>
      match probe.kind with
      | .unityfs =>
          match bundleOpen lzma image with
          | none => ⟨.containerInvalid, .zero, context⟩
          | some archive =>
              let (status, stats, context) := visitBundle path archive visitor context
              ⟨status, stats, context⟩
      | .serializedFileV22 =>
          let (goOn, context) := visitor ⟨path, none, 0, false, image⟩ context
          if goOn then ⟨.ok, { UnityInputVisitStats.zero with serializedFiles := 1 }, context⟩
          else ⟨.visitorFailed, .zero, context⟩
      | _ => ⟨.ok, .zero, context⟩
  | (status, _) => ⟨status, .zero, context⟩

/-- The path that a snapshot fixes. -/
def absolutePath (current path : CString) : CString :=
  if isAbsolute path then path else joinPath current path

section

variable {lzma : Text → Text → ℕ → Option Text} {fuel : ℕ} {history : ℕ → Instant} {start : ℕ}
  {path : CString} {descriptor : Inode} {file : File}

/-- The anchor of a file as it stays. -/
def quietAnchor (descriptor : Inode) (file : File) : UnityInputIdentityAnchor where
  descriptor := descriptor
  before := file.stat descriptor
  bound := some ⟨Sha256.digest file.bytes, file.bytes.length⟩

section Anchor

variable (h : Quiet history start path descriptor file)

include h

theorem gives_identityAnchorOpen :
    Gives (identityAnchorOpen path) history start
      (.ok { quietAnchor descriptor file with bound := none }) := by
  apply (h.gives_lstat.relabel _).bind
  apply (gives_require _ h.regular).bind
  apply (h.gives_openPath.relabel _).bind
  apply (h.gives_fstat.relabel _).bind
  apply (gives_require _ h.unchanged_self).bind
  exact gives_pure _

theorem gives_identityAnchorValidate (hfuel : file.bytes.length < fuel) :
    Gives (identityAnchorValidate fuel (quietAnchor descriptor file) path) history start
      (.ok ()) :=
  h.gives_recheck hfuel h.gives_lstat

theorem gives_unityInputSnapshotDigest {snapshot : UnityInputSnapshot}
    (hfuel : file.bytes.length < fuel)
    (hanchor : snapshot.anchor = quietAnchor descriptor file) (hpath : snapshot.path = path) :
    Gives (unityInputSnapshotDigest fuel snapshot) history start
      (.ok (.ok, some (Sha256.digest file.bytes))) := by
  rw [unityInputSnapshotDigest, hanchor, hpath]
  apply (gives_identityAnchorValidate h hfuel).attempt.bind
  exact gives_pure _

/-- The probe of a path is the probe that an open decides by. -/
theorem gives_unityInputProbePath (hpath : path.bytes ≠ []) (hfuel : unityInputPrefixSize < fuel) :
    Gives (unityInputProbePath fuel path) history start (.ok (probeFront file.bytes)) := by
  apply (h.gives_commonFileReadPrefixRegular hpath hfuel).attempt.bind
  exact gives_pure _

theorem gives_identityAnchorClose (hfuel : file.bytes.length < fuel) :
    Gives (identityAnchorClose fuel (quietAnchor descriptor file) path) history start
      (.ok ()) := by
  apply (gives_identityAnchorValidate h hfuel).attempt.bind
  apply h.gives_acknowledge.attempt.bind
  exact gives_require _ ⟨rfl, rfl⟩

theorem bindSnapshot_eq :
    identityAnchorBindSnapshot { quietAnchor descriptor file with bound := none } file.bytes =
      some (quietAnchor descriptor file) := by
  rw [identityAnchorBindSnapshot, imageDigest_eq h.short]
  rfl

/-- The view of the file is closed, if there is one. -/
theorem gives_closeView {held : Option CommonFileView} (hfuel : file.bytes.length < fuel)
    (hheld : ∀ view ∈ held, view = h.view) : Gives (closeView fuel held) history start (.ok ()) := by
  cases held with
  | none => exact gives_pure ()
  | some view =>
      obtain rfl := hheld view rfl
      exact h.gives_commonFileViewClose hfuel

/-- A snapshot of the file is given up without complaint. -/
theorem gives_dispose (implementation : UnityInputSnapshot) (hfuel : file.bytes.length < fuel)
    (hview : ∀ view ∈ implementation.view, view = h.view)
    (hanchor : implementation.anchor = quietAnchor descriptor file)
    (hpath : implementation.path = path) (status : UnityInputStatus) :
    Gives (disposeSnapshotImplementation fuel implementation status) history start
      (.ok status) := by
  rw [disposeSnapshotImplementation, hanchor, hpath]
  apply (gives_closeView h hfuel hview).attempt.bind
  apply (gives_identityAnchorClose h hfuel).attempt.bind
  exact gives_pure _

theorem gives_bindView (hfuel : file.bytes.length < fuel) :
    Gives (bindView lzma fuel { quietAnchor descriptor file with bound := none } path h.view)
      history start (classifyImage lzma h.view (quietAnchor descriptor file) path) := by
  have hbind : identityAnchorBindSnapshot { quietAnchor descriptor file with bound := none }
      h.view.data = some (quietAnchor descriptor file) := bindSnapshot_eq h
  rw [bindView, hbind]
  apply (gives_identityAnchorValidate h hfuel).attempt.bind
  dsimp only
  cases classifyImage lzma h.view (quietAnchor descriptor file) path with
  | ok snapshot => exact gives_pure snapshot
  | error status =>
      have hview : ∀ view ∈ some h.view, view = h.view := fun _ hview => (Option.some.inj hview).symm
      apply ((gives_dispose h _ hfuel hview rfl rfl status).relabel Empty.elim).bind
      exact gives_fail status

theorem gives_unityInputSnapshotSuspendMapping {snapshot : UnityInputSnapshot}
    (hfuel : file.bytes.length < fuel) (hview : ∀ view ∈ snapshot.view, view = h.view)
    (hanchor : snapshot.anchor = quietAnchor descriptor file) (hpath : snapshot.path = path) :
    Gives (unityInputSnapshotSuspendMapping fuel snapshot) history start
      (.ok (.ok, { snapshot with view := none })) := by
  rw [unityInputSnapshotSuspendMapping, hanchor, hpath]
  apply (gives_closeView h hfuel hview).attempt.bind
  apply (gives_identityAnchorValidate h hfuel).attempt.bind
  exact gives_pure _

theorem length_le_viewLimit : file.bytes.length ≤ viewLimit := by
  have hshort := h.short
  rw [viewLimit]
  omega

end Anchor

section Visit

variable {current : CString}
  (h : Quiet history start (absolutePath current path) descriptor file)

include h

theorem gives_stableAbsolutePath (hcurrent : ∀ t, start ≤ t → (history t).workingPath = current) :
    Gives (stableAbsolutePath path) history start (.ok (absolutePath current path)) := by
  have hallocate := h.gives_allocate (Or.inr (Nat.le_refl _))
  rw [stableAbsolutePath]
  rw [absolutePath] at hallocate ⊢
  split_ifs at hallocate ⊢ with habsolute
  · apply hallocate.bind
    exact gives_pure path
  · have hcwd : Gives getcwd history start (.ok current) :=
      gives_systemCall fun t ht => ⟨h.granted t ht, congrArg Except.ok (hcurrent t ht)⟩
    apply hcwd.bind
    apply hallocate.bind
    exact gives_pure _

omit h in
theorem absolutePath_ne_nil (hpath : path.bytes ≠ []) : (absolutePath current path).bytes ≠ [] := by
  rw [absolutePath]
  split
  · exact hpath
  · rw [joinPath]
    simp [hpath]

theorem gives_unityInputSnapshotOpen (hpath : path.bytes ≠ [])
    (hcurrent : ∀ t, start ≤ t → (history t).workingPath = current)
    (hfuel : file.bytes.length < fuel) :
    Gives (unityInputSnapshotOpen lzma fuel path) history start
      (classifyImage lzma h.view (quietAnchor descriptor file) (absolutePath current path)) := by
  apply (gives_require _ hpath).bind
  apply (h.gives_acknowledge.relabel _).bind
  apply ((gives_stableAbsolutePath h hcurrent).relabel _).bind
  apply ((gives_identityAnchorOpen h).relabel _).bind
  apply (h.gives_commonFileViewOpenRegular (absolutePath_ne_nil hpath) hfuel
    (length_le_viewLimit h)).attempt.bind
  exact gives_bindView h hfuel

/-- The view of the file agrees with a snapshot of it. -/
theorem agrees_quiet {held : Option CommonFileView} {probe : UnityInputProbe}
    {archive : Option BundleArchive} (hprobe : probeFront file.bytes = (.ok, some probe)) :
    agrees ⟨held, quietAnchor descriptor file, absolutePath current path, probe, archive⟩
      h.view = true := by
  have hdata : h.view.data = file.bytes := rfl
  have hbound : (quietAnchor descriptor file).bound =
      some ⟨Sha256.digest file.bytes, file.bytes.length⟩ := rfl
  rw [agrees, identityAnchorMatchesSnapshot, hbound, hdata, hprobe, imageDigest_eq h.short]
  simp

variable {σ : Type} {visitor : Visitor σ} {context : σ}

/-- The view at hand, or a new one of the same file. -/
theorem gives_takeView {snapshot : UnityInputSnapshot} (hpath : path.bytes ≠ [])
    (hfuel : file.bytes.length < fuel) (hheld : ∀ view ∈ snapshot.view, view = h.view)
    (hat : snapshot.path = absolutePath current path) :
    Gives (takeView fuel snapshot) history start (.ok h.view) := by
  rw [takeView, hat]
  cases hview : snapshot.view with
  | none =>
      exact h.gives_commonFileViewOpenRegular (absolutePath_ne_nil hpath) hfuel
        (length_le_viewLimit h)
  | some view =>
      obtain rfl := hheld view hview
      exact gives_pure h.view

theorem gives_ensureSnapshotMapping {held : Option CommonFileView} {probe : UnityInputProbe}
    {archive : Option BundleArchive} (hpath : path.bytes ≠ []) (hfuel : file.bytes.length < fuel)
    (hheld : ∀ view ∈ held, view = h.view) (hprobe : probeFront file.bytes = (.ok, some probe)) :
    Gives (ensureSnapshotMapping fuel
        ⟨held, quietAnchor descriptor file, absolutePath current path, probe, archive⟩)
      history start
      (.ok (.ok, ⟨some h.view, quietAnchor descriptor file, absolutePath current path, probe,
        archive⟩)) := by
  apply (gives_takeView h hpath hfuel hheld rfl).attempt.bind
  apply (gives_identityAnchorValidate h hfuel).attempt.bind
  dsimp only
  rw [if_pos ⟨rfl, agrees_quiet h hprobe⟩]
  exact gives_pure _

omit h in
theorem classifyImage_quiet {h : Quiet history start (absolutePath current path) descriptor file}
    {snapshot : UnityInputSnapshot}
    (hopen : classifyImage lzma h.view (quietAnchor descriptor file)
      (absolutePath current path) = .ok snapshot) :
    (∀ view ∈ snapshot.view, view = h.view) ∧ snapshot.anchor = quietAnchor descriptor file ∧
      snapshot.path = absolutePath current path := by
  obtain ⟨probe, -, ⟨-, rfl⟩ | ⟨-, archive, -, rfl⟩⟩ := classifyImage_eq_ok hopen <;>
    exact ⟨fun _ hview => (Option.some.inj hview).symm, rfl, rfl⟩

/-- The visit of a snapshot that opened, whether its view is at hand or not. -/
theorem gives_unityInputSnapshotVisit {snapshot : UnityInputSnapshot}
    {held : Option CommonFileView} (hpath : path.bytes ≠ []) (hfuel : file.bytes.length < fuel)
    (hheld : ∀ view ∈ held, view = h.view)
    (hopen : classifyImage lzma h.view (quietAnchor descriptor file)
      (absolutePath current path) = .ok snapshot) :
    ∃ after : Option CommonFileView, (∀ view ∈ after, view = h.view) ∧
      Gives (unityInputSnapshotVisit fuel visitor context { snapshot with view := held }) history
        start (.ok (visitOutcome lzma (absolutePath current path) visitor context file.bytes,
          { snapshot with view := after })) := by
  have hdata : h.view.data = file.bytes := rfl
  have hvalidate := gives_identityAnchorValidate h hfuel
  obtain ⟨probe, hprobe, ⟨hkind, rfl⟩ | ⟨hkind, archive, harchive, rfl⟩⟩ :=
    classifyImage_eq_ok hopen
  · rw [hdata] at hprobe
    refine ⟨some h.view, fun _ hview => (Option.some.inj hview).symm, ?_⟩
    rw [visitOutcome, hprobe]
    apply hvalidate.attempt.bind
    dsimp only
    rw [hkind]
    apply (gives_ensureSnapshotMapping h hpath hfuel hheld hprobe).bind
    exact gives_pure _
  · rw [hdata] at hprobe harchive
    refine ⟨held, hheld, ?_⟩
    rw [visitOutcome, hprobe]
    apply hvalidate.attempt.bind
    dsimp only
    rw [hkind, harchive]
    exact gives_pure _

/-- What is reported of an image that does not open. -/
theorem visitOutcome_of_error {status : UnityInputStatus}
    (hopen : classifyImage lzma h.view (quietAnchor descriptor file)
      (absolutePath current path) = .error status) :
    visitOutcome lzma (absolutePath current path) visitor context file.bytes =
      ⟨status, .zero, context⟩ := by
  have hdata : h.view.data = file.bytes := rfl
  obtain ⟨found, hprobe, hother⟩ | ⟨probe, hprobe, hcases⟩ := classifyImage_eq_error hopen
  · rw [hdata] at hprobe
    rw [visitOutcome, hprobe]
    split
    · rename_i probe hpair
      cases hpair
      exact (hother probe rfl rfl).elim
    · rename_i hpair
      cases hpair
      rfl
  · rw [hdata] at hprobe
    rw [visitOutcome, hprobe]
    dsimp only
    obtain ⟨hkind, hnone, rfl⟩ | ⟨hserialized, hunityfs, rfl⟩ := hcases
    · rw [hdata] at hnone
      rw [hkind, hnone]
    · cases hkind : probe.kind with
      | serializedFileV22 => exact (hserialized hkind).elim
      | unityfs => exact (hunityfs hkind).elim
      | _ => rfl

/-- **The one-shot visit of a file that nobody touches** is a function of the bytes
of the file: the probe decides what it is, an archive is visited member by member
and a standalone file delivered whole, whatever the kernel makes of the reads. -/
theorem visitSerialized_quiet (hpath : path.bytes ≠ [])
    (hcurrent : ∀ t, start ≤ t → (history t).workingPath = current)
    (hfuel : file.bytes.length < fuel) (lzma : Text → Text → ℕ → Option Text)
    (visitor : Visitor σ) (context : σ) :
    Gives (unityInputVisitSerialized lzma fuel path visitor context) history start
      (.ok (visitOutcome lzma (absolutePath current path) visitor context file.bytes)) := by
  have hopen : Gives (unityInputSnapshotOpen lzma fuel path) history start _ :=
    gives_unityInputSnapshotOpen h hpath hcurrent hfuel
  cases hclassify : classifyImage lzma h.view (quietAnchor descriptor file)
      (absolutePath current path) with
  | error status =>
      rw [hclassify] at hopen
      rw [visitOutcome_of_error h hclassify]
      apply hopen.attempt.bind
      exact gives_pure _
  | ok snapshot =>
      rw [hclassify] at hopen
      obtain ⟨hheld, hanchor, hpathEq⟩ := classifyImage_quiet hclassify
      obtain ⟨after, hafter, hvisit⟩ :=
        gives_unityInputSnapshotVisit h hpath hfuel hheld hclassify
      apply hopen.attempt.bind
      apply hvisit.bind
      apply (gives_dispose h { snapshot with view := after } hfuel hafter hanchor hpathEq .ok).bind
      exact gives_pure _

end Visit

end

theorem probeFront_sampleImage :
    probeFront sampleImage = (.ok, some ⟨.serializedFileV22, 22, 48⟩) := by
  decide +kernel

theorem quiet_sampleImage :
    Quiet (fun _ => sampleInstant sampleImage) 0 (absolutePath (cstr "/home") (cstr "/a")) ⟨1, 7⟩
      (sampleFile sampleImage) := by
  have habsolute : absolutePath (cstr "/home") (cstr "/a") = cstr "/a" := if_pos (by decide)
  rw [habsolute]
  exact quiet_sample (by decide)

theorem visitSerialized_quiet_sample :
    ∃ later, (unityInputVisitSerialized (fun _ _ _ => none) 49 (cstr "/a") recorder []).run
      (fun _ => sampleInstant sampleImage) 0 = .ok ⟨.ok, ⟨1, 0, 0, 0⟩, [sampleImage]⟩ later := by
  obtain ⟨later, hrun⟩ := visitSerialized_quiet quiet_sampleImage (by decide) (fun _ _ => rfl)
    (by decide : (sampleFile sampleImage).bytes.length < 49) (fun _ _ _ => none) recorder [] 0
    (Nat.le_refl 0)
  refine ⟨later, hrun.trans ?_⟩
  rw [visitOutcome, show (sampleFile sampleImage).bytes = sampleImage from rfl,
    probeFront_sampleImage]
  rfl

end UnityCommon.Input
