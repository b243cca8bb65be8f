import UnityCommon.Input.QuietInput

/-!
# Sessions on a snapshot

Whatever is asked of an open snapshot, in whatever order, and whatever happens
to the file meanwhile: visitors are given the opening image and nothing else.
-/

namespace UnityCommon.Input

open Sampled Collect UnityCommon.Files UnityCommon.Bundle UnityCommon.Portable

variable {lzma : Text → Text → ℕ → Option Text} {fuel : ℕ} {history : ℕ → Instant} {now later : ℕ}
  {image : Text} {snapshot : UnityInputSnapshot}

/-! ## What a snapshot keeps -/

/-- The snapshot is one of the image: the anchor is bound to it, the probe and the
archive are those of the image, and a view at hand agrees with it. -/
structure OfImage (lzma : Text → Text → ℕ → Option Text) (image : Text)
    (snapshot : UnityInputSnapshot) : Prop where
  short : image.length < 2 ^ 61
  bound : snapshot.anchor.bound = some ⟨Sha256.digest image, image.length⟩
  probe : probeFront image = (.ok, some snapshot.probe)
  archive : ∀ archive ∈ snapshot.archive, bundleOpen lzma image = some archive
  view : ∀ view ∈ snapshot.view,
    view.data.length = image.length ∧ Sha256.digest view.data = Sha256.digest image

/-- What may be delivered from the image: bytes with its length and digest when
it stands alone, or the serialized members of the archive in it. -/
inductive ImageSource (lzma : Text → Text → ℕ → Option Text) (image : Text) (path : CString) :
    UnitySerializedSource → Prop where
  | alone {data : Text} (hlength : data.length = image.length)
      (hdigest : Sha256.digest data = Sha256.digest image) :
      ImageSource lzma image path ⟨path, none, 0, false, data⟩
  | member {archive : BundleArchive} {source : UnitySerializedSource}
      (hopen : bundleOpen lzma image = some archive)
      (hsource : source ∈ bundleSources path archive) : ImageSource lzma image path source

/-- A view that agrees with a snapshot of the image. -/
theorem OfImage.agrees (h : OfImage lzma image snapshot) {view : CommonFileView}
    (hagrees : agrees snapshot view = true) :
    view.data.length = image.length ∧ Sha256.digest view.data = Sha256.digest image := by
  rw [Input.agrees, Bool.and_eq_true, identityAnchorMatchesSnapshot, h.bound,
    Bool.and_eq_true, decide_eq_true_eq, decide_eq_true_eq] at hagrees
  obtain ⟨⟨hlength, hdigest⟩, -⟩ := hagrees
  have hshort := h.short
  dsimp only at hlength hdigest
  rw [imageDigest_eq (by omega)] at hdigest
  exact ⟨hlength.symm, hdigest.symm⟩

theorem OfImage.withView (h : OfImage lzma image snapshot) {view : CommonFileView}
    (hview : view.data.length = image.length ∧ Sha256.digest view.data = Sha256.digest image) :
    OfImage lzma image { snapshot with view := some view } where
  short := h.short
  bound := h.bound
  probe := h.probe
  archive := h.archive
  view other hother := by
    cases hother
    exact hview

theorem OfImage.withoutView (h : OfImage lzma image snapshot) :
    OfImage lzma image { snapshot with view := none } where
  short := h.short
  bound := h.bound
  probe := h.probe
  archive := h.archive
  view _ hother := nomatch hother

/-! ## Opening -/

theorem disposeAndFail_ne_ok {α : Type} {implementation : UnityInputSnapshot}
    {status : UnityInputStatus} {a : α} :
    (disposeAndFail fuel implementation status).run history now ≠ .ok a later := by
  intro h
  obtain ⟨_, mid, -, h⟩ := bind_eq_ok.mp h
  exact fail_eq_ok.mp h

/-- The image of a classified snapshot. -/
theorem classifyImage_ok {view : CommonFileView} {anchor : UnityInputIdentityAnchor}
    {path : CString} (hshort : view.data.length < 2 ^ 61)
    (hbound : anchor.bound = some ⟨Sha256.digest view.data, view.data.length⟩)
    (h : classifyImage lzma view anchor path = .ok snapshot) :
    OfImage lzma view.data snapshot ∧ snapshot.view = some view ∧ snapshot.path = path ∧
      snapshot.anchor = anchor := by
  have hself : ∀ other ∈ some view, other.data.length = view.data.length ∧
      Sha256.digest other.data = Sha256.digest view.data := by
    intro other hother
    cases hother
    exact ⟨rfl, rfl⟩
  obtain ⟨probe, hprobe, ⟨-, rfl⟩ | ⟨-, archive, hopen, rfl⟩⟩ := classifyImage_eq_ok h
  · exact ⟨⟨hshort, hbound, hprobe, (fun _ harchive => nomatch harchive), hself⟩, rfl, rfl, rfl⟩
  · refine ⟨⟨hshort, hbound, hprobe, ?_, hself⟩, rfl, rfl, rfl⟩
    intro other hother
    cases hother
    exact hopen

/-- The path of the snapshot is absolute, as the view's. -/
theorem snapshotOpen_ok {path : CString}
    (h : (unityInputSnapshotOpen lzma fuel path).run history now = .ok snapshot later) :
    ∃ view t checked, snapshot.view = some view ∧ view.path = snapshot.path ∧
      Captured history now t later view checked ∧ OfImage lzma view.data snapshot := by
  obtain ⟨_, t₁, hpath, h⟩ := bind_eq_ok.mp h
  obtain ⟨_, t₂, hcalloc, h⟩ := bind_eq_ok.mp h
  obtain ⟨stable, t₃, hstable, h⟩ := bind_eq_ok.mp h
  obtain ⟨anchor, t₄, hanchor, h⟩ := bind_eq_ok.mp h
  have hearly : now ≤ t₄ := by
    have := le_of_ok hpath
    have := le_of_ok hcalloc
    have := le_of_ok hstable
    have := le_of_ok hanchor
    omega
  obtain ⟨view, t₅, hview, h⟩ | ⟨e, t₅, -, h⟩ := attempt_bind_eq_ok.mp h
  · obtain ⟨hviewPath, -, t, checked, hcaptured⟩ := commonFileViewOpenRegular_ok hview
    have hlate := le_of_ok h
    dsimp only at h
    rw [bindView] at h
    split at h
    · exact absurd h disposeAndFail_ne_ok
    · rename_i bound hbind
      obtain ⟨valid, t₆, -, h⟩ := bind_eq_ok.mp h
      split at h
      · exact absurd h disposeAndFail_ne_ok
      · split at h
        · exact absurd h disposeAndFail_ne_ok
        · rename_i hclassify
          obtain ⟨rfl, -⟩ := pure_eq_ok.mp h
          have hbound : bound.bound =
              some ⟨Sha256.digest view.data, view.data.length⟩ := by
            rw [identityAnchorBindSnapshot] at hbind
            split at hbind
            · cases hbind
            · cases hbind
              rw [imageDigest_eq hcaptured.short]
          obtain ⟨hof, hsnapshotView, hpathEq, -⟩ :=
            classifyImage_ok hcaptured.short hbound hclassify
          refine ⟨view, t, checked, hsnapshotView, hviewPath.trans hpathEq.symm, ?_, hof⟩
          exact { hcaptured with
            started := hearly.trans hcaptured.started
            ended := hcaptured.ended.trans_le hlate
            collected := hcaptured.collected.mono hearly (Nat.le_refl _)
            checkedCollected := hcaptured.checkedCollected.mono (Nat.le_refl _) hlate }
  · exact absurd h disposeAndFail_ne_ok

/-! ## One operation -/

/-- Between the two instants the path led to the anchored file with the attributes
it had at the opening, and bytes with the digest of the image were read from it
after that. -/
def Revalidated (history : ℕ → Instant) (snapshot : UnityInputSnapshot) (image : Text)
    (start stop : ℕ) : Prop :=
  ∃ t checked, start < t ∧ t < stop ∧
    Located (fun instant inode =>
        instant.lookup instant.workingDirectory snapshot.path = .ok inode)
      (history t) snapshot.anchor.descriptor snapshot.anchor.before ∧
    checked.length = image.length ∧
    Collected (byteAt history snapshot.anchor.descriptor) t stop checked ∧
    Sha256.digest checked = Sha256.digest image

theorem Revalidated.mono {start stop start' stop' : ℕ}
    (h : Revalidated history snapshot image start stop) (hstart : start' ≤ start)
    (hstop : stop ≤ stop') : Revalidated history snapshot image start' stop' := by
  obtain ⟨t, checked, hlow, hhigh, hlocated, hlength, hcollected, hdigest⟩ := h
  exact ⟨t, checked, by omega, by omega, hlocated, hlength,
    hcollected.mono (Nat.le_refl t) hstop, hdigest⟩

theorem OfImage.validate (h : OfImage lzma image snapshot) {u : Unit}
    (hrun : (identityAnchorValidate fuel snapshot.anchor snapshot.path).run history now =
      .ok u later) : Revalidated history snapshot image now later := by
  rw [identityAnchorValidate, h.bound] at hrun
  obtain ⟨t, checked, hlow, hhigh, hlocated, hlength, hcollected, hdigest⟩ :=
    recheck_ok (locates_lstat _) h.short hrun
  exact ⟨t, checked, hlow, hhigh, hlocated, hlength, hcollected, hdigest.symm⟩

/-- What follows a validation that may fail. -/
theorem OfImage.attempt_validate (h : OfImage lzma image snapshot) {β : Type}
    {f : Except Unit Unit → Sampled Empty Instant β} {b : β}
    (hrun : (attempt (identityAnchorValidate fuel snapshot.anchor snapshot.path) >>= f).run
      history now = .ok b later) :
    (∃ t, Revalidated history snapshot image now later ∧
        (f (.ok ())).run history t = .ok b later) ∨
      ∃ t, (f (.error ())).run history t = .ok b later := by
  obtain ⟨_, t, hvalid, hrun⟩ | ⟨_, t, -, hrun⟩ := attempt_bind_eq_ok.mp hrun
  · exact Or.inl ⟨t, (h.validate hvalid).mono (Nat.le_refl now) (le_of_ok hrun), hrun⟩
  · exact Or.inr ⟨t, hrun⟩

/-- A snapshot after an operation: of the same image, on the same file. -/
structure Continues (lzma : Text → Text → ℕ → Option Text) (image : Text)
    (before after : UnityInputSnapshot) : Prop where
  ofImage : OfImage lzma image after
  path : after.path = before.path
  anchor : after.anchor = before.anchor

theorem Continues.trans {first second third : UnityInputSnapshot}
    (h : Continues lzma image first second) (h' : Continues lzma image second third) :
    Continues lzma image first third :=
  ⟨h'.ofImage, h'.path.trans h.path, h'.anchor.trans h.anchor⟩

theorem OfImage.continues (h : OfImage lzma image snapshot) :
    Continues lzma image snapshot snapshot :=
  ⟨h, rfl, rfl⟩

variable {after : UnityInputSnapshot} {status : UnityInputStatus}

theorem ensureSnapshotMapping_ok (h : OfImage lzma image snapshot)
    (hrun : (ensureSnapshotMapping fuel snapshot).run history now = .ok (status, after) later) :
    Continues lzma image snapshot after := by
  obtain ⟨answer, t₁, -, hrun⟩ := bind_eq_ok.mp hrun
  split at hrun
  · obtain ⟨hpair, -⟩ := pure_eq_ok.mp hrun
    cases hpair
    exact h.continues
  · obtain ⟨valid, t₂, -, hrun⟩ := bind_eq_ok.mp hrun
    split at hrun
    · rename_i hgood
      obtain ⟨hpair, -⟩ := pure_eq_ok.mp hrun
      cases hpair
      exact ⟨h.withView (h.agrees hgood.2), rfl, rfl⟩
    · obtain ⟨closed, t₃, -, hrun⟩ := bind_eq_ok.mp hrun
      obtain ⟨hpair, -⟩ := pure_eq_ok.mp hrun
      cases hpair
      exact ⟨h.withoutView, rfl, rfl⟩

section Visits

variable {σ : Type} {visitor : Visitor σ} {context : σ}

/-- The visitor is called on sources of the image. -/
def CalledOn (lzma : Text → Text → ℕ → Option Text) (image : Text) (path : CString)
    (visitor : Visitor σ) (context last : σ) : Prop :=
  ∃ sources, (∀ source ∈ sources, ImageSource lzma image path source) ∧
    Calls visitor sources context last

theorem calledOn_nil (path : CString) (visitor : Visitor σ) (context : σ) :
    CalledOn lzma image path visitor context context :=
  ⟨[], fun _ hsource => absurd hsource List.not_mem_nil, .nil context⟩

theorem visitImage_calls (h : OfImage lzma image snapshot) (visitor : Visitor σ) (context : σ) :
    CalledOn lzma image snapshot.path visitor context
      (visitImage snapshot visitor context).context := by
  rw [visitImage]
  split
  · exact calledOn_nil _ visitor context
  · rename_i view hview
    obtain ⟨hlength, hdigest⟩ := h.view view hview
    have hsource : ∀ source ∈ [(⟨snapshot.path, none, 0, false, view.data⟩ :
        UnitySerializedSource)], ImageSource lzma image snapshot.path source := by
      intro source hmem
      obtain rfl := List.mem_singleton.mp hmem
      exact .alone hlength hdigest
    cases hcall : visitor ⟨snapshot.path, none, 0, false, view.data⟩ context with
    | mk goOn next =>
        cases goOn with
        | true => exact ⟨_, hsource, .cons hcall (.nil next)⟩
        | false => exact ⟨_, hsource, .refuse hcall⟩

theorem visitArchive_calls (h : OfImage lzma image snapshot) (visitor : Visitor σ) (context : σ) :
    CalledOn lzma image snapshot.path visitor context
      (visitArchive snapshot visitor context).context := by
  rw [visitArchive]
  split
  · exact calledOn_nil _ visitor context
  · rename_i archive harchive
    have hopen := h.archive archive harchive
    obtain ⟨delivered, rest, hsources, hcalls⟩ :=
      visitMembers_calls (viewed_of_bundleOpen hopen)
        (rfl : visitBundle snapshot.path archive visitor context = (_, _, _))
    refine ⟨delivered, fun source hmem => .member hopen ?_, hcalls⟩
    rw [bundleSources, hsources]
    exact List.mem_append_left rest hmem

/-- **A visit** delivers from the image, and succeeds only on a file that has been
found unchanged. -/
theorem snapshotVisit_ok {result : VisitResult σ} (h : OfImage lzma image snapshot)
    (hrun : (unityInputSnapshotVisit fuel visitor context snapshot).run history now =
      .ok (result, after) later) :
    Continues lzma image snapshot after ∧
      CalledOn lzma image snapshot.path visitor context result.context ∧
      (result.status = .ok → Revalidated history snapshot image now later) := by
  obtain ⟨t₁, hfresh, hrun⟩ | ⟨t₁, hrun⟩ := h.attempt_validate hrun
  · dsimp only at hrun
    split at hrun
    · obtain ⟨hpair, -⟩ := pure_eq_ok.mp hrun
      cases hpair
      exact ⟨h.continues, visitArchive_calls h visitor context, fun _ => hfresh⟩
    · obtain ⟨⟨mapped, ready⟩, t₂, hensure, hrun⟩ := bind_eq_ok.mp hrun
      have hcontinues := ensureSnapshotMapping_ok h hensure
      dsimp only at hrun
      split at hrun
      · obtain ⟨hpair, -⟩ := pure_eq_ok.mp hrun
        cases hpair
        have hcalls := visitImage_calls hcontinues.ofImage visitor context
        rw [hcontinues.path] at hcalls
        exact ⟨hcontinues, hcalls, fun _ => hfresh⟩
      · obtain ⟨hpair, -⟩ := pure_eq_ok.mp hrun
        cases hpair
        exact ⟨hcontinues, calledOn_nil _ visitor context, fun _ => hfresh⟩
    · obtain ⟨hpair, -⟩ := pure_eq_ok.mp hrun
      cases hpair
      exact ⟨h.continues, calledOn_nil _ visitor context, fun _ => hfresh⟩
  · obtain ⟨hpair, -⟩ := pure_eq_ok.mp hrun
    cases hpair
    exact ⟨h.continues, calledOn_nil _ visitor context, fun hstatus => nomatch hstatus⟩

end Visits

theorem snapshotDigest_ok {digest : Option Text} (h : OfImage lzma image snapshot)
    (hrun : (unityInputSnapshotDigest fuel snapshot).run history now =
      .ok (status, digest) later) :
    (∀ d ∈ digest, d = Sha256.digest image) ∧
      (status = .ok → Revalidated history snapshot image now later) := by
  obtain ⟨t₁, hfresh, hrun⟩ | ⟨t₁, hrun⟩ := h.attempt_validate hrun
  · obtain ⟨hpair, -⟩ := pure_eq_ok.mp hrun
    rw [h.bound] at hpair
    cases hpair
    refine ⟨fun d hd => ?_, fun _ => hfresh⟩
    cases hd
    rfl
  · obtain ⟨hpair, -⟩ := pure_eq_ok.mp hrun
    cases hpair
    exact ⟨(fun d hd => nomatch hd), fun hstatus => nomatch hstatus⟩

theorem snapshotSuspend_ok (h : OfImage lzma image snapshot)
    (hrun : (unityInputSnapshotSuspendMapping fuel snapshot).run history now =
      .ok (status, after) later) :
    Continues lzma image snapshot after ∧
      (status = .ok → Revalidated history snapshot image now later) := by
  have hafter : Continues lzma image snapshot { snapshot with view := none } :=
    ⟨h.withoutView, rfl, rfl⟩
  obtain ⟨closed, t₁, hclose, hrun⟩ := bind_eq_ok.mp hrun
  have hmid := le_of_ok hclose
  split at hrun
  · obtain ⟨hpair, -⟩ := pure_eq_ok.mp hrun
    cases hpair
    exact ⟨hafter, fun hstatus => nomatch hstatus⟩
  · obtain ⟨t₂, hfresh, hrun⟩ | ⟨t₂, hrun⟩ := h.attempt_validate hrun
    · obtain ⟨hpair, -⟩ := pure_eq_ok.mp hrun
      cases hpair
      exact ⟨hafter, fun _ => hfresh.mono hmid (Nat.le_refl later)⟩
    · obtain ⟨hpair, -⟩ := pure_eq_ok.mp hrun
      cases hpair
      exact ⟨hafter, fun hstatus => nomatch hstatus⟩

/-! ## Sessions -/

section Session

variable {σ : Type} {context last : σ} {replies : List Reply}

/-- Whatever an operation calls keeps the property of the context, on sources of
the image. -/
def KeepsOn (lzma : Text → Text → ℕ → Option Text) (image : Text) (path : CString)
    (Q : σ → Prop) : Operation σ → Prop
  | .visit visitor =>
      ∀ source, ImageSource lzma image path source → ∀ context, Q context →
        Q (visitor source context).2
  | _ => True

/-- A reply tells the digest of the image, and success only of a file that has
been found unchanged. -/
structure Reply.Faithful (reply : Reply) (history : ℕ → Instant) (snapshot : UnityInputSnapshot)
    (image : Text) (start stop : ℕ) : Prop where
  digest : ∀ d ∈ reply.digest, d = Sha256.digest image
  fresh : reply.status = .ok → Revalidated history snapshot image start stop

theorem perform_ok {operation : Operation σ} {reply : Reply} (h : OfImage lzma image snapshot)
    (hrun : (perform fuel operation snapshot context).run history now =
      .ok (reply, after, last) later) :
    Continues lzma image snapshot after ∧
      reply.Faithful history snapshot image now later ∧
      ∀ Q : σ → Prop, KeepsOn lzma image snapshot.path Q operation → Q context → Q last := by
  cases operation with
  | digest =>
      obtain ⟨⟨status, digest⟩, mid, hdigest, hrun⟩ := bind_eq_ok.mp hrun
      obtain ⟨hpair, rfl⟩ := pure_eq_ok.mp hrun
      cases hpair
      obtain ⟨hvalue, hfresh⟩ := snapshotDigest_ok h hdigest
      exact ⟨h.continues, ⟨hvalue, hfresh⟩, fun Q _ hQ => hQ⟩
  | visit visitor =>
      obtain ⟨⟨result, next⟩, mid, hvisit, hrun⟩ := bind_eq_ok.mp hrun
      obtain ⟨hpair, rfl⟩ := pure_eq_ok.mp hrun
      cases hpair
      obtain ⟨hcontinues, ⟨sources, hsources, hcalls⟩, hfresh⟩ := snapshotVisit_ok h hvisit
      refine ⟨hcontinues, ⟨(fun d hd => nomatch hd), hfresh⟩, fun Q hkeeps hQ => ?_⟩
      exact hcalls.invariant hsources hkeeps hQ
  | suspend =>
      obtain ⟨⟨status, next⟩, mid, hsuspend, hrun⟩ := bind_eq_ok.mp hrun
      obtain ⟨hpair, rfl⟩ := pure_eq_ok.mp hrun
      cases hpair
      obtain ⟨hcontinues, hfresh⟩ := snapshotSuspend_ok h hsuspend
      exact ⟨hcontinues, ⟨(fun d hd => nomatch hd), hfresh⟩, fun Q _ hQ => hQ⟩

/-- An operation on a later state of the snapshot. -/
theorem Continues.faithful {before : UnityInputSnapshot} {reply : Reply} {start stop : ℕ}
    (h : Continues lzma image before snapshot)
    (hreply : reply.Faithful history snapshot image start stop) :
    reply.Faithful history before image start stop := by
  refine ⟨hreply.digest, fun hstatus => ?_⟩
  have hfresh := hreply.fresh hstatus
  rwa [Revalidated, h.path, h.anchor] at hfresh

theorem Reply.Faithful.mono {reply : Reply} {start stop start' stop' : ℕ}
    (h : reply.Faithful history snapshot image start stop) (hstart : start' ≤ start)
    (hstop : stop ≤ stop') : reply.Faithful history snapshot image start' stop' :=
  ⟨h.digest, fun hstatus => (h.fresh hstatus).mono hstart hstop⟩

/-- A session keeps what one operation keeps. -/
theorem session_ok :
    ∀ {operations : List (Operation σ)} {snapshot after : UnityInputSnapshot} {context last : σ}
      {replies : List Reply} {now : ℕ}, OfImage lzma image snapshot →
      (session fuel operations snapshot context).run history now =
        .ok (replies, after, last) later →
      Continues lzma image snapshot after ∧
        (∀ reply ∈ replies, reply.Faithful history snapshot image now later) ∧
        ∀ Q : σ → Prop,
          (∀ operation ∈ operations, KeepsOn lzma image snapshot.path Q operation) →
          Q context → Q last := by
  intro operations
  induction operations with
  | nil =>
      intro snapshot after context last replies now h hrun
      obtain ⟨hpair, -⟩ := pure_eq_ok.mp hrun
      cases hpair
      exact ⟨h.continues, fun _ hmem => absurd hmem List.not_mem_nil, fun Q _ hQ => hQ⟩
  | cons operation operations ih =>
      intro snapshot after context last replies now h hrun
      obtain ⟨⟨reply, mid, between⟩, t₁, hperform, hrun⟩ := bind_eq_ok.mp hrun
      obtain ⟨⟨rest, final, final'⟩, t₂, hsession, hrun⟩ := bind_eq_ok.mp hrun
      obtain ⟨hpair, rfl⟩ := pure_eq_ok.mp hrun
      cases hpair
      obtain ⟨hcontinues, hfaithful, hkeeps⟩ := perform_ok h hperform
      obtain ⟨hrest, hreplies, hkeepsRest⟩ := ih hcontinues.ofImage hsession
      have hfirst := le_of_ok hperform
      have hsecond := le_of_ok hsession
      refine ⟨hcontinues.trans hrest, ?_, fun Q hoperations hQ => ?_⟩
      · intro other hother
        obtain rfl | hother := List.mem_cons.mp hother
        · exact hfaithful.mono (Nat.le_refl now) hsecond
        · exact (hcontinues.faithful (hreplies other hother)).mono hfirst (Nat.le_refl _)
      · apply hkeepsRest Q
        · intro next hnext
          rw [hcontinues.path]
          exact hoperations next (List.mem_cons_of_mem _ hnext)
        · exact hkeeps Q (hoperations operation List.mem_cons_self) hQ

/-- **A snapshot is of its opening image.** Once a snapshot is open, let its owner
ask for digests, visits and suspensions in any order while others do to the file
whatever they like. The image is the one that was collected at the opening, on
the path, with a second pass of the same digest after it. Every digest told is
that of the image, and every success is told of a file that was found at the
path, unchanged and with the digest of the image, during the session. Visitors
are called on sources of the image only, so what holds of their contexts because
of those sources holds at the end. -/
theorem snapshot_session {path : CString} {opened start : ℕ} {operations : List (Operation σ)}
    (hopen : (unityInputSnapshotOpen lzma fuel path).run history now = .ok snapshot opened)
    (hsession : (session fuel operations snapshot context).run history start =
      .ok (replies, after, last) later) :
    ∃ view t checked, view.path = snapshot.path ∧ Captured history now t opened view checked ∧
      OfImage lzma view.data after ∧
      (∀ reply ∈ replies, reply.Faithful history snapshot view.data start later) ∧
      ∀ Q : σ → Prop,
        (∀ operation ∈ operations, KeepsOn lzma view.data snapshot.path Q operation) →
        Q context → Q last := by
  obtain ⟨view, t, checked, -, hpath, hcaptured, hof⟩ := snapshotOpen_ok hopen
  obtain ⟨hcontinues, hreplies, hkeeps⟩ := session_ok hof hsession
  exact ⟨view, t, checked, hpath, hcaptured, hcontinues.ofImage, hreplies, hkeeps⟩

/-- What a session comes to on a file that nobody touches. -/
def quietSession (lzma : Text → Text → ℕ → Option Text) (path : CString) (image : Text) :
    List (Operation σ) → σ → List Reply × σ
  | [], context => ([], context)
  | .digest :: operations, context =>
      let (replies, last) := quietSession lzma path image operations context
      (⟨.ok, some (Sha256.digest image)⟩ :: replies, last)
  | .visit visitor :: operations, context =>
      let result := visitOutcome lzma path visitor context image
      let (replies, last) := quietSession lzma path image operations result.context
      (⟨result.status, none⟩ :: replies, last)
  | .suspend :: operations, context =>
      let (replies, last) := quietSession lzma path image operations context
      (⟨.ok, none⟩ :: replies, last)

theorem gives_session {current path : CString} {start : ℕ} {descriptor : Inode} {file : File}
    (h : Quiet history start (absolutePath current path) descriptor file)
    (hpath : path.bytes ≠ []) (hfuel : file.bytes.length < fuel)
    (hopen : classifyImage lzma h.view (quietAnchor descriptor file)
      (absolutePath current path) = .ok snapshot) (operations : List (Operation σ)) :
    ∀ held : Option CommonFileView, (∀ view ∈ held, view = h.view) → ∀ context : σ,
      ∃ after : Option CommonFileView,
        Gives (session fuel operations { snapshot with view := held } context) history start
          (.ok ((quietSession lzma (absolutePath current path) file.bytes operations context).1,
            { snapshot with view := after },
            (quietSession lzma (absolutePath current path) file.bytes operations context).2)) := by
  obtain ⟨-, hanchor, hat⟩ := classifyImage_quiet hopen
  induction operations with
  | nil => exact fun held _ context => ⟨held, gives_pure _⟩
  | cons operation operations ih =>
      intro held hheld context
      cases operation with
      | digest =>
          obtain ⟨after, hrest⟩ := ih held hheld context
          have hdigest : Gives (unityInputSnapshotDigest fuel { snapshot with view := held })
              history start _ := gives_unityInputSnapshotDigest h hfuel hanchor hat
          have hperform : Gives (perform fuel .digest { snapshot with view := held } context)
              history start _ := hdigest.bind (gives_pure _)
          exact ⟨after, hperform.bind (hrest.bind (gives_pure _))⟩
      | visit visitor =>
          obtain ⟨mid, hmid, hvisit⟩ := gives_unityInputSnapshotVisit h hpath hfuel hheld hopen
          obtain ⟨after, hrest⟩ := ih mid hmid _
          have hperform : Gives
              (perform fuel (.visit visitor) { snapshot with view := held } context)
              history start _ := hvisit.bind (gives_pure _)
          exact ⟨after, hperform.bind (hrest.bind (gives_pure _))⟩
      | suspend =>
          obtain ⟨after, hrest⟩ := ih none (fun _ hview => nomatch hview) context
          have hsuspend : Gives
              (unityInputSnapshotSuspendMapping fuel { snapshot with view := held })
              history start _ := gives_unityInputSnapshotSuspendMapping h hfuel hheld hanchor hat
          have hperform : Gives (perform fuel .suspend { snapshot with view := held } context)
              history start _ := hsuspend.bind (gives_pure _)
          exact ⟨after, hperform.bind (hrest.bind (gives_pure _))⟩

def sampleOperations : List (Operation (List Text)) :=
  [.digest, .visit recorder, .suspend, .visit recorder]

theorem quietSession_sampleImage :
    quietSession (fun _ _ _ => none) (absolutePath (cstr "/home") (cstr "/a")) sampleImage
      sampleOperations [] =
      ([⟨.ok, some (Sha256.digest sampleImage)⟩, ⟨.ok, none⟩, ⟨.ok, none⟩, ⟨.ok, none⟩],
        [sampleImage, sampleImage]) := by
  simp only [sampleOperations, quietSession, visitOutcome, probeFront_sampleImage]
  rfl

/-- The second visit is of the file that was opened again. -/
theorem snapshot_session_sample :
    ∃ (snapshot after : UnityInputSnapshot) (view : CommonFileView) (opened later : ℕ)
      (replies : List Reply),
      (session 49 sampleOperations snapshot []).run (fun _ => sampleInstant sampleImage) opened =
        .ok (replies, after, [sampleImage, sampleImage]) later ∧
      replies =
        [⟨.ok, some (Sha256.digest sampleImage)⟩, ⟨.ok, none⟩, ⟨.ok, none⟩, ⟨.ok, none⟩] ∧
      OfImage (fun _ _ _ => none) view.data after ∧
      (∀ reply ∈ replies, reply.Faithful (fun _ => sampleInstant sampleImage) snapshot view.data
        opened later) ∧
      ∀ Q : List Text → Prop,
        (∀ operation ∈ sampleOperations,
          KeepsOn (fun _ _ _ => none) view.data snapshot.path Q operation) →
        Q [] → Q [sampleImage, sampleImage] := by
  have hfuel : (sampleFile sampleImage).bytes.length < 49 := by decide
  obtain ⟨snapshot, hclassify⟩ : ∃ snapshot, classifyImage (fun _ _ _ => none)
      quiet_sampleImage.view (quietAnchor ⟨1, 7⟩ (sampleFile sampleImage))
      (absolutePath (cstr "/home") (cstr "/a")) = .ok snapshot := by
    rw [classifyImage, show quiet_sampleImage.view.data = sampleImage from rfl,
      probeFront_sampleImage]
    exact ⟨_, rfl⟩
  have hopens : Gives (unityInputSnapshotOpen (fun _ _ _ => none) 49 (cstr "/a")) _ 0 _ :=
    gives_unityInputSnapshotOpen quiet_sampleImage (by decide) (fun _ _ => rfl) hfuel
  rw [hclassify] at hopens
  obtain ⟨hheld, -, -⟩ := classifyImage_quiet hclassify
  obtain ⟨after, hsession⟩ := gives_session quiet_sampleImage (by decide) hfuel hclassify
    sampleOperations snapshot.view hheld []
  rw [show (sampleFile sampleImage).bytes = sampleImage from rfl, quietSession_sampleImage]
    at hsession
  obtain ⟨opened, hopen⟩ := hopens 0 (Nat.le_refl 0)
  obtain ⟨later, hrun⟩ := hsession opened (Nat.zero_le opened)
  obtain ⟨view, t, checked, -, -, hof, hfaithful, hkeeps⟩ := snapshot_session hopen hrun
  exact ⟨snapshot, _, view, opened, later, _, hrun, rfl, hof, hfaithful, hkeeps⟩

end Session

end UnityCommon.Input
