import UnityCommon.Input.Probe

/-!
# Visiting the members of an archive

`bundle_member_classify` of `io/bundle_archive.c` and `visit_bundle` of
`io/unity_input.c`. A visitor answers whether to go on; what it keeps between
calls is its context.
-/

namespace UnityCommon.Bundle

def unityfsNodeDirectory : UInt32 := 1
def unityfsNodeDeleted : UInt32 := 2
def unityfsNodeSerializedFile : UInt32 := 4
def unityfsNodeKnownFlags : UInt32 := 7

inductive BundleMemberKind where
  | invalid
  | serializedFile
  | resource
  | directory
  | deleted
deriving DecidableEq, Repr

def bundleNameHasSuffix (value : CString) (suffix : String) : Bool :=
  (ascii suffix).isSuffixOf value.bytes

def bundleMemberClassify (member : BundleDirectoryInfo) : BundleMemberKind :=
  if member.flags &&& ~~~unityfsNodeKnownFlags ≠ 0 then .invalid
  else if hasFlag member.flags unityfsNodeSerializedFile then
    if member.flags &&& (unityfsNodeDirectory ||| unityfsNodeDeleted) = 0 then .serializedFile
    else .invalid
  else if hasFlag member.flags unityfsNodeDirectory then
    if member.flags &&& unityfsNodeDeleted = 0 then .directory else .invalid
  else if hasFlag member.flags unityfsNodeDeleted then .deleted
  else if bundleNameHasSuffix member.name ".resS" || bundleNameHasSuffix member.name ".resource" ||
      bundleNameHasSuffix member.name ".resources" then .resource
  else .invalid

end UnityCommon.Bundle

namespace UnityCommon.Input

open UnityCommon.Bundle

structure UnitySerializedSource where
  outerPath : CString
  memberName : Option CString
  memberIndex : ℕ
  isBundleMember : Bool
  data : Text
deriving DecidableEq, Repr

structure UnityInputVisitStats where
  serializedFiles : ℕ
  resourceMembers : ℕ
  directoryMembers : ℕ
  deletedMembers : ℕ
deriving DecidableEq, Repr

def UnityInputVisitStats.zero : UnityInputVisitStats := ⟨0, 0, 0, 0⟩

/-- `UnitySerializedSourceVisitor`, with the context it is given. -/
abbrev Visitor (σ : Type) := UnitySerializedSource → σ → Bool × σ

/-- The probe of bytes that are all at hand. -/
def probeFront (data : Text) : UnityInputStatus × Option UnityInputProbe :=
  unityInputProbeBytes (data.take unityInputPrefixSize) data.length

variable {σ : Type}

/-- What one member comes to: counted, delivered, or the end. -/
inductive MemberStep where
  | count (add : UnityInputVisitStats → UnityInputVisitStats)
  | deliver (source : UnitySerializedSource)
  | stop (status : UnityInputStatus) (add : UnityInputVisitStats → UnityInputVisitStats)

/-- Directories and deleted members are counted before their size is looked at. -/
def countEmpty (size : ℕ) (add : UnityInputVisitStats → UnityInputVisitStats) : MemberStep :=
  if size ≠ 0 then .stop .memberInvalid add else .count add

def deliverSerialized (path : CString) (index : ℕ) (name : CString) (data : Text) : MemberStep :=
  let (status, probe) := probeFront data
  if status ≠ .ok ∨ probe.map UnityInputProbe.kind ≠ some .serializedFileV22 then
    .stop (if status = .unsupported then .unsupported else .memberInvalid) id
  else .deliver ⟨path, some name, index, true, data⟩

/-- The body of the loop up to the call of the visitor. -/
def memberStep (path : CString) (archive : BundleArchive) (index : ℕ)
    (member : BundleDirectoryInfo) : MemberStep :=
  match bundleGetMemberView archive index with
  | none => .stop .memberInvalid id
  | some view =>
      match bundleMemberClassify member with
      | .resource =>
          .count fun stats => { stats with resourceMembers := stats.resourceMembers + 1 }
      | .directory => countEmpty view.size fun stats =>
          { stats with directoryMembers := stats.directoryMembers + 1 }
      | .deleted => countEmpty view.size fun stats =>
          { stats with deletedMembers := stats.deletedMembers + 1 }
      | .serializedFile =>
          if view.data = none ∨ view.size = 0 then .stop .memberInvalid id
          else deliverSerialized path index member.name (view.bytes archive.payload)
      | .invalid => .stop .memberInvalid id

def visitMembers (path : CString) (archive : BundleArchive) (visitor : Visitor σ) :
    List BundleDirectoryInfo → ℕ → UnityInputVisitStats → σ →
      UnityInputStatus × UnityInputVisitStats × σ
  | [], _, stats, context => (.ok, stats, context)
  | member :: members, index, stats, context =>
      match memberStep path archive index member with
      | .count add => visitMembers path archive visitor members (index + 1) (add stats) context
      | .stop status add => (status, add stats, context)
      | .deliver source =>
          let (goOn, context) := visitor source context
          if goOn then
            visitMembers path archive visitor members (index + 1)
              { stats with serializedFiles := stats.serializedFiles + 1 } context
          else (.visitorFailed, stats, context)

def visitBundle (path : CString) (archive : BundleArchive) (visitor : Visitor σ) (context : σ) :
    UnityInputStatus × UnityInputVisitStats × σ :=
  visitMembers path archive visitor archive.directories 0 .zero context

/-! ## What a visitor is called on -/

/-- The visitor is called on the sources in order and goes on after each. -/
inductive Accepts (visitor : Visitor σ) : List UnitySerializedSource → σ → σ → Prop where
  | nil (context : σ) : Accepts visitor [] context context
  | cons {source : UnitySerializedSource} {sources : List UnitySerializedSource}
      {context next last : σ} (hgo : visitor source context = (true, next))
      (hrest : Accepts visitor sources next last) :
      Accepts visitor (source :: sources) context last

/-- The visitor is called on the sources, and the last call may be a refusal. -/
inductive Calls (visitor : Visitor σ) : List UnitySerializedSource → σ → σ → Prop where
  | nil (context : σ) : Calls visitor [] context context
  | refuse {source : UnitySerializedSource} {context last : σ}
      (hgo : visitor source context = (false, last)) : Calls visitor [source] context last
  | cons {source : UnitySerializedSource} {sources : List UnitySerializedSource}
      {context next last : σ} (hgo : visitor source context = (true, next))
      (hrest : Calls visitor sources next last) : Calls visitor (source :: sources) context last

variable {visitor : Visitor σ} {sources : List UnitySerializedSource} {context last : σ}

theorem Accepts.calls (h : Accepts visitor sources context last) :
    Calls visitor sources context last := by
  induction h with
  | nil context => exact .nil context
  | cons hgo hrest ih => exact .cons hgo ih

/-- A visitor's invariant outlasts the calls. -/
theorem Calls.invariant {P : UnitySerializedSource → Prop} {Q : σ → Prop}
    (h : Calls visitor sources context last) (hsources : ∀ source ∈ sources, P source)
    (hvisitor : ∀ source, P source → ∀ context, Q context → Q (visitor source context).2)
    (hcontext : Q context) : Q last := by
  induction h with
  | nil context => exact hcontext
  | refuse hgo =>
      have hlast := hvisitor _ (hsources _ (List.mem_singleton_self _)) _ hcontext
      rwa [hgo] at hlast
  | cons hgo hrest ih =>
      have hnext := hvisitor _ (hsources _ List.mem_cons_self) _ hcontext
      rw [hgo] at hnext
      exact ih (fun source hsource => hsources source (List.mem_cons_of_mem _ hsource)) hnext

/-! ## The members of an archive that opened -/

/-- A member that a visit passes: serialized files are there and look like it,
directories and deleted members are empty. -/
def Admissible (archive : BundleArchive) (member : BundleDirectoryInfo) : Prop :=
  match bundleMemberClassify member with
  | .resource => True
  | .directory | .deleted => member.decompressedSize = 0
  | .serializedFile => member.decompressedSize ≠ 0 ∧
      probeFront (memberBytes archive member) =
        (.ok, some ⟨.serializedFileV22, 22, (memberBytes archive member).length⟩)
  | .invalid => False

def serializedSource (path : CString) (archive : BundleArchive) (index : ℕ)
    (member : BundleDirectoryInfo) : UnitySerializedSource :=
  ⟨path, some member.name, index, true, memberBytes archive member⟩

/-- The serialized members in directory order. -/
def memberSources (path : CString) (archive : BundleArchive) :
    List BundleDirectoryInfo → ℕ → List UnitySerializedSource
  | [], _ => []
  | member :: members, index =>
      if bundleMemberClassify member = .serializedFile then
        serializedSource path archive index member :: memberSources path archive members (index + 1)
      else memberSources path archive members (index + 1)

def bundleSources (path : CString) (archive : BundleArchive) : List UnitySerializedSource :=
  memberSources path archive archive.directories 0

/-- How many members are of the kind. -/
def countKind (members : List BundleDirectoryInfo) (kind : BundleMemberKind) : ℕ :=
  members.countP fun member => bundleMemberClassify member = kind

/-- The statistics of a visit that passes all members. -/
def UnityInputVisitStats.addAll (stats : UnityInputVisitStats)
    (members : List BundleDirectoryInfo) : UnityInputVisitStats where
  serializedFiles := stats.serializedFiles + countKind members .serializedFile
  resourceMembers := stats.resourceMembers + countKind members .resource
  directoryMembers := stats.directoryMembers + countKind members .directory
  deletedMembers := stats.deletedMembers + countKind members .deleted

/-- A probe that is accepted is that of a version 22 file. -/
theorem probeFront_v22 {data : Text} {probe : UnityInputProbe}
    (h : probeFront data = (.ok, some probe)) (hkind : probe.kind = .serializedFileV22) :
    probe = ⟨.serializedFileV22, 22, data.length⟩ := by
  rw [probeFront, unityInputProbeBytes_take (by decide)] at h
  obtain ⟨-, rfl⟩ | ⟨-, -, -, rfl⟩ := probe_ok_iff.mp h
  · cases hkind
  · rfl

section Steps

variable {path : CString} {archive : BundleArchive} {index : ℕ} {member : BundleDirectoryInfo}
  {view : MemberView}

/-- What an admissible member comes to. -/
def passed (path : CString) (archive : BundleArchive) (index : ℕ)
    (member : BundleDirectoryInfo) : MemberStep :=
  if bundleMemberClassify member = .serializedFile then
    .deliver (serializedSource path archive index member)
  else .count (·.addAll [member])

theorem size_eq_zero_iff (hshows : Shows archive member view) :
    view.size = 0 ↔ member.decompressedSize = 0 := by
  rw [hshows.size, ← UInt64.toNat_inj]
  rfl

theorem addAll_singleton {kind : BundleMemberKind} (hkind : bundleMemberClassify member = kind) :
    (fun stats : UnityInputVisitStats => stats.addAll [member]) = fun stats =>
      { serializedFiles := stats.serializedFiles + if kind = .serializedFile then 1 else 0
        resourceMembers := stats.resourceMembers + if kind = .resource then 1 else 0
        directoryMembers := stats.directoryMembers + if kind = .directory then 1 else 0
        deletedMembers := stats.deletedMembers + if kind = .deleted then 1 else 0 } := by
  subst hkind
  funext stats
  simp only [UnityInputVisitStats.addAll, countKind, List.countP_cons, List.countP_nil, Nat.zero_add,
    decide_eq_true_eq]

/-- A serialized member is delivered exactly when it is admissible. -/
theorem deliverSerialized_eq (path : CString) (index : ℕ) (data : Text) (name : CString) :
    (probeFront data = (.ok, some ⟨.serializedFileV22, 22, data.length⟩) ∧
      deliverSerialized path index name data = .deliver ⟨path, some name, index, true, data⟩) ∨
    (probeFront data ≠ (.ok, some ⟨.serializedFileV22, 22, data.length⟩) ∧
      ∃ status, deliverSerialized path index name data = .stop status id ∧ status ≠ .ok) := by
  cases hprobe : probeFront data with
  | mk status probe =>
      by_cases hbad : status ≠ .ok ∨ probe.map UnityInputProbe.kind ≠ some .serializedFileV22
      · refine Or.inr ⟨?_, _, by rw [deliverSerialized, hprobe]; exact if_pos hbad, ?_⟩
        · intro heq
          cases heq
          rcases hbad with hbad | hbad
          · exact hbad rfl
          · exact hbad rfl
        · split <;> exact UnityInputStatus.noConfusion
      · obtain ⟨hstatus, hkind⟩ := not_or.mp hbad
        obtain rfl := not_not.mp hstatus
        obtain ⟨probe, rfl, hv22⟩ := Option.map_eq_some_iff.mp (not_not.mp hkind)
        refine Or.inl ⟨by rw [probeFront_v22 hprobe hv22], ?_⟩
        rw [deliverSerialized, hprobe]
        exact if_neg hbad

theorem countEmpty_eq (size : ℕ) (add : UnityInputVisitStats → UnityInputVisitStats) :
    (size = 0 ∧ countEmpty size add = .count add) ∨
      (size ≠ 0 ∧ countEmpty size add = .stop .memberInvalid add) := by
  by_cases hzero : size = 0
  · exact Or.inl ⟨hzero, if_neg (not_not.mpr hzero)⟩
  · exact Or.inr ⟨hzero, if_pos hzero⟩

/-- **One member**: an admissible one is delivered or counted, any other ends the
visit. -/
theorem memberStep_eq (hview : bundleGetMemberView archive index = some view)
    (hshows : Shows archive member view) :
    (Admissible archive member ∧ memberStep path archive index member =
      passed path archive index member) ∨
    (¬ Admissible archive member ∧ ∃ status add,
      memberStep path archive index member = .stop status add ∧ status ≠ .ok) := by
  have hsize := size_eq_zero_iff hshows
  rw [memberStep, hview, Admissible, passed]
  cases hkind : bundleMemberClassify member with
  | invalid => exact Or.inr ⟨not_false, _, _, rfl, UnityInputStatus.noConfusion⟩
  | resource =>
      refine Or.inl ⟨trivial, ?_⟩
      rw [if_neg (by decide), addAll_singleton hkind]
      rfl
  | directory =>
      dsimp only
      rw [if_neg (by decide), addAll_singleton hkind]
      obtain ⟨hzero, hcount⟩ | ⟨hzero, hcount⟩ := countEmpty_eq view.size
        fun stats => { stats with directoryMembers := stats.directoryMembers + 1 }
      · exact Or.inl ⟨hsize.mp hzero, hcount⟩
      · exact Or.inr ⟨fun h => hzero (hsize.mpr h), _, _, hcount, UnityInputStatus.noConfusion⟩
  | deleted =>
      dsimp only
      rw [if_neg (by decide), addAll_singleton hkind]
      obtain ⟨hzero, hcount⟩ | ⟨hzero, hcount⟩ := countEmpty_eq view.size
        fun stats => { stats with deletedMembers := stats.deletedMembers + 1 }
      · exact Or.inl ⟨hsize.mp hzero, hcount⟩
      · exact Or.inr ⟨fun h => hzero (hsize.mpr h), _, _, hcount, UnityInputStatus.noConfusion⟩
  | serializedFile =>
      dsimp only
      rw [if_pos rfl, hshows.bytes]
      by_cases hempty : view.data = none ∨ view.size = 0
      · rw [if_pos hempty]
        refine Or.inr ⟨fun h => ?_, _, _, rfl, UnityInputStatus.noConfusion⟩
        rcases hempty with hnone | hzero
        · -- a view without data has no bytes
          have hbytes := hshows.bytes
          rw [MemberView.bytes, hnone] at hbytes
          have hlength := hshows.length
          rw [← hbytes] at hlength
          exact h.1 (hsize.mp hlength.symm)
        · exact h.1 (hsize.mp hzero)
      · rw [if_neg hempty]
        have hsome : member.decompressedSize ≠ 0 := fun h => hempty (Or.inr (hsize.mpr h))
        obtain ⟨hprobe, hdeliver⟩ | ⟨hprobe, status, hstop, hstatus⟩ :=
          deliverSerialized_eq path index (memberBytes archive member) member.name
        · exact Or.inl ⟨⟨hsome, hprobe⟩, hdeliver⟩
        · exact Or.inr ⟨fun h => hprobe h.2, status, id, hstop, hstatus⟩

end Steps

/-! ## The visit -/

section Visit

variable {path : CString} {archive : BundleArchive} {visitor : Visitor σ}

/-- Every member from the index on has its view. -/
def Viewed (archive : BundleArchive) (members : List BundleDirectoryInfo) (index : ℕ) : Prop :=
  ∀ j member, members[j]? = some member →
    ∃ view, bundleGetMemberView archive (index + j) = some view ∧ Shows archive member view

theorem Viewed.head {member : BundleDirectoryInfo} {members : List BundleDirectoryInfo} {index : ℕ}
    (h : Viewed archive (member :: members) index) :
    ∃ view, bundleGetMemberView archive index = some view ∧ Shows archive member view :=
  h 0 member rfl

theorem Viewed.tail {member : BundleDirectoryInfo} {members : List BundleDirectoryInfo} {index : ℕ}
    (h : Viewed archive (member :: members) index) : Viewed archive members (index + 1) := by
  intro j next hj
  obtain ⟨view, hview, hshows⟩ := h (j + 1) next hj
  exact ⟨view, by rw [← hview]; congr 1; omega, hshows⟩

theorem viewed_of_bundleOpen {lzma : Text → Text → ℕ → Option Text} {file : Text}
    (h : bundleOpen lzma file = some archive) : Viewed archive archive.directories 0 := by
  obtain ⟨layout, hlayout⟩ := bundleOpen_decodes h
  intro j member hj
  rw [Nat.zero_add]
  exact memberView_shows hj (hlayout.extents member (List.mem_of_getElem? hj))

theorem addAll_cons (stats : UnityInputVisitStats) (member : BundleDirectoryInfo)
    (members : List BundleDirectoryInfo) :
    stats.addAll (member :: members) = (stats.addAll [member]).addAll members := by
  simp only [UnityInputVisitStats.addAll, countKind, List.countP_cons, List.countP_nil,
    UnityInputVisitStats.mk.injEq]
  refine ⟨?_, ?_, ?_, ?_⟩ <;> omega

/-- A serialized member is counted as one. -/
theorem addAll_serialized {member : BundleDirectoryInfo} (stats : UnityInputVisitStats)
    (h : bundleMemberClassify member = .serializedFile) :
    stats.addAll [member] = { stats with serializedFiles := stats.serializedFiles + 1 } :=
  congrFun (addAll_singleton h) stats

/-- **A visit calls the visitor on the serialized members in order**, and on no
more than those. -/
theorem visitMembers_calls :
    ∀ {members : List BundleDirectoryInfo} {index : ℕ} {stats stats' : UnityInputVisitStats}
      {context last : σ} {status : UnityInputStatus}, Viewed archive members index →
      visitMembers path archive visitor members index stats context = (status, stats', last) →
      ∃ delivered rest, memberSources path archive members index = delivered ++ rest ∧
        Calls visitor delivered context last := by
  intro members
  induction members with
  | nil =>
      intro index stats stats' context last status _ h
      cases h
      exact ⟨[], [], rfl, .nil context⟩
  | cons member members ih =>
      intro index stats stats' context last status hviewed h
      obtain ⟨view, hview, hshows⟩ := hviewed.head
      rw [visitMembers] at h
      rw [memberSources]
      obtain ⟨-, hstep⟩ | ⟨-, stop, add, hstep, -⟩ := memberStep_eq hview hshows
      · rw [hstep, passed] at h
        split_ifs at h ⊢ with hkind
        · dsimp only at h
          cases hcall : visitor (serializedSource path archive index member) context with
          | mk goOn next =>
              rw [hcall] at h
              cases goOn with
              | true =>
                  obtain ⟨delivered, rest, hsources, hcalls⟩ := ih hviewed.tail h
                  exact ⟨_ :: delivered, rest, by rw [hsources]; rfl, .cons hcall hcalls⟩
              | false =>
                  cases h
                  exact ⟨[_], _, rfl, .refuse hcall⟩
        · exact ih hviewed.tail h
      · rw [hstep] at h
        cases h
        exact ⟨[], _, rfl, .nil context⟩

/-- **A visit succeeds** exactly when every member is admissible and the visitor
goes on after every serialized one; then it has counted them all. -/
theorem visitMembers_ok_iff :
    ∀ {members : List BundleDirectoryInfo} {index : ℕ} {stats stats' : UnityInputVisitStats}
      {context last : σ}, Viewed archive members index →
      (visitMembers path archive visitor members index stats context = (.ok, stats', last) ↔
        (∀ member ∈ members, Admissible archive member) ∧
          Accepts visitor (memberSources path archive members index) context last ∧
          stats' = stats.addAll members) := by
  intro members
  induction members with
  | nil =>
      intro index stats stats' context last _
      constructor
      · intro h
        cases h
        exact ⟨fun _ hmem => absurd hmem List.not_mem_nil, .nil context, rfl⟩
      · rintro ⟨-, haccepts, rfl⟩
        cases haccepts
        rfl
  | cons member members ih =>
      intro index stats stats' context last hviewed
      obtain ⟨view, hview, hshows⟩ := hviewed.head
      rw [visitMembers, memberSources, List.forall_mem_cons, addAll_cons]
      obtain ⟨hadmissible, hstep⟩ | ⟨hnot, stop, add, hstep, hstop⟩ := memberStep_eq hview hshows
      · rw [hstep, passed]
        split_ifs with hkind
        · dsimp only
          rw [addAll_serialized stats hkind]
          cases hcall : visitor (serializedSource path archive index member) context with
          | mk goOn next =>
              cases goOn with
              | true =>
                  rw [if_pos rfl, ih hviewed.tail]
                  constructor
                  · rintro ⟨hrest, haccepts, hstats⟩
                    exact ⟨⟨hadmissible, hrest⟩, .cons hcall haccepts, hstats⟩
                  · rintro ⟨⟨-, hrest⟩, haccepts, hstats⟩
                    cases haccepts with
                    | cons hgo haccepts =>
                        rw [hcall] at hgo
                        cases hgo
                        exact ⟨hrest, haccepts, hstats⟩
              | false =>
                  rw [if_neg Bool.false_ne_true]
                  constructor
                  · intro h
                    cases h
                  · rintro ⟨-, haccepts, -⟩
                    cases haccepts with
                    | cons hgo _ =>
                        rw [hcall] at hgo
                        cases hgo
        · dsimp only
          rw [ih hviewed.tail]
          constructor
          · rintro ⟨hrest, haccepts, hstats⟩
            exact ⟨⟨hadmissible, hrest⟩, haccepts, hstats⟩
          · rintro ⟨⟨-, hrest⟩, haccepts, hstats⟩
            exact ⟨hrest, haccepts, hstats⟩
      · rw [hstep]
        constructor
        · intro h
          cases h
          exact absurd rfl hstop
        · rintro ⟨⟨hadmissible, -⟩, -⟩
          exact absurd hadmissible hnot

theorem length_memberSources (path : CString) (archive : BundleArchive) :
    ∀ (members : List BundleDirectoryInfo) (index : ℕ),
      (memberSources path archive members index).length = countKind members .serializedFile
  | [], _ => rfl
  | member :: members, index => by
      have ih := length_memberSources path archive members (index + 1)
      rw [memberSources, countKind, List.countP_cons]
      by_cases hkind : bundleMemberClassify member = .serializedFile
      · rw [if_pos hkind, if_pos (decide_eq_true hkind), List.length_cons, ih, countKind]
      · rw [if_neg hkind, if_neg (by simpa using hkind), ih, countKind, Nat.add_zero]

/-- Admissible members are of one of the four kinds. -/
theorem length_of_admissible {members : List BundleDirectoryInfo}
    (h : ∀ member ∈ members, Admissible archive member) :
    countKind members .serializedFile + countKind members .resource +
      countKind members .directory + countKind members .deleted = members.length := by
  induction members with
  | nil => rfl
  | cons member members ih =>
      have hrest := ih fun next hnext => h next (List.mem_cons_of_mem _ hnext)
      have hmember := h member List.mem_cons_self
      rw [Admissible] at hmember
      simp only [countKind, List.countP_cons, decide_eq_true_eq, List.length_cons] at hrest ⊢
      cases hkind : bundleMemberClassify member with
      | invalid =>
          rw [hkind] at hmember
          exact hmember.elim
      | serializedFile => simp only [reduceCtorEq, if_true, if_false]; omega
      | resource => simp only [reduceCtorEq, if_true, if_false]; omega
      | directory => simp only [reduceCtorEq, if_true, if_false]; omega
      | deleted => simp only [reduceCtorEq, if_true, if_false]; omega

/-- **Visiting an archive.** In an archive that opened, the visitor is called on
serialized members only, in directory order, each with its name, its ordinal and
exactly its bytes, and on nothing after its first refusal. The visit succeeds if
and only if every member is admissible and the visitor refuses none; its
statistics then count each kind of member, and account for all of them. -/
theorem visitBundle_exact (lzma : Text → Text → ℕ → Option Text) (file : Text)
    (hopen : bundleOpen lzma file = some archive) (path : CString) (visitor : Visitor σ)
    (context : σ) :
    (∃ delivered rest, bundleSources path archive = delivered ++ rest ∧
      Calls visitor delivered context (visitBundle path archive visitor context).2.2) ∧
    (∀ stats last, visitBundle path archive visitor context = (.ok, stats, last) ↔
      (∀ member ∈ archive.directories, Admissible archive member) ∧
        Accepts visitor (bundleSources path archive) context last ∧
        stats = UnityInputVisitStats.zero.addAll archive.directories) ∧
    ((visitBundle path archive visitor context).1 = .ok →
      let stats := (visitBundle path archive visitor context).2.1
      stats.serializedFiles = (bundleSources path archive).length ∧
        stats.serializedFiles + stats.resourceMembers + stats.directoryMembers +
          stats.deletedMembers = archive.directories.length) := by
  have hviewed := viewed_of_bundleOpen hopen
  refine ⟨visitMembers_calls hviewed rfl, fun stats last => visitMembers_ok_iff hviewed, ?_⟩
  intro hok
  have hvisit : visitBundle path archive visitor context =
      (.ok, (visitBundle path archive visitor context).2.1,
        (visitBundle path archive visitor context).2.2) := Prod.ext hok rfl
  obtain ⟨hadmissible, -, hstats⟩ := (visitMembers_ok_iff hviewed).mp hvisit
  rw [hstats]
  dsimp only [UnityInputVisitStats.addAll, UnityInputVisitStats.zero]
  simp only [Nat.zero_add]
  exact ⟨(length_memberSources path archive _ 0).symm, length_of_admissible hadmissible⟩

/-- A visitor that keeps what it is given. -/
def recorder : Visitor (List Text) := fun source seen => (true, seen ++ [source.data])

/-- Stored blocks: a serialized file and an empty resource. -/
def twoMembers : BundleArchive where
  signature := cstr "UnityFS"
  version := supportedArchiveVersion
  generationVersion := supportedGeneration
  engineVersion := supportedEngineVersion
  totalFileSize := 208
  compressedInfoSize := 83
  decompressedInfoSize := 83
  flags := blocksAndDirectoryInfoCombined ||| blockInfoNeedsPadding
  blocks := [⟨48, 48, 0⟩]
  directories := [⟨0, 48, 4, cstr "a"⟩, ⟨48, 0, 0, cstr "a.resS"⟩]
  payload := sampleImage

def twoMembersFile : Text :=
  encodeHeader twoMembers.toArchiveHeader ++ List.replicate 14 0 ++
    encodeBlocksInfo (List.replicate 16 0) twoMembers.blocks twoMembers.directories ++
    List.replicate 13 0 ++ sampleImage

theorem visitBundle_exact_sample :
    visitBundle (cstr "/b") twoMembers recorder [] = (.ok, ⟨1, 1, 0, 0⟩, [sampleImage]) ∧
      (∀ member ∈ twoMembers.directories, Admissible twoMembers member) ∧
      Accepts recorder (bundleSources (cstr "/b") twoMembers) [] [sampleImage] := by
  have hvisit : visitBundle (cstr "/b") twoMembers recorder [] =
      (.ok, ⟨1, 1, 0, 0⟩, [sampleImage]) := by decide +kernel
  have hopen : bundleOpen (fun _ _ _ => none) twoMembersFile = some twoMembers := by
    decide +kernel
  obtain ⟨-, hok, -⟩ := visitBundle_exact (fun _ _ _ => none) twoMembersFile hopen (cstr "/b")
    recorder []
  obtain ⟨hadmissible, haccepts, -⟩ := (hok _ _).mp hvisit
  exact ⟨hvisit, hadmissible, haccepts⟩

end Visit

end UnityCommon.Input
