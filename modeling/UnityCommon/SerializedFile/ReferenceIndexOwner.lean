import UnityCommon.SerializedFile.ReferenceIndex
import UnityCommon.Lib.Needs

/-!
# Constructing a reference index

What an index is made of, apart from any limit, and what its construction is
short of otherwise.
-/

namespace UnityCommon.Metadata

/-- Work and the bytes of identities. -/
@[ext] structure IndexCost where
  work : ℕ := 0
  identity : ℕ := 0

instance : Cost IndexCost where
  zero := {}
  add d e := { work := d.work + e.work, identity := d.identity + e.identity }
  width _ := 0
  width_zero := Cost.zero_width
  width_add _ _ := rfl

namespace IndexCost

@[simp] theorem zero_work : (0 : IndexCost).work = 0 := rfl
@[simp] theorem zero_identity : (0 : IndexCost).identity = 0 := rfl

variable (d e : IndexCost)

@[simp] theorem add_work : (d + e).work = d.work + e.work := rfl
@[simp] theorem add_identity : (d + e).identity = d.identity + e.identity := rfl

end IndexCost

inductive IndexResource where
  | work
  | identity
  | types
  | retained
  | storage
deriving DecidableEq, Repr

namespace ReferenceIndexLimits

variable (limits : ReferenceIndexLimits)

def Short : IndexResource → IndexBuild → IndexCost → Prop
  | .work, build, d => limits.maxWork < build.workUsed + d.work
  | .identity, build, d => limits.maxIdentitySourceBytes < build.identitySourceBytes + d.identity
  | _, _, _ => False

structure Sound (build : IndexBuild) : Prop where
  work : build.workUsed ≤ limits.maxWork
  identity : build.identitySourceBytes ≤ limits.maxIdentitySourceBytes

def meter : Meter IndexBuild IndexCost IndexResource where
  position _ := 0
  advance build d :=
    { build with
      workUsed := build.workUsed + d.work
      identitySourceBytes := build.identitySourceBytes + d.identity }
  Sound := limits.Sound
  Short := limits.Short
  advance_zero _ := rfl
  advance_add build d e := by simp [Nat.add_assoc]
  position_advance _ _ := rfl
  short_add k build d e := by
    cases k <;> simp [Short] <;> omega
  not_short_zero build hs k := by
    cases k <;> simp [Short, hs.work, hs.identity]
  sound_advance build d _ hd := ⟨Nat.le_of_not_lt (hd .work), Nat.le_of_not_lt (hd .identity)⟩

end ReferenceIndexLimits

/-- The resource that a rejection reports. -/
def ReferenceIndexReject.Cites (reject : ReferenceIndexReject) : IndexResource → Prop
  | .work => reject.status = .limitExceeded ∧ reject.limit = .work
  | .identity => reject.status = .limitExceeded ∧ reject.limit = .identitySourceBytes
  | .types => reject.status = .limitExceeded ∧ reject.limit = .referenceTypes
  | .retained => reject.status = .limitExceeded ∧ reject.limit = .retainedBytes
  | .storage => reject.status = .allocationFailed

/-! ## The rows of an index -/

section Format

variable (knownSize : ℕ)

def nameFormat (row : TailReferenceTypeRow) (name : PrefixSpan) (next : ℕ) :
    Decoder IndexCost ℕ := do
  let stop := row.source.offset + row.source.size
  Decoder.require (name.size ≠ 0 ∧ sourceIsBacked knownSize name ∧ name.offset = next ∧
      row.source.offset ≤ name.offset ∧ name.offset ≤ stop ∧ name.size ≤ stop - name.offset)
  Decoder.spend { identity := name.size }
  return name.offset + name.size

def identityFormat (rows : PrefixSpan) (row : Option TailReferenceTypeRow) (ordinal : ℕ) :
    Decoder IndexCost Unit :=
  match row with
  | none => fun _ => none
  | some row =>
      match row.tree, row.names with
      | some tree, some names => do
          Decoder.require (rowIsBacked knownSize rows row tree ordinal)
          let next := tree.stringsSource.offset + tree.stringsSource.size
          let next ← nameFormat knownSize row names.classNameSource next
          let next ← nameFormat knownSize row names.namespaceSource next
          let next ← nameFormat knownSize row names.assemblyNameSource next
          Decoder.require (next = row.source.offset + row.source.size)
      | _, _ => fun _ => none

def ordinalFormat (tail : SerializedFileMetadataTail) (ordinal : ℕ) : Decoder IndexCost Unit := do
  Decoder.spend { work := 1 }
  identityFormat knownSize tail.view.referenceTypeRowsSource (tail.referenceType ordinal) ordinal

def copyFormat (tail : SerializedFileMetadataTail) (ordinal : ℕ) :
    Decoder IndexCost TailReferenceTypeRow := do
  let row ← Decoder.ofOption (tail.referenceType ordinal)
  Decoder.spend { work := 1 }
  return row

end Format

section Follows

variable {limits : ReferenceIndexLimits} {build : IndexBuild} {knownSize : ℕ}

theorem follows_chargeBuild (hs : limits.Sound build) (amount : ℕ) (ordinal : Option ℕ)
    (offset : ℕ) :
    limits.meter.Follows ReferenceIndexReject.Cites build (chargeBuild limits amount ordinal offset)
      (Decoder.spend { work := amount }) := by
  refine Meter.follows_look (Meter.follows_draw (k := IndexResource.work)
    (d := ({ work := amount } : IndexCost)) hs ?_ ?_ ?_)
  · show _ ↔ ¬ limits.maxWork < build.workUsed + amount
    have := hs.work
    omega
  · intro k hk
    cases k with
    | work => exact absurd rfl hk
    | identity => exact Nat.not_lt.mpr hs.identity
    | _ => exact id
  · exact ⟨rfl, rfl⟩

theorem follows_addIdentity (hs : limits.Sound build) (ordinal : ℕ)
    (component : IdentityComponent) (name : PrefixSpan) :
    limits.meter.Follows ReferenceIndexReject.Cites build
      (addIdentity limits ordinal component name) (Decoder.spend { identity := name.size }) := by
  refine Meter.follows_look (Meter.follows_draw (k := IndexResource.identity)
    (d := ({ identity := name.size } : IndexCost)) hs ?_ ?_ ?_)
  · show _ ↔ ¬ limits.maxIdentitySourceBytes < build.identitySourceBytes + name.size
    have := hs.identity
    omega
  · intro k hk
    cases k with
    | identity => exact absurd rfl hk
    | work => exact Nat.not_lt.mpr hs.work
    | _ => exact id
  · exact ⟨rfl, rfl⟩

theorem follows_preflightName (hs : limits.Sound build) (row : TailReferenceTypeRow) (ordinal : ℕ)
    (component : IdentityComponent) (name : PrefixSpan) (next : ℕ) :
    limits.meter.Follows ReferenceIndexReject.Cites build
      (preflightName limits knownSize row ordinal component name next)
      (nameFormat knownSize row name next) := by
  refine Meter.Follows.bind (Meter.follows_require hs _ _) hs fun _ d₁ _ _ hs => ?_
  refine (follows_addIdentity hs ordinal component name).bind hs fun _ d₂ _ _ hs => ?_
  exact Meter.follows_pure hs _

theorem follows_preflightRow (hs : limits.Sound build) (rows : PrefixSpan)
    (row : Option TailReferenceTypeRow) (ordinal : ℕ) :
    limits.meter.Follows ReferenceIndexReject.Cites build
      (preflightRow limits knownSize rows row ordinal)
      (identityFormat knownSize rows row ordinal) := by
  cases row with
  | none => exact Meter.follows_fail hs _
  | some row =>
      unfold preflightRow identityFormat
      dsimp only
      cases row.tree with
      | none => exact Meter.follows_fail hs _
      | some tree =>
          cases row.names with
          | none => exact Meter.follows_fail hs _
          | some names =>
              refine Meter.Follows.bind (Meter.follows_require hs _ _) hs fun _ d₁ _ _ hs => ?_
              refine (follows_preflightName hs row ordinal .className _ _).bind hs
                fun next d₂ _ _ hs => ?_
              refine (follows_preflightName hs row ordinal .namespaceName _ _).bind hs
                fun next d₃ _ _ hs => ?_
              refine (follows_preflightName hs row ordinal .assemblyName _ _).bind hs
                fun next d₄ _ _ hs => ?_
              exact Meter.follows_require hs _ _

theorem follows_preflightOrdinal (hs : limits.Sound build) (tail : SerializedFileMetadataTail)
    (ordinal : ℕ) :
    limits.meter.Follows ReferenceIndexReject.Cites build
      (preflightOrdinal limits knownSize tail ordinal) (ordinalFormat knownSize tail ordinal) := by
  refine (follows_chargeBuild hs 1 _ _).bind hs fun _ d _ _ hs => ?_
  exact follows_preflightRow hs _ _ ordinal

theorem follows_copyOrdinal (hs : limits.Sound build) (tail : SerializedFileMetadataTail)
    (ordinal : ℕ) :
    limits.meter.Follows ReferenceIndexReject.Cites build (copyOrdinal limits tail ordinal)
      (copyFormat tail ordinal) := by
  refine Meter.Follows.bind (Meter.follows_ofOption hs _ _) hs fun row d₁ _ _ hs => ?_
  refine (follows_chargeBuild hs 1 _ _).bind hs fun _ d₂ _ _ hs => ?_
  exact Meter.follows_pure hs row

end Follows

/-! ## What the rows cost -/

section Cost

variable {knownSize at_ : ℕ} {d : IndexCost}

theorem nameFormat_work {row : TailReferenceTypeRow} {name : PrefixSpan} {next stop : ℕ}
    (h : nameFormat knownSize row name next at_ = some (stop, d)) : d.work = 0 := by
  obtain ⟨_, d₁, _, hname, h₁, rfl⟩ := Decoder.bind_eq_some.mp h
  obtain ⟨-, rfl⟩ := Decoder.require_eq_some.mp hname
  obtain ⟨_, d₂, d₃, hspend, hp, rfl⟩ := Decoder.bind_eq_some.mp h₁
  obtain rfl := Decoder.spend_eq_some.mp hspend
  obtain ⟨-, rfl⟩ := Decoder.pure_eq_some.mp hp
  rfl

theorem identityFormat_work {rows : PrefixSpan} {row : Option TailReferenceTypeRow} {ordinal : ℕ}
    {u : Unit} (h : identityFormat knownSize rows row ordinal at_ = some (u, d)) :
    row.isSome = true ∧ d.work = 0 := by
  cases row with
  | none => cases h
  | some row =>
      refine ⟨rfl, ?_⟩
      unfold identityFormat at h
      dsimp only at h
      cases htree : row.tree with
      | none =>
          rw [htree] at h
          cases h
      | some tree =>
          cases hnames : row.names with
          | none =>
              rw [htree, hnames] at h
              cases h
          | some names =>
              rw [htree, hnames] at h
              obtain ⟨_, d₁, _, hbacked, h₁, rfl⟩ := Decoder.bind_eq_some.mp h
              obtain ⟨-, rfl⟩ := Decoder.require_eq_some.mp hbacked
              obtain ⟨_, d₂, _, hclass, h₂, rfl⟩ := Decoder.bind_eq_some.mp h₁
              obtain ⟨_, d₃, _, hspace, h₃, rfl⟩ := Decoder.bind_eq_some.mp h₂
              obtain ⟨_, d₄, d₅, hassembly, hstop, rfl⟩ := Decoder.bind_eq_some.mp h₃
              obtain ⟨-, rfl⟩ := Decoder.require_eq_some.mp hstop
              simp [nameFormat_work hclass, nameFormat_work hspace, nameFormat_work hassembly]

theorem ordinalFormat_work {tail : SerializedFileMetadataTail} {ordinal : ℕ} {u : Unit}
    (h : ordinalFormat knownSize tail ordinal at_ = some (u, d)) :
    (tail.referenceType ordinal).isSome = true ∧ d.work = 1 := by
  obtain ⟨_, d₁, d₂, hspend, hrow, rfl⟩ := Decoder.bind_eq_some.mp h
  obtain rfl := Decoder.spend_eq_some.mp hspend
  obtain ⟨hsome, hwork⟩ := identityFormat_work hrow
  exact ⟨hsome, by simp [hwork]⟩

theorem copyFormat_eq_some {tail : SerializedFileMetadataTail} {ordinal : ℕ}
    {row : TailReferenceTypeRow} :
    copyFormat tail ordinal at_ = some (row, d) ↔
      tail.referenceType ordinal = some row ∧ d = { work := 1 } := by
  constructor
  · intro h
    obtain ⟨_, d₁, _, hfound, h₁, rfl⟩ := Decoder.bind_eq_some.mp h
    obtain ⟨hrow, rfl⟩ := Decoder.ofOption_eq_some.mp hfound
    obtain ⟨_, d₂, d₃, hspend, hp, rfl⟩ := Decoder.bind_eq_some.mp h₁
    obtain rfl := Decoder.spend_eq_some.mp hspend
    obtain ⟨rfl, rfl⟩ := Decoder.pure_eq_some.mp hp
    exact ⟨hrow, by ext <;> rfl⟩
  · rintro ⟨hrow, rfl⟩
    refine Decoder.bind_eq_some.mpr ⟨row, 0, _, Decoder.ofOption_eq_some.mpr ⟨hrow, rfl⟩,
      Decoder.bind_eq_some.mpr ⟨(), _, 0, Decoder.spend_eq_some.mpr rfl,
        Decoder.pure_eq_some.mpr ⟨rfl, rfl⟩, rfl⟩, ?_⟩
    ext <;> rfl

/-- The first loop costs a unit of work a row. -/
theorem ordinals_work {tail : SerializedFileMetadataTail} {start count : ℕ} {us : List Unit}
    (h : Decoder.collect (ordinalFormat knownSize tail) start count at_ = some (us, d)) :
    d.work = count := by
  have hsum := Decoder.collect_sum (f := IndexCost.work) (g := fun _ => 1) rfl (fun _ _ => rfl)
    (fun i p u e he => (ordinalFormat_work he).2) h
  rw [hsum, ← Decoder.collect_length h]
  simp

/-- **Rows that were seen are copied**, for a unit of work each. -/
theorem rows_copied {tail : SerializedFileMetadataTail} {start count : ℕ} {us : List Unit}
    (h : Decoder.collect (ordinalFormat knownSize tail) start count at_ = some (us, d)) :
    ∃ rows, Decoder.collect (copyFormat tail) start count at_ =
      some (rows, ({ work := count } : IndexCost)) := by
  induction count generalizing start at_ us d with
  | zero => exact ⟨[], rfl⟩
  | succ count ih =>
      obtain ⟨u, d₁, _, hrow, h₁, rfl⟩ := Decoder.bind_eq_some.mp h
      obtain ⟨us', d₂, _, hrest, -, -⟩ := Decoder.bind_eq_some.mp h₁
      obtain ⟨row, hsome⟩ := Option.isSome_iff_exists.mp (ordinalFormat_work hrow).1
      have hwidth : at_ + Cost.width d₁ = at_ := rfl
      rw [hwidth] at hrest
      obtain ⟨rows, hrows⟩ := ih hrest
      refine ⟨row :: rows, Decoder.bind_eq_some.mpr ⟨row, _, _,
        copyFormat_eq_some.mpr ⟨hsome, rfl⟩, Decoder.bind_eq_some.mpr ⟨rows, _, 0, hrows,
          Decoder.pure_eq_some.mpr ⟨rfl, rfl⟩, rfl⟩, ?_⟩⟩
      ext
      · simp [Nat.add_comm]
      · rfl

end Cost

/-! ## The construction -/

/-- What an index is made of. -/
structure IndexPlan where
  rows : List TailReferenceTypeRow
  identityBytes : ℕ
  retainedBytes : ℕ

namespace IndexPlan

variable (plan : IndexPlan) (tail : SerializedFileMetadataTail)

/-- The work of the construction, of a tail with so many reference types. -/
def workUsed (count : ℕ) : ℕ := plan.retainedBytes + 2 * count + 3

def index : SerializedFileReferenceIndex where
  view := {
    engineVersion := tail.view.directory.engineVersion
    prefixView := tail.view.directory.prefixView
    tailSource := tail.view.source
    referenceTypeCountSource := tail.view.referenceTypeCountSource
    referenceTypeRowsSource := tail.view.referenceTypeRowsSource
    referenceTypeCount := tail.view.referenceTypeCount
    identitySourceBytes := plan.identityBytes
    retainedBytes := plan.retainedBytes }
  rows := plan.rows
  knownSize := tail.view.source.offset + tail.view.source.size

def finalBuild : IndexBuild where
  workUsed := plan.workUsed tail.view.referenceTypeCount
  referenceTypeCount := tail.view.referenceTypeCount
  identitySourceBytes := plan.identityBytes
  requiredRetainedBytes := plan.retainedBytes
  peakRetainedBytes := plan.retainedBytes

/-- What the limits do not cover. -/
def Short (limits : ReferenceIndexLimits) (granted : Bool) : IndexResource → Prop
  | .work => limits.maxWork < plan.workUsed tail.view.referenceTypeCount
  | .identity => limits.maxIdentitySourceBytes < plan.identityBytes
  | .types => limits.maxReferenceTypes < tail.view.referenceTypeCount
  | .retained => limits.maxRetainedBytes < plan.retainedBytes
  | .storage => granted = false

end IndexPlan

/-- The tails that have an index. -/
def IndexDomain (tail : TailView) : Prop :=
  (tail.source.offset ≤ sizeMax ∧ tail.source.size ≤ sizeMax - tail.source.offset) ∧
    tail.directory.engineVersion = .engine2021_3_35f1 ∧
    (tail.referenceTypeCount = 0 ∨ tail.directory.prefixView.typeTreeEnabledRaw ≠ 0)

instance (tail : TailView) : Decidable (IndexDomain tail) := by
  unfold IndexDomain
  infer_instance

/-- **The index of a tail**, before any limit. -/
def indexPlan (tail : SerializedFileMetadataTail) : Option IndexPlan := do
  let knownSize := tail.view.source.offset + tail.view.source.size
  -- the builds between the steps
  let count := tail.view.referenceTypeCount
  if IndexDomain tail.view then
    let (_, cost) ← Decoder.collect (ordinalFormat knownSize tail) 0 count 0
    let (rows, _) ← Decoder.collect (copyFormat tail) 0 count 0
    let retainedBytes ← referenceIndexLayout count
    return { rows, identityBytes := cost.identity, retainedBytes }
  else none

theorem indexPlan_eq_some {tail : SerializedFileMetadataTail} {plan : IndexPlan} :
    indexPlan tail = some plan ↔
      IndexDomain tail.view ∧
      (∃ us, Decoder.collect
          (ordinalFormat (tail.view.source.offset + tail.view.source.size) tail) 0
          tail.view.referenceTypeCount 0 =
        some (us, { work := tail.view.referenceTypeCount, identity := plan.identityBytes })) ∧
      Decoder.collect (copyFormat tail) 0 tail.view.referenceTypeCount 0 =
        some (plan.rows, { work := tail.view.referenceTypeCount }) ∧
      referenceIndexLayout tail.view.referenceTypeCount = some plan.retainedBytes := by
  unfold indexPlan
  dsimp only
  constructor
  · intro h
    split_ifs at h with hdomain
    simp only [Option.bind_eq_bind, Option.bind_eq_some_iff, Prod.exists] at h
    obtain ⟨us, cost, hseen, rows, copied, hcopied, retained, hlayout, hplan⟩ := h
    cases hplan
    obtain ⟨rows', hcopied'⟩ := rows_copied hseen
    rw [hcopied] at hcopied'
    cases hcopied'
    refine ⟨hdomain, ⟨us, ?_⟩, hcopied, hlayout⟩
    rw [hseen, ← ordinals_work hseen]
  · rintro ⟨hdomain, ⟨us, hseen⟩, hcopied, hlayout⟩
    rw [if_pos hdomain]
    simp only [Option.bind_eq_bind, Option.bind_eq_some_iff, Prod.exists]
    exact ⟨us, _, hseen, plan.rows, _, hcopied, plan.retainedBytes, hlayout, rfl⟩

section

variable {limits : ReferenceIndexLimits} {build : IndexBuild} {tail : SerializedFileMetadataTail}
  {plan : IndexPlan}

theorem needs_chargeBuild (limits : ReferenceIndexLimits) (answers : ℕ → Bool) (n : ℕ)
    (hs : limits.Sound build) (amount : ℕ) (ordinal : Option ℕ) (offset : ℕ) :
    (chargeBuild limits amount ordinal offset).Needs limits.Sound ReferenceIndexReject.Cites answers
      build n (fun k => limits.Short k build { work := amount }) ()
      (limits.meter.advance build { work := amount }) n :=
  (follows_chargeBuild hs amount ordinal offset).needs (Decoder.spend_eq_some.mpr rfl) answers n

theorem needs_selectDomain (limits : ReferenceIndexLimits) (answers : ℕ → Bool) (n : ℕ)
    (hs : limits.Sound build) (hdomain : IndexDomain tail.view) :
    (selectDomain limits tail.view).Needs limits.Sound ReferenceIndexReject.Cites answers build n
      (fun k => k = .types ∧ limits.maxReferenceTypes < tail.view.referenceTypeCount) ()
      { build with referenceTypeCount := tail.view.referenceTypeCount } n := by
  obtain ⟨-, hengine, htree⟩ := hdomain
  have hlimit : ∀ b : IndexBuild, limits.Sound b →
      (Call.require (tail.view.referenceTypeCount ≤ limits.maxReferenceTypes)
        (rejectIndexOwner .limitExceeded .referenceTypes)).Needs limits.Sound
        ReferenceIndexReject.Cites answers b n
        (fun k => k = .types ∧ limits.maxReferenceTypes < tail.view.referenceTypeCount) () b n := by
    intro b hb
    refine Call.needs_require hb ?_ fun hover =>
      ⟨.types, ⟨rfl, rfl⟩, rfl, Nat.lt_of_not_le hover⟩
    simp
  have hchain : (selectDomain limits tail.view).Needs limits.Sound ReferenceIndexReject.Cites
      answers build n (fun k => False ∨ False ∨
        (k = .types ∧ limits.maxReferenceTypes < tail.view.referenceTypeCount) ∨ False) ()
      { build with referenceTypeCount := tail.view.referenceTypeCount } n :=
    (Call.needs_require_true hengine _).bind fun _ => (Call.needs_modify _).bind fun _ =>
      (hlimit { build with referenceTypeCount := tail.view.referenceTypeCount }
        ⟨hs.work, hs.identity⟩).bind fun _ => Call.needs_require_true htree _
  refine hchain.short_congr fun k => ?_
  simp

/-- The first loop. -/
theorem needs_preflight (limits : ReferenceIndexLimits) (answers : ℕ → Bool) (n : ℕ)
    (hs : limits.Sound build) {knownSize count : ℕ} {us : List Unit} {d : IndexCost}
    (hseen : Decoder.collect (ordinalFormat knownSize tail) 0 count 0 = some (us, d)) :
    (Call.collect (preflightOrdinal limits knownSize tail) 0 count).Needs limits.Sound
      ReferenceIndexReject.Cites answers build n (fun k => limits.Short k build d) us
      (limits.meter.advance build d) n :=
  (Meter.follows_collect (fun i _ hb _ _ => follows_preflightOrdinal hb tail i) hs).needs hseen
    answers n

/-- The second loop. -/
theorem needs_copy (limits : ReferenceIndexLimits) (answers : ℕ → Bool) (n : ℕ)
    (hs : limits.Sound build) {count : ℕ} {rows : List TailReferenceTypeRow} {d : IndexCost}
    (hcopied : Decoder.collect (copyFormat tail) 0 count 0 = some (rows, d)) :
    (Call.collect (copyOrdinal limits tail) 0 count).Needs limits.Sound ReferenceIndexReject.Cites
      answers build n (fun k => limits.Short k build d) rows (limits.meter.advance build d) n :=
  (Meter.follows_collect (fun i _ hb _ _ => follows_copyOrdinal hb tail i) hs).needs hcopied
    answers n

/-- **An index that is there.** -/
theorem needs_createReferenceIndex (limits : ReferenceIndexLimits) (answers : ℕ → Bool) (n : ℕ)
    (hplan : indexPlan tail = some plan) :
    (createReferenceIndex tail limits).Needs limits.Sound ReferenceIndexReject.Cites answers {} n
      (plan.Short tail limits (answers n)) (plan.index tail) (plan.finalBuild tail) (n + 1) := by
  obtain ⟨hdomain, ⟨us, hseen⟩, hcopied, hlayout⟩ := indexPlan_eq_some.mp hplan
  let count := tail.view.referenceTypeCount
  let admitted := limits.meter.advance {} { work := 1 }
  let selected : IndexBuild := { admitted with referenceTypeCount := count }
  let seen := limits.meter.advance selected { work := count, identity := plan.identityBytes }
  let planned : IndexBuild := { limits.meter.advance seen { work := 1 } with
    requiredRetainedBytes := plan.retainedBytes }
  let stored : IndexBuild := { limits.meter.advance planned { work := plan.retainedBytes } with
    peakRetainedBytes := plan.retainedBytes }
  let copied := limits.meter.advance stored { work := count }
  have hfinal : plan.finalBuild tail = limits.meter.advance copied { work := 1 } := by
    ext <;> simp [IndexPlan.finalBuild, IndexPlan.workUsed, copied, stored, planned, seen, selected,
      admitted, count, ReferenceIndexLimits.meter]
    omega
  have hidentity : (limits.meter.advance copied { work := 1 }).identitySourceBytes =
      plan.identityBytes := by
    rw [← hfinal]
    rfl
  have hs₀ : limits.Sound {} := ⟨Nat.zero_le _, Nat.zero_le _⟩
  -- the two steps that are not charges: the cap, and the one allocation
  have hretained : ∀ b : IndexBuild, limits.Sound b →
      (Call.require (plan.retainedBytes ≤ limits.maxRetainedBytes)
        (rejectIndexOwner .limitExceeded .retainedBytes)).Needs limits.Sound
        ReferenceIndexReject.Cites answers b n
        (fun k => k = .retained ∧ limits.maxRetainedBytes < plan.retainedBytes) () b n := by
    intro b hb
    refine Call.needs_require hb ?_ fun hover =>
      ⟨.retained, ⟨rfl, rfl⟩, rfl, Nat.lt_of_not_le hover⟩
    simp
  have hrequest : ∀ b : IndexBuild, limits.Sound b →
      (Call.request (rejectIndexOwner .allocationFailed .none)).Needs limits.Sound
        ReferenceIndexReject.Cites answers b n
        (fun k => k = .storage ∧ answers n = false) () b (n + 1) := by
    intro b hb
    refine Call.needs_request hb ?_ fun hdeny => ⟨.storage, rfl, rfl, hdeny⟩
    simp
  unfold createReferenceIndex
  dsimp only
  rw [hlayout, hfinal]
  refine ((Call.needs_require_true hdomain.1 _).bind fun _ =>
    (needs_chargeBuild limits answers n hs₀ 1 none noOffset).bind fun h₁ =>
    (needs_selectDomain limits answers n ?_ hdomain).bind fun h₂ =>
    (needs_preflight limits answers n ?_ hseen).bind fun h₃ =>
    (needs_chargeBuild limits answers n ?_ 1 none noOffset).bind fun h₄ =>
    (Call.needs_ofOption_some plan.retainedBytes _).bind fun _ =>
    (Call.needs_modify _).bind fun _ => (hretained planned ?_).bind fun _ =>
    (needs_chargeBuild limits answers n ?_ plan.retainedBytes none noOffset).bind fun h₅ =>
    (hrequest (limits.meter.advance planned { work := plan.retainedBytes }) ?_).bind fun _ =>
    (Call.needs_modify fun b : IndexBuild =>
      { b with peakRetainedBytes := plan.retainedBytes }).bind fun _ =>
    (needs_copy limits answers (n + 1) ?_ hcopied).bind fun h₆ =>
    (needs_chargeBuild limits answers (n + 1) ?_ 1 none noOffset).bind fun h₇ =>
    Call.needs_read ?_).short_congr fun k => ?_
  · exact ⟨Nat.le_of_not_lt (h₁ .work), hs₀.identity⟩
  · exact ⟨Nat.le_of_not_lt (h₁ .work), hs₀.identity⟩
  · exact ⟨Nat.le_of_not_lt (h₃ .work), Nat.le_of_not_lt (h₃ .identity)⟩
  · exact ⟨Nat.le_of_not_lt (h₄ .work), Nat.le_of_not_lt (h₄ .identity)⟩
  · exact ⟨Nat.le_of_not_lt (h₄ .work), Nat.le_of_not_lt (h₄ .identity)⟩
  · exact ⟨Nat.le_of_not_lt (h₅ .work), Nat.le_of_not_lt (h₅ .identity)⟩
  · exact ⟨Nat.le_of_not_lt (h₅ .work), Nat.le_of_not_lt (h₅ .identity)⟩
  · exact ⟨Nat.le_of_not_lt (h₆ .work), Nat.le_of_not_lt (h₆ .identity)⟩
  · unfold IndexPlan.index
    rw [← hidentity]
    rfl
  · have hall : plan.Short tail limits (answers n) k ↔
        (k = .work ∧ limits.maxWork < plan.retainedBytes + 2 * count + 3) ∨
        (k = .identity ∧ limits.maxIdentitySourceBytes < plan.identityBytes) ∨
        (k = .types ∧ limits.maxReferenceTypes < count) ∨
        (k = .retained ∧ limits.maxRetainedBytes < plan.retainedBytes) ∨
        (k = .storage ∧ answers n = false) := by
      cases k <;> simp [IndexPlan.Short, IndexPlan.workUsed, count]
    rw [hall]
    cases k <;> simp [ReferenceIndexLimits.Short, ReferenceIndexLimits.meter, planned, seen,
      selected, admitted, count]
    omega

/-- A tail outside the domain of indices is refused. -/
theorem stops_selectDomain (limits : ReferenceIndexLimits) (answers : ℕ → Bool) (n : ℕ)
    (hs : limits.Sound build)
    (hdomain : ¬ (tail.view.directory.engineVersion = .engine2021_3_35f1 ∧
      (tail.view.referenceTypeCount = 0 ∨
        tail.view.directory.prefixView.typeTreeEnabledRaw ≠ 0))) :
    (selectDomain limits tail.view).Stops limits.Sound answers build n := by
  unfold selectDomain
  by_cases hengine : tail.view.directory.engineVersion = .engine2021_3_35f1
  · have hs' : limits.Sound { build with referenceTypeCount := tail.view.referenceTypeCount } :=
      ⟨hs.work, hs.identity⟩
    refine Call.Stops.require_bind hengine (Call.Stops.bind_ok (a := ()) rfl ?_)
    by_cases hcount : tail.view.referenceTypeCount ≤ limits.maxReferenceTypes
    · exact Call.Stops.require_bind hcount
        (Call.stops_require hs' (fun htree => hdomain ⟨hengine, htree⟩) _)
    · exact (Call.stops_require hs' hcount _).bind
  · exact (Call.stops_require hs hengine _).bind

/-- **An index that is not there** is not constructed, whatever the limits. -/
theorem stops_createReferenceIndex (limits : ReferenceIndexLimits) (answers : ℕ → Bool) (n : ℕ)
    (hplan : indexPlan tail = none) :
    (createReferenceIndex tail limits).Stops limits.Sound answers {} n := by
  have hs₀ : limits.Sound {} := ⟨Nat.zero_le _, Nat.zero_le _⟩
  unfold createReferenceIndex
  by_cases hsource : tail.view.source.offset ≤ sizeMax ∧
      tail.view.source.size ≤ sizeMax - tail.view.source.offset
  · refine Call.Stops.require_bind hsource ?_
    refine (needs_chargeBuild limits answers n hs₀ 1 none noOffset).stops_bind fun h₁ => ?_
    have hs₁ : limits.Sound (limits.meter.advance {} { work := 1 }) :=
      ⟨Nat.le_of_not_lt (h₁ .work), hs₀.identity⟩
    by_cases hrest : tail.view.directory.engineVersion = .engine2021_3_35f1 ∧
        (tail.view.referenceTypeCount = 0 ∨
          tail.view.directory.prefixView.typeTreeEnabledRaw ≠ 0)
    · have hdomain : IndexDomain tail.view := ⟨hsource, hrest⟩
      refine (needs_selectDomain limits answers n hs₁ hdomain).stops_bind fun _ => ?_
      have hs₂ : limits.Sound { limits.meter.advance {} { work := 1 } with
          referenceTypeCount := tail.view.referenceTypeCount } := ⟨hs₁.work, hs₁.identity⟩
      let knownSize := tail.view.source.offset + tail.view.source.size
      let count := tail.view.referenceTypeCount
      have hloop : limits.meter.Follows ReferenceIndexReject.Cites _
          (Call.collect (preflightOrdinal limits knownSize tail) 0 count)
          (Decoder.collect (ordinalFormat knownSize tail) 0 count) :=
        Meter.follows_collect (fun i b hb _ _ => follows_preflightOrdinal hb tail i) hs₂
      cases hseen : Decoder.collect (ordinalFormat knownSize tail) 0 count 0 with
      | none => exact (hloop.stops hseen answers n).bind
      | some r =>
          obtain ⟨us, d⟩ := r
          refine (hloop.needs hseen answers n).stops_bind fun h₃ => ?_
          have hs₃ := limits.meter.sound_advance _ d hs₂ h₃
          refine (needs_chargeBuild limits answers n hs₃ 1 none noOffset).stops_bind fun h₄ => ?_
          -- everything else holds, so it is the size that does not fit
          have hlayout : referenceIndexLayout tail.view.referenceTypeCount = none := by
            cases hlayout : referenceIndexLayout tail.view.referenceTypeCount with
            | none => rfl
            | some retained =>
                obtain ⟨rows, hrows⟩ := rows_copied hseen
                have hsome : indexPlan tail = some ⟨rows, d.identity, retained⟩ := by
                  have hcost : d = { work := count, identity := d.identity } := by
                    rw [← ordinals_work hseen]
                  exact indexPlan_eq_some.mpr ⟨hdomain, ⟨us, hcost ▸ hseen⟩, hrows, hlayout⟩
                rw [hplan] at hsome
                cases hsome
          rw [hlayout]
          exact ⟨_, _, _, Call.bind_eq_error.mpr (Or.inl rfl),
            limits.meter.sound_advance _ _ hs₃ h₄⟩
    · exact (stops_selectDomain limits answers n hs₁ hrest).bind
  · exact (Call.stops_require hs₀ hsource _).bind

end

/-! ## The result -/

section

variable {tail : SerializedFileMetadataTail} {σ : Type} {answers : ℕ → Bool} {s : σ} {n : ℕ}

theorem referenceIndexCreate_apply (tail : SerializedFileMetadataTail)
    (limits : ReferenceIndexLimits) :
    serializedFileReferenceIndexCreate tail limits answers s n =
      match createReferenceIndex tail limits answers {} n with
      | .ok index build n' =>
          .ok (index, referenceIndexResult (rejectIndexOwner .ok .none) build) s n'
      | .error e build n' => .error (referenceIndexResult e build) s n' := by
  unfold serializedFileReferenceIndexCreate
  rw [Call.bind_apply, Call.andThen, Call.enclosed]
  cases createReferenceIndex tail limits answers {} n <;> rfl

/-- What a construction reports that is short of nothing. -/
def IndexPlan.result (plan : IndexPlan) (tail : SerializedFileMetadataTail) :
    ReferenceIndexResult :=
  referenceIndexResult (rejectIndexOwner .ok .none) (plan.finalBuild tail)

/-- The run of a construction for which there is a plan. -/
theorem referenceIndexCreate_planned (limits : ReferenceIndexLimits) (answers : ℕ → Bool) (s : σ)
    (n : ℕ) {plan : IndexPlan} (hplan : indexPlan tail = some plan) :
    ((∀ k, ¬ plan.Short tail limits (answers n) k) ∧
        serializedFileReferenceIndexCreate tail limits answers s n =
          .ok (plan.index tail, plan.result tail) s (n + 1)) ∨
      ∃ e build made k,
        serializedFileReferenceIndexCreate tail limits answers s n =
          .error (referenceIndexResult e build) s made ∧
        build.workUsed ≤ limits.maxWork ∧ e.Cites k ∧ plan.Short tail limits (answers n) k := by
  rw [referenceIndexCreate_apply]
  rcases needs_createReferenceIndex limits answers n hplan with
    ⟨hroom, hok⟩ | ⟨e, build, made, k, herr, hsound, hcites, hshort⟩
  · rw [hok]
    exact Or.inl ⟨hroom, rfl⟩
  · rw [herr]
    exact Or.inr ⟨e, build, made, k, rfl, hsound.work, hcites, hshort⟩

/-- Without a plan the construction fails. -/
theorem referenceIndexCreate_unplanned (limits : ReferenceIndexLimits) (answers : ℕ → Bool)
    (s : σ) (n : ℕ) (hplan : indexPlan tail = none) :
    ∃ e build made,
      serializedFileReferenceIndexCreate tail limits answers s n =
        .error (referenceIndexResult e build) s made ∧
      build.workUsed ≤ limits.maxWork := by
  rw [referenceIndexCreate_apply]
  obtain ⟨e, build, made, herr, hsound⟩ := stops_createReferenceIndex limits answers n hplan
  rw [herr]
  exact ⟨e, build, made, rfl, hsound.work⟩

/-- What an index was made of. -/
theorem referenceIndexCreate_ok {limits : ReferenceIndexLimits}
    {index : SerializedFileReferenceIndex} {ran : ReferenceIndexResult} {s' : σ} {n' : ℕ}
    (h : serializedFileReferenceIndexCreate tail limits answers s n = .ok (index, ran) s' n') :
    ∃ plan, indexPlan tail = some plan ∧ (∀ k, ¬ plan.Short tail limits (answers n) k) ∧
      index = plan.index tail ∧ ran = plan.result tail ∧ s' = s ∧ n' = n + 1 := by
  cases hplan : indexPlan tail with
  | none =>
      obtain ⟨e, build, made, herr, -⟩ := referenceIndexCreate_unplanned limits answers s n hplan
      rw [h] at herr
      cases herr
  | some plan =>
      rcases referenceIndexCreate_planned limits answers s n hplan with
        ⟨hroom, hok⟩ | ⟨e, build, made, k, herr, -⟩
      · rw [h] at hok
        cases hok
        exact ⟨plan, rfl, hroom, rfl, rfl, rfl, rfl⟩
      · rw [h] at herr
        cases herr

end

end UnityCommon.Metadata
