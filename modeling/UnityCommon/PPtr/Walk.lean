import UnityCommon.PPtr.PathShape
import UnityCommon.PPtr.Resolver

/-!
# The ancestor walk

`resolve_loose` climbs from the source's directory with `parent_path`. One step
drops the last part of the directory, so the walk is finite, with one
exception: an absolute directory whose first part starts with `:` looks like a
drive to `parent_path`, which then never climbs above its first three bytes.
-/

namespace UnityCommon.PPtr

open LexicalPath

/-! ## Parents -/

theorem lastSlash_append {front last : Text} (h : slash ∉ last) :
    lastSlash (front ++ slash :: last) = some front.length := by
  have hfind : (last.reverse ++ slash :: front.reverse).findIdx? (· == slash) =
      some last.length := by
    rw [List.findIdx?_append, List.findIdx?_eq_none_iff.mpr]
    · simp [List.findIdx?_cons]
    · intro b hb
      simp only [beq_eq_false_iff_ne, ne_eq]
      rintro rfl
      exact h (by simpa using hb)
  have hrev : (front ++ slash :: last).reverse = last.reverse ++ slash :: front.reverse := by
    simp
  rw [lastSlash, hrev, hfind, Option.map_some, List.length_append, List.length_cons]
  congr 1
  omega

theorem lastSlash_eq_none {text : Text} (h : slash ∉ text) : lastSlash text = none := by
  rw [lastSlash, List.findIdx?_eq_none_iff.mpr, Option.map_none]
  intro b hb
  simp only [beq_eq_false_iff_ne, ne_eq]
  rintro rfl
  exact h (by simpa using hb)

/-- Whether a directory looks like a drive depends on its first part only. -/
theorem Shape.driveLooking_cons {p : NormalizedPath} {c : Text} {cs : List Text}
    (h : Shape p (c :: cs)) :
    driveLooking p = true ↔
      p.absolute = true ∧ c.head? = some colon ∧ 2 ≤ c.length := by
  obtain ⟨hne, -, -⟩ := h.part_ok c (by simp)
  obtain ⟨b, bs, rfl⟩ := List.exists_cons_of_ne_nil hne
  have htext := h.text_of_ne_nil (by simp)
  unfold driveLooking
  cases ha : p.absolute with
  | false => simp
  | true =>
      rw [ha] at htext
      cases cs with
      | nil =>
          rw [htext]
          simp [slashText]
          tauto
      | cons d ds =>
          have hlast : (b :: bs).getLast? ≠ some colon := h.glued _ (by simp)
          obtain ⟨hd, -, -⟩ := h.part_ok d (by simp)
          have hdpos := List.length_pos_iff.mpr hd
          rw [htext]
          simp only [slashText, if_true, List.intercalate_cons_cons, Bool.true_and,
            Bool.and_eq_true, decide_eq_true_eq, beq_iff_eq, true_and, List.head?_cons,
            List.cons_append, List.getElem?_cons_succ, List.length_cons,
            List.length_append]
          constructor
          · rintro ⟨-, hb⟩
            refine ⟨hb, ?_⟩
            cases bs with
            | nil => exact absurd hb (by simpa using hlast)
            | cons _ _ => simp
          · rintro ⟨hb, -⟩
            exact ⟨by omega, hb⟩

theorem Shape.driveLooking_nil {p : NormalizedPath} (h : Shape p []) :
    driveLooking p = false := by
  unfold driveLooking
  rw [h.text_eq]
  cases p.absolute <;> rfl

/-- The parent of a root is the root. -/
theorem parentPath_nil {p : NormalizedPath} (h : Shape p []) : parentPath p = some p := by
  obtain ⟨text, absolute⟩ := p
  have ht : text = normalText absolute [] := h.text_eq
  subst ht
  cases absolute <;> rfl

/-- **A step up drops the last part**, unless only a drive is left. -/
theorem parentPath_concat {p : NormalizedPath} {init : List Text} {last : Text}
    (h : Shape p (init ++ [last])) (hdrive : driveLooking p = true → init ≠ []) :
    parentPath p = some (pathOf p.absolute init) := by
  obtain ⟨hlne, hlslash, -⟩ := h.part_ok last (by simp)
  have hlpos := List.length_pos_iff.mpr hlne
  have htext := h.text_of_ne_nil (by simp)
  rcases List.eq_nil_or_concat init with rfl | ⟨front, top, rfl⟩
  · -- a single part: its parent is the root
    have hd : driveLooking p = false := by simpa using fun hd => hdrive hd rfl
    rw [List.nil_append, slashText_singleton] at htext
    cases ha : p.absolute with
    | false =>
        rw [ha] at htext
        have ht : p.text = last := by simpa [slashText] using htext
        rw [parentPath, rootLength, hd, ha, ht, lastSlash_eq_none hlslash]
        simp only [Bool.false_eq_true, if_false]
        rw [if_neg (by omega)]
        rfl
    | true =>
        rw [ha] at htext
        have ht : p.text = [] ++ slash :: last := by simpa [slashText] using htext
        rw [parentPath, rootLength, hd, ha, ht, lastSlash_append hlslash]
        simp [hlne, pathOf, normalText, slashText]
  · rw [List.concat_eq_append] at *
    -- more than one part: the last slash stands in front of the last of them
    have ht : p.text = slashText p.absolute (front ++ [top]) ++ slash :: last := by
      rw [htext, slashText_concat _ (by simp)]
    -- the root is no longer than what is kept, drive or not
    have hroot : rootLength p ≤ (slashText p.absolute (front ++ [top])).length := by
      unfold rootLength
      split
      · rename_i hd
        obtain ⟨c, cs, hc⟩ := List.exists_cons_of_ne_nil
          (show front ++ [top] ≠ [] by simp)
        rw [hc] at h ⊢
        obtain ⟨ha, -, hlen⟩ := h.driveLooking_cons.mp hd
        rw [ha]
        cases cs with
        | nil => simpa [slashText] using hlen
        | cons d ds =>
            simp only [slashText, if_true, List.intercalate_cons_cons, List.length_append,
              List.length_singleton]
            omega
      · split
        · rename_i ha
          simp [ha, slashText]
        · exact Nat.zero_le _
    unfold parentPath
    rw [if_neg, ht, lastSlash_append hlslash]
    · simp [max_eq_left hroot, pathOf, normalText]
    · rw [ht, List.length_append, List.length_cons]
      omega

/-- **A drive stays a drive.** The parent of an absolute path with one part
that starts with `:` has one part again. -/
theorem parentPath_drive {p : NormalizedPath} {c : Text} (h : Shape p [c])
    (hd : driveLooking p = true) :
    ∃ q, parentPath p = some q ∧ q.absolute = true ∧ Shape q [c.take 2] := by
  obtain ⟨ha, hhead, hlen⟩ := h.driveLooking_cons.mp hd
  obtain ⟨b, d, rest, rfl⟩ : ∃ b d rest, c = b :: d :: rest := by
    match c, hlen with
    | b :: d :: rest, _ => exact ⟨b, d, rest, rfl⟩
  have hb : b = colon := by simpa using hhead
  subst hb
  obtain ⟨-, hslash, -⟩ := h.part_ok (colon :: d :: rest) (by simp)
  have ht : p.text = slash :: colon :: d :: rest := by
    rw [h.text_of_ne_nil (by simp), ha]
    simp [slashText]
  -- the two bytes of the drive are a part that normalization keeps
  have hq : Shape ⟨slash :: colon :: [d], true⟩ [[colon, d]] := by
    refine ⟨rfl, ?_, ?_, by simp⟩
    · intro p hp
      rw [List.mem_singleton.mp hp]
      refine ⟨by simp, ?_, by simp [dotText, ascii]⟩
      simp only [List.mem_cons, not_or] at hslash ⊢
      exact ⟨hslash.1, hslash.2.1, by simp⟩
    · refine (reduced_nil dotDotText true).append_name fun he => ?_
      have hh : some colon = some 0x2e := congrArg List.head? he
      exact absurd hh (by decide)
  cases rest with
  | nil =>
      have hp : p = ⟨[slash, colon, d], true⟩ := by
        obtain ⟨text, absolute⟩ := p
        simp only at ht ha
        rw [ht, ha]
      refine ⟨p, ?_, ha, ?_⟩
      · have hself : normalizePath p.text = some p := by
          refine h.normalizePath_text ?_ ?_
          · rw [ht]
            simp [maxLocatorBytes]
          · rw [ht]
            simp
        rw [parentPath, rootLength, hd, if_pos (by simp [ht]), hself]
      · rw [hp]
        exact hq
  | cons e rest =>
      refine ⟨⟨slash :: colon :: [d], true⟩, ?_, rfl, hq⟩
      have hlast : lastSlash p.text = some 0 := by
        rw [ht]
        exact @lastSlash_append [] _ hslash
      rw [parentPath, rootLength, hd, hlast, ha]
      simp [ht]

/-! ## One round -/

theorem looseAscend_again_iff {call : LooseCall} {root dir next : NormalizedPath} :
    looseAscend call root dir = .again next ↔
      normalizedEqual dir root = false ∧ parentPath dir = some next ∧
        pathIsWithin next root = true := by
  unfold looseAscend
  cases normalizedEqual dir root with
  | true => simp
  | false =>
      cases parentPath dir with
      | none => simp
      | some parent =>
          by_cases hw : pathIsWithin parent root = true
          · simp only [Bool.false_eq_true, if_false, hw, if_true, Loop.Outcome.again.injEq,
              true_and, Option.some.injEq]
            refine ⟨fun he => ⟨he, he ▸ hw⟩, fun he => he.1⟩
          · simp only [Bool.false_eq_true, if_false, if_neg hw, true_and, Option.some.injEq,
              reduceCtorEq, false_iff, not_and]
            rintro rfl
            exact hw

/-- A directory selects nothing, so the walk leaves it upwards. -/
def SelectsNothing (graph : ResolverGraph) (call : LooseCall)
    (root dir : NormalizedPath) : Prop :=
  ∃ wanted, joinPath dir call.locator = some wanted ∧
    (pathIsWithin wanted root = true →
      matchingIndices graph (looseCandidate call root wanted) = [])

/-- **When a round continues.** Every other round ends the walk. -/
theorem looseRound_again_iff {graph : ResolverGraph} {call : LooseCall}
    {root dir next : NormalizedPath} :
    looseRound graph call root dir = .again next ↔
      pathIsWithin dir root = true ∧ SelectsNothing graph call root dir ∧
        normalizedEqual dir root = false ∧ parentPath dir = some next ∧
        pathIsWithin next root = true := by
  rw [← @looseAscend_again_iff call]
  unfold looseRound SelectsNothing
  cases pathIsWithin dir root with
  | false => simp
  | true =>
      cases joinPath dir call.locator with
      | none => simp
      | some wanted =>
          simp only [Bool.not_true, Bool.false_eq_true, if_false, Option.some.injEq,
            exists_eq_left', true_and]
          by_cases hw : pathIsWithin wanted root = true
          · rw [if_pos hw]
            rcases matchingIndices graph (looseCandidate call root wanted) with
              _ | ⟨target, _ | ⟨_, _⟩⟩ <;> simp [hw]
          · simp [hw]

theorem normalizedEqual_iff {p q : NormalizedPath} : normalizedEqual p q = true ↔ p = q := by
  cases p; cases q
  simp [normalizedEqual, and_comm]

theorem parentPath_shape {p q : NormalizedPath} {parts : List Text} (hp : Shape p parts)
    (hq : parentPath p = some q) : ∃ qp, Shape q qp := by
  rcases List.eq_nil_or_concat parts with rfl | ⟨init, last, rfl⟩
  · rw [parentPath_nil hp, Option.some.injEq] at hq
    exact ⟨[], hq ▸ hp⟩
  · rw [List.concat_eq_append] at hp
    by_cases hd : driveLooking p = true → init ≠ []
    · rw [parentPath_concat hp hd, Option.some.injEq] at hq
      exact ⟨init, hq ▸ hp.of_append⟩
    · obtain ⟨hdrive, rfl⟩ : driveLooking p = true ∧ init = [] := by
        rwa [Classical.not_imp, not_not] at hd
      obtain ⟨q', hq', -, hs⟩ := parentPath_drive hp hdrive
      rw [hq', Option.some.injEq] at hq
      exact ⟨_, hq ▸ hs⟩

/-- The walk's root and first directory carry the path invariant. -/
theorem looseStart_shape {source : SourceNode} {locator : Text}
    {root directory : NormalizedPath} (h : looseStart source locator = some (root, directory)) :
    (∃ rp, Shape root rp) ∧ ∃ dp, Shape directory dp := by
  unfold looseStart normalizedNodeScope at h
  split at h
  · cases h
  rename_i sourceRoot sourceOuter hscope
  split at hscope
  swap
  · cases hscope
  split at hscope
  · cases hscope
  rename_i scopeRoot hroot
  split at hscope
  · cases hscope
  rename_i outer houter
  split at hscope
  swap
  · cases hscope
  obtain ⟨rfl, rfl⟩ : scopeRoot = sourceRoot ∧ outer = sourceOuter := by simpa using hscope
  split at h
  swap
  · cases h
  rename_i sourceDirectory normalizedLocator hparent hlocator
  split at h
  · cases h
  obtain ⟨rfl, rfl⟩ : scopeRoot = root ∧ sourceDirectory = directory := by simpa using h
  obtain ⟨op, hop⟩ := normalizePath_shape houter
  exact ⟨normalizePath_shape hroot, parentPath_shape hop hparent⟩

/-! ## The whole walk -/

/-- Every continued round shortens the directory and stays within the root. -/
def WalkShrinks (graph : ResolverGraph) (call : LooseCall)
    (root directory : NormalizedPath) : Prop :=
  ∀ dir next, Loop.Reaches (looseRound graph call root) directory dir →
    looseRound graph call root dir = .again next →
      (textComponents next).length < (textComponents dir).length ∧
        pathIsWithin next root = true

/-- The defect: below the scope root `/` the walk climbs, selecting nothing,
to a first part that looks like a drive. -/
def StuckAtDriveRoot (graph : ResolverGraph) (call : LooseCall)
    (root directory : NormalizedPath) : Prop :=
  root.text = [slash] ∧ driveLooking directory = true ∧
    ∀ parts, parts ≠ [] → parts <+: textComponents directory →
      SelectsNothing graph call root (pathOf true parts)

theorem Shape.within_slash {p root : NormalizedPath} {parts : List Text} (hp : Shape p parts)
    (ha : p.absolute = true) (hroot : Shape root []) (hra : root.absolute = true) :
    pathIsWithin p root = true := by
  refine (pathIsWithin_iff hp hroot).mpr ⟨ha.trans hra.symm, List.nil_prefix, fun _ => ?_⟩
  have hred := hp.reduced
  rw [ha] at hred
  exact hred.head?_ne

theorem Shape.root_slash_iff {root : NormalizedPath} {rp : List Text} (h : Shape root rp) :
    root.text = [slash] ↔ rp = [] ∧ root.absolute = true := by
  constructor
  · intro ht
    have hparts : rp = [] := by
      rw [← h.textComponents_eq, textComponents, ht]
      decide
    subst hparts
    refine ⟨rfl, ?_⟩
    have := h.text_eq
    rw [ht] at this
    cases ha : root.absolute with
    | true => rfl
    | false =>
        rw [ha] at this
        exact absurd this (by decide)
  · rintro ⟨rfl, ha⟩
    rw [h.text_eq, ha]
    rfl

/-- What the walk keeps until it is stuck: it is at a prefix of the first
directory's parts, and every directory below selected nothing. -/
def Climbed (graph : ResolverGraph) (call : LooseCall) (root directory dir : NormalizedPath) :
    Prop :=
  ∃ parts more, Shape dir parts ∧ dir.absolute = directory.absolute ∧
    textComponents directory = parts ++ more ∧
    ∀ deeper, deeper <+: textComponents directory → parts.length < deeper.length →
      SelectsNothing graph call root (pathOf directory.absolute deeper)

/-- **A round that continues, away from the defect.** -/
theorem climbed_step {graph : ResolverGraph} {call : LooseCall}
    {root directory dir next : NormalizedPath} {rp dp : List Text}
    (hroot : Shape root rp) (hdir : Shape directory dp)
    (hfree : ¬ StuckAtDriveRoot graph call root directory)
    (h : Climbed graph call root directory dir)
    (hround : looseRound graph call root dir = .again next) :
    Climbed graph call root directory next ∧
      (textComponents next).length < (textComponents dir).length := by
  obtain ⟨parts, more, hshape, habs, hparts, hdeeper⟩ := h
  obtain ⟨hwithin, hnothing, hne, hparent, -⟩ := looseRound_again_iff.mp hround
  obtain ⟨hra, hpre, -⟩ := (pathIsWithin_iff hshape hroot).mp hwithin
  have hdirne : dir ≠ root := fun he => by
    rw [normalizedEqual_iff.mpr he] at hne
    cases hne
  rcases List.eq_nil_or_concat parts with rfl | ⟨init, last, rfl⟩
  · -- no parts left: the directory is the root, and the round stops
    have hrp : rp = [] := by simpa using hpre
    subst hrp
    exact absurd (hshape.ext hroot hra) hdirne
  rw [List.concat_eq_append] at *
  -- a drive with nothing below it is where the walk would be stuck
  have hdrive : driveLooking dir = true → init ≠ [] := by
    rintro hd rfl
    obtain ⟨ha, hcolon⟩ := hshape.driveLooking_cons.mp hd
    have hdir' : Shape directory (last :: more) := by
      rw [hdir.textComponents_eq] at hparts
      simpa [hparts] using hdir
    refine hfree ⟨?_, ?_, ?_⟩
    · refine hroot.root_slash_iff.mpr ⟨?_, hra ▸ ha⟩
      rcases List.prefix_concat_iff.mp hpre with he | hp
      · exact absurd (hshape.ext (he ▸ hroot) hra) hdirne
      · simpa using hp
    · exact hdir'.driveLooking_cons.mpr ⟨habs ▸ ha, hcolon⟩
    · intro deeper hne hd
      by_cases hlen : 1 < deeper.length
      · rw [← ha, habs]
        exact hdeeper deeper hd (by simpa using hlen)
      · have hone : deeper = [last] := by
          have hpos := List.length_pos_iff.mpr hne
          have hpre' : [last] <+: textComponents directory := ⟨more, by simp [hparts]⟩
          refine (List.prefix_of_prefix_length_le hd hpre' (by simp; omega)).eq_of_length ?_
          simp only [List.length_singleton]
          omega
        rw [List.nil_append] at hshape
        rw [hone, ← ha, ← hshape.eq_pathOf]
        exact hnothing
  rw [parentPath_concat hshape hdrive, Option.some.injEq] at hparent
  subst hparent
  have hnext : Shape (pathOf dir.absolute init) init := hshape.of_append
  refine ⟨⟨init, last :: more, hnext, habs, by simp [hparts], ?_⟩, ?_⟩
  · intro deeper hd hlen
    by_cases hlt : (init ++ [last]).length < deeper.length
    · exact hdeeper deeper hd hlt
    · have he : deeper = init ++ [last] := by
        have hpre' : init ++ [last] <+: textComponents directory := ⟨more, hparts.symm⟩
        refine (List.prefix_of_prefix_length_le hd hpre' (by omega)).eq_of_length ?_
        simp only [List.length_append, List.length_singleton] at hlt ⊢
        omega
      rw [he, ← habs, ← hshape.eq_pathOf]
      exact hnothing
  · rw [hnext.textComponents_eq, hshape.textComponents_eq]
    simp

theorem climbed_of_reaches {graph : ResolverGraph} {call : LooseCall}
    {root directory dir : NormalizedPath} {rp dp : List Text}
    (hroot : Shape root rp) (hdir : Shape directory dp)
    (hfree : ¬ StuckAtDriveRoot graph call root directory)
    (hreach : Loop.Reaches (looseRound graph call root) directory dir) :
    Climbed graph call root directory dir := by
  refine hreach.invariant (Climbed graph call root directory) ?_
    fun s s' hs hstep => (climbed_step hroot hdir hfree hs hstep).1
  refine ⟨dp, [], hdir, rfl, by simp [hdir.textComponents_eq], fun deeper hd hlen => ?_⟩
  have := hd.length_le
  rw [hdir.textComponents_eq] at this
  omega

theorem walkShrinks_of_not_stuck {graph : ResolverGraph} {call : LooseCall}
    {root directory : NormalizedPath} {rp dp : List Text}
    (hroot : Shape root rp) (hdir : Shape directory dp)
    (hfree : ¬ StuckAtDriveRoot graph call root directory) :
    WalkShrinks graph call root directory := by
  intro dir next hreach hround
  have hinv := climbed_of_reaches hroot hdir hfree hreach
  exact ⟨(climbed_step hroot hdir hfree hinv hround).2,
    (looseRound_again_iff.mp hround).2.2.2.2⟩

/-- A stuck walk visits every part prefix of its first directory. -/
theorem stuck_reaches {graph : ResolverGraph} {call : LooseCall}
    {root directory : NormalizedPath} {dp : List Text} (hroot : Shape root [])
    (hra : root.absolute = true) (hdir : Shape directory dp)
    (hda : directory.absolute = true)
    (hnothing : ∀ parts, parts ≠ [] → parts <+: dp →
      SelectsNothing graph call root (pathOf true parts)) :
    ∀ more parts, parts ≠ [] → dp = parts ++ more →
      Loop.Reaches (looseRound graph call root) directory (pathOf true parts) := by
  intro more
  induction more with
  | nil =>
      intro parts _ hdp
      have : pathOf true parts = directory := by
        rw [← List.append_nil parts, ← hdp, ← hda, ← hdir.eq_pathOf]
      rw [this]
      exact Loop.Reaches.refl
  | cons c more ih =>
      intro parts hne hdp
      have hlonger : dp = (parts ++ [c]) ++ more := by simp [hdp]
      refine (ih _ (by simp) hlonger).again ?_
      have hshape : Shape (pathOf true (parts ++ [c])) (parts ++ [c]) := by
        have := hlonger ▸ hdir
        exact hda ▸ this.of_append
      have hparent := hshape.of_append
      have hslash := hparent.within_slash rfl hroot hra
      refine looseRound_again_iff.mpr ⟨hshape.within_slash rfl hroot hra,
        hnothing _ (by simp) ⟨more, hlonger.symm⟩, ?_, parentPath_concat hshape fun _ => hne,
        hslash⟩
      by_contra hcon
      have he := normalizedEqual_iff.mp (by simpa using hcon)
      have := (he ▸ hshape).unique hroot
      simp at this

/-- **The walk shrinks exactly off the defect.** -/
theorem walkShrinks_iff {graph : ResolverGraph} {call : LooseCall}
    {root directory : NormalizedPath} {rp dp : List Text}
    (hroot : Shape root rp) (hdir : Shape directory dp) :
    WalkShrinks graph call root directory ↔
      ¬ StuckAtDriveRoot graph call root directory := by
  refine ⟨?_, walkShrinks_of_not_stuck hroot hdir⟩
  rintro hshrinks ⟨hslash, hdrive, hnothing⟩
  obtain ⟨rfl, hra⟩ := hroot.root_slash_iff.mp hslash
  rw [hdir.textComponents_eq] at hnothing
  cases dp with
  | nil =>
      rw [hdir.driveLooking_nil] at hdrive
      cases hdrive
  | cons c more =>
      obtain ⟨hda, hcolon⟩ := hdir.driveLooking_cons.mp hdrive
      have hreach := stuck_reaches hroot hra hdir hda hnothing more [c] (by simp) rfl
      have hone : Shape (pathOf true [c]) [c] := by
        have := hdir
        rw [← List.singleton_append] at this
        exact hda ▸ this.of_append
      have hlook := hone.driveLooking_cons.mpr ⟨rfl, hcolon⟩
      obtain ⟨next, hparent, hna, hnext⟩ := parentPath_drive hone hlook
      have hround : looseRound graph call root (pathOf true [c]) = .again next := by
        refine looseRound_again_iff.mpr ⟨hone.within_slash rfl hroot hra,
          hnothing _ (by simp) ⟨more, rfl⟩, ?_, hparent, hnext.within_slash hna hroot hra⟩
        by_contra hcon
        have he := normalizedEqual_iff.mp (by simpa using hcon)
        have := (he ▸ hone).unique hroot
        simp at this
      have hlt := (hshrinks _ _ hreach hround).1
      rw [hone.textComponents_eq, hnext.textComponents_eq] at hlt
      exact absurd hlt (lt_irrefl _)

/-! ## Termination of the resolver -/

/-- The condition on a whole call: it does not take the loose route into the
defect. -/
def AvoidsDriveRoot (graph : ResolverGraph) (sourceIndex : ℕ) (pointer : AssetPPtr)
    (expectedClassId : Int32) : Prop :=
  ∀ source call root directory,
    route graph sourceIndex pointer expectedClassId = .loose source call →
    looseStart source call.locator = some (root, directory) →
      ¬ StuckAtDriveRoot graph call root directory

/-- **Termination with its measure.** The call ends and every continued round
of its walk shortens the directory within the scope root, exactly when the walk
is not caught below a drive-like first part of the root `/`. -/
theorem unityPPtrResolve_terminates_iff (graph : ResolverGraph) (sourceIndex : ℕ)
    (pointer : AssetPPtr) (expectedClassId : Int32) :
    ((∃ fuel outcome,
        unityPPtrResolve fuel graph sourceIndex pointer expectedClassId = some outcome) ∧
      ∀ source call root directory,
        route graph sourceIndex pointer expectedClassId = .loose source call →
        looseStart source call.locator = some (root, directory) →
          WalkShrinks graph call root directory) ↔
      AvoidsDriveRoot graph sourceIndex pointer expectedClassId := by
  constructor
  · rintro ⟨-, hshrinks⟩ source call root directory hroute hstart
    obtain ⟨⟨rp, hroot⟩, dp, hdir⟩ := looseStart_shape hstart
    exact (walkShrinks_iff hroot hdir).mp (hshrinks source call root directory hroute hstart)
  · intro hfree
    have hshrinks : ∀ source call root directory,
        route graph sourceIndex pointer expectedClassId = .loose source call →
        looseStart source call.locator = some (root, directory) →
          WalkShrinks graph call root directory := by
      intro source call root directory hroute hstart
      obtain ⟨⟨rp, hroot⟩, dp, hdir⟩ := looseStart_shape hstart
      exact (walkShrinks_iff hroot hdir).mpr (hfree source call root directory hroute hstart)
    refine ⟨?_, hshrinks⟩
    cases hroute : route graph sourceIndex pointer expectedClassId with
    | finished ok result => exact ⟨0, (ok, result), by simp [unityPPtrResolve, hroute]⟩
    | archive source external result =>
        exact ⟨0, _, by simp only [unityPPtrResolve, hroute]; rfl⟩
    | loose source call =>
        cases hstart : looseStart source call.locator with
        | none =>
            exact ⟨0, _, by
              simp only [unityPPtrResolve, hroute, resolveLoose, hstart]
              rfl⟩
        | some start =>
            obtain ⟨root, directory⟩ := start
            have hw := hshrinks source call root directory hroute hstart
            obtain ⟨result, hrun⟩ := Loop.run_of_variant
              (fun dir => (textComponents dir).length)
              fun dir next hreach hround => (hw dir next hreach hround).1
            refine ⟨(textComponents directory).length + 1, (true, result), ?_⟩
            simp only [unityPPtrResolve, hroute, resolveLoose, hstart, hrun]
            rfl

/-! The failing call: one loose file at `/:b/f` under the scope root `/`, with
an external `x` that no node has. -/

def driveRootExternal : AssetFileExternal :=
  ⟨some (cstr ""), .zero, 0, some (cstr "x")⟩

def driveRootNode : SourceNode where
  file := some { SerializedFile.closed with externals := [driveRootExternal] }
  outerPath := some (cstr "/:b/f")
  memberName := none
  isBundleMember := false
  scopeRoot := some (cstr "/")
  hasAssetGuid := false
  assetGuid := .zero

theorem unityPPtrResolve_drive_root_diverges :
    ¬ ∃ fuel outcome,
      unityPPtrResolve fuel ⟨[driveRootNode]⟩ 0 ⟨1, 1⟩ targetClassAny = some outcome := by
  rintro ⟨fuel, outcome, hout⟩
  have hroute : route ⟨[driveRootNode]⟩ 0 ⟨1, 1⟩ targetClassAny =
      .loose driveRootNode ⟨driveRootExternal, ascii "x", false, 1, targetClassAny,
        ⟨.outOfScope, some 0, none, some 0, some driveRootExternal, none⟩⟩ := by
    decide
  have hstart : looseStart driveRootNode (ascii "x") =
      some (⟨ascii "/", true⟩, ⟨ascii "/:b", true⟩) := by
    decide
  have hround : looseRound ⟨[driveRootNode]⟩ ⟨driveRootExternal, ascii "x", false, 1,
        targetClassAny, ⟨.outOfScope, some 0, none, some 0, some driveRootExternal, none⟩⟩
      ⟨ascii "/", true⟩ ⟨ascii "/:b", true⟩ = .again ⟨ascii "/:b", true⟩ := by
    decide
  simp only [unityPPtrResolve, hroute, resolveLoose, hstart, Loop.run_of_fixed hround,
    Option.map_none, reduceCtorEq] at hout

end UnityCommon.PPtr
