import UnityCommon.Common.Utf8

/-!
# Relative paths

`common/relative_path.c`. A path is a byte pointer with its size, `none` where the
pointer is NULL. The sign of a comparison is an `Ordering`. A violation of the path
grammar has an offset, and the validator answers the least.
-/

namespace UnityCommon.Common

inductive CommonRelativePathStatus where
  | ok
  | invalidArgument
  | empty
  | emptyComponent
  | dotComponent
  | backslash
  | controlCharacter
  | invalidUtf8
deriving DecidableEq, Repr

structure CommonRelativePathResult where
  status : CommonRelativePathStatus
  offset : Option ℕ
deriving DecidableEq, Repr

def separator : UInt8 := 0x2f
def backslash : UInt8 := 0x5c
def dot : UInt8 := 0x2e

def componentIsDot (bytes : Text) (start stop : ℕ) : Bool :=
  stop - start == 1 && bytes[start]? == some dot

def componentIsDotDot (bytes : Text) (start stop : ℕ) : Bool :=
  stop - start == 2 && bytes[start]? == some dot && bytes[start + 1]? == some dot

def componentResult (bytes : Text) (start stop : ℕ) : CommonRelativePathResult :=
  if start = stop then ⟨.emptyComponent, some start⟩
  else if componentIsDot bytes start stop || componentIsDotDot bytes start stop then
    ⟨.dotComponent, some start⟩
  else ⟨.ok, none⟩

/-- The local values of `common_relative_path_validate_utf8`. -/
structure PathScan where
  componentBegin : ℕ
  position : ℕ
deriving DecidableEq, Repr

/-- One round of its loop; past the end, what it returns behind the loop. -/
def pathScanRound (bytes : Text) (scan : PathScan) :
    Loop.Outcome PathScan CommonRelativePathResult :=
  match bytes[scan.position]? with
  | none => .done (componentResult bytes scan.componentBegin bytes.length)
  | some value =>
      if value = separator then
        let component := componentResult bytes scan.componentBegin scan.position
        if component.status ≠ .ok then .done component
        else .again ⟨scan.position + 1, scan.position + 1⟩
      else if value = backslash then .done ⟨.backslash, some scan.position⟩
      else if value < 0x20 then .done ⟨.controlCharacter, some scan.position⟩
      else
        match commonUtf8DecodeOne (some (bytes.drop scan.position)) with
        | (⟨.ok, _⟩, some (_, sequenceSize)) =>
            .again ⟨scan.componentBegin, scan.position + sequenceSize⟩
        | _ => .done ⟨.invalidUtf8, some scan.position⟩

/-- The fuel is one round a byte and one more; `none` where it runs out. -/
def commonRelativePathValidateUtf8 (path : Option Text) : Option CommonRelativePathResult :=
  match path with
  | none => some ⟨.invalidArgument, none⟩
  | some bytes =>
      if bytes.length = 0 then some ⟨.empty, some 0⟩
      else Loop.run (pathScanRound bytes) (bytes.length + 1) ⟨0, 0⟩

/-- `memcmp` over the common size. -/
def commonRelativePathCompareBytes (left : Option Text) (leftSize : ℕ) (right : Option Text)
    (rightSize : ℕ) : Ordering :=
  let common := min leftSize rightSize
  let bySize := compare leftSize rightSize
  if common = 0 then bySize
  else
    match left, right with
    | none, none => bySize
    | none, some _ => .lt
    | some _, none => .gt
    | some left, some right => (compare (left.take common) (right.take common)).then bySize

def commonRelativePathIsEqualOrDescendant (candidate root : Option Text) : Bool :=
  match candidate, root with
  | some candidate, some root =>
      if root.length = 0 ∨ candidate.length < root.length then false
      else if candidate.take root.length ≠ root then false
      else candidate.length == root.length || candidate[root.length]? == some separator
  | _, _ => false

/-! ## The grammar -/

def components (path : Text) : List Text := path.splitOn separator

def GoodComponent (component : Text) : Prop :=
  component ≠ [] ∧ component ≠ [dot] ∧ component ≠ [dot, dot]

/-- The component of the path that starts at this offset. -/
def ComponentAt (path : Text) (offset : ℕ) (component : Text) : Prop :=
  ∃ before after, components path = before ++ component :: after ∧
    offset = (before.map (·.length + 1)).sum

/-- What each failure says of an offset. -/
def Violates (path : Text) (offset : ℕ) : CommonRelativePathStatus → Prop
  | .ok | .invalidArgument => False
  | .empty => path = [] ∧ offset = 0
  | .emptyComponent => ComponentAt path offset []
  | .dotComponent => ComponentAt path offset [dot] ∨ ComponentAt path offset [dot, dot]
  | .backslash => path[offset]? = some backslash
  | .controlCharacter => ∃ value, path[offset]? = some value ∧ value < 0x20
  | .invalidUtf8 => IllFormedAt path offset

/-- The components so far, each with the separator behind it. -/
def closedText (closed : List Text) : Text := closed.flatMap (· ++ [separator])

theorem closedText_concat (closed : List Text) (component : Text) :
    closedText (closed ++ [component]) = closedText closed ++ (component ++ [separator]) := by
  simp [closedText]

theorem length_closedText (closed : List Text) :
    (closedText closed).length = (closed.map (·.length + 1)).sum := by
  simp [closedText, List.length_flatMap]

theorem components_closedText {closed : List Text} (rest : Text)
    (h : ∀ component ∈ closed, separator ∉ component) :
    components (closedText closed ++ rest) = closed ++ components rest := by
  induction closed with
  | nil => rfl
  | cons component closed ih =>
      have hrest := ih fun c hc => h c (List.mem_cons_of_mem _ hc)
      have htext : closedText (component :: closed) ++ rest =
          component ++ separator :: (closedText closed ++ rest) := by
        simp [closedText]
      unfold components at hrest ⊢
      rw [htext, List.splitOn_append_cons_self_of_not_mem (h component List.mem_cons_self), hrest]
      rfl

/-- The open component goes on until the next separator. -/
theorem components_opened {opened : Text} (rest : Text) (h : separator ∉ opened) :
    ∃ more after, components (opened ++ rest) = (opened ++ more) :: after ∧ more <+: rest ∧
      separator ∉ more ∧ (after ≠ [] → more.length < rest.length) := by
  unfold components
  by_cases hsep : separator ∈ rest
  · obtain ⟨more, tail, rfl, hmore⟩ := List.eq_append_cons_of_mem hsep
    refine ⟨more, tail.splitOn separator, ?_, List.prefix_append _ _, hmore, fun _ => by simp⟩
    rw [← List.append_assoc, List.splitOn_append_cons_self_of_not_mem (by simp [h, hmore])]
  · refine ⟨rest, [], ?_, List.prefix_rfl, hsep, fun hne => absurd rfl hne⟩
    rw [List.splitOn_eq_singleton (by simp [h, hsep])]

/-! ## The scan -/

/-- A byte the validator lets pass on its own. -/
def CleanByte (value : UInt8) : Prop := value ≠ backslash ∧ ¬ value < 0x20

/-- What the scan has gone through: closed components, all good, and the start of
the open one. -/
structure Scanned (path : Text) (scan : PathScan) (closed : List Text) (opened rest : Text) :
    Prop where
  path_eq : path = closedText closed ++ (opened ++ rest)
  begin_eq : scan.componentBegin = (closedText closed).length
  position_eq : scan.position = (closedText closed).length + opened.length
  closed_separated : ∀ component ∈ closed, separator ∉ component
  opened_separated : separator ∉ opened
  good : ∀ component ∈ closed, GoodComponent component
  clean : ∀ value ∈ closedText closed ++ opened, CleanByte value
  wellFormed : WellFormedTo path scan.position

namespace Scanned

variable {path : Text} {scan : PathScan} {closed : List Text} {opened rest : Text}

theorem start (path : Text) : Scanned path ⟨0, 0⟩ [] [] path where
  path_eq := rfl
  begin_eq := rfl
  position_eq := rfl
  closed_separated := by simp
  opened_separated := by simp
  good := by simp
  clean := by simp [closedText]
  wellFormed := PrefixCode.Spelled.zero _ path

theorem length_eq (h : Scanned path scan closed opened rest) :
    path.length = scan.position + rest.length := by
  rw [h.path_eq, h.position_eq]
  simp only [List.length_append]
  omega

theorem drop_position (h : Scanned path scan closed opened rest) :
    path.drop scan.position = rest := by
  rw [h.position_eq, h.path_eq, ← List.append_assoc, ← List.length_append, List.drop_left]

theorem take_position (h : Scanned path scan closed opened rest) :
    path.take scan.position = closedText closed ++ opened := by
  rw [h.position_eq, h.path_eq, ← List.append_assoc, ← List.length_append, List.take_left]

theorem getElem?_position (h : Scanned path scan closed opened rest) :
    path[scan.position]? = rest.head? := by
  rw [← h.drop_position, List.head?_drop]

theorem components_eq (h : Scanned path scan closed opened rest) :
    components path = closed ++ components (opened ++ rest) := by
  rw [h.path_eq, components_closedText _ h.closed_separated]

/-- The bytes gone through violate nothing. -/
theorem clean_of_lt (h : Scanned path scan closed opened rest) {offset : ℕ} {value : UInt8}
    (hlt : offset < scan.position) (hvalue : path[offset]? = some value) : CleanByte value := by
  refine h.clean value ?_
  rw [← h.take_position]
  refine List.mem_of_getElem? (i := offset) ?_
  rw [List.getElem?_take_of_lt hlt, hvalue]

/-- **Where a violation can be**: at the position or behind it, or at the start of
the open component. -/
theorem le_of_violates (h : Scanned path scan closed opened rest) {offset : ℕ}
    {status : CommonRelativePathStatus} (hv : Violates path offset status) :
    scan.position ≤ offset ∧ rest ≠ [] ∨
      offset = scan.componentBegin ∧
        ∃ component after, components (opened ++ rest) = component :: after ∧
          ¬ GoodComponent component := by
  have hlength := h.length_eq
  have hrest : scan.position ≤ offset → offset < path.length →
      scan.position ≤ offset ∧ rest ≠ [] := by
    rintro hle hlt
    refine ⟨hle, ?_⟩
    rintro rfl
    simp at hlength
    omega
  -- A component that is not good is the open one or comes later.
  have hcomponent : ∀ component, ComponentAt path offset component → ¬ GoodComponent component →
      scan.position ≤ offset ∧ rest ≠ [] ∨
        offset = scan.componentBegin ∧
          ∃ component after, components (opened ++ rest) = component :: after ∧
            ¬ GoodComponent component := by
    rintro component ⟨before, after, hsplit, hoffset⟩ hbad
    rw [h.components_eq] at hsplit
    obtain ⟨more, others, hopened, hmore, -, hothers⟩ := components_opened rest h.opened_separated
    rw [hopened] at hsplit
    rcases List.append_eq_append_iff.mp hsplit with ⟨front, hbefore, hfront⟩ | ⟨front, hclosed, hfront⟩
    · cases front with
      | nil =>
          rw [List.nil_append] at hfront
          obtain ⟨rfl, rfl⟩ := List.cons.inj hfront
          refine Or.inr ⟨?_, _, _, hopened, hbad⟩
          rw [hoffset, hbefore, h.begin_eq, length_closedText, List.append_nil]
      | cons first front =>
          obtain ⟨rfl, rfl⟩ := List.cons.inj hfront
          have hlt := hothers (by simp)
          refine Or.inl ⟨?_, ?_⟩
          · rw [hoffset, hbefore, h.position_eq, length_closedText]
            simp only [List.map_append, List.sum_append, List.map_cons, List.sum_cons,
              List.length_append]
            omega
          · rintro rfl
            simp at hlt
    · cases front with
      | nil =>
          rw [List.nil_append] at hfront
          obtain ⟨rfl, rfl⟩ := List.cons.inj hfront
          refine Or.inr ⟨?_, _, _, hopened, hbad⟩
          rw [hoffset, h.begin_eq, length_closedText, hclosed, List.append_nil]
      | cons first front =>
          obtain ⟨rfl, -⟩ := List.cons.inj hfront
          exact absurd (h.good component (by simp [hclosed])) hbad
  -- A byte that the scan has gone through is clean.
  have hbyte : ∀ value, path[offset]? = some value → ¬ CleanByte value →
      scan.position ≤ offset ∧ rest ≠ [] := by
    intro value hvalue hunclean
    obtain ⟨hlt, -⟩ := List.getElem?_eq_some_iff.mp hvalue
    refine hrest ?_ hlt
    by_contra hbefore
    exact hunclean (h.clean_of_lt (Nat.lt_of_not_le hbefore) hvalue)
  cases status with
  | ok => exact hv.elim
  | invalidArgument => exact hv.elim
  | empty =>
      obtain ⟨rfl, rfl⟩ := hv
      rw [List.length_nil] at hlength
      have hbegin := h.begin_eq
      have hposition := h.position_eq
      have hopened : opened ++ rest = [] := by
        rw [← List.length_eq_zero_iff, List.length_append]
        omega
      refine Or.inr ⟨by omega, [], [], ?_, fun hgood => hgood.1 rfl⟩
      rw [hopened]
      rfl
  | emptyComponent => exact hcomponent [] hv fun hgood => hgood.1 rfl
  | dotComponent =>
      rcases hv with hv | hv
      · exact hcomponent _ hv fun hgood => hgood.2.1 rfl
      · exact hcomponent _ hv fun hgood => hgood.2.2 rfl
  | backslash => exact Or.inl (hbyte _ hv fun hclean => hclean.1 rfl)
  | controlCharacter =>
      obtain ⟨value, hvalue, hlt⟩ := hv
      exact Or.inl (hbyte value hvalue fun hclean => hclean.2 hlt)
  | invalidUtf8 =>
      obtain ⟨hstuck, hlt⟩ := hv
      exact Or.inl (hrest ((hstuck.isGreatest utf8Code).2 h.wellFormed) hlt)

/-- Where the next byte already is a violation, it is the least one. -/
theorem least_position (h : Scanned path scan closed opened rest) {value : UInt8} {tail : Text}
    (hrest : rest = value :: tail) (hseparator : value ≠ separator) (hdot : value ≠ dot)
    {status : CommonRelativePathStatus} (hv : Violates path scan.position status) :
    IsLeast {offset | ∃ status, Violates path offset status} scan.position := by
  refine ⟨⟨status, hv⟩, fun offset hoffset => ?_⟩
  obtain ⟨status, hv⟩ := hoffset
  rcases h.le_of_violates hv with ⟨hle, -⟩ | ⟨-, component, after, hsplit, hbad⟩
  · exact hle
  -- The open component goes on with the byte, which no dot component has.
  refine absurd ?_ hbad
  have hopened : separator ∉ opened ++ [value] := by
    simp [h.opened_separated, hseparator.symm]
  obtain ⟨more, others, hcomponents, -⟩ := components_opened tail hopened
  rw [List.append_assoc, List.singleton_append, ← hrest, hsplit] at hcomponents
  obtain ⟨rfl, -⟩ := List.cons.inj hcomponents
  have hmem : value ∈ opened ++ [value] ++ more := by simp
  refine ⟨List.ne_nil_of_mem hmem, ?_, ?_⟩
  · intro he
    rw [he] at hmem
    exact hdot (by simpa using hmem)
  · intro he
    rw [he] at hmem
    exact hdot (by simpa using hmem)

/-- A separator closes a good component. -/
theorem close (h : Scanned path scan closed opened rest) {tail : Text}
    (hrest : rest = separator :: tail) (hgood : GoodComponent opened) :
    Scanned path ⟨scan.position + 1, scan.position + 1⟩ (closed ++ [opened]) [] tail := by
  have hposition : scan.position + 1 = (closedText (closed ++ [opened])).length := by
    rw [closedText_concat, h.position_eq]
    simp only [List.length_append, List.length_singleton]
    omega
  refine ⟨?_, hposition, by simpa using hposition, ?_, by simp, ?_, ?_, ?_⟩
  · rw [h.path_eq, hrest, closedText_concat]
    simp
  · intro component hmem
    rcases List.mem_append.mp hmem with hmem | hmem
    · exact h.closed_separated component hmem
    · rw [List.mem_singleton.mp hmem]
      exact h.opened_separated
  · intro component hmem
    rcases List.mem_append.mp hmem with hmem | hmem
    · exact h.good component hmem
    · rw [List.mem_singleton.mp hmem]
      exact hgood
  · intro value hmem
    rw [closedText_concat, List.append_nil, ← List.append_assoc] at hmem
    rcases List.mem_append.mp hmem with hmem | hmem
    · exact h.clean value hmem
    · rw [List.mem_singleton.mp hmem]
      exact ⟨by decide, by decide⟩
  · have hword : String.utf8EncodeChar '/' <+: path.drop scan.position := by
      rw [h.drop_position, hrest]
      exact ⟨tail, rfl⟩
    exact h.wellFormed.extend hword

/-- An encoding of clean bytes is read into the open component. -/
theorem read (h : Scanned path scan closed opened rest) {c : Char} {tail : Text}
    (hrest : rest = String.utf8EncodeChar c ++ tail)
    (hbytes : ∀ value ∈ String.utf8EncodeChar c, value ≠ separator ∧ CleanByte value) :
    Scanned path ⟨scan.componentBegin, scan.position + c.utf8Size⟩ closed
      (opened ++ String.utf8EncodeChar c) tail := by
  have hlength := String.length_utf8EncodeChar c
  refine ⟨?_, h.begin_eq, ?_, h.closed_separated, ?_, h.good, ?_, ?_⟩
  · rw [h.path_eq, hrest, List.append_assoc opened]
  · rw [h.position_eq, List.length_append, hlength, Nat.add_assoc]
  · intro hmem
    rcases List.mem_append.mp hmem with hmem | hmem
    · exact h.opened_separated hmem
    · exact (hbytes separator hmem).1 rfl
  · intro value hmem
    rw [← List.append_assoc] at hmem
    rcases List.mem_append.mp hmem with hmem | hmem
    · exact h.clean value hmem
    · exact (hbytes value hmem).2
  · rw [← hlength]
    refine h.wellFormed.extend ?_
    rw [h.drop_position, hrest]
    exact List.prefix_append _ _

end Scanned

/-! ## Components -/

/-- A component that stands in the path between these offsets. -/
structure Stands (path : Text) (start stop : ℕ) (component : Text) : Prop where
  stop_eq : stop = start + component.length
  at_eq : ∀ n < component.length, path[start + n]? = component[n]?

namespace Stands

variable {path component : Text} {start stop : ℕ}

theorem of_append {front back : Text} (hpath : path = front ++ (component ++ back))
    (hstart : start = front.length) (hstop : stop = front.length + component.length) :
    Stands path start stop component := by
  refine ⟨by omega, fun n hn => ?_⟩
  rw [hpath, hstart, List.getElem?_append_right (by omega), Nat.add_sub_cancel_left,
    List.getElem?_append_left hn]

theorem length_eq (h : Stands path start stop component) : stop - start = component.length := by
  have := h.stop_eq
  omega

theorem isDot_iff (h : Stands path start stop component) :
    componentIsDot path start stop = true ↔ component = [dot] := by
  unfold componentIsDot
  rw [h.length_eq]
  match component, h with
  | [], _ => simp
  | [first], h =>
      have h0 := h.at_eq 0 (by simp)
      rw [Nat.add_zero] at h0
      simp [h0]
  | _ :: _ :: _, _ => simp

theorem isDotDot_iff (h : Stands path start stop component) :
    componentIsDotDot path start stop = true ↔ component = [dot, dot] := by
  unfold componentIsDotDot
  rw [h.length_eq]
  match component, h with
  | [], _ => simp
  | [_], _ => simp
  | [first, second], h =>
      have h0 := h.at_eq 0 (by simp)
      have h1 := h.at_eq 1 (by simp)
      rw [Nat.add_zero] at h0
      simp [h0, h1]
  | _ :: _ :: _ :: _, _ => simp

/-- **What a component is reported as.** -/
theorem componentResult_eq (h : Stands path start stop component) :
    componentResult path start stop =
      if component = [] then ⟨.emptyComponent, some start⟩
      else if component = [dot] ∨ component = [dot, dot] then ⟨.dotComponent, some start⟩
      else ⟨.ok, none⟩ := by
  have hempty : start = stop ↔ component = [] := by
    rw [← List.length_eq_zero_iff, h.stop_eq]
    omega
  unfold componentResult
  simp only [hempty, Bool.or_eq_true, h.isDot_iff, h.isDotDot_iff]

theorem componentResult_cases (h : Stands path start stop component) :
    (componentResult path start stop = ⟨.ok, none⟩ ∧ GoodComponent component) ∨
      ∃ status, componentResult path start stop = ⟨status, some start⟩ ∧ status ≠ .ok ∧
        (ComponentAt path start component → Violates path start status) := by
  rw [h.componentResult_eq]
  by_cases hempty : component = []
  · rw [if_pos hempty]
    refine Or.inr ⟨_, rfl, by simp, fun hat => ?_⟩
    subst hempty
    exact hat
  rw [if_neg hempty]
  by_cases hdots : component = [dot] ∨ component = [dot, dot]
  · rw [if_pos hdots]
    refine Or.inr ⟨_, rfl, by simp, fun hat => ?_⟩
    rcases hdots with rfl | rfl
    · exact Or.inl hat
    · exact Or.inr hat
  · rw [if_neg hdots]
    exact Or.inl ⟨rfl, hempty, fun he => hdots (Or.inl he), fun he => hdots (Or.inr he)⟩

end Stands

/-! ## One round -/

/-- The bytes of an encoding are its only byte, or none of them is ASCII. -/
theorem mem_utf8EncodeChar {c : Char} {value : UInt8} (h : value ∈ String.utf8EncodeChar c) :
    String.utf8EncodeChar c = [value] ∨ 0x80 ≤ value.toNat := by
  have hnumber := List.mem_map_of_mem (f := UInt8.toNat) h
  by_cases hsmall : c.toNat ≤ 0x7f
  · refine Or.inl (utf8EncodeChar_one.mpr ?_)
    rw [utf8EncodeChar_toNat, if_pos hsmall, List.mem_singleton] at hnumber
    omega
  · refine Or.inr ?_
    rw [utf8EncodeChar_toNat, if_neg hsmall] at hnumber
    split at hnumber
    · simp only [List.mem_cons, List.not_mem_nil, or_false] at hnumber
      omega
    · split at hnumber
      · simp only [List.mem_cons, List.not_mem_nil, or_false] at hnumber
        omega
      · simp only [List.mem_cons, List.not_mem_nil, or_false] at hnumber
        omega

/-- What the end of the scan says of the whole path. -/
def Judged (path : Text) (result : CommonRelativePathResult) : Prop :=
  (result = ⟨.ok, none⟩ ∧ ∀ offset status, ¬ Violates path offset status) ∨
    ∃ status offset, result = ⟨status, some offset⟩ ∧ status ≠ .ok ∧
      Violates path offset status ∧ IsLeast {offset | ∃ status, Violates path offset status} offset

namespace Scanned

variable {path : Text} {scan : PathScan} {closed : List Text} {opened rest : Text}

theorem componentAt (h : Scanned path scan closed opened rest) {after : List Text}
    (hsplit : components (opened ++ rest) = opened :: after) :
    ComponentAt path scan.componentBegin opened :=
  ⟨closed, after, by rw [h.components_eq, hsplit], by rw [h.begin_eq, length_closedText]⟩

theorem stands (h : Scanned path scan closed opened rest) :
    Stands path scan.componentBegin scan.position opened :=
  Stands.of_append h.path_eq h.begin_eq h.position_eq

/-- A violation at the start of the open component is the least. -/
theorem least_begin (h : Scanned path scan closed opened rest)
    {status : CommonRelativePathStatus} (hv : Violates path scan.componentBegin status) :
    IsLeast {offset | ∃ status, Violates path offset status} scan.componentBegin := by
  refine ⟨⟨status, hv⟩, fun offset hoffset => ?_⟩
  obtain ⟨status, hv⟩ := hoffset
  have hbegin := h.begin_eq
  have hposition := h.position_eq
  rcases h.le_of_violates hv with ⟨hle, -⟩ | ⟨he, -⟩
  · omega
  · exact he.ge

/-- The end of the path ends the open component. -/
theorem judged_end (h : Scanned path scan closed opened []) :
    Judged path (componentResult path scan.componentBegin path.length) := by
  have hlength : path.length = scan.position := by simpa using h.length_eq
  have hsplit : components (opened ++ []) = [opened] := by
    rw [List.append_nil, components, List.splitOn_eq_singleton h.opened_separated]
  rw [hlength]
  rcases h.stands.componentResult_cases with ⟨hok, hgood⟩ | ⟨status, hresult, hne, hviolates⟩
  · refine Or.inl ⟨hok, fun offset status hv => ?_⟩
    rcases h.le_of_violates hv with ⟨-, hrest⟩ | ⟨-, component, after, hcomponents, hbad⟩
    · exact hrest rfl
    · rw [hsplit] at hcomponents
      obtain ⟨rfl, -⟩ := List.cons.inj hcomponents
      exact hbad hgood
  · have hv := hviolates (h.componentAt hsplit)
    exact Or.inr ⟨status, _, hresult, hne, hv, h.least_begin hv⟩

/-- **One round** keeps the scan or judges the path. -/
theorem round_cases (h : Scanned path scan closed opened rest) :
    (∃ next closed' opened' rest', pathScanRound path scan = .again next ∧
      scan.position < next.position ∧ scan.position < path.length ∧
      Scanned path next closed' opened' rest') ∨
    ∃ result, pathScanRound path scan = .done result ∧ Judged path result := by
  have hhead := h.getElem?_position
  have hlength := h.length_eq
  unfold pathScanRound
  cases rest with
  | nil =>
      rw [List.head?_nil] at hhead
      rw [hhead]
      exact Or.inr ⟨_, rfl, h.judged_end⟩
  | cons value tail =>
      rw [List.head?_cons] at hhead
      have hlt : scan.position < path.length := by
        rw [List.length_cons] at hlength
        omega
      rw [hhead]
      dsimp only
      by_cases hseparator : value = separator
      · rw [if_pos hseparator]
        subst hseparator
        have hsplit : components (opened ++ separator :: tail) = opened :: components tail :=
          List.splitOn_append_cons_self_of_not_mem h.opened_separated tail
        rcases h.stands.componentResult_cases with ⟨hok, hgood⟩ | ⟨status, hresult, hne, hviolates⟩
        · rw [hok]
          exact Or.inl ⟨_, _, _, _, rfl, Nat.lt_succ_self _, hlt, h.close rfl hgood⟩
        · rw [hresult, if_pos hne]
          have hv := hviolates (h.componentAt hsplit)
          exact Or.inr ⟨_, rfl, Or.inr ⟨status, _, rfl, hne, hv, h.least_begin hv⟩⟩
      rw [if_neg hseparator]
      by_cases hbackslash : value = backslash
      · rw [if_pos hbackslash]
        have hv : Violates path scan.position .backslash := hhead.trans (by rw [hbackslash])
        exact Or.inr ⟨_, rfl, Or.inr ⟨_, _, rfl, by simp, hv,
          h.least_position rfl hseparator (by rw [hbackslash]; decide) hv⟩⟩
      rw [if_neg hbackslash]
      by_cases hcontrol : value < 0x20
      · rw [if_pos hcontrol]
        have hv : Violates path scan.position .controlCharacter := ⟨value, hhead, hcontrol⟩
        exact Or.inr ⟨_, rfl, Or.inr ⟨_, _, rfl, by simp, hv,
          h.least_position rfl hseparator (by rintro rfl; exact absurd hcontrol (by decide)) hv⟩⟩
      rw [if_neg hcontrol, h.drop_position]
      rcases commonUtf8DecodeOne_cases (value :: tail) with ⟨c, more, hword⟩ | hundecoded
      · rw [← hword, commonUtf8DecodeOne_encoded (List.prefix_append _ _)]
        have hpos := c.utf8Size_pos
        refine Or.inl ⟨_, _, _, _, rfl, by simpa using hpos, hlt, h.read hword.symm ?_⟩
        intro byte hmem
        rcases mem_utf8EncodeChar hmem with hsingle | hlarge
        · -- The only byte is the one that was tested.
          rw [hsingle, List.singleton_append] at hword
          obtain ⟨rfl, -⟩ := List.cons.inj hword
          exact ⟨hseparator, hbackslash, hcontrol⟩
        · refine ⟨?_, ?_, fun hlow => ?_⟩
          · rintro rfl
            exact absurd hlarge (by decide)
          · rintro rfl
            exact absurd hlarge (by decide)
          · have := UInt8.lt_iff_toNat_lt.mp hlow
            simp only [UInt8.reduceToNat] at this
            omega
      · rw [hundecoded]
        have hnone : ∀ c, ¬ String.utf8EncodeChar c <+: value :: tail := by
          intro c hc
          rw [commonUtf8DecodeOne_encoded hc] at hundecoded
          simp [Decoded, undecoded] at hundecoded
        have hv : Violates path scan.position .invalidUtf8 :=
          ⟨⟨h.wellFormed, by rwa [h.drop_position]⟩, hlt⟩
        refine Or.inr ⟨_, rfl, Or.inr ⟨_, _, rfl, by simp, hv,
          h.least_position rfl hseparator ?_ hv⟩⟩
        rintro rfl
        exact hnone '.' ⟨tail, rfl⟩

end Scanned

/-! ## The grammar, judged -/

/-- **The scan ends in a judgement.** -/
theorem commonRelativePathValidateUtf8_judged (path : Text) :
    ∃ result, commonRelativePathValidateUtf8 (some path) = some result ∧ Judged path result := by
  unfold commonRelativePathValidateUtf8
  by_cases hempty : path.length = 0
  · dsimp only
    rw [if_pos hempty]
    have hv : Violates path 0 .empty := ⟨List.length_eq_zero_iff.mp hempty, rfl⟩
    exact ⟨_, rfl, Or.inr ⟨_, _, rfl, by simp, hv, ⟨_, hv⟩, fun _ _ => Nat.zero_le _⟩⟩
  dsimp only
  rw [if_neg hempty]
  have hreach : ∀ {scan}, Loop.Reaches (pathScanRound path) ⟨0, 0⟩ scan →
      ∃ closed opened rest, Scanned path scan closed opened rest := by
    intro scan hreach
    refine hreach.invariant (fun scan => ∃ closed opened rest, Scanned path scan closed opened rest)
      ⟨[], [], path, Scanned.start path⟩ ?_
    rintro scan scan' ⟨closed, opened, rest, h⟩ hround
    rcases h.round_cases with ⟨next, closed', opened', rest', hnext, -, -, h'⟩ | ⟨result, hdone, -⟩
    · obtain rfl := Loop.Outcome.again.inj (hnext.symm.trans hround)
      exact ⟨closed', opened', rest', h'⟩
    · cases hdone.symm.trans hround
  obtain ⟨result, hrun⟩ : ∃ result,
      Loop.run (pathScanRound path) (path.length - 0 + 1) ⟨0, 0⟩ = some result :=
    Loop.run_of_variant (fun scan : PathScan => path.length - scan.position) fun scan scan' hscan hround => by
      obtain ⟨closed, opened, rest, h⟩ := hreach hscan
      rcases h.round_cases with ⟨next, _, _, _, hnext, hmore, hlt, -⟩ | ⟨result, hdone, -⟩
      · obtain rfl := Loop.Outcome.again.inj (hnext.symm.trans hround)
        omega
      · cases hdone.symm.trans hround
  obtain ⟨scan, hscan, hlast⟩ := Loop.run_some hrun
  obtain ⟨closed, opened, rest, h⟩ := hreach hscan
  rcases h.round_cases with ⟨next, _, _, _, hnext, -⟩ | ⟨result', hdone, hjudged⟩
  · cases hnext.symm.trans hlast
  · obtain rfl := Loop.Outcome.done.inj (hdone.symm.trans hlast)
    exact ⟨result', hrun, hjudged⟩

/-- A path that violates nothing is a path of the grammar. -/
theorem not_violates_iff (path : Text) :
    (∀ offset status, ¬ Violates path offset status) ↔
      path ≠ [] ∧ (∃ scalars, path = encodeScalars scalars) ∧ (∀ value ∈ path, CleanByte value) ∧
        ∀ component ∈ components path, GoodComponent component := by
  constructor
  · intro h
    refine ⟨?_, ?_, ?_, ?_⟩
    · rintro rfl
      exact h 0 .empty ⟨rfl, rfl⟩
    · rcases commonUtf8Validate_cases path with ⟨-, hwell⟩ | ⟨offset, -, hill⟩
      · exact PrefixCode.Spelled.length_iff.mp hwell
      · exact absurd hill (h offset .invalidUtf8)
    · intro value hmem
      obtain ⟨offset, hvalue⟩ := List.mem_iff_getElem?.mp hmem
      refine ⟨fun he => ?_, fun hlow => h offset .controlCharacter ⟨value, hvalue, hlow⟩⟩
      rw [he] at hvalue
      exact h offset .backslash hvalue
    · intro component hmem
      obtain ⟨before, after, hsplit⟩ := List.append_of_mem hmem
      have hat : ComponentAt path (before.map (·.length + 1)).sum component :=
        ⟨before, after, hsplit, rfl⟩
      refine ⟨?_, ?_, ?_⟩
      · rintro rfl
        exact h _ .emptyComponent hat
      · rintro rfl
        exact h _ .dotComponent (Or.inl hat)
      · rintro rfl
        exact h _ .dotComponent (Or.inr hat)
  · rintro ⟨hne, hwell, hclean, hgood⟩ offset status hv
    have hcomponent : ∀ component, ComponentAt path offset component → GoodComponent component := by
      rintro component ⟨before, after, hsplit, -⟩
      exact hgood component (by simp [hsplit])
    cases status with
    | ok => exact hv
    | invalidArgument => exact hv
    | empty => exact hne hv.1
    | emptyComponent => exact (hcomponent [] hv).1 rfl
    | dotComponent =>
        rcases hv with hv | hv
        · exact (hcomponent _ hv).2.1 rfl
        · exact (hcomponent _ hv).2.2 rfl
    | backslash => exact (hclean _ (List.mem_of_getElem? hv)).1 rfl
    | controlCharacter =>
        obtain ⟨value, hvalue, hlow⟩ := hv
        exact (hclean value (List.mem_of_getElem? hvalue)).2 hlow
    | invalidUtf8 =>
        obtain ⟨hstuck, hlt⟩ := hv
        have hle := (hstuck.isGreatest utf8Code).2 (PrefixCode.Spelled.length_iff.mpr hwell)
        exact absurd hlt (Nat.not_lt_of_le hle)

/-! ## Two paths -/

theorem intercalate_append {joint : Text} : ∀ {front back : List Text}, front ≠ [] → back ≠ [] →
    joint.intercalate (front ++ back) =
      joint.intercalate front ++ joint ++ joint.intercalate back
  | [first], back, _, hback => by
      rw [List.singleton_append, List.intercalate_cons_of_ne_nil hback, List.intercalate_singleton]
  | first :: second :: front, back, _, hback => by
      have ih := @intercalate_append joint (second :: front) back (by simp) hback
      rw [List.cons_append, List.intercalate_cons_of_ne_nil (by simp), ih,
        List.intercalate_cons_of_ne_nil (List.cons_ne_nil second front)]
      simp only [List.append_assoc]

/-- The components give the path back. -/
theorem intercalate_components (path : Text) : [separator].intercalate (components path) = path :=
  List.intercalate_splitOn separator

theorem components_ne_nil (path : Text) : components path ≠ [] := List.splitOn_ne_nil separator path

/-- **A descendant continues the components**, not just the text. -/
theorem isEqualOrDescendant_iff {candidate root : Text} (hroot : root ≠ []) :
    commonRelativePathIsEqualOrDescendant (some candidate) (some root) = true ↔
      components root <+: components candidate := by
  have htext : commonRelativePathIsEqualOrDescendant (some candidate) (some root) = true ↔
      candidate = root ∨ ∃ more, candidate = root ++ separator :: more := by
    have hzero : root.length ≠ 0 := List.length_eq_zero_iff.not.mpr hroot
    unfold commonRelativePathIsEqualOrDescendant
    dsimp only
    constructor
    · intro h
      split at h
      · cases h
      split at h
      · cases h
      rename_i hsizes htake
      have hfront : root ++ candidate.drop root.length = candidate := by
        conv_rhs => rw [← List.take_append_drop root.length candidate]
        rw [not_not.mp htake]
      rw [Bool.or_eq_true, beq_iff_eq, beq_iff_eq] at h
      rcases h with h | h
      · rw [List.drop_of_length_le h.le, List.append_nil] at hfront
        exact Or.inl hfront.symm
      · rw [← List.head?_drop] at h
        obtain ⟨more, hmore⟩ := List.head?_eq_some_iff.mp h
        rw [hmore] at hfront
        exact Or.inr ⟨more, hfront.symm⟩
    · rintro (rfl | ⟨more, rfl⟩)
      · simp [hzero]
      · simp [hzero]
  rw [htext]
  constructor
  · rintro (rfl | ⟨more, rfl⟩)
    · exact List.prefix_rfl
    · exact ⟨components more, (List.splitOn_append_cons_self root more).symm⟩
  · rintro ⟨rest, hrest⟩
    rw [← intercalate_components candidate, ← hrest]
    cases rest with
    | nil => exact Or.inl (by rw [List.append_nil, intercalate_components])
    | cons component rest =>
        refine Or.inr ⟨[separator].intercalate (component :: rest), ?_⟩
        rw [intercalate_append (components_ne_nil root) (List.cons_ne_nil _ _),
          intercalate_components, List.append_assoc, List.singleton_append]

theorem compare_take : ∀ left right : Text,
    (compare (left.take (min left.length right.length))
      (right.take (min left.length right.length))).then (compare left.length right.length) =
      compare left right
  | [], [] => rfl
  | [], _ :: _ => rfl
  | _ :: _, [] => rfl
  | a :: left, b :: right => by
      have ih := compare_take left right
      have hsizes : compare (left.length + 1) (right.length + 1) =
          compare left.length right.length := by
        simp only [Nat.compare_eq_ite_lt, Nat.add_lt_add_iff_right]
      rw [List.length_cons, List.length_cons, Nat.succ_min_succ, List.take_succ_cons,
        List.take_succ_cons, List.compare_cons_cons, List.compare_cons_cons, ← ih, hsizes,
        Ordering.then_assoc]

/-- The comparison of two texts with their sizes is the lexicographic one. -/
theorem compareBytes_eq (left right : Text) :
    commonRelativePathCompareBytes (some left) left.length (some right) right.length =
      compare left right := by
  unfold commonRelativePathCompareBytes
  dsimp only
  split
  · rename_i hzero
    rw [← compare_take, hzero]
    rfl
  · exact compare_take left right

/-- The validator lets the path pass. -/
def Validated (path : Text) : Prop :=
  commonRelativePathValidateUtf8 (some path) = some ⟨.ok, none⟩

instance (path : Text) : Decidable (Validated path) :=
  inferInstanceAs (Decidable (commonRelativePathValidateUtf8 (some path) = some ⟨.ok, none⟩))

def comparePaths (left right : Text) : Ordering :=
  commonRelativePathCompareBytes (some left) left.length (some right) right.length

theorem Validated.ne_nil {path : Text} (h : Validated path) : path ≠ [] := by
  obtain ⟨result, hresult, hjudged⟩ := commonRelativePathValidateUtf8_judged path
  obtain rfl := Option.some_inj.mp (h.symm.trans hresult)
  rcases hjudged with ⟨-, hnone⟩ | ⟨status, offset, he, hne, -⟩
  · exact ((not_violates_iff path).mp hnone).1
  · simp only [CommonRelativePathResult.mk.injEq] at he
    exact absurd he.1.symm hne

/-- **The identity grammar of relative paths.** The validator accepts the grammar
and else answers the least offset that violates it; on what it accepts, the
descendant test is a prefix test on components, and the comparison is a total
order whose equality is that of bytes. -/
theorem relativePath_grammar :
    (∀ path, ∃ result, commonRelativePathValidateUtf8 (some path) = some result ∧
      (result.status = .ok ↔
        path ≠ [] ∧ (∃ scalars, path = encodeScalars scalars) ∧
          (∀ value ∈ path, value ≠ backslash ∧ ¬ value < 0x20) ∧
          ∀ component ∈ components path,
            component ≠ [] ∧ component ≠ [dot] ∧ component ≠ [dot, dot]) ∧
      (result.status = .ok → result.offset = none) ∧
      (result.status ≠ .ok → ∃ offset, result.offset = some offset ∧
        Violates path offset result.status ∧
        IsLeast {offset | ∃ status, Violates path offset status} offset)) ∧
    (∀ candidate root, Validated candidate → Validated root →
      (commonRelativePathIsEqualOrDescendant (some candidate) (some root) = true ↔
        components root <+: components candidate)) ∧
    (∀ left right, Validated left → Validated right →
      (comparePaths left right = .eq ↔ left = right) ∧
      comparePaths right left = (comparePaths left right).swap ∧
      ∀ third, Validated third → (comparePaths left right).isLE → (comparePaths right third).isLE →
        (comparePaths left third).isLE) := by
  refine ⟨fun path => ?_, fun candidate root _ hroot => isEqualOrDescendant_iff hroot.ne_nil, ?_⟩
  · obtain ⟨result, hresult, hjudged⟩ := commonRelativePathValidateUtf8_judged path
    refine ⟨result, hresult, ?_⟩
    rcases hjudged with ⟨rfl, hnone⟩ | ⟨status, offset, rfl, hne, hviolates, hleast⟩
    · exact ⟨iff_of_true rfl ((not_violates_iff path).mp hnone), fun _ => rfl,
        fun hne => absurd rfl hne⟩
    · refine ⟨iff_of_false hne fun hgrammar => ?_, fun hok => absurd hok hne,
        fun _ => ⟨offset, rfl, hviolates, hleast⟩⟩
      exact (not_violates_iff path).mpr hgrammar offset status hviolates
  · intro left right _ _
    unfold comparePaths
    simp only [compareBytes_eq]
    refine ⟨Std.LawfulEqOrd.compare_eq_iff_eq, Std.OrientedOrd.eq_swap, fun third _ => ?_⟩
    exact Std.TransOrd.isLE_trans

theorem relativePath_grammar_nested :
    components (ascii "a") <+: components (ascii "a/b") :=
  (relativePath_grammar.2.1 (ascii "a/b") (ascii "a") (by decide) (by decide)).mp (by decide)

end UnityCommon.Common
