import Mathlib.Data.Nat.Bitwise
import UnityCommon.SerializedFile.SchemaScan

/-!
# Resolving the names

One scan of each string table resolves the sorted requests for it. What the
scan stores in a node is what a lookup of its offset alone finds, and the order
of the requests does not show in the nodes.
-/

namespace UnityCommon.Metadata

open UnityCommon.TypeTree

/-! ## Segments -/

theorem cstringAt_segment {segment : Text} (h : (0 : UInt8) ∉ segment) (rest : Text) :
    (cstringAt (segment ++ 0 :: rest)).bytes = segment := by
  have hall : ∀ byte ∈ segment, (byte != 0) = true := by
    intro byte hbyte
    rw [bne_iff_ne]
    intro hzero
    exact h (hzero ▸ hbyte)
  show (segment ++ 0 :: rest).takeWhile (· != 0) = segment
  rw [List.takeWhile_append_of_pos hall]
  simp

/-- **An offset into a segment** names it when it is its start and a terminator
follows. -/
theorem resolve_segment {before segment rest : Text} {byte : UInt8} {offset : ℕ}
    (hbefore : before = [] ∨ before.getLast? = some 0) (hsegment : (0 : UInt8) ∉ segment)
    (hend : byte = 0 ∨ rest = []) (hlow : before.length ≤ offset)
    (hhigh : offset ≤ before.length + segment.length) :
    (resolveStringInTable (before ++ (segment ++ byte :: rest)) offset).map CString.bytes =
      if offset = before.length ∧ byte = 0 then some segment else none := by
  obtain ⟨inside, rfl⟩ := Nat.exists_eq_add_of_le hlow
  have hlength : ¬ (before ++ (segment ++ byte :: rest)).length ≤ before.length + inside := by
    simp only [List.length_append, List.length_cons]
    omega
  have hdrop : (before ++ (segment ++ byte :: rest)).drop (before.length + inside) =
      segment.drop inside ++ byte :: rest := by
    rw [List.drop_length_add_append, List.drop_append_of_le_length (by omega)]
  unfold resolveStringInTable
  rw [hdrop]
  cases inside with
  | zero =>
      -- the start of the segment: nothing or a terminator stands in front of it
      have hopen : ¬ (0 < before.length + 0 ∧
          (before ++ (segment ++ byte :: rest))[before.length + 0 - 1]? ≠ some 0) := by
        rintro ⟨hpos, hne⟩
        rcases hbefore with rfl | hlast
        · exact Nat.lt_irrefl 0 hpos
        · rw [List.getElem?_append_left (by omega), Nat.add_zero,
            ← List.getLast?_eq_getElem?] at hne
          exact hne hlast
      by_cases hbyte : byte = 0
      · subst hbyte
        have hfound : ¬ (0 : UInt8) ∉ segment.drop 0 ++ 0 :: rest := by simp
        rw [if_neg (not_or.mpr ⟨hlength, not_or.mpr ⟨hopen, hfound⟩⟩), if_pos ⟨rfl, rfl⟩]
        exact congrArg some (cstringAt_segment hsegment rest)
      · have hrest : rest = [] := hend.resolve_left hbyte
        subst hrest
        rw [if_pos (Or.inr (Or.inr _)), if_neg fun h => hbyte h.2]
        · rfl
        · simpa [hsegment] using Ne.symm hbyte
  | succ inside =>
      -- inside the segment: the byte in front is not a terminator
      have hinside : 0 < before.length + (inside + 1) ∧
          (before ++ (segment ++ byte :: rest))[before.length + (inside + 1) - 1]? ≠ some 0 := by
        refine ⟨by omega, ?_⟩
        rw [show before.length + (inside + 1) - 1 = before.length + inside by omega,
          List.getElem?_append_right (by omega), Nat.add_sub_cancel_left,
          List.getElem?_append_left (by omega)]
        intro hzero
        exact hsegment (List.mem_of_getElem? hzero)
      rw [if_pos (Or.inr (Or.inl hinside)), if_neg (by omega)]
      rfl

/-! ## Requests -/

/-- What one lookup in a table finds for a request. -/
def tableName (space : SchemaStringSpace) (table : Text) (origin : ℕ) (request : NameRequest) :
    Option SchemaString :=
  (resolveStringInTable table request.offset).map fun name =>
    ⟨space, request.encodedOffset, name.bytes, origin + request.offset⟩

/-- The requests in their order, each stored in its node. -/
def storeNames (name : NameRequest → Option SchemaString) :
    List NameRequest → List SchemaNode → Option (List SchemaNode)
  | [], nodes => some nodes
  | request :: rest, nodes =>
      (name request).bind fun found => storeNames name rest (request.store found nodes)

theorem storeNames_append (name : NameRequest → Option SchemaString)
    (first second : List NameRequest) (nodes : List SchemaNode) :
    storeNames name (first ++ second) nodes =
      (storeNames name first nodes).bind (storeNames name second) := by
  induction first generalizing nodes with
  | nil => rfl
  | cons request first ih =>
      rw [List.cons_append, storeNames, storeNames]
      cases name request with
      | none => rfl
      | some found => exact ih _

theorem storeNames_congr {name name' : NameRequest → Option SchemaString}
    {requests : List NameRequest} (h : ∀ request ∈ requests, name request = name' request)
    (nodes : List SchemaNode) : storeNames name requests nodes = storeNames name' requests nodes := by
  induction requests generalizing nodes with
  | nil => rfl
  | cons request requests ih =>
      obtain ⟨hrequest, hrest⟩ := List.forall_mem_cons.mp h
      rw [storeNames, storeNames, hrequest]
      exact congrArg (Option.bind _) (funext fun found => ih hrest _)

/-- A request without a name stops the rest. -/
theorem storeNames_eq_none {name : NameRequest → Option SchemaString} {request : NameRequest}
    {requests : List NameRequest} (hmem : request ∈ requests) (h : name request = none)
    (nodes : List SchemaNode) : storeNames name requests nodes = none := by
  induction requests generalizing nodes with
  | nil => cases hmem
  | cons first requests ih =>
      rw [storeNames]
      rcases List.mem_cons.mp hmem with rfl | hmem
      · rw [h]
        rfl
      · cases name first with
        | none => rfl
        | some found => exact ih hmem _

section

variable {α : Type} {p q : α → Bool}

/-- What a weaker test takes, a stronger one takes first. -/
theorem takeWhile_split (h : ∀ a, p a = true → q a = true) (xs : List α) :
    xs.takeWhile q = xs.takeWhile p ++ (xs.dropWhile p).takeWhile q := by
  induction xs with
  | nil => rfl
  | cons x xs ih =>
      by_cases hp : p x = true
      · rw [List.takeWhile_cons_of_pos hp, List.dropWhile_cons_of_pos hp,
          List.takeWhile_cons_of_pos (h x hp), ih, List.cons_append]
      · rw [List.takeWhile_cons_of_neg hp, List.dropWhile_cons_of_neg hp, List.nil_append]

theorem dropWhile_split (h : ∀ a, p a = true → q a = true) (xs : List α) :
    xs.dropWhile q = (xs.dropWhile p).dropWhile q := by
  induction xs with
  | nil => rfl
  | cons x xs ih =>
      by_cases hp : p x = true
      · rw [List.dropWhile_cons_of_pos hp, List.dropWhile_cons_of_pos (h x hp), ih]
      · rw [List.dropWhile_cons_of_neg hp]

end

/-! ## The scan of a table -/

def NameRequest.InSpace (request : NameRequest) (space : SchemaStringSpace) : Prop :=
  request.isCommon = (space == .commonExact35)

instance (request : NameRequest) (space : SchemaStringSpace) : Decidable (request.InSpace space) := by
  unfold NameRequest.InSpace
  infer_instance

/-- The requests for a table come first, sorted by their offsets into it. -/
def NameRequest.Before (space : SchemaStringSpace) (a b : NameRequest) : Prop :=
  b.InSpace space → a.InSpace space ∧ a.offset ≤ b.offset

def inSpace (space : SchemaStringSpace) (request : NameRequest) : Bool :=
  decide (request.InSpace space)

/-- A request for the table, in front of an end. -/
def below (space : SchemaStringSpace) (stop : ℕ) (request : NameRequest) : Bool :=
  decide (request.InSpace space ∧ request.offset < stop)

/-- What a lookup finds between a start and an end. -/
def IsSegment (table : Text) (start stop : ℕ) (terminated : Bool) : Prop :=
  ∀ offset, start ≤ offset → offset < stop →
    (resolveStringInTable table offset).map CString.bytes =
      if offset = start ∧ terminated = true then some ((table.drop start).take (stop - start - 1))
      else none

/-- Storing names, one unit of work each. -/
def namesPlan (name : NameRequest → Option SchemaString) (requests : List NameRequest)
    (nodes : List SchemaNode) : Decoder Work (List SchemaNode) := do
  Decoder.spend ⟨requests.length⟩
  Decoder.ofOption (storeNames name requests nodes)

section Follows

variable {limits : SchemaLimits} {compile : SchemaCompile} {space : SchemaStringSpace}
  {table : Text} {origin start stop : ℕ} {terminated : Bool}

theorem tableName_of_segment (hsegment : IsSegment table start stop terminated)
    {request : NameRequest} (hlow : start ≤ request.offset) (hhigh : request.offset < stop) :
    tableName space table origin request =
      if request.offset = start ∧ terminated = true then
        some ⟨space, request.encodedOffset, (table.drop start).take (stop - start - 1),
          origin + start⟩
      else none := by
  have hfound := hsegment request.offset hlow hhigh
  unfold tableName
  by_cases hnamed : request.offset = start ∧ terminated = true
  · rw [if_pos hnamed] at hfound ⊢
    obtain ⟨name, hname, hbytes⟩ := Option.map_eq_some_iff.mp hfound
    rw [hname, Option.map_some, hbytes, hnamed.1]
  · rw [if_neg hnamed] at hfound ⊢
    rw [Option.map_eq_none_iff.mp hfound]
    rfl

theorem follows_resolveRequest (hsegment : IsSegment table start stop terminated)
    {request : NameRequest} (hlow : start ≤ request.offset) (hhigh : request.offset < stop)
    (nodes : List SchemaNode) (hs : compile.workUsed ≤ limits.maxWork) :
    (schemaMeter limits.maxWork).Follows SchemaReject.CitesWork compile
      (resolveRequest limits space table origin start stop terminated request nodes)
      (namesPlan (tableName space table origin) [request] nodes) := by
  refine ((follows_chargeSchema hs 1 _ _ _ _).bind hs fun _ d _ _ hs =>
    (Meter.follows_require hs _ _).bind hs fun _ d _ _ hs =>
    (Meter.follows_require hs _ _).bind hs fun _ d _ _ hs =>
    Meter.follows_pure hs _).decoder_congr ?_
  have hstore : storeNames (tableName space table origin) [request] nodes =
      (tableName space table origin request).map fun name => request.store name nodes := by
    rw [storeNames]
    cases tableName space table origin request <;> rfl
  rw [← Work.require_and, namesPlan, hstore, tableName_of_segment hsegment hlow hhigh]
  by_cases hnamed : request.offset = start ∧ terminated = true
  · rw [if_pos hnamed, Work.require_pos hnamed]
    rfl
  · rw [if_neg hnamed, Work.require_neg hnamed]
    rfl

theorem namesPlan_append (name : NameRequest → Option SchemaString)
    (first second : List NameRequest) (nodes : List SchemaNode) :
    namesPlan name (first ++ second) nodes =
      (namesPlan name first nodes >>= namesPlan name second) := by
  funext at_
  rw [namesPlan, namesPlan, Work.bind_assoc, storeNames_append]
  cases storeNames name first nodes with
  | none => rfl
  | some stored =>
      have hrest : (Decoder.ofOption (some stored) >>= namesPlan name second) =
          namesPlan name second stored := Work.pure_bind stored _
      rw [hrest, Option.bind_some, namesPlan]
      cases storeNames name second stored with
      | none => rfl
      | some nodes =>
          refine congrArg some (Prod.ext rfl (Work.ext ?_))
          show (first ++ second).length + 0 = first.length + (second.length + 0)
          rw [List.length_append]
          omega

/-- The requests of a segment are resolved up to the first one behind it. -/
theorem follows_resolveSegment (hsegment : IsSegment table start stop terminated)
    {requests : List NameRequest} (hlow : ∀ request ∈ requests, request.InSpace space →
      start ≤ request.offset) (nodes : List SchemaNode) (hs : compile.workUsed ≤ limits.maxWork) :
    (schemaMeter limits.maxWork).Follows SchemaReject.CitesWork compile
      (resolveSegment limits space table origin start stop terminated requests nodes)
      (do
        let nodes ← namesPlan (tableName space table origin)
          (requests.takeWhile (below space stop)) nodes
        return (nodes, requests.dropWhile (below space stop))) := by
  induction requests generalizing nodes compile with
  | nil =>
      refine (Meter.follows_pure (m := schemaMeter limits.maxWork) hs _).decoder_congr ?_
      rfl
  | cons request rest ih =>
      rw [resolveSegment]
      by_cases hbelow : below space stop request = true
      · obtain ⟨hspace, hhigh⟩ := of_decide_eq_true hbelow
        have hstays : ¬ (request.isCommon ≠ (space == .commonExact35) ∨ stop ≤ request.offset) :=
          fun h => h.elim (fun hne => hne hspace) (Nat.not_le.mpr hhigh)
        obtain ⟨hlow, hrest⟩ := List.forall_mem_cons.mp hlow
        rw [if_neg hstays, List.takeWhile_cons_of_pos hbelow, List.dropWhile_cons_of_pos hbelow]
        refine ((follows_resolveRequest hsegment (hlow hspace) hhigh nodes hs).bind hs
          fun nodes d _ _ hs => ih hrest nodes hs).decoder_congr ?_
        rw [← List.singleton_append, namesPlan_append, Work.bind_assoc]
      · have hleaves : request.isCommon ≠ (space == .commonExact35) ∨ stop ≤ request.offset := by
          by_contra hstays
          simp only [not_or, not_not, Nat.not_le] at hstays
          exact hbelow (decide_eq_true hstays)
        rw [if_pos hleaves, List.takeWhile_cons_of_neg hbelow, List.dropWhile_cons_of_neg hbelow]
        exact (Meter.follows_pure (m := schemaMeter limits.maxWork) hs _).decoder_congr rfl

theorem below_mono {stop' : ℕ} (h : stop ≤ stop') (request : NameRequest)
    (hbelow : below space stop request = true) : below space stop' request = true := by
  obtain ⟨hspace, hlt⟩ := of_decide_eq_true hbelow
  exact decide_eq_true ⟨hspace, by omega⟩

/-- Behind a segment, the requests for the table are behind it. -/
theorem le_offset_of_dropWhile {requests : List NameRequest}
    (hsorted : requests.Pairwise (NameRequest.Before space)) {request : NameRequest}
    (hmem : request ∈ requests.dropWhile (below space stop)) (hspace : request.InSpace space) :
    stop ≤ request.offset := by
  induction requests with
  | nil => cases hmem
  | cons first requests ih =>
      obtain ⟨hfirst, hrest⟩ := List.pairwise_cons.mp hsorted
      by_cases hbelow : below space stop first = true
      · rw [List.dropWhile_cons_of_pos hbelow] at hmem
        exact ih hrest hmem
      · rw [List.dropWhile_cons_of_neg hbelow] at hmem
        have hout : first.InSpace space → stop ≤ first.offset := by
          intro hin
          by_contra hlt
          exact hbelow (decide_eq_true ⟨hin, Nat.lt_of_not_le hlt⟩)
        rcases List.mem_cons.mp hmem with rfl | hmem
        · exact hout hspace
        · obtain ⟨hin, hle⟩ := hfirst request hmem hspace
          exact Nat.le_trans (hout hin) hle

theorem isSegment_of {before segment rest : Text} {byte : UInt8}
    (htable : table = before ++ (segment ++ byte :: rest))
    (hbefore : before = [] ∨ before.getLast? = some 0) (hsegment : (0 : UInt8) ∉ segment)
    (hend : byte = 0 ∨ rest = []) :
    IsSegment table before.length (before.length + segment.length + 1) (byte == 0) := by
  intro offset hlow hhigh
  have hslice : (table.drop before.length).take
      (before.length + segment.length + 1 - before.length - 1) = segment := by
    rw [htable, List.drop_left, show before.length + segment.length + 1 - before.length - 1 =
      segment.length by omega, List.take_left]
  rw [hslice, htable, resolve_segment hbefore hsegment hend hlow (by omega)]
  simp only [beq_iff_eq]

/-- The requests before an end of the table, with the scan of the bytes left. -/
def cursorPlan (space : SchemaStringSpace) (table : Text) (origin left : ℕ)
    (requests : List NameRequest) (nodes : List SchemaNode) :
    Decoder Work (List SchemaNode × List NameRequest) := do
  Decoder.spend ⟨left⟩
  let nodes ← namesPlan (tableName space table origin)
    (requests.takeWhile (below space table.length)) nodes
  return (nodes, requests.dropWhile (below space table.length))

/-- A segment's requests first. -/
theorem cursorPlan_split {stop left : ℕ} (hstop : stop ≤ table.length)
    (requests : List NameRequest) (nodes : List SchemaNode) :
    (do
      Decoder.spend ⟨1⟩
      let nodes ← namesPlan (tableName space table origin)
        (requests.takeWhile (below space stop)) nodes
      cursorPlan space table origin left (requests.dropWhile (below space stop)) nodes) =
      cursorPlan space table origin (left + 1) requests nodes := by
  unfold cursorPlan
  rw [Work.spend_comm, Work.spend_spend, Nat.add_comm 1 left,
    takeWhile_split (below_mono hstop) requests, dropWhile_split (below_mono hstop) requests,
    namesPlan_append, Work.bind_assoc]

/-- **The scan from a cursor on** finds what the lookups of the requests before
the end of the table find. -/
theorem follows_resolveCursor (before segment : Text) {rest : Text}
    (htable : table = before ++ (segment ++ rest))
    (hbefore : rest ≠ [] → before = [] ∨ before.getLast? = some 0)
    (hsegment : (0 : UInt8) ∉ segment) (hopen : rest = [] → segment = [])
    {requests : List NameRequest} (hsorted : requests.Pairwise (NameRequest.Before space))
    (hlow : ∀ request ∈ requests, request.InSpace space → before.length ≤ request.offset)
    (nodes : List SchemaNode) (hs : compile.workUsed ≤ limits.maxWork) :
    (schemaMeter limits.maxWork).Follows SchemaReject.CitesWork compile
      (resolveCursor limits space table origin before.length (before.length + segment.length) rest
        requests nodes)
      (cursorPlan space table origin rest.length requests nodes) := by
  induction rest generalizing before segment requests nodes compile with
  | nil =>
      have hend : table.length = before.length := by rw [htable, hopen rfl]; simp
      -- at the end of the table: what is left asks for another space
      have hstays : requests.takeWhile (below space table.length) = [] ∧
          requests.dropWhile (below space table.length) = requests := by
        cases requests with
        | nil => exact ⟨rfl, rfl⟩
        | cons request requests =>
            have hout : ¬ below space table.length request = true := by
              intro hbelow
              obtain ⟨hspace, hlt⟩ := of_decide_eq_true hbelow
              have := hlow request (List.mem_cons_self ..) hspace
              omega
            exact ⟨List.takeWhile_cons_of_neg hout, List.dropWhile_cons_of_neg hout⟩
      rw [cursorPlan, hstays.1, hstays.2]
      exact (Meter.follows_pure (m := schemaMeter limits.maxWork) hs _).decoder_congr rfl
  | cons byte rest ih =>
      rw [resolveCursor]
      by_cases hmore : byte ≠ 0 ∧ rest ≠ []
      -- the byte goes on with the segment: nothing is resolved yet
      · have hnext := fun (compile : SchemaCompile) (hs : compile.workUsed ≤ limits.maxWork) =>
          ih before (segment ++ [byte]) (by simp [htable]) (fun _ => hbefore (by simp))
            (by simpa using ⟨hsegment, Ne.symm hmore.1⟩) (fun h => absurd h hmore.2) hsorted hlow
            nodes hs
        have hcursor : before.length + (segment ++ [byte]).length =
            before.length + segment.length + 1 := by
          simp [Nat.add_assoc]
        rw [hcursor] at hnext
        rw [if_pos hmore]
        refine ((follows_chargeSchema hs 1 _ _ _ _).bind hs fun _ d _ _ hs =>
          hnext _ hs).decoder_congr ?_
        rw [cursorPlan, cursorPlan, Work.spend_spend, Nat.add_comm]
        rfl
      -- the byte ends the segment: the requests before the cursor are resolved here
      · have hend : byte = 0 ∨ rest = [] := by
          by_contra hne
          exact hmore (not_or.mp hne)
        have hlength : (before ++ (segment ++ [byte])).length =
            before.length + segment.length + 1 := by
          simp [Nat.add_assoc]
        have hlast : rest ≠ [] → before ++ (segment ++ [byte]) = [] ∨
            (before ++ (segment ++ [byte])).getLast? = some 0 := by
          intro hne
          rw [hend.resolve_right hne]
          simp
        have hscanned := isSegment_of htable (hbefore (by simp)) hsegment hend
        -- the requests are sorted, so those left start behind the segment
        have hbehind : ∀ request ∈ requests.dropWhile
            (below space (before.length + segment.length + 1)), request.InSpace space →
            (before ++ (segment ++ [byte])).length ≤ request.offset := by
          intro request hmem hspace
          rw [hlength]
          exact le_offset_of_dropWhile hsorted hmem hspace
        have hnext := fun (compile : SchemaCompile) (nodes : List SchemaNode)
            (hs : compile.workUsed ≤ limits.maxWork) =>
          ih (before ++ (segment ++ [byte])) [] (by simp [htable]) hlast (by simp) (fun _ => rfl)
            (hsorted.sublist (List.dropWhile_sublist _)) hbehind nodes hs
        simp only [List.length_nil, Nat.add_zero, hlength] at hnext
        rw [if_neg hmore]
        refine ((follows_chargeSchema hs 1 _ _ _ _).bind hs fun _ d _ _ hs =>
          (follows_resolveSegment hscanned hlow nodes hs).bind
            (Q := fun resolved => cursorPlan space table origin rest.length resolved.2 resolved.1)
            hs fun resolved d hresolved _ hs => ?_).decoder_congr ?_
        · obtain ⟨stored, _, _, -, hpure, -⟩ := Work.bind_eq_some.mp hresolved
          obtain ⟨rfl, -⟩ := Decoder.pure_eq_some.mp hpure
          exact hnext _ stored hs
        · have hstop : before.length + segment.length + 1 ≤ table.length := by
            rw [htable]
            simp only [List.length_append, List.length_cons]
            omega
          rw [List.length_cons, ← cursorPlan_split hstop]
          simp only [Work.bind_assoc, Work.pure_bind]

/-! ## Both tables -/

/-- The requests of a table that come first, with the scan of its bytes. -/
def tablePlan (space : SchemaStringSpace) (table : Text) (origin : ℕ)
    (requests : List NameRequest) (nodes : List SchemaNode) :
    Decoder Work (List SchemaNode × List NameRequest) := do
  Decoder.spend ⟨table.length⟩
  let nodes ← namesPlan (tableName space table origin)
    (requests.takeWhile (inSpace space)) nodes
  return (nodes, requests.dropWhile (inSpace space))

/-- What is left behind the end of the table names nothing in it. -/
theorem tablePlan_split (requests : List NameRequest) (nodes : List SchemaNode) :
    tablePlan space table origin requests nodes =
      (cursorPlan space table origin table.length requests nodes >>= fun resolved => do
        let nodes ← namesPlan (tableName space table origin)
          (resolved.2.takeWhile (inSpace space)) resolved.1
        return (nodes, resolved.2.dropWhile (inSpace space))) := by
  have hweak : ∀ request : NameRequest, below space table.length request = true →
      inSpace space request = true :=
    fun request hbelow => decide_eq_true (of_decide_eq_true hbelow).1
  unfold tablePlan cursorPlan
  rw [takeWhile_split hweak, dropWhile_split hweak, namesPlan_append]
  simp only [Work.bind_assoc, Work.pure_bind]

theorem tableName_behind {request : NameRequest} (h : table.length ≤ request.offset) :
    tableName space table origin request = none := by
  unfold tableName resolveStringInTable
  rw [if_pos (Or.inl h)]
  rfl

theorem follows_resolveTable {requests : List NameRequest}
    (hsorted : requests.Pairwise (NameRequest.Before space)) (nodes : List SchemaNode)
    (hs : compile.workUsed ≤ limits.maxWork) :
    (schemaMeter limits.maxWork).Follows SchemaReject.CitesWork compile
      (resolveTable limits space table origin requests nodes)
      (tablePlan space table origin requests nodes) := by
  have hscan : (schemaMeter limits.maxWork).Follows SchemaReject.CitesWork compile
      (resolveCursor limits space table origin 0 0 table requests nodes)
      (cursorPlan space table origin table.length requests nodes) :=
    follows_resolveCursor [] [] rfl (fun _ => Or.inl rfl) (by simp) (fun _ => rfl) hsorted
      (fun _ _ _ => Nat.zero_le _) nodes hs
  rw [tablePlan_split]
  refine hscan.bind hs fun resolved d hresolved _ hs => ?_
  obtain ⟨stored, left⟩ := resolved
  cases left with
  | nil => exact (Meter.follows_pure (m := schemaMeter limits.maxWork) hs _).decoder_congr rfl
  | cons request rest =>
      by_cases hspace : request.InSpace space
      · -- what is left of the table's own requests is behind its end
        have hbehind : table.length ≤ request.offset := by
          obtain ⟨_, _, _, -, hcursor, -⟩ := Work.bind_eq_some.mp hresolved
          obtain ⟨_, _, _, -, hpure, -⟩ := Work.bind_eq_some.mp hcursor
          obtain ⟨hleft, -⟩ := Decoder.pure_eq_some.mp hpure
          have hdrop : requests.dropWhile (below space table.length) = request :: rest :=
            congrArg Prod.snd hleft
          exact le_offset_of_dropWhile hsorted (hdrop ▸ List.mem_cons_self ..) hspace
        have hnone : storeNames (tableName space table origin)
            ((request :: rest).takeWhile (inSpace space)) stored = none := by
          refine storeNames_eq_none ?_ (tableName_behind hbehind) stored
          have hin : inSpace space request = true := decide_eq_true hspace
          rw [List.takeWhile_cons_of_pos hin]
          exact List.mem_cons_self ..
        -- so the pass rejects it, as the plan does
        have hfails := (follows_chargeSchema hs 1 request.field
          (some (request.slot / namesPerNode)) (schemaErrorSpace space)
          (request.errorOffset stored space)).bind hs fun _ d _ _ hs =>
            Meter.follows_fail (α := List SchemaNode × List NameRequest) hs
              (⟨.invalidStringOffset, .none, request.field, some (request.slot / namesPerNode),
                schemaErrorSpace space, request.errorOffset stored space⟩ : SchemaReject)
        refine (hfails.congr fun answers n => ?_).decoder_congr ?_
        · simp only [if_pos (show request.isCommon = (space == .commonExact35) from hspace)]
        · rw [namesPlan, hnone]
          rfl
      · refine ((Meter.follows_pure (m := schemaMeter limits.maxWork) hs
          (stored, request :: rest)).congr fun answers n => ?_).decoder_congr ?_
        · simp only [if_neg (show ¬ request.isCommon = (space == .commonExact35) from hspace)]
        · have hout : ¬ inSpace space request = true := fun h => hspace (of_decide_eq_true h)
          rw [List.takeWhile_cons_of_neg hout, List.dropWhile_cons_of_neg hout]
          rfl

end Follows

/-! ## Every request -/

theorem offset_eq (request : NameRequest) :
    request.offset = request.encodedOffset.toNat % 2 ^ 31 := by
  rw [NameRequest.offset, UInt32.toNat_and]
  exact Nat.and_two_pow_sub_one_eq_mod _ 31

theorem isCommon_iff (request : NameRequest) :
    request.isCommon = true ↔ 2 ^ 31 ≤ request.encodedOffset.toNat := by
  have hlt : request.encodedOffset.toNat < 2 ^ 32 := request.encodedOffset.toNat_lt
  have hbit : (request.encodedOffset &&& 0x80000000).toNat =
      (request.encodedOffset.toNat.testBit 31).toNat * 2 ^ 31 := by
    rw [UInt32.toNat_and]
    exact Nat.and_two_pow _ 31
  have hzero : request.encodedOffset &&& 0x80000000 = 0 ↔
      (request.encodedOffset &&& 0x80000000).toNat = 0 := by
    rw [← UInt32.toNat_inj]
    rfl
  rw [NameRequest.isCommon, bne_iff_ne, ne_eq, hzero, hbit, Nat.testBit_eq_decide_div_mod_eq]
  by_cases hhigh : request.encodedOffset.toNat / 2 ^ 31 % 2 = 1
  · rw [decide_eq_true hhigh, Bool.toNat_true]
    omega
  · rw [decide_eq_false hhigh, Bool.toNat_false]
    omega

/-- What the lookup of a request finds. -/
def requestName (localTable : Text) (origin : ℕ) (request : NameRequest) : Option SchemaString :=
  if request.isCommon then tableName .commonExact35 commonStringTable 0 request
  else tableName .local localTable origin request

/-- **What is stored for a request is what its own offset resolves to.** -/
theorem requestName_bytes (localTable : Text) (origin : ℕ) (request : NameRequest) :
    (requestName localTable origin request).map SchemaString.bytes =
      (typetreeResolveString localTable request.encodedOffset).map CString.bytes := by
  unfold requestName typetreeResolveString
  by_cases hcommon : request.isCommon = true
  · have hbit : request.encodedOffset &&& 0x80000000 ≠ 0 := bne_iff_ne.mp hcommon
    rw [if_pos hcommon, if_pos hbit, tableName, Option.map_map]
    rfl
  · have hbit : ¬ request.encodedOffset &&& 0x80000000 ≠ 0 :=
      fun hbit => hcommon (bne_iff_ne.mpr hbit)
    have hlt : request.encodedOffset.toNat < 2 ^ 31 :=
      Nat.lt_of_not_le fun hle => hcommon ((isCommon_iff request).mpr hle)
    rw [if_neg hcommon, if_neg hbit, tableName, Option.map_map, offset_eq, Nat.mod_eq_of_lt hlt]
    rfl

section

variable {requests : List NameRequest}

def NameRequest.Sorted (requests : List NameRequest) : Prop :=
  requests.Pairwise fun a b => a.encodedOffset.toNat ≤ b.encodedOffset.toNat

theorem inSpace_local (request : NameRequest) :
    inSpace .local request = true ↔ request.isCommon = false := decide_eq_true_iff

theorem inSpace_common (request : NameRequest) :
    inSpace .commonExact35 request = true ↔ request.isCommon = true := decide_eq_true_iff

theorem before_of_le {a b : NameRequest} (hle : a.encodedOffset.toNat ≤ b.encodedOffset.toNat)
    (hsame : a.isCommon = b.isCommon) : a.offset ≤ b.offset := by
  have ha := a.encodedOffset.toNat_lt
  have hb := b.encodedOffset.toNat_lt
  have hspace : 2 ^ 31 ≤ a.encodedOffset.toNat ↔ 2 ^ 31 ≤ b.encodedOffset.toNat := by
    rw [← isCommon_iff, ← isCommon_iff, hsame]
  rw [offset_eq, offset_eq]
  omega

theorem before_local (h : NameRequest.Sorted requests) :
    requests.Pairwise (NameRequest.Before .local) := by
  refine h.imp fun {a b} hle hspace => ?_
  have hb : b.isCommon = false := hspace
  have ha : a.isCommon = false := by
    by_contra hne
    have hhigh := (isCommon_iff a).mp (by simpa using hne)
    have := (isCommon_iff b).mpr (by omega)
    rw [hb] at this
    cases this
  exact ⟨ha, before_of_le hle (ha.trans hb.symm)⟩

/-- Behind the requests for the local table come those for the common one. -/
theorem common_of_dropWhile (h : NameRequest.Sorted requests) {request : NameRequest}
    (hmem : request ∈ requests.dropWhile (inSpace .local)) : request.isCommon = true := by
  induction requests with
  | nil => cases hmem
  | cons first requests ih =>
      obtain ⟨hfirst, hrest⟩ := List.pairwise_cons.mp h
      by_cases hlocal : inSpace .local first = true
      · rw [List.dropWhile_cons_of_pos hlocal] at hmem
        exact ih hrest hmem
      · rw [List.dropWhile_cons_of_neg hlocal] at hmem
        have hcommon : first.isCommon = true := by
          rw [inSpace_local] at hlocal
          simpa using hlocal
        rcases List.mem_cons.mp hmem with rfl | hmem
        · exact hcommon
        · rw [isCommon_iff] at hcommon ⊢
          exact Nat.le_trans hcommon (hfirst request hmem)

theorem before_common (h : NameRequest.Sorted requests) :
    (requests.dropWhile (inSpace .local)).Pairwise (NameRequest.Before .commonExact35) := by
  refine (h.sublist (List.dropWhile_sublist _)).imp_of_mem fun {a b} ha hb hle _ => ?_
  have ha := common_of_dropWhile h ha
  exact ⟨ha, before_of_le hle (ha.trans (common_of_dropWhile h hb).symm)⟩

end

theorem namesPlan_congr {name name' : NameRequest → Option SchemaString}
    {requests : List NameRequest} (h : ∀ request ∈ requests, name request = name' request)
    (nodes : List SchemaNode) : namesPlan name requests nodes = namesPlan name' requests nodes := by
  rw [namesPlan, namesPlan, storeNames_congr h]

/-- **Both scans** find what the lookups of all the requests find. -/
theorem follows_resolveNames {limits : SchemaLimits} {compile : SchemaCompile} (mapped : Text)
    (stringsSource : PrefixSpan) {requests : List NameRequest} (h : NameRequest.Sorted requests)
    (nodes : List SchemaNode) (hs : compile.workUsed ≤ limits.maxWork) :
    (schemaMeter limits.maxWork).Follows SchemaReject.CitesWork compile
      (resolveNames limits mapped stringsSource requests nodes)
      (do
        Decoder.spend ⟨(stringsSource.bytes mapped).length + commonStringTable.length⟩
        namesPlan (requestName (stringsSource.bytes mapped) stringsSource.offset) requests
          nodes) := by
  refine ((follows_resolveTable (before_local h) nodes hs).bind
    (Q := fun resolved => do
      let resolved ← tablePlan .commonExact35 commonStringTable 0 resolved.2 resolved.1
      Decoder.require (resolved.2 = [])
      return resolved.1) hs fun resolved d hresolved _ hs => ?_).decoder_congr ?_
  · obtain ⟨_, hresolved, -⟩ := Work.spend_bind_eq_some.mp hresolved
    obtain ⟨stored, _, _, -, hpure, -⟩ := Work.bind_eq_some.mp hresolved
    obtain ⟨rfl, -⟩ := Decoder.pure_eq_some.mp hpure
    exact (follows_resolveTable (before_common h) stored hs).bind hs fun resolved d _ _ hs =>
      (Meter.follows_require hs _ _).bind hs fun _ d _ _ hs => Meter.follows_pure hs _
  -- the requests are sorted by space, so each scan finds what it is asked for
  · have hlocal : ∀ request ∈ requests.takeWhile (inSpace .local),
        requestName (stringsSource.bytes mapped) stringsSource.offset request =
          tableName .local (stringsSource.bytes mapped) stringsSource.offset request := by
      intro request hmem
      have hspace := (inSpace_local request).mp (List.mem_takeWhile_imp hmem)
      rw [requestName, hspace]
      rfl
    have hcommon : ∀ request ∈ requests.dropWhile (inSpace .local),
        requestName (stringsSource.bytes mapped) stringsSource.offset request =
          tableName .commonExact35 commonStringTable 0 request := by
      intro request hmem
      rw [requestName, if_pos (common_of_dropWhile h hmem)]
    have hall : ∀ request ∈ requests.dropWhile (inSpace .local),
        inSpace .commonExact35 request = true :=
      fun request hmem => (inSpace_common request).mpr (common_of_dropWhile h hmem)
    have hsplit := List.takeWhile_append_dropWhile (p := inSpace .local) (l := requests)
    conv_lhs => rw [← hsplit]
    rw [namesPlan_append, namesPlan_congr hlocal, funext (namesPlan_congr hcommon), ← Work.spend_spend]
    unfold tablePlan
    simp only [Work.bind_assoc, Work.pure_bind, List.takeWhile_eq_self_iff.mpr hall,
      List.dropWhile_eq_nil_iff.mpr hall, Work.require_pos, Work.bind_pure]
    rw [Work.spend_comm _ (namesPlan _ _ _)]

/-! ## The order does not show -/

section

variable (name : NameRequest → Option SchemaString)

/-- Storing what a lookup finds. -/
def storeFound (nodes : List SchemaNode) (request : NameRequest) : List SchemaNode :=
  request.store ((name request).getD .zeroed) nodes

/-- A node with the names that its own offsets find. -/
def SchemaNode.named (node : SchemaNode) : SchemaNode :=
  { node with
    typeName := (name ⟨node.typeOffsetBits, node.ordinal * namesPerNode⟩).getD .zeroed
    fieldName := (name ⟨node.nameOffsetBits, node.ordinal * namesPerNode + 1⟩).getD .zeroed }

variable {name}

theorem storeNames_eq_foldl {requests : List NameRequest}
    (h : ∀ request ∈ requests, (name request).isSome) (nodes : List SchemaNode) :
    storeNames name requests nodes = some (requests.foldl (storeFound name) nodes) := by
  induction requests generalizing nodes with
  | nil => rfl
  | cons request requests ih =>
      obtain ⟨hrequest, hrest⟩ := List.forall_mem_cons.mp h
      obtain ⟨found, hfound⟩ := Option.isSome_iff_exists.mp hrequest
      rw [storeNames, hfound, Option.bind_some, ih hrest, List.foldl_cons, storeFound, hfound]
      rfl

/-- Names in different slots. -/
theorem store_comm {a b : NameRequest} (hne : a.slot ≠ b.slot) (found found' : SchemaString)
    (nodes : List SchemaNode) :
    b.store found' (a.store found nodes) = a.store found (b.store found' nodes) := by
  unfold NameRequest.store
  by_cases hnode : a.slot / namesPerNode = b.slot / namesPerNode
  · have hfield : a.isField ≠ b.isField := by
      intro hsame
      have hmod : (a.slot % namesPerNode != 0) = (b.slot % namesPerNode != 0) := hsame
      have ha : a.slot % 2 < 2 := Nat.mod_lt _ (by decide)
      have hb : b.slot % 2 < 2 := Nat.mod_lt _ (by decide)
      simp only [namesPerNode] at hmod hnode
      rw [Bool.eq_iff_iff, bne_iff_ne, bne_iff_ne] at hmod
      omega
    rw [hnode, List.modify_modify_eq, List.modify_modify_eq]
    congr 1
    funext node
    simp only [Function.comp_apply]
    cases ha : a.isField <;> cases hb : b.isField <;> simp_all
  · rw [List.modify_modify_ne _ _ _ (Ne.symm hnode)]

/-- The ordinals count the nodes from a start on. -/
def OrdinalsFrom (start : ℕ) (nodes : List SchemaNode) : Prop :=
  ∀ (i : ℕ) (node : SchemaNode), nodes[i]? = some node → node.ordinal = start + i

/-- A slot belongs to one request. -/
theorem slot_of_mem {start : ℕ} {nodes : List SchemaNode} (hordinal : OrdinalsFrom start nodes) {a b : NameRequest}
    (ha : a ∈ nodes.flatMap nodeRequests) (hb : b ∈ nodes.flatMap nodeRequests)
    (hslot : a.slot = b.slot) : a = b := by
  obtain ⟨first, hfirst, ha⟩ := List.mem_flatMap.mp ha
  obtain ⟨second, hsecond, hb⟩ := List.mem_flatMap.mp hb
  obtain ⟨i, hi⟩ := List.mem_iff_getElem?.mp hfirst
  obtain ⟨j, hj⟩ := List.mem_iff_getElem?.mp hsecond
  have hfirstOrdinal := hordinal i first hi
  have hsecondOrdinal := hordinal j second hj
  have hsame : first.ordinal = second.ordinal → first = second := by
    intro h
    obtain rfl : i = j := by omega
    rw [hi] at hj
    exact Option.some.inj hj
  simp only [nodeRequests, List.mem_cons, List.not_mem_nil, or_false] at ha hb
  rcases ha with rfl | rfl <;> rcases hb with rfl | rfl <;>
    simp only [namesPerNode] at hslot ⊢
  · rw [hsame (by omega)]
  · omega
  · omega
  · rw [hsame (by omega)]

/-- In the order of the nodes, each gets its own names. -/
theorem foldl_storeFound (stored nodes : List SchemaNode)
    (hordinal : OrdinalsFrom stored.length nodes) :
    (nodes.flatMap nodeRequests).foldl (storeFound name) (stored ++ nodes) =
      stored ++ nodes.map (SchemaNode.named name) := by
  induction nodes generalizing stored with
  | nil => rfl
  | cons node nodes ih =>
      have hnode : node.ordinal = stored.length := hordinal 0 node rfl
      have hplace : ∀ (f : SchemaNode → SchemaNode) (first : SchemaNode),
          (stored ++ first :: nodes).modify stored.length f = stored ++ f first :: nodes := by
        intro f first
        rw [List.modify_eq_take_cons_drop (by simp)]
        simp
      have hfirst : (nodeRequests node).foldl (storeFound name) (stored ++ node :: nodes) =
          (stored ++ [node.named name]) ++ nodes := by
        have htype : node.ordinal * namesPerNode / namesPerNode = stored.length := by
          rw [hnode]
          exact Nat.mul_div_cancel _ (by decide)
        have hfield : (node.ordinal * namesPerNode + 1) / namesPerNode = stored.length := by
          rw [hnode]
          simp only [namesPerNode]
          omega
        have htypeSlot : node.ordinal * namesPerNode % namesPerNode = 0 := Nat.mul_mod_left ..
        have hfieldSlot : (node.ordinal * namesPerNode + 1) % namesPerNode = 1 := by
          simp only [namesPerNode]
          omega
        simp only [nodeRequests, List.foldl_cons, List.foldl_nil, storeFound, NameRequest.store,
          NameRequest.isField, htype, hfield, htypeSlot, hfieldSlot, hplace]
        simp [SchemaNode.named]
      rw [List.flatMap_cons, List.foldl_append, hfirst, ih]
      · simp
      · intro i later hi
        have := hordinal (i + 1) later (by simpa using hi)
        rw [this, List.length_append, List.length_singleton]
        omega

/-- **The order does not show**: every node gets the names of its own offsets. -/
theorem storeNames_of_perm {requests : List NameRequest} {nodes : List SchemaNode}
    (hperm : requests.Perm (nodes.flatMap nodeRequests)) (hordinal : OrdinalsFrom 0 nodes)
    (h : ∀ request ∈ nodes.flatMap nodeRequests, (name request).isSome) :
    storeNames name requests nodes = some (nodes.map (SchemaNode.named name)) := by
  have hcomm : ∀ a ∈ requests, ∀ b ∈ requests, ∀ stored,
      storeFound name (storeFound name stored a) b = storeFound name (storeFound name stored b) a := by
    intro a ha b hb stored
    by_cases hslot : a.slot = b.slot
    · rw [slot_of_mem hordinal (hperm.mem_iff.mp ha) (hperm.mem_iff.mp hb) hslot]
    · exact store_comm hslot _ _ stored
  rw [storeNames_eq_foldl fun request hmem => h request (hperm.mem_iff.mp hmem),
    hperm.foldl_eq' hcomm]
  exact congrArg some (foldl_storeFound [] nodes hordinal)

end

end UnityCommon.Metadata
