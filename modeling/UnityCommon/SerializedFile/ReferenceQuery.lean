import UnityCommon.SerializedFile.SchemaContext
import UnityCommon.SerializedFile.ReferenceIndexOwner
import Mathlib.Algebra.BigOperators.Group.List.Basic

/-!
# What a reference query finds

`serialized_file_reference_index_query` over an index that was built: the rows
with the identity of the key, all of them and no other, for a work that the
index and the key determine.
-/

namespace UnityCommon.Metadata

variable {σ : Type}

/-! ## The search, said of byte strings -/

/-- The bytes of a name, its terminator removed. -/
def nameBytes (mapped : Text) (name : PrefixSpan) : Text := (name.bytes mapped).dropLast

/-- The key that the names of a row spell. -/
def TailReferenceNames.key (names : TailReferenceNames) (mapped : Text) : ReferenceKey where
  className := nameBytes mapped names.classNameSource
  namespaceName := nameBytes mapped names.namespaceSource
  assemblyName := nameBytes mapped names.assemblyNameSource

/-- Class, namespace and assembly are those of the key. -/
def TailReferenceTypeRow.answers (row : TailReferenceTypeRow) (mapped : Text)
    (key : ReferenceKey) : Bool :=
  row.names.any fun names => names.key mapped = key

/-- What is to say of the rows with these ordinals. -/
def ReferenceMatch.ofOrdinals (ordinals : List ℕ) : ReferenceMatch where
  kind :=
    match ordinals with
    | [] => .missing
    | [_] => .unique
    | _ => .ambiguous
  matchCount := ordinals.length
  firstOrdinal := ordinals[0]?
  secondOrdinal := ordinals[1]?

/-- Names with the parts that they are compared with, up to the first that
differs, which is among them. -/
def visited : List (Text × Text) → List (Text × Text)
  | [] => []
  | (name, part) :: rest => (name, part) :: if name = part then visited rest else []

/-- The bytes of the pairs of equal length. -/
def equalLengthBytes (pairs : List (Text × Text)) : ℕ :=
  ((pairs.filter fun pair => pair.1.length = pair.2.length).map fun pair => pair.1.length).sum

/-- The components of a row that are visited. -/
def TailReferenceTypeRow.visited (row : TailReferenceTypeRow) (mapped : Text)
    (key : ReferenceKey) : List (Text × Text) :=
  Metadata.visited
    ((identityParts row key).map fun part => (Metadata.nameBytes mapped part.2.1, part.2.2))

/-- `2 + N + C + B`. -/
def queryWork (mapped : Text) (index : SerializedFileReferenceIndex) (key : ReferenceKey) : ℕ :=
  2 + index.view.referenceTypeCount +
    (index.rows.map fun row => (row.visited mapped key).length).sum +
    (index.rows.map fun row => equalLengthBytes (row.visited mapped key)).sum

/-- The caps on the key, of its components and of their sum. -/
def ReferenceQueryLimits.Covers (limits : ReferenceQueryLimits) (key : ReferenceKey) : Prop :=
  (key.className.length ≤ limits.maxComponentBytes ∧
      key.namespaceName.length ≤ limits.maxComponentBytes ∧
      key.assemblyName.length ≤ limits.maxComponentBytes) ∧
    key.className.length + key.namespaceName.length + key.assemblyName.length ≤ limits.maxKeyBytes

/-! ## The incremental match -/

/-- One more match, behind those that were found. -/
theorem ReferenceMatch.add_ofOrdinals (ordinals : List ℕ) (ordinal : ℕ) :
    (ReferenceMatch.ofOrdinals ordinals).add ordinal =
      ReferenceMatch.ofOrdinals (ordinals ++ [ordinal]) := by
  match ordinals with
  | [] => rfl
  | [_] => rfl
  | _ :: _ :: rest => simp [ReferenceMatch.ofOrdinals, ReferenceMatch.add]

/-! ## The pairs of a row -/

section Pairs

variable {mapped : Text} {name : PrefixSpan}

/-- A name of an index: terminated, and inside the mapping. -/
structure PrefixSpan.Named (name : PrefixSpan) (mapped : Text) : Prop where
  size : name.size ≠ 0
  stop : name.offset + name.size ≤ mapped.length

theorem PrefixSpan.Named.length_nameBytes (hname : name.Named mapped) :
    (nameBytes mapped name).length = name.size - 1 := by
  have hstop := hname.stop
  rw [nameBytes, List.length_dropLast, PrefixSpan.bytes, List.length_take, List.length_drop]
  omega

theorem PrefixSpan.Named.take_bytes (hname : name.Named mapped) :
    (name.bytes mapped).take (name.size - 1) = nameBytes mapped name := by
  have hstop := hname.stop
  rw [nameBytes, List.dropLast_eq_take, PrefixSpan.bytes, List.length_take, List.length_drop,
    Nat.min_eq_left (by omega)]

end Pairs

/-! ## What the search needs -/

section Needs

variable {mapped : Text} {limits : ReferenceQueryLimits} {answers : ℕ → Bool} {used n : ℕ}

/-- The only resource of a search is its work. -/
def ReferenceQueryReject.CitesWork (reject : ReferenceQueryReject) (_ : Unit) : Prop :=
  reject.status = .limitExceeded ∧ reject.limit = .work

/-- A run that returns `a` for `amount` units of work. -/
def Takes {α : Type} (limits : ReferenceQueryLimits) (x : Call ReferenceQueryReject ℕ α)
    (answers : ℕ → Bool) (used n amount : ℕ) (a : α) : Prop :=
  x.Needs (· ≤ limits.maxWork) ReferenceQueryReject.CitesWork answers used n
    (fun _ => limits.maxWork < used + amount) a (used + amount) n

theorem Takes.bind {α β : Type} {x : Call ReferenceQueryReject ℕ α}
    {f : α → Call ReferenceQueryReject ℕ β} {first rest : ℕ} {a : α} {b : β}
    (hx : Takes limits x answers used n first a)
    (hf : used + first ≤ limits.maxWork → Takes limits (f a) answers (used + first) n rest b) :
    Takes limits (x >>= f) answers used n (first + rest) b := by
  rw [Takes, ← Nat.add_assoc]
  refine Call.Needs.bind_as hx (fun _ => limits.maxWork < used + first + rest) ?_ fun hroom => ?_
  · intro _
    omega
  · exact hf (Nat.le_of_not_lt (hroom ()))

theorem takes_pure {α : Type} (hused : used ≤ limits.maxWork) (a : α) :
    Takes limits (pure a) answers used n 0 a :=
  (Call.needs_pure a).short_congr fun _ => by
    rw [iff_false, Nat.add_zero]
    exact Nat.not_lt.mpr hused

theorem takes_chargeQuery (hused : used ≤ limits.maxWork) (amount : ℕ) (ordinal : Option ℕ)
    (component : IdentityComponent) :
    Takes limits (chargeQuery limits amount ordinal component) answers used n amount () := by
  unfold Takes Call.Needs
  by_cases hroom : amount ≤ limits.maxWork - used
  · refine Or.inl ⟨fun _ => by omega, ?_⟩
    exact Call.bind_eq_ok.mpr ⟨used, used, n, rfl,
      Call.require_bind_eq_ok.mpr ⟨hroom, rfl⟩⟩
  · refine Or.inr ⟨⟨.limitExceeded, .work, component, ordinal⟩, used, n, (), ?_, hused, ⟨rfl, rfl⟩,
      by omega⟩
    refine Call.bind_eq_error.mpr (Or.inr ⟨used, used, n, rfl, ?_⟩)
    exact Call.bind_eq_error.mpr (Or.inl (by rw [Call.require, if_neg hroom]))

/-- What the components of a row cost. -/
def pairsWork (pairs : List (Text × Text)) : ℕ :=
  (visited pairs).length + equalLengthBytes (visited pairs)

theorem pairsWork_of_length_ne {name part : Text} (hlength : name.length ≠ part.length)
    (rest : List (Text × Text)) : pairsWork ((name, part) :: rest) = 1 := by
  have hne : name ≠ part := fun h => hlength (congrArg List.length h)
  simp [pairsWork, visited, equalLengthBytes, hne, hlength]

theorem pairsWork_of_ne {name part : Text} (hlength : name.length = part.length) (hne : name ≠ part)
    (rest : List (Text × Text)) : pairsWork ((name, part) :: rest) = 1 + name.length := by
  simp [pairsWork, visited, equalLengthBytes, hne, hlength]

theorem pairsWork_self (name : Text) (rest : List (Text × Text)) :
    pairsWork ((name, name) :: rest) = 1 + name.length + pairsWork rest := by
  simp only [pairsWork, visited, equalLengthBytes, if_pos, List.length_cons, decide_true,
    List.filter_cons_of_pos, List.map_cons, List.sum_cons]
  omega

/-- **The components of one row**, up to the first that differs. -/
theorem takes_queryComponents (ordinal : ℕ) (parts : List (IdentityComponent × PrefixSpan × Text))
    (hparts : ∀ part ∈ parts, part.2.1.Named mapped) (hused : used ≤ limits.maxWork) :
    let pairs := parts.map fun part => (nameBytes mapped part.2.1, part.2.2)
    Takes limits (queryComponents mapped limits ordinal parts) answers used n (pairsWork pairs)
      (pairs.all fun pair => pair.1 = pair.2) := by
  induction parts generalizing used with
  | nil => exact takes_pure hused true
  | cons head parts ih =>
      obtain ⟨component, name, part⟩ := head
      have hname : name.Named mapped := hparts _ List.mem_cons_self
      have hrest : ∀ part ∈ parts, part.2.1.Named mapped := fun part hpart =>
        hparts part (List.mem_cons_of_mem _ hpart)
      have hlength := hname.length_nameBytes
      intro pairs
      set rest := parts.map fun part => (nameBytes mapped part.2.1, part.2.2) with hrestPairs
      rw [show pairs = (nameBytes mapped name, part) :: rest from rfl, List.all_cons]
      unfold queryComponents
      by_cases hdiffer : name.size - 1 ≠ part.length
      · -- the lengths differ and no byte is read
        have hne : nameBytes mapped name ≠ part := fun h => hdiffer (by rw [← hlength, h])
        rw [pairsWork_of_length_ne (by rw [hlength]; exact hdiffer), if_pos hdiffer,
          decide_eq_false hne, Bool.false_and, ← Nat.add_zero 1]
        refine (takes_chargeQuery hused 1 (some ordinal) component).bind fun hused => ?_
        exact takes_pure hused false
      · rw [if_neg hdiffer]
        have hequal : (nameBytes mapped name).length = part.length := by
          rw [hlength]
          exact not_not.mp hdiffer
        by_cases hempty : name.size - 1 = 0
        · -- nothing is charged for an empty name
          have hname0 : nameBytes mapped name = [] :=
            List.eq_nil_of_length_eq_zero (hlength.trans hempty)
          have hpart0 : part = [] :=
            List.eq_nil_of_length_eq_zero (hequal.symm.trans (hlength.trans hempty))
          rw [if_pos hempty, hname0, hpart0, pairsWork_self, decide_eq_true rfl, Bool.true_and]
          exact (takes_chargeQuery hused 1 (some ordinal) component).bind fun hused =>
            ih hrest hused
        · rw [if_neg hempty, hname.take_bytes]
          by_cases hsame : nameBytes mapped name = part
          -- equal components: the next one is looked at
          · rw [if_neg (not_not.mpr hsame), ← hsame, pairsWork_self, decide_eq_true rfl,
              Bool.true_and, Nat.add_assoc]
            refine (takes_chargeQuery hused 1 (some ordinal) component).bind fun hused => ?_
            rw [← hlength]
            exact (takes_chargeQuery hused _ (some ordinal) component).bind fun hused =>
              ih hrest hused
          -- as long but different: all bytes are charged and the rest is not looked at
          · rw [if_pos hsame, pairsWork_of_ne hequal hsame, decide_eq_false hsame, Bool.false_and,
              ← Nat.add_zero (nameBytes mapped name).length]
            refine (takes_chargeQuery hused 1 (some ordinal) component).bind fun hused => ?_
            rw [← hlength]
            refine (takes_chargeQuery hused _ (some ordinal) component).bind
              fun hused => ?_
            exact takes_pure hused false

/-- A row of an index: it has its three names. -/
def TailReferenceTypeRow.Named (row : TailReferenceTypeRow) (mapped : Text) : Prop :=
  ∃ names, row.names = some names ∧ names.classNameSource.Named mapped ∧
    names.namespaceSource.Named mapped ∧ names.assemblyNameSource.Named mapped

theorem takes_queryRow {row : TailReferenceTypeRow} (hrow : row.Named mapped) (key : ReferenceKey)
    (hused : used ≤ limits.maxWork) :
    Takes limits (queryComponents mapped limits row.ordinal (identityParts row key)) answers used n
      ((row.visited mapped key).length + equalLengthBytes (row.visited mapped key))
      (row.answers mapped key) := by
  obtain ⟨names, hnames, hclass, hspace, hassembly⟩ := hrow
  have hparts : ∀ part ∈ identityParts row key, part.2.1.Named mapped := by
    unfold identityParts
    rw [hnames]
    simp only [List.forall_mem_cons, List.not_mem_nil, false_implies, implies_true, and_true]
    exact ⟨hclass, hspace, hassembly⟩
  have hanswers : row.answers mapped key =
      ((identityParts row key).map fun part =>
        (nameBytes mapped part.2.1, part.2.2)).all fun pair => pair.1 = pair.2 := by
    rw [TailReferenceTypeRow.answers, identityParts, hnames]
    obtain ⟨className, namespaceName, assemblyName⟩ := key
    simp [TailReferenceNames.key]
  rw [hanswers]
  exact takes_queryComponents row.ordinal _ hparts hused

/-- What the rows of an index cost. -/
def rowsWork (mapped : Text) (key : ReferenceKey) (rows : List TailReferenceTypeRow) : ℕ :=
  (rows.map fun row =>
    1 + ((row.visited mapped key).length + equalLengthBytes (row.visited mapped key))).sum

/-- **Every row is looked at**, and the match keeps count of those that answer. -/
theorem takes_queryRows (key : ReferenceKey) (rows : List TailReferenceTypeRow)
    (hrows : ∀ row ∈ rows, row.Named mapped) (start : ℕ) (seen : List ℕ)
    (hused : used ≤ limits.maxWork) :
    Takes limits (queryRows mapped limits key rows start (ReferenceMatch.ofOrdinals seen)) answers
      used n (rowsWork mapped key rows)
      (ReferenceMatch.ofOrdinals (seen ++ rows.findIdxs (·.answers mapped key) start)) := by
  induction rows generalizing used start seen with
  | nil =>
      rw [List.findIdxs_nil, List.append_nil]
      exact takes_pure hused _
  | cons row rows ih =>
      rw [rowsWork, List.map_cons, List.sum_cons, Nat.add_assoc]
      refine (takes_chargeQuery hused 1 _ _).bind fun hused => ?_
      refine (takes_queryRow (hrows row List.mem_cons_self) key hused).bind fun hused => ?_
      have hrest := fun later hlater => hrows later (List.mem_cons_of_mem row hlater)
      rw [List.findIdxs_cons]
      split
      · rw [ReferenceMatch.add_ofOrdinals, List.append_cons seen start (rows.findIdxs _ _)]
        exact ih hrest (start + 1) (seen ++ [start]) hused
      · exact ih hrest (start + 1) seen hused

end Needs

/-! ## The whole query -/

section Query

variable {mapped : Text} (limits : ReferenceQueryLimits) (answers : ℕ → Bool) (n : ℕ)

/-- The caps are checked one component after the other, and charge nothing. -/
theorem admitKey_cases (parts : List (IdentityComponent × Text)) (keySize used : ℕ)
    (hsize : keySize ≤ limits.maxKeyBytes) :
    let fits := (∀ part ∈ parts, part.2.length ≤ limits.maxComponentBytes) ∧
      keySize + (parts.map (·.2.length)).sum ≤ limits.maxKeyBytes
    (fits ∧ admitKey limits parts keySize answers used n = .ok () used n) ∨
      ¬ fits ∧ ∃ reject, admitKey limits parts keySize answers used n = .error reject used n ∧
        reject.status = .limitExceeded := by
  induction parts generalizing keySize with
  | nil => exact Or.inl ⟨⟨by simp, hsize⟩, rfl⟩
  | cons head parts ih =>
      obtain ⟨component, part⟩ := head
      simp only [List.forall_mem_cons, List.map_cons, List.sum_cons]
      by_cases hcomponent : part.length ≤ limits.maxComponentBytes
      · by_cases hkey : part.length ≤ limits.maxKeyBytes - keySize
        · have hstep : admitKey limits ((component, part) :: parts) keySize answers used n =
              admitKey limits parts (keySize + part.length) answers used n := by
            unfold admitKey
            simp only [Call.bind_apply, Call.andThen, Call.require, if_pos hcomponent, if_pos hkey]
            cases parts <;> rfl
          rw [hstep]
          rcases ih (keySize + part.length) (by omega) with
            ⟨⟨hrest, hsum⟩, hok⟩ | ⟨hnot, herr⟩
          · exact Or.inl ⟨⟨⟨hcomponent, hrest⟩, by omega⟩, hok⟩
          · exact Or.inr ⟨fun h => hnot ⟨h.1.2, by omega⟩, herr⟩
        · refine Or.inr ⟨fun h => hkey (by omega),
            ⟨.limitExceeded, .keyBytes, component, none⟩, ?_, rfl⟩
          refine Call.bind_eq_error.mpr (Or.inr ⟨(), used, n, if_pos hcomponent, ?_⟩)
          exact Call.bind_eq_error.mpr (Or.inl (if_neg hkey))
      · refine Or.inr ⟨fun h => hcomponent h.1.1,
          ⟨.limitExceeded, .componentBytes, component, none⟩, ?_, rfl⟩
        exact Call.bind_eq_error.mpr (Or.inl (if_neg hcomponent))

theorem admitKey_apply (key : ReferenceKey) (used : ℕ) :
    let admitting := admitKey limits [(.className, key.className),
      (.namespaceName, key.namespaceName), (.assemblyName, key.assemblyName)] 0 answers used n
    (limits.Covers key ∧ admitting = .ok () used n) ∨
      ¬ limits.Covers key ∧ ∃ reject, admitting = .error reject used n ∧
        reject.status = .limitExceeded := by
  have hcases := admitKey_cases limits answers n
    [(.className, key.className), (.namespaceName, key.namespaceName),
      (.assemblyName, key.assemblyName)] 0 used (Nat.zero_le _)
  simpa [ReferenceQueryLimits.Covers, Nat.add_assoc] using hcases

/-- An index whose rows all have their names, in this mapping. -/
structure SerializedFileReferenceIndex.Genuine (index : SerializedFileReferenceIndex)
    (mapped : Text) : Prop where
  length : index.rows.length = index.view.referenceTypeCount
  rows : ∀ row ∈ index.rows, row.Named mapped

variable {limits answers n} {index : SerializedFileReferenceIndex} {key : ReferenceKey}

theorem queryWork_eq (hindex : index.Genuine mapped) :
    queryWork mapped index key = 1 + (0 + (rowsWork mapped key index.rows + (1 + 0))) := by
  have hsum : rowsWork mapped key index.rows = index.rows.length +
      (index.rows.map fun row => (row.visited mapped key).length).sum +
      (index.rows.map fun row => equalLengthBytes (row.visited mapped key)).sum := by
    rw [rowsWork, List.sum_map_add, List.sum_map_add, List.map_const', List.sum_replicate]
    simp [Nat.add_assoc]
  rw [queryWork, hsum, hindex.length]
  omega

/-- The ordinals of the rows that answer a key. -/
def SerializedFileReferenceIndex.matching (index : SerializedFileReferenceIndex) (mapped : Text)
    (key : ReferenceKey) : List ℕ :=
  index.rows.findIdxs (·.answers mapped key)

/-- **A key within its caps is searched for**, for `2 + N + C + B`. -/
theorem takes_queryIndex (hindex : index.Genuine mapped) (hcovers : limits.Covers key) :
    Takes limits (queryIndex mapped limits index key) answers 0 n (queryWork mapped index key)
      (ReferenceMatch.ofOrdinals (index.matching mapped key)) := by
  rw [queryWork_eq hindex, queryIndex, ← hindex.length, List.take_length]
  refine (takes_chargeQuery (Nat.zero_le _) 1 none .none).bind fun hused => ?_
  have hadmitted : Takes limits (admitKey limits [(.className, key.className),
      (.namespaceName, key.namespaceName), (.assemblyName, key.assemblyName)] 0) answers (0 + 1) n
      0 () := by
    rcases admitKey_apply limits answers n key (0 + 1) with
      ⟨-, hok⟩ | ⟨hnot, -⟩
    · exact Or.inl ⟨fun _ => Nat.not_lt.mpr hused, hok⟩
    · exact absurd hcovers hnot
  refine hadmitted.bind fun hused => ?_
  refine (takes_queryRows key index.rows hindex.rows 0 [] hused).bind fun hused => ?_
  refine (takes_chargeQuery hused 1 none .none).bind fun hused => ?_
  exact takes_pure hused _

variable (index) in
/-- A key over its caps is rejected. -/
theorem queryIndex_of_not_covers (mapped : Text) (answers : ℕ → Bool) (n : ℕ)
    (hcovers : ¬ limits.Covers key) :
    ∃ reject used n', queryIndex mapped limits index key answers 0 n = .error reject used n' ∧
      used ≤ limits.maxWork ∧ reject.status = .limitExceeded := by
  have hcharge : Takes limits (chargeQuery limits 1 none .none) answers 0 n 1 () :=
    takes_chargeQuery (Nat.zero_le _) 1 none .none
  rcases hcharge with ⟨hroom, hok⟩ | ⟨reject, used, n', _, herr, hused, hcites, -⟩
  · rcases admitKey_apply limits answers n key (0 + 1) with
      ⟨hyes, -⟩ | ⟨-, reject, herr, hstatus⟩
    · exact absurd hyes hcovers
    · refine ⟨reject, 0 + 1, n, ?_, Nat.le_of_not_lt (hroom ()), hstatus⟩
      exact Call.bind_eq_error.mpr (Or.inr ⟨_, _, _, hok, Call.bind_eq_error.mpr (Or.inl herr)⟩)
  · exact ⟨reject, used, n', Call.bind_eq_error.mpr (Or.inl herr), hused, hcites.1⟩

/-- The query with its output parameter, which the last step writes. -/
def serializedFileReferenceIndexQueryOut (mapped : Text) (index : SerializedFileReferenceIndex)
    (key : ReferenceKey) (limits : ReferenceQueryLimits) :
    Call ReferenceQueryResult ReferenceMatch ReferenceQueryResult := do
  let (found, result) ← serializedFileReferenceIndexQuery mapped index key limits
  Call.replace found
  return result

/-- What a query comes to. -/
theorem referenceIndexQuery_cases (hindex : index.Genuine mapped) (key : ReferenceKey)
    (limits : ReferenceQueryLimits) (answers : ℕ → Bool) (outMatch : ReferenceMatch) (n : ℕ) :
    let query := serializedFileReferenceIndexQueryOut mapped index key limits answers outMatch n
    (limits.Covers key ∧ queryWork mapped index key ≤ limits.maxWork ∧
      query = .ok ⟨.ok, .none, .none, none, queryWork mapped index key⟩
        (ReferenceMatch.ofOrdinals (index.matching mapped key)) n) ∨
    ¬ (limits.Covers key ∧ queryWork mapped index key ≤ limits.maxWork) ∧
      ∃ result n', query = .error result outMatch n' ∧ result.status = .limitExceeded ∧
        result.workUsed ≤ limits.maxWork := by
  intro query
  have hfailed : ∀ reject used n',
      queryIndex mapped limits index key answers 0 n = .error reject used n' →
      query = .error (referenceQueryResult reject used) outMatch n' := by
    intro reject used n' herr
    refine Call.bind_eq_error.mpr (Or.inl (Call.bind_eq_error.mpr (Or.inl ?_)))
    rw [Call.enclosed, herr]
  by_cases hcovers : limits.Covers key
  · have htakes : Takes limits (queryIndex mapped limits index key) answers 0 n
        (queryWork mapped index key) (ReferenceMatch.ofOrdinals (index.matching mapped key)) :=
      takes_queryIndex hindex hcovers
    rcases htakes with
      ⟨hroom, hok⟩ | ⟨reject, used, n', _, herr, hused, hcites, hshort⟩
    · refine Or.inl ⟨hcovers, by have := hroom (); omega, ?_⟩
      rw [Nat.zero_add] at hok
      have hfound : serializedFileReferenceIndexQuery mapped index key limits answers outMatch n =
          .ok (ReferenceMatch.ofOrdinals (index.matching mapped key),
            ⟨.ok, .none, .none, none, queryWork mapped index key⟩) outMatch n :=
        Call.bind_eq_ok.mpr ⟨(ReferenceMatch.ofOrdinals (index.matching mapped key),
          queryWork mapped index key), outMatch, n, by rw [Call.enclosed, hok], rfl⟩
      exact Call.bind_eq_ok.mpr ⟨_, outMatch, n, hfound, rfl⟩
    · refine Or.inr ⟨fun h => absurd h.2 (by omega), _, n', hfailed reject used n' herr, hcites.1,
        hused⟩
  · obtain ⟨reject, used, n', herr, hused, hstatus⟩ :=
      queryIndex_of_not_covers index mapped answers n hcovers
    exact Or.inr ⟨fun h => hcovers h.1, _, n', hfailed reject used n' herr, hstatus, hused⟩

end Query

/-! ## An index that was built -/

section Built

variable {tail : SerializedFileMetadataTail} {mapped : Text}

theorem named_of_nameFormat {knownSize at_ next stop : ℕ} {row : TailReferenceTypeRow}
    {name : PrefixSpan} {d : IndexCost} (hmapped : knownSize ≤ mapped.length)
    (h : nameFormat knownSize row name next at_ = some (stop, d)) : name.Named mapped := by
  obtain ⟨_, _, _, hname, -, -⟩ := Decoder.bind_eq_some.mp h
  obtain ⟨⟨hsize, ⟨hoffset, hfits⟩, -⟩, -⟩ := Decoder.require_eq_some.mp hname
  exact ⟨hsize, by omega⟩

theorem named_of_ordinalFormat {knownSize ordinal at_ : ℕ} {d : IndexCost} {u : Unit}
    (hmapped : knownSize ≤ mapped.length)
    (h : ordinalFormat knownSize tail ordinal at_ = some (u, d)) :
    ∃ row, tail.referenceType ordinal = some row ∧ row.Named mapped := by
  obtain ⟨_, _, _, -, hidentity, -⟩ := Decoder.bind_eq_some.mp h
  cases hrow : tail.referenceType ordinal with
  | none =>
      rw [hrow] at hidentity
      cases hidentity
  | some row =>
      rw [hrow] at hidentity
      unfold identityFormat at hidentity
      dsimp only at hidentity
      cases htree : row.tree with
      | none =>
          rw [htree] at hidentity
          cases hidentity
      | some tree =>
          cases hnames : row.names with
          | none =>
              rw [htree, hnames] at hidentity
              cases hidentity
          | some names =>
              rw [htree, hnames] at hidentity
              obtain ⟨_, _, _, -, h₁, -⟩ := Decoder.bind_eq_some.mp hidentity
              obtain ⟨_, _, _, hclass, h₂, -⟩ := Decoder.bind_eq_some.mp h₁
              obtain ⟨_, _, _, hspace, h₃, -⟩ := Decoder.bind_eq_some.mp h₂
              obtain ⟨_, _, _, hassembly, -, -⟩ := Decoder.bind_eq_some.mp h₃
              exact ⟨row, rfl, names, hnames, named_of_nameFormat hmapped hclass,
                named_of_nameFormat hmapped hspace, named_of_nameFormat hmapped hassembly⟩

/-- **An index is genuine**: what the construction checked of the rows is what
the query relies on. -/
theorem genuine_of_plan {plan : IndexPlan} (hplan : indexPlan tail = some plan)
    (hmapped : tail.view.source.offset + tail.view.source.size ≤ mapped.length) :
    (plan.index tail).Genuine mapped := by
  obtain ⟨-, ⟨us, hseen⟩, hcopied, -⟩ := indexPlan_eq_some.mp hplan
  have hlength : plan.rows.length = tail.view.referenceTypeCount := Decoder.collect_length hcopied
  refine ⟨hlength, fun row hrow => ?_⟩
  obtain ⟨i, hi⟩ := List.mem_iff_getElem?.mp hrow
  have hcopy := Decoder.collect_forall (R := fun ordinal row => tail.referenceType ordinal = some row)
    (fun _ _ _ _ h => (copyFormat_eq_some.mp h).1) hcopied i row hi
  have hbound : i < us.length := by
    rw [Decoder.collect_length hseen, ← hlength]
    exact (List.getElem?_eq_some_iff.mp hi).1
  obtain ⟨found, hfound, hnamed⟩ := Decoder.collect_forall
    (R := fun ordinal _ => ∃ row, tail.referenceType ordinal = some row ∧ row.Named mapped)
    (fun _ _ _ _ h => named_of_ordinalFormat hmapped h) hseen i us[i] (List.getElem?_eq_getElem hbound)
  rw [hcopy] at hfound
  cases hfound
  exact hnamed

variable {indexLimits : ReferenceIndexLimits} {answers : ℕ → Bool}
  {index : SerializedFileReferenceIndex} {ran : ReferenceIndexResult} {s s' : σ} {n n' : ℕ}

/-- **The query is a complete exact search.** An OK query reports the rows that
answer the key, their number and the least two of their ordinals, for
`2 + N + C + B`; any other leaves the output as it was and stays within its
work; and more work changes nothing but that it may be enough. -/
theorem referenceIndexQuery_exact
    (hindex : serializedFileReferenceIndexCreate tail indexLimits answers s n =
      .ok (index, ran) s' n')
    (hmapped : tail.view.source.offset + tail.view.source.size ≤ mapped.length)
    (key : ReferenceKey) (limits : ReferenceQueryLimits) (answers₁ : ℕ → Bool)
    (outMatch : ReferenceMatch) (n₁ : ℕ) :
    let query := fun limits =>
      serializedFileReferenceIndexQueryOut mapped index key limits answers₁ outMatch n₁
    (∀ result found n₂, query limits = .ok result found n₂ →
      found = ReferenceMatch.ofOrdinals (index.rows.findIdxs (·.answers mapped key)) ∧
        result.workUsed = queryWork mapped index key) ∧
    (∀ result found n₂, query limits = .error result found n₂ →
      result.status ≠ .ok ∧ found = outMatch ∧ result.workUsed ≤ limits.maxWork) ∧
    ∀ more, limits.maxWork ≤ more → ∀ result found n₂, query limits = .ok result found n₂ →
      query { limits with maxWork := more } = .ok result found n₂ := by
  obtain ⟨plan, hplan, -, rfl, -⟩ := referenceIndexCreate_ok hindex
  have hgenuine := genuine_of_plan hplan hmapped
  intro query
  have hcases := fun limits =>
    referenceIndexQuery_cases hgenuine key limits answers₁ outMatch n₁
  refine ⟨fun result found n₂ hok => ?_, fun result found n₂ herr => ?_,
    fun more hmore result found n₂ hok => ?_⟩
  · rcases hcases limits with ⟨-, -, hquery⟩ | ⟨-, _, _, hquery, -⟩
    · cases hok.symm.trans hquery
      exact ⟨rfl, rfl⟩
    · cases hok.symm.trans hquery
  · rcases hcases limits with ⟨-, -, hquery⟩ | ⟨-, _, _, hquery, hstatus, hused⟩
    · cases herr.symm.trans hquery
    · cases herr.symm.trans hquery
      exact ⟨by rw [hstatus]; decide, rfl, hused⟩
  · rcases hcases limits with ⟨hcovers, hroom, hquery⟩ | ⟨-, _, _, hquery, -⟩
    · rcases hcases { limits with maxWork := more } with ⟨-, -, hwider⟩ | ⟨hnot, -⟩
      · cases hok.symm.trans hquery
        exact hwider
      · exact absurd ⟨hcovers, hroom.trans hmore⟩ hnot
    · cases hok.symm.trans hquery

end Built

/-! Two rows with one identity and an empty namespace. -/

def twiceMapped : Text := [80, 0, 0, 65, 0, 80, 0, 0, 65, 0]

def twiceRow (ordinal start : ℕ) : TailReferenceTypeRow where
  classIdSource := ⟨start, 0⟩
  strippedSource := ⟨start, 0⟩
  scriptIndexSource := ⟨start, 0⟩
  scriptHashSource := none
  typeHashSource := ⟨start, 0⟩
  classIdBits := 114
  scriptIndexBits := 0
  strippedRaw := 0
  hasScriptHash := false
  ordinal := ordinal
  source := ⟨start, 5⟩
  tree := some ⟨⟨start, 0⟩, ⟨start, 0⟩, ⟨start, 0⟩, ⟨start, 0⟩, 0, 0⟩
  names := some ⟨⟨start, 2⟩, ⟨start + 2, 1⟩, ⟨start + 3, 2⟩⟩

def twicePrefix : PrefixView where
  header :=
    { headerSource := ⟨0, 0⟩
      legacyMetadataSizeSource := ⟨0, 0⟩
      legacyFileSizeSource := ⟨0, 0⟩
      formatVersionSource := ⟨0, 0⟩
      legacyDataOffsetSource := ⟨0, 0⟩
      metadataSizeSource := ⟨0, 0⟩
      fileSizeSource := ⟨0, 0⟩
      dataOffsetSource := ⟨0, 0⟩
      endianSelectorSource := ⟨0, 0⟩
      opaqueSource := ⟨0, 0⟩
      formatVersion := 22
      metadataSize := 10
      fileSize := 10
      dataOffset := 10
      endianSelector := 0
      metadata := ⟨0, 10⟩
      metadataToDataGap := ⟨10, 0⟩
      data := ⟨10, 0⟩ }
  metadataPrefixSource := ⟨0, 0⟩
  versionSource := ⟨0, 0⟩
  versionTerminatorSource := ⟨0, 0⟩
  targetPlatformSource := ⟨0, 0⟩
  typeTreeSource := ⟨0, 0⟩
  targetPlatform := 0
  typeTreeEnabledRaw := 1
  remainingMetadata := ⟨0, 0⟩

def twiceTail : SerializedFileMetadataTail where
  view :=
    { directory :=
        { engineVersion := .engine2021_3_35f1
          prefixView := twicePrefix
          parsedMetadataSource := ⟨0, 0⟩
          typeCountSource := ⟨0, 0⟩
          typeRowsSource := ⟨0, 0⟩
          objectCountSource := ⟨0, 0⟩
          objectPaddingSource := ⟨0, 0⟩
          objectRowsSource := ⟨0, 0⟩
          remainingMetadata := ⟨0, 10⟩
          typeCount := 0
          objectCount := 0
          nodeRecordCount := 0
          stringByteCount := 0
          dependencyWordCount := 0
          retainedBytes := 0 }
      source := ⟨0, 10⟩
      scriptCountSource := ⟨0, 0⟩
      scriptRowsSource := ⟨0, 0⟩
      externalCountSource := ⟨0, 0⟩
      externalRowsSource := ⟨0, 0⟩
      referenceTypeCountSource := ⟨0, 0⟩
      referenceTypeRowsSource := ⟨0, 10⟩
      userInformationSource := ⟨10, 0⟩
      scriptCount := 0
      externalCount := 0
      referenceTypeCount := 2
      nodeRecordCount := 0
      treeStringByteCount := 0
      terminatedStringByteCount := 10
      retainedBytes := 0 }
  scripts := []
  externals := []
  referenceTypes := [twiceRow 0 0, twiceRow 1 5]

def twiceLimits : ReferenceIndexLimits := ⟨2, 10, 2 ^ 20, 2 ^ 20⟩

def twiceKey : ReferenceKey := ⟨[80], [], [65]⟩

def twicePlan : IndexPlan := ⟨[twiceRow 0 0, twiceRow 1 5], 10, 1280⟩

theorem referenceIndexQuery_twice :
    let index := twicePlan.index twiceTail
    let query := serializedFileReferenceIndexQueryOut twiceMapped index twiceKey ⟨4, 4, 14⟩
      Call.granted ReferenceMatch.missing 0
    query = .ok ⟨.ok, .none, .none, none, 14⟩ (ReferenceMatch.ofOrdinals [0, 1]) 0 ∧
      ReferenceMatch.ofOrdinals [0, 1] =
        ReferenceMatch.ofOrdinals (index.rows.findIdxs (·.answers twiceMapped twiceKey)) ∧
      queryWork twiceMapped index twiceKey = 14 := by
  have hcreate : serializedFileReferenceIndexCreate twiceTail twiceLimits Call.granted () 0 =
      .ok (twicePlan.index twiceTail, twicePlan.result twiceTail) () 1 := by decide +kernel
  have hquery : serializedFileReferenceIndexQueryOut twiceMapped (twicePlan.index twiceTail) twiceKey
      ⟨4, 4, 14⟩ Call.granted ReferenceMatch.missing 0 =
      .ok ⟨.ok, .none, .none, none, 14⟩ (ReferenceMatch.ofOrdinals [0, 1]) 0 := by decide +kernel
  obtain ⟨hfound, hwork⟩ := (referenceIndexQuery_exact hcreate (by decide) twiceKey ⟨4, 4, 14⟩
    Call.granted ReferenceMatch.missing 0).1 _ _ _ hquery
  exact ⟨hquery, hfound, hwork.symm⟩

end UnityCommon.Metadata
