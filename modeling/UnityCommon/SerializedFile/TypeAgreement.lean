import UnityCommon.SerializedFile.RecordStream
import UnityCommon.SerializedFile.SchemaNames

/-!
# Reading a type and making it of its spans

A stream reader agrees with a decoder when reading on is taking spans and making
the same value of these. Agreement is proved for each part of a type record and
put together along the record.
-/

namespace UnityCommon.Metadata

open TypeTree ByteStream

variable {σ α β γ δ : Type}

theorem ScanCost.add_assoc (d e f : ScanCost) : d + e + f = d + (e + f) := by
  ext <;> simp [Nat.add_assoc, Nat.max_assoc]

theorem ScanCost.zero_add (d : ScanCost) : 0 + d = d := by
  ext <;> simp

theorem scan_bind_assoc (P : Decoder ScanCost α) (Q : α → Decoder ScanCost β)
    (R : β → Decoder ScanCost γ) :
    ((P >>= Q) >>= R : Decoder ScanCost γ) = P >>= fun a => Q a >>= R := by
  funext at_
  refine Option.ext fun ⟨c, d⟩ => ?_
  simp only [Decoder.bind_eq_some]
  constructor
  · rintro ⟨b, _, d₃, ⟨a, d₁, d₂, hP, hQ, rfl⟩, hR, rfl⟩
    rw [Cost.width_add, ← Nat.add_assoc] at hR
    exact ⟨a, d₁, d₂ + d₃, hP, ⟨b, d₂, d₃, hQ, hR, rfl⟩, ScanCost.add_assoc d₁ d₂ d₃⟩
  · rintro ⟨a, d₁, _, hP, ⟨b, d₂, d₃, hQ, hR, rfl⟩, rfl⟩
    rw [Nat.add_assoc, ← Cost.width_add] at hR
    exact ⟨b, d₁ + d₂, d₃, ⟨a, d₁, d₂, hP, hQ, rfl⟩, hR, (ScanCost.add_assoc d₁ d₂ d₃).symm⟩

theorem scan_pure_bind (a : α) (Q : α → Decoder ScanCost β) :
    (pure a >>= Q : Decoder ScanCost β) = Q a := by
  funext at_
  refine Option.ext fun ⟨b, d⟩ => ?_
  simp only [Decoder.bind_eq_some, Decoder.pure_eq_some]
  constructor
  · rintro ⟨_, _, e, ⟨rfl, rfl⟩, hQ, rfl⟩
    rw [ScanCost.zero_add]
    exact hQ
  · intro hQ
    exact ⟨a, 0, d, ⟨rfl, rfl⟩, hQ, (ScanCost.zero_add d).symm⟩

theorem scan_map_eq_some {Q : Decoder ScanCost β} {g : β → γ} {at_ : ℕ} {c : γ} {d : ScanCost} :
    (Q >>= fun b => pure (g b)) at_ = some (c, d) ↔
      ∃ b e, Q at_ = some (b, e) ∧ c = g b ∧ d = e + 0 := by
  rw [Decoder.bind_eq_some]
  constructor
  · rintro ⟨b, e, _, hQ, hpure, rfl⟩
    obtain ⟨rfl, rfl⟩ := Decoder.pure_eq_some.mp hpure
    exact ⟨b, e, hQ, rfl, rfl⟩
  · rintro ⟨b, e, hQ, rfl, rfl⟩
    exact ⟨b, e, 0, hQ, Decoder.pure_eq_some.mpr ⟨rfl, rfl⟩, rfl⟩

/-- A row knows its extent and is charged for. -/
theorem scan_row_eq_some {Q : Decoder ScanCost β} {g : ℕ → β → ℕ → γ} {work at_ : ℕ} {c : γ}
    {d : ScanCost} :
    (Decoder.position >>= fun start => Q >>= fun b => Decoder.spend { work } >>= fun _ =>
        Decoder.position >>= fun stop => pure (g start b stop) : Decoder ScanCost γ) at_ =
          some (c, d) ↔
      ∃ b e, Q at_ = some (b, e) ∧ c = g at_ b (at_ + e.bytes) ∧ d = e + { work } := by
  constructor
  · intro h
    obtain ⟨_, _, _, hstart, h₁, rfl⟩ := Decoder.bind_eq_some.mp h
    obtain ⟨rfl, rfl⟩ := Decoder.position_eq_some.mp hstart
    obtain ⟨b, e, _, hQ, h₂, rfl⟩ := Decoder.bind_eq_some.mp h₁
    obtain ⟨_, _, _, hspend, h₃, rfl⟩ := Decoder.bind_eq_some.mp h₂
    obtain rfl := Decoder.spend_eq_some.mp hspend
    obtain ⟨_, _, _, hstop, hpure, rfl⟩ := Decoder.bind_eq_some.mp h₃
    obtain ⟨rfl, rfl⟩ := Decoder.position_eq_some.mp hstop
    obtain ⟨rfl, rfl⟩ := Decoder.pure_eq_some.mp hpure
    exact ⟨b, e, hQ, rfl, by ext <;> simp⟩
  · rintro ⟨b, e, hQ, rfl, rfl⟩
    have hcost : (0 : ScanCost) + (e + ({ work } + (0 + 0))) = e + { work } := by
      ext <;> simp
    rw [← hcost]
    exact Decoder.bind_eq_some.mpr ⟨at_, 0, _, Decoder.position_eq_some.mpr ⟨rfl, rfl⟩,
      Decoder.bind_eq_some.mpr ⟨b, e, _, hQ,
      Decoder.bind_eq_some.mpr ⟨(), { work }, _, Decoder.spend_eq_some.mpr rfl,
      Decoder.bind_eq_some.mpr ⟨at_ + e.bytes, 0, _, Decoder.position_eq_some.mpr ⟨rfl, rfl⟩,
        Decoder.pure_eq_some.mpr ⟨rfl, rfl⟩, rfl⟩, rfl⟩, rfl⟩, rfl⟩

namespace MetadataSource

variable (source : MetadataSource)

/-- **Agreement at a cursor**: reading the stream on is taking spans, and making
the same value of these. -/
def Agrees (x : ByteStream → Call Unit σ (α × ByteStream)) (Q : Decoder ScanCost β)
    (make : β → Call Unit σ α) (at_ : ℕ) : Prop :=
  ∀ answers t n a s' t' n', x (source.stream at_) answers t n = .ok (a, s') t' n' ↔
    ∃ b d, Q at_ = some (b, d) ∧ make b answers t n = .ok a t' n' ∧
      s' = source.stream (at_ + d.bytes)

variable {source} {at_ : ℕ}

/-- **One part of a record after the other.** -/
theorem Agrees.bind {x : ByteStream → Call Unit σ (α × ByteStream)} {Q : Decoder ScanCost β}
    {make : β → Call Unit σ α} {f : α → ByteStream → Call Unit σ (γ × ByteStream)}
    {R : Decoder ScanCost δ} {more : α → δ → Call Unit σ γ} (hx : source.Agrees x Q make at_)
    (hf : ∀ a b d, Q at_ = some (b, d) → source.Agrees (f a) R (more a) (at_ + d.bytes)) :
    source.Agrees (fun s => x s >>= fun r => f r.1 r.2)
      (Q >>= fun b => R >>= fun c => pure (b, c))
      (fun r => make r.1 >>= fun a => more a r.2) at_ := by
  intro answers t n c s' t' n'
  constructor
  · intro h
    obtain ⟨⟨a, s₁⟩, t₁, n₁, hfirst, hrest⟩ := Call.bind_eq_ok.mp h
    obtain ⟨b, d, hQ, hmake, rfl⟩ := (hx answers t n a s₁ t₁ n₁).mp hfirst
    obtain ⟨r, e, hR, hmore, rfl⟩ := (hf a b d hQ answers t₁ n₁ c s' t' n').mp hrest
    refine ⟨(b, r), d + (e + 0), ?_, Call.bind_eq_ok.mpr ⟨a, t₁, n₁, hmake, hmore⟩, ?_⟩
    · exact Decoder.bind_eq_some.mpr ⟨b, d, _, hQ, Decoder.bind_eq_some.mpr ⟨r, e, _, hR,
        Decoder.pure_eq_some.mpr ⟨rfl, rfl⟩, rfl⟩, rfl⟩
    · rw [ScanCost.add_bytes, Nat.add_assoc]
      rfl
  · rintro ⟨⟨b, r⟩, _, hboth, hmake, rfl⟩
    obtain ⟨_, d, _, hQ, hrest, rfl⟩ := Decoder.bind_eq_some.mp hboth
    obtain ⟨_, e, _, hR, hpure, rfl⟩ := Decoder.bind_eq_some.mp hrest
    obtain ⟨heq, rfl⟩ := Decoder.pure_eq_some.mp hpure
    cases heq
    obtain ⟨a, t₁, n₁, hmake, hmore⟩ := Call.bind_eq_ok.mp hmake
    refine Call.bind_eq_ok.mpr ⟨(a, _), t₁, n₁, (hx answers t n a _ t₁ n₁).mpr
      ⟨b, d, hQ, hmake, rfl⟩, ?_⟩
    refine (hf a b d hQ answers t₁ n₁ c _ t' n').mpr ⟨r, e, hR, hmore, ?_⟩
    rw [ScanCost.add_bytes, Nat.add_assoc]
    rfl

/-- What is done with the value alone. -/
theorem Agrees.andThen {x : ByteStream → Call Unit σ (α × ByteStream)} {Q : Decoder ScanCost β}
    {make : β → Call Unit σ α} (h : source.Agrees x Q make at_) (k : α → Call Unit σ γ) :
    source.Agrees (fun s => x s >>= fun r => k r.1 >>= fun c => pure (c, r.2)) Q
      (fun b => make b >>= k) at_ := by
  intro answers t n c s' t' n'
  constructor
  · intro hread
    obtain ⟨⟨a, s₁⟩, t₁, n₁, hx, hrest⟩ := Call.bind_eq_ok.mp hread
    obtain ⟨c', t₂, n₂, hk, hpure⟩ := Call.bind_eq_ok.mp hrest
    obtain ⟨heq, rfl, rfl⟩ := Call.pure_eq_ok.mp hpure
    cases heq
    obtain ⟨b, d, hQ, hmake, rfl⟩ := (h answers t n a s₁ t₁ n₁).mp hx
    exact ⟨b, d, hQ, Call.bind_eq_ok.mpr ⟨a, t₁, n₁, hmake, hk⟩, rfl⟩
  · rintro ⟨b, d, hQ, hboth, rfl⟩
    obtain ⟨a, t₁, n₁, hmake, hk⟩ := Call.bind_eq_ok.mp hboth
    exact Call.bind_eq_ok.mpr ⟨(a, _), t₁, n₁, (h answers t n a _ t₁ n₁).mpr
      ⟨b, d, hQ, hmake, rfl⟩, Call.bind_eq_ok.mpr ⟨c, t', n', hk, rfl⟩⟩

/-- The same spans in another row, for a cost that moves no cursor. -/
theorem Agrees.row {x : ByteStream → Call Unit σ (α × ByteStream)} {Q : Decoder ScanCost β}
    {make : β → Call Unit σ α} {Q' : Decoder ScanCost γ} {make' : γ → Call Unit σ α}
    (h : source.Agrees x Q make at_) (g : β → ScanCost → γ) (more : ScanCost)
    (hmore : more.bytes = 0) (hQ : ∀ c d, Q' at_ = some (c, d) ↔
      ∃ b e, Q at_ = some (b, e) ∧ c = g b e ∧ d = e + more)
    (hmake : ∀ b e, make' (g b e) = make b) : source.Agrees x Q' make' at_ := by
  have hbytes : ∀ e : ScanCost, (e + more).bytes = e.bytes := by
    intro e
    rw [ScanCost.add_bytes, hmore, Nat.add_zero]
  intro answers t n a s' t' n'
  refine (h answers t n a s' t' n').trans ?_
  constructor
  · rintro ⟨b, e, hb, hm, rfl⟩
    refine ⟨g b e, e + more, (hQ _ _).mpr ⟨b, e, hb, rfl, rfl⟩, ?_, by rw [hbytes]⟩
    rw [hmake]
    exact hm
  · rintro ⟨_, _, hc, hm, rfl⟩
    obtain ⟨b, e, hb, rfl, rfl⟩ := (hQ _ _).mp hc
    rw [hmake] at hm
    exact ⟨b, e, hb, hm, by rw [hbytes]⟩

theorem Agrees.congr {x x' : ByteStream → Call Unit σ (α × ByteStream)} {Q : Decoder ScanCost β}
    {make : β → Call Unit σ α} (h : source.Agrees x Q make at_)
    (hx : x' (source.stream at_) = x (source.stream at_)) : source.Agrees x' Q make at_ := by
  intro answers t n a s' t' n'
  rw [hx]
  exact h answers t n a s' t' n'

theorem Recognizes.stop {Q : ℕ → Decoder ScanCost β} {encode : α → Text}
    {Valid : ℕ → α → Prop} (h : source.Recognizes Q encode Valid) {i : ℕ} {b : β}
    {d : ScanCost} (hQ : Q i at_ = some (b, d)) : source.Holds (at_ + d.bytes) 0 := by
  obtain ⟨a, -, hspells, hbytes⟩ := h.sound i at_ b d hQ
  rw [hbytes]
  exact hspells.holds.stop

/-! ## Strings -/

/-- A string and its terminator. -/
theorem readCString_eq_some {s s' : ByteStream} {text : CString} :
    s.readCString = some (text, s') ↔ Consumes s s' (text.bytes ++ [0]) := by
  refine ⟨readCString_consumes, fun h => ?_⟩
  have hunread : s.unread = text.bytes ++ 0 :: s'.unread := by
    rw [h.unread, List.append_assoc]
    rfl
  have htext : cstringAt s.unread = text := by
    rw [hunread]
    exact CString.ext_bytes (cstringAt_segment text.noNul _)
  unfold readCString
  dsimp only
  rw [htext, if_neg (by rw [hunread]; simp), h.eq_advance, List.length_append]
  rfl

theorem terminatedString_spells {span : PrefixSpan} {d : ScanCost} :
    source.terminatedString at_ = some (span, d) ↔
      ∃ text : CString, source.Spells at_ (text.bytes ++ [0]) ∧
        span = ⟨at_, text.bytes.length + 1⟩ ∧ d = .stringTaken (text.bytes.length + 1) := by
  rw [terminatedString_eq_some]
  constructor
  · rintro ⟨size, hlength, hend, rfl, rfl⟩
    obtain ⟨body, hvalid, hhead, rfl⟩ := terminatedLength_eq_some.mp hlength
    have hmapped := hhead.length_le
    rw [List.length_drop] at hmapped
    have hpos : (encodeString body).length = body.length + 1 := by simp [encodeString]
    refine ⟨⟨body, fun hzero => hvalid 0 hzero rfl⟩, ⟨⟨hend, ?_⟩, hhead⟩, ?_, ?_⟩
    · show at_ + (encodeString body).length ≤ _
      omega
    · rw [hpos]
    · rw [hpos]
  · rintro ⟨text, hspells, rfl, rfl⟩
    have hpos : (encodeString text.bytes).length = text.bytes.length + 1 := by simp [encodeString]
    have hvalid : ValidString text.bytes := by
      rintro byte hbyte rfl
      exact text.noNul hbyte
    refine ⟨_, terminatedLength_eq_some.mpr ⟨text.bytes, hvalid, hspells.stands, hpos.symm⟩,
      ?_, rfl, rfl⟩
    rw [← hpos]
    exact hspells.holds.1

theorem copyTerminatedString_eq_ok {mapped : Text} {span : PrefixSpan} {text copy : CString}
    (h : span.bytes mapped = text.bytes ++ [0]) {answers : ℕ → Bool} {t t' : σ} {n n' : ℕ} :
    copyTerminatedString mapped span answers t n = .ok copy t' n' ↔
      answers n = true ∧ text = copy ∧ t = t' ∧ n + 1 = n' := by
  have hsize : span.size ≠ 0 := by
    intro hzero
    rw [PrefixSpan.bytes, hzero, List.take_zero] at h
    simp at h
  have htext : cstringAt (span.bytes mapped) = text := by
    rw [h]
    exact CString.ext_bytes (cstringAt_segment text.noNul [])
  unfold copyTerminatedString
  rw [Call.require_bind_eq_ok, Call.request_bind_eq_ok, Call.pure_eq_ok, htext, h]
  simp [hsize]

/-- **A string** is copied from where it is read. -/
theorem agrees_string (h : source.Holds at_ 0) :
    source.Agrees (σ := σ) readStringAlloc source.terminatedString
      (copyTerminatedString source.bytes) at_ := by
  intro answers t n text s' t' n'
  have hread : readStringAlloc (source.stream at_) answers t n = .ok (text, s') t' n' ↔
      source.Spells at_ (text.bytes ++ [0]) ∧ s' = source.stream (at_ + (text.bytes.length + 1)) ∧
        answers n = true ∧ t = t' ∧ n + 1 = n' := by
    unfold readStringAlloc
    simp only [ofOption_bind_eq_ok, Prod.exists, readCString_eq_some, consumes_stream_iff h,
      List.length_append, List.length_singleton, Call.request_bind_eq_ok, Call.pure_eq_ok,
      Prod.mk.injEq]
    constructor
    · rintro ⟨_, _, ⟨hspells, rfl⟩, ha, ⟨rfl, rfl⟩, rfl, rfl⟩
      exact ⟨hspells, rfl, ha, rfl, rfl⟩
    · rintro ⟨hspells, rfl, ha, rfl, rfl⟩
      exact ⟨_, _, ⟨hspells, rfl⟩, ha, ⟨rfl, rfl⟩, rfl, rfl⟩
  rw [hread]
  constructor
  · rintro ⟨hspells, rfl, ha, rfl, rfl⟩
    have hbytes := hspells.bytes (List.length_append.trans rfl)
    exact ⟨_, _, terminatedString_spells.mpr ⟨text, hspells, rfl, rfl⟩,
      (copyTerminatedString_eq_ok hbytes).mpr ⟨ha, rfl, rfl, rfl⟩, rfl⟩
  · rintro ⟨span, d, hspan, hcopy, rfl⟩
    obtain ⟨text', hspells, rfl, rfl⟩ := terminatedString_spells.mp hspan
    have hbytes := hspells.bytes (List.length_append.trans rfl)
    obtain ⟨ha, rfl, rfl, rfl⟩ := (copyTerminatedString_eq_ok hbytes).mp hcopy
    exact ⟨hspells, rfl, ha, rfl, rfl⟩

/-! ## Trees -/

variable (source)

def nodeCountBits (at_ : ℕ) : UInt32 := (source.decode ⟨at_, 4⟩).toUInt32
def stringByteBits (at_ : ℕ) : UInt32 := (source.decode ⟨at_ + 4, 4⟩).toUInt32

/-- The records and the strings behind the two counts of a tree. -/
def treeBodyWidth (at_ : ℕ) : ℕ :=
  (source.nodeCountBits at_).toNat * 32 + (source.stringByteBits at_).toNat

def treeRow (at_ : ℕ) : DirectoryTree where
  nodeCountSource := ⟨at_, 4⟩
  stringCountSource := ⟨at_ + 4, 4⟩
  nodesSource := ⟨at_ + 8, (source.nodeCountBits at_).toNat * 32⟩
  stringsSource := ⟨at_ + 8 + (source.nodeCountBits at_).toNat * 32,
    (source.stringByteBits at_).toNat⟩
  nodeCount := source.nodeCountBits at_
  stringByteCount := source.stringByteBits at_

def treeCost (at_ : ℕ) : ScanCost :=
  { ScanCost.taken (8 + source.treeBodyWidth at_) with
    nodes := (source.nodeCountBits at_).toNat
    strings := (source.stringByteBits at_).toNat }

variable {source}

theorem tree_eq_some {tree : DirectoryTree} {d : ScanCost} :
    source.tree at_ = some (tree, d) ↔
      source.nodeCountBits at_ ≠ 0 ∧ source.Holds at_ (8 + source.treeBodyWidth at_) ∧
        tree = source.treeRow at_ ∧ d = source.treeCost at_ := by
  have hparts : source.Holds at_ (8 + source.treeBodyWidth at_) ↔
      source.Holds at_ 4 ∧ source.Holds (at_ + 4) 4 ∧
        source.Holds (at_ + 8) ((source.nodeCountBits at_).toNat * 32) ∧
          source.Holds (at_ + 8 + (source.nodeCountBits at_).toNat * 32)
            (source.stringByteBits at_).toNat := by
    unfold Holds treeBodyWidth
    omega
  have hcost : ScanCost.taken 4 + (0 + ({ nodes := (source.nodeCountBits at_).toNat } + (.taken 4 +
      ({ strings := (source.stringByteBits at_).toNat } +
        (.taken ((source.nodeCountBits at_).toNat * 32) +
          (.taken (source.stringByteBits at_).toNat + 0)))))) = source.treeCost at_ := by
    ext <;> simp [ScanCost.taken, treeCost, treeBodyWidth] <;> omega
  constructor
  · intro h
    obtain ⟨⟨_, count⟩, d₁, _, hcount, h₁, rfl⟩ := Decoder.bind_eq_some.mp h
    obtain ⟨hheld₁, rfl, rfl, rfl⟩ := readU32_eq_some.mp hcount
    obtain ⟨_, d₂, _, hne, h₂, rfl⟩ := Decoder.bind_eq_some.mp h₁
    obtain ⟨hnonzero, rfl⟩ := Decoder.require_eq_some.mp hne
    obtain ⟨_, d₃, _, hnodes, h₃, rfl⟩ := Decoder.bind_eq_some.mp h₂
    obtain rfl := Decoder.spend_eq_some.mp hnodes
    obtain ⟨⟨_, size⟩, d₄, _, hsize, h₄, rfl⟩ := Decoder.bind_eq_some.mp h₃
    obtain ⟨hheld₂, rfl, rfl, rfl⟩ := readU32_eq_some.mp hsize
    obtain ⟨_, d₅, _, hstrings, h₅, rfl⟩ := Decoder.bind_eq_some.mp h₄
    obtain rfl := Decoder.spend_eq_some.mp hstrings
    obtain ⟨_, d₆, _, hrecords, h₆, rfl⟩ := Decoder.bind_eq_some.mp h₅
    obtain ⟨hheld₃, rfl, rfl⟩ := take_eq_some.mp hrecords
    obtain ⟨_, d₇, _, hbuffer, hp, rfl⟩ := Decoder.bind_eq_some.mp h₆
    obtain ⟨hheld₄, rfl, rfl⟩ := take_eq_some.mp hbuffer
    obtain ⟨rfl, rfl⟩ := Decoder.pure_eq_some.mp hp
    exact ⟨hnonzero, hparts.mpr ⟨hheld₁, hheld₂, hheld₃, hheld₄⟩, rfl, hcost⟩
  · rintro ⟨hnonzero, hholds, rfl, rfl⟩
    obtain ⟨hheld₁, hheld₂, hheld₃, hheld₄⟩ := hparts.mp hholds
    rw [← hcost]
    exact Decoder.bind_eq_some.mpr ⟨_, _, _, readU32_eq_some.mpr ⟨hheld₁, rfl, rfl, rfl⟩,
      Decoder.bind_eq_some.mpr ⟨(), 0, _, Decoder.require_eq_some.mpr ⟨hnonzero, rfl⟩,
      Decoder.bind_eq_some.mpr ⟨(), _, _, Decoder.spend_eq_some.mpr rfl,
      Decoder.bind_eq_some.mpr ⟨_, _, _, readU32_eq_some.mpr ⟨hheld₂, rfl, rfl, rfl⟩,
      Decoder.bind_eq_some.mpr ⟨(), _, _, Decoder.spend_eq_some.mpr rfl,
      Decoder.bind_eq_some.mpr ⟨_, _, _, take_eq_some.mpr ⟨hheld₃, rfl, rfl⟩,
      Decoder.bind_eq_some.mpr ⟨_, _, _, take_eq_some.mpr ⟨hheld₄, rfl, rfl⟩,
        Decoder.pure_eq_some.mpr ⟨rfl, rfl⟩, rfl⟩, rfl⟩, rfl⟩, rfl⟩, rfl⟩, rfl⟩, rfl⟩

/-- The buffer of a tree is read to its end. -/
theorem materializeTreePayload_eq_ok {mapped : Text} {type type' : TypeTreeType}
    {tree : DirectoryTree} {bigEndian : Bool} {answers : ℕ → Bool} {t t' : σ} {n n' : ℕ} :
    materializeTreePayload mapped type tree bigEndian answers t n = .ok type' t' n' ↔
      tree.nodesSource.size + tree.stringsSource.size ≤ sizeMax ∧
        ∃ s₁, readTreePayload type ⟨(PrefixSpan.mk tree.nodesSource.offset
            (tree.nodesSource.size + tree.stringsSource.size)).bytes mapped, 0, bigEndian⟩ 22
            tree.nodeCount tree.stringByteCount answers t n = .ok (type', s₁) t' n' ∧
          s₁.position = s₁.data.length := by
  unfold materializeTreePayload
  dsimp only
  rw [Call.require_bind_eq_ok, Call.bind_eq_ok]
  refine and_congr_right fun _ => ?_
  constructor
  · rintro ⟨⟨type₁, s₁⟩, t₁, n₁, hread, hrest⟩
    obtain ⟨hend, hpure⟩ := Call.require_bind_eq_ok.mp hrest
    obtain ⟨rfl, rfl, rfl⟩ := Call.pure_eq_ok.mp hpure
    exact ⟨s₁, hread, hend⟩
  · rintro ⟨s₁, hread, hend⟩
    exact ⟨(type', s₁), t', n', hread, Call.require_bind_eq_ok.mpr ⟨hend, rfl⟩⟩

theorem treeBodyWidth_le : source.treeBodyWidth at_ ≤ sizeMax := by
  have hcount := (source.nodeCountBits at_).toNat_lt
  have hsize := (source.stringByteBits at_).toNat_lt
  unfold treeBodyWidth sizeMax
  omega

/-- **A tree** is read as if its records and strings were cut out. -/
theorem agrees_tree (type : TypeTreeType) (h : source.Holds at_ 0) :
    source.Agrees (σ := σ) (fun s => Call.ofOption () s.readUInt32 >>= fun count =>
        Call.ofOption () count.2.readUInt32 >>= fun size =>
          readTreePayload type size.2 22 count.1 size.1)
      source.tree (fun tree => materializeTreePayload source.bytes type tree
        (source.endianSelector != 0)) at_ := by
  intro answers t n type' s' t' n'
  have hmake : materializeTreePayload source.bytes type (source.treeRow at_)
      (source.endianSelector != 0) answers t n = .ok type' t' n' ↔
        ∃ s₁, readTreePayload type ⟨(PrefixSpan.mk (at_ + 8) (source.treeBodyWidth at_)).bytes
            source.bytes, 0, source.endianSelector != 0⟩ 22 (source.nodeCountBits at_)
            (source.stringByteBits at_) answers t n = .ok (type', s₁) t' n' ∧
          s₁.position = s₁.data.length :=
    materializeTreePayload_eq_ok.trans (and_iff_right treeBodyWidth_le)
  have hstop : at_ + 4 + 4 + source.treeBodyWidth at_ = at_ + (source.treeCost at_).bytes := by
    show _ = at_ + (8 + source.treeBodyWidth at_)
    omega
  simp only [ofOption_bind_eq_ok, Prod.exists, readUInt32_stream_iff h]
  constructor
  · rintro ⟨_, _, ⟨hcount, rfl, rfl⟩, _, _, hsize, hpayload⟩
    obtain ⟨hstrings, rfl, rfl⟩ := (readUInt32_stream_iff hcount.stop).mp hsize
    obtain ⟨hne, bytes', hconsumes', hlength⟩ := readTreePayload_consumes hpayload
    obtain ⟨bytes, hconsumes, hread⟩ := (localCall_treePayload type 22 _ _).cut_iff.mp hpayload
    obtain rfl := hconsumes.unique hconsumes'
    obtain ⟨hspells, rfl⟩ := (consumes_stream_iff hstrings.stop).mp hconsumes
    have hwidth : bytes.length = source.treeBodyWidth at_ := hlength
    have hholds : source.Holds at_ (8 + source.treeBodyWidth at_) := by
      rw [← hwidth]
      exact holds_add.mpr ⟨holds_add.mpr ⟨hcount, hstrings⟩, hspells.holds⟩
    refine ⟨source.treeRow at_, source.treeCost at_,
      tree_eq_some.mpr ⟨hne, hholds, rfl, rfl⟩, hmake.mpr ?_, ?_⟩
    · rw [hspells.bytes hwidth]
      exact hread
    · rw [hwidth, hstop]
  · rintro ⟨tree, d, htree, hmade, rfl⟩
    obtain ⟨hne, hholds, rfl, rfl⟩ := tree_eq_some.mp htree
    obtain ⟨hcounts, hbody⟩ := holds_add.mp hholds
    obtain ⟨hcount, hstrings⟩ := holds_add.mp (show source.Holds at_ (4 + 4) from hcounts)
    obtain ⟨hlength, hspells⟩ := spells_bytes hbody
    refine ⟨_, _, ⟨hcount, rfl, rfl⟩, _, _,
      (readUInt32_stream_iff hcount.stop).mpr ⟨hstrings, rfl, rfl⟩,
      (localCall_treePayload type 22 _ _).cut_iff.mpr ⟨_, (consumes_stream_iff hstrings.stop).mpr
        ⟨hspells, ?_⟩, hmake.mp hmade⟩⟩
    rw [hlength, hstop]

/-! ## What follows a tree -/

variable (source)

/-- The dependencies of an ordinary type. -/
def dependencyWords : Decoder ScanCost DirectoryDependencies := do
  let (countSource, count) ← source.readCount
  Decoder.spend { words := count.toNat }
  let wordsSource ← source.take (count.toNat * 4)
  return { countSource, wordsSource, count }

/-- The names of a reference type. -/
def referenceNames : Decoder ScanCost TailReferenceNames := do
  let classNameSource ← source.terminatedString
  let namespaceSource ← source.terminatedString
  let assemblyNameSource ← source.terminatedString
  return { classNameSource, namespaceSource, assemblyNameSource }

variable {source}

theorem directoryTree_eq : source.directoryTree =
    (source.tree >>= fun tree => source.dependencyWords >>=
      fun dependencies => pure (tree, dependencies) : Decoder ScanCost _) := by
  unfold directoryTree dependencyWords
  simp only [scan_bind_assoc, scan_pure_bind]

theorem referenceTree_eq : source.referenceTree =
    (source.tree >>= fun tree => source.referenceNames >>=
      fun names => pure (tree, names) : Decoder ScanCost _) := by
  unfold referenceTree referenceNames
  simp only [scan_bind_assoc, scan_pure_bind]

/-- `read_dependencies` over the words of a type, to their end. -/
def materializeDependencies (mapped : Text) (bigEndian : Bool) (type : TypeTreeType)
    (dependencies : DirectoryDependencies) : Call Unit σ TypeTreeType := do
  let stream : ByteStream := ⟨dependencies.wordsSource.bytes mapped, 0, bigEndian⟩
  let (words, stream) ← readDependencies dependencies.count stream
  Call.require (stream.position = stream.data.length) ()
  return { type with dependencies := words }

def materializeNames (mapped : Text) (type : TypeTreeType) (names : TailReferenceNames) :
    Call Unit σ TypeTreeType := do
  let refClassName ← copyTerminatedString mapped names.classNameSource
  let refNamespace ← copyTerminatedString mapped names.namespaceSource
  let refAsmName ← copyTerminatedString mapped names.assemblyNameSource
  return { type with
    refClassName := some refClassName
    refNamespace := some refNamespace
    refAsmName := some refAsmName }

theorem agrees_names (type : TypeTreeType) (h : source.Holds at_ 0) :
    source.Agrees (σ := σ) (readTypeNames type) source.referenceNames
      (materializeNames source.bytes type) at_ := by
  have hall := (agrees_string (σ := σ) h).bind fun className _ _ hfirst =>
    (agrees_string (recognizes_string.stop (i := 0) hfirst)).bind
      fun namespaceName _ _ hsecond =>
        (agrees_string (recognizes_string.stop (i := 0) hsecond)).andThen
          fun assemblyName => pure { type with
            refClassName := some className
            refNamespace := some namespaceName
            refAsmName := some assemblyName }
  refine hall.row (fun r _ => ⟨r.1, r.2.1, r.2.2⟩) 0 rfl (fun names d => ?_)
    fun _ _ => rfl
  refine Iff.trans ?_ (scan_map_eq_some
    (g := fun r : PrefixSpan × PrefixSpan × PrefixSpan =>
      TailReferenceNames.mk r.1 r.2.1 r.2.2))
  simp only [referenceNames, scan_bind_assoc, scan_pure_bind]

variable (source)

def dependencyRow (at_ : ℕ) : DirectoryDependencies where
  countSource := ⟨at_, 4⟩
  wordsSource := ⟨at_ + 4, (source.decode ⟨at_, 4⟩).toUInt32.toNat * 4⟩
  count := (source.decode ⟨at_, 4⟩).toUInt32

def dependencyCost (at_ : ℕ) : ScanCost :=
  { ScanCost.taken (4 + (source.dependencyRow at_).wordsSource.size) with
    words := (source.dependencyRow at_).count.toNat }

variable {source}

theorem dependencyWords_eq_some {dependencies : DirectoryDependencies} {d : ScanCost} :
    source.dependencyWords at_ = some (dependencies, d) ↔
      (source.dependencyRow at_).count.toNat ≤ int32Max ∧
        source.Holds at_ (4 + (source.dependencyRow at_).wordsSource.size) ∧
        dependencies = source.dependencyRow at_ ∧ d = source.dependencyCost at_ := by
  have hcost : ScanCost.taken 4 + ({ words := (source.dependencyRow at_).count.toNat } +
      (.taken (source.dependencyRow at_).wordsSource.size + 0)) = source.dependencyCost at_ := by
    ext <;> simp [ScanCost.taken, dependencyCost]
  constructor
  · intro h
    obtain ⟨⟨_, count⟩, d₁, _, hcount, h₁, rfl⟩ := Decoder.bind_eq_some.mp h
    obtain ⟨hheld, rfl, rfl, hmax, rfl⟩ := readCount_eq_some.mp hcount
    obtain ⟨_, d₂, _, hspend, h₂, rfl⟩ := Decoder.bind_eq_some.mp h₁
    obtain rfl := Decoder.spend_eq_some.mp hspend
    obtain ⟨_, d₃, _, hwords, hp, rfl⟩ := Decoder.bind_eq_some.mp h₂
    obtain ⟨hheld', rfl, rfl⟩ := take_eq_some.mp hwords
    obtain ⟨rfl, rfl⟩ := Decoder.pure_eq_some.mp hp
    exact ⟨hmax, holds_add.mpr ⟨hheld, hheld'⟩, rfl, hcost⟩
  · rintro ⟨hmax, hholds, rfl, rfl⟩
    obtain ⟨hheld, hheld'⟩ := holds_add.mp hholds
    rw [← hcost]
    exact Decoder.bind_eq_some.mpr ⟨_, _, _, readCount_eq_some.mpr ⟨hheld, rfl, rfl, hmax, rfl⟩,
      Decoder.bind_eq_some.mpr ⟨(), _, _, Decoder.spend_eq_some.mpr rfl,
      Decoder.bind_eq_some.mpr ⟨_, _, _, take_eq_some.mpr ⟨hheld', rfl, rfl⟩,
        Decoder.pure_eq_some.mpr ⟨rfl, rfl⟩, rfl⟩, rfl⟩, rfl⟩

theorem materializeDependencies_eq_ok {mapped : Text} {bigEndian : Bool}
    {type type' : TypeTreeType} {dependencies : DirectoryDependencies} {answers : ℕ → Bool}
    {t t' : σ} {n n' : ℕ} :
    materializeDependencies mapped bigEndian type dependencies answers t n = .ok type' t' n' ↔
      ∃ words s₁, readDependencies dependencies.count
          ⟨dependencies.wordsSource.bytes mapped, 0, bigEndian⟩ answers t n =
            .ok (words, s₁) t' n' ∧
        s₁.position = s₁.data.length ∧ { type with dependencies := words } = type' := by
  unfold materializeDependencies
  dsimp only
  rw [Call.bind_eq_ok]
  constructor
  · rintro ⟨⟨words, s₁⟩, t₁, n₁, hread, hrest⟩
    obtain ⟨hend, hpure⟩ := Call.require_bind_eq_ok.mp hrest
    obtain ⟨heq, rfl, rfl⟩ := Call.pure_eq_ok.mp hpure
    exact ⟨words, s₁, hread, hend, heq⟩
  · rintro ⟨words, s₁, hread, hend, rfl⟩
    exact ⟨(words, s₁), t', n', hread, Call.require_bind_eq_ok.mpr ⟨hend, rfl⟩⟩

/-- **The dependencies** are read as if their words were cut out. -/
theorem agrees_dependencies (type : TypeTreeType) (h : source.Holds at_ 0) :
    source.Agrees (σ := σ) (readTypeDependencies type) source.dependencyWords
      (materializeDependencies source.bytes (source.endianSelector != 0) type) at_ := by
  intro answers t n type' s' t' n'
  have hstop : at_ + 4 + (source.dependencyRow at_).wordsSource.size =
      at_ + (source.dependencyCost at_).bytes := Nat.add_assoc _ _ _
  unfold readTypeDependencies
  simp only [ofOption_bind_eq_ok, Prod.exists, readUInt32_stream_iff h,
    materializeDependencies_eq_ok]
  constructor
  · rintro ⟨_, _, ⟨hcount, rfl, rfl⟩, hrest⟩
    obtain ⟨⟨words, s₂⟩, t₂, n₂, hwords, hpure⟩ := Call.bind_eq_ok.mp hrest
    obtain ⟨heq, rfl, rfl⟩ := Call.pure_eq_ok.mp hpure
    cases heq
    obtain ⟨⟨hmax, -⟩, heach⟩ := readDependencies_eq_ok.mp hwords
    obtain ⟨bytes', hlength, hconsumes'⟩ := wide_int32.each _ _ _ _ heach
    obtain ⟨bytes, hconsumes, s₁, hread, hend⟩ := (localCall_dependencies _).cut_iff.mp hwords
    obtain rfl := hconsumes.unique hconsumes'
    obtain ⟨hspells, rfl⟩ := (consumes_stream_iff hcount.stop).mp hconsumes
    have hheld : source.Holds at_ (4 + (source.dependencyRow at_).wordsSource.size) := by
      refine holds_add.mpr ⟨hcount, ?_⟩
      show source.Holds _ (_ * 4)
      rw [← hlength]
      exact hspells.holds
    refine ⟨_, _, dependencyWords_eq_some.mpr ⟨hmax, hheld, rfl, rfl⟩, ⟨words, s₁, ?_, hend, rfl⟩,
      ?_⟩
    · show readDependencies _ ⟨(PrefixSpan.mk _ _).bytes _, _, _⟩ answers t n = _
      rw [hspells.bytes hlength]
      exact hread
    · rw [hlength]
      exact congrArg source.stream hstop
  · rintro ⟨_, _, hrow, ⟨words, s₁, hread, hend, rfl⟩, rfl⟩
    obtain ⟨hmax, hholds, rfl, rfl⟩ := dependencyWords_eq_some.mp hrow
    obtain ⟨hcount, hheld⟩ := holds_add.mp hholds
    obtain ⟨hlength, hspells⟩ := spells_bytes hheld
    refine ⟨_, _, ⟨hcount, rfl, rfl⟩, Call.bind_eq_ok.mpr ⟨(words, _), t', n',
      (localCall_dependencies _).cut_iff.mpr ⟨_, (consumes_stream_iff hcount.stop).mpr
        ⟨hspells, ?_⟩, s₁, hread, hend⟩, rfl⟩⟩
    rw [hlength, hstop]
    rfl

/-! ## Type records -/

/-- The two rules for the script hash say the same of a record. -/
def RulesCoincide (source : MetadataSource) (isRefType : Bool) (at_ : ℕ) : Prop :=
  source.Holds at_ 7 →
    typeV22HashShape (source.classIdBits at_) (source.scriptIndexBits at_) =
      some (readsScriptHash 22 isRefType (source.classIdBits at_).toInt32
        (source.scriptIndexBits at_))

/-- **The identity** is read where the two rules for the script hash agree. -/
theorem agrees_identity {isRefType : Bool} (h : source.Holds at_ 0)
    (hrule : source.RulesCoincide isRefType at_) :
    source.Agrees (σ := σ) (fun s => Call.ofOption () (readTypeIdentity 22 isRefType s))
      source.typePrefix (fun row => Call.ofOption () ((materializeTypeIdentity source.bytes row).map
        fun type => { type with isRefType })) at_ := by
  intro answers t n type s' t' n'
  simp only [ofOption_eq_ok, readTypeIdentity_stream_iff h, Option.map_eq_some_iff]
  constructor
  · rintro ⟨⟨present, base, rfl, hholds, hbase, rfl, rfl⟩, rfl, rfl⟩
    have hshape := hrule (hholds.part 0 7 (by omega))
    exact ⟨_, _, typePrefix_eq_some.mpr ⟨_, hshape, hholds, rfl, rfl⟩,
      ⟨⟨base, hbase, rfl⟩, rfl, rfl⟩, rfl⟩
  · rintro ⟨row, d, hrow, ⟨⟨base, hbase, rfl⟩, rfl, rfl⟩, rfl⟩
    obtain ⟨present, hshape, hholds, rfl, rfl⟩ := typePrefix_eq_some.mp hrow
    have hagree := hrule (hholds.part 0 7 (by omega))
    rw [hshape, Option.some.injEq] at hagree
    exact ⟨⟨present, base, hagree.symm, hholds, hbase, rfl, rfl⟩, rfl, rfl⟩

/-- What an ordinary type has behind its identity. -/
def materializeDirectoryBody (mapped : Text) (bigEndian : Bool) (type : TypeTreeType) :
    Option DirectoryTree × Option DirectoryDependencies → Call Unit σ TypeTreeType
  | (some tree, some dependencies) => do
      let type ← materializeTreePayload mapped type tree bigEndian
      let type ← materializeDependencies mapped bigEndian type dependencies
      Call.require (typetreeValidateSchema type) ()
      return type
  | _ => pure type

/-- What a reference type has behind its identity. -/
def materializeReferenceBody (mapped : Text) (bigEndian : Bool) (type : TypeTreeType) :
    Option DirectoryTree × Option TailReferenceNames → Call Unit σ TypeTreeType
  | (some tree, some names) => do
      let type ← materializeTreePayload mapped type tree bigEndian
      let type ← materializeNames mapped type names
      Call.require (typetreeValidateSchema type) ()
      return type
  | _ => pure type

/-- What is read behind an identity. -/
def readTypeBody (hasTree isRefType : Bool) (type : TypeTreeType) (stream : ByteStream) :
    Call Unit σ (TypeTreeType × ByteStream) :=
  if hasTree then readTypeTree 22 isRefType type stream else pure (type, stream)

theorem agrees_pure (a : α) (b : β) (make : β → Call Unit σ α) (hmake : make b = pure a) :
    source.Agrees (fun s => pure (a, s)) (pure b) make at_ := by
  intro answers t n a' s' t' n'
  rw [Call.pure_eq_ok, Prod.mk.injEq]
  constructor
  · rintro ⟨⟨rfl, rfl⟩, rfl, rfl⟩
    exact ⟨b, 0, Decoder.pure_eq_some.mpr ⟨rfl, rfl⟩, by rw [hmake]; rfl, rfl⟩
  · rintro ⟨b', d, hb, hm, rfl⟩
    obtain ⟨rfl, rfl⟩ := Decoder.pure_eq_some.mp hb
    rw [hmake] at hm
    obtain ⟨rfl, rfl, rfl⟩ := Call.pure_eq_ok.mp hm
    exact ⟨⟨rfl, rfl⟩, rfl, rfl⟩

theorem agrees_directoryBody (hasTree : Bool) (type : TypeTreeType) (h : source.Holds at_ 0) :
    source.Agrees (σ := σ) (readTypeBody hasTree false type) (source.directoryTreeWhen hasTree)
      (materializeDirectoryBody source.bytes (source.endianSelector != 0) type) at_ := by
  cases hasTree with
  | false => exact agrees_pure type (none, none) _ rfl
  | true =>
      have htree := ((agrees_tree (σ := σ) type h).bind fun type' _ _ hQ =>
        agrees_dependencies type' (recognizes_tree.stop (i := 0) hQ)).andThen fun type =>
          Call.require (typetreeValidateSchema type) () >>= fun _ => pure type
      refine (htree.row (fun r _ => (some r.1, some r.2)) 0 rfl (fun pair d => ?_) ?_).congr ?_
      · refine Iff.trans ?_ (scan_map_eq_some
          (g := fun r : DirectoryTree × DirectoryDependencies => (some r.1, some r.2)))
        rw [← directoryTree_eq]
        rfl
      · intro r e
        simp only [materializeDirectoryBody, Call.bind_assoc]
      · simp only [readTypeBody, readTypeTree, Call.bind_assoc]
        rfl

theorem agrees_referenceBody (hasTree : Bool) (type : TypeTreeType) (h : source.Holds at_ 0) :
    source.Agrees (σ := σ) (readTypeBody hasTree true type) (source.referenceTreeWhen hasTree)
      (materializeReferenceBody source.bytes (source.endianSelector != 0) type) at_ := by
  cases hasTree with
  | false => exact agrees_pure type (none, none) _ rfl
  | true =>
      have htree := ((agrees_tree (σ := σ) type h).bind fun type' _ _ hQ =>
        agrees_names type' (recognizes_tree.stop (i := 0) hQ)).andThen fun type =>
          Call.require (typetreeValidateSchema type) () >>= fun _ => pure type
      refine (htree.row (fun r _ => (some r.1, some r.2)) 0 rfl (fun pair d => ?_) ?_).congr ?_
      · refine Iff.trans ?_ (scan_map_eq_some
          (g := fun r : DirectoryTree × TailReferenceNames => (some r.1, some r.2)))
        rw [← referenceTree_eq]
        rfl
      · intro r e
        simp only [materializeReferenceBody, Call.bind_assoc]
      · simp only [readTypeBody, readTypeTree, Call.bind_assoc]
        rfl

/-! ## The rows -/

theorem materializeTypeIdentity_ordinary (mapped : Text) (row : MetadataTypePrefix) :
    (materializeTypeIdentity mapped row).map (fun type => { type with isRefType := false }) =
      materializeTypeIdentity mapped row := by
  unfold materializeTypeIdentity
  split <;> rfl

theorem typetreeMaterializeDirectoryType_eq (mapped : Text) (row : DirectoryTypeRow)
    (bigEndian : Bool) :
    typetreeMaterializeDirectoryType (σ := σ) mapped row bigEndian =
      (Call.ofOption () ((materializeTypeIdentity mapped row.toMetadataTypePrefix).map
        fun type => { type with isRefType := false }) >>= fun type =>
          materializeDirectoryBody mapped bigEndian type (row.tree, row.dependencies)) := by
  rw [materializeTypeIdentity_ordinary]
  unfold typetreeMaterializeDirectoryType
  refine congrArg _ (funext fun type => ?_)
  cases row.tree with
  | none => rfl
  | some tree =>
      cases row.dependencies with
      | none => rfl
      | some dependencies =>
          simp only [materializeDirectoryBody, materializeDependencies, Call.bind_assoc]
          rfl

theorem typetreeMaterializeMetadataTailReferenceType_eq (mapped : Text)
    (row : TailReferenceTypeRow) (bigEndian : Bool) :
    typetreeMaterializeMetadataTailReferenceType (σ := σ) mapped row bigEndian =
      (Call.ofOption () ((materializeTypeIdentity mapped row.toMetadataTypePrefix).map
        fun type => { type with isRefType := true }) >>= fun type =>
          materializeReferenceBody mapped bigEndian type (row.tree, row.names)) := by
  unfold typetreeMaterializeMetadataTailReferenceType
  cases materializeTypeIdentity mapped row.toMetadataTypePrefix with
  | none => rfl
  | some type =>
      simp only [Option.map_some, Call.ofOption_some_bind]
      cases row.tree with
      | none => rfl
      | some tree =>
          cases row.names with
          | none => rfl
          | some names =>
              simp only [materializeReferenceBody, materializeNames, Call.bind_assoc]
              rfl

variable {isRefType hasTree : Bool}

/-- **An ordinary type**, read at once or through its row. -/
theorem agrees_directoryType (ordinal : ℕ) (h : source.Holds at_ 0)
    (hrule : source.RulesCoincide false at_) :
    source.Agrees (σ := σ) (fun s => typetreeReadType s 22 hasTree false)
      (source.directoryType hasTree ordinal) (fun row =>
        typetreeMaterializeDirectoryType source.bytes row (source.endianSelector != 0)) at_ := by
  have hboth := (agrees_identity (σ := σ) h hrule).bind fun type _ _ hQ =>
    agrees_directoryBody hasTree type (recognizes_typePrefix.stop (i := 0) hQ)
  refine hboth.row (fun r e => ⟨r.1, ordinal, ⟨at_, at_ + e.bytes - at_⟩, r.2.1, r.2.2⟩)
    { work := 1 } rfl (fun row d => ?_) fun r e => typetreeMaterializeDirectoryType_eq _ _ _
  refine Iff.trans ?_ (scan_row_eq_some (g := fun start
    (r : MetadataTypePrefix × Option DirectoryTree × Option DirectoryDependencies) stop =>
      DirectoryTypeRow.mk r.1 ordinal ⟨start, stop - start⟩ r.2.1 r.2.2))
  simp only [directoryType, scan_bind_assoc, scan_pure_bind]

/-- **A reference type**, read at once or through its row. -/
theorem agrees_referenceType (ordinal : ℕ) (h : source.Holds at_ 0)
    (hrule : source.RulesCoincide true at_) :
    source.Agrees (σ := σ) (fun s => typetreeReadType s 22 hasTree true)
      (source.referenceType hasTree ordinal) (fun row =>
        typetreeMaterializeMetadataTailReferenceType source.bytes row
          (source.endianSelector != 0)) at_ := by
  have hboth := (agrees_identity (σ := σ) h hrule).bind fun type _ _ hQ =>
    agrees_referenceBody hasTree type (recognizes_typePrefix.stop (i := 0) hQ)
  refine hboth.row (fun r e => ⟨r.1, ordinal, ⟨at_, at_ + e.bytes - at_⟩, r.2.1, r.2.2⟩)
    { work := 1 } rfl (fun row d => ?_)
    fun r e => typetreeMaterializeMetadataTailReferenceType_eq _ _ _
  refine Iff.trans ?_ (scan_row_eq_some (g := fun start
    (r : MetadataTypePrefix × Option DirectoryTree × Option TailReferenceNames) stop =>
      TailReferenceTypeRow.mk r.1 ordinal ⟨start, stop - start⟩ r.2.1 r.2.2))
  simp only [referenceType, scan_bind_assoc, scan_pure_bind]

end MetadataSource

end UnityCommon.Metadata
