import UnityCommon.Common.StreamSpan
import UnityCommon.Lib.Call

/-!
# Exact readers of a stream

A call on a stream is exact for an encoding when it succeeds on the encodings of
good records and on nothing else, and has then read just that encoding. What it
returns of the record is a function of it; a reader that aligns itself is exact
from aligned positions only.
-/

namespace UnityCommon.ByteStream

variable {ε α β γ δ : Type} {s s' : ByteStream} {bytes rest : Text} {alignment : ℕ}

theorem Consumes.eq_advance (h : Consumes s s' bytes) : s' = s.advance bytes.length := by
  obtain ⟨hdata, hbig, hposition, -⟩ := h
  cases s
  cases s'
  simp only at hdata hbig hposition
  rw [hdata, hbig, hposition]
  rfl

/-- A stretch is read part by part. -/
theorem Consumes.split (h : Consumes s s' (bytes ++ rest)) :
    ∃ middle, Consumes s middle bytes ∧ Consumes middle s' rest := by
  have hunread : (s.advance bytes.length).unread = rest ++ s'.unread := by
    rw [ByteStream.unread, advance, ← List.drop_drop]
    have hahead := h.unread
    rw [List.append_assoc] at hahead
    exact (congrArg _ hahead).trans List.drop_left
  refine ⟨s.advance bytes.length, ⟨rfl, rfl, rfl, ?_⟩, ⟨h.data, h.bigEndian, ?_, hunread⟩⟩
  · rw [hunread, h.unread, List.append_assoc]
  · rw [h.position, List.length_append, advance, Nat.add_assoc]

theorem length_unread (s : ByteStream) : s.unread.length = s.remaining := by
  rw [ByteStream.unread, List.length_drop, remaining]

theorem Consumes.remaining (h : Consumes s s' bytes) :
    s.remaining = bytes.length + s'.remaining := by
  rw [← length_unread, h.unread, List.length_append, length_unread]

theorem Consumes.window (h : Consumes s s' bytes) : s.window bytes.length = bytes := by
  show s.unread.take bytes.length = bytes
  rw [h.unread, List.take_left]

/-- Nothing but the bytes ahead is read. -/
theorem consumes_iff_window (s s' : ByteStream) (bytes : Text) :
    Consumes s s' bytes ↔ bytes.length ≤ s.remaining ∧ s.window bytes.length = bytes ∧
      s' = s.advance bytes.length := by
  constructor
  · intro h
    exact ⟨h.remaining ▸ Nat.le_add_right _ _, h.window, h.eq_advance⟩
  · rintro ⟨hle, hwindow, rfl⟩
    have hconsumes := (consumes_advance (Nat.not_lt.mpr hle)).1
    rwa [hwindow] at hconsumes

theorem Consumes.aligned (h : Consumes s s' bytes) (hs : s.position % alignment = 0)
    (hbytes : bytes.length % alignment = 0) : s'.position % alignment = 0 := by
  rw [h.position, Nat.add_mod, hs, hbytes]
  simp

/-- At an aligned position of a stream of this byte order. -/
structure At (alignment : ℕ) (big : Bool) (s : ByteStream) : Prop where
  position : s.position % alignment = 0
  bigEndian : s.bigEndian = big

theorem At.next {big : Bool} (hs : At alignment big s) (h : Consumes s s' bytes)
    (hbytes : bytes.length % alignment = 0) : At alignment big s' :=
  ⟨h.aligned hs.position hbytes, h.bigEndian.trans hs.bigEndian⟩

/-- **Exactness.** -/
def Exact (alignment : ℕ) (x : Call ε ByteStream α) (encode : Bool → γ → Text) (good : γ → Prop)
    (value : γ → α) : Prop :=
  ∀ answers s n a s' n', s.position % alignment = 0 →
    (x answers s n = .ok a s' n' ↔
      n' = n ∧ ∃ c, good c ∧ value c = a ∧ Consumes s s' (encode s.bigEndian c))

namespace Exact

variable {x : Call ε ByteStream α} {encode : Bool → γ → Text} {good : γ → Prop} {value : γ → α}
  {answers : ℕ → Bool} {n n' : ℕ}

theorem weaken (hx : Exact 1 x encode good value) (alignment : ℕ) :
    Exact alignment x encode good value := by
  intro answers s n a s' n' _
  exact hx answers s n a s' n' (Nat.mod_one _)

/-- An exact reader, then what follows. -/
theorem bind_eq_ok (hx : Exact alignment x encode good value) {f : α → Call ε ByteStream β} {b : β}
    (hs : s.position % alignment = 0) :
    (x >>= f) answers s n = .ok b s' n' ↔
      ∃ c s₁, good c ∧ Consumes s s₁ (encode s.bigEndian c) ∧
        f (value c) answers s₁ n = .ok b s' n' := by
  rw [Call.bind_eq_ok]
  constructor
  · rintro ⟨a, s₁, n₁, ha, hf⟩
    obtain ⟨rfl, c, hc, rfl, hconsumes⟩ := (hx answers s n a s₁ n₁ hs).mp ha
    exact ⟨c, s₁, hc, hconsumes, hf⟩
  · rintro ⟨c, s₁, hc, hconsumes, hf⟩
    exact ⟨value c, s₁, n, (hx answers s n _ s₁ n hs).mpr ⟨rfl, c, hc, rfl, hconsumes⟩, hf⟩

/-- **What was written is read.** -/
theorem yields (hx : Exact alignment x encode good value) {big : Bool} (hs : At alignment big s)
    {denied : ε} {c : γ} (hc : good c) (h : Consumes s s' (encode big c)) :
    Call.Yields denied x s (value c) s' := by
  intro answers n
  rw [← hs.bigEndian] at h
  exact Or.inl ⟨n, (hx answers s n _ s' n hs.position).mpr ⟨rfl, c, hc, rfl, h⟩⟩

/-- The same from a position that stays aligned, in a byte order that stays. -/
theorem next (hx : Exact alignment x encode good value) {big : Bool} {f : α → Call ε ByteStream β}
    {b : β} (hs : At alignment big s)
    (haligned : ∀ c, (encode big c).length % alignment = 0)
    (h : (x >>= f) answers s n = .ok b s' n') :
    ∃ c s₁, good c ∧ At alignment big s₁ ∧ Consumes s s₁ (encode big c) ∧
      f (value c) answers s₁ n = .ok b s' n' := by
  obtain ⟨c, s₁, hc, hconsumes, hf⟩ := (hx.bind_eq_ok hs.position).mp h
  rw [hs.bigEndian] at hconsumes
  exact ⟨c, s₁, hc, hs.next hconsumes (haligned c), hconsumes, hf⟩

/-- **Repetition.** -/
theorem replicate (hx : Exact alignment x encode good value)
    (haligned : ∀ big c, good c → (encode big c).length % alignment = 0) (count : ℕ) :
    Exact alignment (Call.replicate count x) (fun big cs => cs.flatMap (encode big))
      (fun cs => cs.length = count ∧ ∀ c ∈ cs, good c) (List.map value) := by
  induction count with
  | zero =>
      intro answers s n as s' n' _
      rw [Call.replicate, Call.pure_eq_ok]
      constructor
      · rintro ⟨rfl, rfl, rfl⟩
        exact ⟨rfl, [], ⟨rfl, nofun⟩, rfl, Consumes.refl s⟩
      · rintro ⟨rfl, cs, ⟨hlength, -⟩, rfl, hconsumes⟩
        obtain rfl := List.length_eq_zero_iff.mp hlength
        exact ⟨rfl, hconsumes.eq_advance.symm, rfl⟩
  | succ count ih =>
      intro answers s n as s' n' hs
      rw [Call.replicate, hx.bind_eq_ok hs]
      constructor
      · rintro ⟨c, s₁, hc, hfirst, hrest⟩
        have hs₁ := hfirst.aligned hs (haligned _ c hc)
        obtain ⟨cs, s₂, ⟨hlength, hcs⟩, hothers, hpure⟩ := (ih.bind_eq_ok hs₁).mp hrest
        obtain ⟨rfl, rfl, rfl⟩ := Call.pure_eq_ok.mp hpure
        refine ⟨rfl, c :: cs, ⟨congrArg Nat.succ hlength, ?_⟩, rfl, ?_⟩
        · exact List.forall_mem_cons.mpr ⟨hc, hcs⟩
        · rw [hfirst.bigEndian] at hothers
          exact hfirst.trans hothers
      · rintro ⟨rfl, cs, ⟨hlength, hcs⟩, rfl, hconsumes⟩
        cases cs with
        | nil => nomatch hlength
        | cons c cs =>
            obtain ⟨hc, hcs⟩ := List.forall_mem_cons.mp hcs
            have hparts : Consumes s s' (encode s.bigEndian c ++ cs.flatMap (encode s.bigEndian)) :=
              hconsumes
            obtain ⟨s₁, hfirst, hothers⟩ := hparts.split
            refine ⟨c, s₁, hc, hfirst, ?_⟩
            rw [ih.bind_eq_ok (hfirst.aligned hs (haligned _ c hc)), hfirst.bigEndian]
            exact ⟨cs, s', ⟨Nat.succ_inj.mp hlength, hcs⟩, hothers, rfl⟩

end Exact

/-! ## Reading words -/

theorem readBytes_eq_some {count : ℕ} :
    s.readBytes count = some (bytes, s') ↔ bytes.length = count ∧ Consumes s s' bytes := by
  rw [consumes_iff_window, readBytes]
  split
  case isTrue hless =>
    simp only [reduceCtorEq, false_iff]
    rintro ⟨rfl, hle, -⟩
    omega
  case isFalse hless =>
    simp only [Option.some.injEq, Prod.mk.injEq]
    constructor
    · rintro ⟨rfl, rfl⟩
      have hlength := (consumes_advance hless).2
      exact ⟨hlength, by rw [hlength]; omega, by rw [hlength], by rw [hlength]⟩
    · rintro ⟨rfl, -, hwindow, rfl⟩
      exact ⟨hwindow, rfl⟩

/-- A number of a width in the byte order of a stream. -/
def storeNat (big : Bool) (width n : ℕ) : Text :=
  if big then Bytes.toBE width n else Bytes.toLE width n

@[simp] theorem length_storeNat (big : Bool) (width n : ℕ) : (storeNat big width n).length = width := by
  cases big
  · exact Bytes.length_toLE _ _
  · exact Bytes.length_toBE _ _

theorem readNat_eq_some {width n : ℕ} :
    s.readNat width = some (n, s') ↔
      n < 256 ^ width ∧ Consumes s s' (storeNat s.bigEndian width n) := by
  unfold readNat
  simp only [Option.map_eq_some_iff, Prod.exists, Prod.mk.injEq]
  constructor
  · rintro ⟨raw, t, hraw, rfl, rfl⟩
    obtain ⟨rfl, hconsumes⟩ := readBytes_eq_some.mp hraw
    cases hbig : s.bigEndian with
    | false =>
        refine ⟨Bytes.ofLE_lt raw, ?_⟩
        rw [storeNat, if_neg (by simp), if_neg (by simp), Bytes.toLE_ofLE]
        exact hconsumes
    | true =>
        refine ⟨Bytes.ofBE_lt raw, ?_⟩
        rw [storeNat, if_pos rfl, if_pos rfl, Bytes.toBE_ofBE]
        exact hconsumes
  · rintro ⟨hlt, hconsumes⟩
    refine ⟨_, s', readBytes_eq_some.mpr ⟨length_storeNat _ _ _, hconsumes⟩, ?_, rfl⟩
    cases s.bigEndian with
    | false =>
        rw [storeNat, if_neg (by simp), if_neg (by simp)]
        exact Bytes.ofLE_toLE hlt
    | true =>
        rw [storeNat, if_pos rfl, if_pos rfl]
        exact (congrArg Bytes.ofLE (List.reverse_reverse _)).trans (Bytes.ofLE_toLE hlt)

/-- A word in the byte order of a stream. -/
def storeU32 (big : Bool) (value : UInt32) : Text :=
  if big then storeBe32 value else storeLe32 value

@[simp] theorem length_storeU32 (big : Bool) (value : UInt32) : (storeU32 big value).length = 4 := by
  cases big
  · exact Bytes.length_toLE _ _
  · exact Bytes.length_toBE _ _

theorem load_eq_iff {big : Bool} {value : UInt32} (h : bytes.length = 4) :
    (if big then Bytes.ofBE bytes else Bytes.ofLE bytes).toUInt32 = value ↔
      bytes = storeU32 big value := by
  have hlittle : ∀ raw : Text, raw.length = 4 →
      ((Bytes.ofLE raw).toUInt32 = value ↔ raw = storeLe32 value) := by
    intro raw hraw
    constructor
    · rintro rfl
      exact (storeLe32_load hraw).symm
    · rintro rfl
      exact loadLe32_store value
  cases big with
  | false => exact hlittle bytes h
  | true =>
      refine (hlittle bytes.reverse (List.length_reverse.trans h)).trans ?_
      exact List.reverse_eq_iff

theorem readUInt32_eq_some {value : UInt32} :
    s.readUInt32 = some (value, s') ↔ Consumes s s' (storeU32 s.bigEndian value) := by
  unfold readUInt32 readNat
  simp only [Option.map_eq_some_iff, Prod.exists, Prod.mk.injEq]
  constructor
  · rintro ⟨m, t, ⟨raw, t', hraw, hm, rfl⟩, hvalue, rfl⟩
    obtain ⟨hlength, hconsumes⟩ := readBytes_eq_some.mp hraw
    rw [← (load_eq_iff hlength).mp (hm ▸ hvalue)]
    exact hconsumes
  · intro hconsumes
    have hraw := readBytes_eq_some.mpr ⟨length_storeU32 s.bigEndian value, hconsumes⟩
    exact ⟨_, s', ⟨_, s', hraw, rfl, rfl⟩, (load_eq_iff (length_storeU32 _ _)).mpr rfl, rfl⟩

theorem readInt32_eq_some {value : Int32} :
    s.readInt32 = some (value, s') ↔ Consumes s s' (storeU32 s.bigEndian value.toUInt32) := by
  unfold readInt32
  rw [← readUInt32_eq_some]
  simp only [Option.map_eq_some_iff, Prod.exists, Prod.mk.injEq]
  constructor
  · rintro ⟨bits, t, hbits, rfl, rfl⟩
    exact hbits
  · intro hbits
    exact ⟨_, s', hbits, rfl, rfl⟩

end UnityCommon.ByteStream
