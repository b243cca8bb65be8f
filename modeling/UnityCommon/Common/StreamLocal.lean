import UnityCommon.Common.StreamExact

/-!
# Local readers of a stream

A reader is local when it sees the bytes it consumes and no others: what it does
in a stream is what it does on just those bytes. Local readers compose, so a
part of a file may be read in place or cut out and read on its own.
-/

namespace UnityCommon.ByteStream

variable {ε σ α β ι : Type}

/-- A stretch of bytes, read from its start to its end. -/
def Alone (R : ByteStream → ByteStream → Prop) (big : Bool) (bytes : Text) : Prop :=
  R ⟨bytes, 0, big⟩ ⟨bytes, bytes.length, big⟩

/-- From one stream to the other exactly when the bytes between them allow it. -/
def Local (R : ByteStream → ByteStream → Prop) : Prop :=
  ∀ s s', R s s' ↔ ∃ bytes, Consumes s s' bytes ∧ Alone R s.bigEndian bytes

theorem consumes_alone (big : Bool) (bytes : Text) :
    Consumes ⟨bytes, 0, big⟩ ⟨bytes, bytes.length, big⟩ bytes :=
  ⟨rfl, rfl, (Nat.zero_add _).symm, by simp [ByteStream.unread]⟩

theorem Consumes.unique {s s' : ByteStream} {xs ys : Text} (h : Consumes s s' xs)
    (h' : Consumes s s' ys) : xs = ys := by
  have heq := h.unread.symm.trans h'.unread
  exact List.append_cancel_right heq

/-- What says only which bytes are consumed is local. -/
theorem local_consumes {R : ByteStream → ByteStream → Prop} (P : Bool → Text → Prop)
    (h : ∀ s s', R s s' ↔ ∃ bytes, Consumes s s' bytes ∧ P s.bigEndian bytes) : Local R := by
  have halone : ∀ big bytes, Alone R big bytes ↔ P big bytes := by
    intro big bytes
    rw [Alone, h]
    constructor
    · rintro ⟨bytes', hconsumes, hP⟩
      rwa [hconsumes.unique (consumes_alone big bytes)] at hP
    · exact fun hP => ⟨bytes, consumes_alone big bytes, hP⟩
  intro s s'
  simp only [h, halone]

theorem local_stay (p : Prop) : Local fun s s' => p ∧ s = s' := by
  refine local_consumes (fun _ bytes => p ∧ bytes = []) fun s s' => ?_
  constructor
  · rintro ⟨hp, rfl⟩
    exact ⟨[], Consumes.refl s, hp, rfl⟩
  · rintro ⟨_, hconsumes, hp, rfl⟩
    exact ⟨hp, hconsumes.eq_advance.symm⟩

theorem Local.exists {R : ι → ByteStream → ByteStream → Prop} (h : ∀ i, Local (R i)) :
    Local fun s s' => ∃ i, R i s s' := by
  intro s s'
  constructor
  · rintro ⟨i, hi⟩
    obtain ⟨bytes, hconsumes, halone⟩ := (h i s s').mp hi
    exact ⟨bytes, hconsumes, i, halone⟩
  · rintro ⟨bytes, hconsumes, i, halone⟩
    exact ⟨i, (h i s s').mpr ⟨bytes, hconsumes, halone⟩⟩

theorem Local.and {R : ByteStream → ByteStream → Prop} (p : Prop) (h : Local R) :
    Local fun s s' => p ∧ R s s' := by
  intro s s'
  constructor
  · rintro ⟨hp, hR⟩
    obtain ⟨bytes, hconsumes, halone⟩ := (h s s').mp hR
    exact ⟨bytes, hconsumes, hp, halone⟩
  · rintro ⟨bytes, hconsumes, hp, halone⟩
    exact ⟨hp, (h s s').mpr ⟨bytes, hconsumes, halone⟩⟩

/-- **One local reader after the other.** -/
theorem Local.comp {R Q : ByteStream → ByteStream → Prop} (hR : Local R) (hQ : Local Q) :
    Local fun s s' => ∃ t, R s t ∧ Q t s' := by
  intro s s'
  constructor
  · rintro ⟨t, hst, hts⟩
    obtain ⟨front, hfront, hRalone⟩ := (hR s t).mp hst
    obtain ⟨back, hback, hQalone⟩ := (hQ t s').mp hts
    rw [hfront.bigEndian] at hQalone
    obtain ⟨middle, hfront', hback'⟩ := (consumes_alone s.bigEndian (front ++ back)).split
    exact ⟨front ++ back, hfront.trans hback, middle, (hR _ _).mpr ⟨front, hfront', hRalone⟩,
      (hQ _ _).mpr ⟨back, hback', by rwa [hfront'.bigEndian]⟩⟩
  · rintro ⟨bytes, hconsumes, t, hRt, hQt⟩
    obtain ⟨front, hfront, hRalone⟩ := (hR _ _).mp hRt
    obtain ⟨back, hback, hQalone⟩ := (hQ _ _).mp hQt
    rw [hfront.bigEndian] at hQalone
    obtain rfl : front ++ back = bytes :=
      (hfront.trans hback).unique (consumes_alone s.bigEndian bytes)
    obtain ⟨middle, hfront', hback'⟩ := hconsumes.split
    exact ⟨middle, (hR _ _).mpr ⟨front, hfront', hRalone⟩,
      (hQ _ _).mpr ⟨back, hback', by rwa [hfront'.bigEndian]⟩⟩

/-! ## Readers and calls -/

def LocalRead (x : ByteStream → Option (α × ByteStream)) : Prop :=
  ∀ a, Local fun s s' => x s = some (a, s')

def LocalCall (x : ByteStream → Call ε σ (α × ByteStream)) : Prop :=
  ∀ answers t n a t' n', Local fun s s' => x s answers t n = .ok (a, s') t' n'

theorem Local.congr {R Q : ByteStream → ByteStream → Prop} (hR : Local R)
    (h : ∀ s s', Q s s' ↔ R s s') : Local Q := by
  have heq : Q = R := funext fun s => funext fun s' => propext (h s s')
  rwa [heq]

theorem localRead_pure (a : α) : LocalRead fun s => some (a, s) := by
  intro b
  refine (local_stay (a = b)).congr fun s s' => ?_
  simp

theorem LocalRead.bind {x : ByteStream → Option (α × ByteStream)}
    {f : α → ByteStream → Option (β × ByteStream)} (hx : LocalRead x)
    (hf : ∀ a, LocalRead (f a)) : LocalRead fun s => (x s).bind fun r => f r.1 r.2 := by
  intro b
  refine (Local.exists fun a => (hx a).comp (hf a b)).congr fun s s' => ?_
  simp only [Option.bind_eq_some_iff, Prod.exists]

theorem LocalRead.map {x : ByteStream → Option (α × ByteStream)} (hx : LocalRead x)
    (f : α → β) : LocalRead fun s => (x s).map fun r => (f r.1, r.2) := by
  intro b
  refine (Local.exists fun a => (hx a).and (f a = b)).congr fun s s' => ?_
  simp only [Option.map_eq_some_iff, Prod.exists, Prod.mk.injEq]
  constructor
  · rintro ⟨a, t, ht, hb, rfl⟩
    exact ⟨a, hb, ht⟩
  · rintro ⟨a, hb, ht⟩
    exact ⟨a, s', ht, hb, rfl⟩

theorem LocalRead.guard {x : ByteStream → Option (α × ByteStream)} (hx : LocalRead x) (p : Prop)
    [Decidable p] : LocalRead fun s => (guard p : Option Unit).bind fun _ => x s := by
  intro a
  refine ((hx a).and p).congr fun s s' => ?_
  simp [Option.bind_eq_some_iff]

theorem localRead_bytes (count : ℕ) : LocalRead fun s => s.readBytes count := by
  intro raw
  refine local_consumes (fun _ bytes => bytes = raw ∧ raw.length = count) fun s s' => ?_
  rw [readBytes_eq_some]
  constructor
  · rintro ⟨hlength, hconsumes⟩
    exact ⟨raw, hconsumes, rfl, hlength⟩
  · rintro ⟨_, hconsumes, rfl, hlength⟩
    exact ⟨hlength, hconsumes⟩

theorem localRead_nat (width : ℕ) : LocalRead fun s => s.readNat width := by
  intro value
  refine local_consumes (fun big bytes => bytes.length = width ∧
    (if big then Bytes.ofBE bytes else Bytes.ofLE bytes) = value) fun s s' => ?_
  simp only [readNat, Option.map_eq_some_iff, Prod.exists, Prod.mk.injEq, readBytes_eq_some]
  constructor
  · rintro ⟨raw, t, ⟨hlength, hconsumes⟩, hvalue, rfl⟩
    exact ⟨raw, hconsumes, hlength, hvalue⟩
  · rintro ⟨raw, hconsumes, hlength, hvalue⟩
    exact ⟨raw, s', ⟨hlength, hconsumes⟩, hvalue, rfl⟩

theorem localRead_uint8 : LocalRead readUInt8 := (localRead_nat 1).map _
theorem localRead_uint16 : LocalRead readUInt16 := (localRead_nat 2).map _
theorem localRead_uint32 : LocalRead readUInt32 := (localRead_nat 4).map _
theorem localRead_int32 : LocalRead readInt32 := localRead_uint32.map _

theorem LocalRead.each {read : ByteStream → Option (α × ByteStream)} (h : LocalRead read) :
    ∀ count, LocalRead fun s => s.readEach read count
  | 0 => localRead_pure []
  | count + 1 => h.bind fun value => (LocalRead.each h count).map fun values => value :: values

export Call (ofOption_eq_ok ofOption_bind_eq_ok)

theorem localCall_pure (a : α) : LocalCall fun s => (pure (a, s) : Call ε σ (α × ByteStream)) := by
  intro answers t n b t' n'
  refine (local_stay (a = b ∧ t = t' ∧ n = n')).congr fun s s' => ?_
  rw [Call.pure_eq_ok, Prod.mk.injEq]
  tauto

theorem LocalCall.bind {x : ByteStream → Call ε σ (α × ByteStream)}
    {f : α → ByteStream → Call ε σ (β × ByteStream)} (hx : LocalCall x)
    (hf : ∀ a, LocalCall (f a)) : LocalCall fun s => x s >>= fun r => f r.1 r.2 := by
  intro answers t n b t' n'
  refine (Local.exists fun a => Local.exists fun t₁ => Local.exists fun n₁ =>
    (hx answers t n a t₁ n₁).comp (hf a answers t₁ n₁ b t' n')).congr fun s s' => ?_
  rw [Call.bind_eq_ok]
  constructor
  · rintro ⟨⟨a, s₁⟩, t₁, n₁, hfirst, hrest⟩
    exact ⟨a, t₁, n₁, s₁, hfirst, hrest⟩
  · rintro ⟨a, t₁, n₁, s₁, hfirst, hrest⟩
    exact ⟨(a, s₁), t₁, n₁, hfirst, hrest⟩

/-- **In place or cut out.** A local call on a stream is the same call on the
bytes it consumes, run to their end. -/
theorem LocalCall.cut_iff {x : ByteStream → Call ε σ (α × ByteStream)} (hx : LocalCall x)
    {answers : ℕ → Bool} {t t' : σ} {n n' : ℕ} {a : α} {s s' : ByteStream} :
    x s answers t n = .ok (a, s') t' n' ↔
      ∃ bytes, Consumes s s' bytes ∧ ∃ s₁, x ⟨bytes, 0, s.bigEndian⟩ answers t n =
        .ok (a, s₁) t' n' ∧ s₁.position = s₁.data.length := by
  refine (hx answers t n a t' n' s s').trans ?_
  refine exists_congr fun bytes => and_congr_right fun _ => ?_
  constructor
  · exact fun halone => ⟨_, halone, rfl⟩
  · rintro ⟨s₁, hs₁, hend⟩
    obtain ⟨front, hfront, -⟩ := (hx answers t n a t' n' _ s₁).mp hs₁
    have heq : s₁ = ⟨bytes, bytes.length, s.bigEndian⟩ := by
      obtain ⟨data, position, big⟩ := s₁
      have hdata : data = bytes := hfront.data
      have hbig : big = s.bigEndian := hfront.bigEndian
      have hposition : position = data.length := hend
      rw [hposition, hdata, hbig]
    rw [heq] at hs₁
    exact hs₁

/-- A call that does not look at the stream, then a local one. -/
theorem LocalCall.after {f : α → ByteStream → Call ε σ (β × ByteStream)} (x : Call ε σ α)
    (hf : ∀ a, LocalCall (f a)) : LocalCall fun s => x >>= fun a => f a s := by
  intro answers t n b t' n'
  refine (Local.exists fun a => Local.exists fun t₁ => Local.exists fun n₁ =>
    (hf a answers t₁ n₁ b t' n').and (x answers t n = .ok a t₁ n₁)).congr fun s s' => ?_
  exact Call.bind_eq_ok

/-! ## Readers of a fixed width -/

/-- A reader that always consumes as many bytes. -/
def Wide (width : ℕ) (x : ByteStream → Option (α × ByteStream)) : Prop :=
  ∀ s a s', x s = some (a, s') → ∃ bytes, bytes.length = width ∧ Consumes s s' bytes

theorem Wide.bind {x : ByteStream → Option (α × ByteStream)}
    {f : α → ByteStream → Option (β × ByteStream)} {width more : ℕ} (hx : Wide width x)
    (hf : ∀ a, Wide more (f a)) : Wide (width + more) fun s => (x s).bind fun r => f r.1 r.2 := by
  intro s b s' h
  obtain ⟨⟨a, t⟩, hfirst, hrest⟩ := Option.bind_eq_some_iff.mp h
  obtain ⟨front, hfront, hconsumes⟩ := hx s a t hfirst
  obtain ⟨back, hback, hconsumes'⟩ := hf a t b s' hrest
  exact ⟨front ++ back, by rw [List.length_append, hfront, hback], hconsumes.trans hconsumes'⟩

theorem Wide.map {x : ByteStream → Option (α × ByteStream)} {width : ℕ} (hx : Wide width x)
    (f : α → β) : Wide width fun s => (x s).map fun r => (f r.1, r.2) := by
  intro s b s' h
  obtain ⟨⟨a, t⟩, hread, heq⟩ := Option.map_eq_some_iff.mp h
  cases heq
  exact hx s a t hread

theorem wide_pure (a : α) : Wide 0 fun s => some (a, s) := by
  intro s b s' h
  cases h
  exact ⟨[], rfl, Consumes.refl s⟩

theorem wide_bytes (count : ℕ) : Wide count fun s => s.readBytes count := by
  intro s raw s' h
  obtain ⟨hlength, hconsumes⟩ := readBytes_eq_some.mp h
  exact ⟨raw, hlength, hconsumes⟩

theorem wide_nat (width : ℕ) : Wide width fun s => s.readNat width := by
  intro s a s' h
  obtain ⟨⟨raw, t⟩, hread, heq⟩ := Option.map_eq_some_iff.mp h
  cases heq
  exact wide_bytes width s raw _ hread

theorem wide_uint8 : Wide 1 readUInt8 := (wide_nat 1).map _
theorem wide_uint16 : Wide 2 readUInt16 := (wide_nat 2).map _
theorem wide_uint32 : Wide 4 readUInt32 := (wide_nat 4).map _
theorem wide_int32 : Wide 4 readInt32 := wide_uint32.map _

theorem Wide.each {read : ByteStream → Option (α × ByteStream)} {width : ℕ}
    (h : Wide width read) : ∀ count, Wide (count * width) fun s => s.readEach read count
  | 0 => by
      rw [Nat.zero_mul]
      exact wide_pure []
  | count + 1 => by
      rw [Nat.succ_mul, Nat.add_comm]
      exact h.bind fun value => (Wide.each h count).map fun values => value :: values

theorem Wide.le_remaining {x : ByteStream → Option (α × ByteStream)} {width : ℕ}
    (hx : Wide width x) {s s' : ByteStream} {a : α} (h : x s = some (a, s')) :
    width ≤ s.remaining := by
  obtain ⟨bytes, rfl, hconsumes⟩ := hx s a s' h
  exact hconsumes.remaining ▸ Nat.le_add_right _ _

end UnityCommon.ByteStream
