import UnityCommon.Common.Stream
import UnityCommon.Common.Words

/-!
# What a read consumes

A successful read moves the position over the bytes it read and over nothing
else. Spans compose, so a sequence of reads accounts for a stretch of the data.
-/

namespace UnityCommon.ByteStream

/-- The bytes from the position on. -/
def unread (stream : ByteStream) : Text := stream.data.drop stream.position

/-- `stream_read_string_alloc`: the bytes up to a NUL, which must be there. -/
def readCString (stream : ByteStream) : Option (CString × ByteStream) :=
  let text := cstringAt stream.unread
  if stream.unread.length ≤ text.bytes.length then none
  else some (text, stream.advance (text.bytes.length + 1))

/-- A counted loop of reads. -/
def readEach {α : Type} (read : ByteStream → Option (α × ByteStream)) (count : ℕ)
    (stream : ByteStream) : Option (List α × ByteStream) :=
  match count with
  | 0 => some ([], stream)
  | count + 1 =>
      (read stream).bind fun (value, stream) =>
        (readEach read count stream).map fun (values, stream) => (value :: values, stream)

/-- From one stream to the other, exactly these bytes were read. -/
structure Consumes (stream stream' : ByteStream) (bytes : Text) : Prop where
  data : stream'.data = stream.data
  bigEndian : stream'.bigEndian = stream.bigEndian
  position : stream'.position = stream.position + bytes.length
  unread : stream.unread = bytes ++ stream'.unread

variable {s s' s'' : ByteStream} {xs ys : Text}

theorem Consumes.refl (s : ByteStream) : Consumes s s [] := ⟨rfl, rfl, rfl, rfl⟩

theorem Consumes.trans (h : Consumes s s' xs) (h' : Consumes s' s'' ys) :
    Consumes s s'' (xs ++ ys) := by
  refine ⟨h'.data.trans h.data, h'.bigEndian.trans h.bigEndian, ?_, ?_⟩
  · rw [h'.position, h.position, List.length_append]
    omega
  · rw [h.unread, h'.unread, List.append_assoc]

theorem Consumes.big (h : Consumes s s' xs) (hbig : s.bigEndian = true) :
    s'.bigEndian = true := by
  rw [h.bigEndian, hbig]

theorem consumes_advance {count : ℕ} (h : ¬ s.remaining < count) :
    Consumes s (s.advance count) (s.window count) ∧ (s.window count).length = count := by
  have hlength : (s.window count).length = count := by
    rw [window, List.length_take, List.length_drop]
    rw [remaining] at h
    omega
  refine ⟨⟨rfl, rfl, ?_, ?_⟩, hlength⟩
  · rw [hlength, advance]
  · rw [ByteStream.unread, ByteStream.unread, window, advance, ← List.drop_drop,
      List.take_append_drop]

theorem skip_consumes {count : ℕ} (h : s.skip count = some s') :
    ∃ bytes, bytes.length = count ∧ Consumes s s' bytes := by
  unfold skip at h
  split_ifs at h with hcount
  simp only [Option.some.injEq] at h
  subst h
  obtain ⟨hconsumes, hlength⟩ := consumes_advance hcount
  exact ⟨s.window count, hlength, hconsumes⟩

/-- Aligning skips fewer bytes than the alignment. -/
theorem align_consumes {alignment : ℕ} (halign : 0 < alignment)
    (h : s.align alignment = some s') :
    ∃ gap, gap.length < alignment ∧ Consumes s s' gap ∧ s'.position % alignment = 0 := by
  unfold align at h
  rw [if_neg (by omega)] at h
  have hmod := Nat.mod_lt s.position halign
  dsimp only at h
  split_ifs at h with hrem
  · obtain ⟨gap, hlength, hconsumes⟩ := skip_consumes h
    refine ⟨gap, by omega, hconsumes, ?_⟩
    have hdiv := Nat.div_add_mod s.position alignment
    have hposition : s'.position = alignment * (s.position / alignment + 1) := by
      rw [hconsumes.position, hlength, Nat.mul_add]
      omega
    rw [hposition, Nat.mul_mod_right]
  · simp only [Option.some.injEq] at h
    subst h
    exact ⟨[], by simpa using halign, Consumes.refl s, by omega⟩

theorem readNat_consumes {width n : ℕ} (hbig : s.bigEndian = true)
    (h : s.readNat width = some (n, s')) :
    Consumes s s' (Bytes.toBE width n) ∧ n < 256 ^ width := by
  unfold readNat readBytes at h
  split_ifs at h with hcount
  · cases h
  · obtain ⟨hconsumes, hlength⟩ := consumes_advance hcount
    rw [Option.map_some, Option.some.injEq, Prod.mk.injEq] at h
    obtain ⟨hn, rfl⟩ := h
    subst hn
    have hbytes := Bytes.toBE_ofBE (s.window width)
    have hlt := Bytes.ofBE_lt (s.window width)
    rw [hlength] at hbytes hlt
    rw [hbytes]
    exact ⟨hconsumes, hlt⟩

theorem readUInt16_consumes {value : UInt16} (hbig : s.bigEndian = true)
    (h : s.readUInt16 = some (value, s')) : Consumes s s' (storeBe16 value) := by
  obtain ⟨⟨n, t⟩, hread, heq⟩ := Option.map_eq_some_iff.mp h
  obtain ⟨hconsumes, hlt⟩ := readNat_consumes hbig hread
  simp only [Prod.mk.injEq] at heq
  obtain ⟨rfl, rfl⟩ := heq
  rw [storeBe16, Nat.toUInt16, UInt16.toNat_ofNat',
    Nat.mod_eq_of_lt (show n < 2 ^ 16 from hlt)]
  exact hconsumes

theorem readUInt32_consumes {value : UInt32} (hbig : s.bigEndian = true)
    (h : s.readUInt32 = some (value, s')) : Consumes s s' (storeBe32 value) := by
  obtain ⟨⟨n, t⟩, hread, heq⟩ := Option.map_eq_some_iff.mp h
  obtain ⟨hconsumes, hlt⟩ := readNat_consumes hbig hread
  simp only [Prod.mk.injEq] at heq
  obtain ⟨rfl, rfl⟩ := heq
  rw [storeBe32, Nat.toUInt32, UInt32.toNat_ofNat',
    Nat.mod_eq_of_lt (show n < 2 ^ 32 from hlt)]
  exact hconsumes

theorem readUInt64_consumes {value : UInt64} (hbig : s.bigEndian = true)
    (h : s.readUInt64 = some (value, s')) : Consumes s s' (storeBe64 value) := by
  obtain ⟨⟨n, t⟩, hread, heq⟩ := Option.map_eq_some_iff.mp h
  obtain ⟨hconsumes, hlt⟩ := readNat_consumes hbig hread
  simp only [Prod.mk.injEq] at heq
  obtain ⟨rfl, rfl⟩ := heq
  rw [storeBe64, Nat.toUInt64, UInt64.toNat_ofNat',
    Nat.mod_eq_of_lt (show n < 2 ^ 64 from hlt)]
  exact hconsumes

/-- A string is read with its terminator. -/
theorem readCString_consumes {text : CString} (h : s.readCString = some (text, s')) :
    Consumes s s' (text.bytes ++ [0]) := by
  unfold readCString at h
  dsimp only at h
  split_ifs at h with hend
  simp only [Option.some.injEq, Prod.mk.injEq] at h
  obtain ⟨rfl, rfl⟩ := h
  have hsplit := List.takeWhile_append_dropWhile (p := fun b : UInt8 => b != 0) (l := s.unread)
  have hlength : (cstringAt s.unread).bytes.length =
      (s.unread.takeWhile fun b => b != 0).length := rfl
  cases hrest : s.unread.dropWhile fun b => b != 0 with
  | nil =>
      rw [hrest, List.append_nil] at hsplit
      rw [hlength, hsplit] at hend
      exact absurd (Nat.le_refl _) hend
  | cons b rest =>
      have hb : b = 0 := by
        have hhead := List.head_dropWhile_not (l := s.unread) (fun b : UInt8 => b != 0)
          (by simp [hrest])
        simpa [hrest] using hhead
      rw [hrest, hb] at hsplit
      have hunread : s.unread = (cstringAt s.unread).bytes ++ [0] ++ rest := by
        rw [List.append_assoc]
        exact hsplit.symm
      refine ⟨rfl, rfl, ?_, ?_⟩
      · rw [advance, List.length_append, List.length_singleton]
      · have hnext : (s.advance ((cstringAt s.unread).bytes.length + 1)).unread = rest := by
          rw [ByteStream.unread, advance, ← List.drop_drop]
          show s.unread.drop _ = rest
          have hdrop := congrArg
            (List.drop ((cstringAt s.unread).bytes.length + 1)) hunread
          exact hdrop.trans (List.drop_left' (by simp))
        rw [hnext]
        exact hunread

/-- A loop of reads consumes what its rounds consume, in order. -/
theorem readEach_consumes {α : Type} {read : ByteStream → Option (α × ByteStream)}
    {encode : α → Text}
    (hread : ∀ {s s' value}, s.bigEndian = true → read s = some (value, s') →
      Consumes s s' (encode value)) :
    ∀ {count : ℕ} {s s' : ByteStream} {values : List α}, s.bigEndian = true →
      s.readEach read count = some (values, s') →
      values.length = count ∧ Consumes s s' (values.flatMap encode)
  | 0, s, s', values, _, h => by
      simp only [readEach, Option.some.injEq, Prod.mk.injEq] at h
      obtain ⟨rfl, rfl⟩ := h
      exact ⟨rfl, Consumes.refl s⟩
  | count + 1, s, s', values, hbig, h => by
      simp only [readEach, Option.bind_eq_some_iff, Option.map_eq_some_iff, Prod.exists,
        Prod.mk.injEq] at h
      obtain ⟨value, t, hvalue, rest, t', hrest, rfl, rfl⟩ := h
      have hfirst := hread hbig hvalue
      obtain ⟨hlength, hconsumes⟩ := readEach_consumes hread (hfirst.big hbig) hrest
      refine ⟨by rw [List.length_cons, hlength], ?_⟩
      rw [List.flatMap_cons]
      exact hfirst.trans hconsumes

end UnityCommon.ByteStream
