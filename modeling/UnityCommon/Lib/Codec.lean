import UnityCommon.Lib.Call

/-!
# Exact readers

A call whose state is the unread part of a sequence. A reader is exact for an
encoding when it succeeds on nothing but encodings of good values, and on all of
them: what it accepts is canonical and what is written is read back. Exactness
goes through sequencing and repetition.
-/

namespace Codec

variable {ε β α γ : Type}

/-- The next `size` elements. -/
def view (size : ℕ) (e : ε) : Call ε (List β) (List β) := fun _ s n =>
  if size ≤ s.length then .ok (s.take size) (s.drop size) n else .error e s n

/-- A value stored in `size` elements. -/
def loaded (size : ℕ) (load : List β → α) (e : ε) : Call ε (List β) α := do
  let bytes ← view size e
  return load bytes

/-- **Exactness.** The reader returns a value exactly when the value is good and
its encoding comes next. -/
def Exact (x : Call ε (List β) α) (encode : α → List β) (good : α → Prop) : Prop :=
  ∀ answers s n a s' n', x answers s n = .ok a s' n' ↔ good a ∧ s = encode a ++ s' ∧ n' = n

theorem exact_view (size : ℕ) (e : ε) :
    Exact (view (β := β) size e) id fun bytes => bytes.length = size := by
  intro answers s n bytes s' n'
  unfold view
  constructor
  · intro h
    split_ifs at h with hle
    simp only [Call.Result.ok.injEq] at h
    obtain ⟨rfl, rfl, rfl⟩ := h
    exact ⟨List.length_take_of_le hle, (List.take_append_drop size s).symm, rfl⟩
  · rintro ⟨rfl, rfl, rfl⟩
    rw [if_pos (by simp)]
    simp

variable {x : Call ε (List β) α} {encode : α → List β} {good : α → Prop}

theorem Exact.bind_eq_ok (hx : Exact x encode good) {f : α → Call ε (List β) γ}
    {answers : ℕ → Bool} {s s' : List β} {n n' : ℕ} {c : γ} :
    (x >>= f) answers s n = .ok c s' n' ↔
      ∃ a rest, good a ∧ s = encode a ++ rest ∧ f a answers rest n = .ok c s' n' := by
  rw [Call.bind_eq_ok]
  constructor
  · rintro ⟨a, rest, n₁, h, hf⟩
    obtain ⟨hgood, hs, rfl⟩ := (hx answers s n a rest n₁).mp h
    exact ⟨a, rest, hgood, hs, hf⟩
  · rintro ⟨a, rest, hgood, hs, hf⟩
    exact ⟨a, rest, n, (hx answers s n a rest n).mpr ⟨hgood, hs, rfl⟩, hf⟩

/-- An exact reader reads back what was written. -/
theorem Exact.yields (hx : Exact x encode good) {denied : ε} {a : α} (ha : good a)
    (rest : List β) : Call.Yields denied x (encode a ++ rest) a rest := by
  intro answers n
  exact Or.inl ⟨n, (hx answers _ n a rest n).mpr ⟨ha, rfl, rfl⟩⟩

theorem exact_loaded {size : ℕ} {load : List β → α} {store : α → List β} (e : ε)
    (hload : ∀ a, load (store a) = a) (hlength : ∀ a, (store a).length = size)
    (hstore : ∀ bytes, bytes.length = size → store (load bytes) = bytes) :
    Exact (loaded size load e) store fun _ => True := by
  intro answers s n a s' n'
  rw [loaded, (exact_view size e).bind_eq_ok]
  constructor
  · rintro ⟨bytes, rest, hlen, rfl, h⟩
    obtain ⟨rfl, rfl, rfl⟩ := Call.pure_eq_ok.mp h
    exact ⟨trivial, by rw [hstore bytes hlen, id], rfl⟩
  · rintro ⟨-, rfl, rfl⟩
    exact ⟨store a, s', hlength a, rfl, Call.pure_eq_ok.mpr ⟨hload a, rfl, rfl⟩⟩

/-- **Repetition.** Reading `count` times reads a concatenation. -/
theorem Exact.replicate (hx : Exact x encode good) : ∀ count : ℕ,
    Exact (Call.replicate count x) (List.flatMap encode)
      fun as => as.length = count ∧ ∀ a ∈ as, good a := by
  intro count
  induction count with
  | zero =>
      intro answers s n as s' n'
      rw [Call.replicate, Call.pure_eq_ok]
      constructor
      · rintro ⟨rfl, rfl, rfl⟩
        simp
      · rintro ⟨⟨hlen, -⟩, hs, rfl⟩
        rw [List.length_eq_zero_iff] at hlen
        subst hlen
        exact ⟨rfl, hs, rfl⟩
  | succ count ih =>
      intro answers s n as s' n'
      rw [Call.replicate, hx.bind_eq_ok]
      constructor
      · rintro ⟨a, rest, hgood, rfl, h⟩
        obtain ⟨as', rest', ⟨hlen, hall⟩, hrest, hpure⟩ := ih.bind_eq_ok.mp h
        obtain ⟨rfl, rfl, rfl⟩ := Call.pure_eq_ok.mp hpure
        subst hrest
        refine ⟨⟨by rw [List.length_cons, hlen], ?_⟩, ?_, rfl⟩
        · intro b hb
          rcases List.mem_cons.mp hb with rfl | hb
          · exact hgood
          · exact hall b hb
        · rw [List.flatMap_cons, List.append_assoc]
      · rintro ⟨⟨hlen, hall⟩, rfl, rfl⟩
        cases as with
        | nil => simp at hlen
        | cons a as' =>
            refine ⟨a, as'.flatMap encode ++ s', hall a (by simp), ?_, ?_⟩
            · rw [List.flatMap_cons, List.append_assoc]
            · rw [ih.bind_eq_ok]
              refine ⟨as', s', ⟨by simpa using hlen, ?_⟩, rfl, Call.pure_eq_ok.mpr ⟨rfl, rfl, rfl⟩⟩
              intro b hb
              exact hall b (List.mem_cons_of_mem a hb)

end Codec
