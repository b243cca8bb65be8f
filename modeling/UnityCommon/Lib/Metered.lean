import UnityCommon.Lib.Call
import UnityCommon.Lib.Tiling

/-!
# Metered calls

A call that draws on bounded resources while it moves a cursor, compared with a
decoder that has nothing to run out of. The decoder says what lies at a cursor
and what reading it costs. The call follows it when it returns the same value
for that cost, or else reports a resource that the cost exceeds.
-/

/-- A cost has a width: how far it moves the cursor. -/
class Cost (δ : Type) extends Zero δ, Add δ where
  width : δ → ℕ
  width_zero : width 0 = 0
  width_add : ∀ d e, width (d + e) = width d + width e

attribute [simp] Cost.width_zero Cost.width_add

/-- The width of nothing, for a cost without widths. -/
theorem Cost.zero_width : (0 : ℕ) = 0 := rfl

/-- What lies at a cursor and what reading it costs; `none` is malformed. -/
def Decoder (δ α : Type) : Type := ℕ → Option (α × δ)

namespace Decoder

variable {δ α β : Type} [Cost δ]

def andThen (P : Decoder δ α) (Q : α → Decoder δ β) : Decoder δ β := fun at_ =>
  (P at_).bind fun (a, d) => (Q a (at_ + Cost.width d)).map fun (b, e) => (b, d + e)

instance : Monad (Decoder δ) where
  pure a := fun _ => some (a, 0)
  bind := andThen

def position : Decoder δ ℕ := fun at_ => some (at_, 0)

def require (p : Prop) [Decidable p] : Decoder δ Unit := fun _ =>
  if p then some ((), 0) else none

def ofOption (o : Option α) : Decoder δ α := fun _ => o.map (·, 0)

/-- A cost of its own, without a move that the cursor does not make. -/
def spend (d : δ) : Decoder δ Unit := fun _ => some ((), d)

def collect (Q : ℕ → Decoder δ α) : ℕ → ℕ → Decoder δ (List α)
  | _, 0 => pure []
  | start, count + 1 => do
      let a ← Q start
      let as ← collect Q (start + 1) count
      return a :: as

section Inversion

variable {at_ : ℕ}

@[simp] theorem pure_eq_some {a b : α} {d : δ} :
    (pure a : Decoder δ α) at_ = some (b, d) ↔ a = b ∧ 0 = d := by
  show some (a, 0) = some (b, d) ↔ _
  simp

theorem bind_eq_some {P : Decoder δ α} {Q : α → Decoder δ β} {b : β} {d : δ} :
    (P >>= Q) at_ = some (b, d) ↔
      ∃ a d₁ d₂, P at_ = some (a, d₁) ∧ Q a (at_ + Cost.width d₁) = some (b, d₂) ∧
        d = d₁ + d₂ := by
  show andThen P Q at_ = _ ↔ _
  unfold andThen
  simp only [Option.bind_eq_some_iff, Option.map_eq_some_iff, Prod.exists, Prod.mk.injEq]
  constructor
  · rintro ⟨a, d₁, hP, b', d₂, hQ, rfl, rfl⟩
    exact ⟨a, d₁, d₂, hP, hQ, rfl⟩
  · rintro ⟨a, d₁, d₂, hP, hQ, rfl⟩
    exact ⟨a, d₁, hP, b, d₂, hQ, rfl, rfl⟩

/-- Behind a first step that is known. -/
theorem bind_of_some {P : Decoder δ α} {Q : α → Decoder δ β} {a : α} {d : δ}
    (h : P at_ = some (a, d)) :
    (P >>= Q) at_ = (Q a (at_ + Cost.width d)).map fun r => (r.1, d + r.2) := by
  show andThen P Q at_ = _
  rw [andThen, h]
  rfl

theorem bind_eq_none {P : Decoder δ α} {Q : α → Decoder δ β} :
    (P >>= Q) at_ = none ↔
      P at_ = none ∨
        ∃ a d, P at_ = some (a, d) ∧ Q a (at_ + Cost.width d) = none := by
  show andThen P Q at_ = _ ↔ _
  unfold andThen
  cases hP : P at_ with
  | none => simp
  | some r =>
      obtain ⟨a, d⟩ := r
      simp

@[simp] theorem position_eq_some {p : ℕ} {d : δ} :
    (position : Decoder δ ℕ) at_ = some (p, d) ↔ at_ = p ∧ 0 = d := by
  unfold position
  simp

@[simp] theorem require_eq_some {p : Prop} [Decidable p] {u : Unit} {d : δ} :
    (require p : Decoder δ Unit) at_ = some (u, d) ↔ p ∧ 0 = d := by
  unfold require
  split <;> simp [*]

@[simp] theorem ofOption_eq_some {o : Option α} {a : α} {d : δ} :
    (ofOption o : Decoder δ α) at_ = some (a, d) ↔ o = some a ∧ 0 = d := by
  unfold ofOption
  cases o <;> simp

omit [Cost δ] in
@[simp] theorem spend_eq_some {u : Unit} {d e : δ} :
    (spend d : Decoder δ Unit) at_ = some (u, e) ↔ d = e := by
  unfold spend
  simp

end Inversion

/-! What the rounds of a loop find, the loop finds. -/

section Collect

variable {Q : ℕ → Decoder δ α} {start count at_ : ℕ} {as : List α} {d : δ}

theorem collect_length (h : collect Q start count at_ = some (as, d)) : as.length = count := by
  induction count generalizing start at_ as d with
  | zero =>
      obtain ⟨rfl, -⟩ := pure_eq_some.mp h
      rfl
  | succ count ih =>
      obtain ⟨a, d₁, d₂, -, hr, -⟩ := bind_eq_some.mp h
      obtain ⟨rest, d₃, d₄, hrest, hp, -⟩ := bind_eq_some.mp hr
      obtain ⟨rfl, -⟩ := pure_eq_some.mp hp
      rw [List.length_cons, ih hrest]

theorem collect_forall {R : ℕ → α → Prop}
    (hQ : ∀ i at_ a d, Q i at_ = some (a, d) → R i a)
    (h : collect Q start count at_ = some (as, d)) :
    ∀ i a, as[i]? = some a → R (start + i) a := by
  induction count generalizing start at_ as d with
  | zero =>
      obtain ⟨rfl, -⟩ := pure_eq_some.mp h
      simp
  | succ count ih =>
      obtain ⟨a, d₁, d₂, ha, hr, -⟩ := bind_eq_some.mp h
      obtain ⟨rest, d₃, d₄, hrest, hp, -⟩ := bind_eq_some.mp hr
      obtain ⟨rfl, -⟩ := pure_eq_some.mp hp
      intro i b hb
      cases i with
      | zero =>
          obtain rfl : a = b := by simpa using hb
          exact hQ start at_ a d₁ ha
      | succ i =>
          have := ih hrest i b (by simpa using hb)
          rwa [Nat.add_right_comm] at this

/-- A set of costs closed under addition. -/
theorem collect_cost {Z : δ → Prop} (hzero : Z 0) (hadd : ∀ d e, Z d → Z e → Z (d + e))
    (hQ : ∀ i at_ a d, Q i at_ = some (a, d) → Z d)
    (h : collect Q start count at_ = some (as, d)) : Z d := by
  induction count generalizing start at_ as d with
  | zero =>
      obtain ⟨-, rfl⟩ := pure_eq_some.mp h
      exact hzero
  | succ count ih =>
      obtain ⟨a, d₁, d₂, ha, hr, rfl⟩ := bind_eq_some.mp h
      obtain ⟨rest, d₃, d₄, hrest, hp, rfl⟩ := bind_eq_some.mp hr
      obtain ⟨-, rfl⟩ := pure_eq_some.mp hp
      exact hadd _ _ (hQ start at_ a d₁ ha) (hadd _ _ (ih hrest) hzero)

/-- An additive part of the cost is a sum over what was found. -/
theorem collect_sum {f : δ → ℕ} {g : α → ℕ} (hzero : f 0 = 0)
    (hadd : ∀ d e, f (d + e) = f d + f e)
    (hQ : ∀ i at_ a d, Q i at_ = some (a, d) → f d = g a)
    (h : collect Q start count at_ = some (as, d)) : f d = (as.map g).sum := by
  induction count generalizing start at_ as d with
  | zero =>
      obtain ⟨rfl, rfl⟩ := pure_eq_some.mp h
      exact hzero
  | succ count ih =>
      obtain ⟨a, d₁, d₂, ha, hr, rfl⟩ := bind_eq_some.mp h
      obtain ⟨rest, d₃, d₄, hrest, hp, rfl⟩ := bind_eq_some.mp hr
      obtain ⟨rfl, rfl⟩ := pure_eq_some.mp hp
      rw [hadd, hadd, hzero, ih hrest, hQ start at_ a d₁ ha, List.map_cons, List.sum_cons,
        Nat.add_zero]

/-- Each round takes an extent of its own, the next one where it stops. -/
theorem collect_tiles (extent : α → ℕ × ℕ)
    (hQ : ∀ i at_ a d, Q i at_ = some (a, d) → extent a = (at_, Cost.width d))
    (h : collect Q start count at_ = some (as, d)) :
    Tiles at_ (as.map extent) (at_ + Cost.width d) := by
  induction count generalizing start at_ as d with
  | zero =>
      obtain ⟨rfl, rfl⟩ := pure_eq_some.mp h
      rw [Cost.width_zero]
      rfl
  | succ count ih =>
      obtain ⟨a, d₁, d₂, ha, hr, rfl⟩ := bind_eq_some.mp h
      obtain ⟨rest, d₃, d₄, hrest, hp, rfl⟩ := bind_eq_some.mp hr
      obtain ⟨rfl, rfl⟩ := pure_eq_some.mp hp
      rw [List.map_cons, hQ start at_ a d₁ ha, Cost.width_add, Cost.width_add, Cost.width_zero,
        Nat.add_zero, ← Nat.add_assoc]
      exact (ih hrest).cons

end Collect

end Decoder

/-! ## Meters -/

/-- Resources of the kinds `κ` that a state of type `σ` draws on. A cost is
short of a resource when the state cannot afford it. -/
structure Meter (σ δ κ : Type) [Cost δ] where
  position : σ → ℕ
  advance : σ → δ → σ
  /-- The states from which the calls are run. -/
  Sound : σ → Prop
  Short : κ → σ → δ → Prop
  advance_zero : ∀ s, advance s 0 = s
  advance_add : ∀ s d e, advance s (d + e) = advance (advance s d) e
  position_advance : ∀ s d, position (advance s d) = position s + Cost.width d
  short_add : ∀ k s d e, Short k s (d + e) ↔ Short k s d ∨ Short k (advance s d) e
  not_short_zero : ∀ s, Sound s → ∀ k, ¬ Short k s 0
  sound_advance : ∀ s d, Sound s → (∀ k, ¬ Short k s d) → Sound (advance s d)

namespace Meter

variable {σ δ κ ε ε' α β : Type} [Cost δ] (m : Meter σ δ κ)

/-- The state affords the cost. -/
def Room (s : σ) (d : δ) : Prop := ∀ k, ¬ m.Short k s d

variable {m}

theorem room_zero {s : σ} (hs : m.Sound s) : m.Room s 0 := m.not_short_zero s hs

theorem room_add {s : σ} {d e : δ} :
    m.Room s (d + e) ↔ m.Room s d ∧ m.Room (m.advance s d) e := by
  unfold Room
  simp only [m.short_add, not_or, forall_and]

variable (m)

/-- **Following a decoder.** From `s` the call returns what the decoder finds,
at its cost, when there is room for it; else it reports a resource the cost is
short of. Where the decoder finds nothing the call fails. -/
structure Follows (Cites : ε → κ → Prop) (s : σ) (x : Call ε σ α) (P : Decoder δ α) :
    Prop where
  accepted : ∀ answers n a d, P (m.position s) = some (a, d) →
    (m.Room s d ∧ x answers s n = .ok a (m.advance s d) n) ∨
      ∃ e u k, x answers s n = .error e u n ∧ m.Sound u ∧ Cites e k ∧ m.Short k s d
  refused : ∀ answers n, P (m.position s) = none →
    ∃ e u, x answers s n = .error e u n ∧ m.Sound u

variable {m} {Cites : ε → κ → Prop} {s : σ}

namespace Follows

/-- With room the call returns what the decoder finds. -/
theorem ok {x : Call ε σ α} {P : Decoder δ α} (h : m.Follows Cites s x P) {a : α} {d : δ}
    (hP : P (m.position s) = some (a, d)) (hroom : m.Room s d) (answers : ℕ → Bool) (n : ℕ) :
    x answers s n = .ok a (m.advance s d) n := by
  rcases h.accepted answers n a d hP with ⟨-, hok⟩ | ⟨e, u, k, -, -, -, hshort⟩
  · exact hok
  · exact absurd hshort (hroom k)

/-- **What a success says.** -/
theorem of_ok {x : Call ε σ α} {P : Decoder δ α} (h : m.Follows Cites s x P) {answers : ℕ → Bool}
    {n n' : ℕ} {a : α} {s' : σ} (hok : x answers s n = .ok a s' n') :
    ∃ d, P (m.position s) = some (a, d) ∧ m.Room s d ∧ s' = m.advance s d ∧ n' = n := by
  cases hP : P (m.position s) with
  | none =>
      obtain ⟨e, u, herr, -⟩ := h.refused answers n hP
      rw [hok] at herr
      cases herr
  | some r =>
      obtain ⟨b, d⟩ := r
      rcases h.accepted answers n b d hP with ⟨hroom, hok'⟩ | ⟨e, u, k, herr, -⟩
      · rw [hok] at hok'
        cases hok'
        exact ⟨d, rfl, hroom, rfl, rfl⟩
      · rw [hok] at herr
        cases herr

/-- A failure leaves a sound state. -/
theorem of_error {x : Call ε σ α} {P : Decoder δ α} (h : m.Follows Cites s x P)
    {answers : ℕ → Bool} {n n' : ℕ} {e : ε} {u : σ}
    (herr : x answers s n = .error e u n') : m.Sound u ∧ n' = n := by
  cases hP : P (m.position s) with
  | none =>
      obtain ⟨e', u', herr', hu⟩ := h.refused answers n hP
      rw [herr] at herr'
      cases herr'
      exact ⟨hu, rfl⟩
  | some r =>
      obtain ⟨b, d⟩ := r
      rcases h.accepted answers n b d hP with ⟨-, hok⟩ | ⟨e', u', k, herr', hu, -⟩
      · rw [herr] at hok
        cases hok
      · rw [herr] at herr'
        cases herr'
        exact ⟨hu, rfl⟩

/-- A call that agrees with another from `s` follows the same decoder. -/
theorem congr {x y : Call ε σ α} {P : Decoder δ α} (h : m.Follows Cites s x P)
    (hxy : ∀ answers n, y answers s n = x answers s n) : m.Follows Cites s y P := by
  constructor
  · intro answers n a d hP
    rw [hxy]
    exact h.accepted answers n a d hP
  · intro answers n hP
    rw [hxy]
    exact h.refused answers n hP

/-- Only what the decoder finds at the cursor matters. -/
theorem decoder_congr {x : Call ε σ α} {P P' : Decoder δ α} (h : m.Follows Cites s x P)
    (hP : P' (m.position s) = P (m.position s)) : m.Follows Cites s x P' := by
  constructor
  · rw [hP]
    exact h.accepted
  · rw [hP]
    exact h.refused

/-- A call that fails as its first step does, where that step has no room and
the decoder wants at least as much. -/
theorem stuck {x : Call ε σ α} {P : Decoder δ α} {y : Call ε σ β} {Q : Decoder δ β}
    (hx : m.Follows Cites s x P)
    (hfull : ∀ a d, P (m.position s) = some (a, d) → ¬ m.Room s d)
    (hfirst : ∀ b d, Q (m.position s) = some (b, d) →
      ∃ a d', P (m.position s) = some (a, d') ∧ ∀ k, m.Short k s d' → m.Short k s d)
    (hy : ∀ answers n e u n', x answers s n = .error e u n' → y answers s n = .error e u n') :
    m.Follows Cites s y Q := by
  constructor
  · intro answers n b d hQ
    obtain ⟨a, d', hP, hle⟩ := hfirst b d hQ
    rcases hx.accepted answers n a d' hP with ⟨hroom, -⟩ | ⟨e, u, k, herr, hu, hc, hk⟩
    · exact absurd hroom (hfull a d' hP)
    · exact Or.inr ⟨e, u, k, hy _ _ _ _ _ herr, hu, hc, hle k hk⟩
  · intro answers n _
    cases hP : P (m.position s) with
    | none =>
        obtain ⟨e, u, herr, hu⟩ := hx.refused answers n hP
        exact ⟨e, u, hy _ _ _ _ _ herr, hu⟩
    | some r =>
        obtain ⟨a, d⟩ := r
        rcases hx.accepted answers n a d hP with ⟨hroom, -⟩ | ⟨e, u, k, herr, hu, -⟩
        · exact absurd hroom (hfull a d hP)
        · exact ⟨e, u, hy _ _ _ _ _ herr, hu⟩

theorem bind {x : Call ε σ α} {P : Decoder δ α} {f : α → Call ε σ β} {Q : α → Decoder δ β}
    (hx : m.Follows Cites s x P) (hs : m.Sound s)
    (hf : ∀ a d, P (m.position s) = some (a, d) → m.Room s d → m.Sound (m.advance s d) →
      m.Follows Cites (m.advance s d) (f a) (Q a)) :
    m.Follows Cites s (x >>= f) (P >>= Q) := by
  have hnext : ∀ a d, P (m.position s) = some (a, d) → m.Room s d →
      m.Follows Cites (m.advance s d) (f a) (Q a) :=
    fun a d hP hroom => hf a d hP hroom (m.sound_advance s d hs hroom)
  have herror : ∀ {answers n e u}, x answers s n = .error e u n →
      (x >>= f) answers s n = .error e u n := by
    intro answers n e u h
    exact Call.bind_eq_error.mpr (Or.inl h)
  have hthen : ∀ {answers n a d}, x answers s n = .ok a (m.advance s d) n →
      (x >>= f) answers s n = f a answers (m.advance s d) n := by
    intro answers n a d h
    rw [Call.bind_apply, Call.andThen, h]
  constructor
  · intro answers n b d hPQ
    obtain ⟨a, d₁, d₂, hP, hQ, rfl⟩ := Decoder.bind_eq_some.mp hPQ
    rw [← m.position_advance] at hQ
    rcases hx.accepted answers n a d₁ hP with ⟨hroom, hok⟩ | ⟨e, u, k, herr, hu, hc, hk⟩
    · rw [hthen hok]
      rcases (hnext a d₁ hP hroom).accepted answers n b d₂ hQ with
        ⟨hroom', hok'⟩ | ⟨e, u, k, herr, hu, hc, hk⟩
      · refine Or.inl ⟨room_add.mpr ⟨hroom, hroom'⟩, ?_⟩
        rw [hok', m.advance_add]
      · exact Or.inr ⟨e, u, k, herr, hu, hc, (m.short_add k s d₁ d₂).mpr (Or.inr hk)⟩
    · exact Or.inr ⟨e, u, k, herror herr, hu, hc, (m.short_add k s d₁ d₂).mpr (Or.inl hk)⟩
  · intro answers n hPQ
    rcases Decoder.bind_eq_none.mp hPQ with hP | ⟨a, d, hP, hQ⟩
    · obtain ⟨e, u, herr, hu⟩ := hx.refused answers n hP
      exact ⟨e, u, herror herr, hu⟩
    · rw [← m.position_advance] at hQ
      rcases hx.accepted answers n a d hP with ⟨hroom, hok⟩ | ⟨e, u, k, herr, hu, -, -⟩
      · rw [hthen hok]
        exact (hnext a d hP hroom).refused answers n hQ
      · exact ⟨e, u, herror herr, hu⟩

end Follows

theorem follows_pure (hs : m.Sound s) (a : α) : m.Follows Cites s (pure a) (pure a) := by
  constructor
  · intro answers n b d h
    obtain ⟨rfl, rfl⟩ := Decoder.pure_eq_some.mp h
    refine Or.inl ⟨room_zero hs, ?_⟩
    rw [m.advance_zero]
    rfl
  · rintro answers n ⟨⟩

theorem follows_require_iff (hs : m.Sound s) {p q : Prop} [Decidable p] [Decidable q]
    (hpq : p ↔ q) (e : ε) : m.Follows Cites s (Call.require p e) (Decoder.require q) := by
  constructor
  · intro answers n b d h
    obtain ⟨hq, rfl⟩ := Decoder.require_eq_some.mp h
    refine Or.inl ⟨room_zero hs, ?_⟩
    rw [m.advance_zero]
    exact Call.require_eq_ok.mpr ⟨hpq.mpr hq, rfl, rfl⟩
  · intro answers n h
    have hp : ¬ p := by
      intro hp
      simp [Decoder.require, hpq.mp hp] at h
    exact ⟨e, s, if_neg hp, hs⟩

theorem follows_require (hs : m.Sound s) (p : Prop) [Decidable p] (e : ε) :
    m.Follows Cites s (Call.require p e) (Decoder.require p) := follows_require_iff hs Iff.rfl e

theorem follows_ofOption (hs : m.Sound s) (o : Option α) (e : ε) :
    m.Follows Cites s (Call.ofOption e o) (Decoder.ofOption o) := by
  cases o with
  | some a => exact follows_pure hs a
  | none =>
      constructor
      · rintro answers n a d ⟨⟩
      · intro answers n _
        exact ⟨e, s, rfl, hs⟩

theorem follows_fail (hs : m.Sound s) (e : ε) :
    m.Follows Cites s (Call.fail e : Call ε σ α) (fun _ => none) := by
  constructor
  · rintro answers n a d ⟨⟩
  · intro answers n _
    exact ⟨e, s, rfl, hs⟩

/-- Looking at the state costs nothing. -/
theorem follows_look {f : σ → Call ε σ β} {P : Decoder δ β}
    (h : m.Follows Cites s (f s) P) : m.Follows Cites s (Call.current >>= f) P :=
  h.congr fun _ _ => rfl

/-- Looking at the state is looking at the cursor. -/
theorem follows_current {f : σ → Call ε σ β} {Q : ℕ → Decoder δ β} (hs : m.Sound s)
    (h : m.Follows Cites s (f s) (Q (m.position s))) :
    m.Follows Cites s (Call.current >>= f) (Decoder.position >>= Q) := by
  have hpure : m.Follows Cites s (pure s >>= f : Call ε σ β)
      (pure s >>= fun t => Q (m.position t)) := by
    refine (follows_pure hs s).bind hs fun t d ht _ _ => ?_
    obtain ⟨rfl, rfl⟩ := Decoder.pure_eq_some.mp ht
    rwa [m.advance_zero]
  have hcurrent : m.Follows Cites s (Call.current >>= f)
      (pure s >>= fun t => Q (m.position t)) := by
    refine hpure.congr fun answers n => ?_
    rfl
  refine hcurrent.decoder_congr ?_
  rfl

theorem follows_relabel {Cites' : ε' → κ → Prop} {g : ε → ε'} {x : Call ε σ α}
    {P : Decoder δ α} (hg : ∀ e k, Cites e k → Cites' (g e) k) (hx : m.Follows Cites s x P) :
    m.Follows Cites' s (Call.relabel g x) P := by
  constructor
  · intro answers n a d hP
    unfold Call.relabel
    rcases hx.accepted answers n a d hP with ⟨hroom, hok⟩ | ⟨e, u, k, herr, hu, hc, hs⟩
    · rw [hok]
      exact Or.inl ⟨hroom, rfl⟩
    · rw [herr]
      exact Or.inr ⟨g e, u, k, rfl, hu, hg e k hc, hs⟩
  · intro answers n hP
    unfold Call.relabel
    obtain ⟨e, u, herr, hu⟩ := hx.refused answers n hP
    rw [herr]
    exact ⟨g e, u, rfl, hu⟩

/-- A state change that costs `d`, after a check for the one resource it can be
short of. -/
theorem follows_draw {d : δ} {k : κ} {q : Prop} [Decidable q] {e : ε} (hs : m.Sound s)
    (hq : q ↔ ¬ m.Short k s d) (hother : ∀ k', k' ≠ k → ¬ m.Short k' s d) (hc : Cites e k) :
    m.Follows Cites s (Call.require q e >>= fun _ => Call.replace (m.advance s d))
      (Decoder.spend d) := by
  constructor
  · intro answers n u d' h
    obtain rfl := Decoder.spend_eq_some.mp h
    by_cases hshort : m.Short k s d
    · refine Or.inr ⟨e, s, k, ?_, hs, hc, hshort⟩
      exact Call.bind_eq_error.mpr (Or.inl (if_neg fun h => hq.mp h hshort))
    · refine Or.inl ⟨fun k' => ?_, ?_⟩
      · by_cases hk : k' = k
        · rw [hk]
          exact hshort
        · exact hother k' hk
      · exact Call.require_bind_eq_ok.mpr ⟨hq.mpr hshort, rfl⟩
  · rintro answers n ⟨⟩

/-- A state change that costs `d`, where there is room for it. -/
theorem follows_move {d : δ} {f : σ → σ} (hf : f s = m.advance s d)
    (hroom : m.Room s d) : m.Follows Cites s (Call.modify f) (Decoder.spend d) := by
  constructor
  · intro answers n u d' h
    obtain rfl := Decoder.spend_eq_some.mp h
    refine Or.inl ⟨hroom, ?_⟩
    rw [← hf]
    rfl
  · rintro answers n ⟨⟩

/-- A check that draws on a resource without changing the state. -/
theorem follows_check {d : δ} {k : κ} {q : Prop} [Decidable q] {e : ε} (hs : m.Sound s)
    (hstill : m.advance s d = s) (hq : q ↔ ¬ m.Short k s d)
    (hother : ∀ k', k' ≠ k → ¬ m.Short k' s d) (hc : Cites e k) :
    m.Follows Cites s (Call.require q e) (Decoder.spend d) := by
  refine (follows_draw hs hq hother hc).congr fun answers n => ?_
  rw [hstill, Call.bind_apply, Call.andThen, Call.require]
  split <;> rfl

/-- **Loops.** Each round follows its own decoder from any sound state with what
no cost changes. -/
theorem follows_collect_keeping {f : ℕ → Call ε σ α} {Q : ℕ → Decoder δ α} {start count : ℕ}
    {I : σ → Prop} (hI : ∀ s d, I s → I (m.advance s d))
    (hf : ∀ i s, m.Sound s → I s → start ≤ i → i < start + count → m.Follows Cites s (f i) (Q i))
    (hs : m.Sound s) (hi : I s) :
    m.Follows Cites s (Call.collect f start count) (Decoder.collect Q start count) := by
  induction count generalizing start s with
  | zero => exact follows_pure hs []
  | succ count ih =>
      refine (hf start s hs hi (Nat.le_refl _) (by omega)).bind hs fun a d _ _ hs => ?_
      refine (ih (fun i t ht hi hle hlt => hf i t ht hi (by omega) (by omega)) hs
        (hI s d hi)).bind hs fun as d' _ _ hs => ?_
      exact follows_pure hs (a :: as)

theorem follows_collect {f : ℕ → Call ε σ α} {Q : ℕ → Decoder δ α} {start count : ℕ}
    (hf : ∀ i s, m.Sound s → start ≤ i → i < start + count → m.Follows Cites s (f i) (Q i))
    (hs : m.Sound s) :
    m.Follows Cites s (Call.collect f start count) (Decoder.collect Q start count) :=
  follows_collect_keeping (I := fun _ => True) (fun _ _ _ => trivial)
    (fun i t ht _ hle hlt => hf i t ht hle hlt) hs trivial

end Meter
