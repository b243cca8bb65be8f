import UnityCommon.Lib.Needs

/-!
# Work as the only resource

The meter of a call that counts its work up to a ceiling and moves no cursor. A
step that charges what it wants and fails where the ceiling does not allow it
follows the decoder that spends it.
-/

@[ext] structure Work where
  units : ℕ
deriving DecidableEq, Repr

namespace Work

instance : Cost Work where
  zero := ⟨0⟩
  add d e := ⟨d.units + e.units⟩
  width _ := 0
  width_zero := Cost.zero_width
  width_add _ _ := rfl

@[simp] theorem zero_units : (0 : Work).units = 0 := rfl
@[simp] theorem add_units (d e : Work) : (d + e).units = d.units + e.units := rfl
@[simp] theorem width_eq (d : Work) : Cost.width d = 0 := rfl

/-- How a state counts the work. -/
structure Counter (σ : Type) where
  used : σ → ℕ
  charged : σ → ℕ → σ
  charged_zero : ∀ s, charged s 0 = s
  charged_charged : ∀ s d e, charged (charged s d) e = charged s (d + e)
  used_charged : ∀ s d, used (charged s d) = used s + d

variable {σ ε : Type}

def Counter.meter (counter : Counter σ) (maxWork : ℕ) : Meter σ Work Unit where
  position _ := 0
  advance s d := counter.charged s d.units
  Sound s := counter.used s ≤ maxWork
  Short _ s d := maxWork < counter.used s + d.units
  advance_zero s := counter.charged_zero s
  advance_add s d e := (counter.charged_charged s d.units e.units).symm
  position_advance _ _ := rfl
  short_add _ s d e := by
    rw [counter.used_charged, add_units]
    omega
  not_short_zero s hs _ := by
    rw [zero_units, Nat.add_zero]
    exact Nat.not_lt.mpr hs
  sound_advance s d _ h := by
    rw [counter.used_charged]
    exact Nat.le_of_not_lt (h ())

variable (counter : Counter σ) {maxWork : ℕ} {Cites : ε → Unit → Prop} {s : σ}

theorem room_iff {d : Work} :
    (counter.meter maxWork).Room s d ↔ counter.used s + d.units ≤ maxWork :=
  ⟨fun h => Nat.le_of_not_lt (h ()), fun h _ => Nat.not_lt.mpr h⟩

/-- `if (amount > max_work - work_used) return error; work_used += amount;` -/
theorem follows_charge (hs : counter.used s ≤ maxWork) {e : ε} (he : Cites e ()) (amount : ℕ) :
    (counter.meter maxWork).Follows Cites s
      (Call.current >>= fun s =>
        Call.require (amount ≤ maxWork - counter.used s) e >>= fun _ =>
        Call.replace (counter.charged s amount))
      (Decoder.spend ⟨amount⟩) := by
  refine Meter.follows_look (Meter.follows_draw (d := (⟨amount⟩ : Work)) (k := ()) hs ?_ ?_ he)
  · show amount ≤ maxWork - counter.used s ↔ ¬ maxWork < counter.used s + amount
    omega
  · intro k hk
    exact absurd rfl hk

/-! ## What a decoder of work finds -/

section

variable {α β : Type} {at_ : ℕ} {b : β} {d : Work}

@[simp] theorem zero_add (d : Work) : 0 + d = d := by
  ext
  simp

theorem bind_eq_some {P : Decoder Work α} {Q : α → Decoder Work β} :
    (P >>= Q) at_ = some (b, d) ↔
      ∃ a e f, P at_ = some (a, e) ∧ Q a at_ = some (b, f) ∧ d = e + f := Decoder.bind_eq_some

theorem bind_of {α : Type} {a : α} {P : Decoder Work α} {Q : α → Decoder Work β} {e f : Work}
    (hP : P at_ = some (a, e)) (hQ : Q a at_ = some (b, f)) :
    (P >>= Q) at_ = some (b, e + f) :=
  bind_eq_some.mpr ⟨a, e, f, hP, hQ, rfl⟩

theorem spend_bind {amount : ℕ} {Q : Unit → Decoder Work β} {e : Work}
    (h : Q () at_ = some (b, e)) :
    (Decoder.spend ⟨amount⟩ >>= Q) at_ = some (b, ⟨amount⟩ + e) := bind_of rfl h

theorem require_bind {p : Prop} [Decidable p] {Q : Unit → Decoder Work β} {e : Work} (hp : p)
    (h : Q () at_ = some (b, e)) : (Decoder.require p >>= Q) at_ = some (b, e) := by
  have hbind := bind_of (Decoder.require_eq_some.mpr ⟨hp, rfl⟩) h
  rwa [zero_add] at hbind

theorem spend_bind_eq_some {amount : ℕ} {Q : Unit → Decoder Work β} :
    (Decoder.spend ⟨amount⟩ >>= Q) at_ = some (b, d) ↔
      ∃ e, Q () at_ = some (b, e) ∧ d.units = amount + e.units := by
  rw [bind_eq_some]
  constructor
  · rintro ⟨_, _, f, hspend, h, rfl⟩
    obtain rfl := Decoder.spend_eq_some.mp hspend
    exact ⟨f, h, rfl⟩
  · rintro ⟨e, h, hd⟩
    exact ⟨(), ⟨amount⟩, e, rfl, h, Work.ext hd⟩

theorem require_bind_eq_some {p : Prop} [Decidable p] {Q : Unit → Decoder Work β} :
    (Decoder.require p >>= Q) at_ = some (b, d) ↔ p ∧ Q () at_ = some (b, d) := by
  rw [bind_eq_some]
  constructor
  · rintro ⟨_, _, f, hrequire, h, rfl⟩
    obtain ⟨hp, rfl⟩ := Decoder.require_eq_some.mp hrequire
    rw [zero_add]
    exact ⟨hp, h⟩
  · rintro ⟨hp, h⟩
    exact ⟨(), 0, d, Decoder.require_eq_some.mpr ⟨hp, rfl⟩, h, (zero_add d).symm⟩

theorem pure_bind {α : Type} (a : α) (Q : α → Decoder Work β) : (pure a >>= Q) = Q a := by
  funext at_
  cases h : Q a at_ with
  | none => exact Decoder.bind_eq_none.mpr (Or.inr ⟨a, 0, rfl, h⟩)
  | some r => exact bind_eq_some.mpr ⟨a, 0, r.2, rfl, h, (zero_add _).symm⟩

theorem bind_pure {α : Type} (P : Decoder Work α) : (P >>= fun a => pure a) = P := by
  funext at_
  cases h : P at_ with
  | none => exact Decoder.bind_eq_none.mpr (Or.inl h)
  | some r => exact bind_eq_some.mpr ⟨r.1, r.2, 0, h, rfl, rfl⟩

theorem bind_assoc {α γ : Type} (P : Decoder Work α) (Q : α → Decoder Work γ)
    (R : γ → Decoder Work β) : ((P >>= Q) >>= R) = (P >>= fun a => Q a >>= R) := by
  funext at_
  apply Option.ext
  rintro ⟨b, d⟩
  constructor
  · intro h
    obtain ⟨c, _, g, hPQ, hR, rfl⟩ := bind_eq_some.mp h
    obtain ⟨a, e, f, hP, hQ, rfl⟩ := bind_eq_some.mp hPQ
    exact bind_eq_some.mpr ⟨a, e, f + g, hP, bind_of hQ hR, Work.ext (Nat.add_assoc ..)⟩
  · intro h
    obtain ⟨a, e, _, hP, hQR, rfl⟩ := bind_eq_some.mp h
    obtain ⟨c, f, g, hQ, hR, rfl⟩ := bind_eq_some.mp hQR
    exact bind_eq_some.mpr ⟨c, e + f, g, bind_of hP hQ, hR, Work.ext (Nat.add_assoc ..).symm⟩

theorem spend_spend (d e : ℕ) (Q : Unit → Decoder Work β) :
    (Decoder.spend ⟨d⟩ >>= fun _ => Decoder.spend ⟨e⟩ >>= Q) = (Decoder.spend ⟨d + e⟩ >>= Q) := by
  funext at_
  apply Option.ext
  rintro ⟨b, f⟩
  rw [spend_bind_eq_some, spend_bind_eq_some]
  simp only [spend_bind_eq_some]
  constructor
  · rintro ⟨g, ⟨h, hQ, hg⟩, hf⟩
    exact ⟨h, hQ, by omega⟩
  · rintro ⟨h, hQ, hf⟩
    exact ⟨⟨e + h.units⟩, ⟨h, hQ, rfl⟩, by rw [hf]; exact Nat.add_assoc ..⟩

/-- Work may be paid for later. -/
theorem spend_comm {α : Type} (d : ℕ) (P : Decoder Work α) (Q : α → Decoder Work β) :
    (P >>= fun a => Decoder.spend ⟨d⟩ >>= fun _ => Q a) =
      (Decoder.spend ⟨d⟩ >>= fun _ => P >>= Q) := by
  funext at_
  apply Option.ext
  rintro ⟨b, f⟩
  constructor
  · intro h
    obtain ⟨a, e, _, hP, hspend, rfl⟩ := bind_eq_some.mp h
    obtain ⟨g, hQ, hg⟩ := spend_bind_eq_some.mp hspend
    refine spend_bind_eq_some.mpr ⟨e + g, bind_of hP hQ, ?_⟩
    simp only [add_units]
    omega
  · intro h
    obtain ⟨_, hPQ, hf⟩ := spend_bind_eq_some.mp h
    obtain ⟨a, e, g, hP, hQ, rfl⟩ := bind_eq_some.mp hPQ
    refine bind_eq_some.mpr ⟨a, e, ⟨d + g.units⟩, hP, spend_bind_eq_some.mpr ⟨g, hQ, rfl⟩,
      Work.ext ?_⟩
    simp only [add_units] at hf ⊢
    omega

theorem require_pos {p : Prop} [Decidable p] (hp : p) (Q : Unit → Decoder Work β) :
    (Decoder.require p >>= Q) = Q () := by
  funext at_
  cases h : Q () at_ with
  | some r => exact require_bind hp h
  | none => exact Decoder.bind_eq_none.mpr (Or.inr ⟨(), 0, Decoder.require_eq_some.mpr ⟨hp, rfl⟩, h⟩)

theorem require_neg {p : Prop} [Decidable p] (hp : ¬ p) (Q : Unit → Decoder Work β) :
    (Decoder.require p >>= Q) = fun _ => none :=
  funext fun _ => Decoder.bind_eq_none.mpr (Or.inl (if_neg hp))

/-- Two checks are one. -/
theorem require_and (p q : Prop) [Decidable p] [Decidable q] (Q : Unit → Decoder Work β) :
    (Decoder.require (p ∧ q) >>= Q) =
      (Decoder.require p >>= fun _ => Decoder.require q >>= Q) := by
  by_cases hp : p
  · rw [require_pos hp]
    by_cases hq : q
    · rw [require_pos ⟨hp, hq⟩, require_pos hq]
    · rw [require_neg fun h => hq h.2, require_neg hq]
  · rw [require_neg fun h => hp h.1, require_neg hp]

end

end Work
