import UnityCommon.Lib.Metered

/-!
# What a run needs

A run that returns a planned value unless it is short of some resource, which
it then reports. Steps that follow a decoder, checks against a limit and
storage requests are such runs, and one after the other makes another, short of
what either is short of. A run that stops fails whatever it may draw on.
-/

namespace Call

variable {ε ε' σ κ κ' α β : Type}

/-- **A planned run.** It is short of nothing and returns `a` in `s'`, else it
reports a resource that it is short of and leaves a sound state. -/
def Needs (Sound : σ → Prop) (Cites : ε → κ → Prop) (x : Call ε σ α) (answers : ℕ → Bool)
    (s : σ) (n : ℕ) (Short : κ → Prop) (a : α) (s' : σ) (n' : ℕ) : Prop :=
  ((∀ k, ¬ Short k) ∧ x answers s n = .ok a s' n') ∨
    ∃ e u m k, x answers s n = .error e u m ∧ Sound u ∧ Cites e k ∧ Short k

/-- The run fails, in a sound state. -/
def Stops (Sound : σ → Prop) (x : Call ε σ α) (answers : ℕ → Bool) (s : σ) (n : ℕ) : Prop :=
  ∃ e u m, x answers s n = .error e u m ∧ Sound u

variable {Sound : σ → Prop} {Cites : ε → κ → Prop} {answers : ℕ → Bool} {s s' s'' : σ}
  {n n' n'' : ℕ} {Short Short' : κ → Prop} {a : α} {b : β}

namespace Needs

variable {x : Call ε σ α} {f : α → Call ε σ β}

/-- Short of nothing, it returns what is planned. -/
theorem ok (h : Needs Sound Cites x answers s n Short a s' n') (hroom : ∀ k, ¬ Short k) :
    x answers s n = .ok a s' n' := by
  rcases h with ⟨-, hok⟩ | ⟨e, u, m, k, -, -, -, hshort⟩
  · exact hok
  · exact absurd hshort (hroom k)

/-- **What it returns is planned**, and it was short of nothing. -/
theorem of_ok {c : α} {t : σ} {m : ℕ} (h : Needs Sound Cites x answers s n Short a s' n')
    (hok : x answers s n = .ok c t m) : c = a ∧ t = s' ∧ m = n' ∧ ∀ k, ¬ Short k := by
  rcases h with ⟨hroom, hok'⟩ | ⟨e, u, m, k, herr, -⟩
  · rw [hok] at hok'
    cases hok'
    exact ⟨rfl, rfl, rfl, hroom⟩
  · rw [hok] at herr
    cases herr

theorem of_error {e : ε} {u : σ} {m : ℕ} (h : Needs Sound Cites x answers s n Short a s' n')
    (herr : x answers s n = .error e u m) : Sound u ∧ ∃ k, Cites e k ∧ Short k := by
  rcases h with ⟨-, hok⟩ | ⟨e', u', m', k, herr', hu, hc, hk⟩
  · rw [herr] at hok
    cases hok
  · rw [herr] at herr'
    cases herr'
    exact ⟨hu, k, hc, hk⟩

theorem bind (hx : Needs Sound Cites x answers s n Short a s' n')
    (hf : (∀ k, ¬ Short k) → Needs Sound Cites (f a) answers s' n' Short' b s'' n'') :
    Needs Sound Cites (x >>= f) answers s n (fun k => Short k ∨ Short' k) b s'' n'' := by
  rcases hx with ⟨hroom, hok⟩ | ⟨e, u, m, k, herr, hu, hc, hk⟩
  · have hthen : (x >>= f) answers s n = f a answers s' n' := by
      rw [bind_apply, andThen, hok]
    unfold Needs
    rw [hthen]
    rcases hf hroom with ⟨hroom', hok'⟩ | ⟨e, u, m, k, herr, hu, hc, hk⟩
    · exact Or.inl ⟨fun k hk => hk.elim (hroom k) (hroom' k), hok'⟩
    · exact Or.inr ⟨e, u, m, k, herr, hu, hc, Or.inr hk⟩
  · exact Or.inr ⟨e, u, m, k, bind_eq_error.mpr (Or.inl herr), hu, hc, Or.inl hk⟩

/-- With the shortages of the rest said beforehand. -/
theorem bind_as {Whole : κ → Prop} (hx : Needs Sound Cites x answers s n Short a s' n')
    (Rest : κ → Prop) (hiff : ∀ k, Whole k ↔ Short k ∨ Rest k)
    (hf : (∀ k, ¬ Short k) → Needs Sound Cites (f a) answers s' n' Rest b s'' n'') :
    Needs Sound Cites (x >>= f) answers s n Whole b s'' n'' := by
  obtain rfl : Whole = fun k => Short k ∨ Rest k := funext fun k => propext (hiff k)
  exact hx.bind hf

/-- The rest of the run stops. -/
theorem stops_bind (hx : Needs Sound Cites x answers s n Short a s' n')
    (hf : (∀ k, ¬ Short k) → Stops Sound (f a) answers s' n') :
    Stops Sound (x >>= f) answers s n := by
  rcases hx with ⟨hroom, hok⟩ | ⟨e, u, m, k, herr, hu, -, -⟩
  · obtain ⟨e, u, m, herr, hu⟩ := hf hroom
    exact ⟨e, u, m, bind_eq_error.mpr (Or.inr ⟨_, _, _, hok, herr⟩), hu⟩
  · exact ⟨e, u, m, bind_eq_error.mpr (Or.inl herr), hu⟩

/-- The same shortages, said in another way. -/
theorem short_congr (h : Needs Sound Cites x answers s n Short a s' n')
    (hiff : ∀ k, Short' k ↔ Short k) : Needs Sound Cites x answers s n Short' a s' n' := by
  obtain rfl : Short' = Short := funext fun k => propext (hiff k)
  exact h

/-- The same run, said in another way. -/
theorem restate {c : α} {t : σ} (h : Needs Sound Cites x answers s n Short c t n') (hvalue : c = a)
    (hstate : t = s') (hiff : ∀ k, Short' k ↔ Short k) :
    Needs Sound Cites x answers s n Short' a s' n' := by
  subst hvalue hstate
  exact h.short_congr hiff

/-- Shortages of another kind, reported in another way. -/
theorem map {Sound' : σ → Prop} {Cites' : ε → κ' → Prop} {Short' : κ' → Prop}
    (h : Needs Sound Cites x answers s n Short a s' n') (hsound : ∀ u, Sound u → Sound' u)
    (hcites : ∀ e k, Cites e k → Short k → ∃ k', Cites' e k' ∧ Short' k')
    (hroom : (∀ k, ¬ Short k) → ∀ k', ¬ Short' k') :
    Needs Sound' Cites' x answers s n Short' a s' n' := by
  rcases h with ⟨hnone, hok⟩ | ⟨e, u, m, k, herr, hu, hc, hk⟩
  · exact Or.inl ⟨hroom hnone, hok⟩
  · obtain ⟨k', hc', hk'⟩ := hcites e k hc hk
    exact Or.inr ⟨e, u, m, k', herr, hsound u hu, hc', hk'⟩

end Needs

theorem Stops.bind {x : Call ε σ α} {f : α → Call ε σ β} (hx : Stops Sound x answers s n) :
    Stops Sound (x >>= f) answers s n := by
  obtain ⟨e, u, m, herr, hu⟩ := hx
  exact ⟨e, u, m, bind_eq_error.mpr (Or.inl herr), hu⟩

theorem Stops.mono {Sound' : σ → Prop} {x : Call ε σ α} (hx : Stops Sound x answers s n)
    (hsound : ∀ u, Sound u → Sound' u) : Stops Sound' x answers s n := by
  obtain ⟨e, u, m, herr, hu⟩ := hx
  exact ⟨e, u, m, herr, hsound u hu⟩

/-! ## Steps -/

theorem needs_pure (a : α) :
    Needs Sound Cites (pure a) answers s n (fun _ => False) a s n := Or.inl ⟨fun _ => id, rfl⟩

/-- Looking at the state, for a value that depends on it. -/
theorem needs_read {f : σ → Call ε σ α} (hf : f s answers s n = .ok a s n) :
    Needs Sound Cites (Call.current >>= f) answers s n (fun _ => False) a s n :=
  Or.inl ⟨fun _ => id, hf⟩

theorem needs_modify (g : σ → σ) :
    Needs Sound Cites (Call.modify g) answers s n (fun _ => False) () (g s) n :=
  Or.inl ⟨fun _ => id, rfl⟩

theorem needs_ofOption_some (a : α) (e : ε) :
    Needs Sound Cites (Call.ofOption e (some a)) answers s n (fun _ => False) a s n :=
  Or.inl ⟨fun _ => id, rfl⟩

theorem needs_require_true {p : Prop} [Decidable p] (hp : p) (e : ε) :
    Needs Sound Cites (Call.require p e) answers s n (fun _ => False) () s n :=
  Or.inl ⟨fun _ => id, if_pos hp⟩

/-- A check against a limit. -/
theorem needs_require (hs : Sound s) {p : Prop} [Decidable p] {e : ε}
    (hp : (∀ k, ¬ Short k) ↔ p) (hc : ¬ p → ∃ k, Cites e k ∧ Short k) :
    Needs Sound Cites (Call.require p e) answers s n Short () s n := by
  by_cases h : p
  · exact Or.inl ⟨hp.mpr h, if_pos h⟩
  · obtain ⟨k, hk, hshort⟩ := hc h
    exact Or.inr ⟨e, s, n, k, if_neg h, hs, hk, hshort⟩

theorem needs_request (hs : Sound s) {e : ε} (hp : (∀ k, ¬ Short k) ↔ answers n = true)
    (hc : answers n = false → ∃ k, Cites e k ∧ Short k) :
    Needs Sound Cites (Call.request e) answers s n Short () s (n + 1) := by
  unfold Needs request
  cases h : answers n with
  | true => exact Or.inl ⟨hp.mpr h, if_pos rfl⟩
  | false =>
      obtain ⟨k, hk, hshort⟩ := hc h
      exact Or.inr ⟨e, s, n + 1, k, if_neg Bool.false_ne_true, hs, hk, hshort⟩

/-- A step that is made, and the rest of the run stops. -/
theorem Stops.bind_ok {x : Call ε σ α} {f : α → Call ε σ β}
    (hx : x answers s n = .ok a s' n') (hf : Stops Sound (f a) answers s' n') :
    Stops Sound (x >>= f) answers s n := by
  obtain ⟨e, u, m, herr, hu⟩ := hf
  exact ⟨e, u, m, bind_eq_error.mpr (Or.inr ⟨_, _, _, hx, herr⟩), hu⟩

theorem Stops.require_bind {p : Prop} [Decidable p] (hp : p) {e : ε} {f : Unit → Call ε σ β}
    (hf : Stops Sound (f ()) answers s n) : Stops Sound (Call.require p e >>= f) answers s n :=
  Stops.bind_ok (if_pos hp) hf

theorem stops_require (hs : Sound s) {p : Prop} [Decidable p] (hp : ¬ p) (e : ε) :
    Stops Sound (Call.require p e) answers s n := ⟨e, s, n, if_neg hp, hs⟩

end Call

namespace Meter.Follows

variable {σ δ κ ε α : Type} [Cost δ] {m : Meter σ δ κ} {Cites : ε → κ → Prop} {s : σ}
  {x : Call ε σ α} {P : Decoder δ α} {a : α} {d : δ}

theorem needs (h : m.Follows Cites s x P) (hP : P (m.position s) = some (a, d))
    (answers : ℕ → Bool) (n : ℕ) :
    x.Needs m.Sound Cites answers s n (fun k => m.Short k s d) a (m.advance s d) n := by
  rcases h.accepted answers n a d hP with hok | ⟨e, u, k, herr, hu, hc, hk⟩
  · exact Or.inl hok
  · exact Or.inr ⟨e, u, n, k, herr, hu, hc, hk⟩

theorem stops (h : m.Follows Cites s x P) (hP : P (m.position s) = none) (answers : ℕ → Bool)
    (n : ℕ) : x.Stops m.Sound answers s n := by
  obtain ⟨e, u, herr, hu⟩ := h.refused answers n hP
  exact ⟨e, u, n, herr, hu⟩

end Meter.Follows
