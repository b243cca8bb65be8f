import UnityCommon.Lib.Call

/-!
# Pre- and postconditions of calls

A call that starts in a state with the precondition ends in one with the first
postcondition where it returns, and with the second where it fails. The rules
follow the ways calls are put together; a loop over a list keeps an invariant of
the elements it has gone through.
-/

namespace Call

variable {ε σ τ α β : Type}

/-- A call on a part of the state. -/
def focus (get : σ → τ) (put : τ → σ → σ) (x : Call ε τ α) : Call ε σ α := fun answers s n =>
  match x answers (get s) n with
  | .ok a t n' => .ok a (put t s) n'
  | .error e t n' => .error e (put t s) n'

/-- A nested call with a result record, which is noted on either outcome. -/
def nested {ρ : Type} (x : Call ρ σ (α × ρ)) (note : Option α → ρ → σ → σ) (reject : ρ → ε) :
    Call ε σ α := fun answers s n =>
  match x answers s n with
  | .ok (a, ran) s' n' => .ok a (note (some a) ran s') n'
  | .error ran s' n' => .error (reject ran) (note none ran s') n'

theorem enclosed_eq_ok {ε' : Type} {answers : ℕ → Bool} {t : τ} {x : Call ε τ α} {f : ε → τ → ε'}
    {a : α × τ} {s s' : σ} {n n' : ℕ} :
    enclosed t x f answers s n = .ok a s' n' ↔ x answers t n = .ok a.1 a.2 n' ∧ s = s' := by
  obtain ⟨a, t'⟩ := a
  unfold enclosed
  cases x answers t n with
  | ok b t₁ n₁ =>
      simp only [Result.ok.injEq, Prod.mk.injEq]
      tauto
  | error e t₁ n₁ => simp

theorem enclosed_eq_error {ε' : Type} {answers : ℕ → Bool} {t : τ} {x : Call ε τ α}
    {f : ε → τ → ε'} {e' : ε'} {s s' : σ} {n n' : ℕ} :
    enclosed t x f answers s n = .error e' s' n' ↔
      ∃ e t', x answers t n = .error e t' n' ∧ f e t' = e' ∧ s = s' := by
  unfold enclosed
  cases x answers t n with
  | ok b t₁ n₁ => simp
  | error e t₁ n₁ =>
      simp only [Result.error.injEq]
      constructor
      · rintro ⟨hf, hs, rfl⟩
        exact ⟨e, t₁, ⟨rfl, rfl, rfl⟩, hf, hs⟩
      · rintro ⟨_, _, ⟨rfl, rfl, rfl⟩, hf, hs⟩
        exact ⟨hf, hs, rfl⟩

theorem keeps_enclosed {ε' : Type} (t : τ) (x : Call ε τ α) (f : ε → τ → ε') :
    Keeps (enclosed (σ := σ) t x f) := by
  intro answers s n
  unfold enclosed
  cases x answers t n <;> rfl

/-- The outcome has the postcondition of its kind. -/
def Result.Ends (Q : α → σ → Prop) (E : ε → σ → Prop) : Result ε σ α → Prop
  | .ok a s _ => Q a s
  | .error e s _ => E e s

instance (Q : α → σ → Prop) (E : ε → σ → Prop) [∀ a s, Decidable (Q a s)]
    [∀ e s, Decidable (E e s)] (r : Result ε σ α) : Decidable (r.Ends Q E) :=
  match r with
  | .ok a s _ => inferInstanceAs (Decidable (Q a s))
  | .error e s _ => inferInstanceAs (Decidable (E e s))

theorem Result.exists_ok {Q : α → σ → Prop} {r : Result ε σ α} (h : r.Ends Q fun _ _ => False) :
    ∃ a s n, r = .ok a s n ∧ Q a s :=
  match r, h with
  | .ok a s n, h => ⟨a, s, n, rfl, h⟩

def Triple (answers : ℕ → Bool) (P : σ → Prop) (x : Call ε σ α) (Q : α → σ → Prop)
    (E : ε → σ → Prop) : Prop :=
  ∀ s n, P s → (x answers s n).Ends Q E

namespace Triple

variable {answers : ℕ → Bool} {P P' : σ → Prop} {Q Q' : α → σ → Prop} {R : β → σ → Prop}
  {E E' : ε → σ → Prop} {x : Call ε σ α} {f : α → Call ε σ β} {e : ε}

theorem of_ok (h : Triple answers P x Q E) {s s' : σ} {n n' : ℕ} {a : α} (hs : P s)
    (hok : x answers s n = .ok a s' n') : Q a s' := by
  have := h s n hs
  rwa [hok] at this

theorem of_error (h : Triple answers P x Q E) {s s' : σ} {n n' : ℕ} (hs : P s)
    (herr : x answers s n = .error e s' n') : E e s' := by
  have := h s n hs
  rwa [herr] at this

theorem consequence (h : Triple answers P x Q E) (hpre : ∀ s, P' s → P s)
    (hpost : ∀ a s, Q a s → Q' a s) (hfail : ∀ e s, E e s → E' e s) :
    Triple answers P' x Q' E' := by
  intro s n hs
  have := h s n (hpre s hs)
  cases hx : x answers s n with
  | ok a s' n' =>
      rw [hx] at this
      exact hpost a s' this
  | error e s' n' =>
      rw [hx] at this
      exact hfail e s' this

theorem pre (h : Triple answers P x Q E) (hpre : ∀ s, P' s → P s) : Triple answers P' x Q E :=
  h.consequence hpre (fun _ _ => id) fun _ _ => id

/-- Nothing is asked of the outcome. -/
theorem anything : Triple answers P x (fun _ _ => True) fun _ _ => True := by
  intro s n _
  cases x answers s n <;> exact True.intro

/-- **Sequence.** -/
theorem bind (hx : Triple answers P x Q E) (hf : ∀ a, Triple answers (Q a) (f a) R E) :
    Triple answers P (x >>= f) R E := by
  intro s n hs
  have hfirst := hx s n hs
  rw [bind_apply, andThen]
  cases h : x answers s n with
  | ok a s' n' =>
      rw [h] at hfirst
      exact hf a s' n' hfirst
  | error e s' n' =>
      rw [h] at hfirst
      exact hfirst

theorem pure {a : α} (h : ∀ s, P s → Q a s) : Triple answers P (Pure.pure a : Call ε σ α) Q E :=
  fun s _ hs => h s hs

theorem fail (h : ∀ s, P s → E e s) : Triple answers P (Call.fail e : Call ε σ α) Q E :=
  fun s _ hs => h s hs

theorem require {p : Prop} [Decidable p] {Q : Unit → σ → Prop} (hp : ∀ s, P s → p → Q () s)
    (hn : ∀ s, P s → ¬ p → E e s) : Triple answers P (Call.require p e) Q E := by
  intro s n hs
  unfold Call.require
  by_cases h : p
  · rw [if_pos h]
    exact hp s hs h
  · rw [if_neg h]
    exact hn s hs h

theorem ofExcept {r : Except ε α} (hok : ∀ s a, P s → r = .ok a → Q a s)
    (herr : ∀ s e, P s → r = .error e → E e s) : Triple answers P (Call.ofExcept r) Q E := by
  intro s n hs
  unfold Call.ofExcept
  cases h : r with
  | ok a => exact hok s a hs h
  | error e => exact herr s e hs h

theorem ofOption {o : Option α} (hsome : ∀ s a, P s → o = some a → Q a s)
    (hnone : ∀ s, P s → o = none → E e s) : Triple answers P (Call.ofOption e o) Q E := by
  intro s n hs
  unfold Call.ofOption
  cases h : o with
  | some a => exact hsome s a hs h
  | none => exact hnone s hs h

theorem request {Q : Unit → σ → Prop} (hok : ∀ s, P s → Q () s)
    (hdenied : ∀ s, P s → (∃ i, answers i = false) → E e s) :
    Triple answers P (Call.request e) Q E := by
  intro s n hs
  unfold Call.request
  cases h : answers n with
  | true => exact hok s hs
  | false => exact hdenied s hs ⟨n, h⟩

theorem current {Q : σ → σ → Prop} (h : ∀ s, P s → Q s s) :
    Triple answers P (Call.current : Call ε σ σ) Q E := fun s _ hs => h s hs

theorem replace {t : σ} {Q : Unit → σ → Prop} (h : ∀ s, P s → Q () t) :
    Triple answers P (Call.replace t : Call ε σ Unit) Q E := fun s _ hs => h s hs

theorem modify {g : σ → σ} {Q : Unit → σ → Prop} (h : ∀ s, P s → Q () (g s)) :
    Triple answers P (Call.modify g : Call ε σ Unit) Q E := fun s _ hs => h s hs

/-- A call on a part is specified on that part, the rest as it was. -/
theorem focus {get : σ → τ} {put : τ → σ → σ} {y : Call ε τ α} {T : σ → τ → Prop}
    {V : σ → α → τ → Prop} {F : σ → ε → τ → Prop} (hy : ∀ s, P s → Triple answers (T s) y (V s) (F s))
    (hpre : ∀ s, P s → T s (get s)) (hpost : ∀ s a t, P s → V s a t → Q a (put t s))
    (hfail : ∀ s e t, P s → F s e t → E e (put t s)) :
    Triple answers P (Call.focus get put y) Q E := by
  intro s n hs
  have h := hy s hs (get s) n (hpre s hs)
  unfold Call.focus
  cases hr : y answers (get s) n with
  | ok a t n' =>
      rw [hr] at h
      exact hpost s a t hs h
  | error e t n' =>
      rw [hr] at h
      exact hfail s e t hs h

/-- A nested call that leaves the state alone is specified by what it reports. -/
theorem nested {ρ : Type} {y : Call ρ σ (α × ρ)} {note : Option α → ρ → σ → σ} {reject : ρ → ε}
    {V : α → ρ → Prop} {F : ρ → Prop} (hkeeps : Keeps y)
    (hok : ∀ s n a ran s' n', y answers s n = .ok (a, ran) s' n' → V a ran)
    (herr : ∀ s n ran s' n', y answers s n = .error ran s' n' → F ran)
    (hpost : ∀ s a ran, P s → V a ran → Q a (note (some a) ran s))
    (hfail : ∀ s ran, P s → F ran → E (reject ran) (note none ran s)) :
    Triple answers P (Call.nested y note reject) Q E := by
  intro s n hs
  have hstate := hkeeps answers s n
  unfold Call.nested
  cases h : y answers s n with
  | ok r s' n' =>
      obtain ⟨a, ran⟩ := r
      rw [h] at hstate
      obtain rfl : s' = s := hstate
      exact hpost _ a ran hs (hok _ _ _ _ _ _ h)
  | error ran s' n' =>
      rw [h] at hstate
      obtain rfl : s' = s := hstate
      exact hfail _ ran hs (herr _ _ _ _ _ h)

/-- A fact that does not depend on the state may be assumed. -/
theorem assuming {p : Prop} (hp : ∀ s, P s → p) (h : p → Triple answers P x Q E) :
    Triple answers P x Q E := fun s n hs => h (hp s hs) s n hs

/-- What is known of the values that were returned. -/
theorem knowing {p : Prop} (h : p → Triple answers P x Q E) :
    Triple answers (fun s => p ∧ P s) x Q E := fun s n hs => h hs.1 s n hs.2

/-- Some instance of the precondition holds. -/
theorem existing {γ : Type} {T : γ → σ → Prop} (h : ∀ c, Triple answers (T c) x Q E) :
    Triple answers (fun s => ∃ c, T c s) x Q E := fun s n ⟨c, hs⟩ => h c s n hs

/-- From each state of the precondition on its own. -/
theorem each (h : ∀ s, P s → Triple answers (· = s) x Q E) : Triple answers P x Q E :=
  fun s n hs => h s hs s n rfl

/-- From one state of the precondition. -/
theorem here {s : σ} (h : Triple answers P x Q E) (hs : P s) : Triple answers (· = s) x Q E :=
  h.pre fun _ heq => heq ▸ hs

/-! Steps that leave the state alone, from a given state. -/

section Steps

variable {s : σ}

theorem reading {g : σ → Call ε σ β} (h : Triple answers (· = s) (g s) R E) :
    Triple answers (· = s) (Call.current >>= g) R E := by
  rintro _ n rfl
  exact h _ n rfl

theorem requiring {p : Prop} [Decidable p] {g : Unit → Call ε σ β} (hn : ¬ p → E e s)
    (h : p → Triple answers (· = s) (g ()) R E) :
    Triple answers (· = s) (Call.require p e >>= g) R E := by
  refine Triple.bind (Q := fun _ s' => s' = s ∧ p)
    (Triple.require (fun _ hs hp => ⟨hs, hp⟩) fun _ hs hp => hs ▸ hn hp) fun _ =>
    Triple.assuming (fun _ hs => hs.2) fun hp => (h hp).pre fun _ hs => hs.1

theorem taking {r : Except ε α} (herr : ∀ e, r = .error e → E e s)
    (hok : ∀ a, r = .ok a → Triple answers (· = s) (f a) R E) :
    Triple answers (· = s) (Call.ofExcept r >>= f) R E := by
  refine Triple.bind (Q := fun a s' => s' = s ∧ r = .ok a)
    (Triple.ofExcept (fun _ _ hs ha => ⟨hs, ha⟩) fun _ e hs he => hs ▸ herr e he) fun a =>
    Triple.assuming (fun _ hs => hs.2) fun ha => (hok a ha).pre fun _ hs => hs.1

theorem choosing {o : Option α} (hnone : o = none → E e s)
    (hsome : ∀ a, o = some a → Triple answers (· = s) (f a) R E) :
    Triple answers (· = s) (Call.ofOption e o >>= f) R E := by
  refine Triple.bind (Q := fun a s' => s' = s ∧ o = some a)
    (Triple.ofOption (fun _ _ hs ha => ⟨hs, ha⟩) fun _ hs ho => hs ▸ hnone ho) fun a =>
    Triple.assuming (fun _ hs => hs.2) fun ha => (hsome a ha).pre fun _ hs => hs.1

theorem requesting {g : Unit → Call ε σ β} (hdenied : (∃ i, answers i = false) → E e s)
    (h : Triple answers (· = s) (g ()) R E) :
    Triple answers (· = s) (Call.request e >>= g) R E :=
  Triple.bind (Q := fun _ s' => s' = s)
    (Triple.request (fun _ => id) fun _ hs hd => hs ▸ hdenied hd) fun _ => h

end Steps

/-- **The loop rule.** -/
theorem forEach {f : α → Call ε σ Unit} {l : List α} (Inv : List α → σ → Prop)
    (hstep : ∀ done a rest, l = done ++ a :: rest →
      Triple answers (Inv done) (f a) (fun _ => Inv (done ++ [a])) E) :
    Triple answers (Inv []) (Call.forEach l f) (fun _ => Inv l) E := by
  suffices go : ∀ rest done, l = done ++ rest →
      Triple answers (Inv done) (Call.forEach rest f) (fun _ => Inv l) E from go l [] rfl
  intro rest
  induction rest with
  | nil =>
      intro done hl
      obtain rfl : l = done := by simpa using hl
      exact Triple.pure fun _ hs => hs
  | cons a rest ih =>
      intro done hl
      exact (hstep done a rest hl).bind fun _ => ih (done ++ [a]) (by simpa using hl)

end Triple

/-! ## Invariants -/

/-- The call keeps the invariant, whatever it reports. -/
def Maintains (answers : ℕ → Bool) (I : σ → Prop) (x : Call ε σ α) : Prop :=
  Triple answers I x (fun _ => I) fun _ => I

namespace Maintains

variable {answers : ℕ → Bool} {I : σ → Prop} {x : Call ε σ α} {f : α → Call ε σ β}

theorem state (h : Maintains answers I x) {s : σ} (hs : I s) (n : ℕ) : I (x answers s n).state := by
  have := h s n hs
  cases hx : x answers s n with
  | ok a s' n' =>
      rw [hx] at this
      exact this
  | error e s' n' =>
      rw [hx] at this
      exact this

theorem bind (hx : Maintains answers I x) (hf : ∀ a, Maintains answers I (f a)) :
    Maintains answers I (x >>= f) := Triple.bind hx hf

theorem pure (a : α) : Maintains answers I (Pure.pure a : Call ε σ α) := Triple.pure fun _ => id

theorem fail (e : ε) : Maintains answers I (Call.fail e : Call ε σ α) := Triple.fail fun _ => id

theorem require (p : Prop) [Decidable p] (e : ε) : Maintains answers I (Call.require p e) :=
  Triple.require (fun _ hs _ => hs) fun _ hs _ => hs

theorem ofOption (e : ε) (o : Option α) : Maintains answers I ((Call.ofOption e o : Call ε σ α)) :=
  Triple.ofOption (fun _ _ hs _ => hs) fun _ hs _ => hs

theorem current : Maintains answers I (Call.current : Call ε σ σ) := Triple.current fun _ => id

theorem modify {g : σ → σ} (h : ∀ s, I s → I (g s)) :
    Maintains answers I (Call.modify g : Call ε σ Unit) := Triple.modify h

/-- A change and what follows it. -/
theorem modifying {g : σ → σ} {f : Unit → Call ε σ β} (h : ∀ s, I s → I (g s))
    (hf : Maintains answers I (f ())) : Maintains answers I (Call.modify g >>= f) :=
  (modify h).bind fun _ => hf

/-- What is read may be used. -/
theorem reading {g : σ → Call ε σ β}
    (h : ∀ s, I s → Triple answers (· = s) (g s) (fun _ => I) fun _ => I) :
    Maintains answers I (Call.current >>= g) :=
  Triple.each fun s hs => Triple.reading (h s hs)

theorem collect {g : ℕ → Call ε σ α} (hg : ∀ i, Maintains answers I (g i)) (start count : ℕ) :
    Maintains answers I (Call.collect g start count) := by
  induction count generalizing start with
  | zero => exact pure _
  | succ count ih => exact (hg start).bind fun _ => (ih (start + 1)).bind fun _ => pure _

theorem replicate (hx : Maintains answers I x) (count : ℕ) :
    Maintains answers I (Call.replicate count x) := by
  induction count with
  | zero => exact pure _
  | succ count ih => exact hx.bind fun _ => ih.bind fun _ => pure _

end Maintains

end Call
