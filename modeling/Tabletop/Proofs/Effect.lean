import Mathlib.Order.Defs.Unbundled
import Tabletop.Machine

/-!
# What a computation can do to the state

`Ensures x R E` bounds the effect of a computation that may fail: `R` relates the state before to
the state after, on success and on failure, and `E` holds of every error. The rules follow the way
computations are put together, so that a bound on a whole routine comes from bounds on its steps.
`Agree` compares two computations, run from related states, in the same way, and `Mirrors` compares
two outcomes of which the second need not follow the first into every error.
-/

namespace Tabletop

variable {ε σ α β : Type}

/-- The state in which a computation ends, whether it fails or not. -/
def endState : EStateM.Result ε σ α → σ
  | .ok _ s => s
  | .error _ s => s

/-- The error with which a computation fails, if it does. -/
def error? : EStateM.Result ε σ α → Option ε
  | .ok _ _ => none
  | .error e _ => some e

/-- The outcome of a computation with only a part of the state in which it ends. -/
def viewState {τ : Type} (view : σ → τ) : EStateM.Result ε σ α → EStateM.Result ε τ α
  | .ok a s => .ok a (view s)
  | .error e s => .error e (view s)

/-! ## Binding -/

theorem bind_eq_of_ok {x : EStateM ε σ α} {f : α → EStateM ε σ β} {s s' : σ} {a : α}
    (h : x s = .ok a s') : (x >>= f) s = f a s' := by
  simp only [bind, EStateM.bind, h]

theorem bind_eq_of_error {x : EStateM ε σ α} {f : α → EStateM ε σ β} {s s' : σ} {e : ε}
    (h : x s = .error e s') : (x >>= f) s = .error e s' := by
  simp only [bind, EStateM.bind, h]

/-- A sequence succeeds exactly if both parts do, one after the other. -/
theorem bind_eq_ok_iff {x : EStateM ε σ α} {f : α → EStateM ε σ β} {s s' : σ} {b : β} :
    (x >>= f) s = .ok b s' ↔ ∃ a t, x s = .ok a t ∧ f a t = .ok b s' := by
  cases h : x s with
  | ok a t =>
    rw [bind_eq_of_ok h]
    constructor
    · intro hf
      exact ⟨a, t, rfl, hf⟩
    · rintro ⟨_, _, hok, hf⟩
      cases hok
      exact hf
  | error e t =>
    rw [bind_eq_of_error h]
    constructor
    · intro hf
      cases hf
    · rintro ⟨_, _, hok, _⟩
      cases hok

section Map

variable {f : α → β} {x : EStateM ε σ α} {s s' : σ}

theorem map_eq_ok {b : β} : (f <$> x) s = .ok b s' ↔ ∃ a, x s = .ok a s' ∧ f a = b := by
  rw [map_eq_pure_bind, bind_eq_ok_iff]
  constructor
  · rintro ⟨a, _, hx, h⟩
    cases h
    exact ⟨a, hx, rfl⟩
  · rintro ⟨a, hx, rfl⟩
    exact ⟨a, s', hx, rfl⟩

theorem map_eq_error {e : ε} : (f <$> x) s = .error e s' ↔ x s = .error e s' := by
  rw [map_eq_pure_bind]
  cases h : x s with
  | ok a t =>
    rw [bind_eq_of_ok h]
    constructor <;> nofun
  | error e' t =>
    rw [bind_eq_of_error h]
    constructor <;> (intro heq; cases heq; rfl)

end Map

/-! ## One computation -/

/-- Every run of `x` takes a state to a state that `R` relates to it, and fails only as `E` says. -/
def Ensures (x : EStateM ε σ α) (R : σ → σ → Prop) (E : ε → Prop) : Prop :=
  ∀ s, match x s with
    | .ok _ s' => R s s'
    | .error e s' => R s s' ∧ E e

namespace Ensures

variable {R : σ → σ → Prop} {E : ε → Prop}

theorem ok {x : EStateM ε σ α} {s s' : σ} {a : α} (h : Ensures x R E) (hx : x s = .ok a s') :
    R s s' := by
  have hs := h s
  simpa only [hx] using hs

theorem error {x : EStateM ε σ α} {s s' : σ} {e : ε} (h : Ensures x R E)
    (hx : x s = .error e s') : R s s' ∧ E e := by
  have hs := h s
  simpa only [hx] using hs

theorem atEnd {x : EStateM ε σ α} (h : Ensures x R E) (s : σ) : R s (endState (x s)) := by
  cases hx : x s with
  | ok a s' => exact h.ok hx
  | error e s' => exact (h.error hx).1

theorem of_atEnd {x : EStateM ε σ α} (h : ∀ s, R s (endState (x s))) :
    Ensures x R fun _ => True := by
  intro s
  have hs := h s
  cases hx : x s with
  | ok a s' => rwa [hx] at hs
  | error e s' =>
    rw [hx] at hs
    exact ⟨hs, trivial⟩

theorem mono {R' : σ → σ → Prop} {E' : ε → Prop} {x : EStateM ε σ α} (h : Ensures x R E)
    (hR : ∀ s s', R s s' → R' s s') (hE : ∀ e, E e → E' e) : Ensures x R' E' := by
  intro s
  cases hx : x s with
  | ok a s' => exact hR s s' (h.ok hx)
  | error e s' => exact ⟨hR s s' (h.error hx).1, hE e (h.error hx).2⟩

theorem pure [Std.Refl R] (a : α) : Ensures (pure a : EStateM ε σ α) R E :=
  fun s => refl_of R s

theorem get [Std.Refl R] : Ensures (get : EStateM ε σ σ) R E :=
  fun s => refl_of R s

theorem throw [Std.Refl R] {e : ε} (he : E e) : Ensures (throw e : EStateM ε σ α) R E :=
  fun s => ⟨refl_of R s, he⟩

theorem modify {f : σ → σ} (h : ∀ s, R s (f s)) : Ensures (modify f : EStateM ε σ PUnit) R E := h

theorem bind [IsTrans σ R] {x : EStateM ε σ α} {f : α → EStateM ε σ β} (hx : Ensures x R E)
    (hf : ∀ a, Ensures (f a) R E) : Ensures (x >>= f) R E := by
  intro s
  cases h : x s with
  | ok a t =>
    have ht := hx.ok h
    rw [bind_eq_of_ok h]
    cases h' : f a t with
    | ok b s' => exact trans_of R ht ((hf a).ok h')
    | error e s' => exact ⟨trans_of R ht ((hf a).error h').1, ((hf a).error h').2⟩
  | error e t =>
    rw [bind_eq_of_error h]
    exact hx.error h

theorem ite {c : Prop} [Decidable c] {x y : EStateM ε σ α} (hx : Ensures x R E)
    (hy : Ensures y R E) : Ensures (if c then x else y) R E := by
  split
  · exact hx
  · exact hy

end Ensures

/-! ## Two computations -/

/-- Run from states related by `R`, the two computations end in states related by `R`, either both
with the same answer or both with errors related by `F`. -/
def Agree (R : σ → σ → Prop) (F : ε → ε → Prop) (x y : EStateM ε σ α) : Prop :=
  ∀ s t, R s t → match x s, y t with
    | .ok a s', .ok b t' => a = b ∧ R s' t'
    | .error e s', .error f t' => F e f ∧ R s' t'
    | _, _ => False

namespace Agree

variable {R : σ → σ → Prop} {F : ε → ε → Prop}

theorem ok {x y : EStateM ε σ α} {s t s' : σ} {a : α} (h : Agree R F x y) (hst : R s t)
    (hx : x s = .ok a s') : ∃ t', y t = .ok a t' ∧ R s' t' := by
  have hxy := h s t hst
  cases hy : y t with
  | ok b t' =>
    rw [hx, hy] at hxy
    obtain ⟨rfl, hst'⟩ := hxy
    exact ⟨t', rfl, hst'⟩
  | error e t' =>
    rw [hx, hy] at hxy
    exact hxy.elim

theorem error {x y : EStateM ε σ α} {s t s' : σ} {e : ε} (h : Agree R F x y) (hst : R s t)
    (hx : x s = .error e s') : ∃ f t', y t = .error f t' ∧ F e f ∧ R s' t' := by
  have hxy := h s t hst
  cases hy : y t with
  | ok b t' =>
    rw [hx, hy] at hxy
    exact hxy.elim
  | error f t' =>
    rw [hx, hy] at hxy
    exact ⟨f, t', rfl, hxy⟩

theorem pure (a : α) : Agree R F (pure a) (pure a) := fun _ _ h => ⟨rfl, h⟩

theorem throw {e f : ε} (h : F e f) : Agree R F (throw e : EStateM ε σ α) (throw f) :=
  fun _ _ hR => ⟨h, hR⟩

theorem bind {x y : EStateM ε σ α} {f g : α → EStateM ε σ β} (hx : Agree R F x y)
    (hf : ∀ a, Agree R F (f a) (g a)) : Agree R F (x >>= f) (y >>= g) := by
  intro s t hst
  cases hs : x s with
  | ok a s' =>
    obtain ⟨t', ht, hst'⟩ := hx.ok hst hs
    rw [bind_eq_of_ok hs, bind_eq_of_ok ht]
    exact hf a s' t' hst'
  | error e s' =>
    obtain ⟨e', t', ht, herror⟩ := hx.error hst hs
    rw [bind_eq_of_error hs, bind_eq_of_error ht]
    exact herror

/-- Computations that go by the state agree if they do for related states. -/
theorem get_bind {f g : σ → EStateM ε σ α} (h : ∀ s t, R s t → Agree R F (f s) (g t)) :
    Agree R F (get >>= f) (get >>= g) :=
  fun s t hst => h s t hst s t hst

end Agree

/-! ## Two outcomes -/

/-- The second outcome is that of the first, in a state related by `R`, unless the first one is an
error for which `E` makes an exception. -/
def Mirrors (R : σ → σ → Prop) (E : ε → Prop) (first second : EStateM.Result ε σ α) : Prop :=
  match first with
  | .ok a s => ∃ t, second = .ok a t ∧ R s t
  | .error e s => E e ∨ ∃ t, second = .error e t ∧ R s t

namespace Mirrors

variable {R : σ → σ → Prop} {E : ε → Prop}

theorem ok {a : α} {s t : σ} (h : R s t) :
    Mirrors R E (.ok a s : EStateM.Result ε σ α) (.ok a t) :=
  ⟨t, rfl, h⟩

theorem error {e : ε} {s t : σ} (h : R s t) :
    Mirrors R E (.error e s : EStateM.Result ε σ α) (.error e t) :=
  .inr ⟨t, rfl, h⟩

/-- Without exceptions, the same errors arise and the last states are related. -/
theorem atEnd {first second : EStateM.Result ε σ α} (h : Mirrors R E first second)
    (hE : ∀ e, ¬ E e) : error? second = error? first ∧ R (endState first) (endState second) := by
  cases first with
  | ok a s =>
    obtain ⟨t, rfl, hst⟩ := h
    exact ⟨rfl, hst⟩
  | error e s =>
    rcases h with hexcept | ⟨t, rfl, hst⟩
    · exact absurd hexcept (hE e)
    · exact ⟨rfl, hst⟩

/-- Outcomes that mirror one another up to here do so further on, if what follows does. -/
theorem bind {x y : EStateM ε σ α} {f g : α → EStateM ε σ β} {s t : σ}
    (hx : Mirrors R E (x s) (y t))
    (hf : ∀ a s' t', x s = .ok a s' → R s' t' → Mirrors R E (f a s') (g a t')) :
    Mirrors R E ((x >>= f) s) ((y >>= g) t) := by
  cases hs : x s with
  | ok a s' =>
    rw [hs] at hx
    obtain ⟨t', ht, hst⟩ := hx
    rw [bind_eq_of_ok hs, bind_eq_of_ok ht]
    exact hf a s' t' hs hst
  | error e s' =>
    rw [hs] at hx
    rw [bind_eq_of_error hs]
    rcases hx with hexcept | ⟨t', ht, hst⟩
    · exact .inl hexcept
    · rw [bind_eq_of_error ht]
      exact .error hst

end Mirrors

end Tabletop
