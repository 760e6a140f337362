import McStatus.Library.Reader

/-!
This module contains computations on two sources that do the same wherever what is left of the
inputs is the same.
-/

namespace McStatus

namespace Reader

variable {ε σ τ ι α β : Type}

/-- Both return the same and leave the same, or both raise, what counts as alike. -/
inductive Alike (view : σ → List ι) (view' : τ → List ι) (alike : ε → ε → Prop)
    : EStateM.Result ε σ α → EStateM.Result ε τ α → Prop where
  | ok {a : α} {s : σ} {t : τ} : view s = view' t → Alike view view' alike (.ok a s) (.ok a t)
  | error {e e' : ε} {s : σ} {t : τ} :
      alike e e' → Alike view view' alike (.error e s) (.error e' t)

def Mirrors (view : σ → List ι) (view' : τ → List ι) (alike : ε → ε → Prop) (x : EStateM ε σ α)
    (y : EStateM ε τ α) : Prop :=
  ∀ s t, view s = view' t → Alike view view' alike (x s) (y t)

variable {view : σ → List ι} {view' : τ → List ι} {alike : ε → ε → Prop}

section Alike

variable {x : EStateM ε σ α} {y : EStateM ε τ α} {s : σ} {t : τ}

theorem Alike.cases (h : Alike view view' alike (x s) (y t))
    : (∃ a s' t', x s = .ok a s' ∧ y t = .ok a t' ∧ view s' = view' t')
      ∨ ∃ e e' s' t', x s = .error e s' ∧ y t = .error e' t' ∧ alike e e' := by
  generalize hx : x s = xs at h
  generalize hy : y t = yt at h
  cases h with
  | ok hview => exact Or.inl ⟨_, _, _, rfl, rfl, hview⟩
  | error he => exact Or.inr ⟨_, _, _, _, rfl, rfl, he⟩

theorem Mirrors.of_ok {a : α} {t' : τ} (h : Mirrors view view' alike x y) (hview : view s = view' t)
    (hy : y t = .ok a t') : ∃ s', x s = .ok a s' ∧ view s' = view' t' := by
  rcases (h s t hview).cases with ⟨b, s', u, hx, hy', hview'⟩ | ⟨e, e', s', u, -, hy', -⟩
  . rw [hy, EStateM.Result.ok.injEq] at hy'
    rcases hy' with ⟨rfl, rfl⟩
    exact ⟨s', hx, hview'⟩
  . rw [hy] at hy'
    cases hy'

theorem Mirrors.of_error {e : ε} {t' : τ} (h : Mirrors view view' alike x y)
    (hview : view s = view' t) (hy : y t = .error e t') : ∃ e' s', x s = .error e' s' ∧ alike e' e
    := by
  rcases (h s t hview).cases with ⟨b, s', u, -, hy', -⟩ | ⟨e', e'', s', u, hx, hy', he⟩
  . rw [hy] at hy'
    cases hy'
  . rw [hy, EStateM.Result.error.injEq] at hy'
    rw [hy'.1]
    exact ⟨e', s', hx, he⟩

end Alike

theorem Mirrors.pure (a : α)
    : Mirrors view view' alike (pure a : EStateM ε σ α) (pure a : EStateM ε τ α) :=
  fun _ _ hview => .ok hview

theorem Mirrors.throw {e e' : ε} (h : alike e e')
    : Mirrors view view' alike (throw e : EStateM ε σ α) (throw e' : EStateM ε τ α) :=
  fun _ _ _ => .error h

theorem Mirrors.bind {x : EStateM ε σ α} {y : EStateM ε τ α} {f : α → EStateM ε σ β}
    {g : α → EStateM ε τ β} (h : Mirrors view view' alike x y)
    (hf : ∀ a, Mirrors view view' alike (f a) (g a)) : Mirrors view view' alike (x >>= f) (y >>= g)
    := by
  intro s t hview
  rcases (h s t hview).cases with ⟨a, s', t', hx, hy, hview'⟩ | ⟨e, e', s', t', hx, hy, he⟩
  . rw [bind_of_ok hx, bind_of_ok hy]
    exact hf a s' t' hview'
  . rw [bind_of_error hx, bind_of_error hy]
    exact .error he

theorem Mirrors.ite {p : Prop} [Decidable p] {x x' : EStateM ε σ α} {y y' : EStateM ε τ α}
    (h : p → Mirrors view view' alike x y) (h' : ¬ p → Mirrors view view' alike x' y')
    : Mirrors view view' alike (if p then x else x') (if p then y else y') := by
  split
  . next hp => exact h hp
  . next hp => exact h' hp

section Loop

variable {μ : σ → Nat} {step : α → EStateM ε σ (α ⊕ β)}
variable {hstep : ∀ a a' s s', step a s = .ok (.inl a') s' → μ s' < μ s}
variable {ν : τ → Nat} {step' : α → EStateM ε τ (α ⊕ β)}
variable {hstep' : ∀ a a' t t', step' a t = .ok (.inl a') t' → ν t' < ν t}

theorem Mirrors.loop (h : ∀ a, Mirrors view view' alike (step a) (step' a)) (a : α)
    : Mirrors view view' alike (loop μ step hstep a) (loop ν step' hstep' a) := by
  intro s t hview
  induction hn : μ s using Nat.strongRecOn generalizing a s t with
  | ind n ih =>
    rcases (h a s t hview).cases with ⟨next, s', t', hx, hy, hview'⟩ | ⟨e, e', s', t', hx, hy, he⟩
    . cases next with
      | inl a' =>
        have hlt := hstep a a' s s' hx
        rw [loop_continue hx, loop_continue hy]
        exact ih (μ s') (by omega) a' s' t' hview' rfl
      | inr b =>
        rw [loop_break hx, loop_break hy]
        exact .ok hview'
    . rw [loop_throw hx, loop_throw hy]
      exact .error he

end Loop

end Reader

end McStatus
