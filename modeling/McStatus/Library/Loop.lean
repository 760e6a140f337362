import Mathlib.Algebra.Ring.Int.Defs
import Mathlib.Algebra.Ring.Nat
import Mathlib.Data.List.Forall2
import Mathlib.Data.Nat.Basic

/-!
This module contains computations that can fail and `while` loops over them. A loop comes with a
measure that every iteration which goes round again makes smaller, so it is total, and its
invariant rule needs no fuel.
-/

namespace McStatus

namespace Fallible

variable {α β ε : Type}

@[simp]
theorem pure_eq_ok (a : α) : (pure a : Except ε α) = .ok a := rfl

@[simp]
theorem throw_eq_error (e : ε) : (throw e : Except ε α) = .error e := rfl

@[simp]
theorem ok_bind (a : α) (f : α → Except ε β) : (Except.ok a >>= f) = f a := rfl

@[simp]
theorem error_bind (e : ε) (f : α → Except ε β) : (Except.error e >>= f) = .error e := rfl

theorem bind_eq_ok {x : Except ε α} {f : α → Except ε β} {b : β}
    : (x >>= f) = .ok b ↔ ∃ a, x = .ok a ∧ f a = .ok b := by
  cases x <;> simp

theorem bind_eq_error {x : Except ε α} {f : α → Except ε β} {e : ε}
    : (x >>= f) = .error e ↔ x = .error e ∨ ∃ a, x = .ok a ∧ f a = .error e := by
  cases x <;> simp

theorem mapError_eq_ok {ε' : Type} {x : Except ε α} {f : ε → ε'} {a : α}
    : x.mapError f = .ok a ↔ x = .ok a := by
  cases x <;> simp [Except.mapError]

theorem map_bind_eq {α' β' γ γ' : Type} {x : Except ε α} {y : Except ε β} {f : α → γ} {g : β → γ}
    (h : x.map f = y.map g) {k : α → Except ε α'} {k' : β → Except ε β'} {f' : α' → γ'}
    {g' : β' → γ'} (hk : ∀ a b, f a = g b → (k a).map f' = (k' b).map g')
    : (x >>= k).map f' = (y >>= k').map g' := by
  cases x with
  | error e =>
    cases y with
    | error e' =>
      cases h
      rfl
    | ok b => cases h
  | ok a =>
    cases y with
    | error e => cases h
    | ok b => exact hk a b (Except.ok.inj h)

theorem mapM_of_forall_ok {f : α → Except ε β} {g : α → β} {as : List α}
    (h : ∀ a ∈ as, f a = .ok (g a)) : as.mapM f = .ok (as.map g) := by
  induction as with
  | nil => rfl
  | cons a as ih =>
    rw [List.mapM_cons, h a List.mem_cons_self, ok_bind,
      ih fun b hb => h b (List.mem_cons_of_mem a hb), ok_bind]
    rfl

theorem exists_mapM_of_forall {f : α → Except ε β} {P : α → β → Prop} {as : List α}
    (h : ∀ a ∈ as, ∃ b, f a = .ok b ∧ P a b) : ∃ bs, as.mapM f = .ok bs ∧ List.Forall₂ P as bs := by
  induction as with
  | nil => exact ⟨[], rfl, .nil⟩
  | cons a as ih =>
    rcases h a List.mem_cons_self with ⟨b, hb, hp⟩
    rcases ih fun a' ha' => h a' (List.mem_cons_of_mem a ha') with ⟨bs, hbs, hall⟩
    refine ⟨b :: bs, ?_, .cons hp hall⟩
    rw [List.mapM_cons, hb, ok_bind, hbs, ok_bind]
    rfl

theorem mem_of_mapM_eq_ok {f : α → Except ε β} {as : List α} {bs : List β} (h : as.mapM f = .ok bs)
    : (∀ a ∈ as, ∃ b ∈ bs, f a = .ok b) ∧ ∀ b ∈ bs, ∃ a ∈ as, f a = .ok b := by
  induction as generalizing bs with
  | nil =>
    cases h
    exact ⟨fun a ha => absurd ha List.not_mem_nil, fun b hb => absurd hb List.not_mem_nil⟩
  | cons a as ih =>
    rw [List.mapM_cons] at h
    rcases bind_eq_ok.mp h with ⟨b, hb, h⟩
    rcases bind_eq_ok.mp h with ⟨rest, hrest, heq⟩
    cases heq
    rcases ih hrest with ⟨hinto, honto⟩
    constructor
    . intro x hx
      rcases List.mem_cons.mp hx with rfl | hx
      . exact ⟨b, List.mem_cons_self, hb⟩
      . rcases hinto x hx with ⟨y, hy, hok⟩
        exact ⟨y, List.mem_cons_of_mem b hy, hok⟩
    . intro y hy
      rcases List.mem_cons.mp hy with rfl | hy
      . exact ⟨a, List.mem_cons_self, hb⟩
      . rcases honto y hy with ⟨x, hx, hok⟩
        exact ⟨x, List.mem_cons_of_mem a hx, hok⟩

end Fallible

namespace Loop

variable {σ ρ ε : Type}

/--
Run `step` until it leaves the loop: `.inl` goes round again, `.inr` breaks with a result.
-/
def run (μ : σ → Nat) (step : σ → Except ε (σ ⊕ ρ))
    (hstep : ∀ s s', step s = .ok (.inl s') → μ s' < μ s) (s : σ) : Except ε ρ :=
  match h : step s with
  | .error e => .error e
  | .ok (.inr r) => .ok r
  | .ok (.inl s') =>
    have := hstep s s' h
    run μ step hstep s'
termination_by μ s

variable {μ : σ → Nat} {step : σ → Except ε (σ ⊕ ρ)}
variable {hstep : ∀ s s', step s = .ok (.inl s') → μ s' < μ s}

theorem run_break {s : σ} {r : ρ} (h : step s = .ok (.inr r)) : run μ step hstep s = .ok r := by
  unfold run
  split
  . next heq => simp [h] at heq
  . next heq => simpa [h] using heq.symm
  . next heq => simp [h] at heq

theorem run_throw {s : σ} {e : ε} (h : step s = .error e) : run μ step hstep s = .error e := by
  unfold run
  split
  . next heq => simpa [h] using heq.symm
  . next heq => simp [h] at heq
  . next heq => simp [h] at heq

theorem run_continue {s s' : σ} (h : step s = .ok (.inl s'))
    : run μ step hstep s = run μ step hstep s' := by
  conv => lhs; unfold run
  split
  . next heq => simp [h] at heq
  . next heq => simp [h] at heq
  . next t heq =>
    have : s' = t := by simpa [h] using heq
    rw [this]

/--
The invariant rule: `Q` holds of the outcome when `I` holds at the start, an iteration keeps `I`,
and an iteration that ends the loop from an `I`-state establishes `Q`.
-/
theorem run_induct (I : σ → Prop) (Q : Except ε ρ → Prop)
    (hthrow : ∀ s e, I s → step s = .error e → Q (.error e))
    (hbreak : ∀ s r, I s → step s = .ok (.inr r) → Q (.ok r))
    (hcont : ∀ s s', I s → step s = .ok (.inl s') → I s')
    : ∀ s, I s → Q (run μ step hstep s) := by
  intro s
  induction hn : μ s using Nat.strongRecOn generalizing s with
  | ind n ih =>
    intro hI
    match h : step s with
    | .error e =>
      rw [run_throw h]
      exact hthrow s e hI h
    | .ok (.inr r) =>
      rw [run_break h]
      exact hbreak s r hI h
    | .ok (.inl s') =>
      rw [run_continue h]
      have hlt := hstep s s' h
      exact ih (μ s') (by omega) s' rfl (hcont s s' hI h)

theorem run_ok {s : σ} {r : ρ} (I : σ → Prop) (P : ρ → Prop)
    (hbreak : ∀ s r, I s → step s = .ok (.inr r) → P r)
    (hcont : ∀ s s', I s → step s = .ok (.inl s') → I s')
    (hI : I s) (h : run μ step hstep s = .ok r) : P r := by
  have hrun : ∀ r, run μ step hstep s = .ok r → P r := by
    refine run_induct I (fun out => ∀ r, out = .ok r → P r) ?_ ?_ hcont s hI
    . simp
    . intro s r hs hbr r' heq
      rw [Except.ok.injEq] at heq
      exact heq ▸ hbreak s r hs hbr
  exact hrun r h

theorem run_error {s : σ} {e : ε} (P : ε → Prop) (hthrow : ∀ s e, step s = .error e → P e)
    (h : run μ step hstep s = .error e) : P e := by
  have hrun : ∀ e, run μ step hstep s = .error e → P e := by
    refine run_induct (fun _ => True) (fun out => ∀ e, out = .error e → P e) ?_ ?_ ?_ s trivial
    . intro s e _ hth e' heq
      rw [Except.error.injEq] at heq
      exact heq ▸ hthrow s e hth
    . simp
    . intros
      trivial
  exact hrun e h

end Loop

end McStatus
