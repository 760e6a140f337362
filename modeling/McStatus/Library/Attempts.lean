import McStatus.Library.Reader

/-!
This module contains computations that are tried again after an error, in the state the error left
behind.
-/

namespace McStatus

namespace Reader

variable {ε σ α β : Type}

/-- `attempt i`, `attempt (i + 1)` and so on, until one of `tries` of them returns. -/
def attemptsFrom (attempt : Nat → EStateM ε σ α) (i tries : Nat) (last : ε) : EStateM ε σ α :=
  fun s =>
    match tries with
    | 0 => .error last s
    | tries + 1 =>
      match attempt i s with
      | .ok a s' => .ok a s'
      | .error e s' => attemptsFrom attempt (i + 1) tries e s'

/-- The states that are left behind when the attempts from `0` to `k - 1` have raised. -/
inductive FailsTo (attempt : Nat → EStateM ε σ α) (s : σ) : Nat → σ → Prop where
  | start : FailsTo attempt s 0 s
  | next {k : Nat} {t t' : σ} {e : ε} :
      FailsTo attempt s k t → attempt k t = .error e t' → FailsTo attempt s (k + 1) t'

section Attempts

variable {attempt : Nat → EStateM ε σ α} {s s' t t' : σ} {k tries : Nat} {a : α} {e last : ε}

theorem FailsTo.zero_eq (h : FailsTo attempt s 0 t) : t = s := by
  cases h
  rfl

theorem FailsTo.unique (h : FailsTo attempt s k t) (h' : FailsTo attempt s k t') : t' = t := by
  induction h generalizing t' with
  | start => exact h'.zero_eq
  | next _ hrun ih =>
    cases h' with
    | next hfails hrun' =>
      rw [ih hfails, hrun] at hrun'
      cases hrun'
      rfl

theorem FailsTo.induct (I : Nat → σ → Prop) (hstart : I 0 s)
    (hnext : ∀ j t e t', j < k → I j t → attempt j t = .error e t' → I (j + 1) t')
    (h : FailsTo attempt s k t) : I k t := by
  induction h with
  | start => exact hstart
  | @next k t t' e hfails hrun ih =>
    refine hnext k t e t' (Nat.lt_succ_self k) (ih ?_) hrun
    intro j u e' u' hj
    exact hnext j u e' u' (Nat.lt_succ_of_lt hj)

theorem FailsTo.raises {j : Nat} {u : σ} (h : FailsTo attempt s k t) (hj : j < k)
    (hfails : FailsTo attempt s j u) : ∃ e u', attempt j u = .error e u' := by
  induction h with
  | start => omega
  | @next k t t' e hfails' hrun ih =>
    by_cases hlast : j = k
    . subst hlast
      rw [← hfails.unique hfails'] at *
      exact ⟨e, t', hrun⟩
    . exact ih (by omega)

theorem FailsTo.returns_unique {j : Nat} {u u' : σ} {b : α} (h : FailsTo attempt s k t)
    (hrun : attempt k t = .ok a t') (h' : FailsTo attempt s j u) (hrun' : attempt j u = .ok b u')
    : k = j ∧ t = u := by
  rcases Nat.lt_trichotomy j k with hlt | rfl | hgt
  . rcases h.raises hlt h' with ⟨e, v, herror⟩
    rw [hrun'] at herror
    cases herror
  . exact ⟨rfl, h'.unique h⟩
  . rcases h'.raises hgt h with ⟨e, v, herror⟩
    rw [hrun] at herror
    cases herror

theorem FailsTo.attemptsFrom_eq (h : FailsTo attempt s k t) (tries : Nat) (last : ε)
    : ∃ last',
        attemptsFrom attempt 0 (k + tries) last s = attemptsFrom attempt k tries last' t := by
  induction h generalizing tries with
  | start => exact ⟨last, by rw [Nat.zero_add]⟩
  | @next k t t' e hfails hrun ih =>
    rcases ih (tries + 1) with ⟨last', hlast⟩
    refine ⟨e, ?_⟩
    rw [Nat.succ_add_eq_add_succ, hlast, attemptsFrom, hrun]

theorem attemptsFrom_eq_ok_iff
    : attemptsFrom attempt 0 tries last s = .ok a s'
        ↔
      ∃ k < tries, ∃ t, FailsTo attempt s k t ∧ attempt k t = .ok a s' := by
  constructor
  . intro h
    suffices hsuff : ∀ k t last, FailsTo attempt s k t →
        attemptsFrom attempt k tries last t = .ok a s' →
        ∃ j < k + tries, ∃ u, FailsTo attempt s j u ∧ attempt j u = .ok a s' by
      have := hsuff 0 s last .start h
      rwa [Nat.zero_add] at this
    clear h
    induction tries with
    | zero =>
      intro k t last _ h
      cases h
    | succ tries ih =>
      intro k t last hfails h
      rw [attemptsFrom] at h
      split at h
      . next a' u hrun =>
        refine ⟨k, by omega, t, hfails, ?_⟩
        rw [hrun, h]
      . next e u hrun =>
        have := ih (k + 1) u e (hfails.next hrun) h
        rwa [Nat.succ_add_eq_add_succ] at this
  . rintro ⟨k, hk, t, hfails, hrun⟩
    rcases hfails.attemptsFrom_eq (tries - k) last with ⟨last', hlast⟩
    rw [Nat.add_sub_cancel' (Nat.le_of_lt hk)] at hlast
    rcases Nat.exists_eq_add_of_lt hk with ⟨n, rfl⟩
    have hleft : k + n + 1 - k = n + 1 := by omega
    rw [hlast, hleft, attemptsFrom, hrun]

theorem failsTo_of_attemptsFrom (h : attemptsFrom attempt 0 tries last s = .error e s')
    : FailsTo attempt s tries s' := by
  suffices hsuff : ∀ k t last, FailsTo attempt s k t →
      attemptsFrom attempt k tries last t = .error e s' → FailsTo attempt s (k + tries) s' by
    have := hsuff 0 s last .start h
    rwa [Nat.zero_add] at this
  clear h
  induction tries with
  | zero =>
    intro k t last hfails h
    cases h
    exact hfails
  | succ tries ih =>
    intro k t last hfails h
    rw [attemptsFrom] at h
    split at h
    . cases h
    . next e u hrun =>
      have := ih (k + 1) u e (hfails.next hrun) h
      rwa [Nat.succ_add_eq_add_succ] at this

end Attempts

section Keeps

def Keeps (I : σ → Prop) (x : EStateM ε σ α) : Prop :=
  ∀ s, I s →
    (∀ a s', x s = .ok a s' → I s') ∧ ∀ e s', x s = .error e s' → I s'

variable {I : σ → Prop}

theorem kept_of_ok {a : α} {s : σ} (h : I s)
    : (∀ b s', (.ok a s : EStateM.Result ε σ α) = .ok b s' → I s')
        ∧ ∀ e s', (.ok a s : EStateM.Result ε σ α) = .error e s' → I s' := by
  constructor
  . intro b s' hok
    cases hok
    exact h
  . intro e s' herror
    cases herror

theorem kept_of_error {e : ε} {s : σ} (h : I s)
    : (∀ b s', (.error e s : EStateM.Result ε σ α) = .ok b s' → I s')
        ∧ ∀ e' s', (.error e s : EStateM.Result ε σ α) = .error e' s' → I s' := by
  constructor
  . intro b s' hok
    cases hok
  . intro e' s' herror
    cases herror
    exact h

theorem Keeps.pure (a : α) : Keeps I (pure a : EStateM ε σ α) := by
  intro s hI
  constructor
  . intro b s' h
    cases h
    exact hI
  . intro e s' h
    cases h

theorem Keeps.throw (e : ε) : Keeps I (throw e : EStateM ε σ α) := by
  intro s hI
  constructor
  . intro b s' h
    cases h
  . intro e' s' h
    cases h
    exact hI

theorem Keeps.bind {x : EStateM ε σ α} {f : α → EStateM ε σ β} (hx : Keeps I x)
    (hf : ∀ a, Keeps I (f a)) : Keeps I (x >>= f) := by
  intro s hI
  cases hrun : x s with
  | ok a t =>
    rw [bind_of_ok hrun]
    exact hf a t ((hx s hI).1 a t hrun)
  | error e t =>
    rw [bind_of_error hrun]
    constructor
    . intro b s' h
      cases h
    . intro e' s' h
      cases h
      exact (hx s hI).2 e t hrun

theorem Keeps.ite {p : Prop} [Decidable p] {x y : EStateM ε σ α} (hx : Keeps I x)
    (hy : Keeps I y) : Keeps I (if p then x else y) := by
  split
  . exact hx
  . exact hy

end Keeps

end Reader

end McStatus
