import McStatus.Library.Attempts
import McStatus.Python.Basic

/-!
This module contains the connections that a server of `mcstatus/server.py` opens, one for each of
the attempts of `retry`, where the decorator is around the whole of the method.
-/

namespace McStatus

open Reader

namespace Python

/--
What `TCPSocketConnection(address, timeout)` comes to, one call after the other, or the same of UDP.
-/
abbrev Network (γ : Type) :=
  List (Except Exception γ)

namespace Network

variable {γ ε α : Type}

/-- `x` on a connection that is opened for it. No connection is ever made after the last one. -/
def onConnection (raised : Exception → ε) (x : EStateM ε γ α)
    : EStateM ε (Network γ) α := fun network =>
  match network with
  | [] => .error (raised (.osError .timedOut)) []
  | .error e :: network => .error (raised e) network
  | .ok session :: network =>
    match x session with
    | .ok a _ => .ok a network
    | .error e _ => .error e network

/-- `retry` around a method that opens a connection. -/
def retry (raised : Exception → ε) (tries : Int) (x : Nat → EStateM ε γ α)
    : EStateM ε (Network γ) α :=
  attemptsFrom (fun i => onConnection raised (x i)) 0 tries.toNat (raised .unboundLocalError)

variable {raised : Exception → ε} {x : Nat → EStateM ε γ α}
variable {connects network : Network γ} {k : Nat} {tries : Int} {a : α}

def Succeeds (x : Nat → EStateM ε γ α) (connects : Network γ) (attempt : Nat) : Prop :=
  ∃ session a session', connects[attempt]? = some (.ok session)
    ∧ x attempt session = .ok a session'

theorem onConnection_drop (connects : Network γ) (k : Nat)
    : (∃ session a session', connects[k]? = some (.ok session) ∧ x k session = .ok a session'
        ∧ onConnection raised (x k) (connects.drop k) = .ok a (connects.drop (k + 1)))
      ∨ (¬ Succeeds x connects k
        ∧ ∃ e, onConnection raised (x k) (connects.drop k) = .error e (connects.drop (k + 1))) := by
  cases hget : connects[k]? with
  | none =>
    have hlen := List.getElem?_eq_none_iff.mp hget
    rw [List.drop_of_length_le hlen, List.drop_of_length_le (Nat.le_succ_of_le hlen)]
    refine Or.inr ⟨?_, _, rfl⟩
    rintro ⟨session, a, session', hsome, -⟩
    rw [hget] at hsome
    cases hsome
  | some line =>
    rcases List.getElem?_eq_some_iff.mp hget with ⟨hlt, hline⟩
    rw [List.drop_eq_getElem_cons hlt, hline]
    cases line with
    | error e =>
      refine Or.inr ⟨?_, _, rfl⟩
      rintro ⟨session, a, session', hsome, -⟩
      rw [hget] at hsome
      cases hsome
    | ok session =>
      rw [onConnection]
      cases hx : x k session with
      | ok a session' => exact Or.inl ⟨session, a, session', rfl, hx, rfl⟩
      | error e session' =>
        refine Or.inr ⟨?_, _, rfl⟩
        rintro ⟨session₁, a, session₁', hsome, hrun⟩
        rw [hget] at hsome
        cases hsome
        rw [hx] at hrun
        cases hrun

theorem eq_drop_of_failsTo
    (h : FailsTo (fun i => onConnection raised (x i)) connects k network)
    : network = connects.drop k ∧ ∀ attempt < k, ¬ Succeeds x connects attempt := by
  refine h.induct
    (fun k network => network = connects.drop k ∧ ∀ attempt < k, ¬ Succeeds x connects attempt)
    ⟨rfl, fun _ hlt => absurd hlt (Nat.not_lt_zero _)⟩ ?_
  rintro j network e network' - ⟨rfl, hfailed⟩ hrun
  rcases @onConnection_drop _ _ _ raised x connects j with
    ⟨session, a, session', -, -, hok⟩ | ⟨hnot, e', herror⟩
  . rw [hok] at hrun
    cases hrun
  . rw [herror] at hrun
    cases hrun
    refine ⟨rfl, fun attempt hlt => ?_⟩
    rcases Nat.lt_succ_iff_lt_or_eq.mp hlt with hlt | rfl
    . exact hfailed attempt hlt
    . exact hnot

theorem exists_of_retry (h : retry raised tries x connects = .ok a network)
    : ∃ k < tries.toNat, ∃ session session', connects[k]? = some (.ok session)
        ∧ x k session = .ok a session' ∧ ∀ attempt < k, ¬ Succeeds x connects attempt := by
  rcases attemptsFrom_eq_ok_iff.mp h with ⟨k, hk, before, hfails, hrun⟩
  rcases eq_drop_of_failsTo hfails with ⟨rfl, hfailed⟩
  refine ⟨k, hk, ?_⟩
  rcases @onConnection_drop _ _ _ raised x connects k with
    ⟨session, a', session', hget, hx, hok⟩ | ⟨-, e, herror⟩
  . rw [hok] at hrun
    cases hrun
    exact ⟨session, session', hget, hx, hfailed⟩
  . rw [herror] at hrun
    cases hrun

theorem not_succeeds_of_retry {e : ε} (h : retry raised tries x connects = .error e network)
    : ∀ attempt < tries.toNat, ¬ Succeeds x connects attempt :=
  (eq_drop_of_failsTo (failsTo_of_attemptsFrom h)).2

end Network

end Python

end McStatus
