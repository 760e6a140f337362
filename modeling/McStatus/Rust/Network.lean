import McStatus.Rust.Retry

/-!
This module contains the connections that a server of `src/server.rs` opens, one for each of its
attempts, and shows which of the attempts it returns from.
-/

namespace McStatus

open Reader

namespace Rust

/--
What the calls of `TcpConnection::connect` or `UdpConnection::bind` come to, one after the other,
and how long the client has slept, in milliseconds.
-/
structure Network (γ : Type) where
  connects : List (Except McStatusError γ)
  slept : Nat

namespace Network

variable {γ α : Type}

instance : Sleeps (Network γ) where
  sleep time network := { network with slept := network.slept + time }

def start (connects : List (Except McStatusError γ)) : Network γ where
  connects := connects
  slept := 0

/-- `x` on a connection that is opened for it. No connection is ever made after the last one. -/
def onConnection (x : EStateM Failure γ α)
    : EStateM Failure (Network γ) α := fun network =>
  match network.connects with
  | [] => .error (.error .timeout) network
  | .error e :: connects => .error (.error e) { network with connects }
  | .ok session :: connects =>
    match x session with
    | .ok a _ => .ok a { network with connects }
    | .error failure _ => .error failure { network with connects }

def Succeeds (x : Nat → EStateM Failure γ α)
    (connects : List (Except McStatusError γ)) (attempt : Nat) : Prop :=
  ∃ session a session',
    connects[attempt]? = some (.ok session) ∧ x attempt session = .ok a session'

/-- Before attempt `k` there were `k` pauses, and none of the earlier attempts has succeeded. -/
structure Before (x : Nat → EStateM Failure γ α)
    (connects : List (Except McStatusError γ)) (k : Nat)
    (network : Network γ) : Prop where
  remaining : network.connects = connects.drop k
  slept : network.slept = 50 * k
  failed : ∀ attempt < k, ¬ Succeeds x connects attempt

inductive Tried (x : Nat → EStateM Failure γ α)
    (connects : List (Except McStatusError γ)) (k : Nat)
    (network : Network γ) : EStateM.Result Failure (Network γ) α → Prop where
  | ok {session session' : γ} {a : α} {network' : Network γ} :
      connects[k]? = some (.ok session) → x k session = .ok a session' →
      network'.slept = network.slept →
      Tried x connects k network (.ok a network')
  | panic {session session' : γ} {network' : Network γ} :
      connects[k]? = some (.ok session) → x k session = .error .panic session' →
      Tried x connects k network (.error .panic network')
  | failed {e : McStatusError} {network' : Network γ} :
      ¬ Succeeds x connects k → network'.connects = connects.drop (k + 1) →
      network'.slept = network.slept → Tried x connects k network (.error (.error e) network')

/-- What the attempts of a server come to, where it makes `tries` of them at most. -/
inductive Ended (tries : Nat) (x : Nat → EStateM Failure γ α)
    (connects : List (Except McStatusError γ))
    : EStateM.Result Failure (Network γ) α → Prop where
  | ok {k : Nat} {session session' : γ} {a : α} {network' : Network γ} :
      k < tries → (∀ attempt < k, ¬ Succeeds x connects attempt) →
      connects[k]? = some (.ok session) → x k session = .ok a session' →
      network'.slept = 50 * k →
      Ended tries x connects (.ok a network')
  | panic {k : Nat} {session session' : γ} {network' : Network γ} :
      k < tries → (∀ attempt < k, ¬ Succeeds x connects attempt) →
      connects[k]? = some (.ok session) → x k session = .error .panic session' →
      Ended tries x connects (.error .panic network')
  | failed {e : McStatusError} {network' : Network γ} :
      (∀ attempt < tries, ¬ Succeeds x connects attempt) → network'.slept = 50 * (tries - 1) →
      Ended tries x connects (.error (.error e) network')

variable {x : Nat → EStateM Failure γ α} {tries k : Nat}
variable {connects : List (Except McStatusError γ)} {network : Network γ}

theorem not_succeeds_of_ne {session : γ} {failure : Failure}
    {session' : γ} (hget : connects[k]? = some (.ok session))
    (hrun : x k session = .error failure session') : ¬ Succeeds x connects k := by
  rintro ⟨session₁, a, session₁', hget₁, hrun₁⟩
  rw [hget] at hget₁
  cases hget₁
  rw [hrun] at hrun₁
  cases hrun₁

theorem tried_onConnection (hbefore : Before x connects k network)
    : Tried x connects k network (onConnection (x k) network) := by
  have hconnects := hbefore.remaining
  cases hget : connects[k]? with
  | none =>
    have hlen := List.getElem?_eq_none_iff.mp hget
    rw [List.drop_of_length_le hlen] at hconnects
    rw [onConnection, hconnects]
    refine .failed ?_ ?_ rfl
    . rintro ⟨session, a, session', hsome, -⟩
      rw [hget] at hsome
      cases hsome
    . rw [hconnects, List.drop_of_length_le (by omega)]
  | some line =>
    rcases List.getElem?_eq_some_iff.mp hget with ⟨hlt, hline⟩
    rw [List.drop_eq_getElem_cons hlt, hline] at hconnects
    rw [onConnection, hconnects]
    cases line with
    | error e =>
      refine .failed ?_ rfl rfl
      rintro ⟨session, a, session', hsome, -⟩
      rw [hget] at hsome
      cases hsome
    | ok session =>
      dsimp only
      cases hrun : x k session with
      | ok a session' => exact .ok hget hrun rfl
      | error failure session' =>
        cases failure with
        | panic => exact .panic hget hrun
        | error e => exact .failed (not_succeeds_of_ne hget hrun) rfl rfl

theorem Before.start : Before x connects 0 (Network.start connects) where
  remaining := rfl
  slept := rfl
  failed _ h := absurd h (Nat.not_lt_zero _)

theorem Before.next {e : McStatusError} {network' : Network γ}
    (hbefore : Before x connects k network)
    (hrun : onConnection (x k) network = .error (.error e) network')
    : Before x connects (k + 1) (Sleeps.sleep 50 network') := by
  have htried := tried_onConnection hbefore
  rw [hrun] at htried
  cases htried with
  | failed hnot hconnects hslept =>
    refine ⟨hconnects, ?_, ?_⟩
    . have hpause : (Sleeps.sleep 50 network').slept = network'.slept + 50 := rfl
      rw [hpause, hslept, hbefore.slept, Nat.mul_succ]
    . intro attempt hattempt
      rcases Nat.lt_succ_iff_lt_or_eq.mp hattempt with hlt | rfl
      . exact hbefore.failed attempt hlt
      . exact hnot

theorem before_of_retried
    (h : Retried (fun attempt => onConnection (x attempt)) (Network.start connects) k network)
    : Before x connects k network :=
  h.induct (Before x connects) Before.start fun _ _ _ _ hbefore hrun => hbefore.next hrun

theorem ended_retry (tries : Nat) (x : Nat → EStateM Failure γ α)
    (connects : List (Except McStatusError γ))
    : Ended tries x connects
        (retry tries (fun attempt => onConnection (x attempt)) (Network.start connects)) := by
  have hend := retry_end tries (fun attempt => onConnection (x attempt)) (Network.start connects)
  revert hend
  generalize retry tries (fun attempt => onConnection (x attempt)) (Network.start connects) = result
  intro hend
  cases hend with
  | @ok k t s' value hk hretried hrun =>
    have hbefore := before_of_retried hretried
    have htried := tried_onConnection hbefore
    rw [hrun] at htried
    cases htried with
    | ok hget hx hslept =>
      exact .ok hk hbefore.failed hget hx (hslept.trans hbefore.slept)
  | @panic k t s' hk hretried hrun =>
    have hbefore := before_of_retried hretried
    have htried := tried_onConnection hbefore
    rw [hrun] at htried
    cases htried with
    | panic hget hx => exact .panic hk hbefore.failed hget hx
  | @exhausted k t s' e hk hretried hrun =>
    have hbefore := before_of_retried hretried
    have hnext := hbefore.next hrun
    refine .failed ?_ ?_
    . rw [← hk]
      exact hnext.failed
    . have htried := tried_onConnection hbefore
      rw [hrun] at htried
      cases htried with
      | failed _ _ hslept => rw [hslept, hbefore.slept, ← hk, Nat.add_sub_cancel]
  | noTries htries =>
    subst htries
    exact .failed (fun attempt h => absurd h (Nat.not_lt_zero _)) rfl

end Network

end Rust

end McStatus
