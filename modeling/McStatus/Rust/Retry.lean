import McStatus.Library.Reader
import McStatus.Rust.Basic

/-!
This module contains the `retry` of `src/util.rs`. An operation that panics is not tried again.
-/

namespace McStatus

open Reader

namespace Rust

/-- What `tokio::time::sleep` does to the rest of the world, in milliseconds. -/
class Sleeps (σ : Type) where
  sleep : Nat → σ → σ

section Retry

variable {σ α : Type} [Sleeps σ]

/-- `f` is told which of its calls it is. -/
def retry (tries : Nat) (f : Nat → EStateM Failure σ α) : EStateM Failure σ α :=
  go tries 0 none
where
  go (left attempt : Nat) (last_error : Option McStatusError) : EStateM Failure σ α := fun s =>
    match left with
    | 0 =>
      .error (.error (last_error.getD (.other "Retry exhausted without any attempts"))) s
    | left + 1 =>
      match f attempt s with
      | .ok value s => .ok value s
      | .error .panic s => .error .panic s
      | .error (.error e) s =>
        if attempt < tries - 1 then
          go left (attempt + 1) (some e) (Sleeps.sleep 50 s)
        else
          go left (attempt + 1) (some e) s

/-- The first `k` calls have returned errors, and there was a pause after each of them. -/
inductive Retried (f : Nat → EStateM Failure σ α) (s : σ) : Nat → σ → Prop where
  | start : Retried f s 0 s
  | again {k : Nat} {t t' : σ} {e : McStatusError} :
      Retried f s k t → f k t = .error (.error e) t' → Retried f s (k + 1) (Sleeps.sleep 50 t')

variable {tries : Nat} {f : Nat → EStateM Failure σ α} {s : σ}

theorem Retried.induct (I : Nat → σ → Prop) {k : Nat} {t : σ} (hstart : I 0 s)
    (hagain : ∀ j t e t', I j t → f j t = .error (.error e) t' →
      I (j + 1) (Sleeps.sleep 50 t')) (h : Retried f s k t) : I k t := by
  induction h with
  | start => exact hstart
  | again _ hrun ih => exact hagain _ _ _ _ ih hrun

/-- How `retry` ends, where it makes `tries` calls at most. -/
inductive RetryEnd (tries : Nat) (f : Nat → EStateM Failure σ α) (s : σ)
    : EStateM.Result Failure σ α → Prop where
  | ok {k : Nat} {t s' : σ} {value : α} :
      k < tries → Retried f s k t → f k t = .ok value s' → RetryEnd tries f s (.ok value s')
  | panic {k : Nat} {t s' : σ} :
      k < tries → Retried f s k t → f k t = .error .panic s' →
      RetryEnd tries f s (.error .panic s')
  /-- The error of the last call is returned, and no earlier one. -/
  | exhausted {k : Nat} {t s' : σ} {e : McStatusError} :
      k + 1 = tries → Retried f s k t → f k t = .error (.error e) s' →
      RetryEnd tries f s (.error (.error e) s')
  | noTries :
      tries = 0 →
      RetryEnd tries f s (.error (.error (.other "Retry exhausted without any attempts")) s)

theorem retry_go_end {left attempt : Nat} {last_error : Option McStatusError} {t : σ}
    (hleft : left + attempt = tries) (hpos : 0 < left) (h : Retried f s attempt t)
    : RetryEnd tries f s (retry.go tries f left attempt last_error t) := by
  induction left generalizing attempt last_error t with
  | zero => omega
  | succ left ih =>
    rw [retry.go]
    split
    . next value s' hrun => exact .ok (by omega) h hrun
    . next s' hrun => exact .panic (by omega) h hrun
    . next e s' hrun =>
      by_cases hmore : attempt < tries - 1
      . rw [if_pos hmore]
        exact ih (by omega) (by omega) (h.again hrun)
      . have hlast : left = 0 := by omega
        subst hlast
        rw [if_neg hmore, retry.go]
        exact .exhausted (by omega) h hrun

theorem retry_end (tries : Nat) (f : Nat → EStateM Failure σ α) (s : σ)
    : RetryEnd tries f s (retry tries f s) := by
  rw [retry]
  cases tries with
  | zero => exact .noTries rfl
  | succ tries => exact retry_go_end (by omega) (by omega) .start

end Retry

end Rust

end McStatus
