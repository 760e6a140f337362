import McStatus.Legacy.Parsing
import McStatus.Legacy.Server
import McStatus.Python.Legacy.Client
import McStatus.Python.Network
import McStatus.Rust.Legacy.Client
import McStatus.Rust.Network

/-!
This module shows what both clients for servers from before 1.7 get, on one connection and over all
of their attempts, whatever is at the other end.
-/

namespace McStatus

open Reader Duplex

namespace Legacy

open Rust.LegacyClient (AllBmp)
open Python.SessionSocket (seconds seconds_zero)

section AnyServer

variable {S : Type} {responder : Responder S UInt8}

theorem clients_read_alike (session : Session responder)
    : let asked := session.send request
      let start := session.clock
      (∀ codes rest, takeKick asked.arrivals = some (codes, rest) →
          let stop := asked.timeAfter (3 + codes.length)
          ∃ rust python : Session responder, rust.arrivals = rest ∧ python.arrivals = rest
            ∧ Rust.LegacyClient.readStatus session
              = (Rust.ofExec (Rust.LegacyClient.parseResponse codes
                  (Rust.millisecondsBetween start stop))
                : EStateM Rust.Failure _ Rust.LegacyStatusResponse) rust
            ∧ Python.LegacyClient.readStatus session
              = (Python.ofResult (Python.LegacyClient.parseResponse codes
                  ((seconds stop - seconds start) * 1000))
                : EStateM Python.LegacyError _ Python.LegacyStatusResponse) python)
        ∧ (Foreign asked.arrivals →
          (∃ rust, Rust.LegacyClient.readStatus session = .error (.error (.protocol
              "Received invalid packet ID from legacy server")) rust)
            ∧ ∃ python, Python.LegacyClient.readStatus session
                = .error .invalidPacketId python)
        ∧ (takeKick asked.arrivals = none → ¬ Foreign asked.arrivals →
          (∃ failure rust, Rust.LegacyClient.readStatus session = .error failure rust
              ∧ Rust.IsEnding failure)
            ∧ ∃ e python, Python.LegacyClient.readStatus session = .error (.raised e) python
              ∧ Python.SessionSocket.IsEnding e) := by
  intro asked start
  refine ⟨fun codes rest htake => ?_, fun hforeign => ⟨?_, ?_⟩, fun htake hforeign => ⟨?_, ?_⟩⟩
  . rcases Rust.LegacyClient.readStatus_of_some htake with ⟨rust, hrust, hrun⟩
    rcases Python.LegacyClient.readStatus_of_some htake with ⟨python, hpython, hrun'⟩
    exact ⟨rust, python, hrust, hpython, hrun, hrun'⟩
  . exact Rust.LegacyClient.readStatus_of_foreign hforeign
  . exact Python.LegacyClient.readStatus_of_foreign hforeign
  . exact Rust.LegacyClient.readStatus_of_none htake hforeign
  . exact Python.LegacyClient.readStatus_of_none htake hforeign

theorem readStatus_of_python {session python : Session responder}
    {response : Python.LegacyStatusResponse}
    (h : Python.LegacyClient.readStatus session = .ok response python)
    : ∃ text rest r rust,
        takeKick (session.send request).arrivals = some (Utf16.encode text, rest)
          ∧ Rust.LegacyClient.readStatus session = .ok r rust ∧ Kept text r response := by
  cases htake : takeKick (session.send request).arrivals with
  | none =>
    by_cases hforeign : Foreign (session.send request).arrivals
    . rcases Python.LegacyClient.readStatus_of_foreign hforeign with ⟨python', herror⟩
      cases h.symm.trans herror
    . rcases Python.LegacyClient.readStatus_of_none htake hforeign with ⟨e, python', herror, -⟩
      cases h.symm.trans herror
  | some found =>
    rcases Python.LegacyClient.readStatus_of_some htake with ⟨python', -, hrun⟩
    rcases Rust.LegacyClient.readStatus_of_some htake with ⟨rust, -, hrun'⟩
    rw [h] at hrun
    cases hparse : Python.LegacyClient.parseResponse found.1
        ((seconds ((session.send request).timeAfter (3 + found.1.length))
          - seconds session.clock) * 1000) with
    | error e =>
      rw [hparse] at hrun
      cases hrun
    | ok response' =>
      rw [hparse] at hrun
      cases hrun
      rcases exists_kept hparse (Rust.millisecondsBetween session.clock
        ((session.send request).timeAfter (3 + found.1.length))) with
        ⟨text, r, htext, hok, -, hkept⟩
      rw [hok] at hrun'
      refine ⟨text, found.2, r, rust, ?_, hrun', hkept⟩
      rw [← htext]

theorem readStatus_ne_panic (session rust : Session responder)
    : Rust.LegacyClient.readStatus session ≠ .error .panic rust := by
  intro h
  cases htake : takeKick (session.send request).arrivals with
  | none =>
    by_cases hforeign : Foreign (session.send request).arrivals
    . rcases Rust.LegacyClient.readStatus_of_foreign hforeign with ⟨rust', herror⟩
      cases h.symm.trans herror
    . rcases Rust.LegacyClient.readStatus_of_none htake hforeign with
        ⟨failure, rust', herror, ending, rfl⟩
      cases h.symm.trans herror
  | some found =>
    rcases Rust.LegacyClient.readStatus_of_some htake with ⟨rust', -, hrun⟩
    exact Rust.LegacyClient.parseResponse_ne_panic _ _ (Rust.ofExec_eq_error (hrun.symm.trans h))

/--
The connections that both servers open, one for each of their attempts. Those that are refused make
both raise.
-/
structure Lines (responder : Responder S UInt8) where
  sessions : List (Option (Session responder))
  refused : Rust.McStatusError
  raised : Python.Exception

namespace Lines

def rust (lines : Lines responder) : Rust.Network (Session responder) :=
  .start (lines.sessions.map fun line => line.elim (.error lines.refused) .ok)

def python (lines : Lines responder) : Python.Network (Session responder) :=
  lines.sessions.map fun line => line.elim (.error lines.raised) .ok

variable {lines : Lines responder} {k : Nat} {session : Session responder}

theorem getElem?_rust
    : lines.rust.connects[k]? = some (.ok session) ↔ lines.sessions[k]? = some (some session) := by
  have hconnects : lines.rust.connects
      = lines.sessions.map fun line => line.elim (.error lines.refused) .ok := rfl
  rw [hconnects, List.getElem?_map]
  rcases lines.sessions[k]? with - | (- | session')
  . simp
  . simp
  . simp

theorem getElem?_python
    : lines.python[k]? = some (.ok session) ↔ lines.sessions[k]? = some (some session) := by
  rw [python, List.getElem?_map]
  rcases lines.sessions[k]? with - | (- | session')
  . simp
  . simp
  . simp

end Lines

/--
Where Python gets a response out of any number of attempts, Rust gets one out of as many. It takes
no more of them, and keeps what Python has where it takes as many.
-/
theorem statusWithOpts_of_status (tries : Nat) (lines : Lines responder)
    : (∀ response network, Python.LegacyServer.status tries lines.python = .ok response network →
        ∃ k < tries, ∃ session python, lines.sessions[k]? = some (some session)
          ∧ Python.LegacyClient.readStatus session = .ok response python
          ∧ ∃ j ≤ k, ∃ session' rust r network,
            lines.sessions[j]? = some (some session')
              ∧ Rust.LegacyClient.readStatus session' = .ok r rust
              ∧ Rust.LegacyServer.statusWithOpts tries lines.rust = .ok r network
              ∧ network.slept = 50 * j
              ∧ (j = k → ∃ text rest, Kept text r response
                ∧ takeKick (session.send request).arrivals = some (Utf16.encode text, rest)))
      ∧ ∀ data latency_ms, Rust.LegacyClient.parseResponse data latency_ms ≠ .error .panic := by
  constructor
  . intro response network hstatus
    rcases Python.Network.exists_of_retry hstatus with ⟨k, hk, session, python, hget, hpython, -⟩
    rw [Lines.getElem?_python] at hget
    rcases readStatus_of_python hpython with
      ⟨text, rest, r, rust, htext, hrust, hkept⟩
    refine ⟨k, hk, session, python, hget, hpython, ?_⟩
    have hsucceeds : Rust.Network.Succeeds (fun _ => Rust.LegacyClient.readStatus)
        lines.rust.connects k := ⟨session, r, rust, Lines.getElem?_rust.mpr hget, hrust⟩
    have hended := Rust.Network.ended_retry tries
      (fun _ => (Rust.LegacyClient.readStatus : EStateM _ (Session responder) _))
      lines.rust.connects
    have hrun : Rust.LegacyServer.statusWithOpts tries lines.rust
        = Rust.retry tries (fun _ => Rust.Network.onConnection Rust.LegacyClient.readStatus)
          (Rust.Network.start lines.rust.connects) := rfl
    rw [← hrun] at hended
    clear hrun
    generalize Rust.LegacyServer.statusWithOpts tries lines.rust = result at hended ⊢
    cases hended with
    | @ok j session' rust' r' network' hj hfailed hget' hx hslept =>
      have hle : j ≤ k := by
        by_contra hlt
        exact hfailed k (Nat.not_le.mp hlt) hsucceeds
      refine ⟨j, hle, session', rust', r', network', Lines.getElem?_rust.mp hget', hx, rfl, hslept,
        ?_⟩
      rintro rfl
      rw [Lines.getElem?_rust, hget] at hget'
      cases hget'
      cases hrust.symm.trans hx
      exact ⟨text, rest, hkept, htext⟩
    | panic hj hfailed hget' hx => exact absurd hx (readStatus_ne_panic _ _)
    | failed hfailed hslept => exact absurd hsucceeds (hfailed k hk)
  . exact Rust.LegacyClient.parseResponse_ne_panic

end AnyServer

def replyTime (info : Info) (schedule : List Turn) : Nat :=
  (asked info schedule).timeAfter info.reply.length

end Legacy

end McStatus
