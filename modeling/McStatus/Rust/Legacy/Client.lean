import McStatus.Legacy.Wire
import McStatus.Rust.Java.Exchange
import McStatus.Rust.Legacy.Impl
import McStatus.Rust.Network

/-!
This module contains `read_status` of the `LegacyClient`, over a session with any responder, and the
attempts of the `LegacyServer`: what a client parses is the kick that arrives, however it does.
-/

namespace McStatus

open Reader Duplex

namespace Rust

namespace LegacyClient

section Session

variable {S : Type} {responder : Responder S UInt8}

def readKick : EStateM Failure (Session responder) (List UInt8) := do
  let packet_id ← TcpSession.readByte
  if packet_id ≠ 0xFF then
    throw (.error (.protocol "Received invalid packet ID from legacy server"))
  else
    let length_bytes ← TcpSession.readExact 2
    let high ← ofExec (index length_bytes 0)
    let low ← ofExec (index length_bytes 1)
    TcpSession.readExact (BigEndian.decode [high, low] * 2)

def readStatus : EStateM Failure (Session responder) LegacyStatusResponse := do
  let start ← TcpSession.now
  TcpSession.writeAll [0xFE, 0x01, 0xFA]
  let data ← readKick
  let stop ← TcpSession.now
  ofExec (parseResponse data (millisecondsBetween start stop))

variable {session : Session responder} {codes rest : List UInt8}

theorem consumes_readKick {high low : UInt8} (h : codes.length = BigEndian.decode [high, low] * 2)
    : Consumes Session.arrivals (readKick : EStateM Failure (Session responder) (List UInt8))
        (0xFF :: high :: low :: codes) codes := by
  have hsize : Consumes Session.arrivals
      (TcpSession.readExact 2 : EStateM Failure (Session responder) (List UInt8)) [high, low]
      [high, low] := TcpSession.consumes_readExact [high, low]
  refine (TcpSession.consumes_readByte 0xFF).bind (hsize.bind ?_)
  have hcodes := @TcpSession.consumes_readExact S responder codes
  rw [h] at hcodes
  exact hcodes

theorem onward_readKick
    : Session.Onward (readKick : EStateM Failure (Session responder) (List UInt8)) := by
  have hindex : ∀ bytes i,
      Session.Onward (ofExec (index bytes i) : EStateM Failure (Session responder) UInt8) := by
    intro bytes i
    cases index bytes i with
    | ok byte => exact .pure byte
    | error failure => exact .throw failure
  refine TcpSession.onward_readByte.bind fun packet_id => .ite (.throw _) ?_
  refine (TcpSession.onward_readExact 2).bind fun length_bytes => ?_
  refine (hindex _ _).bind fun high => (hindex _ _).bind fun low => ?_
  exact TcpSession.onward_readExact _

theorem readKick_of_some (h : Legacy.takeKick session.arrivals = some (codes, rest))
    : ∃ session', readKick session = .ok codes session' ∧ session'.arrivals = rest
        ∧ session'.clock = session.timeAfter (3 + codes.length) := by
  rcases Legacy.takeKick_eq_some_iff.mp h with ⟨high, low, harrivals, hsize⟩
  rcases consumes_readKick hsize session rest harrivals with ⟨session', hread, hrest⟩
  have hsplit : session.arrivals = (0xFF :: high :: low :: codes) ++ session'.arrivals := by
    rw [harrivals, hrest]
    rfl
  have hclock := (onward_readKick _ _ _ hread).clock_of_arrivals hsplit
  refine ⟨session', hread, hrest, ?_⟩
  rw [hclock, Nat.add_comm]
  rfl

theorem readKick_of_foreign (h : Legacy.Foreign session.arrivals)
    : ∃ session', readKick session
        = .error (.error (.protocol "Received invalid packet ID from legacy server")) session' := by
  rcases h with ⟨id, rest, harrivals, hid⟩
  rcases TcpSession.consumes_readByte id session rest harrivals with ⟨session', hread, -⟩
  refine ⟨session', ?_⟩
  rw [readKick, bind_of_ok hread, if_pos hid]
  rfl

theorem readKick_of_none (h : Legacy.takeKick session.arrivals = none)
    (hforeign : ¬ Legacy.Foreign session.arrivals)
    : ∃ failure session', readKick session = .error failure session' ∧ IsEnding failure := by
  cases harrivals : session.arrivals with
  | nil =>
    rcases @TcpSession.readExact_of_lt _ _ session 1 (by simp [harrivals]) with
      ⟨failure, session', herror, hending⟩
    exact ⟨failure, session', bind_of_error (bind_of_error herror), hending⟩
  | cons id rest =>
    rw [harrivals] at h hforeign
    have hid : id = 0xFF := by
      by_contra hne
      exact hforeign ⟨id, rest, rfl, hne⟩
    subst hid
    rcases TcpSession.consumes_readByte 0xFF session rest harrivals with ⟨session', hread, hrest⟩
    rw [readKick, bind_of_ok hread, if_neg (by decide)]
    rcases Legacy.short_of_takeKick h with hshort | ⟨high, low, tail, rfl, hshort⟩
    . rcases @TcpSession.readExact_of_lt _ _ session' 2 (by rwa [hrest]) with
        ⟨failure, session'', herror, hending⟩
      exact ⟨failure, session'', bind_of_error herror, hending⟩
    . rcases TcpSession.consumes_readExact [high, low] session' tail hrest with
        ⟨session'', hsize, htail⟩
      rcases @TcpSession.readExact_of_lt _ _ session''
        (BigEndian.decode [high, low] * 2) (by rwa [htail]) with ⟨failure, t, herror, hending⟩
      exact ⟨failure, t, (bind_of_ok hsize).trans herror, hending⟩

theorem readStatus_eq (session : Session responder)
    : readStatus session
        =
      (do
        let data ← readKick
        let stop ← TcpSession.now
        ofExec (parseResponse data (millisecondsBetween session.clock stop))
        : EStateM Failure (Session responder) LegacyStatusResponse)
        (session.send Legacy.request) :=
  rfl

theorem readStatus_of_some
    (h : Legacy.takeKick (session.send Legacy.request).arrivals = some (codes, rest))
    : ∃ session', session'.arrivals = rest
        ∧ readStatus session
          = (ofExec (parseResponse codes (millisecondsBetween session.clock
              ((session.send Legacy.request).timeAfter (3 + codes.length))))
            : EStateM Failure (Session responder) LegacyStatusResponse) session' := by
  rcases readKick_of_some h with ⟨session', hread, hrest, hclock⟩
  refine ⟨session', hrest, ?_⟩
  rw [readStatus_eq, bind_of_ok hread, bind_of_ok (TcpSession.now_eq session'), hclock]

theorem readStatus_of_foreign (h : Legacy.Foreign (session.send Legacy.request).arrivals)
    : ∃ session', readStatus session
        = .error (.error (.protocol "Received invalid packet ID from legacy server")) session' := by
  rcases readKick_of_foreign h with ⟨session', hread⟩
  exact ⟨session', (readStatus_eq session).trans (bind_of_error hread)⟩

theorem readStatus_of_none (h : Legacy.takeKick (session.send Legacy.request).arrivals = none)
    (hforeign : ¬ Legacy.Foreign (session.send Legacy.request).arrivals)
    : ∃ failure session', readStatus session = .error failure session' ∧ IsEnding failure := by
  rcases readKick_of_none h hforeign with ⟨failure, session', hread, hending⟩
  exact ⟨failure, session', (readStatus_eq session).trans (bind_of_error hread), hending⟩

end Session

theorem parseResponse_ne_panic (data : List UInt8) (latency : Float)
    : parseResponse data latency ≠ .error .panic := by
  rw [parseResponse]
  dsimp only
  generalize (decodeUtf16be data).splitOn '\x00' = parts
  split
  . intro h
    cases h
  . next hparts =>
    rcases exists_index_of_lt parts 0 (by omega) with ⟨first, hfirst⟩
    rw [hfirst, Fallible.ok_bind, Fallible.ok_bind]
    split
    . split
      . intro h
        cases h
      . next hsix =>
        rcases exists_index_of_lt parts 1 (by omega) with ⟨protocol, hprotocol⟩
        rcases exists_index_of_lt parts 2 (by omega) with ⟨version, hversion⟩
        rcases exists_index_of_lt parts 3 (by omega) with ⟨motd, hmotd⟩
        rcases exists_index_of_lt parts 4 (by omega) with ⟨online, honline⟩
        rcases exists_index_of_lt parts 5 (by omega) with ⟨max, hmax⟩
        rw [hprotocol, hversion, hmotd, honline, hmax]
        intro h
        cases h
    . split
      . intro h
        cases h
      . next hthree =>
        rcases exists_index_of_lt (first.splitOn '§') 0 (by omega) with ⟨motd, hmotd⟩
        rcases exists_index_of_lt (first.splitOn '§') 1 (by omega) with ⟨online, honline⟩
        rcases exists_index_of_lt (first.splitOn '§') 2 (by omega) with ⟨max, hmax⟩
        rw [hmotd, honline, hmax]
        intro h
        cases h

end LegacyClient

/-- `status_with_opts` of a `LegacyServer`, whose address is only used to connect. -/
def LegacyServer.statusWithOpts {S : Type} {responder : Responder S UInt8} (tries : Nat)
    : EStateM Failure (Network (Session responder)) LegacyStatusResponse :=
  retry tries fun _ => Network.onConnection LegacyClient.readStatus

end Rust

end McStatus
