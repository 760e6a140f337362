import Mathlib.Algebra.Field.Rat
import McStatus.Library.Duplex
import McStatus.Python.Io.Connection
import McStatus.Python.Io.Lemmas.Stream
import McStatus.Python.Java.Client

/-!
This module contains a `TCPSocketConnection` whose socket is a session with any responder. What it
reads depends on the bytes that arrive and not on how they do.
-/

namespace McStatus

open Reader Duplex

namespace Python

namespace SessionSocket

variable {S : Type} {responder : Responder S UInt8}

/--
`recv` returns nothing at the end of the stream, and raises where the timeout is over: that is where
the schedule has a turn for it, as for the Rust client.
-/
def recv (n : Nat) : Py (Session responder) (List UInt8) := fun session =>
  if n = 0 then
    .ok [] session
  else
    match session.recv n with
    | .ok data session => .ok data session
    | .error .timedOut session => .error (.osError .timedOut) session
    | .error .closed session => .ok [] session

def sendall (data : List UInt8) : Py (Session responder) Unit :=
  modify fun session => session.send data

theorem arrivals_lt_of_recv {n : Nat} {session session' : Session responder} {data : List UInt8}
    (h : recv n session = .ok data session') (hdata : data ≠ [])
    : session'.arrivals.length < session.arrivals.length := by
  rw [recv] at h
  split at h
  . cases h
    exact absurd rfl hdata
  . next hn =>
    have hreceived := session.received_recv hn
    split at h
    . next hrecv =>
      rw [hrecv] at hreceived
      cases h
      cases hreceived with
      | some hne hle harrivals =>
        have hpos := List.length_pos_iff.mpr hne
        rw [harrivals, List.length_append]
        omega
    . cases h
    . cases h
      exact absurd rfl hdata

instance : Socket (Session responder) where
  recv := recv
  sendall := sendall
  available session := session.arrivals.length
  available_lt := arrivals_lt_of_recv

def failureOf (ending : Ending) : Exception :=
  match ending with
  | .timedOut => .osError .timedOut
  | .closed => .osError .noInformation

def IsEnding (e : Exception) : Prop :=
  ∃ ending, e = failureOf ending

theorem isOSError_of_isEnding {e : Exception} (h : IsEnding e) : e.IsOSError := by
  rcases h with ⟨_ | _, rfl⟩
  . exact ⟨_, rfl⟩
  . exact ⟨_, rfl⟩

theorem readLoop_eq (missing : Nat) (session : Session responder)
    : (TCPSocketConnection.readLoop missing : Py (Session responder) (List UInt8)) session
        =
      match session.fill missing with
      | .ok data session => .ok data session
      | .error ending session => .error (failureOf ending) session := by
  induction missing using Nat.strongRecOn generalizing session with
  | ind missing ih =>
    unfold TCPSocketConnection.readLoop Session.fill
    split
    . rfl
    . next hmissing =>
      have hsocket : (Socket.recv missing : Py (Session responder) (List UInt8)) session
          = recv missing session := rfl
      cases hrecv : session.recv missing with
      | error ending session' =>
        cases ending with
        | timedOut =>
          have herror : recv missing session = .error (.osError .timedOut) session' := by
            rw [recv, if_neg hmissing, hrecv]
          exact bind_of_error (hsocket.trans herror)
        | closed =>
          have hnothing : recv missing session = .ok [] session' := by
            rw [recv, if_neg hmissing, hrecv]
          rw [bind_of_ok (hsocket.trans hnothing)]
          rfl
      | ok data session' =>
        have hdata : recv missing session = .ok data session' := by
          rw [recv, if_neg hmissing, hrecv]
        rw [bind_of_ok (hsocket.trans hdata)]
        dsimp only
        split
        . rfl
        . next hlen =>
          have hrest := ih (missing - data.length) (by omega) session'
          cases hfill : session'.fill (missing - data.length) with
          | error ending session'' =>
            rw [hfill] at hrest
            exact bind_of_error hrest
          | ok rest session'' =>
            rw [hfill] at hrest
            rw [bind_of_ok hrest]
            rfl

theorem readLoop_of_le {n : Nat} {session : Session responder} (h : n ≤ session.arrivals.length)
    : ∃ session', (TCPSocketConnection.readLoop n : Py (Session responder) (List UInt8)) session
          = .ok (session.arrivals.take n) session'
        ∧ session'.arrivals = session.arrivals.drop n := by
  have hfilled := session.filled_fill n
  rw [readLoop_eq]
  cases hfill : session.fill n with
  | error ending session' =>
    rw [hfill] at hfilled
    cases hfilled with
    | short hlt => omega
  | ok data session' =>
    rw [hfill] at hfilled
    cases hfilled with
    | full hlen harrivals =>
      rw [harrivals, List.take_left' hlen, List.drop_left' hlen]
      exact ⟨session', rfl, rfl⟩

theorem readLoop_of_lt {n : Nat} {session : Session responder} (h : session.arrivals.length < n)
    : ∃ e session', (TCPSocketConnection.readLoop n : Py (Session responder) (List UInt8)) session
          = .error e session'
        ∧ IsEnding e := by
  have hfilled := session.filled_fill n
  rw [readLoop_eq]
  cases hfill : session.fill n with
  | error ending session' => exact ⟨_, session', rfl, ending, rfl⟩
  | ok data session' =>
    rw [hfill] at hfilled
    cases hfilled with
    | full hlen harrivals =>
      rw [harrivals, List.length_append] at h
      omega

theorem consumes_read (input : List UInt8)
    : Consumes Session.arrivals
        (TCPSocketConnection.read input.length : Py (Session responder) (List UInt8)) input input
    := by
  intro session rest harrivals
  have hle : input.length ≤ session.arrivals.length := by
    rw [harrivals, List.length_append]
    omega
  rcases readLoop_of_le hle with ⟨session', hread, hrest⟩
  rw [harrivals, List.take_left] at hread
  rw [harrivals, List.drop_left] at hrest
  exact ⟨session', hread, hrest⟩

theorem runsOut_read (input : List UInt8)
    : RunsOut Session.arrivals IsEnding
        (TCPSocketConnection.read input.length : Py (Session responder) (List UInt8)) input := by
  intro session hpart hne
  have hle := hpart.length_le
  have hlen : session.arrivals.length ≠ input.length := fun heq => hne (hpart.eq_of_length heq)
  exact readLoop_of_lt (by omega)

theorem length_of_read {session session' : Session responder} {n : Nat} {data : List UInt8}
    (h : TCPSocketConnection.read n session = .ok data session')
    : n = data.length ∧ session.arrivals = data ++ session'.arrivals := by
  change TCPSocketConnection.readLoop n session = .ok data session' at h
  rcases Nat.lt_or_ge session.arrivals.length n with hlt | hle
  . rcases readLoop_of_lt hlt with ⟨e, t, herror, -⟩
    cases h.symm.trans herror
  . rcases readLoop_of_le hle with ⟨t, hok, hrest⟩
    cases h.symm.trans hok
    exact ⟨(List.length_take_of_le hle).symm, by rw [hrest, List.take_append_drop]⟩

theorem available_lt_of_read {session session' : Session responder} {data : List UInt8}
    (h : TCPSocketConnection.read 1 session = .ok data session')
    : session'.arrivals.length < session.arrivals.length :=
  TCPSocketConnection.available_lt_of_read h

instance : StreamReader (Session responder) where
  read := TCPSocketConnection.read
  available session := session.arrivals.length
  available_lt := available_lt_of_read
  view := Session.arrivals
  IsEnd := IsEnding
  isOSError_of_isEnd := isOSError_of_isEnding
  consumes_read := consumes_read
  runsOut_read := runsOut_read
  length_of_read := length_of_read

instance : LawfulWriter (Session responder) where
  write := TCPSocketConnection.write
  append := Session.send
  write_eq _ _ := rfl
  append_append session bytes bytes' := by
    rw [Session.send, Session.send, Session.send, ← List.append_assoc]
  append_nil session := by
    rw [Session.send, List.append_nil]

def seconds (clock : Nat) : Rat :=
  (clock : Rat) / 10 ^ 9

theorem seconds_zero : seconds 0 = 0 := by
  rw [seconds, Nat.cast_zero, zero_div]

instance : Clock (Session responder) where
  perfCounter := fun session => .ok (seconds session.clock) session

theorem perfCounter_eq (session : Session responder)
    : (Clock.perfCounter : Py (Session responder) Rat) session
        = .ok (seconds session.clock) session :=
  rfl

theorem sends_writeBytearray {packet : List UInt8} (h : packet.length < 2 ^ 31)
    (session : Session responder)
    : (BaseSyncWriter.writeBytearray packet : Py (Session responder) Unit) session
        = .ok () (session.send (Java.frame packet)) :=
  writes_writeBytearray h session

end SessionSocket

end Python

end McStatus
