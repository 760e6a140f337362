import McStatus.Library.Reader
import McStatus.Rust.Basic

/-!
This module contains the `UdpConnection` of `connection.rs`, with the network it is used on.
-/

namespace McStatus

open Reader

namespace Rust

inductive IpAddr where
  | v4 (octets : Vector UInt8 4)
  | v6 (octets : Vector UInt8 16)
  deriving DecidableEq, Repr

structure SocketAddr where
  ip : IpAddr
  port : UInt16
  deriving DecidableEq, Repr

/-- What `recv_from` fills a buffer from: a datagram, and the address it came from. -/
structure Datagram where
  sender : SocketAddr
  data : List UInt8
  deriving DecidableEq, Repr

inductive Receipt where
  | datagram (d : Datagram)
  | failed (e : McStatusError)
  deriving DecidableEq, Repr

/--
`UdpConnection`: the socket is not connected, so `receipts` holds whatever reaches it, in the order
of arrival. `sendings` holds how the calls of `send` end, and what was sent and received is logged.
-/
structure UdpConnection where
  sendings : List (Option McStatusError)
  receipts : List Receipt
  sent : List (List UInt8)
  received : List Datagram
  deriving DecidableEq, Repr

namespace UdpConnection

def bind (sendings : List (Option McStatusError)) (receipts : List Receipt) : UdpConnection where
  sendings := sendings
  receipts := receipts
  sent := []
  received := []

def send (data : List UInt8) : EStateM Failure UdpConnection Unit := fun connection =>
  match connection.sendings with
  | [] => .error (.error .timeout) connection
  | some e :: sendings => .error (.error e) { connection with sendings }
  | none :: sendings =>
    .ok () { connection with sendings, sent := connection.sent ++ [data] }

/-- `recv`: a datagram is cut off at the end of the buffer, and its sender is dropped. -/
def recv (max_size : Nat) : EStateM Failure UdpConnection (List UInt8) := fun connection =>
  match connection.receipts with
  | [] => .error (.error .timeout) connection
  | .failed e :: receipts => .error (.error e) { connection with receipts }
  | .datagram d :: receipts =>
    .ok (d.data.take max_size)
      { connection with receipts, received := connection.received ++ [d] }

/-- What a request that is sent now is answered with: the first datagram in the socket. -/
def reply? (connection : UdpConnection) : Option Datagram :=
  match connection.sendings, connection.receipts with
  | none :: _, .datagram d :: _ => some d
  | _, _ => none

def exchange (connection : UdpConnection) (data : List UInt8) (d : Datagram) : UdpConnection where
  sendings := connection.sendings.tail
  receipts := connection.receipts.tail
  sent := connection.sent ++ [data]
  received := connection.received ++ [d]

theorem send_recv_eq_ok_iff {connection connection' : UdpConnection} {data response : List UInt8}
    {max_size : Nat}
    : (do send data; recv max_size) connection = .ok response connection'
        ↔
      ∃ d, connection.reply? = some d ∧ response = d.data.take max_size
        ∧ connection' = connection.exchange data d := by
  rcases connection with ⟨sendings, receipts, sent, received⟩
  rw [bind_eq_ok]
  constructor
  . rintro ⟨⟨⟩, middle, hsend, hrecv⟩
    match sendings, receipts with
    | [], _ => simp [send] at hsend
    | some e :: _, _ => simp [send] at hsend
    | none :: _, receipts =>
      simp only [send, EStateM.Result.ok.injEq, true_and] at hsend
      subst hsend
      match receipts with
      | [] => simp [recv] at hrecv
      | .failed e :: _ => simp [recv] at hrecv
      | .datagram d :: _ =>
        simp only [recv, EStateM.Result.ok.injEq] at hrecv
        exact ⟨d, rfl, hrecv.1.symm, hrecv.2.symm⟩
  . rintro ⟨d, hreply, rfl, rfl⟩
    match sendings, receipts with
    | none :: _, .datagram d' :: _ =>
      simp only [reply?, Option.some.injEq] at hreply
      subst hreply
      exact ⟨_, _, rfl, rfl⟩
    | [], _ => simp [reply?] at hreply
    | some _ :: _, _ => simp [reply?] at hreply
    | none :: _, [] => simp [reply?] at hreply
    | none :: _, .failed _ :: _ => simp [reply?] at hreply

@[simp]
theorem exchange_received (connection : UdpConnection) (data : List UInt8) (d : Datagram)
    : (connection.exchange data d).received = connection.received ++ [d] := rfl

end UdpConnection

end Rust

end McStatus
