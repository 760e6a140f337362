import McStatus.Rust.Java.Status

/-!
This module contains what a ping of a `JavaClient` comes to on one connection with a server.
-/

namespace McStatus

open Reader Duplex

namespace Rust

namespace JavaClient

def pingPacket (client : JavaClient) : List UInt8 :=
  Java.pingPacket client.ping_token.toUInt64.toNat

theorem length_pingPacket (client : JavaClient) : client.pingPacket.length = 9 :=
  Java.length_pingPacket _

theorem length_pingPacket_lt (client : JavaClient) : client.pingPacket.length < 2 ^ 31 := by
  rw [length_pingPacket]
  decide

theorem length_frame_pingPacket (client : JavaClient)
    : (Java.frame client.pingPacket).length = 10 := by
  have hlength : Varint.encode 9 = [9] := by
    rw [Varint.encode, if_pos (by decide)]
    rfl
  rw [Java.frame, List.length_append, length_pingPacket, hlength]
  rfl

theorem handlePingResponse_packet (client : JavaClient) (start stop : Nat)
    : ∃ b, client.handlePingResponse start stop (Buffer.fromBytes client.pingPacket)
        = (ofExec (.ok (millisecondsBetween start stop)) : EStateM Failure Buffer Float) b := by
  have hsize : (Buffer.fromBytes client.pingPacket).data.length = 9 := client.length_pingPacket
  rcases readPacketId_cons (b := Buffer.fromBytes client.pingPacket) (by omega) rfl with
    ⟨b₁, hid, hview₁, hdata₁⟩
  rcases @Buffer.readBytes_append b₁ _ [] (by rw [hdata₁]; omega)
    (hview₁.trans (List.append_nil _).symm) with ⟨b₂, hread, -, -⟩
  rw [BigEndian.length_encode] at hread
  have htoken : (UInt64.ofNat (BigEndian.decode
      (BigEndian.encode 8 client.ping_token.toUInt64.toNat))).toInt64 = client.ping_token := by
    rw [BigEndian.decode_encode_of_lt client.ping_token.toUInt64.toNat_lt, UInt64.ofNat_toNat]
    exact Int64.toInt64_toUInt64 _
  refine ⟨b₂, ?_⟩
  rw [handlePingResponse, bind_of_ok hid, if_neg (by decide), bind_of_ok (mapErr_of_ok hread),
    if_neg (not_not_intro htoken)]
  rfl

section Session

variable {S : Type} {responder : Responder S UInt8}

theorem testPing_eq (client : JavaClient) (session : Session responder)
    : client.testPing session
        =
      (do
        let response_data ← readPacket
        let stop ← TcpSession.now
        onBuffer (client.handlePingResponse session.clock stop) response_data
        : EStateM Failure (Session responder) Float)
        (session.send (Java.frame client.pingPacket)) := by
  have hpacket : writtenBy client.pingRequest session = .ok client.pingPacket session :=
    writtenBy_of_writes client.writes_pingRequest session
  rw [testPing, bind_of_ok hpacket, bind_of_ok (TcpSession.now_eq _),
    bind_of_ok (writeFramed_eq client.length_pingPacket_lt session)]

end Session

section Ping

variable (client : JavaClient) {status : Java.StatusText} {schedule : List Turn}

theorem tryPing_eq (hhost : utf8Len client.address.host ≤ 32767)
    : client.tryPing (Java.connect status schedule)
        =
      (do
        let response_data ← readPacket
        let stop ← TcpSession.now
        onBuffer (client.handlePingResponse 0 stop) response_data
        : EStateM Failure (Session (Java.server status)) Float)
        (Java.asked status (client.hello hhost) client.pingPacket schedule) := by
  rw [tryPing, bind_of_ok (client.handshake_connect hhost status schedule), testPing_eq]
  rfl

theorem tryPing_of_replied (hhost : utf8Len client.address.host ≤ 32767)
    (h : Java.Replied status (client.hello hhost) client.pingPacket client.pingPacket schedule)
    : ∃ session', client.tryPing (Java.connect status schedule)
        = .ok (millisecondsBetween 0
            (Java.replyTime status (client.hello hhost) client.pingPacket schedule)) session' := by
  rcases consumes_readPacket (List.cons_ne_nil _ _) client.length_pingPacket_lt _ []
    (h.trans (List.append_nil _).symm) with ⟨session', hread, hall⟩
  have hclock : session'.clock
      = Java.replyTime status (client.hello hhost) client.pingPacket schedule :=
    (onward_readPacket _ _ _ hread).clock_eq hall
  rcases handlePingResponse_packet client 0 session'.clock with ⟨b, hhandle⟩
  refine ⟨session', ?_⟩
  rw [tryPing_eq client hhost, bind_of_ok hread, bind_of_ok (TcpSession.now_eq _), ← hclock]
  exact onBuffer_of hhandle session'

theorem tryPing_of_not_replied (hhost : utf8Len client.address.host ≤ 32767)
    (h : ¬ Java.Replied status (client.hello hhost) client.pingPacket client.pingPacket schedule)
    : ∃ failure session', client.tryPing (Java.connect status schedule) = .error failure session'
        ∧ IsEnding failure := by
  have hpart := Java.arrivals_asked (@Java.answers_pingPacket status (client.hello hhost)
    client.ping_token.toUInt64.toNat) schedule
  rcases runsOut_readPacket (List.cons_ne_nil _ _) client.length_pingPacket_lt _ hpart.1 h with
    ⟨failure, session', herror, hending⟩
  refine ⟨failure, session', ?_, hending⟩
  rw [tryPing_eq client hhost]
  exact bind_of_error herror

theorem tryPing_of_long (hlong : 32767 < utf8Len client.address.host)
    (session : Session (Java.server status))
    : client.tryPing session = .error (.error .io) session :=
  bind_of_error (client.handshake_of_long hlong session)

end Ping

end JavaClient

end Rust

end McStatus
