import McStatus.Python.Io.StructRoundTrip
import McStatus.Python.Java.StatusExchange

/-!
This module contains what a ping of the Python client comes to on a new connection with a server of
the protocol.
-/

namespace McStatus

open Reader Duplex

namespace Python

open BaseSyncReader BaseSyncWriter

theorem handlePingResponse_pingPacket {client : JavaClient} (h : ValidToken client.ping_token)
    (start stop : Rat)
    : readFrom (client.handlePingResponse start stop) (pingPacket client.ping_token)
        = .ok ((stop - start) * 1000) := by
  have hid : Consumes Buffer.unreadView (readVarint : Py Buffer Int) [1] 1 := by
    have hconsumes : Consumes Buffer.unreadView (readVarint : Py Buffer Int) (Varint.encode 1) 1 :=
      consumes_readVarint (by decide)
    rwa [Varint.encode, if_pos (by decide)] at hconsumes
  rcases hid (Buffer.ofBytes (pingPacket client.ping_token)) (tokenBytes client.ping_token) rfl with
    ⟨b, hread, hview⟩
  have hlen : (tokenBytes client.ping_token).length = 8 := BigEndian.length_encode _ _
  have hunpack : unpack .longlong (tokenBytes client.ping_token) = .ok client.ping_token := by
    have hsigned : unpackSigned (tokenBytes client.ping_token) = client.ping_token :=
      unpackSigned_encode (by decide) h.1 h.2
    have hvalue : unpack .longlong (tokenBytes client.ping_token)
        = .ok (unpackSigned (tokenBytes client.ping_token)) := if_neg (not_not_intro hlen)
    rw [hvalue, hsigned]
  rcases consumes_readValue hlen hunpack b [] (hview.trans (List.append_nil _).symm) with
    ⟨b', htoken, -⟩
  rw [readFrom, JavaClient.handlePingResponse, bind_of_ok hread, if_neg (by decide),
    bind_of_ok htoken, if_neg (not_not_intro rfl)]
  rfl

section Attempt

variable {status : Java.StatusText} {schedule : List Turn} {server : JavaServer} {version : Int}
variable {ping_token : Option Int} {random : RandomToken} {hello : Java.Handshake}

def tokenIn (ping_token : Option Int) (random : RandomToken) : Int :=
  ping_token.getD random.value

theorem length_frame_lt (token : Int) : (pingPacket token).length < 2 ^ 31 := by
  rw [length_pingPacket]
  decide

theorem retryPing_eq_read (h : Says server.address version hello)
    (htoken : ValidToken (tokenIn ping_token random))
    : server.retryPing version ping_token random (Java.connect status schedule)
        =
      (do
        let response ← readBytearray
        let stop ← Clock.perfCounter
        ofExcept (readFrom
          ((JavaClient.new server.address version ping_token random).handlePingResponse 0 stop)
          response)
        : Py (Session (Java.server status)) Rat)
        (Java.asked status hello (pingPacket (tokenIn ping_token random)) schedule) := by
  have hbuild : packetOf (JavaClient.new server.address version ping_token random).buildPingPacket
      = .ok (pingPacket (tokenIn ping_token random)) := packetOf_buildPingPacket htoken
  have hstart : SessionSocket.seconds ((Java.connect status schedule).send
      (Java.frame hello.packet)).clock = 0 := by
    have hclock : ((Java.connect status schedule).send (Java.frame hello.packet)).clock = 0 := rfl
    rw [hclock, SessionSocket.seconds_zero]
  rw [JavaServer.retryPing, bind_of_ok (handshake_eq h), JavaClient.testPing, hbuild, ofExcept_ok,
    bind_of_ok (pure_apply _ _), bind_of_ok (SessionSocket.perfCounter_eq _),
    bind_of_ok (SessionSocket.sends_writeBytearray (length_frame_lt _) _), hstart]
  rfl

theorem retryPing_of_replied (h : Says server.address version hello)
    (htoken : ValidToken (tokenIn ping_token random))
    (hreplied : Java.Replied status hello (pingPacket (tokenIn ping_token random))
      (pingPacket (tokenIn ping_token random)) schedule)
    : ∃ session', server.retryPing version ping_token random (Java.connect status schedule)
        = .ok (SessionSocket.seconds (Java.replyTime status hello
            (pingPacket (tokenIn ping_token random)) schedule) * 1000) session' := by
  have hframe : (Java.asked status hello (pingPacket (tokenIn ping_token random)) schedule).arrivals
      = Varint.encode (pingPacket (tokenIn ping_token random)).length
          ++ pingPacket (tokenIn ping_token random) ++ [] := by
    rw [hreplied, List.append_nil]
    rfl
  rcases StreamReader.consumes_readBytearray (length_frame_lt _)
    (Java.asked status hello (pingPacket (tokenIn ping_token random)) schedule) [] hframe with
    ⟨session', hread, hnil⟩
  have hclock : session'.clock
      = Java.replyTime status hello (pingPacket (tokenIn ping_token random)) schedule :=
    (onward_readBytearray _ _ _ hread).clock_eq hnil
  have hhandle : readFrom ((JavaClient.new server.address version ping_token
      random).handlePingResponse 0 (SessionSocket.seconds session'.clock))
      (pingPacket (tokenIn ping_token random))
        = .ok ((SessionSocket.seconds session'.clock - 0) * 1000) :=
    handlePingResponse_pingPacket htoken 0 _
  refine ⟨session', ?_⟩
  rw [retryPing_eq_read h htoken, bind_of_ok hread, bind_of_ok (SessionSocket.perfCounter_eq _),
    hhandle, hclock, sub_zero]
  rfl

theorem retryPing_of_not_replied (h : Says server.address version hello)
    (htoken : ValidToken (tokenIn ping_token random))
    (hnot : ¬ Java.Replied status hello (pingPacket (tokenIn ping_token random))
      (pingPacket (tokenIn ping_token random)) schedule)
    : ∃ e session', server.retryPing version ping_token random (Java.connect status schedule)
          = .error e session'
        ∧ SessionSocket.IsEnding e := by
  have hpacket := pingPacket_eq (tokenIn ping_token random)
  have hanswers := @Java.answers_pingPacket status hello
    (tokenIn ping_token random % 2 ^ 64).toNat
  rw [← hpacket] at hanswers
  have hpart := Java.arrivals_asked hanswers schedule
  rcases runsOut_readBytearray (length_frame_lt _) _ hpart.1 hnot with ⟨e, session', herror, he⟩
  refine ⟨e, session', ?_, he⟩
  rw [retryPing_eq_read h htoken]
  exact bind_of_error herror

end Attempt

end Python

end McStatus
