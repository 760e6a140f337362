import McStatus.Python.Java.PingExchange
import McStatus.Python.Java.StatusRetries
import McStatus.Rust.Java.Ping

/-!
This module shows that both Java clients speak the same protocol: they send the same packets, and
get the same out of a connection on which the same happens.
-/

namespace McStatus

open Reader Duplex

namespace Java

def pythonAddress (address : Rust.Address) : Python.Address where
  host := address.host
  port := address.port.toNat
  port_valid := by
    have := address.port.toNat_lt
    omega

def pythonClient (client : Rust.JavaClient) : Python.JavaClient where
  address := pythonAddress client.address
  version := client.version.toInt
  ping_token := client.ping_token.toInt

variable (client : Rust.JavaClient)

theorem says_hello (h : utf8Len client.address.host ≤ 32767)
    : Python.Says (pythonClient client).address (pythonClient client).version (client.hello h) where
  version_eq := rfl
  host_eq := rfl
  port_eq := rfl

theorem validToken_toInt : Python.ValidToken client.ping_token.toInt :=
  ⟨client.ping_token.le_toInt, client.ping_token.toInt_lt⟩

theorem toNat_toUInt64 (token : Int64) : (token.toInt % 2 ^ 64).toNat = token.toUInt64.toNat := by
  have hpow : (2 : Int) ^ 64 = (2 ^ 64 : Nat) := rfl
  have htoNat : (token.toUInt64.toNat : Int) = token.toInt % 2 ^ 64 := by
    rw [Int64.toInt, BitVec.toInt_eq_toNat_bmod, hpow, Int.bmod_emod]
    exact (Int.emod_eq_of_lt (by omega) (Int.ofNat_lt.mpr token.toUInt64.toNat_lt)).symm
  rw [← htoNat, Int.toNat_natCast]

theorem pingPacket_toInt : Python.pingPacket client.ping_token.toInt = client.pingPacket := by
  rw [Python.pingPacket_eq, toNat_toUInt64]
  rfl

theorem exists_hello (h : client.address.host.length ≤ 32767)
    : ∃ hello : Handshake, hello.host = client.address.host
        ∧ Python.packetOf (pythonClient client).buildHandshakePacket = .ok hello.packet := by
  have hclaim : Python.Says (pythonClient client).address (pythonClient client).version {
      version := client.version.toInt
      host := client.address.host
      port := client.address.port.toNat
      version_valid := ⟨client.version.le_toInt, client.version.toInt_lt⟩
      host_valid := h
      port_valid := client.address.port.toNat_lt
    } := ⟨rfl, rfl, rfl⟩
  exact ⟨_, rfl, Python.packetOf_buildHandshakePacket hclaim⟩

/--
They part with hosts that have fewer characters than bytes: Rust counts bytes where Python counts
characters, and the protocol allows the characters.
-/
theorem packets_agree
    : (∀ h : utf8Len client.address.host ≤ 32767,
          Rust.Writes client.handshakePacket (client.hello h).packet
            ∧ Python.packetOf (pythonClient client).buildHandshakePacket
              = .ok (client.hello h).packet
            ∧ Handshake.read? (client.hello h).packet = some (client.hello h))
        ∧ (32767 < utf8Len client.address.host →
          (∃ e b, client.handshakePacket Rust.Buffer.new = .error (.error e) b)
            ∧ (client.address.host.length ≤ 32767 → ∃ hello : Handshake,
              hello.host = client.address.host
                ∧ Python.packetOf (pythonClient client).buildHandshakePacket = .ok hello.packet
                ∧ Handshake.read? hello.packet = some hello)
            ∧ (32767 < client.address.host.length → ∃ e,
              Python.packetOf (pythonClient client).buildHandshakePacket = .error e))
        ∧ Rust.Writes Rust.JavaClient.statusRequest statusRequest
        ∧ Python.packetOf Python.JavaClient.buildStatusRequest = .ok statusRequest
        ∧ Rust.Writes client.pingRequest client.pingPacket
        ∧ Python.packetOf (pythonClient client).buildPingPacket = .ok client.pingPacket
        ∧ ∀ (S : Type) (responder : Responder S UInt8) (session : Session responder),
          (∀ h : utf8Len client.address.host ≤ 32767,
              client.handshake session = .ok () (session.send (frame (client.hello h).packet))
                ∧ (pythonClient client).handshake session
                  = .ok () (session.send (frame (client.hello h).packet)))
            ∧ (32767 < utf8Len client.address.host →
              client.handshake session = .error (.error .io) session
                ∧ ∀ hello : Handshake,
                  Python.packetOf (pythonClient client).buildHandshakePacket = .ok hello.packet →
                  (pythonClient client).handshake session
                    = .ok () (session.send (frame hello.packet)))
            ∧ ∀ packet : List UInt8, packet.length < 2 ^ 31 →
              Rust.JavaClient.writeFramed packet session = .ok () (session.send (frame packet))
                ∧ (Python.BaseSyncWriter.writeBytearray packet : Python.Py (Session responder) Unit)
                  session = .ok () (session.send (frame packet)) := by
  refine ⟨fun h => ⟨client.writes_handshakePacket h, ?_, Handshake.read?_packet _⟩, ?_,
    Rust.JavaClient.writes_statusRequest, Python.packetOf_buildStatusRequest,
    client.writes_pingRequest, ?_, fun S responder session => ⟨fun h => ?_, fun h => ?_, ?_⟩⟩
  . exact Python.packetOf_buildHandshakePacket (says_hello client h)
  . intro hlong
    refine ⟨?_, fun h => ?_, fun h => ?_⟩
    . exact client.handshakePacket_of_long hlong
    . rcases exists_hello client h with ⟨hello, hhost, hpacket⟩
      exact ⟨hello, hhost, hpacket, hello.read?_packet⟩
    . exact Python.packetOf_buildHandshakePacket_of_long h
  . rw [Python.packetOf_buildPingPacket (validToken_toInt client)]
    exact congrArg _ (pingPacket_toInt client)
  . exact ⟨client.handshake_eq h session,
      Python.JavaClient.handshake_eq (Python.packetOf_buildHandshakePacket (says_hello client h)) _⟩
  . exact ⟨client.handshake_of_long h session,
      fun hello hbuild => Python.JavaClient.handshake_eq hbuild session⟩
  . exact fun packet hlength => ⟨Rust.JavaClient.writeFramed_eq hlength session,
      Python.SessionSocket.sends_writeBytearray hlength session⟩

section Exchange

variable (query_port : Int) (random : Python.RandomToken) (status : StatusText)
variable (schedule : List Turn)

def pythonServer : Python.JavaServer where
  address := pythonAddress client.address
  query_port := query_port

variable {client} {query_port random status schedule}

theorem retryStatus_of_not_replied {loads : Python.Loads} (h : utf8Len client.address.host ≤ 32767)
    (hnot : ¬ Replied status (client.hello h) statusRequest status.packet schedule)
    : ∃ e session', (pythonServer client query_port).retryStatus client.version.toInt
          (some client.ping_token.toInt) random loads (connect status schedule)
            = .error (.raised e) session'
        ∧ Python.SessionSocket.IsEnding e := by
  have hpart := arrivals_asked (@answers_statusRequest status (client.hello h)) schedule
  rcases Python.runsOut_readBytearray (Rust.JavaClient.length_statusPacket_lt status) _ hpart.1 hnot
    with ⟨e, session', herror, he⟩
  exact ⟨e, session', Python.retryStatus_of_error (says_hello client h) herror, he⟩

end Exchange

end Java

end McStatus
