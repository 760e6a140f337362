import McStatus.Java.Outstanding
import McStatus.Python.Java.Status

/-!
This module contains what a status request of the Python client comes to on a connection with a
server of the protocol, in one attempt and over any number of them.
-/

namespace McStatus

open Reader Duplex

namespace Python

open BaseSyncReader BaseSyncWriter

variable {loads : Loads} {start stop latency_ms : Rat} {response : JavaStatusResponse}

section Handle

theorem handleStatusResponse_packet (loads : Loads) (start stop : Rat) (status : Java.StatusText)
    : ∃ b, JavaClient.handleStatusResponse loads start stop (Buffer.ofBytes status.packet)
        = (ofResult (parseStatus loads status.chars ((stop - start) * 1000))
          : EStateM StatusError Buffer JavaStatusResponse) b := by
  have hid : Consumes Buffer.unreadView (readVarint : Py Buffer Int) [0] 0 := by
    have hconsumes : Consumes Buffer.unreadView (readVarint : Py Buffer Int) (Varint.encode 0) 0 :=
      consumes_readVarint (by decide)
    rwa [Varint.encode, if_pos (by decide)] at hconsumes
  rcases hid (Buffer.ofBytes status.packet) (Java.text status.chars) rfl with ⟨b, hread, hview⟩
  have hutf := @consumes_readUtf Buffer _ _ status.limit
  rcases hutf b [] (hview.trans (List.append_nil _).symm) with ⟨b', htext, -⟩
  refine ⟨b', ?_⟩
  rw [JavaClient.handleStatusResponse, bind_of_ok (adaptExcept_of_ok hread), if_neg (by decide),
    bind_of_ok (adaptExcept_of_ok htext)]

theorem handleStatusResponse_eq_ok {data : List UInt8} {b : Buffer}
    (h : JavaClient.handleStatusResponse loads start stop (Buffer.ofBytes data) = .ok response b)
    : ∃ id size text extra, data = id ++ (size ++ (Utf8.encode text ++ extra))
        ∧ Varint.Framed id ∧ Varint.value id = 0
        ∧ Varint.Framed size ∧ Varint.value size = (Utf8.encode text).length
        ∧ parseStatus loads text ((stop - start) * 1000) = .ok response := by
  rcases bind_eq_ok.mp h with ⟨value, t, hid, h⟩
  split at h
  . cases h
  . next hzero =>
    rw [not_not.mp hzero] at hid
    rcases readVarint_eq_ok (Int.le_refl 0) (adaptExcept_eq_ok hid) with ⟨id, hview, hrange, hvalue⟩
    rcases bind_eq_ok.mp h with ⟨text, u, htext, h⟩
    rcases readUtf_eq_ok (adaptExcept_eq_ok htext) with ⟨size, hview', hrange', hsize⟩
    rw [hview'] at hview
    refine ⟨id, size, text, _, hview, hrange.framed, (Int.ofNat_inj.mp hvalue).symm, hrange'.framed,
      hsize, ?_⟩
    cases hparse : parseStatus loads text ((stop - start) * 1000) with
    | error e =>
      rw [hparse] at h
      cases h
    | ok response' =>
      rw [hparse] at h
      cases h
      rfl

end Handle

section Onward

variable {S : Type} {responder : Responder S UInt8}

theorem onward_ofExcept {α : Type} (x : Except Exception α)
    : Session.Onward (ofExcept x : Py (Session responder) α) := by
  cases x with
  | ok a => exact .pure a
  | error e => exact .throw e

theorem onward_read (n : Int)
    : Session.Onward (BaseSyncReader.read n : Py (Session responder) (List UInt8)) := by
  intro session data session' h
  have hread : TCPSocketConnection.readLoop n.toNat session = .ok data session' := h
  have hfilled := session.filled_fill n.toNat
  rw [SessionSocket.readLoop_eq] at hread
  split at hread
  . next hfill =>
    cases hread
    rw [hfill] at hfilled
    cases hfilled with
    | full hlen harrivals hending hlater => exact hlater
  . cases hread

theorem onward_readBytearray
    : Session.Onward (readBytearray : Py (Session responder) (List UInt8)) := by
  have hgo : ∀ left i result,
      Session.Onward (readVaruint.go 32 left i result : Py (Session responder) Nat) := by
    intro left
    induction left with
    | zero =>
      intro i result
      exact .throw _
    | succ left ih =>
      intro i result
      refine Session.Onward.bind ((onward_read _).bind fun data => onward_ofExcept _) fun byte => ?_
      exact .ite (.throw _) (.ite (.pure _) (ih _ _))
  have hvarint : Session.Onward (readVarint : Py (Session responder) Int) :=
    Session.Onward.bind (hgo _ _ _) fun n => onward_ofExcept _
  exact hvarint.bind fun length => .ite (.throw _) (onward_read _)

end Onward

theorem SessionSocket.readBytearray_of_recv {S : Type} {responder : Responder S UInt8}
    {session session' : Session responder} {ending : Ending}
    (h : session.recv 1 = .error ending session')
    : (readBytearray : Py (Session responder) (List UInt8)) session
        = .error (failureOf ending) session' := by
  have hfill : session.fill 1 = .error ending session' := by
    rw [Session.fill, if_neg Nat.one_ne_zero, h]
  have hread : (read 1 : Py (Session responder) (List UInt8)) session
      = .error (failureOf ending) session' := by
    refine (readLoop_eq 1 session).trans ?_
    rw [hfill]
  have hbyte : (readValue .ubyte : Py (Session responder) Int) session
      = .error (failureOf ending) session' := bind_of_error hread
  have hvaruint : (readVaruint 32 : Py (Session responder) Nat) session
      = .error (failureOf ending) session' := bind_of_error hbyte
  exact bind_of_error (bind_of_error hvaruint)

theorem runsOut_readBytearray {S : Type} {responder : Responder S UInt8} {packet : List UInt8}
    (h : packet.length < 2 ^ 31)
    : RunsOut Session.arrivals SessionSocket.IsEnding
        (readBytearray : Py (Session responder) (List UInt8)) (Java.frame packet) := by
  intro session
  have hconsumes : Consumes Session.arrivals
      (readBytearray : Py (Session responder) (List UInt8)) (Java.frame packet) packet := by
    exact StreamReader.consumes_readBytearray h
  have hdelimited : Delimited Session.arrivals SessionSocket.IsEnding
      (readBytearray : Py (Session responder) (List UInt8)) :=
    StreamReader.delimited_readBytearray
  exact hdelimited.runsOut hconsumes (session.arrivals_arrived (Java.frame packet)) session

def asks {S : Type} {responder : Responder S UInt8} (hello : Java.Handshake)
    (session : Session responder) : Session responder :=
  (session.send (Java.frame hello.packet)).send (Java.frame Java.statusRequest)

section Attempt

variable {S : Type} {responder : Responder S UInt8} {session session' : Session responder}
variable {server : JavaServer} {version : Int} {ping_token : Option Int} {random : RandomToken}
variable {hello : Java.Handshake} {data : List UInt8}

theorem JavaClient.handshake_eq {client : JavaClient}
    (hbuild : packetOf client.buildHandshakePacket = .ok hello.packet)
    (session : Session responder)
    : client.handshake session = .ok () (session.send (Java.frame hello.packet)) := by
  rw [JavaClient.handshake, hbuild, ofExcept_ok, bind_of_ok (pure_apply _ _)]
  exact SessionSocket.sends_writeBytearray hello.length_packet_le session

theorem handshake_eq (h : Says server.address version hello)
    : (JavaClient.new server.address version ping_token random).handshake session
        = .ok () (session.send (Java.frame hello.packet)) :=
  JavaClient.handshake_eq (packetOf_buildHandshakePacket h) session

theorem requestStatus_eq (session : Session responder)
    : (JavaClient.requestStatus : Py (Session responder) (Rat × Rat × List UInt8)) session
        =
      (do
        let response ← readBytearray
        let stop ← Clock.perfCounter
        return (SessionSocket.seconds session.clock, stop, response)
        : Py (Session responder) (Rat × Rat × List UInt8))
        (session.send (Java.frame Java.statusRequest)) := by
  have hlen : Java.statusRequest.length < 2 ^ 31 := by decide
  rw [JavaClient.requestStatus, packetOf_buildStatusRequest, ofExcept_ok,
    bind_of_ok (pure_apply _ _), bind_of_ok (SessionSocket.sends_writeBytearray hlen session),
    bind_of_ok (SessionSocket.perfCounter_eq _)]
  rfl

theorem retryStatus_of_ok (h : Says server.address version hello)
    (hread : readBytearray (asks hello session) = .ok data session')
    : server.retryStatus version ping_token random loads session
        =
      match JavaClient.handleStatusResponse loads (SessionSocket.seconds session.clock)
          (SessionSocket.seconds session'.clock) (Buffer.ofBytes data) with
      | .ok response _ => .ok response session'
      | .error e _ => .error e session' := by
  have hrequest : (JavaClient.requestStatus : Py (Session responder) (Rat × Rat × List UInt8))
      (session.send (Java.frame hello.packet))
        = .ok (SessionSocket.seconds session.clock, SessionSocket.seconds session'.clock, data)
            session' := by
    rw [requestStatus_eq]
    have hread : readBytearray ((session.send (Java.frame hello.packet)).send
        (Java.frame Java.statusRequest)) = .ok data session' := hread
    rw [bind_of_ok hread, bind_of_ok (SessionSocket.perfCounter_eq _)]
    rfl
  rw [JavaServer.retryStatus, bind_of_ok (adaptExcept_of_ok (handshake_eq h)),
    JavaClient.readStatus, bind_of_ok (adaptExcept_of_ok hrequest)]
  dsimp only
  cases JavaClient.handleStatusResponse loads (SessionSocket.seconds session.clock)
    (SessionSocket.seconds session'.clock) (Buffer.ofBytes data) <;> rfl

theorem retryStatus_of_error {e : Exception} (h : Says server.address version hello)
    (hread : readBytearray (asks hello session) = .error e session')
    : server.retryStatus version ping_token random loads session = .error (.raised e) session' := by
  have hrequest : (JavaClient.requestStatus : Py (Session responder) (Rat × Rat × List UInt8))
      (session.send (Java.frame hello.packet)) = .error e session' := by
    rw [requestStatus_eq]
    exact bind_of_error hread
  rw [JavaServer.retryStatus, bind_of_ok (adaptExcept_of_ok (handshake_eq h)),
    JavaClient.readStatus]
  exact bind_of_error (adaptExcept_of_error hrequest)

theorem keeps_retryStatus {I : Session responder → Prop} (h : Says server.address version hello)
    (hread : Keeps I (readBytearray : Py (Session responder) (List UInt8)))
    (hI : I (asks hello session))
    : (∀ response session', server.retryStatus version ping_token random loads session
          = .ok response session' → I session')
        ∧ ∀ e session', server.retryStatus version ping_token random loads session
          = .error e session' → I session' := by
  cases hrun : (readBytearray : Py (Session responder) (List UInt8)) (asks hello session) with
  | ok data t =>
    rw [retryStatus_of_ok h hrun]
    have ht := (hread _ hI).1 data t hrun
    split
    . exact kept_of_ok ht
    . exact kept_of_error ht
  | error e t =>
    rw [retryStatus_of_error h hrun]
    exact kept_of_error ((hread _ hI).2 e t hrun)

theorem retryStatus_eq_ok (h : Says server.address version hello)
    (hrun : server.retryStatus version ping_token random loads session = .ok response session')
    : ∃ bytes text, (asks hello session).arrivals = bytes ++ session'.arrivals
        ∧ Java.ReadsAsStatus bytes (Utf8.encode text)
        ∧ parseStatus loads text ((SessionSocket.seconds session'.clock
            - SessionSocket.seconds session.clock) * 1000) = .ok response := by
  cases hread : (readBytearray : Py (Session responder) (List UInt8)) (asks hello session) with
  | error e t => cases hrun.symm.trans (retryStatus_of_error h hread)
  | ok data t =>
    rw [retryStatus_of_ok h hread] at hrun
    split at hrun
    . next b hhandle =>
      cases hrun
      rcases handleStatusResponse_eq_ok hhandle with
        ⟨id, size, text, extra, rfl, hid, hzero, hsize, htext, hparse⟩
      rcases StreamReader.readBytearray_eq_ok hread with ⟨length, hview, hrange, hvalue⟩
      refine ⟨length ++ (id ++ (size ++ (Utf8.encode text ++ extra))), text, ?_, ?_, hparse⟩
      . rw [List.append_assoc]
        exact hview
      . exact ⟨length, id, size, extra, rfl, hrange.framed, hvalue, hid, hzero, hsize, htext⟩
    . cases hrun

end Attempt

end Python

end McStatus
