import McStatus.Java.Outstanding
import McStatus.Python.Java.StatusExchange

/-!
This module shows what `status` of the Python `JavaServer` returns where it has to try again: all of
its attempts share one connection, on which the server answers to the first request alone.
-/

namespace McStatus

open Reader Duplex

namespace Python

open BaseSyncReader

section Run

variable {status : Java.StatusText} {session session' : Session (Java.server status)}
variable {hello : Java.Handshake} {final : Java.Phase}

/-- What is still to come is a part of the one answer, and the server takes no more handshakes. -/
def Answered (session : Session (Java.server status)) : Prop :=
  ∃ stream final, stream <:+ Java.frame status.packet ∧ Java.Outstanding session stream final
    ∧ final ≠ .handshaking

/-- Before an attempt: nothing was sent on the connection, or it was answered. -/
def Attempted (session : Session (Java.server status)) : Prop :=
  Java.Outstanding session [] .handshaking ∨ Answered session

theorem answer_of_not_handshaking (hello : Java.Handshake) (h : final ≠ .handshaking)
    : Java.answer status final hello.packet = (.ended, []) := by
  cases final with
  | handshaking => exact absurd rfl h
  | status hello' =>
    have hother : hello.packet ≠ Java.statusRequest := by
      intro heq
      have hlen := congrArg List.length heq
      rw [Java.Handshake.packet, List.length_cons, List.length_append, List.length_append,
        List.length_append, BigEndian.length_encode] at hlen
      have hone : Java.statusRequest.length = 1 := rfl
      omega
    have hping : ¬ Java.isPing hello.packet = true := by
      rw [Java.isPing, decide_eq_true_iff, Java.Handshake.packet]
      rintro ⟨hhead, -⟩
      cases hhead
    rw [Java.answer, if_neg hother, if_neg hping]
  | ended => rfl

theorem answered_asks (hello : Java.Handshake) (h : Attempted session)
    : Answered (asks hello session) := by
  have hlen : Java.statusRequest.length < 2 ^ 31 := by decide
  rcases h with h | ⟨stream, final, hsuffix, h, hfinal⟩
  . have hfirst := h.send hello.length_packet_le
    rw [Java.answer_handshake] at hfirst
    exact ⟨_, _, List.suffix_refl _, hfirst.send hlen, Java.Phase.noConfusion⟩
  . have hfirst := h.send hello.length_packet_le
    rw [answer_of_not_handshaking hello hfinal] at hfirst
    have hsecond := hfirst.send hlen
    have hnone : Java.answer status .ended Java.statusRequest = (.ended, []) := rfl
    rw [hnone, List.append_nil, List.append_nil] at hsecond
    exact ⟨stream, _, hsuffix, hsecond, Java.Phase.noConfusion⟩

theorem answered_step (hstep : Session.Step session session') (h : Answered session)
    : Answered session' := by
  rcases h with ⟨stream, final, hsuffix, h, hfinal⟩
  rcases h.step hstep with ⟨stream', hsuffix', h'⟩
  exact ⟨stream', final, hsuffix'.trans hsuffix, h', hfinal⟩

theorem keeps_answered
    : Keeps (@Answered status)
        (readBytearray : Py (Session (Java.server status)) (List UInt8)) := by
  refine keeps_readBytearray (TCPSocketConnection.keeps_read fun n => ?_)
  intro session h
  have hrecv : (Socket.recv n : Py (Session (Java.server status)) (List UInt8))
      = SessionSocket.recv n := rfl
  have hkept := Session.keeps_recv (fun _ _ => answered_step) n session h
  rw [hrecv, SessionSocket.recv]
  split
  . exact kept_of_ok h
  . split
    . next hrun => exact kept_of_ok (hkept.1 _ _ hrun)
    . next hrun => exact kept_of_error (hkept.2 _ _ hrun)
    . next hrun => exact kept_of_ok (hkept.2 _ _ hrun)

theorem arrivals_of_answered (h : Answered session)
    : ∃ past rest, past ++ (session.arrivals ++ rest) = Java.frame status.packet := by
  rcases h with ⟨stream, final, ⟨past, hsuffix⟩, h, -⟩
  rcases h.arrivals_isPrefix with ⟨rest, hrest⟩
  exact ⟨past, rest, by rw [hrest, hsuffix]⟩

section Attempts

variable {server : JavaServer} {version : Int} {ping_token : Option Int}
variable {random : Nat → RandomToken} {loads : Loads} {schedule : List Turn} {k : Nat}

theorem attempted_of_failsTo (h : Says server.address version hello)
    (hfails : FailsTo (fun i => server.retryStatus version ping_token (random i) loads)
      (Java.connect status schedule) k session)
    : Attempted session := by
  refine hfails.induct (fun _ session => Attempted session)
    (Or.inl (Java.Outstanding.connect status schedule)) ?_
  intro i session e session' _ hattempted hrun
  exact Or.inr ((keeps_retryStatus h keeps_answered (answered_asks hello hattempted)).2 _ _ hrun)

def latency (hello : Java.Handshake) (session : Session (Java.server status)) : Rat :=
  (SessionSocket.seconds ((asks hello session).times.getLastD session.clock)
    - SessionSocket.seconds session.clock) * 1000

theorem latency_connect (hello : Java.Handshake) (status : Java.StatusText)
    (schedule : List Turn)
    : latency hello (Java.connect status schedule)
        = SessionSocket.seconds (Java.replyTime status hello Java.statusRequest schedule)
          * 1000 := by
  have hclock : (Java.connect status schedule).clock = 0 := rfl
  rw [latency, hclock, SessionSocket.seconds_zero, sub_zero]
  rfl

theorem retryStatus_of_arrivals (ping_token : Option Int) (random : RandomToken) (loads : Loads)
    (h : Says server.address version hello)
    (hall : (asks hello session).arrivals = Java.frame status.packet)
    : ∃ session', server.retryStatus version ping_token random loads session
        = (ofResult (parseStatus loads status.chars (latency hello session))
          : EStateM StatusError (Session (Java.server status)) JavaStatusResponse) session' := by
  have hlen : status.packet.length < 2 ^ 31 := by
    have := Java.length_text_le status.limit
    rw [Java.StatusText.packet, List.length_cons]
    omega
  have hframe : (asks hello session).arrivals
      = Varint.encode status.packet.length ++ status.packet ++ [] := by
    rw [hall, List.append_nil]
    rfl
  rcases StreamReader.consumes_readBytearray hlen (asks hello session) [] hframe with
    ⟨session', hread, hnil⟩
  have hclock : session'.clock = (asks hello session).times.getLastD session.clock :=
    (onward_readBytearray _ _ _ hread).clock_eq hnil
  rcases handleStatusResponse_packet loads (SessionSocket.seconds session.clock)
    (SessionSocket.seconds session'.clock) status with ⟨b, hhandle⟩
  refine ⟨session', ?_⟩
  rw [retryStatus_of_ok h hread, hhandle, latency, hclock]
  cases parseStatus loads status.chars _ <;> rfl

theorem arrivals_of_retryStatus {random : RandomToken} {response : JavaStatusResponse}
    (hne : status.chars ≠ []) (hnul : '\x00' ∉ status.chars)
    (h : Says server.address version hello) (hattempted : Attempted session)
    (hrun : server.retryStatus version ping_token random loads session = .ok response session')
    : (asks hello session).arrivals = Java.frame status.packet := by
  rcases retryStatus_eq_ok h hrun with ⟨bytes, text, harrivals, hreads, -⟩
  rcases arrivals_of_answered (answered_asks hello hattempted) with ⟨past, rest, hsplit⟩
  rw [harrivals, List.append_assoc] at hsplit
  rcases Java.eq_frame_of_readsAsStatus hne hnul hsplit hreads with ⟨rfl, rfl, -⟩
  have hwhole : Java.frame status.packet ++ (session'.arrivals ++ rest)
      = Java.frame status.packet := hsplit
  have hnil := List.append_right_eq_self.mp hwhole
  rw [harrivals, (List.append_eq_nil_iff.mp hnil).1, List.append_nil]

def localHello : Java.Handshake where
  version := 47
  host := "localhost".toList
  port := 25565
  version_valid := by decide
  host_valid := by decide
  port_valid := by decide

def idleStatus : Java.StatusText where
  chars :=
    "\x7b\"version\":\x7b\"name\":\"1.8\",\"protocol\":47\x7d,".toList
      ++ "\"players\":\x7b\"online\":0,\"max\":20\x7d\x7d".toList
  limit := by decide

def idleLoads : Loads := fun text =>
  if text = idleStatus.chars then
    some {
      players := some { online := some 0, max := some 20 }
      version := some { name := some "1.8".toList, protocol := some 47 }
    }
  else
    none

/-- The answer to the first attempt arrives in the second one. -/
def lateAnswer : Session (Java.server idleStatus) :=
  Java.connect idleStatus [.respond, .respond, .timeOut, .wait 5, .deliver 1000]

end Attempts

end Run

end Python

end McStatus
