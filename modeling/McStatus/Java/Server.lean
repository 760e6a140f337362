import McStatus.Java.Wire
import McStatus.Library.Duplex

/-!
This module contains a server of the status protocol: what it has been told, and its answers to the
packets that it takes off a stream.
-/

namespace McStatus

namespace Java

open Duplex

inductive Phase where
  | handshaking
  | status (handshake : Handshake)
  /-- The server no longer answers. -/
  | ended

def isPing (packet : List UInt8) : Bool :=
  packet.head? = some 1 ∧ packet.length = 9

def answer (status : StatusText) (phase : Phase) (packet : List UInt8) : Phase × List UInt8 :=
  match phase with
  | .handshaking =>
    match Handshake.read? packet with
    | some handshake => (.status handshake, [])
    | none => (.ended, [])
  | .status handshake =>
    if packet = statusRequest then
      (.status handshake, frame status.packet)
    else if isPing packet then
      (.ended, frame packet)
    else
      (.ended, [])
  | .ended => (.ended, [])

def server (status : StatusText) : Responder Phase UInt8 := fun phase input => do
  let (packet, rest) ← takeFrame input
  let (state, reply) := answer status phase packet
  return { state, rest, reply }

def connect (status : StatusText) (schedule : List Turn) : Session (server status) :=
  .connect (server status) .handshaking schedule

variable {status : StatusText}

theorem server_frame {phase : Phase} {packet : List UInt8} (h : packet.length < 2 ^ 31)
    (rest : List UInt8)
    : server status phase (frame packet ++ rest)
        = some {
          state := (answer status phase packet).1
          rest := rest
          reply := (answer status phase packet).2
        } := by
  rw [server, takeFrame_frame h]
  rfl

theorem server_nil (phase : Phase) : server status phase [] = none := rfl

theorem answer_handshake (handshake : Handshake)
    : answer status .handshaking handshake.packet = (.status handshake, []) := by
  rw [answer, Handshake.read?_packet]

theorem answers_handshake {handshake : Handshake} {input : List UInt8} {replies : List (List UInt8)}
    {final : Phase} (h : Answers (server status) (.status handshake) input replies final)
    : Answers (server status) .handshaking (frame handshake.packet ++ input) ([] :: replies) final
    := by
  have hserver := @server_frame status .handshaking _ handshake.length_packet_le input
  rw [answer_handshake] at hserver
  exact .request hserver h

theorem answers_nil (phase : Phase) : Answers (server status) phase [] [] phase :=
  .done (server_nil phase)

theorem answers_statusRequest (handshake : Handshake)
    : Answers (server status) .handshaking (frame handshake.packet ++ frame statusRequest)
        [[], frame status.packet] (.status handshake) := by
  refine answers_handshake ?_
  have hserver := @server_frame status (.status handshake) statusRequest (by decide) []
  rw [List.append_nil] at hserver
  exact .request hserver (answers_nil _)

theorem length_pingPacket (token : Nat) : (pingPacket token).length = 9 := by
  rw [pingPacket, List.length_cons, BigEndian.length_encode]

theorem answers_pingPacket (handshake : Handshake) (token : Nat)
    : Answers (server status) .handshaking
        (frame handshake.packet ++ frame (pingPacket token))
        [[], frame (pingPacket token)] .ended := by
  refine answers_handshake ?_
  have hlen : (pingPacket token).length < 2 ^ 31 := by
    rw [length_pingPacket]
    decide
  have hserver := @server_frame status (.status handshake) _ hlen []
  have hping : isPing (pingPacket token) = true := by
    simp only [isPing, length_pingPacket]
    rfl
  have hother : pingPacket token ≠ statusRequest := by
    intro h
    cases h
  rw [List.append_nil, answer, if_neg hother, if_pos hping] at hserver
  exact .request hserver (answers_nil _)

def asked (status : StatusText) (hello : Handshake) (request : List UInt8) (schedule : List Turn)
    : Session (server status) :=
  ((connect status schedule).send (frame hello.packet)).send (frame request)

def Replied (status : StatusText) (hello : Handshake) (request reply : List UInt8)
    (schedule : List Turn) : Prop :=
  (asked status hello request schedule).arrivals = frame reply

def replyTime (status : StatusText) (hello : Handshake) (request : List UInt8)
    (schedule : List Turn) : Nat :=
  (asked status hello request schedule).times.getLastD 0

variable {hello : Handshake} {request reply : List UInt8} {final : Phase}

theorem arrivals_asked
    (h : Answers (server status) .handshaking (frame hello.packet ++ frame request)
      [[], frame reply] final) (schedule : List Turn)
    : (asked status hello request schedule).arrivals <+: frame reply
        ∧ (Prompt schedule 2 (frame reply).length →
          Replied status hello request reply schedule) := by
  have hanswers : Answers (server status) (asked status hello request schedule).state
      (asked status hello request schedule).toServer [[], frame reply] final := h
  have hflatten : (asked status hello request schedule).toClient
      ++ [[], frame reply].flatten = frame reply := List.append_nil _
  constructor
  . have hpre := Wire.coming_isPrefix hanswers schedule
    rwa [hflatten] at hpre
  . intro hprompt
    have hall := Wire.coming_of_prompt schedule hanswers (by rwa [hflatten])
    rwa [hflatten] at hall

end Java

end McStatus
