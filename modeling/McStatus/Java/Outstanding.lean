import McStatus.Java.Server

/-!
This module contains what a client can still get from a server, whatever it has sent and however
much of the answers it has read: an invariant of everything that can happen to a session.
-/

namespace McStatus

namespace Java

open Duplex

def replies (status : StatusText) (phase : Phase) (packets : List (List UInt8))
    : List (List UInt8) :=
  match packets with
  | [] => []
  | packet :: packets =>
    (answer status phase packet).2 :: replies status (answer status phase packet).1 packets

def after (status : StatusText) (phase : Phase) (packets : List (List UInt8)) : Phase :=
  match packets with
  | [] => phase
  | packet :: packets => after status (answer status phase packet).1 packets

/-- `stream` is still to come, and then the server has come to `final`. -/
def Outstanding {status : StatusText} (session : Session (server status)) (stream : List UInt8)
    (final : Phase) : Prop :=
  ∃ packets, (∀ packet ∈ packets, packet.length < 2 ^ 31)
    ∧ session.toServer = packets.flatMap frame
    ∧ stream = session.ready ++ (session.toClient ++ (replies status session.state packets).flatten)
    ∧ final = after status session.state packets

variable {status : StatusText} {phase final : Phase} {packets : List (List UInt8)}
variable {session session' : Session (server status)} {packet stream : List UInt8}

theorem answers_packets (h : ∀ packet ∈ packets, packet.length < 2 ^ 31)
    : Answers (server status) phase (packets.flatMap frame) (replies status phase packets)
        (after status phase packets) := by
  induction packets generalizing phase with
  | nil => exact answers_nil phase
  | cons packet packets ih =>
    rcases List.forall_mem_cons.mp h with ⟨hpacket, hpackets⟩
    rw [List.flatMap_cons]
    exact .request (server_frame hpacket _) (ih hpackets)

theorem replies_append (packets' : List (List UInt8))
    : replies status phase (packets ++ packets')
        = replies status phase packets ++ replies status (after status phase packets) packets' := by
  induction packets generalizing phase with
  | nil => rfl
  | cons packet packets ih =>
    rw [List.cons_append, replies, replies, ih]
    rfl

theorem after_append (packets' : List (List UInt8))
    : after status phase (packets ++ packets')
        = after status (after status phase packets) packets' := by
  induction packets generalizing phase with
  | nil => rfl
  | cons packet packets ih => exact ih

namespace Outstanding

theorem connect (status : StatusText) (schedule : List Turn)
    : Outstanding (Java.connect status schedule) [] .handshaking :=
  ⟨[], by simp, rfl, rfl, rfl⟩

theorem send (h : Outstanding session stream final) (hlen : packet.length < 2 ^ 31)
    : Outstanding (session.send (frame packet)) (stream ++ (answer status final packet).2)
        (answer status final packet).1 := by
  rcases h with ⟨packets, hpackets, hserver, rfl, rfl⟩
  refine ⟨packets ++ [packet], ?_, ?_, ?_, ?_⟩
  . intro p hp
    rcases List.mem_append.mp hp with hp | hp
    . exact hpackets p hp
    . rw [List.mem_singleton.mp hp]
      exact hlen
  . rw [List.flatMap_append, List.flatMap_singleton, ← hserver]
    rfl
  . have hstate : (session.send (frame packet)).state = session.state := rfl
    have hready : (session.send (frame packet)).ready = session.ready := rfl
    have hclient : (session.send (frame packet)).toClient = session.toClient := rfl
    rw [hstate, hready, hclient, replies_append, List.flatten_append, replies, replies,
      List.flatten_singleton]
    simp only [List.append_assoc]
  . exact (after_append [packet]).symm

theorem respond (h : Outstanding session stream final)
    : Outstanding session.respond stream final := by
  rcases h with ⟨packets, hpackets, hserver, rfl, rfl⟩
  cases packets with
  | nil =>
    rw [List.flatMap_nil] at hserver
    have hnone : server status session.state session.toServer = none := by
      rw [hserver]
      exact server_nil _
    have hrespond : session.respond = session := by
      rw [Session.respond, Wire.respond_of_none hnone]
    rw [hrespond]
    exact ⟨[], by simp, hserver, rfl, rfl⟩
  | cons packet packets =>
    rcases List.forall_mem_cons.mp hpackets with ⟨hpacket, hrest⟩
    rw [List.flatMap_cons] at hserver
    have hsome := @server_frame status session.state _ hpacket
      (packets.flatMap frame)
    rw [← hserver] at hsome
    refine ⟨packets, hrest, ?_, ?_, ?_⟩
    . rw [Session.respond, Wire.respond_of_some hsome]
    . rw [Session.respond, Wire.respond_of_some hsome, replies, List.flatten_cons]
      simp only [List.append_assoc]
    . rw [Session.respond, Wire.respond_of_some hsome, after]

theorem step (hstep : Session.Step session session') (h : Outstanding session stream final)
    : ∃ stream', stream' <:+ stream ∧ Outstanding session' stream' final := by
  cases hstep with
  | respond => exact ⟨stream, List.suffix_refl _, h.respond⟩
  | deliver size =>
    rcases h with ⟨packets, hpackets, hserver, rfl, rfl⟩
    refine ⟨_, List.suffix_refl _, packets, hpackets, hserver, ?_, rfl⟩
    change _ = (session.ready ++ session.toClient.take size)
      ++ (session.toClient.drop size ++ (replies status session.state packets).flatten)
    rw [List.append_assoc, ← List.append_assoc (session.toClient.take size),
      List.take_append_drop]
  | wait => exact ⟨stream, List.suffix_refl _, h⟩
  | schedules => exact ⟨stream, List.suffix_refl _, h⟩
  | take n =>
    rcases h with ⟨packets, hpackets, hserver, rfl, rfl⟩
    refine ⟨_, ⟨session.ready.take n, ?_⟩, packets, hpackets, hserver, rfl, rfl⟩
    rw [← List.append_assoc, List.take_append_drop]

theorem arrivals_isPrefix (h : Outstanding session stream final) : session.arrivals <+: stream := by
  rcases h with ⟨packets, hpackets, hserver, rfl, rfl⟩
  have hanswers := @answers_packets status session.state _ hpackets
  rw [← hserver] at hanswers
  rw [Session.arrivals, List.prefix_append_right_inj]
  exact Wire.coming_isPrefix hanswers session.schedule

end Outstanding

end Java

end McStatus
