import McStatus.Python.Io.Connection
import McStatus.Python.Java.Client

/-!
This module contains a TCP connection to a server that answers the ping packets it gets in order.
Both directions are streams of bytes, and what happens while the client waits for data is up to a
schedule.
-/

namespace McStatus

open Reader

namespace Python

/-- A byte from the server, and the number of the ping packet it belongs to the reply to. -/
structure ReplyByte where
  answers : Nat
  byte : UInt8
  deriving DecidableEq, Repr

inductive Event where
  /-- The server takes a packet, if there is a whole one, and answers it if it is a ping. -/
  | answer
  | wait (seconds : Rat)
  /-- `recv` returns up to `size + 1` bytes, if there are any. -/
  | deliver (size : Nat)
  /-- `recv` raises `TimeoutError`. -/
  | timeOut
  /-- The server has closed the connection, and `recv` returns no bytes. -/
  | close

structure Link where
  toServer : List UInt8
  toClient : List ReplyByte
  received : List ReplyByte
  answered : Nat
  clock : Rat
  schedule : List Event

namespace Link

def connect (schedule : List Event) : Link where
  toServer := []
  toClient := []
  received := []
  answered := 0
  clock := 0
  schedule := schedule

/-- The reply to the ping packet with number `answers`: the same packet. -/
def reply (answers : Nat) (packet : List UInt8) : List ReplyByte :=
  (Java.frame packet).map (ReplyByte.mk answers)

def isPing (packet : List UInt8) : Bool :=
  packet.head? == some 1

def answer (link : Link) : Link :=
  match BaseSyncReader.readBytearray (Buffer.ofBytes link.toServer) with
  | .ok packet b =>
    if isPing packet then
      { link with
        toServer := b.unreadView
        toClient := link.toClient ++ reply link.answered packet
        answered := link.answered + 1 }
    else
      { link with toServer := b.unreadView }
  | .error _ _ => link

def wait (link : Link) (seconds : Rat) : Link :=
  { link with clock := link.clock + seconds }

def deliver (link : Link) (size : Nat) : Link :=
  { link with
    toClient := link.toClient.drop size
    received := link.received ++ link.toClient.take size }

def schedules (link : Link) (schedule : List Event) : Link :=
  { link with schedule }

def recv (n : Nat) : Py Link (List UInt8) := fun link =>
  go link.schedule link
where
  go (events : List Event) (link : Link) : EStateM.Result Exception Link (List UInt8) :=
    match events with
    | [] => .error (.osError .timedOut) (link.schedules [])
    | .answer :: events => go events link.answer
    | .wait seconds :: events => go events (link.wait seconds)
    | .timeOut :: events => .error (.osError .timedOut) (link.schedules events)
    | .close :: events => .ok [] (link.schedules events)
    | .deliver size :: events =>
      let size := min (size + 1) n
      if (link.toClient.take size).isEmpty then
        go events link
      else
        .ok ((link.toClient.take size).map ReplyByte.byte) ((link.deliver size).schedules events)

def sendall (data : List UInt8) : Py Link Unit :=
  modify fun link => { link with toServer := link.toServer ++ data }

inductive Step : Link → Link → Prop where
  | answer (link : Link) : Step link link.answer
  | wait (link : Link) (seconds : Rat) : Step link (link.wait seconds)
  | deliver (link : Link) (size : Nat) : Step link (link.deliver size)
  | schedules (link : Link) (schedule : List Event) : Step link (link.schedules schedule)

theorem received_answer (link : Link) : link.answer.received = link.received := by
  unfold answer
  split
  . split <;> rfl
  . rfl

theorem keeps_recv {I : Link → Prop} (hstep : ∀ link link', Step link link' → I link → I link')
    (n : Nat) : Keeps I (recv n) := by
  have hgo : ∀ events link, I link →
      (∀ data link', recv.go n events link = .ok data link' → I link')
        ∧ ∀ e link', recv.go n events link = .error e link' → I link' := by
    intro events link hI
    fun_induction recv.go n events link with
    | case1 link =>
      constructor
      . intro data link' h
        cases h
      . intro e link' h
        cases h
        exact hstep _ _ (.schedules link []) hI
    | case2 link events ih => exact ih (hstep _ _ (.answer link) hI)
    | case3 link seconds events ih => exact ih (hstep _ _ (.wait link seconds) hI)
    | case4 link events =>
      constructor
      . intro data link' h
        cases h
      . intro e link' h
        cases h
        exact hstep _ _ (.schedules link events) hI
    | case5 link events =>
      constructor
      . intro data link' h
        cases h
        exact hstep _ _ (.schedules link events) hI
      . intro e link' h
        cases h
    | case6 link size events size' hempty ih => exact ih hI
    | case7 link size events size' hdata =>
      constructor
      . intro data link' h
        cases h
        exact hstep _ _ (.schedules _ events) (hstep _ _ (.deliver link _) hI)
      . intro e link' h
        cases h
  intro link hI
  exact hgo link.schedule link hI

theorem recv_eq_ok {n : Nat} {link link' : Link} {data : List UInt8}
    (h : recv n link = .ok data link')
    : link'.schedule.length < link.schedule.length
        ∧ ∃ chunk, data = chunk.map ReplyByte.byte ∧ chunk.length ≤ n
            ∧ link'.received = link.received ++ chunk := by
  rw [recv] at h
  generalize link.schedule = events at h ⊢
  fun_induction recv.go n events link with
  | case1 link => cases h
  | case2 link events ih =>
    rcases ih h with ⟨hlt, chunk, hdata, hlen, hreceived⟩
    rw [received_answer] at hreceived
    exact ⟨Nat.lt_succ_of_lt hlt, chunk, hdata, hlen, hreceived⟩
  | case3 link seconds events ih =>
    rcases ih h with ⟨hlt, hchunk⟩
    exact ⟨Nat.lt_succ_of_lt hlt, hchunk⟩
  | case4 link events => cases h
  | case5 link events =>
    cases h
    exact ⟨Nat.lt_succ_self _, [], rfl, Nat.zero_le n, (List.append_nil _).symm⟩
  | case6 link size events size' hempty ih =>
    rcases ih h with ⟨hlt, hchunk⟩
    exact ⟨Nat.lt_succ_of_lt hlt, hchunk⟩
  | case7 link size events size' hdata =>
    cases h
    refine ⟨Nat.lt_succ_self _, link.toClient.take size', rfl, ?_, rfl⟩
    rw [List.length_take]
    omega
instance : Socket Link where
  recv := recv
  sendall := sendall
  available link := link.schedule.length
  available_lt h _ := (recv_eq_ok h).1

instance : BaseSyncReader Link where
  read := TCPSocketConnection.read
  available link := link.schedule.length
  available_lt := TCPSocketConnection.available_lt_of_read

instance : BaseSyncWriter Link where
  write := TCPSocketConnection.write

instance : Clock Link where
  perfCounter := fun link => .ok link.clock link

theorem perfCounter_eq (link : Link)
    : (Clock.perfCounter : Py Link Rat) link = .ok link.clock link :=
  rfl

instance : LawfulWriter Link where
  append link bytes := { link with toServer := link.toServer ++ bytes }
  write_eq _ _ := rfl
  append_append link bytes bytes' := by simp
  append_nil link := by simp

theorem readLoop_eq_ok {missing : Nat} {link link' : Link} {data : List UInt8}
    (h : TCPSocketConnection.readLoop missing link = .ok data link')
    : data.length = missing
        ∧ link'.received.map ReplyByte.byte = link.received.map ReplyByte.byte ++ data := by
  induction missing using Nat.strongRecOn generalizing link link' data with
  | ind missing ih =>
    unfold TCPSocketConnection.readLoop at h
    split at h
    . next hzero =>
      cases h
      exact ⟨hzero.symm, (List.append_nil _).symm⟩
    . rcases bind_eq_ok.mp h with ⟨new, t, hrecv, h⟩
      rcases (recv_eq_ok hrecv).2 with ⟨chunk, rfl, hlen, hreceived⟩
      split at h
      . cases h
      . next hmissing hnew =>
        rw [List.length_map] at hnew h
        rcases bind_eq_ok.mp h with ⟨rest, u, hrest, hpure⟩
        cases hpure
        rcases ih _ (by omega) hrest with ⟨hlen', hreceived'⟩
        constructor
        . rw [List.length_append, List.length_map, hlen']
          omega
        . rw [hreceived', hreceived, List.map_append, List.append_assoc]

instance : RecordingReader Link where
  record link := link.received.map ReplyByte.byte
  record_of_read h := readLoop_eq_ok h

def replies (packets : List (List UInt8)) : List ReplyByte :=
  ((packets.filter isPing).zipIdx).flatMap fun (packet, answers) => reply answers packet

/-- The client has sent `packets`, and nothing was lost or added on the way there or back. -/
def Flow (packets : List (List UInt8)) (link : Link) : Prop :=
  ∃ taken waiting, packets = taken ++ waiting
    ∧ link.toServer = waiting.flatMap Java.frame
    ∧ link.received ++ link.toClient = replies taken
    ∧ link.answered = (taken.filter isPing).length

theorem replies_append (packets packets' : List (List UInt8))
    : replies (packets ++ packets')
        =
      replies packets ++ ((packets'.filter isPing).zipIdx (packets.filter isPing).length).flatMap
        fun (packet, answers) => reply answers packet := by
  rw [replies, List.filter_append, List.zipIdx_append, List.flatMap_append, Nat.zero_add]
  rfl

theorem flow_connect (schedule : List Event) : Flow [] (connect schedule) :=
  ⟨[], [], rfl, rfl, rfl, rfl⟩

theorem readBytearray_frame {packet rest : List UInt8} (h : packet.length < 2 ^ 31)
    : ∃ b : Buffer, BaseSyncReader.readBytearray (Buffer.ofBytes (Java.frame packet ++ rest))
          = .ok packet b
        ∧ b.unreadView = rest :=
  consumes_readBytearray h _ rest rfl

theorem readBytearray_nil
    : ∃ e b, BaseSyncReader.readBytearray (Buffer.ofBytes []) = .error e b :=
  ⟨_, _, rfl⟩

theorem Flow.answer {packets : List (List UInt8)} {link : Link}
    (hlen : ∀ packet ∈ packets, packet.length < 2 ^ 31) (h : Flow packets link)
    : Flow packets link.answer := by
  rcases h with ⟨taken, waiting, hpackets, hserver, hclient, hanswered⟩
  cases waiting with
  | nil =>
    rw [List.flatMap_nil] at hserver
    rcases readBytearray_nil with ⟨e, b, hread⟩
    rw [Link.answer, hserver, hread]
    exact ⟨taken, [], hpackets, hserver, hclient, hanswered⟩
  | cons packet waiting =>
    have hpacket : packet.length < 2 ^ 31 := by
      apply hlen
      rw [hpackets]
      simp
    rw [List.flatMap_cons] at hserver
    rcases @readBytearray_frame packet (waiting.flatMap Java.frame) hpacket with ⟨b, hread, hrest⟩
    rw [Link.answer, hserver, hread]
    dsimp only
    refine ⟨taken ++ [packet], waiting, by rw [hpackets, List.append_assoc]; rfl, ?_⟩
    rw [replies_append, List.filter_append, List.length_append]
    by_cases hping : isPing packet
    . rw [if_pos hping, List.filter_cons_of_pos hping]
      refine ⟨hrest, ?_, by rw [hanswered]; rfl⟩
      dsimp only
      rw [← List.append_assoc, hclient, hanswered]
      simp
    . rw [if_neg hping, List.filter_cons_of_neg hping]
      refine ⟨hrest, ?_, by rw [hanswered]; rfl⟩
      rw [hclient]
      simp

theorem Flow.step {packets : List (List UInt8)} {link link' : Link}
    (hlen : ∀ packet ∈ packets, packet.length < 2 ^ 31) (hstep : Step link link')
    (h : Flow packets link) : Flow packets link' := by
  cases hstep with
  | answer => exact h.answer hlen
  | wait => exact h
  | deliver size =>
    rcases h with ⟨taken, waiting, hpackets, hserver, hclient, hanswered⟩
    refine ⟨taken, waiting, hpackets, hserver, ?_, hanswered⟩
    rw [← hclient, Link.deliver]
    dsimp only
    rw [List.append_assoc, List.take_append_drop]
  | schedules => exact h

theorem Flow.received_start {packets : List (List UInt8)} {link : Link} (h : Flow packets link)
    : link.received <+: replies packets := by
  rcases h with ⟨taken, waiting, rfl, -, hclient, -⟩
  rw [replies_append, ← hclient, List.append_assoc]
  exact List.prefix_append _ _

theorem Flow.append {packets : List (List UInt8)} {link : Link} (h : Flow packets link)
    (packet : List UInt8)
    : Flow (packets ++ [packet]) (LawfulWriter.append link (Java.frame packet)) := by
  rcases h with ⟨taken, waiting, rfl, hserver, hclient, hanswered⟩
  refine ⟨taken, waiting ++ [packet], List.append_assoc _ _ _, ?_, hclient, hanswered⟩
  rw [List.flatMap_append, List.flatMap_singleton, ← hserver]
  rfl

end Link

end Python

end McStatus
