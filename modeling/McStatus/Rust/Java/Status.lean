import McStatus.Rust.Java.Exchange

/-!
This module contains the status exchange of the `JavaClient` with a server: over every schedule it
ends with what the server has sent, or with a wait that failed.
-/

namespace McStatus

open Reader Duplex

namespace Rust

namespace Buffer

theorem readBytes_append {b : Buffer} {data rest : List UInt8} (hsize : b.data.length < 2 ^ 64)
    (hview : b.unread = data ++ rest)
    : ∃ b', readBytes data.length b = .ok data b' ∧ b'.unread = rest ∧ b'.data = b.data := by
  have hlen := congrArg List.length hview
  have hpos := b.pos_le
  rw [length_unread, List.length_append] at hlen
  have hatomic := (readsAtomically_iff b data.length).mpr
    (Or.inr (by rw [remaining] at hlen; omega))
  rcases hatomic.ok (by omega) with ⟨b', hread, hdata, hpos'⟩
  rw [hview, List.take_left] at hread
  refine ⟨b', hread, ?_, hdata⟩
  rw [unread, hdata, hpos', ← List.drop_drop]
  change b.unread.drop data.length = rest
  rw [hview, List.drop_left]

end Buffer

namespace JavaClient

theorem keeps_mapErr {σ α : Type} {I : σ → Prop} {f : IoError → McStatusError} {x : Io σ α}
    (h : Keeps I x) : Keeps I (mapErr f x) := by
  intro s hI
  have hx := h s hI
  rw [mapErr]
  split
  . next hrun => exact kept_of_ok (hx.1 _ _ hrun)
  . next hrun => exact kept_of_error (hx.2 _ _ hrun)
  . next hrun => exact kept_of_error (hx.2 _ _ hrun)

theorem keeps_ofExec {σ α : Type} {I : σ → Prop} (x : Exec α)
    : Keeps I (ofExec x : EStateM Failure σ α) := by
  cases x with
  | ok a => exact Keeps.pure a
  | error failure => exact Keeps.throw failure

theorem keeps_readBytes (data : List UInt8) (n : Nat)
    : Keeps (fun b : Buffer => b.data = data) (Buffer.readBytes n) := by
  intro b hb
  rw [Buffer.readBytes]
  split
  . exact kept_of_ok hb
  . split
    . exact kept_of_error hb
    . split
      . exact kept_of_error hb
      . exact kept_of_ok hb

theorem keeps_readVarintLoop {σ : Type} {I : σ → Prop} {read_byte : EStateM Failure σ UInt8}
    (h : Keeps I read_byte) : Keeps I (readVarintLoop read_byte) := by
  have hgo : ∀ left i result, Keeps I (readVarintLoop.go read_byte left i result) := by
    intro left
    induction left with
    | zero =>
      intro i result
      exact Keeps.throw _
    | succ left ih =>
      intro i result
      exact h.bind fun byte => Keeps.ite (Keeps.pure _) (ih _ _)
  exact hgo _ _ _

theorem keeps_readVarintFromBuffer (data : List UInt8)
    : Keeps (fun b : Buffer => b.data = data) readVarintFromBuffer :=
  keeps_readVarintLoop ((keeps_mapErr (keeps_readBytes data 1)).bind fun _ => keeps_ofExec _)

theorem readPacketId_cons {b : Buffer} {id : UInt8} {rest : List UInt8}
    (hsize : b.data.length < 2 ^ 64) (hview : b.unread = id :: rest)
    : ∃ b', readPacketId b = .ok id b' ∧ b'.unread = rest ∧ b'.data = b.data := by
  rcases @Buffer.readBytes_append b [id] rest hsize hview with ⟨b', hread, hrest⟩
  have hread : Buffer.readBytes 1 b = .ok [id] b' := hread
  refine ⟨b', ?_, hrest⟩
  rw [readPacketId, bind_of_ok (mapErr_of_ok hread)]
  rfl

theorem readVarintFromBuffer_encode {b : Buffer} {n : Nat} {rest : List UInt8} (hn : n < 2 ^ 31)
    (hsize : b.data.length + 5 < 2 ^ 64) (hview : b.unread = Varint.encode n ++ rest)
    : ∃ b', readVarintFromBuffer b = .ok (Int32.ofNat n) b' ∧ b'.unread = rest
        ∧ b'.data = b.data := by
  have hframed := Varint.framed_encode n
  have hlen := Varint.length_encode_le (n := n) (k := 5) (by decide) (hn.trans (by decide))
  have hpos := b.pos_le
  have hroom : b.pos + 5 < 2 ^ 64 := by omega
  rcases @readVarintLoop_go_cases _ _ _ _ 5 0 0 readsBytes_buffer (by decide) (by decide)
    b hroom with
      ⟨input, b', ⟨hsplit, hframed', -⟩, hloop⟩ | ⟨hnone, -⟩
  . rcases hframed.unique hframed' (hview.symm.trans hsplit) with ⟨rfl, hrest⟩
    have hzero : (0 : Int32).toUInt32.toNat = 0 := rfl
    rw [Varint.value_encode, hzero, Nat.mul_zero, Nat.pow_zero, Nat.mul_one, Nat.zero_add] at hloop
    have hread : readVarintFromBuffer b = .ok (Int32.ofNat n) b' := hloop
    exact ⟨b', hread, hrest.symm, (keeps_readVarintFromBuffer b.data b rfl).1 _ _ hread⟩
  . exact absurd ⟨hview, hframed, hlen⟩ (hnone (Varint.encode n) rest)

theorem handleStatusResponse_packet (from_str : FromStr) (start stop : Nat)
    (status : Java.StatusText)
    : ∃ b, handleStatusResponse from_str start stop (Buffer.fromBytes status.packet)
        = (ofExec (parseStatus from_str status.chars (millisecondsBetween start stop))
          : EStateM Failure Buffer JavaStatusResponse) b := by
  have htext := Java.length_text_le status.limit
  have hbytes := Java.length_encode_le status.limit
  have hlength : status.packet.length ≤ 131074 := by
    rw [Java.StatusText.packet, List.length_cons]
    omega
  have hsize : (Buffer.fromBytes status.packet).data.length ≤ 131074 := hlength
  rcases readPacketId_cons (b := Buffer.fromBytes status.packet) (by omega) rfl with
    ⟨b₁, hid, hview₁, hdata₁⟩
  rcases readVarintFromBuffer_encode (b := b₁) (by omega) (by rw [hdata₁]; omega) hview₁ with
    ⟨b₂, hvarint, hview₂, hdata₂⟩
  rcases @Buffer.readBytes_append b₂ _ [] (by rw [hdata₂, hdata₁]; omega)
    (hview₂.trans (List.append_nil _).symm) with ⟨b₃, hread, -, -⟩
  have hint := toInt_ofNat (n := (Utf8.encode status.chars).length) (by omega)
  have hnonneg : ¬ Int32.ofNat (Utf8.encode status.chars).length < 0 := by
    rw [Int32.lt_iff_toInt_lt, hint]
    exact fun hlt => absurd hlt (by simp)
  refine ⟨b₃, ?_⟩
  rw [handleStatusResponse, bind_of_ok hid, if_neg (by decide), bind_of_ok hvarint, if_neg hnonneg,
    hint, Int.toNat_natCast, bind_of_ok (mapErr_of_ok hread), Utf8.decode?_encode]

section Session

variable {S : Type} {responder : Responder S UInt8}

theorem clock_send (session : Session responder) (data : List UInt8)
    : (session.send data).clock = session.clock := rfl

theorem readStatus_eq (from_str : FromStr) (session : Session responder)
    : readStatus from_str session
        =
      (do
        let response_data ← readPacket
        let stop ← TcpSession.now
        onBuffer (handleStatusResponse from_str session.clock stop) response_data
        : EStateM Failure (Session responder) JavaStatusResponse)
        (session.send (Java.frame Java.statusRequest)) := by
  have hlen : Java.statusRequest.length < 2 ^ 31 := by decide
  rw [readStatus, bind_of_ok (writtenBy_of_writes writes_statusRequest session),
    bind_of_ok (writeFramed_eq hlen session), bind_of_ok (TcpSession.now_eq _), clock_send]

theorem onBuffer_of {α : Type} {x : EStateM Failure Buffer α} {y : Exec α} {b b' : Buffer}
    (h : x b = (ofExec y : EStateM Failure Buffer α) b') (session : Session responder)
    : onBuffer x b session = (ofExec y : EStateM Failure (Session responder) α) session := by
  rw [onBuffer, h]
  cases y <;> rfl

end Session

theorem handshake_connect (client : JavaClient) (hhost : utf8Len client.address.host ≤ 32767)
    (status : Java.StatusText) (schedule : List Turn)
    : client.handshake (Java.connect status schedule)
        = .ok () ((Java.connect status schedule).send (Java.frame (client.hello hhost).packet)) :=
  client.handshake_eq hhost _

section Status

variable (client : JavaClient) (from_str : FromStr) {status : Java.StatusText}
variable {schedule : List Turn}

theorem tryStatus_eq (hhost : utf8Len client.address.host ≤ 32767)
    : client.tryStatus from_str (Java.connect status schedule)
        =
      (do
        let response_data ← readPacket
        let stop ← TcpSession.now
        onBuffer (handleStatusResponse from_str 0 stop) response_data
        : EStateM Failure (Session (Java.server status)) JavaStatusResponse)
        (Java.asked status (client.hello hhost) Java.statusRequest schedule) := by
  rw [tryStatus, bind_of_ok (client.handshake_connect hhost status schedule), readStatus_eq]
  rfl

theorem length_statusPacket_lt (status : Java.StatusText) : status.packet.length < 2 ^ 31 := by
  have := Java.length_text_le status.limit
  rw [Java.StatusText.packet, List.length_cons]
  omega

theorem tryStatus_of_replied (hhost : utf8Len client.address.host ≤ 32767)
    (h : Java.Replied status (client.hello hhost) Java.statusRequest status.packet schedule)
    : ∃ session', client.tryStatus from_str (Java.connect status schedule)
        = (ofExec (parseStatus from_str status.chars (millisecondsBetween 0
            (Java.replyTime status (client.hello hhost) Java.statusRequest schedule)))
          : EStateM Failure (Session (Java.server status)) JavaStatusResponse) session' := by
  rcases consumes_readPacket (List.cons_ne_nil _ _) (length_statusPacket_lt status) _ []
    (h.trans (List.append_nil _).symm) with ⟨session', hread, hall⟩
  have hclock : session'.clock
      = Java.replyTime status (client.hello hhost) Java.statusRequest schedule :=
    (onward_readPacket _ _ _ hread).clock_eq hall
  rcases handleStatusResponse_packet from_str 0 session'.clock status with ⟨b, hhandle⟩
  refine ⟨session', ?_⟩
  rw [tryStatus_eq client from_str hhost, bind_of_ok hread, bind_of_ok (TcpSession.now_eq _),
    ← hclock]
  exact onBuffer_of hhandle session'

theorem tryStatus_of_not_replied (hhost : utf8Len client.address.host ≤ 32767)
    (h : ¬ Java.Replied status (client.hello hhost) Java.statusRequest status.packet schedule)
    : ∃ failure session', client.tryStatus from_str (Java.connect status schedule)
          = .error failure session'
        ∧ IsEnding failure := by
  have hpart := Java.arrivals_asked (@Java.answers_statusRequest status (client.hello hhost))
    schedule
  rcases runsOut_readPacket (List.cons_ne_nil _ _) (length_statusPacket_lt status) _ hpart.1 h with
    ⟨failure, session', herror, hending⟩
  refine ⟨failure, session', ?_, hending⟩
  rw [tryStatus_eq client from_str hhost]
  exact bind_of_error herror

theorem tryStatus_of_long (hlong : 32767 < utf8Len client.address.host)
    (session : Session (Java.server status))
    : client.tryStatus from_str session = .error (.error .io) session :=
  bind_of_error (client.handshake_of_long hlong session)

end Status

end JavaClient

end Rust

end McStatus
