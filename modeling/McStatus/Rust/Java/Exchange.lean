import McStatus.Java.Server
import McStatus.Library.Attempts
import McStatus.Rust.Io.AtomicReads
import McStatus.Rust.Io.RoundTrip
import McStatus.Rust.Java.Client
import McStatus.Rust.Java.Varint

/-!
This module contains what the `JavaClient` writes to a session, and what it reads from one: its
answers depend on the bytes that arrive and not on how they do.
-/

namespace McStatus

open Reader Duplex

namespace Rust

theorem ofExec_eq_ok {σ α : Type} {x : Exec α} {s s' : σ} {a : α}
    (h : (ofExec x : EStateM Failure σ α) s = .ok a s') : x = .ok a ∧ s = s' := by
  cases x with
  | ok b =>
    cases h
    exact ⟨rfl, rfl⟩
  | error failure => cases h

theorem ofExec_eq_error {σ α : Type} {x : Exec α} {s s' : σ} {failure : Failure}
    (h : (ofExec x : EStateM Failure σ α) s = .error failure s') : x = .error failure := by
  cases x with
  | ok b => cases h
  | error failure' =>
    cases h
    rfl

theorem writtenBy_of_writes {σ : Type} {x : Io Buffer Unit} {bytes : List UInt8}
    (h : Writes x bytes)
    (s : σ) : writtenBy x s = .ok bytes s := by
  rw [writtenBy, h]
  rfl

theorem signedVarint_natCast {n : Nat} (h : n < 2 ^ 31) : signedVarint 32 n = Varint.encode n := by
  have hmod : ((n : Int) % 2 ^ 32).toNat = n := by omega
  rw [signedVarint, hmod]

theorem writes_writeMcBytearray_frame {packet : List UInt8} (h : packet.length < 2 ^ 31)
    : Writes (writeMcBytearray packet) (Java.frame packet) := by
  have hwrite := writes_writeMcBytearray packet
  rwa [toInt_lenAsI32 (by omega), signedVarint_natCast h] at hwrite

theorem writes_writeMcUtf_text {value : List Char} (h : utf8Len value ≤ 32767)
    : Writes (writeMcUtf value) (Java.text value) := by
  have hlen : (Utf8.encode value).length ≤ 32767 := (Utf8.length_encode value).trans_le h
  have hwrite := writes_writeMcUtf h
  rwa [toInt_lenAsI32 (by omega), signedVarint_natCast (by omega)] at hwrite

theorem writes_writeUshort (value : UInt16)
    : Writes (Buffer.writeUshort value) (BigEndian.encode 2 value.toNat) :=
  fun _ => rfl

theorem writes_writeUlonglong (value : UInt64)
    : Writes (Buffer.writeUlonglong value) (BigEndian.encode 8 value.toNat) :=
  fun _ => rfl

theorem writes_writeVarint_small {value : Int32} {n : Nat} (hvalue : value.toInt = n) (h : n < 128)
    : Writes (writeVarint value) [UInt8.ofNat n] := by
  have hwrite := writes_writeVarint value
  rwa [hvalue, signedVarint_natCast (by omega), Varint.encode, if_pos h] at hwrite

/-! What can be read from a session. -/

section Read

variable {S : Type} {responder : Responder S UInt8}

def IsEnding (failure : Failure) : Prop :=
  ∃ ending, failure = .error (TcpSession.failureOf ending)

namespace TcpSession

theorem now_eq (session : Session responder)
    : (now : EStateM Failure (Session responder) Nat) session = .ok session.clock session :=
  rfl

theorem readExact_of_le {session : Session responder} {n : Nat} (h : n ≤ session.arrivals.length)
    : ∃ session', readExact n session = .ok (session.arrivals.take n) session'
        ∧ session'.arrivals = session.arrivals.drop n := by
  have hfilled := session.filled_fill n
  rw [readExact]
  cases hfill : session.fill n with
  | error ending session' =>
    rw [hfill] at hfilled
    cases hfilled with
    | short hlt => omega
  | ok data session' =>
    rw [hfill] at hfilled
    cases hfilled with
    | full hlen harrivals =>
      rw [harrivals, List.take_left' hlen, List.drop_left' hlen]
      exact ⟨session', rfl, rfl⟩

theorem readExact_of_lt {session : Session responder} {n : Nat} (h : session.arrivals.length < n)
    : ∃ failure session', readExact n session = .error failure session' ∧ IsEnding failure := by
  have hfilled := session.filled_fill n
  rw [readExact]
  cases hfill : session.fill n with
  | error ending session' => exact ⟨_, session', rfl, ending, rfl⟩
  | ok data session' =>
    rw [hfill] at hfilled
    cases hfilled with
    | full hlen harrivals =>
      rw [harrivals, List.length_append] at h
      omega

theorem consumes_readExact (input : List UInt8)
    : Consumes Session.arrivals
        (readExact input.length : EStateM Failure (Session responder) (List UInt8))
        input input := by
  intro session rest harrivals
  rcases @readExact_of_le S responder session input.length (by simp [harrivals]) with
    ⟨session', hread, hrest⟩
  rw [harrivals, List.take_left] at hread
  rw [harrivals, List.drop_left] at hrest
  exact ⟨session', hread, hrest⟩

theorem runsOut_readExact (input : List UInt8)
    : RunsOut Session.arrivals IsEnding
        (readExact input.length : EStateM Failure (Session responder) (List UInt8)) input := by
  intro session hpart hne
  have hle := hpart.length_le
  have hlen : session.arrivals.length ≠ input.length := fun heq => hne (hpart.eq_of_length heq)
  exact readExact_of_lt (by omega)

theorem delimited_readExact (n : Nat)
    : Delimited Session.arrivals IsEnding
        (readExact n : EStateM Failure (Session responder) (List UInt8)) := by
  intro session data session' h
  rcases Nat.lt_or_ge session.arrivals.length n with hlt | hle
  . rcases readExact_of_lt hlt with ⟨failure, t, herror, -⟩
    rw [h] at herror
    cases herror
  . rcases readExact_of_le hle with ⟨t, hok, hrest⟩
    rw [h, EStateM.Result.ok.injEq] at hok
    rcases hok with ⟨rfl, rfl⟩
    have hlen : (session.arrivals.take n).length = n := List.length_take_of_le hle
    refine ⟨session.arrivals.take n, by rw [hrest, List.take_append_drop], ?_, ?_⟩
    . have hconsumes := @consumes_readExact S responder (session.arrivals.take n)
      rwa [hlen] at hconsumes
    . have hout := @runsOut_readExact S responder (session.arrivals.take n)
      rwa [hlen] at hout

theorem onward_readExact (n : Nat)
    : Session.Onward (readExact n : EStateM Failure (Session responder) (List UInt8)) := by
  intro session data session' h
  have hfilled := session.filled_fill n
  rw [readExact] at h
  split at h
  . next hfill =>
    cases h
    rw [hfill] at hfilled
    cases hfilled with
    | full hlen harrivals hending hlater => exact hlater
  . cases h

theorem onward_readByte
    : Session.Onward (readByte : EStateM Failure (Session responder) UInt8) := by
  refine (onward_readExact 1).bind fun bytes => ?_
  cases index bytes 0 with
  | ok byte => exact Session.Onward.pure byte
  | error failure => exact Session.Onward.throw failure

theorem delimited_readByte
    : Delimited Session.arrivals IsEnding
        (readByte : EStateM Failure (Session responder) UInt8) := by
  refine (delimited_readExact 1).bind fun bytes => ?_
  cases index bytes 0 with
  | ok byte => exact Delimited.pure byte
  | error failure => exact Delimited.throw failure

theorem consumes_readByte (b : UInt8)
    : Consumes Session.arrivals (readByte : EStateM Failure (Session responder) UInt8) [b] b := by
  refine (consumes_readExact [b]).bind_done ?_
  exact Consumes.pure b

theorem readsBytes
    : ReadsBytes (fun _ _ => True) Session.arrivals
        (readByte : EStateM Failure (Session responder) UInt8) where
  ok_of_cons := by
    intro n session b rest _ harrivals
    rcases consumes_readByte b session rest harrivals with ⟨session', hread, hrest⟩
    exact ⟨session', hread, hrest, trivial⟩
  error_of_nil := by
    intro n session _ harrivals
    rcases runsOut_readExact [0] session (by simp [harrivals]) (by simp [harrivals]) with
      ⟨failure, session', herror, ending, rfl⟩
    exact ⟨_, session', bind_of_error herror⟩

end TcpSession

end Read

namespace JavaClient

def hello (client : JavaClient) (h : utf8Len client.address.host ≤ 32767) : Java.Handshake where
  version := client.version.toInt
  host := client.address.host
  port := client.address.port.toNat
  version_valid := ⟨client.version.le_toInt, client.version.toInt_lt⟩
  host_valid := (length_le_utf8Len _).trans h
  port_valid := client.address.port.toNat_lt

theorem writes_handshakePacket (client : JavaClient) (h : utf8Len client.address.host ≤ 32767)
    : Writes client.handshakePacket (client.hello h).packet := by
  have hid : Writes (writeVarint 0) [0] := writes_writeVarint_small rfl (by decide : 0 < 128)
  have hnext : Writes (writeVarint 1) [1] := writes_writeVarint_small rfl (by decide : 1 < 128)
  refine hid.bind ((writes_writeVarint client.version).bind ?_)
  exact (writes_writeMcUtf_text h).bind ((writes_writeUshort client.address.port).bind hnext)

theorem writes_statusRequest : Writes statusRequest Java.statusRequest :=
  writes_writeVarint_small rfl (by decide : 0 < 128)

theorem writes_pingRequest (client : JavaClient)
    : Writes client.pingRequest (Java.pingPacket client.ping_token.toUInt64.toNat) := by
  have hid : Writes (writeVarint 1) [1] := writes_writeVarint_small rfl (by decide : 1 < 128)
  exact hid.bind (writes_writeUlonglong client.ping_token.toUInt64)

section Session

variable {S : Type} {responder : Responder S UInt8}

theorem writeFramed_eq {packet : List UInt8} (h : packet.length < 2 ^ 31)
    (session : Session responder)
    : writeFramed packet session = .ok () (session.send (Java.frame packet)) := by
  rw [writeFramed, bind_of_ok (writtenBy_of_writes (writes_writeMcBytearray_frame h) session)]
  rfl

theorem handshake_eq (client : JavaClient) (h : utf8Len client.address.host ≤ 32767)
    (session : Session responder)
    : client.handshake session = .ok () (session.send (Java.frame (client.hello h).packet)) := by
  rw [handshake, bind_of_ok (writtenBy_of_writes (client.writes_handshakePacket h) session)]
  exact writeFramed_eq (client.hello h).length_packet_le session

theorem writeMcUtf_of_long {value : List Char} (h : 32767 < utf8Len value) (b : Buffer)
    : ∃ e, writeMcUtf value b = .error (.error e) b := by
  rw [writeMcUtf, if_pos h]
  exact ⟨_, rfl⟩

theorem handshakePacket_of_long (client : JavaClient) (h : 32767 < utf8Len client.address.host)
    : ∃ e b, client.handshakePacket Buffer.new = .error (.error e) b := by
  rw [handshakePacket, bind_of_ok (writes_writeVarint 0 _),
    bind_of_ok (writes_writeVarint client.version _)]
  rcases writeMcUtf_of_long h
    ((Buffer.new.extendFromSlice (signedVarint 32 (Int32.toInt 0))).extendFromSlice
      (signedVarint 32 client.version.toInt)) with ⟨e, herror⟩
  exact ⟨e, _, bind_of_error herror⟩

theorem handshake_of_long (client : JavaClient) (h : 32767 < utf8Len client.address.host)
    (session : Session responder) : client.handshake session = .error (.error .io) session := by
  rcases client.handshakePacket_of_long h with ⟨e, b, hpacket⟩
  rw [handshake]
  apply bind_of_error
  rw [writtenBy, hpacket]
  rfl

theorem toInt_ofNat {n : Nat} (h : n < 2 ^ 31) : (Int32.ofNat n).toInt = n :=
  Int32.toInt_ofNat_of_lt h

theorem delimited_readVarintLoop {σ : Type} {view : σ → List UInt8} {eof : Failure → Prop}
    {read_byte : EStateM Failure σ UInt8} (h : Delimited view eof read_byte)
    : Delimited view eof (readVarintLoop read_byte) := by
  have hgo : ∀ left i result, Delimited view eof (readVarintLoop.go read_byte left i result) := by
    intro left
    induction left with
    | zero =>
      intro i result
      exact Delimited.throw _
    | succ left ih =>
      intro i result
      exact h.bind fun byte => Delimited.ite (Delimited.pure _) (ih _ _)
  exact hgo _ _ _

theorem consumes_readVarintLoop {σ : Type} {view : σ → List UInt8}
    {read_byte : EStateM Failure σ UInt8} (h : ReadsBytes (fun _ _ => True) view read_byte)
    {n : Nat}
    (hn : n < 2 ^ 31)
    : Consumes view (readVarintLoop read_byte) (Varint.encode n) (Int32.ofNat n) := by
  intro s rest hview
  have hframed := Varint.framed_encode n
  have hlen := Varint.length_encode_le (n := n) (k := 5) (by decide) (hn.trans (by decide))
  rcases @readVarintLoop_go_cases σ (fun _ _ => True) view read_byte 5 0 0 h (by decide) (by decide)
      s trivial with ⟨input, s', ⟨hsplit, hframed', -⟩, hloop⟩ | ⟨hnone, -⟩
  . rcases hframed.unique hframed' (hview.symm.trans hsplit) with ⟨rfl, hrest⟩
    refine ⟨s', ?_, hrest.symm⟩
    have hzero : (0 : Int32).toUInt32.toNat = 0 := rfl
    rw [readVarintLoop, hloop, Varint.value_encode, hzero, Nat.mul_zero, Nat.pow_zero, Nat.mul_one,
      Nat.zero_add]
  . exact absurd ⟨hview, hframed, hlen⟩ (hnone (Varint.encode n) rest)

theorem onward_readPacket
    : Session.Onward (readPacket : EStateM Failure (Session responder) Buffer) := by
  have hgo : ∀ left i result, Session.Onward
      (readVarintLoop.go TcpSession.readByte left i result
        : EStateM Failure (Session responder) Int32) := by
    intro left
    induction left with
    | zero =>
      intro i result
      exact .throw _
    | succ left ih =>
      intro i result
      exact TcpSession.onward_readByte.bind fun byte => .ite (.pure _) (ih _ _)
  refine Session.Onward.bind (hgo _ _ _) fun length => .ite (.throw _) ?_
  exact (TcpSession.onward_readExact _).bind fun data => .pure _

theorem delimited_readPacket
    : Delimited Session.arrivals IsEnding
        (readPacket : EStateM Failure (Session responder) Buffer) := by
  refine (delimited_readVarintLoop TcpSession.delimited_readByte).bind fun length => ?_
  refine Delimited.ite (Delimited.throw _) ?_
  exact (TcpSession.delimited_readExact _).bind fun data => Delimited.pure _

theorem consumes_readPacket {packet : List UInt8} (hne : packet ≠ []) (h : packet.length < 2 ^ 31)
    : Consumes Session.arrivals (readPacket : EStateM Failure (Session responder) Buffer)
        (Java.frame packet) (Buffer.fromBytes packet) := by
  have hpos := List.length_pos_iff.mpr hne
  have hint := toInt_ofNat h
  refine (consumes_readVarintLoop TcpSession.readsBytes h).bind ?_
  have hle : ¬ Int32.ofNat packet.length ≤ 0 := by
    rw [Int32.le_iff_toInt_le, hint]
    exact fun hle => absurd hle (by simp; omega)
  rw [if_neg hle, hint]
  exact (TcpSession.consumes_readExact packet).bind_done (Consumes.pure _)

theorem runsOut_readPacket {packet : List UInt8} (hne : packet ≠ []) (h : packet.length < 2 ^ 31)
    : RunsOut Session.arrivals IsEnding
        (readPacket : EStateM Failure (Session responder) Buffer) (Java.frame packet) := by
  intro session
  have hout := delimited_readPacket.runsOut (consumes_readPacket hne h)
    (session.arrivals_arrived (Java.frame packet))
  exact hout session

end Session

end JavaClient

end Rust

end McStatus
