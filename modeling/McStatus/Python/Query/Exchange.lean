import McStatus.Library.Mirror
import McStatus.Python.Bedrock.Reply
import McStatus.Python.Query.Client
import McStatus.Python.Query.RoundTrip
import McStatus.Query.Server

/-!
This module shows what the attempts of the query client of `mcstatus/server.py` get from a server on
a network that loses datagrams, repeats them and brings them in any order.
-/

namespace McStatus

open Reader

namespace Python

open Fallible (ok_bind)
open Query (Gs4 challengeRequest statRequest)

theorem intBase10_sign {sign : Char} {digits : List Char} {n : Nat}
    (hsign : sign = '-' ∨ sign = '+')
    (hread : Numeral.nat? 10 digits = some n) (hfew : digits.length ≤ maxStrDigits)
    : intBase10 (sign :: digits) = .ok (if sign = '-' then -(n : Int) else n) := by
  rcases Numeral.nat?_eq_some_iff.mp hread with ⟨hne, hfrom⟩
  have hdigit := Numeral.isDigit_of_readFrom hfrom
  have hspace : ∀ c ∈ sign :: digits, isIntSpace c = false := by
    intro c hc
    rcases List.mem_cons.mp hc with rfl | hc
    . rcases hsign with rfl | rfl
      . decide
      . decide
    . exact isIntSpace_of_isDigit (hdigit c hc)
  have hstrip : strip isIntSpace (sign :: digits) = sign :: digits := by
    apply strip_eq_self
    . exact fun c hc => hspace c (List.mem_of_mem_head? hc)
    . exact fun c hc => hspace c (List.mem_of_mem_getLast? hc)
  have hgroups : digits.splitOn '_' = [digits] := by
    apply List.splitOn_eq_singleton
    exact fun hmem => absurd (hdigit _ hmem) (by decide)
  rcases mapM_decimalDigit? hfrom with ⟨values, hmap, hlength, hfold⟩
  have hfew' : ¬ maxStrDigits < values.length := by omega
  rcases hsign with rfl | rfl
  . rw [intBase10, hstrip]
    split
    next factor body hbody =>
    cases hbody
    rw [hgroups]
    simp [hmap, hfold, hne, hfew']
  . rw [intBase10, hstrip]
    split
    next factor body hbody =>
    cases hbody
    rw [hgroups]
    simp [hmap, hfold, hne, hfew']

theorem intBase10_decimal {n : Int} (h : (Nat.toDigits 10 n.natAbs).length ≤ maxStrDigits)
    : intBase10 (Numeral.decimal n) = .ok n := by
  have hread := Numeral.nat?_toDigits n.natAbs
  rw [Numeral.decimal]
  by_cases hneg : n < 0
  . have hvalue : -(n.natAbs : Int) = n := by omega
    rw [if_pos hneg, intBase10_sign (Or.inl rfl) hread h, if_pos rfl, hvalue]
  . have hvalue : (n.natAbs : Int) = n := by omega
    rw [if_neg hneg, intBase10_of_nat? hread, if_neg (Nat.not_lt.mpr h), hvalue]

namespace UDPSocketConnection

variable {connection connection' : UDPSocketConnection} {data response : List UInt8} {length : Nat}

/-- `connection` has received something more since it was `before`, at most. -/
def OnlyReceived (before connection : UDPSocketConnection) : Prop :=
  connection.sendings = before.sendings ∧ connection.sent = before.sent
    ∧ connection.received = before.received

theorem onlyReceived_of_readStep {next : Unit ⊕ List UInt8}
    (h : readStep () connection = .ok next connection') : OnlyReceived connection connection' := by
  rcases bind_eq_ok.mp h with ⟨result, middle, hrecvfrom, hreturn⟩
  have hmiddle : OnlyReceived connection middle := by
    rw [recvfrom] at hrecvfrom
    split at hrecvfrom
    . cases hrecvfrom
    . cases hrecvfrom
    . cases hrecvfrom
      exact ⟨rfl, rfl, rfl⟩
  split at hreturn
  . cases hreturn
    exact hmiddle
  . cases hreturn
    exact hmiddle

theorem OnlyReceived.trans {before : UDPSocketConnection} (h : OnlyReceived before connection)
    (h' : OnlyReceived connection connection') : OnlyReceived before connection' :=
  ⟨h'.1.trans h.1, h'.2.1.trans h.2.1, h'.2.2.trans h.2.2⟩

theorem read_logged (h : read length connection = .ok response connection')
    : connection'.sent = connection.sent
        ∧ connection'.received = connection.received ++ [response] := by
  rcases bind_eq_ok.mp h with ⟨result, middle, hloop, hlog⟩
  cases hlog
  have hkept : OnlyReceived connection middle := loop_ok
    (fun _ c => OnlyReceived connection c) (fun _ c => OnlyReceived connection c)
    (fun _ _ _ _ hc hstep => hc.trans (onlyReceived_of_readStep hstep))
    (fun _ _ _ _ hc hstep => hc.trans (onlyReceived_of_readStep hstep))
    ⟨rfl, rfl, rfl⟩ hloop
  exact ⟨hkept.2.1, congrArg (· ++ [response]) hkept.2.2⟩

theorem read_of_receipts {n : Nat} {receipts : List (Except Exception (List UInt8))}
    (hreceipts : connection.receipts = List.replicate n (.ok []) ++ .ok data :: receipts)
    (hne : data ≠ [])
    : read length connection = .ok (data.take remaining) { connection with
        receipts := receipts
        received := connection.received ++ [data.take remaining]
      } := by
  have hloop : loop (fun connection => connection.receipts.length) readStep
      (fun _ _ _ _ h => readStep_lt h) () connection
      = .ok (data.take remaining) { connection with receipts } := by
    induction n generalizing connection with
    | zero =>
      have hlen : (data.take remaining).length ≠ 0 := by
        have := List.length_pos_iff.mpr hne
        rw [List.length_take, remaining]
        omega
      refine loop_break ?_
      have hrecvfrom : recvfrom remaining connection
          = .ok (data.take remaining) { connection with receipts } := by
        rw [recvfrom, hreceipts]
        rfl
      rw [readStep, bind_of_ok hrecvfrom, if_neg hlen]
      rfl
    | succ n ih =>
      have hrecvfrom : recvfrom remaining connection
          = .ok [] { connection with
            receipts := List.replicate n (.ok []) ++ .ok data :: receipts } := by
        rw [recvfrom, hreceipts]
        rfl
      have hstep : readStep () connection = .ok (.inl ()) { connection with
          receipts := List.replicate n (.ok []) ++ .ok data :: receipts } := by
        rw [readStep, bind_of_ok hrecvfrom]
        rfl
      rw [loop_continue hstep]
      exact ih rfl
  rw [read, bind_of_ok hloop]
  rfl

end UDPSocketConnection

section SameView

open BaseSyncReader

/-- What `x` does to a buffer depends on what is left in it, and on nothing else of it. -/
abbrev ReadsView {α : Type} (x : Py Buffer α) : Prop :=
  Mirrors Buffer.unreadView Buffer.unreadView (· = ·) x x

theorem readsView_read (n : Nat) : ReadsView (Buffer.read n) := by
  intro b c hview
  cases Nat.lt_or_ge c.unreadView.length n with
  | inl hlt =>
    rcases Buffer.read_of_lt hlt with ⟨c', hc, -⟩
    rcases Buffer.read_of_lt (hview ▸ hlt) with ⟨b', hb, -⟩
    rw [hb, hc]
    refine .error ?_
    rw [← b.length_unreadView, ← c.length_unreadView, hview]
  | inr hle =>
    rcases Buffer.read_of_le hle with ⟨c', hc, hrest⟩
    rcases Buffer.read_of_le (hview ▸ hle) with ⟨b', hb, hrest'⟩
    rw [hb, hc, hview]
    exact .ok (by rw [hrest, hrest', hview])

theorem readsView_readAscii : ReadsView (readAscii : Py Buffer (List Char)) := by
  refine (Mirrors.loop (fun result => ?_) []).bind fun _ => Mirrors.pure _
  refine Mirrors.ite (fun _ => ?_) fun _ => Mirrors.pure _
  exact (readsView_read 1).bind fun _ => Mirrors.pure _

end SameView

namespace QueryClient

open BaseSyncReader BaseSyncWriter

def sessionBytes (raw : Nat) : List UInt8 :=
  BigEndian.encode 4 (raw &&& 0x0F0F0F0F)

theorem length_sessionBytes (raw : Nat) : (sessionBytes raw).length = 4 :=
  BigEndian.length_encode 4 _

theorem pack_generateSessionId (raw : Nat)
    : pack .uint (generateSessionId raw) = .ok (sessionBytes raw) := by
  have hle : raw &&& 0x0F0F0F0F ≤ 0x0F0F0F0F := Nat.and_le_right
  have hrange : 0 ≤ generateSessionId raw ∧ generateSessionId raw < 2 ^ (8 * 4) := by
    rw [generateSessionId]
    omega
  rw [pack, packUnsigned, if_pos hrange]
  rfl

theorem packetOf_createHandshakePacket (raw : Nat)
    : Python.packetOf (createHandshakePacket raw) = .ok (challengeRequest (sessionBytes raw)) := by
  have hmagic : Writes (Buffer.write magicPrefix) magicPrefix := fun _ => rfl
  have htype : Writes (writeValue .ubyte packetTypeChallenge : Py Buffer Unit) [9] :=
    writes_writeValue (pack_ubyte (by decide : 9 < 256))
  exact packetOf_of_writes
    (hmagic.bind (htype.bind (writes_writeValue (pack_generateSessionId raw))))

theorem packetOf_createPacket (raw : Nat) {challenge : Int}
    (h : TwosComplement.InRange 32 challenge)
    : Python.packetOf (createPacket raw challenge)
        = .ok (statRequest (sessionBytes raw) (BigEndian.encode 4 (challenge % 2 ^ 32).toNat)) := by
  have hmagic : Writes (Buffer.write magicPrefix) magicPrefix := fun _ => rfl
  have htype : Writes (writeValue .ubyte packetTypeQuery : Py Buffer Unit) [0] :=
    writes_writeValue (pack_ubyte (by decide : 0 < 256))
  have hchallenge : pack .int challenge
      = .ok (BigEndian.encode 4 (challenge % 2 ^ 32).toNat) := by
    have hfits : -(2 ^ (8 * 4 - 1)) ≤ challenge ∧ challenge < 2 ^ (8 * 4 - 1) := h
    rw [pack, packSigned, if_pos hfits]
  have hpadding : Writes (Buffer.write padding) padding := fun _ => rfl
  have hid : Writes (writeValue .uint (generateSessionId raw) : Py Buffer Unit)
      (sessionBytes raw) :=
    writes_writeValue (pack_generateSessionId raw)
  have hwrites : Writes (createPacket raw challenge) (magicPrefix ++ ([0] ++ (sessionBytes raw
      ++ (BigEndian.encode 4 (challenge % 2 ^ 32).toNat ++ padding)))) :=
    hmagic.bind (htype.bind (hid.bind ((writes_writeValue hchallenge).bind hpadding)))
  rw [packetOf_of_writes hwrites, statRequest, magicPrefix, padding]
  simp only [List.cons_append, List.nil_append, List.append_assoc]

theorem packetOf_createPacket_of_not_inRange (raw : Nat) {challenge : Int}
    (h : ¬ TwosComplement.InRange 32 challenge)
    : Python.packetOf (createPacket raw challenge) = .error .structError := by
  have hmagic : Writes (Buffer.write magicPrefix) magicPrefix := fun _ => rfl
  have htype : Writes (writeValue .ubyte packetTypeQuery : Py Buffer Unit) [0] :=
    writes_writeValue (pack_ubyte (by decide : 0 < 256))
  have hid : Writes (writeValue .uint (generateSessionId raw) : Py Buffer Unit)
      (sessionBytes raw) :=
    writes_writeValue (pack_generateSessionId raw)
  have hchallenge : pack .int challenge = .error .structError := by
    have hfits : ¬ (-(2 ^ (8 * 4 - 1)) ≤ challenge ∧ challenge < 2 ^ (8 * 4 - 1)) := h
    rw [pack, packSigned, if_neg hfits]
  have hwrite : ∀ b : Buffer, writeValue .int challenge b = .error .structError b := by
    intro b
    rw [writeValue, hchallenge]
    rfl
  rw [Python.packetOf, createPacket, bind_of_ok (hmagic _), bind_of_ok (htype _),
    bind_of_ok (hid _), bind_of_error (hwrite _)]

variable {gs4 : Gs4} {raw raw' : Nat} {connection connection' : UDPSocketConnection}
variable {response : QueryResponse}

theorem readsView_parseResponse : ReadsView parseResponse := by
  refine (readsView_read _).bind fun _ => ?_
  refine Mirrors.bind (Mirrors.loop (fun data => ?_) _) fun data => ?_
  . refine readsView_readAscii.bind fun key => Mirrors.ite (fun _ => ?_) fun _ => ?_
    . intro b c hview
      rw [bind_of_ok (get_apply b), bind_of_ok (get_apply c), hview]
      exact ((readsView_read _).bind fun _ => (readsView_read 1).bind fun _ => Mirrors.pure _)
        b c hview
    . refine Mirrors.ite (fun _ => ?_) fun _ => ?_
      . exact (readsView_read 1).bind fun _ => Mirrors.pure _
      . exact readsView_readAscii.bind fun _ => Mirrors.pure _
  . refine (readsView_read _).bind fun _ => Mirrors.bind (Mirrors.loop (fun players => ?_) _) ?_
    . refine readsView_readAscii.bind fun player => ?_
      exact Mirrors.ite (fun _ => Mirrors.pure _) fun _ => Mirrors.pure _
    . exact fun _ => Mirrors.pure _

theorem packetOf_append {header : List UInt8} (h : header.length = 5) (body : List UInt8)
    : ∃ packet, packetOf (header ++ body) = .ok packet ∧ packet.unreadView = body := by
  have hle : 5 ≤ (Buffer.ofBytes (header ++ body)).unreadView.length := by
    rw [Buffer.unreadView_ofBytes, List.length_append]
    omega
  rcases Buffer.read_of_le hle with ⟨packet, hread, hview⟩
  refine ⟨packet, ?_, ?_⟩
  . have hread' : Buffer.read (1 + 4) (Buffer.ofBytes (header ++ body)) = .ok _ packet := hread
    rw [packetOf, onPacket, hread']
    rfl
  . rw [hview, Buffer.unreadView_ofBytes, List.drop_left' h]

def parseStat (gs4 : Gs4) : Except Exception QueryResponse :=
  parseQuery (gs4.statReply (sessionBytes 0))

theorem parseQuery_statReply (gs4 : Gs4) (raw : Nat)
    : parseQuery (gs4.statReply (sessionBytes raw)) = parseStat gs4 := by
  have hheader : ∀ raw, ((0 : UInt8) :: sessionBytes raw).length = 5 := fun raw => by
    rw [List.length_cons, length_sessionBytes]
  rcases packetOf_append (hheader raw) gs4.stat with ⟨packet, hpacket, hview⟩
  rcases packetOf_append (hheader 0) gs4.stat with ⟨packet', hpacket', hview'⟩
  rw [List.cons_append] at hpacket hpacket'
  rw [parseStat, parseQuery, parseQuery, Gs4.statReply, Gs4.statReply, hpacket, hpacket', ok_bind,
    ok_bind, onPacket, onPacket]
  rcases (readsView_parseResponse packet packet' (hview.trans hview'.symm)).cases with
    ⟨out, rest, rest', hrun, hrun', -⟩ | ⟨e, e', rest, rest', hrun, hrun', rfl⟩
  . rw [hrun, hrun']
    rfl
  . rw [hrun, hrun']

theorem parseChallenge_decimal {header : List UInt8} (h : header.length = 5) {n : Int}
    (hfew : (Nat.toDigits 10 n.natAbs).length ≤ maxStrDigits)
    : parseChallenge (header ++ (Latin1.encode (Numeral.decimal n) ++ [0])) = .ok n := by
  rcases packetOf_append h (Latin1.encode (Numeral.decimal n) ++ [0]) with ⟨packet, hpacket, hview⟩
  have htext : Latin1.decode (Latin1.encode (Numeral.decimal n)) = Numeral.decimal n :=
    Latin1.decode_encode (Query.fits_decimal n)
  rcases consumes_readAscii (σ := Buffer) (Query.zero_not_mem_decimal n) packet []
    (by rw [List.append_nil]; exact hview) with ⟨rest, hread, -⟩
  rw [parseChallenge, hpacket, ok_bind, onPacket, hread, htext]
  exact intBase10_decimal hfew

theorem parseChallenge_challengeReply (gs4 : Gs4) {session_id : List UInt8}
    (h : session_id.length = 4) (n : Nat)
    : parseChallenge (gs4.challengeReply session_id n) = .ok (gs4.token n) := by
  have hheader : ((9 : UInt8) :: session_id).length = 5 := by rw [List.length_cons, h]
  refine parseChallenge_decimal hheader ?_
  have habs : (gs4.token n).natAbs < 10 ^ 10 := by
    rcases gs4.token_valid n with ⟨hmin, hmax⟩
    omega
  have := (Nat.length_toDigits_le_iff (b := 10) (k := 10) (by decide) (by decide)).mpr habs
  rw [maxStrDigits]
  omega

theorem le_length_of_parseQuery {data : List UInt8} (h : parseQuery data = .ok response)
    : 18 ≤ data.length := by
  rw [parseQuery] at h
  rcases Fallible.bind_eq_ok.mp h with ⟨packet, hpacket, h⟩
  rcases Fallible.bind_eq_ok.mp h with ⟨⟨⟨raw, players_list⟩, rest⟩, hparse, -⟩
  have hheader : data.length = 5 + packet.remaining := by
    rw [packetOf, onPacket] at hpacket
    split at hpacket
    . next packet' hread =>
      cases hpacket
      have hread : Buffer.read (5 : Nat) (Buffer.ofBytes data) = .ok _ packet := hread
      exact remaining_of_read hread
    . cases hpacket
  rw [onPacket] at hparse
  split at hparse
  . next hrun =>
    rcases bind_eq_ok.mp hrun with ⟨padding, b, hpadding, hrun⟩
    rcases bind_eq_ok.mp hrun with ⟨raw, c, hdata, -⟩
    have hpadding : Buffer.read (11 : Nat) packet = .ok padding b := hpadding
    have hread := remaining_of_read hpadding
    have hleft := remaining_of_readData hdata
    omega
  . cases hparse

theorem ofExcept_eq_ok {σ α : Type} {x : Except Exception α} {a : α} {s s' : σ}
    (h : ofExcept x s = .ok a s') : x = .ok a ∧ s' = s := by
  cases x with
  | ok b =>
    cases h
    exact ⟨rfl, rfl⟩
  | error e => cases h

theorem onConnection_eq_ok {α : Type} {x : Py UDPSocketConnection α} {a : α}
    {client client' : QueryClient} (h : onConnection x client = .ok a client')
    : x client.connection = .ok a client'.connection ∧ client'.challenge = client.challenge := by
  unfold onConnection zoom at h
  split at h
  . next hrun =>
    cases h
    exact ⟨hrun, rfl⟩
  . cases h

theorem write_logged {data : List UInt8}
    (h : UDPSocketConnection.write data connection = .ok () connection')
    : connection'.sent = connection.sent ++ [data]
      ∧ connection'.received = connection.received := by
  rw [UDPSocketConnection.write] at h
  split at h
  . cases h
  . cases h
  . cases h
    exact ⟨rfl, rfl⟩

theorem request_logged {packet : Py Buffer Unit} {data : List UInt8} {client client' : QueryClient}
    (h : request packet client = .ok data client')
    : ∃ bytes, Python.packetOf packet = .ok bytes
        ∧ client'.connection.sent = client.connection.sent ++ [bytes]
        ∧ client'.connection.received = client.connection.received ++ [data] := by
  rcases bind_eq_ok.mp h with ⟨bytes, start, hpacket, hrest⟩
  rcases ofExcept_eq_ok hpacket with ⟨hbytes, rfl⟩
  rcases bind_eq_ok.mp hrest with ⟨⟨⟩, middle, hwrite, hread⟩
  rcases write_logged (onConnection_eq_ok hwrite).1 with ⟨hsent, hreceived⟩
  rcases UDPSocketConnection.read_logged (onConnection_eq_ok hread).1 with ⟨hsent', hreceived'⟩
  exact ⟨bytes, hbytes, hsent'.trans hsent, hreceived'.trans (by rw [hreceived])⟩

theorem converse_logged {client client' : QueryClient}
    (h : converse raw raw' client = .ok response client')
    : ∃ data n data' bytes, parseChallenge data = .ok n ∧ parseQuery data' = .ok response
        ∧ Python.packetOf (createPacket raw' n) = .ok bytes
        ∧ client'.connection.sent
          = client.connection.sent ++ [challengeRequest (sessionBytes raw), bytes]
        ∧ client'.connection.received = client.connection.received ++ [data, data'] := by
  rcases bind_eq_ok.mp h with ⟨⟨⟩, middle, hhandshake, hquery⟩
  rcases bind_eq_ok.mp hhandshake with ⟨data, client₁, hrequest, hrest⟩
  rcases bind_eq_ok.mp hrest with ⟨n, client₂, hparse, hset⟩
  rcases ofExcept_eq_ok hparse with ⟨hn, rfl⟩
  rw [modify_apply, EStateM.Result.ok.injEq] at hset
  rcases hset with ⟨-, rfl⟩
  rw [readQuery, bind_of_ok (get_apply _)] at hquery
  rcases bind_eq_ok.mp hquery with ⟨data', client₃, hrequest', hparse'⟩
  rcases ofExcept_eq_ok hparse' with ⟨hresponse, rfl⟩
  rcases request_logged hrequest with ⟨bytes, hbytes, hsent, hreceived⟩
  rcases request_logged hrequest' with ⟨bytes', hbytes', hsent', hreceived'⟩
  rw [packetOf_createHandshakePacket, Except.ok.injEq] at hbytes
  subst hbytes
  refine ⟨data, n, data', bytes', hn, hresponse, hbytes', hsent'.trans ?_, hreceived'.trans ?_⟩
  . rw [hsent, List.append_assoc]
    rfl
  . rw [hreceived, List.append_assoc]
    rfl

theorem query_logged (h : query raw raw' connection = .ok response connection')
    : ∃ data n data' bytes, parseChallenge data = .ok n ∧ parseQuery data' = .ok response
        ∧ Python.packetOf (createPacket raw' n) = .ok bytes
        ∧ connection'.sent = connection.sent ++ [challengeRequest (sessionBytes raw), bytes]
        ∧ connection'.received = connection.received ++ [data, data'] := by
  rcases withClient_eq_ok h with ⟨client, hrun, rfl⟩
  exact converse_logged hrun

/-- A connection on which all that `read` has returned comes from the server. -/
def Genuine (gs4 : Gs4) (connection : UDPSocketConnection) : Prop :=
  Datagrams.Carries gs4.server 0 connection.sent connection.received

/--
What a conversation with the server has been, once it has got to its status: it was asked for with
the token that the server gave out last.
-/
def Exchanged (gs4 : Gs4) (raw raw' : Nat) (connection : UDPSocketConnection) : Prop :=
  ∃ n, connection.sent = [challengeRequest (sessionBytes raw),
      statRequest (sessionBytes raw') (gs4.tokenBytes n)]
    ∧ connection.received
      = [gs4.challengeReply (sessionBytes raw) n, gs4.statReply (sessionBytes raw')]

theorem conversed_of_genuine (hsent : connection.sent = []) (hreceived : connection.received = [])
    (h : query raw raw' connection = .ok response connection') (hgenuine : Genuine gs4 connection')
    : Exchanged gs4 raw raw' connection' ∧ parseStat gs4 = .ok response := by
  have hid := length_sessionBytes raw
  have hid' := length_sessionBytes raw'
  rcases query_logged h with ⟨data, n, data', bytes, hn, hresponse, hbytes, hsent', hreceived'⟩
  rw [hsent, List.nil_append] at hsent'
  rw [hreceived, List.nil_append] at hreceived'
  rw [Genuine, hsent', hreceived'] at hgenuine
  rcases Datagrams.carries_pair hgenuine with ⟨hfirst, hsecond⟩
  rcases Query.eq_challengeReply_of_brings hid hfirst with ⟨k, rfl⟩
  rw [parseChallenge_challengeReply gs4 hid] at hn
  cases hn
  rw [packetOf_createPacket raw' (gs4.token_valid k)] at hbytes
  cases hbytes
  rcases Query.eq_reply_of_brings hid hid' (BigEndian.length_encode 4 _) hsecond with ⟨m, rfl⟩ | rfl
  . have hlong := le_length_of_parseQuery hresponse
    have hshort := @Query.length_challengeReply_le gs4 _ hid m
    omega
  . rw [parseQuery_statReply] at hresponse
    exact ⟨⟨k, hsent', hreceived'⟩, hresponse⟩

end QueryClient

/-- How the calls of `sendto` and of `recvfrom` end on the socket of an attempt. -/
structure Traffic where
  sendings : List (Option Exception)
  receipts : List (Except Exception (List UInt8))

def Traffic.connect (traffic : Traffic) : UDPSocketConnection where
  sendings := traffic.sendings
  receipts := traffic.receipts
  sent := []
  received := []

/-- What `UDPSocketConnection(addr, timeout)` comes to, in one attempt after the other. -/
abbrev Sockets := List (Except Exception Traffic)

def Sockets.connects (sockets : Sockets) : Network UDPSocketConnection :=
  sockets.map fun socket => socket.map Traffic.connect

theorem Sockets.getElem?_connects {sockets : Sockets} {k : Nat} {connection : UDPSocketConnection}
    : sockets.connects[k]? = some (.ok connection)
        ↔ ∃ traffic, sockets[k]? = some (.ok traffic) ∧ connection = traffic.connect := by
  rw [Sockets.connects, List.getElem?_map]
  constructor
  . intro h
    rcases Option.map_eq_some_iff.mp h with ⟨socket, hsocket, hmap⟩
    cases socket with
    | error e => cases hmap
    | ok traffic =>
      cases hmap
      exact ⟨traffic, hsocket, rfl⟩
  . rintro ⟨traffic, hsocket, rfl⟩
    rw [hsocket]
    rfl

namespace QueryClient

variable {gs4 : Gs4} {raw raw' : Nat} {traffic : Traffic} {response : QueryResponse}

/--
Both requests are sent, and the replies of the server to them are the first datagrams to arrive that
have something in them.
-/
def Arrives (gs4 : Gs4) (raw raw' : Nat) (traffic : Traffic) : Prop :=
  ∃ n empties empties' sendings receipts, traffic.sendings = none :: none :: sendings
    ∧ traffic.receipts = List.replicate empties (.ok [])
      ++ .ok (gs4.challengeReply (sessionBytes raw) n) :: (List.replicate empties' (.ok [])
        ++ .ok (gs4.statReply (sessionBytes raw')) :: receipts)

theorem request_of_receipts {packet : Py Buffer Unit} {bytes data : List UInt8} {n : Nat}
    {client : QueryClient} {sendings : List (Option Exception)}
    {receipts : List (Except Exception (List UInt8))}
    (hpacket : Python.packetOf packet = .ok bytes) (hne : data ≠ [])
    (hfits : data.length ≤ UDPSocketConnection.remaining)
    (hsendings : client.connection.sendings = none :: sendings)
    (hreceipts : client.connection.receipts = List.replicate n (.ok []) ++ .ok data :: receipts)
    : ∃ sent received, request packet client = .ok data { client with
        connection := { sendings, receipts, sent, received }
      } := by
  have hwrite : onConnection (UDPSocketConnection.write bytes) client = .ok () { client with
      connection := { client.connection with
        sendings, sent := client.connection.sent ++ [bytes] } } := by
    rw [onConnection, zoom, UDPSocketConnection.write, hsendings]
  refine ⟨client.connection.sent ++ [bytes], client.connection.received ++ [data], ?_⟩
  have hread := @UDPSocketConnection.read_of_receipts { client.connection with
    sendings, sent := client.connection.sent ++ [bytes] } _ UDPSocketConnection.remaining _ _
    hreceipts hne
  rw [List.take_of_length_le hfits] at hread
  rw [request, hpacket, ofExcept_ok, pure_bind, bind_of_ok hwrite, onConnection, zoom, hread]

theorem query_of_arrives (hparse : parseStat gs4 = .ok response) (h : Arrives gs4 raw raw' traffic)
    : ∃ connection', query raw raw' traffic.connect = .ok response connection' := by
  rcases h with ⟨n, empties, empties', sendings, receipts, hsendings, hreceipts⟩
  have hid := length_sessionBytes raw
  have hshort := @Query.length_challengeReply_le gs4 _ hid n
  have hfits : (gs4.statReply (sessionBytes raw')).length ≤ UDPSocketConnection.remaining := by
    have := gs4.stat_fits
    rw [Gs4.statReply, List.length_cons, List.length_append, length_sessionBytes,
      UDPSocketConnection.remaining]
    omega
  have hfits' : (gs4.challengeReply (sessionBytes raw) n).length ≤ UDPSocketConnection.remaining :=
    Nat.le_trans hshort (by decide)
  have hne : gs4.challengeReply (sessionBytes raw) n ≠ [] := List.cons_ne_nil _ _
  have hne' : gs4.statReply (sessionBytes raw') ≠ [] := List.cons_ne_nil _ _
  rcases @request_of_receipts _ _ _ _ (new traffic.connect) _ _
    (packetOf_createHandshakePacket raw) hne hfits' hsendings hreceipts with
    ⟨sent, received, hrequest⟩
  rcases @request_of_receipts _ _ _ empties' {
      connection := {
        sendings := none :: sendings
        receipts := List.replicate empties' (.ok [])
          ++ .ok (gs4.statReply (sessionBytes raw')) :: receipts
        sent
        received
      }
      challenge := gs4.token n
    } sendings receipts (packetOf_createPacket raw' (gs4.token_valid n)) hne' hfits rfl rfl with
    ⟨sent', received', hrequest'⟩
  have hhandshake : handshake raw (new traffic.connect) = .ok () {
      connection := {
        sendings := none :: sendings
        receipts := List.replicate empties' (.ok [])
          ++ .ok (gs4.statReply (sessionBytes raw')) :: receipts
        sent
        received
      }
      challenge := gs4.token n
    } := by
    rw [handshake, bind_of_ok hrequest, parseChallenge_challengeReply gs4 hid]
    rfl
  have hquery : ∃ client, converse raw raw' (new traffic.connect) = .ok response client := by
    rw [converse, bind_of_ok hhandshake, readQuery, bind_of_ok (get_apply _), bind_of_ok hrequest',
      parseQuery_statReply, hparse]
    exact ⟨_, rfl⟩
  rcases hquery with ⟨client, hrun⟩
  exact ⟨_, withClient_of_ok hrun⟩

end QueryClient

open QueryClient in
theorem JavaServer.retryQuery_sockets (tries : Int) (raw : Nat → Nat × Nat) (sockets : Sockets)
    (gs4 : Gs4)
    : let arrivesAt := fun k => ∃ traffic, sockets[k]? = some (.ok traffic)
        ∧ Arrives gs4 (raw k).1 (raw k).2 traffic
      match JavaServer.retryQuery tries raw sockets.connects with
      | .ok response _ => ∃ k traffic connection', k < tries.toNat
          ∧ sockets[k]? = some (.ok traffic)
          ∧ query (raw k).1 (raw k).2 traffic.connect = .ok response connection'
          ∧ (Genuine gs4 connection' → Exchanged gs4 (raw k).1 (raw k).2 connection'
            ∧ parseStat gs4 = .ok response)
          ∧ ∀ status, parseStat gs4 = .ok status → ∀ attempt < k, ¬ arrivesAt attempt
      | .error _ _ => ∀ status, parseStat gs4 = .ok status →
          ∀ attempt < tries.toNat, ¬ arrivesAt attempt := by
  intro arrivesAt
  have hsucceeds : ∀ status, parseStat gs4 = .ok status → ∀ k, arrivesAt k →
      Network.Succeeds (fun attempt => query (raw attempt).1 (raw attempt).2)
        sockets.connects k := by
    rintro status hparse k ⟨traffic, hsocket, harrives⟩
    rcases query_of_arrives hparse harrives with ⟨connection', hrun⟩
    exact ⟨_, _, connection', Sockets.getElem?_connects.mpr ⟨traffic, hsocket, rfl⟩, hrun⟩
  cases hresult : JavaServer.retryQuery tries raw sockets.connects with
  | ok response network' =>
    rcases Network.exists_of_retry hresult with
      ⟨k, hk, connection, connection', hget, hrun, hfailed⟩
    rcases Sockets.getElem?_connects.mp hget with ⟨traffic, hsocket, rfl⟩
    refine ⟨k, traffic, connection', hk, hsocket, hrun, conversed_of_genuine rfl rfl hrun, ?_⟩
    exact fun status hparse attempt hlt harrives =>
      hfailed attempt hlt (hsucceeds status hparse attempt harrives)
  | error e network' =>
    exact fun status hparse attempt hlt harrives =>
      Network.not_succeeds_of_retry hresult attempt hlt (hsucceeds status hparse attempt harrives)

end Python

end McStatus
