import McStatus.Query.Server
import McStatus.Rust.Decimal
import McStatus.Rust.Network
import McStatus.Rust.Query.Client
import McStatus.Rust.Server

/-!
This module contains `query_with_opts` of the `JavaServer`, and shows what it gets from a server on
a network that loses datagrams, repeats them and brings them in any order.
-/

namespace McStatus

open Fallible
open Reader

namespace Rust

open Datagrams (Carries)
open Query (Gs4 challengeRequest statRequest)

theorem toNat_toUInt32 (n : Int32) : (n.toInt % 2 ^ 32).toNat = n.toUInt32.toNat := by
  have hpow : (2 : Int) ^ 32 = (2 ^ 32 : Nat) := rfl
  have htoNat : (n.toUInt32.toNat : Int) = n.toInt % 2 ^ 32 := by
    rw [Int32.toInt, BitVec.toInt_eq_toNat_bmod, hpow, Int.bmod_emod]
    exact (Int.emod_eq_of_lt (by omega) (Int.ofNat_lt.mpr n.toUInt32.toNat_lt)).symm
  rw [← htoNat, Int.toNat_natCast]

theorem toBeBytes_eq (n : Int32) : toBeBytes n = BigEndian.encode 4 (n.toInt % 2 ^ 32).toNat := by
  rw [toNat_toUInt32, toBeBytes]
  have hencode : BigEndian.encode 4 n.toUInt32.toNat
      = [UInt8.ofNat (n.toUInt32.toNat / 256 / 256 / 256 % 256),
        UInt8.ofNat (n.toUInt32.toNat / 256 / 256 % 256),
        UInt8.ofNat (n.toUInt32.toNat / 256 % 256), UInt8.ofNat (n.toUInt32.toNat % 256)] := rfl
  have hshift : ∀ k : UInt32, k.toNat < 32 →
      (n.toUInt32 >>> k).toUInt8.toNat = n.toUInt32.toNat / 2 ^ k.toNat % 256 := by
    intro k hk
    rw [UInt32.toNat_toUInt8, UInt32.toNat_shiftRight, Nat.shiftRight_eq_div_pow,
      Nat.mod_eq_of_lt hk]
  rw [hencode]
  simp only [List.cons.injEq, and_true]
  refine ⟨?_, ?_, ?_, ?_⟩
  . apply UInt8.toNat_inj.mp
    rw [hshift 24 (by decide), UInt8.toNat_ofNat', Nat.mod_mod, Nat.div_div_eq_div_mul,
      Nat.div_div_eq_div_mul]
    rfl
  . apply UInt8.toNat_inj.mp
    rw [hshift 16 (by decide), UInt8.toNat_ofNat', Nat.mod_mod, Nat.div_div_eq_div_mul]
    rfl
  . apply UInt8.toNat_inj.mp
    rw [hshift 8 (by decide), UInt8.toNat_ofNat', Nat.mod_mod]
    rfl
  . apply UInt8.toNat_inj.mp
    rw [UInt32.toNat_toUInt8, UInt8.toNat_ofNat', Nat.mod_mod]

theorem length_toBeBytes (n : Int32) : (toBeBytes n).length = 4 := rfl

theorem parseI32_eq (n : Int)
    : parseI32 (Numeral.decimal n)
        = if -2 ^ 31 ≤ n ∧ n < 2 ^ 31 then some (Int32.ofInt n) else none := by
  have hread : decimal? (Nat.toDigits 10 n.natAbs) = some n.natAbs := by
    rw [decimal?_eq_readFrom]
    exact (Numeral.nat?_eq_some_iff.mp (Numeral.nat?_toDigits n.natAbs)).2
  have hne : ¬ (Nat.toDigits 10 n.natAbs).isEmpty = true := by simp
  rw [parseI32, Numeral.decimal]
  by_cases hneg : n < 0
  . have hvalue : -(n.natAbs : Int) = n := by omega
    rw [if_pos hneg, splitSign]
    dsimp only
    rw [if_neg hne, hread, Option.bind_eq_bind, Option.bind_some, if_pos rfl, hvalue]
  . have hvalue : (n.natAbs : Int) = n := by omega
    have hsign : splitSign (Nat.toDigits 10 n.natAbs) = (false, Nat.toDigits 10 n.natAbs) := by
      have hdigit : ∀ c ∈ Nat.toDigits 10 n.natAbs, c.isDigit = true :=
        fun c hc => Numeral.isDigit_toDigits hc
      unfold splitSign
      split
      . next heq => exact absurd (hdigit '-' (heq ▸ List.mem_cons_self)) (by decide)
      . next heq => exact absurd (hdigit '+' (heq ▸ List.mem_cons_self)) (by decide)
      . rfl
    rw [if_neg hneg, hsign]
    dsimp only
    rw [if_neg hne, hread, Option.bind_eq_bind, Option.bind_some, if_neg Bool.false_ne_true, hvalue]

theorem parseI32_decimal {n : Int} (h : TwosComplement.InRange 32 n)
    : parseI32 (Numeral.decimal n) = some (Int32.ofInt n) :=
  (parseI32_eq n).trans (if_pos h)

theorem parseI32_of_not_inRange {n : Int} (h : ¬ TwosComplement.InRange 32 n)
    : parseI32 (Numeral.decimal n) = none :=
  (parseI32_eq n).trans (if_neg h)

namespace QueryClient

/-- The conversation of one attempt, where `raw` and `raw'` make its session ids. -/
def converse (raw raw' : Int32) : EStateM Failure QueryClient QueryResponse := do
  handshake raw
  readQuery raw'

def query (raw raw' : Int32) : EStateM Failure UdpConnection QueryResponse := fun connection =>
  match converse raw raw' (new connection) with
  | .ok response client => .ok response client.connection
  | .error failure client => .error failure client.connection

def sessionBytes (raw : Int32) : List UInt8 :=
  toBeBytes (generateSessionId raw)

theorem length_sessionBytes (raw : Int32) : (sessionBytes raw).length = 4 := rfl

theorem challengePacket_eq (raw : Int32)
    : challengePacket (generateSessionId raw) = challengeRequest (sessionBytes raw) := rfl

theorem queryPacket_eq (raw challenge : Int32)
    : queryPacket (generateSessionId raw) challenge
        = statRequest (sessionBytes raw) (toBeBytes challenge) := rfl

theorem challenge?_decimal {header : List UInt8} (h : header.length = 5) (n : Int)
    : challenge? (header ++ (Latin1.encode (Numeral.decimal n) ++ [0]))
        = parseI32 (Numeral.decimal n) := by
  rw [challenge?, List.drop_left' h, nulText_append (Query.zero_not_mem_decimal n),
    Latin1.decode_encode (Query.fits_decimal n)]

theorem challenge?_challengeReply (gs4 : Gs4) {session_id : List UInt8} (h : session_id.length = 4)
    (n : Nat)
    : challenge? (gs4.challengeReply session_id n) = some (Int32.ofInt (gs4.token n)) := by
  have hheader : ((9 : UInt8) :: session_id).length = 5 := by rw [List.length_cons, h]
  exact (challenge?_decimal hheader (gs4.token n)).trans (parseI32_decimal (gs4.token_valid n))

theorem toBeBytes_ofInt (gs4 : Gs4) (n : Nat)
    : toBeBytes (Int32.ofInt (gs4.token n)) = gs4.tokenBytes n := by
  rcases gs4.token_valid n with ⟨hmin, hmax⟩
  rw [toBeBytes_eq, Int32.toInt_ofInt_of_le hmin hmax]
  rfl

variable {gs4 : Gs4} {raw raw' : Int32} {connection connection' : UdpConnection}
variable {response : QueryResponse}

theorem query_eq_ok_iff
    : query raw raw' connection = .ok response connection'
        ↔ ∃ d n d' out, connection.reply? = some d ∧ challenge? (d.data.take 4096) = some n
          ∧ (connection.exchange (challengeRequest (sessionBytes raw)) d).reply? = some d'
          ∧ parseResponse (d'.data.take 65536) = .ok out
          ∧ response = QueryResponse.build out.1 out.2
          ∧ connection' = (connection.exchange (challengeRequest (sessionBytes raw)) d).exchange
              (statRequest (sessionBytes raw') (toBeBytes n)) d' := by
  rw [query]
  constructor
  . intro h
    split at h
    . next r client hrun =>
      cases h
      rcases Reader.bind_eq_ok.mp hrun with ⟨⟨⟩, middle, hhandshake, hquery⟩
      rcases handshake_eq_ok_iff.mp hhandshake with ⟨d, n, hreply, hn, rfl⟩
      rcases readQuery_eq_ok_iff.mp hquery with ⟨d', out, hreply', hout, rfl, rfl⟩
      exact ⟨d, n, d', out, hreply, hn, hreply', hout, rfl, rfl⟩
    . cases h
  . rintro ⟨d, n, d', out, hreply, hn, hreply', hout, rfl, rfl⟩
    have hhandshake : handshake raw (new connection) = .ok () _ :=
      handshake_eq_ok_iff.mpr ⟨d, n, hreply, hn, rfl⟩
    have hquery : readQuery raw' {
        connection := connection.exchange (challengePacket (generateSessionId raw)) d
        challenge := n
      } = .ok _ _ := readQuery_eq_ok_iff.mpr ⟨d', out, hreply', hout, rfl, rfl⟩
    have hrun : converse raw raw' (new connection) = .ok _ _ :=
      (bind_of_ok hhandshake).trans hquery
    rw [hrun]
    rfl

def Genuine (gs4 : Gs4) (connection : UdpConnection) : Prop :=
  Carries gs4.server 0 connection.sent (connection.received.map Datagram.data)

/--
What a conversation with the server has been, once it has got to its status: it was asked for with
the token that the server gave out last.
-/
def Exchanged (gs4 : Gs4) (raw raw' : Int32) (connection : UdpConnection) : Prop :=
  ∃ n, connection.sent = [challengeRequest (sessionBytes raw),
      statRequest (sessionBytes raw') (gs4.tokenBytes n)]
    ∧ connection.received.map Datagram.data
      = [gs4.challengeReply (sessionBytes raw) n, gs4.statReply (sessionBytes raw')]

def parseStat (gs4 : Gs4) : Exec (RawQueryResponse × List (List Char)) :=
  parseResponse (gs4.statReply (sessionBytes 0))

theorem parseResponse_congr {data data' : List UInt8} (hlength : data.length = data'.length)
    (hdrop : data.drop 9 = data'.drop 9) : parseResponse data = parseResponse data' := by
  rw [parseResponse, parseResponse, hlength]
  by_cases hshort : data'.length < 1 + 4 + 4 + 13
  . rw [if_pos hshort, if_pos hshort]
  . rw [if_neg hshort, if_neg hshort, sliceFrom_of_le (by omega), sliceFrom_of_le (by omega), hdrop]

theorem parseResponse_statReply (gs4 : Gs4) (raw : Int32)
    : parseResponse (gs4.statReply (sessionBytes raw)) = parseStat gs4 := by
  have hdrop : ∀ raw, (gs4.statReply (sessionBytes raw)).drop 9 = gs4.stat.drop 4 := by
    intro raw
    rw [Gs4.statReply, List.drop_succ_cons, List.drop_append, length_sessionBytes,
      List.drop_of_length_le (by rw [length_sessionBytes]; omega), List.nil_append]
  apply parseResponse_congr
  . simp only [Gs4.statReply, List.length_cons, List.length_append, length_sessionBytes]
  . rw [hdrop, hdrop]

theorem take_statReply (gs4 : Gs4) (raw : Int32)
    : (gs4.statReply (sessionBytes raw)).take 65536 = gs4.statReply (sessionBytes raw) := by
  have := gs4.stat_fits
  apply List.take_of_length_le
  rw [Gs4.statReply, List.length_cons, List.length_append, length_sessionBytes]
  omega

theorem take_challengeReply (gs4 : Gs4) (raw : Int32) (n : Nat)
    : (gs4.challengeReply (sessionBytes raw) n).take 4096
        = gs4.challengeReply (sessionBytes raw) n := by
  have := @Query.length_challengeReply_le gs4 _ (length_sessionBytes raw) n
  exact List.take_of_length_le (by omega)

theorem exchanged_of_genuine {d d' : Datagram} {n : Int32} (hsent : connection.sent = [])
    (hreceived : connection.received = []) (hn : challenge? (d.data.take 4096) = some n)
    (hread : parseResponse (d'.data.take 65536)
      ≠ .error (.error (.protocol "Query response too short")))
    (hgenuine : Genuine gs4 ((connection.exchange (challengeRequest (sessionBytes raw)) d).exchange
      (statRequest (sessionBytes raw') (toBeBytes n)) d'))
    : d'.data.take 65536 = gs4.statReply (sessionBytes raw')
        ∧ Exchanged gs4 raw raw'
          ((connection.exchange (challengeRequest (sessionBytes raw)) d).exchange
          (statRequest (sessionBytes raw') (toBeBytes n)) d') := by
  have hid := length_sessionBytes raw
  have hid' := length_sessionBytes raw'
  simp only [Genuine, UdpConnection.exchange, hsent, hreceived, List.nil_append, List.cons_append,
    List.map_cons, List.map_nil] at hgenuine
  rcases Datagrams.carries_pair hgenuine with ⟨hfirst, hsecond⟩
  rcases Query.eq_challengeReply_of_brings hid hfirst with ⟨k, hd⟩
  have htake : d.data.take 4096 = gs4.challengeReply (sessionBytes raw) k := by
    rw [hd]
    exact take_challengeReply gs4 raw k
  rw [htake, challenge?_challengeReply gs4 hid] at hn
  cases hn
  have hd' : d'.data = gs4.statReply (sessionBytes raw') := by
    rcases Query.eq_reply_of_brings hid hid' (length_toBeBytes _) hsecond with ⟨m, hm⟩ | hstat
    . have hlen := @Query.length_challengeReply_le gs4 _ hid m
      have hshort : (d'.data.take 65536).length < 22 := by
        rw [List.length_take, hm]
        omega
      exact absurd (parseResponse_of_lt hshort) hread
    . exact hstat
  refine ⟨?_, k, ?_, ?_⟩
  . rw [hd', take_statReply]
  . simp only [UdpConnection.exchange, hsent, List.nil_append, List.cons_append, toBeBytes_ofInt]
  . simp only [UdpConnection.exchange, hreceived, List.nil_append, List.cons_append, List.map_cons,
      List.map_nil, hd, hd']

theorem conversed_of_genuine (hsent : connection.sent = []) (hreceived : connection.received = [])
    (h : query raw raw' connection = .ok response connection') (hgenuine : Genuine gs4 connection')
    : Exchanged gs4 raw raw' connection' ∧ ∃ out, parseStat gs4 = .ok out
        ∧ response = QueryResponse.build out.1 out.2 := by
  rcases query_eq_ok_iff.mp h with ⟨d, n, d', out, -, hn, -, hout, rfl, rfl⟩
  rcases exchanged_of_genuine hsent hreceived hn (by rw [hout]; simp) hgenuine with
    ⟨hdata, hexchanged⟩
  rw [hdata, parseResponse_statReply] at hout
  exact ⟨hexchanged, out, hout, rfl⟩

theorem send_recv_ne_panic (packet : List UInt8) (max_size : Nat)
    (connection connection' : UdpConnection)
    : (do UdpConnection.send packet; UdpConnection.recv max_size) connection
        ≠ .error .panic connection' := by
  intro h
  rcases connection with ⟨sendings, receipts, sent, received⟩
  match sendings, receipts with
  | [], _ => cases h
  | some e :: _, _ => cases h
  | none :: _, [] => cases h
  | none :: _, .failed e :: _ => cases h
  | none :: _, .datagram d :: _ => cases h

theorem request_ne_panic (packet : List UInt8) (max_size : Nat) (client client' : QueryClient)
    : request packet max_size client ≠ .error .panic client' := by
  intro h
  unfold request zoom at h
  split at h
  . cases h
  . next failure middle hrun =>
    cases h
    exact send_recv_ne_panic _ _ _ _ hrun

theorem readChallenge_ne_panic (response : List UInt8)
    : readChallenge response ≠ .error .panic := by
  rw [readChallenge]
  split
  . intro h
    cases h
  . next hlength =>
    rw [sliceFrom_of_le (by omega), ok_bind]
    dsimp only
    split
    . intro h
      cases h
    . intro h
      cases h

theorem handshake_ne_panic (raw : Int32) (client client' : QueryClient)
    : handshake raw client ≠ .error .panic client' := by
  intro h
  rw [handshake] at h
  cases hrequest : request (challengePacket (generateSessionId raw)) 4096 client with
  | error failure middle =>
    rw [bind_of_error hrequest] at h
    cases h
    exact request_ne_panic _ _ _ _ hrequest
  | ok reply middle =>
    rw [bind_of_ok hrequest] at h
    cases hread : readChallenge reply with
    | error failure =>
      rw [hread] at h
      cases h
      exact readChallenge_ne_panic reply hread
    | ok n =>
      rw [hread] at h
      cases h

theorem readQuery_panic {raw : Int32} {client client' : QueryClient}
    (h : readQuery raw client = .error .panic client')
    : ∃ d, client.connection.reply? = some d ∧ parseResponse (d.data.take 65536) = .error .panic
        ∧ client'.connection = client.connection.exchange
            (queryPacket (generateSessionId raw) client.challenge) d := by
  rw [readQuery, bind_of_ok (get_apply client)] at h
  cases hrequest : request (queryPacket (generateSessionId raw) client.challenge) 65536 client with
  | error failure middle =>
    rw [bind_of_error hrequest] at h
    cases h
    exact absurd hrequest (request_ne_panic _ _ _ _)
  | ok reply middle =>
    rw [bind_of_ok hrequest] at h
    rcases request_eq_ok_iff.mp hrequest with ⟨d, hreply, rfl, rfl⟩
    cases hparse : parseResponse (d.data.take 65536) with
    | error failure =>
      rw [hparse] at h
      cases h
      exact ⟨d, hreply, hparse, rfl⟩
    | ok out =>
      rw [hparse] at h
      cases h

theorem query_panic (h : query raw raw' connection = .error .panic connection')
    : ∃ d n d', challenge? (d.data.take 4096) = some n
        ∧ parseResponse (d'.data.take 65536) = .error .panic
        ∧ connection' = (connection.exchange (challengeRequest (sessionBytes raw)) d).exchange
            (statRequest (sessionBytes raw') (toBeBytes n)) d' := by
  rw [query] at h
  split at h
  . cases h
  . next failure client hrun =>
    cases h
    rw [converse] at hrun
    cases hhandshake : handshake raw (new connection) with
    | error failure middle =>
      rw [bind_of_error hhandshake] at hrun
      cases hrun
      exact absurd hhandshake (handshake_ne_panic _ _ _)
    | ok _ middle =>
      rw [bind_of_ok hhandshake] at hrun
      rcases handshake_eq_ok_iff.mp hhandshake with ⟨d, n, -, hn, rfl⟩
      rcases readQuery_panic hrun with ⟨d', -, hparse, hclient⟩
      exact ⟨d, n, d', hn, hparse, hclient⟩

theorem parseStat_of_panic (hsent : connection.sent = []) (hreceived : connection.received = [])
    (h : query raw raw' connection = .error .panic connection') (hgenuine : Genuine gs4 connection')
    : Exchanged gs4 raw raw' connection' ∧ parseStat gs4 = .error .panic := by
  rcases query_panic h with ⟨d, n, d', hn, hparse, rfl⟩
  rcases exchanged_of_genuine hsent hreceived hn (by rw [hparse]; simp) hgenuine with
    ⟨hdata, hexchanged⟩
  rw [hdata, parseResponse_statReply] at hparse
  exact ⟨hexchanged, hparse⟩

end QueryClient

end Rust

end McStatus
