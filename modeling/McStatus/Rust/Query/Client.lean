import McStatus.Library.Utf8Lossy
import McStatus.Rust.Connection
import McStatus.Rust.Query.Players
import McStatus.Rust.Query.Response

/-!
This module contains the `QueryClient` of `src/protocol/query.rs`, and which datagrams its requests
are answered with: neither the header of a reply nor its sender is looked at.
-/

namespace McStatus

open Fallible
open Reader

namespace Rust

structure QueryClient where
  connection : UdpConnection
  challenge : Int32
  deriving DecidableEq, Repr

namespace QueryClient

def magicPrefix : List UInt8 :=
  [0xFE, 0xFD]

def packetTypeChallenge : UInt8 := 9

def packetTypeQuery : UInt8 := 0

def padding : List UInt8 :=
  [0x00, 0x00, 0x00, 0x00]

def new (connection : UdpConnection) : QueryClient where
  connection := connection
  challenge := 0

/-- `generate_session_id`, where `raw` is what `gen_range(0..i32::MAX)` gives. -/
def generateSessionId (raw : Int32) : Int32 :=
  raw &&& 0x0F0F0F0F

def readNullTerminatedAscii (data : List UInt8) : List Char :=
  Utf8.lossy (data.take (data.findIdx (· == 0)))

/-- `send` and `recv` of the client's connection, one after the other. -/
def request (packet : List UInt8) (max_size : Nat)
    : EStateM Failure QueryClient (List UInt8) :=
  zoom QueryClient.connection (fun client connection => { client with connection })
    (do UdpConnection.send packet; UdpConnection.recv max_size)

def liftExec {α : Type} (x : Exec α) : EStateM Failure QueryClient α :=
  match x with
  | .ok a => pure a
  | .error e => throw e

def challengePacket (session_id : Int32) : List UInt8 :=
  magicPrefix ++ [packetTypeChallenge] ++ toBeBytes session_id

def queryPacket (session_id challenge : Int32) : List UInt8 :=
  magicPrefix ++ [packetTypeQuery] ++ toBeBytes session_id ++ toBeBytes challenge ++ padding

/-- The part of `handshake` behind `recv`. -/
def readChallenge (response : List UInt8) : Exec Int32 :=
  if response.length < 6 then
    throw (.error (.protocol "Query handshake response too short"))
  else do
    let challenge_bytes ← sliceFrom response 5
    let challenge_str := readNullTerminatedAscii challenge_bytes
    match parseI32 challenge_str with
    | some challenge => pure challenge
    | none => throw (.error (.protocol "Invalid challenge token"))

def handshake (raw : Int32) : EStateM Failure QueryClient Unit := do
  let response ← request (challengePacket (generateSessionId raw)) 4096
  let challenge ← liftExec (readChallenge response)
  modify fun client => { client with challenge }

def readQuery (raw : Int32) : EStateM Failure QueryClient QueryResponse := do
  let client ← get
  let response ← request (queryPacket (generateSessionId raw) client.challenge) 65536
  let (raw, players) ← liftExec (parseResponse response)
  return QueryResponse.build raw players

theorem ascii_of_decimal? {digits : List Char} {n : Nat} (h : decimal? digits = some n)
    : ∀ c ∈ digits, c.toNat < 0x80 := by
  unfold decimal? at h
  generalize 0 = start at h
  induction digits generalizing start with
  | nil => simp
  | cons c digits ih =>
    rw [List.foldlM_cons, Option.bind_eq_bind, Option.bind_eq_some_iff] at h
    rcases h with ⟨next, hc, hrest⟩
    split at hc
    . next hdigit =>
      intro d hd
      rcases List.mem_cons.mp hd with rfl | hd
      . have hle : d.toNat ≤ 57 := (Char.isDigit_iff_toNat.mp hdigit).2
        omega
      . exact ih _ hrest d hd
    . cases hc

theorem ascii_of_parseI32 {s : List Char} {n : Int32} (h : parseI32 s = some n)
    : ∀ c ∈ s, c.toNat < 0x80 := by
  have hdigits : ∃ n, decimal? (splitSign s).2 = some n := by
    simp only [parseI32] at h
    split at h
    . cases h
    . rcases Option.bind_eq_some_iff.mp h with ⟨n, hn, -⟩
      exact ⟨n, hn⟩
  rcases hdigits with ⟨n, hdigits⟩
  have hascii := ascii_of_decimal? hdigits
  intro c hc
  unfold splitSign at hascii
  split at hascii
  . rcases List.mem_cons.mp hc with rfl | hc
    . decide
    . exact hascii c hc
  . rcases List.mem_cons.mp hc with rfl | hc
    . decide
    . exact hascii c hc
  . exact hascii c hc

theorem parseI32_lossy (text : List UInt8)
    : parseI32 (Utf8.lossy text) = parseI32 (Latin1.decode text) := by
  by_cases hascii : ∀ b ∈ text, b < 0x80
  . rw [Utf8.lossy_ascii hascii]
  . have hge : ∃ b ∈ text, 0x80 ≤ b := by simpa using hascii
    have hlossy : parseI32 (Utf8.lossy text) = none := by
      rcases Utf8.exists_mem_lossy_ge hge with ⟨c, hc, hchar⟩
      rw [Option.eq_none_iff_forall_ne_some]
      intro n hn
      exact Nat.not_lt.mpr hchar (ascii_of_parseI32 hn c hc)
    have hlatin : parseI32 (Latin1.decode text) = none := by
      rcases hge with ⟨b, hb, hbyte⟩
      rw [Option.eq_none_iff_forall_ne_some]
      intro n hn
      have hlt := ascii_of_parseI32 hn (Latin1.char b) (List.mem_map_of_mem hb)
      rw [Latin1.char_toNat] at hlt
      exact Nat.not_lt.mpr (UInt8.le_iff_toNat_le.mp hbyte) hlt
    rw [hlossy, hlatin]

/-- The challenge in a reply: the number that is written behind its first five bytes. -/
def challenge? (response : List UInt8) : Option Int32 :=
  parseI32 (Latin1.decode (nulText (response.drop 5)))

theorem readChallenge_eq_ok_iff {response : List UInt8} {n : Int32}
    : readChallenge response = .ok n ↔ challenge? response = some n := by
  unfold readChallenge challenge?
  split
  . next hlt =>
    have hnil : response.drop 5 = [] := List.drop_of_length_le (by omega)
    have hnone : parseI32 (Latin1.decode (nulText (response.drop 5))) = none := by
      rw [hnil]
      rfl
    rw [hnone]
    simp
  . next hge =>
    rw [sliceFrom_of_le (by omega), ok_bind]
    dsimp only [readNullTerminatedAscii]
    rw [take_findIdx_eq_nulText, parseI32_lossy]
    cases parseI32 (Latin1.decode (nulText (response.drop 5))) <;> simp

theorem parseResponse_ok_iff {data : List UInt8}
    : (∃ out, parseResponse data = .ok out)
        ↔
      22 ≤ data.length ∧ ¬ CutShort (keyValueSection data) := by
  cases Nat.lt_or_ge data.length 22 with
  | inl hlt =>
    have hnot : ¬ (22 ≤ data.length) := by omega
    simp [parseResponse_of_lt hlt, hnot]
  | inr hge =>
    rcases parseResponse_of_le hge with ⟨pos, hparse, hdrop⟩
    rw [hparse, parseFrom_ok_iff, hdrop]
    simp [hge]

theorem request_eq_ok_iff {client client' : QueryClient} {packet response : List UInt8}
    {max_size : Nat}
    : request packet max_size client = .ok response client'
        ↔
      ∃ d, client.connection.reply? = some d ∧ response = d.data.take max_size
        ∧ client' = { client with connection := client.connection.exchange packet d } := by
  unfold request zoom
  constructor
  . intro h
    split at h
    . next data connection hrun =>
      rw [EStateM.Result.ok.injEq] at h
      rcases h with ⟨rfl, rfl⟩
      rcases UdpConnection.send_recv_eq_ok_iff.mp hrun with ⟨d, hreply, rfl, rfl⟩
      exact ⟨d, hreply, rfl, rfl⟩
    . cases h
  . rintro ⟨d, hreply, rfl, rfl⟩
    rw [UdpConnection.send_recv_eq_ok_iff.mpr ⟨d, hreply, rfl, rfl⟩]

theorem liftExec_eq_ok_iff {α : Type} {x : Exec α} {a : α} {client client' : QueryClient}
    : liftExec x client = .ok a client' ↔ x = .ok a ∧ client' = client := by
  cases x with
  | ok b =>
    simp only [liftExec, pure_apply, EStateM.Result.ok.injEq, Except.ok.injEq]
    exact and_congr_right fun _ => eq_comm
  | error e => simp [liftExec]

theorem handshake_eq_ok_iff {raw : Int32} {client client' : QueryClient}
    : handshake raw client = .ok () client'
        ↔
      ∃ d n, client.connection.reply? = some d ∧ challenge? (d.data.take 4096) = some n
        ∧ client' = {
            connection :=
              client.connection.exchange (challengePacket (generateSessionId raw)) d
            challenge := n
          } := by
  unfold handshake
  rw [Reader.bind_eq_ok]
  constructor
  . rintro ⟨response, middle, hrequest, hrest⟩
    rcases request_eq_ok_iff.mp hrequest with ⟨d, hreply, rfl, rfl⟩
    rcases Reader.bind_eq_ok.mp hrest with ⟨n, middle, hlift, hset⟩
    rcases liftExec_eq_ok_iff.mp hlift with ⟨hread, rfl⟩
    rw [modify_apply, EStateM.Result.ok.injEq] at hset
    exact ⟨d, n, hreply, readChallenge_eq_ok_iff.mp hread, hset.2.symm⟩
  . rintro ⟨d, n, hreply, hn, rfl⟩
    refine ⟨_, _, request_eq_ok_iff.mpr ⟨d, hreply, rfl, rfl⟩, ?_⟩
    rw [bind_of_ok (liftExec_eq_ok_iff.mpr ⟨readChallenge_eq_ok_iff.mpr hn, rfl⟩)]
    rfl

theorem readQuery_eq_ok_iff {raw : Int32} {client client' : QueryClient} {response : QueryResponse}
    : readQuery raw client = .ok response client'
        ↔
      ∃ d out, client.connection.reply? = some d ∧ parseResponse (d.data.take 65536) = .ok out
        ∧ response = QueryResponse.build out.1 out.2
        ∧ client' = {
            client with
            connection := client.connection.exchange
              (queryPacket (generateSessionId raw) client.challenge) d
          } := by
  unfold readQuery
  rw [bind_of_ok (get_apply client), Reader.bind_eq_ok]
  constructor
  . rintro ⟨data, middle, hrequest, hrest⟩
    rcases request_eq_ok_iff.mp hrequest with ⟨d, hreply, rfl, rfl⟩
    rcases Reader.bind_eq_ok.mp hrest with ⟨⟨parsed, players⟩, middle, hlift, hbuild⟩
    rcases liftExec_eq_ok_iff.mp hlift with ⟨hparse, rfl⟩
    cases hbuild
    exact ⟨d, _, hreply, hparse, rfl, rfl⟩
  . rintro ⟨d, out, hreply, hparse, rfl, rfl⟩
    refine ⟨_, _, request_eq_ok_iff.mpr ⟨d, hreply, rfl, rfl⟩, ?_⟩
    rw [bind_of_ok (liftExec_eq_ok_iff.mpr ⟨hparse, rfl⟩)]
    rfl

def Bears (d : Datagram) (packet_type : UInt8) (session_id : Int32) : Prop :=
  packet_type :: toBeBytes session_id <+: d.data

instance (d : Datagram) (packet_type : UInt8) (session_id : Int32)
    : Decidable (Bears d packet_type session_id) :=
  inferInstanceAs (Decidable (_ <+: _))

def ChallengeFrom (client : QueryClient) (d : Datagram) : Prop :=
  client.connection.received.getLast? = some d
    ∧ challenge? (d.data.take 4096) = some client.challenge

def ResponseFrom (client : QueryClient) (response : QueryResponse) (d : Datagram) : Prop :=
  client.connection.received.getLast? = some d
    ∧ ∃ out, parseResponse (d.data.take 65536) = .ok out
        ∧ response = QueryResponse.build out.1 out.2

/-- What `handshake` and then `read_query` take replies from has the header of a reply to them. -/
def RepliesMatch (raw raw' : Int32) (client : QueryClient) : Prop :=
  ∀ client', handshake raw client = .ok () client' →
    (∃ d, ChallengeFrom client' d ∧ Bears d packetTypeChallenge (generateSessionId raw))
      ∧ ∀ response client'', readQuery raw' client' = .ok response client'' →
          ∃ d, ResponseFrom client'' response d
            ∧ Bears d packetTypeQuery (generateSessionId raw')

def Answers (d : Datagram) : Prop :=
  22 ≤ (d.data.take 65536).length ∧ ¬ CutShort (keyValueSection (d.data.take 65536))

/--
The datagram that is first in the socket after each of the two requests has the header of a reply to
it, or cannot be read as one.
-/
def BringsMatching (raw raw' : Int32) (client : QueryClient) : Prop :=
  ∀ d, client.connection.reply? = some d → (challenge? (d.data.take 4096)).isSome →
    Bears d packetTypeChallenge (generateSessionId raw)
      ∧ ∀ d', (client.connection.exchange (challengePacket (generateSessionId raw)) d).reply?
            = some d' →
          Answers d' → Bears d' packetTypeQuery (generateSessionId raw')

theorem getLast?_exchange (connection : UdpConnection) (packet : List UInt8) (d : Datagram)
    : (connection.exchange packet d).received.getLast? = some d := by
  rw [UdpConnection.exchange_received, List.getLast?_concat]

theorem challengeFrom_exchange_iff {connection : UdpConnection} {packet : List UInt8}
    {d d' : Datagram} {n : Int32} (hn : challenge? (d.data.take 4096) = some n)
    : ChallengeFrom { connection := connection.exchange packet d, challenge := n } d' ↔ d' = d := by
  rw [ChallengeFrom, getLast?_exchange, Option.some.injEq]
  constructor
  . rintro ⟨rfl, -⟩
    rfl
  . rintro rfl
    exact ⟨rfl, hn⟩

theorem RepliesMatch.brings {raw raw' : Int32} {client : QueryClient}
    (h : RepliesMatch raw raw' client) : BringsMatching raw raw' client := by
  intro d hreply hchallenge
  rcases Option.isSome_iff_exists.mp hchallenge with ⟨n, hn⟩
  rcases h _ (handshake_eq_ok_iff.mpr ⟨d, n, hreply, hn, rfl⟩) with ⟨hfirst, hsecond⟩
  constructor
  . rcases hfirst with ⟨d', hfrom, hbears⟩
    rwa [(challengeFrom_exchange_iff hn).mp hfrom] at hbears
  . intro d' hreply' hanswers
    rcases parseResponse_ok_iff.mpr hanswers with ⟨out, hout⟩
    rcases hsecond _ _ (readQuery_eq_ok_iff.mpr ⟨d', out, hreply', hout, rfl, rfl⟩) with
      ⟨d'', ⟨hlast, -⟩, hbears⟩
    rw [getLast?_exchange, Option.some.injEq] at hlast
    rwa [hlast]

theorem BringsMatching.repliesMatch {raw raw' : Int32} {client : QueryClient}
    (h : BringsMatching raw raw' client) : RepliesMatch raw raw' client := by
  intro client' hhandshake
  rcases handshake_eq_ok_iff.mp hhandshake with ⟨d, n, hreply, hn, rfl⟩
  rcases h d hreply (Option.isSome_iff_exists.mpr ⟨n, hn⟩) with ⟨hfirst, hsecond⟩
  refine ⟨⟨d, (challengeFrom_exchange_iff hn).mpr rfl, hfirst⟩, ?_⟩
  intro response client'' hread
  rcases readQuery_eq_ok_iff.mp hread with ⟨d', out, hreply', hout, rfl, rfl⟩
  refine ⟨d', ⟨getLast?_exchange _ _ _, out, hout, rfl⟩, ?_⟩
  exact hsecond d' hreply' (parseResponse_ok_iff.mp ⟨out, hout⟩)

/--
Both calls take the first datagram in the socket for the reply to their request, so the replies
match the requests exactly when these datagrams do.
-/
theorem repliesMatch_iff (raw raw' : Int32) (client : QueryClient)
    : (∀ client', handshake raw client = .ok () client'
          ↔
        ∃ d n, client.connection.reply? = some d ∧ challenge? (d.data.take 4096) = some n
          ∧ client' = {
              connection :=
                client.connection.exchange (challengePacket (generateSessionId raw)) d
              challenge := n
            })
        ∧ (∀ client' response client'', readQuery raw' client' = .ok response client''
            ↔
          ∃ d out, client'.connection.reply? = some d
            ∧ parseResponse (d.data.take 65536) = .ok out
            ∧ response = QueryResponse.build out.1 out.2
            ∧ client'' = {
                client' with
                connection := client'.connection.exchange
                  (queryPacket (generateSessionId raw') client'.challenge) d
              })
        ∧ (RepliesMatch raw raw' client ↔ BringsMatching raw raw' client) :=
  ⟨fun _ => handshake_eq_ok_iff, fun _ _ _ => readQuery_eq_ok_iff,
    ⟨RepliesMatch.brings, BringsMatching.repliesMatch⟩⟩

def stray (data : List UInt8) : Datagram where
  sender := { ip := .v4 #v[192, 0, 2, 1], port := 25565 }
  data := data

/--
A datagram of type 0 is taken for the challenge reply. A challenge reply that arrives twice, with
NULs behind its number, is taken for the answer to the query too.
-/
theorem replies_mismatch
    : ¬ RepliesMatch 1 1 (new (.bind [none, none]
          [.datagram (stray ([0, 0, 0, 0, 0] ++ Latin1.encode "7".toList))]))
        ∧ ¬ RepliesMatch 1 1 (new (.bind [none, none]
            (List.replicate 2 (.datagram (stray
              ([9, 0, 0, 0, 1] ++ Latin1.encode "7".toList ++ List.replicate 16 0)))))) := by
  constructor
  . intro h
    have hbears := (h.brings _ rfl (by decide)).1
    revert hbears
    decide
  . intro h
    have hanswers : Answers (stray
        ([9, 0, 0, 0, 1] ++ Latin1.encode "7".toList ++ List.replicate 16 0)) := by
      apply parseResponse_ok_iff.mp
      exact ⟨({}, []), by decide +kernel⟩
    have hbears := (h.brings _ rfl (by decide)).2 _ rfl hanswers
    revert hbears
    decide

end QueryClient

end Rust

end McStatus
